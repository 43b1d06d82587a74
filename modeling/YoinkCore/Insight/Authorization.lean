import YoinkCore.Identity.Snapshot

/-!
# Authorization of a request

Insight decides about a feature by reading the identity database itself.
-/

namespace YoinkCore.Insight

open Lib Domain Identity

/-- The map of the setting, if the features of every tag may be granted. -/
def grantableMap (m : TagMap) : Bool :=
  !m.isEmpty && m.all fun (tag, keys) =>
    !(Text.trim tag.toList).isEmpty && !tag.toList.any Text.isControl && decide keys.Nodup &&
      keys.all fun key => (splitKey key).any fun (p, f) => registered p f

/-- The grants of the tags, one for each time a current tag lists a feature. -/
def tagGrants [JsonReader] (db : IdentityDb) (uid : Int) : List Domain.Grant :=
  match (readTagMap ((db.setting "tag_map").getD "\x7b\x7d")).filter grantableMap with
  | none => []
  | some map =>
      let tags := db.activeTags uid
      map.flatMap fun (tag, keys) =>
        if tags.contains tag then
          keys.filterMap fun key =>
            (splitKey key).bind fun (p, f) =>
              if registered p f && !db.featureSuppressions.contains (uid, p, f) then
                some ⟨p, f, none⟩
              else none
        else []

def byokEnabled (db : IdentityDb) : Bool :=
  switchedOn ((db.setting "insight_byok_enabled").getD "false")

/-- A tested row counts only with a key. -/
def byokTested (db : IdentityDb) (uid : Int) : Bool :=
  (db.byok.lookup uid).any fun r => r.testedAt.isSome && r.testError.isNone && r.apiKey ≠ ""

/-- `authorize_inner` -/
def authorizeInner [JsonReader] (store : IdentityStore) (now : Int) (db : IdentityDb) (uid : Int)
    (feature : Option String) (admin providerGrants : Bool) : Except Error Unit := do
  let some row := db.users.lookup uid | throw (.code "access_denied")
  let role :=
    if decide (uid = store.ownerId.getD 0) && row.role ≠ .banned then .owner else row.role
  let p : Principal := ⟨uid, role, row.banUntil⟩
  if uid ≤ 0 || p.isBlocked now || (admin && role.rank < Role.admin.rank) then
    throw (.code "access_denied")
  match feature with
  | none => return ()
  | some feature =>
      let (plugin, feature) := (splitKey feature).getD ("insight", feature)
      let grants := db.grants uid ++ tagGrants db uid
      let spec := (registeredFeatures.find? fun s =>
        s.plugin == plugin && s.feature == feature).getD
        ⟨plugin, feature, none⟩
      if (effectiveGrant p spec grants [] now).isNone then
        let byok := providerGrants && plugin == "insight" && feature == "tldr" &&
          byokEnabled db && byokTested db uid
        if !byok then throw (.code "access_denied")
      return ()

end YoinkCore.Insight
