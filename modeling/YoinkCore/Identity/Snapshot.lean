import YoinkCore.Identity.Database
import YoinkCore.Insight.Streaming

/-!
# Snapshots

What is known about a user, and about the group of a chat, at one instant of the database. A
snapshot decides about a policy and a feature.
-/

namespace YoinkCore.Identity

open Lib Domain
open Insight (JsonReader)

/-! ## Features -/

def registeredFeatures : List FeatureSpec :=
  [⟨"dl", "inline", some .user⟩,
   ⟨"dl", "shared_cookies", some .admin⟩,
   ⟨"stats", "stats", some .user⟩,
   ⟨"insight", "summary", none⟩,
   ⟨"insight", "tldr", none⟩,
   ⟨"insight", "search", none⟩,
   ⟨"music", "inline", some .user⟩,
   ⟨"inbox", "ingest", some .user⟩,
   ⟨"inbox", "classify", none⟩,
   ⟨"inbox", "share", some .user⟩,
   ⟨"inbox", "gh_sync", none⟩,
   ⟨"inbox", "gh_organise", none⟩,
   ⟨"inbox", "gh_write", none⟩,
   ⟨"inbox", "admin", some .admin⟩]

def registered (plugin feature : String) : Bool :=
  registeredFeatures.any fun s => s.plugin == plugin && s.feature == feature

/-! ## Tags -/

abbrev TagMap := List (String × List String)

/-- `serde_json` of a map to lists of texts, in the order of the document. -/
def readTagMap [JsonReader] (raw : String) : Option TagMap :=
  match JsonReader.parse raw with
  | some (.obj fields) => fields.mapM fun (tag, value) =>
      match value with
      | .arr items => (items.mapM Json.asStr).map fun keys => (tag, keys)
      | _ => none
  | _ => none

/-- `split_once(':')` -/
def splitKey (key : String) : Option (String × String) :=
  (Text.splitOnce [':'] key.toList).map fun (p, f) => (String.ofList p, String.ofList f)

def validTag (tag : String) : Bool :=
  !(Text.trim tag.toList).isEmpty && !tag.toList.any Text.isControl

/-- The key of a feature, as an administrator may map it. -/
def validKey (key : String) : Bool :=
  match splitKey key with
  | none => false
  | some (plugin, feature) =>
      !plugin.isEmpty && !feature.isEmpty && !feature.toList.contains ':' &&
        registered plugin feature

/-- `validated_tag_map` -/
def validTagMap (m : TagMap) : Bool :=
  m.all fun (tag, keys) => validTag tag && keys.all validKey && decide keys.Nodup

/-- The features that a user has by the tags of current memberships. A map that is not valid
grants none. -/
def IdentityDb.automaticGrants [JsonReader] (db : IdentityDb) (user : Int) : List Grant :=
  match db.setting "tag_map" with
  | none => []
  | some raw =>
      match (readTagMap raw).filter validTagMap with
      | none => []
      | some m =>
          let tags := db.activeTags user
          let keys := (m.filter fun e => tags.contains e.1).flatMap fun e =>
            e.2.filterMap splitKey
          let keys := keys.filter fun k => !db.featureSuppressions.contains (user, k.1, k.2)
          keys.dedup.map fun k => ⟨k.1, k.2, none⟩

/-- An automatic grant makes the first stored one of its feature indefinite. -/
def mergeGrant : List Grant → Grant → List Grant
  | [], g => [g]
  | old :: rest, g =>
      if old.plugin == g.plugin && old.feature == g.feature then
        { old with expiresAt := none } :: rest
      else old :: mergeGrant rest g

/-! ## Reading -/

inductive IdentityError where
  | invalidId
  | database
  | unauthorized
  | forbidden
  | invalidProfile
  | invalidPolicy
  | languageRevisionOverflow
  | invalidMembership
  | membershipConflict
deriving DecidableEq

/-- Who owns the service, and whether its providers are there. -/
structure IdentityStore where
  ownerId : Option Int
  insightEnabled : Bool

structure GroupContext where
  groupId : Int
  enabled : Bool
  roleOverride : Option Role
  autoGrantRole : Role
  threadAllowed : Bool

structure Snapshot extends IdentitySnapshot where
  language : String
  group : Option GroupContext

/-- The value of a switch. Only letters of ASCII come out as those of the four words. -/
def switchedOn (value : String) : Bool :=
  ["1", "true", "yes", "on"].contains (String.ofList (value.toList.map Text.toLower))

def IdentityDb.byokReady (db : IdentityDb) (user : Int) : Bool :=
  (db.byok.lookup user).any fun r => r.testedAt.isSome && r.testError.isNone

/-- The configured owner is elevated, but not from a ban. -/
def IdentityStore.principal (store : IdentityStore) (user : Int) (row : UserRow) (now : Int) :
    Principal :=
  let p : Principal := ⟨user, row.role, row.banUntil⟩
  if !p.isBlocked now && decide (store.ownerId = some user) then { p with role := .owner } else p

theorem principal_userId {store : IdentityStore} {now : Int} (user : Int) (row : UserRow) :
    (store.principal user row now).userId = user := by
  unfold IdentityStore.principal
  dsimp only
  split <;> rfl

/-- User 1 owns the service. -/
def ownedStore : IdentityStore := ⟨some 1, true⟩

def IdentityStore.providers (store : IdentityStore) (db : IdentityDb) (user : Int) :
    List ProviderGrant :=
  if store.insightEnabled && (db.setting "insight_byok_enabled").any switchedOn &&
      db.byokReady user then [⟨"insight", "tldr"⟩]
  else []

def IdentityDb.groupContext (db : IdentityDb) (user group : Int) (thread : Option Int) :
    Option GroupContext :=
  (db.groups.lookup group).map fun g =>
    { groupId := group
      enabled := g.enabled && !db.knownGone user group
      roleOverride := (db.policies.lookup (user, group)).bind (·.roleOverride)
      autoGrantRole := g.autoGrantRole
      threadAllowed := db.threadAllowed group thread }

def IdentityStore.readSnapshot [JsonReader] (store : IdentityStore) (now : Int) (db : IdentityDb)
    (user : Int) (group : Option (Int × Option Int)) : Except IdentityError (Option Snapshot) :=
  match db.users.lookup user with
  | none => .ok none
  | some row =>
      let snapshot (context : Option GroupContext) : Snapshot :=
        { principal := store.principal user row now
          grants := (db.automaticGrants user).foldl mergeGrant (db.grants user)
          providers := store.providers db user
          now
          language := row.language
          group := context }
      match group with
      | none => .ok (some (snapshot none))
      | some (id, thread) =>
          match db.groupContext user id thread with
          | none => .error .database
          | some context => .ok (some (snapshot (some context)))

/-- `snapshot`, which checks the ids first. -/
def IdentityStore.snapshot [JsonReader] (store : IdentityStore) (now : Int) (db : IdentityDb)
    (user : Int) (group : Option (Int × Option Int)) : Except IdentityError (Option Snapshot) :=
  if user ≤ 0 || store.ownerId.any (fun id => decide (id ≤ 0)) ||
      group.any (fun g => decide (0 ≤ g.1) || g.2.any fun t => decide (t ≤ 0)) then
    .error .invalidId
  else store.readSnapshot now db user group

/-! ## Deciding -/

structure Authorization where
  decision : AccessDecision
  grantSource : Option GrantSource

def Snapshot.context (s : Snapshot) : AccessContext :=
  match s.group with
  | some g => ⟨.groupScope, g.enabled, g.threadAllowed, g.roleOverride, some g.autoGrantRole⟩
  | none => ⟨.privateScope, false, false, none, none⟩

def Snapshot.authorize (s : Snapshot) (policy : AccessPolicy)
    (feature : Option (String × String)) : Authorization :=
  let decision := checkAccess s.principal policy s.context s.now
  if !decision.allowed then ⟨decision, none⟩
  else
    match feature with
    | none => ⟨decision, none⟩
    | some (plugin, name) =>
        match registeredFeatures.find? fun f => f.plugin == plugin && f.feature == name with
        | none => ⟨{ decision with allowed := false, denyReason := "unknown_feature" }, none⟩
        | some spec =>
            match effectiveGrant { s.principal with role := decision.effectiveRole } spec s.grants
                s.providers s.now with
            | none => ⟨{ decision with allowed := false, denyReason := "feature_denied" }, none⟩
            | some source => ⟨decision, some source⟩

end YoinkCore.Identity
