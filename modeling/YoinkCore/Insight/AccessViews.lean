import YoinkCore.Identity.FeatureAccess
import YoinkCore.Insight.Authorization
import YoinkCore.Lib.Transaction

/-!
# The views of access

The snapshot of a user, the administration and Insight each put the grants of a user together in
their own way. What the lists grant is the same.
-/

namespace YoinkCore.Insight

open Lib Domain Identity

/-! ## What a list grants -/

def Named (spec : FeatureSpec) (g : Domain.Grant) : Bool :=
  g.plugin == spec.plugin && g.feature == spec.feature

def covers (spec : FeatureSpec) (now : Int) (grants : List Domain.Grant) : Bool :=
  grants.any fun g => Named spec g && g.expiresAt.all fun t => decide (now < t)

/-- What grants a feature to a role, apart from providers. -/
def reasons (spec : FeatureSpec) (now : Int) (role : Role) (grants : List Domain.Grant) : Bool :=
  decide (role = .owner) || covers spec now grants ||
    spec.defaultMinRole.any fun minimum => decide (minimum.rank ≤ role.rank)

theorem isSome_effectiveGrant (p : Principal) (spec : FeatureSpec) (grants : List Domain.Grant)
    (providers : List ProviderGrant) (now : Int) :
    (effectiveGrant p spec grants providers now).isSome =
      (!(decide (p.userId ≤ 0) || p.isBlocked now) && (reasons spec now p.role grants ||
        providers.any fun g => g.plugin == spec.plugin && g.feature == spec.feature)) := by
  unfold effectiveGrant reasons
  split
  · rename_i h
    have h' : (decide (p.userId ≤ 0) || p.isBlocked now) = true := by
      simpa only [Bool.or_eq_true, decide_eq_true_eq] using h
    rw [h']
    rfl
  · rename_i h
    simp only [Bool.or_eq_true, decide_eq_true_eq] at h
    simp only [not_or, Bool.not_eq_true] at h
    simp only [h.1, h.2, decide_false, Bool.or_false, Bool.not_false, Bool.true_and]
    split
    · rename_i hrole
      simp [hrole]
    · rename_i hrole
      simp only [hrole, decide_false, Bool.false_or]
      change (if covers spec now grants = true then _ else _ : Option GrantSource).isSome = _
      cases covers spec now grants with
      | true => simp
      | false =>
          simp only [Bool.false_eq_true, if_false, Bool.false_or]
          split
          · rename_i hmin
            simp [hmin]
          · rename_i hmin
            simp only [Bool.not_eq_true] at hmin
            simp only [hmin, Bool.false_or]
            split
            · rename_i hprov
              simp [hprov]
            · rename_i hprov
              simpa using hprov

section

variable {spec : FeatureSpec} {now : Int}

theorem covers_append (l l' : List Domain.Grant) :
    covers spec now (l ++ l') = (covers spec now l || covers spec now l') := List.any_append

theorem covers_mergeGrant {g : Domain.Grant} (hg : g.expiresAt = none) (l : List Domain.Grant) :
    covers spec now (mergeGrant l g) = (covers spec now l || Named spec g) := by
  induction l with
  | nil => simp [mergeGrant, covers, hg]
  | cons old rest ih =>
      unfold mergeGrant
      split
      · rename_i hsame
        -- The merged grant has the names of both.
        have hnamed : Named spec old = Named spec g := by
          simp only [Bool.and_eq_true, beq_iff_eq] at hsame
          simp only [Named, hsame.1, hsame.2]
        have hnew : Named spec { old with expiresAt := none } = Named spec old := rfl
        simp only [covers, List.any_cons, hnew, hnamed, Option.all_none, Bool.and_true]
        cases Named spec g <;> simp
      · simp only [covers, List.any_cons] at ih ⊢
        rw [ih, Bool.or_assoc]

theorem covers_merged {auto : List Domain.Grant} (hauto : ∀ g ∈ auto, g.expiresAt = none)
    (l : List Domain.Grant) :
    covers spec now (auto.foldl mergeGrant l) = (covers spec now l || auto.any (Named spec)) := by
  induction auto generalizing l with
  | nil => simp
  | cons g rest ih =>
      rw [List.foldl_cons, ih fun g' hg' => hauto g' (List.mem_cons_of_mem _ hg'),
        covers_mergeGrant (hauto g List.mem_cons_self), List.any_cons, Bool.or_assoc]

/-! ## The permissions of the administration -/

/-- The grant that a permission is. -/
def grantOf (p : AdminPermission) : Domain.Grant := ⟨p.plugin, p.feature, p.expiresAt⟩

theorem covers_appendAutomatic (user : Int) (g : Domain.Grant) (out : List AdminPermission) :
    covers spec now ((appendAutomatic user out g).map grantOf) =
      (covers spec now (out.map grantOf) || Named spec g) := by
  have hsame : ∀ p ∈ out, (decide (p.userId = user) && p.plugin == g.plugin &&
      p.feature == g.feature) = true → Named spec (grantOf p) = Named spec g := by
    intro p _ h
    simp only [Bool.and_eq_true, beq_iff_eq, decide_eq_true_eq] at h
    simp only [Named, grantOf, h.1.2, h.2]
  unfold appendAutomatic
  dsimp only
  split
  · rename_i hany
    obtain ⟨p, hp, hboth⟩ := List.any_eq_true.mp hany
    obtain ⟨hs, hnone⟩ := Bool.and_eq_true_iff.mp hboth
    cases hg : Named spec g with
    | false => rw [Bool.or_false]
    | true =>
        rw [Bool.or_true]
        refine List.any_eq_true.mpr ⟨grantOf p, List.mem_map_of_mem hp, ?_⟩
        rw [hsame p hp hs, hg, Bool.true_and]
        show p.expiresAt.all _ = true
        rw [Option.isNone_iff_eq_none.mp hnone]
        rfl
  · rw [List.map_append, covers_append]
    have hlast : covers spec now ([(⟨user, g.plugin, g.feature, 0, 0, none, "tag"⟩ :
        AdminPermission)].map grantOf) = Named spec g := by
      simp [covers, grantOf, Named]
    rw [hlast]
    cases hg : Named spec g with
    | true => rw [Bool.or_true, Bool.or_true]
    | false =>
        rw [Bool.or_false, Bool.or_false, Bool.eq_iff_iff]
        simp only [covers, List.any_map, List.any_eq_true, Function.comp, List.mem_filter]
        refine exists_congr fun p => ⟨fun h => ⟨h.1.1, h.2⟩, fun h => ⟨⟨h.1, ?_⟩, h.2⟩⟩
        -- What is dropped is not of the feature.
        rw [Bool.not_eq_true']
        refine Bool.eq_false_iff.mpr fun hs => ?_
        have hnamed := (Bool.and_eq_true_iff.mp h.2).1
        rw [hsame p h.1 hs, hg] at hnamed
        cases hnamed

theorem covers_automatic (user : Int) (auto : List Domain.Grant) (out : List AdminPermission) :
    covers spec now ((auto.foldl (appendAutomatic user) out).map grantOf) =
      (covers spec now (out.map grantOf) || auto.any (Named spec)) := by
  induction auto generalizing out with
  | nil => simp
  | cons g rest ih =>
      rw [List.foldl_cons, ih, covers_appendAutomatic, List.any_cons, Bool.or_assoc]

/-- The grants of the rows that are in force. -/
theorem covers_inForce (rows : List Domain.Grant) :
    covers spec now (rows.filter fun g => g.expiresAt.all fun t => decide (now < t)) =
      covers spec now rows := by
  unfold covers
  rw [List.any_filter]
  refine congrArg (rows.any ·) (funext fun g => ?_)
  cases g.expiresAt.all fun t => decide (now < t) <;> simp

end

section

variable {now : Int} {db : IdentityDb} {user : Int}

theorem mapM_decode {rows : List (Sigma fun _ : Int × String × String => PermissionRow)}
    {permissions : List AdminPermission}
    (h : (rows.mapM fun e => decodePermission user e.1.2.1 e.1.2.2 e.2) = .ok permissions) :
    permissions.map grantOf = rows.map fun e => ⟨e.1.2.1, e.1.2.2, e.2.expiresAt⟩ := by
  induction rows generalizing permissions with
  | nil =>
      cases h
      rfl
  | cons e rest ih =>
      rw [List.mapM_cons] at h
      obtain ⟨p, hp, h⟩ := Tx.result_bind_eq_ok.mp h
      obtain ⟨ps, hps, h⟩ := Tx.result_bind_eq_ok.mp h
      cases h
      rw [List.map_cons, List.map_cons, ih hps]
      refine congrArg (· :: _) ?_
      unfold decodePermission at hp
      split at hp
      · cases hp
      · cases hp
        rfl

theorem covers_permissionList [JsonReader] {spec : FeatureSpec}
    {permissions : List AdminPermission} (h : db.permissionList now user = .ok permissions) :
    covers spec now (permissions.map grantOf) =
      (covers spec now (db.grants user) || (db.automaticGrants user).any (Named spec)) := by
  unfold IdentityDb.permissionList at h
  obtain ⟨rows, hrows, h⟩ := Tx.result_bind_eq_ok.mp h
  cases h
  rw [covers_automatic, mapM_decode hrows]
  refine congrArg (· || _) ?_
  rw [← covers_inForce (db.grants user)]
  unfold IdentityDb.grants
  rw [List.filter_map, List.filter_filter]
  refine congrArg (fun l => covers spec now (List.map _ l)) ?_
  exact List.filter_congr fun e _ => Bool.and_comm _ _

end

/-! ## Tags -/

/-- The reader reads the empty object. -/
def ReadsEmpty [JsonReader] : Prop := JsonReader.parse "\x7b\x7d" = some (.obj [])

theorem registered_iff {p f : String} :
    registered p f = true ↔ ∃ s ∈ registeredFeatures, s.plugin = p ∧ s.feature = f := by
  simp [registered]

/-- Only names without the separator are registered. -/
theorem validKey_eq (key : String) :
    validKey key = (splitKey key).any fun (p, f) => registered p f := by
  unfold validKey
  cases splitKey key with
  | none => rfl
  | some k =>
      obtain ⟨p, f⟩ := k
      show (!p.isEmpty && !f.isEmpty && !f.toList.contains ':' && registered p f) = registered p f
      cases h : registered p f with
      | false => rw [Bool.and_false]
      | true =>
          obtain ⟨s, hs, rfl, rfl⟩ := registered_iff.mp h
          have hplain : ∀ s ∈ registeredFeatures,
              (!s.plugin.isEmpty && !s.feature.isEmpty && !s.feature.toList.contains ':') =
                true := by
            decide
          rw [hplain s hs]
          rfl

/-- Both readers of the map accept the same ones, but for the empty map. -/
theorem grantableMap_eq (m : TagMap) : grantableMap m = (!m.isEmpty && validTagMap m) := by
  unfold grantableMap validTagMap
  refine congrArg (!m.isEmpty && m.all ·) (funext fun e => ?_)
  obtain ⟨tag, keys⟩ := e
  simp only [validTag, funext validKey_eq, Bool.and_assoc]
  rw [Bool.and_comm (decide keys.Nodup)]

section

variable {now : Int} {db : IdentityDb} {user : Int} {spec : FeatureSpec}

/-- A tag of the map gives the feature. -/
def Tagged (db : IdentityDb) (user : Int) (spec : FeatureSpec) (m : TagMap) : Prop :=
  (∃ e ∈ m, (db.activeTags user).contains e.1 = true ∧
    ∃ key ∈ e.2, splitKey key = some (spec.plugin, spec.feature)) ∧
    db.featureSuppressions.contains (user, spec.plugin, spec.feature) = false

/-- The valid map of the setting. -/
def tagMap [JsonReader] (db : IdentityDb) : Option TagMap :=
  ((db.setting "tag_map").bind readTagMap).filter validTagMap

theorem named_automatic [JsonReader] :
    (db.automaticGrants user).any (Named spec) = true ↔
      ∃ m, tagMap db = some m ∧ Tagged db user spec m := by
  unfold IdentityDb.automaticGrants tagMap Tagged
  cases db.setting "tag_map" with
  | none => simp
  | some raw =>
      simp only [Option.bind_some]
      cases (readTagMap raw).filter validTagMap with
      | none => simp
      | some m =>
          simp only [Option.some.injEq, exists_eq_left', List.any_map, List.any_eq_true,
            List.mem_dedup, List.mem_filter, List.mem_flatMap, List.mem_filterMap, Named,
            Function.comp, Bool.and_eq_true, beq_iff_eq]
          constructor
          · rintro ⟨⟨p, f⟩, ⟨⟨e, ⟨he, htag⟩, key, hkey, hsplit⟩, hfree⟩, rfl, rfl⟩
            exact ⟨⟨e, he, htag, key, hkey, hsplit⟩, by simpa using hfree⟩
          · rintro ⟨⟨e, he, htag, key, hkey, hsplit⟩, hfree⟩
            exact ⟨_, ⟨⟨e, ⟨he, htag⟩, key, hkey, hsplit⟩, by simpa using hfree⟩, rfl, rfl⟩

theorem covers_tagGrants [JsonReader] (hreader : ReadsEmpty) (hspec : spec ∈ registeredFeatures) :
    covers spec now (tagGrants db user) = true ↔
      ∃ m, tagMap db = some m ∧ Tagged db user spec m := by
  have hregistered : registered spec.plugin spec.feature = true :=
    registered_iff.mpr ⟨spec, hspec, rfl, rfl⟩
  have hgrants : ∀ m : TagMap, covers spec now (m.flatMap fun e =>
      if (db.activeTags user).contains e.1 then
        e.2.filterMap fun key => (splitKey key).bind fun k =>
          if registered k.1 k.2 && !db.featureSuppressions.contains (user, k.1, k.2) then
            some ⟨k.1, k.2, none⟩
          else none
      else []) = true ↔ Tagged db user spec m := by
    intro m
    unfold covers Tagged Named
    rw [List.any_eq_true]
    constructor
    · rintro ⟨g, hg, hnamed⟩
      obtain ⟨e, he, hg⟩ := List.mem_flatMap.mp hg
      split at hg
      · rename_i htag
        obtain ⟨key, hkey, hg⟩ := List.mem_filterMap.mp hg
        obtain ⟨k, hsplit, hg⟩ := Option.bind_eq_some_iff.mp hg
        split at hg
        · rename_i hfree
          cases hg
          simp only [Bool.and_eq_true, beq_iff_eq, Bool.not_eq_true'] at hnamed hfree
          obtain ⟨⟨hp, hf⟩, -⟩ := hnamed
          rw [hp, hf] at hfree
          exact ⟨⟨e, he, htag, key, hkey, hsplit.trans (congrArg some (Prod.ext hp hf))⟩, hfree.2⟩
        · cases hg
      · cases hg
    · rintro ⟨⟨e, he, htag, key, hkey, hsplit⟩, hfree⟩
      refine ⟨⟨spec.plugin, spec.feature, none⟩, List.mem_flatMap.mpr ⟨e, he, ?_⟩, by simp⟩
      rw [if_pos htag]
      refine List.mem_filterMap.mpr ⟨key, hkey, ?_⟩
      rw [hsplit, Option.bind_some, hregistered, hfree]
      rfl
  unfold tagGrants tagMap
  cases hraw : db.setting "tag_map" with
  | none =>
      have hempty : readTagMap "\x7b\x7d" = some [] := by
        unfold readTagMap
        rw [hreader]
        rfl
      simp [hempty, grantableMap, covers, Option.filter]
  | some raw =>
      simp only [Option.getD_some, Option.bind_some]
      cases hm : readTagMap raw with
      | none => simp [covers]
      | some m =>
          cases m with
          | nil => simp [Option.filter, grantableMap, covers, Tagged]
          | cons e rest =>
              have heq := grantableMap_eq (e :: rest)
              rw [List.isEmpty_cons, Bool.not_false, Bool.true_and] at heq
              simp only [Option.filter, heq]
              by_cases hvalid : validTagMap (e :: rest) = true
              · rw [if_pos hvalid]
                simpa only [Option.some.injEq, exists_eq_left'] using hgrants (e :: rest)
              · rw [if_neg hvalid]
                simp [covers]

end

/-! ## The three answers -/

/-- The key of a feature, as requests name it. -/
def keyOf (spec : FeatureSpec) : String := spec.plugin ++ ":" ++ spec.feature

theorem splitKey_keyOf : ∀ spec ∈ registeredFeatures,
    splitKey (keyOf spec) = some (spec.plugin, spec.feature) := by
  decide

theorem find_registered : ∀ spec ∈ registeredFeatures,
    (registeredFeatures.find? fun f => f.plugin == spec.plugin && f.feature == spec.feature) =
      some spec := by
  decide

/-- The row of a user is blocked. -/
def Barred (user : Int) (row : UserRow) (now : Int) : Bool :=
  (⟨user, row.role, row.banUntil⟩ : Principal).isBlocked now

def isTldr (spec : FeatureSpec) : Bool := spec.plugin == "insight" && spec.feature == "tldr"

section

variable {store : IdentityStore} {now : Int} {db : IdentityDb} {user : Int} {row : UserRow}
  {spec : FeatureSpec}

theorem principal_barred (s : IdentityStore) :
    (s.principal user row now).isBlocked now = Barred user row now := by
  unfold IdentityStore.principal Barred
  dsimp only
  split
  · rename_i h
    have hfree := (Bool.and_eq_true_iff.mp h).1
    rw [Bool.not_eq_true'] at hfree
    rw [hfree]
    have hban := (Bool.or_eq_false_iff.mp hfree).2
    unfold Principal.isBlocked
    rw [hban]
    rfl
  · rfl

theorem providers_eq (henabled : store.insightEnabled = true) :
    ((store.providers db user).any fun g => g.plugin == spec.plugin && g.feature == spec.feature) =
      (isTldr spec && (byokEnabled db && db.byokReady user)) := by
  have hon : byokEnabled db = (db.setting "insight_byok_enabled").any switchedOn := by
    unfold byokEnabled
    cases db.setting "insight_byok_enabled" with
    | none => decide
    | some v => rfl
  unfold IdentityStore.providers isTldr
  rw [henabled, Bool.true_and, hon]
  split
  · rename_i h
    rw [h, List.any_cons, List.any_nil, Bool.or_false, Bool.and_true, Bool.beq_comm,
      Bool.beq_comm (a := "tldr")]
  · rename_i h
    rw [Bool.not_eq_true] at h
    rw [h, List.any_nil, Bool.and_false]

theorem reasons_congr {l l' : List Domain.Grant} {role : Role}
    (h : covers spec now l = covers spec now l') :
    reasons spec now role l = reasons spec now role l' := by
  unfold reasons
  rw [h]

/-- The grants of a snapshot, of the administration and of Insight grant the same. -/
theorem covers_snapshot [JsonReader] :
    covers spec now ((db.automaticGrants user).foldl mergeGrant (db.grants user)) =
      (covers spec now (db.grants user) || (db.automaticGrants user).any (Named spec)) := by
  refine covers_merged (fun g hg => ?_) _
  unfold IdentityDb.automaticGrants at hg
  split at hg
  · cases hg
  · split at hg
    · cases hg
    · obtain ⟨k, -, rfl⟩ := List.mem_map.mp hg
      rfl

theorem covers_insight [JsonReader] (hreader : ReadsEmpty) (hspec : spec ∈ registeredFeatures) :
    covers spec now (db.grants user ++ tagGrants db user) =
      (covers spec now (db.grants user) || (db.automaticGrants user).any (Named spec)) := by
  rw [covers_append]
  refine congrArg (covers spec now (db.grants user) || ·) ?_
  rw [Bool.eq_iff_iff, covers_tagGrants hreader hspec, named_automatic]

/-- What a snapshot answers to a policy that asks for no role. -/
theorem snapshot_allowed [JsonReader] {snap : Snapshot} {policy : AccessPolicy}
    (hspec : spec ∈ registeredFeatures) (hmin : policy.minRole = .banned)
    (hscope : policy.scopes.contains .privateScope = true)
    (hsnap : store.snapshot now db user none = .ok (some snap))
    (hrow : db.users.lookup user = some row) :
    (snap.authorize policy (some (spec.plugin, spec.feature))).decision.allowed =
      (!Barred user row now && (reasons spec now (store.principal user row now).role
          ((db.automaticGrants user).foldl mergeGrant (db.grants user)) ||
        (store.providers db user).any fun g =>
          g.plugin == spec.plugin && g.feature == spec.feature)) := by
  unfold IdentityStore.snapshot at hsnap
  split at hsnap
  · cases hsnap
  · rename_i hids
    have hpos : ¬ user ≤ 0 := by
      simp only [Bool.or_eq_true, decide_eq_true_eq, not_or] at hids
      exact hids.1.1
    unfold IdentityStore.readSnapshot at hsnap
    rw [hrow] at hsnap
    cases hsnap
    have hgrant := isSome_effectiveGrant (store.principal user row now) spec
      ((db.automaticGrants user).foldl mergeGrant (db.grants user)) (store.providers db user) now
    rw [principal_userId, principal_barred, decide_eq_false hpos, Bool.false_or] at hgrant
    rw [← hgrant]
    unfold Snapshot.authorize checkAccess Snapshot.context AccessContext.effectiveRole
    dsimp only
    rw [principal_userId, principal_barred, decide_eq_false hpos, Bool.false_or]
    cases hbar : Barred user row now with
    | true =>
        rw [hbar] at hgrant
        rw [hgrant]
        rfl
    | false =>
        simp only [Bool.false_eq_true, if_false, hscope, Bool.not_true, reduceCtorEq, decide_false,
          Bool.false_and, hmin, Role.rank, Nat.not_lt_zero, find_registered spec hspec]
        have hsame : (⟨user, (store.principal user row now).role,
            (store.principal user row now).banUntil⟩ : Principal) =
              store.principal user row now := by
          unfold IdentityStore.principal
          dsimp only
          split <;> rfl
        rw [hsame]
        split
        · rename_i h
          rw [h]
          rfl
        · rename_i h
          rw [h]
          rfl

/-- What the administration reads when it answers. -/
theorem adminFeatureAccess_eq_ok [JsonReader] {actor : Int} {list : List AdminFeatureAccess}
    (henabled : store.insightEnabled = true) (hrow : db.users.lookup user = some row)
    (hlist : store.adminFeatureAccess now actor (some user) db = .ok list) :
    ∃ permissions, db.permissionList now user = .ok permissions ∧
      list = registeredFeatures.map (featureAccess user (store.principal user row now).role
        (Barred user row now) permissions (store.providers db user) now) := by
  have hbar : (⟨user, (store.principal user row now).role, row.banUntil⟩ : Principal).isBlocked
      now =
      Barred user row now := by
    rw [← principal_barred store]
    unfold IdentityStore.principal
    dsimp only
    split <;> rfl
  unfold IdentityStore.adminFeatureAccess at hlist
  obtain ⟨-, h⟩ := Tx.result_guard_eq_ok.mp hlist
  dsimp only [Option.getD_some] at h
  obtain ⟨actorRole, -, h⟩ := Tx.result_bind_eq_ok.mp h
  obtain ⟨-, h⟩ := Tx.result_guard_eq_ok.mp h
  rw [hrow] at h
  dsimp only at h
  obtain ⟨permissions, hpermissions, h⟩ := Tx.result_bind_eq_ok.mp h
  rw [if_pos henabled, hbar] at h
  unfold IdentityStore.readSnapshot at h
  rw [hrow] at h
  cases h
  exact ⟨permissions, hpermissions, rfl⟩

/-- What the administration shows of a feature. -/
theorem admin_effective [JsonReader] {permissions : List AdminPermission} {a : AdminFeatureAccess}
    {providers : List ProviderGrant} (hpos : 0 < user) (hspec : spec ∈ registeredFeatures)
    (hpermissions : db.permissionList now user = .ok permissions)
    (ha : a ∈ registeredFeatures.map (featureAccess user (store.principal user row now).role
      (Barred user row now) permissions providers now))
    (hp : a.plugin = spec.plugin) (hf : a.feature = spec.feature) :
    a.effective = (!Barred user row now && (reasons spec now (store.principal user row now).role
          ((db.automaticGrants user).foldl mergeGrant (db.grants user)) ||
        providers.any fun g => g.plugin == spec.plugin && g.feature == spec.feature)) := by
  obtain ⟨s, hs, rfl⟩ := List.mem_map.mp ha
  have hsame : s = spec := by
    have h1 := find_registered s hs
    have h2 := find_registered spec hspec
    rw [show s.plugin = spec.plugin from hp, show s.feature = spec.feature from hf, h2] at h1
    exact (Option.some.inj h1).symm
  subst hsame
  show (!_ && (effectiveGrant _ s (permissions.map grantOf) providers now).isSome) = _
  rw [isSome_effectiveGrant,
    reasons_congr ((covers_permissionList hpermissions).trans covers_snapshot.symm)]
  cases hfree : Barred user row now with
  | true => rfl
  | false =>
      have hrole : ((store.principal user row now).role == .banned) = false := by
        rw [← principal_barred store] at hfree
        exact (Bool.or_eq_false_iff.mp hfree).1
      have hunblocked :
          (⟨user, (store.principal user row now).role, none⟩ : Principal).isBlocked now =
          false := by
        unfold Principal.isBlocked
        rw [hrole]
        rfl
      rw [hunblocked, decide_eq_false (Int.not_le.mpr hpos)]
      rfl

/-- What Insight answers. -/
theorem insight_ok [JsonReader] (hreader : ReadsEmpty) (hspec : spec ∈ registeredFeatures)
    (hpos : 0 < user) (hrow : db.users.lookup user = some row) :
    (authorizeInner store now db user (some (keyOf spec)) false true).isOk =
      (!Barred user row now && (reasons spec now (store.principal user row now).role
          ((db.automaticGrants user).foldl mergeGrant (db.grants user)) ||
        (isTldr spec && (byokEnabled db && byokTested db user)))) := by
  have howner : (decide (user = store.ownerId.getD 0)) = decide (store.ownerId = some user) := by
    cases store.ownerId with
    | none => exact decide_eq_decide.mpr (iff_of_false (by simp; omega) nofun)
    | some id => exact decide_eq_decide.mpr (by simp [eq_comm])
  unfold authorizeInner
  rw [hrow]
  dsimp only
  rw [howner, splitKey_keyOf spec hspec, Option.getD_some]
  dsimp only
  rw [find_registered spec hspec, Option.getD_some]
  cases hbar : Barred user row now with
  | true =>
      -- A banned user is not elevated, and a ban until later blocks the owner too.
      have hblocked :
          (⟨user, if (decide (store.ownerId = some user) && decide (row.role ≠ .banned)) =
          true then .owner else row.role, row.banUntil⟩ : Principal).isBlocked now = true := by
        unfold Barred Principal.isBlocked at hbar
        unfold Principal.isBlocked
        rcases Bool.or_eq_true_iff.mp hbar with h | h
        · have hrole : row.role = .banned := beq_iff_eq.mp h
          simp [hrole]
        · rw [h, Bool.or_true]
      rw [if_pos (by rw [hblocked]; simp)]
      rfl
  | false =>
      have hsame : (⟨user, if (decide (store.ownerId = some user) && decide (row.role ≠ .banned)) =
          true then .owner else row.role, row.banUntil⟩ : Principal) =
            store.principal user row now := by
        have hrole : row.role ≠ .banned := by
          intro h
          unfold Barred Principal.isBlocked at hbar
          rw [h] at hbar
          cases hbar
        unfold IdentityStore.principal
        unfold Barred at hbar
        dsimp only
        rw [hbar, decide_eq_true hrole, Bool.and_true, Bool.not_false, Bool.true_and]
        split <;> rfl
      rw [hsame, principal_barred, hbar]
      have hgrant := isSome_effectiveGrant (store.principal user row now) spec
        (db.grants user ++ tagGrants db user) [] now
      rw [principal_userId, principal_barred, hbar, decide_eq_false (by omega), Bool.or_false,
        Bool.not_false, Bool.true_and, List.any_nil, Bool.or_false,
        reasons_congr ((covers_insight hreader hspec).trans covers_snapshot.symm)] at hgrant
      rw [if_neg (by simp; omega), ← hgrant]
      cases effectiveGrant (store.principal user row now) spec
          (db.grants user ++ tagGrants db user) [] now with
      | some source => rfl
      | none =>
          unfold isTldr
          simp only [Option.isNone_none, if_true, Bool.and_assoc, Option.isSome_none,
            Bool.false_or, Bool.not_false, Bool.true_and]
          cases spec.plugin == "insight" && (spec.feature == "tldr" &&
            (byokEnabled db && byokTested db user)) <;> rfl

/-- A user who has the feature by a provider alone, tested without an error and without a key. -/
structure KeylessOnly [JsonReader] (store : IdentityStore) (now : Int) (db : IdentityDb)
    (user : Int) (spec : FeatureSpec) : Prop where
  tldr : spec.plugin = "insight" ∧ spec.feature = "tldr"
  switched : byokEnabled db = true
  keyless : ∃ r, db.byok.lookup user = some r ∧ r.testedAt.isSome = true ∧ r.testError = none ∧
    r.apiKey = ""
  noGrant : covers spec now (db.grants user) = false
  noTag : (db.automaticGrants user).any (Named spec) = false
  notOwner : store.ownerId ≠ some user ∧ ∀ row, db.users.lookup user = some row → row.role ≠ .owner

theorem snapshot_row [JsonReader] {snap : Snapshot}
    (h : store.snapshot now db user none = .ok (some snap)) :
    0 < user ∧ ∃ row, db.users.lookup user = some row := by
  unfold IdentityStore.snapshot at h
  split at h
  · cases h
  · rename_i hids
    simp only [Bool.or_eq_true, decide_eq_true_eq, not_or] at hids
    refine ⟨by omega, ?_⟩
    unfold IdentityStore.readSnapshot at h
    cases hrow : db.users.lookup user with
    | none =>
        rw [hrow] at h
        cases h
    | some row => exact ⟨row, rfl⟩

/-- Readiness leaves the key out of account. -/
theorem byokReady_iff : db.byokReady user = true ↔ byokTested db user = true ∨
    ∃ r, db.byok.lookup user = some r ∧ r.testedAt.isSome = true ∧ r.testError = none ∧
      r.apiKey = "" := by
  unfold IdentityDb.byokReady byokTested
  cases db.byok.lookup user with
  | none => simp
  | some r =>
      by_cases hkey : r.apiKey = ""
      · simp [hkey]
      · simp [hkey]

theorem keylessOnly_iff [JsonReader] (hspec : spec ∈ registeredFeatures)
    (hrow : db.users.lookup user = some row) (hbar : Barred user row now = false) :
    KeylessOnly store now db user spec ↔
      reasons spec now (store.principal user row now).role
          ((db.automaticGrants user).foldl mergeGrant (db.grants user)) = false ∧
        isTldr spec = true ∧ byokEnabled db = true ∧ ∃ r, db.byok.lookup user = some r ∧
          r.testedAt.isSome = true ∧ r.testError = none ∧ r.apiKey = "" := by
  have hmin : ∀ s ∈ registeredFeatures, isTldr s = true → s.defaultMinRole = none := by
    decide
  have hrole : (store.principal user row now).role = .owner ↔
      store.ownerId = some user ∨ row.role = .owner := by
    unfold Barred at hbar
    unfold IdentityStore.principal
    dsimp only
    rw [hbar, Bool.not_false, Bool.true_and]
    by_cases howner : store.ownerId = some user
    · simp [howner]
    · simp [howner]
  have htldr : isTldr spec = true ↔ spec.plugin = "insight" ∧ spec.feature = "tldr" := by
    simp [isTldr]
  unfold reasons
  rw [covers_snapshot]
  simp only [Bool.or_eq_false_iff, decide_eq_false_iff_not, hrole, not_or]
  constructor
  · rintro ⟨h1, h2, h3, h4, h5, h6⟩
    refine ⟨⟨⟨⟨h6.1, h6.2 row hrow⟩, h4, h5⟩, ?_⟩, htldr.mpr h1, h2, h3⟩
    rw [hmin spec hspec (htldr.mpr h1)]
    rfl
  · rintro ⟨⟨⟨⟨h6, h7⟩, h4, h5⟩, -⟩, h1, h2, h3⟩
    refine ⟨htldr.mp h1, h2, h3, h4, h5, h6, fun other hother => ?_⟩
    rw [hrow] at hother
    cases hother
    exact h7

/-- **One answer.** The snapshot and the administration answer the same, and Insight does unless
the user has nothing but a tested provider without a key. A blocked user has no feature. -/
theorem feature_views [JsonReader] (store : IdentityStore) (now : Int) (db : IdentityDb)
    (actor user : Int) (spec : FeatureSpec) (policy : AccessPolicy) (snap : Snapshot)
    (list : List AdminFeatureAccess) (hreader : ReadsEmpty) (henabled : store.insightEnabled = true)
    (hspec : spec ∈ registeredFeatures) (hmin : policy.minRole = .banned)
    (hscope : policy.scopes.contains .privateScope = true)
    (hsnap : store.snapshot now db user none = .ok (some snap))
    (hlist : store.adminFeatureAccess now actor (some user) db = .ok list) :
    (∃ a ∈ list, a.plugin = spec.plugin ∧ a.feature = spec.feature) ∧
      (∀ a ∈ list, a.plugin = spec.plugin → a.feature = spec.feature → a.effective =
        (snap.authorize policy (some (spec.plugin, spec.feature))).decision.allowed) ∧
      ((authorizeInner store now db user (some (keyOf spec)) false true).isOk = true ↔
        (snap.authorize policy (some (spec.plugin, spec.feature))).decision.allowed = true ∧
          ¬ KeylessOnly store now db user spec) ∧
      ∀ row, db.users.lookup user = some row → Barred user row now = true →
        (snap.authorize policy (some (spec.plugin, spec.feature))).decision.allowed = false := by
  obtain ⟨hpos, row, hrow⟩ := snapshot_row hsnap
  have hallowed := snapshot_allowed hspec hmin hscope hsnap hrow
  obtain ⟨permissions, hpermissions, rfl⟩ := adminFeatureAccess_eq_ok henabled hrow hlist
  refine ⟨⟨_, List.mem_map_of_mem hspec, rfl, rfl⟩, fun a ha hp hf => ?_, ?_,
    fun other hother hbar => ?_⟩
  · rw [hallowed, admin_effective hpos hspec hpermissions ha hp hf]
  · rw [insight_ok hreader hspec hpos hrow, hallowed, providers_eq henabled]
    cases hbar : Barred user row now with
    | true => simp
    | false =>
        rw [keylessOnly_iff hspec hrow hbar]
        simp only [Bool.not_false, Bool.true_and, Bool.or_eq_true, Bool.and_eq_true, byokReady_iff]
        constructor
        · rintro (h | ⟨htldr, hon, htested⟩)
          · exact ⟨.inl h, fun hno => by simp [hno.1] at h⟩
          · refine ⟨.inr ⟨htldr, hon, .inl htested⟩, ?_⟩
            rintro ⟨-, -, -, r, hr, -, -, hkey⟩
            unfold byokTested at htested
            simp [hr, hkey] at htested
        · rintro ⟨h | ⟨htldr, hon, htested | hkeyless⟩, hno⟩
          · exact .inl h
          · exact .inr ⟨htldr, hon, htested⟩
          · refine .inl ?_
            by_contra hreason
            exact hno ⟨Bool.not_eq_true _ ▸ hreason, htldr, hon, hkeyless⟩
  · rw [hrow] at hother
    cases hother
    rw [hallowed, hbar]
    rfl

end

section

/-- A reader of the empty object alone. -/
@[reducible] def emptyReader : JsonReader :=
  ⟨fun text => if text = "\x7b\x7d" then some (.obj []) else none⟩

attribute [local instance] emptyReader

def guestRow : UserRow := ⟨none, none, none, .user, "en", "macchiato", none, 0, 0⟩

/-- The owner, and user 2 with a tested provider under a key. -/
def oneProvider (key : String) : IdentityDb where
  users := ((∅ : Dict Int UserRow).insert 1 guestRow).insert 2 guestRow
  permissions := ∅
  settings := (∅ : Dict String (Option String)).insert "insight_byok_enabled" (some "on")
  groups := ∅
  policies := ∅
  threads := []
  bots := ∅
  members := ∅
  groupSuppressions := []
  featureSuppressions := []
  byok := (∅ : Dict Int ByokRow).insert 2 ⟨key, some 1, none⟩
  policyGroup := nofun

def tldrSpec : FeatureSpec := ⟨"insight", "tldr", none⟩

def anyRole : AccessPolicy := ⟨.banned, [.privateScope], false, false⟩

/-- The snapshot of user 2. -/
def providerSnapshot (key : String) : Snapshot where
  principal := ownedStore.principal 2 guestRow 0
  grants := ((oneProvider key).automaticGrants 2).foldl mergeGrant ((oneProvider key).grants 2)
  providers := ownedStore.providers (oneProvider key) 2
  now := 0
  language := "en"
  group := none

def providerAccess (key : String) : List AdminFeatureAccess :=
  registeredFeatures.map
    (featureAccess 2 .user false [] (ownedStore.providers (oneProvider key) 2) 0)

theorem keyed_feature_views :
    (∀ a ∈ providerAccess "k", a.plugin = "insight" → a.feature = "tldr" → a.effective = true) ∧
      (authorizeInner ownedStore 0 (oneProvider "k") 2 (some "insight:tldr") false true).isOk =
        true := by
  have h := feature_views ownedStore 0 (oneProvider "k") 1 2 tldrSpec anyRole
    (providerSnapshot "k") (providerAccess "k") rfl rfl (by decide) rfl rfl rfl rfl
  have hallowed : ((providerSnapshot "k").authorize anyRole
      (some (tldrSpec.plugin, tldrSpec.feature))).decision.allowed = true := by
    decide
  refine ⟨fun a ha hp hf => (h.2.1 a ha hp hf).trans hallowed, h.2.2.1.mpr ⟨hallowed, ?_⟩⟩
  rintro ⟨-, -, ⟨r, hr, -, -, hkey⟩, -, -, -⟩
  cases hr
  revert hkey
  decide

/-- Without the key the snapshot still allows what Insight does not. -/
theorem keyless_views_differ :
    ownedStore.snapshot 0 (oneProvider "") 2 none = .ok (some (providerSnapshot "")) ∧
      ownedStore.adminFeatureAccess 0 1 (some 2) (oneProvider "") = .ok (providerAccess "") ∧
      ((providerSnapshot "").authorize anyRole (some ("insight", "tldr"))).decision.allowed = true ∧
      (authorizeInner ownedStore 0 (oneProvider "") 2 (some "insight:tldr") false true).isOk =
        false := by
  exact ⟨rfl, rfl, by decide, by decide⟩

end

end YoinkCore.Insight
