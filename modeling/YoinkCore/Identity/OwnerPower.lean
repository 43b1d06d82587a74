import YoinkCore.Identity.Administration
import YoinkCore.Lib.Run
import YoinkCore.Lib.Transaction

/-!
# Owner power

The guards of the administration look at the global roles of the actor and of the target. No
administrator changes a global role from or to one of the two highest. The roles that a group
gives are not guarded, so an administrator can make anyone an owner in a group.
-/

namespace YoinkCore.Identity

open Lib Domain
open Insight (JsonReader)

/-- The roles that only an owner hands out. -/
def High (r : Role) : Prop := r = .admin ∨ r = .owner

theorem high_iff_rank {r : Role} : High r ↔ Role.admin.rank ≤ r.rank := by
  cases r <;> simp [High, Role.rank]

section

variable {store : IdentityStore} {now : Int} {s t : IdentityDb}

/-! ## The actor -/

theorem principal_role (user : Int) (row : UserRow) :
    (store.principal user row now).role =
      if !(⟨user, row.role, row.banUntil⟩ : Principal).isBlocked now &&
        decide (store.ownerId = some user) then .owner else row.role := by
  unfold IdentityStore.principal
  dsimp only
  split <;> rfl

variable {p : AdminUserPatch} {call : AdminCall} {row : UserRow} {role : Role}

theorem adminAuth_eq_ok {id : Int} (h : store.adminAuth now s id true false = .ok role) :
    store.userRole now s id = some role ∧ High role := by
  unfold IdentityStore.adminAuth at h
  cases hrow : s.users.lookup id with
  | none =>
      rw [hrow] at h
      cases h
  | some row =>
      rw [hrow] at h
      dsimp only at h
      obtain ⟨hblocked, h⟩ := Tx.result_guard_eq_ok.mp h
      obtain ⟨-, h⟩ := Tx.result_guard_eq_ok.mp h
      obtain ⟨hrank, h⟩ := Tx.result_guard_eq_ok.mp h
      have hrole : (store.principal id row now).role = role := by
        rw [principal_role]
        simp only [hblocked, Bool.not_false, Bool.true_and, decide_eq_true_eq]
        exact Except.ok.inj h
      refine ⟨by rw [IdentityStore.userRole, hrow, Option.map_some, hrole], ?_⟩
      rw [high_iff_rank]
      have hrole' := Except.ok.inj h
      simp only [Bool.true_and, decide_eq_true_eq, Nat.not_lt] at hrank
      exact hrole' ▸ hrank

/-- An actor who is not an owner is an administrator. -/
theorem admin_of_auth {id : Int} (hactor : store.userRole now s id ≠ some .owner)
    (h : store.adminAuth now s id true false = .ok role) : role = .admin := by
  obtain ⟨hrole, hhigh⟩ := adminAuth_eq_ok h
  rcases hhigh with rfl | rfl
  · rfl
  · exact absurd hrole hactor

/-- A target below the high roles has a low role in the database, and is not the owner. -/
theorem low_target (n : Int) {target : Int} (howner : store.ownerId ≠ some target)
    (hrole : ¬ High (store.principal target row n).role) : ¬ High row.role := by
  rw [principal_role, if_neg (by simp [howner])] at hrole
  exact hrole

/-! ## What a call does -/

/-- What a call of an administrator who is not an owner leaves. -/
inductive AdminEffect (store : IdentityStore) (s : IdentityDb) : AdminCall → IdentityDb → Prop
  | same {call : AdminCall} : AdminEffect store s call s
  | user {actor target : Int} {p : AdminUserPatch} {row row' : UserRow} :
      s.users.lookup target = some row → store.ownerId ≠ some target → ¬ High row.role →
      (∀ r, p.role = some r → ¬ High r) → row'.role = p.role.getD row.role →
      row'.banUntil = p.banUntil.getD row.banUntil →
      AdminEffect store s (.updateUser actor target p) (s.putUser target row')
  | permission {call : AdminCall} {t : IdentityDb} (target : Int) (plugin feature : String) :
      store.ownerId ≠ some target →
      (∀ row, s.users.lookup target = some row → ¬ High row.role) → t.users = s.users →
      t.groups = s.groups → t.policies = s.policies → t.bots = s.bots → t.members = s.members →
      (∀ key, key ≠ (target, plugin, feature) →
        t.permissions.lookup key = s.permissions.lookup key) → AdminEffect store s call t
  | groupCreate {actor : Int} {p : GroupCreate} {row : GroupRow} :
      s.groups.lookup p.id = none → row.enabled = false →
      AdminEffect store s (.groupCreate actor p) ((s.insertGroup p.id row).restoreGroup p.id)
  | groupUpdate {actor id : Int} {p : GroupPatch} {row : GroupRow} :
      s.groups.lookup id = some row →
      AdminEffect store s (.groupUpdate actor id p) (s.insertGroup id (row.patched p))
  | groupDelete {actor id : Int} :
      AdminEffect store s (.groupDelete actor id) ((s.eraseGroup id).suppressGroup id)
  | memberUpsert {actor group user : Int} {p : MemberPatch} {row : PolicyRow}
      (h : (s.groups.lookup group).isSome = true) : row.roleOverride = p.roleOverride →
      AdminEffect store s (.memberUpsert actor group user p) (s.putPolicy user group row h)
  | memberDelete {actor group user : Int} :
      AdminEffect store s (.memberDelete actor group user) (s.erasePolicy user group)

theorem UserRow.patched_eq_some {row' : UserRow} (h : row.patched p now = some row') :
    row'.role = p.role.getD row.role ∧ row'.banUntil = p.banUntil.getD row.banUntil := by
  unfold UserRow.patched at h
  dsimp only at h
  split at h
  · cases h
  · cases h
    exact ⟨rfl, rfl⟩

theorem updateUser_effect [JsonReader] {actor target : Int}
    (hactor : store.userRole now s actor ≠ some .owner)
    (hrun : (AdminCall.updateUser actor target p).run store now s = .ok t) :
    AdminEffect store s (.updateUser actor target p) t := by
  obtain ⟨⟨user, t⟩, h, rfl⟩ := Tx.result_map_eq_ok.mp hrun
  unfold IdentityStore.adminUpdateUser at h
  obtain ⟨-, h⟩ := Tx.result_guard_eq_ok.mp h
  obtain ⟨-, h⟩ := Tx.result_guard_eq_ok.mp h
  obtain ⟨hpatch, h⟩ := Tx.result_guard_eq_ok.mp h
  obtain ⟨role, hauth, h⟩ := Tx.result_bind_eq_ok.mp h
  obtain rfl := admin_of_auth hactor hauth
  cases hrow : s.users.lookup target with
  | none =>
      rw [hrow] at h
      cases h
  | some row =>
      rw [hrow] at h
      dsimp only at h
      obtain ⟨howner, h⟩ := Tx.result_guard_eq_ok.mp h
      obtain ⟨hadmin, h⟩ := Tx.result_guard_eq_ok.mp h
      obtain ⟨hgiven, h⟩ := Tx.result_guard_eq_ok.mp h
      obtain ⟨-, h⟩ := Tx.result_guard_eq_ok.mp h
      simp only [Bool.or_eq_true, decide_eq_true_eq, not_or] at howner
      have hlow : ¬ High row.role := by
        refine low_target now howner.2 ?_
        rintro (hr | hr)
        · exact hadmin (by simp [IdentityStore.adminUser, hr])
        · exact howner.1 hr
      have hgiven' : ∀ r, p.role = some r → ¬ High r := by
        intro r hr hhigh
        refine hgiven ?_
        rw [hr]
        simpa using high_iff_rank.mp hhigh
      split at h
      · cases hp : row.patched p now with
        | none =>
            rw [hp] at h
            cases h
        | some row' =>
            rw [hp] at h
            cases h
            obtain ⟨hrole, hban⟩ := UserRow.patched_eq_some hp
            exact .user hrow howner.2 hlow hgiven' hrole hban
      · cases h
        exact .same

theorem changePermission_eq_ok [JsonReader] {actor target : Int} {plugin feature : String}
    (hactor : store.userRole now s actor ≠ some .owner)
    (h : store.changePermission now actor target plugin feature s = .ok role) :
    role = .admin ∧ store.ownerId ≠ some target ∧
      ∀ row, s.users.lookup target = some row → ¬ High row.role := by
  unfold IdentityStore.changePermission at h
  obtain ⟨role', hauth, h⟩ := Tx.result_bind_eq_ok.mp h
  obtain rfl := admin_of_auth hactor hauth
  cases htarget : store.userRole now s target with
  | none =>
      rw [htarget] at h
      cases h
  | some targetRole =>
      rw [htarget] at h
      dsimp only at h
      obtain ⟨hforbidden, h⟩ := Tx.result_guard_eq_ok.mp h
      simp only [ne_eq, reduceCtorEq, not_false_eq_true, decide_true, Bool.and_true,
        Bool.or_eq_true, decide_eq_true_eq, not_or] at hforbidden
      refine ⟨?_, hforbidden.1, fun row hrow => low_target now hforbidden.1 fun hhigh => ?_⟩
      · split at h
        · split at h
          · exact (Except.ok.inj h).symm
          · split at h
            · split at h
              · exact (Except.ok.inj h).symm
              · cases h
            · cases h
        · split at h
          · cases h
          · exact (Except.ok.inj h).symm
      · rw [IdentityStore.userRole, hrow, Option.map_some] at htarget
        exact hforbidden.2 (Option.some.inj htarget ▸ high_iff_rank.mp hhigh)

theorem call_effect [JsonReader] (hactor : store.userRole now s call.actor ≠ some .owner)
    (hrun : call.run store now s = .ok t) : AdminEffect store s call t := by
  cases call with
  | updateUser actor target p => exact updateUser_effect hactor hrun
  | grantPermission actor target plugin feature expiresAt =>
      obtain ⟨⟨permission, t⟩, h, rfl⟩ := Tx.result_map_eq_ok.mp hrun
      unfold IdentityStore.adminGrantPermission at h
      obtain ⟨-, h⟩ := Tx.result_guard_eq_ok.mp h
      obtain ⟨-, h⟩ := Tx.result_guard_eq_ok.mp h
      obtain ⟨role, hrole, h⟩ := Tx.result_bind_eq_ok.mp h
      cases h
      obtain ⟨-, howner, hlow⟩ := changePermission_eq_ok hactor hrole
      refine .permission target plugin feature howner hlow rfl rfl rfl rfl rfl fun key hkey => ?_
      exact (Dict.lookup_insert_eq _ _ _ _).trans (if_neg hkey)
  | revokePermission actor target plugin feature =>
      unfold AdminCall.run IdentityStore.adminRevokePermission at hrun
      obtain ⟨-, h⟩ := Tx.result_guard_eq_ok.mp hrun
      obtain ⟨role, hrole, h⟩ := Tx.result_bind_eq_ok.mp h
      obtain ⟨rfl, howner, hlow⟩ := changePermission_eq_ok hactor hrole
      cases h
      refine .permission target plugin feature howner hlow rfl rfl rfl rfl rfl fun key hkey => ?_
      exact (Dict.lookup_erase_eq _ _ _).trans (if_neg hkey)
  | groupCreate actor p =>
      obtain ⟨⟨row, t⟩, h, rfl⟩ := Tx.result_map_eq_ok.mp hrun
      unfold IdentityStore.groupCreate at h
      obtain ⟨-, h⟩ := Tx.result_guard_eq_ok.mp h
      obtain ⟨role, -, h⟩ := Tx.result_bind_eq_ok.mp h
      obtain ⟨hnone, h⟩ := Tx.result_guard_eq_ok.mp h
      cases h
      exact .groupCreate (Option.not_isSome_iff_eq_none.mp hnone) rfl
  | groupUpdate actor id p =>
      obtain ⟨⟨row, t⟩, h, rfl⟩ := Tx.result_map_eq_ok.mp hrun
      unfold IdentityStore.groupUpdate at h
      obtain ⟨-, h⟩ := Tx.result_guard_eq_ok.mp h
      obtain ⟨role, -, h⟩ := Tx.result_bind_eq_ok.mp h
      cases hgroup : s.groups.lookup id with
      | none =>
          rw [hgroup] at h
          cases h
      | some old =>
          rw [hgroup] at h
          cases h
          exact .groupUpdate hgroup
  | groupDelete actor id =>
      unfold AdminCall.run IdentityStore.groupDelete at hrun
      obtain ⟨-, h⟩ := Tx.result_guard_eq_ok.mp hrun
      obtain ⟨role, -, h⟩ := Tx.result_bind_eq_ok.mp h
      obtain ⟨-, h⟩ := Tx.result_guard_eq_ok.mp h
      cases h
      exact .groupDelete
  | memberUpsert actor group user p =>
      obtain ⟨⟨row, t⟩, h, rfl⟩ := Tx.result_map_eq_ok.mp hrun
      unfold IdentityStore.memberUpsert at h
      obtain ⟨-, h⟩ := Tx.result_guard_eq_ok.mp h
      obtain ⟨role, -, h⟩ := Tx.result_bind_eq_ok.mp h
      split at h
      · rename_i hgroup
        dsimp only at h
        split at h
        · cases h
        · cases h
          exact .memberUpsert hgroup rfl
      · cases h
  | memberDelete actor group user =>
      unfold AdminCall.run IdentityStore.memberDelete at hrun
      obtain ⟨-, h⟩ := Tx.result_guard_eq_ok.mp hrun
      obtain ⟨role, -, h⟩ := Tx.result_bind_eq_ok.mp h
      obtain ⟨-, h⟩ := Tx.result_guard_eq_ok.mp h
      cases h
      exact .memberDelete

/-! ## The role in a chat -/

/-- The context that a group is for its member. -/
def groupAccess (db : IdentityDb) (user group : Int) (row : GroupRow) : AccessContext where
  scope := .groupScope
  groupEnabled := row.enabled && !db.knownGone user group
  threadAllowed := true
  groupRoleOverride := (db.policies.lookup (user, group)).bind (·.roleOverride)
  groupAutoGrantRole := some row.autoGrantRole

/-- The role a decision about a chat goes by, if there is a decision. -/
def IdentityStore.chatRole (store : IdentityStore) (now : Int) (db : IdentityDb) (user : Int)
    (group : Option Int) : Option Role := do
  let row ← db.users.lookup user
  let principal := store.principal user row now
  match group with
  | none => some principal.role
  | some id => do
      let row ← db.groups.lookup id
      some (if principal.isBlocked now then principal.role
        else (groupAccess db user id row).effectiveRole principal)

theorem authorize_owner (snap : Snapshot) (policy : AccessPolicy)
    (feature : Option (String × String)) :
    (snap.authorize policy feature).grantSource = some .owner ∨
        (snap.authorize policy feature).decision.effectiveRole = .owner ↔
      (checkAccess snap.principal policy snap.context snap.now).effectiveRole = .owner := by
  -- A decision keeps its role, and only an owner is granted a feature as one.
  have hsource : ∀ (p : Principal) (spec : FeatureSpec) (grants : List Grant)
      (providers : List ProviderGrant) (n : Int),
      effectiveGrant p spec grants providers n = some .owner → p.role = .owner := by
    intro p spec grants providers n h
    unfold effectiveGrant at h
    split at h
    · cases h
    · split at h
      · assumption
      · split at h
        · cases h
        · split at h
          · cases h
          · split at h <;> cases h
  unfold Snapshot.authorize
  dsimp only
  split
  · simp
  · split
    · simp
    · split
      · simp
      · split
        · simp
        · rename_i source hgrant
          constructor
          · rintro (h | h)
            · cases h
              exact hsource _ _ _ _ _ hgrant
            · exact h
          · exact .inr

theorem checkAccess_role (p : Principal) (policy : AccessPolicy) (context : AccessContext)
    (n : Int) :
    (checkAccess p policy context n).effectiveRole =
      if p.userId ≤ 0 || p.isBlocked n then p.role else context.effectiveRole p := by
  unfold checkAccess
  dsimp only
  split
  · rfl
  · split
    · rfl
    · split
      · rfl
      · split
        · rfl
        · split <;> rfl

/-- A user is an owner in a chat by a feature's grant or by the role of the decision. -/
def IdentityStore.OwnerIn [JsonReader] (store : IdentityStore) (now : Int) (db : IdentityDb)
    (user : Int) (chat : Option (Int × Option Int)) (policy : AccessPolicy)
    (feature : Option (String × String)) : Prop :=
  ∃ snap, store.snapshot now db user chat = .ok (some snap) ∧
    ((snap.authorize policy feature).grantSource = some .owner ∨
      (snap.authorize policy feature).decision.effectiveRole = .owner)

/-- The ids that a snapshot is read for. -/
def IdentityStore.validIds (store : IdentityStore) (user : Int)
    (chat : Option (Int × Option Int)) : Prop :=
  0 < user ∧ store.ownerId.any (fun id => decide (id ≤ 0)) = false ∧
    chat.any (fun g => decide (0 ≤ g.1) || g.2.any fun t => decide (t ≤ 0)) = false

theorem ownerIn_iff [JsonReader] {user : Int} {chat : Option (Int × Option Int)}
    {policy : AccessPolicy} {feature : Option (String × String)} :
    store.OwnerIn now s user chat policy feature ↔
      store.validIds user chat ∧ store.chatRole now s user (chat.map (·.1)) = some .owner := by
  have hread : store.OwnerIn now s user chat policy feature ↔
      store.validIds user chat ∧ ∃ snap, store.readSnapshot now s user chat = .ok (some snap) ∧
        (checkAccess snap.principal policy snap.context snap.now).effectiveRole = .owner := by
    unfold IdentityStore.OwnerIn IdentityStore.snapshot IdentityStore.validIds
    simp only [authorize_owner]
    split
    · rename_i hbad
      simp only [Bool.or_eq_true, decide_eq_true_eq] at hbad
      refine iff_of_false (by simp) fun ⟨hvalid, _⟩ => ?_
      rcases hbad with (hbad | hbad) | hbad
      · omega
      · rw [hvalid.2.1] at hbad
        cases hbad
      · rw [hvalid.2.2] at hbad
        cases hbad
    · rename_i hgood
      simp only [Bool.or_eq_true, decide_eq_true_eq, not_or, Int.not_le, Bool.not_eq_true] at hgood
      simp only [hgood.1.1, hgood.1.2, hgood.2, and_self, true_and]
  rw [hread]
  refine and_congr_right fun hvalid => ?_
  have hpos : ∀ row, decide ((store.principal user row now).userId ≤ 0) = false := by
    intro row
    rw [principal_userId]
    exact decide_eq_false (Int.not_le.mpr hvalid.1)
  unfold IdentityStore.readSnapshot IdentityStore.chatRole
  cases hrow : s.users.lookup user with
  | none => simp
  | some row =>
      cases chat with
      | none =>
          simp only [Except.ok.injEq, Option.some.injEq, exists_eq_left', checkAccess_role, hpos,
            Bool.false_or, Option.map_none, Option.bind_eq_bind, Option.bind_some]
          split <;> rfl
      | some c =>
          obtain ⟨group, thread⟩ := c
          unfold IdentityDb.groupContext
          cases hgroup : s.groups.lookup group with
          | none => simp [hgroup]
          | some g =>
              simp only [hgroup, Option.map_some, Except.ok.injEq, Option.some.injEq,
                exists_eq_left', checkAccess_role, hpos, Bool.false_or, Option.bind_eq_bind,
                Option.bind_some]
              split <;> rfl

/-- The override of a member, if there is one. -/
def overrideOf (db : IdentityDb) (user group : Int) : Option Role :=
  (db.policies.lookup (user, group)).bind (·.roleOverride)

/-- What makes a user an owner in a group. -/
def OwnerBy (db : IdentityDb) (user id : Int) (p : Principal) (g : GroupRow) : Prop :=
  overrideOf db user id = some .owner ∨ overrideOf db user id = none ∧
    (p.role = .owner ∨ p.role = .restricted ∧ (g.enabled && !db.knownGone user id) = true ∧
      g.autoGrantRole = .owner)

theorem effectiveRole_owner {user id : Int} {p : Principal} {g : GroupRow} :
    (groupAccess s user id g).effectiveRole p = .owner ↔ OwnerBy s user id p g := by
  show (overrideOf s user id).getD _ = _ ↔ _
  unfold OwnerBy
  cases overrideOf s user id with
  | some r => simp
  | none =>
      simp only [groupAccess, Option.getD_none, reduceCtorEq, true_and, false_or]
      by_cases hr : p.role = .restricted
      · simp only [hr, decide_true, Bool.true_and, reduceCtorEq, false_or, true_and]
        by_cases henabled : (g.enabled && !s.knownGone user id) = true
        · rw [if_pos henabled]
          simp only [henabled, true_and]
          cases g.autoGrantRole <;> simp [Option.filter, Role.rank]
        · rw [if_neg henabled]
          simp [henabled]
      · simp [hr]

theorem chatRole_private {user : Int} :
    store.chatRole now s user none = some .owner ↔
      ∃ row, s.users.lookup user = some row ∧ (store.principal user row now).role = .owner := by
  unfold IdentityStore.chatRole
  cases s.users.lookup user <;> simp

theorem chatRole_group {user id : Int} :
    store.chatRole now s user (some id) = some .owner ↔
      ∃ row g, s.users.lookup user = some row ∧ s.groups.lookup id = some g ∧
        if (store.principal user row now).isBlocked now then
          (store.principal user row now).role = .owner
        else OwnerBy s user id (store.principal user row now) g := by
  unfold IdentityStore.chatRole
  cases hrow : s.users.lookup user with
  | none => simp
  | some row =>
      cases hgroup : s.groups.lookup id with
      | none => simp [hgroup]
      | some g =>
          simp only [hgroup, Option.bind_eq_bind, Option.bind_some, Option.some.injEq,
            exists_eq_left', exists_and_left, ← effectiveRole_owner]
          split <;> simp_all

/-! ## Global roles and grants -/

/-- The configured owner, and who has a high role. -/
def IdentityStore.HighIn (store : IdentityStore) (db : IdentityDb) (user : Int) : Prop :=
  store.ownerId = some user ∨ ∃ row, db.users.lookup user = some row ∧ High row.role

/-- The high users of the one database are those of the other, with their roles and grants. -/
structure SameHigh (store : IdentityStore) (s t : IdentityDb) : Prop where
  roles : ∀ user, store.HighIn s user →
    (t.users.lookup user).map (·.role) = (s.users.lookup user).map (·.role)
  grants : ∀ user, store.HighIn s user → ∀ plugin feature,
    t.permissions.lookup (user, plugin, feature) = s.permissions.lookup (user, plugin, feature)
  none_new : ∀ user, store.HighIn t user → store.HighIn s user

theorem SameHigh.refl (store : IdentityStore) (s : IdentityDb) : SameHigh store s s :=
  ⟨fun _ _ => rfl, fun _ _ _ _ => rfl, fun _ h => h⟩

theorem SameHigh.of_eq (husers : t.users = s.users) (hgrants : t.permissions = s.permissions) :
    SameHigh store s t := by
  refine ⟨fun user _ => by rw [husers], fun user _ _ _ => by rw [hgrants], fun user h => ?_⟩
  unfold IdentityStore.HighIn at h ⊢
  rwa [husers] at h

theorem SameHigh.still {user : Int} (h : SameHigh store s t) (hs : store.HighIn s user) :
    store.HighIn t user := by
  rcases id hs with howner | ⟨row, hrow, hhigh⟩
  · exact .inl howner
  · have hrole := h.roles user hs
    rw [hrow] at hrole
    obtain ⟨row', hrow', heq⟩ := Option.map_eq_some_iff.mp hrole
    exact .inr ⟨row', hrow', heq ▸ hhigh⟩

theorem SameHigh.trans {u : IdentityDb} (h : SameHigh store s t) (h' : SameHigh store t u) :
    SameHigh store s u where
  roles user hs := (h'.roles user (h.still hs)).trans (h.roles user hs)
  grants user hs plugin feature :=
    (h'.grants user (h.still hs) plugin feature).trans (h.grants user hs plugin feature)
  none_new user hu := h.none_new user (h'.none_new user hu)

theorem AdminEffect.sameHigh (h : AdminEffect store s call t) : SameHigh store s t := by
  cases h with
  | same => exact SameHigh.refl store s
  | groupCreate | groupUpdate | groupDelete | memberUpsert | memberDelete =>
      exact SameHigh.of_eq rfl rfl
  | @permission _ _ target plugin feature howner hlow husers _ _ _ _ hother =>
      refine ⟨fun user _ => by rw [husers], fun user hs plugin' feature' => ?_, fun user h => ?_⟩
      · refine hother _ fun heq => ?_
        obtain ⟨rfl, -⟩ := Prod.mk.inj heq
        rcases hs with hs | ⟨row, hrow, hhigh⟩
        · exact howner hs
        · exact hlow row hrow hhigh
      · unfold IdentityStore.HighIn at h ⊢
        rwa [husers] at h
  | @user actor target p row row' hrow howner hlow hgiven hrole hban =>
      have hlow' : ¬ High row'.role := by
        rw [hrole]
        cases hp : p.role with
        | none => exact hlow
        | some r => exact hgiven r hp
      have hlookup : ∀ user, user ≠ target →
          (s.putUser target row').users.lookup user = s.users.lookup user := fun user hne =>
        (Dict.lookup_insert_eq _ _ _ _).trans (if_neg hne)
      have htarget : ∀ user, store.HighIn s user → user ≠ target := by
        rintro user (hs | ⟨old, hold, hhigh⟩) rfl
        · exact howner hs
        · rw [hrow] at hold
          cases hold
          exact hlow hhigh
      refine ⟨fun user hs => by rw [hlookup user (htarget user hs)], fun _ _ _ _ => rfl, ?_⟩
      rintro user (ht | ⟨new, hnew, hhigh⟩)
      · exact .inl ht
      · by_cases hne : user = target
        · subst hne
          rw [IdentityDb.putUser, Dict.lookup_insert_eq, if_pos rfl] at hnew
          cases hnew
          exact absurd hhigh hlow'
        · rw [hlookup user hne] at hnew
          exact .inr ⟨new, hnew, hhigh⟩

end

end YoinkCore.Identity
