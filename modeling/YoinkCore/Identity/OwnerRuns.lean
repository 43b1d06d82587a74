import YoinkCore.Identity.OwnerPower

/-!
# Who becomes an owner

An administrator's call writes the roles of groups without regard to its actor. What a call must
not write, or uncover, for no one to become an owner in a chat, and what follows for runs.
-/

namespace YoinkCore.Identity

open Lib Domain
open Insight (JsonReader)

/-! ## What is not guarded -/

/-- A group that makes its restricted members owners. -/
def GroupRow.Promotes (g : GroupRow) : Prop := g.enabled = true ∧ g.autoGrantRole = .owner

/-- The roles of a group make the user an owner, or would if the user were restricted. -/
def IdentityDb.MakesOwner (db : IdentityDb) (user group : Int) : Prop :=
  overrideOf db user group = some .owner ∨ overrideOf db user group = none ∧
    ∃ g, db.groups.lookup group = some g ∧ g.Promotes

/-- A user who is an owner without a group. -/
def IdentityStore.Owns (store : IdentityStore) (db : IdentityDb) (user : Int) : Prop :=
  store.ownerId = some user ∨ ∃ row, db.users.lookup user = some row ∧ row.role = .owner

/-- The override of the user in a group is one below owner. -/
def IdentityDb.Lowered (db : IdentityDb) (user group : Int) : Prop :=
  ∃ r, overrideOf db user group = some r ∧ r ≠ .owner

/-- An override without which the user could be an owner in the group. -/
def IdentityStore.Hides (store : IdentityStore) (db : IdentityDb) (user group : Int) : Prop :=
  db.Lowered user group ∧
    (store.Owns db user ∨ ∃ g, db.groups.lookup group = some g ∧ g.Promotes)

/-- The patch makes the user restricted, or lifts or shortens a ban. -/
def AdminUserPatch.Uncovers (p : AdminUserPatch) (row : UserRow) : Prop :=
  p.role = some .restricted ∨ (row.role = .banned ∧ ∃ r, p.role = some r ∧ r ≠ .banned) ∨
    ∃ old ban, row.banUntil = some old ∧ p.banUntil = some ban ∧ ∀ b, ban = some b → b < old

/-- A call that stores no role of owner for a group, and uncovers none that is stored. -/
def AdminCall.Guarded (store : IdentityStore) (db : IdentityDb) : AdminCall → Prop
  | updateUser _ target p => ∀ row, db.users.lookup target = some row → p.Uncovers row →
      ∀ group, ¬ db.MakesOwner target group
  | groupUpdate _ id p => ∀ g, db.groups.lookup id = some g → (g.patched p).Promotes → g.Promotes
  | groupDelete _ id => ∀ user, store.Owns db user → ¬ db.Lowered user id
  | memberUpsert _ group user p =>
      (p.roleOverride = some .owner → overrideOf db user group = some .owner) ∧
        (p.roleOverride = none → ¬ store.Hides db user group)
  | memberDelete _ group user => ¬ store.Hides db user group
  | _ => True

section

variable {store : IdentityStore} {now : Int} {s t : IdentityDb} {call : AdminCall}

/-! ## Users -/

variable {group id user : Int} {row : UserRow}

theorem principal_eq (row : UserRow) (howner : store.ownerId ≠ some user) :
    store.principal user row now = ⟨user, row.role, row.banUntil⟩ := by
  unfold IdentityStore.principal
  dsimp only
  rw [if_neg (by simp [howner])]

/-- Who is an owner in the private chat owns, whatever the groups say. -/
theorem owns_of_principal (hrow : s.users.lookup user = some row)
    (h : (store.principal user row now).role = .owner) : store.Owns s user := by
  by_cases howner : store.ownerId = some user
  · exact .inl howner
  · rw [principal_eq row howner] at h
    exact .inr ⟨row, hrow, h⟩

theorem promotes_of_ownerBy {p : Principal} {g : GroupRow} (h : OwnerBy s user id p g) :
    overrideOf s user id = some .owner ∨
      overrideOf s user id = none ∧ (p.role = .owner ∨ g.Promotes) := by
  rcases h with h | ⟨h, hrole | ⟨-, hon, hauto⟩⟩
  · exact .inl h
  · exact .inr ⟨h, .inl hrole⟩
  · exact .inr ⟨h, .inr ⟨(Bool.and_eq_true_iff.mp hon).1, hauto⟩⟩

/-- A patch that uncovers nothing does not unblock. -/
theorem blocked_of_patched {target : Int} {p : AdminUserPatch} {row' : UserRow}
    (hrole : row'.role = p.role.getD row.role)
    (hban : row'.banUntil = p.banUntil.getD row.banUntil) (hcover : ¬ p.Uncovers row)
    (h : (⟨target, row.role, row.banUntil⟩ : Principal).isBlocked now = true) :
    (⟨target, row'.role, row'.banUntil⟩ : Principal).isBlocked now = true := by
  simp only [AdminUserPatch.Uncovers, not_or, not_and, not_exists, not_forall] at hcover
  obtain ⟨-, hbanned, hshort⟩ := hcover
  simp only [Principal.isBlocked, Bool.or_eq_true, beq_iff_eq, Option.any_eq_true,
    decide_eq_true_eq] at h ⊢
  rcases h with h | ⟨old, hold, hlt⟩
  · refine .inl ?_
    rw [hrole]
    cases hp : p.role with
    | none => exact h
    | some r =>
        by_contra hr
        exact hbanned h r hp hr
  · refine .inr ?_
    rw [hban]
    cases hp : p.banUntil with
    | none => exact ⟨old, hold, hlt⟩
    | some ban =>
        obtain ⟨b, hb, hle⟩ := hshort old ban hold hp
        exact ⟨b, hb, by omega⟩

/-! ## Chats -/

/-- The user is an owner in the chat, or will be once the chat is a group that is known. -/
def IdentityStore.Owned (store : IdentityStore) (now : Int) (db : IdentityDb) (user : Int)
    (chat : Option Int) : Prop :=
  store.chatRole now db user chat = some .owner ∨
    ∃ id, chat = some id ∧ db.groups.lookup id = none ∧
      store.chatRole now db user none = some .owner

theorem chatRole_none_congr (husers : t.users = s.users) :
    store.chatRole now t user none = store.chatRole now s user none := by
  unfold IdentityStore.chatRole
  rw [husers]

theorem chatRole_some_congr (husers : t.users = s.users)
    (hgroup : t.groups.lookup id = s.groups.lookup id)
    (hover : overrideOf t user id = overrideOf s user id)
    (hgone : t.knownGone user id = s.knownGone user id) :
    store.chatRole now t user (some id) = store.chatRole now s user (some id) := by
  unfold overrideOf at hover
  unfold IdentityStore.chatRole groupAccess
  simp only [husers, hgroup, hover, hgone]

theorem owned_congr (husers : t.users = s.users)
    (hgroup : t.groups.lookup id = s.groups.lookup id)
    (hover : overrideOf t user id = overrideOf s user id)
    (hgone : t.knownGone user id = s.knownGone user id) (h : store.Owned now t user (some id)) :
    store.Owned now s user (some id) := by
  unfold IdentityStore.Owned at h ⊢
  rw [chatRole_some_congr husers hgroup hover hgone, chatRole_none_congr husers] at h
  rcases h with h | ⟨id', hid, hnone, h⟩
  · exact .inl h
  · cases hid
    exact .inr ⟨id, rfl, hgroup ▸ hnone, h⟩

/-- No call makes anyone an owner in the private chat. -/
theorem AdminEffect.private_owner (h : AdminEffect store s call t)
    (ht : store.chatRole now t user none = some .owner) :
    store.chatRole now s user none = some .owner := by
  cases h with
  | same => exact ht
  | groupCreate | groupUpdate | groupDelete | memberUpsert | memberDelete => exact ht
  | permission _ _ _ _ _ husers => exact chatRole_none_congr husers ▸ ht
  | @user _ target p row row' hrow howner hlow hgiven hrole hban =>
      rw [chatRole_private] at ht ⊢
      obtain ⟨new, hnew, hnow⟩ := ht
      rw [IdentityDb.putUser, Dict.lookup_insert_eq] at hnew
      split at hnew
      · rename_i hsame
        subst hsame
        cases hnew
        rw [principal_eq row' howner] at hnow
        refine absurd (?_ : High row'.role) ?_
        · exact .inr hnow
        · rw [hrole]
          cases hp : p.role with
          | none => exact hlow
          | some r => exact hgiven r hp
      · exact ⟨new, hnew, hnow⟩

/-! ## Groups -/

/-- Who owns, and is not lowered, is an owner in the chat. -/
theorem owned_of_private (h : store.chatRole now s user none = some .owner)
    (hlow : ¬ s.Lowered user id) : store.Owned now s user (some id) := by
  cases hgroup : s.groups.lookup id with
  | none => exact .inr ⟨id, rfl, hgroup, h⟩
  | some g =>
      obtain ⟨row, hrow, hrole⟩ := chatRole_private.mp h
      refine .inl (chatRole_group.mpr ⟨row, g, hrow, hgroup, ?_⟩)
      split
      · exact hrole
      · unfold OwnerBy
        cases hover : overrideOf s user id with
        | none => exact .inr ⟨rfl, .inl hrole⟩
        | some r =>
            by_cases hr : r = .owner
            · exact .inl (hr ▸ rfl)
            · exact absurd ⟨r, hover, hr⟩ hlow

/-- A group's row and policies decide together with what the user is without them. -/
theorem owned_of_ownerBy {g : GroupRow} (hrow : s.users.lookup user = some row)
    (hgroup : s.groups.lookup id = some g)
    (hblocked : (store.principal user row now).isBlocked now = true →
      (store.principal user row now).role = .owner)
    (hby : (store.principal user row now).isBlocked now = false →
      OwnerBy s user id (store.principal user row now) g) :
    store.Owned now s user (some id) := by
  refine .inl (chatRole_group.mpr ⟨row, g, hrow, hgroup, ?_⟩)
  split
  · rename_i h
    exact hblocked h
  · rename_i h
    exact hby (Bool.not_eq_true _ ▸ h)

theorem updateUser_owned {actor target : Int} {p : AdminUserPatch} {row' : UserRow}
    (hrow : s.users.lookup target = some row) (howner : store.ownerId ≠ some target)
    (hlow : ¬ High row.role) (hgiven : ∀ r, p.role = some r → ¬ High r)
    (hrole : row'.role = p.role.getD row.role)
    (hban : row'.banUntil = p.banUntil.getD row.banUntil)
    (hguard : (AdminCall.updateUser actor target p).Guarded store s)
    (ht : store.chatRole now (s.putUser target row') user (some id) = some .owner) :
    store.Owned now s user (some id) := by
  obtain ⟨new, g, hnew, hgroup, hnow⟩ := chatRole_group.mp ht
  rw [IdentityDb.putUser, Dict.lookup_insert_eq] at hnew
  split at hnew
  case isFalse =>
    refine .inl (chatRole_group.mpr ⟨new, g, hnew, hgroup, ?_⟩)
    exact hnow
  case isTrue hsame =>
    subst hsame
    cases hnew
    rw [principal_eq row' howner] at hnow
    have hlow' : row'.role ≠ .owner := by
      rw [hrole]
      cases hp : p.role with
      | none => exact fun h => hlow (.inr h)
      | some r => exact fun h => hgiven r hp (.inr h)
    split at hnow
    · exact absurd hnow hlow'
    · rename_i hfree
      have hby : OwnerBy s user id ⟨user, row'.role, row'.banUntil⟩ g := hnow
      have hmakes : s.MakesOwner user id := by
        rcases promotes_of_ownerBy hby with h | ⟨h, h' | h'⟩
        · exact .inl h
        · exact absurd h' hlow'
        · exact .inr ⟨h, g, hgroup, h'⟩
      -- The groups were no reason before only if the patch uncovers them.
      have hcover : ¬ p.Uncovers row := fun h => hguard row hrow h id hmakes
      refine owned_of_ownerBy hrow hgroup ?_ ?_
      · rw [principal_eq row howner]
        exact fun h => absurd (blocked_of_patched hrole hban hcover h) hfree
      · rw [principal_eq row howner]
        intro
        rcases hby with h | ⟨h, h' | ⟨h', hon⟩⟩
        · exact .inl h
        · exact absurd h' hlow'
        · refine .inr ⟨h, .inr ⟨?_, hon⟩⟩
          have hr : p.role.getD row.role = .restricted := hrole ▸ h'
          cases hp : p.role with
          | none => rwa [hp] at hr
          | some r =>
              rw [hp] at hr
              exact absurd (.inl (hp.trans (congrArg some hr))) hcover

theorem groupUpdate_owned {actor : Int} {p : GroupPatch} {row : GroupRow}
    (hrow : s.groups.lookup group = some row)
    (hguard : (AdminCall.groupUpdate actor group p).Guarded store s)
    (ht : store.chatRole now (s.insertGroup group (row.patched p)) user (some id) = some .owner) :
    store.Owned now s user (some id) := by
  by_cases hid : id = group
  · subst hid
    obtain ⟨u, g, hu, hg, hnow⟩ := chatRole_group.mp ht
    rw [IdentityDb.insertGroup, Dict.lookup_insert_eq, if_pos rfl] at hg
    cases hg
    refine owned_of_ownerBy hu hrow ?_ ?_
    · intro h
      rwa [if_pos h] at hnow
    · intro h
      rw [if_neg (by simp [h])] at hnow
      rcases hnow with h | ⟨h, h' | ⟨h', hon, hauto⟩⟩
      · exact .inl h
      · exact .inr ⟨h, .inl h'⟩
      · obtain ⟨hon, hknown⟩ := Bool.and_eq_true_iff.mp hon
        obtain ⟨hwas, hauto⟩ := hguard row hrow ⟨hon, hauto⟩
        exact .inr ⟨h, .inr ⟨h', Bool.and_eq_true_iff.mpr ⟨hwas, hknown⟩, hauto⟩⟩
  · refine owned_congr (t := s.insertGroup group (row.patched p)) rfl ?_ rfl rfl (.inl ht)
    exact (Dict.lookup_insert_eq _ _ _ _).trans (if_neg hid)

/-- A group that is created has no policies and is not enabled. -/
theorem groupCreate_owned {row : GroupRow} (hnone : s.groups.lookup group = none)
    (hoff : row.enabled = false)
    (ht : store.chatRole now ((s.insertGroup group row).restoreGroup group) user (some id) =
      some .owner) : store.Owned now s user (some id) := by
  by_cases hid : id = group
  · subst hid
    obtain ⟨u, g, hu, hg, hnow⟩ := chatRole_group.mp ht
    have hrow : row = g := by
      have h := (Dict.lookup_insert_eq id id row s.groups).trans (if_pos rfl)
      exact Option.some.inj (h.symm.trans hg)
    subst hrow
    refine .inr ⟨id, rfl, hnone, chatRole_private.mpr ⟨u, hu, ?_⟩⟩
    split at hnow
    · exact hnow
    · have hover : overrideOf s user id = none := by
        unfold overrideOf
        cases hp : s.policies.lookup (user, id) with
        | none => rfl
        | some p =>
            have h := s.policyGroup _ _ hp
            rw [hnone] at h
            cases h
      rcases hnow with h | ⟨-, h | ⟨-, h, -⟩⟩
      · exact absurd (hover.symm.trans h) nofun
      · exact h
      · rw [hoff] at h
        cases h
  · refine owned_congr (t := (s.insertGroup group row).restoreGroup group) rfl ?_ rfl rfl (.inl ht)
    exact (Dict.lookup_insert_eq _ _ _ _).trans (if_neg hid)

theorem override_putPolicy {user' group' : Int} {row : PolicyRow}
    (h : (s.groups.lookup group).isSome = true) :
    overrideOf (s.putPolicy user group row h) user' group' =
      if (user', group') = (user, group) then row.roleOverride else overrideOf s user' group' := by
  unfold overrideOf IdentityDb.putPolicy
  dsimp only
  rw [Dict.lookup_insert_eq]
  split <;> rfl

theorem override_erasePolicy {user' group' : Int} :
    overrideOf (s.erasePolicy user group) user' group' =
      if (user', group') = (user, group) then none else overrideOf s user' group' := by
  unfold overrideOf IdentityDb.erasePolicy
  dsimp only
  rw [Dict.lookup_erase_eq]
  split <;> rfl

/-- The policy of a member may change to one that is not an owner's if it hides none. -/
theorem policy_owned (husers : t.users = s.users) (hgroups : t.groups = s.groups)
    (hgone : t.knownGone user id = s.knownGone user id)
    (hset : overrideOf t user id = some .owner → overrideOf s user id = some .owner)
    (hnone : overrideOf t user id = none → ¬ store.Hides s user id)
    (ht : store.chatRole now t user (some id) = some .owner) :
    store.Owned now s user (some id) := by
  obtain ⟨u, g, hu, hg, hnow⟩ := chatRole_group.mp ht
  rw [husers] at hu
  rw [hgroups] at hg
  refine owned_of_ownerBy hu hg ?_ ?_
  · intro h
    rwa [if_pos h] at hnow
  · intro h
    rw [if_neg (by simp [h])] at hnow
    unfold OwnerBy at hnow
    rw [hgone] at hnow
    rcases hnow with h | ⟨h, h'⟩
    · exact .inl (hset h)
    · unfold OwnerBy
      cases hover : overrideOf s user id with
      | none => exact .inr ⟨rfl, h'⟩
      | some r =>
          by_cases hr : r = .owner
          · exact .inl (hr ▸ rfl)
          · refine absurd ⟨⟨r, hover, hr⟩, ?_⟩ (hnone h)
            rcases h' with h' | ⟨-, hon, hauto⟩
            · exact .inl (owns_of_principal hu h')
            · exact .inr ⟨g, hg, (Bool.and_eq_true_iff.mp hon).1, hauto⟩

/-- The memberships of other groups stay as confirmed as they were. -/
theorem knownGone_suppressGroup (hid : id ≠ group) :
    (s.suppressGroup group).knownGone user id = s.knownGone user id := by
  have hbots : ∀ source, (s.suppressGroup group).bots.lookup (source, id) =
      s.bots.lookup (source, id) := by
    intro source
    refine Dict.lookup_foldl_modify fun e he heq => ?_
    have hgroup := of_decide_eq_true (List.mem_filter.mp he).2
    rw [heq] at hgroup
    exact hid hgroup
  have hany : ((s.suppressGroup group).bots.entries.any fun b =>
        decide (b.1.2 = id) && !b.2.present) =
      s.bots.entries.any fun b => decide (b.1.2 = id) && !b.2.present := by
    rw [Bool.eq_iff_iff, Dict.any_entries, Dict.any_entries]
    refine exists_congr fun key => exists_congr fun b => ?_
    obtain ⟨source, other⟩ := key
    by_cases hother : other = id
    · rw [hother, hbots]
    · simp [hother]
  unfold IdentityDb.knownGone
  rw [hany]
  simp only [hbots]
  rfl

theorem groupDelete_owned {actor : Int}
    (hguard : (AdminCall.groupDelete actor group).Guarded store s)
    (ht : store.Owned now ((s.eraseGroup group).suppressGroup group) user (some id)) :
    store.Owned now s user (some id) := by
  by_cases hid : id = group
  · subst hid
    have hgone : ((s.eraseGroup id).suppressGroup id).groups.lookup id = none :=
      (Dict.lookup_erase_eq _ _ _).trans (if_pos rfl)
    rcases ht with ht | ⟨-, -, -, ht⟩
    · obtain ⟨u, g, -, hg, -⟩ := chatRole_group.mp ht
      rw [hgone] at hg
      cases hg
    · obtain ⟨u, hu, hrole⟩ := chatRole_private.mp ht
      exact owned_of_private ht (hguard user (owns_of_principal hu hrole))
  · refine owned_congr (t := (s.eraseGroup group).suppressGroup group) rfl ?_ ?_ ?_ ht
    · exact (Dict.lookup_erase_eq _ _ _).trans (if_neg hid)
    · have hpolicies : ((s.eraseGroup group).suppressGroup group).policies.lookup (user, id) =
          s.policies.lookup (user, id) :=
        Option.ext fun p => Dict.mem_retain.trans (and_iff_left (decide_eq_true hid))
      unfold overrideOf
      rw [hpolicies]
    · exact knownGone_suppressGroup (s := s.eraseGroup group) hid

/-- **One call.** A call that stores no role of owner, and uncovers none, makes no one an owner. -/
theorem AdminEffect.owned {chat : Option Int} (h : AdminEffect store s call t)
    (hguard : call.Guarded store s) (ht : store.Owned now t user chat) :
    store.Owned now s user chat := by
  cases chat with
  | none =>
      rcases ht with ht | ⟨id, hid, -⟩
      · exact .inl (h.private_owner ht)
      · cases hid
  | some id =>
      -- A chat that is no group after the call was none before, or the call deleted it.
      have hother : t.groups.lookup id = none → s.groups.lookup id = none →
          store.chatRole now t user none = some .owner → store.Owned now s user (some id) :=
        fun _ hs hnow => .inr ⟨id, rfl, hs, h.private_owner hnow⟩
      have hstill : t.groups = s.groups →
          (store.chatRole now t user (some id) = some .owner →
            store.Owned now s user (some id)) → store.Owned now s user (some id) := by
        intro hgroups hrole
        rcases ht with ht | ⟨id', hid, hnone, ht⟩
        · exact hrole ht
        · cases hid
          exact hother hnone (hgroups ▸ hnone) ht
      have hinsert : ∀ group row, t.groups = s.groups.insert group row →
          (store.chatRole now t user (some id) = some .owner →
            store.Owned now s user (some id)) → store.Owned now s user (some id) := by
        intro group row hgroups hrole
        rcases ht with ht | ⟨id', hid, hnone, ht⟩
        · exact hrole ht
        · cases hid
          have hlookup := hnone
          rw [hgroups, Dict.lookup_insert_eq] at hlookup
          split at hlookup
          · cases hlookup
          · exact hother hnone hlookup ht
      cases h with
      | same => exact ht
      | user hrow howner hlow hgiven hrole hban =>
          exact hstill rfl (updateUser_owned hrow howner hlow hgiven hrole hban hguard)
      | permission _ _ _ _ _ husers hgroups hpolicies hbots hmembers _ =>
          refine owned_congr husers (by rw [hgroups]) ?_ ?_ ht
          · unfold overrideOf
            rw [hpolicies]
          · unfold IdentityDb.knownGone
            rw [hbots, hmembers]
      | groupCreate hnone hoff => exact hinsert _ _ rfl (groupCreate_owned hnone hoff)
      | groupUpdate hrow => exact hinsert _ _ rfl (groupUpdate_owned hrow hguard)
      | groupDelete => exact groupDelete_owned hguard ht
      | @memberUpsert _ group member p row hgroup hrow =>
          refine hstill rfl (policy_owned rfl rfl rfl ?_ ?_)
          · rw [override_putPolicy]
            split
            · rename_i hkey
              cases hkey
              rw [hrow]
              exact hguard.1
            · exact fun h => h
          · rw [override_putPolicy]
            split
            · rename_i hkey
              cases hkey
              rw [hrow]
              exact hguard.2
            · rintro hover ⟨⟨r, hr, -⟩, -⟩
              rw [hover] at hr
              cases hr
      | @memberDelete _ group member =>
          refine hstill rfl (policy_owned rfl rfl rfl ?_ ?_)
          · rw [override_erasePolicy]
            split
            · exact nofun
            · exact fun h => h
          · rw [override_erasePolicy]
            split
            · rename_i hkey
              cases hkey
              exact fun _ => hguard
            · rintro hover ⟨⟨r, hr, -⟩, -⟩
              rw [hover] at hr
              cases hr

end

/-! ## Runs -/

/-- A call of an actor who is not an owner, at some instant. A call that fails changes nothing. -/
def AdminStep [JsonReader] (store : IdentityStore) (s : IdentityDb) (call : AdminCall)
    (t : IdentityDb) : Prop :=
  ∃ now, store.userRole now s call.actor ≠ some .owner ∧
    (call.run store now s = .ok t ∨ (∃ e, call.run store now s = .error e) ∧ t = s)

def GuardedStep [JsonReader] (store : IdentityStore) (s : IdentityDb) (call : AdminCall)
    (t : IdentityDb) : Prop :=
  AdminStep store s call t ∧ call.Guarded store s

variable {s t : IdentityDb} {store : IdentityStore} {call : AdminCall}

theorem AdminStep.effect [JsonReader] (h : AdminStep store s call t) :
    AdminEffect store s call t := by
  obtain ⟨now, hactor, hrun | ⟨-, rfl⟩⟩ := h
  · exact call_effect hactor hrun
  · exact .same

theorem guarded_owned [JsonReader] {calls : List AdminCall}
    (h : Run (GuardedStep store) s calls t) {now user : Int} {chat : Option Int} :
    store.Owned now t user chat → store.Owned now s user chat :=
  h.relate (R := fun s t => store.Owned now t user chat → store.Owned now s user chat)
    (fun _ h => h) fun hst hstep hu => hst (hstep.1.effect.owned hstep.2 hu)

/-- **Owner power.** Administrators below owner leave the high roles and the grants of those who
have them, and make no one an owner in a chat, as long as no call stores a role of owner for a
group or uncovers one. -/
theorem owner_power [JsonReader] (store : IdentityStore) (s t : IdentityDb)
    (calls : List AdminCall) (hrun : Run (AdminStep store) s calls t) :
    SameHigh store s t ∧
      (Run (GuardedStep store) s calls t →
        ∀ (now user : Int) (chat : Option (Int × Option Int)) (policy : AccessPolicy)
          (feature : Option (String × String)),
          store.OwnerIn now t user chat policy feature →
            store.OwnerIn now s user chat policy feature ∨
              (∃ id thread, chat = some (id, thread) ∧ s.groups.lookup id = none) ∧
                store.OwnerIn now s user none policy feature) := by
  constructor
  · exact hrun.relate (R := SameHigh store) (SameHigh.refl store)
      fun hst hstep => hst.trans hstep.effect.sameHigh
  · intro hguarded now user chat policy feature howner
    obtain ⟨hvalid, hrole⟩ := ownerIn_iff.mp howner
    rcases guarded_owned hguarded (.inl hrole) with hs | ⟨id, hid, hnone, hs⟩
    · exact .inl (ownerIn_iff.mpr ⟨hvalid, hs⟩)
    · obtain ⟨⟨id', thread⟩, hchat, rfl⟩ := Option.map_eq_some_iff.mp hid
      refine .inr ⟨⟨id', thread, hchat, hnone⟩, ownerIn_iff.mpr ⟨⟨hvalid.1, hvalid.2.1, rfl⟩, hs⟩⟩

section

/-- A reader of no documents. -/
@[reducible] def noReader : JsonReader := ⟨fun _ => none⟩

attribute [local instance] noReader

def plainRow (role : Role) : UserRow := ⟨none, none, none, role, "en", "macchiato", none, 0, 0⟩

theorem oneGroup_policies : ∀ (key : Int × Int) p,
    (∅ : Dict (Int × Int) PolicyRow).lookup key = some p →
      (((∅ : Dict Int GroupRow).insert (-1) ⟨none, true, .user, true, false, none, none⟩).lookup
        key.2).isSome = true := by
  intro _ _ h
  cases h

/-- User 2 is an administrator, and a member of the one group, as user 3 is. -/
def oneGroup : IdentityDb where
  users := ((∅ : Dict Int UserRow).insert 2 (plainRow .admin)).insert 3 (plainRow .user)
  permissions := ∅
  settings := ∅
  groups := (∅ : Dict Int GroupRow).insert (-1) ⟨none, true, .user, true, false, none, none⟩
  policies := ∅
  threads := []
  bots := ∅
  members := ∅
  groupSuppressions := []
  featureSuppressions := []
  byok := ∅
  policyGroup := oneGroup_policies

def adminAct (s : IdentityDb) (call : AdminCall) : AdminCall × IdentityDb :=
  match call.run ownedStore 0 s with
  | .ok t => (call, t)
  | .error _ => (call, s)

theorem adminAct_step (s : IdentityDb) (call : AdminCall)
    (h : decide (ownedStore.userRole 0 s call.actor ≠ some .owner) = true) :
    AdminStep ownedStore s (adminAct s call).1 (adminAct s call).2 := by
  unfold adminAct
  split
  · rename_i t hrun
    exact ⟨0, of_decide_eq_true h, .inl hrun⟩
  · rename_i e hrun
    exact ⟨0, of_decide_eq_true h, .inr ⟨⟨e, hrun⟩, rfl⟩⟩

/-- The call sets an override below owner where none of them hides an owner, or grants a feature. -/
def harmless (s : IdentityDb) : AdminCall → Bool
  | .grantPermission .. => true
  | .memberUpsert _ group user p =>
      p.roleOverride != some .owner && ownedStore.ownerId != some user &&
        (s.users.lookup user).all (fun row => row.role != .owner) &&
        (s.groups.lookup group).all fun g => g.autoGrantRole != .owner
  | _ => false

theorem guarded_of_harmless (h : harmless s call = true) : call.Guarded ownedStore s := by
  cases call with
  | grantPermission => trivial
  | memberUpsert _ group user p =>
      simp only [harmless, Bool.and_eq_true, bne_iff_ne, ne_eq, Option.all_eq_true] at h
      obtain ⟨⟨⟨hrole, howner⟩, husers⟩, hgroups⟩ := h
      refine ⟨fun heq => absurd heq hrole, ?_⟩
      rintro - ⟨-, (hid | ⟨row, hrow, hrow'⟩) | ⟨g, hg, -, hgrant⟩⟩
      · exact howner hid
      · exact husers row hrow hrow'
      · exact hgroups g hg hgrant
  | _ => cases h

/-- The administrator makes the other user an administrator of the group, takes that back and
grants him a feature. -/
def raisedForAWhile : List AdminCall :=
  [.memberUpsert 2 (-1) 3 ⟨some .admin, none⟩, .memberUpsert 2 (-1) 3 ⟨none, none⟩,
    .grantPermission 2 3 "insight" "tldr" none]

theorem raisedForAWhile_owner_power :
    SameHigh ownedStore oneGroup (play adminAct oneGroup raisedForAWhile).2 ∧
      overrideOf (play adminAct oneGroup (raisedForAWhile.take 1)).2 3 (-1) = some .admin ∧
      ¬ ownedStore.OwnerIn 0 (play adminAct oneGroup raisedForAWhile).2 3 (some (-1, none))
        ⟨.user, [.groupScope], true, false⟩ (some ("insight", "tldr")) := by
  have hstep : ∀ s call, (decide (ownedStore.userRole 0 s call.actor ≠ some .owner) &&
      harmless s call) = true →
      GuardedStep ownedStore s (adminAct s call).1 (adminAct s call).2 := by
    intro s call h
    obtain ⟨hactor, hharmless⟩ := Bool.and_eq_true_iff.mp h
    have hcall : (adminAct s call).1 = call := by
      unfold adminAct
      split <;> rfl
    exact ⟨adminAct_step s call hactor, by rw [hcall]; exact guarded_of_harmless hharmless⟩
  have hguarded : Run (GuardedStep ownedStore) oneGroup
      (play adminAct oneGroup raisedForAWhile).1 (play adminAct oneGroup raisedForAWhile).2 :=
    play_run hstep (by decide)
  have h := owner_power ownedStore oneGroup _ _ (hguarded.mono And.left)
  refine ⟨h.1, by decide, fun howner => ?_⟩
  rcases h.2 hguarded 0 3 _ _ _ howner with hs | ⟨⟨id, thread, hchat, hs⟩, -⟩
  · have hrole := (ownerIn_iff.mp hs).2
    revert hrole
    decide
  · cases hchat
    revert hs
    decide

/-- The administrator makes himself the owner in the group. -/
theorem override_makes_owner :
    ¬ ∀ (store : IdentityStore) (s t : IdentityDb) (calls : List AdminCall),
      Run (AdminStep store) s calls t →
      ∀ (now user : Int) (chat : Option (Int × Option Int)) (policy : AccessPolicy)
        (feature : Option (String × String)),
        store.OwnerIn now t user chat policy feature →
          store.OwnerIn now s user chat policy feature := by
  intro h
  have hstep := adminAct_step oneGroup (.memberUpsert 2 (-1) 2 ⟨some .owner, none⟩) (by decide)
  have howner := h ownedStore oneGroup _ _ (Run.single hstep) 0 2 (some (-1, none))
    ⟨.user, [.groupScope], true, false⟩ (some ("insight", "tldr"))
    (ownerIn_iff.mpr ⟨⟨by decide, rfl, rfl⟩, by decide⟩)
  have hrole := (ownerIn_iff.mp howner).2
  revert hrole
  decide

end

end YoinkCore.Identity
