import YoinkCore.Identity.Membership
import YoinkCore.Lib.Latest
import YoinkCore.Lib.Run
import YoinkCore.Lib.Transaction

/-!
# The order of observations

Observations reach the database in any order. Which are the last ones of each subject, and since
when the bot has been where it is, is a matter of their keys alone. The database follows that as
long as no observation comes too late to be counted.
-/

namespace YoinkCore.Identity

open Lib Domain

abbrev History := List MembershipObservation

/-! ## Histories -/

def LastBot (h : History) (b : MembershipObservation) : Prop :=
  Latest MembershipObservation.key (·.isBot = true) h b

def LastAbout (user : Int) (h : History) (x : MembershipObservation) : Prop :=
  Latest MembershipObservation.key (·.about user = true) h x

/-- The last observation that tells the user's tag. -/
def LastTagged (user : Int) (h : History) (x : MembershipObservation) : Prop :=
  Latest MembershipObservation.key (fun o => o.about user = true ∧ o.knownTag = true) h x

/-- The bot was where it is now from before the instant on. -/
def InStay (h : History) (k : UpdateKey) : Prop :=
  Since MembershipObservation.key (·.isBot = true) (·.present) h k

/-- An observation that still counts as it would have counted in its turn. -/
structure Timely (h : History) (o : MembershipObservation) : Prop where
  /-- No later observation of a user was counted before a change of the bot. -/
  change : o.isBot = true → (∀ b ∈ h, b.isBot = true → b.key < o.key) →
    (∀ b, LastBot h b → o.present ≠ b.present) → ∀ x ∈ h, x.isBot = false → x.key < o.key
  /-- A late observation of the bot moves the begin of its stay over none that counts. -/
  late : o.isBot = true → (∃ b ∈ h, b.isBot = true ∧ o.key < b.key) →
    ∀ user x, LastAbout user h x ∨ LastTagged user h x → (InStay h x.key ↔ InStay (h ++ [o]) x.key)
  /-- The bot changed since an observation of a user from before the last one of the bot. -/
  stay : ∀ user, o.about user = true → (∀ x ∈ h, x.about user = true → x.key < o.key) →
    (∃ b ∈ h, b.isBot = true ∧ o.key < b.key) → ¬ InStay h o.key
  /-- A late tag was overtaken by a later one. -/
  tag : ∀ user, o.about user = true → o.knownTag = true →
    (∃ x ∈ h, x.about user = true ∧ o.key < x.key) →
      ∃ y ∈ h, y.about user = true ∧ y.knownTag = true ∧ o.key < y.key

/-- In the order of the keys every observation comes in its turn. -/
theorem timely_of_last {h : History} {o : MembershipObservation} (hlast : ∀ x ∈ h, x.key < o.key) :
    Timely h o where
  change _ _ _ x hx _ := hlast x hx
  late := by
    rintro - ⟨b, hb, -, hlt⟩
    exact absurd hlt (lt_asymm (hlast b hb))
  stay := by
    rintro - - - ⟨b, hb, -, hlt⟩
    exact absurd hlt (lt_asymm (hlast b hb))
  tag := by
    rintro - - - ⟨x, hx, -, hlt⟩
    exact absurd hlt (lt_asymm (hlast x hx))

theorem not_bot_of_about {o : MembershipObservation} {user : Int} (h : o.about user = true) :
    o.isBot = false := by
  unfold MembershipObservation.about at h
  unfold MembershipObservation.isBot
  split at h
  · cases h
  · rfl

theorem about_unique {o : MembershipObservation} {user other : Int} (h : o.about user = true)
    (h' : o.about other = true) : user = other := by
  unfold MembershipObservation.about at h h'
  split at h
  · cases h
  · rename_i p hp
    rw [hp] at h'
    exact (of_decide_eq_true h).symm.trans (of_decide_eq_true h')

/-! ## What an observation changes -/

section

variable [ObservationWriter] {now : Int} {s t : IdentityDb} {o : MembershipObservation}
  {outcome : MembershipOutcome} {source group : Int}

theorem observe_eq_ok (hgroup : (s.groups.lookup o.groupId).isSome = true)
    (hfree : s.groupSuppressions.contains o.groupId = false)
    (h : s.observeMembership now o = .ok (outcome, t)) :
    (t = s ∧ ∃ old, s.lastOrder o = some old ∧ o.key ≤ old.1) ∨
      (∀ old, s.lastOrder o = some old → old.1 < o.key) ∧ s.applyObservation now o = .ok t := by
  unfold IdentityDb.observeMembership at h
  obtain ⟨-, -, h⟩ := Tx.result_bind_eq_ok.mp h
  unfold IdentityDb.observeInTransaction at h
  rw [hfree, if_neg Bool.false_ne_true] at h
  split at h
  · rename_i hstale
    cases h
    obtain ⟨old, hold, hlt⟩ := (Option.any_eq_true _ _).mp hstale
    exact .inl ⟨rfl, old, hold, le_of_lt (of_decide_eq_true hlt)⟩
  · rename_i hstale
    split at h
    · rename_i hsame
      obtain ⟨old, hold, heq⟩ := (Option.any_eq_true _ _).mp hsame
      split at h
      · cases h
        exact .inl ⟨rfl, old, hold, le_of_eq (of_decide_eq_true heq)⟩
      · cases h
    · rename_i hsame
      dsimp only at h
      rw [hgroup] at h
      simp only [Bool.not_true, Bool.false_and, Bool.false_eq_true, if_false] at h
      obtain ⟨db, hdb, h⟩ := Tx.result_bind_eq_ok.mp h
      cases h
      refine .inr ⟨fun old hold => ?_, hdb⟩
      rw [hold, Option.any_some, decide_eq_true_eq] at hstale hsame
      exact lt_of_le_of_ne (not_lt.mp hstale) (Ne.symm hsame)

/-- The row that an observation of the bot leaves. -/
def nextBot (s : IdentityDb) (o : MembershipObservation) : BotRow :=
  let bot := s.bots.lookup (o.sourceId, o.groupId)
  ⟨o.micros, o.updateId, ObservationWriter.write o, o.present,
    if bot.map (·.present) ≠ some o.present then (bot.map (·.generation)).getD 0 + 1
    else (bot.map (·.generation)).getD 0⟩

/-- The row that an observation of a user brings. -/
def nextMember (s : IdentityDb) (o : MembershipObservation) : MemberRow :=
  let bot := s.bots.lookup (o.sourceId, o.groupId)
  let generation :=
    if bot.any fun b => decide (o.key < toLex (b.occurredAt, b.updateId)) then
      (bot.map (·.generation)).getD 0 - 1
    else (bot.map (·.generation)).getD 0
  ⟨o.micros, o.updateId, ObservationWriter.write o, o.present, generation, o.tagText, generation⟩

theorem apply_bot (hbot : o.isBot = true) (h : s.applyObservation now o = .ok t) :
    t = s.putBot o.sourceId o.groupId (nextBot s o) := by
  unfold IdentityDb.applyObservation at h
  unfold MembershipObservation.isBot at hbot
  dsimp only at h
  split at h
  · obtain ⟨-, h⟩ := Tx.result_guard_eq_ok.mp h
    cases h
    rfl
  · rename_i p hp
    rw [hp] at hbot
    cases hbot

theorem apply_user {user : Int} (habout : o.about user = true)
    (h : s.applyObservation now o = .ok t) :
    ∃ users, t = ({ s with users } : IdentityDb).putMember o.sourceId o.groupId user
      (nextMember s o) o.knownTag := by
  unfold IdentityDb.applyObservation at h
  unfold MembershipObservation.about at habout
  dsimp only at h
  split at h
  · rename_i hp
    rw [hp] at habout
    cases habout
  · rename_i p hp
    rw [hp] at habout
    obtain rfl : p.userId = user := of_decide_eq_true habout
    obtain ⟨db, hdb, h⟩ := Tx.result_bind_eq_ok.mp h
    cases h
    unfold IdentityDb.ensureUser at hdb
    split at hdb
    · cases hdb
      exact ⟨s.users, rfl⟩
    · obtain ⟨role, -, hdb⟩ := Tx.result_bind_eq_ok.mp hdb
      cases hdb
      unfold IdentityDb.insertUser
      split
      · exact ⟨s.users, rfl⟩
      · exact ⟨_, rfl⟩

end

end YoinkCore.Identity
