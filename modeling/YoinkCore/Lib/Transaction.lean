import Mathlib

/-!
# Transactions over a state

`Tx σ ε α` is the body of a transaction: statements read and write a working
copy of the state, and the first failing one ends the body. A body that ends
normally says whether it commits. `Tx.run` then publishes the working copy, or
drops it: a failure and a return without commit both leave the state as it was.
-/

namespace YoinkCore.Lib

/-- The body of a transaction on `σ`, failing with `ε`. -/
abbrev Tx (σ ε α : Type) := StateT σ (Except ε) α

/-- How a body that did not fail gives the transaction back. -/
inductive Ended (α : Type) where
  | commit (a : α)
  | rollback (a : α)
deriving DecidableEq

namespace Tx

variable {σ ε α β : Type}

/-- Run a body on the committed state. Only a commit is visible afterwards. -/
def run (body : Tx σ ε (Ended α)) (s : σ) : Except ε α × σ :=
  match body s with
  | .ok (.commit a, s') => (.ok a, s')
  | .ok (.rollback a, _) => (.ok a, s)
  | .error e => (.error e, s)

/-- A body that commits unless it fails, such as a single statement by itself. -/
def auto (stmt : Tx σ ε α) : σ → Except ε α × σ :=
  run do
    let a ← stmt
    return .commit a

/-! ## Inverting a body -/

/-- Inverting a computation that only may fail. -/
theorem result_bind_eq_ok {x : Except ε α} {f : α → Except ε β} {b : β} :
    (x >>= f) = .ok b ↔ ∃ a, x = .ok a ∧ f a = .ok b := by
  cases x with
  | error e | ok a => simp [bind, Except.bind]

theorem result_map_eq_ok {x : Except ε α} {f : α → β} {b : β} :
    x.map f = .ok b ↔ ∃ a, x = .ok a ∧ f a = b := by
  cases x with
  | error e => simp [Except.map]
  | ok a => simp [Except.map]

/-- A guard of a computation that goes through. -/
theorem result_guard_eq_ok {c : Prop} [Decidable c] {e : ε} {k : PUnit → Except ε β} {b : β} :
    (if c then throw e >>= k else k ⟨⟩) = .ok b ↔ ¬ c ∧ k ⟨⟩ = .ok b := by
  split
  · rename_i h
    exact ⟨fun he => (by cases he), fun hk => absurd h hk.1⟩
  · rename_i h
    exact ⟨fun hk => ⟨h, hk⟩, fun hk => hk.2⟩

theorem mapError_eq_ok {ε' : Type} {x : Except ε α} {f : ε → ε'} {a : α} :
    x.mapError f = .ok a ↔ x = .ok a := by
  cases x <;> simp [Except.mapError]

@[simp] theorem bind_eq_ok {x : Tx σ ε α} {f : α → Tx σ ε β} {s s' : σ} {b : β} :
    (x >>= f) s = .ok (b, s') ↔
      ∃ a s₁, x s = .ok (a, s₁) ∧ f a s₁ = .ok (b, s') := by
  show (x s >>= fun p => f p.1 p.2) = _ ↔ _
  cases hx : x s with
  | error e => simp [bind, Except.bind]
  | ok p =>
      constructor
      · exact fun h => ⟨p.1, p.2, rfl, h⟩
      · rintro ⟨a, s₁, he, h⟩
        cases he
        exact h

theorem bind_eq_error {x : Tx σ ε α} {f : α → Tx σ ε β} {s : σ} {e : ε} :
    (x >>= f) s = .error e ↔
      x s = .error e ∨ ∃ a s₁, x s = .ok (a, s₁) ∧ f a s₁ = .error e := by
  show (x s >>= fun p => f p.1 p.2) = _ ↔ _
  cases hx : x s with
  | error e' => simp [bind, Except.bind]
  | ok p =>
      constructor
      · exact fun h => .inr ⟨p.1, p.2, rfl, h⟩
      · rintro (h | ⟨a, s₁, he, h⟩)
        · cases h
        · cases he
          exact h

theorem bind_of_ok {x : Tx σ ε α} {f : α → Tx σ ε β} {s s₁ : σ} {a : α}
    (h : x s = .ok (a, s₁)) : (x >>= f) s = f a s₁ := by
  show (x s >>= fun p => f p.1 p.2) = _
  rw [h]
  rfl

@[simp] theorem pure_eq_ok {a b : α} {s s' : σ} :
    (pure a : Tx σ ε α) s = .ok (b, s') ↔ a = b ∧ s = s' := by
  show Except.ok (a, s) = _ ↔ _
  simp

@[simp] theorem throw_ne_ok {e : ε} {s : σ} {p : α × σ} :
    (throw e : Tx σ ε α) s = .ok p ↔ False := by
  show Except.error e = _ ↔ _
  simp

@[simp] theorem get_eq_ok {s s' t : σ} :
    (get : Tx σ ε σ) s = .ok (t, s') ↔ s = t ∧ s = s' := by
  show Except.ok (s, s) = _ ↔ _
  simp

@[simp] theorem set_eq_ok {s s' t : σ} {u : PUnit} :
    (set t : Tx σ ε PUnit) s = .ok (u, s') ↔ t = s' := by
  show Except.ok (PUnit.unit, t) = _ ↔ _
  simp

@[simp] theorem ite_apply_state {c : Prop} [Decidable c] {x y : Tx σ ε α} {s : σ} :
    (if c then x else y) s = if c then x s else y s := by
  split <;> rfl

/-- A computation that reads nothing, as a statement. -/
def ofExcept (x : Except ε α) : Tx σ ε α :=
  match x with
  | .ok a => pure a
  | .error e => throw e

@[simp] theorem ofExcept_eq_ok {x : Except ε α} {s s' : σ} {a : α} :
    (ofExcept x : Tx σ ε α) s = .ok (a, s') ↔ x = .ok a ∧ s = s' := by
  cases x with
  | error e => simp [ofExcept]
  | ok b => simp [ofExcept]

theorem ofExcept_eq_error {x : Except ε α} {s : σ} {e : ε} :
    (ofExcept x : Tx σ ε α) s = .error e ↔ x = .error e := by
  cases x with
  | error e' =>
      show Except.error e' = _ ↔ _
      simp
  | ok b =>
      show Except.ok (b, s) = _ ↔ _
      simp

/-! ## Inverting a run -/

/-- A body fails, rolls back or commits. -/
theorem run_spec (body : Tx σ ε (Ended α)) (s : σ) :
    (∃ e, body s = .error e ∧ run body s = (.error e, s)) ∨
      (∃ a s', body s = .ok (.rollback a, s') ∧ run body s = (.ok a, s)) ∨
      ∃ a s', body s = .ok (.commit a, s') ∧ run body s = (.ok a, s') := by
  unfold run
  split
  · rename_i a s' h
    exact .inr (.inr ⟨a, s', h, rfl⟩)
  · rename_i a s' h
    exact .inr (.inl ⟨a, s', h, rfl⟩)
  · rename_i e h
    exact .inl ⟨e, h, rfl⟩

/-- A run leaves the state alone, or publishes what its body committed. -/
theorem run_cases (body : Tx σ ε (Ended α)) (s : σ) :
    (run body s).2 = s ∨
      ∃ a s', body s = .ok (.commit a, s') ∧ run body s = (.ok a, s') := by
  rcases run_spec body s with ⟨e, -, hr⟩ | ⟨a, s', -, hr⟩ | h
  · exact .inl (by rw [hr])
  · exact .inl (by rw [hr])
  · exact .inr h

theorem run_of_rollback {body : Tx σ ε (Ended α)} {s t : σ} {a : α}
    (h : body s = .ok (.rollback a, t)) : run body s = (.ok a, s) := by
  unfold run
  rw [h]

theorem run_of_commit {body : Tx σ ε (Ended α)} {s s₁ : σ} {a : α}
    (h : body s = .ok (.commit a, s₁)) : run body s = (.ok a, s₁) := by
  unfold run
  rw [h]

theorem auto_eq {stmt : Tx σ ε α} {s : σ} :
    auto stmt s =
      match stmt s with
      | .ok (a, s') => (.ok a, s')
      | .error e => (.error e, s) := by
  unfold auto run
  show (match (stmt s >>= fun p => pure (Ended.commit p.1, p.2)) with
    | .ok (.commit a, s') => (Except.ok a, s')
    | .ok (.rollback a, _) => (.ok a, s)
    | .error e => (.error e, s)) = _
  cases stmt s <;> rfl

/-- A statement by itself fails and changes nothing, or succeeds. -/
theorem auto_cases (stmt : Tx σ ε α) (s : σ) :
    (∃ e, auto stmt s = (.error e, s)) ∨
      ∃ a s', stmt s = .ok (a, s') ∧ auto stmt s = (.ok a, s') := by
  rw [auto_eq]
  cases stmt s with
  | error e => exact .inl ⟨e, rfl⟩
  | ok p => exact .inr ⟨p.1, p.2, rfl, rfl⟩

/-- A statement by itself succeeds as its body does. -/
theorem auto_eq_ok {stmt : Tx σ ε α} {s s' : σ} {a : α} :
    auto stmt s = (.ok a, s') ↔ stmt s = .ok (a, s') := by
  rw [auto_eq]
  split
  · rename_i b t hb
    rw [hb]
    simp
  · rename_i e hb
    rw [hb]
    simp

/-- A statement by itself that fails changes nothing. -/
theorem auto_error_state {stmt : Tx σ ε α} {s s' : σ} {e : ε}
    (h : auto stmt s = (.error e, s')) : s' = s := by
  rw [auto_eq] at h
  split at h
  · cases h
  · cases h
    rfl

/-! ## What statements keep -/

/-- A statement that succeeds keeps the property. -/
def Preserves (I : σ → Prop) (x : Tx σ ε α) : Prop :=
  ∀ s a s', I s → x s = .ok (a, s') → I s'

namespace Preserves

variable {I : σ → Prop} {x y : Tx σ ε α}

theorem bind {f : α → Tx σ ε β} (hx : Preserves I x) (hf : ∀ a, Preserves I (f a)) :
    Preserves I (x >>= f) := by
  intro s b s' hs h
  obtain ⟨a, s₁, hx', hf'⟩ := bind_eq_ok.mp h
  exact hf a s₁ b s' (hx s a s₁ hs hx') hf'

/-- What is done with the state that is read may use that state. -/
theorem get_bind {f : σ → Tx σ ε α} (h : ∀ s a s', I s → f s s = .ok (a, s') → I s') :
    Preserves I ((get : Tx σ ε σ) >>= f) := by
  intro s a s' hs hrun
  obtain ⟨t, u, hget, hf⟩ := bind_eq_ok.mp hrun
  obtain ⟨rfl, rfl⟩ := get_eq_ok.mp hget
  exact h s a s' hs hf

theorem pure {a : α} : Preserves I (pure a : Tx σ ε α) := by
  intro s b s' hs h
  obtain ⟨-, rfl⟩ := pure_eq_ok.mp h
  exact hs

theorem throw {e : ε} : Preserves I (throw e : Tx σ ε α) :=
  fun _ _ _ _ h => (throw_ne_ok.mp h).elim

theorem ofExcept {r : Except ε α} : Preserves I (ofExcept r : Tx σ ε α) := by
  intro s a s' hs h
  obtain ⟨-, rfl⟩ := ofExcept_eq_ok.mp h
  exact hs

theorem ite {c : Prop} [Decidable c] (hx : c → Preserves I x) (hy : ¬ c → Preserves I y) :
    Preserves I (if c then x else y) := by
  by_cases hc : c
  · rw [if_pos hc]
    exact hx hc
  · rw [if_neg hc]
    exact hy hc

theorem forM {f : β → Tx σ ε Unit} (hf : ∀ b, Preserves I (f b)) :
    ∀ l : List β, Preserves I (l.forM f)
  | [] => pure
  | b :: l => bind (hf b) fun _ => forM hf l

end Preserves

end Tx

end YoinkCore.Lib
