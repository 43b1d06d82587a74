import YoinkCore.Lib.Run

/-!
# Interleaved callers

A caller is a program that asks questions, and goes on with the answer to each. Some are
answered by a state that all callers share, the others by the world around it. Callers
enter at any time and take turns in any order, one question at a time. A caller that is
given no further turn has crashed, so that nothing more is said about crashes.

`Asking.Keeps` is the weakest precondition of a caller by itself: what it asks is allowed
after the answers it has had. What every caller keeps that may enter holds of all
questions of a run, in whatever order the callers take turns.
-/

namespace YoinkCore.Lib

variable {Q : Type} {A : Q → Type} {α β ε ρ σ : Type}

/-- A question with its answer. -/
abbrev Answered (A : Q → Type) := (q : Q) × A q

/-- A program that asks questions of type `Q`. -/
inductive Asking (A : Q → Type) (α : Type) where
  | done (a : α)
  | ask (q : Q) (next : A q → Asking A α)

namespace Asking

def bind : Asking A α → (α → Asking A β) → Asking A β
  | done a, f => f a
  | ask q next, f => ask q fun a => bind (next a) f

instance : Monad (Asking A) where
  pure := done
  bind := bind

/-- A program that fails with the first error it meets. -/
abbrev Failing (A : Q → Type) (ε α : Type) := ExceptT ε (Asking A) α

/-- A question whose answer may be an error, by itself. -/
def call (q : Q) (h : A q = Except ε α) : Failing A ε α :=
  ExceptT.mk (ask q fun a => done (h ▸ a))

/-! ## What a caller asks -/

/-- After the answers `heard`, every question that is asked is allowed by `C`, and an end
has the property `R`. -/
def Keeps (C : List (Answered A) → Q → Prop) (R : List (Answered A) → α → Prop) :
    List (Answered A) → Asking A α → Prop
  | heard, done a => R heard a
  | heard, ask q next => C heard q ∧ ∀ a, Keeps C R (heard ++ [⟨q, a⟩]) (next a)

variable {C : List (Answered A) → Q → Prop} {heard : List (Answered A)}

@[simp] theorem keeps_done {R : List (Answered A) → α → Prop} {a : α} :
    Keeps C R heard (done a) ↔ R heard a := Iff.rfl

theorem keeps_ask {R : List (Answered A) → α → Prop} {q : Q} {next : A q → Asking A α} :
    Keeps C R heard (ask q next) ↔
      C heard q ∧ ∀ a, Keeps C R (heard ++ [⟨q, a⟩]) (next a) := Iff.rfl

theorem keeps_bind {R : List (Answered A) → β → Prop} {p : Asking A α}
    {f : α → Asking A β} :
    Keeps C R heard (p >>= f) ↔ Keeps C (fun heard a => Keeps C R heard (f a)) heard p := by
  induction p generalizing heard with
  | done a => exact Iff.rfl
  | ask q next ih =>
      show C heard q ∧ (∀ a, Keeps C R _ (next a >>= f)) ↔ _
      rw [keeps_ask]
      exact and_congr_right fun _ => forall_congr' fun a => ih a

/-- **Rule of consequence.** What was heard before is not forgotten. -/
theorem Keeps.mono {R R' : List (Answered A) → α → Prop} {p : Asking A α}
    (h : Keeps C R heard p) (hR : ∀ l a, R (heard ++ l) a → R' (heard ++ l) a) :
    Keeps C R' heard p := by
  induction p generalizing heard with
  | done a => simpa using hR [] a (by simpa using h)
  | ask q next ih =>
      refine ⟨h.1, fun a => ih a (h.2 a) fun l b hb => ?_⟩
      rw [List.append_assoc] at hb ⊢
      exact hR _ b hb

namespace Failing

variable {R : List (Answered A) → Except ε β → Prop} {x : Failing A ε α}
  {f : α → Failing A ε β}

theorem keeps_bind :
    Keeps C R heard (x >>= f).run ↔ Keeps C (fun heard r => match r with
      | .ok a => Keeps C R heard (f a).run
      | .error e => R heard (.error e)) heard x.run := by
  refine Asking.keeps_bind.trans ?_
  have hcont : ∀ heard' (r : Except ε α), Keeps C R heard' (ExceptT.bindCont f r) ↔
      match r with
      | .ok a => Keeps C R heard' (f a).run
      | .error e => R heard' (.error e) := by
    intro heard' r
    cases r <;> exact Iff.rfl
  simp only [hcont]
  exact Iff.rfl

/-- **Sequence rule.** An error ends the program, what follows knows the value. -/
theorem keeps_seq {S : List (Answered A) → Except ε α → Prop}
    (hx : Keeps C S heard x.run)
    (hok : ∀ l a, S (heard ++ l) (.ok a) → Keeps C R (heard ++ l) (f a).run)
    (herror : ∀ l e, S (heard ++ l) (.error e) → R (heard ++ l) (.error e)) :
    Keeps C R heard (x >>= f).run := by
  refine keeps_bind.mpr (hx.mono fun l r hr => ?_)
  cases r with
  | ok a => exact hok l a hr
  | error e => exact herror l e hr

end Failing

end Asking

/-! ## Pools -/

/-- The shared state, and the callers in the order they entered. -/
structure Pool (σ : Type) (A : Q → Type) (ρ : Type) where
  shared : σ
  callers : List (Asking A ρ)

/-- A caller enters, or the next question of one is answered. -/
inductive Turn (A : Q → Type) (ρ : Type) where
  | enter (p : Asking A ρ)
  | answer (caller : Nat) (q : Q) (a : A q)

/-- `May` says who may enter, `Gives` how the shared state and the world answer. -/
inductive Pool.Step (May : Asking A ρ → Prop) (Gives : σ → (q : Q) → A q → σ → Prop) :
    Pool σ A ρ → Turn A ρ → Pool σ A ρ → Prop
  | enter {s : Pool σ A ρ} {p : Asking A ρ} (may : May p) :
      Step May Gives s (.enter p) ⟨s.shared, s.callers ++ [p]⟩
  | answer {s : Pool σ A ρ} {caller : Nat} {q : Q} {next : A q → Asking A ρ} {a : A q}
      {t : σ} (turn : s.callers[caller]? = some (.ask q next))
      (gives : Gives s.shared q a t) :
      Step May Gives s (.answer caller q a) ⟨t, s.callers.set caller (next a)⟩

/-- The answers one caller has had. -/
def heardBy (caller : Nat) (es : List (Turn A ρ)) : List (Answered A) :=
  es.filterMap fun
    | .enter _ => none
    | .answer i q a => if i = caller then some ⟨q, a⟩ else none

@[simp] theorem heardBy_append (caller : Nat) (es es' : List (Turn A ρ)) :
    heardBy caller (es ++ es') = heardBy caller es ++ heardBy caller es' :=
  List.filterMap_append

/-- What a caller heard was an answer of the run. -/
theorem mem_of_heardBy {caller : Nat} {es : List (Turn A ρ)} {q : Q} {a : A q}
    (h : (⟨q, a⟩ : Answered A) ∈ heardBy caller es) : .answer caller q a ∈ es := by
  rw [heardBy, List.mem_filterMap] at h
  obtain ⟨_ | ⟨i, q', a'⟩, he, ha⟩ := h
  · cases ha
  · dsimp only at ha
    split at ha
    · rename_i hi
      cases ha
      exact hi ▸ he
    · cases ha

/-- Where a caller heard an answer, the run gave it. -/
theorem heardBy_eq_append_cons {caller : Nat} {es : List (Turn A ρ)} {q : Q} {a : A q}
    {before rest : List (Answered A)} (h : heardBy caller es = before ++ ⟨q, a⟩ :: rest) :
    ∃ es₁ es₂, es = es₁ ++ .answer caller q a :: es₂ ∧ heardBy caller es₁ = before ∧
      heardBy caller es₂ = rest := by
  rw [heardBy, List.filterMap_eq_append_iff] at h
  obtain ⟨l₁, l₂, rfl, hbefore, hcons⟩ := h
  rw [List.filterMap_eq_cons_iff] at hcons
  obtain ⟨m₁, e, m₂, rfl, hnone, he, hrest⟩ := hcons
  have hm : heardBy caller m₁ = [] := List.filterMap_eq_nil_iff.mpr hnone
  refine ⟨l₁ ++ m₁, m₂, ?_, ?_, hrest⟩
  · cases e with
    | enter p => cases he
    | answer i q' a' =>
        dsimp only at he
        split at he
        · rename_i hi
          cases he
          simp [hi]
        · cases he
  · rw [heardBy_append, hm, List.append_nil]
    exact hbefore

/-- Two answers of a run are one, or one comes before the other. -/
theorem append_cons_cases {γ : Type} {l₁ l₂ m₁ m₂ : List γ} {a b : γ}
    (h : l₁ ++ a :: m₁ = l₂ ++ b :: m₂) :
    (l₁ = l₂ ∧ a = b ∧ m₁ = m₂) ∨ (∃ l, m₁ = l ++ b :: m₂) ∨ ∃ l, m₂ = l ++ a :: m₁ := by
  rcases List.append_eq_append_iff.mp h with ⟨l, hl, hm⟩ | ⟨l, hl, hm⟩
  · cases l with
    | nil => simp_all
    | cons c l =>
        cases hm
        exact .inr (.inl ⟨l, rfl⟩)
  · cases l with
    | nil => simp_all
    | cons c l =>
        cases hm
        exact .inr (.inr ⟨l, rfl⟩)

namespace Pool

variable {May : Asking A ρ → Prop} {Gives : σ → (q : Q) → A q → σ → Prop}
  {s t u : Pool σ A ρ} {es : List (Turn A ρ)}

/-- A caller that has not entered has heard nothing. -/
theorem heardBy_eq_nil (h : Run (Step May Gives) s es t) {i : Nat}
    (hi : t.callers.length ≤ i) : heardBy i es = [] := by
  induction h with
  | nil => rfl
  | snoc _ hstep ih =>
      rw [heardBy_append]
      cases hstep with
      | enter =>
          rw [List.length_append] at hi
          rw [ih (by omega)]
          rfl
      | answer turn gives =>
          rename_i caller q next a u
          rw [List.length_set] at hi
          have hlt := (List.getElem?_eq_some_iff.mp turn).1
          have hne : ¬ caller = i := by omega
          rw [ih hi]
          simp [heardBy, hne]

variable {C : List (Answered A) → Q → Prop} {R : List (Answered A) → ρ → Prop}

/-- **Callers by themselves.** What the callers that may enter keep, every caller keeps. -/
theorem keeps (hmay : ∀ p, May p → p.Keeps C R []) (h : Run (Step May Gives) s es t)
    (hs : s.callers = []) {i : Nat} {p : Asking A ρ} (hp : t.callers[i]? = some p) :
    p.Keeps C R (heardBy i es) := by
  induction h generalizing p with
  | nil =>
      rw [hs] at hp
      cases hp
  | snoc hrun hstep ih =>
      rw [heardBy_append]
      cases hstep with
      | enter may =>
          rename_i u q
          have hrest : heardBy i [Turn.enter (A := A) q] = [] := rfl
          rw [hrest, List.append_nil]
          by_cases hi : i < u.callers.length
          · rw [List.getElem?_append_left hi] at hp
            exact ih hp
          · have hi := Nat.le_of_not_lt hi
            rw [List.getElem?_append_right hi] at hp
            rw [heardBy_eq_nil hrun hi]
            rw [List.mem_singleton.mp (List.mem_of_getElem? hp)]
            exact hmay _ may
      | answer turn gives =>
          rename_i u caller q next a t
          rw [List.getElem?_set] at hp
          split at hp
          · rename_i hi
            subst hi
            split at hp
            · cases hp
              have := (ih turn).2 a
              simpa [heardBy] using this
            · cases hp
          · rename_i hi
            simpa [heardBy, hi] using ih hp

/-- What is asked in a run is allowed after the answers its caller has had. -/
theorem allowed (hmay : ∀ p, May p → p.Keeps C R []) {es' : List (Turn A ρ)} {i : Nat}
    {q : Q} {a : A q} (h : Run (Step May Gives) s (es ++ .answer i q a :: es') t)
    (hs : s.callers = []) : C (heardBy i es) q := by
  obtain ⟨u, v, hu, hstep, -⟩ := h.split_at
  cases hstep with
  | answer turn => exact (keeps hmay hu hs turn).1

end Pool

end YoinkCore.Lib
