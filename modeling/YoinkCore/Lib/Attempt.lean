import YoinkCore.Lib.Run

/-!
# Single attempts

An external effect may be attempted once. Its fate is undecided until the attempt is
admitted, under an identity `ι`, or denied for good; evidence `ρ` of an admitted attempt
may be recorded later. The fates are ordered by what is settled. In a system that only
moves up this order an attempt is admitted at most once in every run.
-/

namespace YoinkCore.Lib

/-- What is settled about an external effect. -/
inductive Fate (ι ρ : Type) where
  | undecided
  | attempted (identity : ι) (evidence : Option ρ)
  | denied
deriving DecidableEq

namespace Fate

variable {ι ρ : Type}

/-- The second fate keeps what the first one settled. -/
inductive Below : Fate ι ρ → Fate ι ρ → Prop
  | undecided (f : Fate ι ρ) : Below .undecided f
  | refl (f : Fate ι ρ) : Below f f
  | evidence (i : ι) (r : Option ρ) : Below (.attempted i none) (.attempted i r)

instance : PartialOrder (Fate ι ρ) where
  le := Below
  le_refl := .refl
  le_trans f g h hfg hgh := by
    cases hfg with
    | undecided => exact .undecided h
    | refl => exact hgh
    | evidence i r =>
        cases hgh with
        | refl => exact .evidence i r
        | evidence => exact .evidence i _
  le_antisymm f g hfg hgf := by
    cases hfg with
    | undecided => cases hgf <;> rfl
    | refl => rfl
    | evidence i r => cases hgf <;> rfl

@[simp] theorem undecided_le (f : Fate ι ρ) : .undecided ≤ f := Below.undecided f

/-- An attempt keeps its identity, and its evidence once there is some. -/
theorem attempted_le {i : ι} {r : Option ρ} {f : Fate ι ρ} (h : .attempted i r ≤ f) :
    ∃ r', f = .attempted i r' ∧ (r = none ∨ r' = r) := by
  cases h with
  | refl => exact ⟨r, rfl, .inr rfl⟩
  | evidence => exact ⟨_, rfl, .inl rfl⟩

theorem evidence_le {i : ι} {r : ρ} {f : Fate ι ρ} (h : .attempted i (some r) ≤ f) :
    f = .attempted i (some r) := by
  obtain ⟨r', rfl, hr | rfl⟩ := attempted_le h
  · cases hr
  · rfl

theorem denied_le {f : Fate ι ρ} (h : .denied ≤ f) : f = .denied := by
  cases h
  rfl

theorem le_undecided {f : Fate ι ρ} (h : f ≤ .undecided) : f = .undecided := by
  cases h <;> rfl

end Fate

/-! ## Runs -/

variable {σ ε ι ρ : Type} {step : σ → ε → σ → Prop} {fate : σ → Fate ι ρ}

/-- What is settled stays settled throughout a run. -/
theorem Run.fate_le (mono : ∀ s e t, step s e t → fate s ≤ fate t) {s t : σ}
    {es : List ε} (h : Run step s es t) : fate s ≤ fate t :=
  h.relate (R := fun s t => fate s ≤ fate t) (fun _ => le_rfl)
    fun hst htu => hst.trans (mono _ _ _ htu)

/-- The events that admit an attempt take an undecided effect and attempt it. -/
structure Admits (step : σ → ε → σ → Prop) (fate : σ → Fate ι ρ) (admits : ε → Prop) :
    Prop where
  mono : ∀ s e t, step s e t → fate s ≤ fate t
  admitted : ∀ s e t, step s e t → admits e →
    fate s = .undecided ∧ ∃ i, fate t = .attempted i none

namespace Admits

variable {admits : ε → Prop} {s t : σ} {es es' : List ε} {e : ε}

/-- Once the fate of an effect is settled no attempt is admitted. -/
theorem none_after (A : Admits step fate admits) (h : Run step s es t)
    (hs : fate s ≠ .undecided) : ∀ e ∈ es, ¬ admits e := by
  intro e he ha
  obtain ⟨es₁, es₂, rfl⟩ := List.append_of_mem he
  obtain ⟨u, v, hu, hstep, -⟩ := h.split_at
  have hle := hu.fate_le A.mono
  rw [(A.admitted _ _ _ hstep ha).1] at hle
  exact hs (Fate.le_undecided hle)

end Admits

end YoinkCore.Lib
