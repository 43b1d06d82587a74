import Mathlib

/-!
# Rows that are added

`Added key P n old rows`: the rows are those there were, in their places, and behind them `n` new
ones with a property, none of which has the key of another row. Additions compose, and their
numbers add up.
-/

namespace YoinkCore.Lib

variable {ρ κ : Type} {key : ρ → κ} {P : ρ → Prop}

def Added (key : ρ → κ) (P : ρ → Prop) (n : Nat) (old rows : List ρ) : Prop :=
  ∃ new, rows = old ++ new ∧ new.length = n ∧ (∀ r ∈ new, P r) ∧
    new.Pairwise (fun a b => key a ≠ key b) ∧ ∀ o ∈ old, ∀ r ∈ new, key o ≠ key r

namespace Added

theorem refl (key : ρ → κ) (P : ρ → Prop) (rows : List ρ) : Added key P 0 rows rows :=
  ⟨[], (List.append_nil rows).symm, rfl, fun _ h => (nomatch h), .nil, fun _ _ _ h => (nomatch h)⟩

theorem one {rows : List ρ} {r : ρ} (hP : P r) (hnew : ∀ o ∈ rows, key o ≠ key r) :
    Added key P 1 rows (rows ++ [r]) := by
  refine ⟨[r], rfl, rfl, ?_, List.pairwise_singleton _ r, ?_⟩
  · intro r' hr'
    rwa [List.mem_singleton.mp hr']
  · intro o ho r' hr'
    rw [List.mem_singleton.mp hr']
    exact hnew o ho

theorem trans {m n : Nat} {rows₁ rows₂ rows₃ : List ρ} (h : Added key P m rows₁ rows₂)
    (h' : Added key P n rows₂ rows₃) : Added key P (m + n) rows₁ rows₃ := by
  obtain ⟨new, rfl, rfl, hP, hpair, hnew⟩ := h
  obtain ⟨new', rfl, rfl, hP', hpair', hnew'⟩ := h'
  refine ⟨new ++ new', List.append_assoc _ _ _, List.length_append, ?_, ?_, ?_⟩
  · intro r hr
    exact (List.mem_append.mp hr).elim (hP r) (hP' r)
  · refine List.pairwise_append.mpr ⟨hpair, hpair', fun a ha b hb => ?_⟩
    exact hnew' a (List.mem_append_right _ ha) b hb
  · intro o ho r hr
    rcases List.mem_append.mp hr with hr | hr
    · exact hnew o ho r hr
    · exact hnew' o (List.mem_append_left _ ho) r hr

/-- What was there stays. -/
theorem mem {n : Nat} {old rows : List ρ} (h : Added key P n old rows) {r : ρ} (hr : r ∈ old) :
    r ∈ rows := by
  obtain ⟨new, rfl, -⟩ := h
  exact List.mem_append_left _ hr

end Added

end YoinkCore.Lib
