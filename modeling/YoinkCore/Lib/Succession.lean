import Mathlib

/-!
# Succession

A slot holds one record at a time. A turn changes the record, or puts a new one in its
place. Once the record of a slot has settled, turns either leave it as it is or bring a
record that comes later; a later record never gives way to the settled one.
-/

namespace YoinkCore.Lib

variable {α : Type}

/-- One turn of a slot: what it held before, and what it holds after. -/
inductive SlotTurn (fresh : α → Prop) (after change : α → α → Prop) : Option α → Option α → Prop
  | same (x : Option α) : SlotTurn fresh after change x x
  | begun {x : Option α} {a : α} (new : fresh a) (later : ∀ old, x = some old → after old a) :
      SlotTurn fresh after change x (some a)
  | changed {a b : α} (h : change a b) : SlotTurn fresh after change (some a) (some b)

/-- The slot holds the record that settled, or one that came later. -/
def Settled (settled past : α → Prop) (x : Option α) : Prop :=
  ∃ a, x = some a ∧ (settled a ∨ past a)

/-- **Succession.** What every change and every new record keeps, a turn keeps. -/
theorem Settled.turn {fresh settled past : α → Prop} {after change : α → α → Prop}
    {x y : Option α} (h : Settled settled past x) (t : SlotTurn fresh after change x y)
    (hsettled : ∀ a b, settled a → change a b → settled b)
    (hpast : ∀ a b, past a → change a b → past b)
    (hbegun : ∀ a b, settled a ∨ past a → after a b → fresh b → past b) :
    Settled settled past y := by
  obtain ⟨a, rfl, ha⟩ := h
  cases t with
  | same => exact ⟨a, rfl, ha⟩
  | begun new later => exact ⟨_, rfl, .inr (hbegun a _ ha (later a rfl) new)⟩
  | changed h =>
      rcases ha with ha | ha
      · exact ⟨_, rfl, .inl (hsettled a _ ha h)⟩
      · exact ⟨_, rfl, .inr (hpast a _ ha h)⟩

/-! ## Names -/

section

variable {κ σ ρ : Type} {key : ρ → κ} {place : ρ → σ}

/-- Rows with one name are in one place. -/
def Apart (key : ρ → κ) (place : ρ → σ) (rows : List ρ) : Prop :=
  ∀ a ∈ rows, ∀ b ∈ rows, key a = key b → place a = place b

/-- Where the rows of a step come from: from a row that was there, or they are new, and
then all in one place. -/
def Comes (key : ρ → κ) (place : ρ → σ) (old : κ → Prop) (rows rows' : List ρ) : Prop :=
  ∀ r ∈ rows', (∃ r' ∈ rows, key r' = key r ∧ place r' = place r) ∨
    ¬ old (key r) ∧ ∀ r' ∈ rows', ¬ old (key r') → place r' = place r

/-- A step that draws new names gives none of them to two places. -/
theorem Apart.comes {old : κ → Prop} {rows rows' : List ρ} (h : Apart key place rows)
    (hold : ∀ r ∈ rows, old (key r)) (hcomes : Comes key place old rows rows') :
    Apart key place rows' := by
  intro a ha b hb hab
  rcases hcomes a ha with ⟨a', ha', hka, hpa⟩ | ⟨hnew, hsame⟩
  · rcases hcomes b hb with ⟨b', hb', hkb, hpb⟩ | ⟨hnew, -⟩
    · rw [← hpa, ← hpb]
      exact h a' ha' b' hb' (hka.trans (hab.trans hkb.symm))
    · exact absurd (hab ▸ hka ▸ hold a' ha') hnew
  · exact (hsame b hb (hab ▸ hnew)).symm

/-- All rows with a name are in one place. -/
def Housed (key : ρ → κ) (place : ρ → σ) (k : κ) (p : σ) (rows : List ρ) : Prop :=
  ∀ r ∈ rows, key r = k → place r = p

/-- A name that was drawn keeps its place. -/
theorem Housed.comes {old : κ → Prop} {rows rows' : List ρ} {k : κ} {p : σ}
    (h : Housed key place k p rows) (hk : old k) (hcomes : Comes key place old rows rows') :
    Housed key place k p rows' := by
  intro r hr hrk
  rcases hcomes r hr with ⟨r', hr', hkey, hplace⟩ | ⟨hnew, -⟩
  · exact hplace ▸ h r' hr' (hkey.trans hrk)
  · exact absurd (hrk ▸ hk) hnew

end

end YoinkCore.Lib
