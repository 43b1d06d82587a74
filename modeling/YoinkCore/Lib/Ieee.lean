import Mathlib

/-!
# Comparison of floating-point numbers

`==` on `Float` is the IEEE comparison: the two zeros are equal, and a NaN
equals nothing. Away from NaN it is equality of the decoded values once the sign
of zero is forgotten, and the order is total on finite numbers.

A record with such numbers inside is compared field by field. `KeyedBEq` says
that the comparison is equality of some key; it carries over to lists and
options, and makes the comparison an equivalence.
-/

namespace YoinkCore.Lib.Ieee

open Float.Model

/-- Forget the sign of zero. -/
def oneZero : UnpackedFloat → UnpackedFloat
  | .zero _ => .zero .positive
  | u => u

def value (x : Float) : UnpackedFloat := oneZero x.toModel.unpack

variable {x y : Float} {u v : UnpackedFloat}

theorem compare_eq_some_eq (hu : u ≠ .notANumber) :
    u.compare v = some .eq ↔ oneZero u = oneZero v := by
  cases u with
  | notANumber => exact absurd rfl hu
  | infinity s =>
      cases v with
      | infinity t => cases s <;> cases t <;> simp [oneZero, UnpackedFloat.compare] <;> decide
      | notANumber => cases s <;> simp [oneZero, UnpackedFloat.compare]
      | zero t => cases s <;> simp [oneZero, UnpackedFloat.compare]
      | finite t m e h => cases s <;> simp [oneZero, UnpackedFloat.compare]
  | zero s =>
      cases v with
      | infinity t => cases t <;> simp [oneZero, UnpackedFloat.compare]
      | notANumber => simp [oneZero, UnpackedFloat.compare]
      | zero t => simp [oneZero, UnpackedFloat.compare]
      | finite t m e h => cases t <;> simp [oneZero, UnpackedFloat.compare]
  | finite s m e h =>
      cases v with
      | infinity t => cases t <;> simp [oneZero, UnpackedFloat.compare]
      | notANumber => simp [oneZero, UnpackedFloat.compare]
      | zero t => cases s <;> simp [oneZero, UnpackedFloat.compare]
      | finite t m' e' h' =>
          cases s <;> cases t <;>
            simp [oneZero, UnpackedFloat.compare, Ordering.then_eq_eq, and_comm]

theorem not_nan_of_isFinite (h : x.isFinite = true) : x.toModel.unpack ≠ .notANumber := by
  intro he
  have : x.toModel.unpack.isFinite = true := h
  rw [he] at this
  cases this

/-- Finite numbers are equal exactly when they have the same value. -/
theorem beq_iff (hx : x.isFinite = true) : (x == y) = true ↔ value x = value y := by
  have h : (x == y) = (x.toModel.unpack.compare y.toModel.unpack == some .eq) := rfl
  rw [h, beq_iff_eq]
  exact compare_eq_some_eq (not_nan_of_isFinite hx)

/-! ## Order -/

theorem lt_iff : x < y ↔ x.toModel.unpack.compare y.toModel.unpack = some .lt := by
  have h : x < y ↔ x.toModel.unpack.lt y.toModel.unpack = true := by
    show decide (x.toModel < y.toModel) = true ↔ _
    exact decide_eq_true_iff
  rw [h, UnpackedFloat.lt, beq_iff_eq]

theorem le_iff : x ≤ y ↔ (x.toModel.unpack.compare y.toModel.unpack).any Ordering.isLE = true := by
  show decide (x.toModel ≤ y.toModel) = true ↔ _
  exact decide_eq_true_iff

/-- Two finite values are comparable, and the comparison is antisymmetric. -/
theorem compare_finite (hu : u.isFinite = true) (hv : v.isFinite = true) :
    ∃ o, u.compare v = some o ∧ v.compare u = some o.swap := by
  cases u with
  | notANumber => cases hu
  | infinity s => cases hu
  | zero s =>
      cases v with
      | notANumber => cases hv
      | infinity t => cases hv
      | zero t => exact ⟨.eq, rfl, rfl⟩
      | finite t m e h => cases t <;> exact ⟨_, rfl, rfl⟩
  | finite s m e h =>
      cases v with
      | notANumber => cases hv
      | infinity t => cases hv
      | zero t => cases s <;> exact ⟨_, rfl, rfl⟩
      | finite t m' e' h' =>
          have hc : ((compare e e').then (compare m m')).swap =
              (compare e' e).then (compare m' m) := by
            rw [Ordering.swap_then, Int.compare_swap, Nat.compare_swap]
          cases s with
          | positive =>
              cases t with
              | positive => exact ⟨_, rfl, congrArg some hc.symm⟩
              | negative => exact ⟨_, rfl, rfl⟩
          | negative =>
              cases t with
              | positive => exact ⟨_, rfl, rfl⟩
              | negative => exact ⟨_, rfl, congrArg (fun o => some (Ordering.swap o)) hc.symm⟩

/-- Of two finite numbers, one is less or the other at most as large. -/
theorem lt_of_not_le (hx : x.isFinite = true) (hy : y.isFinite = true) (h : ¬ y ≤ x) : x < y := by
  obtain ⟨o, hxy, hyx⟩ := compare_finite hx hy
  rw [lt_iff, hxy]
  rw [le_iff, hyx] at h
  cases o <;> simp_all [Ordering.isLE]

theorem le_of_not_lt (hx : x.isFinite = true) (hy : y.isFinite = true) (h : ¬ y < x) : x ≤ y := by
  obtain ⟨o, hxy, hyx⟩ := compare_finite hx hy
  rw [le_iff, hxy]
  rw [lt_iff, hyx] at h
  cases o <;> simp_all [Ordering.isLE]

end YoinkCore.Lib.Ieee

namespace YoinkCore.Lib

/-! ## Comparison through a key -/

/-- `==` compares a key of its arguments. -/
def KeyedBEq {α κ : Type} [BEq α] (key : α → κ) : Prop :=
  ∀ a b : α, (a == b) = true ↔ key a = key b

namespace KeyedBEq

variable {α κ : Type} [BEq α] {key : α → κ}

theorem list (h : KeyedBEq key) : KeyedBEq (List.map key) := by
  intro as bs
  induction as generalizing bs with
  | nil => cases bs <;> simp
  | cons a as ih =>
      cases bs with
      | nil => simp
      | cons b bs =>
          show (a == b && as == bs) = true ↔ _
          rw [Bool.and_eq_true, h a b, ih bs]
          simp

theorem option (h : KeyedBEq key) : KeyedBEq (Option.map key) := by
  intro a b
  cases a with
  | none => cases b <;> simp
  | some a =>
      cases b with
      | none => simp
      | some b =>
          show (a == b) = true ↔ _
          rw [h a b]
          simp

end KeyedBEq

end YoinkCore.Lib
