import YoinkCore.Lib.Written

/-!
# Numerals

The digits of a number: those in front count as many powers of ten more, and all of them are
zeros when the number is zero.
-/

namespace YoinkCore.Lib.Text

theorem digits_eq_some {t : Str} {n : Nat} :
    digits t = some n ↔ (t ≠ [] ∧ t.all isDigit = true) ∧
      t.foldl (fun n c => 10 * n + (c.toNat - '0'.toNat)) 0 = n := by
  unfold digits
  split
  · rename_i h
    exact ⟨fun hn => ⟨h, Option.some.inj hn⟩, fun hn => congrArg some hn.2⟩
  · rename_i h
    exact iff_of_false nofun fun hd => h hd.1

/-- The digits behind others count as many powers of ten less. -/
theorem foldl_digits (t : Str) (a : Nat) :
    t.foldl (fun n c => 10 * n + (c.toNat - '0'.toNat)) a =
      a * 10 ^ t.length + t.foldl (fun n c => 10 * n + (c.toNat - '0'.toNat)) 0 := by
  induction t generalizing a with
  | nil => simp
  | cons c t ih =>
      rw [List.foldl_cons, List.foldl_cons, ih, ih (10 * 0 + _), List.length_cons, Nat.pow_succ]
      ring

theorem digits_append {s t : Str} {n m : Nat} (hs : digits s = some n) (ht : digits t = some m) :
    digits (s ++ t) = some (n * 10 ^ t.length + m) := by
  obtain ⟨⟨hne, hall⟩, rfl⟩ := digits_eq_some.mp hs
  obtain ⟨⟨-, hall'⟩, rfl⟩ := digits_eq_some.mp ht
  refine digits_eq_some.mpr ⟨⟨by simp [hne], by rw [List.all_append, hall, hall']; rfl⟩, ?_⟩
  rw [List.foldl_append, foldl_digits]

theorem digit_lt {c : Char} (h : isDigit c = true) : c.toNat - '0'.toNat < 10 := by
  rw [isDigit, Bool.and_eq_true, decide_eq_true_eq, decide_eq_true_eq, Char.le_def,
    Char.le_def] at h
  have hle : c.toNat ≤ '9'.toNat := h.2
  have hnine : '9'.toNat = 57 := rfl
  have hzero : '0'.toNat = 48 := rfl
  omega

theorem digit_eq_zero {c : Char} (h : isDigit c = true) : c.toNat - '0'.toNat = 0 ↔ c = '0' := by
  rw [isDigit, Bool.and_eq_true, decide_eq_true_eq, decide_eq_true_eq, Char.le_def,
    Char.le_def] at h
  have hle : '0'.toNat ≤ c.toNat := h.1
  constructor
  · intro hzero
    exact Char.toNat_inj.mp (by omega)
  · rintro rfl
    rfl

theorem digits_lt {t : Str} {n : Nat} (h : digits t = some n) : n < 10 ^ t.length := by
  obtain ⟨⟨-, hall⟩, rfl⟩ := digits_eq_some.mp h
  clear h
  induction t with
  | nil => exact Nat.one_pos
  | cons c t ih =>
      rw [List.all_cons, Bool.and_eq_true] at hall
      have hc := digit_lt hall.1
      have ht := ih hall.2
      rw [List.foldl_cons, foldl_digits, List.length_cons, Nat.pow_succ]
      calc (10 * 0 + (c.toNat - '0'.toNat)) * 10 ^ t.length + _
          < (10 * 0 + (c.toNat - '0'.toNat)) * 10 ^ t.length + 10 ^ t.length :=
            Nat.add_lt_add_left ht _
        _ = (c.toNat - '0'.toNat + 1) * 10 ^ t.length := by ring
        _ ≤ 10 * 10 ^ t.length := Nat.mul_le_mul_right _ hc
        _ = 10 ^ t.length * 10 := Nat.mul_comm _ _

/-- A number is zero when all of its digits are. -/
theorem digits_zero {t : Str} {n : Nat} (h : digits t = some n) :
    t.any (· ≠ '0') = false ↔ n = 0 := by
  obtain ⟨⟨-, hall⟩, rfl⟩ := digits_eq_some.mp h
  clear h
  induction t with
  | nil => exact iff_of_true rfl rfl
  | cons c t ih =>
      rw [List.all_cons, Bool.and_eq_true] at hall
      rw [List.any_cons, Bool.or_eq_false_iff, ih hall.2, List.foldl_cons, foldl_digits t (_ + _),
        Nat.add_eq_zero_iff, Nat.mul_eq_zero, Nat.mul_zero, Nat.zero_add, digit_eq_zero hall.1]
      simp

end YoinkCore.Lib.Text
