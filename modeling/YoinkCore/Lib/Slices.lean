import YoinkCore.Lib.Written

/-!
# Slices by byte positions

Positions in a text count the bytes of its UTF-8. A slice begins and ends at characters: one
that would begin or end inside of a character, or end before it begins, is no slice.
-/

namespace YoinkCore.Lib.Text

/-- The text before a byte position, and from it on. -/
def splitBytes : Str → Nat → Option (Str × Str)
  | t, 0 => some ([], t)
  | [], _ + 1 => none
  | c :: t, n + 1 =>
      if c.utf8Size ≤ n + 1 then
        (splitBytes t (n + 1 - c.utf8Size)).map fun (before, after) => (c :: before, after)
      else none

/-- The slice between two byte positions. -/
def slice (t : Str) (start stop : Nat) : Option Str :=
  if start ≤ stop then
    (splitBytes t start).bind fun (_, after) => (splitBytes after (stop - start)).map Prod.fst
  else none

/-- The slice from a byte position on. -/
def sliceFrom (t : Str) (start : Nat) : Option Str := (splitBytes t start).map Prod.snd

/-- `str::find`: the byte position of the first character that passes a test. -/
def byteFind (p : Char → Bool) : Str → Option Nat
  | [] => none
  | c :: t => if p c then some 0 else (byteFind p t).map (c.utf8Size + ·)

/-- `str::rfind`: the byte position of the last character that passes a test. -/
def byteRfind (p : Char → Bool) : Str → Option Nat
  | [] => none
  | c :: t =>
      match byteRfind p t with
      | some n => some (c.utf8Size + n)
      | none => if p c then some 0 else none

/-! ## Splitting -/

theorem splitBytes_zero (t : Str) : splitBytes t 0 = some ([], t) := by
  cases t <;> rfl

theorem splitBytes_cons {c : Char} {n : Nat} (h : c.utf8Size ≤ n) (t : Str) :
    splitBytes (c :: t) n =
      (splitBytes t (n - c.utf8Size)).map fun (before, after) => (c :: before, after) := by
  cases n with
  | zero => exact absurd h (Nat.not_le.mpr c.utf8Size_pos)
  | succ n => exact if_pos h

/-- A text is split at a character. -/
theorem splitBytes_append (a b : Str) : splitBytes (a ++ b) (byteLen a) = some (a, b) := by
  induction a with
  | nil => exact splitBytes_zero b
  | cons c a ih =>
      rw [List.cons_append, byteLen_cons, splitBytes_cons (Nat.le_add_right _ _),
        Nat.add_sub_cancel_left, ih]
      rfl

theorem slice_append (a b c : Str) :
    slice (a ++ b ++ c) (byteLen a) (byteLen a + byteLen b) = some b := by
  rw [slice, if_pos (Nat.le_add_right _ _), List.append_assoc, splitBytes_append,
    Nat.add_sub_cancel_left]
  show (splitBytes (b ++ c) (byteLen b)).map Prod.fst = some b
  rw [splitBytes_append]
  rfl

theorem slice_of_lt {start stop : Nat} (h : stop < start) (t : Str) : slice t start stop = none :=
  if_neg (Nat.not_le.mpr h)

theorem sliceFrom_append (a b : Str) : sliceFrom (a ++ b) (byteLen a) = some b := by
  rw [sliceFrom, splitBytes_append]
  rfl

/-! ## Characters of one byte -/

section

variable {c : Char} (hc : c.utf8Size = 1)

include hc

/-- Behind a character. -/
theorem slice_behind (a b : Str) : slice (c :: (a ++ b)) 1 (1 + byteLen a) = some a := by
  have h := slice_append [c] a b
  rwa [byteLen_cons, hc] at h

/-- Up to a character and with it. -/
theorem slice_through (a b : Str) : slice (a ++ c :: b) 0 (byteLen a + 1) = some (a ++ [c]) := by
  have h := slice_append [] (a ++ [c]) b
  rw [byteLen_append, byteLen_cons, hc, List.nil_append, List.append_assoc] at h
  have hzero : byteLen [] + (byteLen a + (1 + byteLen [])) = byteLen a + 1 := Nat.zero_add _
  rwa [hzero] at h

theorem sliceFrom_behind (a b : Str) : sliceFrom (a ++ c :: b) (byteLen a + 1) = some b := by
  have h := sliceFrom_append (a ++ [c]) b
  rwa [byteLen_append, byteLen_cons, hc, List.append_assoc] at h

end

/-! ## Searching -/

variable {p : Char → Bool}

/-- No character passes the test, when the test is run on all of them. -/
theorem none_of_all {t : Str} (h : (t.all fun d => !p d) = true) : ∀ d ∈ t, p d = false :=
  fun d hd => by simpa using List.all_eq_true.mp h d hd

theorem byteFind_append {a : Str} (ha : ∀ d ∈ a, p d = false) {c : Char} (hc : p c = true)
    (b : Str) :
    byteFind p (a ++ c :: b) = some (byteLen a) := by
  induction a with
  | nil => exact if_pos hc
  | cons d a ih =>
      have hd : ¬ p d = true := by
        rw [ha d List.mem_cons_self]
        exact Bool.false_ne_true
      have hrest := ih fun e he => ha e (List.mem_cons_of_mem _ he)
      have heq : byteFind p (d :: (a ++ c :: b)) =
          (byteFind p (a ++ c :: b)).map (d.utf8Size + ·) :=
        if_neg hd
      rw [List.cons_append, heq, hrest, byteLen_cons]
      rfl

theorem byteFind_of_forall {t : Str} (h : ∀ d ∈ t, p d = false) : byteFind p t = none := by
  induction t with
  | nil => rfl
  | cons d t ih =>
      have hd : ¬ p d = true := by
        rw [h d List.mem_cons_self]
        exact Bool.false_ne_true
      have heq : byteFind p (d :: t) = (byteFind p t).map (d.utf8Size + ·) := if_neg hd
      rw [heq, ih fun e he => h e (List.mem_cons_of_mem _ he)]
      rfl

/-- A text has no character that passes the test, or a first one. -/
theorem first_cases (p : Char → Bool) (t : Str) :
    (∀ d ∈ t, p d = false) ∨ (∃ a c b, t = a ++ c :: b ∧ (∀ d ∈ a, p d = false) ∧ p c = true) := by
  induction t with
  | nil => exact .inl fun _ h => nomatch h
  | cons d t ih =>
      by_cases hd : p d = true
      · exact .inr ⟨[], d, t, rfl, fun e he => absurd he List.not_mem_nil, hd⟩
      · have hd : p d = false := Bool.eq_false_iff.mpr hd
        rcases ih with h | ⟨a, c, b, rfl, ha, hc⟩
        · exact .inl (List.forall_mem_cons.mpr ⟨hd, h⟩)
        · exact .inr ⟨d :: a, c, b, rfl, List.forall_mem_cons.mpr ⟨hd, ha⟩, hc⟩

theorem byteFind_eq_some {t : Str} {n : Nat} (h : byteFind p t = some n) :
    ∃ a c b, t = a ++ c :: b ∧ (∀ d ∈ a, p d = false) ∧ p c = true ∧ n = byteLen a := by
  rcases first_cases p t with hnone | ⟨a, c, b, rfl, ha, hc⟩
  · rw [byteFind_of_forall hnone] at h
    cases h
  · rw [byteFind_append ha hc] at h
    exact ⟨a, c, b, rfl, ha, hc, (Option.some.inj h).symm⟩

theorem byteRfind_of_forall {t : Str} (h : ∀ d ∈ t, p d = false) : byteRfind p t = none := by
  induction t with
  | nil => rfl
  | cons d t ih =>
      have hd : ¬ p d = true := by
        rw [h d List.mem_cons_self]
        exact Bool.false_ne_true
      rw [byteRfind, ih fun e he => h e (List.mem_cons_of_mem _ he)]
      exact if_neg hd

theorem byteRfind_append (a : Str) {c : Char} (hc : p c = true) {b : Str}
    (hb : ∀ d ∈ b, p d = false) : byteRfind p (a ++ c :: b) = some (byteLen a) := by
  induction a with
  | nil =>
      rw [List.nil_append, byteRfind, byteRfind_of_forall hb]
      exact if_pos hc
  | cons d a ih => rw [List.cons_append, byteRfind, ih, byteLen_cons]

/-- A text has no character that passes the test, or a last one. -/
theorem last_cases (p : Char → Bool) (t : Str) :
    (∀ d ∈ t, p d = false) ∨ ∃ a c b, t = a ++ c :: b ∧ p c = true ∧ ∀ d ∈ b, p d = false := by
  induction t with
  | nil => exact .inl fun _ h => nomatch h
  | cons d t ih =>
      rcases ih with h | ⟨a, c, b, rfl, hc, hb⟩
      · by_cases hd : p d = true
        · exact .inr ⟨[], d, t, rfl, hd, h⟩
        · exact .inl (List.forall_mem_cons.mpr ⟨Bool.eq_false_iff.mpr hd, h⟩)
      · exact .inr ⟨d :: a, c, b, rfl, hc, hb⟩

end YoinkCore.Lib.Text
