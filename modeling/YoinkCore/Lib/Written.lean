import YoinkCore.Lib.Text

/-!
# Written texts

Lines, fields and numerals that are written are read back as they were.
-/

namespace YoinkCore.Lib.Text

/-! ## Lines and fields -/

theorem split_written {sep : Char} {parts : List Str} (h : ∀ p ∈ parts, sep ∉ p) :
    split sep (parts.flatMap (· ++ [sep])) = parts ++ [[]] := by
  induction parts with
  | nil => rfl
  | cons p parts ih =>
      rw [List.flatMap_cons, List.append_assoc, List.singleton_append, split_append_sep,
        split_of_not_mem (h p List.mem_cons_self),
        ih fun q hq => h q (List.mem_cons_of_mem _ hq)]
      rfl

/-- Lines that have neither line feeds nor a carriage return at their end. -/
theorem lines_written (ls : List Str) (h : ∀ l ∈ ls, '\n' ∉ l ∧ l.getLast? ≠ some '\r') :
    lines (ls.flatMap (· ++ ['\n'])) = ls := by
  rw [lines, split_written fun l hl => (h l hl).1]
  induction ls with
  | nil => rfl
  | cons l ls ih =>
      have ih := ih fun l' hl' => h l' (List.mem_cons_of_mem _ hl')
      have hl : stripSuffix '\r' l = l := if_neg (h l List.mem_cons_self).2
      cases ls with
      | nil =>
          show [stripSuffix '\r' l] = [l]
          rw [hl]
      | cons l' ls =>
          show stripSuffix '\r' l :: endedLines (l' :: ls ++ [[]]) = l :: l' :: ls
          rw [hl, ih]

theorem split_joined {sep : Char} {first : Str} {parts : List Str}
    (h : ∀ p ∈ first :: parts, sep ∉ p) :
    split sep ([sep].intercalate (first :: parts)) = first :: parts := by
  induction parts generalizing first with
  | nil =>
      simpa [List.intercalate] using split_of_not_mem (h first List.mem_cons_self)
  | cons p parts ih =>
      rw [List.intercalate_cons_cons, List.append_assoc, List.singleton_append, split_append_sep,
        split_of_not_mem (h first List.mem_cons_self),
        ih fun q hq => h q (List.mem_cons_of_mem _ hq)]
      rfl

theorem mem_joined {sep c : Char} {parts : List Str} (h : c ∈ [sep].intercalate parts) :
    c = sep ∨ ∃ p ∈ parts, c ∈ p := by
  induction parts with
  | nil => cases h
  | cons p parts ih =>
      cases parts with
      | nil =>
          rw [List.intercalate_singleton] at h
          exact .inr ⟨p, List.mem_cons_self, h⟩
      | cons q parts =>
          rw [List.intercalate_cons_cons] at h
          rcases List.mem_append.mp h with h | h
          · rcases List.mem_append.mp h with h | h
            · exact .inr ⟨p, List.mem_cons_self, h⟩
            · exact .inl (List.mem_singleton.mp h)
          · rcases ih h with h | ⟨r, hr, h⟩
            · exact .inl h
            · exact .inr ⟨r, List.mem_cons_of_mem _ hr, h⟩

theorem byteLen_append (s t : Str) : byteLen (s ++ t) = byteLen s + byteLen t := by
  simp [byteLen]

theorem byteLen_cons (c : Char) (t : Str) : byteLen (c :: t) = c.utf8Size + byteLen t := by
  simp [byteLen]

/-! ## Numerals -/

theorem all_digits_repr (n : Nat) : n.repr.toList.all isDigit = true := by
  rw [Nat.toList_repr, List.all_eq_true]
  intro c hc
  have h := Nat.isDigit_of_mem_toDigits (by decide) (by decide) hc
  simpa [isDigit, Char.isDigit, Char.le_def] using h

theorem digits_repr (n : Nat) : digits n.repr.toList = some n := by
  have hall := all_digits_repr n
  rw [Nat.toList_repr] at hall ⊢
  rw [digits, if_pos ⟨Nat.toDigits_ne_nil, hall⟩]
  exact congrArg some Nat.ofDigitChars_ten_toDigits

theorem head_of_digits {t : Str} {n : Nat} (h : digits t = some n) :
    ∃ c rest, t = c :: rest ∧ isDigit c = true := by
  unfold digits at h
  split at h
  · rename_i hd
    cases t with
    | nil => exact absurd rfl hd.1
    | cons c rest => exact ⟨c, rest, rfl, List.all_eq_true.mp hd.2 c List.mem_cons_self⟩
  · cases h

/-- A number but zero is written without a leading zero. -/
theorem head_repr {n : Nat} (h : 0 < n) : n.repr.toList.head? ≠ some '0' := by
  rw [Nat.toList_repr]
  induction n using Nat.strongRecOn with
  | ind n ih =>
      by_cases hn : n < 10
      · rw [Nat.toDigits_of_lt_base hn]
        interval_cases n <;> decide
      · rw [Nat.toDigits_of_base_le (by decide) (by omega),
          List.head?_append_of_ne_nil _ Nat.toDigits_ne_nil]
        exact ih (n / 10) (by omega) (by omega)

theorem byteLen_repr {n k : Nat} (hk : 0 < k) (h : n < 10 ^ k) : byteLen n.repr.toList ≤ k := by
  rw [byteLen_of_alphanumeric]
  · rw [Nat.toList_repr]
    exact (Nat.length_toDigits_le_iff (by decide) hk).mpr h
  · intro c hc
    rw [isAlphanumeric, List.all_eq_true.mp (all_digits_repr n) c hc, Bool.or_true]

/-- A numeral without a sign is read by both kinds of integer types. -/
theorem parse_of_digits {t : Str} {n hi : Nat} (h : digits t = some n) (hn : n ≤ hi) :
    parseUnsigned hi t = some n ∧
      ∀ lo top : Int, lo ≤ 0 → n ≤ top → parseSigned lo top t = some ↑n := by
  obtain ⟨c, rest, rfl, hc⟩ := head_of_digits h
  have hplus : c ≠ '+' := by
    rintro rfl
    cases hc
  have hminus : c ≠ '-' := by
    rintro rfl
    cases hc
  constructor
  · unfold parseUnsigned
    split
    · rename_i he
      exact absurd (List.cons.inj he).1 hplus
    · simpa [h] using hn
  · intro lo top hlo htop
    unfold parseSigned
    split
    · rename_i he
      exact absurd (List.cons.inj he).1 hplus
    · rename_i he
      exact absurd (List.cons.inj he).1 hminus
    · simp [h, htop]
      omega

/-- A signed number is read back as it is written. -/
theorem parseSigned_toString {lo hi n : Int} (hlo : lo ≤ 0) (hn : lo ≤ n) (hhi : n ≤ hi) :
    parseSigned lo hi (toString n).toList = some n := by
  cases n with
  | ofNat m =>
      exact (parse_of_digits (digits_repr m) (Nat.le_refl m)).2 lo hi hlo hhi
  | negSucc m =>
      have htext : (toString (Int.negSucc m)).toList = '-' :: (m + 1).repr.toList := by
        show ("-" ++ (m + 1).repr).toList = _
        rw [String.toList_append]
        rfl
      rw [htext]
      unfold parseSigned
      simp only [digits_repr, Option.map_some]
      exact Option.filter_eq_some_iff.mpr ⟨rfl, by simp [hn, hhi]⟩

end YoinkCore.Lib.Text

namespace YoinkCore.Lib

/-- What was written for each element holds of all if a property of the elements does. -/
theorem forall₂_iff_forall {α β : Type} {W R : α → β → Prop} {P : α → Prop} {as : List α}
    {bs : List β} (h : List.Forall₂ W as bs) (hR : ∀ a b, W a b → (R a b ↔ P a)) :
    List.Forall₂ R as bs ↔ ∀ a ∈ as, P a := by
  induction h with
  | nil => simp
  | cons hab _ ih => rw [List.forall₂_cons, List.forall_mem_cons, hR _ _ hab, ih]

end YoinkCore.Lib
