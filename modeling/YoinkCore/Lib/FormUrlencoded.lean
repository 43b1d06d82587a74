import YoinkCore.Lib.Written

/-!
# Form encoding

Names and values of a form as one text: letters, digits and four marks stand for themselves, a
space is a plus sign, and any other byte is written in hexadecimal digits.
-/

namespace YoinkCore.Lib.FormUrlencoded

open Text (Str)

/-- The marks that stand for themselves. -/
def mark (c : Char) : Bool := ['*', '-', '.', '_'].contains c

def hexDigit (n : Nat) : Char := if n < 10 then Char.ofNat (48 + n) else Char.ofNat (55 + n)

def encodeByte (b : UInt8) : Str :=
  let c := Char.ofNat b.toNat
  if b < 128 && (Text.isAlphanumeric c || mark c) then [c]
  else if c = ' ' then ['+']
  else ['%', hexDigit (b.toNat / 16), hexDigit (b.toNat % 16)]

def encodeChar (c : Char) : Str := (String.utf8EncodeChar c).flatMap encodeByte

def encode (t : Str) : Str := t.flatMap encodeChar

def encodePair (pair : Str × Str) : Str := encode pair.1 ++ '=' :: encode pair.2

/-- `form_urlencoded::Serializer` -/
def encodePairs (pairs : List (Str × Str)) : Str := ['&'].intercalate (pairs.map encodePair)

/-! ## What a text ends in -/

theorem encode_append (s t : Str) : encode (s ++ t) = encode s ++ encode t := List.flatMap_append

theorem encode_dots (n : Nat) : encode (List.replicate n '.') = List.replicate n '.' := by
  induction n with
  | zero => rfl
  | succ n ih =>
      rw [List.replicate_succ, encode, List.flatMap_cons]
      exact congrArg _ ih

/-- Letters, digits, the marks and the plus sign. -/
def plain (c : Char) : Bool := Text.isAlphanumeric c || mark c || c = '+'

/-- What stands for a byte ends in a plain character, and in a dot for a dot only. -/
theorem last_encodeByte : ∀ n < 256, ((encodeByte (UInt8.ofNat n)).getLast?.any fun c =>
    plain c && (c != '.' || n == 46)) = true := by
  decide +kernel

/-- The last byte of a character is that of the character, or is not ASCII. -/
theorem last_utf8 (c : Char) : ∃ n < 256, (String.utf8EncodeChar c).getLast? =
    some (UInt8.ofNat n) ∧ (n = c.toNat ∨ 128 ≤ n) := by
  have hv : c.val.toNat = c.toNat := rfl
  unfold String.utf8EncodeChar
  dsimp only
  split
  · exact ⟨c.toNat, by omega, rfl, .inl rfl⟩
  · split
    · exact ⟨c.val.toNat % 64 + 128, by omega, rfl, .inr (by omega)⟩
    · split
      · exact ⟨c.val.toNat % 64 + 128, by omega, rfl, .inr (by omega)⟩
      · exact ⟨c.val.toNat % 64 + 128, by omega, rfl, .inr (by omega)⟩

theorem last_encodeChar (c : Char) : ∃ d, (encodeChar c).getLast? = some d ∧ plain d = true ∧
    (d = '.' → c = '.') := by
  obtain ⟨n, hn, hlast, hcase⟩ := last_utf8 c
  obtain ⟨front, hbytes⟩ := List.getLast?_eq_some_iff.mp hlast
  have hbyte := last_encodeByte n hn
  obtain ⟨d, hd, hplain⟩ := (Option.any_eq_true _ _).mp hbyte
  rw [Bool.and_eq_true] at hplain
  refine ⟨d, ?_, hplain.1, ?_⟩
  · rw [encodeChar, hbytes, List.flatMap_append, List.flatMap_singleton, List.getLast?_append, hd]
    rfl
  · rintro rfl
    have h46 : n = 46 := by simpa using hplain.2
    rcases hcase with hc | hc
    · exact Char.toNat_inj.mp (hc ▸ h46)
    · omega

theorem last_encode {t : Str} {c : Char} (h : t.getLast? = some c) :
    ∃ d, (encode t).getLast? = some d ∧ plain d = true ∧ (d = '.' → c = '.') := by
  obtain ⟨front, rfl⟩ := List.getLast?_eq_some_iff.mp h
  obtain ⟨d, hd, hrest⟩ := last_encodeChar c
  refine ⟨d, ?_, hrest⟩
  rw [encode, List.flatMap_append, List.flatMap_singleton, List.getLast?_append, hd]
  rfl

/-- A pair ends in a dot if its value does. -/
theorem last_encodePair {k v : Str} (h : v.getLast? ≠ some '.') :
    ∃ d, (encodePair (k, v)).getLast? = some d ∧ (plain d = true ∨ d = '=') ∧ d ≠ '.' := by
  rw [encodePair, List.getLast?_append]
  cases hv : v.getLast? with
  | none =>
      rw [List.getLast?_eq_none_iff.mp hv]
      exact ⟨'=', rfl, .inr rfl, by decide⟩
  | some c =>
      obtain ⟨d, hd, hplain, hdot⟩ := last_encode hv
      refine ⟨d, ?_, .inl hplain, ?_⟩
      · rw [List.getLast?_cons, hd]
        rfl
      · rintro rfl
        exact h (hv.trans (congrArg some (hdot rfl)))

theorem encodePair_append (k v : Str) (n : Nat) :
    encodePair (k, v ++ List.replicate n '.') = encodePair (k, v) ++ List.replicate n '.' := by
  rw [encodePair, encodePair, encode_append, encode_dots, List.append_assoc, List.cons_append]

/-- The last pair stands behind what the others are written as. -/
theorem encodePairs_concat (front : List (Str × Str)) :
    ∃ text, ∀ pair, encodePairs (front ++ [pair]) = text ++ encodePair pair := by
  induction front with
  | nil => exact ⟨[], fun pair => List.intercalate_singleton⟩
  | cons first front ih =>
      obtain ⟨text, htext⟩ := ih
      refine ⟨encodePair first ++ ['&'] ++ text, fun pair => ?_⟩
      have hne : front ++ [pair] ≠ [] := by simp
      obtain ⟨second, rest, hsecond⟩ := List.exists_cons_of_ne_nil hne
      have hrest := htext pair
      rw [hsecond] at hrest
      rw [List.cons_append, hsecond, encodePairs, List.map_cons, List.map_cons,
        List.intercalate_cons_cons, ← List.map_cons, ← encodePairs, hrest, ← List.append_assoc]

end YoinkCore.Lib.FormUrlencoded
