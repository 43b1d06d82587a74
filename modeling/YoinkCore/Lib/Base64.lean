import YoinkCore.Lib.Text

/-!
# Base 64

The alphabet for URLs, without padding. Three bytes are four characters; what is left over of
the bits is zero.
-/

namespace YoinkCore.Lib.Base64

open Text (Str)

/-- The character of six bits. -/
def digit (n : Nat) : Char :=
  if n < 26 then Char.ofNat (65 + n)
  else if n < 52 then Char.ofNat (71 + n)
  else if n < 62 then Char.ofNat (n - 4)
  else if n = 62 then '-'
  else '_'

def value (c : Char) : Option Nat := (List.range 64).find? fun n => digit n == c

def encode : List UInt8 → Str
  | a :: b :: c :: rest =>
      digit (a.toNat / 4) :: digit (a.toNat % 4 * 16 + b.toNat / 16) ::
        digit (b.toNat % 16 * 4 + c.toNat / 64) :: digit (c.toNat % 64) :: encode rest
  | [a, b] =>
      [digit (a.toNat / 4), digit (a.toNat % 4 * 16 + b.toNat / 16), digit (b.toNat % 16 * 4)]
  | [a] => [digit (a.toNat / 4), digit (a.toNat % 4 * 16)]
  | [] => []

def decode : Str → Option (List UInt8)
  | w :: x :: y :: z :: rest => do
      let w ← value w
      let x ← value x
      let y ← value y
      let z ← value z
      let bytes ← decode rest
      some (UInt8.ofNat (w * 4 + x / 16) :: UInt8.ofNat (x % 16 * 16 + y / 4) ::
        UInt8.ofNat (y % 4 * 64 + z) :: bytes)
  | [w, x, y] => do
      let w ← value w
      let x ← value x
      let y ← value y
      if y % 4 = 0 then
        some [UInt8.ofNat (w * 4 + x / 16), UInt8.ofNat (x % 16 * 16 + y / 4)]
      else none
  | [w, x] => do
      let w ← value w
      let x ← value x
      if x % 16 = 0 then some [UInt8.ofNat (w * 4 + x / 16)] else none
  | [_] => none
  | [] => some []

/-! ## Equations -/

section

variable (a b c : UInt8) (rest : List UInt8)

theorem encode_three :
    encode (a :: b :: c :: rest) =
      digit (a.toNat / 4) :: digit (a.toNat % 4 * 16 + b.toNat / 16) ::
        digit (b.toNat % 16 * 4 + c.toNat / 64) :: digit (c.toNat % 64) :: encode rest := rfl

theorem encode_two :
    encode [a, b] =
      [digit (a.toNat / 4), digit (a.toNat % 4 * 16 + b.toNat / 16),
        digit (b.toNat % 16 * 4)] := rfl

theorem encode_one : encode [a] = [digit (a.toNat / 4), digit (a.toNat % 4 * 16)] := rfl

end

/-- Three bytes at a time, and one or two that are left over. -/
theorem threes {P : List UInt8 → Prop} (nil : P []) (one : ∀ a, P [a]) (two : ∀ a b, P [a, b])
    (three : ∀ a b c rest, P rest → P (a :: b :: c :: rest)) : ∀ bytes, P bytes
  | [] => nil
  | [a] => one a
  | [a, b] => two a b
  | a :: b :: c :: rest => three a b c rest (threes nil one two three rest)

/-! ## What is written -/

theorem value_digit : ∀ n < 64, value (digit n) = some n := by
  decide +kernel

theorem digit_plain : ∀ n < 64, digit n ≠ '.' ∧ digit n ≠ '=' ∧ (digit n).utf8Size = 1 := by
  decide +kernel

/-- What is read back is what was written. -/
theorem decode_encode (bytes : List UInt8) : decode (encode bytes) = some bytes := by
  have hbyte : ∀ a : UInt8, a.toNat < 256 := fun a => a.toNat_lt
  have hof : ∀ (a : UInt8) (n : Nat), n = a.toNat → UInt8.ofNat n = a := by
    rintro a n rfl
    exact UInt8.ofNat_toNat
  induction bytes using threes with
  | nil => rfl
  | one a =>
      have ha := hbyte a
      rw [encode_one, decode, value_digit _ (by omega), value_digit _ (by omega)]
      simp only [Option.bind_eq_bind, Option.bind_some]
      rw [if_pos (by omega), hof a _ (by omega)]
  | two a b =>
      have ha := hbyte a
      have hb := hbyte b
      rw [encode_two, decode, value_digit _ (by omega), value_digit _ (by omega),
        value_digit _ (by omega)]
      simp only [Option.bind_eq_bind, Option.bind_some]
      rw [if_pos (by omega), hof a _ (by omega), hof b _ (by omega)]
  | three a b c rest ih =>
      have ha := hbyte a
      have hb := hbyte b
      have hc := hbyte c
      rw [encode_three, decode, value_digit _ (by omega), value_digit _ (by omega),
        value_digit _ (by omega), value_digit _ (by omega), ih]
      simp only [Option.bind_eq_bind, Option.bind_some]
      rw [hof a _ (by omega), hof b _ (by omega), hof c _ (by omega)]

/-- Only characters of the alphabet are written. -/
theorem of_mem_encode {c : Char} {bytes : List UInt8} (h : c ∈ encode bytes) :
    ∃ n < 64, c = digit n := by
  have hbyte : ∀ a : UInt8, a.toNat < 256 := fun a => a.toNat_lt
  induction bytes using threes with
  | nil => cases h
  | one a =>
      have ha := hbyte a
      rw [encode_one, List.mem_cons, List.mem_singleton] at h
      rcases h with h | h
      · exact ⟨_, by omega, h⟩
      · exact ⟨_, by omega, h⟩
  | two a b =>
      have ha := hbyte a
      have hb := hbyte b
      rw [encode_two, List.mem_cons, List.mem_cons, List.mem_singleton] at h
      rcases h with h | h | h
      · exact ⟨_, by omega, h⟩
      · exact ⟨_, by omega, h⟩
      · exact ⟨_, by omega, h⟩
  | three a b d rest ih =>
      have ha := hbyte a
      have hb := hbyte b
      have hd := hbyte d
      rw [encode_three] at h
      simp only [List.mem_cons] at h
      rcases h with h | h | h | h | h
      · exact ⟨_, by omega, h⟩
      · exact ⟨_, by omega, h⟩
      · exact ⟨_, by omega, h⟩
      · exact ⟨_, by omega, h⟩
      · exact ih h

theorem length_encode (bytes : List UInt8) : (encode bytes).length ≤ 2 * bytes.length := by
  induction bytes using threes with
  | nil | one a => exact Nat.le_refl _
  | two a b => exact Nat.le_succ _
  | three a b c rest ih =>
      rw [encode_three]
      simp only [List.length_cons]
      omega

theorem encode_ne_nil {bytes : List UInt8} (h : bytes ≠ []) : encode bytes ≠ [] := by
  rcases bytes with _ | ⟨a, _ | ⟨b, _ | ⟨c, rest⟩⟩⟩
  · exact absurd rfl h
  · exact List.cons_ne_nil _ _
  · exact List.cons_ne_nil _ _
  · exact List.cons_ne_nil _ _

theorem byteLen_encode (bytes : List UInt8) : Text.byteLen (encode bytes) ≤ 2 * bytes.length := by
  have hone : ∀ t : Str, (∀ c ∈ t, c.utf8Size = 1) → Text.byteLen t = t.length := by
    intro t ht
    induction t with
    | nil => rfl
    | cons c t ih =>
        have hc := ht c List.mem_cons_self
        have hrest := ih fun d hd => ht d (List.mem_cons_of_mem _ hd)
        simp only [Text.byteLen, List.map_cons, List.sum_cons, List.length_cons] at hrest ⊢
        omega
  rw [hone _ fun c hc => ?_]
  · exact length_encode bytes
  · obtain ⟨n, hn, rfl⟩ := of_mem_encode hc
    exact (digit_plain n hn).2.2

end YoinkCore.Lib.Base64
