import YoinkCore.Lib.Text

/-!
# Byte strings

Integers as bytes of a fixed number, and a list of byte strings as one: each behind its
length, so that the parts can be told apart.
-/

namespace YoinkCore.Lib.Bytes

/-- The lowest `k` bytes of a number, the most significant first. -/
def beBytes : Nat → Nat → List UInt8
  | 0, _ => []
  | k + 1, n => beBytes k (n / 256) ++ [UInt8.ofNat (n % 256)]

/-- A signed integer of `k` bytes, as `to_be_bytes`. -/
def signedBytes (k : Nat) (x : Int) : List UInt8 := beBytes k (x % 256 ^ k).toNat

/-- Byte strings one after the other, each behind its length. -/
def framed : List (List UInt8) → List UInt8
  | [] => []
  | part :: parts => beBytes 8 part.length ++ part ++ framed parts

/-- `str::as_bytes` -/
def ofText (s : String) : List UInt8 := s.toUTF8.data.toList

/-- `String::from_utf8` -/
def text (bytes : List UInt8) : Option String := String.fromUTF8? ⟨bytes.toArray⟩

theorem text_ofText (s : String) : text (ofText s) = some s := by
  unfold text ofText String.fromUTF8?
  rw [dif_pos (by simpa using s.isValidUTF8)]
  rfl

theorem beBytes_length (k n : Nat) : (beBytes k n).length = k := by
  induction k generalizing n with
  | zero => rfl
  | succ k ih => simp [beBytes, ih]

theorem beBytes_inj {k m n : Nat} (h : beBytes k m = beBytes k n) :
    m % 256 ^ k = n % 256 ^ k := by
  induction k generalizing m n with
  | zero => simp [Nat.mod_one]
  | succ k ih =>
      obtain ⟨hhi, hlo⟩ := List.append_inj' h rfl
      have hhi := ih hhi
      have hlo : m % 256 % 256 = n % 256 % 256 := by
        simpa using congrArg UInt8.toNat (List.singleton_inj.mp hlo)
      rw [Nat.pow_succ', Nat.mod_mul, Nat.mod_mul, hhi]
      omega

theorem signedBytes_inj {k : Nat} {x y : Int} (h : signedBytes k x = signedBytes k y) :
    x % 256 ^ k = y % 256 ^ k := by
  have hpos : (0 : Int) < 256 ^ k := by positivity
  have hlt : ∀ z : Int, (z % 256 ^ k).toNat < 256 ^ k := fun z => by
    have := Int.emod_lt_of_pos z hpos
    have hn := Int.emod_nonneg z hpos.ne'
    zify
    rwa [Int.toNat_of_nonneg hn]
  have he := beBytes_inj h
  rw [Nat.mod_eq_of_lt (hlt x), Nat.mod_eq_of_lt (hlt y)] at he
  have hx := Int.emod_nonneg x hpos.ne'
  have hy := Int.emod_nonneg y hpos.ne'
  omega

/-- Frames can be told apart, as long as their lengths fit. -/
theorem framed_inj : ∀ {ps qs : List (List UInt8)}, ps.length = qs.length →
    framed ps = framed qs → (framed ps).length < 256 ^ 8 → ps = qs := by
  intro ps
  induction ps with
  | nil =>
      intro qs hl _ _
      exact (List.eq_nil_of_length_eq_zero hl.symm).symm
  | cons p ps ih =>
      intro qs hl h hlen
      cases qs with
      | nil => cases hl
      | cons q qs =>
          have hq : (framed (q :: qs)).length < 256 ^ 8 := h ▸ hlen
          simp only [framed, List.length_append, beBytes_length] at hlen hq
          simp only [framed, List.append_assoc] at h
          obtain ⟨hb, h⟩ := List.append_inj h (by rw [beBytes_length, beBytes_length])
          have hpq := beBytes_inj hb
          rw [Nat.mod_eq_of_lt (by omega), Nat.mod_eq_of_lt (by omega)] at hpq
          obtain ⟨rfl, hrest⟩ := List.append_inj h hpq
          rw [ih (Nat.succ.inj hl) hrest (by omega)]

theorem toUTF8_inj {s t : String} (h : s.toUTF8.data.toList = t.toUTF8.data.toList) :
    s = t :=
  String.toByteArray_inj.mp (ByteArray.ext (Array.toList_inj.mp h))

theorem toUTF8_length (s : String) : s.toUTF8.data.toList.length = Text.byteLen s.toList := by
  show s.toByteArray.size = _
  rw [← String.utf8Encode_toList, List.utf8Encode, List.size_toByteArray, List.length_flatMap,
    Text.byteLen]
  congr 1
  exact List.map_congr_left fun c _ => String.length_utf8EncodeChar c

/-- A character takes at most four bytes. -/
theorem byteLen_le (t : Text.Str) : Text.byteLen t ≤ 4 * t.length := by
  induction t with
  | nil => simp [Text.byteLen]
  | cons c t ih =>
      have := c.utf8Size_le_four
      simp only [Text.byteLen, List.map_cons, List.sum_cons, List.length_cons] at ih ⊢
      omega

end YoinkCore.Lib.Bytes
