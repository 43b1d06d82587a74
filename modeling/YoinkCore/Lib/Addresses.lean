import YoinkCore.Lib.HostName
import YoinkCore.Lib.Written

/-!
# Printed addresses

An address that is printed is read back as it was, and what is read as an IPv4 address
in dotted decimal is printed as it was written.
-/

namespace YoinkCore.Lib.HostName

open Text

/-! ## Octets -/

variable {segments : List Nat} {t : Str} {c : Char} {a n : Nat}

theorem octet_decimal (h : n ≤ 255) : octet (decimal n) = some n := by
  have hhead : decimal n = ['0'] ∨ (decimal n).head? ≠ some '0' := by
    rcases Nat.eq_zero_or_pos n with rfl | hn
    · exact .inl rfl
    · exact .inr (head_repr hn)
  rw [octet, if_pos hhead]
  show (digits n.repr.toList).filter _ = _
  rw [digits_repr, Option.filter_some, if_pos (decide_eq_true h)]

theorem dot_not_mem_decimal (n : Nat) : '.' ∉ decimal n := fun h =>
  absurd (List.all_eq_true.mp (all_digits_repr n) _ h) (by decide)

/-- A digit is what its value is printed as. -/
theorem digitChar_of_digit (h : isDigit c = true) :
    c.toNat - '0'.toNat < 10 ∧ Nat.digitChar (c.toNat - '0'.toNat) = c := by
  have h9 : ('9' : Char).val.toNat = 57 := rfl
  have h0 : ('0' : Char).val.toNat = 48 := rfl
  have h0' : ('0' : Char).toNat = 48 := rfl
  have hv : c.toNat = c.val.toNat := rfl
  simp only [isDigit, Bool.and_eq_true, decide_eq_true_eq, Char.le_def,
    UInt32.le_iff_toNat_le] at h
  obtain ⟨n, hn, hlt⟩ : ∃ n, c.toNat = 48 + n ∧ n < 10 := ⟨c.toNat - 48, by omega, by omega⟩
  have hc : c = Char.ofNat (48 + n) := by rw [← hn, Char.ofNat_toNat]
  refine ⟨by omega, ?_⟩
  rw [hc]
  interval_cases n <;> rfl

/-- The value of digits. -/
theorem digits_append {s : Str} (h : digits (s ++ [c]) = some n) :
    isDigit c = true ∧
      (s = [] ∧ n = c.toNat - '0'.toNat ∨
        ∃ m, digits s = some m ∧ n = 10 * m + (c.toNat - '0'.toNat)) := by
  unfold digits at h
  split at h
  swap
  · cases h
  rename_i hd
  obtain rfl := Option.some.inj h
  rw [List.all_append, Bool.and_eq_true] at hd
  refine ⟨by simpa using hd.2.2, ?_⟩
  by_cases hs : s = []
  · subst hs
    exact .inl ⟨rfl, by simp⟩
  · refine .inr ⟨_, if_pos ⟨hs, hd.2.1⟩, ?_⟩
    rw [List.foldl_append]
    rfl

theorem pos_of_digits (h : digits t = some n) (hhead : t.head? ≠ some '0') : 0 < n := by
  induction t using List.reverseRecOn generalizing n with
  | nil => cases h
  | append_singleton s c ih =>
      obtain ⟨hc, ⟨rfl, rfl⟩ | ⟨m, hm, rfl⟩⟩ := digits_append h
      · rcases Nat.eq_zero_or_pos (c.toNat - '0'.toNat) with hz | hp
        · have := (digitChar_of_digit hc).2
          rw [hz] at this
          exact absurd (congrArg some this.symm) hhead
        · exact hp
      · have hs : s ≠ [] := by
          rintro rfl
          cases hm
        rw [List.head?_append_of_ne_nil _ hs] at hhead
        have := ih hm hhead
        omega

/-- Digits without leading zeros are how their value is printed. -/
theorem repr_of_digits (h : digits t = some n) (hhead : t = ['0'] ∨ t.head? ≠ some '0') :
    n.repr.toList = t := by
  rcases hhead with rfl | hhead
  · cases h
    rfl
  rw [Nat.toList_repr]
  induction t using List.reverseRecOn generalizing n with
  | nil => cases h
  | append_singleton s c ih =>
      obtain ⟨hc, ⟨rfl, rfl⟩ | ⟨m, hm, rfl⟩⟩ := digits_append h
      · rw [Nat.toDigits_of_lt_base (digitChar_of_digit hc).1, (digitChar_of_digit hc).2]
        rfl
      · have hs : s ≠ [] := by
          rintro rfl
          cases hm
        rw [List.head?_append_of_ne_nil _ hs] at hhead
        have hlt := (digitChar_of_digit hc).1
        have hpos := pos_of_digits hm hhead
        rw [Nat.toDigits_of_base_le (by decide) (by omega),
          show (10 * m + (c.toNat - '0'.toNat)) / 10 = m by omega,
          show (10 * m + (c.toNat - '0'.toNat)) % 10 = c.toNat - '0'.toNat by omega,
          ih hm hhead, (digitChar_of_digit hc).2]

theorem decimal_of_octet (h : octet t = some n) : decimal n = t := by
  unfold octet at h
  split at h
  · rename_i hhead
    rw [Option.filter_eq_some_iff] at h
    exact repr_of_digits h.1 hhead
  · cases h

/-! ## IPv4 addresses -/

theorem showIpv4_eq (a : Nat) : showIpv4 a =
    ['.'].intercalate [decimal (a / 2 ^ 24 % 256), decimal (a / 2 ^ 16 % 256),
      decimal (a / 2 ^ 8 % 256), decimal (a % 256)] := by
  rw [showIpv4]
  simp

theorem showIpv4_chars (h : c ∈ showIpv4 a) : isDigit c = true ∨ c = '.' := by
  rw [showIpv4_eq] at h
  rcases mem_joined h with h | ⟨p, hp, h⟩
  · exact .inr h
  · have hd : ∀ n, c ∈ decimal n → isDigit c = true := fun n h =>
      List.all_eq_true.mp (all_digits_repr n) _ h
    simp only [List.mem_cons, List.not_mem_nil, or_false] at hp
    rcases hp with rfl | rfl | rfl | rfl <;> exact .inl (hd _ h)

theorem showIpv4_no_colon (a : Nat) : ':' ∉ showIpv4 a := by
  intro h
  rcases showIpv4_chars h with h | h
  · exact absurd h (by decide)
  · cases h

/-- A printed address is read back. -/
theorem parseIpv4_show (h : a < 2 ^ 32) : parseIpv4 (showIpv4 a) = some a := by
  rw [showIpv4_eq, parseIpv4, split_joined, fourOctets, octet_decimal (by omega),
    octet_decimal (by omega), octet_decimal (by omega), octet_decimal (by omega)]
  · show some _ = some a
    rw [Option.some.injEq]
    omega
  · intro p hp
    simp only [List.mem_cons, List.not_mem_nil, or_false] at hp
    rcases hp with rfl | rfl | rfl | rfl <;> exact dot_not_mem_decimal _

/-- The parts between separators make the text. -/
theorem intercalate_split (sep : Char) (t : Str) : [sep].intercalate (split sep t) = t := by
  induction t with
  | nil => rfl
  | cons c t ih =>
      rcases ht : split sep t with _ | ⟨w, ws⟩
      · exact absurd ht (split_ne_nil sep t)
      rw [ht] at ih
      by_cases hc : c = sep
      · rw [split, if_pos hc, ht, List.intercalate_cons_cons, ih, hc]
        rfl
      · rw [split_cons_of_ne hc ht]
        cases ws with
        | nil =>
            rw [List.intercalate_singleton] at ih ⊢
            rw [ih]
        | cons v ws =>
            rw [List.intercalate_cons_cons] at ih ⊢
            rw [← ih]
            rfl

/-- An address in dotted decimal is printed as it was written. -/
theorem showIpv4_of_parse (h : parseIpv4 t = some a) : a < 2 ^ 32 ∧ showIpv4 a = t := by
  unfold parseIpv4 fourOctets at h
  split at h
  swap
  · cases h
  rename_i t₁ t₂ t₃ t₄ hs
  simp only [Option.bind_eq_bind, Option.bind_eq_some_iff] at h
  obtain ⟨n₁, h₁, n₂, h₂, n₃, h₃, n₄, h₄, h⟩ := h
  have hn₁ := (octet_eq_some h₁).1
  have hn₂ := (octet_eq_some h₂).1
  have hn₃ := (octet_eq_some h₃).1
  have hn₄ := (octet_eq_some h₄).1
  obtain rfl : n₁ * 2 ^ 24 + n₂ * 2 ^ 16 + n₃ * 2 ^ 8 + n₄ = a := Option.some.inj h
  refine ⟨by omega, ?_⟩
  rw [← intercalate_split '.' t, hs, ← decimal_of_octet h₁, ← decimal_of_octet h₂,
    ← decimal_of_octet h₃, ← decimal_of_octet h₄, showIpv4_eq,
    show (n₁ * 2 ^ 24 + n₂ * 2 ^ 16 + n₃ * 2 ^ 8 + n₄) / 2 ^ 24 % 256 = n₁ by omega,
    show (n₁ * 2 ^ 24 + n₂ * 2 ^ 16 + n₃ * 2 ^ 8 + n₄) / 2 ^ 16 % 256 = n₂ by omega,
    show (n₁ * 2 ^ 24 + n₂ * 2 ^ 16 + n₃ * 2 ^ 8 + n₄) / 2 ^ 8 % 256 = n₃ by omega,
    show (n₁ * 2 ^ 24 + n₂ * 2 ^ 16 + n₃ * 2 ^ 8 + n₄) % 256 = n₄ by omega]

/-! ## Groups -/

theorem digitChar_hex {d : Nat} (h : d < 16) :
    digitValue (Nat.digitChar d) = d ∧ isHexDigit (Nat.digitChar d) = true := by
  interval_cases d <;> decide

theorem numeral_append {d : Nat} (h : numeral 16 t = some n) (hd : d < 16) :
    numeral 16 (t ++ [Nat.digitChar d]) = some (16 * n + d) := by
  unfold numeral at h ⊢
  split at h
  · rename_i hall
    obtain rfl := Option.some.inj h
    obtain ⟨hv, hx⟩ := digitChar_hex hd
    rw [if_pos (by rw [List.all_append, hall]; simp [hv, hx, hd]), List.foldl_append]
    simp only [List.foldl_cons, List.foldl_nil, hv]
  · cases h

theorem numeral_toDigits (n : Nat) : numeral 16 (Nat.toDigits 16 n) = some n := by
  induction n using Nat.strongRecOn with
  | ind n ih =>
      by_cases hn : n < 16
      · rw [Nat.toDigits_of_lt_base hn]
        have h := numeral_append (t := []) (n := 0) rfl hn
        rwa [Nat.mul_zero, Nat.zero_add] at h
      · rw [Nat.toDigits_of_base_le (by decide) (by omega),
          numeral_append (ih (n / 16) (by omega)) (by omega)]
        rw [Option.some.injEq]
        omega

theorem group_toDigits (h : n < 2 ^ 16) : group (Nat.toDigits 16 n) = some n := by
  have hlen : (Nat.toDigits 16 n).length ≤ 4 :=
    (Nat.length_toDigits_le_iff (by decide) (by decide)).mpr (by omega)
  rw [group, if_pos ⟨Nat.length_toDigits_pos, hlen⟩, numeral_toDigits]

/-- A group has digits only. -/
theorem not_mem_toDigits (hc : isHexDigit c = false) (n : Nat) : c ∉ Nat.toDigits 16 n := by
  intro h
  have hn := numeral_toDigits n
  unfold numeral at hn
  split at hn
  · rename_i hall
    have := List.all_eq_true.mp hall c h
    rw [hc] at this
    cases this
  · cases hn

theorem parseIpv4_of_no_dot (h : '.' ∉ t) : parseIpv4 t = none := by
  rw [parseIpv4, split_of_not_mem h]
  rfl

theorem groups_toDigits (h : ∀ n ∈ segments, n < 2 ^ 16) (tail : Bool) :
    groups tail (segments.map (Nat.toDigits 16)) = some segments := by
  induction segments with
  | nil => rfl
  | cons n segments ih =>
      have hn := group_toDigits (h n List.mem_cons_self)
      have ih := ih fun m hm => h m (List.mem_cons_of_mem _ hm)
      cases segments with
      | nil =>
          have hv : (if tail then parseIpv4 (Nat.toDigits 16 n) else none) = none := by
            rw [parseIpv4_of_no_dot (not_mem_toDigits (by decide) n), ite_self]
          simp [groups, hv, hn]
      | cons m segments =>
          rw [List.map_cons] at ih
          rw [List.map_cons, List.map_cons, groups, hn, ih]
          · rfl
          · exact List.cons_ne_nil _ _

theorem showGroups_cons (n m : Nat) (segments : List Nat) :
    showGroups (n :: m :: segments) =
      Nat.toDigits 16 n ++ ':' :: showGroups (m :: segments) := by
  rw [showGroups, List.map_cons, List.map_cons, List.intercalate_cons_cons]
  rw [List.append_assoc]
  rfl

theorem showGroups_eq_nil : showGroups segments = [] ↔ segments = [] := by
  constructor
  · intro h
    cases segments with
    | nil => rfl
    | cons n segments =>
        cases segments with
        | nil =>
            rw [showGroups, List.map_singleton, List.intercalate_singleton] at h
            exact absurd h Nat.toDigits_ne_nil
        | cons m segments =>
            rw [showGroups_cons] at h
            simp at h
  · rintro rfl
    rfl

theorem pieces_showGroups (segments : List Nat) :
    pieces (showGroups segments) = segments.map (Nat.toDigits 16) := by
  cases segments with
  | nil => rfl
  | cons n segments =>
      rw [pieces, if_neg (mt showGroups_eq_nil.mp (List.cons_ne_nil _ _)), showGroups,
        List.map_cons, split_joined]
      intro p hp
      rw [← List.map_cons (f := Nat.toDigits 16)] at hp
      obtain ⟨m, -, rfl⟩ := List.mem_map.mp hp
      exact not_mem_toDigits (by decide) m

/-! ## IPv6 addresses -/

/-- The pattern does not begin inside a text without colons. -/
theorem splitOnce_colons_append {w : Str} (h : ':' ∉ w) (t : Str) :
    splitOnce "::".toList (w ++ t) =
      (splitOnce "::".toList t).map fun p => (w ++ p.1, p.2) := by
  induction w with
  | nil => simp
  | cons c w ih =>
      rw [List.mem_cons, not_or] at h
      have hp : ¬ "::".toList.isPrefixOf (c :: (w ++ t)) = true := by
        rw [List.isPrefixOf_iff_prefix]
        intro hp
        exact h.1 (List.cons_prefix_cons.mp hp).1
      rw [List.cons_append, splitOnce, if_neg hp, ih h.2, Option.map_map]
      rfl

theorem splitOnce_colons_showGroups (segments : List Nat) (t : Str) :
    splitOnce "::".toList (showGroups segments ++ t) =
      (splitOnce "::".toList t).map fun p => (showGroups segments ++ p.1, p.2) := by
  induction segments with
  | nil =>
      show splitOnce _ t = (splitOnce _ t).map _
      simp [showGroups, List.intercalate]
  | cons n segments ih =>
      have hn := not_mem_toDigits (c := ':') (by decide) n
      cases segments with
      | nil =>
          rw [showGroups, List.map_singleton, List.intercalate_singleton]
          exact splitOnce_colons_append hn t
      | cons m segments =>
          have hp : ¬ "::".toList.isPrefixOf (':' :: (showGroups (m :: segments) ++ t)) = true := by
            rw [List.isPrefixOf_iff_prefix]
            intro hp
            have hp := (List.cons_prefix_cons.mp hp).2
            obtain ⟨d, ds, hd⟩ :=
              List.exists_cons_of_ne_nil (Nat.toDigits_ne_nil (n := m) (b := 16))
            have hc : d ≠ ':' := by
              rintro rfl
              exact not_mem_toDigits (c := ':') (by decide) m (by simp [hd])
            obtain ⟨ts, hts⟩ : ∃ ts, showGroups (m :: segments) = d :: ts := by
              cases segments with
              | nil => exact ⟨ds, by rw [showGroups, List.map_singleton,
                  List.intercalate_singleton, hd]⟩
              | cons k segments => exact ⟨_, by rw [showGroups_cons, hd, List.cons_append]⟩
            rw [hts, List.cons_append] at hp
            exact hc (List.cons_prefix_cons.mp hp).1.symm
          rw [showGroups_cons, List.append_assoc, List.cons_append, splitOnce_colons_append hn,
            splitOnce, if_neg hp, ih, Option.map_map, Option.map_map]
          congr 1
          funext p
          simp

/-- Where the longest run of zeros was found there are zeros. -/
theorem longestZeros_spec (segments : List Nat) :
    (segments.drop (longestZeros segments).1).take (longestZeros segments).2 =
      List.replicate (longestZeros segments).2 0 := by
  refine List.foldlRecOn (motive := fun best : Nat × Nat =>
    (segments.drop best.1).take best.2 = List.replicate best.2 0) _ _ rfl ?_
  intro best hbest start _
  dsimp only
  split
  · rw [← List.prefix_iff_eq_take.mp (List.takeWhile_prefix (fun n => decide (n = 0)))]
    refine List.eq_replicate_iff.mpr ⟨rfl, fun n hn => ?_⟩
    simpa using List.mem_takeWhile_imp hn
  · exact hbest

/-- The segments around the longest run of zeros. -/
theorem around_longestZeros (segments : List Nat) :
    segments.take (longestZeros segments).1 ++ List.replicate (longestZeros segments).2 0 ++
        segments.drop ((longestZeros segments).1 + (longestZeros segments).2) = segments := by
  rw [← longestZeros_spec, List.append_assoc, ← List.drop_drop, List.take_append_drop,
    List.take_append_drop]

theorem parseIpv6_showGroups (hlen : segments.length = 8) (h : ∀ n ∈ segments, n < 2 ^ 16) :
    parseIpv6 (showGroups segments) = some segments := by
  have hs : splitOnce "::".toList (showGroups segments) = none := by
    have h := splitOnce_colons_showGroups segments []
    rwa [List.append_nil] at h
  rw [parseIpv6, hs, pieces_showGroups, groups_toDigits h]
  simp [hlen]

/-- A run of zeros is left out, and put in again. -/
theorem parseIpv6_compressed {before after : List Nat} {length : Nat}
    (hlen : before.length + length + after.length = 8) (hpos : 0 < length)
    (hb : ∀ n ∈ before, n < 2 ^ 16) (ha : ∀ n ∈ after, n < 2 ^ 16) :
    parseIpv6 (showGroups before ++ "::".toList ++ showGroups after) =
      some (before ++ List.replicate length 0 ++ after) := by
  have hs : splitOnce "::".toList ("::".toList ++ showGroups after) =
      some ([], showGroups after) := rfl
  rw [List.append_assoc, parseIpv6, splitOnce_colons_showGroups, hs]
  simp only [Option.map_some, List.append_nil, pieces_showGroups, groups_toDigits hb,
    groups_toDigits ha, Option.bind_eq_bind, Option.bind_some]
  rw [if_pos (by omega), show 8 - (before.length + after.length) = length by omega]
  rfl

theorem parseIpv6_mapped {hi lo : Nat} (hhi : hi < 2 ^ 16) (hlo : lo < 2 ^ 16) :
    parseIpv6 ("::ffff:".toList ++ showIpv4 (hi * 2 ^ 16 + lo)) =
      some [0, 0, 0, 0, 0, 0xFFFF, hi, lo] := by
  have hs : splitOnce "::".toList ("::ffff:".toList ++ showIpv4 (hi * 2 ^ 16 + lo)) =
      some ([], "ffff:".toList ++ showIpv4 (hi * 2 ^ 16 + lo)) := rfl
  have hcolon := showIpv4_no_colon (hi * 2 ^ 16 + lo)
  have hp : pieces ("ffff:".toList ++ showIpv4 (hi * 2 ^ 16 + lo)) =
      ["ffff".toList, showIpv4 (hi * 2 ^ 16 + lo)] := by
    rw [pieces, if_neg (by simp)]
    have := split_append_sep ':' "ffff".toList (showIpv4 (hi * 2 ^ 16 + lo))
    rwa [split_of_not_mem hcolon] at this
  have hgroup : group "ffff".toList = some 0xFFFF := by decide
  have hnil : pieces [] = [] := rfl
  rw [parseIpv6, hs]
  simp only [hp, hnil, groups, hgroup, parseIpv4_show (show hi * 2 ^ 16 + lo < 2 ^ 32 by omega),
    if_true, Option.bind_eq_bind, Option.bind_some]
  rw [show (hi * 2 ^ 16 + lo) / 2 ^ 16 = hi by omega,
    show (hi * 2 ^ 16 + lo) % 2 ^ 16 = lo by omega]
  rfl

/-- A printed address is read back. -/
theorem parseIpv6_show (hlen : segments.length = 8) (h : ∀ n ∈ segments, n < 2 ^ 16) :
    parseIpv6 (showIpv6 segments) = some segments := by
  unfold showIpv6
  split
  · exact parseIpv6_mapped (h _ (by simp)) (h _ (by simp))
  · split
    rename_i start length hz
    have haround := around_longestZeros segments
    rw [hz] at haround
    split
    · rename_i hl
      have hsum := congrArg List.length haround
      rw [List.length_append, List.length_append, List.length_replicate, hlen] at hsum
      rw [parseIpv6_compressed hsum (by omega)
        (fun n hn => h n (List.mem_of_mem_take hn)) (fun n hn => h n (List.mem_of_mem_drop hn))]
      rw [haround]
    · exact parseIpv6_showGroups hlen h

/-! ## Addresses that were read -/

theorem numeral_lt {base : Nat} (h : numeral base t = some n) : n < base ^ t.length := by
  unfold numeral at h
  split at h
  swap
  · cases h
  rename_i hall
  obtain rfl := Option.some.inj h
  clear h
  induction t using List.reverseRecOn with
  | nil => simp
  | append_singleton t c ih =>
      rw [List.all_append, Bool.and_eq_true] at hall
      have ih := ih hall.1
      have hc : digitValue c < base := by
        have := hall.2
        simp only [List.all_cons, List.all_nil, Bool.and_true, Bool.and_eq_true,
          decide_eq_true_eq] at this
        exact this.2
      rw [List.foldl_append, List.length_append, List.length_singleton, Nat.pow_succ]
      show base * _ + digitValue c < _
      calc base * t.foldl (fun n c => base * n + digitValue c) 0 + digitValue c
          < base * t.foldl (fun n c => base * n + digitValue c) 0 + base :=
            Nat.add_lt_add_left hc _
        _ = base * (t.foldl (fun n c => base * n + digitValue c) 0 + 1) := by rw [Nat.mul_succ]
        _ ≤ base * base ^ t.length := Nat.mul_le_mul_left _ ih
        _ = base ^ t.length * base := Nat.mul_comm _ _

theorem group_lt (h : group t = some n) : n < 2 ^ 16 := by
  unfold group at h
  split at h
  · rename_i hlen
    calc n < 16 ^ t.length := numeral_lt h
      _ ≤ 16 ^ 4 := Nat.pow_le_pow_right (by decide) hlen.2
      _ = 2 ^ 16 := by decide
  · cases h

theorem groups_lt {tail : Bool} {parts : List Str} (h : groups tail parts = some segments) :
    ∀ n ∈ segments, n < 2 ^ 16 := by
  induction parts generalizing segments with
  | nil =>
      obtain rfl := Option.some.inj h
      exact fun n hn => absurd hn (by simp)
  | cons t parts ih =>
      cases parts with
      | nil =>
          rw [groups] at h
          split at h
          · rename_i address ha
            obtain rfl := Option.some.inj h
            have hlt : address < 2 ^ 32 := by
              cases tail with
              | true => exact (showIpv4_of_parse ha).1
              | false => cases ha
            intro n hn
            simp only [List.mem_cons, List.not_mem_nil, or_false] at hn
            rcases hn with rfl | rfl <;> omega
          · obtain ⟨m, hm, rfl⟩ := Option.map_eq_some_iff.mp h
            intro n hn
            obtain rfl := List.mem_singleton.mp hn
            exact group_lt hm
      | cons u parts =>
          rw [groups] at h
          · simp only [Option.bind_eq_bind, Option.bind_eq_some_iff] at h
            obtain ⟨m, hm, rest, hr, h⟩ := h
            obtain rfl := Option.some.inj h
            intro n hn
            rcases List.mem_cons.mp hn with rfl | hn
            · exact group_lt hm
            · exact ih hr n hn
          · exact List.cons_ne_nil _ _

theorem parseIpv6_bounds (h : parseIpv6 t = some segments) :
    segments.length = 8 ∧ ∀ n ∈ segments, n < 2 ^ 16 := by
  unfold parseIpv6 at h
  split at h
  · simp only [Option.bind_eq_bind, Option.bind_eq_some_iff] at h
    obtain ⟨head, hh, tail, ht, h⟩ := h
    split at h
    swap
    · cases h
    rename_i hlt
    obtain rfl := Option.some.inj h
    constructor
    · simp only [List.length_append, List.length_replicate]
      omega
    · intro n hn
      rcases List.mem_append.mp hn with hn | hn
      · rcases List.mem_append.mp hn with hn | hn
        · exact groups_lt hh n hn
        · rw [(List.mem_replicate.mp hn).2]
          decide
      · exact groups_lt ht n hn
  · rw [Option.filter_eq_some_iff, decide_eq_true_eq] at h
    exact ⟨h.2, groups_lt h.1⟩

theorem parseIpAddr_showIpv4 (h : a < 2 ^ 32) : parseIpAddr (showIpv4 a) = some (showIpv4 a) := by
  rw [parseIpAddr, parseIpv4_show h]
  rfl

theorem parseIpAddr_showIpv6 (hlen : segments.length = 8) (h : ∀ n ∈ segments, n < 2 ^ 16) :
    parseIpAddr (showIpv6 segments) = some (showIpv6 segments) := by
  have hshow := parseIpv6_show hlen h
  rw [parseIpAddr, hshow]
  cases h4 : parseIpv4 (showIpv6 segments) with
  | none => rfl
  | some a =>
      have hcolon : ':' ∉ showIpv6 segments := by
        rw [← (showIpv4_of_parse h4).2]
        exact showIpv4_no_colon a
      rw [parseIpv6_of_no_colon hcolon] at hshow
      cases hshow

theorem ipv4Numbers_lt {ns : List Nat} {weight : Nat} (h : ipv4Numbers ns weight = some a) :
    a < weight := by
  induction ns generalizing weight a with
  | nil => cases h
  | cons n ns ih =>
      cases ns with
      | nil =>
          rw [ipv4Numbers] at h
          split at h
          · obtain rfl := Option.some.inj h
            assumption
          · cases h
      | cons m ns =>
          rw [ipv4Numbers] at h
          · split at h
            swap
            · cases h
            rename_i hn
            obtain ⟨b, hb, rfl⟩ := Option.map_eq_some_iff.mp h
            have hb := ih hb
            calc n * (weight / 256) + b < n * (weight / 256) + weight / 256 :=
                  Nat.add_lt_add_left hb _
              _ = (n + 1) * (weight / 256) := (Nat.succ_mul _ _).symm
              _ ≤ 256 * (weight / 256) := Nat.mul_le_mul_right _ (by omega)
              _ ≤ weight := Nat.mul_div_le _ _
          · exact List.cons_ne_nil _ _

theorem ipv4Address_lt (h : ipv4Address t = some a) : a < 2 ^ 32 := by
  unfold ipv4Address at h
  split at h
  · obtain ⟨ns, -, h⟩ := Option.bind_eq_some_iff.mp h
    exact ipv4Numbers_lt h
  · cases h

/-! ## Characters of addresses -/

def AddressChar (c : Char) : Prop := isHexDigit c = true ∨ c = ':' ∨ c = '.'

theorem showGroups_chars (h : c ∈ showGroups segments) : AddressChar c := by
  rcases mem_joined h with h | ⟨p, hp, h⟩
  · exact .inr (.inl h)
  · obtain ⟨n, -, rfl⟩ := List.mem_map.mp hp
    cases hc : isHexDigit c with
    | true => exact .inl hc
    | false => exact absurd h (not_mem_toDigits hc n)

theorem showIpv6_chars (h : c ∈ showIpv6 segments) : AddressChar c := by
  have hcolons : ∀ {c : Char}, c ∈ "::".toList → AddressChar c := by
    intro c hc
    obtain rfl : c = ':' := by simpa using hc
    exact .inr (.inl rfl)
  unfold showIpv6 at h
  split at h
  · rcases List.mem_append.mp h with h | h
    · have hall : ("::ffff:".toList.all fun c => isHexDigit c || c == ':') = true := by decide
      have := List.all_eq_true.mp hall c h
      rw [Bool.or_eq_true, beq_iff_eq] at this
      exact this.imp id .inl
    · exact (showIpv4_chars h).imp (fun hd => by simp [isHexDigit, hd]) .inr
  · split at h
    split at h
    · rcases List.mem_append.mp h with h | h
      · rcases List.mem_append.mp h with h | h
        · exact showGroups_chars h
        · exact hcolons h
      · exact showGroups_chars h
    · exact showGroups_chars h

theorem AddressChar.not_whitespace (h : AddressChar c) : isWhitespace c = false := by
  have hlt : c.toNat < 128 ∧ 32 < c.toNat := by
    have hv : c.toNat = c.val.toNat := rfl
    have h0 : ('0' : Char).val.toNat = 48 := rfl
    have h9 : ('9' : Char).val.toNat = 57 := rfl
    have ha : ('a' : Char).val.toNat = 97 := rfl
    have hf : ('f' : Char).val.toNat = 102 := rfl
    have hA : ('A' : Char).val.toNat = 65 := rfl
    have hF : ('F' : Char).val.toNat = 70 := rfl
    rcases h with h | rfl | rfl
    · simp only [isHexDigit, isDigit, Bool.or_eq_true, Bool.and_eq_true, decide_eq_true_eq,
        Char.le_def, UInt32.le_iff_toNat_le] at h
      omega
    · decide
    · decide
  simp only [isWhitespace, Bool.or_eq_false_iff, Bool.and_eq_false_iff, decide_eq_false_iff_not,
    List.contains_eq_mem, List.mem_cons, List.not_mem_nil, or_false]
  omega

end YoinkCore.Lib.HostName
