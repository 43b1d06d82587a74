import YoinkCore.Domain.Params
import YoinkCore.Lib.FloatValue
import YoinkCore.Lib.Addresses
import YoinkCore.Lib.Numerals

/-!
# Times and ranges of a command

The arguments of the media commands: seconds with a fraction, colon times, the compact form
of a marker in a URL, and the entries of a playlist. The scanners are followed by the forms
they read, which say nothing of how a text is scanned. Here are those of seconds and of colon
times.
-/

namespace YoinkCore.Telegram.MediaTime

open Lib Lib.Text Domain

def u64Max : Nat := 2 ^ 64 - 1

/-- A checked operation on `u64`. -/
def checked (n : Nat) : Option Nat := if n ≤ u64Max then some n else none

def allDigits (t : Str) : Bool := !t.isEmpty && t.all isDigit

/-! ## Seconds -/

def isSecondsSyntax (value : Str) : Bool :=
  match split '.' value with
  | [whole] => allDigits whole
  | [whole, fraction] => allDigits whole && allDigits fraction
  | _ => false

def parseSeconds (value : Str) : Option Float :=
  if !isSecondsSyntax value then none
  else
    ((split '.' value).head?.bind (parseUnsigned u64Max)).bind fun whole =>
      if whole = u64Max && ((splitOnce ['.'] value).map Prod.snd).any (·.any (· ≠ '0')) then none
      else (parseF64 value).filter fun seconds => seconds.isFinite && decide (0.0 ≤ seconds)

/-! ## Colon times -/

/-- The seconds of minutes and seconds, or of hours, minutes and seconds. -/
def clockSeconds : List Nat → Option Nat
  | [m, s] => (checked (m * 60)).bind fun minutes => checked (minutes + s)
  | [h, m, s] =>
      ((checked (h * 3600)).bind fun hours =>
        (checked (m * 60)).bind fun minutes => checked (hours + minutes)).bind fun value =>
        checked (value + s)
  | _ => none

def parseTime (value : Str) : Option Float :=
  if !value.contains ':' then parseSeconds value
  else
    let parts := split ':' value
    if !(decide (2 ≤ parts.length) && decide (parts.length ≤ 3)) || parts.any (!allDigits ·) then
      none
    else
      (parts.mapM (parseUnsigned u64Max)).bind fun nums =>
        if (nums.drop 1).any fun part => decide (60 ≤ part) then none
        else (clockSeconds nums).map fun seconds => seconds.toUInt64.toFloat

/-! ## Compact times -/

/-- The rank of a unit, and its seconds. -/
def unitOf (c : Char) : Option (Nat × Nat) :=
  if c = 'h' then some (3, 3600)
  else if c = 'm' then some (2, 60)
  else if c = 's' then some (1, 1)
  else none

/-- The loop over the groups of digits with a unit, which has at most as many rounds as there
are characters. -/
def compactFrom : Nat → Str → Nat → Nat → Option Nat
  | _, [], total, _ => some total
  | 0, _ :: _, _, _ => none
  | fuel + 1, rest, total, previousUnit =>
      match rest.takeWhile isDigit, rest.dropWhile isDigit with
      | [], _ => none
      | _, [] => none
      | number, c :: rest =>
          (parseUnsigned u64Max number).bind fun number =>
            (unitOf c).bind fun (unit, multiplier) =>
              if previousUnit ≤ unit then none
              else
                (checked (number * multiplier)).bind fun seconds =>
                  (checked (total + seconds)).bind fun total =>
                    compactFrom fuel rest total unit

def parseStartValue (value : Str) : Option Float :=
  if isSecondsSyntax value then parseSeconds value
  else if value.isEmpty then none
  else (compactFrom value.length value 0 4).map fun total => total.toUInt64.toFloat

/-! ## Playlist entries -/

def parseI32 (t : Str) : Option Int32 := (parseSigned (-2 ^ 31) (2 ^ 31 - 1) t).map Int32.ofInt

/-- The text before and after the first dash that is not the first character. -/
def rangeParts : Str → Str × Option Str
  | [] => ([], none)
  | c :: rest =>
      match splitOnce ['-'] rest with
      | some (before, after) => (c :: before, some after)
      | none => (c :: rest, none)

def playlistRange (token : Str) (playlistCommand : Bool) : Option PlaylistRange :=
  let (startText, endText) := rangeParts token
  (parseI32 startText).bind fun start =>
    (endText.mapM parseI32).bind fun stop =>
      if endText.any (·.isEmpty) then none
      else
        let (start, stop) := match stop with
          | some stop => (start, some stop)
          | none =>
              if start < 0 then (start, none)
              else if playlistCommand then (1, some start)
              else (start, some start)
        (PlaylistRange.new start stop).toOption

/-! ## The forms of seconds -/

/-- Seconds, with a fraction or not. Behind the largest whole part a fraction is zero. -/
inductive Decimal : Str → ℚ → Prop
  | whole {t : Str} {n : Nat} (hn : digits t = some n) (hmax : n ≤ u64Max) : Decimal t n
  | fraction {t f : Str} {n m : Nat} (hn : digits t = some n) (hm : digits f = some m)
      (hmax : n ≤ u64Max) (hlast : n = u64Max → m = 0) :
      Decimal (t ++ '.' :: f) (n + m / 10 ^ f.length)

variable {t : Str} {n : Nat}

theorem allDigits_iff : allDigits t = true ↔ ∃ n, digits t = some n := by
  unfold allDigits
  constructor
  · intro h
    rw [Bool.and_eq_true, Bool.not_eq_true', List.isEmpty_eq_false_iff] at h
    exact ⟨_, digits_eq_some.mpr ⟨h, rfl⟩⟩
  · rintro ⟨n, hn⟩
    obtain ⟨hne, hall⟩ := (digits_eq_some.mp hn).1
    rw [hall, Bool.and_true, Bool.not_eq_true', List.isEmpty_eq_false_iff]
    exact hne

theorem not_mem_digits (h : digits t = some n) {c : Char} (hc : isDigit c = false) : c ∉ t := by
  intro hmem
  rw [List.all_eq_true.mp (digits_eq_some.mp h).1.2 c hmem] at hc
  cases hc

theorem split_fraction {f : Str} {m : Nat} (hn : digits t = some n) (hm : digits f = some m) :
    split '.' (t ++ '.' :: f) = [t, f] := by
  rw [split_append_sep, split_of_not_mem (not_mem_digits hn rfl),
    split_of_not_mem (not_mem_digits hm rfl)]
  rfl

/-- Digits, or digits with a fraction. -/
theorem isSecondsSyntax_iff : isSecondsSyntax t = true ↔
    (∃ n, digits t = some n) ∨
      ∃ w f n m, t = w ++ '.' :: f ∧ digits w = some n ∧ digits f = some m := by
  have hjoin := HostName.intercalate_split '.' t
  unfold isSecondsSyntax
  constructor
  · intro h
    split at h
    · rename_i w hs
      rw [hs, List.intercalate_singleton] at hjoin
      subst hjoin
      exact .inl (allDigits_iff.mp h)
    · rename_i w f hs
      rw [Bool.and_eq_true] at h
      rw [hs, List.intercalate_cons_cons, List.intercalate_singleton, List.append_assoc] at hjoin
      obtain ⟨n, hn⟩ := allDigits_iff.mp h.1
      obtain ⟨m, hm⟩ := allDigits_iff.mp h.2
      exact .inr ⟨w, f, n, m, hjoin.symm, hn, hm⟩
    · cases h
  · rintro (⟨n, hn⟩ | ⟨w, f, n, m, rfl, hn, hm⟩)
    · rw [split_of_not_mem (not_mem_digits hn rfl)]
      exact allDigits_iff.mpr ⟨n, hn⟩
    · rw [split_fraction hn hm]
      exact Bool.and_eq_true _ _ ▸ ⟨allDigits_iff.mpr ⟨n, hn⟩, allDigits_iff.mpr ⟨m, hm⟩⟩

/-! ## Reading seconds -/

theorem takeWhile_digits (h : digits t = some n) (rest : Str)
    (hrest : ∀ c ∈ rest.head?, isDigit c = false) :
    (t ++ rest).takeWhile isDigit = t ∧ (t ++ rest).dropWhile isDigit = rest := by
  have hall := List.all_eq_true.mp (digits_eq_some.mp h).1.2
  have hnone : rest.takeWhile isDigit = [] ∧ rest.dropWhile isDigit = rest := by
    cases rest with
    | nil => exact ⟨rfl, rfl⟩
    | cons c rest =>
        have hc : ¬ isDigit c = true := by
          rw [hrest c rfl]
          exact Bool.false_ne_true
        exact ⟨List.takeWhile_cons_of_neg hc, List.dropWhile_cons_of_neg hc⟩
  rw [List.takeWhile_append_of_pos hall, List.dropWhile_append_of_pos hall, hnone.1, hnone.2,
    List.append_nil]
  exact ⟨rfl, rfl⟩

/-- Only a text that begins with a digit is not a word or a signed number. -/
theorem parseF64_of_digit {c : Char} (hc : isDigit c = true) (t : Str) :
    parseF64 (c :: t) = decimal (c :: t) := by
  have hplus : c ≠ '+' := by
    rintro rfl
    cases hc
  have hminus : c ≠ '-' := by
    rintro rfl
    cases hc
  have hle : c ≤ '9' := by
    rw [isDigit, Bool.and_eq_true, decide_eq_true_eq, decide_eq_true_eq] at hc
    exact hc.2
  have hlower : toLower c = c := if_neg fun h => by
    rw [isUpper, Bool.and_eq_true, decide_eq_true_eq] at h
    exact absurd (Char.le_trans h.1 hle) (by decide)
  have hletter : ∀ d : Char, '9' < d → c ≠ d := by
    rintro d hd rfl
    exact absurd hle (Char.not_le.mpr hd)
  have hsigned : signed (c :: t) = (false, c :: t) := by
    unfold signed
    split
    · rename_i rest heq
      exact absurd (List.cons.inj heq).1 hplus
    · rename_i rest heq
      exact absurd (List.cons.inj heq).1 hminus
    · rfl
  have hword : ∀ {word : Str} {d : Char}, '9' < d → (c :: t).map toLower ≠ d :: word := by
    intro word d hd heq
    rw [List.map_cons, hlower] at heq
    exact hletter d hd (List.cons.inj heq).1
  unfold parseF64
  simp only [hsigned, Bool.false_eq_true, if_false]
  split
  · rename_i heq
    exact absurd heq (hword (by decide))
  · rename_i heq
    exact absurd heq (hword (by decide))
  · rename_i heq
    exact absurd heq (hword (by decide))
  · exact Option.map_id'

theorem parseF64_of_digits (h : digits t = some n) (rest : Str) :
    parseF64 (t ++ rest) = decimal (t ++ rest) := by
  obtain ⟨c, t, rfl, hc⟩ := head_of_digits h
  exact parseF64_of_digit hc (t ++ rest)

theorem parseF64_whole (h : digits t = some n) :
    parseF64 t = some (Float.ofScientific n false 0) := by
  have hread := parseF64_of_digits h []
  obtain ⟨htake, hdrop⟩ := takeWhile_digits h [] (fun c hc => nomatch hc)
  rw [List.append_nil] at hread htake hdrop
  rw [hread]
  unfold decimal
  simp only [htake, hdrop, List.append_nil, h]
  rfl

theorem parseF64_fraction {f : Str} {m : Nat} (hn : digits t = some n) (hm : digits f = some m) :
    parseF64 (t ++ '.' :: f) =
      some (Float.ofScientific (n * 10 ^ f.length + m) true f.length) := by
  obtain ⟨htake, hdrop⟩ := takeWhile_digits hn ('.' :: f) (fun c hc => by
    obtain rfl := Option.some.inj hc
    rfl)
  obtain ⟨hftake, hfdrop⟩ := takeWhile_digits hm [] (fun c hc => nomatch hc)
  rw [List.append_nil] at hftake hfdrop
  have hpos : 0 < f.length := List.length_pos_iff.mpr (digits_eq_some.mp hm).1.1
  rw [parseF64_of_digits hn]
  unfold decimal
  simp only [htake, hdrop, hftake, hfdrop, digits_append hn hm]
  have hscale : (0 : Int) - (f.length : Int) < 0 := by omega
  show some (Float.ofScientific _ (decide ((0 : Int) - (f.length : Int) < 0))
    ((0 : Int) - (f.length : Int)).natAbs) = _
  rw [decide_eq_true hscale]
  congr 2
  omega

/-- A decimal is read as the nearest float. -/
theorem parseF64_decimal {q : ℚ} (h : Decimal t q) :
    ∃ x, parseF64 t = some x ∧ Ieee.Is x (Ieee.round64 q) := by
  have hlarge : ∀ {a : ℚ}, a < 2 ^ 65 → a < 2 ^ 1023 := fun h =>
    h.trans_le (pow_le_pow_right₀ (by norm_num) (by norm_num))
  have hwhole : ∀ {n : Nat}, n ≤ u64Max → (n : ℚ) < 2 ^ 64 := by
    intro n hn
    have : n < 2 ^ 64 := Nat.lt_of_le_of_lt hn (by decide)
    exact_mod_cast this
  cases h with
  | whole hn hmax =>
      refine ⟨_, parseF64_whole hn, Ieee.Is.ofScientific_whole (hlarge ?_)⟩
      exact (hwhole hmax).trans (by norm_num)
  | @fraction w f n m hn hm hmax hlast =>
      have hpos : 0 < f.length := List.length_pos_iff.mpr (digits_eq_some.mp hm).1.1
      have hten : (0 : ℚ) < 10 ^ f.length := by positivity
      have hvalue : ((n * 10 ^ f.length + m : ℕ) : ℚ) / 10 ^ f.length = n + m / 10 ^ f.length := by
        push_cast
        rw [add_div, mul_div_cancel_right₀ _ hten.ne']
      have hfraction : (m : ℚ) / 10 ^ f.length < 1 := by
        rw [div_lt_one hten]
        exact_mod_cast digits_lt hm
      have hread := Ieee.Is.ofScientific_fraction (m := n * 10 ^ f.length + m) hpos (by
        rw [hvalue]
        refine hlarge ?_
        have := hwhole hmax
        linarith)
      rw [hvalue] at hread
      exact ⟨_, parseF64_fraction hn hm, hread⟩

theorem parseUnsigned_of_digits (h : digits t = some n) :
    parseUnsigned u64Max t = if n ≤ u64Max then some n else none := by
  obtain ⟨c, rest, rfl, hc⟩ := head_of_digits h
  have hplus : c ≠ '+' := by
    rintro rfl
    cases hc
  unfold parseUnsigned
  split
  · rename_i rest' heq
    exact absurd (List.cons.inj heq).1 hplus
  · show (digits (c :: rest)).filter _ = _
    rw [h, Option.filter_some]
    simp only [decide_eq_true_eq]

theorem parseSeconds_of_decimal {q : ℚ} (h : Decimal t q) :
    ∃ x, parseSeconds t = some x ∧ Ieee.Is x (Ieee.round64 q) := by
  obtain ⟨x, hx, his⟩ := parseF64_decimal h
  have hpasses : (parseF64 t).filter (fun seconds => seconds.isFinite && decide (0.0 ≤ seconds)) =
      some x := by
    rw [hx, Option.filter_some, his.isFinite, decide_eq_true his.zero_le]
    rfl
  refine ⟨x, ?_, his⟩
  unfold parseSeconds
  cases h with
  | whole hn hmax =>
      rename_i n
      have hdot : '.' ∉ t := not_mem_digits hn rfl
      rw [isSecondsSyntax_iff.mpr (.inl ⟨n, hn⟩), split_of_not_mem hdot,
        splitOnce_of_not_mem (List.mem_singleton_self _) hdot]
      show (parseUnsigned u64Max t).bind _ = _
      rw [parseUnsigned_of_digits hn, if_pos hmax]
      show (if n = u64Max && false then none else _) = _
      rw [Bool.and_false, if_neg Bool.false_ne_true]
      exact hpasses
  | @fraction w f n m hn hm hmax hlast =>
      rw [isSecondsSyntax_iff.mpr (.inr ⟨w, f, n, m, rfl, hn, hm⟩), split_fraction hn hm,
        splitOnce_append (not_mem_digits hn rfl)]
      show (parseUnsigned u64Max w).bind _ = _
      rw [parseUnsigned_of_digits hn, if_pos hmax]
      show (if n = u64Max && f.any (· ≠ '0') then none else _) = _
      have hguard : ¬ (n = u64Max && f.any (· ≠ '0')) = true := by
        rw [Bool.and_eq_true, decide_eq_true_eq]
        rintro ⟨htop, hany⟩
        rw [(digits_zero hm).mpr (hlast htop)] at hany
        cases hany
      rw [if_neg hguard]
      exact hpasses

theorem decimal_of_parseSeconds {x : Float} (h : parseSeconds t = some x) : ∃ q, Decimal t q := by
  unfold parseSeconds at h
  by_cases hreads : isSecondsSyntax t = true
  · rw [hreads] at h
    rcases isSecondsSyntax_iff.mp hreads with ⟨n, hn⟩ | ⟨w, f, n, m, rfl, hn, hm⟩
    · rw [split_of_not_mem (not_mem_digits hn rfl)] at h
      change (parseUnsigned u64Max t).bind _ = _ at h
      rw [parseUnsigned_of_digits hn] at h
      by_cases hmax : n ≤ u64Max
      · exact ⟨n, .whole hn hmax⟩
      · rw [if_neg hmax] at h
        cases h
    · rw [split_fraction hn hm, splitOnce_append (not_mem_digits hn rfl)] at h
      change (parseUnsigned u64Max w).bind _ = _ at h
      rw [parseUnsigned_of_digits hn] at h
      by_cases hmax : n ≤ u64Max
      · refine ⟨_, .fraction hn hm hmax fun htop => (digits_zero hm).mp ?_⟩
        rw [if_pos hmax] at h
        change (if n = u64Max && f.any (· ≠ '0') then none else _) = _ at h
        rw [htop] at h
        by_contra hany
        rw [Bool.not_eq_false] at hany
        rw [hany, if_pos (by decide)] at h
        cases h
      · rw [if_neg hmax] at h
        cases h
  · rw [Bool.not_eq_true] at hreads
    rw [hreads] at h
    cases h

/-! ## Colon times -/

/-- Minutes and seconds, or hours, minutes and seconds. -/
inductive Clock : Str → Nat → Prop
  | minutes {a b : Str} {m s : Nat} (hm : digits a = some m) (hs : digits b = some s)
      (hless : s < 60) (hmax : m * 60 + s ≤ u64Max) : Clock (a ++ ':' :: b) (m * 60 + s)
  | hours {a b c : Str} {h m s : Nat} (hh : digits a = some h) (hm : digits b = some m)
      (hs : digits c = some s) (hm60 : m < 60) (hs60 : s < 60)
      (hmax : h * 3600 + m * 60 + s ≤ u64Max) :
      Clock (a ++ ':' :: (b ++ ':' :: c)) (h * 3600 + m * 60 + s)

theorem checked_eq_some {m : Nat} : checked n = some m ↔ n ≤ u64Max ∧ n = m := by
  unfold checked
  by_cases h : n ≤ u64Max
  · rw [if_pos h]
    simp [h]
  · rw [if_neg h]
    simp [h]

theorem checked_of_le (h : n ≤ u64Max) : checked n = some n := if_pos h

theorem is_toFloat (h : n ≤ u64Max) : Ieee.Is n.toUInt64.toFloat (Ieee.round64 n) := by
  have := Ieee.Is.ofUInt64 n.toUInt64
  have hn : n.toUInt64.toNat = n :=
    UInt64.toNat_ofNat_of_lt' (Nat.lt_of_le_of_lt h (by decide))
  rwa [hn] at this

theorem clockSeconds_minutes (m s : Nat) : clockSeconds [m, s] =
    (checked (m * 60)).bind fun minutes => checked (minutes + s) := rfl

theorem clockSeconds_hours (h m s : Nat) : clockSeconds [h, m, s] =
    ((checked (h * 3600)).bind fun hours =>
      (checked (m * 60)).bind fun minutes => checked (hours + minutes)).bind fun value =>
      checked (value + s) := rfl

/-- The seconds of the groups of a colon time. -/
theorem clockSeconds_eq_some {nums : List Nat} : clockSeconds nums = some n ↔
    n ≤ u64Max ∧ ((∃ m s, nums = [m, s] ∧ n = m * 60 + s) ∨
      ∃ h m s, nums = [h, m, s] ∧ n = h * 3600 + m * 60 + s) := by
  constructor
  · intro h
    unfold clockSeconds at h
    split at h
    · rename_i m s
      obtain ⟨_, hm, hs⟩ := Option.bind_eq_some_iff.mp h
      obtain ⟨-, rfl⟩ := checked_eq_some.mp hm
      obtain ⟨hle, rfl⟩ := checked_eq_some.mp hs
      exact ⟨hle, .inl ⟨m, s, rfl, rfl⟩⟩
    · rename_i hours m s
      obtain ⟨_, hsum, hs⟩ := Option.bind_eq_some_iff.mp h
      obtain ⟨_, hh, hsum⟩ := Option.bind_eq_some_iff.mp hsum
      obtain ⟨_, hm, hsum⟩ := Option.bind_eq_some_iff.mp hsum
      obtain ⟨-, rfl⟩ := checked_eq_some.mp hh
      obtain ⟨-, rfl⟩ := checked_eq_some.mp hm
      obtain ⟨-, rfl⟩ := checked_eq_some.mp hsum
      obtain ⟨hle, rfl⟩ := checked_eq_some.mp hs
      exact ⟨hle, .inr ⟨hours, m, s, rfl, rfl⟩⟩
    · cases h
  · rintro ⟨hle, ⟨m, s, rfl, rfl⟩ | ⟨h, m, s, rfl, rfl⟩⟩
    · have hminutes : m * 60 ≤ u64Max := le_trans (Nat.le_add_right _ _) hle
      rw [clockSeconds_minutes, checked_of_le hminutes, Option.bind_some, checked_of_le hle]
    · have hsum : h * 3600 + m * 60 ≤ u64Max := le_trans (Nat.le_add_right _ _) hle
      have hhours : h * 3600 ≤ u64Max := le_trans (Nat.le_add_right _ _) hsum
      have hminutes : m * 60 ≤ u64Max := le_trans (Nat.le_add_left _ _) hsum
      rw [clockSeconds_hours, checked_of_le hhours, Option.bind_some, checked_of_le hminutes,
        Option.bind_some, checked_of_le hsum, Option.bind_some, checked_of_le hle]

/-- Groups of digits are read when each of them fits. -/
theorem mapM_digits {parts : List Str} {nums : List Nat}
    (h : List.Forall₂ (fun p n => digits p = some n) parts nums) :
    parts.mapM (parseUnsigned u64Max) =
      if nums.all (fun n => decide (n ≤ u64Max)) then some nums else none := by
  induction h with
  | nil => rfl
  | @cons p n parts nums hp hrest ih =>
      rw [List.mapM_cons, parseUnsigned_of_digits hp, ih]
      by_cases hn : n ≤ u64Max
      · by_cases hall : nums.all (fun n => decide (n ≤ u64Max)) = true
        · simp [hn, hall]
        · simp [hall]
      · simp [hn]

theorem forall₂_of_allDigits (parts : List Str) (h : ∀ p ∈ parts, allDigits p = true) :
    ∃ nums, List.Forall₂ (fun p n => digits p = some n) parts nums := by
  induction parts with
  | nil => exact ⟨[], .nil⟩
  | cons p parts ih =>
      obtain ⟨nums, hnums⟩ := ih fun q hq => h q (List.mem_cons_of_mem _ hq)
      obtain ⟨n, hn⟩ := allDigits_iff.mp (h p List.mem_cons_self)
      exact ⟨n :: nums, .cons hn hnums⟩

theorem allDigits_of_forall₂ {parts : List Str} {nums : List Nat}
    (h : List.Forall₂ (fun p n => digits p = some n) parts nums) :
    parts.any (!allDigits ·) = false := by
  induction h with
  | nil => rfl
  | cons hp hrest ih =>
      rw [List.any_cons, allDigits_iff.mpr ⟨_, hp⟩, ih]
      rfl

/-- A colon time is read through its groups. -/
theorem parseTime_groups {parts : List Str} {nums : List Nat} (hcolon : t.contains ':' = true)
    (hsplit : split ':' t = parts) (hlength : 2 ≤ parts.length ∧ parts.length ≤ 3)
    (hdigits : List.Forall₂ (fun p n => digits p = some n) parts nums) :
    parseTime t = (if nums.all (fun n => decide (n ≤ u64Max)) then some nums else none).bind
      fun nums =>
        if (nums.drop 1).any fun part => decide (60 ≤ part) then none
        else (clockSeconds nums).map fun seconds => seconds.toUInt64.toFloat := by
  unfold parseTime
  simp only [hcolon, hsplit, mapM_digits hdigits, allDigits_of_forall₂ hdigits,
    decide_eq_true hlength.1, decide_eq_true hlength.2]
  rfl

theorem contains_colon (a b : Str) : (a ++ ':' :: b).contains ':' = true := by
  simp

theorem parseTime_of_clock (h : Clock t n) :
    ∃ x, parseTime t = some x ∧ Ieee.Is x (Ieee.round64 n) := by
  cases h with
  | @minutes a b m s hm hs hless hmax =>
      have hsplit : split ':' (a ++ ':' :: b) = [a, b] := by
        rw [split_append_sep, split_of_not_mem (not_mem_digits hm rfl),
          split_of_not_mem (not_mem_digits hs rfl)]
        rfl
      refine ⟨_, ?_, is_toFloat hmax⟩
      rw [parseTime_groups (contains_colon a b) hsplit ⟨le_rfl, Nat.le_succ 2⟩
        (.cons hm (.cons hs .nil))]
      have hall : [m, s].all (fun n => decide (n ≤ u64Max)) = true := by
        simp only [List.all_cons, List.all_nil, Bool.and_true, Bool.and_eq_true, decide_eq_true_eq]
        omega
      rw [if_pos hall, Option.bind_some, if_neg (by simpa using hless),
        clockSeconds_eq_some.mpr ⟨hmax, .inl ⟨m, s, rfl, rfl⟩⟩]
      rfl
  | @hours a b c h m s hh hm hs hm60 hs60 hmax =>
      have hsplit : split ':' (a ++ ':' :: (b ++ ':' :: c)) = [a, b, c] := by
        rw [split_append_sep, split_append_sep, split_of_not_mem (not_mem_digits hh rfl),
          split_of_not_mem (not_mem_digits hm rfl), split_of_not_mem (not_mem_digits hs rfl)]
        rfl
      refine ⟨_, ?_, is_toFloat hmax⟩
      rw [parseTime_groups (contains_colon a _) hsplit ⟨Nat.le_succ 2, le_rfl⟩
        (.cons hh (.cons hm (.cons hs .nil)))]
      have hall : [h, m, s].all (fun n => decide (n ≤ u64Max)) = true := by
        simp only [List.all_cons, List.all_nil, Bool.and_true, Bool.and_eq_true, decide_eq_true_eq]
        omega
      rw [if_pos hall, Option.bind_some, if_neg (by simp [hm60, hs60]),
        clockSeconds_eq_some.mpr ⟨hmax, .inr ⟨h, m, s, rfl, rfl⟩⟩]
      rfl

theorem clock_of_parseTime {x : Float} (hcolon : t.contains ':' = true) (h : parseTime t = some x) :
    ∃ n, Clock t n := by
  have hjoin := HostName.intercalate_split ':' t
  by_cases hshape : (!(decide (2 ≤ (split ':' t).length) && decide ((split ':' t).length ≤ 3)) ||
      (split ':' t).any (!allDigits ·)) = true
  · unfold parseTime at h
    rw [hcolon] at h
    change (if _ then none else _) = _ at h
    rw [if_pos hshape] at h
    cases h
  rw [Bool.not_eq_true, Bool.or_eq_false_iff, Bool.not_eq_false', Bool.and_eq_true,
    decide_eq_true_eq, decide_eq_true_eq] at hshape
  obtain ⟨hlength, hany⟩ := hshape
  obtain ⟨nums, hnums⟩ := forall₂_of_allDigits (split ':' t) fun p hp => by
    by_contra hnot
    rw [List.any_eq_false] at hany
    exact hany p hp (by simpa using hnot)
  rw [parseTime_groups hcolon rfl hlength hnums] at h
  obtain ⟨_, hall, hrest⟩ := Option.bind_eq_some_iff.mp h
  by_cases hfits : nums.all (fun n => decide (n ≤ u64Max)) = true
  · rw [if_pos hfits] at hall
    obtain rfl := Option.some.inj hall
    by_cases hless : ((nums.drop 1).any fun part => decide (60 ≤ part)) = true
    · rw [if_pos hless] at hrest
      cases hrest
    rw [if_neg hless] at hrest
    obtain ⟨n, hn, -⟩ := Option.map_eq_some_iff.mp hrest
    obtain ⟨hmax, ⟨m, s, rfl, rfl⟩ | ⟨hours, m, s, rfl, rfl⟩⟩ := clockSeconds_eq_some.mp hn
    · generalize split ':' t = parts at hnums hjoin
      rcases hnums with _ | ⟨hm, _ | ⟨hs, ⟨⟩⟩⟩
      rw [List.intercalate_cons_cons, List.intercalate_singleton, List.append_assoc] at hjoin
      rw [← hjoin]
      exact ⟨_, .minutes hm hs (by simpa using hless) hmax⟩
    · generalize split ':' t = parts at hnums hjoin
      rcases hnums with _ | ⟨hh, _ | ⟨hm, _ | ⟨hs, ⟨⟩⟩⟩⟩
      rw [List.intercalate_cons_cons, List.intercalate_cons_cons, List.intercalate_singleton,
        List.append_assoc, List.append_assoc] at hjoin
      rw [← hjoin]
      have hless : m < 60 ∧ s < 60 := by simpa using hless
      exact ⟨_, .hours hh hm hs hless.1 hless.2 hmax⟩
  · rw [if_neg hfits] at hall
    cases hall

end YoinkCore.Telegram.MediaTime
