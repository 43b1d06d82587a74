import YoinkCore.Telegram.MediaTime

/-!
# The forms of the arguments

A start in a URL may be groups of digits with descending units, and a range is one number or
two with a dash between them. The scanners read these forms and the two of `MediaTime`, and
nothing else.
-/

namespace YoinkCore.Telegram.MediaTime

open Lib Lib.Text Domain

/-! ## Compact times -/

/-- Groups of digits, each with a unit below the one before. -/
inductive Compact : Nat → Str → Nat → Prop
  | nil (previousUnit : Nat) : Compact previousUnit [] 0
  | group {t rest : Str} {c : Char} {n unit multiplier previousUnit total : Nat}
      (hn : digits t = some n) (hunit : unitOf c = some (unit, multiplier))
      (hbelow : unit < previousUnit) (hrest : Compact unit rest total) :
      Compact previousUnit (t ++ c :: rest) (n * multiplier + total)

theorem not_digit_of_unit {c : Char} {u : Nat × Nat} (h : unitOf c = some u) :
    isDigit c = false := by
  unfold unitOf at h
  split at h
  · rename_i hc
    rw [hc]
    rfl
  · split at h
    · rename_i hc
      rw [hc]
      rfl
    · split at h
      · rename_i hc
        rw [hc]
        rfl
      · cases h

theorem multiplier_pos {c : Char} {unit multiplier : Nat} (h : unitOf c = some (unit, multiplier)) :
    0 < multiplier := by
  unfold unitOf at h
  split at h
  · cases h
    decide
  · split at h
    · cases h
      decide
    · split at h
      · cases h
        decide
      · cases h

variable {t : Str} {previousUnit : Nat} {n : ℤ}

/-- One round of the loop, over digits and the character behind them. -/
theorem compactFrom_group {rest : Str} {c : Char} {n : Nat} (hn : digits t = some n)
    (hc : isDigit c = false) (fuel total previousUnit : Nat) :
    compactFrom (fuel + 1) (t ++ c :: rest) total previousUnit =
      (parseUnsigned u64Max t).bind fun number =>
        (unitOf c).bind fun (unit, multiplier) =>
          if previousUnit ≤ unit then none
          else
            (checked (number * multiplier)).bind fun seconds =>
              (checked (total + seconds)).bind fun total => compactFrom fuel rest total unit := by
  obtain ⟨htake, hdrop⟩ := takeWhile_digits hn (c :: rest) (fun d hd => by
    obtain rfl := Option.some.inj hd
    exact hc)
  obtain ⟨d, ds, rfl, -⟩ := head_of_digits hn
  rw [List.cons_append] at htake hdrop ⊢
  conv_lhs => unfold compactFrom
  rw [htake, hdrop]

/-- The digits of the first group and the text from its unit on. -/
theorem Compact.first {k : Nat} (h : Compact previousUnit t k) (ht : t ≠ []) :
    t.takeWhile isDigit ≠ [] ∧ t.dropWhile isDigit ≠ [] := by
  cases h with
  | nil => exact absurd rfl ht
  | @group number rest c n unit multiplier _ total hn hunit hbelow hrest =>
      obtain ⟨htake, hdrop⟩ := takeWhile_digits hn (c :: rest) (fun d hd => by
        obtain rfl := Option.some.inj hd
        exact not_digit_of_unit hunit)
      rw [htake, hdrop]
      exact ⟨(digits_eq_some.mp hn).1.1, List.cons_ne_nil _ _⟩

/-- A text in the loop is done, or it begins with digits and a character that is none; else the
loop stops without a value. -/
theorem compactFrom_cases (t : Str) : t = [] ∨
    (∃ number c rest n, t = number ++ c :: rest ∧ digits number = some n ∧ isDigit c = false) ∨
      (∀ fuel total previousUnit, compactFrom fuel t total previousUnit = none) ∧
        ∀ previousUnit k, ¬ Compact previousUnit t k := by
  cases t with
  | nil => exact .inl rfl
  | cons d ds =>
      refine .inr ?_
      have hjoin := List.takeWhile_append_dropWhile (p := isDigit) (l := d :: ds)
      have hall : ∀ c ∈ (d :: ds).takeWhile isDigit, isDigit c = true :=
        fun c hc => List.mem_takeWhile_imp hc
      cases hnumber : (d :: ds).takeWhile isDigit with
      | nil =>
          refine .inr ⟨fun fuel total previousUnit => ?_, fun previousUnit k h => ?_⟩
          · cases fuel with
            | zero => rfl
            | succ fuel =>
                unfold compactFrom
                rw [hnumber]
          · exact (h.first (List.cons_ne_nil d ds)).1 hnumber
      | cons x xs =>
          rw [hnumber] at hjoin hall
          cases hrest : (d :: ds).dropWhile isDigit with
          | nil =>
              refine .inr ⟨fun fuel total previousUnit => ?_, fun previousUnit k h => ?_⟩
              · cases fuel with
                | zero => rfl
                | succ fuel =>
                    unfold compactFrom
                    rw [hnumber, hrest]
              · exact (h.first (List.cons_ne_nil d ds)).2 hrest
          | cons c rest =>
              rw [hrest] at hjoin
              have hc := List.head?_dropWhile_not isDigit (d :: ds)
              rw [hrest] at hc
              exact .inl ⟨x :: xs, c, rest, _, hjoin.symm,
                digits_eq_some.mpr ⟨⟨List.cons_ne_nil _ _, List.all_eq_true.mpr hall⟩, rfl⟩,
                by simpa using hc⟩

theorem compact_nil {k : Nat} : Compact previousUnit [] k ↔ k = 0 := by
  constructor
  · intro h
    generalize ht : ([] : Str) = t at h
    cases h with
    | nil => rfl
    | @group t rest =>
        exact absurd ht.symm (List.append_ne_nil_of_right_ne_nil t (List.cons_ne_nil _ _))
  · rintro rfl
    exact .nil previousUnit

/-- The first group of a text, and what is behind it. -/
theorem compact_group {rest : Str} {c : Char} {n k : Nat} (hn : digits t = some n)
    (hc : isDigit c = false) : Compact previousUnit (t ++ c :: rest) k ↔
      ∃ unit multiplier total, unitOf c = some (unit, multiplier) ∧ unit < previousUnit ∧
        Compact unit rest total ∧ k = n * multiplier + total := by
  constructor
  · intro h
    generalize ht : t ++ c :: rest = text at h
    cases h with
    | nil =>
        exact absurd ht (List.append_ne_nil_of_right_ne_nil t (List.cons_ne_nil _ _))
    | @group t' rest' c' n' unit multiplier _ total hn' hunit hbelow hrest =>
        have hfirst := takeWhile_digits hn (c :: rest) (fun d hd => by
          obtain rfl := Option.some.inj hd
          exact hc)
        have hsecond := takeWhile_digits hn' (c' :: rest') (fun d hd => by
          obtain rfl := Option.some.inj hd
          exact not_digit_of_unit hunit)
        rw [ht] at hfirst
        obtain rfl : t' = t := hsecond.1.symm.trans hfirst.1
        obtain ⟨rfl, rfl⟩ := List.cons.inj (hsecond.2.symm.trans hfirst.2)
        obtain rfl : n' = n := Option.some.inj (hn'.symm.trans hn)
        exact ⟨unit, multiplier, total, hunit, hbelow, hrest, rfl⟩
  · rintro ⟨unit, multiplier, total, hunit, hbelow, hrest, rfl⟩
    exact .group hn hunit hbelow hrest

theorem compactFrom_nil {fuel total n : Nat} (htotal : total ≤ u64Max) :
    compactFrom fuel [] total previousUnit = some n ↔
      ∃ k, Compact previousUnit [] k ∧ n = total + k ∧ n ≤ u64Max := by
  have heq : compactFrom fuel [] total previousUnit = some total := by
    cases fuel <;> rfl
  rw [heq]
  constructor
  · intro h
    obtain rfl := Option.some.inj h
    exact ⟨0, .nil previousUnit, rfl, htotal⟩
  · rintro ⟨k, hk, rfl, -⟩
    obtain rfl := compact_nil.mp hk
    rfl

/-- The loop adds up the groups. -/
theorem compactFrom_eq_some {fuel : Nat} {total n : Nat} (hfuel : t.length ≤ fuel)
    (htotal : total ≤ u64Max) :
    compactFrom fuel t total previousUnit = some n ↔
      ∃ k, Compact previousUnit t k ∧ n = total + k ∧ n ≤ u64Max := by
  induction fuel generalizing t total previousUnit with
  | zero =>
      obtain rfl := List.length_eq_zero_iff.mp (Nat.le_zero.mp hfuel)
      exact compactFrom_nil htotal
  | succ fuel ih =>
      rcases compactFrom_cases t with rfl | ⟨number, c, rest, m, rfl, hm, hc⟩ | ⟨hnone, hform⟩
      · exact compactFrom_nil htotal
      · have hrest : rest.length ≤ fuel := by
          rw [List.length_append, List.length_cons] at hfuel
          omega
        rw [compactFrom_group hm hc, parseUnsigned_of_digits hm]
        constructor
        · intro h
          obtain ⟨number, hnumber, h⟩ := Option.bind_eq_some_iff.mp h
          by_cases hfits : m ≤ u64Max
          · rw [if_pos hfits] at hnumber
            obtain rfl := Option.some.inj hnumber
            obtain ⟨⟨unit, multiplier⟩, hunit, h⟩ := Option.bind_eq_some_iff.mp h
            by_cases hbelow : previousUnit ≤ unit
            · change (if previousUnit ≤ unit then none else _) = _ at h
              rw [if_pos hbelow] at h
              cases h
            change (if previousUnit ≤ unit then none else _) = _ at h
            rw [if_neg hbelow] at h
            obtain ⟨_, hseconds, h⟩ := Option.bind_eq_some_iff.mp h
            obtain ⟨-, rfl⟩ := checked_eq_some.mp hseconds
            obtain ⟨_, hsum, h⟩ := Option.bind_eq_some_iff.mp h
            obtain ⟨hle, rfl⟩ := checked_eq_some.mp hsum
            obtain ⟨k, hk, rfl, hmax⟩ := (ih hrest hle).mp h
            exact ⟨m * multiplier + k, .group hm hunit (Nat.not_le.mp hbelow) hk,
              Nat.add_assoc _ _ _, hmax⟩
          · rw [if_neg hfits] at hnumber
            cases hnumber
        · rintro ⟨k, hk, rfl, hmax⟩
          obtain ⟨unit, multiplier, k, hunit, hbelow, hcompact, rfl⟩ := (compact_group hm hc).mp hk
          have hsum : total + m * multiplier ≤ u64Max := by
            rw [← Nat.add_assoc] at hmax
            exact le_trans (Nat.le_add_right _ _) hmax
          have hseconds : m * multiplier ≤ u64Max := le_trans (Nat.le_add_left _ _) hsum
          have hfits : m ≤ u64Max :=
            le_trans (Nat.le_mul_of_pos_right m (multiplier_pos hunit)) hseconds
          rw [if_pos hfits, Option.bind_some, hunit]
          show (if previousUnit ≤ unit then none else _) = _
          rw [if_neg (Nat.not_le.mpr hbelow), checked_of_le hseconds, Option.bind_some,
            checked_of_le hsum, Option.bind_some]
          exact (ih hrest hsum).mpr ⟨k, hcompact, (Nat.add_assoc _ _ _).symm, hmax⟩
      · rw [hnone]
        refine iff_of_false nofun ?_
        rintro ⟨k, hk, -⟩
        exact hform _ _ hk

/-! ## Times -/

/-- The two forms of a time. -/
inductive Time (t : Str) : ℚ → Prop
  | decimal {q : ℚ} (h : Decimal t q) : Time t q
  | clock {n : Nat} (h : Clock t n) : Time t n

/-- The two forms of a start in a URL. -/
inductive StartTime (t : Str) : ℚ → Prop
  | decimal {q : ℚ} (h : Decimal t q) : StartTime t q
  | compact {n : Nat} (ht : t ≠ []) (h : Compact 4 t n) (hmax : n ≤ u64Max) : StartTime t n

/-- A parser reads the texts of a form, and no others, as the float nearest to their value. -/
def Reads (parse : Str → Option Float) (form : Str → ℚ → Prop) : Prop :=
  ∀ t, (∀ q, form t q → ∃ x, parse t = some x ∧ Ieee.Is x (Ieee.round64 q)) ∧
    ∀ x, parse t = some x → ∃ q, form t q

theorem not_colon_of_decimal {q : ℚ} (h : Decimal t q) : t.contains ':' = false := by
  have hmem : ':' ∉ t := by
    cases h with
    | whole hn hmax => exact not_mem_digits hn rfl
    | fraction hn hm hmax hlast =>
        rw [List.mem_append, List.mem_cons, not_or, not_or]
        exact ⟨not_mem_digits hn rfl, by decide, not_mem_digits hm rfl⟩
  rw [← Bool.not_eq_true, List.contains_iff_mem]
  exact hmem

theorem parseTime_reads : Reads parseTime Time := by
  refine fun t => ⟨fun q h => ?_, fun x h => ?_⟩
  · cases h with
    | decimal h =>
        obtain ⟨x, hx, his⟩ := parseSeconds_of_decimal h
        refine ⟨x, ?_, his⟩
        unfold parseTime
        rw [not_colon_of_decimal h]
        exact hx
    | clock h => exact parseTime_of_clock h
  · by_cases hcolon : t.contains ':' = true
    · obtain ⟨n, hn⟩ := clock_of_parseTime hcolon h
      exact ⟨n, .clock hn⟩
    · rw [Bool.not_eq_true] at hcolon
      unfold parseTime at h
      rw [hcolon] at h
      obtain ⟨q, hq⟩ := decimal_of_parseSeconds h
      exact ⟨q, .decimal hq⟩

theorem isSecondsSyntax_of_decimal {q : ℚ} (h : Decimal t q) : isSecondsSyntax t = true := by
  cases h with
  | whole hn hmax => exact isSecondsSyntax_iff.mpr (.inl ⟨_, hn⟩)
  | fraction hn hm hmax hlast => exact isSecondsSyntax_iff.mpr (.inr ⟨_, _, _, _, rfl, hn, hm⟩)

/-- Groups have units, and seconds have none. -/
theorem not_seconds_of_compact {k : Nat} (h : Compact previousUnit t k) (ht : t ≠ []) :
    isSecondsSyntax t = false := by
  have hunits : ∃ c ∈ t, isDigit c = false ∧ c ≠ '.' := by
    cases h with
    | nil => exact absurd rfl ht
    | @group number rest c n unit multiplier _ total hn hunit hbelow hrest =>
        refine ⟨c, List.mem_append_right _ List.mem_cons_self, not_digit_of_unit hunit, ?_⟩
        rintro rfl
        cases hunit
  obtain ⟨c, hc, hdigit, hdot⟩ := hunits
  rw [← Bool.not_eq_true, isSecondsSyntax_iff]
  rintro (⟨n, hn⟩ | ⟨w, f, n, m, rfl, hn, hm⟩)
  · exact not_mem_digits hn hdigit hc
  · rw [List.mem_append, List.mem_cons] at hc
    rcases hc with hc | rfl | hc
    · exact not_mem_digits hn hdigit hc
    · exact hdot rfl
    · exact not_mem_digits hm hdigit hc

theorem parseStartValue_reads : Reads parseStartValue StartTime := by
  refine fun t => ⟨fun q h => ?_, fun x h => ?_⟩
  · cases h with
    | decimal h =>
        obtain ⟨x, hx, his⟩ := parseSeconds_of_decimal h
        refine ⟨x, ?_, his⟩
        unfold parseStartValue
        rw [isSecondsSyntax_of_decimal h]
        exact hx
    | @compact n ht h hmax =>
        refine ⟨_, ?_, is_toFloat hmax⟩
        have hsum : compactFrom t.length t 0 4 = some n :=
          (compactFrom_eq_some le_rfl (Nat.zero_le _)).mpr ⟨n, h, (Nat.zero_add n).symm, hmax⟩
        unfold parseStartValue
        rw [not_seconds_of_compact h ht, List.isEmpty_eq_false_iff.mpr ht, hsum]
        rfl
  · unfold parseStartValue at h
    by_cases hreads : isSecondsSyntax t = true
    · rw [hreads] at h
      obtain ⟨q, hq⟩ := decimal_of_parseSeconds h
      exact ⟨q, .decimal hq⟩
    · rw [if_neg hreads] at h
      by_cases hempty : t.isEmpty = true
      · rw [if_pos hempty] at h
        cases h
      · rw [if_neg hempty] at h
        obtain ⟨n, hn, -⟩ := Option.map_eq_some_iff.mp h
        obtain ⟨k, hk, rfl, hmax⟩ := (compactFrom_eq_some le_rfl (Nat.zero_le _)).mp hn
        rw [Nat.zero_add] at hmax
        exact ⟨k, .compact (fun ht => hempty (List.isEmpty_iff.mpr ht)) hk hmax⟩

/-! ## Playlist entries -/

/-- A whole number with a sign or none. -/
inductive Numeral : Str → ℤ → Prop
  | plain {t : Str} {n : Nat} (h : digits t = some n) : Numeral t n
  | plus {t : Str} {n : Nat} (h : digits t = some n) : Numeral ('+' :: t) n
  | minus {t : Str} {n : Nat} (h : digits t = some n) : Numeral ('-' :: t) (-n)

/-- A number that is an `i32`. -/
def Fits (n : ℤ) : Prop := -2 ^ 31 ≤ n ∧ n ≤ 2 ^ 31 - 1

theorem parseSigned_eq_some {lo hi : ℤ} :
    parseSigned lo hi t = some n ↔ Numeral t n ∧ lo ≤ n ∧ n ≤ hi := by
  have hrange : ∀ {value : Option ℤ}, (value.filter fun n => decide (lo ≤ n) && decide (n ≤ hi)) =
      some n ↔ value = some n ∧ lo ≤ n ∧ n ≤ hi := by
    intro value
    rw [Option.filter_eq_some_iff, Bool.and_eq_true, decide_eq_true_eq, decide_eq_true_eq]
  unfold parseSigned
  rw [hrange]
  refine and_congr_left fun _ => ?_
  constructor
  · intro h
    split at h
    · obtain ⟨m, hm, rfl⟩ := Option.map_eq_some_iff.mp h
      exact .plus hm
    · obtain ⟨m, hm, rfl⟩ := Option.map_eq_some_iff.mp h
      exact .minus hm
    · obtain ⟨m, hm, rfl⟩ := Option.map_eq_some_iff.mp h
      exact .plain hm
  · intro h
    cases h with
    | plus h | minus h => exact Option.map_eq_some_iff.mpr ⟨_, h, rfl⟩
    | @plain _ m h =>
        obtain ⟨c, rest, rfl, hc⟩ := head_of_digits h
        split
        · rename_i heq
          obtain rfl := (List.cons.inj heq).1
          cases hc
        · rename_i heq
          obtain rfl := (List.cons.inj heq).1
          cases hc
        · exact Option.map_eq_some_iff.mpr ⟨m, h, rfl⟩

theorem parseI32_eq_some {k : Int32} :
    parseI32 t = some k ↔ ∃ n, Numeral t n ∧ Fits n ∧ k = Int32.ofInt n := by
  unfold parseI32
  rw [Option.map_eq_some_iff]
  constructor
  · rintro ⟨n, hn, rfl⟩
    obtain ⟨hnumeral, hfits⟩ := parseSigned_eq_some.mp hn
    exact ⟨n, hnumeral, hfits, rfl⟩
  · rintro ⟨n, hnumeral, hfits, rfl⟩
    exact ⟨n, parseSigned_eq_some.mpr ⟨hnumeral, hfits⟩, rfl⟩

/-- A numeral has no dash behind its first character. -/
theorem Numeral.cons (h : Numeral t n) : ∃ c rest, t = c :: rest ∧ '-' ∉ rest := by
  cases h with
  | plain h =>
      obtain ⟨c, rest, rfl, -⟩ := head_of_digits h
      exact ⟨c, rest, rfl, fun hmem => not_mem_digits h rfl (List.mem_cons_of_mem c hmem)⟩
  | plus h | minus h => exact ⟨_, _, rfl, not_mem_digits h rfl⟩

/-- The range of one number: the last entries, the first ones, or one alone. -/
def oneEntry (command : Bool) (n : ℤ) : ℤ × Option ℤ :=
  if n < 0 then (n, none) else if command then (1, some n) else (n, some n)

def rangeOf (start : ℤ) (stop : Option ℤ) : Option PlaylistRange :=
  (PlaylistRange.new (Int32.ofInt start) (stop.map Int32.ofInt)).toOption

/-- One number, or two with a dash between them. -/
inductive Entries (command : Bool) (r : PlaylistRange) : Str → Prop
  | one {t : Str} {n : ℤ} (hn : Numeral t n) (hfits : Fits n)
      (hr : rangeOf (oneEntry command n).1 (oneEntry command n).2 = some r) : Entries command r t
  | two {a b : Str} {n m : ℤ} (hn : Numeral a n) (hm : Numeral b m) (hfits : Fits n ∧ Fits m)
      (hr : rangeOf n (some m) = some r) : Entries command r (a ++ '-' :: b)

theorem rangeParts_cons (c : Char) (rest : Str) : rangeParts (c :: rest) =
    match splitOnce ['-'] rest with
    | some (before, after) => (c :: before, some after)
    | none => (c :: rest, none) := rfl

/-- A text is cut at its first dash behind the first character. -/
theorem rangeParts_cases (t : Str) :
    (rangeParts t = (t, none) ∧ ∀ c rest, t = c :: rest → '-' ∉ rest) ∨
      ∃ c a b, t = (c :: a) ++ '-' :: b ∧ '-' ∉ a ∧ rangeParts t = (c :: a, some b) := by
  cases t with
  | nil => exact .inl ⟨rfl, fun c rest h => nomatch h⟩
  | cons c rest =>
      by_cases hmem : '-' ∈ rest
      · obtain ⟨a, b, rfl, ha⟩ := List.eq_append_cons_of_mem hmem
        refine .inr ⟨c, a, b, rfl, ha, ?_⟩
        rw [rangeParts_cons, splitOnce_append ha]
      · refine .inl ⟨?_, fun d rest' h => (List.cons.inj h).2 ▸ hmem⟩
        rw [rangeParts_cons, splitOnce_of_not_mem (List.mem_singleton_self _) hmem]

theorem ofInt_lt_zero (h : Fits n) : Int32.ofInt n < 0 ↔ n < 0 := by
  rw [Int32.lt_iff_toInt_lt, Int32.toInt_ofInt_of_le h.1 (Int.lt_of_le_sub_one h.2)]
  rfl

/-- The range of one number, as the code reads it. -/
theorem rangeOf_oneEntry (h : Fits n) (command : Bool) :
    rangeOf (oneEntry command n).1 (oneEntry command n).2 =
      (match (if Int32.ofInt n < 0 then (Int32.ofInt n, none)
        else if command then (1, some (Int32.ofInt n))
        else (Int32.ofInt n, some (Int32.ofInt n)) : Int32 × Option Int32) with
      | (start, stop) => (PlaylistRange.new start stop).toOption) := by
  unfold oneEntry rangeOf
  by_cases hneg : n < 0
  · rw [if_pos hneg, if_pos ((ofInt_lt_zero h).mpr hneg)]
    rfl
  · rw [if_neg hneg, if_neg fun hlt => hneg ((ofInt_lt_zero h).mp hlt)]
    cases command <;> rfl

theorem playlistRange_one {command : Bool} (hparts : rangeParts t = (t, none)) :
    playlistRange t command = (parseI32 t).bind fun start =>
      match (if start < 0 then (start, none) else if command then (1, some start)
        else (start, some start) : Int32 × Option Int32) with
      | (start, stop) => (PlaylistRange.new start stop).toOption := by
  unfold playlistRange
  rw [hparts]
  rfl

theorem playlistRange_two {a b : Str} {command : Bool} (hparts : rangeParts t = (a, some b)) :
    playlistRange t command = (parseI32 a).bind fun start => (parseI32 b).bind fun stop =>
      if b.isEmpty then none else (PlaylistRange.new start (some stop)).toOption := by
  unfold playlistRange
  rw [hparts]
  refine congrArg (parseI32 a).bind (funext fun start => ?_)
  show (some <$> parseI32 b).bind _ = _
  cases parseI32 b <;> rfl

theorem playlistRange_eq_some {command : Bool} {r : PlaylistRange} :
    playlistRange t command = some r ↔ Entries command r t := by
  rcases rangeParts_cases t with ⟨hparts, hdash⟩ | ⟨c, a, b, rfl, ha, hparts⟩
  · rw [playlistRange_one hparts]
    constructor
    · intro h
      obtain ⟨_, hstart, hr⟩ := Option.bind_eq_some_iff.mp h
      obtain ⟨n, hn, hfits, rfl⟩ := parseI32_eq_some.mp hstart
      exact .one hn hfits ((rangeOf_oneEntry hfits command).trans hr)
    · intro h
      cases h with
      | @one _ n hn hfits hr =>
          rw [parseI32_eq_some.mpr ⟨n, hn, hfits, rfl⟩]
          exact (rangeOf_oneEntry hfits command).symm.trans hr
      | @two a b n m hn hm hfits hr =>
          obtain ⟨d, rest, rfl, -⟩ := hn.cons
          exact absurd (List.mem_append_right _ List.mem_cons_self) (hdash d (rest ++ '-' :: b) rfl)
  · rw [playlistRange_two hparts]
    constructor
    · intro h
      obtain ⟨_, hstart, h⟩ := Option.bind_eq_some_iff.mp h
      obtain ⟨_, hstop, h⟩ := Option.bind_eq_some_iff.mp h
      obtain ⟨n, hn, hnfits, rfl⟩ := parseI32_eq_some.mp hstart
      obtain ⟨m, hm, hmfits, rfl⟩ := parseI32_eq_some.mp hstop
      by_cases hempty : b.isEmpty = true
      · rw [if_pos hempty] at h
        cases h
      · rw [if_neg hempty] at h
        exact .two hn hm ⟨hnfits, hmfits⟩ h
    · intro h
      generalize ht : (c :: a) ++ '-' :: b = t at h
      cases h with
      | @one _ n hn hfits hr =>
          obtain ⟨d, rest, rfl, hrest⟩ := hn.cons
          obtain ⟨-, rfl⟩ := List.cons.inj ht
          exact absurd (List.mem_append_right _ List.mem_cons_self) hrest
      | @two x y n m hn hm hfits hr =>
          obtain ⟨d, rest, rfl, hrest⟩ := hn.cons
          obtain ⟨rfl, htail⟩ := List.cons.inj ht
          change a ++ '-' :: b = rest ++ '-' :: y at htail
          have hcut := splitOnce_append ha b
          rw [htail, splitOnce_append hrest y] at hcut
          obtain ⟨rfl, rfl⟩ := Prod.mk.inj (Option.some.inj hcut)
          have hempty : y.isEmpty = false := by
            obtain ⟨e, rest', rfl, -⟩ := hm.cons
            rfl
          rw [parseI32_eq_some.mpr ⟨n, hn, hfits.1, rfl⟩,
            parseI32_eq_some.mpr ⟨m, hm, hfits.2, rfl⟩,
            Option.bind_some, Option.bind_some, hempty]
          exact hr

/-- **The arguments follow their forms.** Times and starts are read when they have one of
their forms, as the float nearest to their value, and so are ranges. The count of a range is
no overflow either. -/
theorem arguments_follow_forms :
    Reads parseTime Time ∧ Reads parseStartValue StartTime ∧
    (∀ t command r, playlistRange t command = some r ↔ Entries command r t) ∧
    ∀ start stop : Int32, -2 ^ 63 ≤ stop.toInt - start.toInt ∧
      stop.toInt - start.toInt ≤ 2 ^ 63 - 1 ∧ (stop.toInt - start.toInt).natAbs + 1 ≤ u64Max := by
  refine ⟨parseTime_reads, parseStartValue_reads, fun t command r => playlistRange_eq_some,
    fun start stop => ?_⟩
  have hmax : u64Max = 18446744073709551615 := rfl
  have hstart := And.intro start.le_toInt start.toInt_lt
  have hstop := And.intro stop.le_toInt stop.toInt_lt
  omega

/-- A fraction behind the largest whole part, and a range with a plus sign. -/
theorem last_second_has_no_fraction :
    (∃ n m, digits "18446744073709551615".toList = some n ∧ n ≤ u64Max ∧
      digits "5".toList = some m ∧ parseTime "18446744073709551615.5".toList = none) ∧
    (playlistRange "+3".toList false).isSome = true := by
  refine ⟨⟨18446744073709551615, 5, ?_, ?_, ?_, ?_⟩, ?_⟩ <;> decide +kernel

end YoinkCore.Telegram.MediaTime
