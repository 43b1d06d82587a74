import YoinkCore.Lib.FloatValue

/-!
# Response times

The delays between messages and their answers are not kept: per second there is a count, the
least delay and the greatest one. A median lies in one second, or between the last delay of
one second and the first of another, which are the greatest and the least there; and in one
second all numbers are truncated to that second.

The median is a float, so the two delays must not be too large for their sum to be one.
-/

namespace YoinkCore.Stats

open Lib

/-! ## Seconds -/

structure Bin where
  count : Nat
  least : Int
  greatest : Int
deriving DecidableEq

/-- The bins by their second, in ascending order. -/
abbrev Bins := List (Int × Bin)

structure Delays where
  bins : Bins := []
  count : Nat := 0
  sum : Int := 0

/-- `or_insert((0, micros, micros))` and one more delay. -/
def Bin.add (micros : Int) (bin : Option Bin) : Bin :=
  let bin := bin.getD ⟨0, micros, micros⟩
  ⟨bin.count + 1, min bin.least micros, max bin.greatest micros⟩

/-- One more delay in its bin, which may be new. -/
def addTo (second micros : Int) : Bins → Bins
  | [] => [(second, Bin.add micros none)]
  | (other, bin) :: rest =>
      if second < other then (second, Bin.add micros none) :: (other, bin) :: rest
      else if second = other then (other, Bin.add micros (some bin)) :: rest
      else (other, bin) :: addTo second micros rest

def Delays.add (d : Delays) (micros : Int) : Delays where
  bins := addTo (micros.tdiv 1000000) micros d.bins
  count := d.count + 1
  sum := d.sum + micros

/-- The loop over the bins: how many delays were passed, and the lower of the two middle delays
with its second, once it was met. -/
def middle (lo hi : Nat) : Bins → Nat → Option (Int × Int) → Option (Int × Int) × Int
  | [], _, lower => (lower, 0)
  | (second, bin) :: rest, n, lower =>
      let lower := if lower.isNone && decide (lo < n + bin.count) then some (bin.greatest, second)
        else lower
      if hi < n + bin.count then
        if lower.map Prod.snd = some second then
          (some (second * 1000000, second), second * 1000000)
        else (lower, bin.least)
      else middle lo hi rest (n + bin.count) lower

def durationText (n : Int) : String :=
  if n < 60 then toString n ++ "s"
  else if n < 3600 then toString (n.tdiv 60) ++ "m"
  else toString (n.tdiv 3600) ++ "h " ++ toString ((n.tmod 3600).tdiv 60) ++ "m"

def duration (n : Float) : String := durationText (Ieee.toI64 n)

/-- The average and the median. -/
def Delays.formatted (d : Delays) : String × String :=
  if d.count = 0 then ("-", "-")
  else
    let (lower, b) := middle ((d.count - 1) / 2) (d.count / 2) d.bins 0 none
    let a := (lower.map Prod.fst).getD b
    (duration (Float.ofInt d.sum / Float.ofNat d.count / 1000000.0).round,
      duration ((Float.ofInt a + Float.ofInt b) / 2000000.0))

/-! ## The delays behind the bins -/

/-- What a bin keeps of its delays. -/
structure Bin.Of (bin : Bin) (delays : List Int) : Prop where
  count : bin.count = delays.length
  least_mem : bin.least ∈ delays
  least_le : ∀ d ∈ delays, bin.least ≤ d
  greatest_mem : bin.greatest ∈ delays
  le_greatest : ∀ d ∈ delays, d ≤ bin.greatest

/-- Bins stand for a list of delays, which goes through the seconds one by one. -/
inductive Keeps : Bins → List Int → Prop
  | nil : Keeps [] []
  | cons {second : Int} {bin : Bin} {delays rest : List Int} {bins : Bins} (hbin : bin.Of delays)
      (hsecond : ∀ d ∈ delays, d / 1000000 = second) (hrest : Keeps bins rest)
      (hlater : ∀ d ∈ rest, second < d / 1000000) : Keeps ((second, bin) :: bins) (delays ++ rest)

variable {s : List Int} {bin : Bin}

theorem Bin.Of.perm {t : List Int} (h : bin.Of s) (hp : s.Perm t) : bin.Of t where
  count := h.count.trans hp.length_eq
  least_mem := hp.mem_iff.mp h.least_mem
  least_le d hd := h.least_le d (hp.mem_iff.mpr hd)
  greatest_mem := hp.mem_iff.mp h.greatest_mem
  le_greatest d hd := h.le_greatest d (hp.mem_iff.mpr hd)

theorem Bin.Of.ne_nil (h : bin.Of s) : s ≠ [] :=
  List.ne_nil_of_mem h.least_mem

theorem Bin.of_new (micros : Int) : (Bin.add micros none).Of [micros] where
  count := rfl
  least_mem := by simp [Bin.add]
  least_le := by simp [Bin.add]
  greatest_mem := by simp [Bin.add]
  le_greatest := by simp [Bin.add]

theorem Bin.Of.add (h : bin.Of s) (micros : Int) :
    (Bin.add micros (some bin)).Of (micros :: s) where
  count := by
    show bin.count + 1 = s.length + 1
    rw [h.count]
  least_mem := by
    show min bin.least micros ∈ micros :: s
    rcases min_choice bin.least micros with hm | hm <;> rw [hm]
    · exact List.mem_cons_of_mem _ h.least_mem
    · exact List.mem_cons_self
  least_le d hd := by
    show min bin.least micros ≤ d
    rcases List.mem_cons.mp hd with rfl | hd
    · exact min_le_right _ _
    · exact (min_le_left _ _).trans (h.least_le d hd)
  greatest_mem := by
    show max bin.greatest micros ∈ micros :: s
    rcases max_choice bin.greatest micros with hm | hm <;> rw [hm]
    · exact List.mem_cons_of_mem _ h.greatest_mem
    · exact List.mem_cons_self
  le_greatest d hd := by
    show d ≤ max bin.greatest micros
    rcases List.mem_cons.mp hd with rfl | hd
    · exact le_max_right _ _
    · exact (h.le_greatest d hd).trans (le_max_left _ _)

theorem lt_of_second_lt {a b : Int} (h : a / 1000000 < b / 1000000) : a < b := by
  omega

theorem orderedInsert_append_of_le {micros : Int} (s : List Int) {t : List Int}
    (h : ∀ d ∈ t, micros ≤ d) :
    (s ++ t).orderedInsert (· ≤ ·) micros = s.orderedInsert (· ≤ ·) micros ++ t := by
  induction s with
  | nil =>
      cases t with
      | nil => rfl
      | cons d t => exact List.orderedInsert_cons_of_le _ _ (h d List.mem_cons_self)
  | cons e s ih =>
      by_cases he : micros ≤ e
      · rw [List.cons_append, List.orderedInsert_cons_of_le _ _ he,
          List.orderedInsert_cons_of_le _ _ he, List.cons_append, List.cons_append]
      · rw [List.cons_append, List.orderedInsert_of_not_le _ _ he,
          List.orderedInsert_of_not_le _ _ he, ih, List.cons_append]

theorem orderedInsert_append_of_lt {micros : Int} (t : List Int) (h : ∀ d ∈ s, d < micros) :
    (s ++ t).orderedInsert (· ≤ ·) micros = s ++ t.orderedInsert (· ≤ ·) micros := by
  induction s with
  | nil => rfl
  | cons e s ih =>
      have he : ¬micros ≤ e := not_le.mpr (h e List.mem_cons_self)
      rw [List.cons_append, List.orderedInsert_of_not_le _ _ he,
        ih fun d hd => h d (List.mem_cons_of_mem _ hd), List.cons_append]

/-- One more delay goes to its place. -/
theorem Keeps.addTo {bins : Bins} (h : Keeps bins s) (micros : Int) :
    Keeps (Stats.addTo (micros / 1000000) micros bins) (s.orderedInsert (· ≤ ·) micros) := by
  induction h with
  | nil =>
      exact .cons (Bin.of_new micros) (by simp) .nil (by simp)
  | @cons second bin delays rest bins hbin hsecond hrest hlater ih =>
      unfold Stats.addTo
      by_cases hlt : micros / 1000000 < second
      · -- a new first bin
        have hall : ∀ d ∈ delays ++ rest, micros / 1000000 < d / 1000000 := by
          intro d hd
          rcases List.mem_append.mp hd with hd | hd
          · rw [hsecond d hd]
            exact hlt
          · exact hlt.trans (hlater d hd)
        rw [if_pos hlt, ← List.nil_append (delays ++ rest),
          orderedInsert_append_of_le [] fun d hd => (lt_of_second_lt (hall d hd)).le]
        exact .cons (Bin.of_new micros) (by simp) (.cons hbin hsecond hrest hlater) hall
      · rw [if_neg hlt]
        by_cases heq : micros / 1000000 = second
        · rw [if_pos heq, orderedInsert_append_of_le delays fun d hd =>
            (lt_of_second_lt (heq ▸ hlater d hd)).le]
          refine .cons ((hbin.add micros).perm (List.perm_orderedInsert _ _ _).symm) ?_ hrest hlater
          intro d hd
          rcases List.mem_orderedInsert (· ≤ ·) |>.mp hd with rfl | hd
          · exact heq
          · exact hsecond d hd
        · have hgt : second < micros / 1000000 := by omega
          rw [if_neg heq, orderedInsert_append_of_lt rest fun d hd =>
            lt_of_second_lt (hsecond d hd ▸ hgt)]
          refine .cons hbin hsecond ih ?_
          intro d hd
          rcases List.mem_orderedInsert (· ≤ ·) |>.mp hd with rfl | hd
          · exact hgt
          · exact hlater d hd

theorem insertionSort_concat (l : List Int) (micros : Int) :
    (l ++ [micros]).insertionSort (· ≤ ·) =
      (l.insertionSort (· ≤ ·)).orderedInsert (· ≤ ·) micros := by
  refine List.Perm.eq_of_pairwise' ?_ ?_ ?_ (r := (· ≤ ·))
  · exact List.pairwise_insertionSort _ _
  · exact (List.pairwise_insertionSort _ l).orderedInsert micros _
  · have hcons : (l ++ [micros]).Perm (micros :: l.insertionSort (· ≤ ·)) :=
      (List.perm_append_singleton micros l).trans ((List.perm_insertionSort _ l).symm.cons micros)
    exact (List.perm_insertionSort _ _).trans
      (hcons.trans (List.perm_orderedInsert _ micros _).symm)

/-- **The bins of a run.** Delays may come in any order. -/
theorem Delays.kept (l : List Int) (h : ∀ d ∈ l, 0 ≤ d) :
    Keeps (l.foldl Delays.add {}).bins (l.insertionSort (· ≤ ·)) ∧
      (l.foldl Delays.add {}).count = l.length := by
  induction l using List.reverseRecOn with
  | nil => exact ⟨.nil, rfl⟩
  | append_singleton l micros ih =>
      obtain ⟨hkeeps, hcount⟩ := ih fun d hd => h d (List.mem_append_left _ hd)
      have hmicros : 0 ≤ micros := h micros (List.mem_append_right _ List.mem_cons_self)
      rw [List.foldl_concat, insertionSort_concat, List.length_append]
      refine ⟨?_, congrArg (· + 1) hcount⟩
      show Keeps (Stats.addTo (micros.tdiv 1000000) micros _) _
      rw [Int.tdiv_eq_ediv_of_nonneg hmicros]
      exact hkeeps.addTo micros

/-! ## The two middle delays -/

/-- What the loop finds of the two middle delays: these themselves, or the second of both. -/
inductive Found (x y : Int) : Option (Int × Int) × Int → Prop
  | exactly (second : Int) : Found x y (some (x, second), y)
  | within {second : Int} (hx : x / 1000000 = second) (hy : y / 1000000 = second) :
      Found x y (some (second * 1000000, second), second * 1000000)

section

variable {lo hi n : Nat} {second : Int} {bin : Bin} {rest : Bins}

theorem middle_none (h : lo < n + bin.count) :
    middle lo hi ((second, bin) :: rest) n none =
      if hi < n + bin.count then (some (second * 1000000, second), second * 1000000)
      else middle lo hi rest (n + bin.count) (some (bin.greatest, second)) := by
  have hlower : ((none : Option (Int × Int)).isNone && decide (lo < n + bin.count)) = true :=
    decide_eq_true h
  rw [middle]
  simp only [if_pos hlower]
  rw [if_pos (show (some (bin.greatest, second)).map Prod.snd = some second from rfl)]

theorem middle_pass (hlo : n + bin.count ≤ lo) (hhi : n + bin.count ≤ hi) :
    middle lo hi ((second, bin) :: rest) n none = middle lo hi rest (n + bin.count) none := by
  have hlower : ¬((none : Option (Int × Int)).isNone && decide (lo < n + bin.count)) = true := by
    simpa using hlo
  rw [middle]
  simp only [if_neg hlower]
  rw [if_neg (not_lt.mpr hhi)]

theorem middle_upper {a earlier : Int} (hearlier : earlier < second) (hhi : hi < n + bin.count) :
    middle lo hi ((second, bin) :: rest) n (some (a, earlier)) =
      (some (a, earlier), bin.least) := by
  have hne : ¬(some (a, earlier)).map Prod.snd = some second :=
    fun h => hearlier.ne (Option.some.inj h)
  rw [middle]
  simp only [Option.isNone_some, Bool.false_and, Bool.false_eq_true, if_false]
  rw [if_pos hhi, if_neg hne]

end

/-- The least delay of a bin is the first of its delays. -/
theorem Bin.Of.head {d : Int} (h : bin.Of (d :: s)) (hs : (d :: s).Pairwise (· ≤ ·)) :
    bin.least = d := by
  refine le_antisymm (h.least_le d List.mem_cons_self) ?_
  rcases List.mem_cons.mp h.least_mem with heq | hmem
  · exact heq.ge
  · exact List.rel_of_pairwise_cons hs hmem

/-- The greatest delay of a bin is the last of its delays. -/
theorem Bin.Of.last {d : Int} (h : bin.Of (s ++ [d])) (hs : (s ++ [d]).Pairwise (· ≤ ·)) :
    bin.greatest = d := by
  refine le_antisymm ?_ (h.le_greatest d (List.mem_append_right _ List.mem_cons_self))
  rcases List.mem_append.mp h.greatest_mem with hmem | hmem
  · exact (List.pairwise_append.mp hs).2.2 _ hmem d List.mem_cons_self
  · exact (List.mem_singleton.mp hmem).le

/-- **The loop over the bins.** It stops in the bin of the upper middle delay, and keeps the
lower one from the bin where it was. -/
theorem middle_found {bins : Bins} (h : Keeps bins s) (hs : s.Pairwise (· ≤ ·)) {lo hi n : Nat}
    (hn : n ≤ lo) (hle : lo ≤ hi) (hhi : hi ≤ lo + 1) {x y : Int} (hx : s[lo - n]? = some x)
    (hy : s[hi - n]? = some y) : Found x y (middle lo hi bins n none) := by
  induction h generalizing n with
  | nil => cases hx
  | @cons second bin delays rest bins hbin hsecond hrest hlater ih =>
      have hcount := hbin.count
      obtain ⟨hdelays, hrests, -⟩ := List.pairwise_append.mp hs
      by_cases hlo : lo < n + bin.count
      · rw [List.getElem?_append_left (by omega)] at hx
        by_cases hup : hi < n + bin.count
        · -- both in this second
          rw [List.getElem?_append_left (by omega)] at hy
          rw [middle_none hlo, if_pos hup]
          exact .within (hsecond x (List.mem_of_getElem? hx)) (hsecond y (List.mem_of_getElem? hy))
        · -- the lower one is the last of this second, the upper one the first of the next
          rw [List.getElem?_append_right (by omega), show hi - n - delays.length = 0 by omega] at hy
          rw [middle_none hlo, if_neg hup]
          have hgreatest : bin.greatest = x := by
            obtain rfl | ⟨front, d, rfl⟩ := List.eq_nil_or_concat' delays
            · exact absurd rfl hbin.ne_nil
            · rw [hbin.last hdelays]
              rw [List.length_append, List.length_singleton] at hcount
              rw [List.getElem?_append_right (by omega),
                show lo - n - front.length = 0 by omega] at hx
              exact Option.some.inj hx
          cases hrest with
          | nil => cases hy
          | @cons later next delays' rest' bins' hnext hlater' hrest' _ =>
              obtain _ | ⟨d, delays'⟩ := delays'
              · exact absurd rfl hnext.ne_nil
              · have hd : d / 1000000 = later := hlater' d List.mem_cons_self
                have hearlier : second < later := hd ▸ hlater d List.mem_cons_self
                have hpos : next.count = delays'.length + 1 := hnext.count
                rw [middle_upper hearlier (by omega), hgreatest,
                  hnext.head (List.pairwise_append.mp hrests).1]
                obtain rfl : d = y := Option.some.inj hy
                exact .exactly second
      · rw [middle_pass (by omega) (by omega)]
        rw [List.getElem?_append_right (by omega)] at hx hy
        refine ih hrests (by omega) ?_ ?_
        · rwa [hcount, Nat.sub_add_eq]
        · rwa [hcount, Nat.sub_add_eq]

/-- The second of the mean is the same. -/
theorem Found.second {x y : Int} {r : Option (Int × Int) × Int} (h : Found x y r) :
    ((r.1.map Prod.fst).getD r.2 + r.2) / 2000000 = (x + y) / 2000000 ∧
      (r.1.map Prod.fst).getD r.2 + r.2 ≤ x + y ∧
      (0 ≤ x → 0 ≤ y → 0 ≤ (r.1.map Prod.fst).getD r.2 ∧ 0 ≤ r.2) := by
  cases h with
  | exactly second => exact ⟨rfl, le_rfl, fun hx hy => ⟨hx, hy⟩⟩
  | @within second hx hy =>
      show (second * 1000000 + second * 1000000) / 2000000 = (x + y) / 2000000 ∧
        second * 1000000 + second * 1000000 ≤ x + y ∧
        (0 ≤ x → 0 ≤ y → 0 ≤ second * 1000000 ∧ 0 ≤ second * 1000000)
      omega

/-! ## The mean as a float -/

theorem lt_largest {q : ℚ} (h : q < 2 ^ 53) : q < 2 ^ 1023 :=
  h.trans (pow_lt_pow_right₀ one_lt_two (by decide))

theorem is_ofInt {n : Int} (hn : 0 ≤ n) (hmax : n < 2 ^ 53) : Ieee.Is (Float.ofInt n) n := by
  obtain ⟨m, rfl⟩ := Int.eq_ofNat_of_zero_le hn
  have hm : m < 2 ^ 53 := by exact_mod_cast hmax
  have h := Ieee.Is.ofScientific_whole (lt_largest (show (m : ℚ) < 2 ^ 53 by exact_mod_cast hm))
  rw [Ieee.round64_natCast hm.le] at h
  exact_mod_cast h

theorem is_million : Ieee.Is (2000000.0 : Float) 2000000 := by
  have h := Ieee.Is.ofScientific_fraction (m := 20000000) (k := 1) one_pos
    (lt_largest (by norm_num))
  rw [show ((20000000 : Nat) : ℚ) / 10 ^ 1 = (2000000 : Nat) by norm_num,
    Ieee.round64_natCast (by norm_num)] at h
  exact_mod_cast h

theorem duration_mean {a b : Int} (ha : 0 ≤ a) (hb : 0 ≤ b) (h : a + b < 2 ^ 53) :
    duration ((Float.ofInt a + Float.ofInt b) / 2000000.0) =
      durationText ((a + b) / 2000000) := by
  obtain ⟨m, hm⟩ := Int.eq_ofNat_of_zero_le (Int.add_nonneg ha hb)
  have hm53 : m < 2 ^ 53 := by omega
  have hcast : (a : ℚ) + b = m := by exact_mod_cast congrArg (Int.cast (R := ℚ)) hm
  have hsmall : (m : ℚ) < 2 ^ 53 := by exact_mod_cast hm53
  have hsum : Ieee.Is (Float.ofInt a + Float.ofInt b) m := by
    have := (is_ofInt ha (by omega)).add (is_ofInt hb (by omega))
      (lt_largest (hcast ▸ hsmall))
    rwa [hcast, Ieee.round64_natCast hm53.le] at this
  have hdiv := hsum.div is_million (by norm_num)
    (lt_largest (lt_of_le_of_lt (div_le_self (Nat.cast_nonneg m) (by norm_num)) hsmall))
  have hfloor : ⌊Ieee.round64 ((m : ℚ) / 2000000)⌋ = ((m / 2000000 : Nat) : Int) := by
    exact_mod_cast Ieee.floor_round64_div hm53 (d := 2000000) (by norm_num) (by norm_num)
  have hlt : Ieee.round64 ((m : ℚ) / 2000000) < 2 ^ 63 := by
    have : (m / 2000000 : Nat) < 2 ^ 53 := lt_of_le_of_lt (Nat.div_le_self _ _) hm53
    refine (Int.lt_floor_add_one _).trans ?_
    rw [hfloor]
    exact_mod_cast (show (m / 2000000 : Nat) + 1 < 2 ^ 63 by omega)
  rw [duration, hdiv.toI64 hlt, hfloor, hm]
  rfl

/-! ## The median -/

/-- The continuous median: the mean of the two middle delays. -/
def median (l : List Int) : ℚ :=
  let s := l.insertionSort (· ≤ ·)
  ((s.getD ((l.length - 1) / 2) 0 + s.getD (l.length / 2) 0 : Int) : ℚ) / 2

theorem floor_median {x y : Int} : ⌊((x + y : Int) : ℚ) / 2 / 1000000⌋ = (x + y) / 2000000 := by
  rw [div_div, show (2 : ℚ) * 1000000 = ((2000000 : Int) : ℚ) by norm_num]
  exact Rat.floor_intCast_div_natCast (x + y) 2000000

/-- **The median of the bins is that of the delays**, in whole seconds, as long as a float can
tell the two middle delays from their neighbours. -/
theorem median_of_bins (l : List Int) (hne : l ≠ []) (hsecond : ∀ d ∈ l, 1000000 ≤ d)
    (hmedian : median l < 2 ^ 52) :
    (l.foldl Delays.add {}).formatted.2 = durationText ⌊median l / 1000000⌋ := by
  obtain ⟨hkeeps, hcount⟩ := Delays.kept l fun d hd => le_trans (by decide) (hsecond d hd)
  have hlen : 0 < l.length := List.length_pos_iff.mpr hne
  have hsorted : (l.insertionSort (· ≤ ·)).length = l.length := List.length_insertionSort _ l
  obtain ⟨x, hx⟩ : ∃ x, (l.insertionSort (· ≤ ·))[(l.length - 1) / 2]? = some x :=
    ⟨_, List.getElem?_eq_getElem (by omega)⟩
  obtain ⟨y, hy⟩ : ∃ y, (l.insertionSort (· ≤ ·))[l.length / 2]? = some y :=
    ⟨_, List.getElem?_eq_getElem (by omega)⟩
  have hmean : median l = ((x + y : Int) : ℚ) / 2 := by
    show (((l.insertionSort (· ≤ ·)).getD _ 0 + (l.insertionSort (· ≤ ·)).getD _ 0 : Int) : ℚ) / 2 =
        _
    rw [List.getD_eq_getElem?_getD, List.getD_eq_getElem?_getD, hx, hy]
    rfl
  have hxmem := hsecond x ((List.mem_insertionSort _).mp (List.mem_of_getElem? hx))
  have hymem := hsecond y ((List.mem_insertionSort _).mp (List.mem_of_getElem? hy))
  have hsum : x + y < 2 ^ 53 := by
    rw [hmean, div_lt_iff₀ two_pos] at hmedian
    exact_mod_cast lt_of_lt_of_eq hmedian (by norm_num : (2 : ℚ) ^ 52 * 2 = ((2 ^ 53 : Int) : ℚ))
  have hfound := middle_found hkeeps (List.pairwise_insertionSort _ l) (Nat.zero_le _)
    (show (l.length - 1) / 2 ≤ l.length / 2 by omega) (by omega) hx hy
  obtain ⟨hdiv, hle, hnonneg⟩ := hfound.second
  obtain ⟨ha, hb⟩ := hnonneg (le_trans (by decide) hxmem) (le_trans (by decide) hymem)
  rw [hmean, floor_median, ← hdiv, ← duration_mean ha hb (by omega)]
  unfold Delays.formatted
  rw [if_neg (by omega), hcount]

theorem median_of_two_minutes :
    ([53900000, 66100000].foldl Delays.add {}).formatted.2 =
      durationText ⌊median [53900000, 66100000] / 1000000⌋ :=
  median_of_bins [53900000, 66100000] (by decide) (by decide) (by decide +kernel)

/-- Two delays of more than 142 years. The sum is rounded to a full minute. -/
theorem median_of_centuries :
    (∀ d ∈ [4503599638000000, 4503599641999999], (1000000 : Int) ≤ d ∧ d < 2 ^ 63) ∧
      ([4503599638000000, 4503599641999999].foldl Delays.add {}).formatted.2 ≠
        durationText ⌊median [4503599638000000, 4503599641999999] / 1000000⌋ := by
  constructor <;> decide +kernel

end YoinkCore.Stats
