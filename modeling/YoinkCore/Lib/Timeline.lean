import Mathlib

/-!
# Pieces laid end to end

Pieces with a duration follow one another from an offset on. Those that meet a window are one run of
them, which covers the window, and no part of the run does.
-/

namespace YoinkCore.Lib

/-- A piece, and where it was laid. -/
structure Placed (α R : Type) where
  item : α
  offset : R
  duration : R

namespace Timeline

variable {α R : Type} [AddCommGroup R] [LinearOrder R] [IsOrderedAddMonoid R]

def total (pieces : List (α × R)) : R := (pieces.map Prod.snd).sum

/-- The pieces from an offset on. -/
def place (offset : R) : List (α × R) → List (Placed α R)
  | [] => []
  | (item, duration) :: pieces =>
      ⟨item, offset, duration⟩ :: place (offset + duration) pieces

/-- The piece has an instant in common with the window. -/
def Meets (start stop : R) (p : Placed α R) : Prop :=
  p.offset < stop ∧ start < p.offset + p.duration

/-- From the offset on the pieces last over the window. -/
def Covers (start stop offset : R) (pieces : List (α × R)) : Prop :=
  offset ≤ start ∧ stop ≤ offset + total pieces

omit [LinearOrder R] [IsOrderedAddMonoid R] in
@[simp] theorem total_nil : total ([] : List (α × R)) = 0 := rfl

omit [LinearOrder R] [IsOrderedAddMonoid R] in
@[simp] theorem total_cons (p : α × R) (pieces : List (α × R)) :
    total (p :: pieces) = p.2 + total pieces := List.sum_cons

omit [LinearOrder R] [IsOrderedAddMonoid R] in
@[simp] theorem total_append (xs ys : List (α × R)) : total (xs ++ ys) = total xs + total ys := by
  simp [total]

omit [LinearOrder R] [IsOrderedAddMonoid R] in
theorem place_append (offset : R) (xs ys : List (α × R)) :
    place offset (xs ++ ys) = place offset xs ++ place (offset + total xs) ys := by
  induction xs generalizing offset with
  | nil => simp [place]
  | cons x xs ih =>
      rw [List.cons_append, place, place, ih, total_cons, List.cons_append, add_assoc]

theorem total_nonneg {pieces : List (α × R)} (h : ∀ p ∈ pieces, 0 < p.2) : 0 ≤ total pieces := by
  induction pieces with
  | nil => exact le_refl _
  | cons p pieces ih =>
      rw [total_cons]
      exact add_nonneg (h p List.mem_cons_self).le (ih fun q hq => h q (List.mem_cons_of_mem _ hq))

variable {offset start stop : R}

/-- A piece is not laid before the first one. -/
theorem le_offset {pieces : List (α × R)} (h : ∀ p ∈ pieces, 0 < p.2) {p : Placed α R}
    (hp : p ∈ place offset pieces) : offset ≤ p.offset ∧ 0 < p.duration := by
  induction pieces generalizing offset with
  | nil => cases hp
  | cons q pieces ih =>
      rcases List.mem_cons.mp hp with rfl | hp
      · exact ⟨le_refl _, h q List.mem_cons_self⟩
      · obtain ⟨hle, hpos⟩ := ih (fun q hq => h q (List.mem_cons_of_mem _ hq)) hp
        exact ⟨le_trans (le_add_of_nonneg_right (h q List.mem_cons_self).le) hle, hpos⟩

/-! ## The run over a window -/

/-- A run of pieces is exactly what meets the window: the pieces before it end before the window
begins, those behind it begin when the window has ended; it covers the window, and no part of it
does. -/
structure RunOver (start stop offset : R) (pieces pre run post : List (α × R)) : Prop where
  split : pieces = pre ++ run ++ post
  before : ∀ p ∈ place offset pre, p.offset + p.duration ≤ start
  meets : ∀ p ∈ place (offset + total pre) run, Meets start stop p
  after : ∀ p ∈ place (offset + total pre + total run) post, stop ≤ p.offset
  covers : Covers start stop (offset + total pre) run
  minimal : ∀ a part b, run = a ++ part ++ b →
    Covers start stop (offset + total pre + total a) part → a = [] ∧ b = []

omit [IsOrderedAddMonoid R] in
/-- The pieces that end before the window begins. -/
theorem exists_before {pieces : List (α × R)} (hoffset : offset ≤ start)
    (hend : start < offset + total pieces) : ∃ pre p rest, pieces = pre ++ p :: rest ∧
      (∀ q ∈ place offset pre, q.offset + q.duration ≤ start) ∧ offset + total pre ≤ start ∧
      start < offset + total pre + p.2 := by
  induction pieces generalizing offset with
  | nil =>
      rw [total_nil, add_zero] at hend
      exact absurd hend (not_lt.mpr hoffset)
  | cons p pieces ih =>
      by_cases hp : start < offset + p.2
      · exact ⟨[], p, pieces, rfl, nofun, by simpa using hoffset, by simpa using hp⟩
      · rw [total_cons, ← add_assoc] at hend
        obtain ⟨pre, q, rest, rfl, hbefore, hle, hlt⟩ := ih (not_lt.mp hp) hend
        refine ⟨p :: pre, q, rest, rfl, ?_, ?_, ?_⟩
        · intro q hq
          rcases List.mem_cons.mp hq with rfl | hq
          · exact not_lt.mp hp
          · exact hbefore q hq
        · rwa [total_cons, ← add_assoc]
        · rwa [total_cons, ← add_assoc]

/-- The pieces that begin before the window has ended. -/
theorem exists_until {pieces : List (α × R)} (hpos : ∀ p ∈ pieces, 0 < p.2)
    (hend : stop ≤ offset + total pieces) : ∃ run post, pieces = run ++ post ∧
      (∀ p ∈ place offset run, p.offset < stop) ∧
      (∀ p ∈ place (offset + total run) post, stop ≤ p.offset) ∧ stop ≤ offset + total run := by
  induction pieces generalizing offset with
  | nil => exact ⟨[], [], rfl, nofun, nofun, hend⟩
  | cons p pieces ih =>
      have hrest : ∀ q ∈ pieces, 0 < q.2 := fun q hq => hpos q (List.mem_cons_of_mem _ hq)
      by_cases hp : offset < stop
      · rw [total_cons, ← add_assoc] at hend
        obtain ⟨run, post, rfl, hrun, hpost, hcovered⟩ := ih hrest hend
        refine ⟨p :: run, post, rfl, ?_, ?_, ?_⟩
        · intro q hq
          rcases List.mem_cons.mp hq with rfl | hq
          · exact hp
          · exact hrun q hq
        · rwa [total_cons, ← add_assoc]
        · rwa [total_cons, ← add_assoc]
      · refine ⟨[], p :: pieces, rfl, nofun, ?_, by simpa using not_lt.mp hp⟩
        intro q hq
        rw [total_nil, add_zero] at hq
        exact le_trans (not_lt.mp hp) (le_offset hpos hq).1

/-- **A window that the pieces reach over has its run.** -/
theorem exists_run {pieces : List (α × R)} (hpos : ∀ p ∈ pieces, 0 < p.2)
    (hoffset : offset ≤ start) (hwindow : start < stop) (hend : stop ≤ offset + total pieces) :
    ∃ pre run post, RunOver start stop offset pieces pre run post := by
  obtain ⟨pre, p, rest, rfl, hbefore, hle, hlt⟩ :=
    exists_before hoffset (lt_of_lt_of_le hwindow hend)
  have hrest : ∀ q ∈ p :: rest, 0 < q.2 := fun q hq => hpos q (List.mem_append_right _ hq)
  rw [total_append, ← add_assoc] at hend
  obtain ⟨run, post, hsplit, hrun, hpost, hcovered⟩ := exists_until hrest hend
  have hne : run ≠ [] := by
    rintro rfl
    rw [total_nil, add_zero] at hcovered
    exact absurd (lt_of_lt_of_le hwindow hcovered) (not_lt.mpr hle)
  obtain ⟨q, run, rfl⟩ := List.exists_cons_of_ne_nil hne
  obtain ⟨rfl, rfl⟩ := List.cons.inj hsplit
  have hpositive : ∀ q ∈ run, 0 < q.2 := fun q hq =>
    hrest q (List.mem_cons_of_mem _ (List.mem_append_left _ hq))
  refine ⟨pre, p :: run, post, ?_, hbefore, ?_, hpost, ⟨hle, hcovered⟩, ?_⟩
  · rw [List.append_assoc]
    rfl
  · intro q hq
    refine ⟨hrun q hq, ?_⟩
    rcases List.mem_cons.mp hq with rfl | hq
    · exact hlt
    · obtain ⟨hfirst, hduration⟩ := le_offset hpositive hq
      exact lt_of_lt_of_le hlt (le_trans hfirst (le_add_of_nonneg_right hduration.le))
  · intro a part b hparts hcovers
    constructor
    · -- without the first piece the window begins too early
      cases a with
      | nil => rfl
      | cons q a =>
          obtain ⟨rfl, hrest'⟩ := List.cons.inj hparts
          have htotal : 0 ≤ total a := total_nonneg fun q hq => hpositive q
            (hrest' ▸ List.mem_append_left _ (List.mem_append_left _ hq))
          have hle' := hcovers.1
          rw [total_cons, ← add_assoc] at hle'
          exact absurd (lt_of_lt_of_le hlt (le_trans (le_add_of_nonneg_right htotal) hle'))
            (lt_irrefl _)
    · -- without the last piece it ends too late
      cases b with
      | nil => rfl
      | cons q b =>
          have hmem : (⟨q.1, offset + total pre + total (a ++ part), q.2⟩ : Placed α R) ∈
              place (offset + total pre) (p :: run) := by
            rw [hparts, place_append]
            exact List.mem_append_right _ List.mem_cons_self
          have hbegins := hrun _ hmem
          have hends := hcovers.2
          rw [add_assoc, ← total_append] at hends
          exact absurd (lt_of_lt_of_le hbegins hends) (lt_irrefl _)

omit [IsOrderedAddMonoid R] in
/-- The run is what meets the window. -/
theorem RunOver.filter_place {pieces pre run post : List (α × R)}
    (h : RunOver start stop offset pieces pre run post)
    [DecidablePred (Meets (α := α) start stop)] :
    (place offset pieces).filter (fun p => decide (Meets start stop p)) =
      place (offset + total pre) run := by
  rw [h.split, place_append, place_append, total_append, ← add_assoc, List.filter_append,
    List.filter_append]
  have hbefore : (place offset pre).filter (fun p => decide (Meets start stop p)) = [] := by
    refine List.filter_eq_nil_iff.mpr fun p hp hmeets => ?_
    exact absurd (of_decide_eq_true hmeets).2 (not_lt.mpr (h.before p hp))
  have hmeets : (place (offset + total pre) run).filter (fun p => decide (Meets start stop p)) =
      place (offset + total pre) run :=
    List.filter_eq_self.mpr fun p hp => decide_eq_true (h.meets p hp)
  have hafter : (place (offset + total pre + total run) post).filter
      (fun p => decide (Meets start stop p)) = [] := by
    refine List.filter_eq_nil_iff.mpr fun p hp hmeets => ?_
    exact absurd (of_decide_eq_true hmeets).1 (not_lt.mpr (h.after p hp))
  rw [hbefore, hmeets, hafter, List.nil_append, List.append_nil]

end Timeline

end YoinkCore.Lib
