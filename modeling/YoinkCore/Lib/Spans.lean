import Mathlib

/-!
# Spans

Half-open intervals of a linear order in lists sorted by their starts: merging those that
touch, looking for a position with a cursor that only moves forward, and what is left of an
interval between them.
-/

namespace YoinkCore.Lib

variable {α : Type} [LinearOrder α]

/-- A position in one of the spans. -/
def Covers (spans : List (α × α)) (x : α) : Prop := ∃ s ∈ spans, s.1 ≤ x ∧ x < s.2

instance (spans : List (α × α)) (x : α) : Decidable (Covers spans x) :=
  inferInstanceAs (Decidable (∃ s ∈ spans, s.1 ≤ x ∧ x < s.2))

def SortedByStart (spans : List (α × α)) : Prop := spans.Pairwise fun a b => a.1 ≤ b.1

/-- The order of pairs. -/
def SpanLe (a b : α × α) : Prop := a.1 < b.1 ∨ (a.1 = b.1 ∧ a.2 ≤ b.2)

instance : DecidableRel (SpanLe (α := α)) := fun _ _ =>
  inferInstanceAs (Decidable (_ ∨ (_ ∧ _)))

instance : Std.Total (SpanLe (α := α)) where
  total a b := by
    rcases lt_trichotomy a.1 b.1 with h | h | h
    · exact .inl (.inl h)
    · rcases le_total a.2 b.2 with h' | h'
      · exact .inl (.inr ⟨h, h'⟩)
      · exact .inr (.inr ⟨h.symm, h'⟩)
    · exact .inr (.inl h)

instance : IsTrans (α × α) SpanLe where
  trans a b c hab hbc := by
    rcases hab with hab | ⟨hab, hab'⟩ <;> rcases hbc with hbc | ⟨hbc, hbc'⟩
    · exact .inl (hab.trans hbc)
    · exact .inl (hbc ▸ hab)
    · exact .inl (hab ▸ hbc)
    · exact .inr ⟨hab.trans hbc, hab'.trans hbc'⟩

/-- `sort_unstable` of pairs. -/
def sortSpans (spans : List (α × α)) : List (α × α) := spans.insertionSort SpanLe

/-! ## Covering -/

@[simp] theorem covers_nil (x : α) : ¬ Covers [] x := by simp [Covers]

@[simp] theorem covers_cons {s : α × α} {spans : List (α × α)} {x : α} :
    Covers (s :: spans) x ↔ (s.1 ≤ x ∧ x < s.2) ∨ Covers spans x := by
  simp [Covers]

@[simp] theorem covers_append {spans others : List (α × α)} {x : α} :
    Covers (spans ++ others) x ↔ Covers spans x ∨ Covers others x := by
  simp [Covers, or_and_right, exists_or]

theorem covers_of_mem_iff {spans others : List (α × α)} (h : ∀ s, s ∈ spans ↔ s ∈ others)
    {x : α} : Covers spans x ↔ Covers others x := by
  simp only [Covers, h]

@[simp] theorem mem_sortSpans {spans : List (α × α)} {s : α × α} :
    s ∈ sortSpans spans ↔ s ∈ spans := List.mem_insertionSort _

@[simp] theorem covers_sortSpans {spans : List (α × α)} {x : α} :
    Covers (sortSpans spans) x ↔ Covers spans x :=
  covers_of_mem_iff fun _ => mem_sortSpans

theorem sorted_sortSpans (spans : List (α × α)) : SortedByStart (sortSpans spans) := by
  refine (List.pairwise_insertionSort SpanLe spans).imp fun {a b} h => ?_
  rcases h with h | ⟨h, -⟩
  · exact h.le
  · exact h.le

/-- Spans that start later do not cover a position. -/
theorem not_covers_of_start {spans : List (α × α)} {x : α} (h : ∀ s ∈ spans, x < s.1) :
    ¬ Covers spans x := by
  rintro ⟨s, hs, hle, -⟩
  exact absurd (h s hs) (not_lt.mpr hle)

/-! ## Merging -/

/-- Merge sorted spans into a last one, as long as they touch it. -/
def mergeInto (last : α × α) : List (α × α) → List (α × α)
  | [] => [last]
  | s :: spans =>
      if s.1 ≤ last.2 then mergeInto (last.1, max last.2 s.2) spans
      else last :: mergeInto s spans

def mergeSpans : List (α × α) → List (α × α)
  | [] => []
  | s :: spans => mergeInto s spans

theorem covers_mergeInto {spans : List (α × α)} {last : α × α} {x : α}
    (h : SortedByStart (last :: spans)) :
    Covers (mergeInto last spans) x ↔ Covers (last :: spans) x := by
  induction spans generalizing last with
  | nil => rfl
  | cons s spans ih =>
      obtain ⟨hlast, hs, hspans⟩ : (∀ a ∈ s :: spans, last.1 ≤ a.1) ∧
          (∀ a ∈ spans, s.1 ≤ a.1) ∧ SortedByStart spans := by
        obtain ⟨h₁, h₂⟩ := List.pairwise_cons.mp h
        obtain ⟨h₂, h₃⟩ := List.pairwise_cons.mp h₂
        exact ⟨h₁, h₂, h₃⟩
      rw [mergeInto]
      split
      · rename_i htouch
        have hsorted : SortedByStart ((last.1, max last.2 s.2) :: spans) :=
          List.pairwise_cons.mpr ⟨fun a ha => hlast a (List.mem_cons_of_mem _ ha), hspans⟩
        rw [ih hsorted]
        simp only [covers_cons, ← or_assoc]
        refine or_congr_left ⟨fun ⟨hle, hlt⟩ => ?_, fun hx => ?_⟩
        · rcases lt_max_iff.mp hlt with hlt | hlt
          · exact .inl ⟨hle, hlt⟩
          · rcases lt_or_ge x last.2 with hx | hx
            · exact .inl ⟨hle, hx⟩
            · exact .inr ⟨htouch.trans hx, hlt⟩
        · rcases hx with ⟨hle, hlt⟩ | ⟨hle, hlt⟩
          · exact ⟨hle, lt_max_of_lt_left hlt⟩
          · exact ⟨(hlast s List.mem_cons_self).trans hle, lt_max_of_lt_right hlt⟩
      · rw [covers_cons, covers_cons, ih (List.pairwise_cons.mpr ⟨hs, hspans⟩)]

/-- Merging keeps what is covered. -/
theorem covers_mergeSpans {spans : List (α × α)} {x : α} (h : SortedByStart spans) :
    Covers (mergeSpans spans) x ↔ Covers spans x := by
  cases spans with
  | nil => rfl
  | cons s spans => exact covers_mergeInto h

theorem sorted_mergeInto {spans : List (α × α)} {last : α × α}
    (h : SortedByStart (last :: spans)) :
    SortedByStart (mergeInto last spans) ∧ ∀ a ∈ mergeInto last spans, last.1 ≤ a.1 := by
  induction spans generalizing last with
  | nil => exact ⟨List.pairwise_singleton _ _, fun a ha => (List.mem_singleton.mp ha ▸ le_rfl)⟩
  | cons s spans ih =>
      obtain ⟨hlast, hs⟩ := List.pairwise_cons.mp h
      obtain ⟨hs, hspans⟩ := List.pairwise_cons.mp hs
      rw [mergeInto]
      split
      · exact @ih (last.1, max last.2 s.2) <|
          List.pairwise_cons.mpr ⟨fun a ha => hlast a (List.mem_cons_of_mem _ ha), hspans⟩
      · obtain ⟨ih, hge⟩ := ih (List.pairwise_cons.mpr ⟨hs, hspans⟩)
        have hle := hlast s List.mem_cons_self
        refine ⟨List.pairwise_cons.mpr ⟨fun a ha => hle.trans (hge a ha), ih⟩, fun a ha => ?_⟩
        rcases List.mem_cons.mp ha with rfl | ha
        · exact le_rfl
        · exact hle.trans (hge a ha)

theorem sorted_mergeSpans {spans : List (α × α)} (h : SortedByStart spans) :
    SortedByStart (mergeSpans spans) := by
  cases spans with
  | nil => exact List.Pairwise.nil
  | cons s spans => exact (sorted_mergeInto h).1

/-! ## A cursor -/

/-- The spans from the first that has not ended before the position. -/
def seek (x : α) (spans : List (α × α)) : List (α × α) :=
  spans.dropWhile fun s => decide (s.2 ≤ x)

/-- The first of the spans has begun. -/
def begun (x : α) (spans : List (α × α)) : Bool := spans.head?.any fun s => decide (s.1 ≤ x)

theorem sorted_seek {spans : List (α × α)} (h : SortedByStart spans) (x : α) :
    SortedByStart (seek x spans) := h.sublist (List.dropWhile_sublist _)

/-- What the cursor has passed covers no later position. -/
theorem covers_seek {spans : List (α × α)} {x y : α} (h : x ≤ y) :
    Covers (seek x spans) y ↔ Covers spans y := by
  induction spans with
  | nil => rfl
  | cons s spans ih =>
      by_cases hs : s.2 ≤ x
      · rw [seek, List.dropWhile_cons_of_pos (by simpa using hs), covers_cons]
        have hpast : ¬ (s.1 ≤ y ∧ y < s.2) := fun hc => absurd (hs.trans h) (not_le.mpr hc.2)
        exact ih.trans ⟨.inr, fun hc => hc.resolve_left hpast⟩
      · rw [seek, List.dropWhile_cons_of_neg (by simpa using hs)]

/-- **The cursor is exact.** The first span that has not ended decides whether any span
covers the position. -/
theorem begun_seek {spans : List (α × α)} (h : SortedByStart spans) (x : α) :
    begun x (seek x spans) = true ↔ Covers spans x := by
  rw [← covers_seek (le_refl x)]
  have hsorted := sorted_seek h x
  cases hs : seek x spans with
  | nil => simp [begun]
  | cons s rest =>
      have hopen : x < s.2 := by
        have := List.head?_dropWhile_not (fun s : α × α => decide (s.2 ≤ x)) spans
        rw [show spans.dropWhile (fun s : α × α => decide (s.2 ≤ x)) = s :: rest from hs] at this
        simpa using this
      rw [hs] at hsorted
      have hstart := (List.pairwise_cons.mp hsorted).1
      rw [covers_cons]
      constructor
      · intro hb
        exact .inl ⟨by simpa [begun] using hb, hopen⟩
      · rintro (⟨hle, -⟩ | ⟨t, ht, hle, -⟩)
        · simpa [begun] using hle
        · simpa [begun] using (hstart t ht).trans hle

/-! ## Gaps -/

/-- What is left of an interval between spans, from a cursor on. -/
def gaps (cursor stop : α) : List (α × α) → List (α × α)
  | [] => if cursor < stop then [(cursor, stop)] else []
  | s :: spans =>
      if cursor < s.1 then (cursor, min s.1 stop) :: gaps (max cursor s.2) stop spans
      else gaps (max cursor s.2) stop spans

/-- The gaps cover what the spans do not. -/
theorem covers_gaps {spans : List (α × α)} (h : SortedByStart spans) {cursor stop x : α} :
    Covers (gaps cursor stop spans) x ↔ (cursor ≤ x ∧ x < stop) ∧ ¬ Covers spans x := by
  induction spans generalizing cursor with
  | nil =>
      rw [gaps]
      split
      · simp
      · rename_i hc
        simp only [covers_nil, not_false_eq_true, and_true, false_iff]
        exact fun hx => hc (hx.1.trans_lt hx.2)
  | cons s spans ih =>
      obtain ⟨hs, hspans⟩ := List.pairwise_cons.mp h
      have hrest : Covers (gaps (max cursor s.2) stop spans) x ↔
          (max cursor s.2 ≤ x ∧ x < stop) ∧ ¬ Covers spans x := ih hspans
      have hlater : x < s.1 → ¬ Covers spans x := fun hx =>
        not_covers_of_start fun t ht => hx.trans_le (hs t ht)
      rw [gaps]
      split
      · rename_i hc
        rw [covers_cons, covers_cons, hrest, lt_min_iff, max_le_iff, not_or, not_and, not_lt]
        constructor
        · rintro (⟨hcx, hx, hxs⟩ | ⟨⟨⟨hcx, hx⟩, hxs⟩, hn⟩)
          · exact ⟨⟨hcx, hxs⟩, fun hle => absurd hle (not_le.mpr hx), hlater hx⟩
          · exact ⟨⟨hcx, hxs⟩, fun _ => hx, hn⟩
        · rintro ⟨⟨hcx, hxs⟩, hout, hn⟩
          rcases lt_or_ge x s.1 with hx | hx
          · exact .inl ⟨hcx, hx, hxs⟩
          · exact .inr ⟨⟨⟨hcx, hout hx⟩, hxs⟩, hn⟩
      · rename_i hc
        rw [covers_cons, hrest, max_le_iff, not_or, not_and, not_lt]
        constructor
        · rintro ⟨⟨⟨hcx, hx⟩, hxs⟩, hn⟩
          exact ⟨⟨hcx, hxs⟩, fun _ => hx, hn⟩
        · rintro ⟨⟨hcx, hxs⟩, hout, hn⟩
          exact ⟨⟨⟨hcx, hout ((not_lt.mp hc).trans hcx)⟩, hxs⟩, hn⟩

/-- Spans that start at the end of an interval or later leave its gaps as they are. -/
theorem covers_takeWhile {spans : List (α × α)} (h : SortedByStart spans) {stop x : α}
    (hx : x < stop) :
    Covers (spans.takeWhile fun s => decide (s.1 < stop)) x ↔ Covers spans x := by
  induction spans with
  | nil => rfl
  | cons s spans ih =>
      obtain ⟨hs, hspans⟩ := List.pairwise_cons.mp h
      by_cases hlt : s.1 < stop
      · rw [List.takeWhile_cons_of_pos (by simpa using hlt), covers_cons, covers_cons, ih hspans]
      · rw [List.takeWhile_cons_of_neg (by simpa using hlt)]
        refine iff_of_false (covers_nil x) (not_covers_of_start fun t ht => ?_)
        have hle := not_lt.mp hlt
        rcases List.mem_cons.mp ht with rfl | ht
        · exact hx.trans_le hle
        · exact hx.trans_le (hle.trans (hs t ht))

end YoinkCore.Lib
