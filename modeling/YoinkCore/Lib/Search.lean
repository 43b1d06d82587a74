import Mathlib

/-!
# Searching a text for a pattern

A search finds a pattern from left to right: at each position the preferred match, and
behind a match it goes on at its end. Occurrences that begin inside a match that was
found are passed over. `mem_findIter` says which occurrences a search finds, and
`reached_iff_not_hidden` says it of the occurrences alone.
-/

namespace YoinkCore.Lib

variable {α : Type}

/-- A pattern: the lengths it has at the front of a text, the preferred one first. No
match is empty or longer than the text. -/
structure Matcher (α : Type) where
  lengths : List α → List Nat
  bounded : ∀ text, ∀ n ∈ lengths text, 0 < n ∧ n ≤ text.length

/-- A piece of a text, with what stands on both sides of it. -/
structure Piece (α : Type) where
  before : List α
  found : List α
  after : List α
deriving DecidableEq

namespace Piece

def text (x : Piece α) : List α := x.before ++ x.found ++ x.after

/-- The first piece begins before the second one and ends behind its beginning. -/
def Overtakes (y x : Piece α) : Prop :=
  y.before.length < x.before.length ∧ x.before.length < y.before.length + y.found.length

/-- What stands between the beginnings of the two pieces is a part of the first one. -/
theorem Overtakes.between {y x : Piece α} (h : y.Overtakes x) (ht : y.text = x.text) :
    ∃ front rest, front ≠ [] ∧ y.found = front ++ rest ∧ x.before = y.before ++ front := by
  have heq : y.before ++ (y.found ++ y.after) = x.before ++ (x.found ++ x.after) := by
    rw [← List.append_assoc, ← List.append_assoc]
    exact ht
  obtain ⟨front, hfront⟩ : y.before <+: x.before :=
    List.prefix_of_prefix_length_le ⟨_, heq⟩ ⟨_, rfl⟩ (Nat.le_of_lt h.1)
  have hlen : x.before.length = y.before.length + front.length := by
    rw [← hfront, List.length_append]
  rw [← hfront, List.append_assoc, List.append_cancel_left_eq] at heq
  obtain ⟨rest, hrest⟩ : front <+: y.found := by
    refine List.prefix_of_prefix_length_le ⟨_, heq.symm⟩ ⟨_, rfl⟩ ?_
    have hgt := h.2
    omega
  refine ⟨front, rest, ?_, hrest.symm, hfront.symm⟩
  rintro rfl
  rw [List.length_nil] at hlen
  exact absurd h.1 (by omega)

end Piece

namespace Matcher

variable (m : Matcher α)

/-- The piece is an occurrence of the pattern. -/
def Occurs (x : Piece α) : Prop := x.found.length ∈ m.lengths (x.found ++ x.after)

/-- The occurrence a search prefers at its position. -/
def Preferred (x : Piece α) : Prop :=
  (m.lengths (x.found ++ x.after)).head? = some x.found.length

/-- The successive matches in `text`, after `skip` characters of it. `before` is what
was read. -/
def findIter (before : List α) : List α → Nat → List (Piece α)
  | [], _ => []
  | c :: rest, skip + 1 => findIter (before ++ [c]) rest skip
  | c :: rest, 0 =>
      match (m.lengths (c :: rest)).head? with
      | none => findIter (before ++ [c]) rest 0
      | some n =>
          ⟨before, (c :: rest).take n, (c :: rest).drop n⟩ :: findIter (before ++ [c]) rest (n - 1)

/-- A search of `text` comes to the position between the two parts. -/
inductive Reached (text : List α) : List α → List α → Prop
  | start : Reached text [] text
  | pass {before rest : List α} {c : α} :
      Reached text before (c :: rest) → m.lengths (c :: rest) = [] →
      Reached text (before ++ [c]) rest
  | found {x : Piece α} :
      Reached text x.before (x.found ++ x.after) → m.Preferred x →
      Reached text (x.before ++ x.found) x.after

variable {m}

theorem Preferred.occurs {x : Piece α} (h : m.Preferred x) : m.Occurs x :=
  List.mem_of_mem_head? h

theorem Occurs.ne_nil {x : Piece α} (h : m.Occurs x) : x.found ≠ [] := by
  intro he
  have hpos := (m.bounded _ _ h).1
  rw [he] at hpos
  exact Nat.lt_irrefl 0 hpos

theorem Reached.append {text before rest : List α} (h : m.Reached text before rest) :
    before ++ rest = text := by
  induction h with
  | start => rfl
  | pass _ _ ih => rw [← ih, List.append_assoc, List.singleton_append]
  | found _ _ ih => rw [← ih, List.append_assoc]

/-! ## What a search finds -/

/-- Skipped characters are read without a match. -/
theorem findIter_skip (before x rest : List α) :
    m.findIter before (x ++ rest) x.length = m.findIter (before ++ x) rest 0 := by
  induction x generalizing before with
  | nil => rw [List.append_nil, List.nil_append, List.length_nil]
  | cons c x ih =>
      rw [List.cons_append, List.length_cons, findIter, ih, List.append_assoc,
        List.singleton_append]

theorem findIter_pass {before rest : List α} {c : α} (h : m.lengths (c :: rest) = []) :
    m.findIter before (c :: rest) 0 = m.findIter (before ++ [c]) rest 0 := by
  rw [findIter, h]
  rfl

theorem findIter_found {x : Piece α} (h : m.Preferred x) :
    m.findIter x.before (x.found ++ x.after) 0 =
      x :: m.findIter (x.before ++ x.found) x.after 0 := by
  obtain ⟨c, found, hx⟩ := List.exists_cons_of_ne_nil h.occurs.ne_nil
  have hh : (m.lengths (c :: (found ++ x.after))).head? = some (found.length + 1) := by
    have := h
    rwa [Preferred, hx] at this
  obtain ⟨before, found', after⟩ := x
  obtain rfl : found' = c :: found := hx
  rw [List.cons_append, findIter, hh]
  show _ :: m.findIter _ _ (found.length + 1 - 1) = _
  rw [Nat.add_sub_cancel, findIter_skip, List.append_assoc, List.singleton_append,
    ← List.cons_append, ← List.length_cons (a := c), List.take_left, List.drop_left]

/-- From a position the search comes to, it finds what it finds in the whole text. -/
theorem Reached.findIter_suffix {text before rest : List α} (h : m.Reached text before rest) :
    m.findIter before rest 0 <:+ m.findIter [] text 0 := by
  induction h with
  | start => exact List.suffix_refl _
  | pass _ hl ih => exact findIter_pass hl ▸ ih
  | found _ hp ih =>
      rw [findIter_found hp] at ih
      exact (List.suffix_cons _ _).trans ih

theorem reached_of_mem_findIter {text : List α} {x : Piece α} {rest before : List α} {skip : Nat}
    (hs : skip ≤ rest.length)
    (hr : m.Reached text (before ++ rest.take skip) (rest.drop skip))
    (h : x ∈ m.findIter before rest skip) :
    m.Reached text x.before (x.found ++ x.after) ∧ m.Preferred x := by
  induction rest generalizing before skip with
  | nil => cases h
  | cons c rest ih =>
      cases skip with
      | succ skip =>
          refine ih (Nat.le_of_succ_le_succ hs) ?_ h
          rwa [List.append_assoc, List.singleton_append, ← List.take_succ_cons]
      | zero =>
          rw [List.take_zero, List.append_nil, List.drop_zero] at hr
          cases hh : (m.lengths (c :: rest)).head? with
          | none =>
              rw [List.head?_eq_none_iff] at hh
              rw [findIter_pass hh] at h
              refine ih (Nat.zero_le _) ?_ h
              rw [List.take_zero, List.append_nil, List.drop_zero]
              exact hr.pass hh
          | some n =>
              obtain ⟨hpos, hle⟩ := m.bounded _ _ (List.mem_of_mem_head? hh)
              let y : Piece α := ⟨before, (c :: rest).take n, (c :: rest).drop n⟩
              have hlen : y.found.length = n := List.length_take_of_le hle
              have hy : y.found ++ y.after = c :: rest := List.take_append_drop n (c :: rest)
              have hp : m.Preferred y := by
                rw [Preferred, hy, hh, hlen]
              have hry : m.Reached text y.before (y.found ++ y.after) := hy ▸ hr
              rw [← hy, show before = y.before from rfl, findIter_found hp,
                List.mem_cons] at h
              rcases h with rfl | h
              · exact ⟨hry, hp⟩
              · obtain ⟨k, rfl⟩ : ∃ k, n = k + 1 := ⟨n - 1, by omega⟩
                refine @ih (before ++ [c]) k (Nat.le_of_succ_le_succ hle) ?_ ?_
                · rw [List.append_assoc, List.singleton_append]
                  exact hry.found hp
                · rw [← findIter_skip, hlen, hy] at h
                  exact h

/-- **A search finds the preferred occurrences at the positions it comes to, and no
others.** -/
theorem mem_findIter {text : List α} {x : Piece α} :
    x ∈ m.findIter [] text 0 ↔
      m.Reached text x.before (x.found ++ x.after) ∧ m.Preferred x := by
  constructor
  · exact reached_of_mem_findIter (Nat.zero_le _) .start
  · rintro ⟨hr, hp⟩
    have hmem := hr.findIter_suffix.subset
    rw [findIter_found hp] at hmem
    exact hmem List.mem_cons_self

/-! ## Matches do not overlap -/

theorem start_of_mem_findIter {x : Piece α} {rest before : List α} {skip : Nat}
    (h : x ∈ m.findIter before rest skip) : before.length + skip ≤ x.before.length := by
  induction rest generalizing before skip with
  | nil => cases h
  | cons c rest ih =>
      have hlen : (before ++ [c]).length = before.length + 1 := List.length_append
      cases skip with
      | succ skip =>
          have hle := ih h
          omega
      | zero =>
          rw [findIter] at h
          split at h
          · have hle := ih h
            omega
          · rcases List.mem_cons.mp h with rfl | h
            · exact Nat.le_refl _
            · have hle := ih h
              omega

/-- Each match of a search ends before the next one begins. -/
theorem findIter_ordered {rest before : List α} {skip : Nat} :
    (m.findIter before rest skip).Pairwise fun y x =>
      y.before.length + y.found.length ≤ x.before.length := by
  induction rest generalizing before skip with
  | nil => exact .nil
  | cons c rest ih =>
      cases skip with
      | succ skip => exact ih
      | zero =>
          rw [findIter]
          split
          · exact ih
          · rename_i n hn
            obtain ⟨hpos, hle⟩ := m.bounded _ _ (List.mem_of_mem_head? hn)
            refine .cons ?_ ih
            intro x hx
            have hstart := start_of_mem_findIter hx
            have hlen : (before ++ [c]).length = before.length + 1 := List.length_append
            have hfound : ((c :: rest).take n).length = n := List.length_take_of_le hle
            dsimp only
            omega

theorem not_overtakes_of_mem {text : List α} {x y : Piece α} (hx : x ∈ m.findIter [] text 0)
    (hy : y ∈ m.findIter [] text 0) : ¬ y.Overtakes x := by
  let Apart (y x : Piece α) : Prop := ¬ y.Overtakes x ∧ ¬ x.Overtakes y
  have : Std.Symm Apart := ⟨fun _ _ h => h.symm⟩
  have hself : ∀ x : Piece α, Apart x x := fun x =>
    ⟨fun h => Nat.lt_irrefl _ h.1, fun h => Nat.lt_irrefl _ h.1⟩
  have hord : (m.findIter [] text 0).Pairwise Apart := by
    refine findIter_ordered.imp ?_
    intro y x hle
    exact ⟨fun h => absurd h.2 (Nat.not_lt.mpr hle), fun h => absurd h.1 (by omega)⟩
  exact (List.Pairwise.forall_of_forall (fun x _ => hself x) hord hy hx).1

/-- A search comes to every position that none of its matches overtakes. -/
theorem Reached.advance {text before mid : List α} {x : Piece α}
    (h : m.Reached text before (mid ++ (x.found ++ x.after))) (hb : before ++ mid = x.before)
    (hfree : ∀ y : Piece α, m.Reached text y.before (y.found ++ y.after) → m.Preferred y →
      ¬ y.Overtakes x) : m.Reached text x.before (x.found ++ x.after) := by
  induction hn : mid.length using Nat.strongRecOn generalizing before mid with
  | ind n ih =>
      cases mid with
      | nil =>
          rw [List.append_nil] at hb
          exact hb ▸ h
      | cons c mid =>
          cases hh : (m.lengths (c :: (mid ++ (x.found ++ x.after)))).head? with
          -- nothing is found here: the search goes on with the next element
          | none =>
              have hpass := h.pass (List.head?_eq_none_iff.mp hh)
              refine ih mid.length ?_ hpass ?_ rfl
              · rw [← hn]
                exact Nat.lt_succ_self _
              · rw [List.append_assoc, List.singleton_append, hb]
          | some k =>
              obtain ⟨hpos, hle⟩ := m.bounded _ _ (List.mem_of_mem_head? hh)
              -- what is found here must end before the piece, or it would overtake it
              let y : Piece α := ⟨before, ((c :: mid) ++ (x.found ++ x.after)).take k,
                ((c :: mid) ++ (x.found ++ x.after)).drop k⟩
              have hy : y.found ++ y.after = (c :: mid) ++ (x.found ++ x.after) :=
                List.take_append_drop k _
              have hlen : y.found.length = k := List.length_take_of_le hle
              have hp : m.Preferred y := by
                rw [Preferred, hy, hlen]
                exact hh
              have hry : m.Reached text y.before (y.found ++ y.after) := hy ▸ h
              have hxlen : x.before.length = before.length + (c :: mid).length := by
                rw [← hb, List.length_append]
              have hshort : k ≤ (c :: mid).length := by
                by_contra hlong
                refine hfree y hry hp ⟨?_, ?_⟩
                · rw [hxlen]
                  exact Nat.lt_add_of_pos_right (Nat.succ_pos _)
                · rw [hlen, hxlen]
                  exact Nat.add_lt_add_left (Nat.not_le.mp hlong) _
              have hfound : y.found = (c :: mid).take k := List.take_append_of_le_length hshort
              have hafter : y.after = (c :: mid).drop k ++ (x.found ++ x.after) :=
                List.drop_append_of_le_length hshort
              have hnext := hry.found hp
              rw [hafter] at hnext
              refine ih ((c :: mid).drop k).length ?_ hnext ?_ rfl
              · rw [← hn, List.length_drop]
                exact Nat.sub_lt (Nat.succ_pos _) hpos
              · rw [hfound, List.append_assoc, List.take_append_drop, ← hb]

/-- **A search looks at an occurrence exactly if it is the preferred one of its position
and no match of the search overtakes it.** -/
theorem reached_iff {text : List α} {x : Piece α} (ht : x.text = text) (hp : m.Preferred x) :
    m.Reached text x.before (x.found ++ x.after) ↔
      ∀ y : Piece α, m.Reached text y.before (y.found ++ y.after) → m.Preferred y →
        ¬ y.Overtakes x := by
  constructor
  · intro hx y hy hpy
    exact not_overtakes_of_mem (mem_findIter.mpr ⟨hx, hp⟩) (mem_findIter.mpr ⟨hy, hpy⟩)
  · have hstart : m.Reached text [] (x.before ++ (x.found ++ x.after)) := by
      rw [← List.append_assoc, ← Piece.text, ht]
      exact .start
    exact hstart.advance (List.nil_append _)

/-! ## Occurrences that are passed over -/

variable (m)

/-- No occurrence at the same position is longer. -/
def Longest (x : Piece α) : Prop :=
  m.Occurs x ∧ ∀ y : Piece α, m.Occurs y → y.text = x.text → y.before = x.before →
    y.found.length ≤ x.found.length

/-- One of the longest occurrences overtakes the piece, and is not hidden itself. -/
def Hidden (x : Piece α) : Prop :=
  ∃ (y : Piece α) (_ : y.Overtakes x), m.Longest y ∧ y.text = x.text ∧ ¬ Hidden y
termination_by x.before.length
decreasing_by exact (by assumption : Piece.Overtakes _ _).1

/-- No occurrence overtakes it, and none at the same position is longer. -/
def Clear (x : Piece α) : Prop :=
  m.Longest x ∧ ∀ y : Piece α, m.Occurs y → y.text = x.text → ¬ y.Overtakes x

/-- The longest match of a position is tried first. -/
def Greedy : Prop :=
  ∀ text n, (m.lengths text).head? = some n → ∀ k ∈ m.lengths text, k ≤ n

variable {m}

theorem hidden_iff {x : Piece α} : m.Hidden x ↔
    ∃ y : Piece α, y.Overtakes x ∧ m.Longest y ∧ y.text = x.text ∧ ¬ m.Hidden y := by
  rw [Hidden]
  simp only [exists_prop]

theorem Clear.not_hidden {x : Piece α} (h : m.Clear x) : ¬ m.Hidden x := by
  rw [hidden_iff]
  rintro ⟨y, hover, hlongest, htext, -⟩
  exact h.2 y hlongest.1 htext hover

/-- The match that is tried first is the longest occurrence. -/
theorem preferred_iff_longest (hm : m.Greedy) {x : Piece α} : m.Preferred x ↔ m.Longest x := by
  constructor
  · intro hp
    refine ⟨hp.occurs, ?_⟩
    intro y hy htext hbefore
    have hrest : y.found ++ y.after = x.found ++ x.after := by
      rw [Piece.text, Piece.text, List.append_assoc, List.append_assoc, hbefore] at htext
      exact List.append_cancel_left htext
    refine hm _ _ hp _ ?_
    rw [← hrest]
    exact hy
  · rintro ⟨hocc, hlongest⟩
    obtain ⟨n, hn⟩ : ∃ n, (m.lengths (x.found ++ x.after)).head? = some n :=
      Option.isSome_iff_exists.mp (List.isSome_head?.mpr (List.ne_nil_of_mem hocc))
    have hmem : n ∈ m.lengths (x.found ++ x.after) := List.mem_of_mem_head? hn
    let y : Piece α := ⟨x.before, (x.found ++ x.after).take n, (x.found ++ x.after).drop n⟩
    have hy : y.found ++ y.after = x.found ++ x.after := List.take_append_drop _ _
    have hlen : y.found.length = n := List.length_take_of_le (m.bounded _ _ hmem).2
    have hyocc : m.Occurs y := by
      rw [Occurs, hy, hlen]
      exact hmem
    have htext : y.text = x.text := by
      rw [Piece.text, Piece.text, List.append_assoc, List.append_assoc, hy]
    have hle : n ≤ x.found.length := hlen ▸ hlongest y hyocc htext rfl
    rw [Preferred, hn, Nat.le_antisymm hle (hm _ _ hn _ hocc)]

/-- **A greedy search finds the longest occurrences that are not hidden.** By induction on
where the occurrence begins. -/
theorem reached_iff_not_hidden (hm : m.Greedy) {text : List α} {x : Piece α} (ht : x.text = text)
    (hx : m.Longest x) : m.Reached text x.before (x.found ++ x.after) ↔ ¬ m.Hidden x := by
  induction hn : x.before.length using Nat.strongRecOn generalizing x with
  | ind n ih =>
      rw [reached_iff ht ((preferred_iff_longest hm).mpr hx), hidden_iff]
      constructor
      · rintro hfree ⟨y, hover, hlongest, htext, hy⟩
        have hreached := (ih _ (hn ▸ hover.1) (htext.trans ht) hlongest rfl).mpr hy
        exact hfree y hreached ((preferred_iff_longest hm).mpr hlongest) hover
      · intro hclear y hreached hpreferred hover
        have htext : y.text = text := by
          rw [Piece.text, List.append_assoc]
          exact hreached.append
        have hlongest := (preferred_iff_longest hm).mp hpreferred
        exact hclear ⟨y, hover, hlongest, htext.trans ht.symm,
          (ih _ (hn ▸ hover.1) htext hlongest rfl).mp hreached⟩

end Matcher

end YoinkCore.Lib
