import Mathlib

/-!
# Framing

A stream is cut at a separator. What stands behind the last separator waits for more of the
stream, so the frames of a stream are the same in whatever pieces it arrives.
-/

namespace YoinkCore.Lib.Framing

variable {α : Type} [DecidableEq α] {sep : α}

/-- The frames that have ended, and what stands behind them. -/
def frames (sep : α) : List α → List (List α) × List α
  | [] => ([], [])
  | a :: stream =>
      let (ended, rest) := frames sep stream
      if a = sep then ([] :: ended, rest)
      else match ended with
        | [] => ([], a :: rest)
        | frame :: more => ((a :: frame) :: more, rest)

theorem frames_sep (sep : α) (stream : List α) :
    frames sep (sep :: stream) = ([] :: (frames sep stream).1, (frames sep stream).2) :=
  if_pos rfl

/-- The first frame begins with the element, or what is left over does. -/
theorem frames_cons {x : α} (hx : x ≠ sep) (stream : List α) :
    ((frames sep stream).1 = [] ∧
      frames sep (x :: stream) = ([], x :: (frames sep stream).2)) ∨
    ∃ frame more, (frames sep stream).1 = frame :: more ∧
      frames sep (x :: stream) = ((x :: frame) :: more, (frames sep stream).2) := by
  have heq : frames sep (x :: stream) =
      match (frames sep stream).1 with
      | [] => ([], x :: (frames sep stream).2)
      | frame :: more => ((x :: frame) :: more, (frames sep stream).2) := if_neg hx
  cases hs : (frames sep stream).1 with
  | nil => exact .inl ⟨rfl, by rw [heq, hs]⟩
  | cons frame more => exact .inr ⟨frame, more, rfl, by rw [heq, hs]⟩

/-- **Pieces.** Later frames begin with what the earlier part of the stream left over. -/
theorem frames_append (a b : List α) :
    frames sep (a ++ b) =
      ((frames sep a).1 ++ (frames sep ((frames sep a).2 ++ b)).1,
        (frames sep ((frames sep a).2 ++ b)).2) := by
  induction a with
  | nil => rfl
  | cons x stream ih =>
      rw [List.cons_append]
      by_cases hx : x = sep
      · subst hx
        rw [frames_sep, frames_sep, ih]
        rfl
      · rcases frames_cons hx stream with ⟨hnil, heq⟩ | ⟨frame, more, hcons, heq⟩
        · rw [hnil, List.nil_append] at ih
          rw [heq, List.nil_append, List.cons_append]
          rcases frames_cons hx (stream ++ b) with ⟨hb, hbeq⟩ | ⟨frame, more, hb, hbeq⟩
          all_goals
            rcases frames_cons hx ((frames sep stream).2 ++ b) with
              ⟨hr, hreq⟩ | ⟨frame', more', hr, hreq⟩
          · rw [hbeq, hreq, ih]
          · rw [ih, hr] at hb
            cases hb
          · rw [ih, hr] at hb
            cases hb
          · rw [hbeq, hreq, ih]
            rw [ih, hr] at hb
            obtain ⟨rfl, rfl⟩ := List.cons.inj hb
            rfl
        · rw [heq]
          rw [hcons, List.cons_append] at ih
          rcases frames_cons hx (stream ++ b) with ⟨hb, -⟩ | ⟨frame', more', hb, hbeq⟩
          · rw [ih] at hb
            cases hb
          · rw [hbeq, ih]
            rw [ih] at hb
            obtain ⟨rfl, rfl⟩ := List.cons.inj hb
            rfl

/-- The stream is its frames, each behind its separator, and the rest. -/
theorem flatMap_frames (sep : α) (a : List α) :
    (frames sep a).1.flatMap (· ++ [sep]) ++ (frames sep a).2 = a := by
  induction a with
  | nil => rfl
  | cons x stream ih =>
      by_cases hx : x = sep
      · subst hx
        rw [frames_sep, List.flatMap_cons, List.nil_append, List.append_assoc, ih]
        rfl
      · rcases frames_cons hx stream with ⟨hnil, heq⟩ | ⟨frame, more, hcons, heq⟩
        · rw [hnil] at ih
          rw [heq]
          exact congrArg (x :: ·) ih
        · rw [hcons] at ih
          rw [heq]
          exact congrArg (x :: ·) ih

theorem sep_not_mem (sep : α) (a : List α) :
    (∀ frame ∈ (frames sep a).1, sep ∉ frame) ∧ sep ∉ (frames sep a).2 := by
  induction a with
  | nil => exact ⟨fun _ h => absurd h List.not_mem_nil, List.not_mem_nil⟩
  | cons x stream ih =>
      by_cases hx : x = sep
      · subst hx
        rw [frames_sep]
        exact ⟨List.forall_mem_cons.mpr ⟨List.not_mem_nil, ih.1⟩, ih.2⟩
      · have hne : sep ≠ x := Ne.symm hx
        rcases frames_cons hx stream with ⟨-, heq⟩ | ⟨frame, more, hcons, heq⟩
        · rw [heq]
          exact ⟨fun _ h => absurd h List.not_mem_nil, List.not_mem_cons_of_ne_of_not_mem hne ih.2⟩
        · rw [hcons] at ih
          rw [heq]
          have hmore := List.forall_mem_cons.mp ih.1
          exact ⟨List.forall_mem_cons.mpr
            ⟨List.not_mem_cons_of_ne_of_not_mem hne hmore.1, hmore.2⟩, ih.2⟩

theorem frames_of_not_mem {a : List α} (h : sep ∉ a) : frames sep a = ([], a) := by
  induction a with
  | nil => rfl
  | cons x stream ih =>
      have hx : x ≠ sep := Ne.symm (List.ne_of_not_mem_cons h)
      have ih := ih (List.not_mem_of_not_mem_cons h)
      rcases frames_cons hx stream with ⟨-, heq⟩ | ⟨frame, more, hcons, -⟩
      · rw [heq, ih]
      · rw [ih] at hcons
        cases hcons

theorem frames_line {frame : List α} (h : sep ∉ frame) (b : List α) :
    frames sep (frame ++ sep :: b) = (frame :: (frames sep b).1, (frames sep b).2) := by
  rw [frames_append, frames_of_not_mem h]
  induction frame with
  | nil => exact frames_sep sep b
  | cons x frame ih =>
      have hx : x ≠ sep := Ne.symm (List.ne_of_not_mem_cons h)
      have ih := ih (List.not_mem_of_not_mem_cons h)
      simp only [List.nil_append, Prod.mk.injEq] at ih ⊢
      rw [List.cons_append]
      rcases frames_cons hx (frame ++ sep :: b) with ⟨hnil, -⟩ | ⟨frame', more, hcons, heq⟩
      · rw [hnil] at ih
        cases ih.1
      · rw [hcons] at ih
        obtain ⟨rfl, rfl⟩ := List.cons.inj ih.1
        exact ⟨congrArg Prod.fst heq, (congrArg Prod.snd heq).trans ih.2⟩

/-- Whole frames leave nothing over. -/
theorem frames_flatMap {ls : List (List α)} (h : ∀ frame ∈ ls, sep ∉ frame) :
    frames sep (ls.flatMap (· ++ [sep])) = (ls, []) := by
  induction ls with
  | nil => rfl
  | cons frame ls ih =>
      simp only [List.mem_cons, forall_eq_or_imp] at h
      rw [List.flatMap_cons, List.append_assoc, List.singleton_append, frames_line h.1, ih h.2]

/-- A stream can be taken apart around any of its frames. -/
theorem split_at_frame {a : List α} {before after : List (List α)} {frame : List α}
    (h : (frames sep a).1 = before ++ frame :: after) :
    ∃ front back, a = front ++ ((frame ++ [sep]) ++ back) ∧ frames sep front = (before, []) ∧
      frames sep (frame ++ [sep]) = ([frame], []) := by
  have hmem := (sep_not_mem sep a).1
  have hjoin := flatMap_frames sep a
  rw [h] at hmem hjoin
  refine ⟨before.flatMap (· ++ [sep]), after.flatMap (· ++ [sep]) ++ (frames sep a).2, ?_,
    frames_flatMap fun f hf => hmem f (List.mem_append_left _ hf), ?_⟩
  · refine hjoin.symm.trans ?_
    simp only [List.flatMap_append, List.flatMap_cons, List.append_assoc]
  · exact frames_line (hmem frame (List.mem_append_right _ List.mem_cons_self)) []

end YoinkCore.Lib.Framing
