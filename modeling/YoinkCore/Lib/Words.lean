import YoinkCore.Lib.Text

/-!
# Words

A text read word by word. The first word of a text that does not begin with white space is cut off
by the first white space.
-/

namespace YoinkCore.Lib.Text

/-- `str::split_whitespace` -/
def splitWhitespace (t : Str) : List Str := (t.splitOnP isWhitespace).filter fun w => !w.isEmpty

theorem splitWhitespace_space {c : Char} (h : isWhitespace c = true) (t : Str) :
    splitWhitespace (c :: t) = splitWhitespace t := by
  rw [splitWhitespace, List.splitOnP_cons_eq_if_modifyHead, if_pos h]
  rfl

theorem splitWhitespace_word {w rest : Str} (hne : w ≠ []) (hw : ∀ c ∈ w, isWhitespace c = false)
    (hrest : ∀ c, rest.head? = some c → isWhitespace c = true) :
    splitWhitespace (w ++ rest) = w :: splitWhitespace rest := by
  have hkeep : (!w.isEmpty) = true := by simpa using hne
  cases rest with
  | nil =>
      rw [List.append_nil, splitWhitespace, List.splitOnP_eq_singleton hw, List.filter_cons,
        if_pos hkeep]
      rfl
  | cons c rest =>
      have hc := hrest c rfl
      rw [splitWhitespace_space hc, splitWhitespace,
        List.splitOnP_append_cons_of_forall_mem hw c hc, List.filter_cons, if_pos hkeep,
        splitWhitespace]

/-- The part before the first white space. -/
def firstWord (t : Str) : Str := t.takeWhile fun c => !isWhitespace c

theorem firstWord_not_space {t : Str} {c : Char} (h : c ∈ firstWord t) :
    isWhitespace c = false := by
  simpa using List.mem_takeWhile_imp h

/-- The words of a trimmed text. -/
theorem splitWhitespace_trim {t : Str} (h : trim t ≠ []) : ∃ rest,
    trim t = firstWord (trim t) ++ rest ∧ firstWord (trim t) ≠ [] ∧
      splitWhitespace (trim t) = firstWord (trim t) :: splitWhitespace rest := by
  have hrest : ∀ c, ((trim t).dropWhile fun c => !isWhitespace c).head? = some c →
      isWhitespace c = true := by
    intro c hc
    have hnot := List.head?_dropWhile_not (fun c => !isWhitespace c) (trim t)
    rw [hc] at hnot
    simpa using hnot
  have hne : firstWord (trim t) ≠ [] := by
    cases htrim : trim t with
    | nil => exact absurd htrim h
    | cons c rest =>
        have hstart := List.head?_dropWhile_not isWhitespace t
        rw [head_rdropWhile htrim] at hstart
        have hc : (!isWhitespace c) = true := by simpa using hstart
        rw [firstWord, List.takeWhile_cons, if_pos hc]
        exact List.cons_ne_nil _ _
  have hsplit : trim t = firstWord (trim t) ++ (trim t).dropWhile fun c => !isWhitespace c :=
    List.takeWhile_append_dropWhile.symm
  refine ⟨_, hsplit, hne, ?_⟩
  conv_lhs => rw [hsplit]
  exact splitWhitespace_word hne (fun c hc => firstWord_not_space hc) hrest

end YoinkCore.Lib.Text
