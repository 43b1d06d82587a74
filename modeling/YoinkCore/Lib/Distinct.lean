import Mathlib

/-!
# The first distinct elements

A list is collected element by element: one that is new is added while there is room. What comes
out are the first distinct elements, in the order in which they occur first.
-/

namespace YoinkCore.Lib

variable {α : Type} [DecidableEq α]

def addNew (max : Nat) (found : List α) (a : α) : List α :=
  if !found.contains a && decide (found.length < max) then found ++ [a] else found

theorem addNew_of_mem {max : Nat} {found : List α} {a : α} (h : a ∈ found) :
    addNew max found a = found := by
  rw [addNew, List.contains_iff_mem.mpr h]
  rfl

theorem addNew_of_full {max : Nat} {found : List α} (a : α) (h : max ≤ found.length) :
    addNew max found a = found := by
  rw [addNew, decide_eq_false (Nat.not_lt.mpr h), Bool.and_false]
  rfl

theorem addNew_of_new {max : Nat} {found : List α} {a : α} (h : a ∉ found)
    (hroom : found.length < max) : addNew max found a = found ++ [a] := by
  rw [addNew, if_pos]
  simpa using ⟨h, hroom⟩

/-- **What is collected** are the first distinct elements that were not there, up to the bound. -/
theorem foldl_addNew (max : Nat) (l found : List α) : l.foldl (addNew max) found =
    found ++ ((l.filter fun a => !found.contains a).eraseDups).take (max - found.length) := by
  induction l generalizing found with
  | nil => simp
  | cons a l ih =>
      rw [List.foldl_cons]
      by_cases hmem : a ∈ found
      · have hdrop : (!found.contains a) = false := by simpa using hmem
        rw [addNew_of_mem hmem, ih, List.filter_cons, hdrop, if_neg (by simp)]
      · have hkeep : (!found.contains a) = true := by simpa using hmem
        rw [List.filter_cons, if_pos hkeep, List.eraseDups_cons]
        rcases Nat.lt_or_ge found.length max with hroom | hfull
        · have hsucc : max - found.length = (max - (found ++ [a]).length) + 1 := by
            rw [List.length_append, List.length_singleton]
            omega
          have hfilter : (l.filter fun b => !found.contains b).filter (fun b => !b == a) =
              l.filter fun b => !(found ++ [a]).contains b := by
            rw [List.filter_filter]
            refine List.filter_congr fun b _ => ?_
            by_cases hb : b = a <;> by_cases hb' : b ∈ found <;> simp [hb, hb']
          rw [addNew_of_new hmem hroom, ih, hsucc, List.take_succ_cons, hfilter]
          simp
        · rw [addNew_of_full a hfull, ih, Nat.sub_eq_zero_of_le hfull, List.take_zero,
            List.take_zero]

theorem nodup_eraseDups (l : List α) : l.eraseDups.Nodup := by
  induction hn : l.length using Nat.strongRecOn generalizing l with
  | ind n ih =>
      cases l with
      | nil => exact List.nodup_nil
      | cons a l =>
          rw [List.eraseDups_cons, List.nodup_cons]
          have hle := List.length_filter_le (fun b => !b == a) l
          rw [List.length_cons] at hn
          refine ⟨fun hmem => ?_, ih _ (by omega) _ rfl⟩
          have hne := (List.mem_filter.mp (List.mem_eraseDups.mp hmem)).2
          simp at hne

end YoinkCore.Lib
