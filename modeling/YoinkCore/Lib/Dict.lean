import Mathlib

/-!
# Dictionaries

Association lists with what a hash map also does: drop the entries that fail a test, change
the value of a key in place, and count its keys.
-/

namespace YoinkCore.Lib

abbrev Dict (κ α : Type) := AList fun _ : κ => α

namespace Dict

variable {κ α : Type} {d : Dict κ α} {k k' : κ}

def retain (p : κ → α → Bool) (d : Dict κ α) : Dict κ α :=
  ⟨d.entries.filter fun e => p e.1 e.2, d.nodupKeys.sublist List.filter_sublist⟩

def size (d : Dict κ α) : Nat := d.keys.length

variable [DecidableEq κ]

def modify (k : κ) (f : α → α) (d : Dict κ α) : Dict κ α :=
  match d.lookup k with
  | some a => d.insert k (f a)
  | none => d

theorem lookup_insert_eq (k' k : κ) (a : α) (d : Dict κ α) :
    (d.insert k a).lookup k' = if k' = k then some a else d.lookup k' := by
  by_cases h : k' = k
  · subst h
    rw [AList.lookup_insert, if_pos rfl]
  · rw [AList.lookup_insert_ne h, if_neg h]

theorem lookup_erase_eq (k' k : κ) (d : Dict κ α) :
    (d.erase k).lookup k' = if k' = k then none else d.lookup k' := by
  by_cases h : k' = k
  · subst h
    rw [AList.lookup_erase, if_pos rfl]
  · rw [AList.lookup_erase_ne h, if_neg h]

theorem lookup_modify (k' k : κ) (f : α → α) (d : Dict κ α) :
    (d.modify k f).lookup k' = if k' = k then (d.lookup k).map f else d.lookup k' := by
  unfold modify
  cases hk : d.lookup k with
  | none =>
      by_cases h : k' = k
      · rw [if_pos h, h, hk]
        rfl
      · rw [if_neg h]
  | some a => exact lookup_insert_eq k' k (f a) d

/-- Changes of other keys leave the value of a key. -/
theorem lookup_foldl_modify {f : α → α} {l : List (Sigma fun _ : κ => α)}
    (h : ∀ e ∈ l, e.1 ≠ k) :
    (l.foldl (fun d e => modify e.1 f d) d).lookup k = d.lookup k := by
  induction l generalizing d with
  | nil => rfl
  | cons e rest ih =>
      rw [List.foldl_cons, ih fun e' he' => h e' (List.mem_cons_of_mem _ he'), lookup_modify,
        if_neg (h e List.mem_cons_self).symm]

theorem mem_retain {p : κ → α → Bool} {a : α} :
    (d.retain p).lookup k = some a ↔ d.lookup k = some a ∧ p k a = true := by
  have hmem : ∀ {d : Dict κ α}, d.lookup k = some a ↔ ⟨k, a⟩ ∈ d.entries :=
    AList.mem_lookup_iff
  rw [hmem, hmem]
  exact List.mem_filter

/-- An entry with a property is a key whose value has it. -/
theorem any_entries {p : (Sigma fun _ : κ => α) → Bool} :
    d.entries.any p = true ↔ ∃ k a, d.lookup k = some a ∧ p ⟨k, a⟩ = true := by
  rw [List.any_eq_true]
  constructor
  · rintro ⟨⟨k, a⟩, hmem, hp⟩
    exact ⟨k, a, AList.mem_lookup_iff.mpr hmem, hp⟩
  · rintro ⟨k, a, hlookup, hp⟩
    exact ⟨⟨k, a⟩, AList.mem_lookup_iff.mp hlookup, hp⟩

omit [DecidableEq κ] in
theorem size_retain_le (p : κ → α → Bool) (d : Dict κ α) : (d.retain p).size ≤ d.size :=
  (List.filter_sublist.map _).length_le

theorem size_erase_le (k : κ) (d : Dict κ α) : size (d.erase k) ≤ d.size := by
  unfold size
  rw [AList.keys_erase]
  exact List.erase_sublist.length_le

theorem size_insert_le (k : κ) (a : α) (d : Dict κ α) : size (d.insert k a) ≤ d.size + 1 := by
  unfold size
  rw [AList.keys_insert]
  exact Nat.succ_le_succ List.erase_sublist.length_le

/-- A key that is there already is not counted twice. -/
theorem size_insert_of_mem (h : (d.lookup k).isSome = true) (a : α) :
    size (d.insert k a) = d.size := by
  have hk : k ∈ d.keys := AList.lookup_isSome.mp h
  unfold size
  rw [AList.keys_insert, List.length_cons, List.length_erase_of_mem hk]
  exact Nat.succ_pred_eq_of_pos (List.length_pos_of_mem hk)

theorem size_insert_of_new (h : d.lookup k = none) (a : α) :
    size (d.insert k a) = d.size + 1 := by
  unfold size
  rw [AList.keys_insert, List.length_cons, List.erase_of_not_mem (AList.lookup_eq_none.mp h)]

theorem size_erase_of_mem (h : (d.lookup k).isSome = true) : size (d.erase k) + 1 = d.size := by
  have hk : k ∈ d.keys := AList.lookup_isSome.mp h
  unfold size
  rw [AList.keys_erase, List.length_erase_of_mem hk]
  exact Nat.succ_pred_eq_of_pos (List.length_pos_of_mem hk)

theorem size_modify (k : κ) (f : α → α) (d : Dict κ α) : size (d.modify k f) = d.size := by
  unfold modify
  split
  · rename_i h
    exact size_insert_of_mem (by rw [h]; rfl) _
  · rfl

end Dict

end YoinkCore.Lib
