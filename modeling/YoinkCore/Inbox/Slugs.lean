import YoinkCore.Inbox.CatalogueEdits
import YoinkCore.Inbox.Teams
import YoinkCore.Lib.Written

/-!
# Slugs

A slug is one of a user: folders, categories and teams have at most 64 characters of it, and
no two rows of an owner have the same. `unique_slug` tries nineteen candidates and falls back
on one that it does not look up; imported lists are numbered until one is free, whatever its
length.

The three tables are one kind of table here, `SlugColumns`.
-/

namespace YoinkCore.Inbox

open Lib

/-! ## Tables with slugs -/

/-- The columns of a table with slugs, and its other constraints. -/
structure SlugColumns {ρ : Type} (S : Schema ρ) where
  id : ρ → Int
  owner : ρ → Int
  slug : ρ → String
  others : Schema ρ
  check_eq : ∀ r, S.check r = (others.check r && decide ((slug r).length ≤ 64))
  clash_eq : ∀ a b, S.clash a b = (others.clash a b || (owner a = owner b && slug a = slug b))
  clash_id : ∀ a b, id a = id b → others.clash a b = true

namespace SlugColumns

variable {ρ : Type} {S : Schema ρ} (C : SlugColumns S)

/-- `SELECT id FROM … WHERE owner=? AND slug=? AND id<>?` -/
def taken (rows : List ρ) (owner : Int) (exclude : Option Int) (slug : String) : Bool :=
  rows.any fun r => C.owner r = owner && C.slug r = slug && C.id r ≠ exclude.getD (-1)

/-- `SELECT id FROM … WHERE user_id=? AND slug=?` -/
def inUse (rows : List ρ) (owner : Int) (slug : String) : Bool :=
  rows.any fun r => C.owner r = owner && C.slug r = slug

/-- A slug is short enough, and that of no other row of the owner. -/
structure Keeps (rows : List ρ) (owner : Int) (exclude : Option Int) (slug : String) : Prop where
  short : slug.length ≤ 64
  free : ∀ r ∈ rows, C.owner r = owner → C.slug r = slug → exclude = some (C.id r)

/-- The rows that a row with the slug makes of a table: a new one, or one that is written
over. -/
inductive Writes (rows : List ρ) (owner : Int) (slug : String) : Option Int → List ρ → Prop
  | insert {r : ρ} (howner : C.owner r = owner) (hslug : C.slug r = slug) :
      Writes rows owner slug none (rows ++ [r])
  | update {id : Int} {f : ρ → ρ} (hid : ∀ r, C.id (f r) = C.id r)
      (howner : ∀ r, C.owner (f r) = C.owner r) (hslug : ∀ r, C.slug (f r) = slug) :
      Writes rows owner slug (some id)
        (rows.map fun r => if C.id r = id && C.owner r = owner then f r else r)

/-- The constraints on slugs alone refuse the rows. -/
def Fault (rows : List ρ) : Prop :=
  Table.ofRows S rows = none ∧ Table.ofRows C.others rows ≠ none

/-- The rows were numbered from one on. -/
structure Content where
  table : Table S
  positive : ∀ r ∈ table.rows, 0 < C.id r

variable {exclude : Option Int} {owner : Int}

theorem taken_eq_true {rows : List ρ} {slug : String} :
    C.taken rows owner exclude slug = true ↔
      ∃ r ∈ rows, C.owner r = owner ∧ C.slug r = slug ∧ C.id r ≠ exclude.getD (-1) := by
  simp only [taken, List.any_eq_true, Bool.and_eq_true, decide_eq_true_eq, ne_eq, and_assoc,
    decide_not, Bool.not_eq_true', decide_eq_false_iff_not]

/-- The lookup finds the other rows. No row has the number that stands for none. -/
theorem Content.taken_eq_false (t : C.Content) {slug : String} (hlen : slug.length ≤ 64) :
    C.taken t.table.rows owner exclude slug = false ↔
      C.Keeps t.table.rows owner exclude slug := by
  rw [Bool.eq_false_iff, ne_eq, taken_eq_true]
  constructor
  · intro h
    refine ⟨hlen, fun r hr howner hslug => ?_⟩
    have hid : C.id r = exclude.getD (-1) := by
      by_contra hid
      exact h ⟨r, hr, howner, hslug, hid⟩
    have hpos := t.positive r hr
    cases exclude with
    | none => exact absurd hid (by simp only [Option.getD_none]; omega)
    | some id => rw [hid]; rfl
  · rintro ⟨-, hfree⟩ ⟨r, hr, howner, hslug, hid⟩
    rw [hfree r hr howner hslug] at hid
    exact hid rfl

theorem inUse_eq_true {rows : List ρ} {slug : String} :
    C.inUse rows owner slug = true ↔ ∃ r ∈ rows, C.owner r = owner ∧ C.slug r = slug := by
  simp only [inUse, List.any_eq_true, Bool.and_eq_true, decide_eq_true_eq]

theorem inUse_eq_false {rows : List ρ} {slug : String} (hlen : slug.length ≤ 64) :
    C.inUse rows owner slug = false ↔ C.Keeps rows owner none slug := by
  rw [Bool.eq_false_iff, ne_eq, inUse_eq_true]
  constructor
  · exact fun h => ⟨hlen, fun r hr howner hslug => absurd ⟨r, hr, howner, hslug⟩ h⟩
  · rintro ⟨-, hfree⟩ ⟨r, hr, howner, hslug⟩
    cases hfree r hr howner hslug

/-! ## Statements -/

theorem ofRows_eq_none {rows : List ρ} : Table.ofRows S rows = none ↔
    ¬((∀ r ∈ rows, S.check r = true) ∧ rows.Pairwise fun a b => S.clash a b = false) := by
  unfold Table.ofRows
  split
  · rename_i h
    exact iff_of_false (fun he => by cases he) (not_not_intro h)
  · rename_i h
    exact iff_of_true rfl h

/-- The other constraints and those on slugs. -/
theorem valid_iff {rows : List ρ} :
    ((∀ r ∈ rows, S.check r = true) ∧ rows.Pairwise fun a b => S.clash a b = false) ↔
      ((∀ r ∈ rows, C.others.check r = true) ∧
        rows.Pairwise fun a b => C.others.clash a b = false) ∧
      (∀ r ∈ rows, (C.slug r).length ≤ 64) ∧
        rows.Pairwise fun a b => C.owner a = C.owner b → C.slug a ≠ C.slug b := by
  simp only [C.check_eq, C.clash_eq, Bool.and_eq_true, decide_eq_true_eq, Bool.or_eq_false_iff,
    Bool.and_eq_false_iff, decide_eq_false_iff_not, List.pairwise_and_iff, ← imp_iff_not_or,
    forall_and]
  tauto

/-- A row that was written over is none of the others. -/
theorem Keeps.ne_of_other {rows : List ρ} {id : Int} {slug : String}
    (h : C.Keeps rows owner (some id) slug) {r : ρ} (hr : r ∈ rows)
    (hother : (C.id r = id && C.owner r = owner) = false) (howner : C.owner r = owner) :
    C.slug r ≠ slug := by
  intro hslug
  have hid : C.id r = id := (Option.some.inj (h.free r hr howner hslug)).symm
  rw [hid, howner, decide_eq_true rfl, decide_eq_true rfl] at hother
  cases hother

/-- **A slug that is kept is no reason to refuse the row.** -/
theorem Keeps.no_fault (t : C.Content) {slug : String}
    (h : C.Keeps t.table.rows owner exclude slug) {rows : List ρ}
    (hw : C.Writes t.table.rows owner slug exclude rows) : ¬C.Fault rows := by
  rintro ⟨hnone, hothers⟩
  refine ofRows_eq_none.mp hnone (C.valid_iff.mpr ⟨?_, ?_⟩)
  · by_contra hinvalid
    exact hothers (ofRows_eq_none.mpr hinvalid)
  · obtain ⟨-, hshort, hapart⟩ := C.valid_iff.mp ⟨t.table.checked, t.table.unique⟩
    cases hw with
    | @insert r howner hslug =>
        refine ⟨fun x hx => ?_, List.pairwise_append.mpr
          ⟨hapart, List.pairwise_singleton _ _, fun x hx y hy => ?_⟩⟩
        · rcases List.mem_append.mp hx with hx | hx
          · exact hshort x hx
          · rw [List.mem_singleton.mp hx, hslug]
            exact h.short
        · rw [List.mem_singleton.mp hy, howner, hslug]
          intro hx' hs
          cases h.free x hx hx' hs
    | @update id f hid howner hslug =>
        have hrow : ∀ r,
            C.owner (if C.id r = id && C.owner r = owner then f r else r) = C.owner r :=
          fun r => by split <;> simp only [howner]
        refine ⟨fun x hx => ?_, List.pairwise_map.mpr ?_⟩
        · obtain ⟨r, hr, rfl⟩ := List.mem_map.mp hx
          split
          · rw [hslug]
            exact h.short
          · exact hshort r hr
        · have hids := (C.valid_iff.mp ⟨t.table.checked, t.table.unique⟩).1.2
          refine (hapart.and hids).imp_of_mem fun {a b} ha hb hab howners => ?_
          rw [hrow, hrow] at howners
          by_cases hpa : (C.id a = id && C.owner a = owner) = true <;>
            by_cases hpb : (C.id b = id && C.owner b = owner) = true
          · -- there is one row with the number
            rw [Bool.and_eq_true, decide_eq_true_eq, decide_eq_true_eq] at hpa hpb
            rw [C.clash_id a b (hpa.1.trans hpb.1.symm)] at hab
            cases hab.2
          · rw [if_pos hpa, if_neg hpb, hslug]
            rw [Bool.and_eq_true, decide_eq_true_eq, decide_eq_true_eq] at hpa
            exact (h.ne_of_other C hb (Bool.eq_false_iff.mpr hpb) (howners ▸ hpa.2)).symm
          · rw [if_neg hpa, if_pos hpb, hslug]
            rw [Bool.and_eq_true, decide_eq_true_eq, decide_eq_true_eq] at hpb
            exact h.ne_of_other C ha (Bool.eq_false_iff.mpr hpa) (howners.trans hpb.2)
          · rw [if_neg hpa, if_neg hpb]
            exact hab.1 howners

end SlugColumns

/-! ## `unique_slug` -/

variable {base slug : String} {db : Ledger}

theorem length_slugCandidates (h : slug ∈ slugCandidates base) : slug.length ≤ 64 := by
  obtain ⟨suffix, -, rfl⟩ := List.mem_map.mp h
  rw [String.length_ofList]
  exact (List.length_take_le _ _)

/-- One candidate that is free is enough. -/
theorem firstFree_eq_ok {taken : String → Bool} (h : firstFree taken base = .ok slug) :
    (slug ∈ slugCandidates base ∧ taken slug = false) ∨
      ((∀ c ∈ slugCandidates base, taken c = true) ∧ slug = base ++ "-x" ∧ slug.length ≤ 64) := by
  rw [firstFree] at h
  cases hfind : (slugCandidates base).find? fun slug => !taken slug with
  | some found =>
      rw [hfind] at h
      cases h
      exact .inl ⟨List.mem_of_find?_eq_some hfind, by simpa using List.find?_some hfind⟩
  | none =>
      rw [hfind] at h
      have hall : ∀ c ∈ slugCandidates base, taken c = true := by
        simpa using List.find?_eq_none.mp hfind
      by_cases hlen : 64 < (base ++ "-x").length
      · rw [if_pos hlen] at h
        cases h
      · rw [if_neg hlen] at h
        cases h
        exact .inr ⟨hall, rfl, not_lt.mp hlen⟩

theorem firstFree_of_all_taken {taken : String → Bool}
    (hall : ∀ c ∈ slugCandidates base, taken c = true) (hlen : (base ++ "-x").length ≤ 64) :
    firstFree taken base = .ok (base ++ "-x") := by
  have hnone : (slugCandidates base).find? (fun slug => !taken slug) = none :=
    List.find?_eq_none.mpr fun c hc => by simp [hall c hc]
  rw [firstFree, hnone]
  exact if_neg (not_lt.mpr hlen)

/-- The slug of a bounded search is free, unless the search fell back on one that is not. -/
theorem firstFree_free_iff (taken : String → Bool) (base : String) :
    (∀ slug, firstFree taken base = .ok slug → taken slug = false) ↔
      (∃ c ∈ slugCandidates base, taken c = false) ∨ 64 < (base ++ "-x").length ∨
        taken (base ++ "-x") = false := by
  constructor
  · intro h
    by_contra hcond
    push Not at hcond
    obtain ⟨hall, hlen, hx⟩ := hcond
    exact hx (h _
      (firstFree_of_all_taken (fun c hc => Bool.eq_true_of_not_eq_false (hall c hc)) hlen))
  · intro hcond slug h
    rcases firstFree_eq_ok h with ⟨-, hfree⟩ | ⟨hall, rfl, hlen⟩
    · exact hfree
    · rcases hcond with ⟨c, hc, hfree⟩ | hlong | hfree
      · rw [hall c hc] at hfree
        cases hfree
      · exact absurd hlen (not_le.mpr hlong)
      · exact hfree

theorem length_of_firstFree {taken : String → Bool} (h : firstFree taken base = .ok slug) :
    slug.length ≤ 64 := by
  rcases firstFree_eq_ok h with ⟨hmem, -⟩ | ⟨-, -, hlen⟩
  · exact length_slugCandidates hmem
  · exact hlen

/-! ## The loop over imported lists -/

/-- The loop: a suffix is appended for as long as the slug is taken. -/
def untilFree (taken : String → Bool) (base : String) : Nat → Nat → String → Option String
  | 0, _, _ => none
  | steps + 1, suffix, slug =>
      if taken slug then untilFree taken base steps (suffix + 1) (base ++ "-" ++ toString suffix)
      else some slug

/-- The slug of a name, for a list. -/
def listBase (name : String) : String :=
  let s := Validation.slug name
  if s.isEmpty then "list" else s

/-- The slugs that the loop goes through. -/
def numberedSlug (base : String) : Nat → String
  | 0 => base
  | n + 1 => base ++ "-" ++ toString (n + 1)

theorem untilFree_numbered (taken : String → Bool) (base : String) (steps n : Nat) :
    untilFree taken base (steps + 1) (n + 1) (numberedSlug base n) =
      if taken (numberedSlug base n) then
        untilFree taken base steps (n + 2) (numberedSlug base (n + 1))
      else some (numberedSlug base n) := rfl

/-- The loop stops at the first slug that is free. -/
theorem untilFree_eq_some {taken : String → Bool} {steps n : Nat} :
    untilFree taken base steps (n + 1) (numberedSlug base n) = some slug ↔
      ∃ k < steps, slug = numberedSlug base (n + k) ∧ taken slug = false ∧
        ∀ j < k, taken (numberedSlug base (n + j)) = true := by
  induction steps generalizing n with
  | zero => exact iff_of_false (fun h => by cases h) fun ⟨k, hk, _⟩ => absurd hk (Nat.not_lt_zero k)
  | succ steps ih =>
      rw [untilFree_numbered]
      by_cases htaken : taken (numberedSlug base n) = true
      · rw [if_pos htaken, ih]
        constructor
        · rintro ⟨k, hk, rfl, hfree, hbefore⟩
          refine ⟨k + 1, Nat.succ_lt_succ hk, congrArg _ (by omega), hfree, fun j hj => ?_⟩
          cases j with
          | zero => exact htaken
          | succ j =>
              rw [show n + (j + 1) = n + 1 + j by omega]
              exact hbefore j (Nat.lt_of_succ_lt_succ hj)
        · rintro ⟨k, hk, rfl, hfree, hbefore⟩
          cases k with
          | zero =>
              rw [Nat.add_zero, htaken] at hfree
              cases hfree
          | succ k =>
              refine ⟨k, Nat.lt_of_succ_lt_succ hk, congrArg _ (by omega), hfree, fun j hj => ?_⟩
              rw [show n + 1 + j = n + (j + 1) by omega]
              exact hbefore (j + 1) (Nat.succ_lt_succ hj)
      · rw [if_neg htaken, Option.some.injEq]
        constructor
        · rintro rfl
          exact ⟨0, Nat.succ_pos steps, rfl, Bool.eq_false_iff.mpr htaken,
            fun j hj => absurd hj (Nat.not_lt_zero j)⟩
        · rintro ⟨k, -, rfl, -, hbefore⟩
          cases k with
          | zero => rfl
          | succ k => exact absurd (hbefore 0 (Nat.succ_pos k)) htaken

theorem toList_numberedSlug (base : String) (n : Nat) :
    (numberedSlug base (n + 1)).toList = base.toList ++ '-' :: (n + 1).repr.toList := by
  show (base ++ "-" ++ (n + 1).repr).toList = _
  rw [String.toList_append, String.toList_append, List.append_assoc]
  rfl

theorem length_numberedSlug (base : String) (n : Nat) :
    (numberedSlug base (n + 1)).length = base.length + 1 + (n + 1).repr.length := by
  rw [← String.length_toList, toList_numberedSlug, List.length_append, List.length_cons,
    String.length_toList, String.length_toList]
  omega

theorem numberedSlug_injective {m n : Nat} (h : numberedSlug base m = numberedSlug base n) :
    m = n := by
  have hlen := congrArg String.length h
  cases m with
  | zero =>
      cases n with
      | zero => rfl
      | succ n =>
          rw [length_numberedSlug] at hlen
          exact absurd hlen (by show ¬base.length = _; omega)
  | succ m =>
      cases n with
      | zero =>
          rw [length_numberedSlug] at hlen
          exact absurd hlen (by show ¬_ = base.length; omega)
      | succ n =>
          have hlist := congrArg String.toList h
          rw [toList_numberedSlug, toList_numberedSlug] at hlist
          have htail := (List.cons.inj (List.append_cancel_left hlist)).2
          have hdigits := Text.digits_repr (m + 1)
          rw [htail, Text.digits_repr] at hdigits
          exact (Option.some.inj hdigits).symm

/-- A larger number is no shorter a slug. -/
theorem length_numberedSlug_mono {m n : Nat} (h : m ≤ n) :
    (numberedSlug base m).length ≤ (numberedSlug base n).length := by
  cases n with
  | zero =>
      obtain rfl := Nat.le_zero.mp h
      exact le_rfl
  | succ n =>
      rw [length_numberedSlug]
      cases m with
      | zero =>
          show base.length ≤ _
          omega
      | succ m =>
          rw [length_numberedSlug]
          have hrepr : (m + 1).repr.length ≤ (n + 1).repr.length := by
            rw [Nat.length_repr_le_iff Nat.length_repr_pos]
            exact lt_of_le_of_lt h ((Nat.length_repr_le_iff Nat.length_repr_pos).mp le_rfl)
          omega

namespace SlugColumns

variable {ρ : Type} {S : Schema ρ} (C : SlugColumns S)

/-- There are more numbers than rows. -/
theorem exists_free (rows : List ρ) (owner : Int) (base : String) :
    ∃ n ≤ rows.length, C.inUse rows owner (numberedSlug base n) = false := by
  by_contra hnone
  push Not at hnone
  have hsub : (List.range (rows.length + 1)).map (numberedSlug base) ⊆ rows.map C.slug := by
    intro slug hslug
    obtain ⟨n, hn, rfl⟩ := List.mem_map.mp hslug
    have htaken := Bool.eq_true_of_not_eq_false (hnone n (by simpa [Nat.lt_succ_iff] using hn))
    obtain ⟨r, hr, -, hs⟩ := (C.inUse_eq_true).mp htaken
    exact List.mem_map.mpr ⟨r, hr, hs⟩
  have hnodup : ((List.range (rows.length + 1)).map (numberedSlug base)).Nodup :=
    List.nodup_range.map fun _ _ h => numberedSlug_injective h
  have hlen := (List.subperm_of_subset hnodup hsub).length_le
  rw [List.length_map, List.length_range, List.length_map] at hlen
  omega

/-- The loop ends: with more turns than there are rows, at the first slug that is free. -/
theorem untilFree_ends (rows : List ρ) (owner : Int) (base : String) :
    ∃ n ≤ rows.length, C.inUse rows owner (numberedSlug base n) = false ∧
      (∀ m < n, C.inUse rows owner (numberedSlug base m) = true) ∧
      ∀ steps > rows.length,
        untilFree (C.inUse rows owner) base steps 1 base = some (numberedSlug base n) := by
  obtain ⟨n, hn, hfree⟩ := C.exists_free rows owner base
  have hex : ∃ n, C.inUse rows owner (numberedSlug base n) = false := ⟨n, hfree⟩
  have hle : Nat.find hex ≤ n := Nat.find_min' hex hfree
  refine ⟨Nat.find hex, hle.trans hn, Nat.find_spec hex,
    fun m hm => Bool.eq_true_of_not_eq_false (Nat.find_min hex hm), fun steps hsteps => ?_⟩
  refine untilFree_eq_some (n := 0) |>.mpr
    ⟨Nat.find hex, by omega, by rw [Nat.zero_add], Nat.find_spec hex, fun j hj => ?_⟩
  rw [Nat.zero_add]
  exact Bool.eq_true_of_not_eq_false (Nat.find_min hex hj)

/-! ## Allocation -/

variable {C}

/-- What is asked of the slug that the loop ends with. -/
theorem untilFree_keeps_iff (t : C.Content) (owner : Int) (base : String) :
    (∃ slug, (∀ steps > t.table.rows.length,
        untilFree (C.inUse t.table.rows owner) base steps 1 base = some slug) ∧
        C.Keeps t.table.rows owner none slug) ↔
      ∃ n, (numberedSlug base n).length ≤ 64 ∧
        C.inUse t.table.rows owner (numberedSlug base n) = false := by
  obtain ⟨n, -, hfree, hbefore, hends⟩ := C.untilFree_ends t.table.rows owner base
  constructor
  · rintro ⟨slug, hloop, hkeeps⟩
    have heq := (hends _ (Nat.lt_succ_self _)).symm.trans (hloop _ (Nat.lt_succ_self _))
    obtain rfl := Option.some.inj heq
    exact ⟨n, hkeeps.short, hfree⟩
  · rintro ⟨m, hlen, hm⟩
    have hle : n ≤ m := by
      by_contra hlt
      rw [hbefore m (not_le.mp hlt)] at hm
      cases hm
    have hshort := (length_numberedSlug_mono hle).trans hlen
    exact ⟨_, hends, (C.inUse_eq_false hshort).mp hfree⟩

theorem firstFree_keeps_iff (t : C.Content) (owner : Int) (exclude : Option Int) (base : String) :
    (∀ slug, firstFree (C.taken t.table.rows owner exclude) base = .ok slug →
        C.Keeps t.table.rows owner exclude slug) ↔
      (∃ c ∈ slugCandidates base, C.taken t.table.rows owner exclude c = false) ∨
        64 < (base ++ "-x").length ∨
        C.taken t.table.rows owner exclude (base ++ "-x") = false := by
  rw [← firstFree_free_iff]
  refine forall_congr' fun slug => forall_congr' fun h => ?_
  exact (Content.taken_eq_false C t (length_of_firstFree h)).symm

/-- **Slugs are short and free, but for two slips.** The slug of `unique_slug` is, unless all
candidates are taken and so is the one it falls back on. The loop ends, with a slug that is,
unless every free slug is too long. A statement that writes such a slug is not refused for it. -/
theorem slugs_kept_iff (t : C.Content) (owner : Int) (exclude : Option Int) (base name : String) :
    ((∀ slug, firstFree (C.taken t.table.rows owner exclude) base = .ok slug →
        C.Keeps t.table.rows owner exclude slug) ↔
      (∃ c ∈ slugCandidates base, C.taken t.table.rows owner exclude c = false) ∨
        64 < (base ++ "-x").length ∨
        C.taken t.table.rows owner exclude (base ++ "-x") = false) ∧
    ((∃ slug, (∀ steps > t.table.rows.length, untilFree (C.inUse t.table.rows owner)
        (listBase name) steps 1 (listBase name) = some slug) ∧
        C.Keeps t.table.rows owner none slug) ↔
      ∃ n, (numberedSlug (listBase name) n).length ≤ 64 ∧
        C.inUse t.table.rows owner (numberedSlug (listBase name) n) = false) ∧
    ∀ slug rows, C.Keeps t.table.rows owner exclude slug →
      C.Writes t.table.rows owner slug exclude rows → ¬C.Fault rows :=
  ⟨firstFree_keeps_iff t owner exclude base, untilFree_keeps_iff t owner (listBase name),
    fun _ _ hkeeps hwrites => Keeps.no_fault C t hkeeps hwrites⟩

end SlugColumns

/-! ## The three tables -/

def folderSlugs : SlugColumns folderSchema where
  id := Folder.id
  owner := Folder.userId
  slug := Folder.slug
  others := {
    check f := ({ f with slug := "" }).checks.all id
    clash a b := a.id = b.id }
  check_eq f := by
    simp only [folderSchema, Folder.checks, List.all_cons, List.all_nil, id_eq, Bool.and_true,
      String.length_empty, Nat.zero_le, decide_true, Bool.true_and]
    ac_rfl
  clash_eq _ _ := rfl
  clash_id _ _ h := decide_eq_true h

def categorySlugs : SlugColumns categorySchema where
  id := Category.id
  owner := Category.ownerUserId
  slug := Category.slug
  others := {
    check c := ({ c with slug := "" }).checks.all id
    clash a b := a.id = b.id ||
      (a.ownerUserId = b.ownerUserId && a.normalizedName = b.normalizedName) }
  check_eq c := by
    simp only [categorySchema, Category.checks, List.all_cons, List.all_nil, id_eq, Bool.and_true,
      String.length_empty, Nat.zero_le, decide_true, Bool.true_and]
    ac_rfl
  clash_eq a b := by
    simp only [categorySchema, Bool.and_or_distrib_left, Bool.or_assoc]
  clash_id a b h := by simp only [h, decide_true, Bool.true_or]

def teamSlugs : SlugColumns teamSchema where
  id := Team.id
  owner := Team.ownerUserId
  slug := Team.slug
  others := {
    check t := ({ t with slug := "" }).checks.all id
    clash a b := a.id = b.id }
  check_eq t := by
    simp only [teamSchema, Team.checks, List.all_cons, List.all_nil, id_eq, Bool.and_true,
      String.length_empty, Nat.zero_le, decide_true]
  clash_eq _ _ := rfl
  clash_id _ _ h := decide_eq_true h

theorem uniqueSlug_eq {user : Int} {exclude : Option Int} :
    uniqueSlug user base exclude db =
      (firstFree (folderSlugs.taken db.folders.rows user exclude) base).map (·, db) := by
  show Tx.ofExcept (firstFree (folderSlugs.taken db.folders.rows user exclude) base) db = _
  cases firstFree (folderSlugs.taken db.folders.rows user exclude) base <;> rfl

theorem slugTaken_eq (db : InboxDb) (user : Int) (exclude : Option Int) :
    db.slugTaken user exclude = categorySlugs.taken db.categories.rows user exclude := rfl

theorem TeamDb.slugTaken_eq (db : TeamDb) (user : Int) (exclude : Option Int) :
    db.slugTaken user exclude = teamSlugs.taken db.teams.rows user exclude := rfl

/-- The numbers of the search are those of the loop. -/
theorem importedSlug_eq (user : Int) (name : String) (db : Ledger) :
    importedSlug user name db = orFail .external
      (((List.range (db.folders.rows.length + 1)).map (numberedSlug (listBase name))).find?
        fun slug => !folderSlugs.inUse db.folders.rows user slug) db := by
  rw [List.range_succ_eq_map, List.map_cons, List.map_map]
  rfl

theorem importedSlug_eq_ok {user : Int} {name : String} {db' : Ledger} :
    importedSlug user name db = .ok (slug, db') ↔ db' = db ∧ ∀ steps > db.folders.rows.length,
      untilFree (folderSlugs.inUse db.folders.rows user) (listBase name) steps 1
        (listBase name) = some slug := by
  rw [importedSlug_eq, orFail_eq_ok, List.find?_map, Option.map_eq_some_iff]
  obtain ⟨n, hn, hfree, hbefore, hends⟩ :=
    folderSlugs.untilFree_ends db.folders.rows user (listBase name)
  have hfind : (List.range (db.folders.rows.length + 1)).find?
      ((fun slug => !folderSlugs.inUse db.folders.rows user slug) ∘ numberedSlug (listBase name)) =
        some n := by
    refine List.find?_range_eq_some.mpr ⟨?_, List.mem_range.mpr (Nat.lt_succ_of_le hn), ?_⟩
    · simp only [Function.comp_apply, hfree, Bool.not_false]
    · intro m hm
      simp only [Function.comp_apply, hbefore m hm, Bool.not_true, Bool.not_false]
  rw [hfind]
  constructor
  · rintro ⟨⟨k, hk, rfl⟩, rfl⟩
    obtain rfl := Option.some.inj hk
    exact ⟨rfl, hends⟩
  · rintro ⟨rfl, hloop⟩
    have heq := (hends _ (Nat.lt_succ_self _)).symm.trans (hloop _ (Nat.lt_succ_self _))
    exact ⟨⟨n, rfl, Option.some.inj heq⟩, rfl⟩

/-! ## The savers -/

theorem bind_pure_succeeds {σ α β : Type} {x : Tx σ Error α} {b : β} {s : σ} :
    (∃ r, (x >>= fun _ => pure b) s = .ok r) ↔ ∃ r, x s = .ok r := by
  constructor
  · rintro ⟨⟨_, s'⟩, h⟩
    obtain ⟨a, s₁, hx, -⟩ := Tx.bind_eq_ok.mp h
    exact ⟨_, hx⟩
  · rintro ⟨⟨a, s'⟩, hx⟩
    exact ⟨(b, s'), Tx.bind_eq_ok.mpr ⟨a, s', hx, rfl⟩⟩

theorem updateFolders_succeeds {p : Folder → Bool} {f : Folder → Folder} :
    (∃ r, updateFolders p f db = .ok r) ↔
      Table.ofRows folderSchema (db.folders.rows.map fun r => if p r then f r else r) ≠ none := by
  rw [Option.ne_none_iff_exists']
  constructor
  · rintro ⟨⟨n, db'⟩, h⟩
    obtain ⟨folders, hfolders, -⟩ := updateFolders_eq_ok.mp h
    exact ⟨folders, Table.ofRows_eq_some.mpr (Table.update_eq_some.mp hfolders).1⟩
  · rintro ⟨folders, h⟩
    exact ⟨_, updateFolders_eq_ok.mpr
      ⟨folders, Table.update_eq_some.mpr ⟨Table.ofRows_eq_some.mp h, rfl⟩, rfl⟩⟩

theorem insertFolder_succeeds {row : Int → Folder} :
    (∃ r, insertFolder row db = .ok r) ↔
      Table.ofRows folderSchema (db.folders.rows ++ [row (db.lastFolder + 1)]) ≠ none := by
  rw [Option.ne_none_iff_exists']
  constructor
  · rintro ⟨⟨n, db'⟩, h⟩
    obtain ⟨folders, hfolders, rfl, -⟩ := insertFolder_eq_ok.mp h
    exact ⟨folders, Table.ofRows_eq_some.mpr (Table.insert_eq_some.mp hfolders)⟩
  · rintro ⟨folders, h⟩
    exact ⟨_, insertFolder_eq_ok.mpr
      ⟨folders, Table.insert_eq_some.mpr (Table.ofRows_eq_some.mp h), rfl, rfl⟩⟩

theorem update_succeeds {σ ρ : Type} {S : Schema ρ} {T : TableIn σ Error S} {p : ρ → Bool}
    {f : ρ → ρ} {db : σ} : (∃ r, T.update p f db = .ok r) ↔
      Table.ofRows S ((T.read db).rows.map fun r => if p r then f r else r) ≠ none := by
  rw [Option.ne_none_iff_exists']
  constructor
  · rintro ⟨⟨n, db'⟩, h⟩
    obtain ⟨-, table, hrows, -⟩ := TableIn.update_eq_ok.mp h
    exact ⟨table, Table.ofRows_eq_some.mpr hrows⟩
  · rintro ⟨table, h⟩
    exact ⟨_, TableIn.update_eq_ok.mpr ⟨rfl, table, Table.ofRows_eq_some.mp h, rfl⟩⟩

theorem insertNext_succeeds {σ ρ : Type} {S : Schema ρ} {T : Serial σ Error S} {row : Int → ρ}
    {db : σ} : (∃ r, T.insertNext row db = .ok r) ↔
      Table.ofRows S ((T.read db).rows ++ [row (T.next db)]) ≠ none := by
  rw [Option.ne_none_iff_exists']
  constructor
  · rintro ⟨⟨n, db'⟩, h⟩
    obtain ⟨rfl, table, hrows, -⟩ := Serial.insertNext_eq_ok.mp h
    exact ⟨table, Table.ofRows_eq_some.mpr hrows⟩
  · rintro ⟨table, h⟩
    exact ⟨_, Serial.insertNext_eq_ok.mpr ⟨rfl, table, Table.ofRows_eq_some.mp h, rfl⟩⟩

/-- The slug that is asked for, or that of the name. -/
def savedBase (body : Json) (name other : String) : String :=
  let given := ((body.entry "slug").asStr.filter (!·.isEmpty)).getD (Validation.slug name)
  if given.isEmpty then other else String.ofList (given.toList.take 64)

/-- After the lookups, a save of a folder fails when the table refuses its rows. -/
theorem saveFolderOn_succeeds {user now : Int} {id : Option Int} {name : String} {body : Json}
    (hfound : ∀ i, id = some i → (db.folder? user i).isSome)
    (hparent : checkNewParent user id (body.entry "parent_id").asI64 db = .ok ((), db))
    (hslug : uniqueSlug user (savedBase body name "folder") id db = .ok (slug, db)) :
    ∃ rows, folderSlugs.Writes db.folders.rows user slug id rows ∧
      ((∃ r, saveFolderOn user id name body now db = .ok r) ↔
        Table.ofRows folderSchema rows ≠ none) := by
  simp only [savedBase] at hslug
  cases id with
  | none =>
      have hinsert : ∃ row : Int → Folder, saveFolderOn user none name body now db =
          insertFolder row db ∧ ∀ id, (row id).userId = user ∧ (row id).slug = slug :=
        ⟨_, (Tx.bind_of_ok hparent).trans (Tx.bind_of_ok hslug), fun _ => ⟨rfl, rfl⟩⟩
      obtain ⟨row, heq, hrow⟩ := hinsert
      rw [heq]
      exact ⟨_, .insert (hrow _).1 (hrow _).2, insertFolder_succeeds⟩
  | some id =>
      obtain ⟨found, hfolder⟩ := Option.isSome_iff_exists.mp (hfound id rfl)
      have hlook : orFail .notFound (db.folder? user id) db = .ok (found, db) := by
        rw [hfolder]
        rfl
      have hupdate : ∃ f : Folder → Folder, saveFolderOn user (some id) name body now db =
          (updateFolders (fun r => r.id = id && r.userId = user) f >>= fun _ => pure id) db ∧
          ∀ r, (f r).id = r.id ∧ (f r).userId = r.userId ∧ (f r).slug = slug :=
        ⟨_, (Tx.bind_of_ok (show (get : LedgerStmt Ledger) db = .ok (db, db) from rfl)).trans
          ((Tx.bind_of_ok hlook).trans ((Tx.bind_of_ok hparent).trans (Tx.bind_of_ok hslug))),
          fun _ => ⟨rfl, rfl, rfl⟩⟩
      obtain ⟨f, heq, hf⟩ := hupdate
      rw [heq]
      exact ⟨_, .update (fun r => (hf r).1) (fun r => (hf r).2.1) (fun r => (hf r).2.2),
        bind_pure_succeeds.trans updateFolders_succeeds⟩

/-- After the lookups, a save of a category fails when the table refuses its rows. -/
theorem saveCategoryOn_succeeds [LinkPlatform] {user now : Int} {id : Option Int} {name : String}
    {body : Json} {db : InboxDb} (hfound : ∀ i, id = some i → (db.category? user i).isSome)
    (hparent : checkCategoryParent user id (body.entry "parent_id").asI64 db = .ok ((), db))
    (hteam : checkTeam user (body.entry "shared_with_team_id").asI64 db = .ok ((), db))
    (hslug : firstFree (db.slugTaken user id) (savedBase body name "category") = .ok slug) :
    ∃ rows, categorySlugs.Writes db.categories.rows user slug id rows ∧
      ((∃ r, saveCategoryOn user id name body now db = .ok r) ↔
        Table.ofRows categorySchema rows ≠ none) := by
  simp only [savedBase] at hslug
  have hget : (get : InboxStmt InboxDb) db = .ok (db, db) := rfl
  cases id with
  | none =>
      have hinsert : ∃ row : Int → Category, saveCategoryOn user none name body now db =
          InboxDb.categoryTable.insertNext row db ∧
          ∀ id, (row id).ownerUserId = user ∧ (row id).slug = slug :=
        ⟨_, (Tx.bind_of_ok hparent).trans ((Tx.bind_of_ok hteam).trans ((Tx.bind_of_ok hget).trans
          (Tx.bind_of_ok (Tx.ofExcept_eq_ok.mpr ⟨hslug, rfl⟩)))), fun _ => ⟨rfl, rfl⟩⟩
      obtain ⟨row, heq, hrow⟩ := hinsert
      rw [heq]
      exact ⟨_, .insert (hrow _).1 (hrow _).2, insertNext_succeeds⟩
  | some id =>
      obtain ⟨found, hcategory⟩ := Option.isSome_iff_exists.mp (hfound id rfl)
      have hlook : orElseFail .notFound (db.category? user id) db = .ok (found, db) := by
        rw [hcategory]
        rfl
      have hupdate : ∃ f : Category → Category, saveCategoryOn user (some id) name body now db =
          (InboxDb.categoryTable.update (fun r => r.id = id && r.ownerUserId = user) f >>=
            fun _ => pure id) db ∧
          ∀ r, (f r).id = r.id ∧ (f r).ownerUserId = r.ownerUserId ∧ (f r).slug = slug :=
        ⟨_, (Tx.bind_of_ok hget).trans ((Tx.bind_of_ok hlook).trans ((Tx.bind_of_ok hparent).trans
          ((Tx.bind_of_ok hteam).trans ((Tx.bind_of_ok hget).trans
            (Tx.bind_of_ok (Tx.ofExcept_eq_ok.mpr ⟨hslug, rfl⟩)))))), fun _ => ⟨rfl, rfl, rfl⟩⟩
      obtain ⟨f, heq, hf⟩ := hupdate
      rw [heq]
      exact ⟨_, .update (fun r => (hf r).1) (fun r => (hf r).2.1) (fun r => (hf r).2.2),
        bind_pure_succeeds.trans update_succeeds⟩

/-- The row of a team is written, unless there is none or the table refuses its rows. -/
theorem writeTeam_succeeds {user now : Int} {id : Option Int} {name slug : String}
    {description : Option String} {db : TeamDb}
    (hfound : ∀ i, id = some i → ∃ t ∈ db.teams.rows, t.id = i ∧ t.ownerUserId = user) :
    ∃ rows, teamSlugs.Writes db.teams.rows user slug id rows ∧
      ((∃ r, writeTeam user id name slug description now db = .ok r) ↔
        Table.ofRows teamSchema rows ≠ none) := by
  cases id with
  | none =>
      have hinsert : ∃ row : Int → Team, writeTeam user none name slug description now db =
          TeamDb.teamTable.insertNext row db ∧
          ∀ id, (row id).ownerUserId = user ∧ (row id).slug = slug := by
        unfold writeTeam
        exact ⟨_, rfl, fun _ => ⟨rfl, rfl⟩⟩
      obtain ⟨row, heq, hrow⟩ := hinsert
      rw [heq]
      exact ⟨_, .insert (hrow _).1 (hrow _).2, insertNext_succeeds⟩
  | some id =>
      have hupdate : ∃ f : Team → Team, writeTeam user (some id) name slug description now db =
          (TeamDb.teamTable.update (fun t => t.id = id && t.ownerUserId = user) f >>= fun changed =>
            if changed = 0 then throw .notFound else pure id) db ∧
          ∀ r, (f r).id = r.id ∧ (f r).ownerUserId = r.ownerUserId ∧ (f r).slug = slug := by
        unfold writeTeam
        exact ⟨_, rfl, fun _ => ⟨rfl, rfl, rfl⟩⟩
      obtain ⟨f, heq, hf⟩ := hupdate
      rw [heq]
      refine ⟨_, .update (fun r => (hf r).1) (fun r => (hf r).2.1) (fun r => (hf r).2.2),
        Iff.trans ?_ (update_succeeds (T := TeamDb.teamTable.toTableIn) (f := f)
          (p := fun t => t.id = id && t.ownerUserId = user))⟩
      constructor
      · rintro ⟨⟨_, db'⟩, h⟩
        obtain ⟨changed, s, hchanged, -⟩ := Tx.bind_eq_ok.mp h
        exact ⟨_, hchanged⟩
      · rintro ⟨⟨changed, db'⟩, hchanged⟩
        obtain ⟨t, ht, hid, howner⟩ := hfound id rfl
        have hpos : changed ≠ 0 := by
          rw [(TableIn.update_eq_ok.mp hchanged).1]
          exact (List.countP_pos_iff.mpr ⟨t, ht, by simp [hid, howner]⟩).ne'
        refine ⟨(id, db'), (Tx.bind_of_ok hchanged).trans ?_⟩
        rw [if_neg hpos]
        rfl

/-- The transaction of a team fails after its lookup when the table refuses its rows. Its owner
can be made a member of any team. -/
theorem saveTeamOn_succeeds {user now : Int} {id : Option Int} {name slug : String} {body : Json}
    {db : TeamDb} (hfound : ∀ i, id = some i → ∃ t ∈ db.teams.rows, t.id = i ∧ t.ownerUserId = user)
    (hslug : firstFree (db.slugTaken user id) (teamBase body name) = .ok slug) :
    ∃ rows, teamSlugs.Writes db.teams.rows user slug id rows ∧
      ((∃ r, saveTeamOn user id name body now db = .ok r) ↔
        Table.ofRows teamSchema rows ≠ none) := by
  obtain ⟨rows, hwrites, hwritten⟩ := @writeTeam_succeeds user now id name slug
    (body.entry "description").asStr db hfound
  refine ⟨rows, hwrites, Iff.trans ?_ hwritten⟩
  have hrun : saveTeamOn user id name body now db =
      (writeTeam user id name slug (body.entry "description").asStr now >>= fun id =>
        TeamDb.memberTable.insertIgnoring (·.sameKey ⟨id, user, "owner", now⟩)
          ⟨id, user, "owner", now⟩ >>= fun _ => pure id) db :=
    (Tx.bind_of_ok (show (get : TeamStmt TeamDb) db = .ok (db, db) from rfl)).trans
      (Tx.bind_of_ok (Tx.ofExcept_eq_ok.mpr ⟨hslug, rfl⟩))
  rw [hrun]
  constructor
  · rintro ⟨⟨_, _⟩, h⟩
    obtain ⟨n, s, hwrite, -⟩ := Tx.bind_eq_ok.mp h
    exact ⟨_, hwrite⟩
  · rintro ⟨⟨n, s⟩, hwrite⟩
    have hmember : ∃ new s', TeamDb.memberTable.insertIgnoring (·.sameKey ⟨n, user, "owner", now⟩)
        ⟨n, user, "owner", now⟩ s = .ok (new, s') := by
      have hcheck : teamMemberSchema.check ⟨n, user, "owner", now⟩ = true := by
        simp only [teamMemberSchema, decide_eq_true_eq]
        decide
      simp only [TableIn.insertIgnoring_eq_ok]
      by_cases hthere : (s.members.rows.any (·.sameKey ⟨n, user, "owner", now⟩)) = true
      · exact ⟨false, s, hcheck, .inl ⟨hthere, rfl, rfl⟩⟩
      · rw [Bool.not_eq_true] at hthere
        obtain ⟨members, hmembers⟩ : ∃ members, s.members.insert ⟨n, user, "owner", now⟩ =
            some members :=
          Table.insert_of_apart hcheck fun m hm =>
            Bool.eq_false_iff.mpr (List.any_eq_false.mp hthere m hm)
        exact ⟨true, _, hcheck, .inr ⟨hthere, rfl, members, Table.insert_eq_some.mp hmembers, rfl⟩⟩
    obtain ⟨new, s', hinsert⟩ := hmember
    exact ⟨_, (Tx.bind_of_ok hwrite).trans (Tx.bind_of_ok hinsert)⟩

/-- A list that is new fails when the table refuses its folder. -/
theorem importFolder_succeeds {user now : Int} {list : ListSnapshot}
    (hnew : ∀ f ∈ db.folders.rows, f.userId = user → f.ghListId ≠ some list.id)
    (hslug : importedSlug user list.name db = .ok (slug, db)) :
    ∃ rows, folderSlugs.Writes db.folders.rows user slug none rows ∧
      ((∃ r, importFolder user list now db = .ok r) ↔ Table.ofRows folderSchema rows ≠ none) := by
  have hnone : db.folders.rows.find? (fun f => f.userId = user && f.ghListId = some list.id) =
      none := by
    refine List.find?_eq_none.mpr fun f hf hlist => ?_
    rw [Bool.and_eq_true, decide_eq_true_eq, decide_eq_true_eq] at hlist
    exact hnew f hf hlist.1 hlist.2
  have hinsert : ∃ row : Int → Folder, importFolder user list now db = insertFolder row db ∧
      ∀ id, (row id).userId = user ∧ (row id).slug = slug := by
    unfold importFolder
    rw [Tx.bind_of_ok (show (get : LedgerStmt Ledger) db = .ok (db, db) from rfl), hnone]
    exact ⟨_, Tx.bind_of_ok hslug, fun _ => ⟨rfl, rfl⟩⟩
  obtain ⟨row, heq, hrow⟩ := hinsert
  rw [heq]
  exact ⟨_, .insert (hrow _).1 (hrow _).2, insertFolder_succeeds⟩

/-! ## Slugs that are refused -/

def slugFolder (id : Int) (slug : String) : Folder where
  id := id
  userId := 1
  name := slug
  slug := slug
  description := none
  icon := none
  parentId := none
  createdAt := 0
  ghListId := none
  ghListSlug := none
  isPinned := false
  sortOrder := 0

/-- All candidates are taken, and the fallback. -/
def crowded : folderSlugs.Content where
  table := {
    rows := (slugCandidates "a" ++ ["a-x"]).zipIdx.map fun (slug, i) => slugFolder (i + 1) slug
    checked := by decide +kernel
    unique := by decide +kernel }
  positive := by decide +kernel

def longName : String := String.ofList (List.replicate 64 'a')

/-- A slug of 64 characters is taken. -/
def longSlug : folderSlugs.Content where
  table := {
    rows := [slugFolder 1 longName]
    checked := by decide +kernel
    unique := by decide +kernel }
  positive := by decide +kernel

def slugLedger (content : folderSlugs.Content) : Ledger where
  folders := content.table
  members := .empty _
  stars := .empty _
  mutations := .empty _
  lastFolder := 20
  lastStar := 0

/-- The fallback is taken, and the number makes a slug too long. Neither folder can be saved. -/
theorem fallback_is_taken :
    (firstFree (folderSlugs.taken crowded.table.rows 1 none) "a" = .ok "a-x" ∧
      ¬folderSlugs.Keeps crowded.table.rows 1 none "a-x" ∧
      (saveFolder 1 none "a" (.obj []) 0 (slugLedger crowded)).1 = .error .database) ∧
    untilFree (folderSlugs.inUse longSlug.table.rows 1) (listBase longName) 2 1
      (listBase longName) = some (longName ++ "-1") ∧
    ¬folderSlugs.Keeps longSlug.table.rows 1 none (longName ++ "-1") ∧
    (importFolder 1 ⟨"list", longName, "list", none, []⟩ 0 (slugLedger longSlug)).map Prod.fst =
      .error .database := by
  refine ⟨⟨by decide +kernel, fun h => ?_, by decide +kernel⟩, by decide +kernel, fun h => ?_,
    by decide +kernel⟩
  · exact absurd ((SlugColumns.Content.taken_eq_false folderSlugs crowded h.short).mpr h)
      (by decide +kernel)
  · exact absurd h.short (by decide +kernel)

end YoinkCore.Inbox
