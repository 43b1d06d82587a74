import YoinkCore.Lib.Paging

/-!
# Pages behind a key

A table is read in the descending order of a key, each page behind the last row of the page before
it. The table may change between two pages. A key is read once at most, and a key that is there for
all pages is read.
-/

namespace YoinkCore.Lib.Keyset

variable {ρ κ : Type} [LinearOrder κ] {key : ρ → κ}

/-- Whether a key is behind a border. -/
def beyond (border : Option κ) (k : κ) : Bool := border.all fun b => decide (k < b)

theorem beyond_some {b k : κ} : beyond (some b) k = true ↔ k < b := decide_eq_true_iff

/-- The rows in the descending order of their keys. -/
def sorted (key : ρ → κ) (rows : List ρ) : List ρ := rows.insertionSort fun a b => key b ≤ key a

def rest (key : ρ → κ) (border : Option κ) (rows : List ρ) : List ρ :=
  sorted key (rows.filter fun r => beyond border (key r))

/-- The border behind a page. -/
def borderOf (key : ρ → κ) (page : List ρ) : Option κ := page.getLast?.map key

/-- The pages that are read of the versions of a table, up to one that leaves nothing. -/
def pages (key : ρ → κ) (limit : Nat) : Option κ → List (List ρ) → List (List ρ)
  | _, [] => []
  | border, rows :: later =>
      let page := (rest key border rows).take limit
      page :: if (rest key border rows).length ≤ limit then []
        else pages key limit (borderOf key page) later

/-- Whether a page has left nothing. -/
def exhausted (key : ρ → κ) (limit : Nat) : Option κ → List (List ρ) → Bool
  | _, [] => false
  | border, rows :: later =>
      decide ((rest key border rows).length ≤ limit) ||
        exhausted key limit (borderOf key ((rest key border rows).take limit)) later

/-- The last rows of the pages that leave rows. -/
def borders (key : ρ → κ) (limit : Nat) : Option κ → List (List ρ) → List ρ
  | _, [] => []
  | border, rows :: later =>
      let page := (rest key border rows).take limit
      if (rest key border rows).length ≤ limit then []
      else page.getLast?.toList ++ borders key limit (borderOf key page) later

/-! ## The order -/

theorem mem_sorted {rows : List ρ} {r : ρ} : r ∈ sorted key rows ↔ r ∈ rows :=
  List.mem_insertionSort _

theorem mem_rest {border : Option κ} {rows : List ρ} {r : ρ} :
    r ∈ rest key border rows ↔ r ∈ rows ∧ beyond border (key r) = true := by
  rw [rest, mem_sorted, List.mem_filter]

theorem rest_none (rows : List ρ) : rest key none rows = sorted key rows :=
  congrArg (sorted key) (List.filter_eq_self.mpr fun _ _ => rfl)

/-- Different keys come in a strict order. -/
theorem sorted_strict {rows : List ρ} (h : rows.Pairwise fun a b => key a ≠ key b) :
    (sorted key rows).Pairwise fun a b => key b < key a := by
  have hle : (sorted key rows).Pairwise fun a b => key b ≤ key a := by
    have htotal : Std.Total (fun a b : ρ => key b ≤ key a) := ⟨fun a b => le_total (key b) (key a)⟩
    have htrans : IsTrans ρ fun a b => key b ≤ key a := ⟨fun a b c hab hbc => le_trans hbc hab⟩
    exact List.pairwise_insertionSort _ rows
  have hne : (sorted key rows).Pairwise fun a b => key a ≠ key b :=
    (List.perm_insertionSort _ rows).symm.pairwise h (fun hab => hab.symm)
  exact hle.imp₂ (fun a b hab hn => lt_of_le_of_ne hab hn.symm) hne

theorem rest_strict {rows : List ρ} (h : rows.Pairwise fun a b => key a ≠ key b)
    (border : Option κ) : (rest key border rows).Pairwise fun a b => key b < key a :=
  sorted_strict (h.filter _)

/-- The last row of a page has the least key of it. -/
theorem last_le {l : List ρ} (h : l.Pairwise fun a b => key b < key a) {last r : ρ}
    (hlast : l.getLast? = some last) (hr : r ∈ l) : key last ≤ key r := by
  obtain ⟨front, rfl⟩ := List.getLast?_eq_some_iff.mp hlast
  rcases List.mem_append.mp hr with hr | hr
  · exact le_of_lt ((List.pairwise_append.mp h).2.2 r hr last List.mem_cons_self)
  · rw [List.mem_singleton.mp hr]

/-- What is behind a page are the rows with lesser keys. -/
theorem mem_drop_iff {l : List ρ} (h : l.Pairwise fun a b => key b < key a) {n : Nat} {last r : ρ}
    (hlast : (l.take n).getLast? = some last) : r ∈ l.drop n ↔ r ∈ l ∧ key r < key last := by
  have hmem : last ∈ l.take n := List.mem_of_getLast? hlast
  have happend := h
  rw [← List.take_append_drop n l, List.pairwise_append] at happend
  constructor
  · exact fun hr => ⟨List.mem_of_mem_drop hr, happend.2.2 last hmem r hr⟩
  · rintro ⟨hr, hlt⟩
    rw [← List.take_append_drop n l] at hr
    rcases List.mem_append.mp hr with hr | hr
    · exact absurd (last_le happend.1 hlast hr) (not_le.mpr hlt)
    · exact hr

/-- A page that leaves rows has a last one. -/
theorem exists_last {l : List ρ} {limit : Nat} (hlimit : 0 < limit) (hmore : ¬l.length ≤ limit) :
    ∃ last, (l.take limit).getLast? = some last := by
  have hne : l.take limit ≠ [] := by
    intro hnil
    rcases List.take_eq_nil_iff.mp hnil with h | h
    · omega
    · rw [h] at hmore
      exact hmore (Nat.zero_le limit)
  exact ⟨_, List.getLast?_eq_some_getLast hne⟩

/-! ## Equations -/

section

variable {limit : Nat} {border : Option κ} {rows : List ρ} {last : ρ} {later : List (List ρ)}

theorem pages_last (h : (rest key border rows).length ≤ limit) :
    pages key limit border (rows :: later) = [rest key border rows] := by
  rw [pages, if_pos h, List.take_of_length_le h]

theorem exhausted_last (h : (rest key border rows).length ≤ limit) :
    exhausted key limit border (rows :: later) = true := by
  rw [exhausted, decide_eq_true h, Bool.true_or]

theorem borders_last (h : (rest key border rows).length ≤ limit) :
    borders key limit border (rows :: later) = [] := if_pos h

omit [LinearOrder κ] in
theorem borderOf_of_last {page : List ρ} (h : page.getLast? = some last) :
    borderOf key page = some (key last) := by
  rw [borderOf, h]
  rfl

variable (h : ¬(rest key border rows).length ≤ limit)
  (hlast : ((rest key border rows).take limit).getLast? = some last)

include h hlast

theorem pages_more : pages key limit border (rows :: later) =
    (rest key border rows).take limit :: pages key limit (some (key last)) later := by
  rw [pages, if_neg h, borderOf_of_last hlast]

theorem exhausted_more : exhausted key limit border (rows :: later) =
    exhausted key limit (some (key last)) later := by
  rw [exhausted, decide_eq_false h, Bool.false_or, borderOf_of_last hlast]

theorem borders_more : borders key limit border (rows :: later) =
    last :: borders key limit (some (key last)) later := by
  rw [borders, if_neg h, borderOf_of_last hlast, hlast]
  rfl

end

/-! ## Pages of a table that changes -/

section

variable {limit : Nat} (hlimit : 0 < limit)

include hlimit

/-- Pages are behind their border. -/
theorem beyond_of_mem_pages {r : ρ} {versions : List (List ρ)}
    (hkeys : ∀ rows ∈ versions, rows.Pairwise fun a b => key a ≠ key b) :
    ∀ {border : Option κ}, r ∈ (pages key limit border versions).flatten →
      beyond border (key r) = true := by
  induction versions with
  | nil =>
      intro border hr
      cases hr
  | cons rows later ih =>
      intro border hr
      by_cases hmore : (rest key border rows).length ≤ limit
      · rw [pages_last hmore, List.flatten_cons, List.flatten_nil, List.append_nil] at hr
        exact (mem_rest.mp hr).2
      · obtain ⟨last, hlast⟩ := exists_last hlimit hmore
        rw [pages_more hmore hlast, List.flatten_cons, List.mem_append] at hr
        rcases hr with hr | hr
        · exact (mem_rest.mp (List.mem_of_mem_take hr)).2
        · have hlt := beyond_some.mp
            (ih (fun rows' h => hkeys rows' (List.mem_cons_of_mem _ h)) hr)
          have hbefore := (mem_rest.mp (List.mem_of_mem_take (List.mem_of_getLast? hlast))).2
          cases border with
          | none => rfl
          | some b => exact beyond_some.mpr (lt_trans hlt (beyond_some.mp hbefore))

/-- No key is read twice. -/
theorem pages_strict {versions : List (List ρ)}
    (hkeys : ∀ rows ∈ versions, rows.Pairwise fun a b => key a ≠ key b) :
    ∀ border : Option κ,
      (pages key limit border versions).flatten.Pairwise fun a b => key b < key a := by
  induction versions with
  | nil => exact fun _ => List.Pairwise.nil
  | cons rows later ih =>
      intro border
      have hstrict := rest_strict (hkeys rows List.mem_cons_self) border
      have htake : ((rest key border rows).take limit).Pairwise fun a b => key b < key a :=
        hstrict.sublist (List.take_sublist _ _)
      have hlater := fun rows' h => hkeys rows' (List.mem_cons_of_mem rows h)
      by_cases hmore : (rest key border rows).length ≤ limit
      · rw [pages_last hmore, List.flatten_cons, List.flatten_nil, List.append_nil]
        exact hstrict
      · obtain ⟨last, hlast⟩ := exists_last hlimit hmore
        rw [pages_more hmore hlast, List.flatten_cons]
        refine List.pairwise_append.mpr ⟨htake, ih hlater _, fun a ha b hb => ?_⟩
        have hb' := beyond_of_mem_pages hlimit hlater hb
        exact lt_of_lt_of_le (beyond_some.mp hb') (last_le htake hlast ha)

/-- A key that is there for all pages is read, if the pages leave nothing. -/
theorem pages_cover {versions : List (List ρ)} {k : κ}
    (hkeys : ∀ rows ∈ versions, rows.Pairwise fun a b => key a ≠ key b) :
    ∀ {border : Option κ}, exhausted key limit border versions = true →
      beyond border k = true →
      (∀ rows ∈ versions.take (pages key limit border versions).length, ∃ r ∈ rows, key r = k) →
      ∃ r ∈ (pages key limit border versions).flatten, key r = k := by
  induction versions with
  | nil =>
      intro border h
      cases h
  | cons rows later ih =>
      intro border hex hk hall
      have hlater := fun rows' h => hkeys rows' (List.mem_cons_of_mem rows h)
      by_cases hmore : (rest key border rows).length ≤ limit
      · rw [pages_last hmore] at hall ⊢
        obtain ⟨r, hr, hrk⟩ := hall rows List.mem_cons_self
        rw [List.flatten_cons, List.flatten_nil, List.append_nil]
        exact ⟨r, mem_rest.mpr ⟨hr, hrk ▸ hk⟩, hrk⟩
      · obtain ⟨last, hlast⟩ := exists_last hlimit hmore
        rw [pages_more hmore hlast, List.length_cons, List.take_succ_cons] at hall
        rw [pages_more hmore hlast, List.flatten_cons]
        rw [exhausted_more hmore hlast] at hex
        obtain ⟨r, hr, hrk⟩ := hall rows List.mem_cons_self
        have hrest : r ∈ rest key border rows := mem_rest.mpr ⟨hr, hrk ▸ hk⟩
        rw [← List.take_append_drop limit (rest key border rows)] at hrest
        rcases List.mem_append.mp hrest with hrest | hrest
        · exact ⟨r, List.mem_append_left _ hrest, hrk⟩
        · have hlt := ((mem_drop_iff (rest_strict (hkeys rows List.mem_cons_self) border)
            hlast).mp hrest).2
          obtain ⟨r', hr', hr'k⟩ := ih hlater hex (beyond_some.mpr (hrk ▸ hlt))
            fun rows' h => hall rows' (List.mem_cons_of_mem _ h)
          exact ⟨r', List.mem_append_right _ hr', hr'k⟩

end

/-- A row is read from one of the versions. -/
theorem exists_of_mem_pages {limit : Nat} {r : ρ} {versions : List (List ρ)} :
    ∀ {border : Option κ}, r ∈ (pages key limit border versions).flatten →
      ∃ rows ∈ versions, r ∈ rows := by
  induction versions with
  | nil =>
      intro border hr
      cases hr
  | cons rows later ih =>
      intro border hr
      rw [pages, List.flatten_cons, List.mem_append] at hr
      rcases hr with hr | hr
      · exact ⟨rows, List.mem_cons_self, (mem_rest.mp (List.mem_of_mem_take hr)).1⟩
      · split at hr
        · cases hr
        · obtain ⟨rows', hrows', hr⟩ := ih hr
          exact ⟨rows', List.mem_cons_of_mem _ hrows', hr⟩

theorem length_pages_le {limit : Nat} {versions : List (List ρ)} :
    ∀ {border : Option κ}, (pages key limit border versions).length ≤ versions.length := by
  induction versions with
  | nil => exact fun {_} => Nat.le_refl 0
  | cons rows later ih =>
      intro border
      rw [pages, List.length_cons, List.length_cons]
      refine Nat.succ_le_succ ?_
      split
      · exact Nat.zero_le _
      · exact ih

/-! ## Pages of a table that stays -/

section

variable {limit : Nat} {rows : List ρ} (hkeys : rows.Pairwise fun a b => key a ≠ key b)

include hkeys

/-- Behind the last row of a page is what the page leaves. -/
theorem rest_of_border {border : Option κ} {last : ρ}
    (hlast : ((rest key border rows).take limit).getLast? = some last) :
    rest key (some (key last)) rows = (rest key border rows).drop limit := by
  have hstrict := rest_strict hkeys border
  refine eq_of_mem_iff (fun a b (h : key b < key a) (h' : key a < key b) => lt_asymm h h')
    (rest_strict hkeys _) (hstrict.sublist (List.drop_sublist _ _)) fun r => ?_
  rw [mem_drop_iff hstrict hlast, mem_rest, mem_rest, beyond_some]
  constructor
  · rintro ⟨hr, hlt⟩
    have hmem := (mem_rest.mp (List.mem_of_mem_take (List.mem_of_getLast? hlast))).2
    refine ⟨⟨hr, ?_⟩, hlt⟩
    cases border with
    | none => rfl
    | some b => exact beyond_some.mpr (lt_trans hlt (beyond_some.mp hmem))
  · rintro ⟨⟨hr, -⟩, hlt⟩
    exact ⟨hr, hlt⟩

/-- **Pages.** One page more than there are rows, and they are all the rows in their order. -/
theorem pages_replicate (hlimit : 0 < limit) (n : Nat) :
    ∀ {border : Option κ}, (rest key border rows).length < n →
      exhausted key limit border (List.replicate n rows) = true ∧
        (pages key limit border (List.replicate n rows)).flatten = rest key border rows := by
  induction n with
  | zero =>
      intro border h
      cases h
  | succ n ih =>
      intro border hn
      rw [List.replicate_succ]
      by_cases hmore : (rest key border rows).length ≤ limit
      · rw [exhausted_last hmore, pages_last hmore]
        exact ⟨rfl, List.append_nil _⟩
      · obtain ⟨last, hlast⟩ := exists_last hlimit hmore
        have hrest := rest_of_border hkeys hlast
        obtain ⟨hex, hpages⟩ := @ih (some (key last)) (by
          rw [hrest, List.length_drop]
          omega)
        rw [exhausted_more hmore hlast, pages_more hmore hlast, List.flatten_cons, hpages, hrest,
          List.take_append_drop]
        exact ⟨hex, rfl⟩

end

end YoinkCore.Lib.Keyset
