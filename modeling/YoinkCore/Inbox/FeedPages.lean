import YoinkCore.Inbox.Feed

/-!
# The pages of the feed

A cursor is read back as the pair it was written from when its year has four digits, and only then.
So a client that follows the cursors reads the pages behind the keys of the items as long as every
page that leaves items ends with one of these years.
-/

namespace YoinkCore.Inbox

open Lib
open Text (Str)

/-! ## Cursors -/

/-- The years from 0 to 9999. -/
def Dated (t : Int) : Prop := -62167219200000000 ≤ t ∧ t ≤ 253402300799999999

instance (t : Int) : Decidable (Dated t) := inferInstanceAs (Decidable (_ ∧ _))

section

variable [FeedPlatform]

open FeedPlatform

/-- A year of four digits is written as RFC 3339 has it and read back. Another one is written with
a sign, which RFC 3339 does not know, or cannot be written. -/
structure Rfc3339 : Prop where
  written : ∀ t, Dated t → (rfc3339 t).isSome = true
  plain : ∀ t text, rfc3339 t = some text → '|' ∉ text
  reads : ∀ t text, Dated t → rfc3339 t = some text → parseRfc3339 text = some t
  signed : ∀ t text, ¬Dated t → rfc3339 t = some text → parseRfc3339 text = none

theorem decodeCursor_encode (text : Str) :
    decodeCursor (some (Base64.encode (Bytes.ofText (String.ofList text)))) =
      (decodeText text).elim (.error .invalid) fun pair => .ok (some pair) := by
  have htrim : Text.trimEnd '=' (Base64.encode (Bytes.ofText (String.ofList text))) =
      Base64.encode (Bytes.ofText (String.ofList text)) := by
    refine Text.trimEnd_of_getLast fun hlast => ?_
    obtain ⟨n, hn, heq⟩ := Base64.of_mem_encode (List.mem_of_getLast? hlast)
    exact (Base64.digit_plain n hn).2.1 heq.symm
  rw [decodeCursor]
  simp only [htrim, Base64.decode_encode, Json.some_bind_eq, Bytes.text_ofText,
    String.toList_ofList]
  cases decodeText text <;> rfl

theorem decodeText_append {t : Str} (ht : '|' ∉ t) {id : Int} (hlow : -2 ^ 63 ≤ id)
    (hhigh : id < 2 ^ 63) :
    decodeText (t ++ '|' :: (toString id).toList) = (parseRfc3339 t).map fun t => (t, id) := by
  have hid : Text.parseSigned (-2 ^ 63) (2 ^ 63 - 1) (toString id).toList = some id :=
    Text.parseSigned_toString (by decide) hlow (by omega)
  rw [decodeText, Text.splitOnce_append ht]
  simp only [Json.some_bind_eq, hid]
  cases parseRfc3339 t <;> rfl

/-- What a cursor is, and what it is read as. -/
theorem encodeCursor_cases (hr : Rfc3339) {t id : Int} (hlow : -2 ^ 63 ≤ id) (hhigh : id < 2 ^ 63) :
    (Dated t ∧ ∃ c, encodeCursor t id = .ok c ∧ decodeCursor (some c) = .ok (some (t, id))) ∨
      ¬Dated t ∧ (encodeCursor t id = .error .invalid ∨
        ∃ c, encodeCursor t id = .ok c ∧ decodeCursor (some c) = .error .invalid) := by
  by_cases hdated : Dated t
  · refine .inl ⟨hdated, ?_⟩
    obtain ⟨text, htext⟩ := Option.isSome_iff_exists.mp (hr.written t hdated)
    refine ⟨_, by rw [encodeCursor, htext], ?_⟩
    rw [decodeCursor_encode, decodeText_append (hr.plain t text htext) hlow hhigh,
      hr.reads t text hdated htext]
    rfl
  · refine .inr ⟨hdated, ?_⟩
    cases htext : rfc3339 t with
    | none => exact .inl (by rw [encodeCursor, htext])
    | some text =>
        refine .inr ⟨_, by rw [encodeCursor, htext], ?_⟩
        rw [decodeCursor_encode, decodeText_append (hr.plain t text htext) hlow hhigh,
          hr.signed t text hdated htext]
        rfl

end

/-! ## Items that come and go -/

/-- A statement of another call: an item comes under the next number, or items go, or other columns
of them change. -/
inductive ItemChange : InboxDb → InboxDb → Prop
  | insert {db db' : InboxDb} {row : Int → ItemRow} {id : Int} (hrow : ∀ n, (row n).id = n)
      (h : InboxDb.itemTable.insertNext row db = .ok (id, db')) : ItemChange db db'
  | delete {db db' : InboxDb} {p : ItemRow → Bool} {n : Nat}
      (h : InboxDb.itemTable.delete p db = .ok (n, db')) : ItemChange db db'
  | update {db db' : InboxDb} {p : ItemRow → Bool} {f : ItemRow → ItemRow} {n : Nat}
      (hrow : ∀ i, (f i).id = i.id ∧ (f i).createdAt = i.createdAt)
      (h : InboxDb.itemTable.update p f db = .ok (n, db')) : ItemChange db db'
  | other {db db' : InboxDb} (items : db'.items = db.items) (last : db'.lastItem = db.lastItem) :
      ItemChange db db'

/-- What `AUTOINCREMENT` and the type of the column say of the numbers. -/
structure Numbered (db : InboxDb) : Prop where
  le_last : ∀ i ∈ db.items.rows, i.id ≤ db.lastItem
  low : ∀ i ∈ db.items.rows, -2 ^ 63 ≤ i.id
  high : ∀ i ∈ db.items.rows, i.id < 2 ^ 63

/-- No number is given twice, and an item keeps its time. -/
structure ItemsEvolve (db db' : InboxDb) : Prop where
  last : db.lastItem ≤ db'.lastItem
  kept : ∀ i' ∈ db'.items.rows, i'.id ≤ db.lastItem →
    ∃ i ∈ db.items.rows, i.id = i'.id ∧ i.createdAt = i'.createdAt

namespace ItemsEvolve

variable {db db' db'' : InboxDb}

theorem refl (db : InboxDb) : ItemsEvolve db db :=
  ⟨Int.le_refl _, fun i hi _ => ⟨i, hi, rfl, rfl⟩⟩

theorem trans (h : ItemsEvolve db db') (h' : ItemsEvolve db' db'') : ItemsEvolve db db'' where
  last := Int.le_trans h.last h'.last
  kept i'' hi'' hle := by
    obtain ⟨i', hi', hid', hcreated'⟩ := h'.kept i'' hi'' (Int.le_trans hle h.last)
    obtain ⟨i, hi, hid, hcreated⟩ := h.kept i' hi' (hid' ▸ hle)
    exact ⟨i, hi, hid.trans hid', hcreated.trans hcreated'⟩

end ItemsEvolve

variable {db db' : InboxDb} {dbs : List InboxDb} {i i' : ItemRow}

theorem ItemChange.evolves (h : ItemChange db db') (hle : ∀ i ∈ db.items.rows, i.id ≤ db.lastItem) :
    ItemsEvolve db db' ∧ ∀ i ∈ db'.items.rows, i.id ≤ db'.lastItem := by
  cases h with
  | @insert row id hrow h =>
      obtain ⟨hid, table, hrows, rfl⟩ := Serial.insertNext_eq_ok.mp h
      have hlast : db.lastItem < id := by
        rw [hid]
        exact Int.lt_add_one_of_le (le_foldl_max _ _).1
      have hmem : ∀ i ∈ table.rows, i ∈ db.items.rows ∨ i = row id := by
        intro i hi
        rw [hrows] at hi
        exact (List.mem_append.mp hi).imp_right List.mem_singleton.mp
      refine ⟨⟨Int.le_of_lt hlast, fun i hi hile => ?_⟩, fun i hi => ?_⟩
      · rcases hmem i hi with hi | rfl
        · exact ⟨i, hi, rfl, rfl⟩
        · rw [hrow] at hile
          omega
      · show i.id ≤ id
        rcases hmem i hi with hi | rfl
        · exact Int.le_trans (hle i hi) (Int.le_of_lt hlast)
        · exact Int.le_of_eq (hrow id)
  | delete h =>
      obtain ⟨-, rfl⟩ := TableIn.delete_eq_ok.mp h
      refine ⟨⟨Int.le_refl _, fun i hi _ => ⟨i, List.mem_of_mem_filter hi, rfl, rfl⟩⟩,
        fun i hi => ?_⟩
      exact hle i (List.mem_of_mem_filter hi)
  | @update p f n hrow h =>
      obtain ⟨-, table, hrows, rfl⟩ := TableIn.update_eq_ok.mp h
      have hmem : ∀ i' ∈ table.rows, ∃ i ∈ db.items.rows, i.id = i'.id ∧
          i.createdAt = i'.createdAt := by
        intro i' hi'
        rw [hrows] at hi'
        obtain ⟨i, hi, rfl⟩ := List.mem_map.mp hi'
        refine ⟨i, hi, ?_⟩
        by_cases hp : p i = true
        · rw [if_pos hp]
          exact ⟨(hrow i).1.symm, (hrow i).2.symm⟩
        · rw [if_neg hp]
          exact ⟨rfl, rfl⟩
      refine ⟨⟨Int.le_refl _, fun i' hi' _ => hmem i' hi'⟩, fun i' hi' => ?_⟩
      obtain ⟨i, hi, hid, -⟩ := hmem i' hi'
      exact hid ▸ hle i hi
  | other items last =>
      rw [← items, ← last] at hle
      refine ⟨⟨Int.le_of_eq last.symm, fun i hi _ => ⟨i, items ▸ hi, rfl, rfl⟩⟩, hle⟩

theorem evolves_of_changes (h : Relation.ReflTransGen ItemChange db db')
    (hle : ∀ i ∈ db.items.rows, i.id ≤ db.lastItem) :
    ItemsEvolve db db' ∧ ∀ i ∈ db'.items.rows, i.id ≤ db'.lastItem := by
  induction h with
  | refl => exact ⟨.refl db, hle⟩
  | tail _ hstep ih =>
      obtain ⟨hevolve, hle'⟩ := ih
      obtain ⟨hstep, hle''⟩ := hstep.evolves hle'
      exact ⟨hevolve.trans hstep, hle''⟩

/-- The states of the database at the calls, with any changes between them. -/
structure Versions (dbs : List InboxDb) : Prop where
  numbered : ∀ db ∈ dbs, Numbered db
  changes : dbs.IsChain (Relation.ReflTransGen ItemChange)

theorem Versions.pairwise (h : Versions dbs) : dbs.Pairwise ItemsEvolve := by
  obtain ⟨hnumbered, hchanges⟩ := h
  induction dbs with
  | nil => exact .nil
  | cons db later ih =>
      have ih := ih (fun db' h => hnumbered db' (List.mem_cons_of_mem _ h)) hchanges.tail
      refine .cons (fun db' hdb' => ?_) ih
      cases later with
      | nil => cases hdb'
      | cons next later =>
          have hfirst : ItemsEvolve db next := (evolves_of_changes
            (List.isChain_cons_cons.mp hchanges).1 (hnumbered db List.mem_cons_self).le_last).1
          rcases List.mem_cons.mp hdb' with rfl | hdb'
          · exact hfirst
          · exact hfirst.trans ((List.pairwise_cons.mp ih).1 db' hdb')

theorem itemRow_eq_of_id (hi : i ∈ db.items.rows) (hi' : i' ∈ db.items.rows) (h : i.id = i'.id) :
    i = i' := by
  refine db.items.eq_of_clash hi hi' ?_ ?_
  · simp [itemRowSchema, h]
  · simp [itemRowSchema, h]

/-- An item has one time in all versions. -/
theorem Versions.created (h : Versions dbs) (hdb : db ∈ dbs) (hdb' : db' ∈ dbs)
    (hi : i ∈ db.items.rows) (hi' : i' ∈ db'.items.rows) (hid : i.id = i'.id) :
    i.createdAt = i'.createdAt := by
  let Same (db db' : InboxDb) : Prop := ∀ i ∈ db.items.rows, ∀ i' ∈ db'.items.rows,
    i.id = i'.id → i.createdAt = i'.createdAt
  have hsame : dbs.Pairwise Same := by
    refine h.pairwise.imp_of_mem fun {a b} ha _ hevolve i hi i' hi' hid => ?_
    obtain ⟨i₀, hi₀, hid₀, hcreated⟩ := hevolve.kept i' hi'
      (hid ▸ (h.numbered a ha).le_last i hi)
    rw [itemRow_eq_of_id hi hi₀ (hid.trans hid₀.symm), hcreated]
  have hsymm : Std.Symm Same := ⟨fun _ _ h i hi i' hi' hid => (h i' hi' i hi hid.symm).symm⟩
  refine hsame.forall_of_forall (fun a _ i hi i' hi' hid => ?_) hdb hdb' i hi i' hi' hid
  rw [itemRow_eq_of_id hi hi' hid]

/-! ## One page -/

section

variable [FeedPlatform]

/-- Whether the search text, if there is one, is in the fields of an item. -/
def Filters.finds (f : Filters) (i : ItemRow) : Bool :=
  match f.search.filter (· ≠ []) with
  | none => true
  | some s => (pattern s).any i.matches

/-- The items that satisfy the filters. -/
def wanted (user : Int) (f : Filters) (db : InboxDb) : List ItemRow :=
  db.items.rows.filter fun i => f.selects db user i && f.finds i

/-- Filters that are accepted. -/
structure Filters.Valid (f : Filters) : Prop where
  limit_pos : 1 ≤ f.limitOr
  limit_le : f.limitOr ≤ 100
  search : searchLength f.search = true
  pattern : ∀ s, f.search = some s → (pattern s).isSome = true

variable {border : Option (Int × Int)} {rows : List ItemRow} {cursor : Option Str} {f : Filters}
  {last : ItemRow}

omit [FeedPlatform] in
theorem feedKey_ne (h : rows.Sublist db.items.rows) :
    rows.Pairwise fun a b => a.feedKey ≠ b.feedKey := by
  refine (db.items.unique.sublist h).imp fun {a b} hclash hkey => ?_
  have hid : a.id = b.id := (Prod.mk.inj (toLex.injective hkey)).2
  simp [itemRowSchema, hid] at hclash

theorem wanted_sublist (user : Int) (f : Filters) (db : InboxDb) :
    (wanted user f db).Sublist db.items.rows := List.filter_sublist

omit [FeedPlatform] in
theorem behindCursor_eq (border : Option (Int × Int)) (i : ItemRow) :
    behindCursor border i = Keyset.beyond (border.map toLex) i.feedKey := by
  cases border with
  | none => rfl
  | some pair =>
      rw [Bool.eq_iff_iff, Option.map_some, Keyset.beyond_some, ItemRow.feedKey,
        Prod.Lex.toLex_lt_toLex]
      simp [behindCursor]

/-- What a page behind a border begins with. -/
def remaining (user : Int) (f : Filters) (border : Option (Int × Int)) (db : InboxDb) :
    List ItemRow :=
  Keyset.rest ItemRow.feedKey (border.map toLex) (wanted user f db)

/-- The query and the search find what is behind the border, or one row more than a page of it. -/
theorem searchFilter_feed (hf : f.Valid) (user : Int) (border : Option (Int × Int)) (db : InboxDb) :
    ∃ rows,
      searchFilter (Sql.feed db user f border
        (if f.search.isSome then none else some (f.limitOr + 1))) f.search = .ok rows ∧
      (rows = remaining user f border db ∨
        rows = (remaining user f border db).take (f.limitOr + 1)) := by
  cases hsearch : f.search with
  | none =>
      refine ⟨_, rfl, .inr ?_⟩
      have hrows : (db.items.rows.filter fun i => f.selects db user i && behindCursor border i) =
          (wanted user f db).filter fun i => Keyset.beyond (border.map toLex) i.feedKey := by
        rw [wanted, List.filter_filter]
        refine List.filter_congr fun i _ => ?_
        rw [behindCursor_eq, Filters.finds, hsearch, Option.filter_none, Bool.and_true,
          Bool.and_comm]
      show (Keyset.sorted ItemRow.feedKey (db.items.rows.filter fun i =>
        f.selects db user i && behindCursor border i)).take (f.limitOr + 1) = _
      rw [hrows]
      rfl
  | some s =>
      obtain ⟨p, hp⟩ := Option.isSome_iff_exists.mp (hf.pattern s hsearch)
      have hlength := hf.search
      rw [hsearch, searchLength, Option.all_some, Bool.and_eq_true, decide_eq_true_eq] at hlength
      have hne : s ≠ [] := by
        rintro rfl
        exact absurd hlength.1 (by decide)
      have hfilter : (some s).filter (· ≠ []) = some s := by simp [hne]
      have hfinds : ∀ i : ItemRow, f.finds i = i.matches p := by
        intro i
        rw [Filters.finds, hsearch, hfilter]
        dsimp only
        rw [hp, Option.any_some]
      refine ⟨_, by rw [searchFilter, hfilter]; dsimp only; rw [hp], .inl ?_⟩
      have hsub : (db.items.rows.filter fun i =>
          f.selects db user i && behindCursor border i).Pairwise
          fun a b => a.feedKey ≠ b.feedKey := feedKey_ne List.filter_sublist
      refine eq_of_mem_iff (fun a b (h : ItemRow.feedKey b < ItemRow.feedKey a)
        (h' : ItemRow.feedKey a < ItemRow.feedKey b) => lt_asymm h h')
        ((Keyset.sorted_strict hsub).filter _)
        (Keyset.rest_strict (feedKey_ne (wanted_sublist user f db)) _) fun i => ?_
      rw [remaining, Keyset.mem_rest, wanted, List.mem_filter, List.mem_filter]
      simp only [Sql.feed, Option.isSome_some, if_true, Keyset.mem_sorted, List.mem_filter,
        Bool.and_eq_true,
        behindCursor_eq, hfinds]
      tauto

/-- An item that the user has is shown. -/
theorem item_eq {user : Int} (hi : i ∈ db.items.rows) (huser : i.userId = user) :
    db.item user i.id = .ok (db.itemView user i) := by
  cases hfind : db.items.rows.find? fun r => decide (r.userId = user) && decide (r.id = i.id) with
  | none =>
      have hnone := List.find?_eq_none.mp hfind i hi
      simp [huser] at hnone
  | some r =>
      have hr := List.find?_some hfind
      rw [Bool.and_eq_true, decide_eq_true_eq, decide_eq_true_eq] at hr
      rw [InboxDb.item, hfind, itemRow_eq_of_id (List.mem_of_find?_eq_some hfind) hi hr.2]

theorem items_eq {user : Int} (h : ∀ i ∈ rows, i ∈ db.items.rows ∧ i.userId = user) :
    (rows.mapM fun i => db.item user i.id) = .ok (rows.map (db.itemView user)) := by
  induction rows with
  | nil => rfl
  | cons i rows ih =>
      obtain ⟨hi, huser⟩ := h i List.mem_cons_self
      rw [List.mapM_cons, item_eq hi huser, ih fun r hr => h r (List.mem_cons_of_mem _ hr)]
      rfl

theorem mem_remaining {user : Int} (h : i ∈ remaining user f border db) :
    i ∈ db.items.rows ∧ i.userId = user := by
  have hi := (List.mem_filter.mp (Keyset.mem_rest.mp h).1)
  refine ⟨hi.1, ?_⟩
  have hselects := (Bool.and_eq_true _ _ ▸ hi.2).1
  simp only [Filters.selects, Bool.and_eq_true, decide_eq_true_eq] at hselects
  exact hselects.1.1.1

theorem checkFilters_eq (hf : f.Valid) : checkFilters f = .ok () := by
  rw [checkFilters, decide_eq_true hf.limit_pos, decide_eq_true hf.limit_le, hf.search,
    if_neg (by decide), searchValidate, if_pos hf.search]

/-- The cursor is asked of the rows that are found as of all that remain. -/
theorem nextCursor_take (limit : Nat) (rows : List ItemRow) (hlimit : 1 ≤ limit) :
    nextCursor limit (rows.take (limit + 1)) = nextCursor limit rows := by
  have hlast : (rows.take (limit + 1))[limit - 1]? = rows[limit - 1]? := by
    rw [List.getElem?_take, if_pos (by omega)]
  have hmore : limit < (rows.take (limit + 1)).length ↔ limit < rows.length := by
    rw [List.length_take]
    omega
  simp only [nextCursor, hlast, hmore]

/-- A page of the feed. -/
theorem feed_eq (hf : f.Valid) (hc : decodeCursor cursor = .ok border) (user : Int) (db : InboxDb) :
    feed user { f with cursor } db =
      (nextCursor f.limitOr (remaining user f border db)).map fun next =>
        ⟨((remaining user f border db).take f.limitOr).map (db.itemView user), next⟩ := by
  obtain ⟨rows, hrows, hcase⟩ := searchFilter_feed hf user border db
  have htake : rows.take f.limitOr = (remaining user f border db).take f.limitOr := by
    rcases hcase with rfl | rfl
    · rfl
    · rw [List.take_take, Nat.min_eq_left (Nat.le_succ _)]
  have hnext : nextCursor f.limitOr rows = nextCursor f.limitOr (remaining user f border db) := by
    rcases hcase with rfl | rfl
    · rfl
    · exact nextCursor_take _ _ hf.limit_pos
  have hitems : ((rows.take f.limitOr).mapM fun i => db.item user i.id) =
      .ok (((remaining user f border db).take f.limitOr).map (db.itemView user)) := by
    rw [htake]
    exact items_eq fun i hi => mem_remaining (List.mem_of_mem_take hi)
  have hfeed : feed user { f with cursor } db = (do
      checkFilters f
      let border ← decodeCursor cursor
      let rows ← searchFilter
        (Sql.feed db user f border (if f.search.isSome then none else some (f.limitOr + 1)))
          f.search
      let items ← (rows.take f.limitOr).mapM fun i => db.item user i.id
      let next ← nextCursor f.limitOr rows
      return ⟨items, next⟩) := rfl
  rw [hfeed]
  simp only [checkFilters_eq hf, hc, bind, Except.bind, hrows, hitems, hnext]
  rfl

/-! ## All pages -/

/-- The cursor of a page is read as the pair of its last item. -/
def CursorOf (user : Int) (page : Page) (db : InboxDb) : Prop :=
  ∀ c, page.nextCursor = some c → ∃ i ∈ db.items.rows,
    page.items.getLast? = some (db.itemView user i) ∧
      decodeCursor (some c) = .ok (some (i.createdAt, i.id))

/-- The items of a page are wanted. -/
def ShowsWanted (user : Int) (f : Filters) (page : Page) (db : InboxDb) : Prop :=
  ∀ v ∈ page.items, ∃ i ∈ wanted user f db, v = db.itemView user i

/-- The items of the pages that are read of the versions. -/
def shownPages (user : Int) (dbs : List InboxDb) (pages : List (List ItemRow)) :
    List (List ItemView) :=
  List.zipWith (fun db rows => rows.map (db.itemView user)) dbs pages

/-- What a client gets that follows the cursors from a border. -/
structure Followed (user : Int) (f : Filters) (border : Option (Int × Int)) (dbs : List InboxDb)
    (result : List Page × Ending) : Prop where
  items : result.1.map Page.items = shownPages user dbs
    (Keyset.pages ItemRow.feedKey f.limitOr (border.map toLex) (dbs.map (wanted user f)))
  ended : result.2 = .ended ↔ Keyset.exhausted ItemRow.feedKey f.limitOr (border.map toLex)
    (dbs.map (wanted user f)) = true
  answered : ∀ e, result.2 ≠ .failed e
  cursors : List.Forall₂ (CursorOf user) result.1 (dbs.take result.1.length)
  sound : List.Forall₂ (ShowsWanted user f) result.1 (dbs.take result.1.length)

theorem nextCursor_last {limit : Nat} (h : rows.length ≤ limit) :
    nextCursor limit rows = .ok none := by
  unfold nextCursor
  cases rows[limit - 1]? with
  | none => rfl
  | some last => exact if_neg (by omega)

theorem nextCursor_more {limit : Nat} (h : ¬rows.length ≤ limit)
    (hlast : (rows.take limit).getLast? = some last) :
    nextCursor limit rows = some <$> encodeCursor last.createdAt last.id := by
  have hget : rows[limit - 1]? = some last := by
    rw [List.getLast?_eq_getElem?, List.length_take, Nat.min_eq_left (by omega)] at hlast
    rw [List.getElem?_take] at hlast
    split at hlast
    · exact hlast
    · cases hlast
  rw [nextCursor, hget]
  exact if_pos (by omega)

variable {f : Filters} {user : Int}

theorem follow_last (hf : f.Valid) (hc : decodeCursor cursor = .ok border) (later : List InboxDb)
    (h : (remaining user f border db).length ≤ f.limitOr) :
    follow user f cursor (db :: later) =
      ([⟨(remaining user f border db).map (db.itemView user), none⟩], .ended) := by
  rw [follow, feed_eq hf hc, nextCursor_last h, List.take_of_length_le h]
  rfl

theorem follow_more (hf : f.Valid) (hc : decodeCursor cursor = .ok border) (later : List InboxDb)
    (h : ¬(remaining user f border db).length ≤ f.limitOr)
    (hlast : ((remaining user f border db).take f.limitOr).getLast? = some last) {c : Str}
    (hencode : encodeCursor last.createdAt last.id = .ok c) :
    follow user f cursor (db :: later) =
      (⟨((remaining user f border db).take f.limitOr).map (db.itemView user), some c⟩ ::
        (follow user f (some c) later).1, (follow user f (some c) later).2) := by
  rw [follow, feed_eq hf hc, nextCursor_more h hlast, hencode]
  rfl

theorem follow_failed (hf : f.Valid) (hc : decodeCursor cursor = .ok border)
    (later : List InboxDb) (h : ¬(remaining user f border db).length ≤ f.limitOr)
    (hlast : ((remaining user f border db).take f.limitOr).getLast? = some last) {e : Error}
    (hencode : encodeCursor last.createdAt last.id = .error e) :
    follow user f cursor (db :: later) = ([], .failed e) := by
  rw [follow, feed_eq hf hc, nextCursor_more h hlast, hencode]
  rfl

/-- As long as every border has a year of four digits, the client reads the pages. -/
theorem followed (hr : Rfc3339) (hf : f.Valid) {dbs : List InboxDb}
    (hnumbered : ∀ db ∈ dbs, Numbered db) :
    ∀ {cursor : Option Str} {border : Option (Int × Int)}, decodeCursor cursor = .ok border →
      (∀ i ∈ Keyset.borders ItemRow.feedKey f.limitOr (border.map toLex) (dbs.map (wanted user f)),
        Dated i.createdAt) →
      Followed user f border dbs (follow user f cursor dbs) := by
  induction dbs with
  | nil =>
      intro cursor border hc hdated
      exact ⟨rfl, ⟨nofun, nofun⟩, nofun, .nil, .nil⟩
  | cons db later ih =>
      intro cursor border hc hdated
      have hlater := fun db' h => hnumbered db' (List.mem_cons_of_mem _ h)
      have hshows : ∀ rows : List ItemRow, (∀ i ∈ rows, i ∈ remaining user f border db) →
          ∀ next, ShowsWanted user f ⟨rows.map (db.itemView user), next⟩ db := by
        intro rows hrows next v hv
        obtain ⟨i, hi, rfl⟩ := List.mem_map.mp hv
        exact ⟨i, (Keyset.mem_rest.mp (hrows i hi)).1, rfl⟩
      by_cases hmore : (remaining user f border db).length ≤ f.limitOr
      · rw [follow_last hf hc later hmore]
        refine ⟨?_, ⟨fun _ => Keyset.exhausted_last hmore, fun _ => rfl⟩, nofun, .cons nofun .nil,
          .cons (hshows _ (fun i hi => hi) none) .nil⟩
        rw [List.map_cons, List.map_cons, Keyset.pages_last hmore, shownPages,
          List.zipWith_cons_cons, List.zipWith_nil_right]
        rfl
      · obtain ⟨last, hlast⟩ := Keyset.exists_last hf.limit_pos hmore
        have hmem : last ∈ db.items.rows :=
          (mem_remaining (List.mem_of_mem_take (List.mem_of_getLast? hlast))).1
        have hnum := hnumbered db List.mem_cons_self
        rw [List.map_cons, Keyset.borders_more hmore hlast] at hdated
        rcases encodeCursor_cases hr (t := last.createdAt) (hnum.low last hmem)
            (hnum.high last hmem) with ⟨-, c, hencode, hdecode⟩ | ⟨hnot, -⟩
        · rw [follow_more hf hc later hmore hlast hencode]
          have hrest := ih hlater hdecode fun i hi => hdated i (List.mem_cons_of_mem _ hi)
          refine ⟨?_, ?_, hrest.answered, .cons ?_ hrest.cursors,
            .cons (hshows _ (fun i hi => List.mem_of_mem_take hi) (some c)) hrest.sound⟩
          · rw [List.map_cons, List.map_cons, Keyset.pages_more hmore hlast, hrest.items]
            rfl
          · rw [List.map_cons, Keyset.exhausted_more hmore hlast]
            exact hrest.ended
          · intro c' hc'
            cases hc'
            refine ⟨last, hmem, ?_, hdecode⟩
            show (((remaining user f border db).take f.limitOr).map _).getLast? = _
            rw [List.getLast?_map, hlast, Option.map_some]
        · exact absurd (hdated last List.mem_cons_self) hnot

/-- Where the client is always answered and every cursor is read, the borders have years of four
digits. -/
theorem dated_of_follow (hr : Rfc3339) (hf : f.Valid) (hnumbered : ∀ db ∈ dbs, Numbered db) :
    ∀ {cursor : Option Str} {border : Option (Int × Int)}, decodeCursor cursor = .ok border →
      (∀ e, (follow user f cursor dbs).2 ≠ .failed e) →
      (∀ page ∈ (follow user f cursor dbs).1, ∀ c, page.nextCursor = some c →
        ∃ pair, decodeCursor (some c) = .ok pair) →
      ∀ i ∈ Keyset.borders ItemRow.feedKey f.limitOr (border.map toLex) (dbs.map (wanted user f)),
        Dated i.createdAt := by
  induction dbs with
  | nil =>
      intro cursor border hc hanswered hcursors i hi
      cases hi
  | cons db later ih =>
      intro cursor border hc hanswered hcursors i hi
      have hlater := fun db' h => hnumbered db' (List.mem_cons_of_mem _ h)
      rw [List.map_cons] at hi
      by_cases hmore : (remaining user f border db).length ≤ f.limitOr
      · rw [Keyset.borders_last hmore] at hi
        cases hi
      · obtain ⟨last, hlast⟩ := Keyset.exists_last hf.limit_pos hmore
        have hmem : last ∈ db.items.rows :=
          (mem_remaining (List.mem_of_mem_take (List.mem_of_getLast? hlast))).1
        have hnum := hnumbered db List.mem_cons_self
        rw [Keyset.borders_more hmore hlast] at hi
        rcases encodeCursor_cases hr (t := last.createdAt) (hnum.low last hmem)
            (hnum.high last hmem) with ⟨hdated, c, hencode, hdecode⟩ |
          ⟨-, herror | ⟨c, hencode, hdecode⟩⟩
        · rw [follow_more hf hc later hmore hlast hencode] at hanswered hcursors
          rcases List.mem_cons.mp hi with rfl | hi
          · exact hdated
          · exact ih hlater hdecode hanswered
              (fun page hpage => hcursors page (List.mem_cons_of_mem _ hpage)) i hi
        · rw [follow_failed hf hc later hmore hlast herror] at hanswered
          exact absurd rfl (hanswered .invalid)
        · rw [follow_more hf hc later hmore hlast hencode] at hcursors
          obtain ⟨pair, hpair⟩ := hcursors _ List.mem_cons_self c rfl
          rw [hdecode] at hpair
          cases hpair

/-! ## The feed is covered -/

/-- The numbers that are shown are those of the rows. -/
theorem ids_shown : ∀ {pages : List (List ItemRow)},
    pages.length ≤ dbs.length →
    (shownPages user dbs pages).flatten.map ItemView.id = pages.flatten.map ItemRow.id := by
  induction dbs with
  | nil =>
      intro pages h
      rw [List.length_eq_zero_iff.mp (Nat.le_zero.mp h)]
      rfl
  | cons db later ih =>
      intro pages h
      cases pages with
      | nil => rfl
      | cons page pages =>
          have htail := @ih pages (Nat.le_of_succ_le_succ h)
          rw [shownPages, List.zipWith_cons_cons, List.flatten_cons, List.flatten_cons,
            List.map_append, List.map_append, List.map_map]
          exact congrArg _ htail

theorem shownPages_replicate {n : Nat} : ∀ {pages : List (List ItemRow)},
    pages.length ≤ n →
      shownPages user (List.replicate n db) pages = pages.map (List.map (db.itemView user)) := by
  induction n with
  | zero =>
      intro pages h
      rw [List.length_eq_zero_iff.mp (Nat.le_zero.mp h)]
      rfl
  | succ n ih =>
      intro pages h
      cases pages with
      | nil => rfl
      | cons page pages =>
          rw [List.map_cons, ← ih (Nat.le_of_succ_le_succ h)]
          rfl

/-- What following the cursors should come to, whatever happens between the calls. -/
structure FeedCovered (user : Int) (f : Filters) (dbs : List InboxDb) : Prop where
  /-- No call fails. -/
  answered : ∀ e, (follow user f none dbs).2 ≠ .failed e
  /-- Every cursor is read as the pair it was written from. -/
  cursors : List.Forall₂ (CursorOf user) (follow user f none dbs).1
    (dbs.take (follow user f none dbs).1.length)
  /-- An item that is returned satisfies the filters. -/
  sound : List.Forall₂ (ShowsWanted user f) (follow user f none dbs).1
    (dbs.take (follow user f none dbs).1.length)
  /-- No item is returned twice. -/
  once : (((follow user f none dbs).1.flatMap Page.items).map ItemView.id).Nodup
  /-- An item that satisfies the filters throughout is returned. -/
  complete : (follow user f none dbs).2 = .ended → ∀ id,
    (∀ db ∈ dbs.take (follow user f none dbs).1.length, ∃ i ∈ wanted user f db, i.id = id) →
      id ∈ ((follow user f none dbs).1.flatMap Page.items).map ItemView.id
  /-- Of a table that does not change all items are returned in their order. -/
  still : ∀ db n, dbs = List.replicate n db → (wanted user f db).length < n →
    (follow user f none dbs).2 = .ended ∧ (follow user f none dbs).1.flatMap Page.items =
      (Keyset.sorted ItemRow.feedKey (wanted user f db)).map (db.itemView user)

theorem FeedCovered.of_dated (hr : Rfc3339) (hf : f.Valid) {dbs : List InboxDb} (hv : Versions dbs)
    (hdated : ∀ i ∈ Keyset.borders ItemRow.feedKey f.limitOr none (dbs.map (wanted user f)),
      Dated i.createdAt) : FeedCovered user f dbs := by
  have h := @followed _ f user hr hf dbs hv.numbered none none rfl hdated
  have hlength : (Keyset.pages ItemRow.feedKey f.limitOr none (dbs.map (wanted user f))).length ≤
      dbs.length := by
    have hle : (Keyset.pages ItemRow.feedKey f.limitOr none (dbs.map (wanted user f))).length ≤
        (dbs.map (wanted user f)).length := Keyset.length_pages_le
    rwa [List.length_map] at hle
  have hids : ((follow user f none dbs).1.flatMap Page.items).map ItemView.id =
      (Keyset.pages ItemRow.feedKey f.limitOr none (dbs.map (wanted user f))).flatten.map
        ItemRow.id := by
    rw [← ids_shown hlength, List.flatMap_def, h.items]
    rfl
  have hkeys :
      ∀ rows ∈ dbs.map (wanted user f), rows.Pairwise fun a b => a.feedKey ≠ b.feedKey := by
    intro rows hrows
    obtain ⟨db, -, rfl⟩ := List.mem_map.mp hrows
    exact feedKey_ne (wanted_sublist user f db)
  have hread : ∀ i ∈ (Keyset.pages ItemRow.feedKey f.limitOr none
      (dbs.map (wanted user f))).flatten, ∃ db ∈ dbs, i ∈ db.items.rows := by
    intro i hi
    obtain ⟨rows, hrows, hi⟩ := Keyset.exists_of_mem_pages hi
    obtain ⟨db, hdb, rfl⟩ := List.mem_map.mp hrows
    exact ⟨db, hdb, (wanted_sublist user f db).subset hi⟩
  refine ⟨h.answered, h.cursors, h.sound, ?_, ?_, ?_⟩
  · rw [hids]
    refine List.pairwise_map.mpr ((Keyset.pages_strict hf.limit_pos hkeys none).imp_of_mem ?_)
    intro a b ha hb hlt hid
    obtain ⟨db, hdb, ha⟩ := hread a ha
    obtain ⟨db', hdb', hb⟩ := hread b hb
    -- an item that moved between two pages keeps its date, hence its key
    have hcreated := hv.created hdb hdb' ha hb hid
    rw [ItemRow.feedKey, ItemRow.feedKey, hcreated, hid] at hlt
    exact lt_irrefl _ hlt
  · intro hended id hall
    have hcount : (follow user f none dbs).1.length =
        (Keyset.pages ItemRow.feedKey f.limitOr none (dbs.map (wanted user f))).length := by
      have := congrArg List.length h.items
      rwa [List.length_map, shownPages, List.length_zipWith, Option.map_none,
        Nat.min_eq_right hlength] at this
    have hexhausted := h.ended.mp hended
    rw [hids, List.mem_map]
    rw [hcount] at hall
    obtain ⟨db₀, hdb₀, i₀, hi₀, hid₀⟩ : ∃ db₀ ∈ dbs, ∃ i₀ ∈ wanted user f db₀, i₀.id = id := by
      cases dbs with
      | nil => cases hexhausted
      | cons db later =>
          obtain ⟨i₀, hi₀, hid₀⟩ := hall db (by
            rw [List.map_cons, Keyset.pages, List.length_cons, List.take_succ_cons]
            exact List.mem_cons_self)
          exact ⟨db, List.mem_cons_self, i₀, hi₀, hid₀⟩
    -- its key is in every version that a page was read of, so a page covers it
    obtain ⟨r, hr, hkey⟩ :=
      Keyset.pages_cover hf.limit_pos (k := i₀.feedKey) hkeys hexhausted rfl (by
      intro rows hrows
      rw [Option.map_none, ← List.map_take] at hrows
      obtain ⟨db, hdb, rfl⟩ := List.mem_map.mp hrows
      obtain ⟨i, hi, hid⟩ := hall db hdb
      have hcreated := hv.created (List.mem_of_mem_take hdb) hdb₀
        ((wanted_sublist user f db).subset hi) ((wanted_sublist user f db₀).subset hi₀)
        (hid.trans hid₀.symm)
      refine ⟨i, hi, ?_⟩
      rw [ItemRow.feedKey, ItemRow.feedKey, hcreated, hid, hid₀])
    exact ⟨r, hr, (Prod.mk.inj (toLex.injective hkey)).2.trans hid₀⟩
  · rintro db n rfl hn
    have hrows : (Keyset.rest ItemRow.feedKey none (wanted user f db)).length < n := by
      rwa [Keyset.rest_none, Keyset.sorted, List.length_insertionSort]
    obtain ⟨hexhausted, hpages⟩ := Keyset.pages_replicate
      (feedKey_ne (wanted_sublist user f db)) hf.limit_pos n hrows
    rw [← List.map_replicate] at hexhausted hpages
    refine ⟨h.ended.mpr hexhausted, ?_⟩
    rw [List.flatMap_def, h.items, Option.map_none, ← Keyset.rest_none, ← hpages, List.map_flatten,
      shownPages_replicate (by rwa [List.length_replicate] at hlength)]

/-- **Following the cursors covers the feed** as long as every page that leaves items ends with one
from the years 0 to 9999. -/
theorem feed_covered_iff {dbs : List InboxDb} (hr : Rfc3339) (hf : f.Valid) (hv : Versions dbs) :
    FeedCovered user f dbs ↔
      ∀ i ∈ Keyset.borders ItemRow.feedKey f.limitOr none (dbs.map (wanted user f)),
        Dated i.createdAt := by
  constructor
  · intro h
    refine dated_of_follow hr hf hv.numbered rfl h.answered fun page hpage c hc => ?_
    obtain ⟨k, hk, rfl⟩ := List.mem_iff_getElem.mp hpage
    obtain ⟨i, -, -, hdecode⟩ := (List.forall₂_iff_get.mp h.cursors).2 k hk
      ((List.forall₂_iff_get.mp h.cursors).1 ▸ hk) c hc
    exact ⟨_, hdecode⟩
  · exact FeedCovered.of_dated hr hf hv

end

/-! ## Two items -/

namespace FeedScenario

/-- Writes one time of 1970 and one of the year 10000 as they are written, and the others of the
years with four digits as numbers. -/
@[reducible] def platform : FeedPlatform where
  rfc3339 t :=
    if t = 123456789 then some "1970-01-01T00:02:03.456789+00:00".toList
    else if Dated t then some (toString t).toList
    else if t = 253402300800000000 then some "+10000-01-01T00:00:00+00:00".toList
    else none
  parseRfc3339 text :=
    if text = "1970-01-01T00:02:03.456789+00:00".toList then some 123456789
    else if text = "+10000-01-01T00:00:00+00:00".toList then none
    else Text.parseSigned (-2 ^ 63) (2 ^ 63 - 1) text
  toLowercase c := [Text.toLower c]

attribute [local instance] platform

/-- A number is written without the signs of the other texts. -/
theorem plain_toString {t : Int} (ht : Dated t) {c : Char} (hc : c = '|' ∨ c = ':') :
    c ∉ (toString t).toList := by
  have hdigit : ∀ n : Nat, c ∉ n.repr.toList := by
    intro n hmem
    have := List.all_eq_true.mp (Text.all_digits_repr n) c hmem
    rcases hc with rfl | rfl <;> cases this
  cases t with
  | ofNat n => exact hdigit n
  | negSucc n =>
      show c ∉ ("-" ++ (n + 1).repr).toList
      rw [String.toList_append, List.mem_append, not_or]
      refine ⟨?_, hdigit _⟩
      rcases hc with rfl | rfl <;> decide

theorem rfc3339 : Rfc3339 where
  written t ht := by
    simp only [FeedPlatform.rfc3339, if_pos ht]
    split <;> rfl
  plain t text h := by
    simp only [FeedPlatform.rfc3339] at h
    split at h
    · cases h
      decide
    · split at h
      · rename_i ht
        cases h
        exact plain_toString ht (.inl rfl)
      · split at h
        · cases h
          decide
        · cases h
  reads t text ht h := by
    simp only [FeedPlatform.rfc3339, if_pos ht] at h
    simp only [FeedPlatform.parseRfc3339]
    split at h
    · rename_i hepoch
      cases h
      rw [if_pos rfl, hepoch]
    · cases h
      have hcolon : ':' ∉ (toString t).toList := plain_toString ht (.inr rfl)
      have hne : ∀ text : Str, ':' ∈ text → (toString t).toList ≠ text := by
        rintro text hmem heq
        exact hcolon (heq ▸ hmem)
      rw [if_neg (hne _ (by decide)), if_neg (hne _ (by decide))]
      obtain ⟨hlow, hhigh⟩ := ht
      exact Text.parseSigned_toString (by decide) (by omega) (by omega)
  signed t text ht h := by
    have hepoch : t ≠ 123456789 := by
      rintro rfl
      exact ht (by decide)
    simp only [FeedPlatform.rfc3339, if_neg ht, if_neg hepoch] at h
    split at h
    · cases h
      rfl
    · cases h

/-- Two items that came at one time. -/
def items (created : Int) : List ItemRow :=
  [(1, "one"), (2, "two")].map fun (n, text) => ⟨n, 1, text, text, none, none, "link", "bot",
    "pending", none, none, none, none, none, none, none, none, created, created, none, none, none⟩

def inbox (created : Int) : InboxDb where
  items := ⟨items created, by simp [items, itemRowSchema, ItemRow.checks, String.length],
    by simp [items, itemRowSchema]⟩
  categories := .empty _
  itemCategories := .empty _
  itemStars := .empty _
  rules := .empty _
  jobs := .empty _
  notifications := .empty _
  syncStates := .empty _
  ledger := ⟨.empty _, .empty _, .empty _, .empty _, 0, 0⟩
  teamMembers := []
  lastItem := 2
  lastCategory := 0
  lastRule := 0
  lastJob := 0
  lastSequence := 0

/-- Pages of one item. -/
def single : Filters := ⟨none, some 1, none, none, none, false, none⟩

theorem single_valid : single.Valid := ⟨by decide, by decide, by decide, nofun⟩

def isInvalid : Ending → Bool
  | .failed .invalid => true
  | _ => false

theorem eq_of_isInvalid {ending : Ending} (h : isInvalid ending = true) :
    ending = .failed .invalid := by
  unfold isInvalid at h
  split at h
  · rfl
  · cases h

theorem versions (created : Int) (n : Nat) : Versions (List.replicate n (inbox created)) where
  numbered db hdb := by
    rw [List.eq_of_mem_replicate hdb]
    refine ⟨?_, ?_, ?_⟩ <;> simp [inbox, items]
  changes := List.isChain_replicate_of_rel n .refl

end FeedScenario

open FeedScenario in
attribute [local instance] FeedScenario.platform in
theorem feed_covered_two : FeedCovered 1 single (List.replicate 3 (inbox 123456789)) :=
  (feed_covered_iff rfc3339 single_valid (versions _ 3)).mpr (by decide +kernel)

open FeedScenario in
attribute [local instance] FeedScenario.platform in
/-- The first page ends in the year 10000, and its cursor is not read. -/
theorem feed_lost : Rfc3339 ∧ single.Valid ∧
    Versions (List.replicate 3 (inbox 253402300800000000)) ∧
      ¬FeedCovered 1 single (List.replicate 3 (inbox 253402300800000000)) := by
  refine ⟨rfc3339, single_valid, versions _ 3, fun h => ?_⟩
  have hfailed : isInvalid
      (follow 1 single none (List.replicate 3 (inbox 253402300800000000))).2 = true := by
    decide +kernel
  exact h.answered .invalid (eq_of_isInvalid hfailed)

end YoinkCore.Inbox
