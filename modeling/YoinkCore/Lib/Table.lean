import Mathlib

/-!
# Relational tables with constraints

A table is a list of rows together with the two facts its schema promises:
every row passes the `CHECK` clauses, and no two rows clash on a `PRIMARY KEY`
or `UNIQUE` constraint. A statement that would break either is refused, so a
table that violates its schema cannot be built.

`find` reads a row by a key the schema keeps unique. The lemmas below say what
an `UPDATE`, an `INSERT` and a `DELETE` do to such a lookup.
-/

namespace YoinkCore.Lib

/-- What a schema asks of one row, and when two rows violate uniqueness. -/
structure Schema (ρ : Type) where
  check : ρ → Bool
  clash : ρ → ρ → Bool

/-- The rows of a table, with its constraints. -/
structure Table {ρ : Type} (S : Schema ρ) where
  rows : List ρ
  checked : ∀ r ∈ rows, S.check r = true
  unique : rows.Pairwise fun a b => S.clash a b = false

namespace Table

variable {ρ κ : Type} {S : Schema ρ}

variable {T U : Table S}

@[ext] theorem ext (h : T.rows = U.rows) : T = U := by
  obtain ⟨rows, _, _⟩ := T
  cases h
  rfl

/-- The table without rows. -/
def empty (S : Schema ρ) : Table S := ⟨[], by simp, List.Pairwise.nil⟩

/-- Accept a list of rows exactly when it satisfies every constraint. -/
def ofRows (S : Schema ρ) (rows : List ρ) : Option (Table S) :=
  if h : (∀ r ∈ rows, S.check r = true) ∧
      rows.Pairwise (fun a b => S.clash a b = false) then
    some ⟨rows, h.1, h.2⟩
  else none

/-- `UPDATE … SET f WHERE p`, with the number of rows affected. -/
def update (T : Table S) (p : ρ → Bool) (f : ρ → ρ) : Option (Table S × Nat) :=
  (ofRows S (T.rows.map fun r => if p r then f r else r)).map
    fun U => (U, T.rows.countP p)

/-- `INSERT INTO … VALUES r`. -/
def insert (T : Table S) (r : ρ) : Option (Table S) := ofRows S (T.rows ++ [r])

/-- `DELETE … WHERE p`, with the number of rows affected. -/
def delete (T : Table S) (p : ρ → Bool) : Table S × Nat :=
  (⟨T.rows.filter (!p ·),
    fun r hr => T.checked r (List.mem_of_mem_filter hr),
    T.unique.filter _⟩,
   T.rows.countP p)

/-! ## What a successful statement leaves behind -/

theorem ofRows_eq_some {rows : List ρ} : ofRows S rows = some T ↔ T.rows = rows := by
  unfold ofRows
  split
  · rename_i h
    rw [Option.some.injEq]
    constructor
    · rintro rfl
      rfl
    · exact fun e => Table.ext e.symm
  · rename_i h
    constructor
    · intro e
      cases e
    · rintro rfl
      exact absurd ⟨T.checked, T.unique⟩ h

theorem update_eq_some {p : ρ → Bool} {f : ρ → ρ} {n : Nat} :
    T.update p f = some (U, n) ↔
      U.rows = T.rows.map (fun r => if p r then f r else r) ∧
        n = T.rows.countP p := by
  unfold update
  rw [Option.map_eq_some_iff]
  constructor
  · rintro ⟨V, hV, he⟩
    cases he
    exact ⟨ofRows_eq_some.mp hV, rfl⟩
  · rintro ⟨hU, rfl⟩
    exact ⟨U, ofRows_eq_some.mpr hU, rfl⟩

/-- An `UPDATE` whose `WHERE` matches nothing succeeds and changes nothing. -/
theorem update_of_no_match {p : ρ → Bool} {f : ρ → ρ} (h : ∀ r ∈ T.rows, p r = false) :
    T.update p f = some (T, 0) := by
  rw [update_eq_some]
  constructor
  · conv_lhs => rw [← List.map_id T.rows]
    exact List.map_congr_left fun r hr => by simp [h r hr]
  · exact (List.countP_eq_zero.mpr fun r hr => by simp [h r hr]).symm

/-- An `UPDATE` that respects the constraints goes through. -/
theorem update_of_keeps {p : ρ → Bool} {f : ρ → ρ}
    (hcheck : ∀ r ∈ T.rows, p r = true → S.check (f r) = true)
    (hclash : ∀ a b, S.clash a b = false →
      S.clash (if p a then f a else a) (if p b then f b else b) = false) :
    ∃ U n, T.update p f = some (U, n) := by
  refine ⟨⟨T.rows.map fun r => if p r then f r else r, ?_, ?_⟩, _,
    update_eq_some.mpr ⟨rfl, rfl⟩⟩
  · intro r hr
    obtain ⟨a, ha, rfl⟩ := List.mem_map.mp hr
    split
    · rename_i hp
      exact hcheck a ha hp
    · exact T.checked a ha
  · exact List.pairwise_map.mpr (T.unique.imp fun {a b} h => hclash a b h)

theorem insert_eq_some {r : ρ} : T.insert r = some U ↔ U.rows = T.rows ++ [r] := ofRows_eq_some

/-- An `INSERT` that respects the constraints goes through. -/
theorem insert_of_apart {r : ρ} (hcheck : S.check r = true)
    (hclash : ∀ a ∈ T.rows, S.clash a r = false) : ∃ U, T.insert r = some U := by
  refine ⟨⟨T.rows ++ [r], ?_, ?_⟩, insert_eq_some.mpr rfl⟩
  · intro a ha
    rcases List.mem_append.mp ha with ha | ha
    · exact T.checked a ha
    · rw [List.mem_singleton.mp ha]
      exact hcheck
  · refine List.pairwise_append.mpr ⟨T.unique, List.pairwise_singleton _ r, fun a ha b hb => ?_⟩
    rw [List.mem_singleton.mp hb]
    exact hclash a ha

@[simp] theorem delete_rows (T : Table S) (p : ρ → Bool) :
    (T.delete p).1.rows = T.rows.filter (!p ·) := rfl

/-- Rows that clash, whichever comes first, are one row. -/
theorem eq_of_clash (T : Table S) {a b : ρ} (ha : a ∈ T.rows) (hb : b ∈ T.rows)
    (hab : S.clash a b = true) (hba : S.clash b a = true) : a = b := by
  by_contra hne
  let Apart (a b : ρ) : Prop := ¬ (S.clash a b = true ∧ S.clash b a = true)
  have hsymm : Std.Symm Apart := ⟨fun _ _ h hboth => h ⟨hboth.2, hboth.1⟩⟩
  have hapart : T.rows.Pairwise Apart := T.unique.imp fun h hboth => by
    rw [h] at hboth
    cases hboth.1
  exact hapart.forall ha hb hne ⟨hab, hba⟩

/-! ## Lookup by a unique key -/

/-- Rows with equal keys clash: the schema keeps `key` unique. -/
def Keyed (S : Schema ρ) (key : ρ → κ) : Prop :=
  ∀ a b, key a = key b → S.clash a b = true

variable [DecidableEq κ]

/-- The row with a given key. -/
def find (T : Table S) (key : ρ → κ) (k : κ) : Option ρ :=
  T.rows.find? fun r => decide (key r = k)

/-- `INSERT INTO … VALUES r ON CONFLICT (key) DO UPDATE SET f`. -/
def upsert (T : Table S) (key : ρ → κ) (r : ρ) (f : ρ → ρ) : Option (Table S) :=
  if (T.find key (key r)).isSome then
    (T.update (fun a => decide (key a = key r)) f).map Prod.fst
  else T.insert r

theorem key_of_find {key : ρ → κ} {k : κ} {r : ρ} (h : T.find key k = some r) : key r = k := by
  have := List.find?_some h
  simpa using this

theorem mem_of_find {key : ρ → κ} {k : κ} {r : ρ} (h : T.find key k = some r) : r ∈ T.rows :=
  List.mem_of_find?_eq_some h

theorem find_eq_none {key : ρ → κ} {k : κ} : T.find key k = none ↔ ∀ r ∈ T.rows, key r ≠ k := by
  simp [find]

omit [DecidableEq κ] in
theorem keys_nodup (T : Table S) {key : ρ → κ} (hk : Keyed S key) :
    (T.rows.map key).Nodup := by
  rw [List.Nodup, List.pairwise_map]
  refine T.unique.imp fun {a b} hc he => ?_
  rw [hk a b he] at hc
  cases hc

theorem find_eq_some {key : ρ → κ} (hk : Keyed S key) {k : κ} {r : ρ} :
    T.find key k = some r ↔ r ∈ T.rows ∧ key r = k := by
  constructor
  · exact fun h => ⟨mem_of_find h, key_of_find h⟩
  · rintro ⟨hr, rfl⟩
    cases hf : T.find key (key r) with
    | none => exact absurd rfl (find_eq_none.mp hf r hr)
    | some r' =>
        rw [List.inj_on_of_nodup_map (T.keys_nodup hk) (mem_of_find hf) hr
          (key_of_find hf)]

/-- An `UPDATE` that keeps the keys rewrites each row in place. -/
theorem find_update {key : ρ → κ} {p : ρ → Bool} {f : ρ → ρ} {n : Nat}
    (hf : ∀ r, key (f r) = key r) (h : T.update p f = some (U, n)) (k : κ) :
    U.find key k = (T.find key k).map fun r => if p r then f r else r := by
  rw [find, (update_eq_some.mp h).1, List.find?_map, find]
  congr 2
  funext r
  by_cases hp : p r <;> simp [hp, hf]

theorem find_insert {key : ρ → κ} {r : ρ} (h : T.insert r = some U) (k : κ) :
    U.find key k =
      (T.find key k).or (if key r = k then some r else none) := by
  rw [find, insert_eq_some.mp h, List.find?_append, find]
  by_cases he : key r = k <;> simp [he]

/-- An upsert changes the row under its key and no other. -/
theorem find_upsert {key : ρ → κ} {r : ρ} {f : ρ → ρ} (hf : ∀ a, key (f a) = key a)
    (h : T.upsert key r f = some U) (k : κ) :
    U.find key k =
      if k = key r then some ((T.find key k).elim r f) else T.find key k := by
  unfold upsert at h
  split at h
  · rename_i hs
    rw [Option.map_eq_some_iff] at h
    obtain ⟨⟨V, n⟩, hV, rfl⟩ := h
    obtain ⟨a, ha⟩ := Option.isSome_iff_exists.mp hs
    rw [find_update hf hV]
    split
    · rename_i hk
      subst hk
      simp [ha, key_of_find ha]
    · rename_i hk
      cases hfind : T.find key k with
      | none => rfl
      | some b => simp [key_of_find hfind, hk]
  · rename_i hs
    have hnone : T.find key (key r) = none := by simpa using hs
    rw [find_insert h]
    split
    · rename_i hk
      subst hk
      simp [hnone]
    · rename_i hk
      rw [if_neg (Ne.symm hk), Option.or_none]

/-! ## Replacing a row -/

/-- `ON CONFLICT … DO UPDATE` of every column but the key. -/
def Replaces (key : ρ → κ) (r : ρ) (f : ρ → ρ) : Prop :=
  (∀ a, key (f a) = key a) ∧ ∀ a, key a = key r → f a = r

/-- The row under its key is the new one, and no other changes. -/
theorem find_replace {key : ρ → κ} {r : ρ} {f : ρ → ρ} (hf : Replaces key r f)
    (h : T.upsert key r f = some U) (k : κ) :
    U.find key k = if k = key r then some r else T.find key k := by
  rw [find_upsert hf.1 h]
  split
  · rename_i hk
    cases ha : T.find key k with
    | none => rfl
    | some a =>
        rw [Option.elim_some, hf.2 a ((key_of_find ha).trans hk)]
  · rfl

theorem mem_replace {key : ρ → κ} (hk : Keyed S key) {r : ρ} {f : ρ → ρ} (hf : Replaces key r f)
    (h : T.upsert key r f = some U) {a : ρ} : a ∈ U.rows ↔ a = r ∨ a ∈ T.rows ∧ key a ≠ key r := by
  have hU : a ∈ U.rows ↔ U.find key (key a) = some a := by
    rw [find_eq_some hk]
    simp
  rw [hU, find_replace hf h]
  by_cases ha : key a = key r
  · rw [if_pos ha, Option.some.injEq]
    constructor
    · exact fun e => .inl e.symm
    · rintro (e | ⟨-, hn⟩)
      · exact e.symm
      · exact absurd ha hn
  · rw [if_neg ha, find_eq_some hk]
    constructor
    · exact fun e => .inr ⟨e.1, ha⟩
    · rintro (rfl | ⟨hm, -⟩)
      · exact absurd rfl ha
      · exact ⟨hm, rfl⟩

/-- Where only the key makes rows clash, a row that passes its checks can replace
the one under its key. -/
theorem upsert_of_check {key : ρ → κ} (hk : Keyed S key)
    (hc : ∀ a b, S.clash a b = true → key a = key b) {r : ρ} {f : ρ → ρ} (hf : Replaces key r f)
    (hr : S.check r = true) : ∃ U, T.upsert key r f = some U := by
  have apart : ∀ {a b : ρ}, key a ≠ key b → S.clash a b = false := by
    intro a b hne
    cases hab : S.clash a b with
    | false => rfl
    | true => exact absurd (hc a b hab) hne
  have keys : T.rows.Pairwise fun a b => key a ≠ key b :=
    T.unique.imp fun {a b} h he => by
      rw [hk a b he] at h
      cases h
  unfold upsert
  split
  · have hall : (∀ a ∈ T.rows.map (fun a => if decide (key a = key r) then f a else a),
        S.check a = true) ∧
        (T.rows.map fun a => if decide (key a = key r) then f a else a).Pairwise
          fun a b => S.clash a b = false := by
      constructor
      · intro a ha
        obtain ⟨b, hb, rfl⟩ := List.mem_map.mp ha
        by_cases hbr : key b = key r
        · simpa [hbr, hf.2 b hbr] using hr
        · simpa [hbr] using T.checked b hb
      · refine List.pairwise_map.mpr (keys.imp fun {a b} hne => apart ?_)
        split <;> split <;> simpa only [hf.1] using hne
    rw [update, ofRows, dif_pos hall]
    exact ⟨_, rfl⟩
  · rename_i hs
    have hnone : T.find key (key r) = none := by simpa using hs
    refine ⟨⟨T.rows ++ [r], ?_, ?_⟩, insert_eq_some.mpr rfl⟩
    · intro a ha
      rcases List.mem_append.mp ha with ha | ha
      · exact T.checked a ha
      · rw [List.mem_singleton.mp ha]
        exact hr
    · refine List.pairwise_append.mpr ⟨T.unique, List.pairwise_singleton _ _, ?_⟩
      intro a ha b hb
      rw [List.mem_singleton.mp hb]
      exact apart (find_eq_none.mp hnone a ha)

/-- A `WHERE` clause that fixes the key matches at most one row: the one
found under that key. -/
theorem countP_of_key {key : ρ → κ} (hk : Keyed S key) {p : ρ → Bool} {k : κ}
    (hp : ∀ r, p r = true → key r = k) :
    T.rows.countP p = if (T.find key k).any p then 1 else 0 := by
  have hle : T.rows.countP p ≤ 1 := by
    calc T.rows.countP p ≤ T.rows.countP (fun r => decide (key r = k)) :=
          List.countP_mono_left fun r _ h => by simpa using hp r h
      _ = (T.rows.map key).count k := by
          rw [List.count, List.countP_map]
          rfl
      _ ≤ 1 := List.nodup_iff_count_le_one.mp (T.keys_nodup hk) k
  split
  · rename_i h
    obtain ⟨r, hr, hpr⟩ := (Option.any_eq_true _ _).mp h
    have : 0 < T.rows.countP p :=
      List.countP_pos_iff.mpr ⟨r, mem_of_find hr, hpr⟩
    omega
  · rename_i h
    refine List.countP_eq_zero.mpr fun r hr hpr => h ?_
    have hf := (find_eq_some hk).mpr ⟨hr, hp r hpr⟩
    rw [hf]
    exact hpr

end Table

end YoinkCore.Lib
