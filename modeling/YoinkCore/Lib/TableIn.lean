import YoinkCore.Lib.Table
import YoinkCore.Lib.Transaction

/-!
# Statements on the tables of a state

`TableIn σ ε S` is a table of a state `σ`. A statement that would break a constraint of its
schema fails with the fault of the table, and an `INSERT` may give way to a row that is
there. `Serial` is a table whose rows are numbered; a number is never given twice.
-/

namespace YoinkCore.Lib

/-- A table of a state, and the error of a statement that breaks its constraints. -/
structure TableIn (σ ε : Type) {ρ : Type} (S : Schema ρ) where
  read : σ → Table S
  write : σ → Table S → σ
  fault : ε

/-- The number after the highest that was given. -/
def nextId (last : Int) (ids : List Int) : Int := ids.foldl max last + 1

theorem le_foldl_max (last : Int) : ∀ ids : List Int,
    last ≤ ids.foldl max last ∧ ∀ id ∈ ids, id ≤ ids.foldl max last
  | [] => ⟨Int.le_refl _, fun _ h => nomatch h⟩
  | i :: ids => by
      obtain ⟨hlast, hids⟩ := le_foldl_max (max last i) ids
      refine ⟨Int.le_trans (Int.le_max_left _ _) hlast, fun id hid => ?_⟩
      rcases List.mem_cons.mp hid with rfl | hid
      · exact Int.le_trans (Int.le_max_right _ _) hlast
      · exact hids id hid

/-! ## Updated rows -/

section

variable {ρ : Type} {p q : ρ → Bool} {f : ρ → ρ}

/-- The first of the rows that are written over. -/
theorem find?_updated (hpq : ∀ r, q r = p r) (hf : ∀ r, q (f r) = q r) (rows : List ρ) :
    (rows.map fun r => if p r then f r else r).find? q = (rows.find? q).map f := by
  induction rows with
  | nil => rfl
  | cons r rest ih =>
      rw [List.map_cons]
      by_cases hp : p r = true
      · rw [if_pos hp, List.find?_cons_of_pos ((hf r).trans ((hpq r).trans hp)),
          List.find?_cons_of_pos ((hpq r).trans hp), Option.map_some]
      · rw [if_neg hp, List.find?_cons_of_neg (by rwa [hpq r]),
          List.find?_cons_of_neg (by rwa [hpq r]), ih]

/-- Rows that are left alone are found as before. -/
theorem find?_not_updated (hq : ∀ r, p r = true → q r = false ∧ q (f r) = false)
    (rows : List ρ) : (rows.map fun r => if p r then f r else r).find? q = rows.find? q := by
  induction rows with
  | nil => rfl
  | cons r rest ih =>
      rw [List.map_cons]
      by_cases hp : p r = true
      · rw [if_pos hp, List.find?_cons_of_neg (by simp [(hq r hp).2]),
          List.find?_cons_of_neg (by simp [(hq r hp).1]), ih]
      · rw [if_neg hp, List.find?_cons, List.find?_cons, ih]

end

namespace TableIn

variable {σ ε ρ : Type} {S : Schema ρ} (T : TableIn σ ε S)

/-- The rows become those of the list, when they satisfy the constraints. -/
def replace (rows : List ρ) : Tx σ ε Unit := do
  let db ← get
  match Table.ofRows S rows with
  | none => throw T.fault
  | some table => set (T.write db table)

/-- `UPDATE … SET f WHERE p`, with the number of rows affected. -/
def update (p : ρ → Bool) (f : ρ → ρ) : Tx σ ε Nat := do
  let db ← get
  T.replace ((T.read db).rows.map fun r => if p r then f r else r)
  return (T.read db).rows.countP p

def insert (row : ρ) : Tx σ ε Unit := do
  let db ← get
  T.replace ((T.read db).rows ++ [row])

/-- `INSERT … ON CONFLICT … DO NOTHING`: whether the row is new. The `CHECK` clauses come
first. -/
def insertIgnoring (same : ρ → Bool) (row : ρ) : Tx σ ε Bool := do
  if !S.check row then throw T.fault
  let db ← get
  if (T.read db).rows.any same then return false
  T.replace ((T.read db).rows ++ [row])
  return true

/-- `INSERT … ON CONFLICT … DO UPDATE` -/
def upsert (same : ρ → Bool) (f : ρ → ρ) (row : ρ) : Tx σ ε Unit := do
  if (T.read (← get)).rows.any same then let _ ← T.update same f
  else T.insert row

/-- `DELETE … WHERE p`, with the number of rows affected. -/
def delete (p : ρ → Bool) : Tx σ ε Nat := do
  let db ← get
  set (T.write db ((T.read db).delete p).1)
  return (T.read db).rows.countP p

section

variable {T} {s s' : σ}

theorem replace_eq_ok {rows : List ρ} {u : Unit} :
    T.replace rows s = .ok (u, s') ↔
      ∃ table : Table S, table.rows = rows ∧ s' = T.write s table := by
  simp only [replace, Tx.bind_eq_ok, Tx.get_eq_ok]
  constructor
  · rintro ⟨_, _, ⟨rfl, rfl⟩, h⟩
    cases hrows : Table.ofRows S rows with
    | none =>
        rw [hrows] at h
        cases h
    | some table =>
        rw [hrows] at h
        exact ⟨table, Table.ofRows_eq_some.mp hrows, (Tx.set_eq_ok.mp h).symm⟩
  · rintro ⟨table, hrows, rfl⟩
    refine ⟨s, s, ⟨rfl, rfl⟩, ?_⟩
    rw [Table.ofRows_eq_some.mpr hrows]
    rfl

theorem update_eq_ok {p : ρ → Bool} {f : ρ → ρ} {n : Nat} :
    T.update p f s = .ok (n, s') ↔
      n = (T.read s).rows.countP p ∧ ∃ table : Table S,
        table.rows = (T.read s).rows.map (fun r => if p r then f r else r) ∧
          s' = T.write s table := by
  simp only [update, Tx.bind_eq_ok, Tx.get_eq_ok, replace_eq_ok, Tx.pure_eq_ok]
  constructor
  · rintro ⟨_, _, ⟨rfl, rfl⟩, _, _, ⟨table, hrows, rfl⟩, rfl, rfl⟩
    exact ⟨rfl, table, hrows, rfl⟩
  · rintro ⟨rfl, table, hrows, rfl⟩
    exact ⟨s, s, ⟨rfl, rfl⟩, ⟨⟩, _, ⟨table, hrows, rfl⟩, rfl, rfl⟩

theorem insert_eq_ok {row : ρ} {u : Unit} :
    T.insert row s = .ok (u, s') ↔
      ∃ table : Table S, table.rows = (T.read s).rows ++ [row] ∧ s' = T.write s table := by
  simp only [insert, Tx.bind_eq_ok, Tx.get_eq_ok, replace_eq_ok]
  constructor
  · rintro ⟨_, _, ⟨rfl, rfl⟩, h⟩
    exact h
  · exact fun h => ⟨s, s, ⟨rfl, rfl⟩, h⟩

theorem insertIgnoring_eq_ok {same : ρ → Bool} {row : ρ} {new : Bool} :
    T.insertIgnoring same row s = .ok (new, s') ↔
      S.check row = true ∧
        ((T.read s).rows.any same = true ∧ new = false ∧ s' = s ∨
          (T.read s).rows.any same = false ∧ new = true ∧
            ∃ table : Table S, table.rows = (T.read s).rows ++ [row] ∧ s' = T.write s table) := by
  unfold insertIgnoring
  cases hcheck : S.check row with
  | false => simp
  | true =>
      simp only [Bool.not_true, Bool.false_eq_true, if_false, true_and, Tx.bind_eq_ok,
        Tx.get_eq_ok]
      constructor
      · rintro ⟨_, _, ⟨rfl, rfl⟩, h⟩
        cases hsame : (T.read s).rows.any same with
        | true =>
            rw [hsame] at h
            obtain ⟨rfl, rfl⟩ := Tx.pure_eq_ok.mp h
            exact .inl ⟨rfl, rfl, rfl⟩
        | false =>
            rw [hsame] at h
            simp only [Bool.false_eq_true, if_false, Tx.bind_eq_ok, replace_eq_ok,
              Tx.pure_eq_ok] at h
            obtain ⟨_, _, htable, rfl, rfl⟩ := h
            exact .inr ⟨rfl, rfl, htable⟩
      · rintro (⟨hsame, rfl, rfl⟩ | ⟨hsame, rfl, htable⟩)
        · refine ⟨s', s', ⟨rfl, rfl⟩, ?_⟩
          rw [hsame]
          exact Tx.pure_eq_ok.mpr ⟨rfl, rfl⟩
        · refine ⟨s, s, ⟨rfl, rfl⟩, ?_⟩
          rw [hsame]
          simp only [Bool.false_eq_true, if_false, Tx.bind_eq_ok, replace_eq_ok, Tx.pure_eq_ok]
          exact ⟨⟨⟩, _, htable, trivial, rfl⟩

theorem upsert_writes {same : ρ → Bool} {f : ρ → ρ} {row : ρ} {u : Unit}
    (h : T.upsert same f row s = .ok (u, s')) : ∃ table : Table S, s' = T.write s table := by
  obtain ⟨_, _, hget, h⟩ := Tx.bind_eq_ok.mp h
  obtain ⟨rfl, rfl⟩ := Tx.get_eq_ok.mp hget
  rw [Tx.ite_apply_state] at h
  split at h
  · obtain ⟨_, _, h, hpure⟩ := Tx.bind_eq_ok.mp h
    obtain ⟨-, table, -, rfl⟩ := update_eq_ok.mp h
    obtain ⟨-, rfl⟩ := Tx.pure_eq_ok.mp hpure
    exact ⟨table, rfl⟩
  · obtain ⟨table, -, rfl⟩ := insert_eq_ok.mp h
    exact ⟨table, rfl⟩

theorem delete_eq_ok {p : ρ → Bool} {n : Nat} :
    T.delete p s = .ok (n, s') ↔
      n = (T.read s).rows.countP p ∧ s' = T.write s ((T.read s).delete p).1 := by
  simp only [delete, Tx.bind_eq_ok, Tx.get_eq_ok, Tx.set_eq_ok, Tx.pure_eq_ok]
  constructor
  · rintro ⟨_, _, ⟨rfl, rfl⟩, _, _, rfl, rfl, rfl⟩
    exact ⟨rfl, rfl⟩
  · rintro ⟨rfl, rfl⟩
    exact ⟨s, s, ⟨rfl, rfl⟩, ⟨⟩, _, rfl, rfl, rfl⟩

end

end TableIn

/-- A table whose rows are numbered. -/
structure Serial (σ ε : Type) {ρ : Type} (S : Schema ρ) extends TableIn σ ε S where
  key : ρ → Int
  last : σ → Int
  setLast : σ → Int → σ

namespace Serial

variable {σ ε ρ : Type} {S : Schema ρ} (T : Serial σ ε S)

/-- The number that the next row gets. -/
def next (db : σ) : Int := nextId (T.last db) ((T.read db).rows.map T.key)

def insertNext (row : Int → ρ) : Tx σ ε Int := do
  let id := T.next (← get)
  T.insert (row id)
  modify (T.setLast · id)
  return id

/-- `INSERT … ON CONFLICT … DO NOTHING` of a numbered row: its number, if it is new. -/
def insertNextIgnoring (same : ρ → Bool) (row : Int → ρ) : Tx σ ε (Option Int) := do
  let id := T.next (← get)
  if ← T.insertIgnoring same (row id) then
    modify (T.setLast · id)
    return some id
  else return none

theorem insertNext_eq_ok {T : Serial σ ε S} {s s' : σ} {row : Int → ρ} {id : Int} :
    T.insertNext row s = .ok (id, s') ↔
      id = T.next s ∧ ∃ table : Table S, table.rows = (T.read s).rows ++ [row id] ∧
        s' = T.setLast (T.write s table) id := by
  simp only [insertNext, Tx.bind_eq_ok, Tx.get_eq_ok, TableIn.insert_eq_ok, Tx.pure_eq_ok]
  constructor
  · rintro ⟨_, _, ⟨rfl, rfl⟩, _, _, ⟨table, hrows, rfl⟩, _, _, hlast, rfl, rfl⟩
    cases hlast
    exact ⟨rfl, table, hrows, rfl⟩
  · rintro ⟨rfl, table, hrows, rfl⟩
    exact ⟨s, s, ⟨rfl, rfl⟩, ⟨⟩, _, ⟨table, hrows, rfl⟩, ⟨⟩, _, rfl, rfl, rfl⟩

theorem insertNextIgnoring_eq_ok {T : Serial σ ε S} {s s' : σ} {same : ρ → Bool}
    {row : Int → ρ} {id : Option Int} :
    T.insertNextIgnoring same row s = .ok (id, s') ↔
      S.check (row (T.next s)) = true ∧
        ((T.read s).rows.any same = true ∧ id = none ∧ s' = s ∨
          (T.read s).rows.any same = false ∧ id = some (T.next s) ∧
            ∃ table : Table S, table.rows = (T.read s).rows ++ [row (T.next s)] ∧
              s' = T.setLast (T.write s table) (T.next s)) := by
  simp only [insertNextIgnoring, Tx.bind_eq_ok, Tx.get_eq_ok, TableIn.insertIgnoring_eq_ok]
  constructor
  · rintro ⟨_, _, ⟨rfl, rfl⟩, _, _, ⟨hcheck, hnew⟩, h⟩
    refine ⟨hcheck, ?_⟩
    rcases hnew with ⟨hsame, rfl, rfl⟩ | ⟨hsame, rfl, table, hrows, rfl⟩
    · simp only [Bool.false_eq_true, if_false] at h
      obtain ⟨rfl, rfl⟩ := Tx.pure_eq_ok.mp h
      exact .inl ⟨hsame, rfl, rfl⟩
    · simp only [if_true, Tx.bind_eq_ok, Tx.pure_eq_ok] at h
      obtain ⟨_, _, hlast, rfl, rfl⟩ := h
      cases hlast
      exact .inr ⟨hsame, rfl, table, hrows, rfl⟩
  · rintro ⟨hcheck, ⟨hsame, rfl, rfl⟩ | ⟨hsame, rfl, table, hrows, rfl⟩⟩
    · exact ⟨s', s', ⟨rfl, rfl⟩, false, s', ⟨hcheck, .inl ⟨hsame, rfl, rfl⟩⟩,
        Tx.pure_eq_ok.mpr ⟨rfl, rfl⟩⟩
    · refine ⟨s, s, ⟨rfl, rfl⟩, true, _, ⟨hcheck, .inr ⟨hsame, rfl, table, hrows, rfl⟩⟩, ?_⟩
      simp only [if_true, Tx.bind_eq_ok, Tx.pure_eq_ok]
      exact ⟨⟨⟩, _, rfl, trivial, rfl⟩

end Serial

end YoinkCore.Lib
