import Mathlib

/-!
# JSON documents

A document is kept as the text a serializer writes: integers stay exact, and a
floating-point leaf stands for the decimal text printed from that number. An
object is an association list with one entry per key; the order of the entries
carries no meaning.

`object` builds an object from the fields of a record, some of which may be
skipped. `get?` reads a field back; the simp lemmas compute it field by field,
so that a decoder applied to an encoder reduces without unfolding either.
-/

namespace YoinkCore.Lib

inductive Json where
  | null
  | bool (b : Bool)
  | int (n : Int)
  | float (x : Float)
  | str (s : String)
  | arr (items : List Json)
  | obj (fields : List (String × Json))

namespace Json

/-! ## Equality of documents -/

mutual

def beq : Json → Json → Bool
  | null, null => true
  | bool a, bool b => decide (a = b)
  | int a, int b => decide (a = b)
  | float a, float b => decide (a = b)
  | str a, str b => decide (a = b)
  | arr a, arr b => beqItems a b
  | obj a, obj b => beqFields a b
  | _, _ => false

def beqItems : List Json → List Json → Bool
  | [], [] => true
  | a :: as, b :: bs => beq a b && beqItems as bs
  | _, _ => false

def beqFields : List (String × Json) → List (String × Json) → Bool
  | [], [] => true
  | (k, a) :: as, (l, b) :: bs => decide (k = l) && beq a b && beqFields as bs
  | _, _ => false

end

mutual

theorem eq_of_beq : ∀ a b : Json, beq a b = true ↔ a = b
  | null, b => by cases b <;> simp [beq]
  | bool a, b => by cases b <;> simp [beq]
  | int a, b => by cases b <;> simp [beq]
  | float a, b => by cases b <;> simp [beq]
  | str a, b => by cases b <;> simp [beq]
  | arr as, b => by cases b <;> simp [beq, eq_of_beqItems as]
  | obj as, b => by cases b <;> simp [beq, eq_of_beqFields as]

theorem eq_of_beqItems : ∀ as bs : List Json, beqItems as bs = true ↔ as = bs
  | [], bs => by cases bs <;> simp [beqItems]
  | a :: as, bs => by
      cases bs <;> simp [beqItems, eq_of_beq a, eq_of_beqItems as]

theorem eq_of_beqFields :
    ∀ as bs : List (String × Json), beqFields as bs = true ↔ as = bs
  | [], bs => by cases bs <;> simp [beqFields]
  | (k, a) :: as, bs => by
      cases bs with
      | nil => simp [beqFields]
      | cons f fs =>
          obtain ⟨l, b⟩ := f
          simp [beqFields, eq_of_beq a, eq_of_beqFields as, and_assoc]

end

instance : DecidableEq Json := fun a b =>
  decidable_of_iff (beq a b = true) (eq_of_beq a b)

mutual

/-- Equality of the values documents stand for: floating-point leaves are compared as
numbers. -/
def sameValue : Json → Json → Bool
  | null, null => true
  | bool a, bool b => a == b
  | int a, int b => a == b
  | float a, float b => a == b
  | str a, str b => a == b
  | arr a, arr b => sameItems a b
  | obj a, obj b => sameFields a b
  | _, _ => false

def sameItems : List Json → List Json → Bool
  | [], [] => true
  | a :: as, b :: bs => sameValue a b && sameItems as bs
  | _, _ => false

def sameFields : List (String × Json) → List (String × Json) → Bool
  | [], [] => true
  | (k, a) :: as, (l, b) :: bs => k == l && sameValue a b && sameFields as bs
  | _, _ => false

end

/-! ## Fields of an object -/

/-- The value stored under a key. -/
def get? (fields : List (String × Json)) (key : String) : Option Json :=
  match fields with
  | [] => none
  | (k, v) :: rest => if k = key then some v else get? rest key

/-- Drop a key. -/
def remove (fields : List (String × Json)) (key : String) : List (String × Json) :=
  fields.filter fun f => !decide (f.1 = key)

/-- Set a key, in the place it already has. -/
def insert (fields : List (String × Json)) (key : String) (value : Json) :
    List (String × Json) :=
  match fields with
  | [] => [(key, value)]
  | (k, v) :: rest =>
      if k = key then (k, value) :: rest else (k, v) :: insert rest key value

/-! ## Building objects -/

/-- A field that is always written. -/
def field (key : String) (value : Json) : Option (String × Json) := some (key, value)

/-- A field written only when it has a value. -/
def skipNone (key : String) (value : Option Json) : Option (String × Json) :=
  value.map fun v => (key, v)

/-- A flag written only when it is set. -/
def skipFalse (key : String) (flag : Bool) : Option (String × Json) :=
  if flag then some (key, .bool true) else none

/-- The members of an object from the fields of a record. -/
def members (fields : List (Option (String × Json))) : List (String × Json) :=
  fields.filterMap id

def object (fields : List (Option (String × Json))) : Json := .obj (members fields)

/-- An absent value is written as `null`. -/
def nullable (value : Option Json) : Json := value.getD .null

@[simp] theorem get?_members_nil (key : String) : get? (members []) key = none := rfl

@[simp] theorem get?_members_field (k key : String) (v : Json)
    (rest : List (Option (String × Json))) :
    get? (members (field k v :: rest)) key =
      if k = key then some v else get? (members rest) key := by
  by_cases h : k = key <;> simp [field, members, get?, h]

@[simp] theorem get?_members_skipNone (k key : String) (v : Option Json)
    (rest : List (Option (String × Json))) :
    get? (members (skipNone k v :: rest)) key =
      if k = key then v.or (get? (members rest) key) else get? (members rest) key := by
  cases v <;> by_cases h : k = key <;> simp [skipNone, members, get?, h]

@[simp] theorem get?_members_skipFalse (k key : String) (b : Bool)
    (rest : List (Option (String × Json))) :
    get? (members (skipFalse k b :: rest)) key =
      if k = key ∧ b then some (.bool true) else get? (members rest) key := by
  cases b <;> by_cases h : k = key <;> simp [skipFalse, members, get?, h]

@[simp] theorem remove_members_field (k key : String) (v : Json)
    (rest : List (Option (String × Json))) :
    remove (members (field k v :: rest)) key =
      if k = key then remove (members rest) key
      else (k, v) :: remove (members rest) key := by
  by_cases h : k = key <;> simp [remove, field, members, h]

@[simp] theorem remove_members_skipNone (k key : String) (v : Option Json)
    (rest : List (Option (String × Json))) :
    remove (members (skipNone k v :: rest)) key =
      if k = key then remove (members rest) key
      else (v.map fun v => (k, v)).toList ++ remove (members rest) key := by
  cases v <;> by_cases h : k = key <;> simp [skipNone, remove, members, h]

/-- A removed flag does not matter. -/
@[simp] theorem remove_members_skipFalse_self (key : String) (b : Bool)
    (rest : List (Option (String × Json))) :
    remove (members (skipFalse key b :: rest)) key = remove (members rest) key := by
  cases b <;> simp [skipFalse, remove, members]

theorem get?_remove (fields : List (String × Json)) {key other : String}
    (h : other ≠ key) : get? (remove fields key) other = get? fields other := by
  induction fields with
  | nil => rfl
  | cons f rest ih =>
      obtain ⟨k, v⟩ := f
      unfold remove at ih ⊢
      by_cases hk : k = key
      · subst hk
        simp [get?, ih, Ne.symm h]
      · simp [get?, hk, ih]

@[simp] theorem get?_insert_self (fields : List (String × Json)) (key : String)
    (value : Json) : get? (insert fields key value) key = some value := by
  induction fields with
  | nil => simp [insert, get?]
  | cons f rest ih =>
      obtain ⟨k, v⟩ := f
      by_cases hk : k = key <;> simp [insert, get?, hk, ih]

theorem remove_comm (fields : List (String × Json)) (k l : String) :
    remove (remove fields k) l = remove (remove fields l) k := by
  simp only [remove, List.filter_filter]
  exact congrArg (List.filter · fields) (funext fun f => Bool.and_comm _ _)

theorem get?_insert (fields : List (String × Json)) (value : Json)
    {key other : String} (h : other ≠ key) :
    get? (insert fields key value) other = get? fields other := by
  induction fields with
  | nil => simp [insert, get?, Ne.symm h]
  | cons f rest ih =>
      obtain ⟨k, v⟩ := f
      by_cases hk : k = key
      · subst hk
        simp [insert, get?, Ne.symm h]
      · simp [insert, get?, hk, ih]

theorem get?_eq_none {fields : List (String × Json)} {key : String} :
    get? fields key = none ↔ ∀ f ∈ fields, f.1 ≠ key := by
  induction fields with
  | nil => simp [get?]
  | cons f rest ih =>
      obtain ⟨k, v⟩ := f
      by_cases hk : k = key <;> simp [get?, hk, ih]

/-! ## Reading the fields of a record -/

variable {α : Type}

theorem some_bind_eq {β : Type} (a : α) (f : α → Option β) : (some a >>= f) = f a := rfl

/-- Only known keys are accepted. -/
def knownKeys (fields : List (String × Json)) (names : List String) : Bool :=
  fields.all fun f => decide (f.1 ∈ names)

/-- A field without default. -/
def required (fields : List (String × Json)) (key : String)
    (read : Json → Option α) : Option α :=
  (get? fields key).bind read

/-- A field that falls back on a default when the key is absent. -/
def withDefault (fields : List (String × Json)) (key : String)
    (read : Json → Option α) (default : α) : Option α :=
  (get? fields key).elim (some default) read

/-- An optional value: `null` means none. -/
def orNull (read : Json → Option α) : Json → Option (Option α)
  | .null => some none
  | v => (read v).map some

def asBool : Json → Option Bool
  | .bool b => some b
  | _ => none

def asStr : Json → Option String
  | .str s => some s
  | _ => none

/-- An integer between two bounds, those of a machine type. -/
def asInt (lo hi : Int) : Json → Option Int
  | .int n => if lo ≤ n ∧ n ≤ hi then some n else none
  | _ => none

def asNat (hi : Nat) (v : Json) : Option Nat := (asInt 0 hi v).map Int.toNat

def asArr : Json → Option (List Json)
  | .arr items => some items
  | _ => none

def asObj : Json → Option (List (String × Json))
  | .obj fields => some fields
  | _ => none

/-- `Value::as_i64`. -/
def asI64 : Json → Option Int := asInt (-2 ^ 63) (2 ^ 63 - 1)

/-- `Value::get`: only an object has fields. -/
def member? (v : Json) (key : String) : Option Json := (asObj v).bind (get? · key)

/-- `v[key]`: `null` where there is no such field. -/
def entry (v : Json) (key : String) : Json := (member? v key).getD .null

/-- `v[key] = value`, for an object. -/
def withEntry (v : Json) (key : String) (value : Json) : Json :=
  match v with
  | .obj fields => .obj (insert fields key value)
  | _ => .obj [(key, value)]

/-- Other fields are left alone. -/
theorem entry_withEntry (v value : Json) {key other : String} (h : other ≠ key) :
    (v.withEntry key value).entry other = v.entry other := by
  unfold entry member? withEntry
  cases v with
  | obj fields =>
      show (get? (insert fields key value) other).getD .null = (get? fields other).getD .null
      rw [get?_insert fields value h]
  | _ => simp [asObj, get?, Ne.symm h]

@[simp] theorem asNat_int {hi n : Nat} (h : n ≤ hi) : asNat hi (.int n) = some n := by
  have : (n : Int) ≤ (hi : Int) := by exact_mod_cast h
  simp [asNat, asInt, this]

@[simp] theorem asInt_int {lo hi n : Int} (h : lo ≤ n ∧ n ≤ hi) :
    asInt lo hi (.int n) = some n := by
  simp [asInt, h]

@[simp] theorem orNull_null {read : Json → Option α} : orNull read .null = some none :=
  rfl

theorem orNull_nullable {read : Json → Option α} {write : α → Json} {x : Option α}
    (hn : ∀ a, write a ≠ .null) (h : ∀ a ∈ x, read (write a) = some a) :
    orNull read (nullable (x.map write)) = some x := by
  cases x with
  | none => rfl
  | some a =>
      have ha := h a rfl
      show orNull read (write a) = _
      unfold orNull
      split
      · rename_i he
        exact absurd he (hn a)
      · rw [ha]
        rfl

theorem nullable_map_injective {write : α → Json} {x y : Option α}
    (hn : ∀ a, write a ≠ .null) (h : nullable (x.map write) = nullable (y.map write)) :
    x.map write = y.map write := by
  cases x <;> cases y
  · rfl
  · exact absurd h.symm (hn _)
  · exact absurd h (hn _)
  · exact congrArg some h

/-- A skipped field reads back as none. -/
theorem elim_skipped {read : Json → Option (Option α)} {write : α → Json}
    {x : Option α} (h : ∀ a ∈ x, read (write a) = some (some a)) :
    (x.map write).elim (some none) read = some x := by
  cases x with
  | none => rfl
  | some a => exact h a rfl

@[simp] theorem knownKeys_nil (names : List String) :
    knownKeys (members []) names = true := rfl

@[simp] theorem knownKeys_field (k : String) (v : Json)
    (rest : List (Option (String × Json))) (names : List String) :
    knownKeys (members (field k v :: rest)) names =
      (decide (k ∈ names) && knownKeys (members rest) names) := rfl

variable {rest : List (Option (String × Json))} {names : List String}

theorem knownKeys_skipNone {k : String} {v : Option Json} (h : k ∈ names) :
    knownKeys (members (skipNone k v :: rest)) names =
      knownKeys (members rest) names := by
  cases v <;> simp [skipNone, members, knownKeys, h]

theorem knownKeys_skipFalse {k : String} {b : Bool} (h : k ∈ names) :
    knownKeys (members (skipFalse k b :: rest)) names =
      knownKeys (members rest) names := by
  cases b <;> simp [skipFalse, members, knownKeys, h]

end Json

end YoinkCore.Lib
