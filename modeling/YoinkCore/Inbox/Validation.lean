import YoinkCore.Inbox.Notification

/-!
# Folder input

What the HTTP routes make of the body of a folder: unknown fields are dropped, and the
scalars of the others are brought to their types. `folderPatch` is the body of a partial
update; it has four fields, and never a parent.
-/

namespace YoinkCore.Inbox.Validation

open Lib

/-! ## Scalars -/

def string (v : Json) (min : Nat) (max : Option Nat) : Except Error String :=
  match v.asStr with
  | some s => if min ≤ s.length ∧ max.all (s.length ≤ ·) then .ok s else .error .invalid
  | none => .error .invalid

/-- Every underscore stands between two digits. -/
def groupedDigits : Option Char → Text.Str → Bool
  | _, [] => true
  | before, c :: rest =>
      (c ≠ '_' || (before.any Text.isDigit && rest.head?.any Text.isDigit)) &&
        groupedDigits (some c) rest

/-- An integer in a string: decimal zeros may follow it. -/
def integerText (s : String) : Option Int :=
  let s := Text.trim s.toList
  if !groupedDigits none s then none
  else
    let s := s.filter (· ≠ '_')
    let parse := Text.parseSigned (-2 ^ 63) (2 ^ 63 - 1)
    (parse s).or (do
      let (whole, fraction) ← Text.splitOnce ['.'] s
      if fraction.isEmpty || !fraction.all (· = '0') then none else parse whole)

def integer (v : Json) : Except Error Int :=
  let value := match v with
    | .int _ => v.asI64
    | .bool b => some (if b then 1 else 0)
    | .str s => integerText s
    | .float x =>
        if x.isFinite && x.floor == x && -9223372036854775808 ≤ x && x < 9223372036854775808
        then some x.toInt64.toInt else none
    | _ => none
  value.elim (.error .invalid) .ok

def boolean (v : Json) : Except Error Bool :=
  match v with
  | .bool b => .ok b
  | .int 0 => .ok false
  | .int 1 => .ok true
  | .float x => if x == 0 then .ok false else if x == 1 then .ok true else .error .invalid
  | .str s =>
      let s := String.ofList (s.toList.map Text.toLower)
      if ["0", "off", "f", "false", "n", "no"].contains s then .ok false
      else if ["1", "on", "t", "true", "y", "yes"].contains s then .ok true
      else .error .invalid
  | _ => .error .invalid

/-! ## Slugs -/

/-- `char::to_lowercase`, as far as letters of ASCII come out. Outside of ASCII these two
characters alone have one in their lower case. -/
def lowercase (c : Char) : List Char :=
  if c.toNat = 0x212A then ['k'] else if c.toNat = 0x130 then ['i', c] else [Text.toLower c]

/-- Runs of other characters are one dash. -/
def slugChars : List Char → List Char
  | [] => []
  | c :: rest =>
      let tail := slugChars rest
      if Text.isAlphanumeric c then c :: tail
      else if tail.head? = some '-' then tail
      else '-' :: tail

def slug (name : String) : String :=
  String.ofList ((Text.trimMatches '-' (slugChars (name.toList.flatMap lowercase))).take 64)

/-! ## Fields -/

inductive FieldType where
  | name | slug | string | int | bool
deriving DecidableEq

/-- The value of a field, brought to its type. -/
def normalized (key : String) (type : FieldType) (v : Json) : Except Error Json :=
  match type with
  | .name => Json.str <$> string v 1 (some 128)
  | .slug => (fun s => .str (String.ofList (s.toList.take 64))) <$> string v 0 none
  | .string => Json.str <$> string v 0 (if key = "icon" then some 32 else none)
  | .int => do
      let n ← integer v
      if key = "sort_order" && !(-2 ^ 31 ≤ n && n ≤ 2 ^ 31 - 1) then .error .invalid
      else .ok (.int n)
  | .bool => Json.bool <$> boolean v

/-- A field that is there is written to the fields so far. -/
def field (v : Json) (out : List (String × Json)) (key : String) (type : FieldType)
    (nullable : Bool) : Except Error (List (String × Json)) :=
  match v.member? key with
  | none => .ok out
  | some n => do
      let value ← if n = .null && nullable then .ok .null else normalized key type n
      .ok (Json.insert out key value)

/-- `entry(key).or_insert(null)`. -/
def orNull (out : List (String × Json)) (key : String) : List (String × Json) :=
  if (Json.get? out key).isNone then Json.insert out key .null else out

/-- A field that may be `null`, and is `null` in a full body without it. -/
def optionalField (v : Json) (full : Bool) (out : List (String × Json)) (key : String)
    (type : FieldType) : Except Error (List (String × Json)) := do
  let out ← field v out key type true
  .ok (if full then orNull out key else out)

/-- A slug that is asked for and empty comes of the name. -/
def withSlug (v : Json) (out : List (String × Json)) : List (String × Json) :=
  match v.member? "slug", (Json.get? out "name").bind Json.asStr with
  | some .null, some name => Json.insert out "slug" (.str (slug name))
  | some (.str ""), some name => Json.insert out "slug" (.str (slug name))
  | _, _ => out

/-- `catalogue` for a folder. -/
def catalogueFolder (v : Json) (full : Bool) : Except Error Json := do
  if v.asObj.isNone then throw .invalid
  let out ← field v [] "name" .name (!full)
  if full && (Json.get? out "name").isNone then throw .invalid
  let out ← optionalField v full out "slug" .slug
  let out ← optionalField v full out "description" .string
  let out ← optionalField v full out "icon" .string
  let out ← optionalField v full out "parent_id" .int
  let out ← field v out "is_local" .bool false
  let out ← if full then .ok out else field v out "is_pinned" .bool false
  let out ← if full then .ok out else field v out "sort_order" .int false
  let out := withSlug v out
  if Json.get? out "name" = some .null then throw .invalid
  return .obj out

/-- Explicit nulls are ignored, and so is every field but these four. -/
def folderPatch (v : Json) : Except Error Json := do
  if v.asObj.isNone then throw .invalid
  let out ← field v [] "name" .name true
  let out ← field v out "description" .string true
  let out ← field v out "is_pinned" .bool true
  let out ← field v out "sort_order" .int true
  return .obj (out.filter (·.2 ≠ .null))

end YoinkCore.Inbox.Validation
