import YoinkCore.Lib.Forest
import YoinkCore.Inbox.Tables

/-!
# Categories and rules

The rows a user keeps by hand, beside folders: their input, and the transactions that save
and delete them. A save writes all columns of a row, from a copy of the row with a patch
written over it.
-/

namespace YoinkCore.Inbox

open Lib LinkPlatform

/-! ## Input -/

namespace Validation

/-- A field that is there is read and written to the fields so far. -/
def fieldWith (read : Json → Except Error Json) (v : Json) (out : List (String × Json))
    (key : String) (nullable : Bool) : Except Error (List (String × Json)) :=
  match v.member? key with
  | none => .ok out
  | some n => do
      let value ← if n = .null && nullable then .ok .null else read n
      .ok (Json.insert out key value)

def color (v : Json) : Except Error Json := Json.str <$> string v 0 (some 16)

def priority (v : Json) : Except Error Json := do
  let n ← integer v
  if 0 ≤ n && n ≤ 9999 then .ok (.int n) else .error .invalid

/-- A list of objects. -/
def dicts (v : Json) : Except Error Json :=
  match v.asArr with
  | some items => if items.all (·.asObj.isSome) then .ok (.arr items) else .error .invalid
  | none => .error .invalid

/-- `catalogue` for a category. -/
def catalogueCategory (v : Json) (full : Bool) : Except Error Json := do
  if v.asObj.isNone then throw .invalid
  let out ← field v [] "name" .name (!full)
  if full && (Json.get? out "name").isNone then throw .invalid
  let out ← optionalField v full out "slug" .slug
  let out ← optionalField v full out "description" .string
  let out ← optionalField v full out "icon" .string
  let out ← optionalField v full out "parent_id" .int
  let out ← fieldWith color v out "color" true
  let out := if full then orNull out "color" else out
  let out ← optionalField v full out "shared_with_team_id" .int
  let out := withSlug v out
  if Json.get? out "name" = some .null then throw .invalid
  return .obj out

/-- The value of a full body that has none. -/
def orDefault (out : List (String × Json)) (key : String) (value : Json) :
    List (String × Json) :=
  if (Json.get? out key).isNone then Json.insert out key value else out

/-- `catalogue` for a rule. -/
def catalogueRule (v : Json) (full : Bool) : Except Error Json := do
  if v.asObj.isNone then throw .invalid
  let out ← field v [] "name" .name (!full)
  if full && (Json.get? out "name").isNone then throw .invalid
  let out ← field v out "enabled" .bool false
  let out ← fieldWith priority v out "priority" false
  let out ← field v out "trigger" .string false
  let out ← fieldWith dicts v out "conditions" true
  let out ← fieldWith dicts v out "actions" true
  let out := if full then orDefault out "enabled" (.bool true) else out
  let out := if full then orDefault out "priority" (.int 100) else out
  let out := if full then orDefault out "conditions" .null else out
  let out := if full then orDefault out "actions" .null else out
  if full && (Json.get? out "trigger").isNone then throw .invalid
  if (Json.get? out "trigger").any fun t => t.asStr.all (24 < ·.length) then throw .invalid
  let out := withSlug v out
  if Json.get? out "name" = some .null then throw .invalid
  return .obj out

end Validation

/-! ## Reading -/

/-- The user owns the category, or is of the team it is shared with. -/
def InboxDb.sees (db : InboxDb) (user : Int) (c : Category) : Bool :=
  c.ownerUserId = user || c.sharedWithTeamId.any fun team => db.teamMembers.contains (team, user)

/-- `catalogue_one` for a category. -/
def readCategory (user id : Int) (db : InboxDb) : Except Error Category :=
  (db.categories.rows.find? fun c => c.id = id && db.sees user c).elim (.error .notFound) .ok

/-- `catalogue_one` for a rule. -/
def readRule (user id : Int) (db : InboxDb) : Except Error Rule :=
  (db.rules.rows.find? fun r => r.id = id && r.userId = user).elim (.error .notFound) .ok

/-- The fields of a category that are read back, but for the number of its items. -/
def Category.toJson (c : Category) : Json := .obj [
  ("id", .int c.id),
  ("owner_user_id", .int c.ownerUserId),
  ("parent_id", Json.nullable (c.parentId.map .int)),
  ("shared_with_team_id", Json.nullable (c.sharedWithTeamId.map .int)),
  ("name", .str c.name),
  ("slug", .str c.slug),
  ("kind", .str c.kind),
  ("icon", optionalStr c.icon),
  ("color", optionalStr c.color),
  ("description", optionalStr c.description)]

/-- The fields of a rule that are read back, but for its times. -/
def Rule.toJson (r : Rule) : Json := .obj [
  ("id", .int r.id),
  ("user_id", .int r.userId),
  ("name", .str r.name),
  ("enabled", .bool r.enabled),
  ("priority", .int r.priority),
  ("trigger", .str r.trigger),
  ("conditions", Json.nullable r.conditions),
  ("actions", Json.nullable r.actions)]

/-! ## Categories -/

def categoryTree : TreeColumns Category Int Int :=
  ⟨Category.id, Category.ownerUserId, Category.parentId⟩

namespace InboxDb

variable (db : InboxDb)

/-- A category of one's own. -/
def category? (user id : Int) : Option Category :=
  db.categories.rows.find? fun c => c.ownerUserId = user && c.id = id

def rule? (user id : Int) : Option Rule :=
  db.rules.rows.find? fun r => r.userId = user && r.id = id

end InboxDb

/-- The parent is a category of the user, and not below the category. -/
def checkCategoryParent (user : Int) (id parent : Option Int) : InboxStmt Unit := do
  match parent with
  | none => return ()
  | some p => do
      if parent = id then throw .invalid
      let db ← get
      let _ ← orElseFail .notFound (db.category? user p)
      match categoryTree.walk (db.category? user) id (db.categories.rows.length + 1) [] parent with
      | .top => return ()
      | .blocked => throw .invalid
      | .missing => throw .database

/-- The slug is that of another category of the user. -/
def InboxDb.slugTaken (db : InboxDb) (user : Int) (exclude : Option Int) (slug : String) : Bool :=
  db.categories.rows.any fun c =>
    c.ownerUserId = user && c.slug = slug && c.id ≠ exclude.getD (-1)

/-- The user is of the team that a category is to be shared with. -/
def checkTeam (user : Int) (team : Option Int) : InboxStmt Unit := do
  match team with
  | none => return ()
  | some team => if !(← get).teamMembers.contains (team, user) then throw .forbidden

variable [LinkPlatform]

/-- The transaction of `save_catalogue` for a category. -/
def saveCategoryOn (user : Int) (id : Option Int) (name : String) (body : Json) (now : Int) :
    InboxStmt Int := do
  match id with
  | some id => let _ ← orElseFail .notFound ((← get).category? user id)
  | none => pure ()
  let parentId := (body.entry "parent_id").asI64
  checkCategoryParent user id parentId
  let sharedWithTeamId := (body.entry "shared_with_team_id").asI64
  checkTeam user sharedWithTeamId
  let given := ((body.entry "slug").asStr.filter (!·.isEmpty)).getD (Validation.slug name)
  let base := if given.isEmpty then "category" else String.ofList (given.toList.take 64)
  let slug ← Tx.ofExcept (firstFree ((← get).slugTaken user id) base)
  let icon := (body.entry "icon").asStr
  let description := (body.entry "description").asStr
  let normalizedName := categoryKey name
  let color := (body.entry "color").asStr
  match id with
  | some id => do
      let _ ← InboxDb.categoryTable.update (fun c => c.id = id && c.ownerUserId = user) fun c =>
        { c with name, normalizedName, slug, icon, color, description, parentId, sharedWithTeamId }
      return id
  | none =>
      InboxDb.categoryTable.insertNext fun id => {
        id, ownerUserId := user, sharedWithTeamId, name, normalizedName, slug, icon, color
        kind := "user", parentId, description, createdAt := now }

/-! ## Rules -/

/-- A value that is there is a list. -/
def listColumn (body : Json) (key : String) : Except Error (Option Json) :=
  match body.entry key with
  | .null => .ok none
  | v => if v.asArr.isSome then .ok (some v) else .error .invalid

/-- The transaction of `save_catalogue` for a rule. It has no parent, and no team. -/
def saveRuleOn (user : Int) (id : Option Int) (name : String) (body : Json) (now : Int) :
    InboxStmt Int := do
  match id with
  | some id => let _ ← orElseFail .notFound ((← get).rule? user id)
  | none => pure ()
  if (body.entry "parent_id").asI64.isSome || (body.entry "shared_with_team_id").asI64.isSome then
    throw .invalid
  let trigger ← orElseFail .invalid ((body.entry "trigger").asStr.filter (·.length ≤ 24))
  let enabled := (body.entry "enabled").asBool.getD true
  let priority := (body.entry "priority").asI64.getD 100
  let conditions ← Tx.ofExcept (listColumn body "conditions")
  let actions ← Tx.ofExcept (listColumn body "actions")
  match id with
  | some id => do
      let _ ← InboxDb.ruleTable.update (fun r => r.id = id && r.userId = user) fun r =>
        { r with name, enabled, priority, trigger, conditions, actions, modifiedAt := now }
      return id
  | none =>
      InboxDb.ruleTable.insertNext fun id => {
        id, userId := user, name, enabled, priority, trigger, conditions, actions
        createdAt := now, modifiedAt := now }

/-! ## Deletion -/

/-- Categories are deleted with what hangs on them: children lose their parent, items the
category. -/
def deleteCategories (p : Category → Bool) : InboxStmt Nat := do
  let gone := (← get).categories.rows.filter p
  let deleted ← InboxDb.categoryTable.delete p
  let _ ← InboxDb.categoryTable.update (fun c => c.parentId.any fun k => gone.any (·.id = k))
    ({ · with parentId := none })
  let _ ← InboxDb.itemCategoryTable.delete fun b => gone.any (·.id = b.categoryId)
  return deleted

/-- `delete_catalogue` for a category. -/
def deleteCategoryOn (user id : Int) : InboxStmt Unit := do
  let deleted ← deleteCategories fun c => c.id = id && c.ownerUserId = user
  if deleted = 0 then throw .notFound

end YoinkCore.Inbox
