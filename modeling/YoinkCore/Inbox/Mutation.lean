import YoinkCore.Inbox.Validation

/-!
# The ledger of GitHub mutations

A write to GitHub is journalled before it is sent. An intent that may have been sent is
never sent again; its local effects commit together with its last state. At most one
intent of a user is active, and an active create holds the folder it will link.
-/

namespace YoinkCore.Inbox

open Lib
open Storage (Uuid)

/-! ## Rows -/

/-- inbox_gh_folders -/
structure Folder where
  id : Int
  userId : Int
  name : String
  slug : String
  description : Option String
  icon : Option String
  parentId : Option Int
  createdAt : Int
  ghListId : Option String
  ghListSlug : Option String
  isPinned : Bool
  sortOrder : Int
deriving DecidableEq

def Folder.checks (f : Folder) : List Bool := [
  f.name.length ≤ 128,
  f.slug.length ≤ 64,
  f.icon.all (·.length ≤ 32),
  f.ghListId.all (·.length ≤ 64),
  f.ghListSlug.all (·.length ≤ 128),
  -2 ^ 31 ≤ f.sortOrder && f.sortOrder ≤ 2 ^ 31 - 1]

def folderSchema : Schema Folder where
  check f := f.checks.all id
  clash a b := a.id = b.id || (a.userId = b.userId && a.slug = b.slug)

/-- inbox_gh_folder_members -/
structure FolderMember where
  folderId : Int
  starId : Int
  addedBy : String
  addedAt : Int
deriving DecidableEq

def FolderMember.sameKey (a b : FolderMember) : Bool :=
  a.folderId = b.folderId && a.starId = b.starId

def memberSchema : Schema FolderMember where
  check m := m.addedBy.length ≤ 8
  clash := FolderMember.sameKey

/-- A row of `inbox_gh_stars`, as far as lists and mutations read it. -/
structure Star where
  id : Int
  userId : Int
  ghRepoId : Int
  fullName : String
  ownerLogin : String
  language : Option String
  stargazersCount : Int
  htmlUrl : String
  canUnstar : Bool
  ghNodeId : Option String
deriving DecidableEq

def Star.checks (s : Star) : List Bool := [
  s.fullName.length ≤ 255,
  s.ownerLogin.length ≤ 128,
  s.language.all (·.length ≤ 64),
  -2 ^ 31 ≤ s.stargazersCount && s.stargazersCount ≤ 2 ^ 31 - 1,
  s.ghNodeId.all (·.length ≤ 64)]

def starSchema : Schema Star where
  check s := s.checks.all id
  clash a b := a.id = b.id || (a.userId = b.userId && a.ghRepoId = b.ghRepoId)

/-- A write to GitHub. -/
inductive Mutation where
  | createList (body : Json)
  | editList (folderId : Int) (body : Json)
  | deleteList (folderId : Int)
  | membership (folderId starId : Int) (add : Bool)
  | star (starId : Int) (add : Bool)
deriving DecidableEq

def Mutation.isCreate (m : Mutation) : Bool := m matches .createList _

inductive MutationState where
  | prepared | sending | unknown | confirmed | applied | rejected
deriving DecidableEq

/-- `error_code` -/
inductive MutationError where
  | authFailed | rateLimited | outcomeUnknown | cancelledBeforeSend
deriving DecidableEq

/-- Proves that a send was not accepted. -/
def MutationError.refused (e : MutationError) : Bool := e matches .authFailed | .rateLimited

/-- A row of `inbox_gh_mutations`. The request is the one its document decodes to. -/
structure Intent where
  id : Uuid
  userId : Int
  requestKey : Option String
  request : Mutation
  state : MutationState
  prepared : Option Json
  result : Option Json
  sendToken : Option Uuid
  localFolderId : Option Int
  errorCode : Option MutationError
  createdAt : Int
  updatedAt : Int
deriving DecidableEq

namespace Intent

/-- Blocks the other writes of the user. -/
def active (i : Intent) : Bool :=
  i.state matches .prepared | .sending | .unknown | .confirmed

/-- Sent, and not known to be accepted. -/
def inFlight (i : Intent) : Bool := i.state matches .sending | .unknown

/-- The `CHECK` clauses. -/
def checks (i : Intent) : List Bool := [
  i.requestKey.all fun k => 1 ≤ k.length && k.length ≤ 128,
  i.prepared.all (·.asObj.isSome),
  !(i.state matches .confirmed | .applied) || i.result.isSome,
  decide (i.state = .prepared) == i.sendToken.isNone]

end Intent

/-- inbox_gh_mutations, with the unique index of its active rows. -/
def mutationSchema : Schema Intent where
  check i := i.checks.all id
  clash a b := a.id = b.id ||
    (a.userId = b.userId && ((a.requestKey.isSome && a.requestKey = b.requestKey) ||
      (a.active && b.active)))

/-- The tables, with the highest row identifiers given so far. -/
structure Ledger where
  folders : Table folderSchema
  members : Table memberSchema
  stars : Table starSchema
  mutations : Table mutationSchema
  lastFolder : Int
  lastStar : Int

abbrev LedgerStmt := Tx Ledger Error

/-! ## Statements -/

/-- A statement on the folders, with the number of rows affected. -/
def updateFolders (p : Folder → Bool) (f : Folder → Folder) : LedgerStmt Nat := do
  let db ← get
  match db.folders.update p f with
  | none => throw .database
  | some (folders, changed) => do
      set { db with folders }
      return changed

/-- The new row gets the next identifier. -/
def insertFolder (row : Int → Folder) : LedgerStmt Int := do
  let db ← get
  let id := db.lastFolder + 1
  match db.folders.insert (row id) with
  | none => throw .database
  | some folders => do
      set { db with folders, lastFolder := id }
      return id

/-- Whether a reference to a folder loses it. -/
def loses (gone : List Folder) (folder : Int) : Bool := gone.any (·.id = folder)

/-- Folders are deleted with what hangs on them: children and intents lose the reference,
members go too. -/
def deleteFolders (p : Folder → Bool) : LedgerStmt Nat := do
  let db ← get
  let gone := db.folders.rows.filter p
  let (left, deleted) := db.folders.delete p
  let folders := left.update (·.parentId.any (loses gone)) ({ · with parentId := none })
  let mutations :=
    db.mutations.update (·.localFolderId.any (loses gone)) ({ · with localFolderId := none })
  match folders, mutations with
  | some (folders, _), some (mutations, _) => do
      set { db with
        folders, mutations
        members := (db.members.delete fun m => loses gone m.folderId).1 }
      return deleted
  | _, _ => throw .database

def updateStars (p : Star → Bool) (f : Star → Star) : LedgerStmt Nat := do
  let db ← get
  match db.stars.update p f with
  | none => throw .database
  | some (stars, changed) => do
      set { db with stars }
      return changed

/-- `INSERT … ON CONFLICT DO NOTHING` of several members. -/
def insertMembers (rows : List FolderMember) : LedgerStmt Unit := do
  let db ← get
  let new := rows.filter fun m => !db.members.rows.any (·.sameKey m)
  match Table.ofRows memberSchema (db.members.rows ++ new) with
  | none => throw .database
  | some members => set { db with members }

def deleteMembers (p : FolderMember → Bool) : LedgerStmt Unit :=
  modify fun db => { db with members := (db.members.delete p).1 }

def updateMutations (p : Intent → Bool) (f : Intent → Intent) : LedgerStmt Nat := do
  let db ← get
  match db.mutations.update p f with
  | none => throw .database
  | some (mutations, changed) => do
      set { db with mutations }
      return changed

def insertMutation (row : Intent) : LedgerStmt Unit := do
  let db ← get
  match db.mutations.insert row with
  | none => throw .database
  | some mutations => set { db with mutations }

namespace Ledger

variable (db : Ledger)

def folder? (user id : Int) : Option Folder :=
  db.folders.rows.find? fun f => f.userId = user && f.id = id

def star? (user id : Int) : Option Star :=
  db.stars.rows.find? fun s => s.userId = user && s.id = id

def intent? (user : Int) (id : Uuid) : Option Intent :=
  db.mutations.rows.find? fun i => i.userId = user && i.id = id

def keyed? (user : Int) (key : Option String) : Option Intent :=
  key.bind fun key => db.mutations.rows.find? fun i =>
    i.userId = user && i.requestKey = some key

def active? (user : Int) : Option Intent :=
  db.mutations.rows.find? fun i => i.userId = user && i.active

end Ledger

/-- The value, or the error that stands for its absence. -/
def orFail {α : Type} (e : Error) (value : Option α) : LedgerStmt α :=
  Tx.ofExcept (value.elim (.error e) .ok)

/-! ## Bodies -/

def text (v : Json) (k : String) : Except Error String :=
  (v.entry k).asStr.elim (.error .invalid) .ok

def optionalText (v : Json) (k : String) (max : Option Nat) :
    Except Error (Option String) :=
  match v.member? k with
  | none | some .null => .ok none
  | some (.str s) => if max.all (s.length ≤ ·) then .ok (some s) else .error .invalid
  | _ => .error .invalid

/-- A field that is there has the property. -/
def fieldOk (v : Json) (k : String) (p : Json → Bool) : Bool := (v.member? k).all p

def validateBody (v : Json) (create : Bool) : Except Error Unit := do
  if v.asObj.isNone || (v.member? "gh_list_id").isSome ||
      (v.member? "gh_list_slug").isSome then
    throw .invalid
  if create || (v.member? "name").isSome then
    let s ← text v "name"
    if s.isEmpty || 128 < s.length then throw .invalid
  let _ ← optionalText v "slug" (some 64)
  let _ ← optionalText v "icon" (some 32)
  let _ ← optionalText v "description" none
  ensure (fieldOk v "sort_order" (·.asI64.any fun n => -2 ^ 31 ≤ n && n ≤ 2 ^ 31 - 1) &&
    fieldOk v "is_pinned" (·.asBool.isSome) &&
    fieldOk v "parent_id" fun n => n = .null || n.asI64.isSome)

/-- Walk up from a folder. The walk ends at the top, or fails: at a folder that is not the
user's, at the one that is to get the parent, or where it has been. -/
def walkUp (db : Ledger) (user : Int) (id : Option Int) (missing : Error) :
    Nat → List Int → Option Int → Except Error Unit
  | _, _, none => .ok ()
  | 0, _, some _ => .error .invalid
  | steps + 1, visited, some n =>
      if some n = id || visited.contains n then .error .invalid
      else
        match db.folder? user n with
        | none => .error missing
        | some f => walkUp db user id missing steps (n :: visited) f.parentId

/-- `parent`: the walk visits no folder twice. -/
def checkParent (user : Int) (id parent : Option Int) : LedgerStmt Unit := do
  let db ← get
  Tx.ofExcept (walkUp db user id .notFound (db.folders.rows.length + 1) [] parent)

/-- What `unique_slug` looks up: the base, and the base with a number. -/
def slugCandidates (base : String) : List String :=
  ("" :: ((List.range 18).map fun i => "-" ++ toString (i + 2))).map
    fun suffix => String.ofList ((base ++ suffix).toList.take 64)

/-- `unique_slug`: the first of a bounded sequence that is not taken. -/
def firstFree (taken : String → Bool) (base : String) : Except Error String :=
  match (slugCandidates base).find? fun slug => !taken slug with
  | some slug => .ok slug
  | none => if 64 < (base ++ "-x").length then .error .invalid else .ok (base ++ "-x")

/-- `unique_slug` for a folder. -/
def uniqueSlug (user : Int) (base : String) (exclude : Option Int) : LedgerStmt String := do
  let db ← get
  Tx.ofExcept (firstFree (fun slug => db.folders.rows.any fun f =>
    f.userId = user && f.slug = slug && f.id ≠ exclude.getD (-1)) base)

/-! ## Admission -/

/-- The folder that a create reserves. -/
def reserveFolder (user : Int) (body : Json) (now : Int) : LedgerStmt Int := do
  let name ← Tx.ofExcept (text body "name")
  let given ← Tx.ofExcept (optionalText body "slug" (some 64))
  let base := (given.filter (!·.isEmpty)).getD
    (let s := Validation.slug name; if s.isEmpty then "folder" else s)
  let slug ← uniqueSlug user base none
  let description ← Tx.ofExcept (optionalText body "description" none)
  let icon ← Tx.ofExcept (optionalText body "icon" (some 32))
  insertFolder fun id => {
    id, userId := user, name, slug, description, icon
    parentId := (body.entry "parent_id").asI64
    createdAt := now
    ghListId := none, ghListSlug := none
    isPinned := (body.entry "is_pinned").asBool.getD false
    sortOrder := (body.entry "sort_order").asI64.getD 0 }

/-- The list a folder of the user is linked to. -/
def linkedList (user folder : Int) : LedgerStmt String := do
  let f ← orFail .notFound ((← get).folder? user folder)
  orFail .invalid f.ghListId

/-- What is fixed before the send: the folder of the intent, and the remote identities. -/
def prepareRequest (user : Int) (request : Mutation) (now : Int) :
    LedgerStmt (Option Int × List (String × Json)) := do
  match request with
  | .createList body =>
      Tx.ofExcept (validateBody body true)
      checkParent user none (body.entry "parent_id").asI64
      return (some (← reserveFolder user body now), [])
  | .editList folder body =>
      Tx.ofExcept (validateBody body false)
      checkParent user (some folder) (body.entry "parent_id").asI64
      return (some folder, [("list_id", .str (← linkedList user folder))])
  | .deleteList folder =>
      return (some folder, [("list_id", .str (← linkedList user folder))])
  | .membership folder star _ =>
      let f ← orFail .notFound ((← get).folder? user folder)
      let s ← orFail .notFound ((← get).star? user star)
      let list ← orFail .invalid f.ghListId
      let node ← orFail .invalid s.ghNodeId
      return (some folder, [("list_id", .str list), ("node_id", .str node)])
  | .star star _ =>
      let s ← orFail .notFound ((← get).star? user star)
      let (owner, repo) ← orFail .invalid (Text.splitOnce ['/'] s.fullName.toList)
      return (none, [("owner", .str (String.ofList owner)), ("repo", .str (String.ofList repo))])

/-- The transaction of `prepare_mutation_keyed`. -/
def prepareMutationOn (user : Int) (request : Mutation) (key : Option String) (now : Int)
    (fresh : Uuid) : LedgerStmt Uuid := do
  let db ← get
  match db.keyed? user key with
  | some prior => if prior.request = request then return prior.id else throw .invalid
  | none =>
      match db.active? user with
      | some prior =>
          if prior.request = request then return prior.id
          else throw (.mutationPending prior.id)
      | none => do
          let (localFolderId, prepared) ← prepareRequest user request now
          insertMutation {
            id := fresh, userId := user, requestKey := key, request, state := .prepared
            prepared := some (.obj prepared), result := none, sendToken := none
            localFolderId, errorCode := none, createdAt := now, updatedAt := now }
          return fresh

def prepareMutation (user : Int) (request : Mutation) (key : Option String) (now : Int)
    (fresh : Uuid) (db : Ledger) : Except Error Uuid × Ledger :=
  if key.any fun k => k.isEmpty || 128 < Text.byteLen k.toList then (.error .invalid, db)
  else Tx.auto (prepareMutationOn user request key now fresh) db

/-! ## States -/

/-- The row of the user. -/
def Intent.isOf (user : Int) (id : Uuid) (i : Intent) : Bool := i.id = id && i.userId = user

def Intent.send (prepared : Json) (token : Uuid) (now : Int) (i : Intent) : Intent :=
  { i with
    state := .sending, prepared := some prepared, sendToken := some token, updatedAt := now }

/-- The durable send boundary. -/
def beginMutationSend (intent : Intent) (prepared : Json) (now : Int) (fresh : Uuid) :
    Ledger → Except Error Bool × Ledger :=
  Tx.auto do
    let changed ← updateMutations
      (fun i => i.isOf intent.userId intent.id && i.state = .prepared)
      (·.send prepared fresh now)
    return changed = 1

def Intent.confirm (result : Json) (now : Int) (i : Intent) : Intent :=
  { i with state := .confirmed, result := some result, errorCode := none, updatedAt := now }

def confirmMutation (user : Int) (id : Uuid) (result : Json) (now : Int) :
    Ledger → Except Error Unit × Ledger :=
  Tx.auto do
    let _ ← updateMutations (fun i => i.isOf user id && i.inFlight) (·.confirm result now)

def Intent.quarantine (now : Int) (i : Intent) : Intent :=
  { i with state := .unknown, errorCode := some .outcomeUnknown, updatedAt := now }

def unknownMutation (user : Int) (id : Uuid) (now : Int) :
    Ledger → Except Error Unit × Ledger :=
  Tx.auto do
    let _ ← updateMutations (fun i => i.isOf user id && i.state = .sending) (·.quarantine now)

/-- A create that will not happen gives up the folder it reserved. -/
def releaseFolder (user : Int) (i : Intent) : LedgerStmt Unit := do
  if i.request.isCreate then
    let _ ← deleteFolders fun f => some f.id = i.localFolderId && f.userId = user

def Intent.cancel (token : Uuid) (now : Int) (i : Intent) : Intent :=
  { i with
    state := .rejected, sendToken := some token, errorCode := some .cancelledBeforeSend
    updatedAt := now }

def cancelPreparedMutation (user : Int) (id : Uuid) (now : Int) (fresh : Uuid) :
    Ledger → Except Error Unit × Ledger :=
  Tx.auto do
    let prepared (i : Intent) := i.isOf user id && i.state = .prepared
    let intent ← orFail .uncertain ((← get).mutations.rows.find? prepared)
    releaseFolder user intent
    let _ ← updateMutations prepared (·.cancel fresh now)

def Intent.reject (code : MutationError) (now : Int) (i : Intent) : Intent :=
  { i with state := .rejected, errorCode := some code, updatedAt := now }

def rejectMutation (user : Int) (id : Uuid) (code : MutationError) (now : Int) :
    Ledger → Except Error Unit × Ledger :=
  Tx.auto do
    if !code.refused then throw .invalid
    let intent ← orFail .notFound ((← get).intent? user id)
    if intent.state ≠ .sending then throw (.mutationPending id)
    releaseFolder user intent
    let _ ← updateMutations (fun i => i.isOf user id && i.state = .sending) (·.reject code now)

/-! ## Local effects -/

/-- A create links its folder. A folder that list synchronization imported for the same
list takes its place. -/
def linkFolder (user : Int) (id : Uuid) (folder : Int) (remote : Json) :
    LedgerStmt Unit := do
  let list ← Tx.ofExcept (text remote "id")
  let imported := (← get).folders.rows.find? fun f =>
    f.userId = user && f.ghListId = some list && f.id ≠ folder
  match imported with
  | some f => do
      let members := (← get).members.rows.filter (·.folderId = folder)
      insertMembers (members.map ({ · with folderId := f.id }))
      let _ ← updateFolders
        (fun g => g.userId = user && g.parentId = some folder && g.id ≠ f.id)
        ({ · with parentId := some f.id })
      let _ ← updateMutations (·.isOf user id) ({ · with localFolderId := some f.id })
      let _ ← deleteFolders fun g => g.userId = user && g.id = folder
  | none => do
      let changed ← updateFolders (fun g => g.userId = user && g.id = folder)
        ({ · with ghListId := some list, ghListSlug := (remote.entry "slug").asStr })
      if changed ≠ 1 then throw .uncertain

/-- The columns of an edit: those of the body, and the row's own where it has none. -/
def editFolder (body : Json) (description icon : Option String) (f : Folder) : Folder :=
  { f with
    name := (body.entry "name").asStr.getD f.name
    description := if (body.member? "description").isSome then description else f.description
    icon := if (body.member? "icon").isSome then icon else f.icon
    parentId := if (body.member? "parent_id").isSome then (body.entry "parent_id").asI64
      else f.parentId
    isPinned := (body.entry "is_pinned").asBool.getD f.isPinned
    sortOrder := (body.entry "sort_order").asI64.getD f.sortOrder }

/-- The folder is still linked to the list. -/
def requireLinked (user folder : Int) (list : String) : LedgerStmt Unit := do
  let _ ← orFail .uncertain (((← get).folder? user folder).filter (·.ghListId = some list))

/-- The effects of an accepted request. -/
def applyEffects (user : Int) (intent : Intent) (prepared remote : Json) (now : Int) :
    LedgerStmt Unit := do
  match intent.request with
  | .createList _ => do
      let folder ← orFail .uncertain intent.localFolderId
      linkFolder user intent.id folder remote
  | .editList folder body => do
      checkParent user (some folder) (body.entry "parent_id").asI64
      requireLinked user folder (← Tx.ofExcept (text prepared "list_id"))
      let description ← Tx.ofExcept (if (body.member? "description").isSome then
        optionalText body "description" none else .ok none)
      let icon ← Tx.ofExcept (if (body.member? "icon").isSome then
        optionalText body "icon" none else .ok none)
      let _ ← updateFolders (fun f => f.id = folder && f.userId = user)
        (editFolder body description icon)
  | .deleteList folder => do
      let list ← Tx.ofExcept (text prepared "list_id")
      let _ ← deleteFolders fun f =>
        f.id = folder && f.userId = user && f.ghListId = some list
  | .membership folder star add => do
      requireLinked user folder (← Tx.ofExcept (text prepared "list_id"))
      let node ← Tx.ofExcept (text prepared "node_id")
      let _ ← orFail .uncertain (((← get).star? user star).filter (·.ghNodeId = some node))
      if add then insertMembers [⟨folder, star, "user", now⟩]
      else deleteMembers fun m => m.folderId = folder && m.starId = star
  | .star star add => do
      let name := (← Tx.ofExcept (text prepared "owner")) ++ "/" ++
        (← Tx.ofExcept (text prepared "repo"))
      let _ ← updateStars (fun s => s.id = star && s.userId = user && s.fullName = name)
        ({ · with canUnstar := add })

def Intent.finish (now : Int) (i : Intent) : Intent :=
  { i with state := .applied, updatedAt := now }

/-- The transaction of `apply_mutation`. -/
def applyMutationOn (user : Int) (id : Uuid) (now : Int) : LedgerStmt Unit := do
  let intent ← orFail .notFound ((← get).intent? user id)
  if intent.state = .applied then return ()
  if intent.state ≠ .confirmed then throw (.mutationPending id)
  let prepared ← orFail .invalid intent.prepared
  let remote ← orFail .invalid intent.result
  applyEffects user intent prepared remote now
  let _ ← updateMutations (fun i => i.isOf user id && i.state = .confirmed) (·.finish now)

def applyMutation (user : Int) (id : Uuid) (now : Int) :
    Ledger → Except Error Unit × Ledger :=
  Tx.auto (applyMutationOn user id now)

/-- `mutation` -/
def readMutation (user : Int) (id : Uuid) (db : Ledger) : Except Error Intent × Ledger :=
  ((db.intent? user id).elim (.error .notFound) .ok, db)

end YoinkCore.Inbox
