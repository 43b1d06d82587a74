import YoinkCore.Inbox.Mutation

/-!
# Local folders and star synchronization

The other writers of the tables of the ledger. Local changes of a folder are never sent to
GitHub, and are not held up by an active mutation, except that the folder of an active
create is hidden. Star synchronization replaces the stars of a user and imports lists; it
waits while a mutation of the user is active.
-/

namespace YoinkCore.Inbox

open Lib

/-! ## Folders -/

/-- An active create holds the folder. -/
def Ledger.pendingCreate (db : Ledger) (user folder : Int) : Bool :=
  db.mutations.rows.any fun i =>
    i.localFolderId = some folder && i.userId = user && i.active && i.request.isCreate

def optionalStr (s : Option String) : Json := Json.nullable (s.map .str)

/-- The fields of a folder that are read back. -/
def Folder.toJson (f : Folder) : Json := .obj [
  ("id", .int f.id),
  ("user_id", .int f.userId),
  ("name", .str f.name),
  ("slug", .str f.slug),
  ("description", optionalStr f.description),
  ("icon", optionalStr f.icon),
  ("gh_list_id", optionalStr f.ghListId),
  ("gh_list_slug", optionalStr f.ghListSlug),
  ("parent_id", Json.nullable (f.parentId.map .int)),
  ("is_pinned", .bool f.isPinned),
  ("sort_order", .int f.sortOrder)]

/-- The parent is a folder of the user, and not below the folder. -/
def checkNewParent (user : Int) (id parent : Option Int) : LedgerStmt Unit := do
  match parent with
  | none => return ()
  | some p => do
      if parent = id then throw .invalid
      let db ← get
      let _ ← orFail .notFound (db.folder? user p)
      Tx.ofExcept (walkUp db user id .database (db.folders.rows.length + 1) [] parent)

/-- The transaction of `save_catalogue` for a folder. -/
def saveFolderOn (user : Int) (id : Option Int) (name : String) (body : Json) (now : Int) :
    LedgerStmt Int := do
  match id with
  | some id => let _ ← orFail .notFound ((← get).folder? user id)
  | none => pure ()
  let parentId := (body.entry "parent_id").asI64
  checkNewParent user id parentId
  let given := ((body.entry "slug").asStr.filter (!·.isEmpty)).getD (Validation.slug name)
  let base := if given.isEmpty then "folder" else String.ofList (given.toList.take 64)
  let slug ← uniqueSlug user base id
  let description := (body.entry "description").asStr
  let icon := (body.entry "icon").asStr
  let isPinned := (body.entry "is_pinned").asBool.getD false
  let sortOrder := (body.entry "sort_order").asI64.getD 0
  match id with
  | some id => do
      let _ ← updateFolders (fun f => f.id = id && f.userId = user)
        ({ · with name, slug, description, icon, parentId, isPinned, sortOrder })
      return id
  | none =>
      insertFolder fun id => {
        id, userId := user, name, slug, description, icon, parentId, createdAt := now
        ghListId := none, ghListSlug := none, isPinned, sortOrder }

def saveFolder (user : Int) (id : Option Int) (name : String) (body : Json) (now : Int) :
    Ledger → Except Error Int × Ledger :=
  Tx.auto (saveFolderOn user id name body now)

/-- `delete_catalogue` -/
def deleteFolder (user id : Int) : Ledger → Except Error Unit × Ledger :=
  Tx.auto do
    let deleted ← deleteFolders fun f => f.id = id && f.userId = user
    if deleted = 0 then throw .notFound

def membershipConfirmed (user folder star : Int) (add : Bool) (now : Int) :
    Ledger → Except Error Unit × Ledger :=
  Tx.auto do
    let _ ← orFail .notFound ((← get).folder? user folder)
    let _ ← orFail .notFound ((← get).star? user star)
    if add then insertMembers [⟨folder, star, "user", now⟩]
    else deleteMembers fun m => m.folderId = folder && m.starId = star

/-! ## Stars -/

/-- What a synchronization read of the stars of a user. -/
structure StarSnapshot where
  rows : List Json
  canUnstar : Bool
  notModified : Bool

/-- A list of the user, with the repositories on it. -/
structure ListSnapshot where
  id : String
  name : String
  slug : String
  description : Option String
  items : List (Int × String)

/-- `INSERT … ON CONFLICT(user_id,gh_repo_id) DO UPDATE`. -/
def upsertStar (row : Int → Star) : LedgerStmt Unit := do
  let db ← get
  let new := row (db.lastStar + 1)
  let same (s : Star) := s.userId = new.userId && s.ghRepoId = new.ghRepoId
  if db.stars.rows.any same then
    let _ ← updateStars same fun s => row s.id
  else
    match db.stars.insert new with
    | none => throw .database
    | some stars => set { db with stars, lastStar := db.lastStar + 1 }

/-- Members go with their star. -/
def deleteStars (p : Star → Bool) : LedgerStmt Unit := do
  let db ← get
  let gone := db.stars.rows.filter p
  set { db with
    stars := (db.stars.delete p).1
    members := (db.members.delete fun m => gone.any (·.id = m.starId)).1 }

/-- A repository, as the API describes it. -/
def applyStar (user : Int) (canUnstar : Bool) (repo : Json) : LedgerStmt Unit := do
  let ghRepoId ← orFail .external (repo.entry "id").asI64
  let fullName ← orFail .external (repo.entry "full_name").asStr
  let ownerLogin ← orFail .external ((repo.entry "owner").entry "login").asStr
  let htmlUrl ← orFail .external (repo.entry "html_url").asStr
  upsertStar fun id => {
    id, userId := user, ghRepoId, fullName, ownerLogin, htmlUrl, canUnstar
    language := (repo.entry "language").asStr
    stargazersCount := (repo.entry "stargazers_count").asI64.getD 0
    ghNodeId := (repo.entry "node_id").asStr }

/-- The slug of an imported list: numbered until it is free. -/
def importedSlug (user : Int) (name : String) : LedgerStmt String := do
  let db ← get
  let base := let s := Validation.slug name; if s.isEmpty then "list" else s
  let candidates :=
    base :: (List.range db.folders.rows.length).map fun i => base ++ "-" ++ toString (i + 1)
  orFail .external (candidates.find? fun slug =>
    !db.folders.rows.any fun f => f.userId = user && f.slug = slug)

/-- The folder of a list. The rows stand in the order of their identifiers. -/
def importFolder (user : Int) (list : ListSnapshot) (now : Int) : LedgerStmt Int := do
  match (← get).folders.rows.find? fun f => f.userId = user && f.ghListId = some list.id with
  | some found => do
      let _ ← updateFolders (fun f => f.userId = user && f.id = found.id)
        ({ · with name := list.name, ghListSlug := some list.slug })
      return found.id
  | none => do
      let slug ← importedSlug user list.name
      insertFolder fun id => {
        id, userId := user, name := list.name, slug, description := list.description
        icon := none, parentId := none, createdAt := now, ghListId := some list.id
        ghListSlug := some list.slug, isPinned := false, sortOrder := 0 }

/-- A repository on a list becomes a member. -/
def importMember (user folder now : Int) (item : Int × String) : LedgerStmt Unit := do
  let starred (s : Star) := s.userId = user && s.ghRepoId = item.1
  let _ ← updateStars starred ({ · with ghNodeId := some item.2 })
  let stars := (← get).stars.rows.filter starred
  insertMembers (stars.map fun s => ⟨folder, s.id, "sync", now⟩)

def importList (user now : Int) (list : ListSnapshot) : LedgerStmt Unit := do
  let folder ← importFolder user list now
  list.items.forM (importMember user folder now)

/-- `lists::apply`: the lists of the user are imported, and folders of others unlinked. -/
def applyLists (user now : Int) (lists : List ListSnapshot) : LedgerStmt Unit := do
  let existing := (← get).folders.rows.filter fun f => f.userId = user && f.ghListId.isSome
  lists.forM (importList user now)
  let stale := existing.filter fun f => !lists.any fun l => f.ghListId = some l.id
  let _ ← updateFolders (fun f => f.userId = user && stale.any (·.id = f.id))
    ({ · with ghListId := none, ghListSlug := none })

/-- The stars of the snapshot, and no others. -/
def applyRows (user : Int) (snapshot : StarSnapshot) : LedgerStmt Unit := do
  snapshot.rows.forM fun row => applyStar user snapshot.canUnstar (row.entry "repo")
  let ids := snapshot.rows.filterMap fun row => ((row.entry "repo").entry "id").asI64
  deleteStars fun s => s.userId = user && !ids.contains s.ghRepoId

/-- The transaction of `apply_stars_with_lists`. `live` says whether the job holds its
lease, `bridge` what became of the rules and links of items, which write other tables. -/
def applyStarsOn (live : Bool) (bridge : Except Error Unit) (user : Int)
    (snapshot : StarSnapshot) (lists : Option (List ListSnapshot)) (now : Int) :
    LedgerStmt Bool := do
  if !live then return false
  if ((← get).active? user).isSome then throw .external
  if !snapshot.notModified then applyRows user snapshot
  Tx.ofExcept bridge
  match lists with
  | some lists => applyLists user now lists
  | none => pure ()
  return true

def applyStars (live : Bool) (bridge : Except Error Unit) (user : Int)
    (snapshot : StarSnapshot) (lists : Option (List ListSnapshot)) (now : Int) :
    Ledger → Except Error Bool × Ledger :=
  Tx.auto (applyStarsOn live bridge user snapshot lists now)

end YoinkCore.Inbox
