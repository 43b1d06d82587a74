import YoinkCore.Inbox.Catalogue
import YoinkCore.Lib.Interleaving

/-!
# The mutation coordinator

The coordinator and the routes over it are programs that ask the ledger, GitHub, the
grants of the user and the clock. Each statement or transaction on the ledger is one
question, so any number of callers may come between two of them, and a caller may hold an
intent that others have moved on.

A script lists who enters and who takes the next turn, with what GitHub would answer.
Playing it is a run, in which grants are given and the ledger draws one identifier after
the other.
-/

namespace YoinkCore.Inbox

open Lib
open Storage (Uuid uuid)

/-! ## Questions -/

/-- Statements and transactions on the ledger. -/
inductive StoreCall where
  | prepareMutation (user : Int) (request : Mutation) (key : Option String) (now : Int)
  | mutation (user : Int) (id : Uuid)
  | beginMutationSend (intent : Intent) (prepared : Json) (now : Int)
  | confirmMutation (user : Int) (id : Uuid) (result : Json) (now : Int)
  | unknownMutation (user : Int) (id : Uuid) (now : Int)
  | cancelPreparedMutation (user : Int) (id : Uuid) (now : Int)
  | rejectMutation (user : Int) (id : Uuid) (code : MutationError) (now : Int)
  | applyMutation (user : Int) (id : Uuid) (now : Int)
  | pendingCreate (user folder : Int)
  | folder (user folder : Int)
  | saveFolder (user : Int) (id : Option Int) (name : String) (body : Json) (now : Int)
  | deleteFolder (user folder : Int)
  | membershipConfirmed (user folder star : Int) (add : Bool) (now : Int)
  | applyStars (live : Bool) (bridge : Except Error Unit) (user : Int)
      (snapshot : StarSnapshot) (lists : Option (List ListSnapshot)) (now : Int)

abbrev StoreCall.Answer : StoreCall → Type
  | prepareMutation .. => Uuid
  | mutation .. => Intent
  | beginMutationSend .. => Bool
  | confirmMutation .. | unknownMutation .. | cancelPreparedMutation .. | rejectMutation ..
  | applyMutation .. => Unit
  | pendingCreate .. => Bool
  | folder .. => Folder
  | saveFolder .. => Int
  | deleteFolder .. | membershipConfirmed .. => Unit
  | applyStars .. => Bool

/-- What a call answers and leaves behind, with the identifier it draws. -/
def StoreCall.run (fresh : Uuid) (db : Ledger) :
    (c : StoreCall) → Except Error c.Answer × Ledger
  | prepareMutation user request key now => Inbox.prepareMutation user request key now fresh db
  | mutation user id => readMutation user id db
  | beginMutationSend intent prepared now => Inbox.beginMutationSend intent prepared now fresh db
  | confirmMutation user id result now => Inbox.confirmMutation user id result now db
  | unknownMutation user id now => Inbox.unknownMutation user id now db
  | cancelPreparedMutation user id now => Inbox.cancelPreparedMutation user id now fresh db
  | rejectMutation user id code now => Inbox.rejectMutation user id code now db
  | applyMutation user id now => Inbox.applyMutation user id now db
  | pendingCreate user id => (.ok (db.pendingCreate user id), db)
  | folder user id => ((db.folder? user id).elim (.error .notFound) .ok, db)
  | saveFolder user id name body now => Inbox.saveFolder user id name body now db
  | deleteFolder user id => Inbox.deleteFolder user id db
  | membershipConfirmed user id star add now =>
      Inbox.membershipConfirmed user id star add now db
  | applyStars live bridge user snapshot lists now =>
      Inbox.applyStars live bridge user snapshot lists now db

/-- Calls of the GitHub API. The paginated reads of `lists` are one call each. -/
inductive GithubCall where
  | catalogue (token : String)
  | membershipIds (token node : String)
  | userList (token id : String)
  | isStarred (token owner repo : String)
  | createUserList (token name description : String)
  | updateUserList (token id name : String)
  | deleteUserList (token id : String)
  | updateUserListsForItem (token node : String) (ids : List String)
  | star (token owner repo : String) (add : Bool)

abbrev GithubCall.Answer : GithubCall → Type
  | catalogue .. => List ListSnapshot
  | membershipIds .. => List String
  | isStarred .. => Bool
  | userList .. | createUserList .. | updateUserList .. | deleteUserList ..
  | updateUserListsForItem .. => Json
  | star .. => Unit

inductive Question where
  | store (c : StoreCall)
  | github (c : GithubCall)
  | require (user : Int) (feature : String)
  | githubToken (user : Int)
  | clock

abbrev Question.Answer : Question → Type
  | store c => Except Error c.Answer
  | github c => Except Error c.Answer
  | require .. => Except Error Unit
  | githubToken _ => Except Error (Option String)
  | clock => Int

abbrev Call (α : Type) := Asking.Failing Question.Answer Error α

def store (c : StoreCall) : Call c.Answer := Asking.call (.store c) rfl

def github (c : GithubCall) : Call c.Answer := Asking.call (.github c) rfl

def require (user : Int) (feature : String) : Call Unit :=
  Asking.call (.require user feature) rfl

def clock : Call Int := ExceptT.lift (.ask .clock .done)

/-- A step that asks nothing. -/
def check {α : Type} (x : Except Error α) : Call α := ExceptT.mk (.done x)

/-- The value, or the error that stands for its absence. -/
def orElse {α : Type} (e : Error) (x : Option α) : Call α := check (x.elim (.error e) .ok)

/-! ## Store methods -/

def prepareMutationKeyed (user : Int) (request : Mutation) (key : Option String)
    (now : Int) : Call Intent := do
  let id ← store (.prepareMutation user request key now)
  store (.mutation user id)

def applied (user : Int) (id : Uuid) : Call Intent := do
  let now ← clock
  store (.applyMutation user id now)
  store (.mutation user id)

/-- `catalogue_one` -/
def catalogueOne (user folder : Int) : Call Folder := do
  if ← store (.pendingCreate user folder) then throw .notFound
  store (.folder user folder)

/-- The fields of a patch are written over those of the folder. -/
def merge (body patch : Json) : Json :=
  (patch.asObj.getD []).foldl (fun body f => body.withEntry f.1 f.2) body

/-- `save_catalogue` for a folder. -/
def saveCatalogue (user : Int) (id : Option Int) (patch : Json) : Call Folder := do
  let now ← clock
  if (patch.member? "gh_list_id").isSome || (patch.member? "gh_list_slug").isSome ||
      patch.asObj.isNone then
    throw .invalid
  let patch ← check (Validation.catalogueFolder patch false)
  let body ← match id with
    | some id => Folder.toJson <$> catalogueOne user id
    | none => pure (.obj [])
  let body := merge body patch
  let name ← orElse .invalid
    ((body.entry "name").asStr.filter fun n => !n.isEmpty && n.length ≤ 128)
  let id ← store (.saveFolder user id name body now)
  catalogueOne user id

/-! ## GitHub -/

/-- `authorize` -/
def authorize (user : Int) : Call String := do
  require user "inbox:ingest"
  require user "inbox:gh_write"
  orElse .forbidden (← Asking.call (.githubToken user) rfl)

/-- An answer that does not show the expected effect leaves it open. -/
def expect (holds : Bool) : Call Unit := check (if holds then .ok () else .error .uncertain)

/-- `lists::create` -/
def createList (token name description : String) : Call Json := do
  let d ← github (.createUserList token name description)
  let list ← orElse .uncertain ((d.entry "createUserList").member? "list")
  expect ((list.entry "id").asStr.any (!·.isEmpty) && (list.entry "name").asStr.isSome &&
    (list.entry "slug").asStr.isSome)
  return list

/-- `lists::rename` -/
def renameList (token id name : String) : Call Json := do
  let d ← github (.updateUserList token id name)
  expect (((d.entry "updateUserList").entry "list").entry "id" = .str id)
  return .obj []

/-- `lists::delete` -/
def deleteList (token id : String) : Call Json := do
  let d ← github (.deleteUserList token id)
  expect (d.entry "deleteUserList").asObj.isSome
  return .obj []

/-- `lists::replace_memberships` -/
def replaceMemberships (token node : String) (ids : List String) : Call Json := do
  let d ← github (.updateUserListsForItem token node ids)
  expect (((d.entry "updateUserListsForItem").entry "item").entry "id" = .str node)
  return .obj []

/-- `serde_json::from_value` into strings. -/
def strings (v : Json) : Option (List String) := v.asArr.bind (·.mapM Json.asStr)

/-- What is read before the send. -/
def preflight (token : String) (request : Mutation) (prepared : Json) : Call Json := do
  match request with
  | .createList _ =>
      let catalog ← github (.catalogue token)
      return prepared.withEntry "baseline" (.arr (catalog.map fun l => .str l.id))
  | .membership _ _ add =>
      let ids ← github (.membershipIds token (← check (text prepared "node_id")))
      let target ← check (text prepared "list_id")
      let ids := if add then if ids.contains target then ids else ids ++ [target]
        else ids.filter (· ≠ target)
      return prepared.withEntry "desired_ids" (.arr (ids.map .str))
  | _ => return prepared

/-- The outcome of a call as a value. -/
def attempt {α : Type} (p : Call α) : Call (Except Error α) := ExceptT.mk (.ok <$> p.run)

/-- The send. What cannot be sent ends the caller; else the outcome is told. -/
def send (token : String) (request : Mutation) (prepared : Json) :
    Call (Except Error Json) := do
  match request with
  | .createList body =>
      let name ← check (text body "name")
      attempt (createList token name ((body.entry "description").asStr.getD ""))
  | .editList _ body =>
      match (body.entry "name").asStr with
      | some name => attempt (renameList token (← check (text prepared "list_id")) name)
      | none => return .ok (.obj [])
  | .deleteList _ => attempt (deleteList token (← check (text prepared "list_id")))
  | .membership .. =>
      let ids ← orElse .invalid (strings (prepared.entry "desired_ids"))
      attempt (replaceMemberships token (← check (text prepared "node_id")) ids)
  | .star _ add =>
      let owner ← check (text prepared "owner")
      let repo ← check (text prepared "repo")
      attempt do
        github (.star token owner repo add)
        return .obj []

/-- The desired effect is observed. -/
def observe (token : String) (request : Mutation) (prepared : Json) : Call Bool := do
  match request with
  | .createList _ => return false
  | .editList _ body =>
      let d ← github (.userList token (← check (text prepared "list_id")))
      return (body.entry "name").asStr.all fun n => (d.entry "node").entry "name" = .str n
  | .deleteList _ =>
      let catalog ← github (.catalogue token)
      return !catalog.any fun l => some l.id = (prepared.entry "list_id").asStr
  | .membership _ _ add =>
      let ids ← github (.membershipIds token (← check (text prepared "node_id")))
      return (ids.any fun i => some i = (prepared.entry "list_id").asStr) == add
  | .star _ add =>
      let owner ← check (text prepared "owner")
      let repo ← check (text prepared "repo")
      return (← github (.isStarred token owner repo)) == add

/-! ## The coordinator -/

/-- Recovery only reads. -/
def reconcile (user : Int) (id : Uuid) : Call Intent := do
  let token ← authorize user
  let intent ← store (.mutation user id)
  match intent.state with
  | .confirmed => applied user id
  | .applied => return intent
  | .prepared | .rejected => throw .invalid
  | .sending | .unknown =>
      let prepared ← orElse .invalid intent.prepared
      if ← observe token intent.request prepared then
        store (.confirmMutation user id (.obj []) (← clock))
        applied user id
      else
        store (.unknownMutation user id (← clock))
        throw (.mutationPending id)

/-- The error of a send that was not accepted. -/
def rejection : Error → Option MutationError
  | .forbidden => some .authFailed
  | .rateLimited => some .rateLimited
  | _ => none

/-- What follows a send. -/
def settle (user : Int) (id : Uuid) (outcome : Except Error Json) : Call Intent := do
  match outcome with
  | .ok result =>
      store (.confirmMutation user id result (← clock))
      applied user id
  | .error e =>
      match rejection e with
      | some code =>
          store (.rejectMutation user id code (← clock))
          throw e
      | none =>
          store (.unknownMutation user id (← clock))
          throw (.mutationPending id)

/-- A prepared intent is sent by the caller that moves it on. -/
def sendPrepared (user : Int) (token : String) (intent : Intent) : Call Intent := do
  let prepared ← orElse .invalid intent.prepared
  let prepared ← preflight token intent.request prepared
  let token ← authorize user
  if !(← store (.beginMutationSend intent prepared (← clock))) then
    throw (.mutationPending intent.id)
  let outcome ← send token intent.request prepared
  settle user intent.id outcome

def drive (user : Int) (id : Uuid) : Call Intent := do
  let token ← authorize user
  let intent ← store (.mutation user id)
  match intent.state with
  | .applied => return intent
  | .confirmed => applied user id
  | .sending | .unknown => reconcile user id
  | .prepared => sendPrepared user token intent
  | .rejected => throw .invalid

def executeKeyed (user : Int) (request : Mutation) (key : Option String) : Call Intent := do
  let _ ← authorize user
  let intent ← prepareMutationKeyed user request key (← clock)
  drive user intent.id

/-- The lists that may have come of an ambiguous create. -/
def createCandidates (user : Int) (id : Uuid) : Call (List ListSnapshot) := do
  let token ← authorize user
  let intent ← store (.mutation user id)
  match intent.request with
  | .createList body =>
      if !intent.inFlight then throw .invalid
      let prepared ← orElse .invalid intent.prepared
      let baseline ← orElse .invalid (strings (prepared.entry "baseline"))
      let catalog ← github (.catalogue token)
      return catalog.filter fun l =>
        !baseline.contains l.id && some l.name = (body.entry "name").asStr &&
          l.description.getD "" = (body.entry "description").asStr.getD ""
  | _ => throw .invalid

/-- A candidate, as it is shown to the user. -/
def ListSnapshot.toJson (l : ListSnapshot) : Json := .obj [
  ("id", .str l.id),
  ("name", .str l.name),
  ("slug", .str l.slug),
  ("description", optionalStr l.description)]

/-- The user adopts a candidate. -/
def adoptCreate (user : Int) (id : Uuid) (remote : String) : Call Intent := do
  let candidates ← createCandidates user id
  let selected ← orElse .invalid (candidates.find? (·.id = remote))
  let _ ← authorize user
  store (.confirmMutation user id selected.toJson (← clock))
  applied user id

/-! ## Routes -/

/-- `create_folder`: local unless the body says otherwise. -/
def createFolder (user : Int) (body : Json) (key : Except Error (Option String)) :
    Call Folder := do
  require user "inbox:ingest"
  let body ← check (Validation.catalogueFolder body true)
  if (body.member? "is_local").any (·.asBool.isNone) then throw .invalid
  if (body.entry "is_local").asBool.getD true then saveCatalogue user none body
  else
    let key ← orElse .invalid (← check key)
    let intent ← executeKeyed user (.createList body) (some key)
    catalogueOne user (← orElse .uncertain intent.localFolderId)

def updateFolder (user folder : Int) (body : Json) : Call Folder := do
  require user "inbox:ingest"
  let body ← check (Validation.catalogueFolder body true)
  saveCatalogue user (some folder) body

def patchFolder (user folder : Int) (body : Json) : Call Folder := do
  require user "inbox:ingest"
  let body ← check (Validation.folderPatch body)
  saveCatalogue user (some folder) body

/-- `delete_folder` -/
def removeFolder (user folder : Int) : Call Unit := do
  require user "inbox:ingest"
  let _ ← catalogueOne user folder
  store (.deleteFolder user folder)

def renameRemote (user folder : Int) (body : Json) : Call Intent := do
  let body ← check (Validation.folderPatch body)
  if ((body.member? "name").bind Json.asStr).isNone then throw .invalid
  executeKeyed user (.editList folder body) none

def deleteRemote (user folder : Int) : Call Intent :=
  executeKeyed user (.deleteList folder) none

/-- `folder_membership`: members of a linked folder are changed on GitHub. -/
def folderMembership (user folder star : Int) (add : Bool) : Call Unit := do
  require user "inbox:ingest"
  let f ← catalogueOne user folder
  if f.ghListId.isSome then
    let _ ← executeKeyed user (.membership folder star add) none
  else
    store (.membershipConfirmed user folder star add (← clock))

/-- `write_star` -/
def writeStar (user star : Int) (add : Bool) : Call Intent :=
  executeKeyed user (.star star add) none

/-- `cancel_mutation` -/
def cancelMutation (user : Int) (id : Uuid) : Call Unit := do
  require user "inbox:gh_write"
  store (.cancelPreparedMutation user id (← clock))

/-! ## Callers -/

/-- Who may call. -/
inductive Entry where
  | createFolder (user : Int) (body : Json) (key : Except Error (Option String))
  | updateFolder (user folder : Int) (body : Json)
  | patchFolder (user folder : Int) (body : Json)
  | deleteFolder (user folder : Int)
  | renameRemote (user folder : Int) (body : Json)
  | deleteRemote (user folder : Int)
  | membership (user folder star : Int) (add : Bool)
  | star (user star : Int) (add : Bool)
  | drive (user : Int) (id : Uuid)
  | adoptCreate (user : Int) (id : Uuid) (remote : String)
  | cancel (user : Int) (id : Uuid)
  | sync (live : Bool) (bridge : Except Error Unit) (user : Int) (snapshot : StarSnapshot)
      (lists : Option (List ListSnapshot)) (now : Int)
  | execute (user : Int) (request : Mutation) (key : Option String)
  | reconcile (user : Int) (id : Uuid)

/-- The result of a call goes to its client. -/
def ended {α : Type} (p : Call α) : Asking Question.Answer Unit := do
  let _ ← p.run
  return ()

def Entry.program : Entry → Asking Question.Answer Unit
  | createFolder user body key => ended (Inbox.createFolder user body key)
  | updateFolder user folder body => ended (Inbox.updateFolder user folder body)
  | patchFolder user folder body => ended (Inbox.patchFolder user folder body)
  | deleteFolder user folder => ended (removeFolder user folder)
  | renameRemote user folder body => ended (Inbox.renameRemote user folder body)
  | deleteRemote user folder => ended (Inbox.deleteRemote user folder)
  | membership user folder repo add => ended (folderMembership user folder repo add)
  | star user repo add => ended (writeStar user repo add)
  | drive user id => ended (Inbox.drive user id)
  | adoptCreate user id remote => ended (Inbox.adoptCreate user id remote)
  | cancel user id => ended (cancelMutation user id)
  | sync live bridge user snapshot lists now =>
      ended (store (.applyStars live bridge user snapshot lists now))
  | execute user request key => ended (executeKeyed user request key)
  | reconcile user id => ended (Inbox.reconcile user id)

/-- The routes and the synchronization. The other entries give the coordinator requests of
any kind. -/
def Entry.routed : Entry → Bool
  | execute .. | reconcile .. => false
  | _ => true

/-! ## Runs -/

/-- The ledger, with the identifiers drawn so far. -/
structure LedgerState where
  db : Ledger
  issued : List Uuid

/-- The ledger answers for itself, and draws identifiers that are new; the rest of the
world answers as it likes. -/
inductive Answers : LedgerState → (q : Question) → q.Answer → LedgerState → Prop
  | store {s : LedgerState} {c : StoreCall} {fresh : Uuid} {a : Except Error c.Answer}
      {db : Ledger} (new : fresh ∉ s.issued) (result : c.run fresh s.db = (a, db)) :
      Answers s (.store c) a ⟨db, fresh :: s.issued⟩
  | github {s : LedgerState} {c : GithubCall} {a : Except Error c.Answer} :
      Answers s (.github c) a s
  | require {s : LedgerState} {user : Int} {feature : String} {a : Except Error Unit} :
      Answers s (.require user feature) a s
  | githubToken {s : LedgerState} {user : Int} {a : Except Error (Option String)} :
      Answers s (.githubToken user) a s
  | clock {s : LedgerState} {now : Int} : Answers s .clock now s

abbrev Callers := Pool LedgerState Question.Answer Unit

abbrev CallerTurn := Turn Question.Answer Unit

def CallerStep (May : Entry → Prop) : Callers → CallerTurn → Callers → Prop :=
  Pool.Step (fun p => ∃ e : Entry, May e ∧ p = e.program) Answers

/-- Nothing is journalled yet, and identifiers of folders and stars are below those given
so far. -/
structure Ledger.Initial (db : Ledger) : Prop where
  mutations : db.mutations.rows = []
  folders : ∀ f ∈ db.folders.rows, f.id ≤ db.lastFolder
  stars : ∀ s ∈ db.stars.rows, s.id ≤ db.lastStar

/-- The events lead from a ledger without mutations, and no callers, to `t`. -/
def CallersReach (May : Entry → Prop) (s : Callers) (es : List CallerTurn) (t : Callers) :
    Prop :=
  s.shared.db.Initial ∧ s.callers = [] ∧ Run (CallerStep May) s es t

/-! ## Scripts -/

/-- What GitHub answers while a line is played. -/
abbrev GithubWorld := (c : GithubCall) → Except Error c.Answer

inductive ScriptLine where
  | enter (e : Entry)
  | turn (caller : Nat) (github : GithubWorld) (now : Int)

namespace Scenario

/-- The identifier that is drawn next. -/
def fresh (s : LedgerState) : Uuid := uuid s.issued.length

def answer (github : GithubWorld) (now : Int) (s : LedgerState) :
    (q : Question) → q.Answer × LedgerState
  | .store c =>
      let (a, db) := c.run (fresh s) s.db
      (a, ⟨db, fresh s :: s.issued⟩)
  | .github c => (github c, s)
  | .require .. => (.ok (), s)
  | .githubToken _ => (.ok (some "token"), s)
  | .clock => (now, s)

def perform (s : Callers) : ScriptLine → CallerTurn × Callers
  | .enter e => (.enter e.program, ⟨s.shared, s.callers ++ [e.program]⟩)
  | .turn caller github now =>
      match s.callers[caller]? with
      | some (.ask q next) =>
          let (a, t) := answer github now s.shared q
          (.answer caller q a, ⟨t, s.callers.set caller (next a)⟩)
      | _ => (.enter (.done ()), s)

/-- The line may be played. -/
def may (allowed : Entry → Bool) (s : Callers) : ScriptLine → Bool
  | .enter e => allowed e
  | .turn caller _ _ =>
      match s.callers[caller]? with
      | some (.ask _ _) => !s.shared.issued.contains (fresh s.shared)
      | _ => false

theorem answers {github : GithubWorld} {now : Int} {s : LedgerState} (q : Question)
    (h : fresh s ∉ s.issued) :
    Answers s q (answer github now s q).1 (answer github now s q).2 := by
  cases q with
  | store c => exact .store h rfl
  | github c => exact .github
  | require user feature => exact .require
  | githubToken user => exact .githubToken
  | clock => exact .clock

theorem perform_step {allowed : Entry → Bool} {May : Entry → Prop}
    (hmay : ∀ e, allowed e = true → May e) (s : Callers) (line : ScriptLine)
    (h : may allowed s line = true) :
    CallerStep May s (perform s line).1 (perform s line).2 := by
  cases line with
  | enter e => exact .enter ⟨e, hmay e h, rfl⟩
  | turn caller github now =>
      simp only [may] at h
      simp only [perform]
      cases hc : s.callers[caller]? with
      | none => simp [hc] at h
      | some p =>
          rw [hc] at h
          cases p with
          | done a => cases h
          | ask q next =>
              refine .answer hc (answers q fun hmem => ?_)
              rw [Bool.not_eq_true', List.contains_eq_mem, decide_eq_false_iff_not] at h
              exact h hmem

/-- Playing a script is a run. -/
theorem plays {allowed : Entry → Bool} {May : Entry → Prop}
    (hmay : ∀ e, allowed e = true → May e) {s : Callers} {script : List ScriptLine}
    (h : Lib.allowed perform (may allowed) s script = true) :
    Run (CallerStep May) s (play perform s script).1 (play perform s script).2 :=
  play_run (perform_step hmay) h

/-- The state after a script. -/
def after (s : Callers) (script : List ScriptLine) : Callers := (play perform s script).2

/-- Some turns of one caller. -/
def turns (caller : Nat) (github : GithubWorld) (n : Nat) : List ScriptLine :=
  List.replicate n (.turn caller github 0)

/-- GitHub is out of reach. -/
def offline : GithubWorld := fun _ => .error .external

end Scenario

end YoinkCore.Inbox
