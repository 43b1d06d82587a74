import YoinkCore.Lib.Leases
import YoinkCore.Inbox.Tables

/-!
# Jobs

What happens to an item after it was saved is the work of jobs. A worker claims a job for a
time, and whatever it brings back is applied only while the claim still holds the job.
-/

namespace YoinkCore.Inbox

open Lib

def InboxDb.item? (db : InboxDb) (user id : Int) : Option ItemRow :=
  db.items.rows.find? fun i => i.id = id && i.userId = user

/-! ## The queue -/

/-- What a claim gives out. -/
structure Claim extends Job where
  kind : JobKind
  attempts : Int

/-- `ON CONFLICT DO NOTHING`: one active job of a kind for an item. -/
def enqueue (user : Int) (item : Option Int) (kind : JobKind) (now : Int) : InboxStmt Unit := do
  let job (id : Int) : JobRecord := {
    id, userId := user, itemId := item, kind, state := .ready, attempts := 0
    availableAt := now, leaseUntil := none, leaseToken := none, lastError := none
    createdAt := now }
  let _ ← InboxDb.jobTable.insertNextIgnoring (·.sameWork (job 0)) job

/-- `Store::enqueue` -/
def enqueueJob (user : Int) (item : Option Int) (kind : JobKind) (now : Int) :
    InboxStmt Unit := do
  match item with
  | some id => let _ ← orElseFail .notFound ((← get).item? user id)
  | none => pure ()
  enqueue user item kind now

/-- The job is ready, or was left by its holder. -/
def JobRecord.due (now : Int) (j : JobRecord) : Bool :=
  (j.state = .ready && j.availableAt ≤ now) || (j.state = .running && j.leaseUntil.any (· ≤ now))

def claim (now lease : Int) (token : String) : InboxStmt (Option Claim) := do
  if lease ≤ 0 || token.isEmpty || 2 ^ 63 ≤ now + lease then throw .invalid
  match (← get).jobs.rows.find? (·.due now) with
  | none => return none
  | some j => do
      let _ ← InboxDb.jobTable.update (·.id = j.id) fun j =>
        { j with
          state := .running, leaseUntil := some (now + lease), leaseToken := some token
          attempts := j.attempts + 1 }
      return some ⟨⟨j.id, j.userId, j.itemId, token⟩, j.kind, j.attempts + 1⟩

/-- The claim holds the job. -/
def JobRecord.heldBy (c : Claim) (now : Int) (j : JobRecord) : Bool :=
  j.id = c.id && j.state = .running && j.leaseToken = some c.leaseToken &&
    j.leaseUntil.any (now < ·)

def live (c : Claim) (now : Int) : InboxStmt Bool := do
  return (← get).jobs.rows.any fun j => j.heldBy c now && j.userId = c.userId && j.kind = c.kind

/-- The first statement of what a claim brings back. -/
def whileLive (c : Claim) (now : Int) (body : InboxStmt Unit) : InboxStmt Bool := do
  if !(← live c now) then return false
  body
  return true

/-- The rows that a token holds. -/
def JobRecord.under (c : Claim) (j : JobRecord) : Bool :=
  j.id = c.id && j.leaseToken = some c.leaseToken

def done (c : Claim) : InboxStmt Unit := do
  let _ ← InboxDb.jobTable.update (·.under c)
    ({ · with state := .done, leaseUntil := none, leaseToken := none })

def operationFailed : String := "external operation failed"

def finish (c : Claim) (now : Int) (retryAt : Option Int) : InboxStmt Bool := do
  let changed ← InboxDb.jobTable.update (·.heldBy c now)
    ({ · with
      state := if retryAt.isSome then .ready else .done, availableAt := retryAt.getD now
      leaseUntil := none, leaseToken := none, lastError := retryAt.map fun _ => operationFailed })
  return changed = 1

/-! ## Failures -/

def failStatuses : List String := ["no_token", "auth_failed", "rate_limited", "error", "failed",
  "cancelled", "quota_exceeded", "insufficient_credits", "model_not_found", "invalid_config",
  "completion_failed"]

/-- `INSERT … ON CONFLICT(user_id) DO UPDATE` -/
def putSyncState (user : Int) (f : SyncState → SyncState) : InboxStmt Unit :=
  InboxDb.syncStateTable.upsert (·.userId = user) f (f ⟨user, none, none, none, none, 0, 0⟩)

/-- What a failure leaves on the item of the job, or on the stars of its user. -/
def recordFailure (c : Claim) (now : Int) (status : String) (retryAt : Option Int) :
    InboxStmt Unit := do
  let onItem (id : Int) (f : ItemRow → ItemRow) : InboxStmt Unit := do
    let _ ← InboxDb.itemTable.update
      (fun i => i.userId = c.userId && i.id = id && i.status ≠ "archived") f
  match c.kind, c.itemId with
  | .starsSync, _ =>
      putSyncState c.userId
        ({ · with lastStatus := some status, lastError := some operationFailed, updatedAt := now })
  | .classify, some id => onItem id ({ · with llmStatus := some "failed", modifiedAt := now })
  | .enrich, some id =>
      if retryAt.isNone then
        onItem id ({ · with status := "failed", crawlStatus := some "failed", modifiedAt := now })
  | _, none => return ()

/-- A cancellation gives the attempt back, and leaves no failure. -/
def failJob (c : Claim) (now : Int) (status : String) (retryAt : Option Int) :
    InboxStmt Bool := do
  if !failStatuses.contains status then throw .invalid
  if status = "cancelled" && retryAt.all (· ≤ now) then throw .invalid
  whileLive c now do
    if status = "cancelled" then
      let _ ← InboxDb.jobTable.update (·.heldBy c now) fun j =>
        { j with
          state := .ready, attempts := j.attempts - 1, availableAt := retryAt.getD now
          leaseUntil := none, leaseToken := none }
    else
      recordFailure c now status retryAt
      let _ ← InboxDb.jobTable.update (·.under c) fun j =>
        { j with
          state := if retryAt.isSome then .ready else .failed, availableAt := retryAt.getD now
          leaseUntil := none, leaseToken := none, lastError := some operationFailed }

/-! ## Results -/

structure Content where
  summarySeed : Option String
  githubRepoId : Option Int
  title : Option String
  contentText : Option String
  ogImageUrl : Option String
  faviconUrl : Option String
  author : Option String
  publisher : Option String
  publishedAt : Option Int
  crawlStatus : Option String

/-- The title and the text are taken over, the rest only where there is nothing yet. -/
def Content.fill (content : Content) (now : Int) (i : ItemRow) : ItemRow :=
  { i with
    title := content.title.or i.title
    summary := i.summary.or content.summarySeed
    contentText := content.contentText.or i.contentText
    ogImageUrl := i.ogImageUrl.or content.ogImageUrl
    faviconUrl := i.faviconUrl.or content.faviconUrl
    author := i.author.or content.author
    publisher := i.publisher.or content.publisher
    publishedAt := i.publishedAt.or content.publishedAt
    crawlStatus := content.crawlStatus
    status := if content.crawlStatus = some "failed" then "failed" else "enriched"
    modifiedAt := now }

def stopped (status : String) : Bool := ["archived", "failed"].contains status

/-- A result is stored, and ends the job. -/
def applyResult (c : Claim) (now : Int) (store : InboxStmt Unit) : InboxStmt Bool :=
  whileLive c now do
    store
    done c

def storeContent (c : Claim) (content : Content) (now : Int) : InboxStmt Unit := do
  let id ← orElseFail .invalid c.itemId
  let changed ← InboxDb.itemTable.update
    (fun i => i.id = id && i.userId = c.userId && !stopped i.status) (content.fill now)
  let stars := (← get).ledger.stars.rows.filter fun s =>
    s.userId = c.userId && content.githubRepoId = some s.ghRepoId
  stars.forM fun s => InboxDb.itemStarTable.upsert
    (fun b => b.itemId = id && b.starId = s.id) ({ · with syncedAt := now }) ⟨id, s.id, now⟩
  if 0 < changed && content.crawlStatus ≠ some "failed" then
    enqueue c.userId (some id) .classify now

def applyContent (c : Claim) (content : Content) (now : Int) : InboxStmt Bool :=
  applyResult c now (storeContent c content now)

/-- A hard deletion takes along what hangs on the item; its notifications lose it. -/
def archive (user id : Int) (hard : Bool) (now : Int) : InboxStmt Unit := do
  let changed ←
    if hard then InboxDb.itemTable.delete fun i => i.id = id && i.userId = user
    else InboxDb.itemTable.update (fun i => i.id = id && i.userId = user) fun i =>
      { i with status := "archived", archivedAt := some now, modifiedAt := now }
  if changed = 0 then throw .notFound
  if hard then
    let _ ← InboxDb.itemCategoryTable.delete (·.itemId = id)
    let _ ← InboxDb.itemStarTable.delete (·.itemId = id)
    let _ ← InboxDb.jobTable.delete (·.itemId = some id)
    onOutbox do
      let _ ← updateNotifications (·.itemId = some id) ({ · with itemId := none })

end YoinkCore.Inbox
