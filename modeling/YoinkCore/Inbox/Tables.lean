import YoinkCore.Lib.TableIn
import YoinkCore.Inbox.Catalogue
import YoinkCore.Inbox.Links

/-!
# The tables of the inbox

Items with their categories, rules, jobs and notifications, beside the ledger of folders
and stars. `InboxStmt` is the body of a transaction on all of them. The ledger and the
outbox are states of their own, which `onLedger` and `onOutbox` read and write in place.
-/

namespace YoinkCore.Inbox

open Lib
open Storage (Uuid)

/-! ## Rows -/

/-- inbox_items -/
structure ItemRow where
  id : Int
  userId : Int
  url : String
  normalizedUrl : String
  title : Option String
  summary : Option String
  kind : String
  source : String
  status : String
  crawlStatus : Option String
  llmStatus : Option String
  contentText : Option String
  ogImageUrl : Option String
  faviconUrl : Option String
  author : Option String
  publisher : Option String
  publishedAt : Option Int
  createdAt : Int
  modifiedAt : Int
  archivedAt : Option Int
  tgChatId : Option Int
  tgReplyMessageId : Option Int
deriving DecidableEq

def ItemRow.checks (i : ItemRow) : List Bool := [
  i.kind.length ≤ 24,
  i.source.length ≤ 16,
  i.status.length ≤ 16,
  i.crawlStatus.all (·.length ≤ 16),
  i.llmStatus.all (·.length ≤ 16),
  i.author.all (·.length ≤ 255),
  i.publisher.all (·.length ≤ 255)]

def itemRowSchema : Schema ItemRow where
  check i := i.checks.all id
  clash a b := a.id = b.id || (a.userId = b.userId && a.normalizedUrl = b.normalizedUrl)

/-- inbox_categories -/
structure Category where
  id : Int
  ownerUserId : Int
  sharedWithTeamId : Option Int
  name : String
  normalizedName : String
  slug : String
  icon : Option String
  color : Option String
  kind : String
  parentId : Option Int
  description : Option String
  createdAt : Int
deriving DecidableEq

def Category.checks (c : Category) : List Bool := [
  c.name.length ≤ 128,
  c.normalizedName.length ≤ 128,
  c.slug.length ≤ 64,
  c.icon.all (·.length ≤ 32),
  c.color.all (·.length ≤ 16),
  c.kind.length ≤ 16]

def categorySchema : Schema Category where
  check c := c.checks.all id
  clash a b := a.id = b.id ||
    (a.ownerUserId = b.ownerUserId && (a.normalizedName = b.normalizedName || a.slug = b.slug))

/-- inbox_item_categories -/
structure ItemCategory where
  itemId : Int
  categoryId : Int
  attachedBy : String
  confidence : Option Float
  attachedAt : Int

def ItemCategory.sameKey (a b : ItemCategory) : Bool :=
  a.itemId = b.itemId && a.categoryId = b.categoryId

def itemCategorySchema : Schema ItemCategory where
  check b := b.attachedBy.length ≤ 8
  clash := ItemCategory.sameKey

/-- inbox_item_to_star -/
structure ItemStar where
  itemId : Int
  starId : Int
  syncedAt : Int
deriving DecidableEq

def ItemStar.sameKey (a b : ItemStar) : Bool := a.itemId = b.itemId && a.starId = b.starId

def itemStarSchema : Schema ItemStar where
  check _ := true
  clash := ItemStar.sameKey

/-- inbox_rules -/
structure Rule where
  id : Int
  userId : Int
  name : String
  enabled : Bool
  priority : Int
  trigger : String
  conditions : Option Json
  actions : Option Json
  createdAt : Int
  modifiedAt : Int
deriving DecidableEq

def Rule.checks (r : Rule) : List Bool := [
  r.name.length ≤ 128,
  -2 ^ 31 ≤ r.priority && r.priority ≤ 2 ^ 31 - 1,
  r.trigger.length ≤ 24]

def ruleSchema : Schema Rule where
  check r := r.checks.all id
  clash a b := a.id = b.id

inductive JobKind where
  | enrich | classify | starsSync
deriving DecidableEq

inductive JobState where
  | ready | running | done | failed
deriving DecidableEq

/-- inbox_jobs -/
structure JobRecord where
  id : Int
  userId : Int
  itemId : Option Int
  kind : JobKind
  state : JobState
  attempts : Int
  availableAt : Int
  leaseUntil : Option Int
  leaseToken : Option String
  lastError : Option String
  createdAt : Int
deriving DecidableEq

/-- Waiting or held. -/
def JobRecord.active (j : JobRecord) : Bool := j.state matches .ready | .running

def JobRecord.checks (j : JobRecord) : List Bool := [
  0 ≤ j.attempts,
  decide (j.kind = .starsSync) == j.itemId.isNone,
  decide (j.state = .running) == j.leaseUntil.isSome,
  decide (j.state = .running) == j.leaseToken.isSome]

/-- The unique index of the active jobs. -/
def JobRecord.sameWork (a b : JobRecord) : Bool :=
  a.active && b.active && a.userId = b.userId && a.kind = b.kind &&
    a.itemId.getD 0 = b.itemId.getD 0

def jobSchema : Schema JobRecord where
  check j := j.checks.all id
  clash a b := a.id = b.id || a.sameWork b

/-- inbox_gh_sync_state -/
structure SyncState where
  userId : Int
  etag : Option String
  lastSyncedAt : Option Int
  lastStatus : Option String
  lastError : Option String
  starsCount : Int
  updatedAt : Int
deriving DecidableEq

def syncStateSchema : Schema SyncState where
  check s := -2 ^ 31 ≤ s.starsCount && s.starsCount ≤ 2 ^ 31 - 1
  clash a b := a.userId = b.userId

/-! ## The state -/

structure InboxDb where
  items : Table itemRowSchema
  categories : Table categorySchema
  itemCategories : Table itemCategorySchema
  itemStars : Table itemStarSchema
  rules : Table ruleSchema
  jobs : Table jobSchema
  notifications : Table notificationSchema
  syncStates : Table syncStateSchema
  ledger : Ledger
  /-- Team and user of the rows of `inbox_team_members`. -/
  teamMembers : List (Int × Int)
  lastItem : Int
  lastCategory : Int
  lastRule : Int
  lastJob : Int
  lastSequence : Nat

abbrev InboxStmt := Tx InboxDb Error

namespace InboxDb

def itemTable : Serial InboxDb Error itemRowSchema where
  read := items
  write db items := { db with items }
  fault := .database
  key := ItemRow.id
  last := lastItem
  setLast db id := { db with lastItem := id }

def categoryTable : Serial InboxDb Error categorySchema where
  read := categories
  write db categories := { db with categories }
  fault := .database
  key := Category.id
  last := lastCategory
  setLast db id := { db with lastCategory := id }

def itemCategoryTable : TableIn InboxDb Error itemCategorySchema where
  read := itemCategories
  write db itemCategories := { db with itemCategories }
  fault := .database

def itemStarTable : TableIn InboxDb Error itemStarSchema where
  read := itemStars
  write db itemStars := { db with itemStars }
  fault := .database

def ruleTable : Serial InboxDb Error ruleSchema where
  read := rules
  write db rules := { db with rules }
  fault := .database
  key := Rule.id
  last := lastRule
  setLast db id := { db with lastRule := id }

def jobTable : Serial InboxDb Error jobSchema where
  read := jobs
  write db jobs := { db with jobs }
  fault := .database
  key := JobRecord.id
  last := lastJob
  setLast db id := { db with lastJob := id }

def syncStateTable : TableIn InboxDb Error syncStateSchema where
  read := syncStates
  write db syncStates := { db with syncStates }
  fault := .database

end InboxDb

/-! ## Parts -/

/-- What the outbox reads of an item. -/
def ItemRow.toItem (i : ItemRow) : Item where
  id := i.id
  userId := i.userId
  title := i.title
  url := i.url
  summary := i.summary
  status := i.status
  source := i.source
  tgChatId := i.tgChatId
  tgReplyMessageId := i.tgReplyMessageId

/-- The outbox reads the items, and writes its notifications. -/
def InboxDb.outbox (db : InboxDb) : Outbox where
  items := {
    rows := db.items.rows.map ItemRow.toItem
    checked := by
      intro r hr
      obtain ⟨i, hi, rfl⟩ := List.mem_map.mp hr
      have h := db.items.checked i hi
      simp only [itemRowSchema, ItemRow.checks, List.all_cons, Bool.and_eq_true, id] at h
      simp [itemSchema, ItemRow.toItem, h.2.1, h.2.2.1]
    unique := by
      refine List.pairwise_map.mpr (db.items.unique.imp fun {a b} h => ?_)
      simp only [itemRowSchema, Bool.or_eq_false_iff] at h
      simpa [itemSchema, ItemRow.toItem] using h.1 }
  notifications := db.notifications
  lastSequence := db.lastSequence

def onOutbox {α : Type} (stmt : OutboxStmt α) : InboxStmt α := do
  let db ← get
  let (a, outbox) ← Tx.ofExcept (stmt db.outbox)
  set { db with notifications := outbox.notifications, lastSequence := outbox.lastSequence }
  return a

def onLedger {α : Type} (stmt : LedgerStmt α) : InboxStmt α := do
  let db ← get
  let (a, ledger) ← Tx.ofExcept (stmt db.ledger)
  set { db with ledger }
  return a

/-- The value, or the error that stands for its absence. -/
def orElseFail {α : Type} (e : Error) (value : Option α) : InboxStmt α :=
  Tx.ofExcept (value.elim (.error e) .ok)

section

variable {α : Type} {db db' : InboxDb} {a : α}

theorem onLedger_eq_ok {stmt : LedgerStmt α} :
    onLedger stmt db = .ok (a, db') ↔
      ∃ ledger, stmt db.ledger = .ok (a, ledger) ∧ db' = { db with ledger } := by
  simp only [onLedger, Tx.bind_eq_ok, Tx.get_eq_ok, Tx.ofExcept_eq_ok, Tx.set_eq_ok,
    Tx.pure_eq_ok]
  constructor
  · rintro ⟨_, _, ⟨rfl, rfl⟩, ⟨b, ledger⟩, _, ⟨hstmt, rfl⟩, _, _, rfl, rfl, rfl⟩
    exact ⟨ledger, hstmt, rfl⟩
  · rintro ⟨ledger, hstmt, rfl⟩
    exact ⟨db, db, ⟨rfl, rfl⟩, (a, ledger), db, ⟨hstmt, rfl⟩, ⟨⟩, _, rfl, rfl, rfl⟩

theorem onOutbox_eq_ok {stmt : OutboxStmt α} :
    onOutbox stmt db = .ok (a, db') ↔
      ∃ outbox : Outbox, stmt db.outbox = .ok (a, outbox) ∧
        db' = { db with
          notifications := outbox.notifications, lastSequence := outbox.lastSequence } := by
  simp only [onOutbox, Tx.bind_eq_ok, Tx.get_eq_ok, Tx.ofExcept_eq_ok, Tx.set_eq_ok,
    Tx.pure_eq_ok]
  constructor
  · rintro ⟨_, _, ⟨rfl, rfl⟩, ⟨b, outbox⟩, _, ⟨hstmt, rfl⟩, _, _, rfl, rfl, rfl⟩
    exact ⟨outbox, hstmt, rfl⟩
  · rintro ⟨outbox, hstmt, rfl⟩
    exact ⟨db, db, ⟨rfl, rfl⟩, (a, outbox), db, ⟨hstmt, rfl⟩, ⟨⟩, _, rfl, rfl, rfl⟩

@[simp] theorem orElseFail_eq_ok {e : Error} {value : Option α} :
    orElseFail e value db = .ok (a, db') ↔ value = some a ∧ db = db' := by
  cases value <;> simp [orElseFail]

end

end YoinkCore.Inbox
