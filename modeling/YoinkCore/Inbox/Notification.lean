import YoinkCore.Lib.Table
import YoinkCore.Lib.Transaction
import YoinkCore.Storage.Model

/-!
# Completion notifications

An item that was saved through the bot and classified gets a notification: an edit of the
reply to its save. The outbox holds it until a dispatcher claims it and sends it. Claimed
work is repeated only before the send is recorded; what came of a send is told by its
token.
-/

namespace YoinkCore.Inbox

open Lib Storage

/-- Errors of the inbox. -/
inductive Error where
  | database
  | invalid
  | notFound
  | forbidden
  | rateLimited
  | external
  | mutationPending (id : Uuid)
  | uncertain
deriving DecidableEq

/-! ## Rows -/

inductive NotificationState where
  | waiting | ready | claimed | sending | unknown | acked | cancelled
deriving DecidableEq

/-- `error_code` -/
inductive NotificationError where
  | notSent | outcomeUnknown | inactive
deriving DecidableEq

/-- A row of the outbox. The payload is a snapshot of the classification. -/
structure Notification where
  sequence : Nat
  id : Uuid
  userId : Int
  itemId : Option Int
  completionKey : String
  payload : Json
  chatId : Option Int
  messageId : Option Int
  state : NotificationState
  attempts : Nat
  availableAt : Int
  leaseUntil : Option Int
  leaseToken : Option Uuid
  sendToken : Option Uuid
  receipt : Option String
  errorCode : Option NotificationError
  createdAt : Int
  updatedAt : Int
deriving DecidableEq

namespace Notification

/-- The `CHECK` clauses. A comparison with a missing value does not fail a row. -/
def checks (n : Notification) : List Bool := [
  n.payload matches .obj _,
  n.chatId.all (· ≠ 0) && n.messageId.all (0 < ·),
  (n.state matches .waiting | .cancelled) || (n.chatId.isSome && n.messageId.isSome),
  !(n.state matches .sending | .unknown | .acked) || n.sendToken.isSome,
  n.state ≠ .acked || n.receipt.isSome,
  n.state ≠ .claimed || (n.leaseUntil.isSome && n.leaseToken.isSome)]

/-- Before the send. -/
def presend (n : Notification) : Bool :=
  n.state matches .waiting | .ready | .claimed

/-- On its way to an outcome. -/
def inFlight (n : Notification) : Bool :=
  n.state matches .sending | .unknown

/-- Held by a dispatcher, or left by one. -/
def busy (n : Notification) : Bool :=
  n.state matches .claimed | .sending | .unknown

/-- Blocks later notifications of the same reply. -/
def pending (n : Notification) : Bool :=
  n.state matches .ready | .claimed | .sending | .unknown

/-- The same message is to be edited. -/
def sameReply (n m : Notification) : Bool :=
  n.chatId.isSome && n.messageId.isSome && n.chatId = m.chatId && n.messageId = m.messageId

end Notification

/-- inbox_notifications -/
def notificationSchema : Schema Notification where
  check n := n.checks.all id
  clash a b := a.sequence = b.sequence || a.id = b.id || a.completionKey = b.completionKey

/-- A row of `inbox_items`, as far as notifications read it. -/
structure Item where
  id : Int
  userId : Int
  title : Option String
  url : String
  summary : Option String
  status : String
  source : String
  tgChatId : Option Int
  tgReplyMessageId : Option Int
deriving DecidableEq

/-- inbox_items -/
def itemSchema : Schema Item where
  check i := i.source.length ≤ 16 && i.status.length ≤ 16
  clash a b := a.id = b.id

/-- The item still takes part. -/
def Item.active (i : Item) : Bool := !(["archived", "failed"].contains i.status)

/-- The tables of the outbox, with the highest sequence number given so far. -/
structure Outbox where
  items : Table itemSchema
  notifications : Table notificationSchema
  lastSequence : Nat

abbrev OutboxStmt := Tx Outbox Error

/-! ## Statements -/

/-- `UPDATE inbox_notifications SET f WHERE p`, with the number of rows affected. -/
def updateNotifications (p : Notification → Bool) (f : Notification → Notification) :
    OutboxStmt Nat := do
  let db ← get
  match db.notifications.update p f with
  | none => throw .database
  | some (notifications, changed) => do
      set { db with notifications }
      return changed

/-- `INSERT INTO inbox_notifications … ON CONFLICT(completion_key) DO NOTHING`. The row
gets the next sequence number. -/
def insertNotification (row : Nat → Notification) : OutboxStmt Unit := do
  let db ← get
  let n := row (db.lastSequence + 1)
  if db.notifications.rows.any (·.completionKey = n.completionKey) then return ()
  match db.notifications.insert n with
  | none => throw .database
  | some notifications =>
      set { db with notifications, lastSequence := db.lastSequence + 1 }

/-- The item of a user. -/
def Outbox.item (db : Outbox) (user id : Int) : Option Item :=
  db.items.rows.find? fun i => i.id = id && i.userId = user

/-- The item of a notification is still there, and takes part. -/
def Outbox.active (db : Outbox) (n : Notification) : Bool :=
  db.items.rows.any fun i => n.itemId = some i.id && i.userId = n.userId && i.active

/-! ## Admission -/

/-- The job whose classification is applied. -/
structure Job where
  id : Int
  userId : Int
  itemId : Option Int
  leaseToken : String

/-- The payload of a notification. -/
def Item.payload (i : Item) (categories : List String) : Json :=
  .obj [
    ("title", i.title.elim .null .str),
    ("url", .str i.url),
    ("summary", i.summary.elim .null .str),
    ("categories", .arr (categories.map .str))]

/-- The reply to the save is known. -/
def Item.bound (i : Item) : Bool :=
  i.tgChatId.any (· ≠ 0) && i.tgReplyMessageId.any (0 < ·)

/-- Part of the transaction that applies a classification. -/
def admitNotification (job : Job) (categories : List String) (now : Int) (fresh : Uuid) :
    OutboxStmt Unit := do
  match job.itemId with
  | none => throw .invalid
  | some item =>
      match (← get).item job.userId item with
      | none => return ()
      | some i =>
          if i.source ≠ "bot" || !i.active then return ()
          insertNotification fun sequence => {
            sequence, id := fresh, userId := job.userId, itemId := some item
            completionKey := toString job.id ++ ":" ++ job.leaseToken
            payload := i.payload categories
            chatId := if i.bound then i.tgChatId else none
            messageId := if i.bound then i.tgReplyMessageId else none
            state := if i.bound then .ready else .waiting
            attempts := 0, availableAt := now, leaseUntil := none, leaseToken := none
            sendToken := none, receipt := none, errorCode := none
            createdAt := now, updatedAt := now }

/-- The message a notification edits. -/
structure ReplyTarget where
  chatId : Int
  messageId : Int
deriving DecidableEq

/-- The update of `bind_reply` on the items. The first binding wins. -/
def bindItem (user item : Int) (target : ReplyTarget) : OutboxStmt Nat := do
  let db ← get
  let updated := db.items.update
    (fun i => i.userId = user && i.id = item && i.source = "bot" &&
      ((i.tgChatId.isNone && i.tgReplyMessageId.isNone) ||
        (i.tgChatId = some target.chatId && i.tgReplyMessageId = some target.messageId)))
    (fun i => { i with
      tgChatId := some target.chatId, tgReplyMessageId := some target.messageId })
  match updated with
  | none => throw .database
  | some (items, changed) => do
      set { db with items }
      return changed

/-- A waiting notification of an item. -/
def Notification.waitsFor (user item : Int) (n : Notification) : Bool :=
  n.userId = user && n.itemId = some item && n.state = .waiting

def Notification.bind (target : ReplyTarget) (n : Notification) : Notification :=
  { n with chatId := some target.chatId, messageId := some target.messageId, state := .ready }

/-- The transaction of `bind_reply`. -/
def bindReplyOn (user item : Int) (target : ReplyTarget) : OutboxStmt Bool := do
  let rows ← bindItem user item target
  if rows = 1 then
    let _ ← updateNotifications (·.waitsFor user item) (·.bind target)
  return rows = 1

/-- A method that may be refused before it writes. -/
def refusing {α : Type} (checks : Except Error Unit) (body : OutboxStmt α) (db : Outbox) :
    Except Error α × Outbox :=
  match checks with
  | .error e => (.error e, db)
  | .ok _ => Tx.auto body db

/-- Fail unless a condition holds. -/
def ensure (holds : Bool) : Except Error Unit :=
  if holds then .ok () else .error .invalid

/-- `access` is what the authorization of the user came to. -/
def bindReply (access : Except Error Unit) (user item : Int) (target : ReplyTarget) :
    Outbox → Except Error Bool × Outbox :=
  refusing (do
      access
      ensure (target.chatId ≠ 0 && 0 < target.messageId))
    (bindReplyOn user item target)

/-! ## Claims -/

/-- A send nobody waits for any more. -/
def Notification.expired (now : Int) (n : Notification) : Bool :=
  n.state = .sending && n.leaseUntil.any (· ≤ now)

def Notification.quarantine (now : Int) (n : Notification) : Notification :=
  { n with state := .unknown, errorCode := some .outcomeUnknown, updatedAt := now }

def Notification.inactivate (now : Int) (n : Notification) : Notification :=
  { n with state := .cancelled, errorCode := some .inactive, updatedAt := now }

/-- May be claimed, but for earlier ones of the same reply. -/
def Notification.claimable (now : Int) (n : Notification) : Bool :=
  (n.state = .ready && n.availableAt ≤ now) ||
    (n.state = .claimed && n.leaseUntil.any (· ≤ now))

/-- An earlier notification of the same reply is pending. -/
def Outbox.blocked (db : Outbox) (n : Notification) : Bool :=
  db.notifications.rows.any fun prior =>
    prior.sameReply n && prior.pending && prior.sequence < n.sequence

/-- The order of the outbox. -/
def sequenceOrder (a b : Notification) : Prop := a.sequence ≤ b.sequence

instance : DecidableRel sequenceOrder := fun a b =>
  inferInstanceAs (Decidable (a.sequence ≤ b.sequence))

/-- The notification to claim next. -/
def Outbox.head (db : Outbox) (now : Int) : Option Notification :=
  ((db.notifications.rows.filter fun n => n.claimable now && !db.blocked n).insertionSort
    sequenceOrder).head?

def Notification.claim (until' now : Int) (token : Uuid) (n : Notification) : Notification :=
  { n with
    state := .claimed, attempts := n.attempts + 1, leaseUntil := some until'
    leaseToken := some token, updatedAt := now }

/-- Crashed sends are quarantined and inactive notifications cancelled first. -/
def sweepNotifications (now : Int) : OutboxStmt Unit := do
  let _ ← updateNotifications (·.expired now) (·.quarantine now)
  let db ← get
  let _ ← updateNotifications (fun n => n.presend && !db.active n) (·.inactivate now)

/-- The update of `claim_notification` on the head, with the row it returns. -/
def claimHead (until' now : Int) (fresh : Uuid) : OutboxStmt (Option Notification) := do
  match (← get).head now with
  | none => return none
  | some head => do
      let _ ← updateNotifications (·.id = head.id) (·.claim until' now fresh)
      return some (head.claim until' now fresh)

/-- The transaction of `claim_notification`. -/
def claimNotificationOn (until' now : Int) (fresh : Uuid) :
    OutboxStmt (Option Notification) := do
  sweepNotifications now
  claimHead until' now fresh

/-- The lease is positive, and ends within the range of times. -/
def checkLease (now lease : Int) : Except Error Unit :=
  ensure (now + lease ≤ 2 ^ 63 - 1 && 0 < lease)

def claimNotification (now lease : Int) (fresh : Uuid) :
    Outbox → Except Error (Option Notification) × Outbox :=
  refusing (checkLease now lease) (claimNotificationOn (now + lease) now fresh)

/-! ## Sends -/

/-- The claim is the live one of the row. -/
def Notification.heldBy (n claim : Notification) (now : Int) : Bool :=
  n.id = claim.id && n.userId = claim.userId && n.state = .claimed &&
    claim.leaseToken.isSome && n.leaseToken = claim.leaseToken && n.leaseUntil.any (now < ·)

/-- The item of a notification takes part, and its reply is still the one to edit. -/
def Outbox.routed (db : Outbox) (n : Notification) : Bool :=
  db.items.rows.any fun i => n.itemId = some i.id && i.userId = n.userId && i.active &&
    i.tgChatId.isSome && i.tgChatId = n.chatId &&
    i.tgReplyMessageId.isSome && i.tgReplyMessageId = n.messageId

def Notification.begin (now : Int) (token : Uuid) (n : Notification) : Notification :=
  { n with state := .sending, sendToken := some token, updatedAt := now }

/-- The update of `begin_notification_send`. The token identifies the send. -/
def beginSendOn (claim : Notification) (target : ReplyTarget) (now : Int) (fresh : Uuid) :
    OutboxStmt Uuid := do
  let db ← get
  let changed ← updateNotifications
    (fun n => n.heldBy claim now && n.chatId = some target.chatId &&
      n.messageId = some target.messageId && db.routed n)
    (·.begin now fresh)
  if changed = 1 then return fresh else throw .uncertain

/-- `access` is what the grants of the user and the route came to. -/
def beginNotificationSend (access : Except Error Unit) (claim : Notification) (now : Int)
    (fresh : Uuid) (db : Outbox) : Except Error Uuid × Outbox :=
  match claim.chatId, claim.messageId with
  | some chatId, some messageId =>
      refusing access (beginSendOn claim ⟨chatId, messageId⟩ now fresh) db
  | _, _ => (.error .invalid, db)

/-- An update of one row, that tells whether there was one. -/
def updateOne (p : Notification → Bool) (f : Notification → Notification) :
    OutboxStmt Bool := do
  let changed ← updateNotifications p f
  return changed = 1

def Notification.release (state : NotificationState) (now : Int) (n : Notification) :
    Notification :=
  { n with state, leaseToken := none, leaseUntil := none, updatedAt := now }

def cancelNotificationClaim (claim : Notification) (now : Int) :
    Outbox → Except Error Bool × Outbox :=
  Tx.auto (updateOne (·.heldBy claim now)
    fun n => { n.release .cancelled now with errorCode := some .inactive })

def retryNotification (claim : Notification) (now availableAt : Int) :
    Outbox → Except Error Bool × Outbox :=
  refusing (ensure (now ≤ availableAt))
    (updateOne (·.heldBy claim now) fun n => { n.release .ready now with availableAt })

inductive Outcome where
  | confirmed (receipt : String)
  | definitelyNotSent (retryAt : Int)
  | unknown
deriving DecidableEq

def checkOutcome (outcome : Outcome) (now : Int) : Except Error Unit :=
  match outcome with
  | .confirmed receipt =>
      ensure (!receipt.isEmpty && Text.byteLen receipt.toList ≤ 128)
  | .definitelyNotSent retryAt => ensure (now ≤ retryAt)
  | .unknown => .ok ()

def Notification.record (outcome : Outcome) (now : Int) (n : Notification) : Notification :=
  match outcome with
  | .confirmed receipt =>
      { n.release .acked now with
        receipt := some receipt, errorCode := none, availableAt := now }
  | .definitelyNotSent retryAt =>
      { n.release .ready now with
        receipt := none, errorCode := some .notSent, availableAt := retryAt }
  | .unknown =>
      { n.release .unknown now with
        receipt := none, errorCode := some .outcomeUnknown, availableAt := now }

/-- The row of a send that has no outcome yet. -/
def Notification.sentUnder (user : Int) (id token : Uuid) (n : Notification) : Bool :=
  n.userId = user && n.id = id && n.sendToken = some token && n.inFlight

/-- Recording what came of a send never starts one. -/
def notificationOutcome (user : Int) (id token : Uuid) (outcome : Outcome) (now : Int) :
    Outbox → Except Error Bool × Outbox :=
  refusing (checkOutcome outcome now)
    (updateOne (·.sentUnder user id token) (·.record outcome now))

end YoinkCore.Inbox
