import YoinkCore.Lib.Table
import YoinkCore.Lib.Transaction
import YoinkCore.Storage.Model

/-!
# Tables

The rows of the tables the operation store touches, with their `CHECK`,
`PRIMARY KEY` and `UNIQUE` constraints. The columns follow the migrations; the
optional ones may be `NULL`.
-/

namespace YoinkCore.Storage

open Lib Domain

/-! ## Operations -/

structure OperationRow where
  id : Uuid
  actorId : Nat
  idempotencyKey : String
  request : Json
  status : OperationStatus := .queued
  attempt : Nat := 0
  maxAttempts : Nat
  cancelRequested : Bool := false
  workerId : Option String := none
  leaseToken : Option Uuid := none
  leaseExpiresAt : Option Int := none
  createdAt : Int
  updatedAt : Int
  availableAt : Int
  retryDelaySecs : Nat := 0
  deliveredMessageId : Option Int := none
  deliveryStartedAt : Option Int := none
  progressPercent : Option Nat := none
  progressStage : Option ProgressStage := none
  plannedArtifactCount : Option Nat := none
  deliveredArtifactCount : Nat := 0
  cacheBypassed : Bool := false
  cacheKey : Option String := none
  contentFailure : Option ContentFailure := none
  failureCode : Option FailureCode := none
deriving DecidableEq

/-- `v1:` and a lowercase SHA-256. -/
def validCacheKey (key : String) : Bool :=
  let t := key.toList
  decide (t.length = 67) && "v1:".toList.isPrefixOf t &&
    (t.drop 3).all fun c => Text.isDigit c || (decide ('a' ≤ c) && decide (c ≤ 'f'))

namespace OperationRow

/-- A lease is present exactly while a worker holds the operation. -/
def leaseConsistent (o : OperationRow) : Bool :=
  if o.status.leased then
    o.workerId.isSome && o.leaseToken.isSome && o.leaseExpiresAt.isSome
  else o.workerId.isNone && o.leaseToken.isNone && o.leaseExpiresAt.isNone

/-- Only a success may name the delivered message. -/
def messageConsistent (o : OperationRow) : Bool :=
  if o.status = .succeeded then o.deliveredMessageId.all fun id => decide (0 < id)
  else o.deliveredMessageId.isNone

def check (o : OperationRow) : Bool :=
  decide (0 < o.actorId) &&
    DownloaderSettings.within 1 128 o.idempotencyKey.toList.length &&
    (match o.request with
      | .obj _ => true
      | _ => false) &&
    DownloaderSettings.within 1 101 o.maxAttempts && decide (o.retryDelaySecs ≤ 300) &&
    o.progressPercent.all (fun p => decide (p ≤ 100)) &&
    o.plannedArtifactCount.all (DownloaderSettings.within 1 100) &&
    decide (o.deliveredArtifactCount ≤ 100) && o.cacheKey.all validCacheKey &&
    o.leaseConsistent && o.messageConsistent

end OperationRow

def operationSchema : Schema OperationRow where
  check := OperationRow.check
  clash a b :=
    decide (a.id = b.id) ||
      (decide (a.actorId = b.actorId) && decide (a.idempotencyKey = b.idempotencyKey))

theorem operationSchema_id : Table.Keyed operationSchema OperationRow.id := by
  intro a b h
  simp [operationSchema, h]

theorem operationSchema_key : Table.Keyed operationSchema
    (fun o : OperationRow => (o.actorId, o.idempotencyKey)) := by
  intro a b h
  simp only [Prod.mk.injEq] at h
  simp [operationSchema, h.1, h.2]

/-! ## Delivery units -/

structure DeliveryUnitRow where
  operationId : Uuid
  attempt : Nat
  ordinal : Nat
  artifactCount : Nat
  status : UnitStatus
  messageIds : Option (List Int) := none
  createdAt : Int
  updatedAt : Int
deriving DecidableEq

namespace DeliveryUnitRow

def key (u : DeliveryUnitRow) : Uuid × Nat × Nat := (u.operationId, u.attempt, u.ordinal)

/-- A sent unit lists one message for each artifact; any other lists none. -/
def messagesConsistent (u : DeliveryUnitRow) : Bool :=
  if u.status = .sent then
    u.messageIds.any fun ids => decide (ids.length = u.artifactCount)
  else u.messageIds.isNone

def check (u : DeliveryUnitRow) : Bool :=
  decide (0 < u.attempt) && decide (u.ordinal ≤ 99) &&
    DownloaderSettings.within 1 10 u.artifactCount && u.messagesConsistent

end DeliveryUnitRow

def deliveryUnitSchema : Schema DeliveryUnitRow where
  check := DeliveryUnitRow.check
  clash a b := decide (a.key = b.key)

/-! ## Media cache -/

structure MediaCacheRow where
  actorId : Nat
  botId : Int
  cacheKey : String
  revision : Uuid
  media : Json
  expiresAt : Int
  createdAt : Int
deriving DecidableEq

def mediaCacheSchema [Platform] : Schema MediaCacheRow where
  check r :=
    decide (0 < r.actorId) && decide (0 < r.botId) && validCacheKey r.cacheKey &&
      (match r.media with
        | .arr items => DownloaderSettings.within 1 100 items.length
        | _ => false) &&
      decide ((Platform.jsonBytes r.media).length ≤ 512000)
  clash a b :=
    decide ((a.actorId, a.botId, a.cacheKey) = (b.actorId, b.botId, b.cacheKey))

/-! ## Admission state -/

/-- One rate counter of an actor; the window names the counter. -/
structure RateLimitRow where
  userId : Nat
  window : String
  count : Int
  resetAt : Int
deriving DecidableEq

def RateLimitRow.key (r : RateLimitRow) : Nat × String := (r.userId, r.window)

def rateLimitSchema : Schema RateLimitRow where
  check r :=
    decide (r.window.toList.length ≤ 16) && decide (-(i32Max : Int) - 1 ≤ r.count) &&
      decide (r.count ≤ i32Max)
  clash a b := decide (a.key = b.key)

/-- A mark forces the next admission of the actor to be classified. -/
structure NsfwMarkRow where
  actorId : Nat
deriving DecidableEq

def nsfwMarkSchema : Schema NsfwMarkRow where
  check r := decide (0 < r.actorId)
  clash a b := decide (a.actorId = b.actorId)

/-- The last private-chat message seen, with the mode it armed. -/
structure DeferredMediaRow where
  actorId : Nat
  botId : Int
  chatId : Int
  messageId : Int
  mode : Option MediaMode
deriving DecidableEq

def DeferredMediaRow.key (r : DeferredMediaRow) : Nat × Int × Int :=
  (r.actorId, r.botId, r.chatId)

def deferredMediaSchema : Schema DeferredMediaRow where
  check r :=
    decide (0 < r.botId) && decide (0 < r.chatId) && decide (r.chatId = r.actorId) &&
      decide (0 < r.messageId) &&
      r.mode.all fun m => m == .video || m == .audio || m == .image
  clash a b := decide (a.key = b.key)

/-- The Telegram message an operation was made from. -/
structure TelegramMediaIntentRow where
  operationId : Uuid
  intent : Json
deriving DecidableEq

def telegramMediaIntentSchema : Schema TelegramMediaIntentRow where
  check _ := true
  clash a b := decide (a.operationId = b.operationId)

structure ProgressNoticeRow where
  operationId : Uuid
  actorId : Nat
  botId : Int
  chatId : Int
  messageId : Int
  language : String
  lastText : Option String
deriving DecidableEq

def progressNoticeSchema : Schema ProgressNoticeRow where
  check r :=
    decide (0 < r.actorId) && decide (0 < r.botId) && decide (r.chatId ≠ 0) &&
      decide (1 ≤ r.messageId) && decide (r.messageId ≤ i32Max) &&
      (r.language == "en" || r.language == "ru") &&
      r.lastText.all fun t => decide (Text.byteLen t.toList ≤ 4096)
  clash a b := decide (a.operationId = b.operationId)

/-! ## Configuration -/

structure BotSettingRow where
  key : String
  value : Option String
deriving DecidableEq

def botSettingSchema : Schema BotSettingRow where
  check r := decide (r.key.toList.length ≤ 64)
  clash a b := decide (a.key = b.key)

inductive Role where
  | owner | admin | moderator | user | restricted | banned
deriving DecidableEq

structure UserRow where
  id : Nat
  role : Role
  banUntil : Option Int
deriving DecidableEq

def userSchema : Schema UserRow where
  check _ := true
  clash a b := decide (a.id = b.id)

/-! ## The database -/

structure Db [Platform] where
  operations : Table operationSchema
  deliveryUnits : Table deliveryUnitSchema
  mediaCache : Table mediaCacheSchema
  rateLimits : Table rateLimitSchema
  nsfwMarks : Table nsfwMarkSchema
  deferredMedia : Table deferredMediaSchema
  telegramMediaIntents : Table telegramMediaIntentSchema
  progressNotices : Table progressNoticeSchema
  botSettings : Table botSettingSchema
  users : Table userSchema

/-- A statement, or a sequence of them inside one transaction. -/
abbrev Stmt [Platform] := Tx Db StoreError

namespace Db

variable [Platform]

/-- The operation with an identifier. -/
def operation (db : Db) (id : Uuid) : Option OperationRow :=
  db.operations.find OperationRow.id id

/-- The delivery units of an operation, in the order they were begun. -/
def unitsOf (db : Db) (id : Uuid) : List DeliveryUnitRow :=
  db.deliveryUnits.rows.filter fun u => decide (u.operationId = id)

/-- The delivery units of one attempt. -/
def batch (db : Db) (id : Uuid) (attempt : Nat) : List DeliveryUnitRow :=
  db.deliveryUnits.rows.filter fun u =>
    decide (u.operationId = id) && decide (u.attempt = attempt)

theorem batch_eq (db : Db) (id : Uuid) (attempt : Nat) :
    db.batch id attempt =
      (db.unitsOf id).filter fun u => decide (u.attempt = attempt) := by
  rw [batch, unitsOf, List.filter_filter]
  exact List.filter_congr fun u _ => Bool.and_comm _ _

end Db

end YoinkCore.Storage
