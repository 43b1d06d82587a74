import YoinkCore.Storage.CacheKey
import YoinkCore.Storage.Intent
import YoinkCore.Storage.Sql

/-!
# Admission

`admitInner` is one transaction: it replays an existing key, checks the Telegram
context, reads the settings, counts the pending work, charges the quotas, takes
the mark of the actor, and inserts the operation with its side rows. Whatever
fails on the way, nothing of it is kept.
-/

namespace YoinkCore.Storage

open Lib Lib.Json Domain

variable [Platform]

/-- The configuration of a store view. -/
structure StoreConfig where
  quotaLimits : QuotaLimits := {}
  quotaOwnerId : Option Nat := none
deriving DecidableEq

def liftExcept {α : Type} (x : Except StoreError α) : Stmt α :=
  match x with
  | .ok a => pure a
  | .error e => throw e

/-! ## Settings -/

omit [Platform] in
/-- `key LIKE 'dl.%'`. -/
def isDownloaderKey (key : String) : Bool :=
  (key.toList.take 3).map Text.toLower == "dl.".toList

/-- downloader_settings.sql; a `NULL` value cannot be read. -/
def downloaderSettingValues (db : Db) : Except StoreError SettingValues :=
  (db.botSettings.rows.filter fun r => isDownloaderKey r.key).mapM fun r =>
    match r.value with
    | some v => .ok (r.key, v)
    | none => .error .database

omit [Platform] in
/-- Settings that make an operation keep a snapshot of its own. -/
def snapshotKeys : List String :=
  ["dl.download_timeout", "dl.max_file_size_mb", "dl.max_file_size_gb",
    "dl.max_playlist_count"]

omit [Platform] in
def snapshotActive (values : SettingValues) : Bool :=
  snapshotKeys.any fun key => (values.lookup key).isSome

def admissionSettings (db : Db) (request : DownloadRequest) (policy : AdmissionPolicy)
    (quotas : QuotaLimits) :
    Except StoreError (DownloadRequest × AdmissionPolicy × QuotaLimits) := do
  let values ← downloaderSettingValues db
  let settings ← mapError .invalidStoredData (DownloaderSettings.fromSettings values)
  let stored (key : String) := (values.lookup key).isSome
  let policy :=
    if stored "dl.download_retries" then
      { policy with maxAttempts := settings.downloadRetries }
    else policy
  let quotas : QuotaLimits := {
    minute :=
      if stored "dl.rate_limit_per_minute" then settings.rateLimitPerMinute
      else quotas.minute
    hour :=
      if stored "dl.rate_limit_per_hour" then settings.rateLimitPerHour else quotas.hour
    day :=
      if stored "dl.rate_limit_per_day" then settings.rateLimitPerDay else quotas.day }
  let active := snapshotActive values
  let request ← mapError .invalidStoredData
    (request.withDownloaderSettings (if active then some settings else none))
  if active && request.params.playlist.any
      (fun r => decide (settings.maxPlaylistCount < r.entryCount)) then
    .error .invalidInput
  else .ok (request, policy, quotas)

/-! ## Quotas -/

/-- Name, length in seconds and limit of the three windows. -/
def quotaWindows (limits : QuotaLimits) : List (String × Nat × Nat) :=
  [("minute", 60, limits.minute), ("hour", 3600, limits.hour), ("day", 86400, limits.day)]

/-- A counter in use: its window, count and reset. -/
structure Counter where
  window : String
  count : Int
  resetAt : Int
deriving DecidableEq

/-- quota_get.sql -/
def quotaGet (db : Db) (actor : Nat) (window : String) : Option RateLimitRow :=
  db.rateLimits.find RateLimitRow.key (actor, window)

/-- The counter a window charges: the stored one while it runs, else a new one. -/
def currentCounter (db : Db) (actor : Nat) (now : Int) (window : String) (secs : Nat) :
    Except StoreError Counter :=
  let renewed : Except StoreError Counter :=
    if now + micros secs ≤ i64Max then .ok ⟨window, 0, now + micros secs⟩
    else .error .invalidInput
  match quotaGet db actor window with
  | none => renewed
  | some row =>
      if row.count < 0 then .error .invalidStoredData
      else if now < row.resetAt then .ok ⟨window, row.count, row.resetAt⟩
      else renewed

/-- Seconds to wait for a full window, rounded up. -/
def waitSecs (now : Int) (limit : Nat) (c : Counter) : Except StoreError Nat :=
  if (limit : Int) ≤ c.count then
    if c.resetAt - now ≤ i64Max then
      .ok (((c.resetAt - now).toNat + 999999) / 1000000)
    else .error .invalidStoredData
  else .ok 0

/-- The counters of all windows, with the longest wait. -/
def readCounters (db : Db) (actor : Nat) (now : Int) :
    List (String × Nat × Nat) → Except StoreError (List Counter × Nat)
  | [] => .ok ([], 0)
  | (window, secs, limit) :: rest => do
      let c ← currentCounter db actor now window secs
      let wait ← waitSecs now limit c
      let (cs, longest) ← readCounters db actor now rest
      return (c :: cs, max wait longest)

/-- quota_put.sql -/
def quotaPut (actor : Nat) (window : String) (count resetAt : Int) : Stmt Unit := do
  let db ← get
  write (db.rateLimits.upsert RateLimitRow.key ⟨actor, window, count, resetAt⟩
      fun r => { r with count, resetAt })
    fun rateLimits => { db with rateLimits }

def chargeAll (actor : Nat) : List Counter → Stmt Unit
  | [] => pure ()
  | c :: cs => do
      quotaPut actor c.window (c.count + 1) c.resetAt
      chargeAll actor cs

/-- Charge one admission to the three windows of an actor, unless one is full. -/
def charge (actor : Nat) (limits : QuotaLimits) (owner : Option Nat) (now : Int) :
    Stmt Unit := do
  liftExcept limits.validate
  if owner = some actor then return ()
  let db ← get
  let (counters, retryAfterSecs) ←
    liftExcept (readCounters db actor now (quotaWindows limits))
  if retryAfterSecs ≠ 0 then throw (.quotaExceeded retryAfterSecs)
  chargeAll actor counters

/-! ## Telegram context -/

structure DeferredMediaState where
  messageId : Int
  mode : Option MediaMode
deriving DecidableEq

/-- Trusted Telegram admission context. -/
structure TelegramMediaAdmission where
  original : DownloadRequest
  messageId : Int
  expected : Option DeferredMediaState

/-- deferred_media_read.sql -/
def readState (db : Db) (actor : Nat) (target : DeliveryTarget) :
    Option DeferredMediaState :=
  (db.deferredMedia.find DeferredMediaRow.key
    (actor, target.botId.toInt, target.chatId.toInt)).map fun r => ⟨r.messageId, r.mode⟩

/-- deferred_media_authorize.sql -/
def deferredMediaAuthorize (db : Db) (actor : Nat) (now : Int) (owner : Bool) : Bool :=
  db.users.rows.any fun u =>
    decide (u.id = actor) &&
      (u.role == .user || u.role == .moderator || u.role == .admin || u.role == .owner ||
        (owner && u.role == .restricted)) &&
      u.banUntil.all fun t => decide (t ≤ now)

/-- deferred_media_consume.sql -/
def deferredMediaConsume (actor : Nat) (target : DeliveryTarget) (messageId : Int) :
    Stmt Unit := do
  let db ← get
  write (db.deferredMedia.upsert DeferredMediaRow.key
      ⟨actor, target.botId.toInt, target.chatId.toInt, messageId, none⟩
      fun r => if r.messageId < messageId then { r with messageId, mode := none } else r)
    fun deferredMedia => { db with deferredMedia }

/-- telegram_media_intent_read.sql -/
def telegramMediaIntentRead (db : Db) (actor : Nat) (key : String) : Option Json :=
  db.telegramMediaIntents.rows.findSome? fun i =>
    if (db.operation i.operationId).any fun o =>
        decide (o.actorId = actor) && decide (o.idempotencyKey = key) then
      some i.intent
    else none

/-- telegram_media_intent_insert.sql -/
def telegramMediaIntentInsert (id : Uuid) (intent : Json) : Stmt Unit := do
  let db ← get
  write (db.telegramMediaIntents.insert ⟨id, intent⟩)
    fun telegramMediaIntents => { db with telegramMediaIntents }

/-- The checks on a new Telegram admission. -/
def checkTelegram (config : StoreConfig) (request : DownloadRequest)
    (context : TelegramMediaAdmission) (db : Db) (now : Int) : Except StoreError Unit :=
  match request.target with
  | none => .error .invalidInput
  | some target =>
      if target.chatId.toInt ≠ request.actorId.toNat ∨ target.threadId.isSome then
        .error .invalidInput
      else if context.original.actorId ≠ request.actorId ∨
          context.original.target ≠ request.target ∨ context.messageId ≤ 0 then
        .error .invalidInput
      else if readState db request.actorId.toNat target ≠ context.expected then
        .error .conflict
      else if deferredMediaAuthorize db request.actorId.toNat now
          (decide (config.quotaOwnerId = some request.actorId.toNat)) then
        .ok ()
      else .error .unauthorized

/-! ## Writing the operation -/

/-- admit_existing.sql -/
def admitExisting (db : Db) (actor : Nat) (key : String) : Option OperationRow :=
  db.operations.find (fun o => (o.actorId, o.idempotencyKey)) (actor, key)

/-- admit_counts.sql, over all actors -/
def pendingGlobal (db : Db) : Nat := db.operations.rows.countP fun o => o.status.pending

/-- admit_counts.sql, for one actor -/
def pendingActor (db : Db) (actor : Nat) : Nat :=
  db.operations.rows.countP fun o => decide (o.actorId = actor) && o.status.pending

/-- nsfw_mark_consume.sql; tells whether a mark was there. -/
def nsfwMarkConsume (actor : Nat) : Stmt Bool := do
  let db ← get
  let (nsfwMarks, n) := db.nsfwMarks.delete fun r => decide (r.actorId = actor)
  set { db with nsfwMarks }
  return n ≠ 0

/-- The row admit_insert.sql inserts. -/
def admittedRow (id : Uuid) (actor : Nat) (key : String) (request : Json)
    (policy : AdmissionPolicy) (cacheKey : Option String) (now : Int) : OperationRow where
  id := id
  actorId := actor
  idempotencyKey := key
  request := request
  maxAttempts := policy.maxAttempts
  createdAt := now
  updatedAt := now
  availableAt := now
  retryDelaySecs := policy.retryDelay.asSecs
  cacheKey := cacheKey

/-- admit_insert.sql; a conflict on the key returns no row. -/
def admitInsert (row : OperationRow) : Stmt Unit := do
  let db ← get
  write (db.operations.insert row) fun operations => { db with operations }

def inputOnlyNotice : String := "[pending-input-cleanup]"

/-- The notice register_input_cleanup.sql selects from an operation. -/
def inputCleanup (o : OperationRow) : Option ProgressNoticeRow :=
  let target (key : String) := jsonExtract o.request ["target", key]
  match target "bot_id", target "chat_id", target "reply_to_message_id" with
  | some (.int botId), some (.int chatId), some (.int messageId) =>
      if chatId = o.actorId ∧ (target "thread_id").all (fun v => decide (v = .null)) ∧
          0 < messageId then
        some ⟨o.id, o.actorId, botId, chatId, messageId, "en", some inputOnlyNotice⟩
      else none
  | _, _, _ => none

/-- register_input_cleanup.sql -/
def registerInputCleanup (id : Uuid) : Stmt Unit := do
  let db ← get
  match (db.operation id).bind inputCleanup with
  | none => return ()
  | some notice =>
      if db.progressNotices.rows.any fun n => decide (n.operationId = id) then return ()
      else
        write (db.progressNotices.insert notice)
          fun progressNotices => { db with progressNotices }

/-! ## The transaction -/

/-- Whether a repeated key asks for what was admitted under it. -/
def sameIntent (db : Db) (request current : DownloadRequest) (key : String)
    (preserveFirstNetwork : Bool) (telegram : Option TelegramMediaAdmission) :
    Except StoreError Bool :=
  match telegram with
  | some context =>
      match telegramMediaIntentRead db request.actorId.toNat key with
      | none => .error .conflict
      | some intent => (Codec.decode intent).map fun original => original == context.original
  | none =>
      if preserveFirstNetwork then sameRequestIntent current request
      else do
        let current ← mapError .invalidStoredData
          ((current.withForceNsfw false).withDownloaderSettings none)
        return current == request

/-- The checks a Telegram admission adds for a new key. -/
def checkContext (config : StoreConfig) (request : DownloadRequest) (db : Db) (now : Int) :
    Option TelegramMediaAdmission → Except StoreError Unit
  | none => .ok ()
  | some context => checkTelegram config request context db now

def checkCapacity (db : Db) (actor : Nat) (policy : AdmissionPolicy) :
    Except StoreError Unit :=
  if policy.maxPendingGlobal ≤ pendingGlobal db ∨
      policy.maxPendingActor ≤ pendingActor db actor then .error .capacity
  else .ok ()

/-- The writes a Telegram admission adds for a new operation. -/
def recordContext (request : DownloadRequest) (id : Uuid) :
    Option TelegramMediaAdmission → Stmt Unit
  | none => pure ()
  | some context =>
      match request.target with
      | none => throw .invalidInput
      | some target => do
          deferredMediaConsume request.actorId.toNat target context.messageId
          telegramMediaIntentInsert id (Codec.encode context.original)

/-- The part of the transaction for a key that is not there yet. -/
def admitNew (config : StoreConfig) (request : DownloadRequest) (key : String)
    (policy : AdmissionPolicy) (cacheKey : Option String) (nowOverride : Option Int)
    (telegram : Option TelegramMediaAdmission) (clock : Clock) (id : Uuid) :
    Stmt Admission := do
  let actor := request.actorId.toNat
  let db ← get
  liftExcept (checkContext config request db (clock.tick 0) telegram)
  let (prepared, policy, quotaLimits) ←
    liftExcept (admissionSettings db request policy config.quotaLimits)
  liftExcept (checkCapacity db actor policy)
  charge actor quotaLimits config.quotaOwnerId (nowOverride.getD (clock.tick 1))
  let forced ← nsfwMarkConsume actor
  let document := Codec.encode (prepared.withForceNsfw forced)
  admitInsert (admittedRow id actor key document policy cacheKey (clock.tick 2))
  registerInputCleanup id
  recordContext request id telegram
  return ⟨id, true⟩

/-- The cache key is computed on the request as the caller gave it. -/
def admissionCacheKey (request : DownloadRequest) : Except StoreError (Option String) :=
  match request.target with
  | none => .ok none
  | some _ => (mediaCacheKey request).map some

/-- The checks before the transaction, and the cache key of the request. -/
def checkAdmission (request : DownloadRequest) (key : String) (policy : AdmissionPolicy) :
    Except StoreError (Option String) := do
  validateKey key
  validatePolicy policy
  if request.downloaderSettings.isSome then .error .invalidInput
  else admissionCacheKey (request.withForceNsfw false)

/-- The transaction of an admission. -/
def admitBody (config : StoreConfig) (request : DownloadRequest) (key : String)
    (policy : AdmissionPolicy) (cacheKey : Option String) (preserveFirstNetwork : Bool)
    (nowOverride : Option Int) (telegram : Option TelegramMediaAdmission) (clock : Clock)
    (id : Uuid) : Stmt Admission := do
  let db ← get
  match admitExisting db request.actorId.toNat key with
  | some row => do
      let current ← liftExcept (Codec.decode row.request)
      let same ← liftExcept
        (sameIntent db request current key preserveFirstNetwork telegram)
      if same then return ⟨row.id, false⟩ else throw .conflict
  | none =>
      admitNew config request key policy cacheKey nowOverride telegram clock id

def admitInner (config : StoreConfig) (request : DownloadRequest) (key : String)
    (policy : AdmissionPolicy) (preserveFirstNetwork : Bool) (nowOverride : Option Int)
    (telegram : Option TelegramMediaAdmission) (clock : Clock) (id : Uuid) (db : Db) :
    Except StoreError Admission × Db :=
  match checkAdmission request key policy with
  | .error e => (.error e, db)
  | .ok cacheKey =>
      -- The caller cannot supply a forced classification.
      Tx.auto (admitBody config (request.withForceNsfw false) key policy cacheKey
        preserveFirstNetwork nowOverride telegram clock id) db

def admitNetworkSnapshot (config : StoreConfig) (request : DownloadRequest) (key : String)
    (policy : AdmissionPolicy) :=
  admitInner config request key policy true none none

def admitTelegramMediaSnapshot (config : StoreConfig) (request : DownloadRequest)
    (key : String) (policy : AdmissionPolicy) (context : TelegramMediaAdmission) :=
  admitInner config request key policy true none (some context)

/-- Replay the caller's unchanged request without resolving current credentials. -/
def replayNetworkAdmission (request : DownloadRequest) (key : String) (db : Db) :
    Except StoreError (Option Admission) := do
  validateKey key
  ensure (decide (request.network = .none))
  match admitExisting db request.actorId.toNat key with
  | none => return none
  | some row => do
      let current ← Codec.decode row.request
      if ← sameRequestIntent current request then return some ⟨row.id, false⟩
      else .error .conflict

end YoinkCore.Storage
