import YoinkCore.Storage.Admission

/-!
# The operation store

The methods of `Store` on claims and delivery. A method checks its arguments,
then runs its statements: one by itself, or several inside one transaction that
is dropped when a statement misses its row.
-/

namespace YoinkCore.Storage

open Lib Domain

variable [Platform]

/-- A call on the database: its result, and the database afterwards. -/
abbrev Method (α : Type) := Db → Except StoreError α × Db

/-- Check the arguments before touching the database. -/
def guarded {α : Type} (check : Except StoreError Unit) (m : Method α) : Method α :=
  fun db =>
    match check with
    | .ok _ => m db
    | .error e => (.error e, db)

/-- A fenced statement by itself; no row means the lease is gone. -/
def fencedStatement (u : OperationUpdate) : Method Unit :=
  Tx.auto do
    let n ← updateOperations u
    if n = 0 then throw .notFoundOrStale

/-! ## Claims -/

/-- Expire the selected leases, units first. A row uses two instants. -/
def expireEach (clock : Clock) : List (Uuid × Nat) → Nat → Stmt Unit
  | [], _ => pure ()
  | (id, attempt) :: rest, k => do
      let _ ← updateUnits (Sql.expireLeaseUnits id attempt (clock.tick k))
      let db ← get
      let n ← updateOperations
        (Sql.expireLeaseOperation id attempt (db.batch id attempt) (clock.tick (k + 1)))
      if n ≠ 1 then throw .notFoundOrStale
      expireEach clock rest (k + 2)

def expireLeases (clock : Clock) : Stmt Unit := do
  let db ← get
  expireEach clock (Sql.expireLeasesSelect db.operations.rows (clock.tick 0)) 1

/-- At most 100 leases expire in one call, so these instants come after them. -/
def selectTick : Nat := 201
def updateTick : Nat := 202

/-- The operation a claim takes, once the leases are expired. -/
def claimSelected (botId : Option Int) (policy : ClaimPolicy) (clock : Clock) (db : Db) :
    Option Uuid :=
  match botId with
  | some botId =>
      Sql.claimForBotSelect db.operations.rows botId policy.maxActiveActor
        (clock.tick selectTick)
  | none =>
      Sql.claimSelect db.operations.rows policy.maxActiveActor (clock.tick selectTick)

def claimStatement (workerId : String) (lease : Duration) (botId : Option Int)
    (clock : Clock) (token id : Uuid) : OperationUpdate :=
  match botId with
  | some botId =>
      Sql.claimForBotUpdate workerId lease.asSecs botId token id (clock.tick updateTick)
  | none => Sql.claimUpdate workerId lease.asSecs token id (clock.tick updateTick)

/-- The claim on a row that was just leased. -/
def claimOf (row : OperationRow) : Except StoreError Claim :=
  match row.leaseToken, row.workerId, row.leaseExpiresAt with
  | some leaseToken, some workerId, some leaseExpiresAt => do
      let request ← Codec.decode row.request
      return {
        operationId := row.id, attempt := row.attempt, leaseToken, workerId, request
        cancelRequested := row.cancelRequested, cacheBypassed := row.cacheBypassed
        leaseExpiresAt }
  | _, _, _ => .error .database

/-- Expire leases, then lease the operation selected. -/
def claimBody (workerId : String) (lease : Duration) (botId : Option Int)
    (policy : ClaimPolicy) (clock : Clock) (token : Uuid) : Stmt (Option Claim) := do
  expireLeases clock
  let db ← get
  match claimSelected botId policy clock db with
  | none => return none
  | some id =>
      match ← updateReturning (claimStatement workerId lease botId clock token id) id with
      | none => throw .database
      | some row => do
          let claim ← liftExcept (claimOf row)
          return some claim

def checkClaim (workerId : String) (lease : Duration) (policy : ClaimPolicy) :
    Except StoreError Unit := do
  policy.validate
  validateWorker workerId
  validateLease lease

def claimFiltered (workerId : String) (lease : Duration) (botId : Option Int)
    (policy : ClaimPolicy) (clock : Clock) (token : Uuid) : Method (Option Claim) :=
  guarded (checkClaim workerId lease policy) <|
    Tx.auto (claimBody workerId lease botId policy clock token)

def claim (workerId : String) (lease : Duration) (clock : Clock) (token : Uuid) :
    Method (Option Claim) :=
  claimFiltered workerId lease none {} clock token

def claimForBotBounded (workerId : String) (lease : Duration) (botId : Int)
    (policy : ClaimPolicy) (clock : Clock) (token : Uuid) : Method (Option Claim) :=
  guarded (ensure (decide (0 < botId))) <|
    claimFiltered workerId lease (some botId) policy clock token

/-! ## A running attempt -/

def updateProgress (c : Claim) (percent : Nat) (stage : ProgressStage) (clock : Clock) :
    Method Unit :=
  guarded (do
    validateClaim c
    ensure (decide (percent ≤ 100))) <|
    fencedStatement (Sql.updateProgress c.fence percent stage (clock.tick 0))

def heartbeatState (c : Claim) (lease : Duration) (clock : Clock) :
    Method LeaseHeartbeat :=
  guarded (do validateClaim c; validateLease lease) <|
    Tx.auto do
      let row ← updateReturning (Sql.heartbeat c.fence lease.asSecs (clock.tick 0))
        c.operationId
      match row with
      | none => throw .notFoundOrStale
      | some row =>
          match row.leaseExpiresAt with
          | some leaseExpiresAt => return ⟨leaseExpiresAt, row.cancelRequested⟩
          | none => throw .database

def complete (c : Claim) (clock : Clock) : Method Unit :=
  guarded (validateClaim c) <| fencedStatement (Sql.complete c.fence (clock.tick 0))

/-- A code outside the public list is refused. -/
def publicCode (code : Option String) : Except StoreError (Option FailureCode) :=
  match code with
  | none => .ok none
  | some text =>
      match FailureCode.parse text with
      | some code => .ok (some code)
      | none => .error .invalidInput

def checkFailure (c : Claim) (code : Option String) :
    Except StoreError (Option FailureCode) := do
  validateClaim c
  publicCode code

def failWithCode (c : Claim) (retryable : Bool) (code : Option String) (clock : Clock) :
    Method Unit := fun db =>
  match checkFailure c code with
  | .error e => (.error e, db)
  | .ok code => fencedStatement (Sql.fail c.fence retryable code (clock.tick 0)) db

def validActor (actorId : Nat) : Except StoreError Unit :=
  ensure (DownloaderSettings.within 1 i64Max actorId)

def requestCancel (actorId : Nat) (id : Uuid) (clock : Clock) : Method Bool :=
  guarded (validActor actorId) <|
    Tx.auto do
      let n ← updateOperations (Sql.cancel actorId id (clock.tick 0))
      return decide (0 < n)

def acknowledgeCancel (c : Claim) (clock : Clock) : Method Unit :=
  guarded (validateClaim c) <| fencedStatement (Sql.ackCancel c.fence (clock.tick 0))

/-! ## Reading an operation -/

/-- What the program shows of an operation. -/
structure OperationRecord where
  contentFailure : Option ContentFailure
  failureCode : Option FailureCode
  operationId : Uuid
  actorId : Nat
  target : Option DeliveryTarget
  status : OperationStatus
  attempt : Nat
  maxAttempts : Nat
  cancelRequested : Bool
  cacheBypassed : Bool
  availableAt : Int
  deliveredMessageId : Option Int
  plannedArtifactCount : Option Nat
  deliveredArtifactCount : Nat
  deliveryStartedAt : Option Int
  progressPercent : Option Nat
  progressStage : Option ProgressStage
  createdAt : Int
  updatedAt : Int

/-- The record of a row whose request can be read. -/
def recordOf (o : OperationRow) : Except StoreError OperationRecord := do
  let request ← Codec.decode o.request
  return {
    contentFailure := o.contentFailure, failureCode := o.failureCode
    operationId := o.id, actorId := o.actorId, target := request.target
    status := o.status, attempt := o.attempt, maxAttempts := o.maxAttempts
    cancelRequested := o.cancelRequested, cacheBypassed := o.cacheBypassed
    availableAt := o.availableAt, deliveredMessageId := o.deliveredMessageId
    plannedArtifactCount := o.plannedArtifactCount
    deliveredArtifactCount := o.deliveredArtifactCount
    deliveryStartedAt := o.deliveryStartedAt, progressPercent := o.progressPercent
    progressStage := o.progressStage, createdAt := o.createdAt, updatedAt := o.updatedAt }

/-- `get`: the row of get_operation.sql, as a record. -/
def getOperation (actorId : Nat) (id : Uuid) (db : Db) :
    Except StoreError (Option OperationRecord) := do
  validActor actorId
  match db.operation id with
  | none => return none
  | some o => if o.actorId = actorId then (recordOf o).map some else return none

/-! ## Single-message delivery -/

def beginDelivery (c : Claim) (clock : Clock) : Method Unit :=
  guarded (validateClaim c) <| fencedStatement (Sql.beginDelivery c.fence (clock.tick 0))

def completeDelivery (c : Claim) (messageId : Int) (clock : Clock) : Method Unit :=
  guarded (do
    validateClaim c
    ensure (decide (0 < messageId))) <|
    fencedStatement (Sql.completeDelivery c.fence messageId (clock.tick 0))

def deliveryUnknown (c : Claim) (clock : Clock) : Method Unit :=
  guarded (validateClaim c) <| fencedStatement (Sql.deliveryUnknown c.fence (clock.tick 0))

def rejectDelivery (c : Claim) (clock : Clock) : Method Unit :=
  guarded (validateClaim c) <| fencedStatement (Sql.rejectDelivery c.fence (clock.tick 0))

/-! ## Batch delivery -/

def beginDeliveryBatch (c : Claim) (total : Nat) (clock : Clock) : Method Bool :=
  guarded (do
    validateClaim c
    ensure (DownloaderSettings.within 1 100 total)) <|
    Tx.auto do
      let n ← updateOperations (Sql.beginDeliveryBatch c.fence total (clock.tick 0))
      return n == 1

def beginDeliveryUnit (c : Claim) (ordinal count : Nat) (clock : Clock) : Method Bool :=
  guarded (do
    validateClaim c
    ensure (decide (ordinal ≤ 99) && DownloaderSettings.within 1 10 count)) <|
    Tx.auto do
      let n ← Sql.beginDeliveryUnit c.fence ordinal count (clock.tick 0)
      return n == 1

/-- The unit statement and the operation statement of one outcome, together. -/
def updateDeliveryUnit (f : Fence) (unit : Bool → UnitUpdate)
    (operation : List DeliveryUnitRow → OperationUpdate) (clock : Clock) : Method Bool :=
  Tx.run do
    let db ← get
    let live := (db.operation f.operationId).any (Sql.delivering f (clock.tick 0))
    let n ← updateUnits (unit live)
    if n ≠ 1 then return .rollback false
    let db ← get
    let m ← updateOperations (operation (db.batch f.operationId f.attempt))
    if m ≠ 1 then return .rollback false
    return .commit true

/-- One to ten distinct positive message identifiers. -/
def validMessageIds (ids : List Int) : Bool :=
  !ids.isEmpty && decide (ids.length ≤ 10) &&
    ids.all (fun id => decide (0 < id) && decide (id ≤ i32Max)) && decide ids.Nodup

def completeDeliveryUnit (c : Claim) (ordinal : Nat) (ids : List Int) (clock : Clock) :
    Method Bool :=
  guarded (do
    validateClaim c
    ensure (decide (ordinal ≤ 99) && validMessageIds ids)) <|
    updateDeliveryUnit c.fence
      (fun live => Sql.completeDeliveryUnit c.fence ordinal ids live (clock.tick 0))
      (fun batch => Sql.completeDeliveryUnitOperation c.fence batch ordinal
        (ids.getLast?.getD 0) (clock.tick 1))
      clock

/-- The checks of a rejection, and its delay in seconds. -/
def checkRejection (c : Claim) (ordinal : Nat) (retryAfter : Option Duration) :
    Except StoreError (Option Nat) := do
  validateClaim c
  ensure (decide (ordinal ≤ 99))
  match retryAfter with
  | none => .ok none
  | some delay => (retryAfterSeconds delay).map some

def rejectDeliveryUnit (c : Claim) (ordinal : Nat) (retryAfter : Option Duration)
    (clock : Clock) : Method Bool := fun db =>
  match checkRejection c ordinal retryAfter with
  | .error e => (.error e, db)
  | .ok retryAfterSecs =>
      updateDeliveryUnit c.fence
        (fun live => Sql.rejectDeliveryUnit c.fence ordinal live (clock.tick 0))
        (fun batch => Sql.rejectDeliveryUnitOperation c.fence batch ordinal
          retryAfterSecs (clock.tick 1))
        clock db

def unknownDeliveryUnit (c : Claim) (ordinal : Nat) (clock : Clock) : Method Bool :=
  guarded (do
    validateClaim c
    ensure (decide (ordinal ≤ 99))) <|
    updateDeliveryUnit c.fence
      (fun live => Sql.unknownDeliveryUnit c.fence ordinal live (clock.tick 0))
      (fun batch =>
        Sql.unknownDeliveryUnitOperation c.fence batch ordinal (clock.tick 1))
      clock

/-- Classify the unit in flight, then end the batch. -/
def stopTransaction (f : Fence) (reason : StopDeliveryReason) (clock : Clock) :
    Method Bool :=
  Tx.run do
    let db ← get
    let live := (db.operation f.operationId).any (Sql.stopMarks f reason (clock.tick 0))
    let _ ← updateUnits (Sql.stopDeliveryBatchMark f live (clock.tick 0))
    let db ← get
    let n ← updateOperations
      (Sql.stopDeliveryBatch f (db.batch f.operationId f.attempt) reason (clock.tick 1))
    if n ≠ 1 then return .rollback false
    return .commit true

def stopDeliveryBatch (c : Claim) (reason : StopDeliveryReason) (clock : Clock) :
    Method Bool :=
  guarded (validateClaim c) <| stopTransaction c.fence reason clock

/-! ## Invalid cache -/

/-- As `validateClaim`, for a claim that has somewhere to deliver to. -/
def validateClaimCache (c : Claim) : Except StoreError Unit := do
  validateClaim c
  ensure c.request.target.isSome

/-- Reject the first unit, requeue the operation and evict the revision. -/
def requeueTransaction (f : Fence) (key : String) (botId : Int) (revision : Uuid)
    (clock : Clock) : Method Bool :=
  Tx.run do
    let db ← get
    let batch := db.batch f.operationId f.attempt
    let live := (db.operation f.operationId).any
      (Sql.requeueEligible f batch key botId (clock.tick 0))
    let marked ← updateUnits (Sql.requeueInvalidCacheMark f batch live (clock.tick 0))
    if marked ≠ 1 then return .rollback false
    let db ← get
    let updated ← updateOperations (Sql.requeueInvalidCacheOperation f
      (db.batch f.operationId f.attempt) (clock.tick 1))
    if updated ≠ 1 then return .rollback false
    let _ ← Sql.requeueInvalidCacheEvict f key revision
    return .commit true

def requeueInvalidCache (c : Claim) (ordinal : Nat) (revision : Uuid) (clock : Clock) :
    Method Bool :=
  guarded (validateClaimCache c) fun db =>
    if ordinal ≠ 0 then (.ok false, db)
    else
      match c.request.target, mediaCacheKey c.request with
      | some target, .ok key =>
          requeueTransaction c.fence key target.botId.toInt revision clock db
      | none, _ => (.error .invalidInput, db)
      | some _, .error e => (.error e, db)

end YoinkCore.Storage
