import YoinkCore.Storage.Schema

/-!
# Queue statements

The SQL of the execution queue and of batch delivery, one definition for each
file under `sql/`. An `UPDATE` is its `WHERE` clause and its `SET` list as
functions of the row; a subquery whose parameters are bound is evaluated first
and passed in.
-/

namespace YoinkCore.Storage

open Lib Domain

/-! ## Running statements -/

structure OperationUpdate where
  cond : OperationRow → Bool
  set : OperationRow → OperationRow

structure UnitUpdate where
  cond : DeliveryUnitRow → Bool
  set : DeliveryUnitRow → DeliveryUnitRow

section

variable [Platform]

/-- Update operations; the result is the number of rows affected. -/
def updateOperations (u : OperationUpdate) : Stmt Nat := do
  let db ← get
  match db.operations.update u.cond u.set with
  | none => throw .database
  | some (operations, n) =>
      set { db with operations }
      return n

/-- Update delivery units; the result is the number of rows affected. -/
def updateUnits (u : UnitUpdate) : Stmt Nat := do
  let db ← get
  match db.deliveryUnits.update u.cond u.set with
  | none => throw .database
  | some (deliveryUnits, n) =>
      set { db with deliveryUnits }
      return n

/-- Write a table back, unless its constraints refused the statement. -/
def write {τ : Type} (table : Option τ) (put : τ → Db) : Stmt Unit :=
  match table with
  | none => throw .database
  | some t => set (put t)

theorem write_eq_ok {τ : Type} {table : Option τ} {put : τ → Db} {db db' : Db}
    {u : Unit} : write table put db = .ok (u, db') ↔ ∃ t, table = some t ∧ db' = put t := by
  cases table with
  | none => simp [write]
  | some t => simp [write, eq_comm]

/-- Read the row an `UPDATE … RETURNING` by identifier affected. -/
def updateReturning (u : OperationUpdate) (id : Uuid) : Stmt (Option OperationRow) := do
  let n ← updateOperations u
  let db ← get
  return if n = 0 then none else db.operation id

end

/-! ## Fences -/

/-- What a worker has to present: its operation, attempt, token and name. -/
structure Fence where
  operationId : Uuid
  attempt : Nat
  leaseToken : Uuid
  workerId : String
deriving DecidableEq

def Claim.fence [Platform] (c : Claim) : Fence :=
  ⟨c.operationId, c.attempt, c.leaseToken, c.workerId⟩

/-- The lease of a row has not run out. -/
@[grind =] def OperationRow.alive (o : OperationRow) (now : Int) : Bool :=
  o.leaseExpiresAt.any fun t => decide (now < t)

/-- The four-part fence together with the expiry test. -/
@[grind =] def Fence.holds (f : Fence) (now : Int) (o : OperationRow) : Bool :=
  decide (o.id = f.operationId) && decide (o.attempt = f.attempt) &&
    decide (o.leaseToken = some f.leaseToken) &&
    decide (o.workerId = some f.workerId) && o.alive now

/-- `worker_id=NULL,lease_token=NULL,lease_expires_at=NULL`. -/
@[grind =] def OperationRow.released (o : OperationRow) : OperationRow :=
  { o with workerId := none, leaseToken := none, leaseExpiresAt := none }

/-- `progress_percent=NULL,progress_stage=NULL`. -/
@[grind =] def OperationRow.withoutProgress (o : OperationRow) : OperationRow :=
  { o with progressPercent := none, progressStage := none }

/-- The instant after the retry delay of a row. -/
def OperationRow.retryAt (o : OperationRow) (now : Int) : Int :=
  now + micros o.retryDelaySecs

/-- `SUM(artifact_count)` over the sent units. -/
def sentSum (batch : List DeliveryUnitRow) : Nat :=
  ((batch.filter fun u => u.status == .sent).map DeliveryUnitRow.artifactCount).sum

/-- `json_extract(request,'$.a.b')`. -/
def jsonExtract (document : Json) : List String → Option Json
  | [] => some document
  | key :: path =>
      match document with
      | .obj fields => (Json.get? fields key).bind fun v => jsonExtract v path
      | _ => none

/-- The request goes out through a bot. -/
def OperationRow.forBot (o : OperationRow) (botId : Int) : Bool :=
  decide (jsonExtract o.request ["target", "bot_id"] = some (.int botId))

namespace Sql

/-! ## Claims and expiry -/

@[grind =] def claimable (now : Int) (o : OperationRow) : Bool :=
  o.status == .queued && decide (o.availableAt ≤ now) && !o.cancelRequested &&
    decide (o.attempt < o.maxAttempts)

/-- Leased operations of an actor. -/
def activeOf (rows : List OperationRow) (actorId : Nat) : Nat :=
  rows.countP fun o => decide (o.actorId = actorId) && o.status.leased

/-- `ORDER BY available_at, created_at, id`. -/
def claimOrder (a b : OperationRow) : Prop :=
  a.availableAt < b.availableAt ∨ a.availableAt = b.availableAt ∧
    (a.createdAt < b.createdAt ∨ a.createdAt = b.createdAt ∧
      a.id.bits.toNat ≤ b.id.bits.toNat)

instance : DecidableRel claimOrder := fun a b => by
  unfold claimOrder
  infer_instance

/-- claim_select.sql -/
def claimSelect (rows : List OperationRow) (maxActive : Nat) (now : Int) : Option Uuid :=
  let ready := rows.filter fun o =>
    claimable now o && decide (activeOf rows o.actorId < maxActive)
  (ready.insertionSort claimOrder).head?.map OperationRow.id

/-- claim_for_bot_select.sql -/
def claimForBotSelect (rows : List OperationRow) (botId : Int) (maxActive : Nat)
    (now : Int) : Option Uuid :=
  let ready := rows.filter fun o =>
    claimable now o && o.forBot botId && decide (activeOf rows o.actorId < maxActive)
  (ready.insertionSort claimOrder).head?.map OperationRow.id

/-- claim_update.sql -/
@[grind =] def claimUpdate (workerId : String) (leaseSecs : Nat) (token id : Uuid) (now : Int) :
    OperationUpdate where
  cond o := decide (o.id = id) && claimable now o
  set o := { o with
    status := .running, attempt := o.attempt + 1, workerId := some workerId
    leaseToken := some token, leaseExpiresAt := some (now + micros leaseSecs)
    updatedAt := now, failureCode := none, progressPercent := none
    progressStage := none, plannedArtifactCount := none, deliveredArtifactCount := 0 }

/-- claim_for_bot_update.sql -/
@[grind =] def claimForBotUpdate (workerId : String) (leaseSecs : Nat) (botId : Int)
    (token id : Uuid) (now : Int) : OperationUpdate where
  cond o := decide (o.id = id) && claimable now o && o.forBot botId
  set o := { o with
    status := .running, attempt := o.attempt + 1, workerId := some workerId
    leaseToken := some token, leaseExpiresAt := some (now + micros leaseSecs)
    updatedAt := now, progressPercent := none
    progressStage := none, plannedArtifactCount := none, deliveredArtifactCount := 0 }

/-- The lease of a row has run out. -/
@[grind =] def expired (now : Int) (o : OperationRow) : Bool :=
  o.status.leased && o.leaseExpiresAt.any fun t => decide (t ≤ now)

/-- `ORDER BY lease_expires_at, id`. -/
def expiryOrder (a b : OperationRow) : Prop :=
  a.leaseExpiresAt.getD 0 < b.leaseExpiresAt.getD 0 ∨
    a.leaseExpiresAt.getD 0 = b.leaseExpiresAt.getD 0 ∧
      a.id.bits.toNat ≤ b.id.bits.toNat

instance : DecidableRel expiryOrder := fun a b => by
  unfold expiryOrder
  infer_instance

/-- expire_leases_select.sql -/
def expireLeasesSelect (rows : List OperationRow) (now : Int) : List (Uuid × Nat) :=
  (((rows.filter (expired now)).insertionSort expiryOrder).take 100).map
    fun o => (o.id, o.attempt)

/-- expire_lease_units.sql -/
@[grind =] def expireLeaseUnits (id : Uuid) (attempt : Nat) (now : Int) : UnitUpdate where
  cond u := decide (u.operationId = id) && decide (u.attempt = attempt) &&
    u.status == .sending
  set u := { u with status := .unknown, updatedAt := now }

/-- expire_lease_operation.sql, with the units of the attempt. -/
@[grind =] def expireLeaseOperation (id : Uuid) (attempt : Nat) (batch : List DeliveryUnitRow)
    (now : Int) : OperationUpdate where
  cond o := decide (o.id = id) && decide (o.attempt = attempt) && expired now o
  set o :=
    let unknown := batch.any fun u => u.status == .unknown
    let retries := (o.status == .running ||
        (o.status == .delivering && o.deliveredArtifactCount == 0 &&
          o.plannedArtifactCount.isSome && !unknown)) &&
      !o.cancelRequested && decide (o.attempt < o.maxAttempts)
    { o.released.withoutProgress with
      status :=
        if o.status == .delivering && unknown then .deliveryUnknown
        else if o.status == .delivering && decide (0 < o.deliveredArtifactCount) then
          .deliveryPartial
        else if o.status == .delivering && o.plannedArtifactCount.isNone then
          .deliveryUnknown
        else if o.cancelRequested then .cancelled
        else if o.maxAttempts ≤ o.attempt then .failed
        else .queued
      availableAt := if retries then o.retryAt now else o.availableAt
      updatedAt := now }

/-! ## A running attempt -/

/-- heartbeat.sql -/
@[grind =] def heartbeat (f : Fence) (leaseSecs : Nat) (now : Int) : OperationUpdate where
  cond o := f.holds now o && o.status.leased
  set o := { o with leaseExpiresAt := some (now + micros leaseSecs), updatedAt := now }

/-- update_progress.sql -/
@[grind =] def updateProgress (f : Fence) (percent : Nat) (stage : ProgressStage) (now : Int) :
    OperationUpdate where
  cond o := f.holds now o && o.status == .running && !o.cancelRequested
  set o := { o with
    progressPercent := some percent, progressStage := some stage, updatedAt := now }

/-- complete.sql -/
@[grind =] def complete (f : Fence) (now : Int) : OperationUpdate where
  cond o := f.holds now o && o.status == .running
  set o := { o.released with status := .succeeded, updatedAt := now }

/-- fail.sql -/
@[grind =] def fail (f : Fence) (retryable : Bool) (code : Option FailureCode) (now : Int) :
    OperationUpdate where
  cond o := f.holds now o && o.status == .running
  set o :=
    let again := retryable && decide (o.attempt < o.maxAttempts)
    { o.released.withoutProgress with
      status :=
        if o.cancelRequested then .cancelled else if again then .queued else .failed
      availableAt := if again && !o.cancelRequested then o.retryAt now else o.availableAt
      failureCode := if o.cancelRequested then none else code
      updatedAt := now }

/-- cancel.sql -/
@[grind =] def cancel (actorId : Nat) (id : Uuid) (now : Int) : OperationUpdate where
  cond o := decide (o.actorId = actorId) && decide (o.id = id) && o.status.pending
  set o := { o with
    status := if o.status = .queued then .cancelled else o.status
    cancelRequested := true, updatedAt := now }

/-- ack_cancel.sql -/
@[grind =] def ackCancel (f : Fence) (now : Int) : OperationUpdate where
  cond o := f.holds now o && o.status == .running && o.cancelRequested
  set o := { o.released with status := .cancelled, updatedAt := now }

/-! ## Single-message delivery -/

/-- begin_delivery.sql -/
@[grind =] def beginDelivery (f : Fence) (now : Int) : OperationUpdate where
  cond o := f.holds now o && o.status == .running && !o.cancelRequested
  set o := { o with
    status := .delivering, deliveryStartedAt := some now, updatedAt := now }

/-- complete_delivery.sql -/
@[grind =] def completeDelivery (f : Fence) (messageId : Int) (now : Int) : OperationUpdate where
  cond o := f.holds now o && o.status == .delivering
  set o := { o.released with
    status := .succeeded, deliveredMessageId := some messageId, updatedAt := now }

/-- delivery_unknown.sql -/
@[grind =] def deliveryUnknown (f : Fence) (now : Int) : OperationUpdate where
  cond o := f.holds now o && o.status == .delivering
  set o := { o.released with status := .deliveryUnknown, updatedAt := now }

/-- reject_delivery.sql -/
@[grind =] def rejectDelivery (f : Fence) (now : Int) : OperationUpdate where
  cond o := f.holds now o && o.status == .delivering
  set o := { o.released with status := .failed, updatedAt := now }

/-! ## Batch delivery -/

/-- begin_delivery_batch.sql -/
@[grind =] def beginDeliveryBatch (f : Fence) (total : Nat) (now : Int) : OperationUpdate where
  cond o := f.holds now o && o.status == .running && !o.cancelRequested
  set o := { o with
    status := .delivering, plannedArtifactCount := some total
    deliveredArtifactCount := 0, deliveryStartedAt := some now, updatedAt := now }

/-- `COALESCE(MAX(ordinal)+1,0)`. -/
def nextOrdinal (batch : List DeliveryUnitRow) : Nat :=
  batch.foldl (fun n u => max n (u.ordinal + 1)) 0

/-- The `WHERE` clause of begin_delivery_unit.sql. -/
@[grind =] def beginUnitReady (f : Fence) (batch : List DeliveryUnitRow) (ordinal count : Nat)
    (now : Int) (o : OperationRow) : Bool :=
  f.holds now o && o.status == .delivering && !o.cancelRequested &&
    decide (ordinal = nextOrdinal batch) &&
    decide (o.deliveredArtifactCount = sentSum batch) && decide (count ≤ 10) &&
    o.plannedArtifactCount.any
      (fun planned => decide (o.deliveredArtifactCount + count ≤ planned)) &&
    batch.all fun u => u.status == .sent

/-- The row begin_delivery_unit.sql inserts. -/
@[grind =] def begunUnit (f : Fence) (ordinal count : Nat) (now : Int) : DeliveryUnitRow where
  operationId := f.operationId
  attempt := f.attempt
  ordinal := ordinal
  artifactCount := count
  status := .sending
  createdAt := now
  updatedAt := now

/-- A unit of the fenced attempt that is being sent, by ordinal. -/
@[grind =] def inFlight (f : Fence) (ordinal : Nat) (u : DeliveryUnitRow) : Bool :=
  decide (u.key = (f.operationId, f.attempt, ordinal)) && u.status == .sending

/-- The operation of the fence is being delivered. -/
@[grind =] def delivering (f : Fence) (now : Int) (o : OperationRow) : Bool :=
  f.holds now o && o.status == .delivering

/-- complete_delivery_unit.sql -/
@[grind =] def completeDeliveryUnit (f : Fence) (ordinal : Nat) (ids : List Int) (live : Bool)
    (now : Int) : UnitUpdate where
  cond u := inFlight f ordinal u && decide (ids.length = u.artifactCount) &&
    decide ids.Nodup && ids.all (fun id => decide (0 < id) && decide (id ≤ i32Max)) &&
    live
  set u := { u with status := .sent, messageIds := some ids, updatedAt := now }

/-- `artifact_count` of the sent unit with an ordinal. -/
def sentCount (batch : List DeliveryUnitRow) (ordinal : Nat) : Option Nat :=
  (batch.find? fun u => decide (u.ordinal = ordinal) && u.status == .sent).map
    DeliveryUnitRow.artifactCount

/-- complete_delivery_unit_operation.sql -/
@[grind =] def completeDeliveryUnitOperation (f : Fence) (batch : List DeliveryUnitRow)
    (ordinal : Nat) (lastId : Int) (now : Int) : OperationUpdate where
  cond o := delivering f now o && (sentCount batch ordinal).isSome &&
    decide (o.deliveredArtifactCount =
      sentSum (batch.filter fun u => decide (u.ordinal ≠ ordinal)))
  set o :=
    let delivered := o.deliveredArtifactCount + (sentCount batch ordinal).getD 0
    let o' := { o with deliveredArtifactCount := delivered, updatedAt := now }
    if some delivered = o.plannedArtifactCount then
      { o'.released with deliveredMessageId := some lastId, status := .succeeded }
    else { o' with deliveredMessageId := none, status := .delivering }

/-- reject_delivery_unit.sql -/
@[grind =] def rejectDeliveryUnit (f : Fence) (ordinal : Nat) (live : Bool) (now : Int) :
    UnitUpdate where
  cond u := inFlight f ordinal u && live
  set u := { u with status := .rejected, updatedAt := now }

/-- A unit of the batch with an ordinal and a status. -/
def hasUnit (batch : List DeliveryUnitRow) (ordinal : Nat) (status : UnitStatus) : Bool :=
  batch.any fun u => decide (u.ordinal = ordinal) && decide (u.status = status)

/-- reject_delivery_unit_operation.sql -/
@[grind =] def rejectDeliveryUnitOperation (f : Fence) (batch : List DeliveryUnitRow)
    (ordinal : Nat) (retryAfterSecs : Option Nat) (now : Int) : OperationUpdate where
  cond o := delivering f now o && hasUnit batch ordinal .rejected
  set o :=
    let again := retryAfterSecs.isSome && decide (o.attempt < o.maxAttempts)
    { o.released.withoutProgress with
      status :=
        if 0 < o.deliveredArtifactCount then .deliveryPartial
        else if o.cancelRequested then .cancelled
        else if again then .queued
        else .failed
      availableAt :=
        if o.deliveredArtifactCount == 0 && !o.cancelRequested && again then
          now + micros (max o.retryDelaySecs (retryAfterSecs.getD 0))
        else o.availableAt
      updatedAt := now }

/-- unknown_delivery_unit.sql -/
@[grind =] def unknownDeliveryUnit (f : Fence) (ordinal : Nat) (live : Bool) (now : Int) :
    UnitUpdate where
  cond u := inFlight f ordinal u && live
  set u := { u with status := .unknown, updatedAt := now }

/-- unknown_delivery_unit_operation.sql -/
@[grind =] def unknownDeliveryUnitOperation (f : Fence) (batch : List DeliveryUnitRow)
    (ordinal : Nat) (now : Int) : OperationUpdate where
  cond o := delivering f now o && hasUnit batch ordinal .unknown
  set o := { o.released with status := .deliveryUnknown, updatedAt := now }

/-- The `EXISTS` of stop_delivery_batch_mark.sql: a cancel marks nothing before
the user asked for it. -/
@[grind =] def stopMarks (f : Fence) (reason : StopDeliveryReason) (now : Int) (o : OperationRow) :
    Bool :=
  delivering f now o && (reason != .cancel || o.cancelRequested)

/-- stop_delivery_batch_mark.sql -/
@[grind =] def stopDeliveryBatchMark (f : Fence) (live : Bool) (now : Int) : UnitUpdate where
  cond u := decide (u.operationId = f.operationId) && decide (u.attempt = f.attempt) &&
    u.status == .sending && live
  set u := { u with status := .unknown, updatedAt := now }

/-- `content_failure` recorded by a stop. -/
def stopFailure : StopDeliveryReason → Option ContentFailure
  | .nsfwBlocked => some .nsfwBlocked
  | .nsfwPolicyUnavailable => some .nsfwPolicyUnavailable
  | _ => none

/-- stop_delivery_batch.sql -/
@[grind =] def stopDeliveryBatch (f : Fence) (batch : List DeliveryUnitRow)
    (reason : StopDeliveryReason) (now : Int) : OperationUpdate where
  cond o := delivering f now o
  set o :=
    { o.released.withoutProgress with
      status :=
        if batch.any fun u => u.status == .unknown then .deliveryUnknown
        else if 0 < o.deliveredArtifactCount then .deliveryPartial
        else if o.cancelRequested || reason == .cancel then .cancelled
        else if reason == .denied || reason == .nsfwBlocked ||
            reason == .nsfwPolicyUnavailable then .failed
        else if o.attempt < o.maxAttempts then .queued
        else .failed
      availableAt :=
        if o.deliveredArtifactCount == 0 && !o.cancelRequested && reason == .shutdown &&
            decide (o.attempt < o.maxAttempts) then o.retryAt now
        else o.availableAt
      contentFailure := (stopFailure reason).or o.contentFailure
      updatedAt := now }

/-! ## Requeue after an invalid cache -/

/-- The `EXISTS` of requeue_invalid_cache_mark.sql on the operation. -/
@[grind =] def requeueEligible (f : Fence) (batch : List DeliveryUnitRow) (cacheKey : String)
    (botId : Int) (now : Int) (o : OperationRow) : Bool :=
  delivering f now o && !o.cancelRequested && !o.cacheBypassed &&
    o.deliveredArtifactCount == 0 &&
    decide (jsonExtract o.request ["actor_id"] = some (.int o.actorId)) &&
    o.forBot botId && decide (o.cacheKey = some cacheKey) &&
    !batch.any fun u => u.status == .sent

/-- requeue_invalid_cache_mark.sql -/
@[grind =] def requeueInvalidCacheMark (f : Fence) (batch : List DeliveryUnitRow) (live : Bool)
    (now : Int) : UnitUpdate where
  cond u := inFlight f 0 u &&
    !batch.any (fun v => (v.status == .sending || v.status == .unknown) &&
      decide (v.ordinal ≠ 0)) && live
  set u := { u with status := .rejected, updatedAt := now }

/-- requeue_invalid_cache_operation.sql -/
@[grind =] def requeueInvalidCacheOperation (f : Fence) (batch : List DeliveryUnitRow)
    (now : Int) : OperationUpdate where
  cond o := delivering f now o && hasUnit batch 0 .rejected
  set o := { o.released.withoutProgress with
    status := .queued, maxAttempts := o.maxAttempts + 1, availableAt := now
    cacheBypassed := true, plannedArtifactCount := none, deliveredArtifactCount := 0
    deliveredMessageId := none, deliveryStartedAt := none, updatedAt := now }

/-! ## Publication -/

/-- What publish_media_cache_eligible.sql asks of an operation, but for its key: the
attempt of the claim delivered all `count` artifacts of this request. -/
def publishDelivered (id : Uuid) (attempt actorId : Nat) (botId : Int) (count : Nat)
    (request : Json) (batch : List DeliveryUnitRow) (o : OperationRow) : Bool :=
  decide (o.id = id) && decide (o.attempt = attempt) && o.status == .succeeded &&
    decide (o.actorId = actorId) &&
    decide (jsonExtract o.request ["actor_id"] = some (.int actorId)) && o.forBot botId &&
    decide (o.plannedArtifactCount = some count) &&
    decide (o.deliveredArtifactCount = count) && !o.cancelRequested &&
    DownloaderSettings.within 1 100 count && batch.all (fun u => u.status == .sent) &&
    decide (sentSum batch = count) && decide (o.request = request)

/-- publish_media_cache_eligible.sql -/
def publishEligible (id : Uuid) (attempt actorId : Nat) (botId : Int) (key : String)
    (count : Nat) (request : Json) (batch : List DeliveryUnitRow) (o : OperationRow) :
    Bool :=
  publishDelivered id attempt actorId botId count request batch o &&
    decide (o.cacheKey = some key)

end Sql

/-! ## Statements that insert and delete -/

section

variable [Platform]

/-- begin_delivery_unit.sql -/
def Sql.beginDeliveryUnit (f : Fence) (ordinal count : Nat) (now : Int) : Stmt Nat := do
  let db ← get
  let batch := db.batch f.operationId f.attempt
  if (db.operation f.operationId).any (beginUnitReady f batch ordinal count now) then
    let u := begunUnit f ordinal count now
    if db.deliveryUnits.rows.any fun v => decide (v.key = u.key) then return 0
    else
      match db.deliveryUnits.insert u with
      | none => throw .database
      | some deliveryUnits =>
          set { db with deliveryUnits }
          return 1
  else return 0

/-- requeue_invalid_cache_evict.sql -/
def Sql.requeueInvalidCacheEvict (f : Fence) (cacheKey : String) (revision : Uuid) :
    Stmt Nat := do
  let db ← get
  let (mediaCache, n) := db.mediaCache.delete fun r =>
    decide (r.cacheKey = cacheKey) && decide (r.revision = revision) &&
      (db.operation f.operationId).any fun o =>
        decide (o.attempt = f.attempt) && o.forBot r.botId &&
          decide (o.actorId = r.actorId)
  set { db with mediaCache }
  return n

end

end YoinkCore.Storage
