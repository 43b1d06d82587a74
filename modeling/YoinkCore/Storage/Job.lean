import YoinkCore.Storage.Sql

/-!
# Jobs

A job is one operation with its delivery units. The store never relates the
queue state of two operations, so its calls act on each job by itself; `JobStep`
lists everything a call can do to one. Every invariant of the queue is proved by
going through these steps once.

A step carries the earliest time `t` its statements may have read.
-/

namespace YoinkCore.Storage

open Lib

structure Job where
  op : OperationRow
  units : List DeliveryUnitRow

namespace Job

/-- The units of one attempt. -/
def batch (j : Job) (attempt : Nat) : List DeliveryUnitRow :=
  j.units.filter fun u => decide (u.attempt = attempt)

/-- The units of the current attempt. -/
def current (j : Job) : List DeliveryUnitRow := j.batch j.op.attempt

end Job

def OperationUpdate.apply (u : OperationUpdate) (o : OperationRow) : OperationRow :=
  if u.cond o then u.set o else o

def UnitUpdate.apply (u : UnitUpdate) (units : List DeliveryUnitRow) :
    List DeliveryUnitRow :=
  units.map fun v => if u.cond v then u.set v else v

/-- A lease that has not run out had not before. -/
theorem OperationRow.alive_earlier {o : OperationRow} {now now' : Int}
    (h : o.alive now' = true) (hle : now ≤ now') : o.alive now = true := by
  simp only [OperationRow.alive, Option.any_eq_true, decide_eq_true_eq] at h ⊢
  obtain ⟨t, ht, hlt⟩ := h
  exact ⟨t, ht, hle.trans_lt hlt⟩

theorem Fence.holds_earlier {f : Fence} {now now' : Int} {o : OperationRow}
    (h : f.holds now' o = true) (hle : now ≤ now') : f.holds now o = true := by
  simp only [Fence.holds, Bool.and_eq_true] at h ⊢
  exact ⟨h.1, OperationRow.alive_earlier h.2 hle⟩

/-! ## Kinds of steps -/

/-- What happened to a job. A stop names its fence, its reason and the instant at which
it ends the batch. -/
inductive Kind where
  | expire
  | claim
  | claimForBot
  | heartbeat
  | progress
  | complete
  | fail
  | cancel
  | ackCancel
  | beginDelivery
  | completeDelivery
  | deliveryUnknown
  | rejectDelivery
  | beginBatch
  | beginUnit
  | completeUnit
  | rejectUnit
  | unknownUnit
  | stop (f : Fence) (reason : StopDeliveryReason) (now : Int)
  | requeue
deriving DecidableEq

/-- The single-message protocol, from before batches. -/
def Kind.singleMessage : Kind → Bool
  | .beginDelivery | .completeDelivery | .deliveryUnknown | .rejectDelivery => true
  | _ => false

/-- The statements a worker runs by themselves, under its fence. -/
inductive WorkerStatement (f : Fence) (now : Int) : Kind → OperationUpdate → Prop
  | heartbeat (secs : Nat) : WorkerStatement f now .heartbeat (Sql.heartbeat f secs now)
  | progress (percent : Nat) (stage : ProgressStage) :
      WorkerStatement f now .progress (Sql.updateProgress f percent stage now)
  | complete : WorkerStatement f now .complete (Sql.complete f now)
  | fail (retryable : Bool) (code : Option FailureCode) :
      WorkerStatement f now .fail (Sql.fail f retryable code now)
  | ackCancel : WorkerStatement f now .ackCancel (Sql.ackCancel f now)
  | beginDelivery : WorkerStatement f now .beginDelivery (Sql.beginDelivery f now)
  | completeDelivery (messageId : Int) :
      WorkerStatement f now .completeDelivery (Sql.completeDelivery f messageId now)
  | deliveryUnknown : WorkerStatement f now .deliveryUnknown (Sql.deliveryUnknown f now)
  | rejectDelivery : WorkerStatement f now .rejectDelivery (Sql.rejectDelivery f now)
  | beginBatch (total : Nat) (positive : 1 ≤ total) :
      WorkerStatement f now .beginBatch (Sql.beginDeliveryBatch f total now)

/-- The statements that take effect by themselves. -/
inductive Single (now : Int) : Kind → OperationUpdate → Prop
  | worker {f : Fence} {k : Kind} {u : OperationUpdate} (h : WorkerStatement f now k u) :
      Single now k u
  | cancel (actorId : Nat) (id : Uuid) : Single now .cancel (Sql.cancel actorId id now)
  | claim (workerId : String) (secs : Nat) (token id : Uuid) :
      Single now .claim (Sql.claimUpdate workerId secs token id now)
  | claimForBot (workerId : String) (secs : Nat) (botId : Int) (token id : Uuid) :
      Single now .claimForBot (Sql.claimForBotUpdate workerId secs botId token id now)

/-- The outcomes of a unit: the statement on the unit and the one on its
operation, which reads the units again. -/
inductive Outcome (f : Fence) (now now' : Int) :
    Kind → UnitUpdate → (List DeliveryUnitRow → OperationUpdate) → Prop
  | complete (ordinal : Nat) (ids : List Int) (lastId : Int)
      (last : ids.getLast? = some lastId) :
      Outcome f now now' .completeUnit (Sql.completeDeliveryUnit f ordinal ids true now)
        fun batch => Sql.completeDeliveryUnitOperation f batch ordinal lastId now'
  | reject (ordinal : Nat) (retryAfterSecs : Option Nat) :
      Outcome f now now' .rejectUnit (Sql.rejectDeliveryUnit f ordinal true now)
        fun batch => Sql.rejectDeliveryUnitOperation f batch ordinal retryAfterSecs now'
  | unknown (ordinal : Nat) :
      Outcome f now now' .unknownUnit (Sql.unknownDeliveryUnit f ordinal true now)
        fun batch => Sql.unknownDeliveryUnitOperation f batch ordinal now'

/-! ## Steps of a job -/

/-- Everything one call can do to a job, at time `t` or later. -/
inductive JobStep (t : Int) : Kind → Job → Job → Prop
  | single {k : Kind} {now : Int} {u : OperationUpdate} {j : Job} (h : Single now k u)
      (later : t ≤ now) (hc : u.cond j.op = true) : JobStep t k j ⟨u.set j.op, j.units⟩
  | expire {j : Job} {now now' : Int} (later : t ≤ now')
      (units : List DeliveryUnitRow)
      (hu : units = (Sql.expireLeaseUnits j.op.id j.op.attempt now).apply j.units)
      (u : OperationUpdate)
      (h : u = Sql.expireLeaseOperation j.op.id j.op.attempt
        (Job.batch ⟨j.op, units⟩ j.op.attempt) now')
      (hc : u.cond j.op = true) : JobStep t .expire j ⟨u.set j.op, units⟩
  | beginUnit {j : Job} {f : Fence} {ordinal count : Nat} {now : Int} (later : t ≤ now)
      (positive : 0 < count)
      (hc : Sql.beginUnitReady f (j.batch f.attempt) ordinal count now j.op = true) :
      JobStep t .beginUnit j ⟨j.op, j.units ++ [Sql.begunUnit f ordinal count now]⟩
  | outcome {k : Kind} {f : Fence} {now now' : Int} {v : UnitUpdate}
      {u : List DeliveryUnitRow → OperationUpdate} {j : Job}
      (h : Outcome f now now' k v u) (later : t ≤ now) (later' : t ≤ now')
      (live : Sql.delivering f now j.op = true)
      (hit : ∃ x ∈ j.units, v.cond x = true) (units : List DeliveryUnitRow)
      (hu : units = v.apply j.units)
      (hc : (u (Job.batch ⟨j.op, units⟩ f.attempt)).cond j.op = true) :
      JobStep t k j ⟨(u (Job.batch ⟨j.op, units⟩ f.attempt)).set j.op, units⟩
  | stop {j : Job} {f : Fence} {reason : StopDeliveryReason} {now now' : Int}
      (later : t ≤ now) (later' : now ≤ now') (units : List DeliveryUnitRow)
      (hu : units = (Sql.stopDeliveryBatchMark f (Sql.stopMarks f reason now j.op)
        now).apply j.units)
      (u : OperationUpdate)
      (h : u = Sql.stopDeliveryBatch f (Job.batch ⟨j.op, units⟩ f.attempt) reason now')
      (hc : u.cond j.op = true) : JobStep t (.stop f reason now') j ⟨u.set j.op, units⟩
  | requeue {j : Job} {f : Fence} {key : String} {botId : Int} {now now' : Int}
      (later : t ≤ now) (later' : t ≤ now')
      (live : Sql.requeueEligible f (j.batch f.attempt) key botId now j.op = true)
      (v : UnitUpdate) (hv : v = Sql.requeueInvalidCacheMark f (j.batch f.attempt) true now)
      (hit : ∃ x ∈ j.units, v.cond x = true) (units : List DeliveryUnitRow)
      (hu : units = v.apply j.units) (u : OperationUpdate)
      (h : u = Sql.requeueInvalidCacheOperation f (Job.batch ⟨j.op, units⟩ f.attempt) now')
      (hc : u.cond j.op = true) : JobStep t .requeue j ⟨u.set j.op, units⟩

/-- Steps of permitted kinds, one after another. -/
def JobRun (P : Kind → Job → Prop) (t : Int) : Job → Job → Prop :=
  Relation.ReflTransGen fun j j' => ∃ k, P k j ∧ JobStep t k j j'

/-- The row of an operation that was just admitted. -/
structure Admitted (o : OperationRow) : Prop where
  queued : o.status = .queued
  attempt : o.attempt = 0
  attempts_pos : 1 ≤ o.maxAttempts
  attempts_le : o.maxAttempts ≤ 100
  cancel : o.cancelRequested = false
  lease : o.leaseExpiresAt = none
  planned : o.plannedArtifactCount = none
  delivered : o.deliveredArtifactCount = 0
  bypassed : o.cacheBypassed = false
  failure : o.failureCode = none

end YoinkCore.Storage
