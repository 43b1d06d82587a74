import YoinkCore.Storage.Admitted

/-!
# How runs evolve jobs

Every event either moves the jobs that are there, by steps its call permits, or
adds the job of one new operation. A property of jobs that a fresh job has and
every permitted step keeps therefore holds of every job after every run.
-/

namespace YoinkCore.Storage

open Lib Domain

variable [Platform]

/-! ## What a call permits -/

variable {s : System} {clock : Clock} {db db' : Db} {id : Uuid} {k : Kind}

variable {check : Except StoreError Unit} {P : Kind → Job → Prop} {u : OperationUpdate}
  {I : Job → Prop} {es : List Event} {policy : ClaimPolicy} {botId : Option Int}
  {lease : Duration} {c : Claim} {j : Job} {fresh token : Uuid}

/-- The checks of a method do not touch the database. -/
theorem guarded_state {α : Type} {m : Method α} {R : Db → Prop} (hdb : R db)
    (hm : check = .ok () → R (m db).2) : R (guarded check m db).2 := by
  cases check with
  | ok _ => exact hm rfl
  | error e => exact hdb

/-- The step of a call that aims at the operation of one claim. -/
def Call.kind (clock : Clock) : Call → Option Kind
  | .admitRequest .. | .claim .. | .claimForBot .. => none
  | .updateProgress .. => some .progress
  | .heartbeat .. => some .heartbeat
  | .complete .. => some .complete
  | .fail .. => some .fail
  | .requestCancel .. => some .cancel
  | .acknowledgeCancel .. => some .ackCancel
  | .beginDelivery .. => some .beginDelivery
  | .completeDelivery .. => some .completeDelivery
  | .deliveryUnknown .. => some .deliveryUnknown
  | .rejectDelivery .. => some .rejectDelivery
  | .beginDeliveryBatch .. => some .beginBatch
  | .beginDeliveryUnit .. => some .beginUnit
  | .completeDeliveryUnit .. => some .completeUnit
  | .rejectDeliveryUnit .. => some .rejectUnit
  | .unknownDeliveryUnit .. => some .unknownUnit
  | .stopDeliveryBatch c reason => some (.stop c.fence reason (clock.tick 1))
  | .requeueInvalidCache .. => some .requeue

/-- The steps a call may take on the jobs of a database. A claim by bot takes only
the operation its query selects after the expiry. -/
def Call.permits (call : Call) (clock : Clock) (db : Db) (k : Kind) (j : Job) : Prop :=
  match call with
  | .admitRequest .. => False
  | .claim .. => k = .expire ∨ k = .claim
  | .claimForBot worker lease botId policy => k = .expire ∨ k = .claimForBot ∧
      checkClaim worker lease policy = .ok () ∧ 0 < botId ∧
      ∃ db₁, expireLeases clock db = .ok ((), db₁) ∧
        claimSelected (some botId) policy clock db₁ = some j.op.id ∧
        db₁.job j.op.id = some j
  | call => call.kind clock = some k ∧ db.job j.op.id = some j

/-- The steps an event may take. -/
def Event.permits (e : Event) (db : Db) (k : Kind) (j : Job) : Prop :=
  match e with
  | call c clock _ _ => c.permits clock db k j
  | other => False

/-! ## Every method is one step -/

/-- Nothing happened, or the job of an operation took a step of kind `k`. -/
def Effect (k : Kind) (t : Int) (id : Uuid) (db db' : Db) : Prop :=
  db' = db ∨ ∃ j j', JobStep t k j j' ∧ Moved id db db' j j'

theorem Moved.job_op_id {j' : Job} (h : Moved id db db' j j') : j.op.id = id :=
  Db.operation_id (Db.job_eq_some.mp h.before).1

theorem Effect.moves {t : Int} (h : Effect k t id db db') :
    Moves (fun k' j => k' = k ∧ db.job j.op.id = some j) t db db' := by
  rcases h with rfl | ⟨j, j', hs, hm⟩
  · exact .refl _ _ _
  · exact hm.moves hs ⟨rfl, by rw [hm.job_op_id, hm.before]⟩

/-- A worker method with one statement. -/
theorem guarded_fenced_effect {f : Fence}
    (hu : check = .ok () → WorkerStatement f (clock.tick 0) k u) (db : Db) :
    Effect k (clock.tick 0) f.operationId db (guarded check (fencedStatement u) db).2 := by
  refine guarded_state (.inl rfl) fun hc => ?_
  rcases fencedStatement_cases (hu hc).fenced.at db with h | ⟨j, hj, hm⟩
  · exact .inl h
  · exact .inr ⟨j, _, .single (.worker (hu hc)) le_rfl hj, hm⟩

theorem auto_effect {α : Type} {t : Int} (hu : u.At id) (hs : Single t k u) {body : Stmt α}
    (hbody : ∀ {a db'}, body db = .ok (a, db') → ∃ n, updateOperations u db = .ok (n, db')) :
    Effect k t id db (Tx.auto body db).2 := by
  rcases auto_cases hu hbody with h | ⟨j, hj, hm⟩
  · exact .inl h
  · exact .inr ⟨j, _, .single hs le_rfl hj, hm⟩

theorem heartbeatState_effect (c : Claim) (lease : Duration) (clock : Clock) (db : Db) :
    Effect .heartbeat (clock.tick 0) c.operationId db (heartbeatState c lease clock db).2 := by
  refine guarded_state (.inl rfl) fun _ => ?_
  have hs : WorkerStatement c.fence (clock.tick 0) .heartbeat _ := .heartbeat lease.asSecs
  have hat : OperationUpdate.At _ c.fence.operationId := hs.fenced.at
  refine auto_effect hat (.worker hs) fun {a db'} h => ?_
  simp only [Tx.bind_eq_ok, updateReturning, Tx.get_eq_ok, Tx.pure_eq_ok] at h
  obtain ⟨row, db₁, ⟨n, _, hn, _, _, ⟨rfl, rfl⟩, -, rfl⟩, h⟩ := h
  cases row with
  | none => simp at h
  | some row =>
      cases hl : row.leaseExpiresAt with
      | none => simp [hl] at h
      | some lease =>
          simp only [hl, Tx.pure_eq_ok] at h
          exact ⟨n, h.2 ▸ hn⟩

theorem requestCancel_effect (actorId : Nat) (id : Uuid) (clock : Clock) (db : Db) :
    Effect .cancel (clock.tick 0) id db (requestCancel actorId id clock db).2 := by
  refine guarded_state (.inl rfl) fun _ => ?_
  refine auto_effect (Sql.cancel_at ..) (.cancel actorId id) fun {a db'} h => ?_
  simp only [Tx.bind_eq_ok, Tx.pure_eq_ok] at h
  obtain ⟨n, _, hn, -, rfl⟩ := h
  exact ⟨n, hn⟩

theorem failWithCode_effect (c : Claim) (retryable : Bool) (code : Option String)
    (clock : Clock) (db : Db) :
    Effect .fail (clock.tick 0) c.operationId db
      (failWithCode c retryable code clock db).2 := by
  unfold failWithCode
  split
  · exact .inl rfl
  · have hs : ∀ code, (.ok () : Except StoreError Unit) = .ok () →
        WorkerStatement c.fence (clock.tick 0) .fail _ := fun code _ => .fail retryable code
    exact guarded_fenced_effect (hs _) db

theorem beginDeliveryBatch_effect (c : Claim) (total : Nat) (clock : Clock) (db : Db) :
    Effect .beginBatch (clock.tick 0) c.operationId db
      (beginDeliveryBatch c total clock db).2 := by
  refine guarded_state (.inl rfl) fun hc => ?_
  have hpos : 1 ≤ total := by
    simp only [Tx.result_bind_eq_ok, ensure_eq_ok, DownloaderSettings.within,
      Bool.and_eq_true, decide_eq_true_eq] at hc
    exact hc.choose_spec.2.1
  have hs : WorkerStatement c.fence (clock.tick 0) .beginBatch _ := .beginBatch total hpos
  have hat : OperationUpdate.At _ c.fence.operationId := hs.fenced.at
  refine auto_effect hat (.worker hs) fun {a db'} h => ?_
  simp only [Tx.bind_eq_ok, Tx.pure_eq_ok] at h
  obtain ⟨n, _, hn, -, rfl⟩ := h
  exact ⟨n, hn⟩

theorem beginDeliveryUnit_effect (c : Claim) (ordinal count : Nat) (clock : Clock)
    (db : Db) :
    Effect .beginUnit (clock.tick 0) c.operationId db
      (beginDeliveryUnit c ordinal count clock db).2 := by
  refine guarded_state (.inl rfl) fun hc => ?_
  have hpos : 0 < count := by
    simp only [Tx.result_bind_eq_ok, ensure_eq_ok, DownloaderSettings.within,
      Bool.and_eq_true, decide_eq_true_eq] at hc
    exact hc.choose_spec.2.2.1
  rw [Tx.auto_eq]
  split
  · rename_i b db' h
    simp only [Tx.bind_eq_ok, Tx.pure_eq_ok] at h
    obtain ⟨n, _, hn, -, rfl⟩ := h
    exact Sql.beginDeliveryUnit_cases le_rfl hpos hn
  · exact .inl rfl

theorem completeDeliveryUnit_effect (c : Claim) (ordinal : Nat) (ids : List Int)
    (clock : Clock) (db : Db) :
    Effect .completeUnit (clock.tick 0) c.operationId db
      (completeDeliveryUnit c ordinal ids clock db).2 := by
  refine guarded_state (.inl rfl) fun hc => ?_
  have hlast : ids.getLast? = some (ids.getLast?.getD 0) := by
    simp only [Tx.result_bind_eq_ok, ensure_eq_ok, validMessageIds, Bool.and_eq_true] at hc
    have hne := hc.choose_spec.2.2.1.1.1
    cases h : ids.getLast? with
    | none => simp [List.getLast?_eq_none_iff.mp h] at hne
    | some id => rfl
  exact updateDeliveryUnit_cases (f := c.fence) (.complete ordinal ids _ hlast)
    fun x => by simp [Sql.completeDeliveryUnit]

theorem rejectDeliveryUnit_effect (c : Claim) (ordinal : Nat) (retryAfter : Option Duration)
    (clock : Clock) (db : Db) :
    Effect .rejectUnit (clock.tick 0) c.operationId db
      (rejectDeliveryUnit c ordinal retryAfter clock db).2 := by
  unfold rejectDeliveryUnit
  split
  · exact .inl rfl
  · exact updateDeliveryUnit_cases (f := c.fence) (.reject ordinal _)
      fun x => by simp [Sql.rejectDeliveryUnit]

theorem unknownDeliveryUnit_effect (c : Claim) (ordinal : Nat) (clock : Clock) (db : Db) :
    Effect .unknownUnit (clock.tick 0) c.operationId db
      (unknownDeliveryUnit c ordinal clock db).2 :=
  guarded_state (.inl rfl) fun _ =>
    updateDeliveryUnit_cases (f := c.fence) (.unknown ordinal)
      fun x => by simp [Sql.unknownDeliveryUnit]

theorem stopDeliveryBatch_effect (c : Claim) (reason : StopDeliveryReason) (clock : Clock)
    (db : Db) :
    Effect (.stop c.fence reason (clock.tick 1)) (clock.tick 0) c.operationId db
      (stopDeliveryBatch c reason clock db).2 :=
  guarded_state (.inl rfl) fun _ => stopTransaction_cases c.fence reason clock db

/-- `requeue_invalid_cache` reports whether it requeued the operation. -/
theorem requeueInvalidCache_cases (c : Claim) (ordinal : Nat) (revision : Uuid)
    (clock : Clock) (db : Db) :
    (∃ r, r ≠ .ok true ∧ requeueInvalidCache c ordinal revision clock db = (r, db)) ∨
      ∃ db' j j', requeueInvalidCache c ordinal revision clock db = (.ok true, db') ∧
        JobStep (clock.tick 0) .requeue j j' ∧ Moved c.operationId db db' j j' := by
  unfold requeueInvalidCache guarded
  split
  case h_2 => exact .inl ⟨_, by simp, rfl⟩
  split
  · exact .inl ⟨_, by simp, rfl⟩
  split
  · exact requeueTransaction_cases c.fence _ _ revision clock db
  · exact .inl ⟨_, by simp, rfl⟩
  · exact .inl ⟨_, by simp, rfl⟩

theorem requeueInvalidCache_effect (c : Claim) (ordinal : Nat) (revision : Uuid)
    (clock : Clock) (db : Db) :
    Effect .requeue (clock.tick 0) c.operationId db
      (requeueInvalidCache c ordinal revision clock db).2 := by
  rcases requeueInvalidCache_cases c ordinal revision clock db with
    ⟨r, -, h⟩ | ⟨db', j, j', h, hs, hm⟩
  · rw [h]
    exact .inl rfl
  · rw [h]
    exact .inr ⟨j, j', hs, hm⟩

/-- Any call but an admission and a claim is one step of one job. -/
theorem exec_effect {call : Call} (hk : call.kind clock = some k) (fresh : Uuid) (db : Db) :
    ∃ id, Effect k (clock.tick 0) id db (exec call clock fresh db).2 := by
  cases call <;> cases hk
  case updateProgress c percent stage =>
    exact ⟨_, guarded_fenced_effect (f := c.fence) (fun _ => .progress percent stage) db⟩
  case heartbeat c lease => exact ⟨_, heartbeatState_effect c lease clock db⟩
  case complete c => exact ⟨_, guarded_fenced_effect (f := c.fence) (fun _ => .complete) db⟩
  case fail c retryable code => exact ⟨_, failWithCode_effect c retryable code clock db⟩
  case requestCancel actorId id => exact ⟨_, requestCancel_effect actorId id clock db⟩
  case acknowledgeCancel c =>
    exact ⟨_, guarded_fenced_effect (f := c.fence) (fun _ => .ackCancel) db⟩
  case beginDelivery c =>
    exact ⟨_, guarded_fenced_effect (f := c.fence) (fun _ => .beginDelivery) db⟩
  case completeDelivery c messageId =>
    exact ⟨_, guarded_fenced_effect (f := c.fence)
      (fun _ => .completeDelivery messageId) db⟩
  case deliveryUnknown c =>
    exact ⟨_, guarded_fenced_effect (f := c.fence) (fun _ => .deliveryUnknown) db⟩
  case rejectDelivery c =>
    exact ⟨_, guarded_fenced_effect (f := c.fence) (fun _ => .rejectDelivery) db⟩
  case beginDeliveryBatch c total => exact ⟨_, beginDeliveryBatch_effect c total clock db⟩
  case beginDeliveryUnit c ordinal count =>
    exact ⟨_, beginDeliveryUnit_effect c ordinal count clock db⟩
  case completeDeliveryUnit c ordinal ids =>
    exact ⟨_, completeDeliveryUnit_effect c ordinal ids clock db⟩
  case rejectDeliveryUnit c ordinal retryAfter =>
    exact ⟨_, rejectDeliveryUnit_effect c ordinal retryAfter clock db⟩
  case unknownDeliveryUnit c ordinal =>
    exact ⟨_, unknownDeliveryUnit_effect c ordinal clock db⟩
  case stopDeliveryBatch c reason =>
    exact ⟨_, stopDeliveryBatch_effect c reason clock db⟩
  case requeueInvalidCache c ordinal revision =>
    exact ⟨_, requeueInvalidCache_effect c ordinal revision clock db⟩

/-! ## Claims -/

theorem claimBody_moves {workerId : String} {r : Option Claim}
    (h : claimBody workerId lease botId policy clock token db = .ok (r, db'))
    (hexpire : ∀ j, P .expire j) (hclaim : ∀ db₁ j, expireLeases clock db = .ok ((), db₁) →
      claimSelected botId policy clock db₁ = some j.op.id → db₁.job j.op.id = some j →
      P (if botId.isSome then .claimForBot else .claim) j) : Moves P (clock.tick 0) db db' := by
  obtain ⟨db₁, hexp, h⟩ := claimBody_of_ok h
  have hm := (expireLeases_moves hexp).mono (Q := P) fun k j hk => hk ▸ hexpire j
  rcases h with ⟨-, rfl⟩ | ⟨c, id, j, -, hsel, hc, hmoved, -⟩
  · exact hm
  · refine hm.trans (hmoved.moves (k := if botId.isSome then .claimForBot else .claim) ?_
      (hclaim db₁ j hexp ?_ ?_))
    · cases botId with
      | none =>
          exact .single (.claim workerId lease.asSecs token id)
            (clock.mono 0 updateTick (by omega)) hc
      | some botId =>
          exact .single (.claimForBot workerId lease.asSecs botId token id)
            (clock.mono 0 updateTick (by omega)) hc
    · rw [hmoved.job_op_id]
      exact hsel
    · rw [hmoved.job_op_id]
      exact hmoved.before

theorem claimFiltered_moves {workerId : String} (hexpire : ∀ j, P .expire j)
    (hclaim : checkClaim workerId lease policy = .ok () →
      ∀ db₁ j, expireLeases clock db = .ok ((), db₁) →
      claimSelected botId policy clock db₁ = some j.op.id → db₁.job j.op.id = some j →
      P (if botId.isSome then .claimForBot else .claim) j) :
    Moves P (clock.tick 0) db
      (claimFiltered workerId lease botId policy clock token db).2 := by
  rcases claimFiltered_cases workerId lease botId policy clock token db with
    ⟨e, h⟩ | ⟨r, db', hcheck, h, hb⟩
  · rw [h]
    exact .refl _ _ _
  · rw [h]
    exact claimBody_moves hb hexpire (hclaim hcheck)

/-! ## Events -/

/-- What one event does to the jobs. -/
inductive Evolves (P : Kind → Job → Prop) (t : Int) (db db' : Db) : Prop
  | moves (h : Moves P t db db')
  | created {row : OperationRow} (admitted : Admitted row)
      (operations : db'.operations.rows = db.operations.rows ++ [row])
      (deliveryUnits : db'.deliveryUnits = db.deliveryUnits)

theorem exec_evolves (call : Call) (clock : Clock) (fresh : Uuid) (db : Db) :
    Evolves (call.permits clock db) (clock.tick 0) db (exec call clock fresh db).2 := by
  cases hk : call.kind clock with
  | some k =>
      obtain ⟨id, he⟩ := exec_effect hk fresh db
      refine .moves (he.moves.mono fun k' j hj => ?_)
      obtain ⟨rfl, hj⟩ := hj
      cases call <;> first | exact ⟨hk, hj⟩ | cases hk
  | none =>
      cases call with
      | admitRequest config request key policy preserve now telegram =>
          show Evolves _ _ _ (admitInner ..).2
          rcases admitInner_cases config request key policy preserve now telegram clock
            fresh db with ⟨e, h⟩ | ⟨row, -, h⟩ | ⟨row, cacheKey, db', -, h, hc, hrow⟩
          · rw [h]
            exact .moves (.refl _ _ _)
          · rw [h]
            exact .moves (.refl _ _ _)
          · rw [h]
            exact .created (hrow.admitted hc.policy) hrow.operations hrow.deliveryUnits
      | claim workerId lease =>
          exact .moves (claimFiltered_moves (fun _ => .inl rfl) fun _ _ _ _ _ _ => .inr rfl)
      | claimForBot workerId lease botId policy =>
          show Evolves _ _ _ (claimForBotBounded workerId lease botId policy clock fresh db).2
          refine .moves (guarded_state (R := Moves _ _ db) (.refl _ _ _) fun hbot => ?_)
          exact claimFiltered_moves (fun _ => .inl rfl) fun hcheck db₁ j hexp hsel hj =>
            .inr ⟨rfl, hcheck, by simpa using hbot, db₁, hexp, hsel, hj⟩
      | _ => cases hk

/-- **Every event evolves the jobs** by steps it permits. -/
theorem Step.evolves {t : System} {e : Event} (h : Step s e t) :
    Evolves (e.permits s.db) s.now s.db t.db := by
  cases h with
  | @call _ c clock fresh reply later result elapsed =>
      have he := exec_evolves c clock fresh s.db
      rw [result] at he
      cases he with
      | moves hm => exact .moves (hm.later later)
      | created ha ho hu => exact .created ha ho hu
  | other later operations deliveryUnits =>
      refine .moves ⟨fun hj => ⟨_, ?_, .refl⟩, fun _ => ⟨?_, ?_⟩⟩
      · rw [Db.job, Db.operation, Db.unitsOf, operations, deliveryUnits]
        exact hj
      · rw [Db.operation, Db.operation, operations]
      · rw [Db.unitsOf, Db.unitsOf, deliveryUnits]

theorem Step.now_le {t : System} {e : Event} (h : Step s e t) : s.now ≤ t.now := by
  cases h with
  | call later result elapsed => exact later.trans (elapsed 0)
  | other later _ _ => exact later

/-! ## Claims that were returned -/

theorem Method.reply_eq_ok {α : Type} {m : Method α} {f : α → Reply} {r : Reply}
    (h : Method.reply m f db = (.ok r, db')) : ∃ a, m db = (.ok a, db') ∧ f a = r := by
  simp only [Method.reply, Prod.mk.injEq] at h
  obtain ⟨h, rfl⟩ := h
  cases hm : (m db).1 with
  | error e =>
      rw [hm] at h
      cases h
  | ok a =>
      rw [hm] at h
      cases h
      exact ⟨a, Prod.ext hm rfl, rfl⟩

/-- Only the two claim methods return a claim. -/
theorem exec_claimed {call : Call} (h : exec call clock fresh db = (.ok (.claimed (some c)), db')) :
    ∃ workerId lease botId policy,
      claimBody workerId lease botId policy clock fresh db = .ok (some c, db') := by
  have hclaim : ∀ {workerId lease botId policy},
      claimFiltered workerId lease botId policy clock fresh db = (.ok (some c), db') →
      claimBody workerId lease botId policy clock fresh db = .ok (some c, db') := by
    intro workerId lease botId policy hf
    rcases claimFiltered_cases workerId lease botId policy clock fresh db with
      ⟨e, he⟩ | ⟨r, db₁, -, hr, hb⟩
    · rw [he] at hf
      cases hf
    · rw [hr] at hf
      cases hf
      exact hb
  cases call with
  | claim workerId lease =>
      obtain ⟨a, ha, he⟩ := Method.reply_eq_ok h
      cases he
      exact ⟨workerId, lease, none, {}, hclaim ha⟩
  | claimForBot workerId lease botId policy =>
      obtain ⟨a, ha, he⟩ := Method.reply_eq_ok h
      cases he
      unfold claimForBotBounded guarded at ha
      split at ha
      · exact ⟨workerId, lease, some botId, policy, hclaim ha⟩
      · cases ha
  | _ =>
      obtain ⟨a, -, he⟩ := Method.reply_eq_ok h
      cases he

/-- The row of an operation as its claim found it. -/
structure Leased (c : Claim) (o : OperationRow) : Prop where
  status : o.status = .running
  fence : o.attempt = c.attempt ∧ o.leaseToken = some c.leaseToken ∧
    o.workerId = some c.workerId
  lease : o.leaseExpiresAt = some c.leaseExpiresAt
  request : Codec.decode o.request = .ok c.request

theorem claimOf_eq_ok {o : OperationRow} (h : claimOf o = .ok c) (hs : o.status = .running) :
    c.operationId = o.id ∧ Leased c o := by
  unfold claimOf at h
  split at h
  · rename_i token worker lease ht hw hl
    simp only [Tx.result_bind_eq_ok] at h
    obtain ⟨request, hr, h⟩ := h
    cases h
    exact ⟨rfl, hs, ⟨rfl, ht, hw⟩, hl, hr⟩
  · cases h

/-- A claim was taken on a queued operation, which now runs its next attempt. -/
theorem Step.claimed {t : System} {call : Call}
    (h : Step s (.call call clock fresh (.ok (.claimed (some c)))) t) :
    ∃ db₁ j j', Moves (fun k _ => k = .expire) (clock.tick 0) s.db db₁ ∧
      Moved c.operationId db₁ t.db j j' ∧ j.op.status = .queued ∧
      j'.op.attempt = j.op.attempt + 1 ∧ Leased c j'.op := by
  cases h with
  | call later result elapsed =>
      obtain ⟨workerId, lease, botId, policy, hb⟩ := exec_claimed result
      obtain ⟨db₁, hexp, ⟨hn, -⟩ | ⟨c', id, j, hc', -, hcond, hmoved, hclaim⟩⟩ :=
        claimBody_of_ok hb
      · cases hn
      cases hc'
      have hset : j.op.status = .queued ∧
          ((claimStatement workerId lease botId clock fresh id).set j.op).status = .running ∧
          ((claimStatement workerId lease botId clock fresh id).set j.op).attempt =
            j.op.attempt + 1 ∧
          ((claimStatement workerId lease botId clock fresh id).set j.op).id = j.op.id := by
        cases botId <;> simp only [claimStatement] at hcond ⊢ <;> grind
      obtain ⟨hq, hrun, hatt, hid⟩ := hset
      obtain ⟨hcid, hleased⟩ := claimOf_eq_ok hclaim hrun
      rw [hid, hmoved.job_op_id] at hcid
      subst hcid
      exact ⟨db₁, j, _, expireLeases_moves hexp, hmoved, hq, hatt, hleased⟩

/-! ## Invariants of jobs -/

theorem Db.operation_of_append {row : OperationRow}
    (h : db'.operations.rows = db.operations.rows ++ [row]) (id : Uuid) :
    db'.operation id = (db.operation id).or (if row.id = id then some row else none) :=
  Table.find_insert (Table.insert_eq_some.mpr h) id

theorem Db.unitsOf_of_eq (h : db'.deliveryUnits = db.deliveryUnits) (id : Uuid) :
    db'.unitsOf id = db.unitsOf id := by
  rw [Db.unitsOf, Db.unitsOf, h]

/-- Every job satisfies a property, and every unit belongs to an operation. -/
structure Db.Jobs (I : Job → Prop) (db : Db) : Prop where
  job : ∀ {id j}, db.job id = some j → I j
  owned : ∀ {id}, db.operation id = none → db.unitsOf id = []

theorem Db.Fresh.jobs (h : db.Fresh) (I : Job → Prop) : db.Jobs I where
  job {id j} hj := by
    have := Table.mem_of_find (Db.job_eq_some.mp hj).1
    rw [h.1] at this
    cases this
  owned _ := by rw [Db.unitsOf, h.2]; rfl

variable {P : Kind → Job → Prop} {t : Int} {db db' : Db}

omit [Platform] in
/-- What every permitted step keeps, a sequence of them keeps. -/
theorem JobRun.keep {I : Job → Prop} {j j' : Job}
    (keep : ∀ {k j j'}, P k j → JobStep t k j j' → I j → I j') (h : JobRun P t j j')
    (hj : I j) : I j' := by
  induction h with
  | refl => exact hj
  | tail _ hs ih =>
      obtain ⟨k, hk, hs⟩ := hs
      exact keep hk hs ih

/-- A job that is there evolves by permitted steps. -/
theorem Evolves.kept (h : Evolves P t db db') (hj : db.job id = some j) :
    ∃ j', db'.job id = some j' ∧ JobRun P t j j' := by
  cases h with
  | moves hm => exact hm.kept hj
  | created _ operations deliveryUnits =>
      refine ⟨j, Db.job_eq_some.mpr ⟨?_, ?_⟩, .refl⟩
      · rw [Db.operation_of_append operations, (Db.job_eq_some.mp hj).1]
        rfl
      · rw [Db.unitsOf_of_eq deliveryUnits, (Db.job_eq_some.mp hj).2]

/-- **Invariant rule for jobs**, one event. -/
theorem Evolves.jobs (h : Evolves P t db db') (fresh : ∀ row, Admitted row → I ⟨row, []⟩)
    (keep : ∀ {k j j'}, P k j → JobStep t k j j' → I j → I j') (hI : db.Jobs I) :
    db'.Jobs I where
  job {id j'} hj' := by
    cases hj : db.job id with
    | some j =>
        obtain ⟨j'', hj'', hr⟩ := h.kept hj
        rw [hj'] at hj''
        cases hj''
        exact hr.keep keep (hI.job hj)
    | none =>
        have hnone : db.operation id = none := by simpa [Db.job] using hj
        cases h with
        | moves hm =>
            rw [(hm.absent hnone).job_eq, hj] at hj'
            cases hj'
        | created admitted operations deliveryUnits =>
            obtain ⟨hop, hunits⟩ := Db.job_eq_some.mp hj'
            rw [Db.operation_of_append operations, hnone] at hop
            rw [Db.unitsOf_of_eq deliveryUnits, hI.owned hnone] at hunits
            obtain ⟨o, units⟩ := j'
            simp only [Option.none_or] at hop hunits
            split at hop
            · cases hop
              rw [← hunits]
              exact fresh _ admitted
            · cases hop
  owned {id} hid := by
    cases h with
    | moves hm =>
        have hnone : db.operation id = none := by
          cases hop : db.operation id with
          | none => rfl
          | some o =>
              obtain ⟨j', hj', -⟩ := hm.kept (Db.job_eq_some.mpr ⟨hop, rfl⟩ :
                db.job id = some ⟨o, db.unitsOf id⟩)
              rw [(Db.job_eq_some.mp hj').1] at hid
              cases hid
        rw [(hm.absent hnone).2, hI.owned hnone]
    | created _ operations deliveryUnits =>
        rw [Db.operation_of_append operations, Option.or_eq_none_iff] at hid
        rw [Db.unitsOf_of_eq deliveryUnits, hI.owned hid.1]

/-- **Invariant rule for jobs**, every run. -/
theorem ReachesWith.jobs {G : System → Event → Prop} {u : System} (h : ReachesWith G s es u)
    (fresh : ∀ row, Admitted row → I ⟨row, []⟩)
    (keep : ∀ {s e k j j'}, G s e → e.permits s.db k j → JobStep s.now k j j' →
      I j → I j') : u.db.Jobs I := by
  obtain ⟨hfresh, hrun⟩ := h
  refine hrun.invariant (I := fun v => v.db.Jobs I) ?_ (hfresh.jobs I)
  intro v e w hI hs
  exact hs.1.evolves.jobs fresh (keep hs.2) hI

theorem Reaches.jobs {u : System} (h : Reaches s es u) (fresh : ∀ row, Admitted row → I ⟨row, []⟩)
    (keep : ∀ {t k j j'}, JobStep t k j j' → I j → I j') : u.db.Jobs I :=
  h.with_trivial.jobs fresh fun _ _ hs => keep hs

/-- A job stays, and evolves by steps, over a whole run. -/
theorem run_kept {R : Job → Job → Prop} (refl : ∀ j, R j j)
    (keep : ∀ {t k j₀ j j'}, R j₀ j → JobStep t k j j' → R j₀ j') {u : System}
    (h : Run Step s es u) (hj : s.db.job id = some j) : ∃ j', u.db.job id = some j' ∧ R j j' := by
  refine h.invariant (I := fun v => ∃ j', v.db.job id = some j' ∧ R j j') ?_
    ⟨j, hj, refl j⟩
  rintro v e w ⟨j', hj', hR⟩ hs
  obtain ⟨j'', hj'', hr⟩ := hs.evolves.kept hj'
  exact ⟨j'', hj'', hr.keep (I := R j) (fun _ hs hR => keep hR hs) hR⟩

end YoinkCore.Storage
