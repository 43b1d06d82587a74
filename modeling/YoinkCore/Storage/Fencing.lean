import YoinkCore.Storage.Evolution

/-!
# Lease fencing

A claim is over once its operation was claimed again, its lease ran out, or its
attempt ended. From then on its fence fails, since no step brings an attempt back,
and every call that presents it is refused.
-/

namespace YoinkCore.Storage

open Lib Domain

/-! ## Argument checks -/

/-- A check that fails reports an invalid input. -/
def Checks {α : Type} (check : Except StoreError α) : Prop :=
  ∀ e, check = .error e → e = .invalidInput

namespace Checks

theorem ensure (valid : Bool) : Checks (Storage.ensure valid) := by
  intro e h
  cases valid <;> cases h
  rfl

theorem bind {α β : Type} {x : Except StoreError α} {f : α → Except StoreError β}
    (hx : Checks x) (hf : ∀ a, Checks (f a)) : Checks (x >>= f) := by
  cases x with
  | error e => exact fun e' h => by cases h; exact hx e rfl
  | ok a => exact hf a

theorem validateClaim [Platform] (c : Claim) : Checks (Storage.validateClaim c) :=
  (ensure _).bind fun _ => ensure _

theorem publicCode (code : Option String) : Checks (Storage.publicCode code) := by
  intro e h
  unfold Storage.publicCode at h
  split at h
  · cases h
  · split at h <;> cases h
    rfl

theorem retryAfterSeconds (delay : Duration) : Checks (Storage.retryAfterSeconds delay) := by
  intro e h
  unfold Storage.retryAfterSeconds at h
  dsimp only at h
  generalize delay.asSecs + (if 0 < delay.subsecNanos then 1 else 0) = seconds at h
  split at h <;> cases h
  rfl

theorem map {α β : Type} {x : Except StoreError α} (f : α → β) (hx : Checks x) :
    Checks (x.map f) := by
  cases x with
  | error e => exact fun e' h => by cases h; exact hx e rfl
  | ok a => exact fun e' h => by cases h

end Checks

/-! ## Steps and attempts -/

variable {u : OperationUpdate} {k : Kind} {j j' : Job}

/-- A worker statement needs a live lease, and does not change the attempt. -/
theorem WorkerStatement.attempt {f : Fence} {now : Int} (h : WorkerStatement f now k u)
    {o : OperationRow} (hc : u.cond o = true) :
    (u.set o).attempt = o.attempt ∧ o.status.leased = true ∧ o.alive now = true := by
  cases h <;> grind [OperationStatus.leased]

/-- What a step at `now` or later can do to an attempt: only a claim changes its
number, and a lease that is gone stays gone. -/
theorem JobStep.attempt {now : Int} (h : JobStep now k j j') :
    j.op.attempt < j'.op.attempt ∨ j'.op.attempt = j.op.attempt ∧
      (j'.op.status.leased = true →
        j.op.status.leased = true ∧ (j'.op.alive now = true → j.op.alive now = true)) := by
  cases h with
  | single hs later hc =>
      cases hs with
      | worker hs =>
          obtain ⟨ha, hs, hl⟩ := hs.attempt hc
          exact .inr ⟨ha, fun _ => ⟨hs, fun _ => OperationRow.alive_earlier hl later⟩⟩
      | cancel => exact .inr (by grind [OperationStatus.leased, OperationRow.alive])
      | claim => exact .inl (Nat.lt_succ_self _)
      | claimForBot => exact .inl (Nat.lt_succ_self _)
  | expire _ _ _ u hu _ =>
      subst hu
      exact .inr ⟨rfl, fun h => by grind [OperationStatus.leased]⟩
  | beginUnit => exact .inr ⟨rfl, fun h => ⟨h, id⟩⟩
  | outcome hout later _ live _ units _ _ =>
      have hl : j.op.status.leased = true ∧ j.op.alive now = true := by
        simp only [Sql.delivering, Fence.holds, Bool.and_eq_true, beq_iff_eq] at live
        exact ⟨by rw [live.2]; rfl, OperationRow.alive_earlier live.1.2 later⟩
      refine .inr ⟨?_, fun _ => ⟨hl.1, fun _ => hl.2⟩⟩
      cases hout <;> grind
  | stop _ _ _ _ u hu _ =>
      subst hu
      exact .inr ⟨rfl, fun h => by grind [OperationStatus.leased]⟩
  | requeue _ _ _ _ _ _ _ _ u hu _ =>
      subst hu
      exact .inr ⟨rfl, fun h => by cases h⟩

theorem JobStep.attempt_le {now : Int} (h : JobStep now k j j') : j.op.attempt ≤ j'.op.attempt := by
  rcases h.attempt with h | ⟨h, -⟩
  · exact h.le
  · exact h.ge

section

variable [Platform]

/-! ## Claims that are over -/

/-- The fence of the claim fails on the row at `now` and later: the operation runs a
later attempt, or this one ended or its lease ran out. -/
def Claim.Outlived (c : Claim) (now : Int) (o : OperationRow) : Prop :=
  c.attempt < o.attempt ∨ o.attempt = c.attempt ∧
    (o.status.leased = true → o.alive now = false)

namespace Claim.Outlived

variable {c : Claim} {now t : Int} {o : OperationRow}

theorem mono (h : c.Outlived now o) (hle : now ≤ t) : c.Outlived t o := by
  refine h.imp_right fun ⟨ha, h⟩ => ⟨ha, fun hs => ?_⟩
  by_contra halive
  rw [Bool.not_eq_false] at halive
  rw [OperationRow.alive_earlier halive hle] at h
  cases h hs

/-- A row without a lease is not alive, so the fence of the claim fails. -/
theorem not_holds (h : c.Outlived now o) (hcheck : o.check = true) (hle : now ≤ t) :
    c.fence.holds t o = false := by
  rcases h.mono hle with h | ⟨-, h⟩
  · have hne : o.attempt ≠ c.fence.attempt := fun he => absurd he (Nat.ne_of_gt h)
    simp [Fence.holds, hne]
  · have halive : o.alive t = false := by
      cases hs : o.status.leased with
      | true => exact h hs
      | false =>
          simp only [OperationRow.check, OperationRow.leaseConsistent, hs,
            Bool.and_eq_true] at hcheck
          simp_all [OperationRow.alive]
    simp [Fence.holds, halive]

end Claim.Outlived

variable {c : Claim} {call : Call} {db : Db}

/-- No step brings back a claim that is over. -/
theorem Claim.Outlived.step {now : Int} (h : c.Outlived now j.op) (hs : JobStep now k j j') :
    c.Outlived now j'.op := by
  rcases hs.attempt with hlt | ⟨ha, hl⟩
  · rcases h with h | ⟨h, -⟩
    · exact .inl (h.trans hlt)
    · exact .inl (h ▸ hlt)
  · rcases h with h | ⟨h, hdead⟩
    · exact .inl (ha ▸ h)
    · refine .inr ⟨ha.trans h, fun hs => ?_⟩
      obtain ⟨hs, hback⟩ := hl hs
      by_contra halive
      rw [hback (by simpa using halive)] at hdead
      cases hdead hs

/-! ## Refused calls -/

/-- The fence holds neither at `now` nor later. -/
def Fence.Lost (f : Fence) (now : Int) (db : Db) : Prop :=
  ∀ o, db.operation f.operationId = some o → f.holds now o = false

namespace Fence.Lost

variable {f : Fence} {now : Int} {db : Db}

theorem misses (h : f.Lost now db) {cond : OperationRow → Bool} {t : Int} (hle : now ≤ t)
    (hc : ∀ o, cond o = true → f.holds t o = true) :
    (db.operation f.operationId).any cond = false := by
  cases ho : db.operation f.operationId with
  | none => rfl
  | some o =>
      rw [Option.any_some]
      by_contra hcond
      have := Fence.holds_earlier (hc o (by simpa using hcond)) hle
      rw [h o ho] at this
      cases this

/-- A statement under the fence matches no row. -/
theorem updateOperations (h : f.Lost now db) (hu : u.Fenced f now) :
    Storage.updateOperations u db = .ok (0, db) :=
  updateOperations_of_no_match hu.at (h.misses le_rfl hu.holds)

theorem fencedStatement (h : f.Lost now db) (hu : u.Fenced f now) :
    Storage.fencedStatement u db = (.error .notFoundOrStale, db) := by
  rw [Storage.fencedStatement, Tx.auto_eq, Tx.bind_of_ok (h.updateOperations hu)]
  rfl

theorem updateReturning (h : f.Lost now db) (hu : u.Fenced f now) (id : Uuid) :
    Storage.updateReturning u id db = .ok (none, db) := by
  rw [Storage.updateReturning, Tx.bind_of_ok (h.updateOperations hu)]
  rfl

variable {clock : Clock}

theorem updateDeliveryUnit (h : f.Lost now db) {unit : Bool → UnitUpdate}
    {operation : List DeliveryUnitRow → OperationUpdate} (hclock : clock.tick 0 = now)
    (hlive : ∀ x, (unit false).cond x = false) :
    Storage.updateDeliveryUnit f unit operation clock db = (.ok false, db) :=
  updateDeliveryUnit_of_not_live hlive
    (h.misses hclock.ge fun _ => Sql.holds_of_delivering)

theorem stopTransaction (h : f.Lost now db) {reason : StopDeliveryReason}
    (hclock : clock.tick 0 = now) :
    Storage.stopTransaction f reason clock db = (.ok false, db) := by
  have hlive : (db.operation f.operationId).any
      (Sql.stopMarks f reason (clock.tick 0)) = false :=
    h.misses hclock.ge fun o hc => Sql.holds_of_delivering (Bool.and_eq_true_iff.mp hc).1
  have hunits : updateUnits (Sql.stopDeliveryBatchMark f false (clock.tick 0)) db =
      .ok (0, db) :=
    updateUnits_of_no_match fun x _ => by simp [Sql.stopDeliveryBatchMark]
  have hop : Storage.updateOperations (Sql.stopDeliveryBatch f
      (db.batch f.operationId f.attempt) reason (clock.tick 1)) db = .ok (0, db) :=
    updateOperations_of_no_match (Sql.stopDeliveryBatch_fenced ..).at
      (h.misses (hclock ▸ clock.mono 0 1 (by omega)) (Sql.stopDeliveryBatch_fenced ..).holds)
  refine Tx.run_of_rollback (t := db) ?_
  simp only [Tx.bind_eq_ok, Tx.get_eq_ok]
  refine ⟨db, db, ⟨rfl, rfl⟩, 0, db, ?_, db, db, ⟨rfl, rfl⟩, 0, db, hop, rfl⟩
  rw [hlive]
  exact hunits

end Fence.Lost

/-- The claim a call presents. -/
def Call.presents : Call → Option Claim
  | .updateProgress c .. | .heartbeat c .. | .complete c | .fail c .. |
    .acknowledgeCancel c | .beginDelivery c | .completeDelivery c .. |
    .deliveryUnknown c | .rejectDelivery c | .beginDeliveryBatch c .. |
    .beginDeliveryUnit c .. | .completeDeliveryUnit c .. | .rejectDeliveryUnit c .. |
    .unknownDeliveryUnit c .. | .stopDeliveryBatch c .. | .requeueInvalidCache c .. => some c
  | .admitRequest .. | .claim .. | .claimForBot .. | .requestCancel .. => none

/-- The reply to a claim that is over. -/
def Refusal (r : Except StoreError Reply) : Prop :=
  r = .error .notFoundOrStale ∨ r = .ok (.flag false)

/-- The call changes nothing and is refused; or its arguments are invalid, whatever
the database. -/
def RefusedOrInvalid (m : Method Reply) (db : Db) : Prop :=
  (∃ r, Refusal r ∧ m db = (r, db)) ∨ ∀ db, m db = (.error .invalidInput, db)

theorem guarded_refused {α : Type} {check : Except StoreError Unit} {m : Method α} {f : α → Reply}
    {r : Except StoreError α} (hcheck : Checks check) (hm : check = .ok () → m db = (r, db))
    (hr : Refusal (r.map f)) : RefusedOrInvalid (Method.reply (guarded check m) f) db := by
  cases check with
  | ok _ => exact .inl ⟨_, hr, by simp [Method.reply, guarded, hm]⟩
  | error e =>
      rw [hcheck e rfl]
      exact .inr fun db => rfl

/-- **Every call that presents a lost claim is refused.** -/
theorem exec_refused (hc : call.presents = some c) {clock : Clock}
    (h : c.fence.Lost (clock.tick 0) db) (fresh : Uuid) :
    RefusedOrInvalid (exec call clock fresh) db := by
  have hclaim := Checks.validateClaim c
  have hstale : ∀ {α : Type} {f : α → Reply},
      Refusal ((.error .notFoundOrStale : Except StoreError α).map f) := .inl rfl
  have hfalse : Refusal ((.ok false : Except StoreError Bool).map .flag) := .inr rfl
  have hworker : ∀ {k u} {f : Unit → Reply} {check : Except StoreError Unit},
      Checks check → WorkerStatement c.fence (clock.tick 0) k u →
      RefusedOrInvalid (Method.reply (guarded check (fencedStatement u)) f) db :=
    fun hcheck hs => guarded_refused hcheck (fun _ => h.fencedStatement hs.fenced) hstale
  -- each statement is fenced by the claim, so it changes no row
  cases call <;> cases hc
  case updateProgress percent stage =>
    exact hworker (hclaim.bind fun _ => .ensure _) (.progress percent stage)
  case heartbeat lease =>
    have hs : WorkerStatement c.fence (clock.tick 0) .heartbeat _ :=
      .heartbeat lease.asSecs
    refine guarded_refused (hclaim.bind fun _ => .ensure _) (fun _ => ?_) hstale
    rw [Tx.auto_eq, Tx.bind_of_ok (h.updateReturning hs.fenced _)]
    rfl
  case complete => exact hworker hclaim .complete
  case fail retryable code =>
    have hcheck : Checks (checkFailure c code) := hclaim.bind fun _ => .publicCode code
    cases hk : checkFailure c code with
    | error e =>
        rw [hcheck e hk] at hk
        exact .inr fun db => by simp [exec, Method.reply, failWithCode, hk, Except.map]
    | ok code =>
        have hs : WorkerStatement c.fence (clock.tick 0) .fail _ := .fail retryable code
        refine .inl ⟨_, .inl rfl, ?_⟩
        simp [exec, Method.reply, failWithCode, hk, h.fencedStatement hs.fenced, Except.map]
  case acknowledgeCancel => exact hworker hclaim .ackCancel
  case beginDelivery => exact hworker hclaim .beginDelivery
  case completeDelivery messageId =>
    exact hworker (hclaim.bind fun _ => .ensure _) (.completeDelivery messageId)
  case deliveryUnknown => exact hworker hclaim .deliveryUnknown
  case rejectDelivery => exact hworker hclaim .rejectDelivery
  case beginDeliveryBatch total =>
    refine guarded_refused (hclaim.bind fun _ => .ensure _) (fun hcheck => ?_) hfalse
    have htotal : 1 ≤ total := by
      simp only [Tx.result_bind_eq_ok, ensure_eq_ok, DownloaderSettings.within,
        Bool.and_eq_true, decide_eq_true_eq] at hcheck
      exact hcheck.choose_spec.2.1
    have hs : WorkerStatement c.fence (clock.tick 0) .beginBatch _ :=
      .beginBatch total htotal
    rw [Tx.auto_eq, Tx.bind_of_ok (h.updateOperations hs.fenced)]
    rfl
  case beginDeliveryUnit ordinal count =>
    have hready : (db.operation c.fence.operationId).any (Sql.beginUnitReady c.fence
        (db.batch c.fence.operationId c.fence.attempt) ordinal count (clock.tick 0)) = false :=
      h.misses le_rfl fun _ => Sql.holds_of_beginUnitReady
    refine guarded_refused (hclaim.bind fun _ => .ensure _) (fun _ => ?_) hfalse
    rw [Tx.auto_eq, Tx.bind_of_ok (Sql.beginDeliveryUnit_of_not_ready hready)]
    rfl
  case completeDeliveryUnit ordinal ids =>
    exact guarded_refused (hclaim.bind fun _ => .ensure _)
      (fun _ => h.updateDeliveryUnit rfl fun x => by simp [Sql.completeDeliveryUnit]) hfalse
  case rejectDeliveryUnit ordinal retryAfter =>
    have hcheck : Checks (checkRejection c ordinal retryAfter) := by
      refine hclaim.bind fun _ => (Checks.ensure _).bind fun _ => ?_
      cases retryAfter with
      | none => exact fun e he => by cases he
      | some delay => exact (Checks.retryAfterSeconds delay).map _
    cases hk : checkRejection c ordinal retryAfter with
    | error e =>
        rw [hcheck e hk] at hk
        exact .inr fun db => by simp [exec, Method.reply, rejectDeliveryUnit, hk, Except.map]
    | ok secs =>
        refine .inl ⟨_, .inr rfl, ?_⟩
        have : Storage.updateDeliveryUnit c.fence
            (fun live => Sql.rejectDeliveryUnit c.fence ordinal live (clock.tick 0))
            (fun batch => Sql.rejectDeliveryUnitOperation c.fence batch ordinal secs
              (clock.tick 1)) clock _ = (.ok false, _) :=
          h.updateDeliveryUnit rfl fun x => by simp [Sql.rejectDeliveryUnit]
        simp [exec, Method.reply, rejectDeliveryUnit, hk, this, Except.map]
  case unknownDeliveryUnit ordinal =>
    exact guarded_refused (hclaim.bind fun _ => .ensure _)
      (fun _ => h.updateDeliveryUnit rfl fun x => by simp [Sql.unknownDeliveryUnit]) hfalse
  case stopDeliveryBatch reason =>
    exact guarded_refused hclaim (fun _ => h.stopTransaction rfl) hfalse
  case requeueInvalidCache ordinal revision =>
    refine guarded_refused (r := .ok false) (hclaim.bind fun _ => .ensure _)
      (fun hcheck => ?_) hfalse
    split
    · rfl
    simp only [validateClaimCache, Tx.result_bind_eq_ok, ensure_eq_ok] at hcheck
    obtain ⟨target, ht⟩ := Option.isSome_iff_exists.mp hcheck.choose_spec.2
    simp only [ht, mediaCacheKey]
    exact requeueTransaction_of_not_live (h.misses le_rfl fun o hlive => by
      simp only [Sql.requeueEligible, Bool.and_eq_true] at hlive
      exact Sql.holds_of_delivering hlive.1.1.1.1.1.1.1)

/-! ## Runs -/

/-- The claim an event returned. -/
def Event.claim? : Event → Option Claim
  | .call _ _ _ (.ok (.claimed c)) => c
  | _ => none

/-- Since the claim, its operation was claimed again, requeued or finished, or its lease
ran out. -/
inductive Superseded (c : Claim) (es : List Event) (s : System) : Prop
  | reclaimed {e : Event} {c' : Claim} (mem : e ∈ es) (returned : e.claim? = some c')
      (same : c'.operationId = c.operationId)
  | expired {o : OperationRow} {t : Int}
      (found : s.db.operation c.operationId = some o) (lease : o.leaseExpiresAt = some t)
      (past : t ≤ s.now)
  | ended {o : OperationRow} (found : s.db.operation c.operationId = some o)
      (status : o.status.leased = false)

/-- The operation of the claim is there, and the claim is over. -/
def Claim.Over (c : Claim) (s : System) : Prop :=
  ∃ j, s.db.job c.operationId = some j ∧ c.Outlived s.now j.op

/-- A call that presents the claim can change the database. -/
def Claim.Acts (c : Claim) (s : System) : Prop :=
  ∃ call clock fresh, call.presents = some c ∧ s.now ≤ clock.tick 0 ∧
    (exec call clock fresh s.db).2 ≠ s.db

variable {c c' : Claim} {s t u v : System} {e : Event} {es es' : List Event}

theorem Claim.Over.run (h : c.Over s) (hr : Run Step s es t) : c.Over t := by
  refine hr.invariant ?_ h
  rintro v e w ⟨j, hj, ho⟩ hs
  obtain ⟨j', hj', hr⟩ := hs.evolves.kept hj
  have ho' : c.Outlived v.now j'.op :=
    hr.keep (I := fun i => c.Outlived v.now i.op) (fun _ hs h => h.step hs) ho
  exact ⟨j', hj', ho'.mono hs.now_le⟩

theorem Claim.Over.refused (h : c.Over s) (hc : call.presents = some c) {clock : Clock}
    (hclock : s.now ≤ clock.tick 0) (fresh : Uuid) :
    RefusedOrInvalid (exec call clock fresh) s.db := by
  obtain ⟨j, hj, ho⟩ := h
  refine exec_refused hc (fun o hop => ?_) fresh
  obtain rfl : j.op = o := Option.some.inj ((Db.job_eq_some.mp hj).1.symm.trans hop)
  exact ho.not_holds (Db.operation_check hop) hclock

theorem Claim.Over.not_acts (h : c.Over s) : ¬ c.Acts s := by
  rintro ⟨call, clock, fresh, hc, hclock, hne⟩
  rcases h.refused hc hclock fresh with ⟨r, -, hr⟩ | hr
  · exact hne (by rw [hr])
  · exact hne (by rw [hr])

/-- An attempt never goes back. -/
theorem attempt_le_of_run (hr : Run Step s es t) {id : Uuid} (hj : s.db.job id = some j) :
    ∃ j', t.db.job id = some j' ∧ j.op.attempt ≤ j'.op.attempt :=
  run_kept (R := fun j j' => j.op.attempt ≤ j'.op.attempt) (fun _ => le_rfl)
    (fun hle hs => hle.trans hs.attempt_le) hr hj

/-- A step that returns a claim leases its operation for the next attempt. -/
theorem Step.leased (h : Step s e t) (he : e.claim? = some c) :
    ∃ j, t.db.job c.operationId = some j ∧ Leased c j.op ∧
      ∀ {i}, s.db.job c.operationId = some i → i.op.attempt < j.op.attempt := by
  cases e with
  | other => cases he
  | call call clock fresh reply =>
      cases reply with
      | error _ => cases he
      | ok r =>
          cases r <;> cases he
          obtain ⟨db₁, j, j', hm, hmoved, -, hatt, hl⟩ := h.claimed
          refine ⟨j', hmoved.after, hl, fun {i} hi => ?_⟩
          obtain ⟨j₁, hj₁, hr⟩ := hm.kept hi
          obtain rfl : j = j₁ := Option.some.inj (hmoved.before.symm.trans hj₁)
          have : i.op.attempt ≤ j.op.attempt :=
            hr.keep (I := fun i' => i.op.attempt ≤ i'.op.attempt)
              (fun _ hs hle => hle.trans hs.attempt_le) le_rfl
          omega

/-- A claim is over when another claim of its operation is returned. -/
theorem over_of_reclaimed (hs : Step s e t) (he : e.claim? = some c) (hr : Run Step t es u)
    {e' : Event} (hs' : Step u e' v) (he' : e'.claim? = some c')
    (same : c'.operationId = c.operationId) : c.Over v := by
  obtain ⟨j, hj, hl, -⟩ := hs.leased he
  obtain ⟨j₁, hj₁, hle⟩ := attempt_le_of_run hr hj
  obtain ⟨j₂, hj₂, -, hlt⟩ := hs'.leased he'
  rw [same] at hj₂ hlt
  refine ⟨j₂, hj₂, .inl ?_⟩
  have := hlt hj₁
  have := hl.fence.1
  omega

/-- A claim that was superseded is over. -/
theorem Superseded.over (hs : Step s e t) (he : e.claim? = some c)
    (hr : Run Step t es u) (h : Superseded c es u) : c.Over u := by
  obtain ⟨j, hj, hl, -⟩ := hs.leased he
  obtain ⟨j', hj', hle⟩ := attempt_le_of_run hr hj
  rw [hl.fence.1] at hle
  have hover : ∀ {o}, u.db.operation c.operationId = some o →
      (o.status.leased = true → o.alive u.now = false) → c.Over u := by
    intro o ho hdead
    obtain rfl : j'.op = o := Option.some.inj ((Db.job_eq_some.mp hj').1.symm.trans ho)
    exact ⟨j', hj', hle.lt_or_eq.imp_right fun heq => ⟨heq.symm, hdead⟩⟩
  cases h with
  | @reclaimed e' c' mem returned same =>
      obtain ⟨es₁, es₂, rfl⟩ := List.append_of_mem mem
      obtain ⟨w, x, hw, hwx, hx⟩ := hr.split_at
      exact (over_of_reclaimed hs he hw hwx returned same).run hx
  | expired found lease past =>
      refine hover found fun _ => ?_
      simp only [OperationRow.alive, lease, Option.any_some, decide_eq_false_iff_not]
      omega
  | ended found status => exact hover found fun hl => by rw [status] at hl; cases hl

/-- **Lease fencing.** Once a returned claim is superseded, every later call that
presents it changes nothing, and is refused unless its arguments are invalid. Of the
claims of an operation at most one can change the database at any time. -/
theorem lease_fencing :
    (∀ {s u v w x : System} {es₀ es₁ es₂ : List Event} {e : Event} {c : Claim},
      Reaches s es₀ u → Step u e v → e.claim? = some c → Run Step v es₁ w →
      Superseded c es₁ w → Run Step w es₂ x →
      ∀ {call clock} (fresh : Uuid), call.presents = some c → x.now ≤ clock.tick 0 →
        RefusedOrInvalid (exec call clock fresh) x.db) ∧
    ∀ {s x : System} {es : List Event} {e e' : Event} {c c' : Claim}, Reaches s es x →
      e ∈ es → e' ∈ es → e.claim? = some c → e'.claim? = some c' →
      c'.operationId = c.operationId → c.Acts x → c'.Acts x → c = c' := by
  refine ⟨fun _ hs he hv hsup hw _ _ fresh hc hclock =>
    ((hsup.over hs he hv).run hw).refused hc hclock fresh, ?_⟩
  intro s x es e e' c c' h hmem hmem' he he' same hacts hacts'
  -- Whichever claim came first is over once the other one is returned.
  have hfirst : ∀ {es₁ es₂ e e' c c'}, es = es₁ ++ e :: es₂ → e' ∈ es₂ →
      e.claim? = some c → e'.claim? = some c' → c'.operationId = c.operationId →
      ¬ c.Acts x := by
    intro es₁ es₂ e e' c c' hes hmem he he' same
    obtain ⟨t, v, -, hs, hv⟩ := (hes ▸ h.2 : Run Step s (es₁ ++ e :: es₂) x).split_at
    exact ((Superseded.reclaimed hmem he' same).over hs he hv).not_acts
  obtain ⟨es₁, es₂, rfl⟩ := List.append_of_mem hmem
  rcases List.mem_append.mp hmem' with h₁ | h₂
  · obtain ⟨es₃, es₄, rfl⟩ := List.append_of_mem h₁
    exact absurd hacts' (hfirst (List.append_assoc ..) (by simp) he' he same.symm)
  · rcases List.mem_cons.mp h₂ with rfl | h₂
    · exact Option.some.inj (he.symm.trans he')
    · exact absurd hacts (hfirst rfl h₂ he he' same)

end

section

attribute [local instance] Scenario.platform

/-- The first attempt was claimed, and failed. -/
theorem superseded_retried : ∃ es₀ u e v c es₁,
    Reaches .initial es₀ u ∧ Step u e v ∧ e.claim? = some c ∧
      c.operationId = Scenario.operation ∧ Run Step v es₁ (play .initial Scenario.retried).2 ∧
      Superseded c es₁ (play .initial Scenario.retried).2 := by
  obtain ⟨c, hc, hid⟩ := (Option.any_eq_true _ _).mp (by decide +kernel :
    ((play .initial Scenario.retried).1[1]?.bind Event.claim?).any
      (fun c => decide (c.operationId = Scenario.operation)) = true)
  obtain ⟨o, ho, hs⟩ := (Option.any_eq_true _ _).mp (by decide +kernel :
    ((play .initial Scenario.retried).2.db.operation Scenario.operation).any
      (fun o => decide (o.status.leased = false)) = true)
  have hadmit : Reaches .initial _ _ :=
    play_reaches (by decide : inOrder 0 [Scenario.admitRequest Scenario.request])
  have htake :=
    play_step (by decide : (play .initial [Scenario.admitRequest Scenario.request]).2.now ≤
    (Scenario.take 2 2).now)
  have hfail := play_step (by decide :
    (play .initial [Scenario.admitRequest Scenario.request, Scenario.take 2 2]).2.now ≤
      (Scenario.act 3 (.fail (Scenario.held Scenario.request 1 2) true
        (some "source_unavailable"))).now)
  exact ⟨_, _, _, _, c, _, hadmit, htake, hc, of_decide_eq_true hid, .single hfail,
    .ended (of_decide_eq_true hid ▸ ho) (of_decide_eq_true hs)⟩

/-- A progress of 101 percent is invalid before it is stale. -/
theorem invalid_not_stale : ¬ ∀ {s u v w x : System} {es₀ es₁ es₂ : List Event}
    {e : Event} {c : Claim}, Reaches s es₀ u → Step u e v → e.claim? = some c →
    Run Step v es₁ w → Superseded c es₁ w → Run Step w es₂ x →
    ∀ {call clock} (fresh : Uuid), call.presents = some c → x.now ≤ clock.tick 0 →
      ∃ r, Refusal r ∧ exec call clock fresh x.db = (r, x.db) := by
  intro h
  obtain ⟨es₀, u, e, v, c, es₁, hu, hs, he, -, hv, hsup⟩ := superseded_retried
  have hcall : (Call.updateProgress c 101 .fetching).presents = some c := rfl
  obtain ⟨r, hr, hexec⟩ := h hu hs he hv hsup .nil (uuid 0) hcall
    (by decide : (play .initial Scenario.retried).2.now ≤ (Clock.still 4).tick 0)
  have hcheck : (do validateClaim c; ensure false) =
      (.error .invalidInput : Except StoreError Unit) := by
    cases hc : validateClaim c with
    | ok _ => rfl
    | error e =>
        rw [Checks.validateClaim c e hc]
        rfl
  have hr' : r = .error .invalidInput := by
    have := congrArg Prod.fst hexec
    simpa [exec, Method.reply, updateProgress, guarded, hcheck, Except.map] using this.symm
  subst hr'
  rcases hr with hr | hr <;> cases hr

/-- The worker of the failed attempt reports its progress. -/
theorem lease_fencing_retried : ∃ c : Claim, c.operationId = Scenario.operation ∧
    RefusedOrInvalid
      (exec (.updateProgress c 50 .fetching) (Clock.still 4) (uuid 0))
      (play .initial Scenario.retried).2.db := by
  obtain ⟨es₀, u, e, v, c, es₁, hu, hs, he, hid, hv, hsup⟩ := superseded_retried
  exact ⟨c, hid, lease_fencing.1 hu hs he hv hsup .nil (uuid 0) rfl (by decide)⟩

end

end YoinkCore.Storage
