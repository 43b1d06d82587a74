import YoinkCore.Storage.Accounting

/-!
# Units under a live claim

While a claim holds its operation, the journal refuses no unit that is next, small enough and
within the plan, and no answer that names as many messages. The guards of the statements and the
constraints of the tables are met in turn, so each call is accepted.
-/

namespace YoinkCore.Storage

open Lib Domain

/-! ## Rows -/

theorem getLast?_of_validMessageIds {ids : List Int} (h : validMessageIds ids = true) :
    ids.getLast? = some (ids.getLast?.getD 0) ∧ 0 < ids.getLast?.getD 0 := by
  simp only [validMessageIds, Bool.and_eq_true, Bool.not_eq_true', List.isEmpty_eq_false_iff,
    List.all_eq_true, decide_eq_true_eq] at h
  obtain ⟨⟨⟨hne, -⟩, hall⟩, -⟩ := h
  rw [List.getLast?_eq_some_getLast hne, Option.getD_some]
  exact ⟨rfl, (hall _ (List.getLast_mem hne)).1⟩

/-- What completing a unit of so many artifacts makes of the row of its operation. -/
theorem completed_row (f : Fence) {batch : List DeliveryUnitRow} {ordinal count : Nat}
    (lastId now : Int) (o : OperationRow) (h : Sql.sentCount batch ordinal = some count) :
    (Sql.completeDeliveryUnitOperation f batch ordinal lastId now).set o =
      if some (o.deliveredArtifactCount + count) = o.plannedArtifactCount then
        { o with
          workerId := none, leaseToken := none, leaseExpiresAt := none
          deliveredArtifactCount := o.deliveredArtifactCount + count
          updatedAt := now, deliveredMessageId := some lastId, status := .succeeded }
      else
        { o with
          deliveredArtifactCount := o.deliveredArtifactCount + count
          updatedAt := now, deliveredMessageId := none, status := .delivering } := by
  simp only [Sql.completeDeliveryUnitOperation, h, Option.getD_some, OperationRow.released]

/-- A row in delivery passes the check when a unit within the plan is completed. -/
theorem completed_check {f : Fence} {batch : List DeliveryUnitRow} {ordinal count planned : Nat}
    {lastId now : Int} {o : OperationRow} (h : Sql.sentCount batch ordinal = some count)
    (hcheck : o.check = true) (hstatus : o.status = .delivering)
    (hplan : o.plannedArtifactCount = some planned)
    (hfits : o.deliveredArtifactCount + count ≤ planned) (hlast : 0 < lastId) :
    ((Sql.completeDeliveryUnitOperation f batch ordinal lastId now).set o).check = true := by
  rw [completed_row _ _ _ _ h]
  simp only [OperationRow.check, OperationRow.leaseConsistent, OperationRow.messageConsistent,
    hstatus, hplan, Option.all_some, DownloaderSettings.within, Bool.and_eq_true,
    decide_eq_true_eq] at hcheck
  obtain ⟨⟨⟨⟨⟨hrest, hplanned⟩, hdelivered⟩, hkey⟩, hlease⟩, hmessage⟩ := hcheck
  have hhundred : o.deliveredArtifactCount + count ≤ 100 := hfits.trans hplanned.2
  by_cases hall : some (o.deliveredArtifactCount + count) = o.plannedArtifactCount
  · rw [if_pos hall]
    simp only [OperationRow.check, OperationRow.leaseConsistent, OperationRow.messageConsistent,
      hplan, Option.all_some, DownloaderSettings.within, Bool.and_eq_true, decide_eq_true_eq]
    refine ⟨⟨⟨⟨⟨hrest, hplanned⟩, hhundred⟩, hkey⟩, rfl⟩, ?_⟩
    exact (if_pos trivial).trans (decide_eq_true hlast)
  · rw [if_neg hall]
    simp only [OperationRow.check, OperationRow.leaseConsistent, OperationRow.messageConsistent,
      hplan, Option.all_some, DownloaderSettings.within, Bool.and_eq_true, decide_eq_true_eq]
    exact ⟨⟨⟨⟨⟨hrest, hplanned⟩, hhundred⟩, hkey⟩, hlease⟩, rfl⟩

variable [Platform]

/-! ## Statements that go through -/

/-- A statement on an operation goes through when its row passes the check afterwards. -/
theorem updateOperations_accepted {u : OperationUpdate} {id : Uuid} (hu : u.At id) {db : Db}
    {j : Job} (hj : db.job id = some j) (hc : u.cond j.op = true)
    (hcheck : (u.set j.op).check = true)
    (hkeys : ∀ o, (u.set o).actorId = o.actorId ∧ (u.set o).idempotencyKey = o.idempotencyKey) :
    ∃ db', updateOperations u db = .ok (1, db') ∧ db'.job id = some ⟨u.set j.op, j.units⟩ := by
  have hop := (Db.job_eq_some.mp hj).1
  obtain ⟨operations, n, hupdate⟩ := db.operations.update_of_keeps (p := u.cond) (f := u.set)
    (fun o ho hco => by
      rw [Option.some.inj (hop.symm.trans (Db.operation_eq_some.mpr ⟨ho, hu.target o hco⟩))]
        at hcheck
      exact hcheck)
    (fun a b hab => by
      have hsame : ∀ o, (if u.cond o then u.set o else o).id = o.id ∧
          (if u.cond o then u.set o else o).actorId = o.actorId ∧
          (if u.cond o then u.set o else o).idempotencyKey = o.idempotencyKey := by
        intro o
        split
        · exact ⟨hu.keeps o, hkeys o⟩
        · exact ⟨rfl, rfl, rfl⟩
      simpa only [operationSchema, hsame] using hab)
  have hok : updateOperations u db = .ok (n, { db with operations }) := by
    rw [updateOperations_eq, hupdate]
  rcases updateOperations_cases hu hok with ⟨rfl, -⟩ | ⟨rfl, j', hc', hmoved⟩
  · have hn := (updateOperations_of_ok hu hok).2.2
    rw [hop, Option.any_some, hc] at hn
    cases hn
  · obtain rfl := Option.some.inj (hj.symm.trans hmoved.before)
    exact ⟨_, hok, hmoved.after⟩

/-- A statement on the units of an operation goes through when those it hits pass the check
afterwards. -/
theorem updateUnits_accepted {v : UnitUpdate} {id : Uuid} (hv : v.At id) {db : Db} {j : Job}
    (hj : db.job id = some j)
    (hcheck : ∀ x ∈ j.units, v.cond x = true → x.check = true → (v.set x).check = true) :
    ∃ db', updateUnits v db = .ok (j.units.countP v.cond, db') ∧
      db'.job id = some ⟨j.op, v.apply j.units⟩ := by
  obtain ⟨hop, hunits⟩ := Db.job_eq_some.mp hj
  obtain ⟨deliveryUnits, n, hupdate⟩ := db.deliveryUnits.update_of_keeps (p := v.cond) (f := v.set)
    (fun x hx hcx => by
      refine hcheck x ?_ hcx (db.deliveryUnits.checked x hx)
      rw [← hunits]
      exact Db.mem_unitsOf.mpr ⟨hx, hv.target x hcx⟩)
    (fun a b hab => by
      have hsame : ∀ x, (if v.cond x then v.set x else x).key = x.key := by
        intro x
        split
        · exact hv.keeps x
        · rfl
      simpa only [deliveryUnitSchema, hsame] using hab)
  have hok : updateUnits v db = .ok (n, { db with deliveryUnits }) := by
    rw [updateUnits_eq, hupdate]
  obtain ⟨hop', hunits', -, hn⟩ := updateUnits_of_ok hv hok
  rw [hunits] at hunits' hn
  exact ⟨_, hn ▸ hok, Db.job_eq_some.mpr ⟨(hop' id).trans hop, hunits'⟩⟩

theorem guarded_of_ok {α : Type} {check : Except StoreError Unit} (h : check = .ok ())
    (m : Method α) (db : Db) : guarded check m db = m db := by
  rw [h]
  rfl

/-! ## A live claim -/

/-- The operation of a claim is running, nobody cancelled it, and the lease lasts until after an
instant. -/
structure Claim.Live (c : Claim) (now : Int) (o : OperationRow) : Prop where
  valid : validateClaim c = .ok ()
  holds : c.fence.holds now o = true
  running : o.status = .running
  wanted : o.cancelRequested = false

/-- Some units of the attempt of a claim are sent, and no other is begun. -/
structure Sending (c : Claim) (now : Int) (planned sent delivered : Nat) (j : Job) : Prop where
  valid : validateClaim c = .ok ()
  holds : c.fence.holds now j.op = true
  delivering : j.op.status = .delivering
  wanted : j.op.cancelRequested = false
  plan : j.op.plannedArtifactCount = some planned
  account : j.op.deliveredArtifactCount = delivered
  all_sent : ∀ u ∈ j.current, u.status = .sent
  units : j.current.length = sent

theorem Claim.attempt_of_holds {c : Claim} {now : Int} {o : OperationRow}
    (h : c.fence.holds now o = true) : o.attempt = c.attempt := by
  simp only [Fence.holds, Bool.and_eq_true, decide_eq_true_eq] at h
  exact h.1.1.1.2

/-- A batch within the limits is begun. -/
theorem beginDeliveryBatch_accepted {c : Claim} {total : Nat} {clock : Clock} {db : Db} {j : Job}
    (hj : db.job c.operationId = some j) (hsound : Sound j) {now : Int}
    (hlive : c.Live now j.op) (hclock : clock.tick 0 ≤ now)
    (htotal : DownloaderSettings.within 1 100 total = true) :
    ∃ db' j', beginDeliveryBatch c total clock db = (.ok true, db') ∧
      db'.job c.operationId = some j' ∧ Sending c now total 0 0 j' := by
  have hcheck := Db.operation_check (Db.job_eq_some.mp hj).1
  have hholds := Fence.holds_earlier hlive.holds hclock
  have hpos : 1 ≤ total := by
    simp only [DownloaderSettings.within, Bool.and_eq_true, decide_eq_true_eq] at htotal
    exact htotal.1
  have hat : (Sql.beginDeliveryBatch c.fence total (clock.tick 0)).At c.operationId :=
    (WorkerStatement.beginBatch total hpos).fenced.at
  obtain ⟨db', hok, hjob⟩ := updateOperations_accepted hat hj
    (by simp [Sql.beginDeliveryBatch, hholds, hlive.running, hlive.wanted])
    (by
      simp only [OperationRow.check, OperationRow.leaseConsistent, OperationRow.messageConsistent,
        hlive.running, Bool.and_eq_true] at hcheck
      simp only [OperationRow.check, OperationRow.leaseConsistent, OperationRow.messageConsistent,
        Sql.beginDeliveryBatch, Option.all_some, htotal, Bool.and_eq_true]
      exact ⟨⟨⟨⟨⟨hcheck.1.1.1.1.1, trivial⟩, rfl⟩, hcheck.1.1.2⟩, hcheck.1.2⟩, hcheck.2⟩)
    fun o => ⟨rfl, rfl⟩
  refine ⟨db', _, ?_, hjob, ?_⟩
  · have hargs : (do
        validateClaim c
        ensure (DownloaderSettings.within 1 100 total) : Except StoreError Unit) = .ok () := by
      rw [hlive.valid, htotal]
      rfl
    unfold beginDeliveryBatch
    rw [guarded_of_ok hargs]
    exact Tx.auto_eq_ok.mpr (Tx.bind_of_ok hok)
  · have hcur : Job.current ⟨(Sql.beginDeliveryBatch c.fence total (clock.tick 0)).set j.op,
        j.units⟩ = [] := by
      refine List.filter_eq_nil_iff.mpr fun u hu => ?_
      have := (hsound.running hlive.running).1 u hu
      simp only [decide_eq_true_eq]
      exact Nat.ne_of_lt this
    refine ⟨hlive.valid, hlive.holds, rfl, hlive.wanted, rfl, rfl, ?_, ?_⟩
    · rw [hcur]
      exact fun _ hu => absurd hu List.not_mem_nil
    · rw [hcur]
      rfl

namespace Sending

variable {c : Claim} {now : Int} {planned sent delivered : Nat} {j : Job}

theorem attempt (h : Sending c now planned sent delivered j) : j.op.attempt = c.attempt :=
  Claim.attempt_of_holds h.holds

theorem current (h : Sending c now planned sent delivered j) : j.batch c.attempt = j.current := by
  rw [Job.current, h.attempt]

theorem journal (h : Sending c now planned sent delivered j) (hsound : Sound j) :
    Journal planned delivered j.current := by
  rw [← h.account]
  exact hsound.journal planned h.plan

/-- The next ordinal is not used yet. -/
theorem ordinal_ne (h : Sending c now planned sent delivered j) (hsound : Sound j) :
    ∀ u ∈ j.current, u.ordinal ≠ sent := by
  intro u hu
  have hmem := List.mem_map_of_mem (f := DeliveryUnitRow.ordinal) hu
  rw [(h.journal hsound).ordinals, List.mem_range, h.units] at hmem
  exact Nat.ne_of_lt hmem

theorem sentCount (h : Sending c now planned sent delivered j) (hsound : Sound j)
    {y : DeliveryUnitRow} (hordinal : y.ordinal = sent) (hstatus : y.status = .sent) :
    Sql.sentCount (j.current ++ [y]) sent = some y.artifactCount := by
  have hnone : j.current.find? (fun u => decide (u.ordinal = sent) && u.status == .sent) = none :=
    List.find?_eq_none.mpr fun u hu => by simp [h.ordinal_ne hsound u hu]
  rw [Sql.sentCount, List.find?_append, hnone]
  simp [hordinal, hstatus]

theorem before (h : Sending c now planned sent delivered j) (hsound : Sound j)
    {y : DeliveryUnitRow} (hordinal : y.ordinal = sent) :
    (j.current ++ [y]).filter (fun u => decide (u.ordinal ≠ sent)) = j.current := by
  rw [List.filter_append, List.filter_cons_of_neg (by simp [hordinal]), List.filter_nil,
    List.append_nil, List.filter_eq_self]
  exact fun u hu => decide_eq_true (h.ordinal_ne hsound u hu)

end Sending

/-- The next unit is begun, when it is small enough and within the plan. -/
theorem beginDeliveryUnit_accepted {c : Claim} {count : Nat} {clock : Clock} {db : Db} {j : Job}
    (hj : db.job c.operationId = some j) (hsound : Sound j) {now : Int}
    {planned sent delivered : Nat} (h : Sending c now planned sent delivered j)
    (hclock : clock.tick 0 ≤ now) (hsent : sent ≤ 99) (hpos : 1 ≤ count) (hten : count ≤ 10)
    (hfits : delivered + count ≤ planned) :
    ∃ db', beginDeliveryUnit c sent count clock db = (.ok true, db') ∧
      db'.job c.operationId =
        some ⟨j.op, j.units ++ [Sql.begunUnit c.fence sent count (clock.tick 0)]⟩ := by
  obtain ⟨hop, hunits⟩ := Db.job_eq_some.mp hj
  have hjournal := h.journal hsound
  have hbatch : db.batch c.operationId c.attempt = j.current := by
    rw [Db.batch_of_job hj, h.current]
  have hready : (db.operation c.fence.operationId).any (Sql.beginUnitReady c.fence
      (db.batch c.fence.operationId c.fence.attempt) sent count (clock.tick 0)) = true := by
    show (db.operation c.operationId).any (Sql.beginUnitReady c.fence
      (db.batch c.operationId c.attempt) sent count (clock.tick 0)) = true
    rw [hop, hbatch, Option.any_some]
    simp only [Sql.beginUnitReady, Bool.and_eq_true, decide_eq_true_eq, beq_iff_eq,
      Option.any_eq_true, List.all_eq_true, Bool.not_eq_true']
    refine ⟨⟨⟨⟨⟨⟨⟨Fence.holds_earlier h.holds hclock, h.delivering⟩, h.wanted⟩, ?_⟩, ?_⟩, hten⟩,
      planned, h.plan, ?_⟩, h.all_sent⟩
    · rw [hjournal.nextOrdinal, h.units]
    · rw [h.account]
      exact hjournal.total
    · rw [h.account]
      exact hfits
  -- no unit of this attempt has the next ordinal
  have hfresh : ∀ v ∈ db.deliveryUnits.rows,
      v.key ≠ (Sql.begunUnit c.fence sent count (clock.tick 0)).key := by
    intro v hv hkey
    have hk : v.operationId = c.operationId ∧ v.attempt = c.attempt ∧ v.ordinal = sent := by
      simpa only [DeliveryUnitRow.key, Sql.begunUnit, Claim.fence, Prod.mk.injEq] using hkey
    obtain ⟨hid, hattempt, hordinal⟩ := hk
    have hmem : v ∈ j.current := by
      refine Job.mem_current.mpr ⟨?_, hattempt.trans h.attempt.symm⟩
      rw [← hunits]
      exact Db.mem_unitsOf.mpr ⟨hv, hid⟩
    exact h.ordinal_ne hsound v hmem hordinal
  have hattempt : 0 < c.attempt := by
    have hvalid := h.valid
    simp only [validateClaim, Tx.result_bind_eq_ok, ensure_eq_ok, DownloaderSettings.within,
      Bool.and_eq_true, decide_eq_true_eq] at hvalid
    exact hvalid.choose_spec.2.1
  obtain ⟨deliveryUnits, hinsert⟩ := db.deliveryUnits.insert_of_apart
    (r := Sql.begunUnit c.fence sent count (clock.tick 0))
    (by
      simp only [deliveryUnitSchema, DeliveryUnitRow.check, DeliveryUnitRow.messagesConsistent,
        Sql.begunUnit, Claim.fence, DownloaderSettings.within, Bool.and_eq_true, decide_eq_true_eq]
      exact ⟨⟨⟨hattempt, hsent⟩, hpos, hten⟩, rfl⟩)
    (fun v hv => decide_eq_false (hfresh v hv))
  have hbody : Sql.beginDeliveryUnit c.fence sent count (clock.tick 0) db =
      .ok (1, { db with deliveryUnits }) := by
    have hany : ¬ (db.deliveryUnits.rows.any fun v =>
        decide (v.key = (Sql.begunUnit c.fence sent count (clock.tick 0)).key)) = true := by
      rw [List.any_eq_true]
      rintro ⟨v, hv, hkey⟩
      exact hfresh v hv (of_decide_eq_true hkey)
    refine (Tx.bind_of_ok (rfl : (get : Stmt Db) db = .ok (db, db))).trans ?_
    rw [if_pos hready, if_neg hany]
    simp only [hinsert]
    rfl
  have hargs : (do
      validateClaim c
      ensure (decide (sent ≤ 99) && DownloaderSettings.within 1 10 count) :
        Except StoreError Unit) = .ok () := by
    rw [h.valid, decide_eq_true hsent, DownloaderSettings.within, decide_eq_true hpos,
      decide_eq_true hten]
    rfl
  refine ⟨{ db with deliveryUnits }, ?_, Db.job_eq_some.mpr ⟨hop, ?_⟩⟩
  · unfold beginDeliveryUnit
    rw [guarded_of_ok hargs]
    exact Tx.auto_eq_ok.mpr (Tx.bind_of_ok hbody)
  · show (deliveryUnits.rows.filter _) = _
    rw [Table.insert_eq_some.mp hinsert, List.filter_append, ← hunits]
    congr 1
    exact List.filter_cons_of_pos (decide_eq_true rfl)

/-- Both statements of an outcome go through, and the transaction commits. -/
theorem updateDeliveryUnit_accepted {f : Fence} (unit : Bool → UnitUpdate)
    (operation : List DeliveryUnitRow → OperationUpdate) {clock : Clock} {db db₁ db₂ : Db}
    (hlive : (db.operation f.operationId).any (Sql.delivering f (clock.tick 0)) = true)
    (hn : updateUnits (unit true) db = .ok (1, db₁))
    (hm : updateOperations (operation (db₁.batch f.operationId f.attempt)) db₁ = .ok (1, db₂)) :
    updateDeliveryUnit f unit operation clock db = (.ok true, db₂) := by
  refine Tx.run_of_commit ?_
  refine (Tx.bind_of_ok (rfl : (get : Stmt Db) db = .ok (db, db))).trans ?_
  rw [hlive]
  refine (Tx.bind_of_ok hn).trans ?_
  refine (Tx.bind_of_ok (rfl : (get : Stmt Db) db₁ = .ok (db₁, db₁))).trans ?_
  exact (Tx.bind_of_ok hm).trans rfl

/-- A unit with its messages. -/
def sentUnit (f : Fence) (ordinal count : Nat) (ids : List Int) (t t' : Int) : DeliveryUnitRow :=
  (Sql.completeDeliveryUnit f ordinal ids true t').set (Sql.begunUnit f ordinal count t)

/-- The messages of the unit on its way are taken, and the sent units stay. -/
theorem completeDeliveryUnit_taken {c : Claim} {count : Nat} {t : Int} (t' : Int) {db : Db}
    {j : Job} {now : Int} {planned sent delivered : Nat}
    (h : Sending c now planned sent delivered j)
    (hj : db.job c.operationId = some ⟨j.op, j.units ++ [Sql.begunUnit c.fence sent count t]⟩)
    {ids : List Int} (hids : validMessageIds ids = true) (hlen : ids.length = count) :
    ∃ db', updateUnits (Sql.completeDeliveryUnit c.fence sent ids true t') db = .ok (1, db') ∧
      db'.job c.operationId =
        some ⟨j.op, j.units ++ [sentUnit c.fence sent count ids t t']⟩ := by
  have hhit : (Sql.completeDeliveryUnit c.fence sent ids true t').cond
      (Sql.begunUnit c.fence sent count t) = true := by
    simp only [validMessageIds, Bool.and_eq_true] at hids
    simp only [Sql.completeDeliveryUnit, Sql.inFlight, Sql.begunUnit, DeliveryUnitRow.key, hlen,
      hids.1.2, hids.2, decide_true, beq_self_eq_true, Bool.and_self]
  have hmiss : ∀ u ∈ j.units,
      ¬ (Sql.completeDeliveryUnit c.fence sent ids true t').cond u = true := by
    intro u hu hc
    simp only [Sql.completeDeliveryUnit, Sql.inFlight, DeliveryUnitRow.key, Bool.and_eq_true,
      decide_eq_true_eq, beq_iff_eq, Prod.mk.injEq] at hc
    obtain ⟨⟨⟨⟨⟨⟨-, hattempt, -⟩, hsending⟩, -⟩, -⟩, -⟩, -⟩ := hc
    rw [h.all_sent u (Job.mem_current.mpr ⟨hu, hattempt.trans h.attempt.symm⟩)] at hsending
    cases hsending
  have hat : (Sql.completeDeliveryUnit c.fence sent ids true t').At c.operationId :=
    (@Outcome.complete c.fence t' t' sent ids _ (getLast?_of_validMessageIds hids).1).aimed.1
  obtain ⟨db', hok, hjob⟩ := updateUnits_accepted hat hj (by
    intro w _ hcw hcheck
    simp only [Sql.completeDeliveryUnit, Bool.and_eq_true, decide_eq_true_eq] at hcw
    simp only [DeliveryUnitRow.check, Bool.and_eq_true] at hcheck
    simp only [DeliveryUnitRow.check, DeliveryUnitRow.messagesConsistent, Sql.completeDeliveryUnit,
      hcheck, if_true, Option.any_some, hcw.1.1.1.2, decide_true, Bool.and_self])
  rw [List.countP_append, List.countP_eq_zero.mpr hmiss, List.countP_singleton, if_pos hhit,
    Nat.zero_add] at hok
  refine ⟨db', hok, hjob.trans ?_⟩
  rw [UnitUpdate.apply, List.map_append, List.map_singleton, if_pos hhit,
    List.map_congr_left fun u hu => if_neg (hmiss u hu), List.map_id']
  rfl

/-- The messages of the unit on its way are taken, and with those of the last unit the operation
succeeds. -/
theorem completeDeliveryUnit_accepted {c : Claim} {count : Nat} {t : Int} {clock : Clock} {db : Db}
    {j : Job} {now : Int} {planned sent delivered : Nat} (hsound : Sound j)
    (h : Sending c now planned sent delivered j)
    (hj : db.job c.operationId = some ⟨j.op, j.units ++ [Sql.begunUnit c.fence sent count t]⟩)
    (hclock : clock.tick 1 ≤ now) (hsent : sent ≤ 99) (hfits : delivered + count ≤ planned)
    {ids : List Int} (hids : validMessageIds ids = true) (hlen : ids.length = count) :
    ∃ db' j', completeDeliveryUnit c sent ids clock db = (.ok true, db') ∧
      db'.job c.operationId = some j' ∧
      (delivered + count = planned → j'.op.status = .succeeded) ∧
      (delivered + count ≠ planned → Sending c now planned (sent + 1) (delivered + count) j') := by
  have hlive := Fence.holds_earlier h.holds ((clock.mono 0 1 (Nat.zero_le 1)).trans hclock)
  have hcheck := Db.operation_check (Db.job_eq_some.mp hj).1
  obtain ⟨hlast, hpositive⟩ := getLast?_of_validMessageIds hids
  obtain ⟨db₁, hn, hj₁⟩ := completeDeliveryUnit_taken (clock.tick 0) h hj hids hlen
  generalize hy : sentUnit c.fence sent count ids t (clock.tick 0) = y at hj₁
  have hsettled : y.ordinal = sent ∧ y.status = .sent ∧ y.artifactCount = count ∧
      y.attempt = c.attempt := by
    rw [← hy]
    exact ⟨rfl, rfl, rfl, rfl⟩
  obtain ⟨hordinal, hstatus, hartifacts, hattempt⟩ := hsettled
  have hcur : Job.current ⟨j.op, j.units ++ [y]⟩ = j.current ++ [y] := by
    rw [Job.current, Job.batch, List.filter_append]
    congr 1
    exact List.filter_cons_of_pos (decide_eq_true (hattempt.trans h.attempt.symm))
  have hsentCount : Sql.sentCount (j.current ++ [y]) sent = some count := by
    rw [h.sentCount hsound hordinal hstatus, hartifacts]
  have hbatch : db₁.batch c.operationId c.attempt = j.current ++ [y] := by
    rw [Db.batch_of_job hj₁, ← hcur, Job.current]
    exact congrArg _ h.attempt.symm
  have hat : (Sql.completeDeliveryUnitOperation c.fence (j.current ++ [y]) sent
      (ids.getLast?.getD 0) (clock.tick 1)).At c.operationId :=
    ((@Outcome.complete c.fence (clock.tick 0) (clock.tick 1) sent ids _ hlast).aimed.2
      (j.current ++ [y])).at
  have hset := completed_row c.fence (ids.getLast?.getD 0) (clock.tick 1) j.op hsentCount
  obtain ⟨db₂, hm, hj₂⟩ := updateOperations_accepted hat hj₁
    (by
      simp only [Sql.completeDeliveryUnitOperation, Sql.delivering,
        Fence.holds_earlier h.holds hclock, h.delivering, hsentCount, h.before hsound hordinal,
        h.account, ← (h.journal hsound).total, beq_self_eq_true, Option.isSome_some, decide_true,
        Bool.and_self])
    (completed_check hsentCount hcheck h.delivering h.plan (by rwa [h.account]) hpositive)
    (by
      intro o
      rw [completed_row _ _ _ _ hsentCount]
      split <;> exact ⟨rfl, rfl⟩)
  rw [hset, h.account, h.plan] at hj₂
  refine ⟨db₂, _, ?_, hj₂, fun hall => ?_, fun hmore => ?_⟩
  · have hargs : (do
        validateClaim c
        ensure (decide (sent ≤ 99) && validMessageIds ids) : Except StoreError Unit) = .ok () := by
      rw [h.valid, decide_eq_true hsent, hids]
      rfl
    have hdelivering : (db.operation c.operationId).any
        (Sql.delivering c.fence (clock.tick 0)) = true := by
      rw [(Db.job_eq_some.mp hj).1, Option.any_some, Sql.delivering, hlive, h.delivering]
      rfl
    rw [← hbatch] at hm
    unfold completeDeliveryUnit
    rw [guarded_of_ok hargs]
    exact updateDeliveryUnit_accepted _ _ hdelivering hn hm
  · rw [if_pos (congrArg some hall)]
  · rw [if_neg (fun heq => hmore (Option.some.inj heq))]
    refine ⟨h.valid, h.holds, rfl, h.wanted, rfl, rfl, fun u hu => ?_, ?_⟩
    · rcases List.mem_append.mp (hcur ▸ hu : u ∈ j.current ++ [y]) with hu | hu
      · exact h.all_sent u hu
      · rw [List.mem_singleton.mp hu]
        exact hstatus
    · show (Job.current ⟨j.op, j.units ++ [y]⟩).length = sent + 1
      rw [hcur, List.length_append, h.units]
      rfl

end YoinkCore.Storage
