import YoinkCore.Storage.Delivery

/-!
# Accounting of batches

In the batch protocol an operation succeeds exactly when its last planned artifact
arrives. The unit on its way is accounted for by every way out of delivery but one:
a cancelling stop marks it only after the user asked for the cancel, while it ends
the batch in any case.
-/

namespace YoinkCore.Storage

open Lib Domain

/-! ## Success -/

/-- Success and the planned number of artifacts. -/
structure Finished (j : Job) : Prop where
  done : ∀ p, j.op.plannedArtifactCount = some p →
    (j.op.status = .succeeded ↔ j.op.deliveredArtifactCount = p)
  message : ∀ p, j.op.plannedArtifactCount = some p → j.op.status = .succeeded →
    ∃ u ids id, j.current.getLast? = some u ∧ u.messageIds = some ids ∧
      ids.getLast? = some id ∧ j.op.deliveredMessageId = some id

namespace Finished

variable {o o' : OperationRow} {units units' : List DeliveryUnitRow}

/-- An unfinished operation that stays unfinished, with the same counters. -/
theorem unfinished (h : Finished ⟨o, units⟩) (hs : o.status ≠ .succeeded)
    (hs' : o'.status ≠ .succeeded)
    (hp : o'.plannedArtifactCount = o.plannedArtifactCount ∧
        o'.deliveredArtifactCount = o.deliveredArtifactCount ∨
      o'.plannedArtifactCount = none) : Finished ⟨o', units'⟩ := by
  constructor
  · intro p hpp
    rcases hp with ⟨hp, hd⟩ | hp
    · have hne : o.deliveredArtifactCount ≠ p := fun he => hs ((h.done p (hp ▸ hpp)).mpr he)
      exact ⟨fun hst => absurd hst hs', fun he => absurd (hd ▸ he) hne⟩
    · rw [show Job.op ⟨o', units'⟩ = o' from rfl, hp] at hpp
      cases hpp
  · intro p _ hst
    exact absurd hst hs'

/-- Without a plan there is nothing to account for. -/
theorem unplanned (h : o.plannedArtifactCount = none) : Finished ⟨o, units⟩ := by
  constructor <;> intro p hp <;> simp [h] at hp

theorem single {k : Kind} {now : Int} {u : OperationUpdate} (h : Finished ⟨o, units⟩)
    (hj : Sound ⟨o, units⟩) (hk : k.singleMessage = false) (hs : Single now k u)
    (hc : u.cond o = true) : Finished ⟨u.set o, units⟩ := by
  have hrun : o.status = .running → o.plannedArtifactCount = none := fun hr =>
    (hj.running hr).2.1
  cases hs with
  | worker hw =>
      cases hw with
      | heartbeat secs =>
          exact h.unfinished (by grind [OperationStatus.leased])
            (by grind [OperationStatus.leased]) (.inl ⟨rfl, rfl⟩)
      | progress percent stage => exact unplanned (hrun (by grind))
      | complete => exact unplanned (hrun (by grind))
      | fail retryable code => exact unplanned (hrun (by grind))
      | ackCancel => exact unplanned (hrun (by grind))
      | beginBatch total positive =>
          refine ⟨fun p hp => ⟨fun hst => ?_, fun he => ?_⟩, fun p _ hst => ?_⟩
          · cases hst
          · have hp : total = p := Option.some.inj hp
            have he : 0 = p := he
            omega
          · cases hst
      | _ => simp [Kind.singleMessage] at hk
  | cancel =>
      exact h.unfinished (by grind [OperationStatus.pending])
        (by grind [OperationStatus.pending]) (.inl ⟨rfl, rfl⟩)
  | claim | claimForBot => exact unplanned rfl

theorem complete {f : Fence} {ordinal : Nat} {ids : List Int} {lastId now now' : Int}
    (hj : Sound ⟨o, units⟩) (hlast : ids.getLast? = some lastId)
    (ha : o.attempt = f.attempt) (hs : o.status = .delivering) {v : UnitUpdate}
    (hv : v = Sql.completeDeliveryUnit f ordinal ids true now)
    (hit : ∃ x ∈ units, v.cond x = true) :
    Finished ⟨(Sql.completeDeliveryUnitOperation f (Job.batch ⟨o, v.apply units⟩ f.attempt)
      ordinal lastId now').set o, v.apply units⟩ := by
  obtain ⟨p, init, x, hp, hcur, -, -, hcount, -⟩ := hj.completeUnit ha hs hv hit
  rw [← ha, show Job.batch ⟨o, v.apply units⟩ o.attempt = Job.current ⟨o, v.apply units⟩
    from rfl]
  generalize hb : Job.current ⟨o, v.apply units⟩ = batch at hcur hcount
  have hids : (v.set x).messageIds = some ids := by rw [hv]; rfl
  by_cases hall : some (o.deliveredArtifactCount + x.artifactCount) = o.plannedArtifactCount
  · have hset : (Sql.completeDeliveryUnitOperation f batch ordinal lastId now').set o =
        { o with
          workerId := none, leaseToken := none, leaseExpiresAt := none
          deliveredArtifactCount := o.deliveredArtifactCount + x.artifactCount
          updatedAt := now', deliveredMessageId := some lastId, status := .succeeded } := by
      simp [Sql.completeDeliveryUnitOperation, hcount, hall, OperationRow.released]
    rw [hset]
    refine ⟨fun p' hp' => ⟨fun _ => ?_, fun _ => rfl⟩, fun p' _ _ => ?_⟩
    · exact Option.some.inj (hall.trans hp')
    · refine ⟨v.set x, ids, lastId, ?_, hids, hlast, rfl⟩
      show (Job.current ⟨o, v.apply units⟩).getLast? = _
      rw [hb, hcur, List.getLast?_concat]
  · have hset : (Sql.completeDeliveryUnitOperation f batch ordinal lastId now').set o =
        { o with
          deliveredArtifactCount := o.deliveredArtifactCount + x.artifactCount
          updatedAt := now', deliveredMessageId := none, status := .delivering } := by
      simp [Sql.completeDeliveryUnitOperation, hcount, hall]
    rw [hset]
    refine ⟨fun p' hp' => ⟨fun hst => ?_, fun he => ?_⟩, fun p' _ hst => ?_⟩
    · cases hst
    · have hp' : o.plannedArtifactCount = some p' := hp'
      exact absurd (hp'.trans (congrArg some he.symm)).symm hall
    · cases hst

/-- Every step of the batch protocol keeps the account. -/
theorem step {t : Int} {k : Kind} {j j' : Job} (h : Finished j) (hj : Sound j)
    (hk : k.singleMessage = false) (hs : JobStep t k j j') : Finished j' := by
  cases hs with
  | single hs _ hc => exact h.single hj hk hs hc
  | expire _ units hu u hu' hc =>
      subst hu'
      exact h.unfinished (by grind [OperationStatus.leased]) (by grind) (.inl ⟨rfl, rfl⟩)
  | beginUnit _ positive hc =>
      exact h.unfinished (by grind) (by grind) (.inl ⟨rfl, rfl⟩)
  | @outcome k f now now' v u j ho _ _ live hit units hu hc =>
      obtain ⟨o, us⟩ := j
      simp only at live hit hu hc ⊢
      subst hu
      cases ho with
      | complete ordinal ids lastId last =>
          exact complete hj last (by grind) (by grind) rfl hit
      | reject ordinal retryAfterSecs =>
          exact h.unfinished (by grind) (by grind) (.inl ⟨rfl, rfl⟩)
      | unknown ordinal => exact h.unfinished (by grind) (by grind) (.inl ⟨rfl, rfl⟩)
  | stop _ _ units hu u hu' hc =>
      subst hu'
      exact h.unfinished (by grind) (by grind) (.inl ⟨rfl, rfl⟩)
  | requeue _ _ _ _ _ _ units hu u hu' hc =>
      subst hu'
      exact unplanned rfl

end Finished

theorem Admitted.finished {o : OperationRow} (h : Admitted o) : Finished ⟨o, []⟩ :=
  Finished.unplanned h.planned

/-! ## The unit on its way -/

/-- A unit on its way belongs to the attempt that is being delivered. -/
def InFlight (j : Job) : Prop :=
  ∀ u ∈ j.units, u.status = .sending →
    u.attempt = j.op.attempt ∧ j.op.status = .delivering

namespace InFlight

variable {o o' : OperationRow} {units : List DeliveryUnitRow}

theorem none_sending (h : ∀ u ∈ units, u.attempt = o.attempt → u.status ≠ .sending)
    (hp : ∀ u ∈ units, u.attempt = o.attempt ∨ u.status ≠ .sending) :
    InFlight ⟨o', units⟩ := by
  intro u hu hs
  rcases hp u hu with ha | hn
  · exact absurd hs (h u hu ha)
  · exact absurd hs hn

theorem single {k : Kind} {now : Int} {u : OperationUpdate} (h : InFlight ⟨o, units⟩)
    (hk : k.singleMessage = false) (hs : Single now k u) (hc : u.cond o = true) :
    InFlight ⟨u.set o, units⟩ := by
  intro w hw hws
  obtain ⟨ha, hdel⟩ := h w hw hws
  simp only at ha hdel
  cases hs with
  | worker hs => cases hs <;> first | grind | simp [Kind.singleMessage] at hk
  | cancel => grind
  | claim => grind
  | claimForBot => grind

/-- A statement that hits the unit on its way takes it off its way. -/
theorem hit (h : InFlight ⟨o, units⟩) (hj : Sound ⟨o, units⟩) (hs : o.status = .delivering)
    {v : UnitUpdate}
    (htarget : ∀ u, v.cond u = true → u.attempt = o.attempt ∧ u.status = .sending)
    (hset : ∀ u, (v.set u).status ≠ .sending) (hit : ∃ x ∈ units, v.cond x = true) :
    InFlight ⟨o', v.apply units⟩ := by
  intro x hx hxs
  exfalso
  have hxa : x.attempt = o.attempt := by
    obtain ⟨u, hu, rfl⟩ := UnitUpdate.mem_apply.mp hx
    split at hxs
    · exact absurd hxs (hset u)
    · rename_i hc
      rw [if_neg hc]
      exact (h u hu hxs).1
  rcases hj.hit_last hs htarget hit x hx hxa with hx | ⟨u, -, -, rfl⟩
  · rw [hx] at hxs
    cases hxs
  · exact hset u hxs

/-- Marking every unit on its way leaves none. -/
theorem mark (h : InFlight ⟨o, units⟩) {v : UnitUpdate} {a : Nat} (hv : v.Settles a)
    (hn : ∀ x ∈ v.apply units, x.attempt = o.attempt → x.status ≠ .sending) :
    InFlight ⟨o', v.apply units⟩ := by
  refine none_sending hn fun x hx => ?_
  by_cases hs : x.status = .sending
  · left
    obtain ⟨u, hu, rfl⟩ := UnitUpdate.mem_apply.mp hx
    split at hs
    · rcases hv.settled u with h | h <;> simp [h] at hs
    · rename_i hc
      rw [if_neg hc]
      exact (h u hu hs).1
  · exact .inr hs

/-- The stop ends a batch of an operation nobody cancelled while a unit of it is on its
way. -/
def Orphans (k : Kind) (j : Job) : Prop :=
  ∃ f now, k = .stop f .cancel now ∧ Sql.delivering f now j.op = true ∧
    j.op.cancelRequested = false ∧ ∃ u ∈ j.current, u.status = .sending

/-- Every step of the batch protocol but such a stop accounts for the unit. -/
theorem step {t : Int} {k : Kind} {j j' : Job} (h : InFlight j) (hj : Sound j)
    (hk : k.singleMessage = false) (ho : ¬ Orphans k j) (hs : JobStep t k j j') :
    InFlight j' := by
  cases hs with
  | single hs _ hc => exact h.single hk hs hc
  | @expire j now now' _ units hu u hu' hc =>
      obtain ⟨o, us⟩ := j
      have hv : (Sql.expireLeaseUnits o.id o.attempt now).Settles o.attempt := by
        constructor <;> intro x <;> first | rfl | grind
      rw [hu]
      refine h.mark hv (Sound.marked hv fun x hx hxa hxs => ?_)
      have := hj.owned x hx
      grind
  | beginUnit _ positive hc =>
      intro u hu hs
      rcases List.mem_append.mp hu with hu | hu
      · exact h u hu hs
      · rw [List.mem_singleton.mp hu]
        grind
  | @outcome k f now now' v u j hout _ _ live hit units hu hc =>
      obtain ⟨o, us⟩ := j
      simp only at live hit hu hc ⊢
      have ha : o.attempt = f.attempt := by grind
      have hdel : o.status = .delivering := by grind
      subst hu
      refine h.hit hj hdel ?_ ?_ hit <;>
        cases hout <;> intro x <;> grind [DeliveryUnitRow.key]
  | @stop j f reason now now' _ later units hu u hu' hc =>
      obtain ⟨o, us⟩ := j
      simp only at hu hu' hc ⊢
      subst hu'
      have hv : (Sql.stopDeliveryBatchMark f (Sql.stopMarks f reason now o) now).Settles
          o.attempt := by
        constructor <;> intro x <;> first | rfl | grind
      have hlive : Sql.delivering f now o = true := by
        simp only [Sql.stopDeliveryBatch, Sql.delivering, Bool.and_eq_true] at hc ⊢
        exact ⟨Fence.holds_earlier hc.1 later, hc.2⟩
      rw [hu]
      refine h.mark hv (Sound.marked hv fun x hx hxa hxs => ?_)
      have := hj.owned x hx
      have hmarks : Sql.stopMarks f reason now o = true := by
        by_contra hn
        have hcancel : reason = .cancel ∧ o.cancelRequested = false := by grind
        refine ho ⟨f, now', by rw [hcancel.1], hc, hcancel.2, x, ?_, hxs⟩
        exact Job.mem_current.mpr ⟨hx, hxa⟩
      grind
  | @requeue j f key botId now now' _ _ live v hv hit units hu u hu' hc =>
      obtain ⟨o, us⟩ := j
      simp only at live hit hu hu' hc ⊢
      have ha : o.attempt = f.attempt := by grind
      have hdel : o.status = .delivering := by grind
      rw [hu]
      refine h.hit hj hdel ?_ ?_ hit <;> subst hv <;> intro x <;>
        grind [DeliveryUnitRow.key]

end InFlight

theorem Admitted.inFlight {o : OperationRow} : InFlight ⟨o, []⟩ := by
  intro u hu
  cases hu

/-! ## Runs -/

section

variable [Platform]

/-- The event is no call of the single-message protocol. -/
def Event.batched : Event → Bool
  | .call (.beginDelivery ..) _ _ _ | .call (.completeDelivery ..) _ _ _
  | .call (.deliveryUnknown ..) _ _ _ | .call (.rejectDelivery ..) _ _ _ => false
  | _ => true

theorem Event.permits_batched {e : Event} {db : Db} {k : Kind} {j : Job}
    (he : e.batched = true) (hp : e.permits db k j) : k.singleMessage = false := by
  cases e with
  | other => cases hp
  | call c clock fresh reply =>
      cases c with
      | admitRequest => cases hp
      | claim => rcases hp with rfl | rfl <;> rfl
      | claimForBot => rcases hp with rfl | ⟨rfl, -⟩ <;> rfl
      | _ =>
          obtain ⟨hk, -⟩ := hp
          cases hk
          first | rfl | cases he

/-- **Delivery-journal accounting.** In every run of the batch protocol, the units of
the current attempt of a planned operation are numbered from zero, all but the last
are sent, their artifacts are counted and never exceed the plan, every sent unit has
one positive message for each artifact, and the operation succeeds exactly when the
plan is fulfilled, with the last message of the last unit. -/
theorem journal_accounting {s t : System} {es : List Event}
    (h : ReachesWith (fun _ e => e.batched = true) s es t) {id : Uuid} {o : OperationRow}
    {planned : Nat} (ho : t.db.operation id = some o)
    (hp : o.plannedArtifactCount = some planned) :
    ((t.db.batch id o.attempt).map DeliveryUnitRow.ordinal =
        List.range (t.db.batch id o.attempt).length) ∧
      (∀ u ∈ (t.db.batch id o.attempt).dropLast, u.status = .sent) ∧
      o.deliveredArtifactCount = sentSum (t.db.batch id o.attempt) ∧
      o.deliveredArtifactCount ≤ planned ∧
      (∀ u ∈ t.db.batch id o.attempt, u.status = .sent → ∃ ids,
        u.messageIds = some ids ∧ ids.length = u.artifactCount ∧ ids.Nodup ∧
          ∀ id ∈ ids, 0 < id) ∧
      (o.status = .succeeded ↔ o.deliveredArtifactCount = planned) ∧
      (o.status = .succeeded → ∃ u ids last, (t.db.batch id o.attempt).getLast? = some u ∧
        u.messageIds = some ids ∧ ids.getLast? = some last ∧
        o.deliveredMessageId = some last) := by
  have hj : t.db.job id = some ⟨o, t.db.unitsOf id⟩ := Db.job_eq_some.mpr ⟨ho, rfl⟩
  have hsound := h.reaches.sound.job hj
  have hfin : Finished ⟨o, t.db.unitsOf id⟩ := (h.jobs (I := fun j => Sound j ∧ Finished j)
    (fun _ hr => ⟨hr.sound, hr.finished⟩)
    (fun he hk hs hj => ⟨hj.1.step hs, hj.2.step hj.1 (Event.permits_batched he hk) hs⟩)
    |>.job hj).2
  rw [Db.batch_of_job hj]
  obtain ⟨hord, hsent, htotal, hwithin, -, hmessages⟩ := hsound.journal planned hp
  exact ⟨hord, hsent, htotal, hwithin, hmessages, hfin.done planned hp,
    hfin.message planned hp⟩

/-- The event is not a cancelling stop, under a live lease, of a batch whose operation
nobody cancelled while a unit of it is being sent. -/
def Event.accounts (db : Db) : Event → Bool
  | .call (.stopDeliveryBatch c .cancel) clock _ _ =>
      !(db.operation c.operationId).any fun o =>
        Sql.delivering c.fence (clock.tick 1) o && !o.cancelRequested &&
          (db.batch c.operationId o.attempt).any fun u => u.status == .sending
  | _ => true

theorem Event.not_orphans {e : Event} {db : Db} {k : Kind} {j : Job}
    (he : e.accounts db = true) (hp : e.permits db k j) : ¬ InFlight.Orphans k j := by
  rintro ⟨f, now, rfl, hdel, hcancel, u, hu, hus⟩
  cases e with
  | other => cases hp
  | call c clock fresh reply =>
      cases c with
      | admitRequest => cases hp
      | claim => rcases hp with h | h <;> cases h
      | claimForBot => rcases hp with h | ⟨h, -⟩ <;> cases h
      | stopDeliveryBatch c reason =>
          obtain ⟨hk, hj⟩ := hp
          cases hk
          have hid : j.op.id = c.operationId :=
            Fence.id_of_holds (Sql.holds_of_delivering hdel)
          rw [hid] at hj
          have hany : (j.batch j.op.attempt).any (fun u => u.status == .sending) = true :=
            List.any_eq_true.mpr ⟨u, hu, by simp [hus]⟩
          simp [Event.accounts, (Db.job_eq_some.mp hj).1, Db.batch_of_job hj, hdel,
            hcancel, hany] at he
      | _ => obtain ⟨hk, -⟩ := hp; cases hk

/-- Every unit that is being sent belongs to the current attempt of an operation in
delivery. -/
def Db.Accounted (db : Db) : Prop :=
  ∀ u ∈ db.deliveryUnits.rows, u.status = .sending →
    ∃ o, db.operation u.operationId = some o ∧ u.attempt = o.attempt ∧
      o.status = .delivering

/-- **No orphaned unit.** In every run of the batch protocol without such a stop, a unit
that is being sent belongs to the current attempt of an operation in delivery. -/
theorem no_orphaned_unit {s t : System} {es : List Event}
    (h : ReachesWith (fun s e => (e.batched && e.accounts s.db) = true) s es t) :
    t.db.Accounted := by
  intro u hu hs
  have hmem : u ∈ t.db.unitsOf u.operationId := Db.mem_unitsOf.mpr ⟨hu, rfl⟩
  have hjobs := h.jobs (I := fun j => Sound j ∧ InFlight j)
    (fun _ hr => ⟨hr.sound, Admitted.inFlight⟩) (fun he hk hs hj => by
      obtain ⟨hb, ha⟩ := Bool.and_eq_true_iff.mp he
      exact ⟨hj.1.step hs, hj.2.step hj.1 (Event.permits_batched hb hk)
        (Event.not_orphans ha hk) hs⟩)
  cases ho : t.db.operation u.operationId with
  | none =>
      rw [hjobs.owned ho] at hmem
      cases hmem
  | some o =>
      obtain ⟨-, hin⟩ := hjobs.job (Db.job_eq_some.mpr ⟨ho, rfl⟩ :
        t.db.job u.operationId = some ⟨o, t.db.unitsOf u.operationId⟩)
      obtain ⟨ha, hst⟩ := hin u hmem hs
      exact ⟨o, rfl, ha, hst⟩

end

section

attribute [local instance] Scenario.platform

namespace Scenario

/-- The batch is stopped for a cancel that nobody asked for. -/
def orphaned : List ScriptLine :=
  sending ++ [act 5 (.stopDeliveryBatch (held request 1 2) .cancel)]

/-- The batch is stopped for the cancel of its actor. -/
def cancelled : List ScriptLine :=
  sending ++ [act 5 (.requestCancel 7 operation),
    act 6 (.stopDeliveryBatch (held request 1 2) .cancel)]

end Scenario

/-- A batch of two artifacts, both delivered. -/
theorem journal_accounting_delivered :
    ∃ o, (play .initial Scenario.delivered).2.db.operation Scenario.operation = some o ∧
      o.status = .succeeded ∧ o.deliveredMessageId = some 12 ∧
      o.deliveredArtifactCount = 2 := by
  obtain ⟨o, ho, hc⟩ := (Option.any_eq_true _ _).mp (by decide +kernel :
    ((play .initial Scenario.delivered).2.db.operation Scenario.operation).any
      (fun o => decide (o.plannedArtifactCount = some 2) &&
        decide (o.status = .succeeded) && decide (o.deliveredMessageId = some 12)) = true)
  simp only [Bool.and_eq_true, decide_eq_true_eq] at hc
  obtain ⟨⟨hp, hs⟩, hm⟩ := hc
  obtain ⟨-, -, -, -, -, hdone, -⟩ := journal_accounting
    (play_reachesWith (G := fun _ e => e.batched) (by decide) (by decide +kernel)) ho hp
  exact ⟨o, ho, hs, hm, hdone.mp hs⟩

/-- After the stop a unit is being sent for a cancelled operation. -/
theorem orphaned_unit : ¬ ∀ s es t,
    ReachesWith (fun _ e => e.batched = true) s es t → t.db.Accounted := by
  intro h
  have hrun := h _ _ _ (play_reachesWith (G := fun _ e => e.batched)
    (by decide : inOrder 0 Scenario.orphaned) (by decide +kernel))
  have hlost : ∃ u ∈ (play .initial Scenario.orphaned).2.db.deliveryUnits.rows,
      u.status = .sending ∧ ((play .initial Scenario.orphaned).2.db.operation
        u.operationId).all (fun o => decide (o.status = .cancelled)) = true := by
    decide +kernel
  obtain ⟨u, hu, hs, hop⟩ := hlost
  obtain ⟨o, ho, -, hdel⟩ := hrun u hu hs
  rw [ho, Option.all_some, hdel] at hop
  cases hop

/-- A stop for the cancel of the actor marks the unit. -/
theorem no_orphaned_unit_cancelled :
    (play .initial Scenario.cancelled).2.db.Accounted :=
  no_orphaned_unit (play_reachesWith
    (G := fun s e => e.batched && e.accounts s.db) (by decide) (by decide +kernel))

end

end YoinkCore.Storage
