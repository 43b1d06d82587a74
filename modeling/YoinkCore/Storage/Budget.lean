import YoinkCore.Storage.Evolution

/-!
# Attempts

Six statements put an operation back in the queue, and one of them raises the
attempt limit. None of them queues an operation that nobody could claim: a queued
operation is not cancelled and has attempts left. The limit grows at most once,
when the operation first bypasses the cache.
-/

namespace YoinkCore.Storage

open Lib Domain

/-- The attempts of an operation stay within its limit. -/
structure Budget (o : OperationRow) : Prop where
  attempt_le : o.attempt ≤ o.maxAttempts
  queued : o.status = .queued → o.cancelRequested = false ∧ o.attempt < o.maxAttempts
  limit : o.maxAttempts ≤ 100 + o.cacheBypassed.toNat

variable {o : OperationRow}

variable {rows : List OperationRow} {k : Kind} {j j' : Job}

theorem Budget.single {now : Int} {u : OperationUpdate} (h : Single now k u)
    (hc : u.cond o = true) (hb : Budget o) : Budget (u.set o) := by
  obtain ⟨hle, hqueued, hlimit⟩ := hb
  cases h with
  | worker h => cases h <;> constructor <;> grind
  | cancel | claim | claimForBot => constructor <;> grind

theorem Budget.step {t : Int} (h : JobStep t k j j') (hb : Budget j.op) : Budget j'.op := by
  cases h with
  | single h _ hc => exact hb.single h hc
  | expire _ _ _ u h hc =>
      obtain ⟨hle, hqueued, hlimit⟩ := hb
      subst h
      constructor <;> grind
  | beginUnit => exact hb
  | outcome h _ _ _ _ units _ hc =>
      obtain ⟨hle, hqueued, hlimit⟩ := hb
      cases h <;> constructor <;> grind
  | stop _ _ _ _ u h hc | requeue _ _ live _ _ _ _ _ u h hc =>
      obtain ⟨hle, hqueued, hlimit⟩ := hb
      subst h
      constructor <;> grind

/-- The attempt limit grows by one when the operation first bypasses the cache,
and not otherwise. -/
theorem JobStep.limit {t : Int} (h : JobStep t k j j') :
    k ≠ .requeue ∧ j'.op.maxAttempts = j.op.maxAttempts ∧
        j'.op.cacheBypassed = j.op.cacheBypassed ∨
      k = .requeue ∧ j'.op.maxAttempts = j.op.maxAttempts + 1 ∧
        j.op.cacheBypassed = false ∧ j'.op.cacheBypassed = true := by
  cases h with
  | single h _ hc =>
      left
      cases h with
      | worker h => cases h <;> exact ⟨by decide, rfl, rfl⟩
      | cancel => exact ⟨by decide, rfl, rfl⟩
      | claim => exact ⟨by decide, rfl, rfl⟩
      | claimForBot => exact ⟨by decide, rfl, rfl⟩
  | expire _ _ _ u h hc =>
      subst h
      exact .inl ⟨by decide, rfl, rfl⟩
  | beginUnit => exact .inl ⟨by decide, rfl, rfl⟩
  | outcome h _ _ _ _ units _ hc => left; cases h <;> grind
  | stop _ _ _ _ u h hc =>
      subst h
      exact .inl ⟨by simp, rfl, rfl⟩
  | requeue _ _ live _ _ _ _ _ u h hc =>
      subst h
      exact .inr ⟨rfl, rfl, by grind, rfl⟩

theorem Admitted.budget (h : Admitted o) : Budget o := by
  obtain ⟨hs, ha, hpos, hle, hcancel, -, -, -, hb, -⟩ := h
  constructor
  · omega
  · intro _
    exact ⟨hcancel, by omega⟩
  · rw [hb]
    exact hle

/-! ## What a claim selects -/

instance : Std.Total Sql.claimOrder := ⟨fun a b => by
  unfold Sql.claimOrder
  omega⟩

instance : IsTrans OperationRow Sql.claimOrder := ⟨fun a b c hab hbc => by
  unfold Sql.claimOrder at *
  omega⟩

/-- The first row in the order of the query. -/
theorem exists_first {ready : List OperationRow} (ho : o ∈ ready) :
    ∃ first ∈ ready, (ready.insertionSort Sql.claimOrder).head? = some first ∧
      Sql.claimOrder first o := by
  have hmem := (List.mem_insertionSort Sql.claimOrder).mpr ho
  have hsorted := List.pairwise_insertionSort Sql.claimOrder ready
  cases hl : ready.insertionSort Sql.claimOrder with
  | nil => simp [hl] at hmem
  | cons first rest =>
      rw [hl] at hmem hsorted
      have hfirst : first ∈ ready := by
        rw [← List.mem_insertionSort Sql.claimOrder, hl]
        exact List.mem_cons_self
      refine ⟨first, hfirst, rfl, ?_⟩
      rcases List.mem_cons.mp hmem with rfl | hrest
      · exact (Std.Total.total (r := Sql.claimOrder) o o).elim id id
      · exact (List.pairwise_cons.mp hsorted).1 o hrest

/-- A claimable operation of an actor below its limit is taken, unless the query
finds an earlier one. -/
theorem claimSelect_of_claimable (ho : o ∈ rows) {now : Int} (hc : Sql.claimable now o = true)
    {maxActive : Nat} (ha : Sql.activeOf rows o.actorId < maxActive) :
    ∃ first ∈ rows, Sql.claimSelect rows maxActive now = some first.id ∧
      Sql.claimOrder first o := by
  obtain ⟨first, hf, hhead, hle⟩ := exists_first (o := o)
    (List.mem_filter.mpr ⟨ho, by simp [hc, ha]⟩ : o ∈ rows.filter fun o =>
      Sql.claimable now o && decide (Sql.activeOf rows o.actorId < maxActive))
  refine ⟨first, List.mem_of_mem_filter hf, ?_, hle⟩
  simp only [Sql.claimSelect]
  rw [hhead]
  rfl

theorem claimForBotSelect_of_claimable (ho : o ∈ rows) {now : Int}
    (hc : Sql.claimable now o = true) {botId : Int} (hb : o.forBot botId = true) {maxActive : Nat}
    (ha : Sql.activeOf rows o.actorId < maxActive) :
    ∃ first ∈ rows, Sql.claimForBotSelect rows botId maxActive now = some first.id ∧
      Sql.claimOrder first o := by
  obtain ⟨first, hf, hhead, hle⟩ := exists_first (o := o)
    (List.mem_filter.mpr ⟨ho, by simp [hc, hb, ha]⟩ : o ∈ rows.filter fun o =>
      Sql.claimable now o && o.forBot botId &&
        decide (Sql.activeOf rows o.actorId < maxActive))
  refine ⟨first, List.mem_of_mem_filter hf, ?_, hle⟩
  simp only [Sql.claimForBotSelect]
  rw [hhead]
  rfl

/-! ## Runs -/

section

variable [Platform]

/-- The event is a `requeue_invalid_cache` on an operation that reported success. -/
def Event.requeued (id : Uuid) : Event → Bool
  | .call (.requeueInvalidCache c _ _) _ _ (.ok (.flag true)) => decide (c.operationId = id)
  | _ => false

/-- Whether an operation has bypassed the cache. -/
def Db.bypassed (db : Db) (id : Uuid) : Bool :=
  (db.operation id).any OperationRow.cacheBypassed

variable {s t : System} {id : Uuid}

variable {es : List Event} {e : Event}

/-- A successful requeue bypasses the cache of an operation that had not. -/
theorem Step.requeued (h : Step s e t) (he : e.requeued id = true) :
    s.db.bypassed id = false ∧ t.db.bypassed id = true := by
  unfold Event.requeued at he
  split at he
  case h_2 => cases he
  case h_1 c ordinal revision clock fresh =>
    have hid : c.operationId = id := by simpa using he
    subst hid
    cases h with
    | call _ result _ =>
        rcases requeueInvalidCache_cases c ordinal revision clock s.db with
          ⟨r, hne, hr⟩ | ⟨db', j, j', hr, hs, hm⟩
        · simp only [exec, Method.reply, hr, Prod.mk.injEq] at result
          cases r with
          | error e => cases result.1
          | ok b => cases b <;> simp_all [Except.map]
        · simp only [exec, Method.reply, hr, Prod.mk.injEq] at result
          obtain ⟨-, rfl⟩ := result
          rcases hs.limit with ⟨hk, -⟩ | ⟨-, -, hb, hb'⟩
          · exact absurd rfl hk
          · rw [Db.bypassed, Db.bypassed, (Db.job_eq_some.mp hm.before).1,
              (Db.job_eq_some.mp hm.after).1]
            exact ⟨hb, hb'⟩

theorem Step.bypassed (h : Step s e t) (hb : s.db.bypassed id = true) :
    t.db.bypassed id = true := by
  obtain ⟨o, ho, hb⟩ := (Option.any_eq_true _ _).mp hb
  obtain ⟨j', hj', hr⟩ := h.evolves.kept (Db.job_eq_some.mpr ⟨ho, rfl⟩ :
    s.db.job id = some ⟨o, s.db.unitsOf id⟩)
  have hkeep : j'.op.cacheBypassed = true := by
    refine hr.keep (I := fun j => j.op.cacheBypassed = true) (fun _ hs hj => ?_) hb
    rcases hs.limit with ⟨-, -, h⟩ | ⟨-, -, h, -⟩
    · rw [h, hj]
    · rw [hj] at h
      cases h
  rw [Db.bypassed, (Db.job_eq_some.mp hj').1]
  exact hkeep

/-- Successful requeues of an operation are counted by its mark. -/
theorem requeues_le (h : Reaches s es t) (id : Uuid) :
    es.countP (Event.requeued id) ≤ (t.db.bypassed id).toNat := by
  obtain ⟨hfresh, hrun⟩ := h
  induction hrun with
  | nil => simp
  | @snoc es u t e _ hs ih =>
      rw [List.countP_append, List.countP_singleton]
      cases he : e.requeued id with
      | true =>
          obtain ⟨hu, ht⟩ := hs.requeued he
          simp [hu, ht] at ih ⊢
          exact ih
      | false =>
          cases hu : u.db.bypassed id with
          | true => simpa [hu, hs.bypassed hu] using ih
          | false =>
              rw [hu] at ih
              rw [Nat.le_zero.mp ih]
              exact Nat.zero_le _

/-- Every operation of a run was admitted at some point of it. -/
theorem Reaches.admission (h : Reaches s es t) (ho : t.db.operation id = some o) :
    ∃ es₁ e es₂ u v o₀, es = es₁ ++ e :: es₂ ∧ Reaches s es₁ u ∧ Step u e v ∧
      Run Step v es₂ t ∧ u.db.operation id = none ∧ v.db.operation id = some o₀ ∧
      Admitted o₀ := by
  obtain ⟨hfresh, hrun⟩ := h
  induction hrun generalizing o with
  | nil =>
      have := Table.mem_of_find ho
      rw [hfresh.1] at this
      cases this
  | @snoc es u t e hrun hs ih =>
      cases hu : u.db.operation id with
      | some o' =>
          obtain ⟨es₁, e', es₂, u', v, o₀, rfl, h₁, h₂, h₃, h₄⟩ := ih hu
          exact ⟨es₁, e', es₂ ++ [e], u', v, o₀, by simp, h₁, h₂, h₃.snoc hs, h₄⟩
      | none =>
          refine ⟨es, e, [], u, t, o, rfl, ⟨hfresh, hrun⟩, hs, .nil, hu, ho, ?_⟩
          cases hs.evolves with
          | moves hm =>
              rw [(hm.absent hu).1, hu] at ho
              cases ho
          | created admitted operations _ =>
              rw [Db.operation_of_append operations, hu, Option.none_or] at ho
              split at ho
              · cases ho
                exact admitted
              · cases ho

/-- The limit of an operation exceeds an earlier one only by bypassing the cache. -/
theorem limit_of_run (h : Run Step s es t) {o' : OperationRow} (ho : s.db.operation id = some o)
    (ho' : t.db.operation id = some o') :
    o'.maxAttempts + o.cacheBypassed.toNat = o.maxAttempts + o'.cacheBypassed.toNat := by
  obtain ⟨j', hj', hR⟩ := run_kept
    (R := fun j j' => j'.op.maxAttempts + j.op.cacheBypassed.toNat =
      j.op.maxAttempts + j'.op.cacheBypassed.toNat)
    (fun _ => rfl) (fun hR hs => by
      rcases hs.limit with ⟨-, hm, hb⟩ | ⟨-, hm, hb, hb'⟩
      · rw [hm, hb]
        exact hR
      · rw [hm, hb']
        rw [hb] at hR
        simp only [Bool.toNat_true, Bool.toNat_false] at hR ⊢
        omega) h (Db.job_eq_some.mpr ⟨ho, rfl⟩ : s.db.job id = some ⟨o, s.db.unitsOf id⟩)
  rw [(Db.job_eq_some.mp hj').1] at ho'
  cases ho'
  exact hR

/-- The queued operation `o` can be claimed once it is due: by the next claim of a
worker, and of its bot, unless the query finds an operation before it or the actor
has enough leases. -/
def Awaits (rows : List OperationRow) (o : OperationRow) : Prop :=
  ∀ now, o.availableAt ≤ now → Sql.claimable now o = true ∧
    ∀ maxActive, Sql.activeOf rows o.actorId < maxActive →
      (∃ first ∈ rows, Sql.claimSelect rows maxActive now = some first.id ∧
        Sql.claimOrder first o) ∧
      ∀ botId, o.forBot botId = true →
        ∃ first ∈ rows, Sql.claimForBotSelect rows botId maxActive now = some first.id ∧
          Sql.claimOrder first o

omit [Platform] in
theorem Budget.awaits (hb : Budget o) (ho : o ∈ rows) (hq : o.status = .queued) :
    Awaits rows o := by
  intro now hnow
  have hc : Sql.claimable now o = true := by
    obtain ⟨hcancel, hlt⟩ := hb.queued hq
    simp [Sql.claimable, hq, hnow, hcancel, hlt]
  exact ⟨hc, fun maxActive ha => ⟨claimSelect_of_claimable ho hc ha,
    fun botId hbot => claimForBotSelect_of_claimable ho hc hbot ha⟩⟩

/-- **No stranded or over-run work.** Whatever happened, a queued operation is not
cancelled and has attempts left, no operation is over its limit, the limit exceeds
the admitted one by at most one, and no operation is requeued for its cache twice. -/
theorem no_stranded_work {s t : System} {es : List Event} (h : Reaches s es t) :
    (∀ {id o}, t.db.operation id = some o →
      (o.status = .queued → o.cancelRequested = false ∧ o.attempt < o.maxAttempts ∧
        Awaits t.db.operations.rows o) ∧
      o.attempt ≤ o.maxAttempts ∧ o.maxAttempts ≤ 101 ∧
      ∃ es₁ e es₂ u v o₀, es = es₁ ++ e :: es₂ ∧ Reaches s es₁ u ∧ Step u e v ∧
        Run Step v es₂ t ∧ u.db.operation id = none ∧ v.db.operation id = some o₀ ∧
        Admitted o₀ ∧ o.maxAttempts ≤ o₀.maxAttempts + 1) ∧
    ∀ id, es.countP (Event.requeued id) ≤ 1 := by
  refine ⟨fun {id o} ho => ?_, fun id => (requeues_le h id).trans (Bool.toNat_le _)⟩
  have hb : Budget o := (h.jobs (I := fun j => Budget j.op) (fun row hr => hr.budget)
    (fun hs hb => hb.step hs)).job (Db.job_eq_some.mpr ⟨ho, rfl⟩ :
      t.db.job id = some ⟨o, t.db.unitsOf id⟩)
  refine ⟨fun hq => ?_, hb.attempt_le, hb.limit.trans ?_, ?_⟩
  · exact ⟨(hb.queued hq).1, (hb.queued hq).2, hb.awaits (Table.mem_of_find ho) hq⟩
  · exact Nat.add_le_add_left (Bool.toNat_le _) 100
  · obtain ⟨es₁, e, es₂, u, v, o₀, hes, hu, he, hv, hnone, ho₀, hadm⟩ := h.admission ho
    refine ⟨es₁, e, es₂, u, v, o₀, hes, hu, he, hv, hnone, ho₀, hadm, ?_⟩
    have := limit_of_run hv ho₀ ho
    rw [hadm.bypassed] at this
    have hle := Bool.toNat_le o.cacheBypassed
    simp only [Bool.toNat_false] at this
    omega

end

section

attribute [local instance] Scenario.platform

/-- After a failure that may be repeated the operation waits for a claim. -/
theorem no_stranded_work_retried :
    ∃ o, (play .initial Scenario.retried).2.db.operation Scenario.operation = some o ∧
      o.status = .queued ∧
      Awaits (play .initial Scenario.retried).2.db.operations.rows o := by
  obtain ⟨o, ho, hq⟩ := (Option.any_eq_true _ _).mp (by decide +kernel :
    ((play .initial Scenario.retried).2.db.operation Scenario.operation).any
      (fun o => decide (o.status = .queued)) = true)
  have hq := of_decide_eq_true hq
  exact ⟨o, ho, hq,
    (((no_stranded_work (play_reaches (by decide))).1 ho).1 hq).2.2⟩

end

end YoinkCore.Storage
