import YoinkCore.Storage.Evolution

/-!
# Failure codes

A failed attempt leaves its code on the operation. A claim of a worker clears it; a
claim of a bot does not, so the code of an earlier attempt can outlive it there.
-/

namespace YoinkCore.Storage

open Lib Domain

/-- An attempt that is under way or succeeded. -/
def OperationStatus.unfailed : OperationStatus → Bool
  | running | delivering | succeeded => true
  | _ => false

/-- Such an attempt carries no code. -/
def CodeFree (j : Job) : Prop := j.op.status.unfailed = true → j.op.failureCode = none

namespace CodeFree

theorem single {k : Kind} {now : Int} {u : OperationUpdate} {o : OperationRow}
    {units : List DeliveryUnitRow} (h : CodeFree ⟨o, units⟩)
    (hbot : k = .claimForBot → o.failureCode = none) (hs : Single now k u)
    (hc : u.cond o = true) : CodeFree ⟨u.set o, units⟩ := by
  intro hst
  have ho : o.status.unfailed = true → o.failureCode = none := h
  cases hs with
  | worker hs => cases hs <;> grind [OperationStatus.unfailed, OperationStatus.leased]
  | cancel => grind [OperationStatus.unfailed, OperationStatus.pending]
  | claim => rfl
  | claimForBot => exact hbot rfl

/-- Every step but a claim by a bot on a failed operation keeps it. -/
theorem step {t : Int} {k : Kind} {j j' : Job} (h : CodeFree j)
    (hbot : k = .claimForBot → j.op.failureCode = none) (hs : JobStep t k j j') :
    CodeFree j' := by
  have ho : j.op.status.unfailed = true → j.op.failureCode = none := h
  cases hs with
  | single hs _ hc => exact single h hbot hs hc
  | expire _ _ _ u hu hc =>
      subst hu
      intro hst
      grind [OperationStatus.unfailed, OperationStatus.leased]
  | beginUnit => exact h
  | outcome hout _ _ _ _ units _ hc =>
      intro hst
      cases hout <;> grind [OperationStatus.unfailed]
  | stop _ _ _ _ u hu hc =>
      subst hu
      intro hst
      grind [OperationStatus.unfailed]
  | requeue _ _ _ _ _ _ _ _ u hu hc =>
      subst hu
      intro hst
      cases hst

end CodeFree

section

variable [Platform]

/-- The event does not let a bot take an operation that carries a code. -/
def Event.clean (db : Db) : Event → Bool
  | .call (.claimForBot worker lease botId policy) clock _ _ =>
      match checkClaim worker lease policy, expireLeases clock db with
      | .ok (), .ok ((), db₁) => decide (botId ≤ 0) ||
          (claimSelected (some botId) policy clock db₁).all fun id =>
            (db₁.operation id).all (·.failureCode.isNone)
      | _, _ => true
  | _ => true

theorem Event.clean_of_permits {e : Event} {db : Db} {j : Job} (he : e.clean db = true)
    (hp : e.permits db .claimForBot j) : j.op.failureCode = none := by
  cases e with
  | other => cases hp
  | call c clock fresh reply =>
      cases c with
      | admitRequest => cases hp
      | claim => rcases hp with h | h <;> cases h
      | claimForBot worker lease botId policy =>
          obtain h | ⟨-, hcheck, hbot, db₁, hexp, hsel, hj⟩ := hp
          · cases h
          have hop := (Db.job_eq_some.mp hj).1
          simpa [Event.clean, hcheck, hexp, hsel, hop, hbot.not_ge] using he
      | _ => obtain ⟨hk, -⟩ := hp; cases hk

/-- An attempt that is under way or succeeded has no code, and none is shown. -/
def Db.CodeFree (db : Db) : Prop :=
  ∀ id o, db.operation id = some o → o.status.unfailed = true →
    o.failureCode = none ∧ ∀ actorId record,
      getOperation actorId id db = .ok (some record) → record.failureCode = none

/-- A record shows the code of its row. -/
theorem getOperation_failureCode {actorId : Nat} {id : Uuid} {db : Db} {o : OperationRow}
    {record : OperationRecord} (h : getOperation actorId id db = .ok (some record))
    (ho : db.operation id = some o) : record.failureCode = o.failureCode := by
  simp only [getOperation, ho, Tx.result_bind_eq_ok] at h
  obtain ⟨_, -, h⟩ := h
  split at h
  · cases hr : recordOf o with
    | error e =>
        rw [hr] at h
        cases h
    | ok r =>
        rw [hr] at h
        cases h
        simp only [recordOf, Tx.result_bind_eq_ok] at hr
        obtain ⟨_, -, hr⟩ := hr
        cases hr
        rfl
  · cases h

/-- **No code outlives its attempt.** In every run in which a bot takes no operation
that carries a code, an attempt under way or succeeded has none. -/
theorem no_stale_code {s t : System} {es : List Event}
    (h : ReachesWith (fun s e => e.clean s.db = true) s es t) : t.db.CodeFree := by
  intro id o ho hst
  have hj := (h.jobs (I := CodeFree) (fun _ hr hst => hr.failure)
    (fun he hk hs hj => hj.step
      (fun hbot => Event.clean_of_permits he (hbot ▸ hk)) hs)).job
    (Db.job_eq_some.mpr ⟨ho, rfl⟩ : t.db.job id = some ⟨o, t.db.unitsOf id⟩)
  exact ⟨hj hst, fun _ _ hr => (getOperation_failureCode hr ho).trans (hj hst)⟩

end

section

attribute [local instance] Scenario.platform

namespace Scenario

/-- The first attempt fails with a code, and the bot claims the second and
delivers it. -/
def redelivered : List ScriptLine :=
  [admitRequest delivery, take 2 2,
    act 3 (.fail (held delivery 1 2) true (some "source_unavailable")),
    ⟨.claimForBot "worker" (.ofSecs 60) 1 {}, 4, uuid 3⟩,
    act 5 (.beginDeliveryBatch (held delivery 2 3) 1),
    act 6 (.beginDeliveryUnit (held delivery 2 3) 0 1),
    act 7 (.completeDeliveryUnit (held delivery 2 3) 0 [11])]

end Scenario

/-- The bot delivers the second attempt; the operation shows the code of the first. -/
theorem stale_code : ¬ ∀ s es t, Reaches s es t → t.db.CodeFree := by
  intro h
  have hrun := h _ _ _ (play_reaches (by decide : inOrder 0 Scenario.redelivered))
  obtain ⟨o, ho, hc⟩ := (Option.any_eq_true _ _).mp (by decide +kernel :
    ((play .initial Scenario.redelivered).2.db.operation Scenario.operation).any
      (fun o => decide (o.status = .succeeded) && o.failureCode.isSome) = true)
  simp only [Bool.and_eq_true, decide_eq_true_eq] at hc
  have hnone := (hrun _ o ho (by rw [hc.1]; rfl)).1
  rw [hnone] at hc
  cases hc.2

/-- The bot delivers the first attempt. -/
theorem no_stale_code_delivered :
    (play .initial Scenario.botDelivered).2.db.CodeFree :=
  no_stale_code (play_reachesWith (G := fun s e => e.clean s.db) (by decide)
    (by decide +kernel))

end

end YoinkCore.Storage
