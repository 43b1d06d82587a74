import YoinkCore.Storage.Job
import YoinkCore.Storage.System

/-!
# What a call does to the jobs

Each statement aims at one operation. A call therefore moves the job of that
operation by one `JobStep` and leaves every other job as it was, or does nothing
at all. The two calls that differ are admission, which adds a fresh job, and a
claim, which first expires up to a hundred leases.
-/

namespace YoinkCore.Storage

open Lib

/-! ## Aimed statements -/

/-- An update of the operation with one identifier. -/
structure OperationUpdate.At (u : OperationUpdate) (id : Uuid) : Prop where
  target : ∀ o, u.cond o = true → o.id = id
  keeps : ∀ o, (u.set o).id = o.id

/-- An update of delivery units of one operation. -/
structure UnitUpdate.At (v : UnitUpdate) (id : Uuid) : Prop where
  target : ∀ u, v.cond u = true → u.operationId = id
  keeps : ∀ u, (v.set u).key = u.key

variable {o : OperationRow} {u : OperationUpdate} {id : Uuid} {f : Fence} {now : Int}

theorem OperationUpdate.apply_of_cond (h : u.cond o = true) : u.apply o = u.set o := by
  rw [apply, if_pos h]

theorem OperationUpdate.apply_of_not (h : u.cond o = false) : u.apply o = o := by
  rw [apply, if_neg (by simp [h])]

theorem OperationUpdate.At.apply_other (h : u.At id) (ho : o.id ≠ id) : u.apply o = o := by
  cases hc : u.cond o with
  | true => exact absurd (h.target o hc) ho
  | false => exact apply_of_not hc

theorem UnitUpdate.At.apply_other {v : UnitUpdate} (h : v.At id) {units : List DeliveryUnitRow}
    (hu : ∀ u ∈ units, u.operationId ≠ id) : v.apply units = units := by
  unfold apply
  conv_rhs => rw [← List.map_id units]
  refine List.map_congr_left fun u hm => ?_
  rw [if_neg]
  · rfl
  · exact fun hc => hu u hm (h.target u hc)

/-! ## Fenced statements -/

theorem Fence.id_of_holds (h : f.holds now o = true) : o.id = f.operationId := by
  simp only [Fence.holds, Bool.and_eq_true, decide_eq_true_eq] at h
  exact h.1.1.1.1

/-- An update of the operation of a fence, while the fence holds. -/
structure OperationUpdate.Fenced (u : OperationUpdate) (f : Fence) (now : Int) : Prop where
  holds : ∀ o, u.cond o = true → f.holds now o = true
  keeps : ∀ o, (u.set o).id = o.id

theorem OperationUpdate.Fenced.at (h : u.Fenced f now) : u.At f.operationId :=
  ⟨fun o hc => Fence.id_of_holds (h.holds o hc), h.keeps⟩

theorem WorkerStatement.fenced {k : Kind} (h : WorkerStatement f now k u) : u.Fenced f now := by
  cases h <;> refine ⟨fun o hc => ?_, fun o => rfl⟩ <;>
    simp only [Sql.heartbeat, Sql.updateProgress, Sql.complete, Sql.fail, Sql.ackCancel,
      Sql.beginDelivery, Sql.completeDelivery, Sql.deliveryUnknown, Sql.rejectDelivery,
      Sql.beginDeliveryBatch, Bool.and_eq_true] at hc <;> grind

theorem Sql.holds_of_delivering (h : Sql.delivering f now o = true) : f.holds now o = true := by
  simp only [Sql.delivering, Bool.and_eq_true] at h
  exact h.1

theorem Sql.operationId_of_inFlight {ordinal : Nat} {u : DeliveryUnitRow}
    (h : Sql.inFlight f ordinal u = true) : u.operationId = f.operationId := by
  simp only [Sql.inFlight, DeliveryUnitRow.key, Bool.and_eq_true, decide_eq_true_eq,
    Prod.mk.injEq] at h
  exact h.1.1

/-- An outcome aims its two statements at one unit and at the operation of the
fence. -/
theorem Outcome.aimed {now' : Int} {k : Kind} {v : UnitUpdate}
    {u : List DeliveryUnitRow → OperationUpdate} (h : Outcome f now now' k v u) :
    v.At f.operationId ∧ ∀ batch, (u batch).Fenced f now' := by
  cases h with
  | complete ordinal ids lastId last =>
      refine ⟨⟨fun x hc => ?_, fun x => rfl⟩, fun batch => ⟨fun o hc => ?_, fun o => ?_⟩⟩
      · simp only [Sql.completeDeliveryUnit, Bool.and_eq_true] at hc
        exact Sql.operationId_of_inFlight hc.1.1.1.1
      · simp only [Sql.completeDeliveryUnitOperation, Bool.and_eq_true] at hc
        exact Sql.holds_of_delivering hc.1.1
      · simp only [Sql.completeDeliveryUnitOperation]
        split <;> rfl
  | reject ordinal retryAfterSecs =>
      refine ⟨⟨fun x hc => ?_, fun x => rfl⟩, fun batch => ⟨fun o hc => ?_, fun o => rfl⟩⟩
      · simp only [Sql.rejectDeliveryUnit, Bool.and_eq_true] at hc
        exact Sql.operationId_of_inFlight hc.1
      · simp only [Sql.rejectDeliveryUnitOperation, Bool.and_eq_true] at hc
        exact Sql.holds_of_delivering hc.1
  | unknown ordinal =>
      refine ⟨⟨fun x hc => ?_, fun x => rfl⟩, fun batch => ⟨fun o hc => ?_, fun o => rfl⟩⟩
      · simp only [Sql.unknownDeliveryUnit, Bool.and_eq_true] at hc
        exact Sql.operationId_of_inFlight hc.1
      · simp only [Sql.unknownDeliveryUnitOperation, Bool.and_eq_true] at hc
        exact Sql.holds_of_delivering hc.1

theorem Sql.holds_of_beginUnitReady {batch : List DeliveryUnitRow} {ordinal count : Nat}
    (h : Sql.beginUnitReady f batch ordinal count now o = true) : f.holds now o = true := by
  simp only [Sql.beginUnitReady, Bool.and_eq_true] at h
  exact h.1.1.1.1.1.1.1

theorem Sql.stopDeliveryBatchMark_at (f : Fence) (live : Bool) (now : Int) :
    (Sql.stopDeliveryBatchMark f live now).At f.operationId := by
  refine ⟨fun u hc => ?_, fun u => rfl⟩
  simp only [Sql.stopDeliveryBatchMark, Bool.and_eq_true, decide_eq_true_eq] at hc
  exact hc.1.1.1

theorem Sql.stopDeliveryBatch_fenced (f : Fence) (batch : List DeliveryUnitRow)
    (reason : StopDeliveryReason) (now : Int) :
    (Sql.stopDeliveryBatch f batch reason now).Fenced f now :=
  ⟨fun _ hc => Sql.holds_of_delivering hc, fun _ => rfl⟩

theorem Sql.requeueInvalidCacheMark_at (f : Fence) (batch : List DeliveryUnitRow)
    (live : Bool) (now : Int) :
    (Sql.requeueInvalidCacheMark f batch live now).At f.operationId := by
  refine ⟨fun u hc => ?_, fun u => rfl⟩
  simp only [Sql.requeueInvalidCacheMark, Bool.and_eq_true] at hc
  exact Sql.operationId_of_inFlight hc.1.1

theorem Sql.requeueInvalidCacheOperation_fenced (f : Fence)
    (batch : List DeliveryUnitRow) (now : Int) :
    (Sql.requeueInvalidCacheOperation f batch now).Fenced f now := by
  refine ⟨fun o hc => ?_, fun o => rfl⟩
  simp only [Sql.requeueInvalidCacheOperation, Bool.and_eq_true] at hc
  exact Sql.holds_of_delivering hc.1

theorem Sql.expireLeaseUnits_at (id : Uuid) (attempt : Nat) (now : Int) :
    (Sql.expireLeaseUnits id attempt now).At id := by
  refine ⟨fun u hc => ?_, fun u => rfl⟩
  simp only [Sql.expireLeaseUnits, Bool.and_eq_true, decide_eq_true_eq] at hc
  exact hc.1.1

theorem Sql.expireLeaseOperation_at (id : Uuid) (attempt : Nat)
    (batch : List DeliveryUnitRow) (now : Int) :
    (Sql.expireLeaseOperation id attempt batch now).At id := by
  refine ⟨fun o hc => ?_, fun o => rfl⟩
  simp only [Sql.expireLeaseOperation, Bool.and_eq_true, decide_eq_true_eq] at hc
  exact hc.1.1

theorem Sql.cancel_at (actorId : Nat) (id : Uuid) (now : Int) :
    (Sql.cancel actorId id now).At id := by
  refine ⟨fun o hc => ?_, fun o => rfl⟩
  simp only [Sql.cancel, Bool.and_eq_true, decide_eq_true_eq] at hc
  exact hc.1.2

theorem claimStatement_at (workerId : String) (lease : Duration) (botId : Option Int)
    (clock : Clock) (token id : Uuid) :
    (claimStatement workerId lease botId clock token id).At id := by
  cases botId with
  | none =>
      refine ⟨fun o hc => ?_, fun o => rfl⟩
      simp only [claimStatement, Sql.claimUpdate, Bool.and_eq_true,
        decide_eq_true_eq] at hc
      exact hc.1
  | some botId =>
      refine ⟨fun o hc => ?_, fun o => rfl⟩
      simp only [claimStatement, Sql.claimForBotUpdate, Bool.and_eq_true,
        decide_eq_true_eq] at hc
      exact hc.1.1

variable [Platform]

/-! ## The jobs of a database -/

namespace Db

/-- The job of an operation. -/
def job (db : Db) (id : Uuid) : Option Job :=
  (db.operation id).map fun o => ⟨o, db.unitsOf id⟩

variable {db : Db}

theorem job_eq_some {j : Job} :
    db.job id = some j ↔ db.operation id = some j.op ∧ db.unitsOf id = j.units := by
  unfold job
  rw [Option.map_eq_some_iff]
  constructor
  · rintro ⟨o, ho, rfl⟩
    exact ⟨ho, rfl⟩
  · rintro ⟨ho, hu⟩
    exact ⟨j.op, ho, by rw [hu]⟩

theorem operation_id (h : db.operation id = some o) : o.id = id := Table.key_of_find h

theorem operation_check (h : db.operation id = some o) : o.check = true :=
  db.operations.checked o (Table.mem_of_find h)

theorem operation_eq_some : db.operation id = some o ↔ o ∈ db.operations.rows ∧ o.id = id :=
  Table.find_eq_some operationSchema_id

theorem mem_unitsOf {u : DeliveryUnitRow} :
    u ∈ db.unitsOf id ↔ u ∈ db.deliveryUnits.rows ∧ u.operationId = id := by
  simp [unitsOf]

theorem batch_of_job {j : Job} (h : db.job id = some j) (attempt : Nat) :
    db.batch id attempt = j.batch attempt := by
  rw [batch_eq, (job_eq_some.mp h).2, Job.batch]

/-- Two databases agree on an operation and its units. -/
def Same (db db' : Db) (id : Uuid) : Prop :=
  db'.operation id = db.operation id ∧ db'.unitsOf id = db.unitsOf id

theorem Same.job_eq {db' : Db} (h : Same db db' id) : db'.job id = db.job id := by
  rw [job, job, h.1, h.2]

end Db

/-! ## Updates -/

theorem updateOperations_eq (u : OperationUpdate) (db : Db) :
    updateOperations u db =
      match db.operations.update u.cond u.set with
      | none => .error .database
      | some (operations, n) => .ok (n, { db with operations }) := by
  show (match db.operations.update u.cond u.set with
    | none => (throw StoreError.database : Stmt Nat)
    | some (operations, n) => do
        set { db with operations }
        return n) db = _
  cases db.operations.update u.cond u.set <;> rfl

theorem updateUnits_eq (v : UnitUpdate) (db : Db) :
    updateUnits v db =
      match db.deliveryUnits.update v.cond v.set with
      | none => .error .database
      | some (deliveryUnits, n) => .ok (n, { db with deliveryUnits }) := by
  show (match db.deliveryUnits.update v.cond v.set with
    | none => (throw StoreError.database : Stmt Nat)
    | some (deliveryUnits, n) => do
        set { db with deliveryUnits }
        return n) db = _
  cases db.deliveryUnits.update v.cond v.set <;> rfl

theorem updateOperations_of_ok {u : OperationUpdate} {id : Uuid} (hu : u.At id)
    {db db' : Db} {n : Nat} (h : updateOperations u db = .ok (n, db')) :
    (∀ i, db'.operation i = (db.operation i).map u.apply) ∧
      (∀ i, db'.unitsOf i = db.unitsOf i) ∧
      n = if (db.operation id).any u.cond then 1 else 0 := by
  rw [updateOperations_eq] at h
  split at h
  · cases h
  · rename_i operations m hm
    cases h
    refine ⟨fun i => ?_, fun _ => rfl, ?_⟩
    · rw [Db.operation, Table.find_update hu.keeps hm i]
      rfl
    · rw [(Table.update_eq_some.mp hm).2]
      exact Table.countP_of_key operationSchema_id hu.target

/-- A statement that matches no row succeeds without a change. -/
theorem updateOperations_of_no_match {u : OperationUpdate} {id : Uuid} (hu : u.At id)
    {db : Db} (h : (db.operation id).any u.cond = false) :
    updateOperations u db = .ok (0, db) := by
  have hm : db.operations.update u.cond u.set = some (db.operations, 0) := by
    refine Table.update_of_no_match fun o ho => ?_
    by_contra hc
    have hc : u.cond o = true := by simpa using hc
    rw [Db.operation_eq_some.mpr ⟨ho, hu.target o hc⟩] at h
    simp [hc] at h
  rw [updateOperations_eq, hm]

theorem updateUnits_of_ok {v : UnitUpdate} {id : Uuid} (hv : v.At id)
    {db db' : Db} {n : Nat} (h : updateUnits v db = .ok (n, db')) :
    (∀ i, db'.operation i = db.operation i) ∧
      db'.unitsOf id = v.apply (db.unitsOf id) ∧
      (∀ i, i ≠ id → db'.unitsOf i = db.unitsOf i) ∧
      n = (db.unitsOf id).countP v.cond := by
  rw [updateUnits_eq] at h
  split at h
  · cases h
  · rename_i deliveryUnits m hm
    cases h
    obtain ⟨hrows, hn⟩ := Table.update_eq_some.mp hm
    have hunits : ∀ i, Db.unitsOf { db with deliveryUnits } i =
        v.apply (db.unitsOf i) := by
      intro i
      rw [Db.unitsOf, hrows, List.filter_map, UnitUpdate.apply, Db.unitsOf]
      congr 2
      funext u
      have hk := hv.keeps u
      simp only [DeliveryUnitRow.key, Prod.mk.injEq] at hk
      by_cases hc : v.cond u <;> simp [hc, hk]
    refine ⟨fun _ => rfl, hunits id, fun i hi => ?_, ?_⟩
    · rw [hunits i]
      refine hv.apply_other fun u hu => ?_
      rw [(Db.mem_unitsOf.mp hu).2]
      exact hi
    · rw [hn, Db.unitsOf, List.countP_filter]
      refine List.countP_congr fun u _ => ?_
      constructor
      · intro hc
        simp [hc, hv.target u hc]
      · intro hc
        exact (Bool.and_eq_true_iff.mp hc).1

theorem updateUnits_of_no_match {v : UnitUpdate} {db : Db}
    (h : ∀ u ∈ db.deliveryUnits.rows, v.cond u = false) :
    updateUnits v db = .ok (0, db) := by
  have hm : db.deliveryUnits.update v.cond v.set = some (db.deliveryUnits, 0) :=
    Table.update_of_no_match h
  rw [updateUnits_eq, hm]

/-! ## Moves -/

/-- One job changed, and every other job is as it was. -/
structure Moved (id : Uuid) (db db' : Db) (j j' : Job) : Prop where
  before : db.job id = some j
  after : db'.job id = some j'
  others : ∀ i, i ≠ id → db.Same db' i

/-- Every job took permitted steps, and no operation came into being. -/
structure Moves (P : Kind → Job → Prop) (t : Int) (db db' : Db) : Prop where
  kept : ∀ {id j}, db.job id = some j → ∃ j', db'.job id = some j' ∧ JobRun P t j j'
  absent : ∀ {id}, db.operation id = none → db.Same db' id

theorem Moves.refl (P : Kind → Job → Prop) (t : Int) (db : Db) : Moves P t db db :=
  ⟨fun h => ⟨_, h, .refl⟩, fun _ => ⟨rfl, rfl⟩⟩

theorem Moves.trans {P : Kind → Job → Prop} {t : Int} {db₁ db₂ db₃ : Db}
    (h₁ : Moves P t db₁ db₂) (h₂ : Moves P t db₂ db₃) : Moves P t db₁ db₃ where
  kept hj := by
    obtain ⟨j₂, hj₂, hr₁⟩ := h₁.kept hj
    obtain ⟨j₃, hj₃, hr₂⟩ := h₂.kept hj₂
    exact ⟨j₃, hj₃, hr₁.trans hr₂⟩
  absent h := by
    have hs₁ := h₁.absent h
    have hs₂ := h₂.absent (hs₁.1.trans h)
    exact ⟨hs₂.1.trans hs₁.1, hs₂.2.trans hs₁.2⟩

omit [Platform] in
theorem JobRun.mono {P Q : Kind → Job → Prop} {s t : Int} {j j' : Job}
    (h : JobRun P t j j') (hPQ : ∀ k i, P k i → Q k i)
    (ht : ∀ {k i i'}, JobStep t k i i' → JobStep s k i i') : JobRun Q s j j' :=
  Relation.ReflTransGen.mono (fun _ _ ⟨k, hk, hs⟩ => ⟨k, hPQ k _ hk, ht hs⟩) _ _ h

theorem Moves.mono {P Q : Kind → Job → Prop} {t : Int} {db db' : Db}
    (h : Moves P t db db') (hPQ : ∀ k j, P k j → Q k j) : Moves Q t db db' where
  kept hj := by
    obtain ⟨j', hj', hr⟩ := h.kept hj
    exact ⟨j', hj', hr.mono hPQ id⟩
  absent := h.absent

omit [Platform] in
theorem JobStep.later {s t : Int} {k : Kind} {j j' : Job} (h : JobStep t k j j')
    (hst : s ≤ t) : JobStep s k j j' := by
  cases h with
  | single h later hc => exact .single h (hst.trans later) hc
  | expire later _ hu _ h hc => exact .expire (hst.trans later) _ hu _ h hc
  | beginUnit later positive hc => exact .beginUnit (hst.trans later) positive hc
  | outcome h later later' live hit _ hu hc =>
      exact .outcome h (hst.trans later) (hst.trans later') live hit _ hu hc
  | stop later later' _ hu _ h hc => exact .stop (hst.trans later) later' _ hu _ h hc
  | requeue later later' live _ hv hit _ hu _ h hc =>
      exact .requeue (hst.trans later) (hst.trans later') live _ hv hit _ hu _ h hc

theorem Moves.later {P : Kind → Job → Prop} {s t : Int} {db db' : Db}
    (h : Moves P t db db') (hst : s ≤ t) : Moves P s db db' where
  kept hj := by
    obtain ⟨j', hj', hr⟩ := h.kept hj
    exact ⟨j', hj', hr.mono (fun _ _ => id) fun hs => hs.later hst⟩
  absent := h.absent

theorem Moved.moves {P : Kind → Job → Prop} {t : Int} {id : Uuid} {db db' : Db}
    {k : Kind} {j j' : Job} (h : Moved id db db' j j') (hs : JobStep t k j j')
    (hk : P k j) : Moves P t db db' where
  kept := by
    intro i ji hj
    by_cases hi : i = id
    · subst hi
      rw [h.before] at hj
      cases hj
      exact ⟨j', h.after, .single ⟨k, hk, hs⟩⟩
    · rw [← (h.others i hi).job_eq] at hj
      exact ⟨ji, hj, .refl⟩
  absent := by
    intro i hi
    refine h.others i ?_
    rintro rfl
    rw [(Db.job_eq_some.mp h.before).1] at hi
    cases hi

/-! ## One statement -/

/-- An aimed statement changes one job or nothing. -/
theorem updateOperations_cases {u : OperationUpdate} {id : Uuid} (hu : u.At id)
    {db db' : Db} {n : Nat} (h : updateOperations u db = .ok (n, db')) :
    n = 0 ∧ db' = db ∨
      n = 1 ∧ ∃ j, u.cond j.op = true ∧ Moved id db db' j ⟨u.set j.op, j.units⟩ := by
  by_cases hm : (db.operation id).any u.cond = true
  · obtain ⟨hop, hunits, hn⟩ := updateOperations_of_ok hu h
    rw [if_pos hm] at hn
    obtain ⟨o, ho, hc⟩ := (Option.any_eq_true _ _).mp hm
    refine .inr ⟨hn, ⟨o, db.unitsOf id⟩, hc, ?_, ?_, fun i hi => ⟨?_, hunits i⟩⟩
    · exact Db.job_eq_some.mpr ⟨ho, rfl⟩
    · refine Db.job_eq_some.mpr ⟨?_, hunits id⟩
      rw [hop, ho, Option.map_some, OperationUpdate.apply_of_cond hc]
    · rw [hop]
      cases hoi : db.operation i with
      | none => rfl
      | some oi =>
          rw [Option.map_some, hu.apply_other]
          rw [Db.operation_id hoi]
          exact hi
  · have hm : (db.operation id).any u.cond = false := by simpa using hm
    rw [updateOperations_of_no_match hu hm] at h
    cases h
    exact .inl ⟨rfl, rfl⟩

/-- A call whose only write is one aimed statement. -/
theorem auto_cases {α : Type} {u : OperationUpdate} {id : Uuid} (hu : u.At id)
    {body : Stmt α} {db : Db}
    (hbody : ∀ {a db'}, body db = .ok (a, db') → ∃ n, updateOperations u db = .ok (n, db')) :
    (Tx.auto body db).2 = db ∨
      ∃ j, u.cond j.op = true ∧
        Moved id db (Tx.auto body db).2 j ⟨u.set j.op, j.units⟩ := by
  rw [Tx.auto_eq]
  cases hb : body db with
  | error e => exact .inl rfl
  | ok p =>
      obtain ⟨n, hn⟩ := hbody hb
      rcases updateOperations_cases hu hn with ⟨-, h⟩ | ⟨-, j, hc, hj⟩
      · exact .inl h
      · exact .inr ⟨j, hc, hj⟩

theorem fencedStatement_cases {u : OperationUpdate} {id : Uuid} (hu : u.At id) (db : Db) :
    (fencedStatement u db).2 = db ∨
      ∃ j, u.cond j.op = true ∧
        Moved id db (fencedStatement u db).2 j ⟨u.set j.op, j.units⟩ := by
  refine auto_cases hu fun {a db'} h => ?_
  simp only [Tx.bind_eq_ok] at h
  obtain ⟨n, db₁, hn, h⟩ := h
  split at h
  · simp at h
  · simp only [Tx.pure_eq_ok] at h
    exact ⟨n, h.2 ▸ hn⟩

/-! ## Two statements -/

/-- A unit statement and then a statement that hit the operation move its job in
one step; the second statement sees the units as the first left them. -/
theorem pair_moved {v : UnitUpdate} {u : OperationUpdate} {id : Uuid} (hv : v.At id)
    (hu : u.At id) {db db₁ db₂ : Db} {n : Nat} (hn : updateUnits v db = .ok (n, db₁))
    (hm : updateOperations u db₁ = .ok (1, db₂)) :
    ∃ j, n = j.units.countP v.cond ∧ db₁.job id = some ⟨j.op, v.apply j.units⟩ ∧
      u.cond j.op = true ∧ Moved id db db₂ j ⟨u.set j.op, v.apply j.units⟩ := by
  obtain ⟨hop, hunits, hothers, hcount⟩ := updateUnits_of_ok hv hn
  rcases updateOperations_cases hu hm with ⟨h, -⟩ | ⟨-, ⟨o, units⟩, hc, hmoved⟩
  · cases h
  obtain ⟨ho, hunits₁⟩ := Db.job_eq_some.mp hmoved.before
  simp only at ho hunits₁ hc hmoved
  rw [hunits] at hunits₁
  subst hunits₁
  refine ⟨⟨o, db.unitsOf id⟩, hcount, hmoved.before, hc, ?_, hmoved.after, ?_⟩
  · exact Db.job_eq_some.mpr ⟨(hop id).symm.trans ho, rfl⟩
  · intro i hi
    obtain ⟨hoi, hui⟩ := hmoved.others i hi
    exact ⟨hoi.trans (hop i), hui.trans (hothers i hi)⟩

/-- Without a live delivery an outcome changes nothing. -/
theorem updateDeliveryUnit_of_not_live {f : Fence} {unit : Bool → UnitUpdate}
    {operation : List DeliveryUnitRow → OperationUpdate} {clock : Clock} {db : Db}
    (hlive : ∀ x, (unit false).cond x = false)
    (h : (db.operation f.operationId).any (Sql.delivering f (clock.tick 0)) = false) :
    updateDeliveryUnit f unit operation clock db = (.ok false, db) := by
  refine Tx.run_of_rollback (t := db) ?_
  simp only [Tx.bind_eq_ok, Tx.get_eq_ok]
  refine ⟨db, db, ⟨rfl, rfl⟩, 0, db, ?_, rfl⟩
  rw [h]
  exact updateUnits_of_no_match fun x _ => hlive x

/-- The unit statement and the operation statement of an outcome both hit their
row, or neither is kept. -/
theorem updateDeliveryUnit_cases {f : Fence} {k : Kind} {unit : Bool → UnitUpdate}
    {operation : List DeliveryUnitRow → OperationUpdate} {clock : Clock} {db : Db}
    (ho : Outcome f (clock.tick 0) (clock.tick 1) k (unit true) operation)
    (hlive : ∀ x, (unit false).cond x = false) :
    (updateDeliveryUnit f unit operation clock db).2 = db ∨
      ∃ j j', JobStep (clock.tick 0) k j j' ∧
        Moved f.operationId db (updateDeliveryUnit f unit operation clock db).2 j j' := by
  cases hd : (db.operation f.operationId).any (Sql.delivering f (clock.tick 0)) with
  | false =>
      rw [updateDeliveryUnit_of_not_live hlive hd]
      exact .inl rfl
  | true =>
      unfold updateDeliveryUnit
      rcases Tx.run_cases _ db with h | ⟨a, db₂, hb, hr⟩
      · exact .inl h
      rw [hr]
      simp only [Tx.bind_eq_ok, Tx.get_eq_ok] at hb
      obtain ⟨_, _, ⟨rfl, rfl⟩, n, db₁, hn, hb⟩ := hb
      split at hb
      · simp at hb
      rename_i hn1
      obtain rfl : n = 1 := not_not.mp hn1
      simp only [Tx.bind_eq_ok, Tx.get_eq_ok] at hb
      obtain ⟨_, _, ⟨rfl, rfl⟩, m, db₃, hm, hb⟩ := hb
      split at hb
      · simp at hb
      rename_i hm1
      obtain rfl : m = 1 := not_not.mp hm1
      simp only [Tx.pure_eq_ok] at hb
      obtain rfl := hb.2
      rw [hd] at hn
      obtain ⟨hv, hu⟩ := ho.aimed
      obtain ⟨j, hcount, hj, hc, hmoved⟩ := pair_moved hv (hu _).at hn hm
      rw [Db.batch_of_job hj] at hc hmoved
      rw [(Db.job_eq_some.mp hmoved.before).1, Option.any_some] at hd
      obtain ⟨x, hx, hxc⟩ := List.countP_pos_iff.mp (hcount ▸ Nat.one_pos)
      exact .inr ⟨j, _, .outcome ho le_rfl (clock.mono 0 1 (by omega)) hd ⟨x, hx, hxc⟩ _
        rfl hc, hmoved⟩

/-! ## Beginning a unit -/

theorem Sql.beginDeliveryUnit_of_not_ready {f : Fence} {ordinal count : Nat} {now : Int}
    {db : Db} (h : (db.operation f.operationId).any
      (Sql.beginUnitReady f (db.batch f.operationId f.attempt) ordinal count now) = false) :
    Sql.beginDeliveryUnit f ordinal count now db = .ok (0, db) := by
  show (if (db.operation f.operationId).any _ = true then _ else _ : Stmt Nat) db = _
  rw [if_neg (by simp [h])]
  rfl

theorem Sql.beginDeliveryUnit_cases {f : Fence} {ordinal count : Nat} {now t : Int}
    {db db' : Db} {n : Nat} (ht : t ≤ now) (positive : 0 < count)
    (h : Sql.beginDeliveryUnit f ordinal count now db = .ok (n, db')) :
    db' = db ∨ ∃ j j', JobStep t .beginUnit j j' ∧ Moved f.operationId db db' j j' := by
  by_cases hr : (db.operation f.operationId).any
      (Sql.beginUnitReady f (db.batch f.operationId f.attempt) ordinal count now) = true
  · simp only [Sql.beginDeliveryUnit, Tx.bind_eq_ok, Tx.get_eq_ok] at h
    obtain ⟨_, _, ⟨rfl, rfl⟩, h⟩ := h
    rw [if_pos hr] at h
    split at h
    · simp only [Tx.pure_eq_ok] at h
      exact .inl h.2.symm
    cases hi : db.deliveryUnits.insert (Sql.begunUnit f ordinal count now) with
    | none =>
        rw [hi] at h
        simp at h
    | some deliveryUnits =>
        rw [hi] at h
        simp only [Tx.bind_eq_ok, Tx.set_eq_ok, Tx.pure_eq_ok] at h
        obtain ⟨_, _, rfl, -, rfl⟩ := h
        obtain ⟨o, ho, hc⟩ := (Option.any_eq_true _ _).mp hr
        have hj : db.job f.operationId = some ⟨o, db.unitsOf f.operationId⟩ :=
          Db.job_eq_some.mpr ⟨ho, rfl⟩
        rw [Db.batch_of_job hj] at hc
        have hunits : ∀ i, Db.unitsOf { db with deliveryUnits } i = db.unitsOf i ++
            if f.operationId = i then [Sql.begunUnit f ordinal count now] else [] := by
          intro i
          rw [Db.unitsOf, Table.insert_eq_some.mp hi, List.filter_append, Db.unitsOf]
          by_cases he : f.operationId = i <;> simp [Sql.begunUnit, he]
        refine .inr ⟨_, _, .beginUnit ht positive hc, hj, ?_, fun i hne => ⟨rfl, ?_⟩⟩
        · refine Db.job_eq_some.mpr ⟨ho, ?_⟩
          rw [hunits, if_pos rfl]
        · rw [hunits, if_neg (Ne.symm hne), List.append_nil]
  · rw [Sql.beginDeliveryUnit_of_not_ready (by simpa using hr)] at h
    cases h
    exact .inl rfl

/-! ## Stopping a batch -/

theorem stopTransaction_cases (f : Fence) (reason : StopDeliveryReason) (clock : Clock)
    (db : Db) :
    (stopTransaction f reason clock db).2 = db ∨
      ∃ j j', JobStep (clock.tick 0) (.stop f reason (clock.tick 1)) j j' ∧
        Moved f.operationId db (stopTransaction f reason clock db).2 j j' := by
  unfold stopTransaction
  rcases Tx.run_cases _ db with h | ⟨a, db₂, hb, hr⟩
  · exact .inl h
  rw [hr]
  simp only [Tx.bind_eq_ok, Tx.get_eq_ok] at hb
  obtain ⟨_, _, ⟨rfl, rfl⟩, n, db₁, hn, _, _, ⟨rfl, rfl⟩, m, db₃, hm, hb⟩ := hb
  split at hb
  · simp at hb
  rename_i hm1
  obtain rfl : m = 1 := not_not.mp hm1
  simp only [Tx.pure_eq_ok] at hb
  obtain rfl := hb.2
  obtain ⟨j, -, hj, hc, hmoved⟩ := pair_moved (Sql.stopDeliveryBatchMark_at f _ _)
    (Sql.stopDeliveryBatch_fenced f _ reason _).at hn hm
  rw [Db.batch_of_job hj] at hc hmoved
  rw [(Db.job_eq_some.mp hmoved.before).1, Option.any_some] at hc hmoved
  exact .inr ⟨j, _, .stop le_rfl (clock.mono 0 1 (by omega)) _ rfl _ rfl hc, hmoved⟩

/-! ## Requeueing -/

/-- Evicting a cache row leaves the queue alone. -/
theorem Sql.requeueInvalidCacheEvict_same {f : Fence} {key : String} {revision : Uuid}
    {db db' : Db} {n : Nat}
    (h : Sql.requeueInvalidCacheEvict f key revision db = .ok (n, db')) (i : Uuid) :
    db.Same db' i := by
  simp only [Sql.requeueInvalidCacheEvict, Tx.bind_eq_ok, Tx.get_eq_ok, Tx.set_eq_ok,
    Tx.pure_eq_ok] at h
  obtain ⟨_, _, ⟨rfl, rfl⟩, _, _, rfl, -, rfl⟩ := h
  exact ⟨rfl, rfl⟩

/-- Unless the operation can be requeued, nothing happens. -/
theorem requeueTransaction_of_not_live {f : Fence} {key : String} {botId : Int}
    {revision : Uuid} {clock : Clock} {db : Db}
    (h : (db.operation f.operationId).any (Sql.requeueEligible f
      (db.batch f.operationId f.attempt) key botId (clock.tick 0)) = false) :
    requeueTransaction f key botId revision clock db = (.ok false, db) := by
  refine Tx.run_of_rollback (t := db) ?_
  simp only [Tx.bind_eq_ok, Tx.get_eq_ok]
  refine ⟨db, db, ⟨rfl, rfl⟩, 0, db, ?_, rfl⟩
  rw [h]
  exact updateUnits_of_no_match fun x _ => by simp [Sql.requeueInvalidCacheMark]

/-- A requeue reports whether it took place. -/
theorem requeueTransaction_cases (f : Fence) (key : String) (botId : Int)
    (revision : Uuid) (clock : Clock) (db : Db) :
    (∃ r, r ≠ .ok true ∧ requeueTransaction f key botId revision clock db = (r, db)) ∨
      ∃ db' j j', requeueTransaction f key botId revision clock db = (.ok true, db') ∧
        JobStep (clock.tick 0) .requeue j j' ∧ Moved f.operationId db db' j j' := by
  cases hd : (db.operation f.operationId).any (Sql.requeueEligible f
      (db.batch f.operationId f.attempt) key botId (clock.tick 0)) with
  | false =>
      rw [requeueTransaction_of_not_live hd]
      exact .inl ⟨_, by simp, rfl⟩
  | true =>
      unfold requeueTransaction
      rcases Tx.run_spec _ db with ⟨e, -, hr⟩ | ⟨a, db₂, hb, hr⟩ | ⟨a, db₂, hb, hr⟩
      · exact .inl ⟨_, by simp, hr⟩
      · refine .inl ⟨_, ?_, hr⟩
        rintro ⟨⟩
        simp only [Tx.bind_eq_ok, Tx.get_eq_ok] at hb
        obtain ⟨_, _, ⟨rfl, rfl⟩, n, db₁, hn, hb⟩ := hb
        split at hb
        · simp at hb
        simp only [Tx.bind_eq_ok, Tx.get_eq_ok] at hb
        obtain ⟨_, _, ⟨rfl, rfl⟩, m, db₃, hm, hb⟩ := hb
        split at hb
        · simp at hb
        simp only [Tx.bind_eq_ok, Tx.pure_eq_ok] at hb
        obtain ⟨_, _, _, hend, _⟩ := hb
        cases hend
      · rw [hr]
        simp only [Tx.bind_eq_ok, Tx.get_eq_ok] at hb
        obtain ⟨_, _, ⟨rfl, rfl⟩, n, db₁, hn, hb⟩ := hb
        split at hb
        · simp at hb
        rename_i hn1
        obtain rfl : n = 1 := not_not.mp hn1
        simp only [Tx.bind_eq_ok, Tx.get_eq_ok] at hb
        obtain ⟨_, _, ⟨rfl, rfl⟩, m, db₃, hm, hb⟩ := hb
        split at hb
        · simp at hb
        rename_i hm1
        obtain rfl : m = 1 := not_not.mp hm1
        simp only [Tx.bind_eq_ok, Tx.pure_eq_ok, Ended.commit.injEq] at hb
        obtain ⟨_, _, he, rfl, rfl⟩ := hb
        rw [hd] at hn
        obtain ⟨j, hcount, hj, hc, hmoved⟩ := pair_moved (Sql.requeueInvalidCacheMark_at ..)
          (Sql.requeueInvalidCacheOperation_fenced ..).at hn hm
        rw [Db.batch_of_job hj] at hc hmoved
        rw [Db.batch_of_job hmoved.before] at hd hcount hc hmoved
        rw [(Db.job_eq_some.mp hmoved.before).1, Option.any_some] at hd
        obtain ⟨x, hx, hxc⟩ := List.countP_pos_iff.mp (hcount ▸ Nat.one_pos)
        have hsame := Sql.requeueInvalidCacheEvict_same he
        refine .inr ⟨_, j, _, rfl, .requeue le_rfl (clock.mono 0 1 (by omega)) hd _ rfl
          ⟨x, hx, hxc⟩ _ rfl _ rfl hc, hmoved.before, ?_, fun i hi => ?_⟩
        · rw [(hsame _).job_eq, hmoved.after]
        · exact ⟨(hsame i).1.trans (hmoved.others i hi).1,
            (hsame i).2.trans (hmoved.others i hi).2⟩

/-! ## Expiry and claims -/

theorem expireEach_moves {clock : Clock} {leases : List (Uuid × Nat)} :
    ∀ {k : Nat} {db db' : Db}, expireEach clock leases k db = .ok ((), db') →
      Moves (fun k _ => k = .expire) (clock.tick 0) db db' := by
  induction leases with
  | nil =>
      intro k db db' h
      simp only [expireEach, Tx.pure_eq_ok, true_and] at h
      subst h
      exact .refl _ _ _
  | cons lease leases ih =>
      obtain ⟨id, attempt⟩ := lease
      intro k db db' h
      simp only [expireEach, Tx.bind_eq_ok, Tx.get_eq_ok] at h
      obtain ⟨n, db₁, hn, _, _, ⟨rfl, rfl⟩, m, db₂, hm, h⟩ := h
      split at h
      · simp at h
      rename_i hm1
      obtain rfl : m = 1 := not_not.mp hm1
      obtain ⟨j, -, hj, hc, hmoved⟩ := pair_moved (Sql.expireLeaseUnits_at ..)
        (Sql.expireLeaseOperation_at ..) hn hm
      rw [Db.batch_of_job hj] at hc hmoved
      have hid : j.op.id = id ∧ j.op.attempt = attempt := by
        simp only [Sql.expireLeaseOperation, Bool.and_eq_true, decide_eq_true_eq] at hc
        exact hc.1
      obtain ⟨rfl, rfl⟩ := hid
      have hstep := JobStep.expire (clock.mono 0 (k + 1) (by omega)) _ rfl _ rfl hc
      exact (hmoved.moves hstep rfl).trans (ih h)

theorem expireLeases_moves {clock : Clock} {db db' : Db}
    (h : expireLeases clock db = .ok ((), db')) :
    Moves (fun k _ => k = .expire) (clock.tick 0) db db' := by
  simp only [expireLeases, Tx.bind_eq_ok, Tx.get_eq_ok] at h
  obtain ⟨_, _, ⟨rfl, rfl⟩, h⟩ := h
  exact expireEach_moves h

theorem updateReturning_of_ok {u : OperationUpdate} {id : Uuid} {db db' : Db}
    {row : OperationRow} (hu : u.At id)
    (h : updateReturning u id db = .ok (some row, db')) :
    ∃ j, u.cond j.op = true ∧ row = u.set j.op ∧
      Moved id db db' j ⟨u.set j.op, j.units⟩ := by
  simp only [updateReturning, Tx.bind_eq_ok, Tx.get_eq_ok, Tx.pure_eq_ok] at h
  obtain ⟨n, _, hn, _, _, ⟨rfl, rfl⟩, hrow, rfl⟩ := h
  rcases updateOperations_cases hu hn with ⟨rfl, -⟩ | ⟨rfl, j, hc, hmoved⟩
  · cases hrow
  · rw [if_neg (by omega), (Db.job_eq_some.mp hmoved.after).1] at hrow
    cases hrow
    exact ⟨j, hc, rfl, hmoved⟩

theorem liftExcept_eq_ok {α : Type} {x : Except StoreError α} {a : α} {db db' : Db} :
    liftExcept x db = .ok (a, db') ↔ x = .ok a ∧ db = db' := by
  cases x with
  | ok b => simp [liftExcept]
  | error e => simp [liftExcept]

/-- A claim finds nothing after the expiry, or leases the operation it selects. -/
theorem claimBody_of_ok {workerId : String} {lease : Duration} {botId : Option Int}
    {policy : ClaimPolicy} {clock : Clock} {token : Uuid} {db db' : Db}
    {r : Option Claim}
    (h : claimBody workerId lease botId policy clock token db = .ok (r, db')) :
    ∃ db₁, expireLeases clock db = .ok ((), db₁) ∧
      (r = none ∧ db' = db₁ ∨
        ∃ c id j, r = some c ∧ claimSelected botId policy clock db₁ = some id ∧
          (claimStatement workerId lease botId clock token id).cond j.op = true ∧
          Moved id db₁ db' j
            ⟨(claimStatement workerId lease botId clock token id).set j.op, j.units⟩ ∧
          claimOf ((claimStatement workerId lease botId clock token id).set j.op) =
            .ok c) := by
  simp only [claimBody, Tx.bind_eq_ok, Tx.get_eq_ok] at h
  obtain ⟨_, db₁, hexp, _, _, ⟨rfl, rfl⟩, h⟩ := h
  refine ⟨db₁, hexp, ?_⟩
  cases hsel : claimSelected botId policy clock db₁ with
  | none =>
      rw [hsel] at h
      simp only [Tx.pure_eq_ok] at h
      exact .inl ⟨h.1.symm, h.2.symm⟩
  | some id =>
      rw [hsel] at h
      simp only [Tx.bind_eq_ok] at h
      obtain ⟨row, db₂, hrow, h⟩ := h
      cases row with
      | none => simp at h
      | some row =>
          simp only [Tx.bind_eq_ok, liftExcept_eq_ok, Tx.pure_eq_ok] at h
          obtain ⟨c, _, ⟨hclaim, rfl⟩, rfl, rfl⟩ := h
          obtain ⟨j, hc, rfl, hmoved⟩ := updateReturning_of_ok (claimStatement_at ..) hrow
          exact .inr ⟨c, id, j, rfl, rfl, hc, hmoved, hclaim⟩

/-- A claim that fails changes nothing. -/
theorem claimFiltered_cases (workerId : String) (lease : Duration) (botId : Option Int)
    (policy : ClaimPolicy) (clock : Clock) (token : Uuid) (db : Db) :
    (∃ e, claimFiltered workerId lease botId policy clock token db = (.error e, db)) ∨
      ∃ r db', checkClaim workerId lease policy = .ok () ∧
        claimFiltered workerId lease botId policy clock token db = (.ok r, db') ∧
        claimBody workerId lease botId policy clock token db = .ok (r, db') := by
  unfold claimFiltered guarded
  split
  · rename_i hcheck
    rw [Tx.auto_eq]
    split
    · exact .inr ⟨_, _, hcheck, rfl, ‹_›⟩
    · exact .inl ⟨_, rfl⟩
  · exact .inl ⟨_, rfl⟩

end YoinkCore.Storage
