import YoinkCore.Storage.CacheIdentity
import YoinkCore.Storage.MediaCache

/-!
# Clearing the media cache

A cached row is found by a hash of its request and cleared through the operations of its actor and
bot. Every row has an operation with its key, and the key of an operation tells its URL, as long as
the hash keeps the requests of the run apart. So a clearing finds all rows of its URL and no others.
-/

namespace YoinkCore.Storage

open Lib Lib.Json Domain Codec

section

variable [Platform]

/-! ## Calls that only drop rows -/

/-- Rows of the cache are dropped, and none is new. -/
def CacheWithin (rows : List MediaCacheRow) (db : Db) : Prop := ∀ r ∈ db.mediaCache.rows, r ∈ rows

variable {rows : List MediaCacheRow} {db : Db}

theorem preserves_updateOperations (u : OperationUpdate) :
    Tx.Preserves (CacheWithin rows) (updateOperations u) := by
  intro s a s' hs h
  rw [updateOperations_eq] at h
  split at h
  · cases h
  · cases h
    exact hs

theorem preserves_updateUnits (u : UnitUpdate) :
    Tx.Preserves (CacheWithin rows) (updateUnits u) := by
  intro s a s' hs h
  rw [updateUnits_eq] at h
  split at h
  · cases h
  · cases h
    exact hs

theorem preserves_updateReturning (u : OperationUpdate) (id : Uuid) :
    Tx.Preserves (CacheWithin rows) (updateReturning u id) := by
  refine .bind (preserves_updateOperations u) fun n => .get_bind fun s a s' hs h => ?_
  obtain ⟨-, rfl⟩ := Tx.pure_eq_ok.mp h
  exact hs

theorem preserves_deleteCache (p : MediaCacheRow → Bool) :
    Tx.Preserves (CacheWithin rows) (deleteCache p) := by
  refine .get_bind fun s a s' hs h => ?_
  obtain ⟨_, _, hset, hpure⟩ := Tx.bind_eq_ok.mp h
  obtain ⟨-, rfl⟩ := Tx.pure_eq_ok.mp hpure
  obtain rfl := Tx.set_eq_ok.mp hset
  exact fun r hr => hs r (List.mem_of_mem_filter hr)

theorem preserves_evict (f : Fence) (key : String) (revision : Uuid) :
    Tx.Preserves (CacheWithin rows) (Sql.requeueInvalidCacheEvict f key revision) := by
  refine .get_bind fun s a s' hs h => ?_
  obtain ⟨_, _, hset, hpure⟩ := Tx.bind_eq_ok.mp h
  obtain ⟨-, rfl⟩ := Tx.pure_eq_ok.mp hpure
  obtain rfl := Tx.set_eq_ok.mp hset
  exact fun r hr => hs r (List.mem_of_mem_filter hr)

theorem preserves_beginDeliveryUnit (f : Fence) (ordinal count : Nat) (now : Int) :
    Tx.Preserves (CacheWithin rows) (Sql.beginDeliveryUnit f ordinal count now) := by
  refine .get_bind fun s a s' hs h => ?_
  dsimp only at h
  split at h
  · split at h
    · obtain ⟨-, rfl⟩ := Tx.pure_eq_ok.mp h
      exact hs
    · cases hi : s.deliveryUnits.insert (Sql.begunUnit f ordinal count now) with
      | none =>
          rw [hi] at h
          exact (Tx.throw_ne_ok.mp h).elim
      | some deliveryUnits =>
          rw [hi] at h
          obtain ⟨_, _, hset, hpure⟩ := Tx.bind_eq_ok.mp h
          obtain ⟨-, rfl⟩ := Tx.pure_eq_ok.mp hpure
          obtain rfl := Tx.set_eq_ok.mp hset
          exact hs
  · obtain ⟨-, rfl⟩ := Tx.pure_eq_ok.mp h
    exact hs

theorem preserves_expireEach (clock : Clock) (leases : List (Uuid × Nat)) :
    ∀ k, Tx.Preserves (CacheWithin rows) (expireEach clock leases k) := by
  induction leases with
  | nil => exact fun _ => .pure
  | cons lease rest ih =>
      intro k
      refine .bind (preserves_updateUnits _) fun _ => .get_bind fun s a s' hs h => ?_
      refine Tx.Preserves.bind (preserves_updateOperations _) (fun n => ?_) s a s' hs h
      exact .ite (fun _ => .bind .throw fun _ => ih (k + 2)) fun _ => ih (k + 2)

theorem preserves_claimBody (workerId : String) (lease : Duration) (botId : Option Int)
    (policy : ClaimPolicy) (clock : Clock) (token : Uuid) :
    Tx.Preserves (CacheWithin rows) (claimBody workerId lease botId policy clock token) := by
  refine .bind (.get_bind fun s a s' hs h => preserves_expireEach clock _ 1 s a s' hs h) fun _ =>
    .get_bind fun s a s' hs h => ?_
  cases hid : claimSelected botId policy clock s with
  | none =>
      rw [hid] at h
      obtain ⟨-, rfl⟩ := Tx.pure_eq_ok.mp h
      exact hs
  | some id =>
      rw [hid] at h
      refine Tx.Preserves.bind (preserves_updateReturning _ _) (fun row => ?_) s a s' hs h
      cases row with
      | none => exact .throw
      | some row =>
          refine .bind (fun s a s' hs h => ?_) fun _ => .pure
          obtain ⟨-, rfl⟩ := liftExcept_eq_ok.mp h
          exact hs

theorem within_run {α : Type} {body : Stmt (Ended α)} (hbody : Tx.Preserves (CacheWithin rows) body)
    (hdb : CacheWithin rows db) : CacheWithin rows (Tx.run body db).2 := by
  rcases Tx.run_cases body db with hsame | ⟨a, s', hok, hrun⟩
  · rwa [hsame]
  · rw [hrun]
    exact hbody db _ s' hdb hok

theorem within_auto {α : Type} {stmt : Stmt α} (hstmt : Tx.Preserves (CacheWithin rows) stmt)
    (hdb : CacheWithin rows db) : CacheWithin rows (Tx.auto stmt db).2 :=
  within_run (.bind hstmt fun _ => .pure) hdb

theorem within_fenced (u : OperationUpdate) (hdb : CacheWithin rows db) :
    CacheWithin rows (fencedStatement u db).2 :=
  within_auto (.bind (preserves_updateOperations u) fun _ => .ite (fun _ => .throw) fun _ => .pure)
    hdb

theorem within_updateDeliveryUnit (f : Fence) (unit : Bool → UnitUpdate)
    (operation : List DeliveryUnitRow → OperationUpdate) (clock : Clock)
    (hdb : CacheWithin rows db) :
    CacheWithin rows (updateDeliveryUnit f unit operation clock db).2 := by
  refine within_run (.get_bind fun s a s' hs h => ?_) hdb
  refine Tx.Preserves.bind (preserves_updateUnits _) (fun n => ?_) s a s' hs h
  refine .ite (fun _ => .pure) fun _ => .get_bind fun s a s' hs h => ?_
  refine Tx.Preserves.bind (preserves_updateOperations _) (fun m => ?_) s a s' hs h
  exact .ite (fun _ => .pure) fun _ => .pure

theorem within_stop (f : Fence) (reason : StopDeliveryReason) (clock : Clock)
    (hdb : CacheWithin rows db) : CacheWithin rows (stopTransaction f reason clock db).2 := by
  refine within_run (.get_bind fun s a s' hs h => ?_) hdb
  refine Tx.Preserves.bind (preserves_updateUnits _) (fun _ => ?_) s a s' hs h
  refine .get_bind fun s a s' hs h => ?_
  refine Tx.Preserves.bind (preserves_updateOperations _) (fun n => ?_) s a s' hs h
  exact .ite (fun _ => .pure) fun _ => .pure

theorem within_requeue (f : Fence) (key : String) (botId : Int) (revision : Uuid) (clock : Clock)
    (hdb : CacheWithin rows db) :
    CacheWithin rows (requeueTransaction f key botId revision clock db).2 := by
  refine within_run (.get_bind fun s a s' hs h => ?_) hdb
  refine Tx.Preserves.bind (preserves_updateUnits _) (fun n => ?_) s a s' hs h
  refine .ite (fun _ => .pure) fun _ => .get_bind fun s a s' hs h => ?_
  refine Tx.Preserves.bind (preserves_updateOperations _) (fun m => ?_) s a s' hs h
  exact .ite (fun _ => .pure) fun _ => .bind (preserves_evict _ _ _) fun _ => .pure

theorem within_heartbeat (c : Claim) (lease : Duration) (clock : Clock)
    (hdb : CacheWithin rows db) : CacheWithin rows (heartbeatState c lease clock db).2 := by
  refine guarded_state hdb fun _ => within_auto (.bind (preserves_updateReturning _ _) ?_) hdb
  intro row
  cases row with
  | none => exact .throw
  | some row =>
      dsimp only
      split
      · exact .pure
      · exact .throw

/-- The calls that move operations drop rows of the cache at most. -/
theorem exec_within (call : Call) (clock : Clock) (fresh : Uuid) (hdb : CacheWithin rows db) :
    CacheWithin rows (exec call clock fresh db).2 := by
  cases call with
  | admitRequest config request key policy preserve now telegram =>
      show CacheWithin rows (admitInner ..).2
      rcases admitInner_cases config request key policy preserve now telegram clock fresh db with
        ⟨e, h⟩ | ⟨row, -, h⟩ | ⟨row, cacheKey, db', -, h, -, hrow⟩
      · rw [h]
        exact hdb
      · rw [h]
        exact hdb
      · rw [h]
        unfold CacheWithin
        rw [hrow.mediaCache]
        exact hdb
  | claim worker lease =>
      exact guarded_state hdb fun _ => within_auto (preserves_claimBody _ _ _ _ _ _) hdb
  | claimForBot worker lease botId policy =>
      exact guarded_state hdb fun _ => guarded_state hdb fun _ =>
        within_auto (preserves_claimBody _ _ _ _ _ _) hdb
  | updateProgress c percent stage => exact guarded_state hdb fun _ => within_fenced _ hdb
  | heartbeat c lease => exact within_heartbeat c lease clock hdb
  | complete c => exact guarded_state hdb fun _ => within_fenced _ hdb
  | fail c retryable code =>
      show CacheWithin rows (failWithCode c retryable code clock db).2
      unfold failWithCode
      split
      · exact hdb
      · exact within_fenced _ hdb
  | requestCancel actorId id =>
      exact guarded_state hdb fun _ =>
        within_auto (.bind (preserves_updateOperations _) fun _ => .pure) hdb
  | acknowledgeCancel c | beginDelivery c | completeDelivery c messageId | deliveryUnknown c
  | rejectDelivery c => exact guarded_state hdb fun _ => within_fenced _ hdb
  | beginDeliveryBatch c total =>
      exact guarded_state hdb fun _ =>
        within_auto (.bind (preserves_updateOperations _) fun _ => .pure) hdb
  | beginDeliveryUnit c ordinal count =>
      exact guarded_state hdb fun _ =>
        within_auto (.bind (preserves_beginDeliveryUnit _ _ _ _) fun _ => .pure) hdb
  | completeDeliveryUnit c ordinal ids =>
      exact guarded_state hdb fun _ => within_updateDeliveryUnit _ _ _ _ hdb
  | rejectDeliveryUnit c ordinal retryAfter =>
      show CacheWithin rows (rejectDeliveryUnit c ordinal retryAfter clock db).2
      unfold rejectDeliveryUnit
      split
      · exact hdb
      · exact within_updateDeliveryUnit _ _ _ _ hdb
  | unknownDeliveryUnit c ordinal =>
      exact guarded_state hdb fun _ => within_updateDeliveryUnit _ _ _ _ hdb
  | stopDeliveryBatch c reason => exact guarded_state hdb fun _ => within_stop _ _ _ hdb
  | requeueInvalidCache c ordinal revision =>
      show CacheWithin rows (requeueInvalidCache c ordinal revision clock db).2
      refine guarded_state hdb fun _ => ?_
      split
      · exact hdb
      · split
        · exact within_requeue _ _ _ _ _ hdb
        · exact hdb
        · exact hdb

/-! ## Operations over a call -/

/-- Operations keep their identity, and none is new. -/
def SameOperations (db db' : Db) : Prop :=
  ∀ id, db.operation id = none ∧ db'.operation id = none ∨
    ∃ o o', db.operation id = some o ∧ db'.operation id = some o' ∧ SameIdentity o o'

theorem Moves.sameOperations {P : Kind → Job → Prop} {t : Int} {db db' : Db}
    (h : Moves P t db db') : SameOperations db db' := by
  intro id
  cases ho : db.operation id with
  | none => exact .inl ⟨rfl, (h.absent ho).1.trans ho⟩
  | some o =>
      obtain ⟨j', hj', hrun⟩ :=
        h.kept (Db.job_eq_some.mpr ⟨ho, rfl⟩ : db.job id = some ⟨o, db.unitsOf id⟩)
      refine .inr ⟨o, j'.op, rfl, (Db.job_eq_some.mp hj').1, ?_⟩
      exact hrun.keep (I := fun j => SameIdentity o j.op)
        (fun _ hs hsame => hsame.trans hs.identity) ⟨rfl, rfl, rfl, rfl⟩

/-- A call keeps the operations as they are identified, or admits one. -/
theorem exec_operations (call : Call) (clock : Clock) (fresh : Uuid) (db : Db) :
    SameOperations db (exec call clock fresh db).2 ∨
      ∃ config request key policy preserve now telegram cacheKey row,
        call = .admitRequest config request key policy preserve now telegram ∧
          Checked request key policy cacheKey ∧
          Created config (request.withForceNsfw false) key policy cacheKey now clock fresh db row
            (exec call clock fresh db).2 := by
  cases hk : call.kind clock with
  | some k =>
      obtain ⟨id, he⟩ := exec_effect hk fresh db
      exact .inl he.moves.sameOperations
  | none =>
      cases call with
      | admitRequest config request key policy preserve now telegram =>
          have hstate : (exec (.admitRequest config request key policy preserve now telegram) clock
              fresh db).2 = (admitInner config request key policy preserve now telegram clock fresh
                db).2 := rfl
          rw [hstate]
          rcases admitInner_cases config request key policy preserve now telegram clock fresh db
            with ⟨e, h⟩ | ⟨row, -, h⟩ | ⟨row, cacheKey, db', -, h, hc, hrow⟩
          · rw [h]
            exact .inl (Moves.refl (fun _ _ => True) 0 db).sameOperations
          · rw [h]
            exact .inl (Moves.refl (fun _ _ => True) 0 db).sameOperations
          · rw [h]
            exact .inr ⟨config, request, key, policy, preserve, now, telegram, cacheKey, row, rfl,
              hc, hrow⟩
      | claim worker lease =>
          exact .inl (claimFiltered_moves (P := fun _ _ => True) (fun _ => trivial)
            fun _ _ _ _ _ _ => trivial).sameOperations
      | claimForBot worker lease botId policy =>
          show SameOperations _ (claimForBotBounded worker lease botId policy clock fresh db).2 ∨ _
          refine .inl (guarded_state (R := SameOperations db) ?_ fun _ => ?_)
          · exact (Moves.refl (fun _ _ => True) 0 db).sameOperations
          · exact (claimFiltered_moves (P := fun _ _ => True) (fun _ => trivial)
              fun _ _ _ _ _ _ => trivial).sameOperations
      | _ => cases hk

/-! ## Keys and URLs -/

/-- The hash keeps the requests apart. -/
def HashApart (R : DownloadRequest → Prop) : Prop :=
  ∀ p q t t', R p → R q → p.target = some t → q.target = some t' →
    materialDigest (cacheMaterial p t) = materialDigest (cacheMaterial q t') →
    cacheMaterial p t = cacheMaterial q t'

theorem url_of_cacheMaterial {p q : DownloadRequest} {t t' : DeliveryTarget}
    (h : cacheMaterial p t = cacheMaterial q t') : p.sourceUrl.asStr = q.sourceUrl.asStr := by
  obtain ⟨params, -, hp⟩ := cacheMaterial_eq p t
  obtain ⟨params', -, hq⟩ := cacheMaterial_eq q t'
  have heq := congrArg (get? · "source_url") (Json.obj.inj (hp.symm.trans (h.trans hq)))
  simp only [get?_insert _ _ (show "source_url" ≠ "target" by decide),
    get?_insert _ _ (show "source_url" ≠ "params" by decide),
    get?_hashedFields _ (show "source_url" ≠ "preference_overrides" by decide)
      (show "source_url" ≠ "force_nsfw" by decide)] at heq
  simpa [requestFields] using heq

/-- The key is that of a request for the URL. -/
def KeyOf (R : DownloadRequest → Prop) (url key : String) : Prop :=
  ∃ q, R q ∧ mediaCacheKey q = .ok key ∧ q.sourceUrl.asStr = url

theorem mediaCacheKey_eq_ok {r : DownloadRequest} {key : String} (h : mediaCacheKey r = .ok key) :
    ∃ t, r.target = some t ∧ key = cacheKeyText (materialDigest (cacheMaterial r t)) := by
  cases ht : r.target with
  | none =>
      rw [mediaCacheKey, ht] at h
      cases h
  | some t =>
      rw [mediaCacheKey_of_target ht] at h
      exact ⟨t, rfl, (Except.ok.inj h).symm⟩

/-- A key has one URL. -/
theorem KeyOf.unique {R : DownloadRequest → Prop} (hR : HashApart R) {url url' key : String}
    (h : KeyOf R url key) (h' : KeyOf R url' key) : url = url' := by
  obtain ⟨p, hp, hpkey, rfl⟩ := h
  obtain ⟨q, hq, hqkey, rfl⟩ := h'
  obtain ⟨t, ht, hk⟩ := mediaCacheKey_eq_ok hpkey
  obtain ⟨t', ht', hk'⟩ := mediaCacheKey_eq_ok hqkey
  exact url_of_cacheMaterial
    (hR p q t t' hp hq ht ht' (cacheKeyText_injective (hk.symm.trans hk')))

theorem jsonExtract_url (r : DownloadRequest) :
    jsonExtract (Codec.encode r) ["source_url"] = some (.str r.sourceUrl.asStr) := by
  simp [jsonExtract, Codec.encode, object, requestFields]

/-- The key kept with an operation is that of a request for its URL. -/
def Told (R : DownloadRequest → Prop) (o : OperationRow) : Prop :=
  ∀ key, o.cacheKey = some key →
    ∃ url, KeyOf R url key ∧ jsonExtract o.request ["source_url"] = some (.str url)

theorem Created.told {R : DownloadRequest → Prop} {config : StoreConfig}
    {request : DownloadRequest} {key : String} {policy : AdmissionPolicy}
    {cacheKey : Option String} {now : Option Int} {clock : Clock} {id : Uuid} {db db' : Db}
    {row : OperationRow} (hc : Checked request key policy cacheKey)
    (h : Created config (request.withForceNsfw false) key policy cacheKey now clock id db row db')
    (hR : R request) : Told R row := by
  intro kept hkept
  obtain ⟨prepared, hrequest, hcacheKey, -, forced, settings, ok, hprepared⟩ := h.stored
  have hkey := hc.cacheKey
  rw [← hcacheKey, hkept] at hkey
  cases ht : request.target with
  | none =>
      rw [admissionCacheKey, show (request.withForceNsfw false).target = none from ht] at hkey
      cases hkey
  | some target =>
      rw [admissionCacheKey, show (request.withForceNsfw false).target = some target from ht,
        mediaCacheKey_of_target (r := request.withForceNsfw false) ht,
        cacheMaterial_withForceNsfw, ← mediaCacheKey_of_target ht] at hkey
      obtain ⟨_, hkey, hsome⟩ := Tx.result_map_eq_ok.mp hkey
      cases hsome
      refine ⟨_, ⟨request, hR, hkey, rfl⟩, ?_⟩
      rw [hrequest, jsonExtract_url, hprepared]
      rfl

end

end YoinkCore.Storage
