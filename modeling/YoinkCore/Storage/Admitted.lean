import YoinkCore.Storage.Effect

/-!
# What an admission does

Each statement of the transaction writes one table. An admission that commits a
new operation therefore leaves the database with exactly the writes listed in
`Created`, and any other admission leaves the database alone.
-/

namespace YoinkCore.Storage

open Lib Domain

variable [Platform]

/-! ## Quotas -/

omit [Platform] in
theorem rateLimitSchema_key : Table.Keyed rateLimitSchema RateLimitRow.key := by
  intro a b h
  simp [rateLimitSchema, h]

variable {request : DownloadRequest} {policy : AdmissionPolicy} {db db' : Db} {actor : Nat}
  {id : Uuid}

theorem quotaPut_of_ok {window : String} {count resetAt : Int}
    (h : quotaPut actor window count resetAt db = .ok ((), db')) :
    ∃ rateLimits, db' = { db with rateLimits } ∧
      ∀ k, rateLimits.find RateLimitRow.key k =
        if k = (actor, window) then some ⟨actor, window, count, resetAt⟩
        else db.rateLimits.find RateLimitRow.key k := by
  simp only [quotaPut, Tx.bind_eq_ok, Tx.get_eq_ok, write_eq_ok] at h
  obtain ⟨_, _, ⟨rfl, rfl⟩, rateLimits, hw, rfl⟩ := h
  refine ⟨rateLimits, rfl, fun k => ?_⟩
  rw [Table.find_upsert (fun _ => by rfl) hw]
  show (if k = (actor, window) then _ else _) = _
  by_cases hk : k = (actor, window)
  · rw [if_pos hk, if_pos hk]
    cases hf : db.rateLimits.find RateLimitRow.key k with
    | none => rfl
    | some row =>
        have := Table.key_of_find hf
        rw [hk, RateLimitRow.key, Prod.mk.injEq] at this
        simp [this.1, this.2]
  · rw [if_neg hk, if_neg hk]

/-- Charging writes each counter once, one higher. -/
theorem chargeAll_of_ok {counters : List Counter} :
    ∀ {db db' : Db}, (counters.map Counter.window).Nodup →
      chargeAll actor counters db = .ok ((), db') →
      ∃ rateLimits, db' = { db with rateLimits } ∧
        (∀ c ∈ counters, rateLimits.find RateLimitRow.key (actor, c.window) =
          some ⟨actor, c.window, c.count + 1, c.resetAt⟩) ∧
        ∀ k, (∀ c ∈ counters, k ≠ (actor, c.window)) →
          rateLimits.find RateLimitRow.key k = db.rateLimits.find RateLimitRow.key k := by
  induction counters with
  | nil =>
      intro db db' _ h
      simp only [chargeAll, Tx.pure_eq_ok, true_and] at h
      exact ⟨db.rateLimits, h.symm, by simp, fun _ _ => rfl⟩
  | cons c counters ih =>
      intro db db' hnd h
      rw [List.map_cons, List.nodup_cons] at hnd
      simp only [chargeAll, Tx.bind_eq_ok] at h
      obtain ⟨_, db₁, hc, h⟩ := h
      obtain ⟨r₁, rfl, hput⟩ := quotaPut_of_ok hc
      obtain ⟨r, rfl, hin, hout⟩ := ih hnd.2 h
      simp only at hout
      refine ⟨r, rfl, ?_, fun k hk => ?_⟩
      · intro d hd
        rcases List.mem_cons.mp hd with rfl | hd
        · rw [hout, hput, if_pos rfl]
          intro e he hkey
          rw [Prod.mk.injEq] at hkey
          exact hnd.1 (hkey.2 ▸ List.mem_map_of_mem he)
        · exact hin d hd
      · rw [hout k fun e he => hk e (List.mem_cons_of_mem _ he), hput,
          if_neg (hk c List.mem_cons_self)]

theorem currentCounter_window {now : Int} {window : String} {secs : Nat} {c : Counter}
    (h : currentCounter db actor now window secs = .ok c) : c.window = window := by
  unfold currentCounter at h
  grind

/-- Every counter read is the current one of its window. -/
theorem readCounters_of_ok {now : Int} {windows : List (String × Nat × Nat)} :
    ∀ {counters : List Counter} {wait : Nat},
      readCounters db actor now windows = .ok (counters, wait) →
      counters.map Counter.window = windows.map Prod.fst ∧
        ∀ w ∈ windows, ∃ c ∈ counters,
          currentCounter db actor now w.1 w.2.1 = .ok c ∧ c.window = w.1 := by
  induction windows with
  | nil =>
      intro counters wait h
      cases h
      exact ⟨rfl, by simp⟩
  | cons w windows ih =>
      obtain ⟨window, secs, limit⟩ := w
      intro counters wait h
      simp only [readCounters, Tx.result_bind_eq_ok] at h
      obtain ⟨c, hc, _, -, ⟨cs, longest⟩, hcs, h⟩ := h
      cases h
      obtain ⟨hmap, hmem⟩ := ih hcs
      have hw := currentCounter_window hc
      refine ⟨by rw [List.map_cons, List.map_cons, hmap, hw], fun w hwm => ?_⟩
      rcases List.mem_cons.mp hwm with rfl | hwm
      · exact ⟨c, List.mem_cons_self, hc, hw⟩
      · obtain ⟨d, hd, h⟩ := hmem w hwm
        exact ⟨d, List.mem_cons_of_mem _ hd, h⟩

omit [Platform] in
/-- The windows of the quota, with their lengths in seconds. -/
def rateWindows : List (String × Nat) := [("minute", 60), ("hour", 3600), ("day", 86400)]

variable {telegram : Option TelegramMediaAdmission} {cacheKey : Option String}
  {prepared : DownloadRequest} {policy' : AdmissionPolicy} {limits quotas quotas' : QuotaLimits}
  {config : StoreConfig} {nowOverride : Option Int} {clock : Clock}

omit [Platform] in
theorem mem_quotaWindows {w : String × Nat} (h : w ∈ rateWindows) :
    ∃ limit, (w.1, w.2, limit) ∈ quotaWindows limits := by
  simp only [rateWindows, List.mem_cons, List.not_mem_nil, or_false] at h
  rcases h with rfl | rfl | rfl <;> simp [quotaWindows]

/-- The three counters of an actor went up by one, and no other row changed. -/
structure ChargedOnce (actor : Nat) (now : Int) (db db' : Db) : Prop where
  counted : ∀ w ∈ rateWindows, ∃ c, currentCounter db actor now w.1 w.2 = .ok c ∧
    quotaGet db' actor w.1 = some ⟨actor, w.1, c.count + 1, c.resetAt⟩
  others : ∀ user window, (user = actor → ∀ w ∈ rateWindows, window ≠ w.1) →
    quotaGet db' user window = quotaGet db user window

/-- Charging spares the owner and counts everyone else once. -/
theorem charge_of_ok {owner : Option Nat} {now : Int}
    (h : charge actor limits owner now db = .ok ((), db')) :
    ∃ rateLimits, db' = { db with rateLimits } ∧
      (owner = some actor → rateLimits = db.rateLimits) ∧
      (owner ≠ some actor → ChargedOnce actor now db { db with rateLimits }) := by
  simp only [charge, Tx.bind_eq_ok, liftExcept_eq_ok] at h
  obtain ⟨_, _, ⟨-, rfl⟩, h⟩ := h
  split at h
  · rename_i ho
    simp only [Tx.pure_eq_ok, true_and] at h
    exact ⟨db.rateLimits, h.symm, fun _ => rfl, fun hn => absurd ho hn⟩
  · rename_i ho
    simp only [Tx.bind_eq_ok, Tx.get_eq_ok, liftExcept_eq_ok] at h
    obtain ⟨_, _, ⟨rfl, rfl⟩, ⟨counters, wait⟩, _, ⟨hread, rfl⟩, h⟩ := h
    obtain ⟨hmap, hmem⟩ := readCounters_of_ok hread
    split at h
    · simp at h
    obtain ⟨r, rfl, hin, hout⟩ := chargeAll_of_ok (by rw [hmap]; simp [quotaWindows]) h
    refine ⟨r, rfl, fun hn => absurd hn ho, fun _ => ⟨fun w hw => ?_, ?_⟩⟩
    · have hlimit : ∃ limit, (w.1, w.2, limit) ∈ quotaWindows limits := mem_quotaWindows hw
      obtain ⟨limit, hl⟩ := hlimit
      obtain ⟨c, hc, hcur, hcw⟩ := hmem _ hl
      exact ⟨c, hcur, hcw ▸ hin c hc⟩
    · intro user window hne
      refine hout _ fun c hc he => ?_
      rw [Prod.mk.injEq] at he
      have hw : c.window ∈ rateWindows.map Prod.fst := by
        rw [show rateWindows.map Prod.fst = (quotaWindows limits).map Prod.fst from rfl,
          ← hmap]
        exact List.mem_map_of_mem hc
      obtain ⟨w, hw, hwe⟩ := List.mem_map.mp hw
      exact hne he.1 w hw (he.2.trans hwe.symm)

/-! ## The other side tables -/

theorem registerInputCleanup_of_ok (h : registerInputCleanup id db = .ok ((), db')) :
    ∃ progressNotices, db' = { db with progressNotices } := by
  simp only [registerInputCleanup, Tx.bind_eq_ok, Tx.get_eq_ok] at h
  obtain ⟨_, _, ⟨rfl, rfl⟩, h⟩ := h
  cases hn : (db.operation id).bind inputCleanup with
  | none =>
      rw [hn] at h
      simp only [Tx.pure_eq_ok, true_and] at h
      exact ⟨db.progressNotices, h.symm⟩
  | some notice =>
      rw [hn] at h
      simp only [Tx.ite_apply_state] at h
      split at h
      · simp only [Tx.pure_eq_ok, true_and] at h
        exact ⟨db.progressNotices, h.symm⟩
      · obtain ⟨notices, -, rfl⟩ := write_eq_ok.mp h
        exact ⟨notices, rfl⟩

theorem deferredMediaConsume_of_ok {target : DeliveryTarget} {messageId : Int}
    (h : deferredMediaConsume actor target messageId db = .ok ((), db')) :
    ∃ deferredMedia, db' = { db with deferredMedia } := by
  simp only [deferredMediaConsume, Tx.bind_eq_ok, Tx.get_eq_ok, write_eq_ok] at h
  obtain ⟨_, _, ⟨rfl, rfl⟩, deferredMedia, -, rfl⟩ := h
  exact ⟨deferredMedia, rfl⟩

theorem telegramMediaIntentInsert_of_ok {intent : Json}
    (h : telegramMediaIntentInsert id intent db = .ok ((), db')) :
    ∃ telegramMediaIntents, db' = { db with telegramMediaIntents } ∧
      telegramMediaIntents.rows = db.telegramMediaIntents.rows ++ [⟨id, intent⟩] := by
  simp only [telegramMediaIntentInsert, Tx.bind_eq_ok, Tx.get_eq_ok, write_eq_ok] at h
  obtain ⟨_, _, ⟨rfl, rfl⟩, intents, hi, rfl⟩ := h
  exact ⟨intents, rfl, Table.insert_eq_some.mp hi⟩

theorem recordContext_of_ok (h : recordContext request id telegram db = .ok ((), db')) :
    ∃ deferredMedia telegramMediaIntents,
      db' = { db with deferredMedia, telegramMediaIntents } := by
  cases telegram with
  | none =>
      simp only [recordContext, Tx.pure_eq_ok, true_and] at h
      exact ⟨db.deferredMedia, db.telegramMediaIntents, h.symm⟩
  | some context =>
      cases ht : request.target with
      | none => simp [recordContext, ht] at h
      | some target =>
          simp only [recordContext, ht, Tx.bind_eq_ok] at h
          obtain ⟨_, db₁, hd, hi⟩ := h
          obtain ⟨deferredMedia, rfl⟩ := deferredMediaConsume_of_ok hd
          obtain ⟨intents, rfl, -⟩ := telegramMediaIntentInsert_of_ok hi
          exact ⟨deferredMedia, intents, rfl⟩

/-- Consuming the mark of an actor tells whether there was one. -/
theorem nsfwMarkConsume_of_ok {forced : Bool} (h : nsfwMarkConsume actor db = .ok (forced, db')) :
    forced = db.nsfwMarks.rows.any (fun r => decide (r.actorId = actor)) ∧
      ∃ nsfwMarks, db' = { db with nsfwMarks } ∧
        nsfwMarks.rows = db.nsfwMarks.rows.filter fun r => !decide (r.actorId = actor) := by
  simp only [nsfwMarkConsume, Tx.bind_eq_ok, Tx.get_eq_ok, Tx.set_eq_ok,
    Tx.pure_eq_ok] at h
  obtain ⟨_, _, ⟨rfl, rfl⟩, _, _, rfl, rfl, rfl⟩ := h
  refine ⟨?_, _, rfl, rfl⟩
  rw [Bool.eq_iff_iff]
  simp [Table.delete, List.countP_eq_zero]

/-! ## The transaction -/

/-- The writes of an admission that created an operation. -/
structure Created (config : StoreConfig) (request : DownloadRequest) (key : String)
    (policy : AdmissionPolicy) (cacheKey : Option String) (nowOverride : Option Int)
    (clock : Clock) (id : Uuid) (db : Db) (row : OperationRow) (db' : Db) : Prop where
  settings : ∃ prepared policy' quotas,
    admissionSettings db request policy config.quotaLimits =
      .ok (prepared, policy', quotas) ∧
    row = admittedRow id request.actorId.toNat key
      (Codec.encode (prepared.withForceNsfw (db.nsfwMarks.rows.any fun r =>
        decide (r.actorId = request.actorId.toNat)))) policy' cacheKey (clock.tick 2)
  operations : db'.operations.rows = db.operations.rows ++ [row]
  deliveryUnits : db'.deliveryUnits = db.deliveryUnits
  mediaCache : db'.mediaCache = db.mediaCache
  botSettings : db'.botSettings = db.botSettings
  users : db'.users = db.users
  spared : config.quotaOwnerId = some request.actorId.toNat → db'.rateLimits = db.rateLimits
  charged : config.quotaOwnerId ≠ some request.actorId.toNat →
    ChargedOnce request.actorId.toNat (nowOverride.getD (clock.tick 1)) db db'
  nsfwMarks : db'.nsfwMarks.rows =
    db.nsfwMarks.rows.filter fun r => !decide (r.actorId = request.actorId.toNat)

theorem admitNew_of_ok {key : String} {a : Admission}
    (h : admitNew config request key policy cacheKey nowOverride telegram clock id db =
      .ok (a, db')) :
    a = ⟨id, true⟩ ∧ ∃ row,
      Created config request key policy cacheKey nowOverride clock id db row db' := by
  simp only [admitNew, Tx.bind_eq_ok, Tx.get_eq_ok, liftExcept_eq_ok, Tx.pure_eq_ok] at h
  obtain ⟨_, _, ⟨rfl, rfl⟩, _, _, ⟨-, rfl⟩, ⟨prepared, policy', quotas⟩, _, ⟨hset, rfl⟩,
    _, _, ⟨-, rfl⟩, _, db₁, hcharge, forced, db₂, hmark, _, db₃, hinsert, _, db₄, hnotice,
    _, db₅, hcontext, rfl, rfl⟩ := h
  obtain ⟨rateLimits, rfl, hspared, hcharged⟩ := charge_of_ok hcharge
  obtain ⟨hforced, marks, rfl, hmarks⟩ := nsfwMarkConsume_of_ok hmark
  simp only [admitInsert, Tx.bind_eq_ok, Tx.get_eq_ok, write_eq_ok] at hinsert
  obtain ⟨_, _, ⟨rfl, rfl⟩, operations, hop, rfl⟩ := hinsert
  obtain ⟨notices, rfl⟩ := registerInputCleanup_of_ok hnotice
  obtain ⟨deferred, intents, rfl⟩ := recordContext_of_ok hcontext
  exact ⟨rfl, _, {
    settings := ⟨prepared, policy', quotas, hset, by rw [hforced]⟩
    operations := Table.insert_eq_some.mp hop
    deliveryUnits := rfl
    mediaCache := rfl
    botSettings := rfl
    users := rfl
    spared := hspared
    charged := fun ho => ⟨(hcharged ho).counted, (hcharged ho).others⟩
    nsfwMarks := hmarks }⟩

/-- What an accepted admission has checked before its transaction. -/
structure Checked (request : DownloadRequest) (key : String) (policy : AdmissionPolicy)
    (cacheKey : Option String) : Prop where
  key : validateKey key = .ok ()
  policy : validatePolicy policy = .ok ()
  snapshot : request.downloaderSettings = none
  cacheKey : admissionCacheKey (request.withForceNsfw false) = .ok cacheKey

theorem checkAdmission_of_ok {key : String} (h : checkAdmission request key policy = .ok cacheKey) :
    Checked request key policy cacheKey := by
  simp only [checkAdmission, Tx.result_bind_eq_ok] at h
  obtain ⟨_, hk, _, hp, h⟩ := h
  split at h
  · cases h
  · rename_i hs
    exact ⟨hk, hp, by simpa using hs, h⟩

/-- **An admission fails, replays or creates.** Only the last one writes. -/
theorem admitInner_cases (config : StoreConfig) (request : DownloadRequest) (key : String)
    (policy : AdmissionPolicy) (preserve : Bool) (nowOverride : Option Int)
    (telegram : Option TelegramMediaAdmission) (clock : Clock) (id : Uuid) (db : Db) :
    (∃ e, admitInner config request key policy preserve nowOverride telegram clock id db =
        (.error e, db)) ∨
      (∃ row, admitExisting db request.actorId.toNat key = some row ∧
        admitInner config request key policy preserve nowOverride telegram clock id db =
          (.ok ⟨row.id, false⟩, db)) ∨
      ∃ row cacheKey db', admitExisting db request.actorId.toNat key = none ∧
        admitInner config request key policy preserve nowOverride telegram clock id db =
          (.ok ⟨id, true⟩, db') ∧
        Checked request key policy cacheKey ∧
        Created config (request.withForceNsfw false) key policy cacheKey nowOverride
          clock id db row db' := by
  unfold admitInner
  cases hc : checkAdmission request key policy with
  | error e => exact .inl ⟨e, rfl⟩
  | ok cacheKey =>
      simp only [Tx.auto_eq]
      cases hb : admitBody config (request.withForceNsfw false) key policy cacheKey
          preserve nowOverride telegram clock id db with
      | error e => exact .inl ⟨e, rfl⟩
      | ok p =>
          obtain ⟨a, db'⟩ := p
          refine .inr ?_
          simp only [admitBody, Tx.bind_eq_ok, Tx.get_eq_ok] at hb
          obtain ⟨_, _, ⟨rfl, rfl⟩, hb⟩ := hb
          cases he : admitExisting db request.actorId.toNat key with
          | some row =>
              rw [show (request.withForceNsfw false).actorId = request.actorId from rfl,
                he] at hb
              simp only [Tx.bind_eq_ok, liftExcept_eq_ok] at hb
              obtain ⟨_, _, ⟨-, rfl⟩, _, _, ⟨-, rfl⟩, hb⟩ := hb
              split at hb
              · simp only [Tx.pure_eq_ok] at hb
                obtain ⟨rfl, rfl⟩ := hb
                exact .inl ⟨row, rfl, rfl⟩
              · simp at hb
          | none =>
              rw [show (request.withForceNsfw false).actorId = request.actorId from rfl,
                he] at hb
              obtain ⟨rfl, row, hrow⟩ := admitNew_of_ok hb
              exact .inr ⟨row, cacheKey, db', rfl, rfl, checkAdmission_of_ok hc, hrow⟩

omit [Platform] in
theorem attempts_of_validatePolicy {p : AdmissionPolicy} (h : validatePolicy p = .ok ()) :
    1 ≤ p.maxAttempts ∧ p.maxAttempts ≤ 100 := by
  simp only [validatePolicy, ensure_eq_ok, DownloaderSettings.within, Bool.and_eq_true,
    decide_eq_true_eq] at h
  exact h.1.1.1.1

omit [Platform] in
theorem mapError_eq_ok {ε ε' α : Type} {e' : ε'} {x : Except ε α} {a : α} :
    mapError e' x = .ok a ↔ x = .ok a := by
  cases x <;> simp [mapError]

/-- The settings keep a snapshot when one of its limits is stored, and a stored
retry limit replaces that of the policy. -/
theorem admissionSettings_of_ok
    (h : admissionSettings db request policy quotas = .ok (prepared, policy', quotas')) :
    ∃ values settings, downloaderSettingValues db = .ok values ∧
      DownloaderSettings.fromSettings values = .ok settings ∧
      request.withDownloaderSettings
        (if snapshotActive values then some settings else none) = .ok prepared ∧
      (policy' = policy ∨ policy' = { policy with maxAttempts := settings.downloadRetries }) := by
  simp only [admissionSettings, Tx.result_bind_eq_ok, mapError_eq_ok] at h
  obtain ⟨values, hv, settings, hset, prepared', hp, h⟩ := h
  refine ⟨values, settings, hv, hset, ?_⟩
  split at h
  · cases h
  · simp only [Except.ok.injEq, Prod.mk.injEq] at h
    obtain ⟨rfl, rfl, -⟩ := h
    refine ⟨hp, ?_⟩
    split
    · exact .inr rfl
    · exact .inl rfl

theorem attempts_of_settings (hp : 1 ≤ policy.maxAttempts ∧ policy.maxAttempts ≤ 100)
    (h : admissionSettings db request policy quotas = .ok (prepared, policy', quotas')) :
    1 ≤ policy'.maxAttempts ∧ policy'.maxAttempts ≤ 100 := by
  obtain ⟨values, settings, -, hset, -, rfl | rfl⟩ := admissionSettings_of_ok h
  · exact hp
  · have hr := DownloaderSettings.inRange_of_fromSettings hset
    simp only [DownloaderSettings.inRange, DownloaderSettings.within, Bool.and_eq_true,
      decide_eq_true_eq] at hr
    show 1 ≤ settings.downloadRetries ∧ settings.downloadRetries ≤ 100
    omega

/-- The row of a new operation. -/
theorem Created.admitted {key : String} {row : OperationRow}
    (h : Created config request key policy cacheKey nowOverride clock id db row db')
    (hp : validatePolicy policy = .ok ()) : Admitted row := by
  obtain ⟨prepared, policy', quotas, hset, rfl⟩ := h.settings
  obtain ⟨hpos, hle⟩ := attempts_of_settings (attempts_of_validatePolicy hp) hset
  exact ⟨rfl, rfl, hpos, hle, rfl, rfl, rfl, rfl, rfl, rfl⟩

end YoinkCore.Storage
