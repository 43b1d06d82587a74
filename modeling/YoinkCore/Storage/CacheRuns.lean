import YoinkCore.Storage.CacheClear

/-!
# Runs of the media cache

The store with its media cache: operations move, batches are published, looked up and invalidated,
and owners clear URLs, in any order and by anybody. A clearing takes effect for the first message
only, and leaves nothing of its URL to its actor and bot.
-/

namespace YoinkCore.Storage

open Lib Lib.Json Domain Codec

section

variable [Platform]

/-- The store, and the latest time any statement has read. -/
structure CacheSystem where
  store : CacheStore
  now : Int

namespace CacheSystem

def cache (s : CacheSystem) : List MediaCacheRow := s.store.db.mediaCache.rows

end CacheSystem

/-- One atomic event: operations move, or a call on the cache with what it returned. -/
inductive CacheEvent where
  | store (e : Event)
  | publish (c : Claim) (media : List CachedMedia) (ttl : Duration)
      (reply : Except StoreError Bool)
  | lookup (request : DownloadRequest) (reply : Except StoreError (Option CachedBatch))
  | invalidate (request : DownloadRequest) (revision : Uuid) (reply : Except StoreError Bool)
  | clear (actorId : UInt64) (botId messageId : Int) (url : String) (owner : Bool)
      (reply : Except StoreError (Option Nat))

/-- Other parts of the program leave the cache alone. -/
inductive CacheStep : CacheSystem → CacheEvent → CacheSystem → Prop
  | store {s t : CacheSystem} {e : Event}
      (step : Step ⟨s.store.db, s.now⟩ e ⟨t.store.db, t.now⟩)
      (apart : e = .other → t.store.db.mediaCache = s.store.db.mediaCache)
      (watermarks : t.store.watermarks = s.store.watermarks) : CacheStep s (.store e) t
  | publish {s t : CacheSystem} {c : Claim} {media : List CachedMedia} {ttl : Duration}
      {revision : Uuid} {clock : Clock} {reply : Except StoreError Bool}
      (later : s.now ≤ clock.tick 0)
      (result : publishMediaCache c media ttl revision clock s.store.db = (reply, t.store.db))
      (elapsed : ∀ n, clock.tick n ≤ t.now)
      (watermarks : t.store.watermarks = s.store.watermarks) :
      CacheStep s (.publish c media ttl reply) t
  | lookup {s t : CacheSystem} {request : DownloadRequest} {now : Int}
      {reply : Except StoreError (Option CachedBatch)} (later : s.now ≤ now)
      (result : lookupMediaCache request now s.store.db = reply) (elapsed : now ≤ t.now)
      (same : t.store = s.store) : CacheStep s (.lookup request reply) t
  | invalidate {s t : CacheSystem} {request : DownloadRequest} {revision : Uuid}
      {reply : Except StoreError Bool} (later : s.now ≤ t.now)
      (result : invalidateMediaCache request revision s.store.db = (reply, t.store.db))
      (watermarks : t.store.watermarks = s.store.watermarks) :
      CacheStep s (.invalidate request revision reply) t
  | clear {s t : CacheSystem} {actorId : UInt64} {botId messageId : Int} {url : String}
      {owner : Bool} {now : Int} {reply : Except StoreError (Option Nat)} (later : s.now ≤ now)
      (result : clearMediaCache actorId botId messageId url owner now s.store =
        (reply, t.store)) (elapsed : now ≤ t.now) :
      CacheStep s (.clear actorId botId messageId url owner reply) t

/-- The store begins without operations, cached rows and watermarks. -/
def CacheReaches (s : CacheSystem) (es : List CacheEvent) (t : CacheSystem) : Prop :=
  s.store.db.Fresh ∧ s.cache = [] ∧ s.store.watermarks.rows = [] ∧ Run CacheStep s es t

namespace CacheEvent

/-- The request that an event hashes. -/
def request? : CacheEvent → Option DownloadRequest
  | .store (.call (.admitRequest _ request _ _ _ _ _) _ _ _) => some request
  | .store _ => none
  | .publish c _ _ _ => some c.request
  | .lookup request _ => some request
  | .invalidate request _ _ => some request
  | .clear .. => none

/-- The message of a clearing that took effect for the actor and bot. -/
def accepted? (actorId : Nat) (botId : Int) : CacheEvent → Option Int
  | .clear actorId' botId' messageId _ _ (.ok (some _)) =>
      if actorId'.toNat = actorId ∧ botId' = botId then some messageId else none
  | _ => none

/-- A batch of the URL is published to the actor through the bot. -/
def Publishes (actorId : Nat) (botId : Int) (url : String) : CacheEvent → Prop
  | .publish c _ _ reply =>
      reply = .ok true ∧ c.request.actorId.toNat = actorId ∧
        (∃ target, c.request.target = some target ∧ target.botId.toInt = botId) ∧
        c.request.sourceUrl.asStr = url
  | _ => False

/-- The requests of a run are among those that the hash keeps apart. -/
def Within (R : DownloadRequest → Prop) (e : CacheEvent) : Prop := ∀ r, e.request? = some r → R r

end CacheEvent

/-! ## The invariant -/

/-- The operation that a cached row belongs to. -/
structure Backs (o : OperationRow) (r : MediaCacheRow) : Prop where
  actorId : o.actorId = r.actorId
  forBot : o.forBot r.botId = true
  cacheKey : o.cacheKey = some r.cacheKey

/-- Operations tell the URL of their keys, and every cached row has an operation. -/
structure CacheInv (R : DownloadRequest → Prop) (db : Db) : Prop where
  told : ∀ o ∈ db.operations.rows, Told R o
  backed : ∀ r ∈ db.mediaCache.rows, ∃ o ∈ db.operations.rows, Backs o r

variable {s t : CacheSystem} {botId : Int} {db db' : Db}

theorem SameOperations.kept (h : SameOperations db db') {o : OperationRow}
    (ho : o ∈ db.operations.rows) : ∃ o' ∈ db'.operations.rows, SameIdentity o o' := by
  have hfound : db.operation o.id = some o := Db.operation_eq_some.mpr ⟨ho, rfl⟩
  rcases h o.id with ⟨hnone, -⟩ | ⟨p, p', hp, hp', hsame⟩
  · rw [hfound] at hnone
    cases hnone
  · rw [hfound] at hp
    cases hp
    exact ⟨p', (Db.operation_eq_some.mp hp').1, hsame⟩

variable {reply : Except StoreError Bool} {target : DeliveryTarget} {o' : OperationRow}
  {media : List CachedMedia} {es : List CacheEvent} {lines : List ScriptLine} {c : Claim}
  {e : CacheEvent} {ttl : Duration} {revision : Uuid} {clock : Clock}

theorem SameOperations.known (h : SameOperations db db') (ho : o' ∈ db'.operations.rows) :
    ∃ o ∈ db.operations.rows, SameIdentity o o' := by
  have hfound : db'.operation o'.id = some o' := Db.operation_eq_some.mpr ⟨ho, rfl⟩
  rcases h o'.id with ⟨-, hnone⟩ | ⟨p, p', hp, hp', hsame⟩
  · rw [hfound] at hnone
    cases hnone
  · rw [hfound] at hp'
    cases hp'
    exact ⟨p, (Db.operation_eq_some.mp hp).1, hsame⟩

theorem sameOperations_of_eq (h : db'.operations = db.operations) : SameOperations db db' := by
  intro id
  have heq : db'.operation id = db.operation id := by rw [Db.operation, Db.operation, h]
  cases ho : db.operation id with
  | none => exact .inl ⟨rfl, heq.trans ho⟩
  | some o => exact .inr ⟨o, o, rfl, heq.trans ho, rfl, rfl, rfl, rfl⟩

variable {R : DownloadRequest → Prop}

theorem Told.same {o : OperationRow} (h : Told R o) (hsame : SameIdentity o o') : Told R o' := by
  intro key hkey
  rw [hsame.request]
  exact h key (hsame.cacheKey ▸ hkey)

omit [Platform] in
theorem Backs.same {o : OperationRow} {r : MediaCacheRow} (h : Backs o r)
    (hsame : SameIdentity o o') : Backs o' r where
  actorId := hsame.actorId.trans h.actorId
  forBot := by
    rw [OperationRow.forBot, hsame.request]
    exact h.forBot
  cacheKey := hsame.cacheKey.trans h.cacheKey

namespace CacheInv

variable {db db' : Db}

theorem within (h : CacheInv R db) (hsame : SameOperations db db')
    (hcache : CacheWithin db.mediaCache.rows db') : CacheInv R db' where
  told o' ho' := by
    obtain ⟨o, ho, hid⟩ := hsame.known ho'
    exact (h.told o ho).same hid
  backed r hr := by
    obtain ⟨o, ho, hback⟩ := h.backed r (hcache r hr)
    obtain ⟨o', ho', hid⟩ := hsame.kept ho
    exact ⟨o', ho', hback.same hid⟩

theorem admitted (h : CacheInv R db) {row : OperationRow} (hrow : Told R row)
    (hops : db'.operations.rows = db.operations.rows ++ [row])
    (hcache : db'.mediaCache = db.mediaCache) : CacheInv R db' where
  told o ho := by
    rw [hops, List.mem_append, List.mem_singleton] at ho
    rcases ho with ho | rfl
    · exact h.told o ho
    · exact hrow
  backed r hr := by
    rw [hcache] at hr
    obtain ⟨o, ho, hback⟩ := h.backed r hr
    exact ⟨o, hops ▸ List.mem_append_left _ ho, hback⟩

/-- The URL of a cached row. -/
theorem url (h : CacheInv R db) {r : MediaCacheRow} (hr : r ∈ db.mediaCache.rows) :
    ∃ url, KeyOf R url r.cacheKey ∧ ∃ o ∈ db.operations.rows, Backs o r ∧
      jsonExtract o.request ["source_url"] = some (.str url) := by
  obtain ⟨o, ho, hback⟩ := h.backed r hr
  obtain ⟨url, hkey, hurl⟩ := h.told o ho _ hback.cacheKey
  exact ⟨url, hkey, o, ho, hback, hurl⟩

/-- The rows that a clearing deletes are those of its URL. -/
theorem clears_iff (h : CacheInv R db) (hR : HashApart R) {r : MediaCacheRow}
    (hr : r ∈ db.mediaCache.rows) (actorId : Nat) (botId : Int) (url : String) :
    (decide (r.actorId = actorId) && decide (r.botId = botId) &&
        db.operations.rows.any (Sql.clears actorId botId url r.cacheKey)) = true ↔
      r.actorId = actorId ∧ r.botId = botId ∧ KeyOf R url r.cacheKey := by
  simp only [Bool.and_eq_true, decide_eq_true_eq, and_assoc]
  refine and_congr_right fun hactor => and_congr_right fun hbot => ?_
  simp only [List.any_eq_true, Sql.clears, Bool.and_eq_true, decide_eq_true_eq]
  constructor
  · rintro ⟨o, ho, ⟨⟨-, -⟩, hurl⟩, hkey⟩
    obtain ⟨url', hkeyOf, hurl'⟩ := h.told o ho _ hkey
    rw [hurl] at hurl'
    cases hurl'
    exact hkeyOf
  · intro hkeyOf
    obtain ⟨url', hkeyOf', o, ho, hback, hurl⟩ := h.url hr
    obtain rfl := hkeyOf.unique hR hkeyOf'
    exact ⟨o, ho, ⟨⟨hback.actorId.trans hactor, hbot ▸ hback.forBot⟩, hurl⟩, hback.cacheKey⟩

end CacheInv

/-! ## What the calls do -/

theorem preserves_pruneEach {rows : List MediaCacheRow} (clock : Clock)
    (keys : List (Nat × Int × String)) :
    ∀ k, Tx.Preserves (CacheWithin rows) (pruneEach clock keys k) := by
  induction keys with
  | nil => exact fun _ => .pure
  | cons key rest ih => exact fun k => .bind (preserves_deleteCache _) fun _ => ih (k + 1)

theorem deleteCache_operations {p : MediaCacheRow → Bool} {n : Nat}
    (h : deleteCache p db = .ok (n, db')) : db'.operations = db.operations := by
  simp only [deleteCache, Tx.bind_eq_ok, Tx.get_eq_ok, Tx.set_eq_ok, Tx.pure_eq_ok] at h
  obtain ⟨_, _, ⟨rfl, rfl⟩, _, _, rfl, -, rfl⟩ := h
  rfl

theorem pruneEach_operations (clock : Clock) (keys : List (Nat × Int × String)) :
    ∀ {k : Nat} {db db' : Db} {u : Unit}, pruneEach clock keys k db = .ok (u, db') →
      db'.operations = db.operations := by
  induction keys with
  | nil =>
      intro k db db' u h
      obtain ⟨-, rfl⟩ := Tx.pure_eq_ok.mp h
      rfl
  | cons key rest ih =>
      intro k db db' u h
      obtain ⟨_, _, hdelete, hrest⟩ := Tx.bind_eq_ok.mp h
      exact (ih hrest).trans (deleteCache_operations hdelete)

/-- What the publication of a batch may leave. -/
inductive PublicationCase (c : Claim) (db : Db) : Except StoreError Bool → Db → Prop
  | kept {reply : Except StoreError Bool} {db' : Db} (fails : reply ≠ .ok true)
      (operations : db'.operations = db.operations)
      (within : CacheWithin db.mediaCache.rows db') : PublicationCase c db reply db'
  | published {db' : Db} {target : DeliveryTarget} {row : MediaCacheRow} {o : OperationRow}
      (htarget : c.request.target = some target) (actorId : row.actorId = c.request.actorId.toNat)
      (botId : row.botId = target.botId.toInt) (key : mediaCacheKey c.request = .ok row.cacheKey)
      (mem : o ∈ db.operations.rows) (backs : Backs o row)
      (operations : db'.operations = db.operations)
      (rows : ∀ r ∈ db'.mediaCache.rows, r = row ∨ r ∈ db.mediaCache.rows) :
      PublicationCase c db (.ok true) db'

theorem checkPublication_eq_ok {key : String} {items : Json}
    (h : checkPublication c media ttl = .ok (target, key, items)) :
    c.request.target = some target ∧ mediaCacheKey c.request = .ok key := by
  unfold checkPublication at h
  obtain ⟨_, -, h⟩ := Tx.result_bind_eq_ok.mp h
  cases ht : c.request.target with
  | none =>
      rw [ht] at h
      cases h
  | some t =>
      rw [ht] at h
      obtain ⟨_, -, h⟩ := Tx.result_bind_eq_ok.mp h
      obtain ⟨k, hk, h⟩ := Tx.result_bind_eq_ok.mp h
      obtain ⟨_, -, h⟩ := Tx.result_bind_eq_ok.mp h
      cases h
      exact ⟨rfl, hk⟩

theorem upsert_rows {row : MediaCacheRow} {db : Db} {mediaCache : Table mediaCacheSchema}
    (h : db.mediaCache.upsert MediaCacheRow.key row (fun r =>
      { r with revision := row.revision, media := row.media, expiresAt := row.expiresAt
               createdAt := row.createdAt }) = some mediaCache) :
    ∀ r ∈ mediaCache.rows, r = row ∨ r ∈ db.mediaCache.rows := by
  have hreplace : Table.Replaces MediaCacheRow.key row fun r =>
      { r with revision := row.revision, media := row.media, expiresAt := row.expiresAt
               createdAt := row.createdAt } := by
    refine ⟨fun _ => rfl, fun a ha => ?_⟩
    obtain ⟨hactor, hrest⟩ := Prod.mk.inj ha
    obtain ⟨hbot, hkey⟩ := Prod.mk.inj hrest
    cases a
    cases row
    simp_all
  intro r hr
  rcases (Table.mem_replace mediaCacheSchema_key hreplace h).mp hr with rfl | ⟨hmem, -⟩
  · exact .inl rfl
  · exact .inr hmem

/-- The operation that makes a batch eligible backs its row. -/
theorem backs_of_eligible (row : MediaCacheRow) {count : Nat} {request : Json}
    {batch : List DeliveryUnitRow}
    (h : (db.operation c.operationId).any (Sql.publishEligible c.operationId c.attempt
      row.actorId row.botId row.cacheKey count request batch) = true) :
    ∃ o ∈ db.operations.rows, Backs o row := by
  cases ho : db.operation c.operationId with
  | none =>
      rw [ho] at h
      cases h
  | some o =>
      rw [ho] at h
      simp only [Option.any_some, Sql.publishEligible, Sql.publishDelivered, Bool.and_eq_true,
        decide_eq_true_eq] at h
      exact ⟨o, (Db.operation_eq_some.mp ho).1, by tauto, by tauto, by tauto⟩

theorem publishBody_case {key : String} {count : Nat} {media : Json} {ttlSeconds : Nat}
    {db db' : Db} {ended : Ended Bool} (htarget : c.request.target = some target)
    (hkey : mediaCacheKey c.request = .ok key)
    (h : publishBody c target key count media ttlSeconds revision clock db = .ok (ended, db')) :
    (∃ b, ended = .rollback b ∧ b = false) ∨
      ∃ b, ended = .commit b ∧ PublicationCase c db (.ok b) db' := by
  unfold publishBody at h
  dsimp only at h
  obtain ⟨_, _, hget, h⟩ := Tx.bind_eq_ok.mp h
  obtain ⟨rfl, rfl⟩ := Tx.get_eq_ok.mp hget
  split at h
  · obtain ⟨rfl, -⟩ := Tx.pure_eq_ok.mp h
    exact .inl ⟨_, rfl, rfl⟩
  · obtain ⟨_, s, hprune, h⟩ := Tx.bind_eq_ok.mp h
    have hops := pruneEach_operations _ _ hprune
    have hwithin := preserves_pruneEach _ _ _ _ _ _ (fun _ hr => hr) hprune
    obtain ⟨_, _, hget, h⟩ := Tx.bind_eq_ok.mp h
    obtain ⟨rfl, rfl⟩ := Tx.get_eq_ok.mp hget
    split at h
    · obtain ⟨rfl, rfl⟩ := Tx.pure_eq_ok.mp h
      exact .inr ⟨false, rfl, .kept nofun hops hwithin⟩
    · rename_i heligible
      obtain ⟨_, s', hpublish, h⟩ := Tx.bind_eq_ok.mp h
      obtain ⟨rfl, rfl⟩ := Tx.pure_eq_ok.mp h
      unfold Sql.publishMediaCache at hpublish
      obtain ⟨_, _, hget, hpublish⟩ := Tx.bind_eq_ok.mp hpublish
      obtain ⟨rfl, rfl⟩ := Tx.get_eq_ok.mp hget
      obtain ⟨mediaCache, hupsert, rfl⟩ := write_eq_ok.mp hpublish
      obtain ⟨o, ho, hback⟩ := backs_of_eligible
        ⟨c.request.actorId.toNat, target.botId.toInt, key, revision, media,
          clock.tick publishTick + micros ttlSeconds, clock.tick publishTick⟩
        (by simpa using heligible)
      refine .inr ⟨true, rfl, .published htarget rfl rfl hkey (hops ▸ ho) hback hops ?_⟩
      intro r hr
      rcases upsert_rows hupsert r hr with rfl | hr
      · exact .inl rfl
      · exact .inr (hwithin r hr)

/-- An invalidation drops rows at most. -/
theorem invalidateMediaCache_within {request : DownloadRequest}
    (h : invalidateMediaCache request revision db = (reply, db')) :
    db'.operations = db.operations ∧ CacheWithin db.mediaCache.rows db' := by
  unfold invalidateMediaCache at h
  cases ht : request.target with
  | none =>
      rw [ht] at h
      cases h
      exact ⟨rfl, fun _ hr => hr⟩
  | some target =>
      rw [ht] at h
      cases hk : mediaCacheKey request with
      | error e =>
          rw [hk] at h
          cases h
          exact ⟨rfl, fun _ hr => hr⟩
      | ok key =>
          rw [hk] at h
          dsimp only at h
          rcases Tx.auto_cases (do
              let n ← deleteCache fun r =>
                decide (r.key = (request.actorId.toNat, target.botId.toInt, key)) &&
                  decide (r.revision = revision)
              return n == 1 : Stmt Bool) db with ⟨e, hauto⟩ | ⟨b, s, hok, hauto⟩
          · rw [hauto] at h
            cases h
            exact ⟨rfl, fun _ hr => hr⟩
          · rw [hauto] at h
            cases h
            obtain ⟨_, _, hdelete, hpure⟩ := Tx.bind_eq_ok.mp hok
            obtain ⟨-, rfl⟩ := Tx.pure_eq_ok.mp hpure
            exact ⟨deleteCache_operations hdelete,
              preserves_deleteCache _ _ _ _ (fun _ hr => hr) hdelete⟩

theorem publishMediaCache_case
    (h : publishMediaCache c media ttl revision clock db = (reply, db')) :
    PublicationCase c db reply db' := by
  unfold publishMediaCache at h
  cases hc : checkPublication c media ttl with
  | error e =>
      rw [hc] at h
      cases h
      exact .kept nofun rfl fun _ hr => hr
  | ok checked =>
      obtain ⟨target, key, items⟩ := checked
      rw [hc] at h
      dsimp only at h
      obtain ⟨htarget, hkey⟩ := checkPublication_eq_ok hc
      rcases Tx.run_spec (publishBody c target key media.length items ttl.asSecs revision clock) db
        with ⟨e, -, hrun⟩ | ⟨b, s, hbody, hrun⟩ | ⟨b, s, hbody, hrun⟩
      · rw [hrun] at h
        cases h
        exact .kept nofun rfl fun _ hr => hr
      · rw [hrun] at h
        cases h
        rcases publishBody_case htarget hkey hbody with ⟨_, heq, rfl⟩ | ⟨_, heq, -⟩
        · cases heq
          exact .kept nofun rfl fun _ hr => hr
        · cases heq
      · rw [hrun] at h
        cases h
        rcases publishBody_case htarget hkey hbody with ⟨_, heq, -⟩ | ⟨_, heq, hcase⟩
        · cases heq
        · cases heq
          exact hcase

/-- What a clearing may do. -/
inductive ClearCase (actorId : Nat) (botId messageId : Int) (url : String) (s : CacheStore) :
    Except StoreError (Option Nat) → CacheStore → Prop
  | failed {e : StoreError} : ClearCase actorId botId messageId url s (.error e) s
  | stale {last : Int} (known : s.watermark actorId botId = some last) (le : messageId ≤ last) :
      ClearCase actorId botId messageId url s (.ok none) s
  | cleared {n : Nat} {t : CacheStore}
      (above : ∀ last, s.watermark actorId botId = some last → last < messageId)
      (watermark : ∀ a b, t.watermark a b =
        if a = actorId ∧ b = botId then some messageId else s.watermark a b)
      (operations : t.db.operations = s.db.operations)
      (rows : t.db.mediaCache.rows = s.db.mediaCache.rows.filter fun r =>
        !(decide (r.actorId = actorId) && decide (r.botId = botId) &&
          s.db.operations.rows.any (Sql.clears actorId botId url r.cacheKey))) :
      ClearCase actorId botId messageId url s (.ok (some n)) t

omit [Platform] in
theorem watermark_replaces (row : WatermarkRow) : Table.Replaces WatermarkRow.key row fun r =>
    { r with messageId := row.messageId } := by
  refine ⟨fun _ => rfl, fun a ha => ?_⟩
  obtain ⟨hactor, hbot⟩ := Prod.mk.inj ha
  cases a
  cases row
  simp_all

theorem advanceWatermark_eq_ok {row : WatermarkRow} {s t : CacheStore} {advanced : Bool}
    (h : Sql.advanceWatermark row s = .ok (advanced, t)) :
    (advanced = false ∧ t = s ∧ ∃ last, s.watermark row.actorId row.botId = some last ∧
        row.messageId ≤ last) ∨
      advanced = true ∧ (∀ last, s.watermark row.actorId row.botId = some last →
        last < row.messageId) ∧ t.db = s.db ∧ ∀ a b, t.watermark a b =
          if a = row.actorId ∧ b = row.botId then some row.messageId else s.watermark a b := by
  unfold Sql.advanceWatermark at h
  obtain ⟨_, _, hget, h⟩ := Tx.bind_eq_ok.mp h
  obtain ⟨rfl, rfl⟩ := Tx.get_eq_ok.mp hget
  split at h
  · rename_i habove
    refine .inr ?_
    cases hu : s.watermarks.upsert WatermarkRow.key row
        fun r => { r with messageId := row.messageId } with
    | none =>
        rw [hu] at h
        exact (Tx.throw_ne_ok.mp h).elim
    | some watermarks =>
        rw [hu] at h
        obtain ⟨_, _, hset, hpure⟩ := Tx.bind_eq_ok.mp h
        obtain ⟨rfl, rfl⟩ := Tx.pure_eq_ok.mp hpure
        obtain rfl := Tx.set_eq_ok.mp hset
        refine ⟨rfl, fun last hlast => ?_, rfl, fun a b => ?_⟩
        · rw [hlast] at habove
          exact of_decide_eq_true habove
        · rw [CacheStore.watermark, Table.find_replace (watermark_replaces row) hu]
          by_cases hk : a = row.actorId ∧ b = row.botId
          · rw [if_pos hk, if_pos (by rw [hk.1, hk.2]; rfl)]
            rfl
          · have hne : (a, b) ≠ row.key := fun he => hk (Prod.mk.inj he)
            rw [if_neg hk, if_neg hne]
            rfl
  · rename_i habove
    obtain ⟨rfl, rfl⟩ := Tx.pure_eq_ok.mp h
    refine .inl ⟨rfl, rfl, ?_⟩
    cases hlast : s.watermark row.actorId row.botId with
    | none =>
        rw [hlast] at habove
        exact absurd rfl habove
    | some last =>
        rw [hlast] at habove
        refine ⟨last, rfl, Int.not_lt.mp fun hlt => habove ?_⟩
        simpa using hlt

theorem clearBody_case {actorId : Nat} {messageId : Int} {url : String} {now : Int}
    {s t : CacheStore} {ended : Ended (Option Nat)}
    (h : clearBody actorId botId messageId url now s = .ok (ended, t)) :
    ∃ n, ended = .commit n ∧ ClearCase actorId botId messageId url s (.ok n) t := by
  unfold clearBody at h
  obtain ⟨_, _, hget, h⟩ := Tx.bind_eq_ok.mp h
  obtain ⟨rfl, rfl⟩ := Tx.get_eq_ok.mp hget
  split at h
  · obtain ⟨_, _, hthrow, -⟩ := Tx.bind_eq_ok.mp h
    exact (Tx.throw_ne_ok.mp hthrow).elim
  · obtain ⟨advanced, u, hadvance, hrest⟩ := Tx.bind_eq_ok.mp h
    rcases advanceWatermark_eq_ok hadvance with ⟨rfl, rfl, last, hlast, hle⟩ |
      ⟨rfl, habove, hdb, hmark⟩
    · obtain ⟨rfl, rfl⟩ := Tx.pure_eq_ok.mp hrest
      exact ⟨none, rfl, .stale hlast hle⟩
    · obtain ⟨n, v, hclear, hlast⟩ := Tx.bind_eq_ok.mp hrest
      obtain ⟨rfl, rfl⟩ := Tx.pure_eq_ok.mp hlast
      obtain ⟨_, _, hget, hclear⟩ := Tx.bind_eq_ok.mp hclear
      obtain ⟨rfl, rfl⟩ := Tx.get_eq_ok.mp hget
      obtain ⟨_, _, hset, hpure⟩ := Tx.bind_eq_ok.mp hclear
      obtain ⟨-, rfl⟩ := Tx.pure_eq_ok.mp hpure
      obtain rfl := Tx.set_eq_ok.mp hset
      have hops : u.db.operations = s.db.operations := congrArg Db.operations hdb
      refine ⟨some n, rfl, .cleared habove hmark hops ?_⟩
      rw [← hdb]

theorem clearMediaCache_case {actorId : UInt64} {messageId : Int} {url : String} {owner : Bool}
    {now : Int} {s t : CacheStore} {reply : Except StoreError (Option Nat)}
    (h : clearMediaCache actorId botId messageId url owner now s = (reply, t)) :
    ClearCase actorId.toNat botId messageId url s reply t := by
  unfold clearMediaCache at h
  cases hc : checkClear actorId botId messageId url owner with
  | error e =>
      rw [hc] at h
      cases h
      exact .failed
  | ok checked =>
      rw [hc] at h
      dsimp only at h
      rcases Tx.run_spec (clearBody actorId.toNat botId messageId url now) s
        with ⟨e, -, hrun⟩ | ⟨b, u, hbody, hrun⟩ | ⟨b, u, hbody, hrun⟩
      · rw [hrun] at h
        cases h
        exact .failed
      · rcases clearBody_case hbody with ⟨n, heq, -⟩
        cases heq
      · rw [hrun] at h
        cases h
        rcases clearBody_case hbody with ⟨n, heq, hcase⟩
        cases heq
        exact hcase

/-! ## One step -/

theorem CacheStep.inv (h : CacheStep s e t) (he : e.Within R) (hs : CacheInv R s.store.db) :
    CacheInv R t.store.db := by
  cases h with
  | @store _ e step apart watermarks =>
      cases step with
      | call later result elapsed =>
          rename_i call clock fresh reply
          have hstate : (exec call clock fresh s.store.db).2 = t.store.db :=
            congrArg Prod.snd result
          have hwithin : CacheWithin s.store.db.mediaCache.rows t.store.db :=
            hstate ▸ exec_within call clock fresh fun _ hr => hr
          rcases exec_operations call clock fresh s.store.db with hsame |
            ⟨_, request, _, _, _, _, _, _, row, rfl, hc, hrow⟩
          · exact hs.within (hstate ▸ hsame) hwithin
          · rw [hstate] at hrow
            exact hs.admitted (hrow.told hc (he request rfl)) hrow.operations hrow.mediaCache
      | other later operations deliveryUnits =>
          refine hs.within (sameOperations_of_eq operations) fun r hr => ?_
          rwa [apart rfl] at hr
  | publish later result elapsed watermarks =>
      generalize hdb : t.store.db = db' at result
      cases publishMediaCache_case result with
      | kept fails operations within => exact hs.within (sameOperations_of_eq operations) within
      | @published _ _ row o htarget actorId botId key mem backs operations rows =>
          refine ⟨fun o' ho' => hs.told o' (operations ▸ ho'), fun r hr => ?_⟩
          rw [operations]
          rcases rows r hr with rfl | hr
          · exact ⟨o, mem, backs⟩
          · exact hs.backed r hr
  | lookup later result elapsed same =>
      rw [same]
      exact hs
  | invalidate later result watermarks =>
      obtain ⟨hops, hwithin⟩ := invalidateMediaCache_within result
      exact hs.within (sameOperations_of_eq hops) hwithin
  | clear later result elapsed =>
      generalize ht : t.store = store at result
      cases clearMediaCache_case result with
      | failed => exact hs
      | stale known le => exact hs
      | cleared above watermark operations rows =>
          refine hs.within (sameOperations_of_eq operations) fun r hr => ?_
          rw [rows] at hr
          exact List.mem_of_mem_filter hr

/-- A clearing that takes effect raises the watermark of its actor and bot; nothing else touches
it. -/
theorem CacheStep.watermark {s t : CacheSystem} {e : CacheEvent} (h : CacheStep s e t)
    (actorId : Nat) (botId : Int) :
    (e.accepted? actorId botId = none ∧
        t.store.watermark actorId botId = s.store.watermark actorId botId) ∨
      ∃ m, e.accepted? actorId botId = some m ∧ t.store.watermark actorId botId = some m ∧
        ∀ last, s.store.watermark actorId botId = some last → last < m := by
  cases h with
  | store step apart watermarks | publish later result elapsed watermarks =>
      exact .inl ⟨rfl, by rw [CacheStore.watermark, watermarks, CacheStore.watermark]⟩
  | lookup later result elapsed same => exact .inl ⟨rfl, by rw [same]⟩
  | invalidate later result watermarks =>
      exact .inl ⟨rfl, by rw [CacheStore.watermark, watermarks, CacheStore.watermark]⟩
  | @clear _ actorId' botId' messageId url owner now reply later result elapsed =>
      generalize ht : t.store = store at result
      cases clearMediaCache_case result with
      | failed | stale known le => exact .inl ⟨rfl, rfl⟩
      | cleared above watermark operations rows =>
          rw [watermark]
          by_cases hpair : actorId = actorId'.toNat ∧ botId = botId'
          · obtain ⟨rfl, rfl⟩ := hpair
            exact .inr ⟨messageId, if_pos ⟨rfl, rfl⟩, if_pos ⟨rfl, rfl⟩, above⟩
          · refine .inl ⟨if_neg fun hp => hpair ⟨hp.1.symm, hp.2.symm⟩, if_neg hpair⟩

/-- Nothing of the URL is left to the actor through the bot. -/
def Cleared (R : DownloadRequest → Prop) (actorId : Nat) (botId : Int) (url : String) (db : Db) :
    Prop :=
  ∀ r ∈ db.mediaCache.rows, ¬(r.actorId = actorId ∧ r.botId = botId ∧ KeyOf R url r.cacheKey)

/-- Only a publication of the URL ends a clearing. -/
theorem CacheStep.keeps_cleared {actorId : Nat} {url : String} (hR : HashApart R)
    (h : CacheStep s e t) (he : e.Within R) (hquiet : ¬e.Publishes actorId botId url)
    (hs : Cleared R actorId botId url s.store.db) : Cleared R actorId botId url t.store.db := by
  cases h with
  | @store _ e step apart watermarks =>
      cases step with
      | call later result elapsed =>
          rename_i call clock fresh reply
          have hstate : (exec call clock fresh s.store.db).2 = t.store.db :=
            congrArg Prod.snd result
          have hwithin : CacheWithin s.store.db.mediaCache.rows t.store.db :=
            hstate ▸ exec_within call clock fresh fun _ hr => hr
          exact fun r hr => hs r (hwithin r hr)
      | other later operations deliveryUnits =>
          intro r hr
          rw [apart rfl] at hr
          exact hs r hr
  | @publish _ c media ttl revision clock reply later result elapsed watermarks =>
      generalize hdb : t.store.db = db' at result
      cases publishMediaCache_case result with
      | kept fails operations within => exact fun r hr => hs r (within r hr)
      | @published _ target row o htarget hactor hbot key mem backs operations rows =>
          intro r hr
          rcases rows r hr with rfl | hr
          · rintro ⟨rfl, rfl, hkey⟩
            have hown : KeyOf R c.request.sourceUrl.asStr r.cacheKey :=
              ⟨c.request, he _ rfl, key, rfl⟩
            exact hquiet ⟨rfl, hactor.symm, ⟨target, htarget, hbot.symm⟩, hown.unique hR hkey⟩
          · exact hs r hr
  | lookup later result elapsed same =>
      rw [same]
      exact hs
  | invalidate later result watermarks =>
      exact fun r hr => hs r ((invalidateMediaCache_within result).2 r hr)
  | clear later result elapsed =>
      generalize ht : t.store = store at result
      cases clearMediaCache_case result with
      | failed => exact hs
      | stale known le => exact hs
      | cleared above watermark operations rows =>
          intro r hr
          rw [rows] at hr
          exact hs r (List.mem_of_mem_filter hr)

/-! ## Runs -/

theorem inv_of_run (h : CacheReaches s es t) (hes : ∀ e ∈ es, e.Within R) :
    CacheInv R t.store.db := by
  obtain ⟨⟨hops, -⟩, hcache, -, hrun⟩ := h
  refine (hrun.of_forall hes).invariant (I := fun s : CacheSystem => CacheInv R s.store.db)
    (fun hs hstep => hstep.1.inv hstep.2 hs) ⟨fun o ho => ?_, fun r hr => ?_⟩
  · rw [hops] at ho
    cases ho
  · rw [show s.store.db.mediaCache.rows = [] from hcache] at hr
    cases hr

/-- The watermark is the largest message that was accepted. -/
theorem watermark_of_run (h : Run CacheStep s es t) {actorId : Nat}
    (hs : s.store.watermark actorId botId = none) :
    t.store.watermark actorId botId =
      (es.filterMap (CacheEvent.accepted? actorId botId)).max? := by
  induction h with
  | nil => exact hs
  | @snoc es u t e hrun hstep ih =>
      rw [List.filterMap_append]
      rcases hstep.watermark actorId botId with ⟨hnone, hsame⟩ | ⟨m, hsome, hmark, habove⟩
      · rw [hsame, ih, List.filterMap_cons_none hnone, List.filterMap_nil, List.append_nil]
      · rw [hmark, List.filterMap_cons_some hsome, List.filterMap_nil]
        refine (List.max?_eq_some_iff.mpr ⟨by simp, fun x hx => ?_⟩).symm
        rcases List.mem_append.mp hx with hx | hx
        · cases hmax : (es.filterMap (CacheEvent.accepted? actorId botId)).max? with
          | none =>
              rw [List.max?_eq_none_iff.mp hmax] at hx
              cases hx
          | some last =>
              have hlast := habove last (ih.trans hmax)
              have hle := (List.max?_eq_some_iff.mp hmax).2 x hx
              omega
        · rw [List.mem_singleton.mp hx]

theorem lookup_of_cleared {actorId : Nat} {url : String} {request : DownloadRequest}
    (hs : Cleared R actorId botId url db) (hmem : R request)
    (hactor : request.actorId.toNat = actorId) (htarget : request.target = some target)
    (hbot : target.botId.toInt = botId) (hurl : request.sourceUrl.asStr = url) (now : Int) :
    lookupMediaCache request now db = .ok none := by
  have hkey := mediaCacheKey_of_target htarget
  have hnone : Sql.lookupMediaCache (request.actorId.toNat, target.botId.toInt,
      cacheKeyText (materialDigest (cacheMaterial request target))) now db = none := by
    refine List.find?_eq_none.mpr fun r hr hfound => ?_
    simp only [Bool.and_eq_true, decide_eq_true_eq] at hfound
    obtain ⟨hr1, hr2⟩ := Prod.mk.inj hfound.1.1
    obtain ⟨hr2, hr3⟩ := Prod.mk.inj hr2
    exact hs r hr ⟨hr1.trans hactor, hr2.trans hbot, request, hmem, hr3 ▸ hkey, hurl⟩
  unfold lookupMediaCache
  simp only [htarget, hkey]
  refine Tx.result_bind_eq_ok.mpr ⟨_, rfl, ?_⟩
  simp only [hnone]
  rfl

/-- What a clearing of the URL leaves: every other row, and nothing that a request for the URL
finds, until a batch of the URL is published to the same actor through the same bot. -/
structure ClearsUrl (R : DownloadRequest → Prop) (actorId : Nat) (botId : Int) (url : String)
    (t u : CacheSystem) : Prop where
  rows : ∀ r, r ∈ u.cache ↔
    r ∈ t.cache ∧ ¬(r.actorId = actorId ∧ r.botId = botId ∧ KeyOf R url r.cacheKey)
  lookups : ∀ es v, Run CacheStep u es v →
    (∀ e ∈ es, e.Within R ∧ ¬e.Publishes actorId botId url) →
    ∀ request target now, R request → request.actorId.toNat = actorId →
      request.target = some target → target.botId.toInt = botId →
      request.sourceUrl.asStr = url → lookupMediaCache request now v.store.db = .ok none

theorem clearsUrl_of_rows {u : CacheSystem} {actorId : Nat} {url : String} (hR : HashApart R)
    (ht : CacheInv R t.store.db) (hrows : u.cache = t.cache.filter fun r =>
      !(decide (r.actorId = actorId) && decide (r.botId = botId) &&
      t.store.db.operations.rows.any (Sql.clears actorId botId url r.cacheKey))) :
    ClearsUrl R actorId botId url t u := by
  have hiff : ∀ r, r ∈ u.cache ↔
      r ∈ t.cache ∧ ¬(r.actorId = actorId ∧ r.botId = botId ∧ KeyOf R url r.cacheKey) := by
    intro r
    rw [hrows, List.mem_filter]
    refine and_congr_right fun hr => ?_
    rw [← ht.clears_iff hR hr actorId botId url, Bool.not_eq_true', Bool.not_eq_true]
  refine ⟨hiff, fun es v hrun hes request target now hmem hactor htarget hbot hurl => ?_⟩
  have hcleared : Cleared R actorId botId url v.store.db :=
    (hrun.of_forall hes).invariant
      (I := fun s : CacheSystem => Cleared R actorId botId url s.store.db)
      (fun hs hstep => hstep.1.keeps_cleared hR hstep.2.1 hstep.2.2 hs)
      fun r hr => ((hiff r).mp hr).2
  exact lookup_of_cleared hcleared hmem hactor htarget hbot hurl now

/-- **A clearing takes effect once and completely.** The watermark of an actor and bot is the
largest message accepted and never falls, a message that is not above it changes nothing, and an
accepted one removes the rows of its URL and no others. -/
theorem cache_clears {R : DownloadRequest → Prop} {s t : CacheSystem} {es : List CacheEvent}
    (hR : HashApart R) (h : CacheReaches s es t) (hes : ∀ e ∈ es, e.Within R) :
    (∀ actorId botId, t.store.watermark actorId botId =
      (es.filterMap (CacheEvent.accepted? actorId botId)).max?) ∧
    (∀ r ∈ t.cache, ∃! url, KeyOf R url r.cacheKey) ∧
    ∀ e u, CacheStep t e u →
      (∀ actorId botId w, t.store.watermark actorId botId = some w →
        ∃ w', u.store.watermark actorId botId = some w' ∧ w ≤ w') ∧
      ∀ actorId botId messageId url owner reply,
        e = .clear actorId botId messageId url owner reply →
        ((∃ w, t.store.watermark actorId.toNat botId = some w ∧ messageId ≤ w) →
          u.store = t.store) ∧
        ∀ n, reply = .ok (some n) → ClearsUrl R actorId.toNat botId url t u := by
  have hinv := inv_of_run h hes
  refine ⟨fun actorId botId => ?_, fun r hr => ?_, fun e u hstep => ⟨?_, ?_⟩⟩
  · refine watermark_of_run h.2.2.2 ?_
    rw [CacheStore.watermark, Table.find, h.2.2.1]
    rfl
  · obtain ⟨url, hurl, -⟩ := hinv.url hr
    exact ⟨url, hurl, fun url' hurl' => hurl'.unique hR hurl⟩
  · intro actorId botId w hw
    rcases hstep.watermark actorId botId with ⟨-, hsame⟩ | ⟨m, -, hmark, habove⟩
    · exact ⟨w, hsame.trans hw, Int.le_refl w⟩
    · exact ⟨m, hmark, Int.le_of_lt (habove w hw)⟩
  · rintro actorId botId messageId url owner reply rfl
    cases hstep with
    | clear later result elapsed =>
        have hcase := clearMediaCache_case result
        generalize hu : u.store = store at hcase
        cases hcase with
        | failed => exact ⟨fun _ => rfl, fun _ hn => by cases hn⟩
        | stale known le => exact ⟨fun _ => rfl, fun _ hn => by cases hn⟩
        | cleared above watermark operations rows =>
            refine ⟨fun hold => ?_, fun n hn => ?_⟩
            · obtain ⟨w, hw, hle⟩ := hold
              have := above w hw
              omega
            · refine clearsUrl_of_rows hR hinv ?_
              rw [CacheSystem.cache, hu]
              exact rows

/-- A script of calls is a run of the store with its cache. -/
theorem play_cacheRun :
    ∀ {s : CacheSystem}, inOrder s.now lines →
      Run CacheStep s ((play ⟨s.store.db, s.now⟩ lines).1.map .store)
        ⟨⟨(play ⟨s.store.db, s.now⟩ lines).2.db, s.store.watermarks⟩,
          (play ⟨s.store.db, s.now⟩ lines).2.now⟩ := by
  induction lines with
  | nil => exact fun _ => .nil
  | cons line lines ih =>
      intro s h
      have hstep := CacheStep.store (s := s)
        (t := ⟨⟨(exec line.call (Clock.still line.now) line.fresh s.store.db).2,
          s.store.watermarks⟩, line.now⟩)
        (play_step (s := ⟨s.store.db, s.now⟩) h.1) nofun rfl
      exact (Run.single hstep).append (ih h.2)

/-- The request that a call admits. -/
def Call.admits? : Call → Option DownloadRequest
  | .admitRequest _ request _ _ _ _ _ => some request
  | _ => none

theorem within_play {R : DownloadRequest → Prop}
    (h : ∀ line ∈ lines, ∀ r, line.call.admits? = some r → R r) :
    ∀ {s : System}, ∀ e ∈ (play s lines).1.map CacheEvent.store, e.Within R := by
  induction lines with
  | nil =>
      intro s e he
      cases he
  | cons line lines ih =>
      intro s e he
      rcases List.mem_cons.mp he with rfl | he
      · intro r hr
        refine h line List.mem_cons_self r ?_
        cases hcall : line.call with
        | admitRequest config request key policy preserve now telegram =>
            rw [hcall] at hr
            exact hr
        | _ =>
            rw [hcall] at hr
            cases hr
      · exact ih (fun line' hline => h line' (List.mem_cons_of_mem _ hline)) e he

theorem publish_step (now : Int) (c : Claim) (media : List CachedMedia) (ttl : Duration)
    (revision : Uuid) (later : s.now ≤ now) :
    let r := publishMediaCache c media ttl revision (Clock.still now) s.store.db
    CacheStep s (.publish c media ttl r.1) ⟨⟨r.2, s.store.watermarks⟩, now⟩ :=
  .publish later rfl (fun _ => Int.le_refl now) rfl

theorem clear_step {now : Int} (actorId : UInt64) (botId messageId : Int) (url : String)
    (owner : Bool) (later : s.now ≤ now) :
    let r := clearMediaCache actorId botId messageId url owner now s.store
    CacheStep s (.clear actorId botId messageId url owner r.1) ⟨r.2, now⟩ :=
  .clear later rfl (Int.le_refl now)

end

/-! ## A clearing -/

namespace Scenario

section

attribute [local instance] platform

/-- A database that knows the user of the examples. -/
def known : CacheSystem :=
  ⟨⟨{ Db.empty with users := ⟨[⟨7, .user, none⟩], by decide, by decide⟩ }, .empty _⟩, 0⟩

def document : CachedMedia := ⟨.document, "file", 1, none⟩

/-- The bot has delivered the operation. -/
def atDelivery : CacheSystem :=
  ⟨⟨(play ⟨known.store.db, 0⟩ botDelivered).2.db, known.store.watermarks⟩,
    (play ⟨known.store.db, 0⟩ botDelivered).2.now⟩

def publication : Except StoreError Bool × Db :=
  publishMediaCache (held delivery 1 2) [document] (.ofSecs 60) (uuid 9) (Clock.still 6)
    atDelivery.store.db

/-- The batch is published. -/
def atPublication : CacheSystem := ⟨⟨publication.2, atDelivery.store.watermarks⟩, 6⟩

def clearing : Except StoreError (Option Nat) × CacheStore :=
  clearMediaCache 7 1 5 sourceUrl.asStr true 7 atPublication.store

end

def removed : Except StoreError (Option Nat) → Option Nat
  | .ok (some n) => some n
  | _ => none

theorem eq_of_removed {r : Except StoreError (Option Nat)} {n : Nat} (h : removed r = some n) :
    r = .ok (some n) := by
  unfold removed at h
  split at h
  · cases h
    rfl
  · cases h

end Scenario

open Scenario in
attribute [local instance] Scenario.platform in
theorem cache_clears_published : ∃ t u : CacheSystem, t.cache.length = 1 ∧
    CacheStep t (.clear 7 1 5 sourceUrl.asStr true (.ok (some 1))) u ∧
      ClearsUrl (fun r => r = delivery) 7 1 sourceUrl.asStr t u := by
  have hdelivered : Run CacheStep known ((play ⟨known.store.db, 0⟩ botDelivered).1.map .store)
      atDelivery := play_cacheRun (s := known) (by decide)
  have hrun := hdelivered.snoc
    (publish_step 6 (held delivery 1 2) [document] (.ofSecs 60) (uuid 9)
      (by decide +kernel))
  have hreply : clearing.1 = .ok (some 1) := eq_of_removed (by decide +kernel)
  have hstep : CacheStep atPublication (.clear 7 1 5 sourceUrl.asStr true (.ok (some 1)))
      ⟨clearing.2, 7⟩ :=
    hreply ▸ clear_step (s := atPublication) 7 1 5 sourceUrl.asStr true (by decide)
  have hreach : CacheReaches known _ atPublication := ⟨⟨rfl, rfl⟩, rfl, rfl, hrun⟩
  have hapart : HashApart fun r => r = delivery := by
    rintro p q t t' rfl rfl ht ht' -
    rw [ht] at ht'
    cases ht'
    rfl
  refine ⟨atPublication, ⟨clearing.2, 7⟩, by decide +kernel, hstep, ?_⟩
  refine (((cache_clears hapart hreach ?_).2.2 _ _ hstep).2 7 1 5 sourceUrl.asStr true
    (.ok (some 1)) rfl).2 1 rfl
  intro e he
  rcases List.mem_append.mp he with he | he
  · refine within_play (R := fun r => r = delivery) ?_ e he
    intro line hline r hr
    simp only [botDelivered, List.mem_cons, List.not_mem_nil, or_false] at hline
    rcases hline with rfl | rfl | rfl | rfl | rfl <;> cases hr
    rfl
  · rw [List.mem_singleton.mp he]
    intro r hr
    cases hr
    rfl

end YoinkCore.Storage
