import YoinkCore.Identity.DomainRules
import YoinkCore.Storage.System

/-!
# The media cache

What a delivered operation may leave behind for the next request of its actor through the same
bot. Publication is guarded by the operation, a lookup finds what has not expired, and an owner
clears a URL: once a message, and never by an old one.
-/

namespace YoinkCore.Storage

open Lib Lib.Json Domain Codec
open Identity (ContentMetadata)

/-! ## Cached media -/

inductive CachedMediaKind where
  | photo | video | audio | document
deriving DecidableEq

def CachedMediaKind.name : CachedMediaKind → String
  | photo => "photo"
  | video => "video"
  | audio => "audio"
  | document => "document"

structure CachedMedia where
  kind : CachedMediaKind
  fileId : String
  sizeBytes : Nat
  metadata : Option ContentMetadata
deriving DecidableEq

namespace CachedMedia

def maxFileIdBytes : Nat := 4096
def maxSizeBytes : Nat := 2 * 1024 * 1024 * 1024

def new (kind : CachedMediaKind) (fileId : String) (sizeBytes : Nat) : Option CachedMedia :=
  if fileId.isEmpty || decide (maxFileIdBytes < fileId.utf8ByteSize) ||
      !(fileId.toList.all fun c => Text.isAlphanumeric c || c == '_' || c == '-' || c == '=') then
    none
  else if sizeBytes = 0 || decide (maxSizeBytes < sizeBytes) then none
  else some ⟨kind, fileId, sizeBytes, none⟩

def withMetadata (m : CachedMedia) (metadata : ContentMetadata) : Option CachedMedia :=
  if metadata.valid then some { m with metadata := some metadata } else none

end CachedMedia

def ofTexts (texts : List Text.Str) : Json := .arr (texts.map fun t => .str (String.ofList t))

def encodeMetadata (m : ContentMetadata) : Json :=
  object [
    field "title" (.str (String.ofList m.title)),
    field "description" (.str (String.ofList m.description)),
    field "tags" (ofTexts m.tags),
    field "categories" (ofTexts m.categories)]

def asTexts (v : Json) : Option (List Text.Str) := do
  let items ← asArr v
  items.mapM fun item => (asStr item).map String.toList

def metadataOf (title description tags categories : Json) : Option ContentMetadata := do
  return ⟨(← asStr title).toList, (← asStr description).toList, ← asTexts tags,
    ← asTexts categories⟩

/-- A record may also be written as the sequence of its fields. -/
def decodeMetadata (v : Json) : Option ContentMetadata :=
  match v with
  | .arr [title, description, tags, categories] => metadataOf title description tags categories
  | .obj f => do
      guard (knownKeys f ["title", "description", "tags", "categories"])
      metadataOf (← get? f "title") (← get? f "description") (← get? f "tags")
        (← get? f "categories")
  | _ => none

def encodeItem (m : CachedMedia) : Json :=
  object [
    field "kind" (.str m.kind.name),
    field "file_id" (.str m.fileId),
    field "size_bytes" (.int m.sizeBytes),
    field "metadata" (nullable (m.metadata.map encodeMetadata))]

def readKind : String → Option CachedMediaKind
  | "photo" => some .photo
  | "video" => some .video
  | "audio" => some .audio
  | "document" => some .document
  | _ => none

def decodeItem (v : Json) : Option CachedMedia := do
  let f ← asObj v
  guard (f.length = 3 ∨ f.length = 4)
  guard (knownKeys f ["kind", "file_id", "size_bytes", "metadata"])
  let kind ← (get? f "kind").bind fun v => (asStr v).bind readKind
  let fileId ← (get? f "file_id").bind asStr
  let sizeBytes ← (get? f "size_bytes").bind (asNat (2 ^ 64 - 1))
  let media ← CachedMedia.new kind fileId sizeBytes
  match get? f "metadata" with
  | none | some .null => return media
  | some v => media.withMetadata (← decodeMetadata v)

def maxItemsJsonBytes : Nat := 512000
def minTtlSeconds : Nat := 1
def maxTtlSeconds : Nat := 31536000

section

variable [Platform]

def encodeMedia (media : List CachedMedia) : Except StoreError Json :=
  let v := .arr (media.map encodeItem)
  if DownloaderSettings.within 1 100 media.length &&
      decide ((Platform.jsonBytes v).length ≤ maxItemsJsonBytes) then .ok v
  else .error .invalidInput

def decodeMedia (v : Json) : Except StoreError (List CachedMedia) :=
  let read := do
    guard ((Platform.jsonBytes v).length ≤ maxItemsJsonBytes)
    let items ← asArr v
    guard (DownloaderSettings.within 1 100 items.length)
    items.mapM decodeItem
  match read with
  | some media => .ok media
  | none => .error .invalidStoredData

/-! ## Lookup -/

structure CachedBatch where
  revision : Uuid
  media : List CachedMedia
deriving DecidableEq

def MediaCacheRow.key (r : MediaCacheRow) : Nat × Int × String := (r.actorId, r.botId, r.cacheKey)

theorem mediaCacheSchema_key : Table.Keyed mediaCacheSchema MediaCacheRow.key := by
  intro a b h
  exact decide_eq_true h

/-- lookup_media_cache.sql -/
def Sql.lookupMediaCache (key : Nat × Int × String) (now : Int) (db : Db) :
    Option MediaCacheRow :=
  db.mediaCache.rows.find? fun r =>
    decide (r.key = key) && decide (now < r.expiresAt) &&
      decide ((Platform.jsonBytes r.media).length ≤ maxItemsJsonBytes)

def lookupMediaCache (request : DownloadRequest) (now : Int) (db : Db) :
    Except StoreError (Option CachedBatch) :=
  match request.target with
  | none => .error .invalidInput
  | some target => do
      let key ← mediaCacheKey request
      match Sql.lookupMediaCache (request.actorId.toNat, target.botId.toInt, key) now db with
      | none => return none
      | some row => return some ⟨row.revision, ← decodeMedia row.media⟩

/-! ## Publication and invalidation -/

def deleteCache (p : MediaCacheRow → Bool) : Stmt Nat := do
  let db ← get
  let (mediaCache, n) := db.mediaCache.delete p
  set { db with mediaCache }
  return n

/-- publish_media_cache_prune_select.sql -/
def Sql.pruneSelect (key : Nat × Int × String) (now : Int) (rows : List MediaCacheRow) :
    List (Nat × Int × String) :=
  (((rows.filter fun r => decide (r.expiresAt ≤ now) && decide (r.key ≠ key)).insertionSort
    fun a b => a.expiresAt ≤ b.expiresAt).take 32).map MediaCacheRow.key

/-- publish_media_cache_prune_delete.sql, for every key that was selected -/
def pruneEach (clock : Clock) : List (Nat × Int × String) → Nat → Stmt Unit
  | [], _ => pure ()
  | key :: rest, k => do
      let _ ← deleteCache fun r => decide (r.key = key) && decide (r.expiresAt ≤ clock.tick k)
      pruneEach clock rest (k + 1)

/-- publish_media_cache.sql, for an operation that is eligible -/
def Sql.publishMediaCache (row : MediaCacheRow) : Stmt Unit := do
  let db ← get
  write (db.mediaCache.upsert MediaCacheRow.key row fun r =>
    { r with revision := row.revision, media := row.media, expiresAt := row.expiresAt
             createdAt := row.createdAt }) fun mediaCache => { db with mediaCache }

/-- At most 32 rows are pruned, so this instant comes after them. -/
def publishTick : Nat := 33

def publishBody (c : Claim) (target : DeliveryTarget) (key : String) (count : Nat) (media : Json)
    (ttlSeconds : Nat) (revision : Uuid) (clock : Clock) : Stmt (Ended Bool) := do
  let eligible := fun db : Db => (db.operation c.operationId).any
    (Sql.publishEligible c.operationId c.attempt c.request.actorId.toNat target.botId.toInt key
      count (Codec.encode c.request) (db.batch c.operationId c.attempt))
  let actorId := c.request.actorId.toNat
  let botId := target.botId.toInt
  let db ← get
  if !eligible db then return .rollback false
  pruneEach clock (Sql.pruneSelect (actorId, botId, key) (clock.tick 0) db.mediaCache.rows) 1
  let db ← get
  if !eligible db then return .commit false
  let now := clock.tick publishTick
  Sql.publishMediaCache ⟨actorId, botId, key, revision, media, now + micros ttlSeconds, now⟩
  return .commit true

def checkPublication (c : Claim) (media : List CachedMedia) (ttl : Duration) :
    Except StoreError (DeliveryTarget × String × Json) := do
  validateClaimCache c
  let some target := c.request.target | .error .invalidInput
  ensure (DownloaderSettings.within minTtlSeconds maxTtlSeconds ttl.asSecs &&
    ttl.subsecNanos == 0 && DownloaderSettings.within 1 100 media.length)
  let key ← mediaCacheKey c.request
  let items ← encodeMedia media
  return (target, key, items)

def publishMediaCache (c : Claim) (media : List CachedMedia) (ttl : Duration) (revision : Uuid)
    (clock : Clock) : Method Bool := fun db =>
  match checkPublication c media ttl with
  | .error e => (.error e, db)
  | .ok (target, key, items) =>
      Tx.run (publishBody c target key media.length items ttl.asSecs revision clock) db

def invalidateMediaCache (request : DownloadRequest) (revision : Uuid) : Method Bool := fun db =>
  match request.target, mediaCacheKey request with
  | some target, .ok key =>
      Tx.auto (do
        let n ← deleteCache fun r =>
          decide (r.key = (request.actorId.toNat, target.botId.toInt, key)) &&
            decide (r.revision = revision)
        return n == 1) db
  | none, _ => (.error .invalidInput, db)
  | some _, .error e => (.error e, db)

/-! ## Clearing -/

/-- runtime_media_cache_clear_watermarks -/
structure WatermarkRow where
  actorId : Nat
  botId : Int
  messageId : Int
deriving DecidableEq

omit [Platform] in
def WatermarkRow.key (r : WatermarkRow) : Nat × Int := (r.actorId, r.botId)

def watermarkSchema : Schema WatermarkRow where
  check r := decide (0 < r.actorId) && decide (0 < r.botId) && decide (0 < r.messageId) &&
    decide (r.messageId ≤ 2147483647)
  clash a b := decide (a.key = b.key)

/-- The database with the watermarks of the clearing. -/
structure CacheStore where
  db : Db
  watermarks : Table watermarkSchema

namespace CacheStore

def watermark (s : CacheStore) (actorId : Nat) (botId : Int) : Option Int :=
  (s.watermarks.find WatermarkRow.key (actorId, botId)).map WatermarkRow.messageId

end CacheStore

/-- advance_media_cache_clear_watermark.sql: whether a row comes back -/
def Sql.advanceWatermark (row : WatermarkRow) : Tx CacheStore StoreError Bool := do
  let s ← get
  if (s.watermark row.actorId row.botId).all fun last => decide (last < row.messageId) then
    match s.watermarks.upsert WatermarkRow.key row fun r =>
      { r with messageId := row.messageId } with
    | none => throw .database
    | some watermarks =>
        set { s with watermarks }
        return true
  else return false

/-- authorize_media_cache_clear.sql -/
def Sql.authorizeClear (actorId : Nat) (now : Int) (db : Db) : Bool :=
  db.users.rows.any fun u =>
    decide (u.id = actorId) && u.role != .banned && u.banUntil.all fun t => decide (t ≤ now)

/-- The operation that clear_media_cache.sql looks for. -/
def Sql.clears (actorId : Nat) (botId : Int) (url : String) (key : String) (o : OperationRow) :
    Bool :=
  decide (o.actorId = actorId) && o.forBot botId &&
    decide (jsonExtract o.request ["source_url"] = some (.str url)) &&
      decide (o.cacheKey = some key)

/-- clear_media_cache.sql -/
def Sql.clearMediaCache (actorId : Nat) (botId : Int) (url : String) :
    Tx CacheStore StoreError Nat := do
  let s ← get
  let (mediaCache, n) := s.db.mediaCache.delete fun r =>
    decide (r.actorId = actorId) && decide (r.botId = botId) &&
      s.db.operations.rows.any (Sql.clears actorId botId url r.cacheKey)
  set { s with db := { s.db with mediaCache } }
  return n

def clearBody (actorId : Nat) (botId messageId : Int) (url : String) (now : Int) :
    Tx CacheStore StoreError (Ended (Option Nat)) := do
  let s ← get
  if !Sql.authorizeClear actorId now s.db then throw .unauthorized
  let advanced ← Sql.advanceWatermark ⟨actorId, botId, messageId⟩
  if !advanced then return .commit none
  let affected ← Sql.clearMediaCache actorId botId url
  return .commit (some affected)

def checkClear (actorId : UInt64) (botId messageId : Int) (url : String) (owner : Bool) :
    Except StoreError Unit := do
  ensure (decide (actorId.toNat ≤ i64Max))
  if !owner then .error .unauthorized
  ensure (decide (0 < actorId.toNat) && decide (0 < botId) && decide (0 < messageId) &&
    !url.isEmpty && decide (url.utf8ByteSize ≤ 4096))
  match DownloadRequest.new actorId url .video none {} with
  | .error _ => .error .invalidInput
  | .ok parsed => ensure (decide (parsed.sourceUrl.asStr = url))

def clearMediaCache (actorId : UInt64) (botId messageId : Int) (url : String) (owner : Bool)
    (now : Int) (s : CacheStore) : Except StoreError (Option Nat) × CacheStore :=
  match checkClear actorId botId messageId url owner with
  | .error e => (.error e, s)
  | .ok _ => Tx.run (clearBody actorId.toNat botId messageId url now) s

end

end YoinkCore.Storage
