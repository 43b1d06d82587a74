import YoinkCore.Storage.Model

/-!
# The request codec

Requests are persisted as JSON. `encode` writes every field of a request;
`decode` reads a stored document back, fills in the defaults older rows lack, and
runs the constructors of the domain again. Whatever is wrong with a document, the
answer is `InvalidStoredData`.
-/

namespace YoinkCore.Storage.Codec

open Lib Lib.Json Domain

/-! ## Scalars -/

def asU32 (v : Json) : Option UInt32 := (asNat u32Max v).map UInt32.ofNat
def asU64 (v : Json) : Option UInt64 := (asNat u64Max v).map UInt64.ofNat
def asI32 (v : Json) : Option Int32 := (asInt (-2 ^ 31) (2 ^ 31 - 1) v).map Int32.ofInt
def asI64 (v : Json) : Option Int64 := (asInt (-2 ^ 63) (2 ^ 63 - 1) v).map Int64.ofInt

def ofU32 (n : UInt32) : Json := .int n.toNat
def ofU64 (n : UInt64) : Json := .int n.toNat
def ofI32 (n : Int32) : Json := .int n.toInt
def ofI64 (n : Int64) : Json := .int n.toInt

@[simp] theorem asU32_ofU32 (n : UInt32) : asU32 (ofU32 n) = some n := by
  have h : n.toNat ≤ u32Max := Nat.le_sub_one_of_lt n.toNat_lt
  simp [asU32, ofU32, asNat_int h]

@[simp] theorem asU64_ofU64 (n : UInt64) : asU64 (ofU64 n) = some n := by
  have h : n.toNat ≤ u64Max := Nat.le_sub_one_of_lt n.toNat_lt
  simp [asU64, ofU64, asNat_int h]

@[simp] theorem asI32_ofI32 (n : Int32) : asI32 (ofI32 n) = some n := by
  have h := n.toInt_lt
  have h' := n.le_toInt
  rw [asI32, ofI32, asInt_int ⟨by omega, by omega⟩, Option.map_some,
    Int32.ofInt_toInt]

@[simp] theorem asI64_ofI64 (n : Int64) : asI64 (ofI64 n) = some n := by
  have h := n.toInt_lt
  have h' := n.le_toInt
  rw [asI64, ofI64, asInt_int ⟨by omega, by omega⟩, Option.map_some,
    Int64.ofInt_toInt]

/-- An enumeration is stored by the name of its variant. -/
def readEnum {α : Type} (variants : List α) (name : α → String) : Json → Option α
  | .str s => variants.find? fun a => decide (name a = s)
  | _ => none

def readList {α : Type} (read : Json → Option α) (v : Json) : Option (List α) :=
  (asArr v).bind fun items => items.mapM read

theorem readList_map {α : Type} {read : Json → Option α} {write : α → Json}
    (xs : List α) (h : ∀ a ∈ xs, read (write a) = some a) :
    readList read (.arr (xs.map write)) = some xs := by
  show (xs.map write).mapM read = some xs
  induction xs with
  | nil => rfl
  | cons a as ih =>
      rw [List.map_cons, List.mapM_cons, h a List.mem_cons_self,
        ih fun b hb => h b (List.mem_cons_of_mem a hb)]
      rfl

/-! ## Enumerations -/

def modeName : MediaMode → String
  | .video => "video"
  | .audio => "audio"
  | .image => "image"
  | .subtitles => "subtitles"
  | .formats => "formats"
  | .links => "links"
  | .audioLinks => "audio_links"

def readMode : Json → Option MediaMode :=
  readEnum [.video, .audio, .image, .subtitles, .formats, .links, .audioLinks] modeName

def videoCodecName : VideoCodec → String
  | .h264 => "h264"
  | .h265 => "h265"
  | .av1 => "av1"
  | .vp9 => "vp9"
  | .any => "any"

def readVideoCodec : Json → Option VideoCodec :=
  readEnum [.h264, .h265, .av1, .vp9, .any] videoCodecName

def audioCodecName : AudioCodec → String
  | .best => "best"
  | .aac => "aac"
  | .mp3 => "mp3"
  | .opus => "opus"

def readAudioCodec : Json → Option AudioCodec :=
  readEnum [.best, .aac, .mp3, .opus] audioCodecName

def containerName : Container → String
  | .mp4 => "mp4"
  | .mkv => "mkv"
  | .webm => "webm"

def readContainer : Json → Option Container := readEnum [.mp4, .mkv, .webm] containerName

def engineName : Engine → String
  | .auto => "auto"
  | .ytDlp => "yt_dlp"
  | .gallery => "gallery"
  | .autoYtDlpV1 => "auto_yt_dlp_v1"
  | .autoGalleryV1 => "auto_gallery_v1"
  | .autoFallbackV1 => "auto_fallback_v1"

def readEngine : Json → Option Engine :=
  readEnum [.auto, .ytDlp, .gallery, .autoYtDlpV1, .autoGalleryV1, .autoFallbackV1]
    engineName

@[simp] theorem readMode_name (m : MediaMode) : readMode (.str (modeName m)) = some m := by
  cases m <;> decide

@[simp] theorem readVideoCodec_name (c : VideoCodec) :
    readVideoCodec (.str (videoCodecName c)) = some c := by
  cases c <;> decide

@[simp] theorem readAudioCodec_name (c : AudioCodec) :
    readAudioCodec (.str (audioCodecName c)) = some c := by
  cases c <;> decide

@[simp] theorem readContainer_name (c : Container) :
    readContainer (.str (containerName c)) = some c := by
  cases c <;> decide

@[simp] theorem readEngine_name (e : Engine) :
    readEngine (.str (engineName e)) = some e := by
  cases e <;> decide

/-! ## Records -/

section Records

variable [Platform]

/-- An `f64` is read back from its decimal text. -/
def asF64 : Json → Option Float
  | .float x => Platform.rereadF64 x
  | .int n => some (Float.ofInt n)
  | _ => none

def encodeClip (c : ClipRange) : Json :=
  object [
    field "start_seconds" (.float c.startSeconds),
    field "end_seconds" (.float c.endSeconds)]

def decodeClip (v : Json) : Option ClipRange := do
  let f ← asObj v
  guard (knownKeys f ["start_seconds", "end_seconds"])
  let startSeconds ← required f "start_seconds" asF64
  let endSeconds ← required f "end_seconds" asF64
  (ClipRange.new startSeconds endSeconds).toOption

omit [Platform] in
def encodePlaylist (r : PlaylistRange) : Json :=
  object [field "start" (ofI32 r.start), field "end" (nullable (r.stop.map ofI32))]

omit [Platform] in
def decodePlaylist (v : Json) : Option PlaylistRange := do
  let f ← asObj v
  guard (knownKeys f ["start", "end"])
  let start ← required f "start" asI32
  let stop ← withDefault f "end" (orNull asI32) none
  (PlaylistRange.new start stop).toOption

omit [Platform] in
def encodeSubtitles (s : SubtitleOptions) : Json :=
  object [field "language" (.str s.language), field "automatic" (.bool s.automatic)]

omit [Platform] in
def decodeSubtitles (v : Json) : Option SubtitleOptions := do
  let f ← asObj v
  guard (knownKeys f ["language", "automatic"])
  let language ← required f "language" asStr
  let automatic ← required f "automatic" asBool
  (SubtitleOptions.new language automatic).toOption

def encodeParams (p : DownloadParams) : Json :=
  object [
    field "max_height" (nullable (p.maxHeight.map ofU32)),
    field "video_codec" (.str (videoCodecName p.videoCodec)),
    field "audio_codec" (.str (audioCodecName p.audioCodec)),
    field "container" (.str (containerName p.container)),
    field "engine" (.str (engineName p.engine)),
    field "playlist" (nullable (p.playlist.map encodePlaylist)),
    field "clips" (.arr (p.clips.map encodeClip)),
    field "send_as_file" (.bool p.sendAsFile),
    field "gallery_zip" (.bool p.galleryZip),
    field "media_info" (.bool p.mediaInfo),
    skipNone "subtitles" (p.subtitles.map encodeSubtitles)]

/-- Rows of the first schema kept the height beside the parameters. -/
def decodeParams (legacyHeight : Option UInt32) (v : Json) : Option DownloadParams := do
  let f ← asObj v
  guard (knownKeys f ["max_height", "video_codec", "audio_codec", "container", "engine",
    "playlist", "clips", "send_as_file", "gallery_zip", "media_info", "subtitles"])
  let maxHeight ← withDefault f "max_height" (orNull asU32) none
  let videoCodec ← withDefault f "video_codec" readVideoCodec .h264
  let audioCodec ← withDefault f "audio_codec" readAudioCodec .best
  let container ← withDefault f "container" readContainer .mp4
  let engine ← withDefault f "engine" readEngine .auto
  let playlist ← withDefault f "playlist" (orNull decodePlaylist) none
  let clips ← withDefault f "clips" (readList decodeClip) []
  let sendAsFile ← withDefault f "send_as_file" asBool false
  let galleryZip ← withDefault f "gallery_zip" asBool false
  let mediaInfo ← withDefault f "media_info" asBool false
  let subtitles ← withDefault f "subtitles" (orNull decodeSubtitles) none
  let params ← (DownloadParams.new (maxHeight.or legacyHeight)).toOption
  let params ← (((((params.withVideoCodec videoCodec).withAudioCodec
    audioCodec).withContainer container).withEngine engine).withPlaylist
    playlist).withClips clips |>.toOption
  return (((params.withSendAsFile sendAsFile).withGalleryZip galleryZip).withMediaInfo
    mediaInfo).withSubtitles subtitles

omit [Platform] in
def encodeTarget (t : DeliveryTarget) : Json :=
  object [
    field "bot_id" (ofI64 t.botId),
    field "chat_id" (ofI64 t.chatId),
    field "thread_id" (nullable (t.threadId.map ofI64)),
    field "reply_to_message_id" (nullable (t.replyToMessageId.map ofI32))]

omit [Platform] in
def decodeTarget (v : Json) : Option DeliveryTarget := do
  let f ← asObj v
  guard (knownKeys f ["bot_id", "chat_id", "thread_id", "reply_to_message_id"])
  let botId ← required f "bot_id" asI64
  let chatId ← required f "chat_id" asI64
  let threadId ← withDefault f "thread_id" (orNull asI64) none
  let replyToMessageId ← withDefault f "reply_to_message_id" (orNull asI32) none
  (DeliveryTarget.new botId chatId threadId replyToMessageId).toOption

omit [Platform] in
def encodeOverrides (o : DownloadPreferenceOverrides) : Json :=
  object [
    skipNone "max_height" (o.maxHeight.map fun h => nullable (h.map ofU32)),
    field "video_codec" (nullable (o.videoCodec.map fun c => .str (videoCodecName c))),
    field "audio_codec" (nullable (o.audioCodec.map fun c => .str (audioCodecName c))),
    field "container" (nullable (o.container.map fun c => .str (containerName c))),
    field "send_as_file" (nullable (o.sendAsFile.map .bool)),
    field "gallery_zip" (nullable (o.galleryZip.map .bool)),
    skipNone "subtitle_language" (o.subtitleLanguage.map .str),
    skipNone "subtitle_automatic" (o.subtitleAutomatic.map .bool)]

/-- A stored height override is absent, unlimited, or at most 100000. -/
def overrideHeightOk (o : DownloadPreferenceOverrides) : Bool :=
  o.maxHeight.join.all fun h => h != 0 && decide (h.toNat ≤ 100000)

omit [Platform] in
def decodeOverrides (v : Json) : Option DownloadPreferenceOverrides := do
  let f ← asObj v
  guard (knownKeys f ["max_height", "video_codec", "audio_codec", "container",
    "send_as_file", "gallery_zip", "subtitle_language", "subtitle_automatic"])
  let maxHeight ← withDefault f "max_height" (fun h => (orNull asU32 h).map some) none
  let videoCodec ← withDefault f "video_codec" (orNull readVideoCodec) none
  let audioCodec ← withDefault f "audio_codec" (orNull readAudioCodec) none
  let container ← withDefault f "container" (orNull readContainer) none
  let sendAsFile ← withDefault f "send_as_file" (orNull asBool) none
  let galleryZip ← withDefault f "gallery_zip" (orNull asBool) none
  let subtitleLanguage ← withDefault f "subtitle_language" (orNull asStr) none
  let subtitleAutomatic ← withDefault f "subtitle_automatic" (orNull asBool) none
  let o : DownloadPreferenceOverrides := {
    maxHeight, videoCodec, audioCodec, container, sendAsFile, galleryZip
    subtitleLanguage, subtitleAutomatic }
  guard (overrideHeightOk o)
  return o

omit [Platform] in
def encodeSettings (s : DownloaderSettings) : Json :=
  object [
    field "download_retries" (.int s.downloadRetries),
    field "download_timeout" (.int s.downloadTimeout),
    field "max_file_size_mb" (.int s.maxFileSizeMb),
    field "rate_limit_per_minute" (.int s.rateLimitPerMinute),
    field "rate_limit_per_hour" (.int s.rateLimitPerHour),
    field "rate_limit_per_day" (.int s.rateLimitPerDay),
    field "max_playlist_count" (.int s.maxPlaylistCount)]

omit [Platform] in
def decodeSettings (v : Json) : Option DownloaderSettings := do
  let f ← asObj v
  guard (knownKeys f ["download_retries", "download_timeout", "max_file_size_mb",
    "rate_limit_per_minute", "rate_limit_per_hour", "rate_limit_per_day",
    "max_playlist_count"])
  let downloadRetries ← required f "download_retries" (asNat u32Max)
  let downloadTimeout ← required f "download_timeout" (asNat u64Max)
  let maxFileSizeMb ← required f "max_file_size_mb" (asNat u64Max)
  let rateLimitPerMinute ← required f "rate_limit_per_minute" (asNat u32Max)
  let rateLimitPerHour ← required f "rate_limit_per_hour" (asNat u32Max)
  let rateLimitPerDay ← required f "rate_limit_per_day" (asNat u32Max)
  let maxPlaylistCount ← required f "max_playlist_count" (asNat u64Max)
  return {
    downloadRetries, downloadTimeout, maxFileSizeMb, rateLimitPerMinute
    rateLimitPerHour, rateLimitPerDay, maxPlaylistCount }

/-! ## Network references -/

omit [Platform] in
def encodeCookie (c : CookieReference) : Json :=
  object [
    field "id" (ofI32 c.id),
    field "owner_id" (ofU64 c.ownerId),
    field "domain" (.str c.domain),
    field "is_pool" (.bool c.isPool),
    field "version" (.str c.version.value)]

omit [Platform] in
def decodeCookie (v : Json) : Option CookieReference := do
  let f ← asObj v
  guard (knownKeys f ["id", "owner_id", "domain", "is_pool", "version"])
  let id ← required f "id" asI32
  let ownerId ← required f "owner_id" asU64
  let domain ← required f "domain" asStr
  let isPool ← required f "is_pool" asBool
  let version ← required f "version" asStr
  let version ← (CredentialVersion.new version).toOption
  (CookieReference.new id ownerId domain isPool version).toOption

omit [Platform] in
def encodeProxySource : ProxySource → Json
  | .personal actorId =>
      object [field "kind" (.str "personal"), field "actor_id" (ofU64 actorId)]
  | .system => object [field "kind" (.str "system")]

omit [Platform] in
def decodeProxySource (v : Json) : Option ProxySource := do
  let f ← asObj v
  match ← required f "kind" asStr with
  | "personal" => do
      guard (knownKeys f ["kind", "actor_id"])
      return .personal (← required f "actor_id" asU64)
  | "system" => do
      guard (knownKeys f ["kind"])
      return .system
  | _ => none

omit [Platform] in
def encodeProxy (p : ProxyReference) : Json :=
  object [field "source" (encodeProxySource p.source),
    field "version" (.str p.version.value)]

omit [Platform] in
def decodeProxy (v : Json) : Option ProxyReference := do
  let f ← asObj v
  guard (knownKeys f ["source", "version"])
  let source ← required f "source" decodeProxySource
  let version ← required f "version" asStr
  let version ← (CredentialVersion.new version).toOption
  (ProxyReference.new source version).toOption

omit [Platform] in
def encodeNetwork (n : NetworkSelection) : Json :=
  object [
    field "cookie" (nullable (n.cookie.map encodeCookie)),
    field "proxy" (nullable (n.proxy.map encodeProxy))]

omit [Platform] in
def decodeNetwork (v : Json) : Option NetworkSelection := do
  let f ← asObj v
  guard (knownKeys f ["cookie", "proxy"])
  let cookie ← withDefault f "cookie" (orNull decodeCookie) none
  let proxy ← withDefault f "proxy" (orNull decodeProxy) none
  return ⟨cookie, proxy⟩

/-! ## Requests -/

/-- The members of a stored request, in the order of `RequestData`. -/
def requestFields (r : DownloadRequest) : List (Option (String × Json)) := [
  skipNone "downloader_settings" (r.downloaderSettings.map encodeSettings),
  skipFalse "force_nsfw" r.forceNsfw,
  field "actor_id" (ofU64 r.actorId),
  field "source_url" (.str r.sourceUrl.asStr),
  field "media_mode" (.str (modeName r.mediaMode)),
  field "clip_range" (nullable (r.clipRange.map encodeClip)),
  field "params" (encodeParams r.params),
  field "target" (nullable (r.target.map encodeTarget)),
  field "network" (encodeNetwork r.network),
  field "max_height" .null,
  skipNone "preference_overrides" (r.preferenceOverrides.map encodeOverrides)]

def encode (r : DownloadRequest) : Json := object (requestFields r)

def requestKeys : List String :=
  ["downloader_settings", "force_nsfw", "actor_id", "source_url", "media_mode",
    "clip_range", "params", "target", "network", "max_height", "preference_overrides"]

/-- Run the constructors of the domain on the parts of a document. -/
def build (actorId : UInt64) (sourceUrl : String) (mode : MediaMode)
    (clip : Option ClipRange) (params : DownloadParams) (target : Option DeliveryTarget)
    (overrides : Option DownloadPreferenceOverrides)
    (settings : Option DownloaderSettings) (forceNsfw : Bool)
    (network : NetworkSelection) : Except RequestValidationError DownloadRequest := do
  let request ← DownloadRequest.new actorId sourceUrl mode clip params
  let request ← match target with
    | some t => request.withTarget t
    | none => .ok request
  let request := match overrides with
    | some o => request.withPreferenceOverrides o
    | none => request
  let request ← request.withDownloaderSettings settings
  (request.withForceNsfw forceNsfw).withNetwork network

def decodeRequest (v : Json) : Option DownloadRequest := do
  let f ← asObj v
  guard (knownKeys f requestKeys)
  let settings ← withDefault f "downloader_settings" (orNull decodeSettings) none
  let forceNsfw ← withDefault f "force_nsfw" asBool false
  let actorId ← required f "actor_id" asU64
  let sourceUrl ← required f "source_url" asStr
  let mode ← required f "media_mode" readMode
  let clip ← withDefault f "clip_range" (orNull decodeClip) none
  let legacyHeight ← withDefault f "max_height" (orNull asU32) none
  let params ← decodeParams legacyHeight ((get? f "params").getD (.obj []))
  let target ← withDefault f "target" (orNull decodeTarget) none
  let network ← decodeNetwork ((get? f "network").getD (.obj []))
  let overrides ← withDefault f "preference_overrides" (orNull decodeOverrides) none
  (build actorId sourceUrl mode clip params target overrides settings forceNsfw
    network).toOption

def decode (v : Json) : Except StoreError DownloadRequest :=
  match decodeRequest v with
  | some r => .ok r
  | none => .error .invalidStoredData

end Records

end YoinkCore.Storage.Codec
