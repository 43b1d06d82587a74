import YoinkCore.Storage.CacheKey
import YoinkCore.Worker.Credentials

/-!
# Worker requests

The message that starts a worker. Its types are those of the wire, which repeat what
the domain knows without its constructors; `validate` checks them again. Every refusal
is an `InvalidRequest`.
-/

namespace YoinkCore.Worker

open Lib Lib.Json Domain Storage

variable [Platform]

/-! ## The source -/

/-- An `http` or `https` URL with a host and without user information. -/
def httpSource (url : Url) : Bool :=
  (Platform.scheme url == "http" || Platform.scheme url == "https") &&
    (Platform.hostStr url).isSome && (Platform.username url).isEmpty &&
    (Platform.password url).isNone

structure HttpSourceUrl where
  url : Url
  parsed : ∃ text, Platform.parseUrl text = some url
  http : httpSource url = true

theorem exists_parsed {value : String} {url : Url} (h : Platform.parseUrl value = some url) :
    ∃ text, Platform.parseUrl text = some url :=
  ⟨value, h⟩

def HttpSourceUrl.parse (value : String) : Except ProtocolError HttpSourceUrl :=
  match hp : Platform.parseUrl value with
  | none => .error .invalidRequest
  | some url =>
      if h : httpSource url = true then .ok ⟨url, exists_parsed hp, h⟩
      else .error .invalidRequest

/-! ## Tasks and options -/

inductive MediaMode where
  | best | video | audio | image | subtitles | formats | links | audioLinks
deriving DecidableEq

inductive TaskKind where
  | download (mediaMode : MediaMode)
  | extractContent
deriving DecidableEq

structure PlaylistRange where
  start : Int32
  stop : Option Int32
deriving DecidableEq

def PlaylistRange.validate (r : PlaylistRange) : Except ProtocolError Unit :=
  refuse (r.start.toInt == 0 || r.stop.any (·.toInt == 0) ||
    (r.stop.isNone && decide (r.start.toInt < -100)) ||
    r.stop.any fun stop =>
      decide (0 < r.start.toInt) != decide (0 < stop.toInt) ||
        decide (100 < (stop.toInt - r.start.toInt).natAbs + 1))

structure ClipRange where
  startSeconds : Float
  endSeconds : Float

def ClipRange.validate (c : ClipRange) : Except ProtocolError Unit :=
  refuse (!c.startSeconds.isFinite || !c.endSeconds.isFinite ||
    (c.startSeconds < 0.0 : Bool) || (c.endSeconds ≤ c.startSeconds : Bool))

structure SubtitleOptions where
  language : String
  automatic : Bool
deriving DecidableEq

def SubtitleOptions.validate (s : SubtitleOptions) : Except ProtocolError Unit :=
  let primary (p : Text.Str) : Bool :=
    decide (2 ≤ Text.byteLen p) && decide (Text.byteLen p ≤ 3) && p.all Text.isLower
  let subtag (p : Text.Str) : Bool :=
    decide (2 ≤ Text.byteLen p) && decide (Text.byteLen p ≤ 8) && p.all Text.isAlphanumeric
  refuse (decide (16 < Text.byteLen s.language.toList) ||
    match Text.split '-' s.language.toList with
    | [p] => !primary p
    | [p, q] => !primary p || !subtag q
    | _ => true)

structure DownloadOptions where
  maxHeight : Option UInt32 := none
  videoCodec : VideoCodec := .h264
  audioCodec : AudioCodec := .best
  container : Container := .mp4
  engine : Engine := .auto
  playlist : Option PlaylistRange := none
  clips : List ClipRange := []
  galleryZip : Bool := false
  mediaInfo : Bool := false
  subtitles : Option SubtitleOptions := none

namespace DownloadOptions

def validate (o : DownloadOptions) : Except ProtocolError Unit := do
  refuse (o.maxHeight == some 0 || decide (20 < o.clips.length))
  o.playlist.forM PlaylistRange.validate
  o.clips.forM ClipRange.validate

/-- The format is left open, but for the height and the engine. -/
def plain (o : DownloadOptions) : Bool :=
  o.videoCodec == .h264 && o.audioCodec == .best && o.container == .mp4 &&
    o.playlist.isNone && o.clips.isEmpty && !o.galleryZip

/-- Engines that do not only run the video downloader. -/
def usesGallery (o : DownloadOptions) : Bool :=
  o.engine == .gallery || o.engine == .autoGalleryV1 || o.engine == .autoFallbackV1

/-- What a listing of links accepts. -/
def listsLinks (o : DownloadOptions) (audio : Bool) : Bool :=
  (o.maxHeight.all fun h => h == 720 || h == 1080 || h == 480 || h == 360) && o.plain &&
    (o.engine == .auto || o.engine == .ytDlp || o.engine == .autoYtDlpV1) &&
    o.subtitles.isNone && !(audio && o.maxHeight.isSome)

/-- What a listing of formats accepts. -/
def listsFormats (o : DownloadOptions) : Bool :=
  o.maxHeight.isNone && o.plain && !o.usesGallery && o.subtitles.isNone

/-- What comes with subtitles. -/
def takesSubtitles (o : DownloadOptions) : Bool :=
  o.maxHeight.isNone && o.plain && !o.usesGallery

end DownloadOptions

/-! ## The message -/

structure WorkerRequest where
  version : Nat
  operationId : Uuid
  attempt : UInt32
  sourceUrl : HttpSourceUrl
  task : TaskKind
  options : DownloadOptions
  network : Option NetworkCredentials

namespace WorkerRequest

/-- The mode of a download. -/
def mode (w : WorkerRequest) : Option MediaMode :=
  match w.task with
  | .download mode => some mode
  | .extractContent => none

/-- The options fit the task. -/
def checkTask (w : WorkerRequest) : Except ProtocolError Unit := do
  let o := w.options
  refuse (decide (w.mode = some .subtitles) != o.subtitles.isSome)
  refuse ((w.mode == some .links || w.mode == some .audioLinks) &&
    !o.listsLinks (w.mode == some .audioLinks))

/-- The checks that follow those of the options. -/
def checkFormats (w : WorkerRequest) : Except ProtocolError Unit :=
  refuse (w.mode == some .formats &&
    (!(Platform.scheme w.sourceUrl.url == "http" ||
      Platform.scheme w.sourceUrl.url == "https") || !w.options.listsFormats))

def checkSubtitles (w : WorkerRequest) : Except ProtocolError Unit :=
  match w.options.subtitles with
  | some s => do
      s.validate
      refuse (!w.options.takesSubtitles)
  | none => .ok ()

/-- The checks on everything but the credentials. -/
def checkJob (w : WorkerRequest) : Except ProtocolError Unit := do
  refuse (w.version != protocolVersion || w.operationId == ⟨0⟩ || w.attempt == 0)
  w.options.validate
  w.checkTask
  w.checkFormats
  w.checkSubtitles

def validate (w : WorkerRequest) : Except ProtocolError Unit := do
  w.checkJob
  w.network.forM NetworkCredentials.validate

end WorkerRequest

/-! ## Encoding -/

def modeName : MediaMode → String
  | .best => "best"
  | .video => "video"
  | .audio => "audio"
  | .image => "image"
  | .subtitles => "subtitles"
  | .formats => "formats"
  | .links => "links"
  | .audioLinks => "audio_links"

def encodeTask : TaskKind → Json
  | .download mode =>
      object [field "kind" (.str "download"), field "media_mode" (.str (modeName mode))]
  | .extractContent => object [field "kind" (.str "extract_content")]

def encodePlaylist (r : PlaylistRange) : Json :=
  object [
    field "start" (Codec.ofI32 r.start),
    field "end" (nullable (r.stop.map Codec.ofI32))]

def encodeClip (c : ClipRange) : Json :=
  object [field "start_seconds" (.float c.startSeconds),
    field "end_seconds" (.float c.endSeconds)]

def encodeSubtitles (s : SubtitleOptions) : Json :=
  object [field "language" (.str s.language), field "automatic" (.bool s.automatic)]

def encodeOptions (o : DownloadOptions) : Json :=
  object [
    field "max_height" (nullable (o.maxHeight.map Codec.ofU32)),
    field "video_codec" (.str (Codec.videoCodecName o.videoCodec)),
    field "audio_codec" (.str (Codec.audioCodecName o.audioCodec)),
    field "container" (.str (Codec.containerName o.container)),
    field "engine" (.str (Codec.engineName o.engine)),
    field "playlist" (nullable (o.playlist.map encodePlaylist)),
    field "clips" (.arr (o.clips.map encodeClip)),
    field "gallery_zip" (.bool o.galleryZip),
    field "media_info" (.bool o.mediaInfo),
    skipNone "subtitles" (o.subtitles.map encodeSubtitles)]

def encodeOauth (o : YoutubeOAuth) : Json :=
  object [field "access_token" (.str o.accessToken), field "refresh_token" (.str o.refreshToken),
    field "expires_at" (.str o.expiresAt)]

def encodeCredentials (c : NetworkCredentials) : Json :=
  object [
    field "proxy_url" (nullable (c.proxyUrl.map .str)),
    field "cookie_jar" (nullable (c.cookieJar.map .str)),
    skipNone "youtube_oauth" (c.youtubeOauth.map encodeOauth)]

/-- Hyphenated lowercase text. -/
def uuidText (id : Uuid) : String :=
  let t := hexDigits 32 id.bits.toNat
  String.ofList (['-'].intercalate [t.take 8, (t.drop 8).take 4, (t.drop 12).take 4,
    (t.drop 16).take 4, t.drop 20])

def encodeWorkerRequest (w : WorkerRequest) : Json :=
  object [
    field "version" (.int w.version),
    field "operation_id" (.str (uuidText w.operationId)),
    field "attempt" (Codec.ofU32 w.attempt),
    field "source_url" (.str w.sourceUrl.url.asStr),
    field "task" (encodeTask w.task),
    field "options" (encodeOptions w.options),
    field "network" (nullable (w.network.map encodeCredentials))]

/-- The bytes of a message, unless they are too many. -/
def encode (value : Json) : Except ProtocolError (List UInt8) :=
  let frame := Platform.jsonBytes value
  if maxFrameBytes < frame.length then .error .frameTooLarge else .ok frame

def encodeRequest (w : WorkerRequest) : Except ProtocolError (List UInt8) := do
  w.validate
  encode (encodeWorkerRequest w)

end YoinkCore.Worker
