import YoinkCore.Music.Links
import YoinkCore.Worker.Frames

/-!
# Music requests

What the service asks a music worker for, and the checks a request passes before it is sent. The
settings are checked once, by the request for a search on each provider.
-/

namespace YoinkCore.Music

open Lib Lib.Json Storage
open Text (Str)
open Worker (HttpSourceUrl NetworkCredentials ProtocolError refuse protocolVersion)
open Domain.DownloaderSettings (within)

namespace MusicProvider

/-- `MusicProvider::ALL` -/
def all : List MusicProvider :=
  [.spotify, .deezer, .yandex, .ytmusic, .soundcloud, .appleMusic, .bandcamp, .qobuz, .tidal,
    .youtube]

def key : MusicProvider → String
  | .spotify => "spotify"
  | .deezer => "deezer"
  | .yandex => "yandex"
  | .ytmusic => "ytmusic"
  | .soundcloud => "soundcloud"
  | .appleMusic => "apple_music"
  | .bandcamp => "bandcamp"
  | .qobuz => "qobuz"
  | .tidal => "tidal"
  | .youtube => "youtube"

end MusicProvider

structure MusicCredentials where
  spotifyClientId : Option String := none
  spotifyClientSecret : Option String := none
  tidalClientId : Option String := none
  tidalClientSecret : Option String := none
deriving DecidableEq

/-- A short text without control characters. -/
def clean (s : String) (max : Nat) : Bool :=
  decide (Text.byteLen s.toList ≤ max) && !s.toList.any Text.isControl

section

variable [Platform]

/-! ## Results -/

structure MusicMetadata where
  title : String
  artist : Option String
  thumbnailUrl : Option HttpSourceUrl

structure MusicArtistTrack where
  title : String
  links : List (MusicProvider × String × HttpSourceUrl)

structure MusicArtist where
  name : String
  genres : List String
  thumbnailUrl : Option HttpSourceUrl
  platformLinks : List (MusicProvider × String × HttpSourceUrl)
  topTracks : List MusicArtistTrack

inductive MusicResult where
  | metadata (metadata : MusicMetadata)
  | link (url : Option HttpSourceUrl)
  | artist (artist : MusicArtist)

/-- A title, and an artist if there is one. -/
def MusicMetadata.valid (m : MusicMetadata) : Bool :=
  !(Text.trim m.title.toList).isEmpty && clean m.title 1024 && m.artist.all (clean · 1024)

def MusicArtist.valid (a : MusicArtist) : Bool :=
  !a.name.toList.isEmpty && clean a.name 1024 && decide (a.genres.length ≤ 20) &&
    a.genres.all (clean · 256) && decide (a.platformLinks.length ≤ 10) &&
    decide (a.topTracks.length ≤ 10) &&
    a.topTracks.all fun t => clean t.title 1024 && decide (t.links.length ≤ 10)

def MusicResult.valid : MusicResult → Bool
  | .metadata m => m.valid
  | .link _ => true
  | .artist a => a.valid

/-! ## Requests -/

inductive MusicTask where
  | musicParse (provider : MusicProvider) (url : HttpSourceUrl)
  | musicSearch (provider : MusicProvider) (query title artist : String)
  | musicArtist (url : HttpSourceUrl)
  | musicAudio (url : HttpSourceUrl) (title artist : String) (thumbnailUrl : Option HttpSourceUrl)

structure MusicRequest where
  version : Nat
  operationId : Uuid
  attempt : UInt32
  task : MusicTask
  proxyUrl : Option String
  credentials : MusicCredentials
  requestTimeoutMs : UInt32
  responseMaxBytes : UInt32
  maxRequests : UInt16

def encodeUrl (url : HttpSourceUrl) : Json := .str url.url.asStr

def encodeMusicTask : MusicTask → Json
  | .musicParse provider url =>
      object [field "kind" (.str "music_parse"), field "provider" (.str provider.key),
        field "url" (encodeUrl url)]
  | .musicSearch provider query title artist =>
      object [field "kind" (.str "music_search"), field "provider" (.str provider.key),
        field "query" (.str query), field "title" (.str title), field "artist" (.str artist)]
  | .musicArtist url => object [field "kind" (.str "music_artist"), field "url" (encodeUrl url)]
  | .musicAudio url title artist thumbnailUrl =>
      object [field "kind" (.str "music_audio"), field "url" (encodeUrl url),
        field "title" (.str title), field "artist" (.str artist),
        field "thumbnail_url" (nullable (thumbnailUrl.map encodeUrl))]

omit [Platform] in
def encodeMusicCredentials (c : MusicCredentials) : Json :=
  object [
    field "spotify_client_id" (nullable (c.spotifyClientId.map .str)),
    field "spotify_client_secret" (nullable (c.spotifyClientSecret.map .str)),
    field "tidal_client_id" (nullable (c.tidalClientId.map .str)),
    field "tidal_client_secret" (nullable (c.tidalClientSecret.map .str))]

namespace MusicRequest

def json (r : MusicRequest) : Json :=
  object [
    field "version" (.int r.version),
    field "operation_id" (.str (Worker.uuidText r.operationId)),
    field "attempt" (Codec.ofU32 r.attempt),
    field "task" (encodeMusicTask r.task),
    field "proxy_url" (nullable (r.proxyUrl.map .str)),
    field "credentials" (encodeMusicCredentials r.credentials),
    field "request_timeout_ms" (Codec.ofU32 r.requestTimeoutMs),
    field "response_max_bytes" (Codec.ofU32 r.responseMaxBytes),
    field "max_requests" (.int r.maxRequests.toNat)]

/-- The numbers of a request. -/
def checkLimits (r : MusicRequest) : Except ProtocolError Unit :=
  refuse (r.version != protocolVersion || r.operationId == ⟨0⟩ || r.attempt == 0 ||
    !within 1 120000 r.requestTimeoutMs.toNat ||
    !within 1024 8388608 r.responseMaxBytes.toNat || !within 1 100 r.maxRequests.toNat)

def checkCredentials (r : MusicRequest) : Except ProtocolError Unit :=
  refuse (([r.credentials.spotifyClientId, r.credentials.spotifyClientSecret,
    r.credentials.tidalClientId, r.credentials.tidalClientSecret].filterMap id).any
      fun s => !clean s 4096)

end MusicRequest

def MusicTask.check : MusicTask → Except ProtocolError Unit
  | .musicSearch _ query title artist =>
      refuse ((Text.trim query.toList).isEmpty || !clean query 2048 || !clean title 1024 ||
        !clean artist 1024)
  | .musicAudio _ title artist _ =>
      refuse ((Text.trim title.toList).isEmpty || !clean title 1024 || !clean artist 1024)
  | .musicParse _ _ | .musicArtist _ => .ok ()

def encodeMusicRequest (r : MusicRequest) : Except ProtocolError (List UInt8) := do
  r.checkLimits
  NetworkCredentials.validate ⟨r.proxyUrl, none, none⟩
  r.checkCredentials
  r.task.check
  Worker.encode r.json

/-! ## Settings -/

structure MusicSettings where
  requestTimeout : Duration
  lookupTimeout : Duration
  resolveTimeout : Duration
  audioTimeout : Duration
  deliveryTimeout : Duration
  persistenceTimeout : Duration
  cacheTtl : Duration
  cacheEntries : Nat
  workerConcurrency : Nat
  responseMaxBytes : UInt32
  maxRequests : UInt16
  audioMaxBytes : UInt64
  maxLinksPerCommand : Nat
  downloadEnabled : Bool
  credentials : MusicCredentials
  proxies : MusicProvider → Option String

/-- A random UUID: its version makes it different from the nil one. -/
abbrev FreshId := { id : Uuid // id ≠ ⟨0⟩ }

namespace MusicSettings

/-- `Duration::as_millis` as a `u32` -/
def timeoutMs (s : MusicSettings) : UInt32 := UInt32.ofNat (s.requestTimeout.nanos / 1000000)

def request (s : MusicSettings) (id : FreshId) (task : MusicTask) (provider : MusicProvider) :
    MusicRequest where
  version := protocolVersion
  operationId := id.1
  attempt := 1
  task := task
  proxyUrl := s.proxies provider
  credentials := s.credentials
  requestTimeoutMs := s.timeoutMs
  responseMaxBytes := s.responseMaxBytes
  maxRequests := s.maxRequests

def durations (s : MusicSettings) : List Duration :=
  [s.requestTimeout, s.lookupTimeout, s.resolveTimeout, s.audioTimeout, s.deliveryTimeout,
    s.persistenceTimeout, s.cacheTtl]

def outOfRange (s : MusicSettings) : Bool :=
  (s.durations.any fun d => d.nanos == 0 || decide ((Duration.ofSecs 86400).nanos < d.nanos)) ||
    decide ((Duration.ofSecs 120).nanos < s.lookupTimeout.nanos) ||
    decide ((Duration.ofSecs 120).nanos < s.requestTimeout.nanos) ||
    decide ((Duration.ofSecs 3600).nanos < s.audioTimeout.nanos) ||
    s.audioTimeout.subsecNanos != 0 || !within 1 10000 s.cacheEntries ||
    !within 1 32 s.workerConcurrency || !within 1024 8388608 s.responseMaxBytes.toNat ||
    !within 1 100 s.maxRequests.toNat || s.audioMaxBytes == 0 ||
    decide (49 * 1024 * 1024 < s.audioMaxBytes.toNat) || !within 1 10 s.maxLinksPerCommand

/-- The search that the settings are tried with. -/
def testSearch (p : MusicProvider) : MusicTask := .musicSearch p "test" "test" ""

/-- Every request has a UUID of its own. -/
def validate (s : MusicSettings) (ids : MusicProvider → FreshId) : Except MusicError Unit :=
  if s.outOfRange ||
      !MusicProvider.all.all fun p =>
        (encodeMusicRequest (s.request (ids p) (testSearch p) p)).isOk
  then .error .invalidInput
  else .ok ()

end MusicSettings

end

end YoinkCore.Music
