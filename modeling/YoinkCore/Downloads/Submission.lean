import YoinkCore.Downloads.Format
import YoinkCore.Storage.Admission

/-!
# Submissions

`submitPreferredContext` takes a raw request with format overrides. It first replays
the key; for a new one it resolves the format, freezes the provider route, attaches
the selected network and admits the prepared request. What it asks other parts of
the program on the way is collected in `Surroundings`.
-/

namespace YoinkCore.Downloads

open Lib Domain Storage

variable [Platform]

inductive DownloadError where
  | invalidInput
  | invalidPreferences
  | invalidCredentials
  | proxyUnavailable
  | unsupportedAuthentication
  | changedCredentials
  | invalidConfig
  | denied
  | personalCookieCapacity
  | capacity
  | quotaExceeded (retryAfterSecs : Nat)
  | conflict
  | database
  | executor
  | task
deriving DecidableEq

def mapProfile : ProfileError → DownloadError
  | .database => .database
  | .proxyUnavailable => .proxyUnavailable
  | .unsupportedAuthentication => .unsupportedAuthentication
  | .invalidPreferences => .invalidPreferences
  | .invalidProxy | .invalidCookie => .invalidCredentials
  | .unavailable | .staleReference | .sharedAccessDenied | .candidateCapacityExceeded =>
      .changedCredentials

def mapStore : StoreError → DownloadError
  | .invalidInput | .invalidStoredData => .invalidInput
  | .unauthorized => .denied
  | .conflict => .conflict
  | .capacity => .capacity
  | .quotaExceeded retryAfterSecs => .quotaExceeded retryAfterSecs
  | .notFoundOrStale => .task
  | .database => .database

/-! ## The raw request -/

/-- The format options are left to overrides and preferences. -/
def requestFormatDefaults (r : DownloadRequest) : Bool :=
  let p := r.params
  match r.mediaMode with
  | .links | .audioLinks => true
  | .formats =>
      p.maxHeight.isNone && p.videoCodec == .h264 && p.audioCodec == .best &&
        p.container == .mp4 && p.sendAsFile && !p.galleryZip && p.subtitles.isNone &&
        p.playlist.isNone && p.clips.isEmpty && (p.engine == .auto || p.engine == .ytDlp)
  | mode =>
      p.maxHeight.isNone && p.videoCodec == .h264 && p.audioCodec == .best &&
        p.container == .mp4 && !p.sendAsFile && !p.galleryZip &&
        p.subtitles.all fun s => mode == .subtitles && decide (s = .default)

/-- The checks on a raw request that is to go out through this bot. -/
def checkSubmission (botId : Int64) (request : DownloadRequest)
    (overrides : DownloadPreferenceOverrides) : Except DownloadError Unit :=
  if !requestFormatDefaults request ||
      (request.mediaMode.listing && overrides != {}) ||
      request.preferenceOverrides.isSome ||
      decide (4096 < Text.byteLen request.sourceUrl.asStr.toList) ||
      !request.target.any (fun t => t.botId == botId) || request.network != .none then
    .error .invalidInput
  else .ok ()

/-! ## Preparation -/

/-- What a submission learns from the rest of the program. -/
structure Surroundings where
  /-- `authorize_request` -/
  authorization : Except DownloadError Unit
  /-- `format_preferences` of the actor -/
  preferences : Except ProfileError (Option FormatPreferences)
  /-- `prepare_network` for the actor -/
  selection : Except ProfileError NetworkSelection
  /-- media_info_preference.sql -/
  mediaInfo : Except DownloadError (Option Bool)

def invalidInput {ε α : Type} (x : Except ε α) : Except DownloadError α :=
  x.mapError fun _ => .invalidInput

/-- The parameters with their format resolved. -/
def preferredParams (around : Surroundings) (request : DownloadRequest)
    (overrides : DownloadPreferenceOverrides) : Except DownloadError DownloadParams :=
  let base := request.params
  if request.mediaMode.listing then .ok (base.withSendAsFile true)
  else do
    let preferences ← around.preferences.mapError mapProfile
    let resolved ← (resolveFormatValues request.mediaMode preferences overrides).mapError
      mapProfile
    let params ← (base.withMaxHeight resolved.maxHeight).mapError fun _ =>
      DownloadError.invalidPreferences
    return (((((params.withVideoCodec resolved.videoCodec).withAudioCodec
      resolved.audioCodec).withContainer resolved.container).withSendAsFile
      resolved.sendAsFile).withGalleryZip resolved.galleryZip).withSubtitles
      resolved.subtitles

/-- Reports are for media in the private chat of the actor. -/
def reportsMedia (request : DownloadRequest) : Bool :=
  request.target.any (fun t =>
    decide (t.chatId.toInt = (request.actorId.toNat : Int)) && t.threadId.isNone) &&
    (request.mediaMode == .video || request.mediaMode == .audio ||
      request.mediaMode == .image)

/-- `host_str`, which the network selection needs. -/
def checkHost (request : DownloadRequest) : Except DownloadError Unit :=
  if (Platform.hostStr request.sourceUrl).isSome then .ok () else .error .invalidInput

/-- Whether the operation is to report about the media. -/
def mediaInfo (around : Surroundings) (request : DownloadRequest) :
    Except DownloadError Bool :=
  if reportsMedia request then around.mediaInfo.map (·.getD false) else .ok false

/-- The part of `admit_network_context` before it calls the store. -/
def admitNetworkContext (around : Surroundings) (request : DownloadRequest) :
    Except DownloadError DownloadRequest := do
  checkHost request
  let selection ← around.selection.mapError mapProfile
  let mediaInfo ← mediaInfo around request
  let prepared ← invalidInput (request.withParams (request.params.withMediaInfo mediaInfo))
  invalidInput (prepared.freezeProviderRouting.withNetwork selection)

/-- The request a submission asks the store to admit. -/
def prepare (around : Surroundings) (request : DownloadRequest)
    (overrides : DownloadPreferenceOverrides) : Except DownloadError DownloadRequest := do
  let params ← preferredParams around request overrides
  let intent ← invalidInput ((request.withPreferenceOverrides overrides).withParams params)
  admitNetworkContext around intent

/-! ## The submission -/

/-- The checks, and the operation already there under the key. -/
def replay (botId : Int64) (around : Surroundings) (request : DownloadRequest)
    (key : String) (overrides : DownloadPreferenceOverrides)
    (telegram : Option TelegramMediaAdmission) (db : Db) :
    Except DownloadError (Option Admission) := do
  checkSubmission botId request overrides
  around.authorization
  if telegram.isSome then return none
  (replayNetworkAdmission (request.withPreferenceOverrides overrides) key db).mapError
    mapStore

def submitPreferredContext (config : StoreConfig) (policy : AdmissionPolicy)
    (botId : Int64) (around : Surroundings) (request : DownloadRequest) (key : String)
    (overrides : DownloadPreferenceOverrides) (telegram : Option TelegramMediaAdmission)
    (clock : Clock) (id : Uuid) (db : Db) : Except DownloadError Admission × Db :=
  match replay botId around request key overrides telegram db with
  | .error e => (.error e, db)
  | .ok (some admission) => (.ok admission, db)
  | .ok none =>
      match prepare around request overrides with
      | .error e => (.error e, db)
      | .ok prepared =>
          let (result, db) :=
            match telegram with
            | some context =>
                admitTelegramMediaSnapshot config prepared key policy context clock id db
            | none => admitNetworkSnapshot config prepared key policy clock id db
          (result.mapError mapStore, db)

end YoinkCore.Downloads
