import YoinkCore.Downloads.Submission
import YoinkCore.Storage.QualityDialog

/-!
# Submissions from Telegram

A message in a private chat may ask which quality to take. Then nothing is admitted: the
raw request is kept as a draft, and the choice made for it later becomes a submission of
its own. `submitTelegramContext` decides what a message leads to, from what it reads on the
way; `selectedRequest` is the submission of a choice.
-/

namespace YoinkCore.Downloads

open Lib Domain Storage

/-! ## Settings -/

inductive SettingField where
  | quality | codec | container | audioCodec | sendAsFile | galleryZip | subtitleLanguage
  | subtitleAutomatic | nsfwBlur | subtitleEnabled | subtitleAlwaysAsk | splitSize | keyboard
  | mediaInfo | poolCookies
deriving DecidableEq

def SettingField.choices : SettingField → List String
  | .quality =>
      ["best", "2160", "1440", "1080", "720", "480", "360", "240", "144", "ask"]
  | .codec => ["avc1", "av01", "vp09"]
  | .container => ["mp4", "mkv"]
  | .audioCodec => ["best", "mp4a", "opus", "mp3"]
  | .splitSize => ["524288000", "1073741824", "1610612736", "2043000000"]
  | .keyboard => ["OFF", "1x3", "2x3", "FULL"]
  | .sendAsFile | .galleryZip | .subtitleAutomatic | .nsfwBlur | .subtitleEnabled
  | .subtitleAlwaysAsk | .mediaInfo | .poolCookies => ["false", "true"]
  | .subtitleLanguage => ["en", "ru", "de", "fr", "es", "zh-Hans"]

/-- The column of a language holds eight characters. -/
def SettingField.accepts (field : SettingField) (value : String) : Bool :=
  if field = .subtitleLanguage then
    decide (Text.byteLen value.toList ≤ 8) && Domain.subtitleLanguage value
  else field.choices.contains value

/-- A change that was accepted. -/
structure SettingChange where
  field : SettingField
  value : String
  valid : field.accepts value = true

/-- The column holds the value of an accepted change. -/
def SettingField.holds (field : SettingField) (column : Option String) : Prop :=
  ∃ change : SettingChange, change.field = field ∧ column = some change.value

/-- Every format column holds the value of an accepted change. -/
structure FormatPreferences.Editable (p : FormatPreferences) : Prop where
  quality : SettingField.quality.holds p.quality
  codec : SettingField.codec.holds p.codec
  container : SettingField.container.holds p.container
  audioCodec : SettingField.audioCodec.holds p.audioCodec
  subtitleLanguage : SettingField.subtitleLanguage.holds p.subtitleLanguage

/-- `quality_asks` -/
def qualityAsks (value : Option String) : Bool :=
  value.any fun q => ((Text.trim q.toList).map Text.toLower == "ask".toList)

variable [Platform]

/-! ## A message -/

def mapQualityError : StoreError → DownloadError
  | .notFoundOrStale => .conflict
  | e => mapStore e

/-- The target that goes with a message for this bot. -/
def telegramTarget (botId : Int64) (request : DownloadRequest) (messageId : Int32) :
    Except DownloadError DeliveryTarget :=
  match request.target with
  | none => .error .invalidInput
  | some target =>
      if target.replyToMessageId.any (fun id => decide (id ≠ messageId)) ||
          decide (target.botId ≠ botId) then
        .error .invalidInput
      else .ok target

/-- The options are left open, and the source is not too long. -/
def checkRaw (request : DownloadRequest) : Except DownloadError Unit :=
  if !requestFormatDefaults request || request.preferenceOverrides.isSome ||
      request.network != .none ||
      decide (4096 < Text.byteLen request.sourceUrl.asStr.toList) then
    .error .invalidInput
  else .ok ()

def validateTelegramRequest (botId : Int64) (request : DownloadRequest) (messageId : Int32)
    (overrides : DownloadPreferenceOverrides) : Except DownloadError DeliveryTarget := do
  if messageId ≤ 0 then throw .invalidInput
  let target ← telegramTarget botId request messageId
  checkRaw request
  if !request.mediaMode.listing then
    let _ ← (resolveFormatValues request.mediaMode none overrides).mapError mapProfile
  return target

/-- What a message leads to. -/
inductive TelegramAction where
  /-- A listing is submitted as it is. -/
  | submitRequest
  /-- The draft of this message is there already. -/
  | quality (current : QualitySession)
  /-- The operation of this message is there already. -/
  | admitted (admission : Admission)
  /-- The request is kept until a quality is chosen. -/
  | beginQuality (draft : DownloadRequest)
  | submitPreferred

/-- What a submission reads besides the surroundings of an admission. -/
structure TelegramReads where
  around : Surroundings
  /-- `quality_current` of the chat -/
  current : Except StoreError (Option QualitySession)
  /-- `replay_network_admission` of the message -/
  replayed : Except StoreError (Option Admission)

/-- The chat of the actor with the bot. -/
def privateActor (request : DownloadRequest) (target : DeliveryTarget) : Bool :=
  decide (target.chatId.toInt = (request.actorId.toNat : Int)) && target.threadId.isNone

/-- The session of the chat, if it is the one of this message. -/
def currentDraft (reads : TelegramReads) (intent : DownloadRequest) (messageId : Int32) :
    Except DownloadError (Option QualitySession) := do
  match ← reads.current.mapError mapQualityError with
  | none => return none
  | some current =>
      if messageId < current.originMessageId then throw .conflict
      if current.originMessageId = messageId then
        if (current.request == intent) = false then throw .conflict
        return some current
      if current.stage = .confirming then throw .conflict
      return none

/-- Whether the saved preferences leave the quality to a choice, and fit the rest. -/
def asksQuality (around : Surroundings) (request : DownloadRequest)
    (overrides : DownloadPreferenceOverrides) : Except DownloadError Bool := do
  match ← around.preferences.mapError mapProfile with
  | none => return false
  | some saved =>
      if qualityAsks saved.quality then
        let _ ← (resolveFormatValues request.mediaMode
          (some { saved with quality := some "best" })
          { overrides with maxHeight := some none }).mapError mapProfile
        return true
      else return false

/-- A video in the chat of the actor whose height is not given. -/
def mayAsk (isPrivate : Bool) (request : DownloadRequest)
    (overrides : DownloadPreferenceOverrides) : Bool :=
  isPrivate && request.mediaMode == .video && overrides.maxHeight.isNone

/-- What a message leads to, once nothing was found for it. -/
def newSubmission (around : Surroundings) (isPrivate : Bool) (request : DownloadRequest)
    (overrides : DownloadPreferenceOverrides) : Except DownloadError TelegramAction := do
  if mayAsk isPrivate request overrides then
    if ← asksQuality around request overrides then
      return .beginQuality (request.withPreferenceOverrides overrides)
  return .submitPreferred

/-- What was found for a message: its draft or its operation. -/
def foundSubmission (reads : TelegramReads) (isPrivate : Bool) (intent : DownloadRequest)
    (messageId : Int32) (telegram : Option TelegramMediaAdmission) :
    Except DownloadError (Option TelegramAction) := do
  if isPrivate then
    if let some current ← currentDraft reads intent messageId then
      return some (.quality current)
  if telegram.isNone then
    if let some admission ← reads.replayed.mapError mapQualityError then
      return some (.admitted admission)
  return none

def submitTelegramContext (botId : Int64) (reads : TelegramReads) (request : DownloadRequest)
    (messageId : Int32) (overrides : DownloadPreferenceOverrides)
    (telegram : Option TelegramMediaAdmission) : Except DownloadError TelegramAction := do
  let target ← validateTelegramRequest botId request messageId overrides
  reads.around.authorization
  let isPrivate := privateActor request target
  if request.mediaMode.listing then
    if !isPrivate || overrides != {} then throw .denied
    return .submitRequest
  match ← foundSubmission reads isPrivate (request.withPreferenceOverrides overrides)
      messageId telegram with
  | some action => return action
  | none => newSubmission reads.around isPrivate request overrides

/-! ## A choice -/

/-- The raw request of a draft. -/
def withoutOverrides (request : DownloadRequest) : Except DownloadError DownloadRequest := do
  let original ← invalidInput (DownloadRequest.new request.actorId request.sourceUrl.asStr
    request.mediaMode request.clipRange request.params)
  let original ← match request.target with
    | some target => invalidInput (original.withTarget target)
    | none => .ok original
  invalidInput (original.withNetwork request.network)

/-- The sound of a draft, with what can be taken over from its parameters. -/
def audioRequest (draft : DownloadRequest) : Except DownloadError DownloadRequest := do
  let params ← invalidInput (structural draft.params)
  let audio ← invalidInput (DownloadRequest.new draft.actorId draft.sourceUrl.asStr .audio
    draft.clipRange params)
  let audio ← match draft.target with
    | some target => invalidInput (audio.withTarget target)
    | none => .error .invalidInput
  invalidInput (audio.withNetwork draft.network)

/-- The overrides a draft was submitted with. -/
def savedOverrides (draft : DownloadRequest) : DownloadPreferenceOverrides :=
  draft.preferenceOverrides.getD {}

/-- The submission of a choice. -/
def selectedRequest (draft : DownloadRequest) (choice : QualityChoice) :
    Except DownloadError (DownloadRequest × DownloadPreferenceOverrides) := do
  let saved := savedOverrides draft
  if choice = .audio then
    let audio ← audioRequest draft
    return (audio, { audioCodec := saved.audioCodec, sendAsFile := saved.sendAsFile })
  else
    let original ← withoutOverrides draft
    if saved.maxHeight.isSome then throw .invalidPreferences
    return (original, { saved with maxHeight := some choice.maxHeight })

end YoinkCore.Downloads
