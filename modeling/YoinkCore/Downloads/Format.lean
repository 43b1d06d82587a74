import YoinkCore.Storage.Model

/-!
# Format preferences

A download takes its format from what the caller overrides, then from the saved
preferences of the actor, then from the defaults. `resolveFormatValues` works the
three out for one media mode.
-/

namespace YoinkCore.Downloads

open Lib Domain

/-! ## Errors -/

inductive ProfileError where
  | unavailable
  | staleReference
  | sharedAccessDenied
  | proxyUnavailable
  | invalidProxy
  | invalidCookie
  | unsupportedAuthentication
  | database
  | invalidPreferences
  | candidateCapacityExceeded
deriving DecidableEq

/-! ## Preferences -/

/-- The saved format preferences of an actor. -/
structure FormatPreferences where
  quality : Option String
  codec : Option String
  container : Option String
  sendAsFile : Bool
  audioCodec : Option String
  galleryZip : Bool
  subtitleLanguage : Option String
  subtitleAutomatic : Bool
deriving DecidableEq

def FormatPreferences.defaults : FormatPreferences where
  quality := some "best"
  codec := some "avc1"
  container := some "mp4"
  sendAsFile := false
  audioCodec := some "best"
  galleryZip := false
  subtitleLanguage := some "en"
  subtitleAutomatic := false

/-- An override that the mode has no use for, but for the subtitle ones. -/
def irrelevant (mode : MediaMode) (o : DownloadPreferenceOverrides) : Bool :=
  match mode with
  | .subtitles =>
      o.maxHeight.isSome || o.videoCodec.isSome || o.audioCodec.isSome ||
        o.container.isSome || o.galleryZip.isSome || o.sendAsFile.isSome
  | .video => o.galleryZip.isSome
  | .audio =>
      o.maxHeight.isSome || o.videoCodec.isSome || o.galleryZip.isSome ||
        o.container.isSome
  | .image =>
      o.maxHeight.isSome || o.videoCodec.isSome || o.audioCodec.isSome ||
        o.container.isSome
  | .formats | .links | .audioLinks => true

def required {α : Type} (value : Option α) : Except ProfileError α :=
  match value with
  | some a => .ok a
  | none => .error .invalidPreferences

def lower (s : String) : String := String.ofList (s.toList.map Text.toLower)

/-- A saved quality: a name, or a height with an optional `p`. -/
def parseQuality (quality : String) : Except ProfileError (Option UInt32) :=
  match lower quality with
  | "best" => .ok none
  | "4k" => .ok (some 2160)
  | "8k" => .ok (some 4320)
  | value =>
      match Text.parseUnsigned u32Max (Text.stripSuffix 'p' value.toList) with
      | some n =>
          if 0 < n ∧ n ≤ 100000 then .ok (some (.ofNat n)) else .error .invalidPreferences
      | none => .error .invalidPreferences

def parseVideoCodec (codec : String) : Except ProfileError VideoCodec :=
  match lower codec with
  | "avc1" | "h264" => .ok .h264
  | "h265" | "hevc" => .ok .h265
  | "av01" | "av1" => .ok .av1
  | "vp09" | "vp9" => .ok .vp9
  | "any" => .ok .any
  | _ => .error .invalidPreferences

def parseContainer : String → Except ProfileError Container
  | "mp4" => .ok .mp4
  | "mkv" => .ok .mkv
  | "webm" => .ok .webm
  | _ => .error .invalidPreferences

def parseAudioCodec : String → Except ProfileError AudioCodec
  | "best" => .ok .best
  | "aac" | "mp4a" => .ok .aac
  | "mp3" => .ok .mp3
  | "opus" => .ok .opus
  | _ => .error .invalidPreferences

/-- An override, or else what the saved preference means. -/
def overrideOr {α : Type} (override : Option α) (saved : Option String)
    (parse : String → Except ProfileError α) : Except ProfileError α :=
  match override with
  | some a => .ok a
  | none => required saved >>= parse

/-- A WebM file needs a matching codec, and Opus asked for by the caller. -/
def webmAudio (codec : VideoCodec) (container : Container) (audio : Option AudioCodec) :
    Except ProfileError AudioCodec :=
  if container = .webm then
    if (codec = .vp9 ∨ codec = .av1) ∧ audio = some .opus then .ok .opus
    else .error .invalidPreferences
  else .ok (audio.getD .best)

def invalidPreferences {ε α : Type} (x : Except ε α) : Except ProfileError α :=
  x.mapError fun _ => .invalidPreferences

/-- `resolve_format_values` -/
def resolveFormatValues (mode : MediaMode) (preferences : Option FormatPreferences)
    (o : DownloadPreferenceOverrides) : Except ProfileError DownloadParams := do
  if mode ≠ .subtitles ∧ (o.subtitleLanguage.isSome ∨ o.subtitleAutomatic.isSome) then
    throw .invalidPreferences
  if irrelevant mode o || o.maxHeight.join.any (fun h => h == 0 || decide (100000 < h)) then
    throw .invalidPreferences
  let p := preferences.getD .defaults
  let params := DownloadParams.default
  match mode with
  | .subtitles => do
      let language ← required (o.subtitleLanguage.or p.subtitleLanguage)
      let automatic := o.subtitleAutomatic.getD p.subtitleAutomatic
      let subtitles ← invalidPreferences (SubtitleOptions.new language automatic)
      return params.withSubtitles (some subtitles)
  | .video => do
      let height ← overrideOr o.maxHeight p.quality parseQuality
      let params ← invalidPreferences (params.withMaxHeight height)
      let codec ← overrideOr o.videoCodec p.codec parseVideoCodec
      let container ← overrideOr o.container p.container parseContainer
      let audio ← webmAudio codec container o.audioCodec
      return (((params.withAudioCodec audio).withVideoCodec codec).withContainer
        container).withSendAsFile (o.sendAsFile.getD p.sendAsFile)
  | .audio => do
      let audio ← overrideOr o.audioCodec p.audioCodec parseAudioCodec
      return (params.withAudioCodec audio).withSendAsFile (o.sendAsFile.getD p.sendAsFile)
  | .image =>
      return (params.withGalleryZip (o.galleryZip.getD p.galleryZip)).withSendAsFile
        (o.sendAsFile.getD p.sendAsFile)
  | .formats | .links | .audioLinks => throw .invalidPreferences

end YoinkCore.Downloads
