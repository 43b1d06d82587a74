import YoinkCore.Lib.Ieee
import YoinkCore.Lib.Text

/-!
# Download parameters

The options of one download. Their constructors check what every value of the
type must satisfy; `validateMode` checks what a media mode allows on top.
-/

namespace YoinkCore.Domain

open Lib

inductive MediaMode where
  | video | audio | image | subtitles | formats | links | audioLinks
deriving DecidableEq

/-- Modes that only list what there is to download. -/
def MediaMode.listing : MediaMode → Bool
  | .formats | .links | .audioLinks => true
  | .video | .audio | .image | .subtitles => false

inductive VideoCodec where
  | h264 | h265 | av1 | vp9 | any
deriving DecidableEq

inductive AudioCodec where
  | best | aac | mp3 | opus
deriving DecidableEq

inductive Container where
  | mp4 | mkv | webm
deriving DecidableEq

inductive Engine where
  | auto | ytDlp | gallery | autoYtDlpV1 | autoGalleryV1 | autoFallbackV1
deriving DecidableEq

inductive RequestValidationError where
  | invalidActorId
  | invalidSourceUrl
  | invalidClipRange
  | invalidParameters
  | invalidDeliveryTarget
  | networkActorMismatch
deriving DecidableEq

/-! ## Ranges -/

/-- What `PlaylistRange::new` accepts: at most a hundred entries, both ends on
one side of the list. -/
def playlistBounds (start : Int32) (stop : Option Int32) : Bool :=
  match stop with
  | none => start.toInt ≠ 0 && decide (-100 ≤ start.toInt)
  | some stop =>
      start.toInt ≠ 0 && stop.toInt ≠ 0 &&
        decide (decide (0 < start.toInt) = decide (0 < stop.toInt)) &&
        decide ((stop.toInt - start.toInt).natAbs + 1 ≤ 100)

structure PlaylistRange where
  start : Int32
  stop : Option Int32
  bounded : playlistBounds start stop = true
deriving DecidableEq

namespace PlaylistRange

def new (start : Int32) (stop : Option Int32) :
    Except RequestValidationError PlaylistRange :=
  if h : playlistBounds start stop = true then .ok ⟨start, stop, h⟩
  else .error .invalidParameters

theorem new_self (r : PlaylistRange) : new r.start r.stop = .ok r := by
  unfold new
  rw [dif_pos r.bounded]

def entryCount (r : PlaylistRange) : Nat :=
  match r.stop with
  | some stop => (stop.toInt - r.start.toInt).natAbs + 1
  | none => if 0 < r.start.toInt then 1 else r.start.toInt.natAbs

end PlaylistRange

/-- A finite, nonnegative start and a strictly later end. -/
def clipBounds (startSeconds endSeconds : Float) : Bool :=
  startSeconds.isFinite && endSeconds.isFinite && !(startSeconds < 0.0 : Bool) &&
    !(endSeconds < 0.0 : Bool) && !(endSeconds ≤ startSeconds : Bool)

/-- A validated time range in seconds, with an exclusive end. -/
structure ClipRange where
  startSeconds : Float
  endSeconds : Float
  bounded : clipBounds startSeconds endSeconds = true

namespace ClipRange

def new (startSeconds endSeconds : Float) : Except RequestValidationError ClipRange :=
  if h : clipBounds startSeconds endSeconds = true then
    .ok ⟨startSeconds, endSeconds, h⟩
  else .error .invalidClipRange

theorem new_self (c : ClipRange) : new c.startSeconds c.endSeconds = .ok c := by
  unfold new
  rw [dif_pos c.bounded]

/-- Comparison of the two bounds as numbers. -/
instance : BEq ClipRange where
  beq a b := a.startSeconds == b.startSeconds && a.endSeconds == b.endSeconds

theorem start_isFinite (c : ClipRange) : c.startSeconds.isFinite = true := by
  have := c.bounded
  simp only [clipBounds, Bool.and_eq_true] at this
  exact this.1.1.1.1

theorem end_isFinite (c : ClipRange) : c.endSeconds.isFinite = true := by
  have := c.bounded
  simp only [clipBounds, Bool.and_eq_true] at this
  exact this.1.1.1.2

theorem start_nonneg (c : ClipRange) : 0.0 ≤ c.startSeconds := by
  have h := c.bounded
  simp only [clipBounds, Bool.and_eq_true, Bool.not_eq_true', decide_eq_false_iff_not] at h
  exact Ieee.le_of_not_lt (by decide +kernel) c.start_isFinite h.1.1.2

theorem start_lt_end (c : ClipRange) : c.startSeconds < c.endSeconds := by
  have h := c.bounded
  simp only [clipBounds, Bool.and_eq_true, Bool.not_eq_true', decide_eq_false_iff_not] at h
  exact Ieee.lt_of_not_le c.start_isFinite c.end_isFinite h.2

def values (c : ClipRange) : Float.Model.UnpackedFloat × Float.Model.UnpackedFloat :=
  (Ieee.value c.startSeconds, Ieee.value c.endSeconds)

theorem keyed : KeyedBEq values := by
  intro a b
  rw [values, values, Prod.mk.injEq, ← Ieee.beq_iff a.start_isFinite,
    ← Ieee.beq_iff a.end_isFinite]
  exact Bool.and_eq_true_iff

end ClipRange

/-! ## Subtitles and overrides -/

/-- `xx` or `xxx`, with an optional alphanumeric subtag. -/
def subtitleLanguage (language : String) : Bool :=
  let t := language.toList
  let primary (p : Text.Str) :=
    (p.length == 2 || p.length == 3) && p.all Text.isLower
  let subtag (p : Text.Str) :=
    decide (2 ≤ p.length) && decide (p.length ≤ 8) && p.all Text.isAlphanumeric
  decide (Text.byteLen t ≤ 16) &&
    match Text.split '-' t with
    | [p] => primary p
    | [p, q] => primary p && subtag q
    | _ => false

/-- Exact subtitle language selection, never a provider regex or filename. -/
structure SubtitleOptions where
  language : String
  automatic : Bool
  language_ok : subtitleLanguage language = true
deriving DecidableEq

namespace SubtitleOptions

def new (language : String) (automatic : Bool) :
    Except RequestValidationError SubtitleOptions :=
  if h : subtitleLanguage language = true then .ok ⟨language, automatic, h⟩
  else .error .invalidParameters

theorem new_self (s : SubtitleOptions) : new s.language s.automatic = .ok s := by
  unfold new
  rw [dif_pos s.language_ok]

def default : SubtitleOptions := ⟨"en", false, by decide⟩

end SubtitleOptions

/-- Caller-selected format overrides used to freeze saved preferences. -/
structure DownloadPreferenceOverrides where
  maxHeight : Option (Option UInt32) := none
  videoCodec : Option VideoCodec := none
  audioCodec : Option AudioCodec := none
  container : Option Container := none
  sendAsFile : Option Bool := none
  galleryZip : Option Bool := none
  subtitleLanguage : Option String := none
  subtitleAutomatic : Option Bool := none
deriving DecidableEq

/-! ## The parameters of one operation -/

theorem noHeight_ok : (none : Option UInt32) ≠ some 0 := by decide

theorem noClips_ok : ([] : List ClipRange).length ≤ 20 := by decide

structure DownloadParams where
  maxHeight : Option UInt32 := none
  videoCodec : VideoCodec := .h264
  audioCodec : AudioCodec := .best
  container : Container := .mp4
  engine : Engine := .auto
  playlist : Option PlaylistRange := none
  clips : List ClipRange := []
  sendAsFile : Bool := false
  galleryZip : Bool := false
  subtitles : Option SubtitleOptions := none
  mediaInfo : Bool := false
  height_ok : maxHeight ≠ some 0 := by first | exact noHeight_ok | decide
  clips_ok : clips.length ≤ 20 := by first | exact noClips_ok | decide

namespace DownloadParams

def default : DownloadParams := {}

def new (maxHeight : Option UInt32) : Except RequestValidationError DownloadParams :=
  if h : maxHeight ≠ some 0 then .ok { maxHeight, height_ok := h }
  else .error .invalidParameters

def withMediaInfo (p : DownloadParams) (enabled : Bool) : DownloadParams :=
  { p with mediaInfo := enabled }

def withMaxHeight (p : DownloadParams) (value : Option UInt32) :
    Except RequestValidationError DownloadParams :=
  if h : value ≠ some 0 then .ok { p with maxHeight := value, height_ok := h }
  else .error .invalidParameters

def withVideoCodec (p : DownloadParams) (value : VideoCodec) : DownloadParams :=
  { p with videoCodec := value }

def withAudioCodec (p : DownloadParams) (value : AudioCodec) : DownloadParams :=
  { p with audioCodec := value }

def withContainer (p : DownloadParams) (value : Container) : DownloadParams :=
  { p with container := value }

def withEngine (p : DownloadParams) (value : Engine) : DownloadParams :=
  { p with engine := value }

def withPlaylist (p : DownloadParams) (value : Option PlaylistRange) :
    DownloadParams :=
  { p with playlist := value }

def withClips (p : DownloadParams) (value : List ClipRange) :
    Except RequestValidationError DownloadParams :=
  if h : value.length ≤ 20 then .ok { p with clips := value, clips_ok := h }
  else .error .invalidParameters

def withSendAsFile (p : DownloadParams) (value : Bool) : DownloadParams :=
  { p with sendAsFile := value }

def withGalleryZip (p : DownloadParams) (value : Bool) : DownloadParams :=
  { p with galleryZip := value }

def withSubtitles (p : DownloadParams) (value : Option SubtitleOptions) :
    DownloadParams :=
  { p with subtitles := value }

/-- Field by field, the clips as numbers. -/
instance : BEq DownloadParams where
  beq a b :=
    a.maxHeight == b.maxHeight && a.videoCodec == b.videoCodec &&
      a.audioCodec == b.audioCodec && a.container == b.container &&
      a.engine == b.engine && a.playlist == b.playlist && a.clips == b.clips &&
      a.sendAsFile == b.sendAsFile && a.galleryZip == b.galleryZip &&
      a.subtitles == b.subtitles && a.mediaInfo == b.mediaInfo

/-- The fields, with the values of the clips. -/
def values (p : DownloadParams) :=
  (p.maxHeight, p.videoCodec, p.audioCodec, p.container, p.engine, p.playlist,
    p.clips.map ClipRange.values, p.sendAsFile, p.galleryZip, p.subtitles,
    p.mediaInfo)

theorem keyed : KeyedBEq values := by
  intro a b
  show (_ && _ && _ && _ && _ && _ && _ && _ && _ && _ && _) = true ↔ _
  simp only [Bool.and_eq_true, beq_iff_eq, and_assoc, values, Prod.mk.injEq,
    ClipRange.keyed.list a.clips b.clips]

def validateMode (p : DownloadParams) (mode : MediaMode) (clip : Option ClipRange) :
    Except RequestValidationError Unit :=
  let accepted : Bool :=
    match mode with
    | .links | .audioLinks =>
        clip.isNone &&
          (p.maxHeight == none || p.maxHeight == some 720 ||
            p.maxHeight == some 1080 || p.maxHeight == some 480 ||
            p.maxHeight == some 360) &&
          p.videoCodec == .h264 && p.audioCodec == .best && p.container == .mp4 &&
          p.sendAsFile &&
          (p.engine == .auto || p.engine == .ytDlp || p.engine == .autoYtDlpV1) &&
          p.playlist.isNone && p.clips.isEmpty && !p.galleryZip &&
          p.subtitles.isNone && !(mode == .audioLinks && p.maxHeight.isSome)
    | .formats =>
        clip.isNone && p.maxHeight.isNone && p.videoCodec == .h264 &&
          p.audioCodec == .best && p.container == .mp4 && p.sendAsFile &&
          !(p.engine == .gallery || p.engine == .autoGalleryV1 ||
            p.engine == .autoFallbackV1) &&
          p.playlist.isNone && p.clips.isEmpty && !p.galleryZip && p.subtitles.isNone
    | .subtitles =>
        clip.isNone && p.maxHeight.isNone && p.videoCodec == .h264 &&
          p.audioCodec == .best && p.container == .mp4 &&
          !(p.engine == .gallery || p.engine == .autoGalleryV1 ||
            p.engine == .autoFallbackV1) &&
          p.playlist.isNone && p.clips.isEmpty && !p.galleryZip
    | .video | .audio | .image => p.subtitles.isNone
  if accepted then .ok () else .error .invalidParameters

end DownloadParams

end YoinkCore.Domain
