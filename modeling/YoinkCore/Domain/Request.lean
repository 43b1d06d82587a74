import YoinkCore.Platform
import YoinkCore.Domain.DownloaderSettings
import YoinkCore.Domain.Network
import YoinkCore.Domain.Params

/-!
# Download requests

`DownloadRequest` is the validated input of one operation. Its last fields state
what its constructors check: whoever holds a request may rely on them, and every
builder below has to establish them again.
-/

namespace YoinkCore.Domain

open Lib

variable [Platform]

/-! ## Delivery targets -/

def validTarget (botId chatId : Int64) (threadId : Option Int64)
    (replyToMessageId : Option Int32) : Bool :=
  decide (0 < botId.toInt) && decide (chatId.toInt ≠ 0) &&
    threadId.all (fun id => decide (0 < id.toInt)) &&
    replyToMessageId.all (fun id => decide (0 < id.toInt))

/-- A validated delivery destination. -/
structure DeliveryTarget where
  botId : Int64
  chatId : Int64
  threadId : Option Int64
  replyToMessageId : Option Int32
  valid : validTarget botId chatId threadId replyToMessageId = true
deriving DecidableEq

namespace DeliveryTarget

omit [Platform]

def new (botId chatId : Int64) (threadId : Option Int64)
    (replyToMessageId : Option Int32) :
    Except RequestValidationError DeliveryTarget :=
  if h : validTarget botId chatId threadId replyToMessageId = true then
    .ok ⟨botId, chatId, threadId, replyToMessageId, h⟩
  else .error .invalidDeliveryTarget

theorem new_self (t : DeliveryTarget) :
    new t.botId t.chatId t.threadId t.replyToMessageId = .ok t := by
  unfold new
  rw [dif_pos t.valid]

/-- A private chat belongs to the actor. -/
def reachable (t : DeliveryTarget) (actorId : UInt64) : Bool :=
  !(decide (0 < t.chatId.toInt) && decide (t.chatId.toInt ≠ actorId.toNat))

end DeliveryTarget

/-! ## Parameters under a mode -/

/-- What a request promises about its parameters. -/
def paramsFit (mode : MediaMode) (clip : Option ClipRange) (p : DownloadParams) :
    Bool :=
  !(clip.isSome && !p.clips.isEmpty) &&
    (match p.validateMode mode clip with
      | .ok _ => true
      | .error _ => false) &&
    (mode != .subtitles || p.subtitles.isSome)

/-- A subtitle request without a selection gets the default one. -/
def withDefaultSubtitles (mode : MediaMode) (p : DownloadParams) : DownloadParams :=
  if mode = .subtitles ∧ p.subtitles.isNone then
    p.withSubtitles (some .default)
  else p

variable {clip : Option ClipRange} {p : DownloadParams} {mode : MediaMode}

omit [Platform] in
theorem paramsFit_withDefaultSubtitles (hc : (clip.isSome && !p.clips.isEmpty) = false)
    (hv : p.validateMode mode clip = .ok ()) :
    paramsFit mode clip (withDefaultSubtitles mode p) = true := by
  unfold withDefaultSubtitles
  split
  · rename_i h
    obtain ⟨rfl, -⟩ := h
    have hv' : (p.withSubtitles (some .default)).validateMode .subtitles clip =
        p.validateMode .subtitles clip := rfl
    show (!(clip.isSome && !p.clips.isEmpty) && _ && _) = true
    rw [hv', hv, hc]
    rfl
  · rename_i h
    simp only [paramsFit, hv, hc]
    by_cases hm : mode = .subtitles
    · subst hm
      cases hs : p.subtitles with
      | none => exact absurd ⟨rfl, by rw [hs]; rfl⟩ h
      | some s => rfl
    · simp [hm]

/-- The check shared by `DownloadRequest::new` and `with_params`. -/
def checkedParams (mode : MediaMode) (clip : Option ClipRange) (p : DownloadParams) :
    Except RequestValidationError { q : DownloadParams // paramsFit mode clip q = true } :=
  if hc : (clip.isSome && !p.clips.isEmpty) = false then
    match hv : p.validateMode mode clip with
    | .ok _ => .ok ⟨withDefaultSubtitles mode p, paramsFit_withDefaultSubtitles hc hv⟩
    | .error e => .error e
  else .error .invalidParameters

omit [Platform] in
theorem validateMode_of_fit (h : paramsFit mode clip p = true) :
    (clip.isSome && !p.clips.isEmpty) = false ∧ p.validateMode mode clip = .ok () := by
  simp only [paramsFit, Bool.and_eq_true, Bool.not_eq_true'] at h
  refine ⟨h.1.1, ?_⟩
  cases hv : p.validateMode mode clip with
  | ok u => rfl
  | error e =>
      rw [hv] at h
      exact absurd h.1.2 (by simp)

omit [Platform] in
/-- Parameters that fit pass the check unchanged. -/
theorem checkedParams_of_fit (h : paramsFit mode clip p = true) :
    checkedParams mode clip p = .ok ⟨p, h⟩ := by
  obtain ⟨hc, hv⟩ := validateMode_of_fit h
  have hs : withDefaultSubtitles mode p = p := by
    unfold withDefaultSubtitles
    rw [if_neg]
    rintro ⟨rfl, hn⟩
    simp only [paramsFit, Bool.and_eq_true] at h
    rw [Option.isNone_iff_eq_none] at hn
    rw [hn] at h
    exact absurd h.2 (by decide)
  unfold checkedParams
  rw [dif_pos hc]
  split
  · simp [hs]
  · rename_i e he
    rw [hv] at he
    cases he

/-! ## Requests -/

/-- A source URL without embedded credentials, over HTTP. -/
def validSource (url : Url) : Bool :=
  (Platform.scheme url == "http" || Platform.scheme url == "https") &&
    (Platform.hostStr url).isSome && (Platform.username url).isEmpty &&
    (Platform.password url).isNone

structure DownloadRequest where
  actorId : UInt64
  sourceUrl : Url
  mediaMode : MediaMode
  clipRange : Option ClipRange
  params : DownloadParams
  target : Option DeliveryTarget
  network : NetworkSelection
  preferenceOverrides : Option DownloadPreferenceOverrides
  downloaderSettings : Option DownloaderSettings
  forceNsfw : Bool
  actor_pos : 0 < actorId.toNat
  actor_le : actorId.toNat ≤ i64Max
  source_parsed : ∃ text, Platform.parseUrl text = some sourceUrl
  source_ok : validSource sourceUrl = true
  params_ok : paramsFit mediaMode clipRange params = true
  target_ok : target.all (·.reachable actorId) = true
  network_ok : network.validateActor actorId = .ok ()
  settings_ok : downloaderSettings.all (·.inRange) = true

namespace DownloadRequest

def new (actorId : UInt64) (sourceUrl : String) (mediaMode : MediaMode)
    (clipRange : Option ClipRange) (params : DownloadParams) :
    Except RequestValidationError DownloadRequest :=
  if ha : 0 < actorId.toNat ∧ actorId.toNat ≤ i64Max then
    match hp : Platform.parseUrl sourceUrl with
    | none => .error .invalidSourceUrl
    | some url =>
        if hs : validSource url = true then
          match checkedParams mediaMode clipRange params with
          | .error e => .error e
          | .ok checked =>
              .ok {
                actorId, sourceUrl := url, mediaMode, clipRange
                params := checked.1
                target := none, network := .none
                preferenceOverrides := none, downloaderSettings := none
                forceNsfw := false
                actor_pos := ha.1, actor_le := ha.2
                source_parsed := ⟨sourceUrl, hp⟩, source_ok := hs
                params_ok := checked.2
                target_ok := rfl, network_ok := rfl, settings_ok := rfl }
        else .error .invalidSourceUrl
  else .error .invalidActorId

def withForceNsfw (r : DownloadRequest) (forced : Bool) : DownloadRequest :=
  { r with forceNsfw := forced }

def withPreferenceOverrides (r : DownloadRequest)
    (overrides : DownloadPreferenceOverrides) : DownloadRequest :=
  { r with preferenceOverrides := some overrides }

/-- Admission-owned snapshot, excluded from replay intent and worker input. -/
def withDownloaderSettings (r : DownloadRequest) (settings : Option DownloaderSettings) :
    Except RequestValidationError DownloadRequest :=
  if h : settings.all (·.inRange) = true then
    .ok { r with downloaderSettings := settings, settings_ok := h }
  else .error .invalidParameters

def withParams (r : DownloadRequest) (params : DownloadParams) :
    Except RequestValidationError DownloadRequest :=
  (checkedParams r.mediaMode r.clipRange params).map fun checked =>
    { r with params := checked.1, params_ok := checked.2 }

def withNetwork (r : DownloadRequest) (network : NetworkSelection) :
    Except RequestValidationError DownloadRequest :=
  match h : network.validateActor r.actorId with
  | .ok _ => .ok { r with network := network, network_ok := h }
  | .error _ => .error .networkActorMismatch

def withTarget (r : DownloadRequest) (target : DeliveryTarget) :
    Except RequestValidationError DownloadRequest :=
  if h : target.reachable r.actorId = true then
    .ok { r with target := some target, target_ok := h }
  else .error .invalidDeliveryTarget

variable {q r : DownloadRequest}

theorem withDownloaderSettings_eq_ok {settings : Option DownloaderSettings}
    (h : r.withDownloaderSettings settings = .ok q) :
    ∃ ok, q = { r with downloaderSettings := settings, settings_ok := ok } := by
  unfold withDownloaderSettings at h
  split at h <;> cases h
  exact ⟨_, rfl⟩

variable {params : DownloadParams} {network : NetworkSelection} {target : DeliveryTarget}

theorem withNetwork_eq_ok (h : r.withNetwork network = .ok q) :
    ∃ ok, q = { r with network := network, network_ok := ok } := by
  unfold withNetwork at h
  split at h <;> cases h
  exact ⟨_, rfl⟩

theorem withNetwork_of_valid (h : network.validateActor r.actorId = .ok ()) :
    r.withNetwork network = .ok { r with network := network, network_ok := h } := by
  unfold withNetwork
  split
  · rfl
  · rename_i e he
    rw [h] at he
    cases he

theorem withParams_of_fit (h : paramsFit r.mediaMode r.clipRange params = true) :
    r.withParams params = .ok { r with params := params, params_ok := h } := by
  rw [withParams, checkedParams_of_fit h]
  rfl

theorem withParams_eq_ok (h : r.withParams params = .ok q) :
    ∃ ok, q = { r with
      params := withDefaultSubtitles r.mediaMode params, params_ok := ok } := by
  unfold withParams checkedParams at h
  split at h
  · split at h
    · cases h
      exact ⟨_, rfl⟩
    · cases h
  · cases h

theorem withTarget_of_reachable (h : target.reachable r.actorId = true) :
    r.withTarget target = .ok { r with target := some target, target_ok := h } := by
  rw [withTarget, dif_pos h]

theorem withTarget_eq_ok (h : r.withTarget target = .ok q) :
    ∃ ok, q = { r with target := some target, target_ok := ok } := by
  unfold withTarget at h
  split at h <;> cases h
  exact ⟨_, rfl⟩

theorem noNetwork_ok (r : DownloadRequest) :
    NetworkSelection.none.validateActor r.actorId = .ok () := rfl

omit [Platform] in
theorem noSettings_ok : (none : Option DownloaderSettings).all (·.inRange) = true := rfl

/-- The part of a request its constructor fixes. -/
def bare (r : DownloadRequest) : DownloadRequest :=
  { r with
    target := none, network := .none, preferenceOverrides := none
    downloaderSettings := none, forceNsfw := false
    target_ok := rfl, network_ok := rfl, settings_ok := rfl }

/-- The constructor accepts the actor, the source and the clip of a request again, with
any parameters that fit. -/
theorem new_of_fit (hu : StableUrls) (r : DownloadRequest)
    (h : paramsFit mode r.clipRange params = true) :
    new r.actorId r.sourceUrl.asStr mode r.clipRange params =
      .ok { r.bare with mediaMode := mode, params, params_ok := h } := by
  obtain ⟨text, ht⟩ := r.source_parsed
  have hp := hu text r.sourceUrl ht
  unfold new
  rw [dif_pos ⟨r.actor_pos, r.actor_le⟩]
  split
  · rename_i hn
    rw [hp] at hn
    cases hn
  · rename_i url hs
    obtain rfl : r.sourceUrl = url := by
      rw [hp] at hs
      exact Option.some.inj hs
    rw [dif_pos r.source_ok, checkedParams_of_fit h]
    rfl

/-- The constructor accepts the parts of a request again. -/
theorem new_self (hu : StableUrls) (r : DownloadRequest) :
    new r.actorId r.sourceUrl.asStr r.mediaMode r.clipRange r.params = .ok r.bare :=
  new_of_fit hu r r.params_ok

/-- The builders put the other parts back. -/
theorem rebuild (r : DownloadRequest) :
    (do
      let q ← match r.target with
        | some t => r.bare.withTarget t
        | none => .ok r.bare
      let q := match r.preferenceOverrides with
        | some o => q.withPreferenceOverrides o
        | none => q
      let q ← q.withDownloaderSettings r.downloaderSettings
      (q.withForceNsfw r.forceNsfw).withNetwork r.network) = .ok r := by
  have hn : ∀ q : DownloadRequest, q.actorId = r.actorId →
      ∃ h, q.withNetwork r.network = .ok { q with network := r.network, network_ok := h } :=
    fun q hq => ⟨hq ▸ r.network_ok, withNetwork_of_valid _⟩
  obtain ⟨a, b, c, d, e, target, g, overrides, i, j, _, _, _, _, _, ht, _, hi⟩ := r
  cases target with
  | none =>
      cases overrides <;>
        simp [bare, bind, Except.bind, withDownloaderSettings, hi, withForceNsfw,
          withPreferenceOverrides] <;>
        exact (hn _ rfl).2
  | some t =>
      have ht' : t.reachable a = true := by simpa using ht
      cases overrides <;>
        simp [bare, bind, Except.bind, withTarget, ht', withDownloaderSettings, hi,
          withForceNsfw, withPreferenceOverrides] <;>
        exact (hn _ rfl).2

/-- Field by field, the clips as numbers. -/
instance : BEq DownloadRequest where
  beq a b :=
    a.actorId == b.actorId && a.sourceUrl == b.sourceUrl &&
      a.mediaMode == b.mediaMode && a.clipRange == b.clipRange &&
      a.params == b.params && a.target == b.target && a.network == b.network &&
      a.preferenceOverrides == b.preferenceOverrides &&
      a.downloaderSettings == b.downloaderSettings && a.forceNsfw == b.forceNsfw

/-- The fields, with the values of the clips. -/
def values (r : DownloadRequest) :=
  (r.actorId, r.sourceUrl, r.mediaMode, r.clipRange.map ClipRange.values,
    r.params.values, r.target, r.network, r.preferenceOverrides,
    r.downloaderSettings, r.forceNsfw)

theorem keyed : KeyedBEq values := by
  intro a b
  show (_ && _ && _ && _ && _ && _ && _ && _ && _ && _) = true ↔ _
  simp only [Bool.and_eq_true, beq_iff_eq, and_assoc, values, Prod.mk.injEq,
    ClipRange.keyed.option a.clipRange b.clipRange,
    DownloadParams.keyed a.params b.params]

end DownloadRequest

/-! ## Provider routing -/

/-- A host equal to a domain, or below it. -/
def hostMatches (host : Text.Str) (domain : String) : Bool :=
  host == domain.toList ||
    (domain.toList.isSuffixOf host &&
      (host.take (host.length - domain.toList.length)).getLast? == some '.')

/-- Hosts served by the gallery downloader. -/
def galleryDomains : List String :=
  ["2ch.su", "4chan.org", "e-hentai.org", "e621.net", "gelbooru.com", "kemono.cr",
    "kemono.party", "coomer.party", "nhentai.net", "civitai.com", "wallhaven.cc"]

/-- Versioned legacy defaults. Host labels and literal path prefixes, never query
substrings. -/
def automaticProviderV1 (url : Url) (mode : MediaMode) : Engine :=
  match mode with
  | .image => .autoGalleryV1
  | .subtitles | .formats | .links | .audioLinks => .autoYtDlpV1
  | .video | .audio =>
      let host := Text.trimEnd '.' ((Platform.hostStr url).getD "").toList
      let path := (Platform.path url).toList
      if ["youtube.com", "youtu.be"].any (hostMatches host) then .autoYtDlpV1
      else if galleryDomains.any (hostMatches host) ||
          (hostMatches host "vk.com" &&
            ["/wall-", "/album-"].any (fun p => p.toList.isPrefixOf path)) then
        .autoGalleryV1
      else if hostMatches host "instagram.com" || hostMatches host "tiktok.com" then
        .autoFallbackV1
      else .autoYtDlpV1

/-- The routing table never chooses an engine the mode refuses. -/
theorem paramsFit_automatic (url : Url) (he : p.engine = .auto) (h : paramsFit mode clip p = true) :
    paramsFit mode clip (p.withEngine (automaticProviderV1 url mode)) = true := by
  cases mode <;>
    simp_all [paramsFit, DownloadParams.validateMode, DownloadParams.withEngine,
      automaticProviderV1]

/-- Freeze the automatic routing table at admission; explicit engine intent is
unchanged. -/
def DownloadRequest.freezeProviderRouting (r : DownloadRequest) : DownloadRequest :=
  if h : r.params.engine = .auto then
    { r with
      params := r.params.withEngine (automaticProviderV1 r.sourceUrl r.mediaMode)
      params_ok := paramsFit_automatic r.sourceUrl h r.params_ok }
  else r

end YoinkCore.Domain
