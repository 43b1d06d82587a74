import YoinkCore.Lib.Transaction
import YoinkCore.Storage.Codec

/-!
# The codec round trip

Every record is read back as it was written, and so is a whole request that is
`Storable`. What can get lost is exactly what the stored text does not keep: a
clip bound whose decimal text reads back as another number, and a height override
outside the range `decode` accepts: a request that comes back with its clips is
storable.
-/

namespace YoinkCore.Storage.Codec

open Lib Lib.Json Domain

/-! ## Records -/

theorem orNull_u32 (x : Option UInt32) :
    orNull asU32 (nullable (x.map ofU32)) = some x :=
  orNull_nullable (by simp [ofU32]) (by simp)

theorem orNull_i32 (x : Option Int32) :
    orNull asI32 (nullable (x.map ofI32)) = some x :=
  orNull_nullable (by simp [ofI32]) (by simp)

theorem orNull_i64 (x : Option Int64) :
    orNull asI64 (nullable (x.map ofI64)) = some x :=
  orNull_nullable (by simp [ofI64]) (by simp)

theorem orNull_bool (x : Option Bool) :
    orNull asBool (nullable (x.map .bool)) = some x :=
  orNull_nullable (by simp) (by simp [asBool])

theorem decodePlaylist_encode (r : PlaylistRange) :
    decodePlaylist (encodePlaylist r) = some r := by
  simp [decodePlaylist, encodePlaylist, object, asObj, required, withDefault,
    orNull_i32, PlaylistRange.new_self, Except.toOption]

theorem decodeSubtitles_encode (s : SubtitleOptions) :
    decodeSubtitles (encodeSubtitles s) = some s := by
  simp [decodeSubtitles, encodeSubtitles, object, asObj, required, asStr, asBool,
    SubtitleOptions.new_self, Except.toOption]

theorem decodeTarget_encode (t : DeliveryTarget) :
    decodeTarget (encodeTarget t) = some t := by
  simp [decodeTarget, encodeTarget, object, asObj, required, withDefault,
    orNull_i32, orNull_i64, DeliveryTarget.new_self, Except.toOption]

variable {o : DownloadPreferenceOverrides}

theorem decodeOverrides_encode (h : overrideHeightOk o = true) :
    decodeOverrides (encodeOverrides o) = some o := by
  have hv : orNull readVideoCodec
      (nullable (o.videoCodec.map fun c => .str (videoCodecName c))) = some o.videoCodec :=
    orNull_nullable (by simp) (by simp)
  have ha : orNull readAudioCodec
      (nullable (o.audioCodec.map fun c => .str (audioCodecName c))) = some o.audioCodec :=
    orNull_nullable (by simp) (by simp)
  have hc : orNull readContainer
      (nullable (o.container.map fun c => .str (containerName c))) = some o.container :=
    orNull_nullable (by simp) (by simp)
  have hh : (o.maxHeight.map fun h => nullable (h.map ofU32)).elim (some none)
      (fun h => (orNull asU32 h).map some) = some o.maxHeight :=
    elim_skipped (by simp [orNull_u32])
  have hl : (o.subtitleLanguage.map Json.str).elim (some none) (orNull asStr) =
      some o.subtitleLanguage :=
    elim_skipped (by simp [orNull, asStr])
  have hs : (o.subtitleAutomatic.map Json.bool).elim (some none) (orNull asBool) =
      some o.subtitleAutomatic :=
    elim_skipped (by simp [orNull, asBool])
  simp [decodeOverrides, encodeOverrides, object, asObj, withDefault, h, hv, ha, hc, hh,
    hl, hs, orNull_bool, knownKeys_skipNone]

theorem decodeSettings_encode {s : DownloaderSettings} (h : s.inRange = true) :
    decodeSettings (encodeSettings s) = some s := by
  simp only [DownloaderSettings.inRange, DownloaderSettings.within, Bool.and_eq_true,
    decide_eq_true_eq, List.all_cons, List.all_nil] at h
  have h32 : ∀ n : Nat, n ≤ 86400 * 100 → n ≤ u32Max := fun n hn => hn.trans (by decide)
  have h64 : ∀ n : Nat, n ≤ 86400 * 100 → n ≤ u64Max := fun n hn => hn.trans (by decide)
  simp only [decodeSettings, asObj, encodeSettings, object, required, Option.pure_def,
    Option.bind_eq_bind, Option.bind_some, knownKeys_field, List.mem_cons,
    String.reduceEq, List.not_mem_nil, or_self, or_false, decide_true, or_true,
    knownKeys_nil, Bool.and_self, guard_true, get?_members_field, ↓reduceIte,
    asNat_int (h32 s.downloadRetries (by omega)),
    asNat_int (h64 s.downloadTimeout (by omega)),
    asNat_int (h64 s.maxFileSizeMb (by omega)),
    asNat_int (h32 s.rateLimitPerMinute (by omega)),
    asNat_int (h32 s.rateLimitPerHour (by omega)),
    asNat_int (h32 s.rateLimitPerDay (by omega)),
    asNat_int (h64 s.maxPlaylistCount (by omega))]

theorem decodeCookie_encode (c : CookieReference) :
    decodeCookie (encodeCookie c) = some c := by
  simp [decodeCookie, encodeCookie, object, asObj, required, asStr, asBool,
    CredentialVersion.new_value, CookieReference.new_self, Except.toOption]

theorem decodeProxySource_encode (s : ProxySource) :
    decodeProxySource (encodeProxySource s) = some s := by
  cases s <;> simp [decodeProxySource, encodeProxySource, object, asObj, required, asStr]

theorem decodeProxy_encode (p : ProxyReference) :
    decodeProxy (encodeProxy p) = some p := by
  simp [decodeProxy, encodeProxy, object, asObj, required, asStr,
    decodeProxySource_encode, CredentialVersion.new_value, ProxyReference.new_self,
    Except.toOption]

theorem decodeNetwork_encode (n : NetworkSelection) :
    decodeNetwork (encodeNetwork n) = some n := by
  have hc : orNull decodeCookie (nullable (n.cookie.map encodeCookie)) = some n.cookie :=
    orNull_nullable (by simp [encodeCookie, object]) (by simp [decodeCookie_encode])
  have hp : orNull decodeProxy (nullable (n.proxy.map encodeProxy)) = some n.proxy :=
    orNull_nullable (by simp [encodeProxy, object]) (by simp [decodeProxy_encode])
  simp [decodeNetwork, encodeNetwork, object, asObj, withDefault, hc, hp]

section

variable [Platform]

/-- Both bounds survive printing and reading. -/
def ClipStable (c : ClipRange) : Prop :=
  Platform.rereadF64 c.startSeconds = some c.startSeconds ∧
    Platform.rereadF64 c.endSeconds = some c.endSeconds

/-- The bounds of all clips of the request do. -/
def ClipsStable (r : DownloadRequest) : Prop :=
  (∀ c ∈ r.clipRange, ClipStable c) ∧ ∀ c ∈ r.params.clips, ClipStable c

variable {q r : DownloadRequest} {clip : Option ClipRange} {c : ClipRange}

theorem decodeClip_encode (h : ClipStable c) : decodeClip (encodeClip c) = some c := by
  simp [decodeClip, encodeClip, object, asObj, required, asF64, h.1, h.2,
    ClipRange.new_self, Except.toOption]

variable {p params : DownloadParams} {clips cs : List ClipRange} {c' : ClipRange}
  {mode : MediaMode} {actorId : UInt64}

/-- Parameters are read back with what their clips are read as. -/
theorem decodeParams_encode
    (hc : readList decodeClip (.arr (p.clips.map encodeClip)) = some clips)
    (hl : clips.length ≤ 20) :
    decodeParams none (encodeParams p) = some { p with clips, clips_ok := hl } := by
  have hp : orNull decodePlaylist (nullable (p.playlist.map encodePlaylist)) =
      some p.playlist :=
    orNull_nullable (by simp [encodePlaylist, object]) (by simp [decodePlaylist_encode])
  have hs : (p.subtitles.map encodeSubtitles).elim (some none) (orNull decodeSubtitles) =
      some p.subtitles :=
    elim_skipped fun s _ => by
      show (decodeSubtitles (encodeSubtitles s)).map some = _
      rw [decodeSubtitles_encode]
      rfl
  have hm : DownloadParams.new p.maxHeight =
      .ok { maxHeight := p.maxHeight, height_ok := p.height_ok } := by
    rw [DownloadParams.new, dif_pos p.height_ok]
  simp only [decodeParams, asObj, encodeParams, object, withDefault, Except.toOption,
    Option.or_none, DownloadParams.withClips, DownloadParams.withPlaylist,
    DownloadParams.withEngine, DownloadParams.withContainer,
    DownloadParams.withAudioCodec, DownloadParams.withVideoCodec,
    DownloadParams.withSubtitles, DownloadParams.withMediaInfo,
    DownloadParams.withGalleryZip, DownloadParams.withSendAsFile, Option.pure_def,
    some_bind_eq, knownKeys_field, List.mem_cons,
    String.reduceEq, List.not_mem_nil, or_self, or_false, decide_true, or_true,
    knownKeys_skipNone, knownKeys_nil, Bool.and_self, guard_true, get?_members_field,
    ↓reduceIte, Option.elim_some, orNull_u32, readVideoCodec_name, readAudioCodec_name,
    readContainer_name, readEngine_name, hp, hc, asBool, get?_members_skipNone,
    get?_members_nil, hs, hl, ↓reduceDIte, hm]

/-! ## Requests -/

/-- What a request must satisfy to be read back as it was written: its clip
bounds survive printing, and its height override is one `decode` accepts. -/
structure Storable (r : DownloadRequest) : Prop where
  clip : ∀ c ∈ r.clipRange, ClipStable c
  clips : ∀ c ∈ r.params.clips, ClipStable c
  overrides : ∀ o ∈ r.preferenceOverrides, overrideHeightOk o = true

/-- A request with other clips. -/
def recut (r : DownloadRequest) (clip : Option ClipRange) (clips : List ClipRange)
    (hl : clips.length ≤ 20)
    (fit : paramsFit r.mediaMode clip { r.params with clips, clips_ok := hl } = true) :
    DownloadRequest :=
  { r with
    clipRange := clip, params := { r.params with clips, clips_ok := hl }, params_ok := fit }

theorem readSettings_encode (r : DownloadRequest) :
    (r.downloaderSettings.map encodeSettings).elim (some none) (orNull decodeSettings) =
      some r.downloaderSettings :=
  elim_skipped fun s hs => by
    show (decodeSettings (encodeSettings s)).map some = _
    rw [decodeSettings_encode (by simpa [Option.mem_def.mp hs] using r.settings_ok)]
    rfl

omit [Platform] in
theorem readTarget_encode (target : Option DeliveryTarget) :
    orNull decodeTarget (nullable (target.map encodeTarget)) = some target :=
  orNull_nullable (by simp [encodeTarget, object]) (by simp [decodeTarget_encode])

omit [Platform] in
theorem readFlag_encode (flag : Bool) :
    (if flag = true then some (Json.bool true) else none).elim (some false) asBool =
      some flag := by
  cases flag <;> rfl

/-- A request is read back with what its clips are read as. -/
theorem decode_encode_recut (hu : StableUrls)
    (ho : ∀ o ∈ r.preferenceOverrides, overrideHeightOk o = true)
    (hclip : orNull decodeClip (nullable (r.clipRange.map encodeClip)) = some clip)
    (hclips : readList decodeClip (.arr (r.params.clips.map encodeClip)) = some clips)
    (hl : clips.length ≤ 20)
    (fit : paramsFit r.mediaMode clip { r.params with clips, clips_ok := hl } = true) :
    decode (encode r) = .ok (recut r clip clips hl fit) := by
  have hover : (r.preferenceOverrides.map encodeOverrides).elim (some none)
      (orNull decodeOverrides) = some r.preferenceOverrides :=
    elim_skipped fun o hmem => by
      show (decodeOverrides (encodeOverrides o)).map some = _
      rw [decodeOverrides_encode (ho o hmem)]
      rfl
  have hb : build r.actorId r.sourceUrl.asStr r.mediaMode clip
      { r.params with clips, clips_ok := hl } r.target r.preferenceOverrides
      r.downloaderSettings r.forceNsfw r.network = .ok (recut r clip clips hl fit) := by
    unfold build
    have hnew := DownloadRequest.new_self hu (recut r clip clips hl fit)
    dsimp only [recut] at hnew
    rw [hnew]
    exact (recut r clip clips hl fit).rebuild
  have hd : decodeRequest (encode r) = some (recut r clip clips hl fit) := by
    simp [decodeRequest, encode, requestFields, object, asObj, requestKeys, required,
      withDefault, knownKeys_skipNone, knownKeys_skipFalse, readSettings_encode r, hclip,
      readTarget_encode, hover, readFlag_encode, hb, asStr, decodeNetwork_encode,
      decodeParams_encode hclips hl, Except.toOption]
  rw [decode, hd]

/-- **Round trip.** A storable request is read back as it was written. -/
theorem decode_encode (hu : StableUrls) (h : Storable r) : decode (encode r) = .ok r :=
  decode_encode_recut hu h.overrides
    (orNull_nullable (by simp [encodeClip, object]) fun c hc => decodeClip_encode (h.clip c hc))
    (readList_map _ fun c hc => decodeClip_encode (h.clips c hc)) r.params.clips_ok r.params_ok

/-! ## What was stored, from what was read back -/

omit [Platform] in
theorem toOption_eq_some {ε α : Type} {x : Except ε α} {a : α} :
    x.toOption = some a ↔ x = .ok a := by
  cases x <;> simp [Except.toOption]

theorem reread_of_decodeClip (h : decodeClip (encodeClip c) = some c') :
    Platform.rereadF64 c.startSeconds = some c'.startSeconds ∧
      Platform.rereadF64 c.endSeconds = some c'.endSeconds := by
  have h : ((Platform.rereadF64 c.startSeconds).bind fun startSeconds =>
      (Platform.rereadF64 c.endSeconds).bind fun endSeconds =>
        (ClipRange.new startSeconds endSeconds).toOption) = some c' := by
    simpa [decodeClip, encodeClip, object, asObj, required, asF64] using h
  simp only [Option.bind_eq_some_iff] at h
  obtain ⟨x, hx, y, hy, hn⟩ := h
  unfold ClipRange.new at hn
  split at hn
  · cases hn
    exact ⟨hx, hy⟩
  · cases hn

theorem decodeClip_of_reread (hs : Platform.rereadF64 c.startSeconds = some c'.startSeconds)
    (hf : Platform.rereadF64 c.endSeconds = some c'.endSeconds) :
    decodeClip (encodeClip c) = some c' := by
  simp [decodeClip, encodeClip, object, asObj, required, asF64, hs, hf, ClipRange.new_self,
    Except.toOption]

/-- Both bounds are read from their text as equal numbers. -/
def ClipKept (c : ClipRange) : Prop :=
  ∃ c' : ClipRange, Platform.rereadF64 c.startSeconds = some c'.startSeconds ∧
    Platform.rereadF64 c.endSeconds = some c'.endSeconds ∧ (c' == c) = true

theorem clipKept_iff : ClipKept c ↔
    ∃ c', decodeClip (encodeClip c) = some c' ∧ c'.values = c.values := by
  constructor
  · rintro ⟨c', hs, hf, heq⟩
    exact ⟨c', decodeClip_of_reread hs hf, (ClipRange.keyed c' c).mp heq⟩
  · rintro ⟨c', hc, heq⟩
    obtain ⟨hs, hf⟩ := reread_of_decodeClip hc
    exact ⟨c', hs, hf, (ClipRange.keyed c' c).mpr heq⟩

theorem clipsKept_iff : (∀ c ∈ cs, ClipKept c) ↔
    ∃ cs', readList decodeClip (.arr (cs.map encodeClip)) = some cs' ∧
      cs'.map ClipRange.values = cs.map ClipRange.values := by
  show _ ↔ ∃ cs', (cs.map encodeClip).mapM decodeClip = some cs' ∧ _
  induction cs with
  | nil => simp
  | cons c cs ih =>
      rw [List.forall_mem_cons, ih, clipKept_iff, List.map_cons, List.map_cons, List.mapM_cons]
      simp only [Option.bind_eq_bind, Option.bind_eq_some_iff, Option.pure_def,
        Option.some.injEq]
      constructor
      · rintro ⟨⟨c', hc, hv⟩, cs', hcs, hvs⟩
        exact ⟨c' :: cs', ⟨c', hc, cs', hcs, rfl⟩, by rw [List.map_cons, hv, hvs]⟩
      · rintro ⟨_, ⟨c', hc, cs', hcs, rfl⟩, hvs⟩
        obtain ⟨hv, hvs⟩ := List.cons.inj hvs
        exact ⟨⟨c', hc, hv⟩, cs', hcs, hvs⟩

theorem clipKept_option_iff : (∀ c ∈ clip, ClipKept c) ↔
    ∃ clip', orNull decodeClip (nullable (clip.map encodeClip)) = some clip' ∧
      clip'.map ClipRange.values = clip.map ClipRange.values := by
  cases clip with
  | none => exact ⟨fun _ => ⟨none, rfl, rfl⟩, fun _ c hc => by cases hc⟩
  | some c =>
      have hread : orNull decodeClip (nullable ((some c).map encodeClip)) =
          (decodeClip (encodeClip c)).map some := rfl
      simp only [hread, Option.mem_some_iff, forall_eq', clipKept_iff, Option.map_eq_some_iff]
      constructor
      · rintro ⟨c', hc, hv⟩
        exact ⟨some c', ⟨c', hc, rfl⟩, congrArg some hv⟩
      · rintro ⟨_, ⟨c', hc, rfl⟩, hv⟩
        exact ⟨c', hc, Option.some.inj hv⟩

/-- A clip that is written the same after reading it back is stable. -/
theorem clipStable_of_decodeClip (h : decodeClip (encodeClip c) = some c')
    (he : encodeClip c' = encodeClip c) : ClipStable c := by
  obtain ⟨hs, hf⟩ := reread_of_decodeClip h
  simp only [encodeClip, object, members, field, List.filterMap_cons, id, Json.obj.injEq,
    List.cons.injEq, Prod.mk.injEq, Json.float.injEq, true_and, List.filterMap_nil,
    and_true] at he
  exact ⟨he.1 ▸ hs, he.2 ▸ hf⟩

theorem clipStable_of_readList {cs' : List ClipRange}
    (h : readList decodeClip (.arr (cs.map encodeClip)) = some cs')
    (he : cs'.map encodeClip = cs.map encodeClip) : ∀ c ∈ cs, ClipStable c := by
  change (cs.map encodeClip).mapM decodeClip = some cs' at h
  induction cs generalizing cs' with
  | nil => exact fun c hc => by cases hc
  | cons c cs ih =>
      rw [List.map_cons, List.mapM_cons] at h
      simp only [Option.bind_eq_bind, Option.bind_eq_some_iff, Option.pure_def,
        Option.some.injEq] at h
      obtain ⟨c', hc', cs', hcs', rfl⟩ := h
      simp only [List.map_cons, List.cons.injEq] at he
      intro d hd
      rcases List.mem_cons.mp hd with rfl | hd
      · exact clipStable_of_decodeClip hc' he.1
      · exact ih he.2 hcs' d hd

theorem clips_of_decodeParams {q : DownloadParams}
    (h : decodeParams none (encodeParams p) = some q) :
    readList decodeClip (.arr (p.clips.map encodeClip)) = some q.clips := by
  simp only [decodeParams, asObj, encodeParams, object, withDefault, Option.or_none,
    DownloadParams.withClips, DownloadParams.withPlaylist, DownloadParams.withEngine,
    DownloadParams.withContainer, DownloadParams.withAudioCodec,
    DownloadParams.withVideoCodec, Option.pure_def, some_bind_eq,
    knownKeys_field, List.mem_cons, String.reduceEq,
    List.not_mem_nil, or_self, or_false, decide_true, or_true, knownKeys_skipNone,
    knownKeys_nil, Bool.and_self, guard_true, get?_members_field, ↓reduceIte,
    Option.elim_some, orNull_u32, readVideoCodec_name, readAudioCodec_name,
    readContainer_name, readEngine_name, asBool, get?_members_skipNone,
    get?_members_nil, Option.elim_map] at h
  simp only [Option.bind_eq_bind, Option.bind_eq_some_iff] at h
  obtain ⟨playlist, -, clips, hclips, subtitles, -, params, -, params', hp, hq⟩ := h
  cases hq
  rw [hclips]
  split at hp
  · cases hp
    rfl
  · cases hp

omit [Platform] in
theorem overrideHeightOk_of_decode {o' : DownloadPreferenceOverrides}
    (h : decodeOverrides (encodeOverrides o) = some o') : overrideHeightOk o = true := by
  have hh : (o.maxHeight.map fun h => nullable (h.map ofU32)).elim (some none)
      (fun h => (orNull asU32 h).map some) = some o.maxHeight :=
    elim_skipped (by simp [orNull_u32])
  simp [decodeOverrides, encodeOverrides, object, asObj, withDefault, hh,
    orNull_bool, knownKeys_skipNone] at h
  simp only [Option.bind_eq_some_iff] at h
  obtain ⟨videoCodec, -, audioCodec, -, container, -, language, -, automatic, -,
    _, hg, -⟩ := h
  unfold guard at hg
  split at hg
  · rename_i hok
    exact hok
  · cases hg

theorem parts_of_new {sourceUrl : String}
    (h : DownloadRequest.new actorId sourceUrl mode clip params = .ok q) :
    q.clipRange = clip ∧ q.params.clips = params.clips ∧ q.target = none ∧
      q.preferenceOverrides = none := by
  unfold DownloadRequest.new at h
  split at h
  swap
  · cases h
  split at h
  · cases h
  split at h
  swap
  · cases h
  split at h
  · cases h
  · rename_i checked hc
    cases h
    refine ⟨rfl, ?_, rfl, rfl⟩
    unfold checkedParams at hc
    split at hc
    swap
    · cases hc
    split at hc
    · cases hc
      show (withDefaultSubtitles mode params).clips = _
      unfold withDefaultSubtitles
      split <;> rfl
    · cases hc

theorem parts_of_build {sourceUrl : String} {target : Option DeliveryTarget}
    {overrides : Option DownloadPreferenceOverrides} {settings : Option DownloaderSettings}
    {forceNsfw : Bool} {network : NetworkSelection}
    (h : build actorId sourceUrl mode clip params target overrides settings forceNsfw
      network = .ok q) :
    q.clipRange = clip ∧ q.params.clips = params.clips ∧ q.target = target ∧
      q.downloaderSettings = settings ∧ q.preferenceOverrides = overrides := by
  have hrest : ∀ {q₀ q₁ : DownloadRequest}, (do
      let q₂ ← q₀.withDownloaderSettings settings
      (q₂.withForceNsfw forceNsfw).withNetwork network) = .ok q →
      q₀ = overrides.elim q₁ q₁.withPreferenceOverrides → q₁.preferenceOverrides = none →
      q.clipRange = q₁.clipRange ∧ q.params = q₁.params ∧ q.target = q₁.target ∧
        q.downloaderSettings = settings ∧ q.preferenceOverrides = overrides := by
    rintro _ q₁ h rfl hnone
    obtain ⟨q₂, h₂, h₃⟩ := Tx.result_bind_eq_ok.mp h
    obtain ⟨_, rfl⟩ := DownloadRequest.withDownloaderSettings_eq_ok h₂
    obtain ⟨_, rfl⟩ := DownloadRequest.withNetwork_eq_ok h₃
    cases overrides with
    | none => exact ⟨rfl, rfl, rfl, rfl, hnone⟩
    | some o => exact ⟨rfl, rfl, rfl, rfl, rfl⟩
  obtain ⟨q₁, h₁, h⟩ := Tx.result_bind_eq_ok.mp h
  obtain ⟨hclip, hclips, htarget, hnone⟩ := parts_of_new h₁
  cases target with
  | none =>
      obtain ⟨ha, hb, hc, hd⟩ := hrest h (by cases overrides <;> rfl) hnone
      exact ⟨ha.trans hclip, hb ▸ hclips, hc.trans htarget, hd⟩
  | some t =>
      obtain ⟨q₂, h₂, h⟩ := Tx.result_bind_eq_ok.mp h
      obtain ⟨_, hq₂⟩ := DownloadRequest.withTarget_eq_ok h₂
      obtain ⟨ha, hb, hc, hd⟩ :=
        @hrest _ q₂ h (by cases overrides <;> rfl) (by rw [hq₂]; exact hnone)
      rw [hq₂] at ha hb hc
      exact ⟨ha.trans hclip, hb ▸ hclips, hc, hd⟩

/-- What a request that was stored and read back has in common with it. -/
theorem parts_of_decode (h : decode (encode r) = .ok q) :
    orNull decodeClip (nullable (r.clipRange.map encodeClip)) = some q.clipRange ∧
      readList decodeClip (.arr (r.params.clips.map encodeClip)) = some q.params.clips ∧
      (∀ o ∈ r.preferenceOverrides, overrideHeightOk o = true) ∧
      q.target = r.target ∧ q.downloaderSettings = r.downloaderSettings ∧
      q.preferenceOverrides = r.preferenceOverrides := by
  have hd : decodeRequest (encode r) = some q := by
    unfold decode at h
    split at h
    · cases h
      assumption
    · cases h
  simp [decodeRequest, encode, requestFields, object, asObj, requestKeys, required,
    withDefault, knownKeys_skipNone, knownKeys_skipFalse, readSettings_encode r, readTarget_encode,
    readFlag_encode, asStr] at hd
  simp only [Option.bind_eq_some_iff] at hd
  obtain ⟨clip, hclip, params, hparams, network, -, overrides, hover, hbuild⟩ := hd
  have hbuild := toOption_eq_some.mp hbuild
  obtain ⟨ha, hb, hc, hd, he⟩ := parts_of_build hbuild
  have hread : ∀ o, r.preferenceOverrides = some o →
      overrideHeightOk o = true ∧ overrides = some o := by
    intro o ho
    rw [ho] at hover
    have hover : (decodeOverrides (encodeOverrides o)).map some = some overrides := hover
    obtain ⟨o', ho', rfl⟩ := Option.map_eq_some_iff.mp hover
    have hheight := overrideHeightOk_of_decode ho'
    rw [decodeOverrides_encode hheight] at ho'
    exact ⟨hheight, ho'.symm⟩
  refine ⟨ha ▸ hclip, hb ▸ clips_of_decodeParams hparams, fun o ho => (hread o ho).1, hc, hd, ?_⟩
  rw [he]
  cases ho : r.preferenceOverrides with
  | none =>
      rw [ho] at hover
      exact (Option.some.inj hover).symm
  | some o => exact (hread o ho).2

/-- A request that is read back, with its clips written as before, is storable. -/
theorem storable_of_decode (h : decode (encode r) = .ok q)
    (hclip : q.clipRange.map encodeClip = r.clipRange.map encodeClip)
    (hclips : q.params.clips.map encodeClip = r.params.clips.map encodeClip) : Storable r := by
  obtain ⟨hc, hcs, ho, -, -, -⟩ := parts_of_decode h
  refine ⟨fun c hr => ?_, clipStable_of_readList hcs hclips, ho⟩
  rw [Option.mem_def.mp hr] at hc hclip
  have hc : (decodeClip (encodeClip c)).map some = some q.clipRange := hc
  obtain ⟨c', hc', hq⟩ := Option.map_eq_some_iff.mp hc
  rw [← hq] at hclip
  exact clipStable_of_decodeClip hc' (Option.some.inj hclip)

end

end YoinkCore.Storage.Codec
