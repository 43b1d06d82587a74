import YoinkCore.Downloads.TelegramSubmission
import YoinkCore.Storage.QualityDrafts
import YoinkCore.Storage.System

/-!
# Choices of a draft

A draft is kept after a check of its format as a video of the best quality. Every choice
made for it later is another request: a video of another height, or the sound alone. None
of them fails in what happens before its admission.
-/

namespace YoinkCore.Downloads

open Lib Domain Storage

/-! ## Formats -/

/-- The heights a video can be asked for. -/
def heightFits (height : Option UInt32) : Bool :=
  !height.any fun h => h == 0 || decide (100000 < h)

variable {p : FormatPreferences} {height : Option UInt32} {choice : QualityChoice}

theorem ne_zero_of_heightFits (h : heightFits height = true) : height ≠ some 0 := by
  rintro rfl
  exact absurd h (by decide)

/-- Every choice asks for such a height. -/
theorem heightFits_of_listed (h : choice.listed = true) : heightFits choice.maxHeight = true :=
  QualityChoice.listed_induction (P := fun c => heightFits c.maxHeight = true) (by decide) h

variable {params : DownloadParams}

/-- **Heights** do not matter to the rest of the format of a video. -/
theorem resolve_video {o : DownloadPreferenceOverrides} {quality : Option String}
    (hh : heightFits height = true) (h : resolveFormatValues .video (some { p with quality })
      { o with maxHeight := some none } = .ok params) :
    ∃ params', resolveFormatValues .video (some p) { o with maxHeight := some height } =
      .ok params' ∧ params'.subtitles = none := by
  have hheight : height.any (fun h => h == 0 || decide (100000 < h)) = false := by
    simpa [heightFits] using hh
  have hnone : (none : Option UInt32).any (fun h => h == 0 || decide (100000 < h)) = false :=
    rfl
  simp only [resolveFormatValues, irrelevant, Option.join_some, hheight, hnone,
    Option.getD_some, overrideOr] at h ⊢
  split at h
  · cases h
  rename_i hsub
  split at h
  · cases h
  rename_i hirr
  rw [if_neg hsub, if_neg hirr]
  simp only [Tx.result_bind_eq_ok] at h ⊢
  obtain ⟨_, -, _, -, codec, hcodec, container, hcontainer, audio, haudio, -⟩ := h
  have hmax : invalidPreferences (DownloadParams.default.withMaxHeight height) =
      .ok { DownloadParams.default with
        maxHeight := height, height_ok := ne_zero_of_heightFits hh } := by
    rw [DownloadParams.withMaxHeight, dif_pos (ne_zero_of_heightFits hh)]
    rfl
  exact ⟨_, ⟨height, rfl, _, hmax, codec, hcodec, container, hcontainer, audio, haudio, rfl⟩,
    rfl⟩

/-- A column other than the language holds one of the choices of its field. -/
theorem SettingField.holds.mem_choices {field : SettingField} {column : Option String}
    (h : field.holds column) (hf : field ≠ .subtitleLanguage) :
    ∃ value ∈ field.choices, column = some value := by
  obtain ⟨change, rfl, hcolumn⟩ := h
  have hvalid := change.valid
  rw [SettingField.accepts, if_neg hf] at hvalid
  exact ⟨change.value, List.contains_iff_mem.mp hvalid, hcolumn⟩

/-- Every audio codec that can be saved is understood. -/
theorem parseAudioCodec_choices :
    ∀ value ∈ SettingField.audioCodec.choices, (parseAudioCodec value).isOk = true := by
  decide

/-- The sound has only its codec left open. -/
theorem resolve_audio (hp : SettingField.audioCodec.holds p.audioCodec)
    (audioCodec : Option AudioCodec) (sendAsFile : Option Bool) :
    ∃ params, resolveFormatValues .audio (some p) { audioCodec, sendAsFile } = .ok params ∧
      params.subtitles = none := by
  have hcodec : ∃ codec, overrideOr audioCodec p.audioCodec parseAudioCodec = .ok codec := by
    cases audioCodec with
    | some codec => exact ⟨codec, rfl⟩
    | none =>
        obtain ⟨value, hmem, hcolumn⟩ := hp.mem_choices (by decide)
        have hok := parseAudioCodec_choices value hmem
        rw [hcolumn]
        show ∃ codec, parseAudioCodec value = .ok codec
        cases hparse : parseAudioCodec value with
        | ok codec => exact ⟨codec, rfl⟩
        | error e =>
            rw [hparse] at hok
            cases hok
  obtain ⟨codec, hcodec⟩ := hcodec
  refine ⟨(DownloadParams.default.withAudioCodec codec).withSendAsFile
    (sendAsFile.getD p.sendAsFile), ?_, rfl⟩
  simp only [resolveFormatValues, irrelevant, Option.getD_some, hcodec]
  rfl

section

variable [Platform]

/-! ## The submission of a choice -/

/-- A draft as a raw request, in some mode and with some of its parameters. -/
def rawDraft (draft : DownloadRequest) (mode : MediaMode) (params : DownloadParams)
    (h : paramsFit mode draft.clipRange params = true) : DownloadRequest :=
  { draft with
    mediaMode := mode, params, params_ok := h, preferenceOverrides := none
    downloaderSettings := none, forceNsfw := false
    settings_ok := DownloadRequest.noSettings_ok }

variable {telegram : Option TelegramMediaAdmission} {q : DownloadRequest}
  {target : DeliveryTarget} {around : Surroundings} {messageId : Int32}

/-- The network of a draft is put back. -/
theorem withNetwork_draft (draft : DownloadRequest) (hq : q.actorId = draft.actorId) :
    invalidInput (q.withNetwork draft.network) =
      .ok { q with network := draft.network, network_ok := hq ▸ draft.network_ok } := by
  rw [DownloadRequest.withNetwork_of_valid (hq ▸ draft.network_ok)]
  rfl

/-- The target of a draft is put back. -/
theorem withTarget_draft {draft : DownloadRequest} (ht : draft.target = some target)
    (hq : q.actorId = draft.actorId) :
    ∃ h, invalidInput (q.withTarget target) =
      .ok { q with target := some target, target_ok := h } := by
  have hreach : target.reachable draft.actorId = true := by simpa [ht] using draft.target_ok
  rw [DownloadRequest.withTarget_of_reachable (hq ▸ hreach)]
  exact ⟨_, rfl⟩

theorem withoutOverrides_eq (hu : StableUrls) (draft : DownloadRequest) :
    withoutOverrides draft =
      .ok (rawDraft draft draft.mediaMode draft.params draft.params_ok) := by
  unfold withoutOverrides
  rw [DownloadRequest.new_self hu]
  cases ht : draft.target with
  | none =>
      show invalidInput (draft.bare.withNetwork draft.network) = _
      refine Eq.trans (withNetwork_draft draft (by rfl)) ?_
      simp [rawDraft, DownloadRequest.bare, ht]
  | some target =>
      obtain ⟨_, hwith⟩ := withTarget_draft ht (show draft.bare.actorId = draft.actorId from rfl)
      show (invalidInput (draft.bare.withTarget target) >>= fun q =>
        invalidInput (q.withNetwork draft.network)) = _
      refine Tx.result_bind_eq_ok.mpr ⟨_, hwith, Eq.trans (withNetwork_draft draft (by rfl)) ?_⟩
      simp [rawDraft, DownloadRequest.bare, ht]

omit [Platform] in
/-- The default parameters with the structural selections of others. -/
theorem structural_eq (p : DownloadParams) :
    structural p = .ok { DownloadParams.default with
      engine := p.engine, playlist := p.playlist, clips := p.clips, clips_ok := p.clips_ok } := by
  rw [structural, DownloadParams.withClips, dif_pos p.clips_ok]
  rfl

/-- The structural selections of a draft suit its sound. -/
theorem paramsFit_audio {draft : DownloadRequest} (h : structural draft.params = .ok params) :
    paramsFit .audio draft.clipRange params = true := by
  have hfit := (validateMode_of_fit draft.params_ok).1
  rw [structural_eq] at h
  cases h
  simp only [paramsFit, hfit]
  rfl

theorem audioRequest_eq (hu : StableUrls) {draft : DownloadRequest}
    (ht : draft.target.isSome = true) (h : structural draft.params = .ok params) :
    audioRequest draft = .ok (rawDraft draft .audio params (paramsFit_audio h)) := by
  obtain ⟨target, ht⟩ := Option.isSome_iff_exists.mp ht
  unfold audioRequest
  rw [h]
  show (invalidInput (DownloadRequest.new draft.actorId draft.sourceUrl.asStr .audio
    draft.clipRange params) >>= _) = _
  rw [DownloadRequest.new_of_fit hu draft (paramsFit_audio h), ht]
  obtain ⟨_, hwith⟩ := withTarget_draft ht
    (show ({ draft.bare with
      mediaMode := .audio, params, params_ok := paramsFit_audio h } : DownloadRequest).actorId =
        draft.actorId from rfl)
  show (invalidInput (DownloadRequest.withTarget _ target) >>= fun q =>
    invalidInput (q.withNetwork draft.network)) = _
  refine Tx.result_bind_eq_ok.mpr ⟨_, hwith, Eq.trans (withNetwork_draft draft (by rfl)) ?_⟩
  simp [rawDraft, DownloadRequest.bare, ht]

/-! ## Defaults -/

/-- The format options are the defaults. -/
structure DefaultFormat (p : DownloadParams) : Prop where
  maxHeight : p.maxHeight = none
  videoCodec : p.videoCodec = .h264
  audioCodec : p.audioCodec = .best
  container : p.container = .mp4
  sendAsFile : p.sendAsFile = false
  galleryZip : p.galleryZip = false
  subtitles : p.subtitles = none

theorem DefaultFormat.of_draft {draft : DownloadRequest} (h : isQualityDraft draft = true) :
    DefaultFormat draft.params := by
  simp only [isQualityDraft, structural_eq, Bool.and_eq_true] at h
  have hvalues := (DownloadParams.keyed _ _).mp h.1
  simp only [DownloadParams.values, Prod.mk.injEq] at hvalues
  obtain ⟨h1, h2, h3, h4, -, -, -, h8, h9, h10, -⟩ := hvalues
  exact ⟨h1.symm, h2.symm, h3.symm, h4.symm, h8.symm, h9.symm, h10.symm⟩

omit [Platform] in
theorem DefaultFormat.of_structural {p : DownloadParams} (h : structural p = .ok params) :
    DefaultFormat params := by
  rw [structural_eq] at h
  cases h
  exact ⟨rfl, rfl, rfl, rfl, rfl, rfl, rfl⟩

theorem DefaultFormat.request {r : DownloadRequest} (h : DefaultFormat r.params)
    (hmode : r.mediaMode = .video ∨ r.mediaMode = .audio) : requestFormatDefaults r = true := by
  dsimp only [requestFormatDefaults]
  rcases hmode with hm | hm <;>
    rw [hm, h.maxHeight, h.videoCodec, h.audioCodec, h.container, h.sendAsFile, h.galleryZip,
      h.subtitles] <;> rfl

/-! ## Before the admission -/

/-- Nothing that comes before its admission refuses a submission: with these saved
preferences its format is resolved and fits the request, and what the network and the
reports come to does not matter. -/
structure Admissible (botId : Int64) (saved : FormatPreferences) (request : DownloadRequest)
    (overrides : DownloadPreferenceOverrides) : Prop where
  checked : checkSubmission botId request overrides = .ok ()
  format : ∃ params, resolveFormatValues request.mediaMode (some saved) overrides = .ok params
  params : ∀ around : Surroundings, around.preferences = .ok (some saved) →
    ∃ params intent, preferredParams around request overrides = .ok params ∧
      (request.withPreferenceOverrides overrides).withParams params = .ok intent
  prepared : ∀ around : Surroundings, around.preferences = .ok (some saved) →
    ∀ selection info, around.selection = .ok selection →
      selection.validateActor request.actorId = .ok () → around.mediaInfo = .ok info →
      ∃ q, prepare around request overrides = .ok q

omit [Platform] in
/-- Whether media is reported about does not matter to a mode. -/
theorem paramsFit_withMediaInfo {mode : MediaMode} {clip : Option ClipRange}
    {p : DownloadParams} (info : Bool) (h : paramsFit mode clip p = true) :
    paramsFit mode clip (p.withMediaInfo info) = true := by
  have hsame : paramsFit mode clip (p.withMediaInfo info) = paramsFit mode clip p := by
    cases mode <;> rfl
  rw [hsame, h]

/-- A request that was made is prepared, whatever its network and reports. -/
theorem admitNetworkContext_ok {request : DownloadRequest} {selection : NetworkSelection}
    {info : Option Bool} (hs : around.selection = .ok selection)
    (ha : selection.validateActor request.actorId = .ok ()) (hi : around.mediaInfo = .ok info) :
    ∃ q, admitNetworkContext around request = .ok q := by
  have hhost : checkHost request = .ok () := by
    have hsource := request.source_ok
    simp only [validSource, Bool.and_eq_true] at hsource
    rw [checkHost, if_pos hsource.1.1.2]
  have hinfo : ∃ reported, mediaInfo around request = .ok reported := by
    unfold mediaInfo
    split
    · rw [hi]
      exact ⟨_, rfl⟩
    · exact ⟨_, rfl⟩
  obtain ⟨reported, hinfo⟩ := hinfo
  have hparams := DownloadRequest.withParams_of_fit
    (paramsFit_withMediaInfo reported request.params_ok)
  have hselection : around.selection.mapError mapProfile = .ok selection := by
    rw [hs]
    rfl
  obtain ⟨prepared, hprepared, hactor⟩ : ∃ prepared : DownloadRequest,
      invalidInput (request.withParams (request.params.withMediaInfo reported)) = .ok prepared ∧
        prepared.freezeProviderRouting.actorId = request.actorId := by
    rw [hparams]
    refine ⟨_, rfl, ?_⟩
    unfold DownloadRequest.freezeProviderRouting
    split <;> rfl
  have hvalid : selection.validateActor prepared.freezeProviderRouting.actorId = .ok () :=
    hactor.symm ▸ ha
  obtain ⟨q, hnetwork⟩ : ∃ q,
      invalidInput (prepared.freezeProviderRouting.withNetwork selection) = .ok q := by
    rw [DownloadRequest.withNetwork_of_valid hvalid]
    exact ⟨_, rfl⟩
  simp only [admitNetworkContext, Tx.result_bind_eq_ok]
  exact ⟨q, (), hhost, selection, hselection, reported, hinfo, prepared, hprepared, hnetwork⟩

variable {overrides : DownloadPreferenceOverrides} {botId : Int64}

/-- The resolved format of a video or a sound fits the request it was resolved for. -/
theorem admissible {saved : FormatPreferences} {request : DownloadRequest}
    {resolved : DownloadParams} (hc : checkSubmission botId request overrides = .ok ())
    (hmode : request.mediaMode = .video ∨ request.mediaMode = .audio)
    (hr : resolveFormatValues request.mediaMode (some saved) overrides = .ok resolved)
    (hsub : resolved.subtitles = none) : Admissible botId saved request overrides := by
  have hlisting : request.mediaMode.listing = false := by
    rcases hmode with hm | hm <;> rw [hm] <;> rfl
  obtain ⟨hclip, -⟩ := validateMode_of_fit request.params_ok
  have hparams : ∀ around : Surroundings, around.preferences = .ok (some saved) →
      ∃ params intent, preferredParams around request overrides = .ok params ∧
        (request.withPreferenceOverrides overrides).withParams params = .ok intent ∧
        intent.actorId = request.actorId := by
    intro around hp
    obtain ⟨params, hparams, hclips, hsubtitles⟩ : ∃ params,
        preferredParams around request overrides = .ok params ∧
          params.clips = request.params.clips ∧ params.subtitles = none := by
      unfold preferredParams
      rw [hlisting, hp]
      simp only [Bool.false_eq_true, if_false, Tx.result_bind_eq_ok]
      have hmax : (request.params.withMaxHeight resolved.maxHeight).mapError
          (fun _ => DownloadError.invalidPreferences) = .ok { request.params with
            maxHeight := resolved.maxHeight, height_ok := resolved.height_ok } := by
        rw [DownloadParams.withMaxHeight, dif_pos resolved.height_ok]
        rfl
      refine ⟨_, ⟨some saved, rfl, resolved, by rw [hr]; rfl, _, hmax, rfl⟩, rfl, hsub⟩
    have hfit : paramsFit request.mediaMode request.clipRange params = true := by
      simp only [paramsFit, hclips, hclip, DownloadParams.validateMode]
      rcases hmode with hm | hm <;> rw [hm, hsubtitles] <;> rfl
    refine ⟨params, _, hparams, DownloadRequest.withParams_of_fit
      (r := request.withPreferenceOverrides overrides) hfit, rfl⟩
  exact {
    checked := hc
    format := ⟨resolved, hr⟩
    params := fun around hp => by
      obtain ⟨params, intent, h1, h2, -⟩ := hparams around hp
      exact ⟨params, intent, h1, h2⟩
    prepared := fun around hp selection info hs ha hi => by
      obtain ⟨params, intent, h1, h2, hactor⟩ := hparams around hp
      obtain ⟨q, hq⟩ : ∃ q, admitNetworkContext around intent = .ok q :=
        admitNetworkContext_ok hs (hactor.symm ▸ ha) hi
      refine ⟨q, Tx.result_bind_eq_ok.mpr ⟨params, h1, Tx.result_bind_eq_ok.mpr
        ⟨intent, ?_, hq⟩⟩⟩
      rw [h2]
      rfl }

/-! ## The choices of a draft -/

/-- Finding something for a message begins no draft. -/
theorem foundSubmission_ne {reads : TelegramReads} {isPrivate : Bool}
    {intent draft : DownloadRequest} :
    foundSubmission reads isPrivate intent messageId telegram ≠
      .ok (some (.beginQuality draft)) := by
  intro h
  simp only [foundSubmission] at h
  split at h
  · obtain ⟨current, -, h⟩ := Tx.result_bind_eq_ok.mp h
    cases current with
    | none =>
        dsimp only at h
        split at h
        · obtain ⟨admission, -, h⟩ := Tx.result_bind_eq_ok.mp h
          cases admission <;> cases h
        · cases h
    | some current => cases h
  · split at h
    · obtain ⟨admission, -, h⟩ := Tx.result_bind_eq_ok.mp h
      cases admission <;> cases h
    · cases h

/-- A message that is accepted is for the bot. -/
theorem validateTelegramRequest_target {request : DownloadRequest}
    (h : validateTelegramRequest botId request messageId overrides = .ok target) :
    request.target = some target ∧ target.botId = botId := by
  simp only [validateTelegramRequest] at h
  split at h
  · cases h
  obtain ⟨t, ht, h⟩ := Tx.result_bind_eq_ok.mp h
  obtain ⟨_, -, h⟩ := Tx.result_bind_eq_ok.mp h
  obtain rfl : t = target := by
    split at h
    · obtain ⟨_, -, h⟩ := Tx.result_bind_eq_ok.mp h
      cases h
      rfl
    · cases h
      rfl
  unfold telegramTarget at ht
  split at ht
  · cases ht
  rename_i found heq
  split at ht
  · cases ht
  rename_i hcond
  cases ht
  simp only [Bool.or_eq_true, decide_eq_true_eq, not_or, not_not] at hcond
  exact ⟨heq, hcond.2⟩

/-- The quality is left to a choice only if the rest of the format was resolved. -/
theorem asksQuality_true {request : DownloadRequest} {saved : FormatPreferences}
    (hp : around.preferences = .ok (some saved))
    (h : asksQuality around request overrides = .ok true) :
    ∃ params, resolveFormatValues request.mediaMode (some { saved with quality := some "best" })
      { overrides with maxHeight := some none } = .ok params := by
  unfold asksQuality at h
  rw [hp] at h
  obtain ⟨p, hpref, h⟩ := Tx.result_bind_eq_ok.mp h
  obtain rfl : some saved = p := by simpa [Except.mapError] using hpref
  dsimp only at h
  split at h
  · obtain ⟨params, hparams, -⟩ := Tx.result_bind_eq_ok.mp h
    exact ⟨params, Tx.mapError_eq_ok.mp hparams⟩
  · cases h

/-- What was checked of a message for which a draft is kept. -/
theorem draft_checked {reads : TelegramReads} {request draft : DownloadRequest}
    {saved : FormatPreferences} (hp : reads.around.preferences = .ok (some saved))
    (h : submitTelegramContext botId reads request messageId overrides telegram =
      .ok (.beginQuality draft)) :
    draft = request.withPreferenceOverrides overrides ∧ overrides.maxHeight = none ∧
      (∃ target, request.target = some target ∧ target.botId = botId) ∧
      ∃ params, resolveFormatValues .video (some { saved with quality := some "best" })
        { overrides with maxHeight := some none } = .ok params := by
  simp only [submitTelegramContext, Tx.result_bind_eq_ok] at h
  obtain ⟨target, hvalid, _, -, h⟩ := h
  split at h
  · split at h <;> cases h
  obtain ⟨found, hfound, h⟩ := Tx.result_bind_eq_ok.mp h
  cases found with
  | some action =>
      cases h
      exact absurd hfound foundSubmission_ne
  | none =>
      simp only [newSubmission] at h
      split at h
      · rename_i hmay
        simp only [mayAsk, Bool.and_eq_true, beq_iff_eq, Option.isNone_iff_eq_none] at hmay
        obtain ⟨asks, hasks, h⟩ := Tx.result_bind_eq_ok.mp h
        cases asks with
        | false => cases h
        | true =>
            cases h
            exact ⟨rfl, hmay.2, ⟨target, validateTelegramRequest_target hvalid⟩,
              hmay.1.2 ▸ asksQuality_true hp hasks⟩
      · cases h

/-- **A choice is a submission.** The draft of a dialog was checked as a video of the best
quality, so whatever is chosen for it can be submitted. -/
theorem selected_admissible (hu : StableUrls) {chatId : Int64} {actor : Nat} {message : Int32}
    {draft : DownloadRequest} {saved : FormatPreferences}
    (hfits : draftFits actor botId chatId message draft = true)
    (hover : draft.preferenceOverrides = some overrides) (hheight : overrides.maxHeight = none)
    (haudio : SettingField.audioCodec.holds saved.audioCodec)
    (hbest : resolveFormatValues .video (some { saved with quality := some "best" })
      { overrides with maxHeight := some none } = .ok params) (hlisted : choice.listed = true) :
    ∃ original so, selectedRequest draft choice = .ok (original, so) ∧
      Admissible botId saved original so := by
  obtain ⟨-, hlen, hmode, hdraft, hnet, htarget⟩ := draftFits_eq_true.mp hfits
  obtain ⟨target, ht, ha⟩ := (Option.any_eq_true _ _).mp htarget
  have hbot : target.botId = botId := (answers_eq_true.mp ha).1
  have hsaved : savedOverrides draft = overrides := by rw [savedOverrides, hover]; rfl
  -- what is checked of the raw request does not depend on its overrides
  have hcheck : ∀ (original : DownloadRequest) (so : DownloadPreferenceOverrides),
      original.mediaMode = .video ∨ original.mediaMode = .audio →
      DefaultFormat original.params → original.preferenceOverrides = none →
      original.sourceUrl = draft.sourceUrl → original.target = some target →
      original.network = .none → checkSubmission botId original so = .ok () := by
    intro original so hm hformat ho hurl htar hn
    have hlisting : original.mediaMode.listing = false := by
      rcases hm with hm | hm <;> rw [hm] <;> rfl
    rw [checkSubmission, hformat.request hm, hlisting, ho, hurl, htar, hn]
    simp [hbot, hlen]
  obtain ⟨structuralParams, hstructural⟩ : ∃ p, structural draft.params = .ok p :=
    ⟨_, structural_eq _⟩
  have hdefaults : DefaultFormat draft.params := .of_draft hdraft
  by_cases hc : choice = .audio
  · obtain ⟨resolved, hresolved, hsub⟩ :=
      resolve_audio haudio overrides.audioCodec overrides.sendAsFile
    refine ⟨rawDraft draft .audio structuralParams (paramsFit_audio hstructural),
      { audioCodec := overrides.audioCodec, sendAsFile := overrides.sendAsFile }, ?_,
      admissible (hcheck _ _ (.inr rfl) (.of_structural hstructural) rfl rfl ht hnet) (.inr rfl)
        hresolved hsub⟩
    unfold selectedRequest
    rw [if_pos hc, audioRequest_eq hu (by rw [ht]; rfl) hstructural, hsaved]
    rfl
  · obtain ⟨resolved, hresolved, hsub⟩ :=
      resolve_video (heightFits_of_listed hlisted) hbest
    refine ⟨rawDraft draft draft.mediaMode draft.params draft.params_ok,
      { overrides with maxHeight := some choice.maxHeight }, ?_,
      admissible (hcheck _ _ (.inl hmode) hdefaults rfl rfl ht hnet) (.inl hmode)
        (by rw [← hresolved]; exact congrArg (resolveFormatValues · _ _) hmode) hsub⟩
    unfold selectedRequest
    rw [if_neg hc, withoutOverrides_eq hu, hsaved, hheight]
    rfl

/-- **Every choice can be admitted.** A message for which a draft is stored, with saved
preferences that an actor can have made, begins a dialog. Whatever happens then, each
choice that is claimed in it selects a submission whose format is resolved and fits, and
which nothing refuses before its admission while the preferences are the same. -/
theorem quality_choices_admissible (hu : StableUrls) {botId : Int64} {reads : TelegramReads}
    {request draft : DownloadRequest} {messageId : Int32}
    {overrides : DownloadPreferenceOverrides} {telegram : Option TelegramMediaAdmission}
    {saved : FormatPreferences} {target : DeliveryTarget} {context : DialogContext}
    {fresh : Uuid} {reply : Except StoreError DialogReply} {s u v t : DialogState}
    {es es' : List DialogEvent} (hprefs : reads.around.preferences = .ok (some saved))
    (hsaved : saved.Editable)
    (hsubmit : submitTelegramContext botId reads request messageId overrides telegram =
      .ok (.beginQuality draft))
    (htarget : request.target = some target) (hbefore : DialogReaches s es u)
    (hbegin : DialogStep u (.call (.qualityBegin request.actorId target messageId draft
      (telegram.map (·.original))) context fresh reply) v)
    (hafter : Run DialogStep v es' t) :
    ∀ context' actor' target' revision choice claimed db',
      qualityClaim context' actor' target' fresh revision choice t.db = (.ok claimed, db') →
        ∃ original so, selectedRequest claimed.request choice = .ok (original, so) ∧
          Admissible botId saved original so := by
  intro context' actor' target' revision choice claimed db' hclaim
  obtain ⟨hdraft, hheight, ⟨target₀, ht₀, hbot⟩, params, hbest⟩ := draft_checked hprefs hsubmit
  obtain rfl : target₀ = target := Option.some.inj (ht₀.symm.trans htarget)
  obtain ⟨hlisted, -, current, claim, hget, hchange, hreply, -⟩ :=
    qualityCallback_eq_ok.mp hclaim
  obtain ⟨c, hparse, -⟩ := Tx.result_map_eq_ok.mp hlisted
  obtain ⟨-, hcurrent, hid, -⟩ := qualityGet_eq_ok.mp hget
  -- the claim leaves the draft of the session it found
  have hrequest : claimed.request = current.request := by
    rw [hreply]
    cases claim with
    | none => rfl
    | some s' =>
        exact (QualityChange.keeps (.claim (QualityChoice.parse_asStr_iff.mp ⟨c, hparse⟩)
          hchange)).2.2.1
  obtain ⟨row, hrow, -, hdecode⟩ := currentQualitySession_eq_some hcurrent
  obtain ⟨hrowid, -, -, hread, hfits⟩ := decodeQuality_eq_ok hdecode
  obtain ⟨hscope, r, hwritten, hover⟩ :=
    (draft_held hbefore hbegin hafter).rows row hrow (hrowid.symm.trans hid)
  have hover' : current.request.preferenceOverrides = some overrides := by
    rw [hwritten] at hread
    rw [(Codec.parts_of_decode hread).2.2.2.2.2, hover, hdraft]
    rfl
  have hrowbot : row.scope.botId = botId := by rw [hscope]; exact hbot
  rw [hrowbot] at hfits
  rw [hrequest]
  exact selected_admissible hu hfits hover' hheight hsaved.audioCodec hbest
    (QualityChoice.parse_asStr_iff.mp ⟨c, hparse⟩)

end

section

attribute [local instance] Scenario.platform

namespace AskScenario

open Scenario

/-- The chat of actor 7, answering message 5. -/
def chat : DeliveryTarget := ⟨1, 7, none, some 5, by decide⟩

def request : DownloadRequest :=
  { Scenario.request with target := some chat, target_ok := by decide }

def saved : FormatPreferences := { FormatPreferences.defaults with quality := some "ask" }

theorem saved_editable : saved.Editable :=
  ⟨⟨⟨.quality, "ask", by decide⟩, rfl, rfl⟩, ⟨⟨.codec, "avc1", by decide⟩, rfl, rfl⟩,
    ⟨⟨.container, "mp4", by decide⟩, rfl, rfl⟩, ⟨⟨.audioCodec, "best", by decide⟩, rfl, rfl⟩,
    ⟨⟨.subtitleLanguage, "en", by decide⟩, rfl, rfl⟩⟩

/-- Nothing was submitted before. -/
def reads : TelegramReads :=
  ⟨⟨.ok (), .ok (some saved), .ok .none, .ok none⟩, .ok none, .ok none⟩

def draft : DownloadRequest := request.withPreferenceOverrides {}

/-- The dialog begins with identifier 1. -/
def begun : DialogLine := ⟨.qualityBegin 7 chat 5 draft none, uuid 1⟩

def asked : DialogState := (playDialogs (.initial Db.empty) [begun]).2

end AskScenario

open AskScenario Scenario

/-- The sound of a draft is claimed and selected. -/
theorem quality_choices_admissible_scenario :
    ∃ claimed db', qualityClaim .anyone 7 chat (uuid 1) 1 .audio asked.db =
        (.ok claimed, db') ∧
      ∃ original so, selectedRequest claimed.request .audio = .ok (original, so) ∧
        Admissible 1 saved original so := by
  have hok : (qualityClaim .anyone 7 chat (uuid 1) 1 .audio asked.db).1.isOk = true := by
    decide +kernel
  rcases hcall : qualityClaim .anyone 7 chat (uuid 1) 1 .audio asked.db with ⟨reply, db'⟩
  rw [hcall] at hok
  cases reply with
  | error e => cases hok
  | ok claimed =>
      have hsubmit : submitTelegramContext 1 reads AskScenario.request 5 {} none =
          .ok (.beginQuality draft) := by rfl
      exact ⟨claimed, db', rfl, quality_choices_admissible stableUrls rfl saved_editable hsubmit
        rfl ⟨DialogState.initial_fresh _, .nil⟩ (playDialogs_step begun (by decide)) .nil
        _ _ _ _ _ _ _ hcall⟩

end

end YoinkCore.Downloads
