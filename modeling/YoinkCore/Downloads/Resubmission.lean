import YoinkCore.Downloads.Submission
import YoinkCore.Storage.Idempotence

/-!
# Resubmission

Whoever repeats a submission under its key gets the first operation back, since the
prepared request has the intent of the raw one. The exception are the listing modes:
there the comparison resets the request to a form that the mode refuses.
-/

namespace YoinkCore.Downloads

open Lib Domain Storage

section

variable [Platform]

/-! ## What preparation keeps -/

/-- The parts of a request that preparation does not resolve. -/
structure SameBase (r q : DownloadRequest) : Prop where
  actorId : q.actorId = r.actorId
  sourceUrl : q.sourceUrl = r.sourceUrl
  mediaMode : q.mediaMode = r.mediaMode
  clipRange : q.clipRange = r.clipRange
  target : q.target = r.target
  engine : unfrozen q.params.engine = unfrozen r.params.engine
  playlist : q.params.playlist = r.params.playlist
  clips : q.params.clips = r.params.clips

namespace SameBase

variable {q r : DownloadRequest}

theorem trans {p : DownloadRequest} (h : SameBase r q) (h' : SameBase q p) :
    SameBase r p where
  actorId := h'.actorId.trans h.actorId
  sourceUrl := h'.sourceUrl.trans h.sourceUrl
  mediaMode := h'.mediaMode.trans h.mediaMode
  clipRange := h'.clipRange.trans h.clipRange
  target := h'.target.trans h.target
  engine := h'.engine.trans h.engine
  playlist := h'.playlist.trans h.playlist
  clips := h'.clips.trans h.clips

/-- New parameters with the engine, the playlist and the clips of the old ones. -/
theorem withParams {params : DownloadParams} (h : r.withParams params = .ok q)
    (he : params.engine = r.params.engine) (hp : params.playlist = r.params.playlist)
    (hc : params.clips = r.params.clips) :
    SameBase r q ∧ q.preferenceOverrides = r.preferenceOverrides := by
  obtain ⟨_, rfl⟩ := DownloadRequest.withParams_eq_ok h
  have hw : (withDefaultSubtitles r.mediaMode params).engine = r.params.engine ∧
      (withDefaultSubtitles r.mediaMode params).playlist = r.params.playlist ∧
      (withDefaultSubtitles r.mediaMode params).clips = r.params.clips := by
    unfold withDefaultSubtitles
    split <;> exact ⟨he, hp, hc⟩
  exact ⟨⟨rfl, rfl, rfl, rfl, rfl, congrArg unfrozen hw.1, hw.2.1, hw.2.2⟩, rfl⟩

theorem freezeProviderRouting (r : DownloadRequest) :
    SameBase r r.freezeProviderRouting ∧
      r.freezeProviderRouting.preferenceOverrides = r.preferenceOverrides := by
  have hauto : ∀ url mode, unfrozen (automaticProviderV1 url mode) = .auto := by
    intro url mode
    cases mode <;> simp only [automaticProviderV1] <;> repeat' (split <;> try rfl)
    all_goals rfl
  unfold DownloadRequest.freezeProviderRouting
  split
  · rename_i he
    refine ⟨⟨rfl, rfl, rfl, rfl, rfl, ?_, rfl, rfl⟩, rfl⟩
    rw [he]
    exact hauto _ _
  · exact ⟨⟨rfl, rfl, rfl, rfl, rfl, rfl, rfl, rfl⟩, rfl⟩

end SameBase

variable {o : DownloadPreferenceOverrides} {q r : DownloadRequest} {around : Surroundings}
  {db : Db}

theorem preferredParams_of_ok {params : DownloadParams}
    (h : preferredParams around r o = .ok params) :
    params.engine = r.params.engine ∧ params.playlist = r.params.playlist ∧
      params.clips = r.params.clips := by
  unfold preferredParams at h
  split at h
  · cases h
    exact ⟨rfl, rfl, rfl⟩
  · simp only [Tx.result_bind_eq_ok, Tx.mapError_eq_ok] at h
    obtain ⟨preferences, -, resolved, -, p, hp, h⟩ := h
    unfold DownloadParams.withMaxHeight at hp
    split at hp <;> cases hp
    cases h
    exact ⟨rfl, rfl, rfl⟩

/-- Preparation keeps the base of the request and the overrides. -/
theorem prepare_of_ok (h : prepare around r o = .ok q) :
    SameBase r q ∧ q.preferenceOverrides = some o := by
  simp only [prepare, admitNetworkContext, invalidInput, Tx.result_bind_eq_ok,
    Tx.mapError_eq_ok] at h
  obtain ⟨params, hparams, intent, hintent, _, -, selection, -, mediaInfo, -, prepared,
    hprepared, hnetwork⟩ := h
  obtain ⟨he, hp, hc⟩ := preferredParams_of_ok hparams
  obtain ⟨hi, hio⟩ := SameBase.withParams hintent he hp hc
  obtain ⟨hm, hmo⟩ := SameBase.withParams hprepared rfl rfl rfl
  obtain ⟨hf, hfo⟩ := SameBase.freezeProviderRouting prepared
  obtain ⟨_, rfl⟩ := DownloadRequest.withNetwork_eq_ok hnetwork
  have hbase : SameBase r intent := ⟨hi.actorId, hi.sourceUrl, hi.mediaMode, hi.clipRange,
    hi.target, hi.engine, hi.playlist, hi.clips⟩
  have hfrozen := (hbase.trans hm).trans hf
  exact ⟨⟨hfrozen.actorId, hfrozen.sourceUrl, hfrozen.mediaMode, hfrozen.clipRange,
    hfrozen.target, hfrozen.engine, hfrozen.playlist, hfrozen.clips⟩,
    hfo.trans (hmo.trans hio)⟩

/-! ## The forms a submission takes -/

/-- What a submission can leave in the store: what preparation made of it, with the
settings and the mark that admission adds. -/
def PreparedForm (r : DownloadRequest) (o : DownloadPreferenceOverrides)
    (p : DownloadRequest) : Prop :=
  ∃ around q settings q' forced, prepare around r o = .ok q ∧
    q.withDownloaderSettings settings = .ok q' ∧ p = q'.withForceNsfw forced

variable {p : DownloadRequest} {clip : Option ClipRange} {policy : AdmissionPolicy}
  {clips : List ClipRange} {row : OperationRow} {config : StoreConfig} {mode : MediaMode}
  {botId : Int64} {clock : Clock} {id : Uuid} {db' : Db}

theorem PreparedForm.base (h : PreparedForm r o p) :
    SameBase r p ∧ p.preferenceOverrides = some o := by
  obtain ⟨around, q, settings, q', forced, hq, hs, rfl⟩ := h
  obtain ⟨_, rfl⟩ := DownloadRequest.withDownloaderSettings_eq_ok hs
  obtain ⟨hb, ho⟩ := prepare_of_ok hq
  exact ⟨⟨hb.actorId, hb.sourceUrl, hb.mediaMode, hb.clipRange, hb.target, hb.engine,
    hb.playlist, hb.clips⟩, ho⟩

omit [Platform] in
theorem unformatted_congr {p p' : DownloadParams} (he : p.engine = p'.engine)
    (hp : p.playlist = p'.playlist) (hc : p.clips = p'.clips)
    (hm : p.mediaInfo = p'.mediaInfo) : unformatted p = unformatted p' := by
  cases p
  cases p'
  cases he
  cases hp
  cases hc
  cases hm
  rfl

/-- Requests with one base and the same overrides have one normal form. -/
theorem intentValues_congr (h : SameBase r q) (hr : r.preferenceOverrides = some o)
    (hq : q.preferenceOverrides = some o) (hm : r.mediaMode.listing = false) :
    intentValues q = intentValues r := by
  have hm' : q.mediaMode.listing = false := h.mediaMode ▸ hm
  rw [intentValues_formatted (by rw [hq]; rfl) hm', intentValues_formatted (by rw [hr]; rfl) hm]
  have hu : unformatted (routed q).params = unformatted (routed r).params :=
    unformatted_congr h.engine h.playlist h.clips rfl
  show (q.actorId, q.sourceUrl, q.mediaMode, q.clipRange.map ClipRange.values,
    (withDefaultSubtitles q.mediaMode (unformatted (routed q).params)).values, q.target,
    NetworkSelection.none, q.preferenceOverrides, none, false) = _
  rw [h.actorId, h.sourceUrl, h.mediaMode, h.clipRange, h.target, hq, hu, ← hr]
  rfl

theorem sameIntent_of_base (h : SameBase r q) (hr : r.preferenceOverrides = some o)
    (hq : q.preferenceOverrides = some o) (hm : r.mediaMode.listing = false) : SameIntent q r := by
  have hm' : q.mediaMode.listing = false := h.mediaMode ▸ hm
  exact sameRequestIntent_eq_true.mpr ⟨hq.trans hr.symm, by simp [intentFails, hm'],
    by simp [intentFails, hm], intentValues_congr h hr hq hm⟩

/-! ## Resubmission -/

/-- A prepared form is recognised unless its mode lists what there is; then the
comparison fails. -/
theorem sameRequestIntent_prepared (h : PreparedForm r o p) :
    sameRequestIntent p (r.withPreferenceOverrides o) =
      if r.mediaMode.listing then .error .invalidInput else .ok true := by
  obtain ⟨hb, ho⟩ := h.base
  cases hm : r.mediaMode.listing with
  | false =>
      refine sameIntent_of_base (o := o) (q := p) ?_ rfl ho hm
      exact ⟨hb.actorId, hb.sourceUrl, hb.mediaMode, hb.clipRange, hb.target, hb.engine,
        hb.playlist, hb.clips⟩
  | true =>
      have hp : (routed p).mediaMode.listing = true := by
        show p.mediaMode.listing = true
        rw [hb.mediaMode, hm]
      have hs : p.preferenceOverrides = (r.withPreferenceOverrides o).preferenceOverrides := ho
      rw [sameRequestIntent_eq, if_neg (not_not.mpr hs), if_pos (by rw [ho]; rfl),
        normalizeFormat_listing hp]
      rfl

omit [Platform] in
theorem withDefaultSubtitles_values {p q : DownloadParams} (h : p.values = q.values) :
    (withDefaultSubtitles mode p).values = (withDefaultSubtitles mode q).values := by
  simp only [DownloadParams.values, Prod.mk.injEq] at h
  unfold withDefaultSubtitles
  rw [h.2.2.2.2.2.2.2.2.2.1]
  split <;> simp [DownloadParams.values, DownloadParams.withSubtitles, h]

omit [Platform] in
/-- Clips of the same values fit where the others did. -/
theorem paramsFit_recut {clip' : Option ClipRange} {p : DownloadParams} {hl : clips.length ≤ 20}
    (hclip : clip.map ClipRange.values = clip'.map ClipRange.values)
    (hlength : clips.length = p.clips.length) (h : paramsFit mode clip' p = true) :
    paramsFit mode clip { p with clips, clips_ok := hl } = true := by
  have hsome : clip.isSome = clip'.isSome := by
    simpa using congrArg Option.isSome hclip
  have hnone : clip.isNone = clip'.isNone := by
    rw [← Option.not_isSome, ← Option.not_isSome, hsome]
  have hempty : clips.isEmpty = p.clips.isEmpty := by
    rw [Bool.eq_iff_iff, List.isEmpty_iff_length_eq_zero, List.isEmpty_iff_length_eq_zero,
      hlength]
  rw [← h]
  simp only [paramsFit, DownloadParams.validateMode, hsome, hnone, hempty]

/-- Other clips of the same values change nothing that is compared. -/
theorem intentValues_recut {hl : clips.length ≤ 20}
    {fit : paramsFit r.mediaMode clip { r.params with clips, clips_ok := hl } = true}
    (hclip : clip.map ClipRange.values = r.clipRange.map ClipRange.values)
    (hclips : clips.map ClipRange.values = r.params.clips.map ClipRange.values) :
    intentValues (Codec.recut r clip clips hl fit) = intentValues r := by
  have hrouted : (routed (Codec.recut r clip clips hl fit)).params.values =
      (routed r).params.values := by
    show (_, _, _, _, _, _, clips.map ClipRange.values, _) = _
    rw [hclips]
    rfl
  have hunformatted : (unformatted (routed (Codec.recut r clip clips hl fit)).params).values =
      (unformatted (routed r).params).values := by
    show (_, _, _, _, _, _, clips.map ClipRange.values, _) = _
    rw [hclips]
    rfl
  by_cases hm : r.preferenceOverrides.isSome = true ∧ r.mediaMode.listing = false
  · rw [intentValues_formatted (r := Codec.recut r clip clips hl fit) hm.1 hm.2,
      intentValues_formatted hm.1 hm.2]
    show (_, _, _, clip.map ClipRange.values, (withDefaultSubtitles r.mediaMode
      (unformatted (routed (Codec.recut r clip clips hl fit)).params)).values, _) = _
    rw [hclip, withDefaultSubtitles_values hunformatted]
    rfl
  · have hrecut : intentValues (Codec.recut r clip clips hl fit) =
        (routed (Codec.recut r clip clips hl fit)).values := dif_neg hm
    rw [hrecut, intentValues, dif_neg hm]
    show (_, _, _, clip.map ClipRange.values,
      (routed (Codec.recut r clip clips hl fit)).params.values, _) = _
    rw [hclip, hrouted]
    rfl

theorem intentValues_clips (r : DownloadRequest) :
    (intentValues r).2.2.2.1 = r.clipRange.map ClipRange.values ∧
      (intentValues r).2.2.2.2.1.2.2.2.2.2.2.1 = r.params.clips.map ClipRange.values := by
  unfold intentValues
  split
  · refine ⟨rfl, ?_⟩
    show (withDefaultSubtitles _ _).clips.map _ = _
    unfold withDefaultSubtitles
    split <;> rfl
  · exact ⟨rfl, rfl⟩

/-- The condition under which a repeated submission is recognised. -/
structure Recognised (r : DownloadRequest) (o : DownloadPreferenceOverrides) : Prop where
  listing : r.mediaMode.listing = false
  clip : ∀ c ∈ r.clipRange, Codec.ClipKept c
  clips : ∀ c ∈ r.params.clips, Codec.ClipKept c
  overrides : Codec.overrideHeightOk o = true

/-- What a submission stores is read back with the intent of the raw request exactly under that
condition. -/
theorem recognised_iff (hu : StableUrls) (hp : PreparedForm r o p) :
    (∃ q, Codec.decode (Codec.encode p) = .ok q ∧
      SameIntent q (r.withPreferenceOverrides o)) ↔ Recognised r o := by
  obtain ⟨hb, ho⟩ := hp.base
  constructor
  · rintro ⟨q, hq, hsame⟩
    obtain ⟨hclip, hclips, hover, -, -, -⟩ := Codec.parts_of_decode hq
    obtain ⟨-, -, hfails, hvalues⟩ := sameRequestIntent_eq_true.mp hsame
    obtain ⟨hv, hvs⟩ := intentValues_clips q
    obtain ⟨hw, hws⟩ := intentValues_clips (r.withPreferenceOverrides o)
    rw [hvalues] at hv hvs
    rw [hb.clipRange] at hclip
    rw [hb.clips] at hclips
    exact {
      listing := by simpa [intentFails, DownloadRequest.withPreferenceOverrides] using hfails
      clip := Codec.clipKept_option_iff.mpr ⟨_, hclip, hv.symm.trans hw⟩
      clips := Codec.clipsKept_iff.mpr ⟨_, hclips, hvs.symm.trans hws⟩
      overrides := hover o ho }
  · intro h
    obtain ⟨clip, hclip, hv⟩ := Codec.clipKept_option_iff.mp h.clip
    obtain ⟨clips, hclips, hvs⟩ := Codec.clipsKept_iff.mp h.clips
    rw [← hb.clipRange] at hclip hv
    rw [← hb.clips] at hclips hvs
    have hlength : clips.length = p.params.clips.length := by
      simpa using congrArg List.length hvs
    have hl : clips.length ≤ 20 := hlength ▸ p.params.clips_ok
    have fit : paramsFit p.mediaMode clip { p.params with clips, clips_ok := hl } = true :=
      paramsFit_recut hv hlength p.params_ok
    refine ⟨_, Codec.decode_encode_recut hu (fun o' ho' => ?_) hclip hclips hl fit, ?_⟩
    · rw [ho] at ho'
      exact Option.some.inj ho' ▸ h.overrides
    · have hprepared := sameRequestIntent_prepared hp
      rw [h.listing] at hprepared
      have hmode : p.mediaMode.listing = false := hb.mediaMode ▸ h.listing
      have hfails : intentFails p = false := by simp [intentFails, hmode]
      have hrecut : SameIntent (Codec.recut p clip clips hl fit) p :=
        sameRequestIntent_eq_true.mpr ⟨rfl, hfails, hfails, intentValues_recut hv hvs⟩
      exact hrecut.trans hprepared

/-- What the submission of a key finds that is there. -/
theorem submit_existing (config : StoreConfig) (policy : AdmissionPolicy) {key : String}
    (clock : Clock) (id : Uuid) (hc : checkSubmission botId r o = .ok ())
    (ha : around.authorization = .ok ()) (hk : validateKey key = .ok ())
    (hrow : admitExisting db r.actorId.toNat key = some row) :
    submitPreferredContext config policy botId around r key o none clock id db =
        (.ok ⟨row.id, false⟩, db) ↔
      ∃ q, Codec.decode row.request = .ok q ∧ SameIntent q (r.withPreferenceOverrides o) := by
  have hn : r.network = .none := by
    unfold checkSubmission at hc
    split at hc
    · cases hc
    · simp_all
  have hreplay : replay botId around r key o none db =
      (replayNetworkAdmission (r.withPreferenceOverrides o) key db).mapError mapStore := by
    unfold replay
    rw [hc, ha]
    rfl
  have hrow' : admitExisting db (r.withPreferenceOverrides o).actorId.toNat key = some row := hrow
  unfold submitPreferredContext
  rw [hreplay]
  cases hd : Codec.decode row.request with
  | error e =>
      have hstore : replayNetworkAdmission (r.withPreferenceOverrides o) key db = .error e := by
        unfold replayNetworkAdmission
        rw [hk, show (r.withPreferenceOverrides o).network = .none from hn, hrow']
        show (do
          let current ← (Codec.decode row.request : Except StoreError DownloadRequest)
          _ : Except StoreError (Option Admission)) = _
        rw [hd]
        rfl
      rw [hstore]
      simp [Except.mapError]
  | ok current =>
      rw [replayNetworkAdmission_existing hk (show (r.withPreferenceOverrides o).network = .none
        from hn) hrow' hd]
      simp only [Except.ok.injEq, exists_eq_left', SameIntent]
      cases hs : sameRequestIntent current (r.withPreferenceOverrides o) with
      | error e => simp [bind, Except.bind, Except.mapError]
      | ok same => cases same <;> simp [bind, Except.bind, Except.mapError, replayed]

/-- A replay has checked the submission and its key, and creates nothing. -/
theorem replay_of_ok {key : String} {found : Option Admission}
    (h : replay botId around r key o none db = .ok found) :
    checkSubmission botId r o = .ok () ∧ validateKey key = .ok () ∧
      ∀ a ∈ found, a.created = false := by
  unfold replay at h
  simp only [Tx.result_bind_eq_ok] at h
  obtain ⟨_, hc, _, -, h⟩ := h
  rw [if_neg (by simp), Tx.mapError_eq_ok] at h
  simp only [replayNetworkAdmission, Tx.result_bind_eq_ok] at h
  obtain ⟨_, hk, _, -, h⟩ := h
  refine ⟨hc, hk, fun a ha => ?_⟩
  split at h
  · cases h
    cases ha
  · simp only [Tx.result_bind_eq_ok] at h
    obtain ⟨_, -, same, -, h⟩ := h
    split at h <;> cases h
    cases ha
    rfl

/-- What an admission stores of a prepared request is one of its forms, under its key. -/
theorem PreparedForm.of_created (hq : prepare around r o = .ok q) {key : String}
    {cacheKey : Option String} {now : Option Int}
    (h : Created config (q.withForceNsfw false) key policy cacheKey now clock id db row db') :
    admitExisting db' r.actorId.toNat key = some row ∧ row.id = id ∧
      ∃ p, PreparedForm r o p ∧ row.request = Codec.encode p := by
  obtain ⟨prepared, policy', quotas, hset, hrow⟩ := h.settings
  obtain ⟨values, settings, -, -, hprepared, -⟩ := admissionSettings_of_ok hset
  obtain ⟨ok, rfl⟩ := DownloadRequest.withDownloaderSettings_eq_ok hprepared
  have hform : q.withDownloaderSettings (if snapshotActive values then some settings else none) =
      .ok { q with
        downloaderSettings := if snapshotActive values then some settings else none
        settings_ok := ok } := by
    unfold DownloadRequest.withDownloaderSettings
    rw [dif_pos ok]
  have hactor : q.actorId = r.actorId := (prepare_of_ok hq).1.actorId
  refine ⟨admitExisting_eq_some.mpr ⟨by simp [h.operations], ?_, ?_⟩, ?_,
    _, ⟨around, q, _, _, db.nsfwMarks.rows.any fun m => decide (m.actorId = q.actorId.toNat),
      hq, hform, rfl⟩, ?_⟩
  · rw [hrow, ← hactor]
    rfl
  all_goals
    rw [hrow]
    rfl

/-- The row a new submission stores is a prepared form. -/
theorem submit_new {key : String}
    (h : submitPreferredContext config policy botId around r key o none clock id db =
      (.ok ⟨id, true⟩, db')) :
    checkSubmission botId r o = .ok () ∧ validateKey key = .ok () ∧ ∃ row p,
      admitExisting db' r.actorId.toNat key = some row ∧ row.id = id ∧ PreparedForm r o p ∧
        row.request = Codec.encode p := by
  unfold submitPreferredContext at h
  cases hreplay : replay botId around r key o none db with
  | error e =>
      rw [hreplay] at h
      cases h
  | ok found =>
      obtain ⟨hc, hk, hold⟩ := replay_of_ok hreplay
      refine ⟨hc, hk, ?_⟩
      rw [hreplay] at h
      cases found with
      | some a =>
          cases h
          cases hold _ rfl
      | none =>
          cases hp : prepare around r o with
          | error e =>
              rw [hp] at h
              cases h
          | ok q =>
              simp only [hp, admitNetworkSnapshot] at h
              rcases admitInner_cases config q key policy true none none clock id db with
                ⟨e, he⟩ | ⟨row, -, he⟩ | ⟨row, cacheKey, db'', -, he, -, hcreated⟩
              · rw [he] at h
                cases h
              · rw [he] at h
                cases h
              · rw [he] at h
                cases h
                obtain ⟨hrow, hid, p, hform, hrequest⟩ := PreparedForm.of_created hp hcreated
                exact ⟨row, p, hrow, hid, hform, hrequest⟩

/-- **Replay recognition.** A prepared form has the intent of the raw request exactly when the
mode lists nothing. At any time after its first submission a request is recognised under its
key exactly when, besides, its clips are read from what was stored as equal numbers, and the
height of its overrides can be read. The comparison is symmetric and transitive; what it is not
reflexive on are the requests with overrides whose mode does list something. -/
theorem replay_recognition (hu : StableUrls) {r : DownloadRequest}
    {o : DownloadPreferenceOverrides} :
    (∀ p, PreparedForm r o p →
      (sameRequestIntent p (r.withPreferenceOverrides o) = .ok true ↔
        r.mediaMode.listing = false)) ∧
    (∀ config policy botId around key clock id db (s t : System) es,
      submitPreferredContext config policy botId around r key o none clock id db =
        (.ok ⟨id, true⟩, s.db) → Run Step s es t →
      ∀ config' policy' around' clock' id', around'.authorization = .ok () →
        (submitPreferredContext config' policy' botId around' r key o none clock' id' t.db =
          (.ok ⟨id, false⟩, t.db) ↔ Recognised r o)) ∧
    ∀ a b c,
      (SameIntent a a ↔ (a.preferenceOverrides.isSome = true → a.mediaMode.listing = false)) ∧
      (SameIntent a b → SameIntent b a) ∧
      (SameIntent a b → SameIntent b c → SameIntent a c) := by
  refine ⟨fun p hp => ?_, ?_, fun a b c => ?_⟩
  · rw [sameRequestIntent_prepared hp]
    cases r.mediaMode.listing <;> simp
  · intro config policy botId around key clock id db s t es hfirst hrun config' policy' around'
      clock' id' ha
    obtain ⟨hc, hk, row, p, hrow, rfl, hp, hrequest⟩ := submit_new hfirst
    obtain ⟨hmem, hactor, hkey⟩ := admitExisting_eq_some.mp hrow
    obtain ⟨row', hr, hsame⟩ := identity_of_run hrun (Db.operation_eq_some.mpr ⟨hmem, rfl⟩)
    obtain ⟨hmem', hid⟩ := Db.operation_eq_some.mp hr
    have hrow' := admitExisting_eq_some.mpr ⟨hmem', hsame.actorId.trans hactor,
      hsame.idempotencyKey.trans hkey⟩
    rw [← hid, submit_existing config' policy' clock' id' hc ha hk hrow', hsame.request, hrequest,
      recognised_iff hu hp]
  · refine ⟨?_, .symm, .trans⟩
    rw [sameIntent_self_iff, intentFails]
    cases a.preferenceOverrides.isSome <;> simp

/-- Whatever preparation makes of a request is one of its forms. -/
theorem preparedForm_of_prepare (h : prepare around r o = .ok q) :
    PreparedForm r o (q.withForceNsfw false) := by
  have hs : q.withDownloaderSettings q.downloaderSettings = .ok q := by
    unfold DownloadRequest.withDownloaderSettings
    rw [dif_pos q.settings_ok]
  exact ⟨around, q, _, q, false, h, hs, rfl⟩

end

/-! ## Two submissions -/

section

open Scenario

attribute [local instance] Scenario.platform

/-- Nothing is in the way of a submission. -/
def granted : Surroundings := ⟨.ok (), .ok none, .ok .none, .ok none⟩

/-- The question which formats there are. -/
def listing : DownloadRequest :=
  { delivery with
    mediaMode := .formats, params := { sendAsFile := true }, params_ok := by decide }

/-- Submit a request under the key of the example. -/
abbrev submitAt (now : Int) (n : Nat) (r : DownloadRequest) :=
  submitPreferredContext {} policy 1 granted r "key" {} none (.still now) (uuid n)

/-- The store after the first submission of a request. -/
def submitted (r : DownloadRequest) : System := ⟨(submitAt 1 1 r .empty).2, 1⟩

theorem submitAt_first {r : DownloadRequest} {a : Admission}
    (h : (submitAt 1 1 r .empty).1 = .ok a) :
    submitAt 1 1 r .empty = (.ok a, (submitted r).db) :=
  Prod.ext h rfl

theorem replay_recognition_delivery :
    (∃ p, PreparedForm delivery {} p ∧
      sameRequestIntent p (delivery.withPreferenceOverrides {}) = .ok true) ∧
    submitAt 1 1 delivery .empty = (.ok ⟨uuid 1, true⟩, (submitted delivery).db) ∧
      submitAt 2 2 delivery (submitted delivery).db =
        (.ok ⟨uuid 1, false⟩, (submitted delivery).db) := by
  obtain ⟨q, hq⟩ : ∃ q, prepare granted delivery {} = .ok q := ⟨_, rfl⟩
  have hp := preparedForm_of_prepare hq
  obtain ⟨hcompared, hrecognised, -⟩ :=
    replay_recognition Scenario.stableUrls (r := delivery) (o := {})
  have hnew : (submitAt 1 1 delivery .empty).1 = .ok ⟨uuid 1, true⟩ := by decide +kernel
  have hkept : Recognised delivery {} :=
    ⟨rfl, fun c hc => (by cases hc), fun c hc => (by cases hc), rfl⟩
  have hagain := (hrecognised {} policy 1 granted "key" (.still 1) (uuid 1) .empty
    (submitted delivery) (submitted delivery) [] (submitAt_first hnew) .nil
    {} policy granted (.still 2) (uuid 2) rfl).mpr hkept
  exact ⟨⟨_, hp, (hcompared _ hp).mpr rfl⟩, submitAt_first hnew, hagain⟩

/-- A listing is admitted once, and refused when it is repeated. -/
theorem listing_not_recognised :
    (submitAt 1 1 listing .empty).1 = .ok ⟨uuid 1, true⟩ ∧
      (submitAt 2 2 listing (submitted listing).db).1 = .error .invalidInput ∧
      ∃ p, PreparedForm listing {} p ∧
        sameRequestIntent p (listing.withPreferenceOverrides {}) = .error .invalidInput := by
  obtain ⟨q, hq⟩ : ∃ q, prepare granted listing {} = .ok q := ⟨_, rfl⟩
  have hp := preparedForm_of_prepare hq
  exact ⟨by decide +kernel, by decide +kernel, _, hp, sameRequestIntent_prepared hp⟩

end

end YoinkCore.Downloads
