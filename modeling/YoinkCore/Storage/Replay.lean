import YoinkCore.Storage.Admission

/-!
# Comparing intents

`normalizeRoute` never fails and `normalizeFormat` fails only in the modes that list
what there is, which want their result as a file. So the comparison is one of normal
forms, and an equivalence wherever it does not fail.
-/

namespace YoinkCore.Storage

open Lib Domain

variable [Platform]

/-! ## Normal forms -/

variable {clip : Option ClipRange} {p : DownloadParams} {mode : MediaMode}

omit [Platform] in
theorem paramsFit_unfrozen (h : paramsFit mode clip p = true) :
    paramsFit mode clip ((p.withEngine (unfrozen p.engine)).withMediaInfo false) = true := by
  cases mode <;> cases he : p.engine <;>
    simp_all [paramsFit, DownloadParams.validateMode, DownloadParams.withEngine,
      DownloadParams.withMediaInfo, unfrozen]

/-- A request without its snapshots and its mark. -/
def stripped (r : DownloadRequest) : DownloadRequest :=
  { r with
    network := .none, downloaderSettings := none, forceNsfw := false
    network_ok := r.noNetwork_ok, settings_ok := DownloadRequest.noSettings_ok }

/-- A request without anything that admission added to it. -/
def routed (r : DownloadRequest) : DownloadRequest :=
  { stripped r with
    params := (r.params.withEngine (unfrozen r.params.engine)).withMediaInfo false
    params_ok := paramsFit_unfrozen r.params_ok }

theorem normalizeRoute_eq (r : DownloadRequest) : normalizeRoute r = .ok (routed r) := by
  unfold normalizeRoute withoutNetwork
  rw [DownloadRequest.withNetwork_of_valid rfl]
  show mapError StoreError.invalidInput ((stripped r).withParams
    ((r.params.withEngine (unfrozen r.params.engine)).withMediaInfo false)) = _
  rw [DownloadRequest.withParams_of_fit (r := stripped r) (paramsFit_unfrozen r.params_ok)]
  rfl

/-- The parameters with every field reset that overrides resolve. -/
def unformatted (p : DownloadParams) : DownloadParams :=
  { p with
    maxHeight := none, videoCodec := .h264, audioCodec := .best, container := .mp4
    sendAsFile := false, galleryZip := false, subtitles := none, height_ok := noHeight_ok }

omit [Platform] in
theorem paramsFit_unformatted (h : paramsFit mode clip p = true) (hm : mode.listing = false) :
    paramsFit mode clip (withDefaultSubtitles mode (unformatted p)) = true := by
  refine paramsFit_withDefaultSubtitles ?_ ?_
  · exact (validateMode_of_fit h).1
  · have hv := (validateMode_of_fit h).2
    cases mode <;> simp_all [DownloadParams.validateMode, unformatted, MediaMode.listing]

/-- The normal form of a request with overrides. -/
def formatted (r : DownloadRequest) (hm : r.mediaMode.listing = false) : DownloadRequest :=
  { r with
    params := withDefaultSubtitles r.mediaMode (unformatted r.params)
    params_ok := paramsFit_unformatted r.params_ok hm }

theorem normalizeFormat_eq_withParams (r : DownloadRequest) :
    normalizeFormat r = mapError .invalidInput (r.withParams (unformatted r.params)) := rfl

variable {a b r : DownloadRequest}

theorem normalizeFormat_eq (hm : r.mediaMode.listing = false) :
    normalizeFormat r = .ok (formatted r hm) := by
  obtain ⟨hc, hv⟩ := validateMode_of_fit r.params_ok
  have hv' : (unformatted r.params).validateMode r.mediaMode r.clipRange = .ok () := by
    cases hmode : r.mediaMode <;>
      simp_all [DownloadParams.validateMode, unformatted, MediaMode.listing]
  rw [normalizeFormat_eq_withParams, DownloadRequest.withParams, checkedParams,
    dif_pos (show (r.clipRange.isSome && !(unformatted r.params).clips.isEmpty) = false
      from hc)]
  split
  · rfl
  · rename_i e he
    rw [hv'] at he
    cases he

/-- A listing that is not sent as a file is refused. -/
theorem normalizeFormat_listing (hm : r.mediaMode.listing = true) :
    normalizeFormat r = .error .invalidInput := by
  have hv : (unformatted r.params).validateMode r.mediaMode r.clipRange =
      .error .invalidParameters := by
    cases hmode : r.mediaMode <;>
      simp_all [DownloadParams.validateMode, unformatted, MediaMode.listing]
  rw [normalizeFormat_eq_withParams, DownloadRequest.withParams, checkedParams]
  split
  · split
    · rename_i u hu
      rw [hv] at hu
      cases hu
    · rfl
  · rfl

/-! ## The comparison -/

/-- The comparison of two requests fails. -/
def intentFails (r : DownloadRequest) : Bool :=
  r.preferenceOverrides.isSome && r.mediaMode.listing

theorem sameRequestIntent_eq (current requested : DownloadRequest) :
    sameRequestIntent current requested =
      if current.preferenceOverrides ≠ requested.preferenceOverrides then .ok false
      else if current.preferenceOverrides.isSome then do
        return (← normalizeFormat (routed current)) == (← normalizeFormat (routed requested))
      else .ok (routed current == routed requested) := by
  unfold sameRequestIntent
  rw [normalizeRoute_eq, normalizeRoute_eq]
  show (if current.preferenceOverrides ≠ requested.preferenceOverrides then _ else _) = _
  split
  · rfl
  · show (if current.preferenceOverrides.isSome then _ else _) = _
    split <;> rfl

/-- What the comparison compares. -/
def intentValues (r : DownloadRequest) :=
  if h : r.preferenceOverrides.isSome ∧ r.mediaMode.listing = false then
    (formatted (routed r) h.2).values
  else (routed r).values

theorem intentValues_formatted (hs : r.preferenceOverrides.isSome = true)
    (hm : r.mediaMode.listing = false) : intentValues r = (formatted (routed r) hm).values :=
  dif_pos ⟨hs, hm⟩

theorem intentValues_routed (hs : ¬ r.preferenceOverrides.isSome = true) :
    intentValues r = (routed r).values :=
  dif_neg fun h => hs h.1

/-- **The comparison** holds of requests with equal overrides and equal normal forms,
provided that neither of them makes it fail. -/
theorem sameRequestIntent_eq_true :
    sameRequestIntent a b = .ok true ↔
      a.preferenceOverrides = b.preferenceOverrides ∧ intentFails a = false ∧
        intentFails b = false ∧ intentValues a = intentValues b := by
  rw [sameRequestIntent_eq]
  by_cases ho : a.preferenceOverrides = b.preferenceOverrides
  swap
  · simp [ho]
  rw [if_neg (not_not.mpr ho)]
  by_cases hs : a.preferenceOverrides.isSome = true
  swap
  · have hsb : ¬ b.preferenceOverrides.isSome = true := ho ▸ hs
    rw [if_neg hs, intentValues_routed hs, intentValues_routed hsb, Except.ok.injEq,
      DownloadRequest.keyed (routed a) (routed b)]
    simp [intentFails, hsb, ho]
  have hsb : b.preferenceOverrides.isSome = true := ho ▸ hs
  rw [if_pos hs]
  cases ha : a.mediaMode.listing with
  | true =>
      rw [normalizeFormat_listing (r := routed a) ha]
      simp [intentFails, hs, ha, bind, Except.bind]
  | false =>
      rw [normalizeFormat_eq (r := routed a) ha]
      cases hb : b.mediaMode.listing with
      | true =>
          rw [normalizeFormat_listing (r := routed b) hb]
          simp [intentFails, hsb, hb, bind, Except.bind]
      | false =>
          rw [normalizeFormat_eq (r := routed b) hb]
          rw [intentValues_formatted hs ha, intentValues_formatted hsb hb,
            ← DownloadRequest.keyed (formatted (routed a) ha) (formatted (routed b) hb)]
          simp [intentFails, ha, hb, ho, bind, Except.bind, pure, Except.pure]

/-- The comparison gives an answer unless one of the requests makes it fail. -/
theorem sameRequestIntent_total (ha : intentFails a = false) (hb : intentFails b = false) :
    ∃ same, sameRequestIntent a b = .ok same := by
  rw [sameRequestIntent_eq]
  by_cases ho : a.preferenceOverrides = b.preferenceOverrides
  swap
  · exact ⟨false, if_pos ho⟩
  rw [if_neg (not_not.mpr ho)]
  by_cases hs : a.preferenceOverrides.isSome = true
  swap
  · exact ⟨_, if_neg hs⟩
  have hsb : b.preferenceOverrides.isSome = true := ho ▸ hs
  rw [intentFails, hs, Bool.true_and] at ha
  rw [intentFails, hsb, Bool.true_and] at hb
  rw [if_pos hs, normalizeFormat_eq (r := routed a) ha, normalizeFormat_eq (r := routed b) hb]
  exact ⟨_, rfl⟩

/-! ## An equivalence -/

/-- Two requests ask for the same. -/
def SameIntent (a b : DownloadRequest) : Prop := sameRequestIntent a b = .ok true

theorem SameIntent.symm (h : SameIntent a b) : SameIntent b a := by
  obtain ⟨ho, ha, hb, hv⟩ := sameRequestIntent_eq_true.mp h
  exact sameRequestIntent_eq_true.mpr ⟨ho.symm, hb, ha, hv.symm⟩

theorem SameIntent.trans {c : DownloadRequest} (h : SameIntent a b) (h' : SameIntent b c) :
    SameIntent a c := by
  obtain ⟨ho, ha, -, hv⟩ := sameRequestIntent_eq_true.mp h
  obtain ⟨ho', -, hc, hv'⟩ := sameRequestIntent_eq_true.mp h'
  exact sameRequestIntent_eq_true.mpr ⟨ho.trans ho', ha, hc, hv.trans hv'⟩

theorem sameIntent_self_iff : SameIntent a a ↔ intentFails a = false := by
  rw [SameIntent, sameRequestIntent_eq_true]
  simp

/-! ## The replay of a key -/

/-- What a replay makes of the comparison. -/
def replayed (id : Uuid) (same : Bool) : Except StoreError (Option Admission) :=
  if same then .ok (some ⟨id, false⟩) else .error .conflict

/-- The replay of an existing key compares with the request under it. -/
theorem replayNetworkAdmission_existing {current : DownloadRequest} {key : String} {db : Db}
    {row : OperationRow} (hk : validateKey key = .ok ()) (hn : r.network = .none)
    (hrow : admitExisting db r.actorId.toNat key = some row)
    (hd : Codec.decode row.request = .ok current) :
    replayNetworkAdmission r key db = sameRequestIntent current r >>= replayed row.id := by
  unfold replayNetworkAdmission
  rw [hk, hn, hrow]
  show (do
    let current ← (Codec.decode row.request : Except StoreError DownloadRequest)
    if ← sameRequestIntent current r then (.ok (some ⟨row.id, false⟩)) else .error .conflict) =
      (_ : Except StoreError (Option Admission))
  rw [hd]
  rfl

end YoinkCore.Storage
