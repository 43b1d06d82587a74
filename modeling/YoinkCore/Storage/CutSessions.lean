import YoinkCore.Storage.DialogRows

/-!
# Cut sessions

Every change of a cut session leaves one that can be stored and read back. What is
chosen in a stage is reset when the stage is left; only the confirmation freezes it.
-/

namespace YoinkCore.Storage

open Lib Domain

variable [Platform]

/-! ## What the changes make of a session -/

variable {clips : List ClipRange} {stage : CutStage} {message : Option Int32} {index : Option Nat}
  {value : Float}

omit [Platform] in
theorem editable_iff : editable stage = true ↔ stage = .ready ∨ stage = .quality := by
  cases stage <;> decide

variable {s s' : CutSession} {last : Int32}

theorem editCut_eq_ok (h : editCut s = .ok (some s')) :
    editable s.stage = true ∧ s' = { s with
      revision := s.revision + 1, stage := .start, start := none, stop := none
      editingIndex := some 0, operationId := none, selected := none } := by
  simp only [editCut, Tx.result_bind_eq_ok, expect_eq_ok, nextRevision_eq_ok] at h
  obtain ⟨_, he, _, ⟨-, rfl⟩, h⟩ := h
  cases h
  exact ⟨he, rfl⟩

theorem beginSegment_eq_ok {append : Bool} (h : beginSegment index append s = .ok (some s')) :
    editable s.stage = true ∧ (append = false → ∃ i, index = some i ∧ i < s.clips.length) ∧
      s' = { s with
        revision := s.revision + 1, stage := .start, start := none, stop := none
        editingIndex := index, selected := none, operationId := none } := by
  simp only [beginSegment, Tx.result_bind_eq_ok, expect_eq_ok, nextRevision_eq_ok] at h
  obtain ⟨_, he, _, hi, _, ⟨-, rfl⟩, h⟩ := h
  cases h
  refine ⟨he, ?_, rfl⟩
  rintro rfl
  simpa [Option.any_eq_true] using hi

theorem deleteSegment_eq_ok {index : Nat} (h : deleteSegment index s = .ok (some s')) :
    editable s.stage = true ∧ (s.clips.eraseIdx index = [] ∧ s' = { s with
        clips := [], revision := s.revision + 1, selected := none, operationId := none
        editingIndex := none, stage := .start, start := none, stop := none } ∨
      s.clips.eraseIdx index ≠ [] ∧ s' = { s with
        clips := s.clips.eraseIdx index, revision := s.revision + 1, selected := none
        operationId := none, editingIndex := none, stage := .ready
        start := (s.clips.eraseIdx index).head?.map ClipRange.startSeconds
        stop := (s.clips.eraseIdx index).head?.map ClipRange.endSeconds }) := by
  simp only [deleteSegment, Tx.result_bind_eq_ok, expect_eq_ok, nextRevision_eq_ok] at h
  obtain ⟨_, he, _, hi, _, ⟨-, rfl⟩, h⟩ := h
  refine ⟨he, ?_⟩
  by_cases hc : s.clips.eraseIdx index = []
  · rw [if_pos (by rw [hc]; rfl)] at h
    cases h
    exact .inl ⟨hc, by rw [hc]⟩
  · rw [if_neg (by simpa using hc)] at h
    cases h
    exact .inr ⟨hc, rfl⟩

theorem backCut_eq_ok (h : backCut s = .ok (some s')) :
    (s.stage = .start ∨ s.stage = .stop) ∧ s.clips ≠ [] ∧ s' = { s with
      start := s.clips.head?.map ClipRange.startSeconds
      stop := s.clips.head?.map ClipRange.endSeconds, revision := s.revision + 1
      stage := .ready, editingIndex := none, selected := none } := by
  simp only [backCut, Tx.result_bind_eq_ok, expect_eq_ok, nextRevision_eq_ok,
    Bool.and_eq_true, Bool.or_eq_true, beq_iff_eq, Bool.not_eq_true',
    List.isEmpty_eq_false_iff] at h
  obtain ⟨_, ⟨hs, hc⟩, _, ⟨-, rfl⟩, h⟩ := h
  cases h
  exact ⟨hs, hc, rfl⟩

/-- A message that cancels a session comes after its last one. -/
theorem cancelMessage_eq_ok (h : cancelMessage s message = .ok last) :
    s.lastMessageId.toInt ≤ last.toInt := by
  cases message with
  | none =>
      cases h
      exact Int.le_refl _
  | some m =>
      simp only [cancelMessage, Tx.result_bind_eq_ok, expect_eq_ok, decide_eq_true_eq] at h
      obtain ⟨_, -, _, hlt, h⟩ := h
      cases h
      have := Int32.lt_iff_toInt_lt.mp hlt
      omega

theorem cancelCut_eq_ok (h : cancelCut message s = .ok (some s')) :
    (s.stage = .start ∨ s.stage = .stop ∨ editable s.stage = true) ∧
      ∃ last : Int32, s.lastMessageId.toInt ≤ last.toInt ∧ s' = { s with
        lastMessageId := last, revision := s.revision + 1, stage := .cancelled
        start := none, stop := none, selected := none, clips := []
        editingIndex := none, original := none } := by
  unfold cancelCut at h
  split at h
  · cases h
  simp only [Tx.result_bind_eq_ok, expect_eq_ok, nextRevision_eq_ok, Bool.or_eq_true,
    beq_iff_eq, or_assoc] at h
  obtain ⟨_, hs, last, hm, _, ⟨-, rfl⟩, h⟩ := h
  cases h
  exact ⟨hs, last, cancelMessage_eq_ok hm, rfl⟩

theorem claimCut_eq_ok (h : claimCut s = .ok (some s')) :
    (s.stage = .ready ∨ s.stage = .quality ∧ s.selected.isSome = true) ∧
      s' = { s with stage := .confirming } := by
  unfold claimCut at h
  split at h
  · rename_i hs
    cases h
    exact ⟨.inl hs, rfl⟩
  · rename_i hs
    split at h
    · rename_i hsel
      cases h
      exact ⟨.inr ⟨hs, hsel⟩, rfl⟩
    · cases h
  · cases h
  · cases h
  · cases h

theorem qualityStageCut_eq_ok (h : qualityStageCut s = .ok (some s')) :
    s.stage = .ready ∧ s' = { s with stage := .quality, revision := s.revision + 1 } := by
  simp only [qualityStageCut, Tx.result_bind_eq_ok, expect_eq_ok, nextRevision_eq_ok,
    beq_iff_eq] at h
  obtain ⟨_, hs, _, ⟨-, rfl⟩, h⟩ := h
  cases h
  exact ⟨hs, rfl⟩

theorem chooseCut_eq_ok {revision : Int} {choice : QualityChoice}
    (h : chooseCut revision choice s = .ok (some s')) :
    s.stage = .quality ∧ s' = { s with
      stage := .confirming, selected := some choice, revision := s.revision + 1 } := by
  unfold chooseCut at h
  split at h
  · cases h
  simp only [Tx.result_bind_eq_ok, expect_eq_ok, nextRevision_eq_ok, beq_iff_eq] at h
  obtain ⟨_, hs, _, ⟨-, rfl⟩, h⟩ := h
  cases h
  exact ⟨hs, rfl⟩

theorem submitCut_eq_ok {operationId : Uuid} (h : submitCut operationId s = .ok (some s')) :
    s.stage = .confirming ∧ s' = { s with
      stage := .submitted, operationId := some operationId } := by
  unfold submitCut at h
  split at h
  · split at h <;> cases h
  simp only [Tx.result_bind_eq_ok, expect_eq_ok, beq_iff_eq] at h
  obtain ⟨_, hs, h⟩ := h
  cases h
  exact ⟨hs, rfl⟩

theorem placeClip_eq_ok {range : ClipRange} (hlen : s.clips.length ≤ 20)
    (h : placeClip s range = .ok clips) : clips ≠ [] ∧ clips.length ≤ 20 := by
  unfold placeClip at h
  split at h
  · split at h
    · cases h
    · rename_i index _ hi
      cases h
      refine ⟨fun he => ?_, by simpa using hlen⟩
      have := congrArg List.length he
      simp only [List.length_set, List.length_nil] at this
      omega
  · split at h
    · cases h
    · rename_i hl
      cases h
      refine ⟨by simp, ?_⟩
      rw [List.length_append, List.length_singleton]
      omega

/-- A number sets the start of a clip, or completes one. -/
theorem inputCut_eq_ok {message : Int32} {numeric : Bool} (hlen : s.clips.length ≤ 20)
    (h : inputCut message value numeric s = .ok (some s')) :
    s.lastMessageId.toInt ≤ message.toInt ∧
      (s.stage = .start ∧ s' = { s with
          start := some value, stage := .stop, revision := s.revision + 1
          lastMessageId := message } ∨
        s.stage = .stop ∧ ∃ clips : List ClipRange, clips ≠ [] ∧ clips.length ≤ 20 ∧
          s' = { s with
            clips := clips, editingIndex := none, stage := .ready
            start := clips.head?.map ClipRange.startSeconds
            stop := clips.head?.map ClipRange.endSeconds, revision := s.revision + 1
            lastMessageId := message }) := by
  unfold inputCut at h
  split at h
  · cases h
  rename_i hm
  have hlast : s.lastMessageId.toInt ≤ message.toInt := by
    rw [Int32.le_iff_toInt_le] at hm
    omega
  refine ⟨hlast, ?_⟩
  obtain ⟨moved, hmoved, h⟩ := Tx.result_bind_eq_ok.mp h
  obtain ⟨revision, hrev, h⟩ := Tx.result_bind_eq_ok.mp h
  cases h
  unfold inputRevision at hrev
  unfold inputStage at hmoved
  split at hmoved
  · rename_i hs
    cases hmoved
    rw [if_neg (by
      show ¬ CutStage.stop = s.stage
      rw [hs]
      decide)] at hrev
    obtain ⟨-, rfl⟩ := nextRevision_eq_ok.mp hrev
    exact .inl ⟨hs, rfl⟩
  · rename_i hs
    obtain ⟨range, -, hmoved⟩ := Tx.result_bind_eq_ok.mp hmoved
    obtain ⟨clips, hclips, hmoved⟩ := Tx.result_bind_eq_ok.mp hmoved
    cases hmoved
    rw [if_neg (by
      show ¬ CutStage.ready = s.stage
      rw [hs]
      decide)] at hrev
    obtain ⟨-, rfl⟩ := nextRevision_eq_ok.mp hrev
    obtain ⟨hne, hle⟩ := placeClip_eq_ok hlen hclips
    exact .inr ⟨hs, clips, hne, hle, rfl⟩
  · cases hmoved

/-! ## Changes keep a session storable -/

namespace CutOk

variable {s s' : CutSession}

/-- Before a session is cancelled, a link comes with the request it was taken from. -/
theorem original_of_linked (h : CutOk s) (hs : s.stage ≠ .cancelled) :
    (s.linkedQualityId.isSome && s.original.isNone) = false := by
  have hl := h.linked
  rwa [bne_iff_ne.mpr hs, Bool.and_true] at hl

/-- A session in a stage without a selection has none. -/
theorem selected_eq_none (h : CutOk s) (hc : s.stage ≠ .confirming)
    (hs : s.stage ≠ .submitted) : s.selected = none := by
  cases hsel : s.selected with
  | none => rfl
  | some c =>
      rcases (h.selected c hsel).2.2 with he | he
      · exact absurd he hc
      · exact absurd he hs

theorem operation_eq_none (h : CutOk s) (hs : s.stage ≠ .submitted) :
    s.operationId = none := by
  have ho := h.operation
  rw [beq_eq_false_iff_ne.mpr hs] at ho
  simpa using ho.symm

/-- Once the clips are chosen, none is edited. -/
theorem editing_eq_none (h : CutOk s) (hs : s.stage.clipped = true) :
    s.editingIndex = none := by
  have hc := h.clips
  simp only [clipsFit, Bool.and_eq_true, Bool.or_eq_true, beq_iff_eq,
    Option.isNone_iff_eq_none] at hc
  rcases hc.2 with (hn | he) | he
  · exact hn
  · rw [he] at hs
    cases hs
  · rw [he] at hs
    cases hs

omit [Platform] in
theorem clipped_of_editable (h : editable stage = true) :
    stage.clipped = true ∧ stage ≠ .cancelled ∧ stage ≠ .confirming ∧ stage ≠ .submitted := by
  cases stage <;> first | (cases h; done) | decide

/-- Going back to the start of a clip, whichever is edited. -/
theorem restart (h : CutOk s) (he : editable s.stage = true) (hle : clips.length ≤ 20)
    (hi : ∀ i ∈ index, i < clips.length) :
    CutOk { s with
      clips := clips, revision := s.revision + 1, stage := .start, start := none
      stop := none, editingIndex := index, operationId := none, selected := none } := by
  obtain ⟨-, hcancel, -, -⟩ := clipped_of_editable he
  exact {
    target := h.target
    revision := by
      have := h.revision
      show 0 < s.revision + 1
      omega
    messages := h.messages
    url := h.url
    begin_nonneg := h.begin_nonneg
    start_nonneg := by simp
    mirror := fun hc => by cases hc
    ending := fun hc => by cases hc
    clips_le := hle
    clips := by
      simp only [clipsFit, CutStage.clipped, Bool.false_and, Bool.not_false, Bool.and_true]
      rw [Bool.and_eq_true, Bool.and_eq_true, Option.all_eq_true]
      exact ⟨⟨fun i hm => decide_eq_true (hi i hm), rfl⟩, by simp⟩
    selected := by simp
    operation := rfl
    original := h.original
    linked := by
      show (s.linkedQualityId.isSome && s.original.isNone && _) = false
      rw [h.original_of_linked hcancel, Bool.false_and] }

variable {selected : Option QualityChoice} {operationId : Option Uuid}

/-- Showing the clips of a session, none of them edited. -/
theorem showClips (h : CutOk s) (hcancel : s.stage ≠ .cancelled) (hne : clips ≠ [])
    (hle : clips.length ≤ 20) (hlast : s.lastMessageId.toInt ≤ last.toInt)
    (hsel : selected = none) (hop : operationId = none) :
    CutOk { s with
      clips := clips, revision := s.revision + 1, stage := .ready, editingIndex := none
      start := clips.head?.map ClipRange.startSeconds
      stop := clips.head?.map ClipRange.endSeconds, lastMessageId := last
      selected, operationId } where
  target := h.target
  revision := by
    have := h.revision
    show 0 < s.revision + 1
    omega
  messages := h.messages.trans hlast
  url := h.url
  begin_nonneg := h.begin_nonneg
  start_nonneg := by
    intro x hx
    obtain ⟨c, -, rfl⟩ := Option.map_eq_some_iff.mp hx
    exact c.start_nonneg
  mirror _ := ⟨rfl, rfl⟩
  ending hc := by cases hc
  clips_le := hle
  clips := by
    cases clips with
    | nil => exact absurd rfl hne
    | cons c clips => rfl
  selected c hc := by
    rw [hsel] at hc
    cases hc
  operation := by
    rw [hop]
    rfl
  original := h.original
  linked := by
    show (s.linkedQualityId.isSome && s.original.isNone && _) = false
    rw [h.original_of_linked hcancel, Bool.false_and]

/-- Moving on with the clips that were chosen. -/
theorem proceed (h : CutOk s) (hs : s.stage.clipped = true) (hstage : stage.clipped = true)
    (hsel : ∀ c ∈ selected, c.listed = true ∧ c ≠ .audio ∧
      (stage = .confirming ∨ stage = .submitted))
    (hop : (stage == .submitted) = operationId.isSome) {revision : Int}
    (hrev : s.revision ≤ revision) :
    CutOk { s with stage, selected, operationId, revision } where
  target := h.target
  revision := by
    have := h.revision
    show 0 < revision
    omega
  messages := h.messages
  url := h.url
  begin_nonneg := h.begin_nonneg
  start_nonneg := h.start_nonneg
  mirror _ := h.mirror hs
  ending hc := by
    change stage = .stop at hc
    rw [hc] at hstage
    cases hstage
  clips_le := h.clips_le
  clips := by
    have hne := h.clips_ne hs
    show clipsFit stage s.clips s.editingIndex = true
    rw [h.editing_eq_none hs]
    cases stage <;> simp_all [clipsFit, CutStage.clipped]
  selected := hsel
  operation := hop
  original := h.original
  linked := by
    have hcancel : s.stage ≠ .cancelled := by
      rintro he
      rw [he] at hs
      cases hs
    show (s.linkedQualityId.isSome && s.original.isNone && _) = false
    rw [h.original_of_linked hcancel, Bool.false_and]

/-- The start of a clip is set. -/
theorem setStart (h : CutOk s) (hs : s.stage = .start) (hv : (0.0 : Float) ≤ value)
    (hlast : s.lastMessageId.toInt ≤ last.toInt) :
    CutOk { s with
      start := some value, stage := .stop, revision := s.revision + 1
      lastMessageId := last } where
  target := h.target
  revision := by
    have := h.revision
    show 0 < s.revision + 1
    omega
  messages := h.messages.trans hlast
  url := h.url
  begin_nonneg := h.begin_nonneg
  start_nonneg x hx := by
    obtain rfl : value = x := by simpa using hx
    exact hv
  mirror hc := by cases hc
  ending _ := rfl
  clips_le := h.clips_le
  clips := by
    have hc := h.clips
    rw [hs] at hc
    simpa [clipsFit, CutStage.clipped] using hc
  selected c hc := by
    change s.selected = some c at hc
    rw [h.selected_eq_none (by rw [hs]; decide) (by rw [hs]; decide)] at hc
    cases hc
  operation := by
    show false = s.operationId.isSome
    rw [h.operation_eq_none (by rw [hs]; decide)]
    rfl
  original := h.original
  linked := by
    show (s.linkedQualityId.isSome && s.original.isNone && _) = false
    rw [h.original_of_linked (by rw [hs]; decide), Bool.false_and]

/-- Cancelling keeps no clips and no request. -/
theorem cancelled (h : CutOk s) (hs : s.stage ≠ .submitted)
    (hlast : s.lastMessageId.toInt ≤ last.toInt) :
    CutOk { s with
      lastMessageId := last, revision := s.revision + 1, stage := .cancelled
      start := none, stop := none, selected := none, clips := []
      editingIndex := none, original := none } where
  target := h.target
  revision := by
    have := h.revision
    show 0 < s.revision + 1
    omega
  messages := h.messages.trans hlast
  url := h.url
  begin_nonneg := h.begin_nonneg
  start_nonneg := by simp
  mirror hc := by cases hc
  ending hc := by cases hc
  clips_le := by simp
  clips := rfl
  selected := by simp
  operation := by
    show false = s.operationId.isSome
    rw [h.operation_eq_none hs]
    rfl
  original := by simp
  linked := by simp

/-- **Every change** of a session that can be stored leaves one that can. -/
theorem change (h : CutOk s) (c : CutChange s s') : CutOk s' := by
  cases c with
  | input time hi =>
      obtain ⟨hlast, ⟨hs, rfl⟩ | ⟨hs, clips, hne, hle, rfl⟩⟩ := inputCut_eq_ok h.clips_le hi
      · simp only [validTime, Bool.and_eq_true, decide_eq_true_eq] at time
        exact h.setStart hs time.2 hlast
      · exact h.showClips (by rw [hs]; decide) hne hle hlast
          (h.selected_eq_none (by rw [hs]; decide) (by rw [hs]; decide))
          (h.operation_eq_none (by rw [hs]; decide))
  | edit he =>
      obtain ⟨hs, rfl⟩ := editCut_eq_ok he
      have hne := h.clips_ne (clipped_of_editable hs).1
      refine h.restart hs h.clips_le fun i hi => ?_
      obtain rfl : 0 = i := by simpa using hi
      exact List.length_pos_iff.mpr hne
  | segment place hseg =>
      rename_i index append
      obtain ⟨hs, hi, rfl⟩ := beginSegment_eq_ok hseg
      refine h.restart hs h.clips_le fun i hm => ?_
      cases append with
      | true =>
          rw [place rfl] at hm
          cases hm
      | false =>
          obtain ⟨j, rfl, hj⟩ := hi rfl
          obtain rfl : j = i := by simpa using hm
          exact hj
  | delete hd =>
      obtain ⟨hs, ⟨-, rfl⟩ | ⟨hne, rfl⟩⟩ := deleteSegment_eq_ok hd
      · exact h.restart hs (Nat.zero_le _) fun i hm => by cases hm
      · exact h.showClips (clipped_of_editable hs).2.1 hne
          ((List.length_eraseIdx_le _ _).trans h.clips_le) (Int.le_refl _) rfl rfl
  | back hb =>
      obtain ⟨hs, hne, rfl⟩ := backCut_eq_ok hb
      have hsubmitted : s.stage ≠ .submitted := by
        rcases hs with hs | hs <;> rw [hs] <;> decide
      have hcancelled : s.stage ≠ .cancelled := by
        rcases hs with hs | hs <;> rw [hs] <;> decide
      exact h.showClips hcancelled hne h.clips_le (Int.le_refl _) rfl
        (h.operation_eq_none hsubmitted)
  | cancel hcancel =>
      obtain ⟨hs, last, hlast, rfl⟩ := cancelCut_eq_ok hcancel
      refine h.cancelled ?_ hlast
      rcases hs with hs | hs | hs
      · rw [hs]
        decide
      · rw [hs]
        decide
      · exact (clipped_of_editable hs).2.2.2
  | claim hclaim =>
      obtain ⟨hs, rfl⟩ := claimCut_eq_ok hclaim
      have he : editable s.stage = true := editable_iff.mpr (hs.imp_right And.left)
      obtain ⟨hclipped, -, hcon, hsub⟩ := clipped_of_editable he
      refine h.proceed hclipped rfl (fun c hc => ?_)
        (by rw [h.operation_eq_none hsub]; rfl) (Int.le_refl _)
      rw [h.selected_eq_none hcon hsub] at hc
      cases hc
  | quality hq =>
      obtain ⟨hs, rfl⟩ := qualityStageCut_eq_ok hq
      refine h.proceed (by rw [hs]; rfl) rfl (fun c hc => ?_)
        (by rw [h.operation_eq_none (by rw [hs]; decide)]; rfl) (by omega)
      rw [h.selected_eq_none (by rw [hs]; decide) (by rw [hs]; decide)] at hc
      cases hc
  | choose listed hch =>
      obtain ⟨hs, rfl⟩ := chooseCut_eq_ok hch
      refine h.proceed (by rw [hs]; rfl) rfl (fun c hc => ?_)
        (by rw [h.operation_eq_none (by rw [hs]; decide)]; rfl) (by omega)
      simp only [checkCutChoice, Tx.result_bind_eq_ok, expect_eq_ok, bne_iff_ne] at listed
      obtain ⟨c', hparse, haudio⟩ := listed
      obtain rfl := Option.some.inj hc
      exact ⟨QualityChoice.parse_asStr_iff.mp ⟨c', hparse⟩, haudio, .inl rfl⟩
  | submit hsub =>
      obtain ⟨hs, rfl⟩ := submitCut_eq_ok hsub
      refine h.proceed (by rw [hs]; rfl) rfl (fun c hc => ?_) rfl (Int.le_refl _)
      obtain ⟨hl, ha, -⟩ := h.selected c hc
      exact ⟨hl, ha, .inr rfl⟩

end CutOk

end YoinkCore.Storage
