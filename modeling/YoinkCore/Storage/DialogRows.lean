import YoinkCore.Storage.DialogRuns

/-!
# The rows of the dialogs

What the sessions of the two dialogs satisfy. A session that does has a row which
passes every constraint of its table, and which is read back as the session.
-/

namespace YoinkCore.Storage

open Lib Lib.Json Domain

/-! ## Texts of the columns -/

theorem CutStage.asStr_beq (a b : CutStage) : (a.asStr == b.asStr) = (a == b) := by
  cases a <;> cases b <;> decide

theorem CutStage.contains_clipped (a : CutStage) :
    ["ready", "quality", "confirming", "submitted"].contains a.asStr = a.clipped := by
  cases a <;> decide

theorem QualityStage.text_beq (a b : QualityStage) : (a.text == b.text) = (a == b) := by
  cases a <;> cases b <;> decide

theorem QualityStage.contains_selects (a : QualityStage) :
    ["confirming", "submitted"].contains a.text = a.confirmed := by
  cases a <;> decide

namespace QualityChoice

/-- A property of the listed choices can be checked label by label. -/
theorem listed_induction {P : QualityChoice → Prop} (h : ∀ l ∈ labels, P l.2)
    {c : QualityChoice} (hc : c.listed = true) : P c := by
  obtain ⟨l, hl, he⟩ := List.any_eq_true.mp hc
  exact of_decide_eq_true he ▸ h l hl

theorem contains_asStr {c : QualityChoice} (h : c.listed = true) :
    ["best", "audio", "2160", "1440", "1080", "720", "480", "360", "240",
      "144"].contains c.asStr = true :=
  listed_induction (P := fun c => ["best", "audio", "2160", "1440", "1080", "720", "480",
    "360", "240", "144"].contains c.asStr = true) (by decide) h

theorem contains_video {c : QualityChoice} (h : c.listed = true) (ha : c ≠ .audio) :
    ["best", "2160", "1440", "1080", "720", "480", "360", "240",
      "144"].contains c.asStr = true :=
  listed_induction (P := fun c => c ≠ .audio → ["best", "2160", "1440", "1080", "720",
    "480", "360", "240", "144"].contains c.asStr = true) (by decide) h ha

end QualityChoice

section

variable [Platform]

omit [Platform] in
/-- Reading back the choice a row names. -/
theorem mapM_parse {selected : Option QualityChoice}
    (h : ∀ c ∈ selected, c.listed = true) :
    (selected.map QualityChoice.asStr).mapM QualityChoice.parse = .ok selected := by
  cases selected with
  | none => rfl
  | some c =>
      show (QualityChoice.parse c.asStr).map some = _
      rw [QualityChoice.parse_asStr (h c rfl)]
      rfl

/-! ## Clips -/

omit [Platform] in
theorem encodeClips_eq (clips : List ClipRange) :
    encodeClips clips = .arr ((clips.map fun c => (c.startSeconds, c.endSeconds)).map
      fun p => .arr [.float p.1, .float p.2]) := by
  rw [encodeClips, List.map_map]
  rfl

omit [Platform] in
theorem mapM_new (clips : List ClipRange) :
    (clips.map fun c => (c.startSeconds, c.endSeconds)).mapM
      (fun p => mapError .invalidStoredData (ClipRange.new p.1 p.2)) =
        (.ok clips : Except StoreError (List ClipRange)) := by
  induction clips with
  | nil => rfl
  | cons c clips ih =>
      rw [List.map_cons, List.mapM_cons, ClipRange.new_self, ih]
      rfl

theorem decodeClips_encode {clips : List ClipRange} (hstable : ∀ c ∈ clips, Codec.ClipStable c)
    (h : clips.length ≤ 20) : decodeClips (encodeClips clips) = .ok clips := by
  have hread : Codec.readList readPair (encodeClips clips) =
      some (clips.map fun c => (c.startSeconds, c.endSeconds)) := by
    rw [encodeClips_eq]
    refine Codec.readList_map _ fun p hp => ?_
    obtain ⟨c, hc, rfl⟩ := List.mem_map.mp hp
    simp [readPair, Codec.asF64, (hstable c hc).1, (hstable c hc).2]
  unfold decodeClips
  rw [hread]
  show (do
    expect .invalidStoredData
      (decide ((clips.map fun c => (c.startSeconds, c.endSeconds)).length ≤ 20))
    _ : Except StoreError (List ClipRange)) = _
  rw [List.length_map, decide_eq_true h]
  exact mapM_new clips

/-! ## Cut sessions -/

/-- The target of a dialog: the private chat of the actor, answering one message. -/
structure DialogTarget (actor : UInt64) (target : DeliveryTarget) (message : Int32) :
    Prop where
  actor_pos : 0 < actor.toNat
  chat : target.chatId.toInt = actor.toNat
  thread : target.threadId = none
  reply : target.replyToMessageId = some message

namespace DialogTarget

variable {actor : UInt64} {target : DeliveryTarget} {message : Int32}

omit [Platform] in
theorem message_pos (h : DialogTarget actor target message) : 0 < message.toInt := by
  have hv := target.valid
  simp only [validTarget, h.reply, Bool.and_eq_true, Option.all_some,
    decide_eq_true_eq] at hv
  exact hv.2

omit [Platform] in
theorem scope_check (h : DialogTarget actor target message) :
    (dialogScope actor target).check = true := by
  have hv := target.valid
  simp only [validTarget, Bool.and_eq_true, decide_eq_true_eq] at hv
  have hp := h.actor_pos
  show (decide (0 < actor.toNat) && decide (0 < target.botId.toInt) &&
    decide (0 < target.chatId.toInt) && decide (target.chatId.toInt = actor.toNat)) = true
  simp only [Bool.and_eq_true, decide_eq_true_eq, h.chat, and_true]
  exact ⟨⟨hp, hv.1.1.1⟩, by omega⟩

omit [Platform] in
/-- The target is rebuilt from the columns of the row. -/
theorem new_eq (h : DialogTarget actor target message) :
    DeliveryTarget.new target.botId target.chatId none (some message) = .ok target := by
  have ht := DeliveryTarget.new_self target
  rw [h.thread, h.reply] at ht
  exact ht

end DialogTarget

/-- What every stored cut session satisfies. -/
structure CutOk (s : CutSession) : Prop where
  target : DialogTarget s.actorId s.target s.originMessageId
  revision : 0 < s.revision
  messages : s.originMessageId.toInt ≤ s.lastMessageId.toInt
  url : s.url.isSome = true
  begin_nonneg : ∀ x ∈ s.beginStart, (0.0 : Float) ≤ x
  start_nonneg : ∀ x ∈ s.start, (0.0 : Float) ≤ x
  /-- The first clip is mirrored once the clips are chosen. -/
  mirror : s.stage.clipped = true → s.start = s.clips.head?.map ClipRange.startSeconds ∧
    s.stop = s.clips.head?.map ClipRange.endSeconds
  ending : s.stage = .stop → s.start.isSome = true
  clips_le : s.clips.length ≤ 20
  clips : clipsFit s.stage s.clips s.editingIndex = true
  selected : ∀ c ∈ s.selected, c.listed = true ∧ c ≠ .audio ∧
    (s.stage = .confirming ∨ s.stage = .submitted)
  operation : (s.stage == .submitted) = s.operationId.isSome
  original : ∀ r ∈ s.original, originalFits (cutRow s) r = true ∧
    Codec.decode (Codec.encode r) = .ok r
  linked : (s.linkedQualityId.isSome && s.original.isNone && s.stage != .cancelled) = false

namespace CutOk

variable {s : CutSession}

theorem clips_ne (h : CutOk s) (hs : s.stage.clipped = true) : s.clips ≠ [] := by
  have hc := h.clips
  simp only [clipsFit, hs, Bool.and_eq_true, Bool.true_and, Bool.not_eq_true'] at hc
  intro he
  rw [he] at hc
  exact absurd hc.1.1.2 (by decide)

theorem editing (h : CutOk s) : ∀ i ∈ s.editingIndex, i < s.clips.length := by
  have hc := h.clips
  simp only [clipsFit, Bool.and_eq_true, Option.all_eq_true, decide_eq_true_eq] at hc
  exact fun i hi => hc.1.1.1 i hi

theorem range_check (h : CutOk s) : (!s.stage.clipped ||
    s.start.any fun x => s.stop.any fun y => decide (x < y)) = true := by
  cases hs : s.stage.clipped with
  | false => rfl
  | true =>
      obtain ⟨c, clips, hc⟩ := List.exists_cons_of_ne_nil (h.clips_ne hs)
      obtain ⟨hstart, hstop⟩ := h.mirror hs
      rw [hstart, hstop, hc]
      simpa using c.start_lt_end

/-- **Constraints.** The row of a session passes every `CHECK`. -/
theorem check (h : CutOk s) : cutSchema.check (cutRow s) = true := by
  have hpos := h.target.message_pos
  have hmax : s.lastMessageId.toInt ≤ i32Max := by
    have := s.lastMessageId.toInt_lt
    simp only [i32Max]
    omega
  have hm := h.messages
  have hselected : (s.stage == .quality && s.selected.isNone ||
      s.stage != .quality && (s.selected.isNone ||
        (s.stage == .confirming || s.stage == .submitted))) = true := by
    cases hsel : s.selected with
    | none => cases s.stage <;> rfl
    | some c =>
        rcases (h.selected c hsel).2.2 with hs | hs <;> rw [hs] <;> rfl
  show (cutRow s).checks.all id = true
  simp only [CutRow.checks, cutRow, List.all_cons, List.all_nil, id, Bool.and_true,
    Bool.and_eq_true]
  refine ⟨h.target.scope_check, decide_eq_true h.revision, ?_, ?_, ?_, ?_, ?_, rfl, ?_, ?_,
    ?_, ?_, ?_, ?_, ?_, ?_⟩
  · cases s.stage <;> decide
  · exact ⟨decide_eq_true (by omega), decide_eq_true (by omega)⟩
  · exact ⟨decide_eq_true hm, decide_eq_true hmax⟩
  · cases s.original <;> rfl
  · cases s.linkedQualityId <;> simp
  · cases hi : s.editingIndex with
    | none => rfl
    | some i =>
        have hlt := h.editing i hi
        have hle := h.clips_le
        simp only [Option.map_some, Option.all_some, Bool.and_eq_true, decide_eq_true_eq]
        exact ⟨Int.natCast_nonneg i, by simp only [Int.ofNat_eq_natCast]; omega⟩
  · rw [h.url, Bool.or_true]
  · simpa [Option.all_eq_true] using h.begin_nonneg
  · simpa [Option.all_eq_true] using h.start_nonneg
  · rw [CutStage.contains_clipped]
    exact h.range_check
  · have hq := CutStage.asStr_beq s.stage .quality
    have hcs : ["confirming", "submitted"].contains s.stage.asStr =
        (s.stage == .confirming || s.stage == .submitted) := by
      cases s.stage <;> decide
    change (s.stage.asStr == "quality") = _ at hq
    rw [hcs, Option.isNone_map, bne, hq]
    exact hselected
  · cases hsel : s.selected with
    | none => rfl
    | some c =>
        obtain ⟨hl, ha, -⟩ := h.selected c hsel
        exact QualityChoice.contains_video hl ha
  · have hq := CutStage.asStr_beq s.stage .submitted
    change (s.stage.asStr == "submitted") = _ at hq
    rw [hq, h.operation]
    simp

end CutOk

/-- A session whose numbers survive in the text of its clips. -/
structure CutReadable (s : CutSession) : Prop extends CutOk s where
  stable : ∀ c ∈ s.clips, Codec.ClipStable c

/-- **Reading back.** The row of a session is decoded to the session. -/
theorem CutReadable.decode {s : CutSession} (h : CutReadable s) :
    decodeCut (cutRow s) = .ok s := by
  have hsel : (cutRow s).selected.mapM QualityChoice.parse = .ok s.selected :=
    mapM_parse fun c hc => (h.selected c hc).1
  have haudio : (s.selected != some .audio) = true := by
    rw [bne_iff_ne]
    exact fun he => (h.selected .audio he).2.1 rfl
  have horig : (cutRow s).originalRequest.mapM Codec.decode = .ok s.original := by
    cases ho : s.original with
    | none => simp [cutRow, ho]; rfl
    | some r =>
        show ((s.original.map Codec.encode).mapM Codec.decode) = _
        rw [ho]
        show (Codec.decode (Codec.encode r)).map some = _
        rw [(h.original r ho).2]
        rfl
  have hfits : s.original.all (originalFits (cutRow s)) = true := by
    rw [Option.all_eq_true]
    exact fun r hr => (h.original r hr).1
  have hindex : (cutRow s).editingIndex.mapM decodeIndex = .ok s.editingIndex := by
    cases hi : s.editingIndex with
    | none => simp [cutRow, hi]; rfl
    | some i =>
        show (s.editingIndex.map Int.ofNat).mapM decodeIndex = _
        rw [hi]
        rfl
  have hactor : UInt64.ofNat s.actorId.toNat = s.actorId := UInt64.ofNat_toNat
  unfold decodeCut
  rw [show (cutRow s).scope.botId = s.target.botId from rfl,
    show (cutRow s).scope.chatId = s.target.chatId from rfl,
    show (cutRow s).originMessageId = s.originMessageId from rfl, h.target.new_eq, hsel,
    show (cutRow s).stage = s.stage.asStr from rfl, CutStage.parse_asStr, horig, hindex,
    show (cutRow s).clips = encodeClips s.clips from rfl, decodeClips_encode h.stable h.clips_le]
  simp only [bind, Except.bind, mapError, haudio, expect, hfits, h.clips, if_true,
    show (cutRow s).linkedQualityId = s.linkedQualityId from rfl, h.linked, Bool.not_false]
  simp only [pure, Except.pure, cutRow, dialogScope, hactor]

/-! ## Quality sessions -/

/-- What every stored quality session satisfies. -/
structure QualityOk (actor : UInt64) (s : QualitySession) : Prop where
  target : DialogTarget actor s.target s.originMessageId
  draft : draftFits actor.toNat s.target.botId s.target.chatId s.originMessageId s.request = true
  revision : s.revision = s.stage.expectedRevision
  messages : s.originMessageId.toInt ≤ s.lastMessageId.toInt
  selects : s.stage.confirmed = s.selected.isSome
  selected : ∀ c ∈ s.selected, c.listed = true
  operation : (s.stage == .submitted) = s.operationId.isSome
  cutting : (s.stage == .cutting) = s.cutSessionId.isSome

namespace QualityOk

variable {actor : UInt64} {s : QualitySession}

/-- **Constraints.** The row of a session passes every `CHECK`. -/
theorem check (h : QualityOk actor s) : qualitySchema.check (qualityRow actor s) = true := by
  have hpos := h.target.message_pos
  have hmax : s.lastMessageId.toInt ≤ i32Max := by
    have := s.lastMessageId.toInt_lt
    simp only [i32Max]
    omega
  have hm := h.messages
  have hrev : 0 < s.revision := by
    rw [h.revision]
    cases s.stage <;> decide
  have hsubmitted : (s.stage.text == "submitted") = s.operationId.isSome := by
    rw [← h.operation]
    exact QualityStage.text_beq s.stage .submitted
  have hcutting : (s.stage.text == "cutting") = s.cutSessionId.isSome := by
    rw [← h.cutting]
    exact QualityStage.text_beq s.stage .cutting
  show (qualityRow actor s).checks.all id = true
  simp only [QualityRow.checks, qualityRow, List.all_cons, List.all_nil, id, Bool.and_true,
    Bool.and_eq_true]
  refine ⟨h.target.scope_check, decide_eq_true hrev, ?_, ?_, ?_, ?_, ?_, ?_, ?_, ?_, ?_, ?_⟩
  · cases s.stage <;> decide
  · exact ⟨decide_eq_true (by omega), decide_eq_true (by omega)⟩
  · exact ⟨decide_eq_true hm, decide_eq_true hmax⟩
  · have hsel := h.selects
    rw [QualityStage.contains_selects, Option.isSome_map, Option.isNone_map, ← hsel]
    cases hs : s.stage <;> simp_all [QualityStage.confirmed, QualityStage.text]
  · rw [hsubmitted]
    simp
  · cases hsel : s.selected with
    | none => rfl
    | some c => exact QualityChoice.contains_asStr (h.selected c hsel)
  · simp
  · show ((s.stage.text == "choosing" && decide (s.revision = 1)) ||
      (["confirming", "cancelled", "cutting"].contains s.stage.text &&
        decide (2 ≤ s.revision)) ||
      (s.stage.text == "submitted" && decide (s.revision = 3))) = true
    rw [h.revision]
    cases s.stage <;> decide
  · rw [hcutting]
    simp
  · cases s.cutSessionId <;> simp

end QualityOk

/-- A session whose draft is read back as it is. -/
structure QualityReadable (actor : UInt64) (s : QualitySession) : Prop extends
    QualityOk actor s where
  request : Codec.decode (Codec.encode s.request) = .ok s.request

/-- **Reading back.** The row of a session is decoded to the session. -/
theorem QualityReadable.decode {actor : UInt64} {s : QualitySession}
    (h : QualityReadable actor s) : decodeQuality (qualityRow actor s) = .ok s := by
  have hsel : (qualityRow actor s).selected.mapM QualityChoice.parse = .ok s.selected :=
    mapM_parse h.selected
  have hpos := h.target.message_pos
  have hfits : (decide (0 < (qualityRow actor s).scope.actorId) &&
      draftFits (qualityRow actor s).scope.actorId s.target.botId s.target.chatId
        s.originMessageId s.request) = true := by
    rw [Bool.and_eq_true]
    exact ⟨decide_eq_true h.target.actor_pos, h.draft⟩
  have hfinal : (decide ((qualityRow actor s).revision = s.stage.expectedRevision) &&
      decide (0 < s.originMessageId.toInt) &&
      decide (s.originMessageId.toInt ≤ s.lastMessageId.toInt) &&
      s.stage.confirmed == s.selected.isSome &&
      (s.stage == .submitted) == s.operationId.isSome) = true := by
    rw [h.selects, h.operation]
    simp only [Bool.and_eq_true, beq_self_eq_true, and_true]
    exact ⟨⟨decide_eq_true h.revision, decide_eq_true hpos⟩, decide_eq_true h.messages⟩
  have hcut : ((s.stage == .cutting) == s.cutSessionId.isSome) = true := by
    rw [h.cutting]
    simp
  unfold decodeQuality
  rw [show (qualityRow actor s).scope.botId = s.target.botId from rfl,
    show (qualityRow actor s).scope.chatId = s.target.chatId from rfl,
    show (qualityRow actor s).originMessageId = s.originMessageId from rfl,
    h.target.new_eq, hsel, show (qualityRow actor s).stage = s.stage.text from rfl,
    QualityStage.parse_text, show (qualityRow actor s).request = Codec.encode s.request from rfl,
    h.request, show (qualityRow actor s).linkedCutId = s.cutSessionId from rfl,
    show (qualityRow actor s).operationId = s.operationId from rfl,
    show (qualityRow actor s).lastMessageId = s.lastMessageId from rfl]
  simp only [bind, Except.bind, mapError, expect, hfits, hcut, hfinal, if_true]
  simp only [pure, Except.pure, qualityRow]

end

end YoinkCore.Storage
