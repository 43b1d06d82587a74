import YoinkCore.Storage.CutSessions

/-!
# Stored sessions

Every row of the two tables is the row of a session that can be read back, after any
run of the dialogs. So no operation is refused by a constraint, and none finds a row it
cannot decode.
-/

namespace YoinkCore.Storage

open Lib Domain

section

variable [Platform]

/-! ## Arguments -/

variable {target : DeliveryTarget} {s : QualitySession} {actor : UInt64}
  {request : DownloadRequest} {message : Int32} {fresh : Uuid}

omit [Platform] in
theorem validateScope_eq_ok {u : Unit} :
    validateScope actor target = .ok u ↔
      0 < actor.toNat ∧ actor.toNat ≤ i64Max ∧ 0 < target.chatId.toInt ∧
        target.chatId.toInt = actor.toNat ∧ target.threadId = none := by
  simp [validateScope, and_assoc]

variable {t : DeliveryTarget} {current : Option QualitySession}
  {quality quality' : QualitySession} {start : Option Float} {e : StoreError} {cut : CutSession}
  {db : DialogDb} {botId chatId : Int64}

omit [Platform] in
theorem newTarget_eq_ok
    (h : mapError e (DeliveryTarget.new botId chatId none (some message)) = .ok t) :
    t.botId = botId ∧ t.chatId = chatId ∧ t.threadId = none ∧
      t.replyToMessageId = some message := by
  unfold DeliveryTarget.new at h
  split at h
  · cases h
    exact ⟨rfl, rfl, rfl, rfl⟩
  · cases h

omit [Platform] in
/-- The scope of the new target is the one that was asked about. -/
theorem newTarget_dialog (hpos : 0 < actor.toNat) (hchat : target.chatId.toInt = actor.toNat)
    (h : mapError e (DeliveryTarget.new target.botId target.chatId none (some message)) =
      .ok t) : DialogTarget actor t message ∧ dialogScope actor t = dialogScope actor target := by
  obtain ⟨hb, hc, hthread, hreply⟩ := newTarget_eq_ok h
  exact ⟨⟨hpos, by rw [hc, hchat], hthread, hreply⟩, by rw [dialogScope, dialogScope, hb, hc]⟩

/-! ## New sessions -/

/-- A new cut session starts over; the one before it is over or never was. -/
theorem beginCut_eq_new {url : String} {current : Option CutSession} {s : CutSession}
    (h : beginCut actor target message url start fresh current = .ok (s, some s)) :
    (∀ old, current = some old → old.lastMessageId < message ∧ old.stage ≠ .confirming) ∧
      ∃ t, mapError StoreError.invalidInput
          (DeliveryTarget.new target.botId target.chatId none (some message)) = .ok t ∧
        s = {
          id := fresh, revision := 1, stage := if start.isSome then .stop else .start
          actorId := actor, target := t, originMessageId := message
          lastMessageId := message, start, stop := none, clips := [], editingIndex := none
          operationId := none, selected := none, beginStart := start, url := some url
          original := none, linkedQualityId := none } := by
  unfold beginCut at h
  cases current with
  | none =>
      obtain ⟨t, ht, h⟩ := Tx.result_bind_eq_ok.mp h
      cases h
      exact ⟨by simp, t, ht, rfl⟩
  | some old =>
      dsimp only at h
      split at h
      · split at h <;> cases h
      rename_i hm
      split at h
      · cases h
      rename_i hs
      obtain ⟨t, ht, h⟩ := Tx.result_bind_eq_ok.mp h
      cases h
      refine ⟨?_, t, ht, rfl⟩
      rintro _ ⟨⟩
      exact ⟨Int32.not_le.mp hm, hs⟩

theorem beginQuality_eq_new
    (h : beginQuality target message request fresh current = .ok (s, some s)) :
    (∀ old, current = some old → old.lastMessageId < message ∧ old.stage ≠ .confirming) ∧
      ∃ t, mapError StoreError.invalidInput
          (DeliveryTarget.new target.botId target.chatId none (some message)) = .ok t ∧
        s = {
          id := fresh, revision := 1, stage := .choosing, target := t
          originMessageId := message, selected := none, operationId := none
          cutSessionId := none, request, lastMessageId := message } := by
  unfold beginQuality at h
  cases current with
  | none =>
      obtain ⟨t, ht, h⟩ := Tx.result_bind_eq_ok.mp h
      cases h
      exact ⟨by simp, t, ht, rfl⟩
  | some old =>
      dsimp only at h
      split at h
      · split at h <;> cases h
      rename_i hm
      split at h
      · cases h
      rename_i hs
      obtain ⟨t, ht, h⟩ := Tx.result_bind_eq_ok.mp h
      cases h
      refine ⟨?_, t, ht, rfl⟩
      rintro _ ⟨⟩
      exact ⟨Int32.not_le.mp hm, hs⟩

theorem CutOk.begun {url : String} {current : Option CutSession} {s : CutSession}
    (hc : checkCutBegin actor target message url start = .ok ())
    (h : beginCut actor target message url start fresh current = .ok (s, some s)) :
    CutOk s ∧ dialogScope s.actorId s.target = dialogScope actor target := by
  simp only [checkCutBegin, Tx.result_bind_eq_ok, expect_eq_ok, validateScope_eq_ok,
    Option.all_eq_true, validTime, Bool.and_eq_true, decide_eq_true_eq] at hc
  obtain ⟨_, ⟨hpos, -, -, hchat, -⟩, _, -, _, -, _, -, hstart⟩ := hc
  obtain ⟨-, t, ht, rfl⟩ := beginCut_eq_new h
  obtain ⟨htarget, hscope⟩ := newTarget_dialog hpos hchat ht
  refine ⟨?_, hscope⟩
  exact {
    target := htarget
    revision := by
      show (0 : Int) < 1
      decide
    messages := Int.le_refl _
    url := rfl
    begin_nonneg := fun x hx => (hstart x hx).2
    start_nonneg := fun x hx => (hstart x hx).2
    mirror := fun hm => by cases start <;> cases hm
    ending := fun he => by
      cases start with
      | none => cases he
      | some x => rfl
    clips_le := Nat.zero_le _
    clips := by cases start <;> rfl
    selected := by simp
    operation := by cases start <;> rfl
    original := by simp
    linked := by simp }

/-- A draft leaves the height open, so it is stored as it is. -/
theorem readable_of_draft (hu : StableUrls) (hclips : Codec.ClipsStable request)
    (h : isQualityDraft request = true) : Codec.decode (Codec.encode request) = .ok request := by
  refine Codec.decode_encode hu ⟨hclips.1, hclips.2, fun o ho => ?_⟩
  simp only [isQualityDraft, Bool.and_eq_true, Option.all_eq_true,
    Option.isNone_iff_eq_none] at h
  have hheight := (h.2 o ho).1.1.1
  rw [Codec.overrideHeightOk, hheight]
  rfl

theorem draftFits_eq_true {actor : Nat} :
    draftFits actor botId chatId message request = true ↔
      request.actorId.toNat = actor ∧ Text.byteLen request.sourceUrl.asStr.toList ≤ 4096 ∧
        request.mediaMode = .video ∧ isQualityDraft request = true ∧ request.network = .none ∧
        request.target.any (answers · botId chatId message) = true := by
  simp only [draftFits, Bool.and_eq_true, decide_eq_true_eq, beq_iff_eq, and_assoc]

theorem QualityOk.begun (hc : checkQualityBegin actor target message request = .ok ())
    (h : beginQuality target message request fresh current = .ok (s, some s)) :
    QualityOk actor s ∧ dialogScope actor s.target = dialogScope actor target := by
  simp only [checkQualityBegin, Tx.result_bind_eq_ok, expect_eq_ok, validateScope_eq_ok,
    Bool.and_eq_true] at hc
  obtain ⟨_, ⟨hpos, -, -, hchat, -⟩, -, hdraft⟩ := hc
  obtain ⟨-, t, ht, rfl⟩ := beginQuality_eq_new h
  obtain ⟨htarget, hscope⟩ := newTarget_dialog hpos hchat ht
  obtain ⟨hb, hch, -, -⟩ := newTarget_eq_ok ht
  refine ⟨?_, hscope⟩
  exact {
    target := htarget
    draft := by
      show draftFits actor.toNat t.botId t.chatId message request = true
      rw [hb, hch]
      exact hdraft
    revision := rfl
    messages := Int.le_refl _
    selects := rfl
    selected := by simp
    operation := rfl
    cutting := rfl }

/-- A draft with exact clips is read back. -/
theorem QualityOk.readable (hu : StableUrls) (h : QualityOk actor s)
    (hclips : Codec.ClipsStable s.request) : QualityReadable actor s :=
  ⟨h, readable_of_draft hu hclips (draftFits_eq_true.mp h.draft).2.2.2.1⟩

/-- A draft that is read back has exact clips. -/
theorem QualityReadable.clipsStable (h : QualityReadable actor s) : Codec.ClipsStable s.request :=
  let storable := Codec.storable_of_decode h.request rfl rfl
  ⟨storable.clip, storable.clips⟩

/-- **Every change** of a quality session that can be stored leaves one that can. -/
theorem QualityOk.change {s' : QualitySession} (h : QualityOk actor s) (c : QualityChange s s') :
    QualityOk actor s' := by
  have hrev := h.revision
  cases c with
  | claim listed hc =>
      obtain ⟨hs, rfl⟩ := claimQuality_eq_ok hc
      have ho := h.operation
      have hcut := h.cutting
      rw [hs] at hrev ho hcut
      exact {
        target := h.target, draft := h.draft
        revision := by
          show s.revision + 1 = 2
          rw [hrev]
          rfl
        messages := h.messages, selects := rfl
        selected := fun c hc => Option.some.inj hc ▸ listed
        operation := ho, cutting := hcut }
  | cancel hc =>
      obtain ⟨hs, rfl⟩ := cancelQuality_eq_ok hc
      have ho := h.operation
      have hcut := h.cutting
      have hsel := h.selects
      rw [hs] at hrev ho hcut hsel
      exact {
        target := h.target, draft := h.draft
        revision := by
          show s.revision + 1 = 2
          rw [hrev]
          rfl
        messages := h.messages, selects := hsel, selected := h.selected
        operation := ho, cutting := hcut }
  | submit hc =>
      obtain ⟨hs, rfl⟩ := submitQuality_eq_ok hc
      have hcut := h.cutting
      have hsel := h.selects
      rw [hs] at hrev hcut hsel
      exact {
        target := h.target, draft := h.draft
        revision := by
          show s.revision + 1 = 3
          rw [hrev]
          rfl
        messages := h.messages, selects := hsel, selected := h.selected
        operation := rfl, cutting := hcut }

/-! ## The hand-off -/

/-- What a hand-off leaves: the draft is cut, and a new cut session takes it over. -/
theorem handOff_eq_ok {revision : Int}
    (h : handOff db actor target revision fresh quality = .ok (cut, quality')) :
    quality.stage = .choosing ∧ quality.request.params.playlist = none ∧
      quality.request.params.clips = [] ∧
      (∃ active, currentCut db actor target = .ok active ∧
        ∀ c ∈ active, handOffAllowed quality c = true) ∧
      ∃ t, mapError StoreError.invalidInput (DeliveryTarget.new target.botId target.chatId none
          (some quality.originMessageId)) = .ok t ∧
        cut = handedOff actor quality t fresh ∧
        quality' = { quality with
          stage := .cutting, revision := quality.revision + 1, cutSessionId := some fresh } := by
  simp only [handOff, Tx.result_bind_eq_ok, expect_eq_ok, nextRevision_eq_ok,
    Bool.and_eq_true, beq_iff_eq, Option.isNone_iff_eq_none, List.isEmpty_iff,
    Option.all_eq_true] at h
  obtain ⟨_, ⟨hs, -⟩, _, ⟨hp, hc⟩, active, hactive, _, hall, t, ht, _, ⟨-, rfl⟩, h⟩ := h
  cases h
  exact ⟨hs, hp, hc, ⟨active, hactive, hall⟩, t, ht, rfl, rfl⟩

omit [Platform] in
theorem answers_eq_true :
    answers t botId chatId message = true ↔ t.botId = botId ∧ t.chatId = chatId ∧
      t.threadId = none ∧ t.replyToMessageId = some message := by
  simp [answers, and_assoc]

/-- Both sessions of a hand-off can be stored. -/
theorem QualityReadable.handedOff {revision : Int} (hq : QualityReadable actor quality)
    (hscope : dialogScope actor quality.target = dialogScope actor target)
    (h : handOff db actor target revision fresh quality = .ok (cut, quality')) :
    CutOk cut ∧ QualityReadable actor quality' ∧
      dialogScope cut.actorId cut.target = dialogScope actor target := by
  obtain ⟨hs, hplaylist, hclips, -, t, ht, rfl, rfl⟩ := handOff_eq_ok h
  simp only [dialogScope, DialogScope.mk.injEq, true_and] at hscope
  obtain ⟨hbot, hchat⟩ := hscope
  have hpos := hq.target.actor_pos
  obtain ⟨htarget, hscope'⟩ := newTarget_dialog hpos (hchat ▸ hq.target.chat) ht
  obtain ⟨hb, hc, -, -⟩ := newTarget_eq_ok ht
  obtain ⟨hactor, -, hmode, -, hnet, htar⟩ := draftFits_eq_true.mp hq.draft
  have hsel : quality.selected.isSome = false := by rw [← hq.selects, hs]; rfl
  have hop : quality.operationId.isSome = false := by rw [← hq.operation, hs]; rfl
  refine ⟨?_, ?_, hscope'⟩
  · exact {
      target := htarget
      revision := by
        show (0 : Int) < 1
        decide
      messages := Int.le_refl _
      url := rfl
      begin_nonneg := fun x hx => by
        obtain ⟨c, -, rfl⟩ := Option.map_eq_some_iff.mp hx
        exact c.start_nonneg
      start_nonneg := fun x hx => by
        obtain ⟨c, -, rfl⟩ := Option.map_eq_some_iff.mp hx
        exact c.start_nonneg
      mirror := fun hm => by
        cases hr : quality.request.clipRange with
        | none => simp [Storage.handedOff, hr, CutStage.clipped] at hm
        | some c => simp [Storage.handedOff, hr]
      ending := fun he => by
        cases hr : quality.request.clipRange <;> simp [Storage.handedOff, hr] at he
      clips_le := by
        cases hr : quality.request.clipRange <;> simp [Storage.handedOff, hr]
      clips := by
        cases hr : quality.request.clipRange <;>
          simp [Storage.handedOff, hr, clipsFit, CutStage.clipped]
      selected := by simp [Storage.handedOff]
      operation := by
        cases hr : quality.request.clipRange <;> simp [Storage.handedOff, hr]
      original := by
        rintro r ⟨⟩
        refine ⟨?_, hq.request⟩
        obtain ⟨t', ht', ha⟩ := (Option.any_eq_true _ _).mp htar
        obtain ⟨hb', hc', hthread, hreply⟩ := answers_eq_true.mp ha
        simp only [originalFits, Bool.and_eq_true, beq_iff_eq, decide_eq_true_eq,
          Option.isNone_iff_eq_none, List.isEmpty_iff]
        refine ⟨⟨⟨⟨⟨⟨⟨?_, hactor⟩, hmode⟩, hnet⟩, hplaylist⟩, hclips⟩, rfl⟩, rfl⟩
        rw [Option.any_eq_true]
        refine ⟨t', ht', answers_eq_true.mpr ⟨?_, ?_, hthread, hreply⟩⟩
        · exact hb'.trans (hbot.trans hb.symm)
        · exact hc'.trans (hchat.trans hc.symm)
      linked := by
        show (true && false && _) = false
        rfl }
  · have hrev := hq.revision
    rw [hs] at hrev
    exact {
      target := hq.target, draft := hq.draft, request := hq.request
      revision := by
        show quality.revision + 1 = 2
        rw [hrev]
        rfl
      messages := hq.messages
      selects := hsel.symm
      selected := hq.selected
      operation := hop.symm
      cutting := rfl }

/-! ## The invariant -/

/-- Every row of the dialogs is the row of a session that can be read back. -/
structure DialogOk (db : DialogDb) : Prop where
  cuts : ∀ row ∈ db.cuts.rows, ∃ s, CutReadable s ∧ row = cutRow s
  quality : ∀ row ∈ db.quality.rows, ∃ actor s, QualityReadable actor s ∧
    row = qualityRow actor s

namespace DialogOk

variable {db db' : DialogDb} {actor : UInt64} {target : DeliveryTarget}

/-- What a scope holds is decoded. -/
theorem currentCut (h : DialogOk db) (actor : UInt64) (target : DeliveryTarget) :
    (∃ s, Storage.currentCut db actor target = .ok (some s) ∧ CutReadable s ∧
        cutGet db actor target = some (cutRow s) ∧
        dialogScope s.actorId s.target = dialogScope actor target) ∨
      Storage.currentCut db actor target = .ok none ∧ cutGet db actor target = none := by
  unfold Storage.currentCut
  cases hg : cutGet db actor target with
  | none => exact .inr ⟨rfl, rfl⟩
  | some row =>
      obtain ⟨s, hs, rfl⟩ := h.cuts row (Table.mem_of_find hg)
      have hscope : (cutRow s).scope = dialogScope actor target := Table.key_of_find hg
      refine .inl ⟨s, ?_, hs, rfl, hscope⟩
      show (decodeCut (cutRow s)).map some = _
      rw [hs.decode]
      rfl

theorem currentQualitySession (h : DialogOk db) (actor : UInt64) (target : DeliveryTarget) :
    (∃ s, Storage.currentQualitySession db actor target = .ok (some s) ∧ QualityReadable actor s ∧
        qualityGetForTarget db actor target = some (qualityRow actor s) ∧
        dialogScope actor s.target = dialogScope actor target) ∨
      Storage.currentQualitySession db actor target = .ok none ∧
        qualityGetForTarget db actor target = none := by
  unfold Storage.currentQualitySession
  cases hg : qualityGetForTarget db actor target with
  | none => exact .inr ⟨rfl, rfl⟩
  | some row =>
      obtain ⟨actor', s, hs, rfl⟩ := h.quality row (Table.mem_of_find hg)
      have hkey : (qualityRow actor' s).scope = dialogScope actor target :=
        Table.key_of_find hg
      have hscope : dialogScope actor' s.target = dialogScope actor target := hkey
      obtain rfl : actor' = actor := by
        simp only [dialogScope, DialogScope.mk.injEq] at hscope
        exact UInt64.toNat_inj.mp hscope.1
      refine .inl ⟨s, ?_, hs, rfl, hscope⟩
      show (decodeQuality (qualityRow actor' s)).map some = _
      rw [hs.decode]
      rfl

theorem cutOk_of_current (h : DialogOk db) {s : CutSession}
    (hc : Storage.currentCut db actor target = .ok (some s)) :
    CutReadable s ∧ cutGet db actor target = some (cutRow s) ∧
      dialogScope s.actorId s.target = dialogScope actor target := by
  rcases h.currentCut actor target with ⟨s', hs', hok, hg, hscope⟩ | ⟨hn, -⟩
  · rw [hc] at hs'
    cases hs'
    exact ⟨hok, hg, hscope⟩
  · rw [hc] at hn
    cases hn

theorem qualityOk_of_current (h : DialogOk db)
    (hc : Storage.currentQualitySession db actor target = .ok (some s)) :
    QualityReadable actor s ∧ qualityGetForTarget db actor target = some (qualityRow actor s) ∧
      dialogScope actor s.target = dialogScope actor target := by
  rcases h.currentQualitySession actor target with ⟨s', hs', hok, hg, hscope⟩ | ⟨hn, -⟩
  · rw [hc] at hs'
    cases hs'
    exact ⟨hok, hg, hscope⟩
  · rw [hc] at hn
    cases hn

theorem of_fresh (h : db.Fresh) : DialogOk db := by
  obtain ⟨hq, hc, -⟩ := h
  exact ⟨by simp [hc], by simp [hq]⟩

theorem of_same (h : DialogOk db) (hq : db'.quality = db.quality) (hc : db'.cuts = db.cuts) :
    DialogOk db' :=
  ⟨hc ▸ h.cuts, hq ▸ h.quality⟩

theorem cutSaved (h : DialogOk db) {s : CutSession} (hs : CutReadable s)
    (hsaved : CutSaved s db db') : DialogOk db' := by
  refine ⟨fun row hrow => ?_, hsaved.quality ▸ h.quality⟩
  rcases hsaved.mem.mp hrow with rfl | ⟨hmem, -⟩
  · exact ⟨s, hs, rfl⟩
  · exact h.cuts row hmem

theorem qualitySaved (h : DialogOk db) (hs : QualityReadable actor s)
    (hsaved : QualitySaved actor s db db') : DialogOk db' := by
  refine ⟨hsaved.cuts ▸ h.cuts, fun row hrow => ?_⟩
  rcases hsaved.mem.mp hrow with rfl | ⟨hmem, -⟩
  · exact ⟨actor, s, hs, rfl⟩
  · exact h.quality row hmem

/-- **Every call** that replies exact clips keeps the rows readable. -/
theorem effect (hu : StableUrls) (h : DialogOk db) {op : DialogOp} {reply : DialogReply}
    (hexact : reply.Exact) (he : DialogEffect db fresh op reply db') : DialogOk db' := by
  cases he with
  | read => exact h
  | cutBegun checks found begun saved =>
      exact h.cutSaved ⟨(CutOk.begun checks begun).1, hexact⟩ (cutPut_saved saved)
  | cutChanged found change saved =>
      exact h.cutSaved ⟨(h.cutOk_of_current found).1.change change, hexact⟩ (cutPut_saved saved)
  | qualityBegun checks found begun saved =>
      obtain ⟨db₁, hput, -, hc, hq, -⟩ := putWithOriginal_saved saved
      exact (h.qualitySaved ((QualityOk.begun checks begun).1.readable hu hexact) hput).of_same
        hq hc
  | qualityChanged found change saved =>
      exact h.qualitySaved
        (((h.qualityOk_of_current found).1.change change).readable hu hexact)
        (qualityPut_saved saved)
  | handedOff found handed saved =>
      obtain ⟨_, db₁, hput, hcut⟩ := Tx.bind_eq_ok.mp saved
      obtain ⟨hq, -, hscope⟩ := h.qualityOk_of_current found
      obtain ⟨hcutOk, hqOk, -⟩ := hq.handedOff hscope handed
      exact (h.qualitySaved hqOk (qualityPut_saved hput)).cutSaved ⟨hcutOk, hexact⟩
        (cutPut_saved hcut)

theorem step (hu : StableUrls) {s t : DialogState} {e : DialogEvent} (h : DialogOk s.db)
    (hstep : ExactStep s e t) : DialogOk t.db := by
  obtain ⟨hstep, hexact⟩ := hstep
  cases hstep with
  | call new result issued =>
      rename_i reply
      cases reply with
      | error e => exact DialogOp.run_error_state result ▸ h
      | ok reply => exact h.effect hu hexact (DialogOp.run_effect result)
  | other quality cuts intents issued => exact h.of_same quality cuts

/-- **Every exact run** leaves the rows of the dialogs readable. -/
theorem reaches (hu : StableUrls) {s t : DialogState} {es : List DialogEvent}
    (h : ExactReaches s es t) : DialogOk t.db :=
  h.2.invariant (I := fun s => DialogOk s.db) (fun hs hstep => hs.step hu hstep) (.of_fresh h.1)

end DialogOk

end

end YoinkCore.Storage
