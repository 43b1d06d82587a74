import YoinkCore.Storage.Originals

/-!
# Confirmed dialogs

A confirmation freezes a dialog: all that follows is its submission. A scope that held a
confirmed dialog holds it from then on, with what it was confirmed with, or a dialog that
was begun by a later message. The identifier of a dialog never leaves its scope.
-/

namespace YoinkCore.Storage

open Lib Domain

section

variable [Platform]

/-! ## What a scope holds -/

/-- The cut session of a scope, if there is one that can be read. -/
def heldCut (db : DialogDb) (actor : UInt64) (target : DeliveryTarget) : Option CutSession :=
  match currentCut db actor target with
  | .ok held => held
  | .error _ => none

def heldQuality (db : DialogDb) (actor : UInt64) (target : DeliveryTarget) :
    Option QualitySession :=
  match currentQualitySession db actor target with
  | .ok held => held
  | .error _ => none

variable {target target' : DeliveryTarget} {s t : DialogState} {db db' : DialogDb}
  {actor actor' : UInt64} {a : QualitySession} {e : DialogEvent}

theorem heldCut_eq_some {s : CutSession} :
    heldCut db actor target = some s ↔ currentCut db actor target = .ok (some s) := by
  unfold heldCut
  split
  · rename_i h
    rw [h, Except.ok.injEq]
  · rename_i h
    simp [h]

theorem heldQuality_eq_some {s : QualitySession} : heldQuality db actor target = some s ↔
      currentQualitySession db actor target = .ok (some s) := by
  unfold heldQuality
  split
  · rename_i h
    rw [h, Except.ok.injEq]
  · rename_i h
    simp [h]

theorem heldCut_of_cuts (h : db'.cuts = db.cuts) (actor : UInt64) (target : DeliveryTarget) :
    heldCut db' actor target = heldCut db actor target := by
  rw [heldCut, heldCut, currentCut, currentCut, cutGet, cutGet, h]

theorem heldQuality_of_quality (h : db'.quality = db.quality) (actor : UInt64)
    (target : DeliveryTarget) : heldQuality db' actor target = heldQuality db actor target := by
  rw [heldQuality, heldQuality, currentQualitySession, currentQualitySession,
    qualityGetForTarget, qualityGetForTarget, h]

/-- Only the scope counts. -/
theorem currentCut_of_scope (h : dialogScope actor target = dialogScope actor' target') :
    currentCut db actor target = currentCut db actor' target' := by
  rw [currentCut, currentCut, cutGet, cutGet, h]

theorem currentQualitySession_of_scope (h : dialogScope actor target = dialogScope actor' target') :
    currentQualitySession db actor target = currentQualitySession db actor' target' := by
  rw [currentQualitySession, currentQualitySession, qualityGetForTarget, qualityGetForTarget, h]

/-- A cut session that was read is saved again in its scope. -/
theorem currentCut_scope {s : CutSession} (h : currentCut db actor target = .ok (some s)) :
    dialogScope s.actorId s.target = dialogScope actor target := by
  obtain ⟨row, hget, hdecode⟩ := currentCut_eq_some h
  obtain ⟨-, hb, hc, ha, -, -⟩ := decodeCut_eq_ok hdecode
  have hscope : row.scope = dialogScope actor target := Table.key_of_find hget
  rw [hscope] at ha hb hc
  have hactor : s.actorId = actor := ha.trans UInt64.ofNat_toNat
  rw [dialogScope, hactor, hb, hc]
  rfl

/-! ## Identifiers of cuts -/

/-- Every cut dialog has an identifier that was drawn for it. -/
def CutIssued (s : DialogState) : Prop :=
  ∀ row ∈ s.db.cuts.rows, row.id ∈ s.issued

/-- Saving a session of a new identifier, or one that was read. -/
theorem CutSaved.comes {s : CutSession} (h : CutSaved s db db') {issued : Uuid → Prop}
    (hissued : ∀ row ∈ db.cuts.rows, issued row.id)
    (hs : ¬ issued s.id ∨ ∃ old ∈ db.cuts.rows, old.id = s.id ∧
      old.scope = dialogScope s.actorId s.target) :
    Comes CutRow.id CutRow.scope issued db.cuts.rows db'.cuts.rows := by
  intro row hrow
  rcases h.mem.mp hrow with rfl | ⟨hold, -⟩
  · rcases hs with hnew | ⟨old, hold, hid, hscope⟩
    · refine .inr ⟨hnew, fun other hother hother' => ?_⟩
      rcases h.mem.mp hother with rfl | ⟨hold, -⟩
      · rfl
      · exact absurd (hissued other hold) hother'
    · exact .inl ⟨old, hold, hid, hscope⟩
  · exact .inl ⟨row, hold, rfl, rfl⟩

/-- **Rows of cuts.** What a call saves has a new identifier, or was read. -/
theorem DialogEffect.cut_comes {fresh : Uuid} {op : DialogOp} {reply : DialogReply}
    (h : DialogEffect db fresh op reply db') {issued : Uuid → Prop}
    (hissued : ∀ row ∈ db.cuts.rows, issued row.id) (hfresh : ¬ issued fresh) :
    Comes CutRow.id CutRow.scope issued db.cuts.rows db'.cuts.rows ∧
      ∀ row ∈ db'.cuts.rows, row.id = fresh ∨ issued row.id := by
  have hsame : ∀ {db' : DialogDb}, db'.cuts = db.cuts →
      Comes CutRow.id CutRow.scope issued db.cuts.rows db'.cuts.rows ∧
        ∀ row ∈ db'.cuts.rows, row.id = fresh ∨ issued row.id := by
    intro db' hc
    rw [hc]
    exact ⟨fun row hrow => .inl ⟨row, hrow, rfl, rfl⟩, fun row hrow => .inr (hissued row hrow)⟩
  cases h with
  | read => exact hsame rfl
  | cutBegun checks found begun saved =>
      obtain ⟨-, t, -, rfl⟩ := beginCut_eq_new begun
      have hsaved := cutPut_saved saved
      refine ⟨hsaved.comes hissued (.inl hfresh), fun row hrow => ?_⟩
      rcases hsaved.mem.mp hrow with rfl | ⟨hold, -⟩
      · exact .inl rfl
      · exact .inr (hissued row hold)
  | cutChanged found change saved =>
      have hsaved := cutPut_saved saved
      obtain ⟨old, hget, hdecode⟩ := currentCut_eq_some found
      obtain ⟨hkept, -⟩ := change.keeps
      have hold := Table.mem_of_find hget
      have hid := (decodeCut_eq_ok hdecode).1
      refine ⟨hsaved.comes hissued (.inr ⟨old, hold, ?_, ?_⟩), fun row hrow => ?_⟩
      · rw [hkept.id, hid]
      · rw [hkept.actor, hkept.target, currentCut_scope found]
        exact Table.key_of_find hget
      · rcases hsaved.mem.mp hrow with rfl | ⟨hold', -⟩
        · refine .inr ?_
          show issued (cutRow _).id
          exact (show (cutRow _).id = old.id from hkept.id.trans hid) ▸ hissued old hold
        · exact .inr (hissued row hold')
  | qualityBegun checks found begun saved =>
      obtain ⟨db₁, hput, -, hcuts, -, -⟩ := putWithOriginal_saved saved
      exact hsame (hcuts.trans hput.cuts)
  | qualityChanged found change saved => exact hsame (qualityPut_saved saved).cuts
  | handedOff found handed saved =>
      obtain ⟨_, db₁, hput, hcut⟩ := Tx.bind_eq_ok.mp saved
      obtain ⟨-, -, -, -, t, -, rfl, rfl⟩ := handOff_eq_ok handed
      have hsaved := cutPut_saved hcut
      have hcuts := (qualityPut_saved hput).cuts
      refine ⟨hcuts ▸ hsaved.comes (hcuts ▸ hissued) (.inl hfresh), fun row hrow => ?_⟩
      rcases hsaved.mem.mp hrow with rfl | ⟨hold, -⟩
      · exact .inl rfl
      · exact .inr (hissued row (hcuts ▸ hold))

theorem DialogStep.cut_comes (h : DialogStep s e t) (hissued : CutIssued s) :
    Comes CutRow.id CutRow.scope (· ∈ s.issued) s.db.cuts.rows t.db.cuts.rows ∧
      CutIssued t := by
  have hsame : t.db.cuts = s.db.cuts →
      Comes CutRow.id CutRow.scope (· ∈ s.issued) s.db.cuts.rows t.db.cuts.rows ∧
        CutIssued t := by
    intro hc
    rw [CutIssued, hc]
    exact ⟨fun row hrow => .inl ⟨row, hrow, rfl, rfl⟩,
      fun row hrow => h.issued_subset (hissued row hrow)⟩
  cases h with
  | other quality cuts intents issued => exact hsame cuts
  | call new result issued =>
      rename_i op context fresh reply
      cases reply with
      | error err => exact hsame (congrArg DialogDb.cuts (DialogOp.run_error_state result))
      | ok reply =>
          obtain ⟨hcomes, hids⟩ := (DialogOp.run_effect result).cut_comes hissued new
          refine ⟨hcomes, fun row hrow => ?_⟩
          rw [issued]
          rcases hids row hrow with rfl | hold
          · exact List.mem_cons_self
          · exact List.mem_cons_of_mem _ hold

/-- What holds of the identifiers after a run. -/
structure IdentifiersOk (t : DialogState) : Prop where
  cutIssued : CutIssued t
  cutApart : Apart CutRow.id CutRow.scope t.db.cuts.rows
  qualityIssued : QualityIssued t
  qualityApart : QualityApart t.db

theorem IdentifiersOk.step (hs : IdentifiersOk s) (h : DialogStep s e t) : IdentifiersOk t := by
  obtain ⟨hcomes, hissued⟩ := h.cut_comes hs.cutIssued
  exact ⟨hissued, hs.cutApart.comes hs.cutIssued hcomes, hs.qualityIssued.step h,
    hs.qualityApart.comes hs.qualityIssued (h.quality_comes hs.qualityIssued)⟩

theorem IdentifiersOk.reaches {es : List DialogEvent} (h : DialogReaches s es t) :
    IdentifiersOk t := by
  obtain ⟨hquality, hcuts, -⟩ := h.1
  refine h.2.invariant IdentifiersOk.step ⟨fun row hrow => ?_, fun row hrow => ?_,
    fun row hrow => ?_, fun row hrow => ?_⟩
  · rw [hcuts] at hrow
    cases hrow
  · rw [hcuts] at hrow
    cases hrow
  · rw [hquality] at hrow
    cases hrow
  · rw [hquality] at hrow
    cases hrow

/-! ## Turns of a scope -/

/-- A dialog that takes the place of another was begun by a later message. -/
abbrev CutTurn (s : DialogState) : Option CutSession → Option CutSession → Prop :=
  SlotTurn (fun c => c.id ∉ s.issued) (fun a b => a.originMessageId < b.originMessageId) CutChange

/-- A quality session also changes when its draft is handed to a cut. -/
def QualityMove (s s' : QualitySession) : Prop :=
  QualityChange s s' ∨ s.stage = .choosing ∧ s'.id = s.id ∧
    s'.originMessageId = s.originMessageId

abbrev QualityTurn (s : DialogState) : Option QualitySession → Option QualitySession → Prop :=
  SlotTurn (fun q => q.id ∉ s.issued) (fun a b => a.originMessageId < b.originMessageId)
    QualityMove

/-- The scope of a session that was saved holds it; the others hold what they held. -/
theorem CutSaved.held {s : CutSession} (hs : CutReadable s) (h : CutSaved s db db')
    (actor : UInt64) (target : DeliveryTarget) :
    heldCut db' actor target =
      if dialogScope actor target = dialogScope s.actorId s.target then some s
      else heldCut db actor target := by
  split
  · rename_i hscope
    rw [heldCut_eq_some, currentCut, h.get, if_pos hscope]
    show (decodeCut (cutRow s)).map some = _
    rw [hs.decode]
    rfl
  · rename_i hscope
    rw [heldCut, heldCut, currentCut, currentCut, h.get, if_neg hscope]

theorem QualitySaved.held {s : QualitySession} (hs : QualityReadable actor s)
    (h : QualitySaved actor s db db') (actor' : UInt64) (target : DeliveryTarget) :
    heldQuality db' actor' target =
      if dialogScope actor' target = dialogScope actor s.target then some s
      else heldQuality db actor' target := by
  split
  · rename_i hscope
    rw [heldQuality_eq_some, currentQualitySession, h.get, if_pos hscope]
    show (decodeQuality (qualityRow actor s)).map some = _
    rw [hs.decode]
    rfl
  · rename_i hscope
    rw [heldQuality, heldQuality, currentQualitySession, currentQualitySession, h.get,
      if_neg hscope]

omit [Platform] in
theorem message_lt {a b c : Int32} (hab : a.toInt ≤ b.toInt) (hbc : b < c) : a < c := by
  rw [Int32.lt_iff_toInt_lt] at hbc ⊢
  omega

/-- **Turns of a cut.** -/
theorem DialogEffect.cut_turn {fresh : Uuid} {op : DialogOp} {reply : DialogReply}
    (h : DialogEffect s.db fresh op reply db') (hexact : reply.Exact) (hok : DialogOk s.db)
    (hnew : fresh ∉ s.issued) (actor : UInt64) (target : DeliveryTarget) :
    CutTurn s (heldCut s.db actor target) (heldCut db' actor target) := by
  have hsame : ∀ {db' : DialogDb}, db'.cuts = s.db.cuts →
      CutTurn s (heldCut s.db actor target) (heldCut db' actor target) := by
    intro db' hc
    rw [heldCut_of_cuts hc]
    exact .same _
  cases h with
  | read => exact hsame rfl
  | cutBegun checks found begun saved =>
      obtain ⟨hcut, hscope⟩ := CutOk.begun checks begun
      rw [(cutPut_saved saved).held ⟨hcut, hexact⟩, hscope]
      split
      · rename_i heq
        obtain ⟨hlater, t, -, rfl⟩ := beginCut_eq_new begun
        refine .begun hnew fun old hold => ?_
        rw [heldCut_eq_some, currentCut_of_scope heq] at hold
        rw [found, Except.ok.injEq] at hold
        exact message_lt (hok.cutOk_of_current (found.trans (congrArg _ hold))).1.messages
          (hlater old hold).1
      · exact .same _
  | cutChanged found change saved =>
      obtain ⟨hcut, -, hscope⟩ := hok.cutOk_of_current found
      obtain ⟨hkept, -⟩ := change.keeps
      rw [(cutPut_saved saved).held ⟨hcut.change change, hexact⟩, hkept.actor, hkept.target, hscope]
      split
      · rename_i heq
        rw [heldCut_eq_some.mpr (currentCut_of_scope heq ▸ found)]
        exact .changed change
      · exact .same _
  | qualityBegun checks found begun saved =>
      obtain ⟨db₁, hput, -, hcuts, -, -⟩ := putWithOriginal_saved saved
      exact hsame (hcuts.trans hput.cuts)
  | qualityChanged found change saved => exact hsame (qualityPut_saved saved).cuts
  | handedOff found handed saved =>
      obtain ⟨_, db₁, hput, hcutput⟩ := Tx.bind_eq_ok.mp saved
      obtain ⟨hq, -, hqscope⟩ := hok.qualityOk_of_current found
      obtain ⟨hcut, -, hscope⟩ := hq.handedOff hqscope handed
      have hcuts := (qualityPut_saved hput).cuts
      rw [(cutPut_saved hcutput).held ⟨hcut, hexact⟩, hscope, heldCut_of_cuts hcuts]
      split
      · rename_i heq
        obtain ⟨-, -, -, ⟨active, hactive, hall⟩, t, -, rfl, -⟩ := handOff_eq_ok handed
        refine .begun hnew fun old hold => ?_
        rw [heldCut_eq_some, currentCut_of_scope heq, hactive, Except.ok.injEq] at hold
        have hallowed := hall old hold
        rw [handOffAllowed, Bool.and_eq_true, decide_eq_true_eq] at hallowed
        exact message_lt (hok.cutOk_of_current (hactive.trans (congrArg _ hold))).1.messages
          hallowed.1
      · exact .same _

/-- **Turns of a quality dialog.** -/
theorem DialogEffect.quality_turn (hu : StableUrls) {fresh : Uuid} {op : DialogOp}
    {reply : DialogReply} (h : DialogEffect s.db fresh op reply db') (hexact : reply.Exact)
    (hok : DialogOk s.db) (hnew : fresh ∉ s.issued) (actor : UInt64) (target : DeliveryTarget) :
    QualityTurn s (heldQuality s.db actor target) (heldQuality db' actor target) := by
  have hsame : ∀ {db' : DialogDb}, db'.quality = s.db.quality →
      QualityTurn s (heldQuality s.db actor target) (heldQuality db' actor target) := by
    intro db' hq
    rw [heldQuality_of_quality hq]
    exact .same _
  cases h with
  | read => exact hsame rfl
  | cutBegun checks found begun saved => exact hsame (cutPut_saved saved).quality
  | cutChanged found change saved => exact hsame (cutPut_saved saved).quality
  | qualityBegun checks found begun saved =>
      obtain ⟨db₁, hput, -, -, hquality, -⟩ := putWithOriginal_saved saved
      obtain ⟨hq, hscope⟩ := QualityOk.begun checks begun
      rw [heldQuality_of_quality hquality, hput.held (hq.readable hu hexact), hscope]
      split
      · rename_i heq
        obtain ⟨hlater, t, -, rfl⟩ := beginQuality_eq_new begun
        refine .begun hnew fun old hold => ?_
        rw [heldQuality_eq_some, currentQualitySession_of_scope heq] at hold
        rw [found, Except.ok.injEq] at hold
        exact message_lt (hok.qualityOk_of_current (found.trans (congrArg _ hold))).1.messages
          (hlater old hold).1
      · exact .same _
  | qualityChanged found change saved =>
      obtain ⟨hq, -, hscope⟩ := hok.qualityOk_of_current found
      rw [(qualityPut_saved saved).held ((hq.change change).readable hu hexact), change.keeps.2.1,
        hscope]
      split
      · rename_i heq
        rw [heldQuality_eq_some.mpr (currentQualitySession_of_scope heq ▸ found)]
        exact .changed (.inl change)
      · exact .same _
  | handedOff found handed saved =>
      obtain ⟨_, db₁, hput, hcutput⟩ := Tx.bind_eq_ok.mp saved
      obtain ⟨hq, -, hscope⟩ := hok.qualityOk_of_current found
      obtain ⟨-, hq', -⟩ := hq.handedOff hscope handed
      obtain ⟨hstage, -, -, -, t, -, rfl, rfl⟩ := handOff_eq_ok handed
      rw [heldQuality_of_quality (cutPut_saved hcutput).quality,
        (qualityPut_saved hput).held hq', show dialogScope _ _ = dialogScope _ _ from hscope]
      split
      · rename_i heq
        rw [heldQuality_eq_some.mpr (currentQualitySession_of_scope heq ▸ found)]
        exact .changed (.inr ⟨hstage, rfl, rfl⟩)
      · exact .same _

/-- A step is a turn of every scope. -/
theorem ExactStep.turns (hu : StableUrls) (h : ExactStep s e t) (hok : DialogOk s.db)
    (actor : UInt64) (target : DeliveryTarget) :
    CutTurn s (heldCut s.db actor target) (heldCut t.db actor target) ∧
      QualityTurn s (heldQuality s.db actor target) (heldQuality t.db actor target) := by
  have hsame : t.db.cuts = s.db.cuts → t.db.quality = s.db.quality →
      CutTurn s (heldCut s.db actor target) (heldCut t.db actor target) ∧
        QualityTurn s (heldQuality s.db actor target) (heldQuality t.db actor target) := by
    intro hc hq
    rw [heldCut_of_cuts hc, heldQuality_of_quality hq]
    exact ⟨.same _, .same _⟩
  obtain ⟨hstep, hexact⟩ := h
  cases hstep with
  | other quality cuts intents issued => exact hsame cuts quality
  | call new result issued =>
      rename_i op context fresh reply
      cases reply with
      | error err =>
          rw [DialogOp.run_error_state result]
          exact ⟨.same _, .same _⟩
      | ok reply =>
          have heffect := DialogOp.run_effect result
          exact ⟨heffect.cut_turn hexact hok new actor target,
            heffect.quality_turn hu hexact hok new actor target⟩

/-! ## Confirmed sessions -/

def CutStage.confirmed : CutStage → Bool
  | confirming | submitted => true
  | start | stop | ready | quality | cancelled => false

/-- A session with what another one was confirmed with. -/
structure CutSession.Frozen (a s : CutSession) : Prop where
  stage : s.stage.confirmed = true
  id : s.id = a.id
  message : s.originMessageId = a.originMessageId
  target : s.target = a.target
  clips : s.clips = a.clips
  selected : s.selected = a.selected
  url : s.url = a.url
  original : s.original = a.original
  linked : s.linkedQualityId = a.linkedQualityId

theorem CutSession.Frozen.refl {s : CutSession} (h : s.stage.confirmed = true) : s.Frozen s :=
  ⟨h, rfl, rfl, rfl, rfl, rfl, rfl, rfl, rfl⟩

/-- A confirmed cut is only submitted. -/
theorem CutChange.frozen {a s s' : CutSession} (hs : a.Frozen s) (c : CutChange s s') :
    a.Frozen s' := by
  have hstage := hs.stage
  have impossible : ∀ {P : Prop}, s.stage.confirmed = false → P := by
    intro P h
    rw [h] at hstage
    cases hstage
  have editing : ∀ {P : Prop}, editable s.stage = true → P := by
    intro P h
    rcases editable_iff.mp h with h | h <;> exact impossible (by rw [h]; rfl)
  cases c with
  | input time h =>
      unfold inputCut inputStage at h
      split at h
      · cases h
      · obtain ⟨moved, hmoved, -⟩ := Tx.result_bind_eq_ok.mp h
        split at hmoved
        · rename_i hs
          exact impossible (by rw [hs]; rfl)
        · rename_i hs
          exact impossible (by rw [hs]; rfl)
        · cases hmoved
  | edit h => exact editing (editCut_eq_ok h).1
  | segment place h => exact editing (beginSegment_eq_ok h).1
  | delete h => exact editing (deleteSegment_eq_ok h).1
  | back h => rcases (backCut_eq_ok h).1 with h | h <;> exact impossible (by rw [h]; rfl)
  | cancel h =>
      rcases (cancelCut_eq_ok h).1 with h | h | h
      · exact impossible (by rw [h]; rfl)
      · exact impossible (by rw [h]; rfl)
      · exact editing h
  | claim h =>
      rcases (claimCut_eq_ok h).1 with h | ⟨h, -⟩ <;> exact impossible (by rw [h]; rfl)
  | quality h => exact impossible (by rw [(qualityStageCut_eq_ok h).1]; rfl)
  | choose listed h => exact impossible (by rw [(chooseCut_eq_ok h).1]; rfl)
  | submit h =>
      obtain ⟨-, rfl⟩ := submitCut_eq_ok h
      exact ⟨rfl, hs.id, hs.message, hs.target, hs.clips, hs.selected, hs.url, hs.original,
        hs.linked⟩

/-- A session with what another one was confirmed with. -/
structure QualitySession.Frozen (a s : QualitySession) : Prop where
  stage : s.stage.confirmed = true
  id : s.id = a.id
  message : s.originMessageId = a.originMessageId
  selected : s.selected = a.selected
  request : s.request = a.request

theorem QualitySession.Frozen.refl {s : QualitySession} (h : s.stage.confirmed = true) :
    s.Frozen s := ⟨h, rfl, rfl, rfl, rfl⟩

/-- A change of a quality session keeps the message it was begun with. -/
theorem QualityMove.keeps {s s' : QualitySession} (c : QualityMove s s') :
    s'.id = s.id ∧ s'.originMessageId = s.originMessageId := by
  obtain (c | ⟨-, hid, hmessage⟩) := c
  · exact ⟨c.keeps.1, c.keeps.2.2.2⟩
  · exact ⟨hid, hmessage⟩

/-- A confirmed quality dialog is only submitted. -/
theorem QualityMove.frozen {s s' : QualitySession} (hs : a.Frozen s) (c : QualityMove s s') :
    a.Frozen s' := by
  have hstage := hs.stage
  have impossible : ∀ {P : Prop}, s.stage = .choosing → P := by
    intro P h
    rw [h] at hstage
    cases hstage
  obtain (c | ⟨h, -⟩) := c
  · cases c with
    | claim listed h => exact impossible (claimQuality_eq_ok h).1
    | cancel h => exact impossible (cancelQuality_eq_ok h).1
    | submit h =>
        obtain ⟨-, rfl⟩ := submitQuality_eq_ok h
        exact ⟨rfl, hs.id, hs.message, hs.selected, hs.request⟩
  · exact impossible h

/-! ## Runs -/

/-- A dialog of a scope was confirmed: it is there as it was, or a later one is; and its
identifier is nowhere else. -/
structure CutConfirmed (a : CutSession) (actor : UInt64) (target : DeliveryTarget)
    (t : DialogState) : Prop where
  issued : a.id ∈ t.issued
  housed : Housed CutRow.id CutRow.scope a.id (dialogScope actor target) t.db.cuts.rows
  settled : Settled a.Frozen
    (fun s => s.id ≠ a.id ∧ a.originMessageId < s.originMessageId) (heldCut t.db actor target)

structure QualityConfirmed (a : QualitySession) (actor : UInt64) (target : DeliveryTarget)
    (t : DialogState) : Prop where
  issued : a.id ∈ t.issued
  housed : Housed QualityRow.id QualityRow.scope a.id (dialogScope actor target)
    t.db.quality.rows
  settled : Settled a.Frozen
    (fun s => s.id ≠ a.id ∧ a.originMessageId < s.originMessageId)
    (heldQuality t.db actor target)

omit [Platform] in
theorem message_trans {a b c : Int32} (hab : a < b) (hbc : b < c) : a < c := by
  rw [Int32.lt_iff_toInt_lt] at hab hbc ⊢
  omega

theorem CutConfirmed.step (hu : StableUrls) {a : CutSession} (hs : CutConfirmed a actor target s)
    (hok : DialogOk s.db) (hids : IdentifiersOk s) (h : ExactStep s e t) :
    CutConfirmed a actor target t := by
  refine ⟨h.1.issued_subset hs.issued,
    hs.housed.comes hs.issued (h.1.cut_comes hids.cutIssued).1,
    hs.settled.turn (h.turns hu hok actor target).1 (fun c c' hc hchange => hchange.frozen hc)
      (fun c c' hc hchange => ?_) fun c c' hc hlater hnew => ?_⟩
  · obtain ⟨hkept, -⟩ := hchange.keeps
    rw [hkept.id, hkept.message]
    exact hc
  · refine ⟨fun he => hnew (he ▸ hs.issued), ?_⟩
    rcases hc with hc | hc
    · exact hc.message ▸ hlater
    · exact message_trans hc.2 hlater

theorem QualityConfirmed.step (hu : StableUrls) (hs : QualityConfirmed a actor target s)
    (hok : DialogOk s.db) (hids : IdentifiersOk s) (h : ExactStep s e t) :
    QualityConfirmed a actor target t := by
  refine ⟨h.1.issued_subset hs.issued,
    hs.housed.comes hs.issued (h.1.quality_comes hids.qualityIssued),
    hs.settled.turn (h.turns hu hok actor target).2 (fun c c' hc hchange => hchange.frozen hc)
      (fun c c' hc hchange => ?_) fun c c' hc hlater hnew => ?_⟩
  · rw [hchange.keeps.1, hchange.keeps.2]
    exact hc
  · refine ⟨fun he => hnew (he ▸ hs.issued), ?_⟩
    rcases hc with hc | hc
    · exact hc.message ▸ hlater
    · exact message_trans hc.2 hlater

/-- **Confirmed dialogs stay confirmed.** -/
theorem CutConfirmed.run (hu : StableUrls) {a : CutSession} {u : DialogState}
    {es es' : List DialogEvent} (hr : ExactReaches s es u)
    (ha : heldCut u.db actor target = some a) (hstage : a.stage.confirmed = true)
    (hrun : Run ExactStep u es' t) : CutConfirmed a actor target t := by
  have hids := IdentifiersOk.reaches hr.reaches
  obtain ⟨row, hget, hdecode⟩ := currentCut_eq_some (heldCut_eq_some.mp ha)
  have hrow := Table.mem_of_find hget
  have hid := (decodeCut_eq_ok hdecode).1
  refine (hrun.invariant (I := fun t => CutConfirmed a actor target t ∧ DialogOk t.db ∧
    IdentifiersOk t) (fun hs hstep => ⟨hs.1.step hu hs.2.1 hs.2.2 hstep,
      hs.2.1.step hu hstep, hs.2.2.step hstep.1⟩) ⟨⟨hid ▸ hids.cutIssued row hrow,
        fun other hother hsame => ?_, a, ha, .inl (.refl hstage)⟩,
          DialogOk.reaches hu hr, hids⟩).1
  rw [← Table.key_of_find hget]
  exact hids.cutApart other hother row hrow (hsame.trans hid)

theorem QualityConfirmed.run (hu : StableUrls) {u : DialogState} {es es' : List DialogEvent}
    (hr : ExactReaches s es u) (ha : heldQuality u.db actor target = some a)
    (hstage : a.stage.confirmed = true) (hrun : Run ExactStep u es' t) :
    QualityConfirmed a actor target t := by
  have hids := IdentifiersOk.reaches hr.reaches
  obtain ⟨row, hrow, hscope, hdecode⟩ :=
    currentQualitySession_eq_some (heldQuality_eq_some.mp ha)
  have hid := (decodeQuality_eq_ok hdecode).1
  refine (hrun.invariant (I := fun t => QualityConfirmed a actor target t ∧ DialogOk t.db ∧
    IdentifiersOk t) (fun hs hstep => ⟨hs.1.step hu hs.2.1 hs.2.2 hstep,
      hs.2.1.step hu hstep, hs.2.2.step hstep.1⟩) ⟨⟨hid ▸ hids.qualityIssued row hrow,
        fun other hother hsame => ?_, a, ha, .inl (.refl hstage)⟩,
          DialogOk.reaches hu hr, hids⟩).1
  rw [← hscope]
  exact hids.qualityApart other hother row hrow (hsame.trans hid)

/-- A session of that identifier is what was confirmed, in the same scope. -/
theorem CutConfirmed.same {a b : CutSession} (h : CutConfirmed a actor target t)
    (hb : heldCut t.db actor' target' = some b) (hid : b.id = a.id) :
    dialogScope actor' target' = dialogScope actor target ∧ a.Frozen b := by
  obtain ⟨row, hget, hdecode⟩ := currentCut_eq_some (heldCut_eq_some.mp hb)
  have hscope : dialogScope actor' target' = dialogScope actor target :=
    (Table.key_of_find hget).symm.trans (h.housed row (Table.mem_of_find hget)
      ((decodeCut_eq_ok hdecode).1.symm.trans hid))
  refine ⟨hscope, ?_⟩
  obtain ⟨c, hc, hfrozen⟩ := h.settled
  rw [heldCut, ← currentCut_of_scope hscope, ← heldCut, hb, Option.some.injEq] at hc
  subst hc
  exact hfrozen.resolve_right fun hpast => hpast.1 hid

/-- A session of that identifier, or that answers the same message of the scope, is what was
confirmed. -/
theorem QualityConfirmed.same {b : QualitySession} (h : QualityConfirmed a actor target t)
    (hb : heldQuality t.db actor' target' = some b)
    (hsame : b.id = a.id ∨ dialogScope actor' target' = dialogScope actor target ∧
      b.originMessageId = a.originMessageId) :
    dialogScope actor' target' = dialogScope actor target ∧ a.Frozen b := by
  obtain ⟨row, hrow, hrscope, hdecode⟩ :=
    currentQualitySession_eq_some (heldQuality_eq_some.mp hb)
  have hscope : dialogScope actor' target' = dialogScope actor target := by
    rcases hsame with hid | ⟨hscope, -⟩
    · exact hrscope.symm.trans (h.housed row hrow ((decodeQuality_eq_ok hdecode).1.symm.trans hid))
    · exact hscope
  refine ⟨hscope, ?_⟩
  obtain ⟨c, hc, hfrozen⟩ := h.settled
  rw [heldQuality, ← currentQualitySession_of_scope hscope, ← heldQuality, hb,
    Option.some.injEq] at hc
  subst hc
  refine hfrozen.resolve_right fun hpast => ?_
  rcases hsame with hid | ⟨-, hmessage⟩
  · exact hpast.1 hid
  · have hlt := hpast.2
    rw [hmessage, Int32.lt_iff_toInt_lt] at hlt
    exact absurd hlt (Int.lt_irrefl _)

end

end YoinkCore.Storage
