import YoinkCore.Lib.Retention
import YoinkCore.Lib.Succession
import YoinkCore.Storage.QualityDrafts
import YoinkCore.Storage.System

/-!
# Originals

A quality dialog may keep the Telegram request it was begun with. Two statements take
originals away: one before the row of a quality dialog is replaced, one after the row of a
cut is. Together they keep an original exactly as long as its quality dialog is current, or
a cut that was taken from it is not cancelled.
-/

namespace YoinkCore.Storage

open Lib Domain

section

variable [Platform]

/-! ## Cuts -/

variable {i : MediaIntentRow} {stage : CutStage} {id : Uuid}

omit [Platform] in
theorem CutStage.asStr_of_parse {text : String} (h : CutStage.parse text = .ok stage) :
    stage.asStr = text := by
  unfold CutStage.parse at h
  split at h <;> cases h <;> rfl

omit [Platform] in
theorem CutStage.asStr_cancelled : stage.asStr = "cancelled" ↔ stage = .cancelled := by
  cases stage <;> decide

variable {db db' : DialogDb} {es : List DialogEvent} {s : CutSession} {target : DeliveryTarget}
  {actor : UInt64}

/-- A session that was read is the one of its row. -/
theorem decodeCut_eq_ok {row : CutRow} (h : decodeCut row = .ok s) :
    s.id = row.id ∧ s.target.botId = row.scope.botId ∧ s.target.chatId = row.scope.chatId ∧
      s.actorId = UInt64.ofNat row.scope.actorId ∧ s.stage.asStr = row.stage ∧
      s.linkedQualityId = row.linkedQualityId := by
  simp only [decodeCut, Tx.result_bind_eq_ok] at h
  obtain ⟨t, ht, _, -, _, -, stage, hstage, _, -, _, -, _, -, _, -, _, -, _, -, h⟩ := h
  cases h
  obtain ⟨hb, hc, -, -⟩ := newTarget_eq_ok ht
  exact ⟨rfl, hb, hc, rfl, CutStage.asStr_of_parse hstage, rfl⟩

/-- The session of a scope was read from its row. -/
theorem currentCut_eq_some (h : currentCut db actor target = .ok (some s)) :
    ∃ row, cutGet db actor target = some row ∧ decodeCut row = .ok s := by
  unfold currentCut at h
  cases hg : cutGet db actor target with
  | none =>
      rw [hg] at h
      cases h
  | some row =>
      rw [hg] at h
      obtain ⟨s', hs, he⟩ := Tx.result_map_eq_ok.mp
        (show (decodeCut row).map some = .ok (some s) from h)
      cases he
      exact ⟨row, rfl, hs⟩

/-- What every change of a cut keeps: whose it is, what it is about, and its link. -/
structure CutKept (s s' : CutSession) : Prop where
  id : s'.id = s.id
  actor : s'.actorId = s.actorId
  target : s'.target = s.target
  message : s'.originMessageId = s.originMessageId
  url : s'.url = s.url
  linked : s'.linkedQualityId = s.linkedQualityId

theorem inputStage_keeps {moved : CutSession} {value : Float} {numeric : Bool}
    (h : inputStage s value numeric = .ok moved) : CutKept s moved ∧ s.stage ≠ .cancelled := by
  unfold inputStage at h
  split at h
  · rename_i hs
    cases h
    exact ⟨⟨rfl, rfl, rfl, rfl, rfl, rfl⟩, by rw [hs]; decide⟩
  · rename_i hs
    obtain ⟨range, -, h⟩ := Tx.result_bind_eq_ok.mp h
    obtain ⟨clips, -, h⟩ := Tx.result_bind_eq_ok.mp h
    cases h
    exact ⟨⟨rfl, rfl, rfl, rfl, rfl, rfl⟩, by rw [hs]; decide⟩
  · cases h

/-- A cancelled cut is changed no more; any other keeps what it is about. -/
theorem CutChange.keeps {s' : CutSession} (c : CutChange s s') :
    CutKept s s' ∧ s.stage ≠ .cancelled := by
  have hopen : editable s.stage = true → s.stage ≠ .cancelled := by
    rintro he hc
    rw [hc] at he
    cases he
  cases c with
  | input time h =>
      unfold inputCut at h
      split at h
      · cases h
      obtain ⟨moved, hmoved, h⟩ := Tx.result_bind_eq_ok.mp h
      obtain ⟨revision, -, h⟩ := Tx.result_bind_eq_ok.mp h
      cases h
      obtain ⟨hkept, hopen⟩ := inputStage_keeps hmoved
      exact ⟨⟨hkept.id, hkept.actor, hkept.target, hkept.message, hkept.url, hkept.linked⟩, hopen⟩
  | edit h =>
      obtain ⟨he, rfl⟩ := editCut_eq_ok h
      exact ⟨⟨rfl, rfl, rfl, rfl, rfl, rfl⟩, hopen he⟩
  | segment place h =>
      obtain ⟨he, -, rfl⟩ := beginSegment_eq_ok h
      exact ⟨⟨rfl, rfl, rfl, rfl, rfl, rfl⟩, hopen he⟩
  | delete h =>
      obtain ⟨he, ⟨-, rfl⟩ | ⟨-, rfl⟩⟩ := deleteSegment_eq_ok h
      · exact ⟨⟨rfl, rfl, rfl, rfl, rfl, rfl⟩, hopen he⟩
      · exact ⟨⟨rfl, rfl, rfl, rfl, rfl, rfl⟩, hopen he⟩
  | back h =>
      obtain ⟨hs, -, rfl⟩ := backCut_eq_ok h
      refine ⟨⟨rfl, rfl, rfl, rfl, rfl, rfl⟩, fun hc => ?_⟩
      rcases hs with hs | hs <;> cases hs.symm.trans hc
  | cancel h =>
      obtain ⟨hs, last, -, rfl⟩ := cancelCut_eq_ok h
      refine ⟨⟨rfl, rfl, rfl, rfl, rfl, rfl⟩, fun hc => ?_⟩
      rcases hs with hs | hs | hs
      · cases hs.symm.trans hc
      · cases hs.symm.trans hc
      · exact hopen hs hc
  | claim h =>
      obtain ⟨hs, rfl⟩ := claimCut_eq_ok h
      refine ⟨⟨rfl, rfl, rfl, rfl, rfl, rfl⟩, fun hc => ?_⟩
      rcases hs with hs | ⟨hs, -⟩ <;> cases hs.symm.trans hc
  | quality h =>
      obtain ⟨hs, rfl⟩ := qualityStageCut_eq_ok h
      exact ⟨⟨rfl, rfl, rfl, rfl, rfl, rfl⟩, by rw [hs]; decide⟩
  | choose listed h =>
      obtain ⟨hs, rfl⟩ := chooseCut_eq_ok h
      exact ⟨⟨rfl, rfl, rfl, rfl, rfl, rfl⟩, by rw [hs]; decide⟩
  | submit h =>
      obtain ⟨hs, rfl⟩ := submitCut_eq_ok h
      exact ⟨⟨rfl, rfl, rfl, rfl, rfl, rfl⟩, by rw [hs]; decide⟩

/-! ## What is needed -/

/-- An original is needed by its quality dialog, or by a cut taken from it. -/
def DialogDb.needs (db : DialogDb) (i : MediaIntentRow) : Prop :=
  db.currentQuality i.sessionId = true ∨ db.linkedCut i.sessionId = true

theorem currentQuality_iff : db.currentQuality id = true ↔ ∃ r ∈ db.quality.rows, r.id = id := by
  simp [DialogDb.currentQuality]

theorem linkedCut_iff : db.linkedCut id = true ↔
    ∃ r ∈ db.cuts.rows, r.linkedQualityId = some id ∧ r.stage ≠ "cancelled" := by
  simp [DialogDb.linkedCut]

theorem linkedCut_of_cuts (h : db'.cuts = db.cuts) (id : Uuid) :
    db'.linkedCut id = db.linkedCut id := by
  rw [DialogDb.linkedCut, DialogDb.linkedCut, h]

theorem currentQuality_of_quality (h : db'.quality = db.quality) (id : Uuid) :
    db'.currentQuality id = db.currentQuality id := by
  rw [DialogDb.currentQuality, DialogDb.currentQuality, h]

/-- The originals that are held are those that were kept and are needed. -/
def OriginalsHeld (kept : MediaIntentRow → Prop) (db : DialogDb) : Prop :=
  Retained (· ∈ db.intents.rows) kept db.needs

/-- Saving a cut releases what only the cut before it needed. -/
theorem CutSaved.originals {kept : MediaIntentRow → Prop} (h : CutSaved s db db')
    (hheld : OriginalsHeld kept db)
    (hlink : ∀ i, kept i → s.linkedQualityId = some i.sessionId → s.stage ≠ .cancelled →
      db.needs i) : OriginalsHeld kept db' := by
  refine Retained.release hheld h.intents (fun i _ hneeds => ?_) (fun i hi hneeds => ?_)
  · rw [DialogDb.needs, not_or, Bool.not_eq_true, Bool.not_eq_true]
    refine ⟨And.right, fun hnot => ⟨?_, hnot⟩⟩
    -- the only cut that was taken away is the one of the scope
    rw [← Bool.not_eq_true, ← Bool.not_eq_true, currentQuality_of_quality h.quality] at hnot
    obtain ⟨row, hrow, hlinked, hstage⟩ := linkedCut_iff.mp (hneeds.resolve_left hnot.1)
    have hscope : row.scope = dialogScope s.actorId s.target := by
      by_contra hne
      exact hnot.2 (linkedCut_iff.mpr ⟨row, h.mem.mpr (.inr ⟨hrow, hne⟩), hlinked, hstage⟩)
    have hget : cutGet db s.actorId s.target = some row :=
      (Table.find_eq_some cutSchema_scope).mpr ⟨hrow, hscope⟩
    rw [hget]
    exact hlinked
  · rcases hneeds with hcurrent | hlinked
    · exact .inl (currentQuality_of_quality h.quality _ ▸ hcurrent)
    · obtain ⟨row, hrow, hlinked, hstage⟩ := linkedCut_iff.mp hlinked
      rcases h.mem.mp hrow with rfl | ⟨hold, -⟩
      · exact hlink i hi hlinked fun hc => hstage (CutStage.asStr_cancelled.mpr hc)
      · exact .inr (linkedCut_iff.mpr ⟨row, hold, hlinked, hstage⟩)

/-- Every identifier is the one of at most one quality dialog. -/
def QualityApart (db : DialogDb) : Prop := Apart QualityRow.id QualityRow.scope db.quality.rows

/-- Saving a quality dialog releases what only the dialog before it needed. -/
theorem QualitySaved.originals {s : QualitySession} {kept : MediaIntentRow → Prop}
    (h : QualitySaved actor s db db') (hheld : OriginalsHeld kept db) (hapart : QualityApart db)
    (hsame : ∀ i, kept i → i.sessionId = s.id → ∃ r ∈ db.quality.rows,
      r.scope = dialogScope actor s.target ∧ r.id = s.id) : OriginalsHeld kept db' := by
  have hself : db'.currentQuality s.id = true :=
    currentQuality_iff.mpr ⟨_, h.mem.mpr (.inl rfl), rfl⟩
  refine Retained.release hheld h.intents (fun i _ hneeds => ⟨?_, ?_⟩) (fun i hi hneeds => ?_)
  · rintro ⟨⟨r, hget, hne, hid⟩, hcut⟩ hneeds'
    obtain ⟨hr, hscope⟩ := (Table.find_eq_some qualitySchema_scope).mp hget
    rcases hneeds' with hcurrent | hlinked
    · obtain ⟨r', hr', hid'⟩ := currentQuality_iff.mp hcurrent
      rcases h.mem.mp hr' with rfl | ⟨hold, hother⟩
      · exact hne (hid.trans hid'.symm)
      · exact hother ((hapart r' hold r hr (hid'.trans hid.symm)).trans hscope)
    · rw [linkedCut_of_cuts h.cuts, hcut] at hlinked
      cases hlinked
  · intro hnot
    obtain ⟨hcurrent, hlinked⟩ := not_or.mp hnot
    rw [linkedCut_of_cuts h.cuts] at hlinked
    obtain ⟨r, hr, hid⟩ := currentQuality_iff.mp (hneeds.resolve_right hlinked)
    have hscope : r.scope = dialogScope actor s.target := by
      by_contra hne
      exact hcurrent (currentQuality_iff.mpr ⟨r, h.mem.mpr (.inr ⟨hr, hne⟩), hid⟩)
    refine ⟨⟨r, (Table.find_eq_some qualitySchema_scope).mpr ⟨hr, hscope⟩, ?_, hid⟩,
      Bool.not_eq_true _ ▸ hlinked⟩
    intro he
    exact hcurrent ((he.symm.trans hid) ▸ hself)
  · rcases hneeds with hcurrent | hlinked
    · obtain ⟨r, hr, hid⟩ := currentQuality_iff.mp hcurrent
      rcases h.mem.mp hr with rfl | ⟨hold, -⟩
      · obtain ⟨r', hr', -, hid'⟩ := hsame i hi hid.symm
        exact .inl (currentQuality_iff.mpr ⟨r', hr', hid'.trans hid⟩)
      · exact .inl (currentQuality_iff.mpr ⟨r, hold, hid⟩)
    · exact .inr (linkedCut_of_cuts h.cuts _ ▸ hlinked)

/-- An original is put beside a dialog whose identifier is new. -/
theorem mediaIntentPut_new {intent : Json} {u : Unit}
    (h : mediaIntentPut id intent db = .ok (u, db'))
    (hnew : ∀ i ∈ db.intents.rows, i.sessionId ≠ id) :
    db'.cuts = db.cuts ∧ db'.quality = db.quality ∧
      ∀ i, i ∈ db'.intents.rows ↔ i ∈ db.intents.rows ∨ i = ⟨id, intent⟩ := by
  simp only [mediaIntentPut, Tx.bind_eq_ok, Tx.get_eq_ok, writeDialog_eq_ok] at h
  obtain ⟨_, _, ⟨rfl, rfl⟩, intents, hi, rfl⟩ := h
  refine ⟨rfl, rfl, fun i => ?_⟩
  rw [Table.upsert, Table.find_eq_none.mpr hnew] at hi
  show i ∈ intents.rows ↔ _
  rw [Table.insert_eq_some.mp hi, List.mem_append, List.mem_singleton]

/-! ## What was kept -/

/-- A quality dialog was begun with an identifier, and this request was kept beside it. -/
def BegunWith (es : List DialogEvent) (id : Uuid) (original : DownloadRequest) : Prop :=
  ∃ actor target message request context q,
    .call (.qualityBegin actor target message request (some original)) context id
      (.ok (.quality q)) ∈ es ∧ q.id = id

/-- The rows that were put away in a run. -/
def Kept (es : List DialogEvent) (i : MediaIntentRow) : Prop :=
  ∃ original, BegunWith es i.sessionId original ∧ i.intent = Codec.encode original

/-- A dialog that is begun is the current one, or a new one is saved. -/
theorem qualityBegin_eq_ok {context : DialogContext} {message : Int32} {request : DownloadRequest}
    {original : Option DownloadRequest} {fresh : Uuid} {reply : DialogReply}
    (h : (DialogOp.qualityBegin actor target message request original).run context fresh db =
      (.ok reply, db')) : ∃ s, reply = .quality s ∧
        (db' = db ∧ currentQualitySession db actor target = .ok (some s) ∨
          ∃ current, beginQuality target message request fresh current = .ok (s, some s) ∧
            putWithOriginal actor original s db = .ok ((), db')) := by
  obtain ⟨s, hcall, rfl⟩ := replying_eq_ok h
  obtain ⟨hc, htx⟩ := checkedAuto_eq_ok.mp hcall
  obtain ⟨-, saved, hp, hs⟩ := dialogTransaction_eq_ok.mp htx
  obtain ⟨current, hcur, hb⟩ := Tx.result_bind_eq_ok.mp hp
  refine ⟨s, rfl, ?_⟩
  rcases beginQuality_cases hb with ⟨rfl, rfl⟩ | rfl
  · obtain rfl : db = db' := by simpa [saveAll] using hs
    exact .inl ⟨rfl, hcur⟩
  · exact .inr ⟨current, hb, hs⟩

theorem kept_append {es' : List DialogEvent} : Kept (es ++ es') i ↔ Kept es i ∨ Kept es' i := by
  constructor
  · rintro ⟨o, ⟨actor, target, message, request, context, q, hmem, hq⟩, hi⟩
    rcases List.mem_append.mp hmem with hmem | hmem
    · exact .inl ⟨o, ⟨_, _, _, _, _, q, hmem, hq⟩, hi⟩
    · exact .inr ⟨o, ⟨_, _, _, _, _, q, hmem, hq⟩, hi⟩
  · rintro (⟨o, ⟨actor, target, message, request, context, q, hmem, hq⟩, hi⟩ |
      ⟨o, ⟨actor, target, message, request, context, q, hmem, hq⟩, hi⟩)
    · exact ⟨o, ⟨_, _, _, _, _, q, List.mem_append_left _ hmem, hq⟩, hi⟩
    · exact ⟨o, ⟨_, _, _, _, _, q, List.mem_append_right _ hmem, hq⟩, hi⟩

/-- An event puts away at most the request that it began a dialog with. -/
theorem kept_singleton {e : DialogEvent} (h : Kept [e] i) :
    ∃ actor target message request original context q,
      e = .call (.qualityBegin actor target message request (some original)) context i.sessionId
        (.ok (.quality q)) ∧ q.id = i.sessionId ∧ i.intent = Codec.encode original := by
  obtain ⟨o, ⟨actor, target, message, request, context, q, hmem, hq⟩, hi⟩ := h
  exact ⟨_, _, _, _, o, _, q, (List.mem_singleton.mp hmem).symm, hq, hi⟩

/-! ## Runs -/

/-- A cut that may be changed still needs the original it was taken with. -/
theorem needs_of_current (h : currentCut db actor target = .ok (some s))
    (hlinked : s.linkedQualityId = some i.sessionId) (hopen : s.stage ≠ .cancelled) :
    db.needs i := by
  obtain ⟨row, hget, hdecode⟩ := currentCut_eq_some h
  obtain ⟨-, -, -, -, hstage, hlink⟩ := decodeCut_eq_ok hdecode
  refine .inr (linkedCut_iff.mpr ⟨row, Table.mem_of_find hget, hlink ▸ hlinked, fun hc => ?_⟩)
  exact hopen (CutStage.asStr_cancelled.mp (hstage.trans hc))

/-- A session that is saved in the place of another is no new one. -/
theorem DraftKept.same {s : QualitySession}
    (h : ∃ old ∈ db.quality.rows, DraftKept old (qualityRow actor s)) :
    ∃ r ∈ db.quality.rows, r.scope = dialogScope actor s.target ∧ r.id = s.id := by
  obtain ⟨old, hold, hkept⟩ := h
  exact ⟨old, hold, hkept.scope.symm, hkept.id.symm⟩

/-- **What a call does to the originals.** Whatever is no new dialog only releases. -/
theorem DialogEffect.originals {fresh : Uuid} {op : DialogOp} {reply : DialogReply}
    (h : DialogEffect db fresh op reply db') {kept : MediaIntentRow → Prop}
    (hheld : OriginalsHeld kept db) (hapart : QualityApart db)
    (hop : ∀ actor target message request original,
      op ≠ .qualityBegin actor target message request original) : OriginalsHeld kept db' := by
  cases h with
  | read => exact hheld
  | cutBegun checks found begun saved =>
      obtain ⟨-, t, -, rfl⟩ := beginCut_eq_new begun
      exact (cutPut_saved saved).originals hheld fun i _ hlinked => by cases hlinked
  | cutChanged found change saved =>
      obtain ⟨hkept, hopen⟩ := change.keeps
      exact (cutPut_saved saved).originals hheld fun i _ hlinked _ =>
        needs_of_current found (hkept.linked ▸ hlinked) hopen
  | qualityBegun checks found begun saved => exact absurd rfl (hop _ _ _ _ _)
  | qualityChanged found change saved =>
      obtain ⟨hid, htarget, hreq, -⟩ := change.keeps
      exact (qualityPut_saved saved).originals hheld hapart fun _ _ _ =>
        DraftKept.same (DraftKept.of_current found hid htarget hreq)
  | handedOff found handed saved =>
      obtain ⟨_, db₁, hput, hcut⟩ := Tx.bind_eq_ok.mp saved
      obtain ⟨-, -, -, -, t, -, rfl, rfl⟩ := handOff_eq_ok handed
      have hsaved := qualityPut_saved hput
      refine (cutPut_saved hcut).originals (hsaved.originals hheld hapart fun _ _ _ =>
        DraftKept.same (DraftKept.of_current found rfl rfl rfl)) fun i _ hlinked _ => .inl ?_
      -- the draft that is handed off stays the current one of its scope
      exact currentQuality_iff.mpr ⟨_, hsaved.mem.mpr (.inl rfl), Option.some.inj hlinked⟩

/-- What holds of the originals after a run. -/
structure OriginalsOk (es : List DialogEvent) (t : DialogState) : Prop where
  quality : QualityIssued t
  apart : QualityApart t.db
  kept : ∀ i, Kept es i → i.sessionId ∈ t.issued
  held : OriginalsHeld (Kept es) t.db

/-- A row has the identifier and the scope of an old one, or is the new one of the step. -/
theorem DialogStep.quality_comes {s t : DialogState} {e : DialogEvent} (h : DialogStep s e t)
    (hissued : QualityIssued s) :
    Comes QualityRow.id QualityRow.scope (· ∈ s.issued) s.db.quality.rows t.db.quality.rows := by
  intro row hrow
  rcases h.quality_rows hrow with hold | hbegun | ⟨old, hold, hkept⟩
  · exact .inl ⟨row, hold, rfl, rfl⟩
  · obtain ⟨actor, target, message, request, original, context, fresh, reply, rfl, hid,
      hscope, -⟩ := hbegun
    refine .inr ⟨hid ▸ h.fresh_issued.1, fun other hother hnew => ?_⟩
    rcases h.quality_rows hother with hold | hbegun | ⟨old, hold, hkept⟩
    · exact absurd (hissued other hold) hnew
    · obtain ⟨_, _, _, _, _, _, _, _, he, -, hscope', -⟩ := hbegun
      cases he
      exact hscope'.trans hscope.symm
    · exact absurd (hkept.id ▸ hissued old hold) hnew
  · exact .inl ⟨old, hold, hkept.id.symm, hkept.scope.symm⟩

/-- A dialog that is begun puts its request away. -/
theorem OriginalsOk.begin {s : DialogState} (hs : OriginalsOk es s) {context : DialogContext}
    {message : Int32} {request : DownloadRequest} {original : Option DownloadRequest}
    {fresh : Uuid} (hnew : fresh ∉ s.issued) {reply : DialogReply}
    (h : (DialogOp.qualityBegin actor target message request original).run context fresh s.db =
      (.ok reply, db')) :
    OriginalsHeld (Kept (es ++ [.call (.qualityBegin actor target message request original)
      context fresh (.ok reply)])) db' := by
  have hfresh : ∀ i, Kept es i → i.sessionId ≠ fresh :=
    fun i hi he => hnew (he ▸ hs.kept i hi)
  obtain ⟨q, rfl, ⟨rfl, hcur⟩ | ⟨current, hbegin, hput⟩⟩ := qualityBegin_eq_ok h
  · -- the current dialog is replied, and its identifier was drawn before
    intro i
    rw [kept_append, hs.held i]
    refine and_congr_left fun _ => ⟨.inl, fun hi => hi.resolve_right fun hi => ?_⟩
    obtain ⟨_, _, _, _, _, _, _, he, hid, -⟩ := kept_singleton hi
    cases he
    obtain ⟨row, hrow, -, hdecode⟩ := currentQualitySession_eq_some hcur
    exact hnew (hid ▸ (decodeQuality_eq_ok hdecode).1 ▸ hs.quality row hrow)
  · obtain ⟨-, t, -, rfl⟩ := beginQuality_eq_new hbegin
    obtain ⟨_, db₁, hqput, hkeep⟩ := Tx.bind_eq_ok.mp hput
    have hheld := (qualityPut_saved hqput).originals hs.held hs.apart fun i hi he =>
      absurd he (hfresh i hi)
    cases original with
    | none =>
        obtain rfl : db₁ = db' := by simpa [saveAll] using hkeep
        intro i
        rw [kept_append, hheld i]
        refine and_congr_left fun _ => ⟨.inl, fun hi => hi.resolve_right fun hi => ?_⟩
        obtain ⟨_, _, _, _, _, _, _, he, -⟩ := kept_singleton hi
        cases he
    | some o =>
        obtain ⟨hcuts, hquality, hrows⟩ := mediaIntentPut_new
          (show mediaIntentPut fresh (Codec.encode o) db₁ = .ok ((), db') from hkeep)
          fun i hi => hfresh i ((hheld i).mp hi).1
        have hneeds : db'.needs = db₁.needs := by
          funext i
          rw [DialogDb.needs, DialogDb.needs, currentQuality_of_quality hquality,
            linkedCut_of_cuts hcuts]
        rw [OriginalsHeld, hneeds]
        refine hheld.put hrows (fun i => kept_append.trans (or_congr_right ?_)) fun i hi => ?_
        · constructor
          · intro hi
            obtain ⟨_, _, _, _, _, _, _, he, -, hintent⟩ := kept_singleton hi
            cases he
            exact congrArg (MediaIntentRow.mk i.sessionId) hintent
          · rintro rfl
            exact ⟨o, ⟨_, _, _, _, _, _, List.mem_singleton_self _, rfl⟩, rfl⟩
        · subst hi
          exact .inl (currentQuality_iff.mpr
            ⟨_, (qualityPut_saved hqput).mem.mpr (.inl rfl), rfl⟩)

theorem OriginalsOk.step {s t : DialogState} {e : DialogEvent} (hs : OriginalsOk es s)
    (h : DialogStep s e t) : OriginalsOk (es ++ [e]) t := by
  refine ⟨hs.quality.step h, hs.apart.comes hs.quality (h.quality_comes hs.quality), fun i hi => ?_,
    ?_⟩
  · rcases kept_append.mp hi with hi | hi
    · exact h.issued_subset (hs.kept i hi)
    · obtain ⟨_, _, _, _, _, _, _, rfl, -⟩ := kept_singleton hi
      exact h.fresh_issued.2
  · -- nothing is put away unless a dialog is begun
    have hsame : (∀ i, ¬ Kept [e] i) → OriginalsHeld (Kept es) t.db →
        OriginalsHeld (Kept (es ++ [e])) t.db := by
      intro hnone hheld i
      rw [kept_append, hheld i, or_iff_left (hnone i)]
    cases h with
    | other quality cuts intents issued =>
        refine hsame (fun i hi => ?_) fun i => ?_
        · obtain ⟨_, _, _, _, _, _, _, he, -⟩ := kept_singleton hi
          cases he
        · rw [intents, DialogDb.needs, currentQuality_of_quality quality,
            linkedCut_of_cuts cuts]
          exact hs.held i
    | call new result issued =>
        rename_i op context fresh reply
        cases reply with
        | error err =>
            refine hsame (fun i hi => ?_) (DialogOp.run_error_state result ▸ hs.held)
            obtain ⟨_, _, _, _, _, _, _, he, -⟩ := kept_singleton hi
            cases he
        | ok reply =>
            by_cases hop : ∃ actor target message request original,
                op = .qualityBegin actor target message request original
            · obtain ⟨actor, target, message, request, original, rfl⟩ := hop
              exact hs.begin new result
            · refine hsame (fun i hi => ?_) ((DialogOp.run_effect result).originals hs.held
                hs.apart fun actor target message request original he =>
                  hop ⟨actor, target, message, request, original, he⟩)
              obtain ⟨_, _, _, _, _, _, _, he, -⟩ := kept_singleton hi
              cases he
              exact hop ⟨_, _, _, _, _, rfl⟩

theorem OriginalsOk.reaches {s t : DialogState} (h : DialogReaches s es t) : OriginalsOk es t := by
  obtain ⟨⟨hquality, -, hintents⟩, hrun⟩ := h
  induction hrun with
  | nil =>
      refine ⟨fun row hrow => ?_, fun a ha => ?_, fun i hi => ?_, fun i => ?_⟩
      · rw [hquality] at hrow
        cases hrow
      · rw [hquality] at ha
        cases ha
      · obtain ⟨_, ⟨_, _, _, _, _, _, hmem, -⟩, -⟩ := hi
        cases hmem
      · rw [hintents]
        constructor
        · intro hi
          cases hi
        · rintro ⟨⟨_, ⟨_, _, _, _, _, _, hmem, -⟩, -⟩, -⟩
          cases hmem
  | snoc _ hstep ih => exact ih.step hstep

/-- **Originals are kept while they are needed.** After any run of the dialogs an original is
stored if and only if a quality dialog was begun with it and is still the current one of its
scope, or a cut that was taken from it is not cancelled. What is read for the dialog is then
what it was begun with. -/
theorem originals_kept_while_needed {s t : DialogState} {es : List DialogEvent}
    (h : DialogReaches s es t) :
    (∀ i, i ∈ t.db.intents.rows ↔
      (∃ original, BegunWith es i.sessionId original ∧ i.intent = Codec.encode original) ∧
        (t.db.currentQuality i.sessionId = true ∨ t.db.linkedCut i.sessionId = true)) ∧
    ∀ id original, BegunWith es id original →
      (t.db.currentQuality id = true ∨ t.db.linkedCut id = true) →
        qualityMediaIntent t.db id = (Codec.decode (Codec.encode original)).map some := by
  have hok := OriginalsOk.reaches h
  refine ⟨hok.held, fun id original hbegun hneeds => ?_⟩
  have hrow := (hok.held ⟨id, Codec.encode original⟩).mpr ⟨⟨original, hbegun, rfl⟩, hneeds⟩
  have hfind : t.db.intents.find MediaIntentRow.sessionId id =
      some ⟨id, Codec.encode original⟩ :=
    (Table.find_eq_some mediaIntentSchema_session).mpr ⟨hrow, rfl⟩
  rw [qualityMediaIntent, hfind]
  rfl

end

section

attribute [local instance] Scenario.platform

open Scenario

/-- A request that answers a message of actor 7. -/
def answering (message : Int32) (h : validTarget 1 7 none (some message) = true) :
    DownloadRequest :=
  { Scenario.request with target := some ⟨1, 7, none, some message, h⟩, target_ok := rfl }

theorem firstMessage_ok : validTarget 1 7 none (some 5) = true := by decide

theorem secondMessage_ok : validTarget 1 7 none (some 6) = true := by decide

/-- A dialog is handed to a cut, and another one takes its place. -/
def handedScript : List DialogLine :=
  [⟨.qualityBegin 7 target 5 (answering 5 firstMessage_ok) (some delivery), uuid 1⟩,
    ⟨.qualityCut 7 target (uuid 1) 1, uuid 2⟩,
    ⟨.qualityBegin 7 target 6 (answering 6 secondMessage_ok) none, uuid 3⟩]

def handedDb : DialogDb := (playDialogs (.initial Db.empty) handedScript).2.db

/-- The original of the first dialog is left, since the cut was taken from it. -/
theorem originals_kept_while_needed_handed : handedDb.intents.rows.length = 1 ∧
    handedDb.currentQuality (uuid 1) = false ∧ handedDb.linkedCut (uuid 1) = true ∧
      ∃ original, BegunWith (playDialogs (.initial Db.empty) handedScript).1 (uuid 1) original := by
  refine ⟨by decide +kernel, by decide +kernel, by decide +kernel, ?_⟩
  have hfresh : drawsFresh [] handedScript = true := by decide
  have hkept : (handedDb.intents.rows.any fun i => decide (i.sessionId = uuid 1)) = true := by
    decide +kernel
  obtain ⟨i, hi, hid⟩ := List.any_eq_true.mp hkept
  obtain ⟨⟨original, hbegun, -⟩, -⟩ := ((originals_kept_while_needed
    ⟨DialogState.initial_fresh Db.empty, playDialogs_run hfresh⟩).1
      i).mp hi
  exact ⟨original, of_decide_eq_true hid ▸ hbegun⟩

end

end YoinkCore.Storage
