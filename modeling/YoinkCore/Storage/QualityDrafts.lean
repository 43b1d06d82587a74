import YoinkCore.Storage.DialogSessions

/-!
# Drafts of quality dialogs

A quality dialog keeps its draft. Whatever happens to the row afterwards, its identifier
and its scope stay, and the document in it is the draft written again.
-/

namespace YoinkCore.Storage

open Lib Domain

variable [Platform]

/-! ## Rows -/

variable {reply : Except StoreError DialogReply} {s : QualitySession} {target : DeliveryTarget}
  {es : List DialogEvent} {row : QualityRow} {context : DialogContext} {db : DialogDb}
  {actor : UInt64} {op : DialogOp} {fresh id : Uuid}

/-- A session that was read is the one of its row. -/
theorem decodeQuality_eq_ok (h : decodeQuality row = .ok s) :
    s.id = row.id ∧ s.target.botId = row.scope.botId ∧ s.target.chatId = row.scope.chatId ∧
      Codec.decode row.request = .ok s.request ∧
      draftFits row.scope.actorId row.scope.botId row.scope.chatId row.originMessageId
        s.request = true := by
  simp only [decodeQuality, Tx.result_bind_eq_ok, expect_eq_ok, Bool.and_eq_true] at h
  obtain ⟨t, ht, r, hr, _, ⟨-, hfits⟩, _, _, _, _, _, _, _, _, h⟩ := h
  cases h
  obtain ⟨hb, hc, -, -⟩ := newTarget_eq_ok ht
  exact ⟨rfl, hb, hc, hr, hfits⟩

/-- The session of a scope was read from a row. -/
theorem currentQualitySession_eq_some (h : currentQualitySession db actor target = .ok (some s)) :
    ∃ row ∈ db.quality.rows, row.scope = dialogScope actor target ∧
      decodeQuality row = .ok s := by
  unfold currentQualitySession at h
  cases hg : qualityGetForTarget db actor target with
  | none =>
      rw [hg] at h
      cases h
  | some row =>
      rw [hg] at h
      obtain ⟨s', hs, he⟩ := Tx.result_map_eq_ok.mp
        (show (decodeQuality row).map some = .ok (some s) from h)
      cases he
      exact ⟨row, Table.mem_of_find hg, Table.key_of_find hg, hs⟩

/-- A row that took the place of another: the same draft, written again. -/
structure DraftKept (old row : QualityRow) : Prop where
  id : row.id = old.id
  scope : row.scope = old.scope
  request : ∃ r, Codec.decode old.request = .ok r ∧ row.request = Codec.encode r

/-- A session that was changed is saved in the place of the one it was read from. -/
theorem DraftKept.of_current {s' : QualitySession}
    (hs : currentQualitySession db actor target = .ok (some s)) (hid : s'.id = s.id)
    (htarget : s'.target = s.target) (hreq : s'.request = s.request) :
    ∃ old ∈ db.quality.rows, DraftKept old (qualityRow actor s') := by
  obtain ⟨old, hmem, hscope, hd⟩ := currentQualitySession_eq_some hs
  obtain ⟨hi, hb, hc, hr, -⟩ := decodeQuality_eq_ok hd
  refine ⟨old, hmem, hid.trans hi, ?_, s.request, hr, congrArg Codec.encode hreq⟩
  show dialogScope actor s'.target = old.scope
  rw [htarget, dialogScope, hb, hc, hscope]
  rfl

/-! ## What a call does to the rows -/

/-- **Rows of drafts.** A row was there before, or it is the one a dialog was begun with,
or it took the place of one that was there. -/
theorem DialogEffect.quality_rows {db' : DialogDb} {reply : DialogReply}
    (h : DialogEffect db fresh op reply db') (hrow : row ∈ db'.quality.rows) :
    row ∈ db.quality.rows ∨
      (∃ actor target message request original,
        op = .qualityBegin actor target message request original ∧ row.id = fresh ∧
        row.scope = dialogScope actor target ∧ row.request = Codec.encode request) ∨
      ∃ old ∈ db.quality.rows, DraftKept old row := by
  cases h with
  | read => exact .inl hrow
  | cutBegun checks found begun saved => exact .inl ((cutPut_saved saved).quality ▸ hrow)
  | cutChanged found change saved => exact .inl ((cutPut_saved saved).quality ▸ hrow)
  | qualityBegun checks found begun saved =>
      obtain ⟨db₁, hput, -, -, hq, -⟩ := putWithOriginal_saved saved
      rcases hput.mem.mp (hq ▸ hrow) with rfl | ⟨hold, -⟩
      · obtain ⟨-, t, ht, rfl⟩ := beginQuality_eq_new begun
        obtain ⟨hb, hc, -, -⟩ := newTarget_eq_ok ht
        refine .inr (.inl ⟨_, _, _, _, _, rfl, rfl, ?_, rfl⟩)
        show dialogScope _ t = _
        rw [dialogScope, dialogScope, hb, hc]
      · exact .inl hold
  | qualityChanged found change saved =>
      rcases (qualityPut_saved saved).mem.mp hrow with rfl | ⟨hold, -⟩
      · obtain ⟨hid, htarget, hreq, -⟩ := change.keeps
        exact .inr (.inr (DraftKept.of_current found hid htarget hreq))
      · exact .inl hold
  | handedOff found handed saved =>
      obtain ⟨_, db₁, hput, hcut⟩ := Tx.bind_eq_ok.mp saved
      obtain ⟨-, -, -, -, t, -, -, rfl⟩ := handOff_eq_ok handed
      rcases (qualityPut_saved hput).mem.mp ((cutPut_saved hcut).quality ▸ hrow) with
        rfl | ⟨hold, -⟩
      · exact .inr (.inr (DraftKept.of_current found rfl rfl rfl))
      · exact .inl hold

/-! ## Runs -/

/-- Every quality dialog has an identifier that was drawn for it. -/
def QualityIssued (s : DialogState) : Prop :=
  ∀ row ∈ s.db.quality.rows, row.id ∈ s.issued

variable {s t : DialogState} {e : DialogEvent}

/-- What a step does to the rows of the drafts. -/
theorem DialogStep.quality_rows (h : DialogStep s e t) (hrow : row ∈ t.db.quality.rows) :
    row ∈ s.db.quality.rows ∨
      (∃ actor target message request original context fresh reply,
        e = .call (.qualityBegin actor target message request original) context fresh reply ∧
        row.id = fresh ∧ row.scope = dialogScope actor target ∧
        row.request = Codec.encode request) ∨
      ∃ old ∈ s.db.quality.rows, DraftKept old row := by
  cases h with
  | call new result issued =>
      rename_i op context fresh reply
      cases reply with
      | error e => exact .inl (DialogOp.run_error_state result ▸ hrow)
      | ok reply =>
          rcases (DialogOp.run_effect result).quality_rows hrow with hold | hbegun | hkept
          · exact .inl hold
          · obtain ⟨actor, target, message, request, original, rfl, hrest⟩ := hbegun
            exact .inr (.inl ⟨_, _, _, _, _, _, _, _, rfl, hrest⟩)
          · exact .inr (.inr hkept)
  | other quality cuts intents issued => exact .inl (quality ▸ hrow)

/-- Identifiers are only ever added. -/
theorem DialogStep.issued_subset (h : DialogStep s e t) (hid : id ∈ s.issued) : id ∈ t.issued := by
  cases h with
  | call new result issued => exact issued ▸ List.mem_cons_of_mem _ hid
  | other quality cuts intents issued => exact issued ▸ hid

/-- A call draws an identifier that no call drew before. -/
theorem DialogStep.fresh_issued (h : DialogStep s (.call op context fresh reply) t) :
    fresh ∉ s.issued ∧ fresh ∈ t.issued := by
  cases h with
  | call new result issued => exact ⟨new, issued ▸ List.mem_cons_self⟩

theorem QualityIssued.step (hs : QualityIssued s) (h : DialogStep s e t) : QualityIssued t := by
  intro row hrow
  rcases h.quality_rows hrow with hold | hbegun | ⟨old, hold, hkept⟩
  · exact h.issued_subset (hs row hold)
  · obtain ⟨actor, target, message, request, original, context, fresh, reply, rfl, hid, -⟩ :=
      hbegun
    exact hid ▸ h.fresh_issued.2
  · exact hkept.id ▸ h.issued_subset (hs old hold)

theorem QualityIssued.reaches (h : DialogReaches s es t) : QualityIssued t :=
  h.2.invariant QualityIssued.step fun row hrow => by
    rw [h.1.1] at hrow
    cases hrow

/-- The rows with an identifier are in one scope, and hold a draft with these overrides. -/
structure DraftHeld (id : Uuid) (scope : DialogScope)
    (overrides : Option DownloadPreferenceOverrides) (s : DialogState) : Prop where
  issued : id ∈ s.issued
  rows : ∀ row ∈ s.db.quality.rows, row.id = id → row.scope = scope ∧
    ∃ r : DownloadRequest, row.request = Codec.encode r ∧ r.preferenceOverrides = overrides

theorem DraftHeld.step {scope : DialogScope} {overrides : Option DownloadPreferenceOverrides}
    (hs : DraftHeld id scope overrides s) (h : DialogStep s e t) :
    DraftHeld id scope overrides t := by
  refine ⟨h.issued_subset hs.issued, fun row hrow hid => ?_⟩
  rcases h.quality_rows hrow with hold | hbegun | ⟨old, hold, hkept⟩
  · exact hs.rows row hold hid
  · obtain ⟨actor, target, message, request, original, context, fresh, reply, rfl, hfresh, -⟩ :=
      hbegun
    -- the identifier was drawn before, so no dialog is begun with it again
    exact absurd hs.issued (hid.symm.trans hfresh ▸ h.fresh_issued.1)
  · obtain ⟨hscope, r, hr, hover⟩ := hs.rows old hold (hkept.id ▸ hid)
    obtain ⟨q, hq, hwritten⟩ := hkept.request
    refine ⟨hkept.scope.trans hscope, q, hwritten, ?_⟩
    rw [hr] at hq
    exact (Codec.parts_of_decode hq).2.2.2.2.2.trans hover

/-- **A draft is held.** After a dialog was begun, the rows with its identifier stay in its
scope and keep the overrides of its draft. -/
theorem draft_held {u v : DialogState} {es' : List DialogEvent} {message : Int32}
    {request : DownloadRequest} {original : Option DownloadRequest} (hr : DialogReaches s es u)
    (hbegin : DialogStep u
      (.call (.qualityBegin actor target message request original) context fresh reply) v)
    (hrun : Run DialogStep v es' t) :
    DraftHeld fresh (dialogScope actor target) request.preferenceOverrides t := by
  refine hrun.invariant DraftHeld.step ⟨hbegin.fresh_issued.2, fun row hrow hid => ?_⟩
  have hissued := QualityIssued.reaches hr
  rcases hbegin.quality_rows hrow with hold | hbegun | ⟨old, hold, hkept⟩
  · exact absurd (hid ▸ hissued row hold) hbegin.fresh_issued.1
  · obtain ⟨_, _, _, _, _, _, _, _, he, -, hscope, hwritten⟩ := hbegun
    cases he
    exact ⟨hscope, _, hwritten, rfl⟩
  · have hold' := hissued old hold
    rw [← hkept.id, hid] at hold'
    exact absurd hold' hbegin.fresh_issued.1

end YoinkCore.Storage
