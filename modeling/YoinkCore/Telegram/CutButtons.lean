import YoinkCore.Storage.DialogSessions
import YoinkCore.Storage.System
import YoinkCore.Telegram.CutKeyboard

/-!
# Pressing the buttons of a cut dialog

A button leads to one or two operations on the session it was drawn for. While the session
stays as it was drawn, none of them refuses: the keyboard shows what the stage allows. Only
the revision can run out, since an operation that changes the session counts it up.
-/

namespace YoinkCore.Telegram

open Lib Domain Storage Lib.Text

/-! ## Refusals -/

/-- The errors that say that a callback does not fit its session. -/
def refusal : StoreError → Bool
  | .conflict | .invalidInput => true
  | _ => false

/-- A computation that does not refuse. It may fail for another reason. -/
def Accepted {α : Type} (x : Except StoreError α) : Prop :=
  ∀ e, x = .error e → refusal e = false

namespace Accepted

variable {α β : Type}

theorem ok (a : α) : Accepted (.ok a : Except StoreError α) := by
  intro e h
  cases h

theorem of_eq_ok {x : Except StoreError α} {a : α} (h : x = .ok a) : Accepted x :=
  h ▸ ok a

variable {e : StoreError}

theorem error (h : refusal e = false) : Accepted (.error e : Except StoreError α) := by
  rintro _ ⟨⟩
  exact h

theorem bind {x : Except StoreError α} {f : α → Except StoreError β} (hx : Accepted x)
    (hf : ∀ a, x = .ok a → Accepted (f a)) : Accepted (x >>= f) := by
  intro e h
  cases hxa : x with
  | error e' =>
      rw [hxa] at h
      cases h
      exact hx _ hxa
  | ok a =>
      rw [hxa] at h
      exact hf a hxa e h

theorem expect (h : refusal e = false) (holds : Bool) : Accepted (Storage.expect e holds) := by
  cases holds
  · exact error h
  · exact ok ()

theorem mapError {ε : Type} (h : refusal e = false) (x : Except ε α) :
    Accepted (Storage.mapError e x) := by
  cases x
  · exact error h
  · exact ok _

/-- Reading a column that may be null. -/
theorem mapM {o : Option α} {f : α → Except StoreError β} (h : ∀ a ∈ o, Accepted (f a)) :
    Accepted (o.mapM f) := by
  cases o with
  | none => exact ok _
  | some a =>
      have hf := h a rfl
      intro e he
      cases hfa : f a with
      | error e' =>
          change (f a).map some = .error e at he
          rw [hfa] at he
          cases he
          exact hf _ hfa
      | ok b =>
          change (f a).map some = .error e at he
          rw [hfa] at he
          cases he

theorem mapList {as : List α} {f : α → Except StoreError β} (h : ∀ a, Accepted (f a)) :
    Accepted (as.mapM f) := by
  induction as with
  | nil => exact ok []
  | cons a as ih =>
      rw [List.mapM_cons]
      exact bind (h a) fun _ _ => bind ih fun _ _ => ok _

end Accepted

section

variable [Platform]

/-! ## Pressing -/

/-- What a button comes to. -/
inductive Pressed where
  /-- The session is drawn again. -/
  | updated (s : CutSession)
  /-- The session is claimed, and its request is admitted next. -/
  | claimed (s : CutSession)

/-- One operation after another, unless the first fails. -/
def andThen {α β : Type} (x : Except StoreError α × DialogDb)
    (f : α → DialogDb → Except StoreError β × DialogDb) : Except StoreError β × DialogDb :=
  match x with
  | (.error e, db) => (.error e, db)
  | (.ok a, db) => f a db

def updating (x : Except StoreError CutSession × DialogDb) :
    Except StoreError Pressed × DialogDb :=
  andThen x fun s db => (.ok (.updated s), db)

/-- `cut_confirm` up to the admission of its request. -/
def cutConfirm (context : DialogContext) (actor : UInt64) (target : DeliveryTarget)
    (id : Uuid) (revision : Int) (db : DialogDb) : Except StoreError Pressed × DialogDb :=
  andThen (cutClaim context actor target id revision db) fun s db =>
    if s.clips.isEmpty ∨ 20 < s.clips.length then (.error .invalidInput, db)
    else (.ok (.claimed s), db)

/-- `cut_submit`, for an actor who is asked for a quality or not. -/
def cutSubmit (context : DialogContext) (asks : Bool) (actor : UInt64)
    (target : DeliveryTarget) (id : Uuid) (revision : Int) (db : DialogDb) :
    Except StoreError Pressed × DialogDb :=
  andThen (cutCurrent actor target db, db) fun current db =>
    match current with
    | none => (.error .conflict, db)
    | some s =>
        if s.id ≠ id ∨ s.revision ≠ revision then (.error .conflict, db)
        else if s.stage = .ready ∧ asks = true then
          updating (cutQuality context actor target id revision db)
        else cutConfirm context actor target id revision db

/-- The operations a callback leads to, once it is known who sends it. -/
def press (context : DialogContext) (asks : Bool) (actor : UInt64) (target : DeliveryTarget)
    (c : CutCallback) (db : DialogDb) : Except StoreError Pressed × DialogDb :=
  match c.action with
  | .edit => updating (cutEdit context actor target c.id c.revision db)
  | .add => updating (cutAdd context actor target c.id c.revision db)
  | .editSegment index =>
      updating (cutEditSegment context actor target c.id c.revision index db)
  | .deleteSegment index =>
      updating (cutDeleteSegment context actor target c.id c.revision index db)
  | .back => updating (cutBack context actor target c.id c.revision db)
  | .cancel => updating (cutCancel context actor target c.id c.revision none db)
  | .go => cutSubmit context asks actor target c.id c.revision db
  | .quality choice =>
      andThen (cutChoose context actor target c.id c.revision choice db) fun s db =>
        cutConfirm context actor target s.id s.revision db

/-- Whether an action that fits a session makes a new revision of it. -/
def advances (asks : Bool) (s : CutSession) : CutAction → Bool
  | .go => s.stage == .ready && asks
  | .quality _ => s.stage == .quality
  | _ => true

/-! ## Reading a session -/

/-- What a row that is read says about its session. -/
structure Decoded (row : CutRow) (s : CutSession) : Prop where
  id : s.id = row.id
  revision : s.revision = row.revision
  actor : s.actorId = UInt64.ofNat row.scope.actorId
  bot : s.target.botId = row.scope.botId
  chat : s.target.chatId = row.scope.chatId
  stage : CutStage.parse row.stage = .ok s.stage
  clips_le : s.clips.length ≤ 20
  clips : clipsFit s.stage s.clips s.editingIndex = true
  selected : row.selected.mapM QualityChoice.parse = .ok s.selected
  no_audio : s.selected ≠ some .audio

omit [Platform] in
theorem mapM_length {α β ε : Type} {f : α → Except ε β} {as : List α} {bs : List β}
    (h : as.mapM f = .ok bs) : bs.length = as.length := by
  induction as generalizing bs with
  | nil =>
      cases h
      rfl
  | cons a as ih =>
      rw [List.mapM_cons] at h
      obtain ⟨b, -, h⟩ := Tx.result_bind_eq_ok.mp h
      obtain ⟨bs', hbs, h⟩ := Tx.result_bind_eq_ok.mp h
      cases h
      rw [List.length_cons, List.length_cons, ih hbs]

variable {s : CutSession} {row : CutRow}

theorem decodeCut_decoded (h : decodeCut row = .ok s) : Decoded row s := by
  unfold decodeCut at h
  simp only [Tx.result_bind_eq_ok, expect_eq_ok, bne_iff_ne] at h
  obtain ⟨target, ht, selected, hsel, _, haudio, stage, hstage, original, -, _, -, _, -,
    clips, hclips, index, -, _, hfit, h⟩ := h
  cases h
  have hlen : clips.length ≤ 20 := by
    unfold decodeClips at hclips
    simp only [Tx.result_bind_eq_ok, expect_eq_ok, decide_eq_true_eq] at hclips
    obtain ⟨pairs, -, _, hle, hmap⟩ := hclips
    rw [mapM_length hmap]
    exact hle
  obtain ⟨hbot, hchat, -⟩ := newTarget_eq_ok ht
  exact ⟨rfl, rfl, rfl, hbot, hchat, hstage, hlen, hfit, hsel, haudio⟩

/-- Only a choice without a label is refused when a row is read. -/
theorem accepted_decodeCut (h : Accepted (row.selected.mapM QualityChoice.parse)) :
    Accepted (decodeCut row) := by
  have hlist (v : Json) : Accepted (decodeClips v) := by
    refine .bind ?_ fun pairs _ => .bind (.expect rfl _) fun _ _ => ?_
    · unfold stored
      split
      · exact .ok _
      · exact .error rfl
    · exact .mapList fun p => .mapError rfl _
  have hstage : Accepted (CutStage.parse row.stage) := by
    unfold CutStage.parse
    split <;> first | exact .ok _ | exact .error rfl
  have hrequest (v : Json) : Accepted (Codec.decode v) := by
    unfold Codec.decode
    split
    · exact .ok _
    · exact .error rfl
  have hindex (i : Int) : Accepted (decodeIndex i) := by
    unfold decodeIndex
    split
    · exact .ok _
    · exact .error rfl
  refine .bind (.mapError rfl _) fun _ _ => .bind h fun _ _ => .bind (.expect rfl _) fun _ _ =>
    .bind hstage fun _ _ => .bind (.mapM fun v _ => hrequest v) fun _ _ =>
    .bind (.expect rfl _) fun _ _ => .bind (.expect rfl _) fun _ _ => .bind (hlist _) fun _ _ =>
    .bind (.mapM fun i _ => hindex i) fun _ _ => .bind (.expect rfl _) fun _ _ => .ok _

omit [Platform] in
theorem listed_of_parse {value : String} {c : QualityChoice}
    (h : QualityChoice.parse value = .ok c) : c.listed = true := by
  unfold QualityChoice.parse at h
  split at h
  · rename_i l hl
    cases h
    exact List.any_eq_true.mpr ⟨l, List.mem_of_find?_eq_some hl, by simp⟩
  · cases h

/-- A choice that is read has a label. -/
theorem Decoded.listed (h : Decoded row s) : ∀ choice ∈ s.selected, choice.listed = true := by
  intro choice hc
  have hsel := h.selected
  rw [hc] at hsel
  cases hr : row.selected with
  | none =>
      rw [hr] at hsel
      cases hsel
  | some value =>
      rw [hr] at hsel
      change (QualityChoice.parse value).map some = .ok (some choice) at hsel
      obtain ⟨c, hparse, he⟩ := Tx.result_map_eq_ok.mp hsel
      cases he
      exact listed_of_parse hparse

/-- Chosen clips are at least one. -/
theorem Decoded.clips_ne (h : Decoded row s) (hs : s.stage.clipped = true) : s.clips ≠ [] := by
  have hc := h.clips
  simp only [clipsFit, hs, Bool.and_eq_true, Bool.true_and, Bool.not_eq_true'] at hc
  rintro he
  rw [he] at hc
  exact absurd hc.1.1.2 (by decide)

/-! ## Callbacks -/

theorem accepted_andThen {α β : Type} {x : Except StoreError α × DialogDb}
    {f : α → DialogDb → Except StoreError β × DialogDb} (hx : Accepted x.1)
    (hf : ∀ a db, x = (.ok a, db) → Accepted (f a db).1) : Accepted (andThen x f).1 := by
  obtain ⟨r, db⟩ := x
  cases r with
  | error e => exact .error (hx e rfl)
  | ok a => exact hf a db rfl

theorem accepted_updating {x : Except StoreError CutSession × DialogDb} (hx : Accepted x.1) :
    Accepted (updating x).1 :=
  accepted_andThen hx fun _ _ _ => .ok _

variable {e : StoreError} {db : DialogDb}

theorem writeDialog_eq_error {τ : Type} {table : Option τ} {put : τ → DialogDb}
    (h : writeDialog table put db = .error e) : e = .database := by
  cases table with
  | none =>
      cases h
      rfl
  | some t => cases h

/-- Saving fails through the database only. -/
theorem accepted_cutPut (s : CutSession) (db : DialogDb) : Accepted (cutPut s db) := by
  intro e h
  rcases Tx.bind_eq_error.mp h with hg | ⟨before, _, -, h⟩
  · cases hg
  rcases Tx.bind_eq_error.mp h with hu | ⟨_, _, -, h⟩
  · rcases Tx.bind_eq_error.mp hu with hg | ⟨_, _, -, hw⟩
    · cases hg
    · rw [writeDialog_eq_error hw]
      rfl
  · cases hp : (cutGet before s.actorId s.target).bind CutRow.linkedQualityId with
    | none | some id =>
        rw [hp] at h
        cases h

theorem accepted_dialog {α : Type} {context : DialogContext} {actor : UInt64}
    {plan : Plan α CutSession} (h : Accepted (plan db)) :
    Accepted (Tx.auto (dialogTransaction context actor plan cutPut) db).1 := by
  intro e he
  rw [Tx.auto_eq] at he
  split at he
  · cases he
  · rename_i e' htx
    cases he
    rcases dialogTransaction_eq_error htx with rfl | hp | ⟨reply, s, -, hs⟩
    · rfl
    · exact h _ hp
    · exact accepted_cutPut s db _ hs

/-- The row of a scope names a session at a revision, and is read without a refusal. -/
structure Names (db : DialogDb) (actor : UInt64) (target : DeliveryTarget) (id : Uuid)
    (revision : Int) (row : CutRow) : Prop where
  scope : validateScope actor target = .ok ()
  found : cutGet db actor target = some row
  id : row.id = id
  revision : row.revision = revision
  reads : Accepted (decodeCut row)

namespace Names

variable {context : DialogContext} {db db' : DialogDb} {actor : UInt64}
  {target : DeliveryTarget} {id : Uuid} {revision : Int} {row : CutRow}

theorem currentCut (h : Names db actor target id revision row) :
    Storage.currentCut db actor target = (decodeCut row).map some := by
  rw [Storage.currentCut, h.found]
  rfl

theorem owner (h : Names db actor target id revision row) (hs : decodeCut row = .ok s) :
    s.actorId = actor ∧ s.target.botId = target.botId ∧
      s.target.chatId = target.chatId ∧ s.id = id ∧ s.revision = revision := by
  have hd := decodeCut_decoded hs
  have hscope : row.scope = dialogScope actor target := Table.key_of_find h.found
  refine ⟨?_, ?_, ?_, hd.id.trans h.id, hd.revision.trans h.revision⟩
  · rw [hd.actor, hscope]
    exact UInt64.ofNat_toNat
  · rw [hd.bot, hscope]
    rfl
  · rw [hd.chat, hscope]
    rfl

/-- A callback at this revision finds the session of the row. -/
theorem require (h : Names db actor target id revision row) :
    Storage.require db actor target id revision = decodeCut row := by
  cases hd : decodeCut row with
  | error e =>
      unfold Storage.require
      rw [h.scope, h.currentCut, hd]
      rfl
  | ok s => exact require_eq_ok.mpr ⟨h.scope, by rw [h.currentCut, hd]; rfl, h.owner hd⟩

theorem requireChoiceReplay (h : Names db actor target id revision row) :
    Storage.requireChoiceReplay db actor target id revision = decodeCut row := by
  cases hd : decodeCut row with
  | error e =>
      unfold Storage.requireChoiceReplay
      rw [h.scope, h.currentCut, hd]
      rfl
  | ok s =>
      obtain ⟨-, -, -, hid, hrev⟩ := h.owner hd
      exact requireChoiceReplay_eq_ok.mpr
        ⟨h.scope, by rw [h.currentCut, hd]; rfl, hid, .inl hrev⟩

/-- A callback is accepted when its change accepts what is read. -/
theorem callback (h : Names db actor target id revision row)
    {change : CutSession → Except StoreError (Option CutSession)}
    (hchange : ∀ s, decodeCut row = .ok s → Accepted (change s)) :
    Accepted (cutCallback context actor target id revision change db).1 := by
  refine accepted_dialog (.bind (h.require ▸ h.reads) fun s hs => ?_)
  rw [h.require] at hs
  exact .bind (hchange s hs) fun saved _ => .ok (saved.getD s, saved)

/-- What is saved of the session is the row its next callback names. -/
theorem saved (h : Names db actor target id revision row) {s' : CutSession}
    (hs : decodeCut row = .ok s) (hactor : s'.actorId = s.actorId)
    (htarget : s'.target = s.target) (hsel : ∀ choice ∈ s'.selected, choice.listed = true)
    (hput : cutPut s' db = .ok ((), db')) :
    Names db' actor target s'.id s'.revision (cutRow s') := by
  obtain ⟨ha, hbot, hchat, -, -⟩ := h.owner hs
  have hscope : dialogScope actor target = dialogScope s'.actorId s'.target := by
    rw [dialogScope, dialogScope, hactor, htarget, ha, hbot, hchat]
  refine ⟨h.scope, ?_, rfl, rfl, accepted_decodeCut (.of_eq_ok (mapM_parse hsel))⟩
  rw [(cutPut_saved hput).get, if_pos hscope]

/-- Only the rows of the cuts matter. -/
theorem of_cuts (h : Names db actor target id revision row) (hcuts : db'.cuts = db.cuts) :
    Names db' actor target id revision row := by
  refine ⟨h.scope, ?_, h.id, h.revision, h.reads⟩
  rw [cutGet, hcuts]
  exact h.found

end Names

theorem cutRow_stage {t : CutSession} (h : decodeCut (cutRow s) = .ok t) : t.stage = s.stage := by
  have hs := (decodeCut_decoded h).stage
  rw [show (cutRow s).stage = s.stage.asStr from rfl, CutStage.parse_asStr] at hs
  exact (Except.ok.inj hs).symm

/-! ## Confirming -/

section

variable {context : DialogContext} {db db' : DialogDb} {actor : UInt64}
  {target : DeliveryTarget} {id : Uuid} {revision : Int} {row : CutRow}

/-- The stages that a confirmation can find. -/
def claimable (stage : CutStage) : Prop := stage = .ready ∨ stage = .confirming

omit [Platform] in
theorem claimable.clipped {stage : CutStage} (h : claimable stage) : stage.clipped = true := by
  rcases h with rfl | rfl <;> rfl

theorem claimCut_of_claimable (h : claimable s.stage) :
    ∃ saved, claimCut s = .ok saved ∧
      (saved = none ∧ s.stage = .confirming ∨ saved = some { s with stage := .confirming }) := by
  unfold claimCut
  rcases h with hs | hs
  · rw [hs]
    exact ⟨_, rfl, .inr rfl⟩
  · rw [hs]
    exact ⟨_, rfl, .inl ⟨rfl, rfl⟩⟩

variable {s' : CutSession}

/-- A session that is claimed keeps its clips. -/
theorem Names.claimed (h : Names db actor target id revision row)
    (hclaim : ∀ s, decodeCut row = .ok s → claimable s.stage)
    (hcall : cutClaim context actor target id revision db = (.ok s', db')) :
    s'.clips ≠ [] ∧ s'.clips.length ≤ 20 ∧ ∃ row',
      Names db' actor target s'.id s'.revision row' ∧
        ∀ t, decodeCut row' = .ok t → t.stage = .confirming := by
  obtain ⟨-, s, saved, hr, hc, rfl, hp⟩ := cutCallback_eq_ok.mp hcall
  rw [h.require] at hr
  have hd := decodeCut_decoded hr
  obtain ⟨-, -, -, hid, hrev⟩ := h.owner hr
  have hne := hd.clips_ne (hclaim s hr).clipped
  obtain ⟨saved', hc', hcase⟩ := claimCut_of_claimable (hclaim s hr)
  rw [hc] at hc'
  cases hc'
  rcases hcase with ⟨rfl, hs⟩ | rfl
  · obtain rfl : db = db' := by simpa [saveAll] using hp
    refine ⟨hne, hd.clips_le, row, ?_, fun t ht => ?_⟩
    · rw [Option.getD_none, hid, hrev]
      exact h
    · rw [hr] at ht
      cases ht
      exact hs
  · exact ⟨hne, hd.clips_le, _, h.saved hr rfl rfl hd.listed hp, fun t ht => cutRow_stage ht⟩

theorem Names.confirm (h : Names db actor target id revision row)
    (hclaim : ∀ s, decodeCut row = .ok s → claimable s.stage) :
    Accepted (cutConfirm context actor target id revision db).1 := by
  refine accepted_andThen (h.callback fun s hs => ?_) fun s' db' hcall => ?_
  · obtain ⟨saved, hc, -⟩ := claimCut_of_claimable (hclaim s hs)
    exact .of_eq_ok hc
  · obtain ⟨hne, hlen, -⟩ := h.claimed hclaim hcall
    rw [if_neg (by
      rintro (he | hlt)
      · exact hne (List.isEmpty_iff.mp he)
      · omega)]
    exact .ok _

/-- Once its request is admitted, a claimed session can be submitted. -/
theorem Names.submit (h : Names db actor target id revision row)
    (hclaim : ∀ s, decodeCut row = .ok s → claimable s.stage)
    (hcall : cutConfirm context actor target id revision db = (.ok (.claimed s'), db'))
    {t : DialogDb} (ht : t.cuts = db'.cuts) (later : DialogContext) (operationId : Uuid) :
    Accepted (cutSubmitted later actor target s'.id s'.revision operationId t).1 := by
  unfold cutConfirm andThen at hcall
  split at hcall
  · cases hcall
  · rename_i s db₁ hc
    dsimp only at hcall
    split at hcall
    · cases hcall
    · cases hcall
      obtain ⟨-, -, row', hrow, hstage⟩ := h.claimed hclaim hc
      refine (hrow.of_cuts ht).callback fun u hu => ?_
      unfold submitCut
      rw [if_neg (by rw [hstage u hu]; decide), hstage u hu]
      exact .ok _

end

/-! ## Every button is accepted -/

section

variable {context : DialogContext} {asks : Bool} {db : DialogDb} {actor : UInt64}
  {target : DeliveryTarget} {row : CutRow} {s : CutSession}

omit [Platform] in
theorem accepted_nextRevision {revision : Int} (h : revision < i64Max) :
    Accepted (nextRevision revision) :=
  .of_eq_ok (nextRevision_eq_ok.mpr ⟨h, rfl⟩)

omit [Platform] in
theorem accepted_expect {holds : Bool} (h : holds = true) : Accepted (expect e holds) :=
  .of_eq_ok (expect_eq_ok (u := ()) |>.mpr h)

theorem accepted_editCut (hs : editable s.stage = true) (hlt : s.revision < i64Max) :
    Accepted (editCut s) :=
  .bind (accepted_expect hs) fun _ _ => .bind (accepted_nextRevision hlt) fun _ _ => .ok _

theorem accepted_beginSegment {index : Option Nat} {append : Bool}
    (hs : editable s.stage = true) (hplace : (if append then decide (s.clips.length < 20)
      else index.any fun i => decide (i < s.clips.length)) = true)
    (hlt : s.revision < i64Max) : Accepted (beginSegment index append s) :=
  .bind (accepted_expect hs) fun _ _ => .bind (accepted_expect hplace) fun _ _ =>
    .bind (accepted_nextRevision hlt) fun _ _ => .ok _

theorem accepted_deleteSegment {index : Nat} (hs : editable s.stage = true)
    (hindex : index < s.clips.length) (hlt : s.revision < i64Max) :
    Accepted (deleteSegment index s) :=
  .bind (accepted_expect hs) fun _ _ => .bind (accepted_expect (decide_eq_true hindex))
    fun _ _ => .bind (accepted_nextRevision hlt) fun _ _ => .ok _

theorem accepted_backCut (hs : s.stage = .start ∨ s.stage = .stop) (hne : s.clips ≠ [])
    (hlt : s.revision < i64Max) : Accepted (backCut s) := by
  refine .bind (accepted_expect ?_) fun _ _ => .bind (accepted_nextRevision hlt) fun _ _ =>
    .ok _
  rw [Bool.and_eq_true, Bool.or_eq_true, beq_iff_eq, beq_iff_eq, Bool.not_eq_true',
    List.isEmpty_eq_false_iff]
  exact ⟨hs, hne⟩

theorem accepted_cancelCut (hs : s.stage = .start ∨ s.stage = .stop ∨ editable s.stage = true)
    (hlt : s.revision < i64Max) : Accepted (cancelCut none s) := by
  unfold cancelCut
  split
  · exact .ok _
  · refine .bind (accepted_expect ?_) fun _ _ => .bind (.ok _) fun _ _ =>
      .bind (accepted_nextRevision hlt) fun _ _ => .ok _
    simpa [Bool.or_eq_true, or_assoc] using hs

theorem accepted_qualityStageCut (hs : s.stage = .ready) (hlt : s.revision < i64Max) :
    Accepted (qualityStageCut s) :=
  .bind (accepted_expect (by rw [hs]; rfl)) fun _ _ => .bind (accepted_nextRevision hlt)
    fun _ _ => .ok _

variable {choice : QualityChoice}

/-- A choice that fits is saved, or was made before. -/
theorem chooseCut_of_fits (hfits : s.stage = .quality ∧
      s.revision < i64Max ∨ s.stage = .confirming ∧ s.selected = some choice) :
    (chooseCut s.revision choice s = .ok none ∧ s.stage = .confirming) ∨
      chooseCut s.revision choice s = .ok (some { s with
        stage := .confirming, selected := some choice, revision := s.revision + 1 }) := by
  unfold chooseCut
  rcases hfits with ⟨hs, hlt⟩ | ⟨hs, hsel⟩
  · rw [if_neg (by rw [hs]; simp), hs, nextRevision, if_pos hlt]
    exact .inr rfl
  · rw [if_pos ⟨.inl hs, hsel, .inl rfl⟩]
    exact .inl ⟨rfl, hs⟩

/-- A choice leaves a session that can be confirmed. -/
theorem Names.chosen (context : DialogContext) (h : Names db actor target s.id s.revision row)
    (hs : decodeCut row = .ok s) (hlisted : choice.listed = true) (haudio : choice ≠ .audio)
    (hfits : s.stage = .quality ∧ s.revision < i64Max ∨
      s.stage = .confirming ∧ s.selected = some choice) :
    Accepted (cutChoose context actor target s.id s.revision choice db).1 ∧
      ∀ s' db', cutChoose context actor target s.id s.revision choice db = (.ok s', db') →
        ∃ row', Names db' actor target s'.id s'.revision row' ∧
          ∀ t, decodeCut row' = .ok t → claimable t.stage := by
  have hcheck : checkCutChoice choice = .ok () := by
    simp only [checkCutChoice, Tx.result_bind_eq_ok, expect_eq_ok, bne_iff_ne]
    exact ⟨choice, QualityChoice.parse_asStr hlisted, haudio⟩
  have hplan : Storage.requireChoiceReplay db actor target s.id s.revision >>=
      changed (chooseCut s.revision choice) = changed (chooseCut s.revision choice) s := by
    rw [h.requireChoiceReplay, hs]
    rfl
  constructor
  · unfold cutChoose checkedAuto
    rw [hcheck]
    refine accepted_dialog (hplan ▸ ?_)
    rcases chooseCut_of_fits hfits with ⟨hc, -⟩ | hc
    · exact .bind (.of_eq_ok hc) fun saved _ => .ok (saved.getD s, saved)
    · exact .bind (.of_eq_ok hc) fun saved _ => .ok (saved.getD s, saved)
  · intro s' db' hcall
    obtain ⟨-, htx⟩ := checkedAuto_eq_ok.mp hcall
    obtain ⟨-, saved, hp, hput⟩ := dialogTransaction_eq_ok.mp htx
    obtain ⟨hc, rfl⟩ := changed_eq_ok.mp (hplan.symm.trans hp)
    rcases chooseCut_of_fits hfits with ⟨hc', hstage⟩ | hc'
    · rw [hc] at hc'
      cases hc'
      obtain rfl : db = db' := by simpa [saveAll] using hput
      refine ⟨row, h, fun t ht => ?_⟩
      rw [hs] at ht
      cases ht
      exact .inr hstage
    · rw [hc] at hc'
      cases hc'
      have hsel : ∀ c ∈ some choice, c.listed = true := by
        rintro c ⟨⟩
        exact hlisted
      exact ⟨_, h.saved hs rfl rfl hsel hput, fun t ht => .inr (cutRow_stage ht)⟩

/-- The claim of `cut_submit` finds the session it looked at. -/
theorem Names.submits (h : Names db actor target s.id s.revision row)
    (hs : decodeCut row = .ok s) : cutSubmit context asks actor target s.id s.revision db =
      if s.stage = .ready ∧ asks = true then
        updating (cutQuality context actor target s.id s.revision db)
      else cutConfirm context actor target s.id s.revision db := by
  have hcurrent : cutCurrent actor target db = .ok (some s) := by
    unfold cutCurrent
    rw [h.scope, h.currentCut, hs]
    rfl
  unfold cutSubmit
  rw [hcurrent]
  show (if s.id ≠ s.id ∨ s.revision ≠ s.revision then _ else _) = _
  rw [if_neg (by simp)]

/-- **Pressing.** A button of the session is accepted, and so is the submission after it. -/
theorem accepted_press {a : CutAction} (h : Names db actor target s.id s.revision row)
    (hs : decodeCut row = .ok s) (hfits : a.fits s)
    (hrev : s.revision < i64Max ∨ advances asks s a = false) :
    Accepted (press context asks actor target ⟨a, s.id, s.revision⟩ db).1 ∧
      ∀ s' db', press context asks actor target ⟨a, s.id, s.revision⟩ db =
          (.ok (.claimed s'), db') →
        ∀ later t operationId, t.cuts = db'.cuts →
          Accepted (cutSubmitted later actor target s'.id s'.revision operationId t).1 := by
  have counted {n : Bool} (hn : n = true) (h : s.revision < i64Max ∨ n = false) :
      s.revision < i64Max := h.resolve_right (by rw [hn]; decide)
  have updated {x : Except StoreError CutSession × DialogDb} (hx : Accepted x.1) :
      Accepted (updating x).1 ∧ ∀ s' db', updating x = (.ok (.claimed s'), db') →
        ∀ later t operationId, t.cuts = db'.cuts →
          Accepted (cutSubmitted later actor target s'.id s'.revision operationId t).1 := by
    refine ⟨accepted_updating hx, fun s' db' hcall => ?_⟩
    obtain ⟨r, db₁⟩ := x
    cases r <;> cases hcall
  have found {change : CutSession → Except StoreError (Option CutSession)}
      (hchange : Accepted (change s)) :
      Accepted (cutCallback context actor target s.id s.revision change db).1 := by
    refine h.callback fun t ht => ?_
    rw [hs] at ht
    cases ht
    exact hchange
  cases a with
  | edit => exact updated (found (accepted_editCut hfits (counted rfl hrev)))
  | add | editSegment index =>
      exact updated (found (accepted_beginSegment hfits.1 (decide_eq_true hfits.2)
        (counted rfl hrev)))
  | deleteSegment index =>
      exact updated (found (accepted_deleteSegment hfits.1 hfits.2 (counted rfl hrev)))
  | back => exact updated (found (accepted_backCut hfits.1 hfits.2 (counted rfl hrev)))
  | cancel => exact updated (found (accepted_cancelCut hfits (counted rfl hrev)))
  | go =>
      show Accepted (cutSubmit context asks actor target s.id s.revision db).1 ∧
        ∀ s' db', cutSubmit context asks actor target s.id s.revision db = _ → _
      rw [h.submits hs]
      split
      · rename_i hready
        refine updated (found (accepted_qualityStageCut hready.1 (counted ?_ hrev)))
        rw [advances, hready.1, hready.2]
        rfl
      · have hclaim : ∀ t, decodeCut row = .ok t → claimable t.stage := by
          intro t ht
          rw [hs] at ht
          cases ht
          exact hfits
        exact ⟨h.confirm hclaim, fun s' db' hcall later t operationId ht =>
          h.submit hclaim hcall ht later operationId⟩
  | quality choice =>
      obtain ⟨hlisted, haudio, hstage⟩ := hfits
      have hfits : s.stage = .quality ∧ s.revision < i64Max ∨
          s.stage = .confirming ∧ s.selected = some choice := by
        refine hstage.imp_left fun hq => ⟨hq, counted ?_ hrev⟩
        rw [advances, hq]
        rfl
      obtain ⟨haccepted, hnext⟩ := h.chosen context hs hlisted haudio hfits
      refine ⟨accepted_andThen haccepted fun s' db' hcall => ?_,
        fun s' db' hcall later t operationId ht => ?_⟩
      · obtain ⟨row', hrow, hclaim⟩ := hnext s' db' hcall
        exact hrow.confirm hclaim
      · change andThen (cutChoose context actor target s.id s.revision choice db) _ = _ at hcall
        rcases hchoose : cutChoose context actor target s.id s.revision choice db with ⟨r, db₁⟩
        rw [hchoose] at hcall
        cases r with
        | error e => cases hcall
        | ok chosen =>
            obtain ⟨row', hrow, hclaim⟩ := hnext chosen db₁ hchoose
            exact hrow.submit hclaim hcall ht later operationId

/-- **The buttons of a cut dialog work.** Every text under a session is short and is read as
the action its label announces, for the session at its revision; and while the scope holds
that session, the operations it leads to do not refuse, as long as a revision that has to
be counted up is not the last. -/
theorem cut_buttons_work (context : DialogContext) (asks : Bool)
    (hheld : cutCurrent actor target db = .ok (some s))
    (hmax : s.revision ≤ i64Max) {b : CutButton} (hb : b ∈ (render s).flatten) :
    byteLen b.data ≤ 64 ∧ ∃ a, b.label.announces a = true ∧
      callback b.data = some ⟨a, s.id, s.revision⟩ ∧
        (s.revision < i64Max ∨ advances asks s a = false →
          Accepted (press context asks actor target ⟨a, s.id, s.revision⟩ db).1 ∧
            ∀ s' db', press context asks actor target ⟨a, s.id, s.revision⟩ db =
                (.ok (.claimed s'), db') →
              ∀ later t operationId, t.cuts = db'.cuts →
                Accepted (cutSubmitted later actor target s'.id s'.revision operationId t).1) := by
  obtain ⟨_, hscope, hcurrent⟩ := Tx.result_bind_eq_ok.mp hheld
  cases hfound : cutGet db actor target with
  | none =>
      rw [currentCut, hfound] at hcurrent
      cases hcurrent
  | some row =>
      have hs : decodeCut row = .ok s := by
        rw [currentCut, hfound] at hcurrent
        change (decodeCut row).map some = .ok (some s) at hcurrent
        obtain ⟨s', hd, he⟩ := Tx.result_map_eq_ok.mp hcurrent
        cases he
        exact hd
      have hd := decodeCut_decoded hs
      have hnames : Names db actor target s.id s.revision row :=
        ⟨hscope, hfound, hd.id.symm, hd.revision.symm, .of_eq_ok hs⟩
      have hpos : 0 < s.revision := by
        have hcheck := db.cuts.checked row (Table.mem_of_find hfound)
        simp only [cutSchema, CutRow.checks, List.all_cons, Bool.and_eq_true, id,
          decide_eq_true_eq] at hcheck
        rw [hd.revision]
        exact hcheck.2.1
      have hsel : ∀ choice ∈ s.selected, choice.listed = true ∧ choice ≠ .audio := by
        intro choice hc
        refine ⟨hd.listed choice hc, ?_⟩
        rintro rfl
        exact hd.no_audio hc
      obtain ⟨a, hdata, hlabel, hfits⟩ := shown_render hsel b hb
      obtain ⟨hlen, hcallback⟩ :=
        callback_encodeValues (hfits.named hd.clips_le) s.id hpos hmax
      rw [← hdata] at hlen hcallback
      exact ⟨hlen, a, hlabel, hcallback, accepted_press hnames hs hfits⟩

end

end

/-! ## A dialog with one clip -/

section

attribute [local instance] Scenario.platform

namespace CutScenario

open Scenario

/-- The private chat of actor 7. -/
def chat : DeliveryTarget := ⟨1, 7, none, none, Storage.Scenario.chat_ok⟩

/-- One clip is cut out of a source. -/
def clipped : DialogDb :=
  (playDialogs (.initial Db.empty)
    [⟨.cutBegin 7 chat 5 sourceUrl.asStr (some 1), uuid 1⟩,
      ⟨.cutInput 7 chat 6 2 false, uuid 2⟩]).2.db

/-- The same dialog after as many changes as there are revisions. -/
def spent : DialogDb :=
  match currentCut clipped 7 chat with
  | .ok (some s) =>
      match cutPut { s with revision := i64Max } clipped with
      | .ok (_, db) => db
      | .error _ => clipped
  | _ => clipped

/-- A database holds the dialog of one clip at a revision. -/
def holds (db : DialogDb) (revision : Int) : Bool :=
  match cutCurrent 7 chat db with
  | .ok (some s) => s.stage == .ready && decide (s.clips.length = 1) && decide (s.id = uuid 1) &&
      decide (s.revision = revision)
  | _ => false

theorem holds_spec {db : DialogDb} {revision : Int} (h : holds db revision = true) :
    ∃ s, cutCurrent 7 chat db = .ok (some s) ∧ s.id = uuid 1 ∧ s.revision = revision ∧
      (render s).flatten = [cutButton .cutAdd "add" s.id s.revision,
        cutButton (.cutChangeSegment 1) "edit" s.id s.revision,
        cutButton (.cutDeleteSegment 1) (numbered "d" 0) s.id s.revision,
        cutButton .cutDownload "go" s.id s.revision,
        cutButton .cutCancel "cancel" s.id s.revision] := by
  unfold holds at h
  split at h
  · rename_i s hs
    simp only [Bool.and_eq_true, beq_iff_eq, decide_eq_true_eq] at h
    obtain ⟨⟨⟨hstage, hlen⟩, hid⟩, hrev⟩ := h
    obtain ⟨clip, hclips⟩ := List.length_eq_one_iff.mp hlen
    refine ⟨s, hs, hid, hrev, ?_⟩
    rw [render, hstage, hclips]
    rfl
  · cases h

end CutScenario

open CutScenario Scenario

/-- The buttons of a dialog with one clip. -/
theorem cut_buttons_work_clipped : ∃ s, cutCurrent 7 chat clipped = .ok (some s) ∧
    (render s).flatten.length = 5 ∧ ∀ b ∈ (render s).flatten,
      byteLen b.data ≤ 64 ∧ ∃ a, b.label.announces a = true ∧
        callback b.data = some ⟨a, s.id, s.revision⟩ ∧
          Accepted (press .anyone true 7 chat ⟨a, s.id, s.revision⟩ clipped).1 := by
  have hholds : holds clipped 2 = true := by decide +kernel
  obtain ⟨s, hs, -, hrev, hbuttons⟩ := holds_spec hholds
  have hlt : s.revision < i64Max := by
    rw [hrev]
    decide
  refine ⟨s, hs, by rw [hbuttons]; rfl, fun b hb => ?_⟩
  obtain ⟨hlen, a, hlabel, hcallback, hwork⟩ :=
    cut_buttons_work .anyone true hs (Int.le_of_lt hlt) hb
  exact ⟨hlen, a, hlabel, hcallback, (hwork (.inl hlt)).1⟩

/-- At the last revision the button that changes the clip is refused. -/
theorem last_revision_refused : ∃ s, cutCurrent 7 chat spent = .ok (some s) ∧
    s.revision = i64Max ∧ ∃ b ∈ (render s).flatten,
      callback b.data = some ⟨.edit, s.id, s.revision⟩ ∧
        ¬ Accepted (press .anyone false 7 chat ⟨.edit, s.id, s.revision⟩ spent).1 := by
  have hholds : holds spent i64Max = true := by decide +kernel
  obtain ⟨s, hs, hid, hrev, hbuttons⟩ := holds_spec hholds
  refine ⟨s, hs, hrev, cutButton (.cutChangeSegment 1) "edit" s.id s.revision, ?_, ?_, ?_⟩
  · rw [hbuttons]
    simp
  · exact (callback_encodeValues (a := .edit) rfl s.id (by rw [hrev]; decide)
      (by rw [hrev])).2
  · intro haccepted
    have hrefused : (match (press .anyone false 7 chat ⟨.edit, uuid 1, i64Max⟩ spent).1 with
        | .error .invalidInput => true
        | _ => false) = true := by decide +kernel
    rw [hid, hrev] at haccepted
    split at hrefused
    · rename_i he
      exact absurd (haccepted _ he) (by decide)
    · cases hrefused

end

end YoinkCore.Telegram
