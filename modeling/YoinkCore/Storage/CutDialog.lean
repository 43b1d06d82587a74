import YoinkCore.Storage.Dialog

/-!
# Cut dialogs

The operations on the row of a cut dialog. Each reads the row of its scope, changes the
session it decodes from it, and saves the result. The session that was replaced may have
been the last one to need the original of a quality dialog.
-/

namespace YoinkCore.Storage

open Lib Domain

variable [Platform]

/-! ## The row of a session -/

/-- The clips as pairs of numbers. -/
def encodeClips (clips : List ClipRange) : Json :=
  .arr (clips.map fun c => .arr [.float c.startSeconds, .float c.endSeconds])

def cutRow (s : CutSession) : CutRow where
  scope := dialogScope s.actorId s.target
  id := s.id
  revision := s.revision
  stage := s.stage.asStr
  originMessageId := s.originMessageId
  lastMessageId := s.lastMessageId
  sourceUrl := s.url
  beginStart := s.beginStart
  start := s.start
  stop := s.stop
  operationId := s.operationId
  selected := s.selected.map QualityChoice.asStr
  originalRequest := s.original.map Codec.encode
  linkedQualityId := s.linkedQualityId
  clips := encodeClips s.clips
  editingIndex := s.editingIndex.map Int.ofNat

/-- Whatever is wrong with a column, the data is invalid. -/
def stored {α : Type} (x : Option α) : Except StoreError α :=
  match x with
  | some a => .ok a
  | none => .error .invalidStoredData

def readPair : Json → Option (Float × Float)
  | .arr [a, b] => do
      let x ← Codec.asF64 a
      let y ← Codec.asF64 b
      return (x, y)
  | _ => none

def decodeClips (v : Json) : Except StoreError (List ClipRange) := do
  let pairs ← stored (Codec.readList readPair v)
  expect .invalidStoredData (decide (pairs.length ≤ 20))
  pairs.mapM fun p => mapError .invalidStoredData (ClipRange.new p.1 p.2)

def decodeIndex (index : Int) : Except StoreError Nat :=
  if 0 ≤ index then .ok index.toNat else .error .invalidStoredData

/-- What the row asks of the request a cut was taken from. -/
def originalFits (row : CutRow) (request : DownloadRequest) : Bool :=
  request.target.any (answers · row.scope.botId row.scope.chatId row.originMessageId) &&
    decide (request.actorId.toNat = row.scope.actorId) && request.mediaMode == .video &&
    request.network == .none && request.params.playlist.isNone &&
    request.params.clips.isEmpty && row.sourceUrl == some request.sourceUrl.asStr &&
    row.linkedQualityId.isSome

/-- Which clips and which index a stage allows. -/
def clipsFit (stage : CutStage) (clips : List ClipRange) (editingIndex : Option Nat) : Bool :=
  editingIndex.all (fun i => decide (i < clips.length)) &&
    !(stage.clipped && clips.isEmpty) && !(stage == .cancelled && !clips.isEmpty) &&
    (editingIndex.isNone || stage == .start || stage == .stop)

def decodeCut (row : CutRow) : Except StoreError CutSession := do
  let target ← mapError .invalidStoredData
    (DeliveryTarget.new row.scope.botId row.scope.chatId none (some row.originMessageId))
  let selected ← row.selected.mapM QualityChoice.parse
  expect .invalidStoredData (selected != some .audio)
  let stage ← CutStage.parse row.stage
  let original ← row.originalRequest.mapM Codec.decode
  expect .invalidStoredData (original.all (originalFits row))
  expect .invalidStoredData
    (!(row.linkedQualityId.isSome && original.isNone && stage != .cancelled))
  let clips ← decodeClips row.clips
  let editingIndex ← row.editingIndex.mapM decodeIndex
  expect .invalidStoredData (clipsFit stage clips editingIndex)
  return {
    id := row.id, revision := row.revision, stage
    actorId := UInt64.ofNat row.scope.actorId, target
    originMessageId := row.originMessageId, lastMessageId := row.lastMessageId
    start := row.start, stop := row.stop, clips, editingIndex
    operationId := row.operationId, selected, beginStart := row.beginStart
    url := row.sourceUrl, original, linkedQualityId := row.linkedQualityId }

/-! ## Reading and saving -/

/-- cut_get.sql -/
def cutGet (db : DialogDb) (actor : UInt64) (target : DeliveryTarget) : Option CutRow :=
  db.cuts.find CutRow.scope (dialogScope actor target)

/-- The session of a scope. -/
def currentCut (db : DialogDb) (actor : UInt64) (target : DeliveryTarget) :
    Except StoreError (Option CutSession) :=
  (cutGet db actor target).mapM decodeCut

def cutCurrent (actor : UInt64) (target : DeliveryTarget) (db : DialogDb) :
    Except StoreError (Option CutSession) := do
  validateScope actor target
  currentCut db actor target

/-- A quality dialog of this identifier is current. -/
def DialogDb.currentQuality (db : DialogDb) (id : Uuid) : Bool :=
  db.quality.rows.any fun r => decide (r.id = id)

/-- A cut that is not cancelled was taken from this quality dialog. -/
def DialogDb.linkedCut (db : DialogDb) (id : Uuid) : Bool :=
  db.cuts.rows.any fun r => decide (r.linkedQualityId = some id) && r.stage != "cancelled"

/-- quality_media_intent_cut_released_delete.sql -/
def mediaIntentCutReleasedDelete (id : Uuid) : DialogStmt Unit := do
  let db ← get
  set { db with
    intents := (db.intents.delete fun i => decide (i.sessionId = id) &&
      !db.currentQuality i.sessionId && !db.linkedCut i.sessionId).1 }

/-- cut_put.sql -/
def cutUpsert (row : CutRow) : DialogStmt Unit := do
  let db ← get
  writeDialog (db.cuts.upsert CutRow.scope row fun old => { row with scope := old.scope })
    fun cuts => { db with cuts }

/-- Only the outgoing reference of this scope may lose its original. -/
def cutPut (s : CutSession) : DialogStmt Unit := do
  let db ← get
  let priorQuality := (cutGet db s.actorId s.target).bind CutRow.linkedQualityId
  cutUpsert (cutRow s)
  saveAll mediaIntentCutReleasedDelete priorQuality

omit [Platform] in
theorem cutRow_replaces (row : CutRow) :
    Table.Replaces CutRow.scope row fun old => { row with scope := old.scope } := by
  refine ⟨fun a => rfl, fun a h => ?_⟩
  show ({ row with scope := a.scope } : CutRow) = row
  rw [h]

/-- What saving a cut leaves behind. -/
structure CutSaved (s : CutSession) (db db' : DialogDb) : Prop where
  store : db'.store = db.store
  quality : db'.quality = db.quality
  cuts : db.cuts.upsert CutRow.scope (cutRow s)
    (fun old => { cutRow s with scope := old.scope }) = some db'.cuts
  intents : ∀ i, i ∈ db'.intents.rows ↔ i ∈ db.intents.rows ∧
    ¬ ((cutGet db s.actorId s.target).bind CutRow.linkedQualityId = some i.sessionId ∧
      db'.currentQuality i.sessionId = false ∧ db'.linkedCut i.sessionId = false)

variable {db db' : DialogDb} {s : CutSession} {row : CutRow}

theorem cutUpsert_eq_ok {u : Unit} :
    cutUpsert row db = .ok (u, db') ↔
      ∃ cuts, db.cuts.upsert CutRow.scope row (fun old => { row with scope := old.scope }) =
        some cuts ∧ db' = { db with cuts } := by
  simp only [cutUpsert, Tx.bind_eq_ok, Tx.get_eq_ok, writeDialog_eq_ok]
  constructor
  · rintro ⟨_, _, ⟨rfl, rfl⟩, h⟩
    exact h
  · exact fun h => ⟨db, db, ⟨rfl, rfl⟩, h⟩

theorem cutPut_saved {u : Unit} (h : cutPut s db = .ok (u, db')) : CutSaved s db db' := by
  simp only [cutPut, Tx.bind_eq_ok, Tx.get_eq_ok, cutUpsert_eq_ok] at h
  obtain ⟨_, _, ⟨rfl, rfl⟩, _, _, ⟨cuts, hcuts, rfl⟩, h⟩ := h
  cases hp : (cutGet db s.actorId s.target).bind CutRow.linkedQualityId with
  | none =>
      rw [hp] at h
      simp only [saveAll, Tx.pure_eq_ok] at h
      obtain ⟨-, rfl⟩ := h
      exact ⟨rfl, rfl, hcuts, by simp [hp]⟩
  | some q =>
      rw [hp] at h
      simp only [saveAll, mediaIntentCutReleasedDelete, Tx.bind_eq_ok, Tx.get_eq_ok,
        Tx.set_eq_ok] at h
      obtain ⟨_, _, ⟨rfl, rfl⟩, rfl⟩ := h
      refine ⟨rfl, rfl, hcuts, fun i => ?_⟩
      rw [hp]
      simp only [Table.delete_rows, List.mem_filter, Bool.not_eq_true', Bool.and_eq_false_iff,
        decide_eq_false_iff_not, Option.some.injEq]
      refine and_congr_right fun _ => ?_
      show _ ∨ _ ↔
          ¬ (q = i.sessionId ∧ DialogDb.currentQuality { db with cuts } i.sessionId = false ∧
        DialogDb.linkedCut { db with cuts } i.sessionId = false)
      by_cases hq : i.sessionId = q
      · subst hq
        cases DialogDb.currentQuality { db with cuts } i.sessionId <;>
          cases DialogDb.linkedCut { db with cuts } i.sessionId <;> simp
      · simp [hq, Ne.symm hq]

/-- A row that passes its checks is saved. -/
theorem cutPut_of_check (h : cutSchema.check (cutRow s) = true) :
    ∃ db', cutPut s db = .ok ((), db') := by
  obtain ⟨cuts, hcuts⟩ := Table.upsert_of_check (T := db.cuts) cutSchema_scope
    (fun a b hab => by simpa [cutSchema] using hab) (cutRow_replaces (cutRow s)) h
  have hget : (get : DialogStmt DialogDb) db = .ok (db, db) := rfl
  have hupsert : cutUpsert (cutRow s) db = .ok ((), { db with cuts }) :=
    cutUpsert_eq_ok.mpr ⟨cuts, hcuts, rfl⟩
  unfold cutPut
  rw [Tx.bind_of_ok hget, Tx.bind_of_ok hupsert]
  cases (cutGet db s.actorId s.target).bind CutRow.linkedQualityId with
  | none => exact ⟨_, rfl⟩
  | some q => exact ⟨_, rfl⟩

namespace CutSaved

variable {s : CutSession} {db db' : DialogDb}

theorem get (h : CutSaved s db db') (actor : UInt64) (target : DeliveryTarget) :
    cutGet db' actor target =
      if dialogScope actor target = dialogScope s.actorId s.target then some (cutRow s)
      else cutGet db actor target :=
  Table.find_replace (cutRow_replaces (cutRow s)) h.cuts _

theorem mem (h : CutSaved s db db') :
    row ∈ db'.cuts.rows ↔
      row = cutRow s ∨ row ∈ db.cuts.rows ∧ row.scope ≠ dialogScope s.actorId s.target :=
  Table.mem_replace cutSchema_scope (cutRow_replaces (cutRow s)) h.cuts

end CutSaved

/-- The session a callback is about, at the revision it was sent for. -/
def require (db : DialogDb) (actor : UInt64) (target : DeliveryTarget) (id : Uuid)
    (revision : Int) : Except StoreError CutSession := do
  validateScope actor target
  match ← currentCut db actor target with
  | none => .error .conflict
  | some s => do
      expect .conflict (decide (s.actorId = actor ∧ s.target.botId = target.botId ∧
        s.target.chatId = target.chatId ∧ s.id = id ∧ s.revision = revision))
      return s

/-- A choice may also be sent again after the transition it made. -/
def requireChoiceReplay (db : DialogDb) (actor : UInt64) (target : DeliveryTarget)
    (id : Uuid) (revision : Int) : Except StoreError CutSession := do
  validateScope actor target
  match ← currentCut db actor target with
  | none => .error .conflict
  | some s => do
      let replay := (s.stage == .confirming || s.stage == .submitted) &&
        decide (revision = s.revision - 1)
      expect .conflict (decide (s.id = id) && (decide (s.revision = revision) || replay))
      return s

/-! ## Changes

A change answers `none` when the session stays as it is. -/

/-- The first clip is mirrored in the row. -/
def CutSession.withFirstClip (s : CutSession) : CutSession :=
  { s with
    start := s.clips.head?.map ClipRange.startSeconds
    stop := s.clips.head?.map ClipRange.endSeconds }

def validTime (v : Float) : Bool := v.isFinite && decide (0.0 ≤ v)

/-- A new session, unless the message was seen before or a session is being confirmed. -/
def beginCut (actor : UInt64) (target : DeliveryTarget) (message : Int32) (url : String)
    (start : Option Float) (fresh : Uuid) (current : Option CutSession) :
    Except StoreError (CutSession × Option CutSession) :=
  let begun : Except StoreError (CutSession × Option CutSession) := do
    let target ← mapError .invalidInput
      (DeliveryTarget.new target.botId target.chatId none (some message))
    let session : CutSession := {
      id := fresh, revision := 1, stage := if start.isSome then .stop else .start
      actorId := actor, target, originMessageId := message, lastMessageId := message
      start, stop := none, clips := [], editingIndex := none, operationId := none
      selected := none, beginStart := start, url := some url, original := none
      linkedQualityId := none }
    return (session, some session)
  match current with
  | none => begun
  | some old =>
      if message ≤ old.lastMessageId then
        if message = old.originMessageId ∧ (old.url ≠ some url ∨ old.beginStart != start) then
          .error .conflict
        else .ok (old, none)
      else if old.stage = .confirming then .error .conflict
      else begun

/-- The clip a second number completes. -/
def inputRange (s : CutSession) (value : Float) (numeric : Bool) :
    Except StoreError ClipRange := do
  let start ← stored s.start
  let stop := if numeric && decide (value ≤ start) then start + value else value
  mapError .invalidInput (ClipRange.new start stop)

/-- Put a clip where it belongs: over the one that is edited, or at the end. -/
def placeClip (s : CutSession) (range : ClipRange) : Except StoreError (List ClipRange) :=
  match s.editingIndex with
  | some index =>
      if s.clips.length ≤ index then .error .invalidStoredData
      else .ok (s.clips.set index range)
  | none =>
      if 20 ≤ s.clips.length then .error .invalidInput else .ok (s.clips ++ [range])

/-- The stage a number leads to. -/
def inputStage (s : CutSession) (value : Float) (numeric : Bool) :
    Except StoreError CutSession :=
  match s.stage with
  | .start => .ok { s with start := some value, stage := .stop }
  | .stop => do
      let range ← inputRange s value numeric
      let clips ← placeClip s range
      return { s with clips, editingIndex := none, stage := .ready }.withFirstClip
  | _ => .error .invalidInput

/-- A number that leads to another stage makes a new revision. -/
def inputRevision (s moved : CutSession) : Except StoreError Int :=
  if moved.stage = s.stage then .ok s.revision else nextRevision s.revision

def inputCut (message : Int32) (value : Float) (numeric : Bool) (s : CutSession) :
    Except StoreError (Option CutSession) :=
  if message ≤ s.lastMessageId then .ok none
  else do
    let moved ← inputStage s value numeric
    let revision ← inputRevision s moved
    return some { moved with revision, lastMessageId := message }

/-- The stages in which the clips can be changed. -/
def editable (stage : CutStage) : Bool := stage == .ready || stage == .quality

def editCut (s : CutSession) : Except StoreError (Option CutSession) := do
  expect .conflict (editable s.stage)
  let revision ← nextRevision s.revision
  return some { s with
    revision, stage := .start, start := none, stop := none, editingIndex := some 0
    operationId := none, selected := none }

def beginSegment (index : Option Nat) (append : Bool) (s : CutSession) :
    Except StoreError (Option CutSession) := do
  expect .conflict (editable s.stage)
  expect .invalidInput (if append then decide (s.clips.length < 20)
    else index.any fun i => decide (i < s.clips.length))
  let revision ← nextRevision s.revision
  return some { s with
    revision, stage := .start, start := none, stop := none, editingIndex := index
    selected := none, operationId := none }

def deleteSegment (index : Nat) (s : CutSession) : Except StoreError (Option CutSession) := do
  expect .conflict (editable s.stage)
  expect .invalidInput (decide (index < s.clips.length))
  let revision ← nextRevision s.revision
  let left : CutSession := { s with
    clips := s.clips.eraseIdx index, revision, selected := none, operationId := none
    editingIndex := none }
  return some (if left.clips.isEmpty then { left with stage := .start, start := none, stop := none }
    else { left.withFirstClip with stage := .ready })

def backCut (s : CutSession) : Except StoreError (Option CutSession) := do
  expect .conflict ((s.stage == .start || s.stage == .stop) && !s.clips.isEmpty)
  let revision ← nextRevision s.revision
  return some { s.withFirstClip with
    revision, stage := .ready, editingIndex := none, selected := none }

/-- The last message of a session that a message may cancel. -/
def cancelMessage (s : CutSession) : Option Int32 → Except StoreError Int32
  | none => .ok s.lastMessageId
  | some message => do
      expect .invalidInput (decide (0 < message))
      expect .conflict (decide (s.lastMessageId < message))
      return message

def cancelCut (message : Option Int32) (s : CutSession) :
    Except StoreError (Option CutSession) :=
  if s.stage = .cancelled then .ok none
  else do
    expect .conflict (s.stage == .start || s.stage == .stop || editable s.stage)
    let lastMessageId ← cancelMessage s message
    let revision ← nextRevision s.revision
    return some { s with
      lastMessageId, revision, stage := .cancelled, start := none, stop := none
      selected := none, clips := [], editingIndex := none, original := none }

def claimCut (s : CutSession) : Except StoreError (Option CutSession) :=
  match s.stage with
  | .ready => .ok (some { s with stage := .confirming })
  | .quality =>
      if s.selected.isSome then .ok (some { s with stage := .confirming })
      else .error .conflict
  | .confirming | .submitted => .ok none
  | _ => .error .conflict

def qualityStageCut (s : CutSession) : Except StoreError (Option CutSession) := do
  expect .conflict (s.stage == .ready)
  let revision ← nextRevision s.revision
  return some { s with stage := .quality, revision }

def chooseCut (revision : Int) (choice : QualityChoice) (s : CutSession) :
    Except StoreError (Option CutSession) :=
  if (s.stage = .confirming ∨ s.stage = .submitted) ∧ s.selected = some choice ∧
      (revision = s.revision ∨ revision = s.revision - 1) then .ok none
  else do
    expect .conflict (s.stage == .quality)
    let revision ← nextRevision s.revision
    return some { s with stage := .confirming, selected := some choice, revision }

def submitCut (operationId : Uuid) (s : CutSession) : Except StoreError (Option CutSession) :=
  if s.stage = .submitted then
    if s.operationId = some operationId then .ok none else .error .conflict
  else do
    expect .conflict (s.stage == .confirming)
    return some { s with stage := .submitted, operationId := some operationId }

/-! ## The operations -/

/-- Reply with the session as it is after a change. -/
def changed (change : CutSession → Except StoreError (Option CutSession)) (s : CutSession) :
    Except StoreError (CutSession × Option CutSession) :=
  (change s).map fun saved => (saved.getD s, saved)

/-- A callback: change the session it names. -/
def cutCallback (context : DialogContext) (actor : UInt64) (target : DeliveryTarget)
    (id : Uuid) (revision : Int)
    (change : CutSession → Except StoreError (Option CutSession)) :
    DialogDb → Except StoreError CutSession × DialogDb :=
  Tx.auto (dialogTransaction context actor
    (fun db => require db actor target id revision >>= changed change) cutPut)

/-- The checks on the arguments of `cut_begin`. -/
def checkCutBegin (actor : UInt64) (target : DeliveryTarget) (message : Int32) (url : String)
    (start : Option Float) : Except StoreError Unit := do
  validateScope actor target
  expect .invalidInput (decide (0 < message))
  let request ← mapError .invalidInput
    (DownloadRequest.new actor url .video none DownloadParams.default)
  expect .invalidInput (decide (Text.byteLen request.sourceUrl.asStr.toList ≤ 4096))
  expect .invalidInput (start.all validTime)

def cutBegin (context : DialogContext) (actor : UInt64) (target : DeliveryTarget)
    (message : Int32) (url : String) (start : Option Float) (fresh : Uuid) :
    DialogDb → Except StoreError CutSession × DialogDb :=
  checkedAuto (checkCutBegin actor target message url start)
    (dialogTransaction context actor
      (fun db => currentCut db actor target >>= beginCut actor target message url start fresh)
      cutPut)

/-- The checks on the arguments of `cut_input`. -/
def checkCutInput (actor : UInt64) (target : DeliveryTarget) (message : Int32)
    (value : Float) : Except StoreError Unit := do
  validateScope actor target
  expect .invalidInput (decide (0 < message) && validTime value)

def cutInput (context : DialogContext) (actor : UInt64) (target : DeliveryTarget)
    (message : Int32) (value : Float) (numeric : Bool) :
    DialogDb → Except StoreError (Option CutSession) × DialogDb :=
  checkedAuto (checkCutInput actor target message value)
    (dialogTransaction context actor
      (fun db => do
        match ← currentCut db actor target with
        | none => return (none, none)
        | some s => (changed (inputCut message value numeric) s).map fun r => (some r.1, r.2))
      cutPut)

def cutEdit (context : DialogContext) (actor : UInt64) (target : DeliveryTarget) (id : Uuid)
    (revision : Int) := cutCallback context actor target id revision editCut

def cutBeginSegment (context : DialogContext) (actor : UInt64) (target : DeliveryTarget)
    (id : Uuid) (revision : Int) (index : Option Nat) (append : Bool) :=
  cutCallback context actor target id revision (beginSegment index append)

def cutAdd (context : DialogContext) (actor : UInt64) (target : DeliveryTarget) (id : Uuid)
    (revision : Int) := cutBeginSegment context actor target id revision none true

def cutEditSegment (context : DialogContext) (actor : UInt64) (target : DeliveryTarget)
    (id : Uuid) (revision : Int) (index : Nat) :=
  cutBeginSegment context actor target id revision (some index) false

def cutDeleteSegment (context : DialogContext) (actor : UInt64) (target : DeliveryTarget)
    (id : Uuid) (revision : Int) (index : Nat) :=
  cutCallback context actor target id revision (deleteSegment index)

def cutBack (context : DialogContext) (actor : UInt64) (target : DeliveryTarget) (id : Uuid)
    (revision : Int) := cutCallback context actor target id revision backCut

def cutCancel (context : DialogContext) (actor : UInt64) (target : DeliveryTarget)
    (id : Uuid) (revision : Int) (message : Option Int32) :=
  cutCallback context actor target id revision (cancelCut message)

def cutClaim (context : DialogContext) (actor : UInt64) (target : DeliveryTarget) (id : Uuid)
    (revision : Int) := cutCallback context actor target id revision claimCut

def cutQuality (context : DialogContext) (actor : UInt64) (target : DeliveryTarget)
    (id : Uuid) (revision : Int) := cutCallback context actor target id revision qualityStageCut

/-- The check on the choice of `cut_choose`. -/
def checkCutChoice (choice : QualityChoice) : Except StoreError Unit := do
  let _ ← QualityChoice.parse choice.asStr
  expect .invalidInput (choice != .audio)

def cutChoose (context : DialogContext) (actor : UInt64) (target : DeliveryTarget)
    (id : Uuid) (revision : Int) (choice : QualityChoice) :
    DialogDb → Except StoreError CutSession × DialogDb :=
  checkedAuto (checkCutChoice choice)
    (dialogTransaction context actor
      (fun db => requireChoiceReplay db actor target id revision >>=
        changed (chooseCut revision choice)) cutPut)

def cutSubmitted (context : DialogContext) (actor : UInt64) (target : DeliveryTarget)
    (id : Uuid) (revision : Int) (operationId : Uuid) :=
  cutCallback context actor target id revision (submitCut operationId)

end YoinkCore.Storage
