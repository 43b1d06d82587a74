import YoinkCore.Storage.CutDialog

/-!
# Quality dialogs

The operations on the row of a quality dialog, and the hand-off of its draft to a cut
dialog. A draft that was begun with a Telegram request keeps it until the dialog is
replaced and no cut needs it.
-/

namespace YoinkCore.Storage

open Lib Domain

variable [Platform]

/-! ## The row of a session -/

def qualityRow (actor : UInt64) (s : QualitySession) : QualityRow where
  scope := dialogScope actor s.target
  id := s.id
  revision := s.revision
  stage := s.stage.text
  originMessageId := s.originMessageId
  lastMessageId := s.lastMessageId
  request := Codec.encode s.request
  selected := s.selected.map QualityChoice.asStr
  operationId := s.operationId
  linkedCutId := s.cutSessionId

/-- The default parameters with the structural selections of others. -/
def structural (p : DownloadParams) : Except RequestValidationError DownloadParams :=
  ((DownloadParams.default.withEngine p.engine).withPlaylist p.playlist).withClips p.clips

/-- Structural selections belong to the original request. Format overrides remain
separate until the actor chooses a height. -/
def isQualityDraft (request : DownloadRequest) : Bool :=
  (match structural request.params with
    | .ok expected => expected == request.params
    | .error _ => false) &&
    request.preferenceOverrides.all fun o =>
      o.maxHeight.isNone && o.galleryZip.isNone && o.subtitleLanguage.isNone &&
        o.subtitleAutomatic.isNone

/-- What a dialog asks of its draft. -/
def draftFits (actor : Nat) (botId chatId : Int64) (message : Int32)
    (request : DownloadRequest) : Bool :=
  decide (request.actorId.toNat = actor) &&
    decide (Text.byteLen request.sourceUrl.asStr.toList ≤ 4096) &&
    request.mediaMode == .video && isQualityDraft request && request.network == .none &&
    request.target.any (answers · botId chatId message)

/-- The revision of a session follows from its stage. -/
def QualityStage.expectedRevision : QualityStage → Int
  | choosing => 1
  | confirming | cancelled | cutting => 2
  | submitted => 3

/-- The stages that have a selection. -/
def QualityStage.confirmed : QualityStage → Bool
  | confirming | submitted => true
  | choosing | cancelled | cutting => false

def decodeQuality (row : QualityRow) : Except StoreError QualitySession := do
  let target ← mapError .invalidStoredData
    (DeliveryTarget.new row.scope.botId row.scope.chatId none (some row.originMessageId))
  let request ← Codec.decode row.request
  expect .invalidStoredData (decide (0 < row.scope.actorId) &&
    draftFits row.scope.actorId row.scope.botId row.scope.chatId row.originMessageId request)
  let stage ← QualityStage.parse row.stage
  let selected ← row.selected.mapM QualityChoice.parse
  expect .invalidStoredData ((stage == .cutting) == row.linkedCutId.isSome)
  expect .invalidStoredData (decide (row.revision = stage.expectedRevision) &&
    decide (0 < row.originMessageId.toInt) &&
    decide (row.originMessageId.toInt ≤ row.lastMessageId.toInt) &&
    stage.confirmed == selected.isSome && (stage == .submitted) == row.operationId.isSome)
  return {
    id := row.id, revision := row.revision, stage, target
    originMessageId := row.originMessageId, selected, operationId := row.operationId
    cutSessionId := row.linkedCutId, request, lastMessageId := row.lastMessageId }

/-! ## Reading and saving -/

/-- quality_get_for_target.sql -/
def qualityGetForTarget (db : DialogDb) (actor : UInt64) (target : DeliveryTarget) :
    Option QualityRow :=
  db.quality.find QualityRow.scope (dialogScope actor target)

/-- The session of a scope. -/
def currentQualitySession (db : DialogDb) (actor : UInt64) (target : DeliveryTarget) :
    Except StoreError (Option QualitySession) :=
  (qualityGetForTarget db actor target).mapM decodeQuality

def qualityCurrent (actor : UInt64) (target : DeliveryTarget) (db : DialogDb) :
    Except StoreError (Option QualitySession) := do
  validateScope actor target
  currentQualitySession db actor target

/-- The session a callback is about. A callback that made a transition may come again. -/
def qualityGet (db : DialogDb) (actor : UInt64) (target : DeliveryTarget) (id : Uuid)
    (revision : Int) : Except StoreError QualitySession := do
  validateRevision actor target revision
  match ← currentQualitySession db actor target with
  | none => .error .notFoundOrStale
  | some s => do
      expect .notFoundOrStale (decide (s.id = id) && (decide (s.revision = revision) ||
        ((s.stage == .confirming || s.stage == .cancelled) &&
          decide (s.revision - 1 = revision))))
      return s

/-- quality_media_intent_superseded_delete.sql -/
def mediaIntentSupersededDelete (scope : DialogScope) (id : Uuid) : DialogStmt Unit := do
  let db ← get
  set { db with
    intents := (db.intents.delete fun i =>
      db.quality.rows.any (fun r => decide (r.scope = scope) && decide (r.id ≠ id) &&
        decide (r.id = i.sessionId)) && !db.linkedCut i.sessionId).1 }

/-- quality_put.sql -/
def qualityUpsert (row : QualityRow) : DialogStmt Unit := do
  let db ← get
  writeDialog (db.quality.upsert QualityRow.scope row fun old => { row with scope := old.scope })
    fun quality => { db with quality }

/-- The old identifier of the scope is released before the row replaces it. -/
def qualityPut (actor : UInt64) (s : QualitySession) : DialogStmt Unit := do
  mediaIntentSupersededDelete (dialogScope actor s.target) s.id
  qualityUpsert (qualityRow actor s)

/-- quality_media_intent_put.sql -/
def mediaIntentPut (id : Uuid) (intent : Json) : DialogStmt Unit := do
  let db ← get
  writeDialog (db.intents.upsert MediaIntentRow.sessionId ⟨id, intent⟩ fun old => old)
    fun intents => { db with intents }

/-- quality_media_intent_read.sql -/
def qualityMediaIntent (db : DialogDb) (id : Uuid) : Except StoreError (Option DownloadRequest) :=
  ((db.intents.find MediaIntentRow.sessionId id).map MediaIntentRow.intent).mapM Codec.decode

omit [Platform] in
theorem qualityRow_replaces (row : QualityRow) :
    Table.Replaces QualityRow.scope row fun old => { row with scope := old.scope } := by
  refine ⟨fun a => rfl, fun a h => ?_⟩
  show ({ row with scope := a.scope } : QualityRow) = row
  rw [h]

/-- What saving a quality session leaves behind. -/
structure QualitySaved (actor : UInt64) (s : QualitySession) (db db' : DialogDb) : Prop where
  store : db'.store = db.store
  cuts : db'.cuts = db.cuts
  quality : db.quality.upsert QualityRow.scope (qualityRow actor s)
    (fun old => { qualityRow actor s with scope := old.scope }) = some db'.quality
  intents : ∀ i, i ∈ db'.intents.rows ↔ i ∈ db.intents.rows ∧
    ¬ ((∃ r, qualityGetForTarget db actor s.target = some r ∧ r.id ≠ s.id ∧
        r.id = i.sessionId) ∧ db.linkedCut i.sessionId = false)

variable {db db' : DialogDb} {actor : UInt64}

theorem qualityUpsert_eq_ok {row : QualityRow} {u : Unit} :
    qualityUpsert row db = .ok (u, db') ↔
      ∃ quality, db.quality.upsert QualityRow.scope row
        (fun old => { row with scope := old.scope }) = some quality ∧
        db' = { db with quality } := by
  simp only [qualityUpsert, Tx.bind_eq_ok, Tx.get_eq_ok, writeDialog_eq_ok]
  constructor
  · rintro ⟨_, _, ⟨rfl, rfl⟩, h⟩
    exact h
  · exact fun h => ⟨db, db, ⟨rfl, rfl⟩, h⟩

/-- The row of a scope is the only one the first statement can match. -/
theorem superseded_iff {target : DeliveryTarget} {id session : Uuid} :
    (db.quality.rows.any fun r => decide (r.scope = dialogScope actor target) &&
        decide (r.id ≠ id) && decide (r.id = session)) = true ↔
      ∃ r, qualityGetForTarget db actor target = some r ∧ r.id ≠ id ∧ r.id = session := by
  simp only [List.any_eq_true, Bool.and_eq_true, decide_eq_true_eq, qualityGetForTarget,
    Table.find_eq_some qualitySchema_scope, and_assoc]

theorem qualityPut_saved {s : QualitySession} {u : Unit}
    (h : qualityPut actor s db = .ok (u, db')) : QualitySaved actor s db db' := by
  simp only [qualityPut, mediaIntentSupersededDelete, Tx.bind_eq_ok, Tx.get_eq_ok,
    Tx.set_eq_ok, qualityUpsert_eq_ok] at h
  obtain ⟨_, _, ⟨_, _, ⟨rfl, rfl⟩, rfl⟩, quality, hq, rfl⟩ := h
  refine ⟨rfl, rfl, hq, fun i => ?_⟩
  simp only [Table.delete_rows, List.mem_filter]
  refine and_congr_right fun _ => ?_
  rw [← superseded_iff, Bool.not_eq_true', Bool.and_eq_false_iff, Bool.not_eq_false']
  generalize db.quality.rows.any _ = x
  cases x <;> cases db.linkedCut i.sessionId <;> simp

/-- A row that passes its checks is saved. -/
theorem qualityPut_of_check {s : QualitySession}
    (h : qualitySchema.check (qualityRow actor s) = true) :
    ∃ db', qualityPut actor s db = .ok ((), db') := by
  obtain ⟨quality, hquality⟩ := Table.upsert_of_check (T := db.quality) qualitySchema_scope
    (fun a b hab => by simpa [qualitySchema] using hab)
    (qualityRow_replaces (qualityRow actor s)) h
  exact ⟨_, Tx.bind_eq_ok.mpr ⟨(), _, rfl, qualityUpsert_eq_ok.mpr ⟨quality, hquality, rfl⟩⟩⟩

namespace QualitySaved

variable {actor : UInt64} {s : QualitySession} {db db' : DialogDb}

theorem get (h : QualitySaved actor s db db') (actor' : UInt64) (target : DeliveryTarget) :
    qualityGetForTarget db' actor' target =
      if dialogScope actor' target = dialogScope actor s.target then some (qualityRow actor s)
      else qualityGetForTarget db actor' target :=
  Table.find_replace (qualityRow_replaces (qualityRow actor s)) h.quality _

theorem mem (h : QualitySaved actor s db db') {row : QualityRow} :
    row ∈ db'.quality.rows ↔ row = qualityRow actor s ∨
      row ∈ db.quality.rows ∧ row.scope ≠ dialogScope actor s.target :=
  Table.mem_replace qualitySchema_scope (qualityRow_replaces (qualityRow actor s)) h.quality

end QualitySaved

/-- Keeping the original of a draft whose identifier is new. -/
theorem mediaIntentPut_saved {id : Uuid} {intent : Json} {u : Unit}
    (h : mediaIntentPut id intent db = .ok (u, db')) :
    db'.store = db.store ∧ db'.cuts = db.cuts ∧ db'.quality = db.quality ∧
      ∀ k, (∃ i ∈ db'.intents.rows, i.sessionId = k) ↔
        k = id ∨ ∃ i ∈ db.intents.rows, i.sessionId = k := by
  simp only [mediaIntentPut, Tx.bind_eq_ok, Tx.get_eq_ok, writeDialog_eq_ok] at h
  obtain ⟨_, _, ⟨rfl, rfl⟩, intents, hi, rfl⟩ := h
  refine ⟨rfl, rfl, rfl, fun k => ?_⟩
  have hfound : ∀ (T : Table mediaIntentSchema), (∃ i ∈ T.rows, i.sessionId = k) ↔
      (T.find MediaIntentRow.sessionId k).isSome = true := by
    intro T
    rw [Option.isSome_iff_exists]
    simp only [Table.find_eq_some mediaIntentSchema_session]
  rw [hfound, hfound, Table.find_upsert (fun a => rfl) hi]
  split
  · rename_i hk
    simp [hk]
  · rename_i hk
    simp [hk]

/-- There is always room for the original of a draft. -/
theorem mediaIntentPut_ok (id : Uuid) (intent : Json) (db : DialogDb) :
    ∃ db', mediaIntentPut id intent db = .ok ((), db') := by
  have hcheck : mediaIntentSchema.check ⟨id, intent⟩ = true := by simp [mediaIntentSchema]
  cases hf : db.intents.find MediaIntentRow.sessionId id with
  | some old =>
      have hu : db.intents.update (fun a => decide (a.sessionId = id)) (fun old => old) =
          some (db.intents, db.intents.rows.countP fun a => decide (a.sessionId = id)) := by
        rw [Table.update_eq_some]
        simp
      have hup : db.intents.upsert MediaIntentRow.sessionId ⟨id, intent⟩ (fun old => old) =
          some db.intents := by
        rw [Table.upsert, hf]
        simp [hu]
      exact ⟨db, by simp [mediaIntentPut, hup]⟩
  | none =>
      obtain ⟨intents, hi⟩ := Table.upsert_of_check (T := db.intents)
        (r := ⟨id, intent⟩) (f := fun a => ⟨a.sessionId, intent⟩) mediaIntentSchema_session
        (fun a b hab => by simpa [mediaIntentSchema] using hab)
        ⟨fun a => rfl, fun a h => congrArg (MediaIntentRow.mk · intent) h⟩ hcheck
      have hup : db.intents.upsert MediaIntentRow.sessionId ⟨id, intent⟩ (fun old => old) =
          some intents := by
        rw [Table.upsert, hf] at hi ⊢
        exact hi
      exact ⟨{ db with intents }, by simp [mediaIntentPut, hup]⟩

/-! ## Changes -/

/-- A new session, unless the message was seen before or a session is being confirmed.
The stored documents are equal exactly when the requests are, clip bounds compared as
numbers. -/
def beginQuality (target : DeliveryTarget) (message : Int32) (request : DownloadRequest)
    (fresh : Uuid) (current : Option QualitySession) :
    Except StoreError (QualitySession × Option QualitySession) :=
  let begun : Except StoreError (QualitySession × Option QualitySession) := do
    let target ← mapError .invalidInput
      (DeliveryTarget.new target.botId target.chatId none (some message))
    let session : QualitySession := {
      id := fresh, revision := 1, stage := .choosing, target, originMessageId := message
      selected := none, operationId := none, cutSessionId := none, request
      lastMessageId := message }
    return (session, some session)
  match current with
  | none => begun
  | some prior =>
      if message ≤ prior.lastMessageId then
        if message = prior.originMessageId ∧ (prior.request == request) = false then
          .error .conflict
        else .ok (prior, none)
      else if prior.stage = .confirming then .error .conflict
      else begun

def claimQuality (revision : Int) (choice : QualityChoice) (s : QualitySession) :
    Except StoreError (Option QualitySession) :=
  if s.stage = .confirming ∧ s.selected = some choice ∧
      (revision = s.revision ∨ revision = s.revision - 1) then .ok none
  else do
    expect .conflict (s.stage == .choosing)
    return some { s with
      stage := .confirming, revision := s.revision + 1, selected := some choice }

def cancelQuality (revision : Int) (s : QualitySession) :
    Except StoreError (Option QualitySession) :=
  if s.stage = .cancelled ∧ revision = s.revision - 1 then .ok none
  else do
    expect .conflict (s.stage == .choosing)
    return some { s with stage := .cancelled, revision := s.revision + 1 }

def submitQuality (revision : Int) (operation : Uuid) (s : QualitySession) :
    Except StoreError (Option QualitySession) :=
  if s.stage = .submitted ∧ s.operationId = some operation then .ok none
  else do
    expect .conflict (s.stage == .confirming && decide (revision = s.revision))
    return some { s with
      stage := .submitted, revision := s.revision + 1, operationId := some operation }

/-- A cut may only replace one that is over, and begun before the draft. -/
def handOffAllowed (quality : QualitySession) (existing : CutSession) : Bool :=
  decide (existing.lastMessageId < quality.originMessageId) &&
    (existing.stage == .submitted || existing.stage == .cancelled)

/-- The cut that takes over a draft. -/
def handedOff (actor : UInt64) (quality : QualitySession) (target : DeliveryTarget)
    (fresh : Uuid) : CutSession :=
  let range := quality.request.clipRange
  { id := fresh, revision := 1, stage := if range.isSome then .ready else .start
    actorId := actor, target
    originMessageId := quality.originMessageId, lastMessageId := quality.originMessageId
    start := range.map ClipRange.startSeconds, stop := range.map ClipRange.endSeconds
    clips := range.toList, editingIndex := none, operationId := none, selected := none
    beginStart := range.map ClipRange.startSeconds
    url := some quality.request.sourceUrl.asStr, original := some quality.request
    linkedQualityId := some quality.id }

/-- The cut a draft was handed to. -/
def resumeCut (db : DialogDb) (actor : UInt64) (target : DeliveryTarget) (revision : Int)
    (quality : QualitySession) : Except StoreError CutSession := do
  expect .conflict (decide (revision = quality.revision ∨ revision = quality.revision - 1))
  let linked ← stored quality.cutSessionId
  match ← currentCut db actor target with
  | none => .error .conflict
  | some cut => do
      expect .conflict (decide (cut.id = linked ∧ cut.linkedQualityId = some quality.id))
      return cut

def handOff (db : DialogDb) (actor : UInt64) (target : DeliveryTarget) (revision : Int)
    (fresh : Uuid) (quality : QualitySession) :
    Except StoreError (CutSession × QualitySession) := do
  expect .conflict (quality.stage == .choosing && decide (quality.revision = revision))
  expect .invalidInput
    (quality.request.params.playlist.isNone && quality.request.params.clips.isEmpty)
  let active ← currentCut db actor target
  expect .conflict (active.all (handOffAllowed quality))
  let target ← mapError .invalidInput
    (DeliveryTarget.new target.botId target.chatId none (some quality.originMessageId))
  let revision ← nextRevision quality.revision
  return (handedOff actor quality target fresh, { quality with
    stage := .cutting, revision, cutSessionId := some fresh })

/-! ## The operations -/

/-- A callback: change the session it names. -/
def qualityCallback (context : DialogContext) (actor : UInt64) (target : DeliveryTarget)
    (id : Uuid) (revision : Int) (checks : Except StoreError Unit)
    (change : QualitySession → Except StoreError (Option QualitySession)) :
    DialogDb → Except StoreError QualitySession × DialogDb :=
  checkedAuto (do
      validateRevision actor target revision
      checks)
    (dialogTransaction context actor
      (fun db => do
        let s ← qualityGet db actor target id revision
        (change s).map fun saved => (saved.getD s, saved))
      (qualityPut actor))

/-- The checks on the arguments of `quality_begin_media`. -/
def checkQualityBegin (actor : UInt64) (target : DeliveryTarget) (message : Int32)
    (request : DownloadRequest) : Except StoreError Unit := do
  validateScope actor target
  expect .invalidInput (decide (0 < message) &&
    draftFits actor.toNat target.botId target.chatId message request)

/-- Save a new session with the Telegram request it was begun with. -/
def putWithOriginal (actor : UInt64) (original : Option DownloadRequest)
    (s : QualitySession) : DialogStmt Unit := do
  qualityPut actor s
  saveAll (fun request => mediaIntentPut s.id (Codec.encode request)) original

/-- A new session is saved, and its original beside it. -/
theorem putWithOriginal_saved {original : Option DownloadRequest} {s : QualitySession} {u : Unit}
    (h : putWithOriginal actor original s db = .ok (u, db')) :
    ∃ db₁, QualitySaved actor s db db₁ ∧ db'.store = db₁.store ∧ db'.cuts = db₁.cuts ∧
      db'.quality = db₁.quality ∧
      ∀ k, (∃ i ∈ db'.intents.rows, i.sessionId = k) ↔
        (original.isSome = true ∧ k = s.id) ∨ ∃ i ∈ db₁.intents.rows, i.sessionId = k := by
  obtain ⟨_, db₁, hput, hkeep⟩ := Tx.bind_eq_ok.mp h
  refine ⟨db₁, qualityPut_saved hput, ?_⟩
  cases original with
  | none =>
      obtain rfl : db₁ = db' := by simpa [saveAll] using hkeep
      simp
  | some r =>
      obtain ⟨hstore, hc, hq, hi⟩ := mediaIntentPut_saved (show mediaIntentPut s.id
        (Codec.encode r) db₁ = .ok (u, db') from hkeep)
      exact ⟨hstore, hc, hq, by simpa using hi⟩

def qualityBeginMedia (context : DialogContext) (actor : UInt64) (target : DeliveryTarget)
    (message : Int32) (request : DownloadRequest) (original : Option DownloadRequest)
    (fresh : Uuid) : DialogDb → Except StoreError QualitySession × DialogDb :=
  checkedAuto (checkQualityBegin actor target message request)
    (dialogTransaction context actor
      (fun db => currentQualitySession db actor target >>=
        beginQuality target message request fresh)
      (putWithOriginal actor original))

def qualityClaim (context : DialogContext) (actor : UInt64) (target : DeliveryTarget)
    (id : Uuid) (revision : Int) (choice : QualityChoice) :=
  qualityCallback context actor target id revision
    ((QualityChoice.parse choice.asStr).map fun _ => ()) (claimQuality revision choice)

def qualityCancel (context : DialogContext) (actor : UInt64) (target : DeliveryTarget)
    (id : Uuid) (revision : Int) :=
  qualityCallback context actor target id revision (.ok ()) (cancelQuality revision)

def qualitySubmitted (context : DialogContext) (actor : UInt64) (target : DeliveryTarget)
    (id : Uuid) (revision : Int) (operation : Uuid) :=
  qualityCallback context actor target id revision (.ok ()) (submitQuality revision operation)

/-- Save the draft that was handed off, then the cut. -/
def putHandoff (actor : UInt64) (p : CutSession × QualitySession) : DialogStmt Unit := do
  qualityPut actor p.2
  cutPut p.1

def qualityCut (context : DialogContext) (actor : UInt64) (target : DeliveryTarget)
    (id : Uuid) (revision : Int) (fresh : Uuid) :
    DialogDb → Except StoreError CutSession × DialogDb :=
  checkedAuto (validateRevision actor target revision)
    (dialogTransaction context actor
      (fun db => do
        match ← currentQualitySession db actor target with
        | none => .error .notFoundOrStale
        | some quality => do
            expect .conflict (decide (quality.id = id))
            if quality.stage = .cutting then
              (resumeCut db actor target revision quality).map fun cut => (cut, none)
            else
              (handOff db actor target revision fresh quality).map fun p => (p.1, some p))
      (putHandoff actor))

end YoinkCore.Storage
