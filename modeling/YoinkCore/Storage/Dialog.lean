import YoinkCore.Storage.Admission
import YoinkCore.Storage.RoundTrip

/-!
# Dialogs

Two conversations of an actor with a bot survive a restart: one cuts clips out of a
source, the other picks a quality. Each keeps one row per actor, bot and chat, with
the constraints of its table. A quality dialog may keep the Telegram request it was
begun with beside its row.
-/

namespace YoinkCore.Storage

open Lib Domain

/-! ## Choices and stages -/

inductive QualityChoice where
  | best
  | audio
  | height (h : UInt32)
deriving DecidableEq

namespace QualityChoice

/-- The public labels. -/
def labels : List (String × QualityChoice) :=
  [("best", .best), ("audio", .audio), ("2160", .height 2160), ("1440", .height 1440),
    ("1080", .height 1080), ("720", .height 720), ("480", .height 480),
    ("360", .height 360), ("240", .height 240), ("144", .height 144)]

def parse (value : String) : Except StoreError QualityChoice :=
  match labels.find? fun l => decide (l.1 = value) with
  | some l => .ok l.2
  | none => .error .invalidInput

/-- The label of a choice; a height without one gives the empty text. -/
def asStr (c : QualityChoice) : String :=
  ((labels.find? fun l => decide (l.2 = c)).map Prod.fst).getD ""

def maxHeight : QualityChoice → Option UInt32
  | best | audio => none
  | height h => some h

/-- The choices that have a label. -/
def listed (c : QualityChoice) : Bool := labels.any fun l => decide (l.2 = c)

variable {c : QualityChoice}

theorem parse_asStr (h : c.listed = true) : parse c.asStr = .ok c := by
  obtain ⟨⟨text, c'⟩, hl, hc⟩ := List.any_eq_true.mp h
  obtain rfl : c' = c := by simpa using hc
  have hall : ∀ l ∈ labels, parse (asStr l.2) = .ok l.2 := by decide
  exact hall _ hl

/-- The argument check of the operations that take a choice. -/
theorem parse_asStr_iff : (∃ c', parse c.asStr = .ok c') ↔ c.listed = true := by
  constructor
  · rintro ⟨c', h⟩
    by_contra hn
    have hf : (labels.find? fun l => decide (l.2 = c)) = none := by
      rw [List.find?_eq_none]
      exact fun l hl hc => hn (List.any_eq_true.mpr ⟨l, hl, hc⟩)
    rw [asStr, hf] at h
    change parse "" = .ok c' at h
    rw [show parse "" = .error .invalidInput by decide] at h
    cases h
  · exact fun h => ⟨c, parse_asStr h⟩

end QualityChoice

inductive CutStage where
  | start | stop | ready | quality | confirming | submitted | cancelled
deriving DecidableEq

namespace CutStage

def asStr : CutStage → String
  | start => "start"
  | stop => "end"
  | ready => "ready"
  | quality => "quality"
  | confirming => "confirming"
  | submitted => "submitted"
  | cancelled => "cancelled"

def parse : String → Except StoreError CutStage
  | "start" => .ok start
  | "end" => .ok stop
  | "ready" => .ok ready
  | "quality" => .ok quality
  | "confirming" => .ok confirming
  | "submitted" => .ok submitted
  | "cancelled" => .ok cancelled
  | _ => .error .invalidStoredData

@[simp] theorem parse_asStr (s : CutStage) : parse s.asStr = .ok s := by
  cases s <;> rfl

/-- The clips are chosen. -/
def clipped : CutStage → Bool
  | ready | quality | confirming | submitted => true
  | start | stop | cancelled => false

end CutStage

inductive QualityStage where
  | choosing | confirming | submitted | cancelled | cutting
deriving DecidableEq

namespace QualityStage

def text : QualityStage → String
  | choosing => "choosing"
  | confirming => "confirming"
  | submitted => "submitted"
  | cancelled => "cancelled"
  | cutting => "cutting"

def parse : String → Except StoreError QualityStage
  | "choosing" => .ok choosing
  | "confirming" => .ok confirming
  | "submitted" => .ok submitted
  | "cancelled" => .ok cancelled
  | "cutting" => .ok cutting
  | _ => .error .invalidStoredData

@[simp] theorem parse_text (s : QualityStage) : parse s.text = .ok s := by
  cases s <;> rfl

end QualityStage

/-! ## Sessions -/

section

variable [Platform]

structure CutSession where
  id : Uuid
  revision : Int
  stage : CutStage
  actorId : UInt64
  target : DeliveryTarget
  originMessageId : Int32
  lastMessageId : Int32
  start : Option Float
  stop : Option Float
  clips : List ClipRange
  editingIndex : Option Nat
  operationId : Option Uuid
  selected : Option QualityChoice
  beginStart : Option Float
  url : Option String
  original : Option DownloadRequest
  linkedQualityId : Option Uuid

structure QualitySession where
  id : Uuid
  revision : Int
  stage : QualityStage
  target : DeliveryTarget
  originMessageId : Int32
  selected : Option QualityChoice
  operationId : Option Uuid
  cutSessionId : Option Uuid
  request : DownloadRequest
  lastMessageId : Int32

end

/-! ## Rows -/

/-- The primary key of both tables. -/
structure DialogScope where
  actorId : Nat
  botId : Int64
  chatId : Int64
deriving DecidableEq

def dialogScope (actor : UInt64) (target : DeliveryTarget) : DialogScope :=
  ⟨actor.toNat, target.botId, target.chatId⟩

/-- The checks on the columns of the key. -/
def DialogScope.check (s : DialogScope) : Bool :=
  decide (0 < s.actorId) && decide (0 < s.botId.toInt) && decide (0 < s.chatId.toInt) &&
    decide (s.chatId.toInt = s.actorId)

/-- The hyphenated form, thirty-six characters long. -/
def Uuid.text (id : Uuid) : Text.Str :=
  let digits := hexDigits 32 id.bits.toNat
  digits.take 8 ++ '-' :: ((digits.drop 8).take 4 ++ '-' :: ((digits.drop 12).take 4 ++
    '-' :: ((digits.drop 16).take 4 ++ '-' :: digits.drop 20)))

@[simp] theorem Uuid.text_length (id : Uuid) : id.text.length = 36 := by
  simp [Uuid.text, hexDigits_length]

/-- A document that prints as at least two characters: all but the digits. -/
def twoCharacters : Json → Bool
  | .int n => decide (n < 0) || decide (9 < n)
  | _ => true

structure CutRow where
  scope : DialogScope
  id : Uuid
  revision : Int
  stage : String
  originMessageId : Int32
  lastMessageId : Int32
  sourceUrl : Option String
  beginStart : Option Float
  start : Option Float
  stop : Option Float
  operationId : Option Uuid
  selected : Option String
  originalRequest : Option Json
  linkedQualityId : Option Uuid
  clips : Json
  editingIndex : Option Int
deriving DecidableEq

namespace CutRow

/-- The `CHECK` clauses, in their order. -/
def checks (r : CutRow) : List Bool := [
  r.scope.check,
  decide (0 < r.revision),
  ["start", "end", "ready", "quality", "confirming", "submitted",
    "cancelled"].contains r.stage,
  decide (1 ≤ r.originMessageId.toInt) && decide (r.originMessageId.toInt ≤ i32Max),
  decide (r.originMessageId.toInt ≤ r.lastMessageId.toInt) &&
    decide (r.lastMessageId.toInt ≤ i32Max),
  r.originalRequest.all twoCharacters,
  r.linkedQualityId.all fun id => decide (id.text.length = 36),
  twoCharacters r.clips,
  r.editingIndex.all fun i => decide (0 ≤ i) && decide (i ≤ 19),
  r.stage == "cancelled" || r.sourceUrl.isSome,
  r.beginStart.all fun x => decide (0.0 ≤ x),
  r.start.all fun x => decide (0.0 ≤ x),
  !(["ready", "quality", "confirming", "submitted"].contains r.stage) ||
    r.start.any fun s => r.stop.any fun e => decide (s < e),
  (r.stage == "quality" && r.selected.isNone) || (r.stage != "quality" &&
    (r.selected.isNone || ["confirming", "submitted"].contains r.stage)),
  r.selected.all ["best", "2160", "1440", "1080", "720", "480", "360", "240",
    "144"].contains,
  (r.stage == "submitted") == r.operationId.isSome]

end CutRow

def cutSchema : Schema CutRow where
  check r := r.checks.all id
  clash a b := decide (a.scope = b.scope)

structure QualityRow where
  scope : DialogScope
  id : Uuid
  revision : Int
  stage : String
  originMessageId : Int32
  lastMessageId : Int32
  request : Json
  selected : Option String
  operationId : Option Uuid
  linkedCutId : Option Uuid
deriving DecidableEq

namespace QualityRow

/-- The `CHECK` clauses, in their order. -/
def checks (r : QualityRow) : List Bool := [
  r.scope.check,
  decide (0 < r.revision),
  ["choosing", "confirming", "submitted", "cancelled", "cutting"].contains r.stage,
  decide (1 ≤ r.originMessageId.toInt) && decide (r.originMessageId.toInt ≤ i32Max),
  decide (r.originMessageId.toInt ≤ r.lastMessageId.toInt) &&
    decide (r.lastMessageId.toInt ≤ i32Max),
  (["confirming", "submitted"].contains r.stage && r.selected.isSome) ||
    (["choosing", "cancelled", "cutting"].contains r.stage && r.selected.isNone),
  (r.stage == "submitted") == r.operationId.isSome,
  r.selected.all ["best", "audio", "2160", "1440", "1080", "720", "480", "360", "240",
    "144"].contains,
  decide (r.id.text.length = 36),
  (r.stage == "choosing" && decide (r.revision = 1)) ||
    (["confirming", "cancelled", "cutting"].contains r.stage && decide (2 ≤ r.revision)) ||
    (r.stage == "submitted" && decide (r.revision = 3)),
  (r.stage == "cutting") == r.linkedCutId.isSome,
  r.linkedCutId.all fun id => decide (id.text.length = 36)]

end QualityRow

def qualitySchema : Schema QualityRow where
  check r := r.checks.all id
  clash a b := decide (a.scope = b.scope)

/-- The Telegram request a quality dialog was begun with. -/
structure MediaIntentRow where
  sessionId : Uuid
  intent : Json
deriving DecidableEq

def mediaIntentSchema : Schema MediaIntentRow where
  check r := decide (r.sessionId.text.length = 36)
  clash a b := decide (a.sessionId = b.sessionId)

theorem cutSchema_scope : Table.Keyed cutSchema CutRow.scope := by
  intro a b h
  simp [cutSchema, h]

theorem qualitySchema_scope : Table.Keyed qualitySchema QualityRow.scope := by
  intro a b h
  simp [qualitySchema, h]

theorem mediaIntentSchema_session : Table.Keyed mediaIntentSchema MediaIntentRow.sessionId := by
  intro a b h
  simp [mediaIntentSchema, h]

/-! ## The database -/

section

variable [Platform]

/-- The operation store with the tables of the dialogs. -/
structure DialogDb where
  store : Db
  quality : Table qualitySchema
  cuts : Table cutSchema
  intents : Table mediaIntentSchema

abbrev DialogStmt := Tx DialogDb StoreError

/-- Write a table back, unless its constraints refused the statement. -/
def writeDialog {τ : Type} (table : Option τ) (put : τ → DialogDb) : DialogStmt Unit :=
  match table with
  | none => throw .database
  | some t => set (put t)

variable {db : DialogDb} {actor : UInt64}

variable {e : StoreError} {db' : DialogDb}

@[simp] theorem writeDialog_eq_ok {τ : Type} {table : Option τ} {put : τ → DialogDb} {u : Unit} :
    writeDialog table put db = .ok (u, db') ↔ ∃ t, table = some t ∧ db' = put t := by
  cases table with
  | none => simp [writeDialog]
  | some t => simp [writeDialog, eq_comm]

/-! ## Arguments -/

/-- Fail with an error unless a condition holds. -/
def expect (e : StoreError) (holds : Bool) : Except StoreError Unit :=
  if holds then .ok () else .error e

omit [Platform] in
@[simp] theorem expect_eq_ok {holds : Bool} {u : Unit} : expect e holds = .ok u ↔ holds = true := by
  cases holds <;> simp [expect]

/-- A dialog belongs to the private chat of its actor. -/
def validateScope (actor : UInt64) (target : DeliveryTarget) : Except StoreError Unit :=
  expect .invalidInput (decide (0 < actor.toNat) && decide (actor.toNat ≤ i64Max) &&
    decide (0 < target.chatId.toInt) && decide (target.chatId.toInt = actor.toNat) &&
    target.threadId.isNone)

def validateRevision (actor : UInt64) (target : DeliveryTarget) (revision : Int) :
    Except StoreError Unit := do
  validateScope actor target
  expect .invalidInput (decide (0 < revision))

/-- `checked_add(1)` on a revision. -/
def nextRevision (revision : Int) : Except StoreError Int :=
  if revision < i64Max then .ok (revision + 1) else .error .invalidInput

omit [Platform] in
theorem nextRevision_eq_ok {revision next : Int} :
    nextRevision revision = .ok next ↔ revision < i64Max ∧ next = revision + 1 := by
  unfold nextRevision
  split <;> simp_all [eq_comm]

/-- A request answers a message of a private chat. -/
def answers (t : DeliveryTarget) (botId chatId : Int64) (message : Int32) : Bool :=
  t.botId == botId && t.chatId == chatId && t.threadId.isNone &&
    t.replyToMessageId == some message

/-- What a dialog operation reads besides its arguments: who may hold dialogs, and the
time. -/
structure DialogContext where
  authorization : Option (Option Nat)
  now : Int

/-- Whether the actor may hold dialogs. -/
def dialogAuthorized (context : DialogContext) (actor : UInt64) (db : DialogDb) : Bool :=
  context.authorization.all fun owner => deferredMediaAuthorize db.store actor.toNat
    context.now (decide (owner = some actor.toNat))

def authorizeDialog (context : DialogContext) (actor : UInt64) : DialogStmt Unit := do
  let db ← get
  Tx.ofExcept (expect .unauthorized (dialogAuthorized context actor db))

variable {context : DialogContext}

theorem authorizeDialog_eq_ok {u : Unit} :
    authorizeDialog context actor db = .ok (u, db') ↔
      dialogAuthorized context actor db = true ∧ db = db' := by
  simp [authorizeDialog, and_comm]

theorem authorizeDialog_eq_error :
    authorizeDialog context actor db = .error e ↔
      dialogAuthorized context actor db = false ∧ e = .unauthorized := by
  have hget : (get : DialogStmt DialogDb) db = .ok (db, db) := rfl
  unfold authorizeDialog
  rw [Tx.bind_of_ok hget, Tx.ofExcept_eq_error]
  cases dialogAuthorized context actor db <;> simp [expect, eq_comm]

/-! ## Operations -/

/-- An operation decides on what it finds: its reply, and what there is to save. -/
abbrev Plan (α σ : Type) := DialogDb → Except StoreError (α × Option σ)

/-- Save what there is to save. -/
def saveAll {σ : Type} (put : σ → DialogStmt Unit) : Option σ → DialogStmt Unit
  | none => pure ()
  | some s => put s

/-- The transaction of an operation: the actor is checked again inside it. -/
def dialogTransaction {α σ : Type} (context : DialogContext) (actor : UInt64)
    (plan : Plan α σ) (put : σ → DialogStmt Unit) : DialogStmt α := do
  authorizeDialog context actor
  let db ← get
  let planned ← Tx.ofExcept (plan db)
  saveAll put planned.2
  return planned.1

/-- Run a transaction after the checks on its arguments. -/
def checkedAuto {α : Type} (checks : Except StoreError Unit) (body : DialogStmt α)
    (db : DialogDb) : Except StoreError α × DialogDb :=
  match checks with
  | .error e => (.error e, db)
  | .ok _ => Tx.auto body db

/-- A transaction that goes through saved what its plan asked for. -/
theorem dialogTransaction_eq_ok {α σ : Type} {plan : Plan α σ} {put : σ → DialogStmt Unit}
    {reply : α} :
    dialogTransaction context actor plan put db = .ok (reply, db') ↔
      dialogAuthorized context actor db = true ∧
        ∃ saved, plan db = .ok (reply, saved) ∧ saveAll put saved db = .ok ((), db') := by
  simp only [dialogTransaction, Tx.bind_eq_ok, Tx.get_eq_ok, Tx.ofExcept_eq_ok,
    Tx.pure_eq_ok, authorizeDialog_eq_ok]
  constructor
  · rintro ⟨_, _, ⟨ha, rfl⟩, _, _, ⟨rfl, rfl⟩, ⟨_, saved⟩, _, ⟨hp, rfl⟩, _, _, hs, rfl, rfl⟩
    exact ⟨ha, saved, hp, hs⟩
  · rintro ⟨ha, saved, hp, hs⟩
    exact ⟨(), db, ⟨ha, rfl⟩, _, _, ⟨rfl, rfl⟩, ⟨reply, saved⟩, _, ⟨hp, rfl⟩, _, _, hs, rfl, rfl⟩

/-- A transaction that fails does so for the actor, in its plan or in a write. -/
theorem dialogTransaction_eq_error {α σ : Type} {plan : Plan α σ} {put : σ → DialogStmt Unit}
    (h : dialogTransaction context actor plan put db = .error e) :
    e = .unauthorized ∨ plan db = .error e ∨
      ∃ reply s, plan db = .ok (reply, some s) ∧ put s db = .error e := by
  rcases Tx.bind_eq_error.mp h with ha | ⟨_, _, ha, h⟩
  · exact .inl (authorizeDialog_eq_error.mp ha).2
  obtain ⟨-, rfl⟩ := authorizeDialog_eq_ok.mp ha
  rcases Tx.bind_eq_error.mp h with hg | ⟨_, _, hg, h⟩
  · cases hg
  obtain ⟨rfl, rfl⟩ := Tx.get_eq_ok.mp hg
  rcases Tx.bind_eq_error.mp h with hp | ⟨⟨reply, saved⟩, _, hp, h⟩
  · exact .inr (.inl (Tx.ofExcept_eq_error.mp hp))
  obtain ⟨hplan, rfl⟩ := Tx.ofExcept_eq_ok.mp hp
  rcases Tx.bind_eq_error.mp h with hs | ⟨_, _, -, h⟩
  · cases saved with
    | none => cases hs
    | some s => exact .inr (.inr ⟨reply, s, hplan, hs⟩)
  · cases h

end

end YoinkCore.Storage
