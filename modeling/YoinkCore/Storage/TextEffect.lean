import YoinkCore.Lib.Attempt
import YoinkCore.Lib.Table
import YoinkCore.Lib.Transaction
import YoinkCore.Storage.Codec

/-!
# Text effects

A text message is sent at most once under its token. The row of a token records the
intent, the attempt and its receipt; a dispatcher that did not move the row to `sending`
itself never sends. Sealing a token leaves a tombstone that no dispatch crosses.
-/

namespace YoinkCore.Storage

open Lib Lib.Json Domain

variable [Platform]

/-! ## Identities -/

/-- What one text is about: bot, chat, incoming or edited message, and content. -/
structure TextIdentity where
  bot : Int64
  chat : Int64
  topic : Option Int32
  message : Int32
  actor : Int64
  item : Option Int64
  edit : Bool
  text : String
  payload : Json

omit [Platform] in
/-- Field by field, the payload as a value. -/
instance : BEq TextIdentity where
  beq a b :=
    a.bot == b.bot && a.chat == b.chat && a.topic == b.topic && a.message == b.message &&
      a.actor == b.actor && a.item == b.item && a.edit == b.edit && a.text == b.text &&
      a.payload.sameValue b.payload

def TextIdentity.valid (i : TextIdentity) : Bool :=
  decide (0 < i.bot.toInt) && i.chat.toInt != 0 && decide (0 < i.actor.toInt) &&
    decide (0 < i.message.toInt) && i.topic.all (fun v => decide (0 < v.toInt)) &&
    i.item.all (fun v => decide (0 < v.toInt)) &&
    decide ((Platform.jsonBytes i.payload).length ≤ 65536) && !i.text.toList.isEmpty &&
    decide (Text.utf16Len i.text.toList ≤ 4096)

mutual

/-- A document printed and read back. -/
def reread : Json → Option Json
  | .float x => (Platform.rereadF64 x).map .float
  | .arr items => (rereadItems items).map .arr
  | .obj fields => (rereadFields fields).map .obj
  | .null => some .null
  | .bool b => some (.bool b)
  | .int n => some (.int n)
  | .str s => some (.str s)

def rereadItems : List Json → Option (List Json)
  | [] => some []
  | v :: vs => do return (← reread v) :: (← rereadItems vs)

def rereadFields : List (String × Json) → Option (List (String × Json))
  | [] => some []
  | (k, v) :: rest => do return (k, ← reread v) :: (← rereadFields rest)

end

omit [Platform] in
def encodeIdentity (i : TextIdentity) : Json :=
  object [
    field "bot" (Codec.ofI64 i.bot),
    field "chat" (Codec.ofI64 i.chat),
    field "topic" (nullable (i.topic.map Codec.ofI32)),
    field "message" (Codec.ofI32 i.message),
    field "actor" (Codec.ofI64 i.actor),
    field "item" (nullable (i.item.map Codec.ofI64)),
    field "edit" (.bool i.edit),
    field "text" (.str i.text),
    field "payload" i.payload]

def decodeIdentity (v : Json) : Option TextIdentity := do
  let f ← asObj v
  let bot ← required f "bot" Codec.asI64
  let chat ← required f "chat" Codec.asI64
  let topic ← withDefault f "topic" (orNull Codec.asI32) none
  let message ← required f "message" Codec.asI32
  let actor ← required f "actor" Codec.asI64
  let item ← withDefault f "item" (orNull Codec.asI64) none
  let edit ← required f "edit" asBool
  let text ← required f "text" asStr
  let payload ← required f "payload" reread
  return { bot, chat, topic, message, actor, item, edit, text, payload }

/-! ## Rows -/

inductive TextState where
  | prepared | sending | unknown | confirmed | sealed
deriving DecidableEq

structure TextEffectRow where
  token : String
  identity : Option Json
  state : TextState
  receipt : Option Int32
  bound : Bool
deriving DecidableEq

/-- runtime_text_effects -/
def textEffectSchema : Schema TextEffectRow where
  check r :=
    decide (1 ≤ r.token.toList.length) && decide (r.token.toList.length ≤ 256) &&
      r.receipt.all (fun m => decide (0 < m.toInt)) &&
      match r.state with
      | .sealed => r.identity.isNone && r.receipt.isNone
      | .prepared | .sending | .unknown => r.identity.isSome && r.receipt.isNone
      | .confirmed => r.identity.isSome && r.receipt.isSome
  clash a b := decide (a.token = b.token)

abbrev TextTable := Table textEffectSchema

abbrev TextStmt := Tx TextTable StoreError

/-- Write a table back, unless its constraints refused the statement. -/
def TextStmt.write {α : Type} (f : TextTable → Option (TextTable × α)) : TextStmt α := do
  match f (← get) with
  | none => throw .database
  | some (table, a) => do
      set table
      return a

/-! ## Reading -/

inductive TextOutcome where
  | prepared
  | unknown
  | confirmed (message : Int32)
  | sealed
deriving DecidableEq

structure TextEffect where
  token : String
  identity : Option TextIdentity
  outcome : TextOutcome
  bound : Bool

def decodeOutcome (r : TextEffectRow) : Except StoreError TextOutcome :=
  match r.state with
  | .confirmed =>
      match r.receipt with
      | some message => .ok (.confirmed message)
      | none => .error .invalidStoredData
  | .sealed => .ok .sealed
  | .prepared => .ok .prepared
  | .sending | .unknown => .ok .unknown

def decodeRowIdentity (r : TextEffectRow) : Except StoreError (Option TextIdentity) :=
  match r.identity with
  | none => .ok none
  | some document =>
      match decodeIdentity document with
      | some identity => .ok (some identity)
      | none => .error .invalidStoredData

def decodeTextEffect (r : TextEffectRow) : Except StoreError TextEffect := do
  let identity ← decodeRowIdentity r
  let outcome ← decodeOutcome r
  return ⟨r.token, identity, outcome, r.bound⟩

def TextTable.effect (T : TextTable) (token : String) : Option TextEffectRow :=
  T.find TextEffectRow.token token

def textEffect (T : TextTable) (token : String) : Except StoreError (Option TextEffect) :=
  match T.effect token with
  | none => .ok none
  | some r => (decodeTextEffect r).map some

/-- The effect of a token whose row was just written. -/
def writtenEffect (T : TextTable) (token : String) : Except StoreError TextEffect := do
  match ← textEffect T token with
  | some effect => .ok effect
  | none => .error .database

/-! ## Statements -/

/-- `INSERT … ON CONFLICT(token) DO NOTHING`; tells whether a row was inserted. -/
def insertNew (row : TextEffectRow) (T : TextTable) : Option (TextTable × Bool) :=
  if (T.effect row.token).isSome then some (T, false)
  else (T.insert row).map fun U => (U, true)

def updateText (token : String) (p : TextEffectRow → Bool)
    (f : TextEffectRow → TextEffectRow) (T : TextTable) : Option (TextTable × Nat) :=
  T.update (fun r => decide (r.token = token) && p r) f

/-- The update of `begin_text_on`. -/
def admitPrepared (token : String) (payload : Json) : TextTable → Option (TextTable × Nat) :=
  updateText token (fun r => r.state == .prepared && decide (r.identity = some payload))
    fun r => { r with state := .sending }

/-- The upsert of `seal_text_absence`. -/
def sealPrepared (token : String) (T : TextTable) : Option TextTable :=
  T.upsert TextEffectRow.token ⟨token, none, .sealed, none, false⟩ fun r =>
    if r.state = .prepared then { r with state := .sealed, identity := none } else r

/-- The update of `confirm_text`. -/
def recordReceipt (token : String) (message : Int32) :
    TextTable → Option (TextTable × Nat) :=
  updateText token
    (fun r => r.state == .sending || r.state == .unknown ||
      (r.state == .confirmed && decide (r.receipt = some message)))
    fun r => { r with state := .confirmed, receipt := some message }

/-! ## The methods -/

abbrev TextMethod (α : Type) := TextTable → Except StoreError α × TextTable

def checkToken (token : String) : Except StoreError Unit :=
  ensure (!token.toList.isEmpty && decide (Text.byteLen token.toList ≤ 256))

def checkText (token : String) (identity : TextIdentity) : Except StoreError Unit := do
  checkToken token
  ensure identity.valid

/-- The transaction of `begin_text`. -/
def beginTextOn (token : String) (identity : TextIdentity) : TextStmt Bool := do
  let payload := encodeIdentity identity
  let changed ← TextStmt.write (insertNew ⟨token, some payload, .sending, none, false⟩)
  match writtenEffect (← get) token with
  | .error e => throw e
  | .ok effect => do
      if effect.outcome ≠ .sealed ∧ ¬ (effect.identity == some identity) = true then
        throw .conflict
      let admitted ← TextStmt.write (admitPrepared token payload)
      return changed || admitted == 1

/-- Commit `sending` before exactly one external attempt; `false` never permits one. -/
def beginText (token : String) (identity : TextIdentity) : TextMethod Bool := fun T =>
  match checkText token identity with
  | .error e => (.error e, T)
  | .ok _ => Tx.auto (beginTextOn token identity) T

/-- The transaction of `prepare_text_on`. -/
def prepareTextOn (token : String) (identity : TextIdentity) : TextStmt Unit := do
  let payload := encodeIdentity identity
  let _ ← TextStmt.write (insertNew ⟨token, some payload, .prepared, none, false⟩)
  match writtenEffect (← get) token with
  | .error e => throw e
  | .ok effect =>
      if (effect.identity == some identity) = true then return () else throw .conflict

def prepareText (token : String) (identity : TextIdentity) : TextMethod Unit := fun T =>
  match checkText token identity with
  | .error e => (.error e, T)
  | .ok _ => Tx.auto (prepareTextOn token identity) T

/-- Inserts a tombstone, or turns a prepared row into one; what was written stays if it
cannot be read. -/
def sealTextAbsence (token : String) : TextMethod TextEffect := fun T =>
  match checkToken token with
  | .error e => (.error e, T)
  | .ok _ =>
      match sealPrepared token T with
      | none => (.error .database, T)
      | some U => (writtenEffect U token, U)

def confirmText (token : String) (message : Int32) : TextMethod Unit := fun T =>
  if message.toInt ≤ 0 then (.error .invalidInput, T)
  else
    match recordReceipt token message T with
    | none => (.error .database, T)
    | some (U, changed) => (if changed = 1 then .ok () else .error .conflict, U)

/-- A method of one update that ignores how many rows it changed. -/
def textUpdate (f : TextTable → Option (TextTable × Nat)) : TextMethod Unit := fun T =>
  match f T with
  | none => (.error .database, T)
  | some (U, _) => (.ok (), U)

def unknownText (token : String) : TextMethod Unit :=
  textUpdate (updateText token (fun r => r.state == .sending)
    fun r => { r with state := .unknown })

def markTextBound (token : String) : TextMethod Unit :=
  textUpdate (updateText token (fun r => r.state == .confirmed) fun r => { r with bound := true })

end YoinkCore.Storage
