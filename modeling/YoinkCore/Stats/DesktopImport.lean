import YoinkCore.Identity.Snapshot
import YoinkCore.Lib.Added
import YoinkCore.Lib.TableIn
import YoinkCore.Lib.Written
import YoinkCore.Stats.Tables

/-!
# Imports of a desktop export

The messages of an export are added to those of a chat in one transaction. A message that is
there already is skipped, a user who has a name keeps it, and an event is recorded once.
-/

namespace YoinkCore.Stats.Desktop

open Lib Domain
open Lib.Text (Str)
open Identity (IdentityDb IdentityStore)
open Insight (JsonReader)

/-! ## Tables -/

/-- stats_messages -/
structure StoredMessage extends Message where
  forwardFrom : Option Int
  forwardFromChat : Option Int
  stickerSetName : Option String
  fileId : Option String
  isEdited : Bool
  senderTag : Option String
  messageThreadId : Option Int
deriving DecidableEq

def StoredMessage.checks (m : StoredMessage) : List Bool :=
  m.toMessage.checks ++ [
    m.forwardFrom.all isI64,
    m.forwardFromChat.all isI64,
    m.stickerSetName.all (·.length ≤ 128),
    m.fileId.all (·.length ≤ 256),
    m.senderTag.all (·.length ≤ 64),
    m.messageThreadId.all isI64]

def StoredMessage.key (m : StoredMessage) : Int × Int := (m.chatId, m.messageId)

def storedMessageSchema : Schema StoredMessage where
  check m := m.checks.all id
  clash a b := a.id = b.id || a.key = b.key

/-- stats_user_names -/
structure UserName where
  id : Int
  userId : Int
  date : Int
  username : Option String
  displayName : Option String
deriving DecidableEq

def UserName.checks (n : UserName) : List Bool := [
  isRowId n.id,
  isI64 n.userId,
  isI64 n.date,
  n.username.all (·.length ≤ 64),
  n.displayName.all (·.length ≤ 256)]

def userNameSchema : Schema UserName where
  check n := n.checks.all id
  clash a b := a.id = b.id || (a.userId = b.userId && a.date = b.date)

/-- stats_user_events -/
structure UserEvent where
  id : Int
  messageId : Int
  chatId : Int
  userId : Int
  date : Int
  event : String
deriving DecidableEq

def UserEvent.checks (e : UserEvent) : List Bool := [
  isRowId e.id,
  isI64 e.messageId,
  isI64 e.chatId,
  isI64 e.userId,
  isI64 e.date,
  e.event.length ≤ 32]

def UserEvent.key (e : UserEvent) : Int × Int × Int × String :=
  (e.messageId, e.chatId, e.userId, e.event)

def userEventSchema : Schema UserEvent where
  check e := e.checks.all id
  clash a b := a.id = b.id

/-- The tables of an import: those of the identities, which hold the users, and those of the
statistics with what their triggers count. -/
structure StatsDb where
  identity : IdentityDb
  messages : Table storedMessageSchema
  lastMessage : Int
  names : Table userNameSchema
  lastName : Int
  events : Table userEventSchema
  lastEvent : Int
  /-- stats_runtime_revision -/
  revision : Int
  /-- stats_subject_revisions -/
  subjects : Dict (String × Int × Int) Int
  /-- stats_search_dirty -/
  dirty : List Int
  /-- stats_search_state -/
  sourceRevision : Int

abbrev StatsTx := Tx StatsDb StatsError

def messagesTable : Serial StatsDb StatsError storedMessageSchema where
  read := StatsDb.messages
  write db t := { db with messages := t }
  fault := .database
  key m := m.id
  last := StatsDb.lastMessage
  setLast db n := { db with lastMessage := n }

def namesTable : Serial StatsDb StatsError userNameSchema where
  read := StatsDb.names
  write db t := { db with names := t }
  fault := .database
  key n := n.id
  last := StatsDb.lastName
  setLast db n := { db with lastName := n }

def eventsTable : Serial StatsDb StatsError userEventSchema where
  read := StatsDb.events
  write db t := { db with events := t }
  fault := .database
  key e := e.id
  last := StatsDb.lastEvent
  setLast db n := { db with lastEvent := n }

/-! ## Triggers -/

/-- `UPDATE stats_runtime_revision SET revision=revision+1`: a number beyond the column fails. -/
def bumpRevision : StatsTx Unit := do
  let db ← get
  if i64Max ≤ db.revision then throw .database
  set { db with revision := db.revision + 1 }

/-- After a message: the revision, and what the search has to look at again. -/
def messageInserted (id : Int) : StatsTx Unit := do
  bumpRevision
  let db ← get
  if i64Max ≤ db.sourceRevision then throw .database
  set { db with
    dirty := if db.dirty.contains id then db.dirty else db.dirty ++ [id]
    sourceRevision := db.sourceRevision + 1 }

/-- After a name: the revision, and that of its subject. -/
def nameInserted (user : Int) : StatsTx Unit := do
  bumpRevision
  let db ← get
  set { db with subjects := db.subjects.insert ("name", 0, user) db.revision }

/-! ## Reading an export -/

/-- serde_json as it reads an export, and chrono as it reads a date. -/
class DesktopReader where
  Raw : Type
  /-- The members of the object that the document is, in their order. -/
  members : List UInt8 → Option (List (String × Raw))
  items : Raw → Option (List Raw)
  value : Raw → Option Json
  /-- `DateTime::parse_from_rfc3339`, in microseconds -/
  rfc3339 : String → Option Int
  /-- `NaiveDateTime::parse_from_str`, in microseconds -/
  naive : String → Option Int

/-- `parser::messages` -/
def readMessages [DesktopReader] (bytes : List UInt8) (max : Nat) : Option (List Json) := do
  let members ← DesktopReader.members bytes
  match members.filter fun m => m.1 = "messages" with
  | [(_, raw)] =>
      let items ← DesktopReader.items raw
      if items.length ≤ max then items.mapM DesktopReader.value else none
  | _ => none

def user (v : Json) : Option Int :=
  let named := (v.asStr.bind fun s => Text.stripPrefix "user".toList s.toList).bind
    (Text.parseSigned i64Min i64Max)
  (named.or v.asI64).filter fun id => decide (0 < id)

def flatten (v : Json) : String :=
  match v.asStr with
  | some s => s
  | none => String.join ((v.asArr.getD []).filterMap fun v => v.asStr.or (v.entry "text").asStr)

def date [DesktopReader] (v : Json) : Except StatsError Int :=
  match (v.entry "date").asStr.bind fun s =>
      (DesktopReader.rfc3339 s).or (DesktopReader.naive s) with
  | some d => if d < 0 then .error .invalid else .ok d
  | none => .error .invalid

def bounded (s : Option String) (max : Nat) : Except StatsError (Option String) :=
  if s.any fun s => decide (max < s.length) then .error .invalid else .ok s

/-- What a service message tells. -/
def serviceKind (action : String) : String :=
  match action with
  | "edit_group_title" => "new_chat_title"
  | "pin_message" => "pinned_message"
  | "edit_group_photo" => "new_chat_photo"
  | "invite_members" | "join_group_by_link" => "new_chat_members"
  | "remove_members" => "left_chat_member"
  | s => s

def mediaKind (media : String) : String :=
  match media with
  | "audio_file" => "audio"
  | "video_file" => "video"
  | "voice_message" => "voice"
  | "video_message" => "video_note"
  | s => s

def action (m : Json) : String :=
  ((m.entry "action").asStr.filter fun s => !s.isEmpty).getD "service"

/-- `kind`, unless there is nothing in the message. -/
def kind (m : Json) (service : Bool) (content : String) : Option String :=
  if service then some (serviceKind (action m))
  else if (m.entry "photo").asStr.isSome then some "photo"
  else
    match (m.entry "media_type").asStr with
    | some media => some (mediaKind media)
    | none =>
        if !content.isEmpty then some "text"
        else if (m.entry "poll").asObj.isSome then some "poll"
        else none

def changesMembers (action : String) : Bool :=
  ["invite_members", "join_group_by_link", "remove_members"].contains action

/-- Whose membership a service message changes: sorted, and each once. -/
def membersOf (m : Json) (uid : Option Int) : List Int :=
  let members := ((m.entry "members").asArr.getD []).filterMap user
  let members :=
    if members.isEmpty && action m ≠ "remove_members" then members ++ uid.toList else members
  (members.mergeSort (· ≤ ·)).dedup

/-- A message that can be stored. -/
structure Entry where
  id : Int
  timestamp : Int
  service : Bool
  uid : Option Int
  content : String
  kind : String
  title : Option String
  sticker : Option String
  file : Option String

/-- What is in a message, or nothing where it is skipped. -/
def readEntry [DesktopReader] (m : Json) : Except StatsError (Option Entry) :=
  match (m.entry "id").asI64.filter fun id => decide (0 < id) with
  | none => .ok none
  | some id =>
      let type := (m.entry "type").asStr
      if type ≠ some "message" ∧ type ≠ some "service" then .ok none
      else do
        let timestamp ← date m
        let service := type = some "service"
        let uid := user (m.entry (if service then "actor_id" else "from_id"))
        let content := flatten (m.entry "text")
        match kind m service content with
        | none => .ok none
        | some kind => do
            let _ ← bounded (some kind) 32
            let title ← bounded (m.entry "title").asStr 256
            let sticker ← bounded (m.entry "sticker_emoji").asStr 128
            let file := if (m.entry "media_type").asStr = some "sticker" then
                (m.entry "file").asStr.filter fun s => !decide (".webp".toList <:+: s.toList)
              else none
            let _ ← bounded file 256
            return some ⟨id, timestamp, service, uid, content, kind, title, sticker, file⟩

/-! ## Importing -/

structure ImportCounts where
  inserted : Nat
  skipped : Nat
  events : Nat
  total : Nat
deriving DecidableEq

/-- What a call meets: what the clock says at each message, and whether the database fails there,
or the call is dropped. -/
structure Course where
  now : Nat → Int
  fails : Nat → Bool

/-- `is_media` -/
def Entry.isMedia (e : Entry) : Bool := e.kind != "text" && !e.service

/-- A text with something in it. -/
def Entry.contentText (e : Entry) : Option String :=
  if e.content.isEmpty then none else some e.content

def Entry.row (e : Entry) (chat : Int) (m : Json) (id : Int) : StoredMessage where
  id := id
  messageId := e.id
  chatId := chat
  date := e.timestamp
  fromUser := e.uid
  replyToMessage := (m.entry "reply_to_message_id").asI64
  text := if e.isMedia then none else e.contentText
  caption := if e.isMedia then e.contentText else none
  msgType := e.kind
  newChatTitle := e.title
  forwardFrom := if (m.entry "forwarded_from").asStr.isSome then e.uid else none
  forwardFromChat := none
  stickerSetName := e.sticker
  fileId := e.file
  isEdited := false
  senderTag := none
  messageThreadId := none

/-- The name of a sender, unless he has one. -/
def importName (now : Int) (uid : Int) (name : String) : StatsTx Unit := do
  if (← get).names.rows.any (fun n => n.userId = uid) then return
  let _ ← namesTable.insertNext fun id => ⟨id, uid, now, none, some name⟩
  nameInserted uid

/-- An event of a member, unless it is there: whether it is new. -/
def importEvent (chat : Int) (e : Entry) (event : String) (member : Int) : StatsTx Bool := do
  let key := (e.id, chat, member, event)
  if (← get).events.rows.any (fun r => r.key = key) then return false
  let _ ← eventsTable.insertNext fun id => ⟨id, e.id, chat, member, e.timestamp, event⟩
  bumpRevision
  return true

/-- The events of the members, counted from `n` on. -/
def importEvents (chat : Int) (e : Entry) (event : String) : Nat → List Int → StatsTx Nat
  | n, [] => return n
  | n, member :: rest => do
      let new ← importEvent chat e event member
      importEvents chat e event (if new then n + 1 else n) rest

def importSender (now : Int) (m : Json) (e : Entry) : StatsTx Unit :=
  match e.uid with
  | none => return
  | some uid => do
      match ← Tx.ofExcept (bounded (m.entry "from").asStr 256) with
      | none => return
      | some name => importName now uid name

/-- A message that is new: its sender's name and the memberships it changes. -/
def importDetails (now : Int) (chat : Int) (m : Json) (e : Entry) (events : Nat) :
    StatsTx Nat := do
  importSender now m e
  if e.service && changesMembers (action m) then
    importEvents chat e (if action m = "remove_members" then "left" else "joined") events
      (membersOf m e.uid)
  else return events

def importMessage [DesktopReader] (now : Int) (chat : Int) (counts : ImportCounts) (m : Json) :
    StatsTx ImportCounts := do
  match ← Tx.ofExcept (readEntry m) with
  | none => return { counts with skipped := counts.skipped + 1 }
  | some e => do
      let inserted ← messagesTable.insertNextIgnoring (fun r => r.key = (chat, e.id)) (e.row chat m)
      match inserted with
      | none => return { counts with skipped := counts.skipped + 1 }
      | some id => do
          messageInserted id
          let events ← importDetails now chat m e counts.events
          return { counts with inserted := counts.inserted + 1, events }

/-- The messages from the `i`-th on. -/
def importFrom [DesktopReader] (run : Course) (chat : Int) :
    Nat → ImportCounts → List Json → StatsTx ImportCounts
  | _, counts, [] => return counts
  | i, counts, m :: rest => do
      if run.fails i then throw .database
      let counts ← importMessage (run.now i) chat counts m
      importFrom run chat (i + 1) counts rest

/-- `role`: who may call at all. -/
def role [JsonReader] (store : IdentityStore) (now : Int) (db : IdentityDb) (actor : Int) :
    Except StatsError Role :=
  match store.snapshot now db actor none with
  | .error .database => .error .database
  | .error _ | .ok none => .error .forbidden
  | .ok (some snapshot) =>
      if snapshot.principal.isBlocked now || decide (snapshot.principal.role.rank < Role.user.rank)
      then .error .forbidden
      else .ok snapshot.principal.role

/-- `import_owner`: the call is an owner's, by what the transaction reads. -/
def importOwner [JsonReader] (store : IdentityStore) (now : Int) (actor : Int) :
    StatsTx Unit := do
  match store.snapshot now (← get).identity actor none with
  | .error _ => throw .database
  | .ok none => throw .forbidden
  | .ok (some snapshot) =>
      if snapshot.principal.role ≠ .owner || snapshot.principal.isBlocked now then
        throw .forbidden

def importBody [JsonReader] [DesktopReader] (store : IdentityStore) (run : Course)
    (actor chat : Int) (messages : List Json) : StatsTx (Ended ImportCounts) := do
  importOwner store (run.now 0) actor
  let counts ← importFrom run chat 0 ⟨0, 0, 0, messages.length⟩ messages
  importOwner store (run.now messages.length) actor
  if run.fails messages.length then throw .database
  return .commit counts

/-- `import_desktop` -/
def importDesktop [JsonReader] [DesktopReader] (store : IdentityStore) (run : Course)
    (actor chat : Int) (bytes : List UInt8) (maxMessages : Nat) (db : StatsDb) :
    Except StatsError ImportCounts × StatsDb :=
  match role store (run.now 0) db.identity actor with
  | .error e => (.error e, db)
  | .ok role =>
      if role ≠ .owner then (.error .forbidden, db)
      else if 0 ≤ chat ∨ maxMessages = 0 ∨ 100000 < maxMessages ∨ 16 * 1024 * 1024 < bytes.length
      then (.error .invalid, db)
      else
        match readMessages bytes maxMessages with
        | none => (.error .invalid, db)
        | some messages => Tx.run (importBody store run actor chat messages) db

/-! ## What an import adds -/

/-- Rows of one chat were added to the tables, and nothing else of them has changed: each new
message has an id of its own, each new name is the first of its user, and no event is there
twice. -/
structure Additive (chat : Int) (messages events : Nat) (db db' : StatsDb) : Prop where
  identity : db'.identity = db.identity
  messages : Added StoredMessage.key (fun m => m.chatId = chat) messages db.messages.rows
    db'.messages.rows
  names : ∃ n, Added UserName.userId (fun _ => True) n db.names.rows db'.names.rows
  events : Added UserEvent.key (fun e => e.chatId = chat) events db.events.rows db'.events.rows

theorem Additive.refl (chat : Int) (db : StatsDb) : Additive chat 0 0 db db :=
  ⟨rfl, .refl _ _ _, ⟨0, .refl _ _ _⟩, .refl _ _ _⟩

variable {db db' : StatsDb} {messages : List Json} {chat now : Int} {u : Unit} {e : Entry}

theorem Additive.trans {i j m n : Nat} {db₁ db₂ db₃ : StatsDb} (h : Additive chat i m db₁ db₂)
    (h' : Additive chat j n db₂ db₃) : Additive chat (i + j) (m + n) db₁ db₃ := by
  obtain ⟨k, hnames⟩ := h.names
  obtain ⟨k', hnames'⟩ := h'.names
  exact ⟨h'.identity.trans h.identity, h.messages.trans h'.messages,
    ⟨k + k', hnames.trans hnames'⟩, h.events.trans h'.events⟩

/-- Only what the triggers count is another. -/
theorem bumpRevision_additive (chat : Int) (h : bumpRevision db = .ok (u, db')) :
    Additive chat 0 0 db db' ∧ db'.messages = db.messages := by
  simp only [bumpRevision, Tx.bind_eq_ok, Tx.get_eq_ok] at h
  obtain ⟨_, _, ⟨rfl, rfl⟩, h⟩ := h
  split at h
  · cases h
  · cases Tx.set_eq_ok.mp h
    exact ⟨⟨rfl, .refl _ _ _, ⟨0, .refl _ _ _⟩, .refl _ _ _⟩, rfl⟩

theorem messageInserted_additive (chat : Int) {id : Int}
    (h : messageInserted id db = .ok (u, db')) :
    Additive chat 0 0 db db' ∧ db'.messages = db.messages := by
  simp only [messageInserted, Tx.bind_eq_ok, Tx.get_eq_ok] at h
  obtain ⟨_, db₁, hbump, _, _, ⟨rfl, rfl⟩, h⟩ := h
  obtain ⟨hadds, hsame⟩ := bumpRevision_additive chat hbump
  split at h
  · cases h
  · cases Tx.set_eq_ok.mp h
    exact ⟨⟨hadds.identity, hadds.messages, hadds.names, hadds.events⟩, hsame⟩

theorem nameInserted_additive (chat : Int) {user : Int} (h : nameInserted user db = .ok (u, db')) :
    Additive chat 0 0 db db' ∧ db'.messages = db.messages := by
  simp only [nameInserted, Tx.bind_eq_ok, Tx.get_eq_ok] at h
  obtain ⟨_, db₁, hbump, _, _, ⟨rfl, rfl⟩, h⟩ := h
  obtain ⟨hadds, hsame⟩ := bumpRevision_additive chat hbump
  cases Tx.set_eq_ok.mp h
  exact ⟨⟨hadds.identity, hadds.messages, hadds.names, hadds.events⟩, hsame⟩

theorem any_eq_false_iff {ρ κ : Type} [DecidableEq κ] {key : ρ → κ} {k : κ} {rows : List ρ} :
    rows.any (fun r => decide (key r = k)) = false ↔ ∀ r ∈ rows, key r ≠ k := by
  rw [List.any_eq_false]
  exact forall₂_congr fun r _ => not_congr decide_eq_true_iff

theorem importName_additive {uid : Int} {name : String}
    (h : importName now uid name db = .ok (u, db')) :
    Additive chat 0 0 db db' ∧ db'.messages = db.messages := by
  simp only [importName, Tx.bind_eq_ok, Tx.get_eq_ok] at h
  obtain ⟨_, _, ⟨rfl, rfl⟩, h⟩ := h
  split at h
  · obtain ⟨-, rfl⟩ := Tx.pure_eq_ok.mp h
    exact ⟨.refl chat db, rfl⟩
  · rename_i hnew
    rw [Bool.not_eq_true, any_eq_false_iff] at hnew
    simp only [Tx.bind_eq_ok, Serial.insertNext_eq_ok] at h
    obtain ⟨id, db₁, ⟨rfl, table, hrows, rfl⟩, h⟩ := h
    obtain ⟨hadds, hsame⟩ := nameInserted_additive chat h
    have hone : Additive chat 0 0 db (namesTable.setLast (namesTable.write db table)
        (namesTable.next db)) := by
      refine ⟨rfl, .refl _ _ _, ⟨1, ?_⟩, .refl _ _ _⟩
      show Added _ _ 1 db.names.rows table.rows
      rw [hrows]
      exact .one trivial hnew
    exact ⟨hone.trans hadds, hsame⟩

theorem importEvent_additive {member : Int} {event : String} {new : Bool}
    (h : importEvent chat e event member db = .ok (new, db')) :
    Additive chat 0 (if new then 1 else 0) db db' ∧ db'.messages = db.messages := by
  simp only [importEvent, Tx.bind_eq_ok, Tx.get_eq_ok] at h
  obtain ⟨_, _, ⟨rfl, rfl⟩, h⟩ := h
  split at h
  · obtain ⟨rfl, rfl⟩ := Tx.pure_eq_ok.mp h
    exact ⟨.refl chat db, rfl⟩
  · rename_i hnew
    rw [Bool.not_eq_true, any_eq_false_iff] at hnew
    simp only [Tx.bind_eq_ok, Serial.insertNext_eq_ok, Tx.pure_eq_ok] at h
    obtain ⟨id, db₁, ⟨rfl, table, hrows, rfl⟩, _, _, hbump, rfl, rfl⟩ := h
    obtain ⟨hadds, hsame⟩ := bumpRevision_additive chat hbump
    have hone : Additive chat 0 1 db (eventsTable.setLast (eventsTable.write db table)
        (eventsTable.next db)) := by
      refine ⟨rfl, .refl _ _ _, ⟨0, .refl _ _ _⟩, ?_⟩
      show Added _ _ 1 db.events.rows table.rows
      rw [hrows]
      exact .one rfl hnew
    exact ⟨hone.trans hadds, hsame⟩

theorem importEvents_additive {event : String} :
    ∀ {members : List Int} {n n' : Nat} {db db' : StatsDb},
      importEvents chat e event n members db = .ok (n', db') →
      ∃ k, n' = n + k ∧ Additive chat 0 k db db' ∧ db'.messages = db.messages := by
  intro members
  induction members with
  | nil =>
      intro n n' db db' h
      obtain ⟨rfl, rfl⟩ := Tx.pure_eq_ok.mp h
      exact ⟨0, rfl, .refl chat db, rfl⟩
  | cons member rest ih =>
      intro n n' db db' h
      simp only [importEvents, Tx.bind_eq_ok] at h
      obtain ⟨new, db₁, hevent, h⟩ := h
      obtain ⟨hone, hsame⟩ := importEvent_additive hevent
      obtain ⟨k, rfl, hadds, hsame'⟩ := ih h
      refine ⟨(if new then 1 else 0) + k, ?_, hone.trans hadds, hsame'.trans hsame⟩
      cases new
      · rw [if_neg Bool.false_ne_true, if_neg Bool.false_ne_true, Nat.zero_add]
      · rw [if_pos rfl, if_pos rfl, Nat.add_assoc]

theorem importSender_additive (chat : Int) {m : Json} (h : importSender now m e db = .ok (u, db')) :
    Additive chat 0 0 db db' ∧ db'.messages = db.messages := by
  unfold importSender at h
  cases huid : e.uid with
  | none =>
      rw [huid] at h
      obtain ⟨-, rfl⟩ := Tx.pure_eq_ok.mp h
      exact ⟨.refl chat db, rfl⟩
  | some uid =>
      rw [huid] at h
      simp only [Tx.bind_eq_ok, Tx.ofExcept_eq_ok] at h
      obtain ⟨name, _, ⟨-, rfl⟩, h⟩ := h
      cases name with
      | none =>
          obtain ⟨-, rfl⟩ := Tx.pure_eq_ok.mp h
          exact ⟨.refl chat db, rfl⟩
      | some name => exact importName_additive h

theorem importDetails_additive {m : Json} {n n' : Nat}
    (h : importDetails now chat m e n db = .ok (n', db')) :
    ∃ k, n' = n + k ∧ Additive chat 0 k db db' ∧ db'.messages = db.messages := by
  simp only [importDetails, Tx.bind_eq_ok] at h
  obtain ⟨_, db₁, hsender, h⟩ := h
  obtain ⟨hadds, hsame⟩ := importSender_additive chat hsender
  split at h
  · obtain ⟨k, rfl, hadds', hsame'⟩ := importEvents_additive h
    have hboth := hadds.trans hadds'
    rw [Nat.zero_add, Nat.zero_add] at hboth
    exact ⟨k, rfl, hboth, hsame'.trans hsame⟩
  · obtain ⟨rfl, rfl⟩ := Tx.pure_eq_ok.mp h
    exact ⟨0, rfl, hadds, hsame⟩

/-- The message is stored, or nothing of it can be. -/
def Settled [DesktopReader] (chat : Int) (db : StatsDb) (m : Json) : Prop :=
  ∀ e, readEntry m = .ok (some e) → ∃ r ∈ db.messages.rows, r.key = (chat, e.id)

theorem Settled.mono [DesktopReader] {i n : Nat} {m : Json} (h : Settled chat db m)
    (hadds : Additive chat i n db db') : Settled chat db' m := by
  intro e he
  obtain ⟨r, hr, hkey⟩ := h e he
  exact ⟨r, hadds.messages.mem hr, hkey⟩

variable {store : IdentityStore} {counts counts' : ImportCounts} {run : Course}

/-- **One message.** It is counted once, what it adds is counted, and it is settled. -/
theorem importMessage_additive [DesktopReader] {m : Json}
    (h : importMessage now chat counts m db = .ok (counts', db')) :
    ∃ i k, counts'.inserted = counts.inserted + i ∧ counts'.events = counts.events + k ∧
      counts'.inserted + counts'.skipped = counts.inserted + counts.skipped + 1 ∧
      counts'.total = counts.total ∧ Additive chat i k db db' ∧ Settled chat db' m := by
  simp only [importMessage, Tx.bind_eq_ok, Tx.ofExcept_eq_ok] at h
  obtain ⟨read, _, ⟨hread, rfl⟩, h⟩ := h
  cases read with
  | none =>
      obtain ⟨rfl, rfl⟩ := Tx.pure_eq_ok.mp h
      refine ⟨0, 0, rfl, rfl, rfl, rfl, .refl chat db, fun e he => ?_⟩
      rw [hread] at he
      cases he
  | some e =>
      simp only [Tx.bind_eq_ok, Serial.insertNextIgnoring_eq_ok] at h
      obtain ⟨inserted, db₁, ⟨-, hcases⟩, h⟩ := h
      rcases hcases with ⟨hsame, rfl, rfl⟩ | ⟨hnew, rfl, table, hrows, rfl⟩
      · obtain ⟨rfl, rfl⟩ := Tx.pure_eq_ok.mp h
        refine ⟨0, 0, rfl, rfl, rfl, rfl, .refl chat db₁, fun e' he' => ?_⟩
        rw [hread] at he'
        cases he'
        obtain ⟨r, hr, hkey⟩ := List.any_eq_true.mp hsame
        exact ⟨r, hr, of_decide_eq_true hkey⟩
      · have hone : Additive chat 1 0 db (messagesTable.setLast (messagesTable.write db table)
            (messagesTable.next db)) := by
          refine ⟨rfl, ?_, ⟨0, .refl _ _ _⟩, .refl _ _ _⟩
          show Added _ _ 1 db.messages.rows table.rows
          rw [hrows]
          exact .one rfl (any_eq_false_iff.mp hnew)
        simp only [Tx.bind_eq_ok, Tx.pure_eq_ok] at h
        obtain ⟨_, db₂, hinserted, events, db₃, hdetails, rfl, rfl⟩ := h
        obtain ⟨hadds, hsame⟩ := messageInserted_additive chat hinserted
        obtain ⟨k, rfl, hadds', hsame'⟩ := importDetails_additive hdetails
        have hall := (hone.trans hadds).trans hadds'
        rw [Nat.add_zero, Nat.add_zero, Nat.zero_add] at hall
        refine ⟨1, k, rfl, rfl, by dsimp only; omega, rfl, hall, fun e' he' => ?_⟩
        rw [hread] at he'
        cases he'
        refine ⟨e.row chat m (messagesTable.next db), ?_, rfl⟩
        rw [hsame', hsame]
        show _ ∈ table.rows
        rw [hrows]
        exact List.mem_append_right _ (List.mem_singleton_self _)

/-- **All messages**, by induction on those that are left. -/
theorem importFrom_additive [DesktopReader] :
    ∀ {i : Nat} {counts counts' : ImportCounts} {db db' : StatsDb},
      importFrom run chat i counts messages db = .ok (counts', db') →
      ∃ n k, counts'.inserted = counts.inserted + n ∧ counts'.events = counts.events + k ∧
        counts'.inserted + counts'.skipped = counts.inserted + counts.skipped + messages.length ∧
        counts'.total = counts.total ∧ Additive chat n k db db' ∧
        ∀ m ∈ messages, Settled chat db' m := by
  induction messages with
  | nil =>
      intro i counts counts' db db' h
      obtain ⟨rfl, rfl⟩ := Tx.pure_eq_ok.mp h
      exact ⟨0, 0, rfl, rfl, rfl, rfl, .refl chat db, fun _ hm => (nomatch hm)⟩
  | cons m rest ih =>
      intro i counts counts' db db' h
      unfold importFrom at h
      by_cases hfails : run.fails i = true
      · rw [if_pos hfails, Tx.bind_eq_ok] at h
        obtain ⟨_, _, hthrow, -⟩ := h
        cases hthrow
      · rw [if_neg hfails] at h
        simp only [Tx.bind_eq_ok] at h
        obtain ⟨counts₁, db₁, hone, h⟩ := h
        obtain ⟨n₁, k₁, hn₁, hk₁, hsum₁, htotal₁, hadds₁, hsettled⟩ := importMessage_additive hone
        obtain ⟨n, k, hn, hk, hsum, htotal, hadds, hall⟩ := ih h
        refine ⟨n₁ + n, k₁ + k, ?_, ?_, ?_, htotal.trans htotal₁, hadds₁.trans hadds, ?_⟩
        · rw [hn, hn₁, Nat.add_assoc]
        · rw [hk, hk₁, Nat.add_assoc]
        · rw [hsum, hsum₁, List.length_cons]
          omega
        · intro m' hm'
          rcases List.mem_cons.mp hm' with rfl | hm'
          · exact hsettled.mono hadds
          · exact hall m' hm'

/-- A message that is settled is skipped. -/
theorem importMessage_settled [DesktopReader] {m : Json} (hm : Settled chat db m)
    (h : importMessage now chat counts m db = .ok (counts', db')) :
    db' = db ∧ counts'.inserted = counts.inserted ∧ counts'.events = counts.events := by
  simp only [importMessage, Tx.bind_eq_ok, Tx.ofExcept_eq_ok] at h
  obtain ⟨read, _, ⟨hread, rfl⟩, h⟩ := h
  cases read with
  | none =>
      obtain ⟨rfl, rfl⟩ := Tx.pure_eq_ok.mp h
      exact ⟨rfl, rfl, rfl⟩
  | some e =>
      simp only [Tx.bind_eq_ok, Serial.insertNextIgnoring_eq_ok] at h
      obtain ⟨inserted, db₁, ⟨-, hcases⟩, h⟩ := h
      rcases hcases with ⟨-, rfl, rfl⟩ | ⟨hnew, -⟩
      · obtain ⟨rfl, rfl⟩ := Tx.pure_eq_ok.mp h
        exact ⟨rfl, rfl, rfl⟩
      · obtain ⟨r, hr, hkey⟩ := hm e hread
        exact absurd hkey (any_eq_false_iff.mp hnew r hr)

theorem importFrom_settled [DesktopReader] :
    ∀ {i : Nat} {counts counts' : ImportCounts} {db db' : StatsDb},
      (∀ m ∈ messages, Settled chat db m) →
      importFrom run chat i counts messages db = .ok (counts', db') →
      db' = db ∧ counts'.inserted = counts.inserted ∧ counts'.events = counts.events := by
  induction messages with
  | nil =>
      intro i counts counts' db db' _ h
      obtain ⟨rfl, rfl⟩ := Tx.pure_eq_ok.mp h
      exact ⟨rfl, rfl, rfl⟩
  | cons m rest ih =>
      intro i counts counts' db db' hsettled h
      unfold importFrom at h
      by_cases hfails : run.fails i = true
      · rw [if_pos hfails, Tx.bind_eq_ok] at h
        obtain ⟨_, _, hthrow, -⟩ := h
        cases hthrow
      · rw [if_neg hfails] at h
        simp only [Tx.bind_eq_ok] at h
        obtain ⟨counts₁, db₁, hone, h⟩ := h
        obtain ⟨rfl, hinserted, hevents⟩ :=
          importMessage_settled (hsettled m List.mem_cons_self) hone
        obtain ⟨rfl, hinserted', hevents'⟩ :=
          ih (fun m' hm' => hsettled m' (List.mem_cons_of_mem m hm')) h
        exact ⟨rfl, hinserted'.trans hinserted, hevents'.trans hevents⟩

/-- The owner is only read. -/
theorem importOwner_eq_ok [JsonReader] {actor : Int}
    (h : importOwner store now actor db = .ok (u, db')) : db' = db := by
  simp only [importOwner, Tx.bind_eq_ok, Tx.get_eq_ok] at h
  obtain ⟨_, _, ⟨rfl, rfl⟩, h⟩ := h
  rcases hsnapshot : store.snapshot now db.identity actor none with e | _ | snapshot
  · rw [hsnapshot] at h
    cases h
  · rw [hsnapshot] at h
    cases h
  · rw [hsnapshot] at h
    by_cases hno : (snapshot.principal.role ≠ .owner || snapshot.principal.isBlocked now) = true
    · have h : (throw _ : StatsTx Unit) db = _ := (congrFun (if_pos hno) db).symm.trans h
      cases h
    · have h : (pure () : StatsTx Unit) db = _ := (congrFun (if_neg hno) db).symm.trans h
      exact (Tx.pure_eq_ok.mp h).2.symm

/-- A call that commits has gone through all messages. -/
theorem importBody_eq_ok [JsonReader] [DesktopReader] {actor : Int} {ended : Ended ImportCounts}
    (h : importBody store run actor chat messages db = .ok (ended, db')) :
    ∃ counts, ended = .commit counts ∧
      importFrom run chat 0 ⟨0, 0, 0, messages.length⟩ messages db = .ok (counts, db') := by
  simp only [importBody, Tx.bind_eq_ok] at h
  obtain ⟨_, db₁, hfirst, counts, db₂, hall, _, db₃, hlast, h⟩ := h
  obtain rfl := importOwner_eq_ok hfirst
  obtain rfl := importOwner_eq_ok hlast
  by_cases hfails : run.fails messages.length = true
  · rw [if_pos hfails, Tx.bind_eq_ok] at h
    obtain ⟨_, _, hthrow, -⟩ := h
    cases hthrow
  · rw [if_neg hfails] at h
    obtain ⟨rfl, rfl⟩ := Tx.pure_eq_ok.mp h
    exact ⟨counts, rfl, hall⟩

/-- A call fails and leaves everything as it was, or it commits. -/
theorem importDesktop_cases [JsonReader] [DesktopReader] (store : IdentityStore) (run : Course)
    (actor chat : Int) (bytes : List UInt8) (max : Nat) (db : StatsDb) :
    (∃ e, importDesktop store run actor chat bytes max db = (.error e, db)) ∨
      ∃ messages counts db', readMessages bytes max = some messages ∧
        importFrom run chat 0 ⟨0, 0, 0, messages.length⟩ messages db = .ok (counts, db') ∧
        importDesktop store run actor chat bytes max db = (.ok counts, db') := by
  unfold importDesktop
  split
  · exact .inl ⟨_, rfl⟩
  · split
    · exact .inl ⟨_, rfl⟩
    · split
      · exact .inl ⟨_, rfl⟩
      · split
        · exact .inl ⟨_, rfl⟩
        · rename_i messages hread
          rcases Tx.run_spec (importBody store run actor chat messages) db with
            ⟨e, -, hrun⟩ | ⟨counts, db', hbody, -⟩ | ⟨counts, db', hbody, hrun⟩
          · exact .inl ⟨e, hrun⟩
          · obtain ⟨_, hended, -⟩ := importBody_eq_ok hbody
            cases hended
          · obtain ⟨_, hended, hall⟩ := importBody_eq_ok hbody
            cases hended
            exact .inr ⟨messages, counts, db', hread, hall, hrun⟩

/-- A bound that lets an export through does not change what is read of it. -/
theorem readMessages_unique [DesktopReader] {bytes : List UInt8} {max max' : Nat}
    {messages' : List Json} (h : readMessages bytes max = some messages)
    (h' : readMessages bytes max' = some messages') : messages' = messages := by
  unfold readMessages at h h'
  obtain ⟨members, hmembers, h⟩ := Option.bind_eq_some_iff.mp h
  rw [hmembers] at h'
  obtain ⟨_, hmembers', h'⟩ := Option.bind_eq_some_iff.mp h'
  cases hmembers'
  split at h
  · rename_i name raw hone
    rw [hone] at h'
    obtain ⟨items, hitems, h⟩ := Option.bind_eq_some_iff.mp h
    obtain ⟨_, hitems', h'⟩ := Option.bind_eq_some_iff.mp h'
    cases hitems.symm.trans hitems'
    split at h
    · split at h'
      · exact Option.some.inj (h'.symm.trans h)
      · cases h'
    · cases h
  · cases h

/-- **Desktop imports are additive, atomic and idempotent.** A call that fails has changed nothing.
One that succeeds has counted every message once and only added rows, and as long as those messages
are stored, the same export adds nothing more. -/
theorem imports_additive [JsonReader] [DesktopReader] (store : IdentityStore) (run : Course)
    (actor chat : Int) (bytes : List UInt8) (maxMessages : Nat) (db : StatsDb) :
    (∀ e db', importDesktop store run actor chat bytes maxMessages db = (.error e, db') →
      db' = db) ∧
      ∀ counts db', importDesktop store run actor chat bytes maxMessages db = (.ok counts, db') →
        counts.inserted + counts.skipped = counts.total ∧
          Additive chat counts.inserted counts.events db db' ∧
          ∀ run' actor' max' later r db'',
            (∀ m ∈ db'.messages.rows, m.chatId = chat →
              ∃ m' ∈ later.messages.rows, m'.key = m.key) →
            importDesktop store run' actor' chat bytes max' later = (r, db'') →
            db'' = later ∧ ∀ again, r = .ok again → again.inserted = 0 ∧ again.events = 0 := by
  rcases importDesktop_cases store run actor chat bytes maxMessages db with
    ⟨e, hfails⟩ | ⟨messages, counts, db', hread, hall, hdone⟩
  · rw [hfails]
    exact ⟨fun _ _ h => (Prod.mk.inj h).2.symm, fun _ _ h => nomatch (Prod.mk.inj h).1⟩
  · rw [hdone]
    refine ⟨fun _ _ h => (nomatch (Prod.mk.inj h).1), fun _ _ h => ?_⟩
    obtain ⟨h₁, rfl⟩ := Prod.mk.inj h
    cases h₁
    obtain ⟨n, k, hn, hk, hsum, htotal, hadds, hsettled⟩ := importFrom_additive hall
    dsimp only at hn hk hsum htotal
    rw [Nat.zero_add] at hn hk
    refine ⟨?_, ?_, ?_⟩
    · rw [hsum, htotal, Nat.zero_add]
    · rw [hn, hk]
      exact hadds
    · intro run' actor' max' later r db'' hstored hagain
      rcases importDesktop_cases store run' actor' chat bytes max' later with
        ⟨e, hfails⟩ | ⟨messages', again, db₁, hread', hall', hdone'⟩
      · rw [hfails] at hagain
        obtain ⟨rfl, rfl⟩ := Prod.mk.inj hagain
        exact ⟨rfl, fun _ h => (nomatch h)⟩
      · rw [hdone'] at hagain
        obtain ⟨rfl, rfl⟩ := Prod.mk.inj hagain
        obtain rfl := readMessages_unique hread hread'
        have hlater : ∀ m ∈ messages', Settled chat later m := by
          intro m hm e he
          obtain ⟨row, hrow, hkey⟩ := hsettled m hm e he
          obtain ⟨row', hrow', hkey'⟩ := hstored row hrow (congrArg Prod.fst hkey)
          exact ⟨row', hrow', hkey'.trans hkey⟩
        obtain ⟨rfl, hinserted, hevents⟩ := importFrom_settled hlater hall'
        refine ⟨rfl, fun _ h => ?_⟩
        cases h
        exact ⟨hinserted, hevents⟩

end YoinkCore.Stats.Desktop
