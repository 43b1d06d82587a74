import YoinkCore.Lib.Run
import YoinkCore.Storage.Store

/-!
# Runs of the store

Any number of callers use the store at once; its transactions take effect one
after another. A run is a sequence of such calls, with arbitrary claims, at
non-decreasing times. Between them other parts of the program may change
settings, users, marks, quotas and the media cache, but not the operations or
their delivery units.

A script is a list of calls, each at one instant and with one fresh identifier.
Playing it from a fresh database is a run, whatever the calls return. Closed
examples are stated about such runs, over a platform that knows one URL.
-/

namespace YoinkCore.Storage

open Lib Domain

section

variable [Platform]

/-- The methods that move operations, with their arguments. -/
inductive Call where
  | admitRequest (config : StoreConfig) (request : DownloadRequest) (key : String)
      (policy : AdmissionPolicy) (preserveFirstNetwork : Bool) (nowOverride : Option Int)
      (telegram : Option TelegramMediaAdmission)
  | claim (workerId : String) (lease : Duration)
  | claimForBot (workerId : String) (lease : Duration) (botId : Int)
      (policy : ClaimPolicy)
  | updateProgress (c : Claim) (percent : Nat) (stage : ProgressStage)
  | heartbeat (c : Claim) (lease : Duration)
  | complete (c : Claim)
  | fail (c : Claim) (retryable : Bool) (code : Option String)
  | requestCancel (actorId : Nat) (id : Uuid)
  | acknowledgeCancel (c : Claim)
  | beginDelivery (c : Claim)
  | completeDelivery (c : Claim) (messageId : Int)
  | deliveryUnknown (c : Claim)
  | rejectDelivery (c : Claim)
  | beginDeliveryBatch (c : Claim) (total : Nat)
  | beginDeliveryUnit (c : Claim) (ordinal count : Nat)
  | completeDeliveryUnit (c : Claim) (ordinal : Nat) (ids : List Int)
  | rejectDeliveryUnit (c : Claim) (ordinal : Nat) (retryAfter : Option Duration)
  | unknownDeliveryUnit (c : Claim) (ordinal : Nat)
  | stopDeliveryBatch (c : Claim) (reason : StopDeliveryReason)
  | requeueInvalidCache (c : Claim) (ordinal : Nat) (revision : Uuid)

/-- What a call returns. -/
inductive Reply where
  | done
  | flag (b : Bool)
  | admission (a : Admission)
  | claimed (c : Option Claim)
  | lease (h : LeaseHeartbeat)

/-- Rename the result of a method. -/
def Method.reply {α : Type} (m : Method α) (f : α → Reply) : Method Reply := fun db =>
  ((m db).1.map f, (m db).2)

/-- Perform a call. The fresh identifier is the operation of an admission or the
lease token of a claim. -/
def exec (call : Call) (clock : Clock) (fresh : Uuid) : Method Reply :=
  match call with
  | .admitRequest config request key policy preserve now telegram =>
      Method.reply (admitInner config request key policy preserve now telegram clock fresh)
        .admission
  | .claim worker lease => Method.reply (claim worker lease clock fresh) .claimed
  | .claimForBot worker lease botId policy =>
      Method.reply (claimForBotBounded worker lease botId policy clock fresh) .claimed
  | .updateProgress c percent stage =>
      Method.reply (updateProgress c percent stage clock) fun _ => .done
  | .heartbeat c lease => Method.reply (heartbeatState c lease clock) .lease
  | .complete c => Method.reply (complete c clock) fun _ => .done
  | .fail c retryable code =>
      Method.reply (failWithCode c retryable code clock) fun _ => .done
  | .requestCancel actorId id => Method.reply (requestCancel actorId id clock) .flag
  | .acknowledgeCancel c => Method.reply (acknowledgeCancel c clock) fun _ => .done
  | .beginDelivery c => Method.reply (beginDelivery c clock) fun _ => .done
  | .completeDelivery c messageId =>
      Method.reply (completeDelivery c messageId clock) fun _ => .done
  | .deliveryUnknown c => Method.reply (deliveryUnknown c clock) fun _ => .done
  | .rejectDelivery c => Method.reply (rejectDelivery c clock) fun _ => .done
  | .beginDeliveryBatch c total => Method.reply (beginDeliveryBatch c total clock) .flag
  | .beginDeliveryUnit c ordinal count =>
      Method.reply (beginDeliveryUnit c ordinal count clock) .flag
  | .completeDeliveryUnit c ordinal ids =>
      Method.reply (completeDeliveryUnit c ordinal ids clock) .flag
  | .rejectDeliveryUnit c ordinal retryAfter =>
      Method.reply (rejectDeliveryUnit c ordinal retryAfter clock) .flag
  | .unknownDeliveryUnit c ordinal =>
      Method.reply (unknownDeliveryUnit c ordinal clock) .flag
  | .stopDeliveryBatch c reason => Method.reply (stopDeliveryBatch c reason clock) .flag
  | .requeueInvalidCache c ordinal revision =>
      Method.reply (requeueInvalidCache c ordinal revision clock) .flag

/-- The database, and the latest time any statement has read. -/
structure System where
  db : Db
  now : Int

/-- One atomic event: a call with what it read and returned, or a change by
another part of the program. -/
inductive Event where
  | call (call : Call) (clock : Clock) (fresh : Uuid) (reply : Except StoreError Reply)
  | other

/-- Time passes, calls take effect, and other parts leave the queue alone. -/
inductive Step : System → Event → System → Prop
  | call {s t : System} {call : Call} {clock : Clock} {fresh : Uuid}
      {reply : Except StoreError Reply} (later : s.now ≤ clock.tick 0)
      (result : exec call clock fresh s.db = (reply, t.db))
      (elapsed : ∀ n, clock.tick n ≤ t.now) :
      Step s (.call call clock fresh reply) t
  | other {s t : System} (later : s.now ≤ t.now)
      (operations : t.db.operations = s.db.operations)
      (deliveryUnits : t.db.deliveryUnits = s.db.deliveryUnits) :
      Step s .other t

/-- A database without operations and delivery units. -/
def Db.Fresh (db : Db) : Prop := db.operations.rows = [] ∧ db.deliveryUnits.rows = []

/-- A run from a database without operations. -/
def Reaches (s : System) (es : List Event) (t : System) : Prop :=
  s.db.Fresh ∧ Run Step s es t

/-- Such a run, in which every event meets a condition on the state before it. -/
def ReachesWith (G : System → Event → Prop) (s : System) (es : List Event) (t : System) :
    Prop :=
  s.db.Fresh ∧ Run (fun s e t => Step s e t ∧ G s e) s es t

variable {es : List Event} {s t : System}

theorem ReachesWith.reaches {G : System → Event → Prop} (h : ReachesWith G s es t) :
    Reaches s es t :=
  ⟨h.1, h.2.mono And.left⟩

theorem Reaches.with_trivial (h : Reaches s es t) : ReachesWith (fun _ _ => True) s es t :=
  ⟨h.1, h.2.mono fun hs => ⟨hs, trivial⟩⟩

end

/-! ## Scripts -/

/-- A clock that stands still. -/
def Clock.still (now : Int) : Clock := ⟨fun _ => now, fun _ _ _ => le_rfl⟩

section

variable [Platform]

/-- A call, with the instant it is made and the identifier it draws. -/
structure ScriptLine where
  call : Call
  now : Int
  fresh : Uuid

/-- Make the calls in order; the events record what they returned. -/
def play (s : System) : List ScriptLine → List Event × System
  | [] => ([], s)
  | line :: lines =>
      let (reply, db) := exec line.call (Clock.still line.now) line.fresh s.db
      let (es, t) := play ⟨db, line.now⟩ lines
      (.call line.call (Clock.still line.now) line.fresh reply :: es, t)

/-- The instants of a script do not run backwards. -/
def inOrder (now : Int) : List ScriptLine → Prop
  | [] => True
  | line :: lines => now ≤ line.now ∧ inOrder line.now lines

instance decidableInOrder (now : Int) :
    (lines : List ScriptLine) → Decidable (inOrder now lines)
  | [] => isTrue trivial
  | line :: lines =>
      have := decidableInOrder line.now lines
      inferInstanceAs (Decidable (now ≤ line.now ∧ inOrder line.now lines))

variable {lines : List ScriptLine} {G : System → Event → Bool} {line : ScriptLine} {s : System}

/-- Making one call is a step. -/
theorem play_step (h : s.now ≤ line.now) :
    Step s (.call line.call (Clock.still line.now) line.fresh
        (exec line.call (Clock.still line.now) line.fresh s.db).1)
      ⟨(exec line.call (Clock.still line.now) line.fresh s.db).2, line.now⟩ :=
  .call h rfl fun _ => le_rfl

/-- Playing a script is a run. -/
theorem play_run :
    ∀ {s : System}, inOrder s.now lines → Run Step s (play s lines).1 (play s lines).2 := by
  induction lines with
  | nil => exact fun _ => .nil
  | cons line lines ih => exact fun h => (Run.single (play_step h.1)).append (ih h.2)

/-- The reply to an admission that created its operation. -/
def creates (id : Uuid) : Except StoreError Reply → Bool
  | .ok (.admission a) => decide (a = ⟨id, true⟩)
  | _ => false

theorem eq_of_creates {id : Uuid} {r : Except StoreError Reply} (h : creates id r = true) :
    r = .ok (.admission ⟨id, true⟩) := by
  unfold creates at h
  split at h
  · rw [of_decide_eq_true h]
  · cases h

/-- Making an admission is a step, with the reply it should have. -/
theorem play_admitted (h : s.now ≤ line.now) (hc : creates line.fresh
      (exec line.call (Clock.still line.now) line.fresh s.db).1 = true) :
    Step s (.call line.call (Clock.still line.now) line.fresh
      (.ok (.admission ⟨line.fresh, true⟩))) (play s [line]).2 :=
  eq_of_creates hc ▸ play_step h

/-- A database in which only settings, users, marks and quotas may have rows. -/
def Db.empty : Db where
  operations := .empty _
  deliveryUnits := .empty _
  mediaCache := .empty _
  rateLimits := .empty _
  nsfwMarks := .empty _
  deferredMedia := .empty _
  telegramMediaIntents := .empty _
  progressNotices := .empty _
  botSettings := .empty _
  users := .empty _

def System.initial : System := ⟨.empty, 0⟩

theorem play_reaches (h : inOrder 0 lines) :
    Reaches .initial (play .initial lines).1 (play .initial lines).2 :=
  ⟨⟨rfl, rfl⟩, play_run h⟩

/-- Every event of a script meets a condition on the state before it. -/
def meets (G : System → Event → Bool) (s : System) : List ScriptLine → Bool
  | [] => true
  | line :: lines =>
      let (reply, db) := exec line.call (Clock.still line.now) line.fresh s.db
      G s (.call line.call (Clock.still line.now) line.fresh reply) &&
        meets G ⟨db, line.now⟩ lines

theorem play_run_meets :
    ∀ {s : System}, inOrder s.now lines → meets G s lines = true →
      Run (fun s e t => Step s e t ∧ G s e = true) s (play s lines).1 (play s lines).2 := by
  induction lines with
  | nil => exact fun _ _ => .nil
  | cons line lines ih =>
      intro s h hG
      simp only [meets, Bool.and_eq_true] at hG
      exact (Run.single ⟨play_step h.1, hG.1⟩).append (ih h.2 hG.2)

theorem play_reachesWith (h : inOrder 0 lines) (hG : meets G .initial lines = true) :
    ReachesWith (fun s e => G s e = true) .initial (play .initial lines).1
      (play .initial lines).2 :=
  ⟨⟨rfl, rfl⟩, play_run_meets h hG⟩

end

/-! ## A platform for closed examples -/

namespace Scenario

/-- Put a printed field before the first one with a later key. -/
def addField (field : Text.Str) : List Text.Str → List Text.Str
  | [] => [field]
  | f :: rest => if field ≤ f then field :: f :: rest else f :: addField field rest

mutual

/-- Compact JSON with the fields of every object in the order of their keys. -/
def print : Json → Text.Str
  | .null => "null".toList
  | .bool b => if b then "true".toList else "false".toList
  | .int n => (toString n).toList
  | .float _ => "0.0".toList
  | .str s => '"' :: s.toList ++ ['"']
  | .arr items => '[' :: [','].intercalate (printItems items) ++ [']']
  | .obj fields => '\x7b' :: [','].intercalate (printFields fields) ++ ['\x7d']

def printItems : List Json → List Text.Str
  | [] => []
  | v :: vs => print v :: printItems vs

def printFields : List (String × Json) → List Text.Str
  | [] => []
  | (k, v) :: rest => addField ('"' :: k.toList ++ ['"', ':'] ++ print v) (printFields rest)

end

def sourceUrl : Url := ⟨"https://example.com/"⟩

/-- SHA-256 of the two materials the examples hash, told apart by their length: the
one of `delivery`, and the one that also has the settings of `limited`. -/
def digest (bytes : List UInt8) : BitVec 256 :=
  if bytes.length = 362 then
    0xe703aa47d4889484f5ed6ba4cfe709765db8c2835700de57d6ca2f5cca9ebcdb
  else 0x769b717afb8a896eed51911aa0607b8828af508f749b454407806c5fe7f91ca5

/-- Knows one source URL, and prints documents without floats and escapes. -/
@[reducible] def platform : Platform where
  parseUrl text := if text = sourceUrl.asStr then some sourceUrl else none
  scheme _ := "https"
  hostStr _ := some "example.com"
  username _ := ""
  password _ := none
  path _ := "/"
  query _ := none
  fragment _ := none
  jsonBytes document := (print document).map fun c => UInt8.ofNat c.toNat
  rereadF64 x := some x
  sha256 := digest

attribute [local instance] platform

theorem stableUrls : StableUrls := by
  intro text url h
  have hurl : url = sourceUrl := by
    simp only [Platform.parseUrl] at h
    split at h <;> cases h
    rfl
  subst hurl
  rfl

theorem actor_pos : 0 < (7 : UInt64).toNat := by decide

theorem actor_le : (7 : UInt64).toNat ≤ i64Max := by decide

theorem params_ok : paramsFit .video none {} = true := by decide

theorem target_ok : (none : Option DeliveryTarget).all (·.reachable 7) = true := rfl

theorem network_ok : NetworkSelection.none.validateActor 7 = .ok () := by decide

def request : DownloadRequest where
  actorId := 7
  sourceUrl := sourceUrl
  mediaMode := .video
  clipRange := none
  params := {}
  target := none
  network := .none
  preferenceOverrides := none
  downloaderSettings := none
  forceNsfw := false
  actor_pos := actor_pos
  actor_le := actor_le
  source_parsed := ⟨sourceUrl.asStr, by decide⟩
  source_ok := by decide
  params_ok := params_ok
  target_ok := target_ok
  network_ok := network_ok
  settings_ok := DownloadRequest.noSettings_ok

theorem chat_ok : validTarget 1 7 none none = true := by decide

def target : DeliveryTarget := ⟨1, 7, none, none, chat_ok⟩

/-- The same, to be delivered to the actor by bot 1. -/
def delivery : DownloadRequest :=
  { request with target := some target, target_ok := by decide }

def policy : AdmissionPolicy := ⟨3, .ofSecs 0, 100, 10⟩

def operation : Uuid := uuid 1

/-- Admit a request at instant 1. -/
def admitRequest (r : DownloadRequest) : ScriptLine :=
  ⟨.admitRequest {} r "key" policy true none none, 1, operation⟩

/-- A worker claims under the token `uuid token`. -/
def take (now : Int) (token : Nat) : ScriptLine :=
  ⟨.claim "worker" (.ofSecs 60), now, uuid token⟩

/-- What the worker presents afterwards. -/
def held (r : DownloadRequest) (attempt token : Nat) : Claim :=
  ⟨operation, attempt, uuid token, "worker", r, false, false, 0⟩

/-- Any other call, which draws no identifier. -/
def act (now : Int) (call : Call) : ScriptLine := ⟨call, now, uuid 0⟩

/-- The first attempt fails and may be repeated. -/
def retried : List ScriptLine :=
  [admitRequest request, take 2 2,
    act 3 (.fail (held request 1 2) true (some "source_unavailable"))]

/-- The bot claims and delivers the first attempt. -/
def botDelivered : List ScriptLine :=
  [admitRequest delivery, ⟨.claimForBot "worker" (.ofSecs 60) 1 {}, 2, uuid 2⟩,
    act 3 (.beginDeliveryBatch (held delivery 1 2) 1),
    act 4 (.beginDeliveryUnit (held delivery 1 2) 0 1),
    act 5 (.completeDeliveryUnit (held delivery 1 2) 0 [11])]

end Scenario

end YoinkCore.Storage
