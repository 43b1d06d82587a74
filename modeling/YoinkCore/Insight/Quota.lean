import YoinkCore.Insight.Sse
import YoinkCore.Lib.Run

/-!
# Daily limits

A call of `summarize` reserves its place before it goes to a provider: the reservation counts
towards the limit of the day until the result is logged, the call gives it back, or it expires.
`QuotaState` has the two tables and every call between two of its sections, `QuotaAction.perform`
is one section of one call.
-/

namespace YoinkCore.Insight

open Lib

/-! ## Rows -/

/-- An instant as it is stored, in microseconds. -/
def stored (now : Int) : Int := now / 1000

def dayMicros : Int := 86400000000

/-- The UTC day of a stored instant. -/
def dayOf (instant : Int) : Int := instant / dayMicros

def dayStart (instant : Int) : Int := dayOf instant * dayMicros

inductive InsightCommand where
  | summary | about | tldr
deriving DecidableEq

inductive QuotaFeature where
  | summary | tldr
deriving DecidableEq

def InsightCommand.feature : InsightCommand → QuotaFeature
  | tldr => .tldr
  | _ => .summary

inductive UsageStatus where
  | ok | cached | error (code : String)
deriving DecidableEq

structure UsageRow where
  user : Int
  command : InsightCommand
  status : UsageStatus
  createdAt : Int
deriving DecidableEq

structure Reservation where
  id : String
  user : Int
  command : QuotaFeature
  createdAt : Int
  expiresAt : Int
deriving DecidableEq

structure QuotaDb where
  usage : List UsageRow
  reservations : List Reservation

/-- A limit of zero is none. The digest is the one of the ids. -/
structure QuotaConfig where
  summaryLimit : Int
  tldrLimit : Int
  timeoutSecs : Nat
  digest : String → String

def QuotaConfig.limit (c : QuotaConfig) : QuotaFeature → Int
  | .summary => c.summaryLimit
  | .tldr => c.tldrLimit

/-- How long a reservation lasts. -/
def QuotaConfig.lease (c : QuotaConfig) : Int := (c.timeoutSecs + 5) * 1000000

namespace QuotaDb

def countedUsage (uid : Int) (feature : QuotaFeature) (now : Int) (r : UsageRow) : Bool :=
  decide (r.user = uid) && decide (r.status = .ok) && decide (dayStart now ≤ r.createdAt) &&
    (decide (feature = .summary) || decide (r.command = .tldr))

def countedReservation (uid : Int) (feature : QuotaFeature) (now : Int) (r : Reservation) :
    Bool :=
  decide (r.user = uid) && (decide (feature = .summary) || decide (r.command = .tldr)) &&
    decide (dayStart now ≤ r.createdAt) && decide (now < r.expiresAt)

/-- What counts towards the limit of today. -/
def quotaCount (db : QuotaDb) (uid : Int) (feature : QuotaFeature) (now : Int) : Nat :=
  db.usage.countP (countedUsage uid feature now) +
    db.reservations.countP (countedReservation uid feature now)

/-- The transaction of `reserve_quota`. -/
def reserve (c : QuotaConfig) (uid : Int) (feature : QuotaFeature) (id : String) (now : Int)
    (db : QuotaDb) : Except Error QuotaDb :=
  let db := { db with reservations := db.reservations.filter fun r => !decide (r.expiresAt ≤ now) }
  if 0 < c.limit feature ∧ c.limit feature ≤ db.quotaCount uid feature now then
    .error (.code "quota_exceeded")
  else if db.reservations.any (·.id = id) then .error .database
  else .ok { db with reservations := db.reservations ++ [⟨id, uid, feature, now, now + c.lease⟩] }

def release (id : String) (db : QuotaDb) : QuotaDb :=
  { db with reservations := db.reservations.filter (·.id ≠ id) }

def log (row : UsageRow) (db : QuotaDb) : QuotaDb := { db with usage := db.usage ++ [row] }

end QuotaDb

/-! ## Calls -/

/-- A call between two of its sections. The result of one that is ending is decided. -/
inductive CallPhase where
  | looking
  | reserved
  | ending (result : Option Error)
  | released (result : Option Error)
  | dropped
deriving DecidableEq

/-- When a call looks into the cache: `tldr` has reserved by then. -/
def QuotaFeature.lookupPhase : QuotaFeature → CallPhase
  | tldr => .reserved
  | summary => .looking

structure SummarizeCall where
  user : Int
  command : InsightCommand
  /-- The id of its reservation. -/
  id : String
  armed : Bool
  phase : CallPhase

structure QuotaState where
  now : Int
  closing : Bool
  db : QuotaDb
  calls : Nat → Option SummarizeCall

inductive QuotaEvent where
  | reserved (call : Nat) (row : Reservation)
  | saved (call : Nat) (row : UsageRow)
  | other

/-- What becomes of a transaction: the call may not hear of the commit. -/
inductive CommitResult where
  | done | failed | unheard
deriving DecidableEq

def timestampNanos (now : Int) : Int := if -2 ^ 63 ≤ now ∧ now < 2 ^ 63 then now else 0

def Error.text : Error → String
  | .code c => c
  | .database => "database_error"

namespace QuotaState

def withCall (s : QuotaState) (k : Nat) (call : SummarizeCall) : QuotaState :=
  { s with calls := Function.update s.calls k (some call) }

/-- A crash forgets the calls, whose reservations stay. -/
def restarted (s : QuotaState) : QuotaState where
  now := s.now
  closing := false
  db := s.db
  calls k := (s.calls k).map fun call => { call with armed := false, phase := .dropped }

def startCall (c : QuotaConfig) (k : Nat) (user : Int) (command : InsightCommand)
    (s : QuotaState) : QuotaState :=
  if s.closing then s
  else s.withCall k
    ⟨user, command, c.digest s!"{user}:{timestampNanos s.now}", false, .looking⟩

/-- `reserve_quota`, which arms the cleanup before it inserts. -/
def reserveCall (c : QuotaConfig) (k : Nat) (call : SummarizeCall) (commit : CommitResult)
    (s : QuotaState) : QuotaEvent × QuotaState :=
  let now := stored s.now
  let feature := call.command.feature
  let armed := { call with armed := true }
  match s.db.reserve c call.user feature call.id now with
  | .error .database => (.other, s.withCall k { armed with phase := .ending (some .database) })
  | .error e => (.other, s.withCall k { call with phase := .ending (some e) })
  | .ok db =>
      let row := ⟨call.id, call.user, feature, now, now + c.lease⟩
      match commit with
      | .done => (.reserved k row, { s.withCall k { armed with phase := .reserved } with db })
      | .failed => (.other, s.withCall k { armed with phase := .ending (some .database) })
      | .unheard =>
          (.reserved k row,
            { s.withCall k { armed with phase := .ending (some .database) } with db })

/-- A result of the cache is logged, but does not count. -/
def cachedCall (k : Nat) (call : SummarizeCall) (s : QuotaState) : QuotaState :=
  { s.withCall k { call with phase := .ending none } with
    db := s.db.log ⟨call.user, call.command, .cached, stored s.now⟩ }

/-- The result transaction: the reservation becomes a row of the log. -/
def saveCall (k : Nat) (call : SummarizeCall) (commit : CommitResult) (s : QuotaState) :
    QuotaEvent × QuotaState :=
  let row := ⟨call.user, call.command, .ok, stored s.now⟩
  let db := (s.db.release call.id).log row
  match commit with
  | .done => (.saved k row,
    { s.withCall k { call with armed := false, phase := .ending none } with db })
  | .failed => (.other, s.withCall k { call with phase := .ending (some .database) })
  | .unheard =>
      (.saved k row, { s.withCall k { call with phase := .ending (some .database) } with db })

/-- `QuotaReservation::release`, and what its drop leaves behind. -/
def releaseCall (k : Nat) (call : SummarizeCall) (phase : CallPhase) (ok : Bool) (s : QuotaState) :
    QuotaState :=
  if call.armed && ok then
    { s.withCall k { call with armed := false, phase } with db := s.db.release call.id }
  else s.withCall k { call with phase }

def logError (k : Nat) (call : SummarizeCall) (e : Error) (s : QuotaState) : QuotaState :=
  { s.withCall k { call with phase := .released none } with
    db := s.db.log ⟨call.user, call.command, .error e.text, stored s.now⟩ }

end QuotaState

/-- Whose turn it is, and what it meets. -/
inductive QuotaAction where
  | tick (now : Int)
  | shutdown
  | restart
  | start (call : Nat) (user : Int) (command : InsightCommand)
  | reserve (call : Nat) (commit : CommitResult)
  | cached (call : Nat)
  | save (call : Nat) (commit : CommitResult)
  | fail (call : Nat) (e : Error)
  | release (call : Nat) (ok : Bool)
  | logError (call : Nat)
  | drop (call : Nat)
  | clean (call : Nat) (ok : Bool)

open QuotaState in
def QuotaAction.perform (c : QuotaConfig) (s : QuotaState) :
    QuotaAction → Option (QuotaEvent × QuotaState)
  | .tick now => if s.now ≤ now then some (.other, { s with now }) else none
  | .shutdown => some (.other, { s with closing := true })
  | .restart => some (.other, s.restarted)
  | .start k user command =>
      match s.calls k with
      | none => some (.other, s.startCall c k user command)
      | some _ => none
  | .reserve k commit => do
      let call ← s.calls k
      if call.phase = .looking then some (s.reserveCall c k call commit) else none
  | .cached k => do
      let call ← s.calls k
      if call.phase = call.command.feature.lookupPhase then some (.other, s.cachedCall k call)
      else none
  | .save k commit => do
      let call ← s.calls k
      if call.phase = .reserved then some (s.saveCall k call commit) else none
  | .fail k e => do
      let call ← s.calls k
      if call.phase = .looking || call.phase = .reserved then
        some (.other, s.withCall k { call with phase := .ending (some e) })
      else none
  | .release k ok => do
      let call ← s.calls k
      match call.phase with
      | .ending result => some (.other, s.releaseCall k call (.released result) ok)
      | _ => none
  | .logError k => do
      let call ← s.calls k
      match call.phase with
      | .released (some e) => some (.other, s.logError k call e)
      | _ => none
  | .drop k => do
      let call ← s.calls k
      if call.phase = .dropped then none
      else some (.other, s.withCall k { call with phase := .dropped })
  | .clean k ok => do
      let call ← s.calls k
      if call.phase = .dropped then some (.other, s.releaseCall k call .dropped ok) else none

def QuotaStep (c : QuotaConfig) (s : QuotaState) (e : QuotaEvent) (t : QuotaState) : Prop :=
  ∃ a : QuotaAction, a.perform c s = some (e, t)

/-- A service that has just started over an empty database. -/
structure QuotaState.Initial (s : QuotaState) : Prop where
  usage : s.db.usage = []
  reservations : s.db.reservations = []
  calls : ∀ k, s.calls k = none

end YoinkCore.Insight
