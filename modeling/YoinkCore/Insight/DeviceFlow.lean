import YoinkCore.Insight.Sse
import YoinkCore.Lib.Dict
import YoinkCore.Lib.Json
import YoinkCore.Lib.Run

/-!
# Device sign-in

A user signs in to GitHub with a code on a device. The flows of all users are in one table
under a lock, the tokens in the database. `start` admits a flow and leaves a task behind that
polls for its token, `cancel` removes the flow and then clears the token. `OAuthState` has the
table, the database and every task between two of its atomic sections; `perform` is one
section of one task.
-/

namespace YoinkCore.Insight

open Lib

/-! ## Flows -/

/-- A user, and whether the token may write. -/
abbrev FlowKey := Int × Bool

inductive FlowStatus where
  | pending | success | cancelled | expired | error
deriving DecidableEq

/-- Instants are in nanoseconds. -/
def seconds (n : Int) : Int := 1000000000 * n

structure Status where
  userCode : String
  verificationUri : String
  expiresAt : Int
  interval : Nat
  status : FlowStatus
  error : Option String
  username : Option String

/-- The token of a flow that cancels it is the one of its generation. -/
structure Flow where
  status : Status
  generation : Nat

def verificationUri : String := "https://github.com/login/device"

/-- What `start` keeps of the table: a flow for an hour after it has ended. -/
def Flow.keep (now : Int) (f : Flow) : Bool :=
  if f.status.status = .pending then now < f.status.expiresAt
  else now < f.status.expiresAt + seconds 3600

/-- A flow that waits for its code. -/
def Flow.admitted (now : Int) (generation : Nat) : Flow where
  status := ⟨"", verificationUri, now + seconds 30, 5, .pending, none, none⟩
  generation := generation

/-! ## Answers -/

/-- The code that the user enters. -/
structure Grant where
  deviceCode : String
  userCode : String
  expires : Nat
  interval : Nat

def readGrant (data : Json) : Except Error Grant := do
  let some deviceCode := (data.entry "device_code").asStr
    | .error (.code "oauth_invalid_response")
  let some userCode := (data.entry "user_code").asStr
    | .error (.code "oauth_invalid_response")
  let clamp (key : String) (given top : Nat) :=
    max 1 (min top (((data.entry key).asNat (2 ^ 64 - 1)).getD given))
  return ⟨deviceCode, userCode, clamp "expires_in" 900 1800, clamp "interval" 5 60⟩

def Grant.status (g : Grant) (now : Int) : Status :=
  ⟨g.userCode, verificationUri, now + seconds g.expires, g.interval, .pending, none, none⟩

inductive TokenAnswer where
  | waiting
  | slowDown
  | expired
  | failed
  | token (t : String)

/-- `split([',', ' '])` has one of the scopes that may write. -/
def grantsWrite (scope : String) : Bool :=
  ((Text.split ',' scope.toList).flatMap (Text.split ' ')).any fun s =>
    s = "public_repo".toList || s = "repo".toList

def readToken (write : Bool) (data : Json) : TokenAnswer :=
  match (data.entry "error").asStr with
  | some "authorization_pending" => .waiting
  | some "slow_down" => .slowDown
  | some "expired_token" => .expired
  | some _ => .failed
  | none =>
      match (data.entry "access_token").asStr with
      | none => .failed
      | some t =>
          if t.isEmpty || decide (256 < Text.byteLen t.toList) then .failed
          else if write && !(data.entry "scope").asStr.any grantsWrite then .failed
          else .token t

/-- The login that `/user` tells, if it is one. -/
def readLogin (body : Json) : Option String :=
  (body.entry "login").asStr.filter fun s =>
    !s.isEmpty && decide (Text.byteLen s.toList ≤ 39) &&
      s.toList.all fun c => Text.isAlphanumeric c || c = '-'

/-! ## Tasks -/

/-- A task of a generation between two of its sections: first the request that starts it, then
the poller. -/
inductive TaskAt where
  | absent
  | admitted (key : FlowKey)
  | granted (key : FlowKey) (grant : Grant) (since : Int)
  | dropping (key : FlowKey)
  | top (key : FlowKey)
  | looked (key : FlowKey) (state : Status)
  | sleeping (key : FlowKey) (state : Status)
  | authorizing (key : FlowKey) (state : Status)
  | posting (key : FlowKey) (state : Status)
  | slowing (key : FlowKey)
  | found (key : FlowKey) (state : Status) (token : String)
  | connecting (key : FlowKey) (state : Status) (token : String) (username : Option String)
  | saving (key : FlowKey) (state : Status) (token : String) (username : Option String)
  | finishing (key : FlowKey) (status : FlowStatus) (failed : status ≠ .success)
  | done

inductive CancelAt where
  | absent
  | called (key : FlowKey)
  | removed (key : FlowKey)
  | returned

structure OAuthState where
  now : Int
  closing : Bool
  flows : Dict FlowKey Flow
  /-- An `AtomicU64`: the model is of fewer than 2^64 starts, after which it would wrap. -/
  nextGeneration : Nat
  cancelled : Nat → Bool
  tokens : FlowKey → Option String
  tasks : Nat → TaskAt
  cancels : Nat → CancelAt

namespace OAuthState

/-- Every flow is cancelled with the service. -/
def isCancelled (s : OAuthState) (generation : Nat) : Bool := s.closing || s.cancelled generation

def withTask (s : OAuthState) (generation : Nat) (t : TaskAt) : OAuthState :=
  { s with tasks := Function.update s.tasks generation t }

def withCancel (s : OAuthState) (id : Nat) (c : CancelAt) : OAuthState :=
  { s with cancels := Function.update s.cancels id c }

/-- The flow of a task, if it is still in the table. -/
def flow? (s : OAuthState) (key : FlowKey) (generation : Nat) : Option Flow :=
  (s.flows.lookup key).filter (·.generation = generation)

def setStatus (s : OAuthState) (key : FlowKey) (f : Status → Status) : OAuthState :=
  { s with flows := s.flows.modify key fun flow => { flow with status := f flow.status } }

end OAuthState

/-! ## Sections -/

/-- The clients that are registered with GitHub. -/
structure OAuthConfig where
  readClient : String
  writeClient : Option String

def OAuthConfig.client (c : OAuthConfig) (write : Bool) : Option String :=
  (if write then c.writeClient else some c.readClient).filter (!·.isEmpty)

inductive OAuthEvent where
  | admitted (key : FlowKey) (generation : Nat)
  | stored (key : FlowKey) (generation : Nat) (token : String)
  | called (id : Nat) (key : FlowKey)
  | removed (id : Nat) (key : FlowKey) (generation : Option Nat)
  | cleared (id : Nat) (key : FlowKey)
  | other

/-- What a poller is told when its turn comes. -/
inductive PollInput where
  | go
  | authorized (ok : Bool)
  | answer (data : Except Error Json)
  | login (body : Option Json)
  | timeout
  | connection (ok : Bool)
  | saved (ok : Bool)

namespace OAuthState

/-- The lock section of `start`: flows that are not kept are cancelled, and the flow of the key
is replaced. -/
def admitFlow (key : FlowKey) (s : OAuthState) : OAuthEvent × OAuthState :=
  let kept := s.flows.retain fun _ f => f.keep s.now
  let dropped (g : Nat) := s.flows.entries.any fun e => e.2.generation = g && !e.2.keep s.now
  let s := { s with flows := kept, cancelled := fun g => s.cancelled g || dropped g }
  if 1024 ≤ kept.size && (kept.lookup key).isNone then (.other, s)
  else
    let generation := s.nextGeneration
    let replaced (g : Nat) := (kept.lookup key).any (·.generation = g)
    (.admitted key generation, { s with
      flows := kept.insert key (.admitted s.now generation)
      nextGeneration := generation + 1
      cancelled := fun g => s.cancelled g || replaced g
      tasks := Function.update s.tasks generation (.admitted key) })

def startFlow (c : OAuthConfig) (key : FlowKey) (authorized : Bool) (s : OAuthState) :
    OAuthEvent × OAuthState :=
  if authorized && (c.client key.2).isSome then s.admitFlow key else (.other, s)

/-- The guard of an admission that fails, or whose request is dropped. -/
def dropGuard (key : FlowKey) (generation : Nat) (s : OAuthState) : OAuthState :=
  { s.withTask generation (.dropping key) with
    cancelled := Function.update s.cancelled generation true }

def grantFlow (key : FlowKey) (generation : Nat) (data : Except Error Json) (s : OAuthState) :
    OAuthState :=
  let data := if s.isCancelled generation then .error (.code "cancelled") else data
  match data.bind readGrant with
  | .error _ => s.dropGuard key generation
  | .ok grant => s.withTask generation (.granted key grant s.now)

def publishFlow (key : FlowKey) (grant : Grant) (since : Int) (generation : Nat) (authorized : Bool)
    (s : OAuthState) : OAuthState :=
  if !authorized || (s.flow? key generation).isNone || s.isCancelled generation then
    s.dropGuard key generation
  else (s.setStatus key fun _ => grant.status since).withTask generation (.top key)

def removeOwn (key : FlowKey) (generation : Nat) (s : OAuthState) : OAuthState :=
  if (s.flow? key generation).isSome then { s with flows := s.flows.erase key } else s

def finish (key : FlowKey) (generation : Nat) (status : FlowStatus) (s : OAuthState) :
    OAuthState :=
  if (s.flow? key generation).isSome then
    s.setStatus key fun st => { st with
      status
      error := if status = .error then some "oauth_failed" else st.error }
  else s

/-- The lock section that stores the token: the transaction is inside. -/
def save (key : FlowKey) (state : Status) (token : String) (username : Option String)
    (generation : Nat) (ok : Bool) (s : OAuthState) : OAuthEvent × OAuthState :=
  if (s.flow? key generation).isNone then (.other, s)
  else if s.isCancelled generation then
    (.other, s.setStatus key fun st => { st with status := .cancelled })
  else if state.expiresAt ≤ s.now then
    (.other, s.setStatus key fun st => { st with status := .expired })
  else if !ok then
    (.other, s.setStatus key fun st =>
      { st with status := .error, error := some "oauth_failed" })
  else
    let s := s.setStatus key fun st => { st with status := .success, username }
    (.stored key generation token, { s with
      tokens := Function.update s.tokens key (some token) })

/-- The next section of a poller, as what it was told allows. -/
def pollTask (generation : Nat) (input : PollInput) (s : OAuthState) :
    Option (OAuthEvent × OAuthState) :=
  let go (t : TaskAt) : Option (OAuthEvent × OAuthState) := some (.other, s.withTask generation t)
  match s.tasks generation, input with
  | .top key, .go =>
      match s.flow? key generation with
      | none => go .done
      | some f => go (.looked key f.status)
  | .looked key state, .go =>
      if state.expiresAt ≤ s.now then go (.finishing key .expired nofun)
        else go (.sleeping key state)
  | .sleeping key state, .go =>
      if s.isCancelled generation then go (.finishing key .cancelled nofun)
      else if state.expiresAt ≤ s.now then go (.finishing key .expired nofun)
      else go (.authorizing key state)
  | .authorizing key state, .authorized ok =>
      if ok then go (.posting key state) else go (.finishing key .error nofun)
  | .posting key state, .answer data =>
      -- A request that is cancelled fails like any other.
      if s.isCancelled generation then go (.finishing key .error nofun)
      else
        match data with
        | .error _ => go (.finishing key .error nofun)
        | .ok data =>
            match readToken key.2 data with
            | .waiting => go (.top key)
            | .slowDown => go (.slowing key)
            | .expired => go (.finishing key .expired nofun)
            | .failed => go (.finishing key .error nofun)
            | .token token => go (.found key state token)
  | .slowing key, .go =>
      if (s.flow? key generation).isSome then
        some (.other, (s.setStatus key fun st =>
          { st with interval := min (st.interval + 5) 60 }).withTask generation (.top key))
      else go (.top key)
  | .found key state token, .login body =>
      go (.connecting key state token
        (if s.isCancelled generation then none else body.bind readLogin))
  | .connecting key _ _ _, .timeout =>
      if s.isCancelled generation then go (.finishing key .cancelled nofun)
      else go (.finishing key .expired nofun)
  | .connecting key state token username, .connection ok =>
      if s.isCancelled generation then go (.finishing key .cancelled nofun)
      else if ok then go (.saving key state token username)
      else go (.finishing key .error nofun)
  | .saving key state token username, .saved ok =>
      let (e, s) := s.save key state token username generation ok
      some (e, s.withTask generation .done)
  | .finishing key status _, .go =>
      some (.other, (s.finish key generation status).withTask generation .done)
  | _, _ => none

/-- The lock section of `cancel`. -/
def removeFlow (id : Nat) (key : FlowKey) (s : OAuthState) : OAuthEvent × OAuthState :=
  let old := (s.flows.lookup key).map (·.generation)
  (.removed id key old, { s.withCancel id (.removed key) with
    flows := s.flows.erase key
    cancelled := fun g => s.cancelled g || old = some g })

/-- What `cancel` does to the database, after it has let the lock go. -/
def clearToken (id : Nat) (key : FlowKey) (ok : Bool) (s : OAuthState) :
    OAuthEvent × OAuthState :=
  let s := s.withCancel id .returned
  if ok then (.cleared id key, { s with tokens := Function.update s.tokens key none })
  else (.other, s)

end OAuthState

/-! ## Runs -/

/-- Whose turn it is, and what it is told. -/
inductive OAuthAction where
  | tick (now : Int)
  | shutdown
  | start (key : FlowKey) (authorized : Bool)
  | grant (generation : Nat) (data : Except Error Json)
  | publish (generation : Nat) (authorized : Bool)
  | abandon (generation : Nat)
  | drop (generation : Nat)
  | poll (generation : Nat) (input : PollInput)
  | cancel (id : Nat) (key : FlowKey)
  | remove (id : Nat)
  | clear (id : Nat) (ok : Bool)

open OAuthState in
def perform (c : OAuthConfig) (s : OAuthState) : OAuthAction → Option (OAuthEvent × OAuthState)
  | .tick now => if s.now ≤ now then some (.other, { s with now }) else none
  | .shutdown => some (.other, { s with closing := true })
  | .start key authorized => some (s.startFlow c key authorized)
  | .grant g data =>
      match s.tasks g with
      | .admitted key => some (.other, s.grantFlow key g data)
      | _ => none
  | .publish g authorized =>
      match s.tasks g with
      | .granted key grant since => some (.other, s.publishFlow key grant since g authorized)
      | _ => none
  | .abandon g =>
      match s.tasks g with
      | .admitted key | .granted key _ _ => some (.other, s.dropGuard key g)
      | _ => none
  | .drop g =>
      match s.tasks g with
      | .dropping key => some (.other, (s.removeOwn key g).withTask g .done)
      | _ => none
  | .poll g input => s.pollTask g input
  | .cancel id key =>
      match s.cancels id with
      | .absent => some (.called id key, s.withCancel id (.called key))
      | _ => none
  | .remove id =>
      match s.cancels id with
      | .called key => some (s.removeFlow id key)
      | _ => none
  | .clear id ok =>
      match s.cancels id with
      | .removed key => some (s.clearToken id key ok)
      | _ => none

def OAuthStep (c : OAuthConfig) (s : OAuthState) (e : OAuthEvent) (t : OAuthState) : Prop :=
  ∃ a, perform c s a = some (e, t)

/-- A service that has just started, over any tokens. -/
structure OAuthState.Initial (s : OAuthState) : Prop where
  flows : s.flows = ∅
  nextGeneration : s.nextGeneration = 1
  tasks : ∀ g, s.tasks g = .absent
  cancels : ∀ id, s.cancels id = .absent

end YoinkCore.Insight
