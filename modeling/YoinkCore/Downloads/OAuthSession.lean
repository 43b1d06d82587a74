import YoinkCore.Downloads.OAuth

/-!
# Sessions of a device

A device waits for its user to grant access. A poll accepts the session in one
transaction, asks the provider, and completes in another. Acceptance lends the session
time until the budget of the poll is spent; completion gives it back, stages what the
provider granted, and stores it when the limits allow.
-/

namespace YoinkCore.Downloads

open Lib Domain Worker

/-! ## Polls -/

/-- How long a poll may take, and how long a granted credential is kept for retries. -/
structure OAuthPollConfig where
  budget : Int
  resultRetention : Int
  valid : 61 ≤ budget ∧ budget ≤ 300 ∧ 60 ≤ resultRetention ∧ resultRetention ≤ 86400

/-- `i64::saturating_add` of a nonnegative number. -/
def saturatingAdd (a b : Int) : Int := min (a + b) (2 ^ 63 - 1)

/-- What a poll takes with it to the provider. -/
structure AcceptedPoll where
  code : String
  generation : Int
  interval : Int
  ready : Option String
  expires : Int
deriving DecidableEq

inductive Acceptance where
  | expired
  | pending
  | accepted (poll : AcceptedPoll)
deriving DecidableEq

/-- What the provider says. -/
inductive ProviderPoll where
  | pending
  | slowDown
  | expired
  | error
  | ready (tokens : YoutubeOAuth)
deriving DecidableEq

def ProviderPoll.isReady : ProviderPoll → Bool
  | .ready _ => true
  | _ => false

inductive DevicePoll where
  | pending
  | expired
  | error
  | ok
deriving DecidableEq

def CookieDb.withSession (db : CookieDb) (hash : String) (session : Option OAuthSession) :
    CookieDb :=
  { db with sessions := Function.update db.sessions hash session }

@[simp] theorem CookieDb.withSession_cookies (db : CookieDb) (hash : String)
    (session : Option OAuthSession) : (db.withSession hash session).cookies = db.cookies := rfl

@[simp] theorem CookieDb.withSession_self (db : CookieDb) (hash : String)
    (session : Option OAuthSession) : (db.withSession hash session).sessions hash = session :=
  Function.update_self ..

def setSession (hash : String) (session : Option OAuthSession) : CookieStmt Unit :=
  modify (·.withSession hash session)

/-- The session while a poll is on its way. -/
def lend (until' : Int) (session : OAuthSession) : OAuthSession :=
  { session with
    generation := session.generation + 1
    nextPollAt := until'
    expiresAt := if session.readyContent.isNone then max session.expiresAt until'
      else session.expiresAt }

def takeSession (hash : String) (lease now : Int) (session : OAuthSession) :
    CookieStmt (Outcome Acceptance) :=
  if session.expiresAt ≤ now then do
    setSession hash none
    return .commit (.ok .expired)
  else if session.readyContent.isNone && decide (now < session.nextPollAt) then
    return .commit (.ok .pending)
  else do
    setSession hash (some (lend lease session))
    return .commit (.ok (.accepted ⟨session.deviceCode, session.generation + 1,
      session.pollInterval, session.readyContent, session.expiresAt⟩))

/-- The first half of a poll asked for at `asked`; the transaction begins at `now`. -/
def acceptTx (s : Service) (config : OAuthPollConfig) (actor : Int) (hash : String)
    (asked now : Int) : CookieStmt (Outcome Acceptance) := do
  let db ← get
  result (webAuthorize s db actor now)
  match db.sessions hash with
  | none => return .commit (.ok .expired)
  | some session =>
      if session.userId ≠ actor then throw .denied
      else takeSession hash (saturatingAdd asked (config.budget + 1)) now session

section

variable [OAuthPlatform]

/-- A staged credential is taken for the answer of the provider. -/
def pollOutcome (poll : AcceptedPoll) (answer : ProviderPoll) :
    Except DownloadError ProviderPoll :=
  match poll.ready with
  | some content => (decodeCredential content).map .ready
  | none => .ok answer

/-- The credential to store: the staged one, or the one just granted. -/
def grantedContent (staged : Option String) (tokens : YoutubeOAuth) :
    Except DownloadError String :=
  match staged with
  | some content => .ok content
  | none => encodeCredential tokens

/-- The expiry a completed poll leaves behind. -/
def settledExpiry (config : OAuthPollConfig) (poll : AcceptedPoll) (outcome : ProviderPoll)
    (now : Int) (current : OAuthSession) : Int :=
  if outcome.isReady && current.readyContent.isNone then
    saturatingAdd now config.resultRetention
  else if current.readyContent.isSome then current.expiresAt
  else poll.expires

def settle (config : OAuthPollConfig) (poll : AcceptedPoll) (outcome : ProviderPoll)
    (now : Int) (current : OAuthSession) : OAuthSession :=
  { current with expiresAt := settledExpiry config poll outcome now current }

/-- Stage what was granted, and store it unless the limits refuse it. -/
def grantTx (s : Service) (actor : Int) (hash : String) (now : Int) (settled : OAuthSession)
    (content : String) : CookieStmt (Outcome DevicePoll) := do
  setSession hash (some { settled with readyContent := some content })
  let db ← get
  if !oauthCapacity s db actor content then
    return .commit (.error .personalCookieCapacity)
  else
    oauthStore actor content now
    setSession hash none
    return .commit (.ok .ok)

def settleTx (s : Service) (actor : Int) (hash : String) (poll : AcceptedPoll)
    (outcome : ProviderPoll) (now : Int) (settled : OAuthSession) :
    CookieStmt (Outcome DevicePoll) :=
  match outcome with
  | .pending => do
      setSession hash (some { settled with
        pollInterval := poll.interval, nextPollAt := now + poll.interval })
      return .commit (.ok .pending)
  | .slowDown => do
      let interval := min (poll.interval + 5) 60
      setSession hash (some { settled with
        pollInterval := interval, nextPollAt := now + interval })
      return .commit (.ok .pending)
  | .expired => do
      setSession hash none
      return .commit (.ok .expired)
  | .error => do
      setSession hash (some { settled with nextPollAt := now + poll.interval })
      return .commit (.ok .error)
  | .ready tokens => do
      let content ← result (grantedContent settled.readyContent tokens)
      grantTx s actor hash now settled content

/-- A success is not fenced: it wins over a later failure, never over a staged one. -/
def fenced (poll : AcceptedPoll) (outcome : ProviderPoll) (current : OAuthSession) : Bool :=
  !outcome.isReady &&
    (decide (current.generation ≠ poll.generation) || current.readyContent.isSome)

/-- The second half of a poll. -/
def completeTx (s : Service) (config : OAuthPollConfig) (actor : Int) (hash : String)
    (poll : AcceptedPoll) (outcome : ProviderPoll) (now : Int) :
    CookieStmt (Outcome DevicePoll) := do
  let db ← get
  result (webAuthorize s db actor now)
  match (db.sessions hash).filter fun c => c.userId == actor && decide (now < c.expiresAt) with
  | none => throw .changedCredentials
  | some current =>
      if fenced poll outcome current then throw .changedCredentials
      else settleTx s actor hash poll outcome now (settle config poll outcome now current)

def oauthComplete (s : Service) (config : OAuthPollConfig) (actor : Int) (hash : String)
    (poll : AcceptedPoll) (answer : ProviderPoll) (now : Int) (db : CookieDb) :
    Except DownloadError DevicePoll × CookieDb :=
  match pollOutcome poll answer with
  | .error e => (.error e, db)
  | .ok outcome => transact (completeTx s config actor hash poll outcome now) db

end

def oauthAccept (s : Service) (config : OAuthPollConfig) (actor : Int) (hash : String)
    (asked now : Int) (db : CookieDb) : Except DownloadError Acceptance × CookieDb :=
  transact (acceptTx s config actor hash asked now) db

/-- `cleanup_cookie_oauth`, and the first statement of a start. -/
def cleanupOauth (now : Int) (db : CookieDb) : CookieDb :=
  { db with sessions := fun hash => (db.sessions hash).filter fun s => decide (now < s.expiresAt) }

/-! ## What each half does -/

variable {config : OAuthPollConfig} {db db' : CookieDb} {s : Service}

theorem setSession_eq_ok {hash : String} {session : Option OAuthSession} {u : Unit}
    (h : setSession hash session db = .ok (u, db')) : db' = db.withSession hash session := by
  cases h
  rfl

/-- What an acceptance does to a session it found. -/
inductive Accepts (hash : String) (config : OAuthPollConfig) (asked now : Int) (db : CookieDb) :
    Acceptance → CookieDb → Prop
  | absent : db.sessions hash = none → Accepts hash config asked now db .expired db
  | expired {session : OAuthSession} : db.sessions hash = some session →
      session.expiresAt ≤ now →
      Accepts hash config asked now db .expired (db.withSession hash none)
  | early {session : OAuthSession} : db.sessions hash = some session →
      Accepts hash config asked now db .pending db
  | accepted {session : OAuthSession} : db.sessions hash = some session →
      now < session.expiresAt → (session.readyContent = none → session.nextPollAt ≤ now) →
      Accepts hash config asked now db
        (.accepted ⟨session.deviceCode, session.generation + 1, session.pollInterval,
          session.readyContent, session.expiresAt⟩)
        (db.withSession hash (some (lend (saturatingAdd asked (config.budget + 1)) session)))

theorem acceptTx_eq_ok {actor : Int} {hash : String} {asked now : Int} {r : Outcome Acceptance}
    (h : acceptTx s config actor hash asked now db = .ok (r, db')) :
    ∃ a, r = .commit (.ok a) ∧ Accepts hash config asked now db a db' := by
  simp only [acceptTx, Tx.bind_eq_ok, Tx.get_eq_ok] at h
  obtain ⟨_, _, ⟨rfl, rfl⟩, _, _, ha, h⟩ := h
  obtain ⟨-, rfl⟩ := result_eq_ok ha
  cases hs : db.sessions hash with
  | none =>
      rw [hs] at h
      cases h
      exact ⟨_, rfl, .absent hs⟩
  | some session =>
      rw [hs] at h
      simp only [Tx.ite_apply_state, takeSession] at h
      split at h
      · exact (Tx.throw_ne_ok.mp h).elim
      split at h
      · rename_i hexp
        obtain ⟨_, _, hset, h⟩ := Tx.bind_eq_ok.mp h
        obtain rfl := setSession_eq_ok hset
        cases h
        exact ⟨_, rfl, .expired hs hexp⟩
      rename_i hexp
      split at h
      · cases h
        exact ⟨_, rfl, .early hs⟩
      rename_i hnext
      obtain ⟨_, _, hset, h⟩ := Tx.bind_eq_ok.mp h
      obtain rfl := setSession_eq_ok hset
      cases h
      refine ⟨_, rfl, .accepted hs (by omega) fun hn => ?_⟩
      simpa [hn] using hnext

theorem oauthAccept_cases (s : Service) (config : OAuthPollConfig) (actor : Int)
    (hash : String) (asked now : Int) (db : CookieDb) :
    (∃ e, oauthAccept s config actor hash asked now db = (.error e, db)) ∨
      ∃ a db', oauthAccept s config actor hash asked now db = (.ok a, db') ∧
        Accepts hash config asked now db a db' := by
  unfold oauthAccept transact
  rcases Tx.run_spec (acceptTx s config actor hash asked now) db
    with ⟨e, -, h⟩ | ⟨r, db', hb, -⟩ | ⟨r, db', hb, h⟩
  · exact .inl ⟨e, by rw [h]⟩
  · obtain ⟨a, hr, -⟩ := acceptTx_eq_ok hb
    cases hr
  · obtain ⟨a, hr, ha⟩ := acceptTx_eq_ok hb
    cases hr
    exact .inr ⟨a, db', by rw [h], ha⟩

section

variable [OAuthPlatform]

/-- What a completion does to a session it found. -/
inductive Completes (s : Service) (config : OAuthPollConfig) (actor : Int) (hash : String)
    (poll : AcceptedPoll) (now : Int) (db : CookieDb) (current : OAuthSession) :
    ProviderPoll → Except DownloadError DevicePoll → CookieDb → Prop
  | waiting {outcome : ProviderPoll} (reply : DevicePoll) (interval next : Int) :
      outcome.isReady = false → current.readyContent = none →
      current.generation = poll.generation → reply ≠ .ok →
      Completes s config actor hash poll now db current outcome (.ok reply)
        (db.withSession hash (some { current with
          expiresAt := poll.expires, pollInterval := interval, nextPollAt := next }))
  | expired : current.readyContent = none → current.generation = poll.generation →
      Completes s config actor hash poll now db current .expired (.ok .expired)
        (db.withSession hash none)
  | refused {tokens : YoutubeOAuth} {content : String} :
      grantedContent current.readyContent tokens = .ok content →
      Completes s config actor hash poll now db current (.ready tokens)
        (.error .personalCookieCapacity)
        (db.withSession hash (some { settle config poll (.ready tokens) now current with
          readyContent := some content }))
  | stored {tokens : YoutubeOAuth} {content : String} {t : Int} {db₁ db₂ : CookieDb} :
      grantedContent current.readyContent tokens = .ok content → db₁.cookies = db.cookies →
      (usage db.cookies.rows actor oauthDomain).updateExceeds (Text.byteLen content.toList)
        s.limits = false → fromTimestamp now = some t →
      upsertCookie actor oauthDomain content true t db₁ = .ok ((), db₂) →
      Completes s config actor hash poll now db current (.ready tokens) (.ok .ok)
        (db₂.withSession hash none)

variable {poll : AcceptedPoll} {outcome : ProviderPoll} {current : OAuthSession}

omit [OAuthPlatform] in
theorem settledExpiry_waiting {now : Int} (ho : outcome.isReady = false)
    (hc : current.readyContent = none) :
    settledExpiry config poll outcome now current = poll.expires := by
  simp [settledExpiry, ho, hc]

omit [OAuthPlatform] in
theorem not_fenced (h : fenced poll outcome current = false) (ho : outcome.isReady = false) :
    current.readyContent = none ∧ current.generation = poll.generation := by
  simp only [fenced, ho, Bool.not_false, Bool.true_and, Bool.or_eq_false_iff,
    decide_eq_false_iff_not, not_not] at h
  exact ⟨by simpa using h.2, h.1⟩

theorem grantTx_eq_ok {actor : Int} {hash : String} {tokens : YoutubeOAuth} {now : Int}
    {content : String} {r : Outcome DevicePoll}
    (hc : grantedContent current.readyContent tokens = .ok content)
    (h : grantTx s actor hash now (settle config poll (.ready tokens) now current) content db =
      .ok (r, db')) :
    ∃ reply, r = .commit reply ∧
      Completes s config actor hash poll now db current (.ready tokens) reply db' := by
  simp only [grantTx, Tx.bind_eq_ok, Tx.get_eq_ok, Tx.ite_apply_state] at h
  obtain ⟨_, _, hset, _, _, ⟨rfl, rfl⟩, h⟩ := h
  obtain rfl := setSession_eq_ok hset
  split at h
  · cases h
    exact ⟨_, rfl, .refused hc⟩
  rename_i hcap
  obtain ⟨_, db₂, hstore, h⟩ := Tx.bind_eq_ok.mp h
  obtain ⟨_, _, hdrop, h⟩ := Tx.bind_eq_ok.mp h
  obtain rfl := setSession_eq_ok hdrop
  cases h
  cases ht : fromTimestamp now with
  | none =>
      rw [oauthStore, ht] at hstore
      exact (Tx.throw_ne_ok.mp hstore).elim
  | some t =>
      rw [oauthStore, ht] at hstore
      refine ⟨_, rfl, .stored hc (CookieDb.withSession_cookies ..) ?_ ht hstore⟩
      simpa [oauthCapacity] using hcap

theorem settleTx_eq_ok {actor : Int} {hash : String} {now : Int} {r : Outcome DevicePoll}
    (hf : fenced poll outcome current = false)
    (h : settleTx s actor hash poll outcome now (settle config poll outcome now current) db =
      .ok (r, db')) :
    ∃ reply, r = .commit reply ∧
      Completes s config actor hash poll now db current outcome reply db' := by
  have hwait : ∀ {outcome : ProviderPoll} (reply : DevicePoll) (interval next : Int),
      fenced poll outcome current = false → outcome.isReady = false → reply ≠ .ok →
      Completes s config actor hash poll now db current outcome (.ok reply)
        (db.withSession hash (some { settle config poll outcome now current with
          pollInterval := interval, nextPollAt := next })) := by
    intro outcome reply interval next hf ho hr
    obtain ⟨hc, hg⟩ := not_fenced hf ho
    rw [settle, settledExpiry_waiting ho hc]
    exact .waiting reply interval next ho hc hg hr
  cases outcome with
  | ready tokens =>
      obtain ⟨content, _, hres, h⟩ := Tx.bind_eq_ok.mp h
      obtain ⟨hcontent, rfl⟩ := result_eq_ok hres
      exact grantTx_eq_ok hcontent h
  | expired =>
      obtain ⟨_, _, hset, h⟩ := Tx.bind_eq_ok.mp h
      obtain rfl := setSession_eq_ok hset
      cases h
      obtain ⟨hc, hg⟩ := not_fenced hf rfl
      exact ⟨_, rfl, .expired hc hg⟩
  | pending | slowDown =>
      obtain ⟨_, _, hset, h⟩ := Tx.bind_eq_ok.mp h
      obtain rfl := setSession_eq_ok hset
      cases h
      exact ⟨_, rfl, hwait .pending _ _ hf rfl (by decide)⟩
  | error =>
      obtain ⟨_, _, hset, h⟩ := Tx.bind_eq_ok.mp h
      obtain rfl := setSession_eq_ok hset
      cases h
      exact ⟨_, rfl, hwait .error _ _ hf rfl (by decide)⟩

theorem completeTx_eq_ok {actor : Int} {hash : String} {now : Int} {r : Outcome DevicePoll}
    (h : completeTx s config actor hash poll outcome now db = .ok (r, db')) :
    ∃ current reply, r = .commit reply ∧ db.sessions hash = some current ∧
      current.userId = actor ∧ now < current.expiresAt ∧
      Completes s config actor hash poll now db current outcome reply db' := by
  simp only [completeTx, Tx.bind_eq_ok, Tx.get_eq_ok] at h
  obtain ⟨_, _, ⟨rfl, rfl⟩, _, _, ha, h⟩ := h
  obtain ⟨-, rfl⟩ := result_eq_ok ha
  cases hs : (db.sessions hash).filter fun c => c.userId == actor && decide (now < c.expiresAt) with
  | none =>
      rw [hs] at h
      exact (Tx.throw_ne_ok.mp h).elim
  | some current =>
      rw [hs] at h
      obtain ⟨hs, hcond⟩ := Option.filter_eq_some_iff.mp hs
      simp only [Bool.and_eq_true, beq_iff_eq, decide_eq_true_eq] at hcond
      simp only [Tx.ite_apply_state] at h
      split at h
      · exact (Tx.throw_ne_ok.mp h).elim
      rename_i hfence
      obtain ⟨reply, hr, hc⟩ := settleTx_eq_ok (by simpa using hfence) h
      exact ⟨current, reply, hr, hs, hcond.1, hcond.2, hc⟩

/-- A completion fails and changes nothing, or finds the session of its actor alive. -/
theorem oauthComplete_cases (s : Service) (config : OAuthPollConfig) (actor : Int)
    (hash : String) (poll : AcceptedPoll) (answer : ProviderPoll) (now : Int) (db : CookieDb) :
    (∃ e, oauthComplete s config actor hash poll answer now db = (.error e, db)) ∨
      ∃ outcome current reply db', pollOutcome poll answer = .ok outcome ∧
        oauthComplete s config actor hash poll answer now db = (reply, db') ∧
        db.sessions hash = some current ∧ current.userId = actor ∧ now < current.expiresAt ∧
        Completes s config actor hash poll now db current outcome reply db' := by
  unfold oauthComplete
  cases ho : pollOutcome poll answer with
  | error e => exact .inl ⟨e, rfl⟩
  | ok outcome =>
      dsimp only
      unfold transact
      rcases Tx.run_spec (completeTx s config actor hash poll outcome now) db
        with ⟨e, -, h⟩ | ⟨r, db', hb, -⟩ | ⟨r, db', hb, h⟩
      · exact .inl ⟨e, by rw [h]⟩
      · obtain ⟨_, _, hr, -⟩ := completeTx_eq_ok hb
        cases hr
      · obtain ⟨current, reply, hr, hs, hu, hn, hc⟩ := completeTx_eq_ok hb
        cases hr
        exact .inr ⟨outcome, current, _, db', rfl, by rw [h], hs, hu, hn, hc⟩

end

end YoinkCore.Downloads
