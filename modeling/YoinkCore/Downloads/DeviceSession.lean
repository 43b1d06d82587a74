import YoinkCore.Downloads.OAuthSession
import YoinkCore.Downloads.RefreshScope

/-!
# One device, many polls

Any number of polls of one session are on their way at a time, accepted by one service
instance or by several. Each completes, or is lost with its instance. Clean-up and every
other writer of the database run between them.
-/

namespace YoinkCore.Downloads

open Lib Domain Worker

section

variable [OAuthPlatform]

/-! ## Runs -/

/-- A poll between its two halves, with the instance and the actor it belongs to. -/
structure InFlight where
  service : Service
  config : OAuthPollConfig
  actor : Int
  poll : AcceptedPoll

structure PollState where
  db : CookieDb
  inFlight : List InFlight
  clock : Int

def PollState.session (st : PollState) (hash : String) : Option OAuthSession :=
  st.db.sessions hash

inductive PollEvent where
  | accept (reply : Except DownloadError Acceptance) (now : Int)
  | complete (f : InFlight) (answer : ProviderPoll) (reply : Except DownloadError DevicePoll)
      (now : Int)
  | lose (f : InFlight)
  | cleanup (now : Int)
  | other

/-- The polls on their way after an acceptance. -/
def accepted (s : Service) (config : OAuthPollConfig) (actor : Int)
    (reply : Except DownloadError Acceptance) (inFlight : List InFlight) : List InFlight :=
  match reply with
  | .ok (.accepted poll) => ⟨s, config, actor, poll⟩ :: inFlight
  | _ => inFlight

/-- One step of the session stored under `hash`. -/
inductive PollStep (hash : String) : PollState → PollEvent → PollState → Prop
  | accept {st : PollState} (s : Service) (config : OAuthPollConfig) (actor asked now : Int) :
      st.clock ≤ now →
      PollStep hash st (.accept (oauthAccept s config actor hash asked now st.db).1 now)
        ⟨(oauthAccept s config actor hash asked now st.db).2,
          accepted s config actor (oauthAccept s config actor hash asked now st.db).1 st.inFlight,
          now⟩
  | complete {st : PollState} {before after : List InFlight} (f : InFlight)
      (answer : ProviderPoll) (now : Int) :
      st.inFlight = before ++ f :: after → st.clock ≤ now →
      PollStep hash st (.complete f answer
          (oauthComplete f.service f.config f.actor hash f.poll answer now st.db).1 now)
        ⟨(oauthComplete f.service f.config f.actor hash f.poll answer now st.db).2,
          before ++ after, now⟩
  | lose {st : PollState} {before after : List InFlight} (f : InFlight) :
      st.inFlight = before ++ f :: after →
      PollStep hash st (.lose f) { st with inFlight := before ++ after }
  | cleanup {st : PollState} (now : Int) : st.clock ≤ now →
      PollStep hash st (.cleanup now) { st with db := cleanupOauth now st.db, clock := now }
  | other {st : PollState} {db : CookieDb} : db.sessions hash = st.db.sessions hash →
      PollStep hash st .other { st with db := db }

/-- A session as a start inserts it, for a device that expires at `expiry`. -/
def Started (hash : String) (expiry : Int) (st : PollState) : Prop :=
  st.inFlight = [] ∧ ∃ actor code interval now,
    st.session hash = some ⟨actor, code, none, expiry, interval, now, 0⟩

/-! ## The device expiry -/

/-- Until something is staged, the session expires with its device, or has been lent time
no poll can use; polls on their way remember the expiry of the device. -/
structure DeviceExpiry (hash : String) (expiry : Int) (st : PollState) : Prop where
  session : ∀ c, st.session hash = some c → c.readyContent = none →
    c.expiresAt = expiry ∨ c.expiresAt ≤ c.nextPollAt
  inFlight : ∀ f ∈ st.inFlight, f.poll.ready = none → f.poll.expires = expiry

variable {st st' : PollState} {hash : String} {e : PollEvent}

omit [OAuthPlatform] in
/-- A poll accepted with nothing staged comes before the expiry of the device. -/
theorem DeviceExpiry.accepts {expiry : Int} (h : DeviceExpiry hash expiry st) {c : OAuthSession}
    (hc : st.session hash = some c) (hn : c.readyContent = none) {now : Int}
    (hexp : now < c.expiresAt) (hnext : c.nextPollAt ≤ now) :
    c.expiresAt = expiry ∧ now < expiry := by
  rcases h.session c hc hn with he | he
  · exact ⟨he, he ▸ hexp⟩
  · omega

omit [OAuthPlatform] in
theorem session_withSession (db : CookieDb) (hash : String) (c : Option OAuthSession)
    (inFlight : List InFlight) (now : Int) :
    (⟨db.withSession hash c, inFlight, now⟩ : PollState).session hash = c :=
  CookieDb.withSession_self ..

/-- Every step keeps what is known about the expiry. -/
theorem DeviceExpiry.step {expiry : Int} (h : DeviceExpiry hash expiry st)
    (hstep : PollStep hash st e st') : DeviceExpiry hash expiry st' := by
  cases hstep with
  | accept s config actor asked now _ =>
      rcases oauthAccept_cases s config actor hash asked now st.db with
        ⟨e, hr⟩ | ⟨a, db', hr, ha⟩
      · rw [hr]
        exact ⟨h.session, h.inFlight⟩
      · rw [hr]
        cases ha with
        | absent _ => exact ⟨h.session, h.inFlight⟩
        | early _ => exact ⟨h.session, h.inFlight⟩
        | expired _ _ =>
            refine ⟨fun c hc => ?_, h.inFlight⟩
            rw [session_withSession] at hc
            cases hc
        | @accepted c hc hexp hnext =>
            constructor
            · intro c' hc' hn
              rw [session_withSession] at hc'
              obtain rfl := Option.some.inj hc'
              have hn : c.readyContent = none := hn
              obtain ⟨he, -⟩ := h.accepts hc hn hexp (hnext hn)
              simp only [lend, hn, Option.isNone_none, if_true]
              omega
            · intro f hf hn
              rcases List.mem_cons.mp hf with rfl | hf
              · exact (h.accepts hc hn hexp (hnext hn)).1
              · exact h.inFlight f hf hn
  | @complete before after f answer now hf _ =>
      have hrest : ∀ g ∈ before ++ after, g.poll.ready = none → g.poll.expires = expiry := by
        intro g hg
        refine h.inFlight g ?_
        rw [hf, List.mem_append, List.mem_cons]
        rcases List.mem_append.mp hg with hg | hg
        · exact .inl hg
        · exact .inr (.inr hg)
      refine ⟨?_, hrest⟩
      rcases oauthComplete_cases f.service f.config f.actor hash f.poll answer now st.db with
        ⟨e, hr⟩ | ⟨outcome, c, reply, db', ho, hr, hc, -, -, hdone⟩
      · rw [hr]
        exact h.session
      · rw [hr]
        intro c' hc' hn
        cases hdone with
        | waiting reply interval next hready _ _ _ =>
            rw [session_withSession] at hc'
            obtain rfl := Option.some.inj hc'
            -- a poll that carries tokens is not answered with waiting
            have hpoll : f.poll.ready = none := by
              cases hp : f.poll.ready with
              | none => rfl
              | some content =>
                  rw [pollOutcome, hp] at ho
                  dsimp only at ho
                  cases hd : decodeCredential content with
                  | error e =>
                      rw [hd] at ho
                      cases ho
                  | ok tokens =>
                      rw [hd] at ho
                      cases ho
                      cases hready
            exact .inl (h.inFlight f (by rw [hf]; simp) hpoll)
        | expired _ _ =>
            rw [session_withSession] at hc'
            cases hc'
        | refused _ =>
            rw [session_withSession] at hc'
            obtain rfl := Option.some.inj hc'
            cases hn
        | stored _ _ _ _ _ =>
            rw [session_withSession] at hc'
            cases hc'
  | @lose before after f hf =>
      refine ⟨h.session, fun g hg => h.inFlight g ?_⟩
      rw [hf, List.mem_append, List.mem_cons]
      rcases List.mem_append.mp hg with hg | hg
      · exact .inl hg
      · exact .inr (.inr hg)
  | cleanup now _ =>
      refine ⟨fun c hc => h.session c ?_, h.inFlight⟩
      exact (Option.filter_eq_some_iff.mp hc).1
  | other hsame =>
      refine ⟨fun c hc => h.session c ?_, h.inFlight⟩
      rw [PollState.session, ← hsame]
      exact hc

omit [OAuthPlatform] in
theorem Started.deviceExpiry {expiry : Int} (h : Started hash expiry st) :
    DeviceExpiry hash expiry st := by
  obtain ⟨hf, actor, code, interval, now, hs⟩ := h
  constructor
  · intro c hc _
    rw [hs] at hc
    obtain rfl := Option.some.inj hc
    exact .inl rfl
  · intro f hmem
    rw [hf] at hmem
    cases hmem

/-! ## A stored credential -/

omit [OAuthPlatform] in
/-- A completion that stored a credential. -/
def PollEvent.stores : PollEvent → Bool
  | .complete _ _ (.ok .ok) _ => true
  | _ => false

omit [OAuthPlatform] in
/-- The time of an event, where it reads one. -/
def PollEvent.time : PollEvent → Option Int
  | .accept _ now => some now
  | .complete _ _ _ now => some now
  | .cleanup now => some now
  | .lose _ => none
  | .other => none

/-- A session that is gone does not come back, and stores nothing. -/
theorem PollStep.of_none (h : PollStep hash st e st') (hs : st.session hash = none) :
    st'.session hash = none ∧ e.stores = false := by
  cases h with
  | accept s config actor asked now _ =>
      refine ⟨?_, rfl⟩
      rcases oauthAccept_cases s config actor hash asked now st.db with
        ⟨e, hr⟩ | ⟨a, db', hr, ha⟩
      · rw [hr]
        exact hs
      · rw [hr]
        cases ha with
        | absent _ => exact hs
        | early _ => exact hs
        | expired _ _ => exact session_withSession ..
        | accepted hc _ _ => rw [PollState.session, hc] at hs; cases hs
  | complete f answer now _ _ =>
      rcases oauthComplete_cases f.service f.config f.actor hash f.poll answer now st.db with
        ⟨e, hr⟩ | ⟨outcome, c, reply, db', -, -, hc, -⟩
      · rw [hr]
        exact ⟨hs, rfl⟩
      · rw [PollState.session, hc] at hs
        cases hs
  | lose f _ => exact ⟨hs, rfl⟩
  | cleanup now _ =>
      refine ⟨?_, rfl⟩
      show (st.db.sessions hash).filter _ = none
      rw [show st.db.sessions hash = none from hs]
      rfl
  | other hsame => exact ⟨hsame.trans hs, rfl⟩

/-- Storing a credential ends the session. -/
theorem PollStep.of_stores (h : PollStep hash st e st') (hs : e.stores = true) :
    st'.session hash = none := by
  cases h with
  | complete f answer now _ _ =>
      rcases oauthComplete_cases f.service f.config f.actor hash f.poll answer now st.db with
        ⟨e, hr⟩ | ⟨outcome, c, reply, db', -, hr, -, -, -, hdone⟩
      · rw [hr] at hs
        cases hs
      · rw [hr] at hs ⊢
        cases hdone with
        | waiting reply _ _ _ _ _ hne =>
            cases reply with
            | ok => exact absurd rfl hne
            | pending => cases hs
            | expired => cases hs
            | error => cases hs
        | expired _ _ => cases hs
        | refused _ => cases hs
        | stored _ _ _ _ _ => exact session_withSession ..
  | accept | lose | cleanup | other => cases hs

/-- Only a completion that stores a credential touches the cookies. -/
theorem PollStep.of_not_stores (h : PollStep hash st e st') (hs : e.stores = false)
    (hother : e ≠ .other) : st'.db.cookies = st.db.cookies := by
  cases h with
  | accept s config actor asked now _ =>
      rcases oauthAccept_cases s config actor hash asked now st.db with
        ⟨e, hr⟩ | ⟨a, db', hr, ha⟩
      · rw [hr]
      · rw [hr]
        cases ha <;> rfl
  | complete f answer now _ _ =>
      rcases oauthComplete_cases f.service f.config f.actor hash f.poll answer now st.db with
        ⟨e, hr⟩ | ⟨outcome, c, reply, db', -, hr, -, -, -, hdone⟩
      · rw [hr]
      · rw [hr] at hs ⊢
        cases hdone with
        | waiting _ _ _ _ _ _ _ => rfl
        | expired _ _ => rfl
        | refused _ => rfl
        | stored _ _ _ _ _ => cases hs
  | lose => rfl
  | cleanup => rfl
  | other => exact absurd rfl hother

/-- A session stores one credential at most. -/
theorem stores_once {es : List PollEvent} (h : Run (PollStep hash) st es st') :
    es.countP PollEvent.stores = 0 ∨
      es.countP PollEvent.stores = 1 ∧ st'.session hash = none := by
  induction h with
  | nil => exact .inl rfl
  | @snoc es t u e _ hstep ih =>
      rw [List.countP_append, List.countP_singleton]
      rcases ih with h0 | ⟨h1, hn⟩
      · by_cases he : e.stores = true
        · exact .inr ⟨by rw [h0, if_pos he], hstep.of_stores he⟩
        · exact .inl (by rw [h0, if_neg he])
      · obtain ⟨hn', he⟩ := hstep.of_none hn
        exact .inr ⟨by rw [h1, he]; rfl, hn'⟩

/-! ## Staged credentials -/

/-- What becomes of a staged credential in one step: it stays, with its expiry, or the
session has expired, or exactly it is stored. -/
theorem PollStep.of_staged (h : PollStep hash st e st') {c : OAuthSession} {content : String}
    (hc : st.session hash = some c) (hready : c.readyContent = some content) :
    (∃ c', st'.session hash = some c' ∧ c'.readyContent = some content ∧
        c'.expiresAt = c.expiresAt) ∨
      st'.session hash = none ∧
        ((∃ now, e.time = some now ∧ c.expiresAt ≤ now) ∨
          e.stores = true ∧ ∃ t db₁ db₂, db₁.cookies = st.db.cookies ∧
            upsertCookie c.userId oauthDomain content true t db₁ = .ok ((), db₂) ∧
            st'.db = db₂.withSession hash none) := by
  cases h with
  | accept s config actor asked now _ =>
      rcases oauthAccept_cases s config actor hash asked now st.db with
        ⟨e, hr⟩ | ⟨a, db', hr, ha⟩
      · rw [hr]
        exact .inl ⟨c, hc, hready, rfl⟩
      · rw [hr]
        cases ha with
        | absent _ => exact .inl ⟨c, hc, hready, rfl⟩
        | early _ => exact .inl ⟨c, hc, hready, rfl⟩
        | expired hc' hexp =>
            obtain rfl := Option.some.inj (hc.symm.trans hc')
            exact .inr ⟨session_withSession .., .inl ⟨now, rfl, hexp⟩⟩
        | accepted hc' _ _ =>
            obtain rfl := Option.some.inj (hc.symm.trans hc')
            refine .inl ⟨_, session_withSession .., hready, ?_⟩
            simp [lend, hready]
  | complete f answer now _ _ =>
      rcases oauthComplete_cases f.service f.config f.actor hash f.poll answer now st.db with
        ⟨e, hr⟩ | ⟨outcome, c', reply, db', ho, hr, hc', huser, hexp, hdone⟩
      · rw [hr]
        exact .inl ⟨c, hc, hready, rfl⟩
      · obtain rfl := Option.some.inj (hc.symm.trans hc')
        rw [hr]
        cases hdone with
        | waiting _ _ _ _ hn _ _ => rw [hready] at hn; cases hn
        | expired hn _ => rw [hready] at hn; cases hn
        | refused hg =>
            rw [hready] at hg
            cases hg
            refine .inl ⟨_, session_withSession .., rfl, ?_⟩
            simp [settle, settledExpiry, hready]
        | stored hg hcookies _ _ hu =>
            rw [hready] at hg
            cases hg
            exact .inr ⟨session_withSession .., .inr ⟨rfl, _, _, _, hcookies, huser ▸ hu, rfl⟩⟩
  | lose f _ => exact .inl ⟨c, hc, hready, rfl⟩
  | cleanup now _ =>
      by_cases hexp : now < c.expiresAt
      · refine .inl ⟨c, ?_, hready, rfl⟩
        exact Option.filter_eq_some_iff.mpr ⟨hc, by simpa using hexp⟩
      · refine .inr ⟨?_, .inl ⟨now, rfl, by omega⟩⟩
        show (st.db.sessions hash).filter _ = none
        rw [show st.db.sessions hash = some c from hc, Option.filter_some, if_neg]
        simpa using hexp
  | other hsame => exact .inl ⟨c, hsame.trans hc, hready, rfl⟩

/-- A failure that comes after a success, or after a later poll, changes nothing. -/
theorem PollStep.of_failure {f : InFlight} {answer : ProviderPoll}
    {reply : Except DownloadError DevicePoll} {now : Int}
    (h : PollStep hash st (.complete f answer reply now) st') {c : OAuthSession}
    (hc : st.session hash = some c)
    (hlate : c.readyContent ≠ none ∨ c.generation ≠ f.poll.generation)
    (hfail : ∀ outcome, pollOutcome f.poll answer = .ok outcome → outcome.isReady = false) :
    st'.db = st.db := by
  cases h with
  | complete f answer now _ _ =>
      rcases oauthComplete_cases f.service f.config f.actor hash f.poll answer now st.db with
        ⟨e, hr⟩ | ⟨outcome, c', reply, db', ho, hr, hc', -, -, hdone⟩
      · rw [hr]
      · obtain rfl := Option.some.inj (hc.symm.trans hc')
        have hnot := hfail outcome ho
        cases hdone with
        | waiting _ _ _ _ hn hg _ => exact absurd hlate (by simp [hn, hg])
        | expired hn hg => exact absurd hlate (by simp [hn, hg])
        | refused _ => cases hnot
        | stored _ _ _ _ _ => cases hnot

/-- **Device sessions.** In every run from a start, at most one completion stores a
credential, and nothing else of the session touches the cookies. In each step, a staged
credential stays as it is, and with it the expiry, unless the session has expired or
exactly that credential is stored; a failed poll changes nothing when a success is staged
or a later poll was accepted; and while nothing is staged, polls are accepted only before
the expiry of the device. -/
theorem device_session {hash : String} {expiry : Int} {st₀ st : PollState}
    {es : List PollEvent} (hstart : Started hash expiry st₀)
    (hrun : Run (PollStep hash) st₀ es st) :
    es.countP PollEvent.stores ≤ 1 ∧
    ∀ e st', PollStep hash st e st' →
      (e.stores = false → e ≠ .other → st'.db.cookies = st.db.cookies) ∧
      (∀ c content, st.session hash = some c → c.readyContent = some content →
        (∃ c', st'.session hash = some c' ∧ c'.readyContent = some content ∧
          c'.expiresAt = c.expiresAt) ∨
        st'.session hash = none ∧
          ((∃ now, e.time = some now ∧ c.expiresAt ≤ now) ∨
            e.stores = true ∧ ∃ t db₁ db₂, db₁.cookies = st.db.cookies ∧
              upsertCookie c.userId oauthDomain content true t db₁ = .ok ((), db₂) ∧
              st'.db = db₂.withSession hash none)) ∧
      (∀ f answer reply now c, e = .complete f answer reply now → st.session hash = some c →
        c.readyContent ≠ none ∨ c.generation ≠ f.poll.generation →
        (∀ outcome, pollOutcome f.poll answer = .ok outcome → outcome.isReady = false) →
        st'.db = st.db) ∧
      (∀ poll now c, e = .accept (.ok (.accepted poll)) now → st.session hash = some c →
        c.readyContent = none → now < expiry) := by
  constructor
  · rcases stores_once hrun with h | ⟨h, -⟩ <;> omega
  intro e st' hstep
  refine ⟨hstep.of_not_stores, fun c content => hstep.of_staged, ?_, ?_⟩
  · rintro f answer reply now c rfl hc hlate hfail
    exact hstep.of_failure hc hlate hfail
  · intro poll now c he hc hn
    have hexpiry := hrun.invariant (fun h hs => h.step hs) hstart.deviceExpiry
    cases hstep with
    | accept s config actor asked now' _ =>
        rcases oauthAccept_cases s config actor hash asked now' st.db with
          ⟨e, hr⟩ | ⟨a, db', hr, ha⟩
        · rw [hr] at he
          cases he
        · rw [hr] at he
          cases he
          cases ha with
          | accepted hc' hexp hnext =>
              obtain rfl := Option.some.inj (hc.symm.trans hc')
              exact (hexpiry.accepts hc hn hexp (hnext hn)).2
    | complete | lose | cleanup | other => cases he

end

/-! ## A poll that stores -/

namespace DeviceScenario

attribute [local instance] TokenScenario.platform

open TokenScenario

def session : OAuthSession := ⟨7, "device", none, 900, 5, 0, 0⟩

def started : PollState :=
  ⟨PoisonScenario.users.withSession "h" (some session), [], 0⟩

def config : OAuthPollConfig := ⟨61, 60, by decide⟩

def poll : InFlight := ⟨PoisonScenario.service, config, 7, ⟨"device", 1, 5, none, 900⟩⟩

def taken : Except DownloadError Acceptance × CookieDb :=
  oauthAccept PoisonScenario.service config 7 "h" 10 11 started.db

def granted : Except DownloadError DevicePoll × CookieDb :=
  oauthComplete PoisonScenario.service config 7 "h" poll.poll (.ready renewed) 12 taken.2

theorem poll_accepted : taken.1 = .ok (.accepted poll.poll) := by
  have hrun : (match taken.1 with
      | .ok a => some a
      | .error _ => none) = some (.accepted poll.poll) := by decide +kernel
  revert hrun
  cases taken.1 with
  | error e => intro h; cases h
  | ok a => intro h; cases h; rfl

theorem run : Run (PollStep "h") started
    [.accept taken.1 11, .complete poll (.ready renewed) granted.1 12] ⟨granted.2, [], 12⟩ := by
  have haccept : PollStep "h" started _ _ :=
    .accept PoisonScenario.service config 7 10 11 (by decide)
  have hflight : accepted PoisonScenario.service config 7 taken.1 started.inFlight =
      [] ++ poll :: [] := by
    rw [poll_accepted]
    rfl
  have hcomplete : PollStep "h"
      ⟨taken.2, accepted PoisonScenario.service config 7 taken.1 started.inFlight, 11⟩ _ _ :=
    .complete poll (.ready renewed) 12 hflight (by decide)
  exact .snoc (.snoc .nil haccept) hcomplete

end DeviceScenario

section

attribute [local instance] TokenScenario.platform

open DeviceScenario

/-- A device that is granted its tokens stores them, once. -/
theorem device_session_granted :
    [PollEvent.accept taken.1 11, .complete poll (.ready TokenScenario.renewed)
        DeviceScenario.granted.1 12].countP PollEvent.stores ≤ 1 ∧
      DeviceScenario.granted.2.cookies.rows.length = 1 := by
  have hstart : Started "h" 900 started :=
    ⟨rfl, 7, "device", 5, 0, CookieDb.withSession_self ..⟩
  exact ⟨(device_session hstart run).1, by decide +kernel⟩

end

end YoinkCore.Downloads
