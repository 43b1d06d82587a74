import YoinkCore.Lib.Dict
import YoinkCore.Lib.Window
import YoinkCore.Storage.Model

/-!
# Inline searches

Every inline query begins a lifetime and cancels the one its actor had before. A call is allowed
or throttled by a window for all actors and an interval for each. The table of actors is
bounded: when it is full, an actor whose lifetime is over makes room, and what the table knew
of its last call is gone.
-/

namespace YoinkCore.Telegram

open Lib Domain Storage

/-! ## Limits -/

def maxTransientQueries : Nat := 1024

structure InlineSearchConfig where
  concurrency : Nat
  timeout : Duration
  requestsPerSecond : Nat
  actorInterval : Duration

def InlineSearchConfig.valid (c : InlineSearchConfig) : Bool :=
  DownloaderSettings.within 1 8 c.concurrency &&
    DownloaderSettings.within 1 120 c.timeout.asSecs && c.timeout.subsecNanos == 0 &&
    DownloaderSettings.within 1 100 c.requestsPerSecond &&
    DownloaderSettings.within 1000000 (Duration.ofSecs 10).nanos c.actorInterval.nanos

/-- A second, in nanoseconds. -/
def second : Int := 1000000000

/-- `duration_since`: no time has passed since a later instant. -/
def durationSince (now earlier : Int) : Nat := (now - earlier).toNat

/-! ## The table -/

/-- A cancellation token is its number. -/
structure QueryLifetime where
  cancel : Nat
  deadline : Int
deriving DecidableEq

structure SearchActor where
  last : Int
  cancel : Nat
deriving DecidableEq

/-- The state behind the lock, the tokens that were handed out, the tasks that run and the latest
instant. -/
structure Searches where
  actors : Dict Nat SearchActor
  window : Int
  count : Nat
  stop : Bool
  cancelled : Nat → Bool
  issued : Nat
  tasks : List QueryLifetime
  now : Int

namespace Searches

/-- A child token is cancelled with the one of the adapter. -/
def isCancelled (s : Searches) (token : Nat) : Bool := s.stop || s.cancelled token

def cancel (token : Nat) (s : Searches) : Searches :=
  { s with cancelled := Function.update s.cancelled token true }

/-- `previous.cancel.cancel()` -/
def supersede (actor : Nat) (s : Searches) : Searches :=
  match s.actors.lookup actor with
  | some previous => s.cancel previous.cancel
  | none => s

/-- A new window, once the one in use is a second old. -/
def renew (now : Int) (s : Searches) : Searches :=
  if second ≤ durationSince now s.window then { s with window := now, count := 0 } else s

def allows (c : InlineSearchConfig) (actor : Nat) (now : Int) (s : Searches) : Bool :=
  decide (s.count < c.requestsPerSecond) &&
    !(s.actors.lookup actor).any fun old =>
      decide (durationSince now old.last < c.actorInterval.nanos)

/-- A call that is not allowed keeps the instant of the last one that was. -/
def lastCall (allowed : Bool) (actor : Nat) (now : Int) (s : Searches) : Int :=
  if allowed then now else ((s.actors.lookup actor).map SearchActor.last).getD now

/-- There is no place for an actor. -/
def full (actor : Nat) (s : Searches) : Bool :=
  decide (maxTransientQueries ≤ s.actors.size) && (s.actors.lookup actor).isNone

/-- What may be found for eviction: a finished or cancelled lookup with the earliest last call,
whichever comes first, or nothing where none is finished. -/
def Choice (s : Searches) : Option Nat → Prop
  | some victim => ∃ entry, s.actors.lookup victim = some entry ∧
      s.isCancelled entry.cancel = true ∧
      ∀ other entry', s.actors.lookup other = some entry' →
        s.isCancelled entry'.cancel = true → entry.last ≤ entry'.last
  | none => ∀ other entry, s.actors.lookup other = some entry →
      s.isCancelled entry.cancel = false

/-- The entry of a call that is let in. -/
def enter (c : InlineSearchConfig) (actor : Nat) (now : Int) (allowed : Bool) (last : Int)
    (s : Searches) : (QueryLifetime × Bool) × Searches :=
  ((⟨s.issued, now + c.timeout.nanos⟩, allowed),
    { s with
      actors := s.actors.insert actor ⟨last, s.issued⟩, issued := s.issued + 1
      count := if allowed then s.count + 1 else s.count })

/-- `begin`, with what is found for eviction. -/
def begin (c : InlineSearchConfig) (actor : Nat) (now : Int) (choice : Option Nat)
    (s : Searches) : Option (QueryLifetime × Bool) × Searches :=
  let s := { s.supersede actor with now }
  if s.stop then (none, s)
  else
    let s := s.renew now
    let allowed := s.allows c actor now
    let last := s.lastCall allowed actor now
    if s.full actor then
      match choice with
      | none => (none, s)
      | some victim =>
          let (result, s) :=
            { s with actors := s.actors.erase victim }.enter c actor now allowed last
          (some result, s)
    else
      let (result, s) := s.enter c actor now allowed last
      (some result, s)

/-- `spawn`: without a place among the tasks the lifetime is cancelled at once. -/
def spawn (lifetime : QueryLifetime) (s : Searches) : Searches :=
  if s.tasks.length < maxTransientQueries then { s with tasks := lifetime :: s.tasks }
  else s.cancel lifetime.cancel

/-- `new` -/
def new (stop : Bool) (now : Int) : Searches where
  actors := ∅
  window := now
  count := 0
  stop := stop
  cancelled := fun _ => false
  issued := 0
  tasks := []
  now := now

end Searches

/-! ## Runs -/

inductive SearchEvent where
  | begun (actor : Nat) (now : Int) (window : Int) (result : Option (QueryLifetime × Bool))
  | spawned (lifetime : QueryLifetime)
  /-- By its deadline, by its owner, or because nothing is left to do. -/
  | cancelled (token : Nat)
  /-- The task is over: its place is free and its lifetime is cancelled. -/
  | finished (lifetime : QueryLifetime)
  | stopped

inductive SearchStep (c : InlineSearchConfig) : Searches → SearchEvent → Searches → Prop
  | begun {s t : Searches} {actor : Nat} {now : Int} {choice : Option Nat}
      {result : Option (QueryLifetime × Bool)} (later : s.now ≤ now)
      (hchoice : (s.supersede actor).Choice choice)
      (hresult : s.begin c actor now choice = (result, t)) :
      SearchStep c s (.begun actor now t.window result) t
  | spawned {s : Searches} (lifetime : QueryLifetime) (hissued : lifetime.cancel < s.issued) :
      SearchStep c s (.spawned lifetime) (s.spawn lifetime)
  | cancelled {s : Searches} (token : Nat) (hissued : token < s.issued) :
      SearchStep c s (.cancelled token) (s.cancel token)
  | finished {s : Searches} (lifetime : QueryLifetime) (htask : lifetime ∈ s.tasks) :
      SearchStep c s (.finished lifetime)
        ({ s with tasks := s.tasks.erase lifetime }.cancel lifetime.cancel)
  | stopped {s : Searches} : SearchStep c s .stopped { s with stop := true }

/-! ## What one step does -/

namespace Searches

/-- The window of the limiter. -/
def toWindow (s : Searches) : Window := ⟨s.count, s.window + second⟩

variable {s : Searches}

theorem renew_toWindow {now : Int} (h : s.window ≤ now) :
    (s.renew now).toWindow = Window.current second (some s.toWindow) now := by
  by_cases hnew : second ≤ durationSince now s.window
  · have hclosed : ¬ now < s.toWindow.resetAt := by
      unfold durationSince second at hnew
      unfold toWindow second
      dsimp only
      omega
    rw [renew, if_pos hnew, Window.current, if_neg hclosed]
    rfl
  · have hopen : now < s.toWindow.resetAt := by
      unfold durationSince second at hnew
      unfold toWindow second
      dsimp only
      omega
    rw [renew, if_neg hnew, Window.current, if_pos hopen]

theorem isCancelled_cancel (s : Searches) (token other : Nat) :
    (s.cancel other).isCancelled token = (decide (token = other) || s.isCancelled token) := by
  show (s.stop || Function.update s.cancelled other true token) = _
  by_cases heq : token = other
  · subst heq
    rw [Function.update_self, Bool.or_true, decide_eq_true rfl, Bool.true_or]
  · rw [Function.update_of_ne heq, decide_eq_false heq, Bool.false_or]
    rfl

/-- What `begin` finds once it has superseded and renewed. -/
def prepared (actor : Nat) (now : Int) (s : Searches) : Searches :=
  { s.supersede actor with now }.renew now

theorem begin_of_stop {c : InlineSearchConfig} {actor : Nat} {now : Int} {choice : Option Nat}
    (h : (s.supersede actor).stop = true) :
    s.begin c actor now choice = (none, { s.supersede actor with now }) := by
  unfold begin
  exact if_pos h

theorem begin_of_running (c : InlineSearchConfig) {actor : Nat} (now : Int) (choice : Option Nat)
    (h : ¬ (s.supersede actor).stop = true) :
    s.begin c actor now choice =
      let r := s.prepared actor now
      let allowed := r.allows c actor now
      let last := r.lastCall allowed actor now
      if r.full actor then
        match choice with
        | none => (none, r)
        | some victim =>
            let entered := { r with actors := r.actors.erase victim }.enter c actor now allowed last
            (some entered.1, entered.2)
      else
        let entered := r.enter c actor now allowed last
        (some entered.1, entered.2) := by
  unfold begin
  exact if_neg h

theorem supersede_spec (actor : Nat) (s : Searches) :
    (s.supersede actor).actors = s.actors ∧ (s.supersede actor).window = s.window ∧
      (s.supersede actor).count = s.count ∧ (s.supersede actor).stop = s.stop ∧
      (s.supersede actor).issued = s.issued ∧
      (∀ token, s.isCancelled token = true → (s.supersede actor).isCancelled token = true) ∧
      ∀ old, s.actors.lookup actor = some old →
        (s.supersede actor).isCancelled old.cancel = true := by
  unfold supersede
  cases hold : s.actors.lookup actor with
  | none => exact ⟨rfl, rfl, rfl, rfl, rfl, fun _ h => h, fun _ h => (nomatch h)⟩
  | some previous =>
      refine ⟨rfl, rfl, rfl, rfl, rfl, fun token h => ?_, fun old h => ?_⟩
      · show (s.cancel previous.cancel).isCancelled token = true
        rw [isCancelled_cancel, h, Bool.or_true]
      · cases h
        show (s.cancel previous.cancel).isCancelled previous.cancel = true
        rw [isCancelled_cancel, decide_eq_true rfl, Bool.true_or]

theorem renew_spec (now : Int) (s : Searches) :
    (s.renew now).actors = s.actors ∧ (s.renew now).stop = s.stop ∧
      (s.renew now).cancelled = s.cancelled ∧ (s.renew now).issued = s.issued ∧
      (s.renew now).now = s.now ∧ (s.window ≤ now → (s.renew now).window ≤ now) := by
  unfold renew
  split
  · exact ⟨rfl, rfl, rfl, rfl, rfl, fun _ => Int.le_refl now⟩
  · exact ⟨rfl, rfl, rfl, rfl, rfl, id⟩

theorem prepared_spec (actor : Nat) {now : Int} (h : s.window ≤ now) :
    (s.prepared actor now).actors = s.actors ∧
      (s.prepared actor now).toWindow = Window.current second (some s.toWindow) now ∧
      (s.prepared actor now).window ≤ now ∧ (s.prepared actor now).issued = s.issued ∧
      (s.prepared actor now).now = now ∧
      ∀ token, (s.prepared actor now).isCancelled token =
        (s.supersede actor).isCancelled token := by
  obtain ⟨hactors, hwindow, hcount, -, hissued, -, -⟩ := supersede_spec actor s
  have hsame : ({ s.supersede actor with now := now } : Searches).toWindow = s.toWindow := by
    unfold toWindow
    rw [hwindow, hcount]
  obtain ⟨hr₁, hr₂, hr₃, hr₄, hr₅, hr₆⟩ := renew_spec now { s.supersede actor with now }
  refine ⟨hr₁.trans hactors, ?_, hr₆ (by rwa [hwindow]), hr₄.trans hissued, hr₅, fun token => ?_⟩
  · rw [prepared, renew_toWindow (by rwa [hwindow]), hsame]
  · unfold isCancelled prepared
    rw [hr₂, hr₃]

end Searches

/-- The table with a place for an actor: as it is, or without a finished entry of a full table. -/
inductive Room (s : Searches) (actor : Nat) : Dict Nat SearchActor → Prop
  | there (h : s.actors.size < maxTransientQueries ∨ (s.actors.lookup actor).isSome = true) :
      Room s actor s.actors
  | evicted {victim : Nat} {entry : SearchActor} (hfull : maxTransientQueries ≤ s.actors.size)
      (hnew : s.actors.lookup actor = none) (hentry : s.actors.lookup victim = some entry)
      (hover : s.isCancelled entry.cancel = true) : Room s actor (s.actors.erase victim)

namespace Room

variable {s : Searches} {actor : Nat} {actors : Dict Nat SearchActor}

variable {entry : SearchActor}

theorem lookup (h : Room s actor actors) {other : Nat} (he : actors.lookup other = some entry) :
    s.actors.lookup other = some entry := by
  cases h with
  | there => exact he
  | @evicted victim =>
      rw [Dict.lookup_erase_eq] at he
      by_cases heq : other = victim
      · rw [if_pos heq] at he
        cases he
      · rwa [if_neg heq] at he

/-- Who goes on keeps his place. -/
theorem lookup_of_going (h : Room s actor actors) {other : Nat}
    (he : s.actors.lookup other = some entry) (hgoes : s.isCancelled entry.cancel = false) :
    actors.lookup other = some entry := by
  cases h with
  | there => exact he
  | @evicted victim gone hfull hnew hentry hover =>
      rw [Dict.lookup_erase_eq, if_neg, he]
      rintro rfl
      obtain rfl := Option.some.inj (he.symm.trans hentry)
      rw [hover] at hgoes
      cases hgoes

theorem size (h : Room s actor actors) (hbounded : s.actors.size ≤ maxTransientQueries)
    (entry : SearchActor) : Dict.size (actors.insert actor entry) ≤ maxTransientQueries := by
  cases h with
  | there h =>
      rcases h with hlt | hthere
      · exact (Dict.size_insert_le actor entry s.actors).trans hlt
      · rwa [Dict.size_insert_of_mem hthere]
  | @evicted victim gone hfull hnew hentry hover =>
      have herase := Dict.size_erase_of_mem (d := s.actors) (k := victim) (by rw [hentry]; rfl)
      have hinsert := Dict.size_insert_le actor entry (s.actors.erase victim)
      omega

end Room

/-- What a step changes of the table, the window and the tokens. -/
inductive SearchChange (c : InlineSearchConfig) (s : Searches) : SearchEvent → Searches → Prop
  | quiet {e : SearchEvent} {t : Searches} (hactors : t.actors = s.actors)
      (hwindow : t.window = s.window) (hcount : t.count = s.count) (hissued : t.issued = s.issued)
      (hnow : t.now = s.now)
      (hcancel : ∀ token, s.isCancelled token = true → t.isCancelled token = true)
      (he : ∀ actor now window result, e ≠ .begun actor now window result) : SearchChange c s e t
  | refused {actor : Nat} {t : Searches} (later : s.now ≤ t.now) (hactors : t.actors = s.actors)
      (hwindow : t.toWindow = s.toWindow ∨
        t.toWindow = Window.current second (some s.toWindow) t.now)
      (hstart : t.window ≤ t.now) (hissued : t.issued = s.issued)
      (hcancel : ∀ token, s.isCancelled token = true → t.isCancelled token = true)
      (hprevious : ∀ old, s.actors.lookup actor = some old → t.isCancelled old.cancel = true) :
      SearchChange c s (.begun actor t.now t.window none) t
  | entered {actor : Nat} {t : Searches} {allowed : Bool} {last deadline : Int}
      {actors : Dict Nat SearchActor} (later : s.now ≤ t.now) (hroom : Room s actor actors)
      (hactors : t.actors = actors.insert actor ⟨last, s.issued⟩)
      (hallowed : allowed = true → last = t.now ∧ ∀ old, s.actors.lookup actor = some old →
        c.actorInterval.nanos ≤ durationSince t.now old.last)
      (hthrottled : allowed = false →
        last = ((s.actors.lookup actor).map SearchActor.last).getD t.now)
      (hwindow : t.toWindow = if allowed then
          (Window.current second (some s.toWindow) t.now).counted
        else Window.current second (some s.toWindow) t.now)
      (hplace : allowed = true →
        (Window.current second (some s.toWindow) t.now).count < c.requestsPerSecond)
      (hstart : t.window ≤ t.now) (hissued : t.issued = s.issued + 1)
      (hcancel : ∀ token, s.isCancelled token = true → t.isCancelled token = true)
      (hprevious : ∀ old, s.actors.lookup actor = some old → t.isCancelled old.cancel = true) :
      SearchChange c s (.begun actor t.now t.window (some (⟨s.issued, deadline⟩, allowed))) t

variable {es : List SearchEvent} {c : InlineSearchConfig} {s t : Searches} {e : SearchEvent}

variable {actors : Dict Nat SearchActor} {e' : SearchEvent}

/-- A call that is let in changes the table, the window and the tokens as `entered` says. -/
theorem entered_change {r : Searches} {actor : Nat} {now : Int} (later : s.now ≤ now)
    (hstart : s.window ≤ s.now) (hr : r = s.prepared actor now) (hroom : Room s actor actors) :
    SearchChange c s
      (.begun actor now r.window (some ({ r with actors }.enter c actor now (r.allows c actor now)
        (r.lastCall (r.allows c actor now) actor now)).1))
      ({ r with actors }.enter c actor now (r.allows c actor now)
        (r.lastCall (r.allows c actor now) actor now)).2 := by
  obtain ⟨hactors, hwindow, hbefore, hissued, hnow, hcancel⟩ :=
    Searches.prepared_spec actor (Int.le_trans hstart later)
  obtain ⟨-, -, -, -, -, hmono, hprevious⟩ := Searches.supersede_spec actor s
  rw [← hr] at hactors hwindow hbefore hissued hnow hcancel
  obtain rfl := hnow
  have hcount : (Window.current second (some s.toWindow) r.now).count = r.count := by
    rw [← hwindow]
    rfl
  generalize hallowed : r.allows c actor r.now = allowed
  have hlimits : allowed = true → r.count < c.requestsPerSecond ∧
      ∀ old, s.actors.lookup actor = some old →
        c.actorInterval.nanos ≤ durationSince r.now old.last := by
    intro htrue
    rw [htrue, Searches.allows, hactors, Bool.and_eq_true, decide_eq_true_eq,
      Bool.not_eq_true'] at hallowed
    refine ⟨hallowed.1, fun old hold => ?_⟩
    have hnot := hallowed.2
    rw [hold, Option.any_some, decide_eq_false_iff_not] at hnot
    exact Nat.le_of_not_lt hnot
  unfold Searches.enter
  rw [hissued]
  refine .entered (t := { r with
      actors := actors.insert actor ⟨r.lastCall allowed actor r.now, s.issued⟩
      issued := s.issued + 1, count := if allowed then r.count + 1 else r.count })
    later hroom rfl (fun htrue => ⟨?_, (hlimits htrue).2⟩) (fun hfalse => ?_) ?_
    (fun htrue => ?_) hbefore rfl (fun token h => ?_) (fun old h => ?_)
  · exact if_pos htrue
  · rw [Searches.lastCall, if_neg (by rw [hfalse]; exact Bool.false_ne_true), hactors]
  · rw [← hwindow]
    cases allowed <;> rfl
  · rw [hcount]
    exact Int.ofNat_lt.mpr (hlimits htrue).1
  · exact (hcancel token).trans (hmono token h)
  · exact (hcancel old.cancel).trans (hprevious old h)

/-- **Every step is one of these changes.** -/
theorem SearchStep.change (h : SearchStep c s e t) (hstart : s.window ≤ s.now) :
    SearchChange c s e t := by
  cases h with
  | spawned lifetime =>
      unfold Searches.spawn
      by_cases hplace : s.tasks.length < maxTransientQueries
      · rw [if_pos hplace]
        exact .quiet rfl rfl rfl rfl rfl (fun _ h => h) (fun _ _ _ _ => nofun)
      · rw [if_neg hplace]
        refine .quiet rfl rfl rfl rfl rfl (fun token h => ?_) (fun _ _ _ _ => nofun)
        rw [Searches.isCancelled_cancel, h, Bool.or_true]
  | cancelled token =>
      refine .quiet rfl rfl rfl rfl rfl (fun token h => ?_) (fun _ _ _ _ => nofun)
      rw [Searches.isCancelled_cancel, h, Bool.or_true]
  | finished lifetime htask =>
      refine .quiet rfl rfl rfl rfl rfl (fun token h => ?_) (fun _ _ _ _ => nofun)
      rw [Searches.isCancelled_cancel]
      exact Bool.or_eq_true_iff.mpr (.inr h)
  | stopped =>
      exact .quiet rfl rfl rfl rfl rfl (fun _ _ => rfl) (fun _ _ _ _ => nofun)
  | @begun _ actor now choice result later hchoice hresult =>
      have hbefore := Int.le_trans hstart later
      obtain ⟨hactors, hwindow, hcount, -, hissued, hmono, hprevious⟩ :=
        Searches.supersede_spec actor s
      by_cases hstop : (s.supersede actor).stop = true
      · rw [Searches.begin_of_stop hstop] at hresult
        cases hresult
        refine .refused (t := { s.supersede actor with now }) later hactors (.inl ?_)
          (by rwa [hwindow]) hissued hmono hprevious
        unfold Searches.toWindow
        rw [hwindow, hcount]
      · rw [Searches.begin_of_running _ _ _ hstop] at hresult
        obtain ⟨hactors', hwindow', hbefore', hissued', hnow', hcancel'⟩ :=
          Searches.prepared_spec actor hbefore
        generalize hr : s.prepared actor now = r at *
        by_cases hfull : r.full actor = true
        · obtain ⟨hsize, hnew⟩ := Bool.and_eq_true_iff.mp hfull
          rw [hactors', decide_eq_true_eq] at hsize
          rw [hactors', Option.isNone_iff_eq_none] at hnew
          have hsame : s.supersede actor = s := by
            unfold Searches.supersede
            rw [hnew]
          cases choice with
          | none =>
              have hresult : (none, r) = (result, t) := by
                rw [← hresult]
                exact (if_pos hfull).symm
              cases hresult
              obtain rfl := hnow'
              exact .refused later hactors' (.inr hwindow') hbefore' hissued'
                (fun token h => (hcancel' token).trans (hmono token h))
                fun old h => (hcancel' old.cancel).trans (hprevious old h)
          | some victim =>
              have hroom : Room s actor (r.actors.erase victim) := by
                obtain ⟨entry, hentry, hover, -⟩ := hchoice
                rw [hsame] at hentry hover
                rw [hactors']
                exact .evicted hsize hnew hentry hover
              have hentered := entered_change (c := c) later hstart hr.symm hroom
              have hresult : (_, _) = (result, t) := (if_pos hfull).symm.trans hresult
              cases hresult
              exact hentered
        · have hroom : Room s actor r.actors := by
            rw [Searches.full, hactors', Bool.and_eq_true, decide_eq_true_eq,
              Option.isNone_iff_eq_none, not_and] at hfull
            rw [hactors']
            refine .there ?_
            by_cases hsize : s.actors.size < maxTransientQueries
            · exact .inl hsize
            · exact .inr (Option.isSome_iff_ne_none.mpr (hfull (Nat.le_of_not_lt hsize)))
          have hentered := entered_change (c := c) later hstart hr.symm hroom
          have hresult : (_, _) = (result, t) := (if_neg hfull).symm.trans hresult
          cases hresult
          exact hentered

/-! ## What holds after every run -/

/-- A run of a new table. -/
def Searched (c : InlineSearchConfig) (es : List SearchEvent) (t : Searches) : Prop :=
  ∃ stop now, Run (SearchStep c) (.new stop now) es t

def SearchEvent.actor? : SearchEvent → Option Nat
  | .begun actor _ _ _ => some actor
  | _ => none

/-- The call was allowed in a rate window. -/
def SearchEvent.allowedIn (start : Int) : SearchEvent → Bool
  | .begun _ _ window (some (_, true)) => decide (window = start)
  | _ => false

/-- The call was allowed in the second from an instant on. -/
def SearchEvent.allowedWithin (x : Int) : SearchEvent → Bool
  | .begun _ now _ (some (_, true)) => decide (x ≤ now) && decide (now ≤ x + second)
  | _ => false

/-- The allowed calls, as the limiter counts them. -/
def accepted (c : InlineSearchConfig) (es : List SearchEvent) : List Window.Event :=
  es.filterMap fun e =>
    match e with
    | .begun _ now window (some (_, true)) => some ⟨now, c.requestsPerSecond, window + second⟩
    | _ => none

/-- The limiter knows the window and has counted in it. -/
structure Limited (c : InlineSearchConfig) (es : List Window.Event) (s : Searches) : Prop where
  started : s.window ≤ s.now
  counts : Window.Counts c.requestsPerSecond es (some s.toWindow)
  placed : Window.Placed second es s.toWindow

theorem second_pos : 0 < second := by decide

theorem Limited.step (h : Limited c (accepted c es) s) (hs : SearchChange c s e t) :
    Limited c (accepted c (es ++ [e])) t := by
  have hsnoc : accepted c (es ++ [e]) = accepted c es ++ accepted c [e] := List.filterMap_append
  have hrenewed := h.counts.renewed second_pos t.now
  have hplaced := h.placed.renewed second_pos t.now
  cases hs with
  | quiet hactors hwindow hcount hissued hnow hcancel he =>
      have hnone : accepted c [e] = [] := by
        cases e with
        | begun => exact absurd rfl (he _ _ _ _)
        | _ => rfl
      have hsame : t.toWindow = s.toWindow := by
        unfold Searches.toWindow
        rw [hwindow, hcount]
      rw [hsnoc, hnone, List.append_nil]
      refine ⟨?_, ?_, ?_⟩
      · rw [hwindow, hnow]
        exact h.started
      · rw [hsame]
        exact h.counts
      · rw [hsame]
        exact h.placed
  | refused later hactors hwindow hstart hissued hcancel hprevious =>
      rw [hsnoc, show accepted c [.begun _ t.now t.window none] = [] from rfl, List.append_nil]
      rcases hwindow with hsame | hnew
      · exact ⟨hstart, by rw [hsame]; exact h.counts, by rw [hsame]; exact h.placed⟩
      · exact ⟨hstart, hnew ▸ hrenewed, hnew ▸ hplaced⟩
  | @entered actor _ allowed last deadline actors later hroom hactors hallowed hthrottled hwindow
      hplace hstart hissued hcancel hprevious =>
      have hopen := Window.lt_current second_pos (some s.toWindow) t.now
      generalize Window.current second (some s.toWindow) t.now = v at *
      cases allowed with
      | false =>
          rw [hsnoc, show accepted c [.begun actor t.now t.window (some (_, false))] = [] from rfl,
            List.append_nil]
          exact ⟨hstart, hwindow ▸ hrenewed, hwindow ▸ hplaced⟩
      | true =>
          have hreset : t.window + second = v.resetAt := congrArg Window.resetAt hwindow
          have hone : accepted c [.begun actor t.now t.window (some (⟨s.issued, deadline⟩, true))] =
              [⟨t.now, c.requestsPerSecond, v.resetAt⟩] := by
            rw [← hreset]
            rfl
          rw [hsnoc, hone]
          refine ⟨hstart, ?_, ?_⟩
          · rw [hwindow]
            exact hrenewed.counted (hplace rfl) (Int.le_refl _)
          · rw [hwindow]
            exact hplaced.counted (by omega) hopen

/-- What the table knows of the calls: it has its bound, an entry is not older than an allowed call
of its actor, and a lifetime that goes on is the one in its entry. -/
structure Tabled (es : List SearchEvent) (s : Searches) : Prop where
  bounded : s.actors.size ≤ maxTransientQueries
  issued : ∀ actor entry, s.actors.lookup actor = some entry → entry.cancel < s.issued
  last : ∀ actor now window lifetime, .begun actor now window (some (lifetime, true)) ∈ es →
    now ≤ s.now ∧ ∀ entry, s.actors.lookup actor = some entry → now ≤ entry.last
  latest : ∀ pre post actor now window lifetime allowed,
    es = pre ++ .begun actor now window (some (lifetime, allowed)) :: post →
      lifetime.cancel < s.issued ∧ (s.isCancelled lifetime.cancel = false →
        (∀ e ∈ post, e.actor? ≠ some actor) ∧
          ∃ last, s.actors.lookup actor = some ⟨last, lifetime.cancel⟩)

theorem mem_snoc (h : e' ∈ es ++ [e]) (hne : e' ≠ e) : e' ∈ es := by
  rcases List.mem_append.mp h with h | h
  · exact h
  · exact absurd (List.mem_singleton.mp h) hne

/-- A place in a longer run is its end or a place before. -/
theorem snoc_split {pre post : List SearchEvent} (h : es ++ [e] = pre ++ e' :: post) :
    e' = e ∧ post = [] ∨ ∃ post', post = post' ++ [e] ∧ es = pre ++ e' :: post' := by
  rcases List.eq_nil_or_concat' post with rfl | ⟨post', last, rfl⟩
  · obtain ⟨-, heq⟩ := List.append_inj' h rfl
    exact .inl ⟨(List.cons.inj heq).1.symm, rfl⟩
  · rw [← List.cons_append, ← List.append_assoc] at h
    obtain ⟨hes, heq⟩ := List.append_inj' h rfl
    rw [← (List.cons.inj heq).1]
    exact .inr ⟨post', rfl, hes⟩

theorem Tabled.quiet (h : Tabled es s) (hactors : t.actors = s.actors)
    (hissued : t.issued = s.issued) (hnow : s.now ≤ t.now)
    (hcancel : ∀ token, s.isCancelled token = true → t.isCancelled token = true)
    (he : ∀ actor now window result, e ≠ .begun actor now window (some result))
    (hprevious : ∀ actor old, e.actor? = some actor → s.actors.lookup actor = some old →
      t.isCancelled old.cancel = true) : Tabled (es ++ [e]) t := by
  refine ⟨?_, ?_, ?_, ?_⟩
  · rw [hactors]
    exact h.bounded
  · rw [hactors, hissued]
    exact h.issued
  · intro actor now window lifetime hmem
    obtain ⟨hle, hlast⟩ := h.last actor now window lifetime (mem_snoc hmem (he _ _ _ _).symm)
    rw [hactors]
    exact ⟨Int.le_trans hle hnow, hlast⟩
  · intro pre post actor now window lifetime allowed hsplit
    rcases snoc_split hsplit with ⟨heq, -⟩ | ⟨post', rfl, hes⟩
    · exact absurd heq.symm (he _ _ _ _)
    · obtain ⟨hlt, hlatest⟩ := h.latest _ _ _ _ _ _ _ hes
      rw [hactors, hissued]
      refine ⟨hlt, fun hgoes => ?_⟩
      have hwent : s.isCancelled lifetime.cancel = false := by
        rw [← Bool.not_eq_true]
        intro hcancelled
        rw [hcancel _ hcancelled] at hgoes
        cases hgoes
      obtain ⟨hpost, last, hentry⟩ := hlatest hwent
      refine ⟨fun e' he' => ?_, last, hentry⟩
      rcases List.mem_append.mp he' with he' | he'
      · exact hpost e' he'
      · rw [List.mem_singleton.mp he']
        intro hactor
        rw [hprevious actor _ hactor hentry] at hgoes
        cases hgoes

theorem Tabled.entered {actor : Nat} {allowed : Bool} {last deadline : Int} (h : Tabled es s)
    (later : s.now ≤ t.now) (hroom : Room s actor actors)
    (hactors : t.actors = actors.insert actor ⟨last, s.issued⟩)
    (hallowed : allowed = true → last = t.now) (hthrottled : allowed = false →
      last = ((s.actors.lookup actor).map SearchActor.last).getD t.now)
    (hissued : t.issued = s.issued + 1)
    (hcancel : ∀ token, s.isCancelled token = true → t.isCancelled token = true)
    (hprevious : ∀ old, s.actors.lookup actor = some old → t.isCancelled old.cancel = true) :
    Tabled (es ++ [.begun actor t.now t.window (some (⟨s.issued, deadline⟩, allowed))]) t := by
  have hlookup : ∀ other, t.actors.lookup other =
      if other = actor then some ⟨last, s.issued⟩ else actors.lookup other := by
    intro other
    rw [hactors, Dict.lookup_insert_eq]
  refine ⟨?_, ?_, ?_, ?_⟩
  · rw [hactors]
    exact hroom.size h.bounded _
  · intro other entry hentry
    rw [hlookup] at hentry
    rw [hissued]
    by_cases heq : other = actor
    · rw [if_pos heq] at hentry
      cases hentry
      exact Nat.lt_succ_self _
    · rw [if_neg heq] at hentry
      exact Nat.lt_succ_of_lt (h.issued other entry (hroom.lookup hentry))
  · intro other now window lifetime hmem
    rcases List.mem_append.mp hmem with hmem | hmem
    · obtain ⟨hle, hlast⟩ := h.last other now window lifetime hmem
      refine ⟨Int.le_trans hle later, fun entry hentry => ?_⟩
      rw [hlookup] at hentry
      by_cases heq : other = actor
      · subst heq
        rw [if_pos rfl] at hentry
        cases hentry
        show now ≤ last
        cases allowed with
        | true =>
            rw [hallowed rfl]
            exact Int.le_trans hle later
        | false =>
            rw [hthrottled rfl]
            cases hold : s.actors.lookup other with
            | none => exact Int.le_trans hle later
            | some old => exact hlast old hold
      · rw [if_neg heq] at hentry
        exact hlast entry (hroom.lookup hentry)
    · cases List.mem_singleton.mp hmem
      refine ⟨Int.le_refl _, fun entry hentry => ?_⟩
      rw [hlookup, if_pos rfl] at hentry
      cases hentry
      exact Int.le_of_eq (hallowed rfl).symm
  · intro pre post other now window lifetime allowed' hsplit
    rcases snoc_split hsplit with ⟨heq, rfl⟩ | ⟨post', rfl, hes⟩
    · cases heq
      refine ⟨?_, fun _ => ⟨fun _ he => (nomatch he), last, ?_⟩⟩
      · rw [hissued]
        exact Nat.lt_succ_self _
      · rw [hlookup, if_pos rfl]
    -- a search that still goes was not of this actor: his previous one is cancelled
    · obtain ⟨hlt, hlatest⟩ := h.latest _ _ _ _ _ _ _ hes
      refine ⟨by rw [hissued]; exact Nat.lt_succ_of_lt hlt, fun hgoes => ?_⟩
      have hwent : s.isCancelled lifetime.cancel = false := by
        rw [← Bool.not_eq_true]
        intro hcancelled
        rw [hcancel _ hcancelled] at hgoes
        cases hgoes
      obtain ⟨hpost, last', hentry⟩ := hlatest hwent
      have hne : other ≠ actor := by
        rintro rfl
        rw [hprevious _ hentry] at hgoes
        cases hgoes
      refine ⟨fun e he => ?_, last', ?_⟩
      · rcases List.mem_append.mp he with he | he
        · exact hpost e he
        · rw [List.mem_singleton.mp he]
          exact fun heq => hne (Option.some.inj heq).symm
      · rw [hlookup, if_neg hne]
        exact hroom.lookup_of_going hentry hwent

/-- **Run lemma.** The limiter and the table keep what they know. -/
theorem Searched.kept (h : Searched c es t) : Limited c (accepted c es) t ∧ Tabled es t := by
  obtain ⟨stop, start, hrun⟩ := h
  induction hrun with
  | nil =>
      refine ⟨⟨Int.le_refl _, ?_, Window.Placed.nil _ _⟩, ?_⟩
      · exact .nil (Int.natCast_nonneg _) (by rintro _ ⟨⟩; exact Int.le_refl _)
      · exact ⟨Nat.zero_le _, fun _ _ h => (nomatch h), fun _ _ _ _ h => (nomatch h),
          fun pre _ _ _ _ _ _ h => absurd h.symm (List.append_ne_nil_of_right_ne_nil pre (by simp))⟩
  | @snoc es s t e _ hstep ih =>
      obtain ⟨hlimited, htabled⟩ := ih
      have hchange := hstep.change hlimited.started
      refine ⟨hlimited.step hchange, ?_⟩
      cases hchange with
      | quiet hactors hwindow hcount hissued hnow hcancel he =>
          refine htabled.quiet hactors hissued (Int.le_of_eq hnow.symm) hcancel
            (fun _ _ _ _ => he _ _ _ _) fun actor old hactor => ?_
          cases e with
          | begun => exact absurd rfl (he _ _ _ _)
          | _ => cases hactor
      | refused later hactors hwindow hstart hissued hcancel hprevious =>
          refine htabled.quiet hactors hissued later hcancel (fun _ _ _ _ => nofun)
            fun actor old hactor => ?_
          cases hactor
          exact hprevious old
      | entered later hroom hactors hallowed hthrottled hwindow hplace hstart hissued hcancel
          hprevious =>
          exact htabled.entered later hroom hactors (fun htrue => (hallowed htrue).1) hthrottled
            hissued hcancel hprevious

theorem countIn_accepted (c : InlineSearchConfig) (es : List SearchEvent) (start : Int) :
    Window.countIn (accepted c es) (start + second) = es.countP (·.allowedIn start) := by
  rw [Window.countIn, accepted, List.countP_filterMap]
  refine List.countP_congr fun e _ => ?_
  rcases e with ⟨_, _, window, _ | ⟨_, _ | _⟩⟩ | _ | _ | _ | _
  · exact Iff.rfl
  · exact Iff.rfl
  · show decide (window + second = start + second) = true ↔ decide (window = start) = true
    rw [decide_eq_true_eq, decide_eq_true_eq]
    omega
  all_goals exact Iff.rfl

theorem countWithin_accepted (c : InlineSearchConfig) (es : List SearchEvent) (x : Int) :
    Window.countWithin second (accepted c es) x = es.countP (·.allowedWithin x) := by
  rw [Window.countWithin, accepted, List.countP_filterMap]
  refine List.countP_congr fun e _ => ?_
  match e with
  | .begun _ _ _ (some (_, true)) | .begun _ _ _ (some (_, false)) | .begun _ _ _ none
  | .spawned _ | .cancelled _ | .finished _ | .stopped => exact Iff.rfl

/-- An entry leaves only a full table, and only when its lifetime is over. -/
theorem SearchChange.left (h : SearchChange c s e t) {actor : Nat} {entry : SearchActor}
    (hentry : s.actors.lookup actor = some entry) (hgone : t.actors.lookup actor = none) :
    maxTransientQueries ≤ s.actors.size ∧ s.isCancelled entry.cancel = true := by
  cases h with
  | quiet hactors | refused later hactors =>
      rw [hactors, hentry] at hgone
      cases hgone
  | entered later hroom hactors =>
      rw [hactors, Dict.lookup_insert_eq] at hgone
      split at hgone
      · cases hgone
      · cases hroom with
        | there =>
            rw [hentry] at hgone
            cases hgone
        | @evicted victim gone hfull hnew hvictim hover =>
            rw [Dict.lookup_erase_eq] at hgone
            split at hgone
            · rename_i heq
              subst heq
              obtain rfl := Option.some.inj (hentry.symm.trans hvictim)
              exact ⟨hfull, hover⟩
            · rw [hentry] at hgone
              cases hgone

/-- An allowed call of an actor whose entry is still there comes an interval after every allowed
call of his. -/
theorem Searched.apart (hvalid : c.valid = true) {u : Searches} (h : Searched c es t)
    {actor : Nat} {now window now' window' : Int} {lifetime lifetime' : QueryLifetime}
    (hfirst : .begun actor now window (some (lifetime, true)) ∈ es)
    (hstep : SearchStep c t (.begun actor now' window' (some (lifetime', true))) u)
    (hthere : (t.actors.lookup actor).isSome = true) : now + c.actorInterval.nanos ≤ now' := by
  obtain ⟨hlimited, htabled⟩ := h.kept
  obtain ⟨entry, hentry⟩ := Option.isSome_iff_exists.mp hthere
  have hlast := (htabled.last actor now window lifetime hfirst).2 entry hentry
  have hpositive : 1000000 ≤ c.actorInterval.nanos := by
    simp only [InlineSearchConfig.valid, DownloaderSettings.within, Bool.and_eq_true,
      decide_eq_true_eq] at hvalid
    exact hvalid.2.1
  generalize he : SearchEvent.begun actor now' window' (some (lifetime', true)) = e at hstep
  cases hstep.change hlimited.started with
  | quiet hactors hwindow hcount hissued hnow hcancel hquiet =>
      exact absurd he.symm (hquiet _ _ _ _)
  | refused => cases he
  | entered later hroom hactors hallowed =>
      cases he
      have hinterval := (hallowed rfl).2 entry hentry
      unfold durationSince at hinterval
      omega

/-- **Inline search admission keeps its limits.** After every run a lifetime that goes on is the one
of the latest call of its actor, allowed calls of an actor are an interval apart while its entry is
there, a rate window has no more allowed calls than the limit and a second no more than twice as
many, and the table has its bound. An entry leaves only a full table once its lifetime is over. -/
theorem searches_keep_limits (c : InlineSearchConfig) (hvalid : c.valid = true)
    {es : List SearchEvent} {t : Searches} (h : Searched c es t) :
    (∀ pre post actor now window lifetime allowed,
        es = pre ++ .begun actor now window (some (lifetime, allowed)) :: post →
        t.isCancelled lifetime.cancel = false → ∀ e ∈ post, e.actor? ≠ some actor) ∧
      (∀ actor now window lifetime now' window' lifetime' u,
        .begun actor now window (some (lifetime, true)) ∈ es →
        SearchStep c t (.begun actor now' window' (some (lifetime', true))) u →
        (t.actors.lookup actor).isSome = true → now + c.actorInterval.nanos ≤ now') ∧
      (∀ start, es.countP (·.allowedIn start) ≤ c.requestsPerSecond) ∧
      (∀ x, es.countP (·.allowedWithin x) ≤ 2 * c.requestsPerSecond) ∧
      t.actors.size ≤ maxTransientQueries ∧
      ∀ e u actor entry, SearchStep c t e u → t.actors.lookup actor = some entry →
        u.actors.lookup actor = none →
        maxTransientQueries ≤ t.actors.size ∧ t.isCancelled entry.cancel = true := by
  obtain ⟨hlimited, htabled⟩ := h.kept
  refine ⟨?_, ?_, fun start => ?_, fun x => ?_, htabled.bounded, ?_⟩
  · intro pre post actor now window lifetime allowed hes hgoes
    exact ((htabled.latest _ _ _ _ _ _ _ hes).2 hgoes).1
  · intro actor now window lifetime now' window' lifetime' u hfirst hstep hthere
    exact h.apart hvalid hfirst hstep hthere
  · have := hlimited.counts.bounded (start + second)
    rw [countIn_accepted] at this
    omega
  · have := hlimited.placed.countWithin_le hlimited.counts.bounded x
    rw [countWithin_accepted] at this
    omega
  · intro e u actor entry hstep hentry hgone
    exact (hstep.change hlimited.started).left hentry hgone

/-! ## An entry that is evicted -/

/-- A call of an actor whom the table does not know. -/
theorem begun_new (c : InlineSearchConfig) (actor : Nat) {now : Int} (choice : Option Nat)
    (later : s.now ≤ now) (hstop : s.stop = false) (hnew : s.actors.lookup actor = none)
    (hchoice : s.Choice choice) (hroom : s.actors.size < maxTransientQueries ∧ actors = s.actors ∨
      maxTransientQueries ≤ s.actors.size ∧
      ∃ victim, choice = some victim ∧ actors = s.actors.erase victim) :
    ∃ t, SearchStep c s (.begun actor now t.window (some (⟨s.issued, now + c.timeout.nanos⟩,
        decide ((s.renew now).count < c.requestsPerSecond)))) t ∧
      t.actors = actors.insert actor ⟨now, s.issued⟩ ∧ t.issued = s.issued + 1 ∧ t.stop = false ∧
      t.cancelled = s.cancelled ∧ t.now = now ∧ t.window = (s.renew now).window ∧
      t.count = if (s.renew now).count < c.requestsPerSecond then (s.renew now).count + 1
        else (s.renew now).count := by
  have hsame : s.supersede actor = s := by
    unfold Searches.supersede
    rw [hnew]
  have hprepared : s.prepared actor now = { s with now }.renew now := by
    unfold Searches.prepared
    rw [hsame]
  obtain ⟨hactors, hstop', hcancelled, hissued, hnow, -⟩ := Searches.renew_spec now { s with now }
  have hwindow : ({ s with now }.renew now).window = (s.renew now).window := by
    unfold Searches.renew
    split <;> rfl
  have hcount : ({ s with now }.renew now).count = (s.renew now).count := by
    unfold Searches.renew
    split <;> rfl
  rw [← hwindow, ← hcount]
  have hbegin := Searches.begin_of_running c now choice
    (show ¬ (s.supersede actor).stop = true by rw [hsame, hstop]; exact Bool.false_ne_true)
  rw [hprepared] at hbegin
  generalize { s with now }.renew now = r at *
  have hnone : r.actors.lookup actor = none := by rw [hactors]; exact hnew
  have hallows : r.allows c actor now = decide (r.count < c.requestsPerSecond) := by
    rw [Searches.allows, hnone, Option.any_none, Bool.not_false, Bool.and_true]
  have hlast : r.lastCall (r.allows c actor now) actor now = now := by
    unfold Searches.lastCall
    rw [hnone]
    split <;> rfl
  have hentered : s.begin c actor now choice =
      (some (({ r with actors }.enter c actor now (r.allows c actor now) now)).1,
        ({ r with actors }.enter c actor now (r.allows c actor now) now).2) := by
    rw [hbegin]
    rcases hroom with ⟨hplace, rfl⟩ | ⟨hfull, victim, rfl, rfl⟩
    · refine (if_neg ?_).trans ?_
      · rw [Searches.full, hactors, Bool.and_eq_true, decide_eq_true_eq]
        exact fun h => absurd h.1 (Nat.not_le_of_lt hplace)
      · rw [hlast, ← hactors]
    · refine (if_pos ?_).trans ?_
      · rw [Searches.full, hnone, hactors, Bool.and_eq_true, decide_eq_true_eq]
        exact ⟨hfull, rfl⟩
      · rw [hlast, ← hactors]
  rw [hallows] at hentered
  refine ⟨({ r with actors }.enter c actor now (decide (r.count < c.requestsPerSecond)) now).2,
    ?_, ?_⟩
  · have hstep := SearchStep.begun later (by rw [hsame]; exact hchoice) hentered
    unfold Searches.enter at hstep ⊢
    rw [hissued] at hstep ⊢
    exact hstep
  · refine ⟨?_, congrArg (· + 1) hissued, hstop'.trans hstop, hcancelled, hnow, rfl, ?_⟩
    · show actors.insert actor ⟨now, r.issued⟩ = _
      rw [hissued]
    · show (if decide _ = true then _ else _) = _
      simp only [decide_eq_true_eq]

/-- Many actors may ask in a second, and few of them are let in. -/
def crowdConfig : InlineSearchConfig := ⟨1, .ofSecs 1, 100, .ofSecs 10⟩

/-- The first actors have each begun a search at one instant. -/
structure Crowd (n : Nat) (es : List SearchEvent) (t : Searches) : Prop where
  searched : Searched crowdConfig es t
  stop : t.stop = false
  cancelled : t.cancelled = fun _ => false
  now : t.now = 0
  window : t.window = 0
  issued : t.issued = n
  size : t.actors.size = n
  lookup : ∀ a, t.actors.lookup a = if a < n then some ⟨0, a⟩ else none
  count : t.count = min n 100
  first : 0 < n → .begun 0 0 0 (some (⟨0, second⟩, true)) ∈ es

theorem renew_same {now : Int} (h : now < s.window + second) : s.renew now = s := by
  unfold Searches.renew durationSince
  rw [if_neg]
  unfold second at h ⊢
  omega

theorem crowd_gathers {n : Nat} (hn : n ≤ maxTransientQueries) : ∃ es t, Crowd n es t := by
  induction n with
  | zero =>
      exact ⟨[], .new false 0, ⟨false, 0, .nil⟩, rfl, rfl, rfl, rfl, rfl, rfl, fun _ => rfl, rfl,
        fun h => absurd h (Nat.lt_irrefl 0)⟩
  | succ n ih =>
      obtain ⟨es, t, h⟩ := ih (Nat.le_of_succ_le hn)
      have hnew : t.actors.lookup n = none := by
        rw [h.lookup, if_neg (Nat.lt_irrefl n)]
      have hchoice : t.Choice none := fun other entry _ => by
        show (t.stop || t.cancelled entry.cancel) = false
        rw [h.stop, h.cancelled]
        rfl
      have hplace : t.actors.size < maxTransientQueries := by
        rw [h.size]
        exact hn
      obtain ⟨u, hstep, hactors, hissued, hstop, hcancelled, hnow, hwindow, hcount⟩ :=
        begun_new crowdConfig n none (Int.le_of_eq h.now) h.stop hnew hchoice
          (.inl ⟨hplace, rfl⟩)
      have hsame : t.renew 0 = t := renew_same (by rw [h.window]; decide)
      rw [hsame] at hstep hwindow hcount
      obtain ⟨stop, start, hrun⟩ := h.searched
      refine ⟨_, u, ⟨stop, start, hrun.snoc hstep⟩, hstop, hcancelled.trans h.cancelled, hnow,
        hwindow.trans h.window, ?_, ?_, fun a => ?_, ?_, fun _ => ?_⟩
      · rw [hissued, h.issued]
      · rw [hactors, Dict.size_insert_of_new hnew, h.size]
      · rw [hactors, Dict.lookup_insert_eq, h.lookup, h.issued]
        by_cases ha : a = n
        · rw [if_pos ha, ha, if_pos (Nat.lt_succ_self n)]
        · rw [if_neg ha]
          by_cases hlt : a < n
          · rw [if_pos hlt, if_pos (Nat.lt_succ_of_lt hlt)]
          · rw [if_neg hlt, if_neg (by omega)]
      · rw [hcount, h.count, show crowdConfig.requestsPerSecond = 100 from rfl]
        split <;> omega
      · rcases Nat.eq_zero_or_pos n with rfl | hpos
        · refine List.mem_append.mpr (.inr (List.mem_singleton.mpr ?_))
          rw [hwindow, h.window, h.issued, h.count]
          rfl
        · exact List.mem_append.mpr (.inl (h.first hpos))

/-- The table is full and one lookup in it is over: its entry makes room. -/
theorem begun_full (c : InlineSearchConfig) (actor victim : Nat) {now : Int} {entry : SearchActor}
    (later : s.now ≤ now) (hstop : s.stop = false) (hfull : s.actors.size = maxTransientQueries)
    (hnew : s.actors.lookup actor = none) (hentry : s.actors.lookup victim = some entry)
    (hover : s.cancelled entry.cancel = true)
    (hrest : ∀ other entry', other ≠ victim → s.actors.lookup other = some entry' →
      s.cancelled entry'.cancel = false) :
    ∃ t, SearchStep c s (.begun actor now t.window (some (⟨s.issued, now + c.timeout.nanos⟩,
        decide ((s.renew now).count < c.requestsPerSecond)))) t ∧
      t.actors = (s.actors.erase victim).insert actor ⟨now, s.issued⟩ ∧ t.issued = s.issued + 1 ∧
      t.stop = false ∧ t.cancelled = s.cancelled ∧ t.now = now ∧
      t.window = (s.renew now).window ∧
      t.count = if (s.renew now).count < c.requestsPerSecond then (s.renew now).count + 1
        else (s.renew now).count := by
  refine begun_new c actor (some victim) later hstop hnew ⟨entry, hentry, ?_, ?_⟩
    (.inr ⟨Nat.le_of_eq hfull.symm, victim, rfl, rfl⟩)
  · rw [Searches.isCancelled, hover, Bool.or_true]
  · intro other entry' hother hcancelled
    by_cases heq : other = victim
    · rw [heq, hentry] at hother
      cases hother
      exact Int.le_refl _
    · rw [Searches.isCancelled, hstop, hrest other entry' heq hother] at hcancelled
      cases hcancelled

/-- A new actor has taken the place of the first one in the next second. -/
structure Replaced (u : Searches) : Prop where
  stop : u.stop = false
  cancelled : u.cancelled = Function.update (fun _ => false) 0 true
  now : u.now = second
  window : u.window = second
  count : u.count = 1
  issued : u.issued = maxTransientQueries + 1
  size : u.actors.size = maxTransientQueries
  lookup : ∀ other, u.actors.lookup other =
    if other = maxTransientQueries then some ⟨second, maxTransientQueries⟩
    else if other = 0 then none
    else if other < maxTransientQueries then some ⟨0, other⟩ else none

theorem first_replaced (h : Crowd maxTransientQueries es t) :
    ∃ window lifetime allowed u,
      SearchStep crowdConfig (t.cancel 0)
        (.begun maxTransientQueries second window (some (lifetime, allowed))) u ∧ Replaced u := by
  have hcancelled : (t.cancel 0).cancelled = Function.update (fun _ => false) 0 true :=
    congrArg (fun f : Nat → Bool => Function.update f 0 true) h.cancelled
  have hrenewed : (t.cancel 0).renew second = { t.cancel 0 with window := second, count := 0 } := by
    rw [Searches.renew, if_pos]
    show second ≤ durationSince second t.window
    rw [h.window]
    decide
  have hnew : (t.cancel 0).actors.lookup maxTransientQueries = none :=
    (h.lookup _).trans (if_neg (Nat.lt_irrefl _))
  have hvictim : (t.cancel 0).actors.lookup 0 = some ⟨0, 0⟩ :=
    (h.lookup 0).trans (if_pos (by decide))
  obtain ⟨u, hstep, hactors, hissued, hstop, hkept, hnow, hwindow, hcount⟩ :=
    begun_full crowdConfig (s := t.cancel 0) maxTransientQueries 0
      (show t.now ≤ second by rw [h.now]; decide) h.stop h.size hnew hvictim
      (by rw [hcancelled, Function.update_self]) (by
        intro other entry' hne hother
        rw [show (t.cancel 0).actors.lookup other = _ from h.lookup other] at hother
        split at hother
        · cases hother
          rw [hcancelled, Function.update_of_ne hne]
        · cases hother)
  rw [hrenewed] at hwindow hcount
  refine ⟨_, _, _, u, hstep, hstop, hkept.trans hcancelled, hnow, hwindow, hcount, ?_, ?_,
    fun other => ?_⟩
  · rw [hissued]
    exact congrArg (· + 1) h.issued
  · have herase := Dict.size_erase_of_mem (d := (t.cancel 0).actors) (k := 0)
      (by rw [hvictim]; rfl)
    rw [hactors, Dict.size_insert_of_new (by rw [Dict.lookup_erase_eq, if_neg (by decide), hnew]),
      herase]
    exact h.size
  · rw [hactors, Dict.lookup_insert_eq, Dict.lookup_erase_eq,
      show (t.cancel 0).issued = maxTransientQueries from h.issued,
      show (t.cancel 0).actors.lookup other = _ from h.lookup other]

/-- A crowd keeps the limits, and the entry that leaves its full table is of a lookup that is
over. -/
theorem searches_keep_limits_crowd :
    ∃ es t e u, Searched crowdConfig es t ∧ SearchStep crowdConfig t e u ∧
      t.actors.size = maxTransientQueries ∧ es.countP (·.allowedIn 0) ≤ 100 ∧
      (t.actors.lookup 0).isSome = true ∧ u.actors.lookup 0 = none ∧ t.isCancelled 0 = true := by
  obtain ⟨es, t, h⟩ := crowd_gathers (Nat.le_refl maxTransientQueries)
  obtain ⟨window, lifetime, allowed, u, hstep, hreplaced⟩ := first_replaced h
  obtain ⟨stop, start, hrun⟩ := h.searched
  have hcancel : SearchStep crowdConfig t (.cancelled 0) (t.cancel 0) :=
    .cancelled 0 (by rw [h.issued]; decide)
  have hsearched : Searched crowdConfig (es ++ [.cancelled 0]) (t.cancel 0) :=
    ⟨stop, start, hrun.snoc hcancel⟩
  have hentry : (t.cancel 0).actors.lookup 0 = some ⟨0, 0⟩ :=
    (h.lookup 0).trans (if_pos (by decide))
  have hgone : u.actors.lookup 0 = none := (hreplaced.lookup 0).trans (by decide)
  obtain ⟨-, -, hwindow, -, -, hleft⟩ := searches_keep_limits crowdConfig (by decide) hsearched
  exact ⟨_, _, _, u, hsearched, hstep, h.size, hwindow 0, by rw [hentry]; rfl, hgone,
    (hleft _ _ _ _ hstep hentry hgone).2⟩

/-- **An evicted actor is let in again at once.** A crowd fills the table, the lookup of its first
actor is over and gives its place away, another place is freed, and the first actor comes back. -/
theorem evicted_before_interval :
    ¬ ∀ (c : InlineSearchConfig) (es : List SearchEvent) (t : Searches),
      c.valid = true → Searched c es t →
      ∀ actor now window lifetime now' window' lifetime' u,
        .begun actor now window (some (lifetime, true)) ∈ es →
        SearchStep c t (.begun actor now' window' (some (lifetime', true))) u →
        now + c.actorInterval.nanos ≤ now' := by
  intro hclaim
  obtain ⟨es, t, h⟩ := crowd_gathers (Nat.le_refl maxTransientQueries)
  obtain ⟨stop, start, hrun⟩ := h.searched
  have hcancel₁ : SearchStep crowdConfig t (.cancelled 0) (t.cancel 0) :=
    .cancelled 0 (by rw [h.issued]; decide)
  obtain ⟨window, lifetime, allowed, u, hstep₁, hu⟩ := first_replaced h
  -- The lookup of actor 1 is over too: actor 0 comes back within the same second.
  have hcancel₂ : SearchStep crowdConfig u (.cancelled 1) (u.cancel 1) :=
    .cancelled 1 (by rw [hu.issued]; decide)
  have hcancelled : (u.cancel 1).cancelled =
      Function.update (Function.update (fun _ => false) 0 true) 1 true :=
    congrArg (fun f : Nat → Bool => Function.update f 1 true) hu.cancelled
  have hsame : (u.cancel 1).renew second = u.cancel 1 := renew_same (by
    show second < u.window + second
    rw [hu.window]
    exact Int.lt_add_of_pos_right second second_pos)
  obtain ⟨v, hstep₂, -⟩ :=
    begun_full crowdConfig (s := u.cancel 1) 0 1
      (Int.le_of_eq hu.now) hu.stop hu.size
      (by rw [show (u.cancel 1).actors.lookup 0 = _ from hu.lookup 0]; rfl)
      (by rw [show (u.cancel 1).actors.lookup 1 = _ from hu.lookup 1]; rfl)
      (by rw [hcancelled, Function.update_self]) (by
        intro other entry' hne hother
        rw [show (u.cancel 1).actors.lookup other = _ from hu.lookup other] at hother
        rw [hcancelled]
        split at hother
        · cases hother
          rfl
        · split at hother
          · cases hother
          · split at hother
            · rename_i hzero _
              cases hother
              rw [Function.update_of_ne hne, Function.update_of_ne hzero]
            · cases hother)
  rw [hsame, show (u.cancel 1).count = 1 by exact hu.count] at hstep₂
  have hwait := hclaim crowdConfig _ (u.cancel 1) (by decide)
    ⟨stop, start, ((hrun.snoc hcancel₁).snoc hstep₁).snoc hcancel₂⟩ 0 0 0 ⟨0, second⟩ second _ _ v
    (List.mem_append_left _ (List.mem_append_left _ (List.mem_append_left _ (h.first (by decide)))))
    hstep₂
  exact absurd hwait (by decide)

end YoinkCore.Telegram
