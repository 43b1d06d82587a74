import YoinkCore.Telegram.MembershipUpdate
import YoinkCore.Lib.Run

/-!
# Polling

Updates are fetched in batches. Every update of a batch is decoded and shown to the observers;
only then is the batch acknowledged, by the offset of the next fetch, and its updates are handed
on one by one.
-/

namespace YoinkCore.Telegram

open Lib

/-! ## Updates -/

/-- What is asked of the kind of an update. -/
inductive UpdateKind where
  | inlineQuery (isBot : Bool) (fromId : Nat) (queryId : String)
  | error
  | other
deriving DecidableEq

structure Update where
  id : Nat
  kind : UpdateKind
deriving DecidableEq

/-- `serde_json::from_slice` of an update -/
class UpdateReader where
  read : Json → Option Update

inductive PollingError where
  | transport
  | invalidResponse
  | invalidMembership
  | membershipCommit
  | productCommit
deriving DecidableEq

/-- An inline query that may be dispatched, or another update. -/
def validInline (u : Update) (value : Json) : Bool :=
  match u.kind with
  | .inlineQuery isBot fromId queryId =>
      !isBot && decide (0 < fromId) && decide (fromId ≤ 2 ^ 63 - 1) && queryId ≠ "" &&
        decide (Text.byteLen queryId.toList ≤ 256)
  | .error => (value.member? "inline_query").isNone
  | .other => true

/-! ## State -/

/-- Who observes: memberships, and every update. -/
structure PollingConfig where
  botId : Int
  observer : Bool
  updateObserver : Bool

structure RawPolling where
  offset : Int
  pending : List Update
  stopped : Bool
  failed : Bool

/-- `new` -/
def RawPolling.new : RawPolling := ⟨0, [], false, false⟩

/-! ## Batches -/

/-- An update as it was fetched, whether a stop is seen before it, and what the observers
answer to it. -/
structure Attempt where
  value : Json
  stop : Bool
  membership : Option PollingError
  product : Bool

/-- What an observer has committed. -/
inductive Commit where
  | membership (update : MembershipUpdate)
  | product (value : Json)

section

variable [UpdateReader]

/-- The membership that is observed in an update. -/
def observed (c : PollingConfig) (value : Json) : Option (Option MembershipUpdate) :=
  if c.observer then parseMembership value c.botId else some none

/-- One update is decoded and observed. -/
def observe (c : PollingConfig) (a : Attempt) : List Commit × Except PollingError Update :=
  match UpdateReader.read a.value with
  | none => ([], .error .invalidResponse)
  | some u =>
      match observed c a.value with
      | none => ([], .error .invalidMembership)
      | some m =>
          match (if m.isSome then a.membership else none) with
          | some e => ([], .error e)
          | none =>
              let commits := m.toList.map Commit.membership
              if c.updateObserver then
                if a.product then (commits ++ [.product a.value], .ok u)
                else (commits, .error .productCommit)
              else (commits, .ok u)

/-- How a batch ends. -/
inductive Ingested where
  | stopped
  | failed (e : PollingError)
  | decoded (updates : List Update) (nextOffset : Int)

/-- The updates of a batch, with those decoded before and the offset behind them. -/
def ingestFrom (c : PollingConfig) (decoded : List Update) (nextOffset : Int) :
    List Attempt → List Commit × Ingested
  | [] => ([], .decoded decoded nextOffset)
  | a :: rest =>
      if a.stop then ([], .stopped)
      else
        match observe c a with
        | (commits, .error e) => (commits, .failed e)
        | (commits, .ok u) =>
            let (more, ingested) := ingestFrom c
              (if validInline u a.value then decoded ++ [u] else decoded)
              (max nextOffset (u.id + 1)) rest
            (commits ++ more, ingested)

/-! ## The stream -/

/-- What happens around one turn of the loop: when a stop is asked for, and what is fetched. -/
structure Turn where
  stop : Bool
  stopFetching : Bool
  fetched : Except PollingError (List Attempt)
  stopIngesting : Bool

inductive Item where
  | update (u : Update)
  | error (e : PollingError)
  | ended
deriving DecidableEq

/-- What a turn hands on, the batch it has fetched, and what the observers committed. -/
structure Outcome where
  item : Option Item
  batch : Option (List Attempt)
  commits : List Commit

/-- `ingest` -/
def RawPolling.ingest (c : PollingConfig) (s : RawPolling) (batch : List Attempt)
    (stopIngesting : Bool) : RawPolling × Outcome :=
  match ingestFrom c [] s.offset batch with
  | (commits, .stopped) => ({ s with stopped := true }, ⟨none, some batch, commits⟩)
  | (commits, .failed e) =>
      ({ s with failed := true }, ⟨some (.error e), some batch, commits⟩)
  | (commits, .decoded updates nextOffset) =>
      if stopIngesting then ({ s with stopped := true }, ⟨none, some batch, commits⟩)
      else ({ s with offset := nextOffset, pending := updates }, ⟨none, some batch, commits⟩)

/-- One turn of the loop of `next` -/
def RawPolling.turn (c : PollingConfig) (s : RawPolling) (t : Turn) : RawPolling × Outcome :=
  let s := { s with stopped := s.stopped || t.stop }
  if s.failed || s.stopped then (s, ⟨some .ended, none, []⟩)
  else
    match s.pending with
    | u :: rest => ({ s with pending := rest }, ⟨some (.update u), none, []⟩)
    | [] =>
        if t.stopFetching then ({ s with stopped := true }, ⟨some .ended, none, []⟩)
        else
          match t.fetched with
          | .error e => ({ s with failed := true }, ⟨some (.error e), none, []⟩)
          | .ok batch => s.ingest c batch t.stopIngesting

/-! ## Runs -/

/-- The listener with what it has handed on, what it has fetched, and what was committed. -/
structure Polled where
  listener : RawPolling
  items : List Item
  batches : List (List Attempt)
  commits : List Commit

def Polled.start : Polled := ⟨.new, [], [], []⟩

def Polled.turn (c : PollingConfig) (p : Polled) (t : Turn) : Polled :=
  let (s, o) := p.listener.turn c t
  ⟨s, p.items ++ o.item.toList, p.batches ++ o.batch.toList, p.commits ++ o.commits⟩

theorem items_turn (c : PollingConfig) (p : Polled) (t : Turn) :
    (p.turn c t).items = p.items ++ (p.listener.turn c t).2.item.toList := rfl

/-- The updates that were handed on. -/
def Polled.yielded (p : Polled) : List Update :=
  p.items.filterMap fun
    | .update u => some u
    | _ => none

/-- A turn. What it fetches is not below the offset it asked for. -/
def PollStep (c : PollingConfig) (p : Polled) (t : Turn) (p' : Polled) : Prop :=
  (∀ batch, (p.listener.turn c t).2.batch = some batch → ∀ a ∈ batch, ∀ u,
    UpdateReader.read a.value = some u → p.listener.offset ≤ u.id) ∧ p' = p.turn c t

/-- The commits of all observers of an update. -/
def shown (c : PollingConfig) (a : Attempt) : List Commit :=
  (observed c a.value).join.toList.map .membership ++
    if c.updateObserver then [.product a.value] else []

/-- The update that is handed on for one that was fetched. -/
def dispatched (a : Attempt) : Option Update :=
  (UpdateReader.read a.value).filter (validInline · a.value)

/-! ## One batch -/

variable {c : PollingConfig} {s : RawPolling} {p : Polled} {a : Attempt} {t : Turn}

variable {batch post pre : List Attempt} {e : PollingError} {ts : List Turn}
  {commits : List Commit} {p' : Polled} {u : Update}

theorem observe_ok (h : observe c a = (commits, .ok u)) :
    UpdateReader.read a.value = some u ∧ commits = shown c a := by
  unfold observe at h
  split at h
  · cases h
  rename_i u' hread
  split at h
  · cases h
  rename_i m hm
  split at h
  · cases h
  dsimp only at h
  unfold shown
  split at h
  · rename_i hproduct
    split at h
    · cases h
      exact ⟨hread, by rw [hm, if_pos hproduct]; rfl⟩
    · cases h
  · rename_i hproduct
    cases h
    exact ⟨hread, by rw [hm, if_neg hproduct, List.append_nil]; rfl⟩

/-- **A batch that is decoded whole** was shown to every observer. -/
theorem ingestFrom_decoded :
    ∀ {decoded : List Update} {offset : Int} {commits : List Commit} {updates : List Update}
      {nextOffset : Int},
      ingestFrom c decoded offset batch = (commits, .decoded updates nextOffset) →
      commits = batch.flatMap (shown c) ∧ updates = decoded ++ batch.filterMap dispatched ∧
        offset ≤ nextOffset ∧ ∀ a ∈ batch, ∃ u, observe c a = (shown c a, .ok u) := by
  induction batch with
  | nil =>
      intro decoded offset commits updates nextOffset h
      cases h
      exact ⟨rfl, (List.append_nil _).symm, Int.le_refl _, nofun⟩
  | cons a rest ih =>
      intro decoded offset commits updates nextOffset h
      rw [ingestFrom] at h
      split at h
      · cases h
      split at h
      · cases h
      rename_i first u hobserve
      obtain ⟨hread, rfl⟩ := observe_ok hobserve
      cases hrest : ingestFrom c (if validInline u a.value then decoded ++ [u] else decoded)
          (max offset (u.id + 1)) rest with
      | mk more ingested =>
          rw [hrest] at h
          dsimp only at h
          cases h
          obtain ⟨rfl, rfl, hle, hall⟩ := ih hrest
          refine ⟨rfl, ?_, by omega, ?_⟩
          · have hd : dispatched a = if validInline u a.value then some u else none := by
              rw [dispatched, hread, Option.filter_some]
            rw [List.filterMap_cons, hd]
            by_cases hv : validInline u a.value = true
            · rw [if_pos hv, if_pos hv, List.append_assoc]
              rfl
            · rw [if_neg hv, if_neg hv]
          · rw [List.forall_mem_cons]
            exact ⟨⟨u, hobserve⟩, hall⟩

theorem ingestFrom_failed (hstop : a.stop = false) (hfail : (observe c a).2 = .error e) :
    ∀ {decoded : List Update} {offset : Int},
      (∀ b ∈ pre, b.stop = false ∧ ∃ u, (observe c b).2 = .ok u) →
      (ingestFrom c decoded offset (pre ++ a :: post)).2 = .failed e := by
  induction pre with
  | nil =>
      intro decoded offset _
      rw [List.nil_append, ingestFrom, if_neg (by simp [hstop])]
      cases ho : observe c a with
      | mk commits result =>
          rw [ho] at hfail
          dsimp only at hfail
          rw [hfail]
  | cons b pre ih =>
      intro decoded offset hpre
      rw [List.forall_mem_cons] at hpre
      obtain ⟨⟨hb, u, hu⟩, hpre⟩ := hpre
      rw [List.cons_append, ingestFrom, if_neg (by simp [hb])]
      cases ho : observe c b with
      | mk commits result =>
          rw [ho] at hu
          dsimp only at hu
          rw [hu]
          exact ih hpre

/-! ## One turn -/

/-- What a turn can do. -/
inductive TurnCase (c : PollingConfig) (s : RawPolling) (t : Turn) : RawPolling × Outcome → Prop
  | ended (s' : RawPolling) : s'.offset = s.offset → s'.pending = s.pending →
      s'.failed = s.failed → (s'.failed = true ∨ s'.stopped = true) →
        (s.stopped = true → s'.stopped = true) →
      TurnCase c s t (s', ⟨some .ended, none, []⟩)
  | update (u : Update) (rest : List Update) : s.failed = false → s.stopped = false →
      t.stop = false → s.pending = u :: rest →
      TurnCase c s t ({ s with pending := rest }, ⟨some (.update u), none, []⟩)
  | unfetched (e : PollingError) : s.failed = false → s.stopped = false → s.pending = [] →
      TurnCase c s t ({ s with failed := true }, ⟨some (.error e), none, []⟩)
  | ingested (batch : List Attempt) : s.failed = false → s.stopped = false → t.stop = false →
      s.pending = [] → TurnCase c s t (s.ingest c batch t.stopIngesting)

theorem turn_cases (c : PollingConfig) (s : RawPolling) (t : Turn) :
    TurnCase c s t (s.turn c t) := by
  unfold RawPolling.turn
  dsimp only
  split
  · rename_i h
    rw [Bool.or_eq_true] at h
    exact .ended _ rfl rfl rfl h fun hs => by rw [hs]; rfl
  rename_i h
  simp only [Bool.or_eq_true, not_or, Bool.not_eq_true] at h
  obtain ⟨hfailed, hstopped, hstop⟩ := h
  have hs : ({ s with stopped := s.stopped || t.stop } : RawPolling) = s := by
    rw [hstop, Bool.or_false]
  split
  · rename_i u rest hpending
    have := TurnCase.update (c := c) (t := t) u rest hfailed hstopped hstop hpending
    simpa [hstop, hstopped] using this
  rename_i hpending
  split
  · exact .ended _ rfl rfl rfl (.inr rfl) fun _ => rfl
  split
  · rename_i e he
    have := TurnCase.unfetched (c := c) (t := t) e hfailed hstopped hpending
    simpa [hstop, hstopped] using this
  · rename_i batch hbatch
    rw [hs]
    exact .ingested batch hfailed hstopped hstop hpending

/-- What a batch can do: it is acknowledged, or it leaves the offset and the queue. -/
inductive IngestCase (c : PollingConfig) (s : RawPolling) (batch : List Attempt) :
    RawPolling × Outcome → Prop
  | left (s' : RawPolling) (item : Option Item) (commits : List Commit) :
      s'.offset = s.offset → s'.pending = s.pending → (s'.failed = true ∨ s'.stopped = true) →
      IngestCase c s batch (s', ⟨item, some batch, commits⟩)
  | acknowledged (nextOffset : Int) : s.offset ≤ nextOffset →
      (∀ a ∈ batch, ∃ u, observe c a = (shown c a, .ok u)) →
      IngestCase c s batch ({ s with offset := nextOffset, pending := batch.filterMap dispatched },
        ⟨none, some batch, batch.flatMap (shown c)⟩)

theorem ingest_cases (c : PollingConfig) (s : RawPolling) (batch : List Attempt)
    (stopIngesting : Bool) : IngestCase c s batch (s.ingest c batch stopIngesting) := by
  unfold RawPolling.ingest
  split
  · exact .left _ _ _ rfl rfl (.inr rfl)
  · exact .left _ _ _ rfl rfl (.inl rfl)
  · rename_i commits updates nextOffset h
    split
    · exact .left _ _ _ rfl rfl (.inr rfl)
    · obtain ⟨rfl, rfl, hle, hall⟩ := ingestFrom_decoded h
      rw [List.nil_append]
      exact .acknowledged nextOffset hle hall

/-! ## Every run -/

/-- Every observer of every update of a batch has committed, one after the other. -/
def BatchCommitted (c : PollingConfig) (commits : List Commit) (batch : List Attempt) : Prop :=
  batch.flatMap (shown c) <:+: commits ∧ ∀ a ∈ batch, ∃ u, observe c a = (shown c a, .ok u)

theorem BatchCommitted.append (h : BatchCommitted c commits batch) (more : List Commit) :
    BatchCommitted c (commits ++ more) batch :=
  ⟨h.1.trans (List.prefix_append commits more).isInfix, h.2⟩

/-- The listener has ended. -/
def RawPolling.over (s : RawPolling) : Prop := s.failed = true ∨ s.stopped = true

/-- What holds after every run. -/
structure PollInv (c : PollingConfig) (p : Polled) : Prop where
  batches : ∀ batch ∈ p.batches, BatchCommitted c p.commits batch ∨
    p.listener.over ∧ ∀ a ∈ batch, ∀ u, UpdateReader.read a.value = some u →
      p.listener.offset ≤ u.id
  once : ¬ p.listener.over →
    p.yielded ++ p.listener.pending = p.batches.flatten.filterMap dispatched

theorem PollInv.committed (h : PollInv c p) (hover : ¬ p.listener.over) :
    ∀ batch ∈ p.batches, BatchCommitted c p.commits batch :=
  fun batch hb => (h.batches batch hb).resolve_right fun hn => hover hn.1

theorem pollInv_step (h : PollInv c p) (hstep : PollStep c p t p') : PollInv c p' := by
  obtain ⟨hoffset, rfl⟩ := hstep
  obtain ⟨s, items, batches, commits⟩ := p
  have hcase := turn_cases c s t
  unfold Polled.turn
  dsimp only at hoffset ⊢
  generalize hr : s.turn c t = r at hcase hoffset
  cases hcase with
  | ended s' ho hp hf hover hstop =>
      refine ⟨?_, fun hn => absurd hover hn⟩
      dsimp only
      rw [Option.toList_none, List.append_nil, List.append_nil]
      intro batch hb
      refine (h.batches batch hb).imp id fun ⟨_, hids⟩ => ⟨hover, ?_⟩
      rw [ho]
      exact hids
  | update u rest hf hstopped hstop hpending =>
      have hover : ¬ s.over := by simp [RawPolling.over, hf, hstopped]
      refine ⟨?_, fun _ => ?_⟩
      · dsimp only
        rw [Option.toList_none, List.append_nil, List.append_nil]
        exact fun batch hb => .inl (h.committed hover batch hb)
      · have honce := h.once hover
        dsimp only at honce ⊢
        rw [hpending] at honce
        simp only [Polled.yielded, List.filterMap_append, Option.toList_some, Option.toList_none,
          List.append_nil, List.filterMap_cons, List.filterMap_nil, List.append_assoc,
          List.singleton_append] at honce ⊢
        exact honce
  | unfetched e hf hstopped hpending =>
      have hover : ¬ s.over := by simp [RawPolling.over, hf, hstopped]
      refine ⟨?_, fun hn => absurd (.inl rfl) hn⟩
      dsimp only
      rw [Option.toList_none, List.append_nil, List.append_nil]
      exact fun batch hb => .inl (h.committed hover batch hb)
  | ingested batch hf hstopped hstop hpending =>
      have hover : ¬ s.over := by simp [RawPolling.over, hf, hstopped]
      have hcase := ingest_cases c s batch t.stopIngesting
      generalize hr' : s.ingest c batch t.stopIngesting = r' at hcase hoffset
      cases hcase with
      -- the batch is cut off: its offset is not committed, so it is polled again
      | left s' item more ho hp hend =>
          refine ⟨?_, fun hn => absurd hend hn⟩
          dsimp only
          intro b hb
          rcases List.mem_append.mp hb with hb | hb
          · exact .inl ((h.committed hover b hb).append more)
          · obtain rfl := List.mem_singleton.mp hb
            refine .inr ⟨hend, ?_⟩
            rw [ho]
            exact hoffset b rfl
      | acknowledged nextOffset hle hall =>
          refine ⟨?_, fun _ => ?_⟩
          · dsimp only
            intro b hb
            rcases List.mem_append.mp hb with hb | hb
            · exact .inl ((h.committed hover b hb).append _)
            · obtain rfl := List.mem_singleton.mp hb
              exact .inl ⟨(List.suffix_append commits _).isInfix, hall⟩
          · have honce := h.once hover
            dsimp only at honce ⊢
            rw [hpending, List.append_nil] at honce
            simp only [Polled.yielded, Option.toList_none, Option.toList_some, List.append_nil,
              List.flatten_append, List.filterMap_append, List.flatten_cons,
              List.flatten_nil] at honce ⊢
            rw [honce]

theorem pollInv_run (h : Run (PollStep c) .start ts p) : PollInv c p :=
  h.invariant (fun hp hstep => pollInv_step hp hstep) ⟨nofun, fun _ => rfl⟩

/-! ## The end -/

/-- After the end a turn only says so. -/
theorem turn_over (h : s.over) :
    (s.turn c t).1.over ∧ (s.turn c t).1.offset = s.offset ∧
      (s.turn c t).1.pending = s.pending ∧ (s.turn c t).2 = ⟨some .ended, none, []⟩ := by
  have hcase := turn_cases c s t
  generalize s.turn c t = r at hcase ⊢
  have hnot : ¬ (s.failed = false ∧ s.stopped = false) := by
    rintro ⟨hf, hs⟩
    rcases h with h | h
    · rw [hf] at h
      cases h
    · rw [hs] at h
      cases h
  cases hcase with
  | ended s' ho hp hf hover hstop => exact ⟨hover, ho, hp, rfl⟩
  | update u rest hf hs | unfetched e hf hs | ingested batch hf hs => exact absurd ⟨hf, hs⟩ hnot

theorem run_over (hover : p.listener.over) (h : Run (PollStep c) p ts p') :
    p'.listener.over ∧ p'.listener.offset = p.listener.offset ∧
      p'.listener.pending = p.listener.pending ∧
      p'.items = p.items ++ List.replicate ts.length .ended := by
  induction h with
  | nil => exact ⟨hover, rfl, rfl, by simp⟩
  | snoc _ hstep ih =>
      obtain ⟨hover, ho, hp, hitems⟩ := ih
      obtain ⟨-, rfl⟩ := hstep
      obtain ⟨hover', ho', hp', hout⟩ := turn_over (c := c) hover
      refine ⟨hover', ho'.trans ho, hp'.trans hp, ?_⟩
      rw [items_turn, hout, hitems, List.length_append, List.length_singleton, List.replicate_succ']
      simp

theorem offset_le_turn (c : PollingConfig) (s : RawPolling) (t : Turn) :
    s.offset ≤ (s.turn c t).1.offset := by
  have hcase := turn_cases c s t
  generalize s.turn c t = r at hcase ⊢
  cases hcase with
  | ended s' ho => exact Int.le_of_eq ho.symm
  | update u rest | unfetched e => exact Int.le_refl _
  | ingested batch =>
      have hcase := ingest_cases c s batch t.stopIngesting
      generalize s.ingest c batch t.stopIngesting = r' at hcase ⊢
      cases hcase with
      | left s' item more ho => exact Int.le_of_eq ho.symm
      | acknowledged nextOffset hle => exact hle

/-- A batch with an update that fails leaves the offset and the queue. -/
theorem turn_of_failing (hbatch : (s.turn c t).2.batch = some batch) (ha : a ∈ batch)
    (hfail : (observe c a).2 = .error e) :
    (s.turn c t).1.over ∧ (s.turn c t).1.offset = s.offset ∧
      (s.turn c t).1.pending = s.pending := by
  have hcase := turn_cases c s t
  generalize s.turn c t = r at hcase hbatch ⊢
  cases hcase with
  | ended s' | update u rest | unfetched e => cases hbatch
  | ingested b =>
      have hcase := ingest_cases c s b t.stopIngesting
      generalize s.ingest c b t.stopIngesting = r' at hcase hbatch ⊢
      cases hcase with
      | left s' item more ho hp hend => exact ⟨hend, ho, hp⟩
      | acknowledged nextOffset hle hall =>
          cases hbatch
          obtain ⟨u, hu⟩ := hall a ha
          rw [hu] at hfail
          cases hfail

/-- The first failure of a batch, before which no stop is seen, is what the turn hands on. -/
theorem turn_error (hbatch : (s.turn c t).2.batch = some (pre ++ a :: post))
    (hpre : ∀ b ∈ pre, b.stop = false ∧ ∃ u, (observe c b).2 = .ok u) (hstop : a.stop = false)
    (hfail : (observe c a).2 = .error e) : (s.turn c t).2.item = some (.error e) := by
  have hcase := turn_cases c s t
  generalize s.turn c t = r at hcase hbatch ⊢
  cases hcase with
  | ended s' | update u rest | unfetched e => cases hbatch
  | ingested b =>
      have hb : (s.ingest c b t.stopIngesting).2.batch = some b := by
        have hcase := ingest_cases c s b t.stopIngesting
        generalize s.ingest c b t.stopIngesting = r' at hcase ⊢
        cases hcase with
        | left s' item more => rfl
        | acknowledged nextOffset => rfl
      obtain rfl := Option.some.inj (hb.symm.trans hbatch)
      have hfailed : (ingestFrom c [] s.offset (pre ++ a :: post)).2 = .failed e :=
        ingestFrom_failed hstop hfail hpre
      unfold RawPolling.ingest
      split
      · rename_i h
        rw [h] at hfailed
        cases hfailed
      · rename_i h
        rw [h] at hfailed
        cases hfailed
        rfl
      · rename_i h
        rw [h] at hfailed
        cases hfailed

theorem turn_pending {rest : List Update} (hover : ¬ s.over) (hstop : t.stop = false)
    (hpending : s.pending = u :: rest) :
    s.turn c t = ({ s with pending := rest }, ⟨some (.update u), none, []⟩) := by
  simp only [RawPolling.over, not_or, Bool.not_eq_true] at hover
  obtain ⟨hf, hs⟩ := hover
  simp [RawPolling.turn, hf, hs, hstop, hpending]

/-- As many turns as are pending, and no stop, hand on what is pending. -/
theorem yielded_pending (h : Run (PollStep c) p ts p') (hover : ¬ p.listener.over)
    (hlen : ts.length ≤ p.listener.pending.length) (hstops : ∀ t ∈ ts, t.stop = false) :
    ¬ p'.listener.over ∧ p'.yielded ++ p'.listener.pending = p.yielded ++ p.listener.pending ∧
      p'.listener.pending.length + ts.length = p.listener.pending.length := by
  induction h with
  | nil => exact ⟨hover, rfl, rfl⟩
  | @snoc ts q q' t _ hstep ih =>
      rw [List.length_append, List.length_singleton] at hlen
      obtain ⟨hq, hyielded, hcount⟩ :=
        ih (by omega) fun t ht => hstops t (List.mem_append_left _ ht)
      obtain ⟨-, rfl⟩ := hstep
      have hstop := hstops t (List.mem_append_right _ List.mem_cons_self)
      cases hpending : q.listener.pending with
      | nil =>
          rw [hpending, List.length_nil] at hcount
          omega
      | cons u rest =>
          have hturn := turn_pending (c := c) hq hstop hpending
          rw [hpending] at hyielded hcount
          have hitems := items_turn c q t
          have hlistener : (q.turn c t).listener = { q.listener with pending := rest } := by
            show (q.listener.turn c t).1 = _
            rw [hturn]
          rw [hturn] at hitems
          refine ⟨by rw [hlistener]; exact hq, ?_, ?_⟩
          · rw [← hyielded, hlistener, Polled.yielded, hitems, List.filterMap_append]
            simp [Polled.yielded]
          · rw [hlistener, List.length_append, List.length_singleton]
            rw [List.length_cons] at hcount
            show rest.length + _ = _
            omega

/-- **Polling loses and duplicates nothing.** -/
theorem polling (c : PollingConfig) (ts : List Turn) (p : Polled)
    (h : Run (PollStep c) .start ts p) :
    -- the offset never decreases, and passes only what was committed with its batch
    (∀ t, p.listener.offset ≤ (p.turn c t).listener.offset) ∧
      (∀ batch ∈ p.batches, ∀ a ∈ batch, ∀ u, UpdateReader.read a.value = some u →
        (u.id : Int) < p.listener.offset → BatchCommitted c p.commits batch) ∧
      -- a batch that fails leaves the offset and the queue, and ends the stream
      (∀ t batch a e, (p.listener.turn c t).2.batch = some batch → a ∈ batch →
        (observe c a).2 = .error e → ∀ ts' p', Run (PollStep c) (p.turn c t) ts' p' →
          p'.listener.offset = p.listener.offset ∧ p'.listener.pending = p.listener.pending ∧
            p'.items = (p.turn c t).items ++ List.replicate ts'.length .ended) ∧
      (∀ t pre a post e, (p.listener.turn c t).2.batch = some (pre ++ a :: post) →
        (∀ b ∈ pre, b.stop = false ∧ ∃ u, (observe c b).2 = .ok u) → a.stop = false →
        (observe c a).2 = .error e → (p.turn c t).items = p.items ++ [.error e]) ∧
      -- as long as it is not over, everything is handed on once, in its order
      (¬ p.listener.over →
        p.yielded ++ p.listener.pending = p.batches.flatten.filterMap dispatched ∧
        ∀ ts' p', Run (PollStep c) p ts' p' → ts'.length = p.listener.pending.length →
          (∀ t ∈ ts', t.stop = false) →
            p'.yielded = p.batches.flatten.filterMap dispatched) := by
  have hinv := pollInv_run h
  refine ⟨fun t => offset_le_turn c p.listener t, ?_, ?_, ?_, ?_⟩
  · intro batch hb a ha u hread hlt
    rcases hinv.batches batch hb with hc | ⟨-, hids⟩
    · exact hc
    · exact absurd (hids a ha u hread) (by omega)
  · intro t batch a e hbatch ha hfail ts' p' hrun
    obtain ⟨hover, ho, hp⟩ := turn_of_failing hbatch ha hfail
    obtain ⟨-, ho', hp', hitems⟩ := run_over (p := p.turn c t) hover hrun
    exact ⟨ho'.trans ho, hp'.trans hp, hitems⟩
  · intro t pre a post e hbatch hpre hstop hfail
    rw [items_turn, turn_error hbatch hpre hstop hfail]
    rfl
  · intro hover
    refine ⟨hinv.once hover, fun ts' p' hrun hlen hstops => ?_⟩
    obtain ⟨-, hyielded, hcount⟩ := yielded_pending hrun hover (by omega) hstops
    have hnil : p'.listener.pending = [] := List.eq_nil_of_length_eq_zero (by omega)
    rw [hnil, List.append_nil, hinv.once hover] at hyielded
    exact hyielded

end

section

@[reducible] def idReader : UpdateReader :=
  ⟨fun value => ((value.member? "update_id").bind (Json.asNat (2 ^ 32 - 1))).map (⟨·, .other⟩)⟩

attribute [local instance] idReader

def bothObservers : PollingConfig := ⟨7, true, true⟩

def updateOne : Json := .obj [("update_id", .int 1)]

def updateTwo : Json := .obj [("update_id", .int 2)]

/-- Two updates are fetched. -/
def fetchTwo : Turn :=
  ⟨false, false, .ok [⟨updateOne, false, none, true⟩, ⟨updateTwo, false, none, true⟩], false⟩

def nothingNew : Turn := ⟨false, false, .ok [], false⟩

theorem two_updates_polled :
    (((Polled.start.turn bothObservers fetchTwo).turn bothObservers nothingNew).turn bothObservers
      nothingNew).yielded = [⟨1, .other⟩, ⟨2, .other⟩] := by
  have hfetch : Run (PollStep bothObservers) .start [fetchTwo]
      (Polled.start.turn bothObservers fetchTwo) := by
    refine Run.single ⟨?_, rfl⟩
    intro batch _ a _ u _
    show (0 : Int) ≤ u.id
    omega
  obtain ⟨-, -, -, -, honce⟩ := polling bothObservers [fetchTwo] _ hfetch
  obtain ⟨-, hlater⟩ := honce (by rintro (h | h) <;> cases h)
  have hquiet : Run (PollStep bothObservers) (Polled.start.turn bothObservers fetchTwo)
      [nothingNew, nothingNew]
      (((Polled.start.turn bothObservers fetchTwo).turn bothObservers nothingNew).turn bothObservers
        nothingNew) :=
    (Run.single ⟨fun _ h => (by cases h), rfl⟩).snoc ⟨fun _ h => (by cases h), rfl⟩
  exact hlater _ _ hquiet rfl (by decide)

end

end YoinkCore.Telegram
