import YoinkCore.Inbox.Jobs

/-!
# Workers

Any number of workers claim jobs and bring back results, some of them late. The rows of the
queue are leases: what a worker brings back releases the lease of its claim, or changes
nothing.
-/

namespace YoinkCore.Inbox

open Lib Leasing
open Storage (Uuid)

/-! ## Jobs as leases -/

def JobRecord.phase (j : JobRecord) : Phase String :=
  match j.state with
  | .ready => .waiting j.availableAt
  | .running => .held (j.leaseToken.getD "") (j.leaseUntil.getD 0)
  | .done | .failed => .over

def JobRecord.entry (j : JobRecord) : Leasing.Entry Int String := ⟨j.id, j.attempts, j.phase⟩

abbrev JobEvent := Event Int String

def InboxDb.leases (db : InboxDb) (log : List JobEvent) : Leases Int String :=
  ⟨db.jobs.rows.map JobRecord.entry, db.lastJob, log⟩

theorem jobs_keyed : Table.Keyed jobSchema JobRecord.id := by
  intro a b h
  simp [jobSchema, h]

variable {db db' : InboxDb} {j : JobRecord}

/-- A job is running with a token and a bound. -/
theorem JobRecord.running (hj : j ∈ db.jobs.rows) (hstate : j.state = .running) :
    ∃ token bound, j.leaseToken = some token ∧ j.leaseUntil = some bound ∧
      j.phase = .held token bound := by
  have hcheck := db.jobs.checked j hj
  simp only [jobSchema, JobRecord.checks, List.all_cons, hstate, Bool.and_eq_true] at hcheck
  obtain ⟨-, -, huntil, htoken, -⟩ := hcheck
  obtain ⟨token, ht⟩ := Option.isSome_iff_exists.mp (by simpa using htoken)
  obtain ⟨bound, hb⟩ := Option.isSome_iff_exists.mp (by simpa using huntil)
  exact ⟨token, bound, ht, hb, by simp [JobRecord.phase, hstate, ht, hb]⟩

/-! ## Statements beside the queue -/

/-- A job waits from the time it is available. -/
def JobRecord.added (j : JobRecord) : JobEvent := .added j.id j.availableAt

/-- The jobs that a transaction put behind those there were. -/
def enqueued (db db' : InboxDb) : List JobEvent :=
  (db'.jobs.rows.drop db.jobs.rows.length).map JobRecord.added

theorem enqueued_eq_nil (h : db'.jobs.rows.length ≤ db.jobs.rows.length) :
    enqueued db db' = [] := by
  rw [enqueued, List.drop_eq_nil_of_le h]
  rfl

theorem enqueued_append {rows : List JobRecord} (h : db'.jobs.rows = db.jobs.rows ++ rows) :
    enqueued db db' = rows.map JobRecord.added := by
  rw [enqueued, h, List.drop_left]

/-- Jobs may have been added, and nothing happened to those there were. -/
structure Queued (db db' : InboxDb) : Prop where
  rows : db.jobs.rows <+: db'.jobs.rows
  steps : ∀ log,
    Relation.ReflTransGen Leases.Step (db.leases log) (db'.leases (log ++ enqueued db db'))

def Aside {α : Type} (x : InboxStmt α) : Prop :=
  ∀ db₀, Tx.Preserves (Queued db₀) x

theorem Queued.trans {a b c : InboxDb} (h : Queued a b) (h' : Queued b c) : Queued a c := by
  refine ⟨h.rows.trans h'.rows, fun log => ?_⟩
  obtain ⟨rows, hrows⟩ := h.rows
  obtain ⟨rows', hrows'⟩ := h'.rows
  have hboth : c.jobs.rows = a.jobs.rows ++ (rows ++ rows') := by
    rw [← hrows', ← hrows, List.append_assoc]
  have hsteps := (h.steps log).trans (h'.steps _)
  rwa [enqueued_append hrows.symm, enqueued_append hrows'.symm, List.append_assoc,
    ← List.map_append, ← enqueued_append hboth] at hsteps

/-- The rows of the queue stand where they stood. -/
def SameJobs (db db' : InboxDb) : Prop := db'.jobs = db.jobs ∧ db'.lastJob = db.lastJob

theorem SameJobs.enqueued (h : SameJobs db db') : enqueued db db' = [] :=
  enqueued_eq_nil (by rw [h.1])

theorem SameJobs.leases (h : SameJobs db db') (log : List JobEvent) :
    db'.leases log = db.leases log := by
  unfold InboxDb.leases
  rw [h.1, h.2]

theorem SameJobs.queued (h : SameJobs db db') : Queued db db' := by
  refine ⟨?_, fun log => ?_⟩
  · rw [h.1]
  · rw [h.enqueued, List.append_nil, h.leases]

theorem Queued.refl (db : InboxDb) : Queued db db := SameJobs.queued ⟨rfl, rfl⟩

namespace Aside

variable {α β : Type} {x : InboxStmt α}

theorem of_queued (h : ∀ db a db', x db = .ok (a, db') → Queued db db') : Aside x := by
  intro db₀ db a db' hdb hx
  exact hdb.trans (h db a db' hx)

theorem of_same (h : ∀ db a db', x db = .ok (a, db') → SameJobs db db') : Aside x :=
  of_queued fun db a db' hx => (h db a db' hx).queued

theorem pure {a : α} : Aside (Pure.pure a : InboxStmt α) := fun _ => .pure

theorem get : Aside (MonadState.get : InboxStmt InboxDb) :=
  of_same fun _ _ _ h => by
    obtain ⟨-, rfl⟩ := Tx.get_eq_ok.mp h
    exact ⟨rfl, rfl⟩

theorem orElseFail {e : Error} {value : Option α} : Aside (orElseFail e value) :=
  fun _ => .ofExcept

theorem bind {f : α → InboxStmt β} (hx : Aside x) (hf : ∀ a, Aside (f a)) : Aside (x >>= f) :=
  fun db₀ => (hx db₀).bind fun a => hf a db₀

theorem forM {f : β → InboxStmt Unit} (hf : ∀ b, Aside (f b)) (l : List β) :
    Aside (l.forM f) :=
  fun db₀ => .forM (fun b => hf b db₀) l

end Aside

section

variable {ρ : Type} {S : Schema ρ} {T : TableIn InboxDb Error S}

/-- The table is not that of the queue. -/
def Beside (T : TableIn InboxDb Error S) : Prop := ∀ db table, SameJobs db (T.write db table)

theorem Beside.update_same (hT : Beside T) {p : ρ → Bool} {f : ρ → ρ} {n : Nat}
    (h : T.update p f db = .ok (n, db')) : SameJobs db db' := by
  obtain ⟨-, table, -, rfl⟩ := TableIn.update_eq_ok.mp h
  exact hT db table

theorem Beside.delete_same (hT : Beside T) {p : ρ → Bool} {n : Nat}
    (h : T.delete p db = .ok (n, db')) : SameJobs db db' := by
  obtain ⟨-, rfl⟩ := TableIn.delete_eq_ok.mp h
  exact hT db _

theorem Beside.update (hT : Beside T) (p : ρ → Bool) (f : ρ → ρ) : Aside (T.update p f) :=
  .of_same fun _ _ _ h => hT.update_same h

theorem Beside.upsert (hT : Beside T) (same : ρ → Bool) (f : ρ → ρ) (row : ρ) :
    Aside (T.upsert same f row) :=
  .of_same fun db _ _ h => by
    obtain ⟨table, rfl⟩ := TableIn.upsert_writes h
    exact hT db table

end

theorem items_beside : Beside InboxDb.itemTable.toTableIn := fun _ _ => ⟨rfl, rfl⟩

theorem itemCategories_beside : Beside InboxDb.itemCategoryTable := fun _ _ => ⟨rfl, rfl⟩

theorem itemStars_beside : Beside InboxDb.itemStarTable := fun _ _ => ⟨rfl, rfl⟩

theorem syncStates_beside : Beside InboxDb.syncStateTable := fun _ _ => ⟨rfl, rfl⟩

/-- A new job waits; nobody took it. -/
theorem enqueue_aside (user : Int) (item : Option Int) (kind : JobKind) (now : Int) :
    Aside (enqueue user item kind now) := by
  refine .of_queued fun db u db' h => ?_
  obtain ⟨_, _, hinsert, hpure⟩ := Tx.bind_eq_ok.mp h
  obtain ⟨-, rfl⟩ := Tx.pure_eq_ok.mp hpure
  obtain ⟨-, ⟨-, -, rfl⟩ | ⟨-, -, table, hrows, rfl⟩⟩ :=
    Serial.insertNextIgnoring_eq_ok.mp hinsert
  · exact .refl _
  refine ⟨⟨_, hrows.symm⟩, fun log => .single ?_⟩
  rw [enqueued_append hrows]
  have hlast : db.lastJob < InboxDb.jobTable.next db :=
    Int.lt_add_one_of_le (le_foldl_max _ _).1
  have hadded := Leases.Step.added (s := db.leases log)
    ⟨InboxDb.jobTable.next db, 0, .waiting now⟩ now hlast rfl rfl
  have heq : InboxDb.leases (InboxDb.jobTable.setLast (InboxDb.jobTable.write db table)
      (InboxDb.jobTable.next db)) (log ++ [.added (InboxDb.jobTable.next db) now]) =
        ⟨(db.leases log).entries ++ [⟨InboxDb.jobTable.next db, 0, .waiting now⟩],
          InboxDb.jobTable.next db, log ++ [.added (InboxDb.jobTable.next db) now]⟩ := by
    show Leases.mk (table.rows.map JobRecord.entry) _ _ = _
    rw [hrows, List.map_append]
    rfl
  exact heq ▸ hadded

theorem recordFailure_aside (c : Claim) (now : Int) (status : String) (retryAt : Option Int) :
    Aside (recordFailure c now status retryAt) := by
  unfold recordFailure putSyncState
  split
  · exact syncStates_beside.upsert _ _ _
  · exact (items_beside.update _ _).bind fun _ => .pure
  · split
    · exact (items_beside.update _ _).bind fun _ => .pure
    · exact .pure
  · exact .pure

/-! ## What happens to a job -/

/-- A check that did not fail. -/
theorem check_eq_ok {α : Type} {b : Prop} [Decidable b] {e : Error} {k : PUnit → InboxStmt α}
    {a : α} :
    (if b then throw e >>= k else k ⟨⟩) db = .ok (a, db') ↔ ¬ b ∧ k ⟨⟩ db = .ok (a, db') := by
  rw [Tx.ite_apply_state]
  split
  · simp [*]
  · simp [*]

/-- The job goes into the state that the event leaves behind. -/
structure JobRecord.Turns (ev : JobEvent) (j j' : JobRecord) : Prop where
  id : j'.id = j.id
  attempts : j'.attempts = j.attempts + ev.counted
  phase : j'.phase = ev.phase

variable {f : JobRecord → JobRecord} {p : JobRecord → Bool} {log : List JobEvent} {ev : JobEvent}

theorem JobRecord.Turns.entry {j' : JobRecord} (h : j.Turns ev j') (hid : ev.item = j.id) :
    j'.entry = ev.leave j.entry := by
  rw [Event.leave_own hid.symm, JobRecord.entry, h.id, h.attempts, h.phase]
  rfl

/-- The rows that a statement changes are the job of the event. -/
theorem update_happens {n : Nat} (h : InboxDb.jobTable.update p f db = .ok (n, db'))
    (hj : j ∈ db.jobs.rows) (hid : ev.item = j.id) (hp : p j = true)
    (hother : ∀ r, p r = true → r.id = j.id) (hf : j.Turns ev (f j))
    (may : ev.May (db.leases log) j.entry) :
    Leases.Step (db.leases log) (db'.leases (log ++ [ev])) := by
  obtain ⟨-, table, hrows, rfl⟩ := TableIn.update_eq_ok.mp h
  have hentries : table.rows.map JobRecord.entry =
      (db.jobs.rows.map JobRecord.entry).map ev.leave := by
    rw [hrows, List.map_map, List.map_map]
    refine List.map_congr_left fun r hr => ?_
    simp only [Function.comp_apply]
    by_cases heq : r.id = j.id
    · obtain rfl := db.jobs.eq_of_clash hr hj (jobs_keyed _ _ heq) (jobs_keyed _ _ heq.symm)
      rw [if_pos hp, hf.entry hid]
    · rw [if_neg fun hpr => heq (hother r hpr), Event.leave,
        if_neg fun hitem => heq (hitem.trans hid)]
  have hstep := Leases.Step.happened (s := db.leases log) ev j.entry
    (List.mem_map_of_mem hj) hid may
  have heq : InboxDb.leases (InboxDb.jobTable.write db table) (log ++ [ev]) =
      { db.leases log with
        entries := (db.leases log).entries.map ev.leave, log := (db.leases log).log ++ [ev] } := by
    show Leases.mk (table.rows.map JobRecord.entry) _ _ = _
    rw [hentries]
    rfl
  exact heq ▸ hstep

/-- A job that is due is free. -/
theorem JobRecord.due_free {now : Int} (hj : j ∈ db.jobs.rows) (hdue : j.due now = true) :
    j.phase.freeAt now := by
  simp only [JobRecord.due, Bool.or_eq_true, Bool.and_eq_true, decide_eq_true_eq] at hdue
  rcases hdue with ⟨hstate, havailable⟩ | ⟨hstate, hbound⟩
  · simp only [JobRecord.phase, hstate]
    exact havailable
  · obtain ⟨token, bound, -, hb, hphase⟩ := JobRecord.running hj hstate
    rw [hphase]
    simpa [hb, Phase.freeAt] using hbound

/-- A claim finds nothing, or it takes a job. -/
theorem claim_cases {now lease : Int} {token : String} {given : Option Claim}
    (h : claim now lease token db = .ok (given, db'))
    (hfresh : ∀ ev ∈ log, ev.takes token = false) :
    given = none ∧ db' = db ∨ ∃ c, given = some c ∧
      db'.jobs.rows.length = db.jobs.rows.length ∧
      Leases.Step (db.leases log) (db'.leases (log ++ [.taken c.id token now (now + lease)])) := by
  unfold claim at h
  obtain ⟨-, h⟩ := check_eq_ok.mp h
  obtain ⟨_, _, hget, h⟩ := Tx.bind_eq_ok.mp h
  obtain ⟨rfl, rfl⟩ := Tx.get_eq_ok.mp hget
  cases hfind : db.jobs.rows.find? (·.due now) with
  | none =>
      rw [hfind] at h
      obtain ⟨rfl, rfl⟩ := Tx.pure_eq_ok.mp h
      exact .inl ⟨rfl, rfl⟩
  | some j =>
      rw [hfind] at h
      obtain ⟨n, _, hupdate, hpure⟩ := Tx.bind_eq_ok.mp h
      obtain ⟨rfl, rfl⟩ := Tx.pure_eq_ok.mp hpure
      have hj := List.mem_of_find?_eq_some hfind
      have hstep : Leases.Step (db.leases log)
          (InboxDb.leases _ (log ++ [.taken j.id token now (now + lease)])) := update_happens
        hupdate hj rfl (decide_eq_true rfl) (fun r hr => of_decide_eq_true hr) ⟨rfl, rfl, rfl⟩
        ⟨JobRecord.due_free hj (List.find?_some hfind), hfresh⟩
      obtain ⟨-, table, hrows, rfl⟩ := TableIn.update_eq_ok.mp hupdate
      exact .inr ⟨_, rfl, (congrArg List.length hrows).trans (List.length_map _), hstep⟩

/-! ## Results of a claim -/

theorem JobRecord.heldBy_spec {c : Claim} {now : Int} (hj : j ∈ db.jobs.rows)
    (h : j.heldBy c now = true) :
    j.id = c.id ∧ j.leaseToken = some c.leaseToken ∧
      ∃ bound, j.phase = .held c.leaseToken bound ∧ now < bound := by
  simp only [JobRecord.heldBy, Bool.and_eq_true, decide_eq_true_eq] at h
  obtain ⟨⟨⟨hid, hstate⟩, htoken⟩, hbound⟩ := h
  obtain ⟨token, bound, ht, hb, hphase⟩ := JobRecord.running hj hstate
  obtain rfl := Option.some.inj (ht.symm.trans htoken)
  exact ⟨hid, ht, bound, hphase, by simpa [hb] using hbound⟩

/-- The job of the claim is released, and the others stay as they are. -/
structure Turned (c : Claim) (now : Int) (how : Release) (db db' : InboxDb) : Prop where
  rows : ∃ f : JobRecord → JobRecord,
    db'.jobs.rows = db.jobs.rows.map f ∧ ∀ j, j.id ≠ c.id → f j = j
  step : ∀ log, Leases.Step (db.leases log)
    (db'.leases (log ++ [.released c.id c.leaseToken now how]))

/-- The statement ends with the release of the claim's job. -/
def Releases (c : Claim) (now : Int) (how : Release) (x : InboxStmt Unit) : Prop :=
  ∀ db u db', (∃ j ∈ db.jobs.rows, j.heldBy c now = true) → x db = .ok (u, db') →
    ∃ db₁, Queued db db₁ ∧ Turned c now how db₁ db'

section

variable {c : Claim} {now : Int} {how : Release}

/-- What was enqueued before a release is there after it. -/
theorem Turned.enqueued {db₁ : InboxDb} (h : Turned c now how db₁ db') (hqueued : Queued db db₁)
    (hjob : ∃ j ∈ db.jobs.rows, j.id = c.id) : enqueued db db' = enqueued db db₁ := by
  obtain ⟨f, hrows, hother⟩ := h.rows
  obtain ⟨rows, happend⟩ := hqueued.rows
  obtain ⟨j, hj, hid⟩ := hjob
  have hunique := happend ▸ db₁.jobs.unique
  have hkept : rows.map f = rows := by
    refine (List.map_congr_left fun r hr => hother r fun hrid => ?_).trans (List.map_id _)
    have hclash := (List.pairwise_append.mp hunique).2.2 j hj r hr
    rw [jobs_keyed j r (hid.trans hrid.symm)] at hclash
    cases hclash
  rw [enqueued_append happend.symm, Inbox.enqueued, hrows, ← happend, List.map_append, hkept,
    List.drop_left' (List.length_map _)]

theorem Aside.releases {α : Type} {x : InboxStmt α} {f : α → InboxStmt Unit} (hx : Aside x)
    (hf : ∀ a, Releases c now how (f a)) : Releases c now how (x >>= f) := by
  rintro db u db' ⟨j, hj, hheld⟩ h
  obtain ⟨a, db₁, hx₁, hf₁⟩ := Tx.bind_eq_ok.mp h
  have hqueued := hx db db a db₁ (.refl db) hx₁
  obtain ⟨db₂, hqueued', hturned⟩ := hf a db₁ u db' ⟨j, hqueued.rows.subset hj, hheld⟩ hf₁
  exact ⟨db₂, hqueued.trans hqueued', hturned⟩

/-- The row under the claim goes into the state of the release. -/
theorem releases_update (hp : ∀ j, j.heldBy c now = true → p j = true)
    (hid : ∀ j, p j = true → j.id = c.id)
    (hf : ∀ j : JobRecord, j.Turns (.released c.id c.leaseToken now how) (f j)) :
    Releases c now how (do let _ ← InboxDb.jobTable.update p f) := by
  rintro db u db' ⟨j, hj, hheld⟩ h
  obtain ⟨n, _, hupdate, hpure⟩ := Tx.bind_eq_ok.mp h
  obtain ⟨-, rfl⟩ := Tx.pure_eq_ok.mp hpure
  obtain ⟨hj', -, bound, hphase, hlive⟩ := JobRecord.heldBy_spec hj hheld
  refine ⟨db, .refl db, ?_, fun log => update_happens hupdate hj hj'.symm (hp j hheld)
    (fun r hr => (hid r hr).trans hj'.symm) (hf j) ⟨bound, hphase, hlive⟩⟩
  obtain ⟨-, table, hrows, rfl⟩ := TableIn.update_eq_ok.mp hupdate
  exact ⟨_, hrows, fun r hr => if_neg fun hpr => hr (hid r hpr)⟩

theorem JobRecord.under_of_heldBy (h : j.heldBy c now = true) : j.under c = true := by
  simp only [JobRecord.heldBy, Bool.and_eq_true] at h
  simp only [JobRecord.under, Bool.and_eq_true]
  exact ⟨h.1.1.1, h.1.2⟩

theorem JobRecord.id_of_under (h : j.under c = true) : j.id = c.id := by
  simp only [JobRecord.under, Bool.and_eq_true, decide_eq_true_eq] at h
  exact h.1

theorem releases_done : Releases c now .over (done c) :=
  releases_update (fun _ => JobRecord.under_of_heldBy) (fun _ => JobRecord.id_of_under)
    fun _ => ⟨rfl, (Int.add_zero _).symm, rfl⟩

variable {body : InboxStmt Unit}

theorem whileLive_eq_ok {b : Bool} (h : whileLive c now body db = .ok (b, db')) :
    b = false ∧ db' = db ∨
      b = true ∧ (∃ j ∈ db.jobs.rows, j.heldBy c now = true) ∧ body db = .ok ((), db') := by
  obtain ⟨alive, _, hlive, h⟩ := Tx.bind_eq_ok.mp h
  obtain ⟨_, _, hget, hpure⟩ := Tx.bind_eq_ok.mp hlive
  obtain ⟨rfl, rfl⟩ := Tx.get_eq_ok.mp hget
  obtain ⟨halive, rfl⟩ := Tx.pure_eq_ok.mp hpure
  cases alive with
  | false =>
      obtain ⟨rfl, rfl⟩ := Tx.pure_eq_ok.mp h
      exact .inl ⟨rfl, rfl⟩
  | true =>
      obtain ⟨_, _, hbody, h⟩ := Tx.bind_eq_ok.mp h
      obtain ⟨rfl, rfl⟩ := Tx.pure_eq_ok.mp h
      obtain ⟨j, hj, hheld⟩ := List.any_eq_true.mp halive
      simp only [Bool.and_eq_true] at hheld
      exact .inr ⟨rfl, ⟨j, hj, hheld.1.1⟩, hbody⟩

/-- A call changes nothing, or it releases the job that its claim holds. -/
def Fenced (c : Claim) (now : Int) (how : Release) (x : InboxStmt Bool) : Prop :=
  ∀ db b db', x db = .ok (b, db') → b = false ∧ db' = db ∨
    b = true ∧ (∃ j ∈ db.jobs.rows, j.heldBy c now = true) ∧
      ∃ db₁, Queued db db₁ ∧ Turned c now how db₁ db'

theorem Releases.fenced (h : Releases c now how body) :
    Fenced c now how (whileLive c now body) := by
  intro db b db' hx
  rcases whileLive_eq_ok hx with hstale | ⟨rfl, hheld, hbody⟩
  · exact .inl hstale
  · exact .inr ⟨rfl, hheld, h db () db' hheld hbody⟩

theorem finish_fenced (retryAt : Option Int) :
    Fenced c now (retryAt.elim .over (.again true)) (finish c now retryAt) := by
  intro db b db' h
  obtain ⟨n, _, hupdate, hpure⟩ := Tx.bind_eq_ok.mp h
  obtain ⟨rfl, rfl⟩ := Tx.pure_eq_ok.mp hpure
  by_cases hheld : ∃ j ∈ db.jobs.rows, j.heldBy c now = true
  · have hone : n = 1 := by
      obtain ⟨j, hj, hj'⟩ := hheld
      have hkey (r : JobRecord) (hr : r.heldBy c now = true) : r.id = c.id :=
        JobRecord.id_of_under (JobRecord.under_of_heldBy hr)
      have hcount := Table.countP_of_key (T := db.jobs) jobs_keyed hkey
      rw [(Table.find_eq_some jobs_keyed).mpr ⟨hj, hkey j hj'⟩, Option.any_some, hj',
        if_pos rfl] at hcount
      exact (TableIn.update_eq_ok.mp hupdate).1.trans hcount
    refine .inr ⟨decide_eq_true hone, hheld, ?_⟩
    refine releases_update (fun _ hj => hj)
      (fun _ hj => JobRecord.id_of_under (JobRecord.under_of_heldBy hj)) (fun j => ?_)
      db () _ hheld (Tx.bind_eq_ok.mpr ⟨n, _, hupdate, rfl⟩)
    cases retryAt <;> exact ⟨rfl, (Int.add_zero _).symm, rfl⟩
  · have hnone : ∀ j ∈ db.jobs.rows, j.heldBy c now = false := fun j hj => by
      simpa using fun hj' => hheld ⟨j, hj, hj'⟩
    obtain ⟨hn, table, hrows, rfl⟩ := TableIn.update_eq_ok.mp hupdate
    refine .inl ⟨?_, ?_⟩
    · rw [hn, List.countP_eq_zero.mpr fun j hj => by simp [hnone j hj]]
      rfl
    · have hsame : table = db.jobs := by
        ext1
        rw [hrows]
        exact (List.map_congr_left fun j hj => by simp [hnone j hj]).trans (List.map_id _)
      rw [hsame]
      rfl

theorem failJob_fenced (status : String) (retryAt : Option Int) :
    Fenced c now (retryAt.elim .over (.again (status != "cancelled")))
      (failJob c now status retryAt) := by
  intro db b db' h
  unfold failJob at h
  obtain ⟨-, h⟩ := check_eq_ok.mp h
  obtain ⟨hlater, h⟩ := check_eq_ok.mp h
  refine Releases.fenced ?_ db b db' h
  by_cases hcancelled : status = "cancelled"
  · subst hcancelled
    rw [if_pos rfl]
    cases retryAt with
    | none => simp at hlater
    | some at' =>
        exact releases_update (fun _ hj => hj)
          (fun _ hj => JobRecord.id_of_under (JobRecord.under_of_heldBy hj))
          fun _ => ⟨rfl, Int.sub_eq_add_neg, rfl⟩
  · rw [if_neg hcancelled]
    have hcounts : (status != "cancelled") = true := bne_iff_ne.mpr hcancelled
    rw [hcounts]
    refine (recordFailure_aside c now status retryAt).releases fun _ => ?_
    refine releases_update (fun _ => JobRecord.under_of_heldBy) (fun _ => JobRecord.id_of_under)
      fun j => ?_
    cases retryAt <;> exact ⟨rfl, (Int.add_zero _).symm, rfl⟩

theorem applyResult_fenced {store : InboxStmt Unit} (hstore : Aside store) :
    Fenced c now .over (applyResult c now store) :=
  Releases.fenced (hstore.releases fun _ => releases_done)

end

theorem storeContent_aside (c : Claim) (content : Content) (now : Int) :
    Aside (storeContent c content now) := by
  refine Aside.orElseFail.bind fun _ => (items_beside.update _ _).bind fun _ =>
    Aside.get.bind fun _ => (Aside.forM (fun _ => itemStars_beside.upsert _ _ _) _).bind fun _ => ?_
  split
  · exact enqueue_aside _ _ _ _
  · exact .pure

/-! ## Runs -/

/-- What a worker brings back. Whatever else is applied is stored beside the queue. -/
inductive JobCall where
  | finish (retryAt : Option Int)
  | failJob (status : String) (retryAt : Option Int)
  | applyContent (content : Content)
  | applyResult (store : InboxStmt Unit) (beside : Aside store)

/-- What becomes of the job. -/
def JobCall.release : JobCall → Release
  | .finish retryAt => retryAt.elim .over (.again true)
  | .failJob status retryAt => retryAt.elim .over (.again (status != "cancelled"))
  | _ => .over

/-- A transaction of the inbox. What the others do, they do beside the queue. -/
inductive JobAct where
  | enqueueJob (user : Int) (item : Option Int) (kind : JobKind) (now : Int)
  | claim (now lease : Int) (token : String)
  | call (c : Claim) (call : JobCall) (now : Int)
  | archive (user id : Int) (hard : Bool) (now : Int)
  | other (stmt : InboxStmt Unit) (beside : Aside stmt)

def JobAct.token : JobAct → Option String
  | .claim _ _ token => some token
  | _ => none

structure JobsState where
  db : InboxDb
  log : List JobEvent

def JobCall.on (c : Claim) (now : Int) : JobCall → InboxStmt Bool
  | .finish retryAt => Inbox.finish c now retryAt
  | .failJob status retryAt => Inbox.failJob c now status retryAt
  | .applyContent content => Inbox.applyContent c content now
  | .applyResult store _ => Inbox.applyResult c now store

/-- The jobs there are wait, as if they were just enqueued. -/
def JobsState.start (db : InboxDb) : JobsState := ⟨db, db.jobs.rows.map JobRecord.added⟩

/-- The log tells what was enqueued, and then what else happened. -/
def JobsState.goOn (s : JobsState) (db : InboxDb) (events : List JobEvent) : JobsState :=
  ⟨db, s.log ++ enqueued s.db db ++ events⟩

/-- What was claimed, and which results were accepted. -/
def JobAct.perform (s : JobsState) : JobAct → JobsState
  | .enqueueJob user item kind now =>
      s.goOn (Tx.auto (Inbox.enqueueJob user item kind now) s.db).2 []
  | .claim now lease token =>
      match Tx.auto (Inbox.claim now lease token) s.db with
      | (.ok (some c), db) => s.goOn db [.taken c.id token now (now + lease)]
      | (_, db) => s.goOn db []
  | .call c result now =>
      match Tx.auto (result.on c now) s.db with
      | (.ok true, db) => s.goOn db [.released c.id c.leaseToken now result.release]
      | (_, db) => s.goOn db []
  | .archive user id hard now => s.goOn (Tx.auto (Inbox.archive user id hard now) s.db).2 []
  | .other stmt _ => s.goOn (Tx.auto stmt s.db).2 []

theorem JobCall.fenced (call : JobCall) (c : Claim) (now : Int) :
    Fenced c now call.release (call.on c now) := by
  cases call with
  | finish retryAt => exact finish_fenced retryAt
  | failJob status retryAt => exact failJob_fenced status retryAt
  | applyContent content => exact applyResult_fenced (storeContent_aside c content now)
  | applyResult store beside => exact applyResult_fenced beside

theorem Aside.auto {α : Type} {x : InboxStmt α} (h : Aside x) (db : InboxDb) :
    Queued db (Tx.auto x db).2 := by
  rcases Tx.auto_cases x db with ⟨e, he⟩ | ⟨a, db', hx, hauto⟩
  · rw [he]
    exact .refl db
  · rw [hauto]
    exact h db db a db' (.refl db) hx

/-- Jobs of an item that is deleted are deleted. -/
theorem archive_cases {user id now : Int} {hard : Bool} {u : Unit}
    (h : archive user id hard now db = .ok (u, db')) :
    db'.jobs.rows.Sublist db.jobs.rows ∧ db'.lastJob = db.lastJob := by
  cases hard with
  | false =>
      obtain ⟨_, db₁, hitems, h⟩ := Tx.bind_eq_ok.mp h
      obtain ⟨-, h⟩ := check_eq_ok.mp h
      obtain ⟨-, rfl⟩ := Tx.pure_eq_ok.mp h
      obtain ⟨hjobs, hlast⟩ := items_beside.update_same hitems
      exact ⟨hjobs ▸ List.Sublist.refl _, hlast⟩
  | true =>
      obtain ⟨_, db₁, hitems, h⟩ := Tx.bind_eq_ok.mp h
      obtain ⟨-, h⟩ := check_eq_ok.mp h
      obtain ⟨_, db₂, hcategories, h⟩ := Tx.bind_eq_ok.mp h
      obtain ⟨_, db₃, hstars, h⟩ := Tx.bind_eq_ok.mp h
      obtain ⟨_, db₄, hjobs, h⟩ := Tx.bind_eq_ok.mp h
      obtain ⟨_, -, rfl⟩ := onOutbox_eq_ok.mp h
      obtain ⟨-, rfl⟩ := TableIn.delete_eq_ok.mp hjobs
      obtain ⟨hjobs₁, hlast₁⟩ := items_beside.delete_same hitems
      obtain ⟨hjobs₂, hlast₂⟩ := itemCategories_beside.delete_same hcategories
      obtain ⟨hjobs₃, hlast₃⟩ := itemStars_beside.delete_same hstars
      rw [← hjobs₁, ← hjobs₂, ← hjobs₃]
      exact ⟨List.filter_sublist, hlast₃.trans (hlast₂.trans hlast₁)⟩

variable {s : JobsState}

/-- Nothing was enqueued. -/
theorem JobsState.goOn_of_length {events : List JobEvent}
    (h : db.jobs.rows.length ≤ s.db.jobs.rows.length) :
    s.goOn db events = ⟨db, s.log ++ events⟩ := by
  rw [goOn, enqueued_eq_nil h, List.append_nil]

def JobsState.leases (s : JobsState) : Leases Int String := s.db.leases s.log

theorem Queued.goOn (h : Queued s.db db) :
    Relation.ReflTransGen Leases.Step s.leases (s.goOn db []).leases := by
  rw [JobsState.goOn, List.append_nil]
  exact h.steps s.log

/-- What an act does to the queue, as leases. -/
theorem perform_steps (s : JobsState) (act : JobAct)
    (hfresh : ∀ token ∈ act.token, ∀ ev ∈ s.log, ev.takes token = false) :
    Relation.ReflTransGen Leases.Step s.leases (act.perform s).leases := by
  cases act with
  | enqueueJob user item kind now =>
      refine (Aside.auto ?_ s.db).goOn
      unfold enqueueJob
      cases item with
      | none => exact enqueue_aside _ _ _ _
      | some item => exact Aside.get.bind fun _ => Aside.orElseFail.bind fun _ =>
          enqueue_aside _ _ _ _
  | claim now lease token =>
      simp only [JobAct.perform]
      rcases Tx.auto_cases (claim now lease token) s.db with ⟨e, he⟩ | ⟨c, db', h, hauto⟩
      · rw [he]
        exact (Queued.refl s.db).goOn
      rw [hauto]
      rcases claim_cases h (hfresh token rfl) with ⟨rfl, rfl⟩ | ⟨c, rfl, hlength, hstep⟩
      · exact (Queued.refl s.db).goOn
      · dsimp only
        rw [JobsState.goOn_of_length hlength.le]
        exact .single hstep
  | call c result now =>
      simp only [JobAct.perform]
      rcases Tx.auto_cases (result.on c now) s.db with ⟨e, he⟩ | ⟨b, db', h, hauto⟩
      · rw [he]
        exact (Queued.refl s.db).goOn
      rw [hauto]
      rcases result.fenced c now s.db b db' h with ⟨rfl, rfl⟩ | ⟨rfl, hheld, db₁, hqueued, hturned⟩
      · exact (Queued.refl s.db).goOn
      -- a result under the claim that holds the job: what it enqueues, then the job itself
      · obtain ⟨j, hj, hheld⟩ := hheld
        have hsame := hturned.enqueued hqueued ⟨j, hj, (JobRecord.heldBy_spec hj hheld).1⟩
        dsimp only
        rw [JobsState.goOn, hsame]
        exact (hqueued.steps s.log).tail (hturned.step _)
  | archive user id hard now =>
      simp only [JobAct.perform]
      rcases Tx.auto_cases (archive user id hard now) s.db with ⟨e, he⟩ | ⟨u, db', h, hauto⟩
      · rw [he]
        exact (Queued.refl s.db).goOn
      rw [hauto]
      obtain ⟨hrows, hlast⟩ := archive_cases h
      rw [JobsState.goOn_of_length hrows.length_le, List.append_nil]
      -- the jobs of the item are gone, the log stays
      have heq : JobsState.leases ⟨db', s.log⟩ =
          { s.leases with entries := db'.jobs.rows.map JobRecord.entry } := by
        show Leases.mk _ db'.lastJob _ = _
        rw [hlast]
        rfl
      rw [heq]
      exact .single (.removed (hrows.map JobRecord.entry))
  | other stmt beside => exact (beside.auto s.db).goOn

/-- A token that an act does not draw is not in the log after it. -/
theorem perform_untaken {act : JobAct} {token : String}
    (hlog : ∀ ev ∈ s.log, ev.takes token = false) (hact : act.token ≠ some token) :
    ∀ ev ∈ (act.perform s).log, ev.takes token = false := by
  have hgoOn (db : InboxDb) (events : List JobEvent) (h : ∀ ev ∈ events, ev.takes token = false) :
      ∀ ev ∈ (s.goOn db events).log, ev.takes token = false := by
    intro ev hev
    rcases List.mem_append.mp hev with hev | hev
    · rcases List.mem_append.mp hev with hev | hev
      · exact hlog ev hev
      · obtain ⟨j, -, rfl⟩ := List.mem_map.mp hev
        rfl
    · exact h ev hev
  have hnothing (db : InboxDb) := hgoOn db [] fun ev hev => by cases hev
  cases act with
  | claim now lease mine =>
      simp only [JobAct.perform]
      split
      · refine hgoOn _ _ fun ev hev => ?_
        rw [List.mem_singleton.mp hev]
        exact decide_eq_false fun heq => hact (congrArg some heq)
      · exact hnothing _
  | call c result now =>
      simp only [JobAct.perform]
      split
      · refine hgoOn _ _ fun ev hev => ?_
        rw [List.mem_singleton.mp hev]
        rfl
      · exact hnothing _
  | _ => exact hnothing _

theorem run_kept : ∀ (acts : List JobAct) (s : JobsState), s.leases.Kept →
    (acts.filterMap JobAct.token).Nodup →
    (∀ token ∈ acts.filterMap JobAct.token, ∀ ev ∈ s.log, ev.takes token = false) →
    (acts.foldl JobAct.perform s).leases.Kept := by
  intro acts
  induction acts with
  | nil => exact fun _ hs _ _ => hs
  | cons act acts ih =>
      intro s hs hnodup hfresh
      have hmine : ∀ token ∈ act.token, ∀ ev ∈ s.log, ev.takes token = false := fun token ht =>
        hfresh token (List.mem_filterMap.mpr ⟨act, List.mem_cons_self, ht⟩)
      refine ih _ (hs.steps (perform_steps s act hmine)) ?_ fun token ht => ?_
      · exact hnodup.sublist ((List.sublist_cons_self _ _).filterMap _)
      · refine perform_untaken (hfresh token ?_) fun hdraws => ?_
        · obtain ⟨a, ha, hat⟩ := List.mem_filterMap.mp ht
          exact List.mem_filterMap.mpr ⟨a, List.mem_cons_of_mem _ ha, hat⟩
        · rw [List.filterMap_cons_some hdraws] at hnodup
          exact (List.nodup_cons.mp hnodup).1 ht

/-- The jobs wait, and none was ever claimed. -/
def InboxDb.Unclaimed (db : InboxDb) : Prop :=
  ∀ j ∈ db.jobs.rows, j.state = .ready ∧ j.attempts = 0 ∧ j.id ≤ db.lastJob

/-- **Jobs are fenced.** Jobs are enqueued, and any number of workers claim jobs with tokens of
their own and bring back results under any claim, in any order and at any time. The history
of every job is one of a lease: it is claimed when it waits and is due, or its lease has run
out. A token releases its job once at most; the row of a job is as its history left it, its
attempts being the claims but for the cancelled ones; and a result changes nothing, unless its
claim is the last of the job and still holds it. -/
theorem inbox_jobs_fenced {db : InboxDb} {acts : List JobAct} (hdb : db.Unclaimed)
    (hfresh : (acts.filterMap JobAct.token).Nodup) :
    let s := acts.foldl JobAct.perform (.start db)
    (∀ id, History (s.leases.about id)) ∧
      (∀ id token, (s.leases.about id).countP (·.releases token) ≤ 1) ∧
      (∀ j ∈ s.db.jobs.rows, j.entry.Follows (s.leases.about j.id)) ∧
      ∀ (c : Claim) (result : JobCall) (now : Int),
        (Tx.auto (result.on c now) s.db).2 = s.db ∨
          (Tx.auto (result.on c now) s.db).1 = .ok true ∧ ∃ es since bound,
            s.leases.about c.id = es ++ [.taken c.id c.leaseToken since bound] ∧ now < bound := by
  intro s
  have hnamed : db.jobs.rows.Pairwise fun a b => a.entry.item ≠ b.entry.item := by
    refine db.jobs.unique.imp fun {a b} hab heq => ?_
    rw [jobs_keyed a b heq] at hab
    cases hab
  have hkept : s.leases.Kept := by
    refine run_kept acts (.start db) (Leases.kept_new JobRecord.entry JobRecord.availableAt
      rfl rfl hnamed (fun j hj => (hdb j hj).2.2) fun j hj => ⟨(hdb j hj).2.1, ?_⟩) hfresh ?_
    · simp [JobRecord.entry, JobRecord.phase, (hdb j hj).1]
    · intro _ _ ev hev
      obtain ⟨j, -, rfl⟩ := List.mem_map.mp hev
      rfl
  refine ⟨hkept.history, hkept.releases_le_one, fun j hj => ?_, fun c result now => ?_⟩
  · exact hkept.follows _ (List.mem_map_of_mem hj)
  rcases Tx.auto_cases (result.on c now) s.db with ⟨e, he⟩ | ⟨b, db', h, hauto⟩
  · exact .inl (congrArg Prod.snd he)
  rcases result.fenced c now s.db b db' h with ⟨-, rfl⟩ | ⟨rfl, ⟨j, hj, hheld⟩, -⟩
  · exact .inl (congrArg Prod.snd hauto)
  obtain ⟨hid, -, bound, hphase, hlive⟩ := JobRecord.heldBy_spec hj hheld
  obtain ⟨es, item, since, habout, hitem⟩ := hkept.taken (List.mem_map_of_mem hj) hphase
  rw [hitem, show j.entry.item = c.id from hid] at habout
  exact .inr ⟨congrArg Prod.fst hauto, es, since, bound, habout, hlive⟩

/-! ## Two workers -/

def emptyInbox : InboxDb where
  items := .empty _
  categories := .empty _
  itemCategories := .empty _
  itemStars := .empty _
  rules := .empty _
  jobs := .empty _
  notifications := .empty _
  syncStates := .empty _
  ledger := ⟨.empty _, .empty _, .empty _, .empty _, 0, 0⟩
  teamMembers := []
  lastItem := 0
  lastCategory := 0
  lastRule := 0
  lastJob := 0
  lastSequence := 0

/-- The first worker is late, the second is interrupted. -/
def twoWorkers : List JobAct := [
  .enqueueJob 1 none .starsSync 0,
  .claim 0 10 "first",
  .claim 10 10 "second",
  .call ⟨⟨1, 1, none, "first"⟩, .starsSync, 1⟩ (.finish none) 12,
  .call ⟨⟨1, 1, none, "second"⟩, .starsSync, 2⟩ (.failJob "cancelled" (some 30)) 14]

/-- One attempt is left of two claims. -/
theorem inbox_jobs_fenced_two :
    let s := twoWorkers.foldl JobAct.perform (.start emptyInbox)
    s.db.jobs.rows.map JobRecord.attempts = [1] ∧ History (s.leases.about 1) ∧
      (s.leases.about 1).length = 4 := by
  refine ⟨by decide +kernel, ?_, by decide +kernel⟩
  have hempty : emptyInbox.Unclaimed := by
    intro j hj
    cases hj
  exact (@inbox_jobs_fenced emptyInbox twoWorkers hempty (by decide)).1 1

end YoinkCore.Inbox
