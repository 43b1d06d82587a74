import YoinkCore.Insight.Quota

/-!
# Runs under a daily limit

A call that finds its reservation of the same day turns it into a row of the log, so the two
together never exceed the limit. The result transaction does not check that it is there: a call
that goes on past midnight, or past the expiry of its reservation, is counted on neither side.
-/

namespace YoinkCore.Insight

open Lib

/-! ## What a section does -/

/-- What one section changes of the database. -/
inductive QuotaEffect (c : QuotaConfig) (s : QuotaState) : QuotaEvent → QuotaState → Prop
  | idle {t : QuotaState} : s.now ≤ t.now → t.db = s.db → QuotaEffect c s .other t
  | reserved {t : QuotaState} (k : Nat) (call : SummarizeCall) : s.calls k = some call →
      t.now = s.now →
      s.db.reserve c call.user call.command.feature call.id (stored s.now) = .ok t.db →
      QuotaEffect c s (.reserved k ⟨call.id, call.user, call.command.feature, stored s.now,
        stored s.now + c.lease⟩) t
  | saved {t : QuotaState} (k : Nat) (call : SummarizeCall) : s.calls k = some call →
      t.now = s.now →
      t.db = (s.db.release call.id).log ⟨call.user, call.command, .ok, stored s.now⟩ →
      QuotaEffect c s (.saved k ⟨call.user, call.command, .ok, stored s.now⟩) t
  | logged {t : QuotaState} (row : UsageRow) : row.status ≠ .ok → row.createdAt = stored s.now →
      t.now = s.now → t.db = s.db.log row → QuotaEffect c s .other t
  | released {t : QuotaState} (id : String) : t.now = s.now → t.db = s.db.release id →
      QuotaEffect c s .other t

variable {c : QuotaConfig} {s t : QuotaState} {call : SummarizeCall} {e : QuotaEvent}

theorem reserveCall_effect {k : Nat} (hcall : s.calls k = some call) (commit : CommitResult) :
    QuotaEffect c s (s.reserveCall c k call commit).1 (s.reserveCall c k call commit).2 := by
  unfold QuotaState.reserveCall
  dsimp only
  split
  · exact .idle (Int.le_refl _) rfl
  · exact .idle (Int.le_refl _) rfl
  · rename_i db hdb
    cases commit with
    | done => exact .reserved k call hcall rfl hdb
    | failed => exact .idle (Int.le_refl _) rfl
    | unheard => exact .reserved k call hcall rfl hdb

theorem saveCall_effect {k : Nat} (hcall : s.calls k = some call) (commit : CommitResult) :
    QuotaEffect c s (s.saveCall k call commit).1 (s.saveCall k call commit).2 := by
  cases commit with
  | done => exact .saved k call hcall rfl rfl
  | failed => exact .idle (Int.le_refl _) rfl
  | unheard => exact .saved k call hcall rfl rfl

theorem releaseCall_effect {k : Nat} (phase : CallPhase) (ok : Bool) :
    QuotaEffect c s .other (s.releaseCall k call phase ok) := by
  unfold QuotaState.releaseCall
  split
  · exact .released call.id rfl rfl
  · exact .idle (Int.le_refl _) rfl

variable {es : List QuotaEvent} {a : QuotaAction} {feature : QuotaFeature} {db : QuotaDb}

theorem quota_effect (h : a.perform c s = some (e, t)) : QuotaEffect c s e t := by
  cases a with
  | tick now =>
      simp only [QuotaAction.perform] at h
      split at h
      · rename_i hle
        cases h
        exact .idle hle rfl
      · cases h
  | shutdown | restart =>
      cases h
      exact .idle (Int.le_refl _) rfl
  | start k user command =>
      simp only [QuotaAction.perform] at h
      split at h
      · cases h
        unfold QuotaState.startCall
        split <;> exact .idle (Int.le_refl _) rfl
      · cases h
  | reserve k commit =>
      obtain ⟨call, hcall, h⟩ := Option.bind_eq_some_iff.mp h
      split at h
      · have heffect : QuotaEffect c s _ _ := reserveCall_effect hcall commit
        rwa [Option.some.inj h] at heffect
      · cases h
  | cached k =>
      obtain ⟨call, hcall, h⟩ := Option.bind_eq_some_iff.mp h
      split at h
      · cases h
        exact .logged _ (by simp) rfl rfl rfl
      · cases h
  | save k commit =>
      obtain ⟨call, hcall, h⟩ := Option.bind_eq_some_iff.mp h
      split at h
      · have heffect : QuotaEffect c s _ _ := saveCall_effect hcall commit
        rwa [Option.some.inj h] at heffect
      · cases h
  | fail k e =>
      obtain ⟨call, hcall, h⟩ := Option.bind_eq_some_iff.mp h
      split at h
      · cases h
        exact .idle (Int.le_refl _) rfl
      · cases h
  | release k ok =>
      obtain ⟨call, hcall, h⟩ := Option.bind_eq_some_iff.mp h
      split at h
      · cases h
        exact releaseCall_effect _ ok
      · cases h
  | logError k =>
      obtain ⟨call, hcall, h⟩ := Option.bind_eq_some_iff.mp h
      split at h
      · cases h
        exact .logged _ (by simp) rfl rfl rfl
      · cases h
  | drop k =>
      obtain ⟨call, hcall, h⟩ := Option.bind_eq_some_iff.mp h
      split at h
      · cases h
      · cases h
        exact .idle (Int.le_refl _) rfl
  | clean k ok =>
      obtain ⟨call, hcall, h⟩ := Option.bind_eq_some_iff.mp h
      split at h
      · cases h
        exact releaseCall_effect _ ok
      · cases h

/-! ## Counting -/

namespace QuotaDb

def okRow (uid day : Int) (r : UsageRow) : Bool :=
  decide (r.user = uid) && decide (r.command = .tldr) && decide (r.status = .ok) &&
    decide (dayOf r.createdAt = day)

/-- The successful `tldr` rows of a user and a day. -/
def okRows (db : QuotaDb) (uid day : Int) : Nat := db.usage.countP (okRow uid day)

def heldRow (uid day : Int) (r : Reservation) : Bool :=
  decide (r.user = uid) && decide (r.command = .tldr) && decide (dayOf r.createdAt = day)

/-- The `tldr` reservations of a user that were made on a day. -/
def heldRows (db : QuotaDb) (uid day : Int) : Nat := db.reservations.countP (heldRow uid day)

end QuotaDb

/-- Instants from the start of today on that are not in the future are today. -/
theorem dayStart_le_iff {instant now : Int} (h : instant ≤ now) :
    dayStart now ≤ instant ↔ dayOf instant = dayOf now := by
  have hday : dayStart now ≤ instant ↔ dayOf now ≤ dayOf instant :=
    (Int.le_ediv_iff_mul_le (by decide)).symm
  have hle : dayOf instant ≤ dayOf now := Int.ediv_le_ediv (by decide) h
  rw [hday]
  omega

/-- What holds of the two tables in a run whose results keep their day. -/
structure QuotaOk (c : QuotaConfig) (s : QuotaState) : Prop where
  usagePast : ∀ r ∈ s.db.usage, r.createdAt ≤ stored s.now
  reservationsPast : ∀ r ∈ s.db.reservations, r.createdAt ≤ stored s.now
  bound : ∀ uid day, (s.db.okRows uid day + s.db.heldRows uid day : Int) ≤ c.tldrLimit

/-- Rows that are not in the future and have not expired count exactly on their day. -/
theorem quotaCount_eq (db : QuotaDb) {now : Int} (uid : Int)
    (husage : ∀ r ∈ db.usage, r.createdAt ≤ now)
    (hpast : ∀ r ∈ db.reservations, r.createdAt ≤ now)
    (hlive : ∀ r ∈ db.reservations, now < r.expiresAt) :
    db.quotaCount uid .tldr now = db.okRows uid (dayOf now) + db.heldRows uid (dayOf now) := by
  unfold QuotaDb.quotaCount QuotaDb.okRows QuotaDb.heldRows
  congr 1
  · refine List.countP_congr fun r hr => ?_
    simp only [QuotaDb.countedUsage, QuotaDb.okRow, Bool.and_eq_true, decide_eq_true_eq,
      dayStart_le_iff (husage r hr), reduceCtorEq, decide_false, Bool.false_or]
    tauto
  · refine List.countP_congr fun r hr => ?_
    simp only [QuotaDb.countedReservation, QuotaDb.heldRow, Bool.and_eq_true, decide_eq_true_eq,
      dayStart_le_iff (hpast r hr), hlive r hr, reduceCtorEq, decide_false, Bool.false_or, and_true]

/-- A reservation takes a place of today that is free. -/
theorem reserve_spec {uid now : Int} {id : String} {db' : QuotaDb}
    (h : db.reserve c uid feature id now = .ok db') :
    db'.usage = db.usage ∧
      ∃ live : List Reservation, live.Sublist db.reservations ∧ (∀ r ∈ live, now < r.expiresAt) ∧
        db'.reservations = live ++ [⟨id, uid, feature, now, now + c.lease⟩] ∧
        (0 < c.limit feature →
          ((⟨db.usage, live⟩ : QuotaDb).quotaCount uid feature now : Int) < c.limit feature) := by
  unfold QuotaDb.reserve at h
  dsimp only at h
  split at h
  · cases h
  · rename_i hlimit
    split at h
    · cases h
    · cases h
      refine ⟨rfl, _, List.filter_sublist, fun r hr => ?_, rfl, fun hpos => ?_⟩
      · have hexpired := (List.mem_filter.mp hr).2
        simpa using hexpired
      · simpa [hpos] using hlimit

theorem heldRows_append (usage : List UsageRow) (live : List Reservation) (row : Reservation)
    (uid day : Int) :
    QuotaDb.heldRows ⟨usage, live ++ [row]⟩ uid day =
      QuotaDb.heldRows ⟨usage, live⟩ uid day + if QuotaDb.heldRow uid day row then 1 else 0 := by
  simp only [QuotaDb.heldRows, List.countP_append, List.countP_singleton]

theorem okRows_log (db : QuotaDb) (row : UsageRow) (uid day : Int) :
    (db.log row).okRows uid day =
      db.okRows uid day + if QuotaDb.okRow uid day row then 1 else 0 := by
  simp only [QuotaDb.okRows, QuotaDb.log, List.countP_append, List.countP_singleton]

theorem heldRows_release_le (db : QuotaDb) (id : String) (uid day : Int) :
    (db.release id).heldRows uid day ≤ db.heldRows uid day :=
  List.filter_sublist.countP_le

/-- A reservation that is given back leaves its place. -/
theorem heldRows_release_lt {r : Reservation} (uid day : Int) (hr : r ∈ db.reservations)
    (hheld : QuotaDb.heldRow uid day r = true) :
    (db.release r.id).heldRows uid day + 1 ≤ db.heldRows uid day := by
  unfold QuotaDb.heldRows QuotaDb.release
  rw [List.countP_eq_countP_filter_add db.reservations _ (fun q => decide (q.id ≠ r.id))]
  refine Nat.add_le_add_left (List.one_le_countP_iff.mpr ⟨r, List.mem_filter.mpr ⟨hr, ?_⟩, hheld⟩) _
  simp

/-! ## The limit -/

/-- A call that saves a result of `tldr` finds its reservation, made on the same day. -/
def QuotaState.Keeps (s : QuotaState) (e : QuotaEvent) : Prop :=
  ∀ k row call, e = .saved k row → s.calls k = some call → call.command = .tldr →
    ∃ r ∈ s.db.reservations, r.id = call.id ∧ r.user = call.user ∧ r.command = .tldr ∧
      dayOf r.createdAt = dayOf (stored s.now)

theorem stored_le {now now' : Int} (h : now ≤ now') : stored now ≤ stored now' :=
  Int.ediv_le_ediv (by decide) h

theorem QuotaOk.initial (h : s.Initial) (hlimit : 0 < c.tldrLimit) : QuotaOk c s where
  usagePast r hr := by
    rw [h.usage] at hr
    cases hr
  reservationsPast r hr := by
    rw [h.reservations] at hr
    cases hr
  bound uid day := by
    simp [QuotaDb.okRows, QuotaDb.heldRows, h.usage, h.reservations, Int.le_of_lt hlimit]

/-- A reservation keeps the bound: its place was free. -/
theorem QuotaOk.reserved {user : Int} {id : String} (hok : QuotaOk c s) (hlimit : 0 < c.tldrLimit)
    (h : s.db.reserve c user feature id (stored s.now) = .ok db) (uid day : Int) :
    (db.okRows uid day + db.heldRows uid day : Int) ≤ c.tldrLimit := by
  obtain ⟨husage, live, hsub, hlive, hres, hroom⟩ := reserve_spec h
  obtain ⟨usage, reservations⟩ := db
  obtain rfl : usage = s.db.usage := husage
  obtain rfl : reservations = _ := hres
  have hbound := hok.bound uid day
  have hokRows : ∀ l, QuotaDb.okRows ⟨s.db.usage, l⟩ uid day = s.db.okRows uid day := fun _ => rfl
  have hle : QuotaDb.heldRows ⟨s.db.usage, live⟩ uid day ≤ s.db.heldRows uid day := hsub.countP_le
  rw [heldRows_append, hokRows]
  by_cases hrow : QuotaDb.heldRow uid day ⟨id, user, feature, stored s.now, stored s.now + c.lease⟩
  · rw [if_pos hrow]
    simp only [QuotaDb.heldRow, Bool.and_eq_true, decide_eq_true_eq] at hrow
    obtain ⟨⟨rfl, rfl⟩, rfl⟩ := hrow
    have hcount := quotaCount_eq ⟨s.db.usage, live⟩ user hok.usagePast
      (fun r hr => hok.reservationsPast r (hsub.subset hr)) hlive
    have hroom := hroom hlimit
    rw [hcount, hokRows] at hroom
    simp only [QuotaConfig.limit] at hroom
    omega
  · rw [if_neg hrow]
    omega

/-- A result keeps the bound: it takes the place of its reservation. -/
theorem QuotaOk.saved (hok : QuotaOk c s)
    (hkeeps : call.command = .tldr → ∃ r ∈ s.db.reservations, r.id = call.id ∧
      r.user = call.user ∧ r.command = .tldr ∧ dayOf r.createdAt = dayOf (stored s.now))
    (uid day : Int) :
    (((s.db.release call.id).log ⟨call.user, call.command, .ok, stored s.now⟩).okRows uid day +
      ((s.db.release call.id).log ⟨call.user, call.command, .ok, stored s.now⟩).heldRows uid day :
        Int) ≤ c.tldrLimit := by
  have hbound := hok.bound uid day
  have hle := heldRows_release_le s.db call.id uid day
  have hokRows : (s.db.release call.id).okRows uid day = s.db.okRows uid day := rfl
  have hheld : ((s.db.release call.id).log ⟨call.user, call.command, .ok, stored s.now⟩).heldRows
    uid day = (s.db.release call.id).heldRows uid day := rfl
  rw [okRows_log, hokRows, hheld]
  by_cases hrow : QuotaDb.okRow uid day ⟨call.user, call.command, .ok, stored s.now⟩
  · rw [if_pos hrow]
    simp only [QuotaDb.okRow, Bool.and_eq_true, decide_eq_true_eq] at hrow
    obtain ⟨⟨⟨hu, hcommand⟩, -⟩, hday⟩ := hrow
    obtain ⟨r, hr, hid, hru, hrc, hrday⟩ := hkeeps hcommand
    have hlt := heldRows_release_lt uid day hr (by
      simp [QuotaDb.heldRow, hru, hu, hrc, hrday, hday])
    rw [hid] at hlt
    omega
  · rw [if_neg hrow]
    omega

theorem QuotaOk.step (hok : QuotaOk c s) (hlimit : 0 < c.tldrLimit) (h : QuotaEffect c s e t)
    (hkeeps : s.Keeps e) : QuotaOk c t := by
  have hpast : t.db = s.db → s.now ≤ t.now → QuotaOk c t := by
    intro hdb hnow
    have hle := stored_le hnow
    exact {
      usagePast := fun r hr => Int.le_trans (hok.usagePast r (hdb ▸ hr)) hle
      reservationsPast := fun r hr => Int.le_trans (hok.reservationsPast r (hdb ▸ hr)) hle
      bound := hdb ▸ hok.bound }
  cases h with
  | idle hnow hdb => exact hpast hdb hnow
  | reserved k call hcall hnow hdb =>
      obtain ⟨husage, live, hsub, -, hres, -⟩ := reserve_spec hdb
      refine ⟨?_, ?_, hok.reserved hlimit hdb⟩
      · rw [husage, hnow]
        exact hok.usagePast
      · rw [hres, hnow]
        intro r hr
        rcases List.mem_append.mp hr with hr | hr
        · exact hok.reservationsPast r (hsub.subset hr)
        · obtain rfl := List.mem_singleton.mp hr
          exact Int.le_refl _
  | saved k call hcall hnow hdb =>
      refine ⟨?_, ?_, ?_⟩
      · rw [hdb, hnow]
        intro r hr
        rcases List.mem_append.mp hr with hr | hr
        · exact hok.usagePast r hr
        · obtain rfl := List.mem_singleton.mp hr
          exact Int.le_refl _
      · rw [hdb, hnow]
        exact fun r hr => hok.reservationsPast r (List.mem_filter.mp hr).1
      · rw [hdb]
        exact hok.saved fun hcommand => hkeeps k _ call rfl hcall hcommand
  | logged row hstatus hcreated hnow hdb =>
      refine ⟨?_, ?_, ?_⟩
      · rw [hdb, hnow]
        intro r hr
        rcases List.mem_append.mp hr with hr | hr
        · exact hok.usagePast r hr
        · obtain rfl := List.mem_singleton.mp hr
          exact Int.le_of_eq hcreated
      · rw [hdb, hnow]
        exact hok.reservationsPast
      · intro uid day
        rw [hdb, okRows_log, if_neg (by simp [QuotaDb.okRow, hstatus])]
        exact hok.bound uid day
  | released id hnow hdb =>
      refine ⟨?_, ?_, ?_⟩
      · rw [hdb, hnow]
        exact hok.usagePast
      · rw [hdb, hnow]
        exact fun r hr => hok.reservationsPast r (List.mem_filter.mp hr).1
      · intro uid day
        have hle := heldRows_release_le s.db id uid day
        have hbound := hok.bound uid day
        rw [hdb, show (s.db.release id).okRows uid day = s.db.okRows uid day from rfl]
        omega

/-! ## What a call counts for -/

def CallPhase.rank : CallPhase → Nat
  | looking => 0
  | reserved => 1
  | ending _ => 2
  | released _ => 3
  | dropped => 4

/-- No call goes back to a phase that it has left. -/
def QuotaState.Moves (s t : QuotaState) : Prop :=
  ∀ k call, s.calls k = some call → ∃ call', t.calls k = some call' ∧
    call.phase.rank ≤ call'.phase.rank

theorem QuotaState.Moves.update {k : Nat} {call' : SummarizeCall} (hcall : s.calls k = some call)
    (ht : t.calls = Function.update s.calls k (some call'))
    (hrank : call.phase.rank ≤ call'.phase.rank) : s.Moves t := by
  intro k' old hold
  rw [ht, Function.update_apply]
  by_cases hk : k' = k
  · rw [hk, hcall] at hold
    cases hold
    exact ⟨call', if_pos hk, hrank⟩
  · rw [if_neg hk]
    exact ⟨old, hold, Nat.le_refl _⟩

theorem QuotaState.Moves.same (ht : t.calls = s.calls) : s.Moves t :=
  fun _ call hcall => ⟨call, ht ▸ hcall, Nat.le_refl _⟩

theorem reserveCall_moves {k : Nat} (hcall : s.calls k = some call)
    (hphase : call.phase = .looking) (commit : CommitResult) :
    s.Moves (s.reserveCall c k call commit).2 ∧
      (∃ call', (s.reserveCall c k call commit).2.calls k = some call' ∧
        call'.phase ≠ .looking) ∧
      ∀ k' row, (s.reserveCall c k call commit).1 = .reserved k' row → k' = k := by
  have hmoves : ∀ {t : QuotaState} {call' : SummarizeCall},
      t.calls = Function.update s.calls k (some call') → call'.phase ≠ .looking →
      s.Moves t ∧ ∃ call', t.calls k = some call' ∧ call'.phase ≠ .looking := by
    intro t call' ht hne
    refine ⟨.update hcall ht (by rw [hphase]; exact Nat.zero_le _), call', ?_, hne⟩
    rw [ht, Function.update_self]
  rw [← and_assoc]
  unfold QuotaState.reserveCall
  dsimp only
  split
  · exact ⟨hmoves rfl (by simp), nofun⟩
  · exact ⟨hmoves rfl (by simp), nofun⟩
  · have hevent : ∀ {row' : Reservation} k' row,
        QuotaEvent.reserved k row' = .reserved k' row → k' = k :=
      fun k' row he => (QuotaEvent.reserved.inj he).1.symm
    cases commit with
    | done => exact ⟨hmoves rfl (by simp), hevent⟩
    | failed => exact ⟨hmoves rfl (by simp), nofun⟩
    | unheard => exact ⟨hmoves rfl (by simp), hevent⟩

/-- A call reserves from the phase that it begins in, and leaves it. -/
theorem quota_moves (h : a.perform c s = some (e, t)) :
    s.Moves t ∧ ∀ k row, e = .reserved k row →
      (∃ call, s.calls k = some call ∧ call.phase = .looking) ∧
        ∃ call, t.calls k = some call ∧ call.phase ≠ .looking := by
  cases a with
  | tick now =>
      simp only [QuotaAction.perform] at h
      split at h
      · cases h
        exact ⟨.same rfl, nofun⟩
      · cases h
  | shutdown =>
      cases h
      exact ⟨.same rfl, nofun⟩
  | restart =>
      cases h
      -- a restart ends every call, whatever its phase
      refine ⟨fun k call hcall => ⟨_, congrArg (Option.map _) hcall, ?_⟩, nofun⟩
      cases call.phase <;> simp [CallPhase.rank]
  | start k user command =>
      simp only [QuotaAction.perform] at h
      split at h
      · rename_i hnone
        cases h
        unfold QuotaState.startCall
        split
        · exact ⟨.same rfl, nofun⟩
        · refine ⟨fun k' call hcall => ⟨call, ?_, Nat.le_refl _⟩, nofun⟩
          show Function.update s.calls k _ k' = _
          rw [Function.update_of_ne, hcall]
          rintro rfl
          rw [hnone] at hcall
          cases hcall
      · cases h
  | reserve k commit =>
      obtain ⟨call, hcall, h⟩ := Option.bind_eq_some_iff.mp h
      split at h
      · rename_i hphase
        obtain ⟨hmoves, hleft, hevent⟩ := reserveCall_moves (c := c) hcall hphase commit
        rw [Option.some.inj h] at hmoves hleft hevent
        refine ⟨hmoves, fun k' row he => ?_⟩
        obtain rfl := hevent k' row he
        exact ⟨⟨call, hcall, hphase⟩, hleft⟩
      · cases h
  | cached k =>
      obtain ⟨call, hcall, h⟩ := Option.bind_eq_some_iff.mp h
      split at h
      · rename_i hphase
        cases h
        refine ⟨.update hcall rfl ?_, nofun⟩
        rw [hphase]
        cases call.command.feature <;> simp [QuotaFeature.lookupPhase, CallPhase.rank]
      · cases h
  | save k commit =>
      obtain ⟨call, hcall, h⟩ := Option.bind_eq_some_iff.mp h
      split at h
      · rename_i hphase
        have hle : ∀ result, call.phase.rank ≤ (CallPhase.ending result).rank := by
          intro result
          rw [hphase]
          exact Nat.le_succ 1
        cases commit with
        | done =>
            cases h
            exact ⟨.update hcall rfl (hle none), nofun⟩
        | failed =>
            cases h
            exact ⟨.update hcall rfl (hle (some .database)), nofun⟩
        | unheard =>
            cases h
            exact ⟨.update hcall rfl (hle (some .database)), nofun⟩
      · cases h
  | fail k e =>
      obtain ⟨call, hcall, h⟩ := Option.bind_eq_some_iff.mp h
      split at h
      · rename_i hphase
        cases h
        refine ⟨.update hcall rfl ?_, nofun⟩
        simp only [Bool.or_eq_true, decide_eq_true_eq] at hphase
        rcases hphase with hphase | hphase <;> simp [hphase, CallPhase.rank]
      · cases h
  | release k ok =>
      obtain ⟨call, hcall, h⟩ := Option.bind_eq_some_iff.mp h
      split at h
      · rename_i hphase
        cases h
        unfold QuotaState.releaseCall
        split <;> exact ⟨.update hcall rfl (by simp [hphase, CallPhase.rank]), nofun⟩
      · cases h
  | logError k =>
      obtain ⟨call, hcall, h⟩ := Option.bind_eq_some_iff.mp h
      split at h
      · rename_i hphase
        cases h
        exact ⟨.update hcall rfl (by simp [hphase, CallPhase.rank]), nofun⟩
      · cases h
  | drop k =>
      obtain ⟨call, hcall, h⟩ := Option.bind_eq_some_iff.mp h
      split at h
      · cases h
      -- a call may be dropped in any phase
      · cases h
        exact ⟨.update hcall rfl (by cases call.phase <;> simp [CallPhase.rank]), nofun⟩
  | clean k ok =>
      obtain ⟨call, hcall, h⟩ := Option.bind_eq_some_iff.mp h
      split at h
      · rename_i hphase
        cases h
        unfold QuotaState.releaseCall
        split <;> exact ⟨.update hcall rfl (by simp [hphase, CallPhase.rank]), nofun⟩
      · cases h

/-- A call counts by the row of its result, or by a reservation that has not expired. -/
def QuotaState.Counts (s : QuotaState) (es : List QuotaEvent) (k : Nat) : Prop :=
  (∃ row, .saved k row ∈ es) ∨
    ∃ r ∈ s.db.reservations, .reserved k r ∈ es ∧ stored s.now < r.expiresAt

/-- Where the rows that count come from. -/
structure QuotaRows (c : QuotaConfig) (es : List QuotaEvent) (s : QuotaState) : Prop where
  usage : ∀ r ∈ s.db.usage, r.status = .ok → ∃ k, .saved k r ∈ es
  reservations : ∀ r ∈ s.db.reservations, ∃ k, .reserved k r ∈ es
  lease : ∀ k r, .reserved k r ∈ es → r.expiresAt = r.createdAt + c.lease
  left : ∀ k r, .reserved k r ∈ es → ∃ call, s.calls k = some call ∧ call.phase ≠ .looking
  once : ∀ k r r', .reserved k r ∈ es → .reserved k r' ∈ es → r = r'

theorem QuotaRows.initial (h : s.Initial) :
    QuotaRows c [] s where
  usage r hr := by
    rw [h.usage] at hr
    cases hr
  reservations r hr := by
    rw [h.reservations] at hr
    cases hr
  lease := nofun
  left := nofun
  once := nofun

/-- The rows of the two tables after a section were there before, or are its own. -/
theorem QuotaEffect.rows (h : QuotaEffect c s e t) :
    (∀ r ∈ t.db.usage, r.status = .ok → r ∈ s.db.usage ∨ ∃ k, e = .saved k r) ∧
    (∀ r ∈ t.db.reservations, r ∈ s.db.reservations ∨ ∃ k, e = .reserved k r) ∧
    ∀ k r, e = .reserved k r → r.expiresAt = r.createdAt + c.lease := by
  cases h with
  | idle hnow hdb =>
      rw [hdb]
      exact ⟨fun r hr _ => .inl hr, fun r hr => .inl hr, nofun⟩
  | reserved k call hcall hnow hdb =>
      obtain ⟨husage, live, hsub, -, hres, -⟩ := reserve_spec hdb
      rw [husage, hres]
      refine ⟨fun r hr _ => .inl hr, fun r hr => ?_, fun k' r he => ?_⟩
      · rcases List.mem_append.mp hr with hr | hr
        · exact .inl (hsub.subset hr)
        · obtain rfl := List.mem_singleton.mp hr
          exact .inr ⟨k, rfl⟩
      · obtain ⟨-, rfl⟩ := QuotaEvent.reserved.inj he
        rfl
  | saved k call hcall hnow hdb =>
      rw [hdb]
      refine ⟨fun r hr _ => ?_, fun r hr => .inl (List.mem_filter.mp hr).1, nofun⟩
      rcases List.mem_append.mp hr with hr | hr
      · exact .inl hr
      · obtain rfl := List.mem_singleton.mp hr
        exact .inr ⟨k, rfl⟩
  | logged row hstatus hcreated hnow hdb =>
      rw [hdb]
      refine ⟨fun r hr hok => ?_, fun r hr => .inl hr, nofun⟩
      rcases List.mem_append.mp hr with hr | hr
      · exact .inl hr
      · obtain rfl := List.mem_singleton.mp hr
        exact absurd hok hstatus
  | released id hnow hdb =>
      rw [hdb]
      exact ⟨fun r hr _ => .inl hr, fun r hr => .inl (List.mem_filter.mp hr).1, nofun⟩

theorem QuotaRows.step (hok : QuotaRows c es s) (h : a.perform c s = some (e, t)) :
    QuotaRows c (es ++ [e]) t := by
  obtain ⟨husage, hres, hlease⟩ := (quota_effect h).rows
  obtain ⟨hmoves, hreserved⟩ := quota_moves h
  have hsnoc : ∀ {x : QuotaEvent}, x ∈ es ++ [e] ↔ x ∈ es ∨ e = x := by
    intro x
    rw [List.mem_append, List.mem_singleton, eq_comm (a := x)]
  -- A call that has reserved is not looking, so it does not reserve again.
  have hagain : ∀ k r r', .reserved k r ∈ es → e ≠ .reserved k r' := by
    intro k r r' hmem he
    obtain ⟨⟨call, hcall, hphase⟩, -⟩ := hreserved k r' he
    obtain ⟨call', hcall', hne⟩ := hok.left k r hmem
    rw [hcall] at hcall'
    cases hcall'
    exact hne hphase
  constructor
  case usage =>
    intro r hr hstatus
    rcases husage r hr hstatus with hr | ⟨k, he⟩
    · obtain ⟨k, hk⟩ := hok.usage r hr hstatus
      exact ⟨k, hsnoc.mpr (.inl hk)⟩
    · exact ⟨k, hsnoc.mpr (.inr he)⟩
  case reservations =>
    intro r hr
    rcases hres r hr with hr | ⟨k, he⟩
    · obtain ⟨k, hk⟩ := hok.reservations r hr
      exact ⟨k, hsnoc.mpr (.inl hk)⟩
    · exact ⟨k, hsnoc.mpr (.inr he)⟩
  case lease =>
    intro k r hmem
    rcases hsnoc.mp hmem with hmem | he
    · exact hok.lease k r hmem
    · exact hlease k r he
  case left =>
    intro k r hmem
    rcases hsnoc.mp hmem with hmem | he
    · obtain ⟨call, hcall, hne⟩ := hok.left k r hmem
      obtain ⟨call', hcall', hle⟩ := hmoves k call hcall
      refine ⟨call', hcall', fun hphase => hne ?_⟩
      rw [hphase] at hle
      cases hp : call.phase with
      | looking => rfl
      | _ => simp [hp, CallPhase.rank] at hle
    · exact (hreserved k r he).2
  case once =>
    intro k r r' hr hr'
    rcases hsnoc.mp hr with hr | he
    · rcases hsnoc.mp hr' with hr' | he'
      · exact hok.once k r r' hr hr'
      · exact absurd he' (hagain k r r' hr)
    · rcases hsnoc.mp hr' with hr' | he'
      · exact absurd he (hagain k r' r hr')
      · rw [he] at he'
        exact (QuotaEvent.reserved.inj he').2

/-- What counts in any run: rows of calls that have saved a result, and reservations that a call
has made less than a lease ago. -/
structure QuotaForgets (c : QuotaConfig) (es : List QuotaEvent) (s : QuotaState) : Prop where
  usage : ∀ uid feature, ∀ r ∈ s.db.usage,
    QuotaDb.countedUsage uid feature (stored s.now) r = true → ∃ k, .saved k r ∈ es
  reservations : ∀ uid feature, ∀ r ∈ s.db.reservations,
    QuotaDb.countedReservation uid feature (stored s.now) r = true →
      ∃ k, .reserved k r ∈ es ∧ s.Counts es k
  /-- A call without a result stops counting. -/
  stops : ∀ k r, (∀ row, .saved k row ∉ es) → .reserved k r ∈ es →
    r.createdAt + c.lease ≤ stored s.now → ¬ s.Counts es k

theorem QuotaRows.forgets (h : QuotaRows c es s) : QuotaForgets c es s := by
  constructor
  case usage =>
    intro uid feature r hr hcounted
    simp only [QuotaDb.countedUsage, Bool.and_eq_true, decide_eq_true_eq] at hcounted
    exact h.usage r hr hcounted.1.1.2
  case reservations =>
    intro uid feature r hr hcounted
    simp only [QuotaDb.countedReservation, Bool.and_eq_true, decide_eq_true_eq] at hcounted
    obtain ⟨k, hk⟩ := h.reservations r hr
    exact ⟨k, hk, .inr ⟨r, hr, hk, hcounted.2⟩⟩
  case stops =>
    rintro k r hnone hk hpast (⟨row, hrow⟩ | ⟨r', -, hk', hlive⟩)
    · exact hnone row hrow
    · obtain rfl := h.once k r r' hk hk'
      rw [h.lease k r hk] at hlive
      omega

/-! ## Runs -/

theorem run_forgets (h0 : s.Initial) (h : Run (QuotaStep c) s es t) : QuotaForgets c es t := by
  have hrows : QuotaRows c es t := by
    induction h with
    | nil => exact .initial h0
    | snoc _ hstep ih =>
        obtain ⟨a, ha⟩ := hstep
        exact ih.step ha
  exact hrows.forgets

/-- A section in which no result of `tldr` is saved without its reservation of the day. -/
def KeptQuotaStep (c : QuotaConfig) (s : QuotaState) (e : QuotaEvent) (t : QuotaState) : Prop :=
  QuotaStep c s e t ∧ s.Keeps e

/-- **The daily limit.** In a run in which every result of `tldr` takes the place of its
reservation, no day has more successful rows than the limit allows. In any run a call that has
no such row stops counting. -/
theorem daily_limit (c : QuotaConfig) (s t : QuotaState) (es : List QuotaEvent) (h0 : s.Initial)
    (hlimit : 0 < c.tldrLimit) :
    (Run (KeptQuotaStep c) s es t → ∀ uid day, (t.db.okRows uid day : Int) ≤ c.tldrLimit) ∧
    (Run (QuotaStep c) s es t → QuotaForgets c es t) := by
  refine ⟨fun h uid day => ?_, run_forgets h0⟩
  have hok : QuotaOk c t := by
    induction h with
    | nil => exact .initial h0 hlimit
    | snoc _ hstep ih =>
        obtain ⟨⟨a, ha⟩, hkeeps⟩ := hstep
        exact ih.step hlimit (quota_effect ha) hkeeps
  have hbound := hok.bound uid day
  omega

/-! ## Midnight -/

section

/-- One call a day. -/
def onceADay : QuotaConfig := ⟨1, 1, 120, fun text => text⟩

/-- A second before midnight. -/
def lateEvening : QuotaState where
  now := 86399000000000
  closing := false
  db := ⟨[], []⟩
  calls _ := none

def quotaAct (s : QuotaState) (a : QuotaAction) : QuotaEvent × QuotaState :=
  (a.perform onceADay s).getD (.other, s)

theorem quotaAct_step (s : QuotaState) (a : QuotaAction)
    (h : (a.perform onceADay s).isSome = true) :
    QuotaStep onceADay s (quotaAct s a).1 (quotaAct s a).2 := by
  obtain ⟨r, hr⟩ := Option.isSome_iff_exists.mp h
  have hact : quotaAct s a = r := by simp [quotaAct, hr]
  rw [hact]
  exact ⟨a, hr⟩

def keptAct (s : QuotaState) (a : QuotaAction) : Bool :=
  match a.perform onceADay s with
  | none => false
  | some (.saved k _, _) => (s.calls k).all fun call =>
      s.db.reservations.any fun r => decide (r.id = call.id) && decide (r.user = call.user) &&
        decide (r.command = .tldr) && decide (dayOf r.createdAt = dayOf (stored s.now))
  | some _ => true

theorem keptAct_step (s : QuotaState) (a : QuotaAction) (h : keptAct s a = true) :
    KeptQuotaStep onceADay s (quotaAct s a).1 (quotaAct s a).2 := by
  unfold keptAct at h
  split at h
  · cases h
  · rename_i k row t hstep
    refine ⟨quotaAct_step s a (by rw [hstep]; rfl), fun k' row' call he hcall _ => ?_⟩
    have hact : (quotaAct s a).1 = .saved k row := by simp [quotaAct, hstep]
    obtain ⟨rfl, -⟩ := QuotaEvent.saved.inj (hact.symm.trans he)
    rw [hcall] at h
    simpa [and_assoc] using h
  · rename_i r hne hstep
    refine ⟨quotaAct_step s a (by rw [hstep]; rfl), fun k row call he => ?_⟩
    have hact : quotaAct s a = r := by simp [quotaAct, hstep]
    rw [hact] at he
    exact absurd (Prod.ext he rfl : r = (.saved k row, r.2)) (hne k row r.2)

def oneCall : List QuotaAction := [.start 0 1 .tldr, .reserve 0 .done, .save 0 .done]

theorem oneCall_within_limit :
    (∀ uid day,
      ((play quotaAct lateEvening oneCall).2.db.okRows uid day : Int) ≤ onceADay.tldrLimit) ∧
    QuotaForgets onceADay (play quotaAct lateEvening oneCall).1
      (play quotaAct lateEvening oneCall).2 := by
  have hlimit := daily_limit onceADay lateEvening (play quotaAct lateEvening oneCall).2
    (play quotaAct lateEvening oneCall).1 ⟨rfl, rfl, fun _ => rfl⟩ (by decide)
  have hkept := play_run keptAct_step (by decide +kernel :
    allowed quotaAct keptAct lateEvening oneCall = true)
  exact ⟨hlimit.1 hkept, hlimit.2 (hkept.mono And.left)⟩

/-- A call of the evening is saved on the next day, and one of that day too. -/
def pastMidnight : List QuotaAction :=
  [.start 0 1 .tldr, .reserve 0 .done, .tick 86401000000000, .start 1 1 .tldr,
   .reserve 1 .done, .save 0 .done, .save 1 .done]

theorem midnight_exceeds_limit :
    ¬ ∀ (c : QuotaConfig) (s t : QuotaState) (es : List QuotaEvent), s.Initial →
      0 < c.tldrLimit → Run (QuotaStep c) s es t →
      ∀ uid day, (t.db.okRows uid day : Int) ≤ c.tldrLimit := by
  intro h
  have hrun := play_run quotaAct_step (by decide +kernel :
    allowed quotaAct (fun s a => (a.perform onceADay s).isSome) lateEvening pastMidnight = true)
  have hle := h onceADay lateEvening _ _ ⟨rfl, rfl, fun _ => rfl⟩ (by decide) hrun 1 1
  revert hle
  decide +kernel

end

end YoinkCore.Insight
