import YoinkCore.Lib.Window
import YoinkCore.Storage.Admitted

/-!
# Exact quotas

A charge counts in the minute, the hour and the day of its actor at once, or in none of
them. Each counter is an anchored window, so the limits hold in every window, and the
wait that is asked of a refused actor is neither too short nor a second too long.
-/

namespace YoinkCore.Storage

open Lib Domain

section

variable [Platform]

/-! ## Windows of an actor -/

/-- The stored counter as a window. -/
def Db.window (db : Db) (actor : Nat) (window : String) : Option Window :=
  (quotaGet db actor window).map fun r => ⟨r.count, r.resetAt⟩

/-- No stored count is negative. -/
def Db.CountsNonneg (db : Db) : Prop := ∀ r ∈ db.rateLimits.rows, 0 ≤ r.count

/-- The window is open and has no room. -/
def Db.Full (db : Db) (actor : Nat) (now : Int) (w : String × Nat × Nat) : Prop :=
  ∃ v, db.window actor w.1 = some v ∧ now < v.resetAt ∧ (w.2.2 : Int) ≤ v.count

/-- The window is open, or one that begins now ends at an instant that can be stored. -/
def Db.Anchored (db : Db) (actor : Nat) (now : Int) (w : String × Nat × Nat) : Prop :=
  (∃ v, db.window actor w.1 = some v ∧ now < v.resetAt) ∨ now + micros w.2.1 ≤ i64Max

variable {db db' : Db} {actor : Nat} {now : Int} {limits : QuotaLimits} {owner : Option Nat}

theorem Db.CountsNonneg.window (hn : db.CountsNonneg) {window : String} {v : Window}
    (h : db.window actor window = some v) : 0 ≤ v.count := by
  obtain ⟨r, hr, rfl⟩ := Option.map_eq_some_iff.mp h
  exact hn r (Table.mem_of_find hr)

variable {windows : List (String × Nat × Nat)} {w : String × Nat × Nat}
  {limit : QuotaLimits → Nat} {counters : List Counter} {c : Counter}

/-- The counter of a charge is the window the charge falls in. -/
theorem currentCounter_eq_ok (hn : db.CountsNonneg) {window : String} {secs : Nat} (limit : Nat) :
    currentCounter db actor now window secs = .ok c ↔
      db.Anchored actor now (window, secs, limit) ∧
        c = ⟨window, (Window.current (micros secs) (db.window actor window) now).count,
          (Window.current (micros secs) (db.window actor window) now).resetAt⟩ := by
  unfold currentCounter Db.Anchored Db.window Window.current
  cases hg : quotaGet db actor window with
  | none =>
      by_cases hfit : now + micros secs ≤ i64Max
      · simp [hfit, eq_comm]
      · simp [hfit]
  | some r =>
      have hr : ¬ r.count < 0 := Int.not_lt.mpr (hn r (Table.mem_of_find hg))
      by_cases hopen : now < r.resetAt
      · simp [hr, hopen, eq_comm]
      · by_cases hfit : now + micros secs ≤ i64Max
        · simp [hr, hopen, hfit, eq_comm]
        · simp [hr, hopen, hfit]

/-- A full window is the one a charge falls in. -/
theorem full_iff (hl : 0 < w.2.2) :
    db.Full actor now w ↔
      (w.2.2 : Int) ≤ (Window.current (micros w.2.1) (db.window actor w.1) now).count := by
  unfold Db.Full Window.current
  cases hv : db.window actor w.1 with
  | none =>
      simp
      omega
  | some v =>
      by_cases hopen : now < v.resetAt
      · simp [hopen]
      · simp [hopen]
        omega

omit [Platform] in
/-- The remainder of a full window lies between the whole seconds around its wait. -/
theorem waitSecs_of_full {limit wait : Nat} (hfull : (limit : Int) ≤ c.count)
    (hopen : now < c.resetAt) (h : waitSecs now limit c = .ok wait) :
    0 < wait ∧ c.resetAt - now ≤ micros wait ∧ micros wait < c.resetAt - now + micros 1 := by
  unfold waitSecs at h
  rw [if_pos hfull] at h
  split at h
  · cases h
    unfold micros
    omega
  · cases h

/-! ## Reading the counters -/

/-- What the counters of some windows say about a charge. -/
structure Reading (db : Db) (actor : Nat) (now : Int) (windows : List (String × Nat × Nat))
    (wait : Nat) : Prop where
  anchored : ∀ w ∈ windows, db.Anchored actor now w
  room : wait = 0 ↔ ∀ w ∈ windows, ¬ db.Full actor now w
  /-- Every full window has reset after the wait. -/
  enough : ∀ w ∈ windows, ∀ v, db.window actor w.1 = some v → db.Full actor now w →
    v.resetAt ≤ now + micros wait
  /-- Some full window has not, a second earlier. -/
  needed : 0 < wait → ∃ w ∈ windows, ∃ v, db.window actor w.1 = some v ∧
    db.Full actor now w ∧ now + micros wait < v.resetAt + micros 1

omit [Platform] in
theorem micros_le {a b : Nat} (h : a ≤ b) : micros a ≤ micros b := by
  unfold micros
  omega

/-- One window asks for a wait exactly when it is full. -/
theorem waitSecs_cases (hn : db.CountsNonneg) {window : String} {secs limit wait : Nat}
    (hl : 0 < limit) (hc : currentCounter db actor now window secs = .ok c)
    (hwait : waitSecs now limit c = .ok wait) :
    (db.Full actor now (window, secs, limit) ∧ ∃ v, db.window actor window = some v ∧
      0 < wait ∧ v.resetAt ≤ now + micros wait ∧ now + micros wait < v.resetAt + micros 1) ∨
      ¬ db.Full actor now (window, secs, limit) ∧ wait = 0 := by
  obtain ⟨-, rfl⟩ := (currentCounter_eq_ok hn limit).mp hc
  by_cases hfull : db.Full actor now (window, secs, limit)
  · obtain ⟨v, hv, hopen, hle⟩ := id hfull
    have hv : db.window actor window = some v := hv
    have hcur : Window.current (micros secs) (db.window actor window) now = v := by
      rw [hv]
      exact if_pos hopen
    rw [hcur] at hwait
    obtain ⟨hpos, hlow, hhigh⟩ := waitSecs_of_full hle hopen hwait
    dsimp only at hlow hhigh
    exact .inl ⟨hfull, v, hv, hpos, by omega, by omega⟩
  · refine .inr ⟨hfull, ?_⟩
    have hroom : ¬ (limit : Int) ≤
        (Window.current (micros secs) (db.window actor window) now).count :=
      fun h => hfull ((full_iff hl).mpr h)
    unfold waitSecs at hwait
    rw [if_neg hroom] at hwait
    cases hwait
    rfl

theorem readCounters_reading (hn : db.CountsNonneg) (hl : ∀ w ∈ windows, 0 < w.2.2) :
    ∀ {counters : List Counter} {wait : Nat},
      readCounters db actor now windows = .ok (counters, wait) →
        Reading db actor now windows wait := by
  induction windows with
  | nil =>
      intro counters wait h
      cases h
      exact ⟨by simp, by simp, by simp, fun h => absurd h (Nat.lt_irrefl 0)⟩
  | cons w windows ih =>
      obtain ⟨window, secs, limit⟩ := w
      intro counters wait h
      simp only [readCounters, Tx.result_bind_eq_ok] at h
      obtain ⟨c, hc, own, hwait, ⟨cs, longest⟩, hcs, h⟩ := h
      cases h
      have rest := ih (fun w hw => hl w (List.mem_cons_of_mem _ hw)) hcs
      have hcur := waitSecs_cases hn (hl _ List.mem_cons_self) hc hwait
      show Reading db actor now _ (max own longest)
      have hown : micros own ≤ micros (max own longest) := micros_le (Nat.le_max_left ..)
      have hlong : micros longest ≤ micros (max own longest) := micros_le (Nat.le_max_right ..)
      constructor
      · intro w hw
        rcases List.mem_cons.mp hw with rfl | hw
        · exact ((currentCounter_eq_ok hn _).mp hc).1
        · exact rest.anchored w hw
      · rw [List.forall_mem_cons, ← rest.room, Nat.max_eq_zero_iff]
        rcases hcur with ⟨hfull, v, -, hpos, -, -⟩ | ⟨hfull, h0⟩
        · simp [hfull, Nat.ne_of_gt hpos]
        · simp [hfull, h0]
      · intro w hw v hv hfull
        rcases List.mem_cons.mp hw with rfl | hw
        · rcases hcur with ⟨-, v', hv', -, henough, -⟩ | ⟨hn', -⟩
          · obtain rfl : v' = v := Option.some.inj (hv'.symm.trans hv)
            omega
          · exact absurd hfull hn'
        · have := rest.enough w hw v hv hfull
          omega
      · intro hpos
        rcases Nat.le_total longest own with hle | hle
        · rw [Nat.max_eq_left hle] at hpos ⊢
          rcases hcur with ⟨hfull, v, hv, -, -, hneeded⟩ | ⟨-, h0⟩
          · exact ⟨_, List.mem_cons_self, v, hv, hfull, hneeded⟩
          · omega
        · rw [Nat.max_eq_right hle] at hpos ⊢
          obtain ⟨w, hw, v, hv, hfull, hneeded⟩ := rest.needed hpos
          exact ⟨w, List.mem_cons_of_mem _ hw, v, hv, hfull, hneeded⟩

/-- Counters with room can be read. -/
theorem readCounters_ok (hn : db.CountsNonneg) {windows : List (String × Nat × Nat)}
    (hl : ∀ w ∈ windows, 0 < w.2.2)
    (h : ∀ w ∈ windows, db.Anchored actor now w ∧ ¬ db.Full actor now w) :
    ∃ counters, readCounters db actor now windows = .ok (counters, 0) ∧
      ∀ c ∈ counters, 0 ≤ c.count ∧ ∃ w ∈ windows, c.window = w.1 ∧ c.count < w.2.2 := by
  induction windows with
  | nil => exact ⟨[], rfl, by simp⟩
  | cons w windows ih =>
      obtain ⟨window, secs, limit⟩ := w
      obtain ⟨cs, hcs, hroom⟩ := ih (fun w hw => hl w (List.mem_cons_of_mem _ hw))
        fun w hw => h w (List.mem_cons_of_mem _ hw)
      obtain ⟨hanchored, hfull⟩ := h _ List.mem_cons_self
      have hcount := mt (full_iff (hl _ List.mem_cons_self)).mpr hfull
      obtain ⟨c, hc, hwindow, hpos, hlt⟩ :
          ∃ c, currentCounter db actor now window secs = .ok c ∧
            c.window = window ∧ 0 ≤ c.count ∧ c.count < limit :=
        ⟨_, (currentCounter_eq_ok hn _).mpr ⟨hanchored, rfl⟩, rfl,
          Window.current_nonneg fun v hv => hn.window hv, Int.not_le.mp hcount⟩
      have hwait : waitSecs now limit c = .ok 0 := if_neg (Int.not_le.mpr hlt)
      refine ⟨c :: cs, ?_, ?_⟩
      · exact Tx.result_bind_eq_ok.mpr ⟨c, hc, Tx.result_bind_eq_ok.mpr ⟨0, hwait,
          Tx.result_bind_eq_ok.mpr ⟨(cs, 0), hcs, rfl⟩⟩⟩
      · intro d hd
        rcases List.mem_cons.mp hd with rfl | hd
        · exact ⟨hpos, _, List.mem_cons_self, hwindow, hlt⟩
        · obtain ⟨hpos, w, hw, hdw⟩ := hroom d hd
          exact ⟨hpos, w, List.mem_cons_of_mem _ hw, hdw⟩

/-! ## One charge -/

theorem quotaPut_ok {window : String} {count resetAt : Int}
    (h : rateLimitSchema.check ⟨actor, window, count, resetAt⟩ = true) (db : Db) :
    ∃ db', quotaPut actor window count resetAt db = .ok ((), db') := by
  have hrow : Table.Replaces RateLimitRow.key (⟨actor, window, count, resetAt⟩ : RateLimitRow)
      fun r => { r with count, resetAt } := by
    refine ⟨fun _ => rfl, fun a ha => ?_⟩
    obtain ⟨user, name, _, _⟩ := a
    simp only [RateLimitRow.key, Prod.mk.injEq] at ha
    obtain ⟨rfl, rfl⟩ := ha
    rfl
  obtain ⟨rateLimits, hput⟩ := Table.upsert_of_check (T := db.rateLimits) rateLimitSchema_key
    (fun a b hab => by simpa [rateLimitSchema] using hab) hrow h
  refine ⟨{ db with rateLimits }, ?_⟩
  simp only [quotaPut, Tx.bind_eq_ok, Tx.get_eq_ok, write_eq_ok]
  exact ⟨db, db, ⟨rfl, rfl⟩, rateLimits, hput, rfl⟩

theorem chargeAll_ok (h : ∀ c ∈ counters,
      rateLimitSchema.check ⟨actor, c.window, c.count + 1, c.resetAt⟩ = true) :
    ∀ db : Db, ∃ db', chargeAll actor counters db = .ok ((), db') := by
  induction counters with
  | nil => exact fun db => ⟨db, rfl⟩
  | cons c counters ih =>
      intro db
      obtain ⟨db₁, hput⟩ := quotaPut_ok (h c List.mem_cons_self) db
      obtain ⟨db₂, hall⟩ := ih (fun d hd => h d (List.mem_cons_of_mem _ hd)) db₁
      exact ⟨db₂, Tx.bind_eq_ok.mpr ⟨(), db₁, hput, hall⟩⟩

theorem write_error {τ : Type} {table : Option τ} {put : τ → Db} {db : Db}
    {e : StoreError} (h : write table put db = .error e) : e = .database := by
  cases table with
  | none =>
      cases h
      rfl
  | some t => cases h

theorem chargeAll_error :
    ∀ {db : Db} {e : StoreError}, chargeAll actor counters db = .error e → e = .database := by
  induction counters with
  | nil =>
      intro db e h
      cases h
  | cons c counters ih =>
      intro db e h
      rcases Tx.bind_eq_error.mp h with hput | ⟨_, db₁, -, hall⟩
      · unfold quotaPut at hput
        rcases Tx.bind_eq_error.mp hput with hget | ⟨_, _, -, hw⟩
        · cases hget
        · exact write_error hw
      · exact ih hall

theorem readCounters_error :
    ∀ {e : StoreError}, readCounters db actor now windows = .error e →
      ∀ wait, e ≠ .quotaExceeded wait := by
  induction windows with
  | nil =>
      intro e h
      cases h
  | cons w windows ih =>
      obtain ⟨window, secs, limit⟩ := w
      intro e h wait
      unfold readCounters at h
      cases hc : currentCounter db actor now window secs with
      | error e' =>
          rw [hc] at h
          cases h
          unfold currentCounter at hc
          grind
      | ok c =>
          rw [hc] at h
          cases hw : waitSecs now limit c with
          | error e' =>
              change (waitSecs now limit c >>= _) = _ at h
              rw [hw] at h
              cases h
              unfold waitSecs at hw
              grind
          | ok own =>
              change (waitSecs now limit c >>= _) = _ at h
              rw [hw] at h
              cases hr : readCounters db actor now windows with
              | error e' =>
                  change (readCounters db actor now windows >>= _) = _ at h
                  rw [hr] at h
                  cases h
                  exact ih hr wait
              | ok r =>
                  change (readCounters db actor now windows >>= _) = _ at h
                  rw [hr] at h
                  cases h

/-- A charge to an actor other than the owner reads the counters, then writes them. -/
theorem charge_eq (hl : limits.validate = .ok ()) (ho : owner ≠ some actor) :
    charge actor limits owner now db =
      match readCounters db actor now (quotaWindows limits) with
      | .error e => .error e
      | .ok (counters, wait) =>
          if wait ≠ 0 then .error (.quotaExceeded wait) else chargeAll actor counters db := by
  have hlift : liftExcept limits.validate db = .ok ((), db) := by rw [hl]; rfl
  have hget : (get : Stmt Db) db = .ok (db, db) := rfl
  unfold charge
  rw [Tx.bind_of_ok hlift]
  simp only [if_neg ho]
  rw [Tx.bind_of_ok hget]
  cases hr : readCounters db actor now (quotaWindows limits) with
  | error e => rfl
  | ok r =>
      obtain ⟨counters, wait⟩ := r
      have hread : liftExcept (.ok (counters, wait)) db = .ok ((counters, wait), db) := rfl
      rw [Tx.bind_of_ok hread]
      dsimp only
      by_cases hw : wait = 0
      · rw [if_neg (not_not_intro hw), if_neg (not_not_intro hw)]
      · rw [if_pos hw, if_pos hw]
        rfl

omit [Platform] in
/-- Valid limits lie between one and a million. -/
theorem limits_of_validate (hl : limits.validate = .ok ()) :
    ∀ w ∈ quotaWindows limits, 0 < w.2.2 ∧ w.2.2 ≤ 1000000 := by
  simp only [QuotaLimits.validate, ensure_eq_ok, DownloaderSettings.within, List.all_cons,
    List.all_nil, Bool.and_eq_true, decide_eq_true_eq] at hl
  simp only [quotaWindows, List.forall_mem_cons]
  exact ⟨⟨by omega, by omega⟩, ⟨by omega, by omega⟩, ⟨by omega, by omega⟩, by simp⟩

omit [Platform] in
theorem quotaWindows_name (hw : w ∈ quotaWindows limits) : w.1.toList.length ≤ 16 := by
  simp only [quotaWindows, List.mem_cons, List.not_mem_nil, or_false] at hw
  rcases hw with rfl | rfl | rfl
  · exact (by decide : "minute".toList.length ≤ 16)
  · exact (by decide : "hour".toList.length ≤ 16)
  · exact (by decide : "day".toList.length ≤ 16)

/-- **When a charge succeeds.** Every window is open with room, or can begin now. -/
theorem charge_ok_iff (hl : limits.validate = .ok ()) (ho : owner ≠ some actor)
    (hn : db.CountsNonneg) :
    (∃ db', charge actor limits owner now db = .ok ((), db')) ↔
      ∀ w ∈ quotaWindows limits, db.Anchored actor now w ∧ ¬ db.Full actor now w := by
  have hpos : ∀ w ∈ quotaWindows limits, 0 < w.2.2 := fun w hw => (limits_of_validate hl w hw).1
  rw [charge_eq hl ho]
  constructor
  · rintro ⟨db', h⟩ w hw
    cases hr : readCounters db actor now (quotaWindows limits) with
    | error e =>
        rw [hr] at h
        cases h
    | ok r =>
        obtain ⟨counters, wait⟩ := r
        rw [hr] at h
        dsimp only at h
        have reading := readCounters_reading hn hpos hr
        by_cases h0 : wait = 0
        · exact ⟨reading.anchored w hw, reading.room.mp h0 w hw⟩
        · rw [if_pos h0] at h
          cases h
  · intro h
    obtain ⟨counters, hr, hroom⟩ := readCounters_ok hn hpos h
    rw [hr]
    refine chargeAll_ok (fun c hc => ?_) db
    obtain ⟨hcount, w, hw, hname, hlt⟩ := hroom c hc
    have hlimit := (limits_of_validate hl w hw).2
    have hmax : (i32Max : Int) = 2147483647 := rfl
    simp only [rateLimitSchema, Bool.and_eq_true, decide_eq_true_eq, hname, hmax]
    exact ⟨⟨quotaWindows_name hw, by omega⟩, by omega⟩

/-- A charge that goes through had valid limits. -/
theorem validate_of_charge (h : charge actor limits owner now db = .ok ((), db')) :
    limits.validate = .ok () := by
  simp only [charge, Tx.bind_eq_ok, liftExcept_eq_ok] at h
  obtain ⟨⟨⟩, _, ⟨hv, -⟩, -⟩ := h
  exact hv

/-- What a charge counts: one event in each window of the actor, nothing elsewhere. -/
theorem charge_counted (ho : owner ≠ some actor) (hn : db.CountsNonneg)
    (h : charge actor limits owner now db = .ok ((), db')) :
    (∀ w ∈ quotaWindows limits, db'.window actor w.1 =
      some (Window.current (micros w.2.1) (db.window actor w.1) now).counted) ∧
      ∀ user window, (user = actor → ∀ w ∈ quotaWindows limits, window ≠ w.1) →
        quotaGet db' user window = quotaGet db user window := by
  obtain ⟨rateLimits, rfl, -, hcharged⟩ := charge_of_ok h
  have once := hcharged ho
  constructor
  · intro w hw
    have hrate : (w.1, w.2.1) ∈ rateWindows := by
      simp only [quotaWindows, List.mem_cons, List.not_mem_nil, or_false] at hw
      rcases hw with rfl | rfl | rfl <;> simp [rateWindows]
    obtain ⟨c, hc, hget⟩ := once.counted _ hrate
    obtain ⟨-, rfl⟩ := (currentCounter_eq_ok hn 0).mp hc
    show (quotaGet _ actor w.1).map _ = _
    rw [hget]
    rfl
  · intro user window hout
    refine once.others user window fun hu w hw => ?_
    obtain ⟨limit, hmem⟩ : ∃ limit, (w.1, w.2, limit) ∈ quotaWindows limits := mem_quotaWindows hw
    exact hout hu _ hmem

/-- Charging keeps the counts from being negative. -/
theorem Db.CountsNonneg.charge (ho : owner ≠ some actor) (hn : db.CountsNonneg)
    (h : charge actor limits owner now db = .ok ((), db')) : db'.CountsNonneg := by
  intro r hr
  obtain ⟨hin, hout⟩ := charge_counted ho hn h
  have hget : quotaGet db' r.userId r.window = some r :=
    (Table.find_eq_some rateLimitSchema_key).mpr ⟨hr, rfl⟩
  by_cases hw : r.userId = actor ∧ ∃ w ∈ quotaWindows limits, r.window = w.1
  · obtain ⟨hu, w, hw, hname⟩ := hw
    have hwin := hin w hw
    rw [Db.window, ← hname, ← hu, hget] at hwin
    have hcount : r.count = (Window.current (micros w.2.1)
        (db.window r.userId r.window) now).count + 1 :=
      congrArg Window.count (Option.some.inj hwin)
    have hpos : 0 ≤ (Window.current (micros w.2.1)
        (db.window r.userId r.window) now).count :=
      Window.current_nonneg fun v hv => hn.window hv
    omega
  · rw [hout r.userId r.window fun hu w hmem hname => hw ⟨hu, w, hmem, hname⟩] at hget
    exact hn r (Table.mem_of_find hget)

/-! ## Sequences of charges -/

/-- A charge: whose, with which limits and when. -/
structure ChargeCall where
  actor : Nat
  limits : QuotaLimits
  now : Int

/-- A charge in a transaction of its own. -/
def chargeCall (owner : Option Nat) (db : Db) (c : ChargeCall) : Except StoreError Unit × Db :=
  Tx.auto (charge c.actor c.limits owner c.now) db

/-- What a sequence of charges leaves. -/
def charged (owner : Option Nat) (db : Db) (calls : List ChargeCall) : Db :=
  calls.foldl (fun db c => (chargeCall owner db c).2) db

/-- The accepted charges of an actor, each with the limit it met in one of the windows and
the end of the anchored window it counts in. -/
def acceptedIn (owner : Option Nat) (actor : Nat) (window : String) (secs : Nat)
    (limit : QuotaLimits → Nat) : Db → List ChargeCall → List Window.Event
  | _, [] => []
  | db, c :: calls =>
      let rest := acceptedIn owner actor window secs limit (chargeCall owner db c).2 calls
      if c.actor = actor ∧ (chargeCall owner db c).1.isOk then
        ⟨c.now, limit c.limits,
          (Window.current (micros secs) (db.window actor window) c.now).resetAt⟩ :: rest
      else rest

variable {c : ChargeCall} {calls : List ChargeCall}

/-- A charge is refused and changes nothing, or goes through. -/
theorem chargeCall_cases (owner : Option Nat) (db : Db) (c : ChargeCall) :
    (∃ e, charge c.actor c.limits owner c.now db = .error e ∧
        chargeCall owner db c = (.error e, db)) ∨
      ∃ db', charge c.actor c.limits owner c.now db = .ok ((), db') ∧
        chargeCall owner db c = (.ok (), db') := by
  unfold chargeCall
  rw [Tx.auto_eq]
  cases charge c.actor c.limits owner c.now db with
  | error e => exact .inl ⟨e, rfl, rfl⟩
  | ok p => exact .inr ⟨p.2, rfl, rfl⟩

theorem chargeCall_ok :
    (chargeCall owner db c).1 = .ok () ↔
      ∃ db', charge c.actor c.limits owner c.now db = .ok ((), db') := by
  rcases chargeCall_cases owner db c with ⟨e, hcharge, hcall⟩ | ⟨db', hcharge, hcall⟩
  · simp [hcharge, hcall]
  · simp [hcharge, hcall]

theorem charge_owner (h : charge actor limits (some actor) now db = .ok ((), db')) :
    db' = db := by
  obtain ⟨rateLimits, rfl, hspared, -⟩ := charge_of_ok h
  rw [hspared rfl]

theorem Db.CountsNonneg.chargeCall (hn : db.CountsNonneg) :
    (chargeCall owner db c).2.CountsNonneg := by
  rcases chargeCall_cases owner db c with ⟨e, -, hcall⟩ | ⟨db', hcharge, hcall⟩
  · rw [hcall]
    exact hn
  · rw [hcall]
    by_cases ho : owner = some c.actor
    · subst ho
      rw [charge_owner hcharge]
      exact hn
    · exact hn.charge ho hcharge

theorem Db.CountsNonneg.charged (hn : db.CountsNonneg) :
    (charged owner db calls).CountsNonneg := by
  induction calls generalizing db with
  | nil => exact hn
  | cons c calls ih => exact ih hn.chargeCall

/-- The charges of one actor leave the windows of another. -/
theorem window_chargeCall (hne : c.actor ≠ actor) (hn : db.CountsNonneg) (window : String) :
    (chargeCall owner db c).2.window actor window = db.window actor window := by
  rcases chargeCall_cases owner db c with ⟨e, -, hcall⟩ | ⟨db', hcharge, hcall⟩
  · rw [hcall]
  · rw [hcall]
    by_cases ho : owner = some c.actor
    · subst ho
      rw [charge_owner hcharge]
    · unfold Db.window
      rw [(charge_counted ho hn hcharge).2 actor window fun h => absurd h.symm hne]

theorem window_charged (hn : db.CountsNonneg) (hne : ∀ c ∈ calls, c.actor ≠ actor)
    (window : String) : (charged owner db calls).window actor window = db.window actor window := by
  induction calls generalizing db with
  | nil => rfl
  | cons c calls ih =>
      refine (ih hn.chargeCall fun d hd => hne d (List.mem_cons_of_mem _ hd)).trans ?_
      exact window_chargeCall (hne c List.mem_cons_self) hn window

/-- A window of an actor goes through a sequence of charges by accepting events. -/
theorem acceptedIn_run (ho : owner ≠ some actor) {window : String} {secs : Nat}
    (hw : ∀ limits, (window, secs, limit limits) ∈ quotaWindows limits) (hn : db.CountsNonneg) :
    Run (Window.Accepts (micros secs)) (db.window actor window)
      (acceptedIn owner actor window secs limit db calls)
      ((charged owner db calls).window actor window) := by
  induction calls generalizing db with
  | nil => exact .nil
  | cons c calls ih =>
      have rest := @ih (chargeCall owner db c).2 hn.chargeCall
      unfold acceptedIn
      by_cases hc : c.actor = actor ∧ (chargeCall owner db c).1.isOk
      · rw [if_pos hc]
        refine Run.append (Run.single (e := ⟨c.now, limit c.limits, _⟩) ?_) rest
        obtain ⟨rfl, hok⟩ := hc
        rcases chargeCall_cases owner db c with ⟨e, -, hcall⟩ | ⟨db', hcharge, hcall⟩
        · rw [hcall] at hok
          cases hok
        · have hl := validate_of_charge hcharge
          have hroom := ((charge_ok_iff hl ho hn).mp ⟨db', hcharge⟩ _ (hw c.limits)).2
          rw [hcall, (charge_counted ho hn hcharge).1 _ (hw c.limits)]
          refine Window.Accepts.intro (Int.not_le.mp fun hfull => hroom ?_)
          exact (full_iff (limits_of_validate hl _ (hw c.limits)).1).mpr hfull
      · rw [if_neg hc]
        have hsame : (chargeCall owner db c).2.window actor window = db.window actor window := by
          rcases chargeCall_cases owner db c with ⟨e, -, hcall⟩ | ⟨db', hcharge, hcall⟩
          · rw [hcall]
          · refine window_chargeCall (fun ha => hc ⟨ha, ?_⟩) hn window
            rw [hcall]
            rfl
        rw [hsame] at rest
        exact rest

theorem limit_of_mem_acceptedIn {window : String} {secs : Nat} {bound : Nat}
    (h : ∀ c ∈ calls, c.actor = actor → limit c.limits ≤ bound) :
    ∀ e ∈ acceptedIn owner actor window secs limit db calls, e.limit ≤ bound := by
  induction calls generalizing db with
  | nil => simp [acceptedIn]
  | cons c calls ih =>
      have rest := @ih (chargeCall owner db c).2
        fun d hd => h d (List.mem_cons_of_mem _ hd)
      unfold acceptedIn
      by_cases hc : c.actor = actor ∧ (chargeCall owner db c).1.isOk
      · rw [if_pos hc]
        intro e he
        rcases List.mem_cons.mp he with rfl | he
        · have := h c List.mem_cons_self hc.1
          show (limit c.limits : Int) ≤ bound
          omega
        · exact rest e he
      · rw [if_neg hc]
        exact rest

/-- What a refusal for lack of room says. -/
theorem reading_of_refused (hl : limits.validate = .ok ()) (ho : owner ≠ some actor)
    (hn : db.CountsNonneg) {wait : Nat}
    (h : charge actor limits owner now db = .error (.quotaExceeded wait)) :
    0 < wait ∧ Reading db actor now (quotaWindows limits) wait := by
  rw [charge_eq hl ho] at h
  cases hr : readCounters db actor now (quotaWindows limits) with
  | error e =>
      rw [hr] at h
      cases h
      exact absurd rfl (readCounters_error hr wait)
  | ok r =>
      obtain ⟨counters, longest⟩ := r
      rw [hr] at h
      dsimp only at h
      by_cases h0 : longest = 0
      · rw [if_neg (not_not_intro h0)] at h
        cases chargeAll_error h
      · rw [if_pos h0] at h
        cases h
        exact ⟨Nat.pos_of_ne_zero h0,
          readCounters_reading hn (fun w hw => (limits_of_validate hl w hw).1) hr⟩

/-- **The wait is exact.** After it no window is full; a second earlier one still is. -/
theorem Reading.retry {wait : Nat} (h : Reading db actor now windows wait) (hpos : 0 < wait)
    {u : Db} (hu : ∀ window, u.window actor window = db.window actor window) (later : Int) :
    (now + micros wait ≤ later → ∀ w ∈ windows, ¬ u.Full actor later w) ∧
      (later + micros 1 ≤ now + micros wait → ∃ w ∈ windows, u.Full actor later w) := by
  constructor
  · rintro hlater w hw ⟨v, hv, hopen, hle⟩
    rw [hu] at hv
    have hwait : (0 : Int) ≤ micros wait := micros_le (Nat.zero_le wait)
    have := h.enough w hw v hv ⟨v, hv, by omega, hle⟩
    omega
  · intro hlater
    obtain ⟨w, hw, v, hv, ⟨v', hv', -, hle⟩, hneeded⟩ := h.needed hpos
    obtain rfl : v' = v := Option.some.inj (hv'.symm.trans hv)
    exact ⟨w, hw, v', by rw [hu]; exact hv, by omega, hle⟩

/-- **Quotas are exact.** After any sequence of charges by any actors, a charge to an actor
other than the owner goes through exactly when none of the windows is full and each of them
is open or can begin. It counts once in each window of the actor and in no other; refused,
it changes nothing. No window accepts more charges than the limits it met. The wait asked of
a refused actor is long enough, and a second less is too short. -/
theorem quotas_exact (ho : owner ≠ some actor) (hn : db.CountsNonneg)
    (calls : List ChargeCall) :
    let t := charged owner db calls
    (∀ limits now, limits.validate = .ok () →
      ((chargeCall owner t ⟨actor, limits, now⟩).1 = .ok () ↔
        ∀ w ∈ quotaWindows limits, t.Anchored actor now w ∧ ¬ t.Full actor now w)) ∧
    (∀ limits now, (chargeCall owner t ⟨actor, limits, now⟩).1 ≠ .ok () →
      (chargeCall owner t ⟨actor, limits, now⟩).2 = t) ∧
    (∀ limits now u, chargeCall owner t ⟨actor, limits, now⟩ = (.ok (), u) →
      (∀ w ∈ quotaWindows limits, u.window actor w.1 =
        some (Window.current (micros w.2.1) (t.window actor w.1) now).counted) ∧
      ∀ user window, (user = actor → ∀ w ∈ quotaWindows limits, window ≠ w.1) →
        quotaGet u user window = quotaGet t user window) ∧
    (∀ window secs limit, (∀ limits, (window, secs, limit limits) ∈ quotaWindows limits) →
      ∀ bound : Nat, (∀ c ∈ calls, c.actor = actor → limit c.limits ≤ bound) →
        ∀ resetAt, Window.countIn (acceptedIn owner actor window secs limit db calls) resetAt ≤
          bound) ∧
    ∀ limits now wait, limits.validate = .ok () →
      (chargeCall owner t ⟨actor, limits, now⟩).1 = .error (.quotaExceeded wait) →
      ∀ others : List ChargeCall, (∀ c ∈ others, c.actor ≠ actor) → ∀ later,
        let u := charged owner t others
        (now + micros wait ≤ later →
          ((chargeCall owner u ⟨actor, limits, later⟩).1 = .ok () ↔
            ∀ w ∈ quotaWindows limits, u.Anchored actor later w)) ∧
        (later + micros 1 ≤ now + micros wait →
          (chargeCall owner u ⟨actor, limits, later⟩).1 ≠ .ok ()) := by
  intro t
  have ht : t.CountsNonneg := hn.charged
  refine ⟨fun limits now hl => ?_, fun limits now hrefused => ?_, fun limits now u hcall => ?_,
    fun window secs limit hw bound hbound resetAt => ?_,
    fun limits now wait hl hwait others hothers later => ?_⟩
  · rw [chargeCall_ok, charge_ok_iff hl ho ht]
  · rcases chargeCall_cases owner t ⟨actor, limits, now⟩ with ⟨e, -, hcall⟩ | ⟨db', -, hcall⟩
    · rw [hcall]
    · rw [hcall] at hrefused
      exact absurd rfl hrefused
  · obtain ⟨db', hcharge⟩ := chargeCall_ok.mp (congrArg Prod.fst hcall)
    rcases chargeCall_cases owner t ⟨actor, limits, now⟩ with ⟨e, -, hc⟩ | ⟨v, hv, hc⟩
    · rw [hcall] at hc
      cases hc
    · obtain rfl : u = v := congrArg Prod.snd (hcall.symm.trans hc)
      exact charge_counted ho ht hv
  -- the bound of one window, over all its charges
  · have hpos : (0 : Int) < micros secs := by
      have := hw {}
      simp only [quotaWindows, List.mem_cons, Prod.mk.injEq, List.not_mem_nil, or_false] at this
      unfold micros
      omega
    have hle : (_ : Int) ≤ bound := Window.countIn_le hpos (acceptedIn_run ho hw hn) (by omega)
      (fun v hv => hn.window hv) (limit_of_mem_acceptedIn hbound) resetAt
    omega
  · intro u
    have hu : u.CountsNonneg := ht.charged
    have hsame : ∀ window, u.window actor window = t.window actor window :=
      window_charged ht hothers
    obtain ⟨e, hcharge, hcall⟩ | ⟨db', -, hcall⟩ := chargeCall_cases owner t ⟨actor, limits, now⟩
    · rw [hcall] at hwait
      cases hwait
      obtain ⟨hpos, reading⟩ := reading_of_refused hl ho ht hcharge
      -- charges of others leave the windows of the actor as they are
      obtain ⟨henough, hneeded⟩ := reading.retry hpos hsame later
      have hiff : (chargeCall owner u ⟨actor, limits, later⟩).1 = .ok () ↔
          ∀ w ∈ quotaWindows limits, u.Anchored actor later w ∧ ¬ u.Full actor later w :=
        chargeCall_ok.trans (charge_ok_iff hl ho hu)
      rw [hiff]
      constructor
      · intro hlater
        exact ⟨fun h w hw => (h w hw).1, fun h w hw => ⟨h w hw, henough hlater w hw⟩⟩
      · intro hlater hok
        obtain ⟨w, hw, hfull⟩ := hneeded hlater
        exact (hiff.mp hok w hw).2 hfull
    · rw [hcall] at hwait
      cases hwait

end

section

attribute [local instance] Scenario.platform

/-- The rules hold of a fresh database and a sequence of charges by two actors. -/
theorem quotas_exact_fresh :
    let calls : List ChargeCall := [⟨1, {}, 0⟩, ⟨2, {}, 5⟩, ⟨1, { minute := 1 }, 7⟩]
    (chargeCall none (charged none Db.empty calls) ⟨1, { minute := 1 }, 8⟩).1 ≠ .ok () ∧
      (chargeCall none (charged none Db.empty calls) ⟨1, { minute := 1 }, 8⟩).2 =
        charged none Db.empty calls := by
  have h : (chargeCall none (charged none Db.empty
      [⟨1, {}, 0⟩, ⟨2, {}, 5⟩, ⟨1, { minute := 1 }, 7⟩]) ⟨1, { minute := 1 }, 8⟩).1.isOk = false :=
    by decide +kernel
  have hne : (chargeCall none (charged none Db.empty
      [⟨1, {}, 0⟩, ⟨2, {}, 5⟩, ⟨1, { minute := 1 }, 7⟩]) ⟨1, { minute := 1 }, 8⟩).1 ≠ .ok () :=
    fun hok => by rw [hok] at h; cases h
  have hn : Db.empty.CountsNonneg := by simp [Db.CountsNonneg, Db.empty, Table.empty]
  have ho : (none : Option Nat) ≠ some 1 := (Option.some_ne_none 1).symm
  exact ⟨hne, (quotas_exact ho hn _).2.1 _ _ hne⟩

/-- At the last instant no window can begin: a charge is refused though none is open. -/
theorem charge_refused_at_end :
    ({} : QuotaLimits).validate = .ok () ∧ Db.empty.CountsNonneg ∧
      (∀ w ∈ quotaWindows {}, ¬ Db.empty.Full 1 i64Max w) ∧
      (chargeCall none Db.empty ⟨1, {}, i64Max⟩).1 = .error .invalidInput := by
  refine ⟨rfl, by simp [Db.CountsNonneg, Db.empty, Table.empty], ?_, rfl⟩
  rintro w - ⟨v, hv, -⟩
  cases hv

end

end YoinkCore.Storage
