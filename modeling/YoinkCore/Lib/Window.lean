import YoinkCore.Lib.Run

/-!
# Anchored windows

A limiter counts events in windows of a fixed length. A window is anchored at the first
event after the one before it has ended, and stays open until it resets. An event is
accepted while its window has room. However the instants and the limits vary, no window
accepts more events than the largest limit.
-/

namespace YoinkCore.Lib

/-- The window in use. -/
structure Window where
  count : Int
  resetAt : Int
deriving DecidableEq

namespace Window

/-- The window of an event: the one in use while it is open, else a new one. -/
def current (length : Int) (w : Option Window) (now : Int) : Window :=
  match w with
  | some w => if now < w.resetAt then w else ⟨0, now + length⟩
  | none => ⟨0, now + length⟩

theorem current_nonneg {length : Int} {w : Option Window} {now : Int}
    (h : ∀ v, w = some v → 0 ≤ v.count) : 0 ≤ (current length w now).count := by
  unfold current
  cases w with
  | none => exact Int.le_refl 0
  | some v =>
      dsimp only
      split
      · exact h v rfl
      · exact Int.le_refl 0

/-- The window of an event is open. -/
theorem lt_current {length : Int} (hlength : 0 < length) (w : Option Window) (now : Int) :
    now < (current length w now).resetAt := by
  unfold current
  cases w with
  | none => exact Int.lt_add_of_pos_right now hlength
  | some v =>
      dsimp only
      split
      · assumption
      · exact Int.lt_add_of_pos_right now hlength

/-- One event more. -/
def counted (w : Window) : Window := { w with count := w.count + 1 }

@[simp] theorem counted_count (w : Window) : w.counted.count = w.count + 1 := rfl

@[simp] theorem counted_resetAt (w : Window) : w.counted.resetAt = w.resetAt := rfl

/-- An accepted event: its instant, the limit it met and the end of its window. -/
structure Event where
  now : Int
  limit : Int
  resetAt : Int

/-- Accept an event into a window with room. -/
inductive Accepts (length : Int) : Option Window → Event → Option Window → Prop
  | intro {w : Option Window} {now limit : Int} (room : (current length w now).count < limit) :
      Accepts length w ⟨now, limit, (current length w now).resetAt⟩
        (some (current length w now).counted)

/-- The events of the window that resets at an instant. -/
def countIn (es : List Event) (resetAt : Int) : Nat :=
  es.countP fun e => decide (e.resetAt = resetAt)

theorem countIn_snoc (es : List Event) (e : Event) (resetAt : Int) :
    countIn (es ++ [e]) resetAt = countIn es resetAt + if e.resetAt = resetAt then 1 else 0 := by
  rw [countIn, countIn, List.countP_append, List.countP_singleton]
  simp only [decide_eq_true_eq]

/-- What has been accepted, against a bound on the limits: nothing beyond the bound, in
the window in use no more than it has counted, and nothing in a later window. -/
structure Counts (bound : Int) (es : List Event) (w : Option Window) : Prop where
  bounded : ∀ r, (countIn es r : Int) ≤ bound
  used : ∀ v ∈ w, (countIn es v.resetAt : Int) ≤ v.count
  later : ∀ r, (∀ v ∈ w, v.resetAt < r) → countIn es r = 0

variable {length bound : Int} {w u : Option Window} {es : List Event}

theorem Counts.nil (hb : 0 ≤ bound) (hw : ∀ v ∈ w, 0 ≤ v.count) : Counts bound [] w :=
  ⟨fun _ => hb, hw, fun _ _ => rfl⟩

/-- An event that is not accepted may still open a window. -/
theorem Counts.renewed (hlength : 0 < length) (h : Counts bound es w) (now : Int) :
    Counts bound es (some (current length w now)) := by
  -- The window is the one in use, or one no event has counted in.
  have hcount : (countIn es (current length w now).resetAt : Int) ≤
      (current length w now).count ∧ ∀ v ∈ w, v.resetAt ≤ (current length w now).resetAt := by
    cases hw : w with
    | none =>
        have := h.later (now + length) (by simp [hw])
        simp [current, this]
    | some v =>
        unfold current
        dsimp only
        split
        · refine ⟨h.used v (by rw [hw]; rfl), ?_⟩
          rintro _ ⟨⟩
          exact Int.le_refl _
        · rename_i hopen
          have := h.later (now + length) (by rw [hw]; rintro _ ⟨⟩; omega)
          refine ⟨by simp [this], ?_⟩
          rintro _ ⟨⟩
          show v.resetAt ≤ now + length
          omega
  refine ⟨h.bounded, ?_, fun r hr => ?_⟩
  · rintro _ ⟨⟩
    exact hcount.1
  · have hr : (current length w now).resetAt < r := hr _ rfl
    exact h.later r fun v hv => Int.lt_of_le_of_lt (hcount.2 v hv) hr

/-- An event is counted in a window with room. -/
theorem Counts.counted {v : Window} (h : Counts bound es (some v)) {now limit : Int}
    (room : v.count < limit) (hlimit : limit ≤ bound) :
    Counts bound (es ++ [⟨now, limit, v.resetAt⟩]) (some v.counted) := by
  have hused : (countIn es v.resetAt : Int) ≤ v.count := h.used v rfl
  refine ⟨fun r => ?_, ?_, fun r hr => ?_⟩
  · rw [countIn_snoc]
    have := h.bounded r
    split
    · rename_i hr
      have hr : v.resetAt = r := hr
      subst hr
      push_cast
      omega
    · simpa using this
  · rintro _ ⟨⟩
    rw [countIn_snoc, counted_resetAt, counted_count, if_pos rfl]
    push_cast
    omega
  · have hr : v.counted.resetAt < r := hr _ rfl
    rw [counted_resetAt] at hr
    rw [countIn_snoc, h.later r fun u hu => by cases hu; exact hr]
    show 0 + (if v.resetAt = r then 1 else 0) = 0
    rw [if_neg (Int.ne_of_lt hr)]

/-- Accepting an event keeps the bound. -/
theorem Counts.accepts (hlength : 0 < length) (h : Counts bound es w) {e : Event}
    (ha : Accepts length w e u) (he : e.limit ≤ bound) : Counts bound (es ++ [e]) u := by
  obtain ⟨room⟩ := ha
  exact (h.renewed hlength _).counted room he

/-- **Run lemma.** No window accepts more events than the largest limit. -/
theorem countIn_le (hlength : 0 < length) (h : Run (Accepts length) w es u)
    (hb : 0 ≤ bound) (hw : ∀ v ∈ w, 0 ≤ v.count) (hes : ∀ e ∈ es, e.limit ≤ bound) (r : Int) :
    (countIn es r : Int) ≤ bound := by
  suffices hc : Counts bound es u from hc.bounded r
  induction h with
  | nil => exact .nil hb hw
  | snoc _ hstep ih =>
      refine (ih fun e he => hes e (List.mem_append_left _ he)).accepts hlength hstep ?_
      exact hes _ (List.mem_append_right _ (List.mem_singleton_self _))

/-! ## Any interval as long as a window -/

/-- Events lie in their windows, and windows do not overlap each other or the one in use. -/
structure Placed (length : Int) (es : List Event) (w : Window) : Prop where
  inside : ∀ e ∈ es, e.resetAt - length ≤ e.now ∧ e.now < e.resetAt
  apart : ∀ e ∈ es, ∀ f ∈ es, e.resetAt < f.resetAt → e.resetAt + length ≤ f.resetAt
  before : ∀ e ∈ es, e.resetAt = w.resetAt ∨ e.resetAt + length ≤ w.resetAt

variable {v : Window}

theorem Placed.nil (length : Int) (w : Window) : Placed length [] w :=
  ⟨fun _ h => (nomatch h), fun _ h => (nomatch h), fun _ h => (nomatch h)⟩

theorem Placed.renewed (hlength : 0 < length) (h : Placed length es v) (now : Int) :
    Placed length es (current length (some v) now) := by
  refine ⟨h.inside, h.apart, fun e he => ?_⟩
  have hbefore := h.before e he
  by_cases hopen : now < v.resetAt
  · rw [current, if_pos hopen]
    exact hbefore
  · rw [current, if_neg hopen]
    refine .inr ?_
    show e.resetAt + length ≤ now + length
    rcases hbefore with heq | hle <;> omega

theorem Placed.counted (h : Placed length es v) {now limit : Int}
    (hstart : v.resetAt - length ≤ now) (hend : now < v.resetAt) :
    Placed length (es ++ [⟨now, limit, v.resetAt⟩]) v.counted := by
  constructor
  · intro e he
    rcases List.mem_append.mp he with he | he
    · exact h.inside e he
    · rw [List.mem_singleton.mp he]
      exact ⟨hstart, hend⟩
  · intro e he f hf hlt
    rcases List.mem_append.mp he with he | he <;> rcases List.mem_append.mp hf with hf | hf
    · exact h.apart e he f hf hlt
    · rw [List.mem_singleton.mp hf] at hlt ⊢
      rcases h.before e he with heq | hle
      · exact absurd heq (Int.ne_of_lt hlt)
      · exact hle
    · rw [List.mem_singleton.mp he] at hlt
      have hlt : v.resetAt < f.resetAt := hlt
      rcases h.before f hf with heq | hle <;> omega
    · rw [List.mem_singleton.mp he, List.mem_singleton.mp hf] at hlt
      exact absurd hlt (Int.lt_irrefl _)
  · intro e he
    rcases List.mem_append.mp he with he | he
    · exact h.before e he
    · rw [List.mem_singleton.mp he]
      exact .inl rfl

/-- The events of an interval with both ends. -/
def countWithin (length : Int) (es : List Event) (x : Int) : Nat :=
  es.countP fun e => decide (x ≤ e.now) && decide (e.now ≤ x + length)

/-- The events whose windows reset in a band as long as a window. -/
def countBand (length : Int) (es : List Event) (x : Int) : Nat :=
  es.countP fun e => decide (x < e.resetAt) && decide (e.resetAt ≤ x + length)

/-- All of them are in one window. -/
theorem Placed.countBand_le (h : Placed length es v) (hb : ∀ r, (countIn es r : Int) ≤ bound)
    (x : Int) : (countBand length es x : Int) ≤ bound := by
  by_cases hany : ∃ e ∈ es, x < e.resetAt ∧ e.resetAt ≤ x + length
  · obtain ⟨e, he, hlow, hhigh⟩ := hany
    refine Int.le_trans (Int.ofNat_le.mpr ?_) (hb e.resetAt)
    refine List.countP_mono_left fun f hf hband => ?_
    simp only [Bool.and_eq_true, decide_eq_true_eq] at hband ⊢
    rcases Int.lt_trichotomy e.resetAt f.resetAt with hlt | heq | hlt
    · have := h.apart e he f hf hlt
      omega
    · exact heq.symm
    · have := h.apart f hf e he hlt
      omega
  · have hnone : countBand length es x = 0 := by
      refine List.countP_eq_zero.mpr fun e he hband => hany ⟨e, he, ?_⟩
      simpa only [Bool.and_eq_true, decide_eq_true_eq] using hband
    rw [hnone]
    exact Int.le_trans (Int.natCast_nonneg _) (hb 0)

theorem countP_le_add {α : Type} {p q r : α → Bool} {l : List α}
    (h : ∀ a ∈ l, p a = true → q a = true ∨ r a = true) :
    l.countP p ≤ l.countP q + l.countP r := by
  induction l with
  | nil => exact Nat.le_refl 0
  | cons a l ih =>
      have hl := ih fun b hb => h b (List.mem_cons_of_mem _ hb)
      have ha := h a List.mem_cons_self
      rw [List.countP_cons, List.countP_cons, List.countP_cons]
      by_cases hp : p a = true
      · rcases ha hp with hq | hr
        · rw [if_pos hp, if_pos hq]
          omega
        · rw [if_pos hp, if_pos hr]
          omega
      · rw [if_neg hp]
        omega

/-- **An interval as long as a window meets at most two windows.** -/
theorem Placed.countWithin_le (h : Placed length es v) (hb : ∀ r, (countIn es r : Int) ≤ bound)
    (x : Int) : (countWithin length es x : Int) ≤ 2 * bound := by
  have hsplit : countWithin length es x ≤
      countBand length es x + countBand length es (x + length) := by
    refine countP_le_add fun e he hwithin => ?_
    have hinside := h.inside e he
    simp only [Bool.and_eq_true, decide_eq_true_eq] at hwithin ⊢
    omega
  have hfirst := h.countBand_le hb x
  have hsecond := h.countBand_le hb (x + length)
  omega

end Window

end YoinkCore.Lib
