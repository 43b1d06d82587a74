import Mathlib

/-!
# Leases

Work is added to be taken from some time on. It is taken under a token up to a bound in
time, and released before it by the one who took it; once the bound has passed the work may
be taken again. A release ends the work, or leaves it to be taken again from some time on.
The log tells what was added and who took and who released it; every entry is as its own
events left it.
-/

namespace YoinkCore.Lib.Leasing

/-- How work is released. An attempt that does not count is given back. -/
inductive Release where
  | over
  | again (counts : Bool) (since : Int)
deriving DecidableEq

inductive Phase (τ : Type) where
  | waiting (since : Int)
  | held (token : τ) (bound : Int)
  | over

inductive Event (κ τ : Type) where
  | added (item : κ) (since : Int)
  | taken (item : κ) (token : τ) (now bound : Int)
  | released (item : κ) (token : τ) (now : Int) (how : Release)

structure Entry (κ τ : Type) where
  item : κ
  attempts : Int
  phase : Phase τ

variable {κ τ : Type}

def Phase.freeAt (now : Int) : Phase τ → Prop
  | .waiting since => since ≤ now
  | .held _ bound => bound ≤ now
  | .over => False

def Release.phase : Release → Phase τ
  | .over => .over
  | .again _ since => .waiting since

namespace Event

def item : Event κ τ → κ
  | .added i _ => i
  | .taken i .. => i
  | .released i .. => i

/-- What the event leaves behind. -/
def phase : Event κ τ → Phase τ
  | .added _ since => .waiting since
  | .taken _ token _ bound => .held token bound
  | .released _ _ _ how => how.phase

def takes [DecidableEq τ] (token : τ) : Event κ τ → Bool
  | .taken _ t _ _ => t = token
  | _ => false

def releases [DecidableEq τ] (token : τ) : Event κ τ → Bool
  | .released _ t _ _ => t = token
  | _ => false

/-- What the event adds to the attempts. -/
def counted : Event κ τ → Int
  | .taken .. => 1
  | .released _ _ _ (.again false _) => -1
  | _ => 0

end Event

/-! ## Histories -/

/-- The events of one piece of work. It is taken when its last event has left it free, and a
release follows the taking it belongs to, in time. -/
inductive History : List (Event κ τ) → Prop
  | new : History []
  | added (item : κ) (since : Int) : History [.added item since]
  | taken {es : List (Event κ τ)} {last : Event κ τ} (item : κ) (token : τ) (now bound : Int)
      (h : History (es ++ [last])) (free : last.phase.freeAt now) :
      History (es ++ [last] ++ [.taken item token now bound])
  | released {es : List (Event κ τ)} {item : κ} {token : τ} {since bound : Int} (now : Int)
      (how : Release) (h : History (es ++ [.taken item token since bound])) (live : now < bound) :
      History (es ++ [.taken item token since bound] ++ [.released item token now how])

/-- What comes before the last taking. -/
theorem History.before {es : List (Event κ τ)} {item : κ} {token : τ} {since bound : Int}
    (h : History (es ++ [.taken item token since bound])) : History es := by
  generalize hes : es ++ [Event.taken item token since bound] = all at h
  cases h with
  | new => simp at hes
  | added =>
      have hlast := congrArg List.getLast? hes
      rw [List.getLast?_concat] at hlast
      cases hlast
  | taken _ _ _ _ h =>
      obtain ⟨rfl, -⟩ := List.append_inj' hes rfl
      exact h
  | released =>
      obtain ⟨-, hlast⟩ := List.append_inj' hes rfl
      cases hlast

/-- A token releases no more often than it takes. -/
theorem History.releases_le [DecidableEq τ] {es : List (Event κ τ)} (h : History es) (token : τ) :
    es.countP (·.releases token) ≤ es.countP (·.takes token) := by
  suffices hall : ∀ n, ∀ es : List (Event κ τ), es.length = n → History es →
      es.countP (·.releases token) ≤ es.countP (·.takes token) from hall _ es rfl h
  intro n
  -- A release goes back over its taking, to the events before both.
  induction n using Nat.strong_induction_on with
  | _ n ih =>
      intro es hn h
      cases h with
      | new => exact Nat.le_refl _
      | added => exact Nat.zero_le _
      | taken _ _ _ _ h =>
          have hbefore := ih _ (by simp [← hn]) _ rfl h
          calc
            _ = _ + 0 := List.countP_append
            _ ≤ _ := Nat.add_le_add hbefore (Nat.zero_le _)
            _ = _ := List.countP_append.symm
      | released _ _ h =>
          have hbefore := ih _ (by simp [← hn]) _ rfl h.before
          simp only [List.countP_append, List.countP_singleton, Event.releases, Event.takes,
            Bool.false_eq_true, if_false, Nat.add_zero]
          exact Nat.add_le_add_right hbefore _

/-! ## Steps -/

/-- The entries, the last name that was given, and the log. -/
structure Leases (κ τ : Type) where
  entries : List (Entry κ τ)
  last : κ
  log : List (Event κ τ)

variable [LinearOrder κ]

/-- The event leaves the entry of its work behind. -/
def Event.leave (ev : Event κ τ) (e : Entry κ τ) : Entry κ τ :=
  if e.item = ev.item then { e with attempts := e.attempts + ev.counted, phase := ev.phase } else e

theorem Event.leave_item (ev : Event κ τ) (e : Entry κ τ) : (ev.leave e).item = e.item := by
  unfold Event.leave
  split <;> rfl

theorem Event.leave_own {ev : Event κ τ} {e : Entry κ τ} (h : e.item = ev.item) :
    ev.leave e = ⟨e.item, e.attempts + ev.counted, ev.phase⟩ := if_pos h

def Leases.about (s : Leases κ τ) (item : κ) : List (Event κ τ) :=
  s.log.filter (·.item = item)

/-- An event is about its own work. -/
theorem Leases.about_snoc {s t : Leases κ τ} {ev : Event κ τ} (h : t.log = s.log ++ [ev])
    (item : κ) :
    t.about item = s.about item ++ if ev.item = item then [ev] else [] := by
  simp only [Leases.about, h, List.filter_append, List.filter_singleton]
  split <;> simp_all

theorem Leases.about_own {s t : Leases κ τ} {ev : Event κ τ} (h : t.log = s.log ++ [ev]) :
    t.about ev.item = s.about ev.item ++ [ev] := by
  rw [Leases.about_snoc h, if_pos rfl]

theorem Leases.about_other {s t : Leases κ τ} {ev : Event κ τ}
    (h : t.log = s.log ++ [ev]) {item : κ}
    (hne : ev.item ≠ item) : t.about item = s.about item := by
  rw [Leases.about_snoc h, if_neg hne, List.append_nil]

/-- What an event needs of the entry of its work. -/
def Event.May [DecidableEq τ] (s : Leases κ τ) (e : Entry κ τ) : Event κ τ → Prop
  | .added .. => False
  | .taken _ token now _ => e.phase.freeAt now ∧ ∀ ev ∈ s.log, ev.takes token = false
  | .released _ token now _ => ∃ bound, e.phase = .held token bound ∧ now < bound

inductive Leases.Step [DecidableEq τ] (s : Leases κ τ) : Leases κ τ → Prop
  | added (e : Entry κ τ) (since : Int) (new : s.last < e.item) (fresh : e.attempts = 0)
      (waits : e.phase = .waiting since) :
      Step s ⟨s.entries ++ [e], e.item, s.log ++ [.added e.item since]⟩
  | removed {left : List (Entry κ τ)} (h : left.Sublist s.entries) :
      Step s { s with entries := left }
  | happened (ev : Event κ τ) (e : Entry κ τ) (he : e ∈ s.entries) (item : ev.item = e.item)
      (may : ev.May s e) :
      Step s { s with entries := s.entries.map ev.leave, log := s.log ++ [ev] }

/-! ## What steps keep -/

/-- The entry is as its events left it. -/
structure Entry.Follows (e : Entry κ τ) (es : List (Event κ τ)) : Prop where
  attempts : e.attempts = (es.map Event.counted).sum
  phase : es.getLast?.map Event.phase = some e.phase

omit [LinearOrder κ] in
theorem Entry.Follows.last {e : Entry κ τ} {es : List (Event κ τ)} (h : e.Follows es) :
    ∃ init last, es = init ++ [last] ∧ e.phase = last.phase := by
  rcases List.eq_nil_or_concat es with rfl | ⟨init, last, rfl⟩
  · cases h.phase
  · rw [List.concat_eq_append] at h ⊢
    refine ⟨init, last, rfl, ?_⟩
    have hphase := h.phase
    rw [List.getLast?_concat] at hphase
    exact (Option.some.inj hphase).symm

structure Leases.Kept [DecidableEq τ] (s : Leases κ τ) : Prop where
  named : s.entries.Pairwise (·.item ≠ ·.item)
  entries_le : ∀ e ∈ s.entries, e.item ≤ s.last
  log_le : ∀ ev ∈ s.log, ev.item ≤ s.last
  history : ∀ item, History (s.about item)
  follows : ∀ e ∈ s.entries, e.Follows (s.about e.item)
  once : ∀ token, s.log.countP (·.takes token) ≤ 1

variable [DecidableEq τ] {s t : Leases κ τ}

omit [DecidableEq τ] in
/-- The events of work that was only added. -/
theorem filter_added {ι : Type} {rows : List ι} (event : ι → Event κ τ)
    (hnamed : rows.Pairwise fun a b => (event a).item ≠ (event b).item) {r : ι} (hr : r ∈ rows) :
    (rows.map event).filter (·.item = (event r).item) = [event r] := by
  induction rows with
  | nil => cases hr
  | cons a rows ih =>
      obtain ⟨ha, hnamed⟩ := List.pairwise_cons.mp hnamed
      rcases List.mem_cons.mp hr with rfl | hr
      · rw [List.map_cons, List.filter_cons_of_pos (by simp), List.filter_eq_nil_iff.mpr]
        intro ev hev
        obtain ⟨b, hb, rfl⟩ := List.mem_map.mp hev
        simpa using (ha b hb).symm
      · rw [List.map_cons, List.filter_cons_of_neg (by simpa using ha r hr)]
        exact ih hnamed hr

/-- New work that nobody took. -/
theorem Leases.kept_new {ι : Type} {rows : List ι} (entry : ι → Entry κ τ) (since : ι → Int)
    (hentries : s.entries = rows.map entry)
    (hlog : s.log = rows.map fun r => .added (entry r).item (since r))
    (hnamed : rows.Pairwise fun a b => (entry a).item ≠ (entry b).item)
    (hlast : ∀ r ∈ rows, (entry r).item ≤ s.last)
    (hnew : ∀ r ∈ rows, (entry r).attempts = 0 ∧ (entry r).phase = .waiting (since r)) :
    s.Kept := by
  have habout : ∀ r ∈ rows, s.about (entry r).item = [.added (entry r).item (since r)] := by
    intro r hr
    rw [Leases.about, hlog]
    exact filter_added (fun r => .added (entry r).item (since r)) hnamed hr
  refine ⟨?_, ?_, ?_, fun item => ?_, ?_, fun token => ?_⟩
  · rw [hentries]
    exact List.pairwise_map.mpr hnamed
  · rw [hentries]
    exact List.forall_mem_map.mpr hlast
  · rw [hlog]
    exact List.forall_mem_map.mpr hlast
  · by_cases hitem : ∃ r ∈ rows, (entry r).item = item
    · obtain ⟨r, hr, rfl⟩ := hitem
      rw [habout r hr]
      exact .added _ _
    · have hnone : s.about item = [] := by
        rw [Leases.about, hlog, List.filter_eq_nil_iff]
        refine List.forall_mem_map.mpr fun r hr heq => hitem ⟨r, hr, of_decide_eq_true heq⟩
      rw [hnone]
      exact .new
  · rw [hentries]
    refine List.forall_mem_map.mpr fun r hr => ?_
    rw [habout r hr]
    exact ⟨(hnew r hr).1, congrArg some (hnew r hr).2.symm⟩
  · have hnone : s.log.countP (·.takes token) = 0 := by
      rw [hlog, List.countP_eq_zero]
      exact List.forall_mem_map.mpr fun r _ => Bool.false_ne_true
    rw [hnone]
    exact Nat.zero_le _

/-- An entry that is held was taken last. -/
theorem Leases.Kept.taken (h : s.Kept) {e : Entry κ τ} (he : e ∈ s.entries) {token : τ}
    {bound : Int} (hheld : e.phase = .held token bound) :
    ∃ es item since, s.about e.item = es ++ [.taken item token since bound] ∧ item = e.item := by
  obtain ⟨es, ev, hes, hphase⟩ := (h.follows e he).last
  have hitem : ev.item = e.item := by
    have hmem : ev ∈ s.about e.item := by simp [hes]
    exact of_decide_eq_true (List.mem_filter.mp hmem).2
  rw [hheld] at hphase
  cases ev with
  | added item since => cases hphase
  | taken item t since b =>
      cases hphase
      exact ⟨es, item, since, hes, hitem⟩
  | released item t now how => cases how <;> cases hphase

/-- The event of a piece of work goes on with its history. -/
theorem Leases.Kept.history_snoc (h : s.Kept) {ev : Event κ τ} {e : Entry κ τ}
    (he : e ∈ s.entries) (hitem : ev.item = e.item) (may : ev.May s e) :
    History (s.about e.item ++ [ev]) := by
  cases ev with
  | added => exact may.elim
  | taken item token now bound =>
      obtain ⟨es, last, hes, hphase⟩ := (h.follows e he).last
      have hhistory := h.history e.item
      rw [hes] at hhistory ⊢
      exact .taken _ _ _ _ hhistory (hphase ▸ may.1)
  | released item token now how =>
      obtain ⟨bound, hheld, hlive⟩ := may
      obtain ⟨es, taken, since, hes, rfl⟩ := h.taken he hheld
      have hhistory := h.history e.item
      rw [hes] at hhistory ⊢
      cases hitem
      exact .released now how hhistory hlive

theorem Leases.Kept.added (h : s.Kept) {e : Entry κ τ} {since : Int} (new : s.last < e.item)
    (fresh : e.attempts = 0) (waits : e.phase = .waiting since) :
    Leases.Kept ⟨s.entries ++ [e], e.item, s.log ++ [.added e.item since]⟩ := by
  have hnone : s.about e.item = [] := List.filter_eq_nil_iff.mpr fun ev hev heq =>
    absurd (of_decide_eq_true heq ▸ h.log_le ev hev) (not_le.mpr new)
  have hown : Leases.about ⟨s.entries ++ [e], e.item, s.log ++ [.added e.item since]⟩ e.item =
      s.about e.item ++ [.added e.item since] := by
    rw [Leases.about_snoc rfl]
    exact congrArg _ (if_pos rfl)
  have hother {item : κ} : e.item ≠ item →
      Leases.about ⟨s.entries ++ [e], e.item, s.log ++ [.added e.item since]⟩ item =
        s.about item := fun hne => by
    rw [Leases.about_snoc rfl]
    exact (congrArg _ (if_neg hne)).trans (List.append_nil _)
  rw [hnone, List.nil_append] at hown
  refine ⟨?_, ?_, ?_, fun item => ?_, ?_, fun token => ?_⟩
  · refine List.pairwise_append.mpr ⟨h.named, List.pairwise_singleton _ _, ?_⟩
    intro a ha b hb
    rw [List.mem_singleton.mp hb]
    exact ((h.entries_le a ha).trans_lt new).ne
  · intro a ha
    rcases List.mem_append.mp ha with ha | ha
    · exact (h.entries_le a ha).trans new.le
    · exact (congrArg Entry.item (List.mem_singleton.mp ha)).le
  · intro ev hev
    rcases List.mem_append.mp hev with hev | hev
    · exact (h.log_le ev hev).trans new.le
    · rw [List.mem_singleton.mp hev]
      exact le_rfl
  · by_cases heq : e.item = item
    · rw [← heq, hown]
      exact .added _ _
    · rw [hother heq]
      exact h.history item
  · intro a ha
    rcases List.mem_append.mp ha with ha | ha
    · rw [hother ((h.entries_le a ha).trans_lt new).ne']
      exact h.follows a ha
    · obtain rfl := List.mem_singleton.mp ha
      rw [hown]
      exact ⟨fresh, congrArg some waits.symm⟩
  · rw [List.countP_append]
    exact h.once token

theorem Leases.Kept.happened (h : s.Kept) {ev : Event κ τ} {e : Entry κ τ} (he : e ∈ s.entries)
    (hitem : ev.item = e.item) (may : ev.May s e) :
    Leases.Kept { s with entries := s.entries.map ev.leave, log := s.log ++ [ev] } := by
  have hown : Leases.about { s with entries := s.entries.map ev.leave, log := s.log ++ [ev] }
      ev.item = s.about ev.item ++ [ev] := Leases.about_own rfl
  have hother {item : κ} : ev.item ≠ item →
      Leases.about { s with entries := s.entries.map ev.leave, log := s.log ++ [ev] } item =
        s.about item := Leases.about_other rfl
  refine ⟨?_, ?_, ?_, fun item => ?_, ?_, fun token => ?_⟩
  · refine List.pairwise_map.mpr (h.named.imp fun {a b} hab => ?_)
    rw [ev.leave_item, ev.leave_item]
    exact hab
  · intro a ha
    obtain ⟨b, hb, rfl⟩ := List.mem_map.mp ha
    rw [ev.leave_item]
    exact h.entries_le b hb
  · intro a ha
    rcases List.mem_append.mp ha with ha | ha
    · exact h.log_le a ha
    · rw [List.mem_singleton.mp ha, hitem]
      exact h.entries_le e he
  · by_cases heq : ev.item = item
    · rw [← heq, hown, hitem]
      exact h.history_snoc he hitem may
    · rw [hother heq]
      exact h.history item
  · intro a ha
    obtain ⟨b, hb, rfl⟩ := List.mem_map.mp ha
    have hb' := h.follows b hb
    rw [ev.leave_item]
    by_cases heq : b.item = ev.item
    · rw [Event.leave_own heq, heq, hown, ← heq]
      refine ⟨?_, ?_⟩
      · rw [List.map_append, List.sum_append, hb'.attempts]
        simp
      · rw [List.getLast?_concat]
        rfl
    · rw [Event.leave, if_neg heq, hother (Ne.symm heq)]
      exact hb'
  · rw [List.countP_append]
    cases ev with
    | added => exact may.elim
    | released => simpa [Event.takes] using h.once token
    | taken item mine now bound =>
        by_cases heq : mine = token
        · subst heq
          have hnone : s.log.countP (·.takes mine) = 0 :=
            List.countP_eq_zero.mpr fun ev hev => by simp [may.2 ev hev]
          rw [hnone]
          simp [Event.takes]
        · simpa [Event.takes, heq] using h.once token

theorem Leases.Kept.step (h : s.Kept) (hstep : s.Step t) : t.Kept := by
  cases hstep with
  | added e since new fresh waits => exact h.added new fresh waits
  | removed hleft =>
      exact ⟨h.named.sublist hleft, fun e he => h.entries_le e (hleft.subset he), h.log_le,
        h.history, fun e he => h.follows e (hleft.subset he), h.once⟩
  | happened ev e he hitem may => exact h.happened he hitem may

theorem Leases.Kept.steps (h : s.Kept) (hsteps : Relation.ReflTransGen Leases.Step s t) :
    t.Kept := by
  induction hsteps with
  | refl => exact h
  | tail _ hstep ih => exact ih.step hstep

/-- A token takes a piece of work once, and releases it once at most. -/
theorem Leases.Kept.releases_le_one (h : s.Kept) (item : κ) (token : τ) :
    (s.about item).countP (·.releases token) ≤ 1 :=
  ((h.history item).releases_le token).trans
    ((List.Sublist.countP_le List.filter_sublist).trans (h.once token))

end YoinkCore.Lib.Leasing
