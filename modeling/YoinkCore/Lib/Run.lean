import Mathlib

/-!
# Runs of a labelled transition system

`Run step s es s'` says that the events `es`, in this order, lead from `s` to
`s'`. A property of every run is an induction on its last event; the rules
below state that induction once.
-/

namespace YoinkCore.Lib

variable {σ ε : Type}

/-- The events `es` lead from the first state to the second. -/
inductive Run (step : σ → ε → σ → Prop) (s : σ) : List ε → σ → Prop
  | nil : Run step s [] s
  | snoc {es : List ε} {t u : σ} {e : ε} :
      Run step s es t → step t e u → Run step s (es ++ [e]) u

namespace Run

variable {step : σ → ε → σ → Prop} {s t u : σ} {es es' : List ε}

theorem single {e : ε} (h : step s e t) : Run step s [e] t :=
  (Run.nil : Run step s [] s).snoc h

/-- Nothing happens in a run without events. -/
theorem eq_of_nil (h : Run step s [] t) : t = s := by
  generalize hes : ([] : List ε) = es at h
  cases h with
  | nil => rfl
  | snoc => simp at hes

/-- Runs compose. -/
theorem append (h : Run step s es t) (h' : Run step t es' u) :
    Run step s (es ++ es') u := by
  induction h' with
  | nil => simpa using h
  | snoc _ hstep ih =>
      rw [← List.append_assoc]
      exact .snoc ih hstep

/-- The last step of a run. -/
theorem last {e : ε} (h : Run step s (es ++ [e]) u) :
    ∃ t, Run step s es t ∧ step t e u := by
  generalize hl : es ++ [e] = l at h
  cases h with
  | nil => simp at hl
  | snoc h hs =>
      obtain ⟨rfl, he⟩ := List.append_inj' hl rfl
      cases he
      exact ⟨_, h, hs⟩

/-- A run passes through a state between any two of its events. -/
theorem split (h : Run step s (es ++ es') u) :
    ∃ t, Run step s es t ∧ Run step t es' u := by
  induction es' using List.reverseRecOn generalizing u with
  | nil => exact ⟨u, by simpa using h, .nil⟩
  | append_singleton es' e ih =>
      rw [← List.append_assoc] at h
      obtain ⟨t, ht, hs⟩ := h.last
      obtain ⟨m, hm, hmt⟩ := ih ht
      exact ⟨m, hm, .snoc hmt hs⟩

/-- The step of one event of a run, with the run before it and the one after. -/
theorem split_at {e : ε} (h : Run step s (es ++ e :: es') u) :
    ∃ t v, Run step s es t ∧ step t e v ∧ Run step v es' u := by
  have h' : Run step s ((es ++ [e]) ++ es') u := by simpa using h
  obtain ⟨v, hv, hr⟩ := h'.split
  obtain ⟨t, ht, hs⟩ := hv.last
  exact ⟨t, v, ht, hs, hr⟩

/-- **Invariant rule.** What every step keeps holds after every run. -/
theorem invariant {I : σ → Prop} (keep : ∀ {s e t}, I s → step s e t → I t)
    (h : Run step s es t) (hs : I s) : I t := by
  induction h with
  | nil => exact hs
  | snoc _ hstep ih => exact keep ih hstep

/-- A relation to the start that every step keeps relates start and end. -/
theorem relate {R : σ → σ → Prop} (refl : ∀ s, R s s)
    (keep : ∀ {s t e u}, R s t → step t e u → R s u)
    (h : Run step s es t) : R s t := by
  induction h with
  | nil => exact refl s
  | snoc _ hstep ih => exact keep ih hstep

/-- A run of a finer system is a run of a coarser one. -/
theorem mono {step' : σ → ε → σ → Prop} (h : ∀ {s e t}, step s e t → step' s e t)
    (hr : Run step s es t) : Run step' s es t := by
  induction hr with
  | nil => exact .nil
  | snoc _ hstep ih => exact .snoc ih (h hstep)

/-- A run is one of the steps whose events have a property that all of them have. -/
theorem of_forall {Q : ε → Prop} (h : Run step s es t) (hQ : ∀ e ∈ es, Q e) :
    Run (fun s e t => step s e t ∧ Q e) s es t := by
  induction h with
  | nil => exact .nil
  | snoc _ hstep ih =>
      exact .snoc (ih fun e he => hQ e (List.mem_append_left _ he))
        ⟨hstep, hQ _ (List.mem_append_right _ List.mem_cons_self)⟩

end Run

/-! ## Scripts -/

section

variable {α : Type}

/-- Perform a list of actions, each of which tells its event. -/
def play (exec : σ → α → ε × σ) (s : σ) : List α → List ε × σ
  | [] => ([], s)
  | a :: script =>
      let (e, t) := exec s a
      let (es, u) := play exec t script
      (e :: es, u)

/-- Every action of a script may be performed when its turn comes. -/
def allowed (exec : σ → α → ε × σ) (may : σ → α → Bool) (s : σ) : List α → Bool
  | [] => true
  | a :: script => may s a && allowed exec may (exec s a).2 script

/-- Playing a script is a run. -/
theorem play_run {step : σ → ε → σ → Prop} {exec : σ → α → ε × σ} {may : σ → α → Bool}
    (h : ∀ s a, may s a = true → step s (exec s a).1 (exec s a).2) {script : List α} :
    ∀ {s : σ}, allowed exec may s script = true →
      Run step s (play exec s script).1 (play exec s script).2 := by
  induction script with
  | nil => exact fun _ => .nil
  | cons a script ih =>
      intro s hs
      simp only [allowed, Bool.and_eq_true] at hs
      exact (Run.single (h s a hs.1)).append (ih hs.2)

end

end YoinkCore.Lib
