import YoinkCore.Insight.DeviceFlow

/-!
# Runs of device sign-in

The lock keeps a poller from storing a token for a flow that was replaced or cancelled before.
It does not keep `cancel` from clearing a token that a later flow has stored.
-/

namespace YoinkCore.Insight

open Lib

/-! ## What a section does -/

/-- A task that has begun and not ended. -/
def TaskAt.live : TaskAt → Bool
  | absent | done => false
  | _ => true

/-- The status of its flow that a poller goes by. -/
def TaskAt.state? : TaskAt → Option (FlowKey × Status)
  | looked key state | sleeping key state | authorizing key state | posting key state
  | found key state _ | connecting key state _ _ | saving key state _ _ => some (key, state)
  | _ => none

/-- A change of a flow that does not report success. -/
def Unsuccessful (f : Status → Status) : Prop :=
  ∀ st, (f st).status = .success → st.status = .success

/-- What one section changes of the table, the tokens and the tasks. -/
inductive OAuthEffect (s : OAuthState) : OAuthEvent → OAuthState → Prop
  | idle {t : OAuthState} : t.flows = s.flows → t.tokens = s.tokens → t.tasks = s.tasks →
      t.cancels = s.cancels → t.nextGeneration = s.nextGeneration → OAuthEffect s .other t
  | pruned {t : OAuthState} (p : FlowKey → Flow → Bool) : t.flows = s.flows.retain p →
      t.tokens = s.tokens → t.tasks = s.tasks → t.cancels = s.cancels →
      t.nextGeneration = s.nextGeneration → OAuthEffect s .other t
  | admitted {t : OAuthState} (key : FlowKey) (p : FlowKey → Flow → Bool) :
      (s.flows.retain p).size < 1024 ∨ ((s.flows.retain p).lookup key).isSome = true →
      t.flows = (s.flows.retain p).insert key (.admitted s.now s.nextGeneration) →
      t.tokens = s.tokens →
      t.tasks = Function.update s.tasks s.nextGeneration (.admitted key) →
      t.cancels = s.cancels → t.nextGeneration = s.nextGeneration + 1 →
      OAuthEffect s (.admitted key s.nextGeneration) t
  | moved {t : OAuthState} (g : Nat) (y : TaskAt) : (s.tasks g).live = true → y ≠ .absent →
      (y.state? = none ∨ y.state? = (s.tasks g).state? ∨
        ∃ key f, s.flow? key g = some f ∧ y.state? = some (key, f.status)) →
      t.flows = s.flows → t.tokens = s.tokens → t.tasks = Function.update s.tasks g y →
      t.cancels = s.cancels → t.nextGeneration = s.nextGeneration → OAuthEffect s .other t
  | changed {t : OAuthState} (g : Nat) (y : TaskAt) (key : FlowKey) (f : Status → Status) :
      (s.tasks g).live = true → y ≠ .absent → y.state? = none → (s.flow? key g).isSome = true →
      Unsuccessful f → t.flows = (s.setStatus key f).flows → t.tokens = s.tokens →
      t.tasks = Function.update s.tasks g y → t.cancels = s.cancels →
      t.nextGeneration = s.nextGeneration → OAuthEffect s .other t
  | erased {t : OAuthState} (g : Nat) (key : FlowKey) : (s.tasks g).live = true →
      t.flows = s.flows.erase key → t.tokens = s.tokens →
      t.tasks = Function.update s.tasks g .done → t.cancels = s.cancels →
      t.nextGeneration = s.nextGeneration → OAuthEffect s .other t
  | stored {t : OAuthState} (g : Nat) (key : FlowKey) (state : Status) (token : String)
      (username : Option String) : (s.tasks g).live = true →
      (s.tasks g).state? = some (key, state) → (s.flow? key g).isSome = true →
      s.now < state.expiresAt →
      t.flows = (s.setStatus key fun st => { st with status := .success, username }).flows →
      t.tokens = Function.update s.tokens key (some token) →
      t.tasks = Function.update s.tasks g .done → t.cancels = s.cancels →
      t.nextGeneration = s.nextGeneration → OAuthEffect s (.stored key g token) t
  | called {t : OAuthState} (id : Nat) (key : FlowKey) : s.cancels id = .absent →
      t.flows = s.flows → t.tokens = s.tokens → t.tasks = s.tasks →
      t.cancels = Function.update s.cancels id (.called key) →
      t.nextGeneration = s.nextGeneration → OAuthEffect s (.called id key) t
  | removed {t : OAuthState} (id : Nat) (key : FlowKey) : s.cancels id = .called key →
      t.flows = s.flows.erase key → t.tokens = s.tokens → t.tasks = s.tasks →
      t.cancels = Function.update s.cancels id (.removed key) →
      t.nextGeneration = s.nextGeneration →
      OAuthEffect s (.removed id key ((s.flows.lookup key).map (·.generation))) t
  | returned {t : OAuthState} (id : Nat) (key : FlowKey) : s.cancels id = .removed key →
      t.flows = s.flows → t.tokens = s.tokens → t.tasks = s.tasks →
      t.cancels = Function.update s.cancels id .returned →
      t.nextGeneration = s.nextGeneration → OAuthEffect s .other t
  | cleared {t : OAuthState} (id : Nat) (key : FlowKey) : s.cancels id = .removed key →
      t.flows = s.flows → t.tokens = Function.update s.tokens key none → t.tasks = s.tasks →
      t.cancels = Function.update s.cancels id .returned →
      t.nextGeneration = s.nextGeneration → OAuthEffect s (.cleared id key) t

variable {s t : OAuthState} {e : OAuthEvent} {key : FlowKey} {g : Nat}

theorem dropGuard_effect (h : (s.tasks g).live = true) : OAuthEffect s .other (s.dropGuard key g) :=
  .moved g (.dropping key) h (by simp) (.inl rfl) rfl rfl rfl rfl rfl

theorem withTask_effect {y : TaskAt} (h : (s.tasks g).live = true) (hy : y ≠ .absent)
    (hstate : y.state? = none ∨ y.state? = (s.tasks g).state? ∨
      ∃ key f, s.flow? key g = some f ∧ y.state? = some (key, f.status)) :
    OAuthEffect s .other (s.withTask g y) :=
  .moved g y h hy hstate rfl rfl rfl rfl rfl

theorem admitFlow_effect (key : FlowKey) (s : OAuthState) :
    OAuthEffect s (s.admitFlow key).1 (s.admitFlow key).2 := by
  unfold OAuthState.admitFlow
  simp only
  split
  · exact .pruned (fun _ f => f.keep s.now) rfl rfl rfl rfl rfl
  · rename_i h
    simp only [Bool.and_eq_true, decide_eq_true_eq, Option.isNone_iff_eq_none, not_and,
      ← Option.isSome_iff_ne_none] at h
    exact .admitted key (fun _ f => f.keep s.now) (by
      rcases Nat.lt_or_ge (Dict.size (s.flows.retain fun _ f => f.keep s.now)) 1024 with hlt | hge
      · exact .inl hlt
      · exact .inr (h hge)) rfl rfl rfl rfl rfl

theorem save_effect {state : Status} {token : String} {username : Option String} {ok : Bool}
    (hlive : (s.tasks g).live = true) (hstate : (s.tasks g).state? = some (key, state))
    (h : s.save key state token username g ok = (e, t)) : OAuthEffect s e (t.withTask g .done) := by
  have hchanged : ∀ f : Status → Status, (s.flow? key g).isSome = true → Unsuccessful f →
      (OAuthEvent.other, s.setStatus key f) = (e, t) → OAuthEffect s e (t.withTask g .done) := by
    intro f hflow hf h
    cases h
    exact .changed g .done key f hlive (by simp) rfl hflow hf rfl rfl rfl rfl rfl
  unfold OAuthState.save at h
  by_cases hflow : (s.flow? key g).isSome = true
  · rw [if_neg (by simpa [Option.isSome_iff_ne_none] using hflow)] at h
    split at h
    · exact hchanged _ hflow (fun _ h => by cases h) h
    · split at h
      · exact hchanged _ hflow (fun _ h => by cases h) h
      · rename_i hexpired
        split at h
        · exact hchanged _ hflow (fun _ h => by cases h) h
        · cases h
          exact .stored g key state token username hlive hstate hflow (Int.not_le.mp hexpired)
            rfl rfl rfl rfl rfl
  · rw [if_pos (by simpa using hflow)] at h
    cases h
    exact withTask_effect hlive (by simp) (.inl rfl)

theorem pollTask_effect {input : PollInput} (h : s.pollTask g input = some (e, t)) :
    OAuthEffect s e t := by
  have hgo : ∀ y : TaskAt, (s.tasks g).live = true → y ≠ .absent →
      (y.state? = none ∨ y.state? = (s.tasks g).state? ∨
        ∃ key f, s.flow? key g = some f ∧ y.state? = some (key, f.status)) →
      some (OAuthEvent.other, s.withTask g y) = some (e, t) → OAuthEffect s e t := by
    intro y hlive hy hstate h
    cases h
    exact withTask_effect hlive hy hstate
  have hends : ∀ key status failed, (s.tasks g).live = true →
      some (OAuthEvent.other, s.withTask g (.finishing key status failed)) = some (e, t) →
      OAuthEffect s e t :=
    fun key status failed hlive => hgo _ hlive (by simp) (.inl rfl)
  unfold OAuthState.pollTask at h
  dsimp only at h
  split at h
  · -- The top of the loop reads the status of the flow.
    rename_i key hx
    have hlive : (s.tasks g).live = true := by rw [hx]; rfl
    split at h
    · exact hgo _ hlive (by simp) (.inl rfl) h
    · rename_i f hf
      exact hgo _ hlive (by simp) (.inr (.inr ⟨key, f, hf, rfl⟩)) h
  · rename_i key state hx
    have hlive : (s.tasks g).live = true := by rw [hx]; rfl
    split at h
    · exact hends _ _ _ hlive h
    · exact hgo _ hlive (by simp) (.inr (.inl (by rw [hx]; rfl))) h
  · rename_i key state hx
    have hlive : (s.tasks g).live = true := by rw [hx]; rfl
    split at h
    · exact hends _ _ _ hlive h
    · split at h
      · exact hends _ _ _ hlive h
      · exact hgo _ hlive (by simp) (.inr (.inl (by rw [hx]; rfl))) h
  · rename_i key state ok hx
    have hlive : (s.tasks g).live = true := by rw [hx]; rfl
    split at h
    · exact hgo _ hlive (by simp) (.inr (.inl (by rw [hx]; rfl))) h
    · exact hends _ _ _ hlive h
  · rename_i key state data hx
    have hlive : (s.tasks g).live = true := by rw [hx]; rfl
    split at h
    · exact hends _ _ _ hlive h
    · split at h
      · exact hends _ _ _ hlive h
      · split at h
        · exact hgo _ hlive (by simp) (.inl rfl) h
        · exact hgo _ hlive (by simp) (.inl rfl) h
        · exact hends _ _ _ hlive h
        · exact hends _ _ _ hlive h
        · exact hgo _ hlive (by simp) (.inr (.inl (by rw [hx]; rfl))) h
  · rename_i key hx
    have hlive : (s.tasks g).live = true := by rw [hx]; rfl
    split at h
    · rename_i hflow
      cases h
      exact .changed g (.top key) key (fun st => { st with interval := min (st.interval + 5) 60 })
        hlive (by simp) rfl hflow (fun _ h => h) rfl rfl rfl rfl rfl
    · exact hgo _ hlive (by simp) (.inl rfl) h
  · rename_i key state token body hx
    have hlive : (s.tasks g).live = true := by rw [hx]; rfl
    exact hgo _ hlive (by simp) (.inr (.inl (by rw [hx]; rfl))) h
  · rename_i key state token username hx
    have hlive : (s.tasks g).live = true := by rw [hx]; rfl
    split at h
    · exact hends _ _ _ hlive h
    · exact hends _ _ _ hlive h
  · rename_i key state token username ok hx
    have hlive : (s.tasks g).live = true := by rw [hx]; rfl
    split at h
    · exact hends _ _ _ hlive h
    · split at h
      · exact hgo _ hlive (by simp) (.inr (.inl (by rw [hx]; rfl))) h
      · exact hends _ _ _ hlive h
  · rename_i key state token username ok hx
    cases h
    exact save_effect (by rw [hx]; rfl) (by rw [hx]; rfl) rfl
  · rename_i key status hfailed hx
    have hlive : (s.tasks g).live = true := by rw [hx]; rfl
    cases h
    unfold OAuthState.finish
    split
    · rename_i hflow
      exact .changed g .done key (fun st => { st with
          status, error := if status = .error then some "oauth_failed" else st.error })
        hlive (by simp) rfl hflow (fun _ h => absurd h hfailed) rfl rfl rfl rfl rfl
    · exact withTask_effect hlive (by simp) (.inl rfl)
  · cases h

theorem perform_effect {c : OAuthConfig} {a : OAuthAction} (h : perform c s a = some (e, t)) :
    OAuthEffect s e t := by
  cases a with
  | tick now =>
      simp only [perform] at h
      split at h
      · cases h
        exact .idle rfl rfl rfl rfl rfl
      · cases h
  | shutdown =>
      cases h
      exact .idle rfl rfl rfl rfl rfl
  | start key authorized =>
      have h : s.startFlow c key authorized = (e, t) := Option.some.inj h
      unfold OAuthState.startFlow at h
      split at h
      · have heffect := admitFlow_effect key s
        rwa [h] at heffect
      · cases h
        exact .idle rfl rfl rfl rfl rfl
  | grant g data =>
      simp only [perform] at h
      split at h
      · rename_i key hx
        have hlive : (s.tasks g).live = true := by rw [hx]; rfl
        cases h
        unfold OAuthState.grantFlow
        dsimp only
        split
        · exact dropGuard_effect hlive
        · exact withTask_effect hlive (by simp) (.inl rfl)
      · cases h
  | publish g authorized =>
      simp only [perform] at h
      split at h
      · rename_i key grant since hx
        have hlive : (s.tasks g).live = true := by rw [hx]; rfl
        cases h
        unfold OAuthState.publishFlow
        split
        · exact dropGuard_effect hlive
        · rename_i hpublished
          simp only [Bool.or_eq_true, not_or, Option.isNone_iff_eq_none,
            ← Option.isSome_iff_ne_none] at hpublished
          exact .changed g (.top key) key (fun _ => grant.status since) hlive (by simp) rfl
            hpublished.1.2 (fun _ h => by cases h) rfl rfl rfl rfl rfl
      · cases h
  | abandon g =>
      simp only [perform] at h
      split at h
      · rename_i key hx
        cases h
        exact dropGuard_effect (by rw [hx]; rfl)
      · rename_i key grant since hx
        cases h
        exact dropGuard_effect (by rw [hx]; rfl)
      · cases h
  | drop g =>
      simp only [perform] at h
      split at h
      · rename_i key hx
        have hlive : (s.tasks g).live = true := by rw [hx]; rfl
        cases h
        unfold OAuthState.removeOwn
        split
        · exact .erased g key hlive rfl rfl rfl rfl rfl
        · exact withTask_effect hlive (by simp) (.inl rfl)
      · cases h
  | poll g input => exact pollTask_effect h
  | cancel id key =>
      simp only [perform] at h
      split at h
      · rename_i hx
        cases h
        exact .called id key hx rfl rfl rfl rfl rfl
      · cases h
  | remove id =>
      simp only [perform] at h
      split at h
      · rename_i key hx
        cases h
        exact .removed id key hx rfl rfl rfl rfl rfl
      · cases h
  | clear id ok =>
      simp only [perform] at h
      split at h
      · rename_i key hx
        simp only [OAuthState.clearToken] at h
        split at h
        · cases h
          exact .cleared id key hx rfl rfl rfl rfl rfl
        · cases h
          exact .returned id key hx rfl rfl rfl rfl rfl
      · cases h

/-! ## The table -/

theorem flow?_eq_some {f : Flow} :
    s.flow? key g = some f ↔ s.flows.lookup key = some f ∧ f.generation = g := by
  simp [OAuthState.flow?, Option.filter_eq_some_iff]

/-- What a section has done to a flow that was in the table before. -/
inductive FlowChange (s t : OAuthState) (e : OAuthEvent) (key : FlowKey) (f f' : Flow) : Prop
  | same : f' = f → (∀ token, e ≠ .stored key f.generation token) → FlowChange s t e key f f'
  | failed : (s.tasks f.generation).live = true → (t.tasks f.generation).state? = none →
      (∀ token, e ≠ .stored key f.generation token) →
      (f'.status.status = .success → f.status.status = .success) → FlowChange s t e key f f'
  | stored (token : String) : e = .stored key f.generation token →
      (t.tasks f.generation).state? = none → f'.status.status = .success →
      FlowChange s t e key f f'

/-- A flow in the table has just been admitted, or was there before. -/
theorem OAuthEffect.lookup (h : OAuthEffect s e t) {f' : Flow}
    (hf' : t.flows.lookup key = some f') :
    (e = .admitted key s.nextGeneration ∧ f' = .admitted s.now s.nextGeneration) ∨
    ∃ f, s.flows.lookup key = some f ∧ f'.generation = f.generation ∧
      (∀ g, e ≠ .admitted key g) ∧ (∀ id o, e ≠ .removed id key o) ∧
      FlowChange s t e key f f' := by
  have hsame : ∀ {e : OAuthEvent}, s.flows.lookup key = some f' → (∀ g, e ≠ .admitted key g) →
      (∀ id o, e ≠ .removed id key o) → (∀ token, e ≠ .stored key f'.generation token) →
      ∃ f, s.flows.lookup key = some f ∧ f'.generation = f.generation ∧
      (∀ g, e ≠ .admitted key g) ∧ (∀ id o, e ≠ .removed id key o) ∧
      FlowChange s t e key f f' :=
    fun hs ha hr hst => ⟨f', hs, rfl, ha, hr, .same rfl hst⟩
  cases h with
  | idle hflows => exact .inr (hsame (hflows ▸ hf') nofun nofun nofun)
  | pruned p hflows =>
      rw [hflows] at hf'
      exact .inr (hsame (Dict.mem_retain.mp hf').1 nofun nofun nofun)
  | admitted key' p hsize hflows =>
      rw [hflows, Dict.lookup_insert_eq] at hf'
      split at hf'
      · rename_i hkey
        subst hkey
        exact .inl ⟨rfl, (Option.some.inj hf').symm⟩
      · rename_i hkey
        refine .inr (hsame (Dict.mem_retain.mp hf').1 (fun g he => ?_) nofun nofun)
        exact hkey (OAuthEvent.admitted.inj he).1.symm
  | moved g y hlive hy hstate hflows => exact .inr (hsame (hflows ▸ hf') nofun nofun nofun)
  | changed g y key' f hlive hy hstate hflow hf hflows htokens htasks =>
      rw [hflows] at hf'
      simp only [OAuthState.setStatus, Dict.lookup_modify] at hf'
      split at hf'
      · rename_i hkey
        subst hkey
        obtain ⟨flow, hflow⟩ := Option.isSome_iff_exists.mp hflow
        obtain ⟨hlookup, rfl⟩ := flow?_eq_some.mp hflow
        rw [hlookup] at hf'
        obtain rfl := Option.some.inj hf'
        refine .inr ⟨flow, hlookup, rfl, nofun, nofun, .failed hlive ?_ nofun (hf _)⟩
        rw [htasks, Function.update_self]
        exact hstate
      · exact .inr (hsame hf' nofun nofun nofun)
  | erased g key' hlive hflows =>
      rw [hflows, Dict.lookup_erase_eq] at hf'
      split at hf'
      · cases hf'
      · exact .inr (hsame hf' nofun nofun nofun)
  | stored g key' state token username hlive hstate hflow hnow hflows htokens htasks =>
      rw [hflows] at hf'
      simp only [OAuthState.setStatus, Dict.lookup_modify] at hf'
      split at hf'
      · rename_i hkey
        subst hkey
        obtain ⟨flow, hflow⟩ := Option.isSome_iff_exists.mp hflow
        obtain ⟨hlookup, rfl⟩ := flow?_eq_some.mp hflow
        rw [hlookup] at hf'
        obtain rfl := Option.some.inj hf'
        refine .inr ⟨flow, hlookup, rfl, nofun, nofun, .stored token rfl ?_ rfl⟩
        rw [htasks, Function.update_self]
        rfl
      · rename_i hkey
        refine .inr (hsame hf' nofun nofun fun token he => ?_)
        exact hkey (OAuthEvent.stored.inj he).1.symm
  | called id key' hcancel hflows => exact .inr (hsame (hflows ▸ hf') nofun nofun nofun)
  | removed id key' hcancel hflows =>
      rw [hflows, Dict.lookup_erase_eq] at hf'
      split at hf'
      · cases hf'
      · rename_i hkey
        refine .inr (hsame hf' nofun (fun id o he => ?_) nofun)
        exact hkey (OAuthEvent.removed.inj he).2.1.symm
  | returned id key' hcancel hflows => exact .inr (hsame (hflows ▸ hf') nofun nofun nofun)
  | cleared id key' hcancel hflows => exact .inr (hsame (hflows ▸ hf') nofun nofun nofun)

/-- What a poller goes by is what it read. -/
theorem OAuthEffect.state {s t : OAuthState} {e : OAuthEvent} (h : OAuthEffect s e t) {g : Nat}
    {key : FlowKey} {state : Status} (hg : (t.tasks g).state? = some (key, state)) :
    (s.tasks g).state? = some (key, state) ∨
      t.flows = s.flows ∧ ∃ f, s.flow? key g = some f ∧ state = f.status := by
  have hupdate : ∀ {g' : Nat} {y : TaskAt}, t.tasks = Function.update s.tasks g' y →
      y.state? = none → (s.tasks g).state? = some (key, state) := by
    intro g' y htasks hy
    rw [htasks, Function.update_apply] at hg
    split at hg
    · rw [hy] at hg
      cases hg
    · exact hg
  cases h with
  | idle _ _ htasks | pruned p _ _ htasks => exact .inl (htasks ▸ hg)
  | admitted key' p _ _ _ htasks => exact .inl (hupdate htasks rfl)
  | moved g' y hlive hy hstate hflows htokens htasks =>
      rcases hstate with hnone | hkeep | ⟨key', f, hf, hread⟩
      · exact .inl (hupdate htasks hnone)
      · rw [htasks, Function.update_apply] at hg
        split at hg
        · rename_i hgg
          subst hgg
          exact .inl (hkeep ▸ hg)
        · exact .inl hg
      · rw [htasks, Function.update_apply] at hg
        split at hg
        · rename_i hgg
          subst hgg
          rw [hread] at hg
          obtain ⟨rfl, rfl⟩ := Prod.mk.inj (Option.some.inj hg)
          exact .inr ⟨hflows, f, hf, rfl⟩
        · exact .inl hg
  | changed g' y key' f _ _ hstate _ _ _ _ htasks => exact .inl (hupdate htasks hstate)
  | erased g' key' _ _ _ htasks => exact .inl (hupdate htasks rfl)
  | stored g' key' state' token username _ _ _ _ _ _ htasks => exact .inl (hupdate htasks rfl)
  | called id key' _ _ _ htasks | removed id key' _ _ _ htasks | returned id key' _ _ _ htasks
  | cleared id key' _ _ _ htasks => exact .inl (htasks ▸ hg)

/-- A task that has ended, or not begun, stays so, but for the one that is admitted. -/
theorem OAuthEffect.task (h : OAuthEffect s e t) (hg : (s.tasks g).live = false) :
    t.tasks g = s.tasks g ∨ g = s.nextGeneration ∧ t.nextGeneration = s.nextGeneration + 1 := by
  have hupdate : ∀ {g' : Nat} {y : TaskAt}, (s.tasks g').live = true →
      t.tasks = Function.update s.tasks g' y → t.tasks g = s.tasks g := by
    intro g' y hlive htasks
    rw [htasks, Function.update_of_ne]
    rintro rfl
    rw [hg] at hlive
    cases hlive
  cases h with
  | idle _ _ htasks | pruned p _ _ htasks => exact .inl (congrFun htasks g)
  | admitted key' p _ _ _ htasks _ hnext =>
      by_cases hgn : g = s.nextGeneration
      · exact .inr ⟨hgn, hnext⟩
      · rw [htasks]
        exact .inl (Function.update_of_ne hgn _ _)
  | moved g' y hlive _ _ _ _ htasks | changed g' y key' f hlive _ _ _ _ _ _ htasks
  | erased g' key' hlive _ _ htasks
  | stored g' key' state' token username hlive _ _ _ _ _ htasks => exact .inl (hupdate hlive htasks)
  | called id key' _ _ _ htasks | removed id key' _ _ _ htasks | returned id key' _ _ _ htasks
  | cleared id key' _ _ _ htasks => exact .inl (congrFun htasks g)

theorem OAuthEffect.next (h : OAuthEffect s e t) :
    (∃ key, e = .admitted key s.nextGeneration ∧ t.nextGeneration = s.nextGeneration + 1) ∨
      (∀ key g, e ≠ .admitted key g) ∧ t.nextGeneration = s.nextGeneration := by
  cases h with
  | admitted key' p _ _ _ _ _ hnext => exact .inl ⟨key', rfl, hnext⟩
  | idle _ _ _ _ hnext => exact .inr ⟨nofun, hnext⟩
  | pruned _ _ _ _ _ hnext => exact .inr ⟨nofun, hnext⟩
  | moved _ _ _ _ _ _ _ _ _ hnext | changed _ _ _ _ _ _ _ _ _ _ _ _ _ hnext
  | erased _ _ _ _ _ _ _ hnext | stored _ _ _ _ _ _ _ _ _ _ _ _ _ hnext
  | called _ _ _ _ _ _ _ hnext | removed _ _ _ _ _ _ _ hnext | returned _ _ _ _ _ _ _ hnext
  | cleared _ _ _ _ _ _ _ hnext => exact .inr ⟨nofun, hnext⟩

theorem OAuthEffect.size (h : OAuthEffect s e t) (hs : Dict.size s.flows ≤ 1024) :
    Dict.size t.flows ≤ 1024 := by
  cases h with
  | admitted key' p hsize hflows =>
      have hle := (Dict.size_retain_le p s.flows).trans hs
      rw [hflows]
      rcases hsize with hlt | hmem
      · exact (Dict.size_insert_le _ _ _).trans hlt
      · rw [Dict.size_insert_of_mem hmem]
        exact hle
  | idle hflows => exact hflows ▸ hs
  | pruned p hflows => exact hflows ▸ (Dict.size_retain_le p s.flows).trans hs
  | moved _ _ _ _ _ hflows => exact hflows ▸ hs
  | changed _ _ _ _ _ _ _ _ _ hflows => exact hflows ▸ (Dict.size_modify _ _ _).trans_le hs
  | erased _ key' _ hflows => exact hflows ▸ (Dict.size_erase_le key' s.flows).trans hs
  | stored _ _ _ _ _ _ _ _ _ hflows => exact hflows ▸ (Dict.size_modify _ _ _).trans_le hs
  | called _ _ _ hflows => exact hflows ▸ hs
  | removed _ key' _ hflows => exact hflows ▸ (Dict.size_erase_le key' s.flows).trans hs
  | returned _ _ _ hflows | cleared _ _ _ hflows => exact hflows ▸ hs

/-- What holds of the table after any run. -/
structure TableOk (es : List OAuthEvent) (s : OAuthState) : Prop where
  fresh : ∀ g, s.nextGeneration ≤ g → s.tasks g = .absent
  admitted : ∀ key g, .admitted key g ∈ es → g < s.nextGeneration
  origin : ∀ key f, s.flows.lookup key = some f → .admitted key f.generation ∈ es
  latest : ∀ key f g, s.flows.lookup key = some f → .admitted key g ∈ es → g ≤ f.generation
  gone : ∀ id key g, .removed id key (some g) ∈ es → g < s.nextGeneration ∧
    ∀ f, s.flows.lookup key = some f → f.generation ≠ g
  done : ∀ key g token, .stored key g token ∈ es → s.tasks g = .done
  success : ∀ key f, s.flows.lookup key = some f →
    (f.status.status = .success ↔ ∃ token, .stored key f.generation token ∈ es)
  expiry : ∀ g key state f, (s.tasks g).state? = some (key, state) → s.flow? key g = some f →
    f.status.expiresAt = state.expiresAt
  size : Dict.size s.flows ≤ 1024

theorem mem_snoc {α : Type} {es : List α} {a e : α} : a ∈ es ++ [e] ↔ a ∈ es ∨ e = a := by
  rw [List.mem_append, List.mem_singleton, eq_comm (a := a)]

/-- A removal names the flow that was there. -/
theorem OAuthEffect.removed_generation (h : OAuthEffect s e t) {id : Nat} {o : Option Nat}
    (he : e = .removed id key o) : o = (s.flows.lookup key).map (·.generation) := by
  cases h with
  | removed id' key' =>
      obtain ⟨-, rfl, rfl⟩ := OAuthEvent.removed.inj he
      rfl
  | _ => cases he

/-- A token is stored for the flow in the table, before it expires, and ends its task. -/
theorem OAuthEffect.stored_spec (h : OAuthEffect s e t) {token : String}
    (he : e = .stored key g token) :
    t.tasks g = .done ∧ t.tokens = Function.update s.tokens key (some token) ∧
      ∃ f state, s.flow? key g = some f ∧ (s.tasks g).state? = some (key, state) ∧
        s.now < state.expiresAt := by
  cases h with
  | stored g' key' state token' username hlive hstate hflow hnow hflows htokens htasks =>
      obtain ⟨rfl, rfl, rfl⟩ := OAuthEvent.stored.inj he
      obtain ⟨f, hf⟩ := Option.isSome_iff_exists.mp hflow
      exact ⟨by rw [htasks, Function.update_self], htokens, f, state, hf, hstate, hnow⟩
  | _ => cases he

theorem TableOk.initial (h : s.Initial) : TableOk [] s := by
  have hnone : ∀ key, s.flows.lookup key = none := fun key => by rw [h.flows]; rfl
  refine ⟨fun g _ => h.tasks g, nofun, fun key f hf => ?_, nofun, nofun, nofun, fun key f hf => ?_,
    fun g key state f hg => ?_, by rw [h.flows]; exact Nat.zero_le _⟩
  · rw [hnone] at hf
    cases hf
  · rw [hnone] at hf
    cases hf
  · rw [h.tasks] at hg
    cases hg

theorem TableOk.step {es : List OAuthEvent} (hok : TableOk es s) (h : OAuthEffect s e t) :
    TableOk (es ++ [e]) t := by
  have hle : s.nextGeneration ≤ t.nextGeneration := by
    rcases h.next with ⟨_, -, hnext⟩ | ⟨-, hnext⟩ <;> omega
  -- a task that has ended stays as it is
  have hkept : ∀ {g}, (s.tasks g).live = false → s.tasks g ≠ .absent → t.tasks g = s.tasks g := by
    intro g hlive hne
    rcases h.task hlive with hsame | ⟨rfl, -⟩
    · exact hsame
    · exact absurd (hok.fresh _ le_rfl) hne
  have hdone : ∀ key g token, .stored key g token ∈ es ++ [e] → t.tasks g = .done := by
    intro key g token hmem
    rcases mem_snoc.mp hmem with hold | he
    · have hd := hok.done key g token hold
      rw [hkept (by rw [hd]; rfl) (by rw [hd]; simp), hd]
    · exact (h.stored_spec he).1
  have hnew : ∀ key g, .admitted key g ∈ es ++ [e] → g < t.nextGeneration := by
    intro key g hmem
    rcases mem_snoc.mp hmem with hold | he
    · exact (hok.admitted key g hold).trans_le hle
    · rcases h.next with ⟨key', he', hnext⟩ | ⟨hne, -⟩
      · rw [he'] at he
        obtain ⟨-, rfl⟩ := OAuthEvent.admitted.inj he
        omega
      · exact absurd he (hne key g)
  constructor
  case fresh =>
    intro g hg
    have habsent := hok.fresh g (hle.trans hg)
    rcases h.task (by rw [habsent]; rfl) with hsame | ⟨rfl, hnext⟩
    · rw [hsame, habsent]
    · omega
  case admitted => exact hnew
  case origin =>
    intro key f hf
    rcases h.lookup hf with ⟨he, rfl⟩ | ⟨old, hold, hgen, -, -, -⟩
    · exact mem_snoc.mpr (.inr he)
    · rw [hgen]
      exact mem_snoc.mpr (.inl (hok.origin key old hold))
  case latest =>
    intro key f g hf hmem
    rcases h.lookup hf with ⟨-, rfl⟩ | ⟨old, hold, hgen, hne, -, -⟩
    · rcases mem_snoc.mp hmem with hmem | he
      · exact Nat.le_of_lt (hok.admitted key g hmem)
      · rcases h.next with ⟨key', he', -⟩ | ⟨hne, -⟩
        · rw [he'] at he
          exact (OAuthEvent.admitted.inj he).2.ge
        · exact absurd he (hne key g)
    · rcases mem_snoc.mp hmem with hmem | he
      · rw [hgen]
        exact hok.latest key old g hold hmem
      · exact absurd he (hne g)
  case gone =>
    intro id key g hmem
    rcases mem_snoc.mp hmem with hmem | he
    · obtain ⟨hlt, hgone⟩ := hok.gone id key g hmem
      refine ⟨hlt.trans_le hle, fun f hf => ?_⟩
      rcases h.lookup hf with ⟨-, rfl⟩ | ⟨old, hold, hgen, -, -, -⟩
      · exact Nat.ne_of_gt hlt
      · rw [hgen]
        exact hgone old hold
    -- the cancel takes the flow it found, so its generation is gone for good
    · have hnamed := h.removed_generation he
      cases hold : s.flows.lookup key with
      | none =>
          rw [hold] at hnamed
          cases hnamed
      | some old =>
          rw [hold] at hnamed
          obtain rfl := Option.some.inj hnamed
          refine ⟨(hok.admitted key _ (hok.origin key old hold)).trans_le hle, fun f hf => ?_⟩
          rcases h.lookup hf with ⟨he', -⟩ | ⟨_, -, -, -, hne, -⟩
          · rw [he'] at he
            cases he
          · exact absurd he (hne _ _)
  case done => exact hdone
  case success =>
    intro key f hf
    rcases h.lookup hf with ⟨he, rfl⟩ | ⟨old, hold, hgen, -, -, hchange⟩
    · refine iff_of_false (by simp [Flow.admitted]) ?_
      rintro ⟨token, hmem⟩
      rcases mem_snoc.mp hmem with hmem | he'
      · have hd := hok.done key _ token hmem
        rw [show (Flow.admitted s.now s.nextGeneration).generation = s.nextGeneration from rfl,
          hok.fresh _ le_rfl] at hd
        cases hd
      · rw [he] at he'
        cases he'
    -- the flow was there: its status changes only with the event of its task
    · rw [hgen]
      have hiff := hok.success key old hold
      rcases hchange with ⟨rfl, hne⟩ | ⟨hlive, -, hne, hfailed⟩ | ⟨token, he, -, hsuccess⟩
      · rw [hiff]
        refine exists_congr fun token => ⟨fun hmem => mem_snoc.mpr (.inl hmem), fun hmem => ?_⟩
        exact (mem_snoc.mp hmem).resolve_right (hne token)
      · have hnot : ¬ ∃ token, .stored key old.generation token ∈ es := by
          rintro ⟨token, hmem⟩
          rw [hok.done key _ token hmem] at hlive
          cases hlive
        refine iff_of_false (fun hs => hnot (hiff.mp (hfailed hs))) ?_
        rintro ⟨token, hmem⟩
        exact hnot ⟨token, (mem_snoc.mp hmem).resolve_right (hne token)⟩
      · exact iff_of_true hsuccess ⟨token, mem_snoc.mpr (.inr he)⟩
  case expiry =>
    intro g key state f hg hf
    obtain ⟨hlookup, rfl⟩ := flow?_eq_some.mp hf
    rcases h.state hg with hkeep | ⟨hflows, read, hread, rfl⟩
    · rcases h.lookup hlookup with ⟨-, rfl⟩ | ⟨old, hold, hgen, -, -, hchange⟩
      · rw [show (Flow.admitted s.now s.nextGeneration).generation = s.nextGeneration from rfl,
          hok.fresh _ le_rfl] at hkeep
        cases hkeep
      · rcases hchange with ⟨rfl, -⟩ | ⟨-, hnone, -, -⟩ | ⟨_, -, hnone, -⟩
        · exact hok.expiry _ key state f hkeep (flow?_eq_some.mpr ⟨hold, rfl⟩)
        · rw [hgen, hnone] at hg
          cases hg
        · rw [hgen, hnone] at hg
          cases hg
    · obtain ⟨hread, -⟩ := flow?_eq_some.mp hread
      rw [hflows, hread] at hlookup
      rw [Option.some.inj hlookup]
  case size => exact h.size hok.size

end YoinkCore.Insight
