import YoinkCore.Insight.DeviceRuns

/-!
# Device sign-in in order

A token that is stored and a cancel that clears it take effect when they commit. The order of
these commits keeps the real time of the calls and gives the token that is left. What a flow
reports need not agree with it: a cancel that was called before the flow began may clear the
token that the flow has stored.
-/

namespace YoinkCore.Insight

open Lib

/-! ## Cancels -/

def OAuthEvent.cancel? : OAuthEvent → Option Nat
  | called id _ | removed id _ _ | cleared id _ => some id
  | _ => none

/-- How far a cancel has come with its event. -/
def OAuthEvent.rank : OAuthEvent → Nat
  | called _ _ => 0
  | removed _ _ _ => 1
  | _ => 2

def CancelAt.rank : CancelAt → Nat
  | absent => 0
  | called _ => 1
  | removed _ => 2
  | returned => 3

def CancelAt.key? : CancelAt → Option FlowKey
  | called key | removed key => some key
  | _ => none

/-- The events of one cancel come in the order of their ranks. -/
def Ranked (es : List OAuthEvent) : Prop :=
  es.Pairwise fun a b => ∀ id, a.cancel? = some id → b.cancel? = some id → a.rank < b.rank

variable {es : List OAuthEvent} {s t : OAuthState} {e : OAuthEvent} {key : FlowKey}
  {c : OAuthConfig}

/-- One section of a cancel tells the rank it was at, and goes on. -/
theorem OAuthEffect.rank (h : OAuthEffect s e t) (id : Nat) :
    (s.cancels id).rank ≤ (t.cancels id).rank ∧
      (e.cancel? = some id → e.rank = (s.cancels id).rank ∧ e.rank < (t.cancels id).rank) := by
  have hsame : t.cancels = s.cancels → e.cancel? = none →
      (s.cancels id).rank ≤ (t.cancels id).rank ∧
      (e.cancel? = some id → e.rank = (s.cancels id).rank ∧ e.rank < (t.cancels id).rank) := by
    intro hcancels he
    rw [hcancels, he]
    exact ⟨le_rfl, nofun⟩
  have hmoved : ∀ {id' : Nat} {x y : CancelAt}, s.cancels id' = x → x.rank < y.rank →
      t.cancels = Function.update s.cancels id' y →
      (e.cancel? = some id' ∧ e.rank = x.rank ∨ e.cancel? = none) →
      (s.cancels id).rank ≤ (t.cancels id).rank ∧
      (e.cancel? = some id → e.rank = (s.cancels id).rank ∧ e.rank < (t.cancels id).rank) := by
    intro id' x y hx hlt hcancels he
    rw [hcancels, Function.update_apply]
    by_cases hid : id = id'
    · rw [if_pos hid, hid, hx]
      refine ⟨hlt.le, fun hcancel => ?_⟩
      rcases he with ⟨-, hrank⟩ | hnone
      · exact ⟨hrank, hrank ▸ hlt⟩
      · rw [hnone] at hcancel
        cases hcancel
    · rw [if_neg hid]
      refine ⟨le_rfl, fun hcancel => ?_⟩
      rcases he with ⟨hid', -⟩ | hnone
      · rw [hid'] at hcancel
        exact absurd (Option.some.inj hcancel).symm hid
      · rw [hnone] at hcancel
        cases hcancel
  cases h with
  | idle _ _ _ hcancels => exact hsame hcancels rfl
  | pruned p _ _ _ hcancels | admitted key p _ _ _ _ hcancels | moved g y _ _ _ _ _ _ hcancels
  | changed g y key f _ _ _ _ _ _ _ _ hcancels | erased g key _ _ _ _ hcancels
  | stored g key state token username _ _ _ _ _ _ _ hcancels => exact hsame hcancels rfl
  | called id' key hx _ _ _ hcancels | removed id' key hx _ _ _ hcancels =>
      exact hmoved hx (by simp [CancelAt.rank]) hcancels (.inl ⟨rfl, rfl⟩)
  | returned id' key hx _ _ _ hcancels =>
      exact hmoved hx (by simp [CancelAt.rank]) hcancels (.inr rfl)
  | cleared id' key hx _ _ _ hcancels =>
      exact hmoved hx (by simp [CancelAt.rank]) hcancels (.inl ⟨rfl, rfl⟩)

/-- A cancel keeps the key it was called with. -/
theorem OAuthEffect.cancel_key (h : OAuthEffect s e t) {id : Nat}
    (hkey : (t.cancels id).key? = some key) :
    e = .called id key ∨ (s.cancels id).key? = some key := by
  have hmoved : ∀ {id' : Nat} {y : CancelAt}, t.cancels = Function.update s.cancels id' y →
      (y.key? = some key → id = id' → e = .called id key ∨ (s.cancels id).key? = some key) →
      e = .called id key ∨ (s.cancels id).key? = some key := by
    intro id' y hcancels hy
    rw [hcancels, Function.update_apply] at hkey
    by_cases hid : id = id'
    · rw [if_pos hid] at hkey
      exact hy hkey hid
    · rw [if_neg hid] at hkey
      exact .inr hkey
  cases h with
  | idle _ _ _ hcancels => exact .inr (hcancels ▸ hkey)
  | pruned p _ _ _ hcancels | admitted _ p _ _ _ _ hcancels | moved g y _ _ _ _ _ _ hcancels
  | changed g y _ f _ _ _ _ _ _ _ _ hcancels | erased g _ _ _ _ _ hcancels
  | stored g _ state token username _ _ _ _ _ _ _ hcancels => exact .inr (hcancels ▸ hkey)
  | called id' key' hx _ _ _ hcancels =>
      refine hmoved hcancels fun hy hid => .inl ?_
      rw [hid, show key' = key from Option.some.inj hy]
  | removed id' key' hx _ _ _ hcancels =>
      refine hmoved hcancels fun hy hid => .inr ?_
      rw [hid, hx]
      exact hy
  | returned id' key' hx _ _ _ hcancels => exact hmoved hcancels (nofun)
  | cleared id' key' hx _ _ _ hcancels => exact hmoved hcancels (nofun)

/-- What holds of the cancels after any run. -/
structure CancelsOk (es : List OAuthEvent) (s : OAuthState) : Prop where
  ranked : Ranked es
  below : ∀ e ∈ es, ∀ id, e.cancel? = some id → e.rank < (s.cancels id).rank
  called : ∀ id key, (s.cancels id).key? = some key → .called id key ∈ es
  cleared : ∀ id key, .cleared id key ∈ es → .called id key ∈ es

theorem OAuthEffect.cleared_spec (h : OAuthEffect s e t) {id : Nat} (he : e = .cleared id key) :
    s.cancels id = .removed key ∧ t.flows = s.flows ∧
      t.tokens = Function.update s.tokens key none := by
  cases h with
  | cleared id' key' hx hflows htokens =>
      obtain ⟨rfl, rfl⟩ := OAuthEvent.cleared.inj he
      exact ⟨hx, hflows, htokens⟩
  | _ => cases he

theorem CancelsOk.initial (h : s.Initial) : CancelsOk [] s := by
  refine ⟨.nil, nofun, fun id key hkey => ?_, nofun⟩
  rw [h.cancels] at hkey
  cases hkey

theorem CancelsOk.step (hok : CancelsOk es s) (h : OAuthEffect s e t) :
    CancelsOk (es ++ [e]) t := by
  constructor
  case ranked =>
    refine List.pairwise_append.mpr ⟨hok.ranked, List.pairwise_singleton _ _, ?_⟩
    intro a ha b hb id hida hidb
    obtain rfl := List.mem_singleton.mp hb
    rw [((h.rank id).2 hidb).1]
    exact hok.below a ha id hida
  case below =>
    intro a ha id hid
    rcases mem_snoc.mp ha with ha | rfl
    · exact (hok.below a ha id hid).trans_le (h.rank id).1
    · exact ((h.rank id).2 hid).2
  case called =>
    intro id key hkey
    rcases h.cancel_key hkey with he | hkey
    · exact mem_snoc.mpr (.inr he)
    · exact mem_snoc.mpr (.inl (hok.called id key hkey))
  case cleared =>
    intro id key hmem
    rcases mem_snoc.mp hmem with hmem | he
    · exact mem_snoc.mpr (.inl (hok.cleared id key hmem))
    · refine mem_snoc.mpr (.inl (hok.called id key ?_))
      rw [(h.cleared_spec he).1]
      rfl

/-- What comes before a cancel is called comes before it commits. -/
theorem Ranked.before_cleared (h : Ranked es) {x : OAuthEvent} {id : Nat}
    (hcall : List.Sublist [x, .called id key] es) (hmem : .cleared id key ∈ es) :
    List.Sublist [x, .cleared id key] es := by
  obtain ⟨es₁, es₂, rfl, hx, hcalled⟩ := List.cons_sublist_iff.mp hcall
  rcases List.mem_append.mp hmem with hmem | hmem
  · have hlt := (List.pairwise_append.mp h).2.2 _ hmem _ (List.singleton_sublist.mp hcalled) id
      rfl rfl
    simp [OAuthEvent.rank] at hlt
  · exact List.cons_sublist_iff.mpr ⟨es₁, es₂, rfl, hx, List.singleton_sublist.mpr hmem⟩

/-- A cancel removes the flow before it clears the token. -/
theorem Ranked.removed_first {es₁ es₂ : List OAuthEvent} {id : Nat} {key' : FlowKey}
    {o : Option Nat} (h : Ranked (es₁ ++ .cleared id key :: es₂))
    (hmem : .removed id key' o ∈ es₁ ++ .cleared id key :: es₂) : .removed id key' o ∈ es₁ := by
  rcases List.mem_append.mp hmem with hmem | hmem
  · exact hmem
  · rcases List.mem_cons.mp hmem with he | hmem
    · cases he
    · have hlt := (List.pairwise_cons.mp (List.pairwise_append.mp h).2.1).1 _ hmem id rfl rfl
      simp [OAuthEvent.rank] at hlt

/-! ## Tokens -/

/-- What has changed the token of a key: a store of a generation, or a cancel. -/
inductive TokenOp where
  | store (generation : Nat) (token : String)
  | cancel (id : Nat)

namespace TokenOp

def apply : Option String → TokenOp → Option String
  | _, store _ token => some token
  | _, cancel _ => none

/-- The event an operation begins with. A store is one section. -/
def begins (key : FlowKey) : TokenOp → OAuthEvent
  | store g token => .stored key g token
  | cancel id => .called id key

def commits (key : FlowKey) : TokenOp → OAuthEvent
  | store g token => .stored key g token
  | cancel id => .cleared id key

end TokenOp

def OAuthEvent.tokenOp? (key : FlowKey) : OAuthEvent → Option TokenOp
  | stored key' g token => if key' = key then some (.store g token) else none
  | cleared id key' => if key' = key then some (.cancel id) else none
  | _ => none

/-- The operations on a token that have committed, in this order. -/
def tokenOps (key : FlowKey) (es : List OAuthEvent) : List TokenOp :=
  es.filterMap (·.tokenOp? key)

/-- Some order of the stores and cancels that have committed keeps their real time and leads
from the old token to the new one. -/
def TokenSerial (es : List OAuthEvent) (key : FlowKey) (old new : Option String) : Prop :=
  ∃ order : List TokenOp, order.Perm (tokenOps key es) ∧
    (∀ a ∈ order, ∀ b ∈ order, List.Sublist [a.commits key, b.begins key] es →
      List.Sublist [a, b] order) ∧
    new = order.foldl TokenOp.apply old

theorem tokenOp?_eq_some {a : TokenOp} : e.tokenOp? key = some a ↔ e = a.commits key := by
  constructor
  · intro h
    cases e with
    | stored key' g token | cleared id key' =>
        obtain ⟨rfl, rfl⟩ : key' = key ∧ _ = a := by
          simpa [OAuthEvent.tokenOp?] using h
        rfl
    | _ => cases h
  · rintro rfl
    cases a <;> exact if_pos rfl

theorem mem_tokenOps {a : TokenOp} : a ∈ tokenOps key es ↔ a.commits key ∈ es := by
  simp only [tokenOps, List.mem_filterMap, tokenOp?_eq_some, exists_eq_right]

/-- The order of the commits keeps the real time of the calls. -/
theorem tokenOps_order (hranked : Ranked es) {a b : TokenOp} (hb : b ∈ tokenOps key es)
    (h : List.Sublist [a.commits key, b.begins key] es) :
    List.Sublist [a, b] (tokenOps key es) := by
  have hcommits : List.Sublist [a.commits key, b.commits key] es := by
    cases b with
    | store g token => exact h
    | cancel id => exact hranked.before_cleared h (mem_tokenOps.mp hb)
  have hmap := hcommits.filterMap (·.tokenOp? key)
  have ha : (a.commits key).tokenOp? key = some a := tokenOp?_eq_some.mpr rfl
  have hb : (b.commits key).tokenOp? key = some b := tokenOp?_eq_some.mpr rfl
  simp only [List.filterMap_cons, List.filterMap_nil, ha, hb] at hmap
  exact hmap

/-- One section changes a token as its event tells. -/
theorem OAuthEffect.tokens (h : OAuthEffect s e t) (key : FlowKey) :
    t.tokens key = (tokenOps key [e]).foldl TokenOp.apply (s.tokens key) := by
  have hupdate : ∀ {key' : FlowKey} {x : Option String} {a : TokenOp},
      t.tokens = Function.update s.tokens key' x → (∀ old, a.apply old = x) →
      e.tokenOp? key = (if key' = key then some a else none) →
      t.tokens key = (tokenOps key [e]).foldl TokenOp.apply (s.tokens key) := by
    intro key' x a htokens hx he
    rw [htokens, Function.update_apply]
    by_cases hkey : key' = key
    · rw [if_pos hkey] at he
      rw [if_pos hkey.symm]
      simp [tokenOps, he, ← hx (s.tokens key)]
    · rw [if_neg hkey] at he
      rw [if_neg (Ne.symm hkey)]
      simp [tokenOps, he]
  cases h with
  | idle _ htokens | pruned p _ htokens | admitted _ p _ _ htokens | moved g y _ _ _ _ htokens
  | changed g y _ f _ _ _ _ _ _ htokens | erased g _ _ _ htokens => exact congrFun htokens key
  | stored g key' state token username _ _ _ _ _ htokens =>
      exact hupdate htokens (a := .store g token) (fun _ => rfl) rfl
  | called id key' _ _ htokens => exact congrFun htokens key
  | removed id key' _ _ htokens | returned id key' _ _ htokens => exact congrFun htokens key
  | cleared id key' _ _ htokens =>
      exact hupdate htokens (a := .cancel id) (fun _ => rfl) rfl

/-! ## Runs -/

/-- The invariants hold after any run. -/
theorem run_ok (h0 : s.Initial) (h : Run (OAuthStep c) s es t) : TableOk es t ∧ CancelsOk es t := by
  induction h with
  | nil => exact ⟨.initial h0, .initial h0⟩
  | snoc _ hstep ih =>
      obtain ⟨a, ha⟩ := hstep
      exact ⟨ih.1.step (perform_effect ha), ih.2.step (perform_effect ha)⟩

/-- The tokens after a run are those its commits leave, in their order. -/
theorem run_tokens (h : Run (OAuthStep c) s es t) (key : FlowKey) :
    t.tokens key = (tokenOps key es).foldl TokenOp.apply (s.tokens key) := by
  induction h with
  | nil => rfl
  | snoc _ hstep ih =>
      obtain ⟨a, ha⟩ := hstep
      rw [(perform_effect ha).tokens key, ih]
      simp only [tokenOps, List.filterMap_append, List.foldl_append]

def OAuthEvent.generation? : OAuthEvent → Option Nat
  | admitted _ g => some g
  | _ => none

/-- Generations are handed out in order, so none twice. -/
theorem run_generations (h0 : s.Initial) (h : Run (OAuthStep c) s es t) :
    (es.filterMap OAuthEvent.generation?).Pairwise (· < ·) := by
  induction h with
  | nil => exact .nil
  | snoc hrun hstep ih =>
      rename_i e
      obtain ⟨a, ha⟩ := hstep
      rw [List.filterMap_append]
      refine List.pairwise_append.mpr ⟨ih, ?_, ?_⟩
      · cases e with
        | admitted key g => exact List.pairwise_singleton _ g
        | _ => exact .nil
      · intro g hg g' hg'
        obtain ⟨old, hold, hgen⟩ := List.mem_filterMap.mp hg
        obtain ⟨e', he', hgen'⟩ := List.mem_filterMap.mp hg'
        obtain rfl := List.mem_singleton.mp he'
        rcases (perform_effect ha).next with ⟨key, rfl, -⟩ | ⟨hne, -⟩
        · obtain rfl := Option.some.inj hgen'
          cases old with
          | admitted key' g =>
              obtain rfl := Option.some.inj hgen
              exact (run_ok h0 hrun).1.admitted key' g hold
          | _ => cases hgen
        · cases e' with
          | admitted key' g => exact absurd rfl (hne key' g)
          | _ => cases hgen'

/-- The flow of a generation is in the table, has not expired, and no later flow was admitted
or cancel done. -/
structure OwnFlow (es : List OAuthEvent) (s : OAuthState) (key : FlowKey) (g : Nat) : Prop where
  entry : ∃ f, s.flows.lookup key = some f ∧ f.generation = g ∧ s.now < f.status.expiresAt
  admitted : .admitted key g ∈ es
  latest : ∀ g', .admitted key g' ∈ es → g' ≤ g
  kept : ∀ id, .removed id key (some g) ∉ es

/-- A store is for the flow in the table. -/
theorem OAuthEffect.own_flow {g : Nat} {token : String} (hok : TableOk es s)
    (h : OAuthEffect s (.stored key g token) t) : OwnFlow es s key g := by
  obtain ⟨-, -, f, state, hf, hstate, hnow⟩ := h.stored_spec rfl
  have hexpiry := hok.expiry g key state f hstate hf
  obtain ⟨hlookup, rfl⟩ := flow?_eq_some.mp hf
  exact {
    entry := ⟨f, hlookup, rfl, hexpiry ▸ hnow⟩
    admitted := hok.origin key f hlookup
    latest := fun g' hg' => hok.latest key f g' hlookup hg'
    kept := fun id hid => (hok.gone id key _ hid).2 f hlookup rfl }

/-- A step that does not clear the token of a flow that has succeeded and is in the table. -/
def OAuthState.Calm (s : OAuthState) (e : OAuthEvent) : Prop :=
  ∀ id key f, e = .cleared id key → s.flows.lookup key = some f → f.status.status ≠ .success

/-- The success that a flow reports is of the token that is stored. -/
def OAuthState.Reported (es : List OAuthEvent) (s : OAuthState) : Prop :=
  ∀ key f, s.flows.lookup key = some f → f.status.status = .success →
    ∃ token, .stored key f.generation token ∈ es ∧ s.tokens key = some token

theorem OAuthState.Reported.step (hs : s.Reported es) (h : OAuthEffect s e t) (hcalm : s.Calm e) :
    t.Reported (es ++ [e]) := by
  intro key f hf hsuccess
  -- A token changes by a store for the flow in the table, or by a cancel.
  have hkept : ∀ old, s.flows.lookup key = some old → old.status.status = .success →
      (∀ token, e ≠ .stored key old.generation token) → t.tokens key = s.tokens key := by
    intro old hold hold' hne
    rw [h.tokens key]
    cases he : e.tokenOp? key with
    | none => simp [tokenOps, he]
    | some a =>
        have hcommit := tokenOp?_eq_some.mp he
        cases a with
        | store g token =>
            obtain ⟨-, -, flow, _, hflow, -, -⟩ := h.stored_spec hcommit
            obtain ⟨hlookup, rfl⟩ := flow?_eq_some.mp hflow
            rw [hold] at hlookup
            obtain rfl := Option.some.inj hlookup
            exact absurd hcommit (hne token)
        | cancel id => exact absurd hold' (hcalm id key old hcommit hold)
  rcases h.lookup hf with ⟨-, rfl⟩ | ⟨old, hold, hgen, -, -, hchange⟩
  · cases hsuccess
  · have hstill : old.status.status = .success →
        (∀ token, e ≠ .stored key old.generation token) →
        ∃ token, .stored key f.generation token ∈ es ++ [e] ∧ t.tokens key = some token := by
      intro hold' hne
      obtain ⟨token, hmem, htoken⟩ := hs key old hold hold'
      rw [hgen, hkept old hold hold' hne]
      exact ⟨token, mem_snoc.mpr (.inl hmem), htoken⟩
    rcases hchange with ⟨rfl, hne⟩ | ⟨-, -, hne, hfailed⟩ | ⟨token, he, -, -⟩
    · exact hstill hsuccess hne
    · exact hstill (hfailed hsuccess) hne
    · refine ⟨token, mem_snoc.mpr (.inr (hgen ▸ he)), ?_⟩
      rw [(h.stored_spec he).2.1, Function.update_self]

/-- A run of sections that are all calm. -/
def CalmStep (c : OAuthConfig) (s : OAuthState) (e : OAuthEvent) (t : OAuthState) : Prop :=
  OAuthStep c s e t ∧ s.Calm e

theorem calm_run_reported (h0 : s.Initial) (h : Run (CalmStep c) s es t) : t.Reported es := by
  induction h with
  | nil =>
      intro key f hf
      rw [h0.flows] at hf
      cases hf
  | snoc _ hstep ih =>
      obtain ⟨⟨a, ha⟩, hcalm⟩ := hstep
      exact ih.step (perform_effect ha) hcalm

/-- A section that is not calm leaves a flow that reports a token which is not there. -/
theorem OAuthEffect.unreported (h : OAuthEffect s e t) (hcalm : ¬ s.Calm e) : ¬ t.Reported es := by
  intro hreported
  simp only [OAuthState.Calm, not_forall, ne_eq, not_not] at hcalm
  obtain ⟨id, key, f, he, hf, hsuccess⟩ := hcalm
  obtain ⟨-, hflows, htokens⟩ := h.cleared_spec he
  obtain ⟨token, -, htoken⟩ := hreported key f (hflows ▸ hf) hsuccess
  rw [htokens, Function.update_self] at htoken
  cases htoken

/-! ## Sign-in -/

/-- What every run of device sign-in keeps. -/
structure SignIn (c : OAuthConfig) (s : OAuthState) (es : List OAuthEvent) (t : OAuthState) :
    Prop where
  generations : (es.filterMap OAuthEvent.generation?).Pairwise (· < ·)
  /-- A token is stored by the generation that is in the table. -/
  own : ∀ es₁ key g token es₂, es = es₁ ++ .stored key g token :: es₂ →
    ∃ u, Run (OAuthStep c) s es₁ u ∧ OwnFlow es₁ u key g
  success : ∀ key f, t.flows.lookup key = some f →
    (f.status.status = .success ↔ ∃ token, .stored key f.generation token ∈ es)
  serial : ∀ key, TokenSerial es key (s.tokens key) (t.tokens key)
  /-- A cancel that has returned leaves no token of the flow that it removed, and none at all
  but for a later flow. -/
  cancelled : ∀ es₁ id key es₂, es = es₁ ++ .cleared id key :: es₂ →
    .called id key ∈ es₁ ∧
    (∀ g token, .removed id key (some g) ∈ es → .stored key g token ∉ es₂) ∧
    ((∀ g token, .stored key g token ∉ es₂) → t.tokens key = none)
  size : Dict.size t.flows ≤ 1024

theorem foldl_apply_none {ops : List TokenOp} (h : ∀ g token, .store g token ∉ ops) :
    ops.foldl TokenOp.apply none = none := by
  induction ops with
  | nil => rfl
  | cons a ops ih =>
      have hops : ∀ g token, .store g token ∉ ops := fun g token hmem =>
        h g token (List.mem_cons_of_mem _ hmem)
      cases a with
      | store g token => exact absurd List.mem_cons_self (h g token)
      | cancel id => exact ih hops

theorem run_sign_in (h0 : s.Initial) (h : Run (OAuthStep c) s es t) : SignIn c s es t := by
  obtain ⟨htable, hcancels⟩ := run_ok h0 h
  have hown : ∀ es₁ key g token es₂, es = es₁ ++ .stored key g token :: es₂ →
      ∃ u, Run (OAuthStep c) s es₁ u ∧ OwnFlow es₁ u key g := by
    intro es₁ key g token es₂ hes
    rw [hes] at h
    obtain ⟨u, v, hu, ⟨a, ha⟩, -⟩ := h.split_at
    exact ⟨u, hu, (perform_effect ha).own_flow (run_ok h0 hu).1⟩
  constructor
  case generations => exact run_generations h0 h
  case own => exact hown
  case success => exact htable.success
  case serial =>
    intro key
    exact ⟨tokenOps key es, .refl _, fun a _ b hb => tokenOps_order hcancels.ranked hb,
      run_tokens h key⟩
  case cancelled =>
    intro es₁ id key es₂ hes
    rw [hes] at h
    obtain ⟨u, v, hu, ⟨a, ha⟩, hv⟩ := h.split_at
    obtain ⟨hremoved, -, htokens⟩ := (perform_effect ha).cleared_spec rfl
    refine ⟨(run_ok h0 hu).2.called id key (by rw [hremoved]; rfl), ?_, ?_⟩
    · intro g token hmem hstored
      obtain ⟨l₁, l₂, rfl⟩ := List.append_of_mem hstored
      obtain ⟨w, -, hw⟩ := hown (es₁ ++ .cleared id key :: l₁) key g token l₂ (by simp [hes])
      have hfirst := (hes ▸ hcancels.ranked).removed_first (hes ▸ hmem)
      exact hw.kept id (List.mem_append_left _ hfirst)
    · intro hnone
      rw [run_tokens hv key, htokens, Function.update_self]
      exact foldl_apply_none fun g token hmem => hnone g token (mem_tokenOps.mp hmem)
  case size => exact htable.size

/-- **Device sign-in.** The tokens are those of some order of the stores and cancels that keeps
their real time, and each is stored by the flow in the table. In a run whose sections are all
calm a flow that reports success has its token stored; a section that is not calm makes this
false. -/
theorem sign_in_linearizable (c : OAuthConfig) (s t : OAuthState) (es : List OAuthEvent)
    (h0 : s.Initial) :
    (Run (OAuthStep c) s es t → SignIn c s es t) ∧
    (Run (CalmStep c) s es t → SignIn c s es t ∧ t.Reported es) ∧
    (∀ e u, OAuthStep c t e u → ¬ t.Calm e → ¬ u.Reported (es ++ [e])) := by
  refine ⟨run_sign_in h0, fun h => ⟨run_sign_in h0 (h.mono And.left), calm_run_reported h0 h⟩, ?_⟩
  rintro e u ⟨a, ha⟩ hcalm
  exact (perform_effect ha).unreported hcalm

/-! ## A cancel that is late -/

section

def freshService : OAuthState where
  now := 0
  closing := false
  flows := ∅
  nextGeneration := 1
  cancelled _ := false
  tokens _ := none
  tasks _ := .absent
  cancels _ := .absent

theorem freshService_initial : freshService.Initial where
  flows := rfl
  nextGeneration := rfl
  tasks _ := rfl
  cancels _ := rfl

def readClient : OAuthConfig := ⟨"client", none⟩

def act (s : OAuthState) (a : OAuthAction) : OAuthEvent × OAuthState :=
  (perform readClient s a).getD (.other, s)

/-- User 1 signs in. -/
def signingIn : List OAuthAction :=
  [.start (1, false) true,
   .grant 1 (.ok (.obj [("device_code", .str "d"), ("user_code", .str "u")])),
   .publish 1 true, .poll 1 .go, .poll 1 .go, .poll 1 .go, .poll 1 (.authorized true),
   .poll 1 (.answer (.ok (.obj [("access_token", .str "t")]))), .poll 1 (.login none),
   .poll 1 (.connection true), .poll 1 (.saved true)]

/-- User 1 signs in, and then cancels. -/
def signingOut : List OAuthAction :=
  signingIn ++ [.cancel 0 (1, false), .remove 0, .clear 0 true]

/-- The event clears no token of a flow in the table. -/
def calmHere (s : OAuthState) : OAuthEvent → Bool
  | .cleared _ key => (s.flows.lookup key).isNone
  | _ => true

theorem calm_of_here (h : calmHere s e = true) : s.Calm e := by
  rintro id key f rfl hf
  rw [calmHere, hf] at h
  cases h

theorem signingOut_linearizable :
    SignIn readClient freshService (play act freshService signingOut).1
        (play act freshService signingOut).2 ∧
      (play act freshService signingOut).2.Reported (play act freshService signingOut).1 ∧
      (play act freshService signingIn).2.tokens (1, false) = some "t" ∧
      (play act freshService signingOut).2.tokens (1, false) = none := by
  have hcalm : ∀ s a, ((perform readClient s a).any fun r => calmHere s r.1) = true →
      CalmStep readClient s (act s a).1 (act s a).2 := by
    intro s a hmay
    cases h : perform readClient s a with
    | none =>
        rw [h] at hmay
        cases hmay
    | some r =>
        rw [h] at hmay
        have hact : act s a = r := by simp [act, h]
        rw [hact]
        exact ⟨⟨a, h⟩, calm_of_here hmay⟩
  have h := (sign_in_linearizable readClient freshService _ _ freshService_initial).2.1
    (play_run hcalm (by rfl : allowed act _ freshService signingOut = true))
  refine ⟨h.1, h.2, rfl, ?_⟩
  have hlog : (play act freshService signingOut).1 =
      (play act freshService signingOut).1.take 13 ++ .cleared 0 (1, false) :: [] := rfl
  exact (h.1.cancelled _ 0 (1, false) [] hlog).2.2 fun _ _ hmem => (by cases hmem)

/-- A cancel of user 1 that was called before, and finds no flow. -/
def lateCancel : List OAuthAction :=
  [.cancel 0 (1, false), .remove 0] ++ signingIn ++ [.clear 0 true]

/-- All calls have returned, the flow reports success, and there is no token. -/
theorem success_without_token :
    ¬ ∀ (c : OAuthConfig) (s t : OAuthState) (es : List OAuthEvent), s.Initial →
      Run (OAuthStep c) s es t → (∀ id, t.cancels id = .absent ∨ t.cancels id = .returned) →
      ∀ key f, t.flows.lookup key = some f → f.status.status = .success →
        (t.tokens key).isSome = true := by
  intro hall
  have hstep : ∀ s a, (perform readClient s a).isSome = true →
      OAuthStep readClient s (act s a).1 (act s a).2 := by
    intro s a hmay
    obtain ⟨r, hr⟩ := Option.isSome_iff_exists.mp hmay
    have hact : act s a = r := by simp [act, hr]
    rw [hact]
    exact ⟨a, hr⟩
  have hrun : Run (OAuthStep readClient) freshService (play act freshService lateCancel).1
      (play act freshService lateCancel).2 := play_run hstep (by rfl)
  obtain ⟨f, hf, hsuccess⟩ : ∃ f, (play act freshService lateCancel).2.flows.lookup (1, false) =
      some f ∧ f.status.status = .success := ⟨_, rfl, rfl⟩
  have htoken := hall readClient freshService _ _ freshService_initial hrun (fun id => ?_)
    (1, false) f hf hsuccess
  · cases htoken
  · by_cases hid : id = 0
    · subst hid
      exact .inr rfl
    · refine .inl ?_
      show Function.update (Function.update (Function.update _ 0 _) 0 _) 0 _ id = _
      rw [Function.update_of_ne hid, Function.update_of_ne hid, Function.update_of_ne hid]
      rfl

end

end YoinkCore.Insight
