import YoinkCore.Inbox.MutationApplies

/-!
# Why a mutation is applied

The effects of an intent are committed on evidence: its send was accepted, or a caller that
had read it as sent saw GitHub as the request wants it, or found the list that is adopted.
Such a caller does not know whether the send has ended. When the send is refused after
that, the effects stay.
-/

namespace YoinkCore.Inbox

open Lib Asking
open Storage (Uuid uuid)

/-! ## Evidence in a run -/

/-- The send of the intent was admitted, and GitHub accepted it. -/
def SendAccepted (es : List CallerTurn) (caller : Nat) (id : Uuid) (result : Json) : Prop :=
  ∃ es₁ intent prepared now es₂, intent.id = id ∧
    es = es₁ ++ .answer caller (.store (.beginMutationSend intent prepared now)) (.ok true) ::
      es₂ ∧
    Accepted intent.request prepared result (heardBy caller es₂)

/-- The send of the intent was admitted, and came back with an error. -/
def SendRefused (es : List CallerTurn) (id : Uuid) : Prop :=
  ∃ es₁ caller intent prepared now es₂ token c e rest, intent.id = id ∧
    es = es₁ ++ .answer caller (.store (.beginMutationSend intent prepared now)) (.ok true) ::
      es₂ ∧
    SendsCall token prepared intent.request c ∧ heardBy caller es₂ = ⟨.github c, .error e⟩ :: rest

/-- After the send of the intent was admitted, the caller read it as sent, and then heard
`rest`. -/
def ReadAsSent (es : List CallerTurn) (caller : Nat) (user : Int) (intent : Intent)
    (rest : Heard) : Prop :=
  ∃ es₁ es₂, es = es₁ ++ .answer caller (.store (.mutation user intent.id)) (.ok intent) :: es₂ ∧
    intent.inFlight = true ∧ (∃ e ∈ es₁, CallerTurn.Sends intent.id e) ∧ heardBy caller es₂ = rest

/-- GitHub was seen to be as the request wants it. -/
def SeenDesired (es : List CallerTurn) (caller : Nat) (user : Int) (id : Uuid) (result : Json) :
    Prop :=
  ∃ intent prepared rest, intent.id = id ∧ ReadAsSent es caller user intent rest ∧
    intent.prepared = some prepared ∧ Observed prepared rest intent.request ∧ result = .obj []

/-- A list that was not there before the send is adopted. -/
def SeenAdopted (es : List CallerTurn) (caller : Nat) (user : Int) (id : Uuid) (result : Json) :
    Prop :=
  ∃ intent body prepared baseline token catalog l rest, intent.id = id ∧
    ReadAsSent es caller user intent rest ∧ intent.request = .createList body ∧
    intent.prepared = some prepared ∧ strings (prepared.entry "baseline") = some baseline ∧
    ⟨.github (.catalogue token), .ok catalog⟩ ∈ rest ∧ l ∈ catalog ∧ l.id ∉ baseline ∧
    some l.name = (body.entry "name").asStr ∧ result = l.toJson

section

variable {May : Entry → Prop} {s u v t : Callers} {es : List CallerTurn} {e : CallerTurn}

/-- What is no longer prepared, and not rejected, was sent. -/
theorem sent_of_run (hs : s.shared.db.Initial) (h : Run (CallerStep May) s es t) {j : Intent}
    (hj : j ∈ t.shared.db.mutations.rows) (hprepared : j.state ≠ .prepared)
    (hrejected : j.state ≠ .rejected) : ∃ e ∈ es, CallerTurn.Sends j.id e := by
  induction h generalizing j with
  | nil =>
      rw [hs.mutations] at hj
      cases hj
  | @snoc es u v e hrun hstep ih =>
      have hpast : ∀ {i : Intent}, i ∈ u.shared.db.mutations.rows → i.id = j.id →
          i.state ≠ .prepared → i.state ≠ .rejected →
            ∃ e' ∈ es ++ [e], CallerTurn.Sends j.id e' := by
        intro i hi hid hp hr
        obtain ⟨e', he', hsends⟩ := ih hi hp hr
        exact ⟨e', List.mem_append_left _ he', hid ▸ hsends⟩
      rcases hstep.backward hj with ⟨i, hi, hmoves⟩ | ⟨_, _, _, _, _, _, -, -, -, hnew⟩
      · have hid := hmoves.keeps.1
        cases hmoves with
        | same => exact hpast hi rfl hprepared hrejected
        | call moved =>
            cases moved with
            | kept => exact hpast hi rfl hprepared hrejected
            | unlinked => exact hpast hi rfl hprepared hrejected
            | begun of state =>
                refine ⟨_, List.mem_append_right _ List.mem_cons_self, ?_⟩
                exact ⟨_, _, _, _, (isOf_iff.mp of).1.symm, rfl⟩
            | confirmed of state =>
                refine hpast hi rfl ?_ ?_ <;> intro h <;> simp [Intent.inFlight, h] at state
            | quarantined of state => exact hpast hi rfl (by simp [state]) (by simp [state])
            | cancelled => exact absurd rfl hrejected
            | rejected => exact absurd rfl hrejected
            | applied of state => exact hpast hi rfl (by simp [state]) (by simp [state])
      · exact absurd hnew.state hprepared

/-- A confirmed intent has the result that a turn confirmed. -/
theorem confirmed_by_run (hs : s.shared.db.Initial) (h : Run (CallerStep May) s es t) {j : Intent}
    (hj : j ∈ t.shared.db.mutations.rows) (hstate : j.state = .confirmed) :
    ∃ es₁ caller result now es₂,
      es = es₁ ++ .answer caller (.store (.confirmMutation j.userId j.id result now)) (.ok ()) ::
        es₂ ∧ j.result = some result := by
  induction h generalizing j with
  | nil =>
      rw [hs.mutations] at hj
      cases hj
  | @snoc es u v e hrun hstep ih =>
      have hpast : ∀ {i : Intent}, i ∈ u.shared.db.mutations.rows → i.id = j.id →
          i.userId = j.userId → i.result = j.result → i.state = .confirmed →
          ∃ es₁ caller result now es₂, es ++ [e] = es₁ ++
            .answer caller (.store (.confirmMutation j.userId j.id result now)) (.ok ()) :: es₂ ∧
              j.result = some result := by
        intro i hi hid huser hresult hc
        obtain ⟨es₁, caller, result, now, es₂, rfl, hr⟩ := ih hi hc
        refine ⟨es₁, caller, result, now, es₂ ++ [e], ?_, hresult ▸ hr⟩
        rw [hid, huser]
        simp
      rcases hstep.backward hj with ⟨i, hi, hmoves⟩ | ⟨_, _, _, _, _, _, -, -, -, hnew⟩
      · cases hmoves with
        | same => exact hpast hi rfl rfl rfl hstate
        | @call caller _ _ _ _ _ moved =>
            cases moved with
            | kept | unlinked => exact hpast hi rfl rfl rfl hstate
            | begun | quarantined | cancelled | rejected | applied => cases hstate
            | @confirmed user id result now _ of state =>
                obtain ⟨hid, huser⟩ := isOf_iff.mp of
                exact ⟨es, caller, result, now, [], by simp [Intent.confirm, hid, huser], rfl⟩
      · rw [hnew.state] at hstate
        cases hstate

/-- An intent that a caller reads is a row. -/
theorem read_row {caller : Nat} {user : Int} {id : Uuid} {intent : Intent}
    (h : CallerStep May u (.answer caller (.store (.mutation user id)) (.ok intent)) v) :
    intent ∈ u.shared.db.mutations.rows ∧ intent.id = id := by
  rcases h with _ | ⟨turn, gives⟩
  cases gives with
  | store new result =>
      have hfind : u.shared.db.intent? user id = some intent :=
        eq_some_of_elim (congrArg Prod.fst result)
      obtain ⟨hmem, -, hid⟩ := Ledger.intent?_eq_some.mp hfind
      exact ⟨hmem, hid⟩

/-- What was read in flight had been sent. -/
theorem readAsSent_of_since (hs : s.shared.db.Initial) (h : Run (CallerStep May) s es t)
    {caller : Nat} {user : Int} {id : Uuid} {intent : Intent} {rest : Heard}
    (hsince : Since (heardBy caller es) (.store (.mutation user id)) (.ok intent) rest)
    (hflight : intent.inFlight = true) :
    intent.id = id ∧ ReadAsSent es caller user intent rest := by
  obtain ⟨before, hheard⟩ := hsince
  obtain ⟨es₁, es₂, rfl, -, hrest⟩ := heardBy_eq_append_cons hheard
  obtain ⟨u, v, hfirst, hstep, -⟩ := h.split_at
  obtain ⟨hmem, rfl⟩ := read_row hstep
  refine ⟨rfl, es₁, es₂, rfl, hflight, ?_, hrest⟩
  refine sent_of_run hs hfirst hmem ?_ ?_ <;> intro hstate <;>
    simp [Intent.inFlight, hstate] at hflight

/-- A send is admitted once, so that it is not both accepted and refused. -/
theorem not_accepted_of_refused (h : Run (CallerStep May) s es t) {es₁ es₂ : List CallerTurn}
    (hes : es = es₁ ++ es₂) {caller : Nat} {id : Uuid} {result : Json}
    (hrefused : SendRefused es id) : ¬ SendAccepted es₁ caller id result := by
  rintro ⟨a₁, intent, prepared, now, a₂, hid, ha, haccepted⟩
  obtain ⟨b₁, caller', intent', prepared', now', b₂, token, c, e, rest, hid', hb, hsends,
    hheard⟩ := hrefused
  have hfirst : ∀ {caller : Nat} {intent : Intent} {prepared : Json} {now : Int}, intent.id = id →
      CallerTurn.Sends id (.answer caller (.store (.beginMutationSend intent prepared now))
        (.ok true)) := fun hid => ⟨_, _, _, _, hid, rfl⟩
  have hsplit : es = a₁ ++ .answer caller (.store (.beginMutationSend intent prepared now))
      (.ok true) :: (a₂ ++ es₂) := by
    rw [hes, ha]
    simp
  rcases append_cons_cases (hsplit.symm.trans hb) with ⟨-, he, hrest⟩ | ⟨l, hl⟩ | ⟨l, hl⟩
  · cases he
    rw [← hrest, heardBy_append] at hheard
    rcases haccepted with ⟨folder, body, hreq, hname, -⟩ | ⟨token', c', d, after, -, -, hafter⟩
    · rw [hreq] at hsends
      cases hsends with
      | editList named linked =>
          rw [hname] at named
          cases named
    · rw [hafter] at hheard
      simp only [List.cons_append, List.cons.injEq] at hheard
      cases hheard.1
  · rw [hsplit, hl] at h
    exact sends_once h (.inl (hfirst hid)) (hfirst hid')
  · rw [hb, hl] at h
    exact sends_once h (.inl (hfirst hid')) (hfirst hid)

end

/-- Every request may be asked for. -/
theorem any_requests (e : Entry) : e.Requests fun _ => True := by
  cases e with
  | createFolder => exact fun _ => trivial
  | renameRemote => exact fun _ _ => trivial
  | _ => exact trivial

/-- **Effects need evidence.** When the local effects of an intent are committed, a caller
has confirmed its result before. Either the send it had admitted was accepted; or it had
read the intent as sent, and then saw GitHub as the request wants it, or found the list
that is adopted. When the send comes back with an error, before or later, it is one of the
last two. -/
theorem effects_need_evidence {s u v t : Callers} {es es' : List CallerTurn} {e : CallerTurn}
    {i : Intent} (h : CallersReach anyEntry s es u) (hstep : CallerStep anyEntry u e v)
    (hcommits : CommitsEffects u e v i) (hlater : Run (CallerStep anyEntry) v es' t) :
    ∃ es₁ caller result now es₂,
      es = es₁ ++ .answer caller (.store (.confirmMutation i.userId i.id result now)) (.ok ()) ::
        es₂ ∧
      i.result = some result ∧
      (SendAccepted es₁ caller i.id result ∨ SeenDesired es₁ caller i.userId i.id result ∨
        SeenAdopted es₁ caller i.userId i.id result) ∧
      (SendRefused (es ++ e :: es') i.id → ¬ SendAccepted es₁ caller i.id result) := by
  obtain ⟨hs, hcallers, hrun⟩ := h
  obtain ⟨_, _, _, _, _, -, hi, hstate, -⟩ := hcommits
  obtain ⟨es₁, caller, result, now, es₂, hes, hresult⟩ := confirmed_by_run hs hrun hi hstate
  refine ⟨es₁, caller, result, now, es₂, hes, hresult, ?_, fun hrefused => ?_⟩
  · subst hes
    have hevidence : Evidence (heardBy caller es₁) i.userId i.id result := by
      refine Pool.allowed (C := Asks fun _ => True) (R := fun _ _ => True) ?_ hrun hcallers
      rintro p ⟨entry, -, rfl⟩
      exact Entry.program_keeps (any_requests entry)
    obtain ⟨w, -, hfirst, -, -⟩ := hrun.split_at
    generalize i.id = id at hevidence ⊢
    cases hevidence with
    | @sent intent id' prepared _ now' rest read begun accepted =>
        obtain ⟨before, hheard⟩ := begun
        obtain ⟨a, b, rfl, -, hrest⟩ := heardBy_eq_append_cons hheard
        exact .inl ⟨a, intent, prepared, now', b, rfl, rfl, hrest ▸ accepted⟩
    | @observed intent _ prepared rest read inFlight hprepared shown =>
        obtain ⟨hid, hread⟩ := readAsSent_of_since hs hfirst read inFlight
        exact .inr (.inl ⟨intent, prepared, rest, hid, hread, hprepared, shown, rfl⟩)
    | @adopted intent _ body prepared baseline token catalog l rest read create inFlight
        hprepared before listed mem new named =>
        obtain ⟨hid, hread⟩ := readAsSent_of_since hs hfirst read inFlight
        exact .inr (.inr ⟨intent, body, prepared, baseline, token, catalog, l, rest, hid, hread,
          create, hprepared, before, listed, mem, new, named, rfl⟩)
  · have hall : Run (CallerStep anyEntry) s (es ++ e :: es') t := by
      simpa using (hrun.snoc hstep).append hlater
    exact not_accepted_of_refused hall (by rw [hes, List.append_assoc]) hrefused

section

open Scenario

/-- Another client has taken the star off. -/
def unstarredElsewhere : GithubWorld := fun
  | .isStarred .. => .ok false
  | _ => .error .external

/-- Writes to stars are refused. -/
def refuses : GithubWorld := fun
  | .star .. => .error .forbidden
  | _ => .error .external

/-- User 1 takes the star off, and a second caller recovers the intent. The first caller
has been admitted to send, and has sent nothing yet. -/
def recovered : List ScriptLine :=
  [.enter (.star 1 1 false), .enter (.reconcile 1 (uuid 0))] ++ turns 0 starring 15 ++
    turns 1 unstarredElsewhere 10

/-- What a write to the star was answered. -/
def CallerTurn.starred? : CallerTurn → Option (Except Error Unit)
  | .answer _ (.github (.star ..)) a => some a
  | _ => none

/-- An intent is applied, and its star marked as taken off, before the send has ended; then
the send is refused. -/
theorem observed_before_send_ended :
    CallersReach anyEntry starredOnce (play perform starredOnce (recovered ++ turns 0 refuses 2)).1
      (after starredOnce (recovered ++ turns 0 refuses 2)) ∧
    (∃ i ∈ (after starredOnce recovered).shared.db.mutations.rows,
      i.id = uuid 0 ∧ i.state = .applied) ∧
    (∀ star ∈ (after starredOnce recovered).shared.db.stars.rows, star.canUnstar = false) ∧
    (play perform starredOnce recovered).1.filterMap CallerTurn.starred? = [] ∧
    (play perform starredOnce (recovered ++ turns 0 refuses 2)).1.filterMap
      CallerTurn.starred? = [.error .forbidden] := by
  refine ⟨⟨⟨rfl, by decide, by decide⟩, rfl, plays (fun _ _ => trivial) (show Lib.allowed perform
    (may fun _ => true) starredOnce (recovered ++ turns 0 refuses 2) = true by decide +kernel)⟩,
    ?_, ?_, ?_, ?_⟩ <;> decide +kernel

/-- The effects of taking a star off are committed on evidence. -/
theorem effects_need_evidence_recovered :
    ∃ user es₁ caller result now es₂,
      (play perform starredOnce recovered).1 = es₁ ++
        .answer caller (.store (.confirmMutation user (uuid 0) result now)) (.ok ()) :: es₂ ∧
      (SendAccepted es₁ caller (uuid 0) result ∨ SeenDesired es₁ caller user (uuid 0) result ∨
        SeenAdopted es₁ caller user (uuid 0) result) := by
  have hrun : Run (CallerStep anyEntry) starredOnce (play perform starredOnce recovered).1
      (after starredOnce recovered) :=
    plays (fun _ _ => trivial) (show Lib.allowed perform (may fun _ => true) starredOnce
      recovered = true by decide +kernel)
  have hrow : ∃ j ∈ (after starredOnce recovered).shared.db.mutations.rows,
      j.id = uuid 0 ∧ j.state = .applied := by
    decide +kernel
  obtain ⟨j, hj, hid, hstate⟩ := hrow
  rcases committed_of_applied hrun hj hstate with ⟨i, hi, -⟩ | ⟨es₁, e, es₂, u, v, i, hes, hu,
    hstep, hv, hi, hcommits⟩
  · cases hi
  · obtain ⟨a, caller, result, now, b, rfl, -, hevidence, -⟩ := effects_need_evidence
      ⟨⟨rfl, by decide, by decide⟩, rfl, hu⟩ hstep hcommits hv
    rw [hi.trans hid] at hes hevidence
    exact ⟨i.userId, a, caller, result, now, b ++ e :: es₂, by simpa using hes, hevidence⟩

end

end YoinkCore.Inbox
