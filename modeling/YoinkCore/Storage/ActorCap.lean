import YoinkCore.Storage.Budget

/-!
# Concurrency of an actor

A claim counts the leases of an actor when it selects, after the expiry of the same
transaction, and no other call leases an operation. So under one policy no actor ever holds
more leases than the policy allows, and a claim takes the first of the operations it may.
-/

namespace YoinkCore.Storage

open Lib Domain

/-! ## Leases of a job -/

variable {P : Kind → Job → Prop} {j j' : Job}

/-- What one step does to the lease of an operation. -/
theorem JobStep.leased {t : Int} {k : Kind} (h : JobStep t k j j') :
    j'.op.actorId = j.op.actorId ∧
      (k ≠ .claim → k ≠ .claimForBot → j'.op.status.leased = true →
        j.op.status.leased = true) := by
  cases h with
  | single h _ hc =>
      cases h with
      | worker h =>
          refine ⟨by cases h <;> rfl, fun _ _ _ => ?_⟩
          cases h <;> grind [OperationStatus.leased]
      | cancel => exact ⟨rfl, fun _ _ => by grind [OperationStatus.leased]⟩
      | claim => exact ⟨rfl, fun h => absurd rfl h⟩
      | claimForBot => exact ⟨rfl, fun _ h => absurd rfl h⟩
  | expire _ _ _ u h hc =>
      subst h
      exact ⟨rfl, fun _ _ _ => by grind [OperationStatus.leased]⟩
  | beginUnit => exact ⟨rfl, fun _ _ h => h⟩
  | outcome h _ _ live _ units _ hc =>
      refine ⟨by cases h <;> grind, fun _ _ _ => by grind [OperationStatus.leased]⟩
  | stop _ _ _ _ u h hc | requeue _ _ live _ _ _ _ _ u h hc =>
      subst h
      exact ⟨rfl, fun _ _ _ => by grind [OperationStatus.leased]⟩

/-- Steps that are no claims lease nothing. -/
theorem JobRun.leased {t : Int} (h : JobRun P t j j')
    (hP : ∀ k i, P k i → k ≠ .claim ∧ k ≠ .claimForBot) :
    j'.op.actorId = j.op.actorId ∧
      (j'.op.status.leased = true → j.op.status.leased = true) := by
  induction h with
  | refl => exact ⟨rfl, id⟩
  | tail _ hs ih =>
      obtain ⟨k, hk, hs⟩ := hs
      obtain ⟨hactor, hleased⟩ := hs.leased
      obtain ⟨hn, hn'⟩ := hP k _ hk
      exact ⟨hactor.trans ih.1, fun h => ih.2 (hleased hn hn' h)⟩

/-! ## Counting leases -/

section

variable [Platform]

variable {policy : ClaimPolicy} {botId : Option Int} {clock : Clock} {db db' : Db}

/-- An actor has at most as many leases as before, besides those listed. -/
theorem activeOf_le {actor : Nat} (more : List Uuid)
    (h : ∀ id o', db'.operation id = some o' → o'.actorId = actor →
      o'.status.leased = true → id ∈ more ∨
      ∃ o, db.operation id = some o ∧ o.actorId = actor ∧ o.status.leased = true) :
    Sql.activeOf db'.operations.rows actor ≤
      Sql.activeOf db.operations.rows actor + more.length := by
  let active (o : OperationRow) : Bool := decide (o.actorId = actor) && o.status.leased
  let ids (db : Db) : List Uuid := (db.operations.rows.filter active).map OperationRow.id
  have hlen : ∀ db : Db, Sql.activeOf db.operations.rows actor = (ids db).length := by
    intro db
    rw [Sql.activeOf, List.length_map, List.countP_eq_length_filter]
  have hnodup : (ids db').Nodup :=
    (Table.keys_nodup db'.operations operationSchema_id).sublist (List.filter_sublist.map _)
  have hsub : ids db' ⊆ more ++ ids db := by
    intro id hid
    obtain ⟨o', ho', rfl⟩ := List.mem_map.mp hid
    obtain ⟨hmem, hactive⟩ := List.mem_filter.mp ho'
    simp only [active, Bool.and_eq_true, decide_eq_true_eq] at hactive
    rcases h o'.id o' (Db.operation_eq_some.mpr ⟨hmem, rfl⟩) hactive.1 hactive.2 with
      hmore | ⟨o, ho, hactor, hleased⟩
    · exact List.mem_append_left _ hmore
    · obtain ⟨hrow, heq⟩ := Db.operation_eq_some.mp ho
      refine List.mem_append_right _ (List.mem_map.mpr ⟨o, List.mem_filter.mpr ⟨hrow, ?_⟩, heq⟩)
      simp [active, hactor, hleased]
  have hle := (List.subperm_of_subset hnodup hsub).length_le
  rw [hlen, hlen, Nat.add_comm]
  rwa [List.length_append] at hle

/-- Steps that are no claims add no lease. -/
theorem Moves.activeOf_le {t : Int} (h : Moves P t db db')
    (hP : ∀ k i, P k i → k ≠ .claim ∧ k ≠ .claimForBot) (actor : Nat) :
    Sql.activeOf db'.operations.rows actor ≤
      Sql.activeOf db.operations.rows actor := by
  refine YoinkCore.Storage.activeOf_le [] fun id o' ho' hactor hleased => .inr ?_
  cases hop : db.operation id with
  | none =>
      rw [(h.absent hop).1, hop] at ho'
      cases ho'
  | some o =>
      obtain ⟨j', hj', hr⟩ := h.kept (Db.job_eq_some.mpr ⟨hop, rfl⟩ :
        db.job id = some ⟨o, db.unitsOf id⟩)
      obtain rfl : j'.op = o' :=
        Option.some.inj ((Db.job_eq_some.mp hj').1.symm.trans ho')
      obtain ⟨hsame, hback⟩ := hr.leased hP
      exact ⟨o, rfl, hsame.symm.trans hactor, hback hleased⟩

omit [Platform] in
/-- A new operation has no lease. -/
theorem activeOf_append {rows : List OperationRow} {row : OperationRow} (h : Admitted row)
    (actor : Nat) : Sql.activeOf (rows ++ [row]) actor = Sql.activeOf rows actor := by
  rw [Sql.activeOf, Sql.activeOf, List.countP_append, List.countP_singleton, h.queued]
  simp [OperationStatus.leased]

/-! ## Claims under a policy -/

/-- The bot and the policy of a claim. -/
def Call.claims : Call → Option (Option Int × ClaimPolicy)
  | .claim _ _ => some (none, {})
  | .claimForBot _ _ botId policy => some (some botId, policy)
  | _ => none

/-- A claim is made under the policy. -/
def Event.usesPolicy (policy : ClaimPolicy) : Event → Bool
  | .call c _ _ _ => c.claims.all fun claims => decide (claims.2 = policy)
  | .other => true

/-- The operations the query of a claim may take. -/
structure Ready (botId : Option Int) (policy : ClaimPolicy) (now : Int)
    (rows : List OperationRow) (o : OperationRow) : Prop where
  stored : o ∈ rows
  claimable : Sql.claimable now o = true
  bot : ∀ b ∈ botId, o.forBot b = true
  room : Sql.activeOf rows o.actorId < policy.maxActiveActor

/-- The query takes the first of the operations it may. -/
theorem first_of_selected {id : Uuid} (h : claimSelected botId policy clock db = some id) :
    ∃ o, o.id = id ∧ Ready botId policy (clock.tick selectTick) db.operations.rows o ∧
      ∀ o', Ready botId policy (clock.tick selectTick) db.operations.rows o' →
        Sql.claimOrder o o' := by
  have hfirst : ∀ ready : List OperationRow,
      (ready.insertionSort Sql.claimOrder).head?.map OperationRow.id = some id →
      ∃ o ∈ ready, o.id = id ∧ ∀ o' ∈ ready, Sql.claimOrder o o' := by
    intro ready h
    obtain ⟨o, ho, hid⟩ := Option.map_eq_some_iff.mp h
    have hmem := (List.mem_insertionSort Sql.claimOrder).mp (List.mem_of_mem_head? ho)
    refine ⟨o, hmem, hid, fun o' ho' => ?_⟩
    obtain ⟨first, -, hhead, hle⟩ := exists_first ho'
    obtain rfl : first = o := Option.some.inj (hhead.symm.trans ho)
    exact hle
  cases botId with
  | none =>
      obtain ⟨o, ho, hid, hle⟩ := hfirst _ h
      simp only [List.mem_filter, Bool.and_eq_true, decide_eq_true_eq] at ho hle
      exact ⟨o, hid, ⟨ho.1, ho.2.1, nofun, ho.2.2⟩,
        fun o' h' => hle o' ⟨h'.stored, h'.claimable, h'.room⟩⟩
  | some b =>
      obtain ⟨o, ho, hid, hle⟩ := hfirst _ h
      simp only [List.mem_filter, Bool.and_eq_true, decide_eq_true_eq] at ho hle
      refine ⟨o, hid, ⟨ho.1, ho.2.1.1, ?_, ho.2.2⟩,
        fun o' h' => hle o' ⟨h'.stored, ⟨h'.claimable, h'.bot b rfl⟩, h'.room⟩⟩
      rintro _ ⟨⟩
      exact ho.2.1.2

/-- A claim fails, or its transaction goes through. -/
theorem exec_claim_cases {call : Call} (hc : call.claims = some (botId, policy)) (clock : Clock)
    (fresh : Uuid) (db : Db) :
    (∃ e, exec call clock fresh db = (.error e, db)) ∨
      ∃ workerId lease r db', exec call clock fresh db = (.ok (.claimed r), db') ∧
        claimBody workerId lease botId policy clock fresh db = .ok (r, db') := by
  have hfiltered : ∀ workerId lease, (∃ e, Method.reply
        (claimFiltered workerId lease botId policy clock fresh) .claimed db =
          (.error e, db)) ∨
      ∃ r db', Method.reply
          (claimFiltered workerId lease botId policy clock fresh) .claimed db =
            (.ok (.claimed r), db') ∧
        claimBody workerId lease botId policy clock fresh db = .ok (r, db') := by
    intro workerId lease
    rcases claimFiltered_cases workerId lease botId policy clock fresh db with
      ⟨e, he⟩ | ⟨r, db', -, hr, hb⟩
    · exact .inl ⟨e, by simp only [Method.reply, he, Except.map]⟩
    · exact .inr ⟨r, db', by simp only [Method.reply, hr, Except.map], hb⟩
  cases call with
  | claim workerId lease =>
      cases hc
      rcases hfiltered workerId lease with h | ⟨r, db', hr, hb⟩
      · exact .inl h
      · exact .inr ⟨workerId, lease, r, db', hr, hb⟩
  | claimForBot workerId lease bot p =>
      cases hc
      have hexec : exec (.claimForBot workerId lease bot policy) clock fresh =
          Method.reply (guarded (ensure (decide (0 < bot)))
            (claimFiltered workerId lease (some bot) policy clock fresh)) .claimed := rfl
      rw [hexec]
      by_cases hbot : 0 < bot
      · rw [decide_eq_true hbot]
        rcases hfiltered workerId lease with h | ⟨r, db', hr, hb⟩
        · exact .inl h
        · exact .inr ⟨workerId, lease, r, db', hr, hb⟩
      · rw [decide_eq_false hbot]
        exact .inl ⟨.invalidInput, rfl⟩
  | _ => cases hc

/-- What a claim that returns an operation has done: after the expiry it leased the first
of the operations it may take, and gave one actor one lease more. -/
theorem claimBody_claimed {workerId : String} {lease : Duration} {token : Uuid} {c : Claim}
    (h : claimBody workerId lease botId policy clock token db = .ok (some c, db')) :
    ∃ db₁ o, expireLeases clock db = .ok ((), db₁) ∧ o.id = c.operationId ∧
      Ready botId policy (clock.tick selectTick) db₁.operations.rows o ∧
      (∀ o', Ready botId policy (clock.tick selectTick) db₁.operations.rows o' →
        Sql.claimOrder o o') ∧
      ∀ actor, Sql.activeOf db'.operations.rows actor ≤
        Sql.activeOf db₁.operations.rows actor + if o.actorId = actor then 1 else 0 := by
  obtain ⟨db₁, hexp, ⟨hn, -⟩ | ⟨c', id, j, hc', hsel, hcond, hmoved, hclaim⟩⟩ := claimBody_of_ok h
  · cases hn
  cases hc'
  obtain ⟨o, hid, hready, hfirst⟩ := first_of_selected hsel
  have hop : db₁.operation id = some o := Db.operation_eq_some.mpr ⟨hready.stored, hid⟩
  obtain rfl : j.op = o := Option.some.inj ((Db.job_eq_some.mp hmoved.before).1.symm.trans hop)
  have hset : ((claimStatement workerId lease botId clock token id).set j.op).status =
        .running ∧
      ((claimStatement workerId lease botId clock token id).set j.op).id = j.op.id ∧
      ((claimStatement workerId lease botId clock token id).set j.op).actorId =
        j.op.actorId := by
    cases botId <;> exact ⟨rfl, rfl, rfl⟩
  obtain ⟨hrun, hsid, hactor⟩ := hset
  obtain ⟨hcid, -⟩ := claimOf_eq_ok hclaim hrun
  refine ⟨db₁, j.op, hexp, (hcid.trans hsid).symm, hready, hfirst, fun actor => ?_⟩
  have hlen : (if j.op.actorId = actor then [id] else []).length =
      if j.op.actorId = actor then 1 else 0 := by
    split <;> rfl
  rw [← hlen]
  refine activeOf_le _ fun i o' ho' hact hleased => ?_
  by_cases hi : i = id
  · subst hi
    obtain rfl := Option.some.inj ((Db.job_eq_some.mp hmoved.after).1.symm.trans ho')
    rw [if_pos (hactor.symm.trans hact)]
    exact .inl (List.mem_singleton_self _)
  · rw [(hmoved.others i hi).1] at ho'
    exact .inr ⟨o', ho', hact, hleased⟩

/-- No step under the policy takes an actor over it. -/
theorem Step.activeOf_le {s t : System} {e : Event} (h : Step s e t)
    (hp : e.usesPolicy policy = true)
    (hs : ∀ actor, Sql.activeOf s.db.operations.rows actor ≤ policy.maxActiveActor) (actor : Nat) :
    Sql.activeOf t.db.operations.rows actor ≤ policy.maxActiveActor := by
  have hexpire : ∀ {db₁ : Db} {clock : Clock}, expireLeases clock s.db = .ok ((), db₁) →
      ∀ actor, Sql.activeOf db₁.operations.rows actor ≤
        Sql.activeOf s.db.operations.rows actor := fun hexp actor =>
    (expireLeases_moves hexp).activeOf_le (fun k _ hk => by rw [hk]; exact ⟨nofun, nofun⟩) actor
  cases h with
  | other later operations deliveryUnits =>
      rw [operations]
      exact hs actor
  | @call _ call clock fresh reply later result elapsed =>
      cases hc : call.claims with
      | some claims =>
          obtain ⟨botId, p⟩ := claims
          obtain rfl : p = policy := by simpa [Event.usesPolicy, hc] using hp
          rcases exec_claim_cases hc clock fresh s.db with ⟨e, he⟩ | ⟨w, lease, r, db', hr, hb⟩
          · have hdb : s.db = t.db := congrArg Prod.snd (he.symm.trans result)
            rw [← hdb]
            exact hs actor
          · have hdb : db' = t.db := congrArg Prod.snd (hr.symm.trans result)
            rw [← hdb]
            cases r with
            | none =>
                obtain ⟨db₁, hexp, ⟨-, rfl⟩ | ⟨c, id, j, hn, -⟩⟩ := claimBody_of_ok hb
                · exact (hexpire hexp actor).trans (hs actor)
                · cases hn
            | some c =>
                obtain ⟨db₁, o, hexp, -, hready, -, hle⟩ := claimBody_claimed hb
                have hle := hle actor
                have hold := (hexpire hexp actor).trans (hs actor)
                have hroom := hready.room
                by_cases ho : o.actorId = actor
                · subst ho
                  rw [if_pos rfl] at hle
                  omega
                · rw [if_neg ho] at hle
                  exact hle.trans hold
      | none =>
          have he := exec_evolves call clock fresh s.db
          rw [result] at he
          cases he with
          | moves hm =>
              refine (hm.activeOf_le (fun k j hk => ?_) actor).trans (hs actor)
              cases call with
              | admitRequest => cases hk
              | claim => cases hc
              | claimForBot => cases hc
              | _ =>
                  obtain ⟨hk, -⟩ := hk
                  cases hk
                  exact ⟨nofun, nofun⟩
          | created admitted operations _ =>
              rw [operations, activeOf_append admitted]
              exact hs actor

/-- **Concurrency and order.** Under one policy, whatever happened, no actor has more
operations running or in delivery than the policy allows; and a claim that returns an
operation took the first, by availability, creation and identifier, of those it may take:
queued, due, not cancelled, with attempts left, of its bot, and of an actor with room. -/
theorem actor_cap_and_order {policy : ClaimPolicy} {s t : System} {es : List Event}
    (h : ReachesWith (fun _ e => e.usesPolicy policy = true) s es t) :
    (∀ actor, Sql.activeOf t.db.operations.rows actor ≤ policy.maxActiveActor) ∧
    ∀ call clock fresh c u botId,
      Step t (.call call clock fresh (.ok (.claimed (some c)))) u →
      call.claims = some (botId, policy) →
      ∃ db₁ o, expireLeases clock t.db = .ok ((), db₁) ∧ o.id = c.operationId ∧
        Ready botId policy (clock.tick selectTick) db₁.operations.rows o ∧
        ∀ o', Ready botId policy (clock.tick selectTick) db₁.operations.rows o' →
          Sql.claimOrder o o' := by
  obtain ⟨hfresh, hrun⟩ := h
  constructor
  · refine hrun.invariant
      (I := fun v => ∀ actor, Sql.activeOf v.db.operations.rows actor ≤ policy.maxActiveActor)
      (fun hI hs => hs.1.activeOf_le hs.2 hI) fun actor => ?_
    rw [hfresh.1]
    exact Nat.zero_le _
  · intro call clock fresh c u botId hstep hc
    cases hstep with
    | call later result elapsed =>
        rcases exec_claim_cases hc clock fresh t.db with ⟨e, he⟩ | ⟨w, lease, r, db', hr, hb⟩
        · rw [he] at result
          cases result
        · rw [hr] at result
          cases result
          obtain ⟨db₁, o, hexp, hid, hready, hfirst, -⟩ := claimBody_claimed hb
          exact ⟨db₁, o, hexp, hid, hready, hfirst⟩

end

section

attribute [local instance] Scenario.platform

/-- A run with one claim under the default policy. -/
theorem actor_cap_and_order_retried :
    Sql.activeOf (play .initial Scenario.retried).2.db.operations.rows 7 ≤ 3 :=
  (actor_cap_and_order
    (play_reachesWith (G := fun _ e => e.usesPolicy {}) (by decide) (by decide +kernel))).1 7

end

end YoinkCore.Storage
