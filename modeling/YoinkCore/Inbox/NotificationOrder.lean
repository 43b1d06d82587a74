import YoinkCore.Inbox.NotificationRuns

/-!
# Notifications are sent once, and in order

A send is admitted again only after its latest one is known not to have happened. The
notifications of one reply go one after the other, unless one is bound to the reply while
a later one is under way.
-/

namespace YoinkCore.Inbox

open Lib Storage

/-! ## Events -/

namespace OutboxEvent

/-- The notification is claimed. -/
def Claims (e : OutboxEvent) (id : Uuid) : Prop :=
  ∃ now lease fresh n, e = .call (.claim now lease) fresh (.ok (.claimed (some n))) ∧ n.id = id

/-- The notification is admitted for sending, under a token. -/
def Admits (e : OutboxEvent) (id token : Uuid) : Prop :=
  ∃ access c now fresh, e = .call (.send access c now) fresh (.ok (.token token)) ∧ c.id = id

/-- An outcome is recorded for the send under a token. -/
def Records (e : OutboxEvent) (id token : Uuid) (outcome : Outcome) : Prop :=
  ∃ user now fresh, e = .call (.record user id token outcome now) fresh (.ok (.done true))

/-- The send under a token is known not to have happened. -/
def NotSent (e : OutboxEvent) (id token : Uuid) : Prop :=
  ∃ retryAt, e.Records id token (.definitelyNotSent retryAt)

/-- A claim of the notification is used up: sent, cancelled or given back. -/
def Releases (e : OutboxEvent) (id lease : Uuid) : Prop :=
  ∃ (c : Notification) (now : Int) (fresh : Uuid), c.id = id ∧ c.leaseToken = some lease ∧
    ((∃ access token, e = .call (.send access c now) fresh (.ok (.token token))) ∨
      e = .call (.cancel c now) fresh (.ok (.done true)) ∨
      ∃ availableAt, e = .call (.retry c now availableAt) fresh (.ok (.done true)))

end OutboxEvent

/-- An operation that presents a claim. -/
inductive OutboxOp.Uses (c : Notification) (now : Int) : OutboxOp → Prop
  | send {access : Except Error Unit} : Uses c now (.send access c now)
  | cancel : Uses c now (.cancel c now)
  | retry {availableAt : Int} : Uses c now (.retry c now availableAt)

/-! ## What succeeds -/

variable {s t : OutboxState} {e : OutboxEvent} {m n : Notification}
  {f : Notification → Notification} {p : Notification → Bool} {es₁ es₂ : List OutboxEvent}
  {id lease token token' : Uuid} {db db' : Outbox} {now : Int}

/-- A claim that returns a row has claimed it, and nothing before it is pending. -/
theorem claimed_row {lease : Int} {fresh : Uuid}
    (h : (OutboxOp.claim now lease).run fresh db = (.ok (.claimed (some m)), db')) :
    (∃ n ∈ db.notifications.rows, n.claimable now = true ∧ m = n.claim (now + lease) now fresh) ∧
      m ∈ db'.notifications.rows ∧ ∀ n ∈ db'.notifications.rows,
        n.sameReply m = true → n.sequence < m.sequence → n.pending = false := by
  obtain ⟨reply, hcall, he⟩ := answering_eq_ok h
  obtain rfl : some m = reply := OutboxReply.claimed.inj he
  obtain ⟨swept, f, hrows, hf, -, hcase⟩ :=
    claimNotificationOn_eq_ok (refusing_eq_ok.mp hcall).2
  rcases hcase with ⟨hnone, -⟩ | ⟨head, hhead, hfh, hclaim, hblocked, hreply, hrows'⟩
  · cases hnone
  obtain rfl := Option.some.inj hreply
  have hswept : head ∈ swept.notifications.rows := hrows ▸ hfh ▸ List.mem_map_of_mem hhead
  refine ⟨⟨head, hhead, hclaim, rfl⟩, ?_, fun n hn hsame hlt => ?_⟩
  · rw [hrows', List.mem_map]
    exact ⟨head, hswept, if_pos rfl⟩
  · rw [hrows', List.mem_map] at hn
    obtain ⟨p, hp, rfl⟩ := hn
    by_cases hid : p.id = head.id
    · -- the head is not before itself
      obtain rfl := eq_of_id hp hswept hid
      rw [if_pos rfl] at hlt
      exact absurd hlt (Nat.lt_irrefl _)
    · rw [if_neg hid] at hsame hlt ⊢
      cases hpend : p.pending with
      | false => rfl
      | true =>
          have hb : swept.blocked head = true :=
            List.any_eq_true.mpr ⟨p, hp, by
              simp only [Bool.and_eq_true, decide_eq_true_eq]
              exact ⟨⟨hsame, hpend⟩, hlt⟩⟩
          rw [hblocked] at hb
          cases hb

/-- An update of one row went through, so the row was there. -/
theorem exists_of_changed (h : updateNotifications p f db = .ok (1, db')) :
    ∃ n ∈ db.notifications.rows, p n = true ∧ f n ∈ db'.notifications.rows := by
  obtain ⟨hrows, hcount, -, -⟩ := updateNotifications_rows h
  obtain ⟨n, hn, hp⟩ := List.countP_pos_iff.mp (hcount ▸ Nat.one_pos)
  refine ⟨n, hn, hp, ?_⟩
  rw [hrows, List.mem_map]
  exact ⟨n, hn, if_pos hp⟩

variable {c : Notification} {a b : OutboxEvent} {es₃ : List OutboxEvent} {op : OutboxOp}

/-- A send that is admitted has moved the row of its claim. -/
theorem sent_row {access : Except Error Unit} {fresh : Uuid}
    (h : (OutboxOp.send access c now).run fresh db = (.ok (.token token), db')) :
    token = fresh ∧ ∃ n ∈ db.notifications.rows, n.heldBy c now = true ∧
      n.begin now fresh ∈ db'.notifications.rows := by
  obtain ⟨_, hcall, he⟩ := answering_eq_ok h
  obtain rfl := OutboxReply.token.inj he
  obtain ⟨hfresh, p, hp, hu⟩ := beginNotificationSend_eq_ok hcall
  obtain ⟨n, hn, hpn, hrow⟩ := exists_of_changed hu
  exact ⟨hfresh, n, hn, hp n hpn, hrow⟩

/-- An update of one row that changed it. -/
theorem updated_row (h : updateOne p f db = .ok (true, db')) :
    ∃ n ∈ db.notifications.rows, p n = true ∧ f n ∈ db'.notifications.rows := by
  obtain ⟨changed, hu, he⟩ := updateOne_eq_ok h
  obtain rfl : changed = 1 := by simpa using he
  exact exists_of_changed hu

/-! ## Sends under way -/

/-- The latest send of a notification has its token; nothing is known that would allow
another. -/
def Underway (id token : Uuid) (s : OutboxState) : Prop :=
  ∃ n ∈ s.db.notifications.rows, n.id = id ∧ n.sendToken = some token ∧
    (n.inFlight = true ∨ n.state = .acked)

theorem Underway.of_admits (h : OutboxStep s e t) (he : e.Admits id token) :
    Underway id token t := by
  obtain ⟨access, c, now, fresh, rfl, rfl⟩ := he
  cases h with
  | call new result issued =>
      obtain ⟨rfl, n, -, hheld, hrow⟩ := sent_row result
      exact ⟨_, hrow, (id_of_heldBy hheld : n.id = c.id), rfl, .inl rfl⟩

/-- A row on its way stays there until an outcome is recorded for its token. -/
theorem EventMoves.inFlight (h : EventMoves e n m) (hn : n.inFlight = true) :
    (m.inFlight = true ∧ m.sendToken = n.sendToken) ∨
      ∃ token outcome, n.sendToken = some token ∧ e.Records n.id token outcome ∧
        ∃ now, m = n.record outcome now := by
  have hstate : n.state = .sending ∨ n.state = .unknown := by
    cases hs : n.state <;> simp [Notification.inFlight, hs] at hn ⊢
  cases h with
  | same | orphaned => exact .inl ⟨hn, rfl⟩
  | call moved =>
      cases moved with
      | same => exact .inl ⟨hn, rfl⟩
      | bound waits =>
          simp only [Notification.waitsFor, Bool.and_eq_true, decide_eq_true_eq] at waits
          rcases hstate with hs | hs <;> rw [hs] at waits <;> cases waits.2
      | quarantined expired => exact .inl ⟨rfl, rfl⟩
      | inactivated presend =>
          rcases hstate with hs | hs <;> simp [Notification.presend, hs] at presend
      | claimed claimable =>
          rcases hstate with hs | hs <;> simp [Notification.claimable, hs] at claimable
      | begun held =>
          rcases hstate with hs | hs <;> simp [Notification.heldBy, hs] at held
      | cancelled held =>
          rcases hstate with hs | hs <;> simp [Notification.heldBy, hs] at held
      | retried held =>
          rcases hstate with hs | hs <;> simp [Notification.heldBy, hs] at held
      | recorded sent =>
          rename_i fresh user id token outcome now
          have hid := id_of_sentUnder sent
          simp only [Notification.sentUnder, Bool.and_eq_true, decide_eq_true_eq] at sent
          exact .inr ⟨token, outcome, sent.1.2, ⟨user, now, fresh, by rw [hid]⟩, now, rfl⟩

/-- A row that is done for does not change, but for its item. -/
theorem EventMoves.finished (h : EventMoves e n m) (hn : n.state = .acked ∨ n.state = .cancelled) :
    m = n ∨ e = .items ∧ m = { n with itemId := none } := by
  cases h with
  | same => exact .inl rfl
  | orphaned => exact .inr ⟨rfl, rfl⟩
  | call moved =>
      cases moved with
      | same => exact .inl rfl
      | bound waits =>
          simp only [Notification.waitsFor, Bool.and_eq_true, decide_eq_true_eq] at waits
          rcases hn with hs | hs <;> rw [hs] at waits <;> cases waits.2
      | quarantined expired =>
          rcases hn with hs | hs <;> simp [Notification.expired, hs] at expired
      | inactivated presend =>
          rcases hn with hs | hs <;> simp [Notification.presend, hs] at presend
      | claimed claimable =>
          rcases hn with hs | hs <;> simp [Notification.claimable, hs] at claimable
      | begun held => rcases hn with hs | hs <;> simp [Notification.heldBy, hs] at held
      | cancelled held => rcases hn with hs | hs <;> simp [Notification.heldBy, hs] at held
      | retried held => rcases hn with hs | hs <;> simp [Notification.heldBy, hs] at held
      | recorded sent =>
          rcases hn with hs | hs <;>
            simp [Notification.sentUnder, Notification.inFlight, hs] at sent

theorem Underway.step (hs : Underway id token s) (h : OutboxStep s e t)
    (he : ¬ e.NotSent id token) : Underway id token t := by
  obtain ⟨n, hn, rfl, htoken, hstate⟩ := hs
  obtain ⟨m, hm, hmoves⟩ := h.forward hn
  rcases hstate with hflight | hacked
  · rcases hmoves.inFlight hflight with ⟨hm', hsame⟩ | ⟨token', outcome, ht, hrec, now, rfl⟩
    · exact ⟨m, hm, hmoves.keeps.1, hsame.trans htoken, .inl hm'⟩
    · obtain rfl : token = token' := Option.some.inj (htoken.symm.trans ht)
      cases outcome with
      | confirmed receipt => exact ⟨_, hm, rfl, htoken, .inr rfl⟩
      | unknown => exact ⟨_, hm, rfl, htoken, .inl rfl⟩
      | definitelyNotSent retryAt => exact absurd ⟨retryAt, hrec⟩ he
  · rcases hmoves.finished (.inl hacked) with rfl | ⟨-, rfl⟩
    · exact ⟨_, hm, rfl, htoken, .inr hacked⟩
    · exact ⟨_, hm, rfl, htoken, .inr hacked⟩

/-- A row that is admitted for sending is claimed. -/
theorem claimed_of_admits (h : OutboxStep s e t) (he : e.Admits id token)
    (hn : n ∈ s.db.notifications.rows) (hid : n.id = id) : n.state = .claimed := by
  obtain ⟨access, c, now, fresh, rfl, rfl⟩ := he
  cases h with
  | call new result issued =>
      obtain ⟨-, m, hm, hheld, -⟩ := sent_row result
      obtain rfl := eq_of_id hm hn ((id_of_heldBy hheld).trans hid.symm)
      simp only [Notification.heldBy, Bool.and_eq_true, decide_eq_true_eq] at hheld
      exact hheld.1.1.1.2

/-- A row that is claimed may be claimed. -/
theorem claimable_of_claims (h : OutboxStep s e t) (he : e.Claims id)
    (hn : n ∈ s.db.notifications.rows) (hid : n.id = id) : ∃ now, n.claimable now = true := by
  obtain ⟨now, lease, fresh, m, rfl, hm⟩ := he
  cases h with
  | call new result issued =>
      obtain ⟨⟨k, hk, hclaim, rfl⟩, -, -⟩ := claimed_row result
      obtain rfl := eq_of_id hk hn (hm.trans hid.symm)
      exact ⟨now, hclaim⟩

/-- **Quarantine.** A row on its way is neither claimed nor admitted. -/
theorem inFlight_fenced (h : OutboxStep s e t) (hn : n ∈ s.db.notifications.rows)
    (hf : n.inFlight = true) : ¬ e.Claims n.id ∧ ∀ token, ¬ e.Admits n.id token := by
  constructor
  · intro he
    obtain ⟨now, hclaim⟩ := claimable_of_claims h he hn rfl
    cases hs : n.state <;>
      simp [Notification.inFlight, Notification.claimable, hs] at hf hclaim
  · intro token he
    simp [Notification.inFlight, claimed_of_admits h he hn rfl] at hf

/-- A notification whose latest send is under way is not admitted. -/
theorem Underway.not_admitted (hs : Underway id token s) (h : OutboxStep s e t) :
    ¬ e.Admits id token' := by
  intro he
  obtain ⟨n, hn, hid, -, hstate⟩ := hs
  have hclaimed := claimed_of_admits h he hn hid
  rcases hstate with hf | hs
  · simp [Notification.inFlight, hclaimed] at hf
  · rw [hs] at hclaimed
    cases hclaimed

/-- **Sent once.** Between two admissions of a notification the send of the first is known
not to have happened. -/
theorem notSent_between (h : OutboxReaches s (es₁ ++ a :: (es₂ ++ b :: es₃)) t)
    (ha : a.Admits id token) (hb : b.Admits id token') : ∃ e ∈ es₂, e.NotSent id token := by
  by_contra hnone
  push Not at hnone
  obtain ⟨u, v, -, hstep, hrest⟩ := h.2.split_at
  obtain ⟨w, x, hbetween, hstep', -⟩ := hrest.split_at
  have hunder : Underway id token w :=
    (hbetween.of_forall hnone).invariant (fun hs hst => hs.step hst.1 hst.2)
      (.of_admits hstep ha)
  exact hunder.not_admitted hstep' hb

/-! ## Stale claims -/

/-- The lease of a claim is over: no row is held under it, or will be. -/
structure LeaseOver (id lease : Uuid) (s : OutboxState) : Prop where
  issued : lease ∈ s.issued
  rows : ∀ n ∈ s.db.notifications.rows, n.id = id → n.state = .claimed →
    n.leaseToken ≠ some lease

/-- A row that is claimed was claimed before, or has a new lease. -/
theorem EventMoves.claimed {e : OutboxEvent} {n m : Notification} (h : EventMoves e n m)
    (hm : m.state = .claimed) :
    (n.state = .claimed ∧ m.leaseToken = n.leaseToken ∧ m.leaseUntil = n.leaseUntil) ∨
      ∃ now lease fresh, e = .call (.claim now lease) fresh (.ok (.claimed (some m))) ∧
        m = n.claim (now + lease) now fresh := by
  cases h with
  | same | orphaned => exact .inl ⟨hm, rfl, rfl⟩
  | call moved =>
      cases moved with
      | same => exact .inl ⟨hm, rfl, rfl⟩
      | claimed claimable => exact .inr ⟨_, _, _, rfl, rfl⟩
      | bound waits => cases hm
      | quarantined expired => cases hm
      | inactivated presend => cases hm
      | begun held => cases hm
      | cancelled held => cases hm
      | retried held => cases hm
      | recorded sent =>
          rename_i outcome _
          cases outcome <;> cases hm

theorem LeaseOver.step (hs : LeaseOver id lease s) (h : OutboxStep s e t) :
    LeaseOver id lease t := by
  refine ⟨h.issued_subset hs.issued, fun m hm hid hclaimed => ?_⟩
  rcases h.backward hm with ⟨n, hn, hmoves⟩ | ⟨_, _, _, rfl, hadm⟩
  · rcases hmoves.claimed hclaimed with ⟨hn', hsame, -⟩ | ⟨now, l, fresh, rfl, rfl⟩
    · rw [hsame]
      exact hs.rows n hn (hmoves.keeps.1 ▸ hid) hn'
    · -- the lease was drawn just now
      rintro hsome
      obtain rfl := Option.some.inj hsome
      exact h.fresh_issued.1 hs.issued
  · rw [hadm.leaseToken]
    exact fun h => by cases h

/-- A notification that is claimed again is not held under the lease before. -/
theorem LeaseOver.of_claims (hl : lease ∈ s.issued) (h : OutboxStep s e t) (he : e.Claims id) :
    LeaseOver id lease t := by
  refine ⟨h.issued_subset hl, fun n hn hid _ => ?_⟩
  obtain ⟨now, l, fresh, m, rfl, hm⟩ := he
  have hnew := h.fresh_issued.1
  cases h with
  | call new result issued =>
      obtain ⟨⟨k, -, -, rfl⟩, hrow, -⟩ := claimed_row result
      obtain rfl := eq_of_id hn hrow (hid.trans hm.symm)
      rintro hsome
      obtain rfl := Option.some.inj hsome
      exact hnew hl

/-- What a used claim leaves of its row is not claimed. -/
theorem LeaseOver.of_releases (hl : lease ∈ s.issued) (h : OutboxStep s e t)
    (he : e.Releases id lease) : LeaseOver id lease t := by
  have htl := h.issued_subset hl
  have released : ∀ k ∈ t.db.notifications.rows, k.id = id → k.state ≠ .claimed →
      LeaseOver id lease t := by
    refine fun k hk hkid hstate => ⟨htl, fun n hn hid hclaimed => ?_⟩
    obtain rfl := eq_of_id hn hk (hid.trans hkid.symm)
    exact absurd hclaimed hstate
  obtain ⟨c, now, fresh, rfl, -, ⟨access, token, rfl⟩ | rfl | ⟨availableAt, rfl⟩⟩ := he
  · cases h with
    | call new result issued =>
        obtain ⟨-, n, -, hheld, hrow⟩ := sent_row result
        exact released _ hrow (id_of_heldBy hheld : n.id = c.id) (by simp [Notification.begin])
  · cases h with
    | call new result issued =>
        obtain ⟨_, hcall, he⟩ := answering_eq_ok result
        obtain rfl := OutboxReply.done.inj he
        obtain ⟨n, -, hheld, hrow⟩ := updated_row (Tx.auto_eq_ok.mp hcall)
        exact released _ hrow (id_of_heldBy hheld : n.id = c.id) (by simp [Notification.release])
  · cases h with
    | call new result issued =>
        obtain ⟨_, hcall, he⟩ := answering_eq_ok result
        obtain rfl := OutboxReply.done.inj he
        obtain ⟨n, -, hheld, hrow⟩ := updated_row (refusing_eq_ok.mp hcall).2
        exact released _ hrow (id_of_heldBy hheld : n.id = c.id) (by simp [Notification.release])

/-- The rows held under a lease are held until the same time. -/
structure LeaseEnds (id lease : Uuid) (until' : Int) (s : OutboxState) : Prop where
  issued : lease ∈ s.issued
  rows : ∀ n ∈ s.db.notifications.rows, n.id = id → n.state = .claimed →
    n.leaseToken = some lease → n.leaseUntil = some until'

theorem LeaseEnds.step {until' : Int} (hs : LeaseEnds id lease until' s) (h : OutboxStep s e t) :
    LeaseEnds id lease until' t := by
  refine ⟨h.issued_subset hs.issued, fun m hm hid hclaimed hlease => ?_⟩
  rcases h.backward hm with ⟨n, hn, hmoves⟩ | ⟨_, _, _, rfl, hadm⟩
  · rcases hmoves.claimed hclaimed with ⟨hn', hsame, hend⟩ | ⟨now, l, fresh, rfl, rfl⟩
    · rw [hend]
      exact hs.rows n hn (hmoves.keeps.1 ▸ hid) hn' (hsame ▸ hlease)
    · obtain rfl := Option.some.inj hlease
      exact absurd hs.issued h.fresh_issued.1
  · rw [hadm.leaseToken] at hlease
    cases hlease

theorem LeaseEnds.of_claim {lease : Int} {fresh : Uuid}
    (h : OutboxStep s (.call (.claim now lease) fresh (.ok (.claimed (some n)))) t) :
    n.leaseToken = some fresh ∧ LeaseEnds n.id fresh (now + lease) t := by
  have hissued := h.fresh_issued.2
  cases h with
  | call new result issued =>
      obtain ⟨⟨k, -, -, rfl⟩, hrow, -⟩ := claimed_row result
      refine ⟨rfl, hissued, fun m hm hid _ _ => ?_⟩
      obtain rfl := eq_of_id hm hrow hid
      rfl

/-- An update that matches nothing. -/
theorem updateNotifications_none (h : ∀ n ∈ db.notifications.rows, p n = false) :
    updateNotifications p f db = .ok (0, db) :=
  updateNotifications_eq_ok.mpr ⟨_, Table.update_of_no_match h, rfl⟩

theorem updateOne_none (h : ∀ n ∈ db.notifications.rows, p n = false) :
    updateOne p f db = .ok (false, db) :=
  Tx.bind_eq_ok.mpr ⟨0, db, updateNotifications_none h, rfl⟩

/-- A claim under which no row is held changes nothing. -/
theorem OutboxOp.Uses.of_no_row (hop : op.Uses c now) {fresh : Uuid}
    {reply : Except Error OutboxReply} (hno : ∀ n ∈ db.notifications.rows, n.heldBy c now = false)
    (h : op.run fresh db = (reply, db')) :
    db' = db ∧ reply ≠ .ok (.done true) ∧ ∀ token, reply ≠ .ok (.token token) := by
  cases hop with
  | send =>
      rename_i access
      cases reply with
      | error e => exact ⟨OutboxOp.run_error_state h, by simp, by simp⟩
      | ok reply =>
          obtain ⟨token, hcall, rfl⟩ := answering_eq_ok h
          obtain ⟨-, p, hp, hu⟩ := beginNotificationSend_eq_ok hcall
          obtain ⟨n, hn, hpn, -⟩ := exists_of_changed hu
          exact absurd (hp n hpn) (by simp [hno n hn])
  | cancel =>
      have hcall : cancelNotificationClaim c now db = (.ok false, db) :=
        Tx.auto_eq_ok.mpr (updateOne_none hno)
      simp only [OutboxOp.run, hcall, answering, Except.map] at h
      cases h
      exact ⟨rfl, by simp, by simp⟩
  | retry =>
      rename_i availableAt
      cases reply with
      | error e => exact ⟨OutboxOp.run_error_state h, by simp, by simp⟩
      | ok reply =>
          obtain ⟨changed, hcall, rfl⟩ := answering_eq_ok h
          have hbody := (refusing_eq_ok.mp hcall).2
          rw [updateOne_none hno] at hbody
          cases hbody
          exact ⟨rfl, by simp, by simp⟩

/-- **Stale claims.** A claim whose time is over, or whose notification was claimed again
or released under it, changes nothing. -/
theorem stale_claim {lease : Int} {fresh : Uuid} (h : OutboxReaches s
      (es₁ ++ .call (.claim now lease) fresh (.ok (.claimed (some n))) :: es₂) t)
    (hid : c.id = n.id) (hlease : c.leaseToken = n.leaseToken) {now' : Int}
    (hstale : now + lease ≤ now' ∨ ∃ e ∈ es₂, e.Claims n.id ∨ e.Releases n.id fresh)
    (hop : op.Uses c now') {fresh' : Uuid} {reply : Except Error OutboxReply}
    (hrun : op.run fresh' t.db = (reply, db')) :
    db' = t.db ∧ reply ≠ .ok (.done true) ∧ ∀ token, reply ≠ .ok (.token token) := by
  obtain ⟨u, v, -, hstep, hrest⟩ := h.2.split_at
  obtain ⟨hn, hends⟩ := LeaseEnds.of_claim hstep
  refine hop.of_no_row (fun k hk => ?_) hrun
  cases hheld : k.heldBy c now' with
  | false => rfl
  | true =>
      have hkid := id_of_heldBy hheld
      simp only [Notification.heldBy, Bool.and_eq_true, decide_eq_true_eq] at hheld
      obtain ⟨⟨⟨⟨-, hclaimed⟩, -⟩, htoken⟩, hlive⟩ := hheld
      rw [hlease, hn] at htoken
      rcases hstale with htime | ⟨e, he, hover⟩
      · have hends' : LeaseEnds n.id fresh (now + lease) t :=
          hrest.invariant LeaseEnds.step hends
        have hend := hends'.rows k hk (hkid.trans hid) hclaimed htoken
        simp only [hend, Option.any_some, decide_eq_true_eq] at hlive
        omega
      · obtain ⟨es₃, es₄, rfl⟩ := List.append_of_mem he
        obtain ⟨w, x, hwx, hstep', hlast⟩ := hrest.split_at
        have hends' : LeaseEnds n.id fresh (now + lease) w :=
          hwx.invariant LeaseEnds.step hends
        have hover' : LeaseOver n.id fresh x := by
          rcases hover with hclaims | hreleases
          · exact .of_claims hends'.issued hstep' hclaims
          · exact .of_releases hends'.issued hstep' hreleases
        have hover'' : LeaseOver n.id fresh t := hlast.invariant LeaseOver.step hover'
        exact absurd htoken (hover''.rows k hk (hkid.trans hid) hclaimed)

/-! ## Old tokens -/

/-- A send of the notification was admitted after the one with this token. -/
structure SendOver (id token : Uuid) (s : OutboxState) : Prop where
  issued : token ∈ s.issued
  rows : ∀ n ∈ s.db.notifications.rows, n.id = id → n.sendToken ≠ some token

theorem SendOver.step (hs : SendOver id token s) (h : OutboxStep s e t) : SendOver id token t := by
  refine ⟨h.issued_subset hs.issued, fun m hm hid hsend => ?_⟩
  rcases h.backward hm with ⟨n, hn, hmoves⟩ | ⟨_, _, _, rfl, hadm⟩
  · rcases hmoves.tokens.2.1 token hsend with hold | ⟨_, _, rfl⟩
    · exact hs.rows n hn (hmoves.keeps.1 ▸ hid) hold
    · exact h.fresh_issued.1 hs.issued
  · rw [hadm.sendToken] at hsend
    cases hsend

theorem SendOver.of_admits (hl : token ∈ s.issued) (h : OutboxStep s e t)
    (he : e.Admits id token') : SendOver id token t := by
  refine ⟨h.issued_subset hl, fun n hn hid hsend => ?_⟩
  obtain ⟨access, c, now, fresh, rfl, rfl⟩ := he
  have hnew := h.fresh_issued.1
  cases h with
  | call new result issued =>
      obtain ⟨rfl, k, -, hheld, hrow⟩ := sent_row result
      obtain rfl := eq_of_id hn hrow (hid.trans (id_of_heldBy hheld).symm)
      obtain rfl := Option.some.inj hsend
      exact hnew hl

/-- **Old tokens.** An outcome for a send that was followed by another changes nothing. -/
theorem old_token (h : OutboxReaches s (es₁ ++ a :: (es₂ ++ b :: es₃)) t) (ha : a.Admits id token)
    (hb : b.Admits id token') {user : Int} {outcome : Outcome} {fresh : Uuid}
    {reply : Except Error OutboxReply}
    (hrun : (OutboxOp.record user id token outcome now).run fresh t.db = (reply, db')) :
    db' = t.db ∧ reply ≠ .ok (.done true) := by
  obtain ⟨u, v, -, hstep, hrest⟩ := h.2.split_at
  obtain ⟨w, x, hbetween, hstep', hlast⟩ := hrest.split_at
  have hissued : token ∈ v.issued := by
    obtain ⟨access, c, now, fresh, rfl, rfl⟩ := ha
    have hfresh := hstep.fresh_issued.2
    cases hstep with
    | call new result issued =>
        obtain ⟨rfl, -⟩ := sent_row result
        exact hfresh
  have hissued' : token ∈ w.issued :=
    hbetween.invariant (I := fun s => token ∈ s.issued)
      (fun hs hst => OutboxStep.issued_subset hst hs) hissued
  have hover : SendOver id token t :=
    hlast.invariant SendOver.step (.of_admits hissued' hstep' hb)
  have hno : ∀ n ∈ t.db.notifications.rows, n.sentUnder user id token = false := by
    intro n hn
    cases hsent : n.sentUnder user id token with
    | false => rfl
    | true =>
        have hid := id_of_sentUnder hsent
        simp only [Notification.sentUnder, Bool.and_eq_true, decide_eq_true_eq] at hsent
        exact absurd hsent.1.2 (hover.rows n hn hid)
  cases reply with
  | error e => exact ⟨OutboxOp.run_error_state hrun, by simp⟩
  | ok reply =>
      obtain ⟨changed, hcall, rfl⟩ := answering_eq_ok hrun
      have hbody := (refusing_eq_ok.mp hcall).2
      rw [updateOne_none hno] at hbody
      cases hbody
      exact ⟨rfl, by simp⟩

/-! ## Order -/

/-- A notification is bound to its reply before any later one of that reply is claimed. -/
def OutboxEvent.BindsInOrder (s : OutboxState) : OutboxEvent → Prop
  | .call (.bind _ user item target) _ _ =>
      ∀ n ∈ s.db.notifications.rows, n.waitsFor user item = true →
        ∀ m ∈ s.db.notifications.rows, m.chatId = some target.chatId →
          m.messageId = some target.messageId → n.sequence < m.sequence →
          m.state ≠ .claimed ∧ m.sendToken = none
  | _ => True

/-- A step that binds in order. -/
def OrderedStep (s : OutboxState) (e : OutboxEvent) (t : OutboxState) : Prop :=
  OutboxStep s e t ∧ e.BindsInOrder s

/-- A run in which every binding comes in order. -/
def OutboxReachesInOrder (s : OutboxState) (es : List OutboxEvent) (t : OutboxState) : Prop :=
  s.db.notifications.rows = [] ∧ Run OrderedStep s es t

/-- Claimed, or admitted for sending at some time. -/
def Notification.started (n : Notification) : Bool :=
  n.state = .claimed || n.sendToken.isSome

/-- Once a notification is started, none before it for the same reply is pending. -/
def InOrder (s : OutboxState) : Prop :=
  ∀ n ∈ s.db.notifications.rows, ∀ m ∈ s.db.notifications.rows, n.sameReply m = true →
    n.sequence < m.sequence → m.started = true → n.pending = false

/-- A row that is pending was pending, or waited and was bound. -/
theorem EventMoves.pending (h : EventMoves e n m) (hm : m.pending = true) :
    (n.pending = true ∧ m.chatId = n.chatId ∧ m.messageId = n.messageId) ∨
      ∃ access user item target fresh reply,
        e = .call (.bind access user item target) fresh (.ok reply) ∧
        n.waitsFor user item = true ∧ m = n.bind target := by
  cases h with
  | same | orphaned => exact .inl ⟨hm, rfl, rfl⟩
  | call moved =>
      cases moved with
      | same => exact .inl ⟨hm, rfl, rfl⟩
      | bound waits => exact .inr ⟨_, _, _, _, _, _, rfl, waits, rfl⟩
      | quarantined expired =>
          simp only [Notification.expired, Bool.and_eq_true, decide_eq_true_eq] at expired
          exact .inl ⟨by simp [Notification.pending, expired.1], rfl, rfl⟩
      | inactivated presend => cases hm
      | claimed claimable =>
          refine .inl ⟨?_, rfl, rfl⟩
          simp only [Notification.claimable, Bool.or_eq_true, Bool.and_eq_true,
            decide_eq_true_eq] at claimable
          rcases claimable with ⟨hs, -⟩ | ⟨hs, -⟩ <;> simp [Notification.pending, hs]
      | begun held =>
          simp only [Notification.heldBy, Bool.and_eq_true, decide_eq_true_eq] at held
          exact .inl ⟨by simp [Notification.pending, held.1.1.1.2], rfl, rfl⟩
      | cancelled held => cases hm
      | retried held =>
          simp only [Notification.heldBy, Bool.and_eq_true, decide_eq_true_eq] at held
          exact .inl ⟨by simp [Notification.pending, held.1.1.1.2], rfl, rfl⟩
      | recorded sent =>
          rename_i outcome _
          simp only [Notification.sentUnder, Bool.and_eq_true] at sent
          have hn : n.pending = true := by
            cases hs : n.state <;>
              simp [Notification.inFlight, Notification.pending, hs] at sent ⊢
          cases outcome <;> exact .inl ⟨hn, rfl, rfl⟩

/-- A row that is started was started, or is claimed just now. -/
theorem EventMoves.started (h : EventMoves e n m) (hm : m.started = true) : (n.started = true ∧
        (m.chatId = n.chatId ∧ m.messageId = n.messageId ∨ n.state = .waiting)) ∨
      ∃ now lease fresh, e = .call (.claim now lease) fresh (.ok (.claimed (some m))) ∧
        m = n.claim (now + lease) now fresh := by
  have kept : ∀ {k : Notification}, k.started = true → k.state ≠ .claimed →
      k.sendToken = n.sendToken → n.started = true := by
    intro k hk hstate hsend
    simp only [Notification.started, Bool.or_eq_true, decide_eq_true_eq] at hk ⊢
    exact .inr (hsend ▸ hk.resolve_left hstate)
  cases h with
  | same | orphaned => exact .inl ⟨hm, .inl ⟨rfl, rfl⟩⟩
  | call moved =>
      cases moved with
      | same => exact .inl ⟨hm, .inl ⟨rfl, rfl⟩⟩
      | claimed claimable => exact .inr ⟨_, _, _, rfl, rfl⟩
      | bound waits =>
          simp only [Notification.waitsFor, Bool.and_eq_true, decide_eq_true_eq] at waits
          exact .inl ⟨kept hm (by simp [Notification.bind]) rfl, .inr waits.2⟩
      | quarantined expired =>
          exact .inl ⟨kept hm (by simp [Notification.quarantine]) rfl, .inl ⟨rfl, rfl⟩⟩
      | inactivated presend =>
          exact .inl ⟨kept hm (by simp [Notification.inactivate]) rfl, .inl ⟨rfl, rfl⟩⟩
      | begun held =>
          simp only [Notification.heldBy, Bool.and_eq_true, decide_eq_true_eq] at held
          exact .inl ⟨by simp [Notification.started, held.1.1.1.2], .inl ⟨rfl, rfl⟩⟩
      | cancelled held =>
          exact .inl ⟨kept hm (by simp [Notification.release]) rfl, .inl ⟨rfl, rfl⟩⟩
      | retried held =>
          exact .inl ⟨kept hm (by simp [Notification.release]) rfl, .inl ⟨rfl, rfl⟩⟩
      | recorded sent =>
          rename_i outcome _
          cases outcome <;> exact
            .inl ⟨kept hm (by simp [Notification.record, Notification.release]) rfl,
              .inl ⟨rfl, rfl⟩⟩

theorem sameReply_iff : n.sameReply m = true ↔
    n.chatId.isSome = true ∧ n.messageId.isSome = true ∧ n.chatId = m.chatId ∧
      n.messageId = m.messageId := by
  simp [Notification.sameReply, and_assoc]

/-- **One step** keeps the order, if it binds in order. -/
theorem InOrder.step (hok : OutboxOk s) (hs : InOrder s) (h : OutboxStep s e t)
    (he : e.BindsInOrder s) : InOrder t := by
  intro n hn m hm hsame hlt hstarted
  rcases h.backward hm with ⟨m₀, hm₀, hmoves⟩ | ⟨_, _, _, -, hadm⟩
  swap
  · -- a new row is not started
    have hnot : m.started = false := by
      rcases hadm.state with hw | hr <;> simp [Notification.started, hadm.sendToken, *]
    rw [hnot] at hstarted
    cases hstarted
  rcases h.backward hn with ⟨n₀, hn₀, nmoves⟩ | ⟨_, _, _, -, hadm⟩
  swap
  · -- a new row is behind the others
    have hle := hok.sequence m₀ hm₀
    rw [hadm.sequence, hmoves.keeps.2] at hlt
    omega
  have hlt₀ : n₀.sequence < m₀.sequence := by
    rw [← nmoves.keeps.2, ← hmoves.keeps.2]
    exact hlt
  rcases hmoves.started hstarted with ⟨hstarted₀, hreply⟩ | ⟨now, lease, fresh, rfl, -⟩
  swap
  · -- the head of a claim is claimed only when nothing before it is pending
    cases h with
    | call new result issued => exact (claimed_row result).2.2 n hn hsame hlt
  have hwaiting : m₀.state ≠ .waiting := by
    intro hw
    simp only [Notification.started, hw, hok.waiting m₀ hm₀ hw] at hstarted₀
    cases hstarted₀
  have hreply₀ := hreply.resolve_right hwaiting
  cases hp : n.pending with
  | false => rfl
  | true =>
      rw [sameReply_iff] at hsame
      rcases nmoves.pending hp with ⟨hp₀, hchat, hmessage⟩ | ⟨_, _, _, _, _, _, rfl, hwaits, rfl⟩
      · have hsame₀ : n₀.sameReply m₀ = true := by
          rw [sameReply_iff, ← hchat, ← hmessage, ← hreply₀.1, ← hreply₀.2]
          exact hsame
        rw [hs n₀ hn₀ m₀ hm₀ hsame₀ hlt₀ hstarted₀] at hp₀
        cases hp₀
      · -- the row was bound just now, so no later one was started
        obtain ⟨hnot, hnone⟩ := he n₀ hn₀ hwaits m₀ hm₀
          (hreply₀.1 ▸ hsame.2.2.1.symm) (hreply₀.2 ▸ hsame.2.2.2.symm) hlt₀
        simp only [Notification.started, hnone, Bool.or_eq_true, decide_eq_true_eq] at hstarted₀
        rcases hstarted₀ with hclaimed | hsome
        · exact absurd hclaimed hnot
        · cases hsome

theorem InOrder.run {es : List OutboxEvent} (h : OutboxReachesInOrder s es t) :
    OutboxOk t ∧ InOrder t := by
  refine h.2.invariant (I := fun s => OutboxOk s ∧ InOrder s)
    (fun hs hst => ⟨hs.1.step hst.1, hs.2.step hs.1 hst.1 hst.2⟩) ⟨.of_empty h.1, ?_⟩
  intro n hn
  rw [h.1] at hn
  cases hn

/-- A row of a send has its token. -/
theorem started_of_busy {T : Table notificationSchema} (hn : n ∈ T.rows) (h : n.busy = true) :
    n.started = true ∧ n.pending = true := by
  have hc := T.checked n hn
  simp only [notificationSchema, Notification.checks, List.all_cons, id, Bool.and_eq_true,
    Bool.or_eq_true] at hc
  obtain ⟨-, -, -, hsend, -⟩ := hc
  cases hs : n.state <;>
    simp [Notification.busy, Notification.started, Notification.pending, hs] at h hsend ⊢
  · exact hsend
  · exact hsend

/-- **Exclusion.** Two notifications of one reply are never both under way. -/
theorem InOrder.exclusive (h : InOrder s) (hn : n ∈ s.db.notifications.rows)
    (hm : m ∈ s.db.notifications.rows) (hsame : n.sameReply m = true) (hbn : n.busy = true)
    (hbm : m.busy = true) : n = m := by
  have hsame' : m.sameReply n = true := by
    rw [sameReply_iff] at hsame ⊢
    obtain ⟨hc, hmsg, hce, hme⟩ := hsame
    exact ⟨hce ▸ hc, hme ▸ hmsg, hce.symm, hme.symm⟩
  obtain ⟨hsn, hpn⟩ := started_of_busy hn hbn
  obtain ⟨hsm, hpm⟩ := started_of_busy hm hbm
  rcases Nat.lt_trichotomy n.sequence m.sequence with hlt | heq | hgt
  · rw [h n hn m hm hsame hlt hsm] at hpn
    cases hpn
  · exact List.inj_on_of_nodup_map
      (s.db.notifications.keys_nodup notificationSchema_sequence) hn hm heq
  · rw [h m hm n hn hsame' hgt hsn] at hpm
    cases hpm

/-- The row of a notification that was admitted for sending. -/
structure SentRow (n m : Notification) : Prop where
  id : m.id = n.id
  sequence : m.sequence = n.sequence
  chatId : m.chatId = n.chatId
  messageId : m.messageId = n.messageId
  sendToken : m.sendToken.isSome = true
  state : m.state ≠ .waiting

theorem SentRow.step (hs : ∃ m ∈ s.db.notifications.rows, SentRow n m) (h : OutboxStep s e t) :
    ∃ m ∈ t.db.notifications.rows, SentRow n m := by
  obtain ⟨m, hm, hsent⟩ := hs
  obtain ⟨k, hk, hmoves⟩ := h.forward hm
  refine ⟨k, hk, ?_⟩
  have kept : ∀ {k : Notification}, k.id = m.id → k.sequence = m.sequence →
      k.chatId = m.chatId → k.messageId = m.messageId → k.sendToken.isSome = true →
      k.state ≠ .waiting → SentRow n k := fun h1 h2 h3 h4 h5 h6 =>
    ⟨h1.trans hsent.id, h2.trans hsent.sequence, h3.trans hsent.chatId,
      h4.trans hsent.messageId, h5, h6⟩
  cases hmoves with
  | same => exact hsent
  | orphaned => exact kept rfl rfl rfl rfl hsent.sendToken hsent.state
  | call moved =>
      cases moved with
      | same => exact hsent
      | bound waits =>
          simp only [Notification.waitsFor, Bool.and_eq_true, decide_eq_true_eq] at waits
          exact absurd waits.2 hsent.state
      | quarantined expired =>
          exact kept rfl rfl rfl rfl hsent.sendToken (by simp [Notification.quarantine])
      | inactivated presend =>
          exact kept rfl rfl rfl rfl hsent.sendToken (by simp [Notification.inactivate])
      | claimed claimable =>
          exact kept rfl rfl rfl rfl hsent.sendToken (by simp [Notification.claim])
      | begun held => exact kept rfl rfl rfl rfl rfl (by simp [Notification.begin])
      | cancelled held =>
          exact kept rfl rfl rfl rfl hsent.sendToken (by simp [Notification.release])
      | retried held =>
          exact kept rfl rfl rfl rfl hsent.sendToken (by simp [Notification.release])
      | recorded sent =>
          rename_i outcome _
          cases outcome <;> exact kept rfl rfl rfl rfl hsent.sendToken
            (by simp [Notification.record, Notification.release])

theorem SentRow.of_admits (h : OutboxStep s e t) (hn : n ∈ s.db.notifications.rows)
    (he : e.Admits n.id token) : ∃ m ∈ t.db.notifications.rows, SentRow n m := by
  obtain ⟨access, c, now, fresh, rfl, hc⟩ := he
  cases h with
  | call new result issued =>
      obtain ⟨-, k, hk, hheld, hrow⟩ := sent_row result
      obtain rfl := eq_of_id hk hn ((id_of_heldBy hheld).trans hc)
      exact ⟨_, hrow, rfl, rfl, rfl, rfl, rfl, by simp [Notification.begin]⟩

/-- **Order.** Of two notifications of one reply the earlier one is admitted first. -/
theorem admitted_in_order {u v w x : OutboxState} (hu : OutboxReachesInOrder s es₁ u)
    (ha : OrderedStep u a v) (hbetween : Run OrderedStep v es₂ w) (hb : OrderedStep w b x)
    (hadm : a.Admits n.id token) (hadm' : b.Admits m.id token') (hn : n ∈ u.db.notifications.rows)
    (hm : m ∈ w.db.notifications.rows) (hsame : n.sameReply m = true) :
    n.sequence ≤ m.sequence := by
  obtain ⟨k, hk, hsent⟩ := hbetween.invariant
    (I := fun s => ∃ m ∈ s.db.notifications.rows, SentRow n m)
    (fun hs hst => SentRow.step hs hst.1) (SentRow.of_admits ha.1 hn hadm)
  have hw : InOrder w := (InOrder.run ⟨hu.1, (hu.2.snoc ha).append hbetween⟩).2
  by_contra hlt
  have hclaimed := claimed_of_admits hb.1 hadm' hm rfl
  have hpending : m.pending = true := by simp [Notification.pending, hclaimed]
  have hsame' : m.sameReply k = true := by
    rw [sameReply_iff] at hsame ⊢
    obtain ⟨hc, hmsg, hce, hme⟩ := hsame
    exact ⟨hce ▸ hc, hme ▸ hmsg, hce.symm.trans hsent.chatId.symm,
      hme.symm.trans hsent.messageId.symm⟩
  have hlt' : m.sequence < k.sequence := by
    rw [hsent.sequence]
    omega
  rw [hw m hm k hk hsame' hlt' (by simp [Notification.started, hsent.sendToken])] at hpending
  cases hpending

/-! ## The outbox -/

/-- **Once, and in order.** In every run a notification is admitted again only after its
latest send is known not to have happened; a row on its way is neither claimed nor
admitted; an acked or cancelled row does not change; and a stale claim or an old token
changes nothing. If every binding comes in order, then two notifications of one reply are
never both under way, and they are admitted in the order of their sequence. -/
theorem notifications_once_and_in_order (s : OutboxState) :
    (∀ t es₁ es₂ es₃ a b id token token',
      OutboxReaches s (es₁ ++ a :: (es₂ ++ b :: es₃)) t → a.Admits id token →
        b.Admits id token' → ∃ e ∈ es₂, e.NotSent id token) ∧
    (∀ es u e v n, OutboxReaches s es u → OutboxStep u e v →
      n ∈ u.db.notifications.rows →
        (n.inFlight = true → ¬ e.Claims n.id ∧ ∀ token, ¬ e.Admits n.id token) ∧
        (n.state = .acked ∨ n.state = .cancelled → e ≠ .items →
          n ∈ v.db.notifications.rows)) ∧
    (∀ t es₁ es₂ now lease fresh n c now' op fresh' db' reply, OutboxReaches s
      (es₁ ++ .call (.claim now lease) fresh (.ok (.claimed (some n))) :: es₂) t →
        c.id = n.id → c.leaseToken = n.leaseToken →
        (now + lease ≤ now' ∨ ∃ e ∈ es₂, e.Claims n.id ∨ e.Releases n.id fresh) →
        OutboxOp.Uses c now' op → op.run fresh' t.db = (reply, db') →
        db' = t.db ∧ reply ≠ .ok (.done true) ∧ ∀ token, reply ≠ .ok (.token token)) ∧
    (∀ t es₁ es₂ es₃ a b id token token' user outcome now fresh db' reply,
      OutboxReaches s (es₁ ++ a :: (es₂ ++ b :: es₃)) t → a.Admits id token →
        b.Admits id token' →
        (OutboxOp.record user id token outcome now).run fresh t.db = (reply, db') →
        db' = t.db ∧ reply ≠ .ok (.done true)) ∧
    (∀ es t, OutboxReachesInOrder s es t → ∀ n ∈ t.db.notifications.rows,
      ∀ m ∈ t.db.notifications.rows, n.sameReply m = true → n.busy = true →
        m.busy = true → n = m) ∧
    (∀ u v w x es₁ es₂ a b n m token token', OutboxReachesInOrder s es₁ u →
      OrderedStep u a v → Run OrderedStep v es₂ w → OrderedStep w b x →
        a.Admits n.id token → b.Admits m.id token' → n ∈ u.db.notifications.rows →
        m ∈ w.db.notifications.rows → n.sameReply m = true → n.sequence ≤ m.sequence) := by
  refine ⟨?_, ?_, ?_, ?_, ?_, ?_⟩
  · exact fun _ _ _ _ _ _ _ _ _ h ha hb => notSent_between h ha hb
  · intro es u e v n _ hstep hn
    refine ⟨inFlight_fenced hstep hn, fun hdone he => ?_⟩
    obtain ⟨m, hm, hmoves⟩ := hstep.forward hn
    rcases hmoves.finished hdone with rfl | ⟨hitems, -⟩
    · exact hm
    · exact absurd hitems he
  · exact fun _ _ _ _ _ _ _ _ _ _ _ _ _ h hid hlease hstale hop hrun =>
      stale_claim h hid hlease hstale hop hrun
  · exact fun _ _ _ _ _ _ _ _ _ _ _ _ _ _ _ h ha hb hrun => old_token h ha hb hrun
  · exact fun _ _ h n hn m hm hsame hbn hbm => (InOrder.run h).2.exclusive hn hm hsame hbn hbm
  · exact fun _ _ _ _ _ _ _ _ _ _ _ _ hu ha hbetween hb hadm hadm' hn hm hsame =>
      admitted_in_order hu ha hbetween hb hadm hadm' hn hm hsame

/-! ## Scenarios -/

namespace OutboxScenario

/-- A line of a script: an operation, and the identifier it draws. -/
def perform (s : OutboxState) (line : OutboxOp × Uuid) : OutboxEvent × OutboxState :=
  let (reply, db) := line.1.run line.2 s.db
  (.call line.1 line.2 reply, ⟨db, line.2 :: s.issued⟩)

def fresh (s : OutboxState) (line : OutboxOp × Uuid) : Bool := !s.issued.contains line.2

theorem perform_step (s : OutboxState) (line : OutboxOp × Uuid) (h : fresh s line = true) :
    OutboxStep s (perform s line).1 (perform s line).2 := by
  refine .call (fun hmem => ?_) rfl rfl
  rw [fresh, List.contains_iff_mem.mpr hmem] at h
  cases h

/-- Two items of user 1, saved through the bot, whose replies are not known yet. -/
def items : Table itemSchema :=
  ⟨[⟨1, 1, none, "https://example.com/1", none, "classified", "bot", none, none⟩,
    ⟨2, 1, none, "https://example.com/2", none, "classified", "bot", none, none⟩],
    by decide, by decide⟩

def start : OutboxState := ⟨⟨items, .empty _, 0⟩, []⟩

def reply : ReplyTarget := ⟨-100, 42⟩

/-- The classification of an item is applied. -/
def complete (item : Int) (now : Int) (id : Nat) : OutboxOp × Uuid :=
  (.admitJob ⟨item, 1, some item, "lease"⟩ [] now, uuid id)

def bindTo (item : Int) (id : Nat) : OutboxOp × Uuid := (.bind (.ok ()) 1 item reply, uuid id)

/-- The claim of a notification, as its dispatcher presents it. -/
def held (sequence id lease : Nat) (item now : Int) : Notification where
  sequence := sequence
  id := uuid id
  userId := 1
  itemId := some item
  completionKey := ""
  payload := .obj []
  chatId := some reply.chatId
  messageId := some reply.messageId
  state := .claimed
  attempts := 1
  availableAt := now
  leaseUntil := some (now + 10)
  leaseToken := some (uuid lease)
  sendToken := none
  receipt := none
  errorCode := none
  createdAt := now
  updatedAt := now

/-- The second item is bound and its notification claimed; then the first is bound to the
same reply, and its notification is claimed too. -/
def overtaken : List (OutboxOp × Uuid) :=
  [complete 1 1 10, bindTo 2 11, complete 2 2 12, (.claim 3 10, uuid 13), bindTo 1 14,
    (.claim 4 10, uuid 15)]

/-- Both are sent, the later one first. -/
def overtakenSent : List (OutboxOp × Uuid) :=
  overtaken ++ [(.send (.ok ()) (held 2 12 13 2 3) 5, uuid 16),
    (.send (.ok ()) (held 1 10 15 1 4) 6, uuid 17)]

/-- A notification is claimed. -/
def claimed : List (OutboxOp × Uuid) :=
  [bindTo 1 11, complete 1 1 10, (.claim 3 10, uuid 13)]

def firstSend : OutboxOp × Uuid := (.send (.ok ()) (held 1 10 13 1 3) 4, uuid 14)

/-- Its send did not happen, and it is claimed again. -/
def reclaimed : List (OutboxOp × Uuid) :=
  [(.record 1 (uuid 10) (uuid 14) (.definitelyNotSent 5) 5, uuid 15), (.claim 6 10, uuid 16)]

def secondSend : OutboxOp × Uuid := (.send (.ok ()) (held 1 10 16 1 6) 7, uuid 17)

/-- A send that did not happen is followed by another. -/
def resent : List (OutboxOp × Uuid) := claimed ++ firstSend :: (reclaimed ++ [secondSend])

/-- The state after some lines of the script. -/
def after (lines : Nat) : OutboxState := (play perform start (resent.take lines)).2

/-- The notification a send was admitted for. -/
def admittedId : OutboxEvent → Option Uuid
  | .call (.send _ c _) _ (.ok (.token _)) => some c.id
  | _ => none

end OutboxScenario

open OutboxScenario

/-- Two notifications of one reply are claimed at the same time, and the later one is sent
first. -/
theorem late_binding_overtakes :
    OutboxReaches start (play perform start overtakenSent).1
        (play perform start overtakenSent).2 ∧
      (∃ n ∈ (play perform start overtaken).2.db.notifications.rows,
        ∃ m ∈ (play perform start overtaken).2.db.notifications.rows,
          n.sameReply m = true ∧ n.sequence < m.sequence ∧ n.busy = true ∧ m.busy = true ∧
            (play perform start overtakenSent).1.filterMap admittedId = [m.id, n.id]) := by
  refine ⟨⟨rfl, play_run perform_step (by decide +kernel)⟩, ?_⟩
  decide +kernel

/-- The second admission of a notification comes after its first send failed. -/
theorem notifications_once_and_in_order_resent :
    ∃ e ∈ (play perform (after 4) reclaimed).1, e.NotSent (uuid 10) (uuid 14) := by
  have hrun : OutboxReaches start ((play perform start claimed).1 ++
      (perform (after 3) firstSend).1 :: ((play perform (after 4) reclaimed).1 ++
        (perform (after 6) secondSend).1 :: [])) (after 7) :=
    ⟨rfl, play_run perform_step (show allowed perform fresh start resent = true by
      decide +kernel)⟩
  have hfirst : (perform (after 3) firstSend).1.Admits (uuid 10) (uuid 14) :=
    ⟨.ok (), held 1 10 13 1 3, 4, uuid 14, rfl, rfl⟩
  have hsecond : (perform (after 6) secondSend).1.Admits (uuid 10) (uuid 17) :=
    ⟨.ok (), held 1 10 16 1 6, 7, uuid 17, rfl, rfl⟩
  exact (notifications_once_and_in_order _).1 _ _ _ _ _ _ _ _ _ hrun hfirst hsecond

end YoinkCore.Inbox
