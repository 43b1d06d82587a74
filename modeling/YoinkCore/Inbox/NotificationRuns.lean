import YoinkCore.Inbox.Notification
import YoinkCore.Lib.Run

/-!
# Runs of the outbox

Any number of dispatchers call the outbox in any order, with claims of any age. Between
the calls the items change in any way; a notification of a deleted item loses it. Tokens
and identifiers are never drawn twice.
-/

namespace YoinkCore.Inbox

open Lib Storage

/-! ## Operations as data -/

inductive OutboxOp where
  | admitJob (job : Job) (categories : List String) (now : Int)
  | bind (access : Except Error Unit) (user item : Int) (target : ReplyTarget)
  | claim (now lease : Int)
  | send (access : Except Error Unit) (held : Notification) (now : Int)
  | cancel (held : Notification) (now : Int)
  | retry (held : Notification) (now availableAt : Int)
  | record (user : Int) (id token : Uuid) (outcome : Outcome) (now : Int)

inductive OutboxReply where
  | admitted
  | done (changed : Bool)
  | claimed (n : Option Notification)
  | token (token : Uuid)
deriving DecidableEq

/-- Rename the result of a method. -/
def answering {α : Type} (f : α → OutboxReply) (x : Except Error α × Outbox) :
    Except Error OutboxReply × Outbox :=
  (x.1.map f, x.2)

/-- Perform an operation, with the identifier it draws. -/
def OutboxOp.run (op : OutboxOp) (fresh : Uuid) (db : Outbox) :
    Except Error OutboxReply × Outbox :=
  match op with
  | .admitJob job categories now =>
      answering (fun _ => .admitted) (Tx.auto (admitNotification job categories now fresh) db)
  | .bind access user item target => answering .done (bindReply access user item target db)
  | .claim now lease => answering .claimed (claimNotification now lease fresh db)
  | .send access held now => answering .token (beginNotificationSend access held now fresh db)
  | .cancel held now => answering .done (cancelNotificationClaim held now db)
  | .retry held now availableAt => answering .done (retryNotification held now availableAt db)
  | .record user id token outcome now =>
      answering .done (notificationOutcome user id token outcome now db)

/-! ## What a call does to a row -/

/-- The changes of one row. The reply tells of those that a dispatcher makes. -/
inductive Moved (fresh : Uuid) : OutboxOp → OutboxReply → Notification → Notification → Prop
  | same {op : OutboxOp} {reply : OutboxReply} {n : Notification} : Moved fresh op reply n n
  | bound {access : Except Error Unit} {user item : Int} {target : ReplyTarget}
      {reply : OutboxReply} {n : Notification} (waits : n.waitsFor user item = true) :
      Moved fresh (.bind access user item target) reply n (n.bind target)
  | quarantined {now lease : Int} {reply : OutboxReply} {n : Notification}
      (expired : n.expired now = true) :
      Moved fresh (.claim now lease) reply n (n.quarantine now)
  | inactivated {now lease : Int} {reply : OutboxReply} {n : Notification}
      (presend : n.presend = true) : Moved fresh (.claim now lease) reply n (n.inactivate now)
  | claimed {now lease : Int} {n : Notification} (claimable : n.claimable now = true) :
      Moved fresh (.claim now lease) (.claimed (some (n.claim (now + lease) now fresh))) n
        (n.claim (now + lease) now fresh)
  | begun {access : Except Error Unit} {c : Notification} {now : Int} {n : Notification}
      (held : n.heldBy c now = true) :
      Moved fresh (.send access c now) (.token fresh) n (n.begin now fresh)
  | cancelled {c : Notification} {now : Int} {n : Notification}
      (held : n.heldBy c now = true) : Moved fresh (.cancel c now) (.done true) n
        { n.release .cancelled now with errorCode := some .inactive }
  | retried {c : Notification} {now availableAt : Int} {n : Notification}
      (held : n.heldBy c now = true) : Moved fresh (.retry c now availableAt) (.done true) n
        { n.release .ready now with availableAt }
  | recorded {user : Int} {id token : Uuid} {outcome : Outcome} {now : Int}
      {n : Notification} (sent : n.sentUnder user id token = true) :
      Moved fresh (.record user id token outcome now) (.done true) n (n.record outcome now)

/-- A new row. -/
structure Admitted (db : Outbox) (fresh : Uuid) (n : Notification) : Prop where
  sequence : n.sequence = db.lastSequence + 1
  id : n.id = fresh
  state : n.state = .waiting ∨ n.state = .ready
  leaseToken : n.leaseToken = none
  sendToken : n.sendToken = none

/-- What a call does to the outbox: every row moves, or one is added behind the others. -/
inductive OutboxEffect (db : Outbox) (fresh : Uuid) (op : OutboxOp) (reply : OutboxReply)
    (db' : Outbox) : Prop
  | rows (f : Notification → Notification)
      (rows : db'.notifications.rows = db.notifications.rows.map f)
      (moved : ∀ n ∈ db.notifications.rows, Moved fresh op reply n (f n))
      (last : db'.lastSequence = db.lastSequence)
  | added (n : Notification) (admitted : Admitted db fresh n)
      (rows : db'.notifications.rows = db.notifications.rows ++ [n])
      (last : db'.lastSequence = db.lastSequence + 1)

/-! ## Statements -/

variable {f : Notification → Notification} {p : Notification → Bool} {db db' : Outbox}
  {m n : Notification} {reply : OutboxReply} {op : OutboxOp} {fresh : Uuid} {now : Int}

theorem updateNotifications_eq_ok {changed : Nat} :
    updateNotifications p f db = .ok (changed, db') ↔
      ∃ notifications, db.notifications.update p f = some (notifications, changed) ∧
        db' = { db with notifications } := by
  simp only [updateNotifications, Tx.bind_eq_ok, Tx.get_eq_ok]
  constructor
  · rintro ⟨_, _, ⟨rfl, rfl⟩, h⟩
    cases hu : db.notifications.update p f with
    | none => simp [hu] at h
    | some u =>
        obtain ⟨notifications, n⟩ := u
        simp only [hu, Tx.bind_eq_ok, Tx.set_eq_ok, Tx.pure_eq_ok] at h
        obtain ⟨_, _, rfl, rfl, rfl⟩ := h
        exact ⟨notifications, rfl, rfl⟩
  · rintro ⟨notifications, hu, rfl⟩
    refine ⟨db, db, ⟨rfl, rfl⟩, ?_⟩
    rw [hu]
    rfl

/-- An update rewrites the rows it matches. -/
theorem updateNotifications_rows {changed : Nat}
    (h : updateNotifications p f db = .ok (changed, db')) :
    db'.notifications.rows = db.notifications.rows.map (fun n => if p n then f n else n) ∧
      changed = db.notifications.rows.countP p ∧ db'.items = db.items ∧
      db'.lastSequence = db.lastSequence := by
  obtain ⟨notifications, hu, rfl⟩ := updateNotifications_eq_ok.mp h
  obtain ⟨hrows, hn⟩ := Table.update_eq_some.mp hu
  exact ⟨hrows, hn, rfl, rfl⟩

/-- An update whose rows are moves is an effect. -/
theorem OutboxEffect.update {changed : Nat}
    (hm : ∀ n ∈ db.notifications.rows, p n = true → Moved fresh op reply n (f n))
    (h : updateNotifications p f db = .ok (changed, db')) : OutboxEffect db fresh op reply db' := by
  obtain ⟨hrows, -, -, hlast⟩ := updateNotifications_rows h
  refine .rows _ hrows (fun n hn => ?_) hlast
  split
  · rename_i hp
    exact hm n hn hp
  · exact .same

theorem OutboxEffect.refl : OutboxEffect db fresh op reply db :=
  .rows id (List.map_id _).symm (fun _ _ => .same) rfl

theorem notificationSchema_id : Table.Keyed notificationSchema Notification.id := by
  intro a b h
  simp [notificationSchema, h]

theorem notificationSchema_sequence :
    Table.Keyed notificationSchema Notification.sequence := by
  intro a b h
  simp [notificationSchema, h]

/-- A row is known by its identifier. -/
theorem eq_of_id {T : Table notificationSchema} (hn : n ∈ T.rows) (hm : m ∈ T.rows)
    (h : n.id = m.id) : n = m :=
  List.inj_on_of_nodup_map (T.keys_nodup notificationSchema_id) hn hm h

/-- An update of the row with an identifier that matches changes exactly one. -/
theorem changed_eq_one {changed : Nat} {id : Uuid} (hp : ∀ n, p n = true → n.id = id)
    (h : updateNotifications p f db = .ok (changed, db')) (hn : n ∈ db.notifications.rows)
    (hm : p n = true) : changed = 1 := by
  rw [(updateNotifications_rows h).2.1, Table.countP_of_key notificationSchema_id hp,
    (Table.find_eq_some notificationSchema_id).mpr ⟨hn, hp n hm⟩]
  simp [hm]

/-! ## Inverting a call -/

theorem answering_eq_ok {α : Type} {f : α → OutboxReply} {x : Except Error α × Outbox}
    (h : answering f x = (.ok reply, db')) : ∃ a, x = (.ok a, db') ∧ reply = f a := by
  obtain ⟨r, db''⟩ := x
  cases r with
  | error e => cases h
  | ok a =>
      cases h
      exact ⟨a, rfl, rfl⟩

theorem refusing_eq_ok {α : Type} {checks : Except Error Unit} {body : OutboxStmt α} {a : α} :
    refusing checks body db = (.ok a, db') ↔ checks = .ok () ∧ body db = .ok (a, db') := by
  unfold refusing
  cases checks with
  | error e => simp
  | ok u => simp [Tx.auto_eq_ok]

theorem updateOne_eq_ok {changed : Bool} (h : updateOne p f db = .ok (changed, db')) :
    ∃ n, updateNotifications p f db = .ok (n, db') ∧ changed = decide (n = 1) := by
  simp only [updateOne, Tx.bind_eq_ok, Tx.pure_eq_ok] at h
  obtain ⟨n, _, hu, rfl, rfl⟩ := h
  exact ⟨n, hu, rfl⟩

/-- A row that is inserted is the next one. -/
theorem insertNotification_effect {row : Nat → Notification} {u : Unit}
    (hrow : Admitted db fresh (row (db.lastSequence + 1)))
    (h : insertNotification row db = .ok (u, db')) : OutboxEffect db fresh op reply db' := by
  simp only [insertNotification, Tx.bind_eq_ok, Tx.get_eq_ok] at h
  obtain ⟨_, _, ⟨rfl, rfl⟩, h⟩ := h
  split at h
  · obtain ⟨-, rfl⟩ := Tx.pure_eq_ok.mp h
    exact .refl
  · cases hi : db.notifications.insert (row (db.lastSequence + 1)) with
    | none =>
        rw [hi] at h
        cases h
    | some notifications =>
        rw [hi] at h
        obtain rfl := Tx.set_eq_ok.mp h
        exact .added _ hrow (Table.insert_eq_some.mp hi) rfl

theorem admitNotification_effect {job : Job} {categories : List String} {u : Unit}
    (h : admitNotification job categories now fresh db = .ok (u, db')) :
    OutboxEffect db fresh op reply db' := by
  unfold admitNotification at h
  cases hitem : job.itemId with
  | none =>
      rw [hitem] at h
      cases h
  | some item =>
      rw [hitem] at h
      simp only [Tx.bind_eq_ok, Tx.get_eq_ok] at h
      obtain ⟨_, _, ⟨rfl, rfl⟩, h⟩ := h
      cases hi : db.item job.userId item with
      | none =>
          rw [hi] at h
          obtain ⟨-, rfl⟩ := Tx.pure_eq_ok.mp h
          exact .refl
      | some i =>
          rw [hi] at h
          dsimp only at h
          split at h
          · obtain ⟨-, rfl⟩ := Tx.pure_eq_ok.mp h
            exact .refl
          · refine insertNotification_effect ⟨rfl, rfl, ?_, rfl, rfl⟩ h
            cases i.bound
            · exact .inl rfl
            · exact .inr rfl

theorem bindItem_notifications {user item : Int} {target : ReplyTarget} {changed : Nat}
    (h : bindItem user item target db = .ok (changed, db')) :
    db'.notifications = db.notifications ∧ db'.lastSequence = db.lastSequence := by
  simp only [bindItem, Tx.bind_eq_ok, Tx.get_eq_ok] at h
  obtain ⟨_, _, ⟨rfl, rfl⟩, h⟩ := h
  generalize db.items.update _ _ = updated at h
  cases updated with
  | none => cases h
  | some u =>
      simp only [Tx.bind_eq_ok, Tx.set_eq_ok, Tx.pure_eq_ok] at h
      obtain ⟨_, _, rfl, -, rfl⟩ := h
      exact ⟨rfl, rfl⟩

theorem bindReplyOn_effect {access : Except Error Unit} {user item : Int} {target : ReplyTarget}
    {changed : Bool} (h : bindReplyOn user item target db = .ok (changed, db')) :
    OutboxEffect db fresh (.bind access user item target) reply db' := by
  simp only [bindReplyOn, Tx.bind_eq_ok] at h
  obtain ⟨rows, db₁, hitem, h⟩ := h
  obtain ⟨hsame, hlast⟩ := bindItem_notifications hitem
  have hkept : OutboxEffect db₁ fresh (.bind access user item target) reply db' := by
    split at h
    · simp only [Tx.bind_eq_ok, Tx.pure_eq_ok] at h
      obtain ⟨_, _, hu, -, rfl⟩ := h
      exact .update (fun n _ hn => .bound hn) hu
    · obtain ⟨-, rfl⟩ := Tx.pure_eq_ok.mp h
      exact .refl
  cases hkept with
  | rows f hrows moved last =>
      exact .rows f (hsame ▸ hrows) (hsame ▸ moved) (last.trans hlast)
  | added n admitted hrows last =>
      exact .added n ⟨hlast ▸ admitted.sequence, admitted.id, admitted.state,
        admitted.leaseToken, admitted.sendToken⟩ (hsame ▸ hrows) (hlast ▸ last)

/-! ## Claims -/

/-- What the first two updates of a claim leave of a row. -/
inductive SweptTo (now : Int) (n : Notification) : Notification → Prop
  | same : SweptTo now n n
  | quarantined (expired : n.expired now = true) : SweptTo now n (n.quarantine now)
  | inactivated (presend : n.presend = true) : SweptTo now n (n.inactivate now)

theorem SweptTo.id (h : SweptTo now n m) : m.id = n.id := by
  cases h <;> rfl

theorem SweptTo.moved {lease : Int} (h : SweptTo now n m) :
    Moved fresh (.claim now lease) reply n m := by
  cases h with
  | same => exact .same
  | quarantined expired => exact .quarantined expired
  | inactivated presend => exact .inactivated presend

/-- A row that can still be claimed was left alone. -/
theorem SweptTo.of_pending (h : SweptTo now n m) (hm : m.claimable now = true) : m = n := by
  cases h with
  | same => rfl
  | quarantined expired => simp [Notification.claimable, Notification.quarantine] at hm
  | inactivated presend => simp [Notification.claimable, Notification.inactivate] at hm

theorem sweepNotifications_rows {swept : Outbox} {u : Unit}
    (h : sweepNotifications now db = .ok (u, swept)) :
    ∃ f, swept.notifications.rows = db.notifications.rows.map f ∧
      (∀ n ∈ db.notifications.rows, SweptTo now n (f n)) ∧
      swept.lastSequence = db.lastSequence := by
  simp only [sweepNotifications, Tx.bind_eq_ok, Tx.get_eq_ok, Tx.pure_eq_ok] at h
  obtain ⟨_, db₁, hfirst, _, _, ⟨rfl, rfl⟩, _, _, hsecond, -, rfl⟩ := h
  obtain ⟨hrows₁, -, -, hlast₁⟩ := updateNotifications_rows hfirst
  obtain ⟨hrows₂, -, -, hlast₂⟩ := updateNotifications_rows hsecond
  refine ⟨_, by rw [hrows₂, hrows₁, List.map_map], fun n _ => ?_, hlast₂.trans hlast₁⟩
  dsimp only [Function.comp_apply]
  by_cases he : n.expired now = true
  · -- a quarantined row is past the send, so the second update leaves it
    rw [if_pos he, if_neg (by simp [Notification.presend, Notification.quarantine])]
    exact .quarantined he
  · rw [if_neg he]
    split
    · rename_i hp
      exact .inactivated (Bool.and_eq_true_iff.mp hp).1
    · exact .same

/-- The head may be claimed, and nothing before it blocks it. -/
theorem head_eq_some {head : Notification} (h : db.head now = some head) :
    head ∈ db.notifications.rows ∧
      head.claimable now = true ∧ db.blocked head = false := by
  have hmem := (List.mem_insertionSort sequenceOrder).mp (List.mem_of_mem_head? h)
  simpa using List.mem_filter.mp hmem

/-- What a claim that goes through does. -/
theorem claimNotificationOn_eq_ok {until' : Int} {reply : Option Notification}
    (h : claimNotificationOn until' now fresh db = .ok (reply, db')) :
    ∃ swept f, swept.notifications.rows = db.notifications.rows.map f ∧
      (∀ n ∈ db.notifications.rows, SweptTo now n (f n)) ∧
      db'.lastSequence = db.lastSequence ∧
      (reply = none ∧ db' = swept ∨ ∃ head ∈ db.notifications.rows, f head = head ∧
        head.claimable now = true ∧ swept.blocked head = false ∧
        reply = some (head.claim until' now fresh) ∧
        db'.notifications.rows = swept.notifications.rows.map fun n =>
          if n.id = head.id then n.claim until' now fresh else n) := by
  simp only [claimNotificationOn, Tx.bind_eq_ok] at h
  obtain ⟨_, swept, hsweep, h⟩ := h
  obtain ⟨f, hrows, hf, hlast⟩ := sweepNotifications_rows hsweep
  refine ⟨swept, f, hrows, hf, ?_⟩
  simp only [claimHead, Tx.bind_eq_ok, Tx.get_eq_ok] at h
  obtain ⟨_, _, ⟨rfl, rfl⟩, h⟩ := h
  cases hh : swept.head now with
  | none =>
      rw [hh] at h
      obtain ⟨rfl, rfl⟩ := Tx.pure_eq_ok.mp h
      exact ⟨hlast, .inl ⟨rfl, rfl⟩⟩
  | some head =>
      rw [hh] at h
      simp only [Tx.bind_eq_ok, Tx.pure_eq_ok] at h
      obtain ⟨_, _, hu, rfl, rfl⟩ := h
      obtain ⟨hmem, hclaim, hblocked⟩ := head_eq_some hh
      obtain ⟨hrows', -, -, hlast'⟩ := updateNotifications_rows hu
      rw [hrows, List.mem_map] at hmem
      obtain ⟨n, hn, hfn⟩ := hmem
      obtain rfl : head = n := (hfn ▸ hf n hn : SweptTo now n head).of_pending hclaim
      refine ⟨hlast'.trans hlast, .inr ⟨head, hn, hfn, hclaim, hblocked, rfl, ?_⟩⟩
      simpa only [decide_eq_true_eq] using hrows'

theorem claimNotificationOn_effect {now lease : Int} {fresh : Uuid} {db db' : Outbox}
    {reply : Option Notification}
    (h : claimNotificationOn (now + lease) now fresh db = .ok (reply, db')) :
    OutboxEffect db fresh (.claim now lease) (.claimed reply) db' := by
  obtain ⟨swept, f, hrows, hf, hlast, hcase⟩ := claimNotificationOn_eq_ok h
  have hmoved : ∀ n ∈ db.notifications.rows,
      Moved fresh (.claim now lease) (.claimed reply) n (f n) := fun n hn => (hf n hn).moved
  rcases hcase with ⟨-, rfl⟩ | ⟨head, hhead, hfh, hclaim, -, rfl, hrows'⟩
  · exact .rows f hrows hmoved hlast
  · refine .rows _ (by rw [hrows', hrows, List.map_map]) (fun n hn => ?_) hlast
    dsimp only [Function.comp_apply]
    split
    · rename_i hid
      obtain rfl : n = head := eq_of_id hn hhead ((hf n hn).id.symm.trans hid)
      rw [hfh]
      exact .claimed hclaim
    · exact hmoved n hn

/-! ## Sends and outcomes -/

/-- A send that is admitted records its token in the row of the claim. -/
theorem beginNotificationSend_eq_ok {access : Except Error Unit} {c : Notification} {token : Uuid}
    (h : beginNotificationSend access c now fresh db = (.ok token, db')) :
    token = fresh ∧ ∃ p : Notification → Bool, (∀ n, p n = true → n.heldBy c now = true) ∧
      updateNotifications p (·.begin now fresh) db = .ok (1, db') := by
  unfold beginNotificationSend at h
  split at h
  · obtain ⟨-, h⟩ := refusing_eq_ok.mp h
    simp only [beginSendOn, Tx.bind_eq_ok, Tx.get_eq_ok] at h
    obtain ⟨_, _, ⟨rfl, rfl⟩, changed, db₁, hu, h⟩ := h
    split at h
    · rename_i hc
      obtain ⟨rfl, rfl⟩ := Tx.pure_eq_ok.mp h
      refine ⟨rfl, _, fun n hn => ?_, hc ▸ hu⟩
      simp only [Bool.and_eq_true] at hn
      exact hn.1.1.1
    · cases h
  · cases h

/-- An update by a claim changes the row the claim is about. -/
theorem id_of_heldBy {c : Notification} (h : n.heldBy c now = true) : n.id = c.id := by
  simp only [Notification.heldBy, Bool.and_eq_true, decide_eq_true_eq] at h
  exact h.1.1.1.1.1

theorem id_of_sentUnder {user : Int} {id token : Uuid} (h : n.sentUnder user id token = true) :
    n.id = id := by
  simp only [Notification.sentUnder, Bool.and_eq_true, decide_eq_true_eq] at h
  exact h.1.1.2

/-- An update of one row that goes through. -/
theorem OutboxEffect.updateOne {changed : Bool} {id : Uuid} (hp : ∀ n, p n = true → n.id = id)
    (hm : ∀ n, p n = true → Moved fresh op (.done true) n (f n))
    (h : Inbox.updateOne p f db = .ok (changed, db')) :
    OutboxEffect db fresh op (.done changed) db' := by
  obtain ⟨_, hu, rfl⟩ := updateOne_eq_ok h
  refine .update (fun n hn hpn => ?_) hu
  rw [changed_eq_one hp hu hn hpn]
  exact hm n hpn

/-- **Every call that succeeds** moves rows or adds one. -/
theorem OutboxOp.run_effect (h : op.run fresh db = (.ok reply, db')) :
    OutboxEffect db fresh op reply db' := by
  cases op with
  | admitJob job categories now =>
      obtain ⟨_, hcall, -⟩ := answering_eq_ok h
      exact admitNotification_effect (Tx.auto_eq_ok.mp hcall)
  | bind access user item target =>
      obtain ⟨_, hcall, -⟩ := answering_eq_ok h
      exact bindReplyOn_effect (refusing_eq_ok.mp hcall).2
  | claim now lease =>
      obtain ⟨_, hcall, rfl⟩ := answering_eq_ok h
      exact claimNotificationOn_effect (refusing_eq_ok.mp hcall).2
  | send access c now =>
      obtain ⟨_, hcall, rfl⟩ := answering_eq_ok h
      obtain ⟨rfl, p, hp, hu⟩ := beginNotificationSend_eq_ok hcall
      exact .update (fun n _ hn => .begun (hp n hn)) hu
  | cancel c now =>
      obtain ⟨_, hcall, rfl⟩ := answering_eq_ok h
      exact .updateOne (fun _ => id_of_heldBy) (fun _ hn => .cancelled hn)
        (Tx.auto_eq_ok.mp hcall)
  | retry c now availableAt =>
      obtain ⟨_, hcall, rfl⟩ := answering_eq_ok h
      exact .updateOne (fun _ => id_of_heldBy) (fun _ hn => .retried hn)
        (refusing_eq_ok.mp hcall).2
  | record user id token outcome now =>
      obtain ⟨_, hcall, rfl⟩ := answering_eq_ok h
      exact .updateOne (fun _ => id_of_sentUnder) (fun _ hn => .recorded hn)
        (refusing_eq_ok.mp hcall).2

/-! ## Runs -/

/-- The outbox, and the identifiers drawn so far. -/
structure OutboxState where
  db : Outbox
  issued : List Uuid

/-- One atomic event: a call with what it drew and returned, or a change of the items. -/
inductive OutboxEvent where
  | call (op : OutboxOp) (fresh : Uuid) (reply : Except Error OutboxReply)
  | items

/-- The item of a notification is gone, or the notification is as it was. -/
def Notification.orphan (gone : Notification → Bool) (n : Notification) : Notification :=
  if gone n then { n with itemId := none } else n

inductive OutboxStep : OutboxState → OutboxEvent → OutboxState → Prop
  | call {s t : OutboxState} {op : OutboxOp} {fresh : Uuid}
      {reply : Except Error OutboxReply} (new : fresh ∉ s.issued)
      (result : op.run fresh s.db = (reply, t.db)) (issued : t.issued = fresh :: s.issued) :
      OutboxStep s (.call op fresh reply) t
  | items {s t : OutboxState} (gone : Notification → Bool)
      (rows : t.db.notifications.rows = s.db.notifications.rows.map (·.orphan gone))
      (last : t.db.lastSequence = s.db.lastSequence) (issued : t.issued = s.issued) :
      OutboxStep s .items t

/-- A run from an empty outbox. -/
def OutboxReaches (s : OutboxState) (es : List OutboxEvent) (t : OutboxState) : Prop :=
  s.db.notifications.rows = [] ∧ Run OutboxStep s es t

/-- A call that fails changes nothing. -/
theorem refusing_error_state {α : Type} {checks : Except Error Unit} {body : OutboxStmt α}
    {e : Error} (h : refusing checks body db = (.error e, db')) : db' = db := by
  unfold refusing at h
  split at h
  · cases h
    rfl
  · exact Tx.auto_error_state h

theorem answering_eq_error {α : Type} {f : α → OutboxReply} {x : Except Error α × Outbox}
    {e : Error} (h : answering f x = (.error e, db')) : x = (.error e, db') := by
  obtain ⟨r, db''⟩ := x
  cases r with
  | error e' =>
      cases h
      rfl
  | ok a => cases h

theorem OutboxOp.run_error_state {e : Error} (h : op.run fresh db = (.error e, db')) :
    db' = db := by
  cases op with
  | send access c now =>
      have hcall := answering_eq_error h
      unfold beginNotificationSend at hcall
      split at hcall
      · exact refusing_error_state hcall
      · cases hcall
        rfl
  | admitJob job categories now | cancel c now => exact Tx.auto_error_state (answering_eq_error h)
  | bind access user item target | claim now lease | retry c now availableAt
  | record user id token outcome now => exact refusing_error_state (answering_eq_error h)

/-! ## Steps -/

/-- What an event does to a row. -/
inductive EventMoves : OutboxEvent → Notification → Notification → Prop
  | same {e : OutboxEvent} {n : Notification} : EventMoves e n n
  | call {op : OutboxOp} {fresh : Uuid} {reply : OutboxReply} {n m : Notification}
      (moved : Moved fresh op reply n m) : EventMoves (.call op fresh (.ok reply)) n m
  | orphaned {n : Notification} : EventMoves .items n { n with itemId := none }

/-- A step moves the rows, or adds one behind the others. -/
theorem OutboxStep.rows {s t : OutboxState} {e : OutboxEvent} (h : OutboxStep s e t) :
    (∃ f, t.db.notifications.rows = s.db.notifications.rows.map f ∧
      (∀ n ∈ s.db.notifications.rows, EventMoves e n (f n)) ∧
      t.db.lastSequence = s.db.lastSequence) ∨
    ∃ op fresh reply n, e = .call op fresh (.ok reply) ∧ Admitted s.db fresh n ∧
      t.db.notifications.rows = s.db.notifications.rows ++ [n] ∧
      t.db.lastSequence = s.db.lastSequence + 1 := by
  cases h with
  | call new result issued =>
      rename_i op fresh reply
      cases reply with
      | error e =>
          refine .inl ⟨id, ?_, fun _ _ => .same, ?_⟩
          · rw [OutboxOp.run_error_state result, List.map_id]
          · rw [OutboxOp.run_error_state result]
      | ok reply =>
          cases OutboxOp.run_effect result with
          | rows f hrows moved last => exact .inl ⟨f, hrows, fun n hn => .call (moved n hn), last⟩
          | added n admitted hrows last =>
              exact .inr ⟨op, fresh, reply, n, rfl, admitted, hrows, last⟩
  | items gone hrows last issued =>
      refine .inl ⟨_, hrows, fun n _ => ?_, last⟩
      unfold Notification.orphan
      split
      · exact .orphaned
      · exact .same

variable {s t : OutboxState} {e : OutboxEvent}

/-- A row that was there is moved. -/
theorem OutboxStep.forward (h : OutboxStep s e t) (hn : n ∈ s.db.notifications.rows) :
    ∃ m ∈ t.db.notifications.rows, EventMoves e n m := by
  rcases h.rows with ⟨f, hrows, hmoves, -⟩ | ⟨_, _, _, _, -, -, hrows, -⟩
  · exact ⟨f n, hrows ▸ List.mem_map_of_mem hn, hmoves n hn⟩
  · exact ⟨n, hrows ▸ List.mem_append_left _ hn, .same⟩

/-- A row was moved there, or is new. -/
theorem OutboxStep.backward (h : OutboxStep s e t) (hm : m ∈ t.db.notifications.rows) :
    (∃ n ∈ s.db.notifications.rows, EventMoves e n m) ∨
      ∃ op fresh reply, e = .call op fresh (.ok reply) ∧ Admitted s.db fresh m := by
  rcases h.rows with ⟨f, hrows, hmoves, -⟩ | ⟨op, fresh, reply, n, he, hadm, hrows, -⟩
  · rw [hrows, List.mem_map] at hm
    obtain ⟨n, hn, rfl⟩ := hm
    exact .inl ⟨n, hn, hmoves n hn⟩
  · rw [hrows, List.mem_append, List.mem_singleton] at hm
    rcases hm with hm | rfl
    · exact .inl ⟨m, hm, .same⟩
    · exact .inr ⟨op, fresh, reply, he, hadm⟩

namespace EventMoves

variable {e : OutboxEvent} {n m : Notification}

theorem keeps (h : EventMoves e n m) : m.id = n.id ∧ m.sequence = n.sequence := by
  cases h with
  | same | orphaned => exact ⟨rfl, rfl⟩
  | call moved =>
      cases moved <;> try exact ⟨rfl, rfl⟩
      rename_i outcome _ _
      cases outcome <;> exact ⟨rfl, rfl⟩

end EventMoves

/-- Identifiers are only ever added. -/
theorem OutboxStep.issued_subset (h : OutboxStep s e t) {id : Uuid} (hid : id ∈ s.issued) :
    id ∈ t.issued := by
  cases h with
  | call new result issued => exact issued ▸ List.mem_cons_of_mem _ hid
  | items gone rows last issued => exact issued ▸ hid

theorem OutboxStep.fresh_issued {reply : Except Error OutboxReply}
    (h : OutboxStep s (.call op fresh reply) t) : fresh ∉ s.issued ∧ fresh ∈ t.issued := by
  cases h with
  | call new result issued => exact ⟨new, issued ▸ List.mem_cons_self⟩

/-- What holds of the rows of the outbox in every state. -/
structure OutboxOk (s : OutboxState) : Prop where
  id : ∀ n ∈ s.db.notifications.rows, n.id ∈ s.issued
  sequence : ∀ n ∈ s.db.notifications.rows, n.sequence ≤ s.db.lastSequence
  lease : ∀ n ∈ s.db.notifications.rows, ∀ token ∈ n.leaseToken, token ∈ s.issued
  send : ∀ n ∈ s.db.notifications.rows, ∀ token ∈ n.sendToken, token ∈ s.issued
  waiting : ∀ n ∈ s.db.notifications.rows, n.state = .waiting → n.sendToken = none

/-- A token in a row was there, or was drawn for it. -/
theorem EventMoves.tokens (h : EventMoves e n m) :
    (∀ token ∈ m.leaseToken, token ∈ n.leaseToken ∨ ∃ op reply, e = .call op token reply) ∧
      (∀ token ∈ m.sendToken, token ∈ n.sendToken ∨ ∃ op reply, e = .call op token reply) ∧
      (m.state = .waiting → m = n ∨ m = { n with itemId := none }) := by
  cases h with
  | same => exact ⟨fun _ => .inl, fun _ => .inl, fun _ => .inl rfl⟩
  | orphaned => exact ⟨fun _ => .inl, fun _ => .inl, fun _ => .inr rfl⟩
  | call moved =>
      cases moved with
      | same => exact ⟨fun _ => .inl, fun _ => .inl, fun _ => .inl rfl⟩
      | bound waits => exact ⟨fun _ => .inl, fun _ => .inl, fun h => by cases h⟩
      | quarantined expired => exact ⟨fun _ => .inl, fun _ => .inl, fun h => by cases h⟩
      | inactivated presend => exact ⟨fun _ => .inl, fun _ => .inl, fun h => by cases h⟩
      | claimed claimable =>
          refine ⟨fun token ht => .inr ?_, fun _ => .inl, fun h => by cases h⟩
          obtain rfl := Option.some.inj ht
          exact ⟨_, _, rfl⟩
      | begun held =>
          refine ⟨fun _ => .inl, fun token ht => .inr ?_, fun h => by cases h⟩
          obtain rfl := Option.some.inj ht
          exact ⟨_, _, rfl⟩
      | cancelled held =>
          exact ⟨fun _ ht => (by cases ht), fun _ => .inl, fun h => by cases h⟩
      | retried held => exact ⟨fun _ ht => (by cases ht), fun _ => .inl, fun h => by cases h⟩
      | recorded sent =>
          rename_i outcome _
          cases outcome <;>
            exact ⟨fun _ ht => (by cases ht), fun _ => .inl, fun h => by cases h⟩

theorem OutboxOk.step (hs : OutboxOk s) (h : OutboxStep s e t) : OutboxOk t := by
  have hlast : s.db.lastSequence ≤ t.db.lastSequence := by
    rcases h.rows with ⟨_, -, -, hl⟩ | ⟨_, _, _, _, -, -, -, hl⟩ <;> omega
  have htoken : ∀ {token op reply}, e = .call op token reply → token ∈ t.issued := by
    rintro token op reply rfl
    exact h.fresh_issued.2
  have hnew : ∀ {op fresh reply m}, e = .call op fresh reply → Admitted s.db fresh m →
      m ∈ t.db.notifications.rows → m.sequence ≤ t.db.lastSequence := by
    intro op fresh reply m he hadm hm
    rcases h.rows with ⟨f, hrows, hmoves, hl⟩ | ⟨_, _, _, _, -, -, -, hl⟩
    · -- the rows are those of before, none of which has the next number
      rw [hrows, List.mem_map] at hm
      obtain ⟨n, hn, rfl⟩ := hm
      have hle := hs.sequence n hn
      rw [(hmoves n hn).keeps.2]
      omega
    · rw [hadm.sequence, hl]
  exact {
    id := fun m hm => by
      rcases h.backward hm with ⟨n, hn, hmoves⟩ | ⟨_, _, _, he, hadm⟩
      · exact hmoves.keeps.1 ▸ h.issued_subset (hs.id n hn)
      · exact hadm.id ▸ htoken he
    sequence := fun m hm => by
      rcases h.backward hm with ⟨n, hn, hmoves⟩ | ⟨_, _, _, he, hadm⟩
      · exact hmoves.keeps.2 ▸ (hs.sequence n hn).trans hlast
      · exact hnew he hadm hm
    lease := fun m hm token ht => by
      rcases h.backward hm with ⟨n, hn, hmoves⟩ | ⟨_, _, _, he, hadm⟩
      · rcases hmoves.tokens.1 token ht with hold | ⟨_, _, he⟩
        · exact h.issued_subset (hs.lease n hn token hold)
        · exact htoken he
      · rw [hadm.leaseToken] at ht
        cases ht
    send := fun m hm token ht => by
      rcases h.backward hm with ⟨n, hn, hmoves⟩ | ⟨_, _, _, he, hadm⟩
      · rcases hmoves.tokens.2.1 token ht with hold | ⟨_, _, he⟩
        · exact h.issued_subset (hs.send n hn token hold)
        · exact htoken he
      · rw [hadm.sendToken] at ht
        cases ht
    waiting := fun m hm hw => by
      rcases h.backward hm with ⟨n, hn, hmoves⟩ | ⟨_, _, _, he, hadm⟩
      · rcases hmoves.tokens.2.2 hw with rfl | rfl
        · exact hs.waiting m hn hw
        · exact hs.waiting n hn hw
      · exact hadm.sendToken }

theorem OutboxOk.of_empty (h : s.db.notifications.rows = []) : OutboxOk s := by
  constructor <;> simp [h]

end YoinkCore.Inbox
