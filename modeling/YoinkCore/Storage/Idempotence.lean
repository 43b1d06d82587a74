import YoinkCore.Storage.CacheIdentity
import YoinkCore.Storage.Replay

/-!
# Idempotent admission

A key names one operation of an actor for good. An admission under a key that is there
answers with that operation or refuses, and writes nothing; one under a new key writes
all of what `Created` lists, or nothing.
-/

namespace YoinkCore.Storage

open Lib Domain

section

variable [Platform]

/-! ## An existing key -/

/-- The answer that follows the comparison with what is there. -/
def answered (id : Uuid) (same : Bool) : Except StoreError Admission :=
  if same then .ok ⟨id, false⟩ else .error .conflict

/-- The answer to an admission under the key of a row. -/
def existingReply (db : Db) (request : DownloadRequest) (key : String)
    (policy : AdmissionPolicy) (preserve : Bool) (telegram : Option TelegramMediaAdmission)
    (row : OperationRow) : Except StoreError Admission := do
  let _ ← checkAdmission request key policy
  let current ← Codec.decode row.request
  sameIntent db (request.withForceNsfw false) current key preserve telegram >>=
    answered row.id

variable {key : String} {row : OperationRow} {s t : System} {id : Uuid} {db : Db}

variable {telegram : Option TelegramMediaAdmission} {request : DownloadRequest}
  {policy : AdmissionPolicy} {es : List Event} {e : Event}

/-- An existing key is answered without a write. -/
theorem admitInner_existing {config : StoreConfig} {preserve : Bool} {nowOverride : Option Int}
    {clock : Clock} (h : admitExisting db request.actorId.toNat key = some row) :
    admitInner config request key policy preserve nowOverride telegram clock id db =
      (existingReply db request key policy preserve telegram row, db) := by
  have h' : admitExisting db (request.withForceNsfw false).actorId.toNat key = some row := h
  unfold admitInner existingReply
  cases checkAdmission request key policy with
  | error e => rfl
  | ok cacheKey =>
      simp only [Tx.auto_eq]
      rw [admitBody, Tx.bind_of_ok (Tx.get_eq_ok.mpr ⟨rfl, rfl⟩)]
      simp only [h']
      cases hd : Codec.decode row.request with
      | error e => rfl
      | ok current =>
          rw [Tx.bind_of_ok (liftExcept_eq_ok.mpr ⟨rfl, rfl⟩)]
          show _ = (sameIntent db (request.withForceNsfw false) current key preserve telegram
            >>= answered row.id, db)
          cases hs : sameIntent db (request.withForceNsfw false) current key preserve
              telegram with
          | error e => rfl
          | ok same =>
              rw [Tx.bind_of_ok (liftExcept_eq_ok.mpr ⟨rfl, rfl⟩)]
              cases same <;> rfl

/-- What is stored under a key can be read back. -/
def Readable (db : Db) (actor : Nat) (key : String) (row : OperationRow) : Prop :=
  (∃ current, Codec.decode row.request = .ok current) ∧
    ∀ intent, telegramMediaIntentRead db actor key = some intent →
      ∃ original, Codec.decode intent = .ok original

/-- The comparison of a repeated request with the one under its key goes through. -/
def Comparable (request current : DownloadRequest) (preserve : Bool)
    (telegram : Option TelegramMediaAdmission) : Prop :=
  preserve = true → telegram = none →
    intentFails request = false ∧ intentFails current = false

theorem sameIntent_total {current : DownloadRequest} {preserve : Bool}
    (hi : ∀ intent, telegramMediaIntentRead db request.actorId.toNat key = some intent →
      ∃ original, Codec.decode intent = .ok original)
    (hc : Comparable request current preserve telegram) :
    (∃ same, sameIntent db request current key preserve telegram = .ok same) ∨
      sameIntent db request current key preserve telegram = .error .conflict := by
  cases telegram with
  | some context =>
      cases hr : telegramMediaIntentRead db request.actorId.toNat key with
      | none => exact .inr (by simp only [sameIntent, hr])
      | some intent =>
          obtain ⟨original, ho⟩ := hi intent hr
          exact .inl ⟨original == context.original, by simp only [sameIntent, hr, ho]; rfl⟩
  | none =>
      cases preserve with
      | true =>
          obtain ⟨hr, hcur⟩ := hc rfl rfl
          obtain ⟨same, hs⟩ := sameRequestIntent_total hcur hr
          exact .inl ⟨same, hs⟩
      | false => exact .inl ⟨_, rfl⟩

/-- A repeated admission whose arguments pass the checks is answered with the operation
or with a conflict. -/
theorem existingReply_cases {preserve : Bool} {cacheKey : Option String}
    (hck : checkAdmission request key policy = .ok cacheKey)
    (hr : Readable db request.actorId.toNat key row)
    (hc : ∀ current, Codec.decode row.request = .ok current →
      Comparable request current preserve telegram) :
    existingReply db request key policy preserve telegram row = .ok ⟨row.id, false⟩ ∨
      existingReply db request key policy preserve telegram row = .error .conflict := by
  obtain ⟨⟨current, hd⟩, hi⟩ := hr
  have hc' : Comparable (request.withForceNsfw false) current preserve telegram := hc current hd
  unfold existingReply
  rw [hck, hd]
  show (sameIntent db (request.withForceNsfw false) current key preserve telegram >>=
      answered row.id) = _ ∨
    (sameIntent db (request.withForceNsfw false) current key preserve telegram >>=
      answered row.id) = _
  have hi' : ∀ intent,
      telegramMediaIntentRead db (request.withForceNsfw false).actorId.toNat key = some intent →
        ∃ original, Codec.decode intent = .ok original := hi
  rcases sameIntent_total hi' hc' with ⟨same, hs⟩ | hs
  · rw [hs]
    cases same
    · exact .inr rfl
    · exact .inl rfl
  · rw [hs]
    exact .inr rfl

/-! ## Over runs -/

/-- The operation an event created under a key. -/
def Event.creation (actor : Nat) (key : String) : Event → Option Uuid
  | .call (.admitRequest _ request k _ _ _ _) _ _ (.ok (.admission ⟨id, true⟩)) =>
      if request.actorId.toNat = actor ∧ k = key then some id else none
  | _ => none

theorem admitExisting_eq_some {actor : Nat} :
    admitExisting db actor key = some row ↔
      row ∈ db.operations.rows ∧ row.actorId = actor ∧ row.idempotencyKey = key := by
  rw [admitExisting, Table.find_eq_some operationSchema_key, Prod.mk.injEq]

/-- A key that is there keeps naming its operation. -/
theorem existing_of_run (h : Run Step s es t) {actor : Nat}
    (hrow : admitExisting s.db actor key = some row) :
    ∃ row', admitExisting t.db actor key = some row' ∧ row'.id = row.id := by
  obtain ⟨hmem, ha, hk⟩ := admitExisting_eq_some.mp hrow
  obtain ⟨row', hr, hs⟩ := identity_of_run h (Db.operation_eq_some.mpr ⟨hmem, rfl⟩)
  obtain ⟨hmem', hid⟩ := Db.operation_eq_some.mp hr
  exact ⟨row', admitExisting_eq_some.mpr ⟨hmem', hs.actorId.trans ha,
    hs.idempotencyKey.trans hk⟩, hid⟩

/-- A creation takes a key that was not there, and leaves it there. -/
theorem Step.creation (h : Step s e t) {actor : Nat} (hc : e.creation actor key = some id) :
    admitExisting s.db actor key = none ∧
      ∃ row, admitExisting t.db actor key = some row ∧ row.id = id := by
  unfold Event.creation at hc
  split at hc
  swap
  · cases hc
  rename_i config request k policy preserve now telegram clock fresh id'
  split at hc <;> cases hc
  rename_i hk
  obtain ⟨rfl, rfl⟩ := hk
  cases h with
  | call later result elapsed =>
      obtain ⟨a, ha, hae⟩ := Method.reply_eq_ok result
      cases hae
      rcases admitInner_cases config request k policy preserve now telegram clock fresh s.db
        with ⟨e, h⟩ | ⟨row, -, h⟩ | ⟨row, cacheKey, db', hnone, h, -, hrow⟩
      · rw [h] at ha
        cases ha
      · rw [h] at ha
        cases ha
      rw [h] at ha
      cases ha
      obtain ⟨_, _, _, _, hadm⟩ := hrow.settings
      refine ⟨hnone, row, admitExisting_eq_some.mpr ⟨?_, ?_, ?_⟩, ?_⟩
      · simp [hrow.operations]
      · rw [hadm]
        rfl
      · rw [hadm]
        rfl
      · rw [hadm]
        rfl

/-- Once created, an operation is found under its key. -/
theorem existing_of_creation (h : Run Step s es t) (he : e ∈ es) {actor : Nat}
    (hc : e.creation actor key = some id) :
    ∃ row, admitExisting t.db actor key = some row ∧ row.id = id := by
  obtain ⟨es₁, es₂, rfl⟩ := List.append_of_mem he
  obtain ⟨u, v, -, huv, hv⟩ := h.split_at
  obtain ⟨-, row, hrow, rfl⟩ := huv.creation hc
  exact existing_of_run hv hrow

/-- A key is created once. -/
theorem creation_unique {es₁ es₂ : List Event} (h : Run Step s (es₁ ++ e :: es₂) t) {actor : Nat}
    (hc : e.creation actor key = some id) : ∀ e' ∈ es₂, e'.creation actor key = none := by
  intro e' he'
  obtain ⟨u, v, -, huv, hv⟩ := h.split_at
  obtain ⟨es₃, es₄, rfl⟩ := List.append_of_mem he'
  obtain ⟨w, x, hvw, hwx, -⟩ := hv.split_at
  obtain ⟨-, row, hrow, -⟩ := huv.creation hc
  obtain ⟨row', hrow', -⟩ := existing_of_run hvw hrow
  cases hc' : e'.creation actor key with
  | none => rfl
  | some id' =>
      obtain ⟨hnone, -⟩ := hwx.creation hc'
      rw [hnone] at hrow'
      cases hrow'

omit [Platform] in
theorem nsfwMarks_actor_le (T : Table nsfwMarkSchema) (actor : Nat) :
    T.rows.countP (fun r => decide (r.actorId = actor)) ≤ 1 := by
  have hk : Table.Keyed nsfwMarkSchema NsfwMarkRow.actorId := by
    intro a b h
    simp [nsfwMarkSchema, h]
  rw [Table.countP_of_key hk (k := actor) fun r hr => by simpa using hr]
  split <;> omega

/-- **Idempotent admission.** Throughout a run a key of an actor names at most one
operation, which was created once and stays. An admission under a key that is there
writes nothing; with acceptable arguments, readable stored documents and a comparison
that goes through it returns the operation or reports a conflict. An admission under a
new key fails without a write, or creates one operation with one charge of each counter
of an actor who is not the owner, and takes at most one mark. -/
theorem idempotent_admission {s t : System} {es : List Event} (h : Run Step s es t) :
    (∀ o ∈ t.db.operations.rows, ∀ o' ∈ t.db.operations.rows, o.actorId = o'.actorId →
      o.idempotencyKey = o'.idempotencyKey → o = o') ∧
    (∀ es₁ e es₂ actor key id, es = es₁ ++ e :: es₂ → e.creation actor key = some id →
      (∀ e' ∈ es₂, e'.creation actor key = none) ∧
        ∃ row, admitExisting t.db actor key = some row ∧ row.id = id) ∧
    ∀ config request key policy preserve nowOverride telegram clock id,
      (∀ row, admitExisting t.db request.actorId.toNat key = some row →
        ∃ reply, admitInner config request key policy preserve nowOverride telegram clock id
            t.db = (reply, t.db) ∧
          ∀ cacheKey, checkAdmission request key policy = .ok cacheKey →
            Readable t.db request.actorId.toNat key row →
            (∀ current, Codec.decode row.request = .ok current →
              Comparable request current preserve telegram) →
            reply = .ok ⟨row.id, false⟩ ∨ reply = .error .conflict) ∧
      (admitExisting t.db request.actorId.toNat key = none →
        (∃ e, admitInner config request key policy preserve nowOverride telegram clock id
            t.db = (.error e, t.db)) ∨
          ∃ row cacheKey db', admitInner config request key policy preserve nowOverride
              telegram clock id t.db = (.ok ⟨id, true⟩, db') ∧
            Created config (request.withForceNsfw false) key policy cacheKey nowOverride
              clock id t.db row db' ∧
            (t.db.nsfwMarks.rows.countP fun r => decide (r.actorId = request.actorId.toNat))
              ≤ 1) := by
  refine ⟨?_, ?_, ?_⟩
  · intro o ho o' ho' ha hk
    have hf := admitExisting_eq_some.mpr ⟨ho, ha, hk⟩
    exact Option.some.inj (hf.symm.trans (admitExisting_eq_some.mpr ⟨ho', rfl, rfl⟩))
  · rintro es₁ e es₂ actor key id rfl hc
    exact ⟨creation_unique h hc, existing_of_creation h (by simp) hc⟩
  · intro config request key policy preserve nowOverride telegram clock id
    constructor
    · intro row hrow
      exact ⟨_, admitInner_existing hrow, fun cacheKey hck hr hc =>
        existingReply_cases hck hr hc⟩
    · intro hnone
      rcases admitInner_cases config request key policy preserve nowOverride telegram clock
        id t.db with he | ⟨row, hrow, -⟩ | ⟨row, cacheKey, db', -, h, -, hrow⟩
      · exact .inl he
      · rw [hnone] at hrow
        cases hrow
      · exact .inr ⟨row, cacheKey, db', h, hrow, nsfwMarks_actor_le _ _⟩

end

/-! ## Refused repetitions -/

section

open Scenario

attribute [local instance] Scenario.platform

/-- The admission of a request creates its operation, and the key of it is answered
again. -/
theorem idempotent_admission_request :
    ∃ row, admitExisting (play .initial [admitRequest request]).2.db 7 "key" = some row ∧
      row.id = operation ∧
      ∃ reply, admitInner {} request "key" policy true none none (.still 2) (uuid 2)
        (play .initial [admitRequest request]).2.db =
          (reply, (play .initial [admitRequest request]).2.db) := by
  have hrun : Run Step .initial [.call (admitRequest request).call (.still 1) operation
      (.ok (.admission ⟨operation, true⟩))] (play .initial [admitRequest request]).2 :=
    .single (play_admitted (s := .initial) (by decide) (by decide +kernel))
  obtain ⟨-, hcreated, hcall⟩ := idempotent_admission hrun
  obtain ⟨-, row, hrow, hid⟩ := hcreated [] _ [] 7 "key" operation rfl (by decide)
  obtain ⟨reply, hreply, -⟩ := (hcall {} request "key" policy true none none (.still 2)
    (uuid 2)).1 row hrow
  exact ⟨row, hrow, hid, reply, hreply⟩

/-- Overrides with a height that cannot be read back. -/
def heightless : DownloadRequest :=
  request.withPreferenceOverrides { maxHeight := some (some 0) }

/-- An existing key is refused for its arguments, or for what is stored under it. -/
theorem existing_key_refused :
    (¬ ∀ config request key policy preserve nowOverride telegram clock id,
      ∀ row, admitExisting (play .initial [admitRequest Scenario.request]).2.db
        request.actorId.toNat key = some row →
        (admitInner config request key policy preserve nowOverride telegram clock id
          (play .initial [admitRequest Scenario.request]).2.db).1 = .ok ⟨row.id, false⟩ ∨
        (admitInner config request key policy preserve nowOverride telegram clock id
          (play .initial [admitRequest Scenario.request]).2.db).1 = .error .conflict) ∧
      (admitInner {} heightless "key" policy true none none (.still 2) (uuid 2)
        (play .initial [admitRequest heightless]).2.db).1 = .error .invalidStoredData := by
  constructor
  · intro h
    obtain ⟨row, hrow, -⟩ := (Option.any_eq_true _ _).mp (by decide +kernel :
      (admitExisting (play .initial [admitRequest request]).2.db 7 "key").any (fun _ => true) =
        true)
    have hrefused : (admitInner {} request "key" { policy with maxAttempts := 0 } true none
        none (.still 2) (uuid 2) (play .initial [admitRequest request]).2.db).1 =
        .error .invalidInput := by decide +kernel
    rcases h {} request "key" { policy with maxAttempts := 0 } true none none (.still 2)
      (uuid 2) row hrow with hr | hr
    · rw [hrefused] at hr
      cases hr
    · rw [hrefused] at hr
      cases hr
  · decide +kernel

end

end YoinkCore.Storage
