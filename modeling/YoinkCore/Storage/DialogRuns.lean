import YoinkCore.Lib.Run
import YoinkCore.Storage.QualityDialog

/-!
# Runs of the dialogs

Callbacks of any number of actors come in any order, late or twice. A run is a sequence
of dialog operations with arbitrary arguments; between them other parts of the program
may change everything but the tables of the dialogs. Identifiers are never drawn twice.
-/

namespace YoinkCore.Storage

open Lib Domain

variable [Platform]

/-! ## Operations as data -/

inductive DialogOp where
  | cutBegin (actor : UInt64) (target : DeliveryTarget) (message : Int32) (url : String)
      (start : Option Float)
  | cutInput (actor : UInt64) (target : DeliveryTarget) (message : Int32) (value : Float)
      (numeric : Bool)
  | cutEdit (actor : UInt64) (target : DeliveryTarget) (id : Uuid) (revision : Int)
  | cutAdd (actor : UInt64) (target : DeliveryTarget) (id : Uuid) (revision : Int)
  | cutEditSegment (actor : UInt64) (target : DeliveryTarget) (id : Uuid) (revision : Int)
      (index : Nat)
  | cutDeleteSegment (actor : UInt64) (target : DeliveryTarget) (id : Uuid) (revision : Int)
      (index : Nat)
  | cutBack (actor : UInt64) (target : DeliveryTarget) (id : Uuid) (revision : Int)
  | cutCancel (actor : UInt64) (target : DeliveryTarget) (id : Uuid) (revision : Int)
      (message : Option Int32)
  | cutClaim (actor : UInt64) (target : DeliveryTarget) (id : Uuid) (revision : Int)
  | cutQuality (actor : UInt64) (target : DeliveryTarget) (id : Uuid) (revision : Int)
  | cutChoose (actor : UInt64) (target : DeliveryTarget) (id : Uuid) (revision : Int)
      (choice : QualityChoice)
  | cutSubmitted (actor : UInt64) (target : DeliveryTarget) (id : Uuid) (revision : Int)
      (operationId : Uuid)
  | qualityBegin (actor : UInt64) (target : DeliveryTarget) (message : Int32)
      (request : DownloadRequest) (original : Option DownloadRequest)
  | qualityClaim (actor : UInt64) (target : DeliveryTarget) (id : Uuid) (revision : Int)
      (choice : QualityChoice)
  | qualityCancel (actor : UInt64) (target : DeliveryTarget) (id : Uuid) (revision : Int)
  | qualitySubmitted (actor : UInt64) (target : DeliveryTarget) (id : Uuid) (revision : Int)
      (operation : Uuid)
  | qualityCut (actor : UInt64) (target : DeliveryTarget) (id : Uuid) (revision : Int)

inductive DialogReply where
  | noCut
  | cut (s : CutSession)
  | quality (s : QualitySession)

/-- Rename the result of an operation. -/
def replying {α : Type} (f : α → DialogReply)
    (x : Except StoreError α × DialogDb) : Except StoreError DialogReply × DialogDb :=
  (x.1.map f, x.2)

/-- The reply of an operation that finds no session. -/
def DialogReply.ofCut : Option CutSession → DialogReply
  | none => .noCut
  | some s => .cut s

namespace DialogOp

/-- Perform an operation. The fresh identifier is the session of one that begins. -/
def run (op : DialogOp) (context : DialogContext) (fresh : Uuid) (db : DialogDb) :
    Except StoreError DialogReply × DialogDb :=
  match op with
  | .cutBegin actor target message url start =>
      replying .cut (Storage.cutBegin context actor target message url start fresh db)
  | .cutInput actor target message value numeric =>
      replying .ofCut (Storage.cutInput context actor target message value numeric db)
  | .cutEdit actor target id revision =>
      replying .cut (Storage.cutEdit context actor target id revision db)
  | .cutAdd actor target id revision =>
      replying .cut (Storage.cutAdd context actor target id revision db)
  | .cutEditSegment actor target id revision index =>
      replying .cut (Storage.cutEditSegment context actor target id revision index db)
  | .cutDeleteSegment actor target id revision index =>
      replying .cut (Storage.cutDeleteSegment context actor target id revision index db)
  | .cutBack actor target id revision =>
      replying .cut (Storage.cutBack context actor target id revision db)
  | .cutCancel actor target id revision message =>
      replying .cut (Storage.cutCancel context actor target id revision message db)
  | .cutClaim actor target id revision =>
      replying .cut (Storage.cutClaim context actor target id revision db)
  | .cutQuality actor target id revision =>
      replying .cut (Storage.cutQuality context actor target id revision db)
  | .cutChoose actor target id revision choice =>
      replying .cut (Storage.cutChoose context actor target id revision choice db)
  | .cutSubmitted actor target id revision operationId =>
      replying .cut (Storage.cutSubmitted context actor target id revision operationId db)
  | .qualityBegin actor target message request original =>
      replying .quality
        (qualityBeginMedia context actor target message request original fresh db)
  | .qualityClaim actor target id revision choice =>
      replying .quality (Storage.qualityClaim context actor target id revision choice db)
  | .qualityCancel actor target id revision =>
      replying .quality (Storage.qualityCancel context actor target id revision db)
  | .qualitySubmitted actor target id revision operation =>
      replying .quality (Storage.qualitySubmitted context actor target id revision operation db)
  | .qualityCut actor target id revision =>
      replying .cut (Storage.qualityCut context actor target id revision fresh db)

end DialogOp

/-! ## What a call does -/

/-- The changes of a cut session. -/
inductive CutChange (s s' : CutSession) : Prop
  | input {message : Int32} {value : Float} {numeric : Bool} (time : validTime value = true)
      (h : inputCut message value numeric s = .ok (some s'))
  | edit (h : editCut s = .ok (some s'))
  | segment {index : Option Nat} {append : Bool} (place : append = true → index = none)
      (h : beginSegment index append s = .ok (some s'))
  | delete {index : Nat} (h : deleteSegment index s = .ok (some s'))
  | back (h : backCut s = .ok (some s'))
  | cancel {message : Option Int32} (h : cancelCut message s = .ok (some s'))
  | claim (h : claimCut s = .ok (some s'))
  | quality (h : qualityStageCut s = .ok (some s'))
  | choose {revision : Int} {choice : QualityChoice} (listed : checkCutChoice choice = .ok ())
      (h : chooseCut revision choice s = .ok (some s'))
  | submit {operationId : Uuid} (h : submitCut operationId s = .ok (some s'))

/-- The changes of a quality session, apart from the hand-off. -/
inductive QualityChange (s s' : QualitySession) : Prop
  | claim {revision : Int} {choice : QualityChoice} (listed : choice.listed = true)
      (h : claimQuality revision choice s = .ok (some s'))
  | cancel {revision : Int} (h : cancelQuality revision s = .ok (some s'))
  | submit {revision : Int} {operation : Uuid}
      (h : submitQuality revision operation s = .ok (some s'))

section

variable {revision : Int} {choice : QualityChoice} {s s' : QualitySession}

theorem claimQuality_eq_ok (h : claimQuality revision choice s = .ok (some s')) :
    s.stage = .choosing ∧ s' = { s with
      stage := .confirming, revision := s.revision + 1, selected := some choice } := by
  unfold claimQuality at h
  split at h
  · cases h
  simp only [Tx.result_bind_eq_ok, expect_eq_ok, beq_iff_eq] at h
  obtain ⟨_, hs, h⟩ := h
  cases h
  exact ⟨hs, rfl⟩

theorem cancelQuality_eq_ok (h : cancelQuality revision s = .ok (some s')) :
    s.stage = .choosing ∧
      s' = { s with stage := .cancelled, revision := s.revision + 1 } := by
  unfold cancelQuality at h
  split at h
  · cases h
  simp only [Tx.result_bind_eq_ok, expect_eq_ok, beq_iff_eq] at h
  obtain ⟨_, hs, h⟩ := h
  cases h
  exact ⟨hs, rfl⟩

theorem submitQuality_eq_ok {operation : Uuid}
    (h : submitQuality revision operation s = .ok (some s')) :
    s.stage = .confirming ∧ s' = { s with
      stage := .submitted, revision := s.revision + 1, operationId := some operation } := by
  unfold submitQuality at h
  split at h
  · cases h
  simp only [Tx.result_bind_eq_ok, expect_eq_ok, beq_iff_eq, Bool.and_eq_true] at h
  obtain ⟨_, ⟨hs, -⟩, h⟩ := h
  cases h
  exact ⟨hs, rfl⟩

/-- What was asked for, and where, stays. -/
theorem QualityChange.keeps (c : QualityChange s s') : s'.id = s.id ∧ s'.target = s.target ∧
    s'.request = s.request ∧ s'.originMessageId = s.originMessageId := by
  cases c with
  | claim _ h =>
      obtain ⟨-, rfl⟩ := claimQuality_eq_ok h
      exact ⟨rfl, rfl, rfl, rfl⟩
  | cancel h =>
      obtain ⟨-, rfl⟩ := cancelQuality_eq_ok h
      exact ⟨rfl, rfl, rfl, rfl⟩
  | submit h =>
      obtain ⟨-, rfl⟩ := submitQuality_eq_ok h
      exact ⟨rfl, rfl, rfl, rfl⟩

end

/-- What a call that succeeds does to the database. -/
inductive DialogEffect (db : DialogDb) (fresh : Uuid) :
    DialogOp → DialogReply → DialogDb → Prop
  | read {op : DialogOp} {reply : DialogReply} : DialogEffect db fresh op reply db
  | cutBegun {actor : UInt64} {target : DeliveryTarget} {message : Int32} {url : String}
      {start : Option Float} {current : Option CutSession} {s : CutSession} {db' : DialogDb}
      (checks : checkCutBegin actor target message url start = .ok ())
      (found : currentCut db actor target = .ok current)
      (begun : beginCut actor target message url start fresh current = .ok (s, some s))
      (saved : cutPut s db = .ok ((), db')) :
      DialogEffect db fresh (.cutBegin actor target message url start) (.cut s) db'
  | cutChanged {op : DialogOp} {actor : UInt64} {target : DeliveryTarget}
      {s s' : CutSession} {db' : DialogDb}
      (found : currentCut db actor target = .ok (some s)) (change : CutChange s s')
      (saved : cutPut s' db = .ok ((), db')) : DialogEffect db fresh op (.cut s') db'
  | qualityBegun {actor : UInt64} {target : DeliveryTarget} {message : Int32}
      {request : DownloadRequest} {original : Option DownloadRequest}
      {current : Option QualitySession} {s : QualitySession} {db' : DialogDb}
      (checks : checkQualityBegin actor target message request = .ok ())
      (found : currentQualitySession db actor target = .ok current)
      (begun : beginQuality target message request fresh current = .ok (s, some s))
      (saved : putWithOriginal actor original s db = .ok ((), db')) :
      DialogEffect db fresh (.qualityBegin actor target message request original)
        (.quality s) db'
  | qualityChanged {op : DialogOp} {actor : UInt64} {target : DeliveryTarget}
      {s s' : QualitySession} {db' : DialogDb}
      (found : currentQualitySession db actor target = .ok (some s))
      (change : QualityChange s s') (saved : qualityPut actor s' db = .ok ((), db')) :
      DialogEffect db fresh op (.quality s') db'
  | handedOff {actor : UInt64} {target : DeliveryTarget} {id : Uuid} {revision : Int}
      {quality quality' : QualitySession} {cut : CutSession} {db' : DialogDb}
      (found : currentQualitySession db actor target = .ok (some quality))
      (handed : handOff db actor target revision fresh quality = .ok (cut, quality'))
      (saved : putHandoff actor (cut, quality') db = .ok ((), db')) :
      DialogEffect db fresh (.qualityCut actor target id revision) (.cut cut) db'

/-! ## Inverting a call -/

variable {target : DeliveryTarget} {checks : Except StoreError Unit} {db db' : DialogDb}
  {context : DialogContext} {actor : UInt64} {reply : DialogReply} {s : CutSession}
  {op : DialogOp} {fresh id : Uuid} {revision : Int}

theorem replying_eq_ok {α : Type} {f : α → DialogReply} {x : Except StoreError α × DialogDb}
    (h : replying f x = (.ok reply, db')) : ∃ a, x = (.ok a, db') ∧ reply = f a := by
  obtain ⟨r, db''⟩ := x
  cases r with
  | error e => cases h
  | ok a =>
      cases h
      exact ⟨a, rfl, rfl⟩

theorem checkedAuto_eq_ok {α : Type} {body : DialogStmt α} {a : α} :
    checkedAuto checks body db = (.ok a, db') ↔
      checks = .ok () ∧ body db = .ok (a, db') := by
  unfold checkedAuto
  cases checks with
  | error e => simp
  | ok u => simp [Tx.auto_eq_ok]

theorem changed_eq_ok {change : CutSession → Except StoreError (Option CutSession)}
    {reply : CutSession} {saved : Option CutSession} :
    changed change s = .ok (reply, saved) ↔
      change s = .ok saved ∧ reply = saved.getD s := by
  unfold changed
  rw [Tx.result_map_eq_ok]
  constructor
  · rintro ⟨x, hx, he⟩
    cases he
    exact ⟨hx, rfl⟩
  · rintro ⟨hx, rfl⟩
    exact ⟨saved, hx, rfl⟩

omit [Platform] in
/-- The row that is found, if it passes the check. -/
theorem checked_eq_ok {σ : Type} {check : Except StoreError Unit}
    {current : Except StoreError (Option σ)} {e e' : StoreError} {test : σ → Bool} {s : σ}
    {f : Option σ → Except StoreError σ} (hnone : f none = .error e)
    (hsome : ∀ c, f (some c) = do
      expect e' (test c)
      return c) :
    (do
      check
      f (← current)) = .ok s ↔ check = .ok () ∧ current = .ok (some s) ∧ test s = true := by
  simp only [Tx.result_bind_eq_ok]
  constructor
  · rintro ⟨_, hv, current, hc, h⟩
    cases current with
    | none =>
        rw [hnone] at h
        cases h
    | some c =>
        simp only [hsome, Tx.result_bind_eq_ok, expect_eq_ok] at h
        obtain ⟨_, he, h⟩ := h
        cases h
        exact ⟨hv, hc, he⟩
  · rintro ⟨hv, hc, he⟩
    refine ⟨(), hv, some s, hc, ?_⟩
    simp only [hsome, Tx.result_bind_eq_ok, expect_eq_ok]
    exact ⟨(), he, rfl⟩

/-- A callback names the current session of its scope. -/
theorem require_eq_ok :
    require db actor target id revision = .ok s ↔
      validateScope actor target = .ok () ∧ currentCut db actor target = .ok (some s) ∧
        s.actorId = actor ∧ s.target.botId = target.botId ∧
        s.target.chatId = target.chatId ∧ s.id = id ∧ s.revision = revision := by
  unfold require
  refine Iff.trans (checked_eq_ok rfl fun _ => rfl) ?_
  simp only [decide_eq_true_eq]

theorem requireChoiceReplay_eq_ok :
    requireChoiceReplay db actor target id revision = .ok s ↔
      validateScope actor target = .ok () ∧ currentCut db actor target = .ok (some s) ∧
        s.id = id ∧ (s.revision = revision ∨
          (s.stage = .confirming ∨ s.stage = .submitted) ∧ revision = s.revision - 1) := by
  unfold requireChoiceReplay
  refine Iff.trans (checked_eq_ok rfl fun _ => rfl) ?_
  simp only [Bool.and_eq_true, Bool.or_eq_true, decide_eq_true_eq, beq_iff_eq]

theorem qualityGet_eq_ok {s : QualitySession} :
    qualityGet db actor target id revision = .ok s ↔
      validateRevision actor target revision = .ok () ∧
        currentQualitySession db actor target = .ok (some s) ∧ s.id = id ∧
        (s.revision = revision ∨
          (s.stage = .confirming ∨ s.stage = .cancelled) ∧ s.revision - 1 = revision) := by
  unfold qualityGet
  refine Iff.trans (checked_eq_ok rfl fun _ => rfl) ?_
  simp only [Bool.and_eq_true, Bool.or_eq_true, decide_eq_true_eq, beq_iff_eq]

/-- **Callbacks** of a cut that go through. -/
theorem cutCallback_eq_ok {change : CutSession → Except StoreError (Option CutSession)}
    {reply : CutSession} :
    cutCallback context actor target id revision change db = (.ok reply, db') ↔
      dialogAuthorized context actor db = true ∧
        ∃ s saved, require db actor target id revision = .ok s ∧ change s = .ok saved ∧
          reply = saved.getD s ∧ saveAll cutPut saved db = .ok ((), db') := by
  unfold cutCallback
  rw [Tx.auto_eq_ok, dialogTransaction_eq_ok]
  simp only [Tx.result_bind_eq_ok, changed_eq_ok]
  constructor
  · rintro ⟨ha, saved, ⟨s, hr, hc, he⟩, hs⟩
    exact ⟨ha, s, saved, hr, hc, he, hs⟩
  · rintro ⟨ha, s, saved, hr, hc, he, hs⟩
    exact ⟨ha, saved, ⟨s, hr, hc, he⟩, hs⟩

/-- **Callbacks** of a quality dialog that go through. -/
theorem qualityCallback_eq_ok
    {change : QualitySession → Except StoreError (Option QualitySession)} {reply : QualitySession} :
    qualityCallback context actor target id revision checks change db = (.ok reply, db') ↔
      checks = .ok () ∧ dialogAuthorized context actor db = true ∧
        ∃ s saved, qualityGet db actor target id revision = .ok s ∧ change s = .ok saved ∧
          reply = saved.getD s ∧ saveAll (qualityPut actor) saved db = .ok ((), db') := by
  unfold qualityCallback
  rw [checkedAuto_eq_ok, dialogTransaction_eq_ok]
  simp only [Tx.result_bind_eq_ok, Tx.result_map_eq_ok, Prod.mk.injEq]
  constructor
  · rintro ⟨⟨_, hv, hc⟩, ha, saved, ⟨s, hg, saved', hs, he, rfl⟩, hp⟩
    exact ⟨hc, ha, s, saved', hg, hs, he.symm, hp⟩
  · rintro ⟨hc, ha, s, saved, hg, hs, rfl, hp⟩
    exact ⟨⟨(), (qualityGet_eq_ok.mp hg).1, hc⟩, ha, saved, ⟨s, hg, saved, hs, rfl, rfl⟩, hp⟩

/-- A callback of a cut leaves the database alone or saves a change. -/
theorem cutCallback_effect {change : CutSession → Except StoreError (Option CutSession)}
    (hc : ∀ s s', change s = .ok (some s') → CutChange s s')
    (h : replying .cut (cutCallback context actor target id revision change db) =
      (.ok reply, db')) : DialogEffect db fresh op reply db' := by
  obtain ⟨s', hcall, rfl⟩ := replying_eq_ok h
  obtain ⟨-, s, saved, hr, hs, rfl, hp⟩ := cutCallback_eq_ok.mp hcall
  cases saved with
  | none =>
      obtain rfl : db = db' := by simpa [saveAll] using hp
      exact .read
  | some s' => exact .cutChanged (require_eq_ok.mp hr).2.1 (hc s s' hs) hp

/-- A callback of a quality dialog leaves the database alone or saves a change. -/
theorem qualityCallback_effect
    {change : QualitySession → Except StoreError (Option QualitySession)}
    (hc : checks = .ok () → ∀ s s', change s = .ok (some s') → QualityChange s s')
    (h : replying .quality
      (qualityCallback context actor target id revision checks change db) =
      (.ok reply, db')) : DialogEffect db fresh op reply db' := by
  obtain ⟨s', hcall, rfl⟩ := replying_eq_ok h
  obtain ⟨hcheck, -, s, saved, hg, hs, rfl, hp⟩ := qualityCallback_eq_ok.mp hcall
  cases saved with
  | none =>
      obtain rfl : db = db' := by simpa [saveAll] using hp
      exact .read
  | some s' => exact .qualityChanged (qualityGet_eq_ok.mp hg).2.1 (hc hcheck s s' hs) hp

omit [Platform] in
/-- A session that is made is saved. -/
theorem saved_of_begun {σ : Type} {x : Except StoreError DeliveryTarget} {f : DeliveryTarget → σ}
    {s : σ} {saved : Option σ} (h : (do
      let t ← x
      return (f t, some (f t)) : Except StoreError (σ × Option σ)) = .ok (s, saved)) :
    saved = some s := by
  obtain ⟨t, -, h⟩ := Tx.result_bind_eq_ok.mp h
  cases h
  rfl

/-- A new session is the reply and what is saved; any other reply saves nothing. -/
theorem beginCut_cases {message : Int32} {url : String} {start : Option Float}
    {current : Option CutSession} {saved : Option CutSession}
    (h : beginCut actor target message url start fresh current = .ok (s, saved)) :
    saved = none ∧ current = some s ∨ saved = some s := by
  unfold beginCut at h
  cases current with
  | none => exact .inr (saved_of_begun h)
  | some old =>
      dsimp only at h
      split at h
      · split at h
        · cases h
        · cases h
          exact .inl ⟨rfl, rfl⟩
      · split at h
        · cases h
        · exact .inr (saved_of_begun h)

theorem beginQuality_cases {message : Int32} {request : DownloadRequest}
    {current : Option QualitySession} {s : QualitySession} {saved : Option QualitySession}
    (h : beginQuality target message request fresh current = .ok (s, saved)) :
    saved = none ∧ current = some s ∨ saved = some s := by
  unfold beginQuality at h
  cases current with
  | none => exact .inr (saved_of_begun h)
  | some old =>
      dsimp only at h
      split at h
      · split at h
        · cases h
        · cases h
          exact .inl ⟨rfl, rfl⟩
      · split at h
        · cases h
        · exact .inr (saved_of_begun h)

/-- **Every call that succeeds** has one of the effects. -/
theorem DialogOp.run_effect (h : op.run context fresh db = (.ok reply, db')) :
    DialogEffect db fresh op reply db' := by
  cases op with
  | cutBegin actor target message url start =>
      obtain ⟨s, hcall, rfl⟩ := replying_eq_ok h
      obtain ⟨hc, htx⟩ := checkedAuto_eq_ok.mp hcall
      obtain ⟨-, saved, hp, hs⟩ := dialogTransaction_eq_ok.mp htx
      obtain ⟨current, hcur, hb⟩ := Tx.result_bind_eq_ok.mp hp
      rcases beginCut_cases hb with ⟨rfl, -⟩ | rfl
      · obtain rfl : db = db' := by simpa [saveAll] using hs
        exact .read
      · exact .cutBegun hc hcur hb hs
  | cutInput actor target message value numeric =>
      obtain ⟨s, hcall, rfl⟩ := replying_eq_ok h
      obtain ⟨hc, htx⟩ := checkedAuto_eq_ok.mp hcall
      obtain ⟨-, saved, hp, hs⟩ := dialogTransaction_eq_ok.mp htx
      obtain ⟨current, hcur, hp⟩ := Tx.result_bind_eq_ok.mp hp
      cases current with
      | none =>
          cases hp
          obtain rfl : db = db' := by simpa [saveAll] using hs
          exact .read
      | some c =>
          obtain ⟨⟨r, saved'⟩, hchanged, he⟩ := Tx.result_map_eq_ok.mp hp
          cases he
          obtain ⟨hi, rfl⟩ := changed_eq_ok.mp hchanged
          cases saved' with
          | none =>
              obtain rfl : db = db' := by simpa [saveAll] using hs
              exact .read
          | some c' =>
              have ht : validTime value = true := by
                simp only [checkCutInput, Tx.result_bind_eq_ok, expect_eq_ok,
                  Bool.and_eq_true] at hc
                exact hc.choose_spec.2.2
              exact .cutChanged hcur (.input ht hi) hs
  | cutEdit actor target id revision => exact cutCallback_effect (fun _ _ => .edit) h
  | cutAdd actor target id revision =>
      exact cutCallback_effect (fun _ _ => .segment fun _ => rfl) h
  | cutEditSegment actor target id revision index =>
      exact cutCallback_effect (fun _ _ => .segment fun e => by cases e) h
  | cutDeleteSegment actor target id revision index =>
      exact cutCallback_effect (fun _ _ => .delete) h
  | cutBack actor target id revision => exact cutCallback_effect (fun _ _ => .back) h
  | cutCancel actor target id revision message =>
      exact cutCallback_effect (fun _ _ => .cancel) h
  | cutClaim actor target id revision => exact cutCallback_effect (fun _ _ => .claim) h
  | cutQuality actor target id revision => exact cutCallback_effect (fun _ _ => .quality) h
  | cutChoose actor target id revision choice =>
      obtain ⟨s', hcall, rfl⟩ := replying_eq_ok h
      obtain ⟨hc, htx⟩ := checkedAuto_eq_ok.mp hcall
      obtain ⟨-, saved, hp, hs⟩ := dialogTransaction_eq_ok.mp htx
      obtain ⟨s, hr, hp⟩ := Tx.result_bind_eq_ok.mp hp
      obtain ⟨hch, rfl⟩ := changed_eq_ok.mp hp
      cases saved with
      | none =>
          obtain rfl : db = db' := by simpa [saveAll] using hs
          exact .read
      | some s' =>
          exact .cutChanged (requireChoiceReplay_eq_ok.mp hr).2.1 (.choose hc hch) hs
  | cutSubmitted actor target id revision operationId =>
      exact cutCallback_effect (fun _ _ => .submit) h
  | qualityBegin actor target message request original =>
      obtain ⟨s, hcall, rfl⟩ := replying_eq_ok h
      obtain ⟨hc, htx⟩ := checkedAuto_eq_ok.mp hcall
      obtain ⟨-, saved, hp, hs⟩ := dialogTransaction_eq_ok.mp htx
      obtain ⟨current, hcur, hb⟩ := Tx.result_bind_eq_ok.mp hp
      rcases beginQuality_cases hb with ⟨rfl, -⟩ | rfl
      · obtain rfl : db = db' := by simpa [saveAll] using hs
        exact .read
      · exact .qualityBegun hc hcur hb hs
  | qualityClaim actor target id revision choice =>
      refine qualityCallback_effect (fun hc _ _ => .claim ?_) h
      obtain ⟨c, hc, -⟩ := Tx.result_map_eq_ok.mp hc
      exact QualityChoice.parse_asStr_iff.mp ⟨c, hc⟩
  | qualityCancel actor target id revision =>
      exact qualityCallback_effect (fun _ _ _ => .cancel) h
  | qualitySubmitted actor target id revision operation =>
      exact qualityCallback_effect (fun _ _ _ => .submit) h
  | qualityCut actor target id revision =>
      obtain ⟨cut, hcall, rfl⟩ := replying_eq_ok h
      obtain ⟨-, htx⟩ := checkedAuto_eq_ok.mp hcall
      obtain ⟨-, saved, hp, hs⟩ := dialogTransaction_eq_ok.mp htx
      obtain ⟨current, hcur, hp⟩ := Tx.result_bind_eq_ok.mp hp
      cases current with
      | none => cases hp
      | some quality =>
          obtain ⟨_, -, hp⟩ := Tx.result_bind_eq_ok.mp hp
          split at hp
          · obtain ⟨c, -, he⟩ := Tx.result_map_eq_ok.mp hp
            cases he
            obtain rfl : db = db' := by simpa [saveAll] using hs
            exact .read
          · obtain ⟨p, hoff, he⟩ := Tx.result_map_eq_ok.mp hp
            cases he
            exact .handedOff hcur hoff hs

/-! ## Runs -/

/-- The database, and the identifiers drawn so far. -/
structure DialogState where
  db : DialogDb
  issued : List Uuid

/-- One atomic event: a call with what it read, drew and returned, or a change by
another part of the program. -/
inductive DialogEvent where
  | call (op : DialogOp) (context : DialogContext) (fresh : Uuid)
      (reply : Except StoreError DialogReply)
  | other

/-- Calls take effect, and other parts leave the tables of the dialogs alone. -/
inductive DialogStep : DialogState → DialogEvent → DialogState → Prop
  | call {s t : DialogState} {op : DialogOp} {context : DialogContext} {fresh : Uuid}
      {reply : Except StoreError DialogReply} (new : fresh ∉ s.issued)
      (result : op.run context fresh s.db = (reply, t.db))
      (issued : t.issued = fresh :: s.issued) :
      DialogStep s (.call op context fresh reply) t
  | other {s t : DialogState} (quality : t.db.quality = s.db.quality)
      (cuts : t.db.cuts = s.db.cuts) (intents : t.db.intents = s.db.intents)
      (issued : t.issued = s.issued) : DialogStep s .other t

/-- The clips that are replied survive in their text. -/
def DialogReply.Exact : DialogReply → Prop
  | .noCut => True
  | .cut s => ∀ c ∈ s.clips, Codec.ClipStable c
  | .quality s => Codec.ClipsStable s.request

def DialogEvent.Exact : DialogEvent → Prop
  | .call _ _ _ (.ok reply) => reply.Exact
  | .call _ _ _ (.error _) => True
  | .other => True

/-- All clips survive when every number does. -/
theorem DialogEvent.Exact.of_reread (h : ∀ x, Platform.rereadF64 x = some x)
    {e : DialogEvent} : e.Exact := by
  match e with
  | .call _ _ _ (.ok .noCut) => trivial
  | .call _ _ _ (.ok (.cut s)) => exact fun c _ => ⟨h _, h _⟩
  | .call _ _ _ (.ok (.quality s)) => exact ⟨fun c _ => ⟨h _, h _⟩, fun c _ => ⟨h _, h _⟩⟩
  | .call _ _ _ (.error _) => trivial
  | .other => trivial

/-- A step that sets no clip whose digits get lost. -/
def ExactStep (s : DialogState) (e : DialogEvent) (t : DialogState) : Prop :=
  DialogStep s e t ∧ e.Exact

/-- A database without dialogs. -/
def DialogDb.Fresh (db : DialogDb) : Prop :=
  db.quality.rows = [] ∧ db.cuts.rows = [] ∧ db.intents.rows = []

/-- A run from a database without dialogs. -/
def DialogReaches (s : DialogState) (es : List DialogEvent) (t : DialogState) : Prop :=
  s.db.Fresh ∧ Run DialogStep s es t

/-- Such a run of exact steps. -/
def ExactReaches (s : DialogState) (es : List DialogEvent) (t : DialogState) : Prop :=
  s.db.Fresh ∧ Run ExactStep s es t

theorem ExactReaches.reaches {s t : DialogState} {es : List DialogEvent}
    (h : ExactReaches s es t) : DialogReaches s es t :=
  ⟨h.1, h.2.mono And.left⟩

/-- A call that fails changes nothing. -/
theorem checkedAuto_error_state {α : Type} {body : DialogStmt α} {e : StoreError}
    (h : checkedAuto checks body db = (.error e, db')) : db' = db := by
  unfold checkedAuto at h
  split at h
  · cases h
    rfl
  · exact Tx.auto_error_state h

theorem replying_eq_error {α : Type} {f : α → DialogReply} {x : Except StoreError α × DialogDb}
    {e : StoreError} (h : replying f x = (.error e, db')) : x = (.error e, db') := by
  obtain ⟨r, db''⟩ := x
  cases r with
  | error e' =>
      cases h
      rfl
  | ok a => cases h

theorem DialogOp.run_error_state {e : StoreError} (h : op.run context fresh db = (.error e, db')) :
    db' = db := by
  cases op <;> first
    | exact checkedAuto_error_state (replying_eq_error h)
    | exact Tx.auto_error_state (replying_eq_error h)

/-! ## Scripts -/

/-- An operation of an actor who may hold dialogs, with the identifier it draws. -/
structure DialogLine where
  op : DialogOp
  fresh : Uuid

/-- Nobody is refused. -/
def DialogContext.anyone : DialogContext := ⟨none, 0⟩

/-- Perform the operations in order; the events record what they returned. -/
def playDialogs (s : DialogState) : List DialogLine → List DialogEvent × DialogState
  | [] => ([], s)
  | line :: lines =>
      let (reply, db) := line.op.run .anyone line.fresh s.db
      let (es, t) := playDialogs ⟨db, line.fresh :: s.issued⟩ lines
      (.call line.op .anyone line.fresh reply :: es, t)

/-- No identifier of a script was drawn before. -/
def drawsFresh (issued : List Uuid) : List DialogLine → Bool
  | [] => true
  | line :: lines => !issued.contains line.fresh && drawsFresh (line.fresh :: issued) lines

/-- Performing one operation is a step. -/
theorem playDialogs_step {s : DialogState} (line : DialogLine) (h : line.fresh ∉ s.issued) :
    DialogStep s (.call line.op .anyone line.fresh (line.op.run .anyone line.fresh s.db).1)
      ⟨(line.op.run .anyone line.fresh s.db).2, line.fresh :: s.issued⟩ :=
  .call h rfl rfl

/-- Playing a script is a run. -/
theorem playDialogs_run {lines : List DialogLine} :
    ∀ {s : DialogState}, drawsFresh s.issued lines = true →
      Run DialogStep s (playDialogs s lines).1 (playDialogs s lines).2 := by
  induction lines with
  | nil => exact fun _ => .nil
  | cons line lines ih =>
      intro s h
      simp only [drawsFresh, Bool.and_eq_true, Bool.not_eq_true'] at h
      have hnew : line.fresh ∉ s.issued := by
        intro hmem
        rw [List.contains_iff_mem.mpr hmem] at h
        cases h.1
      exact (Run.single (playDialogs_step line hnew)).append (ih h.2)

/-- No dialog was held yet. -/
def DialogState.initial (store : Db) : DialogState :=
  ⟨⟨store, .empty _, .empty _, .empty _⟩, []⟩

theorem DialogState.initial_fresh (store : Db) : (DialogState.initial store).db.Fresh :=
  ⟨rfl, rfl, rfl⟩

end YoinkCore.Storage
