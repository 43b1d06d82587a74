import YoinkCore.Storage.DialogSessions
import YoinkCore.Storage.System

/-!
# Dialogs never wedge

A refusal of a dialog is about the actor, the arguments or the moment. It is never a
constraint of a table, nor a row that cannot be decoded: whatever the operations store,
they can read, and what they reply is what they stored.
-/

namespace YoinkCore.Storage

open Lib Domain

/-! ## Faults -/

/-- Errors that are nobody's fault but the program's. -/
def StoreError.fault : StoreError → Bool
  | .database | .invalidStoredData => true
  | _ => false

/-- A computation that does not fail through a fault of the program. -/
def Faultless {α : Type} (x : Except StoreError α) : Prop :=
  ∀ e, x = .error e → e.fault = false

namespace Faultless

variable {α β : Type}

theorem ok (a : α) : Faultless (.ok a : Except StoreError α) := by
  intro e h
  cases h

variable {e : StoreError}

theorem error (h : e.fault = false) : Faultless (.error e : Except StoreError α) := by
  rintro _ ⟨⟩
  exact h

theorem bind {x : Except StoreError α} {f : α → Except StoreError β} (hx : Faultless x)
    (hf : ∀ a, x = .ok a → Faultless (f a)) : Faultless (x >>= f) := by
  intro e h
  cases hxa : x with
  | error e' =>
      rw [hxa] at h
      cases h
      exact hx _ hxa
  | ok a =>
      rw [hxa] at h
      exact hf a hxa e h

theorem map {x : Except StoreError α} {f : α → β} (hx : Faultless x) :
    Faultless (x.map f) := by
  intro e h
  cases hxa : x with
  | error e' =>
      rw [hxa] at h
      cases h
      exact hx _ hxa
  | ok a =>
      rw [hxa] at h
      cases h

theorem expect (h : e.fault = false) (holds : Bool) : Faultless (Storage.expect e holds) := by
  cases holds
  · exact error h
  · exact ok ()

theorem mapError {ε : Type} (h : e.fault = false) (x : Except ε α) :
    Faultless (Storage.mapError e x) := by
  cases x
  · exact error h
  · exact ok _

theorem nextRevision (revision : Int) : Faultless (Storage.nextRevision revision) := by
  unfold Storage.nextRevision
  split
  · exact ok _
  · exact error rfl

theorem ite {c : Prop} [Decidable c] {x y : Except StoreError α} (hx : c → Faultless x)
    (hy : ¬ c → Faultless y) : Faultless (if c then x else y) := by
  split
  · rename_i h
    exact hx h
  · rename_i h
    exact hy h

theorem validateScope (actor : UInt64) (target : DeliveryTarget) :
    Faultless (Storage.validateScope actor target) := expect rfl _

theorem validateRevision (actor : UInt64) (target : DeliveryTarget) (revision : Int) :
    Faultless (Storage.validateRevision actor target revision) :=
  bind (validateScope actor target) fun _ _ => expect rfl _

theorem parse (value : String) : Faultless (QualityChoice.parse value) := by
  unfold QualityChoice.parse
  split
  · exact ok _
  · exact error rfl

end Faultless

section

variable [Platform]

namespace Faultless

variable {change : CutSession → Except StoreError (Option CutSession)}
  {checks : Except StoreError Unit} {s : CutSession} {fresh id : Uuid} {message : Int32}

/-- Only the range and the place of a clip look at what is stored. -/
theorem inputStage (h : CutOk s) (value : Float) (numeric : Bool) :
    Faultless (Storage.inputStage s value numeric) := by
  unfold Storage.inputStage
  split
  · exact ok _
  · rename_i hs
    refine bind ?_ fun range _ => bind ?_ fun clips _ => ok _
    · obtain ⟨start, hstart⟩ := Option.isSome_iff_exists.mp (h.ending hs)
      unfold inputRange
      rw [hstart]
      exact mapError rfl _
    · unfold placeClip
      split
      · rename_i index hi
        rw [if_neg (Nat.not_le.mpr (h.editing index hi))]
        exact ok _
      · exact ite (fun _ => error rfl) fun _ => ok _
  · exact error rfl

theorem inputCut (h : CutOk s) (message : Int32) (value : Float) (numeric : Bool) :
    Faultless (Storage.inputCut message value numeric s) := by
  unfold Storage.inputCut
  refine ite (fun _ => ok _) fun _ => ?_
  refine bind (inputStage h value numeric) fun moved _ => bind ?_ fun _ _ => ok _
  unfold inputRevision
  exact ite (fun _ => ok _) fun _ => nextRevision _

theorem editCut (s : CutSession) : Faultless (Storage.editCut s) :=
  bind (expect rfl _) fun _ _ => bind (nextRevision _) fun _ _ => ok _

theorem beginSegment (index : Option Nat) (append : Bool) (s : CutSession) :
    Faultless (Storage.beginSegment index append s) :=
  bind (expect rfl _) fun _ _ => bind (expect rfl _) fun _ _ =>
    bind (nextRevision _) fun _ _ => ok _

theorem deleteSegment (index : Nat) (s : CutSession) :
    Faultless (Storage.deleteSegment index s) :=
  bind (expect rfl _) fun _ _ => bind (expect rfl _) fun _ _ =>
    bind (nextRevision _) fun _ _ => ok _

theorem backCut (s : CutSession) : Faultless (Storage.backCut s) :=
  bind (expect rfl _) fun _ _ => bind (nextRevision _) fun _ _ => ok _

theorem cancelCut (message : Option Int32) (s : CutSession) :
    Faultless (Storage.cancelCut message s) := by
  refine ite (fun _ => ok _) fun _ => bind (expect rfl _) fun _ _ => bind ?_ fun _ _ =>
    bind (nextRevision _) fun _ _ => ok _
  cases message with
  | none => exact ok _
  | some m => exact bind (expect rfl _) fun _ _ => bind (expect rfl _) fun _ _ => ok _

theorem claimCut (s : CutSession) : Faultless (Storage.claimCut s) := by
  unfold Storage.claimCut
  split
  · exact ok _
  · exact ite (fun _ => ok _) fun _ => error rfl
  · exact ok _
  · exact ok _
  · exact error rfl

theorem qualityStageCut (s : CutSession) : Faultless (Storage.qualityStageCut s) :=
  bind (expect rfl _) fun _ _ => bind (nextRevision _) fun _ _ => ok _

theorem chooseCut (revision : Int) (choice : QualityChoice) (s : CutSession) :
    Faultless (Storage.chooseCut revision choice s) :=
  ite (fun _ => ok _) fun _ => bind (expect rfl _) fun _ _ =>
    bind (nextRevision _) fun _ _ => ok _

theorem submitCut (operationId : Uuid) (s : CutSession) :
    Faultless (Storage.submitCut operationId s) :=
  ite (fun _ => ite (fun _ => ok _) fun _ => error rfl) fun _ =>
    bind (expect rfl _) fun _ _ => ok _

theorem beginCut (actor : UInt64) (target : DeliveryTarget) (message : Int32) (url : String)
    (start : Option Float) (fresh : Uuid) (current : Option CutSession) :
    Faultless (Storage.beginCut actor target message url start fresh current) := by
  unfold Storage.beginCut
  cases current with
  | none => exact bind (mapError rfl _) fun _ _ => ok _
  | some old =>
      exact ite (fun _ => ite (fun _ => error rfl) fun _ => ok _) fun _ =>
        ite (fun _ => error rfl) fun _ => bind (mapError rfl _) fun _ _ => ok _

theorem beginQuality (target : DeliveryTarget) (message : Int32) (request : DownloadRequest)
    (fresh : Uuid) (current : Option QualitySession) :
    Faultless (Storage.beginQuality target message request fresh current) := by
  unfold Storage.beginQuality
  cases current with
  | none => exact bind (mapError rfl _) fun _ _ => ok _
  | some old =>
      exact ite (fun _ => ite (fun _ => error rfl) fun _ => ok _) fun _ =>
        ite (fun _ => error rfl) fun _ => bind (mapError rfl _) fun _ _ => ok _

theorem claimQuality (revision : Int) (choice : QualityChoice) (s : QualitySession) :
    Faultless (Storage.claimQuality revision choice s) :=
  ite (fun _ => ok _) fun _ => bind (expect rfl _) fun _ _ => ok _

theorem cancelQuality (revision : Int) (s : QualitySession) :
    Faultless (Storage.cancelQuality revision s) :=
  ite (fun _ => ok _) fun _ => bind (expect rfl _) fun _ _ => ok _

theorem submitQuality (revision : Int) (operation : Uuid) (s : QualitySession) :
    Faultless (Storage.submitQuality revision operation s) :=
  ite (fun _ => ok _) fun _ => bind (expect rfl _) fun _ _ => ok _

/-! ### Operations -/

variable {db : DialogDb} {context : DialogContext} {actor : UInt64} {target : DeliveryTarget}

/-- A transaction whose plan is faultless, and whose writes go through. -/
theorem transaction {α σ : Type} {plan : Plan α σ} {put : σ → DialogStmt Unit}
    (hplan : Faultless (plan db))
    (hput : ∀ reply s, plan db = .ok (reply, some s) → ∃ db', put s db = .ok ((), db')) :
    Faultless (Tx.auto (dialogTransaction context actor plan put) db).1 := by
  intro e he
  rw [Tx.auto_eq] at he
  split at he
  · cases he
  · rename_i e' hbody
    cases he
    rcases dialogTransaction_eq_error hbody with rfl | hfail | ⟨reply, s, hok, hfail⟩
    · rfl
    · exact hplan _ hfail
    · obtain ⟨db', hdone⟩ := hput reply s hok
      rw [hdone] at hfail
      cases hfail

theorem checkedAuto {α : Type} {body : DialogStmt α} (hchecks : Faultless checks)
    (hbody : checks = .ok () → Faultless (Tx.auto body db).1) :
    Faultless (Storage.checkedAuto checks body db).1 := by
  cases hc : checks with
  | error e =>
      rintro _ ⟨⟩
      exact hchecks e hc
  | ok u => exact hbody hc

theorem replying {α : Type} {f : α → DialogReply} {x : Except StoreError α × DialogDb}
    (h : Faultless x.1) : Faultless (Storage.replying f x).1 := map h

theorem currentCut (h : DialogOk db) :
    Faultless (Storage.currentCut db actor target) := by
  rcases h.currentCut actor target with ⟨s, hs, -⟩ | ⟨hn, -⟩
  · rw [hs]
    exact ok _
  · rw [hn]
    exact ok _

theorem currentQualitySession (h : DialogOk db) :
    Faultless (Storage.currentQualitySession db actor target) := by
  rcases h.currentQualitySession actor target with ⟨s, hs, -⟩ | ⟨hn, -⟩
  · rw [hs]
    exact ok _
  · rw [hn]
    exact ok _

theorem require (h : DialogOk db) (id : Uuid) (revision : Int) :
    Faultless (Storage.require db actor target id revision) := by
  refine bind (validateScope _ _) fun _ _ => bind (currentCut h) fun current _ => ?_
  cases current with
  | none => exact error rfl
  | some s => exact bind (expect rfl _) fun _ _ => ok _

theorem requireChoiceReplay (h : DialogOk db) (id : Uuid) (revision : Int) :
    Faultless (Storage.requireChoiceReplay db actor target id revision) := by
  refine bind (validateScope _ _) fun _ _ => bind (currentCut h) fun current _ => ?_
  cases current with
  | none => exact error rfl
  | some s => exact bind (expect rfl _) fun _ _ => ok _

theorem qualityGet (h : DialogOk db) (id : Uuid) (revision : Int) :
    Faultless (Storage.qualityGet db actor target id revision) := by
  refine bind (validateRevision _ _ _) fun _ _ =>
    bind (currentQualitySession h) fun current _ => ?_
  cases current with
  | none => exact error rfl
  | some s => exact bind (expect rfl _) fun _ _ => ok _

/-- What a change makes of the session that was found is saved. -/
theorem cutChanged (h : DialogOk db) {found : Except StoreError CutSession}
    (hfound : Faultless found)
    (hcurrent : ∀ s, found = .ok s → Storage.currentCut db actor target = .ok (some s))
    (hchange : ∀ s, CutOk s → Faultless (change s))
    (hkind : ∀ s s', change s = .ok (some s') → CutChange s s') :
    Faultless (found >>= changed change) ∧
      ∀ reply s', (found >>= changed change) = .ok (reply, some s') →
        ∃ db', cutPut s' db = .ok ((), db') := by
  refine ⟨bind hfound fun s hs => map (hchange s (h.cutOk_of_current (hcurrent s hs)).1.toCutOk),
    fun reply s' hs' => ?_⟩
  obtain ⟨s, hs, hc⟩ := Tx.result_bind_eq_ok.mp hs'
  obtain ⟨saved, hsaved, he⟩ := Tx.result_map_eq_ok.mp hc
  cases he
  exact cutPut_of_check ((h.cutOk_of_current (hcurrent s hs)).1.change (hkind s s' hsaved)).check

theorem cutCallback (h : DialogOk db) {revision : Int}
    (hchange : ∀ s, CutOk s → Faultless (change s))
    (hkind : ∀ s s', change s = .ok (some s') → CutChange s s') :
    Faultless (Storage.cutCallback context actor target id revision change db).1 := by
  obtain ⟨hplan, hput⟩ := cutChanged h (require h id revision)
    (fun s hs => (require_eq_ok.mp hs).2.1) hchange hkind
  exact transaction hplan hput

theorem qualityCallback (h : DialogOk db) {revision : Int}
    {change : QualitySession → Except StoreError (Option QualitySession)}
    (hchecks : Faultless checks) (hchange : ∀ s, Faultless (change s))
    (hkind : checks = .ok () → ∀ s s', change s = .ok (some s') → QualityChange s s') :
    Faultless (Storage.qualityCallback context actor target id revision checks change db).1 := by
  refine checkedAuto (bind (validateRevision _ _ _) fun _ _ => hchecks) fun hc => ?_
  obtain ⟨_, -, hc⟩ := Tx.result_bind_eq_ok.mp hc
  refine transaction (bind (qualityGet h id revision) fun s _ => map (hchange s)) ?_
  intro reply s' hs'
  obtain ⟨s, hs, hmap⟩ := Tx.result_bind_eq_ok.mp hs'
  obtain ⟨saved, hsaved, he⟩ := Tx.result_map_eq_ok.mp hmap
  cases he
  have hok := (h.qualityOk_of_current (qualityGet_eq_ok.mp hs).2.1).1
  exact qualityPut_of_check (hok.change (hkind hc s s' hsaved)).check

theorem cutBegin (h : DialogOk db) {url : String} {start : Option Float} :
    Faultless (Storage.cutBegin context actor target message url start fresh db).1 := by
  refine checkedAuto ?_ fun hc => transaction ?_ fun reply s hs => ?_
  · exact bind (validateScope _ _) fun _ _ => bind (expect rfl _) fun _ _ =>
      bind (mapError rfl _) fun _ _ => bind (expect rfl _) fun _ _ => expect rfl _
  · exact bind (currentCut h) fun _ _ => beginCut _ _ _ _ _ _ _
  · obtain ⟨current, -, hb⟩ := Tx.result_bind_eq_ok.mp hs
    rcases beginCut_cases hb with ⟨hnone, -⟩ | he
    · cases hnone
    · cases he
      exact cutPut_of_check (CutOk.begun hc hb).1.check

theorem cutInput (h : DialogOk db) {value : Float} {numeric : Bool} :
    Faultless (Storage.cutInput context actor target message value numeric db).1 := by
  refine checkedAuto (bind (validateScope _ _) fun _ _ => expect rfl _) fun hc =>
    transaction ?_ fun reply s hs => ?_
  · refine bind (currentCut h) fun current hcur => ?_
    cases current with
    | none => exact ok _
    | some s => exact map (map (inputCut (h.cutOk_of_current hcur).1.toCutOk _ _ _))
  · obtain ⟨current, hcur, hb⟩ := Tx.result_bind_eq_ok.mp hs
    cases current with
    | none => cases hb
    | some s =>
        obtain ⟨r, hr, he⟩ := Tx.result_map_eq_ok.mp hb
        obtain ⟨saved, hsaved, hr⟩ := Tx.result_map_eq_ok.mp hr
        cases hr
        cases he
        have htime : validTime value = true := by
          simp only [checkCutInput, Tx.result_bind_eq_ok, expect_eq_ok, Bool.and_eq_true] at hc
          exact hc.choose_spec.2.2
        exact cutPut_of_check
          ((h.cutOk_of_current hcur).1.change (.input htime hsaved)).check

theorem cutChoose (h : DialogOk db) {revision : Int} {choice : QualityChoice} :
    Faultless (Storage.cutChoose context actor target id revision choice db).1 := by
  refine checkedAuto (bind (parse _) fun _ _ => expect rfl _) fun hc => ?_
  obtain ⟨hplan, hput⟩ := cutChanged h (requireChoiceReplay h id revision)
    (fun s hs => (requireChoiceReplay_eq_ok.mp hs).2.1) (fun s _ => chooseCut revision choice s)
    fun s s' hs => .choose hc hs
  exact transaction hplan hput

theorem qualityBegin (h : DialogOk db) {request : DownloadRequest}
    {original : Option DownloadRequest} :
    Faultless
      (qualityBeginMedia context actor target message request original fresh db).1 := by
  refine checkedAuto (bind (validateScope _ _) fun _ _ => expect rfl _) fun hc =>
    transaction (bind (currentQualitySession h) fun _ _ => beginQuality _ _ _ _ _)
      fun reply s hs => ?_
  obtain ⟨current, -, hb⟩ := Tx.result_bind_eq_ok.mp hs
  rcases beginQuality_cases hb with ⟨hnone, -⟩ | he
  · cases hnone
  · cases he
    obtain ⟨db₁, hput⟩ : ∃ db₁, qualityPut actor _ db = .ok ((), db₁) :=
      qualityPut_of_check (QualityOk.begun hc hb).1.check
    cases original with
    | none => exact ⟨db₁, Tx.bind_eq_ok.mpr ⟨(), db₁, hput, rfl⟩⟩
    | some r =>
        obtain ⟨db₂, hkeep⟩ := mediaIntentPut_ok reply.id (Codec.encode r) db₁
        exact ⟨db₂, Tx.bind_eq_ok.mpr ⟨(), db₁, hput, hkeep⟩⟩

theorem handOff (h : DialogOk db) (revision : Int) (fresh : Uuid)
    (quality : QualitySession) :
    Faultless (Storage.handOff db actor target revision fresh quality) :=
  bind (expect rfl _) fun _ _ => bind (expect rfl _) fun _ _ =>
    bind (currentCut h) fun _ _ => bind (expect rfl _) fun _ _ =>
      bind (mapError rfl _) fun _ _ => bind (nextRevision _) fun _ _ => ok _

theorem resumeCut (h : DialogOk db) (revision : Int)
    {quality : QualitySession} (hq : QualityOk actor quality) (hs : quality.stage = .cutting) :
    Faultless (Storage.resumeCut db actor target revision quality) := by
  have hlinked := hq.cutting
  rw [hs] at hlinked
  obtain ⟨linked, hlinked⟩ := Option.isSome_iff_exists.mp hlinked.symm
  refine bind (expect rfl _) fun _ _ => bind ?_ fun _ _ => bind (currentCut h) fun cut _ => ?_
  · rw [hlinked]
    exact ok _
  · cases cut with
    | none => exact error rfl
    | some cut => exact bind (expect rfl _) fun _ _ => ok _

theorem qualityCut (h : DialogOk db) {revision : Int} :
    Faultless (Storage.qualityCut context actor target id revision fresh db).1 := by
  refine checkedAuto (validateRevision _ _ _) fun _ => transaction ?_ fun reply p hp => ?_
  · refine bind (currentQualitySession h) fun current hcur => ?_
    cases current with
    | none => exact error rfl
    | some quality =>
        refine bind (expect rfl _) fun _ _ => ite (fun hs => map ?_) fun _ => map ?_
        · exact resumeCut h revision (h.qualityOk_of_current hcur).1.toQualityOk hs
        · exact handOff h revision fresh quality
  · obtain ⟨current, hcur, hp⟩ := Tx.result_bind_eq_ok.mp hp
    cases current with
    | none => cases hp
    | some quality =>
        obtain ⟨_, -, hp⟩ := Tx.result_bind_eq_ok.mp hp
        split at hp
        · obtain ⟨_, -, he⟩ := Tx.result_map_eq_ok.mp hp
          cases he
        · obtain ⟨⟨cut, quality'⟩, hoff, he⟩ := Tx.result_map_eq_ok.mp hp
          cases he
          obtain ⟨hq, -, hscope⟩ := h.qualityOk_of_current hcur
          obtain ⟨hcut, hq', -⟩ := hq.handedOff hscope hoff
          obtain ⟨db₁, hput⟩ : ∃ db₁, qualityPut actor quality' db = .ok ((), db₁) :=
            qualityPut_of_check hq'.check
          obtain ⟨db₂, hput'⟩ : ∃ db₂, cutPut cut db₁ = .ok ((), db₂) :=
            cutPut_of_check hcut.check
          exact ⟨db₂, Tx.bind_eq_ok.mpr ⟨(), db₁, hput, hput'⟩⟩

/-- **No operation** on rows that can be read fails through a fault of the program. -/
theorem run (h : DialogOk db) (op : DialogOp)
    (fresh : Uuid) : Faultless (op.run context fresh db).1 := by
  cases op with
  | cutBegin => exact replying (cutBegin h)
  | cutInput => exact replying (cutInput h)
  | cutEdit =>
      exact replying (cutCallback h (fun s _ => editCut s) fun _ _ hs => .edit hs)
  | cutAdd =>
      exact replying (cutCallback h (fun s _ => beginSegment _ _ s)
        fun _ _ hs => .segment (fun _ => rfl) hs)
  | cutEditSegment =>
      exact replying (cutCallback h (fun s _ => beginSegment _ _ s)
        fun _ _ hs => .segment (fun ht => by cases ht) hs)
  | cutDeleteSegment =>
      exact replying (cutCallback h (fun s _ => deleteSegment _ s) fun _ _ hs => .delete hs)
  | cutBack => exact replying (cutCallback h (fun s _ => backCut s) fun _ _ hs => .back hs)
  | cutCancel =>
      exact replying (cutCallback h (fun s _ => cancelCut _ s) fun _ _ hs => .cancel hs)
  | cutClaim => exact replying (cutCallback h (fun s _ => claimCut s) fun _ _ hs => .claim hs)
  | cutQuality =>
      exact replying (cutCallback h (fun s _ => qualityStageCut s) fun _ _ hs => .quality hs)
  | cutChoose => exact replying (cutChoose h)
  | cutSubmitted =>
      exact replying (cutCallback h (fun s _ => submitCut _ s) fun _ _ hs => .submit hs)
  | qualityBegin => exact replying (qualityBegin h)
  | qualityClaim =>
      refine replying (qualityCallback h (map (parse _)) (fun s => claimQuality _ _ s) ?_)
      intro hc s s' hs
      obtain ⟨c, hparse, -⟩ := Tx.result_map_eq_ok.mp hc
      exact .claim (QualityChoice.parse_asStr_iff.mp ⟨c, hparse⟩) hs
  | qualityCancel =>
      exact replying (qualityCallback h (ok _) (fun s => cancelQuality _ s)
        fun _ _ _ hs => .cancel hs)
  | qualitySubmitted =>
      exact replying (qualityCallback h (ok _) (fun s => submitQuality _ _ s)
        fun _ _ _ hs => .submit hs)
  | qualityCut => exact replying (qualityCut h)

end Faultless

/-! ## Runs -/

variable {db db' : DialogDb}

/-- What was saved is what the scope holds. -/
theorem CutReadable.saved {s : CutSession} (h : CutReadable s)
    (hput : cutPut s db = .ok ((), db')) : currentCut db' s.actorId s.target = .ok (some s) := by
  rw [currentCut, (cutPut_saved hput).get, if_pos rfl]
  show (decodeCut (cutRow s)).map some = _
  rw [h.decode]
  rfl

theorem QualityReadable.saved {actor : UInt64} {s : QualitySession} (h : QualityReadable actor s)
    (hsaved : QualitySaved actor s db db') :
    currentQualitySession db' s.request.actorId s.target = .ok (some s) := by
  obtain rfl := UInt64.toNat_inj.mp (draftFits_eq_true.mp h.draft).1
  rw [currentQualitySession, hsaved.get, if_pos rfl]
  show (decodeQuality (qualityRow s.request.actorId s)).map some = _
  rw [h.decode]
  rfl

/-- The session that a call writes is the one it replied. -/
def WrittenBack (db db' : DialogDb) : DialogReply → Prop
  | .noCut => db'.cuts = db.cuts
  | .cut s => db'.cuts ≠ db.cuts → currentCut db' s.actorId s.target = .ok (some s)
  | .quality s => db'.quality ≠ db.quality →
      currentQualitySession db' s.request.actorId s.target = .ok (some s)

theorem DialogEffect.writtenBack (hu : StableUrls) (h : DialogOk db) {fresh : Uuid}
    {op : DialogOp} {reply : DialogReply} (hexact : reply.Exact)
    (he : DialogEffect db fresh op reply db') : WrittenBack db db' reply := by
  cases he with
  | read =>
      cases reply with
      | noCut => rfl
      | cut s => exact fun hne => absurd rfl hne
      | quality s => exact fun hne => absurd rfl hne
  | cutBegun checks found begun saved =>
      have hs : CutReadable _ := ⟨(CutOk.begun checks begun).1, hexact⟩
      exact fun _ => hs.saved saved
  | cutChanged found change saved =>
      have hs : CutReadable _ := ⟨(h.cutOk_of_current found).1.change change, hexact⟩
      exact fun _ => hs.saved saved
  | qualityBegun checks found begun saved =>
      intro _
      obtain ⟨db₁, hput, -, -, hq, -⟩ := putWithOriginal_saved saved
      have hread := ((QualityOk.begun checks begun).1.readable hu hexact).saved hput
      rwa [currentQualitySession, qualityGetForTarget, hq]
  | qualityChanged found change saved =>
      exact fun _ => (((h.qualityOk_of_current found).1.change change).readable hu hexact).saved
        (qualityPut_saved saved)
  | handedOff found handed saved =>
      intro _
      obtain ⟨_, db₁, -, hcut⟩ := Tx.bind_eq_ok.mp saved
      obtain ⟨hq, -, hscope⟩ := h.qualityOk_of_current found
      have hs : CutReadable _ := ⟨(hq.handedOff hscope handed).1, hexact⟩
      exact hs.saved hcut

/-- **Dialogs never wedge.** After any run of the dialogs that replied no clip whose digits
get lost, every stored row is decoded to the session that was written, and no operation with
whatever arguments fails through a constraint or a row it cannot read. A session that an
operation then writes is read back as it was replied, if its clips survive too. -/
theorem dialogs_never_wedge (hu : StableUrls) {s t : DialogState} {es : List DialogEvent}
    (h : ExactReaches s es t) :
    (∀ row ∈ t.db.cuts.rows, ∃ c, decodeCut row = .ok c ∧ cutRow c = row) ∧
    (∀ row ∈ t.db.quality.rows, ∃ actor q, decodeQuality row = .ok q ∧
      qualityRow actor q = row) ∧
    ∀ (op : DialogOp) (context : DialogContext) (fresh : Uuid),
      Faultless (op.run context fresh t.db).1 ∧
        ∀ reply db', op.run context fresh t.db = (.ok reply, db') → reply.Exact →
          WrittenBack t.db db' reply := by
  have hok := DialogOk.reaches hu h
  refine ⟨fun row hrow => ?_, fun row hrow => ?_, fun op context fresh => ⟨?_, ?_⟩⟩
  · obtain ⟨c, hc, rfl⟩ := hok.cuts row hrow
    exact ⟨c, hc.decode, rfl⟩
  · obtain ⟨actor, q, hq, rfl⟩ := hok.quality row hrow
    exact ⟨actor, q, hq.decode, rfl⟩
  · exact Faultless.run hok op fresh
  · intro reply db' hrun hexact
    exact (DialogOp.run_effect hrun).writtenBack hu hok hexact

end

section

attribute [local instance] Scenario.platform

/-- One clip is cut, and its quality is asked for. -/
def oneClip : List DialogLine :=
  [⟨.cutBegin 7 Scenario.target 5 Scenario.sourceUrl.asStr (some 1), uuid 1⟩,
    ⟨.cutInput 7 Scenario.target 6 2 false, uuid 2⟩,
    ⟨.cutQuality 7 Scenario.target (uuid 1) 2, uuid 3⟩]

/-- No digit of a bound gets lost. -/
theorem oneClip_reaches : ExactReaches (.initial Db.empty)
    (playDialogs (.initial Db.empty) oneClip).1 (playDialogs (.initial Db.empty) oneClip).2 :=
  ⟨DialogState.initial_fresh _,
    (playDialogs_run (by decide)).mono fun h => ⟨h, .of_reread fun _ => rfl⟩⟩

/-- A dialog that asks for the quality can be left again. -/
theorem dialogs_never_wedge_clip :
    (playDialogs (.initial Db.empty) oneClip).2.db.cuts.rows.length = 1 ∧
      Faultless ((DialogOp.cutBack 7 Scenario.target (uuid 1) 3).run .anyone
        (uuid 4) (playDialogs (.initial Db.empty) oneClip).2.db).1 :=
  ⟨by decide +kernel,
    ((dialogs_never_wedge Scenario.stableUrls oneClip_reaches).2.2 _ _ _).1⟩

end

end YoinkCore.Storage
