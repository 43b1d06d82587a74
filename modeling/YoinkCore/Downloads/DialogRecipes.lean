import YoinkCore.Downloads.TelegramSubmission
import YoinkCore.Storage.Confirmed
import YoinkCore.Telegram.CutKeyboard

/-!
# Recipes of dialogs

A dialog that is confirmed becomes a submission: a request, its overrides, the key it is
admitted under, and the original that is kept for it. Callbacks are delivered more than once,
and a caller may stop at any point between the claim and the submission. Whoever confirms a
dialog submits the same, and no two dialogs submit under one key.
-/

namespace YoinkCore.Downloads

open Lib Domain Storage
open Text (Str)

/-! ## Keys -/

/-- The parts of an idempotency key. -/
def dialogKey (parts : List Str) : Str := [':'].intercalate parts

/-- The identity belongs to the draft, not to the callback. -/
def cutKey (botId : Int64) (actor : UInt64) (id : Uuid) : Str :=
  dialogKey ["cut".toList, (toString botId.toInt).toList, (toString (actor.toNat : Int)).toList,
    Telegram.simpleId id]

/-- `tg:bot:chat:message` -/
def messageKey (botId chatId : Int64) (message : Int32) : Str :=
  dialogKey ["tg".toList, (toString botId.toInt).toList, (toString chatId.toInt).toList,
    (toString message.toInt).toList]

theorem colon_not_mem_toString (n : Int) : ':' ∉ (toString n).toList := by
  have hdigit : ∀ n : Nat, ':' ∉ n.repr.toList := by
    intro n hmem
    have := List.all_eq_true.mp (Text.all_digits_repr n) ':' hmem
    cases this
  cases n with
  | ofNat n => exact hdigit n
  | negSucc n =>
      show ':' ∉ ("-" ++ (n + 1).repr).toList
      rw [String.toList_append, List.mem_append, not_or]
      exact ⟨by decide, hdigit _⟩

theorem colon_not_mem_simpleId (id : Uuid) : ':' ∉ Telegram.simpleId id := by
  intro h
  have := (mem_hexDigits h).1
  cases this

/-- A key has its parts. -/
theorem dialogKey_injective {p q : Str} {ps qs : List Str} (hp : ∀ x ∈ p :: ps, ':' ∉ x)
    (hq : ∀ x ∈ q :: qs, ':' ∉ x) (h : dialogKey (p :: ps) = dialogKey (q :: qs)) :
    p :: ps = q :: qs := by
  have hsplit := congrArg (Text.split ':') h
  rwa [dialogKey, dialogKey, Text.split_joined hp, Text.split_joined hq] at hsplit

theorem toString_injective {m n : Int} (h : (toString m).toList = (toString n).toList) :
    m = n := by
  have hparse := congrArg (Text.parseSigned (min 0 (min m n)) (max m n)) h
  rw [Text.parseSigned_toString (by omega) (by omega) (by omega),
    Text.parseSigned_toString (by omega) (by omega) (by omega), Option.some.injEq] at hparse
  exact hparse

variable {actor : UInt64} {id : Uuid}

variable {actor' : UInt64} {botId botId' chatId : Int64} {message : Int32} {id' : Uuid}

theorem simpleId_injective (h : Telegram.simpleId id = Telegram.simpleId id') : id = id' := by
  have hparse := congrArg Telegram.parseId h
  rwa [Telegram.parseId_simpleId, Telegram.parseId_simpleId, Option.some.injEq] at hparse

theorem cutKey_parts (botId : Int64) (actor : UInt64) (id : Uuid) :
    ∀ x ∈ ["cut".toList, (toString botId.toInt).toList, (toString (actor.toNat : Int)).toList,
      Telegram.simpleId id], ':' ∉ x := by
  simp only [List.forall_mem_cons]
  exact ⟨by decide, colon_not_mem_toString _, colon_not_mem_toString _,
    colon_not_mem_simpleId id, by simp⟩

theorem messageKey_parts (botId chatId : Int64) (message : Int32) :
    ∀ x ∈ ["tg".toList, (toString botId.toInt).toList, (toString chatId.toInt).toList,
      (toString message.toInt).toList], ':' ∉ x := by
  simp only [List.forall_mem_cons]
  exact ⟨by decide, colon_not_mem_toString _, colon_not_mem_toString _,
    colon_not_mem_toString _, by simp⟩

theorem cutKey_injective (h : cutKey botId actor id = cutKey botId' actor' id') : id = id' := by
  have hparts := dialogKey_injective (cutKey_parts botId actor id)
    (cutKey_parts botId' actor' id') h
  simp only [List.cons.injEq] at hparts
  exact simpleId_injective hparts.2.2.2.1

theorem messageKey_injective {chatId' : Int64} {message' : Int32}
    (h : messageKey botId chatId message = messageKey botId' chatId' message') :
    botId = botId' ∧ chatId = chatId' ∧ message = message' := by
  have hparts := dialogKey_injective (messageKey_parts botId chatId message)
    (messageKey_parts botId' chatId' message') h
  simp only [List.cons.injEq] at hparts
  obtain ⟨-, hb, hc, hm, -⟩ := hparts
  exact ⟨Int64.toInt_inj.mp (toString_injective hb), Int64.toInt_inj.mp (toString_injective hc),
    Int32.toInt_inj.mp (toString_injective hm)⟩

theorem cutKey_ne_messageKey : cutKey botId actor id ≠ messageKey botId' chatId message := by
  intro h
  have hparts := dialogKey_injective (cutKey_parts botId actor id)
    (messageKey_parts botId' chatId message) h
  simp only [List.cons.injEq] at hparts
  exact absurd hparts.1 (by decide)

section

variable [Platform]

/-! ## Recipes -/

/-- What a confirmed dialog submits. With an original goes the message it answers. -/
structure DialogRecipe where
  request : DownloadRequest
  key : Str
  overrides : DownloadPreferenceOverrides
  original : Option (Uuid × Int32)

/-- The one clip of a session that has one. -/
def singleClip (clips : List ClipRange) : Option ClipRange :=
  if clips.length = 1 then clips.head? else none

/-- More than one clip is a parameter of the request. -/
def clipParams (params : DownloadParams) (clips : List ClipRange) :
    Except DownloadError DownloadParams :=
  if (singleClip clips).isSome then .ok params else invalidInput (params.withClips clips)

/-- The request of a cut: the original with the clips, or one of its own. -/
def cutRequest (actor : UInt64) (session : CutSession) : Except DownloadError DownloadRequest :=
  let clips := session.clips
  if clips.isEmpty || decide (20 < clips.length) then .error .invalidInput
  else
    match session.original with
    | some original => do
        let params ← clipParams original.params clips
        let request ← invalidInput (DownloadRequest.new actor original.sourceUrl.asStr .video
          (singleClip clips) params)
        let request ← match original.target with
          | some target => invalidInput (request.withTarget target)
          | none => .ok request
        invalidInput (request.withNetwork original.network)
    | none => do
        let url ← match session.url with
          | some url => .ok url
          | none => .error .invalidInput
        let params ← clipParams DownloadParams.default clips
        let request ← invalidInput (DownloadRequest.new actor url .video (singleClip clips) params)
        invalidInput (request.withTarget session.target)

/-- The overrides of the original, and the height that was chosen for the cut. -/
def cutOverrides (session : CutSession) : DownloadPreferenceOverrides :=
  let overrides := (session.original.bind DownloadRequest.preferenceOverrides).getD {}
  match session.selected with
  | some choice => { overrides with maxHeight := some choice.maxHeight }
  | none => overrides

def cutRecipe (actor : UInt64) (target : DeliveryTarget) (id : Uuid) (session : CutSession) :
    Except DownloadError DialogRecipe :=
  (cutRequest actor session).map fun request => {
    request, key := cutKey target.botId actor id, overrides := cutOverrides session
    original := session.linkedQualityId.map (·, session.originMessageId) }

def qualityRecipe (target : DeliveryTarget) (id : Uuid) (choice : QualityChoice)
    (session : QualitySession) : Except DownloadError DialogRecipe :=
  (selectedRequest session.request choice).map fun selected => {
    request := selected.1
    key := messageKey target.botId target.chatId session.originMessageId
    overrides := selected.2, original := some (id, session.originMessageId) }

/-! ## Confirmations -/

/-- `authorize_cut` and `authorize_quality`, with the answer of `authorize_chat`. -/
def authorizeScope (allowed : Except DownloadError Unit) (actor : UInt64)
    (target : DeliveryTarget) : Except DownloadError Unit :=
  if target.chatId.toInt ≤ 0 ∨ target.chatId.toInt ≠ actor.toNat ∨ target.threadId.isSome then
    .error .denied
  else allowed

/-- `cut_confirm` up to its submission. -/
def cutConfirm (allowed : Except DownloadError Unit) (context : DialogContext) (actor : UInt64)
    (target : DeliveryTarget) (id : Uuid) (revision : Int) (db : DialogDb) :
    Except DownloadError DialogRecipe × DialogDb :=
  match authorizeScope allowed actor target with
  | .error e => (.error e, db)
  | .ok _ =>
      match cutClaim context actor target id revision db with
      | (.error e, db') => (.error (mapStore e), db')
      | (.ok session, db') => (cutRecipe actor target id session, db')

/-- The checks of `quality_confirm`. -/
def checkQualityConfirm (allowed : Except DownloadError Unit) (actor : UInt64)
    (target : DeliveryTarget) (choice : QualityChoice) : Except DownloadError Unit := do
  authorizeScope allowed actor target
  invalidInput ((QualityChoice.parse choice.asStr).map fun _ => ())

/-- The first transaction of `quality_confirm`: a dialog that was submitted is submitted
again. -/
def qualityRepeat (allowed : Except DownloadError Unit) (actor : UInt64)
    (target : DeliveryTarget) (id : Uuid) (revision : Int) (choice : QualityChoice)
    (db : DialogDb) : Except DownloadError (Option DialogRecipe) := do
  checkQualityConfirm allowed actor target choice
  match qualityCurrent actor target db with
  | .error e => .error (mapQualityError e)
  | .ok none => return none
  | .ok (some current) =>
      if current.id = id ∧ current.stage = .submitted then
        if revision ≠ current.revision - 2 ∧ revision ≠ current.revision - 1 ∧
            revision ≠ current.revision then .error .conflict
        else if current.selected ≠ some choice then .error .conflict
        else (qualityRecipe target id choice current).map some
      else return none

/-- The second transaction of `quality_confirm`, after one that found nothing to repeat. -/
def qualityConfirm (allowed : Except DownloadError Unit) (context : DialogContext)
    (actor : UInt64) (target : DeliveryTarget) (id : Uuid) (revision : Int)
    (choice : QualityChoice) (db : DialogDb) : Except DownloadError DialogRecipe × DialogDb :=
  match checkQualityConfirm allowed actor target choice with
  | .error e => (.error e, db)
  | .ok _ =>
      match qualityClaim context actor target id revision choice db with
      | (.error e, db') => (.error (mapQualityError e), db')
      | (.ok session, db') => (qualityRecipe target id choice session, db')

/-- A dialog of either kind. -/
inductive Dialog where
  | cut (id : Uuid)
  | quality (id : Uuid)
deriving DecidableEq

/-- A confirmation that arrives at a submission: what it submits, and the state it leaves. -/
inductive Confirms (s : DialogState) : Dialog → DialogRecipe → DialogState → Prop
  | cut {allowed : Except DownloadError Unit} {context : DialogContext} {actor : UInt64}
      {target : DeliveryTarget} {id : Uuid} {revision : Int} {r : DialogRecipe}
      {db : DialogDb} {fresh : Uuid} (new : fresh ∉ s.issued)
      (result : cutConfirm allowed context actor target id revision s.db = (.ok r, db)) :
      Confirms s (.cut id) r ⟨db, fresh :: s.issued⟩
  | repeated {allowed : Except DownloadError Unit} {actor : UInt64} {target : DeliveryTarget}
      {id : Uuid} {revision : Int} {choice : QualityChoice} {r : DialogRecipe}
      (result : qualityRepeat allowed actor target id revision choice s.db = .ok (some r)) :
      Confirms s (.quality id) r s
  | quality {allowed : Except DownloadError Unit} {context : DialogContext} {actor : UInt64}
      {target : DeliveryTarget} {id : Uuid} {revision : Int} {choice : QualityChoice}
      {r : DialogRecipe} {db : DialogDb} {fresh : Uuid} (new : fresh ∉ s.issued)
      (result : qualityConfirm allowed context actor target id revision choice s.db =
        (.ok r, db)) : Confirms s (.quality id) r ⟨db, fresh :: s.issued⟩

/-! ## What a confirmation leaves -/

variable {target : DeliveryTarget}

variable {a : QualitySession} {target' : DeliveryTarget} {context : DialogContext}
  {choice : QualityChoice} {r : DialogRecipe} {s t : DialogState} {db db' : DialogDb} {d : Dialog}

/-- A claim of a cut leaves a confirmed session. -/
theorem cutClaim_held {revision : Int} {a : CutSession} (hok : DialogOk db)
    (h : cutClaim context actor target id revision db = (.ok a, db')) :
    heldCut db' actor target = some a ∧ a.id = id ∧ a.stage.confirmed = true ∧
      (DialogReply.cut a).Exact := by
  obtain ⟨-, s, saved, hreq, hclaim, rfl, hsaved⟩ := cutCallback_eq_ok.mp h
  obtain ⟨-, hcur, -, -, -, hid, -⟩ := require_eq_ok.mp hreq
  obtain ⟨hcut, -, hscope⟩ := hok.cutOk_of_current hcur
  cases saved with
  | none =>
      obtain rfl : db = db' := by simpa [saveAll] using hsaved
      refine ⟨heldCut_eq_some.mpr hcur, hid, ?_, hcut.stable⟩
      show s.stage.confirmed = true
      unfold claimCut at hclaim
      split at hclaim
      · cases hclaim
      · split at hclaim <;> cases hclaim
      · rename_i hs
        rw [hs]
        rfl
      · rename_i hs
        rw [hs]
        rfl
      · cases hclaim
  | some s' =>
      have hcut' := hcut.change (.claim hclaim)
      obtain ⟨-, rfl⟩ := claimCut_eq_ok hclaim
      refine ⟨?_, hid, rfl, hcut.stable⟩
      rw [(cutPut_saved hsaved).held ⟨hcut', hcut.stable⟩, if_pos]
      · rfl
      · exact hscope.symm

/-- A claim of a quality dialog leaves a session that is confirmed with the choice. -/
theorem qualityClaim_held (hu : StableUrls) {revision : Int} (hok : DialogOk db)
    (h : qualityClaim context actor target id revision choice db = (.ok a, db')) :
    heldQuality db' actor target = some a ∧ a.id = id ∧ a.stage.confirmed = true ∧
      a.selected = some choice ∧ (DialogReply.quality a).Exact := by
  obtain ⟨hlisted, -, s, saved, hget, hclaim, rfl, hsaved⟩ := qualityCallback_eq_ok.mp h
  obtain ⟨-, hcur, hid, -⟩ := qualityGet_eq_ok.mp hget
  obtain ⟨hq, -, hscope⟩ := hok.qualityOk_of_current hcur
  have hclips := hq.clipsStable
  have hchange := hclaim
  unfold claimQuality at hclaim
  cases saved with
  | none =>
      obtain rfl : db = db' := by simpa [saveAll] using hsaved
      split at hclaim
      · rename_i hs
        refine ⟨heldQuality_eq_some.mpr hcur, hid, ?_, hs.2.1, hclips⟩
        show s.stage.confirmed = true
        rw [hs.1]
        rfl
      · obtain ⟨_, -, hclaim⟩ := Tx.result_bind_eq_ok.mp hclaim
        cases hclaim
  | some s' =>
      obtain ⟨c, hparse, -⟩ := Tx.result_map_eq_ok.mp hlisted
      have hq' := hq.change (.claim (QualityChoice.parse_asStr_iff.mp ⟨c, hparse⟩) hchange)
      split at hclaim
      · cases hclaim
      · obtain ⟨_, -, hclaim⟩ := Tx.result_bind_eq_ok.mp hclaim
        cases hclaim
        refine ⟨?_, hid, rfl, rfl, hclips⟩
        rw [(qualityPut_saved hsaved).held (hq'.readable hu hclips), if_pos]
        · rfl
        · exact hscope.symm

omit [Platform] in
theorem authorizeScope_eq_ok {allowed : Except DownloadError Unit} {u : Unit}
    (h : authorizeScope allowed actor target = .ok u) : target.chatId.toInt = actor.toNat := by
  unfold authorizeScope at h
  split at h
  · cases h
  · rename_i hn
    simp only [not_or, not_not] at hn
    exact hn.2.1

/-- What a state holds of a dialog that submits a recipe. -/
inductive Holds (t : DialogState) : Dialog → DialogRecipe → Prop
  | cut {actor : UInt64} {target : DeliveryTarget} {a : CutSession} {r : DialogRecipe}
      (held : heldCut t.db actor target = some a) (stage : a.stage.confirmed = true)
      (recipe : cutRecipe actor target a.id a = .ok r) : Holds t (.cut a.id) r
  | quality {actor : UInt64} {target : DeliveryTarget} {choice : QualityChoice}
      {a : QualitySession} {r : DialogRecipe} (chat : target.chatId.toInt = actor.toNat)
      (held : heldQuality t.db actor target = some a) (stage : a.stage.confirmed = true)
      (selected : a.selected = some choice)
      (recipe : qualityRecipe target a.id choice a = .ok r) : Holds t (.quality a.id) r

/-- **A confirmation** is a step or a read, after which the dialog is confirmed. It replies
what it read, so no digit gets lost in it. -/
theorem Confirms.holds (hu : StableUrls) (h : Confirms s d r t) (hok : DialogOk s.db) :
    (∃ es, Run ExactStep s es t) ∧ Holds t d r := by
  cases h with
  | @cut allowed context actor target id revision r db fresh new result =>
      unfold cutConfirm at result
      split at result
      · cases result
      · split at result
        · cases result
        · rename_i session db' hclaim
          obtain ⟨hrecipe, rfl⟩ := Prod.mk.inj result
          obtain ⟨hheld, rfl, hstage, hexact⟩ := cutClaim_held hok hclaim
          have hop : (DialogOp.cutClaim actor target session.id revision).run context fresh
              s.db = (.ok (.cut session), db') := by
            show replying .cut (cutClaim context actor target session.id revision s.db) = _
            rw [hclaim]
            rfl
          exact ⟨⟨_, .single ⟨.call new hop rfl, hexact⟩⟩, .cut hheld hstage hrecipe⟩
  | repeated result =>
      refine ⟨⟨[], .nil⟩, ?_⟩
      obtain ⟨_, hcheck, h⟩ := Tx.result_bind_eq_ok.mp result
      obtain ⟨_, hscope, -⟩ := Tx.result_bind_eq_ok.mp hcheck
      split at h
      · cases h
      · cases h
      · rename_i current hcur
        obtain ⟨_, -, hcur⟩ := Tx.result_bind_eq_ok.mp hcur
        split at h
        · rename_i hsame
          obtain ⟨rfl, hstage⟩ := hsame
          split at h
          · cases h
          · split at h
            · cases h
            · rename_i hselected
              obtain ⟨_, hrecipe, he⟩ := Tx.result_map_eq_ok.mp h
              cases he
              exact .quality (authorizeScope_eq_ok hscope) (heldQuality_eq_some.mpr hcur)
                (by rw [hstage]; rfl) (not_not.mp hselected) hrecipe
        · cases h
  | @quality allowed context actor target id revision choice r db fresh new result =>
      unfold qualityConfirm at result
      split at result
      · cases result
      · rename_i hcheck
        obtain ⟨_, hscope, -⟩ := Tx.result_bind_eq_ok.mp hcheck
        split at result
        · cases result
        · rename_i session db' hclaim
          obtain ⟨hrecipe, rfl⟩ := Prod.mk.inj result
          obtain ⟨hheld, rfl, hstage, hselected, hexact⟩ := qualityClaim_held hu hok hclaim
          have hop : (DialogOp.qualityClaim actor target session.id revision choice).run context
              fresh s.db = (.ok (.quality session), db') := by
            show replying .quality
              (qualityClaim context actor target session.id revision choice s.db) = _
            rw [hclaim]
            rfl
          exact ⟨⟨_, .single ⟨.call new hop rfl, hexact⟩⟩,
            .quality (authorizeScope_eq_ok hscope) hheld hstage hselected hrecipe⟩

/-! ## One recipe -/

/-- Two sessions of a scope that were confirmed with the same have one recipe. -/
theorem cutRecipe_frozen {a b : CutSession}
    (hscope : dialogScope actor' target' = dialogScope actor target) (h : a.Frozen b) :
    cutRecipe actor' target' b.id b = cutRecipe actor target a.id a := by
  simp only [dialogScope, DialogScope.mk.injEq] at hscope
  obtain ⟨hactor, hbot, -⟩ := hscope
  obtain rfl := UInt64.toNat_inj.mp hactor
  unfold cutRecipe cutRequest cutOverrides
  rw [h.id, h.message, h.target, h.clips, h.selected, h.url, h.original, h.linked, hbot]

theorem qualityRecipe_frozen {b : QualitySession}
    (hscope : dialogScope actor' target' = dialogScope actor target) (h : a.Frozen b) :
    qualityRecipe target' b.id choice b = qualityRecipe target a.id choice a := by
  simp only [dialogScope, DialogScope.mk.injEq] at hscope
  obtain ⟨-, hbot, hchat⟩ := hscope
  unfold qualityRecipe
  rw [h.id, h.message, h.request, hbot, hchat]

/-- What a state holds of a dialog, every later state that holds it holds the same. -/
theorem Holds.agree (hu : StableUrls) {v : DialogState} {es es' : List DialogEvent}
    (hr : ExactReaches s es t) (hrun : Run ExactStep t es' v) {d' : Dialog} {r' : DialogRecipe}
    (h : Holds t d r) (h' : Holds v d' r') : (d = d' → r = r') ∧ (r.key = r'.key → d = d') := by
  cases h with
  | cut held stage recipe =>
      have hconf := CutConfirmed.run hu hr held stage hrun
      cases h' with
      | cut held' stage' recipe' =>
          constructor
          · intro hd
            obtain ⟨hscope, hfrozen⟩ := hconf.same held' (Dialog.cut.inj hd).symm
            rw [cutRecipe_frozen hscope hfrozen, recipe, Except.ok.injEq] at recipe'
            exact recipe'
          · intro hkey
            obtain ⟨_, -, rfl⟩ := Tx.result_map_eq_ok.mp recipe
            obtain ⟨_, -, rfl⟩ := Tx.result_map_eq_ok.mp recipe'
            exact congrArg Dialog.cut (cutKey_injective hkey)
      | quality chat' held' stage' selected' recipe' =>
          refine ⟨fun hd => ?_, fun hkey => ?_⟩
          · cases hd
          · obtain ⟨_, -, rfl⟩ := Tx.result_map_eq_ok.mp recipe
            obtain ⟨_, -, rfl⟩ := Tx.result_map_eq_ok.mp recipe'
            exact absurd hkey cutKey_ne_messageKey
  | @quality actor target choice a r chat held stage selected recipe =>
      have hconf := QualityConfirmed.run hu hr held stage hrun
      cases h' with
      | cut held' stage' recipe' =>
          refine ⟨fun hd => ?_, fun hkey => ?_⟩
          · cases hd
          · obtain ⟨_, -, rfl⟩ := Tx.result_map_eq_ok.mp recipe
            obtain ⟨_, -, rfl⟩ := Tx.result_map_eq_ok.mp recipe'
            exact absurd hkey.symm cutKey_ne_messageKey
      | @quality actor' target' choice' b r' chat' held' stage' selected' recipe' =>
          constructor
          · intro hd
            obtain ⟨hscope, hfrozen⟩ := hconf.same held' (.inl (Dialog.quality.inj hd).symm)
            -- the first choice is the only one
            rw [hfrozen.selected, selected, Option.some.injEq] at selected'
            subst selected'
            rw [qualityRecipe_frozen hscope hfrozen, recipe, Except.ok.injEq] at recipe'
            exact recipe'
          · intro hkey
            obtain ⟨_, -, rfl⟩ := Tx.result_map_eq_ok.mp recipe
            obtain ⟨_, -, rfl⟩ := Tx.result_map_eq_ok.mp recipe'
            obtain ⟨hbot, hchat, hmessage⟩ := messageKey_injective hkey
            have hactor : (actor.toNat : Int) = actor'.toNat := by
              rw [← chat, ← chat', hchat]
            have hscope : dialogScope actor' target' = dialogScope actor target := by
              rw [dialogScope, dialogScope, ← hbot, ← hchat, Int.ofNat_inj.mp hactor]
            obtain ⟨-, hfrozen⟩ := hconf.same held' (.inr ⟨hscope, hmessage.symm⟩)
            exact congrArg Dialog.quality hfrozen.id.symm

/-- **One dialog, one recipe.** In every run of the dialogs that replies no clip whose digits
get lost, whoever confirms a dialog first or again, before or after its submission, submits
the same request under the same key with the same overrides and the same original; and two
dialogs never submit under one key. -/
theorem one_dialog_one_recipe (hu : StableUrls) {s u u' v v' : DialogState}
    {es es' : List DialogEvent} (hr : ExactReaches s es u) {d d' : Dialog}
    {r r' : DialogRecipe} (h : Confirms u d r u') (hrun : Run ExactStep u' es' v)
    (h' : Confirms v d' r' v') : (d = d' → r = r') ∧ (r.key = r'.key → d = d') := by
  obtain ⟨⟨es₁, hrun₁⟩, hholds⟩ := h.holds hu (DialogOk.reaches hu hr)
  have hr' : ExactReaches s (es ++ es₁) u' := ⟨hr.1, hr.2.append hrun₁⟩
  obtain ⟨⟨es₂, hrun₂⟩, hholds'⟩ :=
    h'.holds hu (DialogOk.reaches hu ⟨hr'.1, hr'.2.append hrun⟩)
  exact hholds.agree hu hr' (hrun.append hrun₂) hholds'

end

section

attribute [local instance] Scenario.platform

open Scenario

/-- A dialog with one clip. -/
def clippedDialog : DialogState :=
  (playDialogs (.initial Db.empty)
    [⟨.cutBegin 7 target 5 sourceUrl.asStr (some 1), uuid 1⟩,
      ⟨.cutInput 7 target 6 2 false, uuid 2⟩]).2

/-- Two callers confirm the dialog, one after the other. -/
theorem one_dialog_one_recipe_twice : ∃ r r' db db',
    cutConfirm (.ok ()) .anyone 7 target (uuid 1) 2 clippedDialog.db = (.ok r, db) ∧
      cutConfirm (.ok ()) .anyone 7 target (uuid 1) 2 db = (.ok r', db') ∧ r = r' := by
  have hfirst : (cutConfirm (.ok ()) .anyone 7 target (uuid 1) 2 clippedDialog.db).1.isOk =
      true := by decide +kernel
  have hsecond : (cutConfirm (.ok ()) .anyone 7 target (uuid 1) 2
      (cutConfirm (.ok ()) .anyone 7 target (uuid 1) 2 clippedDialog.db).2).1.isOk = true := by
    decide +kernel
  rcases h : cutConfirm (.ok ()) .anyone 7 target (uuid 1) 2 clippedDialog.db with ⟨reply, db⟩
  rw [h] at hfirst hsecond
  rcases h' : cutConfirm (.ok ()) .anyone 7 target (uuid 1) 2 db with ⟨reply', db'⟩
  rw [h'] at hsecond
  cases reply with
  | error e => cases hfirst
  | ok r =>
      cases reply' with
      | error e => cases hsecond
      | ok r' =>
          have hnew : uuid 3 ∉ clippedDialog.issued := by decide +kernel
          have hnew' : uuid 4 ∉ uuid 3 :: clippedDialog.issued := by decide +kernel
          have hreaches : ExactReaches (.initial Db.empty) _ clippedDialog :=
            ⟨DialogState.initial_fresh _,
              (playDialogs_run (by decide)).mono fun h => ⟨h, .of_reread fun _ => rfl⟩⟩
          exact ⟨r, r', db, db', rfl, h', (one_dialog_one_recipe stableUrls hreaches
            (.cut hnew h) .nil (.cut hnew' h')).1 rfl⟩

end

end YoinkCore.Downloads
