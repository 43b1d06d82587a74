import YoinkCore.Lib.HostName
import YoinkCore.Lib.Written
import YoinkCore.Storage.CutDialog

/-!
# The keyboard of a cut dialog

Under the message of a cut dialog stand buttons. Telegram keeps a short text for each and
sends it back when the button is pressed: the word of an action, the identifier of the
session and the revision the button was drawn for. Which buttons there are depends on the
stage, on the clips and on the choice that is being confirmed. The texts of the messages are
left out; a label is the key of its translation with the argument.
-/

namespace YoinkCore.Telegram

open Lib Domain Storage Lib.Text

/-! ## Callbacks -/

/-- What a button asks for. -/
inductive CutAction where
  | go
  | quality (choice : QualityChoice)
  | edit
  | add
  | editSegment (index : Nat)
  | deleteSegment (index : Nat)
  | back
  | cancel
deriving DecidableEq

/-- Every callback carries the session and the revision of its button. -/
structure CutCallback where
  action : CutAction
  id : Uuid
  revision : Int
deriving DecidableEq

/-- `parse_segment_action`: the number of a clip, written as numbers are written. -/
def parseSegmentAction (value : Str) : Option Nat :=
  if value = [] ∨ (1 < value.length ∧ value.head? = some '0') ∨ value.all isDigit = false then
    none
  else (parseUnsigned (2 ^ 64 - 1) value).filter fun index => decide (index < 20)

/-- The actions that have a word of their own and come before the segments. -/
def actionWords : List (String × CutAction) :=
  [("go", .go), ("qbest", .quality .best), ("q144", .quality (.height 144)),
    ("q240", .quality (.height 240)), ("q360", .quality (.height 360)),
    ("q480", .quality (.height 480)), ("q720", .quality (.height 720)),
    ("q1080", .quality (.height 1080)), ("q1440", .quality (.height 1440)),
    ("q2160", .quality (.height 2160)), ("edit", .edit), ("add", .add), ("back", .back)]

def parseAction (action : Str) : Option CutAction :=
  match actionWords.find? fun w => decide (w.1.toList = action) with
  | some w => some w.2
  | none =>
      match action with
      | 'e' :: index => (parseSegmentAction index).map .editSegment
      | 'd' :: index => (parseSegmentAction index).map .deleteSegment
      | _ => if action = "cancel".toList then some .cancel else none

/-- `Uuid::parse_str` on thirty-two hexadecimal digits. -/
def parseId (id : Str) : Option Uuid :=
  if byteLen id ≠ 32 ∨ id.all isHexDigit = false then none
  else (HostName.numeral 16 id).map fun n => ⟨BitVec.ofNat 128 n⟩

/-- A revision is a positive `i64`. -/
def parseRevision (revision : Str) : Option Int :=
  (parseSigned (-2 ^ 63) i64Max revision).filter fun r => decide (0 < r)

/-- `callback`: there is one kind of failure, a text that is no callback. -/
def callback (data : Str) : Option CutCallback :=
  if 64 < byteLen data then none
  else
    match split ':' data with
    | [cut, action, id, revision] =>
        if cut = "cut".toList then do
          let id ← parseId id
          let revision ← parseRevision revision
          let action ← parseAction action
          return ⟨action, id, revision⟩
        else none
    | _ => none

/-! ## Buttons -/

inductive CutLabel where
  | cutAdd
  | cutChangeSegment (index : Nat)
  | cutDeleteSegment (index : Nat)
  | cutDownload
  | cutCancel
  | cutGo
  | cutEdit
  | cutBack
  | qualityBest
  | qualityHeight (height : UInt32)
deriving DecidableEq

structure CutButton where
  label : CutLabel
  data : Str
deriving DecidableEq

/-- The thirty-two digits without hyphens. -/
def simpleId (id : Uuid) : Str := hexDigits 32 id.bits.toNat

/-- `encode_values` -/
def encodeValues (action : Str) (id : Uuid) (revision : Int) : Str :=
  [':'].intercalate ["cut".toList, action, simpleId id, revision.repr.toList]

def cutButton (label : CutLabel) (action : String) (id : Uuid) (revision : Int) : CutButton :=
  ⟨label, encodeValues action.toList id revision⟩

/-- The word of an action on one clip or one height. -/
def numbered (letter : String) (n : Nat) : String := letter ++ n.repr

/-- A button for one more clip, and two for every clip there is. -/
def segmentRows (clips : List ClipRange) (id : Uuid) (revision : Int) : List (List CutButton) :=
  (if clips.length < 20 then [[cutButton .cutAdd "add" id revision]] else []) ++
    (List.range clips.length).map fun index =>
      [cutButton (.cutChangeSegment (index + 1))
          (if clips.length = 1 then "edit" else numbered "e" index) id revision,
        cutButton (.cutDeleteSegment (index + 1)) (numbered "d" index) id revision]

/-- The choices of a quality, three in a row. -/
def qualityRows (id : Uuid) (revision : Int) : List (List CutButton) :=
  (cutButton .qualityBest "qbest" id revision ::
    [144, 240, 360, 480, 720, 1080, 1440, 2160].map fun height : UInt32 =>
      cutButton (.qualityHeight height) (numbered "q" height.toNat) id revision).toChunks 3

/-- `keyboard_values` -/
def keyboardValues (stage : CutStage) (clips : List ClipRange) (id : Uuid) (revision : Int) :
    List (List CutButton) :=
  match stage with
  | .ready =>
      if clips.isEmpty then
        [[cutButton .cutGo "go" id revision, cutButton .cutEdit "edit" id revision,
          cutButton .cutCancel "cancel" id revision]]
      else
        segmentRows clips id revision ++
          [[cutButton .cutDownload "go" id revision, cutButton .cutCancel "cancel" id revision]]
  | .confirming => [[cutButton .cutGo "go" id revision]]
  | .quality =>
      qualityRows id revision ++
        if clips.isEmpty then
          [[cutButton .cutEdit "edit" id revision, cutButton .cutCancel "cancel" id revision]]
        else segmentRows clips id revision ++ [[cutButton .cutCancel "cancel" id revision]]
  | .start | .stop =>
      if clips.isEmpty then []
      else [[cutButton .cutBack "back" id revision, cutButton .cutCancel "cancel" id revision]]
  | .submitted | .cancelled => []

/-- The one button under a choice that is being confirmed. -/
def selectedConfirmationKeyboard (choice : QualityChoice) (id : Uuid) (revision : Int) :
    List (List CutButton) :=
  match choice with
  | .best => [[cutButton .qualityBest "qbest" id revision]]
  | .audio => []
  | .height h => [[cutButton (.qualityHeight h) (numbered "q" h.toNat) id revision]]

/-- `render`, as far as the keyboard goes. -/
def render [Platform] (s : CutSession) : List (List CutButton) :=
  match s.stage, s.selected with
  | .confirming, some choice => selectedConfirmationKeyboard choice s.id s.revision
  | _, _ => keyboardValues s.stage s.clips s.id s.revision

/-! ## Words -/

namespace CutAction

/-- The word a button writes for its action. -/
def word : CutAction → String
  | go => "go"
  | quality .best => "qbest"
  | quality .audio => "qaudio"
  | quality (.height h) => numbered "q" h.toNat
  | edit => "edit"
  | add => "add"
  | editSegment index => numbered "e" index
  | deleteSegment index => numbered "d" index
  | back => "back"
  | cancel => "cancel"

/-- The actions that callbacks can name. -/
def named : CutAction → Bool
  | quality choice => choice.listed && choice != .audio
  | editSegment index | deleteSegment index => decide (index < 20)
  | _ => true

/-- A word is short, is one field, and is read as its action. -/
def readable (a : CutAction) : Bool :=
  decide (byteLen a.word.toList ≤ 6) && a.word.toList.all (· != ':') &&
    decide (parseAction a.word.toList = some a)

theorem readable_of_named {a : CutAction} (h : a.named = true) : a.readable = true := by
  have segments : ∀ i : Fin 20, (editSegment i).readable = true ∧
      (deleteSegment i).readable = true := by decide
  have heights : ∀ l ∈ QualityChoice.labels, l.2 ≠ .audio →
      (quality l.2).readable = true := by decide
  cases a with
  | quality choice =>
      simp only [named, Bool.and_eq_true, bne_iff_ne] at h
      obtain ⟨⟨text, choice'⟩, hl, hc⟩ := List.any_eq_true.mp h.1
      obtain rfl : choice' = choice := by simpa using hc
      exact heights (text, choice') hl h.2
  | editSegment index => exact (segments ⟨index, of_decide_eq_true h⟩).1
  | deleteSegment index => exact (segments ⟨index, of_decide_eq_true h⟩).2
  | go | edit | add | back | cancel => decide

end CutAction

/-! ## Reading a button back -/

theorem numeral_hexDigits (k n : Nat) :
    HostName.numeral 16 (hexDigits k n) = some (n % 16 ^ k) := by
  have digit : ∀ i : Fin 16, HostName.digitValue (hexDigit i) = i := by decide
  have value (n : Nat) : HostName.digitValue (hexDigit (n % 16)) = n % 16 :=
    digit ⟨n % 16, Nat.mod_lt _ (by decide)⟩
  have hall : (hexDigits k n).all (fun c => isHexDigit c &&
      decide (HostName.digitValue c < 16)) = true := by
    rw [List.all_eq_true]
    intro c hc
    rw [(mem_hexDigits hc).1, Bool.true_and, decide_eq_true_eq]
    induction k generalizing n with
    | zero => cases hc
    | succ k ih =>
        rw [hexDigits, List.mem_append, List.mem_singleton] at hc
        rcases hc with hc | rfl
        · exact ih _ hc
        · rw [value]
          exact Nat.mod_lt _ (by decide)
  rw [HostName.numeral, if_pos hall, Option.some.injEq]
  clear hall
  induction k generalizing n with
  | zero => simp [hexDigits, Nat.mod_one]
  | succ k ih =>
      rw [hexDigits, List.foldl_append, ih, List.foldl_cons, List.foldl_nil, value,
        Nat.pow_succ, Nat.mul_comm (16 ^ k) 16, Nat.mod_mul, Nat.add_comm]

/-- A hexadecimal digit takes one byte and is no separator. -/
theorem isAlphanumeric_of_isHexDigit {c : Char} (h : isHexDigit c = true) :
    isAlphanumeric c = true := by
  simp only [isHexDigit, Bool.or_eq_true, Bool.and_eq_true, decide_eq_true_eq] at h
  simp only [isAlphanumeric, isLower, isUpper, Bool.or_eq_true, Bool.and_eq_true,
    decide_eq_true_eq]
  rcases h with (hd | ⟨ha, hf⟩) | ⟨ha, hf⟩
  · exact .inr hd
  · exact .inl (.inl ⟨ha, Char.le_trans hf (by decide)⟩)
  · exact .inl (.inr ⟨ha, Char.le_trans hf (by decide)⟩)

theorem byteLen_simpleId (id : Uuid) : byteLen (simpleId id) = 32 := by
  have hall : ∀ c ∈ simpleId id, isAlphanumeric c = true := fun c hc =>
    isAlphanumeric_of_isHexDigit (mem_hexDigits hc).1
  rw [byteLen_of_alphanumeric hall]
  exact hexDigits_length 32 _

theorem parseId_simpleId (id : Uuid) : parseId (simpleId id) = some id := by
  have hall : (simpleId id).all isHexDigit = true :=
    List.all_eq_true.mpr fun c hc => (mem_hexDigits hc).1
  have hlt : id.bits.toNat < 16 ^ 32 := id.bits.isLt
  rw [parseId, if_neg (by simp [byteLen_simpleId, hall]), simpleId, numeral_hexDigits,
    Nat.mod_eq_of_lt hlt]
  simp

theorem repr_natCast (n : Nat) : (n : Int).repr = n.repr := rfl

theorem parseRevision_repr {revision : Int} (hpos : 0 < revision) (hmax : revision ≤ i64Max) :
    parseRevision revision.repr.toList = some revision := by
  obtain ⟨n, rfl⟩ := Int.eq_ofNat_of_zero_le (Int.le_of_lt hpos)
  have hread := (parse_of_digits (digits_repr n) (Nat.le_refl n)).2 (-2 ^ 63) i64Max
    (by decide) hmax
  rw [parseRevision, repr_natCast, hread, Option.filter_some, if_pos (decide_eq_true hpos)]

theorem byteLen_encodeValues (action : Str) (id : Uuid) {revision : Int}
    (hpos : 0 < revision) (hmax : revision ≤ i64Max) :
    byteLen (encodeValues action id revision) ≤ byteLen action + 57 := by
  obtain ⟨n, rfl⟩ := Int.eq_ofNat_of_zero_le (Int.le_of_lt hpos)
  have hn : n < 10 ^ 19 := by
    simp only [i64Max] at hmax
    omega
  have hdigits : byteLen n.repr.toList ≤ 19 := byteLen_repr (by decide) hn
  have hcut : byteLen "cut".toList = 3 := by decide
  have hcolon : byteLen [':'] = 1 := by decide
  simp only [encodeValues, List.intercalate_cons_cons, List.intercalate_singleton,
    byteLen_append, byteLen_simpleId, hcut, hcolon, repr_natCast]
  omega

/-- The four fields of a button. -/
theorem split_encodeValues {action : Str} (haction : ':' ∉ action) (id : Uuid) {revision : Int}
    (hpos : 0 < revision) :
    split ':' (encodeValues action id revision) =
      ["cut".toList, action, simpleId id, revision.repr.toList] := by
  obtain ⟨n, rfl⟩ := Int.eq_ofNat_of_zero_le (Int.le_of_lt hpos)
  have separator {t : Str} (h : ∀ c ∈ t, isHexDigit c = true) : ':' ∉ t :=
    fun hc => absurd (h ':' hc) (by decide)
  have hcut : ':' ∉ "cut".toList := by decide
  have hid : ':' ∉ simpleId id := separator fun c hc => (mem_hexDigits hc).1
  have hnumber : ':' ∉ (n : Int).repr.toList := by
    rw [repr_natCast]
    refine separator fun c hc => ?_
    rw [isHexDigit, List.all_eq_true.mp (all_digits_repr n) c hc, Bool.true_or, Bool.true_or]
  refine split_joined ?_
  simp only [List.forall_mem_cons]
  exact ⟨hcut, haction, hid, hnumber, by simp⟩

/-- **Round trip.** A button is short and is read as the action it was drawn for. -/
theorem callback_encodeValues {a : CutAction} (ha : a.named = true) (id : Uuid)
    {revision : Int} (hpos : 0 < revision) (hmax : revision ≤ i64Max) :
    byteLen (encodeValues a.word.toList id revision) ≤ 64 ∧
      callback (encodeValues a.word.toList id revision) = some ⟨a, id, revision⟩ := by
  have hr := CutAction.readable_of_named ha
  simp only [CutAction.readable, Bool.and_eq_true, decide_eq_true_eq, List.all_eq_true,
    bne_iff_ne] at hr
  obtain ⟨⟨hshort, hcolon⟩, hparse⟩ := hr
  have hlen := byteLen_encodeValues a.word.toList id hpos hmax
  have hsplit := split_encodeValues (fun hc => hcolon ':' hc rfl) id hpos
  refine ⟨by omega, ?_⟩
  rw [callback, if_neg (by omega), hsplit]
  show (if "cut".toList = "cut".toList then _ else none) = _
  rw [if_pos rfl, parseId_simpleId, parseRevision_repr hpos hmax, hparse]
  rfl

/-! ## What the buttons ask for -/

/-- The action that a label announces. -/
def CutLabel.announces : CutLabel → CutAction → Bool
  | cutAdd, .add => true
  | cutChangeSegment n, .edit => n == 1
  | cutChangeSegment n, .editSegment index => n == index + 1
  | cutDeleteSegment n, .deleteSegment index => n == index + 1
  | cutDownload, .go | cutGo, .go => true
  | cutCancel, .cancel => true
  | cutEdit, .edit => true
  | cutBack, .back => true
  | qualityBest, .quality choice => choice == .best
  | qualityHeight h, .quality choice => choice == .height h
  | _, _ => false

variable [Platform]

/-- What can be asked of a session in its stage. -/
def CutAction.fits (s : CutSession) : CutAction → Prop
  | go => s.stage = .ready ∨ s.stage = .confirming
  | quality choice => choice.listed = true ∧ choice ≠ .audio ∧
      (s.stage = .quality ∨ s.stage = .confirming ∧ s.selected = some choice)
  | edit => editable s.stage = true
  | add => editable s.stage = true ∧ s.clips.length < 20
  | editSegment index | deleteSegment index =>
      editable s.stage = true ∧ index < s.clips.length
  | back => (s.stage = .start ∨ s.stage = .stop) ∧ s.clips ≠ []
  | cancel => s.stage = .start ∨ s.stage = .stop ∨ editable s.stage = true

/-- A button was drawn for an action that its label announces and its session can take. -/
def CutButton.ShownFor (b : CutButton) (s : CutSession) (a : CutAction) : Prop :=
  b.data = encodeValues a.word.toList s.id s.revision ∧ b.label.announces a = true ∧ a.fits s

variable {s : CutSession}

/-- Whenever the clips can be changed, so can each of them. -/
theorem shown_segmentRows (hs : editable s.stage = true) :
    ∀ b ∈ (segmentRows s.clips s.id s.revision).flatten, ∃ a, b.ShownFor s a := by
  intro b hb
  rw [segmentRows, List.flatten_append, List.mem_append] at hb
  rcases hb with hb | hb
  · split at hb
    · rename_i hlen
      obtain rfl : b = cutButton .cutAdd "add" s.id s.revision := by simpa using hb
      exact ⟨.add, rfl, rfl, hs, hlen⟩
    · cases hb
  · obtain ⟨row, hrow, hb⟩ := List.mem_flatten.mp hb
    obtain ⟨index, hindex, rfl⟩ := List.mem_map.mp hrow
    have hlt : index < s.clips.length := List.mem_range.mp hindex
    simp only [List.mem_cons, List.not_mem_nil, or_false] at hb
    rcases hb with rfl | rfl
    · split
      · rename_i hone
        obtain rfl : index = 0 := by omega
        exact ⟨.edit, rfl, rfl, hs⟩
      · exact ⟨.editSegment index, rfl, by simp [cutButton, CutLabel.announces], hs, hlt⟩
    · exact ⟨.deleteSegment index, rfl, by simp [cutButton, CutLabel.announces], hs, hlt⟩

theorem shown_qualityRows (hs : s.stage = .quality) :
    ∀ b ∈ (qualityRows s.id s.revision).flatten, ∃ a, b.ShownFor s a := by
  have heights : [144, 240, 360, 480, 720, 1080, 1440, 2160].all
      (fun h => (QualityChoice.height h).listed) = true := by decide
  have hflat : (qualityRows s.id s.revision).flatten =
      cutButton .qualityBest "qbest" s.id s.revision ::
        [144, 240, 360, 480, 720, 1080, 1440, 2160].map fun height : UInt32 =>
          cutButton (.qualityHeight height) (numbered "q" height.toNat) s.id s.revision := rfl
  intro b hb
  rw [hflat, List.mem_cons] at hb
  rcases hb with rfl | hb
  · exact ⟨.quality .best, rfl, rfl, by decide, by decide, .inl hs⟩
  · obtain ⟨h, hmem, rfl⟩ := List.mem_map.mp hb
    exact ⟨.quality (.height h), rfl, by simp [cutButton, CutLabel.announces],
      List.all_eq_true.mp heights h hmem, by simp, .inl hs⟩

/-- A clip that is being asked for can be left, once there is another. -/
theorem shown_asking (hs : s.stage = .start ∨ s.stage = .stop) {b : CutButton}
    (hb : b ∈ ((if s.clips.isEmpty then [] else
      [[cutButton .cutBack "back" s.id s.revision,
        cutButton .cutCancel "cancel" s.id s.revision]]) : List (List CutButton)).flatten) :
    ∃ a, b.ShownFor s a := by
  split at hb
  · cases hb
  · rename_i hne
    simp only [List.flatten_cons, List.flatten_nil, List.append_nil, List.mem_cons,
      List.not_mem_nil, or_false] at hb
    rcases hb with rfl | rfl
    · exact ⟨.back, rfl, rfl, hs, by simpa using hne⟩
    · exact ⟨.cancel, rfl, rfl, or_assoc.mp (.inl hs)⟩

theorem shown_keyboardValues :
    ∀ b ∈ (keyboardValues s.stage s.clips s.id s.revision).flatten, ∃ a, b.ShownFor s a := by
  intro b hb
  cases hs : s.stage with
  | ready =>
      have he : editable s.stage = true := by rw [hs]; rfl
      rw [hs, keyboardValues] at hb
      split at hb
      · simp only [List.flatten_cons, List.flatten_nil, List.append_nil, List.mem_cons,
          List.not_mem_nil, or_false] at hb
        rcases hb with rfl | rfl | rfl
        · exact ⟨.go, rfl, rfl, .inl hs⟩
        · exact ⟨.edit, rfl, rfl, he⟩
        · exact ⟨.cancel, rfl, rfl, .inr (.inr he)⟩
      · simp only [List.flatten_append, List.flatten_cons, List.flatten_nil, List.append_nil,
          List.mem_append, List.mem_cons, List.not_mem_nil, or_false] at hb
        rcases hb with hb | rfl | rfl
        · exact shown_segmentRows he b hb
        · exact ⟨.go, rfl, rfl, .inl hs⟩
        · exact ⟨.cancel, rfl, rfl, .inr (.inr he)⟩
  | confirming =>
      rw [hs, keyboardValues] at hb
      simp only [List.flatten_cons, List.flatten_nil, List.append_nil,
        List.mem_singleton] at hb
      subst hb
      exact ⟨.go, rfl, rfl, .inr hs⟩
  | quality =>
      have he : editable s.stage = true := by rw [hs]; rfl
      rw [hs, keyboardValues, List.flatten_append, List.mem_append] at hb
      rcases hb with hb | hb
      · exact shown_qualityRows hs b hb
      split at hb
      · simp only [List.flatten_cons, List.flatten_nil, List.append_nil, List.mem_cons,
          List.not_mem_nil, or_false] at hb
        rcases hb with rfl | rfl
        · exact ⟨.edit, rfl, rfl, he⟩
        · exact ⟨.cancel, rfl, rfl, .inr (.inr he)⟩
      · simp only [List.flatten_append, List.flatten_cons, List.flatten_nil, List.append_nil,
          List.mem_append, List.mem_singleton] at hb
        rcases hb with hb | rfl
        · exact shown_segmentRows he b hb
        · exact ⟨.cancel, rfl, rfl, .inr (.inr he)⟩
  | start =>
      rw [hs, keyboardValues] at hb
      exact shown_asking (.inl hs) hb
  | stop =>
      rw [hs, keyboardValues] at hb
      exact shown_asking (.inr hs) hb
  | submitted | cancelled =>
      rw [hs] at hb
      cases hb

/-- **Every button** is drawn for an action that its session can take. -/
theorem shown_render (hsel : ∀ choice ∈ s.selected, choice.listed = true ∧ choice ≠ .audio) :
    ∀ b ∈ (render s).flatten, ∃ a, b.ShownFor s a := by
  intro b hb
  unfold render at hb
  split at hb
  · rename_i choice hs hc
    obtain ⟨hlisted, haudio⟩ := hsel choice hc
    unfold selectedConfirmationKeyboard at hb
    split at hb
    · obtain rfl : b = cutButton .qualityBest "qbest" s.id s.revision := by simpa using hb
      exact ⟨.quality .best, rfl, rfl, hlisted, haudio, .inr ⟨hs, hc⟩⟩
    · cases hb
    · rename_i h
      obtain rfl : b = cutButton (.qualityHeight h) (numbered "q" h.toNat) s.id s.revision := by
        simpa using hb
      exact ⟨.quality (.height h), rfl, by simp [cutButton, CutLabel.announces], hlisted,
        haudio, .inr ⟨hs, hc⟩⟩
  · exact shown_keyboardValues b hb

/-- The actions a session can take are those that callbacks can name. -/
theorem CutAction.fits.named {a : CutAction} (h : a.fits s) (hlen : s.clips.length ≤ 20) :
    a.named = true := by
  cases a with
  | quality choice =>
      rw [CutAction.named, h.1, Bool.true_and, bne_iff_ne]
      exact h.2.1
  | editSegment index | deleteSegment index => exact decide_eq_true (Nat.lt_of_lt_of_le h.2 hlen)
  | go | edit | add | back | cancel => rfl

end YoinkCore.Telegram
