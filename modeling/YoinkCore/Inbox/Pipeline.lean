import YoinkCore.Insight.Streaming
import YoinkCore.Lib.Slices

/-!
# What a model answers

A model is asked for categories and a summary as one JSON object, and often wraps it in
prose or in a code fence. An answer that is no JSON is therefore read once more, from its
first opening brace to its last closing one.

The two braces are looked for apart. An answer whose closing braces all stand before the
opening ones has no text between them, and the slice panics unless the two are neighbours.
-/

namespace YoinkCore.Inbox.Pipeline

open Lib Lib.Text
open Insight (JsonReader)

/-! ## Reading an answer -/

structure Proposal where
  name : String
  new : Bool
  confidence : Option Float

structure Classification where
  categories : List Proposal := []
  summary : Option String := none

/-- `Value::as_f64` -/
def asF64 : Json → Option Float
  | .float x => some x
  | .int n => some (Float.ofInt n)
  | _ => none

/-- A text without the whitespace around it, unless nothing is left of it. -/
def trimmed (s : String) : Option String :=
  let t := trim s.toList
  if t = [] then none else some (String.ofList t)

def proposal (v : Json) : Option Proposal := do
  let name ← (v.entry "name").asStr.bind trimmed
  return ⟨name, v.entry "kind" = .str "new", (asF64 (v.entry "confidence")).filter (·.isFinite)⟩

def isOpen (c : Char) : Bool := c = '\x7b'
def isClose (c : Char) : Bool := c = '\x7d'

/-- From the first opening brace to the last closing one. The outer `none` is the panic of a
slice that ends before it begins. -/
def salvage [JsonReader] (raw : Str) : Option (Option Json) :=
  match byteFind isOpen raw, byteRfind isClose raw with
  | some start, some stop =>
      (slice raw start (stop + 1)).map fun text => JsonReader.parse (String.ofList text)
  | _, _ => some none

def payload [JsonReader] (raw : String) : Option (Option Json) :=
  match JsonReader.parse raw with
  | some v => some (some v)
  | none => salvage raw.toList

/-- What is taken from a document: nothing, unless it is an object. -/
def classification (payload : Option Json) : Classification :=
  match payload with
  | some (.obj fields) =>
      { categories :=
        ((((Json.obj fields).entry "categories").asArr.getD []).filterMap proposal).take 3
        summary := ((Json.obj fields).entry "summary").asStr.bind trimmed }
  | _ => {}

def parse [JsonReader] (raw : String) : Option Classification := (payload raw).map classification

/-! ## The braces of an answer -/

/-- The first opening brace stands at most behind the last closing one. -/
def Sliceable (raw : Str) : Prop :=
  ∀ start stop, byteFind isOpen raw = some start → byteRfind isClose raw = some stop →
    start ≤ stop + 1

theorem salvage_of_some [JsonReader] {raw : Str} {start stop : Nat}
    (hopen : byteFind isOpen raw = some start) (hclose : byteRfind isClose raw = some stop) :
    salvage raw =
      (slice raw start (stop + 1)).map fun text => JsonReader.parse (String.ofList text) := by
  unfold salvage
  rw [hopen, hclose]

theorem salvage_of_no_open [JsonReader] {raw : Str} (h : byteFind isOpen raw = none) :
    salvage raw = some none := by
  unfold salvage
  rw [h]

theorem salvage_of_no_close [JsonReader] {raw : Str} (h : byteRfind isClose raw = none) :
    salvage raw = some none := by
  unfold salvage
  rw [h]
  cases byteFind isOpen raw <;> rfl

/-- Between an opening brace and the end of a closing one there is a text, which may be
empty. -/
theorem slice_braces {raw : Str} {start stop : Nat} (hopen : byteFind isOpen raw = some start)
    (hclose : byteRfind isClose raw = some stop) (hle : start ≤ stop + 1) :
    ∃ text, slice raw start (stop + 1) = some text := by
  obtain ⟨a, c, b, hraw, -, -, rfl⟩ := byteFind_eq_some hopen
  rcases last_cases isClose raw with hnone | ⟨x, d, y, hraw', hd, hy⟩
  · rw [byteRfind_of_forall hnone] at hclose
    cases hclose
  · subst hraw'
    rw [byteRfind_append x hd hy] at hclose
    obtain rfl := Option.some.inj hclose
    obtain rfl : d = '\x7d' := of_decide_eq_true hd
    have hlast : byteLen (x ++ ['\x7d']) = byteLen x + 1 := byteLen_append x _
    have hsplit : (x ++ ['\x7d']) ++ y = a ++ (c :: b) := by
      rw [← hraw, List.append_assoc]
      rfl
    -- What stands before the opening brace is part of what the closing one ends.
    rcases List.append_eq_append_iff.mp hsplit with ⟨m, ha, -⟩ | ⟨m, hx, hb⟩
    · have hm : byteLen m = 0 := by
        rw [ha, byteLen_append, hlast] at hle
        omega
      refine ⟨[], ?_⟩
      have hslice := slice_append a [] (c :: b)
      have hend : byteLen x + 1 = byteLen a + byteLen [] := by
        rw [ha, byteLen_append, hlast, hm]
        rfl
      rw [hraw, hend]
      rwa [List.append_nil] at hslice
    · refine ⟨m, ?_⟩
      have hslice := slice_append a m y
      rwa [← hx, ← byteLen_append, ← hx, hlast, List.append_assoc] at hslice

theorem salvage_isSome [JsonReader] (raw : Str) : (∃ v, salvage raw = some v) ↔ Sliceable raw := by
  constructor
  · rintro ⟨v, hv⟩ start stop hopen hclose
    rw [salvage_of_some hopen hclose] at hv
    by_contra hlt
    rw [slice_of_lt (by omega)] at hv
    cases hv
  · intro h
    cases hopen : byteFind isOpen raw with
    | none => exact ⟨none, salvage_of_no_open hopen⟩
    | some start =>
        cases hclose : byteRfind isClose raw with
        | none => exact ⟨none, salvage_of_no_close hclose⟩
        | some stop =>
            obtain ⟨text, htext⟩ := slice_braces hopen hclose (h start stop hopen hclose)
            exact ⟨_, by rw [salvage_of_some hopen hclose, htext]; rfl⟩

theorem parse_isSome [JsonReader] (raw : String) :
    (∃ c, parse raw = some c) ↔ (JsonReader.parse raw).isSome ∨ Sliceable raw.toList := by
  have hmap : (∃ c, parse raw = some c) ↔ ∃ p, payload raw = some p := by
    constructor
    · rintro ⟨c, hc⟩
      obtain ⟨p, hp, -⟩ := Option.map_eq_some_iff.mp hc
      exact ⟨p, hp⟩
    · rintro ⟨p, hp⟩
      exact ⟨classification p, by rw [parse, hp]; rfl⟩
  rw [hmap, payload]
  cases JsonReader.parse raw with
  | none =>
      rw [← salvage_isSome]
      simp
  | some v => simp

/-! ## What is taken from an answer -/

/-- At most three categories, each with a trimmed name and a finite confidence, if any. -/
structure WellFormed (c : Classification) : Prop where
  few : c.categories.length ≤ 3
  name : ∀ p ∈ c.categories, p.name ≠ "" ∧ trim p.name.toList = p.name.toList
  confidence : ∀ p ∈ c.categories, ∀ x ∈ p.confidence, x.isFinite = true

theorem trimmed_eq_some {s t : String} (h : trimmed s = some t) :
    t ≠ "" ∧ trim t.toList = t.toList := by
  unfold trimmed at h
  by_cases hempty : trim s.toList = []
  · rw [if_pos hempty] at h
    cases h
  · rw [if_neg hempty] at h
    obtain rfl := Option.some.inj h
    rw [String.toList_ofList]
    refine ⟨fun hnil => hempty ?_, trim_trim _⟩
    have := congrArg String.toList hnil
    rwa [String.toList_ofList] at this

theorem proposal_eq_some {v : Json} {p : Proposal} (h : proposal v = some p) :
    (p.name ≠ "" ∧ trim p.name.toList = p.name.toList) ∧
      ∀ x ∈ p.confidence, x.isFinite = true := by
  obtain ⟨name, hname, hp⟩ := Option.bind_eq_some_iff.mp h
  obtain rfl := Option.some.inj hp
  obtain ⟨s, -, hs⟩ := Option.bind_eq_some_iff.mp hname
  exact ⟨trimmed_eq_some hs, fun x hx => (Option.filter_eq_some_iff.mp hx).2⟩

theorem classification_wellFormed (payload : Option Json) :
    WellFormed (classification payload) := by
  have hempty : WellFormed {} :=
    ⟨Nat.zero_le 3, fun _ h => absurd h List.not_mem_nil, fun _ h => absurd h List.not_mem_nil⟩
  unfold classification
  split
  · rename_i fields
    have hread : ∀ p ∈ ((((Json.obj fields).entry "categories").asArr.getD []).filterMap
        proposal).take 3, ∃ v, proposal v = some p := by
      intro p hp
      obtain ⟨v, -, hv⟩ := List.mem_filterMap.mp (List.mem_of_mem_take hp)
      exact ⟨v, hv⟩
    refine ⟨List.length_take_le _ _, fun p hp => ?_, fun p hp => ?_⟩
    · obtain ⟨v, hv⟩ := hread p hp
      exact (proposal_eq_some hv).1
    · obtain ⟨v, hv⟩ := hread p hp
      exact (proposal_eq_some hv).2
  · exact hempty

/-! ## Answers around an object -/

/-- The whitespace of JSON. -/
def isSpace (c : Char) : Bool := [' ', '\t', '\n', '\r'].contains c

/-- What is known of the reader of JSON texts. -/
structure ObjectTexts [JsonReader] : Prop where
  /-- Whitespace around a document is not part of it. -/
  around : ∀ a t b : Str, (∀ c ∈ a, isSpace c = true) → (∀ c ∈ b, isSpace c = true) →
    JsonReader.parse (String.ofList (a ++ t ++ b)) = JsonReader.parse (String.ofList t)
  /-- An object is written between braces. -/
  braces : ∀ text fields, JsonReader.parse text = some (.obj fields) →
    ∃ a body b : Str, text.toList = a ++ '\x7b' :: (body ++ '\x7d' :: b) ∧
      (∀ c ∈ a, isSpace c = true) ∧ ∀ c ∈ b, isSpace c = true

/-- A text without braces. -/
def Braceless (text : String) : Prop := ∀ c ∈ text.toList, isOpen c = false ∧ isClose c = false

theorem braceless_of_all {text : String}
    (h : (text.toList.all fun c => !isOpen c && !isClose c) = true) : Braceless text :=
  fun c hc => by simpa using List.all_eq_true.mp h c hc

theorem not_brace_of_space {c : Char} (h : isSpace c = true) :
    isOpen c = false ∧ isClose c = false := by
  have hc : c ∈ [' ', '\t', '\n', '\r'] := List.contains_iff_mem.mp h
  simp only [List.mem_cons, List.not_mem_nil, or_false] at hc
  rcases hc with rfl | rfl | rfl | rfl <;> exact ⟨rfl, rfl⟩

/-- The object is found in the text around it. -/
theorem salvage_wrapped [JsonReader] (hj : ObjectTexts) {before object after : String}
    {fields : List (String × Json)} (hobject : JsonReader.parse object = some (.obj fields))
    (hbefore : Braceless before) (hafter : Braceless after) :
    salvage (before ++ object ++ after).toList = some (some (.obj fields)) := by
  obtain ⟨a, body, b, htext, ha, hb⟩ := hj.braces object fields hobject
  have hraw : (before ++ object ++ after).toList =
      (before.toList ++ a) ++ ('\x7b' :: (body ++ ['\x7d'])) ++ (b ++ after.toList) := by
    simp [htext]
  have hopen : byteFind isOpen (before ++ object ++ after).toList =
      some (byteLen (before.toList ++ a)) := by
    rw [hraw, List.append_assoc]
    refine byteFind_append (fun d hd => ?_) rfl _
    rcases List.mem_append.mp hd with hd | hd
    · exact (hbefore d hd).1
    · exact (not_brace_of_space (ha d hd)).1
  have hclose : byteRfind isClose (before ++ object ++ after).toList =
      some (byteLen (before.toList ++ a ++ '\x7b' :: body)) := by
    have hraw' : (before ++ object ++ after).toList =
        (before.toList ++ a ++ '\x7b' :: body) ++ '\x7d' :: (b ++ after.toList) := by
      simp [htext]
    rw [hraw']
    refine byteRfind_append _ rfl fun d hd => ?_
    rcases List.mem_append.mp hd with hd | hd
    · exact (not_brace_of_space (hb d hd)).2
    · exact (hafter d hd).2
  have hend : byteLen (before.toList ++ a ++ '\x7b' :: body) + 1 =
      byteLen (before.toList ++ a) + byteLen ('\x7b' :: (body ++ ['\x7d'])) := by
    have hone : byteLen ['\x7d'] = 1 := rfl
    simp only [byteLen_append, byteLen_cons, hone]
    omega
  have hread : JsonReader.parse (String.ofList ('\x7b' :: (body ++ ['\x7d']))) =
      some (.obj fields) := by
    have := hj.around a ('\x7b' :: (body ++ ['\x7d'])) b ha hb
    rw [← this, ← hobject]
    congr 1
    rw [← String.ofList_toList (s := object), htext]
    simp
  rw [salvage_of_some hopen hclose, hraw, hend, slice_append]
  exact congrArg some hread

/-- **An answer is read whatever it is, unless its closing braces all stand before the
opening ones.** There is then no text between the braces. What is read has at most three
categories with trimmed names, and an object is read the same inside of other text. -/
theorem parse_survives [JsonReader] (hj : ObjectTexts) (raw : String) :
    ((∃ c, parse raw = some c ∧ WellFormed c) ↔
      (JsonReader.parse raw).isSome ∨ Sliceable raw.toList) ∧
    ∀ before object after fields, JsonReader.parse object = some (.obj fields) →
      Braceless before → Braceless after → JsonReader.parse (before ++ object ++ after) = none →
      parse (before ++ object ++ after) = parse object := by
  refine ⟨?_, ?_⟩
  · rw [← parse_isSome]
    constructor
    · rintro ⟨c, hc, -⟩
      exact ⟨c, hc⟩
    · rintro ⟨c, hc⟩
      obtain ⟨p, -, rfl⟩ := Option.map_eq_some_iff.mp hc
      exact ⟨_, hc, classification_wellFormed p⟩
  · intro before object after fields hobject hbefore hafter hwhole
    have hpayload : payload (before ++ object ++ after) = payload object := by
      rw [payload, payload, hwhole, hobject]
      exact salvage_wrapped hj hobject hbefore hafter
    rw [parse, parse, hpayload]

/-! ## A reader of one document -/

/-- A text without the whitespace of JSON around it. -/
def bare (t : Str) : Str := (t.dropWhile isSpace).rdropWhile isSpace

def helloText : Str := "\x7b\"summary\":\" hello \"\x7d".toList

/-- A reader that knows one document. -/
@[reducible] def helloReader : JsonReader where
  parse text :=
    if bare text.toList = helloText then some (.obj [("summary", .str " hello ")]) else none

theorem dropWhile_around {a : Str} (ha : ∀ c ∈ a, isSpace c = true) (t : Str) :
    (a ++ t).dropWhile isSpace = t.dropWhile isSpace := by
  rw [List.dropWhile_append, List.dropWhile_eq_nil_iff.mpr ha]
  rfl

theorem rdropWhile_around {b : Str} (hb : ∀ c ∈ b, isSpace c = true) (t : Str) :
    (t ++ b).rdropWhile isSpace = t.rdropWhile isSpace := by
  rw [List.rdropWhile, List.reverse_append,
    dropWhile_around fun c hc => hb c (List.mem_reverse.mp hc)]
  rfl

theorem bare_around {a b : Str} (ha : ∀ c ∈ a, isSpace c = true) (hb : ∀ c ∈ b, isSpace c = true)
    (t : Str) : bare (a ++ t ++ b) = bare t := by
  rw [bare, bare, List.append_assoc, dropWhile_around ha, List.dropWhile_append]
  split
  · rename_i hempty
    rw [List.isEmpty_iff.mp hempty, List.dropWhile_eq_nil_iff.mpr hb]
  · exact rdropWhile_around hb _

theorem bare_spaces (t : Str) : ∃ a b : Str, t = a ++ bare t ++ b ∧
    (∀ c ∈ a, isSpace c = true) ∧ ∀ c ∈ b, isSpace c = true := by
  refine ⟨t.takeWhile isSpace, (t.dropWhile isSpace).rtakeWhile isSpace, ?_,
    fun c hc => List.mem_takeWhile_imp hc, fun c hc => List.mem_rtakeWhile_imp hc⟩
  rw [List.append_assoc, bare, List.rdropWhile_append_rtakeWhile, List.takeWhile_append_dropWhile]

theorem helloReader_objects : @ObjectTexts helloReader := by
  refine @ObjectTexts.mk helloReader (fun a t b ha hb => ?_) fun text fields h => ?_
  · show (if bare (String.ofList (a ++ t ++ b)).toList = helloText then _ else none) = _
    rw [String.toList_ofList, bare_around ha hb]
    show _ = if bare (String.ofList t).toList = helloText then _ else none
    rw [String.toList_ofList]
  · by_cases hbare : bare text.toList = helloText
    · obtain ⟨a, b, htext, ha, hb⟩ := bare_spaces text.toList
      refine ⟨a, "\"summary\":\" hello \"".toList, b, ?_, ha, hb⟩
      rw [htext, hbare, List.append_assoc]
      rfl
    · have hnone : @JsonReader.parse helloReader text = none := if_neg hbare
      rw [hnone] at h
      cases h

/-- An answer in a code fence is read as without it. -/
theorem parse_survives_fenced :
    @parse helloReader
        ("```json\n" ++ "\x7b\"summary\":\" hello \"\x7d" ++ "\n```") =
      @parse helloReader "\x7b\"summary\":\" hello \"\x7d" := by
  refine (@parse_survives helloReader helloReader_objects "").2 "```json\n" _ "\n```"
    [("summary", .str " hello ")] (by decide +kernel) ?_ ?_ (by decide +kernel)
  · exact braceless_of_all rfl
  · exact braceless_of_all rfl

/-- An opening brace behind the last closing one is no start of a slice. -/
theorem parse_crossed_braces :
    ¬ ∃ c, @parse helloReader "\x7dx\x7b" = some c ∧ WellFormed c := by
  have hpanic : (@parse helloReader "\x7dx\x7b").isNone = true := by decide +kernel
  rintro ⟨c, hc, -⟩
  rw [hc] at hpanic
  cases hpanic

end YoinkCore.Inbox.Pipeline
