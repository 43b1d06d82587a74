import YoinkCore.Telegram.Normalize
import YoinkCore.Telegram.Pages
import YoinkCore.Telegram.Prose

/-!
# Rendering

The events of a CommonMark parser are rendered into a text and its entities: what a tag
pushes, which separators stand between blocks, and the entity a frame becomes at its end.
-/

namespace YoinkCore.Telegram

open Lib Text

/-! ## Events -/

/-- `Tag`, with what the renderer reads of it; a code block has the info of its fence. -/
inductive Tag where
  | paragraph
  | heading
  | blockQuote
  | codeBlock (info : Option Str)
  | list (number : Option Nat)
  | item
  | table
  | tableHead
  | tableRow
  | tableCell
  | emphasis
  | strong
  | strikethrough
  | link (destUrl : String)
  | image
  | other

inductive TagEnd where
  | paragraph
  | heading
  | blockQuote
  | codeBlock
  | list
  | item
  | table
  | tableHead
  | tableRow
  | tableCell
  | emphasis
  | strong
  | strikethrough
  | link
  | image
  | other
deriving DecidableEq

def Tag.toEnd : Tag → TagEnd
  | .paragraph => .paragraph
  | .heading => .heading
  | .blockQuote => .blockQuote
  | .codeBlock _ => .codeBlock
  | .list _ => .list
  | .item => .item
  | .table => .table
  | .tableHead => .tableHead
  | .tableRow => .tableRow
  | .tableCell => .tableCell
  | .emphasis => .emphasis
  | .strong => .strong
  | .strikethrough => .strikethrough
  | .link _ => .link
  | .image => .image
  | .other => .other

/-- `Event`; HTML comes as text, and both breaks are one. -/
inductive Event where
  | start (tag : Tag)
  | stop (tag : TagEnd)
  | text (t : Str)
  | code (t : Str)
  | lineBreak
  | rule
  | taskListMarker (checked : Bool)
  | footnoteReference (label : Str)
  | math (t : Str)

/-! ## The renderer -/

structure Frame where
  ending : TagEnd
  kind : Option EntityKind
  start : Nat
  extra : Option (String × String)

/-- The last of `frames` and of `lists` comes first. -/
structure Renderer where
  text : Str
  entityBytes : Nat
  offset : Nat
  frames : List Frame
  entities : List Entity
  lists : List (Option Nat)
  literalSpans : List (Nat × Nat)

namespace Renderer

def init : Renderer := ⟨[], 0, 0, [], [], [], []⟩

def push (r : Renderer) (t : Str) : Renderer :=
  { r with text := r.text ++ t, offset := r.offset + utf16Len t }

def trailing (r : Renderer) : Nat := (r.text.reverse.takeWhile (· = '\n')).length

def separate (r : Renderer) (count : Nat) : Renderer :=
  if r.text.isEmpty then r else r.push (List.replicate (count - r.trailing) '\n')

section

variable [Platform]

def entity (r : Renderer) (kind : EntityKind) (start stop : Nat)
    (extra : Option (String × String)) : Renderer :=
  if stop ≤ start then r
  else
    let e : Entity := ⟨kind, start, stop - start, extra⟩
    { r with
      entityBytes := r.entityBytes + (Platform.jsonBytes e.json).length
      entities := r.entities ++ [e] }

/-- A URL that may be linked, as it is printed. -/
def safeLink (raw : String) : Option String :=
  if 4096 < byteLen raw.toList then none
  else
    (Platform.parseUrl raw).bind fun url =>
      if (Platform.scheme url = "https" ∨ Platform.scheme url = "http" ∨
          Platform.scheme url = "mailto") ∧ Platform.username url = "" ∧
          Platform.password url = none then some url.asStr
      else none

omit [Platform] in
/-- The language a fence names, if it is a plain word. -/
def language (info : Option Str) : Option (String × String) :=
  info.bind fun info =>
    let word := (info.dropWhile isWhitespace).takeWhile (!isWhitespace ·)
    if byteLen word ≤ 64 ∧ (word.all fun c => isAlphanumeric c || c == '_' || c == '-' ||
        c == '+') ∧ word ≠ [] then some ("language", String.ofList word)
    else none

omit [Platform] in
def enter (r : Renderer) (tag : Tag) (kind : Option EntityKind)
    (extra : Option (String × String)) : Renderer :=
  { r with frames := ⟨tag.toEnd, kind, r.offset, extra⟩ :: r.frames }

omit [Platform] in
/-- The mark of an item; the number of the innermost list is counted up. -/
def mark (r : Renderer) : Renderer :=
  match r.lists with
  | some number :: lists =>
      { r with lists := some (min (number + 1) (2 ^ 64 - 1)) :: lists }.push
        ((toString number).toList ++ ". ".toList)
  | _ => r.push "• ".toList

def start (r : Renderer) (tag : Tag) : Renderer :=
  match tag with
  | .strong | .heading | .tableHead => r.enter tag (some .bold) none
  | .emphasis => r.enter tag (some .italic) none
  | .strikethrough => r.enter tag (some .strikethrough) none
  | .link destUrl =>
      let extra := (safeLink destUrl).map fun url => ("url", url)
      r.enter tag (extra.map fun _ => .textLink) extra
  | .blockQuote =>
      let kind := if r.frames.any (·.ending == .blockQuote) then none else some .blockquote
      (r.separate 2).enter tag kind none
  | .codeBlock info => (r.separate 2).enter tag (some .pre) (language info)
  | .table => (r.separate 2).enter tag (some .pre) none
  | .list number =>
      let r := r.separate 1
      { r with lists := number :: r.lists }.enter tag none none
  | .item =>
      let r := r.separate 1
      ((r.push (List.replicate (2 * (r.lists.length - 1)) ' ')).mark).enter tag none none
  | _ => r.enter tag none none

/-- The entity of a frame, up to the offset; a quotation ends before its line breaks. -/
def close (r : Renderer) (frame : Frame) : Renderer :=
  let r := match frame.kind with
    | some .blockquote =>
        r.entity .blockquote frame.start (max (r.offset - r.trailing) frame.start) frame.extra
    | some kind => r.entity kind frame.start r.offset frame.extra
    | none => r
  if frame.ending = .image then
    { r with literalSpans := r.literalSpans ++ [(frame.start, r.offset)] }
  else r

def stop (r : Renderer) (ending : TagEnd) : Renderer :=
  let r := match r.frames with
    | frame :: frames => { r with frames }.close frame
    | [] => r
  match ending with
  | .paragraph => r.separate (if r.lists.isEmpty then 2 else 1)
  | .heading | .codeBlock | .blockQuote | .table => r.separate 2
  | .list => { r with lists := r.lists.tail }.separate 2
  | .item => r.separate (if r.lists.length ≤ 1 then 2 else 1)
  | .tableRow | .tableHead => r.separate 1
  | .tableCell => r.push " | ".toList
  | _ => r

def step (r : Renderer) : Event → Renderer
  | .start tag => r.start tag
  | .stop ending => r.stop ending
  | .text t | .math t => r.push t
  | .code t =>
      let pushed := r.push t
      if pushed.frames.any (·.kind == some .pre) then pushed
      else pushed.entity .code r.offset pushed.offset none
  | .lineBreak => r.push "\n".toList
  | .rule => r.separate 2
  | .taskListMarker checked => r.push (if checked then "[x] " else "[ ] ").toList
  | .footnoteReference label => r.push ("[".toList ++ label ++ "]".toList)

/-- A label in bold, linked to its source. -/
def header (r : Renderer) : Option (Str × String) → Renderer
  | none => r
  | some (label, source) =>
      let r := r.push label
      let r := r.entity .bold 0 r.offset none
      let r := match safeLink source with
        | some url => r.entity .textLink 0 r.offset (some ("url", url))
        | none => r
      r.push "\n\n".toList

/-- The loop over the events, with the bound of what they may expand to. -/
def feed (r : Renderer) : List Event → Option Renderer
  | [] => some r
  | event :: events =>
      let r := r.step event
      if 4 * 1024 * 1024 < byteLen r.text + r.entityBytes then none else r.feed events

end

end Renderer

section

variable [Platform]

/-- `FormattedText::markdown` of the events of its body; an expansion beyond the bound is an
invalid input. -/
def markdown (alphanumeric : Char → Bool) (header : Option (Str × String))
    (events : List Event) : Option FormattedText :=
  ((Renderer.init.header header).feed events).map fun r =>
    let text := trimEnd '\n' r.text
    let entities := normalize r.entities (utf16Len text)
    ⟨cleanProse alphanumeric text entities r.literalSpans, entities⟩

end

/-! ## Code stands apart -/

namespace Renderer

/-- Code never stands in a block of code: it ends before an open block begins, and before
or after one that is closed. -/
structure Apart (r : Renderer) : Prop where
  ends : ∀ e ∈ r.entities, e.finish ≤ r.offset
  starts : ∀ f ∈ r.frames, f.start ≤ r.offset
  kinds : ∀ f ∈ r.frames, f.kind ≠ some .code
  ahead : ∀ f ∈ r.frames, f.kind = some .pre → ∀ e ∈ r.entities, e.kind = .code →
    e.finish ≤ f.start
  apart : ∀ a ∈ r.entities, ∀ b ∈ r.entities, a.kind = .code → b.kind = .pre →
    a.finish ≤ b.offset ∨ b.finish ≤ a.offset

theorem apart_init : Apart init :=
  ⟨by simp [init], by simp [init], by simp [init], by simp [init], by simp [init]⟩

variable {r : Renderer}

theorem Apart.push (h : Apart r) (t : Str) : Apart (r.push t) where
  ends e he := (h.ends e he).trans (Nat.le_add_right _ _)
  starts f hf := (h.starts f hf).trans (Nat.le_add_right _ _)
  kinds := h.kinds
  ahead := h.ahead
  apart := h.apart

theorem Apart.separate (h : Apart r) (count : Nat) : Apart (r.separate count) := by
  unfold Renderer.separate
  split
  · exact h
  · exact h.push _

theorem Apart.withLists (h : Apart r) (lists : List (Option Nat)) : Apart { r with lists } :=
  ⟨h.ends, h.starts, h.kinds, h.ahead, h.apart⟩

theorem Apart.withLiterals (h : Apart r) (literalSpans : List (Nat × Nat)) :
    Apart { r with literalSpans } := ⟨h.ends, h.starts, h.kinds, h.ahead, h.apart⟩

theorem Apart.enter (h : Apart r) (tag : Tag) {kind : Option EntityKind} (hk : kind ≠ some .code)
    (extra : Option (String × String)) :
    Apart (r.enter tag kind extra) where
  ends := h.ends
  starts f hf := by
    rcases List.mem_cons.mp hf with rfl | hf
    · exact Nat.le_refl _
    · exact h.starts f hf
  kinds f hf := by
    rcases List.mem_cons.mp hf with rfl | hf
    · exact hk
    · exact h.kinds f hf
  ahead f hf hp e he hc := by
    rcases List.mem_cons.mp hf with rfl | hf
    · exact h.ends e he
    · exact h.ahead f hf hp e he hc
  apart := h.apart

theorem Apart.mark (h : Apart r) : Apart r.mark := by
  unfold Renderer.mark
  split
  · exact (h.withLists _).push _
  · exact h.push _

section

variable [Platform]

/-- An entity is added: a block of code behind all code so far, or code where no block of
code is open, behind all that are closed. -/
theorem Apart.entity (h : Apart r) {kind : EntityKind} {start stop : Nat}
    {extra : Option (String × String)} (hstop : stop ≤ r.offset)
    (hpre : kind = .pre → ∀ e ∈ r.entities, e.kind = .code → e.finish ≤ start)
    (hcode : kind = .code → (∀ e ∈ r.entities, e.kind = .pre → e.finish ≤ start) ∧
      ∀ f ∈ r.frames, f.kind ≠ some .pre) : Apart (r.entity kind start stop extra) := by
  unfold Renderer.entity
  split
  · exact h
  rename_i hlt
  have hfinish : Entity.finish ⟨kind, start, stop - start, extra⟩ = stop := by
    show start + (stop - start) = stop
    omega
  have hmem : ∀ {e : Entity}, e ∈ r.entities ++ [(⟨kind, start, stop - start, extra⟩ : Entity)] →
      e ∈ r.entities ∨ e = ⟨kind, start, stop - start, extra⟩ := fun he =>
    (List.mem_append.mp he).imp id List.mem_singleton.mp
  refine ⟨fun e he => ?_, h.starts, h.kinds, fun f hf hp e he hc => ?_, fun a ha b hb hc hp => ?_⟩
  · rcases hmem he with he | rfl
    · exact h.ends e he
    · rw [hfinish]
      exact hstop
  · rcases hmem he with he | rfl
    · exact h.ahead f hf hp e he hc
    · exact absurd hp ((hcode hc).2 f hf)
  · rcases hmem ha with ha | rfl <;> rcases hmem hb with hb | rfl
    · exact h.apart a ha b hb hc hp
    · exact .inl (hpre hp a ha hc)
    · exact .inr ((hcode hc).1 b hb hp)
    · cases hc.symm.trans hp

theorem Apart.close {frame : Frame} {frames : List Frame}
    (h : Apart { r with frames := frame :: frames }) : Apart ({ r with frames }.close frame) := by
  have hrest : Apart { r with frames } := ⟨h.ends,
    fun f hf => h.starts f (List.mem_cons_of_mem _ hf),
    fun f hf => h.kinds f (List.mem_cons_of_mem _ hf),
    fun f hf => h.ahead f (List.mem_cons_of_mem _ hf), h.apart⟩
  have hstart : frame.start ≤ r.offset := h.starts frame List.mem_cons_self
  have hpre := h.ahead frame List.mem_cons_self
  have hkind := h.kinds frame List.mem_cons_self
  have hclosed : Apart (match frame.kind with
      | some .blockquote => { r with frames }.entity .blockquote frame.start
          (max (r.offset - { r with frames }.trailing) frame.start) frame.extra
      | some kind => { r with frames }.entity kind frame.start r.offset frame.extra
      | none => { r with frames }) := by
    split
    · exact hrest.entity (max_le (Nat.sub_le _ _) hstart) nofun nofun
    · rename_i kind _ hk
      refine hrest.entity (Nat.le_refl _) (fun hp => hpre (hk.trans (congrArg some hp))) ?_
      exact fun hc => absurd (hk.trans (congrArg some hc)) hkind
    · exact hrest
  unfold Renderer.close
  dsimp only
  split
  · exact hclosed.withLiterals _
  · exact hclosed

theorem Apart.stop (h : Apart r) (ending : TagEnd) : Apart (r.stop ending) := by
  have hclosed : Apart (match r.frames with
      | frame :: frames => { r with frames }.close frame
      | [] => r) := by
    split
    · rename_i frame frames hf
      refine Apart.close ?_
      rw [← hf]
      exact h
    · exact h
  unfold Renderer.stop
  dsimp only
  cases ending
  case list => exact (hclosed.withLists _).separate 2
  case tableCell => exact hclosed.push _
  all_goals first | exact hclosed.separate _ | exact hclosed

theorem Apart.start (h : Apart r) (tag : Tag) : Apart (r.start tag) := by
  cases tag with
  | link destUrl =>
      refine h.enter _ ?_ _
      cases safeLink destUrl <;> simp
  | blockQuote =>
      refine (h.separate 2).enter _ ?_ _
      split <;> simp
  | codeBlock info | table => exact (h.separate 2).enter _ (by simp) _
  | list number => exact ((h.separate 1).withLists _).enter _ (by simp) _
  | item => exact (((h.separate 1).push _).mark).enter _ (by simp) _
  | _ => exact h.enter _ (by simp) _

theorem Apart.step (h : Apart r) (event : Event) : Apart (r.step event) := by
  cases event with
  | start tag => exact h.start tag
  | stop ending => exact h.stop ending
  | code t =>
      unfold Renderer.step
      dsimp only
      split
      · exact h.push t
      · rename_i hopen
        refine (h.push t).entity (Nat.le_refl _) nofun fun _ => ⟨fun e he _ => h.ends e he, ?_⟩
        exact fun f hf hp => hopen (List.any_eq_true.mpr ⟨f, hf, by simp [hp]⟩)
  | rule => exact h.separate 2
  | _ => exact h.push _

theorem apart_header (header : Option (Str × String)) : Apart (init.header header) := by
  unfold Renderer.header
  split
  · exact apart_init
  · rename_i label source
    have hbold : Apart ((init.push label).entity .bold 0 (init.push label).offset none) :=
      (apart_init.push label).entity (Nat.le_refl _) nofun nofun
    dsimp only
    split
    · exact (hbold.entity (Nat.le_refl _) (by nofun) (by nofun)).push _
    · exact hbold.push _

/-- What is rendered of a header and events. -/
def run (header : Option (Str × String)) (events : List Event) : Renderer :=
  events.foldl step (init.header header)

/-- Whatever the events are, code stands apart. -/
theorem apart_run (header : Option (Str × String)) (events : List Event) :
    Apart (run header events) := by
  suffices h : ∀ r, Apart r → Apart (events.foldl step r) from h _ (apart_header header)
  induction events with
  | nil => exact fun r h => h
  | cons event events ih => exact fun r h => ih _ (h.step event)

/-- The loop that is bounded does the same steps. -/
theorem feed_eq_some {r' : Renderer} {events : List Event} (h : r.feed events = some r') :
    r' = events.foldl step r := by
  induction events generalizing r with
  | nil => exact (Option.some.inj h).symm
  | cons event events ih =>
      rw [feed] at h
      split at h
      · cases h
      · exact ih h

end

end Renderer

section

variable [Platform]

omit [Platform] in
/-- What is not code is kept from code. -/
theorem covers_protectedFor_code {entities : List Entity} {kind : EntityKind} {e : Entity}
    {x : Nat} (he : e ∈ entities) (hc : e.isCode = true) (hx : e.covers x)
    (hk : kind ≠ .code ∧ kind ≠ .pre) : Covers (protectedFor entities kind) x := by
  have hprot : ∀ links, Covers (protectedSpans entities links) x := fun links =>
    covers_protectedSpans.mpr ⟨e, he, by rw [isProtected, hc, Bool.true_or], hx⟩
  cases kind with
  | code => exact absurd rfl hk.1
  | pre => exact absurd rfl hk.2
  | _ => exact hprot _

/-- **Entities that may stand together.** For all that the renderer makes of events, and
every limit: nothing of another type meets code in the result, and no quotation meets a link
or code; every entity is not empty and within the limit; and an entity of a type with its
attributes covers in the result what one covered before, up to the limit, but for the
positions that are protected from the type. -/
theorem normalized_entities (header : Option (Str × String)) (events : List Event)
    (limit : Nat) :
    (∀ a ∈ normalize (Renderer.run header events).entities limit,
      ∀ b ∈ normalize (Renderer.run header events).entities limit,
      a.isCode = true → a.kind ≠ b.kind → ∀ x, ¬ (a.covers x ∧ b.covers x)) ∧
    (∀ a ∈ normalize (Renderer.run header events).entities limit,
      ∀ b ∈ normalize (Renderer.run header events).entities limit,
      a.kind = .blockquote → isProtected true b = true → ∀ x, ¬ (a.covers x ∧ b.covers x)) ∧
    (∀ e ∈ normalize (Renderer.run header events).entities limit,
      0 < e.length ∧ e.finish ≤ limit) ∧
    ∀ (kind : EntityKind) (extra : Option (String × String)) (x : Nat),
      (∃ e ∈ normalize (Renderer.run header events).entities limit,
          e.kind = kind ∧ e.extra = extra ∧ e.covers x) ↔
        (∃ e ∈ (Renderer.run header events).entities,
          e.kind = kind ∧ e.extra = extra ∧ e.covers x) ∧ x < limit ∧
          ¬ Covers (protectedFor (Renderer.run header events).entities kind) x := by
  have hr := Renderer.apart_run header events
  revert hr
  generalize Renderer.run header events = r
  intro hr
  have hsource : ∀ {e : Entity} {x}, e ∈ normalize r.entities limit → e.covers x →
      (∃ e' ∈ r.entities, e'.kind = e.kind ∧ e'.covers x) ∧
        ¬ Covers (protectedFor r.entities e.kind) x := by
    intro e x he hx
    obtain ⟨⟨e', he', hkind, -, hx'⟩, -, hn⟩ :=
      (covers_normalize e.kind e.extra x).mp ⟨e, he, rfl, rfl, hx⟩
    exact ⟨⟨e', he', hkind, hx'⟩, hn⟩
  refine ⟨?_, ?_, fun e he => normalize_bounds he, covers_normalize⟩
  · rintro a ha b hb hcode hne x ⟨hax, hbx⟩
    obtain ⟨⟨a', ha', hak, hax'⟩, -⟩ := hsource ha hax
    obtain ⟨⟨b', hb', hbk, hbx'⟩, hbn⟩ := hsource hb hbx
    have hcode' : a'.isCode = true := by rwa [Entity.isCode, hak]
    have hboth : (b.kind = .code ∨ b.kind = .pre) := by
      by_contra hn
      rw [not_or] at hn
      exact hbn (covers_protectedFor_code ha' hcode' hax' hn)
    have hapart : ∀ {c p : Entity}, c ∈ r.entities → p ∈ r.entities → c.kind = .code →
        p.kind = .pre → c.covers x → p.covers x → False := by
      intro c p hc hp hck hpk hcx hpx
      rcases hr.apart c hc p hp hck hpk with h | h
      · exact absurd (hcx.2.trans_le h) (Nat.not_lt.mpr hpx.1)
      · exact absurd (hpx.2.trans_le h) (Nat.not_lt.mpr hcx.1)
    rw [Entity.isCode, Bool.or_eq_true, beq_iff_eq, beq_iff_eq] at hcode
    rcases hcode with hac | hap <;> rcases hboth with hbc | hbp
    · exact hne (hac.trans hbc.symm)
    · exact hapart ha' hb' (hak.trans hac) (hbk.trans hbp) hax' hbx'
    · exact hapart hb' ha' (hbk.trans hbc) (hak.trans hap) hbx' hax'
    · exact hne (hap.trans hbp.symm)
  · rintro a ha b hb hquote hprot x ⟨hax, hbx⟩
    obtain ⟨-, hn⟩ := hsource ha hax
    obtain ⟨⟨b', hb', hbk, hbx'⟩, -⟩ := hsource hb hbx
    rw [hquote] at hn
    refine hn (covers_protectedSpans.mpr ⟨b', hb', ?_, hbx'⟩)
    rwa [isProtected, Entity.isCode, hbk]

variable {t : FormattedText} {alphanumeric : Char → Bool} {events : List Event}

/-- A message is what the renderer made of its events, normalised to its length. -/
theorem markdown_eq_some {header : Option (Str × String)}
    (h : markdown alphanumeric header events = some t) :
    t.entities = normalize (Renderer.run header events).entities (utf16Len t.text) := by
  obtain ⟨r, hr, rfl⟩ := Option.map_eq_some_iff.mp h
  obtain rfl : r = Renderer.run header events := Renderer.feed_eq_some hr
  dsimp only
  rw [cleanProse, utf16Len_cleanFrom]

/-- A message has pages for every limit that is asserted. -/
theorem markdown_paged {header : Option (Str × String)}
    (h : markdown alphanumeric header events = some t) {limit : Nat} (hl : 2 ≤ limit)
    (hu : limit ≤ 4096) :
    (∀ e ∈ t.entities, 0 < e.length ∧ e.finish ≤ utf16Len t.text) ∧
      ∃ pages, (∀ fuel, t.text.length + limit ≤ fuel → t.pages fuel limit = some pages) ∧
        Paged limit t pages ∧
        ∀ e ∈ t.entities, pieces e 0 pages = List.range' e.offset e.length := by
  have hin : ∀ e ∈ t.entities, 0 < e.length ∧ e.finish ≤ utf16Len t.text := by
    rw [markdown_eq_some h]
    exact fun e he => normalize_bounds he
  obtain ⟨pages, hrun, hpaged⟩ := pages_paged hl hu t
  refine ⟨hin, pages, hrun, hpaged, fun e he => ?_⟩
  have hle := (hin e he).2
  rw [pieces_eq (by rw [hpaged.text, Nat.zero_add]; exact hle), Nat.max_zero,
    show e.finish - e.offset = e.length from Nat.add_sub_cancel_left ..]

end

end YoinkCore.Telegram
