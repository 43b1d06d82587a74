import YoinkCore.Lib.Slices
import YoinkCore.Storage.Model
import YoinkCore.Telegram.Entities

/-!
# Statistics in chunks

A summary of a chat is sent in chunks of markup: a bold heading, and a piece of the body that
is preformatted. The delivery reads the markup of a chunk back into a text with entities. It
counts UTF-16 units, where the chunks were cut by bytes.
-/

namespace YoinkCore.Stats

open Lib Text Telegram
open Storage (StoreError)

/-! ## Chunks -/

/-- `str::replace` of a character. -/
def replaceChar (c : Char) (s : String) (t : Str) : Str :=
  t.flatMap fun d => if d = c then s.toList else [d]

def escape (t : Str) : Str :=
  replaceChar '>' "&gt;" (replaceChar '<' "&lt;" (replaceChar '&' "&amp;" t))

def wrap (heading chunk : Str) : Str :=
  "<b>".toList ++ heading ++ "</b>\n<pre>".toList ++ chunk ++ "</pre>".toList

/-- The chunks of what is left of the body, after the characters of `chunk`. -/
def chunksFrom (heading : Str) : Str → Str → List Str
  | chunk, [] => if chunk.isEmpty then [] else [wrap heading chunk]
  | chunk, c :: body =>
      let escaped := escape [c]
      if byteLen chunk + byteLen escaped > 3400 then
        wrap heading chunk :: chunksFrom heading escaped body
      else chunksFrom heading (chunk ++ escaped) body

def chunks (heading body : Str) : List Str := chunksFrom heading [] body

/-! ## Reading them back -/

/-- What was read of a markup: the text and its UTF-16 length, the tags that are open with
where they were opened, and the entities that are closed. -/
structure Reading where
  plain : Str
  offset : Nat
  stack : List (Str × Nat)
  entities : List Entity
deriving DecidableEq

def Reading.start : Reading := ⟨[], 0, [], []⟩

/-- An entity cannot begin in another one, and is not empty. -/
def Reading.tag (r : Reading) (tag : Str) : Option (Except StoreError Reading) :=
  if tag = "b".toList ∨ tag = "pre".toList then
    if r.stack ≠ [] then some (.error .invalidInput)
    else some (.ok { r with stack := (tag, r.offset) :: r.stack })
  else if tag = "/b".toList ∨ tag = "/pre".toList then
    match r.stack with
    | [] => some (.error .invalidInput)
    | (opened, start) :: stack =>
        (sliceFrom tag 1).map fun name =>
          if opened ≠ name ∨ r.offset = start then .error .invalidInput
          else
            let kind := if opened = "b".toList then .bold else .pre
            .ok { r with
              stack, entities := r.entities ++ [⟨kind, start, r.offset - start, none⟩] }
  else some (.error .invalidInput)

def Reading.push (r : Reading) (c : Char) : Except StoreError Reading :=
  if r.offset + lenUtf16 c > 4096 then .error .invalidInput
  else .ok { r with plain := r.plain ++ [c], offset := r.offset + lenUtf16 c }

/-- The character an escape stands for. -/
def unescaped (t : Str) : Except StoreError Char :=
  if t = "&amp;".toList then .ok '&'
  else if t = "&lt;".toList then .ok '<'
  else if t = "&gt;".toList then .ok '>'
  else if t = "&quot;".toList then .ok '"'
  else .error .invalidInput

/-- One turn of the loop of `stats_html`, for a rest that begins with `c`: the rest it leaves.
It is `none` where a slice would not begin and end at characters. -/
def Reading.turn (r : Reading) (c : Char) (rest : Str) :
    Option (Except StoreError (Str × Reading)) :=
  if c = '<' then
    match byteFind (· = '>') rest with
    | none => some (.error .invalidInput)
    | some stop =>
        (slice rest 1 stop).bind fun tag =>
          match r.tag tag with
          | none => none
          | some (.error e) => some (.error e)
          | some (.ok r) => (sliceFrom rest (stop + 1)).map fun rest => .ok (rest, r)
  else if c = '&' then
    match byteFind (· = ';') rest with
    | none => some (.error .invalidInput)
    | some stop =>
        (slice rest 0 (stop + 1)).bind fun name =>
          match unescaped name with
          | .error e => some (.error e)
          | .ok c => (sliceFrom rest (stop + 1)).map fun rest => (r.push c).map (rest, ·)
  else (sliceFrom rest c.utf8Size).map fun rest => (r.push c).map (rest, ·)

/-- The loop of `stats_html`, for at most so many turns. -/
def Reading.loop : Nat → Str → Reading → Option (Except StoreError Reading)
  | _, [], r => some (.ok r)
  | 0, _ :: _, _ => none
  | turns + 1, c :: rest, r =>
      match r.turn c (c :: rest) with
      | none => none
      | some (.error e) => some (.error e)
      | some (.ok (rest, r)) => Reading.loop turns rest r

/-- `stats_html`: a turn takes at least one character. -/
def statsHtml (markup : Str) : Option (Except StoreError FormattedText) :=
  (Reading.loop markup.length markup .start).map fun r => do
    let r ← r
    if r.stack ≠ [] ∨ r.plain = [] then .error .invalidInput else .ok ⟨r.plain, r.entities⟩

/-! ## What a turn does -/

theorem byteLen_singleton (c : Char) : byteLen [c] = c.utf8Size := Nat.add_zero _

namespace Reading

variable {r : Reading} {c : Char}

theorem turn_tag {tag : Str} (htag : ∀ d ∈ tag, decide (d = '>') = false) (b : Str) :
    r.turn '<' ('<' :: (tag ++ '>' :: b)) = (r.tag tag).map fun r => r.map (b, ·) := by
  have hfind : byteFind (· = '>') ('<' :: (tag ++ '>' :: b)) = some (byteLen ('<' :: tag)) :=
    byteFind_append (a := '<' :: tag) (List.forall_mem_cons.mpr ⟨by decide, htag⟩) (by decide) b
  have hslice : slice ('<' :: (tag ++ '>' :: b)) 1 (byteLen ('<' :: tag)) = some tag := by
    rw [byteLen_cons]
    exact slice_behind rfl tag ('>' :: b)
  have hrest : sliceFrom ('<' :: (tag ++ '>' :: b)) (byteLen ('<' :: tag) + 1) = some b :=
    sliceFrom_behind rfl ('<' :: tag) b
  rw [turn, if_pos rfl, hfind]
  simp only [hslice, hrest, Option.bind_some, Option.map_some]
  cases r.tag tag with
  | none => rfl
  | some x => cases x <;> rfl

theorem turn_unclosed {rest : Str} (h : ∀ d ∈ rest, decide (d = '>') = false) :
    r.turn '<' ('<' :: rest) = some (.error .invalidInput) := by
  rw [turn, if_pos rfl, byteFind_of_forall (List.forall_mem_cons.mpr ⟨by decide, h⟩)]

theorem turn_escape {name : Str} (hname : ∀ d ∈ name, decide (d = ';') = false) (b : Str) :
    r.turn '&' ('&' :: (name ++ ';' :: b)) =
      some ((unescaped ('&' :: (name ++ [';']))).bind fun c => (r.push c).map (b, ·)) := by
  have hfind : byteFind (· = ';') ('&' :: (name ++ ';' :: b)) = some (byteLen ('&' :: name)) :=
    byteFind_append (a := '&' :: name) (List.forall_mem_cons.mpr ⟨by decide, hname⟩) (by decide) b
  have hslice : slice ('&' :: (name ++ ';' :: b)) 0 (byteLen ('&' :: name) + 1) =
      some ('&' :: (name ++ [';'])) :=
    slice_through rfl ('&' :: name) b
  have hrest : sliceFrom ('&' :: (name ++ ';' :: b)) (byteLen ('&' :: name) + 1) = some b :=
    sliceFrom_behind rfl ('&' :: name) b
  rw [turn, if_neg (by decide), if_pos rfl, hfind]
  simp only [hslice, hrest, Option.bind_some, Option.map_some]
  cases unescaped ('&' :: (name ++ [';'])) <;> rfl

theorem turn_unended {rest : Str} (h : ∀ d ∈ rest, decide (d = ';') = false) :
    r.turn '&' ('&' :: rest) = some (.error .invalidInput) := by
  rw [turn, if_neg (by decide), if_pos rfl,
    byteFind_of_forall (List.forall_mem_cons.mpr ⟨by decide, h⟩)]

theorem turn_plain (hlt : c ≠ '<') (hamp : c ≠ '&') (rest : Str) :
    r.turn c (c :: rest) = some ((r.push c).map (rest, ·)) := by
  have hrest : sliceFrom (c :: rest) c.utf8Size = some rest := by
    have h := sliceFrom_append [c] rest
    rwa [byteLen_singleton] at h
  rw [turn, if_neg hlt, if_neg hamp, hrest]
  rfl

theorem tag_isSome (r : Reading) (tag : Str) : (r.tag tag).isSome = true := by
  unfold Reading.tag
  by_cases hopen : tag = "b".toList ∨ tag = "pre".toList
  · rw [if_pos hopen]
    split <;> rfl
  rw [if_neg hopen]
  by_cases hclose : tag = "/b".toList ∨ tag = "/pre".toList
  · rw [if_pos hclose]
    have hname : (sliceFrom tag 1).isSome = true := by
      rcases hclose with rfl | rfl <;> rfl
    cases r.stack with
    | nil => rfl
    | cons top stack =>
        rw [Option.isSome_map]
        exact hname
  · rw [if_neg hclose]
    rfl

/-- **A turn.** Its slices begin and end at characters, and what it leaves is shorter. -/
theorem turn_total (r : Reading) (c : Char) (rest : Str) :
    ∃ x, r.turn c (c :: rest) = some x ∧
      ∀ rest' r', x = .ok (rest', r') → rest'.length ≤ rest.length := by
  by_cases hlt : c = '<'
  · subst hlt
    rcases first_cases (fun d => decide (d = '>')) rest with hnone | ⟨tag, d, b, rfl, htag, hd⟩
    · exact ⟨_, turn_unclosed hnone, fun _ _ h => nomatch h⟩
    · obtain rfl := of_decide_eq_true hd
      obtain ⟨x, hx⟩ := Option.isSome_iff_exists.mp (r.tag_isSome tag)
      refine ⟨x.map (b, ·), by rw [turn_tag htag, hx]; rfl, fun rest' r' h => ?_⟩
      cases x with
      | error e => cases h
      | ok r'' =>
          cases h
          rw [List.length_append, List.length_cons]
          omega
  by_cases hamp : c = '&'
  · subst hamp
    rcases first_cases (fun d => decide (d = ';')) rest with hnone | ⟨name, d, b, rfl, hname, hd⟩
    · exact ⟨_, turn_unended hnone, fun _ _ h => nomatch h⟩
    · obtain rfl := of_decide_eq_true hd
      refine ⟨_, turn_escape hname b, fun rest' r' h => ?_⟩
      cases hu : unescaped ('&' :: (name ++ [';'])) with
      | error e =>
          rw [hu] at h
          cases h
      | ok c =>
          rw [hu] at h
          cases hp : r.push c with
          | error e =>
              rw [Except.bind, hp] at h
              cases h
          | ok r'' =>
              rw [Except.bind, hp] at h
              cases h
              rw [List.length_append, List.length_cons]
              omega
  · refine ⟨_, turn_plain hlt hamp rest, fun rest' r' h => ?_⟩
    cases hp : r.push c with
    | error e =>
        rw [hp] at h
        cases h
    | ok r'' =>
        rw [hp] at h
        cases h
        exact Nat.le_refl _

/-! ## The loop -/

theorem loop_isSome (turns : Nat) : ∀ (t : Str) (r : Reading), t.length ≤ turns →
    (loop turns t r).isSome = true := by
  induction turns with
  | zero =>
      intro t r h
      obtain rfl := List.eq_nil_of_length_eq_zero (Nat.le_zero.mp h)
      rfl
  | succ turns ih =>
      intro t r h
      cases t with
      | nil => rfl
      | cons c rest =>
          obtain ⟨x, hx, hshort⟩ := turn_total r c rest
          rw [loop, hx]
          cases x with
          | error e => rfl
          | ok next =>
              have hle := hshort next.1 next.2 rfl
              exact ih next.1 next.2 (Nat.le_trans hle (Nat.le_of_succ_le_succ h))

theorem loop_nil (turns : Nat) (r : Reading) : loop turns [] r = some (.ok r) := by
  cases turns <;> rfl

/-- More turns than characters make no difference. -/
theorem loop_congr (n : Nat) : ∀ (m : Nat) (t : Str) (r : Reading), t.length ≤ n →
    t.length ≤ m → loop n t r = loop m t r := by
  induction n with
  | zero =>
      intro m t r hn hm
      obtain rfl := List.eq_nil_of_length_eq_zero (Nat.le_zero.mp hn)
      rw [loop_nil, loop_nil]
  | succ n ih =>
      intro m t r hn hm
      rcases t with _ | ⟨c, rest⟩
      · rw [loop_nil, loop_nil]
      rcases m with _ | m
      · exact absurd hm (Nat.not_succ_le_zero _)
      obtain ⟨x, hx, hshort⟩ := turn_total r c rest
      rw [loop, loop, hx]
      cases x with
      | error e => rfl
      | ok next =>
          have hle := hshort next.1 next.2 rfl
          exact ih m next.1 next.2 (Nat.le_trans hle (Nat.le_of_succ_le_succ hn))
            (Nat.le_trans hle (Nat.le_of_succ_le_succ hm))

/-- What reading a rest gives. -/
def read (t : Str) (r : Reading) : Option (Except StoreError Reading) := loop t.length t r

theorem read_of_turn {r r' : Reading} {c : Char} {rest rest' : Str}
    (h : r.turn c (c :: rest) = some (.ok (rest', r'))) : read (c :: rest) r = read rest' r' := by
  obtain ⟨x, hx, hshort⟩ := turn_total r c rest
  rw [hx] at h
  have hle := hshort rest' r' (Option.some.inj h)
  rw [read, List.length_cons, loop, hx, Option.some.inj h]
  exact loop_congr _ _ _ _ hle (Nat.le_refl _)

theorem read_tag {r r' : Reading} {tag : Str} (htag : ∀ d ∈ tag, decide (d = '>') = false)
    (h : r.tag tag = some (.ok r')) (b : Str) :
    read ('<' :: (tag ++ '>' :: b)) r = read b r' :=
  read_of_turn (by rw [turn_tag htag, h]; rfl)

/-- The text goes on with a piece. -/
def append (r : Reading) (piece : Str) : Reading :=
  { r with plain := r.plain ++ piece, offset := r.offset + utf16Len piece }

theorem push_of_le {r : Reading} {c : Char} (h : r.offset + lenUtf16 c ≤ 4096) :
    r.push c = .ok (r.append [c]) := by
  have hlen : utf16Len [c] = lenUtf16 c := Nat.add_zero _
  rw [push, if_neg (Nat.not_lt.mpr h), append, hlen]

end Reading

/-! ## Escapes -/

theorem escape_append (s t : Str) : escape (s ++ t) = escape s ++ escape t := by
  simp only [escape, replaceChar, List.flatMap_append]

theorem escape_cons (c : Char) (t : Str) : escape (c :: t) = escape [c] ++ escape t :=
  escape_append [c] t

theorem escape_plain {c : Char} (hamp : c ≠ '&') (hlt : c ≠ '<') (hgt : c ≠ '>') :
    escape [c] = [c] := by
  simp only [escape, replaceChar, List.flatMap_singleton, if_neg hamp, if_neg hlt, if_neg hgt]

/-- An escape is one character to the reader, and it has as many bytes at least as the
character has UTF-16 units. -/
theorem read_escape (c : Char) {r : Reading} (h : r.offset + lenUtf16 c ≤ 4096) (rest : Str) :
    Reading.read (escape [c] ++ rest) r = Reading.read rest (r.append [c]) := by
  have hname : ∀ name : Str, (∀ d ∈ name, decide (d = ';') = false) →
      unescaped ('&' :: (name ++ [';'])) = .ok c →
      Reading.read ('&' :: (name ++ ';' :: rest)) r = Reading.read rest (r.append [c]) := by
    intro name hsemi hu
    refine Reading.read_of_turn ?_
    rw [Reading.turn_escape hsemi, hu, Except.bind, Reading.push_of_le h]
    rfl
  by_cases hamp : c = '&'
  · subst hamp
    exact hname "amp".toList (none_of_all rfl) rfl
  by_cases hlt : c = '<'
  · subst hlt
    exact hname "lt".toList (none_of_all rfl) rfl
  by_cases hgt : c = '>'
  · subst hgt
    exact hname "gt".toList (none_of_all rfl) rfl
  rw [escape_plain hamp hlt hgt]
  show Reading.read (c :: rest) r = Reading.read rest (r.append [c])
  refine Reading.read_of_turn ?_
  rw [Reading.turn_plain hlt hamp, Reading.push_of_le h]
  rfl

/-- A piece of the body is read back as it was. -/
theorem read_escaped (piece : Str) : ∀ {r : Reading}, r.offset + utf16Len piece ≤ 4096 →
    ∀ rest, Reading.read (escape piece ++ rest) r = Reading.read rest (r.append piece) := by
  induction piece with
  | nil =>
      intro r _ rest
      have hnil : r.append [] = r := by
        rw [Reading.append, List.append_nil, utf16Len_nil, Nat.add_zero]
      rw [hnil]
      rfl
  | cons c piece ih =>
      intro r h rest
      rw [utf16Len_cons] at h
      have hstep : (r.append [c]).append piece = r.append (c :: piece) := by
        simp only [Reading.append, utf16Len_cons, utf16Len_nil, List.append_assoc,
          List.singleton_append, Nat.add_assoc, Nat.zero_add]
      have hlen : (r.append [c]).offset = r.offset + lenUtf16 c := rfl
      rw [escape_cons, List.append_assoc, read_escape c (by omega), ih (by omega), hstep]

/-- The escape of a character has as many bytes at least as the character has UTF-16 units. -/
theorem byteLen_escape_singleton (c : Char) :
    lenUtf16 c ≤ byteLen (escape [c]) ∧ byteLen (escape [c]) ≤ 5 := by
  by_cases hamp : c = '&'
  · subst hamp
    decide
  by_cases hlt : c = '<'
  · subst hlt
    decide
  by_cases hgt : c = '>'
  · subst hgt
    decide
  rw [escape_plain hamp hlt hgt, byteLen_singleton]
  exact ⟨lenUtf16_le_utf8Size c, Nat.le_succ_of_le c.utf8Size_le_four⟩

theorem utf16Len_le_escape (piece : Str) : utf16Len piece ≤ byteLen (escape piece) := by
  induction piece with
  | nil => exact Nat.le_refl 0
  | cons c piece ih =>
      rw [escape_cons, byteLen_append, utf16Len_cons]
      exact Nat.add_le_add (byteLen_escape_singleton c).1 ih

theorem escape_singleton_ne_nil (c : Char) : escape [c] ≠ [] := by
  intro h
  have hpos := (lenUtf16_bounds c).1
  have hle := (byteLen_escape_singleton c).1
  rw [h] at hle
  exact absurd (Nat.le_trans hpos hle) (by decide)

theorem isEmpty_escape (piece : Str) : (escape piece).isEmpty = piece.isEmpty := by
  cases piece with
  | nil => rfl
  | cons c piece =>
      rw [escape_cons]
      cases he : escape [c] with
      | nil => exact absurd he (escape_singleton_ne_nil c)
      | cons d t => rfl

/-! ## The pieces of a body -/

/-- A piece fills a chunk. -/
def Piece (piece : Str) : Prop := piece ≠ [] ∧ byteLen (escape piece) ≤ 3400

/-- The chunks wrap the pieces of the body, which stand behind each other. -/
theorem chunksFrom_pieces (heading : Str) (body : Str) : ∀ piece : Str,
    byteLen (escape piece) ≤ 3400 →
    ∃ pieces : List Str, chunksFrom heading (escape piece) body =
        pieces.map (fun piece => wrap heading (escape piece)) ∧
      pieces.flatten = piece ++ body ∧ ∀ piece ∈ pieces, Piece piece := by
  induction body with
  | nil =>
      intro piece h
      rw [chunksFrom, isEmpty_escape]
      rcases piece with _ | ⟨c, piece⟩
      · exact ⟨[], rfl, rfl, fun _ h => absurd h List.not_mem_nil⟩
      · refine ⟨[c :: piece], rfl, ?_, ?_⟩
        · rw [List.flatten_singleton, List.append_nil]
        · rintro other hother
          obtain rfl := List.mem_singleton.mp hother
          exact ⟨List.cons_ne_nil c piece, h⟩
  | cons c body ih =>
      intro piece h
      rw [chunksFrom]
      by_cases hlong : byteLen (escape piece) + byteLen (escape [c]) > 3400
      · rw [if_pos hlong]
        have hone := (byteLen_escape_singleton c).2
        obtain ⟨pieces, hchunks, hflat, hall⟩ := ih [c] (Nat.le_trans hone (by decide))
        refine ⟨piece :: pieces, by rw [hchunks, List.map_cons], ?_, ?_⟩
        · rw [List.flatten_cons, hflat, List.singleton_append]
        · refine List.forall_mem_cons.mpr ⟨⟨?_, h⟩, hall⟩
          rintro rfl
          have hzero : byteLen (escape []) = 0 := rfl
          omega
      · rw [if_neg hlong]
        have hfits : byteLen (escape (piece ++ [c])) ≤ 3400 := by
          rw [escape_append, byteLen_append]
          omega
        obtain ⟨pieces, hchunks, hflat, hall⟩ := ih (piece ++ [c]) hfits
        rw [escape_append] at hchunks
        exact ⟨pieces, hchunks, by rw [hflat, List.append_assoc, List.singleton_append], hall⟩

/-! ## Chunks that are read back -/

/-- `&`, `<` or `>` -/
def isMarkup (c : Char) : Bool := c = '&' || c = '<' || c = '>'

theorem escape_of_plain {t : Str} (h : ∀ c ∈ t, isMarkup c = false) : escape t = t := by
  induction t with
  | nil => rfl
  | cons c t ih =>
      have hc := h c List.mem_cons_self
      simp only [isMarkup, Bool.or_eq_false_iff, decide_eq_false_iff_not] at hc
      rw [escape_cons, escape_plain hc.1.1 hc.1.2 hc.2,
        ih fun d hd => h d (List.mem_cons_of_mem _ hd)]
      rfl

/-- The text of a chunk, with its heading and its piece as entities. -/
def shown (heading piece : Str) : FormattedText where
  text := heading ++ ['\n'] ++ piece
  entities := [⟨.bold, 0, utf16Len heading, none⟩,
    ⟨.pre, utf16Len heading + 1, utf16Len piece, none⟩]

/-- The tag of an entity that a chunk has. -/
def tagOf (kind : EntityKind) : Option Str :=
  match kind with
  | .bold => some "b".toList
  | .pre => some "pre".toList
  | _ => none

/-- A tag with its text is read as an entity over that text. -/
theorem read_span (kind : EntityKind) {tag : Str} (htag : tagOf kind = some tag) {r : Reading}
    (hstack : r.stack = []) {t : Str} (hne : t ≠ []) (hlen : r.offset + utf16Len t ≤ 4096)
    (rest : Str) :
    Reading.read ('<' :: (tag ++ '>' :: (escape t ++ '<' :: ('/' :: tag ++ '>' :: rest)))) r =
      Reading.read rest { r.append t with
        entities := r.entities ++ [⟨kind, r.offset, utf16Len t, none⟩] } := by
  obtain ⟨plain, offset, stack, entities⟩ := r
  obtain rfl : stack = [] := hstack
  have hpos := utf16Len_pos hne
  have hgt : ∀ d ∈ '/' :: tag, decide (d = '>') = false := by
    cases kind <;> cases htag <;> exact none_of_all rfl
  have hopen : Reading.tag ⟨plain, offset, [], entities⟩ tag =
      some (.ok ⟨plain, offset, [(tag, offset)], entities⟩) := by
    cases kind <;> cases htag <;> rfl
  have hclose : Reading.tag ⟨plain ++ t, offset + utf16Len t, [(tag, offset)], entities⟩
      ('/' :: tag) = some (.ok ⟨plain ++ t, offset + utf16Len t, [],
        entities ++ [⟨kind, offset, utf16Len t, none⟩]⟩) := by
    have hsome : ∀ name : Str, name = tag → ¬ (tag ≠ name ∨ offset + utf16Len t = offset) := by
      rintro name rfl (h | h)
      · exact h rfl
      · omega
    have hkind : (if tag = "b".toList then EntityKind.bold else .pre) = kind := by
      cases kind <;> cases htag <;> rfl
    have hslice : sliceFrom ('/' :: tag) 1 = some tag := sliceFrom_append ['/'] tag
    have hno : ¬ ('/' :: tag = "b".toList ∨ '/' :: tag = "pre".toList) := by
      cases kind <;> cases htag <;> decide
    have hyes : '/' :: tag = "/b".toList ∨ '/' :: tag = "/pre".toList := by
      cases kind <;> cases htag <;> decide
    rw [Reading.tag, if_neg hno, if_pos hyes]
    simp only [hslice, Option.map_some]
    rw [if_neg (hsome tag rfl), hkind, Nat.add_sub_cancel_left]
  have htext := read_escaped t (r := ⟨plain, offset, [(tag, offset)], entities⟩) hlen
    ('<' :: ('/' :: tag ++ '>' :: rest))
  rw [Reading.read_tag (fun d hd => hgt d (List.mem_cons_of_mem _ hd)) hopen, htext]
  exact Reading.read_tag hgt hclose rest

theorem wrap_eq (heading chunk : Str) :
    wrap heading chunk = '<' :: ("b".toList ++ '>' :: (heading ++ '<' :: ('/' :: "b".toList ++
      '>' :: ('\n' :: ('<' :: ("pre".toList ++ '>' :: (chunk ++ '<' :: ('/' :: "pre".toList ++
        '>' :: [])))))))) := by
  simp [wrap]

theorem statsHtml_wrap {heading piece : Str} (hne : heading ≠ [])
    (hplain : ∀ c ∈ heading, isMarkup c = false) (hpiece : piece ≠ [])
    (hlen : utf16Len heading + 1 + utf16Len piece ≤ 4096) :
    statsHtml (wrap heading (escape piece)) = some (.ok (shown heading piece)) := by
  have hread : Reading.read (wrap heading (escape piece)) .start =
      some (.ok ⟨heading ++ ['\n'] ++ piece, utf16Len heading + 1 + utf16Len piece, [],
        (shown heading piece).entities⟩) := by
    have hfits : Reading.start.offset + utf16Len heading ≤ 4096 := by
      rw [show Reading.start.offset = 0 from rfl]
      omega
    have hroom : utf16Len heading + lenUtf16 '\n' ≤ 4096 := by
      rw [show lenUtf16 '\n' = 1 from rfl]
      omega
    have hbold := fun rest => read_span .bold rfl (r := .start) rfl hne hfits rest
    have hline := fun rest => read_escape '\n' (r := ⟨heading, utf16Len heading, [],
      [⟨.bold, 0, utf16Len heading, none⟩]⟩) hroom rest
    have hpre := read_span .pre rfl (r := ⟨heading ++ ['\n'], utf16Len heading + 1, [],
      [⟨.bold, 0, utf16Len heading, none⟩]⟩) rfl hpiece hlen []
    have hstart : ({ Reading.start.append heading with
        entities := Reading.start.entities ++
          [⟨.bold, Reading.start.offset, utf16Len heading, none⟩] } : Reading) =
        ⟨heading, utf16Len heading, [], [⟨.bold, 0, utf16Len heading, none⟩]⟩ := by
      simp only [Reading.append, Reading.start, Nat.zero_add, List.nil_append]
    rw [escape_of_plain hplain] at hbold
    rw [wrap_eq, hbold, hstart]
    refine (hline _).trans ?_
    exact hpre
  have hnil : heading ++ ['\n'] ++ piece ≠ [] := by simp
  rw [Reading.read] at hread
  rw [statsHtml, hread, Option.map_some]
  show some (if ([] : List (Str × Nat)) ≠ [] ∨ heading ++ ['\n'] ++ piece = [] then
      Except.error StoreError.invalidInput
    else .ok ⟨heading ++ ['\n'] ++ piece, (shown heading piece).entities⟩) =
      some (.ok (shown heading piece))
  rw [if_neg (fun h => h.elim (fun h => h rfl) hnil)]
  rfl

theorem statsHtml_isSome (markup : Str) : (statsHtml markup).isSome = true := by
  rw [statsHtml, Option.isSome_map]
  exact Reading.loop_isSome _ _ _ (Nat.le_refl _)

/-- **Chunks survive.** Each chunk of a body is read back as the heading and a piece of the body,
and the pieces are the body. The reader ends on every markup, and its slices begin and end at
characters. -/
theorem stats_chunks_survive (heading body : Str) (hne : heading ≠ [])
    (hlen : utf16Len heading ≤ 600) (hplain : ∀ c ∈ heading, isMarkup c = false) :
    (∃ pieces : List Str, pieces.flatten = body ∧
      List.Forall₂ (fun chunk piece => statsHtml chunk = some (.ok (shown heading piece)) ∧
        utf16Len (shown heading piece).text ≤ 4096) (chunks heading body) pieces) ∧
    ∀ markup, (statsHtml markup).isSome = true := by
  refine ⟨?_, statsHtml_isSome⟩
  obtain ⟨pieces, hchunks, hflat, hall⟩ := chunksFrom_pieces heading body [] (Nat.zero_le _)
  refine ⟨pieces, hflat, ?_⟩
  have hchunks : chunks heading body = pieces.map fun piece => wrap heading (escape piece) :=
    hchunks
  rw [hchunks, List.forall₂_map_left_iff, List.forall₂_same]
  intro piece hpiece
  obtain ⟨hpne, hbytes⟩ := hall piece hpiece
  have hunits := utf16Len_le_escape piece
  refine ⟨statsHtml_wrap hne hplain hpne (by omega), ?_⟩
  have htext : utf16Len (shown heading piece).text = utf16Len heading + 1 + utf16Len piece := by
    rw [shown, utf16Len_append, utf16Len_append]
    rfl
  omega

/-- A body with an escape, and with a character of two units. -/
theorem stats_chunks_survive_escaped :
    (∃ pieces : List Str, pieces.flatten = "<𝄞".toList ∧
      List.Forall₂ (fun chunk piece => statsHtml chunk = some (.ok (shown "Top".toList piece)) ∧
        utf16Len (shown "Top".toList piece).text ≤ 4096) (chunks "Top".toList "<𝄞".toList)
        pieces) ∧
    ∀ markup, (statsHtml markup).isSome = true :=
  stats_chunks_survive "Top".toList "<𝄞".toList (by decide) (by decide) (none_of_all rfl)

/-- A heading without characters is an empty entity, which the reader refuses. -/
theorem empty_heading_refused :
    chunks [] ['x'] = ["<b></b>\n<pre>x</pre>".toList] ∧
      statsHtml "<b></b>\n<pre>x</pre>".toList = some (.error .invalidInput) :=
  ⟨rfl, rfl⟩

end YoinkCore.Stats
