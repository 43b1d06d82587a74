import YoinkCore.Telegram.PlainUrl

/-!
# URLs of inline queries

An inline query that is a URL becomes a card with the query as its text. Sent through the bot, the
card is read as a plain URL message, and asks for what the query was checked for.
-/

namespace YoinkCore.Telegram.PlainUrl

open Lib Lib.Text Domain MediaTime
open Music (MusicPlatform)

/-! ## Queries -/

def maxQueryBytes : Nat := 4096

def maxSearchQueryBytes : Nat := 1024

def maxSearchQueryChars : Nat := 256

/-- A character that is not shown as itself. -/
def unsafeDisplayChar (c : Char) : Bool :=
  let within (low high : Nat) : Bool := decide (low ≤ c.toNat) && decide (c.toNat ≤ high)
  isControl c || within 0x061C 0x061C || within 0x200B 0x200F || within 0x2028 0x202E ||
    within 0x2060 0x206F || within 0xFEFF 0xFEFF

inductive Intent where
  | short
  | text
  | url (query : Str)
  | invalid
deriving DecidableEq

def looksUrl (first : Str) : Bool :=
  let lower := first.map toLower
  (splitOnce "://".toList first).isSome ||
    ["http:", "https:", "http//", "https//"].any (fun start => start.toList.isPrefixOf lower) ||
    ["ftp:", "file:", "data:", "javascript:", "tg:", "magnet:"].any
      (fun scheme => scheme.toList.isPrefixOf lower) ||
    "www.".toList.isPrefixOf first

/-- How scheme and authority are spelled. -/
def spelled (first : Str) : Bool :=
  match splitOnce "://".toList first with
  | none => false
  | some (scheme, authority) =>
      ["http".toList, "https".toList].contains (scheme.map toLower) && !authority.isEmpty &&
        authority.head? != some '/' && !((split '/' authority).head?.any (·.contains '@'))

section

variable [MusicPlatform]

open Platform Inbox.LinkPlatform Music.MusicPlatform

def inlineSource (first : Str) (url : Url) : Bool :=
  !(!(["http", "https"].contains (scheme url)) || (hostStr url).isNone || !(username url).isEmpty ||
    (password url).isSome || port url == some 0 || first.contains '\\' ||
    first.any isControl || reservedMusicHost ((hostStr url).getD ""))

/-- The clip of the times behind a URL that may bring a start. -/
def rangeOf (start : Option Float) : List Str → Option (Option ClipRange)
  | [] => some none
  | [stop] => start.bind fun start => (clipOf start stop).map some
  | [start, stop] => (parseTime start).bind fun start => (clipOf start stop).map some
  | _ => none

/-- The start of a URL and the clip with the times behind it, if all is well formed. -/
def validated (first : Str) (times : List Str) : Option (Option Float × Option ClipRange) :=
  if !spelled first then none
  else (parseUrl (String.ofList first)).bind fun url =>
    if !inlineSource first url then none
    else (queryStart first).bind fun start =>
      (rangeOf start times).map fun clip => (start, clip)

def classify (query : Str) : Intent :=
  if decide (maxQueryBytes < byteLen query) || query.any isControl then .invalid
  else
    let query := trim query
    if maxQueryBytes < byteLen query then .invalid
    else if query.length < 2 then .short
    else
      let first := (splitWhitespace query).head?.getD []
      if !looksUrl first then
        if decide (maxSearchQueryBytes < byteLen query) ||
          decide (maxSearchQueryChars < query.length) || query.any unsafeDisplayChar then .invalid
        else .text
      else if (validated first ((splitWhitespace query).drop 1)).isSome then .url query
      else .invalid

/-! ## Offsets -/

omit [MusicPlatform] in
theorem utf16Boundary_zero (t : Str) : utf16Boundary t 0 = some 0 := by
  cases t <;> rfl

omit [MusicPlatform] in
theorem utf16Boundary_append (s t : Str) : utf16Boundary (s ++ t) (utf16Len s) = some s.length := by
  induction s with
  | nil => exact utf16Boundary_zero t
  | cons c s ih =>
      have hpos := (lenUtf16_bounds c).1
      rw [utf16Len_cons, List.cons_append, utf16Boundary, if_neg (by omega), if_neg (by omega),
        Nat.add_sub_cancel_left, ih]
      rfl

omit [MusicPlatform] in
theorem slice_first (s t : Str) : slice (s ++ t) 0 s.length = some s := by
  rw [slice, if_pos ⟨Nat.zero_le _, by simp⟩, List.take_left, List.drop_zero]

omit [MusicPlatform] in
theorem utf16Len_le_byteLen (t : Str) : utf16Len t ≤ byteLen t := by
  induction t with
  | nil => exact Nat.le_refl 0
  | cons c t ih =>
      have hc := lenUtf16_le_utf8Size c
      rw [utf16Len_cons, byteLen_cons]
      omega

/-! ## What a query was checked for -/

/-- A query that is taken as a URL. -/
structure Checked (query : Str) (first rest : Str) : Prop where
  split : query = first ++ rest
  words : splitWhitespace query = first :: splitWhitespace rest
  short : byteLen query ≤ maxQueryBytes
  plain : query.any isControl = false
  spaceless : ∀ c ∈ first, isWhitespace c = false

theorem classify_eq_url {q i : Str} (h : classify q = .url i) : ∃ first rest result,
    Checked i first rest ∧ validated first (splitWhitespace rest) = some result := by
  unfold classify at h
  split at h
  · cases h
  · rename_i hquery
    dsimp only at h
    split at h
    · cases h
    · rename_i hbytes
      split at h
      · cases h
      · rename_i hlength
        have hne : trim q ≠ [] := by
          intro hnil
          rw [hnil] at hlength
          exact hlength (by decide)
        obtain ⟨rest, hsplit, -, hwords⟩ := splitWhitespace_trim hne
        rw [hwords] at h
        split at h
        · split at h <;> cases h
        · split at h
          · rename_i hvalidated
            cases h
            obtain ⟨result, hresult⟩ := Option.isSome_iff_exists.mp hvalidated
            refine ⟨firstWord (trim q), rest, result, ⟨hsplit, hwords, Nat.le_of_not_lt hbytes, ?_,
              fun c hc => firstWord_not_space hc⟩, hresult⟩
            rw [Bool.or_eq_true, not_or] at hquery
            rw [List.any_eq_false]
            intro c hc
            exact List.any_eq_false.mp (by simpa using hquery.2) c
              ((List.dropWhile_suffix _).subset ((List.rdropWhile_prefix _ _).subset hc))
          · cases h

omit [MusicPlatform] in
/-- A scheme stands first, and not a slash. -/
theorem head_of_spelled {first : Str} (h : spelled first = true) : first.head? ≠ some '/' := by
  intro hhead
  obtain ⟨rest, rfl⟩ := List.head?_eq_some_iff.mp hhead
  unfold spelled at h
  rw [splitOnce, if_neg (by simp)] at h
  cases hrest : splitOnce "://".toList rest with
  | none =>
      rw [hrest] at h
      cases h
  | some parts =>
      rw [hrest] at h
      simp only [Option.map_some, Bool.and_eq_true, List.map_cons] at h
      obtain ⟨⟨⟨hscheme, -⟩, -⟩, -⟩ := h
      rw [List.contains_iff_mem] at hscheme
      rcases List.mem_cons.mp hscheme with hscheme | hscheme
      · exact absurd (List.head_eq_of_cons_eq hscheme) (by decide)
      · exact absurd (List.head_eq_of_cons_eq (List.mem_singleton.mp hscheme)) (by decide)

variable {clip : Option ClipRange} {start : Option Float}

theorem validated_eq_some {first : Str} {times : List Str}
    (h : validated first times = some (start, clip)) :
    ∃ url, spelled first = true ∧ parseUrl (String.ofList first) = some url ∧
      inlineSource first url = true ∧ queryStart first = some start ∧
      rangeOf start times = some clip := by
  unfold validated at h
  split at h
  · cases h
  · rename_i hspelled
    obtain ⟨url, hurl, h⟩ := Option.bind_eq_some_iff.mp h
    split at h
    · cases h
    · rename_i hsource
      obtain ⟨start', hstart, h⟩ := Option.bind_eq_some_iff.mp h
      obtain ⟨clip', hclip, hpair⟩ := Option.map_eq_some_iff.mp h
      cases hpair
      exact ⟨url, by simpa using hspelled, hurl, by simpa using hsource, hstart, hclip⟩

/-- What a message with a URL, its start and the clip behind it is to ask for. In a group nobody is
asked for the end. -/
def asked (isPrivate : Bool) (first : Str) (start : Option Float) (clip : Option ClipRange) :
    Except Unit Action :=
  match clip, start with
  | some clip, _ => .ok (.download { url := String.ofList first, clip := some clip })
  | none, none => .ok (.download { url := String.ofList first })
  | none, some start =>
      if isPrivate then .ok (.askEnd { url := String.ofList first } start) else .error ()

omit [MusicPlatform] in
theorem actionOf_of_range {times : List Str} (h : rangeOf start times = some clip)
    (isPrivate : Bool) (first : Str) :
    actionOf isPrivate first start times = (asked isPrivate first start clip).toOption := by
  match times with
  | [] =>
      cases h
      cases start with
      | none => rfl
      | some start => cases isPrivate <;> rfl
  | [stop] =>
      obtain ⟨s, rfl, h⟩ := Option.bind_eq_some_iff.mp h
      obtain ⟨c, hc, rfl⟩ := Option.map_eq_some_iff.mp h
      rw [actionOf, Option.bind_some, hc]
      rfl
  | [s, stop] =>
      obtain ⟨s', hs, h⟩ := Option.bind_eq_some_iff.mp h
      obtain ⟨c, hc, rfl⟩ := Option.map_eq_some_iff.mp h
      rw [actionOf, hs, Option.bind_some, hc]
      rfl
  | _ :: _ :: _ :: _ => cases h

/-- What the query was checked for is what the message is checked for. -/
theorem plainSource_of_inline {first : Str} {url : Url} (h : inlineSource first url = true)
    (hlength : byteLen first ≤ 4096) (hspace : ∀ c ∈ first, isWhitespace c = false)
    (hcontrol : ∀ c ∈ first, isControl c = false) : plainSource first url = true ∧
      ∃ host, hostStr url = some host ∧ reservedMusicHost host = false := by
  simp only [inlineSource, Bool.not_eq_true', Bool.or_eq_false_iff] at h
  obtain ⟨⟨⟨⟨⟨⟨⟨hscheme, hhost⟩, huser⟩, hpass⟩, -⟩, -⟩, -⟩, hmusic⟩ := h
  have hany : (first.any fun c => isWhitespace c || isControl c) = false := by
    rw [List.any_eq_false]
    intro c hc
    rw [hspace c hc, hcontrol c hc]
    exact Bool.false_ne_true
  refine ⟨?_, ?_⟩
  · rw [plainSource, decide_eq_false (Nat.not_lt.mpr hlength), hany, hscheme, hhost, huser, hpass]
    rfl
  · cases hurl : hostStr url with
    | none =>
        rw [hurl] at hhost
        cases hhost
    | some host =>
        rw [hurl] at hmusic
        exact ⟨host, rfl, hmusic⟩

/-- The entity over the first word asks for what the query was validated for. -/
theorem readEntity_of_validated {i first rest : Str} (hc : Checked i first rest)
    (h : validated first (splitWhitespace rest) = some (start, clip)) (isPrivate : Bool) :
    readEntity isPrivate i ⟨.url, 0, utf16Len first⟩ =
      (asked isPrivate first start clip).toOption.map some := by
  obtain ⟨url, -, hurl, hsource, hstart, hrange⟩ := validated_eq_some h
  have hbytes : byteLen first ≤ 4096 := by
    have hshort := hc.short
    rw [hc.split, byteLen_append] at hshort
    exact Nat.le_trans (Nat.le_add_right _ _) hshort
  have hchecked : checked (0 + utf16Len first) = some (utf16Len first) := by
    rw [Nat.zero_add]
    exact checked_of_le (Nat.le_trans (Nat.le_trans (utf16Len_le_byteLen first) hbytes) (by decide))
  have hcontrol : ∀ c ∈ first, isControl c = false := by
    intro c hmem
    have hplain := List.any_eq_false.mp hc.plain c (hc.split ▸ List.mem_append_left _ hmem)
    simpa using hplain
  obtain ⟨hplain, host, hhost, hmusic⟩ := plainSource_of_inline hsource hbytes hc.spaceless hcontrol
  have hend : utf16Boundary i (utf16Len first) = some first.length := by
    rw [hc.split]
    exact utf16Boundary_append first rest
  have hslice : slice i 0 first.length = some first := by
    rw [hc.split]
    exact slice_first first rest
  have hrest : i.drop first.length = rest := by rw [hc.split, List.drop_left]
  have haction := actionOf_of_range hrange isPrivate first
  simp only [readEntity, hchecked, utf16Boundary_zero, hend, hslice, hurl, hplain, hhost, hmusic,
    hstart, hrest, haction, Option.bind_some]
  rfl

/-- A message with this text through the bot, of whose entities one is a URL: the first word. -/
structure SentCard (m : Message) (botId : Nat) (i first : Str) : Prop where
  text : m.text = some i
  viaBot : m.viaBot = some ⟨botId, true⟩
  entities : ∃ entities, m.entities = some entities ∧
    entities.filter (·.kind == .url) = [⟨.url, 0, utf16Len first⟩] ∧
    ∀ e ∈ entities, e.kind ≠ .botCommand

theorem parse_of_sent {m : Message} {botId : Nat} {i first rest : Str} (hc : Checked i first rest)
    (h : validated first (splitWhitespace rest) = some (start, clip))
    (hsent : SentCard m botId i first) :
    parse m botId = some (asked m.isPrivate first start clip) := by
  obtain ⟨_, hspelled, -⟩ := validated_eq_some h
  obtain ⟨entities, hentities, hfilter, hcommands⟩ := hsent.entities
  have hread := readEntity_of_validated hc h m.isPrivate
  have hslash : (i.dropWhile isWhitespace).head? ≠ some '/' := by
    have hhead := head_of_spelled hspelled
    rw [hc.split]
    cases first with
    | nil => exact absurd hspelled (by decide)
    | cons c first =>
        have hspace := hc.spaceless c List.mem_cons_self
        rw [List.cons_append, List.dropWhile_cons_of_neg (by simp [hspace])]
        exact hhead
  have hforeign : foreign i m.viaBot botId = false := by
    rw [foreign, hsent.viaBot]
    simp [hslash]
  have haddressed : addressed m botId = true := by
    rw [addressed, hsent.viaBot]
    simp
  have hcommand : (entities.any fun e => e.kind == .botCommand) = false := by
    rw [List.any_eq_false]
    intro e he
    simpa using hcommands e he
  have hbytes : byteLen i ≤ 16384 := Nat.le_trans hc.short (by decide)
  rw [parse, hsent.text, Option.bind_some, hforeign, haddressed, if_neg (by simp), hentities,
    Option.bind_some, hcommand, if_neg (by simp), hfilter]
  dsimp only
  rw [decide_eq_false (Nat.not_lt.mpr hbytes), if_neg (by simp), hread]
  cases asked m.isPrivate first start clip <;> rfl

end

/-! ## Cards -/

/-- **A card keeps its meaning.** The text of a card, sent through the bot, asks for what the query
was checked for: the URL with the clip, the URL alone, or the end of a clip of which the URL brings
the start. Only the question for the end is not put in a group. -/
theorem card_asked [MusicPlatform] {q i : Str} (h : classify q = .url i) :
    ∃ first rest start clip, Checked i first rest ∧
      validated first (splitWhitespace rest) = some (start, clip) ∧
      ∀ m botId, SentCard m botId i first →
        parse m botId = some (asked m.isPrivate first start clip) := by
  obtain ⟨first, rest, ⟨start, clip⟩, hchecked, hvalidated⟩ := classify_eq_url h
  exact ⟨first, rest, start, clip, hchecked, hvalidated, fun m botId hsent =>
    parse_of_sent hchecked hvalidated hsent⟩

/-! ## A URL with a start -/

namespace Scenario

def started : String := "https://example.com/a?t=10"

/-- Knows one URL. -/
@[reducible] def platform : MusicPlatform where
  parseUrl text := if text = started then some ⟨started⟩ else none
  scheme _ := "https"
  hostStr _ := some "example.com"
  username _ := ""
  password _ := none
  path _ := "/a"
  query _ := some "t=10"
  fragment _ := none
  jsonBytes _ := []
  rereadF64 x := some x
  sha256 _ := 0
  lowerChar c := [toLower c]
  withoutFragment url := url
  queryPairs _ := [("t", "10")]
  withPairs url _ := url
  port _ := none

attribute [local instance] platform

def card (isPrivate : Bool) (text : Str) : Message where
  text := some text
  entities := some [⟨.url, 0, utf16Len started.toList⟩]
  isPrivate := isPrivate
  viaBot := some ⟨5, true⟩
  replyTo := none

theorem sent_card (isPrivate : Bool) (text : Str) :
    SentCard (card isPrivate text) 5 text started.toList where
  text := rfl
  viaBot := rfl
  entities := ⟨_, rfl, rfl, by decide +kernel⟩

theorem card_asked_clip :
    ∃ start clip, validated started.toList ["20".toList] = some (start, clip) ∧
    parse (card false (started ++ " 20").toList) 5 =
      some (asked false started.toList start clip) := by
  have hclassify : classify (" " ++ started ++ " 20 ").toList = .url (started ++ " 20").toList := by
    decide +kernel
  obtain ⟨first, rest, start, clip, hchecked, hvalidated, hparse⟩ := card_asked hclassify
  have hwords : splitWhitespace (started ++ " 20").toList = [started.toList, "20".toList] := by
    decide +kernel
  have hhead := hchecked.words
  rw [hwords] at hhead
  obtain ⟨rfl, hrest⟩ := List.cons.inj hhead
  exact ⟨start, clip, hrest ▸ hvalidated, hparse _ 5 (sent_card false _)⟩

theorem eq_error_of_not_ok {r : Option (Except Unit Action)}
    (h : r.map (fun r => r.toOption.isSome) = some false) : r = some (.error ()) := by
  obtain ⟨r, rfl, hr⟩ := Option.map_eq_some_iff.mp h
  cases r with
  | error e => rfl
  | ok action => cases hr

/-- In a group the card of a URL that brings a start is refused. -/
theorem card_refused : classify started.toList = .url started.toList ∧
    SentCard (card false started.toList) 5 started.toList started.toList ∧
    parse (card false started.toList) 5 = some (.error ()) :=
  ⟨by decide +kernel, sent_card false _, eq_error_of_not_ok (by decide +kernel)⟩

end Scenario

end YoinkCore.Telegram.PlainUrl
