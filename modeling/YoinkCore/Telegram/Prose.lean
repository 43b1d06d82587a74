import YoinkCore.Telegram.Entities

/-!
# Dashes of prose

Em and en dashes are replaced by hyphens where a text is prose: outside code, links,
quotations and literal text. Positions are looked up in sorted spans with a cursor.
-/

namespace YoinkCore.Telegram

open Lib Text

/-! ## Words -/

/-- `split_inclusive`: a part ends with the character it was split at. -/
def splitInclusive (sep : Char → Bool) : Str → List Str
  | [] => []
  | c :: cs =>
      if sep c then [c] :: splitInclusive sep cs
      else
        match splitInclusive sep cs with
        | [] => [[c]]
        | w :: ws => (c :: w) :: ws

def hasLink (word : Str) : Bool :=
  decide ("https://".toList <:+: word) || decide ("http://".toList <:+: word)

/-- The spans of the words that hold a link. -/
def wordSpans (wordStart : Nat) : List Str → List (Nat × Nat)
  | [] => []
  | word :: words =>
      let wordEnd := wordStart + utf16Len word
      if hasLink word then (wordStart, wordEnd) :: wordSpans wordEnd words
      else wordSpans wordEnd words

/-! ## Quotations -/

/-- `in_spans`: the spans that are left for later positions, and whether the position is in
one of them. -/
def inSpans (spans : List (Nat × Nat)) (offset : Nat) : List (Nat × Nat) × Bool :=
  (seek offset spans, begun offset (seek offset spans))

/-- A quotation that is open; `depth` counts those of its kind. -/
structure OpenQuote where
  closing : Char
  start : Nat
  depth : Nat
deriving DecidableEq

/-- One quotation less of the kind that ends with a character, if any is open. The last
one of its kind ends the span. -/
def closeQuote (c : Char) (stop : Nat) :
    List OpenQuote → Option (List OpenQuote × List (Nat × Nat))
  | [] => none
  | q :: quotes =>
      if q.closing = c then
        if q.depth - 1 = 0 then some (quotes, [(q.start, stop)])
        else some ({ q with depth := q.depth - 1 } :: quotes, [])
      else (closeQuote c stop quotes).map fun (quotes, closed) => (q :: quotes, closed)

def openQuote (closing : Char) (start : Nat) : List OpenQuote → List OpenQuote
  | [] => [⟨closing, start, 1⟩]
  | q :: quotes =>
      if q.closing = closing then { q with depth := q.depth + 1 } :: quotes
      else q :: openQuote closing start quotes

section

-- `char::is_alphanumeric`
variable (alphanumeric : Char → Bool)

/-- The character that ends the quotation a character begins. -/
def closingOf (previous : Option Char) (c : Char) : Option Char :=
  if (c = '\x22' ∨ c = '\x27') ∧ !previous.any alphanumeric then some c
  else if c = '“' then some '”'
  else if c = '‘' then some '’'
  else if c = '«' then some '»'
  else none

def isApostrophe (previous : Option Char) (c : Char) (next : Option Char) : Bool :=
  (c == '\x27' || c == '’') && previous.any alphanumeric && next.any alphanumeric

/-- What one character does to the open quotations, and the span it ends. -/
def quoteStep (quotes : List OpenQuote) (previous : Option Char) (c : Char)
    (next : Option Char) (offset : Nat) (literal obscured : Bool) :
    List OpenQuote × List (Nat × Nat) :=
  let quotes := if c = '\n' ∧ previous = some '\n' then [] else quotes
  if literal || isApostrophe alphanumeric previous c next then (quotes, [])
  else
    match closeQuote c (offset + lenUtf16 c) quotes with
    | some result => result
    | none =>
        if obscured then (quotes, [])
        else
          match closingOf alphanumeric previous c with
          | some closing => (openQuote closing offset quotes, [])
          | none => (quotes, [])

/-- The loop of `quoted_spans`, with its cursors. -/
def quotedFrom (verbatim obscured : List (Nat × Nat)) (offset : Nat) (previous : Option Char)
    (quotes : List OpenQuote) : Str → List (Nat × Nat)
  | [] => []
  | c :: cs =>
      let (verbatim, literal) := inSpans verbatim offset
      let (obscured, hidden) := inSpans obscured offset
      let (quotes, closed) :=
        quoteStep alphanumeric quotes previous c cs.head? offset literal hidden
      closed ++ quotedFrom verbatim obscured (offset + lenUtf16 c) (some c) quotes cs

def quotedSpans (text : Str) (verbatim obscured : List (Nat × Nat)) : List (Nat × Nat) :=
  quotedFrom alphanumeric verbatim obscured 0 none [] text

/-! ## Cleaning -/

def isDash (c : Char) : Bool := c == '—' || c == '–'

def blockquotes (entities : List Entity) : List (Nat × Nat) :=
  (entities.filter (·.kind == .blockquote)).map Entity.span

/-- Spans in which quotation marks begin nothing. -/
def obscuredSpans (text : Str) (literalSpans : List (Nat × Nat)) : List (Nat × Nat) :=
  literalSpans ++ wordSpans 0 (splitInclusive isWhitespace text)

def cleanFrom (literal : List (Nat × Nat)) (offset : Nat) : Str → Str
  | [] => []
  | c :: cs =>
      let (literal, kept) := inSpans literal offset
      (if !kept && isDash c then '-' else c) :: cleanFrom literal (offset + lenUtf16 c) cs

def cleanProse (text : Str) (entities : List Entity) (literalSpans : List (Nat × Nat)) : Str :=
  let verbatim := sortSpans (protectedSpans entities false ++ blockquotes entities)
  let obscured := sortSpans (obscuredSpans text literalSpans)
  let literal := protectedSpans entities true ++ blockquotes entities ++ obscured ++
    quotedSpans alphanumeric text verbatim obscured
  cleanFrom (sortSpans literal) 0 text

end

/-! ## The word around a position -/

/-- The characters around a position up to the next whitespace on both sides. -/
def wordAt (text : Str) (i : Nat) : Str :=
  (text.take i).rtakeWhile (!isWhitespace ·) ++ (text.drop i).takeWhile (!isWhitespace ·)

variable {closed rest : List (Nat × Nat)} {quotes' : List OpenQuote} {sep : Char → Bool}
  {entities : List Entity}

theorem splitInclusive_of_none {t : Str} (hne : t ≠ []) (h : ∀ c ∈ t, sep c = false) :
    splitInclusive sep t = [t] := by
  induction t with
  | nil => exact absurd rfl hne
  | cons c t ih =>
      rw [splitInclusive, if_neg (by simp [h c List.mem_cons_self])]
      cases t with
      | nil => rfl
      | cons d t => rw [ih (List.cons_ne_nil _ _) fun e he => h e (List.mem_cons_of_mem _ he)]

variable {spans : List (Nat × Nat)} {quotes : List OpenQuote} {c : Char}

theorem splitInclusive_append {t : Str} (h : ∀ d ∈ t, sep d = false) (hc : sep c = true)
    (rest : Str) : splitInclusive sep (t ++ c :: rest) = (t ++ [c]) :: splitInclusive sep rest := by
  induction t with
  | nil => rw [List.nil_append, splitInclusive, if_pos hc]; rfl
  | cons d t ih =>
      rw [List.cons_append, splitInclusive, if_neg (by simp [h d List.mem_cons_self]),
        ih fun e he => h e (List.mem_cons_of_mem _ he)]
      rfl

/-- A text is one word, or a word, whitespace and a text. -/
theorem word_cases (t : Str) :
    (∀ c ∈ t, isWhitespace c = false) ∨
      ∃ w c rest, t = w ++ c :: rest ∧ (∀ d ∈ w, isWhitespace d = false) ∧
        isWhitespace c = true := by
  induction t with
  | nil => exact .inl (by simp)
  | cons c t ih =>
      by_cases hc : isWhitespace c = true
      · exact .inr ⟨[], c, t, rfl, by simp, hc⟩
      · rcases ih with h | ⟨w, d, rest, rfl, hw, hd⟩
        · exact .inl fun e he => (List.mem_cons.mp he).elim (fun h => by simpa [h] using hc) (h e)
        · refine .inr ⟨c :: w, d, rest, rfl, fun e he => ?_, hd⟩
          exact (List.mem_cons.mp he).elim (fun h => by simpa [h] using hc) (hw e)

theorem wordAt_of_word {t : Str} (h : ∀ c ∈ t, isWhitespace c = false) (i : Nat) :
    wordAt t i = t := by
  have hl : (t.take i).rtakeWhile (!isWhitespace ·) = t.take i := by
    rw [List.rtakeWhile_eq_self_iff]
    exact fun c hc => by simp [h c (List.mem_of_mem_take hc)]
  have hr : (t.drop i).takeWhile (!isWhitespace ·) = t.drop i := by
    rw [List.takeWhile_eq_self_iff]
    exact fun c hc => by simp [h c (List.mem_of_mem_drop hc)]
  rw [wordAt, hl, hr, List.take_append_drop]

theorem wordAt_first {w : Str} (h : ∀ c ∈ w, isWhitespace c = false) (hc : isWhitespace c = true)
    (rest : Str) {i : Nat} (hi : i < w.length) : wordAt (w ++ c :: rest) i = w := by
  have htake : (w ++ c :: rest).take i = w.take i := List.take_append_of_le_length hi.le
  have hdrop : (w ++ c :: rest).drop i = w.drop i ++ c :: rest :=
    List.drop_append_of_le_length hi.le
  have hr : (w.drop i ++ c :: rest).takeWhile (!isWhitespace ·) = w.drop i := by
    rw [List.takeWhile_append_of_pos fun d hd => by simp [h d (List.mem_of_mem_drop hd)],
      List.takeWhile_cons_of_neg (by simp [hc]), List.append_nil]
  have hl : (w.take i).rtakeWhile (!isWhitespace ·) = w.take i := by
    rw [List.rtakeWhile_eq_self_iff]
    exact fun d hd => by simp [h d (List.mem_of_mem_take hd)]
  rw [wordAt, htake, hdrop, hl, hr, List.take_append_drop]

theorem rtakeWhile_append_cons {p : Char → Bool} (hc : p c = false) (s t : Str) :
    (s ++ c :: t).rtakeWhile p = t.rtakeWhile p := by
  induction t using List.reverseRecOn with
  | nil => rw [List.rtakeWhile_concat_neg _ _ _ (by simp [hc])]; rfl
  | append_singleton t d ih =>
      have hassoc : s ++ c :: (t ++ [d]) = (s ++ c :: t) ++ [d] := by simp
      cases hd : p d with
      | true =>
          rw [hassoc, List.rtakeWhile_concat_pos _ _ _ hd, ih,
            List.rtakeWhile_concat_pos _ _ _ hd]
      | false =>
          rw [hassoc, List.rtakeWhile_concat_neg _ _ _ (by simp [hd]),
            List.rtakeWhile_concat_neg _ _ _ (by simp [hd])]

theorem wordAt_later {w : Str} (hc : isWhitespace c = true) (rest : Str) (i : Nat) :
    wordAt (w ++ c :: rest) (w.length + 1 + i) = wordAt rest i := by
  have htake : (w ++ c :: rest).take (w.length + 1 + i) = w ++ c :: rest.take i := by
    rw [Nat.add_assoc, List.take_append, List.take_of_length_le (by omega), Nat.add_comm 1]
    simp
  have hdrop : (w ++ c :: rest).drop (w.length + 1 + i) = rest.drop i := by
    rw [Nat.add_assoc, List.drop_append, List.drop_of_length_le (by omega), Nat.add_comm 1]
    simp
  rw [wordAt, htake, hdrop, rtakeWhile_append_cons (by simp [hc]), wordAt]

theorem infix_of_append_whitespace {p w : Str} (hp : ∀ d ∈ p, isWhitespace d = false)
    (hne : p ≠ []) (hc : isWhitespace c = true) : p <:+: w ++ [c] ↔ p <:+: w := by
  constructor
  · rintro ⟨a, b, h⟩
    induction b using List.reverseRecOn with
    | nil =>
        obtain ⟨q, d, rfl⟩ := (List.eq_nil_or_concat' p).resolve_left hne
        rw [List.append_nil, ← List.append_assoc] at h
        obtain ⟨-, hd⟩ := List.append_inj' h rfl
        rw [List.cons.injEq] at hd
        have := hp d (by simp)
        rw [hd.1, hc] at this
        cases this
    | append_singleton b d _ =>
        rw [← List.append_assoc] at h
        exact ⟨a, b, (List.append_inj' h rfl).1⟩
  · exact fun h => h.trans (List.infix_append' [] w [c])

theorem hasLink_append_whitespace {w : Str} (hc : isWhitespace c = true) :
    hasLink (w ++ [c]) = hasLink w := by
  have hs : ("https://".toList.all fun d => !isWhitespace d) = true := by decide +kernel
  have h : ("http://".toList.all fun d => !isWhitespace d) = true := by decide +kernel
  have hone : ∀ {p : Str}, (p.all fun d => !isWhitespace d) = true → p ≠ [] →
      decide (p <:+: w ++ [c]) = decide (p <:+: w) := fun hp hne =>
    decide_eq_decide.mpr <| infix_of_append_whitespace
      (fun d hd => by simpa using List.all_eq_true.mp hp d hd) hne hc
  have hs := hone hs (by simp)
  have h := hone h (by simp)
  unfold hasLink
  rw [hs, h]

theorem le_of_covers_wordSpans {words : List Str} {base x : Nat}
    (h : Covers (wordSpans base words) x) : base ≤ x := by
  induction words generalizing base with
  | nil => exact absurd h (covers_nil x)
  | cons w words ih =>
      rw [wordSpans] at h
      split at h
      · rcases covers_cons.mp h with h | h
        · exact h.1
        · have := ih h
          omega
      · have := ih h
        omega

/-- A character that is no whitespace is in the span of a word with a link if and only if
the word around it has one. -/
theorem covers_wordSpans {text : Str} {base i : Nat} (hi : i < text.length)
    (hw : isWhitespace text[i] = false) :
    Covers (wordSpans base (splitInclusive isWhitespace text)) (base + utf16Len (text.take i)) ↔
      hasLink (wordAt text i) = true := by
  induction h : text.length using Nat.strongRecOn generalizing text base i with
  | ind n ih =>
      subst h
      rcases word_cases text with hall | ⟨w, c, rest, rfl, hall, hc⟩
      · have hne : text ≠ [] := List.length_pos_iff.mp (by omega)
        rw [splitInclusive_of_none hne hall, wordAt_of_word hall, wordSpans]
        have hlt := utf16Len_take_lt hi
        split
        · rename_i hl
          simp [wordSpans, hl, hlt]
        · rename_i hl
          simp [wordSpans, hl]
      · have hlen : (w ++ c :: rest).length = w.length + 1 + rest.length := by
          simp [Nat.add_assoc, Nat.add_comm 1]
        rw [splitInclusive_append hall hc, wordSpans]
        rcases Nat.lt_trichotomy i w.length with hlt | rfl | hgt
        · have htake : (w ++ c :: rest).take i = w.take i :=
            List.take_append_of_le_length hlt.le
          have hpos := utf16Len_take_lt hlt
          rw [wordAt_first hall hc rest hlt, htake, hasLink_append_whitespace hc]
          have hout : ¬ Covers (wordSpans (base + utf16Len (w ++ [c]))
              (splitInclusive isWhitespace rest)) (base + utf16Len (w.take i)) := fun hcov => by
            have := le_of_covers_wordSpans hcov
            rw [utf16Len_append] at this
            omega
          split
          · rename_i hl
            rw [covers_cons]
            refine iff_of_true (.inl ⟨by omega, ?_⟩) hl
            rw [utf16Len_append]
            omega
          · rename_i hl
            exact iff_of_false hout hl
        · rw [List.getElem_append_right (le_refl _)] at hw
          simp [hc] at hw
        · obtain ⟨j, rfl⟩ : ∃ j, i = w.length + 1 + j := ⟨i - w.length - 1, by omega⟩
          have hj : j < rest.length := by omega
          have htake : (w ++ c :: rest).take (w.length + 1 + j) = (w ++ [c]) ++ rest.take j := by
            rw [Nat.add_assoc, List.take_append, List.take_of_length_le (by omega),
              Nat.add_comm 1]
            simp
          have hget : rest[j] = (w ++ c :: rest)[w.length + 1 + j] := by
            rw [List.getElem_append_right (by omega)]
            simp [Nat.add_assoc, Nat.add_comm 1]
          rw [← hget] at hw
          have ih := @ih rest.length (by omega) rest (base + utf16Len (w ++ [c])) j hj hw rfl
          rw [wordAt_later hc, htake, utf16Len_append (w ++ [c]), ← Nat.add_assoc, ← ih]
          split
          · rw [covers_cons]
            exact ⟨fun hcov => hcov.resolve_left fun hin => by omega, .inr⟩
          · rfl

/-! ## Exact membership -/

variable {alphanumeric : Char → Bool}

/-- `quoted_spans` with sets of positions in place of cursors. -/
def quotations (alphanumeric : Char → Bool) (literal hidden : Nat → Bool) (offset : Nat)
    (previous : Option Char) (quotes : List OpenQuote) : Str → List (Nat × Nat)
  | [] => []
  | c :: cs =>
      let (quotes, closed) := quoteStep alphanumeric quotes previous c cs.head? offset
        (literal offset) (hidden offset)
      closed ++ quotations alphanumeric literal hidden (offset + lenUtf16 c) (some c) quotes cs

/-- A cursor that has not passed what covers the positions to come. -/
structure Ahead (spans rest : List (Nat × Nat)) (offset : Nat) : Prop where
  sorted : SortedByStart rest
  same : ∀ x, offset ≤ x → (Covers rest x ↔ Covers spans x)

theorem Ahead.start (h : SortedByStart spans) : Ahead spans spans 0 := ⟨h, fun _ _ => Iff.rfl⟩

theorem Ahead.inSpans {offset : Nat} (h : Ahead spans rest offset) (step : Nat) :
    (inSpans rest offset).2 = decide (Covers spans offset) ∧
      Ahead spans (inSpans rest offset).1 (offset + step) := by
  refine ⟨?_, sorted_seek h.sorted offset, fun x hx => ?_⟩
  · rw [Bool.eq_iff_iff, decide_eq_true_iff, ← h.same offset le_rfl]
    exact begun_seek h.sorted offset
  · have hle : offset ≤ x := by omega
    exact (covers_seek hle).trans (h.same x hle)

theorem quotedFrom_eq {verbatim obscured restV restO : List (Nat × Nat)} {text : Str}
    {offset : Nat} {previous : Option Char} (hv : Ahead verbatim restV offset)
    (ho : Ahead obscured restO offset) :
    quotedFrom alphanumeric restV restO offset previous quotes text =
      quotations alphanumeric (fun x => decide (Covers verbatim x))
        (fun x => decide (Covers obscured x)) offset previous quotes text := by
  induction text generalizing restV restO offset previous quotes with
  | nil => rfl
  | cons c cs ih =>
      obtain ⟨hlit, hv⟩ := hv.inSpans (lenUtf16 c)
      obtain ⟨hhid, ho⟩ := ho.inSpans (lenUtf16 c)
      rw [quotedFrom, quotations]
      dsimp only
      rw [hlit, hhid, ih hv ho]

theorem length_cleanFrom (literal : List (Nat × Nat)) (offset : Nat) (text : Str) :
    (cleanFrom literal offset text).length = text.length := by
  induction text generalizing literal offset with
  | nil => rfl
  | cons c cs ih =>
      rw [cleanFrom]
      exact congrArg Nat.succ (ih _ _)

theorem lenUtf16_dash (h : isDash c = true) : lenUtf16 c = 1 := by
  rw [isDash, Bool.or_eq_true, beq_iff_eq, beq_iff_eq] at h
  rcases h with rfl | rfl <;> decide

theorem utf16Len_cleanFrom (literal : List (Nat × Nat)) (offset : Nat) (text : Str) :
    utf16Len (cleanFrom literal offset text) = utf16Len text := by
  induction text generalizing literal offset with
  | nil => rfl
  | cons c cs ih =>
      rw [cleanFrom]
      dsimp only
      rw [utf16Len_cons, utf16Len_cons, ih]
      split
      · rename_i h
        rw [Bool.and_eq_true] at h
        rw [lenUtf16_dash h.2]
        rfl
      · rfl

/-- Each character is kept, unless it is a dash that no span covers. -/
theorem getElem_cleanFrom {text : Str} {offset : Nat} (h : Ahead spans rest offset) {i : Nat}
    (hi : i < text.length) :
    (cleanFrom rest offset text)[i]? = some
      (if isDash text[i] = true ∧ ¬ Covers spans (offset + utf16Len (text.take i)) then '-'
      else text[i]) := by
  induction text generalizing rest offset i with
  | nil => cases hi
  | cons c cs ih =>
      obtain ⟨hin, hahead⟩ := h.inSpans (lenUtf16 c)
      rw [cleanFrom]
      dsimp only
      rw [hin]
      cases i with
      | zero =>
          rw [List.getElem?_cons_zero]
          by_cases hc : Covers spans offset <;> cases hd : isDash c <;> simp [hc, hd]
      | succ i =>
          rw [List.getElem?_cons_succ, ih hahead (Nat.lt_of_succ_lt_succ hi)]
          simp [Nat.add_assoc]

/-- The answers of one pass over positions in order. -/
def pass (spans : List (Nat × Nat)) : List Nat → List Bool
  | [] => []
  | x :: xs => (inSpans spans x).2 :: pass (inSpans spans x).1 xs

theorem pass_exact {xs : List Nat} {offset : Nat} (h : Ahead spans rest offset)
    (hxs : (offset :: xs).Pairwise (· ≤ ·)) :
    pass rest xs = xs.map fun x => decide (Covers spans x) := by
  induction xs generalizing rest offset with
  | nil => rfl
  | cons x xs ih =>
      obtain ⟨hle, hrest⟩ := List.pairwise_cons.mp hxs
      have hx : Ahead spans rest x :=
        ⟨h.sorted, fun y hy => h.same y ((hle x List.mem_cons_self).trans hy)⟩
      obtain ⟨hin, hahead⟩ := hx.inSpans 0
      rw [pass, List.map_cons, hin, ih hahead hrest]

/-! ## Closed quotations -/

/-- What stands before a position ends with a quotation that no paragraph break is in. -/
def OpenIn (alphanumeric : Char → Bool) (before : Str) (q : OpenQuote) : Prop :=
  ∃ a o m, before = a ++ o :: m ∧ closingOf alphanumeric a.getLast? o = some q.closing ∧
    ¬ "\n\n".toList <:+: m ∧ q.start = utf16Len a

/-- A quotation of the text from its opening to its closing character, within a paragraph. -/
def IsQuotation (alphanumeric : Char → Bool) (text : Str) (s : Nat × Nat) : Prop :=
  ∃ a o m c rest, text = a ++ o :: (m ++ c :: rest) ∧
    closingOf alphanumeric a.getLast? o = some c ∧ ¬ "\n\n".toList <:+: m ∧
    s = (utf16Len a, utf16Len (a ++ o :: m) + lenUtf16 c)

theorem closeQuote_spec {stop : Nat} (h : closeQuote c stop quotes = some (quotes', closed)) :
    (∀ q' ∈ quotes', ∃ q ∈ quotes, q'.closing = q.closing ∧ q'.start = q.start) ∧
      ∀ s ∈ closed, ∃ q ∈ quotes, q.closing = c ∧ s = (q.start, stop) := by
  induction quotes generalizing quotes' closed with
  | nil => cases h
  | cons q quotes ih =>
      rw [closeQuote] at h
      split at h
      · rename_i hq
        split at h
        · cases h
          refine ⟨fun q' hq' => ⟨q', List.mem_cons_of_mem _ hq', rfl, rfl⟩, fun s hs => ?_⟩
          exact ⟨q, List.mem_cons_self, hq, List.mem_singleton.mp hs⟩
        · cases h
          refine ⟨fun q' hq' => ?_, fun s hs => absurd hs (by simp)⟩
          rcases List.mem_cons.mp hq' with rfl | hq'
          · exact ⟨q, List.mem_cons_self, rfl, rfl⟩
          · exact ⟨q', List.mem_cons_of_mem _ hq', rfl, rfl⟩
      · obtain ⟨⟨rest, closed'⟩, hr, he⟩ := Option.map_eq_some_iff.mp h
        cases he
        obtain ⟨hquotes, hclosed⟩ := ih hr
        refine ⟨fun q' hq' => ?_, fun s hs => ?_⟩
        · rcases List.mem_cons.mp hq' with rfl | hq'
          · exact ⟨q', List.mem_cons_self, rfl, rfl⟩
          · obtain ⟨p, hp, h⟩ := hquotes q' hq'
            exact ⟨p, List.mem_cons_of_mem _ hp, h⟩
        · obtain ⟨p, hp, h⟩ := hclosed s hs
          exact ⟨p, List.mem_cons_of_mem _ hp, h⟩

theorem openQuote_spec {closing : Char} {start : Nat} {q' : OpenQuote}
    (h : q' ∈ openQuote closing start quotes) :
    (q'.closing = closing ∧ q'.start = start) ∨
      ∃ q ∈ quotes, q'.closing = q.closing ∧ q'.start = q.start := by
  induction quotes with
  | nil =>
      obtain rfl := List.mem_singleton.mp h
      exact .inl ⟨rfl, rfl⟩
  | cons q quotes ih =>
      rw [openQuote] at h
      split at h
      · refine .inr ?_
        rcases List.mem_cons.mp h with rfl | h
        · exact ⟨q, List.mem_cons_self, rfl, rfl⟩
        · exact ⟨q', List.mem_cons_of_mem _ h, rfl, rfl⟩
      · rcases List.mem_cons.mp h with rfl | h
        · exact .inr ⟨q', List.mem_cons_self, rfl, rfl⟩
        · rcases ih h with h | ⟨p, hp, h⟩
          · exact .inl h
          · exact .inr ⟨p, List.mem_cons_of_mem _ hp, h⟩

theorem no_break_append {m : Str} (hm : ¬ "\n\n".toList <:+: m)
    (hc : ¬ (c = '\n' ∧ m.getLast? = some '\n')) : ¬ "\n\n".toList <:+: m ++ [c] := by
  rintro ⟨a, b, h⟩
  rcases List.eq_nil_or_concat' b with rfl | ⟨b, d, rfl⟩
  · have h' : (a ++ ['\n']) ++ ['\n'] = m ++ [c] := by
      rw [← h]
      simp
    obtain ⟨rfl, hd⟩ := List.append_inj' h' rfl
    rw [List.cons.injEq] at hd
    exact hc ⟨hd.1.symm, by simp⟩
  · rw [← List.append_assoc] at h
    exact hm ⟨a, b, (List.append_inj' h rfl).1⟩

/-- A quotation stays open over a character, unless a paragraph ends. -/
theorem OpenIn.append {before : Str} {q : OpenQuote} (h : OpenIn alphanumeric before q)
    (hc : ¬ (c = '\n' ∧ before.getLast? = some '\n')) : OpenIn alphanumeric (before ++ [c]) q := by
  obtain ⟨a, o, m, rfl, hclosing, hbreak, hstart⟩ := h
  refine ⟨a, o, m ++ [c], by simp, hclosing, no_break_append hbreak fun ⟨he, hl⟩ => ?_, hstart⟩
  obtain ⟨m', rfl⟩ := List.getLast?_eq_some_iff.mp hl
  exact hc ⟨he, by rw [← List.cons_append, ← List.append_assoc, List.getLast?_concat]⟩

/-- What one character leaves open, and what it closes. -/
theorem quoteStep_spec {before : Str} {next : Option Char} {literal hidden : Bool}
    (h : ∀ q ∈ quotes, OpenIn alphanumeric before q)
    (hstep : quoteStep alphanumeric quotes before.getLast? c next (utf16Len before) literal
      hidden = (quotes', closed)) :
    (∀ q ∈ quotes', OpenIn alphanumeric (before ++ [c]) q) ∧
      ∀ s ∈ closed, ∃ q, OpenIn alphanumeric before q ∧ q.closing = c ∧
        s = (q.start, utf16Len before + lenUtf16 c) := by
  obtain ⟨kept, hkept, hold, hnew⟩ : ∃ kept,
      (if c = '\n' ∧ before.getLast? = some '\n' then [] else quotes) = kept ∧
      (∀ q ∈ kept, OpenIn alphanumeric before q) ∧
      ∀ q ∈ kept, OpenIn alphanumeric (before ++ [c]) q := by
    refine ⟨_, rfl, ?_⟩
    split
    · exact ⟨by simp, by simp⟩
    · rename_i hc
      exact ⟨h, fun q hq => (h q hq).append hc⟩
  have hsame : ∀ {b : Str} {q q' : OpenQuote}, OpenIn alphanumeric b q →
      q'.closing = q.closing → q'.start = q.start → OpenIn alphanumeric b q' := by
    rintro b q q' ⟨a, o, m, hb, hclosing, hbreak, hstart⟩ h₁ h₂
    exact ⟨a, o, m, hb, h₁ ▸ hclosing, hbreak, h₂.trans hstart⟩
  unfold quoteStep at hstep
  dsimp only at hstep
  rw [hkept] at hstep
  split at hstep
  · cases hstep
    exact ⟨hnew, by simp⟩
  · split at hstep
    · rename_i result hclose
      subst hstep
      obtain ⟨hquotes, hclosed⟩ := closeQuote_spec hclose
      refine ⟨fun q' hq' => ?_, fun s hs => ?_⟩
      · obtain ⟨q, hq, h₁, h₂⟩ := hquotes q' hq'
        exact hsame (hnew q hq) h₁ h₂
      · obtain ⟨q, hq, hc, rfl⟩ := hclosed s hs
        exact ⟨q, hold q hq, hc, rfl⟩
    · split at hstep
      · cases hstep
        exact ⟨hnew, by simp⟩
      · split at hstep
        · rename_i closing hclosing
          cases hstep
          refine ⟨fun q' hq' => ?_, by simp⟩
          rcases openQuote_spec hq' with ⟨h₁, h₂⟩ | ⟨q, hq, h₁, h₂⟩
          · exact ⟨before, c, [], rfl, h₁ ▸ hclosing, by decide, h₂⟩
          · exact hsame (hnew q hq) h₁ h₂
        · cases hstep
          exact ⟨hnew, by simp⟩

/-- Every span of `quoted_spans` is a quotation of one paragraph. -/
theorem isQuotation_of_mem {literal hidden : Nat → Bool} {text before rest : Str}
    {quotes : List OpenQuote} (htext : text = before ++ rest)
    (h : ∀ q ∈ quotes, OpenIn alphanumeric before q) :
    ∀ s ∈ quotations alphanumeric literal hidden (utf16Len before) before.getLast? quotes rest,
      IsQuotation alphanumeric text s := by
  induction rest generalizing before quotes with
  | nil => exact fun s hs => absurd hs (by simp [quotations])
  | cons c cs ih =>
      intro s hs
      rw [quotations] at hs
      rcases hstep : quoteStep alphanumeric quotes before.getLast? c cs.head? (utf16Len before)
        (literal (utf16Len before)) (hidden (utf16Len before)) with ⟨quotes', closed⟩
      rw [hstep] at hs
      obtain ⟨hquotes, hclosed⟩ := quoteStep_spec h hstep
      rcases List.mem_append.mp hs with hs | hs
      · obtain ⟨q, ⟨a, o, m, rfl, hclosing, hbreak, hstart⟩, rfl, rfl⟩ := hclosed s hs
        exact ⟨a, o, m, q.closing, cs, by rw [htext]; simp, hclosing, hbreak, by rw [hstart]⟩
      · refine @ih (before ++ [c]) quotes' (by rw [htext]; simp) hquotes s ?_
        rw [utf16Len_append, List.getLast?_concat]
        exact hs

/-! ## What is kept -/

def Entity.isVerbatim (e : Entity) : Bool := e.isCode || e.kind == .blockquote

/-- The closed quotations outside code and block quotations. -/
def closedQuotations (alphanumeric : Char → Bool) (text : Str) (entities : List Entity)
    (literalSpans : List (Nat × Nat)) : List (Nat × Nat) :=
  quotations alphanumeric (fun x => decide (∃ e ∈ entities, e.isVerbatim = true ∧ e.covers x))
    (fun x => decide (Covers (obscuredSpans text literalSpans) x)) 0 none [] text

/-- Why a dash is kept: it is in code, a link or a block quotation, in literal text, in a
word with a link, or in a closed quotation. -/
def KeptAt (alphanumeric : Char → Bool) (text : Str) (entities : List Entity)
    (literalSpans : List (Nat × Nat)) (i : Nat) : Prop :=
  (∃ e ∈ entities, (e.isCode = true ∨ e.kind = .textLink ∨ e.kind = .blockquote) ∧
    e.covers (utf16Len (text.take i))) ∨
  Covers literalSpans (utf16Len (text.take i)) ∨
  hasLink (wordAt text i) = true ∨
  Covers (closedQuotations alphanumeric text entities literalSpans) (utf16Len (text.take i))

theorem covers_blockquotes {x : Nat} :
    Covers (blockquotes entities) x ↔ ∃ e ∈ entities, e.kind = .blockquote ∧ e.covers x := by
  simp only [Covers, blockquotes, List.mem_map, List.mem_filter, beq_iff_eq]
  constructor
  · rintro ⟨_, ⟨e, ⟨he, hk⟩, rfl⟩, hx⟩
    exact ⟨e, he, hk, hx⟩
  · rintro ⟨e, he, hk, hx⟩
    exact ⟨_, ⟨e, ⟨he, hk⟩, rfl⟩, hx⟩

theorem covers_verbatim {x : Nat} :
    Covers (protectedSpans entities false ++ blockquotes entities) x ↔
      ∃ e ∈ entities, e.isVerbatim = true ∧ e.covers x := by
  rw [covers_append, covers_protectedSpans, covers_blockquotes, ← exists_or]
  refine exists_congr fun e => ?_
  simp only [isProtected, Entity.isVerbatim, Bool.false_and, Bool.or_false, Bool.or_eq_true,
    beq_iff_eq]
  constructor
  · rintro (⟨he, h, hx⟩ | ⟨he, h, hx⟩)
    · exact ⟨he, .inl h, hx⟩
    · exact ⟨he, .inr h, hx⟩
  · rintro ⟨he, h | h, hx⟩
    · exact .inl ⟨he, h, hx⟩
    · exact .inr ⟨he, h, hx⟩

/-- The cursors of `quoted_spans` find what the sets hold. -/
theorem quotedSpans_eq (text : Str) (entities : List Entity) (literalSpans : List (Nat × Nat)) :
    quotedSpans alphanumeric text
        (sortSpans (protectedSpans entities false ++ blockquotes entities))
        (sortSpans (obscuredSpans text literalSpans)) =
      closedQuotations alphanumeric text entities literalSpans := by
  rw [quotedSpans, quotedFrom_eq (Ahead.start (sorted_sortSpans _))
    (Ahead.start (sorted_sortSpans _)), closedQuotations]
  congr 1
  · funext x
    exact decide_eq_decide.mpr (covers_sortSpans.trans covers_verbatim)
  · funext x
    exact decide_eq_decide.mpr covers_sortSpans

theorem not_whitespace_of_dash (h : isDash c = true) : isWhitespace c = false := by
  rw [isDash, Bool.or_eq_true, beq_iff_eq, beq_iff_eq] at h
  rcases h with rfl | rfl <;> decide

/-- **Clean-up touches prose only.** The text keeps its length in characters and UTF-16
units. A character that is no dash stays; a dash stays if and only if it is not prose, and
else becomes a hyphen. One pass with the cursor of `in_spans` decides for positions in
order what the spans cover. Quotations are closed within their paragraph. -/
theorem clean_prose_keeps (alphanumeric : Char → Bool) (text : Str) (entities : List Entity)
    (literalSpans : List (Nat × Nat)) :
    (cleanProse alphanumeric text entities literalSpans).length = text.length ∧
    utf16Len (cleanProse alphanumeric text entities literalSpans) = utf16Len text ∧
    (∀ i (_ : i < text.length),
      (isDash text[i] = false →
        (cleanProse alphanumeric text entities literalSpans)[i]? = some text[i]) ∧
      (isDash text[i] = true →
        ((cleanProse alphanumeric text entities literalSpans)[i]? = some text[i] ↔
          KeptAt alphanumeric text entities literalSpans i) ∧
        (¬ KeptAt alphanumeric text entities literalSpans i →
          (cleanProse alphanumeric text entities literalSpans)[i]? = some '-'))) ∧
    (∀ s ∈ closedQuotations alphanumeric text entities literalSpans,
      IsQuotation alphanumeric text s) ∧
    ∀ (spans : List (Nat × Nat)) (xs : List Nat), xs.Pairwise (· ≤ ·) →
      pass (sortSpans spans) xs = xs.map fun x => decide (Covers spans x) := by
  refine ⟨length_cleanFrom _ _ _, utf16Len_cleanFrom _ _ _, fun i hi => ?_,
    isQuotation_of_mem (List.nil_append text).symm (by simp), fun spans xs hxs => ?_⟩
  · obtain ⟨spans, hclean, hspans⟩ : ∃ spans,
        cleanProse alphanumeric text entities literalSpans = cleanFrom (sortSpans spans) 0 text ∧
        ∀ x, Covers spans x ↔ (∃ e ∈ entities, (e.isCode = true ∨ e.kind = .textLink ∨
            e.kind = .blockquote) ∧ e.covers x) ∨ Covers literalSpans x ∨
          Covers (wordSpans 0 (splitInclusive isWhitespace text)) x ∨
          Covers (closedQuotations alphanumeric text entities literalSpans) x := by
      refine ⟨_, by rw [cleanProse, quotedSpans_eq], fun x => ?_⟩
      rw [covers_append, covers_append, covers_append, covers_sortSpans, obscuredSpans,
        covers_append, covers_protectedSpans, covers_blockquotes, ← exists_or, or_assoc, or_assoc]
      refine or_congr_left (exists_congr fun e => ?_)
      simp only [isProtected, Bool.true_and, Bool.or_eq_true, beq_iff_eq]
      constructor
      · rintro (⟨he, h | h, hx⟩ | ⟨he, h, hx⟩)
        · exact ⟨he, .inl h, hx⟩
        · exact ⟨he, .inr (.inl h), hx⟩
        · exact ⟨he, .inr (.inr h), hx⟩
      · rintro ⟨he, h | h | h, hx⟩
        · exact .inl ⟨he, .inl h, hx⟩
        · exact .inl ⟨he, .inr h, hx⟩
        · exact .inr ⟨he, h, hx⟩
    have hget := getElem_cleanFrom (Ahead.start (sorted_sortSpans spans)) hi
    rw [← hclean, Nat.zero_add] at hget
    refine ⟨fun hd => by rw [hget, hd]; simp, fun hd => ?_⟩
    have hkept : Covers (sortSpans spans) (utf16Len (text.take i)) ↔
        KeptAt alphanumeric text entities literalSpans i := by
      have hword := @covers_wordSpans text 0 i hi (not_whitespace_of_dash hd)
      rw [Nat.zero_add] at hword
      rw [covers_sortSpans, hspans, hword]
      rfl
    have hne : ('-' : Char) ≠ text[i] := fun he => by
      rw [← he] at hd
      exact absurd hd (by decide)
    rw [hget]
    by_cases hk : KeptAt alphanumeric text entities literalSpans i
    · rw [if_neg fun h => h.2 (hkept.mpr hk)]
      exact ⟨iff_of_true rfl hk, fun h => absurd hk h⟩
    · rw [if_pos ⟨hd, fun h => hk (hkept.mp h)⟩]
      exact ⟨iff_of_false (by simpa using hne) hk, fun _ => rfl⟩
  · rw [pass_exact (Ahead.start (sorted_sortSpans spans))
      (List.pairwise_cons.mpr ⟨fun x _ => Nat.zero_le x, hxs⟩)]
    exact List.map_congr_left fun x _ => decide_eq_decide.mpr covers_sortSpans

end YoinkCore.Telegram
