import YoinkCore.Lib.Search
import YoinkCore.Identity.Administration

/-!
# Keyword rules

A keyword is searched as a regular expression, in the URL and in the text of a media.
Whether a match is a word of its own is decided afterwards, of the matches a search
finds. Of the occurrences at one position the search looks at the longest one only, and
at none that begins inside an earlier match.
-/

namespace YoinkCore.Identity

open Lib Text

/-- Tables of Unicode, and the size limit of a compiled pattern. -/
class CharTables where
  /-- `str::to_lowercase` -/
  lowercase : Str → Str
  /-- `char::is_alphanumeric` -/
  alphanumeric : Char → Bool
  /-- Simple case folding takes the characters to the same one. -/
  sameCase : Char → Char → Bool

/-! ## Patterns -/

/-- What a keyword is compiled to, item by item. -/
inductive Item where
  /-- One character of the class. -/
  | one (members : List Char)
  /-- One or more characters outside of the class, as many as can be. -/
  | others (members : List Char)
deriving DecidableEq

/-- A pattern is built only below the size limit. -/
class RegexBuilder extends CharTables where
  fits : List Item → Bool

/-- `[^A-Za-z0-9İı]+` -/
def separator : Item :=
  .others (((List.range 128).map Char.ofNat).filter isAlphanumeric ++ ['İ', 'ı'])

/-- ASCII matching of `i` extends to the dotted and the dotless one. -/
def escapedKeyword (value : Str) : List Item :=
  value.map fun c => .one (if c = 'i' then ['i', 'I', 'İ', 'ı'] else [c])

def fields : Str → List Str
  | [] => [[]]
  | c :: t =>
      if isWhitespace c then [] :: fields t
      else
        match fields t with
        | [] => [[c]]
        | w :: ws => (c :: w) :: ws

def splitWhitespace (t : Str) : List Str := (fields t).filter fun w => !w.isEmpty

def urlPattern (keyword : Str) : List Item :=
  [separator].intercalate ((splitWhitespace keyword).map escapedKeyword)

section

variable [CharTables]

open CharTables

/-- Membership in a class, whatever the case. -/
def inClass (members : List Char) (c : Char) : Bool := members.any (sameCase c)

/-- The lengths of the matches at the front of a text, in the order they are tried. -/
def lengths : List Item → Str → List Nat
  | [], _ => [0]
  | _ :: _, [] => []
  | .one members :: items, c :: text =>
      if inClass members c then (lengths items text).map (· + 1) else []
  | .others members :: items, c :: text =>
      if inClass members c then []
      else (lengths (.others members :: items) text ++ lengths items text).map (· + 1)

variable {items : List Item}

theorem le_of_mem_lengths {text : Str} {n : Nat} (h : n ∈ lengths items text) :
    n ≤ text.length := by
  induction text generalizing items n with
  | nil =>
      cases items with
      | nil => exact le_of_eq (List.mem_singleton.mp h)
      | cons => cases h
  | cons c text ih =>
      cases items with
      | nil =>
          rw [List.mem_singleton.mp h]
          exact Nat.zero_le _
      | cons item items =>
          cases item with
          | one members =>
              rw [lengths] at h
              split at h
              · obtain ⟨k, hk, rfl⟩ := List.mem_map.mp h
                exact Nat.succ_le_succ (ih hk)
              · cases h
          | others members =>
              rw [lengths] at h
              split at h
              · cases h
              · obtain ⟨k, hk, rfl⟩ := List.mem_map.mp h
                rcases List.mem_append.mp hk with hk | hk <;> exact Nat.succ_le_succ (ih hk)

theorem pos_of_mem_lengths {text : Str} {n : Nat} (hne : items ≠ []) (h : n ∈ lengths items text) :
    0 < n := by
  obtain ⟨item, items, rfl⟩ := List.exists_cons_of_ne_nil hne
  cases text with
  | nil => cases h
  | cons c text =>
      cases item <;>
      · rw [lengths] at h
        split at h
        all_goals first
          | cases h
          | obtain ⟨k, -, rfl⟩ := List.mem_map.mp h
            exact Nat.succ_pos k

/-- The text is one that the items describe. -/
inductive Spells : List Item → Str → Prop
  | nil : Spells [] []
  | one {members : List Char} {items : List Item} {c : Char} {t : Str} :
      inClass members c = true → Spells items t → Spells (.one members :: items) (c :: t)
  | last {members : List Char} {items : List Item} {c : Char} {t : Str} :
      inClass members c = false → Spells items t → Spells (.others members :: items) (c :: t)
  | more {members : List Char} {items : List Item} {c : Char} {t : Str} :
      inClass members c = false → Spells (.others members :: items) t →
      Spells (.others members :: items) (c :: t)

/-- The lengths are those of the texts that the items describe. -/
theorem length_mem_lengths {x rest : Str} :
    x.length ∈ lengths items (x ++ rest) ↔ Spells items x := by
  induction x generalizing items with
  | nil =>
      cases items with
      | nil =>
          rw [lengths]
          exact ⟨fun _ => .nil, fun _ => List.mem_singleton.mpr rfl⟩
      | cons item items =>
          constructor
          · intro h
            exact absurd (pos_of_mem_lengths (List.cons_ne_nil _ _) h) (Nat.lt_irrefl 0)
          · nofun
  | cons c x ih =>
      cases items with
      | nil =>
          rw [lengths, List.mem_singleton]
          exact ⟨nofun, nofun⟩
      | cons item items =>
          cases item with
          | one members =>
              rw [List.cons_append, lengths]
              split
              · rename_i hc
                rw [List.length_cons, List.mem_map_of_injective Nat.succ_injective, ih]
                exact ⟨.one hc, fun h => by cases h; assumption⟩
              · rename_i hc
                refine ⟨nofun, ?_⟩
                intro h
                cases h with
                | one hin _ => exact absurd hin hc
          | others members =>
              rw [List.cons_append, lengths]
              split
              · rename_i hc
                refine ⟨nofun, ?_⟩
                intro h
                cases h with
                | last hout _ => rw [hc] at hout; cases hout
                | more hout _ => rw [hc] at hout; cases hout
              · rename_i hc
                rw [Bool.not_eq_true] at hc
                rw [List.length_cons, List.mem_map_of_injective Nat.succ_injective,
                  List.mem_append, ih, ih]
                constructor
                · rintro (h | h)
                  · exact .more hc h
                  · exact .last hc h
                · intro h
                  cases h with
                  | last _ h => exact .inr h
                  | more _ h => exact .inl h

/-- A separator is one or more characters outside of its class. -/
theorem spells_others {members : List Char} {x : Str} :
    Spells (.others members :: items) x ↔ ∃ s t, s ≠ [] ∧
      (∀ c ∈ s, inClass members c = false) ∧ Spells items t ∧ x = s ++ t := by
  constructor
  · intro h
    induction x with
    | nil => cases h
    | cons c x ih =>
        cases h with
        | last hc ht =>
            exact ⟨[c], x, List.cons_ne_nil _ _, List.forall_mem_singleton.mpr hc, ht, rfl⟩
        | more hc ht =>
            obtain ⟨s, t, -, hs, hitems, rfl⟩ := ih ht
            exact ⟨c :: s, t, List.cons_ne_nil _ _, List.forall_mem_cons.mpr ⟨hc, hs⟩, hitems, rfl⟩
  · rintro ⟨s, t, hne, hs, ht, rfl⟩
    induction s with
    | nil => exact absurd rfl hne
    | cons c s ih =>
        obtain ⟨hc, hs⟩ := List.forall_mem_cons.mp hs
        cases s with
        | nil => exact .last hc ht
        | cons d s => exact .more hc (ih (List.cons_ne_nil _ _) hs)

/-- Of a text of the items that begins with other characters and then a text of the items,
those characters can be left out. -/
theorem Spells.nested {u v t : Str} (hall : Spells items (u ++ (v ++ t))) (hv : Spells items v) :
    Spells items (v ++ t) := by
  induction items generalizing u v t with
  | nil =>
      cases hv
      generalize hx : u ++ ([] ++ t) = x at hall
      cases hall
      rw [(List.append_eq_nil_iff.mp hx).2]
      exact .nil
  | cons item items ih =>
      cases item with
      | one members =>
          cases hv with
          | @one _ _ c v hc hv =>
              cases u with
              | nil => exact hall
              | cons d u =>
                  cases hall with
                  | one _ hrest =>
                      have hfront : Spells items ((u ++ [c]) ++ (v ++ t)) := by
                        rw [List.append_assoc]
                        exact hrest
                      exact .one hc (ih hfront hv)
      | others members =>
          obtain ⟨s, v, hne, hs, hitems, rfl⟩ := spells_others.mp hv
          obtain ⟨s', rest, -, hs', hrest, heq⟩ := spells_others.mp hall
          rw [List.append_assoc, ← List.append_assoc] at heq
          rw [List.append_assoc]
          -- the separator of the whole text ends behind that of `v`, or before
          rcases List.append_eq_append_iff.mp heq with ⟨more, hmore, hvt⟩ | ⟨less, hless, hvt⟩
          · rw [hvt, ← List.append_assoc]
            refine spells_others.mpr ⟨s ++ more, rest, by simp [hne], ?_, hrest, rfl⟩
            intro c hc
            rcases List.mem_append.mp hc with hc | hc
            · exact hs c hc
            · exact hs' c (hmore ▸ List.mem_append_right _ hc)
          · exact spells_others.mpr ⟨s, v ++ t, hne, hs, ih (hvt ▸ hrest) hitems, rfl⟩

theorem mem_lengths_iff {text : Str} {n : Nat} :
    n ∈ lengths items text ↔ n ≤ text.length ∧ Spells items (text.take n) := by
  have hiff : n ≤ text.length → (n ∈ lengths items text ↔ Spells items (text.take n)) := by
    intro hle
    have hspells := @length_mem_lengths _ items (text.take n) (text.drop n)
    rwa [List.take_append_drop, List.length_take_of_le hle] at hspells
  exact ⟨fun h => ⟨le_of_mem_lengths h, (hiff (le_of_mem_lengths h)).mp h⟩,
    fun h => (hiff h.1).mpr h.2⟩

/-- A text of the items that reaches behind one with a separator before it can have the
separator before it, too. -/
theorem mem_lengths_others {members : List Char} {text : Str} {n k : Nat} (hle : n ≤ k)
    (hn : n ∈ lengths (.others members :: items) text) (hk : k ∈ lengths items text) :
    k ∈ lengths (.others members :: items) text := by
  obtain ⟨-, hspells⟩ := mem_lengths_iff.mp hn
  obtain ⟨hlen, hlong⟩ := mem_lengths_iff.mp hk
  obtain ⟨s, v, hne, hs, hv, heq⟩ := spells_others.mp hspells
  obtain ⟨t, ht⟩ : text.take n <+: text.take k := List.take_prefix_take_left hle
  rw [heq, List.append_assoc] at ht
  rw [← ht] at hlong
  refine mem_lengths_iff.mpr ⟨hlen, ?_⟩
  rw [← ht]
  exact spells_others.mpr ⟨s, v ++ t, hne, hs, hlong.nested hv, rfl⟩

/-- The length that is tried first is the longest. -/
theorem lengths_greedy {text : Str} {n : Nat} (h : (lengths items text).head? = some n) :
    ∀ k ∈ lengths items text, k ≤ n := by
  induction text generalizing items n with
  | nil =>
      cases items with
      | nil =>
          intro k hk
          rw [lengths, List.mem_singleton] at hk
          rw [hk]
          exact Nat.zero_le _
      | cons => nofun
  | cons c text ih =>
      cases items with
      | nil =>
          intro k hk
          rw [lengths, List.mem_singleton] at hk
          rw [hk]
          exact Nat.zero_le _
      | cons item items =>
          cases item with
          | one members =>
              rw [lengths] at h ⊢
              split at h
              · rename_i hc
                rw [if_pos hc]
                rw [List.head?_map, Option.map_eq_some_iff] at h
                obtain ⟨n, hn, rfl⟩ := h
                intro k hk
                obtain ⟨j, hj, rfl⟩ := List.mem_map.mp hk
                exact Nat.succ_le_succ (ih hn j hj)
              · cases h
          | others members =>
              rw [lengths] at h ⊢
              split at h
              · cases h
              · rename_i hc
                rw [if_neg hc]
                rw [List.head?_map, Option.map_eq_some_iff] at h
                obtain ⟨n, hn, rfl⟩ := h
                intro k hk
                obtain ⟨j, hj, rfl⟩ := List.mem_map.mp hk
                refine Nat.succ_le_succ ?_
                cases hmore : (lengths (.others members :: items) text).head? with
                | none =>
                    rw [List.head?_eq_none_iff] at hmore
                    rw [hmore, List.nil_append] at hn hj
                    exact ih hn j hj
                | some n' =>
                    rw [List.head?_append, hmore, Option.some_or] at hn
                    cases hn
                    rcases List.mem_append.mp hj with hj | hj
                    · exact ih hmore j hj
                    -- a rest that is longer than that is also one behind a further separator
                    · rcases Nat.le_total j n with hle | hle
                      · exact hle
                      · exact ih hmore j (mem_lengths_others hle (List.mem_of_mem_head? hmore) hj)

/-- A compiled pattern. It matches no empty text. -/
structure Pattern where
  items : List Item
  nonempty : items ≠ []
deriving DecidableEq

def Pattern.matcher (re : Pattern) : Matcher Char where
  lengths := lengths re.items
  bounded := fun _ _ h => ⟨pos_of_mem_lengths re.nonempty h, le_of_mem_lengths h⟩

/-! ## Rules -/

/-- A keyword as it is stored: lower case, of at most 128 characters. -/
structure Keyword where
  value : Str
  nonempty : value ≠ []
  printable : value.any isControl = false
  short : value.length ≤ 128
deriving DecidableEq

/-- `normalize` of a keyword. -/
def normalizeKeyword (value : Str) : Except AdminError Keyword :=
  let s := lowercase value
  if h : s ≠ [] ∧ s.any isControl = false ∧ s.length ≤ 128 then .ok ⟨s, h.1, h.2.1, h.2.2⟩
  else .error .invalidInput

end

section

variable [RegexBuilder]

open CharTables RegexBuilder

structure KeywordRule where
  keyword : Keyword
  words : urlPattern keyword.value ≠ []
  built : fits (urlPattern keyword.value) = true ∧ fits (escapedKeyword keyword.value) = true

def KeywordRule.url (rule : KeywordRule) : Pattern := ⟨_, rule.words⟩

def KeywordRule.text (rule : KeywordRule) : Pattern where
  items := escapedKeyword rule.keyword.value
  nonempty := by
    have hne := rule.keyword.nonempty
    simpa [escapedKeyword] using hne

/-- What `Rules::compile` makes of one stored keyword. -/
def compileKeyword (stored : Str) : Except AdminError KeywordRule := do
  let keyword ← (normalizeKeyword stored).mapError fun _ => AdminError.unavailable
  if h : urlPattern keyword.value = [] then .error .unavailable
  else if hb : fits (urlPattern keyword.value) = true ∧
    fits (escapedKeyword keyword.value) = true then
    .ok ⟨keyword, h, hb⟩
  else .error .unavailable

end

/-! ## Boundaries -/

section

variable [CharTables]

open CharTables

def word (c : Char) : Bool := alphanumeric c || c == '_'

/-- The characters of a word, for a URL those of ASCII and the ones that fold to them. -/
def isWord (ascii : Bool) (c : Char) : Bool :=
  if ascii then isAlphanumeric c || ['İ', 'ı', 'ſ', '\u212a'].contains c else word c

/-- The test of the neighbours of a match. -/
def delimited (ascii : Bool) (m : Piece Char) : Bool :=
  let before := m.before.getLast?.any (isWord ascii)
  let after := m.after.head?.any (isWord ascii)
  if ascii then !before && !after
  else
    (before != m.found.head?.any (isWord ascii)) && (after != m.found.getLast?.any (isWord ascii))

def boundaryMatch (re : Pattern) (text : Str) (ascii : Bool) : Bool :=
  (re.matcher.findIter [] text 0).any (delimited ascii)

/-- An occurrence of the pattern in the text that is a word of its own. -/
structure WordAt (re : Pattern) (text : Str) (ascii : Bool) (m : Piece Char) : Prop where
  inText : m.text = text
  spelled : Spells re.items m.found
  apart : delimited ascii m = true

/-- `boundary_match` says that the text contains the keyword exactly if it does. -/
def FindsWords (re : Pattern) (text : Str) (ascii : Bool) : Prop :=
  boundaryMatch re text ascii = true ↔ ∃ m, WordAt re text ascii m

variable {re : Pattern} {ascii : Bool}

theorem occurs_iff_spells {m : Piece Char} : re.matcher.Occurs m ↔ Spells re.items m.found :=
  length_mem_lengths

theorem Pattern.greedy (re : Pattern) : re.matcher.Greedy :=
  fun _ _ h => lengths_greedy h

/-- A match of the search is one of the longest occurrences, and is not hidden. -/
theorem boundaryMatch_iff {text : Str} :
    boundaryMatch re text ascii = true ↔
      ∃ m, WordAt re text ascii m ∧ re.matcher.Longest m ∧ ¬ re.matcher.Hidden m := by
  simp only [boundaryMatch, List.any_eq_true, Matcher.mem_findIter]
  constructor
  · rintro ⟨m, ⟨hreached, hpreferred⟩, hd⟩
    have htext : m.text = text := by
      rw [Piece.text, List.append_assoc]
      exact hreached.append
    have hlongest := (Matcher.preferred_iff_longest re.greedy).mp hpreferred
    exact ⟨m, ⟨htext, occurs_iff_spells.mp hlongest.1, hd⟩, hlongest,
      (Matcher.reached_iff_not_hidden re.greedy htext hlongest).mp hreached⟩
  · rintro ⟨m, hw, hlongest, hhidden⟩
    exact ⟨m, ⟨(Matcher.reached_iff_not_hidden re.greedy hw.inText hlongest).mpr hhidden,
      (Matcher.preferred_iff_longest re.greedy).mpr hlongest⟩, hw.apart⟩

theorem findsWords_iff {text : Str} :
    FindsWords re text ascii ↔ ((∃ m, WordAt re text ascii m) →
      ∃ m, WordAt re text ascii m ∧ re.matcher.Longest m ∧ ¬ re.matcher.Hidden m) := by
  rw [FindsWords, boundaryMatch_iff]
  exact ⟨Iff.mpr, fun h => ⟨fun ⟨m, hw, _⟩ => ⟨m, hw⟩, h⟩⟩

/-- A word that no occurrence overtakes is found. -/
theorem findsWords_of_clear {text : Str}
    (h : (∃ m, WordAt re text ascii m) → ∃ m, WordAt re text ascii m ∧ re.matcher.Clear m) :
    FindsWords re text ascii :=
  findsWords_iff.mpr fun hword =>
    (h hword).imp fun _ hm => ⟨hm.1, hm.2.1, hm.2.not_hidden⟩

/-- Words are missed when each of them is a part of a longer occurrence or overtaken by a
clear one. -/
theorem not_findsWords_of_overtaken {text : Str} (hword : ∃ m, WordAt re text ascii m)
    (h : ∀ m, WordAt re text ascii m → re.matcher.Longest m →
      ∃ y : Piece Char, re.matcher.Clear y ∧ y.text = text ∧ y.Overtakes m) :
    ¬ FindsWords re text ascii := by
  intro hfinds
  obtain ⟨m, hm, hlongest, hhidden⟩ := findsWords_iff.mp hfinds hword
  obtain ⟨y, hclear, htext, hover⟩ := h m hm hlongest
  exact hhidden (Matcher.hidden_iff.mpr
    ⟨y, hover, hclear.1, htext.trans hm.inText.symm, hclear.not_hidden⟩)

/-! ### Keywords of one word -/

theorem lengths_single {items : List Item} (h : ∀ item ∈ items, ∃ members, item = .one members)
    (text : Str) : lengths items text = [] ∨ lengths items text = [items.length] := by
  induction items generalizing text with
  | nil => exact .inr (by cases text <;> rfl)
  | cons item items ih =>
      obtain ⟨members, rfl⟩ := h item List.mem_cons_self
      cases text with
      | nil => exact .inl rfl
      | cons c text =>
          rw [lengths]
          split
          · rcases ih (fun item hi => h item (List.mem_cons_of_mem _ hi)) text with he | he
            · exact .inl (by rw [he, List.map_nil])
            · exact .inr (by rw [he]; rfl)
          · exact .inl rfl

/-- Every item is one character of a word. -/
def SingleWord (ascii : Bool) (items : List Item) : Prop :=
  ∀ item ∈ items, ∃ members, item = .one members ∧ ∀ c, inClass members c → isWord ascii c

theorem word_of_spells {items : List Item} {t : Str} (hs : Spells items t)
    (hw : SingleWord ascii items) : ∀ c ∈ t, isWord ascii c = true := by
  induction hs with
  | nil => nofun
  | one hin _ ih =>
      obtain ⟨_, he, hmem⟩ := hw _ List.mem_cons_self
      cases he
      intro d hd
      rcases List.mem_cons.mp hd with rfl | hd
      · exact hmem _ hin
      · exact ih (fun item hi => hw item (List.mem_cons_of_mem _ hi)) d hd
  | last _ _ _ | more _ _ _ =>
      obtain ⟨_, he, -⟩ := hw _ List.mem_cons_self
      cases he

/-- No character of a word stands before a word of its own. -/
theorem before_of_delimited {m : Piece Char} (hd : delimited ascii m = true) (hne : m.found ≠ [])
    (hw : ∀ c ∈ m.found, isWord ascii c = true) : m.before.getLast?.any (isWord ascii) = false := by
  obtain ⟨c, found, hf⟩ := List.exists_cons_of_ne_nil hne
  have hc : m.found.head?.any (isWord ascii) = true := by
    rw [hf]
    exact hw c (hf ▸ List.mem_cons_self)
  unfold delimited at hd
  dsimp only at hd
  rw [hc] at hd
  cases hb : m.before.getLast?.any (isWord ascii) with
  | false => rfl
  | true =>
      rw [hb] at hd
      cases ascii <;> simp at hd

/-- Keywords of a single word are found. -/
theorem findsWords_of_singleWord (hw : SingleWord ascii re.items) (text : Str) :
    FindsWords re text ascii := by
  refine findsWords_of_clear ?_
  rintro ⟨m, hm⟩
  have hones : ∀ item ∈ re.items, ∃ members, item = .one members := fun item hi =>
    (hw item hi).imp fun _ h => h.1
  have hlength : ∀ x : Piece Char, re.matcher.Occurs x → x.found.length = re.items.length := by
    intro x hx
    change x.found.length ∈ lengths re.items (x.found ++ x.after) at hx
    rcases lengths_single hones (x.found ++ x.after) with he | he
    · rw [he] at hx
      cases hx
    · rw [he] at hx
      exact List.mem_singleton.mp hx
  have hocc : re.matcher.Occurs m := occurs_iff_spells.mpr hm.spelled
  refine ⟨m, hm, ⟨hocc, ?_⟩, ?_⟩
  · intro y hy _ _
    rw [hlength y hy, hlength m hocc]
  · intro y hy htext ho
    obtain ⟨front, rest, hne, hfound, hbefore⟩ := ho.between htext
    have hlast : isWord ascii (front.getLast hne) = true := by
      refine word_of_spells (occurs_iff_spells.mp hy) hw _ ?_
      rw [hfound]
      exact List.mem_append_left _ (List.getLast_mem hne)
    have hnone := before_of_delimited hm.apart hocc.ne_nil (word_of_spells hm.spelled hw)
    rw [hbefore, List.getLast?_append_of_ne_nil _ hne, List.getLast?_eq_some_getLast hne] at hnone
    rw [Option.any_some, hlast] at hnone
    cases hnone

end

/-! ### Every rule -/

/-- **Keywords are found, but for the hidden ones.** `boundary_match` tells whether a text
contains the keyword of a rule as a word of its own, if and only if it does not, or one of
these words is the longest occurrence at its position and not hidden: no occurrence that
begins before it and ends behind its beginning, but for hidden ones. So a word that none
overtakes is enough, and where clear occurrences overtake all of them none is found. -/
theorem rule_finds_words [RegexBuilder] (rule : KeywordRule) (text : Str) (ascii : Bool) :
    ∀ re ∈ [rule.url, rule.text],
      (FindsWords re text ascii ↔ ((∃ m, WordAt re text ascii m) →
        ∃ m, WordAt re text ascii m ∧ re.matcher.Longest m ∧ ¬ re.matcher.Hidden m)) ∧
      (((∃ m, WordAt re text ascii m) → ∃ m, WordAt re text ascii m ∧ re.matcher.Clear m) →
        FindsWords re text ascii) ∧
      ((∃ m, WordAt re text ascii m) →
        (∀ m, WordAt re text ascii m → re.matcher.Longest m →
          ∃ y : Piece Char, re.matcher.Clear y ∧ y.text = text ∧ y.Overtakes m) →
        ¬ FindsWords re text ascii) ∧
      (SingleWord ascii re.items → FindsWords re text ascii) :=
  fun _ _ => ⟨findsWords_iff, findsWords_of_clear, not_findsWords_of_overtaken,
    fun hw => findsWords_of_singleWord hw text⟩

namespace KeywordScenario

/-- Tables for texts of ASCII, without a limit. -/
@[reducible] def tables : RegexBuilder where
  lowercase := List.map toLower
  alphanumeric := isAlphanumeric
  sameCase := fun c d => decide (toLower c = toLower d)
  fits := fun _ => true

end KeywordScenario

section

attribute [local instance] KeywordScenario.tables

/-- The rule of the keyword `a a`. -/
def KeywordScenario.rule : KeywordRule where
  keyword := ⟨['a', ' ', 'a'], by decide, by decide, by decide⟩
  words := by decide
  built := by decide

/-- A text that is the keyword, with a hyphen for its space. -/
theorem rule_finds_words_whole :
    WordAt KeywordScenario.rule.url "a-a".toList true ⟨[], "a-a".toList, []⟩ ∧
      FindsWords KeywordScenario.rule.url "a-a".toList true := by
  have hlen : "a-a".toList.length ∈ lengths KeywordScenario.rule.url.items
      ("a-a".toList ++ []) := by decide +kernel
  have hword : WordAt KeywordScenario.rule.url "a-a".toList true ⟨[], "a-a".toList, []⟩ :=
    ⟨rfl, length_mem_lengths.mp hlen, by decide +kernel⟩
  refine ⟨hword, (rule_finds_words KeywordScenario.rule "a-a".toList true _
    List.mem_cons_self).2.1 fun _ => ⟨_, hword, ⟨hlen, ?_⟩, ?_⟩⟩
  · intro y _ htext _
    have hall := congrArg List.length htext
    simp only [Piece.text, List.length_append, List.length_nil, Nat.add_zero, Nat.zero_add] at hall
    show y.found.length ≤ "a-a".toList.length
    omega
  · intro y _ _ hover
    exact absurd hover.1 (Nat.not_lt_zero _)

/-- The first two of three words are a match that the character before them spoils, and the
last two begin inside it. -/
theorem third_word_hidden :
    compileKeyword ['a', ' ', 'a'] = .ok KeywordScenario.rule ∧
      ¬ FindsWords KeywordScenario.rule.url "https://example.com/xa-a-a".toList true := by
  refine ⟨rfl, ?_⟩
  intro h
  have hno : boundaryMatch KeywordScenario.rule.url "https://example.com/xa-a-a".toList true =
      false := by decide +kernel
  have hlen : "a-a".toList.length ∈ lengths KeywordScenario.rule.url.items
      ("a-a".toList ++ []) := by decide +kernel
  have hword : WordAt KeywordScenario.rule.url "https://example.com/xa-a-a".toList true
      ⟨"https://example.com/xa-".toList, "a-a".toList, []⟩ :=
    ⟨by decide +kernel, length_mem_lengths.mp hlen, by decide +kernel⟩
  exact Bool.false_ne_true (hno.symm.trans (h.mpr ⟨_, hword⟩))

end

end YoinkCore.Identity
