import YoinkCore.Lib.Json
import YoinkCore.Lib.Text

/-!
# Glob patterns

The domains of a prompt alias are patterns with stars, question marks and classes. `glob`
matches by a table: row by row for the pattern, and in a row by the parts of the text that the
pattern has matched so far. `Matches` says what a pattern means.
-/

namespace YoinkCore.Insight

open Lib

/-! ## What a pattern means -/

/-- Single characters, and ranges with both ends. -/
def inClass (c : Char) : List Char → Bool
  | low :: '-' :: high :: rest => (low ≤ c && c ≤ high) || inClass c rest
  | x :: rest => x == c || inClass c rest
  | [] => false

/-- The members of a class and what is behind its closing bracket. A closing bracket that comes
first is a member. -/
def classBody (negated : Bool) : List Char → Option (Bool × List Char × List Char)
  | [] => none
  | x :: rest => (Text.splitOnce [']'] rest).map fun split => (negated, x :: split.1, split.2)

/-- What stands behind an opening bracket, when it is that of a class: whether an exclamation
mark is first, the members, and what is behind the closing bracket. -/
def splitClass : List Char → Option (Bool × List Char × List Char)
  | '!' :: p => classBody true p
  | p => classBody false p

inductive Matches : List Char → List Char → Prop
  | done : Matches [] []
  | star {p t : List Char} (s : List Char) (h : Matches p t) : Matches ('*' :: p) (s ++ t)
  | any {p t : List Char} (c : Char) (h : Matches p t) : Matches ('?' :: p) (c :: t)
  | ofClass {p rest t members : List Char} {negated : Bool} {c : Char}
      (hclass : splitClass p = some (negated, members, rest)) (hc : inClass c members ≠ negated)
      (h : Matches rest t) : Matches ('[' :: p) (c :: t)
  | bracket {p t : List Char} (hnone : splitClass p = none) (h : Matches p t) :
      Matches ('[' :: p) ('[' :: t)
  | char {x : Char} {p t : List Char} (hstar : x ≠ '*') (hany : x ≠ '?') (hbracket : x ≠ '[')
      (h : Matches p t) : Matches (x :: p) (x :: t)

/-! ## The table -/

/-- `row[index] = v` -/
def store (row : List Bool) (index : Nat) (v : Bool) : Option (List Bool) :=
  if index < row.length then some (row.set index v) else none

/-- A star matches what is matched above, and one character more than it matches before. -/
def starValue (previous next : List Bool) (index : Nat) : Option Bool := do
  let above ← previous[index]?
  let before ← next[index - 1]?
  some (above || before)

/-- The row below, for a star. -/
def starRow (previous : List Bool) (size : Nat) : Option (List Bool) := do
  let first ← previous[0]?
  let next ← store (List.replicate (size + 1) false) 0 first
  (List.range' 1 size).foldlM (fun next index => do
    let v ← starValue previous next index
    store next index v) next

/-- Where the class ends that the bracket at a position begins. -/
def classEnd (pattern : List Char) (position : Nat) : Option Nat :=
  let first := position + 1 + if pattern[position + 1]? = some '!' then 1 else 0
  let start := first + if pattern[first]? = some ']' then 1 else 0
  (List.range' start (pattern.length - start)).find? fun index => pattern[index]? = some ']'

/-- `cursor + 2 < end && pattern[cursor + 1] == '-'` -/
def dashAt (pattern : List Char) (stop cursor : Nat) : Option Bool :=
  if cursor + 2 < stop then (pattern[cursor + 1]?).map (· == '-') else some false

/-- `class_end`: only an opening bracket begins a class. -/
def stopOf (pattern : List Char) (position : Nat) (token : Char) : Option Nat :=
  if token = '[' then classEnd pattern position else none

/-- The loop over the members of a class that ends at `stop`. -/
def member (pattern : List Char) (character : Char) (stop : Nat) : Nat → Nat → Bool → Option Bool
  | 0, _, _ => none
  | turns + 1, cursor, found =>
      if cursor < stop then do
        let dash ← dashAt pattern stop cursor
        if dash then do
          let low ← pattern[cursor]?
          let high ← pattern[cursor + 2]?
          member pattern character stop turns (cursor + 3)
            (found || (low ≤ character && character ≤ high))
        else do
          let single ← pattern[cursor]?
          member pattern character stop turns (cursor + 1) (found || single == character)
      else some found

/-- `matches`: the token at a position, for one character. -/
def tokenMatches (pattern : List Char) (position : Nat) (token : Char) (stop : Option Nat)
    (character : Char) : Option Bool :=
  match stop with
  | some stop => do
      let negated := pattern[position + 1]? == some '!'
      let cursor := position + 1 + if negated then 1 else 0
      let found ← member pattern character stop (stop + 1) cursor false
      some (found != negated)
  | none => some (token == '?' || token == character)

def tokenValue (pattern text : List Char) (position : Nat) (token : Char) (stop : Option Nat)
    (previous : List Bool) (index : Nat) : Option Bool := do
  let character ← text[index - 1]?
  let matched ← tokenMatches pattern position token stop character
  let before ← previous[index - 1]?
  some (before && matched)

/-- The row below, for a token that matches one character. -/
def tokenRow (pattern text : List Char) (position : Nat) (token : Char) (stop : Option Nat)
    (previous : List Bool) : Option (List Bool) :=
  (List.range' 1 text.length).foldlM (fun next index => do
    let v ← tokenValue pattern text position token stop previous index
    store next index v) (List.replicate (text.length + 1) false)

def globLoop (pattern text : List Char) : Nat → Nat → List Bool → Option Bool
  | 0, _, _ => none
  | turns + 1, position, previous =>
      if position < pattern.length then do
        let token ← pattern[position]?
        if token = '*' then do
          let next ← starRow previous text.length
          globLoop pattern text turns (position + 1) next
        else do
          let stop := stopOf pattern position token
          let next ← tokenRow pattern text position token stop previous
          globLoop pattern text turns ((stop.map (· + 1)).getD (position + 1)) next
      else previous[text.length]?

/-- `glob`, for so many turns of its loop. An index out of range is no result. -/
def glob (turns : Nat) (pattern text : String) : Option Bool :=
  let pattern := pattern.toList
  let text := text.toList
  if 512 < pattern.length || 4096 < text.length then some false
  else do
    let previous ← store (List.replicate (text.length + 1) false) 0 true
    globLoop pattern text turns 0 previous

/-! ## Rows -/

/-- A row, by its values. -/
def Row (size : Nat) (row : List Bool) (values : Nat → Bool) : Prop :=
  row.length = size + 1 ∧ ∀ j ≤ size, row[j]? = some (values j)

theorem store_eq {row : List Bool} {index : Nat} (h : index < row.length) (v : Bool) :
    store row index v = some (row.set index v) := if_pos h

/-- A row that is filled from left to right. -/
theorem foldlM_store {size : Nat} (values : Nat → Bool) (row : List Bool)
    (value : List Bool → Nat → Option Bool) (hlen : row.length = size + 1)
    (hfirst : row[0]? = some (values 0))
    (hvalue : ∀ next i, i < size → (∀ j ≤ i, next[j]? = some (values j)) →
      value next (i + 1) = some (values (i + 1))) (n : Nat) (hn : n ≤ size) :
    ∃ next, (List.range' 1 n).foldlM (fun next index => do
        let v ← value next index
        store next index v) row = some next ∧ next.length = size + 1 ∧
      ∀ j ≤ n, next[j]? = some (values j) := by
  induction n with
  | zero =>
      refine ⟨row, rfl, hlen, fun j hj => ?_⟩
      obtain rfl := Nat.le_zero.mp hj
      exact hfirst
  | succ n ih =>
      obtain ⟨next, hnext, hlen', hrow⟩ := ih (Nat.le_of_succ_le hn)
      have hstore : n + 1 < next.length := by omega
      refine ⟨next.set (n + 1) (values (n + 1)), ?_, by rw [List.length_set, hlen'], ?_⟩
      · rw [List.range'_1_concat, List.foldlM_append, hnext, Nat.add_comm 1 n]
        show (value next (n + 1) >>= fun v => store next (n + 1) v) >>= _ = _
        rw [hvalue next n hn hrow]
        show store next (n + 1) (values (n + 1)) >>= _ = _
        rw [store_eq hstore]
        rfl
      · intro j hj
        by_cases heq : n + 1 = j
        · rw [← heq, List.getElem?_set_self hstore]
        · rw [List.getElem?_set_ne heq]
          exact hrow j (by omega)

/-- Whether a part that is no longer is reached. -/
def reached (values : Nat → Bool) : Nat → Bool
  | 0 => values 0
  | j + 1 => values (j + 1) || reached values j

variable {values : Nat → Bool} {p : List Char}

theorem reached_eq_true {j : Nat} : reached values j = true ↔ ∃ i ≤ j, values i = true := by
  induction j with
  | zero =>
      constructor
      · exact fun h => ⟨0, le_rfl, h⟩
      · rintro ⟨i, hi, h⟩
        obtain rfl := Nat.le_zero.mp hi
        exact h
  | succ j ih =>
      rw [reached, Bool.or_eq_true, ih]
      constructor
      · rintro (h | ⟨i, hi, h⟩)
        · exact ⟨j + 1, le_rfl, h⟩
        · exact ⟨i, Nat.le_succ_of_le hi, h⟩
      · rintro ⟨i, hi, h⟩
        rcases Nat.lt_or_eq_of_le hi with hlt | rfl
        · exact .inr ⟨i, Nat.le_of_lt_succ hlt, h⟩
        · exact .inl h

variable {parts : Bool × List Char × List Char} {accepts : Char → Bool} {previous : List Bool}

theorem starRow_eq {size : Nat} (h : Row size previous values) :
    ∃ next, starRow previous size = some next ∧ Row size next (reached values) := by
  obtain ⟨hlen, hrow⟩ := h
  have hstart : 0 < (List.replicate (size + 1) false).length := by
    rw [List.length_replicate]
    omega
  have hvalue : ∀ next i, i < size → (∀ j ≤ i, next[j]? = some (reached values j)) →
      starValue previous next (i + 1) = some (reached values (i + 1)) := by
    intro next i hi hbefore
    unfold starValue
    rw [hrow (i + 1) hi, Nat.add_sub_cancel, hbefore i le_rfl]
    rfl
  obtain ⟨next, hnext, hlen', hrow'⟩ := foldlM_store (reached values)
    ((List.replicate (size + 1) false).set 0 (values 0)) (starValue previous)
    (by rw [List.length_set, List.length_replicate]) (List.getElem?_set_self hstart) hvalue
    size le_rfl
  refine ⟨next, ?_, hlen', hrow'⟩
  unfold starRow
  rw [hrow 0 (Nat.zero_le size), Json.some_bind_eq, store_eq hstart, Json.some_bind_eq]
  exact hnext

/-- A row moved on by one character. -/
def moved (values matched : Nat → Bool) : Nat → Bool
  | 0 => false
  | j + 1 => values j && matched j

theorem tokenRow_eq {pattern text : List Char} {position : Nat} {token : Char} {stop : Option Nat}
    (matched : Nat → Bool) (h : Row text.length previous values)
    (hmatched : ∀ j c, text[j]? = some c →
      tokenMatches pattern position token stop c = some (matched j)) :
    ∃ next, tokenRow pattern text position token stop previous = some next ∧
      Row text.length next (moved values matched) := by
  obtain ⟨hlen, hrow⟩ := h
  have hvalue : ∀ (next : List Bool) i, i < text.length →
      (∀ j ≤ i, next[j]? = some (moved values matched j)) →
      tokenValue pattern text position token stop previous (i + 1) =
        some (moved values matched (i + 1)) := by
    intro next i hi _
    have hc := List.getElem?_eq_getElem hi
    unfold tokenValue
    rw [Nat.add_sub_cancel, hc, Json.some_bind_eq, hmatched i _ hc, Json.some_bind_eq,
      hrow i hi.le]
    rfl
  obtain ⟨next, hnext, hlen', hrow'⟩ := foldlM_store (moved values matched)
    (List.replicate (text.length + 1) false)
    (fun _ => tokenValue pattern text position token stop previous) List.length_replicate rfl hvalue
    text.length le_rfl
  exact ⟨next, hnext, hlen', hrow'⟩

/-! ## Classes -/

theorem getElem?_append_at (front rest : List Char) (k : Nat) :
    (front ++ rest)[front.length + k]? = rest[k]? := by
  rw [List.getElem?_append_right (Nat.le_add_right _ _), Nat.add_sub_cancel_left]

/-- A dash and an end stand behind a character. -/
def isRange : List Char → Bool
  | '-' :: _ :: _ => true
  | _ => false

theorem isRange_eq_true {members : List Char} (h : isRange members = true) :
    ∃ high rest, members = '-' :: high :: rest := by
  unfold isRange at h
  split at h
  · exact ⟨_, _, rfl⟩
  · cases h

theorem inClass_single {x c : Char} {members : List Char} (h : isRange members = false) :
    inClass c (x :: members) = (x == c || inClass c members) := by
  rw [inClass]
  rintro high rest rfl
  cases h

/-- What the loop over the members reads to tell a range from a single character. -/
theorem dash_eq (front members back : List Char) (x : Char) :
    dashAt (front ++ (x :: members ++ back)) (front.length + (x :: members).length) front.length =
      some (isRange members) := by
  unfold dashAt
  rw [getElem?_append_at]
  match members with
  | [] => rw [if_neg (by simp)]; rfl
  | [y] => rw [if_neg (by simp)]; unfold isRange; split <;> simp_all
  | y :: z :: rest =>
      rw [if_pos (by simp)]
      show some (y == '-') = _
      by_cases hy : y = '-'
      · subst hy
        rfl
      · rw [isRange, beq_eq_false_iff_ne.mpr hy]
        rintro _ _ ⟨rfl, rfl⟩
        exact hy rfl

/-- The loop over the members reads those of the class, and nothing behind it. -/
theorem member_eq (character : Char) (back : List Char) (turns : Nat) :
    ∀ (front members : List Char) (found : Bool), members.length < turns →
      member (front ++ (members ++ back)) character (front.length + members.length) turns
        front.length found = some (found || inClass character members) := by
  induction turns with
  | zero => exact fun _ _ _ h => absurd h (Nat.not_lt_zero _)
  | succ turns ih =>
      intro front members found hturns
      cases members with
      | nil => rw [member, if_neg (by simp), inClass, Bool.or_false]
      | cons x members =>
          have hx : (front ++ (x :: members ++ back))[front.length]? = some x :=
            getElem?_append_at front _ 0
          rw [member, if_pos (by simp), dash_eq, Json.some_bind_eq, hx]
          cases hrange : isRange members with
          | true =>
              obtain ⟨high, rest, rfl⟩ := isRange_eq_true hrange
              have hhigh : (front ++ (x :: '-' :: high :: rest ++ back))[front.length + 2]? =
                  some high := getElem?_append_at front _ 2
              have hrest := ih (front ++ [x, '-', high]) rest
                (found || (x ≤ character && character ≤ high)) (by
                  simp only [List.length_cons] at hturns
                  omega)
              have hstop : front.length + (x :: '-' :: high :: rest).length =
                  (front ++ [x, '-', high]).length + rest.length := by
                simp only [List.length_append, List.length_cons, List.length_nil]
                omega
              rw [if_pos rfl, Json.some_bind_eq, hhigh, Json.some_bind_eq, hstop, inClass,
                ← Bool.or_assoc, ← hrest]
              simp only [List.append_assoc, List.cons_append, List.nil_append, List.length_append,
                List.length_cons, List.length_nil]
          | false =>
              have hrest := ih (front ++ [x]) members (found || x == character)
                (by simpa using hturns)
              have hstop : front.length + (x :: members).length =
                  (front ++ [x]).length + members.length := by
                simp only [List.length_append, List.length_cons, List.length_nil]
                omega
              rw [if_neg (by decide), Json.some_bind_eq, hstop, inClass_single hrange,
                ← Bool.or_assoc, ← hrest]
              simp only [List.append_assoc, List.cons_append, List.nil_append, List.length_append,
                List.length_cons, List.length_nil]

theorem find?_close (front rest : List Char) :
    (List.range' front.length rest.length).find?
        (fun index => (front ++ rest)[index]? = some ']') =
      (Text.splitOnce [']'] rest).map fun split => front.length + split.1.length := by
  induction rest generalizing front with
  | nil => rfl
  | cons c rest ih =>
      have hc : (front ++ c :: rest)[front.length]? = some c := getElem?_append_at front _ 0
      rw [List.length_cons, List.range'_succ, List.find?_cons, hc]
      by_cases hclose : c = ']'
      · subst hclose
        rfl
      · have hrest := ih (front ++ [c])
        rw [List.append_assoc, List.singleton_append, List.length_append, List.length_singleton]
          at hrest
        rw [decide_eq_false (by simpa using hclose), hrest, Text.splitOnce,
          if_neg (by simpa using Ne.symm hclose), Option.map_map]
        refine congrArg (Option.map · _) (funext fun split => ?_)
        show front.length + 1 + _ = front.length + (_ + 1)
        rw [Nat.add_assoc, Nat.add_comm 1]

/-- The first closing bracket behind the first member. -/
theorem find?_member (front body : List Char) :
    (List.range' (front.length + if (front ++ body)[front.length]? = some ']' then 1 else 0)
        ((front ++ body).length -
          (front.length + if (front ++ body)[front.length]? = some ']' then 1 else 0))).find?
        (fun index => (front ++ body)[index]? = some ']') =
      match body with
      | [] => none
      | _ :: rest =>
          (Text.splitOnce [']'] rest).map fun split => front.length + 1 + split.1.length := by
  cases body with
  | nil =>
      rw [List.append_nil, Nat.sub_eq_zero_of_le (Nat.le_add_right _ _)]
      rfl
  | cons x rest =>
      have hx : (front ++ x :: rest)[front.length]? = some x := getElem?_append_at front _ 0
      have hrest := find?_close (front ++ [x]) rest
      rw [List.append_assoc, List.singleton_append, List.length_append, List.length_singleton]
        at hrest
      rw [hx, List.length_append]
      by_cases hclose : x = ']'
      · subst hclose
        rw [if_pos rfl]
        refine Eq.trans ?_ hrest
        rw [List.length_cons, Nat.add_comm rest.length, ← Nat.add_assoc, Nat.add_sub_cancel_left]
      · have hall := find?_close front (x :: rest)
        rw [Text.splitOnce, if_neg (by simpa using Ne.symm hclose), Option.map_map] at hall
        rw [if_neg (by simpa using hclose), Nat.add_zero, Nat.add_sub_cancel_left, hall]
        refine congrArg (Option.map · _) (funext fun split => ?_)
        show front.length + (_ + 1) = front.length + 1 + _
        rw [Nat.add_assoc, Nat.add_comm 1]

theorem splitClass_of_ne (h : p[0]? ≠ some '!') : splitClass p = classBody false p := by
  unfold splitClass
  split
  · exact absurd rfl h
  · rfl

theorem classBody_end (negated : Bool) (p : List Char) (start : Nat) :
    ((classBody negated p).map fun parts =>
        start + (if parts.1 then 1 else 0) + parts.2.1.length) =
      match p with
      | [] => none
      | _ :: rest => (Text.splitOnce [']'] rest).map fun split =>
          start + (if negated then 1 else 0) + 1 + split.1.length := by
  cases p with
  | nil => rfl
  | cons x rest =>
      rw [classBody, Option.map_map]
      refine congrArg (Option.map · _) (funext fun split => ?_)
      show start + _ + (split.1.length + 1) = _
      rw [Nat.add_assoc _ 1, Nat.add_comm 1]

theorem classBody_negated (negated : Bool) (h : classBody negated p = some parts) :
    parts.1 = negated ∧ p = parts.2.1 ++ ']' :: parts.2.2 := by
  cases p with
  | nil => cases h
  | cons x rest =>
      obtain ⟨split, hsplit, rfl⟩ := Option.map_eq_some_iff.mp h
      exact ⟨rfl, congrArg (x :: ·) (Text.splitOnce_eq hsplit)⟩

/-- A class as the table finds it. -/
theorem classEnd_eq (front p : List Char) :
    classEnd (front ++ '[' :: p) front.length = (splitClass p).map fun parts =>
      front.length + 1 + (if parts.1 then 1 else 0) + parts.2.1.length := by
  have hfirst : (front ++ '[' :: p)[front.length + 1]? = p[0]? := getElem?_append_at front _ 1
  unfold classEnd
  rw [hfirst]
  by_cases hneg : p[0]? = some '!'
  · cases p with
    | nil => cases hneg
    | cons c body =>
        obtain rfl := Option.some.inj hneg
        have hmember := find?_member (front ++ ['[', '!']) body
        rw [List.append_assoc, List.length_append] at hmember
        rw [if_pos hneg]
        exact hmember.trans (classBody_end true body (front.length + 1)).symm
  · have hmember := find?_member (front ++ ['[']) p
    rw [List.append_assoc, List.length_append] at hmember
    rw [if_neg hneg, splitClass_of_ne hneg]
    exact hmember.trans (classBody_end false p (front.length + 1)).symm

theorem splitClass_eq (h : splitClass p = some parts) :
    parts.1 = (p[0]? == some '!') ∧
      p = (if parts.1 then ['!'] else []) ++ (parts.2.1 ++ ']' :: parts.2.2) := by
  by_cases hneg : p[0]? = some '!'
  · cases p with
    | nil => cases hneg
    | cons c body =>
        obtain rfl := Option.some.inj hneg
        obtain ⟨hparts, hbody⟩ := classBody_negated true h
        rw [hparts]
        exact ⟨rfl, congrArg ('!' :: ·) hbody⟩
  · rw [splitClass_of_ne hneg] at h
    obtain ⟨hparts, hbody⟩ := classBody_negated false h
    rw [hparts]
    exact ⟨(beq_eq_false_iff_ne.mpr hneg).symm, hbody⟩

/-- A class as the table tries it. -/
theorem tokenMatches_class (h : splitClass p = some parts) (front : List Char) (character : Char) :
    tokenMatches (front ++ '[' :: p) front.length '['
        (some (front.length + 1 + (if parts.1 then 1 else 0) + parts.2.1.length)) character =
      some (inClass character parts.2.1 != parts.1) := by
  obtain ⟨hnegated, hp⟩ := splitClass_eq h
  have hfirst : (front ++ '[' :: p)[front.length + 1]? = p[0]? := getElem?_append_at front _ 1
  have hpattern : front ++ '[' :: p =
      (front ++ '[' :: if parts.1 then ['!'] else []) ++ (parts.2.1 ++ ']' :: parts.2.2) := by
    rw [List.append_assoc, List.cons_append, ← hp]
  have hlen : (front ++ '[' :: if parts.1 then ['!'] else []).length =
      front.length + 1 + if parts.1 then 1 else 0 := by
    cases parts.1 <;> simp
  have hmember := member_eq character (']' :: parts.2.2)
    (front.length + 1 + (if parts.1 then 1 else 0) + parts.2.1.length + 1)
    (front ++ '[' :: if parts.1 then ['!'] else []) parts.2.1 false (by omega)
  rw [← hpattern, hlen] at hmember
  unfold tokenMatches
  rw [hfirst, ← hnegated]
  show (member _ _ _ _ _ _ >>= _) = _
  rw [hmember]
  rfl

/-! ## What a token matches -/

theorem matches_nil {t : List Char} : Matches [] t ↔ t = [] := by
  constructor
  · rintro ⟨⟩
    rfl
  · rintro rfl
    exact .done

theorem matches_star {t : List Char} :
    Matches ('*' :: p) t ↔ ∃ k ≤ t.length, Matches p (t.drop k) := by
  constructor
  · intro h
    cases h with
    | @star p t s h =>
        refine ⟨s.length, ?_, ?_⟩
        · rw [List.length_append]
          exact Nat.le_add_right _ _
        · rwa [List.drop_left]
    | char hstar _ _ _ => exact absurd rfl hstar
  · rintro ⟨k, -, h⟩
    have := Matches.star (t.take k) h
    rwa [List.take_append_drop] at this

/-- The token that a pattern begins with, when it is not a star, and what is behind it. -/
inductive Token : List Char → (Char → Bool) → List Char → Prop
  | any (p : List Char) : Token ('?' :: p) (fun _ => true) p
  | ofClass {p : List Char} {parts : Bool × List Char × List Char}
      (h : splitClass p = some parts) :
      Token ('[' :: p) (fun c => inClass c parts.2.1 != parts.1) parts.2.2
  | char {x : Char} {p : List Char} (hstar : x ≠ '*') (hany : x ≠ '?')
      (hbracket : x = '[' → splitClass p = none) : Token (x :: p) (fun c => x == c) p

theorem token_of_ne {x : Char} (p : List Char) (hstar : x ≠ '*') :
    ∃ accepts rest, Token (x :: p) accepts rest := by
  by_cases hany : x = '?'
  · subst hany
    exact ⟨_, _, .any p⟩
  · by_cases hbracket : x = '['
    · subst hbracket
      cases h : splitClass p with
      | none => exact ⟨_, _, .char hstar hany fun _ => h⟩
      | some parts => exact ⟨_, _, .ofClass h⟩
    · exact ⟨_, _, .char hstar hany fun h => absurd h hbracket⟩

theorem matches_token {q rest t : List Char} (h : Token q accepts rest) :
    Matches q t ↔ ∃ c t', t = c :: t' ∧ accepts c = true ∧ Matches rest t' := by
  cases h with
  | any p =>
      constructor
      · intro h
        cases h with
        | any c h => exact ⟨c, _, rfl, rfl, h⟩
        | char _ hany _ _ => exact absurd rfl hany
      · rintro ⟨c, t, rfl, -, h⟩
        exact .any c h
  | @ofClass p parts hclass =>
      constructor
      · intro h
        cases h with
        | ofClass hclass' hc h =>
            cases hclass.symm.trans hclass'
            exact ⟨_, _, rfl, bne_iff_ne.mpr hc, h⟩
        | bracket hnone _ => cases hclass.symm.trans hnone
        | char _ _ hbracket _ => exact absurd rfl hbracket
      · rintro ⟨c, t, rfl, hc, h⟩
        exact .ofClass hclass (bne_iff_ne.mp hc) h
  | @char x p hstar hany hbracket =>
      constructor
      · intro h
        cases h with
        | star => exact absurd rfl hstar
        | any => exact absurd rfl hany
        | ofClass hclass _ _ => cases (hbracket rfl).symm.trans hclass
        | bracket _ h | char _ _ _ h => exact ⟨_, _, rfl, beq_self_eq_true _, h⟩
      · rintro ⟨c, t, rfl, hc, h⟩
        obtain rfl := beq_iff_eq.mp hc
        by_cases hopen : x = '['
        · subst hopen
          exact .bracket (hbracket rfl) h
        · exact .char hstar hany hopen h

/-! ## The scan -/

/-- A part of the text that a row marks is followed by what the rest of the pattern matches. -/
def Accepted (p text : List Char) (values : Nat → Bool) : Prop :=
  ∃ i ≤ text.length, values i = true ∧ Matches p (text.drop i)

theorem accepted_star {text : List Char} :
    Accepted p text (reached values) ↔ Accepted ('*' :: p) text values := by
  constructor
  · rintro ⟨j, hj, hreached, h⟩
    obtain ⟨i, hi, hvalue⟩ := reached_eq_true.mp hreached
    refine ⟨i, hi.trans hj, hvalue, matches_star.mpr ⟨j - i, ?_, ?_⟩⟩
    · rw [List.length_drop]
      exact Nat.sub_le_sub_right hj i
    · rwa [List.drop_drop, Nat.add_sub_cancel' hi]
  · rintro ⟨i, hi, hvalue, h⟩
    obtain ⟨k, hk, h⟩ := matches_star.mp h
    rw [List.length_drop] at hk
    rw [List.drop_drop] at h
    exact ⟨i + k, by omega, reached_eq_true.mpr ⟨i, Nat.le_add_right _ _, hvalue⟩, h⟩

theorem accepted_token {q rest text : List Char} (hq : Token q accepts rest) :
    Accepted rest text (moved values fun j => (text[j]?).any accepts) ↔ Accepted q text values := by
  constructor
  · rintro ⟨i, hi, hmoved, h⟩
    cases i with
    | zero => cases hmoved
    | succ i =>
        obtain ⟨hvalue, haccepts⟩ := Bool.and_eq_true_iff.mp hmoved
        replace haccepts : (text[i]?).any accepts = true := haccepts
        rw [List.getElem?_eq_getElem hi] at haccepts
        refine ⟨i, Nat.le_of_succ_le hi, hvalue, (matches_token hq).mpr ?_⟩
        exact ⟨text[i], text.drop (i + 1), List.drop_eq_getElem_cons hi, haccepts, h⟩
  · rintro ⟨i, hi, hvalue, h⟩
    obtain ⟨c, t, ht, haccepts, h⟩ := (matches_token hq).mp h
    have hlt : i < text.length := by
      have := congrArg List.length ht
      rw [List.length_drop, List.length_cons] at this
      omega
    rw [List.drop_eq_getElem_cons hlt] at ht
    obtain ⟨rfl, rfl⟩ := List.cons.inj ht
    refine ⟨i + 1, hlt, ?_, h⟩
    show (values i && (text[i]?).any accepts) = true
    rw [hvalue, List.getElem?_eq_getElem hlt]
    exact haccepts

theorem accepted_nil {text : List Char} : Accepted [] text values ↔ values text.length = true := by
  constructor
  · rintro ⟨i, hi, hvalue, h⟩
    obtain rfl : i = text.length :=
      Nat.le_antisymm hi (List.drop_eq_nil_iff.mp (matches_nil.mp h))
    exact hvalue
  · exact fun h => ⟨_, le_rfl, h, matches_nil.mpr List.drop_length⟩

/-- One turn of the loop at a token: what the token reads is behind, and the row is moved by what
it accepts. -/
theorem token_row {x : Char} {rest : List Char} (hq : Token (x :: p) accepts rest)
    (front text : List Char) (hrow : Row text.length previous values) :
    ∃ read next, x :: p = read ++ rest ∧ read ≠ [] ∧
      ((stopOf (front ++ x :: p) front.length x).map (· + 1)).getD (front.length + 1) =
        (front ++ read).length ∧
      tokenRow (front ++ x :: p) text front.length x (stopOf (front ++ x :: p) front.length x)
        previous = some next ∧
      Row text.length next (moved values fun j => (text[j]?).any accepts) := by
  have hread : ∃ read, x :: p = read ++ rest ∧ read ≠ [] ∧
      ((stopOf (front ++ x :: p) front.length x).map (· + 1)).getD (front.length + 1) =
        (front ++ read).length ∧
      ∀ c, tokenMatches (front ++ x :: p) front.length x
        (stopOf (front ++ x :: p) front.length x) c = some (accepts c) := by
    cases hq with
    | any => exact ⟨['?'], rfl, List.cons_ne_nil _ _, by rw [List.length_append]; rfl, fun c => rfl⟩
    | @ofClass _ parts h =>
        obtain ⟨hnegated, hp⟩ := splitClass_eq h
        have hstop : stopOf (front ++ '[' :: p) front.length '[' =
            some (front.length + 1 + (if parts.1 then 1 else 0) + parts.2.1.length) := by
          rw [stopOf, if_pos rfl, classEnd_eq, h]
          rfl
        refine ⟨'[' :: ((if parts.1 then ['!'] else []) ++ (parts.2.1 ++ [']'])), ?_,
          List.cons_ne_nil _ _, ?_, fun c => ?_⟩
        · rw [List.cons_append, List.append_assoc, List.append_assoc, List.singleton_append, ← hp]
        · rw [hstop]
          cases parts.1 <;> simp <;> omega
        · rw [hstop]
          exact tokenMatches_class h front c
    | char hstar hany hbracket =>
        have hstop : stopOf (front ++ x :: p) front.length x = none := by
          unfold stopOf
          by_cases hopen : x = '['
          · subst hopen
            rw [if_pos rfl, classEnd_eq, hbracket rfl]
            rfl
          · exact if_neg hopen
        refine ⟨[x], rfl, List.cons_ne_nil _ _, ?_, fun c => ?_⟩
        · rw [hstop, List.length_append]
          rfl
        · rw [hstop, tokenMatches, beq_eq_false_iff_ne.mpr hany, Bool.false_or]
  obtain ⟨read, hp, hne, hposition, hmatches⟩ := hread
  obtain ⟨next, hnext, hrow'⟩ := tokenRow_eq (fun j => (text[j]?).any accepts) hrow
    (fun j c hc => by rw [hmatches, hc]; rfl)
  exact ⟨read, next, hp, hne, hposition, hnext, hrow'⟩

/-- The loop ends, and what it finds at the end of the text is what the pattern means. -/
theorem globLoop_eq (text : List Char) (turns : Nat) :
    ∀ (front p : List Char) (previous : List Bool) (values : Nat → Bool),
      Row text.length previous values → p.length < turns →
      ∃ b, globLoop (front ++ p) text turns front.length previous = some b ∧
        (b = true ↔ Accepted p text values) := by
  induction turns with
  | zero => exact fun _ _ _ _ _ h => absurd h (Nat.not_lt_zero _)
  | succ turns ih =>
      intro front p previous values hrow hturns
      cases p with
      | nil =>
          refine ⟨values text.length, ?_, accepted_nil.symm⟩
          rw [globLoop, if_neg (by simp)]
          exact hrow.2 _ le_rfl
      | cons x p =>
          have hx : (front ++ x :: p)[front.length]? = some x := getElem?_append_at front _ 0
          rw [globLoop, if_pos (by simp), hx, Json.some_bind_eq]
          by_cases hstar : x = '*'
          · subst hstar
            obtain ⟨next, hnext, hrow'⟩ := starRow_eq hrow
            obtain ⟨b, hb, hiff⟩ :=
              ih (front ++ ['*']) p next _ hrow' (Nat.lt_of_succ_lt_succ hturns)
            rw [List.append_assoc, List.length_append] at hb
            rw [if_pos rfl, hnext]
            exact ⟨b, hb, hiff.trans accepted_star⟩
          · obtain ⟨accepts, rest, hq⟩ := token_of_ne p hstar
            obtain ⟨read, next, hp, hne, hposition, hnext, hrow'⟩ := token_row hq front text hrow
            have hlen : rest.length < turns := by
              have := congrArg List.length hp
              have := List.length_pos_iff.mpr hne
              rw [List.length_append] at *
              omega
            obtain ⟨b, hb, hiff⟩ := ih (front ++ read) rest next _ hrow' hlen
            rw [List.append_assoc, ← hp] at hb
            refine ⟨b, ?_, hiff.trans (accepted_token hq)⟩
            rw [if_neg hstar]
            show (tokenRow _ _ _ _ _ _ >>= _) = _
            rw [hnext, Json.some_bind_eq, hposition]
            exact hb

/-- **A pattern matches what it means.** For patterns of at most 512 characters and texts of at
most 4096, the scan ends and no index of it is out of range. -/
theorem glob_iff_matches (pattern text : String) (hpattern : pattern.toList.length ≤ 512)
    (htext : text.toList.length ≤ 4096) (turns : Nat) (hturns : pattern.toList.length < turns) :
    ∃ b, glob turns pattern text = some b ∧
      (b = true ↔ Matches pattern.toList text.toList) := by
  have hstart : 0 < (List.replicate (text.toList.length + 1) false).length := by
    rw [List.length_replicate]
    exact Nat.succ_pos _
  have hrow : Row text.toList.length
      ((List.replicate (text.toList.length + 1) false).set 0 true) (· == 0) := by
    refine ⟨by rw [List.length_set, List.length_replicate], fun j hj => ?_⟩
    cases j with
    | zero => exact List.getElem?_set_self hstart
    | succ j =>
        rw [List.getElem?_set_ne (Nat.succ_ne_zero j).symm,
          List.getElem?_replicate_of_lt (Nat.lt_succ_of_le hj)]
        rfl
  obtain ⟨b, hb, hiff⟩ := globLoop_eq text.toList turns [] pattern.toList _ _ hrow hturns
  refine ⟨b, ?_, hiff.trans ⟨?_, fun h => ⟨0, Nat.zero_le _, rfl, h⟩⟩⟩
  · have hlong : ¬ (decide (512 < pattern.toList.length) ||
        decide (4096 < text.toList.length)) = true := by
      rw [Bool.or_eq_true, decide_eq_true_iff, decide_eq_true_iff]
      omega
    unfold glob
    rw [if_neg hlong, store_eq hstart, Json.some_bind_eq]
    exact hb
  · rintro ⟨i, -, hi, h⟩
    obtain rfl := beq_iff_eq.mp hi
    exact h

/-- A class with a range, a closing bracket for a member and a star behind it. -/
theorem glob_of_class :
    ∃ b, glob 13 "[]a-c]?*.org" "bx.news.org" = some b ∧
      (b = true ↔ Matches "[]a-c]?*.org".toList "bx.news.org".toList) :=
  glob_iff_matches _ _ (by decide +kernel) (by decide +kernel) 13 (by decide +kernel)

end YoinkCore.Insight
