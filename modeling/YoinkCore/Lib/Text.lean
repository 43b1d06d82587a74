import Mathlib

/-!
# Text

Strings are read as lists of characters. The functions here follow the string
methods of the Rust standard library: `split`, `lines`, `trim_end_matches`, the
character classes, and `str::parse` for integers and `f64`.
-/

namespace YoinkCore.Lib.Text

abbrev Str := List Char

/-! ## Character classes -/

def isAscii (c : Char) : Bool := decide (c.toNat < 128)

/-- `char::is_control`: the general category `Cc`. -/
def isControl (c : Char) : Bool :=
  decide (c.toNat < 32) || (decide (127 ≤ c.toNat) && decide (c.toNat < 160))

def isAsciiControl (c : Char) : Bool := decide (c.toNat < 32) || decide (c.toNat = 127)

def isDigit (c : Char) : Bool := decide ('0' ≤ c) && decide (c ≤ '9')

def isLower (c : Char) : Bool := decide ('a' ≤ c) && decide (c ≤ 'z')

def isUpper (c : Char) : Bool := decide ('A' ≤ c) && decide (c ≤ 'Z')

def isAlphanumeric (c : Char) : Bool := isLower c || isUpper c || isDigit c

def isHexDigit (c : Char) : Bool :=
  isDigit c || (decide ('a' ≤ c) && decide (c ≤ 'f')) ||
    (decide ('A' ≤ c) && decide (c ≤ 'F'))

def toLower (c : Char) : Char :=
  if isUpper c then Char.ofNat (c.toNat + 32) else c

/-- Length in bytes, as `str::len`. -/
def byteLen (t : Str) : Nat := (t.map Char.utf8Size).sum

variable {t : Str} {c : Char}

/-- An alphanumeric character takes one byte. -/
theorem byteLen_of_alphanumeric (h : ∀ c ∈ t, isAlphanumeric c = true) : byteLen t = t.length := by
  induction t with
  | nil => rfl
  | cons c t ih =>
      have hc : c.utf8Size = 1 := by
        have hc := h c List.mem_cons_self
        simp only [isAlphanumeric, isLower, isUpper, isDigit, Bool.or_eq_true,
          Bool.and_eq_true, decide_eq_true_eq, Char.le_def] at hc
        rw [Char.utf8Size_eq_one_iff]
        rcases hc with (⟨-, hc⟩ | ⟨-, hc⟩) | ⟨-, hc⟩
        · exact UInt32.le_trans hc (by decide)
        · exact UInt32.le_trans hc (by decide)
        · exact UInt32.le_trans hc (by decide)
      have ih := ih fun d hd => h d (List.mem_cons_of_mem _ hd)
      unfold byteLen at ih ⊢
      rw [List.map_cons, List.sum_cons, hc, ih, List.length_cons, Nat.add_comm]

/-- Length in UTF-16 code units, as `encode_utf16().count()`. -/
def utf16Len (t : Str) : Nat := (t.map fun c => if c.toNat < 0x10000 then 1 else 2).sum

/-! ## Splitting -/

/-- `str::split` at one character. -/
def split (sep : Char) : Str → List Str
  | [] => [[]]
  | c :: cs =>
      if c = sep then [] :: split sep cs
      else
        match split sep cs with
        | [] => [[c]]
        | w :: ws => (c :: w) :: ws

/-- `str::strip_suffix` of one character. -/
def stripSuffix (c : Char) (t : Str) : Str :=
  if t.getLast? = some c then t.dropLast else t

/-- `str::trim_end_matches` of one character. -/
def trimEnd (c : Char) (t : Str) : Str := t.rdropWhile (· = c)

/-- `str::trim_start_matches` of one character. -/
def trimStart (c : Char) (t : Str) : Str := t.dropWhile (· = c)

/-- `str::trim_matches` of one character, and SQL's `TRIM` of it. -/
def trimMatches (c : Char) (t : Str) : Str := trimEnd c (trimStart c t)

/-- `char::is_whitespace`: the property `White_Space`. -/
def isWhitespace (c : Char) : Bool :=
  (decide (9 ≤ c.toNat) && decide (c.toNat ≤ 13)) ||
    (decide (0x2000 ≤ c.toNat) && decide (c.toNat ≤ 0x200A)) ||
    [0x20, 0x85, 0xA0, 0x1680, 0x2028, 0x2029, 0x202F, 0x205F, 0x3000].contains c.toNat

/-- `str::trim`. -/
def trim (t : Str) : Str := (t.dropWhile isWhitespace).rdropWhile isWhitespace

/-- `str::strip_prefix`. -/
def stripPrefix (p t : Str) : Option Str :=
  if p.isPrefixOf t then some (t.drop p.length) else none

/-- `str::trim_start_matches` of a pattern: every copy it begins with is taken off. -/
def trimStartText (p t : Str) : Str :=
  (List.range t.length).foldl (fun t _ => (stripPrefix p t).getD t) t

/-- `str::split_once` at a pattern: what stands before and after its first occurrence. -/
def splitOnce (p : Str) : Str → Option (Str × Str)
  | [] => if p = [] then some ([], []) else none
  | c :: cs =>
      if p.isPrefixOf (c :: cs) then some ([], (c :: cs).drop p.length)
      else (splitOnce p cs).map fun (before, after) => (c :: before, after)

/-- `str::rsplit_once` at a character: what stands before and after its last occurrence. -/
def rsplitOnce (c : Char) (t : Str) : Option (Str × Str) :=
  (splitOnce [c] t.reverse).map fun (after, before) => (before.reverse, after.reverse)

/-- `str::replace`, for a pattern that is not empty. -/
def replace (p q t : Str) : Str :=
  let rec go : Nat → Str → Str
    | 0, t => t
    | n + 1, t =>
        match splitOnce p t with
        | some (before, after) => before ++ q ++ go n after
        | none => t
  go t.length t

/-- Ended segments lose one carriage return; an empty last segment is no line. -/
def endedLines : List Str → List Str
  | [] => []
  | [w] => if w = [] then [] else [w]
  | w :: ws => stripSuffix '\r' w :: endedLines ws

/-- `str::lines`: a line ends with `\n` or `\r\n`. -/
def lines (t : Str) : List Str := endedLines (split '\n' t)

theorem split_sep (sep : Char) (t : Str) : split sep (sep :: t) = [] :: split sep t :=
  if_pos rfl

theorem split_ne_nil (sep : Char) (t : Str) : split sep t ≠ [] := by
  cases t with
  | nil => exact List.cons_ne_nil _ _
  | cons c cs =>
      by_cases hc : c = sep
      · rw [hc, split_sep]
        exact List.cons_ne_nil _ _
      · have heq : split sep (c :: cs) =
            match split sep cs with
            | [] => [[c]]
            | w :: ws => (c :: w) :: ws := if_neg hc
        rw [heq]
        cases split sep cs with
        | nil => exact List.cons_ne_nil _ _
        | cons w ws => exact List.cons_ne_nil _ _

theorem split_cons_of_ne {sep : Char} (h : c ≠ sep) {w : Str} {ws : List Str}
    (ht : split sep t = w :: ws) : split sep (c :: t) = (c :: w) :: ws := by
  have heq : split sep (c :: t) =
      match split sep t with
      | [] => [[c]]
      | w :: ws => (c :: w) :: ws := if_neg h
  rw [heq, ht]

/-- What stands before a separator and after it is split by itself. -/
theorem split_append_sep (sep : Char) (s t : Str) :
    split sep (s ++ sep :: t) = split sep s ++ split sep t := by
  induction s with
  | nil => exact split_sep sep t
  | cons c s ih =>
      by_cases hc : c = sep
      · rw [hc, List.cons_append, split_sep, split_sep, ih, List.cons_append]
      · rcases hs : split sep s with _ | ⟨w, ws⟩
        · exact absurd hs (split_ne_nil sep s)
        rw [hs] at ih
        rw [split_cons_of_ne hc hs]
        exact split_cons_of_ne hc ih

/-- Every character but the separators is in a part. -/
theorem mem_split_of_mem {sep : Char} (hc : c ≠ sep) (h : c ∈ t) : ∃ w ∈ split sep t, c ∈ w := by
  induction t with
  | nil => cases h
  | cons d t ih =>
      rcases ht : split sep t with _ | ⟨w, ws⟩
      · exact absurd ht (split_ne_nil sep t)
      rw [ht] at ih
      by_cases hd : d = sep
      · obtain ⟨v, hv, hcv⟩ := ih ((List.mem_cons.mp h).resolve_left fun e => hc (e.trans hd))
        exact ⟨v, by rw [hd, split_sep, ht]; exact List.mem_cons_of_mem _ hv, hcv⟩
      · rw [split_cons_of_ne hd ht]
        rcases List.mem_cons.mp h with rfl | h
        · exact ⟨c :: w, List.mem_cons_self, List.mem_cons_self⟩
        · obtain ⟨v, hv, hcv⟩ := ih h
          rcases List.mem_cons.mp hv with rfl | hv
          · exact ⟨d :: v, List.mem_cons_self, List.mem_cons_of_mem _ hcv⟩
          · exact ⟨v, List.mem_cons_of_mem _ hv, hcv⟩

theorem split_of_not_mem {sep : Char} (h : sep ∉ t) : split sep t = [t] := by
  induction t with
  | nil => rfl
  | cons c t ih =>
      rw [List.mem_cons, not_or] at h
      exact split_cons_of_ne (Ne.symm h.1) (ih h.2)

/-- A pattern is not found where one of its characters is missing. -/
theorem splitOnce_of_not_mem {p : Str} (hc : c ∈ p) (h : c ∉ t) : splitOnce p t = none := by
  induction t with
  | nil =>
      rw [splitOnce, if_neg]
      rintro rfl
      cases hc
  | cons d t ih =>
      have hp : ¬ p.isPrefixOf (d :: t) = true := fun hp =>
        h ((List.isPrefixOf_iff_prefix.mp hp).subset hc)
      rw [splitOnce, if_neg hp, ih fun ht => h (List.mem_cons_of_mem _ ht)]
      rfl

theorem splitOnce_append {s : Str} (h : c ∉ s) (t : Str) :
    splitOnce [c] (s ++ c :: t) = some (s, t) := by
  induction s with
  | nil => simp [splitOnce]
  | cons d s ih =>
      rw [List.mem_cons, not_or] at h
      rw [List.cons_append, splitOnce, if_neg (by simpa using h.1), ih h.2]
      rfl

theorem splitOnce_eq {split : Str × Str} (h : splitOnce [c] t = some split) :
    t = split.1 ++ c :: split.2 := by
  induction t generalizing split with
  | nil => cases h
  | cons d t ih =>
      rw [splitOnce] at h
      by_cases hd : c = d
      · subst hd
        rw [if_pos (by simp)] at h
        cases h
        rfl
      · rw [if_neg (by simpa using hd)] at h
        obtain ⟨split, hsplit, rfl⟩ := Option.map_eq_some_iff.mp h
        exact congrArg (d :: ·) (ih hsplit)

/-- A text is left as it is when its ends are not to be trimmed. -/
theorem trimEnd_of_getLast (h : t.getLast? ≠ some c) : trimEnd c t = t := by
  rw [trimEnd, List.rdropWhile_eq_self_iff]
  intro hne hl
  exact h (by rw [List.getLast?_eq_getLast_of_ne_nil hne, of_decide_eq_true hl])

theorem head_rdropWhile {p : Char → Bool} {rest : Str} (h : t.rdropWhile p = c :: rest) :
    t.head? = some c := by
  obtain ⟨after, hafter⟩ := List.rdropWhile_prefix p t
  rw [← hafter, h]
  rfl

/-- A trimmed text has nothing to trim. -/
theorem trim_trim (t : Str) : trim (trim t) = trim t := by
  have hstart : (trim t).dropWhile isWhitespace = trim t := by
    cases htrim : trim t with
    | nil => rfl
    | cons c rest =>
        have hhead := head_rdropWhile htrim
        have hc : ¬ isWhitespace c = true := by
          have := List.head?_dropWhile_not isWhitespace t
          rw [hhead] at this
          simpa using this
        exact List.dropWhile_cons_of_neg hc
  show List.rdropWhile isWhitespace ((trim t).dropWhile isWhitespace) = trim t
  rw [hstart]
  exact List.rdropWhile_idempotent isWhitespace _

theorem trim_of_not_whitespace (h : ∀ c ∈ t, isWhitespace c = false) : trim t = t := by
  have hd : t.dropWhile isWhitespace = t := by
    cases t with
    | nil => rfl
    | cons c t => rw [List.dropWhile_cons_of_neg (by simp [h c List.mem_cons_self])]
  rw [trim, hd, List.rdropWhile_eq_self_iff]
  intro hne hl
  rw [h _ (List.getLast_mem hne)] at hl
  cases hl

/-- A text without separators before a text lengthens its first part. -/
theorem split_append_left {sep : Char} {p w : Str} {ws : List Str} (hp : sep ∉ p)
    (ht : split sep t = w :: ws) : split sep (p ++ t) = (p ++ w) :: ws := by
  induction p with
  | nil => exact ht
  | cons c p ih =>
      rw [List.mem_cons, not_or] at hp
      exact split_cons_of_ne (Ne.symm hp.1) (ih hp.2)

/-- A text without separators after a text lengthens its last part. -/
theorem split_append_right {sep : Char} (ht : sep ∉ t) :
    ∀ {s : Str} {ws : List Str} {w : Str}, split sep s = ws ++ [w] →
      split sep (s ++ t) = ws ++ [w ++ t] := by
  intro s
  induction s with
  | nil =>
      intro ws w h
      obtain ⟨rfl, hw⟩ := List.append_inj' (show [] ++ [[]] = ws ++ [w] from h) rfl
      cases hw
      have hnil : split sep ([] : Str) = [] :: [] := rfl
      simpa using split_append_left (t := []) ht hnil
  | cons c s ih =>
      intro ws w h
      by_cases hc : c = sep
      · rw [hc, split_sep] at h
        rw [hc, List.cons_append, split_sep]
        cases ws with
        | nil =>
            rw [List.nil_append, List.cons.injEq] at h
            exact absurd h.2 (split_ne_nil sep s)
        | cons v ws =>
            rw [List.cons_append, List.cons.injEq] at h
            obtain ⟨rfl, h⟩ := h
            rw [ih h, List.cons_append]
      · rcases hs : split sep s with _ | ⟨v, vs⟩
        · exact absurd hs (split_ne_nil sep s)
        rw [split_cons_of_ne hc hs] at h
        cases ws with
        | nil =>
            rw [List.nil_append, List.cons.injEq] at h
            obtain ⟨rfl, rfl⟩ := h
            have := ih (show split sep s = [] ++ [_] from hs)
            exact split_cons_of_ne hc this
        | cons u ws =>
            rw [List.cons_append, List.cons.injEq] at h
            obtain ⟨rfl, rfl⟩ := h
            have := ih (show split sep s = (v :: ws) ++ [_] from hs)
            exact split_cons_of_ne hc this

/-- What is trimmed off the end is copies of the trimmed character. -/
theorem trimEnd_append (c : Char) (t : Str) :
    ∃ cs, t = trimEnd c t ++ cs ∧ ∀ d ∈ cs, d = c := by
  exact ⟨t.rtakeWhile (· = c), List.rdropWhile_append_rtakeWhile.symm,
    fun d hd => by simpa using List.mem_rtakeWhile_imp hd⟩

theorem stripPrefix_eq_some {p rest : Str} : stripPrefix p t = some rest ↔ t = p ++ rest := by
  unfold stripPrefix
  split
  · rename_i h
    obtain ⟨r, rfl⟩ := List.isPrefixOf_iff_prefix.mp h
    simp [eq_comm]
  · rename_i h
    constructor
    · intro hn
      cases hn
    · rintro rfl
      exact absurd (List.isPrefixOf_iff_prefix.mpr (List.prefix_append p rest)) h

theorem stripPrefix_eq_none {p : Str} : stripPrefix p t = none ↔ ¬ p <+: t := by
  unfold stripPrefix
  rw [← List.isPrefixOf_iff_prefix]
  split <;> simp_all

/-- A prefix ends before a text none of whose characters it has. -/
theorem prefix_of_prefix_append {p s : Str} (h : p <+: s ++ t) (hd : ∀ c ∈ t, c ∉ p) : p <+: s := by
  rcases List.prefix_or_prefix_of_prefix h (List.prefix_append s t) with hp | ⟨r, rfl⟩
  · exact hp
  · rw [List.prefix_append_right_inj] at h
    cases r with
    | nil => simp
    | cons c r => exact absurd (by simp) (hd c (h.subset List.mem_cons_self))

/-! ## Numbers -/

/-- The value of a nonempty string of decimal digits. -/
def digits (t : Str) : Option Nat :=
  if t ≠ [] ∧ t.all isDigit then
    some (t.foldl (fun n c => 10 * n + (c.toNat - '0'.toNat)) 0)
  else none

/-- `str::parse` for an unsigned integer type with largest value `hi`. -/
def parseUnsigned (hi : Nat) (t : Str) : Option Nat :=
  let body := match t with
    | '+' :: rest => rest
    | _ => t
  (digits body).filter fun n => decide (n ≤ hi)

/-- `str::parse` for a signed integer type from `lo` to `hi`. -/
def parseSigned (lo hi : Int) (t : Str) : Option Int :=
  let value := match t with
    | '+' :: rest => (digits rest).map Int.ofNat
    | '-' :: rest => (digits rest).map fun n => -Int.ofNat n
    | _ => (digits t).map Int.ofNat
  value.filter fun n => decide (lo ≤ n) && decide (n ≤ hi)

/-- The sign and the magnitude of a signed literal. -/
def signed (t : Str) : Bool × Str :=
  match t with
  | '+' :: rest => (false, rest)
  | '-' :: rest => (true, rest)
  | _ => (false, t)

/-- The exponent of a decimal literal, absent or `e` with a signed integer. -/
def exponent (t : Str) : Option Int :=
  match t with
  | [] => some 0
  | c :: rest =>
      if toLower c = 'e' then
        (digits (signed rest).2).map fun n =>
          if (signed rest).1 then -Int.ofNat n else Int.ofNat n
      else none

/-- `Digit+`, `Digit+ '.' Digit*` or `Digit* '.' Digit+`, with an exponent. -/
def decimal (t : Str) : Option Float :=
  let whole := t.takeWhile isDigit
  let rest := t.dropWhile isDigit
  let frac := match rest with
    | '.' :: more => more.takeWhile isDigit
    | _ => []
  let tail := match rest with
    | '.' :: more => more.dropWhile isDigit
    | _ => rest
  match digits (whole ++ frac), exponent tail with
  | some m, some e =>
      let scale := e - frac.length
      some (Float.ofScientific m (decide (scale < 0)) scale.natAbs)
  | _, _ => none

/-- `str::parse` for `f64`. -/
def parseF64 (t : Str) : Option Float :=
  let (neg, body) := signed t
  let magnitude :=
    match body.map toLower with
    | ['i', 'n', 'f'] | ['i', 'n', 'f', 'i', 'n', 'i', 't', 'y'] => some (1.0 / 0.0)
    | ['n', 'a', 'n'] => some (0.0 / 0.0)
    | _ => decimal body
  magnitude.map fun x => if neg then -x else x

/-- A signed literal is an unsigned one unless it begins with a minus sign. -/
theorem parseUnsigned_isSome {lo hi : Int} {top : Nat} (ht : hi ≤ top) {n : Int}
    (h : parseSigned lo hi t = some n) : (parseUnsigned top t).isSome = t.head?.any (· != '-') := by
  unfold parseSigned at h
  rw [Option.filter_eq_some_iff, Bool.and_eq_true, decide_eq_true_eq, decide_eq_true_eq] at h
  obtain ⟨hv, -, hn⟩ := h
  have hle : ∀ {m : Nat}, Int.ofNat m = n → m ≤ top := by
    intro m hm
    have hm : (m : Int) = n := hm
    omega
  unfold parseUnsigned
  split at hv
  · obtain ⟨m, hm, he⟩ := Option.map_eq_some_iff.mp hv
    simp [hm, hle he]
  · simp [digits, isDigit]
  · rename_i hplus hminus
    obtain ⟨m, hm, he⟩ := Option.map_eq_some_iff.mp hv
    split
    · rename_i rest
      exact absurd rfl (hplus rest)
    · cases t with
      | nil => simp [digits] at hm
      | cons c rest =>
          have hc : c ≠ '-' := fun hc => hminus rest (by rw [hc])
          simp [hm, hle he, hc]

example : parseF64 "1.5".toList = some 1.5 := by decide

example : parseF64 "-2e3".toList = some (-2000.0) := by decide

end YoinkCore.Lib.Text
