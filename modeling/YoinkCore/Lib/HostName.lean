import YoinkCore.Lib.Text

/-!
# Addresses and host names

IP addresses as the Rust standard library reads and prints them, and the part of the
WHATWG host parser that sees ASCII names: a name whose last label is numeric is an IPv4
address, or no host at all. Whether a name with `xn--` labels is valid is a parameter.
-/

namespace YoinkCore.Lib.HostName

open Text

/-- `url::Host`. An IPv4 address is its number, an IPv6 address its eight segments. -/
inductive Host where
  | domain (name : Str)
  | ipv4 (address : Nat)
  | ipv6 (segments : List Nat)
deriving DecidableEq

/-! ## Printed addresses -/

def decimal (n : Nat) : Str := (toString n).toList

def showIpv4 (address : Nat) : Str :=
  ['.'].intercalate ([2 ^ 24, 2 ^ 16, 2 ^ 8, 1].map fun unit => decimal (address / unit % 256))

def showGroups (segments : List Nat) : Str :=
  [':'].intercalate (segments.map (Nat.toDigits 16))

/-- The start and the length of the first of the longest runs of zeros. -/
def longestZeros (segments : List Nat) : Nat × Nat :=
  (List.range segments.length).foldl
    (fun best start =>
      let length := ((segments.drop start).takeWhile (· = 0)).length
      if best.2 < length then (start, length) else best) (0, 0)

def showIpv6 (segments : List Nat) : Str :=
  match segments with
  | [0, 0, 0, 0, 0, 0xFFFF, hi, lo] => "::ffff:".toList ++ showIpv4 (hi * 2 ^ 16 + lo)
  | _ =>
      let (start, length) := longestZeros segments
      if 1 < length then
        showGroups (segments.take start) ++ "::".toList ++
          showGroups (segments.drop (start + length))
      else showGroups segments

/-! ## `IpAddr::from_str` -/

/-- A decimal number up to 255, without leading zeros. -/
def octet (t : Str) : Option Nat :=
  if t = ['0'] ∨ t.head? ≠ some '0' then (digits t).filter (· ≤ 255) else none

/-- The number four octets make. -/
def fourOctets : List Str → Option Nat
  | [a, b, c, d] => do
      let a ← octet a
      let b ← octet b
      let c ← octet c
      let d ← octet d
      return a * 2 ^ 24 + b * 2 ^ 16 + c * 2 ^ 8 + d
  | _ => none

def parseIpv4 (t : Str) : Option Nat := fourOctets (split '.' t)

/-- The value of one digit, up to base sixteen. -/
def digitValue (c : Char) : Nat :=
  if isDigit c then c.toNat - '0'.toNat else (toLower c).toNat - 'a'.toNat + 10

/-- The value of digits in a base, unless one is no digit of it. No digits are zero. -/
def numeral (base : Nat) (t : Str) : Option Nat :=
  if t.all fun c => isHexDigit c && decide (digitValue c < base) then
    some (t.foldl (fun n c => base * n + digitValue c) 0)
  else none

def group (t : Str) : Option Nat :=
  if 0 < t.length ∧ t.length ≤ 4 then numeral 16 t else none

/-- Groups of an IPv6 address, where the last may be an IPv4 address. -/
def groups (tail : Bool) : List Str → Option (List Nat)
  | [] => some []
  | [t] =>
      match if tail then parseIpv4 t else none with
      | some address => some [address / 2 ^ 16, address % 2 ^ 16]
      | none => (group t).map fun n => [n]
  | t :: ts => do
      let n ← group t
      let rest ← groups tail ts
      return n :: rest

/-- What stands between colons; nothing is no group. -/
def pieces (t : Str) : List Str := if t = [] then [] else split ':' t

/-- Eight groups, or fewer around one `::`. -/
def parseIpv6 (t : Str) : Option (List Nat) :=
  match splitOnce "::".toList t with
  | some (before, after) => do
      let head ← groups false (pieces before)
      let tail ← groups true (pieces after)
      if head.length + tail.length < 8 then
        return head ++ List.replicate (8 - (head.length + tail.length)) 0 ++ tail
      else none
  | none => (groups true (pieces t)).filter fun segments => segments.length = 8

/-- `IpAddr::from_str`, printed again by `to_string`. -/
def parseIpAddr (t : Str) : Option Str :=
  ((parseIpv4 t).map showIpv4).or ((parseIpv6 t).map showIpv6)

/-! ## The WHATWG host parser -/

/-- A number of an IPv4 address: hexadecimal, octal or decimal. -/
def ipv4Number (t : Str) : Option Nat :=
  match t with
  | [] => none
  | '0' :: 'x' :: rest => numeral 16 rest
  | '0' :: 'X' :: rest => numeral 16 rest
  | '0' :: c :: rest => numeral 8 (c :: rest)
  | _ => numeral 10 t

/-- The labels of a name, without an empty last one. -/
def labels (t : Str) : List Str :=
  let parts := split '.' t
  if 1 < parts.length ∧ parts.getLast? = some [] then parts.dropLast else parts

/-- The last label is a number, so the name is an IPv4 address or wrong. -/
def endsInNumber (t : Str) : Bool :=
  (labels t).getLast?.any fun last =>
    (!last.isEmpty && last.all isDigit) || (ipv4Number last).isSome

/-- The address of up to four numbers, the last of which fills the rest. -/
def ipv4Numbers : List Nat → Nat → Option Nat
  | [], _ => none
  | [last], weight => if last < weight then some last else none
  | n :: ns, weight =>
      if n ≤ 255 then (ipv4Numbers ns (weight / 256)).map (n * (weight / 256) + ·) else none

def ipv4Address (t : Str) : Option Nat :=
  if (labels t).length ≤ 4 then
    ((labels t).mapM ipv4Number).bind fun ns => ipv4Numbers ns (2 ^ 32)
  else none

def hasAce (t : Str) : Bool := (split '.' t).any fun l => "xn--".toList.isPrefixOf l

/-- The host of an ASCII name in lower case without forbidden characters. -/
def parseName (ace : Str → Bool) (t : Str) : Option Host :=
  if hasAce t && !ace t then none
  else if endsInNumber t then (ipv4Address t).map .ipv4
  else some (.domain t)

/-! ## Addresses in both grammars -/

variable {ace : Str → Bool} {t : Str}

/-- An IPv6 address has colons. -/
theorem parseIpv6_of_no_colon (h : ':' ∉ t) : parseIpv6 t = none := by
  have hp : pieces t = [] ∨ pieces t = [t] := by
    unfold pieces
    split
    · exact .inl rfl
    · exact .inr (split_of_not_mem h)
  rw [parseIpv6, splitOnce_of_not_mem (c := ':') (by decide) h]
  rcases hp with hp | hp
  · rw [hp]
    rfl
  · rw [hp, groups]
    cases parseIpv4 t with
    | some address => rfl
    | none => cases group t <;> rfl

theorem numeral_of_digits {n : Nat} (h : digits t = some n) : numeral 10 t = some n := by
  unfold digits at h
  split at h
  swap
  · cases h
  rename_i hd
  obtain rfl := Option.some.inj h
  have hall : ∀ c ∈ t, isDigit c = true := by simpa using hd.2
  have hvalue : ∀ c ∈ t, digitValue c = c.toNat - '0'.toNat := by
    intro c hc
    rw [digitValue, if_pos (hall c hc)]
  have hdigit : ∀ c ∈ t, (isHexDigit c && decide (digitValue c < 10)) = true := by
    intro c hc
    have := hall c hc
    rw [hvalue c hc]
    simp only [isDigit, Bool.and_eq_true, decide_eq_true_eq, Char.le_def,
      UInt32.le_iff_toNat_le] at this
    have h9 : ('9' : Char).val.toNat = 57 := rfl
    have h0 : ('0' : Char).toNat = 48 := rfl
    have hn : c.toNat = c.val.toNat := rfl
    simp only [isHexDigit, hall c hc, Bool.true_or, Bool.true_and, decide_eq_true_eq]
    omega
  rw [numeral, if_pos (List.all_eq_true.mpr hdigit), Option.some.injEq]
  exact List.foldl_ext _ _ 0 fun n c hc => by rw [hvalue c hc]

theorem octet_eq_some {n : Nat} (h : octet t = some n) :
    n ≤ 255 ∧ ipv4Number t = some n ∧ t.all isDigit = true ∧ t ≠ [] := by
  unfold octet at h
  split at h
  swap
  · cases h
  rename_i hz
  rw [Option.filter_eq_some_iff, decide_eq_true_eq] at h
  obtain ⟨hd, hn⟩ := h
  have hne : t ≠ [] ∧ t.all isDigit = true := by
    unfold digits at hd
    split at hd
    · assumption
    · cases hd
  refine ⟨hn, ?_, hne.2, hne.1⟩
  have hnum := numeral_of_digits hd
  unfold ipv4Number
  split
  · exact absurd rfl hne.1
  · simp at hz
  · simp at hz
  · simp at hz
  · exact hnum

/-- An address in dotted decimal is one for the host parser too. -/
theorem ipv4Address_of_parseIpv4 {a : Nat} (h : parseIpv4 t = some a) :
    (ipv4Address t).isSome = true ∧ hasAce t = false := by
  unfold parseIpv4 fourOctets at h
  split at h
  swap
  · cases h
  rename_i t₁ t₂ t₃ t₄ hs
  simp only [Option.bind_eq_bind, Option.bind_eq_some_iff] at h
  obtain ⟨n₁, h₁, n₂, h₂, n₃, h₃, n₄, h₄, -⟩ := h
  obtain ⟨l₁, e₁, d₁, -⟩ := octet_eq_some h₁
  obtain ⟨l₂, e₂, d₂, -⟩ := octet_eq_some h₂
  obtain ⟨l₃, e₃, d₃, -⟩ := octet_eq_some h₃
  obtain ⟨l₄, e₄, d₄, ne₄⟩ := octet_eq_some h₄
  have hlabels : labels t = [t₁, t₂, t₃, t₄] := by
    rw [labels, hs]
    simp [ne₄]
  constructor
  · have : n₄ < 2 ^ 32 / 256 / 256 / 256 := by omega
    simpa [ipv4Address, hlabels, e₁, e₂, e₃, e₄, ipv4Numbers, l₁, l₂, l₃] using this
  · have hdigits : ∀ l ∈ split '.' t, l.all isDigit = true := by
      intro l hl
      rw [hs] at hl
      simp only [List.mem_cons, List.not_mem_nil, or_false] at hl
      rcases hl with rfl | rfl | rfl | rfl <;> assumption
    rw [hasAce, List.any_eq_false]
    intro l hl hp
    obtain ⟨rest, rfl⟩ := List.isPrefixOf_iff_prefix.mp hp
    have := List.all_eq_true.mp (hdigits _ hl) 'x' (by simp)
    exact absurd this (by decide)

theorem parseName_isSome :
    (parseName ace t).isSome = true ↔
      (hasAce t = true → ace t = true) ∧
        (endsInNumber t = true → (ipv4Address t).isSome = true) := by
  unfold parseName
  by_cases ha : hasAce t = true <;> by_cases hc : ace t = true <;>
    by_cases he : endsInNumber t = true <;> simp [ha, hc, he]

/-- A name that is a domain stays as it is. -/
theorem name_of_domain {name : Str} (h : parseName ace t = some (.domain name)) : name = t := by
  unfold parseName at h
  split at h
  · cases h
  · split at h
    · obtain ⟨a, -, ha⟩ := Option.map_eq_some_iff.mp h
      cases ha
    · cases h
      rfl

theorem not_ipv6_of_name {segments : List Nat} : parseName ace t ≠ some (.ipv6 segments) := by
  unfold parseName
  split
  · simp
  · split <;> simp

end YoinkCore.Lib.HostName
