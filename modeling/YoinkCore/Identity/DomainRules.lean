import YoinkCore.Identity.KeywordRules
import YoinkCore.Downloads.CookieDomain
import YoinkCore.Lib.Written

/-!
# Domain rules

A domain rule is a host, with a port or without. A URL falls under the rule when its host
is the rule's or a subdomain of it. The host is compared as the URL parser prints it: a
root dot at its end stays, and no rule ends in one.
-/

namespace YoinkCore.Identity

open Lib Text HostName

/-- What the rules read of a URL besides its host. -/
class NsfwPlatform extends Downloads.HostPlatform, RegexBuilder where
  portOrKnownDefault : Url → Option Nat

/-! ## Rules -/

/-- The port a rule is written with, and its colon. -/
def portSuffix (s : Str) : Str :=
  if s.head? = some '[' then ((splitOnce [']'] s).map Prod.snd).getD []
  else ((rsplitOnce ':' s).map fun p => ':' :: p.2).getD []

def portOk (suffix : Str) : Bool :=
  suffix.isEmpty || ((stripPrefix [':'] suffix).bind (parseUnsigned 65535)).isSome

def labelOk (p : Str) : Bool :=
  !p.isEmpty && decide (byteLen p ≤ 63) && p.head? != some '-' && p.getLast? != some '-'

structure ContentMetadata where
  title : Str
  description : Str
  tags : List Str
  categories : List Str
deriving DecidableEq

def ContentMetadata.valid (m : ContentMetadata) : Bool :=
  decide (m.title.length ≤ 2000) && decide (m.description.length ≤ 2000) &&
    [m.tags, m.categories].all fun list =>
      decide (list.length ≤ 100) && list.all fun s => decide (s.length ≤ 128)

def ContentMetadata.prose (m : ContentMetadata) : Str :=
  [' '].intercalate
    [m.title, m.description, [' '].intercalate m.tags, [' '].intercalate m.categories]

structure NsfwCheck where
  url : Str
  isNsfw : Bool
  matchedDomain : Option Str
  matchedKeyword : Option Str
  matchedKeywords : List Str
deriving DecidableEq

section

variable [NsfwPlatform]

open Platform CharTables NsfwPlatform

/-- The URL is a host and nothing else. -/
def hostOnly (url : Url) : Bool :=
  (hostStr url).isSome && username url == "" && (password url).isNone && path url == "/" &&
    (query url).isNone && (fragment url).isNone

def hostText (url : Url) : Str := ((hostStr url).getD "").toList

/-- `normalize` of a domain whose `www.` is off. -/
def readRule (s : Str) : Except AdminError Str := do
  if trim s ≠ s ∨ s = [] ∨ s.any isControl = true ∨ 253 < s.length then throw .invalidInput
  let parsed ← (parseUrl (String.ofList (Downloads.httpsPrefix ++ s ++ ['/']))).elim
    (.error .invalidInput) .ok
  if hostOnly parsed = false then throw .invalidInput
  if (hostText parsed).head? ≠ some '[' ∧ (split '.' (hostText parsed)).all labelOk = false then
    throw .invalidInput
  if portOk (portSuffix s) = false then throw .invalidInput
  return hostText parsed ++ portSuffix s

/-- `normalize` of a domain. -/
def normalizeDomainRule (value : Str) : Except AdminError Str :=
  let s := lowercase value
  readRule ((stripPrefix "www.".toList s).getD s)

structure Rules where
  domains : List Str
  keywords : List KeywordRule

def compileDomains : List Str → Except AdminError (List Str)
  | [] => .ok []
  | v :: vs => do
      let d ← (normalizeDomainRule v).mapError fun _ => AdminError.unavailable
      let ds ← compileDomains vs
      return d :: ds

def Rules.compile (domains keywords : List Str) : Except AdminError Rules := do
  let domains ← compileDomains domains
  let keywords ← keywords.mapM compileKeyword
  return ⟨domains, keywords⟩

/-! ## Checks -/

/-- What `check` accepts as a source. -/
def sourceOk (url : Url) (source : Str) : Bool :=
  ["http", "https"].contains (scheme url) && (hostStr url).isSome &&
    decide (byteLen source ≤ 4096) && username url == "" && (password url).isNone

def authority (url : Url) (host : Str) : Option Str :=
  (portOrKnownDefault url).map fun port => host ++ ':' :: port.repr.toList

/-- `a` is the domain, or ends with a dot and the domain. -/
def endsWithDomain (a d : Str) : Bool := a == d || ('.' :: d).isSuffixOf a

def ruleMatches (url : Url) (d : Str) : Bool :=
  let host := lowercase (hostText url)
  endsWithDomain host d || (authority url host).any fun a => endsWithDomain a d

def keywordMatches (source : Str) (metadata : List ContentMetadata) (rule : KeywordRule) : Bool :=
  boundaryMatch rule.url source true || metadata.any fun m => boundaryMatch rule.text m.prose false

/-- The report on a source that is accepted. -/
def Rules.report (rules : Rules) (url : Url) (source : Str) (metadata : List ContentMetadata) :
    NsfwCheck :=
  let matchedDomain := rules.domains.find? (ruleMatches url)
  let matchedKeywords := (rules.keywords.filter (keywordMatches source metadata)).map
    fun rule => rule.keyword.value
  { url := source
    isNsfw := matchedDomain.isSome || !matchedKeywords.isEmpty
    matchedDomain
    matchedKeyword := matchedKeywords.head?
    matchedKeywords }

def Rules.check (rules : Rules) (source : Str) (metadata : List ContentMetadata) :
    Except AdminError NsfwCheck := do
  let url ← (parseUrl (String.ofList source)).elim (.error .invalidInput) .ok
  if sourceOk url source = false then throw .invalidInput
  if metadata.all ContentMetadata.valid = false then throw .unavailable
  return rules.report url source metadata

/-- The source and the metadata pass the checks on themselves. -/
structure Accepted (url : Url) (source : Str) (metadata : List ContentMetadata) : Prop where
  source : sourceOk url source = true
  metadata : metadata.all ContentMetadata.valid = true

theorem check_eq_ok {rules : Rules} {url : Url} {source : Str} {metadata : List ContentMetadata}
    {report : NsfwCheck} (hu : parseUrl (String.ofList source) = some url) :
    rules.check source metadata = .ok report ↔
      Accepted url source metadata ∧ report = rules.report url source metadata := by
  unfold Rules.check
  rw [hu, Option.elim_some, Tx.result_bind_eq_ok]
  simp only [Except.ok.injEq, exists_eq_left', Tx.result_guard_eq_ok, Bool.not_eq_false]
  constructor
  · rintro ⟨hs, hm, h⟩
    cases h
    exact ⟨⟨hs, hm⟩, rfl⟩
  · rintro ⟨⟨hs, hm⟩, rfl⟩
    exact ⟨hs, hm, rfl⟩

end

/-! ## Hosts and ports -/

/-- A host as the URL parser prints it: a name in lower case, or an IPv6 address in
brackets. -/
structure PrintedHost (h : Str) : Prop where
  lower : ∀ c ∈ h, isAscii c = true ∧ toLower c = c
  shape : (':' ∉ h ∧ '[' ∉ h) ∨
    ∃ inner, h = '[' :: (inner ++ [']']) ∧ ']' ∉ inner ∧ '.' ∉ h

theorem PrintedHost.map_toLower {h : Str} (hh : PrintedHost h) : h.map toLower = h := by
  conv_rhs => rw [← List.map_id h]
  exact List.map_congr_left fun c hc => (hh.lower c hc).2

variable {a d host port : Str}

theorem portOk_cases (h : portOk port = true) :
    port = [] ∨ ∃ p, port = ':' :: p ∧ p ≠ [] ∧ ∀ c ∈ p, isDigit c = true ∨ c = '+' := by
  rw [portOk, Bool.or_eq_true, List.isEmpty_iff] at h
  refine h.imp_right ?_
  clear h
  intro h
  obtain ⟨n, hn⟩ := Option.isSome_iff_exists.mp h
  obtain ⟨p, hp, hparse⟩ := Option.bind_eq_some_iff.mp hn
  obtain rfl := stripPrefix_eq_some.mp hp
  have hbody : ∀ body : Str, (digits body).isSome = true →
      body ≠ [] ∧ ∀ c ∈ body, isDigit c = true := by
    intro body hb
    unfold digits at hb
    split at hb
    · rename_i hd
      exact ⟨hd.1, List.all_eq_true.mp hd.2⟩
    · cases hb
  unfold parseUnsigned at hparse
  dsimp only at hparse
  obtain ⟨hd, -⟩ := Option.filter_eq_some_iff.mp hparse
  refine ⟨p, rfl, ?_, ?_⟩
  · rintro rfl
    exact (hbody [] (by rw [hd]; rfl)).1 rfl
  · split at hd
    · rename_i rest
      intro c hc
      rcases List.mem_cons.mp hc with rfl | hc
      · exact .inr rfl
      · exact .inl ((hbody rest (by rw [hd]; rfl)).2 c hc)
    · exact fun c hc => .inl ((hbody p (by rw [hd]; rfl)).2 c hc)

/-- A port has no letters. -/
theorem portOk_lower (h : portOk port = true) : ∀ c ∈ port, isAscii c = true ∧ toLower c = c := by
  intro c hc
  rcases portOk_cases h with rfl | ⟨p, rfl, -, hchars⟩
  · cases hc
  · rcases List.mem_cons.mp hc with rfl | hc
    · decide
    · rcases hchars c hc with hd | rfl
      · have hc : Downloads.HostChar c := .inr (.inl hd)
        have hr := hc.range
        exact ⟨decide_eq_true (by omega), hc.toLower⟩
      · decide

/-- No character of a port is one of a name. -/
theorem not_mem_of_portChars {p : Str} (h : ∀ c ∈ p, isDigit c = true ∨ c = '+') {c : Char}
    (hc : isDigit c = false ∧ c ≠ '+') : c ∉ p := by
  intro hm
  rcases h c hm with hd | rfl
  · rw [hc.1] at hd
    cases hd
  · exact hc.2 rfl

theorem rsplitOnce_append {c : Char} {t : Str} (h : c ∉ t) (s : Str) :
    rsplitOnce c (s ++ c :: t) = some (s, t) := by
  have hr : (s ++ c :: t).reverse = t.reverse ++ c :: s.reverse := by simp
  rw [rsplitOnce, hr, splitOnce_append (by simpa using h)]
  simp

theorem rsplitOnce_of_not_mem {c : Char} {t : Str} (h : c ∉ t) : rsplitOnce c t = none := by
  rw [rsplitOnce, splitOnce_of_not_mem (c := c) List.mem_cons_self (by simpa using h)]
  rfl

/-- The port of a rule is read off its text. -/
theorem portSuffix_append (hh : PrintedHost host) (hp : portOk port = true) :
    portSuffix (host ++ port) = port := by
  rcases hh.shape with ⟨hcolon, hbracket⟩ | ⟨inner, rfl, hinner, -⟩
  · have hhead : (host ++ port).head? ≠ some '[' := by
      intro h
      have hmem := List.mem_of_mem_head? h
      rcases List.mem_append.mp hmem with hm | hm
      · exact hbracket hm
      · rcases portOk_cases hp with rfl | ⟨p, rfl, -, hchars⟩
        · cases hm
        · rcases List.mem_cons.mp hm with he | hm
          · cases he
          · exact not_mem_of_portChars hchars (by decide) hm
    rw [portSuffix, if_neg hhead]
    rcases portOk_cases hp with rfl | ⟨p, rfl, -, hchars⟩
    · rw [List.append_nil, rsplitOnce_of_not_mem hcolon]
      rfl
    · rw [rsplitOnce_append (not_mem_of_portChars hchars (by decide))]
      rfl
  · have hsplit : splitOnce [']'] ('[' :: (inner ++ [']']) ++ port) =
      some ('[' :: inner, port) := by
      have hn : ']' ∉ '[' :: inner := by
        rw [List.mem_cons, not_or]
        exact ⟨by decide, hinner⟩
      rw [List.cons_append, List.append_assoc, List.singleton_append, ← List.cons_append]
      exact splitOnce_append hn port
    rw [portSuffix, if_pos (by rfl), hsplit]
    rfl

/-- The host of a rule. -/
def ruleHost (d : Str) : Str := d.take (d.length - (portSuffix d).length)

theorem ruleHost_append (hh : PrintedHost host) (hp : portOk port = true) :
    ruleHost (host ++ port) = host := by
  rw [ruleHost, portSuffix_append hh hp, List.length_append, Nat.add_sub_cancel, List.take_left]

/-! ## Equal to a domain, or below it -/

/-- The host is the domain or a subdomain of it. -/
def Within (a d : Str) : Prop := a = d ∨ ('.' :: d) <:+ a

theorem endsWithDomain_iff : endsWithDomain a d = true ↔ Within a d := by
  rw [endsWithDomain, Bool.or_eq_true, beq_iff_eq, List.isSuffixOf_iff_suffix, Within]

theorem within_iff : Within a d ↔ ∃ q, a = q ++ d ∧ (q = [] ∨ q.getLast? = some '.') := by
  constructor
  · rintro (rfl | ⟨q, rfl⟩)
    · exact ⟨[], rfl, .inl rfl⟩
    · refine ⟨q ++ ['.'], ?_, .inr (List.getLast?_concat)⟩
      rw [List.append_assoc, List.singleton_append]
  · rintro ⟨q, rfl, rfl | hq⟩
    · exact .inl rfl
    · obtain ⟨q, rfl⟩ := List.getLast?_eq_some_iff.mp hq
      exact .inr ⟨q, by rw [List.append_assoc, List.singleton_append]⟩

theorem Within.suffix (h : Within a d) : d <:+ a := by
  obtain ⟨q, rfl, -⟩ := within_iff.mp h
  exact List.suffix_append q d

/-- What is below a domain is below the domains it is below. -/
theorem Within.trans {e : Str} (h : Within a d) (h' : Within d e) : Within a e := by
  rcases h' with rfl | h'
  · exact h
  · exact .inr (h'.trans h.suffix)

theorem Within.getLast (h : Within a d) (hd : d ≠ []) : a.getLast? = d.getLast? := by
  obtain ⟨q, rfl, -⟩ := within_iff.mp h
  exact List.getLast?_append_of_ne_nil _ hd

/-- A rule the code stores: a printed host without root dot, and a port. -/
structure RuleShape (host port : Str) : Prop where
  printed : PrintedHost host
  labels : host.head? = some '[' ∨ (split '.' host).all labelOk = true
  port : portOk port = true

theorem RuleShape.last (h : RuleShape host port) : host ≠ [] ∧ host.getLast? ≠ some '.' := by
  rcases h.labels with hb | hl
  · rcases h.printed.shape with ⟨-, hn⟩ | ⟨inner, rfl, -, -⟩
    · exact absurd (List.mem_of_mem_head? hb) hn
    · refine ⟨List.cons_ne_nil _ _, ?_⟩
      rw [← List.cons_append, List.getLast?_concat]
      decide
  · have hempty : [] ∉ split '.' host := by
      intro hm
      have := List.all_eq_true.mp hl [] hm
      cases this
    refine ⟨?_, ?_⟩
    · rintro rfl
      exact hempty (List.mem_singleton.mpr rfl)
    · intro hdot
      obtain ⟨q, rfl⟩ := List.getLast?_eq_some_iff.mp hdot
      refine hempty ?_
      rw [split_append_sep]
      exact List.mem_append_right _ (List.mem_singleton.mpr rfl)

/-- A host with the port of its URL falls under a rule only where the host does. -/
theorem within_of_authority {n : Nat} (h : RuleShape host port)
    (hw : Within (a ++ ':' :: n.repr.toList) (host ++ port)) : Within a host := by
  have hdigit : ∀ c ∈ n.repr.toList, isDigit c = true := List.all_eq_true.mp (all_digits_repr n)
  have hnot : ∀ c, isDigit c = false → c ∉ n.repr.toList := by
    intro c hc hm
    rw [hdigit c hm] at hc
    cases hc
  obtain ⟨q, hq, hdot⟩ := within_iff.mp hw
  rcases portOk_cases h.port with rfl | ⟨p, rfl, -, hchars⟩
  · -- A rule without a port ends in no port.
    rw [List.append_nil] at hq hw
    have hne : n.repr.toList ≠ [] := by
      rw [Nat.toList_repr]
      exact Nat.toDigits_ne_nil
    have hcolon : ':' ∈ host := by
      rcases hw with he | hw
      · rw [← he]
        exact List.mem_append_right _ List.mem_cons_self
      · rcases List.suffix_or_suffix_of_suffix hw (List.suffix_append a _) with hs | hs
        · rcases List.suffix_cons_iff.mp hs with he | hs
          · cases (List.cons.inj he).1
          · exact absurd (hs.subset List.mem_cons_self) (hnot '.' (by decide))
        · exact (List.mem_cons.mp (hs.subset List.mem_cons_self)).resolve_left (by decide)
    rcases h.printed.shape with ⟨hn, -⟩ | ⟨inner, rfl, -, -⟩
    · exact absurd hcolon hn
    · have hlast := hw.getLast (List.cons_ne_nil _ _)
      rw [List.getLast?_append_cons, ← List.cons_append, List.getLast?_concat,
        List.getLast?_cons_of_ne_nil hne, List.getLast?_eq_some_getLast hne] at hlast
      have hd := hdigit _ (List.getLast_mem hne)
      rw [Option.some.inj hlast] at hd
      cases hd
  · have hr := rsplitOnce_append (hnot ':' (by decide)) a
    rw [hq, ← List.append_assoc, rsplitOnce_append (not_mem_of_portChars hchars (by decide)),
      Option.some.injEq, Prod.mk.injEq] at hr
    exact within_iff.mpr ⟨q, hr.1.symm, hdot⟩

/-- A host that ends with a rule that has a port is not a host. -/
theorem within_of_host (ha : PrintedHost a) (h : RuleShape host port)
    (hw : Within a (host ++ port)) : Within a host := by
  rcases portOk_cases h.port with rfl | ⟨p, rfl, hne, hchars⟩
  · rwa [List.append_nil] at hw
  · exfalso
    have hcolon : ':' ∈ a := hw.suffix.subset (List.mem_append_right _ List.mem_cons_self)
    rcases ha.shape with ⟨hn, -⟩ | ⟨inner, rfl, -, -⟩
    · exact hn hcolon
    · have hlast := hw.getLast (List.append_ne_nil_of_right_ne_nil _ (List.cons_ne_nil _ _))
      rw [List.getLast?_append_cons, ← List.cons_append, List.getLast?_concat,
        List.getLast?_cons_of_ne_nil hne, List.getLast?_eq_some_getLast hne] at hlast
      have hmem := List.getLast_mem hne
      rw [← Option.some.inj hlast] at hmem
      exact not_mem_of_portChars hchars (by decide) hmem

/-- What is left of a printed host and its port without `www.` is a host and the port. -/
theorem withoutWww_append (h : RuleShape host port) :
    ∃ rest, (stripPrefix "www.".toList (host ++ port)).getD (host ++ port) = rest ++ port ∧
      (host = rest ∨ host = "www.".toList ++ rest) ∧ PrintedHost rest := by
  by_cases hw : "www.".toList <+: host ++ port
  · have hnot : ∀ c ∈ port, c ∉ "www.".toList := by
      intro c hc hm
      have hc' : c = 'w' ∨ c = '.' := by simpa using hm
      rcases portOk_cases h.port with rfl | ⟨p, rfl, -, hchars⟩
      · cases hc
      · rcases List.mem_cons.mp hc with rfl | hc
        · revert hc'
          decide
        · refine not_mem_of_portChars hchars ?_ hc
          rcases hc' with rfl | rfl <;> decide
    obtain ⟨rest, hrest⟩ := prefix_of_prefix_append hw hnot
    refine ⟨rest, ?_, .inr hrest.symm, ?_, ?_⟩
    · rw [stripPrefix_eq_some.mpr (by rw [← hrest, List.append_assoc])]
      rfl
    · intro c hc
      exact h.printed.lower c (hrest ▸ List.mem_append_right _ hc)
    · rcases h.printed.shape with ⟨hcolon, hbracket⟩ | ⟨inner, hb, -, -⟩
      · rw [← hrest] at hcolon hbracket
        exact .inl ⟨fun hm => hcolon (List.mem_append_right _ hm),
          fun hm => hbracket (List.mem_append_right _ hm)⟩
      · rw [← hrest] at hb
        exact absurd (List.cons.inj hb).1 (by decide)
  · refine ⟨host, ?_, .inl rfl, h.printed⟩
    rw [stripPrefix_eq_none.mpr hw]
    rfl

/-! ## Rules that are read again -/

section

variable [NsfwPlatform]

open Platform CharTables

def webUrl (url : Url) : Prop := ["http", "https"].contains (scheme url) = true

/-- The URL parser: an `https` text has that scheme; hosts of web URLs are printed in lower
case; and a printed host is read as itself, with a port or without, and so is what follows
its `www.`, where it is a host. -/
structure RuleParser : Prop where
  lowercase : ∀ t, (∀ c ∈ t, isAscii c = true) → lowercase t = t.map toLower
  secure : ∀ t url, parseUrl (String.ofList (Downloads.httpsPrefix ++ t)) = some url →
    scheme url = "https"
  printed : ∀ text url host, parseUrl text = some url → webUrl url → hostStr url = some host →
    PrintedHost host.toList
  again : ∀ text url host rest port url', parseUrl text = some url → webUrl url →
    hostStr url = some host → (host.toList = rest ∨ host.toList = "www.".toList ++ rest) →
    portOk port = true →
    parseUrl (String.ofList (Downloads.httpsPrefix ++ (rest ++ port) ++ ['/'])) = some url' →
    hostStr url' = some (String.ofList rest)

variable (hp : RuleParser)
include hp

theorem RuleParser.lowercase_host {h : Str} (hh : PrintedHost h) : CharTables.lowercase h = h := by
  rw [hp.lowercase h fun c hc => (hh.lower c hc).1, hh.map_toLower]

theorem readRule_eq_ok {s : Str} (h : readRule s = .ok d) :
    ∃ url host, parseUrl (String.ofList (Downloads.httpsPrefix ++ s ++ ['/'])) = some url ∧
      webUrl url ∧ hostStr url = some host ∧ d = host.toList ++ portSuffix s ∧
      RuleShape host.toList (portSuffix s) := by
  unfold readRule at h
  rw [Tx.result_guard_eq_ok, Tx.result_bind_eq_ok] at h
  obtain ⟨-, url, hu, h⟩ := h
  rw [Tx.result_guard_eq_ok, Tx.result_guard_eq_ok, Tx.result_guard_eq_ok] at h
  obtain ⟨hhost, hlabels, hport, h⟩ := h
  have hparse : parseUrl (String.ofList (Downloads.httpsPrefix ++ s ++ ['/'])) = some url := by
    cases hx : parseUrl (String.ofList (Downloads.httpsPrefix ++ s ++ ['/'])) with
    | none => rw [hx] at hu; cases hu
    | some v => rw [hx] at hu; cases hu; rfl
  have hweb : webUrl url := by
    rw [List.append_assoc] at hparse
    rw [webUrl, hp.secure _ _ hparse]
    decide
  obtain ⟨host, hhs⟩ : ∃ host, hostStr url = some host := by
    rw [Bool.not_eq_false] at hhost
    simp only [hostOnly, Bool.and_eq_true] at hhost
    exact Option.isSome_iff_exists.mp hhost.1.1.1.1.1
  have htext : hostText url = host.toList := by
    rw [hostText, hhs]
    rfl
  rw [htext] at h hlabels
  refine ⟨url, host, hparse, hweb, hhs, (Except.ok.inj h).symm, ?_⟩
  refine ⟨hp.printed _ _ _ hparse hweb hhs, ?_, by simpa using hport⟩
  by_cases hb : host.toList.head? = some '['
  · exact .inl hb
  · refine .inr ?_
    by_contra hall
    exact hlabels ⟨hb, Bool.eq_false_of_not_eq_true hall⟩

theorem ruleShape_of_normalized {raw : Str} (h : normalizeDomainRule raw = .ok d) :
    ∃ host port, d = host ++ port ∧ RuleShape host port := by
  obtain ⟨-, host, -, -, -, hd, hshape⟩ := readRule_eq_ok hp h
  exact ⟨_, _, hd, hshape⟩

/-- A stored rule is compiled to what is left of it without `www.`. -/
theorem normalizeDomainRule_again {raw s : Str} (hs : normalizeDomainRule raw = .ok s)
    (h : normalizeDomainRule s = .ok d) : d = (stripPrefix "www.".toList s).getD s := by
  obtain ⟨url, host, hparse, hweb, hhs, rfl, hshape⟩ := readRule_eq_ok hp hs
  revert hshape h
  generalize portSuffix _ = port
  intro hshape h
  have hascii : ∀ c ∈ host.toList ++ port, isAscii c = true ∧ toLower c = c := by
    intro c hc
    rcases List.mem_append.mp hc with hc | hc
    · exact hshape.printed.lower c hc
    · exact portOk_lower hshape.port c hc
  have hlow : lowercase (host.toList ++ port) = host.toList ++ port := by
    rw [hp.lowercase _ fun c hc => (hascii c hc).1]
    conv_rhs => rw [← List.map_id (host.toList ++ port)]
    exact List.map_congr_left fun c hc => (hascii c hc).2
  obtain ⟨rest, hrest, hwww, hprinted⟩ := withoutWww_append hshape
  unfold normalizeDomainRule at h
  dsimp only at h
  rw [hlow, hrest] at h
  obtain ⟨url', host', hparse', -, hhs', rfl, -⟩ := readRule_eq_ok hp h
  have hagain := hp.again _ _ _ rest port _ hparse hweb hhs hwww hshape.port hparse'
  rw [hhs', Option.some.injEq] at hagain
  rw [hrest, portSuffix_append hprinted hshape.port, hagain, String.toList_ofList]

omit hp in
theorem compileDomains_spec {stored domains : List Str}
    (h : compileDomains stored = .ok domains) :
    (∀ s ∈ stored, ∃ d ∈ domains, normalizeDomainRule s = .ok d) ∧
      ∀ d ∈ domains, ∃ s ∈ stored, normalizeDomainRule s = .ok d := by
  induction stored generalizing domains with
  | nil =>
      cases h
      exact ⟨nofun, nofun⟩
  | cons v vs ih =>
      rw [compileDomains, Tx.result_bind_eq_ok] at h
      obtain ⟨c, hc, h⟩ := h
      rw [Tx.result_bind_eq_ok] at h
      obtain ⟨cs, hcs, h⟩ := h
      cases h
      have hv : normalizeDomainRule v = .ok c := Tx.mapError_eq_ok.mp hc
      obtain ⟨hl, hr⟩ := ih hcs
      constructor
      · intro s hs
        rcases List.mem_cons.mp hs with rfl | hs
        · exact ⟨c, List.mem_cons_self, hv⟩
        · obtain ⟨d, hd, he⟩ := hl s hs
          exact ⟨d, List.mem_cons_of_mem _ hd, he⟩
      · intro d hd
        rcases List.mem_cons.mp hd with rfl | hd
        · exact ⟨v, List.mem_cons_self, hv⟩
        · obtain ⟨s, hs, he⟩ := hr d hd
          exact ⟨s, List.mem_cons_of_mem _ hs, he⟩

/-- Domain rules as they are stored, and what they are compiled to. -/
structure CompiledFrom (stored : List Str) (rules : Rules) : Prop where
  normalized : ∀ s ∈ stored, ∃ raw, normalizeDomainRule raw = .ok s
  compiled : ∃ keywords, Rules.compile stored keywords = .ok rules

variable {rules : Rules}

omit hp in
theorem CompiledFrom.spec {stored : List Str} (h : CompiledFrom stored rules) :
    (∀ s ∈ stored, ∃ d ∈ rules.domains, normalizeDomainRule s = .ok d) ∧
      ∀ d ∈ rules.domains, ∃ s ∈ stored, normalizeDomainRule s = .ok d := by
  obtain ⟨keywords, hc⟩ := h.compiled
  unfold Rules.compile at hc
  rw [Tx.result_bind_eq_ok] at hc
  obtain ⟨domains, hd, hc⟩ := hc
  rw [Tx.result_bind_eq_ok] at hc
  obtain ⟨_, -, hc⟩ := hc
  cases hc
  exact compileDomains_spec hd

/-- The compiled rules are the stored ones without `www.`. -/
theorem CompiledFrom.without_www {stored : List Str} (h : CompiledFrom stored rules) {s : Str}
    (hs : s ∈ stored) : (stripPrefix "www.".toList s).getD s ∈ rules.domains := by
  obtain ⟨d, hd, hn⟩ := h.spec.1 s hs
  obtain ⟨raw, hraw⟩ := h.normalized s hs
  exact normalizeDomainRule_again hp hraw hn ▸ hd

theorem CompiledFrom.of_mem {stored : List Str} (h : CompiledFrom stored rules)
    (hd : d ∈ rules.domains) : ∃ s ∈ stored, d = s ∨ s = "www.".toList ++ d := by
  obtain ⟨s, hs, hn⟩ := h.spec.2 d hd
  obtain ⟨raw, hraw⟩ := h.normalized s hs
  refine ⟨s, hs, ?_⟩
  rw [normalizeDomainRule_again hp hraw hn]
  cases hw : stripPrefix "www.".toList s with
  | none => exact .inl rfl
  | some r => exact .inr (stripPrefix_eq_some.mp hw)

theorem CompiledFrom.shape {stored : List Str} (h : CompiledFrom stored rules)
    (hd : d ∈ rules.domains) : ∃ host port, d = host ++ port ∧ RuleShape host port := by
  obtain ⟨s, -, hn⟩ := h.spec.2 d hd
  exact ruleShape_of_normalized hp hn

/-! ## Matching -/

theorem ruleMatches_iff {text : String} {url : Url} {host : String}
    (hu : parseUrl text = some url) (hweb : webUrl url) (hh : hostStr url = some host) :
    ruleMatches url d = true ↔ Within host.toList d ∨
      ∃ n, NsfwPlatform.portOrKnownDefault url = some n ∧
        Within (host.toList ++ ':' :: n.repr.toList) d := by
  have hlow := hp.lowercase_host (hp.printed _ _ _ hu hweb hh)
  have htext : hostText url = host.toList := by
    rw [hostText, hh]
    rfl
  rw [ruleMatches, htext, hlow, Bool.or_eq_true, endsWithDomain_iff]
  refine or_congr_right ?_
  rw [authority]
  cases NsfwPlatform.portOrKnownDefault url with
  | none => simp
  | some n =>
      simp only [Option.map_some, Option.any_some, endsWithDomain_iff, Option.some.injEq,
        exists_eq_left']

/-- A URL matches a rule only where its host falls under the rule's. -/
theorem within_of_ruleMatches {text : String} {url : Url} {host : String} {h : Str}
    (hu : parseUrl text = some url) (hweb : webUrl url) (hh : hostStr url = some host)
    (hshape : RuleShape h port) (hm : ruleMatches url (h ++ port) = true) :
    Within host.toList h := by
  have hprinted := hp.printed _ _ _ hu hweb hh
  rcases (ruleMatches_iff hp hu hweb hh).mp hm with hw | ⟨n, -, hw⟩
  · exact within_of_host hprinted hshape hw
  · exact within_of_authority hshape hw

/-- A host in lower case, without a root dot. -/
def canonicalHost (host : Str) : Str :=
  let h := host.map toLower
  if h.getLast? = some '.' then h.dropLast else h

omit [NsfwPlatform] hp in
theorem canonicalHost_of_last (hh : PrintedHost host) (hl : host.getLast? ≠ some '.') :
    canonicalHost host = host := by
  rw [canonicalHost, hh.map_toLower, if_neg hl]

end

/-! ## Every spelling of a host -/

section

variable [NsfwPlatform]

open Platform

/-- Domain rules hold for a source, however its host is spelled. -/
structure DomainsHold (stored : List Str) (rules : Rules) (source : Str)
    (metadata : List ContentMetadata) : Prop where
  /-- What falls under a stored rule is reported, with a domain it falls under. -/
  covered : ∀ url host, parseUrl (String.ofList source) = some url → webUrl url →
    hostStr url = some host → (∃ s ∈ stored, Within (canonicalHost host.toList) s) →
    ∃ report d, rules.check source metadata = .ok report ∧ report.isNsfw = true ∧
      report.matchedDomain = some d ∧ Within (canonicalHost host.toList) (ruleHost d)
  /-- A domain is reported only for what falls under the host of a stored rule. -/
  only : ∀ url host report d, parseUrl (String.ofList source) = some url → webUrl url →
    hostStr url = some host → rules.check source metadata = .ok report →
    report.matchedDomain = some d →
    ∃ s ∈ stored, Within (canonicalHost host.toList) (ruleHost s)
  /-- The provider of a host is that of the host with a root dot. -/
  routed : ∀ url url' host mode, hostStr url = some host → hostStr url' = some (host ++ ".") →
    path url' = path url →
    Domain.automaticProviderV1 url' mode = Domain.automaticProviderV1 url mode
  /-- So is its normal domain. -/
  sameDomain : ∀ value value' name,
    parseIpAddr (trim value.toList) = none → parseIpAddr (trim value'.toList) = none →
    (parseUrl (String.ofList (Downloads.domainUrl (trim value.toList)))).bind
      Downloads.HostPlatform.host = some (.domain name) →
    (parseUrl (String.ofList (Downloads.domainUrl (trim value'.toList)))).bind
      Downloads.HostPlatform.host = some (.domain (name ++ ['.'])) →
    Downloads.normalizeDomain value' = Downloads.normalizeDomain value

/-- The source is accepted and without a root dot where a rule covers its host, and what
is left of a rule without `www.` covers no more hosts than the rules. -/
structure RulesReach (stored : List Str) (source : Str) (metadata : List ContentMetadata) :
    Prop where
  covered : ∀ url host, parseUrl (String.ofList source) = some url → webUrl url →
    hostStr url = some host → (∃ s ∈ stored, Within (canonicalHost host.toList) s) →
    Accepted url source metadata ∧ host.toList.getLast? ≠ some '.'
  shortened : ∀ url host rest, parseUrl (String.ofList source) = some url → webUrl url →
    hostStr url = some host → Accepted url source metadata → "www.".toList ++ rest ∈ stored →
    ruleMatches url rest = true →
    ∃ s ∈ stored, Within (canonicalHost host.toList) (ruleHost s)

omit [NsfwPlatform] in
theorem trimEnd_root (t : Str) : trimEnd '.' (t ++ ['.']) = trimEnd '.' t :=
  List.rdropWhile_concat_pos _ _ _ (by decide)

theorem provider_of_root {url url' : Url} {host : String} (mode : Domain.MediaMode)
    (hh : hostStr url = some host) (hh' : hostStr url' = some (host ++ "."))
    (hpath : path url' = path url) :
    Domain.automaticProviderV1 url' mode = Domain.automaticProviderV1 url mode := by
  have hdot : (host ++ ".").toList = host.toList ++ ['.'] := String.toList_append
  have htrim : trimEnd '.' ((hostStr url').getD "").toList =
      trimEnd '.' ((hostStr url).getD "").toList := by
    rw [hh, hh', Option.getD_some, Option.getD_some, hdot, trimEnd_root]
  cases mode <;> simp only [Domain.automaticProviderV1, htrim, hpath]

theorem normalizeDomain_of_root {value value' : String} {name : Str}
    (hv : parseIpAddr (trim value.toList) = none) (hv' : parseIpAddr (trim value'.toList) = none)
    (hu : (parseUrl (String.ofList (Downloads.domainUrl (trim value.toList)))).bind
      Downloads.HostPlatform.host = some (.domain name))
    (hu' : (parseUrl (String.ofList (Downloads.domainUrl (trim value'.toList)))).bind
      Downloads.HostPlatform.host = some (.domain (name ++ ['.']))) :
    Downloads.normalizeDomain value' = Downloads.normalizeDomain value := by
  unfold Downloads.normalizeDomain
  dsimp only
  rw [hv, hv']
  dsimp only
  rw [hu, hu']
  dsimp only
  rw [trimEnd_root]

variable (hp : RuleParser) {stored : List Str} {rules : Rules} (hc : CompiledFrom stored rules)
include hp hc

theorem within_ruleHost {text : String} {url : Url} {host : String}
    (hu : parseUrl text = some url) (hweb : webUrl url) (hh : hostStr url = some host)
    (hd : d ∈ rules.domains) (hm : ruleMatches url d = true) :
    Within (canonicalHost host.toList) (ruleHost d) ∧ host.toList.getLast? ≠ some '.' := by
  obtain ⟨h, port, rfl, hshape⟩ := hc.shape hp hd
  have hw := within_of_ruleMatches hp hu hweb hh hshape hm
  have hlast : host.toList.getLast? ≠ some '.' := by
    rw [hw.getLast hshape.last.1]
    exact hshape.last.2
  rw [canonicalHost_of_last (hp.printed _ _ _ hu hweb hh) hlast,
    ruleHost_append hshape.printed hshape.port]
  exact ⟨hw, hlast⟩

/-- What a stored rule covers, without a root dot, matches a compiled rule. -/
theorem find_of_within {text : String} {url : Url} {host : String} {s : Str}
    (hu : parseUrl text = some url) (hweb : webUrl url) (hh : hostStr url = some host)
    (hs : s ∈ stored) (hw : Within host.toList s) :
    ∃ d ∈ rules.domains, rules.domains.find? (ruleMatches url) = some d ∧
      ruleMatches url d = true := by
  have hmem := hc.without_www hp hs
  have hless : Within s ((stripPrefix "www.".toList s).getD s) := by
    cases hr : stripPrefix "www.".toList s with
    | none => exact .inl rfl
    | some r =>
        rw [stripPrefix_eq_some.mp hr]
        exact .inr ⟨"www".toList, rfl⟩
  have hm := (ruleMatches_iff hp hu hweb hh).mpr (.inl (hw.trans hless))
  obtain ⟨d, hd⟩ := Option.isSome_iff_exists.mp (List.find?_isSome.mpr ⟨_, hmem, hm⟩)
  exact ⟨d, List.mem_of_find?_eq_some hd, hd, List.find?_some hd⟩

/-- **Domain rules can be dodged with a root dot.** The rules hold for a source exactly if
its host has no root dot where a rule covers it (and the source is accepted), and no rule
that lost a second `www.` covers more than was stored. -/
theorem domains_hold_iff (source : Str) (metadata : List ContentMetadata) :
    DomainsHold stored rules source metadata ↔ RulesReach stored source metadata := by
  constructor
  · intro h
    constructor
    · intro url host hu hweb hh hcov
      obtain ⟨report, d, hok, -, hd, -⟩ := h.covered url host hu hweb hh hcov
      obtain ⟨hacc, rfl⟩ := (check_eq_ok hu).mp hok
      have hfind : rules.domains.find? (ruleMatches url) = some d := hd
      exact ⟨hacc, (within_ruleHost hp hc hu hweb hh (List.mem_of_find?_eq_some hfind)
        (List.find?_some hfind)).2⟩
    · intro url host rest hu hweb hh hacc hrest hm
      have hmem := hc.without_www hp hrest
      rw [stripPrefix_eq_some.mpr rfl, Option.getD_some] at hmem
      obtain ⟨d, hd⟩ := Option.isSome_iff_exists.mp (List.find?_isSome.mpr ⟨_, hmem, hm⟩)
      exact h.only url host _ d hu hweb hh ((check_eq_ok hu).mpr ⟨hacc, rfl⟩) hd
  · intro h
    constructor
    · intro url host hu hweb hh hcov
      obtain ⟨hacc, hlast⟩ := h.covered url host hu hweb hh hcov
      obtain ⟨s, hs, hw⟩ := hcov
      rw [canonicalHost_of_last (hp.printed _ _ _ hu hweb hh) hlast] at hw
      obtain ⟨d, hd, hfind, hm⟩ := find_of_within hp hc hu hweb hh hs hw
      refine ⟨_, d, (check_eq_ok hu).mpr ⟨hacc, rfl⟩, ?_, hfind,
        (within_ruleHost hp hc hu hweb hh hd hm).1⟩
      show ((rules.domains.find? (ruleMatches url)).isSome || _) = true
      rw [hfind]
      rfl
    · intro url host report d hu hweb hh hok hd
      obtain ⟨hacc, rfl⟩ := (check_eq_ok hu).mp hok
      have hfind : rules.domains.find? (ruleMatches url) = some d := hd
      have hmem := List.mem_of_find?_eq_some hfind
      have hm := List.find?_some hfind
      obtain ⟨s, hs, rfl | rfl⟩ := hc.of_mem hp hmem
      · exact ⟨d, hs, (within_ruleHost hp hc hu hweb hh hmem hm).1⟩
      · exact h.shortened url host d hu hweb hh hacc hs hm
    · exact fun url url' host mode => provider_of_root mode
    · exact fun value value' name => normalizeDomain_of_root

end

namespace DomainScenario

def plain : String := "https://example.com/"

def rooted : String := "https://example.com./"

/-- A parser that reads one host, with its root dot and without. -/
@[reducible] def platform : NsfwPlatform where
  parseUrl text := if text = plain ∨ text = rooted then some ⟨text⟩ else none
  scheme _ := "https"
  hostStr url := some (if url.asStr = plain then "example.com" else "example.com.")
  username _ := ""
  password _ := none
  path _ := "/"
  query _ := none
  fragment _ := none
  jsonBytes _ := []
  rereadF64 := some
  sha256 _ := 0
  host url := some (.domain (if url.asStr = plain then "example.com" else "example.com.").toList)
  toRegexBuilder := KeywordScenario.tables
  portOrKnownDefault _ := some 443

def rule : Str := "example.com".toList

end DomainScenario

section

open DomainScenario

attribute [local instance] DomainScenario.platform

theorem DomainScenario.read {text : String} {url : Url} (h : Platform.parseUrl text = some url) :
    url.asStr = text ∧ (text = plain ∨ text = rooted) := by
  change (if text = plain ∨ text = rooted then some (Url.mk text) else none) = some url at h
  split at h
  · rename_i ht
    cases h
    exact ⟨rfl, ht⟩
  · cases h

theorem DomainScenario.printed_of_all {h : Str}
    (hall : (h.all fun c => isAscii c && toLower c == c && c != ':' && c != '[') = true) :
    PrintedHost h := by
  have hc : ∀ c ∈ h, (isAscii c = true ∧ toLower c = c) ∧ c ≠ ':' ∧ c ≠ '[' := by
    intro c hm
    have := List.all_eq_true.mp hall c hm
    simp only [Bool.and_eq_true, beq_iff_eq, bne_iff_ne] at this
    exact ⟨this.1.1, this.1.2, this.2⟩
  exact ⟨fun c hm => (hc c hm).1, .inl ⟨fun hm => (hc _ hm).2.1 rfl, fun hm => (hc _ hm).2.2 rfl⟩⟩

theorem DomainScenario.parser : RuleParser where
  lowercase _ _ := rfl
  secure _ _ _ := rfl
  printed := by
    intro text url host hu hweb hh
    have he := Option.some.inj hh
    split at he <;>
    · subst he
      exact DomainScenario.printed_of_all (by decide)
  again := by
    intro text url host rest port url' hu hweb hh hrest hport hu'
    obtain ⟨hs, ht⟩ := DomainScenario.read hu'
    have hlist : Downloads.httpsPrefix ++ (rest ++ port) ++ ['/'] = url'.asStr.toList := by
      rw [hs, String.toList_ofList]
    rw [← hs] at ht
    have he := Option.some.inj hh
    show some (if url'.asStr = plain then "example.com" else "example.com.") = _
    split at he <;> subst he
    · obtain rfl : "example.com".toList = rest := by
        refine hrest.resolve_right fun h => ?_
        simp at h
      rcases ht with ht | ht
      · rw [if_pos ht, String.ofList_toList]
      · have hroot : rooted.toList =
            Downloads.httpsPrefix ++ ("example.com".toList ++ ['.']) ++ ['/'] := by decide +kernel
        rw [ht, hroot] at hlist
        obtain rfl := List.append_cancel_left
          (List.append_cancel_left (List.append_cancel_right hlist))
        cases hport
    · obtain rfl : "example.com.".toList = rest := by
        refine hrest.resolve_right fun h => ?_
        simp at h
      rcases ht with ht | ht
      · have hplain : plain.toList =
            Downloads.httpsPrefix ++ "example.com".toList ++ ['/'] := by decide +kernel
        rw [ht, hplain] at hlist
        have hlen := congrArg List.length
          (List.append_cancel_left (List.append_cancel_right hlist))
        have hlonger : "example.com".toList.length < "example.com.".toList.length := by
          decide +kernel
        rw [List.length_append] at hlen
        omega
      · rw [if_neg (by rw [ht]; decide), String.ofList_toList]

def DomainScenario.rules : Rules := ⟨[rule], []⟩

theorem DomainScenario.normal : normalizeDomainRule rule = .ok rule := by decide +kernel

theorem DomainScenario.compiled : CompiledFrom [rule] DomainScenario.rules where
  normalized := by
    intro s hs
    obtain rfl := List.mem_singleton.mp hs
    exact ⟨rule, DomainScenario.normal⟩
  compiled := by
    refine ⟨[], ?_⟩
    rw [Rules.compile, compileDomains, DomainScenario.normal]
    rfl

theorem domains_hold_plain : DomainsHold [rule] DomainScenario.rules plain.toList [] ↔
    RulesReach [rule] plain.toList [] :=
  domains_hold_iff DomainScenario.parser DomainScenario.compiled plain.toList []

/-- The host of the rule with a root dot is no match of it. -/
theorem root_dot_dodges : CompiledFrom [rule] DomainScenario.rules ∧
    ¬ DomainsHold [rule] DomainScenario.rules rooted.toList [] := by
  refine ⟨DomainScenario.compiled, ?_⟩
  intro h
  have hu : Platform.parseUrl (String.ofList rooted.toList) = some ⟨rooted⟩ := by
    rw [String.ofList_toList]
    rfl
  have hcovered : Within (canonicalHost "example.com.".toList) rule := .inl (by decide +kernel)
  obtain ⟨report, d, hok, -, hd, -⟩ := h.covered ⟨rooted⟩ "example.com." hu rfl
    rfl ⟨rule, List.mem_singleton.mpr rfl, hcovered⟩
  obtain ⟨-, rfl⟩ := (check_eq_ok hu).mp hok
  have hnone : ((DomainScenario.rules.report ⟨rooted⟩ rooted.toList []).matchedDomain) = none := by
    decide +kernel
  rw [hnone] at hd
  cases hd

end

end YoinkCore.Identity
