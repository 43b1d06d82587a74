import YoinkCore.Downloads.Submission
import YoinkCore.Lib.HostName

/-!
# Domains of stored cookies

A cookie is stored under the domain `CookieDomain.parse` accepts, and selected by the
host `normalizeDomain` reads from what was stored. The first is a check of letters; the
second asks the URL parser, for which some of these names are no hosts.
-/

namespace YoinkCore.Downloads

open Lib Lib.HostName Domain Text

/-- What `normalizeDomain` also reads of a URL. -/
class HostPlatform extends Platform where
  host : Url → Option Host

/-! ## Names -/

def validHostLabel (l : Str) : Bool :=
  !l.isEmpty && decide (byteLen l ≤ 63) && l.head? != some '-' && l.getLast? != some '-' &&
    l.all fun b => isLower b || isDigit b || b == '-'

/-- A host name in lower case, of bounded length. -/
def validHost (t : Str) : Bool :=
  !t.isEmpty && decide (byteLen t ≤ 253) && (split '.' t).all validHostLabel

/-- A domain in the form it is stored in. -/
structure CookieDomain where
  text : String
  valid : validHost text.toList = true
deriving DecidableEq

def CookieDomain.parse (value : String) : Except DownloadError CookieDomain :=
  if value.toList.isEmpty || decide (255 < byteLen value.toList) ||
      !value.toList.all isAscii then
    .error .invalidInput
  else
    let canonical := String.ofList ((trimMatches '.' value.toList).map toLower)
    if h : validHost canonical.toList = true then .ok ⟨canonical, h⟩
    else .error .invalidInput

/-- Names under which a site is reached, and its own. -/
def aliases : List (String × String) :=
  [("youtu.be", "youtube.com"), ("m.youtube.com", "youtube.com"),
   ("music.youtube.com", "youtube.com"), ("x.com", "twitter.com"),
   ("m.twitter.com", "twitter.com"), ("m.instagram.com", "instagram.com"),
   ("m.tiktok.com", "tiktok.com"), ("m.facebook.com", "facebook.com"),
   ("m.reddit.com", "reddit.com"), ("old.reddit.com", "reddit.com")]

/-- A host without `www.`, under the name of its site. -/
def siteName (host : Str) : Str :=
  let host := (stripPrefix "www.".toList host).getD host
  ((aliases.lookup (String.ofList host)).map String.toList).getD host

def siteOf (host : Str) : Except ProfileError String :=
  if validHost (siteName host) then .ok (String.ofList (siteName host))
  else .error .unavailable

section

variable [HostPlatform]

omit [HostPlatform] in
def httpsPrefix : Str := "https://".toList

omit [HostPlatform] in
/-- The URL a domain is read from. -/
def domainUrl (input : Str) : Str :=
  if (splitOnce "://".toList input).isSome then input else httpsPrefix ++ input

def normalizeDomain (value : String) : Except ProfileError String :=
  let input := trim value.toList
  match parseIpAddr input with
  | some ip => .ok (String.ofList ip)
  | none =>
      match (Platform.parseUrl (String.ofList (domainUrl input))).bind HostPlatform.host with
      | none => .error .unavailable
      | some (.domain name) => siteOf ((trimEnd '.' name).map toLower)
      | some (.ipv4 address) => .ok (String.ofList (showIpv4 address))
      | some (.ipv6 segments) => .ok (String.ofList (showIpv6 segments))

/-- The URL parser reads the host of an `https` URL as the WHATWG standard says. -/
def WhatwgHosts (ace : Str → Bool) : Prop :=
  ∀ d : CookieDomain,
    (Platform.parseUrl (String.ofList (httpsPrefix ++ d.text.toList))).bind
      HostPlatform.host = parseName ace d.text.toList

end

/-! ## What a host name is made of -/

theorem validHost_iff {t : Str} : validHost t = true ↔
    t ≠ [] ∧ byteLen t ≤ 253 ∧ ∀ l ∈ split '.' t, validHostLabel l = true := by
  simp [validHost, and_assoc]

theorem label_ne_nil {l : Str} (h : validHostLabel l = true) : l ≠ [] := by
  rintro rfl
  cases h

/-- A character that may stand in a host name. -/
def HostChar (c : Char) : Prop := isLower c = true ∨ isDigit c = true ∨ c = '-' ∨ c = '.'

theorem hostChar_of_valid {t : Str} (h : validHost t = true) : ∀ c ∈ t, HostChar c := by
  intro c hc
  by_cases hd : c = '.'
  · exact .inr (.inr (.inr hd))
  obtain ⟨l, hl, hcl⟩ := mem_split_of_mem hd hc
  have hv := (validHost_iff.mp h).2.2 l hl
  simp only [validHostLabel, Bool.and_eq_true] at hv
  have := List.all_eq_true.mp hv.2 c hcl
  simp only [Bool.or_eq_true, beq_iff_eq] at this
  rcases this with (h | h) | h
  · exact .inl h
  · exact .inr (.inl h)
  · exact .inr (.inr (.inl h))

theorem HostChar.range {c : Char} (h : HostChar c) :
    (97 ≤ c.toNat ∧ c.toNat ≤ 122) ∨ (48 ≤ c.toNat ∧ c.toNat ≤ 57) ∨ c.toNat = 45 ∨
      c.toNat = 46 := by
  have hv : c.toNat = c.val.toNat := rfl
  have ha : ('a' : Char).val.toNat = 97 := rfl
  have hz : ('z' : Char).val.toNat = 122 := rfl
  have h0 : ('0' : Char).val.toNat = 48 := rfl
  have h9 : ('9' : Char).val.toNat = 57 := rfl
  rcases h with h | h | rfl | rfl
  · simp only [isLower, Bool.and_eq_true, decide_eq_true_eq, Char.le_def,
      UInt32.le_iff_toNat_le] at h
    omega
  · simp only [isDigit, Bool.and_eq_true, decide_eq_true_eq, Char.le_def,
      UInt32.le_iff_toNat_le] at h
    omega
  · exact .inr (.inr (.inl rfl))
  · exact .inr (.inr (.inr rfl))

theorem HostChar.toLower {c : Char} (h : HostChar c) : toLower c = c := by
  have hr := h.range
  have hv : c.toNat = c.val.toNat := rfl
  have hA : ('A' : Char).val.toNat = 65 := rfl
  have hZ : ('Z' : Char).val.toNat = 90 := rfl
  rw [Text.toLower, if_neg]
  simp only [isUpper, Bool.and_eq_true, decide_eq_true_eq, Char.le_def,
    UInt32.le_iff_toNat_le]
  omega

theorem HostChar.not_whitespace {c : Char} (h : HostChar c) : isWhitespace c = false := by
  have hr := h.range
  simp only [isWhitespace, Bool.or_eq_false_iff, Bool.and_eq_false_iff, decide_eq_false_iff_not,
    List.contains_eq_mem, List.mem_cons, List.not_mem_nil, or_false]
  omega

theorem HostChar.ne_colon {c : Char} (h : HostChar c) : c ≠ ':' := by
  rintro rfl
  exact absurd h.range (by decide)

/-- A host name is in lower case, with nothing to trim off its ends. -/
theorem validHost_unchanged {t : Str} (h : validHost t = true) :
    trim t = t ∧ (trimEnd '.' t).map toLower = t := by
  have hchar := hostChar_of_valid h
  refine ⟨trim_of_not_whitespace fun c hc => (hchar c hc).not_whitespace, ?_⟩
  have hlast : t.getLast? ≠ some '.' := by
    intro hl
    obtain ⟨s, rfl⟩ := List.getLast?_eq_some_iff.mp hl
    have hmem : [] ∈ split '.' (s ++ ['.']) := by
      rw [split_append_sep]
      simp [split]
    exact label_ne_nil ((validHost_iff.mp h).2.2 _ hmem) rfl
  rw [trimEnd_of_getLast hlast]
  conv_rhs => rw [← List.map_id t]
  exact List.map_congr_left fun c hc => (hchar c hc).toLower

/-- The site of a host has a name. -/
theorem siteOf_isOk {t : Str} (h : validHost t = true) : ∃ site, siteOf t = .ok site := by
  have hname : validHost ((stripPrefix "www.".toList t).getD t) = true := by
    cases hw : stripPrefix "www.".toList t with
    | none => exact h
    | some rest =>
        obtain rfl := stripPrefix_eq_some.mp hw
        obtain ⟨-, hlen, hlabels⟩ := validHost_iff.mp h
        have hs : split '.' ("www.".toList ++ rest) = "www".toList :: split '.' rest :=
          split_append_sep '.' "www".toList rest
        rw [hs] at hlabels
        refine validHost_iff.mpr ⟨?_, ?_, fun l hl => hlabels l (List.mem_cons_of_mem _ hl)⟩
        · rintro rfl
          exact absurd (hlabels [] (by simp [split])) (by decide)
        · simp only [byteLen, List.map_append, List.sum_append] at hlen
          show (rest.map Char.utf8Size).sum ≤ 253
          omega
  have hsite : validHost (siteName t) = true := by
    rw [siteName]
    cases ha : aliases.lookup (String.ofList ((stripPrefix "www.".toList t).getD t)) with
    | none => simpa [ha] using hname
    | some site =>
        have hmem : ∀ p ∈ aliases, validHost p.2.toList = true := by decide
        obtain ⟨l₁, l₂, hl, -⟩ := List.lookup_eq_some_iff.mp ha
        have hin : (String.ofList ((stripPrefix "www.".toList t).getD t), site) ∈ aliases := by
          rw [hl]
          simp
        simpa [ha] using hmem _ hin
  exact ⟨_, if_pos hsite⟩

/-! ## Domains that are hosts -/

/-- The URL parser takes a stored domain for a host: `xn--` labels are valid, and a
numeric last label makes it an IPv4 address. -/
def Resolvable (ace : Str → Bool) (domain : Str) : Prop :=
  (hasAce domain = true → ace domain = true) ∧
    (endsInNumber domain = true → (ipv4Address domain).isSome = true)

variable [HostPlatform]

/-- What the URL parser makes of a stored domain. -/
theorem normalizeDomain_stored {ace : Str → Bool} (hw : WhatwgHosts ace) (d : CookieDomain) :
    normalizeDomain d.text =
      match parseIpv4 d.text.toList with
      | some address => .ok (String.ofList (showIpv4 address))
      | none =>
          match parseName ace d.text.toList with
          | some (.ipv4 address) => .ok (String.ofList (showIpv4 address))
          | some _ => siteOf d.text.toList
          | none => .error .unavailable := by
  have hchar := hostChar_of_valid d.valid
  obtain ⟨htrim, hlower⟩ := validHost_unchanged d.valid
  have hcolon : ':' ∉ d.text.toList := fun hc => (hchar _ hc).ne_colon rfl
  have hurl : domainUrl d.text.toList = httpsPrefix ++ d.text.toList := by
    rw [domainUrl, splitOnce_of_not_mem (c := ':') (by decide) hcolon]
    rfl
  unfold normalizeDomain
  dsimp only
  rw [htrim, parseIpAddr, parseIpv6_of_no_colon hcolon, hurl, hw d]
  cases hip : parseIpv4 d.text.toList with
  | some address => rfl
  | none =>
      cases hn : parseName ace d.text.toList with
      | none => rfl
      | some host =>
          cases host with
          | domain name =>
              obtain rfl := name_of_domain hn
              simp [hlower]
          | ipv4 address => rfl
          | ipv6 segments => exact absurd hn not_ipv6_of_name

/-- A stored domain is normalised if and only if the URL parser takes it for a host. -/
theorem normalizeDomain_isOk {ace : Str → Bool} (hw : WhatwgHosts ace) (d : CookieDomain) :
    (∃ site, normalizeDomain d.text = .ok site) ↔ Resolvable ace d.text.toList := by
  rw [normalizeDomain_stored hw]
  cases hip : parseIpv4 d.text.toList with
  | some address =>
      obtain ⟨haddr, hace⟩ := ipv4Address_of_parseIpv4 hip
      simp [Resolvable, haddr, hace]
  | none =>
      rw [Resolvable, ← parseName_isSome]
      obtain ⟨site, hsite⟩ := siteOf_isOk d.valid
      cases parseName ace d.text.toList with
      | none => simp
      | some host => cases host <;> simp [hsite]

omit [HostPlatform] in
theorem siteOf_eq_ok {t : Str} {site : String} (h : siteOf t = .ok site) :
    validHost site.toList = true := by
  unfold siteOf at h
  split at h
  · rename_i hv
    cases h
    simpa using hv
  · cases h

/-- The site of a stored domain is not empty. -/
theorem site_ne_empty {ace : Str → Bool} (hw : WhatwgHosts ace) {d : CookieDomain}
    {site : String} (h : normalizeDomain d.text = .ok site) : site.toList ≠ [] := by
  have haddr : ∀ address, showIpv4 address ≠ [] := fun address => by simp [showIpv4]
  rw [normalizeDomain_stored hw] at h
  split at h
  · cases h
    simpa using haddr _
  · split at h
    · cases h
      simpa using haddr _
    · exact (validHost_iff.mp (siteOf_eq_ok h)).1
    · cases h

/-- A domain that is no host is unavailable, whatever is wrong with it. -/
theorem normalizeDomain_error {value : String} {e : ProfileError}
    (h : normalizeDomain value = .error e) : e = .unavailable := by
  unfold normalizeDomain siteOf at h
  dsimp only at h
  split at h
  · cases h
  · split at h
    · cases h
      rfl
    · split at h
      · cases h
      · cases h
        rfl
    · cases h
    · cases h

end YoinkCore.Downloads
