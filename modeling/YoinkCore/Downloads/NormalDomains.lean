import YoinkCore.Downloads.OAuthRefresh
import YoinkCore.Lib.Addresses

/-!
# Domains that are normalised again

The configuration keeps its domains normalised, and matching normalises them once more.
Normalising takes one `www.` off a name, so a name with two of them is another name the
second time. A name that only its root dots kept from being a number is another one too.
-/

namespace YoinkCore.Downloads

open Lib Lib.HostName Domain Text Storage

/-! ## Configuration -/

section

variable [HostPlatform]

structure DownloadNetworkConfig where
  systemProxy : Option String
  noCookieDomains : List String
  systemProxyDomains : List String
  personalCookieLimits : PersonalCookieLimits

omit [HostPlatform] in
/-- A bare domain or address, as an operator may write it. -/
def entryOk (domain : Str) : Bool :=
  !domain.isEmpty && !domain.any (fun c => isWhitespace c || "/?#@".toList.contains c) &&
    (splitOnce "://".toList domain).isNone &&
    ((parseIpAddr domain).isSome || !domain.contains ':')

def normalizeEntries : List String → Except DownloadError (List String)
  | [] => .ok []
  | domain :: domains =>
      if !entryOk domain.toList then .error .invalidConfig
      else do
        let site ← (normalizeDomain domain).mapError fun _ => DownloadError.invalidConfig
        let sites ← normalizeEntries domains
        return site :: sites

def checkProxy (systemProxy : Option String) : Except DownloadError Unit :=
  match systemProxy with
  | none => .ok ()
  | some proxy =>
      let credentials : Worker.NetworkCredentials := ⟨some proxy, none, none⟩
      credentials.validate.mapError fun _ => .invalidConfig

def DownloadNetworkConfig.new (systemProxy : Option String) (noCookieDomains : List String) :
    Except DownloadError DownloadNetworkConfig := do
  if 64 < noCookieDomains.length then throw .invalidConfig
  let normalized ← normalizeEntries noCookieDomains
  checkProxy systemProxy
  return {
    systemProxy
    noCookieDomains := (normalized.insertionSort (· ≤ ·)).dedup
    systemProxyDomains :=
      ["youtube.com", "youtu.be", "tiktok.com", "e621.net", "x.com", "twitter.com"]
    personalCookieLimits := ⟨128, 128 * 512 * 1024, 1024 * 1024 * 1024⟩ }

def DownloadNetworkConfig.withSystemProxyDomains (config : DownloadNetworkConfig)
    (domains : List String) : Except DownloadError DownloadNetworkConfig := do
  let other ← DownloadNetworkConfig.new none domains
  return { config with systemProxyDomains := other.noCookieDomains }

/-- The targets an entry of the operator stands for. -/
def selects (target entry : String) : Bool :=
  match normalizeDomain entry with
  | .ok site => domainMatch target site
  | .error _ => false

/-! ## The host of a text -/

inductive ReadHost where
  | address (text : String)
  | name (t : Str)
deriving DecidableEq

def urlHost (text : Str) : Option Host :=
  (Platform.parseUrl (String.ofList text)).bind HostPlatform.host

/-- The host `normalizeDomain` reads: an address as it is printed, or a name without
root dots in lower case. -/
def readHost (value : String) : Option ReadHost :=
  let input := trim value.toList
  match parseIpAddr input with
  | some ip => some (.address (String.ofList ip))
  | none =>
      match urlHost (domainUrl input) with
      | none => none
      | some (.domain name) => some (.name ((trimEnd '.' name).map toLower))
      | some (.ipv4 address) => some (.address (String.ofList (showIpv4 address)))
      | some (.ipv6 segments) => some (.address (String.ofList (showIpv6 segments)))

theorem normalizeDomain_readHost (value : String) : normalizeDomain value =
    match readHost value with
    | none => .error .unavailable
    | some (.address a) => .ok a
    | some (.name t) => siteOf t := by
  unfold normalizeDomain readHost
  dsimp only
  cases parseIpAddr (trim value.toList) with
  | some ip => rfl
  | none =>
      show (match urlHost (domainUrl (trim value.toList)) with
        | none => _ | some (.domain name) => _ | some (.ipv4 _) => _ | some (.ipv6 _) => _) = _
      cases urlHost (domainUrl (trim value.toList)) with
      | none => rfl
      | some host => cases host <;> rfl

end

/-! ## Labels -/

theorem hasAce_append_dot (t : Str) : hasAce (t ++ ['.']) = hasAce t := by
  rw [hasAce, split_append_sep, List.any_append, hasAce]
  simp [split]

theorem hasAce_www (t : Str) : hasAce ("www.".toList ++ t) = hasAce t := by
  have hs : split '.' ("www.".toList ++ t) = "www".toList :: split '.' t :=
    split_append_sep '.' "www".toList t
  rw [hasAce, hs, List.any_cons]
  rfl

variable {t : Str} {a : Nat}

/-- A host name has no empty labels, so its last one decides. -/
theorem labels_of_valid (h : validHost t = true) : labels t = split '.' t := by
  rw [labels, if_neg]
  rintro ⟨-, hl⟩
  exact label_ne_nil ((validHost_iff.mp h).2.2 _ (List.mem_of_getLast? hl)) rfl

theorem labels_www (h : validHost t = true) :
    labels ("www.".toList ++ t) = "www".toList :: split '.' t := by
  have hs : split '.' ("www.".toList ++ t) = "www".toList :: split '.' t :=
    split_append_sep '.' "www".toList t
  obtain ⟨w, ws, hw⟩ := List.exists_cons_of_ne_nil (split_ne_nil '.' t)
  rw [labels, hs, if_neg]
  rintro ⟨-, hl⟩
  rw [hw, List.getLast?_cons_cons, ← hw] at hl
  exact label_ne_nil ((validHost_iff.mp h).2.2 _ (List.mem_of_getLast? hl)) rfl

theorem endsInNumber_www (h : validHost t = true) :
    endsInNumber ("www.".toList ++ t) = endsInNumber t := by
  obtain ⟨w, ws, hw⟩ := List.exists_cons_of_ne_nil (split_ne_nil '.' t)
  rw [endsInNumber, endsInNumber, labels_of_valid h, labels_www h, hw, List.getLast?_cons_cons]

theorem digit_or_dot_of_parseIpv4 (h : parseIpv4 t = some a) :
    ∀ c ∈ t, isDigit c = true ∨ c = '.' := by
  intro c hc
  rw [← (showIpv4_of_parse h).2] at hc
  exact showIpv4_chars hc

theorem not_www_of_parseIpv4 (h : parseIpv4 t = some a) : ¬ "www.".toList <+: t := by
  intro hp
  rcases digit_or_dot_of_parseIpv4 h 'w' (hp.subset (by decide)) with hd | hd
  · exact absurd hd (by decide)
  · cases hd

/-! ## Names of sites -/

/-- A name without the `www.` it begins with. -/
def withoutWww (t : Str) : Str := (stripPrefix "www.".toList t).getD t

theorem withoutWww_www (t : Str) : withoutWww ("www.".toList ++ t) = t := by
  rw [withoutWww, stripPrefix_eq_some.mpr rfl]
  rfl

theorem withoutWww_of_not (h : ¬ "www.".toList <+: t) : withoutWww t = t := by
  rw [withoutWww, stripPrefix_eq_none.mpr h]
  rfl

/-- The site of a name is itself but for `www.`, or the name of an alias. -/
theorem siteName_cases (t : Str) :
    (siteName t = withoutWww t ∧ aliases.lookup (String.ofList (withoutWww t)) = none) ∨
      ∃ p ∈ aliases, withoutWww t = p.1.toList ∧ siteName t = p.2.toList := by
  show (((aliases.lookup (String.ofList (withoutWww t))).map String.toList).getD (withoutWww t) =
    _ ∧ _) ∨ ∃ p ∈ aliases, _ ∧
      ((aliases.lookup (String.ofList (withoutWww t))).map String.toList).getD (withoutWww t) = _
  cases ha : aliases.lookup (String.ofList (withoutWww t)) with
  | none => exact .inl ⟨rfl, rfl⟩
  | some site =>
      obtain ⟨l₁, l₂, hl, -⟩ := List.lookup_eq_some_iff.mp ha
      refine .inr ⟨(String.ofList (withoutWww t), site), ?_, ?_, rfl⟩
      · rw [hl]
        simp
      · exact String.toList_ofList.symm

/-- Names of the alias table: none begins with `www.` or ends in a number, the sites
are no aliases, and all are valid hosts. -/
theorem aliases_spec : ∀ p ∈ aliases,
    (¬ "www.".toList <+: p.1.toList ∧ endsInNumber p.1.toList = false ∧
      validHost p.1.toList = true) ∧
    ¬ "www.".toList <+: p.2.toList ∧ endsInNumber p.2.toList = false ∧
      validHost p.2.toList = true ∧ siteName p.2.toList = p.2.toList ∧
      hasAce p.2.toList = false ∧ parseIpv4 p.2.toList = none := by
  decide +kernel

theorem parseIpv4_endsInNumber (h : parseIpv4 t = some a) : endsInNumber t = true := by
  unfold parseIpv4 fourOctets at h
  split at h
  swap
  · cases h
  rename_i t₁ t₂ t₃ t₄ hs
  simp only [Option.bind_eq_bind, Option.bind_eq_some_iff] at h
  obtain ⟨n₁, h₁, n₂, h₂, n₃, h₃, n₄, h₄, -⟩ := h
  obtain ⟨-, -, d₄, ne₄⟩ := octet_eq_some h₄
  have hlabels : labels t = [t₁, t₂, t₃, t₄] := by
    rw [labels, hs]
    simp [ne₄]
  rw [endsInNumber, hlabels]
  simp [ne₄, d₄]

/-- An address in dotted decimal has no `xn--` label. -/
theorem hasAce_of_parseIpv4 (h : parseIpv4 t = some a) : hasAce t = false := by
  unfold parseIpv4 fourOctets at h
  split at h
  swap
  · cases h
  rename_i t₁ t₂ t₃ t₄ hs
  simp only [Option.bind_eq_bind, Option.bind_eq_some_iff] at h
  obtain ⟨n₁, h₁, n₂, h₂, n₃, h₃, n₄, h₄, -⟩ := h
  have hlabel : ∀ {l n}, octet l = some n → "xn--".toList.isPrefixOf l = false := by
    intro l n hl
    obtain ⟨-, -, hdigits, -⟩ := octet_eq_some hl
    rw [Bool.eq_false_iff]
    intro hace
    obtain ⟨rest, rfl⟩ := List.isPrefixOf_iff_prefix.mp hace
    exact absurd (List.all_eq_true.mp hdigits 'x' (by simp)) (by decide)
  rw [hasAce, hs]
  simp only [List.any_cons, List.any_nil, hlabel h₁, hlabel h₂, hlabel h₃, hlabel h₄]
  rfl

/-- An address in dotted decimal is its own site. -/
theorem siteName_of_parseIpv4 (h : parseIpv4 t = some a) : siteName t = t := by
  have hw := withoutWww_of_not (not_www_of_parseIpv4 h)
  rcases siteName_cases t with ⟨hs, -⟩ | ⟨p, hp, hk, -⟩
  · rw [hs, hw]
  · rw [hw] at hk
    have := (aliases_spec p hp).1.2.1
    rw [← hk, parseIpv4_endsInNumber h] at this
    cases this

/-! ## What the URL parser promises -/

def NameChar (c : Char) : Prop := isAlphanumeric c = true ∨ c = '-' ∨ c = '.'

theorem HostChar.nameChar {c : Char} (h : HostChar (Text.toLower c)) : NameChar c := by
  rw [Text.toLower] at h
  split at h
  · rename_i hu
    exact .inl (by simp [isAlphanumeric, hu])
  · rcases h with h | h | h | h
    · exact .inl (by simp [isAlphanumeric, h])
    · exact .inl (by simp [isAlphanumeric, h])
    · exact .inr (.inl h)
    · exact .inr (.inr h)

section

variable [HostPlatform]

omit [HostPlatform] in
/-- A web address. Under other schemes the parser may leave the host as it is written. -/
def WebText (text : Str) : Prop := "http://".toList <+: text ∨ httpsPrefix <+: text

/-- The host parser: names of letters, digits, hyphens and dots are read as the WHATWG
standard says, in lower case; the domain it printed of a web address it reads as that
domain; addresses have their size; and labels that are valid together are valid without
some. -/
structure HostParser (ace : Str → Bool) : Prop where
  names : ∀ t, t ≠ [] → (∀ c ∈ t, NameChar c) →
    urlHost (httpsPrefix ++ t) = parseName ace (t.map toLower)
  again : ∀ text name, WebText text → urlHost text = some (.domain name) →
    urlHost (httpsPrefix ++ name) = some (.domain name)
  ipv4 : ∀ text a, urlHost text = some (.ipv4 a) → a < 2 ^ 32
  ipv6 : ∀ text segments, urlHost text = some (.ipv6 segments) →
    segments.length = 8 ∧ ∀ n ∈ segments, n < 2 ^ 16
  suffix : ∀ l t, ace (l ++ '.' :: t) = true → ace t = true
  root : ∀ t, ace (t ++ ['.']) = true → ace t = true

theorem HostParser.whatwg {ace : Str → Bool} (hp : HostParser ace) : WhatwgHosts ace := by
  intro d
  have hchar := hostChar_of_valid d.valid
  have hlower : d.text.toList.map toLower = d.text.toList := by
    conv_rhs => rw [← List.map_id d.text.toList]
    exact List.map_congr_left fun c hc => (hchar c hc).toLower
  have h := hp.names d.text.toList (validHost_iff.mp d.valid).1 fun c hc =>
    HostChar.nameChar (by rw [(hchar c hc).toLower]; exact hchar c hc)
  rw [hlower] at h
  exact h

omit [HostPlatform] in
theorem trimEnd_dots {P : Str → Prop} (hstep : ∀ t, P (t ++ ['.']) → P t) (h : P t) :
    P (trimEnd '.' t) := by
  obtain ⟨cs, hcs, hdots⟩ := trimEnd_append '.' t
  rw [hcs] at h
  clear hcs
  induction cs using List.reverseRecOn with
  | nil => rwa [List.append_nil] at h
  | append_singleton cs c ih =>
      obtain rfl := hdots c (by simp)
      rw [← List.append_assoc] at h
      exact ih (hstep _ h) fun d hd => hdots d (List.mem_append_left _ hd)

/-- The `xn--` labels of a name the parser read from a web address are valid. -/
theorem ace_of_readHost {ace : Str → Bool} (hp : HostParser ace) {value : String}
    (hw : WebText (domainUrl (trim value.toList))) (h : readHost value = some (.name t))
    (hv : validHost (siteName t) = true) :
    (∀ c ∈ t, HostChar c) ∧ (hasAce t = true → ace t = true) := by
  have hrest : ∀ c ∈ withoutWww t, HostChar c := by
    rcases siteName_cases t with ⟨hs, -⟩ | ⟨p, hmem, hk, -⟩
    · rw [← hs]
      exact hostChar_of_valid hv
    · rw [hk]
      exact hostChar_of_valid (aliases_spec p hmem).1.2.2
  have hchars : ∀ c ∈ t, HostChar c := by
    by_cases hwww : "www.".toList <+: t
    · obtain ⟨rest, rfl⟩ := hwww
      rw [withoutWww_www] at hrest
      intro c hc
      rcases List.mem_append.mp hc with hc | hc
      · have hall : ("www.".toList.all fun c => isLower c || c == '.') = true := by decide
        have := List.all_eq_true.mp hall c hc
        rw [Bool.or_eq_true, beq_iff_eq] at this
        exact this.imp id fun h => .inr (.inr h)
      · exact hrest c hc
    · rwa [withoutWww_of_not hwww] at hrest
  have hne : t ≠ [] := by
    rintro rfl
    cases hv
  refine ⟨hchars, ?_⟩
  unfold readHost at h
  dsimp only at h
  split at h
  · cases h
  split at h
  · cases h
  swap
  · cases h
  swap
  · cases h
  rename_i name hname
  obtain rfl : (trimEnd '.' name).map toLower = t := by
    rw [Option.some.injEq, ReadHost.name.injEq] at h
    exact h
  obtain ⟨dots, hdots, hdot⟩ := trimEnd_append '.' name
  have hnames : ∀ c ∈ name, NameChar c := by
    intro c hc
    rw [hdots] at hc
    rcases List.mem_append.mp hc with hc | hc
    · exact HostChar.nameChar (hchars _ (List.mem_map_of_mem hc))
    · exact .inr (.inr (hdot c hc))
  have hnil : name ≠ [] := by
    rintro rfl
    exact hne rfl
  have hread := (hp.again _ _ hw hname).symm.trans (hp.names name hnil hnames)
  have hlower : name.map toLower = name := (name_of_domain hread.symm).symm
  have htrim : (trimEnd '.' name).map toLower = trimEnd '.' name := by
    rw [hdots, List.map_append] at hlower
    exact (List.append_inj hlower (by rw [List.length_map])).1
  have hace : hasAce name = true → ace name = true := by
    rw [hlower] at hread
    exact (parseName_isSome.mp (by rw [← hread]; rfl)).1
  rw [htrim]
  refine trimEnd_dots (P := fun t => hasAce t = true → ace t = true) (fun t ht ha => ?_) hace
  exact hp.root t (ht (by rwa [hasAce_append_dot]))

/-- An address is normalised to itself. -/
theorem normalizeDomain_address {ace : Str → Bool} (hp : HostParser ace) {value a : String}
    (h : readHost value = some (.address a)) : normalizeDomain a = .ok a := by
  suffices hfix : trim a.toList = a.toList ∧ parseIpAddr a.toList = some a.toList by
    unfold normalizeDomain
    dsimp only
    rw [hfix.1, hfix.2]
    exact congrArg Except.ok String.ofList_toList
  have hshow4 : ∀ n, n < 2 ^ 32 → trim (showIpv4 n) = showIpv4 n ∧
      parseIpAddr (showIpv4 n) = some (showIpv4 n) := fun n hn =>
    ⟨trim_of_not_whitespace fun c hc => AddressChar.not_whitespace <|
      (showIpv4_chars hc).imp (fun hd => by simp [isHexDigit, hd]) .inr,
      parseIpAddr_showIpv4 hn⟩
  have hshow6 : ∀ segments : List Nat, segments.length = 8 → (∀ n ∈ segments, n < 2 ^ 16) →
      trim (showIpv6 segments) = showIpv6 segments ∧
        parseIpAddr (showIpv6 segments) = some (showIpv6 segments) := fun segments hl hs =>
    ⟨trim_of_not_whitespace fun c hc => (showIpv6_chars hc).not_whitespace,
      parseIpAddr_showIpv6 hl hs⟩
  unfold readHost at h
  dsimp only at h
  split at h
  · rename_i ip hip
    rw [Option.some.injEq, ReadHost.address.injEq] at h
    rw [← h, String.toList_ofList]
    rcases Option.or_eq_some_iff.mp hip with hip | ⟨-, hip⟩
    · obtain ⟨n, hn, rfl⟩ := Option.map_eq_some_iff.mp hip
      exact hshow4 n (showIpv4_of_parse hn).1
    · obtain ⟨segments, hs, rfl⟩ := Option.map_eq_some_iff.mp hip
      exact hshow6 segments (parseIpv6_bounds hs).1 (parseIpv6_bounds hs).2
  · split at h
    · cases h
    · cases h
    · rename_i n hn
      rw [Option.some.injEq, ReadHost.address.injEq] at h
      rw [← h, String.toList_ofList]
      exact hshow4 n (hp.ipv4 _ _ hn)
    · rename_i segments hs
      rw [Option.some.injEq, ReadHost.address.injEq] at h
      rw [← h, String.toList_ofList]
      exact hshow6 segments (hp.ipv6 _ _ hs).1 (hp.ipv6 _ _ hs).2

/-! ## Names that are settled -/

/-- A valid name whose site is normalised to itself: it begins with at most one `www.`,
and its last label is no number, unless it is an address in dotted decimal. -/
def Settled (t : Str) : Prop :=
  validHost (siteName t) = true →
    ¬ "www.".toList <+: withoutWww t ∧
      (endsInNumber t = true → (parseIpv4 t).isSome = true)

/-- The `xn--` labels of the site are valid, and so are those of the name if it is a host. -/
def AceKept (ace : Str → Bool) (t : Str) : Prop :=
  validHost (siteName t) = true →
    (hasAce (siteName t) = true → ace (siteName t) = true) ∧
      (validHost t = true → hasAce t = true → ace t = true)

/-- Whatever the URL parser reads from the text is settled; addresses always are. A name that
it does not read from a web address has valid `xn--` labels, too. -/
def SettledDomain (ace : Str → Bool) (value : String) : Prop :=
  ∀ t, readHost value = some (.name t) →
    Settled t ∧ (¬ WebText (domainUrl (trim value.toList)) → AceKept ace t)

omit [HostPlatform] in
theorem siteOf_of_fixed (hv : validHost t = true) (h : siteName t = t) :
    siteOf t = .ok (String.ofList t) := by
  rw [siteOf, h, if_pos hv]

/-- What a valid name is normalised to. -/
theorem normalizeDomain_valid {ace : Str → Bool} (hp : HostParser ace) (hv : validHost t = true) :
    normalizeDomain (String.ofList t) =
      match parseIpv4 t with
      | some address => .ok (String.ofList (showIpv4 address))
      | none =>
          match parseName ace t with
          | some (.ipv4 address) => .ok (String.ofList (showIpv4 address))
          | some _ => siteOf t
          | none => .error .unavailable := by
  have h := normalizeDomain_stored hp.whatwg ⟨String.ofList t, by rwa [String.toList_ofList]⟩
  dsimp only at h
  rwa [String.toList_ofList] at h

/-- What a name the parser takes for a domain is normalised to. -/
theorem normalizeDomain_name {ace : Str → Bool} (hp : HostParser ace) (hv : validHost t = true)
    (ha : hasAce t = true → ace t = true)
    (hn : endsInNumber t = true → (parseIpv4 t).isSome = true) :
    normalizeDomain (String.ofList t) = siteOf t := by
  rw [normalizeDomain_valid hp hv]
  cases h4 : parseIpv4 t with
  | some a =>
      dsimp only
      rw [(showIpv4_of_parse h4).2, siteOf_of_fixed hv (siteName_of_parseIpv4 h4)]
  | none =>
      have he : endsInNumber t = false := by
        cases he : endsInNumber t with
        | false => rfl
        | true =>
            have := hn he
            rw [h4] at this
            cases this
      have hname : parseName ace t = some (.domain t) := by
        rw [parseName, he, if_neg, if_neg (by simp)]
        rw [Bool.and_eq_true]
        rintro ⟨h₁, h₂⟩
        rw [ha h₁] at h₂
        cases h₂
      dsimp only
      rw [hname]

/-- What is normalised to itself begins with no `www.`, and ends in no number unless it
is an address. -/
theorem fixed_of_normalizeDomain {ace : Str → Bool} (hp : HostParser ace)
    (hv : validHost t = true) (h : normalizeDomain (String.ofList t) = .ok (String.ofList t)) :
    ¬ "www.".toList <+: t ∧ (endsInNumber t = true → (parseIpv4 t).isSome = true) := by
  have hstored := normalizeDomain_valid hp hv
  rw [h] at hstored
  cases h4 : parseIpv4 t with
  | some a => exact ⟨not_www_of_parseIpv4 h4, fun _ => rfl⟩
  | none =>
      rw [h4] at hstored
      dsimp only at hstored
      cases hname : parseName ace t with
      | none =>
          rw [hname] at hstored
          cases hstored
      | some host =>
          rw [hname] at hstored
          cases host with
          | ipv4 a =>
              have ha : ipv4Address t = some a := by
                unfold parseName at hname
                split at hname
                · cases hname
                · split at hname
                  · obtain ⟨b, hb, he⟩ := Option.map_eq_some_iff.mp hname
                    cases he
                    exact hb
                  · cases hname
              dsimp only at hstored
              rw [Except.ok.injEq, String.ofList_inj] at hstored
              rw [hstored, parseIpv4_show (ipv4Address_lt ha)] at h4
              cases h4
          | ipv6 segments => exact absurd hname not_ipv6_of_name
          | domain name =>
              have he : endsInNumber t = false := by
                unfold parseName at hname
                split at hname
                · cases hname
                · split at hname
                  · obtain ⟨b, -, he⟩ := Option.map_eq_some_iff.mp hname
                    cases he
                  · rename_i he
                    simpa using he
              have hsite : siteName t = t := by
                dsimp only at hstored
                unfold siteOf at hstored
                split at hstored
                · rw [Except.ok.injEq, String.ofList_inj] at hstored
                  exact hstored.symm
                · cases hstored
              refine ⟨?_, fun h => absurd h (by simp [he])⟩
              rintro ⟨rest, rfl⟩
              rcases siteName_cases ("www.".toList ++ rest) with ⟨hs, -⟩ | ⟨p, hp, -, hs⟩
              · rw [hsite, withoutWww_www] at hs
                have := congrArg List.length hs
                rw [List.length_append] at this
                exact absurd this (by simp)
              · exact (aliases_spec p hp).2.1 (by rw [← hs, hsite]; exact List.prefix_append _ _)

/-- Names of valid labels have sites of valid labels. -/
theorem AceKept.of_name {ace : Str → Bool} (hp : HostParser ace)
    (h : hasAce t = true → ace t = true) : AceKept ace t := by
  refine fun _ => ⟨fun ha => ?_, fun _ => h⟩
  rcases siteName_cases t with ⟨hs, -⟩ | ⟨p, hmem, -, hs⟩
  · rw [hs] at ha ⊢
    by_cases hw : "www.".toList <+: t
    · obtain ⟨rest, rfl⟩ := hw
      rw [withoutWww_www] at ha ⊢
      exact hp.suffix "www".toList rest (h (by rwa [hasAce_www]))
    · rw [withoutWww_of_not hw] at ha ⊢
      exact h ha
  · rw [hs, (aliases_spec p hmem).2.2.2.2.2.1] at ha
    cases ha

theorem SettledDomain.ace {ace : Str → Bool} (hp : HostParser ace) {value : String}
    (h : SettledDomain ace value) (hr : readHost value = some (.name t))
    (hv : validHost (siteName t) = true) : AceKept ace t := by
  by_cases hw : WebText (domainUrl (trim value.toList))
  · exact .of_name hp (ace_of_readHost hp hw hr hv).2
  · exact (h t hr).2 hw

/-- A valid host that is normalised has valid `xn--` labels. -/
theorem ace_of_normalizeDomain {ace : Str → Bool} (hp : HostParser ace) {site : String}
    (hv : validHost t = true) (h : normalizeDomain (String.ofList t) = .ok site) :
    hasAce t = true → ace t = true := by
  rw [normalizeDomain_valid hp hv] at h
  cases h4 : parseIpv4 t with
  | some a =>
      intro ha
      rw [hasAce_of_parseIpv4 h4] at ha
      cases ha
  | none =>
      rw [h4] at h
      dsimp only at h
      cases hname : parseName ace t with
      | none =>
          rw [hname] at h
          cases h
      | some host => exact (parseName_isSome.mp (by rw [hname]; rfl)).1

/-- The site of a settled name is its own, and so is that of the name itself. -/
theorem Settled.fixed {ace : Str → Bool} (hp : HostParser ace) (h : Settled t)
    (hv : validHost (siteName t) = true)
    (ha : hasAce (siteName t) = true → ace (siteName t) = true) :
    normalizeDomain (String.ofList (siteName t)) = .ok (String.ofList (siteName t)) := by
  obtain ⟨hwww, hnumber⟩ := h hv
  suffices hs : siteName (siteName t) = siteName t ∧
      (endsInNumber (siteName t) = true → (parseIpv4 (siteName t)).isSome = true) by
    rw [normalizeDomain_name hp hv ha hs.2, siteOf_of_fixed hv hs.1]
  rcases siteName_cases t with ⟨hs, hnone⟩ | ⟨p, hmem, -, hs⟩
  · have hrest : siteName (withoutWww t) = withoutWww t := by
      have hw := withoutWww_of_not hwww
      show ((aliases.lookup (String.ofList (withoutWww (withoutWww t)))).map String.toList).getD
        (withoutWww (withoutWww t)) = _
      rw [hw, hnone]
      rfl
    rw [hs] at hv ⊢
    by_cases hw : "www.".toList <+: t
    · obtain ⟨rest, rfl⟩ := hw
      rw [withoutWww_www] at hv hrest ⊢
      refine ⟨hrest, fun h => ?_⟩
      obtain ⟨a, h4⟩ := Option.isSome_iff_exists.mp (hnumber (by rwa [endsInNumber_www hv]))
      exact absurd (List.prefix_append _ _) (not_www_of_parseIpv4 h4)
    · rw [withoutWww_of_not hw] at hrest ⊢
      exact ⟨hrest, hnumber⟩
  · obtain ⟨-, -, hend, -, hsite, -⟩ := aliases_spec p hmem
    rw [hs]
    exact ⟨hsite, fun h => absurd h (by simp [hend])⟩

/-! ## Normalised configurations -/

variable {entries : List String}

theorem normalizeEntries_eq_ok {sites : List String} (h : normalizeEntries entries = .ok sites) :
    List.Forall₂ (fun entry site => normalizeDomain entry = .ok site) entries sites := by
  induction entries generalizing sites with
  | nil =>
      cases h
      exact .nil
  | cons entry entries ih =>
      rw [normalizeEntries] at h
      split at h
      · cases h
      · obtain ⟨site, hs, h⟩ := Tx.result_bind_eq_ok.mp h
        obtain ⟨sites, hr, h⟩ := Tx.result_bind_eq_ok.mp h
        cases h
        refine .cons ?_ (ih hr)
        cases hn : normalizeDomain entry with
        | ok site' =>
            rw [hn] at hs
            cases hs
            rfl
        | error e =>
            rw [hn] at hs
            cases hs

variable {config : DownloadNetworkConfig} {proxy : Option String}

theorem new_domains (h : DownloadNetworkConfig.new proxy entries = .ok config) :
    ∃ sites, normalizeEntries entries = .ok sites ∧
      config.noCookieDomains = (sites.insertionSort (· ≤ ·)).dedup := by
  unfold DownloadNetworkConfig.new at h
  obtain ⟨-, h⟩ := Tx.result_guard_eq_ok.mp h
  obtain ⟨sites, hs, h⟩ := Tx.result_bind_eq_ok.mp h
  refine ⟨sites, hs, ?_⟩
  obtain ⟨-, -, h⟩ := Tx.result_bind_eq_ok.mp h
  cases h
  rfl

/-- Patterns that are normalised to themselves are matched as they stand. -/
theorem matchesNoCookieDomain_fixed {patterns : List String}
    (h : ∀ p ∈ patterns, normalizeDomain p = .ok p) (target : String) :
    matchesNoCookieDomain target patterns = .ok (patterns.any (domainMatch target)) := by
  induction patterns with
  | nil => rfl
  | cons p patterns ih =>
      rw [matchesNoCookieDomain, h p List.mem_cons_self]
      show (if domainMatch target p then pure true else _) = _
      rw [List.any_cons]
      split
      · rename_i hm
        rw [hm, Bool.true_or]
        rfl
      · rename_i hm
        rw [ih fun q hq => h q (List.mem_cons_of_mem _ hq), Bool.not_eq_true _ |>.mp hm,
          Bool.false_or]

/-- A configuration of entries whose sites are fixed selects what its entries do. -/
theorem matches_of_new (h : DownloadNetworkConfig.new proxy entries = .ok config)
    (hfix : ∀ entry ∈ entries, ∀ site, normalizeDomain entry = .ok site →
      normalizeDomain site = .ok site) (target : String) :
    matchesNoCookieDomain target config.noCookieDomains =
      .ok (entries.any (selects target)) := by
  obtain ⟨sites, hs, hc⟩ := new_domains h
  have hsites := normalizeEntries_eq_ok hs
  have hmem : ∀ p, p ∈ config.noCookieDomains ↔ p ∈ sites := fun p => by
    rw [hc, List.mem_dedup, List.mem_insertionSort]
  have hany : sites.any (domainMatch target) = entries.any (selects target) := by
    clear hs hmem hfix hc h
    induction hsites with
    | nil => rfl
    | cons hab _ ih => rw [List.any_cons, List.any_cons, ih, selects, hab]
  have hfixed : ∀ p ∈ sites, normalizeDomain p = .ok p := by
    intro p hp
    obtain ⟨i, hi, rfl⟩ := List.mem_iff_getElem.mp hp
    have hlen := hsites.length_eq
    exact hfix entries[i] (List.getElem_mem _) _ (List.Forall₂.get hsites (by omega) hi)
  rw [matchesNoCookieDomain_fixed fun p hp => hfixed p ((hmem p).mp hp), ← hany]
  rw [Except.ok.injEq, Bool.eq_iff_iff, List.any_eq_true, List.any_eq_true]
  exact exists_congr fun p => and_congr_left fun _ => hmem p

theorem withSystemProxyDomains_eq_ok {config' : DownloadNetworkConfig}
    (h : config.withSystemProxyDomains entries = .ok config') :
    ∃ other, DownloadNetworkConfig.new none entries = .ok other ∧
      config'.systemProxyDomains = other.noCookieDomains := by
  obtain ⟨other, ho, h⟩ := Tx.result_bind_eq_ok.mp h
  cases h
  exact ⟨other, ho, rfl⟩

/-- A cookie stored under an address behind `www.` is for no host. -/
theorem www_quad_unmatched {ace : Str → Bool} (hp : HostParser ace) (h4 : parseIpv4 t = some a)
    (hv : validHost t = true) (target : String) :
    ∃ d : CookieDomain, d.text = String.ofList ("www.".toList ++ t) ∧
      candidateDomainMatches target d.text ≠ .ok true := by
  have hs : split '.' ("www.".toList ++ t) = "www".toList :: split '.' t :=
    split_append_sep '.' "www".toList t
  have hdecimal : ∀ n, byteLen (decimal (n % 256)) ≤ 3 := fun n =>
    byteLen_repr (by decide) (show n % 256 < 10 ^ 3 by omega)
  have hlen : byteLen t ≤ 15 := by
    rw [← (showIpv4_of_parse h4).2, showIpv4_eq]
    simp only [List.intercalate_cons_cons, List.intercalate_singleton, byteLen_append]
    have h₁ := hdecimal (a / 2 ^ 24)
    have h₂ := hdecimal (a / 2 ^ 16)
    have h₃ := hdecimal (a / 2 ^ 8)
    have h₄ := hdecimal a
    have hdot : byteLen ['.'] = 1 := by decide
    omega
  have hwww : validHost ("www.".toList ++ t) = true := by
    refine validHost_iff.mpr ⟨by simp, ?_, fun l hl => ?_⟩
    · rw [byteLen_append]
      have : byteLen "www.".toList = 4 := by decide
      omega
    · rw [hs] at hl
      rcases List.mem_cons.mp hl with rfl | hl
      · decide
      · exact (validHost_iff.mp hv).2.2 l hl
  have hlabels : (labels ("www.".toList ++ t)).length = 5 := by
    rw [labels_www hv]
    unfold parseIpv4 fourOctets at h4
    split at h4
    · rename_i h
      rw [h]
      rfl
    · cases h4
  have hname : parseName ace ("www.".toList ++ t) = none := by
    have hend : endsInNumber ("www.".toList ++ t) = true := by
      rw [endsInNumber_www hv, parseIpv4_endsInNumber h4]
    rw [parseName, hend, ipv4Address, if_neg (c := _ ≤ 4) (by omega)]
    split <;> rfl
  have hnone : parseIpv4 ("www.".toList ++ t) = none := by
    cases h : parseIpv4 ("www.".toList ++ t) with
    | none => rfl
    | some b => exact absurd (List.prefix_append _ _) (not_www_of_parseIpv4 h)
  have hd : validHost (String.ofList ("www.".toList ++ t)).toList = true := by
    rwa [String.toList_ofList]
  refine ⟨⟨String.ofList ("www.".toList ++ t), hd⟩, rfl, ?_⟩
  rw [candidateDomainMatches, normalizeDomain_valid hp hwww, hnone, hname]
  intro hok
  cases hok

/-! ## Domains that stay as they are normalised -/

omit [HostPlatform] in
def ReadHost.text : ReadHost → String
  | .address a => a
  | .name t => String.ofList t

/-- Normalising a domain once more changes nothing: in itself, where the configuration
matches it, and for the cookies stored under its host. -/
structure StableDomain (value : String) : Prop where
  idempotent : ∀ site, normalizeDomain value = .ok site → normalizeDomain site = .ok site
  bypassed : ∀ proxy config, DownloadNetworkConfig.new proxy [value] = .ok config →
    ∀ target, matchesNoCookieDomain target config.noCookieDomains = .ok (selects target value)
  proxied : ∀ (config config' : DownloadNetworkConfig),
    config.withSystemProxyDomains [value] = .ok config' →
    ∀ target, matchesNoCookieDomain target config'.systemProxyDomains = .ok (selects target value)
  stored : ∀ host site, readHost value = some host → normalizeDomain value = .ok site →
    ∀ d : CookieDomain, d.text = host.text → candidateDomainMatches site d.text = .ok true

/-- **Normalised domains.** Normalising a domain again changes nothing if and only if
what the URL parser reads is an address, or a name that is settled and, where the text is no
web address, of valid labels. A configuration of such entries selects what the entries do. -/
theorem normalized_again {ace : Str → Bool} (hp : HostParser ace) (value : String) :
    (StableDomain value ↔ SettledDomain ace value) ∧
    ∀ entries : List String, (∀ entry ∈ entries, SettledDomain ace entry) →
      (∀ proxy config, DownloadNetworkConfig.new proxy entries = .ok config → ∀ target,
        matchesNoCookieDomain target config.noCookieDomains =
          .ok (entries.any (selects target))) ∧
      ∀ (config config' : DownloadNetworkConfig),
        config.withSystemProxyDomains entries = .ok config' → ∀ target,
        matchesNoCookieDomain target config'.systemProxyDomains =
          .ok (entries.any (selects target)) := by
  have hname : ∀ {value t}, readHost value = some (.name t) →
      normalizeDomain value = siteOf t := fun h => by rw [normalizeDomain_readHost, h]
  -- what is settled is normalized to a name that is normalized to itself
  have hfixed : ∀ {entry}, SettledDomain ace entry → ∀ site, normalizeDomain entry = .ok site →
      normalizeDomain site = .ok site := by
    intro entry hs site h
    cases hr : readHost entry with
    | none =>
        rw [normalizeDomain_readHost, hr] at h
        cases h
    | some host =>
        cases host with
        | address a =>
            rw [normalizeDomain_readHost, hr] at h
            cases h
            exact normalizeDomain_address hp hr
        | name t =>
            rw [hname hr, siteOf] at h
            split at h
            swap
            · cases h
            rename_i hv
            cases h
            exact (hs t hr).1.fixed hp hv (hs.ace hp hr hv hv).1
  refine ⟨⟨fun h t hr => ⟨fun hv => ?_, fun _ hv => ?_⟩, fun h => ⟨hfixed h, ?_, ?_, ?_⟩⟩,
    fun entries hs => ⟨?_, ?_⟩⟩
  · have hsite : normalizeDomain value = .ok (String.ofList (siteName t)) := by
      rw [hname hr, siteOf, if_pos hv]
    obtain ⟨hwww, hnumber⟩ := fixed_of_normalizeDomain hp hv (h.idempotent _ hsite)
    rcases siteName_cases t with ⟨hs, -⟩ | ⟨p, hmem, hk, -⟩
    · rw [hs] at hwww hnumber hv
      refine ⟨hwww, fun he => ?_⟩
      -- behind `www.` an address in dotted decimal would not match its own host
      by_cases hw : "www.".toList <+: t
      · obtain ⟨rest, rfl⟩ := hw
        rw [withoutWww_www] at hnumber hv
        rw [endsInNumber_www hv] at he
        obtain ⟨a, h4⟩ := Option.isSome_iff_exists.mp (hnumber he)
        obtain ⟨d, hd, hne⟩ := www_quad_unmatched hp h4 hv (String.ofList _)
        exact absurd (h.stored _ _ hr hsite d hd) hne
      · rw [withoutWww_of_not hw] at hnumber
        exact hnumber he
    · obtain ⟨⟨hpw, hend, hpv⟩, -⟩ := aliases_spec p hmem
      rw [hk]
      refine ⟨hpw, fun he => ?_⟩
      by_cases hw : "www.".toList <+: t
      · obtain ⟨rest, rfl⟩ := hw
        rw [withoutWww_www] at hk
        rw [hk, endsInNumber_www hpv, hend] at he
        cases he
      · rw [withoutWww_of_not hw] at hk
        rw [hk, hend] at he
        cases he
  · have hsite : normalizeDomain value = .ok (String.ofList (siteName t)) := by
      rw [hname hr, siteOf, if_pos hv]
    refine ⟨ace_of_normalizeDomain hp hv (h.idempotent _ hsite), fun hvt => ?_⟩
    have hstored := h.stored _ _ hr hsite ⟨String.ofList t, by rwa [String.toList_ofList]⟩ rfl
    obtain ⟨site, hn, -⟩ := Tx.result_bind_eq_ok.mp hstored
    exact ace_of_normalizeDomain hp hvt hn
  · intro proxy config hc target
    have := matches_of_new hc (fun entry he => hfixed (List.mem_singleton.mp he ▸ h)) target
    rwa [List.any_cons, List.any_nil, Bool.or_false] at this
  · intro config config' hc target
    obtain ⟨other, ho, he⟩ := withSystemProxyDomains_eq_ok hc
    have := matches_of_new ho (fun entry he => hfixed (List.mem_singleton.mp he ▸ h)) target
    rwa [List.any_cons, List.any_nil, Bool.or_false, ← he] at this
  · intro host site hr hsite d hd
    suffices hn : normalizeDomain d.text = .ok site by
      rw [candidateDomainMatches, hn]
      exact congrArg Except.ok (domainMatch_self site)
    cases host with
    | address a =>
        rw [normalizeDomain_readHost, hr] at hsite
        cases hsite
        rw [hd]
        exact normalizeDomain_address hp hr
    | name t =>
        have hv : validHost t = true := by
          have := d.valid
          rw [hd, ReadHost.text, String.toList_ofList] at this
          exact this
        rw [hname hr] at hsite
        have hsv : validHost (siteName t) = true := by
          unfold siteOf at hsite
          split at hsite
          · assumption
          · cases hsite
        rw [hd, ReadHost.text, ← hsite]
        exact normalizeDomain_name hp hv ((h.ace hp hr hsv hsv).2 hv) ((h t hr).1 hsv).2
  · intro proxy config hc target
    exact matches_of_new hc (fun entry he => hfixed (hs entry he)) target
  · intro config config' hc target
    obtain ⟨other, ho, he⟩ := withSystemProxyDomains_eq_ok hc
    rw [he]
    exact matches_of_new ho (fun entry he => hfixed (hs entry he)) target

end

/-! ## A name with two `www.` -/

namespace NormalScenario

/-- The host of an `https` URL that is nothing but a name. -/
def hostOf (text : String) : Option Host :=
  (stripPrefix httpsPrefix text.toList).bind fun t =>
    if t = [] then none else parseName (fun _ => false) (t.map toLower)

/-- A URL parser that reads such URLs. -/
@[reducible] def platform : HostPlatform :=
  { Storage.Scenario.platform with
    parseUrl := fun text => (hostOf text).map fun _ => ⟨text⟩
    host := fun url => hostOf url.asStr }

attribute [local instance] platform

theorem urlHost_eq (text : Str) : urlHost text = hostOf (String.ofList text) := by
  show ((hostOf (String.ofList text)).map fun _ => (⟨String.ofList text⟩ : Url)).bind
    (fun url => hostOf url.asStr) = _
  cases hn : hostOf (String.ofList text) with
  | none => rfl
  | some host => exact hn

theorem hostOf_https (h : t ≠ []) :
    hostOf (String.ofList (httpsPrefix ++ t)) = parseName (fun _ => false) (t.map toLower) := by
  rw [hostOf, String.toList_ofList, stripPrefix_eq_some.mpr rfl]
  exact if_neg h

theorem toLower_toLower (c : Char) : toLower (toLower c) = toLower c := by
  have hv : c.toNat = c.val.toNat := rfl
  have hA : ('A' : Char).val.toNat = 65 := rfl
  have hZ : ('Z' : Char).val.toNat = 90 := rfl
  by_cases hu : isUpper c = true
  · have hr := hu
    simp only [isUpper, Bool.and_eq_true, decide_eq_true_eq, Char.le_def,
      UInt32.le_iff_toNat_le] at hr
    obtain ⟨n, hn, hlt⟩ : ∃ n, c.toNat = 65 + n ∧ n < 26 := ⟨c.toNat - 65, by omega, by omega⟩
    have hc : c = Char.ofNat (65 + n) := by rw [← hn, Char.ofNat_toNat]
    rw [hc]
    interval_cases n <;> decide
  · have hc : toLower c = c := if_neg hu
    rw [hc, hc]

theorem parser : HostParser fun _ => false where
  names t ht _ := by rw [urlHost_eq, hostOf_https ht]
  again text name _ h := by
    rw [urlHost_eq, hostOf] at h
    obtain ⟨t, -, h⟩ := Option.bind_eq_some_iff.mp h
    split at h
    · cases h
    rename_i hne
    obtain rfl := name_of_domain h
    rw [urlHost_eq, hostOf_https (by simpa using hne), List.map_map,
      show toLower ∘ toLower = toLower from funext toLower_toLower]
    exact h
  ipv4 text a h := by
    rw [urlHost_eq, hostOf] at h
    obtain ⟨t, -, h⟩ := Option.bind_eq_some_iff.mp h
    split at h
    · cases h
    · unfold parseName at h
      split at h
      · cases h
      · split at h
        · obtain ⟨b, hb, he⟩ := Option.map_eq_some_iff.mp h
          cases he
          exact ipv4Address_lt hb
        · cases h
  ipv6 text segments h := by
    rw [urlHost_eq, hostOf] at h
    obtain ⟨t, -, h⟩ := Option.bind_eq_some_iff.mp h
    split at h
    · cases h
    · exact absurd h not_ipv6_of_name
  suffix _ _ h := by cases h
  root _ h := by cases h

end NormalScenario

section

attribute [local instance] NormalScenario.platform

open NormalScenario

theorem normalized_again_www : StableDomain "www.Example.com." := by
  refine (normalized_again parser "www.Example.com.").1.mpr fun t ht =>
    ⟨fun _ => ?_, fun hw => absurd (.inr (List.prefix_append _ _)) hw⟩
  have hr : readHost "www.Example.com." = some (.name "www.example.com".toList) := by
    decide +kernel
  rw [hr, Option.some.injEq, ReadHost.name.injEq] at ht
  rw [← ht]
  exact ⟨by decide +kernel, by decide +kernel⟩

/-- The second `www.` is taken off when the domain is matched. -/
theorem www_www_renamed :
    (¬ ∀ value site, normalizeDomain value = .ok site → normalizeDomain site = .ok site) ∧
    normalizeDomain "www.www.example.com" = .ok "www.example.com" ∧
    normalizeDomain "www.example.com" = .ok "example.com" ∧
    ∃ config, DownloadNetworkConfig.new none ["www.www.example.com"] = .ok config ∧
      matchesNoCookieDomain "example.com" config.noCookieDomains = .ok true ∧
      selects "example.com" "www.www.example.com" = false := by
  have h₁ : normalizeDomain "www.www.example.com" = .ok "www.example.com" := by decide +kernel
  have h₂ : normalizeDomain "www.example.com" = .ok "example.com" := by decide +kernel
  refine ⟨fun h => ?_, h₁, h₂, _, rfl, by decide +kernel, by decide +kernel⟩
  have := h _ _ h₁
  rw [h₂] at this
  exact absurd this (by decide)

end

end YoinkCore.Downloads
