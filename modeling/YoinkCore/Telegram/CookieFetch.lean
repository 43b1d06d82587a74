import YoinkCore.Telegram.CookieUrl

/-!
# Fetches that stay public

Whatever lookups and servers answer, every hop goes to public addresses or to an origin that was
configured.
-/

namespace YoinkCore.Telegram.CookieUrl

open Lib Lib.Text Lib.HostName Domain Storage

/-- An address is a number of 32 bits, or eight segments of 16. -/
def IpAddr.Proper : IpAddr → Prop
  | .v4 address => address < 2 ^ 32
  | .v6 segments => segments.length = 8 ∧ ∀ s ∈ segments, s < 2 ^ 16

theorem parseUnsigned_le {hi n : Nat} {t : Str} (h : parseUnsigned hi t = some n) : n ≤ hi :=
  of_decide_eq_true (Option.filter_eq_some_iff.mp h).2

theorem mem_of_mapM {α β : Type} {f : α → Option β} {as : List α} {bs : List β}
    (h : as.mapM f = some bs) {b : β} (hb : b ∈ bs) : ∃ a ∈ as, f a = some b := by
  induction as generalizing bs with
  | nil =>
      cases h
      cases hb
  | cons a as ih =>
      rw [List.mapM_cons] at h
      obtain ⟨b', hb', h⟩ := Option.bind_eq_some_iff.mp h
      obtain ⟨bs', hbs', hcons⟩ := Option.bind_eq_some_iff.mp h
      cases hcons
      rcases List.mem_cons.mp hb with rfl | hb
      · exact ⟨a, List.mem_cons_self, hb'⟩
      · obtain ⟨a', ha', hfa⟩ := ih hbs' hb
        exact ⟨a', List.mem_cons_of_mem _ ha', hfa⟩

/-! ## Bodies -/

theorem readChunks_length {chunks : List (Option (List UInt8))} :
    ∀ {bytes read : List UInt8}, bytes.length ≤ maxBytes → readChunks bytes chunks = some read →
      read.length ≤ maxBytes := by
  induction chunks with
  | nil =>
      intro bytes read hbytes h
      cases h
      exact hbytes
  | cons chunk rest ih =>
      intro bytes read hbytes h
      cases chunk with
      | none => cases h
      | some chunk =>
          rw [readChunks] at h
          split at h
          · cases h
          · rename_i hroom
            refine ih ?_ h
            rw [List.length_append]
            exact Nat.le_of_not_lt hroom

theorem byteLen_of_text {bytes : List UInt8} {s : String} (h : Bytes.text bytes = some s) :
    byteLen s.toList = bytes.length := by
  rw [← Bytes.toUTF8_length]
  unfold Bytes.text String.fromUTF8? at h
  split at h
  · cases h
    rfl
  · cases h

theorem readBody_length {response : Response} {s : String} (h : readBody response = some s) :
    byteLen s.toList ≤ maxBytes := by
  unfold readBody at h
  split at h
  · cases h
  · obtain ⟨bytes, hbytes, h⟩ := Option.bind_eq_some_iff.mp h
    split at h
    · cases h
    · rw [byteLen_of_text h]
      exact readChunks_length (Nat.zero_le _) hbytes

section

variable [CookiePlatform]

open Platform Downloads.HostPlatform CookiePlatform

/-- How a URL is parsed: an address as a host is one, and an origin that is written with an address
and a port has them. -/
structure HostLaws : Prop where
  proper : ∀ t u ip, parseUrl t = some u → (host u).bind ipOf = some ip → ip.Proper
  origin : ∀ s ip port u, s = "http" ∨ s = "https" → ip.Proper → 0 < port → port ≤ 65535 →
    parseUrl (String.ofList (originText s ip port)) = some u →
    scheme u = s ∧ (host u).bind ipOf = some ip ∧ portOrKnownDefault u = some port

/-! ## Origins -/

/-- The URL has the scheme, the address and the port an origin is written with. -/
def OriginOf (origin : String) (url : Url) (ip : IpAddr) (port : Nat) : Prop :=
  (origin.toList = originText (scheme url) ip port ∨
    origin.toList = originText (scheme url) ip port ++ ['/']) ∧
  (host url).bind ipOf = some ip ∧ portOrKnownDefault url = some port

/-- What an accepted origin is. -/
theorem canonicalOrigin_eq_some {origin c : String} (h : canonicalOrigin origin = some c) :
    ∃ u ip port, parseUrl origin = some u ∧ (host u).bind ipOf = some ip ∧ 0 < port ∧
      port ≤ 65535 ∧ (scheme u = "http" ∨ scheme u = "https") ∧
      c = String.ofList (originText (scheme u) ip port) ∧
      (origin.toList = originText (scheme u) ip port ∨
        origin.toList = originText (scheme u) ip port ++ ['/']) := by
  unfold canonicalOrigin at h
  obtain ⟨u, hu, h⟩ := Option.bind_eq_some_iff.mp h
  obtain ⟨ip, hip, h⟩ := Option.bind_eq_some_iff.mp h
  obtain ⟨authority, -, h⟩ := Option.bind_eq_some_iff.mp h
  obtain ⟨port, hport, h⟩ := Option.bind_eq_some_iff.mp h
  obtain ⟨_, -, hport⟩ := Option.bind_eq_some_iff.mp hport
  split at h
  · cases h
  · rename_i hchecks
    dsimp only at h
    split at h
    · cases h
    · rename_i hspelled
      cases h
      simp only [Bool.or_eq_true, not_or, Bool.not_eq_true', Bool.not_eq_true,
        Bool.not_eq_false] at hchecks
      obtain ⟨⟨⟨⟨⟨⟨⟨hzero, -⟩, hscheme⟩, -⟩, -⟩, -⟩, -⟩, -⟩ := hchecks
      have hhttp : scheme u = "http" ∨ scheme u = "https" := by
        rw [List.contains_iff_mem] at hscheme
        simpa using hscheme
      refine ⟨u, ip, port, hu, hip, Nat.pos_of_ne_zero (by simpa using hzero),
        parseUnsigned_le hport, hhttp, rfl, ?_⟩
      by_cases hplain : origin.toList = originText (scheme u) ip port
      · exact .inl hplain
      · refine .inr ?_
        rw [Bool.and_eq_true, not_and] at hspelled
        simpa using hspelled (by simpa using hplain)

variable {origins : List String} {cfg : CookieUrlConfig} {timeout : Duration} {url : Url}

theorem origin_of_mem (h : CookieUrlConfig.new timeout origins = some cfg) {c : String}
    (hc : c ∈ cfg.privateOrigins) : ∃ origin ∈ origins, canonicalOrigin origin = some c := by
  unfold CookieUrlConfig.new at h
  split at h
  · cases h
  · obtain ⟨kept, hkept, rfl⟩ := Option.map_eq_some_iff.mp h
    exact mem_of_mapM hkept hc

/-- An exception is made for a configured origin. -/
theorem origin_of_exception (hl : HostLaws)
    (hcfg : CookieUrlConfig.new timeout origins = some cfg) (h : privateException url cfg = true) :
    ∃ origin ∈ origins, ∃ ip port, OriginOf origin url ip port := by
  unfold privateException at h
  obtain ⟨_, -, h⟩ := (Option.any_eq_true _ _).mp h
  obtain ⟨c, hc, h⟩ := List.any_eq_true.mp (Bool.and_eq_true_iff.mp h).1
  obtain ⟨x, hx, h⟩ := (Option.any_eq_true _ _).mp h
  simp only [Bool.and_eq_true, beq_iff_eq, decide_eq_true_eq] at h
  obtain ⟨⟨hscheme, hhost⟩, hport⟩ := h
  obtain ⟨origin, horigin, hcanonical⟩ := origin_of_mem hcfg hc
  obtain ⟨u, ip, port, hu, hip, hpos, hle, hhttp, rfl, htext⟩ := canonicalOrigin_eq_some hcanonical
  obtain ⟨hscheme', hip', hport'⟩ :=
    hl.origin _ ip port x hhttp (hl.proper _ u ip hu hip) hpos hle hx
  refine ⟨origin, horigin, ip, port, ?_, hhost ▸ hip', hport ▸ hport'⟩
  rwa [← hscheme, hscheme']

/-! ## Requests -/

/-- A URL without user information. -/
def Clean (url : Url) : Prop := (username url).isEmpty = true ∧ password url = none

theorem clean_of_safe {t : Str} (h : safeUrl t = some url) : Clean url := by
  unfold safeUrl at h
  split at h
  · cases h
  · obtain ⟨u, -, h⟩ := Option.bind_eq_some_iff.mp h
    obtain ⟨authority, -, h⟩ := Option.bind_eq_some_iff.mp h
    split at h
    · cases h
    · rename_i hchecks
      cases h
      simp only [Bool.or_eq_true, not_or, Bool.not_eq_true', Bool.not_eq_true,
        Bool.not_eq_false] at hchecks
      obtain ⟨⟨⟨⟨⟨-, -⟩, huser⟩, hpass⟩, -⟩, -⟩ := hchecks
      exact ⟨huser, by simpa using hpass⟩

/-- A step that does not leave `https` for `http`. -/
def Secure (url next : Url) : Prop := ¬ (scheme url = "https" ∧ scheme next = "http")

theorem validatedRedirect_eq_some {next : Url} {status : Nat} {location : Str}
    (h : validatedRedirect url status location = some next) : Clean next ∧ Secure url next := by
  unfold validatedRedirect at h
  split at h
  · cases h
  · obtain ⟨target, htarget, h⟩ := Option.bind_eq_some_iff.mp h
    split at h
    · cases h
    · rename_i hdowngrade
      cases h
      unfold redirectTarget at htarget
      split at htarget
      · cases htarget
      · obtain ⟨resolved, -, hsafe⟩ := Option.bind_eq_some_iff.mp htarget
        refine ⟨clean_of_safe hsafe, ?_⟩
        rintro ⟨hcurrent, hnext⟩
        exact hdowngrade (by rw [hcurrent, hnext]; rfl)

/-- What the addresses of a host are: its own, or the public ones a lookup found. -/
theorem resolve_cases {net : Network} {hop : Nat} {addrs : List SocketAddr}
    (h : resolve net hop url = some addrs) : addrs ≠ [] ∧
      ((∃ ip port, (host url).bind ipOf = some ip ∧ portOrKnownDefault url = some port ∧
        addrs = [⟨ip, port⟩]) ∨
      ((host url).bind ipOf = none ∧ ∀ a ∈ addrs, isPublic a.ip = true)) := by
  unfold resolve at h
  obtain ⟨port, hport, h⟩ := Option.bind_eq_some_iff.mp h
  obtain ⟨found, hhost, h⟩ := Option.bind_eq_some_iff.mp h
  cases found with
  | ipv4 address | ipv6 segments =>
      cases h
      exact ⟨by simp, .inl ⟨_, port, by rw [hhost]; rfl, hport, rfl⟩⟩
  | domain name =>
      obtain ⟨addrs', -, h⟩ := Option.bind_eq_some_iff.mp h
      unfold validateResolution at h
      split at h
      · cases h
      · rename_i hchecks
        cases h
        rw [Bool.or_eq_true, not_or] at hchecks
        refine ⟨by simpa using hchecks.1, .inr ⟨by rw [hhost]; rfl, fun a ha => ?_⟩⟩
        have hall := List.any_eq_false.mp (Bool.not_eq_true _ ▸ hchecks.2) a ha
        simpa using hall

/-- The request goes to the addresses of its host, which are its own if it is an address, and these
are public, or the host is that of an origin that is configured. -/
def Pinned (origins : List String) (r : Request) : Prop :=
  hostStr r.url = some r.host ∧ r.addrs ≠ [] ∧
    (∀ ip, (host r.url).bind ipOf = some ip → r.addrs.map SocketAddr.ip = [ip]) ∧
    ((∀ a ∈ r.addrs, isPublic a.ip = true) ∨
      ∃ origin ∈ origins, ∃ ip port, OriginOf origin r.url ip port ∧ r.addrs = [⟨ip, port⟩])

theorem requestOf_eq_some (hl : HostLaws) (hcfg : CookieUrlConfig.new timeout origins = some cfg)
    {net : Network} {hop : Nat} {r : Request} (h : requestOf cfg net hop url = some r) :
    r.url = url ∧ Pinned origins r := by
  unfold requestOf at h
  obtain ⟨addrs, haddrs, h⟩ := Option.bind_eq_some_iff.mp h
  split at h
  · cases h
  · rename_i hchecked
    obtain ⟨name, hname, h⟩ := Option.bind_eq_some_iff.mp h
    split at h
    · cases h
      obtain ⟨hne, hcases⟩ := resolve_cases haddrs
      refine ⟨rfl, hname, hne, ?_, ?_⟩
      · intro ip hip
        rcases hcases with ⟨ip', _, hip', -, rfl⟩ | ⟨hnone, -⟩
        · obtain rfl := Option.some.inj (hip.symm.trans hip')
          rfl
        · rw [hip] at hnone
          cases hnone
      rw [Bool.and_eq_true, not_and] at hchecked
      by_cases hexception : privateException url cfg = true
      · obtain ⟨origin, horigin, ip, port, hof⟩ := origin_of_exception hl hcfg hexception
        rcases hcases with ⟨ip', port', hip, hport, rfl⟩ | ⟨-, hpublic⟩
        · refine .inr ⟨origin, horigin, ip, port, hof, ?_⟩
          obtain rfl := Option.some.inj (hip.symm.trans hof.2.1)
          obtain rfl := Option.some.inj (hport.symm.trans hof.2.2)
          rfl
        · exact .inl hpublic
      · refine .inl fun a ha => ?_
        have hall := List.any_eq_false.mp
          (Bool.not_eq_true _ ▸ hchecked (by simpa using hexception)) a ha
        simpa using hall
    · cases h

/-! ## Hops -/

/-- What holds of a fetch with so many redirects left. -/
structure Fetched (origins : List String) (left : Nat) (url : Url)
    (result : List Request × Option String) : Prop where
  bounded : result.1.length ≤ left + 1
  first : ∀ r, result.1.head? = some r → r.url = url
  pinned : ∀ r ∈ result.1, Pinned origins r
  clean : ∀ r ∈ result.1, Clean r.url
  secure : result.1.IsChain fun r next => Secure r.url next.url
  text : ∀ t, result.2 = some t → byteLen t.toList ≤ maxBytes

theorem Fetched.nothing (origins : List String) (left : Nat) (url : Url) :
    Fetched origins left url ([], none) where
  bounded := Nat.zero_le _
  first := nofun
  pinned := nofun
  clean := nofun
  secure := .nil
  text := nofun

/-- One request, with or without a text. -/
theorem Fetched.one {left : Nat} {r : Request} {text : Option String} (hpinned : Pinned origins r)
    (hclean : Clean r.url) (htext : ∀ t, text = some t → byteLen t.toList ≤ maxBytes) :
    Fetched origins left r.url ([r], text) where
  bounded := Nat.succ_le_succ (Nat.zero_le _)
  first r' h := by cases h; rfl
  pinned r' h := by rwa [List.mem_singleton.mp h]
  clean r' h := by rwa [List.mem_singleton.mp h]
  secure := .singleton _
  text := htext

/-- A request in front of those of the redirect. -/
theorem Fetched.hop {left : Nat} {r : Request} {next : Url}
    {result : List Request × Option String} (h : Fetched origins left next result)
    (hpinned : Pinned origins r) (hclean : Clean r.url) (hsecure : Secure r.url next) :
    Fetched origins (left + 1) r.url (r :: result.1, result.2) where
  bounded := Nat.succ_le_succ h.bounded
  first r' h := by cases h; rfl
  pinned r' hr := by
    rcases List.mem_cons.mp hr with rfl | hr
    · exact hpinned
    · exact h.pinned r' hr
  clean r' hr := by
    rcases List.mem_cons.mp hr with rfl | hr
    · exact hclean
    · exact h.clean r' hr
  secure := by
    have hchain := h.secure
    have hfirst := h.first
    cases hrequests : result.1 with
    | nil => exact .singleton _
    | cons r' rest =>
        rw [hrequests] at hchain hfirst
        refine .cons_cons ?_ hchain
        rw [hfirst r' rfl]
        exact hsecure
  text := h.text

theorem fetchFrom_fetched (hl : HostLaws) (hcfg : CookieUrlConfig.new timeout origins = some cfg)
    (net : Network) (left : Nat) :
    ∀ {url : Url}, Clean url → Fetched origins left url (fetchFrom cfg net left url) := by
  induction left with
  | zero =>
      intro url hclean
      rw [fetchFrom]
      cases hrequest : requestOf cfg net (redirects - 0) url with
      | none => exact .nothing origins 0 url
      | some r =>
          obtain ⟨rfl, hpinned⟩ := requestOf_eq_some hl hcfg hrequest
          dsimp only
          cases net.send (redirects - 0) r with
          | none => exact .one hpinned hclean nofun
          | some response =>
              dsimp only
              split
              · exact .one hpinned hclean nofun
              · exact .one hpinned hclean fun t ht => readBody_length ht
  | succ left ih =>
      intro url hclean
      rw [fetchFrom]
      cases hrequest : requestOf cfg net (redirects - (left + 1)) url with
      | none => exact .nothing origins (left + 1) url
      | some r =>
          obtain ⟨rfl, hpinned⟩ := requestOf_eq_some hl hcfg hrequest
          dsimp only
          cases net.send (redirects - (left + 1)) r with
          | none => exact .one hpinned hclean nofun
          | some response =>
              dsimp only
              split
              · cases hnext : response.location.bind (validatedRedirect r.url response.status) with
                | none => exact .one hpinned hclean nofun
                | some next =>
                    obtain ⟨location, -, hnext⟩ := Option.bind_eq_some_iff.mp hnext
                    obtain ⟨hclean', hsecure⟩ := validatedRedirect_eq_some hnext
                    exact (ih hclean').hop hpinned hclean hsecure
              · exact .one hpinned hclean fun t ht => readBody_length ht

end

/-- **A fetch reaches public addresses only**, or an origin that was configured: at most six
requests, each pinned to the addresses it was checked for, without user information, never from
`https` to `http`, and a text of bounded length at most. -/
theorem fetch_public [CookiePlatform] (hl : HostLaws) {timeout : Duration} {origins : List String}
    {cfg : CookieUrlConfig} (hcfg : CookieUrlConfig.new timeout origins = some cfg)
    (net : Network) (source : Str) :
    (fetch source cfg net).1.length ≤ 6 ∧
    (∀ r ∈ (fetch source cfg net).1, Pinned origins r ∧ Clean r.url) ∧
    ((fetch source cfg net).1.IsChain fun r next => Secure r.url next.url) ∧
    ∀ t, (fetch source cfg net).2 = some t → byteLen t.toList ≤ 512 * 1024 := by
  unfold fetch
  cases hsource : safeUrl source with
  | none => exact ⟨Nat.zero_le _, nofun, .nil, nofun⟩
  | some url =>
      have h := fetchFrom_fetched hl hcfg net redirects (clean_of_safe hsource)
      exact ⟨h.bounded, fun r hr => ⟨h.pinned r hr, h.clean r hr⟩, h.secure, h.text⟩

/-! ## An origin in a private network -/

namespace Scenario

def origin : Url := ⟨"http://10.0.0.1:8080"⟩

def exported : Url := ⟨"http://10.0.0.1:8080/c"⟩

/-- Knows an origin and a URL of it. -/
@[reducible] def platform : CookiePlatform where
  parseUrl text := [origin, exported].find? fun url => url.asStr == text
  scheme _ := "http"
  hostStr _ := some "10.0.0.1"
  username _ := ""
  password _ := none
  path url := if url = origin then "/" else "/c"
  query _ := none
  fragment _ := none
  jsonBytes _ := []
  rereadF64 x := some x
  sha256 _ := 0
  host _ := some (.ipv4 0x0A000001)
  portOrKnownDefault _ := some 8080
  join _ _ := none

attribute [local instance] platform

/-- A text with its last colon. -/
theorem split_last_colon {a a' b b' : Str} (hb : ':' ∉ b) (hb' : ':' ∉ b')
    (h : a ++ ':' :: b = a' ++ ':' :: b') : a = a' ∧ b = b' := by
  have hreverse := congrArg List.reverse h
  simp only [List.reverse_append, List.reverse_cons, List.append_assoc, List.singleton_append]
    at hreverse
  have hb : ':' ∉ b.reverse := fun hmem => hb (List.mem_reverse.mp hmem)
  have hb' : ':' ∉ b'.reverse := fun hmem => hb' (List.mem_reverse.mp hmem)
  have hsplit := splitOnce_append hb a.reverse
  rw [hreverse, splitOnce_append hb'] at hsplit
  obtain ⟨hb, ha⟩ := Prod.mk.inj (Option.some.inj hsplit)
  exact ⟨(List.reverse_inj.mp ha).symm, (List.reverse_inj.mp hb).symm⟩

theorem isDigit_of_decimal {n : Nat} {c : Char} (h : c ∈ decimal n) : isDigit c = true :=
  List.all_eq_true.mp (all_digits_repr n) c h

/-- The origin is written with its own address and port only. -/
theorem origin_eq {s : String} {ip : IpAddr} {port : Nat} (hs : s = "http" ∨ s = "https")
    (hproper : ip.Proper) (h : originText s ip port = origin.asStr.toList) :
    s = "http" ∧ ip = .v4 0x0A000001 ∧ port = 8080 := by
  have hcolon : ':' ∉ decimal port := fun hmem => absurd (isDigit_of_decimal hmem) (by decide)
  have hwritten : origin.asStr.toList = "http://10.0.0.1".toList ++ ':' :: "8080".toList := by
    decide +kernel
  rw [originText, hwritten] at h
  obtain ⟨hfront, hport⟩ := split_last_colon hcolon (by decide) h
  have hdigits := digits_repr port
  rw [show port.repr.toList = "8080".toList from hport] at hdigits
  rcases hs with rfl | rfl
  · have hhost : "http".toList ++ "://".toList ++ hostText ip =
        "http".toList ++ "://".toList ++ "10.0.0.1".toList := hfront.trans (by decide +kernel)
    have haddress : hostText ip = "10.0.0.1".toList := List.append_cancel_left hhost
    refine ⟨rfl, ?_, (Option.some.inj hdigits).symm.trans (by decide +kernel)⟩
    cases ip with
    | v4 address =>
        have hread := parseIpv4_show hproper
        rw [show showIpv4 address = "10.0.0.1".toList from haddress] at hread
        exact congrArg IpAddr.v4 ((Option.some.inj hread).symm.trans (by decide +kernel))
    | v6 segments =>
        have hhead := congrArg List.head? haddress
        exact absurd hhead (by simp [hostText])
  · have hfifth := congrArg (fun t => t[4]?) hfront
    exact absurd hfifth (by simp)

theorem hostLaws : HostLaws where
  proper t u ip _ hip := by
    cases hip
    show 0x0A000001 < 2 ^ 32
    decide
  origin s ip port u hs hproper _ _ hu := by
    have hmem := List.mem_of_find?_eq_some hu
    have htext : originText s ip port = u.asStr.toList := by
      have hfound := List.find?_some hu
      rw [beq_iff_eq] at hfound
      rw [hfound, String.toList_ofList]
    simp only [List.mem_cons, List.not_mem_nil, or_false] at hmem
    rcases hmem with rfl | rfl
    · obtain ⟨rfl, rfl, rfl⟩ := origin_eq hs hproper htext
      exact ⟨rfl, rfl, rfl⟩
    · -- a path stands behind the port
      have hlast := congrArg List.getLast? htext
      have hdigit : ∃ c, (decimal port).getLast? = some c ∧ isDigit c = true := by
        have hne : decimal port ≠ [] := by
          intro hnil
          have hdigits := digits_repr port
          rw [show port.repr.toList = [] from hnil] at hdigits
          cases hdigits
        exact ⟨_, List.getLast?_eq_some_getLast hne, isDigit_of_decimal (List.getLast_mem hne)⟩
      obtain ⟨c, hc, hdigit⟩ := hdigit
      have hend : exported.asStr.toList.getLast? = some 'c' := by decide +kernel
      rw [originText, List.getLast?_append, List.getLast?_cons, hc, hend] at hlast
      obtain rfl : c = 'c' := by simpa using hlast
      exact absurd hdigit (by decide)

/-- Answers with one byte. -/
def answering : Network where
  lookup _ _ _ := none
  builds _ _ := true
  send _ _ := some ⟨200, none, none, none, [some [35]]⟩

theorem fetch_public_origin : ∃ cfg,
    CookieUrlConfig.new (.ofSecs 30) [origin.asStr] = some cfg ∧
    (fetch exported.asStr.toList cfg answering).1.map Request.addrs =
      [[⟨.v4 0x0A000001, 8080⟩]] ∧
    (fetch exported.asStr.toList cfg answering).1.length ≤ 6 ∧
    ∀ r ∈ (fetch exported.asStr.toList cfg answering).1, Pinned [origin.asStr] r := by
  have hcfg : CookieUrlConfig.new (.ofSecs 30) [origin.asStr] =
      some ⟨.ofSecs 30, [origin.asStr]⟩ := by
    have hkept : canonicalOrigin origin.asStr = some origin.asStr := by decide +kernel
    rw [CookieUrlConfig.new, if_neg (by decide), List.mapM_cons, hkept]
    rfl
  obtain ⟨hbounded, hpinned, -⟩ :=
    fetch_public hostLaws hcfg answering exported.asStr.toList
  exact ⟨_, hcfg, by decide +kernel, hbounded, fun r hr => (hpinned r hr).1⟩

end Scenario

end YoinkCore.Telegram.CookieUrl
