import YoinkCore.Music.Links

/-!
# Links that are read again

A link is kept as a URL and read again as a text, from which punctuation at the end is taken away.
So it stays the same unless its URL itself ends in punctuation, or is longer than an input may be.
-/

namespace YoinkCore.Music

open Lib
open Text (Str)
open Worker (HttpSourceUrl)

/-! ## Punctuation -/

theorem trimPunctuation_append (s t : Str) : trimPunctuation (s ++ t) =
    if trimPunctuation t = [] then trimPunctuation s else s ++ trimPunctuation t := by
  have happend : (t.reverse ++ s.reverse).dropWhile (fun c => punctuation.contains c) = _ :=
    List.dropWhile_append
  rw [trimPunctuation, List.rdropWhile, List.reverse_append, happend, trimPunctuation,
    List.rdropWhile, trimPunctuation, List.rdropWhile]
  by_cases h : t.reverse.dropWhile (fun c => punctuation.contains c) = []
  · rw [h]
    rfl
  · have hne : (t.reverse.dropWhile fun c => punctuation.contains c).isEmpty = false := by
      simpa using h
    rw [hne, if_neg (by simp), if_neg (by simpa using h), List.reverse_append, List.reverse_reverse]

theorem trimPunctuation_of_last {t : Str} (h : ∀ c, t.getLast? = some c → c ∉ punctuation) :
    trimPunctuation t = t := by
  rw [trimPunctuation, List.rdropWhile_eq_self_iff]
  intro hne hc
  exact h _ (List.getLast?_eq_some_getLast hne) (List.contains_iff_mem.mp hc)

theorem trimPunctuation_isPrefix (t : Str) : trimPunctuation t <+: t := List.rdropWhile_prefix _ t

/-- The text stays if it is long as before. -/
theorem last_of_trimPunctuation {t : Str} (h : trimPunctuation t = t) {c : Char}
    (hc : t.getLast? = some c) : c ∉ punctuation := by
  obtain ⟨front, rfl⟩ := List.getLast?_eq_some_iff.mp hc
  intro hmem
  rw [trimPunctuation, List.rdropWhile_concat_pos _ _ _ (List.contains_iff_mem.mpr hmem)] at h
  have hlength : (trimPunctuation front).length = (front ++ [c]).length := congrArg List.length h
  have hle := (trimPunctuation_isPrefix front).length_le
  rw [List.length_append, List.length_singleton] at hlength
  omega

theorem trim_slash (t : Str) : trimPunctuation ('/' :: t) = '/' :: trimPunctuation t := by
  have happend := trimPunctuation_append ['/'] t
  rw [List.singleton_append] at happend
  rw [happend]
  split
  · rename_i hnil
    rw [hnil]
    rfl
  · rfl

theorem trimPunctuation_dots (n : Nat) : trimPunctuation (List.replicate n '.') = [] := by
  rw [trimPunctuation, List.rdropWhile_eq_nil_iff]
  intro c hc
  rw [List.eq_of_mem_replicate hc]
  rfl

/-- A text is the part before its last dots, and these. -/
theorem exists_dots (t : Str) : ∃ n, t = Text.trimEnd '.' t ++ List.replicate n '.' := by
  induction t using List.reverseRecOn with
  | nil => exact ⟨0, rfl⟩
  | append_singleton t c ih =>
      by_cases hc : c = '.'
      · obtain ⟨n, hn⟩ := ih
        refine ⟨n + 1, ?_⟩
        have htrim : Text.trimEnd '.' (t ++ [c]) = Text.trimEnd '.' t :=
          List.rdropWhile_concat_pos _ _ _ (decide_eq_true hc)
        rw [htrim, List.replicate_succ', ← List.append_assoc, ← hn, hc]
      · refine ⟨0, ?_⟩
        have htrim : Text.trimEnd '.' (t ++ [c]) = t ++ [c] :=
          List.rdropWhile_concat_neg _ _ _ (by simpa using hc)
        rw [htrim, List.replicate_zero, List.append_nil]

theorem last_trimEnd (t : Str) : (Text.trimEnd '.' t).getLast? ≠ some '.' := by
  intro h
  have hne : Text.trimEnd '.' t ≠ [] := by
    intro hnil
    rw [hnil] at h
    cases h
  have hlast := List.rdropWhile_last_not (fun c : Char => decide (c = '.')) t hne
  rw [List.getLast?_eq_some_getLast hne] at h
  exact hlast (decide_eq_true (Option.some.inj h))

/-! ## Parameters -/

/-- The dots at the end of the last value are taken away. -/
def trimLast : List (String × String) → List (String × String)
  | [] => []
  | [(k, v)] => [(k, String.ofList (Text.trimEnd '.' v.toList))]
  | p :: q :: rest => p :: trimLast (q :: rest)

theorem trimLast_concat (front : List (String × String)) (k v : String) :
    trimLast (front ++ [(k, v)]) =
      front ++ [(k, String.ofList (Text.trimEnd '.' v.toList))] := by
  induction front with
  | nil => rfl
  | cons p front ih =>
      cases front with
      | nil => rfl
      | cons q front =>
          show p :: trimLast (q :: front ++ [(k, v)]) = _
          rw [ih]
          rfl

variable {pairs : List (String × String)}

theorem keptPairs_of_kept (h : ∀ p ∈ pairs, tracks p.1 = false) : keptPairs pairs = pairs := by
  refine List.filter_eq_self.mpr fun p hp => ?_
  rw [h p hp]
  rfl

theorem kept_of_mem {p : String × String} (h : p ∈ keptPairs pairs) : tracks p.1 = false := by
  simpa using (List.mem_filter.mp h).2

theorem keptPairs_keptPairs (pairs : List (String × String)) :
    keptPairs (keptPairs pairs) = keptPairs pairs := keptPairs_of_kept fun _ h => kept_of_mem h

theorem keptPairs_trimLast (pairs : List (String × String)) :
    keptPairs (trimLast (keptPairs pairs)) = trimLast (keptPairs pairs) := by
  refine keptPairs_of_kept fun p hp => ?_
  rcases List.eq_nil_or_concat' (keptPairs pairs) with hnil | ⟨front, ⟨k, v⟩, hconcat⟩
  · rw [hnil] at hp
    cases hp
  · have hkept : ∀ q ∈ front ++ [(k, v)], tracks q.1 = false := fun q hq =>
      kept_of_mem (hconcat ▸ hq)
    rw [hconcat, trimLast_concat] at hp
    rcases List.mem_append.mp hp with hp | hp
    · exact hkept p (List.mem_append_left _ hp)
    · rw [List.mem_singleton.mp hp]
      exact hkept (k, v) (List.mem_append_right _ List.mem_cons_self)

theorem asksVideo_keptPairs (pairs : List (String × String)) :
    asksVideo (keptPairs pairs) = asksVideo pairs := by
  rw [asksVideo, asksVideo, keptPairs, List.any_filter]
  refine congrArg (List.any pairs) (funext fun p => ?_)
  by_cases hv : p.1 = "v"
  · have htracks : tracks p.1 = false := by
      rw [hv]
      decide +kernel
    rw [htracks]
    rfl
  · have hne : (p.1 == "v") = false := by simpa using hv
    simp [hne]

/-- Of the parameters only the video counts. -/
theorem providerOf_congr {pairs' : List (String × String)} (host : String) (path : Str)
    (h : asksVideo pairs = asksVideo pairs') :
    providerOf host path pairs = providerOf host path pairs' := by
  unfold providerOf
  rw [h]

/-! ## What is read of a rewritten URL -/

section

variable [MusicPlatform]

open Platform Inbox.LinkPlatform MusicPlatform

/-- The parameters that are written over those of a URL: the kept ones, also without the dots they
end in. -/
def Written (url : Url) (pairs : List (String × String)) : Prop :=
  pairs = keptPairs (queryPairs url) ∨ pairs = trimLast (keptPairs (queryPairs url))

/-- The text of a URL that is bare and has no fragment. -/
def bareText (url : Url) (host : String) (pairs : List (String × String)) : Str :=
  (scheme url).toList ++ "://".toList ++ host.toList ++ (path url).toList ++
    if pairs = [] then []
    else '?' :: FormUrlencoded.encodePairs (pairs.map fun p => (p.1.toList, p.2.toList))

/-- How a URL is parsed and written: what was written is read back, the parameters are form encoded
behind the path, and a path that is read without its end is not made longer. -/
structure UrlLaws : Prop where
  /-- The path of a URL with a host begins with a slash. -/
  slash : ∀ t url, parseUrl t = some url → bare url = true →
    ∃ rest, (path url).toList = '/' :: rest
  /-- No control character is written. -/
  printed : ∀ t url, parseUrl t = some url → url.asStr.toList.any Text.isControl = false
  text : ∀ t url host pairs, parseUrl t = some url → bare url = true → hostStr url = some host →
    Written url pairs → (rewritten url pairs).asStr.toList = bareText url host pairs
  reads : ∀ t url pairs, parseUrl t = some url → bare url = true → Written url pairs →
    parseUrl (rewritten url pairs).asStr = some (rewritten url pairs)
  parts : ∀ t url pairs, parseUrl t = some url → bare url = true → Written url pairs →
    bare (rewritten url pairs) = true ∧ scheme (rewritten url pairs) = scheme url ∧
      hostStr (rewritten url pairs) = hostStr url ∧ path (rewritten url pairs) = path url
  pairs : ∀ t url pairs, parseUrl t = some url → bare url = true → Written url pairs →
    queryPairs (rewritten url pairs) = pairs
  cut : ∀ t url host p rest v, parseUrl t = some url → bare url = true → hostStr url = some host →
    (path url).toList = '/' :: p ++ rest →
    parseUrl (String.ofList ((scheme url).toList ++ "://".toList ++ host.toList ++ '/' :: p)) =
      some v →
    scheme v = scheme url ∧ hostStr v = hostStr url ∧ queryPairs v = [] ∧
      (path v).toList.length ≤ p.length + 1

/-! ## Parsing -/

theorem httpSource_parse {t : String} {source : HttpSourceUrl} :
    HttpSourceUrl.parse t = .ok source ↔ parseUrl t = some source.url := by
  unfold HttpSourceUrl.parse
  constructor
  · intro h
    split at h
    · cases h
    · rename_i url hurl
      split at h
      · cases h
        exact hurl
      · cases h
  · intro h
    split
    · rename_i hnone
      rw [h] at hnone
      cases hnone
    · rename_i url hurl
      rw [h] at hurl
      cases hurl
      rw [dif_pos source.http]

variable {link : MusicLink} {url : Url}

theorem parseLink_eq_ok {input : Str} : parseLink input = .ok link ↔
    ∃ url host, readUrl input = some url ∧ hostStr url = some host ∧
      providerOf host (path url).toList (queryPairs url) = some link.provider ∧
      parseUrl (rewritten url (keptPairs (queryPairs url))).asStr = some link.url.url := by
  have hlink : parseLink input = .ok link ↔ (do
      let url ← readUrl input
      let host ← hostStr url
      let provider ← providerOf host (path url).toList (queryPairs url)
      let source ← (HttpSourceUrl.parse (rewritten url (keptPairs (queryPairs url))).asStr).toOption
      return (⟨provider, source⟩ : MusicLink)) = some link := by
    unfold parseLink
    dsimp only
    split
    · rename_i link' h
      rw [h]
      simp
    · rename_i h
      rw [h]
      simp
  rw [hlink]
  simp only [Option.bind_eq_bind, Option.bind_eq_some_iff, ← httpSource_parse]
  constructor
  · rintro ⟨url, hurl, host, hhost, provider, hprovider, source, hsource, hreturn⟩
    cases hreturn
    refine ⟨url, host, hurl, hhost, hprovider, ?_⟩
    cases hparse : HttpSourceUrl.parse (rewritten url (keptPairs (queryPairs url))).asStr with
    | error e =>
        rw [hparse] at hsource
        cases hsource
    | ok source' =>
        rw [hparse] at hsource
        cases hsource
        rfl
  · rintro ⟨url, host, hurl, hhost, hprovider, hparse⟩
    exact ⟨url, hurl, host, hhost, link.provider, hprovider, link.url, by rw [hparse]; rfl, rfl⟩

theorem readUrl_eq_some {input : Str} : readUrl input = some url ↔
    Text.byteLen input ≤ 8192 ∧ input.any Text.isControl = false ∧
      parseUrl (String.ofList (trimPunctuation input)) = some url ∧ bare url = true := by
  unfold readUrl
  by_cases h : (decide (8192 < Text.byteLen input) || input.any Text.isControl) = true
  · rw [if_pos h]
    rw [Bool.or_eq_true, decide_eq_true_eq] at h
    constructor
    · exact nofun
    · rintro ⟨hlength, hcontrol, -⟩
      rcases h with h | h
      · omega
      · rw [hcontrol] at h
        cases h
  · rw [if_neg h, Option.filter_eq_some_iff]
    rw [Bool.or_eq_true, decide_eq_true_eq, not_or, Nat.not_lt, Bool.not_eq_true] at h
    exact ⟨fun hurl => ⟨h.1, h.2, hurl⟩, fun hurl => hurl.2.2⟩

/-! ## Texts without punctuation -/

omit [MusicPlatform] in
theorem not_punctuation {c : Char} (h : FormUrlencoded.plain c = true ∨ c = '=') (hdot : c ≠ '.') :
    c ∉ punctuation := by
  intro hmem
  simp only [punctuation, List.mem_cons, List.not_mem_nil, or_false] at hmem
  rcases hmem with rfl | rfl | rfl | rfl | rfl | rfl
  · exact hdot rfl
  all_goals exact absurd h (by decide)

def baseText (url : Url) (host : String) : Str :=
  (scheme url).toList ++ "://".toList ++ host.toList

theorem bareText_nil (url : Url) (host : String) :
    bareText url host [] = baseText url host ++ (path url).toList := by
  rw [bareText, if_pos rfl, List.append_nil, baseText]

theorem bareText_concat (url : Url) (host : String) (front : List (String × String)) (k : String) :
    ∃ text, ∀ v, bareText url host (front ++ [(k, v)]) =
      text ++ FormUrlencoded.encodePair (k.toList, v.toList) := by
  obtain ⟨text, htext⟩ := FormUrlencoded.encodePairs_concat
    (front.map fun p => (p.1.toList, p.2.toList))
  refine ⟨baseText url host ++ (path url).toList ++ '?' :: text, fun v => ?_⟩
  rw [bareText, if_neg (by simp), List.map_append, List.map_singleton, htext, baseText]
  simp only [List.append_assoc, List.cons_append]

/-- Of a URL with parameters the dots of the last value go. -/
theorem trim_bareText {host : String} (hne : pairs ≠ []) :
    trimPunctuation (bareText url host pairs) = bareText url host (trimLast pairs) := by
  rcases List.eq_nil_or_concat' pairs with hnil | ⟨front, ⟨k, v⟩, rfl⟩
  · exact absurd hnil hne
  · obtain ⟨text, htext⟩ := bareText_concat url host front k
    obtain ⟨n, hn⟩ := exists_dots v.toList
    obtain ⟨c, hc, hplain, hdot⟩ := FormUrlencoded.last_encodePair (k := k.toList)
      (last_trimEnd v.toList)
    have hstays : trimPunctuation (text ++
        FormUrlencoded.encodePair (k.toList, Text.trimEnd '.' v.toList)) =
        text ++ FormUrlencoded.encodePair (k.toList, Text.trimEnd '.' v.toList) := by
      refine trimPunctuation_of_last fun d hd => ?_
      rw [List.getLast?_append, hc] at hd
      cases hd
      exact not_punctuation hplain hdot
    rw [trimLast_concat, htext, htext, String.toList_ofList]
    conv_lhs => rw [hn]
    rw [FormUrlencoded.encodePair_append, ← List.append_assoc, trimPunctuation_append,
      trimPunctuation_dots, if_pos rfl, hstays]

/-- Whether a link is read again as it is: it is not too long, and neither its path nor its last
value ends in punctuation. -/
def Settles (url : Url) (host : String) : Prop :=
  Text.byteLen (bareText url host (keptPairs (queryPairs url))) ≤ 8192 ∧
    match (keptPairs (queryPairs url)).getLast? with
    | none => ∀ c, (path url).toList.getLast? = some c → c ∉ punctuation
    | some (_, v) => v.toList.getLast? ≠ some '.'

def Settled (input : Str) : Prop :=
  ∀ url host, readUrl input = some url → hostStr url = some host → Settles url host

/-- The text of the link is not trimmed if it ends as it should. -/
theorem trim_eq_iff {host : String} {rest : Str} (hslash : (path url).toList = '/' :: rest)
    (pairs : List (String × String)) :
    trimPunctuation (bareText url host pairs) = bareText url host pairs ↔
      match pairs.getLast? with
      | none => ∀ c, (path url).toList.getLast? = some c → c ∉ punctuation
      | some (_, v) => v.toList.getLast? ≠ some '.' := by
  rcases List.eq_nil_or_concat' pairs with rfl | ⟨front, ⟨k, v⟩, rfl⟩
  · rw [bareText_nil, List.getLast?_nil]
    have hlast :
        (baseText url host ++ (path url).toList).getLast? = (path url).toList.getLast? := by
      rw [List.getLast?_append, hslash, List.getLast?_cons, Option.some_or]
    constructor
    · intro h c hc
      exact last_of_trimPunctuation h (hlast.trans hc)
    · intro h
      exact trimPunctuation_of_last fun c hc => h c (hlast ▸ hc)
  · rw [trim_bareText (by simp), trimLast_concat, List.getLast?_concat]
    obtain ⟨text, htext⟩ := bareText_concat url host front k
    rw [htext, htext, String.toList_ofList]
    constructor
    · intro h hdot
      obtain ⟨n, hn⟩ := exists_dots v.toList
      have hpair : FormUrlencoded.encodePair (k.toList, v.toList) =
          FormUrlencoded.encodePair (k.toList, Text.trimEnd '.' v.toList) ++
            List.replicate n '.' := by
        rw [← FormUrlencoded.encodePair_append, ← hn]
      have hlength := congrArg List.length (List.append_cancel_left h)
      rw [hpair, List.length_append, List.length_replicate] at hlength
      obtain rfl : n = 0 := by omega
      rw [List.replicate_zero, List.append_nil] at hn
      exact last_trimEnd v.toList (hn ▸ hdot)
    · intro h
      rw [Text.trimEnd_of_getLast h]

/-! ## Links that are read again -/

/-- What an accepted input was read as. -/
theorem parseLink_url (hl : UrlLaws) {input : Str} (h : parseLink input = .ok link) :
    ∃ t url host, parseUrl t = some url ∧
      readUrl input = some url ∧ bare url = true ∧ hostStr url = some host ∧
      providerOf host (path url).toList (queryPairs url) = some link.provider ∧
      link.url.url = rewritten url (keptPairs (queryPairs url)) := by
  obtain ⟨url, host, hread, hhost, hprovider, hsource⟩ := parseLink_eq_ok.mp h
  obtain ⟨-, -, hparse, hbare⟩ := readUrl_eq_some.mp hread
  rw [hl.reads _ url _ hparse hbare (.inl rfl)] at hsource
  exact ⟨_, url, host, hparse, hread, hbare, hhost, hprovider, (Option.some.inj hsource).symm⟩

/-- A rewritten URL that is read as it is stays the same. -/
theorem parseLink_again (hl : UrlLaws) {t : String} {host : String}
    (hparse : parseUrl t = some url) (hbare : bare url = true) (hhost : hostStr url = some host)
    (hprovider : providerOf host (path url).toList (queryPairs url) = some link.provider)
    (hlink : link.url.url = rewritten url (keptPairs (queryPairs url)))
    (hlength : Text.byteLen (bareText url host (keptPairs (queryPairs url))) ≤ 8192)
    (htrim : trimPunctuation (bareText url host (keptPairs (queryPairs url))) =
      bareText url host (keptPairs (queryPairs url))) :
    parseLink link.url.url.asStr.toList = .ok link := by
  have htext := hl.text t url host _ hparse hbare hhost (.inl rfl)
  have hreads := hl.reads t url _ hparse hbare (.inl rfl)
  obtain ⟨hbare', hscheme, hhost', hpath⟩ := hl.parts t url _ hparse hbare (.inl rfl)
  have hpairs := hl.pairs t url _ hparse hbare (.inl rfl)
  rw [← hlink] at htext hreads hbare' hscheme hhost' hpath hpairs
  have hkept : keptPairs (queryPairs link.url.url) = keptPairs (queryPairs url) := by
    rw [hpairs, keptPairs_keptPairs]
  refine parseLink_eq_ok.mpr ⟨link.url.url, host, ?_, hhost'.trans hhost, ?_, ?_⟩
  · refine readUrl_eq_some.mpr ⟨by rwa [htext], hl.printed _ _ hreads, ?_, hbare'⟩
    rw [htext, htrim, ← htext, String.ofList_toList]
    exact hreads
  · rw [hpath, ← hprovider]
    exact providerOf_congr _ _ (by rw [hpairs, asksVideo_keptPairs])
  · have htext' := hl.text _ link.url.url host _ hreads hbare' (hhost'.trans hhost) (.inl rfl)
    have hsame : (rewritten link.url.url (keptPairs (queryPairs link.url.url))).asStr =
        link.url.url.asStr := by
      refine String.toList_injective ?_
      rw [htext', htext, bareText, bareText, hscheme, hpath, hkept]
    rw [hsame]
    exact hreads

/-- A text that loses punctuation is not read as the same link. -/
theorem parseLink_trimmed (hl : UrlLaws) {t : String} {host : String}
    (hparse : parseUrl t = some url) (hbare : bare url = true) (hhost : hostStr url = some host)
    (hlink : link.url.url = rewritten url (keptPairs (queryPairs url)))
    (htrim : trimPunctuation (bareText url host (keptPairs (queryPairs url))) ≠
      bareText url host (keptPairs (queryPairs url))) :
    parseLink link.url.url.asStr.toList ≠ .ok link := by
  intro hagain
  have htext := hl.text t url host _ hparse hbare hhost (.inl rfl)
  rw [← hlink] at htext
  obtain ⟨_, v, host', -, hread, hbarev, hhostv, -, hlinkv⟩ := parseLink_url hl hagain
  obtain ⟨-, -, hparsev, -⟩ := readUrl_eq_some.mp hread
  have htextv := hl.text _ v host' _ hparsev hbarev hhostv (.inl rfl)
  rw [← hlinkv, htext] at htextv
  rw [htext] at hparsev
  obtain ⟨rest, hslash⟩ := hl.slash t url hparse hbare
  by_cases hnil : keptPairs (queryPairs url) = []
  · -- the path is cut, and what is read of it is shorter
    have hcut := trim_slash rest
    obtain ⟨r, hr⟩ := trimPunctuation_isPrefix rest
    have hpath : (path url).toList = '/' :: trimPunctuation rest ++ r := by
      rw [hslash, List.cons_append, hr]
    rw [hnil, bareText_nil, hslash, trimPunctuation_append, hcut, if_neg (by simp)] at hparsev htrim
    obtain ⟨hscheme, hhost', hpairs, hlength⟩ :=
      hl.cut t url host (trimPunctuation rest) r v hparse hbare hhost hpath hparsev
    obtain rfl : host' = host := Option.some.inj (hhostv.symm.trans (hhost'.trans hhost))
    have hempty : keptPairs (queryPairs v) = [] := by
      rw [hpairs]
      rfl
    rw [hnil, hempty, bareText_nil, bareText_nil, baseText, baseText, hscheme,
      List.append_cancel_left_eq, hslash] at htextv
    have hsame := congrArg List.length htextv
    rw [List.length_cons] at hsame
    have hle := (trimPunctuation_isPrefix rest).length_le
    have heq : trimPunctuation rest = rest :=
      (trimPunctuation_isPrefix rest).eq_of_length (by omega)
    exact htrim (by rw [heq])
  · -- the last value is cut
    rw [trim_bareText hnil, ← hl.text t url host _ hparse hbare hhost (.inr rfl),
      String.ofList_toList, hl.reads t url _ hparse hbare (.inr rfl)] at hparsev
    obtain rfl := Option.some.inj hparsev
    obtain ⟨-, hscheme, hhost', hpath⟩ := hl.parts t url _ hparse hbare (.inr rfl)
    have hpairs := hl.pairs t url _ hparse hbare (.inr rfl)
    obtain rfl : host' = host := Option.some.inj (hhostv.symm.trans (hhost'.trans hhost))
    refine htrim ?_
    rw [trim_bareText hnil, htextv, hpairs, keptPairs_trimLast, bareText, bareText, hscheme, hpath]

theorem again_iff (hl : UrlLaws) {input : Str} (h : parseLink input = .ok link) :
    parseLink link.url.url.asStr.toList = .ok link ↔ Settled input := by
  obtain ⟨t, url, host, hparse, hread, hbare, hhost, hprovider, hlink⟩ := parseLink_url hl h
  obtain ⟨rest, hslash⟩ := hl.slash t url hparse hbare
  have hsettled : Settled input ↔ Settles url host := by
    constructor
    · exact fun hs => hs url host hread hhost
    · intro hs url' host' hread' hhost'
      obtain rfl := Option.some.inj (hread.symm.trans hread')
      obtain rfl := Option.some.inj (hhost.symm.trans hhost')
      exact hs
  rw [hsettled, Settles, ← trim_eq_iff hslash]
  constructor
  · intro hagain
    refine ⟨?_, not_ne_iff.mp fun htrim =>
      parseLink_trimmed hl hparse hbare hhost hlink htrim hagain⟩
    obtain ⟨_, _, _, -, hread', -⟩ := parseLink_url hl hagain
    have hlength := (readUrl_eq_some.mp hread').1
    rwa [hlink, hl.text t url host _ hparse hbare hhost (.inl rfl)] at hlength
  · rintro ⟨hlength, htrim⟩
    exact parseLink_again hl hparse hbare hhost hprovider hlink hlength htrim

end

end YoinkCore.Music
