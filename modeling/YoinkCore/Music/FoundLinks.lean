import YoinkCore.Lib.Distinct
import YoinkCore.Music.StableLinks

/-!
# Links that are found

The links of a text and of a list behind it are the first distinct ones among what is parsed. Each
of them is parsed again as itself if and only if it was read from an input that settles.
-/

namespace YoinkCore.Music

open Lib
open Text (Str)
open Worker (HttpSourceUrl)

section

variable [MusicPlatform]

/-- The links of a list of texts, in their order. -/
def parsed (raws : List Str) : List MusicLink := raws.filterMap fun raw => (parseLink raw).toOption

theorem mem_parsed {raws : List Str} {link : MusicLink} :
    link ∈ parsed raws ↔ ∃ raw ∈ raws, parseLink raw = .ok link := by
  rw [parsed, List.mem_filterMap]
  refine exists_congr fun raw => and_congr_right fun _ => ?_
  cases parseLink raw with
  | error e => exact ⟨nofun, nofun⟩
  | ok link' => exact ⟨fun h => by cases h; rfl, fun h => by cases h; rfl⟩

theorem foldl_addLink (max : Nat) (raws : List Str) (found : List MusicLink) :
    raws.foldl (addLink max) found = (parsed raws).foldl (addNew max) found := by
  rw [parsed, List.foldl_filterMap]
  refine congrArg (fun step => List.foldl step found raws) (funext₂ fun found raw => ?_)
  rw [addLink]
  cases parseLink raw with
  | error e => rfl
  | ok link => rfl

/-- The first distinct links, in the order in which they occur. -/
theorem extractLinks_eq (text : Str) (hidden : List Str) (max : Nat) :
    extractLinks text hidden max = (parsed (spans text ++ hidden)).eraseDups.take max := by
  rw [extractLinks, foldl_addLink, foldl_addNew, List.nil_append, List.length_nil, Nat.sub_zero]
  refine congrArg (fun l => (List.eraseDups l).take max) (List.filter_eq_self.mpr fun _ _ => rfl)

theorem parseLink_of_mem {text : Str} {hidden : List Str} {max : Nat} {link : MusicLink}
    (h : link ∈ extractLinks text hidden max) :
    ∃ raw ∈ spans text ++ hidden, parseLink raw = .ok link := by
  rw [extractLinks_eq] at h
  exact mem_parsed.mp (List.mem_eraseDups.mp (List.mem_of_mem_take h))

end

/-! ## Links under parsing -/

/-- **A link is parsed again as itself** if and only if its input settles; what is found in texts
are the first distinct links, at most as many as asked for, and each of them is parsed again as
itself if and only if the input it is read from settles. -/
theorem links_stable_iff [MusicPlatform] (hl : UrlLaws) :
    (∀ input link, parseLink input = .ok link →
      (parseLink link.url.url.asStr.toList = .ok link ↔ Settled input)) ∧
    ∀ text hidden max,
      extractLinks text hidden max = (parsed (spans text ++ hidden)).eraseDups.take max ∧
      (extractLinks text hidden max).Nodup ∧ (extractLinks text hidden max).length ≤ max ∧
      ∀ link ∈ extractLinks text hidden max,
        (∃ raw ∈ spans text ++ hidden, parseLink raw = .ok link) ∧
        ∀ raw, parseLink raw = .ok link →
          (parseLink link.url.url.asStr.toList = .ok link ↔ Settled raw) := by
  refine ⟨fun input link h => again_iff hl h, fun text hidden max => ⟨extractLinks_eq _ _ _, ?_⟩⟩
  refine ⟨?_, ?_, fun link hlink => ⟨parseLink_of_mem hlink, fun raw h => again_iff hl h⟩⟩
  · rw [extractLinks_eq]
    exact (nodup_eraseDups _).sublist (List.take_sublist _ _)
  · rw [extractLinks_eq]
    exact List.length_take_le _ _

/-! ## A link to a path that ends in a dot -/

namespace Scenario

def shared : Url := ⟨"https://open.spotify.com/track/abc.?si=1"⟩

def dotted : Url := ⟨"https://open.spotify.com/track/abc."⟩

def plain : Url := ⟨"https://open.spotify.com/track/abc"⟩

/-- Knows three URLs of one host. -/
@[reducible] def platform : MusicPlatform where
  parseUrl text := [shared, dotted, plain].find? fun url => url.asStr == text
  scheme _ := "https"
  hostStr _ := some "open.spotify.com"
  username _ := ""
  password _ := none
  path url := if url = plain then "/track/abc" else "/track/abc."
  query url := if url = shared then some "si=1" else none
  fragment _ := none
  jsonBytes _ := []
  rereadF64 x := some x
  sha256 _ := 0
  lowerChar c := [Text.toLower c]
  withoutFragment url := url
  queryPairs url := if url = shared then [("si", "1")] else []
  withPairs url _ := if url = shared then dotted else url
  port _ := none

attribute [local instance] platform

theorem known_of_parse {t : String} {url : Url} (h : Platform.parseUrl t = some url) :
    (url = shared ∨ url = dotted ∨ url = plain) ∧ url.asStr = t := by
  have hmem := List.mem_of_find?_eq_some h
  have htext := List.find?_some h
  simp only [List.mem_cons, List.not_mem_nil, or_false] at hmem
  exact ⟨hmem, by simpa using htext⟩

theorem pairs_of_written {url : Url} (hurl : url = shared ∨ url = dotted ∨ url = plain)
    {pairs : List (String × String)} (h : Written url pairs) : pairs = [] := by
  have hkept : keptPairs (Inbox.LinkPlatform.queryPairs url) = [] := by
    rcases hurl with rfl | rfl | rfl <;> decide +kernel
  rcases h with h | h
  · rw [h, hkept]
  · rw [h, hkept]
    rfl

theorem urlLaws : UrlLaws where
  slash t url h _ := by
    rcases (known_of_parse h).1 with rfl | rfl | rfl
    · exact ⟨"track/abc.".toList, by decide +kernel⟩
    · exact ⟨"track/abc.".toList, by decide +kernel⟩
    · exact ⟨"track/abc".toList, by decide +kernel⟩
  printed t url h := by
    rcases (known_of_parse h).1 with rfl | rfl | rfl <;> decide +kernel
  text t url host pairs h _ hhost hw := by
    have hurl := (known_of_parse h).1
    rw [pairs_of_written hurl hw]
    cases hhost
    rcases hurl with rfl | rfl | rfl <;> decide +kernel
  reads t url pairs h _ hw := by
    have hurl := (known_of_parse h).1
    rw [pairs_of_written hurl hw]
    rcases hurl with rfl | rfl | rfl <;> decide +kernel
  parts t url pairs h _ hw := by
    have hurl := (known_of_parse h).1
    rw [pairs_of_written hurl hw]
    rcases hurl with rfl | rfl | rfl <;> decide +kernel
  pairs t url pairs h _ hw := by
    have hurl := (known_of_parse h).1
    rw [pairs_of_written hurl hw]
    rcases hurl with rfl | rfl | rfl <;> decide +kernel
  cut t url host p rest v h _ hhost hpath hv := by
    obtain ⟨hknown, htext⟩ := known_of_parse hv
    cases hhost
    have hlist := congrArg String.toList htext
    rw [String.toList_ofList] at hlist
    have hlong : p.length + rest.length + 1 ≤ 11 := by
      have hlength := congrArg List.length hpath
      rw [List.cons_append, List.length_cons, List.length_append] at hlength
      rw [← hlength]
      rcases (known_of_parse h).1 with rfl | rfl | rfl <;> decide +kernel
    have hhead : ((Platform.scheme url).toList ++ "://".toList ++
        "open.spotify.com".toList).length = 24 := by
      show ("https".toList ++ "://".toList ++ "open.spotify.com".toList).length = 24
      decide +kernel
    have hp : v.asStr.toList.length = p.length + 25 := by
      rw [hlist, List.length_append, hhead, List.length_cons]
      omega
    rcases hknown with rfl | rfl | rfl
    · have h40 : shared.asStr.toList.length = 40 := by decide +kernel
      omega
    · have h35 : dotted.asStr.toList.length = 35 := by decide +kernel
      refine ⟨rfl, rfl, by decide +kernel, ?_⟩
      show 11 ≤ p.length + 1
      omega
    · have h34 : plain.asStr.toList.length = 34 := by decide +kernel
      refine ⟨rfl, rfl, by decide +kernel, ?_⟩
      show 10 ≤ p.length + 1
      omega

theorem url_of_parseLink (input : Str) (url : Url)
    (h : (parseLink input).toOption.map (fun link => link.url.url) = some url) :
    ∃ link, parseLink input = .ok link ∧ link.url.url = url := by
  cases hparse : parseLink input with
  | error e =>
      rw [hparse] at h
      cases h
  | ok link =>
      rw [hparse] at h
      exact ⟨link, rfl, Option.some.inj h⟩

theorem links_stable_track : ∃ link, parseLink (dotted.asStr ++ "..").toList = .ok link ∧
    link.url.url = plain ∧
    (parseLink link.url.url.asStr.toList = .ok link ↔
      Settled (dotted.asStr ++ "..").toList) ∧
    (extractLinks "Listen https://open.spotify.com/track/abc.".toList [] 3).Nodup := by
  obtain ⟨link, hparse, hurl⟩ := url_of_parseLink (dotted.asStr ++ "..").toList plain
    (by decide +kernel)
  obtain ⟨hagain, hfound⟩ := links_stable_iff urlLaws
  exact ⟨link, hparse, hurl, hagain _ link hparse, (hfound _ [] 3).2.1⟩

/-- The dot stands before the query at first, and then at the end. -/
theorem link_changes : ∃ link again, parseLink shared.asStr.toList = .ok link ∧
    link.url.url = dotted ∧ parseLink link.url.url.asStr.toList = .ok again ∧
    again.url.url = plain ∧ link ≠ again ∧ extractLinks shared.asStr.toList [] 1 = [link] := by
  obtain ⟨link, hparse, hurl⟩ := url_of_parseLink shared.asStr.toList dotted
    (by decide +kernel)
  obtain ⟨again, hparse', hurl'⟩ := url_of_parseLink dotted.asStr.toList plain
    (by decide +kernel)
  have hspans : spans shared.asStr.toList = [shared.asStr.toList] := by decide +kernel
  refine ⟨link, again, hparse, hurl, hurl ▸ hparse', hurl', ?_, ?_⟩
  · rintro rfl
    rw [hurl] at hurl'
    exact absurd hurl' (by decide)
  · rw [extractLinks_eq, hspans, List.append_nil, parsed, List.filterMap_cons, hparse]
    rfl

end Scenario

end YoinkCore.Music
