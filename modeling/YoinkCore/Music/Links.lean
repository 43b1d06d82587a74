import YoinkCore.Inbox.Links
import YoinkCore.Lib.FormUrlencoded
import YoinkCore.Worker.Request

/-!
# Music links

A link to a track is known by its host, its path and the video it asks for. It is kept without
tracking parameters and fragment, in the spelling of the URL parser. Links are found in a text, and
behind it among the hidden ones.
-/

namespace YoinkCore.Music

open Lib
open Text (Str)
open Worker (HttpSourceUrl)

/-- A URL that may have a port. -/
class MusicPlatform extends Inbox.LinkPlatform where
  port : Url → Option Nat

inductive MusicProvider where
  | spotify | deezer | yandex | ytmusic | youtube | soundcloud | appleMusic | tidal | qobuz |
    bandcamp
deriving DecidableEq

inductive MusicError where
  | invalidInput | denied | sourceUnavailable | resourceLimit | cancelled | persistence
  | deliveryUnknown | deliveryRejected | conflict
deriving DecidableEq

/-! ## Providers -/

/-- `valid_video_id` -/
def validVideoId (s : Str) : Bool :=
  Text.byteLen s == 11 && s.all fun c => Text.isAlphanumeric c || c == '_' || c == '-'

/-- A part of the path. -/
def has (path : Str) (part : String) : Bool := (Text.split '/' path).contains part.toList

/-- Whether the parameters ask for a video. -/
def asksVideo (pairs : List (String × String)) : Bool :=
  pairs.any fun (k, v) => k == "v" && validVideoId v.toList

/-- The provider of a host, a path and parameters. -/
def providerOf (host : String) (path : Str) (pairs : List (String × String)) :
    Option MusicProvider :=
  let when (c : Bool) (p : MusicProvider) : Option MusicProvider := if c then some p else none
  let has := has path
  match host with
  | "open.spotify.com" => when (has "track" || has "artist" || has "album") .spotify
  | "spotify.link" | "tospotify.com" => some .spotify
  | "deezer.com" | "www.deezer.com" => when (has "track" || has "album") .deezer
  | "deezer.page.link" | "link.deezer.com" => some .deezer
  | "music.yandex.ru" | "music.yandex.com" | "music.yandex.by" | "music.yandex.kz" =>
      when (has "track") .yandex
  | "music.youtube.com" => when (path == "/watch".toList && asksVideo pairs) .ytmusic
  | "youtube.com" | "www.youtube.com" => when (path == "/watch".toList && asksVideo pairs) .youtube
  | "youtu.be" => when (validVideoId (Text.trimStart '/' path)) .youtube
  | "soundcloud.com" | "www.soundcloud.com" =>
      when (((Text.split '/' path).filter (· ≠ [])).length == 2 && !has "sets") .soundcloud
  | "music.apple.com" | "geo.music.apple.com" => when (has "album" || has "song") .appleMusic
  | "tidal.com" | "www.tidal.com" | "listen.tidal.com" => when (has "track" || has "album") .tidal
  | "qobuz.com" | "www.qobuz.com" => when (has "track" || has "album") .qobuz
  | host => when (".bandcamp.com".toList.isSuffixOf host.toList &&
      (Text.split '.' host.toList).length == 3 && (has "track" || has "album")) .bandcamp

/-! ## Parameters -/

def tracks (key : String) : Bool :=
  "utm_".toList.isPrefixOf key.toList || ["si", "context", "nd"].contains key

/-- The parameters that a link keeps. -/
def keptPairs (pairs : List (String × String)) : List (String × String) :=
  pairs.filter fun p => !tracks p.1

/-! ## Links -/

/-- What may stand behind a link in a text. -/
def punctuation : List Char := ['.', ',', '!', ')', ']', '>']

def trimPunctuation (t : Str) : Str := t.rdropWhile fun c => punctuation.contains c

section

variable [MusicPlatform]

open Platform Inbox.LinkPlatform MusicPlatform

structure MusicLink where
  provider : MusicProvider
  url : HttpSourceUrl

instance : DecidableEq HttpSourceUrl := fun a b =>
  decidable_of_iff (a.url = b.url) ⟨fun h => by cases a; cases b; cases h; rfl, fun h => h ▸ rfl⟩

instance : DecidableEq MusicLink := fun a b =>
  decidable_of_iff (a.provider = b.provider ∧ a.url = b.url)
    ⟨fun h => by cases a; cases b; cases h.1; cases h.2; rfl, fun h => h ▸ ⟨rfl, rfl⟩⟩

/-- The URL with these parameters and without a fragment. -/
def rewritten (url : Url) (pairs : List (String × String)) : Url :=
  withoutFragment (withPairs url pairs)

/-- An `http` or `https` URL without user information and port. -/
def bare (url : Url) : Bool :=
  (scheme url == "http" || scheme url == "https") && (username url).isEmpty &&
    (password url).isNone && (port url).isNone

/-- What is read from the input. -/
def readUrl (input : Str) : Option Url :=
  if decide (8192 < Text.byteLen input) || input.any Text.isControl then none
  else (parseUrl (String.ofList (trimPunctuation input))).filter bare

def parseLink (input : Str) : Except MusicError MusicLink :=
  let link := do
    let url ← readUrl input
    let host ← hostStr url
    let provider ← providerOf host (path url).toList (queryPairs url)
    let source ← (HttpSourceUrl.parse (rewritten url (keptPairs (queryPairs url))).asStr).toOption
    return ⟨provider, source⟩
  match link with
  | some link => .ok link
  | none => .error .invalidInput

/-! ## Texts -/

def ends (c : Char) : Bool :=
  Text.isWhitespace c || ['<', '>', '"', '\'', '(', ')', '[', ']', '\x7b', '\x7d'].contains c

/-- The pieces of a text that look like links, from left to right. No two occurrences of the
letters of the scheme overlap. -/
def spans (text : Str) : List Str :=
  (text.tails.filter fun tail =>
    "https://".toList.isPrefixOf tail || "http://".toList.isPrefixOf tail).map
      (List.takeWhile fun c => !ends c)

def addLink (max : Nat) (found : List MusicLink) (raw : Str) : List MusicLink :=
  match parseLink raw with
  | .ok link => if !found.contains link && decide (found.length < max) then found ++ [link]
    else found
  | .error _ => found

def extractLinks (text : Str) (hidden : List Str) (max : Nat) : List MusicLink :=
  (spans text ++ hidden).foldl (addLink max) []

end

end YoinkCore.Music
