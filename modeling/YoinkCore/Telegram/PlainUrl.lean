import YoinkCore.Lib.Words
import YoinkCore.Music.Links
import YoinkCore.Telegram.Entities
import YoinkCore.Telegram.MediaTime

/-!
# Plain URLs

A message that shows one URL asks for it, with a clip if times follow. A URL may bring the start of
the clip itself. In a group the message has to come through the bot or to answer it.
-/

namespace YoinkCore.Telegram.PlainUrl

open Lib Lib.Text Domain MediaTime
open Music (MusicPlatform)

/-! ## Messages -/

inductive MessageEntityKind where
  | url | botCommand | other
deriving DecidableEq

structure MessageEntity where
  kind : MessageEntityKind
  offset : Nat
  length : Nat
deriving DecidableEq

structure User where
  id : Nat
  isBot : Bool
deriving DecidableEq

structure Message where
  text : Option Str
  entities : Option (List MessageEntity)
  isPrivate : Bool
  viaBot : Option User
  /-- The message that is answered, and its sender. -/
  replyTo : Option (Option User)

structure ParsedMedia where
  url : String
  linkHeight : Option UInt32 := none
  mode : MediaMode := .video
  playlist : Option PlaylistRange := none
  clip : Option ClipRange := none
  engine : Option Engine := none
  overrides : DownloadPreferenceOverrides := {}

inductive Action where
  | download (media : ParsedMedia)
  | askEnd (media : ParsedMedia) (start : Float)

/-! ## Hosts -/

def musicHosts : List String :=
  ["music.yandex.com", "music.yandex.ru", "music.yandex.by", "music.yandex.kz", "spotify.com",
    "tospotify.com", "spotify.link", "deezer.com", "deezer.page.link", "link.deezer.com",
    "music.apple.com", "music.youtube.com", "tidal.com", "soundcloud.com", "soundcloud.app.goo.gl",
    "bandcamp.com", "qobuz.com"]

/-- `strip_suffix` of a text. -/
def stripSuffixText (s t : Str) : Option Str :=
  if s.isSuffixOf t then some (t.take (t.length - s.length)) else none

def reservedMusicHost (host : String) : Bool :=
  let host := trimEnd '.' host.toList
  musicHosts.any fun base =>
    host == base.toList || (stripSuffixText base.toList host).any (·.getLast? == some '.')

/-! ## Places in a text -/

/-- The number of characters before an offset in UTF-16 units, if a character begins there. -/
def utf16Boundary : Str → Nat → Option Nat
  | [], offset => if offset = 0 then some 0 else none
  | c :: t, offset =>
      if offset = 0 then some 0
      else if offset < lenUtf16 c then none
      else (utf16Boundary t (offset - lenUtf16 c)).map (· + 1)

def slice (t : Str) (start stop : Nat) : Option Str :=
  if start ≤ stop ∧ stop ≤ t.length then some ((t.take stop).drop start) else none

section

variable [MusicPlatform]

open Platform Inbox.LinkPlatform Music.MusicPlatform

/-! ## Start markers -/

/-- The one marker among the parameters. -/
def markerOf (marker : Option Float) : List (String × String) → Option (Option Float)
  | [] => some marker
  | (key, value) :: pairs =>
      if key == "t" || key == "start" then
        if marker.isSome then none
        else (parseStartValue value.toList).bind fun start => markerOf (some start) pairs
      else markerOf marker pairs

def queryStart (url : Str) : Option (Option Float) :=
  (parseUrl (String.ofList url)).bind fun parsed => markerOf none (queryPairs parsed)

/-! ## Clips -/

/-- The clip from a start to an end, which is a duration unless it has a colon. -/
def clipOf (start : Float) (stop : Str) : Option ClipRange :=
  (parseTime stop).bind fun value =>
    (ClipRange.new start (if stop.contains ':' then value else start + value)).toOption

/-! ## Parsing -/

/-- What is asked for by a URL, its start marker and the times behind it. -/
def actionOf (isPrivate : Bool) (url : Str) (startHint : Option Float) :
    List Str → Option Action
  | [] =>
      match startHint with
      -- Interactive drafts are private-only.
      | some start => if isPrivate then some (.askEnd { url := String.ofList url } start) else none
      | none => some (.download { url := String.ofList url })
  | [stop] =>
      startHint.bind fun start =>
        (clipOf start stop).map fun clip =>
          .download { url := String.ofList url, clip := some clip }
  | [start, stop] =>
      (parseTime start).bind fun start =>
        (clipOf start stop).map fun clip =>
          .download { url := String.ofList url, clip := some clip }
  | _ => none

def plainSource (source : Str) (url : Url) : Bool :=
  !(decide (4096 < byteLen source) || source.any (fun c => isWhitespace c || isControl c) ||
    !(["http", "https"].contains (scheme url)) || (hostStr url).isNone || !(username url).isEmpty ||
    (password url).isSome)

/-- What the entity of a text asks for; nothing if the music part serves its host. -/
def readEntity (isPrivate : Bool) (text : Str) (entity : MessageEntity) : Option (Option Action) :=
  (checked (entity.offset + entity.length)).bind fun stop =>
    (utf16Boundary text entity.offset).bind fun startByte =>
      (utf16Boundary text stop).bind fun endByte =>
        (slice text startByte endByte).bind fun source =>
          (parseUrl (String.ofList source)).bind fun url =>
            if !plainSource source url then none
            else (hostStr url).bind fun host =>
              if reservedMusicHost host then some none
              else (queryStart source).bind fun startHint =>
                (actionOf isPrivate source startHint (splitWhitespace (text.drop endByte))).map some

/-- The message is not for this bot: a command, or a text through another bot. -/
def foreign (text : Str) (viaBot : Option User) (botId : Nat) : Bool :=
  (text.dropWhile isWhitespace).head? == some '/' ||
    viaBot.any fun bot => !bot.isBot || bot.id != botId

/-- In a group the message comes through the bot or answers it. -/
def addressed (m : Message) (botId : Nat) : Bool :=
  m.isPrivate || m.viaBot.any (fun bot => bot.id == botId) ||
    m.replyTo.any fun sender => sender.any fun bot => bot.isBot && bot.id == botId

/-- What a message asks for, an error, or nothing. -/
def parse (m : Message) (botId : Nat) : Option (Except Unit Action) :=
  m.text.bind fun text =>
    if foreign text m.viaBot botId || !addressed m botId then none
    else m.entities.bind fun entities =>
      if entities.any (·.kind == .botCommand) then none
      else match entities.filter (·.kind == .url) with
        | [] => none
        | entity :: more =>
            if !more.isEmpty || decide (16384 < byteLen text) then some (.error ())
            else match readEntity m.isPrivate text entity with
              | none => some (.error ())
              | some action => action.map .ok

end

end YoinkCore.Telegram.PlainUrl
