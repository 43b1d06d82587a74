import YoinkCore.Music.Resolve
import YoinkCore.Storage.TextEffect

/-!
# Sending the audio of a track

A track is downloaded from the first of its links to YouTube that works, and when none does, from
what a search there finds. The command to send it is an effect with an identity of its own, which
holds the whole track and must be short.
-/

namespace YoinkCore.Music

open Lib Lib.Json Storage
open Text (Str)
open Worker (HttpSourceUrl jsonText)

section

variable [MusicPlatform]

/-! ## Sources -/

def MusicMetadata.audio (m : MusicMetadata) (url : HttpSourceUrl) : MusicTask :=
  .musicAudio url m.title (m.artist.getD "") m.thumbnailUrl

/-- The links to try, in this order. -/
def candidates (track : Track) : List HttpSourceUrl :=
  (track.links.filter (·.provider = .ytmusic) ++ track.links.filter (·.provider = .youtube)).map
    MusicLink.url

structure MusicActor where
  userId : Int64
  group : Option (Int64 × Option Int64)

structure AudioTarget where
  botId : Int64
  chatId : Int64
  topicId : Option Int32
  incomingMessageId : Int32

structure CardEntity where
  offset : Nat
  length : Nat
  url : String

structure MusicCard where
  title : String
  text : String
  entities : List CardEntity
  thumbnailUrl : Option String

structure AudioCommand where
  actor : MusicActor
  target : AudioTarget
  track : Track
  caption : MusicCard

/-- The title of the card of a track. -/
def Track.cardTitle (t : Track) : String :=
  let title := match t.metadata.artist.filter (· ≠ "") with
    | some artist => artist ++ " - " ++ t.metadata.title
    | none => t.metadata.title
  String.ofList (title.toList.take 128)

def encodeLink (l : MusicLink) : Json :=
  object [field "provider" (.str l.provider.key), field "url" (encodeUrl l.url)]

def encodeMetadata (m : MusicMetadata) : Json :=
  object [field "title" (.str m.title), field "artist" (nullable (m.artist.map .str)),
    field "thumbnail_url" (nullable (m.thumbnailUrl.map encodeUrl))]

def encodeTrack (t : Track) : Json :=
  object [field "metadata" (encodeMetadata t.metadata), field "source" (encodeLink t.source),
    field "links" (.arr (t.links.map encodeLink))]

omit [MusicPlatform] in
def encodeEntity (e : CardEntity) : Json :=
  object [field "offset" (.int e.offset), field "length" (.int e.length),
    field "url" (.str e.url)]

omit [MusicPlatform] in
def encodeCard (c : MusicCard) : Json :=
  object [field "title" (.str c.title), field "text" (.str c.text),
    field "entities" (.arr (c.entities.map encodeEntity)),
    field "thumbnail_url" (nullable (c.thumbnailUrl.map .str))]

omit [MusicPlatform] in
def encodeGroup (group : Int64 × Option Int64) : Json :=
  .arr [Codec.ofI64 group.1, nullable (group.2.map Codec.ofI64)]

omit [MusicPlatform] in
def encodeTarget (t : AudioTarget) : Json :=
  object [field "bot_id" (Codec.ofI64 t.botId), field "chat_id" (Codec.ofI64 t.chatId),
    field "topic_id" (nullable (t.topicId.map Codec.ofI32)),
    field "incoming_message_id" (Codec.ofI32 t.incomingMessageId)]

/-- The credentials, by their digest. -/
def credentialIdentity (c : MusicCredentials) : String :=
  String.ofList (hexDigits 64
    (Platform.sha256 (Platform.jsonBytes (encodeMusicCredentials c))).toNat)

namespace AudioCommand

def payload (s : MusicSettings) (c : AudioCommand) : Json :=
  object [
    field "kind" (.str "music_audio"),
    field "bind_item" (.bool false),
    field "track" (encodeTrack c.track),
    field "caption" (encodeCard c.caption),
    field "actor" (Codec.ofI64 c.actor.userId),
    field "group" (nullable (c.actor.group.map encodeGroup)),
    field "target" (encodeTarget c.target),
    field "credential_identity" (.str (credentialIdentity s.credentials))]

def identity (s : MusicSettings) (c : AudioCommand) : TextIdentity where
  bot := c.target.botId
  chat := c.target.chatId
  topic := c.target.topicId
  message := c.target.incomingMessageId
  actor := c.actor.userId
  item := none
  edit := false
  text := c.track.cardTitle
  payload := c.payload s

end AudioCommand

inductive AudioOutcome where
  | confirmed (message : Int32)
  | unknown | disabled | rejected

/-- The outcome of an effect that was begun before. -/
def replayed : TextOutcome → AudioOutcome
  | .confirmed message => .confirmed message
  | .prepared | .unknown | .sealed => .unknown

variable {s : MusicSettings} {m : MusicMetadata} {url : HttpSourceUrl} {w : MusicWorker}

end

end YoinkCore.Music
