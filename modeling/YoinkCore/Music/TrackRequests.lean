import YoinkCore.Music.FoundLinks
import YoinkCore.Music.SendAudio

/-!
# The requests of a track

A track is searched by its artist and its title together. Each may be as long as half of what a
search takes, but the blank between them takes one byte more.
-/

namespace YoinkCore.Music

open Lib Storage
open Text (Str)

section

variable [MusicPlatform]

end

/-! ## A title and an artist of 1024 bytes -/

namespace Scenario

/-- Knows the URLs of `platform`, and prints documents. -/
@[reducible] def printer : MusicPlatform :=
  { platform with
    jsonBytes := fun doc =>
      (Worker.jsonText (fun _ => []) doc).flatMap String.utf8EncodeChar }

attribute [local instance] printer

def settings : MusicSettings where
  requestTimeout := Duration.ofSecs 10
  lookupTimeout := Duration.ofSecs 30
  resolveTimeout := Duration.ofSecs 60
  audioTimeout := Duration.ofSecs 300
  deliveryTimeout := Duration.ofSecs 60
  persistenceTimeout := Duration.ofSecs 10
  cacheTtl := Duration.ofSecs 3600
  cacheEntries := 100
  workerConcurrency := 4
  responseMaxBytes := 1048576
  maxRequests := 10
  audioMaxBytes := 20971520
  maxLinksPerCommand := 3
  downloadEnabled := true
  credentials := {}
  proxies _ := none

def ids : MusicProvider → FreshId := fun _ => ⟨⟨1⟩, by decide⟩

/-- A letter, 1024 times -/
def longText (c : Char) : String := String.ofList (List.replicate 1024 c)

end Scenario

end YoinkCore.Music
