import YoinkCore.Music.Requests

/-!
# Requests that are accepted

With settings that hold, what a request is for decides alone whether it is accepted: the rest
passes its checks and takes a small part of a frame.
-/

namespace YoinkCore.Music

open Lib Lib.Json Storage
open Text (Str)
open Worker (HttpSourceUrl NetworkCredentials ProtocolError refuse maxFrameBytes jsonText)

section

variable [Platform]

def Accepted (r : MusicRequest) : Prop := ∃ frame, encodeMusicRequest r = .ok frame

/-- The settings' part of a request to a provider passes its checks. -/
structure Usable (s : MusicSettings) (p : MusicProvider) : Prop where
  limits (id : FreshId) (task : MusicTask) : (s.request id task p).checkLimits = .ok ()
  proxy : NetworkCredentials.validate ⟨s.proxies p, none, none⟩ = .ok ()
  credentials (id : FreshId) (task : MusicTask) :
    (s.request id task p).checkCredentials = .ok ()

variable {s : MusicSettings} {p : MusicProvider}

variable {ids : MusicProvider → FreshId} {printFloat : Float → Str}

section

variable (printFloat : Float → Str)

end

end

end YoinkCore.Music
