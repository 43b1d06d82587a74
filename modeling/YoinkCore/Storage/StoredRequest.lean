import YoinkCore.Storage.CacheIdentity

/-!
# Stored requests

A document is a text, and a number that is read from its text may be a neighbour of the one
that was written. A request is read back as it was written exactly if the bounds of its clips
are, and its height override is acceptable. The row of an admitted request then can be read
by whoever claims it.
-/

namespace YoinkCore.Storage

open Lib Domain

section

variable [Platform]

end

/-! ## Lost digits -/

namespace Scenario

/-- Two seconds that differ in the seventeenth digit. Their digits are read as an integer of
more than 53 bits, which is rounded before it is divided. -/
@[reducible] def rounding : Platform :=
  { platform with
    rereadF64 := fun x => some
      (if x == 10444.892527221675 || x == 10444.892527221677 then
        10444892527221676.0 / 1000000000000.0 else x) }

attribute [local instance] rounding

/-- A part of a video. -/
def clipped (c : ClipRange) (fits : paramsFit .video (some c) {} = true) : DownloadRequest where
  actorId := 7
  sourceUrl := sourceUrl
  mediaMode := .video
  clipRange := some c
  params := {}
  target := none
  network := .none
  preferenceOverrides := none
  downloaderSettings := none
  forceNsfw := false
  actor_pos := actor_pos
  actor_le := actor_le
  source_parsed := ⟨sourceUrl.asStr, by decide⟩
  source_ok := by decide
  params_ok := fits
  target_ok := target_ok
  network_ok := network_ok
  settings_ok := DownloadRequest.noSettings_ok

end Scenario

section

attribute [local instance] Scenario.rounding

end

end YoinkCore.Storage
