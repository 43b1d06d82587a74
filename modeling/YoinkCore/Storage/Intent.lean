import YoinkCore.Storage.Model

/-!
# Replay intent

A caller who repeats a request under the same key must get the first operation
back. `sameRequestIntent` compares what was stored with what is asked for, after
undoing what admission adds: the network snapshot, the forced mark, the settings
snapshot, the frozen route and the local report preference. A request with
overrides also forgets the format they resolved to.
-/

namespace YoinkCore.Storage

open Lib Domain

variable [Platform]

def mapError {ε ε' α : Type} (e' : ε') : Except ε α → Except ε' α
  | .ok a => .ok a
  | .error _ => .error e'

def withoutNetwork (r : DownloadRequest) : Except StoreError DownloadRequest :=
  mapError .invalidInput ((r.withForceNsfw false).withNetwork .none)

/-- The engine before the routing table was frozen. -/
def unfrozen : Engine → Engine
  | .autoYtDlpV1 | .autoGalleryV1 | .autoFallbackV1 => .auto
  | engine => engine

def normalizeRoute (r : DownloadRequest) : Except StoreError DownloadRequest := do
  let r ← withoutNetwork r
  let r ← mapError .invalidStoredData (r.withDownloaderSettings none)
  let params := (r.params.withEngine (unfrozen r.params.engine)).withMediaInfo false
  mapError .invalidInput (r.withParams params)

/-- Reset every field the overrides resolve. -/
def normalizeFormat (r : DownloadRequest) : Except StoreError DownloadRequest := do
  let d := DownloadParams.default
  let p ← mapError .invalidInput (r.params.withMaxHeight d.maxHeight)
  let p := (((p.withVideoCodec d.videoCodec).withAudioCodec d.audioCodec).withContainer
    d.container).withSendAsFile d.sendAsFile
  let p := (p.withGalleryZip d.galleryZip).withSubtitles none
  mapError .invalidInput (r.withParams p)

def sameRequestIntent (current requested : DownloadRequest) : Except StoreError Bool := do
  let current ← normalizeRoute current
  let requested ← normalizeRoute requested
  if current.preferenceOverrides ≠ requested.preferenceOverrides then return false
  if current.preferenceOverrides.isSome then
    return (← normalizeFormat current) == (← normalizeFormat requested)
  return current == requested

end YoinkCore.Storage
