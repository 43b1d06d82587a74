import YoinkCore.Lib.Words
import YoinkCore.Music.Admission

/-!
# Resolving a link

The worker is asked what a link leads to, and then for the same track on every other provider. An
artist that is missing is taken from the track that was found on Deezer. A run keeps the requests it
made; the worker answers each as it likes.
-/

namespace YoinkCore.Music

open Lib Storage
open Text (Str)
open Worker (HttpSourceUrl)

section

variable [MusicPlatform]

open Platform

structure Track where
  metadata : MusicMetadata
  source : MusicLink
  links : List MusicLink

structure ValidatedArtifact where
  mediaType : String
deriving DecidableEq

/-- The UUIDs of the requests and the answers to them, by their number in the run. -/
structure MusicWorker where
  ids : Nat → FreshId
  lookup : Nat → MusicRequest → Except MusicError MusicResult
  audio : Nat → MusicRequest → Except MusicError (List ValidatedArtifact)

structure Outcome (α : Type) where
  requests : List MusicRequest
  result : Except MusicError α

/-- The outcome of what follows a request. -/
def Outcome.after {α : Type} (r : MusicRequest) (o : Outcome α) : Outcome α :=
  { o with requests := r :: o.requests }

/-! ## Searches -/

/-- What a track is searched by. -/
def MusicMetadata.query (m : MusicMetadata) : String :=
  match m.artist with
  | some artist => artist ++ " " ++ m.title
  | none => m.title

def MusicMetadata.search (m : MusicMetadata) (provider : MusicProvider) : MusicTask :=
  .musicSearch provider m.query m.title (m.artist.getD "")

/-- The providers that are searched for the track of a link. -/
def others (source : MusicLink) : List MusicProvider :=
  MusicProvider.all.filter fun p => p != source.provider && p != .youtube

structure Search where
  provider : MusicProvider
  number : Nat
  request : MusicRequest

/-- The searches of a run, behind the first request. -/
def searches (s : MusicSettings) (w : MusicWorker) (source : MusicLink) (m : MusicMetadata) :
    List Search :=
  ((others source).zipIdx 1).map fun (p, n) => ⟨p, n, s.request (w.ids n) (m.search p) p⟩

/-- A link of the provider that was searched. -/
def foundLink (provider : MusicProvider) (answer : Except MusicError MusicResult) :
    Option MusicLink :=
  match answer with
  | .ok (.link (some url)) =>
      match parseLink url.url.asStr.toList with
      | .ok link => if link.provider = provider then some link else none
      | .error _ => none
  | _ => none

def found (s : MusicSettings) (w : MusicWorker) (source : MusicLink) (m : MusicMetadata) :
    List MusicLink :=
  (searches s w source m).filterMap fun search =>
    foundLink search.provider (w.lookup search.number search.request)

/-! ## Runs -/

variable {m : MusicMetadata} {s : MusicSettings} {w : MusicWorker} {source : MusicLink}

theorem MusicMetadata.valid_iff :
    m.valid = true ↔ Text.trim m.title.toList ≠ [] ∧ clean m.title 1024 = true ∧
      ∀ artist, m.artist = some artist → clean artist 1024 = true := by
  rw [MusicMetadata.valid, Bool.and_eq_true, Bool.and_eq_true, Bool.not_eq_true',
    List.isEmpty_eq_false_iff, Option.all_eq_true, and_assoc]

variable {p : MusicProvider} {r : MusicRequest}

end

end YoinkCore.Music
