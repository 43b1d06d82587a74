import YoinkCore.Lib.Json

/-!
# Code outside the repository

The program parses URLs, prints JSON and hashes bytes with third-party crates.
`Platform` collects what it reads from them. A URL is its serialization; the
accessors read the components the URL parser found in it.
-/

namespace YoinkCore

open Lib

/-- A parsed URL, compared by its serialization. -/
structure Url where
  asStr : String
deriving DecidableEq

class Platform where
  parseUrl : String → Option Url
  scheme : Url → String
  hostStr : Url → Option String
  username : Url → String
  password : Url → Option String
  path : Url → String
  query : Url → Option String
  fragment : Url → Option String
  /-- The bytes a document is printed as. -/
  jsonBytes : Json → List UInt8
  /-- An `f64` printed as JSON text and read back. The parser is not built to
  round-trip every value, so the result may be a neighbour. -/
  rereadF64 : Float → Option Float
  sha256 : List UInt8 → BitVec 256

/-- Parsing the serialization of a parsed URL gives that URL back. -/
def StableUrls [Platform] : Prop :=
  ∀ text url, Platform.parseUrl text = some url →
    Platform.parseUrl url.asStr = some url

end YoinkCore
