import YoinkCore.Inbox.Validation

/-!
# Links and keys

What is asked of the libraries for links, beside reading them: the editing of a parsed URL.
Names of categories are compared by a key without spaces and dashes, in lower case.
-/

namespace YoinkCore.Inbox

open Lib

/-- Case mapping of the standard library, and the editing of a parsed URL. -/
class LinkPlatform extends Platform where
  /-- `char::to_lowercase` -/
  lowerChar : Char → List Char
  /-- `set_fragment(None)` -/
  withoutFragment : Url → Url
  queryPairs : Url → List (String × String)
  /-- `set_query(None)`, and the pairs appended if there are any. -/
  withPairs : Url → List (String × String) → Url

variable [LinkPlatform]

/-! ## Keys -/

def categoryKey (name : String) : String :=
  String.ofList
    ((name.toList.filter fun c => !([' ', '_', '-'].contains c)).flatMap LinkPlatform.lowerChar)

/-! ## A small platform -/

/-- Texts of ASCII, and URLs of one host. -/
@[reducible] def asciiLinks : LinkPlatform where
  parseUrl text := some ⟨text⟩
  scheme _ := "https"
  hostStr _ := some "example.com"
  username _ := ""
  password _ := none
  path _ := "/a"
  query _ := none
  fragment _ := none
  jsonBytes _ := []
  rereadF64 x := some x
  sha256 _ := 0
  lowerChar c := [Text.toLower c]
  withoutFragment url := url
  queryPairs _ := []
  withPairs url _ := url

end YoinkCore.Inbox
