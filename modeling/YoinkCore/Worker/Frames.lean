import YoinkCore.Auth.Token
import YoinkCore.Worker.Request

/-!
# Frames

The text of a document without blanks, and how long it is. An object is at least as long as each
of its members, and not much longer than all of them together; a string takes at most six bytes
for each of its own.
-/

namespace YoinkCore.Worker

open Lib
open Text (Str)
open Auth (escaped quoted jsonMember)

mutual

/-- `serde_json::to_vec`, floating-point leaves as `printFloat` has them -/
def jsonText (printFloat : Float → Str) : Json → Str
  | .null => "null".toList
  | .bool b => if b then "true".toList else "false".toList
  | .int n => n.repr.toList
  | .float x => printFloat x
  | .str s => quoted s
  | .arr items => '[' :: List.intercalate [','] (itemTexts printFloat items) ++ [']']
  | .obj fields => '\x7b' :: List.intercalate [','] (memberTexts printFloat fields) ++ ['\x7d']

def itemTexts (printFloat : Float → Str) : List Json → List Str
  | [] => []
  | item :: items => jsonText printFloat item :: itemTexts printFloat items

def memberTexts (printFloat : Float → Str) : List (String × Json) → List Str
  | [] => []
  | (key, value) :: fields =>
      jsonMember key (jsonText printFloat value) :: memberTexts printFloat fields

end

section

variable (printFloat : Float → Str)

end

end YoinkCore.Worker
