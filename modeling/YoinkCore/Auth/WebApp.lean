import YoinkCore.Identity.Profile

/-!
# Signed profiles

A messenger signs what it tells a web application about its user. The signature is over the
fields as text, in the order of their keys.
-/

namespace YoinkCore.Auth

open Lib
open Insight (JsonReader)
open Identity (TrustedProfile)

/-! ## Code from elsewhere -/

/-- `Hmac<Sha256>` -/
class Hmac where
  tag : List UInt8 → List UInt8 → List UInt8

/-- What is asked of a URL. -/
structure ParsedUrl where
  scheme : String
  host : Option String
  username : String
  password : Option String

/-- `Url::parse` -/
class UrlParser where
  parse : String → Option ParsedUrl

/-! ## Configuration -/

/-- The configuration, as it is accepted. -/
structure AuthConfig where
  botToken : String
  jwtSecret : String
  maxAgeSecs : Nat
  futureSkewSecs : Nat
  tokenTtlSecs : Nat
  botToken_ok : botToken ≠ "" ∧ botToken.toList.any Text.isWhitespace = false
  jwtSecret_ok : Text.trim jwtSecret.toList ≠ []
  maxAge_ok : 1 ≤ maxAgeSecs ∧ maxAgeSecs ≤ 86400
  futureSkew_ok : futureSkewSecs ≤ 300
  tokenTtl_ok : 60 ≤ tokenTtlSecs ∧ tokenTtlSecs ≤ 604800

def maxInitData : Nat := 16 * 1024

def maxFields : Nat := 64

/-! ## Forms -/

def hexNibble (b : UInt8) : Option Nat :=
  let n := b.toNat
  if 48 ≤ n && n ≤ 57 then some (n - 48)
  else if 97 ≤ n && n ≤ 102 then some (n - 97 + 10)
  else if 65 ≤ n && n ≤ 70 then some (n - 65 + 10)
  else none

def formBytes : List UInt8 → Option (List UInt8)
  | [] => some []
  | 43 :: rest => (formBytes rest).map (32 :: ·)
  | 37 :: rest =>
      match rest with
      | hi :: lo :: rest => do
          let hi ← hexNibble hi
          let lo ← hexNibble lo
          let bytes ← formBytes rest
          some (UInt8.ofNat (hi * 16 + lo) :: bytes)
      | _ => none
  | b :: rest => (formBytes rest).map (b :: ·)

/-- `form_decode` -/
def formDecode (input : Text.Str) : Option String :=
  (formBytes (Bytes.ofText (String.ofList input))).bind Bytes.text

abbrev Fields := Dict String String

/-- One pair of a form joins the fields. -/
def addField (fields : Fields) (pair : Text.Str) : Option Fields := do
  if pair.isEmpty then none
  let (key, value) ← Text.splitOnce ['='] pair
  let key ← formDecode key
  let value ← formDecode value
  if key = "" || key.toList.contains '=' || key.toList.any Text.isControl ||
      value.toList.any Text.isControl then none
  if (fields.lookup key).isSome then none
  some (fields.insert key value)

/-- `parse_form` -/
def parseForm (input : String) : Option Fields :=
  let pairs := Text.split '&' input.toList
  if maxFields < pairs.length then none else pairs.foldlM addField ∅

/-! ## Signatures -/

/-- `decode_hex` -/
def decodeHex : List UInt8 → Option (List UInt8)
  | hi :: lo :: rest => do
      let hi ← hexNibble hi
      let lo ← hexNibble lo
      let bytes ← decodeHex rest
      some (UInt8.ofNat (hi * 16 + lo) :: bytes)
  | _ => some []

/-- The fields that are signed, in the order of their keys. -/
def canonical (fields : Fields) : List (String × String) :=
  ((fields.entries.filter fun e => e.1 ≠ "hash").map fun e => (e.1, e.2)).insertionSort
    fun a b => a.1 ≤ b.1

/-- The text that is signed. -/
def dataCheck (fields : Fields) : String :=
  String.ofList (List.intercalate ['\n']
    ((canonical fields).map fun (k, v) => k.toList ++ '=' :: v.toList))

def webAppSecret [Hmac] (config : AuthConfig) : List UInt8 :=
  Hmac.tag (Bytes.ofText "WebAppData") (Bytes.ofText config.botToken)

/-- The signature in the fields is that of the others. -/
def signedFields [Hmac] (config : AuthConfig) (initData : String) : Option Fields := do
  if initData = "" || maxInitData < Text.byteLen initData.toList ||
      initData.toList.any Text.isControl then none
  let fields ← parseForm initData
  let signature ← fields.lookup "hash"
  if Text.byteLen signature.toList ≠ 64 || !signature.toList.all Text.isHexDigit then none
  let decoded ← decodeHex (Bytes.ofText signature)
  if Hmac.tag (webAppSecret config) (Bytes.ofText (dataCheck fields)) ≠ decoded then none
  some fields

/-! ## Profiles -/

mutual

/-- `json_depth` -/
def jsonDepth (depth : Nat) : Json → Nat
  | .arr items => itemsDepth depth items
  | .obj fields => fieldsDepth depth fields
  | _ => depth

def itemsDepth (depth : Nat) : List Json → Nat
  | [] => depth + 1
  | v :: rest => max (jsonDepth (depth + 1) v) (itemsDepth depth rest)

def fieldsDepth (depth : Nat) : List (String × Json) → Nat
  | [] => depth + 1
  | (_, v) :: rest => max (jsonDepth (depth + 1) v) (fieldsDepth depth rest)

end

/-- `valid_claim_string` of a text -/
def plainText (s : String) (limit : Nat) : Bool :=
  decide (Text.byteLen s.toList ≤ limit) && !s.toList.any Text.isControl

/-- `optional_string` -/
def optionalString (object : List (String × Json)) (key : String) (limit : Nat) :
    Option (Option String) :=
  match Json.get? object key with
  | none | some .null => some none
  | some (.str s) => if plainText s limit then some (some s) else none
  | some _ => none

/-- A URL of a photo, as the messenger may give it. -/
def acceptedPhoto [UrlParser] (photo : String) : Bool :=
  (UrlParser.parse photo).any fun url =>
    (url.scheme = "http" || url.scheme = "https") && url.host.isSome && url.username = "" &&
      url.password.isNone

/-- The profile in the fields. -/
def profileOf [JsonReader] [UrlParser] (config : AuthConfig) (fields : Fields) (now : Int) :
    Option TrustedProfile := do
  let authDate ← fields.lookup "auth_date"
  if !authDate.toList.all Text.isDigit then none
  let timestamp ← (Text.digits authDate.toList).filter (· ≤ 2 ^ 63 - 1)
  if timestamp = 0 then none
  if (timestamp : Int) > now + config.futureSkewSecs || now - timestamp > config.maxAgeSecs then
    none
  let user ← JsonReader.parse (← fields.lookup "user")
  if jsonDepth 0 user > 8 then none
  match user with
  | .obj object => do
      let id ← ((Json.get? object "id").bind Json.asI64).filter (0 < ·)
      let username ← optionalString object "username" 64
      let firstName ← optionalString object "first_name" 256
      let photoUrl ← optionalString object "photo_url" 2048
      if !photoUrl.all acceptedPhoto then none
      some ⟨id, username, firstName, photoUrl⟩
  | _ => none

/-- `verify_webapp` -/
def verifyWebapp [Hmac] [JsonReader] [UrlParser] (config : AuthConfig) (initData : String)
    (now : Int) : Option TrustedProfile := do
  let fields ← signedFields config initData
  profileOf config fields now

end YoinkCore.Auth
