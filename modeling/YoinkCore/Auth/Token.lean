import YoinkCore.Auth.WebApp
import YoinkCore.Lib.Base64
import YoinkCore.Lib.Written

/-!
# Tokens

A token names a user until it expires: a header, the claims and a signature over both, each in
base 64.
-/

namespace YoinkCore.Auth

open Lib
open Insight (JsonReader)

/-! ## Claims -/

structure JwtProfile where
  userId : Int
  role : String
  username : Option String
  firstName : Option String

structure TokenClaims where
  sub : String
  role : String
  exp : Int
  username : Option String
  firstName : Option String

def TokenClaims.fields (c : TokenClaims) : List (String × Json) :=
  Json.members
    [Json.field "sub" (.str c.sub), Json.field "role" (.str c.role), Json.field "exp" (.int c.exp),
      Json.skipNone "username" (c.username.map .str),
      Json.skipNone "first_name" (c.firstName.map .str)]

def TokenClaims.json (c : TokenClaims) : Json := .obj c.fields

def hexDigit (n : Nat) : Char := if n < 10 then Char.ofNat (48 + n) else Char.ofNat (87 + n)

/-- A character in a JSON text. -/
def escaped (c : Char) : Text.Str :=
  if c = '"' then ['\\', '"']
  else if c = '\\' then ['\\', '\\']
  else if c.toNat = 8 then ['\\', 'b']
  else if c.toNat = 9 then ['\\', 't']
  else if c.toNat = 10 then ['\\', 'n']
  else if c.toNat = 12 then ['\\', 'f']
  else if c.toNat = 13 then ['\\', 'r']
  else if c.toNat < 32 then ['\\', 'u', '0', '0', hexDigit (c.toNat / 16), hexDigit (c.toNat % 16)]
  else [c]

def quoted (s : String) : Text.Str := '"' :: s.toList.flatMap escaped ++ ['"']

def jsonMember (key : String) (value : Text.Str) : Text.Str := quoted key ++ ':' :: value

/-- `serde_json::to_vec` of the claims -/
def TokenClaims.text (c : TokenClaims) : String :=
  let members := [jsonMember "sub" (quoted c.sub), jsonMember "role" (quoted c.role),
      jsonMember "exp" c.exp.repr.toList] ++
    (c.username.map fun s => jsonMember "username" (quoted s)).toList ++
    (c.firstName.map fun s => jsonMember "first_name" (quoted s)).toList
  String.ofList ('\x7b' :: List.intercalate [','] members ++ ['\x7d'])

def headerText : String := "\x7b\"alg\":\"HS256\",\"typ\":\"JWT\"\x7d"

def headerJson : Json := .obj [("alg", .str "HS256"), ("typ", .str "JWT")]

def JwtProfile.claims (p : JwtProfile) (exp : Int) : TokenClaims where
  sub := p.userId.repr
  role := p.role
  exp := exp
  username := p.username.filter (· ≠ "")
  firstName := p.firstName.filter (· ≠ "")

/-! ## Issuing -/

def validRole (role : String) : Bool :=
  role ≠ "" && decide (Text.byteLen role.toList ≤ 128) && !role.toList.any Text.isControl

/-- `valid_claim_string` -/
def validClaimString (value : Option String) (limit : Nat) : Bool :=
  value.all (plainText · limit)

def signature [Hmac] (config : AuthConfig) (signingInput : Text.Str) : List UInt8 :=
  Hmac.tag (Bytes.ofText config.jwtSecret) (Bytes.ofText (String.ofList signingInput))

/-- `issue_token` -/
def issueToken [Hmac] (config : AuthConfig) (profile : JwtProfile) (now : Int) : Option String := do
  if profile.userId ≤ 0 || !validRole profile.role || !validClaimString profile.username 64 ||
      !validClaimString profile.firstName 256 then none
  if 2 ^ 63 - 1 < now + config.tokenTtlSecs then none
  let claims := profile.claims (now + config.tokenTtlSecs)
  let header := Base64.encode (Bytes.ofText headerText)
  let payload := Base64.encode (Bytes.ofText claims.text)
  let signingInput := header ++ '.' :: payload
  some (String.ofList (signingInput ++ '.' :: Base64.encode (signature config signingInput)))

/-! ## Verification -/

def maxToken : Nat := 8192

/-- `strict_b64` -/
def strictB64 (value : Text.Str) : Option (List UInt8) :=
  if value.contains '=' then none
  else (Base64.decode value).filter fun bytes => Base64.encode bytes = value

def tokenHeader : Json → Bool
  | .obj h =>
      h.length = 2 && (Json.get? h "alg").bind Json.asStr = some "HS256" &&
        (Json.get? h "typ").bind Json.asStr = some "JWT"
  | _ => false

def subject (sub : Text.Str) : Option Int :=
  if !sub.all Text.isDigit || (1 < sub.length && sub.head? = some '0') then none
  else ((Text.digits sub).filter fun n => 0 < n && n ≤ 2 ^ 63 - 1).map Int.ofNat

/-- The user of claims that hold. -/
def claimant (claims : List (String × Json)) (now : Int) : Option Int := do
  let sub ← (Json.get? claims "sub").bind Json.asStr
  let userId ← subject sub.toList
  let role ← (Json.get? claims "role").bind Json.asStr
  if !validRole role then none
  let exp ← (Json.get? claims "exp").bind Json.asI64
  if exp ≤ now then none
  let _ ← optionalString claims "username" 64
  let _ ← optionalString claims "first_name" 256
  some userId

/-- `verify_token` -/
def verifyToken [Hmac] [JsonReader] (config : AuthConfig) (token : String) (now : Int) :
    Option Int := do
  if token = "" || maxToken < Text.byteLen token.toList then none
  match Text.split '.' token.toList with
  | [head, payload, mac] => do
      if head.isEmpty || payload.isEmpty || mac.isEmpty then none
      let headerBytes ← strictB64 head
      let header ← (Bytes.text headerBytes).bind JsonReader.parse
      if !tokenHeader header then none
      let mac ← strictB64 mac
      if signature config (head ++ '.' :: payload) ≠ mac then none
      let payloadBytes ← strictB64 payload
      let claims ← (Bytes.text payloadBytes).bind JsonReader.parse
      if 8 < jsonDepth 0 claims then none
      match claims with
      | .obj claims => claimant claims now
      | _ => none
  | _ => none

/-! ## Parts of a token -/

theorem strictB64_encode (bytes : List UInt8) : strictB64 (Base64.encode bytes) = some bytes := by
  have heq : (Base64.encode bytes).contains '=' = false := by
    rw [List.contains_eq_any_beq, List.any_eq_false]
    intro c hc
    obtain ⟨n, hn, rfl⟩ := Base64.of_mem_encode hc
    simpa using (Base64.digit_plain n hn).2.1.symm
  rw [strictB64, heq, Base64.decode_encode]
  simp

theorem dot_not_mem_encode (bytes : List UInt8) : '.' ∉ Base64.encode bytes := by
  intro h
  obtain ⟨n, hn, he⟩ := Base64.of_mem_encode h
  exact (Base64.digit_plain n hn).1 he.symm

theorem split_token (a b c : List UInt8) :
    Text.split '.' ((Base64.encode a ++ '.' :: Base64.encode b) ++ '.' :: Base64.encode c) =
      [Base64.encode a, Base64.encode b, Base64.encode c] := by
  rw [Text.split_append_sep, Text.split_append_sep, Text.split_of_not_mem (dot_not_mem_encode a),
    Text.split_of_not_mem (dot_not_mem_encode b), Text.split_of_not_mem (dot_not_mem_encode c)]
  rfl

variable {p : JwtProfile} {value : Option String} {config : AuthConfig}

/-- A signed token is read up to what its claims say. -/
theorem verify_signed [Hmac] [JsonReader] {text : String} {now : Int}
    {claims : List (String × Json)} (hne : text ≠ "") (hlen : Text.byteLen text.toList ≤ 3900)
    (hmac : ∀ k m, (Hmac.tag k m).length = 32)
    (hheader : JsonReader.parse headerText = some headerJson)
    (hclaims : JsonReader.parse text = some (.obj claims))
    (hdepth : jsonDepth 0 (.obj claims) ≤ 8) (s : Text.Str)
    (hs : s = Base64.encode (Bytes.ofText headerText) ++ '.' ::
      Base64.encode (Bytes.ofText text)) :
    verifyToken config (String.ofList (s ++ '.' :: Base64.encode (signature config s))) now =
      claimant claims now := by
  have htext : Bytes.ofText text ≠ [] := by
    intro h
    have hread := Bytes.text_ofText text
    rw [h] at hread
    exact hne (Option.some.inj (hread.symm.trans (Bytes.text_ofText "")))
  have hsig : signature config s ≠ [] := by
    intro h
    have hlen : (signature config s).length = 32 := hmac _ _
    rw [h] at hlen
    cases hlen
  have hshort : ¬ maxToken <
      Text.byteLen (s ++ '.' :: Base64.encode (signature config s)) := by
    have hheader := Base64.byteLen_encode (Bytes.ofText headerText)
    have hpayload := Base64.byteLen_encode (Bytes.ofText text)
    have hmac' : (signature config s).length = 32 := hmac _ _
    have hsig := Base64.byteLen_encode (signature config s)
    have hlenText : (Bytes.ofText text).length = Text.byteLen text.toList :=
      Bytes.toUTF8_length text
    have hlenHeader : (Bytes.ofText headerText).length = 27 := by decide +kernel
    have hdot : '.'.utf8Size = 1 := rfl
    rw [hs] at hsig hmac' ⊢
    simp only [Text.byteLen_append, Text.byteLen_cons, maxToken] at hsig ⊢
    omega
  unfold verifyToken
  rw [if_neg (by simp [String.toList_ofList, hshort])]
  rw [String.toList_ofList, hs, split_token]
  simp only [Option.bind_eq_bind, Option.bind_some, ← hs, strictB64_encode,
    Bytes.text_ofText, hheader, hclaims]
  rw [if_neg (by simp [Base64.encode_ne_nil htext, Base64.encode_ne_nil hsig,
    @Base64.encode_ne_nil (Bytes.ofText headerText) (by decide +kernel)])]
  rw [if_neg (by decide +kernel), if_neg (by simp), if_neg (by omega)]

/-! ## Claims of a profile -/

/-- What may be issued to a profile. -/
def JwtProfile.issuable (p : JwtProfile) : Prop :=
  0 < p.userId ∧ p.userId ≤ 2 ^ 63 - 1 ∧ validRole p.role = true ∧
    validClaimString p.username 64 = true ∧ validClaimString p.firstName 256 = true

theorem subject_repr {userId : Int} (hpos : 0 < userId) (hmax : userId ≤ 2 ^ 63 - 1) :
    subject userId.repr.toList = some userId := by
  obtain ⟨n, rfl⟩ := Int.eq_ofNat_of_zero_le hpos.le
  have hn : 0 < n := by omega
  have hle : n ≤ 2 ^ 63 - 1 := by omega
  have hdigits := Text.digits_repr n
  have hhead := Text.head_repr hn
  have hall := Text.all_digits_repr n
  show subject n.repr.toList = some (Int.ofNat n)
  generalize n.repr.toList = t at hdigits hhead hall ⊢
  have hbound : decide (n ≤ 2 ^ 63 - 1) = true := decide_eq_true hle
  rw [subject, if_neg (by simp only [hall, hhead]; simp), hdigits]
  simp only [Option.filter_some, decide_eq_true hn, hbound, Bool.and_self, if_true, Option.map_some]

theorem optionalString_claim {limit : Nat} (object : List (String × Json)) (key : String)
    (h : validClaimString value limit = true)
    (hget : Json.get? object key = (value.filter (· ≠ "")).map .str) :
    (optionalString object key limit).isSome = true := by
  unfold optionalString
  rw [hget]
  cases hv : value.filter (· ≠ "") with
  | none => rfl
  | some s =>
      obtain ⟨rfl, -⟩ := Option.filter_eq_some_iff.mp hv
      have hs : plainText s limit = true := h
      simp [hs]

/-- The claims hold until they expire. -/
theorem claimant_claims (h : p.issuable) {exp : Int} (hlo : -2 ^ 63 ≤ exp)
    (hhi : exp ≤ 2 ^ 63 - 1) (now : Int) :
    claimant (p.claims exp).fields now = if exp ≤ now then none else some p.userId := by
  obtain ⟨hpos, hmax, hrole, husername, hfirst⟩ := h
  have hsub : (Json.get? (p.claims exp).fields "sub").bind Json.asStr = some p.userId.repr := by
    simp [TokenClaims.fields, JwtProfile.claims, Json.asStr]
  have hget : (Json.get? (p.claims exp).fields "role").bind Json.asStr = some p.role := by
    simp [TokenClaims.fields, JwtProfile.claims, Json.asStr]
  have hexp : (Json.get? (p.claims exp).fields "exp").bind Json.asI64 = some exp := by
    simpa [TokenClaims.fields, JwtProfile.claims, Json.asI64, Json.asInt] using ⟨hlo, hhi⟩
  obtain ⟨u, hu⟩ := Option.isSome_iff_exists.mp (optionalString_claim
    (p.claims exp).fields "username" husername
    (by simp [TokenClaims.fields, JwtProfile.claims]))
  obtain ⟨f, hf⟩ := Option.isSome_iff_exists.mp (optionalString_claim
    (p.claims exp).fields "first_name" hfirst
    (by simp [TokenClaims.fields, JwtProfile.claims]))
  unfold claimant
  simp only [hsub, hget, hexp, hu, hf, Option.bind_eq_bind, Option.bind_some,
    subject_repr hpos hmax, hrole]
  split <;> simp_all

theorem depth_claims (c : TokenClaims) : jsonDepth 0 (.obj c.fields) ≤ 8 := by
  obtain ⟨sub, role, exp, username, firstName⟩ := c
  cases username <;> cases firstName <;>
    simp [TokenClaims.fields, Json.members, Json.field, Json.skipNone, jsonDepth, fieldsDepth]

theorem byteLen_escaped {c : Char} (h : Text.isControl c = false) :
    Text.byteLen (escaped c) ≤ 2 * c.utf8Size := by
  have hpos := c.utf8Size_pos
  have hone : ∀ d : Char, Text.byteLen ['\\', d] = 1 + d.utf8Size := fun d => by
    simp [Text.byteLen]
    rfl
  have hsize : c.toNat < 32 → False := fun hc => by simp [Text.isControl, hc] at h
  unfold escaped
  split
  · rw [hone]
    show 2 ≤ _
    omega
  split
  · rw [hone]
    show 2 ≤ _
    omega
  rw [if_neg fun hc => hsize (by omega), if_neg fun hc => hsize (by omega),
    if_neg fun hc => hsize (by omega), if_neg fun hc => hsize (by omega),
    if_neg fun hc => hsize (by omega)]
  simp only [Text.byteLen, List.map_cons, List.map_nil, List.sum_cons, List.sum_nil]
  omega

theorem byteLen_quoted {s : String} (h : s.toList.any Text.isControl = false) :
    Text.byteLen (quoted s) ≤ 2 * Text.byteLen s.toList + 2 := by
  have hflat : ∀ t : Text.Str, t.any Text.isControl = false →
      Text.byteLen (t.flatMap escaped) ≤ 2 * Text.byteLen t := by
    intro t ht
    induction t with
    | nil => exact Nat.zero_le _
    | cons c t ih =>
        rw [List.any_cons, Bool.or_eq_false_iff] at ht
        rw [List.flatMap_cons, Text.byteLen_append, Text.byteLen_cons]
        have := byteLen_escaped ht.1
        have := ih ht.2
        omega
  have hs := hflat s.toList h
  have hquote : '"'.utf8Size = 1 := rfl
  have hlast : Text.byteLen ['"'] = 1 := rfl
  rw [quoted, List.cons_append, Text.byteLen_cons, Text.byteLen_append]
  omega

theorem byteLen_name {limit : Nat} {s : String} (h : validClaimString value limit = true)
    (hs : value.filter (· ≠ "") = some s) : Text.byteLen (quoted s) ≤ 2 * limit + 2 := by
  obtain ⟨rfl, -⟩ := Option.filter_eq_some_iff.mp hs
  have h : plainText s limit = true := h
  rw [plainText, Bool.and_eq_true, decide_eq_true_eq, Bool.not_eq_true'] at h
  have := byteLen_quoted h.2
  omega

theorem byteLen_member (key : String) (value : Text.Str) :
    Text.byteLen (jsonMember key value) = Text.byteLen (quoted key) + 1 + Text.byteLen value := by
  rw [jsonMember, Text.byteLen_append, Text.byteLen_cons, show ':'.utf8Size = 1 from rfl]
  omega

theorem byteLen_joined (members : List Text.Str) :
    Text.byteLen (List.intercalate [','] members) ≤
      (members.map fun m => Text.byteLen m + 1).sum := by
  induction members with
  | nil => exact Nat.zero_le _
  | cons m rest ih =>
      cases rest with
      | nil =>
          rw [List.intercalate_singleton]
          simp
      | cons n rest =>
          rw [List.intercalate_cons_cons, Text.byteLen_append, Text.byteLen_append, List.map_cons,
            List.sum_cons, show Text.byteLen [','] = 1 from rfl]
          omega

theorem byteLen_int {x : Int} (hlo : -2 ^ 63 ≤ x) (hhi : x ≤ 2 ^ 63 - 1) :
    Text.byteLen x.repr.toList ≤ 20 := by
  cases x with
  | ofNat n =>
      have hn : (n : Int) ≤ 2 ^ 63 - 1 := hhi
      have := Text.byteLen_repr (n := n) (k := 19) (by decide) (by omega)
      show Text.byteLen n.repr.toList ≤ 20
      omega
  | negSucc n =>
      have := Text.byteLen_repr (n := n + 1) (k := 19) (by decide) (by omega)
      have hminus : Text.byteLen "-".toList = 1 := rfl
      show Text.byteLen ("-" ++ (n + 1).repr).toList ≤ 20
      rw [String.toList_append, Text.byteLen_append]
      omega

/-- The claims of a profile are short. -/
theorem byteLen_claims (h : p.issuable) {exp : Int} (hlo : -2 ^ 63 ≤ exp) (hhi : exp ≤ 2 ^ 63 - 1) :
    Text.byteLen (p.claims exp).text.toList ≤ 3900 := by
  obtain ⟨hpos, hmax, hrole, husername, hfirst⟩ := h
  have hid := byteLen_int (x := p.userId) (by omega) hmax
  have hexp := byteLen_int hlo hhi
  have hsub : Text.byteLen (quoted p.userId.repr) ≤ 42 := by
    obtain ⟨n, hn⟩ := Int.eq_ofNat_of_zero_le hpos.le
    have hplain : p.userId.repr.toList.any Text.isControl = false := by
      rw [hn, List.any_eq_false]
      intro c hc
      have := List.all_eq_true.mp (Text.all_digits_repr n) c hc
      simp only [Text.isDigit, Bool.and_eq_true, decide_eq_true_eq, Char.le_def,
        UInt32.le_iff_toNat_le] at this
      have hlo : 48 ≤ c.toNat := this.1
      have hhi : c.toNat ≤ 57 := this.2
      simp only [Text.isControl, Bool.or_eq_true, Bool.and_eq_true, decide_eq_true_eq]
      omega
    have := byteLen_quoted hplain
    omega
  have hrole' : Text.byteLen (quoted p.role) ≤ 258 := by
    simp only [validRole, Bool.and_eq_true, decide_eq_true_eq, Bool.not_eq_true'] at hrole
    have := byteLen_quoted hrole.2
    omega
  have hbrace : ∀ t : Text.Str, Text.byteLen ('\x7b' :: t ++ ['\x7d']) = Text.byteLen t + 2 := by
    intro t
    rw [List.cons_append, Text.byteLen_cons, Text.byteLen_append]
    have h1 : '\x7b'.utf8Size = 1 := rfl
    have h2 : Text.byteLen ['\x7d'] = 1 := rfl
    omega
  unfold TokenClaims.text
  rw [String.toList_ofList, hbrace]
  refine Nat.le_trans (Nat.add_le_add_right (byteLen_joined _) 2) ?_
  have k1 : Text.byteLen (quoted "sub") = 5 := by decide +kernel
  have k2 : Text.byteLen (quoted "role") = 6 := by decide +kernel
  have k3 : Text.byteLen (quoted "exp") = 5 := by decide +kernel
  have k4 : Text.byteLen (quoted "username") = 10 := by decide +kernel
  have k5 : Text.byteLen (quoted "first_name") = 12 := by decide +kernel
  simp only [JwtProfile.claims]
  cases hu : p.username.filter (· ≠ "") with
  | none =>
      cases hf : p.firstName.filter (· ≠ "") with
      | none =>
          simp [byteLen_member]
          omega
      | some f =>
          have := byteLen_name hfirst hf
          simp [byteLen_member]
          omega
  | some u =>
      have := byteLen_name husername hu
      cases hf : p.firstName.filter (· ≠ "") with
      | none =>
          simp [byteLen_member]
          omega
      | some f =>
          have := byteLen_name hfirst hf
          simp [byteLen_member]
          omega

/-- **A token that is issued names its user until it expires.** -/
theorem verify_issued [Hmac] [JsonReader] {now : Int} {token : String}
    (h : issueToken config p now = some token) (hmax : p.userId ≤ 2 ^ 63 - 1)
    (hnow : -2 ^ 63 ≤ now) (hmac : ∀ k m, (Hmac.tag k m).length = 32)
    (hheader : JsonReader.parse headerText = some headerJson)
    (hclaims : JsonReader.parse (p.claims (now + config.tokenTtlSecs)).text =
      some (p.claims (now + config.tokenTtlSecs)).json) (later : Int) :
    verifyToken config token later =
      if now + config.tokenTtlSecs ≤ later then none else some p.userId := by
  simp only [issueToken, Option.bind_eq_bind, Option.bind_none] at h
  split at h
  · cases h
  rename_i hchecks
  split at h
  · cases h
  rename_i hexp
  obtain rfl := Option.some.inj h
  simp only [Bool.or_eq_true, Bool.not_eq_true', decide_eq_true_eq, not_or, Bool.not_eq_false,
    Int.not_le] at hchecks
  obtain ⟨⟨⟨hpos, hrole⟩, husername⟩, hfirst⟩ := hchecks
  have hp : p.issuable := ⟨hpos, hmax, hrole, husername, hfirst⟩
  have hlo : -2 ^ 63 ≤ now + config.tokenTtlSecs := by omega
  have hhi : now + config.tokenTtlSecs ≤ 2 ^ 63 - 1 := by omega
  rw [verify_signed _ (byteLen_claims hp hlo hhi) hmac hheader hclaims (depth_claims _) _ rfl,
    claimant_claims hp hlo hhi]
  intro he
  have := congrArg String.toList he
  simp [TokenClaims.text] at this

end YoinkCore.Auth
