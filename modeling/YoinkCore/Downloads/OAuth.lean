import YoinkCore.Downloads.Candidates
import YoinkCore.Lib.Bytes

/-!
# OAuth tokens kept as cookies

Tokens of a YouTube session are stored as the content of a cookie row, behind a prefix
that no jar begins with. A stored credential is named by its row and the digest of what
the row holds. Refreshing reads the credential, asks the provider, and writes back in a
second transaction that first compares the digests.
-/

namespace YoinkCore.Downloads

open Lib Lib.Bytes Domain Worker Storage

/-- What the program reads and writes of tokens with third-party code. -/
class OAuthPlatform extends HostPlatform where
  /-- `serde_json::from_str`. -/
  parseTokens : String → Option YoutubeOAuth
  /-- `serde_json::to_string`. -/
  printTokens : YoutubeOAuth → String
  /-- `DateTime::parse_from_rfc3339`, in microseconds. -/
  parseRfc3339 : String → Option Int

/-! ## Contents -/

def oauthContentPrefix : Text.Str := "__oauth2__".toList

def maxOauthContentBytes : Nat := 64 * 1024

section

variable [OAuthPlatform]

def decodeContent (content : String) : Except ProtocolError YoutubeOAuth :=
  if maxOauthContentBytes < Text.byteLen content.toList then .error .invalidRequest
  else
    match (Text.stripPrefix oauthContentPrefix content.toList).bind fun raw =>
        OAuthPlatform.parseTokens (String.ofList raw) with
    | none => .error .invalidRequest
    | some tokens => do
        tokens.validate
        return tokens

def encodeContent (tokens : YoutubeOAuth) : Except ProtocolError String := do
  tokens.validate
  let encoded := oauthContentPrefix ++ (OAuthPlatform.printTokens tokens).toList
  if maxOauthContentBytes < Text.byteLen encoded then .error .invalidRequest
  else return String.ofList encoded

/-- `OAuthCredentialContent::decode`. -/
def decodeCredential (content : String) : Except DownloadError YoutubeOAuth :=
  match decodeContent content with
  | .error _ => .error .invalidInput
  | .ok tokens =>
      if (OAuthPlatform.parseRfc3339 tokens.expiresAt).isSome then .ok tokens
      else .error .invalidInput

/-- `OAuthCredentialContent::encode`. -/
def encodeCredential (tokens : YoutubeOAuth) : Except DownloadError String :=
  if (OAuthPlatform.parseRfc3339 tokens.expiresAt).isSome then
    (encodeContent tokens).mapError fun _ => .invalidInput
  else .error .invalidInput

end

/-! ## Versions -/

/-- What the version of a cookie is the digest of. -/
def versionMaterial (r : CookieRow) : List UInt8 :=
  framed [r.content.toUTF8.data.toList, signedBytes 4 r.id, signedBytes 8 r.userId,
    r.domain.toUTF8.data.toList, [if r.isPool then 1 else 0], signedBytes 8 r.updatedAt]

/-- A digest as the version of a credential. -/
def digestVersion (digest : BitVec 256) : CredentialVersion where
  value := String.ofList (hexDigits 64 digest.toNat)
  hex := by
    simp only [hexVersion, String.toList_ofList, Bool.and_eq_true, decide_eq_true_eq,
      List.all_eq_true]
    exact ⟨hexDigits_length 64 _, fun c h => (mem_hexDigits h).1⟩
  lowercase := by
    rw [String.toList_ofList]
    conv_rhs => rw [← List.map_id (hexDigits 64 digest.toNat)]
    exact List.map_congr_left fun c h => (mem_hexDigits h).2

def cookieVersion [Platform] (r : CookieRow) : CredentialVersion :=
  digestVersion (Platform.sha256 (versionMaterial r))

/-- The rows hold the same credential: one has not changed since it was the other. -/
structure SameCredential (a b : CookieRow) : Prop where
  id : a.id = b.id
  userId : a.userId = b.userId
  domain : a.domain = b.domain
  content : a.content = b.content
  isPool : a.isPool = b.isPool
  updatedAt : a.updatedAt = b.updatedAt

/-- What is digested tells credentials apart. -/
theorem versionMaterial_inj {a b : CookieRow} (ha : cookieSchema.check a = true)
    (hb : cookieSchema.check b = true) (hlen : (versionMaterial a).length < 256 ^ 8)
    (h : versionMaterial a = versionMaterial b) : SameCredential a b := by
  have hparts := framed_inj (by rfl) h hlen
  simp only [List.cons.injEq, and_true] at hparts
  obtain ⟨hcontent, hid, huser, hdomain, hpool, hupdated⟩ := hparts
  simp only [cookieSchema, isI64, Bool.and_eq_true, decide_eq_true_eq] at ha hb
  have hid := signedBytes_inj hid
  have huser := signedBytes_inj huser
  have hupdated := signedBytes_inj hupdated
  refine ⟨by omega, by omega, toUTF8_inj hdomain, toUTF8_inj hcontent, ?_, by omega⟩
  cases hpa : a.isPool <;> cases hpb : b.isPool <;> simp [hpa, hpb] at hpool ⊢

/-! ## Stored credentials -/

structure OAuthReference where
  cookie : CookieReference
  kind : String
deriving DecidableEq

def credentialKind : String := "youtube_tv_oauth_v1"

def toInt32? (x : Int) : Option Int32 :=
  if -(2 ^ 31) ≤ x ∧ x ≤ 2 ^ 31 - 1 then some (Int32.ofInt x) else none

/-- The reference to a row of an actor with what it holds. -/
def reference [Platform] (user : Int) (r : CookieRow) : Except DownloadError OAuthReference :=
  match toInt32? r.id with
  | none => .error .invalidCredentials
  | some id => do
      let canonical ← CookieDomain.parse r.domain
      let version := cookieVersion { r with userId := user, isPool := false }
      let cookie ← (CookieReference.new id (UInt64.ofInt user) canonical.text false
        version).mapError fun _ => DownloadError.invalidCredentials
      return ⟨cookie, credentialKind⟩

/-- The oldest valid row of an actor for the domain of the tokens. -/
def credentialRow (rows : List CookieRow) (actor : Int) : Option CookieRow :=
  oldest (rows.filter fun r => r.isFor actor oauthDomain && r.isValid)

section

variable [OAuthPlatform]

def oauthCredential (s : Service) (db : CookieDb) (actor now : Int) :
    Except DownloadError (Option (OAuthReference × YoutubeOAuth)) := do
  webAuthorize s db actor now
  match credentialRow db.cookies.rows actor with
  | none => return none
  | some row =>
      if oauthContentPrefix.isPrefixOf row.content.toList then do
        let current ← reference actor row
        let credential ← decodeCredential row.content
        return some (current, credential)
      else return none

/-! ## Refreshing -/

/-- The row of an actor a reference names, if it still may be used. -/
def namedRow (rows : List CookieRow) (actor : Int) (id : Int32) : Option CookieRow :=
  rows.find? fun r => r.id == id.toInt && r.userId == actor && !r.isPool && r.isValid

/-- The comparison with what was read, and the write. -/
def oauthRefreshTx (s : Service) (actor : Int) (current : OAuthReference) (content : String)
    (now : Int) : CookieStmt (Outcome CookieRow) := do
  let db ← get
  result (webAuthorize s db actor now)
  match namedRow db.cookies.rows actor current.cookie.id with
  | none => throw .changedCredentials
  | some row => do
      let found ← result (reference actor row)
      if found ≠ current then throw .changedCredentials
      else if !oauthCapacity s db actor content then throw .personalCookieCapacity
      else do
        oauthStore actor content now
        return .commit (.ok row)

/-- What is read before the provider is asked. -/
def oauthRefreshRead (s : Service) (early : CookieDb) (actor : Int) (expected : OAuthReference)
    (now : Int) : Except DownloadError (OAuthReference × YoutubeOAuth) := do
  match ← oauthCredential s early actor now with
  | none => .error .changedCredentials
  | some (current, credential) =>
      if current ≠ expected then .error .changedCredentials else return (current, credential)

/-- The reference to the refreshed credential. -/
def refreshedReference (actor : Int) (row : CookieRow) (content : String) (now : Int) :
    Except DownloadError OAuthReference :=
  match fromTimestamp now with
  | none => .error .invalidInput
  | some t => reference actor { row with content := content, updatedAt := t }

/-- A refresh: the credential is read from `early` at `before`, the provider answers by
`now`, and the answer is written to `db`. -/
def oauthRefresh (s : Service) (actor : Int) (expected : OAuthReference) (before now : Int)
    (provider : YoutubeOAuth → Except DownloadError YoutubeOAuth) (early db : CookieDb) :
    Except DownloadError OAuthReference × CookieDb :=
  match oauthRefreshRead s early actor expected before with
  | .error e => (.error e, db)
  | .ok (current, credential) =>
      match provider credential >>= encodeCredential with
      | .error e => (.error e, db)
      | .ok content =>
          match transact (oauthRefreshTx s actor current content now) db with
          | (.error e, db') => (.error e, db')
          | (.ok row, db') => (refreshedReference actor row content now, db')

end

end YoinkCore.Downloads
