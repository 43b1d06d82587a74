import YoinkCore.Domain.Access
import YoinkCore.Downloads.OAuth

/-!
# Refresh before admission

Before the network of a download is chosen, expired tokens of its actor are exchanged.
The reads run one statement at a time, with whatever happens to the database between
them; the write is one transaction that compares the version of the row.
-/

namespace YoinkCore.Downloads

open Lib Domain Worker

/-- Whom and what a download reaches the network for, and the lists it is judged by. -/
structure NetworkContext where
  actorId : UInt64
  domain : String
  noCookieDomains : List String
  identity : IdentitySnapshot
  systemProxyDomains : List String
  systemProxy : Option String

def validActor (actor : UInt64) : Except ProfileError Int :=
  if 0 < actor.toNat ∧ actor.toNat ≤ i64Max then .ok actor.toNat else .error .unavailable

def validateIdentity (identity : IdentitySnapshot) (actor : Int) : Except ProfileError Unit :=
  if identity.principal.userId ≠ actor then .error .unavailable
  else if identity.principal.isBlocked identity.now then .error .sharedAccessDenied
  else .ok ()

def validateAuthMode (mode : String) : Except ProfileError Unit :=
  if ["cookies", "oauth", "oauth2"].contains mode then .ok () else .error .invalidPreferences

def isOauthMode (mode : String) : Bool := ["oauth", "oauth2"].contains mode

/-- Contents that are tokens, in the present or an older form. -/
def isOauth (value : String) : Bool :=
  let t := value.toList.dropWhile Text.isWhitespace
  oauthContentPrefix.isPrefixOf t || "\x7b\"__oauth2__\"".toList.isPrefixOf t

/-- `cookie_by_id.sql`: a content above the bound is read as `NULL`. -/
def cookieById (rows : List CookieRow) (id : Int) (maxBytes : Nat) :
    Option (CookieRow × Option String) :=
  (rows.find? fun r => r.id == id).map fun r =>
    (r, if r.bytes ≤ maxBytes then some r.content else none)

section

variable [HostPlatform]

def matchesNoCookieDomain (target : String) : List String → Except ProfileError Bool
  | [] => .ok false
  | pattern :: patterns => do
      let site ← normalizeDomain pattern
      if domainMatch target site then return true
      else matchesNoCookieDomain target patterns

end

variable [OAuthPlatform]

/-- `oauth::decode`. -/
def decodeTokens (content : String) : Except ProfileError YoutubeOAuth :=
  match decodeContent content with
  | .error _ => .error .invalidCookie
  | .ok tokens =>
      if (OAuthPlatform.parseRfc3339 tokens.expiresAt).isSome then .ok tokens
      else .error .invalidCookie

/-- Tokens that stay valid for more than half a minute. -/
def requireFresh (tokens : YoutubeOAuth) (now : Int) : Except ProfileError Unit :=
  match OAuthPlatform.parseRfc3339 tokens.expiresAt with
  | none => .error .invalidCookie
  | some expiry => if expiry ≤ now + 30 * 1000000 then .error .staleReference else .ok ()

/-! ## Reading -/

/-- Tokens to be exchanged: the row they were read from, and their holder's role. -/
structure StaleTokens where
  row : CookieRow
  tokens : YoutubeOAuth
  role : String

/-- What a candidate turns out to hold. -/
inductive Inspected where
  | other
  | fresh
  | stale (row : CookieRow) (tokens : YoutubeOAuth)

/-- The host of a row that is still valid and personal to the actor. -/
def personalSite (actor : Int) (row : CookieRow) : Except ProfileError String :=
  if row.userId ≠ actor || row.isPool || !row.isValid then .error .staleReference
  else normalizeDomain row.domain

def inspectRow (actor now : Int) (row : CookieRow) (content : Option String) :
    Except ProfileError Inspected := do
  let site ← personalSite actor row
  if site ≠ "youtube.com" then .error .staleReference
  else
    match content with
    | none => .error .invalidCookie
    | some content =>
        if !isOauth content then return .other
        else do
          let tokens ← decodeTokens content
          match requireFresh tokens now with
          | .ok () => return .fresh
          | .error _ => return .stale row tokens

def inspect (db : CookieDb) (actor now : Int) (c : Candidate) : Except ProfileError Inspected :=
  match cookieById db.cookies.rows c.id maxOauthContentBytes with
  | none => .error .staleReference
  | some (row, content) => inspectRow actor now row content

/-- The `k`th statement sees the database `reads k` at the time `clock k`. -/
def inspectAll (reads : Nat → CookieDb) (clock : Nat → Int) (actor : Int) :
    Nat → List Candidate → Except ProfileError (Nat × Inspected)
  | k, [] => .ok (k, .other)
  | k, c :: cs =>
      match inspect (reads k) actor (clock k) c with
      | .error e => .error e
      | .ok .other => inspectAll reads clock actor (k + 1) cs
      | .ok found => .ok (k + 1, found)

/-- The role under which an actor may have tokens refreshed. -/
def refreshRole (db : CookieDb) (actor now : Int) : Option String :=
  if (db.settings actor).any fun s => isOauthMode s.youtubeAuthMode then
    ((db.users actor).filter fun u =>
      u.role != "banned" && u.banUntil.all fun t => decide (t ≤ now)).map User.role
  else none

/-- The tokens that have to be exchanged, if there are any. -/
def refreshRead (reads : Nat → CookieDb) (clock : Nat → Int) (context : NetworkContext) :
    Except ProfileError (Option StaleTokens) := do
  let target ← normalizeDomain context.domain
  if target ≠ "youtube.com" then return none
  else
    let actor ← validActor context.actorId
    validateIdentity context.identity actor
    match (reads 0).settings actor with
    | none => return none
    | some settings =>
        if !isOauthMode settings.youtubeAuthMode then return none
        else
          let bypass ← matchesNoCookieDomain "youtube.com" context.noCookieDomains
          if bypass then return none
          else
            let candidates ← cookieCandidates (reads 1).cookies.rows actor "youtube.com" false
            match ← inspectAll reads clock actor 2 candidates with
            | (_, .other) | (_, .fresh) => return none
            | (k, .stale row tokens) =>
                match refreshRole (reads k) actor (clock k) with
                | none => .error .sharedAccessDenied
                | some role => return some ⟨row, tokens, role⟩

/-! ## Writing -/

abbrev ProfileStmt (α : Type) := Tx CookieDb ProfileError α

/-- The rows the comparing `UPDATE` writes to. -/
def unchanged (actor : Int) (read : StaleTokens) (db : CookieDb) (now : Int) (r : CookieRow) :
    Bool :=
  r.id == read.row.id && r.updatedAt == read.row.updatedAt && decide (0 ≤ r.updatedAt) &&
    decide (r.updatedAt < 2 ^ 63 - 1) && r.userId == actor && r.isValid && !r.isPool &&
    refreshRole db actor now == some read.role

def exchange (content : String) (now : Int) (r : CookieRow) : CookieRow :=
  { r with content := content, updatedAt := max (r.updatedAt + 1) now }

/-- The row is still the one that was read. -/
def checkCurrent (actor : Int) (read : StaleTokens) (db : CookieDb) : Except ProfileError Unit :=
  match cookieById db.cookies.rows read.row.id maxOauthContentBytes with
  | none => .error .staleReference
  | some (_, none) => .error .staleReference
  | some (row, some _) =>
      if !row.isValid || row.userId ≠ actor || row.isPool ||
          cookieVersion row ≠ cookieVersion read.row then
        .error .staleReference
      else .ok ()

def refreshWriteTx (actor : Int) (read : StaleTokens) (replacement : String) (now : Int) :
    ProfileStmt (Ended Unit) := do
  let db ← get
  match checkCurrent actor read db with
  | .error e => throw e
  | .ok () =>
      match db.cookies.update (unchanged actor read db now) (exchange replacement now) with
      | none => throw .database
      | some (cookies, n) =>
          if n = 0 then throw .staleReference
          else do
            set { db with cookies }
            return .commit ()

/-- What is written for the tokens the provider gave in exchange. -/
def replacement (tokens : YoutubeOAuth) (now : Int) : Except ProfileError String := do
  requireFresh tokens now
  let content ← (encodeContent tokens).mapError fun _ => ProfileError.invalidCookie
  let _ ← decodeTokens content
  return content

/-- A refresh before admission. The reads see `reads` at `clock`; without a provider
tokens cannot be exchanged. The answer came at `answered` and is written to `db` at
`now`. -/
def refreshBeforeAdmission (reads : Nat → CookieDb) (clock : Nat → Int)
    (context : NetworkContext)
    (provider : Option (YoutubeOAuth → Except ProfileError YoutubeOAuth))
    (answered now : Int) (db : CookieDb) : Except ProfileError Unit × CookieDb :=
  match refreshRead reads clock context with
  | .error e => (.error e, db)
  | .ok none => (.ok (), db)
  | .ok (some read) =>
      match provider with
      | none => (.error .unsupportedAuthentication, db)
      | some exchange =>
          match exchange read.tokens >>= fun tokens => replacement tokens answered with
          | .error e => (.error e, db)
          | .ok content => Tx.run (refreshWriteTx context.actorId.toNat read content now) db

end YoinkCore.Downloads
