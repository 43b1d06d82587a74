import YoinkCore.Platform
import YoinkCore.Domain.DownloaderSettings

/-!
# Worker credentials

What a worker is given to reach the network with: a proxy, and a cookie jar or the
tokens of a YouTube session. `validate` is the check on the worker's side of the
boundary; it reads the jar without knowing what wrote it.
-/

namespace YoinkCore.Worker

open Lib Domain

variable [Platform]

inductive ProtocolError where
  | frameTooLarge
  | invalidRequest
  | invalidSearchRequest
  | invalidEvent
  | invalidMessage
  | encodeFailed
deriving DecidableEq

def maxFrameBytes : Nat := 1024 * 1024

def protocolVersion : Nat := 2

def maxProxyUrlBytes : Nat := 4096

def maxCookieJarBytes : Nat := 512 * 1024

def maxOauthTokenBytes : Nat := 16384

def refuse (invalid : Bool) : Except ProtocolError Unit :=
  if invalid then .error .invalidRequest else .ok ()

omit [Platform] in
@[simp] theorem refuse_eq_ok {invalid : Bool} : refuse invalid = .ok () ↔ invalid = false := by
  cases invalid <;> simp [refuse]

/-! ## YouTube sessions -/

structure YoutubeOAuth where
  accessToken : String
  refreshToken : String
  expiresAt : String
deriving DecidableEq

def YoutubeOAuth.validate (o : YoutubeOAuth) : Except ProtocolError Unit :=
  let badToken (s : String) : Bool :=
    s.toList.isEmpty || decide (maxOauthTokenBytes < Text.byteLen s.toList) ||
      s.toList.any Text.isControl
  refuse (badToken o.accessToken || badToken o.refreshToken || o.expiresAt.toList.isEmpty ||
    decide (64 < Text.byteLen o.expiresAt.toList) || o.expiresAt.toList.any Text.isControl)

/-! ## Proxies and cookie jars -/

/-- An `http` or `https` URL that names a host and nothing behind it. -/
def proxyUrlOk (text : String) (url : Url) : Bool :=
  (Platform.scheme url == "http" || Platform.scheme url == "https") &&
    (Platform.hostStr url).any (fun host => !host.toList.isEmpty) &&
    (Text.splitOnce "://".toList text.toList).any (fun (_, a) => !"/".toList.isPrefixOf a) &&
    (Platform.path url == "" || Platform.path url == "/") &&
    (Platform.query url).isNone && (Platform.fragment url).isNone

/-- A text of bounded length whose URL names a proxy. -/
def proxyOk (maxBytes : Nat) (text : String) : Bool :=
  !text.toList.isEmpty && decide (Text.byteLen text.toList ≤ maxBytes) &&
    !text.toList.any Text.isControl && (Platform.parseUrl text).any (proxyUrlOk text)

omit [Platform] in
/-- Control characters other than those that lay a jar out. -/
def jarControl (c : Char) : Bool :=
  Text.isControl c && !(c == '\t' || c == '\r' || c == '\n')

omit [Platform] in
/-- A jar of bounded length without stray control characters. -/
def jarText (jar : String) : Bool :=
  !jar.toList.isEmpty && decide (Text.byteLen jar.toList ≤ maxCookieJarBytes) &&
    !jar.toList.any jarControl

omit [Platform] in
def httpOnlyPrefix : Text.Str := "#HttpOnly_".toList

omit [Platform] in
/-- The lines of a jar the worker reads as records. -/
def isRecordLine (line : Text.Str) : Bool :=
  !line.isEmpty && (!"#".toList.isPrefixOf line || httpOnlyPrefix.isPrefixOf line)

omit [Platform] in
def isFlag (field : Text.Str) : Bool := field == "TRUE".toList || field == "FALSE".toList

omit [Platform] in
/-- The seven fields of a record, as the worker checks them. -/
def recordOk (line : Text.Str) : Bool :=
  match Text.split '\t' line with
  | [domain, subdomains, path, secure, expiry, name, _] =>
      !domain.isEmpty && !path.isEmpty && (Text.parseUnsigned u64Max expiry).isSome &&
        !name.isEmpty && isFlag subdomains && isFlag secure
  | _ => false

omit [Platform] in
def jarOk (jar : String) : Bool :=
  jarText jar && ((Text.lines jar.toList).filter isRecordLine).all recordOk

/-- Transient credentials of one worker run. -/
structure NetworkCredentials where
  proxyUrl : Option String
  cookieJar : Option String
  youtubeOauth : Option YoutubeOAuth
deriving DecidableEq

omit [Platform] in
/-- Tokens stand alone, without a cookie jar. -/
def NetworkCredentials.checkSession (c : NetworkCredentials) : Except ProtocolError Unit :=
  match c.youtubeOauth with
  | some oauth => do
      oauth.validate
      refuse c.cookieJar.isSome
  | none => .ok ()

def NetworkCredentials.validate (c : NetworkCredentials) : Except ProtocolError Unit := do
  c.checkSession
  refuse (c.proxyUrl.any fun proxy => !proxyOk maxProxyUrlBytes proxy)
  refuse (c.cookieJar.any fun jar => !jarOk jar)

end YoinkCore.Worker
