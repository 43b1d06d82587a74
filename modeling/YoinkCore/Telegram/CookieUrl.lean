import YoinkCore.Downloads.CookieDomain
import YoinkCore.Lib.Addresses
import YoinkCore.Lib.Bytes

/-!
# Cookies behind a URL

The cookies of an account are fetched from a URL. Every hop is checked again: its spelling, its
host, and the addresses the host has at that time, to which the connection is pinned. Addresses that
are not public are reached as configured origins only.
-/

namespace YoinkCore.Telegram.CookieUrl

open Lib Lib.Text Lib.HostName Domain Storage

/-- What is also asked of a URL. -/
class CookiePlatform extends Downloads.HostPlatform where
  portOrKnownDefault : Url → Option Nat
  join : Url → String → Option Url

def maxBytes : Nat := 512 * 1024

def maxUrl : Nat := 4096

def redirects : Nat := 5

/-! ## Addresses -/

inductive IpAddr where
  | v4 (address : Nat)
  | v6 (segments : List Nat)
deriving DecidableEq

structure SocketAddr where
  ip : IpAddr
  port : Nat
deriving DecidableEq

/-- The address of a host that is one. -/
def ipOf : Host → Option IpAddr
  | .ipv4 address => some (.v4 address)
  | .ipv6 segments => some (.v6 segments)
  | .domain _ => none

def hostText : IpAddr → Str
  | .v4 address => showIpv4 address
  | .v6 segments => '[' :: showIpv6 segments ++ [']']

/-- Special-purpose allocations that are not globally reachable. -/
def blocked : List (Nat × Nat) :=
  [(0, 8), (0x0A000000, 8), (0x64400000, 10), (0x7F000000, 8), (0xA9FE0000, 16), (0xAC100000, 12),
    (0xC0000000, 24), (0xC0000200, 24), (0xC01FC400, 24), (0xC034C100, 24), (0xC0586300, 24),
    (0xC0A80000, 16), (0xC6120000, 15), (0xC6336400, 24), (0xCB007100, 24), (0xE0000000, 4),
    (0xF0000000, 4)]

def public4 (n : Nat) : Bool :=
  !blocked.any fun (base, p) => n &&& (2 ^ 32 - 2 ^ (32 - p)) == base

def toIpv4Mapped : List Nat → Option Nat
  | [0, 0, 0, 0, 0, 0xFFFF, hi, lo] => some (hi * 2 ^ 16 + lo)
  | _ => none

def octets (segments : List Nat) : List Nat := segments.flatMap fun s => [s / 256, s % 256]

/-- Only `2000::/3`, but for documentation, tunnels, benchmarks and the deprecated blocks. -/
def public6 (segments : List Nat) : Bool :=
  match toIpv4Mapped segments with
  | some v4 => public4 v4
  | none =>
      let octets := octets segments
      let o (i : Nat) : Nat := octets.getD i 0
      let documentation := octets.take 4 == [0x20, 0x01, 0x0D, 0xB8]
      let teredo := octets.take 4 == [0x20, 0x01, 0x00, 0x00]
      let benchmarking := octets.take 4 == [0x20, 0x01, 0x02, 0x00]
      let orchid := octets.take 3 == [0x20, 0x01, 0x00] && decide (0x10 ≤ o 3) &&
        decide (o 3 ≤ 0x2F)
      let special2001 := o 0 == 0x20 && o 1 == 0x01 && o 2 == 0 && decide (o 3 ≤ 1)
      let sixToFour := octets.take 2 == [0x20, 0x02]
      let documentation3fff := octets.take 2 == [0x3F, 0xFF] && o 2 &&& 0xF0 == 0
      let nat64Wkp := octets.take 4 == [0x00, 0x64, 0xFF, 0x9B]
      o 0 &&& 0xE0 == 0x20 && !(documentation || teredo || benchmarking || orchid || special2001 ||
        sixToFour || documentation3fff || nat64Wkp)

def isPublic : IpAddr → Bool
  | .v4 address => public4 address
  | .v6 segments => public6 segments

/-! ## Spelling -/

/-- Every `%` is followed by two digits, and no blank or control character is escaped. -/
def escapesSafe : Str → Bool
  | [] => true
  | '%' :: rest =>
      match rest with
      | hi :: lo :: _ =>
          isHexDigit hi && isHexDigit lo &&
            !(decide (digitValue hi * 16 + digitValue lo ≤ 0x20) ||
              digitValue hi * 16 + digitValue lo == 0x7F) && escapesSafe rest
      | _ => false
  | _ :: rest => escapesSafe rest

/-- What stands behind `://`, before the path. -/
def authorityOf (t : Str) : Option Str :=
  (splitOnce "://".toList t).map fun (_, rest) => rest.takeWhile fun c =>
    !(['/', '?', '#'].contains c)

section

variable [CookiePlatform]

open Platform Downloads.HostPlatform CookiePlatform

def safeUrl (input : Str) : Option Url :=
  if decide (maxUrl < byteLen input) || input.isEmpty ||
    input.any (fun c => isWhitespace c || isControl c) || !escapesSafe input then none
  else (parseUrl (String.ofList input)).bind fun u =>
    (authorityOf input).bind fun authority =>
      if authority.contains '@' || !(["http", "https"].contains (scheme u)) ||
        !(username u).isEmpty || (password u).isSome || (fragment u).isSome || (host u).isNone then
          none
      else some u

/-! ## Configuration -/

structure CookieUrlConfig where
  timeout : Duration
  privateOrigins : List String

/-- `rsplit_once` at a text. -/
def rsplitText (p t : Str) : Option (Str × Str) :=
  (splitOnce p.reverse t.reverse).map fun (after, before) => (before.reverse, after.reverse)

def portText (authority : Str) : Option Str :=
  if authority.head? = some '[' then (rsplitText "]:".toList authority).map Prod.snd
  else (rsplitOnce ':' authority).map Prod.snd

/-- An origin with an address and a port. -/
def originText (scheme : String) (ip : IpAddr) (port : Nat) : Str :=
  scheme.toList ++ "://".toList ++ hostText ip ++ ':' :: decimal port

/-- A private origin as it is kept, if it is spelled like that. -/
def canonicalOrigin (origin : String) : Option String :=
  (parseUrl origin).bind fun u =>
    ((host u).bind ipOf).bind fun ip =>
      (authorityOf origin.toList).bind fun authority =>
        ((portText authority).bind (parseUnsigned 65535)).bind fun port =>
          if port == 0 || authority.contains '@' || !(["http", "https"].contains (scheme u)) ||
            !(username u).isEmpty || (password u).isSome || (query u).isSome ||
              (fragment u).isSome ||
            !(["/", ""].contains (path u)) then none
          else
            let canonical := originText (scheme u) ip port
            if origin.toList != canonical && origin.toList != canonical ++ ['/'] then none
            else some (String.ofList canonical)

def CookieUrlConfig.new (timeout : Duration) (privateOrigins : List String) :
    Option CookieUrlConfig :=
  if !(decide (1 ≤ timeout.asSecs) && decide (timeout.asSecs ≤ 60)) || timeout.subsecNanos != 0 ||
    decide (16 < privateOrigins.length) then none
  else (privateOrigins.mapM canonicalOrigin).map fun origins => ⟨timeout, origins⟩

/-- The URL has an address that is not public, but is configured. -/
def privateException (url : Url) (cfg : CookieUrlConfig) : Bool :=
  ((host url).bind ipOf).any fun ip =>
    cfg.privateOrigins.any (fun o => (parseUrl o).any fun x =>
      scheme x == scheme url && decide (host x = host url) &&
        portOrKnownDefault x == portOrKnownDefault url) && !isPublic ip

/-! ## Redirects -/

def redirectTarget (current : Url) (location : Str) : Option Url :=
  if location.isEmpty || location.any (fun c => isWhitespace c || isControl c) ||
    !escapesSafe location || (authorityOf location).any (·.contains '@') then none
  else (join current (String.ofList location)).bind fun resolved => safeUrl resolved.asStr.toList

def redirectStatus (status : Nat) : Bool := [301, 302, 303, 307, 308].contains status

def validatedRedirect (current : Url) (status : Nat) (location : Str) : Option Url :=
  if !redirectStatus status then none
  else (redirectTarget current location).bind fun next =>
    if scheme current == "https" && scheme next == "http" then none else some next

/-! ## Requests -/

/-- A request, and the addresses the connection is pinned to. -/
structure Request where
  url : Url
  host : String
  addrs : List SocketAddr

structure Response where
  status : Nat
  /-- The header, if it is there and shows as text. -/
  location : Option Str
  contentLength : Option Nat
  contentEncoding : Option (List UInt8)
  /-- What is read, up to an error. -/
  chunks : List (Option (List UInt8))

/-- What the outside answers, hop by hop. -/
structure Network where
  lookup : Nat → Str → Nat → Option (List SocketAddr)
  /-- Whether a client is built. -/
  builds : Nat → Request → Bool
  send : Nat → Request → Option Response

def validateResolution (found : List SocketAddr) : Option (List SocketAddr) :=
  if found.isEmpty || found.any (fun s => !isPublic s.ip) then none else some found

def resolve (net : Network) (hop : Nat) (url : Url) : Option (List SocketAddr) :=
  (portOrKnownDefault url).bind fun port =>
    (host url).bind fun
      | .ipv4 address => some [⟨.v4 address, port⟩]
      | .ipv6 segments => some [⟨.v6 segments, port⟩]
      | .domain name => (net.lookup hop name port).bind validateResolution

/-- The request of a hop. -/
def requestOf (cfg : CookieUrlConfig) (net : Network) (hop : Nat) (url : Url) : Option Request :=
  (resolve net hop url).bind fun addrs =>
    if !privateException url cfg && addrs.any (fun s => !isPublic s.ip) then none
    else (hostStr url).bind fun host =>
      if net.builds hop ⟨url, host, addrs⟩ then some ⟨url, host, addrs⟩ else none

def readChunks (bytes : List UInt8) : List (Option (List UInt8)) → Option (List UInt8)
  | [] => some bytes
  | none :: _ => none
  | some chunk :: rest =>
      if maxBytes < bytes.length + chunk.length then none else readChunks (bytes ++ chunk) rest

/-- `eq_ignore_ascii_case` -/
def identityEncoding (value : List UInt8) : Bool :=
  value.map (fun b => toLower (Char.ofNat b.toNat)) == "identity".toList

def readBody (response : Response) : Option String :=
  if !(decide (200 ≤ response.status) && decide (response.status < 300)) ||
    response.contentLength.any (fun n => decide (maxBytes < n)) ||
    response.contentEncoding.any (fun value => !identityEncoding value) then none
  else (readChunks [] response.chunks).bind fun bytes =>
    if bytes.isEmpty then none else Bytes.text bytes

/-- The requests of the hops that are left, and what is read at last. -/
def fetchFrom (cfg : CookieUrlConfig) (net : Network) : Nat → Url → List Request × Option String
  | left, url =>
      match requestOf cfg net (redirects - left) url with
      | none => ([], none)
      | some request =>
          match net.send (redirects - left) request with
          | none => ([request], none)
          | some response =>
              if decide (300 ≤ response.status) && decide (response.status < 400) then
                match left with
                | 0 => ([request], none)
                | left + 1 =>
                    match response.location.bind (validatedRedirect url response.status) with
                    | none => ([request], none)
                    | some next =>
                        let (requests, text) := fetchFrom cfg net left next
                        (request :: requests, text)
              else ([request], readBody response)

def fetch (source : Str) (cfg : CookieUrlConfig) (net : Network) : List Request × Option String :=
  match safeUrl source with
  | none => ([], none)
  | some url => fetchFrom cfg net redirects url

end

end YoinkCore.Telegram.CookieUrl
