import YoinkCore.Downloads.Credentials
import YoinkCore.Downloads.CookieDomain

/-!
# Accounts behind a cookie jar

Which account a jar belongs to is read from the names of its cookies: a label to show,
and the session by which uploads of the same account are told to be one.
-/

namespace YoinkCore.Downloads

open Lib Domain Worker

/-- The value each cookie of a jar was last given. -/
def jarValue (content : String) (key : String) : Option Text.Str :=
  ((Text.lines content.toList).filter fun l =>
      httpOnlyPrefix.isPrefixOf l || !"#".toList.isPrefixOf l).foldl
    (fun found l =>
      match Text.split '\t' l with
      | [_, _, _, _, _, name, value] => if name = key.toList then some value else found
      | _ => found) none

/-- The names of the cookies of a jar. -/
def jarNames (content : String) : List Text.Str :=
  ((Text.lines content.toList).filter fun l =>
      httpOnlyPrefix.isPrefixOf l || !"#".toList.isPrefixOf l).filterMap fun l =>
    match Text.split '\t' l with
    | [_, _, _, _, _, name, _] => some name
    | _ => none

/-- The domain of a site, or a domain below it. -/
def isSite (domain base : String) : Bool :=
  domain == base || ('.' :: base.toList).isSuffixOf domain.toList

def authenticated (content : String) (keys : List String) : Option String :=
  if keys.any fun k => (jarValue content k).isSome then some "authenticated" else none

/-- The label of an account that has an identifier of its own. -/
def identityLabel (content identity : String) (hints : List String) : Option String :=
  match jarValue content identity with
  | some uid =>
      let uid := Text.replace "u=".toList [] (Text.replace "u%3D".toList [] uid)
      some (String.ofList ("uid:".toList ++ uid.take (if identity = "uid_tt" then 16 else 124)))
  | none => authenticated content hints

def googleLabel (content : String) : Option String :=
  match jarValue content "HSID" with
  | some h =>
      let zone := (jarValue content "PREF").bind fun pref =>
        (Text.split '&' pref).findSome? (Text.stripPrefix "tz=".toList)
      let shown := match zone with
        | some tz => " (".toList ++ Text.replace ['.'] ['/'] tz ++ [')']
        | none => []
      some (String.ofList (("HSID:".toList ++ h.take 7 ++ shown).take 128))
  | none => authenticated content ["SAPISID", "__Secure-1PSID", "SID"]

/-- A hint at the account a jar belongs to. -/
def label (domain content : String) : Option String :=
  if isSite domain "youtube.com" || isSite domain "google.com" then googleLabel content
  else if isSite domain "instagram.com" then
    identityLabel content "ds_user_id" ["sessionid"]
  else if isSite domain "twitter.com" || isSite domain "x.com" then
    identityLabel content "twid" ["auth_token"]
  else if isSite domain "tiktok.com" then identityLabel content "uid_tt" ["sid_tt"]
  else if isSite domain "facebook.com" then identityLabel content "c_user" ["xs"]
  else if isSite domain "reddit.com" then
    authenticated content ["token_v2", "reddit_session"]
  else if (jarNames content).any fun name =>
      ["sessionid", "session", "auth_token", "access_token", "token", "sid"].contains
        (String.ofList (name.map Text.toLower)) then some "authenticated"
  else none

/-- The cookie that tells the accounts of a site apart. -/
def rawSession (domain content : String) : Option String :=
  let keys :=
    if isSite domain "youtube.com" || isSite domain "google.com" then
      ["SAPISID", "__Secure-3PAPISID"]
    else if isSite domain "instagram.com" then ["ds_user_id", "sessionid"]
    else if isSite domain "twitter.com" || isSite domain "x.com" then ["twid", "auth_token"]
    else if isSite domain "tiktok.com" then ["uid_tt", "sid_tt"]
    else if isSite domain "facebook.com" then ["c_user", "xs"]
    else ["sessionid", "session_id", "auth_token", "access_token", "sid"]
  (keys.findSome? (jarValue content)).map String.ofList

end YoinkCore.Downloads
