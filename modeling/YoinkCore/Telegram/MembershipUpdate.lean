import YoinkCore.Identity.Profile

/-!
# Membership updates

What an update says of a member of a group, read from the original document.
-/

namespace YoinkCore.Telegram

open Lib
open Identity (TrustedProfile)

structure MembershipUpdate where
  updateId : Nat
  /-- In seconds. -/
  occurredAt : Int
  groupId : Int
  title : Option String
  botSubject : Bool
  profile : TrustedProfile
  status : String
  present : Bool
  tag : Option String
deriving DecidableEq

/-- `optional_text` -/
def optionalText (object : Json) (key : String) : Option (Option String) :=
  match object.member? key with
  | none | some .null => some none
  | some (.str value) => some (some value)
  | some _ => none

/-- Whether a member with this status is present. -/
def presentOf (member : Json) (status : String) : Option Bool :=
  if status = "creator" ∨ status = "administrator" ∨ status = "member" then some true
  else if status = "restricted" then (member.member? "is_member").bind Json.asBool
  else if status = "left" ∨ status = "kicked" then some false
  else none

/-- An event about a member, in a group. -/
def memberOf (update event chat : Json) (botSubject : Bool) (botId : Int) :
    Option (Option MembershipUpdate) := do
  let updateId ← (update.member? "update_id").bind (Json.asNat (2 ^ 32 - 1))
  let groupId ← ((chat.member? "id").bind Json.asI64).filter (· < 0)
  let title ← optionalText chat "title"
  if title.any fun t => 256 < t.toList.length then none
  let occurredAt ← ((event.member? "date").bind Json.asI64).filter fun date =>
    0 ≤ date && date ≤ 8210266876799
  let new ← event.member? "new_chat_member"
  let old ← event.member? "old_chat_member"
  let subject ← new.member? "user"
  let userId ← ((subject.member? "id").bind Json.asI64).filter (0 < ·)
  if ((old.member? "user").bind (·.member? "id")).bind Json.asI64 ≠ some userId then none
  let isBot ← (subject.member? "is_bot").bind Json.asBool
  if botSubject && (userId ≠ botId || !isBot) then none
  if !botSubject && isBot then some none
  else do
    let status ← (new.member? "status").bind Json.asStr
    let present ← presentOf new status
    let tag ← optionalText new "tag"
    let username ← optionalText subject "username"
    let firstName ← optionalText subject "first_name"
    some (some
      { updateId, occurredAt, groupId, title, botSubject
        profile := ⟨userId, username, firstName, none⟩
        status, present
        tag := tag.filter (· ≠ "") })

/-- The event of an update, in a chat of some type. -/
def eventOf (update event : Json) (botSubject : Bool) (botId : Int) :
    Option (Option MembershipUpdate) := do
  let chat ← event.member? "chat"
  let type := (chat.member? "type").bind Json.asStr
  if type = some "private" ∨ type = some "channel" then some none
  else if type = some "group" ∨ type = some "supergroup" then
    memberOf update event chat botSubject botId
  else none

/-- `parse` of a membership update; nothing stands for an invalid one. -/
def parseMembership (update : Json) (botId : Int) : Option (Option MembershipUpdate) :=
  match update.member? "my_chat_member", update.member? "chat_member" with
  | some _, some _ => none
  | some event, none => eventOf update event true botId
  | none, some event => eventOf update event false botId
  | none, none => some none

end YoinkCore.Telegram
