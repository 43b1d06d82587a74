import YoinkCore.Domain.Access
import YoinkCore.Lib.Dict

/-!
# The identity database

Users with their grants, groups with the policies of their members, what was observed of the
membership, and the settings that access depends on. A table is a dictionary under its key.
-/

namespace YoinkCore.Identity

open Lib Domain

structure UserRow where
  username : Option String
  firstName : Option String
  photoUrl : Option String
  role : Role
  language : String
  theme : String
  banUntil : Option Int
  createdAt : Int
  updatedAt : Int

/-- A grant, under its user, plugin and feature. -/
structure PermissionRow where
  grantedBy : Int
  grantedAt : Int
  expiresAt : Option Int
  grantSource : String

structure GroupRow where
  title : Option String
  enabled : Bool
  autoGrantRole : Role
  allowPm : Bool
  nsfwAllowed : Bool
  storageChatId : Option Int
  storageThreadId : Option Int

/-- The policy of a member, under the user and the group. -/
structure PolicyRow where
  roleOverride : Option Role
  allowPmOverride : Option Bool

structure ThreadRow where
  groupId : Int
  threadId : Option Int
  enabled : Bool

/-- The last observation of a bot, under its source and group. -/
structure BotRow where
  occurredAt : Int
  updateId : Nat
  payload : String
  present : Bool
  generation : Nat

/-- The last observation of a member, under its source, group and user. -/
structure MemberRow where
  occurredAt : Int
  updateId : Nat
  payload : String
  present : Bool
  generation : Nat
  tag : Option String
  tagGeneration : Nat

structure ByokRow where
  apiKey : String
  testedAt : Option Int
  testError : Option String

/-- The policies of a group go with it. -/
structure IdentityDb where
  users : Dict Int UserRow
  permissions : Dict (Int × String × String) PermissionRow
  settings : Dict String (Option String)
  groups : Dict Int GroupRow
  policies : Dict (Int × Int) PolicyRow
  threads : List ThreadRow
  bots : Dict (Int × Int) BotRow
  members : Dict (Int × Int × Int) MemberRow
  groupSuppressions : List Int
  featureSuppressions : List (Int × String × String)
  byok : Dict Int ByokRow
  policyGroup : ∀ key p, policies.lookup key = some p → (groups.lookup key.2).isSome = true

namespace IdentityDb

/-- The value of a setting, if it has one. -/
def setting (db : IdentityDb) (key : String) : Option String := (db.settings.lookup key).join

/-- The grants of a user. -/
def grants (db : IdentityDb) (user : Int) : List Grant :=
  (db.permissions.entries.filter fun e => decide (e.1.1 = user)).map fun e =>
    ⟨e.1.2.1, e.1.2.2, e.2.expiresAt⟩

/-- `membership_active_tags`: the tags of the memberships that are confirmed. -/
def activeTags (db : IdentityDb) (user : Int) : List String :=
  db.members.entries.filterMap fun e =>
    let (source, group, member) := e.1
    if decide (member = user) && (db.groups.lookup group).any (·.enabled) && e.2.present &&
        (db.bots.lookup (source, group)).any (fun b =>
          b.present && decide (e.2.generation = b.generation) &&
            decide (e.2.tagGeneration = b.generation)) &&
        !(db.bots.entries.any fun b => decide (b.1.2 = group) && !b.2.present) &&
        !db.groupSuppressions.contains group then e.2.tag
    else none

/-- A bot of the group, or the member in it, is known to be gone. -/
def knownGone (db : IdentityDb) (user group : Int) : Bool :=
  (db.bots.entries.any fun b => decide (b.1.2 = group) && !b.2.present) ||
    db.members.entries.any fun e =>
      decide (e.1.2.1 = group) && decide (e.1.2.2 = user) &&
        (!e.2.present ||
          (db.bots.lookup (e.1.1, group)).any fun b => decide (e.2.generation ≠ b.generation))

/-- The topic: its own policy, or none is listed. -/
def threadAllowed (db : IdentityDb) (group : Int) (thread : Option Int) : Bool :=
  let own := db.threads.find? fun r => decide (r.groupId = group) && decide (r.threadId = thread)
  (own.map (·.enabled)).getD !(db.threads.any fun r => decide (r.groupId = group) && r.enabled)

end IdentityDb

end YoinkCore.Identity
