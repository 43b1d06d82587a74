import YoinkCore.Identity.Snapshot

/-!
# Administration

What administrators do to users, grants, groups and the policies of members. A call is one
transaction, which first reads who the actor is.
-/

namespace YoinkCore.Identity

open Lib Domain
open Insight (JsonReader)

inductive AdminError where
  | unauthorized
  | forbidden
  | notFound
  | conflict
  | invalidInput
  | unavailable
deriving DecidableEq

/-! ## Statements -/

namespace IdentityDb

def putUser (db : IdentityDb) (id : Int) (row : UserRow) : IdentityDb :=
  { db with users := db.users.insert id row }

def insertGroup (db : IdentityDb) (id : Int) (row : GroupRow) : IdentityDb :=
  { db with
    groups := db.groups.insert id row
    policyGroup := by
      intro key p hp
      rw [Dict.lookup_insert_eq]
      split
      · rfl
      · exact db.policyGroup key p hp }

/-- The row of a group goes with its policies and its topics. -/
def eraseGroup (db : IdentityDb) (id : Int) : IdentityDb :=
  { db with
    groups := db.groups.erase id
    policies := db.policies.retain fun key _ => decide (key.2 ≠ id)
    threads := db.threads.filter fun r => decide (r.groupId ≠ id)
    policyGroup := by
      intro key p hp
      obtain ⟨hp, hne⟩ := Dict.mem_retain.mp hp
      rw [Dict.lookup_erase_eq, if_neg (of_decide_eq_true hne)]
      exact db.policyGroup key p hp }

def putPolicy (db : IdentityDb) (user group : Int) (row : PolicyRow)
    (h : (db.groups.lookup group).isSome = true) : IdentityDb :=
  { db with
    policies := db.policies.insert (user, group) row
    policyGroup := by
      intro key p hp
      rw [Dict.lookup_insert_eq] at hp
      split at hp
      · rename_i hkey
        rw [hkey]
        exact h
      · exact db.policyGroup key p hp }

def erasePolicy (db : IdentityDb) (user group : Int) : IdentityDb :=
  { db with
    policies := db.policies.erase (user, group)
    policyGroup := by
      intro key p hp
      rw [Dict.lookup_erase_eq] at hp
      split at hp
      · cases hp
      · exact db.policyGroup key p hp }

def putPermission (db : IdentityDb) (user : Int) (plugin feature : String) (row : PermissionRow) :
    IdentityDb :=
  { db with permissions := db.permissions.insert (user, plugin, feature) row }

def erasePermission (db : IdentityDb) (user : Int) (plugin feature : String) : IdentityDb :=
  { db with permissions := db.permissions.erase (user, plugin, feature) }

def restoreFeature (db : IdentityDb) (user : Int) (plugin feature : String) : IdentityDb :=
  { db with featureSuppressions := db.featureSuppressions.filter (· ≠ (user, plugin, feature)) }

def suppressFeature (db : IdentityDb) (user : Int) (plugin feature : String) : IdentityDb :=
  { db with featureSuppressions :=
      if db.featureSuppressions.contains (user, plugin, feature) then db.featureSuppressions
      else db.featureSuppressions ++ [(user, plugin, feature)] }

def restoreGroup (db : IdentityDb) (id : Int) : IdentityDb :=
  { db with groupSuppressions := db.groupSuppressions.filter (· ≠ id) }

/-- A group that is deleted is not found again, and its memberships are not confirmed. -/
def suppressGroup (db : IdentityDb) (id : Int) : IdentityDb :=
  { db with
    groupSuppressions :=
      if db.groupSuppressions.contains id then db.groupSuppressions
      else db.groupSuppressions ++ [id]
    bots := (db.bots.entries.filter fun b => decide (b.1.2 = id)).foldl (fun bots b =>
      bots.modify b.1 fun r => { r with generation := r.generation + 1 }) db.bots }

end IdentityDb

/-! ## Who is who -/

/-- `admin_auth` -/
def IdentityStore.adminAuth (store : IdentityStore) (now : Int) (db : IdentityDb) (id : Int)
    (admin ownerOnly : Bool) : Except AdminError Role := do
  let some row := db.users.lookup id | throw .unauthorized
  if (⟨id, row.role, row.banUntil⟩ : Principal).isBlocked now then throw .forbidden
  let role := if store.ownerId = some id then .owner else row.role
  if ownerOnly && decide (role ≠ .owner) then throw .forbidden
  if admin && decide (role.rank < Role.admin.rank) then throw .forbidden
  return role

/-- `user_role` -/
def IdentityStore.userRole (store : IdentityStore) (now : Int) (db : IdentityDb) (id : Int) :
    Option Role :=
  (db.users.lookup id).map fun row => (store.principal id row now).role

def IdentityDb.hasAutomaticPermission [JsonReader] (db : IdentityDb) (user : Int)
    (plugin feature : String) : Bool :=
  (db.automaticGrants user).any fun g => g.plugin == plugin && g.feature == feature

/-! ## Users -/

structure AdminUser where
  id : Int
  username : Option String
  firstName : Option String
  photoUrl : Option String
  role : Role
  language : String
  theme : String
  banUntil : Option Int
  createdAt : Int
  updatedAt : Int

/-- A role that is not set stays; a ban that is set may be lifted. -/
structure AdminUserPatch where
  role : Option Role
  language : Option String
  banUntil : Option (Option Int)

/-- `decode_user` -/
def IdentityStore.adminUser (store : IdentityStore) (now : Int) (id : Int) (row : UserRow) :
    AdminUser :=
  { row with id, role := (store.principal id row now).role }

/-- `admin_user_update.sql`, if the revision can be advanced. -/
def UserRow.patched (row : UserRow) (p : AdminUserPatch) (now : Int) : Option UserRow :=
  let changed := p.language.any (· ≠ row.language)
  if changed && !decide (row.updatedAt < 2 ^ 63 - 1) then none
  else some
    { row with
      role := p.role.getD row.role
      language := p.language.getD row.language
      banUntil := p.banUntil.getD row.banUntil
      updatedAt := if changed then max (row.updatedAt + 1) now else row.updatedAt }

def IdentityStore.adminUpdateUser (store : IdentityStore) (now : Int) (actor target : Int)
    (p : AdminUserPatch) (db : IdentityDb) : Except AdminError (AdminUser × IdentityDb) := do
  if actor ≤ 0 || target ≤ 0 then throw .invalidInput
  if p.language.any fun l => l ≠ "en" && l ≠ "ru" then throw .invalidInput
  if p.role = some .owner then throw .forbidden
  let role ← store.adminAuth now db actor true false
  let some row := db.users.lookup target | throw .notFound
  let user := store.adminUser now target row
  if user.role = .owner || decide (store.ownerId = some target) then throw .forbidden
  if role ≠ .owner && user.role = .admin then throw .forbidden
  if role ≠ .owner && p.role.any (Role.admin.rank ≤ ·.rank) then throw .forbidden
  if target = actor && p.role.any (role.rank < ·.rank) then throw .forbidden
  if p.role.isSome || p.language.isSome || p.banUntil.isSome then
    let some row := row.patched p now | throw .unavailable
    return (store.adminUser now target row, db.putUser target row)
  else return (user, db)

/-! ## Grants -/

structure AdminPermission where
  userId : Int
  plugin : String
  feature : String
  grantedBy : Int
  grantedAt : Int
  expiresAt : Option Int
  grantSource : String

/-- The checks that a grant and a revocation share: the target is not above the actor, and what
tags have granted is the owner's. -/
def IdentityStore.changePermission [JsonReader] (store : IdentityStore) (now : Int)
    (actor target : Int) (plugin feature : String) (db : IdentityDb) : Except AdminError Role := do
  let role ← store.adminAuth now db actor true false
  let some targetRole := store.userRole now db target | throw .notFound
  if store.ownerId = some target ||
      (decide (Role.admin.rank ≤ targetRole.rank) && decide (role ≠ .owner)) then
    throw .forbidden
  match db.permissions.lookup (target, plugin, feature) with
  | some old =>
      if old.grantSource = "manual" then return role
      else if old.grantSource = "tag" then
        if role = .owner then return role else .error .forbidden
      else .error .unavailable
  | none =>
      if role ≠ .owner && db.hasAutomaticPermission target plugin feature then throw .forbidden
      else return role

def IdentityStore.adminGrantPermission [JsonReader] (store : IdentityStore) (now : Int)
    (actor target : Int) (plugin feature : String) (expiresAt : Option Int) (db : IdentityDb) :
    Except AdminError (AdminPermission × IdentityDb) := do
  if actor ≤ 0 || target ≤ 0 then throw .invalidInput
  if !registered plugin feature then throw .invalidInput
  let _ ← store.changePermission now actor target plugin feature db
  let row : PermissionRow := ⟨actor, now, expiresAt, "manual"⟩
  return (⟨target, plugin, feature, actor, now, expiresAt, "manual"⟩,
    (db.restoreFeature target plugin feature).putPermission target plugin feature row)

def IdentityStore.adminRevokePermission [JsonReader] (store : IdentityStore) (now : Int)
    (actor target : Int) (plugin feature : String) (db : IdentityDb) :
    Except AdminError IdentityDb := do
  if actor ≤ 0 || target ≤ 0 then throw .invalidInput
  let role ← store.changePermission now actor target plugin feature db
  -- An owner's revocation holds against tags too.
  let db := if role = .owner then db.suppressFeature target plugin feature else db
  return db.erasePermission target plugin feature

/-! ## Groups -/

structure GroupCreate where
  id : Int
  title : Option String
  autoGrantRole : Option Role
  allowPm : Option Bool
  nsfwAllowed : Option Bool

structure GroupPatch where
  title : Option (Option String)
  enabled : Option Bool
  autoGrantRole : Option Role
  allowPm : Option Bool
  nsfwAllowed : Option Bool
  storageChatId : Option (Option Int)
  storageThreadId : Option (Option Int)

def longTitle (title : Option String) : Bool := title.any fun t => decide (256 < t.length)

def IdentityStore.groupCreate (store : IdentityStore) (now : Int) (actor : Int) (p : GroupCreate)
    (db : IdentityDb) : Except AdminError (GroupRow × IdentityDb) := do
  if 0 ≤ p.id || longTitle p.title then throw .invalidInput
  let _ ← store.adminAuth now db actor true false
  if (db.groups.lookup p.id).isSome then throw .conflict
  let row : GroupRow :=
    ⟨p.title, false, p.autoGrantRole.getD .user, p.allowPm.getD true, p.nsfwAllowed.getD false,
      none, none⟩
  return (row, (db.insertGroup p.id row).restoreGroup p.id)

def GroupRow.patched (row : GroupRow) (p : GroupPatch) : GroupRow where
  title := p.title.getD row.title
  enabled := p.enabled.getD row.enabled
  autoGrantRole := p.autoGrantRole.getD row.autoGrantRole
  allowPm := p.allowPm.getD row.allowPm
  nsfwAllowed := p.nsfwAllowed.getD row.nsfwAllowed
  storageChatId := p.storageChatId.getD row.storageChatId
  storageThreadId := p.storageThreadId.getD row.storageThreadId

def IdentityStore.groupUpdate (store : IdentityStore) (now : Int) (actor id : Int)
    (p : GroupPatch) (db : IdentityDb) : Except AdminError (GroupRow × IdentityDb) := do
  if 0 ≤ id || p.storageChatId.join.any (· = 0) || p.storageThreadId.join.any (· ≤ 0) ||
      longTitle p.title.join then throw .invalidInput
  let _ ← store.adminAuth now db actor true false
  let some row := db.groups.lookup id | throw .notFound
  return (row.patched p, db.insertGroup id (row.patched p))

def IdentityStore.groupDelete (store : IdentityStore) (now : Int) (actor id : Int)
    (db : IdentityDb) : Except AdminError IdentityDb := do
  if 0 ≤ id then throw .invalidInput
  let _ ← store.adminAuth now db actor true false
  if (db.groups.lookup id).isNone then throw .notFound
  return (db.eraseGroup id).suppressGroup id

/-! ## Members -/

structure MemberPatch where
  roleOverride : Option Role
  allowPmOverride : Option Bool

/-- The role of the override is not compared with that of the actor. -/
def IdentityStore.memberUpsert (store : IdentityStore) (now : Int) (actor group user : Int)
    (p : MemberPatch) (db : IdentityDb) : Except AdminError (PolicyRow × IdentityDb) := do
  if 0 ≤ group || user ≤ 0 then throw .invalidInput
  let _ ← store.adminAuth now db actor true false
  let row : PolicyRow := ⟨p.roleOverride, p.allowPmOverride⟩
  if h : (db.groups.lookup group).isSome = true then
    if (db.users.lookup user).isNone then throw .notFound
    else return (row, db.putPolicy user group row h)
  else .error .notFound

def IdentityStore.memberDelete (store : IdentityStore) (now : Int) (actor group user : Int)
    (db : IdentityDb) : Except AdminError IdentityDb := do
  if 0 ≤ group || user ≤ 0 then throw .invalidInput
  let _ ← store.adminAuth now db actor true false
  if (db.policies.lookup (user, group)).isNone then throw .notFound
  return db.erasePolicy user group

/-! ## Calls -/

inductive AdminCall where
  | updateUser (actor target : Int) (p : AdminUserPatch)
  | grantPermission (actor target : Int) (plugin feature : String) (expiresAt : Option Int)
  | revokePermission (actor target : Int) (plugin feature : String)
  | groupCreate (actor : Int) (p : GroupCreate)
  | groupUpdate (actor id : Int) (p : GroupPatch)
  | groupDelete (actor id : Int)
  | memberUpsert (actor group user : Int) (p : MemberPatch)
  | memberDelete (actor group user : Int)

namespace AdminCall

def actor : AdminCall → Int
  | updateUser actor .. | grantPermission actor .. | revokePermission actor .. | groupCreate actor _
  | groupUpdate actor .. | groupDelete actor _ | memberUpsert actor .. | memberDelete actor .. =>
      actor

/-- The database that a call leaves when it succeeds. -/
def run [JsonReader] (store : IdentityStore) (now : Int) (db : IdentityDb) :
    AdminCall → Except AdminError IdentityDb
  | updateUser actor target p => (store.adminUpdateUser now actor target p db).map (·.2)
  | grantPermission actor target plugin feature expiresAt =>
      (store.adminGrantPermission now actor target plugin feature expiresAt db).map (·.2)
  | revokePermission actor target plugin feature =>
      store.adminRevokePermission now actor target plugin feature db
  | groupCreate actor p => (store.groupCreate now actor p db).map (·.2)
  | groupUpdate actor id p => (store.groupUpdate now actor id p db).map (·.2)
  | groupDelete actor id => store.groupDelete now actor id db
  | memberUpsert actor group user p => (store.memberUpsert now actor group user p db).map (·.2)
  | memberDelete actor group user => store.memberDelete now actor group user db

end AdminCall

end YoinkCore.Identity
