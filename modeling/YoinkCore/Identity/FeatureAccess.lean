import YoinkCore.Identity.Administration

/-!
# Feature access

What the administration shows of a user's features: the permissions that are in force, those of
tags among them, and for each feature whether it may be used.
-/

namespace YoinkCore.Identity

open Lib Domain
open Insight (JsonReader)

/-! ## Permissions -/

/-- `decode_permission` -/
def decodePermission (user : Int) (plugin feature : String) (row : PermissionRow) :
    Except AdminError AdminPermission :=
  if row.grantSource ≠ "manual" && row.grantSource ≠ "tag" then .error .unavailable
  else .ok ⟨user, plugin, feature, row.grantedBy, row.grantedAt, row.expiresAt, row.grantSource⟩

/-- A permission that tags give replaces one that would expire. -/
def appendAutomatic (user : Int) (out : List AdminPermission) (g : Grant) : List AdminPermission :=
  let same (p : AdminPermission) :=
    decide (p.userId = user) && p.plugin == g.plugin && p.feature == g.feature
  if out.any fun p => same p && p.expiresAt.isNone then out
  else (out.filter fun p => !same p) ++ [⟨user, g.plugin, g.feature, 0, 0, none, "tag"⟩]

/-- `permission_list`: the rows that have not expired, and what tags give. -/
def IdentityDb.permissionList [JsonReader] (now : Int) (db : IdentityDb) (user : Int) :
    Except AdminError (List AdminPermission) := do
  let rows := db.permissions.entries.filter fun e =>
    decide (e.1.1 = user) && e.2.expiresAt.all fun t => decide (now < t)
  let permissions ← rows.mapM fun e => decodePermission user e.1.2.1 e.1.2.2 e.2
  return (db.automaticGrants user).foldl (appendAutomatic user) permissions

/-! ## Access -/

structure AdminFeatureAccess where
  plugin : String
  feature : String
  defaultMinRole : Option Role
  accessViaRole : Bool
  accessViaGrant : Bool
  effective : Bool
  grantExpiresAt : Option Int
  grantSource : String

/-- The row of one feature. -/
def featureAccess (target : Int) (role : Role) (blocked : Bool)
    (permissions : List AdminPermission) (providers : List ProviderGrant) (now : Int)
    (s : FeatureSpec) : AdminFeatureAccess :=
  let grants := permissions.map fun p => (⟨p.plugin, p.feature, p.expiresAt⟩ : Grant)
  let gr := grants.find? fun g => g.plugin == s.plugin && g.feature == s.feature
  let access := effectiveGrant ⟨target, role, none⟩ s grants providers now
  { plugin := s.plugin
    feature := s.feature
    defaultMinRole := s.defaultMinRole
    accessViaRole := !blocked &&
      (decide (role = .owner) || s.defaultMinRole.any fun m => decide (m.rank ≤ role.rank))
    accessViaGrant := !blocked && gr.any fun g => g.expiresAt.all fun e => decide (now < e)
    effective := !blocked && access.isSome
    grantExpiresAt := gr.bind (·.expiresAt)
    grantSource := ((permissions.find? fun p => p.plugin == s.plugin && p.feature == s.feature).map
      (·.grantSource)).getD "manual" }

def IdentityStore.adminFeatureAccess [JsonReader] (store : IdentityStore) (now : Int)
    (actor : Int) (target : Option Int) (db : IdentityDb) :
    Except AdminError (List AdminFeatureAccess) := do
  if actor ≤ 0 || target.any (· ≤ 0) then throw .invalidInput
  let user := target.getD actor
  let actorRole ← store.adminAuth now db actor false false
  if user ≠ actor && actorRole.rank < Role.admin.rank then throw .forbidden
  let some row := db.users.lookup user | throw .notFound
  let role := (store.principal user row now).role
  let blocked := (⟨user, role, row.banUntil⟩ : Principal).isBlocked now
  let permissions ← db.permissionList now user
  let providers ←
    if store.insightEnabled then
      match store.readSnapshot now db user none with
      | .error _ => throw .unavailable
      | .ok none => throw .notFound
      | .ok (some snap) => pure snap.providers
    else pure []
  return registeredFeatures.map (featureAccess user role blocked permissions providers now)

end YoinkCore.Identity
