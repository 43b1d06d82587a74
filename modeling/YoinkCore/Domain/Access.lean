import YoinkCore.Lib.Text

/-!
# Access policy

Who may use a feature: a principal with its role, the grants it was given, and what the
providers of access say. Instants are microseconds.
-/

namespace YoinkCore.Domain

/-- Global roles in increasing privilege order. -/
inductive Role where
  | banned
  | restricted
  | user
  | moderator
  | admin
  | owner
deriving DecidableEq

namespace Role

def rank : Role → Nat
  | .banned => 0
  | .restricted => 1
  | .user => 2
  | .moderator => 3
  | .admin => 4
  | .owner => 5

def name : Role → String
  | .banned => "banned"
  | .restricted => "restricted"
  | .user => "user"
  | .moderator => "moderator"
  | .admin => "admin"
  | .owner => "owner"

end Role

structure Principal where
  userId : Int
  role : Role
  banUntil : Option Int
deriving DecidableEq

def Principal.isBlocked (p : Principal) (now : Int) : Bool :=
  p.role == .banned || p.banUntil.any fun t => decide (now < t)

/-- A persisted grant of a feature to a user. -/
structure Grant where
  plugin : String
  feature : String
  expiresAt : Option Int
deriving DecidableEq

/-- What a provider of access granted. -/
structure ProviderGrant where
  plugin : String
  feature : String
deriving DecidableEq

structure FeatureSpec where
  plugin : String
  feature : String
  defaultMinRole : Option Role
deriving DecidableEq

inductive GrantSource where
  | owner
  | explicit
  | role
  | provider
deriving DecidableEq

/-- The first reason a feature is granted; a blocked principal has none. -/
def effectiveGrant (principal : Principal) (spec : FeatureSpec) (grants : List Grant)
    (providers : List ProviderGrant) (now : Int) : Option GrantSource :=
  if principal.userId ≤ 0 || principal.isBlocked now then none
  else if principal.role = .owner then some .owner
  else if grants.any fun g =>
      g.plugin == spec.plugin && g.feature == spec.feature &&
        g.expiresAt.all fun t => decide (now < t) then some .explicit
  else if spec.defaultMinRole.any fun minimum => decide (minimum.rank ≤ principal.role.rank) then
    some .role
  else if providers.any fun g => g.plugin == spec.plugin && g.feature == spec.feature then
    some .provider
  else none

/-- What is known about a user at one instant. -/
structure IdentitySnapshot where
  principal : Principal
  grants : List Grant
  providers : List ProviderGrant
  now : Int

/-! ## Chats -/

inductive AccessScope where
  | privateScope
  | groupScope
deriving DecidableEq

/-- The rules of one check. An empty list of scopes denies all. -/
structure AccessPolicy where
  minRole : Role
  scopes : List AccessScope
  checkGroupEnabled : Bool
  checkThreadPolicy : Bool

structure AccessContext where
  scope : AccessScope
  groupEnabled : Bool
  threadAllowed : Bool
  groupRoleOverride : Option Role
  groupAutoGrantRole : Option Role

structure AccessDecision where
  allowed : Bool
  denyReason : String
  effectiveRole : Role
deriving DecidableEq

/-- The role in a chat: that of the override, else the one the group grants to the restricted. -/
def AccessContext.effectiveRole (context : AccessContext) (principal : Principal) : Role :=
  match context.scope with
  | .privateScope => principal.role
  | .groupScope =>
      context.groupRoleOverride.getD
        (if principal.role = .restricted && context.groupEnabled then
          (context.groupAutoGrantRole.filter fun r => principal.role.rank < r.rank).getD
            principal.role
        else principal.role)

/-- Bans come before overrides; the principal itself does not change. -/
def checkAccess (principal : Principal) (policy : AccessPolicy) (context : AccessContext)
    (now : Int) : AccessDecision :=
  let denied (reason : String) (role : Role) : AccessDecision := ⟨false, reason, role⟩
  if principal.userId ≤ 0 || principal.isBlocked now then denied "blocked" principal.role
  else
    let role := context.effectiveRole principal
    let inGroup := decide (context.scope = .groupScope)
    if !policy.scopes.contains context.scope then
      denied (if inGroup then "scope_group_not_allowed" else "scope_private_not_allowed") role
    else if inGroup && policy.checkGroupEnabled && !context.groupEnabled then
      denied "group_not_enabled" role
    else if inGroup && policy.checkThreadPolicy && !context.threadAllowed then
      denied "thread_not_allowed" role
    else if role.rank < policy.minRole.rank then denied "role_below_minimum" role
    else ⟨true, "", role⟩

end YoinkCore.Domain
