import YoinkCore.Identity.Profile

/-!
# Membership

What a bot is told about the members of a group, and about itself. Every subject keeps its last
observation; what is known of a member holds for one generation of the bot in the group.
-/

namespace YoinkCore.Identity

open Lib Domain

inductive MembershipSubject where
  | bot
  | user (profile : TrustedProfile)
deriving DecidableEq

inductive MemberStatus where
  | creator
  | administrator
  | member
  | restricted
  | left
  | kicked
deriving DecidableEq

inductive ObservedTag where
  | unknown
  | known (tag : Option String)
deriving DecidableEq

/-- An update. Its instant is in nanoseconds. -/
structure MembershipObservation where
  sourceId : Int
  updateId : Nat
  occurredAt : Int
  groupId : Int
  title : Option String
  subject : MembershipSubject
  status : MemberStatus
  present : Bool
  tag : ObservedTag
deriving DecidableEq

inductive MembershipOutcome where
  | applied
  | duplicate
  | stale
  | suppressed
  | unknownGroup
deriving DecidableEq

/-- The writer of observations as texts. -/
class ObservationWriter where
  write : MembershipObservation → String

abbrev UpdateKey := Int ×ₗ Nat

namespace MembershipObservation

def isBot (o : MembershipObservation) : Bool :=
  match o.subject with
  | .bot => true
  | .user _ => false

/-- The observation is one of the user. -/
def about (o : MembershipObservation) (user : Int) : Bool :=
  match o.subject with
  | .bot => false
  | .user p => decide (p.userId = user)

/-- `timestamp_micros` -/
def micros (o : MembershipObservation) : Int := o.occurredAt / 1000

def key (o : MembershipObservation) : UpdateKey := toLex (o.micros, o.updateId)

def knownTag (o : MembershipObservation) : Bool :=
  match o.tag with
  | .unknown => false
  | .known _ => true

def tagText (o : MembershipObservation) : Option String :=
  match o.tag with
  | .unknown => none
  | .known tag => tag

def validate (o : MembershipObservation) : Except IdentityError Unit := do
  if o.sourceId ≤ 0 || 0 ≤ o.groupId then throw .invalidId
  let badStatus :=
    match o.status with
    | .creator | .administrator | .member => !o.present
    | .left | .kicked => o.present
    | .restricted => false
  if o.occurredAt < 0 || decide (o.occurredAt % 1000 ≠ 0) ||
      o.title.any (fun t => decide (256 < t.length) || t.toList.any Text.isControl) ||
      badStatus then throw .invalidMembership
  match o.subject with
  | .bot => if o.tag ≠ .unknown then throw .invalidMembership
  | .user p =>
      if p.userId ≤ 0 || decide (p.userId = o.sourceId) then throw .invalidId
      if !p.valid then throw .invalidProfile
  if o.tagText.any fun t => (Text.trim t.toList).isEmpty || t.toList.any Text.isControl then
    throw .invalidMembership

end MembershipObservation

/-! ## Statements -/

/-- A row in the place of another: a tag that is not known stays, with its generation. -/
def MemberRow.over (row : MemberRow) (old : Option MemberRow) (knownTag : Bool) : MemberRow :=
  match old with
  | some old =>
      if knownTag then row else { row with tag := old.tag, tagGeneration := old.tagGeneration }
  | none => row

namespace IdentityDb

/-- `membership_bot_upsert.sql` -/
def putBot (db : IdentityDb) (source group : Int) (row : BotRow) : IdentityDb :=
  { db with bots := db.bots.insert (source, group) row }

/-- `membership_user_upsert.sql` -/
def putMember (db : IdentityDb) (source group user : Int) (row : MemberRow) (knownTag : Bool) :
    IdentityDb :=
  let row := row.over (db.members.lookup (source, group, user)) knownTag
  { db with members := db.members.insert (source, group, user) row }

/-- `membership_group_discover.sql` -/
def discoverGroup (db : IdentityDb) (id : Int) (title : Option String) : IdentityDb :=
  { db with
    groups := db.groups.insert id ⟨title, false, .user, true, false, none, none⟩
    policyGroup := by
      intro key p hp
      rw [Dict.lookup_insert_eq]
      split
      · rfl
      · exact db.policyGroup key p hp }

/-- `ensure_membership_user` -/
def ensureUser (db : IdentityDb) (p : TrustedProfile) (now : Int) :
    Except IdentityError IdentityDb := do
  if (db.users.lookup p.userId).isSome then return db
  let role ← db.registrationRole
  return db.insertUser p role now

/-- The key and the text of the last observation of a subject. -/
def lastOrder (db : IdentityDb) (o : MembershipObservation) : Option (UpdateKey × String) :=
  match o.subject with
  | .bot => (db.bots.lookup (o.sourceId, o.groupId)).map fun r =>
      (toLex (r.occurredAt, r.updateId), r.payload)
  | .user p => (db.members.lookup (o.sourceId, o.groupId, p.userId)).map fun r =>
      (toLex (r.occurredAt, r.updateId), r.payload)

/-! ## Observing -/

/-- What an observation that is the last of its subject changes. -/
def applyObservation [ObservationWriter] (now : Int) (db : IdentityDb) (o : MembershipObservation) :
    Except IdentityError IdentityDb := do
  let payload := ObservationWriter.write o
  let bot := db.bots.lookup (o.sourceId, o.groupId)
  let generation := (bot.map (·.generation)).getD 0
  match o.subject with
  | .bot =>
      if bot.map (·.present) ≠ some o.present && decide (2 ^ 63 - 1 ≤ generation) then
        throw .invalidMembership
      let generation := if bot.map (·.present) ≠ some o.present then generation + 1 else generation
      return db.putBot o.sourceId o.groupId ⟨o.micros, o.updateId, payload, o.present, generation⟩
  | .user p =>
      -- An update from before the last one of the bot is taken to be of the generation before.
      let generation :=
        if bot.any fun b => decide (o.key < toLex (b.occurredAt, b.updateId)) then generation - 1
        else generation
      let db ← db.ensureUser p now
      return db.putMember o.sourceId o.groupId p.userId
        ⟨o.micros, o.updateId, payload, o.present, generation, o.tagText, generation⟩ o.knownTag

/-- `observe_in_transaction` -/
def observeInTransaction [ObservationWriter] (now : Int) (db : IdentityDb)
    (o : MembershipObservation) : Except IdentityError (MembershipOutcome × IdentityDb) := do
  if db.groupSuppressions.contains o.groupId then return (.suppressed, db)
  if (db.lastOrder o).any fun old => decide (o.key < old.1) then return (.stale, db)
  if (db.lastOrder o).any fun old => decide (o.key = old.1) then
    if (db.lastOrder o).any fun old =>
      old.2 = ObservationWriter.write o then return (.duplicate, db)
    else throw .membershipConflict
  let known := (db.groups.lookup o.groupId).isSome
  if !known && !o.isBot then return (.unknownGroup, db)
  let db := if !known && o.present then db.discoverGroup o.groupId o.title else db
  let db ← db.applyObservation now o
  return (.applied, db)

/-- `observe_membership` -/
def observeMembership [ObservationWriter] (now : Int) (db : IdentityDb)
    (o : MembershipObservation) : Except IdentityError (MembershipOutcome × IdentityDb) := do
  o.validate
  db.observeInTransaction now o

/-- `membership_eligible.sql` -/
def membershipEligible (db : IdentityDb) (source group user : Int) : Bool :=
  (db.groups.lookup group).any (·.enabled) && !db.groupSuppressions.contains group &&
    !((db.bots.lookup (source, group)).any fun b => !b.present) &&
    !((db.members.lookup (source, group, user)).any fun m =>
      !m.present || (db.bots.lookup (source, group)).any fun b =>
        decide (m.generation ≠ b.generation))

end IdentityDb

end YoinkCore.Identity
