import YoinkCore.Inbox.CatalogueStore

/-!
# Teams

A team belongs to a user, under a name and a slug. Saving one makes its owner a member.
-/

namespace YoinkCore.Inbox

open Lib

/-! ## Rows -/

/-- inbox_teams -/
structure Team where
  id : Int
  name : String
  slug : String
  description : Option String
  ownerUserId : Int
  createdAt : Int
deriving DecidableEq

def Team.checks (t : Team) : List Bool := [t.name.length ≤ 128, t.slug.length ≤ 64]

def teamSchema : Schema Team where
  check t := t.checks.all id
  clash a b := a.id = b.id || (a.ownerUserId = b.ownerUserId && a.slug = b.slug)

/-- inbox_team_members -/
structure TeamMember where
  teamId : Int
  userId : Int
  role : String
  joinedAt : Int
deriving DecidableEq

def TeamMember.sameKey (a b : TeamMember) : Bool := a.teamId = b.teamId && a.userId = b.userId

def teamMemberSchema : Schema TeamMember where
  check m := m.role.length ≤ 16
  clash := TeamMember.sameKey

structure TeamDb where
  teams : Table teamSchema
  members : Table teamMemberSchema
  lastTeam : Int

abbrev TeamStmt := Tx TeamDb Error

namespace TeamDb

def teamTable : Serial TeamDb Error teamSchema where
  read := teams
  write db teams := { db with teams }
  fault := .database
  key := Team.id
  last := lastTeam
  setLast db id := { db with lastTeam := id }

def memberTable : TableIn TeamDb Error teamMemberSchema where
  read := members
  write db members := { db with members }
  fault := .database

/-- The slug is that of another team of the user. -/
def slugTaken (db : TeamDb) (user : Int) (exclude : Option Int) (slug : String) : Bool :=
  db.teams.rows.any fun t => t.ownerUserId = user && t.slug = slug && t.id ≠ exclude.getD (-1)

end TeamDb

/-! ## Saves -/

/-- The slug that is asked for, or that of the name. -/
def teamBase (body : Json) (name : String) : String :=
  let base := ((body.entry "slug").asStr.filter (!·.isEmpty)).getD (Validation.slug name)
  if base.isEmpty then "team" else base

/-- The row of a team, written over or new. -/
def writeTeam (user : Int) (id : Option Int) (name slug : String) (description : Option String)
    (now : Int) : TeamStmt Int := do
  match id with
  | some id => do
      let changed ← TeamDb.teamTable.update (fun t => t.id = id && t.ownerUserId = user) fun t =>
        { t with name, slug, description }
      if changed = 0 then throw .notFound
      return id
  | none =>
      TeamDb.teamTable.insertNext fun id =>
        { id, name, slug, description, ownerUserId := user, createdAt := now }

/-- The transaction of `save_team`. -/
def saveTeamOn (user : Int) (id : Option Int) (name : String) (body : Json) (now : Int) :
    TeamStmt Int := do
  let slug ← Tx.ofExcept (firstFree ((← get).slugTaken user id) (teamBase body name))
  let id ← writeTeam user id name slug (body.entry "description").asStr now
  let member : TeamMember := ⟨id, user, "owner", now⟩
  let _ ← TeamDb.memberTable.insertIgnoring (·.sameKey member) member
  return id

end YoinkCore.Inbox
