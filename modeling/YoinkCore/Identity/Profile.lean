import YoinkCore.Identity.Snapshot

/-!
# Profiles

What a messenger tells of a user, what of it is stored, and how a user is registered.
-/

namespace YoinkCore.Identity

open Lib Domain

structure TrustedProfile where
  userId : Int
  username : Option String
  firstName : Option String
  photoUrl : Option String
deriving DecidableEq

structure UserProfile where
  id : Int
  username : Option String
  firstName : Option String
  photoUrl : Option String
  role : Role
  language : String
  theme : String
  banUntil : Option Int
  createdAt : Int
  updatedAt : Int

/-! ## Validation -/

def validPort (port : Text.Str) : Bool := !port.isEmpty && (Text.parseUnsigned 65535 port).isSome

def validPortSuffix (suffix : Text.Str) : Bool :=
  suffix.isEmpty || (suffix.head? = some ':' && validPort (suffix.drop 1))

def validHost (host : Text.Str) : Bool :=
  !host.isEmpty && host.head? ≠ some '.' && host.getLast? ≠ some '.' &&
    (Text.split '.' host).all (fun label =>
      !label.isEmpty && label.head? ≠ some '-' && label.getLast? ≠ some '-') &&
    host.all fun c => Text.isAlphanumeric c || c == '.' || c == '-'

def validAuthority (authority : Text.Str) : Bool :=
  match Text.stripPrefix ['['] authority with
  | some bracketed =>
      (Text.splitOnce [']'] bracketed).any fun (host, suffix) =>
        !host.isEmpty && host.all (fun c => Text.isHexDigit c || c == ':' || c == '.') &&
          validPortSuffix suffix
  | none =>
      match Text.rsplitOnce ':' authority with
      | some (host, port) => !host.contains ':' && validPort port && validHost host
      | none => validHost authority

def validPhotoUrl (value : Text.Str) : Bool :=
  if 512 < Text.byteLen value || value.any Text.isWhitespace then false
  else
    match (Text.stripPrefix "https://".toList value).or
        (Text.stripPrefix "http://".toList value) with
    | none => false
    | some rest =>
        let authority := rest.takeWhile fun c => c ≠ '/' && c ≠ '?' && c ≠ '#'
        validAuthority authority && !authority.contains '@' && !authority.contains '\\' &&
          !value.any Text.isControl

/-- `validate_profile` -/
def TrustedProfile.valid (p : TrustedProfile) : Bool :=
  p.username.all (fun v => v ≠ "" && decide (Text.byteLen v.toList ≤ 64)) &&
    p.firstName.all (fun v => v ≠ "" && decide (Text.byteLen v.toList ≤ 128)) &&
    p.photoUrl.all fun v => validPhotoUrl v.toList

/-! ## Rows -/

/-- The role of who is new. -/
def IdentityDb.registrationRole (db : IdentityDb) : Except IdentityError Role :=
  match db.settings.lookup "bot_access_mode" with
  | none => .ok .user
  | some (some "open") => .ok .user
  | some (some "approved_only") => .ok .restricted
  | some _ => .error .invalidPolicy

/-- The row of a user who is new, whose instants are whole seconds. -/
def TrustedProfile.newRow (p : TrustedProfile) (role : Role) (now : Int) : UserRow where
  username := p.username
  firstName := p.firstName
  photoUrl := p.photoUrl
  role := role
  language := "en"
  theme := "macchiato"
  banUntil := none
  createdAt := now / 1000000 * 1000000
  updatedAt := now / 1000000 * 1000000

/-- `profile_insert.sql`, which leaves a row that is there. -/
def IdentityDb.insertUser (db : IdentityDb) (p : TrustedProfile) (role : Role) (now : Int) :
    IdentityDb :=
  if (db.users.lookup p.userId).isSome then db
  else { db with users := db.users.insert p.userId (p.newRow role now) }

/-- `profile_update.sql`: what is not told stays. -/
def UserRow.refreshed (row : UserRow) (p : TrustedProfile) (now : Int) : Option UserRow :=
  if row.updatedAt < 2 ^ 63 - 1 then some
    { row with
      username := p.username.or row.username
      firstName := p.firstName.or row.firstName
      photoUrl := p.photoUrl.or row.photoUrl
      updatedAt := max (row.updatedAt + 1) now }
  else none

/-! ## Instants -/

/-- Whether `DateTime::from_timestamp_micros` tells an instant, in its years from -262143 to
262142. -/
def dateTimeOk (micros : Int) : Bool :=
  -8334601228800000000 ≤ micros && micros ≤ 8210266876799999999

theorem dateTimeOk_iff {micros : Int} : dateTimeOk micros = true ↔
    -8334601228800000000 ≤ micros ∧ micros ≤ 8210266876799999999 := by
  rw [dateTimeOk, Bool.and_eq_true, decide_eq_true_eq, decide_eq_true_eq]

def UserRow.profile (row : UserRow) (id : Int) : UserProfile := { row with id }

/-- Whether all instants of the row can be told. -/
def UserRow.dated (row : UserRow) : Bool :=
  row.banUntil.all dateTimeOk && dateTimeOk row.createdAt && dateTimeOk row.updatedAt

/-- `decode_profile` -/
def UserRow.decodeProfile (row : UserRow) (id : Int) : Except IdentityError UserProfile :=
  if row.dated then .ok (row.profile id) else .error .database

theorem UserRow.decodeProfile_eq_ok {row : UserRow} {id : Int} {user : UserProfile} :
    row.decodeProfile id = .ok user ↔ row.dated = true ∧ user = row.profile id := by
  unfold UserRow.decodeProfile
  split
  · rename_i h
    simp [h, eq_comm]
  · rename_i h
    simp [h]

/-- `register` -/
def IdentityStore.register (store : IdentityStore) (now : Int) (p : TrustedProfile)
    (db : IdentityDb) : Except IdentityError (UserProfile × IdentityDb) := do
  if p.userId ≤ 0 || store.ownerId.any (· ≤ 0) then throw .invalidId
  if !p.valid then throw .invalidProfile
  match db.users.lookup p.userId with
  | some row =>
      if (⟨p.userId, row.role, row.banUntil⟩ : Principal).isBlocked now then throw .forbidden
      let existing ← row.decodeProfile p.userId
      if existing.updatedAt = 2 ^ 63 - 1 then throw .languageRevisionOverflow
      let some row := row.refreshed p now | throw .languageRevisionOverflow
      let profile ← row.decodeProfile p.userId
      return (if store.ownerId = some p.userId then { profile with role := .owner } else profile,
        { db with users := db.users.insert p.userId row })
  | none =>
      let role ← db.registrationRole
      let role := if store.ownerId = some p.userId then .owner else role
      let db := db.insertUser p role now
      let some row := db.users.lookup p.userId | throw .database
      let profile ← row.decodeProfile p.userId
      return (profile, db)

end YoinkCore.Identity
