import YoinkCore.Downloads.CookieAccount

/-!
# Stored cookies

The table of cookies, and the operations that write it: uploads from a chat and from
the web, shared cookies, and the OAuth tokens kept beside them. Each is one immediate
transaction, which counts what it replaces before it writes.
-/

namespace YoinkCore.Downloads

open Lib Domain Worker Storage

/-! ## Tables -/

structure CookieRow where
  id : Int
  userId : Int
  domain : String
  content : String
  isValid : Bool
  createdAt : Int
  updatedAt : Int
  validatedAt : Option Int
  isPool : Bool
  label : Option String
  avatarUrl : Option String
  contentHash : Option String
  sessionKey : Option String
deriving DecidableEq

namespace CookieRow

/-- `length(CAST(content AS BLOB))`. -/
def bytes (r : CookieRow) : Nat := Text.byteLen r.content.toList

/-- `LOWER(TRIM(domain,'.'))`. -/
def bareDomain (r : CookieRow) : Text.Str :=
  (Text.trimMatches '.' r.domain.toList).map Text.toLower

/-- A personal cookie of an actor. -/
def isPersonalOf (actor : Int) (r : CookieRow) : Bool := r.userId == actor && !r.isPool

/-- A personal cookie of an actor for a domain, in whatever form it was imported. -/
def isFor (actor : Int) (domain : String) (r : CookieRow) : Bool :=
  r.isPersonalOf actor && r.bareDomain == domain.toList

end CookieRow

/-- What an `INTEGER` column holds. -/
def isI64 (x : Int) : Bool := decide (-(2 ^ 63) ≤ x) && decide (x ≤ 2 ^ 63 - 1)

def cookieSchema : Schema CookieRow where
  check r :=
    decide (-(2 ^ 31) ≤ r.id) && decide (r.id ≤ 2 ^ 31 - 1) &&
      isI64 r.userId && isI64 r.createdAt && isI64 r.updatedAt && r.validatedAt.all isI64 &&
      decide (r.domain.toList.length ≤ 253) &&
      r.label.all (fun t => decide (t.toList.length ≤ 128)) &&
      r.avatarUrl.all (fun t => decide (t.toList.length ≤ 512)) &&
      r.contentHash.all (fun t => decide (t.toList.length ≤ 64)) &&
      r.sessionKey.all (fun t => decide (t.toList.length ≤ 256))
  clash a b :=
    a.id == b.id ||
      (!a.isPool && !b.isPool && a.userId == b.userId && a.domain == b.domain)

structure User where
  role : String
  banUntil : Option Int

/-- A token a browser extension submits cookies with. -/
structure WebToken where
  userId : Int
  expiresAt : Int

/-- A device that waits for an OAuth grant. -/
structure OAuthSession where
  userId : Int
  deviceCode : String
  readyContent : Option String
  expiresAt : Int
  pollInterval : Int
  nextPollAt : Int
  generation : Int
deriving DecidableEq

/-- The settings of an actor that decide how the network is reached. -/
structure NetworkSettings where
  proxyEnabled : Bool
  proxyUrl : Option String
  usePoolCookies : Bool
  youtubeAuthMode : String

/-- A table with a primary key and no other constraint is a function of its key. -/
structure CookieDb where
  users : Int → Option User
  settings : Int → Option NetworkSettings
  cookies : Table cookieSchema
  /-- The largest identifier `AUTOINCREMENT` ever drew. -/
  sequence : Int
  /-- The last message of each actor that changed cookies. -/
  watermarks : Int → Option Int
  tokens : String → Option WebToken
  sessions : String → Option OAuthSession

def CookieDb.empty : CookieDb where
  users _ := none
  settings _ := none
  cookies := Table.empty cookieSchema
  sequence := 0
  watermarks _ := none
  tokens _ := none
  sessions _ := none

/-! ## Statements -/

abbrev CookieStmt (α : Type) := Tx CookieDb DownloadError α

/-- How a transaction ends: it may commit and still refuse. -/
abbrev Outcome (α : Type) := Ended (Except DownloadError α)

def transact {α : Type} (body : CookieStmt (Outcome α)) (db : CookieDb) :
    Except DownloadError α × CookieDb :=
  match Tx.run body db with
  | (.ok r, db') => (r, db')
  | (.error e, db') => (.error e, db')

/-- A transaction leaves the database alone, or publishes what its body committed. -/
theorem transact_cases {α : Type} (body : CookieStmt (Outcome α)) (db : CookieDb) :
    (transact body db).2 = db ∨
      ∃ r db', body db = .ok (.commit r, db') ∧ transact body db = (r, db') := by
  rcases Tx.run_spec body db with ⟨e, -, hr⟩ | ⟨a, s', -, hr⟩ | ⟨a, s', hb, hr⟩
  · exact .inl (by rw [transact, hr])
  · exact .inl (by rw [transact, hr])
  · exact .inr ⟨a, s', hb, by rw [transact, hr]⟩

/-- Write the table back, unless its constraints refused the statement. -/
def putCookies (cookies : Option (Table cookieSchema)) : CookieStmt Unit :=
  match cookies with
  | none => throw .database
  | some cookies => modify fun db => { db with cookies }

def updateCookies (cond : CookieRow → Bool) (assign : CookieRow → CookieRow) :
    CookieStmt Nat := do
  let db ← get
  putCookies ((db.cookies.update cond assign).map Prod.fst)
  return db.cookies.rows.countP cond

def deleteCookies (cond : CookieRow → Bool) : CookieStmt Nat := do
  let db ← get
  set { db with cookies := (db.cookies.delete cond).1 }
  return db.cookies.rows.countP cond

/-- The identifier `AUTOINCREMENT` draws next. -/
def CookieDb.nextId (db : CookieDb) : Int :=
  (db.cookies.rows.map CookieRow.id).foldl max db.sequence + 1

def insertCookie (row : CookieRow) : CookieStmt Int := do
  let db ← get
  set { db with sequence := db.nextId }
  putCookies (db.cookies.insert { row with id := db.nextId })
  return db.nextId

/-- `personal_cookies_auth.sql`. -/
def CookieDb.authorizes (db : CookieDb) (actor now : Int) (owner : Bool) : Bool :=
  (db.users actor).any fun u =>
    (["user", "moderator", "admin", "owner"].contains u.role ||
        (owner && u.role == "restricted")) &&
      u.banUntil.all fun t => decide (t ≤ now)

/-! ## What a statement does to the table -/

variable {db db' : CookieDb}

theorem putCookies_eq_ok {cookies : Option (Table cookieSchema)} {u : Unit}
    (h : putCookies cookies db = .ok (u, db')) :
    ∃ T, cookies = some T ∧ db' = { db with cookies := T } := by
  cases cookies with
  | none => exact (Tx.throw_ne_ok.mp h).elim
  | some T =>
      cases h
      exact ⟨T, rfl, rfl⟩

theorem updateCookies_eq_ok {cond : CookieRow → Bool} {assign : CookieRow → CookieRow} {n : Nat}
    (h : updateCookies cond assign db = .ok (n, db')) :
    n = db.cookies.rows.countP cond ∧
      db'.cookies.rows = db.cookies.rows.map (fun r => if cond r then assign r else r) ∧
      db' = { db with cookies := db'.cookies } := by
  simp only [updateCookies, Tx.bind_eq_ok, Tx.get_eq_ok] at h
  obtain ⟨_, _, ⟨rfl, rfl⟩, _, _, hput, h⟩ := h
  obtain ⟨rfl, rfl⟩ := Tx.pure_eq_ok.mp h
  obtain ⟨_, hc, rfl⟩ := putCookies_eq_ok hput
  obtain ⟨⟨T, m⟩, hT, rfl⟩ := Option.map_eq_some_iff.mp hc
  exact ⟨rfl, (Table.update_eq_some.mp hT).1, rfl⟩

theorem deleteCookies_eq_ok {cond : CookieRow → Bool} {n : Nat}
    (h : deleteCookies cond db = .ok (n, db')) :
    n = db.cookies.rows.countP cond ∧
      db' = { db with cookies := (db.cookies.delete cond).1 } := by
  simp only [deleteCookies, Tx.bind_eq_ok, Tx.get_eq_ok, Tx.set_eq_ok] at h
  obtain ⟨_, _, ⟨rfl, rfl⟩, _, _, rfl, h⟩ := h
  obtain ⟨rfl, rfl⟩ := Tx.pure_eq_ok.mp h
  exact ⟨rfl, rfl⟩

theorem insertCookie_eq_ok {row : CookieRow} {id : Int} (h : insertCookie row db = .ok (id, db')) :
    id = db.nextId ∧ db'.cookies.rows = db.cookies.rows ++ [{ row with id := db.nextId }] ∧
      db' = { db with cookies := db'.cookies, sequence := db.nextId } := by
  simp only [insertCookie, Tx.bind_eq_ok, Tx.get_eq_ok, Tx.set_eq_ok] at h
  obtain ⟨_, _, ⟨rfl, rfl⟩, _, _, rfl, _, _, hput, h⟩ := h
  obtain ⟨rfl, rfl⟩ := Tx.pure_eq_ok.mp h
  obtain ⟨_, hc, rfl⟩ := putCookies_eq_ok hput
  exact ⟨rfl, Table.insert_eq_some.mp hc, rfl⟩

/-! ## The service -/

/-- Bounds on what is stored as personal. -/
structure PersonalCookieLimits where
  domains : Nat
  actorBytes : Nat
  globalBytes : Nat

structure Service where
  botId : Int
  configuredOwner : Option Int
  limits : PersonalCookieLimits

def Service.isConfiguredOwner (s : Service) (actor : Int) : Bool :=
  s.configuredOwner == some actor

/-- `DateTime::from_timestamp`, in microseconds. -/
def fromTimestamp (secs : Int) : Option Int :=
  if -8334601228800 ≤ secs ∧ secs ≤ 8210266876799 then some (secs * 1000000) else none

def webAuthorize (s : Service) (db : CookieDb) (actor now : Int) : Except DownloadError Unit :=
  if actor ≤ 0 then .error .denied
  else
    match fromTimestamp now with
    | none => .error .invalidInput
    | some t =>
        if db.authorizes actor t (s.isConfiguredOwner actor) then .ok () else .error .denied

def webAdmin (s : Service) (db : CookieDb) (actor : Int) : Bool :=
  s.isConfiguredOwner actor ||
    (db.users actor).any fun u => ["admin", "owner"].contains u.role

/-! ## Usage -/

/-- `personal_cookies_usage.sql`. -/
structure Usage where
  actorDomains : Int
  actorBytes : Int
  globalBytes : Int
  replacedDomains : Int
  replacedBytes : Int

def bytesOf (rows : List CookieRow) : Nat := (rows.map CookieRow.bytes).sum

def usage (rows : List CookieRow) (actor : Int) (domain : String) : Usage where
  actorDomains := (rows.filter (·.isPersonalOf actor)).length
  actorBytes := bytesOf (rows.filter (·.isPersonalOf actor))
  globalBytes := bytesOf (rows.filter (!·.isPool))
  replacedDomains := (rows.filter (·.isFor actor domain)).length
  replacedBytes := bytesOf (rows.filter (·.isFor actor domain))

/-- More than before, and more than the limit. -/
def exceeds (old new : Int) (limit : Nat) : Bool := decide (old < new) && decide (limit < new)

/-- The limits are exceeded when one row takes the place of the replaced ones. -/
def Usage.replaceExceeds (u : Usage) (length : Nat) (l : PersonalCookieLimits) : Bool :=
  exceeds u.actorDomains (u.actorDomains - u.replacedDomains + 1) l.domains ||
    exceeds u.actorBytes (u.actorBytes - u.replacedBytes + length) l.actorBytes ||
    exceeds u.globalBytes (u.globalBytes - u.replacedBytes + length) l.globalBytes

/-- The limits are exceeded when every replaced row is rewritten, or a row is added. -/
def Usage.updateExceeds (u : Usage) (length : Nat) (l : PersonalCookieLimits) : Bool :=
  exceeds u.actorDomains (u.actorDomains + if u.replacedDomains = 0 then 1 else 0) l.domains ||
    exceeds u.actorBytes (u.actorBytes - u.replacedBytes + length * max u.replacedDomains 1)
      l.actorBytes ||
    exceeds u.globalBytes (u.globalBytes - u.replacedBytes + length * max u.replacedDomains 1)
      l.globalBytes

/-! ## Uploads from a chat -/

section

/-- The row an upload inserts. -/
def personalRow (actor : Int) (domain content : String) (valid : Bool) (now : Int) :
    CookieRow where
  id := 0
  userId := actor
  domain := domain
  content := content
  isValid := valid
  createdAt := now
  updatedAt := now
  validatedAt := none
  isPool := false
  label := none
  avatarUrl := none
  contentHash := none
  sessionKey := none

/-- `personal_cookies_watermark.sql`: only a later message advances. -/
def advanceWatermark (actor messageId : Int) : CookieStmt Bool := do
  let db ← get
  if (db.watermarks actor).all (· < messageId) then
    set { db with watermarks := Function.update db.watermarks actor (some messageId) }
    return true
  else return false

def authorizeCookieControl (s : Service) (db : CookieDb) (actor : UInt64)
    (target : DeliveryTarget) (now : Int) : Except DownloadError Unit :=
  if actor = 0 ∨ i64Max < actor.toNat ∨ target.chatId.toInt ≠ actor.toNat ∨
      target.chatId.toInt ≤ 0 ∨ target.threadId.isSome ∨ target.botId.toInt ≠ s.botId then
    .error .denied
  else if db.authorizes actor.toNat now (s.isConfiguredOwner actor.toNat) then .ok ()
  else .error .denied

/-- The lines of a jar that are records. -/
def jarEntries (content : String) : Nat :=
  (Text.lines content.toList).countP fun l =>
    httpOnlyPrefix.isPrefixOf l || (!"#".toList.isPrefixOf l && !l.isEmpty)

/-- Put one row in the place of those for its domain. -/
def replaceCookie (actor : Int) (domain content : String) (now : Int) : CookieStmt Unit := do
  let _ ← deleteCookies (·.isFor actor domain)
  let _ ← insertCookie (personalRow actor domain content true now)

/-- The rest of an upload, after its message was recorded. -/
def uploadCookie (s : Service) (actor : Int) (domain : CookieDomain) (content : String)
    (now : Int) : CookieStmt (Outcome (Option Nat)) := do
  let db ← get
  if (usage db.cookies.rows actor domain.text).replaceExceeds
      (Text.byteLen content.toList) s.limits then
    -- the watermark stays: a replay cannot install the credentials later
    return .commit (.error .personalCookieCapacity)
  else
    replaceCookie actor domain.text content now
    return .commit (.ok (some (jarEntries content)))

def storePersonalCookieTx (s : Service) (actor messageId : Int) (domain : CookieDomain)
    (content : String) (now : Int) : CookieStmt (Outcome (Option Nat)) := do
  let db ← get
  if !db.authorizes actor now (s.isConfiguredOwner actor) then
    return .rollback (.error .denied)
  else
    let advanced ← advanceWatermark actor messageId
    if advanced then uploadCookie s actor domain content now
    else return .commit (.ok none)

/-- An upload from a chat. `early` is the database its first check reads. -/
def storePersonalCookie (s : Service) (early : CookieDb) (actor : UInt64)
    (target : DeliveryTarget) (messageId : Int) (domain : CookieDomain) (content : String)
    (now : Int) (db : CookieDb) : Except DownloadError (Option Nat) × CookieDb :=
  match authorizeCookieControl s early actor target now with
  | .error e => (.error e, db)
  | .ok () =>
      if messageId ≤ 0 || decide (maxCookieJarBytes < Text.byteLen content.toList) ||
          !validCookie content then
        (.error .invalidInput, db)
      else transact (storePersonalCookieTx s actor.toNat messageId domain content now) db

end

/-- One row stands where those for the domain were. -/
theorem replaceCookie_rows {actor now : Int} {domain content : String} {u : Unit}
    (h : replaceCookie actor domain content now db = .ok (u, db')) :
    db'.cookies.rows = db.cookies.rows.filter (!·.isFor actor domain) ++
      [{ personalRow actor domain content true now with
          id := ({ db with cookies := (db.cookies.delete (·.isFor actor domain)).1 }).nextId
            }] := by
  simp only [replaceCookie, Tx.bind_eq_ok] at h
  obtain ⟨_, _, hd, _, _, hi, h⟩ := h
  obtain ⟨-, rfl⟩ := Tx.pure_eq_ok.mp h
  obtain ⟨-, rfl⟩ := deleteCookies_eq_ok hd
  exact (insertCookie_eq_ok hi).2.1

/-- An upload leaves the cookies alone, or is within the limits and replaces the rows for
its domain. -/
theorem storePersonalCookie_cases (s : Service) (early : CookieDb) (actor : UInt64)
    (target : DeliveryTarget) (messageId : Int) (domain : CookieDomain) (content : String)
    (now : Int) (db : CookieDb) :
    (storePersonalCookie s early actor target messageId domain content now db).2.cookies =
        db.cookies ∨
      ∃ db₁ db₂ n, db₁.cookies = db.cookies ∧
        (usage db.cookies.rows actor.toNat domain.text).replaceExceeds
          (Text.byteLen content.toList) s.limits = false ∧
        replaceCookie actor.toNat domain.text content now db₁ = .ok ((), db₂) ∧
        storePersonalCookie s early actor target messageId domain content now db =
          (.ok (some n), db₂) := by
  unfold storePersonalCookie
  split
  · exact .inl rfl
  split
  · exact .inl rfl
  rcases transact_cases (storePersonalCookieTx s actor.toNat messageId domain content now) db
    with h | ⟨r, db₂, hb, h⟩
  · exact .inl (by rw [h])
  rw [h]
  simp only [storePersonalCookieTx, Tx.bind_eq_ok, Tx.get_eq_ok, Tx.ite_apply_state] at hb
  obtain ⟨_, _, ⟨rfl, rfl⟩, hb⟩ := hb
  split at hb
  · cases hb
  obtain ⟨advanced, db₁, ha, hb⟩ := Tx.bind_eq_ok.mp hb
  have hcookies : db₁.cookies = db.cookies := by
    simp only [advanceWatermark, Tx.bind_eq_ok, Tx.get_eq_ok, Tx.ite_apply_state] at ha
    obtain ⟨_, _, ⟨rfl, rfl⟩, ha⟩ := ha
    split at ha
    · obtain ⟨_, _, hset, ha⟩ := Tx.bind_eq_ok.mp ha
      cases hset
      cases ha
      rfl
    · cases ha
      rfl
  cases advanced with
  | false =>
      cases hb
      exact .inl hcookies
  | true =>
      simp only [if_true, uploadCookie, Tx.bind_eq_ok, Tx.get_eq_ok, Tx.ite_apply_state] at hb
      obtain ⟨_, _, ⟨rfl, rfl⟩, hb⟩ := hb
      split at hb
      · cases hb
        exact .inl hcookies
      · rename_i hlimit
        obtain ⟨_, _, hr, hb⟩ := Tx.bind_eq_ok.mp hb
        cases hb
        rw [hcookies, Bool.not_eq_true] at hlimit
        exact .inr ⟨_, _, _, hcookies, hlimit, hr, rfl⟩

/-! ## Uploads from the web -/

structure CookieInput where
  domain : String
  content : String

/-- The host a record of a jar is for. -/
def recordHost (line : Text.Str) : String :=
  String.ofList (Text.trimStartText httpOnlyPrefix ((Text.split '\t' line).headD []))

def recordWithin (domain : CookieDomain) (line : Text.Str) : Except DownloadError Unit := do
  let host ← CookieDomain.parse (recordHost line)
  if host.text = domain.text ∨ ('.' :: domain.text.toList) <:+ host.text.toList then .ok ()
  else .error .invalidInput

/-- A jar all of whose records are for a domain or below it. -/
def validateInput (input : CookieInput) : Except DownloadError CookieDomain := do
  let domain ← CookieDomain.parse input.domain
  if decide (maxCookieJarBytes < Text.byteLen input.content.toList) ||
      !validCookie input.content then
    .error .invalidInput
  else
    let records := (Text.lines input.content.toList).filter fun l =>
      httpOnlyPrefix.isPrefixOf l || (!"#".toList.isPrefixOf l && !l.isEmpty)
    let _ ← records.mapM (recordWithin domain)
    return domain

/-- Rewrite every row of an actor for a domain. -/
def rewriteRow (content : String) (valid : Bool) (now : Int) (r : CookieRow) : CookieRow :=
  { r with content := content, isValid := valid, updatedAt := now, validatedAt := none,
           contentHash := none }

/-- Rewrite the rows of an actor for a domain; without any, add one. -/
def upsertCookie (actor : Int) (domain content : String) (valid : Bool) (now : Int) :
    CookieStmt Unit := do
  let updated ← updateCookies (·.isFor actor domain) (rewriteRow content valid now)
  if updated = 0 then
    let _ ← insertCookie (personalRow actor domain content valid now)
  else return ()

/-- The rows for the domain are rewritten in place; only without any is one added. -/
theorem upsertCookie_rows {actor now : Int} {domain content : String} {valid : Bool} {u : Unit}
    (h : upsertCookie actor domain content valid now db = .ok (u, db')) :
    db'.cookies.rows =
      if db.cookies.rows.countP (·.isFor actor domain) = 0 then
        db.cookies.rows ++
          [{ personalRow actor domain content valid now with id := db.nextId }]
      else
        db.cookies.rows.map fun r =>
          if r.isFor actor domain then rewriteRow content valid now r else r := by
  simp only [upsertCookie, Tx.bind_eq_ok] at h
  obtain ⟨n, db₁, hu, h⟩ := h
  obtain ⟨rfl, hrows, he⟩ := updateCookies_eq_ok hu
  split at h
  · rename_i hn
    rw [if_pos hn]
    simp only [Tx.bind_eq_ok] at h
    obtain ⟨_, _, hi, h⟩ := h
    obtain ⟨-, rfl⟩ := Tx.pure_eq_ok.mp h
    have hsame : db₁.cookies.rows = db.cookies.rows := by
      rw [hrows]
      conv_rhs => rw [← List.map_id db.cookies.rows]
      exact List.map_congr_left fun r hr => if_neg (List.countP_eq_zero.mp hn r hr)
    obtain ⟨-, hrows', -⟩ := insertCookie_eq_ok hi
    have hid : db₁.nextId = db.nextId := by
      rw [CookieDb.nextId, CookieDb.nextId, hsame, he]
    rw [hrows', hsame, hid]
  · rename_i hn
    rw [if_neg hn]
    obtain ⟨-, rfl⟩ := Tx.pure_eq_ok.mp h
    exact hrows

/-- One domain of a submission. -/
def writeInput (s : Service) (actor now : Int) (input : CookieInput) (domain : CookieDomain) :
    CookieStmt Unit := do
  let db ← get
  if (usage db.cookies.rows actor domain.text).updateExceeds
      (Text.byteLen input.content.toList) s.limits then
    throw .personalCookieCapacity
  else
    match fromTimestamp now with
    | none => throw .invalidInput
    | some t =>
        upsertCookie actor domain.text input.content
          (label domain.text input.content).isSome t

def writeInputs (s : Service) (actor now : Int) : List (CookieInput × CookieDomain) →
    CookieStmt Unit
  | [] => return ()
  | (input, domain) :: rest => do
      writeInput s actor now input domain
      writeInputs s actor now rest

/-- The hash a token is stored under. -/
def tokenHash [Platform] (token : String) : Except DownloadError String :=
  if token.toList.length = 64 ∧ token.toList.all Text.isHexDigit then
    .ok (String.ofList (hexDigits 64 (Platform.sha256 token.toUTF8.data.toList).toNat))
  else .error .denied

/-- The actor of a submission: of the token, or the one who uploads. -/
def submitter [Platform] (db : CookieDb) (actor : Option Int) (token : Option String)
    (now : Int) : Except DownloadError Int :=
  match token with
  | some token =>
      match tokenHash token with
      | .error e => .error e
      | .ok hash =>
          match (db.tokens hash).filter fun t => decide (now < t.expiresAt) with
          | none => .error .denied
          | some t => .ok t.userId
  | none => actor.elim (.error .denied) .ok

/-- A token is used once. -/
def consumeToken [Platform] (token : Option String) : CookieStmt Unit := do
  let db ← get
  match token with
  | none => return ()
  | some token =>
      match tokenHash token with
      | .error e => throw e
      | .ok hash => set { db with tokens := Function.update db.tokens hash none }

def result {α : Type} (r : Except DownloadError α) : CookieStmt α :=
  match r with
  | .ok a => return a
  | .error e => throw e

def webWriteTx [Platform] (s : Service) (actor : Option Int) (token : Option String)
    (inputs : List (CookieInput × CookieDomain)) (now : Int) : CookieStmt (Outcome Unit) := do
  let db ← get
  let actor ← result (submitter db actor token now)
  result (webAuthorize s db actor now)
  writeInputs s actor now inputs
  consumeToken token
  return .commit (.ok ())

def webWrite [Platform] (s : Service) (actor : Option Int) (token : Option String)
    (inputs : List CookieInput) (now : Int) (db : CookieDb) :
    Except DownloadError Unit × CookieDb :=
  match inputs.mapM validateInput with
  | .error e => (.error e, db)
  | .ok domains =>
      if (domains.map CookieDomain.text).Nodup then
        transact (webWriteTx s actor token (inputs.zip domains) now) db
      else (.error .invalidInput, db)

/-- A submission is within the limits for each of its domains in turn. -/
theorem writeInput_eq_ok {s : Service} {actor now : Int} {input : CookieInput}
    {domain : CookieDomain} {u : Unit} (h : writeInput s actor now input domain db = .ok (u, db')) :
    (usage db.cookies.rows actor domain.text).updateExceeds
        (Text.byteLen input.content.toList) s.limits = false ∧
      ∃ valid t, upsertCookie actor domain.text input.content valid t db = .ok (u, db') := by
  simp only [writeInput, Tx.bind_eq_ok, Tx.get_eq_ok, Tx.ite_apply_state] at h
  obtain ⟨_, _, ⟨rfl, rfl⟩, h⟩ := h
  split at h
  · exact (Tx.throw_ne_ok.mp h).elim
  · rename_i hlimit
    refine ⟨by simpa using hlimit, ?_⟩
    cases ht : fromTimestamp now with
    | none =>
        rw [ht] at h
        exact (Tx.throw_ne_ok.mp h).elim
    | some t =>
        rw [ht] at h
        exact ⟨_, _, h⟩

/-- What every domain of a submission preserves, the submission preserves. -/
theorem writeInputs_relate {s : Service} {actor now : Int} {R : CookieDb → CookieDb → Prop}
    (refl : ∀ db, R db db) (trans : ∀ {a b c}, R a b → R b c → R a c)
    (step : ∀ {input domain db db'}, writeInput s actor now input domain db = .ok ((), db') →
      R db db') :
    ∀ {inputs : List (CookieInput × CookieDomain)} {db db' : CookieDb},
      writeInputs s actor now inputs db = .ok ((), db') → R db db' := by
  intro inputs
  induction inputs with
  | nil =>
      intro db db' h
      cases h
      exact refl db
  | cons p inputs ih =>
      intro db db' h
      obtain ⟨_, db₁, h₁, h₂⟩ := Tx.bind_eq_ok.mp h
      exact trans (step h₁) (ih h₂)

theorem result_eq_ok {α : Type} {r : Except DownloadError α} {a : α}
    (h : result r db = .ok (a, db')) : r = .ok a ∧ db = db' := by
  cases r with
  | error e => exact (Tx.throw_ne_ok.mp h).elim
  | ok b =>
      cases h
      exact ⟨rfl, rfl⟩

theorem consumeToken_cookies [Platform] {token : Option String} {u : Unit}
    (h : consumeToken token db = .ok (u, db')) : db'.cookies = db.cookies := by
  obtain ⟨_, _, hg, h⟩ := Tx.bind_eq_ok.mp h
  obtain ⟨rfl, rfl⟩ := Tx.get_eq_ok.mp hg
  cases token with
  | none =>
      cases h
      rfl
  | some token =>
      dsimp only at h
      cases ht : tokenHash token with
      | error e =>
          rw [ht] at h
          exact (Tx.throw_ne_ok.mp h).elim
      | ok hash =>
          rw [ht] at h
          cases h
          rfl

/-- A submission leaves the database alone, or writes each of its domains. -/
theorem webWrite_cases [Platform] (s : Service) (actor : Option Int) (token : Option String)
    (inputs : List CookieInput) (now : Int) (db : CookieDb) :
    (webWrite s actor token inputs now db).2 = db ∨
      ∃ user domains db₁ db₂, inputs.mapM validateInput = .ok domains ∧
        writeInputs s user now (inputs.zip domains) db = .ok ((), db₁) ∧
        db₂.cookies = db₁.cookies ∧ webWrite s actor token inputs now db = (.ok (), db₂) := by
  unfold webWrite
  split
  · exact .inl rfl
  rename_i domains hd
  split
  swap
  · exact .inl rfl
  rcases transact_cases (webWriteTx s actor token (inputs.zip domains) now) db
    with h | ⟨r, db₂, hb, h⟩
  · exact .inl h
  rw [h]
  simp only [webWriteTx, Tx.bind_eq_ok, Tx.get_eq_ok] at hb
  obtain ⟨_, _, ⟨rfl, rfl⟩, user, _, hu, _, _, ha, _, db₁, hw, _, _, hc, hb⟩ := hb
  obtain ⟨-, rfl⟩ := result_eq_ok hu
  obtain ⟨-, rfl⟩ := result_eq_ok ha
  cases hb
  exact .inr ⟨user, domains, db₁, _, hd, hw, consumeToken_cookies hc, rfl⟩

/-! ## Shared cookies -/

/-- What the provider of accounts says about a jar. -/
structure AccountInfo where
  label : String
  avatarUrl : Option String

def maxPoolBytes : Nat := 1024 * 1024 * 1024

def poolBytes (rows : List CookieRow) : Nat := bytesOf (rows.filter (·.isPool))

def sha256Text [Platform] (t : String) : String :=
  String.ofList (hexDigits 64 (Platform.sha256 t.toUTF8.data.toList).toNat)

/-- The row with the least identifier. -/
def oldest (rows : List CookieRow) : Option CookieRow :=
  @List.argmin _ _ Int.instLinearOrder.toPartialOrder.toPreorder
    Int.instLinearOrder.toDecidableLT CookieRow.id rows

theorem mem_of_oldest {rows : List CookieRow} {r : CookieRow} (h : oldest rows = some r) :
    r ∈ rows := List.argmin_mem h

/-- The shared row of the same session or content, the oldest first. -/
def pooled (rows : List CookieRow) (actor : Int) (domain : String)
    (session raw : Option String) (hash : String) : Option CookieRow :=
  oldest (rows.filter fun r =>
    r.userId == actor && r.domain == domain && r.isPool &&
      ((session.isSome && (r.sessionKey == session || (raw.isSome && r.sessionKey == raw))) ||
        r.contentHash == some hash))

/-- What a shared upload writes into the row it found. -/
def repool (content hash : String) (session label avatar : Option String) (now : Int)
    (r : CookieRow) : CookieRow :=
  { r with content := content, contentHash := some hash, sessionKey := session,
           isValid := true, updatedAt := now, validatedAt := none,
           label := label.or r.label, avatarUrl := avatar.or r.avatarUrl }

def poolWrite (actor : Int) (input : CookieInput) (domain : String) (hash : String)
    (session raw label avatar : Option String) (now : Int) : CookieStmt Int := do
  let db ← get
  let length := Text.byteLen input.content.toList
  match pooled db.cookies.rows actor domain session raw hash with
  | some row =>
      if row.bytes < length ∧ maxPoolBytes < poolBytes db.cookies.rows + (length - row.bytes) then
        throw .personalCookieCapacity
      else
        let _ ← updateCookies (·.id == row.id)
          (repool input.content hash session label avatar now)
        return row.id
  | none =>
      if maxPoolBytes < poolBytes db.cookies.rows + length then throw .personalCookieCapacity
      else
        insertCookie { personalRow actor domain input.content true now with
          isPool := true, contentHash := some hash, sessionKey := session,
          label := label, avatarUrl := avatar }

def webPoolUploadTx [Platform] (s : Service) (actor : Int) (input : CookieInput)
    (domain : CookieDomain) (fetched : Option AccountInfo) (now stamp : Int) :
    CookieStmt (Outcome Int) := do
  let db ← get
  result (webAuthorize s db actor now)
  if !webAdmin s db actor then throw .denied
  else
    let raw := rawSession domain.text input.content
    let id ← poolWrite actor input domain.text (sha256Text input.content)
      (raw.map sha256Text) raw
      ((fetched.map AccountInfo.label).or (label domain.text input.content))
      (fetched.bind AccountInfo.avatarUrl) stamp
    return .commit (.ok id)

/-- A shared upload. `early` is the database of the preflight at `before`, and `fetched`
what the provider of accounts answered by `now`. -/
def webPoolUpload [Platform] (s : Service) (early : CookieDb) (actor : Int)
    (input : CookieInput) (fetched : Option AccountInfo) (before now : Int) (db : CookieDb) :
    Except DownloadError Int × CookieDb :=
  match validateInput input with
  | .error e => (.error e, db)
  | .ok domain =>
      match webAuthorize s early actor before with
      | .error e => (.error e, db)
      | .ok () =>
          if !webAdmin s early actor then (.error .denied, db)
          else
            match fromTimestamp now with
            | none => (.error .invalidInput, db)
            | some stamp =>
                transact (webPoolUploadTx s actor input domain fetched now stamp) db

/-- A shared upload leaves the cookies alone, rewrites one row or adds one. -/
theorem webPoolUpload_cases [Platform] (s : Service) (early : CookieDb) (actor : Int)
    (input : CookieInput) (fetched : Option AccountInfo) (before now : Int) (db : CookieDb) :
    (webPoolUpload s early actor input fetched before now db).2 = db ∨
      ∃ domain hash session raw label avatar stamp id db',
        validateInput input = .ok domain ∧
        poolWrite actor input domain.text hash session raw label avatar stamp db =
          .ok (id, db') ∧
        webPoolUpload s early actor input fetched before now db = (.ok id, db') := by
  unfold webPoolUpload
  split
  · exact .inl rfl
  rename_i domain hd
  split
  · exact .inl rfl
  split
  · exact .inl rfl
  split
  · exact .inl rfl
  rename_i stamp _
  rcases transact_cases (webPoolUploadTx s actor input domain fetched now stamp) db
    with h | ⟨r, db₂, hb, h⟩
  · exact .inl h
  rw [h]
  simp only [webPoolUploadTx, Tx.bind_eq_ok, Tx.get_eq_ok, Tx.ite_apply_state] at hb
  obtain ⟨_, _, ⟨rfl, rfl⟩, _, _, ha, hb⟩ := hb
  obtain ⟨-, rfl⟩ := result_eq_ok ha
  split at hb
  · exact (Tx.throw_ne_ok.mp hb).elim
  obtain ⟨id, _, hw, hb⟩ := Tx.bind_eq_ok.mp hb
  cases hb
  exact .inr ⟨_, _, _, _, _, _, _, _, _, hd, hw, rfl⟩

theorem poolWrite_rows {actor : Int} {input : CookieInput} {domain hash : String}
    {session raw label avatar : Option String} {now id : Int}
    (h : poolWrite actor input domain hash session raw label avatar now db = .ok (id, db')) :
    (∃ row ∈ db.cookies.rows, row.isPool = true ∧ db'.cookies.rows = db.cookies.rows.map fun r =>
        if r.id == row.id then repool input.content hash session label avatar now r else r) ∨
      ∃ row : CookieRow, row.domain = domain ∧ row.isPool = true ∧
        db'.cookies.rows = db.cookies.rows ++ [row] := by
  obtain ⟨_, _, hg, h⟩ := Tx.bind_eq_ok.mp h
  obtain ⟨rfl, rfl⟩ := Tx.get_eq_ok.mp hg
  dsimp only at h
  cases hp : pooled db.cookies.rows actor domain session raw hash with
  | some row =>
      rw [hp] at h
      dsimp only at h
      rw [Tx.ite_apply_state] at h
      split at h
      · exact (Tx.throw_ne_ok.mp h).elim
      obtain ⟨_, _, hu, h⟩ := Tx.bind_eq_ok.mp h
      cases h
      have hmem := List.mem_filter.mp (mem_of_oldest hp)
      simp only [Bool.and_eq_true] at hmem
      exact .inl ⟨row, hmem.1, hmem.2.1.2, (updateCookies_eq_ok hu).2.1⟩
  | none =>
      rw [hp] at h
      dsimp only at h
      rw [Tx.ite_apply_state] at h
      split at h
      · exact (Tx.throw_ne_ok.mp h).elim
      · exact .inr ⟨_, rfl, rfl, (insertCookie_eq_ok h).2.1⟩

/-! ## OAuth tokens -/

def oauthDomain : String := "youtube.com"

def oauthCapacity (s : Service) (db : CookieDb) (actor : Int) (content : String) : Bool :=
  !(usage db.cookies.rows actor oauthDomain).updateExceeds (Text.byteLen content.toList) s.limits

def oauthStore (actor : Int) (content : String) (now : Int) : CookieStmt Unit :=
  match fromTimestamp now with
  | none => throw .invalidInput
  | some t => upsertCookie actor oauthDomain content true t

end YoinkCore.Downloads
