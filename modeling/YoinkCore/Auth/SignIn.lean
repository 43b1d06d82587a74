import YoinkCore.Auth.Token
import YoinkCore.Lib.Transaction

/-!
# Signing in

Who was told of by the messenger is registered and gets a token. What the messenger signs
determines what it says.
-/

namespace YoinkCore.Auth

open Lib
open Insight (JsonReader)
open Identity (TrustedProfile UserProfile UserRow IdentityDb IdentityStore dateTimeOk
  dateTimeOk_iff)

/-! ## Guards -/

/-- A guard of a reader that goes through. -/
theorem guard_eq_some {β : Type} {c : Prop} [Decidable c] {k : PUnit → Option β} {b : β} :
    (if c then none >>= k else k ⟨⟩) = some b ↔ ¬ c ∧ k ⟨⟩ = some b := by
  split
  · rename_i h
    exact ⟨nofun, fun hk => absurd h hk.1⟩
  · rename_i h
    exact ⟨fun hk => ⟨h, hk⟩, fun hk => hk.2⟩

theorem bind_eq_some {α β : Type} {x : Option α} {f : α → Option β} {b : β} :
    (x >>= f) = some b ↔ ∃ a, x = some a ∧ f a = some b :=
  Option.bind_eq_some_iff

/-! ## Signed fields -/

/-- A field as a form may carry it. -/
def PlainField (k v : String) : Prop :=
  '=' ∉ k.toList ∧ k.toList.any Text.isControl = false ∧ v.toList.any Text.isControl = false

variable {p : TrustedProfile} {config : AuthConfig} {fields : Fields} {now : Int}

variable {profile : TrustedProfile} {db : IdentityDb} {store : IdentityStore} {fields' : Fields}

theorem addField_plain {pair : Text.Str} (h : addField fields pair = some fields')
    (hp : ∀ k v, fields.lookup k = some v → PlainField k v) :
    ∀ k v, fields'.lookup k = some v → PlainField k v := by
  unfold addField at h
  obtain ⟨-, h⟩ := guard_eq_some.mp h
  obtain ⟨⟨key, value⟩, -, h⟩ := bind_eq_some.mp h
  obtain ⟨key, -, h⟩ := bind_eq_some.mp h
  obtain ⟨value, -, h⟩ := bind_eq_some.mp h
  obtain ⟨hplain, h⟩ := guard_eq_some.mp h
  obtain ⟨-, h⟩ := guard_eq_some.mp h
  obtain rfl := Option.some.inj h
  intro k v hk
  rw [Dict.lookup_insert_eq] at hk
  split at hk
  · rename_i he
    obtain rfl := Option.some.inj hk
    simp only [Bool.or_eq_true, decide_eq_true_eq, not_or, List.contains_iff_mem,
      Bool.not_eq_true] at hplain
    rw [he]
    exact ⟨hplain.1.1.2, hplain.1.2, hplain.2⟩
  · exact hp k v hk

theorem parseForm_plain {input : String} (h : parseForm input = some fields) :
    ∀ k v, fields.lookup k = some v → PlainField k v := by
  have hfold : ∀ (pairs : List Text.Str) (start : Fields),
      (∀ k v, start.lookup k = some v → PlainField k v) →
      pairs.foldlM addField start = some fields →
      ∀ k v, fields.lookup k = some v → PlainField k v := by
    intro pairs
    induction pairs with
    | nil =>
        intro start hs h
        obtain rfl := Option.some.inj h
        exact hs
    | cons pair rest ih =>
        intro start hs h
        obtain ⟨next, hnext, h⟩ := Option.bind_eq_some_iff.mp h
        exact ih next (addField_plain hnext hs) h
  simp only [parseForm] at h
  split at h
  · cases h
  · exact hfold _ ∅ (fun k v hk => by simp at hk) h

theorem mem_canonical {k v : String} :
    (k, v) ∈ canonical fields ↔ fields.lookup k = some v ∧ k ≠ "hash" := by
  have hmem : fields.lookup k = some v ↔ (⟨k, v⟩ : Sigma fun _ => String) ∈ fields.entries :=
    AList.mem_lookup_iff
  rw [canonical, List.mem_insertionSort, List.mem_map, hmem]
  constructor
  · rintro ⟨⟨k', v'⟩, he, hkv⟩
    obtain ⟨rfl, rfl⟩ := Prod.mk.inj hkv
    rw [List.mem_filter] at he
    exact ⟨he.1, of_decide_eq_true he.2⟩
  · rintro ⟨he, hk⟩
    exact ⟨⟨k, v⟩, List.mem_filter.mpr ⟨he, decide_eq_true hk⟩, rfl⟩

/-- One line of the text that is signed. -/
def checkLine (e : String × String) : Text.Str := e.1.toList ++ '=' :: e.2.toList

theorem checkLine_inj {a b : String × String} (ha : '=' ∉ a.1.toList) (hb : '=' ∉ b.1.toList)
    (h : checkLine a = checkLine b) : a = b := by
  have hsplit := Text.splitOnce_append ha a.2.toList
  rw [show a.1.toList ++ '=' :: a.2.toList = checkLine b from h, checkLine,
    Text.splitOnce_append hb] at hsplit
  obtain ⟨h1, h2⟩ := Prod.mk.inj (Option.some.inj hsplit)
  exact Prod.ext (String.toList_inj.mp h1.symm) (String.toList_inj.mp h2.symm)

theorem lines_inj {as bs : List (String × String)} (ha : ∀ e ∈ as, '=' ∉ e.1.toList)
    (hb : ∀ e ∈ bs, '=' ∉ e.1.toList) (h : as.map checkLine = bs.map checkLine) : as = bs := by
  induction as generalizing bs with
  | nil => exact (List.map_eq_nil_iff.mp h.symm).symm
  | cons a as ih =>
      cases bs with
      | nil => cases h
      | cons b bs =>
          rw [List.map_cons, List.map_cons, List.cons.injEq] at h
          rw [List.forall_mem_cons] at ha hb
          rw [checkLine_inj ha.1 hb.1 h.1, ih ha.2 hb.2 h.2]

theorem newline_not_mem_checkLine (hp : ∀ k v, fields.lookup k = some v → PlainField k v)
    {l : Text.Str} (hl : l ∈ (canonical fields).map checkLine) : '\n' ∉ l := by
  obtain ⟨⟨k, v⟩, he, rfl⟩ := List.mem_map.mp hl
  obtain ⟨-, hk, hv⟩ := hp k v (mem_canonical.mp he).1
  rw [List.any_eq_false] at hk hv
  intro h
  rcases List.mem_append.mp h with h | h
  · exact hk _ h rfl
  · rcases List.mem_cons.mp h with h | h
    · exact absurd h (by decide)
    · exact hv _ h rfl

/-- The lines can be read off the text that is signed. -/
theorem split_dataCheck (hp : ∀ k v, fields.lookup k = some v → PlainField k v)
    (hne : canonical fields ≠ []) :
    Text.split '\n' (dataCheck fields).toList = (canonical fields).map checkLine := by
  have hline := fun l hl => newline_not_mem_checkLine hp (l := l) hl
  have hcheck : (dataCheck fields).toList =
      List.intercalate ['\n'] ((canonical fields).map checkLine) := String.toList_ofList
  rw [hcheck]
  cases hl : (canonical fields).map checkLine with
  | nil => exact absurd (List.map_eq_nil_iff.mp hl) hne
  | cons first rest =>
      rw [hl] at hline
      exact Text.split_joined hline

/-- **The text that is signed determines the fields.** -/
theorem fields_of_dataCheck (hp : ∀ k v, fields.lookup k = some v → PlainField k v)
    (hp' : ∀ k v, fields'.lookup k = some v → PlainField k v) (hne : canonical fields ≠ [])
    (hne' : canonical fields' ≠ []) (hcheck : dataCheck fields = dataCheck fields')
    (hhash : fields.lookup "hash" = fields'.lookup "hash") (k : String) :
    fields.lookup k = fields'.lookup k := by
  have hlines : (canonical fields).map checkLine = (canonical fields').map checkLine := by
    rw [← split_dataCheck hp hne, ← split_dataCheck hp' hne', hcheck]
  have hcanonical : canonical fields = canonical fields' :=
    lines_inj (fun e he => (hp _ _ (mem_canonical.mp he).1).1)
      (fun e he => (hp' _ _ (mem_canonical.mp he).1).1) hlines
  by_cases hk : k = "hash"
  · rw [hk, hhash]
  · apply Option.ext
    intro v
    have hmem := @mem_canonical fields k v
    rw [hcanonical, mem_canonical] at hmem
    exact ⟨fun h => (hmem.mpr ⟨h, hk⟩).1, fun h => (hmem.mp ⟨h, hk⟩).1⟩

theorem verifyWebapp_eq_some [Hmac] [JsonReader] [UrlParser] {initData : String}
    (h : verifyWebapp config initData now = some profile) :
    ∃ fields signature decoded, parseForm initData = some fields ∧
      fields.lookup "hash" = some signature ∧ decodeHex (Bytes.ofText signature) = some decoded ∧
      Hmac.tag (webAppSecret config) (Bytes.ofText (dataCheck fields)) = decoded ∧
      profileOf config fields now = some profile := by
  obtain ⟨fields, hsigned, hprofile⟩ := bind_eq_some.mp h
  unfold signedFields at hsigned
  obtain ⟨-, hsigned⟩ := guard_eq_some.mp hsigned
  obtain ⟨fields', hfields, hsigned⟩ := bind_eq_some.mp hsigned
  obtain ⟨signature, hsignature, hsigned⟩ := bind_eq_some.mp hsigned
  obtain ⟨-, hsigned⟩ := guard_eq_some.mp hsigned
  obtain ⟨decoded, hdecoded, hsigned⟩ := bind_eq_some.mp hsigned
  obtain ⟨htag, hsigned⟩ := guard_eq_some.mp hsigned
  obtain rfl := Option.some.inj hsigned
  exact ⟨fields', signature, decoded, hfields, hsignature, hdecoded, not_not.mp htag, hprofile⟩

theorem asI64_le {v : Json} {n : Int} (h : v.asI64 = some n) : n ≤ 2 ^ 63 - 1 := by
  unfold Json.asI64 Json.asInt at h
  split at h
  · split at h
    · rename_i hn
      obtain rfl := Option.some.inj h
      exact hn.2
    · cases h
  · cases h

theorem optionalString_plain {object : List (String × Json)} {key : String} {limit : Nat}
    {value : Option String} (h : optionalString object key limit = some value) :
    validClaimString value limit = true := by
  unfold optionalString at h
  split at h
  · obtain rfl := Option.some.inj h
    rfl
  · obtain rfl := Option.some.inj h
    rfl
  · split at h
    · rename_i hs
      obtain rfl := Option.some.inj h
      exact hs
    · cases h
  · cases h

theorem profileOf_eq_some [JsonReader] [UrlParser]
    (h : profileOf config fields now = some profile) :
    (fields.lookup "auth_date").isSome = true ∧ 0 < profile.userId ∧
      profile.userId ≤ 2 ^ 63 - 1 ∧ validClaimString profile.username 64 = true ∧
      validClaimString profile.firstName 256 = true := by
  unfold profileOf at h
  obtain ⟨date, hdate, h⟩ := bind_eq_some.mp h
  obtain ⟨-, h⟩ := guard_eq_some.mp h
  obtain ⟨timestamp, -, h⟩ := bind_eq_some.mp h
  obtain ⟨-, h⟩ := guard_eq_some.mp h
  obtain ⟨-, h⟩ := guard_eq_some.mp h
  obtain ⟨text, -, h⟩ := bind_eq_some.mp h
  obtain ⟨user, -, h⟩ := bind_eq_some.mp h
  obtain ⟨-, h⟩ := guard_eq_some.mp h
  split at h
  · obtain ⟨id, hid, h⟩ := bind_eq_some.mp h
    obtain ⟨username, husername, h⟩ := bind_eq_some.mp h
    obtain ⟨firstName, hfirst, h⟩ := bind_eq_some.mp h
    obtain ⟨photoUrl, -, h⟩ := bind_eq_some.mp h
    obtain ⟨-, h⟩ := guard_eq_some.mp h
    obtain rfl := Option.some.inj h
    obtain ⟨hid, hpos⟩ := Option.filter_eq_some_iff.mp hid
    obtain ⟨v, -, hv⟩ := Option.bind_eq_some_iff.mp hid
    exact ⟨by rw [hdate]; rfl, of_decide_eq_true hpos, (asI64_le hv),
      optionalString_plain husername, optionalString_plain hfirst⟩
  · cases h

/-- What one key has signed with one signature are the same fields, unless two texts have
the same code. -/
theorem same_fields [Hmac] [JsonReader] [UrlParser] {initData initData' : String} {now' : Int}
    {profile' : TrustedProfile} (h : verifyWebapp config initData now = some profile)
    (h' : verifyWebapp config initData' now' = some profile')
    (hfields : parseForm initData = some fields) (hfields' : parseForm initData' = some fields')
    (hhash : fields.lookup "hash" = fields'.lookup "hash")
    (hinj : Hmac.tag (webAppSecret config) (Bytes.ofText (dataCheck fields)) =
      Hmac.tag (webAppSecret config) (Bytes.ofText (dataCheck fields')) →
      Bytes.ofText (dataCheck fields) = Bytes.ofText (dataCheck fields')) (k : String) :
    fields.lookup k = fields'.lookup k := by
  obtain ⟨f, signature, decoded, hf, hsig, hdec, htag, hprofile⟩ := verifyWebapp_eq_some h
  obtain ⟨f', signature', decoded', hf', hsig', hdec', htag', hprofile'⟩ := verifyWebapp_eq_some h'
  obtain rfl := Option.some.inj (hf.symm.trans hfields)
  obtain rfl := Option.some.inj (hf'.symm.trans hfields')
  have hsigned : ∀ {g : Fields}, (g.lookup "auth_date").isSome = true → canonical g ≠ [] := by
    intro g hg hnil
    obtain ⟨date, hdate⟩ := Option.isSome_iff_exists.mp hg
    have hmem := mem_canonical.mpr ⟨hdate, by decide⟩
    rw [hnil] at hmem
    cases hmem
  obtain rfl := Option.some.inj (hsig.symm.trans (hhash.trans hsig'))
  obtain rfl := Option.some.inj (hdec.symm.trans hdec')
  have hcheck : dataCheck f = dataCheck f' :=
    Bytes.toUTF8_inj (hinj (htag.trans htag'.symm))
  exact fields_of_dataCheck (parseForm_plain hf) (parseForm_plain hf')
    (hsigned (profileOf_eq_some hprofile).1) (hsigned (profileOf_eq_some hprofile').1) hcheck
    hhash k

/-! ## Signing in -/

def jwtProfile (user : UserProfile) : JwtProfile :=
  ⟨user.id, user.role.name, user.username, user.firstName⟩

/-- `issue` -/
def issue [Hmac] (config : AuthConfig) (user : UserProfile) (now : Int) : Option String :=
  issueToken config (jwtProfile user) now

/-- A profile is registered and its user gets a token, which names the user until it expires. -/
def SignsIn [Hmac] [JsonReader] (config : AuthConfig) (store : IdentityStore) (db : IdentityDb)
    (profile : TrustedProfile) (now issued : Int) : Prop :=
  ∃ user db' token, store.register now profile db = .ok (user, db') ∧
    issue config user issued = some token ∧
    ∀ later, verifyToken config token later =
      if issued + config.tokenTtlSecs ≤ later then none else some profile.userId

/-- What registration and the claims take of what the messenger may tell. -/
structure Fits (config : AuthConfig) (store : IdentityStore) (db : IdentityDb)
    (profile : TrustedProfile) (now issued : Int) : Prop where
  owner : store.ownerId.any (· ≤ 0) = false
  valid : profile.valid = true
  dated : ∀ row, db.users.lookup profile.userId = some row → row.dated = true
  stamp : ∀ row, db.users.lookup profile.userId = some row →
    dateTimeOk (max (row.updatedAt + 1) now) = true
  clock : db.users.lookup profile.userId = none → dateTimeOk (now / 1000000 * 1000000) = true
  username : ∀ row, db.users.lookup profile.userId = some row → profile.username = none →
    validClaimString row.username 64 = true
  firstName : ∀ row, db.users.lookup profile.userId = some row → profile.firstName = none →
    validClaimString row.firstName 256 = true
  expiry : issued + config.tokenTtlSecs ≤ 2 ^ 63 - 1

/-- A row that is refreshed and told. -/
theorem refreshed_dated {row next : UserRow} (hrow : row.dated = true)
    (h : row.refreshed p now = some next) :
    next.dated = dateTimeOk (max (row.updatedAt + 1) now) := by
  unfold UserRow.dated at hrow
  rw [Bool.and_eq_true] at hrow
  unfold UserRow.refreshed at h
  split at h
  · obtain rfl := Option.some.inj h
    simp only [UserRow.dated, hrow.1, Bool.true_and]
  · cases h

theorem newRow_dated (p : TrustedProfile) (role : Domain.Role) (now : Int) :
    (p.newRow role now).dated = dateTimeOk (now / 1000000 * 1000000) := by
  simp [UserRow.dated, TrustedProfile.newRow]

/-- Who is new is found as inserted. -/
theorem lookup_insertUser (h : db.users.lookup p.userId = none) (role : Domain.Role) (now : Int) :
    (db.insertUser p role now).users.lookup p.userId = some (p.newRow role now) := by
  rw [IdentityDb.insertUser, h, if_neg (by simp), Dict.lookup_insert_eq, if_pos rfl]

/-- What registration returns, and when it does. -/
theorem register_eq_ok {user : UserProfile} {db' : IdentityDb}
    (h : store.register now p db = .ok (user, db')) :
    store.ownerId.any (· ≤ 0) = false ∧ p.valid = true ∧
      (∀ row, db.users.lookup p.userId = some row → row.dated = true ∧
        dateTimeOk (max (row.updatedAt + 1) now) = true) ∧
      (db.users.lookup p.userId = none → dateTimeOk (now / 1000000 * 1000000) = true) ∧
      user.id = p.userId ∧
      user.username = p.username.or ((db.users.lookup p.userId).bind (·.username)) ∧
      user.firstName = p.firstName.or ((db.users.lookup p.userId).bind (·.firstName)) := by
  unfold IdentityStore.register at h
  obtain ⟨hids, h⟩ := Tx.result_guard_eq_ok.mp h
  obtain ⟨hvalid, h⟩ := Tx.result_guard_eq_ok.mp h
  simp only [Bool.or_eq_true, not_or, Bool.not_eq_true] at hids
  simp only [Bool.not_eq_true', Bool.not_eq_false] at hvalid
  refine ⟨hids.2, hvalid, ?_⟩
  cases hrow : db.users.lookup p.userId with
  | some row =>
      rw [hrow] at h
      obtain ⟨-, h⟩ := Tx.result_guard_eq_ok.mp h
      obtain ⟨_, hexisting, h⟩ := Tx.result_bind_eq_ok.mp h
      obtain ⟨hdated, rfl⟩ := UserRow.decodeProfile_eq_ok.mp hexisting
      obtain ⟨-, h⟩ := Tx.result_guard_eq_ok.mp h
      dsimp only at h
      cases hnew : row.refreshed p now with
      | none =>
          rw [hnew] at h
          cases h
      | some next =>
          rw [hnew] at h
          obtain ⟨_, hprofile, h⟩ := Tx.result_bind_eq_ok.mp h
          obtain ⟨hnext, rfl⟩ := UserRow.decodeProfile_eq_ok.mp hprofile
          rw [refreshed_dated hdated hnew] at hnext
          refine ⟨fun r hr => Option.some.inj hr ▸ ⟨hdated, hnext⟩, nofun, ?_⟩
          unfold UserRow.refreshed at hnew
          split at hnew
          · obtain rfl := Option.some.inj hnew
            obtain ⟨hu, -⟩ := Prod.mk.inj (Except.ok.inj h)
            rw [← hu]
            split <;> exact ⟨rfl, rfl, rfl⟩
          · cases hnew
  | none =>
      rw [hrow] at h
      obtain ⟨role, -, h⟩ := Tx.result_bind_eq_ok.mp h
      simp only [lookup_insertUser hrow] at h
      obtain ⟨_, hprofile, h⟩ := Tx.result_bind_eq_ok.mp h
      obtain ⟨hdated, rfl⟩ := UserRow.decodeProfile_eq_ok.mp hprofile
      obtain ⟨rfl, -⟩ := Prod.mk.inj (Except.ok.inj h)
      rw [newRow_dated] at hdated
      refine ⟨nofun, fun _ => hdated, ?_⟩
      simp [UserRow.profile, TrustedProfile.newRow]

theorem register_of_fits {issued : Int} (hid : 0 < p.userId)
    (hfits : Fits config store db p now issued)
    (hallowed : ∀ row, db.users.lookup p.userId = some row →
      (⟨p.userId, row.role, row.banUntil⟩ : Domain.Principal).isBlocked now = false)
    (hpolicy : ∃ role, db.registrationRole = .ok role) :
    ∃ user db', store.register now p db = .ok (user, db') := by
  have hids : ¬ (decide (p.userId ≤ 0) || store.ownerId.any (· ≤ 0)) = true := by
    simp only [hfits.owner, Bool.or_false, decide_eq_true_eq]
    omega
  unfold IdentityStore.register
  rw [if_neg hids, if_neg (by rw [hfits.valid]; decide)]
  cases hrow : db.users.lookup p.userId with
  | some row =>
      have hdated := hfits.dated row hrow
      have hstamp := hfits.stamp row hrow
      have hold := (dateTimeOk_iff.mp hstamp).2
      have hne : (row.profile p.userId).updatedAt ≠ 2 ^ 63 - 1 := by
        show row.updatedAt ≠ _
        omega
      obtain ⟨next, hnext⟩ : ∃ next, row.refreshed p now = some next :=
        ⟨_, if_pos (by omega)⟩
      have hnextDated : next.dated = true := (refreshed_dated hdated hnext).trans hstamp
      dsimp only
      rw [if_neg (by rw [hallowed row hrow]; decide),
        UserRow.decodeProfile_eq_ok.mpr ⟨hdated, rfl⟩]
      dsimp only [bind, Except.bind]
      rw [if_neg hne, hnext]
      dsimp only
      rw [UserRow.decodeProfile_eq_ok.mpr ⟨hnextDated, rfl⟩]
      exact ⟨_, _, rfl⟩
  | none =>
      obtain ⟨role, hrole⟩ := hpolicy
      dsimp only
      rw [hrole]
      simp only [bind, Except.bind, lookup_insertUser hrow]
      rw [UserRow.decodeProfile_eq_ok.mpr ⟨(newRow_dated ..).trans (hfits.clock hrow), rfl⟩]
      exact ⟨_, _, rfl⟩

theorem validRole_name (role : Domain.Role) : validRole role.name = true := by
  cases role <;> decide +kernel

/-- A name that is told or else was stored is a claim if the one is and the other would be. -/
theorem claim_or_iff {told stored : Option String} {limit : Nat}
    (h : validClaimString told limit = true) :
    validClaimString (told.or stored) limit = true ↔
      (told = none → validClaimString stored limit = true) := by
  cases told with
  | none => simp
  | some s => simpa using h

theorem issueToken_isSome [Hmac] {p : JwtProfile} :
    (∃ token, issueToken config p now = some token) ↔
      0 < p.userId ∧ validRole p.role = true ∧ validClaimString p.username 64 = true ∧
        validClaimString p.firstName 256 = true ∧ now + config.tokenTtlSecs ≤ 2 ^ 63 - 1 := by
  constructor
  · rintro ⟨token, h⟩
    unfold issueToken at h
    obtain ⟨hchecks, h⟩ := guard_eq_some.mp h
    obtain ⟨hexp, -⟩ := guard_eq_some.mp h
    simp only [Bool.or_eq_true, Bool.not_eq_true', decide_eq_true_eq, not_or, Bool.not_eq_false,
      Int.not_le] at hchecks
    obtain ⟨⟨⟨hpos, hrole⟩, husername⟩, hfirst⟩ := hchecks
    exact ⟨hpos, hrole, husername, hfirst, Int.not_lt.mp hexp⟩
  · rintro ⟨hpos, hrole, husername, hfirst, hexp⟩
    unfold issueToken
    rw [if_neg, if_neg (Int.not_lt.mpr hexp)]
    · exact ⟨_, rfl⟩
    · simp only [hrole, husername, hfirst, Bool.not_true, Bool.or_false, decide_eq_true_eq]
      omega

/-- **Who was told of signs in exactly if the profile fits, and what was signed determines the
fields.** -/
theorem sign_in [Hmac] [JsonReader] [UrlParser] (config : AuthConfig) (store : IdentityStore)
    (db : IdentityDb) (initData : String) (told now issued : Int) (profile : TrustedProfile)
    (haccepted : verifyWebapp config initData told = some profile)
    (hallowed : ∀ row, db.users.lookup profile.userId = some row →
      (⟨profile.userId, row.role, row.banUntil⟩ : Domain.Principal).isBlocked now = false)
    (hpolicy : ∃ role, db.registrationRole = .ok role)
    (hissued : -2 ^ 63 ≤ issued)
    (hmac : ∀ k m, (Hmac.tag k m).length = 32)
    (hheader : JsonReader.parse headerText = some headerJson)
    (hclaims : ∀ user db', store.register now profile db = .ok (user, db') →
      JsonReader.parse ((jwtProfile user).claims (issued + config.tokenTtlSecs)).text =
        some ((jwtProfile user).claims (issued + config.tokenTtlSecs)).json) :
    (SignsIn config store db profile now issued ↔ Fits config store db profile now issued) ∧
      ∀ initData' told' profile' fields fields',
        verifyWebapp config initData' told' = some profile' →
        parseForm initData = some fields → parseForm initData' = some fields' →
        fields.lookup "hash" = fields'.lookup "hash" →
        (Hmac.tag (webAppSecret config) (Bytes.ofText (dataCheck fields)) =
            Hmac.tag (webAppSecret config) (Bytes.ofText (dataCheck fields')) →
          Bytes.ofText (dataCheck fields) = Bytes.ofText (dataCheck fields')) →
        ∀ k, fields.lookup k = fields'.lookup k := by
  refine ⟨?_, fun _ _ _ _ _ h' hf hf' hhash hinj => same_fields haccepted h' hf hf' hhash hinj⟩
  obtain ⟨_, _, _, _, _, _, _, hprofile⟩ := verifyWebapp_eq_some haccepted
  obtain ⟨-, hpos, hmax, husername, hfirst⟩ := profileOf_eq_some hprofile
  constructor
  · rintro ⟨user, db', token, hregister, hissue, -⟩
    obtain ⟨howner, hvalid, hdates, hclock, hid, hu, hf⟩ := register_eq_ok hregister
    obtain ⟨-, -, hname, hfname, hexp⟩ := issueToken_isSome.mp ⟨token, hissue⟩
    simp only [jwtProfile, hu, hf, claim_or_iff husername, claim_or_iff hfirst] at hname hfname
    exact {
      owner := howner
      valid := hvalid
      dated := fun row hrow => (hdates row hrow).1
      stamp := fun row hrow => (hdates row hrow).2
      clock := hclock
      username := fun row hrow hn => by simpa [hrow] using hname hn
      firstName := fun row hrow hn => by simpa [hrow] using hfname hn
      expiry := hexp }
  · intro hfits
    obtain ⟨user, db', hregister⟩ := register_of_fits hpos hfits hallowed hpolicy
    obtain ⟨-, -, -, -, hid, hu, hf⟩ := register_eq_ok hregister
    have hname : validClaimString user.username 64 = true := by
      rw [hu, claim_or_iff husername]
      intro hn
      cases hrow : db.users.lookup profile.userId with
      | none => rfl
      | some row => exact hfits.username row hrow hn
    have hfname : validClaimString user.firstName 256 = true := by
      rw [hf, claim_or_iff hfirst]
      intro hn
      cases hrow : db.users.lookup profile.userId with
      | none => rfl
      | some row => exact hfits.firstName row hrow hn
    obtain ⟨token, htoken⟩ : ∃ token, issueToken config (jwtProfile user) issued = some token :=
      issueToken_isSome.mpr ⟨by rw [jwtProfile, hid]; exact hpos, validRole_name _, hname, hfname,
        hfits.expiry⟩
    refine ⟨user, db', token, hregister, htoken, fun later => ?_⟩
    rw [verify_issued htoken (by rw [jwtProfile, hid]; exact hmax) hissued hmac hheader
      (hclaims user db' hregister) later, jwtProfile, hid]

section

def exampleConfig : AuthConfig where
  botToken := "123456:ABC"
  jwtSecret := "jwt-secret"
  maxAgeSecs := 3600
  futureSkewSecs := 30
  tokenTtlSecs := 3600
  botToken_ok := by decide +kernel
  jwtSecret_ok := by decide +kernel
  maxAge_ok := by decide
  futureSkew_ok := by decide
  tokenTtl_ok := by decide

def exampleUser (name : String) : String :=
  "\x7b\"id\":7,\"first_name\":\"" ++ name ++ "\"\x7d"

def exampleToken (name : String) : TokenClaims := ⟨"7", "user", 4600, none, some name⟩

def exampleSecret : List UInt8 :=
  [37, 86, 87, 97, 8, 65, 106, 128, 8, 226, 254, 236, 26, 120, 201, 121,
   165, 174, 108, 173, 111, 29, 156, 106, 121, 232, 209, 103, 129, 247, 127, 17]

/-- The codes of the two texts that are signed here. -/
@[reducible] def exampleHmac (name : String) (code mac : List UInt8) : Hmac where
  tag key message :=
    let input := Base64.encode (Bytes.ofText headerText) ++ '.' ::
      Base64.encode (Bytes.ofText (exampleToken name).text)
    if key = Bytes.ofText "WebAppData" ∧ message = Bytes.ofText "123456:ABC" then exampleSecret
    else if key = exampleSecret ∧
      message = Bytes.ofText ("auth_date=1000\nuser=" ++ exampleUser name) then code
    else if key = Bytes.ofText "jwt-secret" ∧ message = Bytes.ofText (String.ofList input) then mac
    else List.replicate 32 0

@[reducible] def exampleReader (name : String) : JsonReader where
  parse s :=
    if s = exampleUser name then some (.obj [("id", .int 7), ("first_name", .str name)])
    else if s = headerText then some headerJson
    else if s = (exampleToken name).text then some (exampleToken name).json
    else none

@[reducible] def exampleUrls : UrlParser := ⟨fun _ => none⟩

theorem exampleDb_policies : ∀ (key : Int × Int) p,
    (∅ : Dict (Int × Int) Identity.PolicyRow).lookup key = some p →
      ((∅ : Dict Int Identity.GroupRow).lookup key.2).isSome = true := by
  intro _ _ h
  cases h

def exampleDb : IdentityDb where
  users := ∅
  permissions := ∅
  settings := ∅
  groups := ∅
  policies := ∅
  threads := []
  bots := ∅
  members := ∅
  groupSuppressions := []
  featureSuppressions := []
  byok := ∅
  policyGroup := exampleDb_policies

def adaData : String :=
  "auth_date=1000&user=\x7b\"id\":7,\"first_name\":\"Ada\"\x7d" ++
    "&hash=5f3899e6bca7f0209cede27a54c22b07cfd02426fe34e7093d4c90267570dff9"

/-- The same fields in another order. -/
def adaDataToo : String :=
  "user=\x7b%22id%22:7,%22first_name%22:%22Ada%22\x7d" ++
    "&auth_date=1000&hash=5f3899e6bca7f0209cede27a54c22b07cfd02426fe34e7093d4c90267570dff9"

def ada : TrustedProfile := ⟨7, none, some "Ada", none⟩

@[reducible] def adaHmac : Hmac :=
  exampleHmac "Ada"
    [95, 56, 153, 230, 188, 167, 240, 32, 156, 237, 226, 122, 84, 194, 43, 7,
     207, 208, 36, 38, 254, 52, 231, 9, 61, 76, 144, 38, 117, 112, 223, 249]
    [132, 11, 209, 187, 82, 44, 58, 213, 58, 193, 61, 223, 212, 209, 98, 140,
     201, 200, 130, 3, 175, 189, 130, 116, 133, 159, 166, 66, 49, 156, 101, 74]

@[reducible] def adaReader : JsonReader := exampleReader "Ada"

attribute [local instance] exampleUrls adaHmac adaReader

theorem ada_signs_in :
    SignsIn exampleConfig ⟨none, false⟩ exampleDb ada 1000000000 1000 ∧
      ∀ fields fields', parseForm adaData = some fields → parseForm adaDataToo = some fields' →
        ∀ k, fields.lookup k = fields'.lookup k := by
  have hnew : ∀ row, exampleDb.users.lookup ada.userId ≠ some row := by
    intro row h
    rw [exampleDb, AList.lookup_empty] at h
    cases h
  have hregister : IdentityStore.register ⟨none, false⟩ 1000000000 ada exampleDb =
      .ok ((ada.newRow .user 1000000000).profile 7, exampleDb.insertUser ada .user 1000000000) :=
        rfl
  have hfits : Fits exampleConfig ⟨none, false⟩ exampleDb ada 1000000000 1000 := {
    owner := rfl
    valid := by decide +kernel
    dated := fun row h => absurd h (hnew row)
    stamp := fun row h => absurd h (hnew row)
    clock := fun _ => by decide
    username := fun row h => absurd h (hnew row)
    firstName := fun row h => absurd h (hnew row)
    expiry := by decide }
  obtain ⟨hsign, hfields⟩ := sign_in exampleConfig ⟨none, false⟩ exampleDb adaData 1000 1000000000
    1000 ada (by decide +kernel) (fun row h => absurd h (hnew row)) ⟨.user, rfl⟩ (by decide)
    (by
      intro k m
      simp only [Hmac.tag]
      split
      · decide +kernel
      split
      · decide +kernel
      split
      · decide +kernel
      · rfl)
    (by decide +kernel)
    (by
      intro user db' h
      obtain ⟨rfl, -⟩ := Prod.mk.inj (Except.ok.inj (hregister.symm.trans h))
      decide +kernel)
  refine ⟨hsign.mpr hfits, fun fields fields' hf hf' => ?_⟩
  have hsame : (parseForm adaData).map (fun f => (f.lookup "hash", dataCheck f)) =
      (parseForm adaDataToo).map fun f => (f.lookup "hash", dataCheck f) := by decide +kernel
  rw [hf, hf'] at hsame
  obtain ⟨hhash, hcheck⟩ := Prod.mk.inj (Option.some.inj hsame)
  exact hfields adaDataToo 1000 ada fields fields' (by decide +kernel) hf hf' hhash
    fun _ => congrArg Bytes.ofText hcheck

end

section

def longName : String := String.ofList (List.replicate 33 '😀')

def longText : Text.Str :=
  "auth_date=1000&user=\x7b\"id\":7,\"first_name\":\"".toList ++ List.replicate 33 '😀' ++
    "\"\x7d&hash=4a40bffdb5f286f3e21bda0c56273da3".toList ++
    "f09784a0c949c1e57069dcfe727d285b".toList

@[reducible] def longHmac : Hmac :=
  exampleHmac longName
    [74, 64, 191, 253, 181, 242, 134, 243, 226, 27, 218, 12, 86, 39, 61, 163,
     240, 151, 132, 160, 201, 73, 193, 229, 112, 105, 220, 254, 114, 125, 40, 91]
    [231, 247, 149, 230, 201, 18, 130, 26, 223, 146, 20, 4, 163, 216, 112, 111,
     227, 54, 251, 140, 199, 61, 22, 124, 67, 228, 189, 31, 184, 177, 240, 179]

@[reducible] def longReader : JsonReader := exampleReader longName

attribute [local instance] exampleUrls longHmac longReader

/-- A first name of 132 bytes is accepted, and refused when its user is registered. -/
theorem long_name_refused :
    verifyWebapp exampleConfig (String.ofList longText) 1000 = some ⟨7, none, some longName, none⟩ ∧
      exampleDb.users.lookup 7 = none ∧ exampleDb.registrationRole = .ok .user ∧
      ¬ SignsIn exampleConfig ⟨none, false⟩ exampleDb ⟨7, none, some longName, none⟩ 1000000000
        1000 := by
  refine ⟨?_, by decide +kernel, by decide +kernel, ?_⟩
  · simp only [verifyWebapp, signedFields, parseForm, String.toList_ofList]
    decide +kernel
  rintro ⟨user, db', token, hregister, -⟩
  exact absurd (register_eq_ok hregister).2.1 (by decide +kernel)

end

end YoinkCore.Auth
