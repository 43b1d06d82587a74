import YoinkCore.Downloads.CookieImport
import YoinkCore.Downloads.CookieLimits

/-!
# Single-use tokens

A user of the web draws a token and hands it to a browser extension, which submits cookies
with it. The token is consumed by the transaction that writes the cookies. It expires after
ten minutes, and goes with the others of its user when they are revoked.
-/

namespace YoinkCore.Downloads

open Lib Domain Worker Storage

/-! ## The table of tokens -/

/-- Statements on the rest of the database add no token and change none. -/
def KeepsTokens (old new : CookieDb) : Prop :=
  ∀ hash, new.tokens hash = none ∨ new.tokens hash = old.tokens hash

theorem KeepsTokens.of_eq {old new : CookieDb} (h : new.tokens = old.tokens) :
    KeepsTokens old new :=
  fun hash => .inr (congrFun h hash)

/-- The database with the keys of its tokens, which are counted. -/
structure TokenDb where
  db : CookieDb
  hashes : List String
  nodup : hashes.Nodup
  listed : ∀ hash, (db.tokens hash).isSome = true ↔ hash ∈ hashes

namespace TokenDb

def count (w : TokenDb) (p : WebToken → Bool) : Nat :=
  w.hashes.countP fun hash => (w.db.tokens hash).any p

/-- The database after a statement that adds no token. -/
def retain (w : TokenDb) (db : CookieDb) (h : KeepsTokens w.db db) : TokenDb where
  db := db
  hashes := w.hashes.filter fun hash => (db.tokens hash).isSome
  nodup := w.nodup.filter _
  listed := by
    intro hash
    rw [List.mem_filter, ← w.listed]
    refine ⟨fun hs => ⟨?_, hs⟩, And.right⟩
    rcases h hash with he | he
    · rw [he] at hs
      cases hs
    · rwa [he] at hs

def withoutTokens (w : TokenDb) (p : WebToken → Bool) : CookieDb :=
  { w.db with tokens := fun hash => (w.db.tokens hash).filter fun t => !p t }

theorem keeps_withoutTokens (w : TokenDb) (p : WebToken → Bool) :
    KeepsTokens w.db (w.withoutTokens p) := by
  intro hash
  show (w.db.tokens hash).filter _ = none ∨ (w.db.tokens hash).filter _ = w.db.tokens hash
  cases w.db.tokens hash with
  | none => exact .inl rfl
  | some t =>
      cases hp : p t with
      | true => exact .inl (by rw [Option.filter_some, hp]; rfl)
      | false => exact .inr (by rw [Option.filter_some, hp]; rfl)

/-- `DELETE FROM cookie_web_tokens WHERE …`. -/
def deleteTokens (w : TokenDb) (p : WebToken → Bool) : TokenDb :=
  w.retain (w.withoutTokens p) (w.keeps_withoutTokens p)

/-- A new row of the table. -/
def addToken (w : TokenDb) (hash : String) (t : WebToken) (h : w.db.tokens hash = none) :
    TokenDb where
  db := { w.db with tokens := Function.update w.db.tokens hash (some t) }
  hashes := hash :: w.hashes
  nodup := by
    refine List.nodup_cons.mpr ⟨?_, w.nodup⟩
    rw [← w.listed, h]
    exact Bool.false_ne_true
  listed := by
    intro key
    by_cases hk : key = hash
    · subst hk
      simp
    · show (Function.update w.db.tokens hash (some t) key).isSome = true ↔ _
      rw [Function.update_of_ne hk, w.listed, List.mem_cons, or_iff_right hk]

theorem count_retain_le (w : TokenDb) {db : CookieDb} (h : KeepsTokens w.db db)
    (p : WebToken → Bool) : (w.retain db h).count p ≤ w.count p := by
  refine Nat.le_trans ?_ (List.Sublist.countP_le (List.filter_sublist
    (p := fun hash => (db.tokens hash).isSome) (l := w.hashes)))
  refine List.countP_mono_left ?_
  intro hash _ hp
  rcases h hash with he | he
  · rw [show (w.retain db h).db.tokens hash = none from he] at hp
    cases hp
  · rwa [show (w.retain db h).db.tokens hash = w.db.tokens hash from he] at hp

theorem count_deleteTokens_le (w : TokenDb) (p q : WebToken → Bool) :
    (w.deleteTokens p).count q ≤ w.count q :=
  w.count_retain_le (w.keeps_withoutTokens p) q

theorem count_addToken (w : TokenDb) {hash : String} {t : WebToken} (h : w.db.tokens hash = none)
    (p : WebToken → Bool) :
    (w.addToken hash t h).count p = w.count p + if p t then 1 else 0 := by
  have hnew : hash ∉ w.hashes := by
    rw [← w.listed, h]
    exact Bool.false_ne_true
  have hself : (w.addToken hash t h).db.tokens hash = some t := Function.update_self ..
  rw [count, count]
  show List.countP _ (hash :: w.hashes) = _
  rw [List.countP_cons, hself, Option.any_some]
  congr 1
  refine List.countP_congr ?_
  intro key hkey
  have hne : key ≠ hash := fun he => hnew (he ▸ hkey)
  rw [show (w.addToken hash t h).db.tokens key = w.db.tokens key from
    Function.update_of_ne hne ..]

end TokenDb

/-! ## Operations -/

def tokenTtl : Int := 600

structure CookieToken where
  token : String
  expiresIn : Int
  submitUrl : String
deriving DecidableEq

abbrev TokenStmt (α : Type) := Tx TokenDb DownloadError α

/-- `INSERT INTO cookie_web_tokens`, with the key and the check of the table. -/
def insertToken (hash : String) (t : WebToken) : TokenStmt Unit := fun w =>
  if h : hash.toList.length = 64 ∧ w.db.tokens hash = none then .ok ((), w.addToken hash t h.2)
  else .error .database

section

variable [Platform]

/-- Issue a token that was drawn at random. -/
def issueCookieTokenTx (s : Service) (actor now : Int) (token : String) :
    TokenStmt (Ended CookieToken) := do
  let w ← get
  Tx.ofExcept (webAuthorize s w.db actor now)
  let w := w.deleteTokens fun t => decide (t.expiresAt ≤ now)
  set w
  if 100000 ≤ w.count (fun _ => true) ∨ 128 ≤ w.count (·.userId == actor) then throw .capacity
  else
    let hash ← Tx.ofExcept (tokenHash token)
    if (2 : Int) ^ 63 - 1 < now + tokenTtl then throw .invalidInput
    else
      insertToken hash ⟨actor, now + tokenTtl⟩
      return .commit ⟨token, tokenTtl, "/api/v1/dl/cookies/submit"⟩

def issueCookieToken (s : Service) (actor now : Int) (token : String) (w : TokenDb) :
    Except DownloadError CookieToken × TokenDb :=
  Tx.run (issueCookieTokenTx s actor now token) w

omit [Platform] in
def revokeCookieTokensTx (s : Service) (actor now : Int) : TokenStmt (Ended Unit) := do
  let w ← get
  Tx.ofExcept (webAuthorize s w.db actor now)
  set (w.deleteTokens (·.userId == actor))
  return .commit ()

omit [Platform] in
def revokeCookieTokens (s : Service) (actor now : Int) (w : TokenDb) :
    Except DownloadError Unit × TokenDb :=
  Tx.run (revokeCookieTokensTx s actor now) w

/-! ### Submissions -/

variable {db db' : CookieDb}

theorem submitter_eq_ok {token : String} {now user : Int}
    (h : submitter db none (some token) now = .ok user) :
    ∃ hash t, tokenHash token = .ok hash ∧ db.tokens hash = some t ∧ now < t.expiresAt ∧
      t.userId = user := by
  unfold submitter at h
  dsimp only at h
  split at h
  · cases h
  rename_i hash hhash
  split at h
  · cases h
  rename_i t ht
  cases h
  obtain ⟨hlive, hexp⟩ := Option.filter_eq_some_iff.mp ht
  exact ⟨hash, t, hhash, hlive, of_decide_eq_true hexp, rfl⟩

omit [Platform] in
theorem upsertCookie_tokens {actor now : Int} {domain content : String} {valid : Bool} {u : Unit}
    (h : upsertCookie actor domain content valid now db = .ok (u, db')) :
    db'.tokens = db.tokens := by
  simp only [upsertCookie, Tx.bind_eq_ok] at h
  obtain ⟨n, db₁, hu, h⟩ := h
  obtain ⟨-, -, he⟩ := updateCookies_eq_ok hu
  have htokens : db₁.tokens = db.tokens := by rw [he]
  split at h
  · simp only [Tx.bind_eq_ok] at h
    obtain ⟨_, _, hi, h⟩ := h
    obtain ⟨-, rfl⟩ := Tx.pure_eq_ok.mp h
    obtain ⟨-, -, he'⟩ := insertCookie_eq_ok hi
    rw [he', ← htokens]
  · obtain ⟨-, rfl⟩ := Tx.pure_eq_ok.mp h
    exact htokens

omit [Platform] in
theorem writeInputs_tokens {s : Service} {actor now : Int}
    {inputs : List (CookieInput × CookieDomain)}
    (h : writeInputs s actor now inputs db = .ok ((), db')) : db'.tokens = db.tokens := by
  refine @writeInputs_relate s actor now (fun a b => b.tokens = a.tokens) (fun _ => rfl)
    (fun hab hbc => hbc.trans hab) ?_ _ _ _ h
  intro input domain a b hstep
  obtain ⟨-, _, _, hu⟩ := writeInput_eq_ok hstep
  exact upsertCookie_tokens hu

theorem consumeToken_tokens {token hash : String} {u : Unit} (hhash : tokenHash token = .ok hash)
    (h : consumeToken (some token) db = .ok (u, db')) :
    db'.tokens = Function.update db.tokens hash none := by
  obtain ⟨_, _, hg, h⟩ := Tx.bind_eq_ok.mp h
  obtain ⟨rfl, rfl⟩ := Tx.get_eq_ok.mp hg
  dsimp only at h
  rw [hhash] at h
  cases h
  rfl

/-- A submission with a token that goes through. -/
structure Submission (s : Service) (token : String) (inputs : List CookieInput) (now : Int)
    (db db' : CookieDb) (hash : String) (t : WebToken) : Prop where
  hashed : tokenHash token = .ok hash
  live : db.tokens hash = some t ∧ now < t.expiresAt
  authorized : webAuthorize s db t.userId now = .ok ()
  consumed : db'.tokens = Function.update db.tokens hash none
  written : ∃ domains db₁, inputs.mapM validateInput = .ok domains ∧
    (domains.map CookieDomain.text).Nodup ∧
    writeInputs s t.userId now (inputs.zip domains) db = .ok ((), db₁) ∧
    db'.cookies = db₁.cookies

/-- A submission with a token fails and leaves the database alone, or goes through. -/
theorem webWrite_token (s : Service) (token : String) (inputs : List CookieInput) (now : Int)
    (db : CookieDb) :
    (∃ e, webWrite s none (some token) inputs now db = (.error e, db)) ∨
      ∃ db' hash t, webWrite s none (some token) inputs now db = (.ok (), db') ∧
        Submission s token inputs now db db' hash t := by
  unfold webWrite
  split
  · exact .inl ⟨_, rfl⟩
  rename_i domains hdomains
  split
  swap
  · exact .inl ⟨_, rfl⟩
  rename_i hnodup
  unfold transact
  rcases Tx.run_spec (webWriteTx s none (some token) (inputs.zip domains) now) db
    with ⟨e, -, hr⟩ | ⟨r, db', hb, -⟩ | ⟨r, db', hb, hr⟩
  · exact .inl ⟨e, by rw [hr]⟩
  · simp only [webWriteTx, Tx.bind_eq_ok, Tx.get_eq_ok] at hb
    obtain ⟨_, _, -, _, _, -, _, _, -, _, _, -, _, _, -, hb⟩ := hb
    cases hb
  · rw [hr]
    simp only [webWriteTx, Tx.bind_eq_ok, Tx.get_eq_ok] at hb
    obtain ⟨_, _, ⟨rfl, rfl⟩, user, _, hu, _, _, ha, _, db₁, hw, _, _, hc, hb⟩ := hb
    obtain ⟨huser, rfl⟩ := result_eq_ok hu
    obtain ⟨hauth, rfl⟩ := result_eq_ok ha
    cases hb
    obtain ⟨hash, t, hhash, hlive, hexp, rfl⟩ := submitter_eq_ok huser
    refine .inr ⟨_, hash, t, rfl, hhash, ⟨hlive, hexp⟩, hauth, ?_, domains, db₁, hdomains, hnodup,
      hw, consumeToken_cookies hc⟩
    rw [consumeToken_tokens hhash hc, writeInputs_tokens hw]

end

/-! ## Jars that are stored -/

/-- The personal cookies of an actor for a domain are this jar. -/
structure JarStored (rows : List CookieRow) (actor : Int) (domain content : String) : Prop where
  present : ∃ r ∈ rows, r.isFor actor domain = true
  content : ∀ r ∈ rows, r.isFor actor domain = true → r.content = content

theorem CookieDomain.bare (d : CookieDomain) :
    (Text.trimMatches '.' d.text.toList).map Text.toLower = d.text.toList := by
  have hstart : Text.trimStart '.' d.text.toList = d.text.toList := by
    have hlabels := (validHost_iff.mp d.valid).2.2
    cases ht : d.text.toList with
    | nil => rfl
    | cons c rest =>
        rw [ht] at hlabels
        refine List.dropWhile_cons_of_neg ?_
        rw [decide_eq_true_eq]
        rintro rfl
        exact label_ne_nil (hlabels [] (by simp [Text.split])) rfl
  rw [Text.trimMatches, hstart]
  exact (validHost_unchanged d.valid).2

theorem personalRow_isFor (actor now id : Int) (d : CookieDomain) (content domain : String)
    (valid : Bool) :
    ({ personalRow actor d.text content valid now with id } : CookieRow).isFor actor domain = true ↔
      d.text = domain := by
  rw [CookieRow.isFor_iff]
  have hbare : ({ personalRow actor d.text content valid now with id } : CookieRow).bareDomain =
      d.text.toList := d.bare
  rw [hbare, String.toList_inj]
  exact and_iff_right ⟨rfl, rfl⟩

theorem rewriteRow_isFor (content : String) (valid : Bool) (now actor : Int) (domain : String)
    (r : CookieRow) : (rewriteRow content valid now r).isFor actor domain = r.isFor actor domain :=
  rfl

variable {s : Service} {db db' : CookieDb} {hash : String} {actor : Int}

variable {inputs : List (CookieInput × CookieDomain)} {d : CookieDomain} {t : WebToken}

theorem jarStored_upsert {now : Int} {content : String} {valid : Bool} {u : Unit}
    (h : upsertCookie actor d.text content valid now db = .ok (u, db')) :
    JarStored db'.cookies.rows actor d.text content := by
  rw [upsertCookie_rows h]
  split
  · rename_i hn
    have hnone := List.countP_eq_zero.mp hn
    constructor
    · exact ⟨_, List.mem_append_right _ (List.mem_singleton.mpr rfl),
        (personalRow_isFor ..).mpr rfl⟩
    · intro r hr hfor
      rcases List.mem_append.mp hr with hr | hr
      · exact absurd hfor (hnone r hr)
      · rw [List.mem_singleton.mp hr]
        rfl
  · rename_i hn
    obtain ⟨r, hr, hfor⟩ := List.countP_pos_iff.mp (Nat.pos_of_ne_zero hn)
    constructor
    · refine ⟨_, List.mem_map_of_mem hr, ?_⟩
      rw [if_pos hfor, rewriteRow_isFor]
      exact hfor
    · intro row hrow hrfor
      obtain ⟨old, hold, rfl⟩ := List.mem_map.mp hrow
      by_cases hof : old.isFor actor d.text = true
      · rw [if_pos hof]
        rfl
      · rw [if_neg hof] at hrfor
        exact absurd hrfor hof

/-- The jar of another domain stays. -/
theorem JarStored.upsert {now : Int} {domain content jar : String} {valid : Bool} {u : Unit}
    (hj : JarStored db.cookies.rows actor domain jar) (hne : d.text ≠ domain)
    (h : upsertCookie actor d.text content valid now db = .ok (u, db')) :
    JarStored db'.cookies.rows actor domain jar := by
  obtain ⟨r, hr, hfor⟩ := hj.present
  have hother : ∀ row : CookieRow, row.isFor actor domain = true →
      ¬ row.isFor actor d.text = true := by
    intro row h₁ h₂
    have h₃ := (CookieRow.isFor_iff.mp h₁).2
    rw [(CookieRow.isFor_iff.mp h₂).2, String.toList_inj] at h₃
    exact hne h₃
  rw [upsertCookie_rows h]
  split
  · constructor
    · exact ⟨r, List.mem_append_left _ hr, hfor⟩
    · intro row hrow hrfor
      rcases List.mem_append.mp hrow with hrow | hrow
      · exact hj.content row hrow hrfor
      · rw [List.mem_singleton.mp hrow, personalRow_isFor] at hrfor
        exact absurd hrfor hne
  · constructor
    · refine ⟨_, List.mem_map_of_mem hr, ?_⟩
      rw [if_neg (hother r hfor)]
      exact hfor
    · intro row hrow hrfor
      obtain ⟨old, hold, rfl⟩ := List.mem_map.mp hrow
      by_cases hof : old.isFor actor d.text = true
      · rw [if_pos hof, rewriteRow_isFor] at hrfor
        exact absurd hof (hother old hrfor)
      · rw [if_neg hof] at hrfor ⊢
        exact hj.content old hold hrfor

theorem JarStored.writeInputs {now : Int} {domain jar : String}
    (hj : JarStored db.cookies.rows actor domain jar) (hne : ∀ p ∈ inputs, p.2.text ≠ domain)
    (h : Downloads.writeInputs s actor now inputs db = .ok ((), db')) :
    JarStored db'.cookies.rows actor domain jar := by
  induction inputs generalizing db with
  | nil =>
      cases h
      exact hj
  | cons p inputs ih =>
      obtain ⟨_, db₁, h₁, h₂⟩ := Tx.bind_eq_ok.mp h
      obtain ⟨-, _, _, hu⟩ := writeInput_eq_ok h₁
      exact ih (hj.upsert (hne p List.mem_cons_self) hu)
        (fun q hq => hne q (List.mem_cons_of_mem _ hq)) h₂

/-- Every jar of a submission is stored when it is over. -/
theorem writeInputs_stored {now : Int} (hnodup : (inputs.map fun p => p.2.text).Nodup)
    (h : writeInputs s actor now inputs db = .ok ((), db')) :
    ∀ p ∈ inputs, JarStored db'.cookies.rows actor p.2.text p.1.content := by
  induction inputs generalizing db with
  | nil => nofun
  | cons p inputs ih =>
      obtain ⟨_, db₁, h₁, h₂⟩ := Tx.bind_eq_ok.mp h
      obtain ⟨-, _, _, hu⟩ := writeInput_eq_ok h₁
      rw [List.map_cons, List.nodup_cons] at hnodup
      intro q hq
      rcases List.mem_cons.mp hq with rfl | hq
      · refine (jarStored_upsert hu).writeInputs ?_ h₂
        intro r hr he
        exact hnodup.1 (he ▸ List.mem_map_of_mem (f := fun p => p.2.text) hr)
      · exact ih hnodup.2 h₂ q hq

theorem validated {inputs : List CookieInput} {domains : List CookieDomain}
    (h : inputs.mapM validateInput = .ok domains) :
    inputs.length = domains.length ∧
      ∀ input ∈ inputs, ∃ d, (input, d) ∈ inputs.zip domains ∧ validateInput input = .ok d := by
  induction inputs generalizing domains with
  | nil =>
      rw [List.mapM_nil] at h
      cases h
      exact ⟨rfl, nofun⟩
  | cons input inputs ih =>
      rw [List.mapM_cons, Tx.result_bind_eq_ok] at h
      obtain ⟨d, hd, h⟩ := h
      rw [Tx.result_bind_eq_ok] at h
      obtain ⟨ds, hds, h⟩ := h
      cases h
      obtain ⟨hlen, hall⟩ := ih hds
      refine ⟨congrArg Nat.succ hlen, ?_⟩
      intro i hi
      rcases List.mem_cons.mp hi with rfl | hi
      · exact ⟨d, List.mem_cons_self, hd⟩
      · obtain ⟨e, he, hv⟩ := hall i hi
        exact ⟨e, List.mem_cons_of_mem _ he, hv⟩

/-- A submission that goes through stores each of its jars for the actor of the token. -/
theorem Submission.stored [Platform] {token : String} {inputs : List CookieInput} {now : Int}
    (h : Submission s token inputs now db db' hash t) {input : CookieInput} (hi : input ∈ inputs) :
    ∃ d, validateInput input = .ok d ∧
      JarStored db'.cookies.rows t.userId d.text input.content := by
  obtain ⟨domains, db₁, hmap, hnodup, hw, hsame⟩ := h.written
  obtain ⟨hlen, hall⟩ := validated hmap
  obtain ⟨d, hmem, hd⟩ := hall input hi
  have hmaps : (inputs.zip domains).map (fun p => p.2.text) = domains.map CookieDomain.text := by
    have hsnd : (inputs.zip domains).map Prod.snd = domains :=
      List.map_snd_zip (le_of_eq hlen.symm)
    conv_rhs => rw [← hsnd]
    rw [List.map_map]
    rfl
  refine ⟨d, hd, ?_⟩
  rw [hsame]
  exact writeInputs_stored (hmaps ▸ hnodup) hw _ hmem

/-! ## Steps -/

inductive TokenEvent where
  | issue (actor : Int) (token : String) (answer : Except DownloadError CookieToken)
  | revoke (actor : Int) (answer : Except DownloadError Unit)
  | submit (body : CookieSubmit) (answer : Except DownloadError Unit)
  | wait (seconds : Nat)
  /-- Any other statement on the database, such as a ban or an upload. -/
  | elsewhere

structure TokenWorld where
  store : TokenDb
  clock : Int

section

variable [Platform]

def submitCookieToken (s : Service) (body : CookieSubmit) (now : Int) (db : CookieDb) :
    Except DownloadError Unit × CookieDb :=
  match body.inputs with
  | .error e => (.error e, db)
  | .ok inputs => webWrite s none (some body.token) inputs now db

/-- A submission adds no token. -/
theorem submit_keeps (s : Service) (body : CookieSubmit) (now : Int) (db : CookieDb) :
    KeepsTokens db (submitCookieToken s body now db).2 := by
  unfold submitCookieToken
  split
  · exact .of_eq rfl
  rename_i inputs _
  rcases webWrite_token s body.token inputs now db with ⟨e, h⟩ | ⟨db', hash, t, h, hsub⟩
  · rw [h]
    exact .of_eq rfl
  · rw [h]
    intro key
    show db'.tokens key = none ∨ db'.tokens key = db.tokens key
    rw [hsub.consumed]
    by_cases hk : key = hash
    · exact .inl (by rw [hk, Function.update_self])
    · exact .inr (Function.update_of_ne hk ..)

/-- The token is stored under this hash. -/
def hashesTo (token hash : String) : Bool :=
  match tokenHash token with
  | .ok key => key == hash
  | .error _ => false

theorem hashesTo_of_ok {token key : String} (h : tokenHash token = .ok key) (hash : String) :
    hashesTo token hash = (key == hash) := by
  rw [hashesTo, h]

namespace TokenEvent

/-- Cookies were stored with the token of this hash. -/
def accepts (hash : String) : TokenEvent → Bool
  | .submit body (.ok ()) => hashesTo body.token hash
  | _ => false

/-- A token with this hash was issued to the actor. -/
def issues (actor : Int) (hash : String) : TokenEvent → Bool
  | .issue user token (.ok _) => user == actor && hashesTo token hash
  | _ => false

/-- A token with this hash was issued. -/
def draws (hash : String) : TokenEvent → Bool
  | .issue _ token (.ok _) => hashesTo token hash
  | _ => false

omit [Platform] in
def revokes (actor : Int) : TokenEvent → Bool
  | .revoke user (.ok ()) => user == actor
  | _ => false

omit [Platform] in
/-- The operation was refused. -/
def fails : TokenEvent → Bool
  | .issue _ _ (.error _) | .revoke _ (.error _) | .submit _ (.error _) => true
  | _ => false

omit [Platform] in
def elapsed : TokenEvent → Nat
  | .wait seconds => seconds
  | _ => 0

end TokenEvent

/-- A step of the service, with its answer. Each operation is one immediate transaction, so
concurrent ones come one after the other, in any order. -/
inductive TokenStep (s : Service) (w : TokenWorld) : TokenEvent → TokenWorld → Prop
  | issue (actor : Int) (token : String) :
      TokenStep s w (.issue actor token (issueCookieToken s actor w.clock token w.store).1)
        { w with store := (issueCookieToken s actor w.clock token w.store).2 }
  | revoke (actor : Int) :
      TokenStep s w (.revoke actor (revokeCookieTokens s actor w.clock w.store).1)
        { w with store := (revokeCookieTokens s actor w.clock w.store).2 }
  | submit (body : CookieSubmit) :
      TokenStep s w (.submit body (submitCookieToken s body w.clock w.store.db).1)
        { w with store := w.store.retain _ (submit_keeps s body w.clock w.store.db) }
  | wait (seconds : Nat) : TokenStep s w (.wait seconds) { w with clock := w.clock + seconds }
  | elsewhere {db : CookieDb} (keeps : KeepsTokens w.store.db db) :
      TokenStep s w .elsewhere { w with store := w.store.retain db keeps }

/-! ### What a step does -/

omit [Platform] in
theorem TokenDb.retain_self (w : TokenDb) (h : KeepsTokens w.db db) (he : db = w.db) :
    w.retain db h = w := by
  subst he
  have hall : (w.hashes.filter fun hash => (w.db.tokens hash).isSome) = w.hashes :=
    List.filter_eq_self.mpr fun hash hm => (w.listed hash).mpr hm
  show TokenDb.mk _ (w.hashes.filter fun hash => (w.db.tokens hash).isSome) _ _ = w
  congr

theorem issueCookieToken_cases (s : Service) (actor now : Int) (token : String) (w : TokenDb) :
    (∃ e, issueCookieToken s actor now token w = (.error e, w)) ∨
      ∃ answer hash h, tokenHash token = .ok hash ∧
        (w.deleteTokens fun t => decide (t.expiresAt ≤ now)).count (·.userId == actor) < 128 ∧
        issueCookieToken s actor now token w = (.ok answer,
          (w.deleteTokens fun t => decide (t.expiresAt ≤ now)).addToken hash
            ⟨actor, now + tokenTtl⟩ h) := by
  rcases Tx.run_spec (issueCookieTokenTx s actor now token) w
    with ⟨e, -, hr⟩ | ⟨r, w', hb, -⟩ | ⟨r, w', hb, hr⟩
  · exact .inl ⟨e, hr⟩
  all_goals
    simp only [issueCookieTokenTx, Tx.bind_eq_ok, Tx.get_eq_ok, Tx.ofExcept_eq_ok, Tx.set_eq_ok,
      Tx.ite_apply_state] at hb
    obtain ⟨_, _, ⟨rfl, rfl⟩, _, _, ⟨-, rfl⟩, _, _, rfl, hb⟩ := hb
    split at hb
    · exact (Tx.throw_ne_ok.mp hb).elim
    rename_i hfull
    simp only [Tx.bind_eq_ok, Tx.ofExcept_eq_ok, Tx.ite_apply_state] at hb
    obtain ⟨hash, _, ⟨hhash, rfl⟩, hb⟩ := hb
    split at hb
    · exact (Tx.throw_ne_ok.mp hb).elim
    obtain ⟨_, _, hi, hb⟩ := Tx.bind_eq_ok.mp hb
  · cases hb
  · unfold insertToken at hi
    split at hi
    swap
    · cases hi
    rename_i hfree
    cases hi
    cases hb
    rw [not_or, Nat.not_le, Nat.not_le] at hfull
    exact .inr ⟨_, hash, hfree.2, hhash, hfull.2, hr⟩

omit [Platform] in
theorem revokeCookieTokens_cases (s : Service) (actor now : Int) (w : TokenDb) :
    (∃ e, revokeCookieTokens s actor now w = (.error e, w)) ∨
      revokeCookieTokens s actor now w = (.ok (), w.deleteTokens (·.userId == actor)) := by
  rcases Tx.run_spec (revokeCookieTokensTx s actor now) w
    with ⟨e, -, hr⟩ | ⟨r, w', hb, -⟩ | ⟨r, w', hb, hr⟩
  · exact .inl ⟨e, hr⟩
  all_goals
    simp only [revokeCookieTokensTx, Tx.bind_eq_ok, Tx.get_eq_ok, Tx.ofExcept_eq_ok,
      Tx.set_eq_ok] at hb
    obtain ⟨_, _, ⟨rfl, rfl⟩, _, _, ⟨-, rfl⟩, _, _, rfl, hb⟩ := hb
    cases hb
  exact .inr hr

/-- A submission is refused, or goes through with the jars of its body. -/
theorem submitCookieToken_cases (s : Service) (body : CookieSubmit) (now : Int) (db : CookieDb) :
    (∃ e, submitCookieToken s body now db = (.error e, db)) ∨
      ∃ inputs db' hash t, body.inputs = .ok inputs ∧
        submitCookieToken s body now db = (.ok (), db') ∧
        Submission s body.token inputs now db db' hash t := by
  unfold submitCookieToken
  split
  · exact .inl ⟨_, rfl⟩
  rename_i inputs hinputs
  rcases webWrite_token s body.token inputs now db with ⟨e, h⟩ | ⟨db', hash, t, h, hsub⟩
  · exact .inl ⟨e, h⟩
  · exact .inr ⟨inputs, db', hash, t, hinputs, h, hsub⟩

/-- What a step does to the token of a hash. -/
inductive TokenMove (clock : Int) (e : TokenEvent) (hash : String) :
    Option WebToken → Option WebToken → Prop
  | kept {x : Option WebToken} : e.accepts hash = false →
      (∀ t, x = some t → e.revokes t.userId = false) → TokenMove clock e hash x x
  | gone {x : Option WebToken} : e.accepts hash = false → TokenMove clock e hash x none
  | issued {x : Option WebToken} (actor : Int) : e.issues actor hash = true →
      TokenMove clock e hash x (some ⟨actor, clock + tokenTtl⟩)
  | accepted {t : WebToken} : e.accepts hash = true → clock < t.expiresAt →
      TokenMove clock e hash (some t) none

variable {e : TokenEvent} {es : List TokenEvent} {u v : TokenWorld}

variable {x : Option WebToken} {w w₀ : TokenWorld}

/-- A token that a condition does not delete is kept. -/
theorem TokenMove.filter {clock : Int} {p : WebToken → Bool} (ha : e.accepts hash = false)
    (hr : ∀ t, x = some t → p t = false → e.revokes t.userId = false) :
    TokenMove clock e hash x (x.filter fun t => !p t) := by
  cases x with
  | none => exact .gone ha
  | some t =>
      cases hp : p t with
      | true =>
          rw [Option.filter_some, hp]
          exact .gone ha
      | false =>
          rw [Option.filter_some, hp]
          exact .kept ha fun u hu => by
            cases hu
            exact hr t rfl hp

theorem TokenMove.retain {clock : Int} {y : Option WebToken} (h : y = none ∨ y = x)
    (ha : e.accepts hash = false) (hr : ∀ actor, e.revokes actor = false) :
    TokenMove clock e hash x y := by
  rcases h with rfl | rfl
  · exact .gone ha
  · exact .kept ha fun t _ => hr t.userId

theorem TokenStep.move (h : TokenStep s u e v) (hash : String) :
    TokenMove u.clock e hash (u.store.db.tokens hash) (v.store.db.tokens hash) := by
  cases h with
  | issue actor token =>
      rcases issueCookieToken_cases s actor u.clock token u.store
        with ⟨err, hi⟩ | ⟨answer, key, hfree, hkey, -, hi⟩
      · rw [hi]
        exact .kept rfl fun _ _ => rfl
      · rw [hi]
        show TokenMove _ _ _ _ (Function.update (_ : String → Option WebToken) key _ hash)
        by_cases hk : hash = key
        · subst hk
          rw [Function.update_self]
          refine .issued actor ?_
          rw [TokenEvent.issues, beq_self_eq_true, Bool.true_and, hashesTo_of_ok hkey,
            beq_self_eq_true]
        · rw [Function.update_of_ne hk]
          exact .filter rfl fun _ _ _ => rfl
  | revoke actor =>
      rcases revokeCookieTokens_cases s actor u.clock u.store with ⟨err, hi⟩ | hi
      · rw [hi]
        exact .kept rfl fun _ _ => rfl
      · rw [hi]
        refine TokenMove.filter rfl ?_
        intro t _ hp
        rw [beq_eq_false_iff_ne] at hp
        exact beq_eq_false_iff_ne.mpr (Ne.symm hp)
  | submit body =>
      rcases submitCookieToken_cases s body u.clock u.store.db
        with ⟨err, hi⟩ | ⟨inputs, db', key, t, -, hi, hsub⟩
      · show TokenMove _ _ _ _ ((submitCookieToken s body u.clock u.store.db).2.tokens hash)
        rw [hi]
        exact .kept rfl fun _ _ => rfl
      · show TokenMove _ _ _ _ ((submitCookieToken s body u.clock u.store.db).2.tokens hash)
        rw [hi]
        dsimp only
        rw [hsub.consumed]
        by_cases hk : hash = key
        · subst hk
          rw [Function.update_self, hsub.live.1]
          refine .accepted ?_ hsub.live.2
          rw [TokenEvent.accepts, hashesTo_of_ok hsub.hashed, beq_self_eq_true]
        · rw [Function.update_of_ne hk]
          refine .kept ?_ fun _ _ => rfl
          rw [TokenEvent.accepts, hashesTo_of_ok hsub.hashed]
          exact beq_eq_false_iff_ne.mpr (Ne.symm hk)
  | wait seconds => exact .kept rfl fun _ _ => rfl
  | elsewhere keeps => exact .retain (keeps hash) rfl fun _ => rfl

omit [Platform] in
theorem TokenStep.clock [Platform] (h : TokenStep s u e v) : v.clock = u.clock + e.elapsed := by
  cases h with
  | wait seconds => rfl
  | _ => exact (Int.add_zero _).symm

/-- An operation that is refused changes nothing. -/
theorem TokenStep.of_fails (h : TokenStep s u e v) (hf : e.fails = true) : v = u := by
  cases h with
  | issue actor token =>
      rcases issueCookieToken_cases s actor u.clock token u.store
        with ⟨err, hi⟩ | ⟨_, _, _, -, -, hi⟩
      · rw [hi]
      · rw [hi] at hf
        cases hf
  | revoke actor =>
      rcases revokeCookieTokens_cases s actor u.clock u.store with ⟨err, hi⟩ | hi
      · rw [hi]
      · rw [hi] at hf
        cases hf
  | submit body =>
      rcases submitCookieToken_cases s body u.clock u.store.db
        with ⟨err, hi⟩ | ⟨_, _, _, _, -, hi, -⟩
      · rw [TokenDb.retain_self _ _ (congrArg Prod.snd hi)]
      · rw [hi] at hf
        cases hf
  | wait seconds => cases hf
  | elsewhere keeps => cases hf

/-! ### Every run -/

/-- A token was issued to the actor so many seconds ago, and since then neither used nor
revoked. -/
def IssuedSince (es : List TokenEvent) (actor : Int) (hash : String) (seconds : Nat) : Prop :=
  ∃ before e after, es = before ++ e :: after ∧ e.issues actor hash = true ∧
    (∀ d ∈ after, d.accepts hash = false ∧ d.revokes actor = false) ∧
    (after.map TokenEvent.elapsed).sum = seconds

theorem IssuedSince.snoc {seconds : Nat} (h : IssuedSince es actor hash seconds)
    (ha : e.accepts hash = false) (hr : e.revokes actor = false) :
    IssuedSince (es ++ [e]) actor hash (seconds + e.elapsed) := by
  obtain ⟨before, i, after, rfl, hi, hquiet, rfl⟩ := h
  refine ⟨before, i, after ++ [e], ?_, hi, ?_, ?_⟩
  · rw [List.append_assoc, List.cons_append]
  · intro d hd
    rcases List.mem_append.mp hd with hd | hd
    · exact hquiet d hd
    · rw [List.mem_singleton.mp hd]
      exact ⟨ha, hr⟩
  · rw [List.map_append, List.sum_append, List.map_singleton, List.sum_singleton]

theorem issuedSince_last (h : e.issues actor hash = true) : IssuedSince (es ++ [e]) actor hash 0 :=
  ⟨es, e, [], rfl, h, nofun, rfl⟩

omit [Platform] in
theorem elapsed_of_issues [Platform] (h : e.issues actor hash = true) : e.elapsed = 0 := by
  cases e with
  | wait seconds => cases h
  | _ => rfl

/-- Every token of the table was issued, and expires ten minutes later. -/
theorem live_issued (h0 : w₀.store.hashes = []) (h : Run (TokenStep s) w₀ es w)
    (ht : w.store.db.tokens hash = some t) :
    ∃ seconds, IssuedSince es t.userId hash seconds ∧
      t.expiresAt + seconds = w.clock + tokenTtl := by
  induction h generalizing t with
  | nil =>
      have hm := (w₀.store.listed hash).mp (by rw [ht]; rfl)
      rw [h0] at hm
      cases hm
  | @snoc es u v e _ hstep ih =>
      have hmove := hstep.move hash
      have hclock := hstep.clock
      rw [ht] at hmove
      generalize hx : u.store.db.tokens hash = x at hmove
      cases hmove with
      | kept ha hr =>
          obtain ⟨seconds, hissued, hexp⟩ := ih hx
          refine ⟨_, hissued.snoc ha (hr t rfl), ?_⟩
          rw [hclock]
          omega
      | issued actor hi =>
          refine ⟨0, issuedSince_last hi, ?_⟩
          rw [hclock, elapsed_of_issues hi]
          simp

/-- A hash is accepted at most as often as a token with it was issued. -/
theorem accepted_le_drawn (h : Run (TokenStep s) w₀ es w) (h0 : w₀.store.hashes = [])
    (hash : String) :
    es.countP (·.accepts hash) + (if (w.store.db.tokens hash).isSome then 1 else 0) ≤
      es.countP (·.draws hash) := by
  induction h with
  | nil =>
      rw [if_neg]
      · exact Nat.le_refl 0
      · rw [w₀.store.listed, h0]
        exact List.not_mem_nil
  | @snoc es u v e _ hstep ih =>
      have hmove := hstep.move hash
      rw [List.countP_append, List.countP_append, List.countP_singleton, List.countP_singleton]
      generalize u.store.db.tokens hash = x at hmove ih
      generalize v.store.db.tokens hash = y at hmove
      cases hmove with
      | kept ha _ =>
          rw [ha, if_neg Bool.false_ne_true]
          omega
      | gone ha =>
          rw [ha, if_neg Bool.false_ne_true, Option.isSome_none, if_neg Bool.false_ne_true]
          omega
      | issued actor hi =>
          have hnot : e.accepts hash = false ∧ e.draws hash = true := by
            cases e with
            | issue user token answer =>
                cases answer with
                | error _ => cases hi
                | ok _ => exact ⟨rfl, (Bool.and_eq_true_iff.mp hi).2⟩
            | _ => cases hi
          rw [hnot.1, hnot.2, if_neg Bool.false_ne_true, if_pos rfl, Option.isSome_some,
            if_pos rfl]
          omega
      | accepted ha _ =>
          rw [Option.isSome_some, if_pos rfl] at ih
          rw [ha, if_pos rfl, Option.isSome_none, if_neg Bool.false_ne_true]
          omega

/-- No one holds more tokens than are issued at a time. -/
def Bounded (w : TokenWorld) : Prop := ∀ actor : Int, w.store.count (·.userId == actor) ≤ 128

theorem Bounded.step (hb : Bounded u) (h : TokenStep s u e v) : Bounded v := by
  intro user
  cases h with
  | issue actor token =>
      rcases issueCookieToken_cases s actor u.clock token u.store
        with ⟨err, hi⟩ | ⟨_, _, _, -, hfree, hi⟩
      · rw [hi]
        exact hb user
      · rw [hi]
        dsimp only
        rw [TokenDb.count_addToken]
        by_cases hu : actor = user
        · subst hu
          rw [beq_self_eq_true, if_pos rfl]
          exact hfree
        · rw [if_neg (by rw [beq_iff_eq]; exact hu), Nat.add_zero]
          exact (u.store.count_deleteTokens_le _ _).trans (hb user)
  | revoke actor =>
      rcases revokeCookieTokens_cases s actor u.clock u.store with ⟨err, hi⟩ | hi
      · rw [hi]
        exact hb user
      · rw [hi]
        exact (u.store.count_deleteTokens_le _ _).trans (hb user)
  | submit body =>
      exact (u.store.count_retain_le (submit_keeps s body u.clock u.store.db) _).trans (hb user)
  | wait seconds => exact hb user
  | elsewhere keeps => exact (u.store.count_retain_le keeps _).trans (hb user)

omit [Platform] in
theorem bounded_of_empty (h : w.store.hashes = []) : Bounded w := by
  intro actor
  rw [TokenDb.count, h]
  exact Nat.zero_le _

/-- What a submission did that was accepted in the state `u` after the events `pre`. -/
structure Consumed (pre : List TokenEvent) (u v : TokenWorld) (body : CookieSubmit)
    (hash : String) (actor : Int) (inputs : List CookieInput) : Prop where
  hashed : tokenHash body.token = .ok hash
  /-- It was issued less than ten minutes ago, and since then neither used nor revoked. -/
  issued : ∃ seconds, IssuedSince pre actor hash seconds ∧ (seconds : Int) < tokenTtl
  held : (u.store.db.tokens hash).isSome = true
  removed : v.store.db.tokens = Function.update u.store.db.tokens hash none
  jars : body.inputs = .ok inputs
  stored : ∀ input ∈ inputs, ∃ d, validateInput input = .ok d ∧
    JarStored v.store.db.cookies.rows actor d.text input.content

/-- **A token is consumed exactly with its write.** In every run: a submission that goes
through stores its jars for the actor its token was issued to, and removes the token; a token
is accepted at most as often as it was issued; what is refused changes nothing; and no one
holds more than 128 tokens, expired or not. -/
theorem cookie_tokens_once {s : Service} {w₀ u v : TokenWorld} {pre : List TokenEvent}
    {e : TokenEvent} (h0 : w₀.store.hashes = []) (hrun : Run (TokenStep s) w₀ pre u)
    (hstep : TokenStep s u e v) :
    (∀ body, e = .submit body (.ok ()) → ∃ hash actor inputs,
      Consumed pre u v body hash actor inputs) ∧
    (∀ hash, (pre ++ [e]).countP (·.accepts hash) ≤ (pre ++ [e]).countP (·.draws hash)) ∧
    (e.fails = true → v = u) ∧
    ∀ actor : Int, v.store.count (·.userId == actor) ≤ 128 := by
  have hrun' := hrun.snoc hstep
  refine ⟨?_, ?_, hstep.of_fails, ?_⟩
  · intro body he
    cases hstep with
    | submit body' =>
        obtain ⟨hbody, hanswer⟩ := TokenEvent.submit.inj he
        subst hbody
        rcases submitCookieToken_cases s body' u.clock u.store.db
          with ⟨err, hi⟩ | ⟨inputs, db', hash, t, hinputs, hi, hsub⟩
        · rw [hi] at hanswer
          cases hanswer
        · obtain ⟨seconds, hissued, hexp⟩ := live_issued h0 hrun hsub.live.1
          have hdb : (submitCookieToken s body' u.clock u.store.db).2 = db' := by rw [hi]
          refine ⟨hash, t.userId, inputs, hsub.hashed, ⟨seconds, hissued, ?_⟩, ?_, ?_, hinputs, ?_⟩
          · have hlive := hsub.live.2
            omega
          · rw [hsub.live.1]
            rfl
          · show (submitCookieToken s body' u.clock u.store.db).2.tokens = _
            rw [hdb, hsub.consumed]
          · intro input hinput
            obtain ⟨d, hd, hjar⟩ := hsub.stored hinput
            refine ⟨d, hd, ?_⟩
            show JarStored (submitCookieToken s body' u.clock u.store.db).2.cookies.rows _ _ _
            rw [hdb]
            exact hjar
    | _ => cases he
  · intro hash
    exact le_trans (Nat.le_add_right _ _) (accepted_le_drawn hrun' h0 hash)
  · exact Run.invariant (fun hb hs => hb.step hs) hrun' (bounded_of_empty h0)

end

namespace SingleUseScenario

def service : Service := ⟨1, none, ⟨128, 65536, 65536⟩⟩

def start : TokenWorld where
  store :=
    { db := { CookieDb.empty with users := fun id => if id = 7 then some ⟨"user", none⟩ else none }
      hashes := []
      nodup := .nil
      listed := fun _ => ⟨nofun, nofun⟩ }
  clock := 1000

def token : String := String.ofList (List.replicate 64 'a')

def body : CookieSubmit where
  token := token
  cookies := [("example.com", [⟨"example.com", "/", "sid", "1", true, true, none⟩])]
  ordered := List.pairwise_singleton _ _

end SingleUseScenario

section

attribute [local instance] Storage.Scenario.platform

open SingleUseScenario

/-- A token is issued and used. -/
theorem cookie_tokens_once_used : ∃ pre u v hash actor inputs,
    Run (TokenStep service) start pre u ∧ TokenStep service u (.submit body (.ok ())) v ∧
      Consumed pre u v body hash actor inputs := by
  have hissue := TokenStep.issue (s := service) (w := start) 7 token
  have hsubmit := TokenStep.submit (s := service)
    (w := { start with store := (issueCookieToken service 7 start.clock token start.store).2 }) body
  have hok : (submitCookieToken service body start.clock
      (issueCookieToken service 7 start.clock token start.store).2.db).1 = .ok () := by
    decide +kernel
  obtain ⟨hash, actor, inputs, h⟩ :=
    (cookie_tokens_once rfl (Run.single hissue) hsubmit).1 body (by rw [hok])
  exact ⟨_, _, _, hash, actor, inputs, Run.single hissue, hok ▸ hsubmit, h⟩

end

end YoinkCore.Downloads
