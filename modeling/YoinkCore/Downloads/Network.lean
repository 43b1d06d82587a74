import YoinkCore.Downloads.RefreshScope
import YoinkCore.Storage.RoundTrip

/-!
# The network of a download

When a download is admitted, its cookie and its proxy are chosen and frozen: a selection
names the row and the setting, with the digest of what they hold. Whenever it runs, the
selection is resolved again from the database of that time. Both take the same decisions
(bypass lists, proxy policy, OAuth mode, access to shared cookies), each by itself.
-/

namespace YoinkCore.Downloads

open Lib Lib.Bytes Domain Worker Storage Storage.Codec

/-! ## Policy -/

/-- The settings of an actor, or those of an actor without any. -/
def settingsOf (db : CookieDb) (actor : Int) : NetworkSettings :=
  (db.settings actor).getD ⟨false, none, true, "cookies"⟩

def sharedCookies : FeatureSpec := ⟨"dl", "shared_cookies", some .admin⟩

def poolAllowed (identity : IdentitySnapshot) (usePool : Bool) : Bool :=
  usePool && (effectiveGrant identity.principal sharedCookies identity.grants
    identity.providers identity.now).isSome

/-- A setting that is not empty. -/
def nonEmpty (value : Option String) : Option String := value.filter fun v => !v.toList.isEmpty

def wantOauth (target mode : String) : Bool := target == "youtube.com" && isOauthMode mode

def chooseProxy (actorId : UInt64) (personal system : Option String) :
    Except ProfileError (ProxySource × String) :=
  match nonEmpty personal with
  | some value => .ok (.personal actorId, value)
  | none =>
      match system with
      | some value => .ok (.system, value)
      | none => .error .proxyUnavailable

def proxyVersion [Platform] (value : String) : CredentialVersion :=
  digestVersion (Platform.sha256 value.toUTF8.data.toList)

section

variable [HostPlatform]

/-- The system proxy is used for some domains, whatever the settings say. -/
def automaticProxy (context : NetworkContext) (target : String) : Except ProfileError Bool :=
  if context.systemProxy.isSome then matchesNoCookieDomain target context.systemProxyDomains
  else .ok false

/-! ## Choosing -/

def selectProxy (context : NetworkContext) (settings : NetworkSettings) (automatic : Bool) :
    Except ProfileError (Option ProxyReference) :=
  if settings.proxyEnabled || automatic then do
    let personal := if settings.proxyEnabled then settings.proxyUrl else none
    let (source, value) ← chooseProxy context.actorId personal context.systemProxy
    validateProxy value
    let ref ← (ProxyReference.new source (proxyVersion value)).mapError fun _ =>
      ProfileError.invalidProxy
    return some ref
  else return none

omit [HostPlatform] in
/-- With OAuth wanted, rows that hold tokens go before jars. -/
def preferTokens (rows : List CookieRow) (want : Bool) (candidates : List Candidate) :
    List Candidate :=
  let tokens := candidates.filter fun c =>
    !c.isPool && ((cookieById rows c.id maxCookieJarBytes).bind Prod.snd).any isOauth
  if want && !tokens.isEmpty then tokens else candidates

omit [HostPlatform] in
/-- The oldest personal candidate, in turn with the shared ones. -/
def selectCandidate (candidates : List Candidate) (seed : UInt64) : Option Candidate :=
  let pool := candidates.filter (·.isPool)
  match candidates.find? (!·.isPool), pool.isEmpty, seed.toNat % 2 == 0 with
  | some p, _, true => some p
  | some _, false, false => pool[seed.toNat / 2 % pool.length]?
  | some p, true, false => some p
  | none, false, _ => pool[seed.toNat % pool.length]?
  | none, true, _ => none

/-- The row is the one the candidate was read from. -/
def candidateIsRow (target : String) (c : Candidate) (row : CookieRow) :
    Except ProfileError Unit :=
  if !row.isValid || row.id ≠ c.id || row.userId ≠ c.ownerId || row.isPool ≠ c.isPool then
    .error .staleReference
  else do
    let site ← normalizeDomain row.domain
    if site ≠ c.domain || !domainMatch target c.domain then .error .staleReference else .ok ()

def rowReference (c : Candidate) (row : CookieRow) : Except ProfileError CookieReference :=
  match toInt32? row.id with
  | none => .error .database
  | some id =>
      (CookieReference.new id (UInt64.ofInt row.userId) c.domain row.isPool
        (cookieVersion row)).mapError fun _ => .invalidCookie

end

section

variable [OAuthPlatform]

def usableContent (want pool : Bool) (now : Int) (content : String) : Except ProfileError Unit :=
  if isOauth content then
    if !want || pool then .error .unsupportedAuthentication
    else do
      let tokens ← decodeTokens content
      requireFresh tokens now
  else if validCookie content then .ok ()
  else .error .invalidCookie

def freezeCandidate (rows : List CookieRow) (now : Int) (target : String) (want : Bool)
    (c : Candidate) : Except ProfileError CookieReference :=
  match cookieById rows c.id maxCookieJarBytes with
  | none => .error .staleReference
  | some (_, none) => .error .invalidCookie
  | some (row, some content) => do
      candidateIsRow target c row
      usableContent want row.isPool now content
      rowReference c row

def selectCookie (db : CookieDb) (context : NetworkContext) (actor : Int) (target : String)
    (settings : NetworkSettings) (seed : UInt64) (bypass : Bool) :
    Except ProfileError (Option CookieReference) :=
  if bypass then return none
  else do
    let want := wantOauth target settings.youtubeAuthMode
    let candidates ← cookieCandidates db.cookies.rows actor target
      (poolAllowed context.identity settings.usePoolCookies)
    match selectCandidate (preferTokens db.cookies.rows want candidates) seed with
    | none => return none
    | some c => do
        let ref ← freezeCandidate db.cookies.rows context.identity.now target want c
        return some ref

/-- The transaction of `prepare_network`. -/
def selectNetwork (db : CookieDb) (context : NetworkContext) (seed : UInt64) :
    Except ProfileError NetworkSelection := do
  let actor ← validActor context.actorId
  validateIdentity context.identity actor
  let target ← normalizeDomain context.domain
  let settings := settingsOf db actor
  validateAuthMode settings.youtubeAuthMode
  let automatic ← automaticProxy context target
  let proxy ← selectProxy context settings automatic
  let bypass ← matchesNoCookieDomain target context.noCookieDomains
  let cookie ← selectCookie db context actor target settings seed bypass
  return ⟨cookie, proxy⟩

/-- Stale tokens are refreshed first, in a transaction of its own; others may write to the
database before the selection is read. -/
def prepareNetwork (reads : Nat → CookieDb) (clock : Nat → Int)
    (provider : Option (YoutubeOAuth → Except ProfileError YoutubeOAuth)) (answered now : Int)
    (others : CookieDb → CookieDb) (context : NetworkContext) (seed : UInt64) (db : CookieDb) :
    Except ProfileError NetworkSelection × CookieDb :=
  match refreshBeforeAdmission reads clock context provider answered now db with
  | (.error e, db') => (.error e, db')
  | (.ok (), db') => (selectNetwork (others db') context seed, others db')

/-! ## Resolving -/

/-- What a stored cookie gives to a download. -/
inductive Held where
  | jar (content : String)
  | tokens (oauth : YoutubeOAuth)

def Held.jar? : Held → Option String
  | .jar content => some content
  | .tokens _ => none

def Held.tokens? : Held → Option YoutubeOAuth
  | .jar _ => none
  | .tokens oauth => some oauth

/-- The row is still the one the reference was made from. -/
def rowIsReferenced (target : String) (ref : CookieReference) (row : CookieRow) :
    Except ProfileError Unit :=
  if !row.isValid || row.id ≠ ref.id.toInt || UInt64.ofInt row.userId ≠ ref.ownerId ||
      row.isPool ≠ ref.isPool then
    .error .staleReference
  else do
    let site ← normalizeDomain row.domain
    if !domainMatch target site || site ≠ ref.domain || cookieVersion row ≠ ref.version then
      .error .staleReference
    else .ok ()

def heldContent (want pool : Bool) (now : Int) (content : String) : Except ProfileError Held :=
  if isOauth content then
    if !want || pool then .error .staleReference
    else do
      let tokens ← decodeTokens content
      requireFresh tokens now
      return .tokens tokens
  else if validCookie content then return .jar content
  else .error .invalidCookie

def resolveCookie (db : CookieDb) (context : NetworkContext) (target : String)
    (settings : NetworkSettings) : Option CookieReference → Except ProfileError (Option Held)
  | none => .ok none
  | some ref =>
      if ref.isPool && !poolAllowed context.identity settings.usePoolCookies then
        .error .sharedAccessDenied
      else
        match cookieById db.cookies.rows ref.id.toInt maxCookieJarBytes with
        | none => .error .staleReference
        | some (_, none) => .error .invalidCookie
        | some (row, some content) => do
            rowIsReferenced target ref row
            let held ← heldContent (wantOauth target settings.youtubeAuthMode) row.isPool
              context.identity.now content
            return some held

/-- The setting a frozen proxy stands for now. -/
def proxyCandidate (db : CookieDb) (context : NetworkContext) (actor : Int) (automatic : Bool) :
    ProxySource → Except ProfileError String
  | .personal owner =>
      if owner ≠ context.actorId then .error .staleReference
      else
        match (db.settings actor).filter (·.proxyEnabled) with
        | none => .error .staleReference
        | some settings =>
            match nonEmpty settings.proxyUrl with
            | none => .error .staleReference
            | some value => .ok value
  | .system =>
      let settings := settingsOf db actor
      if !settings.proxyEnabled && !automatic then .error .staleReference
      else if settings.proxyEnabled && (nonEmpty settings.proxyUrl).isSome then
        .error .staleReference
      else
        match context.systemProxy with
        | none => .error .staleReference
        | some value => .ok value

def resolveProxy (db : CookieDb) (context : NetworkContext) (actor : Int) (automatic : Bool) :
    Option ProxyReference → Except ProfileError (Option String)
  | none => .ok none
  | some ref => do
      let candidate ← proxyCandidate db context actor automatic ref.source
      validateProxy candidate
      if proxyVersion candidate ≠ ref.version then .error .staleReference
      else return some candidate

def staleUnless (ok : Bool) : Except ProfileError Unit :=
  if ok then .ok () else .error .staleReference

/-- Read what a selection names, if nothing about it has changed. -/
def resolve (db : CookieDb) (context : NetworkContext) (selection : NetworkSelection) :
    Except ProfileError NetworkCredentials := do
  let actor ← validActor context.actorId
  validateIdentity context.identity actor
  let target ← normalizeDomain context.domain
  let bypass ← matchesNoCookieDomain target context.noCookieDomains
  (selection.validateActor context.actorId).mapError fun _ => ProfileError.staleReference
  if context.identity.principal.isBlocked context.identity.now then .error .sharedAccessDenied
  else do
    let settings := settingsOf db actor
    let automatic ← automaticProxy context target
    -- a frozen direct route does not bypass a proxy that was enabled since
    staleUnless ((settings.proxyEnabled || automatic) == selection.proxy.isSome)
    validateAuthMode settings.youtubeAuthMode
    staleUnless !(bypass && selection.cookie.isSome)
    let held ← resolveCookie db context target settings selection.cookie
    let proxy ← resolveProxy db context actor automatic selection.proxy
    return ⟨proxy, held.bind Held.jar?, held.bind Held.tokens?⟩

/-! ## Candidates -/

variable {db : CookieDb} {rows : List CookieRow} {c : Candidate} {target : String}
  {row : CookieRow} {seed : UInt64} {actor : Int}

omit [OAuthPlatform] in
/-- Every candidate was collected from a row. -/
theorem mem_of_collect [HostPlatform] :
    ∀ {out cs : List Candidate}, collect target rows out = .ok cs → ∀ c ∈ cs,
      c ∈ out ∨ ∃ r ∈ rows, c.id = r.id ∧ c.ownerId = r.userId ∧ c.isPool = r.isPool := by
  induction rows with
  | nil =>
      intro out cs h c hc
      cases h
      exact .inl hc
  | cons r rows ih =>
      intro out cs h c hc
      simp only [collect, Tx.result_bind_eq_ok] at h
      obtain ⟨site, -, found, -, h⟩ := h
      have hlater : (∃ r' ∈ rows, c.id = r'.id ∧ c.ownerId = r'.userId ∧ c.isPool = r'.isPool) →
          ∃ r' ∈ r :: rows, c.id = r'.id ∧ c.ownerId = r'.userId ∧ c.isPool = r'.isPool :=
        Exists.imp fun r' hr' => hr'.imp_left (List.mem_cons_of_mem _)
      split at h
      · exact (ih h c hc).imp_right hlater
      split at h
      · cases h
      · rcases ih h c hc with hout | hrow
        · rcases List.mem_append.mp hout with hout | hnew
          · exact .inl hout
          · rw [List.mem_singleton.mp hnew]
            exact .inr ⟨r, List.mem_cons_self, rfl, rfl, rfl⟩
        · exact .inr (hlater hrow)

variable {selection : NetworkSelection} {ref : CookieReference} {cs : List Candidate}
  {proxy : Option ProxyReference} {source : ProxySource} {settings : NetworkSettings}
  {actorId : UInt64}

omit [OAuthPlatform] in
/-- A candidate is personal to the actor, or shared and allowed. -/
theorem mem_cookieCandidates [HostPlatform] {shared : Bool}
    (h : cookieCandidates rows actor target shared = .ok cs) (hc : c ∈ cs) :
    (c.isPool = false ∧ c.ownerId = actor) ∨ (c.isPool = true ∧ shared = true) := by
  rcases mem_of_collect h c hc with hnil | ⟨r, hr, -, howner, hpool⟩
  · cases hnil
  · have hvisible := (mem_visibleRows.mp hr).2
    simp only [CookieRow.isVisible, CookieRow.isPersonalOf, Bool.and_eq_true, Bool.or_eq_true,
      beq_iff_eq, Bool.not_eq_true'] at hvisible
    rw [hpool, howner]
    rcases hvisible.2 with ⟨huser, hpersonal⟩ | ⟨hshared, hp⟩
    · exact .inl ⟨hpersonal, huser⟩
    · exact .inr ⟨hp, hshared⟩

omit [OAuthPlatform] in
theorem mem_of_selectCandidate (h : selectCandidate cs seed = some c) : c ∈ cs := by
  have hfound : ∀ p, cs.find? (!·.isPool) = some p → p ∈ cs :=
    fun p hp => List.mem_of_find?_eq_some hp
  have hpool : ∀ k : Nat, ∀ p, (cs.filter (·.isPool))[k]? = some p → p ∈ cs :=
    fun k p hp => List.mem_of_mem_filter (List.mem_of_getElem? hp)
  unfold selectCandidate at h
  dsimp only at h
  split at h
  · cases h
    exact hfound c (by assumption)
  · exact hpool _ c h
  · cases h
    exact hfound c (by assumption)
  · exact hpool _ c h
  · cases h

omit [OAuthPlatform] in
theorem mem_of_preferTokens {want : Bool} (h : c ∈ preferTokens rows want cs) : c ∈ cs := by
  unfold preferTokens at h
  dsimp only at h
  split at h
  · exact List.mem_of_mem_filter h
  · exact h

/-! ## Agreement on cookies -/

omit [OAuthPlatform] in
theorem cookieById_eq_some {id : Int} {n : Nat} {content : Option String}
    (h : cookieById rows id n = some (row, content)) :
    row ∈ rows ∧ row.id = id ∧ ∀ t ∈ content, t = row.content := by
  simp only [cookieById, Option.map_eq_some_iff, Prod.mk.injEq] at h
  obtain ⟨r, hfind, rfl, rfl⟩ := h
  refine ⟨List.mem_of_find?_eq_some hfind, by simpa using List.find?_some hfind, ?_⟩
  intro t ht
  split at ht
  · exact (Option.some.inj ht).symm
  · cases ht

omit [OAuthPlatform] in
theorem candidateIsRow_eq_ok [HostPlatform] (h : candidateIsRow target c row = .ok ()) :
    (row.isValid = true ∧ row.id = c.id ∧ row.userId = c.ownerId ∧ row.isPool = c.isPool) ∧
      normalizeDomain row.domain = .ok c.domain ∧ domainMatch target c.domain = true := by
  unfold candidateIsRow at h
  split at h
  · cases h
  rename_i hrow
  simp only [Tx.result_bind_eq_ok] at h
  obtain ⟨site, hsite, h⟩ := h
  split at h
  · cases h
  rename_i hdomain
  simp only [Bool.or_eq_true, Bool.not_eq_true', decide_eq_true_eq, not_or, not_not,
    Bool.not_eq_false] at hrow hdomain
  obtain ⟨rfl, hmatch⟩ := hdomain
  exact ⟨⟨hrow.1.1.1, hrow.1.1.2, hrow.1.2, hrow.2⟩, hsite, hmatch⟩

omit [OAuthPlatform] in
/-- A reference says what the row holds. -/
theorem rowReference_eq_ok [HostPlatform] (h : rowReference c row = .ok ref) :
    row.id = ref.id.toInt ∧ UInt64.ofInt row.userId = ref.ownerId ∧ c.domain = ref.domain ∧
      row.isPool = ref.isPool ∧ cookieVersion row = ref.version := by
  unfold rowReference at h
  split at h
  · cases h
  rename_i id hid
  rw [Tx.mapError_eq_ok] at h
  unfold CookieReference.new at h
  split at h
  · cases h
    exact ⟨(toInt32?_toInt hid).symm, rfl, rfl, rfl, rfl⟩
  · cases h

/-- Content that may be frozen is given to the download, of one kind or the other. -/
theorem heldContent_of_usable {want pool : Bool} {now : Int} {content : String}
    (h : usableContent want pool now content = .ok ()) :
    ∃ held, heldContent want pool now content = .ok held := by
  unfold usableContent at h
  unfold heldContent
  split at h
  · rename_i hoauth
    rw [if_pos hoauth]
    split at h
    · cases h
    rename_i hwant
    rw [if_neg hwant]
    simp only [Tx.result_bind_eq_ok] at h
    obtain ⟨tokens, htokens, hfresh⟩ := h
    refine ⟨.tokens tokens, ?_⟩
    simp [htokens, hfresh, bind, Except.bind, pure, Except.pure]
  · rename_i hoauth
    rw [if_neg hoauth]
    split at h
    · rename_i hjar
      exact ⟨.jar content, if_pos hjar⟩
    · cases h

/-- What was frozen is resolved. -/
theorem resolveCookie_frozen {context : NetworkContext}
    (hpool : ref.isPool = true → poolAllowed context.identity settings.usePoolCookies = true)
    (h : freezeCandidate db.cookies.rows context.identity.now target
      (wantOauth target settings.youtubeAuthMode) c = .ok ref) :
    ∃ held, resolveCookie db context target settings (some ref) = .ok (some held) := by
  unfold freezeCandidate at h
  split at h
  · cases h
  · cases h
  rename_i row content hrow
  simp only [Tx.result_bind_eq_ok] at h
  obtain ⟨_, hcandidate, _, husable, href⟩ := h
  obtain ⟨⟨hvalid, hid, -, -⟩, hsite, hmatch⟩ := candidateIsRow_eq_ok hcandidate
  obtain ⟨hrefid, howner, hdomain, hrefpool, hversion⟩ := rowReference_eq_ok href
  obtain ⟨held, hheld⟩ := heldContent_of_usable husable
  have hsame : rowIsReferenced target ref row = .ok () := by
    simp [rowIsReferenced, hvalid, ← hrefid, howner, hrefpool, hsite, ← hdomain, hmatch,
      hversion, bind, Except.bind]
  refine ⟨held, ?_⟩
  have hallowed : (ref.isPool && !poolAllowed context.identity settings.usePoolCookies) =
      false := by
    cases hp : ref.isPool with
    | false => rfl
    | true => rw [hpool hp]; rfl
  rw [resolveCookie, hallowed, ← hrefid, hid, hrow]
  simp [hsame, hheld, bind, Except.bind, pure, Except.pure]

/-! ## Agreement on proxies -/

omit [OAuthPlatform] in
theorem chooseProxy_eq_ok {personal system : Option String} {value : String}
    (h : chooseProxy actorId personal system = .ok (source, value)) :
    (nonEmpty personal = some value ∧ source = .personal actorId) ∨
      (nonEmpty personal = none ∧ system = some value ∧ source = .system) := by
  unfold chooseProxy at h
  split at h
  · rename_i hp
    cases h
    exact .inl ⟨hp, rfl⟩
  rename_i hp
  split at h
  · cases h
    exact .inr ⟨hp, rfl, rfl⟩
  · cases h

omit [OAuthPlatform] in
/-- A proxy is chosen exactly when the policy asks for one. -/
theorem selectProxy_eq_ok [HostPlatform] {context : NetworkContext} {automatic : Bool}
    (h : selectProxy context settings automatic = .ok proxy) :
    ((settings.proxyEnabled || automatic) = false ∧ proxy = none) ∨
      (settings.proxyEnabled || automatic) = true ∧ ∃ ref value, proxy = some ref ∧
        chooseProxy context.actorId (if settings.proxyEnabled then settings.proxyUrl else none)
          context.systemProxy = .ok (ref.source, value) ∧
        validateProxy value = .ok () ∧ proxyVersion value = ref.version := by
  unfold selectProxy at h
  split at h
  · rename_i hasked
    simp only [Tx.result_bind_eq_ok, Tx.mapError_eq_ok] at h
    obtain ⟨⟨source, value⟩, hchoice, _, hvalid, ref, href, h⟩ := h
    cases h
    unfold ProxyReference.new at href
    split at href
    · cases href
      exact .inr ⟨hasked, _, value, rfl, hchoice, hvalid, rfl⟩
    · cases href
  · rename_i hasked
    cases h
    exact .inl ⟨by simpa using hasked, rfl⟩

omit [OAuthPlatform] in
/-- What stands for a chosen proxy is the value it was chosen with. -/
theorem proxyCandidate_chosen {context : NetworkContext} {automatic : Bool} {value : String}
    (hasked : ((settingsOf db actor).proxyEnabled || automatic) = true)
    (h : chooseProxy context.actorId
      (if (settingsOf db actor).proxyEnabled then (settingsOf db actor).proxyUrl else none)
      context.systemProxy = .ok (source, value)) :
    proxyCandidate db context actor automatic source = .ok value := by
  rcases chooseProxy_eq_ok h with ⟨hvalue, rfl⟩ | ⟨hnone, hsystem, rfl⟩
  · cases hs : db.settings actor with
    | none => simp [settingsOf, hs, nonEmpty] at hvalue
    | some settings =>
        simp only [settingsOf, hs, Option.getD_some] at hvalue
        cases he : settings.proxyEnabled with
        | false => simp [he, nonEmpty] at hvalue
        | true =>
            rw [he, if_pos rfl] at hvalue
            simp [proxyCandidate, hs, Option.filter, he, hvalue]
  · have hroute : (!(settingsOf db actor).proxyEnabled && !automatic) = false := by
      rw [← Bool.not_or, hasked]
      rfl
    have hown : ((settingsOf db actor).proxyEnabled &&
        (nonEmpty (settingsOf db actor).proxyUrl).isSome) = false := by
      cases he : (settingsOf db actor).proxyEnabled with
      | false => rfl
      | true =>
          rw [he, if_pos rfl] at hnone
          rw [hnone]
          rfl
    simp only [proxyCandidate, hroute, hown, Bool.false_eq_true, if_false, hsystem]

theorem resolveProxy_selected {context : NetworkContext} {automatic : Bool}
    (h : selectProxy context (settingsOf db actor) automatic = .ok proxy) :
    ((settingsOf db actor).proxyEnabled || automatic) = proxy.isSome ∧
      ∃ url, resolveProxy db context actor automatic proxy = .ok url ∧
        url.isSome = proxy.isSome := by
  rcases selectProxy_eq_ok h with ⟨hasked, rfl⟩ | ⟨hasked, ref, value, rfl, hchoice, hvalid, hver⟩
  · exact ⟨hasked, none, rfl, rfl⟩
  · refine ⟨hasked, some value, ?_, rfl⟩
    rw [resolveProxy, proxyCandidate_chosen hasked hchoice]
    simp [hvalid, hver, bind, Except.bind, pure, Except.pure]

/-! ## Frozen selections -/

/-- What was read to freeze a selection. -/
theorem selectNetwork_eq_ok {context : NetworkContext}
    (h : selectNetwork db context seed = .ok selection) :
    ∃ actor target automatic bypass, validActor context.actorId = .ok actor ∧
      validateIdentity context.identity actor = .ok () ∧
      normalizeDomain context.domain = .ok target ∧
      validateAuthMode (settingsOf db actor).youtubeAuthMode = .ok () ∧
      automaticProxy context target = .ok automatic ∧
      selectProxy context (settingsOf db actor) automatic = .ok selection.proxy ∧
      matchesNoCookieDomain target context.noCookieDomains = .ok bypass ∧
      selectCookie db context actor target (settingsOf db actor) seed bypass =
        .ok selection.cookie := by
  simp only [selectNetwork, Tx.result_bind_eq_ok] at h
  obtain ⟨actor, hactor, _, hidentity, target, htarget, _, hmode, automatic, hauto, proxy, hproxy,
    bypass, hbypass, cookie, hcookie, h⟩ := h
  cases h
  exact ⟨actor, target, automatic, bypass, hactor, hidentity, htarget, hmode, hauto, hproxy,
    hbypass, hcookie⟩

omit [OAuthPlatform] in
theorem validActor_eq_ok (h : validActor actorId = .ok actor) :
    actor = actorId.toNat ∧ 0 < actorId.toNat ∧ actorId.toNat ≤ i64Max := by
  unfold validActor at h
  split at h
  · rename_i hrange
    cases h
    exact ⟨rfl, hrange⟩
  · cases h

omit [OAuthPlatform] in
theorem toNat_ofInt (x : Int) : (UInt64.ofInt x).toNat = (x % 2 ^ 64).toNat := by
  rw [UInt64.ofInt, UInt64.toNat_ofNat']
  omega

omit [OAuthPlatform] in
theorem ofInt_toNat (actorId : UInt64) : UInt64.ofInt actorId.toNat = actorId := by
  have hlt := actorId.toNat_lt
  refine UInt64.toNat_inj.mp ?_
  rw [toNat_ofInt]
  omega

omit [OAuthPlatform] in
/-- The owner of a row is the actor its number is read as. -/
theorem eq_of_ofInt {user : Int} (hi : isI64 user = true) (hle : actorId.toNat ≤ i64Max)
    (h : UInt64.ofInt user = actorId) : user = actorId.toNat := by
  simp only [isI64, Bool.and_eq_true, decide_eq_true_eq] at hi
  have hn := congrArg UInt64.toNat h
  rw [toNat_ofInt] at hn
  unfold i64Max at hle
  omega

/-- A frozen cookie is resolved, and belongs to the actor or to the pool. -/
theorem selectCookie_resolves {context : NetworkContext} {bypass : Bool}
    {cookie : Option CookieReference} (hactor : validActor context.actorId = .ok actor)
    (h : selectCookie db context actor target (settingsOf db actor) seed bypass = .ok cookie) :
    (bypass && cookie.isSome) = false ∧
      (∀ c, cookie = some c → c.isPool = false → c.ownerId = context.actorId) ∧
      ∃ held, resolveCookie db context target (settingsOf db actor) cookie = .ok held ∧
        held.isSome = cookie.isSome := by
  unfold selectCookie at h
  split at h
  · cases h
    exact ⟨Bool.and_false _, fun _ hc => (by cases hc), none, rfl, rfl⟩
  rename_i hbypass
  simp only [Tx.result_bind_eq_ok] at h
  obtain ⟨candidates, hcandidates, h⟩ := h
  split at h
  · cases h
    exact ⟨Bool.and_false _, fun _ hc => (by cases hc), none, rfl, rfl⟩
  rename_i c hselected
  simp only [Tx.result_bind_eq_ok] at h
  obtain ⟨ref, hfreeze, h⟩ := h
  cases h
  have hmem := mem_cookieCandidates hcandidates
    (mem_of_preferTokens (mem_of_selectCandidate hselected))
  have hrow : ref.isPool = c.isPool ∧ UInt64.ofInt c.ownerId = ref.ownerId := by
    unfold freezeCandidate at hfreeze
    split at hfreeze
    · cases hfreeze
    · cases hfreeze
    simp only [Tx.result_bind_eq_ok] at hfreeze
    obtain ⟨_, hcandidate, _, -, href⟩ := hfreeze
    obtain ⟨⟨-, -, huser, hpool⟩, -⟩ := candidateIsRow_eq_ok hcandidate
    obtain ⟨-, howner, -, hrefpool, -⟩ := rowReference_eq_ok href
    exact ⟨by rw [← hrefpool, hpool], by rw [← huser, howner]⟩
  have hpool : ref.isPool = true →
      poolAllowed context.identity (settingsOf db actor).usePoolCookies = true := by
    intro hp
    rcases hmem with ⟨hpersonal, -⟩ | ⟨-, hshared⟩
    · rw [hrow.1, hpersonal] at hp
      cases hp
    · exact hshared
  obtain ⟨held, hheld⟩ := resolveCookie_frozen hpool hfreeze
  refine ⟨by simp [hbypass], ?_, some held, hheld, rfl⟩
  intro ref' href' hpersonal
  obtain rfl := Option.some.inj href'
  rcases hmem with ⟨-, howner⟩ | ⟨hp, -⟩
  · obtain ⟨rfl, -⟩ := validActor_eq_ok hactor
    rw [← hrow.2, howner]
    exact ofInt_toNat _
  · rw [hrow.1, hp] at hpersonal
    cases hpersonal

omit [OAuthPlatform] in
theorem isBlocked_of_validateIdentity {identity : IdentitySnapshot}
    (h : validateIdentity identity actor = .ok ()) :
    identity.principal.isBlocked identity.now = false := by
  unfold validateIdentity at h
  split at h
  · cases h
  split at h
  · cases h
  · rename_i hblocked
    simpa using hblocked

/-- A selection is resolved by the database it was read from. -/
theorem resolve_selected {context : NetworkContext}
    (h : selectNetwork db context seed = .ok selection) :
    selection.validateActor context.actorId = .ok () ∧
    ∃ creds, resolve db context selection = .ok creds ∧
      (creds.cookieJar.isSome ^^ creds.youtubeOauth.isSome) = selection.cookie.isSome ∧
      creds.proxyUrl.isSome = selection.proxy.isSome := by
  obtain ⟨actor, target, automatic, bypass, hactor, hidentity, htarget, hmode, hauto, hproxy,
    hbypass, hcookie⟩ := selectNetwork_eq_ok h
  obtain ⟨hneeded, hown, held, hheld, hsome⟩ := selectCookie_resolves hactor hcookie
  obtain ⟨hasked, url, hurl, husome⟩ := resolveProxy_selected hproxy
  have hvalid : selection.validateActor context.actorId = .ok () := by
    refine NetworkSelection.validateActor_eq_ok.mpr ⟨hown, fun p owner hp hs => ?_⟩
    rcases selectProxy_eq_ok hproxy with ⟨-, hnone⟩ | ⟨-, ref, value, href, hchoice, -⟩
    · rw [hnone] at hp
      cases hp
    · obtain rfl := Option.some.inj (href.symm.trans hp)
      rcases chooseProxy_eq_ok hchoice with ⟨-, hown'⟩ | ⟨-, -, hsystem⟩
      · exact ProxySource.personal.inj (hs.symm.trans hown')
      · rw [hsystem] at hs
        cases hs
  refine ⟨hvalid, ⟨url, held.bind Held.jar?, held.bind Held.tokens?⟩, ?_, ?_, husome⟩
  · simp [resolve, hactor, hidentity, htarget, hbypass, hvalid, Except.mapError,
      isBlocked_of_validateIdentity hidentity, hauto, hasked, staleUnless, hmode, hneeded, hheld,
      hurl, bind, Except.bind, pure, Except.pure]
  · cases held with
    | none => exact hsome
    | some held => cases held <;> exact hsome

/-! ## Resolved credentials -/

/-- Credentials of an actor: the frozen content of a valid row that is the actor's or
shared and still allowed, and a proxy that is the actor's and enabled or the system's. -/
structure Resolved (db : CookieDb) (context : NetworkContext) (selection : NetworkSelection)
    (creds : NetworkCredentials) : Prop where
  cookie : ∀ ref, selection.cookie = some ref → ∃ row ∈ db.cookies.rows, row.isValid = true ∧
    ((row.isPool = false ∧ row.userId = context.actorId.toNat) ∨
      (row.isPool = true ∧ poolAllowed context.identity
        (settingsOf db context.actorId.toNat).usePoolCookies = true)) ∧
    cookieVersion row = ref.version ∧
    ((creds.cookieJar = some row.content ∧ creds.youtubeOauth = none) ∨
      (creds.cookieJar = none ∧ ∃ tokens, decodeTokens row.content = .ok tokens ∧
        creds.youtubeOauth = some tokens))
  none : selection.cookie = none → creds.cookieJar = none ∧ creds.youtubeOauth = none
  proxy : ∀ url, creds.proxyUrl = some url →
    (∃ settings, db.settings context.actorId.toNat = some settings ∧
      settings.proxyEnabled = true ∧ settings.proxyUrl = some url) ∨
    context.systemProxy = some url

omit [OAuthPlatform] in
theorem nonEmpty_eq_some {value : Option String} {v : String} (h : nonEmpty value = some v) :
    value = some v :=
  (Option.filter_eq_some_iff.mp h).1

omit [OAuthPlatform] in
/-- A frozen proxy stands for the enabled one of its actor, or that of the system. -/
theorem proxyCandidate_eq_ok {context : NetworkContext} {automatic : Bool} {url : String}
    (h : proxyCandidate db context actor automatic source = .ok url) :
    (∃ settings, db.settings actor = some settings ∧ settings.proxyEnabled = true ∧
      settings.proxyUrl = some url) ∨ context.systemProxy = some url := by
  cases source with
  | personal owner =>
      simp only [proxyCandidate] at h
      split at h
      · cases h
      split at h
      · cases h
      rename_i settings hsettings
      obtain ⟨hs, he⟩ := Option.filter_eq_some_iff.mp hsettings
      split at h
      · cases h
      · rename_i value hvalue
        cases h
        exact .inl ⟨settings, hs, he, nonEmpty_eq_some hvalue⟩
  | system =>
      simp only [proxyCandidate] at h
      split at h
      · cases h
      split at h
      · cases h
      split at h
      · cases h
      · rename_i value hvalue
        cases h
        exact .inr hvalue

theorem heldContent_eq_ok {want pool : Bool} {now : Int} {content : String} {held : Held}
    (h : heldContent want pool now content = .ok held) :
    held = .jar content ∨ ∃ tokens, decodeTokens content = .ok tokens ∧ held = .tokens tokens := by
  unfold heldContent at h
  split at h
  · split at h
    · cases h
    simp only [Tx.result_bind_eq_ok] at h
    obtain ⟨tokens, htokens, _, -, h⟩ := h
    cases h
    exact .inr ⟨tokens, htokens, rfl⟩
  · split at h
    · cases h
      exact .inl rfl
    · cases h

theorem rowIsReferenced_eq_ok (h : rowIsReferenced target ref row = .ok ()) :
    row.isValid = true ∧ UInt64.ofInt row.userId = ref.ownerId ∧ row.isPool = ref.isPool ∧
      cookieVersion row = ref.version := by
  unfold rowIsReferenced at h
  split at h
  · cases h
  rename_i hrow
  simp only [Tx.result_bind_eq_ok] at h
  obtain ⟨site, -, h⟩ := h
  split at h
  · cases h
  rename_i hsame
  simp only [Bool.or_eq_true, Bool.not_eq_true', decide_eq_true_eq, not_or, not_not,
    Bool.not_eq_false] at hrow hsame
  exact ⟨hrow.1.1.1, hrow.1.2, hrow.2, hsame.2⟩

/-- Whatever is resolved belongs to the actor, or is shared and allowed. -/
theorem resolve_sound {context : NetworkContext} {creds : NetworkCredentials}
    (h : resolve db context selection = .ok creds) : Resolved db context selection creds := by
  simp only [resolve, Tx.result_bind_eq_ok, Tx.mapError_eq_ok] at h
  obtain ⟨actor, hactor, _, -, target, -, bypass, -, _, hvalid, h⟩ := h
  split at h
  · cases h
  simp only [Tx.result_bind_eq_ok] at h
  obtain ⟨automatic, -, _, -, _, -, _, -, held, hheld, url, hurl, h⟩ := h
  cases h
  obtain ⟨rfl, -, hle⟩ := validActor_eq_ok hactor
  constructor
  · intro ref href
    rw [href, resolveCookie] at hheld
    split at hheld
    · cases hheld
    rename_i hallowed
    split at hheld
    · cases hheld
    · cases hheld
    rename_i row content hrow
    simp only [Tx.result_bind_eq_ok] at hheld
    obtain ⟨_, hsame, held, hcontent, hheld⟩ := hheld
    cases hheld
    obtain ⟨hmem, -, hread⟩ := cookieById_eq_some hrow
    obtain rfl := hread content rfl
    -- the row is the one that was referenced: same owner, version and pool
    obtain ⟨hisvalid, howner, hpool, hversion⟩ := rowIsReferenced_eq_ok hsame
    refine ⟨row, hmem, hisvalid, ?_, hversion, ?_⟩
    · cases hp : row.isPool with
      | false =>
          have hid := (NetworkSelection.validateActor_eq_ok.mp hvalid).1 ref href (hpool ▸ hp)
          have hi : isI64 row.userId = true := by
            have hcheck := db.cookies.checked row hmem
            simp only [cookieSchema, Bool.and_eq_true] at hcheck
            exact hcheck.1.1.1.1.1.1.1.1.2
          exact .inl ⟨rfl, eq_of_ofInt hi hle (howner.trans hid)⟩
      | true =>
          rw [hpool] at hp
          refine .inr ⟨rfl, ?_⟩
          simpa [hp] using hallowed
    · rcases heldContent_eq_ok hcontent with rfl | ⟨tokens, htokens, rfl⟩
      · exact .inl ⟨rfl, rfl⟩
      · exact .inr ⟨rfl, tokens, htokens, rfl⟩
  · intro hnone
    rw [hnone] at hheld
    cases hheld
    exact ⟨rfl, rfl⟩
  · intro value hvalue
    have hvalue : url = some value := hvalue
    cases hp : selection.proxy with
    | none =>
        rw [hp, hvalue] at hurl
        cases hurl
    | some ref =>
        rw [hp, resolveProxy] at hurl
        simp only [Tx.result_bind_eq_ok] at hurl
        obtain ⟨candidate, hcandidate, _, -, hurl⟩ := hurl
        split at hurl
        · cases hurl
        · cases hurl
          cases hvalue
          exact proxyCandidate_eq_ok hcandidate

/-- **Frozen networks.** A prepared selection is read back as it was stored, by itself and
in every request of its actor. The database it was read from resolves it, to a jar or to
tokens exactly when it names a cookie, and to a proxy exactly when it names one. Whatever
database resolves whatever selection, the credentials belong to the actor, or are shared
and still allowed, at the version that was frozen. -/
theorem frozen_networks :
    (∀ (reads : Nat → CookieDb) (clock : Nat → Int)
        (provider : Option (YoutubeOAuth → Except ProfileError YoutubeOAuth))
        (answered now : Int) (others : CookieDb → CookieDb) (context : NetworkContext)
        (seed : UInt64) (db db' : CookieDb) (selection : NetworkSelection),
      prepareNetwork reads clock provider answered now others context seed db =
        (.ok selection, db') →
      decodeNetwork (encodeNetwork selection) = some selection ∧
      (StableUrls → ∀ r : DownloadRequest, Storable r → r.actorId = context.actorId →
        ∃ q, r.withNetwork selection = .ok q ∧ q.network = selection ∧
          decode (encode q) = .ok q) ∧
      ∃ creds, resolve db' context selection = .ok creds ∧
        (creds.cookieJar.isSome ^^ creds.youtubeOauth.isSome) = selection.cookie.isSome ∧
        creds.proxyUrl.isSome = selection.proxy.isSome) ∧
    ∀ (db : CookieDb) (context : NetworkContext) (selection : NetworkSelection)
      (creds : NetworkCredentials), resolve db context selection = .ok creds →
      Resolved db context selection creds := by
  refine ⟨?_, fun db context selection creds => resolve_sound⟩
  intro reads clock provider answered now others context seed db db' selection h
  have hselect : selectNetwork db' context seed = .ok selection := by
    unfold prepareNetwork at h
    split at h
    · cases h
    · rw [Prod.mk.injEq] at h
      rw [← h.2]
      exact h.1
  obtain ⟨hvalid, hcreds⟩ := resolve_selected hselect
  refine ⟨decodeNetwork_encode selection, fun hu r hr hactor => ?_, hcreds⟩
  rw [← hactor] at hvalid
  have hq := DownloadRequest.withNetwork_of_valid hvalid
  exact ⟨_, hq, rfl, decode_encode hu ⟨hr.clip, hr.clips, hr.overrides⟩⟩

end

/-! ## A jar from the pool -/

namespace NetworkScenario

open TokenScenario

/-- A jar another user shares. -/
def sharedJar : CookieRow :=
  { personalRow 9 "youtube.com" datedJar true 5 with id := 3, isPool := true }

/-- An administrator without settings. -/
def context : NetworkContext :=
  ⟨7, "youtube.com", [], ⟨⟨7, .admin, none⟩, [], [], 0⟩, [], none⟩

def shared : CookieDb :=
  { PoisonScenario.users with
    cookies := ⟨[sharedJar], by decide +kernel, by decide⟩, sequence := 3 }

attribute [local instance] platform

def prepared : Except ProfileError NetworkSelection × CookieDb :=
  prepareNetwork (fun _ => shared) (fun _ => 0) none 0 0 id context 5 shared

end NetworkScenario

section

attribute [local instance] TokenScenario.platform

open NetworkScenario

/-- A shared jar is frozen for an administrator, and resolved. -/
theorem frozen_networks_shared : ∃ selection db', prepared = (.ok selection, db') ∧
    selection.cookie.isSome = true ∧ decodeNetwork (encodeNetwork selection) = some selection ∧
    ∃ creds, resolve db' context selection = .ok creds ∧ creds.proxyUrl = none := by
  have hrun : (match prepared.1 with
      | .ok selection => selection.cookie.isSome && selection.proxy.isNone
      | .error _ => false) = true := by decide +kernel
  generalize hp : prepared = result at hrun ⊢
  obtain ⟨outcome, db'⟩ := result
  cases outcome with
  | error e => cases hrun
  | ok selection =>
      obtain ⟨hcookie, hproxy⟩ := Bool.and_eq_true_iff.mp hrun
      obtain ⟨hstored, -, creds, hcreds, -, hurl⟩ :=
        frozen_networks.1 _ _ _ _ _ _ _ _ _ _ _ hp
      refine ⟨selection, db', rfl, hcookie, hstored, creds, hcreds, ?_⟩
      rw [Option.isNone_iff_eq_none.mp hproxy] at hurl
      exact Option.isSome_eq_false_iff.mp hurl |> Option.isNone_iff_eq_none.mp

end

end YoinkCore.Downloads
