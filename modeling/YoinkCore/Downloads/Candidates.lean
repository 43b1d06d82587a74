import YoinkCore.Downloads.CookieStore

/-!
# Candidates for a download

A download is offered the cookies of its actor, and the shared ones if it may use them.
Every one of them is normalised before it is compared with the target: one stored domain
the URL parser takes for no host leaves nothing to choose from.
-/

namespace YoinkCore.Downloads

open Lib Lib.HostName Domain

section

variable [HostPlatform]

structure Candidate where
  id : Int
  ownerId : Int
  domain : String
  isPool : Bool
deriving DecidableEq

def maxCandidates : Nat := 128

/-- The target is the domain of the cookie or below it. -/
def domainMatch (target cookieDomain : String) : Bool :=
  target == cookieDomain || ('.' :: cookieDomain.toList).isSuffixOf target.toList

def candidateDomainMatches (target stored : String) : Except ProfileError Bool := do
  let site ← normalizeDomain stored
  return domainMatch target site

/-- A valid cookie an actor may use. -/
def CookieRow.isVisible (actor : Int) (shared : Bool) (r : CookieRow) : Bool :=
  r.isValid && (r.isPersonalOf actor || (shared && r.isPool))

/-- Personal cookies first, then by age. -/
def CookieRow.before (a b : CookieRow) : Prop :=
  (a.isPool = false ∧ b.isPool = true) ∨ (a.isPool = b.isPool ∧ a.id ≤ b.id)

instance : DecidableRel CookieRow.before := fun _ _ =>
  inferInstanceAs (Decidable ((_ ∧ _) ∨ (_ ∧ _)))

/-- `cookie_candidates.sql`. -/
def visibleRows (rows : List CookieRow) (actor : Int) (shared : Bool) : List CookieRow :=
  (rows.filter (·.isVisible actor shared)).insertionSort CookieRow.before

def collect (target : String) : List CookieRow → List Candidate →
    Except ProfileError (List Candidate)
  | [], out => .ok out
  | r :: rows, out => do
      let site ← normalizeDomain r.domain
      let found ← candidateDomainMatches target r.domain
      if !found then collect target rows out
      else if maxCandidates < (out ++ [(⟨r.id, r.userId, site, r.isPool⟩ : Candidate)]).length then
        .error .candidateCapacityExceeded
      else collect target rows (out ++ [⟨r.id, r.userId, site, r.isPool⟩])

def cookieCandidates (rows : List CookieRow) (actor : Int) (target : String) (shared : Bool) :
    Except ProfileError (List Candidate) :=
  collect target (visibleRows rows actor shared) []

variable {rows : List CookieRow} {db : CookieDb}

variable {r : CookieRow} {domain : CookieDomain} {db' : CookieDb}

omit [HostPlatform] in
theorem mem_visibleRows {actor : Int} {shared : Bool} :
    r ∈ visibleRows rows actor shared ↔
      r ∈ rows ∧ r.isVisible actor shared = true := by
  rw [visibleRows, List.mem_insertionSort, List.mem_filter]

/-! ## What is collected -/

/-- The candidate a row is for a target. -/
def candidateOf (target : String) (r : CookieRow) : Option Candidate :=
  match normalizeDomain r.domain with
  | .ok site => if domainMatch target site then some ⟨r.id, r.userId, site, r.isPool⟩ else none
  | .error _ => none

/-- The visible rows a target matches. -/
def matching (rows : List CookieRow) (actor : Int) (target : String) (shared : Bool) :
    List Candidate :=
  (visibleRows rows actor shared).filterMap (candidateOf target)

/-- Rows whose domains are hosts are collected up to the capacity. -/
theorem collect_eq {target : String} (h : ∀ r ∈ rows, ∃ site, normalizeDomain r.domain = .ok site) :
    ∀ {out : List Candidate}, out.length ≤ maxCandidates →
      collect target rows out =
        if (out ++ rows.filterMap (candidateOf target)).length ≤ maxCandidates then
          .ok (out ++ rows.filterMap (candidateOf target))
        else .error .candidateCapacityExceeded := by
  induction rows with
  | nil =>
      intro out hl
      simp [collect, hl]
  | cons r rows ih =>
      intro out hl
      obtain ⟨site, hsite⟩ := h r List.mem_cons_self
      have ih := fun out => @ih (fun r hr => h r (List.mem_cons_of_mem _ hr)) out
      rw [collect, candidateDomainMatches, hsite]
      show (if !domainMatch target site then _ else _) = _
      cases hm : domainMatch target site with
      | false =>
          have hc : candidateOf target r = none := by simp [candidateOf, hsite, hm]
          rw [List.filterMap_cons_none hc]
          exact ih _ hl
      | true =>
          have hc : candidateOf target r = some ⟨r.id, r.userId, site, r.isPool⟩ := by
            simp [candidateOf, hsite, hm]
          rw [List.filterMap_cons_some hc,
            List.append_cons out _ (rows.filterMap (candidateOf target))]
          show (if maxCandidates < _ then _ else _) = _
          split
          · rename_i hlt
            rw [if_neg]
            rw [List.length_append]
            omega
          · rename_i hle
            exact ih _ (Nat.le_of_not_lt hle)

/-- A target that matches no row runs into every domain that is no host. -/
theorem collect_unavailable {target : String} {out : List Candidate}
    (hm : ∀ r ∈ rows, ∀ site, normalizeDomain r.domain = .ok site →
      domainMatch target site = false) (hr : r ∈ rows)
    (he : ∀ site, normalizeDomain r.domain ≠ .ok site) :
    collect target rows out = .error .unavailable := by
  induction rows with
  | nil => cases hr
  | cons r' rows ih =>
      rw [collect]
      cases hs : normalizeDomain r'.domain with
      | error e =>
          obtain rfl := normalizeDomain_error hs
          rfl
      | ok site =>
          have hne : r ≠ r' := fun heq => he site (heq ▸ hs)
          rw [candidateDomainMatches, hs]
          show (if !domainMatch target site then _ else _) = _
          rw [hm r' List.mem_cons_self site hs]
          exact ih (fun r hr => hm r (List.mem_cons_of_mem _ hr))
            ((List.mem_cons.mp hr).resolve_left hne)

/-! ## Tables written by uploads -/

/-- One change of the database: an upload, a deletion of cookies, or a change of
something else. -/
inductive CookieWrite : CookieDb → CookieDb → Prop
  | store (s : Service) (early : CookieDb) (actor : UInt64) (target : DeliveryTarget)
      (messageId : Int) (domain : CookieDomain) (content : String) (now : Int)
      (db : CookieDb) :
      CookieWrite db (storePersonalCookie s early actor target messageId domain content now db).2
  | web (s : Service) (actor : Option Int) (token : Option String) (inputs : List CookieInput)
      (now : Int) (db : CookieDb) : CookieWrite db (webWrite s actor token inputs now db).2
  | pool (s : Service) (early : CookieDb) (actor : Int) (input : CookieInput)
      (fetched : Option AccountInfo) (before now : Int) (db : CookieDb) :
      CookieWrite db (webPoolUpload s early actor input fetched before now db).2
  | delete (cond : CookieRow → Bool) (db : CookieDb) :
      CookieWrite db { db with cookies := (db.cookies.delete cond).1 }
  | other {db db' : CookieDb} : db'.cookies = db.cookies → CookieWrite db db'

omit [HostPlatform] in
/-- Every cookie is stored under a domain in stored form. -/
def StoredDomains (rows : List CookieRow) : Prop :=
  ∀ r ∈ rows, ∃ d : CookieDomain, d.text = r.domain

omit [HostPlatform] in
theorem StoredDomains.map (h : StoredDomains rows) {f : CookieRow → CookieRow}
    (hf : ∀ r, (f r).domain = r.domain) : StoredDomains (rows.map f) := by
  intro r hr
  obtain ⟨r', hr', rfl⟩ := List.mem_map.mp hr
  rw [hf]
  exact h r' hr'

omit [HostPlatform] in
theorem StoredDomains.add (h : StoredDomains rows) {row : CookieRow} {d : CookieDomain}
    (hd : row.domain = d.text) : StoredDomains (rows ++ [row]) := by
  intro r hr
  rcases List.mem_append.mp hr with hr | hr
  · exact h r hr
  · obtain rfl := List.mem_singleton.mp hr
    exact ⟨d, hd.symm⟩

omit [HostPlatform] in
theorem upsertCookie_stored {actor now : Int} {content : String} {valid : Bool} {u : Unit}
    (h : upsertCookie actor domain.text content valid now db = .ok (u, db'))
    (hs : StoredDomains db.cookies.rows) : StoredDomains db'.cookies.rows := by
  rw [upsertCookie_rows h]
  split
  · exact hs.add (d := domain) rfl
  · refine hs.map fun r => ?_
    split <;> rfl

omit [HostPlatform] in
theorem replaceCookie_stored {actor now : Int} {content : String} {u : Unit}
    (h : replaceCookie actor domain.text content now db = .ok (u, db'))
    (hs : StoredDomains db.cookies.rows) : StoredDomains db'.cookies.rows := by
  rw [replaceCookie_rows h]
  have hsub : StoredDomains (db.cookies.rows.filter (!·.isFor actor domain.text)) :=
    fun r hr => hs r (List.mem_of_mem_filter hr)
  exact hsub.add (d := domain) rfl

/-- Every change keeps the domains in stored form. -/
theorem CookieWrite.stored (h : CookieWrite db db') (hs : StoredDomains db.cookies.rows) :
    StoredDomains db'.cookies.rows := by
  cases h with
  | store s early actor target messageId domain content now =>
      rcases storePersonalCookie_cases s early actor target messageId domain content now db
        with h | ⟨db₁, db₂, n, hc, -, hr, h⟩
      · rw [h]
        exact hs
      · rw [h]
        exact replaceCookie_stored hr (hc.symm ▸ hs)
  | web s actor token inputs now =>
      rcases webWrite_cases s actor token inputs now db
        with h | ⟨user, domains, db₁, db₂, -, hw, hc, h⟩
      · rw [h]
        exact hs
      · rw [h, hc]
        refine writeInputs_relate
          (R := fun a b => StoredDomains a.cookies.rows → StoredDomains b.cookies.rows)
          (fun _ => id) (fun h₁ h₂ => h₂ ∘ h₁) (fun hi => ?_) hw hs
        obtain ⟨-, valid, t, hu⟩ := writeInput_eq_ok hi
        exact upsertCookie_stored hu
  | pool s early actor input fetched before now =>
      rcases webPoolUpload_cases s early actor input fetched before now db
        with h | ⟨domain, hash, session, raw, label, avatar, stamp, id, db₁, -, hw, h⟩
      · rw [h]
        exact hs
      · rw [h]
        rcases poolWrite_rows hw with ⟨row, -, -, hrows⟩ | ⟨row, hd, -, hrows⟩
        · rw [hrows]
          refine hs.map fun r => ?_
          split <;> rfl
        · rw [hrows]
          exact hs.add hd
  | delete cond => exact fun r hr => hs r (List.mem_of_mem_filter hr)
  | other hc =>
      rw [hc]
      exact hs

theorem stored_of_writes {db₀ : CookieDb} (h : Relation.ReflTransGen CookieWrite db₀ db)
    (h₀ : db₀.cookies.rows = []) : StoredDomains db.cookies.rows := by
  induction h with
  | refl =>
      rw [h₀]
      exact fun r hr => absurd hr (by simp)
  | tail _ hw ih => exact hw.stored ih

/-! ## Poisoned candidates -/

omit [HostPlatform] in
theorem domainMatch_self (target : String) : domainMatch target target = true := by
  simp [domainMatch]

omit [HostPlatform] in
/-- The empty target is below no domain. -/
theorem domainMatch_empty {site : String} (h : site.toList ≠ []) :
    domainMatch "" site = false := by
  have hne : "" ≠ site := fun he => h (by rw [← he]; rfl)
  simp [domainMatch, hne]

/-- Cookies whose domains are hosts are offered up to the capacity. -/
theorem cookieCandidates_eq {actor : Int} {shared : Bool}
    (h : ∀ r ∈ visibleRows rows actor shared, ∃ site, normalizeDomain r.domain = .ok site)
    (target : String) :
    cookieCandidates rows actor target shared =
      if (matching rows actor target shared).length ≤ maxCandidates then
        .ok (matching rows actor target shared)
      else .error .candidateCapacityExceeded := collect_eq h (Nat.zero_le _)

/-- One cookie whose domain is no host leaves a target that matches nothing without an
answer. -/
theorem cookieCandidates_empty {ace : Text.Str → Bool} (hw : WhatwgHosts ace)
    (hs : StoredDomains rows) {actor : Int} {shared : Bool}
    (hr : r ∈ visibleRows rows actor shared) (he : ¬ ∃ site, normalizeDomain r.domain = .ok site) :
    cookieCandidates rows actor "" shared = .error .unavailable := by
  refine collect_unavailable (fun r' hr' site hsite => ?_) hr fun site hsite => he ⟨site, hsite⟩
  obtain ⟨d, hd⟩ := hs r' (mem_visibleRows.mp hr').1
  exact domainMatch_empty (site_ne_empty hw (hd ▸ hsite))

/-- **Stored cookies.** A domain in stored form is normalised if and only if the URL
parser takes it for a host. For cookies written by uploads, no target is without
candidates for want of a host, and every cookie is a candidate for its own host, if and
only if the domains of all cookies the actor may use are hosts, and no host they are for
has more than the supported number of candidates. -/
theorem stored_cookies_available {ace : Text.Str → Bool} (hw : WhatwgHosts ace) :
    (∀ value d, CookieDomain.parse value = .ok d →
      ((∃ site, normalizeDomain d.text = .ok site) ↔ Resolvable ace d.text.toList)) ∧
    ∀ {db₀ db : CookieDb}, db₀.cookies.rows = [] →
      Relation.ReflTransGen CookieWrite db₀ db → ∀ (actor : Int) (shared : Bool),
      ((∀ target, cookieCandidates db.cookies.rows actor target shared ≠ .error .unavailable ∧
          ∀ r ∈ db.cookies.rows, r.isVisible actor shared = true →
            normalizeDomain r.domain = .ok target →
            ∃ cs, cookieCandidates db.cookies.rows actor target shared = .ok cs ∧
              ⟨r.id, r.userId, target, r.isPool⟩ ∈ cs) ↔
        (∀ r ∈ db.cookies.rows, r.isVisible actor shared = true →
          Resolvable ace r.domain.toList) ∧
        ∀ r ∈ db.cookies.rows, r.isVisible actor shared = true →
          ∀ target, normalizeDomain r.domain = .ok target →
            (matching db.cookies.rows actor target shared).length ≤ maxCandidates) := by
  refine ⟨fun value d _ => normalizeDomain_isOk hw d, fun {db₀ db} h₀ hrun actor shared => ?_⟩
  have hstored := stored_of_writes hrun h₀
  have hresolve : ∀ r ∈ visibleRows db.cookies.rows actor shared,
      (∃ site, normalizeDomain r.domain = .ok site) ↔ Resolvable ace r.domain.toList := by
    intro r hr
    obtain ⟨d, hd⟩ := hstored r (mem_visibleRows.mp hr).1
    rw [← hd]
    exact normalizeDomain_isOk hw d
  constructor
  · intro h
    have hall : ∀ r ∈ visibleRows db.cookies.rows actor shared,
        ∃ site, normalizeDomain r.domain = .ok site := fun r hr =>
      not_not.mp fun he => (h "").1 (cookieCandidates_empty hw hstored hr he)
    refine ⟨fun r hr hv => ?_, fun r hr hv target ht => ?_⟩
    · have hmem := mem_visibleRows.mpr ⟨hr, hv⟩
      exact (hresolve r hmem).mp (hall r hmem)
    · obtain ⟨cs, hcs, -⟩ := (h target).2 r hr hv ht
      rw [cookieCandidates_eq hall] at hcs
      split at hcs
      · assumption
      · cases hcs
  · rintro ⟨hres, hcap⟩ target
    have hall : ∀ r ∈ visibleRows db.cookies.rows actor shared,
        ∃ site, normalizeDomain r.domain = .ok site := fun r hr =>
      (hresolve r hr).mpr (hres r (mem_visibleRows.mp hr).1 (mem_visibleRows.mp hr).2)
    rw [cookieCandidates_eq hall]
    constructor
    · split <;> simp
    · intro r hr hv ht
      rw [if_pos (hcap r hr hv target ht)]
      refine ⟨_, rfl, List.mem_filterMap.mpr ⟨r, mem_visibleRows.mpr ⟨hr, hv⟩, ?_⟩⟩
      simp [candidateOf, ht, domainMatch_self]

end

/-! ## A domain that is no host -/

namespace PoisonScenario

/-- The host of the URLs the examples parse. -/
def hostOf (text : String) : Option Host :=
  (Text.stripPrefix httpsPrefix text.toList).bind (parseName fun _ => false)

/-- A URL parser that reads `https` URLs of host names. -/
@[reducible] def platform : HostPlatform :=
  { Storage.Scenario.platform with
    parseUrl := fun text => (hostOf text).map fun _ => ⟨text⟩
    host := fun url => hostOf url.asStr }

attribute [local instance] platform

theorem hostOf_https (t : Text.Str) :
    hostOf (String.ofList (httpsPrefix ++ t)) = parseName (fun _ => false) t := by
  unfold hostOf
  rw [String.toList_ofList]
  exact congrArg (·.bind (parseName fun _ => false)) (Text.stripPrefix_eq_some.mpr rfl)

theorem whatwg : WhatwgHosts fun _ => false := by
  intro d
  have hhost := hostOf_https d.text.toList
  generalize String.ofList (httpsPrefix ++ d.text.toList) = text at hhost ⊢
  show ((hostOf text).map fun _ => (⟨text⟩ : Url)).bind (fun url => hostOf url.asStr) = _
  rw [← hhost]
  cases hn : hostOf text with
  | none => rfl
  | some host => exact hn

def service : Service := ⟨1, none, ⟨128, 65536, 65536⟩⟩

def chat : DeliveryTarget := ⟨1, 7, none, none, Storage.Scenario.chat_ok⟩

def users : CookieDb :=
  { CookieDb.empty with users := fun id => if id = 7 then some ⟨"user", none⟩ else none }

/-- What is stored for a domain by one upload. -/
def uploaded (domain : CookieDomain) : CookieDb :=
  (storePersonalCookie service users 7 chat 1 domain datedJar 5 users).2

def numeric : CookieDomain := ⟨"foo.123", by decide⟩

def named : CookieDomain := ⟨"example.com", by decide⟩

def namedRow : CookieRow :=
  { personalRow 7 "example.com" datedJar true 5 with id := 1 }

theorem uploaded_named : (uploaded named).cookies.rows = [namedRow] := by decide +kernel

end PoisonScenario

section

attribute [local instance] PoisonScenario.platform

open PoisonScenario

theorem stored_cookies_available_named : ∃ cs,
    cookieCandidates (uploaded named).cookies.rows 7 "example.com" false = .ok cs ∧
      ⟨1, 7, "example.com", false⟩ ∈ cs := by
  have hrun : Relation.ReflTransGen CookieWrite users (uploaded named) :=
    .single (.store service users 7 chat 1 named datedJar 5 users)
  have havailable := (stored_cookies_available whatwg).2 rfl hrun 7 false
  rw [uploaded_named] at havailable ⊢
  refine (havailable.mpr ⟨?_, ?_⟩ "example.com").2 namedRow List.mem_cons_self rfl
    (by decide +kernel)
  · intro r hr _
    obtain rfl := List.mem_singleton.mp hr
    exact ⟨by decide, by decide⟩
  · intro r _ _ target _
    calc (matching [namedRow] 7 target false).length
        ≤ (visibleRows [namedRow] 7 false).length := List.length_filterMap_le _ _
      _ = 1 := rfl
      _ ≤ maxCandidates := by decide

/-- An upload for a name that is no host leaves every download without candidates. -/
theorem numeric_domain_poisons :
    (∃ d, CookieDomain.parse "foo.123" = .ok d ∧ normalizeDomain d.text = .error .unavailable) ∧
    ∃ db, Relation.ReflTransGen CookieWrite users db ∧ users.cookies.rows = [] ∧
      cookieCandidates db.cookies.rows 7 "youtube.com" false = .error .unavailable := by
  refine ⟨⟨numeric, by decide +kernel, by decide +kernel⟩, uploaded numeric,
    .single (.store service users 7 chat 1 numeric datedJar 5 users), rfl, by decide +kernel⟩

end

end YoinkCore.Downloads
