import YoinkCore.Downloads.DeviceSession

/-!
# Limits on personal cookies

The personal cookies of a user are limited in number and in bytes, and those of all users
together in bytes. A write may keep a total that is above its limit; it may not make one
grow there. Every writer but the refresh before an admission asks first.
-/

namespace YoinkCore.Downloads

open Lib Domain Worker Storage

/-! ## Weights -/

/-- What the rows weigh together. -/
def weigh (w : CookieRow → Nat) (rows : List CookieRow) : Nat := (rows.map w).sum

def countWeight (user : Int) (r : CookieRow) : Nat := if r.isPersonalOf user then 1 else 0

def byteWeight (user : Int) (r : CookieRow) : Nat := if r.isPersonalOf user then r.bytes else 0

def globalWeight (r : CookieRow) : Nat := if r.isPool then 0 else r.bytes

@[simp] theorem weigh_nil (w : CookieRow → Nat) : weigh w [] = 0 := rfl

@[simp] theorem weigh_cons (w : CookieRow → Nat) (r : CookieRow) (rows : List CookieRow) :
    weigh w (r :: rows) = w r + weigh w rows := by
  simp [weigh]

@[simp] theorem weigh_append (w : CookieRow → Nat) (rows rows' : List CookieRow) :
    weigh w (rows ++ rows') = weigh w rows + weigh w rows' := by
  simp [weigh]

variable {a b c new old rows : List CookieRow} {db : CookieDb}

theorem weigh_congr {w v : CookieRow → Nat} (h : ∀ r ∈ rows, w r = v r) :
    weigh w rows = weigh v rows := by
  rw [weigh, weigh, List.map_congr_left h]

/-- A weight is split by any predicate. -/
theorem weigh_filter_add (w : CookieRow → Nat) (p : CookieRow → Bool) (rows : List CookieRow) :
    weigh w (rows.filter p) + weigh w (rows.filter (!p ·)) = weigh w rows := by
  induction rows with
  | nil => rfl
  | cons r rows ih =>
      cases hp : p r <;> simp only [List.filter_cons, hp, Bool.not_true, Bool.not_false,
        Bool.false_eq_true, if_true, if_false, weigh_cons] <;> omega

theorem length_filter_eq_weigh (user : Int) (rows : List CookieRow) :
    (rows.filter (·.isPersonalOf user)).length = weigh (countWeight user) rows := by
  induction rows with
  | nil => rfl
  | cons r rows ih =>
      rw [weigh_cons, countWeight, List.filter_cons, ← ih]
      split
      · rw [List.length_cons]
        omega
      · omega

theorem bytesOf_filter_eq_weigh (p : CookieRow → Bool) (rows : List CookieRow) :
    bytesOf (rows.filter p) = weigh (fun r => if p r then r.bytes else 0) rows := by
  induction rows with
  | nil => rfl
  | cons r rows ih =>
      rw [weigh_cons, List.filter_cons, ← ih]
      split
      · simp [bytesOf]
      · omega

theorem bytesOf_personal (user : Int) (rows : List CookieRow) :
    bytesOf (rows.filter (·.isPersonalOf user)) = weigh (byteWeight user) rows :=
  bytesOf_filter_eq_weigh _ rows

theorem bytesOf_global (rows : List CookieRow) :
    bytesOf (rows.filter (!·.isPool)) = weigh globalWeight rows := by
  rw [bytesOf_filter_eq_weigh]
  refine weigh_congr fun r _ => ?_
  cases hp : r.isPool <;> simp [globalWeight, hp]

/-! ## Rows that are replaced -/

variable {l : PersonalCookieLimits} {r : CookieRow} {actor : Int}

theorem CookieRow.isFor_iff {domain : String} :
    r.isFor actor domain = true ↔
      (r.userId = actor ∧ r.isPool = false) ∧ r.bareDomain = domain.toList := by
  simp [isFor, isPersonalOf]

/-- The weights of a personal row, for its own user and for another. -/
theorem weights_of_personal (h : r.userId = actor ∧ r.isPool = false) (user : Int) :
    countWeight user r = (if user = actor then 1 else 0) ∧
      byteWeight user r = (if user = actor then r.bytes else 0) ∧ globalWeight r = r.bytes := by
  obtain ⟨rfl, hpool⟩ := h
  by_cases hu : user = r.userId
  · subst hu
    simp [countWeight, byteWeight, globalWeight, CookieRow.isPersonalOf, hpool]
  · have hu' : ¬ r.userId = user := fun he => hu he.symm
    simp [countWeight, byteWeight, globalWeight, CookieRow.isPersonalOf, hpool, hu, hu']

/-- What the replaced rows weigh. -/
theorem weigh_replaced (rows : List CookieRow) (actor : Int) (domain : String) (user : Int) :
    weigh (countWeight user) (rows.filter (·.isFor actor domain)) =
        (if user = actor then (rows.filter (·.isFor actor domain)).length else 0) ∧
      weigh (byteWeight user) (rows.filter (·.isFor actor domain)) =
        (if user = actor then bytesOf (rows.filter (·.isFor actor domain)) else 0) ∧
      weigh globalWeight (rows.filter (·.isFor actor domain)) =
        bytesOf (rows.filter (·.isFor actor domain)) := by
  have hfor : ∀ r ∈ rows.filter (·.isFor actor domain),
      r.userId = actor ∧ r.isPool = false := fun r hr =>
    (CookieRow.isFor_iff.mp (List.mem_filter.mp hr).2).1
  generalize rows.filter (·.isFor actor domain) = replaced at hfor ⊢
  induction replaced with
  | nil => simp [bytesOf]
  | cons r rows ih =>
      obtain ⟨hc, hb, hg⟩ := weights_of_personal (hfor r List.mem_cons_self) user
      obtain ⟨ihc, ihb, ihg⟩ := ih fun r' hr' => hfor r' (List.mem_cons_of_mem _ hr')
      simp only [weigh_cons, hc, hb, hg, ihc, ihb, ihg, bytesOf, List.map_cons, List.sum_cons,
        List.length_cons]
      refine ⟨?_, ?_, trivial⟩ <;> split <;> omega

/-! ## Totals -/

/-- No total has grown past its limit. -/
structure Within (l : PersonalCookieLimits) (old new : List CookieRow) : Prop where
  domains : ∀ user, (new.filter (·.isPersonalOf user)).length ≤
    max l.domains (old.filter (·.isPersonalOf user)).length
  actorBytes : ∀ user, bytesOf (new.filter (·.isPersonalOf user)) ≤
    max l.actorBytes (bytesOf (old.filter (·.isPersonalOf user)))
  globalBytes : bytesOf (new.filter (!·.isPool)) ≤
    max l.globalBytes (bytesOf (old.filter (!·.isPool)))

theorem Within.refl (l : PersonalCookieLimits) (rows : List CookieRow) : Within l rows rows :=
  ⟨fun _ => le_max_right _ _, fun _ => le_max_right _ _, le_max_right _ _⟩

theorem Within.trans (hab : Within l a b) (hbc : Within l b c) :
    Within l a c where
  domains user := (hbc.domains user).trans (max_le (le_max_left _ _) (hab.domains user))
  actorBytes user := (hbc.actorBytes user).trans (max_le (le_max_left _ _) (hab.actorBytes user))
  globalBytes := hbc.globalBytes.trans (max_le (le_max_left _ _) hab.globalBytes)

theorem within_iff_weigh :
    Within l old new ↔
      (∀ user, weigh (countWeight user) new ≤ max l.domains (weigh (countWeight user) old)) ∧
      (∀ user, weigh (byteWeight user) new ≤ max l.actorBytes (weigh (byteWeight user) old)) ∧
      weigh globalWeight new ≤ max l.globalBytes (weigh globalWeight old) := by
  simp only [← length_filter_eq_weigh, ← bytesOf_personal, ← bytesOf_global]
  exact ⟨fun h => ⟨h.domains, h.actorBytes, h.globalBytes⟩, fun ⟨hd, ha, hg⟩ => ⟨hd, ha, hg⟩⟩

theorem exceeds_eq_false {old new : Int} {limit : Nat} :
    exceeds old new limit = false ↔ new ≤ max (limit : Int) old := by
  simp only [exceeds, Bool.and_eq_false_iff, decide_eq_false_iff_not]
  omega

/-- Rows that are dropped weigh nothing any more. -/
theorem within_filter (l : PersonalCookieLimits) (p : CookieRow → Bool) (rows : List CookieRow) :
    Within l rows (rows.filter p) := by
  have hle : ∀ w, weigh w (rows.filter p) ≤ weigh w rows := fun w =>
    Nat.le.intro (weigh_filter_add w p rows)
  exact within_iff_weigh.mpr ⟨fun user => le_max_of_le_right (hle _),
    fun user => le_max_of_le_right (hle _), le_max_of_le_right (hle _)⟩

/-- The rows of one actor have grown by `c` rows and `b` bytes. -/
structure Grown (actor c b : Int) (old new : List CookieRow) : Prop where
  count : ∀ user, (weigh (countWeight user) new : Int) =
    weigh (countWeight user) old + if user = actor then c else 0
  bytes : ∀ user, (weigh (byteWeight user) new : Int) =
    weigh (byteWeight user) old + if user = actor then b else 0
  globalBytes : (weigh globalWeight new : Int) = weigh globalWeight old + b

/-- Growth stays within the limits exactly when the totals of its actor do. -/
theorem Grown.within_iff {count bytes : Int} (h : Grown actor count bytes old new) :
    Within l old new ↔
      exceeds (weigh (countWeight actor) old) (weigh (countWeight actor) old + count) l.domains =
          false ∧
      exceeds (weigh (byteWeight actor) old) (weigh (byteWeight actor) old + bytes)
          l.actorBytes = false ∧
      exceeds (weigh globalWeight old) (weigh globalWeight old + bytes) l.globalBytes = false := by
  rw [within_iff_weigh, exceeds_eq_false, exceeds_eq_false, exceeds_eq_false]
  have hglobal := h.globalBytes
  constructor
  · rintro ⟨hd, ha, hg⟩
    have hd := hd actor
    have ha := ha actor
    have hcount := h.count actor
    have hbytes := h.bytes actor
    rw [if_pos rfl] at hcount hbytes
    omega
  · rintro ⟨hd, ha, hg⟩
    refine ⟨fun user => ?_, fun user => ?_, by omega⟩
    · have hcount := h.count user
      split at hcount
      · rename_i hu
        subst hu
        omega
      · omega
    · have hbytes := h.bytes user
      split at hbytes
      · rename_i hu
        subst hu
        omega
      · omega

/-- A row is added. -/
theorem Grown.append (row : CookieRow) (hrow : row.userId = actor ∧ row.isPool = false)
    (rows : List CookieRow) : Grown actor 1 row.bytes rows (rows ++ [row]) := by
  have hw := weights_of_personal hrow
  constructor
  · intro user
    simp only [weigh_append, weigh_cons, weigh_nil, (hw user).1]
    split <;> omega
  · intro user
    simp only [weigh_append, weigh_cons, weigh_nil, (hw user).2.1]
    split <;> omega
  · simp only [weigh_append, weigh_cons, weigh_nil, (hw actor).2.2]
    omega

/-- The rows for a domain are dropped. -/
theorem Grown.drop (rows : List CookieRow) (actor : Int) (domain : String) :
    Grown actor (-(rows.filter (·.isFor actor domain)).length)
      (-bytesOf (rows.filter (·.isFor actor domain))) rows
      (rows.filter (!·.isFor actor domain)) := by
  have hsplit := fun w => weigh_filter_add w (·.isFor actor domain) rows
  have hw := weigh_replaced rows actor domain
  constructor
  · intro user
    have hs := hsplit (countWeight user)
    rw [(hw user).1] at hs
    split at hs <;> rename_i hu <;> simp only [hu, if_true, if_false] at hs ⊢ <;> omega
  · intro user
    have hs := hsplit (byteWeight user)
    rw [(hw user).2.1] at hs
    split at hs <;> rename_i hu <;> simp only [hu, if_true, if_false] at hs ⊢ <;> omega
  · have hs := hsplit globalWeight
    rw [(hw actor).2.2] at hs
    omega

theorem Grown.trans {count bytes count' bytes' : Int} (hab : Grown actor count bytes a b)
    (hbc : Grown actor count' bytes' b c) : Grown actor (count + count') (bytes + bytes') a c := by
  constructor
  · intro user
    rw [hbc.count, hab.count]
    split <;> omega
  · intro user
    rw [hbc.bytes, hab.bytes]
    split <;> omega
  · rw [hbc.globalBytes, hab.globalBytes]
    omega

/-- Rows of an actor are rewritten, each to `length` bytes. -/
theorem Grown.rewrite {p : CookieRow → Bool} {f : CookieRow → CookieRow} {length : Nat}
    (hp : ∀ r ∈ rows, p r = true → r.userId = actor ∧ r.isPool = false)
    (hf : ∀ r, (f r).userId = r.userId ∧ (f r).isPool = r.isPool ∧ (f r).bytes = length) :
    Grown actor 0 (length * (rows.filter p).length - bytesOf (rows.filter p)) rows
      (rows.map fun r => if p r then f r else r) := by
  induction rows with
  | nil =>
      exact ⟨fun _ => by simp, fun _ => by simp [bytesOf], by simp [bytesOf]⟩
  | cons r rows ih =>
      have ih := ih fun r' hr' => hp r' (List.mem_cons_of_mem _ hr')
      cases hpr : p r with
      | false =>
          simp only [List.map_cons, List.filter_cons, hpr, Bool.false_eq_true, if_false]
          constructor
          · intro user
            have := ih.count user
            simp only [weigh_cons]
            omega
          · intro user
            have := ih.bytes user
            simp only [weigh_cons]
            omega
          · have := ih.globalBytes
            simp only [weigh_cons]
            omega
      | true =>
          obtain ⟨huser, hpool⟩ := hp r List.mem_cons_self hpr
          obtain ⟨hfu, hfp, hlen⟩ := hf r
          have hold := weights_of_personal ⟨huser, hpool⟩
          have hnew := weights_of_personal ⟨hfu.trans huser, hfp.trans hpool⟩
          simp only [List.map_cons, List.filter_cons, hpr, if_true, List.length_cons]
          have hbytes : bytesOf (r :: rows.filter p) = r.bytes + bytesOf (rows.filter p) := by
            simp [bytesOf]
          rw [hbytes, Nat.cast_add_one, mul_add, mul_one]
          constructor
          · intro user
            have := ih.count user
            simp only [weigh_cons, (hold user).1, (hnew user).1]
            omega
          · intro user
            have := ih.bytes user
            simp only [weigh_cons, (hold user).2.1, (hnew user).2.1, hlen]
            split at this <;> rename_i hu <;> simp only [hu, if_true, if_false] at this ⊢ <;> omega
          · have := ih.globalBytes
            simp only [weigh_cons, (hold actor).2.2, (hnew actor).2.2, hlen]
            omega

/-- One row for the replaced ones, when the limits allow it. -/
theorem within_replace {domain : String} {row : CookieRow}
    (hrow : row.userId = actor ∧ row.isPool = false)
    (h : (usage rows actor domain).replaceExceeds row.bytes l = false) :
    Within l rows (rows.filter (!·.isFor actor domain) ++ [row]) := by
  simp only [Usage.replaceExceeds, Bool.or_eq_false_iff, exceeds_eq_false, usage,
    length_filter_eq_weigh, bytesOf_personal, bytesOf_global] at h
  rw [((Grown.drop rows actor domain).trans (.append row hrow _)).within_iff]
  simp only [exceeds_eq_false]
  omega

/-- Every replaced row rewritten, or one added, when the limits allow it. -/
theorem within_upsert {now : Int} {domain content : String} {valid : Bool} {db' : CookieDb}
    {u : Unit}
    (h : (usage db.cookies.rows actor domain).updateExceeds (Text.byteLen content.toList) l =
      false) (hu : upsertCookie actor domain content valid now db = .ok (u, db')) :
    Within l db.cookies.rows db'.cookies.rows := by
  rw [upsertCookie_rows hu]
  generalize db.cookies.rows = rows at h ⊢
  simp only [Usage.updateExceeds, Bool.or_eq_false_iff, exceeds_eq_false, usage,
    length_filter_eq_weigh, bytesOf_personal, bytesOf_global] at h
  rw [List.countP_eq_length_filter]
  split
  · rename_i hnone
    have hempty : rows.filter (·.isFor actor domain) = [] := List.eq_nil_of_length_eq_zero hnone
    have hone : max (0 : Int) 1 = 1 := rfl
    rw [hempty] at h
    simp only [List.length_nil, bytesOf, List.map_nil, List.sum_nil, Nat.cast_zero, if_true,
      hone, mul_one] at h
    have hgrown : Grown actor 1 (Text.byteLen content.toList) rows
        (rows ++ [{ personalRow actor domain content valid now with id := db.nextId }]) :=
      .append { personalRow actor domain content valid now with id := db.nextId } ⟨rfl, rfl⟩ rows
    rw [hgrown.within_iff]
    simp only [exceeds_eq_false]
    omega
  · rename_i hsome
    have hone : max ((rows.filter (·.isFor actor domain)).length : Int) 1 =
        (rows.filter (·.isFor actor domain)).length := by omega
    rw [hone, if_neg (by omega)] at h
    have hgrown : Grown actor 0 (Text.byteLen content.toList *
          (rows.filter (·.isFor actor domain)).length -
            bytesOf (rows.filter (·.isFor actor domain))) rows
        (rows.map fun r =>
          if r.isFor actor domain then rewriteRow content valid now r else r) :=
      .rewrite (fun r _ hr => (CookieRow.isFor_iff.mp hr).1) fun r => ⟨rfl, rfl, rfl⟩
    rw [hgrown.within_iff]
    simp only [exceeds_eq_false]
    omega

/-! ## Operations -/

def isCapacity {α : Type} : Except DownloadError α → Bool
  | .error .personalCookieCapacity => true
  | _ => false

section

variable [OAuthPlatform]

/-- An operation on the personal cookies, with all it is given and reads elsewhere. -/
inductive CookieOp where
  | store (early : CookieDb) (actor : UInt64) (target : DeliveryTarget) (messageId : Int)
      (domain : CookieDomain) (content : String) (now : Int)
  | web (actor : Option Int) (token : Option String) (inputs : List CookieInput) (now : Int)
  | accept (config : OAuthPollConfig) (actor : Int) (hash : String) (asked now : Int)
  | complete (config : OAuthPollConfig) (actor : Int) (hash : String) (poll : AcceptedPoll)
      (answer : ProviderPoll) (now : Int)
  | refresh (actor : Int) (expected : OAuthReference) (before now : Int)
      (provider : YoutubeOAuth → Except DownloadError YoutubeOAuth) (early : CookieDb)
  | admission (reads : Nat → CookieDb) (clock : Nat → Int) (context : NetworkContext)
      (provider : Option (YoutubeOAuth → Except ProfileError YoutubeOAuth))
      (answered now : Int)
  | delete (cond : CookieRow → Bool)

/-- Whether the operation reports that the capacity is exhausted, and what it leaves. -/
def CookieOp.run (s : Service) (db : CookieDb) : CookieOp → Bool × CookieDb
  | .store early actor target messageId domain content now =>
      (storePersonalCookie s early actor target messageId domain content now db).map isCapacity id
  | .web actor token inputs now => (webWrite s actor token inputs now db).map isCapacity id
  | .accept config actor hash asked now =>
      (oauthAccept s config actor hash asked now db).map isCapacity id
  | .complete config actor hash poll answer now =>
      (oauthComplete s config actor hash poll answer now db).map isCapacity id
  | .refresh actor expected before now provider early =>
      (oauthRefresh s actor expected before now provider early db).map isCapacity id
  -- the refresh before an admission has no error for the limits
  | .admission reads clock context provider answered now =>
      (false, (refreshBeforeAdmission reads clock context provider answered now db).2)
  | .delete cond => (false, { db with cookies := (db.cookies.delete cond).1 })

/-- A row of an actor may be written over by `length` bytes. -/
def writeFits (l : PersonalCookieLimits) (actor : Int) (rows : List CookieRow) (r : CookieRow)
    (length : Nat) : Bool :=
  !exceeds (bytesOf (rows.filter (·.isPersonalOf actor)))
      (bytesOf (rows.filter (·.isPersonalOf actor)) + (length - r.bytes)) l.actorBytes &&
    !exceeds (bytesOf (rows.filter (!·.isPool)))
      (bytesOf (rows.filter (!·.isPool)) + (length - r.bytes)) l.globalBytes

/-- What a refresh before an admission wants to write, and over which row, fits. -/
def CookieOp.Fits (l : PersonalCookieLimits) (db : CookieDb) : CookieOp → Prop
  | .admission reads clock context provider answered now =>
      ∀ read swap content, refreshRead reads clock context = .ok (some read) →
        provider = some swap →
        (swap read.tokens >>= fun tokens => replacement tokens answered) = .ok content →
        ∀ r ∈ db.cookies.rows, unchanged context.actorId.toNat read db now r = true →
          writeFits l context.actorId.toNat db.cookies.rows r (Text.byteLen content.toList) = true
  | _ => True

omit [OAuthPlatform] in
theorem cookies_keyed : Table.Keyed cookieSchema CookieRow.id := by
  intro a b h
  simp [cookieSchema, h]

variable {read : StaleTokens}

omit [OAuthPlatform] in
/-- At most one row is the one that was read. -/
theorem filter_unchanged {now : Int} (hr : r ∈ db.cookies.rows)
    (hu : unchanged actor read db now r = true) :
    db.cookies.rows.filter (unchanged actor read db now) = [r] := by
  have hid : ∀ r, unchanged actor read db now r = true → r.id = read.row.id := by
    intro r h
    simp only [unchanged, Bool.and_eq_true, beq_iff_eq] at h
    exact h.1.1.1.1.1.1.1
  have hone : (db.cookies.rows.filter (unchanged actor read db now)).length ≤ 1 := by
    rw [← List.countP_eq_length_filter, Table.countP_of_key cookies_keyed hid]
    split <;> omega
  have hmem : r ∈ db.cookies.rows.filter (unchanged actor read db now) :=
    List.mem_filter.mpr ⟨hr, hu⟩
  obtain ⟨a, ha⟩ := List.length_eq_one_iff.mp
    (Nat.le_antisymm hone (List.length_pos_of_mem hmem))
  rw [ha] at hmem ⊢
  rw [List.mem_singleton.mp hmem]

omit [OAuthPlatform] in
/-- Writing over the row that was read stays within the limits exactly when it fits. -/
theorem within_exchange {now : Int} {content : String} (hr : r ∈ db.cookies.rows)
    (hu : unchanged actor read db now r = true) :
    Within l db.cookies.rows (db.cookies.rows.map fun r =>
        if unchanged actor read db now r then exchange content now r else r) ↔
      writeFits l actor db.cookies.rows r (Text.byteLen content.toList) = true := by
  have hpersonal : ∀ r ∈ db.cookies.rows, unchanged actor read db now r = true →
      r.userId = actor ∧ r.isPool = false := by
    intro r _ h
    simp only [unchanged, Bool.and_eq_true, beq_iff_eq, Bool.not_eq_true'] at h
    exact ⟨h.1.1.1.2, h.1.2⟩
  have hgrown := Grown.rewrite hpersonal
    (fun r => ⟨rfl, rfl, rfl⟩ : ∀ r, (exchange content now r).userId = r.userId ∧
      (exchange content now r).isPool = r.isPool ∧
      (exchange content now r).bytes = Text.byteLen content.toList)
  have hbytes : bytesOf [r] = r.bytes := by simp [bytesOf]
  rw [filter_unchanged hr hu, hbytes, List.length_singleton] at hgrown
  rw [hgrown.within_iff]
  simp only [writeFits, bytesOf_personal, bytesOf_global, Bool.and_eq_true, Bool.not_eq_true',
    exceeds_eq_false]
  omega

/-! ## Each operation -/

omit [OAuthPlatform] in
/-- An upload from a chat keeps the limits; refused, it keeps the cookies. -/
theorem store_within (s : Service) (early : CookieDb) (actor : UInt64) (target : DeliveryTarget)
    (messageId : Int) (domain : CookieDomain) (content : String) (now : Int) (db : CookieDb) :
    (isCapacity (storePersonalCookie s early actor target messageId domain content now db).1 =
        true →
      (storePersonalCookie s early actor target messageId domain content now db).2.cookies =
        db.cookies) ∧
    Within s.limits db.cookies.rows
      (storePersonalCookie s early actor target messageId domain content now
        db).2.cookies.rows := by
  rcases storePersonalCookie_cases s early actor target messageId domain content now db
    with h | ⟨db₁, db₂, n, hsame, hlimit, hrep, h⟩
  · exact ⟨fun _ => h, by rw [h]; exact .refl ..⟩
  · rw [h]
    refine ⟨fun hc => (by cases hc), ?_⟩
    rw [replaceCookie_rows hrep, hsame]
    exact within_replace ⟨rfl, rfl⟩ hlimit

/-- A submission from the web keeps the limits, one domain after the other. -/
theorem web_within (s : Service) (actor : Option Int) (token : Option String)
    (inputs : List CookieInput) (now : Int) (db : CookieDb) :
    (isCapacity (webWrite s actor token inputs now db).1 = true →
      (webWrite s actor token inputs now db).2.cookies = db.cookies) ∧
    Within s.limits db.cookies.rows (webWrite s actor token inputs now db).2.cookies.rows := by
  rcases webWrite_cases s actor token inputs now db
    with h | ⟨user, domains, db₁, db₂, -, hw, hsame, h⟩
  · exact ⟨fun _ => by rw [h], by rw [h]; exact .refl ..⟩
  · rw [h]
    refine ⟨fun hc => (by cases hc), ?_⟩
    rw [hsame]
    refine @writeInputs_relate s user now
      (fun a b => Within s.limits a.cookies.rows b.cookies.rows) (fun _ => .refl ..)
      Within.trans ?_ _ _ _ hw
    intro input domain a b hstep
    obtain ⟨hlimit, _, _, hu⟩ := writeInput_eq_ok hstep
    exact within_upsert hlimit hu

omit [OAuthPlatform] in
theorem accept_within (s : Service) (config : OAuthPollConfig) (actor : Int) (hash : String)
    (asked now : Int) (db : CookieDb) :
    (oauthAccept s config actor hash asked now db).2.cookies = db.cookies := by
  rcases oauthAccept_cases s config actor hash asked now db with ⟨e, h⟩ | ⟨a, db', h, ha⟩
  · rw [h]
  · rw [h]
    cases ha <;> rfl

/-- A poll stores what was granted within the limits, or keeps it staged. -/
theorem complete_within (s : Service) (config : OAuthPollConfig) (actor : Int) (hash : String)
    (poll : AcceptedPoll) (answer : ProviderPoll) (now : Int) (db : CookieDb) :
    (isCapacity (oauthComplete s config actor hash poll answer now db).1 = true →
      (oauthComplete s config actor hash poll answer now db).2.cookies = db.cookies) ∧
    Within s.limits db.cookies.rows
      (oauthComplete s config actor hash poll answer now db).2.cookies.rows := by
  rcases oauthComplete_cases s config actor hash poll answer now db
    with ⟨e, h⟩ | ⟨outcome, current, reply, db', -, h, -, -, -, hdone⟩
  · rw [h]
    exact ⟨fun _ => rfl, .refl ..⟩
  · rw [h]
    cases hdone with
    | waiting | expired | refused => exact ⟨fun _ => rfl, .refl ..⟩
    | stored _ hsame hlimit _ hu =>
        refine ⟨fun hc => (by cases hc), ?_⟩
        rw [← hsame] at hlimit ⊢
        have hw := within_upsert hlimit hu
        exact hw

theorem refresh_within (s : Service) (actor : Int) (expected : OAuthReference)
    (before now : Int) (provider : YoutubeOAuth → Except DownloadError YoutubeOAuth)
    (early db : CookieDb) :
    (isCapacity (oauthRefresh s actor expected before now provider early db).1 = true →
      (oauthRefresh s actor expected before now provider early db).2.cookies = db.cookies) ∧
    Within s.limits db.cookies.rows
      (oauthRefresh s actor expected before now provider early db).2.cookies.rows := by
  rcases oauthRefresh_cases s actor expected before now provider early db
    with ⟨e, h⟩ | ⟨_, _, _, _, _, _, db', h, -, -, -, -, -, -, -, hlimit, hu⟩
  · rw [h]
    exact ⟨fun _ => rfl, .refl ..⟩
  · rw [h]
    exact ⟨fun hc => (by cases hc), within_upsert hlimit hu⟩

/-- A refresh before an admission keeps the limits when it writes nothing or what it writes
fits; otherwise it breaks them. -/
theorem admission_within (l : PersonalCookieLimits) (reads : Nat → CookieDb)
    (clock : Nat → Int) (context : NetworkContext)
    (provider : Option (YoutubeOAuth → Except ProfileError YoutubeOAuth))
    (answered now : Int) (db : CookieDb) :
    Within l db.cookies.rows
        (refreshBeforeAdmission reads clock context provider answered now db).2.cookies.rows ↔
      (CookieOp.admission reads clock context provider answered now).Fits l db ∨
        (refreshBeforeAdmission reads clock context provider answered now db).2.cookies.rows =
          db.cookies.rows := by
  rcases refreshBeforeAdmission_cases reads clock context provider answered now db
    with ⟨e, h⟩ | ⟨-, h⟩ | ⟨read, swap, content, db', h, hread, hprov, hcontent, -, hrows⟩
  · rw [h]
    exact iff_of_true (.refl ..) (.inr rfl)
  · rw [h]
    exact iff_of_true (.refl ..) (.inr rfl)
  rw [h]
  dsimp only
  by_cases hsome : ∃ r ∈ db.cookies.rows, unchanged context.actorId.toNat read db now r = true
  · obtain ⟨r, hr, hu⟩ := hsome
    constructor
    · intro hw
      rw [hrows, within_exchange hr hu] at hw
      refine .inl ?_
      intro read' swap' content' hread' hprov' hcontent' r' hr' hu'
      obtain rfl := Option.some.inj (Except.ok.inj (hread.symm.trans hread'))
      obtain rfl := Option.some.inj (hprov.symm.trans hprov')
      obtain rfl := Except.ok.inj (hcontent.symm.trans hcontent')
      have hone := filter_unchanged hr hu
      rw [filter_unchanged hr' hu'] at hone
      rw [List.singleton_inj.mp hone]
      exact hw
    · rintro (hfits | hsame)
      · rw [hrows, within_exchange hr hu]
        exact hfits read swap content hread hprov hcontent r hr hu
      · rw [hsame]
        exact .refl ..
  · have hsame : db'.cookies.rows = db.cookies.rows := by
      rw [hrows]
      conv_rhs => rw [← List.map_id db.cookies.rows]
      exact List.map_congr_left fun r hr => if_neg fun hu => hsome ⟨r, hr, hu⟩
    rw [hsame]
    exact iff_of_true (.refl ..) (.inr rfl)

/-- **One operation.** Refused for the limits, it keeps the cookies. It keeps the limits if
and only if it fits, or changes nothing. -/
theorem CookieOp.within (s : Service) (db : CookieDb) (op : CookieOp) :
    ((op.run s db).1 = true → (op.run s db).2.cookies = db.cookies) ∧
    (Within s.limits db.cookies.rows (op.run s db).2.cookies.rows ↔
      op.Fits s.limits db ∨ (op.run s db).2.cookies.rows = db.cookies.rows) := by
  cases op with
  | store early actor target messageId domain content now =>
      obtain ⟨hc, hw⟩ := store_within s early actor target messageId domain content now db
      exact ⟨hc, iff_of_true hw (.inl trivial)⟩
  | web actor token inputs now =>
      obtain ⟨hc, hw⟩ := web_within s actor token inputs now db
      exact ⟨hc, iff_of_true hw (.inl trivial)⟩
  | accept config actor hash asked now =>
      have hsame := accept_within s config actor hash asked now db
      refine ⟨fun _ => hsame, iff_of_true ?_ (.inl trivial)⟩
      show Within _ _ (oauthAccept s config actor hash asked now db).2.cookies.rows
      rw [hsame]
      exact .refl ..
  | complete config actor hash poll answer now =>
      obtain ⟨hc, hw⟩ := complete_within s config actor hash poll answer now db
      exact ⟨hc, iff_of_true hw (.inl trivial)⟩
  | refresh actor expected before now provider early =>
      obtain ⟨hc, hw⟩ := refresh_within s actor expected before now provider early db
      exact ⟨hc, iff_of_true hw (.inl trivial)⟩
  | admission reads clock context provider answered now =>
      exact ⟨fun hc => (by cases hc),
        admission_within s.limits reads clock context provider answered now db⟩
  | delete cond =>
      exact ⟨fun hc => (by cases hc), iff_of_true (within_filter ..) (.inl trivial)⟩

/-! ## Runs -/

/-- A step with what it writes within bounds. -/
def FittingStep (s : Service) (db : CookieDb) (op : CookieOp) (db' : CookieDb) : Prop :=
  op.Fits s.limits db ∧ db' = (op.run s db).2

/-- **Limits.** A run whose refreshes before an admission fit keeps every total at most the
larger of its limit and what it was at the start. In any state an operation that is refused
for the limits keeps the cookies, and one keeps the totals so bounded if and only if it
fits or changes nothing. -/
theorem cookie_limits {s : Service} {db₀ db : CookieDb} {ops : List CookieOp}
    (h : Run (FittingStep s) db₀ ops db) :
    Within s.limits db₀.cookies.rows db.cookies.rows ∧
    ∀ op : CookieOp, ((op.run s db).1 = true → (op.run s db).2.cookies = db.cookies) ∧
      (Within s.limits db.cookies.rows (op.run s db).2.cookies.rows ↔
        op.Fits s.limits db ∨ (op.run s db).2.cookies.rows = db.cookies.rows) := by
  refine ⟨?_, CookieOp.within s db⟩
  refine @Run.relate _ _ _ _ _ _ (fun a b => Within s.limits a.cookies.rows b.cookies.rows)
    (fun _ => .refl ..) ?_ h
  rintro a b op c hab ⟨hfits, rfl⟩
  exact hab.trans ((op.within s b).2.mpr (.inl hfits))

end

/-! ## A refresh beyond the limits -/

namespace LimitScenario

open TokenScenario

/-- Limits that the expired tokens of one user fill. -/
def service : Service := ⟨1, none, ⟨1, 88, 88⟩⟩

def oauthUser : CookieDb :=
  { oneRow with
    settings := fun id => if id = 7 then some ⟨false, none, false, "oauth"⟩ else none }

def context : NetworkContext :=
  ⟨7, "youtube.com", [], ⟨⟨7, .user, none⟩, [], [], 0⟩, [], none⟩

/-- The provider gives longer tokens for the expired ones. -/
def admission : CookieOp :=
  .admission (fun _ => oauthUser) (fun _ => 1000000000000000) context
    (some fun _ => .ok renewed) 1000000000000000 1000000000000000

/-- Limits that the new tokens fill. -/
def roomy : Service := ⟨1, none, ⟨1, 91, 91⟩⟩

/-- A jar for another site. -/
def upload : CookieOp :=
  .store oauthUser 7 PoisonScenario.chat 1 PoisonScenario.named datedJar 5

end LimitScenario

section

attribute [local instance] TokenScenario.platform

open LimitScenario TokenScenario

/-- Within limits that have just enough room the refresh fits. Then an upload is refused. -/
theorem cookie_limits_refreshed :
    Within roomy.limits oauthUser.cookies.rows (admission.run roomy oauthUser).2.cookies.rows ∧
    bytesOf ((admission.run roomy oauthUser).2.cookies.rows.filter (·.isPersonalOf 7)) = 91 ∧
    (upload.run roomy (admission.run roomy oauthUser).2).2.cookies =
      (admission.run roomy oauthUser).2.cookies := by
  have hfits : admission.Fits roomy.limits oauthUser := by
    intro read swap content hread hprov hcontent r hr hu
    cases hprov
    have hnew : replacement renewed 1000000000000000 = .ok (contentOf renewed) := by
      decide +kernel
    obtain rfl := Except.ok.inj (hnew.symm.trans hcontent)
    rw [List.mem_singleton.mp hr]
    decide +kernel
  have hrun : Run (FittingStep roomy) oauthUser [admission] (admission.run roomy oauthUser).2 :=
    .single ⟨hfits, rfl⟩
  obtain ⟨hwithin, hop⟩ := cookie_limits hrun
  have hrefused : (upload.run roomy (admission.run roomy oauthUser).2).1 = true := by
    decide +kernel
  exact ⟨hwithin, by decide +kernel, (hop upload).1 hrefused⟩

/-- A refresh before an admission takes a user beyond limits that were kept so far. -/
theorem admission_beyond_limits :
    bytesOf (oauthUser.cookies.rows.filter (·.isPersonalOf 7)) = service.limits.actorBytes ∧
    service.limits.actorBytes < bytesOf
      ((admission.run service oauthUser).2.cookies.rows.filter (·.isPersonalOf 7)) ∧
    ¬ Within service.limits oauthUser.cookies.rows
      (admission.run service oauthUser).2.cookies.rows := by
  have hold : bytesOf (oauthUser.cookies.rows.filter (·.isPersonalOf 7)) = 88 := by
    decide +kernel
  have hnew : bytesOf
      ((admission.run service oauthUser).2.cookies.rows.filter (·.isPersonalOf 7)) = 91 := by
    decide +kernel
  have hlimit : service.limits.actorBytes = 88 := rfl
  refine ⟨hold.trans hlimit.symm, by omega, fun h => ?_⟩
  have hbytes := h.actorBytes 7
  omega

end

end YoinkCore.Downloads
