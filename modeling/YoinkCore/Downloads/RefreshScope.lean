import YoinkCore.Downloads.OAuthRefresh

/-!
# What a refresh writes

A refresh was made for the one row it read. The refresh before an admission writes that
row and no other. The refresh on request writes every row of the actor for the domain of
the tokens: a second one, stored with a dot or in another case, is lost.
-/

namespace YoinkCore.Downloads

open Lib Lib.Bytes Domain Worker Storage

/-! ## Versions -/

theorem digestVersion_injective {d d' : BitVec 256} (h : digestVersion d = digestVersion d') :
    d = d' := by
  have hlist := String.ofList_injective (congrArg CredentialVersion.value h)
  exact BitVec.eq_of_toNat_eq (hexDigits_injective 64 d.isLt d'.isLt hlist)

/-- No two rows of the tables have versions that collide under SHA-256. -/
def Collisionless [Platform] (rows rows' : List CookieRow) : Prop :=
  ∀ r ∈ rows, ∀ r' ∈ rows',
    Platform.sha256 (versionMaterial r) = Platform.sha256 (versionMaterial r') →
      versionMaterial r = versionMaterial r'

theorem versionMaterial_length (r : CookieRow) :
    (versionMaterial r).length = r.bytes + Text.byteLen r.domain.toList + 69 := by
  simp only [versionMaterial, framed, List.length_append, beBytes_length, signedBytes,
    toUTF8_length, List.length_cons, List.length_nil, CookieRow.bytes]
  omega

/-- A row of bounded content that has the version of another holds the same. -/
theorem sameCredential_of_version [Platform] {T U : Table cookieSchema}
    (hs : Collisionless T.rows U.rows) {a b : CookieRow} (ha : a ∈ T.rows) (hb : b ∈ U.rows)
    (hlen : a.bytes ≤ maxOauthContentBytes) (h : cookieVersion a = cookieVersion b) :
    SameCredential a b := by
  have hca := T.checked a ha
  have hdomain : a.domain.toList.length ≤ 253 := by
    simp only [cookieSchema, Bool.and_eq_true, decide_eq_true_eq] at hca
    exact hca.1.1.1.1.2
  have hbytes := byteLen_le a.domain.toList
  refine versionMaterial_inj hca (U.checked b hb) ?_
    (hs a ha b hb (digestVersion_injective h))
  rw [versionMaterial_length]
  have : maxOauthContentBytes = 65536 := rfl
  omega

/-! ## References -/

variable {c : OAuthReference} {r : CookieRow} {actor : Int}

/-- What a reference says about a row. -/
theorem reference_eq_ok [Platform] (h : reference actor r = .ok c) :
    toInt32? r.id = some c.cookie.id ∧
      (∃ d, CookieDomain.parse r.domain = .ok d ∧ c.cookie.domain = d.text) ∧
      c.cookie.version = cookieVersion { r with userId := actor, isPool := false } := by
  unfold reference at h
  split at h
  · cases h
  rename_i id hid
  simp only [Tx.result_bind_eq_ok, Tx.mapError_eq_ok] at h
  obtain ⟨d, hd, cookie, hc, h⟩ := h
  cases h
  unfold CookieReference.new at hc
  split at hc
  · cases hc
    exact ⟨hid, ⟨d, hd, rfl⟩, rfl⟩
  · cases hc

/-- Another content changes the version in a reference and nothing else. -/
theorem reference_of_content [Platform] (h : reference actor r = .ok c) (content : String)
    (t : Int) : ∃ c', reference actor { r with content := content, updatedAt := t } = .ok c' := by
  unfold reference at h ⊢
  split at h
  · cases h
  rename_i id hid
  simp only [Tx.result_bind_eq_ok, Tx.mapError_eq_ok] at h
  obtain ⟨d, hd, cookie, hc, -⟩ := h
  unfold CookieReference.new at hc
  split at hc
  · rename_i hok
    simp [hid, hd, CookieReference.new, hok, bind, Except.bind, Except.mapError, pure,
      Except.pure]
  · cases hc

theorem toInt32?_toInt {x : Int} {id : Int32} (h : toInt32? x = some id) : id.toInt = x := by
  unfold toInt32? at h
  split at h
  · rename_i hx
    obtain rfl := Option.some.inj h
    exact Int32.toInt_ofInt_of_le hx.1 (by omega)
  · cases h

/-! ## The refresh on request -/

section

variable [OAuthPlatform]

variable {tokens : YoutubeOAuth} {db db' early : CookieDb} {current expected : OAuthReference}
  {reads : Nat → CookieDb} {row : CookieRow} {read : StaleTokens} {clock : Nat → Int}
  {s : Service}

/-- What is read before the provider is asked is the referenced row. -/
theorem oauthRefreshRead_eq_ok {before : Int} {credential : YoutubeOAuth}
    (h : oauthRefreshRead s early actor expected before = .ok (current, credential)) :
    current = expected ∧ ∃ row, credentialRow early.cookies.rows actor = some row ∧
      reference actor row = .ok expected ∧ decodeCredential row.content = .ok credential := by
  simp only [oauthRefreshRead, oauthCredential, Tx.result_bind_eq_ok] at h
  obtain ⟨found, ⟨_, -, hf⟩, h⟩ := h
  split at hf
  · cases hf
    cases h
  rename_i row hrow
  split at hf
  swap
  · cases hf
    cases h
  simp only [Tx.result_bind_eq_ok] at hf
  obtain ⟨ref, href, tokens, ht, hf⟩ := hf
  cases hf
  dsimp only at h
  split at h
  · cases h
  · rename_i he
    cases h
    exact ⟨not_not.mp he, row, hrow, not_not.mp he ▸ href, ht⟩

/-- A refresh writes when the row still has the version it was read with. -/
theorem oauthRefreshTx_eq_ok {now : Int} {content : String} {r : Outcome CookieRow}
    (h : oauthRefreshTx s actor current content now db = .ok (r, db')) :
    ∃ row, r = .commit (.ok row) ∧ namedRow db.cookies.rows actor current.cookie.id = some row ∧
      reference actor row = .ok current ∧
      (usage db.cookies.rows actor oauthDomain).updateExceeds (Text.byteLen content.toList)
        s.limits = false ∧
      ∃ t, fromTimestamp now = some t ∧
        upsertCookie actor oauthDomain content true t db = .ok ((), db') := by
  simp only [oauthRefreshTx, Tx.bind_eq_ok, Tx.get_eq_ok] at h
  obtain ⟨_, _, ⟨rfl, rfl⟩, _, _, ha, h⟩ := h
  obtain ⟨-, rfl⟩ := result_eq_ok ha
  cases hn : namedRow db.cookies.rows actor current.cookie.id with
  | none =>
      rw [hn] at h
      exact (Tx.throw_ne_ok.mp h).elim
  | some row =>
      rw [hn] at h
      simp only [Tx.bind_eq_ok, Tx.ite_apply_state] at h
      obtain ⟨found, _, hres, h⟩ := h
      obtain ⟨hr, rfl⟩ := result_eq_ok hres
      split at h
      · exact (Tx.throw_ne_ok.mp h).elim
      rename_i hfound
      obtain rfl := not_not.mp hfound
      split at h
      · exact (Tx.throw_ne_ok.mp h).elim
      rename_i hcap
      obtain ⟨_, _, hstore, h⟩ := Tx.bind_eq_ok.mp h
      cases h
      cases ht : fromTimestamp now with
      | none =>
          rw [oauthStore, ht] at hstore
          exact (Tx.throw_ne_ok.mp hstore).elim
      | some t =>
          rw [oauthStore, ht] at hstore
          refine ⟨row, rfl, rfl, hr, ?_, t, rfl, hstore⟩
          simpa [oauthCapacity] using hcap

/-- A refresh on request fails and leaves the database as it was, or reads a row and
writes its bounded content while that row has the same version. -/
theorem oauthRefresh_cases (s : Service) (actor : Int) (expected : OAuthReference)
    (before now : Int) (provider : YoutubeOAuth → Except DownloadError YoutubeOAuth)
    (early db : CookieDb) :
    (∃ e, oauthRefresh s actor expected before now provider early db = (.error e, db)) ∨
      ∃ read row credential content t ref db',
        oauthRefresh s actor expected before now provider early db = (.ok ref, db') ∧
        credentialRow early.cookies.rows actor = some read ∧
        reference actor read = .ok expected ∧ decodeCredential read.content = .ok credential ∧
        (provider credential >>= encodeCredential) = .ok content ∧
        fromTimestamp now = some t ∧
        namedRow db.cookies.rows actor expected.cookie.id = some row ∧
        reference actor row = .ok expected ∧
        (usage db.cookies.rows actor oauthDomain).updateExceeds
          (Text.byteLen content.toList) s.limits = false ∧
        upsertCookie actor oauthDomain content true t db = .ok ((), db') := by
  unfold oauthRefresh
  cases hread : oauthRefreshRead s early actor expected before with
  | error e => exact .inl ⟨e, rfl⟩
  | ok p =>
      obtain ⟨current, credential⟩ := p
      obtain ⟨rfl, read, hrow, href, hdec⟩ := oauthRefreshRead_eq_ok hread
      dsimp only
      cases hcontent : provider credential >>= encodeCredential with
      | error e => exact .inl ⟨e, rfl⟩
      | ok content =>
          dsimp only
          unfold transact
          rcases Tx.run_spec (oauthRefreshTx s actor current content now) db
            with ⟨e, -, h⟩ | ⟨r, db', hb, h⟩ | ⟨r, db', hb, h⟩
          · exact .inl ⟨e, by rw [h]⟩
          · obtain ⟨row, hr, -⟩ := oauthRefreshTx_eq_ok hb
            cases hr
          · obtain ⟨row, hr, hname, hcur, hcap, t, ht, hu⟩ := oauthRefreshTx_eq_ok hb
            cases hr
            obtain ⟨ref, hnew⟩ := reference_of_content hcur content t
            refine .inr ⟨read, row, credential, content, t, ref, db', ?_, hrow, href, hdec,
              hcontent, ht, hname, hcur, hcap, hu⟩
            rw [h]
            dsimp only
            rw [refreshedReference, ht]
            exact congrArg (·, db') hnew

/-! ## The refresh before an admission -/

theorem inspect_stale {now : Int} {c : Candidate}
    (h : inspect db actor now c = .ok (.stale row tokens)) :
    row ∈ db.cookies.rows ∧ row.bytes ≤ maxOauthContentBytes := by
  unfold inspect at h
  split at h
  · cases h
  rename_i row' content hrow
  simp only [cookieById, Option.map_eq_some_iff, Prod.mk.injEq] at hrow
  obtain ⟨r, hfind, rfl, hcontent⟩ := hrow
  simp only [inspectRow, Tx.result_bind_eq_ok] at h
  obtain ⟨site, -, h⟩ := h
  split at h
  · cases h
  split at hcontent
  · rename_i hlen
    subst hcontent
    dsimp only at h
    split at h
    · cases h
    simp only [Tx.result_bind_eq_ok] at h
    obtain ⟨tokens', -, h⟩ := h
    split at h
    · cases h
    · cases h
      exact ⟨List.mem_of_find?_eq_some hfind, hlen⟩
  · subst hcontent
    cases h

theorem inspectAll_stale : ∀ {cs : List Candidate} {k n : Nat},
      inspectAll reads clock actor k cs = .ok (n, .stale row tokens) →
        ∃ m, row ∈ (reads m).cookies.rows ∧ row.bytes ≤ maxOauthContentBytes := by
  intro cs
  induction cs with
  | nil =>
      intro k n h
      cases h
  | cons c cs ih =>
      intro k n h
      unfold inspectAll at h
      split at h
      · cases h
      · exact ih h
      · rename_i found hother hfound
        cases h
        exact ⟨k, inspect_stale hfound⟩

/-- Tokens to be exchanged were read from a row of bounded content. -/
theorem refreshRead_eq_some {context : NetworkContext}
    (h : refreshRead reads clock context = .ok (some read)) :
    ∃ m, read.row ∈ (reads m).cookies.rows ∧ read.row.bytes ≤ maxOauthContentBytes := by
  simp only [refreshRead, Tx.result_bind_eq_ok] at h
  obtain ⟨target, -, h⟩ := h
  split at h
  · cases h
  simp only [Tx.result_bind_eq_ok] at h
  obtain ⟨actor, -, _, -, h⟩ := h
  split at h
  · cases h
  split at h
  · cases h
  simp only [Tx.result_bind_eq_ok] at h
  obtain ⟨bypass, -, h⟩ := h
  split at h
  · cases h
  simp only [Tx.result_bind_eq_ok] at h
  obtain ⟨candidates, -, ⟨k, found⟩, hall, h⟩ := h
  cases found with
  | other => cases h
  | fresh => cases h
  | stale row tokens =>
      dsimp only at h
      split at h
      · cases h
      · cases h
        exact inspectAll_stale hall

/-- The write of a refresh before an admission, when the row has the version it was read
with. -/
theorem refreshWriteTx_eq_ok {now : Int} {content : String} {r : Ended Unit}
    (h : refreshWriteTx actor read content now db = .ok (r, db')) :
    r = .commit () ∧
      (∃ row ∈ db.cookies.rows, row.id = read.row.id ∧
        cookieVersion row = cookieVersion read.row) ∧
      db'.cookies.rows = db.cookies.rows.map (fun r =>
        if unchanged actor read db now r then exchange content now r else r) := by
  simp only [refreshWriteTx, Tx.bind_eq_ok, Tx.get_eq_ok] at h
  obtain ⟨_, _, ⟨rfl, rfl⟩, h⟩ := h
  cases hcheck : checkCurrent actor read db with
  | error e =>
      rw [hcheck] at h
      exact (Tx.throw_ne_ok.mp h).elim
  | ok u =>
      rw [hcheck] at h
      dsimp only at h
      cases hu : db.cookies.update (unchanged actor read db now) (exchange content now) with
      | none =>
          rw [hu] at h
          exact (Tx.throw_ne_ok.mp h).elim
      | some p =>
          obtain ⟨cookies, n⟩ := p
          rw [hu] at h
          simp only [Tx.ite_apply_state] at h
          split at h
          · exact (Tx.throw_ne_ok.mp h).elim
          obtain ⟨_, _, hset, h⟩ := Tx.bind_eq_ok.mp h
          cases hset
          cases h
          refine ⟨rfl, ?_, (Table.update_eq_some.mp hu).1⟩
          unfold checkCurrent cookieById at hcheck
          cases hfind : db.cookies.rows.find? fun r => r.id == read.row.id with
          | none =>
              rw [hfind] at hcheck
              cases hcheck
          | some row =>
              rw [hfind, Option.map_some] at hcheck
              split at hcheck
              · cases hcheck
              · cases hcheck
              · rename_i row' content' heq
                simp only [Option.some.injEq, Prod.mk.injEq] at heq
                obtain ⟨rfl, -⟩ := heq
                split at hcheck
                · cases hcheck
                · rename_i hsame
                  simp only [Bool.or_eq_true, not_or, decide_eq_true_eq, not_not] at hsame
                  exact ⟨row, List.mem_of_find?_eq_some hfind,
                    by simpa using List.find?_some hfind, hsame.2⟩

/-- A refresh before an admission fails, finds nothing to refresh, or writes what the
provider answered over the row it read, while that row has the same version. -/
theorem refreshBeforeAdmission_cases (reads : Nat → CookieDb) (clock : Nat → Int)
    (context : NetworkContext)
    (provider : Option (YoutubeOAuth → Except ProfileError YoutubeOAuth))
    (answered now : Int) (db : CookieDb) :
    (∃ e, refreshBeforeAdmission reads clock context provider answered now db =
      (.error e, db)) ∨
    (refreshRead reads clock context = .ok none ∧
      refreshBeforeAdmission reads clock context provider answered now db = (.ok (), db)) ∨
    ∃ read swap content db',
      refreshBeforeAdmission reads clock context provider answered now db = (.ok (), db') ∧
      refreshRead reads clock context = .ok (some read) ∧ provider = some swap ∧
      (swap read.tokens >>= fun tokens => replacement tokens answered) = .ok content ∧
      (∃ row ∈ db.cookies.rows, row.id = read.row.id ∧
        cookieVersion row = cookieVersion read.row) ∧
      db'.cookies.rows = db.cookies.rows.map (fun r =>
        if unchanged context.actorId.toNat read db now r then exchange content now r else r) := by
  unfold refreshBeforeAdmission
  cases hread : refreshRead reads clock context with
  | error e => exact .inl ⟨_, rfl⟩
  | ok found =>
      cases found with
      | none => exact .inr (.inl ⟨rfl, rfl⟩)
      | some read =>
          cases provider with
          | none => exact .inl ⟨_, rfl⟩
          | some swap =>
              dsimp only
              cases hc : swap read.tokens >>= fun tokens => replacement tokens answered with
              | error e => exact .inl ⟨_, rfl⟩
              | ok content =>
                  dsimp only
                  rcases Tx.run_spec (refreshWriteTx context.actorId.toNat read content now) db
                    with ⟨e, -, h⟩ | ⟨r, db', hb, -⟩ | ⟨r, db', hb, h⟩
                  · exact .inl ⟨_, h⟩
                  · obtain ⟨hr, -⟩ := refreshWriteTx_eq_ok hb
                    cases hr
                  · obtain ⟨-, hrow, hrows⟩ := refreshWriteTx_eq_ok hb
                    exact .inr (.inr ⟨read, swap, content, db', h, rfl, rfl, hc, hrow, hrows⟩)

/-! ## Scope -/

omit [OAuthPlatform] in
/-- No row but the one with an identifier has changed. -/
def ChangedOnly (id : Int) (rows rows' : List CookieRow) : Prop :=
  ∃ f : CookieRow → CookieRow, rows' = rows.map f ∧ ∀ r ∈ rows, r.id ≠ id → f r = r

omit [OAuthPlatform] in
/-- An actor has no second row for the domain of the tokens, or it already holds what is
written. -/
def OnlyCredential (rows : List CookieRow) (actor id : Int) (content : String) (t : Int) :
    Prop :=
  ∀ r ∈ rows, r.isFor actor oauthDomain = true → r.id ≠ id → rewriteRow content true t r = r

omit [OAuthPlatform] in
theorem changedOnly_map {rows : List CookieRow} {id : Int} {p : CookieRow → Bool}
    {f : CookieRow → CookieRow} :
    ChangedOnly id rows (rows.map fun r => if p r then f r else r) ↔
      ∀ r ∈ rows, p r = true → r.id ≠ id → f r = r := by
  constructor
  · rintro ⟨g, hg, hid⟩ r hr hp hne
    have := List.map_inj_left.mp hg r hr
    rw [if_pos hp] at this
    rw [this]
    exact hid r hr hne
  · intro h
    refine ⟨_, rfl, fun r hr hne => ?_⟩
    split
    · rename_i hp
      exact h r hr hp hne
    · rfl

theorem bytes_of_decodeCredential (h : decodeCredential r.content = .ok tokens) :
    r.bytes ≤ maxOauthContentBytes := by
  unfold decodeCredential decodeContent at h
  by_contra hlt
  have hlt : maxOauthContentBytes < Text.byteLen r.content.toList := Nat.lt_of_not_le hlt
  rw [if_pos hlt] at h
  cases h

/-- The row a refresh on request finds again holds the credential it read. -/
theorem sameCredential_of_reference {read : CookieRow}
    (hs : Collisionless early.cookies.rows db.cookies.rows)
    (hread : credentialRow early.cookies.rows actor = some read)
    (hrow : namedRow db.cookies.rows actor expected.cookie.id = some row)
    (href : reference actor read = .ok expected) (href' : reference actor row = .ok expected)
    (hlen : read.bytes ≤ maxOauthContentBytes) :
    row ∈ db.cookies.rows ∧ row.isFor actor oauthDomain = true ∧ SameCredential read row := by
  obtain ⟨hmem, hcond⟩ := List.mem_filter.mp (mem_of_oldest hread)
  have hmem' := List.mem_of_find?_eq_some hrow
  have hcond' := List.find?_some hrow
  simp only [CookieRow.isFor, CookieRow.isPersonalOf, Bool.and_eq_true, beq_iff_eq,
    Bool.not_eq_true'] at hcond hcond'
  obtain ⟨⟨⟨huser, hpool⟩, hdomain⟩, -⟩ := hcond
  obtain ⟨⟨⟨-, huser'⟩, hpool'⟩, -⟩ := hcond'
  have hversion : cookieVersion read = cookieVersion row := by
    have h := (reference_eq_ok href).2.2.symm.trans (reference_eq_ok href').2.2
    have e : { read with userId := actor, isPool := false } = read := by
      rw [← huser, ← hpool]
    have e' : { row with userId := actor, isPool := false } = row := by
      rw [← huser', ← hpool']
    rwa [e, e'] at h
  have hsame := sameCredential_of_version hs hmem hmem' hlen hversion
  refine ⟨hmem', ?_, hsame⟩
  have hbare : row.bareDomain = read.bareDomain := by
    rw [CookieRow.bareDomain, ← hsame.domain, CookieRow.bareDomain]
  simp [CookieRow.isFor, CookieRow.isPersonalOf, huser', hpool', hbare, hdomain]

/-- **Scope of a refresh.** A refresh that fails changes nothing. One that succeeds found
the credential it read unchanged. On request, it changed no other row if and only if the
actor had no second row for the domain of the tokens that holds something else; before an
admission, it never does. -/
theorem refresh_scope :
    (∀ (s : Service) (actor : Int) (expected : OAuthReference) (before now : Int)
        (provider : YoutubeOAuth → Except DownloadError YoutubeOAuth) (early db : CookieDb),
      Collisionless early.cookies.rows db.cookies.rows →
      (∃ e, oauthRefresh s actor expected before now provider early db = (.error e, db)) ∨
      ∃ read credential content t ref db',
        oauthRefresh s actor expected before now provider early db = (.ok ref, db') ∧
        credentialRow early.cookies.rows actor = some read ∧
        reference actor read = .ok expected ∧ decodeCredential read.content = .ok credential ∧
        (provider credential >>= encodeCredential) = .ok content ∧
        fromTimestamp now = some t ∧
        (∃ row ∈ db.cookies.rows, SameCredential read row) ∧
        (ChangedOnly read.id db.cookies.rows db'.cookies.rows ↔
          OnlyCredential db.cookies.rows actor read.id content t)) ∧
    ∀ (reads : Nat → CookieDb) (clock : Nat → Int) (context : NetworkContext)
        (provider : Option (YoutubeOAuth → Except ProfileError YoutubeOAuth))
        (answered now : Int) (db : CookieDb),
      (∀ k, Collisionless (reads k).cookies.rows db.cookies.rows) →
      (∃ e, refreshBeforeAdmission reads clock context provider answered now db =
        (.error e, db)) ∨
      (refreshRead reads clock context = .ok none ∧
        refreshBeforeAdmission reads clock context provider answered now db = (.ok (), db)) ∨
      ∃ read db',
        refreshBeforeAdmission reads clock context provider answered now db = (.ok (), db') ∧
        refreshRead reads clock context = .ok (some read) ∧
        (∃ row ∈ db.cookies.rows, SameCredential read.row row) ∧
        ChangedOnly read.row.id db.cookies.rows db'.cookies.rows := by
  constructor
  · intro s actor expected before now provider early db hs
    rcases oauthRefresh_cases s actor expected before now provider early db
      with h | ⟨read, row, credential, content, t, ref, db', h, hread, href, hdec, hcontent,
        ht, hrow, href', -, hu⟩
    · exact .inl h
    obtain ⟨hmem, hfor, hsame⟩ := sameCredential_of_reference hs hread hrow href href'
      (bytes_of_decodeCredential hdec)
    refine .inr ⟨read, credential, content, t, ref, db', h, hread, href, hdec, hcontent, ht,
      ⟨row, hmem, hsame⟩, ?_⟩
    rw [upsertCookie_rows hu, if_neg]
    · exact changedOnly_map
    · exact fun h0 => List.countP_eq_zero.mp h0 row hmem hfor
  · intro reads clock context provider answered now db hs
    rcases refreshBeforeAdmission_cases reads clock context provider answered now db
      with h | h | ⟨read, swap, content, db', h, hread, -, -, ⟨row, hmem, -, hver⟩, hrows⟩
    · exact .inl h
    · exact .inr (.inl h)
    obtain ⟨m, hm, hlen⟩ := refreshRead_eq_some hread
    refine .inr (.inr ⟨read, db', h, hread, ⟨row, hmem,
      sameCredential_of_version (hs m) hm hmem hlen hver.symm⟩, ?_⟩)
    rw [hrows]
    refine changedOnly_map.mpr fun r _ hp hne => absurd ?_ hne
    simp only [unchanged, Bool.and_eq_true, beq_iff_eq] at hp
    exact hp.1.1.1.1.1.1.1

end

/-! ## A second row for the domain -/

namespace TokenScenario

def expired : YoutubeOAuth := ⟨"a1", "r1", "2000-01-01T00:00:00Z"⟩

def renewed : YoutubeOAuth := ⟨"a2new", "r1", "2099-01-01T00:00:00Z"⟩

/-- Tokens as compact JSON, for texts without escapes. -/
def printTokens (t : YoutubeOAuth) : String :=
  "\x7b\"access_token\":\"" ++ t.accessToken ++ "\",\"refresh_token\":\"" ++ t.refreshToken ++
    "\",\"expires_at\":\"" ++ t.expiresAt ++ "\"\x7d"

/-- SHA-256 of the material of the two versions of the row, told apart by length. -/
def digest (bytes : List UInt8) : BitVec 256 :=
  if bytes.length = 168 then 0x32511544504c679cf967b50f48e3c90fa9b063b75ea2d7412249784eac4e61b1
  else if bytes.length = 171 then 0x28d2103d89f67c53bca1b0321c3f82ce0e1c8e075175c4b2814f9a8979f3eafa
  else 0

/-- Reads the two tokens and their instants. -/
@[reducible] def platform : OAuthPlatform :=
  { PoisonScenario.platform with
    sha256 := digest
    parseTokens := fun text => [expired, renewed].find? fun t => printTokens t = text
    printTokens := printTokens
    parseRfc3339 := fun text =>
      if text = "2000-01-01T00:00:00Z" then some 946684800000000
      else if text = "2099-01-01T00:00:00Z" then some 4070908800000000
      else none }

def contentOf (t : YoutubeOAuth) : String :=
  String.ofList (oauthContentPrefix ++ (printTokens t).toList)

def tokenRow : CookieRow :=
  { personalRow 7 "youtube.com" (contentOf expired) true 5 with id := 1 }

def jarRow : CookieRow := { personalRow 7 ".youtube.com" datedJar true 6 with id := 2 }

def oneRow : CookieDb :=
  { PoisonScenario.users with
    cookies := ⟨[tokenRow], by decide +kernel, by decide⟩, sequence := 1 }

def siteRow : CookieRow := { personalRow 7 "example.com" datedJar true 6 with id := 2 }

/-- Tokens, and a jar for another site. -/
def twoSites : CookieDb :=
  { PoisonScenario.users with
    cookies := ⟨[tokenRow, siteRow], by decide +kernel, by decide +kernel⟩, sequence := 2 }

def twoRows : CookieDb :=
  { PoisonScenario.users with
    cookies := ⟨[tokenRow, jarRow], by decide +kernel, by decide +kernel⟩, sequence := 2 }

attribute [local instance] platform

def stored : OAuthReference :=
  ⟨⟨1, 7, "youtube.com", false, cookieVersion tokenRow, by decide, Storage.Scenario.actor_pos,
    Storage.Scenario.actor_le, by decide⟩, credentialKind⟩

def refreshed (db : CookieDb) : Except DownloadError OAuthReference × CookieDb :=
  oauthRefresh PoisonScenario.service 7 stored 9 10 (fun _ => .ok renewed) db db

end TokenScenario

section

attribute [local instance] TokenScenario.platform

open TokenScenario

/-- The jar of another site stays as it is. -/
theorem refresh_scope_sites : ∃ ref db', refreshed twoSites = (.ok ref, db') ∧
    ChangedOnly 1 twoSites.cookies.rows db'.cookies.rows := by
  have hs : Collisionless twoSites.cookies.rows twoSites.cookies.rows := by
    unfold Collisionless
    decide +kernel
  rcases refresh_scope.1 PoisonScenario.service 7 stored 9 10 (fun _ => .ok renewed) twoSites
    twoSites hs with
    ⟨e, h⟩ | ⟨read, credential, content, t, ref, db', h, hread, -, -, -, -, -, hiff⟩
  · have hok : (refreshed twoSites).1.toBool = true := by decide +kernel
    rw [refreshed, h] at hok
    cases hok
  · have hrow : credentialRow twoSites.cookies.rows 7 = some tokenRow := by decide +kernel
    have hread' : some tokenRow = some read := by rw [← hrow, hread]
    have hid : tokenRow.id = read.id := congrArg CookieRow.id (Option.some.inj hread')
    have hsite : ∀ r ∈ twoSites.cookies.rows, r.isFor 7 oauthDomain = true →
        r.id = tokenRow.id := by decide +kernel
    have hone : ChangedOnly read.id twoSites.cookies.rows db'.cookies.rows :=
      hiff.mpr fun r hr hfor hne => absurd ((hsite r hr hfor).trans hid) hne
    rw [← hid] at hone
    exact ⟨ref, db', h, hone⟩

/-- A jar stored for the same site under another spelling is overwritten with tokens. -/
theorem second_row_overwritten : ∃ ref db', refreshed twoRows = (.ok ref, db') ∧
    db'.cookies.rows.map CookieRow.content = [contentOf renewed, contentOf renewed] ∧
    ¬ ChangedOnly 1 twoRows.cookies.rows db'.cookies.rows := by
  have hrun : (refreshed twoRows).1.toBool = true ∧ (refreshed twoRows).2.cookies.rows =
      twoRows.cookies.rows.map (rewriteRow (contentOf renewed) true 10000000) := by
    decide +kernel
  generalize refreshed twoRows = result at hrun ⊢
  obtain ⟨r, db'⟩ := result
  obtain ⟨hok, hrows⟩ := hrun
  cases r with
  | error e => cases hok
  | ok ref =>
      refine ⟨ref, db', rfl, by rw [hrows]; rfl, ?_⟩
      rw [hrows]
      rintro ⟨f, hf, hid⟩
      have hjar := List.map_inj_left.mp hf jarRow (by decide +kernel)
      rw [hid jarRow (by decide +kernel) (by decide)] at hjar
      exact absurd hjar (by decide +kernel)

end

end YoinkCore.Downloads
