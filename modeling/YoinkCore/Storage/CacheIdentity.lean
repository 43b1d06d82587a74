import YoinkCore.Storage.Fencing
import YoinkCore.Storage.RoundTrip

/-!
# Cache identity

The cache key of an operation is computed when it is admitted, on the request as the
caller gave it, and kept with the row. Publication and lookup compute the key again
on the stored request. The two agree unless admission added a settings snapshot to
the stored request, which enters the hash, or storing the request lost a part of it.
-/

namespace YoinkCore.Storage

open Lib Lib.Json Domain Codec

/-! ## The text of a key -/

theorem cacheKeyText_injective {d d' : BitVec 256} (h : cacheKeyText d = cacheKeyText d') :
    d = d' := by
  have hlist := List.append_cancel_left (String.ofList_injective h)
  exact BitVec.eq_of_toNat_eq (hexDigits_injective 64 d.isLt d'.isLt hlist)

theorem encodeParams_clips [Platform] (p : DownloadParams) : ∃ params,
    encodeParams p = .obj params ∧
      get? params "clips" = some (.arr (p.clips.map encodeClip)) :=
  ⟨_, rfl, by simp⟩

section

variable [Platform]

/-! ## The hashed document -/

/-- The members of a request that enter the hash. -/
def hashedFields (r : DownloadRequest) : List (String × Json) :=
  remove (remove (members (requestFields r)) "preference_overrides") "force_nsfw"

theorem get?_hashedFields (r : DownloadRequest) {key : String}
    (hp : key ≠ "preference_overrides") (hf : key ≠ "force_nsfw") :
    get? (hashedFields r) key = get? (members (requestFields r)) key := by
  rw [hashedFields, get?_remove _ hf, get?_remove _ hp]

theorem cacheMaterial_eq (r : DownloadRequest) (t : DeliveryTarget) : ∃ params,
    get? params "clips" = some (.arr (r.params.clips.map encodeClip)) ∧
      cacheMaterial r t = .obj (Json.insert
        (Json.insert (hashedFields r) "params" (.obj params)) "target"
        (object [field "bot_id" (ofI64 t.botId)])) := by
  obtain ⟨params, hparams, hclips⟩ := encodeParams_clips r.params
  have hp : get? (hashedFields r) "params" = some (.obj params) := by
    rw [get?_hashedFields r (by decide) (by decide), ← hparams]
    simp [requestFields]
  refine ⟨remove params "media_info", ?_, ?_⟩
  · rw [get?_remove _ (by decide), hclips]
  · show (Json.obj _) = _
    rw [show remove (remove (members (requestFields r)) "preference_overrides")
      "force_nsfw" = hashedFields r from rfl, hp]

/-- A mark does not enter the hash. -/
theorem hashedFields_withForceNsfw (r : DownloadRequest) (forced : Bool) :
    hashedFields (r.withForceNsfw forced) = hashedFields r := by
  have h : remove (members (requestFields (r.withForceNsfw forced))) "force_nsfw" =
      remove (members (requestFields r)) "force_nsfw" := by
    simp [requestFields, DownloadRequest.withForceNsfw]
  rw [hashedFields, remove_comm, h, remove_comm]
  rfl

theorem cacheMaterial_withForceNsfw (r : DownloadRequest) (forced : Bool)
    (t : DeliveryTarget) : cacheMaterial (r.withForceNsfw forced) t = cacheMaterial r t := by
  have h := hashedFields_withForceNsfw r forced
  unfold hashedFields at h
  unfold cacheMaterial
  rw [h]

variable {o row : OperationRow} {r request : DownloadRequest} {policy : AdmissionPolicy}
  {t : DeliveryTarget} {cacheKey : Option String} {config : StoreConfig}
  {nowOverride : Option Int} {es : List Event} {id : Uuid} {s : System} {clock : Clock}
  {c : Claim} {db db' : Db}

/-- Equal materials have the settings and the clips in common. -/
theorem parts_of_cacheMaterial {q : DownloadRequest} {t' : DeliveryTarget}
    (h : cacheMaterial r t = cacheMaterial q t') :
    r.downloaderSettings.map encodeSettings = q.downloaderSettings.map encodeSettings ∧
      r.clipRange.map encodeClip = q.clipRange.map encodeClip ∧
      r.params.clips.map encodeClip = q.params.clips.map encodeClip := by
  obtain ⟨params, hclips, hr⟩ := cacheMaterial_eq r t
  obtain ⟨params', hclips', hq⟩ := cacheMaterial_eq q t'
  have heq := Json.obj.inj (hr.symm.trans (h.trans hq))
  have hmember : ∀ key, key ≠ "target" → key ≠ "params" → key ≠ "preference_overrides" →
      key ≠ "force_nsfw" → get? (members (requestFields r)) key =
        get? (members (requestFields q)) key := by
    intro key ht hk hp hf
    have := congrArg (get? · key) heq
    simpa only [get?_insert _ _ ht, get?_insert _ _ hk, get?_hashedFields _ hp hf] using this
  have hset := hmember "downloader_settings" (by decide) (by decide) (by decide) (by decide)
  have hclip := hmember "clip_range" (by decide) (by decide) (by decide) (by decide)
  have hparams := congrArg (get? · "params") heq
  simp only [get?_insert _ _ (show "params" ≠ "target" by decide), get?_insert_self,
    Option.some.injEq, Json.obj.injEq] at hparams
  refine ⟨?_, ?_, ?_⟩
  · simpa [requestFields] using hset
  · have : nullable (r.clipRange.map encodeClip) = nullable (q.clipRange.map encodeClip) := by
      simpa [requestFields] using hclip
    exact nullable_map_injective (by simp [encodeClip, object]) this
  · rw [hparams, hclips'] at hclips
    exact (Json.arr.inj (Option.some.inj hclips)).symm

/-! ## The key of an admitted row -/

/-- The stored settings make an admission keep a snapshot of them. -/
def snapshotStored (db : Db) : Bool :=
  match downloaderSettingValues db with
  | .ok values => snapshotActive values
  | .error _ => false

/-- The key kept with a row is the key of the request stored in it. -/
def KeyAgrees (o : OperationRow) : Prop :=
  ∃ stored key, Codec.decode o.request = .ok stored ∧ mediaCacheKey stored = .ok key ∧
    o.cacheKey = some key

/-- The hash does not confuse the material of a request with that of what is stored. -/
def HashTells (request : DownloadRequest) (target : DeliveryTarget) (o : OperationRow) :
    Prop :=
  ∀ stored, Codec.decode o.request = .ok stored →
    materialDigest (cacheMaterial request target) =
      materialDigest (cacheMaterial stored target) →
    cacheMaterial request target = cacheMaterial stored target

theorem mediaCacheKey_of_target (h : r.target = some t) :
    mediaCacheKey r = .ok (cacheKeyText (materialDigest (cacheMaterial r t))) := by
  simp only [mediaCacheKey, h]

/-- The stored request is the given one with its mark, and the settings if any of the
limits kept in a snapshot is stored. -/
theorem Created.stored {key : String}
    (h : Created config request key policy cacheKey nowOverride clock id db row db') :
    ∃ prepared, row.request = Codec.encode prepared ∧ row.cacheKey = cacheKey ∧
      (prepared.downloaderSettings.isSome = snapshotStored db) ∧
      ∃ forced settings ok, prepared = { request with
        downloaderSettings := settings, forceNsfw := forced, settings_ok := ok } := by
  obtain ⟨prepared, policy', quotas, hset, rfl⟩ := h.settings
  obtain ⟨values, settings, hv, -, hp, -⟩ := admissionSettings_of_ok hset
  obtain ⟨ok, rfl⟩ := DownloadRequest.withDownloaderSettings_eq_ok hp
  refine ⟨_, rfl, rfl, ?_, _, _, ok, rfl⟩
  show (if snapshotActive values then some settings else none).isSome = _
  simp only [snapshotStored, hv]
  cases snapshotActive values <;> rfl

/-- **When the keys agree.** -/
theorem Created.keyAgrees_iff (hu : StableUrls) {key : String} {target : DeliveryTarget}
    (hc : Checked request key policy cacheKey)
    (h : Created config (request.withForceNsfw false) key policy cacheKey nowOverride
      clock id db row db') (ht : request.target = some target)
    (hd : HashTells request target row) :
    KeyAgrees row ↔ snapshotStored db = false ∧ Storable request := by
  obtain ⟨prepared, hreq, hkey, hsnap, forced, settings, ok, hp⟩ := h.stored
  have hrow : row.cacheKey =
      some (cacheKeyText (materialDigest (cacheMaterial request target))) := by
    have hck := hc.cacheKey
    rw [admissionCacheKey, show (request.withForceNsfw false).target = some target from ht,
      mediaCacheKey_of_target (r := request.withForceNsfw false) ht,
      cacheMaterial_withForceNsfw] at hck
    rw [hkey]
    exact (Except.ok.inj hck).symm
  constructor
  · rintro ⟨stored, k, hdec, hk, hrk⟩
    obtain ⟨-, -, -, htarget, hset, -⟩ := parts_of_decode (hreq ▸ hdec)
    have htarget : stored.target = some target := by rw [htarget, hp]; exact ht
    have hk := Except.ok.inj ((mediaCacheKey_of_target htarget).symm.trans hk)
    rw [← hk] at hrk
    have hmat := hd stored hdec
      (cacheKeyText_injective (Option.some.inj (hrow.symm.trans hrk)))
    obtain ⟨hs, hclip, hclips⟩ := parts_of_cacheMaterial hmat
    constructor
    · rw [← hsnap, ← hset]
      rw [hc.snapshot] at hs
      cases hss : stored.downloaderSettings with
      | none => rfl
      | some s => rw [hss] at hs; cases hs
    · have hst := storable_of_decode (r := prepared) (q := stored) (hreq ▸ hdec)
        (by rw [hp]; exact hclip.symm) (by rw [hp]; exact hclips.symm)
      subst hp
      exact ⟨hst.clip, hst.clips, hst.overrides⟩
  · rintro ⟨hfree, hst⟩
    have hnone : settings = none := by
      rw [hp, hfree] at hsnap
      exact Option.isNone_iff_eq_none.mp (by simpa using hsnap)
    have hprep : prepared = request.withForceNsfw forced := by
      subst hnone
      have hs := hc.snapshot
      rw [hp]
      cases request
      cases hs
      rfl
    refine ⟨prepared, _, ?_, mediaCacheKey_of_target (t := target) ?_, ?_⟩
    · rw [hreq]
      refine decode_encode hu ?_
      rw [hprep]
      exact ⟨hst.clip, hst.clips, hst.overrides⟩
    · rw [hprep]
      exact ht
    · rw [hprep, cacheMaterial_withForceNsfw, hrow]

/-! ## Over runs -/

/-- The columns that an admission fixes for good. -/
structure SameIdentity (o o' : OperationRow) : Prop where
  actorId : o'.actorId = o.actorId
  idempotencyKey : o'.idempotencyKey = o.idempotencyKey
  request : o'.request = o.request
  cacheKey : o'.cacheKey = o.cacheKey

omit [Platform] in
theorem SameIdentity.trans {o' o'' : OperationRow} (h : SameIdentity o o')
    (h' : SameIdentity o' o'') : SameIdentity o o'' where
  actorId := h'.actorId.trans h.actorId
  idempotencyKey := h'.idempotencyKey.trans h.idempotencyKey
  request := h'.request.trans h.request
  cacheKey := h'.cacheKey.trans h.cacheKey

omit [Platform] in
theorem JobStep.identity {now : Int} {k : Kind} {j j' : Job} (h : JobStep now k j j') :
    SameIdentity j.op j'.op := by
  cases h with
  | single hs _ _ =>
      cases hs with
      | worker hs => cases hs <;> exact ⟨rfl, rfl, rfl, rfl⟩
      | cancel => exact ⟨rfl, rfl, rfl, rfl⟩
      | claim => exact ⟨rfl, rfl, rfl, rfl⟩
      | claimForBot => exact ⟨rfl, rfl, rfl, rfl⟩
  | expire _ _ _ u hu _ => subst hu; exact ⟨rfl, rfl, rfl, rfl⟩
  | beginUnit => exact ⟨rfl, rfl, rfl, rfl⟩
  | outcome hout _ _ _ _ units _ _ => cases hout <;> constructor <;> grind
  | stop _ _ _ _ u hu _ | requeue _ _ _ _ _ _ _ _ u hu _ => subst hu; exact ⟨rfl, rfl, rfl, rfl⟩

/-- A row keeps its request and its key. -/
theorem identity_of_run {t : System} (h : Run Step s es t) (ho : s.db.operation id = some o) :
    ∃ o', t.db.operation id = some o' ∧ SameIdentity o o' := by
  obtain ⟨j', hj', hs⟩ := run_kept (R := fun j j' => SameIdentity j.op j'.op)
    (fun _ => ⟨rfl, rfl, rfl, rfl⟩)
    (fun hR hs => hR.trans hs.identity) h
    (Db.job_eq_some.mpr ⟨ho, rfl⟩ : s.db.job id = some ⟨o, s.db.unitsOf id⟩)
  exact ⟨j'.op, (Db.job_eq_some.mp hj').1, hs⟩

/-- The claims on an operation carry the request stored with it. -/
theorem request_of_claim {t : System} (h : Run Step s es t) {e : Event} (he : e ∈ es)
    (hc : e.claim? = some c) (ho : t.db.operation c.operationId = some o) :
    Codec.decode o.request = .ok c.request := by
  obtain ⟨es₁, es₂, rfl⟩ := List.append_of_mem he
  obtain ⟨u, v, -, huv, hv⟩ := h.split_at
  obtain ⟨j, hj, hl, -⟩ := huv.leased hc
  obtain ⟨o', ho', hid⟩ := identity_of_run hv (Db.job_eq_some.mp hj).1
  obtain rfl : o' = o := Option.some.inj (ho'.symm.trans ho)
  rw [hid.request, hl.request]

/-- The guard on the key does not stop a publication. -/
def PassesKeyGuard (c : Claim) (db : Db) : Prop :=
  ∀ target key, c.request.target = some target → mediaCacheKey c.request = .ok key →
    ∀ count request batch o, db.operation c.operationId = some o →
      Sql.publishEligible c.operationId c.attempt c.request.actorId.toNat
          target.botId.toInt key count request batch o =
        Sql.publishDelivered c.operationId c.attempt c.request.actorId.toNat
          target.botId.toInt count request batch o

theorem KeyAgrees.passesKeyGuard (h : KeyAgrees o) (ho : db.operation c.operationId = some o)
    (hc : Codec.decode o.request = .ok c.request) : PassesKeyGuard c db := by
  intro target key ht hkey count request batch o' ho'
  obtain rfl : o = o' := Option.some.inj (ho.symm.trans ho')
  obtain ⟨stored, key', hdec, hkey', hk⟩ := h
  obtain rfl : stored = c.request := Except.ok.inj (hdec.symm.trans hc)
  obtain rfl : key' = key := Except.ok.inj (hkey'.symm.trans hkey)
  simp [Sql.publishEligible, hk]

/-- **Cache-identity agreement.** At any time after its admission the key kept with an
operation is that of the request stored with it if and only if no limit of the snapshot
was stored and the request survives storage. Then publication by any claim on the
operation passes its guard on the key. -/
theorem cache_key_agreement (hu : StableUrls) {s t u : System} {config : StoreConfig}
    {request : DownloadRequest} {key : String} {policy : AdmissionPolicy} {preserve : Bool}
    {nowOverride : Option Int} {telegram : Option TelegramMediaAdmission} {clock : Clock}
    {id : Uuid} {es : List Event} {target : DeliveryTarget}
    (hs : Step s (.call (.admitRequest config request key policy preserve nowOverride telegram)
      clock id (.ok (.admission ⟨id, true⟩))) t)
    (ht : request.target = some target) (hr : Run Step t es u) :
    ∃ o, u.db.operation id = some o ∧
      (HashTells request target o →
        (KeyAgrees o ↔ snapshotStored s.db = false ∧ Storable request)) ∧
      (KeyAgrees o → ∀ e ∈ es, ∀ c, e.claim? = some c → c.operationId = id →
        PassesKeyGuard c u.db) := by
  cases hs with
  | call later result elapsed =>
      obtain ⟨a, ha, hae⟩ := Method.reply_eq_ok result
      cases hae
      rcases admitInner_cases config request key policy preserve nowOverride telegram
        clock id s.db with ⟨e, h⟩ | ⟨row, -, h⟩ | ⟨row, cacheKey, db', hnone, h, hc, hrow⟩
      · rw [h] at ha
        cases ha
      · rw [h] at ha
        cases ha
      rw [h] at ha
      cases ha
      have hid : row.id = id := by
        obtain ⟨_, _, _, _, hrow⟩ := hrow.settings
        rw [hrow]
        rfl
      have hfresh : t.db.operation id = some row :=
        Db.operation_eq_some.mpr ⟨by simp [hrow.operations], hid⟩
      obtain ⟨o, ho, hsame⟩ := identity_of_run hr hfresh
      have hagrees : KeyAgrees o ↔ KeyAgrees row := by
        rw [KeyAgrees, KeyAgrees, hsame.request, hsame.cacheKey]
      refine ⟨o, ho, fun hd => ?_, fun hk e he c hc hcid => ?_⟩
      · rw [hagrees]
        refine hrow.keyAgrees_iff hu hc ht ?_
        rw [HashTells, hsame.request] at hd
        exact hd
      · subst hcid
        exact hk.passesKeyGuard ho (request_of_claim hr he hc ho)

end

section

attribute [local instance] Scenario.platform

namespace Scenario

/-- A database in which a `dl.max_playlist_count` of 40 is stored. -/
def limited : System :=
  ⟨{ Db.empty with botSettings :=
      ⟨[⟨"dl.max_playlist_count", some "40"⟩], by decide, by decide⟩ }, 0⟩

end Scenario

/-- A stored playlist limit enters the hash of what is stored, but not the key that
was kept. -/
theorem cache_key_disagrees : ¬ ∀ {s t : System} {config : StoreConfig}
    {request : DownloadRequest} {key : String} {policy : AdmissionPolicy} {preserve : Bool}
    {nowOverride : Option Int} {telegram : Option TelegramMediaAdmission} {clock : Clock}
    {id : Uuid} {target : DeliveryTarget} {o : OperationRow},
    Step s (.call (.admitRequest config request key policy preserve nowOverride telegram)
      clock id (.ok (.admission ⟨id, true⟩))) t →
    request.target = some target → t.db.operation id = some o → KeyAgrees o := by
  intro h
  have hnow : Scenario.limited.now ≤ (Scenario.admitRequest Scenario.delivery).now := by decide
  have hstep := play_admitted hnow (by decide +kernel)
  obtain ⟨o, ho, hc⟩ := (Option.any_eq_true _ _).mp (by decide +kernel :
    ((play Scenario.limited [Scenario.admitRequest Scenario.delivery]).2.db.operation
      Scenario.operation).any (fun o => (Codec.decode o.request).toOption.all
        fun r => (mediaCacheKey r).toOption != o.cacheKey) = true)
  obtain ⟨stored, k, hdec, hk, hkept⟩ := h hstep rfl ho
  rw [hdec, Except.toOption, Option.all_some, hk, hkept, Except.toOption] at hc
  exact absurd rfl (bne_iff_ne.mp hc)

/-- Without stored settings the keys agree. -/
theorem cache_key_agreement_delivery : ∃ o,
    (play .initial [Scenario.admitRequest Scenario.delivery]).2.db.operation Scenario.operation =
      some o ∧ KeyAgrees o := by
  have hnow : System.initial.now ≤ (Scenario.admitRequest Scenario.delivery).now := by decide
  obtain ⟨o, ho, hagree, -⟩ := cache_key_agreement Scenario.stableUrls
    (play_admitted hnow (by decide +kernel)) rfl .nil
  have hsame : ((play .initial [Scenario.admitRequest Scenario.delivery]).2.db.operation
      Scenario.operation).all (fun o => (Codec.decode o.request).toOption.all fun r =>
        decide (cacheMaterial Scenario.delivery Scenario.target =
          cacheMaterial r Scenario.target)) = true := by decide +kernel
  refine ⟨o, ho, (hagree fun stored hdec _ => ?_).mpr ⟨by decide +kernel, ?_⟩⟩
  · rw [show (play .initial [Scenario.admitRequest Scenario.delivery]).2.db.operation
      Scenario.operation = some o from ho, Option.all_some, hdec] at hsame
    exact of_decide_eq_true hsame
  · constructor
    · intro c hc
      cases hc
    · intro c hc
      cases hc
    · intro o ho
      cases ho

end

end YoinkCore.Storage
