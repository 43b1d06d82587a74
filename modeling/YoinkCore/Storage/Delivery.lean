import YoinkCore.Storage.Evolution

/-!
# The delivery journal

The units of one attempt form a journal: they are numbered in the order they were
begun, and a unit is begun only when all before it are sent, so at most the last
one is not. `Journal` says this together with the running total; `Sound` ties the
journal to the operation row. From it follows that an operation in the queue has
no unit whose message exists, may exist, or is on its way.
-/

namespace YoinkCore.Storage

open Lib Domain

/-! ## Journals -/

/-- The units of an attempt that is to deliver `planned` artifacts. -/
structure Journal (planned delivered : Nat) (batch : List DeliveryUnitRow) : Prop where
  ordinals : batch.map DeliveryUnitRow.ordinal = List.range batch.length
  sent : ∀ u ∈ batch.dropLast, u.status = .sent
  total : delivered = sentSum batch
  within : delivered ≤ planned
  fits : ∀ u ∈ batch, u.status = .sending → delivered + u.artifactCount ≤ planned
  messages : ∀ u ∈ batch, u.status = .sent → ∃ ids, u.messageIds = some ids ∧
    ids.length = u.artifactCount ∧ ids.Nodup ∧ ∀ id ∈ ids, 0 < id

@[simp] theorem sentSum_nil : sentSum [] = 0 := rfl

theorem sentSum_append (xs ys : List DeliveryUnitRow) :
    sentSum (xs ++ ys) = sentSum xs + sentSum ys := by
  simp [sentSum]

theorem sentSum_singleton (u : DeliveryUnitRow) :
    sentSum [u] = if u.status = .sent then u.artifactCount else 0 := by
  by_cases h : u.status = .sent <;> simp [sentSum, h]

/-- Without sent artifacts no unit is sent. -/
theorem not_sent_of_sentSum {batch : List DeliveryUnitRow} (h : sentSum batch = 0)
    (hpos : ∀ u ∈ batch, 0 < u.artifactCount) : ∀ u ∈ batch, u.status ≠ .sent := by
  intro u hu hs
  have hmem : u.artifactCount ∈
      (batch.filter fun u => u.status == .sent).map DeliveryUnitRow.artifactCount :=
    List.mem_map_of_mem (List.mem_filter.mpr ⟨hu, by simp [hs]⟩)
  have := List.sum_eq_zero_iff_forall_eq_nat.mp h _ hmem
  have := hpos u hu
  omega

namespace Journal

variable {p d : Nat} {batch : List DeliveryUnitRow}

theorem nil (p : Nat) : Journal p 0 [] :=
  ⟨rfl, by simp, rfl, Nat.zero_le p, by simp, by simp⟩

variable {x : DeliveryUnitRow}

/-- A unit that is not sent is the last one. -/
theorem split (h : Journal p d batch) (hx : x ∈ batch) (hs : x.status ≠ .sent) :
    ∃ init, batch = init ++ [x] ∧ ∀ u ∈ init, u.status = .sent := by
  have hne : batch ≠ [] := List.ne_nil_of_mem hx
  refine ⟨batch.dropLast, ?_, h.sent⟩
  rw [← List.dropLast_append_getLast hne] at hx
  rcases List.mem_append.mp hx with hx | hx
  · exact absurd (h.sent x hx) hs
  · rw [List.mem_singleton.mp hx, List.dropLast_append_getLast hne]

/-- Changing units that are not sent into others that are not keeps a journal. -/
theorem map (h : Journal p d batch) {f : DeliveryUnitRow → DeliveryUnitRow}
    (hord : ∀ u, (f u).ordinal = u.ordinal)
    (hcount : ∀ u, (f u).artifactCount = u.artifactCount)
    (hsent : ∀ u, u.status = .sent → f u = u)
    (hother : ∀ u, u.status ≠ .sent → (f u).status ≠ .sent)
    (hsending : ∀ u, (f u).status = .sending → u.status = .sending) :
    Journal p d (batch.map f) := by
  have hiff : ∀ u, (f u).status = .sent ↔ u.status = .sent := fun u =>
    ⟨fun h => by_contra fun hn => hother u hn h, fun h => by rw [hsent u h, h]⟩
  constructor
  · rw [List.map_map, List.length_map, ← h.ordinals]
    exact List.map_congr_left fun u _ => hord u
  · intro u hu
    rw [← List.map_dropLast] at hu
    obtain ⟨v, hv, rfl⟩ := List.mem_map.mp hu
    exact (hiff v).mpr (h.sent v hv)
  · rw [h.total, sentSum, sentSum, List.filter_map, List.map_map]
    congr 1
    have hf : ((fun u : DeliveryUnitRow => u.status == .sent) ∘ f) =
        fun u => u.status == .sent := by
      funext u
      rw [Function.comp_apply, Bool.eq_iff_iff, beq_iff_eq, beq_iff_eq]
      exact hiff u
    rw [hf]
    exact List.map_congr_left fun u _ => (hcount u).symm
  · exact h.within
  · intro u hu hs
    obtain ⟨v, hv, rfl⟩ := List.mem_map.mp hu
    rw [hcount]
    exact h.fits v hv (hsending v hs)
  · intro u hu hs
    obtain ⟨v, hv, rfl⟩ := List.mem_map.mp hu
    have hv' := (hiff v).mp hs
    rw [hsent v hv']
    exact h.messages v hv hv'

/-- A new unit goes to the end, once all before it are sent. -/
theorem begin (h : Journal p d batch) (hall : ∀ u ∈ batch, u.status = .sent)
    (hord : x.ordinal = batch.length) (hs : x.status = .sending) (hfit : d + x.artifactCount ≤ p) :
    Journal p d (batch ++ [x]) := by
  constructor
  · rw [List.map_append, h.ordinals, List.length_append, List.length_singleton,
      List.range_succ, List.map_singleton, hord]
  · rw [List.dropLast_concat]
    exact hall
  · rw [sentSum_append, sentSum_singleton, if_neg (by simp [hs]), ← h.total]
    rfl
  · exact h.within
  · intro u hu hsu
    rcases List.mem_append.mp hu with hu | hu
    · exact h.fits u hu hsu
    · rw [List.mem_singleton.mp hu]
      exact hfit
  · intro u hu hsu
    rcases List.mem_append.mp hu with hu | hu
    · exact h.messages u hu hsu
    · rw [List.mem_singleton.mp hu, hs] at hsu
      cases hsu

/-- The unit on its way arrives. -/
theorem arrive {init : List DeliveryUnitRow} {y : DeliveryUnitRow} (h : Journal p d (init ++ [x]))
    (hinit : ∀ u ∈ init, u.status = .sent) (hx : x.status = .sending)
    (hord : y.ordinal = x.ordinal) (hcount : y.artifactCount = x.artifactCount)
    (hy : y.status = .sent) {ids : List Int} (hids : y.messageIds = some ids)
    (hlen : ids.length = y.artifactCount) (hnd : ids.Nodup) (hpos : ∀ id ∈ ids, 0 < id) :
    Journal p (d + y.artifactCount) (init ++ [y]) := by
  constructor
  · have := h.ordinals
    rw [List.map_append, List.length_append] at this ⊢
    simpa [hord] using this
  · rw [List.dropLast_concat]
    exact hinit
  · have := h.total
    rw [sentSum_append, sentSum_singleton, if_neg (by simp [hx])] at this
    rw [sentSum_append, sentSum_singleton, if_pos hy, this, Nat.add_zero]
  · rw [hcount]
    exact h.fits x (by simp) hx
  · intro u hu hs
    rcases List.mem_append.mp hu with hu | hu
    · rw [hinit u hu] at hs
      cases hs
    · rw [List.mem_singleton.mp hu, hy] at hs
      cases hs
  · intro u hu hs
    rcases List.mem_append.mp hu with hu | hu
    · exact h.messages u (List.mem_append_left _ hu) hs
    · rw [List.mem_singleton.mp hu]
      exact ⟨ids, hids, hlen, hnd, hpos⟩

/-- The next ordinal is the number of units. -/
theorem nextOrdinal (h : Journal p d batch) : Sql.nextOrdinal batch = batch.length := by
  have hrange : ∀ n, (List.range n).foldl (fun m k => max m (k + 1)) 0 = n := by
    intro n
    induction n with
    | zero => rfl
    | succ n ih => simp [List.range_succ, ih]
  calc Sql.nextOrdinal batch
      = (batch.map DeliveryUnitRow.ordinal).foldl (fun m k => max m (k + 1)) 0 := by
        rw [Sql.nextOrdinal, List.foldl_map]
    _ = batch.length := by rw [h.ordinals, hrange]

end Journal

/-! ## Jobs -/

/-- What ties the units of an operation to its row. -/
structure Sound (j : Job) : Prop where
  owned : ∀ u ∈ j.units, u.operationId = j.op.id
  positive : ∀ u ∈ j.units, 0 < u.artifactCount
  attempts : ∀ u ∈ j.units, u.attempt ≤ j.op.attempt
  past : ∀ u ∈ j.units, u.attempt < j.op.attempt → u.status = .rejected
  queued : j.op.status = .queued → ∀ u ∈ j.units, u.status = .rejected
  running : j.op.status = .running → (∀ u ∈ j.units, u.attempt < j.op.attempt) ∧
    j.op.plannedArtifactCount = none ∧ j.op.deliveredArtifactCount = 0
  journal : ∀ p, j.op.plannedArtifactCount = some p →
    Journal p j.op.deliveredArtifactCount j.current
  bare : j.op.status = .delivering → j.op.plannedArtifactCount = none → j.current = []

variable {v : UnitUpdate} {u : DeliveryUnitRow} {j : Job}

theorem Job.mem_current : u ∈ j.current ↔ u ∈ j.units ∧ u.attempt = j.op.attempt := by
  simp [current, batch]

/-- A statement that settles units of an attempt that are on their way. -/
structure UnitUpdate.Settles (v : UnitUpdate) (attempt : Nat) : Prop where
  target : ∀ u, v.cond u = true → u.attempt = attempt ∧ u.status = .sending
  key : ∀ u, (v.set u).key = u.key
  count : ∀ u, (v.set u).artifactCount = u.artifactCount
  settled : ∀ u, (v.set u).status = .rejected ∨ (v.set u).status = .unknown

theorem UnitUpdate.apply_batch (hkey : ∀ u, (v.set u).key = u.key) (o : OperationRow)
    (units : List DeliveryUnitRow) (attempt : Nat) :
    Job.batch ⟨o, v.apply units⟩ attempt = v.apply (Job.batch ⟨o, units⟩ attempt) := by
  rw [Job.batch, UnitUpdate.apply, UnitUpdate.apply, List.filter_map, Job.batch]
  congr 2
  funext u
  have hk := hkey u
  simp only [DeliveryUnitRow.key, Prod.mk.injEq] at hk
  by_cases hc : v.cond u <;> simp [hc, hk]

theorem UnitUpdate.mem_apply {units : List DeliveryUnitRow} {x : DeliveryUnitRow} :
    x ∈ v.apply units ↔ ∃ u ∈ units, x = if v.cond u then v.set u else u := by
  simp only [UnitUpdate.apply, List.mem_map, eq_comm]

namespace Sound

variable {o o' : OperationRow} {units : List DeliveryUnitRow}

/-- Before an operation is delivered all its units are rejected. -/
theorem rejected (h : Sound ⟨o, units⟩) (hs : o.status = .queued ∨ o.status = .running) :
    ∀ u ∈ units, u.status = .rejected := by
  rcases hs with hs | hs
  · exact h.queued hs
  · exact fun u hu => h.past u hu ((h.running hs).1 u hu)

/-- With nothing delivered and nothing on its way or lost, all units are rejected. -/
theorem all_rejected (h : Sound ⟨o, units⟩) (hs : o.status = .delivering)
    (hd : o.plannedArtifactCount = none ∨ o.deliveredArtifactCount = 0)
    (hn : ∀ u ∈ units, u.attempt = o.attempt → u.status ≠ .sending ∧ u.status ≠ .unknown) :
    ∀ u ∈ units, u.status = .rejected := by
  intro u hu
  rcases (h.attempts u hu).lt_or_eq with hlt | heq
  · exact h.past u hu hlt
  have hcur : u ∈ Job.current ⟨o, units⟩ := Job.mem_current.mpr ⟨hu, heq⟩
  have hsent : u.status ≠ .sent := by
    cases hp : o.plannedArtifactCount with
    | none =>
        rw [h.bare hs hp] at hcur
        cases hcur
    | some p =>
        have hz : o.deliveredArtifactCount = 0 := by
          rcases hd with hd | hd
          · rw [hp] at hd
            cases hd
          · exact hd
        refine not_sent_of_sentSum ((h.journal p hp).total.symm.trans hz) (fun w hw => ?_)
          u hcur
        exact h.positive w (Job.mem_current.mp hw).1
  obtain ⟨hsending, hunknown⟩ := hn u hu heq
  cases hst : u.status with
  | sending => exact absurd hst hsending
  | sent => exact absurd hst hsent
  | rejected => rfl
  | unknown => exact absurd hst hunknown

/-- A change of the row that keeps the attempt and the counters, or forgets them. -/
theorem move (h : Sound ⟨o, units⟩) (hid : o'.id = o.id) (ha : o'.attempt = o.attempt)
    (hp : o'.plannedArtifactCount = o.plannedArtifactCount ∧
        o'.deliveredArtifactCount = o.deliveredArtifactCount ∨
      o'.plannedArtifactCount = none ∧ o'.status = .queued)
    (hq : o'.status = .queued → ∀ u ∈ units, u.status = .rejected)
    (hr : o'.status = .running → o.status = .running)
    (hs : o'.status = .delivering → o.status = .delivering) : Sound ⟨o', units⟩ := by
  have hcur : Job.current ⟨o', units⟩ = Job.current ⟨o, units⟩ := by
    rw [Job.current, Job.current, ha]
    rfl
  constructor
  · exact fun u hu => hid ▸ h.owned u hu
  · exact h.positive
  · exact fun u hu => ha ▸ h.attempts u hu
  · exact fun u hu hlt => h.past u hu (ha ▸ hlt)
  · exact hq
  · intro hst
    rcases hp with ⟨hp, hd⟩ | ⟨-, hst'⟩
    · obtain ⟨h₁, h₂, h₃⟩ := h.running (hr hst)
      exact ⟨fun u hu => ha ▸ h₁ u hu, hp.trans h₂, hd.trans h₃⟩
    · rw [hst'] at hst
      cases hst
  · intro p hpp
    rcases hp with ⟨hp, hd⟩ | ⟨hp, -⟩
    · rw [hcur]
      show Journal p o'.deliveredArtifactCount _
      rw [hd]
      exact h.journal p (hp ▸ hpp)
    · rw [show Job.op ⟨o', units⟩ = o' from rfl, hp] at hpp
      cases hpp
  · intro hst hpp
    rw [hcur]
    rcases hp with ⟨hp, -⟩ | ⟨-, hst'⟩
    · exact h.bare (hs hst) (hp ▸ hpp)
    · rw [hst'] at hst
      cases hst

/-- Settling units keeps a job sound. -/
theorem settle (h : Sound ⟨o, units⟩) (hv : v.Settles o.attempt) : Sound ⟨o, v.apply units⟩ := by
  have hkeeps : ∀ u, (if v.cond u then v.set u else u).attempt = u.attempt := by
    intro u
    have hk := hv.key u
    simp only [DeliveryUnitRow.key, Prod.mk.injEq] at hk
    split
    · exact hk.2.1
    · rfl
  constructor
  · intro x hx
    obtain ⟨u, hu, rfl⟩ := UnitUpdate.mem_apply.mp hx
    have hk := hv.key u
    simp only [DeliveryUnitRow.key, Prod.mk.injEq] at hk
    split
    · exact hk.1.trans (h.owned u hu)
    · exact h.owned u hu
  · intro x hx
    obtain ⟨u, hu, rfl⟩ := UnitUpdate.mem_apply.mp hx
    split
    · rw [hv.count]
      exact h.positive u hu
    · exact h.positive u hu
  · intro x hx
    obtain ⟨u, hu, rfl⟩ := UnitUpdate.mem_apply.mp hx
    rw [hkeeps]
    exact h.attempts u hu
  · intro x hx hlt
    obtain ⟨u, hu, rfl⟩ := UnitUpdate.mem_apply.mp hx
    rw [hkeeps] at hlt
    split
    · rename_i hc
      exact absurd (hv.target u hc).1 (Nat.ne_of_lt hlt)
    · exact h.past u hu hlt
  · intro hs x hx
    obtain ⟨u, hu, rfl⟩ := UnitUpdate.mem_apply.mp hx
    split
    · rename_i hc
      have := (hv.target u hc).2
      rw [h.queued hs u hu] at this
      cases this
    · exact h.queued hs u hu
  · intro hs
    obtain ⟨h₁, h₂⟩ := h.running hs
    refine ⟨fun x hx => ?_, h₂⟩
    obtain ⟨u, hu, rfl⟩ := UnitUpdate.mem_apply.mp hx
    rw [hkeeps]
    exact h₁ u hu
  · intro p hp
    show Journal p _ (Job.batch ⟨o, v.apply units⟩ o.attempt)
    rw [UnitUpdate.apply_batch hv.key]
    -- units change in place: ordinals and counts stay, and sent ones are not touched
    refine (h.journal p hp).map (fun u => ?_) (fun u => ?_) (fun u hs => ?_)
      (fun u hs => ?_) (fun u hs => ?_)
    · have hk := hv.key u
      simp only [DeliveryUnitRow.key, Prod.mk.injEq] at hk
      split
      · exact hk.2.2
      · rfl
    · split
      · exact hv.count u
      · rfl
    · split
      · rename_i hc
        rw [(hv.target u hc).2] at hs
        cases hs
      · rfl
    · split
      · rcases hv.settled u with h | h <;> simp [h]
      · exact hs
    · split at hs
      · rcases hv.settled u with h | h <;> simp [h] at hs
      · exact hs
  · intro hs hp
    show Job.batch ⟨o, v.apply units⟩ o.attempt = []
    rw [UnitUpdate.apply_batch hv.key]
    have := h.bare hs hp
    rw [Job.current] at this
    rw [this]
    rfl

/-- A claim starts an attempt without units. -/
theorem claimed (h : Sound ⟨o, units⟩) (hid : o'.id = o.id) (hq : o.status = .queued)
    (hs : o'.status = .running) (ha : o'.attempt = o.attempt + 1)
    (hp : o'.plannedArtifactCount = none) (hd : o'.deliveredArtifactCount = 0) :
    Sound ⟨o', units⟩ := by
  have hlt : ∀ w ∈ units, w.attempt < o'.attempt := fun w hw => by
    have := h.attempts w hw
    simp only at this
    omega
  refine ⟨fun w hw => hid ▸ h.owned w hw, h.positive, fun w hw => (hlt w hw).le,
    fun w hw _ => h.queued hq w hw, ?_, ?_, ?_, ?_⟩
  · exact fun _ => h.queued hq
  · exact fun _ => ⟨hlt, hp, hd⟩
  · intro p hp'
    rw [show Job.op ⟨o', units⟩ = o' from rfl, hp] at hp'
    cases hp'
  · intro hst
    rw [show Job.op ⟨o', units⟩ = o' from rfl, hs] at hst
    cases hst

/-- Delivery begins with an empty journal. -/
theorem begun (h : Sound ⟨o, units⟩) (hid : o'.id = o.id) (hrun : o.status = .running)
    (hs : o'.status = .delivering) (ha : o'.attempt = o.attempt)
    (hd : o'.deliveredArtifactCount = 0) : Sound ⟨o', units⟩ := by
  have hcur : Job.current ⟨o', units⟩ = [] := by
    refine List.filter_eq_nil_iff.mpr fun w hw => ?_
    have := (h.running hrun).1 w hw
    simp only at this
    simp only [decide_eq_true_eq]
    omega
  refine ⟨fun w hw => hid ▸ h.owned w hw, h.positive, fun w hw => ha ▸ h.attempts w hw,
    fun w hw hl => h.past w hw (ha ▸ hl), fun _ => h.rejected (.inr hrun), ?_, ?_,
    fun _ _ => hcur⟩
  · intro hst
    rw [show Job.op ⟨o', units⟩ = o' from rfl, hs] at hst
    cases hst
  · intro p _
    rw [hcur]
    show Journal p o'.deliveredArtifactCount []
    rw [hd]
    exact Journal.nil p

/-! ## Steps -/

variable {ids : List Int} {f : Fence} {k : Kind}

theorem single {now : Int} {u : OperationUpdate} (h : Sound ⟨o, units⟩) (hs : Single now k u)
    (hc : u.cond o = true) : Sound ⟨u.set o, units⟩ := by
  have hq : o.status = .queued → ∀ w ∈ units, w.status = .rejected := h.queued
  cases hs with
  | worker hw =>
      cases hw with
      | beginDelivery =>
          have hrun : o.status = .running := by grind
          exact h.begun rfl hrun rfl rfl (h.running hrun).2.2
      | beginBatch total positive =>
          have hrun : o.status = .running := by grind
          exact h.begun rfl hrun rfl rfl rfl
      | fail retryable code =>
          have hrun : o.status = .running := by grind
          exact h.move rfl rfl (.inl ⟨rfl, rfl⟩) (fun _ => h.rejected (.inr hrun)) (by grind)
            (by grind)
      | _ => exact h.move rfl rfl (.inl ⟨rfl, rfl⟩) (by grind) (by grind) (by grind)
  | cancel => exact h.move rfl rfl (.inl ⟨rfl, rfl⟩) (by grind) (by grind) (by grind)
  | claim | claimForBot => exact h.claimed rfl (by grind) rfl rfl rfl rfl

/-- The units on their way are marked, so none is left. -/
theorem marked {a : Nat} (hv : v.Settles a)
    (hall : ∀ u ∈ units, u.attempt = a → u.status = .sending → v.cond u = true) :
    ∀ x ∈ v.apply units, x.attempt = a → x.status ≠ .sending := by
  intro x hx hxa hxs
  obtain ⟨u, hu, rfl⟩ := UnitUpdate.mem_apply.mp hx
  split at hxs
  · rcases hv.settled u with h | h <;> simp [h] at hxs
  · rename_i hc
    rw [if_neg hc] at hxa
    exact hc (hall u hu hxa hxs)

/-- While an operation is delivered, a unit of its attempt that is not sent is the
last one, and the batch has a plan. -/
theorem last_unit (h : Sound ⟨o, units⟩) (hs : o.status = .delivering)
    {x : DeliveryUnitRow} (hx : x ∈ units) (ha : x.attempt = o.attempt)
    (hne : x.status ≠ .sent) :
    ∃ p init, o.plannedArtifactCount = some p ∧
      Job.current ⟨o, units⟩ = init ++ [x] ∧ ∀ u ∈ init, u.status = .sent := by
  have hcur : x ∈ Job.current ⟨o, units⟩ := Job.mem_current.mpr ⟨hx, ha⟩
  cases hp : o.plannedArtifactCount with
  | none =>
      rw [h.bare hs hp] at hcur
      cases hcur
  | some p =>
      obtain ⟨init, hinit, hsent⟩ := (h.journal p hp).split hcur hne
      exact ⟨p, init, rfl, hinit, hsent⟩

/-- A statement that hits the unit on its way leaves sent units and its own. -/
theorem hit_last (h : Sound ⟨o, units⟩) (hs : o.status = .delivering)
    (htarget : ∀ u, v.cond u = true → u.attempt = o.attempt ∧ u.status = .sending)
    (hit : ∃ x ∈ units, v.cond x = true) :
    ∀ x ∈ v.apply units, x.attempt = o.attempt →
      x.status = .sent ∨ ∃ u ∈ units, v.cond u = true ∧ x = v.set u := by
  obtain ⟨y, hy, hyc⟩ := hit
  obtain ⟨hya, hys⟩ := htarget y hyc
  obtain ⟨p, init, -, hcur, hsent⟩ := h.last_unit hs hy hya (by simp [hys])
  intro x hx hxa
  obtain ⟨u, hu, rfl⟩ := UnitUpdate.mem_apply.mp hx
  split
  · rename_i hc
    exact .inr ⟨u, hu, hc, rfl⟩
  · rename_i hc
    rw [if_neg hc] at hxa
    have hmem : u ∈ Job.current ⟨o, units⟩ := Job.mem_current.mpr ⟨hu, hxa⟩
    rw [hcur] at hmem
    rcases List.mem_append.mp hmem with hm | hm
    · exact .inl (hsent u hm)
    · rw [List.mem_singleton.mp hm] at hc
      exact absurd hyc hc

/-- Rejecting the unit on its way leaves none on its way or unknown. -/
theorem rejected_last (h : Sound ⟨o, units⟩) (hs : o.status = .delivering)
    (hv : v.Settles o.attempt) (hrej : ∀ u, (v.set u).status = .rejected)
    (hit : ∃ x ∈ units, v.cond x = true) :
    ∀ x ∈ v.apply units, x.attempt = o.attempt →
      x.status ≠ .sending ∧ x.status ≠ .unknown := by
  intro x hx hxa
  rcases h.hit_last hs hv.target hit x hx hxa with hx | ⟨u, -, -, rfl⟩
  · simp [hx]
  · simp [hrej]

theorem beginUnit {ordinal count : Nat} {now : Int} (h : Sound ⟨o, units⟩) (positive : 0 < count)
    (hc : Sql.beginUnitReady f (Job.batch ⟨o, units⟩ f.attempt) ordinal count now o = true) :
    Sound ⟨o, units ++ [Sql.begunUnit f ordinal count now]⟩ := by
  simp only [Sql.beginUnitReady, Fence.holds, Bool.and_eq_true, decide_eq_true_eq,
    beq_iff_eq, Option.any_eq_true, List.all_eq_true] at hc
  obtain ⟨⟨⟨⟨⟨⟨⟨⟨⟨⟨⟨hid, ha⟩, -⟩, -⟩, -⟩, hs⟩, -⟩, hord⟩, hsum⟩, hcount⟩, p, hp, hfit⟩,
    hall⟩ := hc
  have hj := h.journal p hp
  have hcur : Job.batch ⟨o, units⟩ f.attempt = Job.current ⟨o, units⟩ := by
    rw [Job.current, ha]
  rw [hcur] at hord hall
  have hnew : Job.current ⟨o, units ++ [Sql.begunUnit f ordinal count now]⟩ =
      Job.current ⟨o, units⟩ ++ [Sql.begunUnit f ordinal count now] := by
    simp [Job.current, Job.batch, Sql.begunUnit, ha]
  constructor
  · intro u hu
    rcases List.mem_append.mp hu with hu | hu
    · exact h.owned u hu
    · rw [List.mem_singleton.mp hu]
      exact hid.symm
  · intro u hu
    rcases List.mem_append.mp hu with hu | hu
    · exact h.positive u hu
    · rw [List.mem_singleton.mp hu]
      exact positive
  · intro u hu
    rcases List.mem_append.mp hu with hu | hu
    · exact h.attempts u hu
    · rw [List.mem_singleton.mp hu]
      exact ha.ge
  · intro u hu hlt
    rcases List.mem_append.mp hu with hu | hu
    · exact h.past u hu hlt
    · rw [List.mem_singleton.mp hu] at hlt
      exact absurd ha.symm (Nat.ne_of_lt hlt)
  · intro hst
    rw [show Job.op ⟨o, _⟩ = o from rfl, hs] at hst
    cases hst
  · intro hst
    rw [show Job.op ⟨o, _⟩ = o from rfl, hs] at hst
    cases hst
  · intro p' hp'
    obtain rfl : p = p' := Option.some.inj (hp.symm.trans hp')
    rw [hnew]
    exact hj.begin hall (hord.trans hj.nextOrdinal) rfl hfit
  · intro _ hp'
    rw [show Job.op ⟨o, _⟩ = o from rfl, hp] at hp'
    cases hp'

/-- A completed unit is the last of its batch, and the journal counts it. -/
theorem completeUnit {ordinal : Nat} {now : Int} (h : Sound ⟨o, units⟩)
    (ha : o.attempt = f.attempt) (hs : o.status = .delivering)
    (hv : v = Sql.completeDeliveryUnit f ordinal ids true now)
    (hit : ∃ x ∈ units, v.cond x = true) :
    ∃ p init x, o.plannedArtifactCount = some p ∧
      Job.current ⟨o, v.apply units⟩ = init ++ [v.set x] ∧
      (∀ w ∈ units, v.cond w = true → w = x) ∧ x.attempt = o.attempt ∧
      Sql.sentCount (Job.current ⟨o, v.apply units⟩) ordinal = some x.artifactCount ∧
      Journal p (o.deliveredArtifactCount + x.artifactCount)
        (Job.current ⟨o, v.apply units⟩) := by
  obtain ⟨x, hx, hc⟩ := hit
  have hkey : ∀ u, (v.set u).key = u.key := fun u => by rw [hv]; rfl
  have hcond : ∀ u, v.cond u = true → u.attempt = o.attempt ∧ u.ordinal = ordinal ∧
      u.status = .sending ∧ ids.length = u.artifactCount ∧ ids.Nodup ∧ ∀ id ∈ ids, 0 < id := by
    intro u hu
    rw [hv] at hu
    simp only [Sql.completeDeliveryUnit, Sql.inFlight, DeliveryUnitRow.key,
      Bool.and_eq_true, decide_eq_true_eq, beq_iff_eq, Prod.mk.injEq, List.all_eq_true,
      and_true] at hu
    obtain ⟨⟨⟨⟨⟨-, hua, huo⟩, hus⟩, hlen⟩, hnd⟩, hpos⟩ := hu
    exact ⟨hua.trans ha.symm, huo, hus, hlen, hnd, fun id hid => (hpos id hid).1⟩
  obtain ⟨hxa, hxo, hxs, hlen, hnd, hpos⟩ := hcond x hc
  obtain ⟨p, init, hp, hcur, hsent⟩ := h.last_unit hs hx hxa (by simp [hxs])
  have hj := h.journal p hp
  rw [hcur] at hj
  have hnew : Job.current ⟨o, v.apply units⟩ = init ++ [v.set x] := by
    rw [Job.current, UnitUpdate.apply_batch hkey, ← Job.current, hcur, UnitUpdate.apply,
      List.map_append, List.map_singleton, if_pos hc]
    congr 1
    conv_rhs => rw [← List.map_id init]
    refine List.map_congr_left fun u hu => if_neg fun hcu => ?_
    have := (hcond u hcu).2.2.1
    rw [hsent u hu] at this
    cases this
  refine ⟨p, init, x, hp, hnew, fun w hw hcw => ?_, hxa, ?_, ?_⟩
  · obtain ⟨hwa, -, hws, -⟩ := hcond w hcw
    have hmem : w ∈ Job.current ⟨o, units⟩ := Job.mem_current.mpr ⟨hw, hwa⟩
    rw [hcur] at hmem
    rcases List.mem_append.mp hmem with hm | hm
    · rw [hsent w hm] at hws
      cases hws
    · exact List.mem_singleton.mp hm
  · have hinit : init.find? (fun u => decide (u.ordinal = ordinal) && u.status == .sent) =
        none := by
      refine List.find?_eq_none.mpr fun u hu => ?_
      have hnodup : ((init ++ [x]).map DeliveryUnitRow.ordinal).Nodup := by
        rw [hj.ordinals]
        exact List.nodup_range
      rw [List.map_append, List.nodup_append] at hnodup
      have := hnodup.2.2 _ (List.mem_map_of_mem hu) x.ordinal (by simp)
      simp [hxo ▸ this]
    rw [hnew, Sql.sentCount, List.find?_append, hinit, hv]
    simp [Sql.completeDeliveryUnit, hxo]
  · rw [hnew, show x.artifactCount = (v.set x).artifactCount by rw [hv]; rfl]
    have hids : (v.set x).messageIds = some ids := by rw [hv]; rfl
    refine hj.arrive hsent hxs ?_ ?_ ?_ hids ?_ hnd hpos
    · rw [hv]; rfl
    · rw [hv]; rfl
    · rw [hv]; rfl
    · rw [hlen, hv]; rfl

/-- Completing a unit keeps a job sound. -/
theorem complete {ordinal : Nat} {lastId now now' : Int} (h : Sound ⟨o, units⟩)
    (ha : o.attempt = f.attempt) (hs : o.status = .delivering)
    (hv : v = Sql.completeDeliveryUnit f ordinal ids true now)
    (hit : ∃ x ∈ units, v.cond x = true) :
    Sound ⟨(Sql.completeDeliveryUnitOperation f (Job.batch ⟨o, v.apply units⟩ f.attempt)
      ordinal lastId now').set o, v.apply units⟩ := by
  obtain ⟨p, init, x, hp, -, honly, hxa, hcount, hj⟩ := h.completeUnit ha hs hv hit
  rw [← ha, show Job.batch ⟨o, v.apply units⟩ o.attempt = Job.current ⟨o, v.apply units⟩
    from rfl]
  have hset : ∀ batch, Sql.sentCount batch ordinal = some x.artifactCount →
      ∀ o', o' = (Sql.completeDeliveryUnitOperation f batch ordinal lastId now').set o →
      o'.id = o.id ∧ o'.attempt = o.attempt ∧ o'.plannedArtifactCount = some p ∧
        o'.deliveredArtifactCount = o.deliveredArtifactCount + x.artifactCount ∧
        (o'.status = .succeeded ∨ o'.status = .delivering) := by
    rintro batch hb o' rfl
    simp only [Sql.completeDeliveryUnitOperation, hb, Option.getD_some]
    split <;> simp [OperationRow.released, hp]
  obtain ⟨hid, hatt, hpl, hdel, hst⟩ := hset _ hcount _ rfl
  generalize (Sql.completeDeliveryUnitOperation f (Job.current ⟨o, v.apply units⟩) ordinal
    lastId now').set o = o' at hid hatt hpl hdel hst ⊢
  have hsame : ∀ y ∈ v.apply units, ∃ u ∈ units, y.operationId = u.operationId ∧
      y.attempt = u.attempt ∧ y.artifactCount = u.artifactCount ∧
      (u.attempt < o.attempt → y.status = u.status) := by
    intro y hy
    obtain ⟨u, hu, rfl⟩ := UnitUpdate.mem_apply.mp hy
    refine ⟨u, hu, ?_⟩
    split
    · rename_i hc
      refine ⟨by rw [hv]; rfl, by rw [hv]; rfl, by rw [hv]; rfl, fun hlt => ?_⟩
      rw [honly u hu hc] at hlt
      exact absurd hxa (Nat.ne_of_lt hlt)
    · exact ⟨rfl, rfl, rfl, fun _ => rfl⟩
  constructor
  · intro y hy
    obtain ⟨u, hu, hop, -⟩ := hsame y hy
    exact hop.trans ((h.owned u hu).trans hid.symm)
  · intro y hy
    obtain ⟨u, hu, -, -, hc, -⟩ := hsame y hy
    rw [hc]
    exact h.positive u hu
  · intro y hy
    obtain ⟨u, hu, -, hya, -⟩ := hsame y hy
    rw [hya, hatt]
    exact h.attempts u hu
  · intro y hy hlt
    obtain ⟨u, hu, -, hya, -, hsu⟩ := hsame y hy
    rw [hya, hatt] at hlt
    rw [hsu hlt]
    exact h.past u hu hlt
  · intro hq
    rcases hst with hst | hst <;> simp [hst] at hq
  · intro hr
    rcases hst with hst | hst <;> simp [hst] at hr
  · intro p' hp'
    obtain rfl : p = p' := Option.some.inj (hpl.symm.trans hp')
    have hcur : Job.current ⟨o', v.apply units⟩ = Job.current ⟨o, v.apply units⟩ := by
      rw [Job.current, Job.current, hatt]
      rfl
    rw [hcur, hdel]
    exact hj
  · intro _ hp'
    simp [hpl] at hp'

/-- **Every step keeps a job sound.** -/
theorem step {t : Int} {j' : Job} (h : Sound j) (hs : JobStep t k j j') : Sound j' := by
  cases hs with
  | single hs _ hc => exact h.single hs hc
  | @expire j now now' _ units hu u hu' hc =>
      obtain ⟨o, us⟩ := j
      simp only at hu hu' hc ⊢
      have hv : (Sql.expireLeaseUnits o.id o.attempt now).Settles o.attempt := by
        constructor <;> intro x <;> first | rfl | grind
      have hall := marked hv fun x hx hxa hxs => by
        have := h.owned x hx
        grind
      have hset := h.settle hv
      rw [← hu] at hall hset
      subst hu'
      refine hset.move rfl rfl (.inl ⟨rfl, rfl⟩) (fun hq => ?_) (by grind) (by grind)
      by_cases hrun : o.status = .running
      · exact hset.rejected (.inr hrun)
      · have hdel : o.status = .delivering := by grind [OperationStatus.leased]
        refine hset.all_rejected hdel (by grind) fun x hx hxa => ⟨hall x hx hxa, ?_⟩
        have : x ∈ Job.batch ⟨o, units⟩ o.attempt := Job.mem_current.mpr ⟨hx, hxa⟩
        grind
  | beginUnit _ positive hc => exact h.beginUnit positive hc
  | @outcome k f now now' v u j ho _ _ live hit units hu hc =>
      obtain ⟨o, us⟩ := j
      simp only at live hit hu hc ⊢
      have ha : o.attempt = f.attempt := by grind
      have hdel : o.status = .delivering := by grind
      subst hu
      cases ho with
      | complete ordinal ids lastId last => exact h.complete ha hdel rfl hit
      | reject ordinal retryAfterSecs =>
          have hv : (Sql.rejectDeliveryUnit f ordinal true now).Settles o.attempt := by
            constructor <;> intro x <;> first | rfl | grind [DeliveryUnitRow.key]
          have hset := h.settle hv
          refine hset.move rfl rfl (.inl ⟨rfl, rfl⟩) (fun hq => ?_) (by grind) (by grind)
          exact hset.all_rejected hdel (by grind)
            (h.rejected_last hdel hv (fun _ => rfl) hit)
      | unknown ordinal =>
          have hv : (Sql.unknownDeliveryUnit f ordinal true now).Settles o.attempt := by
            constructor <;> intro x <;> first | rfl | grind [DeliveryUnitRow.key]
          exact (h.settle hv).move rfl rfl (.inl ⟨rfl, rfl⟩) (by grind) (by grind) (by grind)
  | @stop j f reason now now' _ later units hu u hu' hc =>
      obtain ⟨o, us⟩ := j
      simp only at hu hu' hc ⊢
      subst hu'
      have ha : o.attempt = f.attempt := by grind
      have hdel : o.status = .delivering := by grind
      have hlive : Sql.delivering f now o = true := by
        simp only [Sql.stopDeliveryBatch, Sql.delivering, Bool.and_eq_true] at hc ⊢
        exact ⟨Fence.holds_earlier hc.1 later, hc.2⟩
      have hv : (Sql.stopDeliveryBatchMark f (Sql.stopMarks f reason now o) now).Settles
          o.attempt := by
        constructor <;> intro x <;> first | rfl | grind
      have hset := h.settle hv
      rw [← hu] at hset
      refine hset.move rfl rfl (.inl ⟨rfl, rfl⟩) (fun hq => ?_) (by grind) (by grind)
      -- only a shutdown requeues, and it has marked whatever was on its way
      have hreason : reason = .shutdown := by
        cases reason <;> first | rfl | (exfalso; grind)
      have hall := marked hv fun x hx hxa hxs => by
        have := h.owned x hx
        grind
      rw [← hu] at hall
      refine hset.all_rejected hdel (by grind) fun x hx hxa => ⟨hall x hx hxa, ?_⟩
      have : x ∈ Job.batch ⟨o, units⟩ o.attempt := Job.mem_current.mpr ⟨hx, hxa⟩
      grind
  | @requeue j f key botId now now' _ _ live v hv hit units hu u hu' hc =>
      obtain ⟨o, us⟩ := j
      simp only at live hit hu hu' hc ⊢
      subst hu'
      have ha : o.attempt = f.attempt := by grind
      have hdel : o.status = .delivering := by grind
      have hvs : v.Settles o.attempt := by
        subst hv
        constructor <;> intro x <;> first | rfl | grind [DeliveryUnitRow.key]
      have hset := h.settle hvs
      rw [← hu] at hset
      refine hset.move rfl rfl (.inr ⟨rfl, rfl⟩) (fun _ => ?_) (by grind) (by grind)
      rw [hu] at hset ⊢
      exact hset.all_rejected hdel (by grind)
        (h.rejected_last hdel hvs (fun _ => by rw [hv]; rfl) hit)

end Sound

theorem Admitted.sound {o : OperationRow} (h : Admitted o) : Sound ⟨o, []⟩ where
  owned := by simp
  positive := by simp
  attempts := by simp
  past := by simp
  queued := by simp
  running := fun hr => by
    rw [show Job.op ⟨o, []⟩ = o from rfl, h.queued] at hr
    cases hr
  journal := fun p hp => by
    rw [show Job.op ⟨o, []⟩ = o from rfl, h.planned] at hp
    cases hp
  bare := fun _ _ => rfl

/-- A unit that was settled stays as it is. -/
theorem JobStep.settled {t : Int} {k : Kind} {j' : Job} (h : JobStep t k j j') (hu : u ∈ j.units)
    (hs : u.status ≠ .sending) : u ∈ j'.units := by
  have hkeep : ∀ {v : UnitUpdate}, (∀ x, v.cond x = true → x.status = .sending) →
      u ∈ v.apply j.units := by
    intro v hv
    refine UnitUpdate.mem_apply.mpr ⟨u, hu, ?_⟩
    rw [if_neg fun hc => hs (hv u hc)]
  cases h with
  | single => exact hu
  | expire _ units hunits =>
      rw [hunits]
      exact hkeep fun x hx => by grind
  | beginUnit => exact List.mem_append_left _ hu
  | outcome h _ _ _ _ units hunits =>
      rw [hunits]
      exact hkeep fun x hx => by cases h <;> grind
  | stop _ _ units hunits | requeue _ _ _ v hv _ units hunits =>
      rw [hunits]
      exact hkeep fun x hx => by grind

/-! ## Runs -/

section

variable [Platform]

variable {es : List Event} {s t : System} {id : Uuid}

theorem Reaches.sound (h : Reaches s es t) : t.db.Jobs Sound :=
  h.jobs (fun _ hr => hr.sound) fun hs hj => hj.step hs

/-- The event is a claim that was returned for an operation. -/
def Event.claims (id : Uuid) : Event → Bool
  | .call _ _ _ (.ok (.claimed (some c))) => decide (c.operationId = id)
  | _ => false

theorem Step.claims {e : Event} (h : Step s e t) (he : e.claims id = true) :
    (t.db.operation id).any (fun o => o.status == .running) := by
  unfold Event.claims at he
  split at he
  case h_2 => cases he
  case h_1 call clock fresh c =>
    obtain ⟨db₁, j, j', -, hm, -, -, hl⟩ := h.claimed
    rw [← of_decide_eq_true he, (Db.job_eq_some.mp hm.after).1]
    simp [hl.status]

/-- A settled unit is there after every run. -/
theorem run_settled (h : Run Step s es t) (hs : s.db.Jobs Sound) (hu : u ∈ s.db.unitsOf id)
    (hne : u.status ≠ .sending) : u ∈ t.db.unitsOf id := by
  cases ho : s.db.operation id with
  | none =>
      rw [hs.owned ho] at hu
      cases hu
  | some o =>
      obtain ⟨j', hj', hR⟩ := run_kept (R := fun j j' => u ∈ j.units → u ∈ j'.units)
        (fun _ hu => hu) (fun hR hs hu => hs.settled (hR hu) hne) h
        (Db.job_eq_some.mpr ⟨ho, rfl⟩ : s.db.job id = some ⟨o, s.db.unitsOf id⟩)
      rw [(Db.job_eq_some.mp hj').2]
      exact hR hu

/-- **No automatic resend.** A queued or running operation has no unit that is sent,
being sent, or unknown. Once a unit is sent or unknown, its operation is never queued
or running again, and no claim on it is returned. -/
theorem no_automatic_resend {s t : System} {es : List Event} (h : Reaches s es t) :
    (∀ {id o}, t.db.operation id = some o → o.status = .queued ∨ o.status = .running →
      ∀ u ∈ t.db.unitsOf id,
        u.status ≠ .sent ∧ u.status ≠ .sending ∧ u.status ≠ .unknown) ∧
    ∀ {id u}, u ∈ t.db.unitsOf id → u.status = .sent ∨ u.status = .unknown →
      ∀ {es' v}, Run Step t es' v →
        (∀ o, v.db.operation id = some o → o.status ≠ .queued ∧ o.status ≠ .running) ∧
        ∀ e ∈ es', e.claims id = false := by
  have hidle : ∀ {es t}, Reaches s es t → ∀ {id o}, t.db.operation id = some o →
      o.status = .queued ∨ o.status = .running → ∀ u ∈ t.db.unitsOf id,
        u.status = .rejected := by
    intro es t h id o ho hs
    exact (h.sound.job (Db.job_eq_some.mpr ⟨ho, rfl⟩ :
      t.db.job id = some ⟨o, t.db.unitsOf id⟩)).rejected hs
  constructor
  · intro id o ho hs u hu
    simp [hidle h ho hs u hu]
  intro id u hu hus es' v hrun
  have hafter : ∀ {es' v}, Run Step t es' v → ∀ o, v.db.operation id = some o →
      o.status ≠ .queued ∧ o.status ≠ .running := by
    intro es' v hrun o ho
    by_contra hcon
    have hs : o.status = .queued ∨ o.status = .running := by
      by_contra hn
      exact hcon (not_or.mp hn)
    have hmem := run_settled hrun h.sound hu (by rcases hus with h | h <;> simp [h])
    rw [hidle ⟨h.1, h.2.append hrun⟩ ho hs u hmem] at hus
    rcases hus with h | h <;> cases h
  refine ⟨hafter hrun, ?_⟩
  induction hrun with
  | nil => simp
  | @snoc es' v w e hrun hstep ih =>
      intro e' he'
      rcases List.mem_append.mp he' with he' | he'
      · exact ih e' he'
      · rw [List.mem_singleton.mp he']
        cases hc : e.claims id with
        | false => rfl
        | true =>
            obtain ⟨o, ho, hr⟩ := (Option.any_eq_true _ _).mp (hstep.claims hc)
            exact absurd (by simpa using hr) (hafter (hrun.snoc hstep) o ho).2

end

section

attribute [local instance] Scenario.platform

namespace Scenario

/-- A batch of two artifacts is begun, with one of them on its way. -/
def sending : List ScriptLine :=
  [admitRequest request, take 2 2, act 3 (.beginDeliveryBatch (held request 1 2) 2),
    act 4 (.beginDeliveryUnit (held request 1 2) 0 1)]

/-- Nobody knows whether the first one arrived. -/
def lost : List ScriptLine :=
  sending ++ [act 5 (.unknownDeliveryUnit (held request 1 2) 0)]

/-- Both arrive. -/
def delivered : List ScriptLine :=
  sending ++ [act 5 (.completeDeliveryUnit (held request 1 2) 0 [11]),
    act 6 (.beginDeliveryUnit (held request 1 2) 1 1),
    act 7 (.completeDeliveryUnit (held request 1 2) 1 [12])]

end Scenario

/-- After the only unit of a batch got lost the operation is never claimed again. -/
theorem no_automatic_resend_lost :
    ¬ ∃ es v, Run Step (play .initial Scenario.lost).2 es v ∧
      ∃ e ∈ es, e.claims Scenario.operation = true := by
  rintro ⟨es, v, hrun, e, he, hclaims⟩
  have hlost : ∃ u ∈ (play .initial Scenario.lost).2.db.unitsOf Scenario.operation,
      u.status = .unknown := by decide +kernel
  obtain ⟨u, hu, hs⟩ := hlost
  have hnone := ((no_automatic_resend (play_reaches (by decide))).2 hu (.inr hs) hrun).2 e he
  rw [hclaims] at hnone
  cases hnone

end

end YoinkCore.Storage
