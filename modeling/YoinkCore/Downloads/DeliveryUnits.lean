import YoinkCore.Storage.UnitsAccepted

/-!
# Delivery units

The artifacts of a delivery are sent in units: neighbours of one category, ten at most. What the
planner groups and what the journal of the store admits is checked in two places. Here the plan
is followed through the journal.
-/

namespace YoinkCore.Downloads

open Lib Domain Storage

/-! ## The planner -/

inductive MediaCategory where
  | visual
  | audio
  | document
deriving DecidableEq

/-- The inner loop: where the unit ends that begins at `start`. -/
def unitEnd (categories : List MediaCategory) (kind : MediaCategory) (start : Nat) :
    Nat → Nat → Option Nat
  | 0, _ => none
  | turns + 1, stop =>
      if stop < categories.length ∧ stop - start < 10 then do
        let next ← categories[stop]?
        if next = kind then unitEnd categories kind start turns (stop + 1) else some stop
      else some stop

/-- The outer loop. -/
def planUnits (categories : List MediaCategory) :
    Nat → Nat → List (List Nat) → Option (List (List Nat))
  | 0, _, _ => none
  | turns + 1, start, result =>
      if start < categories.length then do
        let kind ← categories[start]?
        let stop ← unitEnd categories kind start (turns + 1) (start + 1)
        planUnits categories turns stop (result ++ [List.range' start (stop - start)])
      else some result

/-- `plan_categories`, for so many turns of each loop. An index out of range is no result. -/
def planCategories (turns : Nat) (categories : List MediaCategory) : Option (List (List Nat)) :=
  planUnits categories turns 0 []

/-- One unit holds one to ten consecutive artifacts of one category. -/
structure OneUnit (categories : List MediaCategory) (unit : List Nat) : Prop where
  some_artifact : 1 ≤ unit.length
  at_most_ten : unit.length ≤ 10
  consecutive : ∃ start, unit = List.range' start unit.length
  one_category : ∃ kind, ∀ i ∈ unit, categories[i]? = some kind

/-- The artifacts from one position to another are of one category. -/
def Same (categories : List MediaCategory) (kind : MediaCategory) (start stop : Nat) : Prop :=
  ∀ i, start ≤ i → i < stop → categories[i]? = some kind

theorem Same.snoc {categories : List MediaCategory} {kind : MediaCategory} {start stop : Nat}
    (h : Same categories kind start stop) (hstop : categories[stop]? = some kind) :
    Same categories kind start (stop + 1) := by
  intro i hi hlt
  rcases Nat.lt_succ_iff_lt_or_eq.mp hlt with hlt | rfl
  · exact h i hi hlt
  · exact hstop

/-- A unit ends where it is full, or where the next artifact is of another category. -/
theorem unitEnd_spec (categories : List MediaCategory) (kind : MediaCategory) (start turns : Nat) :
    ∀ stop, start < stop → Same categories kind start stop → stop - start ≤ 10 →
      categories.length < turns + stop →
      ∃ last, unitEnd categories kind start turns stop = some last ∧ stop ≤ last ∧
        Same categories kind start last ∧ last - start ≤ 10 ∧
        (last - start = 10 ∨ categories[last]? ≠ some kind) := by
  induction turns with
  | zero =>
      intro stop hlt hsame hfull hlen
      have hread := hsame (stop - 1) (by omega) (by omega)
      rw [List.getElem?_eq_none (by omega)] at hread
      cases hread
  | succ turns ih =>
      intro stop hlt hsame hfull hlen
      by_cases hmore : stop < categories.length ∧ stop - start < 10
      · have hread := List.getElem?_eq_getElem hmore.1
        rw [unitEnd, if_pos hmore, hread, Json.some_bind_eq]
        by_cases hkind : categories[stop] = kind
        · rw [if_pos hkind]
          rw [hkind] at hread
          obtain ⟨last, hlast, hle, hrest⟩ := ih (stop + 1) (Nat.lt_succ_of_lt hlt)
            (hsame.snoc hread) (by omega) (by omega)
          exact ⟨last, hlast, Nat.le_of_succ_le hle, hrest⟩
        · rw [if_neg hkind]
          refine ⟨stop, rfl, le_rfl, hsame, hfull, .inr ?_⟩
          rw [hread]
          exact fun h => hkind (Option.some.inj h)
      · rw [unitEnd, if_neg hmore]
        refine ⟨stop, rfl, le_rfl, hsame, hfull, ?_⟩
        by_cases hend : stop < categories.length
        · exact .inl (by omega)
        · rw [List.getElem?_eq_none (Nat.le_of_not_lt hend)]
          exact .inr nofun

/-- The units from a position on: each ends where it must. -/
inductive Planned (categories : List MediaCategory) : Nat → List (List Nat) → Prop
  | done : Planned categories categories.length []
  | unit {start size : Nat} {kind : MediaCategory} {units : List (List Nat)} (hpos : 1 ≤ size)
      (hten : size ≤ 10) (hsame : Same categories kind start (start + size))
      (hend : size = 10 ∨ categories[start + size]? ≠ some kind)
      (rest : Planned categories (start + size) units) :
      Planned categories start (List.range' start size :: units)

/-- **The planner ends**, with the units from the position it is at. -/
theorem planUnits_spec (categories : List MediaCategory) (turns : Nat) :
    ∀ start result, start ≤ categories.length → categories.length < turns + start →
      ∃ units, planUnits categories turns start result = some (result ++ units) ∧
        Planned categories start units := by
  induction turns with
  | zero => exact fun start result hle hlt => absurd hle (by omega)
  | succ turns ih =>
      intro start result hle hlt
      by_cases hmore : start < categories.length
      · have hread := List.getElem?_eq_getElem hmore
        have hfirst : Same categories categories[start] start (start + 1) := by
          intro i hi hlt
          obtain rfl : i = start := by omega
          exact hread
        obtain ⟨last, hlast, hnext, hsame, hten, hend⟩ := unitEnd_spec categories
          categories[start] start (turns + 1) (start + 1) (Nat.lt_succ_self start) hfirst
          (by omega) (by omega)
        have hbound : last ≤ categories.length := by
          by_contra hover
          have := hsame (last - 1) (by omega) (by omega)
          rw [List.getElem?_eq_none (by omega)] at this
          cases this
        obtain ⟨units, hunits, hplan⟩ := ih last (result ++ [List.range' start (last - start)])
          hbound (by omega)
        have hstop : start + (last - start) = last := by omega
        rw [planUnits, if_pos hmore, hread, Json.some_bind_eq, hlast, Json.some_bind_eq, hunits,
          List.append_assoc]
        rw [← hstop] at hsame hplan
        exact ⟨_, rfl, .unit (by omega) hten hsame (by rwa [hstop]) hplan⟩
      · obtain rfl : start = categories.length := by omega
        rw [planUnits, if_neg hmore]
        exact ⟨[], by rw [List.append_nil], .done⟩

namespace Planned

variable {categories : List MediaCategory} {start : Nat} {units : List (List Nat)}

theorem start_le (h : Planned categories start units) : start ≤ categories.length := by
  induction h with
  | done => exact le_rfl
  | unit _ _ _ _ _ ih => omega

/-- The units are all artifacts, in their order. -/
theorem flatten (h : Planned categories start units) :
    units.flatten = List.range' start (categories.length - start) := by
  induction h with
  | done => rw [Nat.sub_self]; rfl
  | @unit start size kind units hpos hten hsame hend rest ih =>
      have hle := rest.start_le
      rw [List.flatten_cons, ih, List.range'_append_1]
      congr 1
      omega

theorem all (h : Planned categories start units) : ∀ u ∈ units, OneUnit categories u := by
  induction h with
  | done => exact fun _ hu => nomatch hu
  | @unit start size kind units hpos hten hsame hend rest ih =>
      intro u hu
      rcases List.mem_cons.mp hu with rfl | hu
      · refine ⟨by rwa [List.length_range'], by rwa [List.length_range'],
          ⟨start, by rw [List.length_range']⟩, kind, fun i hi => ?_⟩
        obtain ⟨hlo, hhi⟩ := List.mem_range'_1.mp hi
        exact hsame i hlo hhi
      · exact ih u hu

theorem start_mem {unit : List Nat} (h : Planned categories start (unit :: units)) :
    start ∈ unit := by
  cases h with
  | unit hpos => exact List.mem_range'_1.mpr ⟨le_rfl, by omega⟩

/-- Two neighbours are too many for one unit, or of two categories. -/
theorem apart (h : Planned categories start units) :
    units.IsChain fun a b => ¬ OneUnit categories (a ++ b) := by
  induction h with
  | done => exact .nil
  | @unit start size kind units hpos hten hsame hend rest ih =>
      cases units with
      | nil => exact .singleton _
      | cons b units =>
          refine .cons_cons ?_ ih
          have hmem := rest.start_mem
          rintro ⟨-, hboth, -, both, hone⟩
          have hb := List.length_pos_of_mem hmem
          rw [List.length_append, List.length_range'] at hboth
          rcases hend with rfl | hnext
          · omega
          · refine hnext ?_
            have hfirst := hone start (List.mem_append_left _
              (List.mem_range'_1.mpr ⟨le_rfl, by omega⟩))
            rw [hsame start le_rfl (by omega)] at hfirst
            rw [hone (start + size) (List.mem_append_right _ hmem), ← hfirst]

end Planned

/-! ## Delivering what was planned -/

section

variable [Platform]

/-- The calls that deliver units from an ordinal on, when artifact `i` becomes the message
`messages i`. -/
def unitCalls (c : Claim) (messages : Nat → Int) : Nat → List (List Nat) → List Call
  | _, [] => []
  | ordinal, unit :: units =>
      .beginDeliveryUnit c ordinal unit.length ::
        .completeDeliveryUnit c ordinal (unit.map messages) ::
          unitCalls c messages (ordinal + 1) units

/-- The calls that deliver so many artifacts in units. -/
def deliveryCalls (c : Claim) (messages : Nat → Int) (total : Nat) (units : List (List Nat)) :
    List Call :=
  .beginDeliveryBatch c total :: unitCalls c messages 0 units

/-- The call of an event. -/
def callOf : Event → Option Call
  | .call call _ _ _ => some call
  | .other => none

/-- The call of an event was answered with `true`. -/
def Accepted : Event → Prop
  | .call _ _ _ reply => reply = .ok (.flag true)
  | .other => False

/-- The first call of a run, and the run after it. -/
theorem first_call {s t : System} {es : List Event} {call : Call} {calls : List Call}
    (hrun : Run Step s es t) (hcalls : es.map callOf = (call :: calls).map some) :
    ∃ clock fresh reply es' u, es = .call call clock fresh reply :: es' ∧
      Step s (.call call clock fresh reply) u ∧ exec call clock fresh s.db = (reply, u.db) ∧
      (∀ n, clock.tick n ≤ t.now) ∧ Run Step u es' t ∧ es'.map callOf = calls.map some := by
  cases es with
  | nil => cases hcalls
  | cons e es =>
      obtain ⟨he, hrest⟩ := List.cons.inj hcalls
      obtain ⟨v, u, hnone, hstep, hafter⟩ :=
        Run.split_at (show Run Step s ([] ++ e :: es) t from hrun)
      obtain rfl := hnone.eq_of_nil
      have hlater : u.now ≤ t.now := hafter.relate (R := fun s t => s.now ≤ t.now)
        (fun _ => le_rfl) fun hle hs => hle.trans hs.now_le
      cases hstep with
      | other => cases he
      | call later result elapsed =>
          cases he
          exact ⟨_, _, _, es, u, rfl, .call later result elapsed, result,
            fun n => (elapsed n).trans hlater, hafter, hrest⟩

theorem flag_of_ok {m : Method Bool} {db db' db'' : Db} {reply : Except StoreError Reply}
    (h : m db = (.ok true, db')) (hexec : Method.reply m .flag db = (reply, db'')) :
    reply = .ok (.flag true) ∧ db' = db'' := by
  rw [Method.reply, h] at hexec
  cases hexec
  exact ⟨rfl, rfl⟩

/-- **The units of a plan are accepted**, from any one that is next, and the last one ends the
operation. -/
theorem units_accepted {c : Claim} {messages : Nat → Int} {now : Int} {planned : Nat}
    {s₀ t : System} (units : List (List Nat)) :
    ∀ (sent delivered : Nat) (s : System) (es₀ es : List Event) (j : Job), Reaches s₀ es₀ s →
      Run Step s es t → es.map callOf = (unitCalls c messages sent units).map some →
      t.now ≤ now → s.db.job c.operationId = some j → Sending c now planned sent delivered j →
      (∀ u ∈ units, 1 ≤ u.length ∧ u.length ≤ 10 ∧ validMessageIds (u.map messages) = true) →
      sent + units.length ≤ 100 → delivered + (units.map List.length).sum = planned →
      (∀ e ∈ es, Accepted e) ∧ (units ≠ [] →
        ∃ o, t.db.operation c.operationId = some o ∧ o.status = .succeeded) := by
  induction units with
  | nil =>
      intro sent delivered s es₀ es j hreach hrun hcalls hnow hj h hunits hlen htotal
      obtain rfl := List.map_eq_nil_iff.mp hcalls
      exact ⟨fun _ he => (nomatch he), fun hne => absurd rfl hne⟩
  | cons unit units ih =>
      intro sent delivered s es₀ es j hreach hrun hcalls hnow hj h hunits hlen htotal
      obtain ⟨hpos, hten, hids⟩ := hunits unit List.mem_cons_self
      rw [List.map_cons, List.sum_cons] at htotal
      rw [List.length_cons] at hlen
      obtain ⟨clock, fresh, reply, es₁, s₁, rfl, hstep, hexec, hclock, hrun₁, hcalls₁⟩ :=
        first_call hrun hcalls
      obtain ⟨db₁, hbegin, hj₁⟩ := beginDeliveryUnit_accepted hj (hreach.sound.job hj) h
        ((hclock 0).trans hnow) (by omega) hpos hten (by omega)
      obtain ⟨clock', fresh', reply', es₂, s₂, rfl, hstep', hexec', hclock', hrun₂, hcalls₂⟩ :=
        first_call hrun₁ hcalls₁
      obtain ⟨rfl, rfl⟩ := flag_of_ok hbegin hexec
      obtain ⟨db₂, j₂, hcomplete, hj₂, hdone, hmore⟩ := completeDeliveryUnit_accepted
        (hreach.sound.job hj) h hj₁ ((hclock' 1).trans hnow) (by omega) (by omega) hids
        (List.length_map messages)
      obtain ⟨rfl, rfl⟩ := flag_of_ok hcomplete hexec'
      cases units with
      | nil =>
          obtain rfl := List.map_eq_nil_iff.mp hcalls₂
          obtain rfl := hrun₂.eq_of_nil
          rw [List.map_nil, List.sum_nil, Nat.add_zero] at htotal
          refine ⟨fun e he => ?_, fun _ => ⟨j₂.op, (Db.job_eq_some.mp hj₂).1, hdone htotal⟩⟩
          rcases List.mem_cons.mp he with rfl | he
          · rfl
          · rw [List.mem_singleton.mp he]
            rfl
      | cons next rest =>
          have hnext := hunits next (List.mem_cons_of_mem _ List.mem_cons_self)
          have hreach₂ := hreach.2.append ((Run.single hstep).append (Run.single hstep'))
          have hsending := hmore (by
            rw [List.map_cons, List.sum_cons] at htotal
            omega)
          obtain ⟨haccepted, hend⟩ := ih (sent + 1) (delivered + unit.length) s₂ _ es₂ j₂
            ⟨hreach.1, hreach₂⟩ hrun₂ hcalls₂ hnow hj₂ hsending
            (fun u hu => hunits u (List.mem_cons_of_mem _ hu)) (by omega) (by omega)
          refine ⟨fun e he => ?_, fun _ => hend (List.cons_ne_nil _ _)⟩
          rcases List.mem_cons.mp he with rfl | he
          · rfl
          · rcases List.mem_cons.mp he with rfl | he
            · rfl
            · exact haccepted e he

omit [Platform] in
/-- The messages of a unit are valid when those of its artifacts are positive and distinct. -/
theorem validMessageIds_of_unit {categories : List MediaCategory} {unit : List Nat}
    {messages : Nat → Int} (h : OneUnit categories unit)
    (hbound : ∀ i ∈ unit, 0 < messages i ∧ messages i ≤ i32Max)
    (hdistinct : ∀ i ∈ unit, ∀ k ∈ unit, messages i = messages k → i = k) :
    validMessageIds (unit.map messages) = true := by
  obtain ⟨hpos, hten, ⟨start, hunit⟩, -⟩ := h
  have hnodup : unit.Nodup := by
    rw [hunit]
    exact List.nodup_range' _
  have hne : unit.map messages ≠ [] := fun hnil => by
    rw [List.map_eq_nil_iff.mp hnil] at hpos
    cases hpos
  simp only [validMessageIds, Bool.and_eq_true, Bool.not_eq_true', List.isEmpty_eq_false_iff,
    List.all_eq_true, List.length_map, decide_eq_true_eq]
  refine ⟨⟨⟨hne, hten⟩, fun id hid => ?_⟩, ?_⟩
  · obtain ⟨i, hi, rfl⟩ := List.mem_map.mp hid
    exact hbound i hi
  · exact (List.nodup_map_iff_inj_on hnodup).mpr fun i hi k hk => hdistinct i hi k hk

/-- **Delivery units cover all artifacts and fit the journal.** The planner ends, its units are
the artifacts in their order, each holds one to ten neighbours of one category, and no two
neighbouring units are one. Begun and completed in order under a live claim, with fresh messages
for the artifacts, the batch and all its units are accepted and the operation succeeds. -/
theorem delivery_units_fit_journal (categories : List MediaCategory) (turns : Nat)
    (hturns : categories.length < turns) :
    ∃ units, planCategories turns categories = some units ∧
      units.flatten = List.range categories.length ∧
      (∀ u ∈ units, OneUnit categories u) ∧
      units.IsChain (fun a b => ¬ OneUnit categories (a ++ b)) ∧
      ∀ (s₀ s t : System) (es₀ es : List Event) (c : Claim) (o : OperationRow)
        (messages : Nat → Int), Reaches s₀ es₀ s → Run Step s es t →
        s.db.operation c.operationId = some o → c.Live t.now o →
        DownloaderSettings.within 1 100 categories.length = true →
        (∀ i < categories.length, 0 < messages i ∧ messages i ≤ i32Max) →
        (∀ i < categories.length, ∀ k < categories.length, messages i = messages k → i = k) →
        es.map callOf = (deliveryCalls c messages categories.length units).map some →
        (∀ e ∈ es, Accepted e) ∧
          ∃ o', t.db.operation c.operationId = some o' ∧ o'.status = .succeeded := by
  obtain ⟨units, hplan, hunits⟩ := planUnits_spec categories turns 0 [] (Nat.zero_le _) hturns
  have hflat : units.flatten = List.range categories.length := by
    rw [hunits.flatten, List.range_eq_range', Nat.sub_zero]
  refine ⟨units, hplan, hflat, hunits.all, hunits.apart, ?_⟩
  intro s₀ s t es₀ es c o messages hreach hrun hop hlive hcount hbound hdistinct hcalls
  have hin : ∀ u ∈ units, ∀ i ∈ u, i < categories.length := by
    intro u hu i hi
    rw [← List.mem_range, ← hflat]
    exact List.mem_flatten.mpr ⟨u, hu, hi⟩
  have htotal : (units.map List.length).sum = categories.length := by
    rw [← List.length_flatten, hflat, List.length_range]
  have hfew : units.length ≤ categories.length := by
    rw [← htotal, ← List.length_map List.length]
    refine List.length_le_sum_of_one_le _ fun n hn => ?_
    obtain ⟨u, hu, rfl⟩ := List.mem_map.mp hn
    exact (hunits.all u hu).some_artifact
  have hlimits : 1 ≤ categories.length ∧ categories.length ≤ 100 := by
    simpa only [DownloaderSettings.within, Bool.and_eq_true, decide_eq_true_eq] using hcount
  have hne : units ≠ [] := by
    rintro rfl
    rw [List.map_nil, List.sum_nil] at htotal
    omega
  have hjob : s.db.job c.operationId = some ⟨o, s.db.unitsOf c.operationId⟩ :=
    Db.job_eq_some.mpr ⟨hop, rfl⟩
  obtain ⟨clock, fresh, reply, es, u, rfl, hstep, hexec, hclock, hafter, hrest⟩ :=
    first_call hrun hcalls
  obtain ⟨db, j, hbegin, hj, hsending⟩ := beginDeliveryBatch_accepted hjob
    (hreach.sound.job hjob) hlive (hclock 0) hcount
  obtain ⟨rfl, rfl⟩ := flag_of_ok hbegin hexec
  obtain ⟨haccepted, hend⟩ := units_accepted units 0 0 u _ es j
    ⟨hreach.1, hreach.2.append (Run.single hstep)⟩ hafter hrest le_rfl hj hsending
    (fun w hw => ⟨(hunits.all w hw).some_artifact, (hunits.all w hw).at_most_ten,
      validMessageIds_of_unit (hunits.all w hw) (fun i hi => hbound i (hin w hw i hi))
        fun i hi k hk => hdistinct i (hin w hw i hi) k (hin w hw k hk)⟩)
    (by omega) (by omega)
  refine ⟨fun e he => ?_, hend hne⟩
  rcases List.mem_cons.mp he with rfl | he
  · rfl
  · exact haccepted e he

end

section

attribute [local instance] Scenario.platform

/-- A picture and a song are delivered in two units. -/
theorem two_units_delivered :
    ∃ o, (Storage.play (Storage.play .initial (Scenario.delivered.take 2)).2
        (Scenario.delivered.drop 2)).2.db.operation Scenario.operation = some o ∧
      o.status = .succeeded := by
  have hreach : Reaches .initial _ (Storage.play .initial (Scenario.delivered.take 2)).2 :=
    play_reaches (by decide)
  have hrun : Run Step (Storage.play .initial (Scenario.delivered.take 2)).2
      (Storage.play _ (Scenario.delivered.drop 2)).1
      (Storage.play _ (Scenario.delivered.drop 2)).2 :=
    Storage.play_run (by decide)
  obtain ⟨o, ho, hc⟩ := (Option.any_eq_true _ _).mp (by decide +kernel :
    ((Storage.play .initial (Scenario.delivered.take 2)).2.db.operation Scenario.operation).any
      (fun o => (Scenario.held Scenario.request 1 2).fence.holds 7 o && o.status == .running &&
        !o.cancelRequested) = true)
  simp only [Bool.and_eq_true, beq_iff_eq, Bool.not_eq_true'] at hc
  obtain ⟨units, hplan, -, -, -, hdeliver⟩ :=
    delivery_units_fit_journal [.visual, .audio] 3 (by decide)
  obtain rfl : [[0], [1]] = units :=
    Option.some.inj ((by decide : some [[0], [1]] = planCategories 3 [.visual, .audio]).trans hplan)
  exact (hdeliver _ _ _ _ _ (Scenario.held Scenario.request 1 2) o (fun i => 11 + i) hreach hrun ho
    ⟨by decide +kernel, hc.1.1, hc.1.2, hc.2⟩ (by decide) (by decide) (by decide) rfl).2

end

end YoinkCore.Downloads
