import YoinkCore.Identity.MembershipRuns

/-!
# What is known of members

Two runs over the same observations leave the same answers: who is present, which tags are
active and who is eligible, if every observation of each was timely or had been counted before.
-/

namespace YoinkCore.Identity

open Lib Domain

/-- Every observation is timely, or repeats one. -/
inductive InTurn : History → Prop
  | nil : InTurn []
  | snoc {h : History} {o : MembershipObservation} :
      InTurn h → (o ∈ h ∨ Timely h o) → InTurn (h ++ [o])

variable {o : MembershipObservation} {user : Int}

variable {h : History}

theorem InTurn.last (hturn : InTurn (h ++ [o])) : InTurn h ∧ (o ∈ h ∨ Timely h o) := by
  generalize hl : h ++ [o] = l at hturn
  cases hturn with
  | nil => simp at hl
  | snoc hturn ho =>
      obtain ⟨rfl, he⟩ := List.append_inj' hl rfl
      cases he
      exact ⟨hturn, ho⟩

/-- The order of the keys is one in which all come in their turn. -/
theorem inTurn_of_sorted (hsorted : h.Pairwise (·.key < ·.key)) : InTurn h := by
  induction h using List.reverseRecOn with
  | nil => exact .nil
  | append_singleton h o ih =>
      obtain ⟨hsorted, -, hlast⟩ := List.pairwise_append.mp hsorted
      exact .snoc (ih hsorted)
        (.inr (timely_of_last fun x hx => hlast x hx o List.mem_cons_self))

/-- Some call observed it. -/
def ObserveStep [ObservationWriter] (s : IdentityDb) (o : MembershipObservation) (t : IdentityDb) :
    Prop :=
  ∃ now outcome, s.observeMembership now o = .ok (outcome, t)

/-- Nothing was observed of the bot in the group. -/
structure Unobserved (source group : Int) (db : IdentityDb) : Prop where
  bot : db.bots.lookup (source, group) = none
  members : ∀ user, db.members.lookup (source, group, user) = none

/-- What observations in one group leave alone. -/
structure Elsewhere (source group : Int) (s t : IdentityDb) : Prop where
  groups : t.groups = s.groups
  suppressions : t.groupSuppressions = s.groupSuppressions
  bots : ∀ key, key ≠ (source, group) → t.bots.lookup key = s.bots.lookup key
  members : ∀ key, (key.1, key.2.1) ≠ (source, group) →
    t.members.lookup key = s.members.lookup key

section

variable [ObservationWriter] {source group now : Int} {s t u : IdentityDb} {h : History}
  {o : MembershipObservation} {outcome : MembershipOutcome}

omit [ObservationWriter] in
theorem Elsewhere.refl (s : IdentityDb) : Elsewhere source group s s :=
  ⟨rfl, rfl, fun _ _ => rfl, fun _ _ => rfl⟩

omit [ObservationWriter] in
theorem Elsewhere.trans (h : Elsewhere source group s t) (h' : Elsewhere source group t u) :
    Elsewhere source group s u where
  groups := h'.groups.trans h.groups
  suppressions := h'.suppressions.trans h.suppressions
  bots key hkey := (h'.bots key hkey).trans (h.bots key hkey)
  members key hkey := (h'.members key hkey).trans (h.members key hkey)

theorem Elsewhere.observe (hsource : o.sourceId = source) (hgroup : o.groupId = group)
    (hknown : (s.groups.lookup group).isSome = true)
    (hfree : s.groupSuppressions.contains group = false)
    (hobserve : s.observeMembership now o = .ok (outcome, t)) : Elsewhere source group s t := by
  rcases observe_eq_ok (hgroup ▸ hknown) (hgroup ▸ hfree) hobserve with
    ⟨rfl, -⟩ | ⟨-, happly⟩
  · exact Elsewhere.refl t
  · rcases subject_cases o with hbot | ⟨user, habout⟩
    · rw [apply_bot hbot happly]
      refine ⟨rfl, rfl, fun key hkey => ?_, fun _ _ => rfl⟩
      rw [IdentityDb.putBot, Dict.lookup_insert_eq, if_neg (by rw [hsource, hgroup]; exact hkey)]
    · obtain ⟨users, rfl⟩ := apply_user habout happly
      refine ⟨rfl, rfl, fun _ _ => rfl, fun key hkey => ?_⟩
      refine (Dict.lookup_insert_eq _ _ _ _).trans (if_neg fun heq => hkey ?_)
      rw [heq, hsource, hgroup]

theorem settled_of_unobserved (hs : Unobserved source group s) : Settled source group s [] where
  botNone _ _ hx := by cases hx
  bot r hr := by
    rw [hs.bot] at hr
    cases hr
  memberNone _ _ _ hx := by cases hx
  member user m hm := by
    rw [hs.members user] at hm
    cases hm

/-- **A run.** Observations that all come in their turn settle the rows. -/
theorem settled_run (hrun : Run ObserveStep s h t) (hs : Unobserved source group s)
    (hknown : (s.groups.lookup group).isSome = true)
    (hfree : s.groupSuppressions.contains group = false)
    (hof : ∀ o ∈ h, o.sourceId = source ∧ o.groupId = group)
    (hinj : KeyInj MembershipObservation.key h) (hturn : InTurn h) :
    Settled source group t h ∧ Elsewhere source group s t := by
  induction hrun with
  | nil => exact ⟨settled_of_unobserved hs, Elsewhere.refl s⟩
  | @snoc h t u o _ hstep ih =>
      obtain ⟨now, outcome, hobserve⟩ := hstep
      obtain ⟨hturn, ho⟩ := hturn.last
      obtain ⟨hsettled, helse⟩ := ih (fun o ho => hof o (List.mem_append_left _ ho))
        (fun x hx y hy => hinj x (List.mem_append_left _ hx) y (List.mem_append_left _ hy)) hturn
      obtain ⟨hsource, hgroup⟩ := hof o (List.mem_append_right _ List.mem_cons_self)
      have hknown' := helse.groups ▸ hknown
      have hfree' := helse.suppressions ▸ hfree
      exact ⟨hsettled.observe hsource hgroup hinj ho hknown' hfree' hobserve,
        helse.trans (Elsewhere.observe hsource hgroup hknown' hfree' hobserve)⟩

end

/-! ## Answers -/

/-- The answers about a bot and the members of a group. -/
structure SameAnswers (source group : Int) (t t' : IdentityDb) : Prop where
  bot : (t.bots.lookup (source, group)).map (·.present) =
    (t'.bots.lookup (source, group)).map (·.present)
  member : ∀ user, (t.members.lookup (source, group, user)).map (·.present) =
    (t'.members.lookup (source, group, user)).map (·.present)
  tags : ∀ user tag, tag ∈ t.activeTags user ↔ tag ∈ t'.activeTags user
  eligible : ∀ user, t.membershipEligible source group user =
    t'.membershipEligible source group user

/-- A tag of a membership is active. -/
def ActiveIn (db : IdentityDb) (source group user : Int) (tag : String) : Prop :=
  ∃ m b, db.members.lookup (source, group, user) = some m ∧
    db.bots.lookup (source, group) = some b ∧ (db.groups.lookup group).any (·.enabled) = true ∧
    m.present = true ∧ b.present = true ∧ m.generation = b.generation ∧
    m.tagGeneration = b.generation ∧
    (∀ other r, db.bots.lookup (other, group) = some r → r.present = true) ∧
    db.groupSuppressions.contains group = false ∧ m.tag = some tag

theorem mem_activeTags {db : IdentityDb} {tag : String} :
    tag ∈ db.activeTags user ↔ ∃ source group, ActiveIn db source group user tag := by
  unfold IdentityDb.activeTags ActiveIn
  rw [List.mem_filterMap]
  constructor
  · rintro ⟨⟨⟨source, group, member⟩, m⟩, hmem, h⟩
    dsimp only at h
    split at h
    · rename_i hall
      simp only [Bool.and_eq_true, decide_eq_true_eq, Bool.not_eq_true', Option.any_eq_true] at hall
      obtain ⟨⟨⟨⟨⟨rfl, hgroup⟩, hm⟩, b, hb, ⟨hpresent, hgen⟩, htag⟩, hothers⟩, hfree⟩ := hall
      refine ⟨source, group, m, b, AList.mem_lookup_iff.mpr hmem, hb, ?_, hm, hpresent, hgen, htag,
        fun other r hr => ?_, hfree, h⟩
      · exact (Option.any_eq_true _ _).mpr hgroup
      · by_contra habsent
        refine Bool.eq_false_iff.mp hothers (Dict.any_entries.mpr ⟨(other, group), r, hr, ?_⟩)
        simp [Bool.not_eq_true _ ▸ habsent]
    · cases h
  · rintro ⟨source, group, m, b, hm, hb, hgroup, hpresent, hbot, hgen, htag, hothers, hfree, h⟩
    refine ⟨⟨(source, group, user), m⟩, AList.mem_lookup_iff.mp hm, ?_⟩
    have hnone : (db.bots.entries.any fun b => decide (b.1.2 = group) && !b.2.present) = false := by
      refine Bool.eq_false_iff.mpr fun hany => ?_
      obtain ⟨⟨other, group'⟩, r, hr, hbad⟩ := Dict.any_entries.mp hany
      simp only [Bool.and_eq_true, decide_eq_true_eq, Bool.not_eq_true'] at hbad
      rw [hbad.1] at hr
      rw [hothers other r hr] at hbad
      cases hbad.2
    dsimp only
    rw [hgroup, hpresent, hb, hnone, hfree, h, Option.any_some, hbot, hgen, htag]
    simp

section

variable [ObservationWriter] {source group : Int} {s t t' : IdentityDb} {h : History}

/-- The presence of a subject is that of its last observation. -/
theorem Settled.presence_bot (hs : Settled source group t h)
    (hinj : KeyInj MembershipObservation.key h) {p : Bool} :
    (t.bots.lookup (source, group)).map (·.present) = some p ↔
      ∃ b, LastBot h b ∧ b.present = p := by
  cases hr : t.bots.lookup (source, group) with
  | none =>
      refine iff_of_false (nofun) fun ⟨b, hb, _⟩ => ?_
      have hnone := hs.botNone hr b hb.mem
      rw [hb.prop] at hnone
      cases hnone
  | some r =>
      obtain ⟨b, hb, -, -, hpresent⟩ := (hs.bot r hr).last
      rw [Option.map_some, Option.some.injEq, hpresent]
      exact ⟨fun hp => ⟨b, hb, hp⟩, fun ⟨c, hc, hp⟩ => hb.unique hinj hc ▸ hp⟩

theorem Settled.presence_member (hs : Settled source group t h)
    (hinj : KeyInj MembershipObservation.key h) {p : Bool} :
    (t.members.lookup (source, group, user)).map (·.present) = some p ↔
      ∃ x, LastAbout user h x ∧ x.present = p := by
  cases hm : t.members.lookup (source, group, user) with
  | none =>
      refine iff_of_false (nofun) fun ⟨x, hx, _⟩ => ?_
      have hnone := hs.memberNone user hm x hx.mem
      rw [hx.prop] at hnone
      cases hnone
  | some m =>
      obtain ⟨x, hx, -, -, hpresent, -⟩ := (hs.member user m hm).last
      rw [Option.map_some, Option.some.injEq, hpresent]
      exact ⟨fun hp => ⟨x, hx, hp⟩, fun ⟨y, hy, hp⟩ => hx.unique hinj hy ▸ hp⟩

variable {old : UpdateKey × String} {m : MemberRow} {r : BotRow}

/-- A member is confirmed if its last observation is of the current stay. -/
theorem Settled.confirmed (hs : Settled source group t h)
    (hinj : KeyInj MembershipObservation.key h)
    (hm : t.members.lookup (source, group, user) = some m)
    (hr : t.bots.lookup (source, group) = some r) {x : MembershipObservation}
    (hx : LastAbout user h x) : m.generation = r.generation ↔ InStay h x.key := by
  obtain ⟨y, hy, -, -, -, hdated⟩ := (hs.member user m hm).last
  rw [hr] at hdated
  rw [hx.unique hinj hy]
  exact hdated.2 r rfl

/-- A tag of the group is active if it was told last, and of the current stay. -/
theorem Settled.tag_iff (hs : Settled source group t h)
    (hinj : KeyInj MembershipObservation.key h) {tag : String}
    (hm : t.members.lookup (source, group, user) = some m)
    (hr : t.bots.lookup (source, group) = some r) :
    m.tagGeneration = r.generation ∧ m.tag = some tag ↔
      ∃ y, LastTagged user h y ∧ y.tagText = some tag ∧ InStay h y.key := by
  rcases (hs.member user m hm).tag with ⟨hnone, htag⟩ | ⟨y, hy, htag, hdated⟩
  · refine iff_of_false (fun h => ?_) fun ⟨y, hy, _⟩ => hnone y hy.mem hy.prop
    rw [htag] at h
    cases h.2
  · rw [hr] at hdated
    rw [hdated.2 r rfl, htag]
    constructor
    · exact fun ⟨hstay, htext⟩ => ⟨y, hy, htext, hstay⟩
    · rintro ⟨z, hz, htext, hstay⟩
      rw [hy.unique hinj hz]
      exact ⟨hstay, htext⟩

theorem Settled.bot_congr (hs : Settled source group t h) (hs' : Settled source group t' h)
    (hinj : KeyInj MembershipObservation.key h) :
    (t.bots.lookup (source, group)).map (·.present) =
      (t'.bots.lookup (source, group)).map (·.present) :=
  Option.ext fun _ => (hs.presence_bot hinj).trans (hs'.presence_bot hinj).symm

theorem Settled.member_congr (hs : Settled source group t h) (hs' : Settled source group t' h)
    (hinj : KeyInj MembershipObservation.key h) (user : Int) :
    (t.members.lookup (source, group, user)).map (·.present) =
      (t'.members.lookup (source, group, user)).map (·.present) :=
  Option.ext fun _ => (hs.presence_member hinj).trans (hs'.presence_member hinj).symm

omit [ObservationWriter] in
/-- Present bots are present in both. -/
theorem present_of_congr {k : Int × Int} {b : BotRow}
    (hsame : (t.bots.lookup k).map (·.present) = (t'.bots.lookup k).map (·.present))
    (hb : t.bots.lookup k = some b) :
    ∃ b', t'.bots.lookup k = some b' ∧ b'.present = b.present := by
  rw [hb] at hsame
  obtain ⟨b', hb', heq⟩ := Option.map_eq_some_iff.mp hsame.symm
  exact ⟨b', hb', heq⟩

theorem active_mono (hs : Settled source group t h) (hs' : Settled source group t' h)
    (hinj : KeyInj MembershipObservation.key h) (he : Elsewhere source group s t)
    (he' : Elsewhere source group s t') {src grp : Int} {tag : String}
    (hactive : ActiveIn t src grp user tag) : ActiveIn t' src grp user tag := by
  obtain ⟨m, b, hm, hb, hgroup, hpresent, hbot, hgen, htag, hothers, hfree, htext⟩ := hactive
  have hsame : ∀ k, (t'.bots.lookup k).map (·.present) = (t.bots.lookup k).map (·.present) := by
    intro k
    by_cases hk : k = (source, group)
    · rw [hk]
      exact hs'.bot_congr hs hinj
    · rw [he.bots k hk, he'.bots k hk]
  have hothers' : ∀ other r, t'.bots.lookup (other, grp) = some r → r.present = true := by
    intro other r hr
    obtain ⟨r', hr', heq⟩ := present_of_congr (hsame (other, grp)) hr
    exact heq ▸ hothers other r' hr'
  rw [he.groups, ← he'.groups] at hgroup
  rw [he.suppressions, ← he'.suppressions] at hfree
  by_cases hk : (src, grp) = (source, group)
  · obtain ⟨rfl, rfl⟩ := Prod.mk.inj hk
    obtain ⟨b', hb', hbeq⟩ := present_of_congr (hsame (src, grp)).symm hb
    have hmsame := hs.member_congr hs' hinj user
    rw [hm] at hmsame
    obtain ⟨m', hm', hmeq⟩ := Option.map_eq_some_iff.mp hmsame.symm
    obtain ⟨x, hx, -⟩ := (hs.member user m hm).last
    have hgen' : m'.generation = b'.generation :=
      (hs'.confirmed hinj hm' hb' hx).mpr ((hs.confirmed hinj hm hb hx).mp hgen)
    obtain ⟨htag', htext'⟩ := (hs'.tag_iff hinj hm' hb').mpr
      ((hs.tag_iff hinj hm hb).mp ⟨htag, htext⟩)
    exact ⟨m', b', hm', hb', hgroup, hmeq.trans hpresent, hbeq.trans hbot, hgen', htag', hothers',
      hfree, htext'⟩
  · refine ⟨m, b, ?_, ?_, hgroup, hpresent, hbot, hgen, htag, hothers', hfree, htext⟩
    · rw [he'.members _ hk, ← he.members _ hk]
      exact hm
    · rw [he'.bots _ hk, ← he.bots _ hk]
      exact hb

/-- Eligibility, by what the history says. -/
theorem Settled.eligible_iff (hs : Settled source group t h)
    (hinj : KeyInj MembershipObservation.key h) :
    t.membershipEligible source group user = true ↔
      (t.groups.lookup group).any (·.enabled) = true ∧
        t.groupSuppressions.contains group = false ∧ (∀ b, LastBot h b → b.present = true) ∧
        ∀ x, LastAbout user h x → x.present = true ∧ ((∃ b, LastBot h b) → InStay h x.key) := by
  have hbots : ((t.bots.lookup (source, group)).any fun b => !b.present) = false ↔
      ∀ b, LastBot h b → b.present = true := by
    have hp := hs.presence_bot hinj (p := false)
    constructor
    · intro hnone b hb
      by_contra habsent
      have h := hp.mpr ⟨b, hb, Bool.not_eq_true _ ▸ habsent⟩
      obtain ⟨r, hr, hr'⟩ := Option.map_eq_some_iff.mp h
      rw [hr, Option.any_some, hr'] at hnone
      cases hnone
    · intro hall
      refine Bool.eq_false_iff.mpr fun hany => ?_
      obtain ⟨r, hr, hr'⟩ := (Option.any_eq_true _ _).mp hany
      rw [Bool.not_eq_true'] at hr'
      obtain ⟨b, hb, hb'⟩ := hp.mp (by rw [hr, Option.map_some, hr'])
      rw [hall b hb] at hb'
      cases hb'
  have hlast : (∃ b, LastBot h b) ↔ ∃ r, t.bots.lookup (source, group) = some r := by
    constructor
    · rintro ⟨b, hb⟩
      cases hr : t.bots.lookup (source, group) with
      | none =>
          have hnone := hs.botNone hr b hb.mem
          rw [hb.prop] at hnone
          cases hnone
      | some r => exact ⟨r, rfl⟩
    · rintro ⟨r, hr⟩
      obtain ⟨b, hb, -⟩ := (hs.bot r hr).last
      exact ⟨b, hb⟩
  unfold IdentityDb.membershipEligible
  rw [Bool.and_eq_true, Bool.and_eq_true, Bool.and_eq_true, Bool.not_eq_true', Bool.not_eq_true',
    Bool.not_eq_true', hbots, and_assoc, and_assoc]
  refine and_congr_right fun _ => and_congr_right fun _ => and_congr_right fun _ => ?_
  rw [hlast]
  cases hm : t.members.lookup (source, group, user) with
  | none =>
      refine iff_of_true rfl fun x hx => ?_
      have hnone := hs.memberNone user hm x hx.mem
      rw [hx.prop] at hnone
      cases hnone
  | some m =>
      obtain ⟨x, hx, -, -, hpresent, -⟩ := (hs.member user m hm).last
      rw [Option.any_some, Bool.or_eq_false_iff, Bool.not_eq_false', hpresent]
      have hgen : ((t.bots.lookup (source, group)).any fun b =>
          decide (m.generation ≠ b.generation)) =
          false ↔ ((∃ r, t.bots.lookup (source, group) = some r) → InStay h x.key) := by
        cases hr : t.bots.lookup (source, group) with
        | none => exact iff_of_true rfl (by simp)
        | some r =>
            rw [Option.any_some, decide_eq_false_iff_not, not_not, hs.confirmed hinj hm hr hx]
            exact ⟨fun h _ => h, fun h => h ⟨r, rfl⟩⟩
      rw [hgen]
      constructor
      · intro hboth y hy
        rw [hy.unique hinj hx]
        exact hboth
      · exact fun hall => hall x hx

theorem Settled.sameAnswers (hs : Settled source group t h) (hs' : Settled source group t' h)
    (hinj : KeyInj MembershipObservation.key h) (he : Elsewhere source group s t)
    (he' : Elsewhere source group s t') : SameAnswers source group t t' where
  bot := hs.bot_congr hs' hinj
  member := hs.member_congr hs' hinj
  tags user tag := by
    rw [mem_activeTags, mem_activeTags]
    exact exists_congr fun src => exists_congr fun grp =>
      ⟨active_mono hs hs' hinj he he', active_mono hs' hs hinj he' he⟩
  eligible user := by
    rw [Bool.eq_iff_iff, hs.eligible_iff hinj, hs'.eligible_iff hinj, he.groups, he'.groups,
      he.suppressions, he'.suppressions]

/-! ## Fences -/

omit [ObservationWriter] in
/-- What lies in the stay of a bot that is present lies after all its absences. -/
theorem after_absence {k : UpdateKey} (hstay : InStay h k)
    (hpresent : ∀ b, LastBot h b → b.present = true) (hlatest : ∃ b, LastBot h b)
    {b : MembershipObservation} (hb : b ∈ h) (hbot : b.isBot = true) (habsent : b.present = false) :
    b.key < k := by
  obtain ⟨c, hc, hcbot, hlt, hsame⟩ := hstay
  obtain ⟨l, hl⟩ := hlatest
  by_contra hnot
  have hbc : b.present = c.present :=
    hsame b hb hbot (le_of_lt (lt_of_lt_of_le hlt (not_lt.mp hnot)))
  have hlc : l.present = c.present := hsame l hl.mem hl.prop (hl.le c hc hcbot)
  have htrue := hpresent l hl
  rw [hlc, ← hbc, habsent] at htrue
  cases htrue

/-- What a history tells of absences, stays and repetitions holds of the database. -/
structure Fenced (source group : Int) (h : History) (t : IdentityDb) : Prop where
  /-- An active tag was told after every absence of the bot. -/
  tag : ∀ user tag, ActiveIn t source group user tag →
    ∃ y ∈ h, y.about user = true ∧ y.tag = .known (some tag) ∧
      ∀ b ∈ h, b.isBot = true → b.present = false → b.key < y.key
  /-- An eligible member was observed after every absence of the bot. -/
  member : ∀ user, t.membershipEligible source group user = true → ∀ x, LastAbout user h x →
    ∀ b ∈ h, b.isBot = true → b.present = false → b.key < x.key
  /-- A member observed during the bot's stay is eligible. -/
  confirmed : ∀ user x, (t.groups.lookup group).any (·.enabled) = true → LastAbout user h x →
    x.present = true → (∀ b, LastBot h b → b.present = true) → InStay h x.key →
      t.membershipEligible source group user = true
  /-- What was observed before the last observation of its subject changes no row. -/
  stale : ∀ now o, o.sourceId = source → o.groupId = group → o.validate = .ok () →
    (∃ old, t.lastOrder o = some old ∧ o.key < old.1) → t.observeMembership now o = .ok (.stale, t)
  /-- What was observed already changes no row. -/
  repeated : ∀ now, ∀ o ∈ h, o.validate = .ok () →
    t.observeMembership now o = .ok (.stale, t) ∨ t.observeMembership now o = .ok (.duplicate, t)

theorem observe_stale {now : Int} (hvalid : o.validate = .ok ())
    (hfree : t.groupSuppressions.contains o.groupId = false) (hold : t.lastOrder o = some old)
    (hlt : o.key < old.1) : t.observeMembership now o = .ok (.stale, t) := by
  unfold IdentityDb.observeMembership IdentityDb.observeInTransaction
  rw [hvalid, hfree, hold, Option.any_some, decide_eq_true hlt]
  rfl

theorem observe_duplicate {now : Int} (hvalid : o.validate = .ok ())
    (hfree : t.groupSuppressions.contains o.groupId = false) (hold : t.lastOrder o = some old)
    (heq : o.key = old.1) (hpayload : old.2 = ObservationWriter.write o) :
    t.observeMembership now o = .ok (.duplicate, t) := by
  unfold IdentityDb.observeMembership IdentityDb.observeInTransaction
  rw [hvalid, hfree, hold, Option.any_some, Option.any_some, Option.any_some, decide_eq_true heq,
    decide_eq_true hpayload, decide_eq_false (by rw [heq]; exact lt_irrefl _)]
  rfl

theorem Settled.fenced (hs : Settled source group t h) (hinj : KeyInj MembershipObservation.key h)
    (hof : ∀ o ∈ h, o.sourceId = source ∧ o.groupId = group)
    (hfree : t.groupSuppressions.contains group = false) : Fenced source group h t where
  tag user tag hactive := by
    obtain ⟨m, r, hm, hr, -, -, hpresent, -, htag, -, -, htext⟩ := hactive
    obtain ⟨y, hy, hytext, hstay⟩ := (hs.tag_iff hinj hm hr).mp ⟨htag, htext⟩
    obtain ⟨l, hl, hlpresent⟩ := (hs.presence_bot hinj (p := true)).mp (by
      rw [hr, Option.map_some, hpresent])
    refine ⟨y, hy.mem, hy.prop.1, ?_, fun b hb hbot habsent => ?_⟩
    · unfold MembershipObservation.tagText at hytext
      split at hytext
      · cases hytext
      · rename_i text hknown
        rw [hknown, hytext]
    · exact after_absence hstay (fun b hb => hb.unique hinj hl ▸ hlpresent) ⟨l, hl⟩ hb hbot habsent
  member user heligible x hx b hb hbot habsent := by
    obtain ⟨-, -, hpresent, hmember⟩ := (hs.eligible_iff hinj).mp heligible
    have hlatest : ∃ l, LastBot h l := by
      cases hr : t.bots.lookup (source, group) with
      | none =>
          have hnone := hs.botNone hr b hb
          rw [hbot] at hnone
          cases hnone
      | some r =>
          obtain ⟨l, hl, -⟩ := (hs.bot r hr).last
          exact ⟨l, hl⟩
    exact after_absence ((hmember x hx).2 hlatest) hpresent hlatest hb hbot habsent
  confirmed user x hon hx hpresent hbots hstay := by
    refine (hs.eligible_iff hinj).mpr ⟨hon, hfree, hbots, fun y hy => ?_⟩
    rw [hy.unique hinj hx]
    exact ⟨hpresent, fun _ => hstay⟩
  stale now o _ hgroup hvalid hold := by
    obtain ⟨old, hold, hlt⟩ := hold
    exact observe_stale hvalid (hgroup ▸ hfree) hold hlt
  repeated now o ho hvalid := by
    obtain ⟨hsource, hgroup⟩ := hof o ho
    obtain ⟨old, hold, hle⟩ := hs.counted hsource hgroup ho
    rcases lt_or_eq_of_le hle with hlt | heq
    · exact .inl (observe_stale hvalid (hgroup ▸ hfree) hold hlt)
    · obtain ⟨x, hx, hkey, hpayload, -⟩ := hs.order hsource hgroup hold
      rw [hinj x hx o ho (hkey.trans heq.symm)] at hpayload
      exact .inr (observe_duplicate hvalid (hgroup ▸ hfree) hold heq hpayload)

end

/-- **Order of delivery.** Observations of which each is timely, or repeats one, leave the answers
that they leave in the order of their keys. -/
theorem delivery_order [ObservationWriter] (source group : Int) (s t t' : IdentityDb)
    (es chron : History) (hs : Unobserved source group s)
    (hknown : (s.groups.lookup group).isSome = true)
    (hfree : s.groupSuppressions.contains group = false)
    (hof : ∀ o ∈ es, o.sourceId = source ∧ o.groupId = group)
    (hkeys : KeyInj MembershipObservation.key es) (hrun : Run ObserveStep s es t)
    (hsame : ∀ o, o ∈ chron ↔ o ∈ es) (hsorted : chron.Pairwise (·.key < ·.key))
    (hchron : Run ObserveStep s chron t') (hturn : InTurn es) :
    SameAnswers source group t t' ∧ Fenced source group es t := by
  obtain ⟨hsettled, helse⟩ := settled_run hrun hs hknown hfree hof hkeys hturn
  obtain ⟨hsettled', helse'⟩ := settled_run hchron hs hknown hfree
    (fun o ho => hof o ((hsame o).mp ho))
    (fun x hx y hy => hkeys x ((hsame x).mp hx) y ((hsame y).mp hy)) (inTurn_of_sorted hsorted)
  exact ⟨hsettled.sameAnswers (hsettled'.congr hsame) hkeys helse helse',
    hsettled.fenced hkeys hof (helse.suppressions ▸ hfree)⟩

section

/-- Texts that name the update. -/
@[reducible] def updateWriter : ObservationWriter := ⟨fun o => toString o.updateId⟩

attribute [local instance] updateWriter

/-- One enabled group, of which nothing was observed. -/
def quietGroup : IdentityDb where
  users := ∅
  permissions := ∅
  settings := ∅
  groups := (∅ : Dict Int GroupRow).insert (-1) ⟨none, true, .user, true, false, none, none⟩
  policies := ∅
  threads := []
  bots := ∅
  members := ∅
  groupSuppressions := []
  featureSuppressions := []
  byok := ∅
  policyGroup := nofun

/-- The bot joins. -/
def joining : MembershipObservation :=
  ⟨9, 1, 1000000000, -1, none, .bot, .member, true, .unknown⟩

/-- A member is seen with a tag. -/
def memberSeen : MembershipObservation :=
  ⟨9, 2, 3000000000, -1, none, .user ⟨7, none, none, none⟩, .member, true, .known (some "vip")⟩

/-- The bot is made an administrator. -/
def promotion : MembershipObservation :=
  ⟨9, 3, 5000000000, -1, none, .bot, .administrator, true, .unknown⟩

/-- The database after an observation at instant 0. -/
def observed (s : IdentityDb) (o : MembershipObservation) : IdentityDb :=
  match s.observeMembership 0 o with
  | .ok (_, t) => t
  | .error _ => s

variable {s : IdentityDb}

theorem observed_step (h : (s.observeMembership 0 o).isOk = true) :
    ObserveStep s o (observed s o) := by
  unfold observed
  split
  · rename_i outcome t hok
    exact ⟨0, outcome, hok⟩
  · rename_i e herror
    rw [herror] at h
    cases h

theorem observed_run (es : History)
    (h : (es.foldl (fun (ok, s) o => (ok && (s.observeMembership 0 o).isOk, observed s o))
      (true, s)).1 = true) : Run ObserveStep s es (es.foldl observed s) := by
  have hall : ∀ (es : History) (s : IdentityDb) (ok : Bool),
      (es.foldl (fun (ok, s) o => (ok && (s.observeMembership 0 o).isOk, observed s o))
        (ok, s)).1 = true → ok = true ∧ Run ObserveStep s es (es.foldl observed s) := by
    intro es
    induction es with
    | nil => exact fun s ok h => ⟨h, .nil⟩
    | cons o es ih =>
        intro s ok h
        obtain ⟨hok, hrun⟩ := ih _ _ h
        obtain ⟨hok, hstep⟩ := Bool.and_eq_true_iff.mp hok
        exact ⟨hok, (Run.single (observed_step hstep)).append hrun⟩
  exact (hall es s true h).2

theorem unobserved_quietGroup : Unobserved 9 (-1) quietGroup := ⟨rfl, fun _ => rfl⟩

/-- In their turn, with one of them repeated. -/
theorem repeated_delivery_order :
    SameAnswers 9 (-1) ([joining, memberSeen, promotion, memberSeen].foldl observed quietGroup)
        ([joining, memberSeen, promotion].foldl observed quietGroup) ∧
      Fenced 9 (-1) [joining, memberSeen, promotion, memberSeen]
        ([joining, memberSeen, promotion, memberSeen].foldl observed quietGroup) := by
  have hsorted : [joining, memberSeen, promotion].Pairwise (·.key < ·.key) := by decide
  refine delivery_order 9 (-1) quietGroup _ _ [joining, memberSeen, promotion, memberSeen]
    [joining, memberSeen, promotion] unobserved_quietGroup rfl rfl ?_ ?_
    (observed_run _ (by decide)) ?_ hsorted (observed_run _ (by decide))
    (.snoc (inTurn_of_sorted hsorted) (.inl (by simp)))
  · decide
  · unfold KeyInj
    decide
  · intro o
    simp only [List.mem_cons, List.not_mem_nil, or_false]
    grind

/-- The member who is seen late counts as not confirmed, since the bot was made administrator. -/
theorem late_member_unconfirmed :
    Run ObserveStep quietGroup [joining, promotion, memberSeen]
        ([joining, promotion, memberSeen].foldl observed quietGroup) ∧
      Run ObserveStep quietGroup [joining, memberSeen, promotion]
        ([joining, memberSeen, promotion].foldl observed quietGroup) ∧
      ([joining, promotion, memberSeen].foldl observed quietGroup).membershipEligible 9 (-1) 7 =
        false ∧
      ([joining, memberSeen, promotion].foldl observed quietGroup).membershipEligible 9 (-1) 7 =
        true ∧
      ([joining, promotion, memberSeen].foldl observed quietGroup).activeTags 7 = [] ∧
      ([joining, memberSeen, promotion].foldl observed quietGroup).activeTags 7 = ["vip"] := by
  refine ⟨observed_run _ (by decide), observed_run _ (by decide), ?_, ?_, ?_, ?_⟩ <;> decide

end

end YoinkCore.Identity
