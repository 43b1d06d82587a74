import YoinkCore.Identity.MembershipOrder

/-!
# Membership over runs

While observations are timely, the rows say what the history says: which observation was the
last of each subject, and whether it is of the current stay of the bot.
-/

namespace YoinkCore.Identity

open Lib Domain

/-- A generation tells whether an instant is of the current stay of the bot. -/
def Dated (bot : Option BotRow) (h : History) (generation : Nat) (k : UpdateKey) : Prop :=
  generation ≤ (bot.map (·.generation)).getD 0 ∧
    ∀ r, bot = some r → (generation = r.generation ↔ InStay h k)

section

variable [ObservationWriter] {source group : Int}

/-- The row of the bot is its last observation. -/
structure BotSettled (h : History) (r : BotRow) : Prop where
  last : ∃ b, LastBot h b ∧ toLex (r.occurredAt, r.updateId) = b.key ∧
    r.payload = ObservationWriter.write b ∧ r.present = b.present
  started : 1 ≤ r.generation

/-- The row of a member is the last observation, and the last tag that was told. -/
structure MemberSettled (bot : Option BotRow) (h : History) (user : Int) (m : MemberRow) :
    Prop where
  last : ∃ x, LastAbout user h x ∧ toLex (m.occurredAt, m.updateId) = x.key ∧
    m.payload = ObservationWriter.write x ∧ m.present = x.present ∧ Dated bot h m.generation x.key
  tag : (∀ x ∈ h, ¬ (x.about user = true ∧ x.knownTag = true)) ∧ m.tag = none ∨
    ∃ y, LastTagged user h y ∧ m.tag = y.tagText ∧ Dated bot h m.tagGeneration y.key

/-- The rows of one bot in one group are settled by a history. -/
structure Settled (source group : Int) (db : IdentityDb) (h : History) : Prop where
  botNone : db.bots.lookup (source, group) = none → ∀ x ∈ h, x.isBot = false
  bot : ∀ r, db.bots.lookup (source, group) = some r → BotSettled h r
  memberNone : ∀ user, db.members.lookup (source, group, user) = none →
    ∀ x ∈ h, x.about user = false
  member : ∀ user m, db.members.lookup (source, group, user) = some m →
    MemberSettled (db.bots.lookup (source, group)) h user m

variable {h h' : History} {s t : IdentityDb} {o : MembershipObservation} {bot : Option BotRow}
  {now : Int} {outcome : MembershipOutcome}

omit [ObservationWriter] in
theorem Dated.congr {generation : Nat} {k : UpdateKey} (hstay : InStay h k ↔ InStay h' k)
    (hd : Dated bot h generation k) : Dated bot h' generation k :=
  ⟨hd.1, fun r hr => (hd.2 r hr).trans hstay⟩

theorem BotSettled.congr {r : BotRow} (hmem : ∀ x, x ∈ h ↔ x ∈ h') (hs : BotSettled h r) :
    BotSettled h' r := by
  obtain ⟨b, hb, hrest⟩ := hs.last
  exact ⟨⟨b, hb.congr hmem, hrest⟩, hs.started⟩

theorem MemberSettled.congr {user : Int} {m : MemberRow} (hmem : ∀ x, x ∈ h ↔ x ∈ h')
    (hs : MemberSettled bot h user m) : MemberSettled bot h' user m := by
  obtain ⟨x, hx, hkey, hpayload, hpresent, hdated⟩ := hs.last
  refine ⟨⟨x, hx.congr hmem, hkey, hpayload, hpresent, hdated.congr (since_congr hmem)⟩, ?_⟩
  rcases hs.tag with ⟨hnone, htag⟩ | ⟨y, hy, htag, hdated⟩
  · exact .inl ⟨fun x hx => hnone x ((hmem x).mpr hx), htag⟩
  · exact .inr ⟨y, hy.congr hmem, htag, hdated.congr (since_congr hmem)⟩

/-- Only the elements of a history matter. -/
theorem Settled.congr (hmem : ∀ x, x ∈ h ↔ x ∈ h') (hs : Settled source group s h) :
    Settled source group s h' where
  botNone hnone x hx := hs.botNone hnone x ((hmem x).mpr hx)
  bot r hr := (hs.bot r hr).congr hmem
  memberNone user hnone x hx := hs.memberNone user hnone x ((hmem x).mpr hx)
  member user m hm := (hs.member user m hm).congr hmem

/-! ## What was counted before -/

omit [ObservationWriter] in
theorem lastOrder_bot (hbot : o.isBot = true) :
    s.lastOrder o = (s.bots.lookup (o.sourceId, o.groupId)).map fun r =>
      (toLex (r.occurredAt, r.updateId), r.payload) := by
  unfold MembershipObservation.isBot at hbot
  unfold IdentityDb.lastOrder
  split
  · rfl
  · rename_i p hp
    rw [hp] at hbot
    cases hbot

omit [ObservationWriter] in
theorem lastOrder_about {user : Int} (habout : o.about user = true) :
    s.lastOrder o = (s.members.lookup (o.sourceId, o.groupId, user)).map fun r =>
      (toLex (r.occurredAt, r.updateId), r.payload) := by
  unfold MembershipObservation.about at habout
  unfold IdentityDb.lastOrder
  split
  · rename_i hp
    rw [hp] at habout
    cases habout
  · rename_i p hp
    rw [hp] at habout
    rw [of_decide_eq_true habout]

omit [ObservationWriter] in
theorem subject_cases (o : MembershipObservation) :
    o.isBot = true ∨ ∃ user, o.about user = true := by
  unfold MembershipObservation.isBot MembershipObservation.about
  cases o.subject with
  | bot => exact .inl rfl
  | user p => exact .inr ⟨p.userId, decide_eq_true rfl⟩

/-- The row of an observation's subject has the key and the text of an element of the history. -/
theorem Settled.order (hs : Settled source group s h) (hsource : o.sourceId = source)
    (hgroup : o.groupId = group) {old : UpdateKey × String} (hold : s.lastOrder o = some old) :
    ∃ x ∈ h, x.key = old.1 ∧ old.2 = ObservationWriter.write x ∧
      (o.isBot = true → LastBot h x) ∧ ∀ user, o.about user = true → LastAbout user h x := by
  rcases subject_cases o with hbot | ⟨user, habout⟩
  · rw [lastOrder_bot hbot, hsource, hgroup] at hold
    obtain ⟨r, hr, rfl⟩ := Option.map_eq_some_iff.mp hold
    obtain ⟨b, hb, hkey, hpayload, -⟩ := (hs.bot r hr).last
    refine ⟨b, hb.mem, hkey.symm, hpayload, fun _ => hb, fun user habout => ?_⟩
    rw [not_bot_of_about habout] at hbot
    cases hbot
  · rw [lastOrder_about habout, hsource, hgroup] at hold
    obtain ⟨m, hm, rfl⟩ := Option.map_eq_some_iff.mp hold
    obtain ⟨x, hx, hkey, hpayload, -⟩ := (hs.member user m hm).last
    refine ⟨x, hx.mem, hkey.symm, hpayload, fun hbot => ?_, fun other hother => ?_⟩
    · rw [not_bot_of_about habout] at hbot
      cases hbot
    · exact about_unique habout hother ▸ hx

/-- What was counted is not counted again. -/
theorem Settled.counted (hs : Settled source group s h) (hsource : o.sourceId = source)
    (hgroup : o.groupId = group) (ho : o ∈ h) :
    ∃ old, s.lastOrder o = some old ∧ o.key ≤ old.1 := by
  cases hold : s.lastOrder o with
  | none =>
      rcases subject_cases o with hbot | ⟨user, habout⟩
      · rw [lastOrder_bot hbot, hsource, hgroup, Option.map_eq_none_iff] at hold
        rw [hs.botNone hold o ho] at hbot
        cases hbot
      · rw [lastOrder_about habout, hsource, hgroup, Option.map_eq_none_iff] at hold
        rw [hs.memberNone user hold o ho] at habout
        cases habout
  | some old =>
      obtain ⟨x, -, hkey, -, hlastBot, hlastAbout⟩ := hs.order hsource hgroup hold
      refine ⟨old, rfl, hkey ▸ ?_⟩
      rcases subject_cases o with hbot | ⟨user, habout⟩
      · exact (hlastBot hbot).le o ho hbot
      · exact (hlastAbout user habout).le o ho habout

/-! ## One observation -/

omit [ObservationWriter] in
/-- An observation of a user is none of the stay. -/
theorem stay_snoc_user {user : Int} (habout : o.about user = true) (k : UpdateKey) :
    InStay h k ↔ InStay (h ++ [o]) k := by
  have hnot : ¬ o.isBot = true := by
    rw [not_bot_of_about habout]
    exact Bool.false_ne_true
  exact (since_snoc_of_not (P := fun x : MembershipObservation => x.isBot = true) hnot).symm

/-- What stays behind the row of its subject is left out of account. -/
theorem Settled.late (hs : Settled source group s h) (hsource : o.sourceId = source)
    (hgroup : o.groupId = group) (htimely : Timely h o) {old : UpdateKey × String}
    (hold : s.lastOrder o = some old) (hlt : o.key < old.1) :
    Settled source group s (h ++ [o]) := by
  obtain ⟨x₀, hx₀, hkey₀, -, hlastBot, hlastAbout⟩ := hs.order hsource hgroup hold
  have hlt₀ : o.key < x₀.key := hkey₀ ▸ hlt
  rcases subject_cases o with hbot | ⟨user, habout⟩
  -- the update is of the bot: no stay changes by an update that is late
  · have hlate := htimely.late hbot ⟨x₀, hx₀, (hlastBot hbot).prop, hlt₀⟩
    have hnot : ∀ other, o.about other = false := by
      intro other
      refine Bool.eq_false_iff.mpr fun h => ?_
      rw [not_bot_of_about h] at hbot
      cases hbot
    rw [lastOrder_bot hbot, hsource, hgroup] at hold
    obtain ⟨r₀, hr₀, -⟩ := Option.map_eq_some_iff.mp hold
    refine ⟨fun hnone => ?_, fun r hr => ?_, fun other hnone x hx => ?_, fun other m hm => ?_⟩
    · rw [hr₀] at hnone
      cases hnone
    · obtain ⟨b, hb, hrest⟩ := (hs.bot r hr).last
      exact ⟨⟨b, hb.snoc fun _ =>
        le_of_lt (lt_of_lt_of_le hlt₀ (hb.le x₀ hx₀ (hlastBot hbot).prop)),
        hrest⟩, (hs.bot r hr).started⟩
    · rcases List.mem_append.mp hx with hx | hx
      · exact hs.memberNone other hnone x hx
      · rw [List.mem_singleton.mp hx]
        exact hnot other
    · obtain ⟨⟨x, hx, hkey, hpayload, hpresent, hdated⟩, htag⟩ := hs.member other m hm
      refine ⟨⟨x, hx.snoc fun h => ?_, hkey, hpayload, hpresent,
        hdated.congr (hlate other x (.inl hx))⟩, ?_⟩
      · rw [hnot other] at h
        cases h
      · rcases htag with ⟨hnone, htag⟩ | ⟨y, hy, htag, hdated⟩
        · refine .inl ⟨fun x hx => ?_, htag⟩
          rcases List.mem_append.mp hx with hx | hx
          · exact hnone x hx
          · rw [List.mem_singleton.mp hx, hnot other]
            exact fun h => by cases h.1
        · refine .inr ⟨y, hy.snoc fun h => ?_, htag, hdated.congr (hlate other y (.inr hy))⟩
          rw [hnot other] at h
          cases h.1
  -- the update is of a member: a later one of the same member is there
  · have hnotBot : ¬ o.isBot = true := by rw [not_bot_of_about habout]; exact Bool.false_ne_true
    have hstay : ∀ k, InStay h k ↔ InStay (h ++ [o]) k := stay_snoc_user habout
    rw [lastOrder_about habout, hsource, hgroup] at hold
    obtain ⟨m₀, hm₀, -⟩ := Option.map_eq_some_iff.mp hold
    refine ⟨fun hnone x hx => ?_, fun r hr => ?_, fun other hnone x hx => ?_, fun other m hm => ?_⟩
    · rcases List.mem_append.mp hx with hx | hx
      · exact hs.botNone hnone x hx
      · rw [List.mem_singleton.mp hx]
        exact not_bot_of_about habout
    · obtain ⟨b, hb, hrest⟩ := (hs.bot r hr).last
      exact ⟨⟨b, hb.snoc fun h => absurd h hnotBot, hrest⟩, (hs.bot r hr).started⟩
    · rcases List.mem_append.mp hx with hx | hx
      · exact hs.memberNone other hnone x hx
      · rw [List.mem_singleton.mp hx]
        refine Bool.eq_false_iff.mpr fun h => ?_
        rw [about_unique h habout, hm₀] at hnone
        cases hnone
    · obtain ⟨⟨x, hx, hkey, hpayload, hpresent, hdated⟩, htag⟩ := hs.member other m hm
      refine ⟨⟨x, hx.snoc fun h => ?_, hkey, hpayload, hpresent, hdated.congr (hstay _)⟩, ?_⟩
      · exact le_of_lt (lt_of_lt_of_le hlt₀ (hx.le x₀ hx₀ (hlastAbout other h).prop))
      · have hovertaken : ∀ user, o.about user = true ∧ o.knownTag = true → ∃ y ∈ h,
            (y.about user = true ∧ y.knownTag = true) ∧ o.key < y.key := by
          intro user ⟨habout, hknown⟩
          obtain ⟨y, hy, h1, h2, h3⟩ := htimely.tag user habout hknown
            ⟨x₀, hx₀, (hlastAbout user habout).prop, hlt₀⟩
          exact ⟨y, hy, ⟨h1, h2⟩, h3⟩
        rcases htag with ⟨hnone, htag⟩ | ⟨y, hy, htag, hdated⟩
        · refine .inl ⟨fun x hx => ?_, htag⟩
          rcases List.mem_append.mp hx with hx | hx
          · exact hnone x hx
          · rw [List.mem_singleton.mp hx]
            intro h
            obtain ⟨y, hy, hy', -⟩ := hovertaken other h
            exact hnone y hy hy'
        · refine .inr ⟨y, hy.snoc fun h => ?_, htag, hdated.congr (hstay _)⟩
          obtain ⟨z, hz, hz', hlt⟩ := hovertaken other h
          exact le_of_lt (lt_of_lt_of_le hlt (hy.le z hz hz'))

/-- The last observation of the bot dates what is known of the members anew. -/
theorem Dated.nextBot (hs : Settled source group s h) (hsource : o.sourceId = source)
    (hgroup : o.groupId = group) (hinj : KeyInj MembershipObservation.key h)
    (htimely : Timely h o) (hbot : o.isBot = true)
    (hlater : ∀ b ∈ h, b.isBot = true → b.key < o.key)
    {generation : Nat} {x : MembershipObservation} (hx : x ∈ h) (hxbot : x.isBot = false)
    (hd : Dated (s.bots.lookup (source, group)) h generation x.key) :
    Dated (some (nextBot s o)) (h ++ [o]) generation x.key := by
  unfold Identity.nextBot Dated
  rw [hsource, hgroup]
  dsimp only [Option.map_some, Option.getD_some]
  by_cases hchange : (s.bots.lookup (source, group)).map (·.present) ≠ some o.present
  · rw [if_pos hchange]
    refine ⟨Nat.le_succ_of_le hd.1, fun r hr => ?_⟩
    cases hr
    refine iff_of_false (by have := hd.1; dsimp only; omega) ?_
    have hother : ∀ b, LastBot h b → o.present ≠ b.present := by
      intro b hb heq
      cases hrow : s.bots.lookup (source, group) with
      | none =>
          have hnone := hs.botNone hrow b hb.mem
          rw [hb.prop] at hnone
          cases hnone
      | some r =>
          obtain ⟨b', hb', -, -, hpresent⟩ := (hs.bot r hrow).last
          rw [hrow, Option.map_some, hpresent, hb'.unique hinj hb, heq] at hchange
          exact hchange rfl
    refine not_since_snoc hother (fun ⟨c, hc, hcbot⟩ => ?_) hbot hlater
      (le_of_lt (htimely.change hbot hlater hother x hx hxbot))
    cases hrow : s.bots.lookup (source, group) with
    | none =>
        have hnone := hs.botNone hrow c hc
        rw [hcbot] at hnone
        cases hnone
    | some r =>
        obtain ⟨b, hb, -⟩ := (hs.bot r hrow).last
        exact ⟨b, hb⟩
  · rw [if_neg hchange]
    refine ⟨hd.1, fun r hr => ?_⟩
    cases hr
    rw [not_not] at hchange
    obtain ⟨r, hrow, hpresent⟩ := Option.map_eq_some_iff.mp hchange
    obtain ⟨b, hb, -, -, hpresent'⟩ := (hs.bot r hrow).last
    have hstay : InStay (h ++ [o]) x.key ↔ InStay h x.key :=
      since_snoc_same hinj hb hbot (hlater b hb.mem hb.prop) (hpresent.symm.trans hpresent')
    rw [hstay, hrow]
    exact hd.2 r hrow

theorem Settled.next_bot (hs : Settled source group s h) (hsource : o.sourceId = source)
    (hgroup : o.groupId = group) (hinj : KeyInj MembershipObservation.key h)
    (htimely : Timely h o) (hbot : o.isBot = true)
    (hlast : ∀ old, s.lastOrder o = some old → old.1 < o.key) :
    Settled source group (s.putBot o.sourceId o.groupId (nextBot s o)) (h ++ [o]) := by
  -- the guard compares with the last update of the bot, so all are earlier
  have hlater : ∀ b ∈ h, b.isBot = true → b.key < o.key := by
    intro b hb hbbot
    cases hold : s.lastOrder o with
    | none =>
        rw [lastOrder_bot hbot, hsource, hgroup, Option.map_eq_none_iff] at hold
        rw [hs.botNone hold b hb] at hbbot
        cases hbbot
    | some old =>
        obtain ⟨x, -, hkey, -, hlastBot, -⟩ := hs.order hsource hgroup hold
        exact lt_of_le_of_lt ((hlastBot hbot).le b hb hbbot) (hkey ▸ hlast old hold)
  have hnot : ∀ user, o.about user = false := by
    intro user
    refine Bool.eq_false_iff.mpr fun h => ?_
    rw [not_bot_of_about h] at hbot
    cases hbot
  have hlookup : (s.putBot o.sourceId o.groupId (nextBot s o)).bots.lookup (source, group) =
      some (nextBot s o) := by
    rw [IdentityDb.putBot, Dict.lookup_insert_eq, if_pos (by rw [hsource, hgroup])]
  refine ⟨fun hnone => ?_, fun r hr => ?_, fun user hnone x hx => ?_, fun user m hm => ?_⟩
  · rw [hlookup] at hnone
    cases hnone
  · rw [hlookup] at hr
    cases hr
    refine ⟨⟨o, Latest.snoc_last hbot fun c hc hp => le_of_lt (hlater c hc hp), rfl, rfl, rfl⟩, ?_⟩
    unfold nextBot
    dsimp only
    split
    · exact Nat.succ_pos _
    · rename_i hsame
      rw [not_not, hsource, hgroup] at hsame
      obtain ⟨r, hrow, -⟩ := Option.map_eq_some_iff.mp hsame
      rw [hsource, hgroup, hrow]
      exact (hs.bot r hrow).started
  · rcases List.mem_append.mp hx with hx | hx
    · exact hs.memberNone user hnone x hx
    · rw [List.mem_singleton.mp hx]
      exact hnot user
  · rw [hlookup]
    obtain ⟨⟨x, hx, hkey, hpayload, hpresent, hdated⟩, htag⟩ := hs.member user m hm
    refine ⟨⟨x, hx.snoc fun h => ?_, hkey, hpayload, hpresent,
      hdated.nextBot hs hsource hgroup hinj htimely hbot hlater hx.mem (not_bot_of_about hx.prop)⟩,
        ?_⟩
    · rw [hnot user] at h
      cases h
    · rcases htag with ⟨hnone, htag⟩ | ⟨y, hy, htag, hdated⟩
      · refine .inl ⟨fun x hx => ?_, htag⟩
        rcases List.mem_append.mp hx with hx | hx
        · exact hnone x hx
        · rw [List.mem_singleton.mp hx, hnot user]
          exact fun h => by cases h.1
      · refine .inr
          ⟨y, hy.snoc fun h => ?_, htag, hdated.nextBot hs hsource hgroup hinj htimely hbot
          hlater hy.mem (not_bot_of_about hy.prop.1)⟩
        rw [hnot user] at h
        cases h.1

/-- The last observation of a user is dated by the bot's row as it stands. -/
theorem Dated.nextMember (hs : Settled source group s h) (hsource : o.sourceId = source)
    (hgroup : o.groupId = group) (hinj : KeyInj MembershipObservation.key (h ++ [o]))
    (htimely : Timely h o) {user : Int} (habout : o.about user = true)
    (hlater : ∀ x ∈ h, x.about user = true → x.key < o.key) :
    Dated (s.bots.lookup (source, group)) (h ++ [o]) (nextMember s o).generation o.key := by
  unfold Identity.nextMember Dated
  rw [hsource, hgroup]
  dsimp only
  cases hrow : s.bots.lookup (source, group) with
  | none => exact ⟨Nat.le_refl _, nofun⟩
  | some r =>
      obtain ⟨⟨b, hb, hkey, -⟩, hstarted⟩ := hs.bot r hrow
      simp only [Option.any_some, hkey, Option.map_some, Option.getD_some, decide_eq_true_eq]
      by_cases hlt : o.key < b.key
      · rw [if_pos hlt]
        refine ⟨Nat.sub_le _ _, fun r' hr' => ?_⟩
        cases hr'
        refine iff_of_false (by omega) fun hin => ?_
        exact htimely.stay user habout hlater ⟨b, hb.mem, hb.prop, hlt⟩
          ((stay_snoc_user habout o.key).mpr hin)
      · rw [if_neg hlt]
        refine ⟨Nat.le_refl _, fun r' hr' => ?_⟩
        cases hr'
        refine iff_of_true rfl ((stay_snoc_user habout o.key).mp ?_)
        refine hb.since (fun x hx y hy => hinj x (List.mem_append_left _ hx) y
          (List.mem_append_left _ hy)) (lt_of_le_of_ne (not_lt.mp hlt) fun heq => ?_)
        have hsame := hinj b (List.mem_append_left _ hb.mem) o
          (List.mem_append_right _ List.mem_cons_self) heq
        have hbot := hb.prop
        rw [hsame, not_bot_of_about habout] at hbot
        cases hbot

theorem Settled.next_user (hs : Settled source group s h) (hsource : o.sourceId = source)
    (hgroup : o.groupId = group) (hinj : KeyInj MembershipObservation.key (h ++ [o]))
    (htimely : Timely h o) {user : Int} (habout : o.about user = true)
    (hlast : ∀ old, s.lastOrder o = some old → old.1 < o.key) (users : Dict Int UserRow) :
    Settled source group (({ s with users } : IdentityDb).putMember o.sourceId o.groupId user
      (nextMember s o) o.knownTag) (h ++ [o]) := by
  have hlater : ∀ x ∈ h, x.about user = true → x.key < o.key := by
    intro x hx hxabout
    cases hold : s.lastOrder o with
    | none =>
        rw [lastOrder_about habout, hsource, hgroup, Option.map_eq_none_iff] at hold
        rw [hs.memberNone user hold x hx] at hxabout
        cases hxabout
    | some old =>
        obtain ⟨y, -, hkey, -, -, hlastAbout⟩ := hs.order hsource hgroup hold
        exact lt_of_le_of_lt ((hlastAbout user habout).le x hx hxabout) (hkey ▸ hlast old hold)
  have hnew := Dated.nextMember hs hsource hgroup hinj htimely habout hlater
  have hnotBot : ¬ o.isBot = true := by
    rw [not_bot_of_about habout]
    exact Bool.false_ne_true
  have hlookup : ∀ other, ((({ s with users } : IdentityDb).putMember o.sourceId o.groupId user
      (nextMember s o) o.knownTag).members.lookup (source, group, other)) =
        if other = user then
          some ((nextMember s o).over (s.members.lookup (source, group, user)) o.knownTag)
        else s.members.lookup (source, group, other) := by
    intro other
    unfold IdentityDb.putMember
    dsimp only
    rw [hsource, hgroup, Dict.lookup_insert_eq]
    by_cases hsame : other = user
    · rw [if_pos hsame, if_pos (by rw [hsame])]
    · rw [if_neg hsame, if_neg fun heq => hsame (Prod.mk.inj (Prod.mk.inj heq).2).2]
  have hbots : (({ s with users } : IdentityDb).putMember o.sourceId o.groupId user
      (nextMember s o) o.knownTag).bots = s.bots := rfl
  have hend : LastAbout user (h ++ [o]) o :=
    Latest.snoc_last habout fun c hc hp => le_of_lt (hlater c hc hp)
  refine ⟨fun hnone x hx => ?_, fun r hr => ?_, fun other hnone x hx => ?_, fun other m hm => ?_⟩
  · rcases List.mem_append.mp hx with hx | hx
    · exact hs.botNone hnone x hx
    · rw [List.mem_singleton.mp hx]
      exact not_bot_of_about habout
  · obtain ⟨⟨b, hb, hrest⟩, hstarted⟩ := hs.bot r hr
    exact ⟨⟨b, hb.snoc fun h => absurd h hnotBot, hrest⟩, hstarted⟩
  · rw [hlookup] at hnone
    split at hnone
    · cases hnone
    · rename_i hother
      rcases List.mem_append.mp hx with hx | hx
      · exact hs.memberNone other hnone x hx
      · rw [List.mem_singleton.mp hx]
        exact Bool.eq_false_iff.mpr fun h => hother (about_unique h habout)
  · rw [hbots]
    rw [hlookup] at hm
    split at hm
    case isFalse hother =>
      obtain ⟨⟨x, hx, hkey, hpayload, hpresent, hdated⟩, htag⟩ := hs.member other m hm
      refine ⟨⟨x, hx.snoc fun h => absurd (about_unique h habout) hother, hkey, hpayload, hpresent,
        hdated.congr (stay_snoc_user habout _)⟩, ?_⟩
      rcases htag with ⟨hnone, htag⟩ | ⟨y, hy, htag, hdated⟩
      · refine .inl ⟨fun x hx h => ?_, htag⟩
        rcases List.mem_append.mp hx with hx | hx
        · exact hnone x hx h
        · rw [List.mem_singleton.mp hx] at h
          exact hother (about_unique h.1 habout)
      · exact .inr ⟨y, hy.snoc fun h => absurd (about_unique h.1 habout) hother, htag,
          hdated.congr (stay_snoc_user habout _)⟩
    case isTrue hother =>
      subst hother
      cases hm
      cases hknown : o.knownTag with
      | true =>
          -- The tag is told with the observation.
          have hrow : (nextMember s o).over (s.members.lookup (source, group, other)) true =
              nextMember s o := by
            unfold MemberRow.over
            split <;> rfl
          rw [hrow]
          exact ⟨⟨o, hend, rfl, rfl, rfl, hnew⟩, .inr ⟨o, Latest.snoc_last ⟨habout, hknown⟩
            fun c hc hp => le_of_lt (hlater c hc hp.1), rfl, hnew⟩⟩
      | false =>
          have hnot : ¬ (o.about other = true ∧ o.knownTag = true) := by
            rw [hknown]
            exact fun h => by cases h.2
          cases hold : s.members.lookup (source, group, other) with
          | none =>
              refine ⟨⟨o, hend, rfl, rfl, rfl, hnew⟩, .inl ⟨fun x hx h => ?_, ?_⟩⟩
              · rcases List.mem_append.mp hx with hx | hx
                · rw [hs.memberNone other hold x hx] at h
                  cases h.1
                · rw [List.mem_singleton.mp hx] at h
                  exact hnot h
              · unfold MembershipObservation.knownTag at hknown
                show o.tagText = none
                unfold MembershipObservation.tagText
                split at hknown
                · rfl
                · cases hknown
          | some m =>
              refine ⟨⟨o, hend, rfl, rfl, rfl, hnew⟩, ?_⟩
              rcases (hs.member other m hold).tag with ⟨hnone, htag⟩ | ⟨y, hy, htag, hdated⟩
              · refine .inl ⟨fun x hx h => ?_, htag⟩
                rcases List.mem_append.mp hx with hx | hx
                · exact hnone x hx h
                · rw [List.mem_singleton.mp hx] at h
                  exact hnot h
              · exact .inr ⟨y, hy.snoc fun h => absurd h hnot, htag,
                  hdated.congr (stay_snoc_user habout _)⟩

/-- **One observation.** An observation that is timely settles the rows for the longer history. -/
theorem Settled.observe (hs : Settled source group s h) (hsource : o.sourceId = source)
    (hgroup : o.groupId = group) (hinj : KeyInj MembershipObservation.key (h ++ [o]))
    (htimely : o ∈ h ∨ Timely h o) (hknown : (s.groups.lookup group).isSome = true)
    (hfree : s.groupSuppressions.contains group = false)
    (hobserve : s.observeMembership now o = .ok (outcome, t)) :
    Settled source group t (h ++ [o]) := by
  rcases observe_eq_ok (hgroup ▸ hknown) (hgroup ▸ hfree) hobserve with
    ⟨rfl, old, hold, hle⟩ | ⟨hlast, happly⟩
  · by_cases ho : o ∈ h
    · refine hs.congr fun x => ⟨List.mem_append_left _, fun hx => ?_⟩
      rcases List.mem_append.mp hx with hx | hx
      · exact hx
      · exact List.mem_singleton.mp hx ▸ ho
    · obtain ⟨x, hx, hkey, -⟩ := hs.order hsource hgroup hold
      refine hs.late hsource hgroup (htimely.resolve_left ho) hold
        (lt_of_le_of_ne hle fun heq => ?_)
      have hsame := hinj x (List.mem_append_left _ hx) o
        (List.mem_append_right _ List.mem_cons_self) (hkey.trans heq.symm)
      exact ho (hsame ▸ hx)
  · have ho : o ∉ h := by
      intro ho
      obtain ⟨old, hold, hle⟩ := hs.counted hsource hgroup ho
      exact absurd (hlast old hold) (not_lt.mpr hle)
    have htimely := htimely.resolve_left ho
    rcases subject_cases o with hbot | ⟨user, habout⟩
    · rw [apply_bot hbot happly]
      exact hs.next_bot hsource hgroup (fun x hx y hy => hinj x (List.mem_append_left _ hx) y
        (List.mem_append_left _ hy)) htimely hbot hlast
    · obtain ⟨users, rfl⟩ := apply_user habout happly
      exact hs.next_user hsource hgroup hinj htimely habout hlast users

end

end YoinkCore.Identity
