import YoinkCore.Storage.System
import YoinkCore.Storage.TextEffect

/-!
# Text dispatch

Any number of dispatchers work on any tokens; each call takes effect at one instant. The
row of a token settles its fate: prepared leaves it undecided, a row on its way or
confirmed is an attempt, a tombstone denies it. Every call moves fates up only.
-/

namespace YoinkCore.Storage

open Lib Lib.Json Domain

section

variable [Platform]

/-! ## Calls -/

inductive TextCall where
  | prepare (token : String) (identity : TextIdentity)
  | begin (token : String) (identity : TextIdentity)
  | sealAbsence (token : String)
  | confirm (token : String) (message : Int32)
  | unknown (token : String)
  | markBound (token : String)
  | read (token : String)

inductive TextReply where
  | done
  | admitted (b : Bool)
  | sealing (effect : TextEffect)
  | found (effect : Option TextEffect)

def TextMethod.reply {α : Type} (m : TextMethod α) (f : α → TextReply) :
    TextMethod TextReply := fun T => ((m T).1.map f, (m T).2)

def textExec : TextCall → TextMethod TextReply
  | .prepare token identity => TextMethod.reply (prepareText token identity) fun _ => .done
  | .begin token identity => TextMethod.reply (beginText token identity) .admitted
  | .sealAbsence token => TextMethod.reply (sealTextAbsence token) .sealing
  | .confirm token message => TextMethod.reply (confirmText token message) fun _ => .done
  | .unknown token => TextMethod.reply (unknownText token) fun _ => .done
  | .markBound token => TextMethod.reply (markTextBound token) fun _ => .done
  | .read token => fun T => ((textEffect T token).map .found, T)

/-- A call with what it returned. -/
structure TextEvent where
  call : TextCall
  reply : Except StoreError TextReply

def TextStep (T : TextTable) (e : TextEvent) (U : TextTable) : Prop :=
  textExec e.call T = (e.reply, U)

/-! ## Statements -/

omit [Platform] in
theorem textEffectSchema_token : Table.Keyed textEffectSchema TextEffectRow.token := by
  intro a b h
  simp [textEffectSchema, h]

variable {T U : TextTable} {token : String} {f : TextEffectRow → TextEffectRow}
  {identity : TextIdentity} {p : TextEffectRow → Bool} {e : TextEvent} {r : TextEffectRow}
  {effect : TextEffect}

omit [Platform] in
theorem write_text_eq_ok {α : Type} {f : TextTable → Option (TextTable × α)} {a : α} :
    TextStmt.write f T = .ok (a, U) ↔ f T = some (U, a) := by
  unfold TextStmt.write
  rw [Tx.bind_of_ok (Tx.get_eq_ok.mpr ⟨rfl, rfl⟩)]
  cases h : f T with
  | none => simp
  | some p =>
      obtain ⟨V, b⟩ := p
      show Except.ok (b, V) = _ ↔ _
      simp [and_comm]

omit [Platform] in
/-- A statement that fixes the token rewrites its row and no other. -/
theorem effect_of_update {n : Nat} (h : updateText token p f T = some (U, n))
    (hf : ∀ r, (f r).token = r.token) (k : String) :
    U.effect k = (T.effect k).map fun r => if k = token ∧ p r = true then f r else r := by
  show U.find TextEffectRow.token k = _
  rw [Table.find_update hf h]
  show (T.effect k).map _ = _
  refine Option.map_congr fun r hr => ?_
  rw [Table.key_of_find hr]
  simp

omit [Platform] in
theorem count_of_update {n : Nat} (h : updateText token p f T = some (U, n)) :
    n = if (T.effect token).any p then 1 else 0 := by
  rw [(Table.update_eq_some.mp h).2, Table.countP_of_key textEffectSchema_token (k := token)
    fun r hr => by simpa using (Bool.and_eq_true_iff.mp hr).1]
  show (if (T.effect token).any _ = true then 1 else 0) = _
  cases hr : T.effect token with
  | none => rfl
  | some r => simp [Table.key_of_find hr]

variable {es : List TextEvent} {row : TextEffectRow} {S : TextTable}

omit [Platform] in
theorem effect_of_insert {inserted : Bool} (h : insertNew row T = some (U, inserted)) :
    (inserted = true ∧ T.effect row.token = none ∧
        ∀ k, U.effect k = if k = row.token then some row else T.effect k) ∨
      inserted = false ∧ U = T := by
  unfold insertNew at h
  split at h
  · cases h
    exact .inr ⟨rfl, rfl⟩
  · rename_i hn
    have hn : T.effect row.token = none := by simpa using hn
    obtain ⟨V, hV, he⟩ := Option.map_eq_some_iff.mp h
    cases he
    refine .inl ⟨rfl, hn, fun k => ?_⟩
    rw [TextTable.effect, Table.find_insert hV]
    by_cases hk : k = row.token
    · subst hk
      rw [if_pos rfl, if_pos rfl, show T.find TextEffectRow.token row.token = none from hn,
        Option.none_or]
    · rw [if_neg hk, if_neg (Ne.symm hk), Option.or_none]
      rfl

omit [Platform] in
theorem effect_of_seal (h : sealPrepared token T = some U) (k : String) :
    U.effect k = if k = token then
        some ((T.effect token).elim ⟨token, none, .sealed, none, false⟩ fun r =>
          if r.state = .prepared then { r with state := .sealed, identity := none } else r)
      else T.effect k := by
  have := Table.find_upsert (fun r => by split <;> rfl) h k
  rw [TextTable.effect, this]
  split
  · rename_i hk
    have hk : k = token := hk
    subst hk
    rfl
  · rfl

/-! ## Fates -/

/-- What the row of a token settles. -/
def TextEffectRow.fate (r : TextEffectRow) : Fate (Option Json) Int32 :=
  match r.state with
  | .prepared => .undecided
  | .sending | .unknown => .attempted r.identity none
  | .confirmed => .attempted r.identity r.receipt
  | .sealed => .denied

def TextTable.fate (T : TextTable) (token : String) : Fate (Option Json) Int32 :=
  (T.effect token).elim .undecided TextEffectRow.fate

omit [Platform] in
theorem fate_le_of_update {n : Nat} (h : updateText token p f T = some (U, n))
    (hf : ∀ r, (f r).token = r.token) (hp : ∀ r, p r = true → r.fate ≤ (f r).fate) (k : String) :
    T.fate k ≤ U.fate k := by
  unfold TextTable.fate
  rw [effect_of_update h hf]
  cases T.effect k with
  | none => exact le_rfl
  | some r =>
      show r.fate ≤ (if k = token ∧ p r = true then f r else r).fate
      split
      · rename_i hc
        exact hp r hc.2
      · exact le_rfl

omit [Platform] in
theorem fate_le_of_insert {inserted : Bool} (h : insertNew row T = some (U, inserted))
    (k : String) : T.fate k ≤ U.fate k := by
  rcases effect_of_insert h with ⟨-, hn, hU⟩ | ⟨-, rfl⟩
  · unfold TextTable.fate
    rw [hU]
    split
    · rename_i hk
      rw [hk, hn]
      exact Fate.undecided_le _
    · exact le_rfl
  · exact le_rfl

omit [Platform] in
theorem fate_le_of_seal (h : sealPrepared token T = some U) (k : String) : T.fate k ≤ U.fate k := by
  unfold TextTable.fate
  rw [effect_of_seal h]
  split
  · rename_i hk
    rw [hk]
    cases T.effect token with
    | none => exact Fate.undecided_le _
    | some r =>
        show r.fate ≤ (if r.state = .prepared then _ else r).fate
        split
        · rename_i hp
          rw [show r.fate = .undecided by rw [TextEffectRow.fate, hp]]
          exact Fate.undecided_le _
        · exact le_rfl
  · exact le_rfl

/-! ## Reading back -/

theorem writtenEffect_of_ok (h : writtenEffect T token = .ok effect) :
    ∃ r, T.effect token = some r ∧ decodeTextEffect r = .ok effect := by
  unfold writtenEffect textEffect at h
  cases hr : T.effect token with
  | none =>
      rw [hr] at h
      cases h
  | some r =>
      simp only [hr, Tx.result_bind_eq_ok] at h
      obtain ⟨found, hf, h⟩ := h
      cases hd : decodeTextEffect r with
      | error e =>
          rw [hd] at hf
          cases hf
      | ok effect' =>
          rw [hd] at hf
          cases hf
          cases h
          exact ⟨r, rfl, hd⟩

/-- The parts of an effect that was read. -/
theorem decodeTextEffect_of_ok (h : decodeTextEffect r = .ok effect) :
    decodeRowIdentity r = .ok effect.identity ∧ decodeOutcome r = .ok effect.outcome := by
  simp only [decodeTextEffect, Tx.result_bind_eq_ok] at h
  obtain ⟨identity, hi, outcome, ho, he⟩ := h
  cases he
  exact ⟨hi, ho⟩

/-- The identity of a row can be read. -/
def Legible (r : TextEffectRow) : Prop :=
  ∀ document, r.identity = some document → ∃ i, decodeIdentity document = some i

theorem legible_of_decoded (h : decodeTextEffect r = .ok effect) : Legible r := by
  intro document hr
  have hdec := (decodeTextEffect_of_ok h).1
  simp only [decodeRowIdentity, hr] at hdec
  cases hdoc : decodeIdentity document with
  | none =>
      rw [hdoc] at hdec
      cases hdec
  | some i => exact ⟨i, rfl⟩

/-- The identity of a row that was read and compared. -/
theorem identity_of_decoded {document : Json} (hd : decodeTextEffect r = .ok effect)
    (hi : r.identity = some document) (he : (effect.identity == some identity) = true) :
    ∃ i, decodeIdentity document = some i ∧ (i == identity) = true := by
  obtain ⟨i, hdoc⟩ := legible_of_decoded hd document hi
  have hdec := (decodeTextEffect_of_ok hd).1
  simp only [decodeRowIdentity, hi, hdoc] at hdec
  rw [← Except.ok.inj hdec] at he
  exact ⟨i, hdoc, he⟩

/-! ## What the transactions do -/

/-- The statements of a `begin_text` that commits. -/
theorem beginTextOn_of_ok {b : Bool} (h : beginTextOn token identity T = .ok (b, U)) :
    ∃ V changed r effect n,
      insertNew ⟨token, some (encodeIdentity identity), .sending, none, false⟩ T =
        some (V, changed) ∧
      V.effect token = some r ∧ decodeTextEffect r = .ok effect ∧
      (effect.outcome = .sealed ∨ (effect.identity == some identity) = true) ∧
      admitPrepared token (encodeIdentity identity) V = some (U, n) ∧
      b = (changed || n == 1) := by
  simp only [beginTextOn, Tx.bind_eq_ok, write_text_eq_ok, Tx.get_eq_ok] at h
  obtain ⟨changed, V, hins, _, _, ⟨rfl, rfl⟩, h⟩ := h
  cases he : writtenEffect V token with
  | error e =>
      simp only [he] at h
      cases h
  | ok effect =>
      obtain ⟨r, hr, hd⟩ := writtenEffect_of_ok he
      simp only [he] at h
      split at h
      · cases h
      · rename_i hc
        simp only [Tx.bind_eq_ok, write_text_eq_ok, Tx.pure_eq_ok] at h
        obtain ⟨n, U', hadm, hb, rfl⟩ := h
        exact ⟨V, changed, r, effect, n, hins, hr, hd,
          by simpa only [ne_eq, not_and_or, not_not] using hc, hadm, hb.symm⟩

theorem prepareTextOn_of_ok (h : prepareTextOn token identity T = .ok ((), U)) :
    ∃ changed, insertNew ⟨token, some (encodeIdentity identity), .prepared, none, false⟩ T =
      some (U, changed) := by
  simp only [prepareTextOn, Tx.bind_eq_ok, write_text_eq_ok, Tx.get_eq_ok] at h
  obtain ⟨changed, V, hins, _, _, ⟨rfl, rfl⟩, h⟩ := h
  cases he : writtenEffect V token with
  | error e =>
      simp only [he] at h
      cases h
  | ok effect =>
      simp only [he] at h
      split at h
      · simp only [Tx.pure_eq_ok] at h
        obtain ⟨-, rfl⟩ := h
        exact ⟨changed, hins⟩
      · cases h

/-- The attempt an admitted `begin_text` commits. -/
structure Begun (token : String) (identity : TextIdentity) (T U : TextTable) : Prop where
  undecided : T.fate token = .undecided
  attempted : U.fate token = .attempted (some (encodeIdentity identity)) none
  legible : ∃ i, decodeIdentity (encodeIdentity identity) = some i ∧ (i == identity) = true

omit [Platform] in
theorem fate_le_of_admission {payload : Json} {n : Nat}
    (h : admitPrepared token payload T = some (U, n)) (k : String) : T.fate k ≤ U.fate k := by
  refine fate_le_of_update h (fun _ => rfl) (fun r hp => ?_) k
  simp only [Bool.and_eq_true, beq_iff_eq] at hp
  rw [show r.fate = .undecided by rw [TextEffectRow.fate, hp.1]]
  exact Fate.undecided_le _

/-- A `begin_text` that was admitted found the fate of the token undecided. -/
theorem begun_of_ok (h : beginTextOn token identity T = .ok (true, U)) :
    Begun token identity T U := by
  obtain ⟨V, changed, r, effect, n, hins, hr, hd, hc, hadm, hb⟩ := beginTextOn_of_ok h
  have hU := effect_of_update hadm (fun _ => rfl) token
  have hn := count_of_update hadm
  rw [hr] at hU hn
  rcases effect_of_insert hins with ⟨rfl, hnone, hV⟩ | ⟨rfl, rfl⟩
  · rw [hV, if_pos rfl] at hr
    obtain rfl := Option.some.inj hr
    have hout : effect.outcome = .unknown :=
      (Except.ok.inj (decodeTextEffect_of_ok hd).2).symm
    rcases hc with hc | hc
    · rw [hout] at hc
      cases hc
    refine ⟨?_, ?_, identity_of_decoded hd rfl hc⟩
    · rw [TextTable.fate, hnone]
      rfl
    · rw [Option.map_some, if_neg (by simp)] at hU
      rw [TextTable.fate, hU]
      rfl
  · rw [Bool.false_or] at hb
    have hp : ((r.state == .prepared) && decide (r.identity = some (encodeIdentity identity)))
        = true := by
      by_contra hp
      rw [Option.any_some, if_neg hp] at hn
      rw [hn] at hb
      cases hb
    rw [Option.map_some, if_pos ⟨rfl, hp⟩] at hU
    simp only [Bool.and_eq_true, beq_iff_eq, decide_eq_true_eq] at hp
    obtain ⟨hstate, hid⟩ := hp
    have hout : effect.outcome = .prepared := by
      have := (decodeTextEffect_of_ok hd).2
      rw [decodeOutcome, hstate] at this
      exact (Except.ok.inj this).symm
    rcases hc with hc | hc
    · rw [hout] at hc
      cases hc
    refine ⟨?_, ?_, identity_of_decoded hd hid hc⟩
    · rw [TextTable.fate, hr]
      show r.fate = _
      rw [TextEffectRow.fate, hstate]
    · rw [TextTable.fate, hU]
      show TextEffectRow.fate { r with state := .sending } = _
      simp only [TextEffectRow.fate, hid]

/-- Rows beyond preparation can be read. -/
def TextTable.Legible (T : TextTable) : Prop :=
  ∀ token r, T.effect token = some r → r.state ≠ .prepared → Storage.Legible r

/-- A statement on rows that keeps their identities keeps them legible. -/
theorem legible_of_update {n : Nat} (h : updateText token p f T = some (U, n))
    (hf : ∀ r, (f r).token = r.token) (hi : ∀ r, (f r).identity = r.identity)
    (hp : ∀ r, T.effect token = some r → p r = true → r.state = .prepared → Storage.Legible r)
    (hT : T.Legible) : U.Legible := by
  intro k r' hr' hs
  rw [effect_of_update h hf] at hr'
  obtain ⟨r, hr, rfl⟩ := Option.map_eq_some_iff.mp hr'
  split at hs
  · rename_i hc
    rw [if_pos hc]
    have hleg : Storage.Legible r := by
      by_cases hprep : r.state = .prepared
      · exact hp r (hc.1 ▸ hr) hc.2 hprep
      · exact hT k r hr hprep
    intro document hdoc
    rw [hi] at hdoc
    exact hleg document hdoc
  · rename_i hc
    rw [if_neg hc]
    exact hT k r hr hs

theorem legible_of_insert {inserted : Bool} (h : insertNew row T = some (U, inserted))
    (hr : row.state ≠ .prepared → inserted = true → Storage.Legible row) (hT : T.Legible) :
    U.Legible := by
  rcases effect_of_insert h with ⟨rfl, -, hU⟩ | ⟨-, rfl⟩
  · intro k r hk hs
    rw [hU] at hk
    split at hk
    · obtain rfl := Option.some.inj hk
      exact hr hs rfl
    · exact hT k r hk hs
  · exact hT

/-- What a committed `begin_text` leaves is legible: it was read. -/
theorem legible_of_begin {b : Bool} (h : beginTextOn token identity T = .ok (b, U))
    (hT : T.Legible) : U.Legible := by
  obtain ⟨V, changed, r, effect, n, hins, hr, hd, -, hadm, -⟩ := beginTextOn_of_ok h
  have hV : V.Legible := by
    refine legible_of_insert hins (fun _ hc => ?_) hT
    rcases effect_of_insert hins with ⟨-, -, hV⟩ | ⟨hf, -⟩
    · rw [hV, if_pos rfl] at hr
      obtain rfl := Option.some.inj hr
      exact legible_of_decoded hd
    · rw [hf] at hc
      cases hc
  refine legible_of_update hadm (fun _ => rfl) (fun _ => rfl) (fun r' hr' _ _ => ?_) hV
  obtain rfl : r = r' := Option.some.inj (hr.symm.trans hr')
  exact legible_of_decoded hd

/-- What a call makes of the table: each one is a short sequence of statements. -/
inductive Dispatched (T : TextTable) : TextTable → Prop
  | idle : Dispatched T T
  | prepared {token : String} {identity : TextIdentity} {U : TextTable} :
      prepareTextOn token identity T = .ok ((), U) → Dispatched T U
  | begun {token : String} {identity : TextIdentity} {b : Bool} {U : TextTable} :
      beginTextOn token identity T = .ok (b, U) → Dispatched T U
  | sealed {token : String} {U : TextTable} : sealPrepared token T = some U → Dispatched T U
  | confirmed {token : String} {message : Int32} {U : TextTable} {n : Nat} :
      recordReceipt token message T = some (U, n) → Dispatched T U
  | unknown {token : String} {U : TextTable} {n : Nat} :
      updateText token (fun r => r.state == .sending) (fun r => { r with state := .unknown })
        T = some (U, n) → Dispatched T U
  | bound {token : String} {U : TextTable} {n : Nat} :
      updateText token (fun r => r.state == .confirmed) (fun r => { r with bound := true })
        T = some (U, n) → Dispatched T U

omit [Platform] in
theorem textUpdate_state (f : TextTable → Option (TextTable × Nat)) (T : TextTable) :
    (textUpdate f T).2 = T ∨ ∃ n, f T = some ((textUpdate f T).2, n) := by
  unfold textUpdate
  cases h : f T with
  | none => exact .inl rfl
  | some p => exact .inr ⟨p.2, rfl⟩

theorem textExec_dispatched (call : TextCall) (T : TextTable) :
    Dispatched T (textExec call T).2 := by
  cases call with
  | prepare token identity =>
      show Dispatched T (prepareText token identity T).2
      unfold prepareText
      cases checkText token identity with
      | error e => exact .idle
      | ok _ =>
          rcases Tx.auto_cases (prepareTextOn token identity) T with ⟨e, h⟩ | ⟨_, U, hs, h⟩
          · rw [h]
            exact .idle
          · rw [h]
            exact .prepared hs
  | begin token identity =>
      show Dispatched T (beginText token identity T).2
      unfold beginText
      cases checkText token identity with
      | error e => exact .idle
      | ok _ =>
          rcases Tx.auto_cases (beginTextOn token identity) T with ⟨e, h⟩ | ⟨b, U, hs, h⟩
          · rw [h]
            exact .idle
          · rw [h]
            exact .begun hs
  | sealAbsence token =>
      show Dispatched T (sealTextAbsence token T).2
      unfold sealTextAbsence
      cases checkToken token with
      | error e => exact .idle
      | ok _ =>
          cases h : sealPrepared token T with
          | none => exact .idle
          | some U => exact .sealed h
  | confirm token message =>
      show Dispatched T (confirmText token message T).2
      unfold confirmText
      split
      · exact .idle
      · cases h : recordReceipt token message T with
        | none => exact .idle
        | some p => exact .confirmed h
  | unknown token =>
      show Dispatched T (unknownText token T).2
      rcases textUpdate_state _ T with h | ⟨n, h⟩
      · rw [unknownText, h]
        exact .idle
      · exact .unknown h
  | markBound token =>
      show Dispatched T (markTextBound token T).2
      rcases textUpdate_state _ T with h | ⟨n, h⟩
      · rw [markTextBound, h]
        exact .idle
      · exact .bound h
  | read token => exact .idle

/-- Every call keeps what is settled. -/
theorem Dispatched.fate_le (h : Dispatched T U) (k : String) : T.fate k ≤ U.fate k := by
  cases h with
  | idle => exact le_rfl
  | prepared h =>
      obtain ⟨changed, hins⟩ := prepareTextOn_of_ok h
      exact fate_le_of_insert hins k
  | begun h =>
      obtain ⟨V, changed, r, effect, n, hins, -, -, -, hadm, -⟩ := beginTextOn_of_ok h
      exact (fate_le_of_insert hins k).trans (fate_le_of_admission hadm k)
  | sealed h => exact fate_le_of_seal h k
  | @confirmed token message U n h =>
      refine fate_le_of_update h (fun _ => rfl) (fun r hp => ?_) k
      simp only [Bool.or_eq_true, Bool.and_eq_true, beq_iff_eq, decide_eq_true_eq] at hp
      rcases hp with (hs | hs) | ⟨hs, hm⟩
      · simp only [TextEffectRow.fate, hs]
        exact .evidence _ _
      · simp only [TextEffectRow.fate, hs]
        exact .evidence _ _
      · simp only [TextEffectRow.fate, hs, hm]
        exact le_rfl
  | unknown h =>
      refine fate_le_of_update h (fun _ => rfl) (fun r hp => ?_) k
      rw [beq_iff_eq] at hp
      simp only [TextEffectRow.fate, hp]
      exact le_rfl
  | bound h => exact fate_le_of_update h (fun _ => rfl) (fun r _ => le_rfl) k

theorem Dispatched.legible (h : Dispatched T U) (hT : T.Legible) : U.Legible := by
  cases h with
  | idle => exact hT
  | prepared h =>
      obtain ⟨changed, hins⟩ := prepareTextOn_of_ok h
      exact legible_of_insert hins (fun hs => absurd rfl hs) hT
  | begun h => exact legible_of_begin h hT
  | @sealed token U h =>
      intro k r hr hs
      rw [effect_of_seal h] at hr
      split at hr
      · obtain rfl := Option.some.inj hr
        cases hrow : T.effect token with
        | none =>
            intro document hd
            cases hd
        | some r =>
            rw [hrow] at hs
            intro document hd
            by_cases hp : r.state = .prepared
            · simp [hp] at hd
            · simp only [Option.elim_some, if_neg hp] at hd
              exact hT token r hrow hp document hd
      · exact hT k r hr hs
  | confirmed h | unknown h | bound h =>
      refine legible_of_update h (fun _ => rfl) (fun _ => rfl) (fun r _ hp hs => ?_) hT
      rw [hs] at hp
      cases hp

/-! ## Reading a settled token -/

omit [Platform] in
theorem effect_checked (h : T.effect token = some r) : textEffectSchema.check r = true :=
  T.checked r (Table.mem_of_find h)

omit [Platform] in
theorem row_of_fate (h : T.fate token ≠ .undecided) :
    ∃ r, T.effect token = some r ∧ T.fate token = r.fate := by
  unfold TextTable.fate at *
  cases hr : T.effect token with
  | none =>
      rw [hr] at h
      exact absurd rfl h
  | some r => exact ⟨r, rfl, rfl⟩

/-- A denied token is read as sealed. -/
theorem read_denied (h : T.fate token = .denied) :
    ∃ effect, textEffect T token = .ok (some effect) ∧ effect.outcome = .sealed := by
  have hdecided : T.fate token ≠ .undecided := by rw [h]; simp
  obtain ⟨r, hr, hf⟩ := row_of_fate hdecided
  have hs : r.state = .sealed := by
    rw [h, TextEffectRow.fate] at hf
    cases hstate : r.state <;> rw [hstate] at hf <;> cases hf
  have hi : r.identity = none := by
    have := effect_checked hr
    simp only [textEffectSchema, hs, Bool.and_eq_true, Option.isNone_iff_eq_none] at this
    exact this.2.1
  refine ⟨⟨r.token, none, .sealed, r.bound⟩, ?_, rfl⟩
  simp only [textEffect, hr, decodeTextEffect, decodeRowIdentity, decodeOutcome, hi, hs]
  rfl

/-- An attempted token is read with its identity, and its receipt if there is one. -/
theorem read_attempted (hT : T.Legible) {identity : Option Json} {receipt : Option Int32}
    (h : T.fate token = .attempted identity receipt) :
    ∃ effect document i, textEffect T token = .ok (some effect) ∧
      identity = some document ∧ decodeIdentity document = some i ∧
      effect.identity = some i ∧ effect.outcome = receipt.elim .unknown .confirmed := by
  have hdecided : T.fate token ≠ .undecided := by rw [h]; simp
  obtain ⟨r, hr, hf⟩ := row_of_fate hdecided
  rw [h] at hf
  have hcheck := effect_checked hr
  have hprep : r.state ≠ .prepared := by
    intro hs
    rw [TextEffectRow.fate, hs] at hf
    cases hf
  have hstate : r.identity = identity ∧ r.identity.isSome = true ∧
      decodeOutcome r = .ok (receipt.elim .unknown .confirmed) := by
    cases hs : r.state <;>
      simp only [TextEffectRow.fate, textEffectSchema, hs, Bool.and_eq_true,
        Fate.attempted.injEq, reduceCtorEq] at hf hcheck <;>
      obtain ⟨rfl, rfl⟩ := hf
    · exact ⟨rfl, hcheck.2.1, by rw [decodeOutcome, hs]; rfl⟩
    · exact ⟨rfl, hcheck.2.1, by rw [decodeOutcome, hs]; rfl⟩
    · obtain ⟨m, hm⟩ := Option.isSome_iff_exists.mp hcheck.2.2
      exact ⟨rfl, hcheck.2.1, by rw [decodeOutcome, hs, hm]; rfl⟩
  obtain ⟨rfl, hsome, hout⟩ := hstate
  obtain ⟨document, hdoc⟩ := Option.isSome_iff_exists.mp hsome
  obtain ⟨i, hi⟩ := hT token r hr hprep document hdoc
  refine ⟨⟨r.token, some i, receipt.elim .unknown .confirmed, r.bound⟩, document, i, ?_,
    hdoc, hi, rfl, rfl⟩
  simp only [textEffect, hr, decodeTextEffect, decodeRowIdentity, hdoc, hi, hout]
  rfl

/-! ## Events -/

/-- The event admits an external attempt. -/
def TextEvent.Begins (token : String) (identity : TextIdentity) (e : TextEvent) : Prop :=
  e.call = .begin token identity ∧ e.reply = .ok (.admitted true)

/-- The event reports that nothing was sent and nothing will be. -/
def TextEvent.Seals (token : String) (e : TextEvent) : Prop :=
  e.call = .sealAbsence token ∧
    ∃ effect, e.reply = .ok (.sealing effect) ∧ effect.outcome = .sealed

/-- The event records a receipt. -/
def TextEvent.Confirms (token : String) (message : Int32) (e : TextEvent) : Prop :=
  e.call = .confirm token message ∧ e.reply = .ok .done

theorem TextStep.mono (h : TextStep T e U) (k : String) : T.fate k ≤ U.fate k := by
  have := textExec_dispatched e.call T
  rw [h] at this
  exact this.fate_le k

theorem TextStep.legible (h : TextStep T e U) (hT : T.Legible) : U.Legible := by
  have := textExec_dispatched e.call T
  rw [h] at this
  exact this.legible hT

omit [Platform] in
theorem TextMethod.reply_eq_ok {α : Type} {m : TextMethod α} {f : α → TextReply} {r : TextReply}
    (h : TextMethod.reply m f T = (.ok r, U)) : ∃ a, m T = (.ok a, U) ∧ f a = r := by
  unfold TextMethod.reply at h
  rw [Prod.mk.injEq] at h
  obtain ⟨hr, rfl⟩ := h
  cases ha : (m T).1 with
  | error e =>
      rw [ha] at hr
      cases hr
  | ok a =>
      rw [ha] at hr
      exact ⟨a, by rw [← ha], Except.ok.inj hr⟩

theorem TextStep.begun (h : TextStep T e U) (he : e.Begins token identity) :
    Begun token identity T U := by
  rw [TextStep, he.1, he.2] at h
  obtain ⟨b, hb, hbe⟩ := TextMethod.reply_eq_ok h
  obtain rfl : b = true := TextReply.admitted.inj hbe
  unfold beginText at hb
  cases hc : checkText token identity with
  | error e =>
      rw [hc] at hb
      cases hb
  | ok u =>
      simp only [hc] at hb
      rcases Tx.auto_cases (beginTextOn token identity) T with ⟨e, ha⟩ | ⟨b, U', hs, ha⟩
      · rw [ha] at hb
        cases hb
      · rw [ha] at hb
        cases hb
        exact begun_of_ok hs

theorem TextStep.denied (h : TextStep T e U) (he : e.Seals token) : U.fate token = .denied := by
  obtain ⟨hcall, effect, hreply, hout⟩ := he
  rw [TextStep, hcall, hreply] at h
  obtain ⟨effect', hm, heq⟩ := TextMethod.reply_eq_ok h
  obtain rfl : effect' = effect := TextReply.sealing.inj heq
  unfold sealTextAbsence at hm
  split at hm
  · cases hm
  · split at hm
    · cases hm
    · rw [Prod.mk.injEq] at hm
      obtain ⟨hw, rfl⟩ := hm
      obtain ⟨r, hr, hd⟩ := writtenEffect_of_ok hw
      have hs := (decodeTextEffect_of_ok hd).2
      rw [hout, decodeOutcome] at hs
      rw [TextTable.fate, hr]
      show r.fate = _
      rw [TextEffectRow.fate]
      cases hstate : r.state <;> rw [hstate] at hs <;> try cases hs
      cases hrec : r.receipt <;> rw [hrec] at hs <;> cases hs

theorem TextStep.confirmed (h : TextStep T e U) {message : Int32} (he : e.Confirms token message) :
    ∃ identity, U.fate token = .attempted identity (some message) := by
  rw [TextStep, he.1, he.2] at h
  obtain ⟨u, hm, -⟩ := TextMethod.reply_eq_ok h
  unfold confirmText at hm
  split at hm
  · cases hm
  · split at hm
    · cases hm
    · rename_i V changed hrec
      rw [Prod.mk.injEq] at hm
      obtain ⟨hc, rfl⟩ := hm
      split at hc
      swap
      · cases hc
      rename_i hone
      have hn := count_of_update hrec
      rw [hone] at hn
      obtain ⟨r, hr, hp⟩ := (Option.any_eq_true _ _).mp (by
        by_contra hany
        rw [if_neg hany] at hn
        exact absurd hn (by decide) : (T.effect token).any _ = true)
      have hU := effect_of_update hrec (fun _ => rfl) token
      rw [hr, Option.map_some, if_pos ⟨rfl, hp⟩] at hU
      rw [TextTable.fate, hU]
      exact ⟨r.identity, rfl⟩

/-! ## Over runs -/

/-- Calls that admit an attempt find the fate of their token undecided. -/
theorem textAdmits (token : String) : Admits TextStep (fun T : TextTable => T.fate token)
    (fun e => ∃ identity, e.Begins token identity) where
  mono _ _ _ h := h.mono token
  admitted _ _ _ h := by
    rintro ⟨identity, he⟩
    exact ⟨(h.begun he).undecided, _, (h.begun he).attempted⟩

/-- After a run in which an attempt was admitted the token is attempted. -/
theorem attempted_of_begins (h : Run TextStep S es T) (he : e ∈ es) (hb : e.Begins token identity) :
    ∃ receipt, T.fate token = .attempted (some (encodeIdentity identity)) receipt := by
  obtain ⟨es₁, es₂, rfl⟩ := List.append_of_mem he
  obtain ⟨A, B, -, hs, hB⟩ := h.split_at
  have hle : B.fate token ≤ T.fate token :=
    hB.fate_le (textAdmits token).mono
  rw [(hs.begun hb).attempted] at hle
  obtain ⟨receipt, hT, -⟩ := Fate.attempted_le hle
  exact ⟨receipt, hT⟩

/-- After a run in which a token was reported sealed it is denied. -/
theorem denied_of_seals (h : Run TextStep S es T) (he : e ∈ es) (hs : e.Seals token) :
    T.fate token = .denied := by
  obtain ⟨es₁, es₂, rfl⟩ := List.append_of_mem he
  obtain ⟨A, B, -, hstep, hB⟩ := h.split_at
  have hle : B.fate token ≤ T.fate token :=
    hB.fate_le (textAdmits token).mono
  rw [hstep.denied hs] at hle
  exact Fate.denied_le hle

theorem legible_of_run (h : Run TextStep S es T) (hS : S.Legible) : T.Legible :=
  h.invariant (I := TextTable.Legible) (fun hI hs => hs.legible hI) hS

theorem empty_legible : TextTable.Legible (.empty textEffectSchema) := by
  intro token r hr
  cases hr

/-- **A text is attempted at most once.** Around any event of a run: if the event admits
an attempt, no other event of the run does, none reports the token sealed, and the row
keeps the identity it was admitted with; if it reports the token sealed, no attempt is
admitted before or after, and it reads as sealed ever after; if it records a receipt,
the token reads as confirmed with that receipt ever after. -/
theorem text_attempted_at_most_once {T U V : TextTable} {es es' : List TextEvent}
    {e : TextEvent} (h : Run TextStep (.empty textEffectSchema) es T) (he : TextStep T e U)
    (h' : Run TextStep U es' V) (token : String) :
    (∀ identity, e.Begins token identity →
      (∀ e' ∈ es ++ es', ∀ identity', ¬ e'.Begins token identity') ∧
      (∀ e' ∈ es ++ es', ¬ e'.Seals token) ∧
      ∃ effect i, (V.effect token).bind TextEffectRow.identity =
          some (encodeIdentity identity) ∧
        textEffect V token = .ok (some effect) ∧ effect.identity = some i ∧
        (i == identity) = true) ∧
    (e.Seals token →
      (∀ e' ∈ es ++ es', ∀ identity', ¬ e'.Begins token identity') ∧
      ∃ effect, textEffect V token = .ok (some effect) ∧ effect.outcome = .sealed) ∧
    ∀ message, e.Confirms token message →
      ∃ effect, textEffect V token = .ok (some effect) ∧ effect.outcome = .confirmed message := by
  have hle : U.fate token ≤ V.fate token :=
    h'.fate_le (textAdmits token).mono
  have hV : V.Legible := legible_of_run h' (he.legible (legible_of_run h empty_legible))
  refine ⟨?_, ?_, ?_⟩
  · intro identity hb
    obtain ⟨hT, hU, i, hi, heq⟩ := he.begun hb
    rw [hU] at hle
    obtain ⟨receipt, hVf, -⟩ := Fate.attempted_le hle
    obtain ⟨effect, document, i', hread, hdoc, hi', hid, -⟩ := read_attempted hV hVf
    cases hdoc
    obtain rfl : i = i' := Option.some.inj (hi.symm.trans hi')
    refine ⟨?_, ?_, effect, i, ?_, hread, hid, heq⟩
    · intro e' he' identity' hb'
      rcases List.mem_append.mp he' with hin | hin
      · obtain ⟨receipt', hT'⟩ := attempted_of_begins h hin hb'
        rw [hT] at hT'
        cases hT'
      · exact (textAdmits token).none_after h' (by rw [hU]; simp) e' hin ⟨identity', hb'⟩
    · intro e' he' hs'
      rcases List.mem_append.mp he' with hin | hin
      · have hT' := denied_of_seals h hin hs'
        rw [hT] at hT'
        cases hT'
      · have hV' := denied_of_seals h' hin hs'
        rw [hVf] at hV'
        cases hV'
    · have hdecided : V.fate token ≠ .undecided := by rw [hVf]; simp
      obtain ⟨r, hr, hf⟩ := row_of_fate hdecided
      rw [hVf, TextEffectRow.fate] at hf
      rw [hr]
      cases hs : r.state <;> rw [hs] at hf <;>
        simp only [Fate.attempted.injEq, reduceCtorEq] at hf <;> exact hf.1.symm
  · intro hs
    have hU := he.denied hs
    rw [hU] at hle
    refine ⟨?_, read_denied (Fate.denied_le hle)⟩
    intro e' he' identity' hb'
    rcases List.mem_append.mp he' with hin | hin
    · obtain ⟨receipt, hU'⟩ := attempted_of_begins (.snoc h he)
        (List.mem_append_left _ hin) hb'
      rw [hU] at hU'
      cases hU'
    · exact (textAdmits token).none_after h' (by rw [hU]; simp) e' hin ⟨identity', hb'⟩
  · intro message hc
    obtain ⟨identity, hU⟩ := he.confirmed hc
    rw [hU] at hle
    obtain ⟨effect, _, _, hread, -, -, -, hout⟩ := read_attempted hV (Fate.evidence_le hle)
    exact ⟨effect, hread, hout⟩

end

/-! ## One text -/

section

attribute [local instance] Scenario.platform

namespace Scenario

def notice : TextIdentity := ⟨1, 7, none, 5, 7, none, false, "done", .null⟩

/-- Make calls on a text table in order. -/
def dispatch (T : TextTable) : List TextCall → List TextEvent × TextTable
  | [] => ([], T)
  | call :: calls =>
      let (reply, U) := textExec call T
      let (es, V) := dispatch U calls
      (⟨call, reply⟩ :: es, V)

theorem dispatch_run {calls : List TextCall} :
    ∀ {T : TextTable}, Run TextStep T (dispatch T calls).1 (dispatch T calls).2 := by
  induction calls with
  | nil => exact .nil
  | cons call calls ih => exact (Run.single rfl).append ih

end Scenario

open Scenario

/-- The reply to a call that was admitted. -/
def isAdmitted : Except StoreError TextReply → Bool
  | .ok (.admitted b) => b
  | _ => false

theorem eq_of_isAdmitted {r : Except StoreError TextReply} (h : isAdmitted r = true) :
    r = .ok (.admitted true) := by
  unfold isAdmitted at h
  split at h
  · rw [h]
  · cases h

/-- A prepared text is begun and confirmed; beginning it again or sealing it does not
change that. -/
theorem text_attempted_notice : ¬ ∃ e ∈ (dispatch (dispatch (.empty textEffectSchema)
      [.prepare "token" notice, .begin "token" notice]).2
      [.confirm "token" 9, .begin "token" notice, .sealAbsence "token"]).1,
    e.Seals "token" := by
  have hreply := eq_of_isAdmitted (by decide +kernel : isAdmitted
    (textExec (.begin "token" notice)
      (dispatch (.empty textEffectSchema) [.prepare "token" notice]).2).1 = true)
  have hstep : TextStep (dispatch (.empty textEffectSchema) [.prepare "token" notice]).2
      ⟨.begin "token" notice, .ok (.admitted true)⟩
      (dispatch (.empty textEffectSchema) [.prepare "token" notice, .begin "token" notice]).2 :=
    Prod.ext hreply rfl
  have hrun : Run TextStep (.empty textEffectSchema) _
      (dispatch (.empty textEffectSchema) [.prepare "token" notice]).2 := dispatch_run
  obtain ⟨-, hseals, -⟩ := (text_attempted_at_most_once hrun hstep dispatch_run "token").1
    notice ⟨rfl, rfl⟩
  rintro ⟨e, he, hs⟩
  exact hseals e (List.mem_append_right _ he) hs

end

end YoinkCore.Storage
