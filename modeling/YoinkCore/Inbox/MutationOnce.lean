import YoinkCore.Inbox.MutationRuns

/-!
# GitHub mutations are sent and applied at most once

Callers take turns in any order, with copies of intents of any age. At most one intent of
a user is active, its send is admitted once, and its local effects are committed by the
step that applies it. A create that is not performed leaves no folder behind.
-/

namespace YoinkCore.Inbox

open Lib
open Storage (Uuid uuid)

/-! ## Turns -/

/-- What a turn does to a row. -/
inductive TurnMoves : CallerTurn → Intent → Intent → Prop
  | same {e : CallerTurn} {i : Intent} : TurnMoves e i i
  | call {caller : Nat} {c : StoreCall} {a : c.Answer} {fresh : Uuid} {i j : Intent}
      (moved : IntentMoved fresh c a i j) :
      TurnMoves (.answer caller (.store c) (.ok a)) i j

variable {c : StoreCall} {db : Ledger} {fresh : Uuid}

theorem StoreCall.run_error_state {db' : Ledger} {e : Error}
    (h : c.run fresh db = (.error e, db')) : db' = db := by
  cases c with
  | prepareMutation user request key now =>
      change Inbox.prepareMutation user request key now fresh db = _ at h
      unfold Inbox.prepareMutation at h
      split at h
      · exact (congrArg Prod.snd h).symm
      · exact Tx.auto_error_state h
  | mutation user id => exact (congrArg Prod.snd h).symm
  | pendingCreate user folder | folder user folder => exact (congrArg Prod.snd h).symm
  | _ => exact Tx.auto_error_state h

section

variable {May : Entry → Prop} {u v : Callers} {e : CallerTurn}

/-- A turn leaves the ledger alone, or is a call that succeeds. -/
theorem CallerStep.ledger (h : CallerStep May u e v) : v.shared.db = u.shared.db ∨
    ∃ caller c a fresh, e = .answer caller (.store c) (.ok a) ∧
      fresh ∉ u.shared.issued ∧ v.shared.issued = fresh :: u.shared.issued ∧
      LedgerEffect u.shared.db fresh v.shared.db c a := by
  cases h with
  | enter may => exact .inl rfl
  | answer turn gives =>
      cases gives with
      | @store c fresh a db new result =>
          cases a with
          | error e => exact .inl (StoreCall.run_error_state result)
          | ok a => exact .inr ⟨_, c, a, fresh, rfl, new, rfl, StoreCall.run_effect result⟩
      | github => exact .inl rfl
      | require => exact .inl rfl
      | githubToken => exact .inl rfl
      | clock => exact .inl rfl

theorem CallerStep.issued_subset (h : CallerStep May u e v) {id : Uuid}
    (hid : id ∈ u.shared.issued) : id ∈ v.shared.issued := by
  cases h with
  | enter may => exact hid
  | answer turn gives =>
      cases gives with
      | store new result => exact List.mem_cons_of_mem _ hid
      | github => exact hid
      | require => exact hid
      | githubToken => exact hid
      | clock => exact hid

/-- A turn moves every row, or puts a new one behind the others. -/
theorem CallerStep.rows (h : CallerStep May u e v) :
    (∃ f, v.shared.db.mutations.rows = u.shared.db.mutations.rows.map f ∧
      ∀ i ∈ u.shared.db.mutations.rows, TurnMoves e i (f i)) ∨
    ∃ caller user request key now fresh i,
      e = .answer caller (.store (.prepareMutation user request key now)) (.ok fresh) ∧
        fresh ∉ u.shared.issued ∧ fresh ∈ v.shared.issued ∧
        Journalled u.shared.db fresh user request key now i v.shared.db ∧
        v.shared.db.mutations.rows = u.shared.db.mutations.rows ++ [i] := by
  rcases h.ledger with hsame | ⟨caller, c, a, fresh, rfl, hnew, hissued, heffect⟩
  · exact .inl ⟨fun i => i, by rw [hsame, List.map_id'], fun _ _ => .same⟩
  · rcases heffect.rows with ⟨f, hrows, hf⟩ | ⟨user, request, key, now, i, hcall, hj, hrows⟩
    · exact .inl ⟨f, hrows, fun i hi => .call (hf i hi)⟩
    · cases hcall
      refine .inr ⟨caller, user, request, key, now, fresh, i, rfl, hnew, ?_, hj, hrows⟩
      rw [hissued]
      exact List.mem_cons_self

/-- A row that was there is moved. -/
theorem CallerStep.forward (h : CallerStep May u e v) {i : Intent}
    (hi : i ∈ u.shared.db.mutations.rows) :
    ∃ j ∈ v.shared.db.mutations.rows, TurnMoves e i j := by
  rcases h.rows with ⟨f, hrows, hf⟩ | ⟨_, _, _, _, _, _, _, -, -, -, -, hrows⟩
  · exact ⟨f i, hrows ▸ List.mem_map_of_mem hi, hf i hi⟩
  · exact ⟨i, hrows ▸ List.mem_append_left _ hi, .same⟩

/-- A row was moved there, or is new. -/
theorem CallerStep.backward (h : CallerStep May u e v) {j : Intent}
    (hj : j ∈ v.shared.db.mutations.rows) :
    (∃ i ∈ u.shared.db.mutations.rows, TurnMoves e i j) ∨
      ∃ caller user request key now fresh,
        e = .answer caller (.store (.prepareMutation user request key now)) (.ok fresh) ∧
          fresh ∉ u.shared.issued ∧ fresh ∈ v.shared.issued ∧
          Journalled u.shared.db fresh user request key now j v.shared.db := by
  rcases h.rows with ⟨f, hrows, hf⟩ | ⟨caller, user, request, key, now, fresh, i, he, hnew,
    hissued, hj', hrows⟩
  · rw [hrows, List.mem_map] at hj
    obtain ⟨i, hi, rfl⟩ := hj
    exact .inl ⟨i, hi, hf i hi⟩
  · rw [hrows, List.mem_append, List.mem_singleton] at hj
    rcases hj with hj | rfl
    · exact .inl ⟨j, hj, .same⟩
    · exact .inr ⟨caller, user, request, key, now, fresh, he, hnew, hissued, hj'⟩

end

/-! ## States -/

namespace TurnMoves

variable {e : CallerTurn} {i j : Intent}

/-- What an intent is about does not change. -/
theorem keeps (h : TurnMoves e i j) : j.id = i.id ∧ j.userId = i.userId ∧
    j.requestKey = i.requestKey ∧ j.request = i.request := by
  cases h with
  | same => exact ⟨rfl, rfl, rfl, rfl⟩
  | call moved => cases moved <;> exact ⟨rfl, rfl, rfl, rfl⟩

/-- Nothing leads back before the send. -/
theorem prepared (h : TurnMoves e i j) (hj : j.state = .prepared) : i.state = .prepared := by
  cases h with
  | same => exact hj
  | call moved =>
      cases moved with
      | kept => exact hj
      | unlinked => exact hj
      | begun => cases hj
      | confirmed => cases hj
      | quarantined => cases hj
      | cancelled => cases hj
      | rejected => cases hj
      | applied => cases hj

/-- An intent that is done stays so. -/
theorem done (h : TurnMoves e i j) (hi : i.active = false) : j.state = i.state := by
  cases h with
  | same => rfl
  | call moved =>
      cases moved with
      | kept => rfl
      | unlinked => rfl
      | begun of state => simp [Intent.active, state] at hi
      | confirmed of state =>
          simp only [Intent.inFlight] at state
          split at state <;> simp_all [Intent.active]
      | quarantined of state => simp [Intent.active, state] at hi
      | cancelled of state => simp [Intent.active, state] at hi
      | rejected of state => simp [Intent.active, state] at hi
      | applied of state => simp [Intent.active, state] at hi

/-- Only a cancelled or rejected send ends rejected. -/
theorem rejected_cases (h : TurnMoves e i j) (hj : j.state = .rejected) :
    i.state = .rejected ∨ ∃ caller c a,
      e = .answer caller (.store c) (.ok a) ∧
        ((∃ user now, c = .cancelPreparedMutation user i.id now) ∨
        ∃ user code now, c = .rejectMutation user i.id code now) := by
  cases h with
  | same => exact .inl hj
  | call moved =>
      cases moved with
      | kept => exact .inl hj
      | unlinked => exact .inl hj
      | begun => cases hj
      | confirmed => cases hj
      | quarantined => cases hj
      | cancelled of state =>
          exact .inr ⟨_, _, _, rfl, .inl ⟨_, _, by rw [(isOf_iff.mp of).1]⟩⟩
      | rejected of state =>
          exact .inr ⟨_, _, _, rfl, .inr ⟨_, _, _, by rw [(isOf_iff.mp of).1]⟩⟩
      | applied => cases hj

/-- Only a confirmed intent is applied, by its own call. -/
theorem applied_cases (h : TurnMoves e i j) (hj : j.state = .applied) :
    i.state = .applied ∨ i.state = .confirmed ∧ ∃ caller now,
      e = .answer caller (.store (.applyMutation i.userId i.id now)) (.ok ()) := by
  cases h with
  | same => exact .inl hj
  | call moved =>
      cases moved with
      | kept => exact .inl hj
      | unlinked => exact .inl hj
      | begun => cases hj
      | confirmed => cases hj
      | quarantined => cases hj
      | cancelled => cases hj
      | rejected => cases hj
      | applied of state =>
          rw [← (isOf_iff.mp of).1, ← (isOf_iff.mp of).2]
          exact .inr ⟨state, _, _, rfl⟩

end TurnMoves

/-! ## Invariants -/

/-- What holds of the ledger in every state. -/
structure LedgerOk (s : LedgerState) : Prop where
  issued : ∀ i ∈ s.db.mutations.rows, i.id ∈ s.issued
  linked : Linked s.db
  bounded : Bounded s.db

section

variable {May : Entry → Prop} {s u v t : Callers} {e : CallerTurn} {es : List CallerTurn}

theorem CallerStep.keepsFolders (h : CallerStep May u e v) :
    KeepsFolders u.shared.db v.shared.db := by
  rcases h.ledger with hsame | ⟨caller, c, a, fresh, -, -, -, heffect⟩
  · exact hsame ▸ .refl
  · exact heffect.keepsFolders

theorem LedgerOk.step (hu : LedgerOk u.shared) (h : CallerStep May u e v) :
    LedgerOk v.shared where
  issued j hj := by
    rcases h.backward hj with ⟨i, hi, hmoves⟩ | ⟨_, _, _, _, _, _, -, -, hissued, hnew⟩
    · exact hmoves.keeps.1 ▸ h.issued_subset (hu.issued i hi)
    · exact hnew.id ▸ hissued
  linked := h.keepsFolders.linked hu.linked
  bounded := h.keepsFolders.bounded hu.bounded

theorem LedgerOk.reach (h : CallersReach May s es t) : LedgerOk t.shared := by
  refine h.2.2.invariant (I := fun u => LedgerOk u.shared) LedgerOk.step ?_
  constructor
  · simp [h.1.mutations]
  · simp [Linked, h.1.mutations]
  · exact h.1.folders

/-- A row is found again after any run, with what it is about. -/
theorem row_after (h : Run (CallerStep May) u es v) {i : Intent}
    (hi : i ∈ u.shared.db.mutations.rows) : ∃ j ∈ v.shared.db.mutations.rows,
      j.id = i.id ∧ j.request = i.request ∧
        (j.state = .prepared → i.state = .prepared) ∧
        (i.active = false → j.state = i.state) := by
  refine h.invariant (I := fun v => ∃ j ∈ v.shared.db.mutations.rows, j.id = i.id ∧
    j.request = i.request ∧ (j.state = .prepared → i.state = .prepared) ∧
      (i.active = false → j.state = i.state)) ?_ ⟨i, hi, rfl, rfl, fun h => h, fun _ => rfl⟩
  rintro v e w ⟨j, hj, hid, hreq, hback, hdone⟩ hstep
  obtain ⟨k, hk, hmoves⟩ := hstep.forward hj
  refine ⟨k, hk, hmoves.keeps.1.trans hid, hmoves.keeps.2.2.2.trans hreq,
    fun hp => hback (hmoves.prepared hp), fun hi => ?_⟩
  have hstate := hdone hi
  have hj' : j.active = false := by
    unfold Intent.active at hi ⊢
    rw [hstate]
    exact hi
  exact (hmoves.done hj').trans hstate

end

/-! ## Reserved folders -/

section

variable {db db' : Ledger} {fresh : Uuid} {user : Int}

variable {f : Intent → Intent} {p : Intent → Bool} {i k : Intent}

/-- A row keeps its folder, or the folder is gone. -/
theorem deleteFolders_lost {p : Folder → Bool} {n : Nat} (h : deleteFolders p db = .ok (n, db'))
    {f : Int} (hf : f ∈ i.localFolderId) :
    (i.unlink (db.folders.rows.filter p)).localFolderId = some f ∨
      ∀ g ∈ db'.folders.rows, g.id ≠ f := by
  unfold Intent.unlink
  split
  · rename_i hloses
    right
    rw [Option.mem_def.mp hf, Option.any_some, loses, List.any_eq_true] at hloses
    obtain ⟨k, hk, hid⟩ := hloses
    obtain ⟨hk, hpk⟩ := List.mem_filter.mp hk
    rw [(deleteFolders_eq_ok h).1]
    rintro g hg rfl
    obtain ⟨g', hg', rfl⟩ := List.mem_map.mp hg
    obtain ⟨hg', hpg⟩ := List.mem_filter.mp hg'
    rw [Folder.orphan_of_mem.1, decide_eq_true_eq] at hid
    obtain rfl := eq_of_folder_id hk hg' hid
    rw [hpk] at hpg
    cases hpg
  · exact .inl hf

theorem releaseFolder_lost {u : Unit} (h : releaseFolder user i db = .ok (u, db')) {f : Int}
    (hk : k ∈ db.mutations.rows) (hf : f ∈ k.localFolderId) :
    ∃ j ∈ db'.mutations.rows, j.id = k.id ∧
      (j.localFolderId = some f ∨ ∀ g ∈ db'.folders.rows, g.id ≠ f) := by
  rcases releaseFolder_eq_ok h with ⟨-, _, hdelete⟩ | rfl
  · refine ⟨_, (deleteFolders_eq_ok hdelete).2.1 ▸ List.mem_map_of_mem hk, ?_,
      deleteFolders_lost hdelete hf⟩
    rcases k.unlink_cases _ with h | h <;> rw [h]
  · exact ⟨k, hk, rfl, .inl hf⟩

/-- A create that gives up its folder deletes it. -/
theorem releaseFolder_gone (hdb : Linked db) (hi : i ∈ db.mutations.rows)
    (hcreate : i.request.isCreate = true) (huser : i.userId = user) {u : Unit}
    (h : releaseFolder user i db = .ok (u, db')) :
    (∀ j ∈ db'.mutations.rows, j.id = i.id → j.localFolderId = none) ∧
      ∀ f ∈ i.localFolderId, ∀ g ∈ db'.folders.rows, g.id ≠ f := by
  simp only [releaseFolder, if_pos hcreate, Tx.bind_eq_ok, Tx.pure_eq_ok] at h
  obtain ⟨_, _, hdelete, -, rfl⟩ := h
  obtain ⟨hfolders, hrows, -⟩ := deleteFolders_eq_ok hdelete
  have hown : ∀ f ∈ i.localFolderId, ∃ g ∈ db.folders.rows.filter
      (fun f => some f.id = i.localFolderId && f.userId = user), g.id = f := by
    intro f hf
    obtain ⟨g, hg, hid, hu⟩ := hdb i hi f hf
    refine ⟨g, List.mem_filter.mpr ⟨hg, ?_⟩, hid⟩
    simp [hid, hu, huser, Option.mem_def.mp hf]
  constructor
  · intro j hj hid
    rw [hrows, List.mem_map] at hj
    obtain ⟨k, hk, rfl⟩ := hj
    have hkid : k.id = i.id := by
      rcases k.unlink_cases (db.folders.rows.filter
        (fun f => some f.id = i.localFolderId && f.userId = user)) with h | h <;> rw [h] at hid
      · exact hid
      · exact hid
    obtain rfl := eq_of_intent_id hk hi hkid
    unfold Intent.unlink
    split
    · rfl
    · rename_i hkept
      cases hf : k.localFolderId with
      | none => rfl
      | some f =>
          obtain ⟨g, hg, hid⟩ := hown f hf
          refine absurd ?_ hkept
          rw [hf, Option.any_some, loses, List.any_eq_true]
          exact ⟨g, hf ▸ hg, by simp [hid]⟩
  · intro f hf g hg hid
    rw [hfolders, List.mem_map] at hg
    obtain ⟨k, hk, rfl⟩ := hg
    obtain ⟨hk, hp⟩ := List.mem_filter.mp hk
    obtain ⟨g', hg', hid'⟩ := hown f hf
    obtain ⟨hg', hp'⟩ := List.mem_filter.mp hg'
    rw [Folder.orphan_of_mem.1] at hid
    obtain rfl := eq_of_folder_id hk hg' (hid.trans hid'.symm)
    rw [hp'] at hp
    cases hp

/-- A row is found again after an update of the states, with its folder. -/
theorem updateMutations_forward {n : Nat} (h : updateMutations p f db = .ok (n, db'))
    (hf : ∀ i, (f i).id = i.id ∧ (f i).localFolderId = i.localFolderId)
    (hi : i ∈ db.mutations.rows) :
    db'.folders = db.folders ∧ ∃ j ∈ db'.mutations.rows,
      j.id = i.id ∧ j.localFolderId = i.localFolderId := by
  obtain ⟨mutations, hu, rfl⟩ := updateMutations_eq_ok.mp h
  refine ⟨rfl, _, (Table.update_eq_some.mp hu).1 ▸ List.mem_map_of_mem hi, ?_⟩
  by_cases hp : p i = true
  · rw [if_pos hp]
    exact hf i
  · rw [if_neg hp]
    exact ⟨rfl, rfl⟩

/-- A folder that an update of the states leaves alone. -/
theorem updateMutations_lost {n : Nat} (h : updateMutations p f db = .ok (n, db'))
    (hf : ∀ i, (f i).id = i.id ∧ (f i).localFolderId = i.localFolderId) {x : Int}
    (hk : ∃ j ∈ db.mutations.rows, j.id = k.id ∧
      (j.localFolderId = some x ∨ ∀ g ∈ db.folders.rows, g.id ≠ x)) :
    ∃ j ∈ db'.mutations.rows, j.id = k.id ∧
      (j.localFolderId = some x ∨ ∀ g ∈ db'.folders.rows, g.id ≠ x) := by
  obtain ⟨i, hi, hid, hlost⟩ := hk
  obtain ⟨hfolders, j, hj, hjid, hfolder⟩ := updateMutations_forward h hf hi
  refine ⟨j, hj, hjid.trans hid, ?_⟩
  rw [hfolder, hfolders]
  exact hlost

end

section

variable {May : Entry → Prop} {u v : Callers} {e : CallerTurn}

/-- A create that becomes rejected has given up its folder. -/
theorem CallerStep.released (h : CallerStep May u e v) (hu : LedgerOk u.shared) {i j : Intent}
    (hi : i ∈ u.shared.db.mutations.rows) (hcreate : i.request.isCreate = true)
    (hstate : i.state ≠ .rejected) (hj : j ∈ v.shared.db.mutations.rows) (hid : j.id = i.id)
    (hrejected : j.state = .rejected) :
    j.localFolderId = none ∧ ∀ f ∈ i.localFolderId, ∀ g ∈ v.shared.db.folders.rows,
      g.id ≠ f := by
  obtain ⟨k, hk, hmoves⟩ := h.forward hi
  obtain rfl : j = k := (eq_of_intent_id hk hj (hmoves.keeps.1.trans hid.symm)).symm
  rcases h.ledger with hsame | ⟨caller, c, a, fresh, rfl, -, -, heffect⟩
  · rw [hsame] at hj
    rw [eq_of_intent_id hj hi hid] at hrejected
    exact absurd hrejected hstate
  have hrelease : ∀ {k : Intent} {user : Int} {w : Ledger} {x : Unit} {p : Intent → Bool}
      {f : Intent → Intent} {n : Nat}, k ∈ u.shared.db.mutations.rows → k.isOf user i.id = true →
        releaseFolder user k u.shared.db = .ok (x, w) →
        updateMutations p f w = .ok (n, v.shared.db) →
        (∀ i, (f i).id = i.id ∧ (f i).localFolderId = i.localFolderId) →
          j.localFolderId = none ∧ ∀ f ∈ i.localFolderId, ∀ g ∈ v.shared.db.folders.rows,
            g.id ≠ f := by
    intro k user w x p f n hk hof hrel hupd hf
    obtain rfl := eq_of_intent_id hk hi (isOf_iff.mp hof).1
    obtain ⟨hnone, hgone⟩ := releaseFolder_gone hu.linked hk hcreate (isOf_iff.mp hof).2 hrel
    obtain ⟨gone, hrows⟩ := releaseFolder_rows hrel
    have hmem : k.unlink gone ∈ w.mutations.rows := hrows ▸ List.mem_map_of_mem hk
    have hkid : (k.unlink gone).id = k.id := by
      rcases k.unlink_cases gone with h | h <;> rw [h]
    obtain ⟨hsame, m, hm, hmid, hfolder⟩ := updateMutations_forward hupd hf hmem
    obtain rfl := eq_of_intent_id hm hj (hmid.trans (hkid.trans hid.symm))
    exact ⟨hfolder.trans (hnone _ hmem hkid), hsame ▸ hgone⟩
  rcases hmoves.rejected_cases hrejected with hold | ⟨_, c', a', he, hcall⟩
  · exact absurd hold hstate
  · cases he
    rcases hcall with ⟨user, now, rfl⟩ | ⟨user, code, now, rfl⟩
    · cases heffect with
      | same rests => cases rests
      | cancelled mem of state release update =>
          exact hrelease mem of release update fun _ => ⟨rfl, rfl⟩
    · cases heffect with
      | same rests => cases rests
      | rejected mem of state release update =>
          exact hrelease mem of release update fun _ => ⟨rfl, rfl⟩

end

/-! ## Folders that are lost -/

section

variable {db db' : Ledger} {fresh : Uuid} {user now : Int}

variable {k : Intent}

/-- A link unlinks the rows of other intents only with the folder it deletes. -/
theorem LinkEffect.lost {id : Uuid} {folder : Int} {remote : Json}
    (h : LinkEffect db user id folder remote db') {x : Int} (hk : k ∈ db.mutations.rows)
    (hother : k.isOf user id = false) (hx : x ∈ k.localFolderId) :
    ∃ j ∈ db'.mutations.rows, j.id = k.id ∧
      (j.localFolderId = some x ∨ ∀ g ∈ db'.folders.rows, g.id ≠ x) := by
  cases h with
  | merged names imported children relink delete =>
      obtain ⟨_, -, rfl⟩ := updateFolders_eq_ok.mp children
      obtain ⟨_, hu, rfl⟩ := updateMutations_eq_ok.mp relink
      rw [(deleteFolders_eq_ok delete).2.1, (Table.update_eq_some.mp hu).1, List.map_map]
      refine ⟨_, List.mem_map_of_mem hk, ?_, ?_⟩
      · dsimp only [Function.comp_apply]
        rw [if_neg (by simp [hother])]
        rcases k.unlink_cases _ with h | h <;> rw [h]
      · dsimp only [Function.comp_apply]
        rw [if_neg (by simp [hother])]
        exact deleteFolders_lost delete hx
  | linked update => exact ⟨k, updateFolders_mutations update ▸ hk, rfl, .inl hx⟩

/-- The effects of an intent unlink others only with a folder that is gone. -/
theorem RequestEffect.lost {i : Intent} {remote : Json} (h : RequestEffect db user i remote db')
    {x : Int} (hk : k ∈ db.mutations.rows) (hother : k.isOf user i.id = false)
    (hx : x ∈ k.localFolderId) :
    ∃ j ∈ db'.mutations.rows, j.id = k.id ∧
      (j.localFolderId = some x ∨ ∀ g ∈ db'.folders.rows, g.id ≠ x) := by
  have hsame : db'.mutations = db.mutations → ∃ j ∈ db'.mutations.rows, j.id = k.id ∧
      (j.localFolderId = some x ∨ ∀ g ∈ db'.folders.rows, g.id ≠ x) :=
    fun hm => ⟨k, hm ▸ hk, rfl, .inl hx⟩
  cases h with
  | created create reserved link => exact link.lost hk hother hx
  | edited parent update => exact hsame (updateFolders_mutations update)
  | deleted delete =>
      refine ⟨_, (deleteFolders_eq_ok delete).2.1 ▸ List.mem_map_of_mem hk, ?_,
        deleteFolders_lost delete hx⟩
      rcases k.unlink_cases _ with h | h <;> rw [h]
  | membership same => exact hsame (same ▸ rfl)
  | star update =>
      obtain ⟨_, -, rfl⟩ := updateStars_eq_ok.mp update
      exact hsame rfl

/-- A row that is not applied keeps its folder, or the folder is gone. -/
theorem LedgerEffect.lost {a : c.Answer} (h : LedgerEffect db fresh db' c a) {x : Int}
    (hk : k ∈ db.mutations.rows) (hx : x ∈ k.localFolderId) :
    ∃ j ∈ db'.mutations.rows, j.id = k.id ∧
      (j.state = .applied ∨ j.localFolderId = some x ∨ ∀ g ∈ db'.folders.rows, g.id ≠ x) := by
  have hsame : db'.mutations = db.mutations → ∃ j ∈ db'.mutations.rows, j.id = k.id ∧
      (j.state = .applied ∨ j.localFolderId = some x ∨ ∀ g ∈ db'.folders.rows, g.id ≠ x) :=
    fun hm => ⟨k, hm ▸ hk, rfl, .inr (.inl hx)⟩
  have hlost : (∃ j ∈ db'.mutations.rows, j.id = k.id ∧
      (j.localFolderId = some x ∨ ∀ g ∈ db'.folders.rows, g.id ≠ x)) →
      ∃ j ∈ db'.mutations.rows, j.id = k.id ∧
        (j.state = .applied ∨ j.localFolderId = some x ∨ ∀ g ∈ db'.folders.rows, g.id ≠ x) :=
    fun ⟨j, hj, hid, h⟩ => ⟨j, hj, hid, .inr h⟩
  have here : ∃ j ∈ db.mutations.rows, j.id = k.id ∧
      (j.localFolderId = some x ∨ ∀ g ∈ db.folders.rows, g.id ≠ x) := ⟨k, hk, rfl, .inl hx⟩
  cases h with
  | same rests hdb => exact hsame (hdb ▸ rfl)
  | saved writes => exact hsame writes.mutations
  | member members =>
      obtain ⟨_, rfl⟩ := members
      exact hsame rfl
  | synchronized inactive writes => exact hsame writes.mutations
  | deleted deletes =>
      refine hlost ⟨_, (deleteFolders_eq_ok deletes).2.1 ▸ List.mem_map_of_mem hk, ?_,
        deleteFolders_lost deletes hx⟩
      rcases k.unlink_cases _ with h | h <;> rw [h]
  | journalled new =>
      obtain ⟨fields, w, hprep, -, -, -, -, -, hrows⟩ := new.effect
      refine ⟨k, ?_, rfl, .inr (.inl hx)⟩
      rw [hrows, (prepareRequest_writes hprep).mutations]
      exact List.mem_append_left _ hk
  | begun update => exact hlost (updateMutations_lost update (fun i => ⟨rfl, rfl⟩) here)
  | confirmed update => exact hlost (updateMutations_lost update (fun i => ⟨rfl, rfl⟩) here)
  | quarantined update => exact hlost (updateMutations_lost update (fun i => ⟨rfl, rfl⟩) here)
  | cancelled mem of state release update | rejected mem of state release update =>
      exact hlost (updateMutations_lost update (fun i => ⟨rfl, rfl⟩)
        (releaseFolder_lost release hk hx))
  | applied mem of state hprepared hremote effects update =>
      rename_i user id now i prepared remote w n
      by_cases hown : k.isOf user id = true
      · -- the row that is applied
        obtain ⟨f, hrows, hf⟩ := (applyEffects_effect effects).rows
        obtain ⟨_, hu, rfl⟩ := updateMutations_eq_ok.mp update
        refine ⟨_, (Table.update_eq_some.mp hu).1 ▸ List.mem_map_of_mem
          (hrows ▸ List.mem_map_of_mem hk), ?_⟩
        obtain rfl : k = i := eq_of_intent_id hk mem
          ((isOf_iff.mp hown).1.trans (isOf_iff.mp of).1.symm)
        have hp : ((f k).isOf user id && (f k).state = .confirmed) = true := by
          rw [(hf k).folder]
          simpa [Intent.isOf, state] using of
        rw [if_pos hp]
        refine ⟨?_, .inl rfl⟩
        rw [(hf k).folder]
        rfl
      · have hother : k.isOf user i.id = false := by
          rw [(isOf_iff.mp of).1]
          simpa using hown
        exact hlost (updateMutations_lost update (fun i => ⟨rfl, rfl⟩)
          ((applyEffects_effect effects).lost hk hother hx))

end

section

variable {May : Entry → Prop} {s u v t : Callers} {e : CallerTurn} {es : List CallerTurn}

/-- Creates that were rejected hold no folder. -/
def Freed (db : Ledger) : Prop :=
  ∀ i ∈ db.mutations.rows, i.request.isCreate = true → i.state = .rejected →
    i.localFolderId = none

theorem Freed.step (hf : Freed u.shared.db) (hu : LedgerOk u.shared)
    (h : CallerStep May u e v) : Freed v.shared.db := by
  intro j hj hcreate hrejected
  rcases h.backward hj with ⟨i, hi, hmoves⟩ | ⟨_, _, _, _, _, _, -, -, -, hnew⟩
  · have hreq : i.request.isCreate = true := hmoves.keeps.2.2.2 ▸ hcreate
    by_cases hold : i.state = .rejected
    · have hnone := hf i hi hreq hold
      cases hmoves with
      | same => exact hnone
      | call moved =>
          cases moved with
          | kept => exact hnone
          | unlinked => rfl
          | begun => cases hrejected
          | confirmed => cases hrejected
          | quarantined => cases hrejected
          | cancelled of state => rw [hold] at state; cases state
          | rejected of state => rw [hold] at state; cases state
          | applied => cases hrejected
    · exact (h.released hu hi hreq hold hj hmoves.keeps.1 hrejected).1
  · rw [hnew.state] at hrejected
    cases hrejected

theorem Freed.reach (h : CallersReach May s es t) : Freed t.shared.db := by
  obtain ⟨hs, hcallers, hrun⟩ := h
  have hboth : LedgerOk t.shared ∧ Freed t.shared.db := by
    refine hrun.invariant (I := fun u => LedgerOk u.shared ∧ Freed u.shared.db)
      (fun hu hstep => ⟨hu.1.step hstep, hu.2.step hu.1 hstep⟩) ⟨?_, ?_⟩
    · have hreach : CallersReach May s [] s := ⟨hs, hcallers, .nil⟩
      exact LedgerOk.reach hreach
    · simp [Freed, hs.mutations]
  exact hboth.2

/-- The folder that a create reserved stays with it until it is applied, or is gone for
good. -/
theorem reserved_after (h : Run (CallerStep May) u es v) (hu : LedgerOk u.shared)
    (hfreed : Freed u.shared.db) {i : Intent} (hi : i ∈ u.shared.db.mutations.rows)
    (hcreate : i.request.isCreate = true) {f : Int} (hf : f ∈ i.localFolderId) :
    ∃ j ∈ v.shared.db.mutations.rows, j.id = i.id ∧ (j.state = .applied ∨
      (j.state ≠ .rejected ∧ j.localFolderId = some f) ∨
        ∀ g ∈ v.shared.db.folders.rows, g.id ≠ f) := by
  have hbound : f ≤ u.shared.db.lastFolder := by
    obtain ⟨g, hg, rfl, -⟩ := hu.linked i hi f hf
    exact hu.bounded g hg
  have hkeep : LedgerOk v.shared ∧ f ≤ v.shared.db.lastFolder ∧
      ∃ j ∈ v.shared.db.mutations.rows, j.id = i.id ∧ j.request.isCreate = true ∧
        (j.state = .applied ∨ (j.state ≠ .rejected ∧ j.localFolderId = some f) ∨
          ∀ g ∈ v.shared.db.folders.rows, g.id ≠ f) := by
    refine h.invariant (I := fun v => LedgerOk v.shared ∧ f ≤ v.shared.db.lastFolder ∧
      ∃ j ∈ v.shared.db.mutations.rows, j.id = i.id ∧ j.request.isCreate = true ∧
        (j.state = .applied ∨ (j.state ≠ .rejected ∧ j.localFolderId = some f) ∨
          ∀ g ∈ v.shared.db.folders.rows, g.id ≠ f)) ?_
      ⟨hu, hbound, i, hi, rfl, hcreate, .inr (.inl ⟨fun hr => ?_, hf⟩)⟩
    · rintro v e w ⟨hv, hle, j, hj, hid, hreq, hcases⟩ hstep
      have hfolders := hstep.keepsFolders
      refine ⟨hv.step hstep, hle.trans hfolders.last, ?_⟩
      obtain ⟨k, hk, hmoves⟩ := hstep.forward hj
      refine ⟨k, hk, hmoves.keeps.1.trans hid, hmoves.keeps.2.2.2 ▸ hreq, ?_⟩
      rcases hcases with happlied | ⟨hstate, hhas⟩ | hgone
      · refine .inl ((hmoves.done ?_).trans happlied)
        simp [Intent.active, happlied]
      · by_cases hrejected : k.state = .rejected
        · exact .inr (.inr ((hstep.released hv hj hreq hstate hk hmoves.keeps.1 hrejected).2 f
            hhas))
        · rcases hstep.ledger with hsame | ⟨_, c, a, fresh, rfl, -, -, heffect⟩
          · rw [hsame] at hk
            rw [eq_of_intent_id hk hj hmoves.keeps.1]
            exact .inr (.inl ⟨hstate, hhas⟩)
          · obtain ⟨m, hm, hmid, hlost⟩ := heffect.lost hj hhas
            obtain rfl := eq_of_intent_id hm hk (hmid.trans hmoves.keeps.1.symm)
            rcases hlost with happlied | hkept | hgone
            · exact .inl happlied
            · exact .inr (.inl ⟨hrejected, hkept⟩)
            · exact .inr (.inr hgone)
      · refine .inr (.inr fun g hg hgid => ?_)
        obtain ⟨g', hg', hgid'⟩ := hfolders.old g hg (hgid ▸ hle)
        exact hgone g' hg' (hgid'.trans hgid)
    · rw [hfreed i hi hcreate hr] at hf
      cases hf
  obtain ⟨-, -, j, hj, hid, -, hcases⟩ := hkeep
  exact ⟨j, hj, hid, hcases⟩

end

/-! ## Local effects -/

/-- The folders but one, without links to it. -/
def Ledger.outside (db : Ledger) (own : Option Int) : List Folder :=
  (db.folders.rows.filter fun f => some f.id ≠ own).map fun f =>
    if f.parentId = own then { f with parentId := none } else f

/-- Nothing changes locally but for one folder. -/
structure LocalFrame (own : Option Int) (db db' : Ledger) : Prop where
  stars : db'.stars = db.stars
  members : (db'.members.rows.filter fun m => some m.folderId ≠ own) =
    db.members.rows.filter fun m => some m.folderId ≠ own
  folders : db'.outside own = db.outside own

/-- The calls of the machinery, but for the one that applies. -/
def StoreCall.journals : StoreCall → Bool
  | prepareMutation .. | mutation .. | beginMutationSend .. | confirmMutation ..
  | unknownMutation .. | cancelPreparedMutation .. | rejectMutation .. => true
  | _ => false

section

variable {db db' : Ledger} {fresh : Uuid} {user now : Int}

variable {own : Option Int} {p : Folder → Bool} {i : Intent}

theorem LocalFrame.of_same (hfolders : db'.folders = db.folders)
    (hmembers : db'.members = db.members) (hstars : db'.stars = db.stars) :
    LocalFrame own db db' := by
  refine ⟨hstars, by rw [hmembers], ?_⟩
  simp only [Ledger.outside, hfolders]

theorem deleteFolders_members {n : Nat} (h : deleteFolders p db = .ok (n, db')) :
    db'.members.rows =
      db.members.rows.filter fun m => !loses (db.folders.rows.filter p) m.folderId := by
  simp only [deleteFolders, Tx.bind_eq_ok, Tx.get_eq_ok] at h
  obtain ⟨_, _, ⟨rfl, rfl⟩, h⟩ := h
  generalize Table.update (Table.delete db.folders p).1 _ _ = folders at h
  generalize Table.update db.mutations _ _ = mutations at h
  cases folders with
  | none => cases h
  | some folders =>
      cases mutations with
      | none => cases h
      | some mutations =>
          simp only [Tx.bind_eq_ok, Tx.set_eq_ok, Tx.pure_eq_ok] at h
          obtain ⟨_, _, rfl, -, rfl⟩ := h
          rfl

/-- The folder that is deleted is the only one that changes. -/
theorem LocalFrame.of_delete {n : Nat} (hp : ∀ f ∈ db.folders.rows, p f = true → some f.id = own)
    (h : deleteFolders p db = .ok (n, db')) : LocalFrame own db db' := by
  obtain ⟨hfolders, -, hstars, -⟩ := deleteFolders_eq_ok h
  have hloses : ∀ x, some x ≠ own → loses (db.folders.rows.filter p) x = false := by
    intro x hx
    rw [loses, List.any_eq_false]
    intro f hf hid
    obtain ⟨hf, hpf⟩ := List.mem_filter.mp hf
    exact hx (of_decide_eq_true hid ▸ hp f hf hpf)
  refine ⟨hstars, ?_, ?_⟩
  · rw [deleteFolders_members h, List.filter_filter]
    refine List.filter_congr fun m _ => ?_
    by_cases hm : some m.folderId = own
    · simp [hm]
    · simp [hm, hloses m.folderId hm]
  · have horphan : ∀ f : Folder,
        (if (f.orphan (db.folders.rows.filter p)).parentId = own then
          { f.orphan (db.folders.rows.filter p) with parentId := none }
        else f.orphan (db.folders.rows.filter p)) =
          if f.parentId = own then { f with parentId := none } else f := by
      intro f
      by_cases hf : f.parentId = own
      · rw [if_pos hf]
        unfold Folder.orphan
        by_cases hlost : f.parentId.any (loses (db.folders.rows.filter p)) = true
        · rw [if_pos hlost]
          split <;> rfl
        · rw [if_neg hlost, if_pos hf]
      · have hkept : f.orphan (db.folders.rows.filter p) = f := by
          unfold Folder.orphan
          refine if_neg fun hlost => ?_
          cases hparent : f.parentId with
          | none => simp [hparent] at hlost
          | some x =>
              rw [hparent, Option.any_some, hloses x (hparent ▸ hf)] at hlost
              cases hlost
        rw [hkept, if_neg hf]
    simp only [Ledger.outside, hfolders, List.filter_map, List.map_map, List.filter_filter]
    have hfilter : (db.folders.rows.filter fun f =>
        ((fun f : Folder => decide (some f.id ≠ own)) ∘
          fun f => f.orphan (db.folders.rows.filter p)) f && !p f) =
        db.folders.rows.filter fun f => some f.id ≠ own := by
      refine List.filter_congr fun f hf => ?_
      dsimp only [Function.comp_apply]
      rw [Folder.orphan_of_mem.1]
      by_cases hpf : p f = true
      · simp [hp f hf hpf]
      · simp [hpf]
    rw [hfilter]
    exact List.map_congr_left fun f _ => horphan f

theorem LocalFrame.of_release {u : Unit} (h : releaseFolder user i db = .ok (u, db')) :
    LocalFrame (if i.request.isCreate then i.localFolderId else none) db db' := by
  rcases releaseFolder_eq_ok h with ⟨hcreate, _, hdelete⟩ | rfl
  · rw [if_pos hcreate]
    refine .of_delete (fun f _ hp => ?_) hdelete
    simp only [Bool.and_eq_true, decide_eq_true_eq] at hp
    exact hp.1
  · exact .of_same rfl rfl rfl

theorem LocalFrame.update {p : Intent → Bool} {f : Intent → Intent} {n : Nat} {w : Ledger}
    (h : LocalFrame own db w) (hu : updateMutations p f w = .ok (n, db')) :
    LocalFrame own db db' := by
  obtain ⟨_, -, rfl⟩ := updateMutations_eq_ok.mp hu
  exact ⟨h.stars, h.members, h.folders⟩

/-- What is prepared reserves a folder at most. -/
theorem LocalFrame.of_prepare {request : Mutation} {folder : Option Int}
    {fields : List (String × Json)}
    (h : prepareRequest user request now db = .ok ((folder, fields), db')) :
    LocalFrame (if request.isCreate then folder else none) db db' := by
  cases prepareRequest_prepared h with
  | createList parent reserve =>
      obtain ⟨row, hrow, hinsert⟩ := reserveFolder_eq_ok reserve
      obtain ⟨folders, hi, -, rfl⟩ := insertFolder_eq_ok.mp hinsert
      refine ⟨rfl, rfl, ?_⟩
      simp only [Ledger.outside, Table.insert_eq_some.mp hi, List.filter_append]
      simp [Mutation.isCreate, (hrow _).1]
  | editList | deleteList | membership | star => exact .of_same rfl rfl rfl

/-- A call that journals changes nothing locally but the folder of a create that was not
sent, or not accepted. -/
theorem LedgerEffect.frame {a : c.Answer} (h : LedgerEffect db fresh db' c a)
    (hc : c.journals = true) : ∃ own, LocalFrame own db db' ∧ ∀ f ∈ own,
      ∃ i, (i ∈ db.mutations.rows ∨ i ∈ db'.mutations.rows) ∧ i.request.isCreate = true ∧
        (i.state = .prepared ∨ i.state = .sending) ∧ i.localFolderId = some f := by
  have hnone : LocalFrame none db db' → ∃ own, LocalFrame own db db' ∧ ∀ f ∈ own,
      ∃ i, (i ∈ db.mutations.rows ∨ i ∈ db'.mutations.rows) ∧ i.request.isCreate = true ∧
        (i.state = .prepared ∨ i.state = .sending) ∧ i.localFolderId = some f :=
    fun h => ⟨none, h, fun f hf => by cases hf⟩
  have hown : ∀ i : Intent, LocalFrame (if i.request.isCreate then i.localFolderId else none)
        db db' → (i ∈ db.mutations.rows ∨ i ∈ db'.mutations.rows) →
        (i.state = .prepared ∨ i.state = .sending) → ∃ own, LocalFrame own db db' ∧ ∀ f ∈ own,
      ∃ i, (i ∈ db.mutations.rows ∨ i ∈ db'.mutations.rows) ∧ i.request.isCreate = true ∧
        (i.state = .prepared ∨ i.state = .sending) ∧ i.localFolderId = some f := by
    intro i hframe hi hstate
    refine ⟨_, hframe, fun f hf => ?_⟩
    split at hf
    · rename_i hcreate
      exact ⟨i, hi, hcreate, hstate, hf⟩
    · cases hf
  cases h with
  | same rests hsame => exact hnone (hsame ▸ .of_same rfl rfl rfl)
  | saved | member | synchronized | deleted => cases hc
  | journalled new =>
      rename_i user request key now i
      obtain ⟨fields, w, hprep, -, hfolders, hmembers, hstars, -, hrows⟩ := new.effect
      have hw := LocalFrame.of_prepare hprep
      refine hown i ?_ (.inr (hrows ▸ List.mem_append_right _ List.mem_cons_self))
        (.inl new.state)
      rw [new.request]
      refine ⟨hstars ▸ hw.stars, hmembers ▸ hw.members, ?_⟩
      rw [← hw.folders]
      simp only [Ledger.outside, hfolders]
  | begun update => exact hnone (.update (.of_same rfl rfl rfl) update)
  | confirmed update | quarantined update => exact hnone (.update (.of_same rfl rfl rfl) update)
  | cancelled mem of state release update =>
      exact hown _ (.update (.of_release release) update) (.inl mem) (.inl state)
  | rejected mem of state release update =>
      exact hown _ (.update (.of_release release) update) (.inl mem) (.inr state)
  | applied => cases hc

/-- A confirmed intent is applied with its effects. -/
theorem applyMutation_confirmed (hi : i ∈ db.mutations.rows) (hstate : i.state = .confirmed)
    {u : Unit} (h : applyMutation i.userId i.id now db = (.ok u, db')) : ∃ prepared remote w n,
      i.prepared = some prepared ∧ i.result = some remote ∧
      applyEffects i.userId i prepared remote now db = .ok ((), w) ∧
      updateMutations (fun j => j.isOf i.userId i.id && j.state = .confirmed) (·.finish now) w =
        .ok (n, db') := by
  have h := Tx.auto_eq_ok.mp h
  simp only [applyMutationOn, Tx.bind_eq_ok, Tx.get_eq_ok, orFail_eq_ok] at h
  obtain ⟨_, _, ⟨rfl, rfl⟩, j, _, ⟨hfind, rfl⟩, h⟩ := h
  obtain rfl := Option.some.inj (hfind.symm.trans (Ledger.intent?_eq_some.mpr ⟨hi, rfl, rfl⟩))
  rw [if_neg (by rw [hstate]; intro h; cases h), if_neg (by simp [hstate])] at h
  simp only [Tx.bind_eq_ok, orFail_eq_ok, Tx.pure_eq_ok] at h
  obtain ⟨prepared, _, ⟨hprepared, rfl⟩, remote, _, ⟨hremote, rfl⟩, _, w, heffects, n, _,
    hupdate, -, rfl⟩ := h
  exact ⟨prepared, remote, w, n, hprepared, hremote, heffects, hupdate⟩

end

/-! ## At most once -/

/-- The turn admits a send of the intent. -/
def CallerTurn.Sends (id : Uuid) (e : CallerTurn) : Prop :=
  ∃ caller intent prepared now, intent.id = id ∧
    e = .answer caller (.store (.beginMutationSend intent prepared now)) (.ok true)

/-- The turn cancels the intent. -/
def CallerTurn.Cancels (id : Uuid) (e : CallerTurn) : Prop :=
  ∃ caller user now, e = .answer caller (.store (.cancelPreparedMutation user id now)) (.ok ())

/-- The turn commits the local effects of the intent. -/
def CommitsEffects (u : Callers) (e : CallerTurn) (v : Callers) (i : Intent) : Prop :=
  ∃ caller now prepared remote w,
    e = .answer caller (.store (.applyMutation i.userId i.id now)) (.ok ()) ∧
    i ∈ u.shared.db.mutations.rows ∧ i.state = .confirmed ∧ i.prepared = some prepared ∧
    i.result = some remote ∧
    applyEffects i.userId i prepared remote now u.shared.db = .ok ((), w) ∧
    v.shared.db.folders = w.folders ∧ v.shared.db.members = w.members ∧
    v.shared.db.stars = w.stars

section

variable {May : Entry → Prop} {s u v t : Callers} {e e' : CallerTurn}
  {es es' es'' : List CallerTurn} {id : Uuid}

/-- A send is admitted for a prepared intent, which is sent from then on. -/
theorem CallerTurn.Sends.row (he : e.Sends id) (h : CallerStep May u e v) :
    ∃ i ∈ u.shared.db.mutations.rows, ∃ j ∈ v.shared.db.mutations.rows,
      i.id = id ∧ j.id = id ∧ i.state = .prepared ∧ j.state = .sending := by
  obtain ⟨caller, intent, prepared, now, rfl, rfl⟩ := he
  rcases h with _ | ⟨turn, gives⟩
  cases gives with
  | @store c fresh a db new result =>
      have h := Tx.auto_eq_ok.mp result
      simp only [Tx.bind_eq_ok, Tx.pure_eq_ok] at h
      obtain ⟨n, w, hupdate, hn, rfl⟩ := h
      obtain ⟨mutations, hu, rfl⟩ := updateMutations_eq_ok.mp hupdate
      obtain ⟨hrows, hcount⟩ := Table.update_eq_some.mp hu
      have hpos : 0 < n := by
        have := of_decide_eq_true hn
        omega
      rw [hcount, List.countP_pos_iff] at hpos
      obtain ⟨i, hi, hp⟩ := hpos
      have hp' := hp
      simp only [Bool.and_eq_true, decide_eq_true_eq] at hp'
      refine ⟨i, hi, _, hrows ▸ List.mem_map_of_mem hi, (isOf_iff.mp hp'.1).1, ?_, hp'.2, ?_⟩
      · rw [if_pos hp]
        exact (isOf_iff.mp hp'.1).1
      · rw [if_pos hp]
        rfl

/-- A cancelled intent was prepared, and is rejected. -/
theorem CallerTurn.Cancels.row (he : e.Cancels id) (h : CallerStep May u e v) :
    ∃ i ∈ u.shared.db.mutations.rows, ∃ j ∈ v.shared.db.mutations.rows,
      i.id = id ∧ j.id = id ∧ i.state = .prepared ∧ j.state = .rejected := by
  obtain ⟨caller, user, now, rfl⟩ := he
  rcases h with _ | ⟨turn, gives⟩
  cases gives with
  | @store c fresh a db new result =>
      have heffect := StoreCall.run_effect result
      cases heffect with
      | same rests => cases rests
      | cancelled mem of state release update =>
          rename_i i w n
          obtain ⟨gone, hrelease⟩ := releaseFolder_rows release
          obtain ⟨_, hu, rfl⟩ := updateMutations_eq_ok.mp update
          have hp : ((i.unlink gone).isOf user id &&
              (i.unlink gone).state = .prepared) = true := by
            rcases i.unlink_cases gone with h | h <;> rw [h] <;>
              simpa [Intent.isOf, state] using of
          refine ⟨i, mem, _, (Table.update_eq_some.mp hu).1 ▸ List.mem_map_of_mem
            (hrelease ▸ List.mem_map_of_mem mem), (isOf_iff.mp of).1, ?_, state, ?_⟩
          · rw [if_pos hp]
            exact (isOf_iff.mp (Bool.and_eq_true_iff.mp hp).1).1
          · rw [if_pos hp]
            rfl

/-- After a send, or a cancellation, no send of the intent is admitted. -/
theorem sends_once (h : Run (CallerStep May) s (es ++ e :: (es' ++ e' :: es'')) t)
    (he : e.Sends id ∨ e.Cancels id) : ¬ e'.Sends id := by
  obtain ⟨u, v, -, hstep, hrest⟩ := h.split_at
  obtain ⟨u', v', hbetween, hstep', -⟩ := hrest.split_at
  intro he'
  obtain ⟨k, hk, -, -, hkid, -, hprepared, -⟩ := he'.row hstep'
  have hleft : ∃ j ∈ v.shared.db.mutations.rows, j.id = id ∧ j.state ≠ .prepared := by
    rcases he with he | he
    · obtain ⟨-, -, j, hj, -, hid, -, hstate⟩ := he.row hstep
      exact ⟨j, hj, hid, by simp [hstate]⟩
    · obtain ⟨-, -, j, hj, -, hid, -, hstate⟩ := he.row hstep
      exact ⟨j, hj, hid, by simp [hstate]⟩
  obtain ⟨j, hj, hid, hstate⟩ := hleft
  obtain ⟨m, hm, hmid, -, hback, -⟩ := row_after hbetween hj
  obtain rfl := eq_of_intent_id hm hk (hmid.trans (hid.trans hkid.symm))
  exact hstate (hback hprepared)

variable {i j : Intent}

/-- An intent becomes applied in the step that commits its effects. -/
theorem CallerStep.applies_iff (h : CallerStep May u e v) (hi : i ∈ u.shared.db.mutations.rows)
    (hj : j ∈ v.shared.db.mutations.rows) (hid : j.id = i.id) :
    i.state ≠ .applied ∧ j.state = .applied ↔ CommitsEffects u e v i := by
  obtain ⟨k, hk, hmoves⟩ := h.forward hi
  obtain rfl := eq_of_intent_id hk hj (hmoves.keeps.1.trans hid.symm)
  have hcommits : ∀ {caller now}, i.state = .confirmed →
      e = .answer caller (.store (.applyMutation i.userId i.id now)) (.ok ()) →
        k.state = .applied ∧ CommitsEffects u e v i := by
    rintro caller now hstate rfl
    rcases h with _ | ⟨turn, gives⟩
    cases gives with
    | store new result =>
        obtain ⟨prepared, remote, w, n, hprepared, hremote, heffects, hupdate⟩ :=
          applyMutation_confirmed hi hstate result
        obtain ⟨mutations, hu, rfl⟩ := updateMutations_eq_ok.mp hupdate
        refine ⟨?_, caller, now, prepared, remote, w, rfl, hi, hstate, hprepared, hremote,
          heffects, rfl, rfl, rfl⟩
        obtain ⟨f, hrows, hf⟩ := (applyEffects_effect heffects).rows
        have hmem : (if ((f i).isOf i.userId i.id && (f i).state = .confirmed) = true
            then (f i).finish now else f i) ∈ mutations.rows :=
          (Table.update_eq_some.mp hu).1 ▸ List.mem_map_of_mem (hrows ▸ List.mem_map_of_mem hi)
        have hp : ((f i).isOf i.userId i.id && (f i).state = .confirmed) = true := by
          rw [(hf i).folder]
          simp [Intent.isOf, hstate]
        rw [if_pos hp] at hmem
        have hfinished : ((f i).finish now).id = i.id := by
          rw [(hf i).folder]
          rfl
        rw [← eq_of_intent_id hmem hj (hfinished.trans hid.symm)]
        rfl
  constructor
  · rintro ⟨hnot, happlied⟩
    rcases hmoves.applied_cases happlied with hold | ⟨hstate, caller, now, he⟩
    · exact absurd hold hnot
    · exact (hcommits hstate he).2
  · rintro ⟨caller, now, prepared, remote, w, he, -, hstate, -⟩
    exact ⟨by simp [hstate], (hcommits hstate he).1⟩

/-- An intent that is applied was so at the start, or its effects were committed. -/
theorem committed_of_applied (h : Run (CallerStep May) s es t)
    (hj : j ∈ t.shared.db.mutations.rows) (hstate : j.state = .applied) :
    (∃ i ∈ s.shared.db.mutations.rows, i.id = j.id ∧ i.state = .applied) ∨
      ∃ es₁ e es₂ u v i, es = es₁ ++ e :: es₂ ∧ Run (CallerStep May) s es₁ u ∧
        CallerStep May u e v ∧ Run (CallerStep May) v es₂ t ∧ i.id = j.id ∧
          CommitsEffects u e v i := by
  induction h generalizing j with
  | nil => exact .inl ⟨j, hj, rfl, hstate⟩
  | @snoc es u v e hrun hstep ih =>
      rcases hstep.backward hj with ⟨i, hi, hmoves⟩ | ⟨_, _, _, _, _, _, -, -, -, hnew⟩
      · by_cases hold : i.state = .applied
        · rcases ih hi hold with ⟨k, hk, hid, hk'⟩ | ⟨es₁, e', es₂, u', v', k, rfl, h₁, hs, h₂,
            hid, hk⟩
          · exact .inl ⟨k, hk, hid.trans hmoves.keeps.1.symm, hk'⟩
          · refine .inr ⟨es₁, e', es₂ ++ [e], u', v', k, by simp, h₁, hs, h₂.snoc hstep,
              hid.trans hmoves.keeps.1.symm, hk⟩
        · exact .inr ⟨es, e, [], u, v, i, rfl, hrun, hstep, .nil, hmoves.keeps.1.symm,
            (hstep.applies_iff hi hj hmoves.keeps.1).mp ⟨hold, hstate⟩⟩
      · rw [hnew.state] at hstate
        cases hstate

/-- The effects of an intent are committed once. -/
theorem commits_once (hstep : CallerStep May u e v) {k : Intent}
    (hcommits : CommitsEffects u e v i) {u' v' : Callers} (h : Run (CallerStep May) v es u')
    (hid : k.id = i.id) : ¬ CommitsEffects u' e' v' k := by
  have hi : i ∈ u.shared.db.mutations.rows := by
    obtain ⟨_, _, _, _, _, -, hi, -⟩ := hcommits
    exact hi
  obtain ⟨j, hj, hmoves⟩ := hstep.forward hi
  have happlied := ((hstep.applies_iff hi hj hmoves.keeps.1).mpr hcommits).2
  obtain ⟨m, hm, hmid, -, -, hdone⟩ := row_after h hj
  rintro ⟨_, _, _, _, _, -, hk, hstate, -⟩
  obtain rfl := eq_of_intent_id hk hm (hid.trans (hmoves.keeps.1.symm.trans hmid.symm))
  rw [hdone (by simp [Intent.active, happlied]), happlied] at hstate
  cases hstate

/-- A key that stands for another request is refused. -/
theorem prepareMutation_conflict {user now : Int} {request : Mutation} {key : String}
    (hi : i ∈ db.mutations.rows) (huser : i.userId = user) (hkey : i.requestKey = some key)
    (hreq : i.request ≠ request) :
    prepareMutation user request (some key) now fresh db = (.error .invalid, db) := by
  unfold prepareMutation
  split
  · rfl
  · cases hfind : db.keyed? user (some key) with
    | none =>
        have := List.find?_eq_none.mp hfind i hi
        simp [huser, hkey] at this
    | some j =>
        have hp := List.find?_some hfind
        simp only [Bool.and_eq_true, decide_eq_true_eq] at hp
        obtain rfl : j = i := by
          refine db.mutations.eq_of_clash (List.mem_of_find?_eq_some hfind) hi ?_ ?_ <;>
            simp [mutationSchema, hp, huser, hkey]
        have hbody : prepareMutationOn user request (some key) now fresh db =
            .error .invalid := by
          refine (Tx.bind_of_ok (rfl : (get : LedgerStmt Ledger) db = .ok (db, db))).trans ?_
          simp only [hfind, if_neg hreq]
          rfl
        rw [Tx.auto_eq, hbody]

end

/-- Anyone may call. -/
abbrev anyEntry : Entry → Prop := fun _ => True

/-- **At most once.** Whatever callers do in whatever order: at most one intent of a user
is active; its send is admitted once, and not after it was cancelled; it is never prepared
again; its effects are committed in one step, the one that applies it, and by nothing else;
a create that was rejected has left no folder; and a key stands for one request. -/
theorem mutations_sent_and_applied_once :
    (∀ s es t, CallersReach anyEntry s es t →
      ∀ i ∈ t.shared.db.mutations.rows, ∀ j ∈ t.shared.db.mutations.rows,
        i.userId = j.userId → i.active = true → j.active = true → i = j) ∧
    (∀ s es e es' e' es'' t id, CallersReach anyEntry s (es ++ e :: (es' ++ e' :: es'')) t →
      e.Sends id ∨ e.Cancels id → ¬ e'.Sends id) ∧
    (∀ s es u es' v, CallersReach anyEntry s es u → Run (CallerStep anyEntry) u es' v →
      ∀ i ∈ u.shared.db.mutations.rows, ∀ j ∈ v.shared.db.mutations.rows, j.id = i.id →
        j.state = .prepared → i.state = .prepared) ∧
    (∀ s es u e v, CallersReach anyEntry s es u → CallerStep anyEntry u e v →
      (∀ i ∈ u.shared.db.mutations.rows, ∀ j ∈ v.shared.db.mutations.rows, j.id = i.id →
        (i.state ≠ .applied ∧ j.state = .applied ↔ CommitsEffects u e v i)) ∧
      (∀ caller c a, e = .answer caller (.store c) a → c.journals = true →
        ∃ own, LocalFrame own u.shared.db v.shared.db ∧ ∀ f ∈ own, ∃ i,
          (i ∈ u.shared.db.mutations.rows ∨ i ∈ v.shared.db.mutations.rows) ∧
            i.request.isCreate = true ∧ (i.state = .prepared ∨ i.state = .sending) ∧
            i.localFolderId = some f) ∧
      ∀ i, CommitsEffects u e v i → ∀ es' u' e' v' k, Run (CallerStep anyEntry) v es' u' →
        CallerStep anyEntry u' e' v' → k.id = i.id → ¬ CommitsEffects u' e' v' k) ∧
    (∀ s es t, CallersReach anyEntry s es t → ∀ j ∈ t.shared.db.mutations.rows,
      j.state = .applied → ∃ es₁ e es₂ u v i, es = es₁ ++ e :: es₂ ∧
        Run (CallerStep anyEntry) s es₁ u ∧ CallerStep anyEntry u e v ∧
        Run (CallerStep anyEntry) v es₂ t ∧ i.id = j.id ∧ CommitsEffects u e v i) ∧
    (∀ s es u es' t, CallersReach anyEntry s es u → Run (CallerStep anyEntry) u es' t →
      ∀ i ∈ u.shared.db.mutations.rows, i.request.isCreate = true →
        ∀ j ∈ t.shared.db.mutations.rows, j.id = i.id → j.state = .rejected →
          j.localFolderId = none ∧
            ∀ f ∈ i.localFolderId, ∀ g ∈ t.shared.db.folders.rows, g.id ≠ f) ∧
    (∀ s es t, CallersReach anyEntry s es t → ∀ i ∈ t.shared.db.mutations.rows,
      ∀ key ∈ i.requestKey,
        (∀ j ∈ t.shared.db.mutations.rows, j.userId = i.userId → j.requestKey = some key →
          j = i) ∧
        ∀ request now fresh, request ≠ i.request →
          prepareMutation i.userId request (some key) now fresh t.shared.db =
            (.error .invalid, t.shared.db)) := by
  refine ⟨?_, ?_, ?_, ?_, ?_, ?_, ?_⟩
  · intro s es t h i hi j hj hu hai haj
    exact eq_of_active hi hj hu hai haj
  · intro s es e es' e' es'' t id h he
    exact sends_once h.2.2 he
  · intro s es u es' v hs h i hi j hj hid hprepared
    obtain ⟨k, hk, hkid, -, hback, -⟩ := row_after h hi
    obtain rfl := eq_of_intent_id hk hj (hkid.trans hid.symm)
    exact hback hprepared
  · intro s es u e v hs hstep
    refine ⟨fun i hi j hj hid => hstep.applies_iff hi hj hid, ?_, ?_⟩
    · rintro caller c a rfl hc
      rcases hstep.ledger with hsame | ⟨_, c', a', fresh, he, -, -, heffect⟩
      · refine ⟨none, ?_, fun f hf => by cases hf⟩
        rw [hsame]
        exact .of_same rfl rfl rfl
      · cases he
        exact heffect.frame hc
    · intro i hcommits es' u' e' v' k hrun _ hid
      exact commits_once hstep hcommits hrun hid
  · intro s es t h j hj hstate
    rcases committed_of_applied h.2.2 hj hstate with ⟨i, hi, -⟩ | hcommitted
    · rw [h.1.mutations] at hi
      cases hi
    · exact hcommitted
  · intro s es u es' t hs h i hi hcreate j hj hid hrejected
    have hreach : CallersReach anyEntry s (es ++ es') t := ⟨hs.1, hs.2.1, hs.2.2.append h⟩
    obtain ⟨k, hk, hkid, hreq, -⟩ := row_after h hi
    obtain rfl := eq_of_intent_id hk hj (hkid.trans hid.symm)
    refine ⟨Freed.reach hreach k hk (hreq ▸ hcreate) hrejected, fun f hf => ?_⟩
    obtain ⟨m, hm, hmid, hcases⟩ := reserved_after h (.reach hs) (.reach hs) hi hcreate hf
    obtain rfl := eq_of_intent_id hm hk (hmid.trans hid.symm)
    rcases hcases with happlied | ⟨hstate, -⟩ | hgone
    · rw [hrejected] at happlied
      cases happlied
    · exact absurd hrejected hstate
    · exact hgone
  · intro s es t h i hi key hkey
    refine ⟨fun j hj hu hk => ?_, fun request now fresh hreq => ?_⟩
    · refine t.shared.db.mutations.eq_of_clash hj hi ?_ ?_ <;>
        simp [mutationSchema, hu, hk, Option.mem_def.mp hkey]
    · exact prepareMutation_conflict hi rfl hkey hreq.symm

section

open Scenario

/-- One starred repository of user 1. -/
def starredOnce : Callers :=
  ⟨⟨⟨.empty _, .empty _, ⟨[⟨1, 1, 10, "octo/repo", "octo", none, 0,
    "https://github.com/octo/repo", true, some "node"⟩], by decide, by decide⟩, .empty _, 0, 1⟩,
    []⟩, []⟩

/-- Stars are taken off and on. -/
def starring : GithubWorld := fun
  | .star .. => .ok ()
  | _ => .error .external

/-- User 1 takes the star off. -/
def unstarred : List ScriptLine := .enter (.star 1 1 false) :: turns 0 starring 21

/-- The effects of taking a star off are committed. -/
theorem mutations_sent_and_applied_once_unstarred :
    ∃ es₁ e es₂ u v i, (play perform starredOnce unstarred).1 = es₁ ++ e :: es₂ ∧
      Run (CallerStep anyEntry) starredOnce es₁ u ∧ CallerStep anyEntry u e v ∧
      Run (CallerStep anyEntry) v es₂ (after starredOnce unstarred) ∧
      i.id = uuid 0 ∧ CommitsEffects u e v i := by
  have hrun : CallersReach anyEntry starredOnce (play perform starredOnce unstarred).1
      (after starredOnce unstarred) := by
    refine ⟨⟨rfl, by decide, by decide⟩, rfl, ?_⟩
    exact plays (fun _ _ => trivial) (show Lib.allowed perform (may fun _ => true) starredOnce
      unstarred = true by decide +kernel)
  have hrow : ∃ j ∈ (after starredOnce unstarred).shared.db.mutations.rows,
      j.id = uuid 0 ∧ j.state = .applied := by
    decide +kernel
  obtain ⟨j, hj, hid, hstate⟩ := hrow
  obtain ⟨es₁, e, es₂, u, v, i, h⟩ :=
    mutations_sent_and_applied_once.2.2.2.2.1 _ _ _ hrun j hj hstate
  exact ⟨es₁, e, es₂, u, v, i, h.1, h.2.1, h.2.2.1, h.2.2.2.1, h.2.2.2.2.1.trans hid,
    h.2.2.2.2.2⟩

end

end YoinkCore.Inbox
