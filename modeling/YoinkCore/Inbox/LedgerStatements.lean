import YoinkCore.Inbox.Coordinator

/-!
# Statements on the ledger

What a statement that goes through leaves of the tables, and what the writers of folders
and stars leave alone: the mutations, the folders that are there, and everything of other
users.
-/

namespace YoinkCore.Inbox

open Lib
open Storage (Uuid)

/-! ## Rows -/

theorem folderSchema_id : Table.Keyed folderSchema Folder.id := by
  intro a b h
  simp [folderSchema, h]

theorem starSchema_id : Table.Keyed starSchema Star.id := by
  intro a b h
  simp [starSchema, h]

theorem mutationSchema_id : Table.Keyed mutationSchema Intent.id := by
  intro a b h
  simp [mutationSchema, h]

variable {f : Folder} {i j : Intent}

theorem eq_of_folder_id {T : Table folderSchema} {g : Folder} (hf : f ∈ T.rows) (hg : g ∈ T.rows)
    (h : f.id = g.id) : f = g :=
  List.inj_on_of_nodup_map (T.keys_nodup folderSchema_id) hf hg h

theorem eq_of_intent_id {T : Table mutationSchema} (hi : i ∈ T.rows) (hj : j ∈ T.rows)
    (h : i.id = j.id) : i = j :=
  List.inj_on_of_nodup_map (T.keys_nodup mutationSchema_id) hi hj h

/-- The unique index of the active rows. -/
theorem eq_of_active {T : Table mutationSchema} (hi : i ∈ T.rows) (hj : j ∈ T.rows)
    (hu : i.userId = j.userId) (hai : i.active = true) (haj : j.active = true) : i = j :=
  T.eq_of_clash hi hj (by simp [mutationSchema, hu, hai, haj])
    (by simp [mutationSchema, hu, hai, haj])

namespace Ledger

variable {db : Ledger} {user : Int}

theorem folder?_eq_some {id : Int} :
    db.folder? user id = some f ↔ f ∈ db.folders.rows ∧ f.userId = user ∧ f.id = id := by
  constructor
  · intro h
    have hp := List.find?_some h
    simp only [Bool.and_eq_true, decide_eq_true_eq] at hp
    exact ⟨List.mem_of_find?_eq_some h, hp⟩
  · rintro ⟨hf, rfl, rfl⟩
    cases hfind : db.folder? f.userId f.id with
    | none =>
        have := List.find?_eq_none.mp hfind f hf
        simp at this
    | some g =>
        have hp := List.find?_some hfind
        simp only [Bool.and_eq_true, decide_eq_true_eq] at hp
        rw [eq_of_folder_id (List.mem_of_find?_eq_some hfind) hf hp.2]

theorem intent?_eq_some {id : Uuid} :
    db.intent? user id = some i ↔ i ∈ db.mutations.rows ∧ i.userId = user ∧ i.id = id := by
  constructor
  · intro h
    have hp := List.find?_some h
    simp only [Bool.and_eq_true, decide_eq_true_eq] at hp
    exact ⟨List.mem_of_find?_eq_some h, hp⟩
  · rintro ⟨hi, rfl, rfl⟩
    cases hfind : db.intent? i.userId i.id with
    | none =>
        have := List.find?_eq_none.mp hfind i hi
        simp at this
    | some j =>
        have hp := List.find?_some hfind
        simp only [Bool.and_eq_true, decide_eq_true_eq] at hp
        rw [eq_of_intent_id (List.mem_of_find?_eq_some hfind) hi hp.2]

theorem star?_eq_some {id : Int} {s : Star} (h : db.star? user id = some s) :
    s ∈ db.stars.rows ∧ s.userId = user ∧ s.id = id := by
  have hp := List.find?_some h
  simp only [Bool.and_eq_true, decide_eq_true_eq] at hp
  exact ⟨List.mem_of_find?_eq_some h, hp⟩

end Ledger

/-! ## Statements -/

section

variable {db db' : Ledger}

@[simp] theorem orFail_eq_ok {α : Type} {e : Error} {value : Option α} {a : α} :
    orFail e value db = .ok (a, db') ↔ value = some a ∧ db = db' := by
  cases value <;> simp [orFail]

variable {p : Folder → Bool}

theorem updateFolders_eq_ok {f : Folder → Folder} {changed : Nat} :
    updateFolders p f db = .ok (changed, db') ↔
      ∃ folders, db.folders.update p f = some (folders, changed) ∧
        db' = { db with folders } := by
  simp only [updateFolders, Tx.bind_eq_ok, Tx.get_eq_ok]
  constructor
  · rintro ⟨_, _, ⟨rfl, rfl⟩, h⟩
    cases hu : db.folders.update p f with
    | none => simp [hu] at h
    | some u =>
        simp only [hu, Tx.bind_eq_ok, Tx.set_eq_ok, Tx.pure_eq_ok] at h
        obtain ⟨_, _, rfl, rfl, rfl⟩ := h
        exact ⟨_, rfl, rfl⟩
  · rintro ⟨folders, hu, rfl⟩
    refine ⟨db, db, ⟨rfl, rfl⟩, ?_⟩
    rw [hu]
    rfl

theorem updateStars_eq_ok {p : Star → Bool} {f : Star → Star} {changed : Nat} :
    updateStars p f db = .ok (changed, db') ↔
      ∃ stars, db.stars.update p f = some (stars, changed) ∧ db' = { db with stars } := by
  simp only [updateStars, Tx.bind_eq_ok, Tx.get_eq_ok]
  constructor
  · rintro ⟨_, _, ⟨rfl, rfl⟩, h⟩
    cases hu : db.stars.update p f with
    | none => simp [hu] at h
    | some u =>
        simp only [hu, Tx.bind_eq_ok, Tx.set_eq_ok, Tx.pure_eq_ok] at h
        obtain ⟨_, _, rfl, rfl, rfl⟩ := h
        exact ⟨_, rfl, rfl⟩
  · rintro ⟨stars, hu, rfl⟩
    refine ⟨db, db, ⟨rfl, rfl⟩, ?_⟩
    rw [hu]
    rfl

theorem updateMutations_eq_ok {p : Intent → Bool} {f : Intent → Intent} {changed : Nat} :
    updateMutations p f db = .ok (changed, db') ↔
      ∃ mutations, db.mutations.update p f = some (mutations, changed) ∧
        db' = { db with mutations } := by
  simp only [updateMutations, Tx.bind_eq_ok, Tx.get_eq_ok]
  constructor
  · rintro ⟨_, _, ⟨rfl, rfl⟩, h⟩
    cases hu : db.mutations.update p f with
    | none => simp [hu] at h
    | some u =>
        simp only [hu, Tx.bind_eq_ok, Tx.set_eq_ok, Tx.pure_eq_ok] at h
        obtain ⟨_, _, rfl, rfl, rfl⟩ := h
        exact ⟨_, rfl, rfl⟩
  · rintro ⟨mutations, hu, rfl⟩
    refine ⟨db, db, ⟨rfl, rfl⟩, ?_⟩
    rw [hu]
    rfl

theorem insertFolder_eq_ok {row : Int → Folder} {id : Int} :
    insertFolder row db = .ok (id, db') ↔
      ∃ folders, db.folders.insert (row id) = some folders ∧ id = db.lastFolder + 1 ∧
        db' = { db with folders, lastFolder := id } := by
  simp only [insertFolder, Tx.bind_eq_ok, Tx.get_eq_ok]
  constructor
  · rintro ⟨_, _, ⟨rfl, rfl⟩, h⟩
    cases hi : db.folders.insert (row (db.lastFolder + 1)) with
    | none => simp [hi] at h
    | some folders =>
        simp only [hi, Tx.bind_eq_ok, Tx.set_eq_ok, Tx.pure_eq_ok] at h
        obtain ⟨_, _, rfl, rfl, rfl⟩ := h
        exact ⟨folders, hi, rfl, rfl⟩
  · rintro ⟨folders, hi, rfl, rfl⟩
    refine ⟨db, db, ⟨rfl, rfl⟩, ?_⟩
    rw [hi]
    rfl

theorem insertMutation_eq_ok {row : Intent} {u : Unit} :
    insertMutation row db = .ok (u, db') ↔
      ∃ mutations, db.mutations.insert row = some mutations ∧ db' = { db with mutations } := by
  simp only [insertMutation, Tx.bind_eq_ok, Tx.get_eq_ok]
  constructor
  · rintro ⟨_, _, ⟨rfl, rfl⟩, h⟩
    cases hi : db.mutations.insert row with
    | none => simp [hi] at h
    | some mutations =>
        simp only [hi, Tx.set_eq_ok] at h
        exact ⟨mutations, rfl, h.symm⟩
  · rintro ⟨mutations, hi, rfl⟩
    refine ⟨db, db, ⟨rfl, rfl⟩, ?_⟩
    rw [hi]
    rfl

theorem insertMembers_eq_ok {rows : List FolderMember} {u : Unit}
    (h : insertMembers rows db = .ok (u, db')) : ∃ members, db' = { db with members } := by
  simp only [insertMembers, Tx.bind_eq_ok, Tx.get_eq_ok] at h
  obtain ⟨_, _, ⟨rfl, rfl⟩, h⟩ := h
  generalize Table.ofRows memberSchema _ = members at h
  cases members with
  | none => cases h
  | some members => exact ⟨members, (Tx.set_eq_ok.mp h).symm⟩

theorem deleteMembers_eq_ok {p : FolderMember → Bool} {u : Unit}
    (h : deleteMembers p db = .ok (u, db')) : ∃ members, db' = { db with members } := by
  cases h
  exact ⟨_, rfl⟩

/-- The intent of a deleted folder loses it. -/
def Intent.unlink (gone : List Folder) (i : Intent) : Intent :=
  if i.localFolderId.any (loses gone) then { i with localFolderId := none } else i

def Folder.orphan (gone : List Folder) (f : Folder) : Folder :=
  if f.parentId.any (loses gone) then { f with parentId := none } else f

theorem deleteFolders_eq_ok {deleted : Nat} (h : deleteFolders p db = .ok (deleted, db')) :
    db'.folders.rows =
        (db.folders.rows.filter (!p ·)).map (·.orphan (db.folders.rows.filter p)) ∧
      db'.mutations.rows = db.mutations.rows.map (·.unlink (db.folders.rows.filter p)) ∧
      db'.stars = db.stars ∧ db'.lastFolder = db.lastFolder ∧ db'.lastStar = db.lastStar ∧
      deleted = db.folders.rows.countP p := by
  simp only [deleteFolders, Tx.bind_eq_ok, Tx.get_eq_ok] at h
  obtain ⟨_, _, ⟨rfl, rfl⟩, h⟩ := h
  cases hf : (db.folders.delete p).1.update (·.parentId.any (loses (db.folders.rows.filter p)))
      ({ · with parentId := none }) with
  | none =>
      rw [hf] at h
      cases h
  | some folders =>
      cases hm : db.mutations.update (·.localFolderId.any (loses (db.folders.rows.filter p)))
          ({ · with localFolderId := none }) with
      | none =>
          rw [hf, hm] at h
          cases h
      | some mutations =>
          rw [hf, hm] at h
          simp only [Tx.bind_eq_ok, Tx.set_eq_ok, Tx.pure_eq_ok] at h
          obtain ⟨_, _, rfl, rfl, rfl⟩ := h
          exact ⟨(Table.update_eq_some.mp hf).1, (Table.update_eq_some.mp hm).1, rfl, rfl, rfl,
            rfl⟩

theorem Folder.orphan_of_mem {gone : List Folder} :
    (f.orphan gone).id = f.id ∧ (f.orphan gone).userId = f.userId ∧
      (f.orphan gone).ghListId = f.ghListId := by
  unfold Folder.orphan
  split <;> exact ⟨rfl, rfl, rfl⟩

/-- A deletion is not refused. -/
theorem deleteFolders_ok (p : Folder → Bool) (db : Ledger) :
    ∃ deleted db', deleteFolders p db = .ok (deleted, db') := by
  obtain ⟨folders, n, hf⟩ := (db.folders.delete p).1.update_of_keeps
    (p := (·.parentId.any (loses (db.folders.rows.filter p))))
    (f := ({ · with parentId := none }))
    (fun f hf _ => (db.folders.delete p).1.checked f hf) (fun a b h => by
      split <;> split <;> exact h)
  obtain ⟨mutations, m, hm⟩ := db.mutations.update_of_keeps
    (p := (·.localFolderId.any (loses (db.folders.rows.filter p))))
    (f := ({ · with localFolderId := none }))
    (fun i hi _ => db.mutations.checked i hi) (fun a b h => by
      split <;> split <;> exact h)
  refine ⟨db.folders.rows.countP p, { db with
    folders, mutations
    members := (db.members.delete fun m => loses (db.folders.rows.filter p) m.folderId).1 }, ?_⟩
  simp only [deleteFolders, Tx.bind_eq_ok, Tx.get_eq_ok]
  refine ⟨db, db, ⟨rfl, rfl⟩, ?_⟩
  rw [hf, hm]
  rfl

end

/-! ## The folders and stars of a user -/

/-- What writers of the folders and stars of a user leave alone. Folders may come, but none
goes. -/
structure WritesOf (user : Int) (db db' : Ledger) : Prop where
  mutations : db'.mutations = db.mutations
  folders : ∀ f ∈ db.folders.rows, ∃ g ∈ db'.folders.rows, g.id = f.id ∧ g.userId = f.userId
  bounded : (∀ f ∈ db.folders.rows, f.id ≤ db.lastFolder) →
    ∀ f ∈ db'.folders.rows, f.id ≤ db'.lastFolder
  last : db.lastFolder ≤ db'.lastFolder
  old : ∀ g ∈ db'.folders.rows, g.id ≤ db.lastFolder → ∃ f ∈ db.folders.rows, f.id = g.id
  otherFolders : ∀ f : Folder, f.userId ≠ user → (f ∈ db'.folders.rows ↔ f ∈ db.folders.rows)
  otherStars : ∀ s : Star, s.userId ≠ user → (s ∈ db'.stars.rows ↔ s ∈ db.stars.rows)

namespace WritesOf

variable {user : Int} {db db' db'' : Ledger}

theorem refl : WritesOf user db db :=
  ⟨rfl, fun f hf => ⟨f, hf, rfl, rfl⟩, fun h => h, le_rfl, fun f hf _ => ⟨f, hf, rfl⟩,
    fun _ _ => Iff.rfl, fun _ _ => Iff.rfl⟩

theorem trans (h : WritesOf user db db') (h' : WritesOf user db' db'') :
    WritesOf user db db'' where
  mutations := h'.mutations.trans h.mutations
  folders f hf := by
    obtain ⟨g, hg, hid, hu⟩ := h.folders f hf
    obtain ⟨k, hk, hid', hu'⟩ := h'.folders g hg
    exact ⟨k, hk, hid'.trans hid, hu'.trans hu⟩
  bounded hb := h'.bounded (h.bounded hb)
  last := h.last.trans h'.last
  old g hg hle := by
    obtain ⟨k, hk, hid⟩ := h'.old g hg (hle.trans h.last)
    obtain ⟨f, hf, hid'⟩ := h.old k hk (hid ▸ hle)
    exact ⟨f, hf, hid'.trans hid⟩
  otherFolders f hf := (h'.otherFolders f hf).trans (h.otherFolders f hf)
  otherStars s hs := (h'.otherStars s hs).trans (h.otherStars s hs)

/-- Only the members change. -/
theorem members {members : Table memberSchema} :
    WritesOf user db { db with members } :=
  ⟨rfl, fun f hf => ⟨f, hf, rfl, rfl⟩, fun h => h, le_rfl, fun f hf _ => ⟨f, hf, rfl⟩,
    fun _ _ => Iff.rfl, fun _ _ => Iff.rfl⟩

theorem of_insertMembers {rows : List FolderMember} {u : Unit}
    (h : insertMembers rows db = .ok (u, db')) : WritesOf user db db' := by
  obtain ⟨_, rfl⟩ := insertMembers_eq_ok h
  exact members

theorem of_deleteMembers {p : FolderMember → Bool} {u : Unit}
    (h : deleteMembers p db = .ok (u, db')) : WritesOf user db db' := by
  obtain ⟨_, rfl⟩ := deleteMembers_eq_ok h
  exact members

/-- Rows of others are where they were after an update of one's own. -/
theorem mem_map_iff {ρ : Type} {owner : ρ → Int} {p : ρ → Bool} {f : ρ → ρ} {rows : List ρ}
    (hp : ∀ a, p a = true → owner a = user) (hf : ∀ a, owner (f a) = owner a) {a : ρ}
    (ha : owner a ≠ user) :
    a ∈ rows.map (fun b => if p b then f b else b) ↔ a ∈ rows := by
  rw [List.mem_map]
  constructor
  · rintro ⟨b, hb, rfl⟩
    split at ha
    · rename_i hpb
      exact absurd ((hf b).trans (hp b hpb)) ha
    · rename_i hpb
      rwa [if_neg hpb]
  · intro h
    refine ⟨a, h, if_neg fun hpa => ha (hp a hpa)⟩

theorem of_updateFolders {p : Folder → Bool} {f : Folder → Folder} {n : Nat}
    (hp : ∀ g, p g = true → g.userId = user)
    (hf : ∀ g, (f g).id = g.id ∧ (f g).userId = g.userId)
    (h : updateFolders p f db = .ok (n, db')) : WritesOf user db db' := by
  obtain ⟨folders, hu, rfl⟩ := updateFolders_eq_ok.mp h
  have hrows := (Table.update_eq_some.mp hu).1
  have hkeep : ∀ g, (if p g then f g else g).id = g.id ∧
      (if p g then f g else g).userId = g.userId := by
    intro g
    split
    · exact hf g
    · exact ⟨rfl, rfl⟩
  exact {
    mutations := rfl
    folders := fun g hg => ⟨_, hrows ▸ List.mem_map_of_mem hg, hkeep g⟩
    bounded := fun hb g hg => by
      rw [hrows, List.mem_map] at hg
      obtain ⟨k, hk, rfl⟩ := hg
      rw [(hkeep k).1]
      exact hb k hk
    last := le_rfl
    old := fun g hg _ => by
      rw [hrows, List.mem_map] at hg
      obtain ⟨k, hk, rfl⟩ := hg
      exact ⟨k, hk, (hkeep k).1.symm⟩
    otherFolders := fun g hg => hrows ▸ mem_map_iff hp (fun a => (hf a).2) hg
    otherStars := fun _ _ => Iff.rfl }

theorem of_insertFolder {row : Int → Folder} {id : Int}
    (hrow : ∀ id, (row id).id = id ∧ (row id).userId = user)
    (h : insertFolder row db = .ok (id, db')) : WritesOf user db db' := by
  obtain ⟨folders, hi, rfl, rfl⟩ := insertFolder_eq_ok.mp h
  have hrows := Table.insert_eq_some.mp hi
  exact {
    mutations := rfl
    folders := fun g hg => ⟨g, hrows ▸ List.mem_append_left _ hg, rfl, rfl⟩
    bounded := fun hb g hg => by
      rw [hrows, List.mem_append, List.mem_singleton] at hg
      rcases hg with hg | rfl
      · exact (hb g hg).trans (show db.lastFolder ≤ db.lastFolder + 1 by omega)
      · exact (hrow _).1.le
    last := by
      show db.lastFolder ≤ db.lastFolder + 1
      omega
    old := fun g hg hle => by
      rw [hrows, List.mem_append, List.mem_singleton] at hg
      rcases hg with hg | rfl
      · exact ⟨g, hg, rfl⟩
      · rw [(hrow _).1] at hle
        omega
    otherFolders := fun g hg => by
      rw [hrows, List.mem_append, List.mem_singleton]
      refine or_iff_left ?_
      rintro rfl
      exact hg (hrow _).2
    otherStars := fun _ _ => Iff.rfl }

/-- Only stars of the user and members change. -/
theorem stars {stars : Table starSchema} {members : Table memberSchema} {lastStar : Int}
    (h : ∀ s : Star, s.userId ≠ user → (s ∈ stars.rows ↔ s ∈ db.stars.rows)) :
    WritesOf user db { db with stars, members, lastStar } :=
  ⟨rfl, fun f hf => ⟨f, hf, rfl, rfl⟩, fun h => h, le_rfl, fun f hf _ => ⟨f, hf, rfl⟩,
    fun _ _ => Iff.rfl, h⟩

variable {p : Star → Bool}

theorem of_updateStars {f : Star → Star} {n : Nat} (hp : ∀ s, p s = true → s.userId = user)
    (hf : ∀ s, (f s).userId = s.userId) (h : updateStars p f db = .ok (n, db')) :
    WritesOf user db db' := by
  obtain ⟨_, hu, rfl⟩ := updateStars_eq_ok.mp h
  exact stars fun s hs => (Table.update_eq_some.mp hu).1 ▸ mem_map_iff hp hf hs

theorem of_upsertStar {row : Int → Star} {u : Unit} (hrow : ∀ id, (row id).userId = user)
    (h : upsertStar row db = .ok (u, db')) : WritesOf user db db' := by
  simp only [upsertStar, Tx.bind_eq_ok, Tx.get_eq_ok] at h
  obtain ⟨_, _, ⟨rfl, rfl⟩, h⟩ := h
  split at h
  · simp only [Tx.bind_eq_ok, Tx.pure_eq_ok] at h
    obtain ⟨_, _, hu, -, rfl⟩ := h
    obtain ⟨_, hrows, rfl⟩ := updateStars_eq_ok.mp hu
    refine stars fun s hs => ?_
    rw [(Table.update_eq_some.mp hrows).1, List.mem_map]
    constructor
    · rintro ⟨a, ha, rfl⟩
      split at hs
      · exact absurd (hrow _) hs
      · rename_i hn
        rwa [if_neg hn]
    · intro hmem
      refine ⟨s, hmem, if_neg fun hsame => hs ?_⟩
      simp only [Bool.and_eq_true, decide_eq_true_eq] at hsame
      exact hsame.1.trans (hrow _)
  · generalize hi : db.stars.insert _ = inserted at h
    cases inserted with
    | none => cases h
    | some table =>
        obtain rfl := Tx.set_eq_ok.mp h
        refine stars fun s hs => ?_
        rw [Table.insert_eq_some.mp hi, List.mem_append, List.mem_singleton]
        refine or_iff_left ?_
        rintro rfl
        exact hs (hrow _)

theorem of_deleteStars {u : Unit} (hp : ∀ s, p s = true → s.userId = user)
    (h : deleteStars p db = .ok (u, db')) : WritesOf user db db' := by
  simp only [deleteStars, Tx.bind_eq_ok, Tx.get_eq_ok, Tx.set_eq_ok] at h
  obtain ⟨_, _, ⟨rfl, rfl⟩, rfl⟩ := h
  refine stars fun s hs => ?_
  rw [Table.delete_rows, List.mem_filter]
  refine and_iff_left ?_
  cases hps : p s with
  | false => rfl
  | true => exact absurd (hp s hps) hs

/-- A loop writes what its rounds write. -/
theorem of_forM {α : Type} {f : α → LedgerStmt Unit}
    (hf : ∀ a {db db' u}, f a db = .ok (u, db') → WritesOf user db db') {as : List α} :
    ∀ {db db' : Ledger} {u : Unit}, as.forM f db = .ok (u, db') → WritesOf user db db' := by
  induction as with
  | nil =>
      intro db db' u h
      cases h
      exact refl
  | cons a as ih =>
      intro db db' u h
      obtain ⟨_, db₁, hfirst, hrest⟩ := Tx.bind_eq_ok.mp h
      exact (hf a hfirst).trans (ih hrest)

end WritesOf

/-! ## Star synchronization -/

section

variable {user now : Int} {db db' : Ledger}

theorem applyStar_writes {canUnstar : Bool} {repo : Json} {u : Unit}
    (h : applyStar user canUnstar repo db = .ok (u, db')) : WritesOf user db db' := by
  simp only [applyStar, Tx.bind_eq_ok, orFail_eq_ok] at h
  obtain ⟨_, _, ⟨-, rfl⟩, _, _, ⟨-, rfl⟩, _, _, ⟨-, rfl⟩, _, _, ⟨-, rfl⟩, h⟩ := h
  exact .of_upsertStar (fun _ => rfl) h

variable {lists : Option (List ListSnapshot)} {snapshot : StarSnapshot}
  {bridge : Except Error Unit}

theorem applyRows_writes {u : Unit} (h : applyRows user snapshot db = .ok (u, db')) :
    WritesOf user db db' := by
  simp only [applyRows, Tx.bind_eq_ok] at h
  obtain ⟨_, db₁, hloop, hdelete⟩ := h
  refine .trans (.of_forM (fun row _ _ _ h => applyStar_writes h) hloop)
    (.of_deleteStars (fun s hs => ?_) hdelete)
  simp only [Bool.and_eq_true, decide_eq_true_eq] at hs
  exact hs.1

theorem importFolder_writes {list : ListSnapshot} {id : Int}
    (h : importFolder user list now db = .ok (id, db')) : WritesOf user db db' := by
  simp only [importFolder, Tx.bind_eq_ok, Tx.get_eq_ok] at h
  obtain ⟨_, _, ⟨rfl, rfl⟩, h⟩ := h
  generalize db.folders.rows.find? _ = found at h
  cases found with
  | some found =>
      simp only [Tx.bind_eq_ok, Tx.pure_eq_ok] at h
      obtain ⟨_, _, hu, -, rfl⟩ := h
      refine .of_updateFolders (fun g hg => ?_) (fun g => ?_) hu
      · simp only [Bool.and_eq_true, decide_eq_true_eq] at hg
        exact hg.1
      · exact ⟨rfl, rfl⟩
  | none =>
      simp only [importedSlug, Tx.bind_eq_ok, Tx.get_eq_ok, orFail_eq_ok] at h
      obtain ⟨_, _, ⟨_, _, ⟨rfl, rfl⟩, -, rfl⟩, h⟩ := h
      exact .of_insertFolder (fun _ => ⟨rfl, rfl⟩) h

theorem importMember_writes {folder : Int} {item : Int × String} {u : Unit}
    (h : importMember user folder now item db = .ok (u, db')) : WritesOf user db db' := by
  simp only [importMember, Tx.bind_eq_ok, Tx.get_eq_ok] at h
  obtain ⟨_, _, hu, _, _, ⟨rfl, rfl⟩, hi⟩ := h
  refine .trans (.of_updateStars (fun s hs => ?_) (fun s => ?_) hu) (.of_insertMembers hi)
  · simp only [Bool.and_eq_true, decide_eq_true_eq] at hs
    exact hs.1
  · rfl

theorem applyLists_writes {lists : List ListSnapshot} {u : Unit}
    (h : applyLists user now lists db = .ok (u, db')) : WritesOf user db db' := by
  simp only [applyLists, Tx.bind_eq_ok, Tx.get_eq_ok, Tx.pure_eq_ok] at h
  obtain ⟨_, _, ⟨rfl, rfl⟩, _, db₁, hloop, _, _, hu, -, rfl⟩ := h
  refine .trans (.of_forM (fun list db db' u h => ?_) hloop)
    (.of_updateFolders (fun g hg => ?_) (fun g => ?_) hu)
  · simp only [importList, Tx.bind_eq_ok] at h
    obtain ⟨folder, db₂, hfolder, hitems⟩ := h
    exact (importFolder_writes hfolder).trans
      (.of_forM (fun item _ _ _ h => importMember_writes h) hitems)
  · simp only [Bool.and_eq_true, decide_eq_true_eq] at hg
    exact hg.1
  · exact ⟨rfl, rfl⟩

/-- A synchronization that goes through: it did nothing, or its rows and then its lists were
applied, one after the other. -/
theorem applyStarsOn_cases {live : Bool} {done : Bool}
    (h : applyStarsOn live bridge user snapshot lists now db = .ok (done, db')) :
    db' = db ∨ db.active? user = none ∧
      ∃ db₁, (db₁ = db ∨ applyRows user snapshot db = .ok ((), db₁)) ∧
        (db' = db₁ ∨ ∃ lists, applyLists user now lists db₁ = .ok ((), db')) := by
  simp only [applyStarsOn] at h
  split at h
  · obtain ⟨-, rfl⟩ := Tx.pure_eq_ok.mp h
    exact .inl rfl
  simp only [Tx.bind_eq_ok, Tx.get_eq_ok] at h
  obtain ⟨_, _, ⟨rfl, rfl⟩, h⟩ := h
  split at h
  · cases h
  rename_i hactive
  refine .inr ⟨by simpa using hactive, ?_⟩
  split at h
  · obtain ⟨_, db₁, hrows, h⟩ := Tx.bind_eq_ok.mp h
    obtain ⟨_, _, hbridge, h⟩ := Tx.bind_eq_ok.mp h
    obtain ⟨-, rfl⟩ := Tx.ofExcept_eq_ok.mp hbridge
    refine ⟨db₁, .inr hrows, ?_⟩
    cases lists with
    | none => exact .inl (Tx.pure_eq_ok.mp h).2.symm
    | some lists =>
        obtain ⟨_, _, hlists, h⟩ := Tx.bind_eq_ok.mp h
        obtain ⟨-, rfl⟩ := Tx.pure_eq_ok.mp h
        exact .inr ⟨lists, hlists⟩
  · obtain ⟨_, _, hbridge, h⟩ := Tx.bind_eq_ok.mp h
    obtain ⟨-, rfl⟩ := Tx.ofExcept_eq_ok.mp hbridge
    refine ⟨db, .inl rfl, ?_⟩
    cases lists with
    | none => exact .inl (Tx.pure_eq_ok.mp h).2.symm
    | some lists =>
        obtain ⟨_, _, hlists, h⟩ := Tx.bind_eq_ok.mp h
        obtain ⟨-, rfl⟩ := Tx.pure_eq_ok.mp h
        exact .inr ⟨lists, hlists⟩

/-- A synchronization waits for the mutations of its user. -/
theorem applyStars_writes {live : Bool} {done : Bool}
    (h : applyStars live bridge user snapshot lists now db = (.ok done, db')) :
    db' = db ∨ db.active? user = none ∧ WritesOf user db db' := by
  rcases applyStarsOn_cases (Tx.auto_eq_ok.mp h) with rfl | ⟨hactive, db₁, hrows, hlists⟩
  · exact .inl rfl
  refine .inr ⟨hactive, .trans (?_ : WritesOf user db db₁) ?_⟩
  · rcases hrows with rfl | hrows
    · exact .refl
    · exact applyRows_writes hrows
  · rcases hlists with rfl | ⟨lists, hlists⟩
    · exact .refl
    · exact applyLists_writes hlists

end

end YoinkCore.Inbox
