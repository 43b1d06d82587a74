import YoinkCore.Lib.Forest
import YoinkCore.Inbox.MutationApplies

/-!
# Folders are forests

A folder gets a parent where a walk up from the parent does not meet the folder, in the same
transaction. One writer makes no such walk: a create whose list was imported before moves
the children of its own folder to the imported one. When the imported folder is itself below
one of these children, the two are above each other afterwards.
-/

namespace YoinkCore.Inbox

open Lib Relation
open Storage (Uuid)

/-! ## Links -/

def folderTree : TreeColumns Folder Int Int := ⟨Folder.id, Folder.userId, Folder.parentId⟩

/-- Parents are folders of the same user, and no folder is above itself. -/
abbrev Ledger.Forest (db : Ledger) : Prop := folderTree.Forest db.folders.rows

/-- The second folder is the parent of the first. -/
abbrev Ledger.Up (db : Ledger) : Int → Int → Prop := folderTree.Up db.folders.rows

variable {id : Option Int} {db : Ledger} {u : Unit}

variable {visited : List Int} {parent : Option Int} {db' : Ledger}

/-- The walk of the source is the walk up a forest. -/
theorem walkUp_eq {user : Int} {missing : Error} {steps : Nat} :
    walkUp db user id missing steps visited parent =
      match folderTree.walk (db.folder? user) id steps visited parent with
      | .top => .ok ()
      | .blocked => .error .invalid
      | .missing => .error missing := by
  induction steps generalizing visited parent with
  | zero => cases parent <;> rfl
  | succ steps ih =>
      cases parent with
      | none => rfl
      | some p =>
          simp only [walkUp, TreeColumns.walk]
          by_cases hstop : (some p = id || visited.contains p) = true
          · rw [if_pos hstop, if_pos hstop]
          · rw [if_neg hstop, if_neg hstop]
            cases hf : db.folder? user p with
            | none => rfl
            | some f => exact ih

theorem walkUp_eq_ok {user : Int} {missing : Error} {steps : Nat} :
    walkUp db user id missing steps visited parent = .ok () ↔
      folderTree.walk (db.folder? user) id steps visited parent = .top := by
  rw [walkUp_eq]
  cases folderTree.walk (db.folder? user) id steps visited parent <;> simp

theorem folder?_finds (db : Ledger) (user : Int) :
    folderTree.Finds db.folders.rows (db.folder? user) user := by
  intro k r
  rw [Ledger.folder?_eq_some]
  exact ⟨fun ⟨hr, ho, hk⟩ => ⟨hr, hk, ho⟩, fun ⟨hr, hk, ho⟩ => ⟨hr, ho, hk⟩⟩

theorem folder_keys (db : Ledger) : ∀ a ∈ db.folders.rows, ∀ b ∈ db.folders.rows,
    folderTree.key a = folderTree.key b → a = b :=
  fun _ ha _ hb h => eq_of_folder_id ha hb h

/-- A parent that passes the walk is a folder of the user, and not below the folder. -/
theorem above_of_walkUp {user p k : Int} {missing : Error} {steps : Nat}
    (h : walkUp db user id missing steps visited (some p) = .ok ()) (hpk : ReflTransGen db.Up p k) :
    id ≠ some k ∧ ∃ f ∈ db.folders.rows, f.id = k ∧ f.userId = user :=
  TreeColumns.above_of_walk (folder?_finds db user) (folder_keys db) (walkUp_eq_ok.mp h) hpk

theorem parent_of_checkParent {user p : Int} (h : checkParent user id (some p) db = .ok (u, db'))
    {k : Int} (hpk : ReflTransGen db.Up p k) :
    id ≠ some k ∧ ∃ f ∈ db.folders.rows, f.id = k ∧ f.userId = user := by
  simp only [checkParent, Tx.bind_eq_ok, Tx.get_eq_ok, Tx.ofExcept_eq_ok] at h
  obtain ⟨_, _, ⟨rfl, rfl⟩, hwalk, -⟩ := h
  exact above_of_walkUp hwalk hpk

theorem parent_of_checkNewParent {user p : Int}
    (h : checkNewParent user id (some p) db = .ok (u, db')) {k : Int}
    (hpk : ReflTransGen db.Up p k) :
    id ≠ some k ∧ ∃ f ∈ db.folders.rows, f.id = k ∧ f.userId = user := by
  simp only [checkNewParent] at h
  split at h
  · cases h
  · simp only [Tx.bind_eq_ok, Tx.get_eq_ok, orFail_eq_ok, Tx.ofExcept_eq_ok] at h
    obtain ⟨_, _, ⟨rfl, rfl⟩, _, _, ⟨-, rfl⟩, hwalk, -⟩ := h
    exact above_of_walkUp hwalk hpk

/-! ## Statements -/

section

variable {db db' : Ledger} {user now : Int}

/-- A new folder, with a parent of the user or none. -/
theorem Ledger.Forest.insert (hf : db.Forest) {row : Int → Folder} {id : Int}
    (h : insertFolder row db = .ok (id, db'))
    (hparent : ∀ id p, (row id).parentId = some p →
      ∃ f ∈ db.folders.rows, f.id = p ∧ f.userId = (row id).userId) : db'.Forest := by
  obtain ⟨folders, hinsert, rfl, rfl⟩ := insertFolder_eq_ok.mp h
  have hrows := Table.insert_eq_some.mp hinsert
  have hnew : ∀ f ∈ db.folders.rows, f.id ≠ (row (db.lastFolder + 1)).id := by
    intro f hmem he
    have hunique := folders.unique
    rw [hrows, List.pairwise_append] at hunique
    have := hunique.2.2 f hmem _ List.mem_cons_self
    simp [folderSchema, he] at this
  show folderTree.Forest folders.rows
  rw [hrows]
  exact TreeColumns.Forest.insert hf hnew (hparent _)

variable {p : Folder → Bool} {f : Folder → Folder}

/-- Folders move below one that is not below them. -/
theorem Ledger.Forest.move (hf : db.Forest) {n : Nat} (h : updateFolders p f db = .ok (n, db'))
    (hkeeps : ∀ g, (f g).id = g.id ∧
      (f g).userId = g.userId) (target : Int)
    (hmoves : ∀ g ∈ db.folders.rows, p g = true → ∀ k, (f g).parentId = some k →
      g.parentId = some k ∨ (k = target ∧ ¬ ReflTransGen db.Up target g.id ∧
      ∃ q ∈ db.folders.rows, q.id = target ∧ q.userId = g.userId)) : db'.Forest := by
  obtain ⟨folders, hupdate, rfl⟩ := updateFolders_eq_ok.mp h
  show folderTree.Forest folders.rows
  rw [(Table.update_eq_some.mp hupdate).1]
  exact TreeColumns.Forest.update hf hkeeps target hmoves

/-- An update that moves no folder. -/
theorem Ledger.Forest.update (hf : db.Forest) {n : Nat} (h : updateFolders p f db = .ok (n, db'))
    (hkeeps : ∀ g, (f g).id = g.id ∧ (f g).userId = g.userId ∧ (f g).parentId = g.parentId) :
    db'.Forest :=
  hf.move h (fun g => ⟨(hkeeps g).1, (hkeeps g).2.1⟩) 0
    fun g _ _ _ hk => .inl ((hkeeps g).2.2 ▸ hk)

/-- Children of a folder that goes lose their parent. -/
theorem Ledger.Forest.delete (hf : db.Forest) {n : Nat} (h : deleteFolders p db = .ok (n, db')) :
    db'.Forest := by
  show folderTree.Forest db'.folders.rows
  rw [(deleteFolders_eq_ok h).1]
  refine TreeColumns.Forest.delete hf (f := fun g => { g with parentId := none })
    (fun g => ⟨rfl, rfl, rfl⟩) fun r q k hq hpq hk hkey => ?_
  change r.parentId = some k at hk
  simp only [hk, Option.any_some, loses, List.any_eq_true, decide_eq_true_eq]
  exact ⟨q, List.mem_filter.mpr ⟨hq, hpq⟩, hkey⟩

theorem Ledger.Forest.of_folders (hf : db.Forest) (h : db'.folders = db.folders) : db'.Forest := by
  unfold Ledger.Forest
  rw [h]
  exact hf

end

/-! ## Calls -/

/-- The folder that takes the place of the one a create reserved. -/
def Ledger.imported (db : Ledger) (user folder : Int) (list : String) : Option Folder :=
  db.folders.rows.find? fun f =>
    f.userId = user && f.ghListId = some list && f.id ≠ folder

/-- The folder is below another child of `folder`. -/
def Ledger.Nested (db : Ledger) (folder : Int) (f : Folder) : Prop :=
  ∃ c, c ≠ f.id ∧ db.Up c folder ∧ ReflTransGen db.Up f.id c

section

variable {db db' : Ledger} {user now : Int}

theorem LinkEffect.forest (hf : db.Forest) {id : Uuid} {folder : Int} {remote : Json}
    (h : LinkEffect db user id folder remote db')
    (hapart : ∀ list f, text remote "id" = .ok list → db.imported user folder list = some f →
      ¬ db.Nested folder f) : db'.Forest := by
  cases h with
  | merged names imported children relink delete =>
      rename_i list f members w w' n n' k
      have hfound := List.find?_some imported
      simp only [Bool.and_eq_true, decide_eq_true_eq] at hfound
      have hmembers : Ledger.Forest { db with members } := hf
      have hmoved : w.Forest := by
        refine hmembers.move children (fun g => ⟨rfl, rfl⟩) f.id
          fun g hg hp k hk => .inr ⟨?_, ?_, ?_⟩
        · exact (Option.some.inj hk).symm
        · simp only [Bool.and_eq_true, decide_eq_true_eq] at hp
          exact fun hreach =>
            hapart list f names imported ⟨g.id, hp.2, ⟨g, hg, rfl, hp.1.2⟩, hreach⟩
        · simp only [Bool.and_eq_true, decide_eq_true_eq] at hp
          exact ⟨f, List.mem_of_find?_eq_some imported, rfl, hfound.1.1.trans hp.1.1.symm⟩
      obtain ⟨mutations, -, rfl⟩ := updateMutations_eq_ok.mp relink
      have hrelinked : Ledger.Forest { w with mutations } := hmoved
      exact hrelinked.delete delete
  | linked update => exact hf.update update fun g => ⟨rfl, rfl, rfl⟩

variable {i : Intent}

theorem releaseFolder_forest (hf : db.Forest) (h : releaseFolder user i db = .ok (u, db')) :
    db'.Forest := by
  rcases releaseFolder_eq_ok h with ⟨-, _, hdelete⟩ | rfl
  · exact hf.delete hdelete
  · exact hf

/-- The effects of a request keep the forest, when its link does. -/
theorem applyEffects_forest (hf : db.Forest) {prepared remote : Json}
    (h : applyEffects user i prepared remote now db = .ok (u, db'))
    (hapart : i.request.isCreate = true → ∀ folder list f, i.localFolderId = some folder →
      text remote "id" = .ok list → db.imported user folder list = some f →
      ¬ db.Nested folder f) : db'.Forest := by
  cases applyEffects_effect h with
  | created create reserved link =>
      exact link.forest hf fun list f => hapart create _ list f reserved
  | edited parent update =>
      rename_i folder body description icon n
      refine hf.move update (fun g => ⟨rfl, rfl⟩) ((body.entry "parent_id").asI64.getD 0)
        fun g hg hp k hk => ?_
      simp only [Bool.and_eq_true, decide_eq_true_eq] at hp
      simp only [editFolder] at hk
      split at hk
      · -- the new parent has passed the walk
        rw [hk] at parent ⊢
        refine .inr ⟨rfl, fun hreach => ?_, ?_⟩
        · exact (parent_of_checkParent parent hreach).1 (hp.1 ▸ rfl)
        · obtain ⟨-, q, hq, hkey, howner⟩ := parent_of_checkParent parent .refl
          exact ⟨q, hq, hkey, howner.trans hp.2.symm⟩
      · exact .inl hk
  | deleted delete => exact hf.delete delete
  | membership same => exact same ▸ hf
  | star update =>
      obtain ⟨_, -, rfl⟩ := updateStars_eq_ok.mp update
      exact hf

/-- A local save walks up from the parent it gives. -/
theorem saveFolder_forest (hf : db.Forest) {name : String} {body : Json} {folder : Int}
    (h : saveFolder user id name body now db = (.ok folder, db')) : db'.Forest := by
  replace h := Tx.auto_eq_ok.mp h
  cases id with
  | none =>
      obtain ⟨hp, row, hrow, hinsert⟩ := saveFolderOn_new h
      refine hf.insert hinsert fun id p hparent => ?_
      rw [(hrow id).2.1]
      rw [(hrow id).2.2.symm.trans hparent] at hp
      exact (parent_of_checkNewParent hp .refl).2
  | some id =>
      obtain ⟨hp, _, _, _, _, _, _, hu⟩ := saveFolderOn_kept h
      refine hf.move hu (fun g => ⟨rfl, rfl⟩) ((body.entry "parent_id").asI64.getD 0)
        fun g hg hsaved k hk => ?_
      simp only [Bool.and_eq_true, decide_eq_true_eq] at hsaved
      change (body.entry "parent_id").asI64 = some k at hk
      rw [hk] at hp ⊢
      refine .inr ⟨rfl, fun hreach => ?_, ?_⟩
      · exact (parent_of_checkNewParent hp hreach).1 (hsaved.1 ▸ rfl)
      · obtain ⟨-, q, hq, hkey, howner⟩ := parent_of_checkNewParent hp .refl
        exact ⟨q, hq, hkey, howner.trans hsaved.2.symm⟩

theorem prepareRequest_forest (hf : db.Forest) {request : Mutation} {folder : Option Int}
    {fields : List (String × Json)}
    (h : prepareRequest user request now db = .ok ((folder, fields), db')) : db'.Forest := by
  cases prepareRequest_prepared h with
  | createList parent reserve =>
      obtain ⟨row, hrow, hinsert⟩ := reserveFolder_eq_ok reserve
      refine hf.insert hinsert fun id p hp => ?_
      rw [(hrow id).2.1]
      rw [(hrow id).2.2.symm.trans hp] at parent
      exact (parent_of_checkParent parent .refl).2
  | editList | deleteList | membership | star => exact hf

end

/-! ## Synchronization -/

section

variable {user now : Int} {α : Type}

/-- A statement on other tables. -/
theorem preserves_of_folders {x : LedgerStmt α}
    (h : ∀ db a db', x db = .ok (a, db') → db'.folders = db.folders) :
    Tx.Preserves Ledger.Forest x :=
  fun db a db' hf hx => hf.of_folders (h db a db' hx)

theorem upsertStar_folders {row : Int → Star} (h : upsertStar row db = .ok (u, db')) :
    db'.folders = db.folders := by
  simp only [upsertStar, Tx.bind_eq_ok, Tx.get_eq_ok] at h
  obtain ⟨_, _, ⟨rfl, rfl⟩, h⟩ := h
  split at h
  · simp only [Tx.bind_eq_ok, Tx.pure_eq_ok] at h
    obtain ⟨_, _, hu, -, rfl⟩ := h
    obtain ⟨_, -, rfl⟩ := updateStars_eq_ok.mp hu
    rfl
  · generalize Table.insert _ _ = stars at h
    cases stars with
    | none => cases h
    | some stars =>
        obtain rfl := Tx.set_eq_ok.mp h
        rfl

variable {snapshot : StarSnapshot}

theorem applyRows_forest : Tx.Preserves Ledger.Forest (applyRows user snapshot) := by
  refine .bind (.forM (fun row => ?_) _) fun _ => preserves_of_folders ?_
  · refine preserves_of_folders fun db a db' h => ?_
    simp only [applyStar, Tx.bind_eq_ok, orFail_eq_ok] at h
    obtain ⟨_, _, ⟨-, rfl⟩, _, _, ⟨-, rfl⟩, _, _, ⟨-, rfl⟩, _, _, ⟨-, rfl⟩, h⟩ := h
    exact upsertStar_folders h
  · intro db a db' h
    cases h
    rfl

/-- An imported folder has no parent, and a folder that is there keeps its own. -/
theorem importFolder_forest {list : ListSnapshot} :
    Tx.Preserves Ledger.Forest (importFolder user list now) := by
  refine .get_bind fun db a db' hf h => ?_
  generalize db.folders.rows.find? _ = found at h
  cases found with
  | some found =>
      simp only [Tx.bind_eq_ok, Tx.pure_eq_ok] at h
      obtain ⟨_, _, hu, -, rfl⟩ := h
      exact hf.update hu fun g => ⟨rfl, rfl, rfl⟩
  | none =>
      simp only [importedSlug, Tx.bind_eq_ok, Tx.get_eq_ok, orFail_eq_ok] at h
      obtain ⟨_, _, ⟨_, _, ⟨rfl, rfl⟩, -, rfl⟩, h⟩ := h
      exact hf.insert h fun _ _ hp => by cases hp

theorem importMember_forest {folder : Int} {item : Int × String} :
    Tx.Preserves Ledger.Forest (importMember user folder now item) := by
  refine preserves_of_folders fun db a db' h => ?_
  simp only [importMember, Tx.bind_eq_ok, Tx.get_eq_ok] at h
  obtain ⟨_, _, hu, _, _, ⟨rfl, rfl⟩, hi⟩ := h
  obtain ⟨_, -, rfl⟩ := updateStars_eq_ok.mp hu
  obtain ⟨_, rfl⟩ := insertMembers_eq_ok hi
  rfl

theorem applyLists_forest {lists : List ListSnapshot} :
    Tx.Preserves Ledger.Forest (applyLists user now lists) := by
  refine .get_bind fun db a db' hf h => ?_
  simp only [Tx.bind_eq_ok, Tx.pure_eq_ok] at h
  obtain ⟨_, db₁, hloop, _, _, hu, -, rfl⟩ := h
  have hlists : db₁.Forest := by
    refine Tx.Preserves.forM (fun list => ?_) lists db _ db₁ hf hloop
    exact .bind importFolder_forest fun folder => .forM (fun _ => importMember_forest) _
  exact hlists.update hu fun g => ⟨rfl, rfl, rfl⟩

theorem applyStarsOn_forest {live : Bool} {bridge : Except Error Unit}
    {lists : Option (List ListSnapshot)} :
    Tx.Preserves Ledger.Forest (applyStarsOn live bridge user snapshot lists now) := by
  intro db a db' hf h
  rcases applyStarsOn_cases h with rfl | ⟨-, db₁, hrows, hlists⟩
  · exact hf
  have hf₁ : db₁.Forest := by
    rcases hrows with rfl | hrows
    · exact hf
    · exact applyRows_forest db _ db₁ hf hrows
  rcases hlists with rfl | ⟨lists, hlists⟩
  · exact hf₁
  · exact applyLists_forest db₁ _ db' hf₁ hlists

end

/-! ## Runs -/

/-- Where a create links a list that was imported before, the imported folder is not below
another child of the one that the create reserved. -/
def StoreCall.LinksApart (db : Ledger) : StoreCall → Prop
  | .applyMutation user id _ => ∀ i ∈ db.mutations.rows, i.isOf user id = true →
      i.state = .confirmed → i.request.isCreate = true → ∀ folder remote list f,
        i.localFolderId = some folder → i.result = some remote → text remote "id" = .ok list →
        db.imported user folder list = some f → ¬ db.Nested folder f
  | _ => True

def LinksApart (u : Callers) (e : CallerTurn) : Prop :=
  ∀ caller c a, e = .answer caller (.store c) a → c.LinksApart u.shared.db

section

variable {db db' : Ledger} {fresh : Uuid}

/-- Every call keeps the forest, when its link does. -/
theorem LedgerEffect.forest {c : StoreCall} {a : c.Answer} (h : LedgerEffect db fresh db' c a)
    (hrun : c.run fresh db = (.ok a, db')) (hf : db.Forest) (hapart : c.LinksApart db) :
    db'.Forest := by
  cases h with
  | same rests hsame => exact hsame ▸ hf
  | saved writes => exact saveFolder_forest hf hrun
  | member members =>
      obtain ⟨_, rfl⟩ := members
      exact hf
  | synchronized inactive writes =>
      exact applyStarsOn_forest db _ db' hf (Tx.auto_eq_ok.mp hrun)
  | deleted deletes => exact hf.delete deletes
  | journalled new =>
      obtain ⟨fields, w, hprepare, -, hfolders, -⟩ := new.effect
      exact (prepareRequest_forest hf hprepare).of_folders hfolders
  | begun update | confirmed update | quarantined update =>
      obtain ⟨_, -, rfl⟩ := updateMutations_eq_ok.mp update
      exact hf
  | cancelled mem of state release update | rejected mem of state release update =>
      have hw := releaseFolder_forest hf release
      obtain ⟨_, -, rfl⟩ := updateMutations_eq_ok.mp update
      exact hw
  | @applied user id now i prepared remote w n mem of state hprepared hremote effects update =>
      have hw := applyEffects_forest hf effects fun hcreate folder list f hfolder hlist =>
        hapart i mem of state hcreate folder remote list f hfolder hremote hlist
      obtain ⟨_, -, rfl⟩ := updateMutations_eq_ok.mp update
      exact hw

end

section

variable {May : Entry → Prop} {u v : Callers} {e : CallerTurn}

theorem CallerStep.forest (h : CallerStep May u e v) (hapart : LinksApart u e)
    (hf : u.shared.db.Forest) : v.shared.db.Forest := by
  cases h with
  | enter may => exact hf
  | answer turn gives =>
      cases gives with
      | @store c fresh a db new result =>
          cases a with
          | error e =>
              rw [show db = u.shared.db from StoreCall.run_error_state result]
              exact hf
          | ok a => exact (StoreCall.run_effect result).forest result hf (hapart _ c _ rfl)
      | github => exact hf
      | require => exact hf
      | githubToken => exact hf
      | clock => exact hf

/-- In a forest a walk up from a folder ends at the top, or at the folder it is to stop at. -/
theorem walkUp_ends (hf : db.Forest) {f : Folder} (hmem : f ∈ db.folders.rows) (id : Option Int)
    (missing : Error) :
    walkUp db f.userId id missing (db.folders.rows.length + 1) [] (some f.id) = .ok () ∨
      ∃ k, id = some k ∧ ReflTransGen db.Up f.id k ∧
        walkUp db f.userId id missing (db.folders.rows.length + 1) [] (some f.id) =
          .error .invalid := by
  have hends := TreeColumns.Forest.walk_ends hf (folder?_finds db f.userId) id
    (db.folders.rows.length + 1) [] hmem rfl (by simp) .nil (by simp) (by simp)
  rcases hends with htop | ⟨k, hk, hreach, hblocked⟩
  · exact .inl (walkUp_eq_ok.mpr htop)
  · refine .inr ⟨k, hk, hreach, ?_⟩
    rw [walkUp_eq]
    change folderTree.walk _ _ _ _ (some f.id) = _ at hblocked
    rw [hblocked]

end

end YoinkCore.Inbox
