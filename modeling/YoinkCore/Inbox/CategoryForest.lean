import YoinkCore.Inbox.CatalogueStore
import YoinkCore.Inbox.FolderForest

/-!
# Categories are forests

Categories get their parents from a save alone, which walks up from the parent first. So
they stay forests whatever is saved and deleted, and folders do as long as no create links
a list whose folder is nested in the one it reserved.
-/

namespace YoinkCore.Inbox

open Lib Relation

/-- Parents are categories of the same user, and no category is above itself. -/
abbrev InboxDb.CategoryForest (db : InboxDb) : Prop := categoryTree.Forest db.categories.rows

theorem categorySchema_id : Table.Keyed categorySchema Category.id := by
  intro a b h
  simp [categorySchema, h]

theorem eq_of_category_id {T : Table categorySchema} {a b : Category} (ha : a ∈ T.rows)
    (hb : b ∈ T.rows) (h : a.id = b.id) : a = b :=
  List.inj_on_of_nodup_map (T.keys_nodup categorySchema_id) ha hb h

theorem category?_finds (db : InboxDb) (user : Int) :
    categoryTree.Finds db.categories.rows (db.category? user) user := by
  intro k c
  constructor
  · intro h
    have hp := List.find?_some h
    simp only [Bool.and_eq_true, decide_eq_true_eq] at hp
    exact ⟨List.mem_of_find?_eq_some h, hp.2, hp.1⟩
  · rintro ⟨hc, rfl, rfl⟩
    cases hfind : db.category? c.ownerUserId c.id with
    | none =>
        have := List.find?_eq_none.mp hfind c hc
        simp at this
    | some d =>
        have hp := List.find?_some hfind
        simp only [Bool.and_eq_true, decide_eq_true_eq] at hp
        rw [show categoryTree.key c = c.id from rfl, show categoryTree.owner c = c.ownerUserId
          from rfl, hfind, eq_of_category_id (List.mem_of_find?_eq_some hfind) hc hp.2]

section

variable {db db' : InboxDb} {user now : Int}

/-- A parent that passes the walk is a category of the user, and not below the category. -/
theorem parent_of_checkCategoryParent {id : Option Int} {p : Int} {u : Unit}
    (h : checkCategoryParent user id (some p) db = .ok (u, db')) :
    db' = db ∧ ∀ k, ReflTransGen (categoryTree.Up db.categories.rows) p k →
      id ≠ some k ∧ ∃ c ∈ db.categories.rows, c.id = k ∧ c.ownerUserId = user := by
  simp only [checkCategoryParent] at h
  split at h
  · cases h
  · simp only [Tx.bind_eq_ok, Tx.get_eq_ok, orElseFail_eq_ok] at h
    obtain ⟨_, _, ⟨rfl, rfl⟩, _, _, ⟨-, rfl⟩, h⟩ := h
    generalize hwalk : categoryTree.walk _ _ _ _ _ = ended at h
    cases ended with
    | top =>
        obtain ⟨-, rfl⟩ := Tx.pure_eq_ok.mp h
        exact ⟨rfl, fun k => TreeColumns.above_of_walk (category?_finds db user)
          (fun _ ha _ hb h => eq_of_category_id ha hb h) hwalk⟩
    | blocked => cases h
    | missing => cases h

theorem checkCategoryParent_db {id parent : Option Int} {u : Unit}
    (h : checkCategoryParent user id parent db = .ok (u, db')) : db' = db := by
  cases parent with
  | none => exact (Tx.pure_eq_ok.mp h).2.symm
  | some p => exact (parent_of_checkCategoryParent h).1

theorem checkTeam_db {team : Option Int} {u : Unit}
    (h : checkTeam user team db = .ok (u, db')) : db' = db := by
  cases team with
  | none => exact (Tx.pure_eq_ok.mp h).2.symm
  | some team =>
      simp only [checkTeam, Tx.bind_eq_ok, Tx.get_eq_ok] at h
      obtain ⟨_, _, ⟨rfl, rfl⟩, h⟩ := h
      split at h
      · cases h
      · exact (Tx.pure_eq_ok.mp h).2.symm

/-- A new category, with a parent of the user or none. -/
theorem InboxDb.CategoryForest.insert (hf : db.CategoryForest) {table : Table categorySchema}
    {new : Category} (hrows : table.rows = db.categories.rows ++ [new])
    (hparent : ∀ p, new.parentId = some p →
      ∃ c ∈ db.categories.rows, c.id = p ∧ c.ownerUserId = new.ownerUserId) :
    categoryTree.Forest table.rows := by
  have hnew : ∀ c ∈ db.categories.rows, c.id ≠ new.id := by
    intro c hmem he
    have hunique := table.unique
    rw [hrows, List.pairwise_append] at hunique
    have := hunique.2.2 c hmem _ List.mem_cons_self
    simp [categorySchema, he] at this
  rw [hrows]
  exact TreeColumns.Forest.insert hf hnew hparent

variable [LinkPlatform]

theorem saveCategoryOn_forest (hf : db.CategoryForest) {id : Option Int} {name : String}
    {body : Json} {category : Int}
    (h : saveCategoryOn user id name body now db = .ok (category, db')) :
    db'.CategoryForest := by
  cases id with
  | none =>
      simp only [saveCategoryOn, Tx.bind_eq_ok, Tx.get_eq_ok, Tx.ofExcept_eq_ok] at h
      obtain ⟨_, w, hp, _, w', hteam, _, _, ⟨rfl, rfl⟩, _, _, ⟨-, rfl⟩, hinsert⟩ := h
      obtain rfl := checkCategoryParent_db hp
      obtain rfl := checkTeam_db hteam
      obtain ⟨-, table, hrows, rfl⟩ := Serial.insertNext_eq_ok.mp hinsert
      refine hf.insert hrows fun p hparent => ?_
      change (body.entry "parent_id").asI64 = some p at hparent
      rw [hparent] at hp
      exact ((parent_of_checkCategoryParent hp).2 p .refl).2
  | some id =>
      simp only [saveCategoryOn, Tx.bind_eq_ok, Tx.get_eq_ok, orElseFail_eq_ok, Tx.pure_eq_ok,
        Tx.ofExcept_eq_ok] at h
      obtain ⟨_, _, ⟨rfl, rfl⟩, _, _, ⟨-, rfl⟩, _, w, hp, _, w', hteam, _, _, ⟨rfl, rfl⟩, slug, _,
        ⟨-, rfl⟩, _, _, hu, -, rfl⟩ := h
      obtain rfl := checkCategoryParent_db hp
      obtain rfl := checkTeam_db hteam
      obtain ⟨-, table, hrows, rfl⟩ := TableIn.update_eq_ok.mp hu
      show categoryTree.Forest table.rows
      rw [hrows]
      refine TreeColumns.Forest.update hf (fun c => ⟨rfl, rfl⟩)
        ((body.entry "parent_id").asI64.getD 0) fun c hc hsaved k hk => ?_
      simp only [Bool.and_eq_true, decide_eq_true_eq] at hsaved
      change (body.entry "parent_id").asI64 = some k at hk
      rw [hk] at hp ⊢
      refine .inr ⟨rfl, fun hreach => ?_, ?_⟩
      · exact ((parent_of_checkCategoryParent hp).2 c.id hreach).1 (hsaved.1 ▸ rfl)
      · obtain ⟨-, q, hq, hkey, howner⟩ := (parent_of_checkCategoryParent hp).2 k .refl
        exact ⟨q, hq, hkey, howner.trans hsaved.2.symm⟩

omit [LinkPlatform] in
theorem deleteCategories_forest (hf : db.CategoryForest) {p : Category → Bool} {n : Nat}
    (h : deleteCategories p db = .ok (n, db')) : db'.CategoryForest := by
  simp only [deleteCategories, Tx.bind_eq_ok, Tx.get_eq_ok, TableIn.delete_eq_ok,
    TableIn.update_eq_ok, Tx.pure_eq_ok] at h
  obtain ⟨_, _, ⟨rfl, rfl⟩, _, _, ⟨-, rfl⟩, _, _, ⟨-, table, hrows, rfl⟩, _, _, ⟨-, rfl⟩, -,
    rfl⟩ := h
  show categoryTree.Forest table.rows
  rw [hrows]
  refine TreeColumns.Forest.delete hf (fun c => ⟨rfl, rfl, rfl⟩) fun c q k hq hpq hk hkey => ?_
  change c.parentId = some k at hk
  simp only [hk, Option.any_some, List.any_eq_true, decide_eq_true_eq]
  exact ⟨q, List.mem_filter.mpr ⟨hq, hpq⟩, hkey⟩

end

/-! ## Runs -/

/-- The writers of categories among the catalogue calls. -/
inductive CategoryCall where
  | save (user : Int) (id : Option Int) (name : String) (body : Json) (now : Int)
  | delete (user id : Int)

section

variable [LinkPlatform]

def CategoryCall.run (db : InboxDb) : CategoryCall → Except Error Unit × InboxDb
  | save user id name body now =>
      Tx.auto (do let _ ← saveCategoryOn user id name body now) db
  | delete user id => Tx.auto (deleteCategoryOn user id) db

/-- A call is made. -/
def CategoryStep (db : InboxDb) (c : CategoryCall) (db' : InboxDb) : Prop :=
  (c.run db).2 = db'

theorem CategoryStep.forest {db db' : InboxDb} {c : CategoryCall} (hf : db.CategoryForest)
    (h : CategoryStep db c db') : db'.CategoryForest := by
  have hauto : ∀ {stmt : InboxStmt Unit}, Tx.Preserves InboxDb.CategoryForest stmt →
      (Tx.auto stmt db).2.CategoryForest := by
    intro stmt hstmt
    rcases Tx.auto_cases stmt db with ⟨e, hrun⟩ | ⟨a, w, hstate, hrun⟩ <;> rw [hrun]
    · exact hf
    · exact hstmt db a w hf hstate
  cases h
  cases c with
  | save user id name body now =>
      exact hauto (.bind (fun _ _ _ hf h => saveCategoryOn_forest hf h) fun _ => .pure)
  | delete user id =>
      refine hauto (.bind (fun _ _ _ hf h => deleteCategories_forest hf h) fun _ => ?_)
      exact .ite (fun _ => .throw) fun _ => .pure

/-- **Forests.** Folders stay a forest in every run in which no create links a list whose
folder is nested below a child of the one it reserved, and categories in every run. So the
walks to the parents end at the top. -/
theorem catalogue_forests :
    (∀ s es t, s.shared.db.Forest →
      Run (fun u e v => CallerStep anyEntry u e v ∧ LinksApart u e) s es t →
      t.shared.db.Forest ∧ ∀ f ∈ t.shared.db.folders.rows, ∀ missing,
        walkUp t.shared.db f.userId none missing (t.shared.db.folders.rows.length + 1) []
          (some f.id) = .ok ()) ∧
    (∀ db calls db', db.CategoryForest → Run CategoryStep db calls db' →
      db'.CategoryForest ∧ ∀ c ∈ db'.categories.rows,
        categoryTree.walk (db'.category? c.ownerUserId) none (db'.categories.rows.length + 1) []
          (some c.id) = .top) := by
  refine ⟨fun s es t hs hrun => ?_, fun db calls db' hdb hrun => ?_⟩
  · have ht : t.shared.db.Forest :=
      hrun.invariant (I := fun u => u.shared.db.Forest) (fun hf h => h.1.forest h.2 hf) hs
    refine ⟨ht, fun f hf missing => ?_⟩
    rcases walkUp_ends ht hf none missing with htop | ⟨_, hk, -⟩
    · exact htop
    · cases hk
  · have hdb' : db'.CategoryForest :=
      hrun.invariant (I := fun db => db.CategoryForest) (fun hf h => h.forest hf) hdb
    refine ⟨hdb', fun c hc => ?_⟩
    have hends := TreeColumns.Forest.walk_ends hdb' (category?_finds db' c.ownerUserId)
      none (db'.categories.rows.length + 1) [] hc rfl (by simp) .nil (by simp) (by simp)
    rcases hends with htop | ⟨_, hk, -⟩
    · exact htop
    · cases hk

end

section

open Scenario

/-- A folder of user 1 that was imported from a list. -/
theorem importedFolder_checked :
    ∀ f ∈ [(⟨1, 1, "old", "old", none, none, none, 0, some "L", none, false, 0⟩ : Folder)],
      folderSchema.check f = true := by
  decide

theorem importedFolder_unique :
    [(⟨1, 1, "old", "old", none, none, none, 0, some "L", none, false, 0⟩ : Folder)].Pairwise
      fun a b => folderSchema.clash a b = false := by
  decide

def importedFolder : Callers :=
  ⟨⟨⟨⟨[⟨1, 1, "old", "old", none, none, none, 0, some "L", none, false, 0⟩],
    importedFolder_checked, importedFolder_unique⟩, .empty _, .empty _, .empty _, 1, 0⟩, []⟩, []⟩

theorem importedFolder_forest : importedFolder.shared.db.Forest := by
  have hnone : folderTree.Forest ([] : List Folder) := .empty
  exact hnone.insert (by simp) (fun _ h => by cases h)

/-- A create is answered with the list that is there. -/
def createsOld : GithubWorld := fun
  | .createUserList .. => .ok (.obj [("createUserList", .obj [("list",
      .obj [("id", .str "L"), ("name", .str "new"), ("slug", .str "new")])])])
  | .catalogue _ => .ok []
  | _ => .error .external

/-- While a list is created for folder 2, folder 3 is put below it, and folder 1 below that. -/
def nestedImport : List ScriptLine :=
  [.enter (.createFolder 1 (.obj [("name", .str "new"), ("is_local", .bool false)])
      (.ok (some "key"))),
    .enter (.createFolder 1 (.obj [("name", .str "child"), ("parent_id", .int 2)]) (.ok none)),
    .enter (.updateFolder 1 1 (.obj [("name", .str "old"), ("parent_id", .int 3)]))] ++
    turns 0 createsOld 15 ++ turns 1 offline 5 ++ turns 2 offline 7 ++ turns 0 createsOld 10

/-- A create that links an imported list leaves two folders above each other. -/
theorem nested_import_makes_cycle :
    importedFolder.shared.db.Forest ∧
    CallersReach anyEntry importedFolder (play perform importedFolder nestedImport).1
      (after importedFolder nestedImport) ∧
    (after importedFolder nestedImport).shared.db.Up 1 3 ∧
    (after importedFolder nestedImport).shared.db.Up 3 1 ∧
    ¬ (after importedFolder nestedImport).shared.db.Forest := by
  have hup : ∀ {a b : Int}, ((after importedFolder nestedImport).shared.db.folders.rows.any
      fun f => f.id = a && f.parentId = some b) = true →
      (after importedFolder nestedImport).shared.db.Up a b := by
    intro a b h
    obtain ⟨f, hf, h⟩ := List.any_eq_true.mp h
    simp only [Bool.and_eq_true, decide_eq_true_eq] at h
    exact ⟨f, hf, h.1, h.2⟩
  have h13 := hup (a := 1) (b := 3) (by decide +kernel)
  have h31 := hup (a := 3) (b := 1) (by decide +kernel)
  refine ⟨importedFolder_forest, ?_, h13, h31,
    fun hf => hf.acyclic 1 (.tail (.single h13) h31)⟩
  refine ⟨⟨rfl, by decide, by decide⟩, rfl, plays (fun _ _ => trivial) (show Lib.allowed perform
    (may fun _ => true) importedFolder nestedImport = true by decide +kernel)⟩

/-- The turn applies no mutation. -/
def CallerTurn.local : CallerTurn → Bool
  | .answer _ (.store (.applyMutation ..)) _ => false
  | _ => true

theorem CallerTurn.local.linksApart {u : Callers} {e : CallerTurn} (h : e.local = true) :
    LinksApart u e := by
  rintro caller c a rfl
  cases c with
  | applyMutation => cases h
  | _ => trivial

/-- A folder is put below another one. -/
def childFolder : List ScriptLine :=
  .enter (.createFolder 1 (.obj [("name", .str "child"), ("parent_id", .int 1)]) (.ok none)) ::
    turns 0 offline 5

/-- A folder that is put below another one stays in the forest. -/
theorem catalogue_forests_child : (after importedFolder childFolder).shared.db.Forest := by
  have hplays : Run (CallerStep anyEntry) importedFolder
      (play perform importedFolder childFolder).1 (after importedFolder childFolder) :=
    plays (fun _ _ => trivial) (show Lib.allowed perform (may fun _ => true) importedFolder
      childFolder = true by decide +kernel)
  have hlocal : ∀ e ∈ (play perform importedFolder childFolder).1, e.local = true := by
    refine List.all_eq_true.mp ?_
    decide +kernel
  exact ((@catalogue_forests asciiLinks).1 importedFolder _ _ importedFolder_forest
    ((hplays.of_forall hlocal).mono fun h => ⟨h.1, CallerTurn.local.linksApart h.2⟩)).1

end

end YoinkCore.Inbox
