import YoinkCore.Inbox.MutationOnce
import YoinkCore.Inbox.MutationCallers

/-!
# What a confirmed mutation needs

A confirmed intent is applied to rows that others may have changed since it was prepared.
Star synchronization waits for it, the folder of a create is hidden, and edits of a folder
keep its list. A folder that is deleted meanwhile is missed by a create, an edit and a
membership: they stay confirmed for good.
-/

namespace YoinkCore.Inbox

open Lib
open Storage (Uuid uuid)

/-! ## Rows of a user -/

/-- Folders of the user stay with their lists, stars with their nodes. -/
structure SparesUser (user : Int) (db db' : Ledger) : Prop where
  folders : ∀ f ∈ db.folders.rows, f.userId = user →
    ∃ g ∈ db'.folders.rows, g.id = f.id ∧ g.userId = f.userId ∧ g.ghListId = f.ghListId
  stars : ∀ s ∈ db.stars.rows, s.userId = user →
    ∃ t ∈ db'.stars.rows, t.id = s.id ∧ t.userId = s.userId ∧ t.ghNodeId = s.ghNodeId

namespace SparesUser

variable {user other : Int} {db db' db'' : Ledger}

theorem of_same (hfolders : db'.folders = db.folders) (hstars : db'.stars = db.stars) :
    SparesUser user db db' := by
  constructor
  · exact fun f hf _ => ⟨f, hfolders ▸ hf, rfl, rfl, rfl⟩
  · exact fun s hs _ => ⟨s, hstars ▸ hs, rfl, rfl, rfl⟩

theorem trans (h : SparesUser user db db') (h' : SparesUser user db' db'') :
    SparesUser user db db'' where
  folders f hf hu := by
    obtain ⟨g, hg, hid, hu', hlist⟩ := h.folders f hf hu
    obtain ⟨k, hk, hid', hu'', hlist'⟩ := h'.folders g hg (hu'.trans hu)
    exact ⟨k, hk, hid'.trans hid, hu''.trans hu', hlist'.trans hlist⟩
  stars s hs hu := by
    obtain ⟨t, ht, hid, hu', hnode⟩ := h.stars s hs hu
    obtain ⟨k, hk, hid', hu'', hnode'⟩ := h'.stars t ht (hu'.trans hu)
    exact ⟨k, hk, hid'.trans hid, hu''.trans hu', hnode'.trans hnode⟩

/-- What is written for one user leaves the rows of another alone. -/
theorem of_writes (hne : user ≠ other) (h : WritesOf other db db') : SparesUser user db db' where
  folders f hf hu := ⟨f, (h.otherFolders f (hu ▸ hne)).mpr hf, rfl, rfl, rfl⟩
  stars s hs hu := ⟨s, (h.otherStars s (hu ▸ hne)).mpr hs, rfl, rfl, rfl⟩

variable {p : Folder → Bool}

theorem of_updateFolders {f : Folder → Folder} {n : Nat} (h : updateFolders p f db = .ok (n, db'))
    (hf : ∀ g, p g = true → g.userId ≠ user ∨
      (f g).id = g.id ∧ (f g).userId = g.userId ∧ (f g).ghListId = g.ghListId) :
    SparesUser user db db' := by
  obtain ⟨folders, hu, rfl⟩ := updateFolders_eq_ok.mp h
  refine ⟨fun g hg huser => ?_, fun s hs _ => ⟨s, hs, rfl, rfl, rfl⟩⟩
  refine ⟨_, (Table.update_eq_some.mp hu).1 ▸ List.mem_map_of_mem hg, ?_⟩
  by_cases hp : p g = true
  · rw [if_pos hp]
    rcases hf g hp with hother | hsame
    · exact absurd huser hother
    · exact hsame
  · rw [if_neg hp]
    exact ⟨rfl, rfl, rfl⟩

theorem of_updateMutations {p : Intent → Bool} {f : Intent → Intent} {n : Nat}
    (h : updateMutations p f db = .ok (n, db')) : SparesUser user db db' := by
  obtain ⟨_, -, rfl⟩ := updateMutations_eq_ok.mp h
  exact .of_same rfl rfl

/-- The rows of a user survive deletions of others. -/
theorem of_delete {n : Nat} (h : deleteFolders p db = .ok (n, db'))
    (hp : ∀ f, p f = true → f.userId ≠ user) : SparesUser user db db' := by
  obtain ⟨hfolders, -, hstars, -⟩ := deleteFolders_eq_ok h
  refine ⟨fun f hf hu => ?_, fun s hs _ => ⟨s, hstars ▸ hs, rfl, rfl, rfl⟩⟩
  refine ⟨_, hfolders ▸ List.mem_map_of_mem (List.mem_filter.mpr ⟨hf, ?_⟩),
    Folder.orphan_of_mem⟩
  cases hpf : p f with
  | false => rfl
  | true => exact absurd hu (hp f hpf)

theorem of_release (hne : user ≠ other) {i : Intent} {u : Unit}
    (h : releaseFolder other i db = .ok (u, db')) : SparesUser user db db' := by
  rcases releaseFolder_eq_ok h with ⟨-, _, hdelete⟩ | rfl
  · refine .of_delete hdelete fun f hf hu => hne ?_
    simp only [Bool.and_eq_true, decide_eq_true_eq] at hf
    exact hu.symm.trans hf.2
  · exact .of_same rfl rfl

theorem of_link (hne : user ≠ other) {id : Uuid} {folder : Int} {remote : Json}
    (h : LinkEffect db other id folder remote db') : SparesUser user db db' := by
  cases h with
  | merged names imported children relink delete =>
      have hchildren : SparesUser user _ _ :=
        of_updateFolders children fun g hg => .inl fun hu => hne (by
          simp only [Bool.and_eq_true, decide_eq_true_eq] at hg
          exact hu.symm.trans hg.1.1)
      refine .trans (.trans (.trans ?_ hchildren) (.of_updateMutations relink))
        (.of_delete delete fun f hf hu => hne ?_)
      · exact .of_same rfl rfl
      · simp only [Bool.and_eq_true, decide_eq_true_eq] at hf
        exact hu.symm.trans hf.1
  | linked update =>
      refine of_updateFolders update fun g hg => .inl fun hu => hne ?_
      simp only [Bool.and_eq_true, decide_eq_true_eq] at hg
      exact hu.symm.trans hg.1

/-- The effects of an intent are on rows of its user. -/
theorem of_effects (hne : user ≠ other) {i : Intent} {remote : Json}
    (h : RequestEffect db other i remote db') : SparesUser user db db' := by
  cases h with
  | created create reserved link => exact of_link hne link
  | edited parent update =>
      refine of_updateFolders update fun g hg => .inl fun huser => hne ?_
      simp only [Bool.and_eq_true, decide_eq_true_eq] at hg
      exact huser.symm.trans hg.2
  | deleted delete =>
      refine of_delete delete fun f hf huser => hne ?_
      simp only [Bool.and_eq_true, decide_eq_true_eq] at hf
      exact huser.symm.trans hf.1.2
  | membership same => exact same ▸ of_writes hne (WritesOf.members : WritesOf other _ _)
  | star update =>
      refine of_writes hne (.of_updateStars (fun s hs => ?_) (fun s => ?_) update)
      · simp only [Bool.and_eq_true, decide_eq_true_eq] at hs
        exact hs.1.2
      · rfl

/-- A local change of a folder keeps its list. -/
theorem of_saveFolder {id : Option Int} {name : String} {body : Json} {now folder : Int}
    (h : saveFolder other id name body now db = (.ok folder, db')) : SparesUser user db db' := by
  replace h := Tx.auto_eq_ok.mp h
  cases id with
  | none =>
      obtain ⟨-, row, -, hinsert⟩ := saveFolderOn_new h
      obtain ⟨folders, hi, -, rfl⟩ := insertFolder_eq_ok.mp hinsert
      refine ⟨fun f hf _ => ⟨f, ?_, rfl, rfl, rfl⟩, fun s hs _ => ⟨s, hs, rfl, rfl, rfl⟩⟩
      exact Table.insert_eq_some.mp hi ▸ List.mem_append_left _ hf
  | some id =>
      obtain ⟨-, _, _, _, _, _, _, hu⟩ := saveFolderOn_kept h
      exact of_updateFolders hu fun g _ => .inr ⟨rfl, rfl, rfl⟩

end SparesUser

/-! ## Active intents -/

variable {i : Intent} {f : Intent → Intent} {key : Option String} {db db' : Ledger}
  {request : Mutation} {fresh : Uuid}

theorem Ledger.active?_isSome (hi : i ∈ db.mutations.rows) (hactive : i.active = true) :
    db.active? i.userId ≠ none := by
  intro hnone
  have := List.find?_eq_none.mp hnone i hi
  simp [hactive] at this

theorem updateMutations_moves {p : Intent → Bool} {n : Nat}
    (h : updateMutations p f db = .ok (n, db')) (hi : i ∈ db.mutations.rows) (hp : p i = true) :
    f i ∈ db'.mutations.rows := by
  obtain ⟨mutations, hu, rfl⟩ := updateMutations_eq_ok.mp h
  have hmem := (Table.update_eq_some.mp hu).1 ▸ List.mem_map_of_mem (f := fun r =>
    if p r then f r else r) hi
  rwa [if_pos hp] at hmem

section

variable {May : Entry → Prop} {u v : Callers} {e : CallerTurn}

/-- While an intent is active, the rows of its user are spared, but for a folder that is
deleted locally. -/
theorem CallerStep.spares (h : CallerStep May u e v) {j : Intent}
    (hi : i ∈ u.shared.db.mutations.rows) (hj : j ∈ v.shared.db.mutations.rows)
    (hid : j.id = i.id) (hai : i.active = true) (haj : j.active = true) :
    (∃ caller folder n, e = .answer caller (.store (.deleteFolder i.userId folder)) (.ok ()) ∧
      deleteFolders (fun f => f.id = folder && f.userId = i.userId) u.shared.db =
        .ok (n, v.shared.db)) ∨ SparesUser i.userId u.shared.db v.shared.db := by
  obtain ⟨k, hk, hmoves⟩ := h.forward hi
  obtain rfl := eq_of_intent_id hk hj (hmoves.keeps.1.trans hid.symm)
  rcases h with may | ⟨turn, gives⟩
  · exact .inr (.of_same rfl rfl)
  cases gives with
  | github | require | githubToken | clock => exact .inr (.of_same rfl rfl)
  | @store c fresh a db new result =>
      cases a with
      | error e =>
          obtain rfl := StoreCall.run_error_state result
          exact .inr (.of_same rfl rfl)
      | ok a =>
          have heffect := StoreCall.run_effect result
          -- what ends the only active intent of the user leaves none active
          have hlast : ∀ {m : Intent} {other : Int} {id : Uuid}, m ∈ u.shared.db.mutations.rows →
              m.isOf other id = true → i.userId = other → m.active = true →
              ∀ m' ∈ db.mutations.rows, m'.id = m.id → m'.active = false → False := by
            intro m other id hm hof huser ham m' hm' hmid hended
            obtain rfl : i = m := eq_of_active hi hm
              (huser.trans (isOf_iff.mp hof).2.symm) hai ham
            obtain rfl := eq_of_intent_id hm' hj (hmid.trans hid.symm)
            rw [haj] at hended
            cases hended
          cases heffect with
          | same rests hsame =>
              subst hsame
              exact .inr (.of_same rfl rfl)
          | saved writes => exact .inr (.of_saveFolder result)
          | member members =>
              obtain ⟨_, rfl⟩ := members
              exact .inr (.of_same rfl rfl)
          | synchronized inactive writes =>
              refine .inr (.of_writes (fun huser => ?_) writes)
              exact Ledger.active?_isSome hi hai (huser ▸ inactive)
          | @deleted user folder count deletes =>
              by_cases huser : i.userId = user
              · subst huser
                exact .inl ⟨_, folder, count, rfl, deletes⟩
              · refine .inr (.of_delete deletes fun f hf hu => huser ?_)
                simp only [Bool.and_eq_true, decide_eq_true_eq] at hf
                exact hu.symm.trans hf.2
          | journalled new =>
              obtain ⟨fields, w, hprep, -, hfolders, -, hstars, -, -⟩ := new.effect
              refine .inr (.trans (.of_writes (fun huser => ?_) (prepareRequest_writes hprep))
                (.of_same hfolders hstars))
              exact Ledger.active?_isSome hi hai (huser ▸ new.inactive)
          | begun update => exact .inr (.of_updateMutations update)
          | confirmed update => exact .inr (.of_updateMutations update)
          | quarantined update => exact .inr (.of_updateMutations update)
          | cancelled mem of state release update =>
              refine .inr (.trans (.of_release (fun huser => ?_) release)
                (.of_updateMutations update))
              obtain ⟨gone, hrows⟩ := releaseFolder_rows release
              have hended := updateMutations_moves update (hrows ▸ List.mem_map_of_mem mem) (by
                rcases Intent.unlink_cases gone _ with h | h <;> rw [h] <;>
                  simpa [Intent.isOf, state] using of)
              exact hlast mem of huser (by simp [Intent.active, state]) _ hended
                (by rcases Intent.unlink_cases gone _ with h | h <;> rw [h] <;> rfl) rfl
          | rejected mem of state release update =>
              refine .inr (.trans (.of_release (fun huser => ?_) release)
                (.of_updateMutations update))
              obtain ⟨gone, hrows⟩ := releaseFolder_rows release
              have hended := updateMutations_moves update (hrows ▸ List.mem_map_of_mem mem) (by
                rcases Intent.unlink_cases gone _ with h | h <;> rw [h] <;>
                  simpa [Intent.isOf, state] using of)
              exact hlast mem of huser (by simp [Intent.active, state]) _ hended
                (by rcases Intent.unlink_cases gone _ with h | h <;> rw [h] <;> rfl) rfl
          | applied mem of state hprepared hremote effects update =>
              refine .inr (.trans (.of_effects (fun huser => ?_) (applyEffects_effect effects))
                (.of_updateMutations update))
              obtain ⟨g, hrows, hg⟩ := (applyEffects_effect effects).rows
              have hended := updateMutations_moves update (hrows ▸ List.mem_map_of_mem mem) (by
                rw [(hg _).folder]
                simpa [Intent.isOf, state] using of)
              exact hlast mem of huser (by simp [Intent.active, state]) _ hended
                (by rw [(hg _).folder]; rfl) rfl

end

/-! ## Statements that go through -/

section

variable {db : Ledger}

theorem updateFolders_ok (db : Ledger) {p : Folder → Bool} {f : Folder → Folder}
    (hcheck : ∀ g ∈ db.folders.rows, p g = true → folderSchema.check (f g) = true)
    (hf : ∀ g, (f g).id = g.id ∧ (f g).userId = g.userId ∧ (f g).slug = g.slug) :
    ∃ folders, updateFolders p f db = .ok (db.folders.rows.countP p, { db with folders }) := by
  obtain ⟨folders, n, hu⟩ := db.folders.update_of_keeps hcheck (fun a b h => by
    have hkey : ∀ g, (if p g then f g else g).id = g.id ∧
        (if p g then f g else g).userId = g.userId ∧
        (if p g then f g else g).slug = g.slug := by
      intro g
      split
      · exact hf g
      · exact ⟨rfl, rfl, rfl⟩
    simpa only [folderSchema, (hkey a).1, (hkey a).2.1, (hkey a).2.2, (hkey b).1, (hkey b).2.1,
      (hkey b).2.2] using h)
  obtain rfl := (Table.update_eq_some.mp hu).2
  exact ⟨folders, updateFolders_eq_ok.mpr ⟨folders, hu, rfl⟩⟩

theorem updateMutations_ok (db : Ledger) {p : Intent → Bool}
    (hcheck : ∀ i ∈ db.mutations.rows, p i = true → mutationSchema.check (f i) = true)
    (hf : ∀ i, (f i).id = i.id ∧ (f i).userId = i.userId ∧ (f i).requestKey = i.requestKey ∧
      ((f i).active = true → i.active = true)) :
    ∃ n mutations, updateMutations p f db = .ok (n, { db with mutations }) := by
  obtain ⟨mutations, n, hu⟩ := db.mutations.update_of_keeps hcheck (fun a b h => by
    have hkey : ∀ i, (if p i then f i else i).id = i.id ∧
        (if p i then f i else i).userId = i.userId ∧
        (if p i then f i else i).requestKey = i.requestKey ∧
        ((if p i then f i else i).active = true → i.active = true) := by
      intro i
      split
      · exact hf i
      · exact ⟨rfl, rfl, rfl, fun h => h⟩
    have hactive : ∀ i, i.active = false → (if p i then f i else i).active = false := by
      intro i hi
      by_contra hn
      rw [(hkey i).2.2.2 (by simpa using hn)] at hi
      cases hi
    simp only [mutationSchema, (hkey a).1, (hkey a).2.1, (hkey a).2.2.1, (hkey b).1,
      (hkey b).2.1, (hkey b).2.2.1] at h ⊢
    rw [Bool.or_eq_false_iff] at h ⊢
    refine ⟨h.1, ?_⟩
    rcases Bool.and_eq_false_iff.mp h.2 with hu | hk
    · rw [hu, Bool.false_and]
    · rw [Bool.or_eq_false_iff] at hk
      rw [hk.1, Bool.false_or]
      rcases Bool.and_eq_false_iff.mp hk.2 with ha | hb
      · rw [hactive a ha, Bool.false_and, Bool.and_false]
      · rw [hactive b hb, Bool.and_false, Bool.and_false])
  exact ⟨n, mutations, updateMutations_eq_ok.mpr ⟨mutations, hu, rfl⟩⟩

theorem updateStars_ok (db : Ledger) {p : Star → Bool} {f : Star → Star}
    (hcheck : ∀ s, starSchema.check (f s) = starSchema.check s)
    (hf : ∀ s, (f s).id = s.id ∧ (f s).userId = s.userId ∧ (f s).ghRepoId = s.ghRepoId) :
    ∃ n stars, updateStars p f db = .ok (n, { db with stars }) := by
  obtain ⟨stars, n, hu⟩ := db.stars.update_of_keeps (p := p)
    (fun s hs _ => (hcheck s).trans (db.stars.checked s hs)) (fun a b h => by
    have hkey : ∀ s, (if p s then f s else s).id = s.id ∧
        (if p s then f s else s).userId = s.userId ∧
        (if p s then f s else s).ghRepoId = s.ghRepoId := by
      intro s
      split
      · exact hf s
      · exact ⟨rfl, rfl, rfl⟩
    simpa only [starSchema, (hkey a).1, (hkey a).2.1, (hkey a).2.2, (hkey b).1, (hkey b).2.1,
      (hkey b).2.2] using h)
  exact ⟨n, stars, updateStars_eq_ok.mpr ⟨stars, hu, rfl⟩⟩

theorem insertMembers_ok (db : Ledger) {rows : List FolderMember}
    (hcheck : ∀ m ∈ rows, memberSchema.check m = true)
    (hdistinct : rows.Pairwise fun a b => a.sameKey b = false) :
    ∃ members, insertMembers rows db = .ok ((), { db with members }) := by
  have hrows : (∀ m ∈ db.members.rows ++ rows.filter fun m => !db.members.rows.any (·.sameKey m),
      memberSchema.check m = true) ∧
      (db.members.rows ++ rows.filter fun m => !db.members.rows.any (·.sameKey m)).Pairwise
        fun a b => memberSchema.clash a b = false := by
    constructor
    · intro m hm
      rcases List.mem_append.mp hm with hm | hm
      · exact db.members.checked m hm
      · exact hcheck m (List.mem_of_mem_filter hm)
    · refine List.pairwise_append.mpr ⟨db.members.unique, hdistinct.filter _, ?_⟩
      intro a ha b hb
      have hnew := (List.mem_filter.mp hb).2
      rw [Bool.not_eq_true', List.any_eq_false] at hnew
      exact Bool.eq_false_iff.mpr (hnew a ha)
  refine ⟨⟨_, hrows.1, hrows.2⟩, ?_⟩
  simp only [insertMembers, Tx.bind_eq_ok, Tx.get_eq_ok]
  refine ⟨db, db, ⟨rfl, rfl⟩, ?_⟩
  rw [Table.ofRows, dif_pos hrows]
  rfl

theorem Ledger.star?_of_mem {s : Star} (hs : s ∈ db.stars.rows) :
    db.star? s.userId s.id = some s := by
  cases hfind : db.star? s.userId s.id with
  | none =>
      have := List.find?_eq_none.mp hfind s hs
      simp at this
  | some t =>
      obtain ⟨ht, -, hid⟩ := Ledger.star?_eq_some hfind
      rw [List.inj_on_of_nodup_map (db.stars.keys_nodup starSchema_id) ht hs hid]

/-! ## Readiness -/

/-- A text of the document that is fixed before the send. -/
def Intent.names (i : Intent) (key : String) : Option String :=
  i.prepared.bind fun p => (p.entry key).asStr

/-- Needs its local folder when it is applied. -/
def Mutation.needsFolder : Mutation → Bool
  | .createList _ | .editList .. | .membership .. => true
  | .deleteList _ | .star .. => false

/-- The edit moves nothing. -/
def PlainEdit (body : Json) : Prop :=
  (body.entry "parent_id").asI64 = none ∧ validateBody body false = .ok ()

/-- A list that fits the columns of a folder. -/
def ListResult (r : Json) : Prop :=
  ∃ list, (r.entry "id").asStr = some list ∧ list.length ≤ 64 ∧
    (r.entry "slug").asStr.all (·.length ≤ 128) = true

/-- The folder of the intent is linked to the list, or it is gone. -/
def Held (db : Ledger) (i : Intent) (folder : Int) (list : String) : Prop :=
  (i.localFolderId = some folder ∧ ∃ f ∈ db.folders.rows,
    f.id = folder ∧ f.userId = i.userId ∧ f.ghListId = some list) ∨
  (i.localFolderId = none ∧ folder ≤ db.lastFolder ∧ ∀ f ∈ db.folders.rows, f.id ≠ folder)

/-- What the request of an active intent relies on. -/
def Relies (db : Ledger) (i : Intent) : Mutation → Prop
  | .createList _ => i.state = .confirmed → ∃ r, i.result = some r ∧ ListResult r
  | .editList folder body => PlainEdit body ∧ ∃ list, i.names "list_id" = some list ∧
      Held db i folder list
  | .deleteList _ => ∃ list, i.names "list_id" = some list
  | .membership folder repo _ => ∃ list node, i.names "list_id" = some list ∧
      i.names "node_id" = some node ∧ Held db i folder list ∧
      ∃ s ∈ db.stars.rows, s.id = repo ∧ s.userId = i.userId ∧ s.ghNodeId = some node
  | .star _ _ => ∃ owner repo, i.names "owner" = some owner ∧ i.names "repo" = some repo

def Ready (db : Ledger) (i : Intent) : Prop := i.prepared.isSome = true ∧ Relies db i i.request

theorem text_of_names {p : Json} {key value : String} (hp : i.prepared = some p)
    (h : i.names key = some value) : text p key = .ok value := by
  rw [Intent.names, hp] at h
  have h : (p.entry key).asStr = some value := h
  rw [text, h]
  rfl

theorem requireLinked_ok {user folder : Int} {list : String} {f : Folder}
    (hf : f ∈ db.folders.rows) (hid : f.id = folder) (huser : f.userId = user)
    (hlist : f.ghListId = some list) : requireLinked user folder list db = .ok ((), db) := by
  have hfind : db.folder? user folder = some f :=
    Ledger.folder?_eq_some.mpr ⟨hf, huser, hid⟩
  simp only [requireLinked, Tx.bind_eq_ok, Tx.get_eq_ok, orFail_eq_ok, Tx.pure_eq_ok]
  refine ⟨db, db, ⟨rfl, rfl⟩, f, db, ⟨?_, rfl⟩, trivial, rfl⟩
  rw [hfind, Option.filter_some, if_pos (by simp [hlist])]

/-- A folder is linked, whether or not its list was imported meanwhile. -/
theorem linkFolder_ok {user : Int} {id : Uuid} {folder : Int} {remote : Json} {f : Folder}
    (hf : f ∈ db.folders.rows) (hid : f.id = folder) (huser : f.userId = user)
    (hremote : ListResult remote) :
    ∃ w, linkFolder user id folder remote db = .ok ((), w) := by
  obtain ⟨list, hlist, hlen, hslug⟩ := hremote
  have htext : text remote "id" = .ok list := by rw [text, hlist]; rfl
  cases himported : db.folders.rows.find? fun f =>
      f.userId = user && f.ghListId = some list && f.id ≠ folder with
  | some g =>
      have hchecked : ∀ m ∈ (db.members.rows.filter (·.folderId = folder)).map
          ({ · with folderId := g.id }), memberSchema.check m = true := by
        intro m hm
        obtain ⟨k, hk, rfl⟩ := List.mem_map.mp hm
        exact db.members.checked k (List.mem_of_mem_filter hk)
      have hdistinct : ((db.members.rows.filter (·.folderId = folder)).map
          ({ · with folderId := g.id })).Pairwise fun a b => a.sameKey b = false := by
        refine List.pairwise_map.mpr ((db.members.unique.filter _).imp_of_mem ?_)
        intro a b ha hb hab
        have ha := of_decide_eq_true (List.mem_filter.mp ha).2
        have hb := of_decide_eq_true (List.mem_filter.mp hb).2
        simpa [memberSchema, FolderMember.sameKey, ha, hb] using hab
      obtain ⟨members, hmembers⟩ := insertMembers_ok db hchecked hdistinct
      obtain ⟨folders, hfolders⟩ := updateFolders_ok { db with members }
        (p := fun k => k.userId = user && k.parentId = some folder && k.id ≠ g.id)
        (f := ({ · with parentId := some g.id }))
        (fun k hk _ => db.folders.checked k hk) fun _ => ⟨rfl, rfl, rfl⟩
      obtain ⟨n, mutations, hmutations⟩ := updateMutations_ok { db with members, folders }
        (p := fun i => i.isOf user id) (f := ({ · with localFolderId := some g.id }))
        (fun i hi _ => db.mutations.checked i hi) fun _ => ⟨rfl, rfl, rfl, fun h => h⟩
      obtain ⟨_, w, hdelete⟩ := deleteFolders_ok (fun k => k.userId = user && k.id = folder)
        { db with members, folders, mutations }
      refine ⟨w, ?_⟩
      simp only [linkFolder, Tx.bind_eq_ok, Tx.get_eq_ok, Tx.ofExcept_eq_ok]
      refine ⟨list, db, ⟨htext, rfl⟩, db, db, ⟨rfl, rfl⟩, ?_⟩
      rw [himported]
      simp only [Tx.bind_eq_ok, Tx.get_eq_ok, Tx.pure_eq_ok]
      exact ⟨db, db, ⟨rfl, rfl⟩, (), _, hmembers, _, _, hfolders, _, _, hmutations, _, _, hdelete,
        trivial, rfl⟩
  | none =>
      have hp : ∀ k : Folder, (k.userId = user && k.id = folder) = true → k.id = folder := by
        intro k hk
        exact of_decide_eq_true (Bool.and_eq_true_iff.mp hk).2
      obtain ⟨folders, hfolders⟩ := updateFolders_ok db
        (p := fun k => k.userId = user && k.id = folder)
        (f := ({ · with ghListId := some list, ghListSlug := (remote.entry "slug").asStr }))
        (fun k hk _ => by
          have := db.folders.checked k hk
          simp only [folderSchema, Folder.checks, List.all_cons, Bool.and_eq_true, id_eq] at this ⊢
          refine ⟨this.1, this.2.1, this.2.2.1, by simp [hlen], hslug, this.2.2.2.2.2⟩)
        fun _ => ⟨rfl, rfl, rfl⟩
      have hcount : (db.folders.rows.countP fun k => k.userId = user && k.id = folder) = 1 := by
        rw [Table.countP_of_key folderSchema_id hp,
          (Table.find_eq_some folderSchema_id).mpr ⟨hf, hid⟩]
        simp [huser, hid]
      refine ⟨{ db with folders }, ?_⟩
      simp only [linkFolder, Tx.bind_eq_ok, Tx.get_eq_ok, Tx.ofExcept_eq_ok]
      refine ⟨list, db, ⟨htext, rfl⟩, db, db, ⟨rfl, rfl⟩, ?_⟩
      rw [himported]
      simp only [Tx.bind_eq_ok]
      refine ⟨_, _, hfolders, ?_⟩
      rw [hcount]
      rfl

/-- What a body that is accepted has in its fields. -/
theorem validateBody_fields {v : Json} {create : Bool} (h : validateBody v create = .ok ()) :
    ((v.member? "name").isSome = true → ∃ s, text v "name" = .ok s ∧ s.length ≤ 128) ∧
      (∃ o, optionalText v "icon" (some 32) = .ok o) ∧
      (∃ o, optionalText v "description" none = .ok o) ∧
      fieldOk v "sort_order" (·.asI64.any fun n => -2 ^ 31 ≤ n && n ≤ 2 ^ 31 - 1) = true := by
  unfold validateBody at h
  have h := (Tx.result_guard_eq_ok.mp h).2
  have hrest : ∀ {x : Except Error Unit}, x = (do
        let _ ← optionalText v "slug" (some 64)
        let _ ← optionalText v "icon" (some 32)
        let _ ← optionalText v "description" none
        ensure (fieldOk v "sort_order" (·.asI64.any fun n => -2 ^ 31 ≤ n && n ≤ 2 ^ 31 - 1) &&
          fieldOk v "is_pinned" (·.asBool.isSome) &&
          fieldOk v "parent_id" fun n => n = .null || n.asI64.isSome)) → x = .ok () →
      (∃ o, optionalText v "icon" (some 32) = .ok o) ∧
      (∃ o, optionalText v "description" none = .ok o) ∧
      fieldOk v "sort_order" (·.asI64.any fun n => -2 ^ 31 ≤ n && n ≤ 2 ^ 31 - 1) = true := by
    rintro x rfl h
    obtain ⟨_, -, h⟩ := Tx.result_bind_eq_ok.mp h
    obtain ⟨icon, hicon, h⟩ := Tx.result_bind_eq_ok.mp h
    obtain ⟨description, hdescription, h⟩ := Tx.result_bind_eq_ok.mp h
    refine ⟨⟨icon, hicon⟩, ⟨description, hdescription⟩, ?_⟩
    unfold ensure at h
    split at h
    · rename_i hall
      rw [Bool.and_eq_true, Bool.and_eq_true] at hall
      exact hall.1.1
    · cases h
  by_cases hname : (create || (v.member? "name").isSome) = true
  · rw [if_pos hname] at h
    obtain ⟨s, hs, h⟩ := Tx.result_bind_eq_ok.mp h
    obtain ⟨hlen, h⟩ := Tx.result_guard_eq_ok.mp h
    refine ⟨fun _ => ⟨s, hs, ?_⟩, hrest rfl h⟩
    simp only [Bool.or_eq_true, decide_eq_true_eq] at hlen
    omega
  · rw [if_neg hname] at h
    refine ⟨fun hn => absurd ?_ hname, hrest rfl h⟩
    rw [hn, Bool.or_true]

/-- A text that fits fits where nothing bounds it. -/
theorem optionalText_unbounded {v : Json} {k : String} {max : Nat} {o : Option String}
    (h : optionalText v k (some max) = .ok o) :
    optionalText v k none = .ok o ∧ o.all (·.length ≤ max) = true := by
  unfold optionalText at h ⊢
  split at h
  · cases h
    exact ⟨rfl, rfl⟩
  · cases h
    exact ⟨rfl, rfl⟩
  · split at h
    · rename_i hlen
      cases h
      exact ⟨rfl, hlen⟩
    · cases h
  · cases h

/-- The columns of an accepted edit pass the checks of the table. -/
theorem editFolder_check {body : Json} {description icon : Option String} {f : Folder}
    (hbody : validateBody body false = .ok ())
    (hicon : (body.member? "icon").isSome = true → icon.all (·.length ≤ 32) = true)
    (hf : folderSchema.check f = true) :
    folderSchema.check (editFolder body description icon f) = true := by
  obtain ⟨hname, -, -, horder⟩ := validateBody_fields hbody
  simp only [folderSchema, Folder.checks, List.all_cons, List.all_nil, Bool.and_eq_true, id_eq,
    decide_eq_true_eq] at hf ⊢
  obtain ⟨hf₁, hf₂, hf₃, hf₄, hf₅, hf₆, -⟩ := hf
  refine ⟨?_, hf₂, ?_, hf₄, hf₅, ?_, trivial⟩
  · show ((body.entry "name").asStr.getD f.name).length ≤ 128
    cases hn : (body.entry "name").asStr with
    | none => exact hf₁
    | some name =>
        have hsome : (body.member? "name").isSome = true := by
          cases he : body.member? "name" with
          | none => simp [Json.entry, he, Json.asStr] at hn
          | some _ => rfl
        obtain ⟨s, hs, hlen⟩ := hname hsome
        rw [text, hn] at hs
        cases hs
        exact hlen
  · show Option.all _ (if (body.member? "icon").isSome then icon else f.icon) = true
    split
    · rename_i hsome
      exact hicon hsome
    · exact hf₃
  · show -2 ^ 31 ≤ (body.entry "sort_order").asI64.getD f.sortOrder ∧
      (body.entry "sort_order").asI64.getD f.sortOrder ≤ 2 ^ 31 - 1
    cases hn : (body.entry "sort_order").asI64 with
    | none => exact hf₆
    | some n =>
        cases he : body.member? "sort_order" with
        | none => simp [Json.entry, he, Json.asI64, Json.asInt] at hn
        | some v =>
            have hv : v.asI64 = some n := by simpa [Json.entry, he] using hn
            simpa [fieldOk, he, hv] using horder

section

variable {i : Intent} {p r : Json} {now : Int}

/-- The effects of a ready intent that has the folder it needs. -/
theorem applyEffects_ok (hl : Linked db) (hi : i ∈ db.mutations.rows)
    (hstate : i.state = .confirmed) (hp : i.prepared = some p) (hr : i.result = some r)
    (hready : Relies db i i.request)
    (hfolder : i.request.needsFolder = true → i.localFolderId.isSome = true) :
    ∃ w, applyEffects i.userId i p r now db = .ok ((), w) := by
  cases hreq : i.request with
  | createList body =>
      rw [hreq] at hready hfolder
      obtain ⟨r', hr', hlist⟩ := hready hstate
      obtain rfl := Option.some.inj (hr.symm.trans hr')
      obtain ⟨folder, hf⟩ := Option.isSome_iff_exists.mp (hfolder rfl)
      obtain ⟨f, hmem, hid, huser⟩ := hl i hi folder hf
      obtain ⟨w, hw⟩ := linkFolder_ok hmem hid huser hlist
      refine ⟨w, ?_⟩
      simp only [applyEffects, hreq, Tx.bind_eq_ok, orFail_eq_ok]
      exact ⟨folder, db, ⟨hf, rfl⟩, hw⟩
  | editList folder body =>
      rw [hreq] at hready hfolder
      obtain ⟨⟨hplain, hbody⟩, list, hnames, hheld⟩ := hready
      rcases hheld with ⟨-, f, hmem, hid, huser, hlist⟩ | ⟨hnone, -⟩
      · obtain ⟨-, ⟨icon, hicon⟩, ⟨description, hdescription⟩, -⟩ := validateBody_fields hbody
        obtain ⟨hicon, hlen⟩ := optionalText_unbounded hicon
        have hcheck : ∀ (d j : Option String), ((body.member? "icon").isSome = true → j = icon) →
            ∀ g ∈ db.folders.rows, (g.id = folder && g.userId = i.userId) = true →
              folderSchema.check (editFolder body d j g) = true := fun d j hj g hg _ =>
          editFolder_check hbody (fun hs => hj hs ▸ hlen) (db.folders.checked g hg)
        have htexts : ∃ d, (if (body.member? "description").isSome then
              optionalText body "description" none else .ok none) = .ok d := by
          split
          · exact ⟨_, hdescription⟩
          · exact ⟨_, rfl⟩
        have hicons : ∃ j, (if (body.member? "icon").isSome then
              optionalText body "icon" none else .ok none) = .ok j ∧
            ((body.member? "icon").isSome = true → j = icon) := by
          split
          · exact ⟨_, hicon, fun _ => rfl⟩
          · rename_i hn
            exact ⟨_, rfl, fun hs => absurd hs hn⟩
        obtain ⟨d, hd⟩ := htexts
        obtain ⟨j, hj, hji⟩ := hicons
        obtain ⟨folders, hu⟩ := updateFolders_ok db (hcheck d j hji) fun _ => ⟨rfl, rfl, rfl⟩
        refine ⟨{ db with folders }, ?_⟩
        simp only [applyEffects, hreq, checkParent, hplain, walkUp, Tx.bind_eq_ok, Tx.get_eq_ok,
          Tx.ofExcept_eq_ok, Tx.pure_eq_ok]
        exact ⟨(), db, ⟨db, db, ⟨rfl, rfl⟩, trivial, rfl⟩, list, db, ⟨text_of_names hp hnames, rfl⟩,
          (), db, requireLinked_ok hmem hid huser hlist, d, db, ⟨hd, rfl⟩, j, db, ⟨hj, rfl⟩, _, _,
          hu, trivial, rfl⟩
      · rw [hnone] at hfolder
        cases hfolder rfl
  | deleteList folder =>
      rw [hreq] at hready
      obtain ⟨list, hnames⟩ := hready
      obtain ⟨n, w, hdelete⟩ := deleteFolders_ok
        (fun f => f.id = folder && f.userId = i.userId && f.ghListId = some list) db
      refine ⟨w, ?_⟩
      simp only [applyEffects, hreq, Tx.bind_eq_ok, Tx.ofExcept_eq_ok, Tx.pure_eq_ok]
      exact ⟨list, db, ⟨text_of_names hp hnames, rfl⟩, n, w, hdelete, trivial, rfl⟩
  | membership folder star add =>
      rw [hreq] at hready hfolder
      obtain ⟨list, node, hnames, hnode, hheld, s, hs, hsid, hsuser, hsnode⟩ := hready
      rcases hheld with ⟨-, f, hmem, hid, huser, hlist⟩ | ⟨hnone, -⟩
      · have hstar : (db.star? i.userId star).filter (·.ghNodeId = some node) = some s := by
          have := Ledger.star?_of_mem hs
          rw [hsuser, hsid] at this
          rw [this, Option.filter_some, if_pos (by simp [hsnode])]
        have hwrite : ∃ w, (if add then insertMembers [⟨folder, star, "user", now⟩]
            else deleteMembers fun m => m.folderId = folder && m.starId = star : LedgerStmt Unit)
              db = .ok ((), w) := by
          cases add with
          | true =>
              have hcheck : ∀ m ∈ [(⟨folder, star, "user", now⟩ : FolderMember)],
                  memberSchema.check m = true := by
                rintro m hm
                rw [List.mem_singleton.mp hm]
                simpa [memberSchema] using (by decide : "user".length ≤ 8)
              obtain ⟨members, h⟩ := insertMembers_ok db hcheck (List.pairwise_singleton _ _)
              exact ⟨_, h⟩
          | false => exact ⟨_, rfl⟩
        obtain ⟨w, hw⟩ := hwrite
        refine ⟨w, ?_⟩
        simp only [applyEffects, hreq, Tx.bind_eq_ok, Tx.ofExcept_eq_ok, Tx.get_eq_ok,
          orFail_eq_ok]
        exact ⟨list, db, ⟨text_of_names hp hnames, rfl⟩, (), db,
          requireLinked_ok hmem hid huser hlist, node, db, ⟨text_of_names hp hnode, rfl⟩, db, db,
          ⟨rfl, rfl⟩, s, db, ⟨hstar, rfl⟩, hw⟩
      · rw [hnone] at hfolder
        cases hfolder rfl
  | star star add =>
      rw [hreq] at hready
      obtain ⟨owner, repo, howner, hrepo⟩ := hready
      obtain ⟨n, stars, hu⟩ := updateStars_ok db
        (p := fun s => s.id = star && s.userId = i.userId && s.fullName = owner ++ "/" ++ repo)
        (f := ({ · with canUnstar := add })) (fun _ => rfl) fun _ => ⟨rfl, rfl, rfl⟩
      refine ⟨{ db with stars }, ?_⟩
      simp only [applyEffects, hreq, Tx.bind_eq_ok, Tx.ofExcept_eq_ok, Tx.pure_eq_ok]
      exact ⟨owner, db, ⟨text_of_names hp howner, rfl⟩, repo, db, ⟨text_of_names hp hrepo, rfl⟩,
        n, _, hu, trivial, rfl⟩

/-- The last state passes the checks of the table. -/
theorem finish_ok (user : Int) (id : Uuid) (now : Int) (db : Ledger) :
    ∃ n mutations, updateMutations (fun i => i.isOf user id && i.state = .confirmed)
      (·.finish now) db = .ok (n, { db with mutations }) := by
  refine updateMutations_ok db (fun i hi hp => ?_) fun i => ⟨rfl, rfl, rfl, fun h => ?_⟩
  · have hstate := of_decide_eq_true (Bool.and_eq_true_iff.mp hp).2
    have hchecked := db.mutations.checked i hi
    simp only [mutationSchema, Intent.checks, List.all_cons, List.all_nil, Bool.and_eq_true,
      id_eq, hstate] at hchecked ⊢
    exact ⟨hchecked.1, hchecked.2.1, hchecked.2.2.1, hchecked.2.2.2.1, trivial⟩
  · cases h

/-- **Applied or stuck.** A ready intent is applied exactly when it has the folder it
needs. -/
theorem applies_iff_folder (hl : Linked db) (hi : i ∈ db.mutations.rows)
    (hstate : i.state = .confirmed) (hready : Ready db i) (now : Int) :
    (∃ db', applyMutation i.userId i.id now db = (.ok (), db')) ↔
      (i.request.needsFolder = true → i.localFolderId.isSome = true) := by
  constructor
  · rintro ⟨db', h⟩ hneeds
    obtain ⟨prepared, remote, w, n, hprepared, hremote, heffects, -⟩ :=
      applyMutation_confirmed hi hstate h
    by_contra hnone
    have hnone : i.localFolderId = none := by simpa using hnone
    have hunlinked : ∀ {folder : Int} {list list' : String} {u : Unit} {w : Ledger},
        Held db i folder list → requireLinked i.userId folder list' db = .ok (u, w) → False := by
      intro folder list list' u w hheld hlinked
      rcases hheld with ⟨hsome, -⟩ | ⟨-, -, hgone⟩
      · rw [hnone] at hsome
        cases hsome
      · obtain ⟨-, f, hf, -⟩ := requireLinked_eq_ok hlinked
        exact hgone f (Ledger.folder?_eq_some.mp hf).1 (Ledger.folder?_eq_some.mp hf).2.2
    have hrelies := hready.2
    cases hreq : i.request with
    | createList body =>
        simp only [applyEffects, hreq, Tx.bind_eq_ok, orFail_eq_ok, hnone] at heffects
        obtain ⟨_, _, ⟨hfolder, -⟩, -⟩ := heffects
        cases hfolder
    | editList folder body =>
        rw [hreq] at hrelies
        obtain ⟨-, list, -, hheld⟩ := hrelies
        simp only [applyEffects, hreq, Tx.bind_eq_ok, Tx.ofExcept_eq_ok] at heffects
        obtain ⟨_, _, hparent, _, _, ⟨-, rfl⟩, _, _, hlinked, -⟩ := heffects
        obtain rfl := checkParent_db hparent
        exact hunlinked hheld hlinked
    | membership folder star add =>
        rw [hreq] at hrelies
        obtain ⟨list, node, -, -, hheld, -⟩ := hrelies
        simp only [applyEffects, hreq, Tx.bind_eq_ok, Tx.ofExcept_eq_ok] at heffects
        obtain ⟨_, _, ⟨-, rfl⟩, _, _, hlinked, -⟩ := heffects
        exact hunlinked hheld hlinked
    | deleteList folder | star star add => rw [hreq] at hneeds; cases hneeds
  · intro hfolder
    obtain ⟨prepared, hprepared⟩ := Option.isSome_iff_exists.mp hready.1
    have hresult : i.result.isSome = true := by
      have hchecked := db.mutations.checked i hi
      simp only [mutationSchema, Intent.checks, List.all_cons, Bool.and_eq_true, id_eq,
        hstate] at hchecked
      exact hchecked.2.2.1
    obtain ⟨remote, hremote⟩ := Option.isSome_iff_exists.mp hresult
    have hw : ∃ w, applyEffects i.userId i prepared remote now db = .ok ((), w) :=
      applyEffects_ok hl hi hstate hprepared hremote hready.2 hfolder
    obtain ⟨w, hw⟩ := hw
    obtain ⟨n, mutations, hfinish⟩ := finish_ok i.userId i.id now w
    refine ⟨{ w with mutations }, Tx.auto_eq_ok.mpr ?_⟩
    have hfind : db.intent? i.userId i.id = some i := Ledger.intent?_eq_some.mpr ⟨hi, rfl, rfl⟩
    simp only [applyMutationOn, Tx.bind_eq_ok, Tx.get_eq_ok, orFail_eq_ok]
    refine ⟨db, db, ⟨rfl, rfl⟩, i, db, ⟨hfind, rfl⟩, ?_⟩
    rw [if_neg (by rw [hstate]; intro h; cases h), if_neg (by simp [hstate])]
    simp only [Tx.bind_eq_ok, orFail_eq_ok, Tx.pure_eq_ok]
    exact ⟨prepared, db, ⟨hprepared, rfl⟩, remote, db, ⟨hremote, rfl⟩, (), w, hw, n, _, hfinish,
      trivial, rfl⟩

end

end

/-! ## Steps -/

/-- The request is one that a route makes. -/
def RoutedRequest : Mutation → Prop
  | .editList _ body => (body.entry "parent_id").asI64 = none
  | _ => True

/-- What the preflight makes of a document. -/
def Preflighted (p prepared : Json) : Prop :=
  prepared = p ∨ ∃ v, prepared = p.withEntry "baseline" v ∨ prepared = p.withEntry "desired_ids" v

/-- What the caller of a turn has made sure of. -/
structure Sound (u : Callers) (e : CallerTurn) : Prop where
  routed : ∀ caller user request key now a,
    e = .answer caller (.store (.prepareMutation user request key now)) a → RoutedRequest request
  begins : ∀ caller intent prepared now a,
    e = .answer caller (.store (.beginMutationSend intent prepared now)) a →
    ∀ i ∈ u.shared.db.mutations.rows, i.isOf intent.userId intent.id = true →
      i.state = .prepared → ∃ p, i.prepared = some p ∧ Preflighted p prepared
  confirms : ∀ caller user id result now a,
    e = .answer caller (.store (.confirmMutation user id result now)) a →
    ∀ i ∈ u.shared.db.mutations.rows, i.isOf user id = true → i.request.isCreate = true →
      ListResult result

theorem Preflighted.entry {p prepared : Json} (h : Preflighted p prepared) {key : String}
    (hbaseline : key ≠ "baseline") (hdesired : key ≠ "desired_ids") :
    prepared.entry key = p.entry key := by
  rcases h with rfl | ⟨v, rfl | rfl⟩
  · rfl
  · exact Json.entry_withEntry p v hbaseline
  · exact Json.entry_withEntry p v hdesired

section

variable {May : Entry → Prop} {u v : Callers} {e : CallerTurn} {i j : Intent}

/-- A row that stays active is what it was, but for its state. -/
structure StaysActive (i j : Intent) : Prop where
  prepared : i.prepared.isSome = true → j.prepared.isSome = true
  names : ∀ key, key ≠ "baseline" → key ≠ "desired_ids" → j.names key = i.names key
  folder : j.localFolderId = i.localFolderId ∨ j.localFolderId = none
  result : j.state = .confirmed → i.request.isCreate = true →
    (i.state = .confirmed ∧ j.result = i.result) ∨ ∃ r, j.result = some r ∧ ListResult r

theorem CallerStep.stays_active (h : CallerStep May u e v) (hs : Sound u e)
    (hi : i ∈ u.shared.db.mutations.rows) (hj : j ∈ v.shared.db.mutations.rows)
    (hid : j.id = i.id) (haj : j.active = true) : StaysActive i j := by
  obtain ⟨k, hk, hmoves⟩ := h.forward hi
  obtain rfl := eq_of_intent_id hk hj (hmoves.keeps.1.trans hid.symm)
  have hsame : StaysActive i i :=
    ⟨fun h => h, fun _ _ _ => rfl, .inl rfl, fun h _ => .inl ⟨h, rfl⟩⟩
  cases hmoves with
  | same => exact hsame
  | call moved =>
      cases moved with
      | kept => exact hsame
      | unlinked => exact ⟨fun h => h, fun _ _ _ => rfl, .inr rfl, fun h _ => .inl ⟨h, rfl⟩⟩
      | begun of state =>
          refine ⟨fun _ => rfl, fun key hb hd => ?_, .inl rfl, fun h => by cases h⟩
          obtain ⟨p, hp, hpre⟩ := hs.begins _ _ _ _ _ rfl i hi of state
          show (some _ : Option Json).bind _ = i.prepared.bind _
          rw [hp, Option.bind_some, Option.bind_some, hpre.entry hb hd]
      | confirmed of state =>
          refine ⟨fun h => h, fun _ _ _ => rfl, .inl rfl, fun _ hcreate => .inr ⟨_, rfl, ?_⟩⟩
          exact hs.confirms _ _ _ _ _ _ rfl i hi of hcreate
      | quarantined of state =>
          exact ⟨fun h => h, fun _ _ _ => rfl, .inl rfl, fun h => by cases h⟩
      | cancelled => cases haj
      | rejected => cases haj
      | applied => cases haj

/-- The folder of an active intent stays linked, or it is gone. -/
theorem Held.step {folder : Int} {list : String} (hheld : Held u.shared.db i folder list)
    (hu : LedgerOk u.shared) (h : CallerStep May u e v) (hs : Sound u e)
    (hi : i ∈ u.shared.db.mutations.rows) (hj : j ∈ v.shared.db.mutations.rows)
    (hid : j.id = i.id) (hai : i.active = true) (haj : j.active = true) :
    Held v.shared.db j folder list := by
  have huser : j.userId = i.userId := by
    obtain ⟨k, hk, hmoves⟩ := h.forward hi
    obtain rfl := eq_of_intent_id hk hj (hmoves.keeps.1.trans hid.symm)
    exact hmoves.keeps.2.1
  have hstays := h.stays_active hs hi hj hid haj
  have hfolders := h.keepsFolders
  have hgone : ∀ {x : Int}, x ≤ u.shared.db.lastFolder → (∀ f ∈ u.shared.db.folders.rows,
      f.id ≠ x) → ∀ g ∈ v.shared.db.folders.rows, g.id ≠ x := by
    intro x hx hgone g hg hgx
    obtain ⟨f, hf, hfid⟩ := hfolders.old g hg (hgx ▸ hx)
    exact hgone f hf (hfid.trans hgx)
  rcases hheld with ⟨hsome, f, hf, hfid, hfuser, hflist⟩ | ⟨hnone, hle, hmissing⟩
  · have hle : folder ≤ v.shared.db.lastFolder :=
      hfid ▸ (hu.bounded f hf).trans hfolders.last
    rcases hstays.folder with hkept | hlost
    · -- the folder that the row still has was not deleted
      have hhas : j.localFolderId = some folder := hkept.trans hsome
      refine .inl ⟨hhas, ?_⟩
      rcases h.spares hi hj hid hai haj with ⟨caller, deleted, n, rfl, hdelete⟩ | hspares
      · obtain ⟨g, hg, hgid, hguser⟩ := (hu.step h).linked j hj folder hhas
        refine ⟨g, hg, hgid, hguser, ?_⟩
        rw [(deleteFolders_eq_ok hdelete).1, List.mem_map] at hg
        obtain ⟨f', hf', rfl⟩ := hg
        obtain rfl := eq_of_folder_id (List.mem_of_mem_filter hf') hf
          (Folder.orphan_of_mem.1.symm.trans (hgid.trans hfid.symm))
        exact Folder.orphan_of_mem.2.2.trans hflist
      · obtain ⟨g, hg, hgid, hguser, hglist⟩ := hspares.folders f hf hfuser
        exact ⟨g, hg, hgid.trans hfid, hguser.trans (hfuser.trans huser.symm),
          hglist.trans hflist⟩
    · refine .inr ⟨hlost, hle, ?_⟩
      rcases h.ledger with hsame | ⟨_, c, a, fresh, rfl, -, -, heffect⟩
      · rw [hsame] at hj
        rw [eq_of_intent_id hj hi hid, hsome] at hlost
        cases hlost
      · obtain ⟨m, hm, hmid, hcases⟩ := heffect.lost hi hsome
        obtain rfl := eq_of_intent_id hm hj (hmid.trans hid.symm)
        rcases hcases with happlied | hhas | hgone
        · simp [Intent.active, happlied] at haj
        · rw [hlost] at hhas
          cases hhas
        · exact hgone
  · refine .inr ⟨?_, hle.trans hfolders.last, hgone hle hmissing⟩
    rcases hstays.folder with hkept | hlost
    · exact hkept.trans hnone
    · exact hlost

/-- A ready intent stays ready while it is active. -/
theorem Ready.step (hready : Ready u.shared.db i) (hu : LedgerOk u.shared)
    (h : CallerStep May u e v) (hs : Sound u e) (hi : i ∈ u.shared.db.mutations.rows)
    (hj : j ∈ v.shared.db.mutations.rows) (hid : j.id = i.id) (hai : i.active = true)
    (haj : j.active = true) : Ready v.shared.db j := by
  have hkeeps : j.userId = i.userId ∧ j.request = i.request := by
    obtain ⟨k, hk, hmoves⟩ := h.forward hi
    obtain rfl := eq_of_intent_id hk hj (hmoves.keeps.1.trans hid.symm)
    exact ⟨hmoves.keeps.2.1, hmoves.keeps.2.2.2⟩
  have hstays := h.stays_active hs hi hj hid haj
  refine ⟨hstays.prepared hready.1, ?_⟩
  have hrelies := hready.2
  rw [hkeeps.2]
  cases hreq : i.request with
  | createList body =>
      rw [hreq] at hrelies
      intro hconfirmed
      rcases hstays.result hconfirmed (by rw [hreq]; rfl) with ⟨hold, hresult⟩ | hnew
      · obtain ⟨r, hr, hlist⟩ := hrelies hold
        exact ⟨r, hresult.trans hr, hlist⟩
      · exact hnew
  | editList folder body =>
      rw [hreq] at hrelies
      obtain ⟨hplain, list, hnames, hheld⟩ := hrelies
      exact ⟨hplain, list, (hstays.names _ (by decide) (by decide)).trans hnames,
        hheld.step hu h hs hi hj hid hai haj⟩
  | deleteList folder =>
      rw [hreq] at hrelies
      obtain ⟨list, hnames⟩ := hrelies
      exact ⟨list, (hstays.names _ (by decide) (by decide)).trans hnames⟩
  | membership folder star add =>
      rw [hreq] at hrelies
      obtain ⟨list, node, hnames, hnode, hheld, s, hstar, hsid, hsuser, hsnode⟩ := hrelies
      refine ⟨list, node, (hstays.names _ (by decide) (by decide)).trans hnames,
        (hstays.names _ (by decide) (by decide)).trans hnode,
        hheld.step hu h hs hi hj hid hai haj, ?_⟩
      rcases h.spares hi hj hid hai haj with ⟨caller, deleted, n, rfl, hdelete⟩ | hspares
      · refine ⟨s, ?_, hsid, hsuser.trans hkeeps.1.symm, hsnode⟩
        rw [(deleteFolders_eq_ok hdelete).2.2.1]
        exact hstar
      · obtain ⟨t, ht, htid, htuser, htnode⟩ := hspares.stars s hstar hsuser
        exact ⟨t, ht, htid.trans hsid, htuser.trans (hsuser.trans hkeeps.1.symm),
          htnode.trans hsnode⟩
  | star star add =>
      rw [hreq] at hrelies
      obtain ⟨owner, repo, howner, hrepo⟩ := hrelies
      exact ⟨owner, repo, (hstays.names _ (by decide) (by decide)).trans howner,
        (hstays.names _ (by decide) (by decide)).trans hrepo⟩

end

/-- A new intent is ready. -/
theorem Journalled.ready {user now : Int} (h : Journalled db fresh user request key now i db')
    (hrouted : RoutedRequest request) : Ready db' i := by
  obtain ⟨fields, w, hprep, hprepared, hfolders, -, hstars, -, -⟩ := h.effect
  have hnames : ∀ key, i.names key = ((Json.obj fields).entry key).asStr := by
    intro key
    rw [Intent.names, hprepared]
    rfl
  have hheld : ∀ {folder : Int} {list : String}, w = db → i.localFolderId = some folder →
      (∃ f, db.folder? user folder = some f ∧ f.ghListId = some list) →
        Held db' i folder list := by
    rintro folder list rfl hfolder ⟨f, hf, hlist⟩
    obtain ⟨hmem, huser, hid⟩ := Ledger.folder?_eq_some.mp hf
    exact .inl ⟨hfolder, f, hfolders ▸ hmem, hid, huser.trans h.userId.symm, hlist⟩
  refine ⟨by rw [hprepared]; rfl, ?_⟩
  rw [h.request]
  generalize hfolder : i.localFolderId = own at hprep
  cases prepareRequest_prepared hprep with
  | createList =>
      intro hconfirmed
      rw [h.state] at hconfirmed
      cases hconfirmed
  | editList valid found linked =>
      exact ⟨⟨hrouted, valid⟩, _, hnames _, hheld rfl hfolder ⟨_, found, linked⟩⟩
  | deleteList => exact ⟨_, hnames _⟩
  | membership found linked starred known =>
      obtain ⟨hmem, huser, hid⟩ := Ledger.star?_eq_some starred
      exact ⟨_, _, hnames _, hnames _, hheld rfl hfolder ⟨_, found, linked⟩, _, hstars ▸ hmem, hid,
        huser.trans h.userId.symm, known⟩
  | star => exact ⟨_, _, hnames _, hnames _⟩

/-! ## Runs -/

/-- GitHub names lists with texts that fit the columns of a folder. -/
structure FitsColumns (e : CallerTurn) : Prop where
  created : ∀ caller token name description d list,
    e = .answer caller (.github (.createUserList token name description)) (.ok d) →
    (d.entry "createUserList").member? "list" = some list →
      (list.entry "id").asStr.all (·.length ≤ 64) = true ∧
        (list.entry "slug").asStr.all (·.length ≤ 128) = true
  listed : ∀ caller token catalog,
    e = .answer caller (.github (.catalogue token)) (.ok catalog) →
      ∀ l ∈ catalog, l.id.length ≤ 64 ∧ l.slug.length ≤ 128

/-- The turn deletes no folder that an active intent needs. -/
def SparesFolders (u : Callers) (e : CallerTurn) : Prop :=
  ∀ caller user folder, e = .answer caller (.store (.deleteFolder user folder)) (.ok ()) →
    ∀ i ∈ u.shared.db.mutations.rows, i.userId = user → i.active = true →
      i.request.needsFolder = true → i.localFolderId ≠ some folder

section

variable {May : Entry → Prop} {s u v t : Callers} {es : List CallerTurn} {e : CallerTurn}

/-- While an intent is prepared, its document is the one it was journalled with. -/
theorem prepared_after (h : Run (CallerStep May) u es v) (hi : i ∈ u.shared.db.mutations.rows) :
    ∃ j ∈ v.shared.db.mutations.rows,
      j.id = i.id ∧ j.userId = i.userId ∧ j.request = i.request ∧
        (j.state = .prepared → j.prepared = i.prepared) := by
  refine h.invariant (I := fun v => ∃ j ∈ v.shared.db.mutations.rows, j.id = i.id ∧
    j.userId = i.userId ∧ j.request = i.request ∧
      (j.state = .prepared → j.prepared = i.prepared)) ?_ ⟨i, hi, rfl, rfl, rfl, fun _ => rfl⟩
  rintro v e w ⟨j, hj, hid, huser, hreq, hprepared⟩ hstep
  obtain ⟨k, hk, hmoves⟩ := hstep.forward hj
  refine ⟨k, hk, hmoves.keeps.1.trans hid, hmoves.keeps.2.1.trans huser,
    hmoves.keeps.2.2.2.trans hreq, fun hk => ?_⟩
  rw [← hprepared (hmoves.prepared hk)]
  cases hmoves with
  | same => rfl
  | call moved =>
      cases moved with
      | begun => cases hk
      | kept => rfl
      | unlinked => rfl
      | confirmed => rfl
      | quarantined => rfl
      | cancelled => rfl
      | rejected => rfl
      | applied => rfl

/-- An intent that a caller read is still there, as far as it does not change. -/
theorem read_intent (h : Run (CallerStep May) s es t) {caller user : _} {id : Uuid}
    {intent : Intent}
    (hread : .answer caller (.store (.mutation user id)) (.ok intent) ∈ es) :
    intent.id = id ∧ intent.userId = user ∧ ∃ i ∈ t.shared.db.mutations.rows,
      i.id = intent.id ∧ i.userId = intent.userId ∧ i.request = intent.request ∧
        (i.state = .prepared → i.prepared = intent.prepared) := by
  obtain ⟨es₁, es₂, rfl⟩ := List.append_of_mem hread
  obtain ⟨u, v, -, hstep, hrest⟩ := h.split_at
  rcases hstep with _ | ⟨turn, gives⟩
  cases gives with
  | @store c fresh a db new result =>
      have hfind : u.shared.db.intent? user id = some intent := by
        have hfst := congrArg Prod.fst result
        exact eq_some_of_elim hfst
      obtain ⟨hmem, huser, hid⟩ := Ledger.intent?_eq_some.mp hfind
      have hdb : u.shared.db = db := congrArg Prod.snd result
      exact ⟨hid, huser, prepared_after hrest (show intent ∈ db.mutations.rows from hdb ▸ hmem)⟩

/-- What the callers of a run ask is sound. -/
theorem sound_of_run (hrequests : ∀ e, May e → e.Requests RoutedRequest)
    (hcallers : s.callers = []) (hrun : Run (CallerStep May) s es u) (hstep : CallerStep May u e v)
    (hfits : ∀ e ∈ es, FitsColumns e) : Sound u e := by
  have hasks : ∀ {caller : Nat} {q : Question} {a : q.Answer}, e = .answer caller q a →
      Asks RoutedRequest (heardBy caller es) q := by
    rintro caller q a rfl
    refine Pool.allowed (R := fun _ _ => True) ?_ (hrun.snoc hstep) hcallers
    rintro p ⟨entry, hmay, rfl⟩
    exact Entry.program_keeps (hrequests entry hmay)
  have hrow : ∀ {caller : Nat} {user : Int} {id : Uuid} {intent i : Intent},
      (⟨.store (.mutation user id), .ok intent⟩ : Answered Question.Answer) ∈
        heardBy caller es → i ∈ u.shared.db.mutations.rows → i.id = intent.id →
      i.request = intent.request ∧ (i.state = .prepared → i.prepared = intent.prepared) := by
    intro caller user id intent i hread hi hid
    obtain ⟨-, -, k, hk, hkid, -, hreq, hprepared⟩ := read_intent hrun (mem_of_heardBy hread)
    obtain rfl := eq_of_intent_id hk hi (hkid.trans hid.symm)
    exact ⟨hreq, hprepared⟩
  refine ⟨fun caller user request key now a he => hasks he, ?_, ?_⟩
  · intro caller intent prepared now a he i hi hof hstate
    obtain ⟨user, id, p, hread, -, hp, hpre⟩ := hasks he
    obtain ⟨-, hprepared⟩ := hrow hread hi (isOf_iff.mp hof).1
    exact ⟨p, (hprepared hstate).trans hp, hpre⟩
  · intro caller user id result now a he i hi hof hcreate
    have hevidence : Evidence (heardBy caller es) user id result := hasks he
    cases hevidence with
    | @sent intent id' prepared _ now' rest read begun accepted =>
        obtain ⟨hreq, -⟩ := hrow read hi (isOf_iff.mp hof).1
        rcases accepted with ⟨folder, body, hedit, -⟩ | ⟨token, c, d, after, hsends, hshows, hrest⟩
        · rw [hreq, hedit] at hcreate
          cases hcreate
        · rw [hreq] at hcreate
          have hheard : .answer caller (.github c) (.ok d) ∈ es := by
            refine mem_of_heardBy ?_
            obtain ⟨before, hbefore⟩ := begun
            rw [hbefore, hrest]
            simp
          obtain ⟨request, hrequest⟩ : ∃ request, request = intent.request := ⟨_, rfl⟩
          rw [← hrequest] at hsends hcreate
          cases hsends with
          | createList named =>
              cases hshows with
              | createUserList given identified =>
                  obtain ⟨hid, hslug⟩ := (hfits _ hheard).created _ _ _ _ _ _ rfl given
                  cases hlist : (result.entry "id").asStr with
                  | none => simp [hlist] at identified
                  | some list =>
                      rw [hlist] at hid
                      exact ⟨list, hlist, of_decide_eq_true hid, hslug⟩
          | editList | deleteList | membership | star => cases hcreate
    | @observed intent _ prepared rest read inFlight hprepared shown =>
        obtain ⟨hreq, -⟩ := hrow read.mem hi ((isOf_iff.mp hof).1.trans
          (read_intent hrun (mem_of_heardBy read.mem)).1.symm)
        obtain ⟨request, hrequest⟩ : ∃ request, request = intent.request := ⟨_, rfl⟩
        rw [hreq, ← hrequest] at hcreate
        rw [← hrequest] at shown
        cases shown with
        | editList | deleteList | membership | star => cases hcreate
    | @adopted intent _ body prepared baseline token catalog l rest read create inFlight hprepared
        before listed mem new named =>
        have hheard : .answer caller (.github (.catalogue token)) (.ok catalog) ∈ es := by
          refine mem_of_heardBy ?_
          obtain ⟨b, hb⟩ := read
          rw [hb]
          exact List.mem_append_right _ (List.mem_cons_of_mem _ listed)
        obtain ⟨hid, hslug⟩ := (hfits _ hheard).listed _ _ _ rfl l mem
        have htext : (l.toJson.entry "slug").asStr = some l.slug := rfl
        exact ⟨l.id, rfl, hid, by rw [htext]; simpa using hslug⟩

/-- Every active intent of a run is ready. -/
theorem ready_of_run (hrequests : ∀ e, May e → e.Requests RoutedRequest)
    (hs : s.shared.db.Initial) (hcallers : s.callers = []) (hrun : Run (CallerStep May) s es t)
    (hfits : ∀ e ∈ es, FitsColumns e) :
    ∀ i ∈ t.shared.db.mutations.rows, i.active = true → Ready t.shared.db i := by
  induction hrun with
  | nil =>
      intro i hi
      rw [hs.mutations] at hi
      cases hi
  | @snoc es u v e hrun hstep ih =>
      intro j hj haj
      have hpast : ∀ e ∈ es, FitsColumns e := fun e he => hfits e (List.mem_append_left _ he)
      have hsound := sound_of_run hrequests hcallers hrun hstep hpast
      have hu : LedgerOk u.shared := .reach ⟨hs, hcallers, hrun⟩
      rcases hstep.backward hj with ⟨i, hi, hmoves⟩ | ⟨_, _, _, _, _, _, he, -, -, hnew⟩
      · have hai : i.active = true := by
          by_contra hn
          have hn : i.active = false := by simpa using hn
          unfold Intent.active at haj hn
          rw [hmoves.done hn, hn] at haj
          cases haj
        exact (ih hpast i hi hai).step hu hstep hsound hi hj hmoves.keeps.1 hai haj
      · exact hnew.ready (hsound.routed _ _ _ _ _ _ he)

/-- A new intent has the folder it needs. -/
theorem Journalled.folder {user now : Int} (h : Journalled db fresh user request key now i db')
    (hneeds : request.needsFolder = true) : i.localFolderId.isSome = true := by
  obtain ⟨fields, w, hprep, -⟩ := h.effect
  generalize i.localFolderId = own at hprep
  cases prepareRequest_prepared hprep with
  | createList | editList | membership => rfl
  | deleteList | star => cases hneeds

/-- Where no needed folder is deleted, every active intent keeps the folder it needs. -/
theorem folder_of_run (hs : s.shared.db.Initial) (hcallers : s.callers = [])
    (hrun : Run (fun u e v => CallerStep May u e v ∧ SparesFolders u e) s es t) :
    ∀ i ∈ t.shared.db.mutations.rows, i.active = true → i.request.needsFolder = true →
      i.localFolderId.isSome = true := by
  induction hrun with
  | nil =>
      intro i hi
      rw [hs.mutations] at hi
      cases hi
  | @snoc es u v e hrun hstep ih =>
      intro j hj haj hneeds
      obtain ⟨hstep, hspares⟩ := hstep
      have hu : LedgerOk u.shared := .reach ⟨hs, hcallers, hrun.mono fun h => h.1⟩
      rcases hstep.backward hj with ⟨i, hi, hmoves⟩ | ⟨_, _, _, _, _, _, -, -, -, hnew⟩
      · have hai : i.active = true := by
          by_contra hn
          have hn : i.active = false := by simpa using hn
          unfold Intent.active at haj hn
          rw [hmoves.done hn, hn] at haj
          cases haj
        have hneeds : i.request.needsFolder = true := hmoves.keeps.2.2.2 ▸ hneeds
        obtain ⟨x, hx⟩ := Option.isSome_iff_exists.mp (ih i hi hai hneeds)
        obtain ⟨f, hf, hfid, hfuser⟩ := hu.linked i hi x hx
        have hsurvives : ∃ g ∈ v.shared.db.folders.rows, g.id = x := by
          rcases hstep.spares hi hj hmoves.keeps.1 hai haj with
            ⟨caller, deleted, n, rfl, hdelete⟩ | hkept
          · have hne := hspares _ _ _ rfl i hi rfl hai hneeds
            refine ⟨_, (deleteFolders_eq_ok hdelete).1 ▸ List.mem_map_of_mem
              (List.mem_filter.mpr ⟨hf, ?_⟩), Folder.orphan_of_mem.1.trans hfid⟩
            have hother : f.id ≠ deleted := fun h => hne (by rw [hx, ← h, hfid])
            simp [hother]
          · obtain ⟨g, hg, hgid, -⟩ := hkept.folders f hf hfuser
            exact ⟨g, hg, hgid.trans hfid⟩
        rcases hstep.ledger with hsame | ⟨_, c, a, fresh, rfl, -, -, heffect⟩
        · rw [hsame] at hj
          rw [eq_of_intent_id hj hi hmoves.keeps.1, hx]
          rfl
        · obtain ⟨m, hm, hmid, hcases⟩ := heffect.lost hi hx
          obtain rfl := eq_of_intent_id hm hj (hmid.trans hmoves.keeps.1.symm)
          rcases hcases with happlied | hhas | hgone
          · simp [Intent.active, happlied] at haj
          · rw [hhas]
            rfl
          · obtain ⟨g, hg, hgid⟩ := hsurvives
            exact absurd hgid (hgone g hg)
      · exact hnew.folder (hnew.request ▸ hneeds)

end

/-! ## Routes -/

/-- A field of another key is left alone. -/
theorem field_other {v : Json} {out out' : List (String × Json)} {key other : String}
    {type : Validation.FieldType} {nullable : Bool}
    (h : Validation.field v out key type nullable = .ok out') (hne : other ≠ key) :
    Json.get? out' other = Json.get? out other := by
  unfold Validation.field at h
  split at h
  · cases h
    rfl
  · rename_i n _
    by_cases hn : (decide (n = .null) && nullable) = true
    · rw [if_pos hn] at h
      cases h
      exact Json.get?_insert _ _ hne
    · rw [if_neg hn] at h
      obtain ⟨value, -, h⟩ := Tx.result_bind_eq_ok.mp h
      cases h
      exact Json.get?_insert _ _ hne

/-- A partial update names no parent. -/
theorem folderPatch_parent {body patch : Json} (h : Validation.folderPatch body = .ok patch) :
    (patch.entry "parent_id").asI64 = none := by
  unfold Validation.folderPatch at h
  obtain ⟨-, h⟩ := Tx.result_guard_eq_ok.mp h
  obtain ⟨a, ha, h⟩ := Tx.result_bind_eq_ok.mp h
  obtain ⟨b, hb, h⟩ := Tx.result_bind_eq_ok.mp h
  obtain ⟨c, hc, h⟩ := Tx.result_bind_eq_ok.mp h
  obtain ⟨d, hd, h⟩ := Tx.result_bind_eq_ok.mp h
  cases h
  have hnone : Json.get? d "parent_id" = none := by
    rw [field_other hd (by decide), field_other hc (by decide), field_other hb (by decide),
      field_other ha (by decide)]
    rfl
  have hfiltered : Json.get? (d.filter (·.2 ≠ .null)) "parent_id" = none :=
    Json.get?_eq_none.mpr fun f hf => Json.get?_eq_none.mp hnone f (List.mem_of_mem_filter hf)
  have hentry : (Json.obj (d.filter (·.2 ≠ .null))).entry "parent_id" = .null := by
    show (Json.get? (d.filter (·.2 ≠ .null)) "parent_id").getD .null = .null
    rw [hfiltered]
    rfl
  rw [hentry]
  rfl

/-- The routes make plain requests. -/
theorem routed_requests (e : Entry) (h : e.routed = true) : e.Requests RoutedRequest := by
  cases e with
  | createFolder => exact fun _ => trivial
  | renameRemote => exact fun patch hpatch => folderPatch_parent hpatch
  | execute => cases h
  | reconcile => cases h
  | _ => exact trivial

/-- **When a confirmed mutation can be applied.** Callers come in over the routes, and
GitHub names lists with texts that fit the columns. Then a confirmed intent is applied
exactly when the folder it needs is still there; and if no folder that an active intent
needs is deleted meanwhile, every confirmed intent is applied. -/
theorem confirmed_applies_iff_folder_kept (s : Callers) :
    (∀ es t, CallersReach (fun e => e.routed = true) s es t → (∀ e ∈ es, FitsColumns e) →
      ∀ i ∈ t.shared.db.mutations.rows, i.state = .confirmed → ∀ now,
        (∃ db', applyMutation i.userId i.id now t.shared.db = (.ok (), db')) ↔
          (i.request.needsFolder = true → i.localFolderId.isSome = true)) ∧
    (∀ es t, s.shared.db.Initial → s.callers = [] →
      Run (fun u e v => CallerStep (fun e => e.routed = true) u e v ∧ FitsColumns e ∧
        SparesFolders u e) s es t →
      ∀ i ∈ t.shared.db.mutations.rows, i.state = .confirmed → ∀ now,
        ∃ db', applyMutation i.userId i.id now t.shared.db = (.ok (), db')) := by
  have hiff : ∀ es t, CallersReach (fun e => e.routed = true) s es t →
      (∀ e ∈ es, FitsColumns e) →
      ∀ i ∈ t.shared.db.mutations.rows, i.state = .confirmed → ∀ now,
        ((∃ db', applyMutation i.userId i.id now t.shared.db = (.ok (), db')) ↔
          (i.request.needsFolder = true → i.localFolderId.isSome = true)) := by
    intro es t h hfits i hi hstate now
    have hactive : i.active = true := by simp [Intent.active, hstate]
    have hready := ready_of_run routed_requests h.1 h.2.1 h.2.2 hfits i hi hactive
    exact applies_iff_folder (LedgerOk.reach h).linked hi hstate hready now
  refine ⟨hiff, fun es t hs hcallers hrun i hi hstate now => ?_⟩
  have hfits : ∀ e ∈ es, FitsColumns e := by
    clear hiff hi hstate
    induction hrun with
    | nil => simp
    | snoc _ hstep ih =>
        intro e he
        rcases List.mem_append.mp he with he | he
        · exact ih e he
        · rw [List.mem_singleton.mp he]
          exact hstep.2.1
  have hreach : CallersReach (fun e => e.routed = true) s es t :=
    ⟨hs, hcallers, hrun.mono fun h => h.1⟩
  have hactive : i.active = true := by simp [Intent.active, hstate]
  refine (hiff es t hreach hfits i hi hstate now).mpr fun hneeds => ?_
  exact folder_of_run hs hcallers (hrun.mono fun h => ⟨h.1, h.2.2⟩) i hi hactive hneeds

section

open Scenario

/-- A folder of user 1 that is linked to a list. -/
def linkedFolder : Callers :=
  ⟨⟨⟨⟨[⟨1, 1, "old", "old", none, none, none, 0, some "L", none, false, 0⟩], by decide,
    by decide⟩, .empty _, .empty _, .empty _, 1, 0⟩, []⟩, []⟩

/-- Lists are renamed. -/
def renamesLists : GithubWorld := fun
  | .updateUserList _ id _ =>
      .ok (.obj [("updateUserList", .obj [("list", .obj [("id", .str id)])])])
  | _ => .error .external

/-- While the list is renamed on GitHub, its folder is deleted. -/
def renamedAndDeleted : List ScriptLine :=
  [.enter (.renameRemote 1 1 (.obj [("name", .str "new")])), .enter (.deleteFolder 1 1)] ++
    turns 0 renamesLists 16 ++ turns 1 offline 4 ++ turns 0 renamesLists 4

/-- A rename whose folder was deleted meanwhile is confirmed, and cannot be applied. -/
theorem deleted_folder_leaves_rename_confirmed :
    CallersReach (fun e => e.routed = true) linkedFolder
      (play perform linkedFolder renamedAndDeleted).1 (after linkedFolder renamedAndDeleted) ∧
    ∃ i ∈ (after linkedFolder renamedAndDeleted).shared.db.mutations.rows,
      i.state = .confirmed ∧ ∀ now db', applyMutation i.userId i.id now
        (after linkedFolder renamedAndDeleted).shared.db ≠ (.ok (), db') := by
  constructor
  · refine ⟨⟨rfl, by decide, by decide⟩, rfl, plays (fun _ h => h) ?_⟩
    decide +kernel
  · have hrow : ∃ i ∈ (after linkedFolder renamedAndDeleted).shared.db.mutations.rows,
        i.state = .confirmed ∧ i.request = .editList 1 (.obj [("name", .str "new")]) := by
      decide +kernel
    have hempty : (after linkedFolder renamedAndDeleted).shared.db.folders.rows = [] := by
      decide +kernel
    obtain ⟨i, hi, hstate, hreq⟩ := hrow
    refine ⟨i, hi, hstate, fun now db' h => ?_⟩
    obtain ⟨prepared, remote, w, n, -, -, heffects, -⟩ := applyMutation_confirmed hi hstate h
    simp only [applyEffects, hreq, Tx.bind_eq_ok, Tx.ofExcept_eq_ok] at heffects
    obtain ⟨_, _, hparent, _, _, ⟨-, rfl⟩, _, _, hlinked, -⟩ := heffects
    obtain rfl := checkParent_db hparent
    obtain ⟨-, f, hf, -⟩ := requireLinked_eq_ok hlinked
    have hmem := (Ledger.folder?_eq_some.mp hf).1
    rw [hempty] at hmem
    cases hmem

/-- The turn reads no list, and deletes no folder. -/
def CallerTurn.plain : CallerTurn → Bool
  | .answer _ (.github (.createUserList ..)) _ => false
  | .answer _ (.github (.catalogue _)) _ => false
  | .answer _ (.store (.deleteFolder ..)) _ => false
  | _ => true

theorem CallerTurn.plain.careful {u : Callers} {e : CallerTurn} (h : e.plain = true) :
    FitsColumns e ∧ SparesFolders u e := by
  refine ⟨⟨?_, ?_⟩, ?_⟩
  · rintro caller token name description d list rfl
    cases h
  · rintro caller token catalog rfl
    cases h
  · rintro caller user folder rfl
    cases h

/-- The list is renamed on GitHub, and its folder stays. -/
def listRenamed : List ScriptLine :=
  .enter (.renameRemote 1 1 (.obj [("name", .str "new")])) :: turns 0 renamesLists 18

/-- A rename whose folder was kept is confirmed, and can be applied. -/
theorem confirmed_applies_iff_folder_kept_renamed :
    ∃ i ∈ (after linkedFolder listRenamed).shared.db.mutations.rows,
      i.state = .confirmed ∧ i.request.needsFolder = true ∧ i.localFolderId = some 1 ∧
        ∃ db', applyMutation i.userId i.id 0 (after linkedFolder listRenamed).shared.db =
          (.ok (), db') := by
  have hplays : Run (CallerStep fun e => e.routed = true) linkedFolder
      (play perform linkedFolder listRenamed).1 (after linkedFolder listRenamed) := by
    refine plays (fun _ h => h) ?_
    decide +kernel
  have hplain : ∀ e ∈ (play perform linkedFolder listRenamed).1, e.plain = true := by
    refine List.all_eq_true.mp ?_
    decide +kernel
  have hrow : ∃ i ∈ (after linkedFolder listRenamed).shared.db.mutations.rows,
      i.state = .confirmed ∧ i.request.needsFolder = true ∧ i.localFolderId = some 1 := by
    decide +kernel
  obtain ⟨i, hi, hstate, hneeds, hfolder⟩ := hrow
  have happlies := (confirmed_applies_iff_folder_kept _).2 _ _ ⟨rfl, by decide, by decide⟩ rfl
    ((hplays.of_forall hplain).mono fun h => ⟨h.1, CallerTurn.plain.careful h.2⟩) i hi hstate 0
  exact ⟨i, hi, hstate, hneeds, hfolder, happlies⟩

end

end YoinkCore.Inbox
