import YoinkCore.Inbox.LedgerStatements

/-!
# How intents move

Each call on the ledger moves the row of at most one intent to another state; a deleted
folder is lost by every row. The rules of the states follow from the moves: what is sent
stays sent, and the effects of an intent are committed by the step that applies it.
-/

namespace YoinkCore.Inbox

open Lib
open Storage (Uuid)

/-! ## Moves -/

/-- What a call that succeeds does to a row. -/
inductive IntentMoved (fresh : Uuid) : (c : StoreCall) → c.Answer → Intent → Intent → Prop
  | kept {c : StoreCall} {a : c.Answer} {i : Intent} : IntentMoved fresh c a i i
  | unlinked {c : StoreCall} {a : c.Answer} {i : Intent} :
      IntentMoved fresh c a i { i with localFolderId := none }
  | begun {intent : Intent} {prepared : Json} {now : Int} {i : Intent}
      (of : i.isOf intent.userId intent.id = true) (state : i.state = .prepared) :
      IntentMoved fresh (.beginMutationSend intent prepared now) true i
        (i.send prepared fresh now)
  | confirmed {user : Int} {id : Uuid} {result : Json} {now : Int} {i : Intent}
      (of : i.isOf user id = true) (state : i.inFlight = true) :
      IntentMoved fresh (.confirmMutation user id result now) () i (i.confirm result now)
  | quarantined {user : Int} {id : Uuid} {now : Int} {i : Intent}
      (of : i.isOf user id = true) (state : i.state = .sending) :
      IntentMoved fresh (.unknownMutation user id now) () i (i.quarantine now)
  | cancelled {user : Int} {id : Uuid} {now : Int} {i : Intent} {folder : Option Int}
      (of : i.isOf user id = true) (state : i.state = .prepared)
      (left : folder = i.localFolderId ∨ folder = none) :
      IntentMoved fresh (.cancelPreparedMutation user id now) () i
        { i.cancel fresh now with localFolderId := folder }
  | rejected {user : Int} {id : Uuid} {code : MutationError} {now : Int} {i : Intent}
      {folder : Option Int} (of : i.isOf user id = true) (state : i.state = .sending)
      (left : folder = i.localFolderId ∨ folder = none) :
      IntentMoved fresh (.rejectMutation user id code now) () i
        { i.reject code now with localFolderId := folder }
  | applied {user : Int} {id : Uuid} {now : Int} {i : Intent} {folder : Option Int}
      (of : i.isOf user id = true) (state : i.state = .confirmed) :
      IntentMoved fresh (.applyMutation user id now) () i
        { i.finish now with localFolderId := folder }

/-- A new row of a user without active intents. -/
structure Journalled (db : Ledger) (fresh : Uuid) (user : Int) (request : Mutation)
    (key : Option String) (now : Int) (i : Intent) (db' : Ledger) : Prop where
  effect : ∃ fields w, prepareRequest user request now db = .ok ((i.localFolderId, fields), w) ∧
    i.prepared = some (.obj fields) ∧ db'.folders = w.folders ∧ db'.members = w.members ∧
    db'.stars = w.stars ∧ db'.lastFolder = w.lastFolder ∧
    db'.mutations.rows = w.mutations.rows ++ [i]
  id : i.id = fresh
  userId : i.userId = user
  requestKey : i.requestKey = key
  request : i.request = request
  state : i.state = .prepared
  unkeyed : db.keyed? user key = none
  inactive : db.active? user = none

/-- May succeed without a change. -/
def StoreCall.mayRest : StoreCall → Bool
  | prepareMutation .. | mutation .. | applyMutation .. | pendingCreate .. | folder ..
  | applyStars .. => true
  | _ => false

/-- What a call that succeeds does to the ledger. -/
inductive LedgerEffect (db : Ledger) (fresh : Uuid) (db' : Ledger) :
    (c : StoreCall) → c.Answer → Prop
  | same {c : StoreCall} {a : c.Answer} (rests : c.mayRest = true) (same : db' = db) :
      LedgerEffect db fresh db' c a
  | saved {user : Int} {id : Option Int} {name : String} {body : Json} {now folder : Int}
      (writes : WritesOf user db db') :
      LedgerEffect db fresh db' (.saveFolder user id name body now) folder
  | member {user folder star : Int} {add : Bool} {now : Int}
      (members : ∃ members, db' = { db with members }) :
      LedgerEffect db fresh db' (.membershipConfirmed user folder star add now) ()
  | synchronized {live : Bool} {bridge : Except Error Unit} {user : Int}
      {snapshot : StarSnapshot} {lists : Option (List ListSnapshot)} {now : Int} {done : Bool}
      (inactive : db.active? user = none) (writes : WritesOf user db db') :
      LedgerEffect db fresh db' (.applyStars live bridge user snapshot lists now) done
  | deleted {user folder : Int} {n : Nat}
      (deletes : deleteFolders (fun f => f.id = folder && f.userId = user) db = .ok (n, db')) :
      LedgerEffect db fresh db' (.deleteFolder user folder) ()
  | journalled {user : Int} {request : Mutation} {key : Option String} {now : Int}
      {i : Intent} (new : Journalled db fresh user request key now i db') :
      LedgerEffect db fresh db' (.prepareMutation user request key now) fresh
  | begun {intent : Intent} {prepared : Json} {now : Int} {n : Nat}
      (update : updateMutations
        (fun i => i.isOf intent.userId intent.id && i.state = .prepared)
        (·.send prepared fresh now) db = .ok (n, db')) :
      LedgerEffect db fresh db' (.beginMutationSend intent prepared now) (n = 1)
  | confirmed {user : Int} {id : Uuid} {result : Json} {now : Int} {n : Nat}
      (update : updateMutations (fun i => i.isOf user id && i.inFlight)
        (·.confirm result now) db = .ok (n, db')) :
      LedgerEffect db fresh db' (.confirmMutation user id result now) ()
  | quarantined {user : Int} {id : Uuid} {now : Int} {n : Nat}
      (update : updateMutations (fun i => i.isOf user id && i.state = .sending)
        (·.quarantine now) db = .ok (n, db')) :
      LedgerEffect db fresh db' (.unknownMutation user id now) ()
  | cancelled {user : Int} {id : Uuid} {now : Int} {i : Intent} {w : Ledger} {n : Nat}
      (mem : i ∈ db.mutations.rows) (of : i.isOf user id = true) (state : i.state = .prepared)
      (release : releaseFolder user i db = .ok ((), w))
      (update : updateMutations (fun i => i.isOf user id && i.state = .prepared)
        (·.cancel fresh now) w = .ok (n, db')) :
      LedgerEffect db fresh db' (.cancelPreparedMutation user id now) ()
  | rejected {user : Int} {id : Uuid} {code : MutationError} {now : Int} {i : Intent}
      {w : Ledger} {n : Nat} (mem : i ∈ db.mutations.rows) (of : i.isOf user id = true)
      (state : i.state = .sending) (release : releaseFolder user i db = .ok ((), w))
      (update : updateMutations (fun i => i.isOf user id && i.state = .sending)
        (·.reject code now) w = .ok (n, db')) :
      LedgerEffect db fresh db' (.rejectMutation user id code now) ()
  | applied {user : Int} {id : Uuid} {now : Int} {i : Intent} {prepared remote : Json}
      {w : Ledger} {n : Nat} (mem : i ∈ db.mutations.rows) (of : i.isOf user id = true)
      (state : i.state = .confirmed) (hprepared : i.prepared = some prepared)
      (hremote : i.result = some remote)
      (effects : applyEffects user i prepared remote now db = .ok ((), w))
      (update : updateMutations (fun i => i.isOf user id && i.state = .confirmed)
        (·.finish now) w = .ok (n, db')) :
      LedgerEffect db fresh db' (.applyMutation user id now) ()

/-! ## What a call does -/

variable {i : Intent} {id : Uuid}

theorem isOf_iff {user : Int} : i.isOf user id = true ↔ i.id = id ∧ i.userId = user := by
  simp [Intent.isOf]

section

variable {db db' : Ledger} {fresh : Uuid} {user now : Int}

/-- A slug is looked for, nothing is written. -/
theorem uniqueSlug_db {base slug : String} {exclude : Option Int}
    (h : uniqueSlug user base exclude db = .ok (slug, db')) : db' = db := by
  simp only [uniqueSlug, Tx.bind_eq_ok, Tx.get_eq_ok] at h
  obtain ⟨_, _, ⟨rfl, rfl⟩, h⟩ := h
  exact (Tx.ofExcept_eq_ok.mp h).2.symm

theorem checkNewParent_db {id parent : Option Int} {u : Unit}
    (h : checkNewParent user id parent db = .ok (u, db')) : db' = db := by
  cases parent with
  | none => exact (Tx.pure_eq_ok.mp h).2.symm
  | some p =>
      simp only [checkNewParent] at h
      split at h
      · cases h
      · simp only [Tx.bind_eq_ok, Tx.get_eq_ok, orFail_eq_ok, Tx.ofExcept_eq_ok] at h
        obtain ⟨_, _, ⟨rfl, rfl⟩, _, _, ⟨-, rfl⟩, -, rfl⟩ := h
        rfl

theorem saveFolderOn_new {name : String} {body : Json} {folder : Int}
    (h : saveFolderOn user none name body now db = .ok (folder, db')) :
    checkNewParent user none (body.entry "parent_id").asI64 db = .ok ((), db) ∧
      ∃ row : Int → Folder, (∀ id, (row id).id = id ∧ (row id).userId = user ∧
        (row id).parentId = (body.entry "parent_id").asI64) ∧
        insertFolder row db = .ok (folder, db') := by
  simp only [saveFolderOn, Tx.bind_eq_ok] at h
  obtain ⟨_, _, hp, _, _, hslug, hinsert⟩ := h
  obtain rfl := checkNewParent_db hp
  obtain rfl := uniqueSlug_db hslug
  exact ⟨hp, _, fun _ => ⟨rfl, rfl, rfl⟩, hinsert⟩

theorem saveFolderOn_kept {id : Int} {name : String} {body : Json} {folder : Int}
    (h : saveFolderOn user (some id) name body now db = .ok (folder, db')) :
    checkNewParent user (some id) (body.entry "parent_id").asI64 db = .ok ((), db) ∧
      ∃ n slug description icon isPinned sortOrder,
        updateFolders (fun f => f.id = id && f.userId = user) ({ · with
          name, slug, description, icon, isPinned, sortOrder
          parentId := (body.entry "parent_id").asI64 }) db = .ok (n, db') := by
  simp only [saveFolderOn, Tx.bind_eq_ok, Tx.get_eq_ok, orFail_eq_ok, Tx.pure_eq_ok] at h
  obtain ⟨_, _, ⟨rfl, rfl⟩, _, _, ⟨-, rfl⟩, _, _, hp, _, _, hslug, _, _, hu, -, rfl⟩ := h
  obtain rfl := checkNewParent_db hp
  obtain rfl := uniqueSlug_db hslug
  exact ⟨hp, _, _, _, _, _, _, hu⟩

theorem saveFolder_writes {id : Option Int} {name : String} {body : Json} {folder : Int}
    (h : saveFolder user id name body now db = (.ok folder, db')) : WritesOf user db db' := by
  replace h := Tx.auto_eq_ok.mp h
  cases id with
  | none =>
      obtain ⟨-, row, hrow, hinsert⟩ := saveFolderOn_new h
      exact .of_insertFolder (fun id => ⟨(hrow id).1, (hrow id).2.1⟩) hinsert
  | some id =>
      obtain ⟨-, _, _, _, _, _, _, hu⟩ := saveFolderOn_kept h
      refine .of_updateFolders (fun f hf => ?_) (fun f => ?_) hu
      · simp only [Bool.and_eq_true, decide_eq_true_eq] at hf
        exact hf.2
      · exact ⟨rfl, rfl⟩

theorem membershipConfirmed_members {folder star : Int} {add : Bool} {u : Unit}
    (h : membershipConfirmed user folder star add now db = (.ok u, db')) :
    ∃ members, db' = { db with members } := by
  have h := Tx.auto_eq_ok.mp h
  simp only [Tx.bind_eq_ok, Tx.get_eq_ok, orFail_eq_ok] at h
  obtain ⟨_, _, ⟨rfl, rfl⟩, _, _, ⟨-, rfl⟩, _, _, ⟨rfl, rfl⟩, _, _, ⟨-, rfl⟩, h⟩ := h
  split at h
  · exact insertMembers_eq_ok h
  · exact deleteMembers_eq_ok h

theorem prepareMutation_effect {request : Mutation} {key : Option String}
    (h : prepareMutation user request key now fresh db = (.ok id, db')) :
    LedgerEffect db fresh db' (.prepareMutation user request key now) id := by
  unfold prepareMutation at h
  split at h
  · cases h
  have h := Tx.auto_eq_ok.mp h
  simp only [prepareMutationOn, Tx.bind_eq_ok, Tx.get_eq_ok] at h
  obtain ⟨_, _, ⟨rfl, rfl⟩, h⟩ := h
  cases hkey : db.keyed? user key with
  | some prior =>
      rw [hkey] at h
      dsimp only at h
      split at h
      · obtain ⟨rfl, rfl⟩ := Tx.pure_eq_ok.mp h
        exact .same rfl rfl
      · cases h
  | none =>
      rw [hkey] at h
      dsimp only at h
      cases hactive : db.active? user with
      | some prior =>
          rw [hactive] at h
          dsimp only at h
          split at h
          · obtain ⟨rfl, rfl⟩ := Tx.pure_eq_ok.mp h
            exact .same rfl rfl
          · cases h
      | none =>
          rw [hactive] at h
          simp only [Tx.bind_eq_ok, Tx.pure_eq_ok] at h
          obtain ⟨⟨folder, fields⟩, w, hprep, _, _, hins, rfl, rfl⟩ := h
          obtain ⟨mutations, hrows, rfl⟩ := insertMutation_eq_ok.mp hins
          exact .journalled ⟨⟨fields, w, hprep, rfl, rfl, rfl, rfl, rfl,
            Table.insert_eq_some.mp hrows⟩, rfl, rfl, rfl, rfl, rfl, hkey, hactive⟩

theorem cancelPreparedMutation_effect {u : Unit}
    (h : cancelPreparedMutation user id now fresh db = (.ok u, db')) :
    LedgerEffect db fresh db' (.cancelPreparedMutation user id now) () := by
  have h := Tx.auto_eq_ok.mp h
  simp only [Tx.bind_eq_ok, Tx.get_eq_ok, orFail_eq_ok, Tx.pure_eq_ok] at h
  obtain ⟨_, _, ⟨rfl, rfl⟩, i, _, ⟨hfind, rfl⟩, _, w, hrelease, _, _, hupdate, -, rfl⟩ := h
  have hp := List.find?_some hfind
  simp only [Bool.and_eq_true, decide_eq_true_eq] at hp
  exact .cancelled (List.mem_of_find?_eq_some hfind) hp.1 hp.2 hrelease hupdate

theorem rejectMutation_effect {code : MutationError} {u : Unit}
    (h : rejectMutation user id code now db = (.ok u, db')) :
    LedgerEffect db fresh db' (.rejectMutation user id code now) () := by
  have h := Tx.auto_eq_ok.mp h
  split at h
  · cases h
  simp only [Tx.bind_eq_ok, Tx.get_eq_ok, orFail_eq_ok] at h
  obtain ⟨_, _, ⟨rfl, rfl⟩, i, _, ⟨hfind, rfl⟩, h⟩ := h
  split at h
  · cases h
  rename_i hstate
  simp only [Tx.bind_eq_ok, Tx.pure_eq_ok] at h
  obtain ⟨_, w, hrelease, _, _, hupdate, -, rfl⟩ := h
  obtain ⟨hmem, hu, hid⟩ := Ledger.intent?_eq_some.mp hfind
  exact .rejected hmem (isOf_iff.mpr ⟨hid, hu⟩) (not_not.mp hstate) hrelease hupdate

theorem applyMutation_effect {u : Unit} (h : applyMutation user id now db = (.ok u, db')) :
    LedgerEffect db fresh db' (.applyMutation user id now) () := by
  have h := Tx.auto_eq_ok.mp h
  simp only [applyMutationOn, Tx.bind_eq_ok, Tx.get_eq_ok, orFail_eq_ok] at h
  obtain ⟨_, _, ⟨rfl, rfl⟩, i, _, ⟨hfind, rfl⟩, h⟩ := h
  obtain ⟨hmem, hu, hid⟩ := Ledger.intent?_eq_some.mp hfind
  split at h
  · obtain ⟨-, rfl⟩ := Tx.pure_eq_ok.mp h
    exact .same rfl rfl
  split at h
  · cases h
  rename_i hstate
  simp only [Tx.bind_eq_ok, orFail_eq_ok, Tx.pure_eq_ok] at h
  obtain ⟨prepared, _, ⟨hprepared, rfl⟩, remote, _, ⟨hremote, rfl⟩, _, w, heffects, _, _,
    hupdate, -, rfl⟩ := h
  exact .applied hmem (isOf_iff.mpr ⟨hid, hu⟩) (not_not.mp hstate) hprepared hremote heffects
    hupdate

/-- **Every call that succeeds** is one of these. -/
theorem StoreCall.run_effect {c : StoreCall} {a : c.Answer}
    (h : c.run fresh db = (.ok a, db')) : LedgerEffect db fresh db' c a := by
  cases c with
  | prepareMutation user request key now => exact prepareMutation_effect h
  | mutation user id => exact .same rfl (congrArg Prod.snd h).symm
  | beginMutationSend intent prepared now =>
      have h := Tx.auto_eq_ok.mp h
      simp only [Tx.bind_eq_ok, Tx.pure_eq_ok] at h
      obtain ⟨n, _, hupdate, rfl, rfl⟩ := h
      exact .begun hupdate
  | confirmMutation user id result now =>
      have h := Tx.auto_eq_ok.mp h
      simp only [Tx.bind_eq_ok, Tx.pure_eq_ok] at h
      obtain ⟨n, _, hupdate, -, rfl⟩ := h
      exact .confirmed hupdate
  | unknownMutation user id now =>
      have h := Tx.auto_eq_ok.mp h
      simp only [Tx.bind_eq_ok, Tx.pure_eq_ok] at h
      obtain ⟨n, _, hupdate, -, rfl⟩ := h
      exact .quarantined hupdate
  | cancelPreparedMutation user id now => exact cancelPreparedMutation_effect h
  | rejectMutation user id code now => exact rejectMutation_effect h
  | applyMutation user id now => exact applyMutation_effect h
  | pendingCreate user folder | folder user folder => exact .same rfl (congrArg Prod.snd h).symm
  | saveFolder user id name body now => exact .saved (saveFolder_writes h)
  | deleteFolder user folder =>
      have h := Tx.auto_eq_ok.mp h
      simp only [Tx.bind_eq_ok] at h
      obtain ⟨n, w, hdelete, h⟩ := h
      split at h
      · cases h
      · obtain ⟨-, rfl⟩ := Tx.pure_eq_ok.mp h
        exact .deleted hdelete
  | membershipConfirmed user folder star add now =>
      exact .member (membershipConfirmed_members h)
  | applyStars live bridge user snapshot lists now =>
      rcases applyStars_writes h with rfl | ⟨hinactive, hwrites⟩
      · exact .same rfl rfl
      · exact .synchronized hinactive hwrites

end

/-! ## What a request does -/

/-- A link takes the folder that was imported for the list, or marks the reserved one. -/
inductive LinkEffect (db : Ledger) (user : Int) (id : Uuid) (folder : Int) (remote : Json)
    (db' : Ledger) : Prop
  | merged {list : String} {f : Folder} {members : Table memberSchema} {w w' : Ledger}
      {n n' k : Nat} (names : text remote "id" = .ok list)
      (imported : db.folders.rows.find? (fun f =>
        f.userId = user && f.ghListId = some list && f.id ≠ folder) = some f)
      (children : updateFolders
        (fun g => g.userId = user && g.parentId = some folder && g.id ≠ f.id)
        ({ · with parentId := some f.id }) { db with members } = .ok (n, w))
      (relink : updateMutations (·.isOf user id) ({ · with localFolderId := some f.id }) w =
        .ok (n', w'))
      (delete : deleteFolders (fun g => g.userId = user && g.id = folder) w' = .ok (k, db'))
  | linked {list : String} {n : Nat}
      (update : updateFolders (fun g => g.userId = user && g.id = folder)
        ({ · with ghListId := some list, ghListSlug := (remote.entry "slug").asStr }) db =
        .ok (n, db'))

/-- The effects of a request, one statement each. -/
inductive RequestEffect (db : Ledger) (user : Int) (i : Intent) (remote : Json)
    (db' : Ledger) : Prop
  | created {folder : Int} (create : i.request.isCreate = true)
      (reserved : i.localFolderId = some folder)
      (link : LinkEffect db user i.id folder remote db')
  | edited {folder : Int} {body : Json} {description icon : Option String} {n : Nat}
      (parent : checkParent user (some folder) (body.entry "parent_id").asI64 db = .ok ((), db))
      (update : updateFolders (fun f => f.id = folder && f.userId = user)
        (editFolder body description icon) db = .ok (n, db'))
  | deleted {folder : Int} {list : String} {n : Nat}
      (delete : deleteFolders (fun f =>
        f.id = folder && f.userId = user && f.ghListId = some list) db = .ok (n, db'))
  | membership {members : Table memberSchema} (same : db' = { db with members })
  | star {star : Int} {name : String} {add : Bool} {n : Nat}
      (update : updateStars (fun s => s.id = star && s.userId = user && s.fullName = name)
        ({ · with canUnstar := add }) db = .ok (n, db'))

/-- What is fixed before the send: a create reserves a folder, the others read theirs. -/
inductive Prepared (db : Ledger) (user now : Int) :
    Mutation → Option Int → List (String × Json) → Ledger → Prop
  | createList {body : Json} {folder : Int} {db' : Ledger}
      (parent : checkParent user none (body.entry "parent_id").asI64 db = .ok ((), db))
      (reserve : reserveFolder user body now db = .ok (folder, db')) :
      Prepared db user now (.createList body) (some folder) [] db'
  | editList {folder : Int} {body : Json} {f : Folder} {list : String}
      (valid : validateBody body false = .ok ()) (found : db.folder? user folder = some f)
      (linked : f.ghListId = some list) :
      Prepared db user now (.editList folder body) (some folder) [("list_id", .str list)] db
  | deleteList {folder : Int} {f : Folder} {list : String}
      (found : db.folder? user folder = some f) (linked : f.ghListId = some list) :
      Prepared db user now (.deleteList folder) (some folder) [("list_id", .str list)] db
  | membership {folder star : Int} {add : Bool} {f : Folder} {s : Star} {list node : String}
      (found : db.folder? user folder = some f) (linked : f.ghListId = some list)
      (starred : db.star? user star = some s) (known : s.ghNodeId = some node) :
      Prepared db user now (.membership folder star add) (some folder)
        [("list_id", .str list), ("node_id", .str node)] db
  | star {star : Int} {add : Bool} {owner repo : List Char} :
      Prepared db user now (.star star add) none
        [("owner", .str (String.ofList owner)), ("repo", .str (String.ofList repo))] db

section

variable {db db' : Ledger} {user now : Int} {u : Unit}

theorem checkParent_db {id parent : Option Int}
    (h : checkParent user id parent db = .ok (u, db')) : db' = db := by
  simp only [checkParent, Tx.bind_eq_ok, Tx.get_eq_ok, Tx.ofExcept_eq_ok] at h
  obtain ⟨_, _, ⟨rfl, rfl⟩, -, rfl⟩ := h
  rfl

theorem requireLinked_eq_ok {folder : Int} {list : String}
    (h : requireLinked user folder list db = .ok (u, db')) :
    db' = db ∧ ∃ f, db.folder? user folder = some f ∧ f.ghListId = some list := by
  simp only [requireLinked, Tx.bind_eq_ok, Tx.get_eq_ok, orFail_eq_ok, Tx.pure_eq_ok] at h
  obtain ⟨_, _, ⟨rfl, rfl⟩, f, _, ⟨hf, rfl⟩, -, rfl⟩ := h
  rw [Option.filter_eq_some_iff] at hf
  exact ⟨rfl, f, hf.1, by simpa using hf.2⟩

theorem linkedList_eq_ok {folder : Int} {list : String}
    (h : linkedList user folder db = .ok (list, db')) :
    db' = db ∧ ∃ f, db.folder? user folder = some f ∧ f.ghListId = some list := by
  simp only [linkedList, Tx.bind_eq_ok, Tx.get_eq_ok, orFail_eq_ok] at h
  obtain ⟨_, _, ⟨rfl, rfl⟩, f, _, ⟨hf, rfl⟩, hlist, rfl⟩ := h
  exact ⟨rfl, f, hf, hlist⟩

/-- A create that is given up deletes its folder. -/
theorem releaseFolder_eq_ok (h : releaseFolder user i db = .ok (u, db')) :
    (i.request.isCreate = true ∧ ∃ n, deleteFolders
      (fun f => some f.id = i.localFolderId && f.userId = user) db = .ok (n, db')) ∨
      db' = db := by
  simp only [releaseFolder] at h
  split at h
  · rename_i hcreate
    simp only [Tx.bind_eq_ok, Tx.pure_eq_ok] at h
    obtain ⟨n, _, hdelete, -, rfl⟩ := h
    exact .inl ⟨hcreate, n, hdelete⟩
  · exact .inr (Tx.pure_eq_ok.mp h).2.symm

theorem linkFolder_effect {folder : Int} {remote : Json}
    (h : linkFolder user id folder remote db = .ok (u, db')) :
    LinkEffect db user id folder remote db' := by
  simp only [linkFolder, Tx.bind_eq_ok, Tx.get_eq_ok, Tx.ofExcept_eq_ok] at h
  obtain ⟨list, _, ⟨hlist, rfl⟩, _, _, ⟨rfl, rfl⟩, h⟩ := h
  generalize himported : db.folders.rows.find? _ = imported at h
  cases imported with
  | some f =>
      simp only [Tx.bind_eq_ok, Tx.get_eq_ok, Tx.pure_eq_ok] at h
      obtain ⟨_, _, ⟨rfl, rfl⟩, _, _, hmembers, _, _, hchildren, _, _, hrelink, _, _, hdelete,
        -, rfl⟩ := h
      obtain ⟨_, rfl⟩ := insertMembers_eq_ok hmembers
      exact .merged hlist himported hchildren hrelink hdelete
  | none =>
      simp only [Tx.bind_eq_ok] at h
      obtain ⟨_, _, hupdate, h⟩ := h
      split at h
      · cases h
      · obtain ⟨-, rfl⟩ := Tx.pure_eq_ok.mp h
        exact .linked hupdate

theorem applyEffects_effect {prepared remote : Json}
    (h : applyEffects user i prepared remote now db = .ok (u, db')) :
    RequestEffect db user i remote db' := by
  simp only [applyEffects] at h
  cases hr : i.request with
  | createList body =>
      simp only [hr, Tx.bind_eq_ok, orFail_eq_ok] at h
      obtain ⟨_, _, ⟨hfolder, rfl⟩, h⟩ := h
      exact .created (by rw [hr]; rfl) hfolder (linkFolder_effect h)
  | editList folder body =>
      simp only [hr, Tx.bind_eq_ok, Tx.ofExcept_eq_ok, Tx.pure_eq_ok] at h
      obtain ⟨_, _, hparent, _, _, ⟨-, rfl⟩, _, _, hlinked, _, _, ⟨-, rfl⟩, _, _, ⟨-, rfl⟩, _, _,
        hu, -, rfl⟩ := h
      obtain rfl := checkParent_db hparent
      obtain ⟨rfl, -⟩ := requireLinked_eq_ok hlinked
      exact .edited hparent hu
  | deleteList folder =>
      simp only [hr, Tx.bind_eq_ok, Tx.ofExcept_eq_ok, Tx.pure_eq_ok] at h
      obtain ⟨_, _, ⟨-, rfl⟩, _, _, hdelete, -, rfl⟩ := h
      exact .deleted hdelete
  | membership folder star add =>
      simp only [hr, Tx.bind_eq_ok, Tx.ofExcept_eq_ok, Tx.get_eq_ok, orFail_eq_ok] at h
      obtain ⟨_, _, ⟨-, rfl⟩, _, _, hlinked, _, _, ⟨-, rfl⟩, _, _, ⟨rfl, rfl⟩, _, _, ⟨-, rfl⟩,
        h⟩ := h
      obtain ⟨rfl, -⟩ := requireLinked_eq_ok hlinked
      split at h
      · exact .membership (insertMembers_eq_ok h).choose_spec
      · exact .membership (deleteMembers_eq_ok h).choose_spec
  | star star add =>
      simp only [hr, Tx.bind_eq_ok, Tx.ofExcept_eq_ok, Tx.pure_eq_ok] at h
      obtain ⟨_, _, ⟨-, rfl⟩, _, _, ⟨-, rfl⟩, _, _, hu, -, rfl⟩ := h
      exact .star hu

theorem prepareRequest_prepared {request : Mutation} {folder : Option Int}
    {fields : List (String × Json)}
    (h : prepareRequest user request now db = .ok ((folder, fields), db')) :
    Prepared db user now request folder fields db' := by
  unfold prepareRequest at h
  cases request with
  | createList body =>
      simp only [Tx.bind_eq_ok, Tx.ofExcept_eq_ok, Tx.pure_eq_ok, Prod.mk.injEq] at h
      obtain ⟨_, _, ⟨-, rfl⟩, _, _, hparent, _, _, hreserve, ⟨rfl, rfl⟩, rfl⟩ := h
      obtain rfl := checkParent_db hparent
      exact .createList hparent hreserve
  | editList folder body =>
      simp only [Tx.bind_eq_ok, Tx.ofExcept_eq_ok, Tx.pure_eq_ok, Prod.mk.injEq] at h
      obtain ⟨_, _, ⟨hbody, rfl⟩, _, _, hparent, _, _, hlinked, ⟨rfl, rfl⟩, rfl⟩ := h
      obtain rfl := checkParent_db hparent
      obtain ⟨rfl, f, hf, hlist⟩ := linkedList_eq_ok hlinked
      exact .editList hbody hf hlist
  | deleteList folder =>
      simp only [Tx.bind_eq_ok, Tx.pure_eq_ok, Prod.mk.injEq] at h
      obtain ⟨_, _, hlinked, ⟨rfl, rfl⟩, rfl⟩ := h
      obtain ⟨rfl, f, hf, hlist⟩ := linkedList_eq_ok hlinked
      exact .deleteList hf hlist
  | membership folder star add =>
      simp only [Tx.bind_eq_ok, Tx.get_eq_ok, orFail_eq_ok, Tx.pure_eq_ok, Prod.mk.injEq] at h
      obtain ⟨_, _, ⟨rfl, rfl⟩, f, _, ⟨hf, rfl⟩, _, _, ⟨rfl, rfl⟩, s, _, ⟨hs, rfl⟩, _, _,
        ⟨hlist, rfl⟩, _, _, ⟨hnode, rfl⟩, ⟨rfl, rfl⟩, rfl⟩ := h
      exact .membership hf hlist hs hnode
  | star star add =>
      simp only [Tx.bind_eq_ok, Tx.get_eq_ok, orFail_eq_ok, Tx.pure_eq_ok, Prod.mk.injEq] at h
      obtain ⟨_, _, ⟨rfl, rfl⟩, _, _, ⟨-, rfl⟩, _, _, ⟨-, rfl⟩, ⟨rfl, rfl⟩, rfl⟩ := h
      exact .star

end

/-! ## Rows -/

theorem Intent.unlink_cases (gone : List Folder) (i : Intent) :
    i.unlink gone = i ∨ i.unlink gone = { i with localFolderId := none } := by
  unfold Intent.unlink
  split
  · exact .inr rfl
  · exact .inl rfl

/-- Only the folder of a row changes, and only that of one intent to anything but none. -/
structure Relinked (user : Int) (id : Uuid) (i j : Intent) : Prop where
  folder : j = { i with localFolderId := j.localFolderId }
  others : i.isOf user id = false → j = i ∨ j = { i with localFolderId := none }

theorem Relinked.refl {user : Int} : Relinked user id i i :=
  ⟨rfl, fun _ => .inl rfl⟩

theorem Relinked.unlink {user : Int} (gone : List Folder) : Relinked user id i (i.unlink gone) := by
  rcases i.unlink_cases gone with h | h <;> rw [h]
  · exact .refl
  · exact ⟨rfl, fun _ => .inr rfl⟩

section

variable {db db' : Ledger} {fresh : Uuid} {user now : Int}

theorem releaseFolder_rows {u : Unit} (h : releaseFolder user i db = .ok (u, db')) :
    ∃ gone, db'.mutations.rows = db.mutations.rows.map (·.unlink gone) := by
  rcases releaseFolder_eq_ok h with ⟨-, _, hdelete⟩ | rfl
  · exact ⟨_, (deleteFolders_eq_ok hdelete).2.1⟩
  · refine ⟨[], ?_⟩
    have hnil : (fun i : Intent => i.unlink []) = id := by
      funext i
      cases hf : i.localFolderId <;> simp [Intent.unlink, loses, hf]
    rw [hnil, List.map_id]

theorem updateFolders_mutations {p : Folder → Bool} {f : Folder → Folder} {n : Nat}
    (h : updateFolders p f db = .ok (n, db')) : db'.mutations = db.mutations := by
  obtain ⟨_, -, rfl⟩ := updateFolders_eq_ok.mp h
  rfl

theorem LinkEffect.rows {folder : Int} {remote : Json}
    (h : LinkEffect db user id folder remote db') :
    ∃ f, db'.mutations.rows = db.mutations.rows.map f ∧ ∀ i, Relinked user id i (f i) := by
  cases h with
  | merged names imported children relink delete =>
      rename_i list g members w w' n n' k
      obtain ⟨_, -, rfl⟩ := updateFolders_eq_ok.mp children
      obtain ⟨_, hu, rfl⟩ := updateMutations_eq_ok.mp relink
      refine ⟨_, by
        rw [(deleteFolders_eq_ok delete).2.1, (Table.update_eq_some.mp hu).1, List.map_map],
        fun i => ?_⟩
      dsimp only [Function.comp_apply]
      by_cases hof : i.isOf user id = true
      · rw [if_pos hof]
        refine ⟨?_, fun hn => by rw [hof] at hn; cases hn⟩
        rcases Intent.unlink_cases _ { i with localFolderId := some g.id } with h | h <;> rw [h]
      · rw [if_neg hof]
        exact .unlink _
  | linked update =>
      refine ⟨fun i => i, ?_, fun _ => .refl⟩
      rw [updateFolders_mutations update, List.map_id']

/-- The effects change the folder of an intent at most. -/
theorem RequestEffect.rows {remote : Json} (h : RequestEffect db user i remote db') :
    ∃ f, db'.mutations.rows = db.mutations.rows.map f ∧ ∀ j, Relinked user i.id j (f j) := by
  have hsame : db'.mutations = db.mutations → ∃ f,
      db'.mutations.rows = db.mutations.rows.map f ∧ ∀ j, Relinked user i.id j (f j) :=
    fun hm => ⟨id, by rw [hm, List.map_id], fun _ => .refl⟩
  cases h with
  | created create reserved link => exact link.rows
  | edited parent update => exact hsame (updateFolders_mutations update)
  | deleted delete => exact ⟨_, (deleteFolders_eq_ok delete).2.1, fun j => .unlink _⟩
  | membership same => exact hsame (same ▸ rfl)
  | star update =>
      obtain ⟨_, -, rfl⟩ := updateStars_eq_ok.mp update
      exact hsame rfl

/-- A create reserves the next folder. -/
theorem reserveFolder_eq_ok {body : Json} {folder : Int}
    (h : reserveFolder user body now db = .ok (folder, db')) :
    ∃ row : Int → Folder, (∀ id, (row id).id = id ∧ (row id).userId = user ∧
      (row id).parentId = (body.entry "parent_id").asI64) ∧
      insertFolder row db = .ok (folder, db') := by
  simp only [reserveFolder, Tx.bind_eq_ok, Tx.ofExcept_eq_ok] at h
  obtain ⟨name, _, ⟨-, rfl⟩, given, _, ⟨-, rfl⟩, slug, _, hslug, description, _, ⟨-, rfl⟩, icon,
    _, ⟨-, rfl⟩, hinsert⟩ := h
  obtain rfl := uniqueSlug_db hslug
  refine ⟨_, ?_, hinsert⟩
  exact fun id => ⟨rfl, rfl, rfl⟩

theorem reserveFolder_writes {body : Json} {folder : Int}
    (h : reserveFolder user body now db = .ok (folder, db')) : WritesOf user db db' := by
  obtain ⟨row, hrow, hinsert⟩ := reserveFolder_eq_ok h
  exact .of_insertFolder (fun id => ⟨(hrow id).1, (hrow id).2.1⟩) hinsert

/-- What is prepared for a new row leaves the others alone. -/
theorem prepareRequest_writes {request : Mutation} {folder : Option Int}
    {fields : List (String × Json)}
    (h : prepareRequest user request now db = .ok ((folder, fields), db')) :
    WritesOf user db db' := by
  cases prepareRequest_prepared h with
  | createList parent reserve => exact reserveFolder_writes reserve
  | editList | deleteList | membership | star => exact .refl

/-- A call moves every row, or puts a new one behind the others. -/
theorem LedgerEffect.rows {c : StoreCall} {a : c.Answer} (h : LedgerEffect db fresh db' c a) :
    (∃ f, db'.mutations.rows = db.mutations.rows.map f ∧
      ∀ i ∈ db.mutations.rows, IntentMoved fresh c a i (f i)) ∨
    ∃ user request key now i,
      (⟨c, a⟩ : (c : StoreCall) × c.Answer) = ⟨.prepareMutation user request key now, fresh⟩ ∧
      Journalled db fresh user request key now i db' ∧
      db'.mutations.rows = db.mutations.rows ++ [i] := by
  have hkept : db'.mutations = db.mutations → ∃ f,
      db'.mutations.rows = db.mutations.rows.map f ∧
        ∀ i ∈ db.mutations.rows, IntentMoved fresh c a i (f i) :=
    fun hm => ⟨id, by rw [hm, List.map_id], fun _ _ => .kept⟩
  cases h with
  | same rests hsame => exact .inl (hkept (hsame ▸ rfl))
  | saved writes => exact .inl (hkept writes.mutations)
  | member members =>
      obtain ⟨_, rfl⟩ := members
      exact .inl (hkept rfl)
  | synchronized inactive writes => exact .inl (hkept writes.mutations)
  | deleted deletes =>
      refine .inl ⟨_, (deleteFolders_eq_ok deletes).2.1, fun i _ => ?_⟩
      rcases i.unlink_cases _ with h | h <;> rw [h]
      · exact .kept
      · exact .unlinked
  | journalled new =>
      rename_i user request key now i
      obtain ⟨fields, w, hprep, -, -, -, -, -, hrows⟩ := new.effect
      refine .inr ⟨user, request, key, now, i, rfl, new, ?_⟩
      rw [hrows, (prepareRequest_writes hprep).mutations]
  | begun update =>
      rename_i intent prepared now n
      obtain ⟨_, hu, rfl⟩ := updateMutations_eq_ok.mp update
      obtain ⟨hrows, hn⟩ := Table.update_eq_some.mp hu
      refine .inl ⟨_, hrows, fun i hi => ?_⟩
      split
      · rename_i hp
        have hkey : ∀ j : Intent, (j.isOf intent.userId intent.id && j.state = .prepared) = true →
            j.id = intent.id := by
          intro j hj
          exact (isOf_iff.mp (Bool.and_eq_true_iff.mp hj).1).1
        have hcount : n = 1 := by
          rw [hn, Table.countP_of_key mutationSchema_id hkey,
            (Table.find_eq_some mutationSchema_id).mpr ⟨hi, hkey i hp⟩, Option.any_some, if_pos hp]
        simp only [Bool.and_eq_true, decide_eq_true_eq] at hp
        simpa [hcount] using IntentMoved.begun hp.1 hp.2
      · exact .kept
  | confirmed update =>
      obtain ⟨_, hu, rfl⟩ := updateMutations_eq_ok.mp update
      refine .inl ⟨_, (Table.update_eq_some.mp hu).1, fun i hi => ?_⟩
      split
      · rename_i hp
        rw [Bool.and_eq_true] at hp
        exact .confirmed hp.1 hp.2
      · exact .kept
  | quarantined update =>
      obtain ⟨_, hu, rfl⟩ := updateMutations_eq_ok.mp update
      refine .inl ⟨_, (Table.update_eq_some.mp hu).1, fun i hi => ?_⟩
      split
      · rename_i hp
        simp only [Bool.and_eq_true, decide_eq_true_eq] at hp
        exact .quarantined hp.1 hp.2
      · exact .kept
  | cancelled mem of state release update =>
      obtain ⟨gone, hrelease⟩ := releaseFolder_rows release
      obtain ⟨_, hu, rfl⟩ := updateMutations_eq_ok.mp update
      refine .inl ⟨_, by rw [(Table.update_eq_some.mp hu).1, hrelease, List.map_map],
        fun i hi => ?_⟩
      rcases i.unlink_cases gone with h | h <;> dsimp only [Function.comp_apply] <;> rw [h]
      · split
        · rename_i hp
          simp only [Bool.and_eq_true, decide_eq_true_eq] at hp
          exact .cancelled hp.1 hp.2 (.inl rfl)
        · exact .kept
      · split
        · rename_i hp
          simp only [Bool.and_eq_true, decide_eq_true_eq] at hp
          exact .cancelled hp.1 hp.2 (.inr rfl)
        · exact .unlinked
  | rejected mem of state release update =>
      obtain ⟨gone, hrelease⟩ := releaseFolder_rows release
      obtain ⟨_, hu, rfl⟩ := updateMutations_eq_ok.mp update
      refine .inl ⟨_, by rw [(Table.update_eq_some.mp hu).1, hrelease, List.map_map],
        fun i hi => ?_⟩
      rcases i.unlink_cases gone with h | h <;> dsimp only [Function.comp_apply] <;> rw [h]
      · split
        · rename_i hp
          simp only [Bool.and_eq_true, decide_eq_true_eq] at hp
          exact .rejected hp.1 hp.2 (.inl rfl)
        · exact .kept
      · split
        · rename_i hp
          simp only [Bool.and_eq_true, decide_eq_true_eq] at hp
          exact .rejected hp.1 hp.2 (.inr rfl)
        · exact .unlinked
  | applied mem of state hprepared hremote effects update =>
      rename_i user id now k prepared remote w n
      obtain ⟨f, hrows, hf⟩ := (applyEffects_effect effects).rows
      obtain ⟨_, hu, rfl⟩ := updateMutations_eq_ok.mp update
      refine .inl ⟨_, by rw [(Table.update_eq_some.mp hu).1, hrows, List.map_map],
        fun i hi => ?_⟩
      dsimp only [Function.comp_apply]
      obtain ⟨hfolder, hothers⟩ := hf i
      -- the effects may give the row of the intent another folder, no other row
      by_cases hof : i.isOf user id = true
      · obtain rfl : i = k := eq_of_intent_id hi mem
          ((isOf_iff.mp hof).1.trans (isOf_iff.mp of).1.symm)
        rw [hfolder, if_pos (by simpa [Intent.isOf, state] using of)]
        exact .applied of state
      · have hid : i.isOf user k.id = false := by
          rw [(isOf_iff.mp of).1]
          simpa using hof
        have hne : ¬ ((f i).isOf user id && (f i).state = .confirmed) = true := by
          rw [hfolder]
          intro hp
          exact hof (Bool.and_eq_true_iff.mp hp).1
        rw [if_neg hne]
        rcases hothers hid with h | h <;> rw [h]
        · exact .kept
        · exact .unlinked

end

/-! ## Folders of intents -/

/-- The folder of an intent is there, and belongs to its user. -/
def Linked (db : Ledger) : Prop :=
  ∀ i ∈ db.mutations.rows, ∀ f ∈ i.localFolderId,
    ∃ g ∈ db.folders.rows, g.id = f ∧ g.userId = i.userId

/-- Identifiers of folders are below the last one given. -/
def Bounded (db : Ledger) : Prop := ∀ f ∈ db.folders.rows, f.id ≤ db.lastFolder

section

variable {db db' : Ledger} {fresh : Uuid} {user now : Int}

/-- What statements leave of the folders: intents stay linked, and an identifier that was
given does not come back. -/
structure KeepsFolders (db db' : Ledger) : Prop where
  linked : Linked db → Linked db'
  bounded : Bounded db → Bounded db'
  last : db.lastFolder ≤ db'.lastFolder
  old : ∀ g ∈ db'.folders.rows, g.id ≤ db.lastFolder → ∃ f ∈ db.folders.rows, f.id = g.id

namespace KeepsFolders

theorem refl : KeepsFolders db db := ⟨fun h => h, fun h => h, le_rfl, fun g hg _ => ⟨g, hg, rfl⟩⟩

theorem trans {db'' : Ledger} (h : KeepsFolders db db') (h' : KeepsFolders db' db'') :
    KeepsFolders db db'' where
  linked hl := h'.linked (h.linked hl)
  bounded hb := h'.bounded (h.bounded hb)
  last := h.last.trans h'.last
  old g hg hle := by
    obtain ⟨k, hk, hid⟩ := h'.old g hg (hle.trans h.last)
    obtain ⟨f, hf, hid'⟩ := h.old k hk (hid ▸ hle)
    exact ⟨f, hf, hid'.trans hid⟩

theorem of_writes (h : WritesOf user db db') : KeepsFolders db db' where
  linked hdb i hi f hf := by
    rw [h.mutations] at hi
    obtain ⟨g, hg, hid, hu⟩ := hdb i hi f hf
    obtain ⟨g', hg', hid', hu'⟩ := h.folders g hg
    exact ⟨g', hg', hid'.trans hid, hu'.trans hu⟩
  bounded := h.bounded
  last := h.last
  old := h.old

theorem of_delete {p : Folder → Bool} {n : Nat}
    (h : deleteFolders p db = .ok (n, db')) : KeepsFolders db db' := by
  obtain ⟨hfolders, hrows, -, hlast, -⟩ := deleteFolders_eq_ok h
  have hsub : ∀ g ∈ db'.folders.rows, ∃ f ∈ db.folders.rows, f.id = g.id := by
    intro g hg
    rw [hfolders, List.mem_map] at hg
    obtain ⟨f, hf, rfl⟩ := hg
    exact ⟨f, List.mem_of_mem_filter hf, Folder.orphan_of_mem.1.symm⟩
  refine ⟨fun hdb j hj f hf => ?_, fun hb g hg => ?_, hlast.ge, fun g hg _ => hsub g hg⟩
  · rw [hrows, List.mem_map] at hj
    obtain ⟨i, hi, rfl⟩ := hj
    unfold Intent.unlink at hf ⊢
    split at hf
    · cases hf
    · rename_i hkept
      rw [if_neg hkept]
      obtain ⟨g, hg, hid, hu⟩ := hdb i hi f hf
      have hp : p g = false := by
        by_contra hp
        refine hkept ?_
        rw [Option.mem_def.mp hf, Option.any_some, loses, List.any_eq_true]
        exact ⟨g, List.mem_filter.mpr ⟨hg, by simpa using hp⟩, by simp [hid]⟩
      refine ⟨_, hfolders ▸ List.mem_map_of_mem (List.mem_filter.mpr ⟨hg, by simp [hp]⟩), ?_⟩
      exact ⟨Folder.orphan_of_mem.1.trans hid, Folder.orphan_of_mem.2.1.trans hu⟩
  · obtain ⟨f, hf, hid⟩ := hsub g hg
    rw [← hid, hlast]
    exact hb f hf

/-- An update that gives a row no folder but its own, or one of its user. -/
theorem of_update {p : Intent → Bool} {f : Intent → Intent} {n : Nat}
    (h : updateMutations p f db = .ok (n, db'))
    (hf : ∀ i, p i = true → (f i).userId = i.userId ∧ ∀ x ∈ (f i).localFolderId,
      x ∈ i.localFolderId ∨ ∃ g ∈ db.folders.rows, g.id = x ∧ g.userId = i.userId) :
    KeepsFolders db db' := by
  obtain ⟨_, hu, rfl⟩ := updateMutations_eq_ok.mp h
  refine ⟨fun hdb j hj x hx => ?_, fun h => h, le_rfl, fun g hg _ => ⟨g, hg, rfl⟩⟩
  rw [show _ = _ from (Table.update_eq_some.mp hu).1, List.mem_map] at hj
  obtain ⟨i, hi, rfl⟩ := hj
  split at hx
  · rename_i hp
    rw [if_pos hp, (hf i hp).1]
    rcases (hf i hp).2 x hx with hx | hg
    · exact hdb i hi x hx
    · exact hg
  · rename_i hp
    rw [if_neg hp]
    exact hdb i hi x hx

theorem of_release {u : Unit} (h : releaseFolder user i db = .ok (u, db')) :
    KeepsFolders db db' := by
  rcases releaseFolder_eq_ok h with ⟨-, _, hdelete⟩ | rfl
  · exact of_delete hdelete
  · exact refl

/-- Folders that are rewritten in place. -/
theorem of_updateFolders {p : Folder → Bool} {f : Folder → Folder} {n : Nat}
    (h : updateFolders p f db = .ok (n, db'))
    (hf : ∀ g, (f g).id = g.id ∧ (f g).userId = g.userId) : KeepsFolders db db' := by
  obtain ⟨folders, hu, rfl⟩ := updateFolders_eq_ok.mp h
  have hrows : folders.rows = _ := (Table.update_eq_some.mp hu).1
  have hkeep : ∀ g, (if p g then f g else g).id = g.id ∧
      (if p g then f g else g).userId = g.userId := by
    intro g
    split
    · exact hf g
    · exact ⟨rfl, rfl⟩
  have hold : ∀ g ∈ folders.rows, ∃ f ∈ db.folders.rows, f.id = g.id := by
    intro g hg
    rw [hrows, List.mem_map] at hg
    obtain ⟨k, hk, rfl⟩ := hg
    exact ⟨k, hk, (hkeep k).1.symm⟩
  refine ⟨fun hdb i hi x hx => ?_, fun hb g hg => ?_, le_rfl, fun g hg _ => hold g hg⟩
  · obtain ⟨g, hg, hid, huser⟩ := hdb i hi x hx
    refine ⟨_, ?_, (hkeep g).1.trans hid, (hkeep g).2.trans huser⟩
    show _ ∈ folders.rows
    exact hrows ▸ List.mem_map_of_mem hg
  · obtain ⟨k, hk, hid⟩ := hold g hg
    rw [← hid]
    exact hb k hk

theorem of_link {folder : Int} {remote : Json} (h : LinkEffect db user id folder remote db') :
    KeepsFolders db db' := by
  cases h with
  | merged names imported children relink delete =>
      rename_i list g members w w' n n' k
      have huser := List.find?_some imported
      simp only [Bool.and_eq_true, decide_eq_true_eq] at huser
      have hmem := List.mem_of_find?_eq_some imported
      have hrelink : KeepsFolders w w' := .of_update relink fun i hi => ⟨rfl, fun x hx => .inr ?_⟩
      · exact .trans (.of_writes (WritesOf.members : WritesOf user _ _))
          (.trans (of_updateFolders children fun g => ⟨rfl, rfl⟩)
            (hrelink.trans (of_delete delete)))
      · obtain rfl : g.id = x := Option.some.inj hx
        obtain ⟨_, hu, rfl⟩ := updateFolders_eq_ok.mp children
        refine ⟨g, ?_, rfl, huser.1.1.trans (isOf_iff.mp hi).2.symm⟩
        -- the imported folder does not become its own parent
        show g ∈ Table.rows _
        rw [(Table.update_eq_some.mp hu).1]
        exact List.mem_map.mpr ⟨g, hmem, by simp⟩
  | linked update => exact of_updateFolders update fun g => ⟨rfl, rfl⟩

theorem of_effects {remote : Json} (h : RequestEffect db user i remote db') :
    KeepsFolders db db' := by
  cases h with
  | created create reserved link => exact of_link link
  | edited parent update => exact of_updateFolders update fun g => ⟨rfl, rfl⟩
  | deleted delete => exact of_delete delete
  | membership same => exact same ▸ of_writes (WritesOf.members : WritesOf user _ _)
  | star update =>
      obtain ⟨_, -, rfl⟩ := updateStars_eq_ok.mp update
      exact ⟨fun h => h, fun h => h, le_rfl, fun g hg _ => ⟨g, hg, rfl⟩⟩

end KeepsFolders

/-- The folder that a new row refers to is one of its user. -/
theorem prepareRequest_folder {request : Mutation} {folder : Option Int}
    {fields : List (String × Json)}
    (h : prepareRequest user request now db = .ok ((folder, fields), db')) :
    ∀ x ∈ folder, ∃ g ∈ db'.folders.rows, g.id = x ∧ g.userId = user := by
  intro x hx
  have hfound : ∀ {id : Int} {f : Folder}, db.folder? user id = some f →
      ∃ g ∈ db.folders.rows, g.id = id ∧ g.userId = user := fun hf =>
    ⟨_, (Ledger.folder?_eq_some.mp hf).1, (Ledger.folder?_eq_some.mp hf).2.2,
      (Ledger.folder?_eq_some.mp hf).2.1⟩
  cases prepareRequest_prepared h with
  | createList parent reserve =>
      obtain rfl := Option.some.inj hx
      obtain ⟨row, hrow, hinsert⟩ := reserveFolder_eq_ok reserve
      obtain ⟨folders, hi, -, rfl⟩ := insertFolder_eq_ok.mp hinsert
      refine ⟨_, ?_, (hrow _).1, (hrow _).2.1⟩
      show _ ∈ folders.rows
      rw [Table.insert_eq_some.mp hi]
      exact List.mem_append_right _ List.mem_cons_self
  | editList valid found => exact Option.some.inj hx ▸ hfound found
  | deleteList found | membership found => exact Option.some.inj hx ▸ hfound found
  | star => cases hx

/-- Every call keeps the folders of the intents. -/
theorem LedgerEffect.keepsFolders {c : StoreCall} {a : c.Answer}
    (h : LedgerEffect db fresh db' c a) : KeepsFolders db db' := by
  have hstate : ∀ {p : Intent → Bool} {f : Intent → Intent} {db db' : Ledger} {n : Nat},
      updateMutations p f db = .ok (n, db') →
        (∀ i, (f i).userId = i.userId ∧ (f i).localFolderId = i.localFolderId) →
        KeepsFolders db db' := by
    intro p f db db' n h hf
    exact .of_update h fun i _ => ⟨(hf i).1, fun x hx => .inl ((hf i).2 ▸ hx)⟩
  cases h with
  | same rests hsame => exact hsame ▸ .refl
  | saved writes => exact .of_writes writes
  | member members =>
      obtain ⟨_, rfl⟩ := members
      exact .of_writes (WritesOf.members : WritesOf 0 _ _)
  | synchronized inactive writes => exact .of_writes writes
  | deleted deletes => exact .of_delete deletes
  | journalled new =>
      rename_i user request key now i
      obtain ⟨fields, w, hprep, -, hfolders, -, -, hlast, hrows⟩ := new.effect
      have hw := KeepsFolders.of_writes (prepareRequest_writes hprep)
      refine ⟨fun hdb j hj x hx => ?_, fun hb => ?_, hlast ▸ hw.last, hfolders ▸ hw.old⟩
      · rw [hrows, List.mem_append, List.mem_singleton] at hj
        rw [hfolders]
        rcases hj with hj | rfl
        · exact hw.linked hdb j hj x hx
        · rw [new.userId]
          exact prepareRequest_folder hprep x hx
      · have := hw.bounded hb
        unfold Bounded at this ⊢
        rwa [hfolders, hlast]
  | begun update | confirmed update | quarantined update => exact hstate update fun i => ⟨rfl, rfl⟩
  | cancelled mem of state release update | rejected mem of state release update =>
      exact (KeepsFolders.of_release release).trans (hstate update fun i => ⟨rfl, rfl⟩)
  | applied mem of state hprepared hremote effects update =>
      exact (KeepsFolders.of_effects (applyEffects_effect effects)).trans
        (hstate update fun i => ⟨rfl, rfl⟩)

end

end YoinkCore.Inbox
