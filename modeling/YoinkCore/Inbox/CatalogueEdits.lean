import YoinkCore.Inbox.CategoryForest

/-!
# Concurrent edits of a row

A save reads the row, writes its patch over the copy, and then, in a transaction of its
own, writes all columns back. What others commit in between is written over, unless the
columns that the patch does not name are as they were read. The edit of a list reads the
row in the transaction that writes it.
-/

namespace YoinkCore.Inbox

open Lib

/-! ## Rows -/

inductive Catalog where
  | category | folder | rule
deriving DecidableEq

/-- A row of the catalogue of a user. -/
structure Target where
  kind : Catalog
  user : Int
  id : Int
deriving DecidableEq

/-- The columns that a patch may name. -/
def Catalog.columns : Catalog → List String
  | category => ["name", "slug", "icon", "color", "description", "parent_id",
      "shared_with_team_id"]
  | folder => ["name", "slug", "description", "icon", "parent_id", "is_pinned", "sort_order"]
  | rule => ["name", "enabled", "priority", "trigger", "conditions", "actions"]

/-- The row, as it is read back. -/
def InboxDb.row? (db : InboxDb) (t : Target) : Option Json :=
  match t.kind with
  | .category => (db.category? t.user t.id).map Category.toJson
  | .folder => (db.ledger.folder? t.user t.id).map Folder.toJson
  | .rule => (db.rule? t.user t.id).map Rule.toJson

/-- The slug is that of another row of the user. -/
def InboxDb.takenSlug (db : InboxDb) (t : Target) (slug : String) : Prop :=
  match t.kind with
  | .category => db.slugTaken t.user (some t.id) slug = true
  | .folder => ∃ f ∈ db.ledger.folders.rows, f.userId = t.user ∧ f.slug = slug ∧ f.id ≠ t.id
  | .rule => False

/-- Columns of 64 bits. -/
structure InboxDb.Fits (db : InboxDb) : Prop where
  folders : ∀ f ∈ db.ledger.folders.rows, ∀ p, f.parentId = some p → (Json.int p).asI64 = some p
  categories : ∀ c ∈ db.categories.rows, ∀ k, c.parentId = some k ∨ c.sharedWithTeamId = some k →
    (Json.int k).asI64 = some k

/-! ## Saves -/

/-- `catalogue`, for a row that is there. -/
def Catalog.validate (v : Json) : Catalog → Except Error Json
  | category => Validation.catalogueCategory v false
  | folder => Validation.catalogueFolder v false
  | rule => Validation.catalogueRule v false

/-- A call of `save_catalogue` for a row, with its input and what it was validated to. -/
structure SaveCall where
  target : Target
  input : Json
  patch : Json
  now : Int
  unlinked : (input.member? "gh_list_id").isNone ∧ (input.member? "gh_list_slug").isNone
  valid : target.kind.validate input = .ok patch

/-- How far a call has come. -/
inductive SavePhase where
  | entered
  | looked
  | read (copy : Json)
  | saved

/-- `catalogue_one`, after the look for an active create. -/
def InboxDb.readBack (db : InboxDb) (t : Target) : Except Error Json :=
  match t.kind with
  | .category => Category.toJson <$> readCategory t.user t.id db
  | .folder => ((db.ledger.folder? t.user t.id).map Folder.toJson).elim (.error .notFound) .ok
  | .rule => Rule.toJson <$> readRule t.user t.id db

section

variable [LinkPlatform]

/-- The transaction of a save. -/
def SaveCall.commit (call : SaveCall) (copy : Json) (db : InboxDb) : Except Error Int × InboxDb :=
  let body := merge copy call.patch
  match (body.entry "name").asStr.filter fun n => !n.isEmpty && n.length ≤ 128 with
  | none => (.error .invalid, db)
  | some name =>
      let id := some call.target.id
      Tx.auto (match call.target.kind with
        | .category => saveCategoryOn call.target.user id name body call.now
        | .folder => onLedger (saveFolderOn call.target.user id name body call.now)
        | .rule => saveRuleOn call.target.user id name body call.now) db

/-! ## Steps -/

structure EditState where
  db : InboxDb
  fits : db.Fits
  calls : List (SaveCall × SavePhase)

/-- The columns that a transaction changes, with what they become. -/
def InboxDb.changes (db db' : InboxDb) (t : Target) (key : String) : Option Json :=
  match db.row? t, db'.row? t with
  | some old, some new => if new.entry key = old.entry key then none else some (new.entry key)
  | _, _ => none

inductive EditEvent where
  | enter (call : SaveCall)
  | look (k : Nat)
  | read (k : Nat)
  | save (k : Nat) (call : SaveCall)
  | write (changes : Target → String → Option Json)

/-- What an event writes into a column. -/
def EditEvent.named (t : Target) (key : String) : EditEvent → Option Json
  | save _ call => if call.target = t then call.patch.member? key else none
  | write changes => changes t key
  | _ => none

/-- Calls take their turns in any order, and whatever else is committed. -/
inductive EditStep (s : EditState) : EditEvent → EditState → Prop
  | enter {call : SaveCall} :
      EditStep s (.enter call) ⟨s.db, s.fits, s.calls ++ [(call, .entered)]⟩
  | look {k : Nat} {call : SaveCall} (turn : s.calls[k]? = some (call, .entered))
      (free : call.target.kind = .folder →
        s.db.ledger.pendingCreate call.target.user call.target.id = false) :
      EditStep s (.look k) ⟨s.db, s.fits, s.calls.set k (call, .looked)⟩
  | read {k : Nat} {call : SaveCall} {copy : Json} (turn : s.calls[k]? = some (call, .looked))
      (found : s.db.readBack call.target = .ok copy) :
      EditStep s (.read k) ⟨s.db, s.fits, s.calls.set k (call, .read copy)⟩
  | save {k : Nat} {call : SaveCall} {copy : Json} {id : Int} {db : InboxDb} {fits : db.Fits}
      (turn : s.calls[k]? = some (call, .read copy))
      (commits : call.commit copy s.db = (.ok id, db)) :
      EditStep s (.save k call) ⟨db, fits, s.calls.set k (call, .saved)⟩
  | write {db : InboxDb} {fits : db.Fits} :
      EditStep s (.write (s.db.changes db)) ⟨db, fits, s.calls⟩

/-! ## Columns -/

/-- What a save makes of the value of a column, as it is read back. -/
def stored (key : String) (v : Json) : Json :=
  if key = "slug" then optionalStr (v.asStr.map fun s => String.ofList (s.toList.take 64))
  else if key ∈ ["parent_id", "shared_with_team_id"] then Json.nullable (v.asI64.map .int)
  else if key = "sort_order" then .int (v.asI64.getD 0)
  else if key = "priority" then .int (v.asI64.getD 100)
  else if key ∈ ["is_pinned", "is_local"] then .bool (v.asBool.getD false)
  else if key = "enabled" then .bool (v.asBool.getD true)
  else if key ∈ ["conditions", "actions"] then v
  else optionalStr v.asStr

/-- The value is read back as it stands. -/
abbrev Storable (key : String) (v : Json) : Prop := stored key v = v

/-- Fields with keys of their own, and values of their columns. -/
structure PatchFields (out : List (String × Json)) : Prop where
  nodup : (out.map Prod.fst).Nodup
  accepted : ∀ f ∈ out, Storable f.1 f.2

variable {key : String} {db db' : InboxDb} {value : Json}

omit [LinkPlatform] in
theorem mem_insert {fields : List (String × Json)} {f : String × Json}
    (h : f ∈ Json.insert fields key value) : f = (key, value) ∨ f ∈ fields := by
  induction fields with
  | nil => exact .inl (List.mem_singleton.mp h)
  | cons g rest ih =>
      obtain ⟨k, v⟩ := g
      by_cases hk : k = key
      · simp only [Json.insert, if_pos hk, List.mem_cons] at h
        rcases h with rfl | h
        · exact .inl (by rw [hk])
        · exact .inr (List.mem_cons_of_mem _ h)
      · simp only [Json.insert, if_neg hk, List.mem_cons] at h
        rcases h with rfl | h
        · exact .inr List.mem_cons_self
        · exact (ih h).imp id (List.mem_cons_of_mem _)

namespace PatchFields

variable {out out' : List (String × Json)} {key : String} {value v : Json} {nullable : Bool}

omit [LinkPlatform]

theorem nil : PatchFields [] := ⟨List.nodup_nil, fun _ h => nomatch h⟩

theorem insert (h : PatchFields out) (hvalue : Storable key value) :
    PatchFields (Json.insert out key value) where
  nodup := by
    have hnodup := h.nodup
    clear h
    induction out with
    | nil => simp [Json.insert]
    | cons g rest ih =>
        obtain ⟨k, v⟩ := g
        rw [List.map_cons, List.nodup_cons] at hnodup
        by_cases hk : k = key
        · simp only [Json.insert, if_pos hk, List.map_cons, List.nodup_cons]
          exact hnodup
        · simp only [Json.insert, if_neg hk, List.map_cons, List.nodup_cons]
          refine ⟨fun hmem => ?_, ih hnodup.2⟩
          obtain ⟨f, hf, hfst⟩ := List.mem_map.mp hmem
          rcases mem_insert hf with rfl | hf
          · exact hk hfst.symm
          · exact hnodup.1 (List.mem_map.mpr ⟨f, hf, hfst⟩)
  accepted f hf := by
    rcases mem_insert hf with rfl | hf
    · exact hvalue
    · exact h.accepted f hf

theorem get?_accepted (h : PatchFields out) (hget : Json.get? out key = some value) :
    Storable key value := by
  induction out with
  | nil => cases hget
  | cons g rest ih =>
      obtain ⟨k, v⟩ := g
      by_cases hk : k = key
      · simp only [Json.get?, if_pos hk, Option.some.injEq] at hget
        obtain rfl := hget
        exact hk ▸ h.accepted _ List.mem_cons_self
      · simp only [Json.get?, if_neg hk] at hget
        refine ih ⟨?_, fun f hf => h.accepted f (List.mem_cons_of_mem _ hf)⟩ hget
        exact (List.nodup_cons.mp h.nodup).2

/-- A field that is read to the type of its column. -/
theorem fieldWith {read : Json → Except Error Json} (h : PatchFields out)
    (hfield : Validation.fieldWith read v out key nullable = .ok out')
    (hread : ∀ n value, read n = .ok value → Storable key value)
    (hnull : nullable = true → Storable key .null) : PatchFields out' := by
  unfold Validation.fieldWith at hfield
  cases hn : v.member? key with
  | none =>
      rw [hn] at hfield
      cases hfield
      exact h
  | some n =>
      rw [hn] at hfield
      by_cases hnullable : (decide (n = .null) && nullable) = true
      · simp only [if_pos hnullable] at hfield
        cases hfield
        exact h.insert (hnull ((Bool.and_eq_true _ _).mp hnullable).2)
      · simp only [if_neg hnullable] at hfield
        obtain ⟨value, hvalue, hfield⟩ := Tx.result_bind_eq_ok.mp hfield
        cases hfield
        exact h.insert (hread n value hvalue)

variable {type : Validation.FieldType}

/-- A field of one of the types of a folder. -/
theorem field (h : PatchFields out) (hfield : Validation.field v out key type nullable = .ok out')
    (hread : ∀ n value, Validation.normalized key type n = .ok value → Storable key value)
    (hnull : nullable = true → Storable key .null) : PatchFields out' :=
  have hfield : Validation.fieldWith (Validation.normalized key type) v out key nullable =
    .ok out' := hfield
  h.fieldWith hfield hread hnull

theorem optionalField (h : PatchFields out)
    (hfield : Validation.optionalField v false out key type = .ok out')
    (hread : ∀ n value, Validation.normalized key type n = .ok value → Storable key value)
    (hnull : Storable key .null) : PatchFields out' := by
  obtain ⟨_, hwritten, he⟩ := Tx.result_bind_eq_ok.mp hfield
  cases he
  exact h.field hwritten hread fun _ => hnull

end PatchFields

/-! ## Patches -/

section

omit [LinkPlatform]

theorem asI64_int {n : Int} : (Json.int n).asI64 = some n ↔ -2 ^ 63 ≤ n ∧ n ≤ 2 ^ 63 - 1 := by
  simp [Json.asI64, Json.asInt]

variable {v : Json}

theorem eq_int_of_asI64 {n : Int} (h : v.asI64 = some n) : v = .int n := by
  cases v <;> simp_all [Json.asI64, Json.asInt]

theorem integerText_fits {s : String} {n : Int} (h : Validation.integerText s = some n) :
    -2 ^ 63 ≤ n ∧ n ≤ 2 ^ 63 - 1 := by
  have hparse : ∀ t n, Text.parseSigned (-2 ^ 63) (2 ^ 63 - 1) t = some n →
      -2 ^ 63 ≤ n ∧ n ≤ 2 ^ 63 - 1 := by
    intro t n hn
    have := (Option.filter_eq_some_iff.mp hn).2
    simpa using this
  simp only [Validation.integerText] at h
  split at h
  · cases h
  · rcases Option.or_eq_some_iff.mp h with h | ⟨-, h⟩
    · exact hparse _ _ h
    · obtain ⟨⟨whole, fraction⟩, -, h⟩ := Option.bind_eq_some_iff.mp h
      dsimp only at h
      split at h
      · cases h
      · exact hparse _ _ h

theorem integer_fits {n : Int} (h : Validation.integer v = .ok n) :
    (Json.int n).asI64 = some n := by
  refine asI64_int.mpr ?_
  unfold Validation.integer at h
  cases v with
  | int m =>
      cases hm : (Json.int m).asI64 with
      | none => simp [hm] at h
      | some k =>
          simp only [hm, Option.elim_some, Except.ok.injEq] at h
          obtain rfl := h
          obtain rfl := Json.int.inj (eq_int_of_asI64 hm)
          exact asI64_int.mp hm
  | bool b => cases b <;> simp at h <;> omega
  | str s =>
      cases hs : Validation.integerText s with
      | none => simp [hs] at h
      | some k =>
          simp only [hs, Option.elim_some, Except.ok.injEq] at h
          exact h ▸ integerText_fits hs
  | float x =>
      dsimp only at h
      split at h
      · simp only [Option.elim_some, Except.ok.injEq] at h
        have := x.toInt64.le_toInt
        have := x.toInt64.toInt_lt
        omega
      · cases h
  | null | arr items | obj fields => cases h

theorem map_eq_ok {α β : Type} {x : Except Error α} {f : α → β} {b : β} :
    f <$> x = .ok b ↔ ∃ a, x = .ok a ∧ f a = b := by
  cases x <;> simp [Functor.map, Except.map]

/-- A text of any length. -/
theorem string_storable {min : Nat} {max : Option Nat} {n : Json}
    (hkey : ∀ v, stored key v = optionalStr v.asStr)
    (h : Json.str <$> Validation.string n min max = .ok value) : Storable key value := by
  obtain ⟨s, -, rfl⟩ := map_eq_ok.mp h
  exact hkey _

theorem slug_storable {n : Json} (h : Validation.normalized "slug" .slug n = .ok value) :
    Storable "slug" value := by
  obtain ⟨s, -, rfl⟩ := map_eq_ok.mp h
  show optionalStr (some _) = _
  simp [optionalStr, Json.nullable, List.take_take]

theorem int_storable {n : Json}
    (hkey : ∀ m, (Json.int m).asI64 = some m → stored key (.int m) = .int m)
    (h : Validation.normalized key .int n = .ok value) : Storable key value := by
  obtain ⟨m, hm, h⟩ := Tx.result_bind_eq_ok.mp h
  split at h
  · cases h
  · cases h
    exact hkey m (integer_fits hm)

theorem bool_storable {n : Json} (hkey : ∀ b, stored key (.bool b) = .bool b)
    (h : Validation.normalized key .bool n = .ok value) : Storable key value := by
  obtain ⟨b, -, rfl⟩ := map_eq_ok.mp h
  exact hkey b

theorem stored_parent {m : Int} (h : (Json.int m).asI64 = some m) :
    stored "parent_id" (.int m) = .int m := by
  show Json.nullable ((Json.int m).asI64.map .int) = _
  rw [h]
  rfl

theorem stored_order {m : Int} (h : (Json.int m).asI64 = some m) :
    stored "sort_order" (.int m) = .int m := by
  show Json.int ((Json.int m).asI64.getD 0) = _
  rw [h]
  rfl

theorem priority_storable {n : Json} (h : Validation.priority n = .ok value) :
    Storable "priority" value := by
  obtain ⟨m, hm, h⟩ := Tx.result_bind_eq_ok.mp h
  split at h
  · cases h
    show Json.int ((Json.int m).asI64.getD 100) = _
    rw [integer_fits hm]
    rfl
  · cases h

variable {out : List (String × Json)}

theorem withSlug_fields (h : PatchFields out) : PatchFields (Validation.withSlug v out) := by
  have hslug : ∀ name, Storable "slug" (.str (Validation.slug name)) := by
    intro name
    show optionalStr (some _) = _
    simp [optionalStr, Json.nullable, Validation.slug, List.take_take]
  unfold Validation.withSlug
  split
  · exact h.insert (hslug _)
  · exact h.insert (hslug _)
  · exact h

theorem catalogueCategory_fields {patch : Json}
    (h : Validation.catalogueCategory v false = .ok patch) :
    ∃ out, patch = .obj out ∧ PatchFields out := by
  simp only [Validation.catalogueCategory, Bool.false_and, Bool.false_eq_true, if_false,
    Bool.not_false] at h
  obtain ⟨-, h⟩ := Tx.result_guard_eq_ok.mp h
  obtain ⟨_, hname, h⟩ := Tx.result_bind_eq_ok.mp h
  obtain ⟨_, hslug, h⟩ := Tx.result_bind_eq_ok.mp h
  obtain ⟨_, hdescription, h⟩ := Tx.result_bind_eq_ok.mp h
  obtain ⟨_, hicon, h⟩ := Tx.result_bind_eq_ok.mp h
  obtain ⟨_, hparent, h⟩ := Tx.result_bind_eq_ok.mp h
  obtain ⟨_, hcolor, h⟩ := Tx.result_bind_eq_ok.mp h
  obtain ⟨_, hteam, h⟩ := Tx.result_bind_eq_ok.mp h
  obtain ⟨-, h⟩ := Tx.result_guard_eq_ok.mp h
  cases h
  have fields := PatchFields.nil
  have fields := fields.field hname (fun _ _ => string_storable fun _ => rfl) (fun _ => rfl)
  have fields := fields.optionalField hslug (fun _ _ => slug_storable) rfl
  have fields := fields.optionalField hdescription (fun _ _ => string_storable fun _ => rfl) rfl
  have fields := fields.optionalField hicon (fun _ _ => string_storable fun _ => rfl) rfl
  have fields := fields.optionalField hparent (fun _ _ => int_storable fun _ => stored_parent) rfl
  have fields := fields.fieldWith hcolor (fun _ _ => string_storable fun _ => rfl) (fun _ => rfl)
  have fields := fields.optionalField hteam (fun _ _ => int_storable fun _ => stored_parent) rfl
  exact ⟨_, rfl, withSlug_fields fields⟩

theorem catalogueFolder_fields {patch : Json} (h : Validation.catalogueFolder v false = .ok patch) :
    ∃ out, patch = .obj out ∧ PatchFields out := by
  simp only [Validation.catalogueFolder, Bool.false_and, Bool.false_eq_true, if_false,
    Bool.not_false] at h
  obtain ⟨-, h⟩ := Tx.result_guard_eq_ok.mp h
  obtain ⟨_, hname, h⟩ := Tx.result_bind_eq_ok.mp h
  obtain ⟨_, hslug, h⟩ := Tx.result_bind_eq_ok.mp h
  obtain ⟨_, hdescription, h⟩ := Tx.result_bind_eq_ok.mp h
  obtain ⟨_, hicon, h⟩ := Tx.result_bind_eq_ok.mp h
  obtain ⟨_, hparent, h⟩ := Tx.result_bind_eq_ok.mp h
  obtain ⟨_, hlocal, h⟩ := Tx.result_bind_eq_ok.mp h
  obtain ⟨_, hpinned, h⟩ := Tx.result_bind_eq_ok.mp h
  obtain ⟨last, horder, h⟩ := Tx.result_bind_eq_ok.mp h
  obtain ⟨-, h⟩ := Tx.result_guard_eq_ok.mp h
  cases h
  have fields := PatchFields.nil
  have fields := fields.field hname (fun _ _ => string_storable fun _ => rfl) (fun _ => rfl)
  have fields := fields.optionalField hslug (fun _ _ => slug_storable) rfl
  have fields := fields.optionalField hdescription (fun _ _ => string_storable fun _ => rfl) rfl
  have fields := fields.optionalField hicon (fun _ _ => string_storable fun _ => rfl) rfl
  have fields := fields.optionalField hparent (fun _ _ => int_storable fun _ => stored_parent) rfl
  have fields := fields.field hlocal (fun _ _ => bool_storable fun _ => rfl) (fun h => nomatch h)
  have fields := fields.field hpinned (fun _ _ => bool_storable fun _ => rfl) (fun h => nomatch h)
  have fields :=
    fields.field horder (fun _ _ => int_storable fun _ => stored_order) (fun h => nomatch h)
  exact ⟨_, rfl, withSlug_fields (v := v) fields⟩

theorem catalogueRule_fields {patch : Json} (h : Validation.catalogueRule v false = .ok patch) :
    ∃ out, patch = .obj out ∧ PatchFields out := by
  simp only [Validation.catalogueRule, Bool.false_and, Bool.false_eq_true, if_false,
    Bool.not_false] at h
  obtain ⟨-, h⟩ := Tx.result_guard_eq_ok.mp h
  obtain ⟨_, hname, h⟩ := Tx.result_bind_eq_ok.mp h
  obtain ⟨_, henabled, h⟩ := Tx.result_bind_eq_ok.mp h
  obtain ⟨_, hpriority, h⟩ := Tx.result_bind_eq_ok.mp h
  obtain ⟨_, htrigger, h⟩ := Tx.result_bind_eq_ok.mp h
  obtain ⟨_, hconditions, h⟩ := Tx.result_bind_eq_ok.mp h
  obtain ⟨_, hactions, h⟩ := Tx.result_bind_eq_ok.mp h
  obtain ⟨-, h⟩ := Tx.result_guard_eq_ok.mp h
  obtain ⟨-, h⟩ := Tx.result_guard_eq_ok.mp h
  cases h
  have fields := PatchFields.nil
  have fields := fields.field hname (fun _ _ => string_storable fun _ => rfl) (fun _ => rfl)
  have fields := fields.field henabled (fun _ _ => bool_storable fun _ => rfl) (fun h => nomatch h)
  have fields := fields.fieldWith hpriority (fun _ _ => priority_storable) (fun h => nomatch h)
  have fields :=
    fields.field htrigger (fun _ _ => string_storable fun _ => rfl) (fun h => nomatch h)
  have fields := fields.fieldWith hconditions (fun _ _ _ => rfl) (fun _ => rfl)
  have fields := fields.fieldWith hactions (fun _ _ _ => rfl) (fun _ => rfl)
  exact ⟨_, rfl, withSlug_fields fields⟩

/-- The patch of a save. -/
theorem validate_fields {kind : Catalog} {patch : Json} (h : kind.validate v = .ok patch) :
    ∃ out, patch = .obj out ∧ PatchFields out := by
  cases kind with
  | category => exact catalogueCategory_fields h
  | folder => exact catalogueFolder_fields h
  | rule => exact catalogueRule_fields h

theorem member?_withEntry (v value : Json) (key other : String) :
    (v.withEntry key value).member? other = if other = key then some value
      else v.member? other := by
  by_cases h : other = key
  · subst h
    cases v <;> simp [Json.withEntry, Json.member?, Json.asObj, Json.get?]
  · rw [if_neg h]
    cases v with
    | obj fields => exact Json.get?_insert fields value h
    | _ => simp [Json.withEntry, Json.member?, Json.asObj, Json.get?, Ne.symm h]

/-- A patch with keys of its own is written over a row, key by key. -/
theorem merge_member? (hnodup : (out.map Prod.fst).Nodup) (body : Json) (key : String) :
    (merge body (.obj out)).member? key = ((Json.obj out).member? key).or (body.member? key) := by
  show (out.foldl (fun body f => body.withEntry f.1 f.2) body).member? key =
    (Json.get? out key).or (body.member? key)
  induction out generalizing body with
  | nil => rfl
  | cons f rest ih =>
      obtain ⟨k, v⟩ := f
      rw [List.map_cons, List.nodup_cons] at hnodup
      rw [List.foldl_cons, ih hnodup.2, member?_withEntry]
      by_cases hk : k = key
      · subst hk
        have hrest : Json.get? rest k = none := Json.get?_eq_none.mpr fun f hf he =>
          hnodup.1 (List.mem_map.mpr ⟨f, hf, he⟩)
        simp [Json.get?, hrest]
      · simp [Json.get?, hk, Ne.symm hk]

/-- The body of a save: the patch where it names a column, else the copy. -/
theorem SaveCall.body_entry (call : SaveCall) (copy : Json) (key : String) :
    (merge copy call.patch).entry key = (call.patch.member? key).getD (copy.entry key) := by
  obtain ⟨out, hpatch, hfields⟩ := validate_fields call.valid
  rw [hpatch]
  show ((merge copy (.obj out)).member? key).getD .null = _
  rw [merge_member? hfields.nodup]
  cases (Json.obj out).member? key <;> rfl

theorem SaveCall.storable (call : SaveCall) (h : call.patch.member? key = some v) :
    Storable key v := by
  obtain ⟨out, hpatch, hfields⟩ := validate_fields call.valid
  rw [hpatch] at h
  exact hfields.get?_accepted h

/-! ## The transaction -/

/-- What the save of a row makes of a body. -/
structure SavedAs (t : Target) (body : Json) (db db' : InboxDb) : Prop where
  row : ∀ old, db.row? t = some old → ∃ new, db'.row? t = some new ∧
    (∀ key ∈ t.kind.columns, key ≠ "slug" → new.entry key = stored key (body.entry key)) ∧
    (t.kind ≠ .rule → ∀ slug, body.entry "slug" = .str slug → slug ≠ "" → slug.length ≤ 64 →
      ¬ db.takenSlug t slug → new.entry "slug" = .str slug)
  others : ∀ t', t' ≠ t → db'.row? t' = db.row? t'

/-- A slug that is free is kept. -/
theorem firstFree_of_free {taken : String → Bool} {base slug : String} (hlen : base.length ≤ 64)
    (hfree : taken base = false) (h : firstFree taken base = .ok slug) : slug = base := by
  have hbase : String.ofList ((base ++ "").toList.take 64) = base := by
    rw [String.append_empty, List.take_of_length_le (by simpa [String.length_toList] using hlen),
      String.ofList_toList]
  rw [firstFree, slugCandidates, List.map_cons,
    List.find?_cons_of_pos (by rw [hbase, hfree]; rfl), hbase] at h
  exact (Except.ok.inj h).symm

/-- A slug that no other folder of the user has. -/
theorem uniqueSlug_of_free {db db' : Ledger} {user id : Int} {base slug : String}
    (hlen : base.length ≤ 64)
    (hfree : ¬ ∃ f ∈ db.folders.rows, f.userId = user ∧ f.slug = base ∧ f.id ≠ id)
    (h : uniqueSlug user base (some id) db = .ok (slug, db')) : slug = base := by
  simp only [uniqueSlug, Tx.bind_eq_ok, Tx.get_eq_ok] at h
  obtain ⟨_, _, ⟨rfl, rfl⟩, h⟩ := h
  have hnone : (db.folders.rows.any fun f =>
      f.userId = user && f.slug = base && f.id ≠ (some id).getD (-1)) = false := by
    refine List.any_eq_false.mpr fun f hf htaken => hfree ⟨f, hf, ?_⟩
    simpa [and_assoc] using htaken
  exact firstFree_of_free hlen hnone (Tx.ofExcept_eq_ok.mp h).1

theorem given_slug {body : Json} {slug name other : String} (hslug : body.entry "slug" = .str slug)
    (hne : slug ≠ "") (hlen : slug.length ≤ 64) :
    (let given := ((body.entry "slug").asStr.filter (!·.isEmpty)).getD (Validation.slug name)
     if given.isEmpty then other else String.ofList (given.toList.take 64)) = slug := by
  have hempty : slug.isEmpty = false := by simpa using hne
  rw [hslug]
  simp only [Json.asStr, Option.filter_some, hempty, Bool.not_false, if_true, Option.getD_some,
    Bool.false_eq_true, if_false]
  rw [List.take_of_length_le (by simpa [String.length_toList] using hlen), String.ofList_toList]

/-- The rows of a table after one of them was written over. -/
theorem find?_saved {ρ : Type} (owner key : ρ → Int) {f : ρ → ρ} {user id : Int}
    {rows saved : List ρ}
    (hsaved : saved = rows.map fun r => if key r = id && owner r = user then f r else r)
    (hf : ∀ r, owner (f r) = owner r ∧ key (f r) = key r) :
    (saved.find? fun r => owner r = user && key r = id) =
      (rows.find? fun r => owner r = user && key r = id).map f ∧
    ∀ user' id', (user', id') ≠ (user, id) →
      (saved.find? fun r => owner r = user' && key r = id') =
        rows.find? fun r => owner r = user' && key r = id' := by
  subst hsaved
  refine ⟨find?_updated (fun r => Bool.and_comm _ _) (fun r => by rw [(hf r).1, (hf r).2]) rows,
    fun user' id' hne => find?_not_updated (fun r hr => ?_) rows⟩
  simp only [Bool.and_eq_true, decide_eq_true_eq] at hr
  obtain ⟨rfl, rfl⟩ := hr
  rw [(hf r).1, (hf r).2, and_self, Bool.and_eq_false_iff, decide_eq_false_iff_not,
    decide_eq_false_iff_not]
  by_cases howner : owner r = user'
  · exact .inr fun hkey => hne (by rw [howner, hkey])
  · exact .inl howner

theorem saveFolderOn_saved {user id now out : Int} {name : String} {body : Json} {db : InboxDb}
    {ledger : Ledger} (hname : body.entry "name" = .str name)
    (h : saveFolderOn user (some id) name body now db.ledger = .ok (out, ledger)) :
    SavedAs ⟨.folder, user, id⟩ body db { db with ledger } := by
  simp only [saveFolderOn, Tx.bind_eq_ok, Tx.get_eq_ok, orFail_eq_ok, Tx.pure_eq_ok] at h
  obtain ⟨_, _, ⟨rfl, rfl⟩, _, _, ⟨-, rfl⟩, _, _, hp, slug, _, hslug, _, ledger, hu, -, rfl⟩ := h
  obtain rfl := checkNewParent_db hp
  obtain rfl := uniqueSlug_db hslug
  obtain ⟨folders, hupdate, rfl⟩ := updateFolders_eq_ok.mp hu
  obtain ⟨hrow, hothers⟩ := find?_saved Folder.userId Folder.id
    (Table.update_eq_some.mp hupdate).1 (fun _ => ⟨rfl, rfl⟩)
  refine ⟨fun old hold => ?_, fun t' hne => ?_⟩
  · obtain ⟨f, hf, rfl⟩ := Option.map_eq_some_iff.mp hold
    rw [show List.find? _ db.ledger.folders.rows = some f from hf, Option.map_some] at hrow
    refine ⟨_, congrArg (Option.map Folder.toJson) hrow, fun key hkey hne => ?_,
      fun _ s hs hne hlen hfree => ?_⟩
    · simp only [Catalog.columns, List.mem_cons, List.not_mem_nil, or_false] at hkey
      rcases hkey with rfl | rfl | rfl | rfl | rfl | rfl | rfl
      · rw [hname]
        rfl
      · exact absurd rfl hne
      all_goals rfl
    · rw [given_slug hs hne hlen] at hslug
      rw [uniqueSlug_of_free hlen hfree hslug]
      rfl
  · obtain ⟨kind, user', id'⟩ := t'
    cases kind with
    | folder =>
        exact congrArg (Option.map Folder.toJson)
          (hothers user' id' fun he => hne (by cases he; rfl))
    | category => rfl
    | rule => rfl

end

theorem saveCategoryOn_saved {user id now out : Int} {name : String} {body : Json}
    (hname : body.entry "name" = .str name)
    (h : saveCategoryOn user (some id) name body now db = .ok (out, db')) :
    SavedAs ⟨.category, user, id⟩ body db db' := by
  simp only [saveCategoryOn, Tx.bind_eq_ok, Tx.get_eq_ok, orElseFail_eq_ok, Tx.pure_eq_ok,
    Tx.ofExcept_eq_ok] at h
  obtain ⟨_, _, ⟨rfl, rfl⟩, _, _, ⟨-, rfl⟩, _, _, hp, _, _, hteam, _, _, ⟨rfl, rfl⟩, slug, _,
    ⟨hslug, rfl⟩, _, _, hu, -, rfl⟩ := h
  obtain rfl := checkCategoryParent_db hp
  obtain rfl := checkTeam_db hteam
  obtain ⟨-, table, hrows, rfl⟩ := TableIn.update_eq_ok.mp hu
  obtain ⟨hrow, hothers⟩ := find?_saved Category.ownerUserId Category.id
    hrows (fun _ => ⟨rfl, rfl⟩)
  refine ⟨fun old hold => ?_, fun t' hne => ?_⟩
  · obtain ⟨c, hc, rfl⟩ := Option.map_eq_some_iff.mp hold
    rw [show List.find? _ (InboxDb.categoryTable.read _).rows = some c from hc,
      Option.map_some] at hrow
    refine ⟨_, congrArg (Option.map Category.toJson) hrow, fun key hkey hne => ?_,
      fun _ s hs hne hlen hfree => ?_⟩
    · simp only [Catalog.columns, List.mem_cons, List.not_mem_nil, or_false] at hkey
      rcases hkey with rfl | rfl | rfl | rfl | rfl | rfl | rfl
      · rw [hname]
        rfl
      · exact absurd rfl hne
      all_goals rfl
    · rw [given_slug hs hne hlen] at hslug
      rw [firstFree_of_free hlen (Bool.eq_false_iff.mpr hfree) hslug]
      rfl
  · obtain ⟨kind, user', id'⟩ := t'
    cases kind with
    | category =>
        exact congrArg (Option.map Category.toJson)
          (hothers user' id' fun he => hne (by cases he; rfl))
    | folder => rfl
    | rule => rfl

omit [LinkPlatform] in
theorem listColumn_eq_ok {body : Json} {v : Option Json} (h : listColumn body key = .ok v) :
    Json.nullable v = body.entry key := by
  unfold listColumn at h
  split at h
  · rename_i he
    cases h
    exact he.symm
  · split at h
    · cases h
      rfl
    · cases h

omit [LinkPlatform] in
theorem saveRuleOn_saved {user id now out : Int} {name : String} {body : Json}
    (hname : body.entry "name" = .str name)
    (h : saveRuleOn user (some id) name body now db = .ok (out, db')) :
    SavedAs ⟨.rule, user, id⟩ body db db' := by
  simp only [saveRuleOn, Tx.bind_eq_ok, Tx.get_eq_ok, orElseFail_eq_ok] at h
  obtain ⟨_, _, ⟨rfl, rfl⟩, _, _, ⟨-, rfl⟩, h⟩ := h
  by_cases hplaced : ((body.entry "parent_id").asI64.isSome ||
    (body.entry "shared_with_team_id").asI64.isSome) = true
  · rw [if_pos hplaced] at h
    cases h
  rw [if_neg hplaced] at h
  simp only [Tx.bind_eq_ok, orElseFail_eq_ok, Tx.ofExcept_eq_ok, Tx.pure_eq_ok] at h
  obtain ⟨trigger, _, ⟨htrigger, rfl⟩, conditions, _, ⟨hconditions, rfl⟩, actions, _,
    ⟨hactions, rfl⟩, _, _, hu, -, rfl⟩ := h
  obtain ⟨-, table, hrows, rfl⟩ := TableIn.update_eq_ok.mp hu
  obtain ⟨hrow, hothers⟩ := find?_saved Rule.userId Rule.id
    hrows (fun _ => ⟨rfl, rfl⟩)
  refine ⟨fun old hold => ?_, fun t' hne => ?_⟩
  · obtain ⟨r, hr, rfl⟩ := Option.map_eq_some_iff.mp hold
    rw [show List.find? _ (InboxDb.ruleTable.read _).rows = some r from hr,
      Option.map_some] at hrow
    refine ⟨_, congrArg (Option.map Rule.toJson) hrow, fun key hkey _ => ?_,
      fun hrule => absurd rfl hrule⟩
    simp only [Catalog.columns, List.mem_cons, List.not_mem_nil, or_false] at hkey
    rcases hkey with rfl | rfl | rfl | rfl | rfl | rfl
    · rw [hname]
      rfl
    · rfl
    · rfl
    · show _ = optionalStr (body.entry "trigger").asStr
      rw [(Option.filter_eq_some_iff.mp htrigger).1]
      rfl
    · show Json.nullable conditions = _
      exact listColumn_eq_ok hconditions
    · show Json.nullable actions = _
      exact listColumn_eq_ok hactions
  · obtain ⟨kind, user', id'⟩ := t'
    cases kind with
    | rule =>
        exact congrArg (Option.map Rule.toJson)
          (hothers user' id' fun he => hne (by cases he; rfl))
    | category => rfl
    | folder => rfl

variable {call : SaveCall}

/-- A save writes the columns of its row, from the copy with the patch over it. -/
theorem commit_saved {copy : Json} {id : Int} (h : call.commit copy db = (.ok id, db')) :
    SavedAs call.target (merge copy call.patch) db db' := by
  obtain ⟨⟨kind, user, target⟩, input, patch, now, unlinked, valid⟩ := call
  simp only [SaveCall.commit] at h
  generalize hbody : merge copy patch = body at h ⊢
  cases hname : (body.entry "name").asStr.filter fun n => !n.isEmpty && n.length ≤ 128 with
  | none =>
      rw [hname] at h
      cases h
  | some name =>
      rw [hname] at h
      have hname : body.entry "name" = .str name := by
        have := (Option.filter_eq_some_iff.mp hname).1
        cases hv : body.entry "name" <;> simp_all [Json.asStr]
      cases kind with
      | category => exact saveCategoryOn_saved hname (Tx.auto_eq_ok.mp h)
      | rule => exact saveRuleOn_saved hname (Tx.auto_eq_ok.mp h)
      | folder =>
          obtain ⟨ledger, hsave, rfl⟩ := onLedger_eq_ok.mp (Tx.auto_eq_ok.mp h)
          exact saveFolderOn_saved hname hsave

/-! ## Undisturbed saves -/

section

omit [LinkPlatform]

theorem stored_slug {slug : String} (h : slug.length ≤ 64) :
    stored "slug" (.str slug) = .str slug := by
  show optionalStr (some (String.ofList (slug.toList.take 64))) = _
  rw [List.take_of_length_le (by simpa [String.length_toList] using h), String.ofList_toList]
  rfl

theorem stored_optionalStr (s : Option String) :
    optionalStr (optionalStr s).asStr = optionalStr s := by
  cases s <;> rfl

theorem stored_id {id : Option Int} (h : ∀ k, id = some k → (Json.int k).asI64 = some k) :
    Json.nullable ((Json.nullable (id.map .int)).asI64.map .int) =
      Json.nullable (id.map .int) := by
  cases id with
  | none => rfl
  | some k =>
      show Json.nullable ((Json.int k).asI64.map .int) = _
      rw [h k rfl]

/-- The columns of a row are read back as a save would write them. -/
theorem row_storable (hfits : db.Fits) {t : Target} {row : Json} (h : db.row? t = some row)
    (hkey : key ∈ t.kind.columns) : Storable key (row.entry key) := by
  obtain ⟨kind, user, target⟩ := t
  cases kind with
  | category =>
      obtain ⟨c, hc, rfl⟩ := Option.map_eq_some_iff.mp h
      have hmem := List.mem_of_find?_eq_some hc
      have hslug : c.slug.length ≤ 64 := by
        have := db.categories.checked c hmem
        simp only [categorySchema, Category.checks, List.all_cons, Bool.and_eq_true] at this
        exact of_decide_eq_true this.2.2.1
      simp only [Catalog.columns, List.mem_cons, List.not_mem_nil, or_false] at hkey
      rcases hkey with rfl | rfl | rfl | rfl | rfl | rfl | rfl
      · rfl
      · exact stored_slug hslug
      · exact stored_optionalStr c.icon
      · exact stored_optionalStr c.color
      · exact stored_optionalStr c.description
      · exact stored_id fun k hk => hfits.categories c hmem k (.inl hk)
      · exact stored_id fun k hk => hfits.categories c hmem k (.inr hk)
  | folder =>
      obtain ⟨f, hf, rfl⟩ := Option.map_eq_some_iff.mp h
      have hmem := List.mem_of_find?_eq_some hf
      have hcheck := db.ledger.folders.checked f hmem
      simp only [folderSchema, Folder.checks, List.all_cons, Bool.and_eq_true,
        decide_eq_true_eq, id] at hcheck
      simp only [Catalog.columns, List.mem_cons, List.not_mem_nil, or_false] at hkey
      rcases hkey with rfl | rfl | rfl | rfl | rfl | rfl | rfl
      · rfl
      · exact stored_slug hcheck.2.1
      · exact stored_optionalStr f.description
      · exact stored_optionalStr f.icon
      · exact stored_id fun k hk => hfits.folders f hmem k hk
      · rfl
      · exact stored_order (asI64_int.mpr (by omega))
  | rule =>
      obtain ⟨r, hr, rfl⟩ := Option.map_eq_some_iff.mp h
      have hcheck := db.rules.checked r (List.mem_of_find?_eq_some hr)
      simp only [ruleSchema, Rule.checks, List.all_cons, Bool.and_eq_true, decide_eq_true_eq,
        id] at hcheck
      simp only [Catalog.columns, List.mem_cons, List.not_mem_nil, or_false] at hkey
      rcases hkey with rfl | rfl | rfl | rfl | rfl | rfl
      · rfl
      · rfl
      · show Json.int ((Json.int r.priority).asI64.getD 100) = _
        rw [asI64_int.mpr (by omega : -2 ^ 63 ≤ r.priority ∧ r.priority ≤ 2 ^ 63 - 1)]
        rfl
      · rfl
      · rfl
      · rfl

end

/-- At its transaction the other columns are as the save read them, and its slug is free. -/
structure Undisturbed (call : SaveCall) (copy : Json) (db : InboxDb) : Prop where
  unnamed : ∀ row, db.row? call.target = some row → ∀ key ∈ call.target.kind.columns,
    call.patch.member? key = none → copy.entry key = row.entry key
  slug : call.target.kind ≠ .rule → ∃ slug, (merge copy call.patch).entry "slug" = .str slug ∧
    slug ≠ "" ∧ ¬ db.takenSlug call.target slug

theorem commit_kept {copy old : Json} {id : Int} (h : call.commit copy db = (.ok id, db'))
    (hfits : db.Fits) (hu : Undisturbed call copy db) (hold : db.row? call.target = some old)
    (hkey : key ∈ call.target.kind.columns) :
    ∃ new, db'.row? call.target = some new ∧
      new.entry key = (call.patch.member? key).getD (old.entry key) := by
  obtain ⟨new, hnew, hcolumns, hslug⟩ := (commit_saved h).row old hold
  refine ⟨new, hnew, ?_⟩
  have hbody : (merge copy call.patch).entry key =
      (call.patch.member? key).getD (old.entry key) := by
    rw [call.body_entry]
    cases hpatch : call.patch.member? key with
    | none => exact hu.unnamed old hold key hkey hpatch
    | some v => rfl
  have hstorable : Storable key ((merge copy call.patch).entry key) := by
    rw [hbody]
    cases hpatch : call.patch.member? key with
    | none => exact row_storable hfits hold hkey
    | some v => exact call.storable hpatch
  rw [← hbody]
  by_cases hs : key = "slug"
  · subst hs
    have hrule : call.target.kind ≠ .rule := by
      rintro he
      rw [he] at hkey
      simp [Catalog.columns] at hkey
    obtain ⟨slug, hgiven, hne, hfree⟩ := hu.slug hrule
    rw [hgiven] at hstorable ⊢
    refine hslug hrule slug hgiven hne ?_ hfree
    have hcut : String.ofList (slug.toList.take 64) = slug := Json.str.inj hstorable
    rw [← hcut, String.length_ofList]
    exact List.length_take_le _ _
  · exact (hcolumns key hkey hs).trans hstorable

/-- A step in which the row stays, and a save of the row is not disturbed. -/
structure QuietStep (t : Target) (s : EditState) (e : EditEvent) (u : EditState) : Prop where
  step : EditStep s e u
  there : (u.db.row? t).isSome
  undisturbed : ∀ k call copy, e = .save k call → call.target = t →
    s.calls[k]? = some (call, .read copy) → Undisturbed call copy s.db

theorem QuietStep.column {t : Target} {s u : EditState} {e : EditEvent} {old new : Json}
    (h : QuietStep t s e u) (hold : s.db.row? t = some old) (hnew : u.db.row? t = some new)
    (hkey : key ∈ t.kind.columns) : new.entry key = (e.named t key).getD (old.entry key) := by
  cases h.step with
  | enter | look | read => rw [Option.some.inj (hnew.symm.trans hold)]; rfl
  | @save k call copy id db fits turn commits =>
      by_cases ht : call.target = t
      · subst ht
        obtain ⟨new', hnew', hcolumn⟩ := commit_kept commits s.fits
          (h.undisturbed k call copy rfl rfl turn) hold hkey
        rw [Option.some.inj (hnew.symm.trans hnew'), hcolumn]
        simp only [EditEvent.named, if_true]
      · have := (commit_saved commits).others t (Ne.symm ht)
        rw [Option.some.inj (hnew.symm.trans (this.trans hold))]
        simp only [EditEvent.named, if_neg ht, Option.getD_none]
  | write =>
      simp only [EditEvent.named, InboxDb.changes, hold, hnew]
      split
      · assumption
      · rfl

/-- **Edits of a row are kept.** As long as no save of the row is disturbed, each column
holds what was last written to it, and its first value when nothing was. -/
theorem edits_kept {t : Target} {s u : EditState} {es : List EditEvent} {old new : Json}
    {key : String} (h : Run (QuietStep t) s es u) (hold : s.db.row? t = some old)
    (hnew : u.db.row? t = some new) (hkey : key ∈ t.kind.columns) :
    new.entry key = ((es.filterMap (·.named t key)).getLast?).getD (old.entry key) := by
  induction h generalizing new with
  | nil => rw [Option.some.inj (hnew.symm.trans hold)]; rfl
  | @snoc es m u e hrun hstep ih =>
      obtain ⟨mid, hmid⟩ : ∃ mid, m.db.row? t = some mid := by
        cases hrun with
        | nil => exact ⟨old, hold⟩
        | snoc _ hlast => exact Option.isSome_iff_exists.mp hlast.there
      rw [hstep.column hmid hnew hkey, ih hmid]
      cases hnamed : e.named t key with
      | none => simp [hnamed]
      | some v => simp [hnamed]

end

section

attribute [local instance] asciiLinks

/-- A folder of user 1. -/
def shelf : InboxDb where
  items := .empty _
  categories := .empty _
  itemCategories := .empty _
  itemStars := .empty _
  rules := .empty _
  jobs := .empty _
  notifications := .empty _
  syncStates := .empty _
  ledger := ⟨⟨[⟨1, 1, "old", "old", none, none, none, 0, none, none, false, 0⟩], by decide,
    by decide⟩, .empty _, .empty _, .empty _, 1, 0⟩
  teamMembers := []
  lastItem := 0
  lastCategory := 0
  lastRule := 0
  lastJob := 0
  lastSequence := 0

def onShelf : Target := ⟨.folder, 1, 1⟩

def renamed : SaveCall :=
  ⟨onShelf, .obj [("name", .str "Reading")], .obj [("name", .str "Reading")], 1, by decide, rfl⟩

def described : SaveCall :=
  ⟨onShelf, .obj [("description", .str "Later")], .obj [("description", .str "Later")], 1,
    by decide, rfl⟩

/-- The folder as it is read. -/
def shelfCopy : Json := ((shelf.row? onShelf).getD .null)

theorem shelf_fits : shelf.Fits where
  folders f hf := by
    obtain rfl := List.mem_singleton.mp hf
    exact fun _ h => nomatch h
  categories _ hc := nomatch hc

/-- The state that a save leaves behind. -/
def saveOn (call : SaveCall) (copy : Json) (db : InboxDb) : InboxDb := (call.commit copy db).2

theorem saves {s : EditState} {k : Nat} (call : SaveCall) (copy : Json) (id : Int)
    (fits : (saveOn call copy s.db).Fits) (turn : s.calls[k]? = some (call, .read copy))
    (h : (call.commit copy s.db).1.toOption = some id) :
    EditStep s (.save k call)
      ⟨saveOn call copy s.db, fits, s.calls.set k (call, .saved)⟩ := by
  have commits : call.commit copy s.db = (.ok id, saveOn call copy s.db) := by
    refine Prod.ext ?_ rfl
    show (call.commit copy s.db).1 = .ok id
    cases hr : (call.commit copy s.db).1 with
    | error e => rw [hr] at h; cases h
    | ok k => rw [hr] at h; exact congrArg _ (Option.some.inj h)
  exact .save turn commits

theorem fits_of {db : InboxDb} (hcategories : db.categories.rows = [])
    (h : (db.ledger.folders.rows.all fun f => f.parentId = none) = true) : db.Fits where
  folders f hf p hp := by
    have := List.all_eq_true.mp h f hf
    simp [hp] at this
  categories c hc := by
    rw [hcategories] at hc
    exact nomatch hc

/-- Both saves read the folder before either is committed. -/
def lostEvents : List EditEvent := [.enter renamed, .enter described, .look 0, .look 1, .read 0,
  .read 1, .save 0 renamed, .save 1 described]

def lostState : EditState where
  db := saveOn described shelfCopy (saveOn renamed shelfCopy shelf)
  fits := fits_of rfl (by decide +kernel)
  calls := [(renamed, .saved), (described, .saved)]

/-- A save that is read before another one is committed takes its column back. -/
theorem concurrent_save_lost :
    Run EditStep ⟨shelf, shelf_fits, []⟩ lostEvents lostState ∧
    lostEvents.filterMap (·.named onShelf "name") = [.str "Reading"] ∧
    lostEvents.filterMap (·.named onShelf "description") = [.str "Later"] ∧
    (lostState.db.row? onShelf).map (·.entry "name") = some (.str "old") := by
  refine ⟨?_, by decide +kernel, by decide +kernel, by decide +kernel⟩
  have start : Run EditStep ⟨shelf, shelf_fits, []⟩ [] _ := .nil
  have entered := (start.snoc (show EditStep _ (.enter renamed) _ from .enter)).snoc
    (show EditStep _ (.enter described) _ from .enter)
  have looked := (entered.snoc (.look (k := 0) rfl fun _ => by decide +kernel)).snoc
    (.look (k := 1) rfl fun _ => by decide +kernel)
  have copied := (looked.snoc (.read (k := 0) rfl (show _ = Except.ok shelfCopy from rfl))).snoc
    (.read (k := 1) rfl (show _ = Except.ok shelfCopy from rfl))
  have named := copied.snoc (saves (k := 0) renamed shelfCopy 1
    (fits_of rfl (by decide +kernel)) rfl (by decide +kernel))
  exact named.snoc (saves (k := 1) described shelfCopy 1 _ rfl (by decide +kernel))

/-- One save by itself keeps the description, and names the folder. -/
theorem edits_kept_alone :
    ((((saveOn renamed shelfCopy shelf).row? onShelf).getD .null).entry "name" =
      .str "Reading") := by
  have start : Run (QuietStep onShelf) ⟨shelf, shelf_fits, []⟩ [] _ := .nil
  have entered := start.snoc
    ⟨show EditStep _ (.enter renamed) _ from .enter, rfl, fun _ _ _ h => nomatch h⟩
  have looked := entered.snoc
    ⟨.look (k := 0) rfl fun _ => by decide +kernel, rfl, fun _ _ _ h => nomatch h⟩
  have copied := looked.snoc
    ⟨.read (k := 0) rfl (show _ = Except.ok shelfCopy from rfl), rfl, fun _ _ _ h => nomatch h⟩
  have named := copied.snoc ⟨saves (k := 0) renamed shelfCopy 1
    (fits_of rfl (by decide +kernel)) rfl (by decide +kernel), rfl, fun k call copy he _ turn => by
      obtain ⟨rfl, rfl⟩ := EditEvent.save.inj he
      obtain rfl : shelfCopy = copy := by
        cases turn
        rfl
      refine ⟨fun row hrow key _ _ => ?_, fun _ => ⟨"old", rfl, by decide, ?_⟩⟩
      · rw [← Option.some.inj hrow]
        rfl
      · rintro ⟨f, hf, -, -, hid⟩
        obtain rfl := List.mem_singleton.mp hf
        exact hid rfl⟩
  exact edits_kept named rfl rfl (show "name" ∈ onShelf.kind.columns by decide)

end

end YoinkCore.Inbox
