import YoinkCore.Inbox.Coordinator

/-!
# What the callers of the ledger ask

Each caller by itself, with whatever it is answered: a send is admitted for an intent it
read as prepared, and a result is confirmed on evidence. The send was accepted, or the
desired effect was observed after the intent was read as sent, or a list that was found
after that is adopted.
-/

namespace YoinkCore.Inbox

open Lib Asking
open Storage (Uuid)

abbrev Heard := List (Answered Question.Answer)

/-- The answer was heard, and `rest` after it. -/
def Since (heard : Heard) (q : Question) (a : q.Answer) (rest : Heard) : Prop :=
  ∃ before, heard = before ++ ⟨q, a⟩ :: rest

variable {request : Mutation} {heard rest : Heard}

theorem Since.mem {q : Question} {a : q.Answer} (h : Since heard q a rest) :
    (⟨q, a⟩ : Answered Question.Answer) ∈ heard := by
  obtain ⟨before, rfl⟩ := h
  exact List.mem_append_right _ List.mem_cons_self

theorem Since.append {q : Question} {a : q.Answer} (h : Since heard q a rest) (l : Heard) :
    Since (heard ++ l) q a (rest ++ l) := by
  obtain ⟨before, rfl⟩ := h
  exact ⟨before, by simp⟩

theorem Since.last {q : Question} {a : q.Answer} : Since (heard ++ [⟨q, a⟩]) q a [] := ⟨heard, rfl⟩

/-! ## Evidence -/

/-- The write that a request sends. -/
inductive SendsCall (token : String) (prepared : Json) : Mutation → GithubCall → Prop
  | createList {body : Json} {name : String} (named : text body "name" = .ok name) :
      SendsCall token prepared (.createList body)
        (.createUserList token name ((body.entry "description").asStr.getD ""))
  | editList {folder : Int} {body : Json} {list name : String}
      (named : (body.entry "name").asStr = some name)
      (linked : text prepared "list_id" = .ok list) :
      SendsCall token prepared (.editList folder body) (.updateUserList token list name)
  | deleteList {folder : Int} {list : String} (linked : text prepared "list_id" = .ok list) :
      SendsCall token prepared (.deleteList folder) (.deleteUserList token list)
  | membership {folder repo : Int} {add : Bool} {node : String} {ids : List String}
      (noded : text prepared "node_id" = .ok node)
      (desired : strings (prepared.entry "desired_ids") = some ids) :
      SendsCall token prepared (.membership folder repo add)
        (.updateUserListsForItem token node ids)
  | star {repo : Int} {add : Bool} {owner name : String}
      (owned : text prepared "owner" = .ok owner) (named : text prepared "repo" = .ok name) :
      SendsCall token prepared (.star repo add) (.star token owner name add)

/-- The answer shows the effect of the write. -/
inductive Shows : (c : GithubCall) → c.Answer → Json → Prop
  | createUserList {token name description : String} {d list : Json}
      (given : (d.entry "createUserList").member? "list" = some list)
      (identified : (list.entry "id").asStr.any (!·.isEmpty) = true) :
      Shows (.createUserList token name description) d list
  | updateUserList {token id name : String} {d : Json}
      (same : ((d.entry "updateUserList").entry "list").entry "id" = .str id) :
      Shows (.updateUserList token id name) d (.obj [])
  | deleteUserList {token id : String} {d : Json}
      (given : (d.entry "deleteUserList").asObj.isSome = true) :
      Shows (.deleteUserList token id) d (.obj [])
  | updateUserListsForItem {token node : String} {ids : List String} {d : Json}
      (same : ((d.entry "updateUserListsForItem").entry "item").entry "id" = .str node) :
      Shows (.updateUserListsForItem token node ids) d (.obj [])
  | star {token owner repo : String} {add : Bool} :
      Shows (.star token owner repo add) () (.obj [])

/-- The send was accepted: the write was answered next, and its answer shows the effect.
An edit that keeps the name has nothing to write. -/
def Accepted (request : Mutation) (prepared result : Json) (rest : Heard) : Prop :=
  (∃ folder body, request = .editList folder body ∧ (body.entry "name").asStr = none ∧
    result = .obj []) ∨
  ∃ token c d after, SendsCall token prepared request c ∧ Shows c d result ∧
    rest = ⟨.github c, .ok d⟩ :: after

/-- GitHub was seen to be as the request wants it. -/
inductive Observed (prepared : Json) (heard : Heard) : Mutation → Prop
  | editList {folder : Int} {body : Json} {token list : String} {d : Json}
      (linked : text prepared "list_id" = .ok list)
      (read : ⟨.github (.userList token list), .ok d⟩ ∈ heard)
      (shown : ((body.entry "name").asStr.all fun n => (d.entry "node").entry "name" = .str n) =
        true) : Observed prepared heard (.editList folder body)
  | deleteList {folder : Int} {token : String} {catalog : List ListSnapshot}
      (read : ⟨.github (.catalogue token), .ok catalog⟩ ∈ heard)
      (shown : (catalog.any fun l => some l.id = (prepared.entry "list_id").asStr) = false) :
      Observed prepared heard (.deleteList folder)
  | membership {folder repo : Int} {add : Bool} {token node : String} {ids : List String}
      (noded : text prepared "node_id" = .ok node)
      (read : ⟨.github (.membershipIds token node), .ok ids⟩ ∈ heard)
      (shown : (ids.any fun i => some i = (prepared.entry "list_id").asStr) = add) :
      Observed prepared heard (.membership folder repo add)
  | star {repo : Int} {add starred : Bool} {token owner name : String}
      (owned : text prepared "owner" = .ok owner) (named : text prepared "repo" = .ok name)
      (read : ⟨.github (.isStarred token owner name), .ok starred⟩ ∈ heard)
      (shown : starred = add) : Observed prepared heard (.star repo add)

/-- Why a caller confirms a result. -/
inductive Evidence (heard : Heard) (user : Int) : Uuid → Json → Prop
  | sent {intent : Intent} {id : Uuid} {prepared result : Json} {now : Int} {rest : Heard}
      (read : ⟨.store (.mutation user id), .ok intent⟩ ∈ heard)
      (begun : Since heard (.store (.beginMutationSend intent prepared now)) (.ok true) rest)
      (accepted : Accepted intent.request prepared result rest) :
      Evidence heard user intent.id result
  | observed {intent : Intent} {id : Uuid} {prepared : Json} {rest : Heard}
      (read : Since heard (.store (.mutation user id)) (.ok intent) rest)
      (inFlight : intent.inFlight = true) (hprepared : intent.prepared = some prepared)
      (shown : Observed prepared rest intent.request) : Evidence heard user id (.obj [])
  | adopted {intent : Intent} {id : Uuid} {body prepared : Json} {baseline : List String}
      {token : String} {catalog : List ListSnapshot} {l : ListSnapshot} {rest : Heard}
      (read : Since heard (.store (.mutation user id)) (.ok intent) rest)
      (create : intent.request = .createList body) (inFlight : intent.inFlight = true)
      (hprepared : intent.prepared = some prepared)
      (before : strings (prepared.entry "baseline") = some baseline)
      (listed : ⟨.github (.catalogue token), .ok catalog⟩ ∈ rest) (mem : l ∈ catalog)
      (new : l.id ∉ baseline) (named : some l.name = (body.entry "name").asStr) :
      Evidence heard user id l.toJson

theorem Accepted.append {prepared result : Json} (h : Accepted request prepared result rest)
    (l : Heard) : Accepted request prepared result (rest ++ l) := by
  rcases h with h | ⟨token, c, d, after, hsend, hshows, rfl⟩
  · exact .inl h
  · exact .inr ⟨token, c, d, after ++ l, hsend, hshows, rfl⟩

theorem Observed.append {prepared : Json} (h : Observed prepared rest request) (l : Heard) :
    Observed prepared (rest ++ l) request := by
  cases h with
  | editList linked read shown => exact .editList linked (List.mem_append_left l read) shown
  | deleteList read shown => exact .deleteList (List.mem_append_left l read) shown
  | membership noded read shown => exact .membership noded (List.mem_append_left l read) shown
  | star owned named read shown => exact .star owned named (List.mem_append_left l read) shown

theorem Evidence.append {user : Int} {id : Uuid} {result : Json}
    (h : Evidence heard user id result) (l : Heard) : Evidence (heard ++ l) user id result := by
  cases h with
  | sent read begun accepted =>
      exact .sent (List.mem_append_left l read) (begun.append l) (accepted.append l)
  | observed read inFlight hprepared shown =>
      exact .observed (read.append l) inFlight hprepared (shown.append l)
  | adopted read create inFlight hprepared before listed mem new named =>
      exact .adopted (read.append l) create inFlight hprepared before
        (List.mem_append_left l listed) mem new named

/-- A send is admitted for an intent that was read as prepared, with its document, to which
the preflight adds what it read. -/
def Begins (heard : Heard) (intent : Intent) (prepared : Json) : Prop :=
  ∃ user id p, ⟨.store (.mutation user id), .ok intent⟩ ∈ heard ∧ intent.state = .prepared ∧
    intent.prepared = some p ∧ (prepared = p ∨ ∃ v, prepared = p.withEntry "baseline" v ∨
      prepared = p.withEntry "desired_ids" v)

/-- What a caller asks, whose requests satisfy `P`. -/
def Asks (P : Mutation → Prop) (heard : Heard) : Question → Prop
  | .store (.prepareMutation _ request _ _) => P request
  | .store (.beginMutationSend intent prepared _) => Begins heard intent prepared
  | .store (.confirmMutation user id result _) => Evidence heard user id result
  | _ => True

/-! ## Rules -/

section

variable {C : Heard → Question → Prop} {heard : Heard} {α β : Type}
  {R : Heard → Except Error β → Prop}

/-- A program of which nothing is known at its end. -/
abbrev Quiet (C : Heard → Question → Prop) (heard : Heard) (x : Call α) : Prop :=
  Keeps C (fun _ _ => True) heard x.run

theorem keeps_then {x : Call α} {f : α → Call β} (hx : Quiet C heard x)
    (hok : ∀ l a, Keeps C R (heard ++ l) (f a).run)
    (herror : ∀ l e, R (heard ++ l) (.error e)) : Keeps C R heard (x >>= f).run :=
  Failing.keeps_seq hx (fun l a _ => hok l a) fun l e _ => herror l e

theorem keeps_store {c : StoreCall} {f : c.Answer → Call β} (hc : C heard (.store c))
    (hok : ∀ a, Keeps C R (heard ++ [⟨.store c, .ok a⟩]) (f a).run)
    (herror : ∀ e, R (heard ++ [⟨.store c, .error e⟩]) (.error e)) :
    Keeps C R heard (store c >>= f).run := by
  refine Failing.keeps_bind.mpr ⟨hc, fun a => ?_⟩
  cases a with
  | ok a => exact hok a
  | error e => exact herror e

theorem keeps_github {c : GithubCall} {f : c.Answer → Call β} (hc : C heard (.github c))
    (hok : ∀ d, Keeps C R (heard ++ [⟨.github c, .ok d⟩]) (f d).run)
    (herror : ∀ e, R (heard ++ [⟨.github c, .error e⟩]) (.error e)) :
    Keeps C R heard (github c >>= f).run := by
  refine Failing.keeps_bind.mpr ⟨hc, fun a => ?_⟩
  cases a with
  | ok a => exact hok a
  | error e => exact herror e

theorem keeps_clock {f : Int → Call β} (hc : C heard .clock)
    (hok : ∀ now : Int, Keeps C R (heard ++ [⟨.clock, now⟩]) (f now).run) :
    Keeps C R heard (clock >>= f).run :=
  Failing.keeps_bind.mpr ⟨hc, hok⟩

theorem keeps_check {x : Except Error α} {f : α → Call β}
    (hok : ∀ a, x = .ok a → Keeps C R heard (f a).run)
    (herror : ∀ e, x = .error e → R heard (.error e)) :
    Keeps C R heard (check x >>= f).run := by
  refine Failing.keeps_bind.mpr ?_
  cases x with
  | ok a => exact hok a rfl
  | error e => exact herror e rfl

/-- A guard of a program. -/
theorem keeps_guard {c : Prop} [Decidable c] {e : Error} {k : PUnit → Call β}
    (hok : Keeps C R heard (k ⟨⟩).run) (herror : R heard (.error e)) :
    Keeps C R heard (if c then throw e >>= k else k ⟨⟩).run := by
  split
  · exact herror
  · exact hok

theorem keeps_map {x : Call α} {g : α → β} (hx : Quiet C heard x) :
    Quiet C heard (g <$> x) := by
  have h : (g <$> x).run = x.run >>= fun r => pure (g <$> r) := by
    refine congrArg (Asking.bind x.run) (funext fun r => ?_)
    cases r <;> rfl
  unfold Quiet
  rw [h, keeps_bind]
  exact hx.mono fun _ _ _ => trivial

theorem keeps_attempt {p : Call α} {R : Heard → Except Error (Except Error α) → Prop} :
    Keeps C R heard (attempt p).run ↔ Keeps C (fun heard r => R heard (.ok r)) heard p.run := by
  have h : (attempt p).run = p.run >>= fun r => pure (.ok r) := rfl
  rw [h, keeps_bind]
  exact Iff.rfl

end

/-! ## Programs -/

section

variable {P : Mutation → Prop} {heard : Heard} {user : Int} {id : Uuid}

theorem authorize_keeps : Quiet (Asks P) heard (authorize user) := by
  unfold authorize
  refine keeps_then ⟨trivial, fun _ => trivial⟩ (fun l _ => ?_) fun _ _ => trivial
  refine keeps_then ⟨trivial, fun _ => trivial⟩ (fun l _ => ?_) fun _ _ => trivial
  exact keeps_then ⟨trivial, fun _ => trivial⟩ (fun l _ => trivial) fun _ _ => trivial

theorem applied_keeps : Quiet (Asks P) heard (applied user id) := by
  refine keeps_clock trivial fun now => ?_
  exact keeps_store trivial (fun _ => ⟨trivial, fun _ => trivial⟩) fun _ => trivial

/-- What is observed was read while observing. -/
theorem observe_keeps {token : String} {prepared : Json} :
    Keeps (Asks P) (fun h r => r = .ok true → ∃ rest, h = heard ++ rest ∧
      Observed prepared rest request) heard (observe token request prepared).run := by
  have herror : ∀ {h : Heard} {e : Error}, (.error e : Except Error Bool) = .ok true →
      ∃ rest, h = heard ++ rest ∧ Observed prepared rest request := by
    intro h e he
    cases he
  cases request with
  | createList body => exact fun h => by cases h
  | editList folder body =>
      refine keeps_check (fun list hlist => ?_) fun _ _ => herror
      refine keeps_github trivial (fun d hshown => ?_) fun _ => herror
      exact ⟨_, rfl, .editList hlist List.mem_cons_self (Except.ok.inj hshown)⟩
  | deleteList folder =>
      refine keeps_github trivial (fun catalog hshown => ?_) fun _ => herror
      refine ⟨_, rfl, .deleteList List.mem_cons_self ?_⟩
      simpa using Except.ok.inj hshown
  | membership folder repo add =>
      refine keeps_check (fun node hnode => ?_) fun _ _ => herror
      refine keeps_github trivial (fun ids hshown => ?_) fun _ => herror
      refine ⟨_, rfl, .membership hnode List.mem_cons_self ?_⟩
      simpa using Except.ok.inj hshown
  | star repo add =>
      refine keeps_check (fun owner howner => ?_) fun _ _ => herror
      refine keeps_check (fun name hname => ?_) fun _ _ => herror
      refine keeps_github trivial (fun starred hshown => ?_) fun _ => herror
      refine ⟨_, rfl, .star howner hname List.mem_cons_self ?_⟩
      simpa using Except.ok.inj hshown

/-- What the preflight adds to the document. -/
theorem preflight_keeps {token : String} {prepared : Json} :
    Keeps (Asks P) (fun _ r => ∀ q, r = .ok q → q = prepared ∨
      ∃ v, q = prepared.withEntry "baseline" v ∨ q = prepared.withEntry "desired_ids" v)
      heard (preflight token request prepared).run := by
  have herror : ∀ {e : Error} (q : Json), (.error e : Except Error Json) = .ok q →
      q = prepared ∨ ∃ v, q = prepared.withEntry "baseline" v ∨
        q = prepared.withEntry "desired_ids" v := by
    intro e q h
    cases h
  cases request with
  | createList body =>
      refine keeps_github trivial (fun catalog q hq => ?_) fun _ => herror
      exact .inr ⟨_, .inl (Except.ok.inj hq).symm⟩
  | membership folder repo add =>
      refine keeps_check (fun node _ => ?_) fun _ _ => herror
      refine keeps_github trivial (fun ids => ?_) fun _ => herror
      refine keeps_check (fun target _ q hq => ?_) fun _ _ => herror
      exact .inr ⟨_, .inr (Except.ok.inj hq).symm⟩
  | editList folder body => exact fun q hq => .inl (Except.ok.inj hq).symm
  | deleteList folder | star repo add => exact fun q hq => .inl (Except.ok.inj hq).symm

/-! ## Sends -/

theorem createList_keeps {token name description : String} :
    Keeps (Asks P) (fun h r => ∀ list, r = .ok list → ∃ d,
      h = heard ++ [⟨.github (.createUserList token name description), .ok d⟩] ∧
        Shows (.createUserList token name description) d list)
      heard (createList token name description).run := by
  have herror : ∀ {h : Heard} {e : Error} (list : Json),
      (.error e : Except Error Json) = .ok list → ∃ d,
        h = heard ++ [⟨.github (.createUserList token name description), .ok d⟩] ∧
          Shows (.createUserList token name description) d list := by
    intro h e list he
    cases he
  refine keeps_github trivial (fun d => ?_) fun _ => herror
  refine keeps_check (fun list hlist => ?_) fun _ _ => herror
  refine keeps_check (fun _ hexpect => ?_) fun _ _ => herror
  intro result hresult
  obtain rfl := Except.ok.inj hresult
  refine ⟨d, rfl, .createUserList ?_ ?_⟩
  · generalize (d.entry "createUserList").member? "list" = given at hlist ⊢
    cases given with
    | none => cases hlist
    | some given => exact congrArg some (Except.ok.inj hlist)
  · split at hexpect
    · rename_i hall
      simp only [Bool.and_eq_true] at hall
      exact hall.1.1
    · cases hexpect

/-- A write of which only its effect is expected. -/
theorem expected_keeps {c : GithubCall} {holds : c.Answer → Bool} {result : Json}
    (hc : ∀ {heard}, Asks P heard (.github c)) (hshows : ∀ d, holds d = true → Shows c d result) :
    Keeps (Asks P) (fun h r => ∀ q, r = .ok q → ∃ d,
      h = heard ++ [⟨.github c, .ok d⟩] ∧ Shows c d q)
      heard (do
        let d ← github c
        expect (holds d)
        return result : Call Json).run := by
  have herror : ∀ {h : Heard} {e : Error} (q : Json), (.error e : Except Error Json) = .ok q →
      ∃ d, h = heard ++ [⟨.github c, .ok d⟩] ∧ Shows c d q := by
    intro h e q he
    cases he
  refine keeps_github hc (fun d => ?_) fun _ => herror
  refine keeps_check (fun _ hexpect => ?_) fun _ _ => herror
  intro q hq
  obtain rfl := Except.ok.inj hq
  refine ⟨d, rfl, hshows d ?_⟩
  split at hexpect
  · assumption
  · cases hexpect

/-- A send that succeeds was accepted. -/
theorem send_keeps {token : String} {prepared : Json} :
    Keeps (Asks P) (fun h r => ∀ result, r = .ok (.ok result) → ∃ rest, h = heard ++ rest ∧
      Accepted request prepared result rest) heard (send token request prepared).run := by
  have herror : ∀ {h : Heard} {e : Error} (result : Json),
      (.error e : Except Error (Except Error Json)) = .ok (.ok result) →
        ∃ rest, h = heard ++ rest ∧ Accepted request prepared result rest := by
    intro h e result he
    cases he
  have hwrite : ∀ {c : GithubCall} {p : Call Json}, SendsCall token prepared request c →
      Keeps (Asks P) (fun h r => ∀ q, r = .ok q → ∃ d,
        h = heard ++ [⟨.github c, .ok d⟩] ∧ Shows c d q) heard p.run →
      Keeps (Asks P) (fun h r => ∀ result, r = .ok (.ok result) → ∃ rest, h = heard ++ rest ∧
        Accepted request prepared result rest) heard (attempt p).run := by
    intro c p hsends hp
    refine keeps_attempt.mpr (hp.mono fun l r hr result hresult => ?_)
    obtain ⟨d, hheard, hshows⟩ := hr result (Except.ok.inj hresult)
    exact ⟨_, hheard, .inr ⟨token, c, d, [], hsends, hshows, rfl⟩⟩
  cases request with
  | createList body =>
      refine keeps_check (fun name hname => ?_) fun _ _ => herror
      exact hwrite (.createList hname) createList_keeps
  | editList folder body =>
      simp only [send]
      cases hname : (body.entry "name").asStr with
      | none =>
          intro result hresult
          obtain rfl := Except.ok.inj (Except.ok.inj hresult)
          exact ⟨[], (List.append_nil _).symm, .inl ⟨folder, body, rfl, hname, rfl⟩⟩
      | some name =>
          refine keeps_check (fun list hlist => ?_) fun _ _ => herror
          refine hwrite (.editList hname hlist) (expected_keeps (fun {_} => trivial) fun d h => ?_)
          exact .updateUserList (of_decide_eq_true h)
  | deleteList folder =>
      refine keeps_check (fun list hlist => ?_) fun _ _ => herror
      refine hwrite (.deleteList hlist) (expected_keeps (fun {_} => trivial) fun d h => ?_)
      exact .deleteUserList h
  | membership folder repo add =>
      refine keeps_check (fun ids hids => ?_) fun _ _ => herror
      refine keeps_check (fun node hnode => ?_) fun _ _ => herror
      refine hwrite (.membership hnode ?_) (expected_keeps (fun {_} => trivial) fun d h => ?_)
      · generalize strings (prepared.entry "desired_ids") = desired at hids ⊢
        cases desired with
        | none => cases hids
        | some desired => exact congrArg some (Except.ok.inj hids)
      · exact .updateUserListsForItem (of_decide_eq_true h)
  | star repo add =>
      refine keeps_check (fun owner howner => ?_) fun _ _ => herror
      refine keeps_check (fun name hname => ?_) fun _ _ => herror
      refine hwrite (.star howner hname) ?_
      have hnone : ∀ {h : Heard} {e : Error} (q : Json), (.error e : Except Error Json) = .ok q →
          ∃ d, h = heard ++ [⟨.github (.star token owner name add), .ok d⟩] ∧
            Shows (.star token owner name add) d q := by
        intro h e q he
        cases he
      refine keeps_github trivial (fun d q hq => ?_) fun _ => hnone
      obtain rfl := Except.ok.inj hq
      exact ⟨d, rfl, .star⟩

/-! ## The coordinator -/

/-- What follows a send confirms on its evidence. -/
theorem settle_keeps {outcome : Except Error Json}
    (h : ∀ result, outcome = .ok result → Evidence heard user id result) :
    Quiet (Asks P) heard (settle user id outcome) := by
  cases outcome with
  | ok result =>
      refine keeps_clock trivial fun now => ?_
      refine keeps_store ((h result rfl).append _) (fun _ => ?_) fun _ => trivial
      exact applied_keeps
  | error e =>
      simp only [settle]
      cases hrejection : rejection e with
      | some code =>
          refine keeps_clock trivial fun now => ?_
          exact keeps_store trivial (fun _ => trivial) fun _ => trivial
      | none =>
          refine keeps_clock trivial fun now => ?_
          exact keeps_store trivial (fun _ => trivial) fun _ => trivial

theorem reconcile_keeps : Quiet (Asks P) heard (reconcile user id) := by
  refine keeps_then authorize_keeps (fun l token => ?_) fun _ _ => trivial
  refine keeps_store trivial (fun intent => ?_) fun _ => trivial
  have hflight : intent.inFlight = true → Quiet (Asks P)
      ((heard ++ l) ++ [⟨.store (.mutation user id), .ok intent⟩]) (do
        let prepared ← orElse .invalid intent.prepared
        if ← observe token intent.request prepared then
          store (.confirmMutation user id (.obj []) (← clock))
          applied user id
        else
          store (.unknownMutation user id (← clock))
          throw (.mutationPending id)) := by
    intro hflight
    refine keeps_check (fun prepared hprepared => ?_) fun _ _ => trivial
    refine Failing.keeps_seq observe_keeps (fun l' seen hseen => ?_) fun _ _ _ => trivial
    cases seen with
    | true =>
        obtain ⟨rest, hrest, hobserved⟩ := hseen rfl
        have hread : Since (((heard ++ l) ++ [⟨.store (.mutation user id), .ok intent⟩]) ++ l')
            (.store (.mutation user id)) (.ok intent) rest := ⟨heard ++ l, by
          rw [hrest, List.append_assoc, List.singleton_append]⟩
        have hp : intent.prepared = some prepared := by
          generalize intent.prepared = p at hprepared ⊢
          cases p with
          | none => cases hprepared
          | some p => exact congrArg some (Except.ok.inj hprepared)
        refine keeps_clock trivial fun now => ?_
        refine keeps_store ?_ (fun _ => applied_keeps) fun _ => trivial
        exact Evidence.append (.observed hread hflight hp hobserved) _
    | false =>
        refine keeps_clock trivial fun now => ?_
        exact keeps_store trivial (fun _ => trivial) fun _ => trivial
  cases hstate : intent.state with
  | confirmed => exact applied_keeps
  | applied | prepared | rejected => exact trivial
  | sending | unknown => exact hflight (by simp [Intent.inFlight, hstate])

theorem eq_some_of_elim {α : Type} {e : Error} {x : Option α} {a : α}
    (h : x.elim (.error e) .ok = (.ok a : Except Error α)) : x = some a := by
  cases x with
  | none => cases h
  | some b => exact congrArg some (Except.ok.inj h)

theorem sendPrepared_keeps {token : String} {intent : Intent}
    (hread : ⟨.store (.mutation user id), .ok intent⟩ ∈ heard)
    (hstate : intent.state = .prepared) :
    Quiet (Asks P) heard (sendPrepared user token intent) := by
  refine keeps_check (fun p hp => ?_) fun _ _ => trivial
  refine Failing.keeps_seq preflight_keeps (fun l prepared hprepared => ?_) fun _ _ _ => trivial
  refine keeps_then authorize_keeps (fun l' token => ?_) fun _ _ => trivial
  refine keeps_clock trivial fun now => ?_
  refine keeps_store ?_ (fun begun => ?_) fun _ => trivial
  · refine ⟨user, id, p, ?_, hstate, eq_some_of_elim hp, hprepared prepared rfl⟩
    exact List.mem_append_left _ (List.mem_append_left _ (List.mem_append_left _ hread))
  · cases begun with
    | false => exact trivial
    | true =>
        refine Failing.keeps_seq send_keeps (fun l'' outcome houtcome => ?_) fun _ _ _ => trivial
        refine settle_keeps fun result hresult => ?_
        obtain ⟨rest, hrest, haccepted⟩ := houtcome result (congrArg Except.ok hresult)
        obtain rfl := List.append_cancel_left hrest
        refine .sent (List.mem_append_left _ ?_ : (⟨.store (.mutation user id), .ok intent⟩ :
          Answered Question.Answer) ∈ _) (Since.last.append _) haccepted
        iterate 4 refine List.mem_append_left _ ?_
        exact hread

theorem drive_keeps : Quiet (Asks P) heard (drive user id) := by
  refine keeps_then authorize_keeps (fun l token => ?_) fun _ _ => trivial
  refine keeps_store trivial (fun intent => ?_) fun _ => trivial
  cases hstate : intent.state with
  | applied => exact trivial
  | confirmed => exact applied_keeps
  | sending | unknown => exact reconcile_keeps
  | rejected => exact trivial
  | prepared =>
      refine sendPrepared_keeps (List.mem_append_right _ List.mem_cons_self) hstate

theorem executeKeyed_keeps {key : Option String} (hP : P request) :
    Quiet (Asks P) heard (executeKeyed user request key) := by
  refine keeps_then authorize_keeps (fun l _ => ?_) fun _ _ => trivial
  refine keeps_clock trivial fun now => ?_
  refine keeps_then ?_ (fun l' intent => drive_keeps) fun _ _ => trivial
  exact keeps_store hP (fun id => ⟨trivial, fun _ => trivial⟩) fun _ => trivial

/-- A candidate was listed after the intent was read as sent. -/
theorem createCandidates_keeps :
    Keeps (Asks P) (fun h r => ∀ candidates, r = .ok candidates → ∀ l ∈ candidates,
      Evidence h user id l.toJson) heard (createCandidates user id).run := by
  have herror : ∀ {h : Heard} {e : Error} (candidates : List ListSnapshot),
      (.error e : Except Error (List ListSnapshot)) = .ok candidates →
        ∀ l ∈ candidates, Evidence h user id l.toJson := by
    intro h e candidates he
    cases he
  refine keeps_then authorize_keeps (fun l token => ?_) fun _ _ => herror
  refine keeps_store trivial (fun intent => ?_) fun _ => herror
  cases hrequest : intent.request with
  | createList body =>
      cases hflight : intent.inFlight with
      | false => exact herror
      | true =>
          refine keeps_check (fun prepared hp => ?_) fun _ _ => herror
          refine keeps_check (fun baseline hbaseline => ?_) fun _ _ => herror
          refine keeps_github trivial (fun catalog => ?_) fun _ => herror
          intro candidates hcandidates k hk
          obtain rfl := Except.ok.inj hcandidates
          obtain ⟨hmem, hk⟩ := List.mem_filter.mp hk
          simp only [Bool.and_eq_true, Bool.not_eq_true', List.contains_eq_mem,
            decide_eq_false_iff_not, decide_eq_true_eq] at hk
          refine .adopted (Since.last.append _) hrequest hflight (eq_some_of_elim hp)
            (eq_some_of_elim hbaseline) (List.mem_append_right _ List.mem_cons_self :
              (⟨.github (.catalogue token), .ok catalog⟩ : Answered Question.Answer) ∈ _)
            hmem hk.1.1 hk.1.2
  | editList folder body => exact herror
  | deleteList folder | membership folder repo add | star repo add => exact herror

theorem adoptCreate_keeps {remote : String} :
    Quiet (Asks P) heard (adoptCreate user id remote) := by
  refine Failing.keeps_seq createCandidates_keeps (fun l candidates hall => ?_)
    fun _ _ _ => trivial
  refine keeps_check (fun selected hselected => ?_) fun _ _ => trivial
  refine keeps_then authorize_keeps (fun l' _ => ?_) fun _ _ => trivial
  refine keeps_clock trivial fun now => ?_
  refine keeps_store ?_ (fun _ => applied_keeps) fun _ => trivial
  have hmem := List.mem_of_find?_eq_some (eq_some_of_elim hselected)
  exact ((hall candidates rfl selected hmem).append l').append _

/-! ## Routes -/

theorem catalogueOne_keeps {folder : Int} : Quiet (Asks P) heard (catalogueOne user folder) := by
  refine keeps_store trivial (fun pending => ?_) fun _ => trivial
  cases pending with
  | true => exact trivial
  | false => exact ⟨trivial, fun _ => trivial⟩

theorem saveCatalogue_keeps {folder : Option Int} {patch : Json} :
    Quiet (Asks P) heard (saveCatalogue user folder patch) := by
  have hrest : ∀ {heard : Heard} (now : Int) (body patch : Json), Quiet (Asks P) heard (do
      let name ← orElse .invalid
        (((merge body patch).entry "name").asStr.filter fun n => !n.isEmpty && n.length ≤ 128)
      let id ← store (.saveFolder user folder name (merge body patch) now)
      catalogueOne user id : Call Folder) := by
    intro heard now body patch
    refine keeps_check (fun name _ => ?_) fun _ _ => trivial
    exact keeps_store trivial (fun id => catalogueOne_keeps) fun _ => trivial
  refine keeps_clock trivial fun now => ?_
  refine keeps_guard ?_ trivial
  refine keeps_check (fun patch _ => ?_) fun _ _ => trivial
  cases folder with
  | none => exact hrest _ _ _
  | some id =>
      exact keeps_then (keeps_map catalogueOne_keeps) (fun l body => hrest _ _ _)
        fun _ _ => trivial

/-! ## Entries -/

/-- The requests of an entry satisfy `P`. -/
def Entry.Requests (P : Mutation → Prop) : Entry → Prop
  | createFolder _ _ _ => ∀ body, P (.createList body)
  | renameRemote _ folder body => ∀ patch, Validation.folderPatch body = .ok patch →
      P (.editList folder patch)
  | deleteRemote _ folder => P (.deleteList folder)
  | membership _ folder repo add => P (.membership folder repo add)
  | star _ repo add => P (.star repo add)
  | execute _ request _ => P request
  | _ => True

theorem ended_keeps {α : Type} {x : Call α} (h : Quiet (Asks P) heard x) :
    Keeps (Asks P) (fun _ _ => True) heard (ended x) :=
  keeps_bind.mpr (h.mono fun _ _ _ => trivial)

/-- **Every caller** asks what its requests let it ask. -/
theorem Entry.program_keeps {e : Entry} (h : e.Requests P) :
    Keeps (Asks P) (fun _ _ => True) heard e.program := by
  have hrequire : ∀ {heard : Heard} {user : Int} {feature : String},
      Quiet (Asks P) heard (require user feature) := ⟨trivial, fun _ => trivial⟩
  cases e with
  | createFolder user body key =>
      refine ended_keeps (keeps_then hrequire (fun l _ => ?_) fun _ _ => trivial)
      refine keeps_check (fun body _ => ?_) fun _ _ => trivial
      refine keeps_guard ?_ trivial
      split
      · exact saveCatalogue_keeps
      · refine keeps_check (fun key _ => ?_) fun _ _ => trivial
        refine keeps_check (fun key _ => ?_) fun _ _ => trivial
        refine keeps_then (executeKeyed_keeps (h _)) (fun l' intent => ?_) fun _ _ => trivial
        refine keeps_check (fun folder _ => ?_) fun _ _ => trivial
        exact catalogueOne_keeps
  | updateFolder user folder body | patchFolder user folder body =>
      refine ended_keeps (keeps_then hrequire (fun l _ => ?_) fun _ _ => trivial)
      exact keeps_check (fun body _ => saveCatalogue_keeps) fun _ _ => trivial
  | deleteFolder user folder =>
      refine ended_keeps (keeps_then hrequire (fun l _ => ?_) fun _ _ => trivial)
      exact keeps_then catalogueOne_keeps (fun _ _ => ⟨trivial, fun _ => trivial⟩)
        fun _ _ => trivial
  | renameRemote user folder body =>
      refine ended_keeps (keeps_check (fun patch hpatch => ?_) fun _ _ => trivial)
      exact keeps_guard (executeKeyed_keeps (h patch hpatch)) trivial
  | deleteRemote user folder => exact ended_keeps (executeKeyed_keeps h)
  | membership user folder repo add =>
      refine ended_keeps (keeps_then hrequire (fun l _ => ?_) fun _ _ => trivial)
      refine keeps_then catalogueOne_keeps (fun l' f => ?_) fun _ _ => trivial
      split
      · exact keeps_then (executeKeyed_keeps h) (fun _ _ => trivial) fun _ _ => trivial
      · refine keeps_clock trivial fun now => ?_
        exact ⟨trivial, fun _ => trivial⟩
  | star user repo add => exact ended_keeps (executeKeyed_keeps h)
  | drive user id => exact ended_keeps drive_keeps
  | adoptCreate user id remote => exact ended_keeps adoptCreate_keeps
  | cancel user id =>
      refine ended_keeps (keeps_then hrequire (fun l _ => ?_) fun _ _ => trivial)
      exact keeps_clock trivial fun now => ⟨trivial, fun _ => trivial⟩
  | sync live bridge user snapshot lists now =>
      exact ended_keeps ⟨trivial, fun _ => trivial⟩
  | execute user request key => exact ended_keeps (executeKeyed_keeps h)
  | reconcile user id => exact ended_keeps reconcile_keeps

end

end YoinkCore.Inbox
