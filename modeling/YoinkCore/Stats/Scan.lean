import YoinkCore.Lib.Paging
import YoinkCore.Stats.Tables

/-!
# The scan of a chat

The analytics read the messages of a chat in batches. A batch begins behind the last message of
the batch before it: first with the other messages of its date, then with later dates. What the
endpoints add up from the messages does not depend on the size of the batches.
-/

namespace YoinkCore.Stats

open Lib
open Domain (i64Max)

/-! ## Orders -/

/-- `ORDER BY id` -/
def Message.byId (a b : Message) : Prop := a.id ≤ b.id

/-- `ORDER BY date,id` -/
def Message.byDate (a b : Message) : Prop := a.date < b.date ∨ a.date = b.date ∧ a.id ≤ b.id

/-- The date and the number are later ones. -/
def Message.before (a b : Message) : Prop := a.date < b.date ∨ a.date = b.date ∧ a.id < b.id

instance : DecidableRel Message.byId := fun a b => inferInstanceAs (Decidable (a.id ≤ b.id))

instance : DecidableRel Message.byDate := fun _ _ =>
  inferInstanceAs (Decidable (_ ∨ (_ ∧ _)))

instance : Std.Total Message.byId where
  total a b := Int.le_total a.id b.id

instance : IsTrans Message Message.byId where
  trans _ _ _ := Int.le_trans

instance : Std.Total Message.byDate where
  total a b := by
    unfold Message.byDate
    omega

instance : IsTrans Message Message.byDate where
  trans a b c := by
    unfold Message.byDate
    omega

theorem before_asymm (a b : Message) (h : a.before b) : ¬ b.before a := by
  unfold Message.before at h ⊢
  omega

/-! ## Batches -/

section

variable (T : Table messageSchema) (chat : Int) (start stop : Option Int)

/-- `d - 1`, as it wraps around. -/
def predecessor (d : Int) : Int := if d = i64Min then i64Max else d - 1

/-- `message_keys`, for batches of any size -/
def messageKeys (size : Nat) (cursor : Option (Int × Int)) : Except StatsError (List Message) :=
  let upper := (stop.map predecessor).getD i64Max
  let keys := match cursor with
    | some (date, id) =>
        ((T.rows.filter fun m => m.chatId = chat && m.date = date && id < m.id).insertionSort
          Message.byId).take size
    | none => []
  if keys.length < size then do
    let lower ← match cursor with
      | some (date, _) => if date + 1 ≤ i64Max then .ok (date + 1) else .error .database
      | none => .ok (start.getD i64Min)
    .ok (keys ++
      ((T.rows.filter fun m => m.chatId = chat && lower ≤ m.date && m.date ≤ upper).insertionSort
        Message.byDate).take (size - keys.length))
  else .ok keys

def Message.cursor (m : Message) : Int × Int := (m.date, m.id)

/-- The messages of the scan, batch behind batch. -/
def scan (size turns : Nat) : Option (Except StatsError (List Message)) :=
  readPages (messageKeys T chat start stop size) Message.cursor size
    (fun seen keys => .ok (seen ++ keys)) turns none []

/-- The rows of a batch that pass the filters of a request. -/
def details (user : Option Int) (kind : Option String) (keys : List Message) : List Message :=
  (T.rows.filter fun m => (keys.map Message.id).contains m.id &&
    user.all (fun u => m.fromUser = some u) && kind.all (fun k => m.msgType = k)).insertionSort
    Message.byDate

/-- The loop of `aggregate`: `count` is its body for one row, and `s` what it adds up. -/
def aggregateLoop {σ : Type} (user : Option Int) (kind : Option String)
    (count : σ → Message → Except StatsError σ) (size turns : Nat) (s : σ) :
    Option (Except StatsError σ) :=
  readPages (messageKeys T chat start stop size) Message.cursor size
    (fun s keys => (details T user kind keys).foldlM count s) turns none s

end

/-! ## Rows of a table in order -/

section

variable {T : Table messageSchema} {chat : Int} {start stop : Option Int}

theorem ids_apart (p : Message → Bool) :
    (T.rows.filter p).Pairwise fun a b => a.id ≠ b.id :=
  (T.unique.imp messageSchema_id).filter p

/-- Sorted rows with different numbers are in the strict order. -/
theorem sorted_before {le : Message → Message → Prop} [DecidableRel le] [Std.Total le]
    [IsTrans Message le] (p : Message → Bool)
    (hle : ∀ a b, p a = true → p b = true → le a b → a.id ≠ b.id → a.before b) :
    ((T.rows.filter p).insertionSort le).Pairwise Message.before := by
  have hperm := List.perm_insertionSort le (T.rows.filter p)
  have hids : ((T.rows.filter p).insertionSort le).Pairwise fun a b => a.id ≠ b.id :=
    (hperm.pairwise_iff fun {a b} h => Ne.symm h).mpr (ids_apart p)
  have hmem : ∀ a ∈ (T.rows.filter p).insertionSort le, p a = true := fun a ha =>
    (List.mem_filter.mp ((List.mem_insertionSort le).mp ha)).2
  exact (List.pairwise_insertionSort le (T.rows.filter p)).imp_of_mem
    (fun ha hb hab => hle _ _ (hmem _ ha) (hmem _ hb) hab) |>.and hids |>.imp fun h => h.1 h.2

theorem byDate_before (p : Message → Bool) :
    ((T.rows.filter p).insertionSort Message.byDate).Pairwise Message.before :=
  sorted_before p fun a b _ _ hab hne => by
    unfold Message.byDate at hab
    unfold Message.before
    omega

/-! ## The rows that the scan looks for -/

def inRange (chat : Int) (start stop : Option Int) (m : Message) : Bool :=
  m.chatId = chat && start.all (· ≤ m.date) && stop.all (m.date < ·)

def selected (T : Table messageSchema) (chat : Int) (start stop : Option Int) : List Message :=
  (T.rows.filter (inRange chat start stop)).insertionSort Message.byDate

theorem mem_selected {m : Message} :
    m ∈ selected T chat start stop ↔ m ∈ T.rows ∧ inRange chat start stop m = true := by
  rw [selected, List.mem_insertionSort, List.mem_filter]

theorem selected_before : (selected T chat start stop).Pairwise Message.before :=
  byDate_before _

/-- The last date that `end` lets through. -/
theorem le_upper {m : Message} (hm : m ∈ T.rows) (hstop : stop ≠ some i64Min) :
    m.date ≤ (stop.map predecessor).getD i64Max ↔ stop.all (m.date < ·) = true := by
  cases stop with
  | none => simp [(date_bounds hm).2]
  | some d =>
      have hd : d ≠ i64Min := fun h => hstop (congrArg some h)
      simp only [Option.map_some, Option.getD_some, Option.all_some, decide_eq_true_eq,
        predecessor, if_neg hd]
      omega

/-- Behind a row stand the rows of its date with higher numbers, and the later dates. -/
theorem rest_eq {front rest : List Message} {m : Message} (hstop : stop ≠ some i64Min)
    (hall : selected T chat start stop = front ++ rest) (hlast : front.getLast? = some m) :
    rest =
      (T.rows.filter fun x => x.chatId = chat && x.date = m.date && m.id < x.id).insertionSort
        Message.byId ++
      (T.rows.filter fun x => x.chatId = chat && m.date + 1 ≤ x.date &&
        x.date ≤ (stop.map predecessor).getD i64Max).insertionSort Message.byDate := by
  obtain ⟨front', rfl⟩ := List.getLast?_eq_some_iff.mp hlast
  have hsorted := @selected_before T chat start stop
  rw [hall] at hsorted
  obtain ⟨hfront, hrest, hcross⟩ := List.pairwise_append.mp hsorted
  have hm := mem_selected.mp (by
    rw [hall]
    simp : m ∈ selected T chat start stop)
  have hmem : ∀ x, x ∈ rest ↔ x ∈ selected T chat start stop ∧ m.before x := by
    intro x
    rw [hall, List.mem_append]
    constructor
    · exact fun hx => ⟨.inr hx, hcross m (by simp) x hx⟩
    · rintro ⟨hx | hx, hbefore⟩
      · rcases List.mem_append.mp hx with hx | hx
        · have := (List.pairwise_append.mp hfront).2.2 x hx m (by simp)
          exact absurd this (before_asymm _ _ hbefore)
        · obtain rfl := List.mem_singleton.mp hx
          exact absurd hbefore (before_asymm _ _ hbefore)
      · exact hx
  have hrange := hm.2
  simp only [inRange, Bool.and_eq_true, decide_eq_true_eq] at hrange
  obtain ⟨⟨hchat, hstart⟩, hend⟩ := hrange
  refine eq_of_mem_iff before_asymm hrest (List.pairwise_append.mpr ⟨?_, byDate_before _, ?_⟩)
    fun x => ?_
  · refine sorted_before _ fun a b ha hb hab hne => ?_
    simp only [Bool.and_eq_true, decide_eq_true_eq] at ha hb
    unfold Message.byId at hab
    unfold Message.before
    omega
  · intro a ha b hb
    have ha := (List.mem_filter.mp ((List.mem_insertionSort _).mp ha)).2
    have hb := (List.mem_filter.mp ((List.mem_insertionSort _).mp hb)).2
    simp only [Bool.and_eq_true, decide_eq_true_eq] at ha hb
    exact .inl (by omega)
  · rw [hmem, mem_selected, List.mem_append, List.mem_insertionSort, List.mem_insertionSort,
      List.mem_filter, List.mem_filter]
    simp only [inRange, Bool.and_eq_true, decide_eq_true_eq]
    constructor
    · rintro ⟨⟨hx, ⟨hxchat, hxstart⟩, hxend⟩, hbefore⟩
      have hupper := (le_upper hx hstop).mpr hxend
      unfold Message.before at hbefore
      by_cases hdate : x.date = m.date
      · exact .inl ⟨hx, ⟨hxchat, hdate⟩, by omega⟩
      · exact .inr ⟨hx, ⟨hxchat, by omega⟩, hupper⟩
    · rintro (⟨hx, ⟨hxchat, hdate⟩, hid⟩ | ⟨hx, ⟨hxchat, hlater⟩, hupper⟩)
      · rw [hdate]
        exact ⟨⟨hx, ⟨hxchat, hstart⟩, hend⟩, .inr ⟨hdate.symm, hid⟩⟩
      · refine ⟨⟨hx, ⟨hxchat, ?_⟩, (le_upper hx hstop).mp hupper⟩, .inl (by omega)⟩
        cases start with
        | none => rfl
        | some d =>
            simp only [Option.all_some, decide_eq_true_eq] at hstart ⊢
            omega

/-- The batch before ends at a message of the last date there is, and less than a batch is left
of that date. -/
def OffTheEnd (size : Nat) (front rest : List Message) : Prop :=
  ∃ m, front.getLast? = some m ∧ m.date = i64Max ∧ rest.length < size

/-- Behind a part of the rows that the scan looks for, a batch is the beginning of the rest.
Only behind the last of all dates it fails. -/
theorem messageKeys_cases {size : Nat} (hsize : 0 < size) (hstop : stop ≠ some i64Min)
    (front rest : List Message) (cursor : Option (Int × Int))
    (hall : selected T chat start stop = front ++ rest)
    (hcursor : Behind Message.cursor front cursor) :
    (¬OffTheEnd size front rest ∧
        messageKeys T chat start stop size cursor = .ok (rest.take size)) ∨
      (OffTheEnd size front rest ∧
        messageKeys T chat start stop size cursor = .error .database) := by
  rcases hlast : front.getLast? with _ | m
  · rw [Behind, hlast] at hcursor
    obtain rfl : cursor = none := hcursor
    obtain rfl := List.getLast?_eq_none_iff.mp hlast
    left
    have hrest : rest = (T.rows.filter fun m => m.chatId = chat && start.getD i64Min ≤ m.date &&
        m.date ≤ (stop.map predecessor).getD i64Max).insertionSort Message.byDate := by
      rw [List.nil_append] at hall
      rw [← hall, selected]
      congr 1
      refine List.filter_congr fun x hx => ?_
      have hupper := le_upper hx hstop
      have hbounds := date_bounds hx
      have hlower : start.all (· ≤ x.date) = decide (start.getD i64Min ≤ x.date) := by
        cases start with
        | none => simp [hbounds.1]
        | some d => rfl
      rw [inRange, hlower, Bool.eq_iff_iff]
      simp only [Bool.and_eq_true, decide_eq_true_eq, hupper]
    refine ⟨?_, ?_⟩
    · rintro ⟨m, hm, -⟩
      cases hm
    · rw [messageKeys, hrest]
      exact if_pos hsize
  · rw [Behind, hlast] at hcursor
    obtain rfl : cursor = some (m.date, m.id) := hcursor
    have hrest := rest_eq hstop hall hlast
    have hmem : m ∈ selected T chat start stop := by
      rw [hall]
      exact List.mem_append_left _ (List.mem_of_getLast? hlast)
    have hbound := date_bounds (mem_selected.mp hmem).1
    have hend : OffTheEnd size front rest ↔ m.date = i64Max ∧ rest.length < size := by
      unfold OffTheEnd
      rw [hlast]
      constructor
      · rintro ⟨_, he, h⟩
        exact Option.some.inj he ▸ h
      · intro h
        exact ⟨m, rfl, h⟩
    rw [hend, messageKeys]
    dsimp only
    generalize htied : (T.rows.filter fun x =>
      x.chatId = chat && x.date = m.date && m.id < x.id).insertionSort Message.byId =
        tied at hrest ⊢
    generalize hlater : (T.rows.filter fun x => x.chatId = chat && m.date + 1 ≤ x.date &&
      x.date ≤ (stop.map predecessor).getD i64Max).insertionSort Message.byDate = later at hrest ⊢
    by_cases hfew : (tied.take size).length < size
    · have htake : tied.take size = tied := by
        rw [List.length_take] at hfew
        exact List.take_of_length_le (by omega)
      rw [if_pos hfew, htake]
      rw [htake] at hfew
      by_cases hnext : m.date + 1 ≤ i64Max
      · refine .inl ⟨fun h => by omega, ?_⟩
        rw [if_pos hnext, hrest, List.take_append, htake]
        exact congrArg _ (congrArg _ (congrArg _ hlater))
      · -- there is no later date
        have hnil : later = [] := by
          rw [← hlater, List.filter_eq_nil_iff.mpr, List.insertionSort_nil]
          intro x hx hdate
          simp only [Bool.and_eq_true, decide_eq_true_eq] at hdate
          have := (date_bounds hx).2
          omega
        refine .inr ⟨⟨by omega, by rw [hrest, hnil, List.append_nil]; exact hfew⟩, ?_⟩
        rw [if_neg hnext]
        rfl
    · have hmany : size ≤ tied.length := by
        rw [List.length_take] at hfew
        omega
      refine .inl ⟨fun h => ?_, ?_⟩
      · rw [hrest, List.length_append] at h
        omega
      · rw [if_neg hfew, hrest, List.take_append_of_le_length hmany]

/-- **A batch.** Behind a part of the rows that the scan looks for, it is the beginning of the
rest. Only behind the last of all dates it fails. -/
theorem messageKeys_next {size : Nat} (hsize : 0 < size) (hstop : stop ≠ some i64Min)
    (front rest : List Message) (cursor : Option (Int × Int))
    (hall : selected T chat start stop = front ++ rest)
    (hcursor : Behind Message.cursor front cursor) :
    messageKeys T chat start stop size cursor = .ok (rest.take size) ∨
      ∃ e, messageKeys T chat start stop size cursor = .error e ∧
        (e = .database ∧ ∃ m ∈ front, m.date = i64Max) := by
  rcases messageKeys_cases hsize hstop front rest cursor hall hcursor with
    ⟨-, hok⟩ | ⟨⟨m, hm, hdate, -⟩, herror⟩
  · exact .inl hok
  · exact .inr ⟨_, herror, rfl, m, List.mem_of_getLast? hm, hdate⟩

/-- The rows of a batch stand in the table, in the strict order. -/
theorem messageKeys_rows {size : Nat} {cursor : Option (Int × Int)} {keys : List Message}
    (h : messageKeys T chat start stop size cursor = .ok keys) :
    keys.Pairwise Message.before ∧ ∀ m ∈ keys, m ∈ T.rows := by
  have hmem : ∀ {le : Message → Message → Prop} [DecidableRel le] (p : Message → Bool) (n : Nat),
      ∀ m ∈ ((T.rows.filter p).insertionSort le).take n, m ∈ T.rows ∧ p m = true := fun p n m hm =>
    List.mem_filter.mp ((List.mem_insertionSort _).mp (List.mem_of_mem_take hm))
  unfold messageKeys at h
  rcases cursor with _ | ⟨date, id⟩
  · dsimp only at h
    split at h
    · cases h
      exact ⟨(byDate_before _).take, fun m hm => (hmem _ _ m hm).1⟩
    · cases h
      exact ⟨.nil, fun _ hm => absurd hm List.not_mem_nil⟩
  · have htied : ((T.rows.filter fun x =>
        x.chatId = chat && x.date = date && id < x.id).insertionSort Message.byId).Pairwise
          Message.before := by
      refine sorted_before _ fun a b ha hb hab hne => ?_
      simp only [Bool.and_eq_true, decide_eq_true_eq] at ha hb
      unfold Message.byId at hab
      unfold Message.before
      omega
    dsimp only at h
    split at h
    · by_cases hnext : date + 1 ≤ i64Max
      case neg =>
        rw [if_neg hnext] at h
        cases h
      rw [if_pos hnext] at h
      cases h
      refine ⟨List.pairwise_append.mpr ⟨htied.take, (byDate_before _).take, ?_⟩, ?_⟩
      · intro a ha b hb
        have ha := (hmem _ _ a ha).2
        have hb := (hmem _ _ b hb).2
        simp only [Bool.and_eq_true, decide_eq_true_eq] at ha hb
        exact .inl (by omega)
      · intro m hm
        rcases List.mem_append.mp hm with hm | hm
        · exact (hmem _ _ m hm).1
        · exact (hmem _ _ m hm).1
    · cases h
      exact ⟨htied.take, fun m hm => (hmem _ _ m hm).1⟩

/-- The number of a row tells it from others. -/
theorem eq_of_id {a b : Message} (ha : a ∈ T.rows) (hb : b ∈ T.rows) (h : a.id = b.id) : a = b :=
  T.eq_of_clash ha hb (by simp [messageSchema, h]) (by simp [messageSchema, h])

/-- The filters of a request. -/
def passes (user : Option Int) (kind : Option String) (m : Message) : Bool :=
  user.all (fun u => m.fromUser = some u) && kind.all (fun k => m.msgType = k)

/-- The rows of a batch that pass the filters are read in the order of the batch. -/
theorem details_eq (user : Option Int) (kind : Option String) {keys : List Message}
    (hsorted : keys.Pairwise Message.before) (hrows : ∀ m ∈ keys, m ∈ T.rows) :
    details T user kind keys = keys.filter (passes user kind) := by
  refine eq_of_mem_iff before_asymm (byDate_before _) (hsorted.filter _) fun m => ?_
  rw [details, List.mem_insertionSort, List.mem_filter, List.mem_filter, Bool.and_assoc,
    Bool.and_eq_true, List.contains_iff_mem, List.mem_map, passes]
  constructor
  · rintro ⟨hm, ⟨k, hk, hid⟩, hpass⟩
    obtain rfl := eq_of_id (hrows k hk) hm hid
    exact ⟨hk, hpass⟩
  · exact fun ⟨hm, hpass⟩ => ⟨hrows m hm, ⟨m, hm, rfl⟩, hpass⟩

/-! ## Whole scans -/

/-- The body of the loop, for rows that pass the filters. -/
def counted {σ : Type} (user : Option Int) (kind : Option String)
    (count : σ → Message → Except StatsError σ) (s : σ) (m : Message) : Except StatsError σ :=
  if passes user kind m = true then count s m else .ok s

theorem foldlM_filter {σ : Type} (user : Option Int) (kind : Option String)
    (count : σ → Message → Except StatsError σ) (keys : List Message) : ∀ s : σ,
    (keys.filter (passes user kind)).foldlM count s =
      visitAll (counted user kind count) s keys := by
  induction keys with
  | nil => exact fun _ => rfl
  | cons m keys ih =>
      intro s
      rw [visitAll, List.foldlM_cons, counted]
      by_cases hm : passes user kind m = true
      · rw [List.filter_cons_of_pos hm, if_pos hm, List.foldlM_cons]
        exact congrArg (count s m >>= ·) (funext ih)
      · rw [List.filter_cons_of_neg hm, if_neg hm]
        exact ih s

theorem scan_visitAll {size : Nat} (hsize : 0 < size) (hstop : stop ≠ some i64Min) {σ : Type}
    (f : σ → Message → Except StatsError σ) (s : σ) :
    ∃ x, (∀ turns, (selected T chat start stop).length < turns →
        readPages (messageKeys T chat start stop size) Message.cursor size (visitAll f) turns
          none s = some x) ∧
      (x = visitAll f s (selected T chat start stop) ∨
        (∃ m ∈ selected T chat start stop, m.date = i64Max) ∧
          ∃ mid, x = visitAll f s mid >>= fun _ => .error .database) := by
  obtain ⟨x, hx, hcases⟩ := readPages_spec hsize (messageKeys_next hsize hstop) f _ []
    (selected T chat start stop) none s rfl rfl rfl
  refine ⟨x, hx, hcases.imp_right ?_⟩
  rintro ⟨mid, rest, e, hall, ⟨rfl, m, hm, hdate⟩, hx⟩
  rw [List.nil_append] at hm
  exact ⟨⟨m, by rw [hall]; exact List.mem_append_left _ hm, hdate⟩, mid, hx⟩

theorem visitAll_seen (rows : List Message) : ∀ seen : List Message,
    visitAll (fun seen m => (.ok (seen ++ [m]) : Except StatsError _)) seen rows =
      .ok (seen ++ rows) := by
  induction rows with
  | nil => exact fun seen => by rw [List.append_nil]; rfl
  | cons m rows ih => exact fun seen => (ih (seen ++ [m])).trans (by rw [← List.append_cons])

theorem scan_eq (size turns : Nat) :
    scan T chat start stop size turns =
      readPages (messageKeys T chat start stop size) Message.cursor size
        (visitAll fun seen m => .ok (seen ++ [m])) turns none [] :=
  readPages_congr (fun _ page _ seen => (visitAll_seen page seen).symm) turns none []

theorem aggregateLoop_eq {σ : Type} (user : Option Int) (kind : Option String)
    (count : σ → Message → Except StatsError σ) (size turns : Nat) (s : σ) :
    aggregateLoop T chat start stop user kind count size turns s =
      readPages (messageKeys T chat start stop size) Message.cursor size
        (visitAll (counted user kind count)) turns none s := by
  refine readPages_congr (fun cursor page hpage s => ?_) turns none s
  obtain ⟨hsorted, hrows⟩ := messageKeys_rows hpage
  rw [details_eq user kind hsorted hrows, foldlM_filter]

end

/-- **Each message once.** The scan ends, and the batches put behind each other are the messages
of the chat from `start` to before `end`, in the strict order of date and number; only behind a
message of the last date there is can it fail. Without such a message, what an endpoint adds up
from the messages that pass its filters is the same for all sizes of batches. -/
theorem scan_visits_once (T : Table messageSchema) (chat : Int) (start stop : Option Int)
    (size : Nat) (hsize : 0 < size) (hstop : stop ≠ some i64Min) :
    (∃ x, (∀ turns, T.rows.length < turns → scan T chat start stop size turns = some x) ∧
      ((∃ seen, x = .ok seen ∧ seen.Pairwise Message.before ∧
          ∀ m, m ∈ seen ↔ m ∈ T.rows ∧ inRange chat start stop m = true) ∨
        x = .error .database ∧
          ∃ m ∈ T.rows, inRange chat start stop m = true ∧ m.date = i64Max)) ∧
    ((∀ m ∈ T.rows, inRange chat start stop m = true → m.date ≠ i64Max) →
      ∀ {σ : Type} (user : Option Int) (kind : Option String)
        (count : σ → Message → Except StatsError σ) (s : σ), ∃ x, ∀ size', 0 < size' →
          ∀ turns, T.rows.length < turns →
            aggregateLoop T chat start stop user kind count size' turns s = some x) := by
  have hlen : (selected T chat start stop).length ≤ T.rows.length := by
    rw [selected, List.length_insertionSort]
    exact List.length_filter_le _ _
  refine ⟨?_, fun hdates σ user kind count s => ?_⟩
  · obtain ⟨x, hx, hcases⟩ := @scan_visitAll T chat start stop _ hsize hstop _
      (fun seen m => (.ok (seen ++ [m]) : Except StatsError _)) []
    refine ⟨x, fun turns hturns => ?_, ?_⟩
    · rw [scan_eq]
      exact hx turns (Nat.lt_of_le_of_lt hlen hturns)
    · rcases hcases with hall | ⟨⟨m, hm, hdate⟩, mid, hmid⟩
      · rw [visitAll_seen, List.nil_append] at hall
        exact .inl ⟨_, hall, selected_before, fun m => mem_selected⟩
      · rw [visitAll_seen] at hmid
        have hm := mem_selected.mp hm
        exact .inr ⟨hmid, m, hm.1, hm.2, hdate⟩
  · refine ⟨visitAll (counted user kind count) s (selected T chat start stop),
      fun size' hsize' turns hturns => ?_⟩
    obtain ⟨x, hx, hcases⟩ := @scan_visitAll T chat start stop _ hsize' hstop _
      (counted user kind count) s
    rw [aggregateLoop_eq, hx turns (Nat.lt_of_le_of_lt hlen hturns)]
    rcases hcases with hall | ⟨⟨m, hm, hdate⟩, -⟩
    · rw [hall]
    · have hm := mem_selected.mp hm
      exact absurd hdate (hdates m hm.1 hm.2)

namespace ScanScenario

def message (id date : Int) : Message where
  id
  messageId := id
  chatId := -100
  date
  fromUser := some 7
  replyToMessage := none
  text := some "hello"
  caption := none
  msgType := "text"
  newChatTitle := none

/-- Two messages of one date, and a later one. -/
def tied : Table messageSchema where
  rows := [message 3 20, message 2 10, message 1 10]
  checked := by decide
  unique := by decide

/-- A message of the last date there is. -/
def last : Table messageSchema where
  rows := [message 1 i64Max]
  checked := by decide
  unique := by decide

end ScanScenario

open ScanScenario in
/-- In batches of one message. -/
theorem scan_visits_once_tied : ∃ seen, scan tied (-100) none (some 30) 1 4 = some (.ok seen) ∧
    ∀ m, m ∈ seen ↔ m ∈ tied.rows ∧ inRange (-100) none (some 30) m = true := by
  obtain ⟨⟨x, hx, hcases⟩, -⟩ :=
    scan_visits_once tied (-100) none (some 30) 1 (by decide) (by decide)
  rcases hcases with ⟨seen, rfl, -, hmem⟩ | ⟨-, m, hm, -, hdate⟩
  · exact ⟨seen, hx 4 (by decide), hmem⟩
  · have hnone : (tied.rows.all fun m => m.date ≠ i64Max) = true := by decide
    exact absurd hdate (of_decide_eq_true (List.all_eq_true.mp hnone m hm))

open ScanScenario in
/-- Behind a full batch of the last date there is no next date; and the date before the first
one wraps around to the last. -/
theorem scan_at_the_ends :
    scan last (-100) none none 1 2 = some (.error .database) ∧
      scan tied (-100) none (some i64Min) 256 2 =
        some (.ok [message 1 10, message 2 10, message 3 20]) := by
  decide

end YoinkCore.Stats
