import YoinkCore.Insight.Streaming

/-!
# One route

A call hands over the deltas of the last route that it tries, and returns their
concatenation.
-/

namespace YoinkCore.Insight

open Lib

section

variable [JsonReader] {sink : DeltaSink} {shape : Shape}

/-! ## What was handed over -/

/-- The text of an attempt is what the sink took. -/
structure Delivered (s : StreamState) : Prop where
  text : s.text = String.join s.deltas
  emitted : s.emitted = false ↔ s.deltas = []

/-- What is left of that when the sink has refused a delta. -/
abbrev Counted (r : Except Error Unit) (s : StreamState) : Prop :=
  (s.emitted = false ↔ s.deltas = []) ∧ (r = .ok () → Delivered s)

omit [JsonReader] in
theorem join_concat (deltas : List String) (delta : String) :
    String.join (deltas ++ [delta]) = String.join deltas ++ delta := by
  simp [String.join]

/-- What an event does to an attempt, and to the answer of the sink. -/
inductive EventMove (sink : DeltaSink) (s : StreamState) : Except Error Unit → StreamState → Prop
  | refused (e : Error) (endReason : String) :
      EventMove sink s (.error e) { s with endReason }
  | silent (terminal : Bool) (endReason : String) :
      EventMove sink s (.ok ()) { s with terminal, endReason }
  | undelivered (e : Error) (delta endReason : String) :
      EventMove sink s (.error e)
        { s with endReason, emitted := true, deltas := s.deltas ++ [delta] }
  | taken (terminal : Bool) (delta endReason : String) :
      EventMove sink s (.ok ())
        { s with
          endReason, terminal, emitted := true, deltas := s.deltas ++ [delta],
          text := s.text ++ delta }

theorem event_move (sink : DeltaSink) (shape : Shape) (event : String) (s : StreamState) :
    EventMove sink s (s.event sink shape event).1 (s.event sink shape event).2 := by
  unfold StreamState.event
  by_cases ht : s.terminal = true
  · rw [if_pos ht]
    exact .silent s.terminal s.endReason
  rw [if_neg ht]
  by_cases hdone : Text.trim event.toList = "[DONE]".toList
  · rw [if_pos hdone]
    by_cases hshape : shape ≠ .openAi
    · rw [if_pos hshape]
      exact .refused parseFailed s.endReason
    · rw [if_neg hshape]
      exact .silent true "done"
  rw [if_neg hdone]
  rcases s.value shape event with ⟨endReason, e | ⟨delta, terminal⟩⟩
  · exact .refused e endReason
  dsimp only
  by_cases hempty : delta.isEmpty = true
  · rw [if_pos hempty]
    exact .silent terminal endReason
  rw [if_neg hempty]
  rcases sink (s.deltas ++ [delta]) with e | u
  · exact .undelivered e delta endReason
  · exact .taken terminal delta endReason

variable {s : StreamState}

theorem event_delivered (sink : DeltaSink) (shape : Shape) (event : String) (hs : Delivered s) :
    Counted (s.event sink shape event).1 (s.event sink shape event).2 := by
  have hmove := event_move sink shape event s
  generalize (s.event sink shape event).1 = r, (s.event sink shape event).2 = s' at hmove
  cases hmove with
  | refused e endReason => exact ⟨hs.emitted, fun h => nomatch h⟩
  | silent terminal endReason => exact ⟨hs.emitted, fun _ => ⟨hs.text, hs.emitted⟩⟩
  | undelivered e delta endReason => exact ⟨by simp, fun h => nomatch h⟩
  | taken terminal delta endReason =>
      exact ⟨by simp, fun _ => ⟨by rw [join_concat, hs.text], by simp⟩⟩

theorem events_delivered (sink : DeltaSink) (shape : Shape) (events : List String)
    (hs : Delivered s) : Counted (s.events sink shape events).1 (s.events sink shape events).2 := by
  induction events generalizing s with
  | nil => exact ⟨hs.emitted, fun _ => hs⟩
  | cons event more ih =>
      have h := event_delivered sink shape event hs
      unfold StreamState.events
      cases hr : s.event sink shape event with
      | mk r s' =>
          rw [hr] at h
          cases r with
          | error e => exact ⟨h.1, fun h => nomatch h⟩
          | ok u => exact ih (h.2 rfl)

theorem readChunks_delivered (sink : DeltaSink) (shape : Shape) (broken : Bool)
    (chunks : List (List UInt8)) (d : SseDecoder) (hs : Delivered s) :
    ((readChunks sink shape broken chunks d s).2.emitted = false ↔
      (readChunks sink shape broken chunks d s).2.deltas = []) ∧
    ∀ d', (readChunks sink shape broken chunks d s).1 = .ok d' →
      Delivered (readChunks sink shape broken chunks d s).2 := by
  induction chunks generalizing d s with
  | nil => exact ⟨hs.emitted, fun _ _ => hs⟩
  | cons chunk chunks ih =>
      unfold readChunks
      cases hp : d.push chunk with
      | error e => exact ⟨hs.emitted, fun _ h => nomatch h⟩
      | ok r =>
          obtain ⟨events, d'⟩ := r
          have h := events_delivered sink shape events hs
          simp only
          cases hr : s.events sink shape events with
          | mk r s' =>
              rw [hr] at h
              cases r with
              | error e => exact ⟨h.1, fun _ h => nomatch h⟩
              | ok u =>
                  simp only
                  split
                  · exact ⟨h.1, fun _ _ => h.2 rfl⟩
                  · exact ih _ (h.2 rfl)

theorem readEnd_delivered (sink : DeltaSink) (shape : Shape) (d : SseDecoder) (hs : Delivered s) :
    Counted (readEnd sink shape d s).1 (readEnd sink shape d s).2 := by
  unfold readEnd
  split
  · exact ⟨hs.emitted, fun _ => hs⟩
  · split
    · exact ⟨hs.emitted, fun h => nomatch h⟩
    · exact events_delivered _ _ _ hs

theorem readFrom_delivered {broken : Bool} {chunks : List (List UInt8)} {d : SseDecoder}
    (hs : Delivered s) :
    ((readFrom sink shape broken chunks d s).2.emitted = false ↔
      (readFrom sink shape broken chunks d s).2.deltas = []) ∧
    ∀ text, (readFrom sink shape broken chunks d s).1 = .ok text →
      text = String.join (readFrom sink shape broken chunks d s).2.deltas := by
  have h := readChunks_delivered sink shape broken chunks d hs
  unfold readFrom
  cases hr : readChunks sink shape broken chunks d s with
  | mk r s' =>
      rw [hr] at h
      cases r with
      | error e => exact ⟨h.1, fun _ h => nomatch h⟩
      | ok d' =>
          have hend := readEnd_delivered sink shape d' (h.2 d' rfl)
          simp only
          cases hre : readEnd sink shape d' s' with
          | mk r s'' =>
              rw [hre] at hend
              cases r with
              | error e => exact ⟨hend.1, fun _ h => nomatch h⟩
              | ok u =>
                  refine ⟨hend.1, fun text htext => ?_⟩
                  rw [← (hend.2 rfl).text]
                  simp only [StreamState.answer] at htext
                  split at htext
                  · cases htext
                  · split at htext
                    · cases htext
                    · exact (Except.ok.inj htext).symm

omit [JsonReader] in
theorem start_delivered : Delivered .start := ⟨rfl, by simp [StreamState.start]⟩

theorem streamAttempt_delivered {maxBytes : Nat} {route : Route} {prompt : String}
    {reply : Except Error Response} :
    ((streamAttempt maxBytes sink route prompt reply).2.emitted = false ↔
      (streamAttempt maxBytes sink route prompt reply).2.deltas = []) ∧
    ∀ text, (streamAttempt maxBytes sink route prompt reply).1 = .ok text →
      text = String.join (streamAttempt maxBytes sink route prompt reply).2.deltas := by
  unfold streamAttempt
  split
  · exact ⟨start_delivered.emitted, fun _ h => nomatch h⟩
  · exact readFrom_delivered start_delivered

theorem attempt_delivered (maxBytes : Nat) (prompt : String) (sink : DeltaSink) (o : Offer) :
    ((o.attempt maxBytes prompt sink).2.emitted = false ↔
      (o.attempt maxBytes prompt sink).2.deltas = []) ∧
    ∀ text, (o.attempt maxBytes prompt sink).1 = .ok text →
      text = String.join (o.attempt maxBytes prompt sink).2.deltas := by
  unfold Offer.attempt
  split
  · exact streamAttempt_delivered
  · exact ⟨streamAttempt_delivered.1, fun _ h => nomatch h⟩

/-- Nothing was handed over before, so all deltas are those of the last route tried. -/
theorem tryRoutes_delivered {maxBytes : Nat} {prompt : String} (offers : List Offer)
    (tried : Nat) (last : Error) :
    (∀ d ∈ (tryRoutes maxBytes prompt sink offers tried [] last).deltas,
      d.1 = (tryRoutes maxBytes prompt sink offers tried [] last).tried) ∧
    ∀ text, (tryRoutes maxBytes prompt sink offers tried [] last).result = .ok text →
      text = String.join
        ((tryRoutes maxBytes prompt sink offers tried [] last).deltas.map Prod.snd) := by
  induction offers generalizing tried last with
  | nil => exact ⟨fun _ h => (nomatch h), fun _ h => nomatch h⟩
  | cons o offers ih =>
      have h := attempt_delivered maxBytes prompt sink o
      unfold tryRoutes
      simp only [List.map_nil, List.nil_append]
      cases hr : o.attempt maxBytes prompt sink with
      | mk r s =>
          rw [hr] at h
          have hown : ∀ d ∈ s.deltas.map fun delta => (tried + 1, delta), d.1 = tried + 1 := by
            intro d hd
            obtain ⟨_, -, rfl⟩ := List.mem_map.mp hd
            rfl
          cases r with
          | ok text =>
              refine ⟨hown, fun text' htext => ?_⟩
              rw [← Except.ok.inj htext, List.map_map]
              exact (h.2 text rfl).trans (congrArg String.join (List.map_id _).symm)
          | error e =>
              simp only
              split
              · exact ⟨hown, fun _ h => nomatch h⟩
              · rename_i hnone
                simp only [Bool.or_eq_true, not_or, Bool.not_eq_true] at hnone
                rw [(h.1.mp hnone.1.2 : s.deltas = []), List.map_nil]
                exact ih (tried + 1) e

end

end YoinkCore.Insight
