import YoinkCore.Insight.Delivered

/-!
# Packet borders

The chunks of a response do not matter, except that a fault of its bytes is found before
the events are read that came with it in one chunk. `Borderless` says of some routes that no
such fault makes a difference.
-/

namespace YoinkCore.Insight

open Lib Framing

/-! ## Events of a stream -/

/-- The events of the lines of a stream, and the data that they leave. -/
def decoded (stream : List UInt8) : Except Error (List String × List String) :=
  readLines [] (frames newline stream).1

/-- The events before the first line that is not UTF-8. -/
def eventsUntil (data : List String) : List (List UInt8) → List String
  | [] => []
  | line :: lines =>
      match readLine data line with
      | .error _ => []
      | .ok (data, event) => event.toList ++ eventsUntil data lines

/-- The events before the first fault. -/
def eventsBefore (maxBytes : Nat) (stream : List UInt8) : List String :=
  eventsUntil [] (frames newline (stream.take maxBytes)).1

/-- The fault that is found first, when the bytes come one after the other. -/
def firstFault (maxBytes : Nat) (stream : List UInt8) : Option Error :=
  match decoded (stream.take maxBytes) with
  | .error e => some e
  | .ok _ => if maxBytes < stream.length then some tooLarge else none

/-- The fault that is found when all bytes come at once. -/
def wholeFault (maxBytes : Nat) (stream : List UInt8) : Option Error :=
  if maxBytes < stream.length then some tooLarge
  else
    match decoded stream with
    | .error e => some e
    | .ok _ => none

/-- The decoder after a stream without fault. -/
def decoderAt (maxBytes : Nat) (stream : List UInt8) (data : List String) : SseDecoder :=
  ⟨(frames newline stream).2, data, stream.length, maxBytes⟩

section

variable {maxBytes : Nat} {a b : List UInt8} {evs data : List String}

theorem decoded_append (h : decoded a = .ok (evs, data)) (b : List UInt8) :
    decoded (a ++ b) = (do
      let (more, data) ← readLines data (frames newline ((frames newline a).2 ++ b)).1
      .ok (evs ++ more, data)) := by
  unfold decoded at h ⊢
  rw [frames_append, readLines_append, h]
  rfl

theorem decoded_prefix (h : decoded (a ++ b) = .ok (evs, data)) :
    ∃ evs' data', decoded a = .ok (evs', data') := by
  unfold decoded at h ⊢
  rw [frames_append, readLines_append] at h
  cases ha : readLines [] (frames newline a).1 with
  | ok r => exact ⟨r.1, r.2, rfl⟩
  | error e =>
      rw [ha] at h
      cases h

theorem push_too_large (data : List String) (h : maxBytes < (a ++ b).length) :
    (decoderAt maxBytes a data).push b = .error tooLarge := by
  rw [List.length_append] at h
  exact if_pos h

/-- A push reads the lines that its bytes end. -/
theorem push_of_decoded (h : decoded a = .ok (evs, data)) (hlen : (a ++ b).length ≤ maxBytes) :
    (∃ e, decoded (a ++ b) = .error e ∧ (decoderAt maxBytes a data).push b = .error e) ∨
    ∃ more data', decoded (a ++ b) = .ok (evs ++ more, data') ∧
      (decoderAt maxBytes a data).push b = .ok (more, decoderAt maxBytes (a ++ b) data') := by
  have hpush : (decoderAt maxBytes a data).push b = (do
      let (more, data) ← readLines data (frames newline ((frames newline a).2 ++ b)).1
      .ok (more, decoderAt maxBytes (a ++ b) data)) := by
    rw [List.length_append] at hlen
    unfold SseDecoder.push decoderAt
    rw [if_neg (Nat.not_lt.mpr hlen), List.length_append, frames_append a b]
  rw [decoded_append h, hpush]
  cases readLines data (frames newline ((frames newline a).2 ++ b)).1 with
  | error e => exact .inl ⟨e, rfl, rfl⟩
  | ok r => exact .inr ⟨r.1, r.2, rfl, rfl⟩

theorem eventsUntil_append {data' : List String} {before : List (List UInt8)}
    (h : readLines data before = .ok (evs, data')) (after : List (List UInt8)) :
    eventsUntil data (before ++ after) = evs ++ eventsUntil data' after := by
  induction before generalizing data evs with
  | nil =>
      cases h
      rfl
  | cons line lines ih =>
      simp only [readLines, bind, Except.bind] at h
      simp only [List.cons_append, eventsUntil]
      cases hline : readLine data line with
      | error e =>
          rw [hline] at h
          cases h
      | ok r =>
          rw [hline] at h
          simp only at h ⊢
          cases hlines : readLines r.1 lines with
          | error e =>
              rw [hlines] at h
              cases h
          | ok r' =>
              rw [hlines] at h
              cases h
              rw [ih hlines, List.append_assoc]

theorem eventsUntil_of_ok (h : decoded a = .ok (evs, data)) :
    eventsUntil [] (frames newline a).1 = evs := by
  have := eventsUntil_append h []
  rwa [List.append_nil, eventsUntil, List.append_nil] at this

/-- The events that have been read are the first of those before the fault. -/
theorem eventsBefore_append (h : decoded a = .ok (evs, data)) (hlen : a.length ≤ maxBytes)
    (b : List UInt8) : ∃ more, eventsBefore maxBytes (a ++ b) = evs ++ more := by
  unfold eventsBefore
  rw [List.take_append, List.take_of_length_le hlen, frames_append]
  exact ⟨_, eventsUntil_append h _⟩

theorem decoded_error {e : Error} (h : decoded a = .error e) : e = parseFailed :=
  (readLines_error h).1

theorem wholeFault_isSome : (wholeFault maxBytes a).isSome = (firstFault maxBytes a).isSome := by
  unfold wholeFault firstFault
  by_cases hlen : maxBytes < a.length
  · rw [if_pos hlen]
    split
    · rfl
    · rw [if_pos hlen]
  · rw [if_neg hlen, List.take_of_length_le (by omega)]
    cases decoded a <;> simp [hlen]

end

/-! ## Attempts on a stream -/

/-- A sink that takes everything. -/
def accepts : DeltaSink := fun _ => .ok ()

section

variable [JsonReader] {sink : DeltaSink} {shape : Shape} {maxBytes : Nat} {s : StreamState}

/-- What an attempt comes to on some events. -/
def heard (shape : Shape) (events : List String) : Except Error Unit × StreamState :=
  StreamState.start.events accepts shape events

theorem events_append (a b : List String) :
    s.events sink shape (a ++ b) =
      match s.events sink shape a with
      | (.error e, s) => (.error e, s)
      | (.ok (), s) => s.events sink shape b := by
  induction a generalizing s with
  | nil => rfl
  | cons event more ih =>
      simp only [List.cons_append, StreamState.events]
      cases s.event sink shape event with
      | mk r s' =>
          cases r with
          | error e => rfl
          | ok u => exact ih

theorem events_of_terminal (h : s.terminal = true) (events : List String) :
    s.events sink shape events = (.ok (), s) := by
  induction events with
  | nil => rfl
  | cons event more ih =>
      have he : s.event sink shape event = (.ok (), s) := by rw [StreamState.event, if_pos h]
      rw [StreamState.events, he]
      exact ih

theorem event_deltas (sink : DeltaSink) (shape : Shape) (s : StreamState) (event : String) :
    ∃ more, (s.event sink shape event).2.deltas = s.deltas ++ more := by
  have hnone : ∃ more, s.deltas = s.deltas ++ more := ⟨[], (List.append_nil _).symm⟩
  unfold StreamState.event
  split
  · exact hnone
  · split
    · split
      · exact hnone
      · exact hnone
    · split
      · exact hnone
      · split
        · exact hnone
        · dsimp only
          split
          · exact ⟨_, rfl⟩
          · exact ⟨_, rfl⟩

/-- Deltas are added to those before. -/
theorem events_deltas (sink : DeltaSink) (shape : Shape) (s : StreamState)
    (events : List String) :
    ∃ more, (s.events sink shape events).2.deltas = s.deltas ++ more := by
  induction events generalizing s with
  | nil => exact ⟨[], (List.append_nil _).symm⟩
  | cons event rest ih =>
      obtain ⟨more, hmore⟩ := event_deltas sink shape s event
      unfold StreamState.events
      cases hr : s.event sink shape event with
      | mk r s' =>
          rw [hr] at hmore
          cases r with
          | error e => exact ⟨more, hmore⟩
          | ok u =>
              obtain ⟨more', h⟩ := ih (s := s')
              exact ⟨more ++ more', by rw [h, hmore, List.append_assoc]⟩

variable {a : List String} {stream : List UInt8}

theorem heard_append (h : heard shape a = (.ok (), s)) (b : List String) :
    heard shape (a ++ b) = s.events accepts shape b := by
  unfold heard at h ⊢
  rw [events_append, h]

theorem heard_append_error {e : Error} (h : heard shape a = (.error e, s)) (b : List String) :
    heard shape (a ++ b) = (.error e, s) := by
  unfold heard at h ⊢
  rw [events_append, h]

theorem heard_append_terminal (h : heard shape a = (.ok (), s)) (ht : s.terminal = true)
    (b : List String) : heard shape (a ++ b) = (.ok (), s) := by
  rw [heard_append h, events_of_terminal ht]

/-- What a stream without fault comes to. -/
def cleanResult (maxBytes : Nat) (shape : Shape) (broken : Bool) (stream : List UInt8)
    (events data : List String) : Except Error String × StreamState :=
  match heard shape events with
  | (.error e, s) => (.error e, s)
  | (.ok (), s) =>
      if s.terminal then (s.answer, s)
      else if broken then (.error (.code "provider_unavailable"), s)
      else
        match readEnd accepts shape (decoderAt maxBytes stream data) s with
        | (.error e, s) => (.error e, s)
        | (.ok (), s) => (s.answer, s)

/-- Without a fault all chunks together say what the stream says. -/
theorem readFrom_clean {evs data : List String} {broken : Bool}
    (hd : decoded stream = .ok (evs, data)) (hlen : stream.length ≤ maxBytes)
    (chunks : List (List UInt8)) (a : List UInt8) (evsA dataA : List String)
    (ha : a ++ chunks.flatten = stream) (hda : decoded a = .ok (evsA, dataA))
    (hs : heard shape evsA = (.ok (), s)) (ht : s.terminal = false) :
    readFrom accepts shape broken chunks (decoderAt maxBytes a dataA) s =
      cleanResult maxBytes shape broken stream evs data := by
  induction chunks generalizing a evsA dataA s with
  | nil =>
      rw [List.flatten_nil, List.append_nil] at ha
      subst ha
      obtain ⟨rfl, rfl⟩ := Prod.mk.inj (Except.ok.inj (hda.symm.trans hd))
      rw [cleanResult, hs]
      simp only [readFrom, readChunks, ht, Bool.false_eq_true, if_false]
      cases broken <;> rfl
  | cons chunk chunks ih =>
      rw [List.flatten_cons, ← List.append_assoc] at ha
      obtain ⟨evs', data', hnext⟩ := decoded_prefix (ha ▸ hd)
      have hshort : (a ++ chunk).length ≤ maxBytes := by
        rw [← ha, List.length_append] at hlen
        omega
      rcases push_of_decoded hda hshort with ⟨e, he, -⟩ | ⟨more, data'', hmore, hpush⟩
      · rw [he] at hnext
        cases hnext
      have hevs : ∃ rest, evs = (evsA ++ more) ++ rest := by
        rw [← ha, decoded_append hmore] at hd
        cases hlast : readLines data'' _ with
        | error e =>
            rw [hlast] at hd
            cases hd
        | ok r =>
            rw [hlast] at hd
            cases hd
            exact ⟨_, rfl⟩
      obtain ⟨rest, rfl⟩ := hevs
      have hheard := heard_append hs more
      simp only [readFrom, readChunks, hpush]
      cases hr : s.events accepts shape more with
      | mk r s' =>
          rw [hr] at hheard
          cases r with
          | error e => rw [cleanResult, heard_append_error hheard]
          | ok u =>
              by_cases ht' : s'.terminal = true
              · rw [cleanResult, heard_append_terminal hheard ht']
                simp only [ht', if_true, readEnd]
              · simp only [ht', Bool.false_eq_true, if_false]
                exact ih (a ++ chunk) (evsA ++ more) data'' ha hmore hheard
                  (Bool.eq_false_iff.mpr ht')

/-- Where the fault is found makes no difference: it is the same fault, and no event before
it fails differently, or ends the stream. -/
def SameFault (maxBytes : Nat) (shape : Shape) (stream : List UInt8) (e : Error) : Prop :=
  firstFault maxBytes stream = some e ∧
    ((heard shape (eventsBefore maxBytes stream)).1 = .error e ∨
      (heard shape (eventsBefore maxBytes stream)).1 = .ok () ∧
        (heard shape (eventsBefore maxBytes stream)).2.terminal = false)

/-- The attempt fails with nothing handed over, with the error if it makes no difference. -/
def Fails (r : Except Error String × StreamState) (e : Error) (same : Prop) : Prop :=
  ∃ e' s', r = (.error e', s') ∧ s'.deltas = [] ∧ (same → e' = e)

theorem deltas_of_append {b : List String} {r : Except Error Unit} (h : heard shape a = (r, s))
    (hnone : (heard shape (a ++ b)).2.deltas = []) : s.deltas = [] := by
  cases r with
  | error e => rwa [heard_append_error h] at hnone
  | ok u =>
      obtain ⟨more, hmore⟩ := events_deltas accepts shape s b
      rw [heard_append h, hmore] at hnone
      exact (List.append_eq_nil_iff.mp hnone).1

/-- With a fault, and no text before it, every way of cutting the stream fails. -/
theorem readFrom_faulty (broken : Bool) {e : Error} (hfault : wholeFault maxBytes stream = some e)
    (hnone : (heard shape (eventsBefore maxBytes stream)).2.deltas = [])
    (chunks : List (List UInt8)) (a : List UInt8) (evsA dataA : List String)
    (ha : a ++ chunks.flatten = stream) (hlen : a.length ≤ maxBytes)
    (hda : decoded a = .ok (evsA, dataA)) (hs : heard shape evsA = (.ok (), s))
    (ht : s.terminal = false) :
    Fails (readFrom accepts shape broken chunks (decoderAt maxBytes a dataA) s) e
      (SameFault maxBytes shape stream e) := by
  induction chunks generalizing a evsA dataA s with
  | nil =>
      rw [List.flatten_nil, List.append_nil] at ha
      subst ha
      rw [wholeFault, if_neg (Nat.not_lt.mpr hlen), hda] at hfault
      cases hfault
  | cons chunk chunks ih =>
      obtain ⟨before, hbefore⟩ := eventsBefore_append hda hlen (chunk :: chunks).flatten
      rw [ha] at hbefore
      have hsilent : s.deltas = [] := deltas_of_append hs (hbefore ▸ hnone)
      rw [List.flatten_cons, ← List.append_assoc] at ha
      -- the bound is on what has arrived, so the chunk that crosses it fails
      by_cases hlong : maxBytes < (a ++ chunk).length
      · refine ⟨tooLarge, s, ?_, hsilent, fun _ => ?_⟩
        · simp only [readFrom, readChunks, push_too_large _ hlong]
        · rw [wholeFault, if_pos (by rw [← ha, List.length_append]; omega)] at hfault
          exact Option.some.inj hfault
      have hlen' : (a ++ chunk).length ≤ maxBytes := Nat.not_lt.mp hlong
      rcases push_of_decoded hda hlen' with ⟨e', he, hpush⟩ | ⟨more, data', hmore, hpush⟩
      · refine ⟨e', s, ?_, hsilent, fun hsame => ?_⟩
        · simp only [readFrom, readChunks, hpush]
        · have hfirst := hsame.1
          have htake : ∃ rest, stream.take maxBytes = (a ++ chunk) ++ rest := by
            rw [← ha, List.take_append, List.take_of_length_le hlen']
            exact ⟨_, rfl⟩
          obtain ⟨rest, htake⟩ := htake
          unfold firstFault at hfirst
          cases hd : decoded (stream.take maxBytes) with
          | ok r =>
              rw [htake] at hd
              obtain ⟨_, _, hok⟩ := decoded_prefix hd
              rw [he] at hok
              cases hok
          | error e'' =>
              rw [hd] at hfirst
              rw [decoded_error he, ← Option.some.inj hfirst, decoded_error hd]
      · obtain ⟨after, hafter⟩ := eventsBefore_append hmore hlen' chunks.flatten
        rw [ha] at hafter
        have hheard := heard_append hs more
        simp only [readFrom, readChunks, hpush]
        cases hr : s.events accepts shape more with
        | mk r s' =>
            rw [hr] at hheard
            have hsilent' : s'.deltas = [] := deltas_of_append hheard (hafter ▸ hnone)
            cases r with
            | error e' =>
                refine ⟨e', s', rfl, hsilent', fun hsame => ?_⟩
                have hall := heard_append_error hheard after
                rcases hsame.2 with h | ⟨h, -⟩
                · rw [hafter, hall] at h
                  exact Except.error.inj h
                · rw [hafter, hall] at h
                  cases h
            | ok u =>
                by_cases ht' : s'.terminal = true
                · have hall := heard_append_terminal hheard ht' after
                  have htext : s'.text = "" := by
                    have hdelivered := (events_delivered accepts shape (evsA ++ more)
                      start_delivered).2
                    rw [show StreamState.start.events accepts shape (evsA ++ more) = (.ok (), s')
                      from hheard] at hdelivered
                    rw [(hdelivered rfl).text, hsilent']
                    rfl
                  refine ⟨.code "empty_response", s', ?_, hsilent', fun hsame => ?_⟩
                  · simp only [ht', if_true, readEnd, StreamState.answer, htext]
                    rfl
                  · rcases hsame.2 with h | ⟨-, h⟩
                    · rw [hafter, hall] at h
                      cases h
                    · rw [hafter, hall, ht'] at h
                      cases h
                · simp only [ht', Bool.false_eq_true, if_false]
                  exact ih (a ++ chunk) (evsA ++ more) data' ha hlen' hmore hheard
                    (Bool.eq_false_iff.mpr ht')

/-- In one chunk a fault hides all events. -/
theorem readFrom_whole {broken : Bool} {e : Error} (hfault : wholeFault maxBytes stream = some e) :
    readFrom accepts shape broken [stream] (.new maxBytes) .start = (.error e, .start) := by
  have hpush : (SseDecoder.new maxBytes).push stream = .error e := by
    by_cases hlong : maxBytes < stream.length
    · rw [wholeFault, if_pos hlong] at hfault
      rw [← Option.some.inj hfault]
      exact push_too_large [] (a := []) hlong
    · rw [wholeFault, if_neg hlong] at hfault
      have h : decoded ([] : List UInt8) = .ok ([], []) := rfl
      rcases push_of_decoded h (Nat.not_lt.mp hlong) with ⟨e', he, hpush⟩ | ⟨more, data, hmore, -⟩
      · rw [List.nil_append] at he
        rw [he] at hfault
        rw [← Option.some.inj hfault]
        exact hpush
      · rw [List.nil_append] at hmore
        rw [hmore] at hfault
        cases hfault
  simp only [readFrom, readChunks, hpush]

/-- A stream that is cut before and behind its first fault is read up to it. -/
theorem readFrom_pieces (shape : Shape) (broken : Bool) {e : Error}
    (hfault : firstFault maxBytes stream = some e) :
    ∃ chunks : List (List UInt8), chunks.flatten = stream ∧
      readFrom accepts shape broken chunks (.new maxBytes) .start =
        match heard shape (eventsBefore maxBytes stream) with
        | (.error e, s) => (.error e, s)
        | (.ok (), s) => if s.terminal then (s.answer, s) else (.error e, s) := by
  -- The first chunk has the events, the second one the fault.
  have hread : ∀ front evs data fault back, front ++ (fault ++ back) = stream →
      decoded front = .ok (evs, data) → front.length ≤ maxBytes →
      eventsBefore maxBytes stream = evs →
      (decoderAt maxBytes front data).push fault = .error e →
      readFrom accepts shape broken [front, fault, back] (.new maxBytes) .start =
        match heard shape (eventsBefore maxBytes stream) with
        | (.error e, s) => (.error e, s)
        | (.ok (), s) => if s.terminal then (s.answer, s) else (.error e, s) := by
    intro front evs data fault back _ hdecoded hlen hbefore hpush
    have h : decoded ([] : List UInt8) = .ok ([], []) := rfl
    rcases push_of_decoded h (b := front) hlen with ⟨e', he, -⟩ | ⟨more, data', hmore, hfront⟩
    · rw [List.nil_append, hdecoded] at he
      cases he
    · rw [List.nil_append, List.nil_append, hdecoded] at hmore
      cases hmore
      rw [hbefore]
      change (SseDecoder.new maxBytes).push front =
          .ok (evs, decoderAt maxBytes front data) at hfront
      simp only [readFrom, readChunks, hfront]
      show _ = match heard shape evs with
        | (Except.error e, s) => (Except.error e, s)
        | (.ok (), s) => if s.terminal then (s.answer, s) else (.error e, s)
      unfold heard
      cases StreamState.start.events accepts shape evs with
      | mk r s =>
          cases r with
          | error e' => rfl
          | ok u =>
              cases ht : s.terminal with
              | true => simp only [ht, if_true, readEnd]
              | false => simp only [ht, Bool.false_eq_true, if_false, hpush]
  unfold firstFault at hfault
  cases hd : decoded (stream.take maxBytes) with
  | ok r =>
      rw [hd] at hfault
      by_cases hlong : maxBytes < stream.length
      · simp only [if_pos hlong] at hfault
        obtain rfl := Option.some.inj hfault
        refine ⟨[stream.take maxBytes, stream.drop maxBytes, []], by simp, ?_⟩
        refine hread _ r.1 r.2 _ [] (by simp) hd (List.length_take_le _ _)
          (eventsUntil_of_ok hd) (push_too_large _ ?_)
        rwa [List.take_append_drop]
      · simp only [if_neg hlong] at hfault
        cases hfault
  | error e' =>
      rw [hd] at hfault
      obtain rfl := Option.some.inj hfault
      obtain ⟨rfl, before, line, after, evs, data, hlines, hbefore, hbad⟩ := readLines_error hd
      obtain ⟨front, back, htake, hfront, hline⟩ := split_at_frame hlines
      have hstream : front ++ ((line ++ [newline]) ++ (back ++ stream.drop maxBytes)) = stream := by
        have h := List.take_append_drop maxBytes stream
        rw [htake] at h
        simpa only [List.append_assoc] using h
      have hlen : (front ++ (line ++ [newline])).length ≤ maxBytes := by
        have h := List.length_take_le maxBytes stream
        rw [htake] at h
        simp only [List.length_append] at h ⊢
        omega
      have hdecoded : decoded front = .ok (evs, data) := by rw [decoded, hfront]; exact hbefore
      refine ⟨_, by simpa using hstream, hread _ evs data _ _ hstream hdecoded ?_ ?_ ?_⟩
      · rw [List.length_append] at hlen
        omega
      · unfold eventsBefore
        rw [hlines, eventsUntil_append hbefore, eventsUntil, hbad, List.append_nil]
      · rcases push_of_decoded hdecoded hlen with ⟨e', he, hpush⟩ | ⟨more, data', hmore, -⟩
        · rw [hpush, decoded_error he]
        · rw [decoded_append hdecoded, hfront, List.nil_append, hline] at hmore
          simp only [readLines, hbad] at hmore
          cases hmore

end

end YoinkCore.Insight
