import YoinkCore.Insight.Chunking

/-!
# Calls and packet borders

`Borderless` is the condition under which a call hands over and returns the same however the
streams of its routes are cut.
-/

namespace YoinkCore.Insight

open Lib Framing

section

variable [JsonReader]

/-! ## The condition -/

/-- The events of a stream, as far as they are read. -/
def Response.events (maxBytes : Nat) (r : Response) : List String :=
  eventsBefore maxBytes r.chunks.flatten ++
    if r.broken || (firstFault maxBytes r.chunks.flatten).isSome then []
    else
      match decoded r.chunks.flatten with
      | .ok (_, data) =>
          match (decoderAt maxBytes r.chunks.flatten data).finish with
          | .ok (events, _) => events
          | .error _ => []
      | .error _ => []

/-- The response whose body an attempt reads. -/
def Offer.opened (maxBytes : Nat) (prompt : String) (o : Offer) : Except Error Response :=
  openStream maxBytes o.route prompt o.reply

/-- No event of the route has text. -/
def Offer.Silent (maxBytes : Nat) (prompt : String) (o : Offer) : Prop :=
  ∀ r, o.opened maxBytes prompt = .ok r →
    (heard o.route.shape (r.events maxBytes)).2.deltas = []

/-- A fault has no text before it. Where the call ends with the route, the fault is the same
wherever it is found. So for each route up to the first that has text. -/
def Borderless (maxBytes : Nat) (prompt : String) : List Offer → Prop
  | [] => True
  | o :: offers =>
      (∀ r e, o.opened maxBytes prompt = .ok r →
        wholeFault maxBytes r.chunks.flatten = some e →
        (heard o.route.shape (eventsBefore maxBytes r.chunks.flatten)).2.deltas = [] ∧
          (offers = [] ∨ o.route.isByok = true →
            SameFault maxBytes o.route.shape r.chunks.flatten e)) ∧
      (o.route.isByok = false → o.Silent maxBytes prompt → Borderless maxBytes prompt offers)

/-- The streams of the offer, cut differently. -/
def Offer.Recut (o o' : Offer) : Prop :=
  ∃ chunks : List (List UInt8),
    (∀ r, o.reply = .ok r → chunks.flatten = r.chunks.flatten) ∧
      o' = { o with reply := o.reply.map ({ · with chunks }) }

/-- What the caller sees. -/
def Outcome.seen (out : Outcome) : List (Nat × String) × Except Error String :=
  (out.deltas, out.result)

/-! ## One route -/

omit [JsonReader] in
theorem Offer.Recut.refl (o : Offer) : o.Recut o := by
  obtain ⟨route, reply, interruption⟩ := o
  cases reply with
  | error e => exact ⟨[], fun _ h => (nomatch h), rfl⟩
  | ok r => exact ⟨r.chunks, fun _ h => by cases h; rfl, rfl⟩

variable {maxBytes : Nat} {prompt : String}

omit [JsonReader] in
theorem opened_recut (o : Offer) (chunks : List (List UInt8)) :
    ({ o with reply := o.reply.map ({ · with chunks }) } : Offer).opened maxBytes prompt =
      (o.opened maxBytes prompt).map ({ · with chunks }) := by
  unfold Offer.opened openStream
  cases streamContract o.route prompt with
  | error e => rfl
  | ok c =>
      cases o.reply with
      | error e => rfl
      | ok r =>
          by_cases hstatus : (!(200 ≤ r.status && r.status ≤ 299)) = true
          · simp only [bind, Except.bind, Except.map, hstatus, if_true]
            rfl
          · by_cases hlength : r.contentLength.any (maxBytes < ·) = true
            · simp [bind, Except.bind, Except.map, hstatus, hlength]
              rfl
            · simp [bind, Except.bind, Except.map, hstatus, hlength]
              rfl

variable {o o' : Offer} {offers : List Offer} {r : Response}

/-- What an attempt comes to that is not interrupted. -/
theorem attempt_of_opened (hi : o.interruption = none) :
    o.attempt maxBytes prompt accepts =
      match o.opened maxBytes prompt with
      | .error e => (.error e, .start)
      | .ok r =>
          readFrom accepts o.route.shape r.broken r.chunks (.new maxBytes) .start := by
  unfold Offer.attempt
  rw [hi]
  rfl

variable {s : StreamState} {data evs : List String} {stream : List UInt8}

omit [JsonReader] in
theorem answer_ne {text : String} (h : s.answer = .ok text) : text ≠ "" := by
  unfold StreamState.answer at h
  split at h
  · cases h
  · split at h
    · cases h
    · rename_i hblank
      cases h
      rintro he
      rw [he] at hblank
      exact hblank rfl

theorem attempt_ne (text : String) {sink : DeltaSink}
    (h : (o.attempt maxBytes prompt sink).1 = .ok text) : text ≠ "" := by
  unfold Offer.attempt at h
  split at h
  · unfold streamAttempt at h
    split at h
    · cases h
    · unfold readFrom at h
      split at h
      · cases h
      · split at h
        · cases h
        · exact answer_ne h
  · cases h

/-- An answer is text that was handed over. -/
theorem not_ok_of_silent {r : Except Error String × StreamState}
    (h : o.attempt maxBytes prompt accepts = r) (hnone : r.2.deltas = []) :
    ∃ e s, r = (.error e, s) ∧ s.emitted = false := by
  have hd := attempt_delivered maxBytes prompt accepts o
  rw [h] at hd
  obtain ⟨result, s⟩ := r
  cases result with
  | error e => exact ⟨e, s, rfl, hd.1.mpr hnone⟩
  | ok text =>
      refine absurd ?_ (attempt_ne text (by rw [h]))
      rw [hd.2 text rfl, show s.deltas = [] from hnone]
      rfl

theorem readFrom_start (shape : Shape) (hd : decoded r.chunks.flatten = .ok (evs, data))
    (hlen : r.chunks.flatten.length ≤ maxBytes) :
    readFrom accepts shape r.broken r.chunks (.new maxBytes) .start =
      cleanResult maxBytes shape r.broken r.chunks.flatten evs data :=
  readFrom_clean (s := .start) hd hlen r.chunks [] [] [] rfl rfl rfl rfl

/-- Without a fault the deltas are those of the events. -/
theorem cleanResult_deltas {shape : Shape} (hd : decoded r.chunks.flatten = .ok (evs, data))
    (hlen : r.chunks.flatten.length ≤ maxBytes) :
    (cleanResult maxBytes shape r.broken r.chunks.flatten evs data).2.deltas =
      (heard shape (r.events maxBytes)).2.deltas := by
  have hbefore : eventsBefore maxBytes r.chunks.flatten = evs := by
    rw [eventsBefore, List.take_of_length_le hlen, eventsUntil_of_ok hd]
  have hfault : firstFault maxBytes r.chunks.flatten = none := by
    rw [firstFault, List.take_of_length_le hlen, hd]
    exact if_neg (Nat.not_lt.mpr hlen)
  unfold Response.events cleanResult
  rw [hbefore, hfault, hd]
  cases hr : heard shape evs with
  | mk result s =>
      cases result with
      | error e => rw [heard_append_error hr]
      | ok u =>
          by_cases ht : s.terminal = true
          · rw [heard_append_terminal hr ht]
            simp only [ht, if_true]
          · rw [heard_append hr]
            simp only [ht, Bool.false_eq_true, if_false, Option.isSome_none, Bool.or_false]
            by_cases hbroken : r.broken = true
            · simp only [hbroken, if_true]
              rfl
            · simp only [hbroken, Bool.false_eq_true, if_false, readEnd, ht]
              cases (decoderAt maxBytes r.chunks.flatten data).finish with
              | error e => rfl
              | ok ended =>
                  simp only
                  cases s.events accepts shape ended.1 with
                  | mk result s' => cases result <;> rfl

/-- A silent route fails with nothing handed over. -/
theorem attempt_of_silent (hi : o.interruption = none) (hs : o.Silent maxBytes prompt) :
    ∃ e s, o.attempt maxBytes prompt accepts = (.error e, s) ∧ s.deltas = [] ∧
      s.emitted = false := by
  have hsilent : (o.attempt maxBytes prompt accepts).2.deltas = [] := by
    rw [attempt_of_opened hi]
    cases ho : o.opened maxBytes prompt with
    | error e => rfl
    | ok r =>
        have hnone := hs r ho
        simp only
        cases hw : wholeFault maxBytes r.chunks.flatten with
        | none =>
            unfold wholeFault at hw
            split at hw
            · cases hw
            · rename_i hlen
              cases hd : decoded r.chunks.flatten with
              | error e =>
                  rw [hd] at hw
                  cases hw
              | ok p =>
                  rw [readFrom_start _ hd (Nat.not_lt.mp hlen),
                    cleanResult_deltas hd (Nat.not_lt.mp hlen), hnone]
        | some e =>
            have hf : (firstFault maxBytes r.chunks.flatten).isSome = true := by
              rw [← wholeFault_isSome, hw]
              rfl
            rw [Response.events, hf, Bool.or_true, if_pos rfl, List.append_nil] at hnone
            obtain ⟨e', s', hr, hdeltas, -⟩ := readFrom_faulty r.broken hw hnone
              r.chunks [] [] [] (s := .start) rfl (Nat.zero_le _) rfl rfl rfl
            rw [show SseDecoder.new maxBytes = decoderAt maxBytes [] [] from rfl, hr]
            exact hdeltas
  obtain ⟨e, s, hr, he⟩ := not_ok_of_silent rfl hsilent
  exact ⟨e, s, hr, by rw [hr] at hsilent; exact hsilent, he⟩

/-! ## Routes in turn -/

/-- One more route with nothing handed over before. -/
theorem tryRoutes_cons (o : Offer) (offers : List Offer) (tried : Nat) (last : Error)
    (hi : o.interruption = none) :
    tryRoutes maxBytes prompt accepts (o :: offers) tried [] last =
      match o.attempt maxBytes prompt accepts with
      | (.ok text, s) => ⟨s.deltas.map fun delta => (tried + 1, delta), tried + 1, .ok text⟩
      | (.error e, s) =>
          if s.emitted || o.route.isByok then
            ⟨s.deltas.map fun delta => (tried + 1, delta), tried + 1, .error e⟩
          else tryRoutes maxBytes prompt accepts offers (tried + 1) [] e := by
  have hd := attempt_delivered maxBytes prompt accepts o
  have hsink : (fun deltas => accepts (([] : List (Nat × String)).map Prod.snd ++ deltas)) =
    accepts := rfl
  rw [tryRoutes]
  simp only [hsink, List.nil_append]
  cases hr : o.attempt maxBytes prompt accepts with
  | mk result s =>
      rw [hr] at hd
      cases result with
      | ok text => rfl
      | error e =>
          simp only [hi, Option.isSome_none, Bool.false_or]
          by_cases hstop : (s.emitted || o.route.isByok) = true
          · rw [if_pos hstop, if_pos hstop]
          · rw [if_neg hstop, if_neg hstop]
            simp only [Bool.or_eq_true, not_or, Bool.not_eq_true] at hstop
            rw [show s.deltas = [] from hd.1.mp hstop.1, List.map_nil]

/-- Later attempts have higher numbers. -/
theorem lt_of_mem_deltas (hi : ∀ o ∈ offers, o.interruption = none) (tried : Nat) (last : Error) :
    ∀ d ∈ (tryRoutes maxBytes prompt accepts offers tried [] last).deltas, tried < d.1 := by
  induction offers generalizing tried last with
  | nil => exact fun _ h => nomatch h
  | cons o offers ih =>
      rw [tryRoutes_cons o offers tried last (hi o List.mem_cons_self)]
      have hown : ∀ s : StreamState,
          ∀ d ∈ s.deltas.map fun delta => (tried + 1, delta), tried < d.1 := by
        intro s d hd
        obtain ⟨_, -, rfl⟩ := List.mem_map.mp hd
        exact Nat.lt_succ_self _
      split
      · exact hown _
      · split
        · exact hown _
        · intro d hd
          exact Nat.lt_of_succ_lt
            (ih (fun o ho => hi o (List.mem_cons_of_mem _ ho)) (tried + 1) _ d hd)

/-! ## Recut streams -/

omit [JsonReader] in
theorem reply_of_opened (h : o.opened maxBytes prompt = .ok r) : o.reply = .ok r := by
  unfold Offer.opened openStream at h
  cases hc : streamContract o.route prompt with
  | error e =>
      rw [hc] at h
      cases h
  | ok c =>
      cases hr : o.reply with
      | error e =>
          rw [hc, hr] at h
          cases h
      | ok r' =>
          rw [hc, hr] at h
          simp only [bind, Except.bind] at h
          split at h
          · cases h
          · split at h
            · cases h
            · exact h

omit [JsonReader] in
/-- A route that is cut differently is opened as before, with other chunks. -/
theorem Offer.Recut.opened (h : o.Recut o') (maxBytes : Nat) (prompt : String) :
    (∃ e, o.opened maxBytes prompt = .error e ∧ o'.opened maxBytes prompt = .error e) ∨
    ∃ r chunks, o.opened maxBytes prompt = .ok r ∧
      o'.opened maxBytes prompt = .ok { r with chunks } ∧
      chunks.flatten = r.chunks.flatten := by
  obtain ⟨chunks, hflat, rfl⟩ := h
  rw [opened_recut]
  cases ho : o.opened maxBytes prompt with
  | error e => exact .inl ⟨e, rfl, rfl⟩
  | ok r => exact .inr ⟨r, chunks, rfl, rfl, hflat r (reply_of_opened ho)⟩

omit [JsonReader] in
theorem Offer.Recut.route (h : o.Recut o') : o'.route = o.route := by
  obtain ⟨_, -, rfl⟩ := h
  rfl

omit [JsonReader] in
theorem Offer.Recut.interruption (h : o.Recut o') : o'.interruption = o.interruption := by
  obtain ⟨_, -, rfl⟩ := h
  rfl

omit [JsonReader] in
theorem decoded_of_wholeFault (h : wholeFault maxBytes stream = none) :
    stream.length ≤ maxBytes ∧ ∃ evs data, decoded stream = .ok (evs, data) := by
  unfold wholeFault at h
  split at h
  · cases h
  · rename_i hlen
    refine ⟨Nat.not_lt.mp hlen, ?_⟩
    cases hd : decoded stream with
    | ok r => exact ⟨r.1, r.2, rfl⟩
    | error e =>
        rw [hd] at h
        cases h

omit [JsonReader] in
/-- The events of a stream with a fault are those before it. -/
theorem Response.events_of_fault {e : Error} (h : wholeFault maxBytes r.chunks.flatten = some e) :
    r.events maxBytes = eventsBefore maxBytes r.chunks.flatten := by
  have hf : (firstFault maxBytes r.chunks.flatten).isSome = true := by
    rw [← wholeFault_isSome, h]
    rfl
  rw [Response.events, hf, Bool.or_true, if_pos rfl, List.append_nil]

/-- How a route may be cut: both attempts agree, or both fail with nothing handed over. -/
theorem attempt_recut (hcut : o.Recut o') (hi : o.interruption = none) {same : Prop}
    (h : ∀ r e, o.opened maxBytes prompt = .ok r →
      wholeFault maxBytes r.chunks.flatten = some e →
      (heard o.route.shape (eventsBefore maxBytes r.chunks.flatten)).2.deltas = [] ∧
      (same → SameFault maxBytes o.route.shape r.chunks.flatten e)) :
    (o'.attempt maxBytes prompt accepts = o.attempt maxBytes prompt accepts ∧
      ((o.attempt maxBytes prompt accepts).2.deltas = [] → o.Silent maxBytes prompt)) ∨
    o.Silent maxBytes prompt ∧ o'.Silent maxBytes prompt ∧
      (same → (o'.attempt maxBytes prompt accepts).1 = (o.attempt maxBytes prompt accepts).1) := by
  rw [attempt_of_opened hi, attempt_of_opened (hcut.interruption.trans hi), hcut.route]
  rcases hcut.opened maxBytes prompt with
    ⟨e, ho, ho'⟩ | ⟨r, chunks, ho, ho', hflat⟩
  · refine .inl ⟨by rw [ho, ho'], fun _ r hr => ?_⟩
    rw [ho] at hr
    cases hr
  · rw [ho, ho']
    simp only
    cases hw : wholeFault maxBytes r.chunks.flatten with
    | none =>
        obtain ⟨hlen, evs, data, hd⟩ := decoded_of_wholeFault hw
        have hcut' := readFrom_start o.route.shape (r := { r with chunks })
          (hflat ▸ hd) (hflat ▸ hlen)
        simp only [hflat] at hcut'
        rw [readFrom_start _ hd hlen, hcut']
        refine .inl ⟨rfl, fun hnone r' hr' => ?_⟩
        obtain rfl := Except.ok.inj (ho.symm.trans hr')
        rwa [cleanResult_deltas hd hlen] at hnone
    | some e =>
        obtain ⟨hnone, hsame⟩ := h r e ho hw
        have hevents := Response.events_of_fault hw
        have hevents' := Response.events_of_fault (r := { r with chunks }) (e := e) (hflat ▸ hw)
        have hsilent : o.Silent maxBytes prompt := by
          intro r' hr'
          obtain rfl := Except.ok.inj (ho.symm.trans hr')
          rwa [hevents]
        have hsilent' : o'.Silent maxBytes prompt := by
          intro r' hr'
          obtain rfl := Except.ok.inj (ho'.symm.trans hr')
          rw [hevents', hcut.route, hflat]
          exact hnone
        refine .inr ⟨hsilent, hsilent', fun hs => ?_⟩
        have hfails := readFrom_faulty r.broken hw hnone r.chunks [] [] [] (s := .start)
          rfl (Nat.zero_le _) rfl rfl rfl
        have hfails' := readFrom_faulty r.broken hw hnone chunks [] [] [] (s := .start)
          hflat (Nat.zero_le _) rfl rfl rfl
        obtain ⟨e₁, s₁, hr₁, -, he₁⟩ := hfails
        obtain ⟨e₂, s₂, hr₂, -, he₂⟩ := hfails'
        rw [show SseDecoder.new maxBytes = decoderAt maxBytes [] [] from rfl, hr₁, hr₂,
          he₁ (hsame hs), he₂ (hsame hs)]

/-- Streams that are borderless may be cut in any way. -/
theorem tryRoutes_recut {offers' : List Offer} (hcut : List.Forall₂ Offer.Recut offers offers')
    (hi : ∀ o ∈ offers, o.interruption = none) (h : Borderless maxBytes prompt offers)
    (tried : Nat) {last last' : Error} (hlast : offers = [] → last = last') :
    (tryRoutes maxBytes prompt accepts offers' tried [] last').seen =
      (tryRoutes maxBytes prompt accepts offers tried [] last).seen := by
  induction hcut generalizing tried last last' with
  | nil => rw [hlast rfl]
  | @cons o o' offers offers' hoo hcut ih =>
      have hio := hi o List.mem_cons_self
      have hio' := hoo.interruption.trans hio
      have hi' : ∀ o ∈ offers, o.interruption = none := fun o ho => hi o (List.mem_cons_of_mem _ ho)
      rw [tryRoutes_cons o offers tried last hio, tryRoutes_cons o' offers' tried last' hio',
        hoo.route]
      rcases attempt_recut hoo hio h.1 with ⟨hsame, hquiet⟩ | ⟨hsilent, hsilent', hsame⟩
      · rw [hsame]
        have hd := attempt_delivered maxBytes prompt accepts o
        cases hr : o.attempt maxBytes prompt accepts with
        | mk result s =>
            rw [hr] at hquiet hd
            cases result with
            | ok text => rfl
            | error e =>
                simp only
                split
                · rfl
                · rename_i hstop
                  simp only [Bool.or_eq_true, not_or, Bool.not_eq_true] at hstop
                  exact ih hi' (h.2 hstop.2 (hquiet (hd.1.mp hstop.1))) (tried + 1) fun _ => rfl
      · obtain ⟨e, s, hr, hdeltas, hemitted⟩ := attempt_of_silent hio hsilent
        obtain ⟨e', s', hr', hdeltas', hemitted'⟩ := attempt_of_silent hio' hsilent'
        rw [hr, hr'] at hsame
        rw [hr, hr']
        simp only [hemitted, hemitted', Bool.false_or]
        by_cases hbyok : o.route.isByok = true
        · rw [if_pos hbyok, if_pos hbyok, hdeltas, hdeltas',
            Except.error.inj (hsame (.inr hbyok))]
        · rw [if_neg hbyok, if_neg hbyok]
          refine ih hi' (h.2 (Bool.eq_false_iff.mpr hbyok) hsilent) (tried + 1) fun hnil => ?_
          exact (Except.error.inj (hsame (.inl hnil))).symm

/-! ## Two ways of cutting a stream -/

theorem value_ne_tooLarge (shape : Shape) (event : String) (s : StreamState) :
    (s.value shape event).2 ≠ .error tooLarge := by
  unfold StreamState.value
  split
  · simp [parseFailed, tooLarge]
  · split
    · simp [tooLarge]
    · cases shape
      · unfold Shape.read readOpenAi
        dsimp only
        split
        · simp [tooLarge]
        · split <;> simp [tooLarge]
      · unfold Shape.read readAnthropic
        dsimp only
        have hlength : ∀ (c : Prop) [Decidable c] (p : String × Bool),
            (if c then .error (.code "response_truncated") else .ok p :
              Except Error (String × Bool)) ≠ .error tooLarge := by
          intro c _ p
          split <;> simp [tooLarge]
        rw [apply_ite Prod.snd]
        exact hlength _ _
      · unfold Shape.read readGemini
        dsimp only
        split
        · simp [tooLarge]
        · split
          · simp [tooLarge]
          · split <;> simp [tooLarge]

/-- No event says that the response is too large. -/
theorem events_ne_tooLarge (shape : Shape) (events : List String) :
    (s.events accepts shape events).1 ≠ .error tooLarge := by
  induction events generalizing s with
  | nil => simp [StreamState.events]
  | cons event more ih =>
      have hevent : (s.event accepts shape event).1 ≠ .error tooLarge := by
        have hvalue := value_ne_tooLarge shape event s
        unfold StreamState.event
        split
        · simp
        · split
          · split <;> simp [parseFailed, tooLarge]
          · cases hv : s.value shape event with
            | mk endReason r =>
                rw [hv] at hvalue
                cases r with
                | error e => simpa using hvalue
                | ok p =>
                    dsimp only
                    split <;> simp [accepts]
      unfold StreamState.events
      cases hr : s.event accepts shape event with
      | mk r s' =>
          rw [hr] at hevent
          cases r with
          | error e => exact hevent
          | ok u => exact ih

omit [JsonReader] in
theorem wholeFault_cases {e : Error} (h : wholeFault maxBytes stream = some e) :
    e = tooLarge ∨ e = parseFailed ∧ firstFault maxBytes stream = some e := by
  unfold wholeFault at h
  split at h
  · exact .inl (Option.some.inj h).symm
  · rename_i hlen
    cases hd : decoded stream with
    | ok r =>
        rw [hd] at h
        cases h
    | error e' =>
        rw [hd] at h
        obtain rfl := Option.some.inj h
        refine .inr ⟨decoded_error hd, ?_⟩
        rw [firstFault, List.take_of_length_le (Nat.not_lt.mp hlen), hd]

/-- What comes of an attempt that has failed with nothing handed over, where the call ends. -/
theorem result_of_last {tried : Nat} {e : Error} (hs : s.emitted = false)
    (hend : offers = [] ∨ o.route.isByok = true) :
    (if s.emitted || o.route.isByok then
      ⟨s.deltas.map fun delta => (tried + 1, delta), tried + 1, .error e⟩
      else tryRoutes maxBytes prompt accepts offers (tried + 1) [] e : Outcome).seen.2 =
    .error e := by
  rw [hs, Bool.false_or]
  rcases hend with rfl | hbyok
  · split <;> rfl
  · rw [if_pos hbyok]
    rfl

/-- A stream may be cut in any way. -/
theorem exists_recut (hi : o.interruption = none) (ho : o.opened maxBytes prompt = .ok r)
    (chunks : List (List UInt8)) (h : chunks.flatten = r.chunks.flatten) :
    ∃ o', o.Recut o' ∧ o'.attempt maxBytes prompt accepts =
      readFrom accepts o.route.shape r.broken chunks (.new maxBytes) .start := by
  refine ⟨_, ⟨chunks, fun r' hr' => ?_, rfl⟩, (attempt_of_opened ?_).trans ?_⟩
  · rw [reply_of_opened ho] at hr'
    rw [h, Except.ok.inj hr']
  · exact hi
  · rw [opened_recut, ho]
    rfl

/-- If a stream with a fault may be cut in any way, then no event with text is before the
fault, and a final fault is the same fault however it is found. -/
theorem fault_of_recut {e : Error} (hi : ∀ o' ∈ o :: offers, o'.interruption = none) (tried : Nat)
    (last : Error) (hcut : ∀ o', o.Recut o' →
      (tryRoutes maxBytes prompt accepts (o' :: offers) tried [] last).seen =
      (tryRoutes maxBytes prompt accepts (o :: offers) tried [] last).seen)
    (ho : o.opened maxBytes prompt = .ok r)
    (hfault : wholeFault maxBytes r.chunks.flatten = some e) :
    (heard o.route.shape (eventsBefore maxBytes r.chunks.flatten)).2.deltas = [] ∧
      (offers = [] ∨ o.route.isByok = true →
        SameFault maxBytes o.route.shape r.chunks.flatten e) := by
  have hio := hi o List.mem_cons_self
  have hrest : ∀ o' ∈ offers, o'.interruption = none :=
    fun o' ho' => hi o' (List.mem_cons_of_mem _ ho')
  obtain ⟨ef, hfirst⟩ : ∃ ef, firstFault maxBytes r.chunks.flatten = some ef := by
    rw [← Option.isSome_iff_exists, ← wholeFault_isSome, hfault]
    rfl
  obtain ⟨pieces, hpieces, hread⟩ := readFrom_pieces o.route.shape r.broken hfirst
  -- The stream in one chunk, and the stream cut before and behind its first fault.
  obtain ⟨whole, hwhole, hwholeAttempt⟩ := exists_recut hio ho [r.chunks.flatten]
    (by simp)
  obtain ⟨cut, hcut', hcutAttempt⟩ := exists_recut hio ho pieces hpieces
  have hboth := (hcut _ hwhole).trans (hcut _ hcut').symm
  rw [tryRoutes_cons _ _ _ _ (hwhole.interruption.trans hio),
    tryRoutes_cons _ _ _ _ (hcut'.interruption.trans hio), hwholeAttempt, hcutAttempt,
    readFrom_whole hfault, hread, hwhole.route, hcut'.route] at hboth
  have hdelivered := events_delivered accepts o.route.shape
    (eventsBefore maxBytes r.chunks.flatten) start_delivered
  have htooLarge := events_ne_tooLarge o.route.shape
    (eventsBefore maxBytes r.chunks.flatten) (s := .start)
  unfold SameFault
  unfold heard at hboth ⊢
  cases hh : StreamState.start.events accepts o.route.shape
    (eventsBefore maxBytes r.chunks.flatten) with
  | mk result s =>
      rw [hh] at hboth hdelivered htooLarge
      -- Deltas of this route would carry its number, those of the others carry higher ones.
      have hnone : s.deltas = [] := by
        by_contra hsome
        have hemitted : s.emitted = true := by
          rw [← Bool.not_eq_false]
          exact fun h => hsome (hdelivered.1.mp h)
        obtain ⟨delta, hmem⟩ := List.exists_mem_of_ne_nil _ hsome
        have hmem : (tried + 1, delta) ∈ s.deltas.map fun delta => (tried + 1, delta) :=
          List.mem_map_of_mem hmem
        have hown : ∀ out : Outcome, out.seen.1 = (s.deltas.map fun delta => (tried + 1, delta)) →
            (if StreamState.start.emitted || o.route.isByok then
              ⟨StreamState.start.deltas.map fun delta => (tried + 1, delta), tried + 1, .error e⟩
              else tryRoutes maxBytes prompt accepts offers (tried + 1) [] e : Outcome).seen ≠
            out.seen := by
          intro out hout hseen
          rw [← hout, ← hseen] at hmem
          split at hmem
          · cases hmem
          · exact Nat.lt_irrefl _ (lt_of_mem_deltas hrest (tried + 1) e _ hmem)
        refine hown _ ?_ hboth
        cases result with
        | error e' => simp only [hemitted, Bool.true_or, if_true, Outcome.seen]
        | ok u =>
            cases ht : s.terminal with
            | true =>
                simp only [ht, if_true]
                cases s.answer with
                | error e' => simp only [hemitted, Bool.true_or, if_true, Outcome.seen]
                | ok text => rfl
            | false =>
                simp only [ht, Bool.false_eq_true, if_false, hemitted, Bool.true_or, if_true,
                  Outcome.seen]
      refine ⟨hnone, fun hend => ?_⟩
      have hs : s.emitted = false := hdelivered.1.mpr hnone
      have hresult := congrArg Prod.snd hboth
      rw [result_of_last rfl hend] at hresult
      cases result with
      | error e' =>
          simp only [result_of_last hs hend] at hresult
          obtain rfl := Except.error.inj hresult
          rcases wholeFault_cases hfault with rfl | ⟨-, h⟩
          · exact absurd rfl htooLarge
          · exact ⟨h, .inl rfl⟩
      | ok u =>
          cases ht : s.terminal with
          | true =>
              have htext : s.text = "" := by
                rw [(hdelivered.2 rfl).text, show s.deltas = [] from hnone]
                rfl
              have hanswer : s.answer = .error (.code "empty_response") := by
                unfold StreamState.answer
                rw [ht, htext]
                rfl
              simp only [ht, if_true, hanswer, result_of_last hs hend] at hresult
              rw [Except.error.inj hresult] at hfault
              rcases wholeFault_cases hfault with h | ⟨h, -⟩
              · simp [tooLarge] at h
              · simp [parseFailed] at h
          | false =>
              simp only [ht, Bool.false_eq_true, if_false, result_of_last hs hend] at hresult
              exact ⟨by rw [hfirst, Except.error.inj hresult], .inr ⟨rfl, rfl⟩⟩

theorem borderless_of_recut (hi : ∀ o ∈ offers, o.interruption = none) (tried : Nat)
    (last : Error) (hcut : ∀ offers', List.Forall₂ Offer.Recut offers offers' →
      (tryRoutes maxBytes prompt accepts offers' tried [] last).seen =
      (tryRoutes maxBytes prompt accepts offers tried [] last).seen) :
    Borderless maxBytes prompt offers := by
  induction offers generalizing tried last with
  | nil => trivial
  | cons o offers ih =>
      have hio := hi o List.mem_cons_self
      have hself : List.Forall₂ Offer.Recut offers offers :=
        List.forall₂_same.mpr fun o _ => .refl o
      refine ⟨fun r e => fault_of_recut hi tried last fun o' ho' => hcut _ (.cons ho' hself),
        fun hbyok hsilent => ?_⟩
      obtain ⟨e, s, hr, -, hemitted⟩ := attempt_of_silent hio hsilent
      refine ih (fun o ho => hi o (List.mem_cons_of_mem _ ho)) (tried + 1) e
        fun offers' hoffers' => ?_
      have h := hcut _ (.cons (.refl o) hoffers')
      rw [tryRoutes_cons _ _ _ _ hio, tryRoutes_cons _ _ _ _ hio, hr] at h
      simpa only [hemitted, hbyok, Bool.or_self, Bool.false_eq_true, if_false] using h

/-! ## Calls -/

/-- **Streamed answers.** What a call hands over comes from the last route that it tries, and
an answer is just that. A call that is not interrupted hands over and returns the same
however its streams are cut, exactly when the streams are borderless. -/
theorem streamed_answers :
    (∀ sink offers, ∀ d ∈ (streamRoutes maxBytes prompt sink offers).deltas,
      d.1 = (streamRoutes maxBytes prompt sink offers).tried) ∧
    (∀ sink offers text, (streamRoutes maxBytes prompt sink offers).result = .ok text →
      text = String.join ((streamRoutes maxBytes prompt sink offers).deltas.map Prod.snd)) ∧
    ∀ offers, (∀ o ∈ offers, o.interruption = none) →
      ((∀ offers', List.Forall₂ Offer.Recut offers offers' →
          (streamRoutes maxBytes prompt accepts offers').seen =
            (streamRoutes maxBytes prompt accepts offers).seen) ↔
        1024 * 1024 < Text.byteLen prompt.toList ∨ Borderless maxBytes prompt offers) := by
  unfold streamRoutes
  by_cases hlong : 1024 * 1024 < Text.byteLen prompt.toList
  · simp only [if_pos hlong]
    exact ⟨fun _ _ _ h => (nomatch h), fun _ _ _ h => (nomatch h),
      fun _ _ => ⟨fun _ => .inl hlong, fun _ _ _ => trivial⟩⟩
  · simp only [if_neg hlong]
    refine ⟨fun sink offers => (tryRoutes_delivered offers 0 _).1,
      fun sink offers => (tryRoutes_delivered offers 0 _).2, fun offers hi => ?_⟩
    rw [or_iff_right hlong]
    exact ⟨borderless_of_recut hi 0 _,
      fun h offers' hcut => tryRoutes_recut hcut hi h 0 fun _ => rfl⟩

end

/-! ## A bad line in the chunk of a delta -/

section

/-- The one document that the stream below has. -/
@[reducible] def greeting : JsonReader where
  parse text :=
    if text = "\x7b\"choices\":[\x7b\"delta\":\x7b\"content\":\"hi\"\x7d\x7d]\x7d" then
      some (.obj [("choices", .arr [.obj [("delta", .obj [("content", .str "hi")])]])])
    else none

attribute [local instance] greeting

/-- An event with text, and a line that is not UTF-8. -/
def greetingEvent : List UInt8 :=
  ("data: \x7b\"choices\":[\x7b\"delta\":\x7b\"content\":\"hi\"\x7d\x7d]\x7d\n\n").toUTF8.toList

def badLine : List UInt8 := [255, newline]

def greetingOffer (chunks : List (List UInt8)) : Offer where
  route := ⟨.openAi, "https://api.openai.com/v1", "k", "m", "openai"⟩
  reply := .ok ⟨200, none, chunks, false⟩
  interruption := none

/-- The delta is handed over if its event comes in a chunk of its own, and not otherwise. -/
theorem delta_depends_on_chunks :
    List.Forall₂ Offer.Recut [greetingOffer [greetingEvent ++ badLine]]
      [greetingOffer [greetingEvent, badLine]] ∧
    (streamRoutes 1024 "p" accepts [greetingOffer [greetingEvent ++ badLine]]).seen =
      ([], .error parseFailed) ∧
    (streamRoutes 1024 "p" accepts [greetingOffer [greetingEvent, badLine]]).seen =
      ([(1, "hi")], .error parseFailed) := by
  refine ⟨.cons ⟨[greetingEvent, badLine], fun r hr => ?_, rfl⟩ .nil, ?_, ?_⟩
  · cases hr
    decide +kernel
  · decide +kernel
  · decide +kernel

/-- The event alone has no fault, so it may come in pieces. -/
theorem greeting_in_pieces :
    (streamRoutes 1024 "p" accepts
        [greetingOffer [greetingEvent.take 7, greetingEvent.drop 7]]).seen =
      (streamRoutes 1024 "p" accepts [greetingOffer [greetingEvent]]).seen := by
  refine (streamed_answers.2.2 [greetingOffer [greetingEvent]] ?_).mpr (.inr ⟨?_, ?_⟩) _
    (.cons ⟨[greetingEvent.take 7, greetingEvent.drop 7], ?_, rfl⟩ .nil)
  · simp [greetingOffer]
  · intro r e ho hfault
    have hnone : wholeFault 1024 r.chunks.flatten = none := by
      obtain rfl := Except.ok.inj ((reply_of_opened ho).symm.trans rfl)
      decide +kernel
    rw [hnone] at hfault
    cases hfault
  · exact fun _ _ => trivial
  · intro r hr
    cases hr
    decide +kernel

end

end YoinkCore.Insight
