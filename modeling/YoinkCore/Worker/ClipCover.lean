import YoinkCore.Worker.ClipHls

/-!
# Segments that cover a clip

What the scan over a playlist selects is the run of its media lines over the clip, with the
durations that were announced for them.
-/

namespace YoinkCore.Worker.ClipHls

open Lib Text Timeline

theorem bind_eq_ok {ε α β : Type} {x : Except ε α} {f : α → Except ε β} {b : β} :
    x.bind f = .ok b ↔ ∃ a, x = .ok a ∧ f a = .ok b := Tx.result_bind_eq_ok

section

variable [PyValues]

open PyValues

/-! ## Announced durations -/

/-- The media lines and the duration of each, which a line of its own announces before it: no other
announcement and no media line stands between them. -/
inductive Timed : List Str → List (Str × ℚ) → Prop
  | none {lines : List Str} (h : ∀ line ∈ lines, isMedia line = false) : Timed lines []
  | entry {before between rest : List Str} {inf media : Str} {duration : ℚ}
      {pieces : List (Str × ℚ)} (hbefore : ∀ line ∈ before, isMedia line = false)
      (hinf : isInf inf = true) (hduration : durationOf inf = some duration)
      (hbetween : ∀ line ∈ between, isMedia line = false ∧ isInf line = false)
      (hmedia : isMedia media = true) (hrest : Timed rest pieces) :
      Timed (before ++ inf :: (between ++ media :: rest)) ((media, duration) :: pieces)

variable {pieces : List (Str × ℚ)} {lines : List Str} {line : Str} {duration start stop : ℚ}

omit [PyValues] in
theorem not_media_of_inf (h : isInf line = true) : isMedia line = false := by
  obtain ⟨rest, rfl⟩ := List.isPrefixOf_iff_prefix.mp h
  rfl

theorem durationOf_pos (h : durationOf line = some duration) : 0 < duration :=
  of_decide_eq_true (Option.filter_eq_some_iff.mp h).2

theorem Timed.pos (h : Timed lines pieces) : ∀ p ∈ pieces, 0 < p.2 := by
  induction h with
  | none _ => exact nofun
  | entry _ _ hduration _ _ _ ih =>
      intro p hp
      rcases List.mem_cons.mp hp with rfl | hp
      · exact durationOf_pos hduration
      · exact ih p hp

/-- A line that is no media line may stand in front. -/
theorem Timed.other (h : Timed lines pieces) (hline : isMedia line = false) :
    Timed (line :: lines) pieces := by
  cases h with
  | none h =>
      refine .none fun l hl => ?_
      rcases List.mem_cons.mp hl with rfl | hl
      · exact hline
      · exact h l hl
  | @entry before between rest inf media duration pieces hbefore hinf hduration hbetween hmedia
    hrest =>
      have hbefore' : ∀ l ∈ line :: before, isMedia l = false := by
        intro l hl
        rcases List.mem_cons.mp hl with rfl | hl
        · exact hline
        · exact hbefore l hl
      exact .entry hbefore' hinf hduration hbetween hmedia hrest

/-- A line that says nothing may stand behind an announcement. -/
theorem Timed.behind {inf : Str} (h : Timed (inf :: lines) pieces) (hline : isMedia line = false)
    (hother : isInf line = false) : Timed (inf :: line :: lines) pieces := by
  generalize hall : inf :: lines = all at h
  cases h with
  | none h =>
      subst hall
      refine .none fun l hl => ?_
      rcases List.mem_cons.mp hl with rfl | hl
      · exact h _ List.mem_cons_self
      rcases List.mem_cons.mp hl with rfl | hl
      · exact hline
      · exact h l (List.mem_cons_of_mem _ hl)
  | @entry before between rest inf' media duration pieces hbefore hinf hduration hbetween hmedia
    hrest =>
      cases before with
      | nil =>
          obtain ⟨rfl, rfl⟩ := List.cons.inj hall
          have hbetween' : ∀ l ∈ line :: between, isMedia l = false ∧ isInf l = false := by
            intro l hl
            rcases List.mem_cons.mp hl with rfl | hl
            · exact ⟨hline, hother⟩
            · exact hbetween l hl
          have hnone : ∀ l ∈ ([] : List Str), isMedia l = false := nofun
          exact .entry hnone hinf hduration hbetween' hmedia hrest
      | cons b before =>
          obtain ⟨rfl, rfl⟩ := List.cons.inj hall
          have hbefore' : ∀ l ∈ inf :: line :: before, isMedia l = false := by
            intro l hl
            rcases List.mem_cons.mp hl with rfl | hl
            · exact hbefore _ List.mem_cons_self
            rcases List.mem_cons.mp hl with rfl | hl
            · exact hline
            · exact hbefore l (List.mem_cons_of_mem _ hl)
          exact .entry hbefore' hinf hduration hbetween hmedia hrest

/-- What is read of the rest, with the duration that was announced last. -/
def Read : Option ℚ → List Str → List (Str × ℚ) → Prop
  | none, lines, pieces => Timed lines pieces
  | some duration, lines, pieces =>
      ∀ inf, isInf inf = true → durationOf inf = some duration → Timed (inf :: lines) pieces

theorem Read.nil (duration : Option ℚ) : Read duration [] [] := by
  cases duration with
  | none => exact .none nofun
  | some duration =>
      refine fun inf hinf _ => .none fun line hline => ?_
      rw [List.mem_singleton.mp hline]
      exact not_media_of_inf hinf

theorem Read.announced (h : Read (some duration) lines pieces) (hinf : isInf line = true)
    (hduration : durationOf line = some duration) (last : Option ℚ) :
    Read last (line :: lines) pieces := by
  cases last with
  | none => exact h line hinf hduration
  | some _ => exact fun inf hinf' _ => (h line hinf hduration).other (not_media_of_inf hinf')

theorem Read.other {duration : Option ℚ} (h : Read duration lines pieces)
    (hmedia : isMedia line = false) (hinf : isInf line = false) :
    Read duration (line :: lines) pieces := by
  cases duration with
  | none => exact Timed.other h hmedia
  | some _ => exact fun inf hinf' hduration => (h inf hinf' hduration).behind hmedia hinf

theorem Read.media (h : Read none lines pieces) (hmedia : isMedia line = true) :
    Read (some duration) (line :: lines) ((line, duration) :: pieces) := by
  intro inf hinf hduration
  have hbefore : ∀ l ∈ ([] : List Str), isMedia l = false := nofun
  have hbetween : ∀ l ∈ ([] : List Str), isMedia l = false ∧ isInf l = false := nofun
  exact .entry hbefore hinf hduration hbetween hmedia h

/-! ## The scan -/

/-- What a line does to the scan. -/
inductive LineCase (base : Str) (start stop : ℚ) (st : Scan) (line : Str) (st' : Scan) : Prop
  | announced {duration : ℚ} (hinf : isInf line = true)
      (hduration : durationOf line = some duration)
      (hst : st' = { st with duration := some duration })
  | media {duration : ℚ} (hmedia : isMedia line = true) (hduration : st.duration = some duration)
      (hst : scanMedia base start stop st line duration = .ok st')
  | other (hinf : isInf line = false) (hmedia : isMedia line = false) (hst : st' = st)

theorem scanLine_cases {base : Str} {st st' : Scan}
    (h : scanLine base start stop st line = .ok st') :
    refused line = false ∧ LineCase base start stop st line st' := by
  unfold scanLine at h
  split at h
  · cases h
  · rename_i hrefused
    refine ⟨by simpa using hrefused, ?_⟩
    split at h
    · rename_i hinf
      split at h
      · cases h
      · rename_i duration hduration
        cases h
        exact .announced hinf hduration rfl
    · rename_i hinf
      split at h
      · rename_i hmedia
        split at h
        · cases h
        · rename_i duration hduration
          exact .media hmedia hduration h
      · rename_i hmedia
        cases h
        exact .other (by simpa using hinf) (by simpa using hmedia) rfl

/-- Where the selected pieces are found, and when they begin. -/
def located (base : Str) (placed : List (Placed Str ℚ)) : Option (List (Str × ℚ)) :=
  placed.mapM fun p => (urljoin base p.item).map fun url => (url, p.offset)

instance (start stop : ℚ) : DecidablePred (Meets (α := Str) start stop) :=
  fun p => inferInstanceAs (Decidable (p.offset < stop ∧ start < p.offset + p.duration))

/-- The pieces that meet the window, found. -/
def Found (base : Str) (start stop elapsed : ℚ) (pieces : List (Str × ℚ))
    (found : List (Str × ℚ)) : Prop :=
  located base ((place elapsed pieces).filter fun p => decide (Meets start stop p)) = some found

/-- What a media line does. -/
theorem scanMedia_eq_ok {base : Str} {st st' : Scan}
    (h : scanMedia base start stop st line duration = .ok st') :
    st'.elapsed = st.elapsed + duration ∧ st'.duration = none ∧
      ∃ new, st'.selected = st.selected ++ new ∧ ∀ pieces found,
        Found base start stop (st.elapsed + duration) pieces found →
          Found base start stop st.elapsed ((line, duration) :: pieces) (new ++ found) := by
  unfold scanMedia at h
  split at h
  · rename_i hmeets
    split at h
    · cases h
    · rename_i url hurl
      cases h
      refine ⟨rfl, rfl, [(url, st.elapsed)], rfl, fun pieces found hfound => ?_⟩
      have hmeets' : Meets start stop (⟨line, st.elapsed, duration⟩ : Placed Str ℚ) := hmeets
      rw [Found, place, List.filter_cons, if_pos (decide_eq_true hmeets'), located, List.mapM_cons,
        hurl]
      rw [Found, located] at hfound
      rw [hfound]
      rfl
  · rename_i hmeets
    cases h
    refine ⟨rfl, rfl, [], (List.append_nil _).symm, fun pieces found hfound => ?_⟩
    have hmeets' : ¬ Meets start stop (⟨line, st.elapsed, duration⟩ : Placed Str ℚ) := hmeets
    rw [Found, place, List.filter_cons, if_neg (by simpa using hmeets')]
    exact hfound

/-- What a scan comes to. -/
structure Scanned (base : Str) (start stop : ℚ) (st : Scan) (lines : List Str) (st' : Scan) :
    Prop where
  plain : ∀ line ∈ lines, refused line = false
  read : ∃ pieces, Read st.duration lines pieces ∧ st'.elapsed = st.elapsed + total pieces ∧
    ∃ found, Found base start stop st.elapsed pieces found ∧ st'.selected = st.selected ++ found

/-- **The scan**, line by line: the elapsed time is the sum of the durations so far, and what is
selected are the pieces that meet the window. -/
theorem scanLines_scanned {base : Str} :
    ∀ {st st' : Scan}, scanLines base start stop st lines = .ok st' →
      Scanned base start stop st lines st' := by
  induction lines with
  | nil =>
      intro st st' h
      cases h
      exact ⟨nofun, [], .nil _, (add_zero _).symm, [], rfl, (List.append_nil _).symm⟩
  | cons line lines ih =>
      intro st st' h
      rw [scanLines, bind_eq_ok] at h
      obtain ⟨st₁, hline, h⟩ := h
      obtain ⟨hplain, pieces, hread, helapsed, found, hfound, hselected⟩ := ih h
      obtain ⟨hrefused, hcase⟩ := scanLine_cases hline
      refine ⟨List.forall_mem_cons.mpr ⟨hrefused, hplain⟩, ?_⟩
      cases hcase with
      | announced hinf hduration hst =>
          subst hst
          exact ⟨pieces, hread.announced hinf hduration _, helapsed, found, hfound, hselected⟩
      | @media duration hmedia hduration hst =>
          obtain ⟨helapsed', hnone, new, hnew, hmore⟩ := scanMedia_eq_ok hst
          rw [hnone] at hread
          rw [helapsed'] at helapsed hfound
          refine ⟨(line, duration) :: pieces, ?_, ?_, new ++ found, hmore _ _ hfound, ?_⟩
          · rw [hduration]
            exact hread.media hmedia
          · rw [helapsed, total_cons, add_assoc]
          · rw [hselected, hnew, List.append_assoc]
      | other hinf hmedia hst =>
          subst hst
          exact ⟨pieces, hread.other hmedia hinf, helapsed, found, hfound, hselected⟩

/-! ## Segments -/

/-- A playlist with an end whose media lines are announced and bear no other tags. -/
structure Playlist (text : Str) (pieces : List (Str × ℚ)) : Prop where
  ended : "#EXT-X-ENDLIST".toList <:+: text
  plain : ∀ line ∈ linesOf text, refused line = false
  timed : Timed (linesOf text) pieces

/-- The segments are the run of the media lines over the clip, with the time each begins at. -/
structure Clipped (text base : Str) (start stop : ℚ) (found : List (Str × ℚ))
    (pieces pre run post : List (Str × ℚ)) : Prop where
  playlist : Playlist text pieces
  runOver : RunOver start stop 0 pieces pre run post
  found : located base (place (total pre) run) = some found

theorem clipped_of_segments {text base : Str} {found : List (Str × ℚ)} (hstart : 0 ≤ start)
    (hstop : start < stop) (h : segments text base start stop = .ok found) :
    ∃ pieces pre run post, Clipped text base start stop found pieces pre run post := by
  unfold segments at h
  split at h
  · cases h
  · rename_i hended
    obtain ⟨st, hscan, h⟩ := bind_eq_ok.mp h
    split at h
    · cases h
    · rename_i hreach
      cases h
      rw [not_or, not_lt] at hreach
      obtain ⟨hplain, pieces, hread, helapsed, found, hfound, hselected⟩ := scanLines_scanned hscan
      have htimed : Timed (linesOf text) pieces := hread
      have hend : stop ≤ 0 + total pieces := helapsed ▸ hreach.2
      obtain ⟨pre, run, post, hrun⟩ := exists_run htimed.pos hstart hstop hend
      refine ⟨pieces, pre, run, post, ⟨not_not.mp hended, hplain, htimed⟩, hrun, ?_⟩
      rw [Found, hrun.filter_place, zero_add] at hfound
      rw [hselected, hfound]
      rfl

/-! ## Offsets -/

/-- A clip within the segments of a track. -/
def Inside (start stop : ℚ) (manifest : Str × Str) (begins : ℚ) : Prop :=
  ∃ found pieces pre run post, segments manifest.1 manifest.2 start stop = .ok found ∧
    Clipped manifest.1 manifest.2 start stop found pieces pre run post ∧
    0 ≤ begins ∧ begins + (stop - start) ≤ total run

theorem inside_of_clipped {text base : Str} {first : ℚ} {url : Str}
    {found pre run post : List (Str × ℚ)}
    (h : Clipped text base start stop ((url, first) :: found) pieces pre run post) :
    0 ≤ start - first ∧ start - first + (stop - start) ≤ total run := by
  have hfirst : first = total pre := by
    have hfound := h.found
    cases run with
    | nil => cases hfound
    | cons p run =>
        rw [place, located, List.mapM_cons] at hfound
        obtain ⟨located, hlocated, hfound⟩ := Option.bind_eq_some_iff.mp hfound
        obtain ⟨url', -, rfl⟩ := Option.map_eq_some_iff.mp hlocated
        obtain ⟨rest, -, hcons⟩ := Option.bind_eq_some_iff.mp hfound
        cases hcons
        rfl
  obtain ⟨hbegin, hend⟩ := h.runOver.covers
  rw [zero_add] at hbegin hend
  subst hfirst
  refine ⟨sub_nonneg.mpr hbegin, ?_⟩
  have hsum : start - total pre + (stop - start) = stop - total pre := by abel
  rw [hsum]
  exact sub_le_iff_le_add'.mpr hend

theorem offsets_inside (hstart : 0 ≤ start) (hstop : start < stop) {manifests : List (Str × Str)} :
    ∀ {begins : List ℚ}, offsets start stop manifests = .ok begins →
      List.Forall₂ (Inside start stop) manifests begins := by
  induction manifests with
  | nil =>
      intro begins h
      cases h
      exact .nil
  | cons manifest manifests ih =>
      intro begins h
      rw [offsets, bind_eq_ok] at h
      obtain ⟨chosen, hchosen, h⟩ := h
      obtain ⟨rest, hrest, h⟩ := bind_eq_ok.mp h
      cases chosen with
      | nil => cases h
      | cons p chosen =>
          cases h
          obtain ⟨pieces, pre, run, post, hclipped⟩ := clipped_of_segments hstart hstop hchosen
          obtain ⟨hbegin, hend⟩ := inside_of_clipped hclipped
          exact .cons ⟨_, pieces, pre, run, post, hchosen, hclipped, hbegin, hend⟩ (ih hrest)

end

/-- **Segments cover their clip exactly.** What is selected is the run of media lines over the clip,
with the duration each is announced with and the offset it has; a playlist that has none is refused;
and in the segments of each track the clip begins and ends inside. -/
theorem clip_covered [PyValues] {start stop : ℚ} (hstart : 0 ≤ start) (hstop : start < stop) :
    (∀ text base found, segments text base start stop = .ok found →
      ∃ pieces pre run post, Clipped text base start stop found pieces pre run post) ∧
    (∀ text base, (∀ found pieces pre run post,
      ¬ Clipped text base start stop found pieces pre run post) →
        ∃ e, segments text base start stop = .error e) ∧
    ∀ manifests begins, offsets start stop manifests = .ok begins →
      List.Forall₂ (Inside start stop) manifests begins := by
  refine ⟨fun text base found h => clipped_of_segments hstart hstop h, ?_,
    fun manifests begins h => offsets_inside hstart hstop h⟩
  intro text base hnone
  cases hsegments : segments text base start stop with
  | error e => exact ⟨e, rfl⟩
  | ok found =>
      obtain ⟨pieces, pre, run, post, h⟩ := clipped_of_segments hstart hstop hsegments
      exact absurd h (hnone found pieces pre run post)

/-! ## A playlist of three segments -/

namespace Scenario

/-- Reads whole numbers, and joins below a directory. -/
@[reducible] def values : PyValues where
  float t := (digits t).map fun n => some (n : ℚ)
  urljoin base line := some (base ++ line)

attribute [local instance] values

def playlist : Str :=
  "#EXTM3U\n#EXTINF:4,\na.ts\n#EXTINF:4,\n\nb.ts\n#EXTINF:4,\nc.ts\n#EXT-X-ENDLIST\n".toList

theorem clip_covered_border : segments playlist "https://example.com/".toList 4 8 =
      .ok [("https://example.com/b.ts".toList, 4)] ∧
    (∃ pieces pre run post, Clipped playlist "https://example.com/".toList 4 8
      [("https://example.com/b.ts".toList, 4)] pieces pre run post) ∧
    List.Forall₂ (Inside 4 8) [(playlist, "https://example.com/".toList)] [0] := by
  have hok : ∀ {r : Except SegmentFailure (List (Str × ℚ))} {found : List (Str × ℚ)},
      r.toOption = some found → r = .ok found := by
    rintro (e | found') found h
    · cases h
    · cases h
      rfl
  have hsegments : segments playlist "https://example.com/".toList 4 8 =
      .ok [("https://example.com/b.ts".toList, 4)] := hok (by decide +kernel)
  have hoffsets : offsets 4 8 [(playlist, "https://example.com/".toList)] = .ok [0] := by
    rw [offsets, hsegments]
    show Except.ok [(4 : ℚ) - 4] = _
    rw [sub_self]
  have hstart : (0 : ℚ) ≤ 4 := by decide
  have hstop : (4 : ℚ) < 8 := by decide
  obtain ⟨hselected, -, hinside⟩ := clip_covered hstart hstop
  exact ⟨hsegments, hselected _ _ _ hsegments, hinside _ _ hoffsets⟩

end Scenario

end YoinkCore.Worker.ClipHls
