import YoinkCore.Storage.System
import YoinkCore.Telegram.Entities

/-!
# Pages

A formatted text is cut into pages of bounded length, at a paragraph, line or word boundary
if the last half of a page has one. A page whose receipt would be too large is cut again, at
half its length.
-/

namespace YoinkCore.Telegram

open Lib Text

/-! ## Where a page ends -/

/-- The characters that fit into a limit of UTF-16 units. -/
def fitting (limit units : Nat) : Str → Nat
  | [] => 0
  | c :: cs =>
      if limit < units + lenUtf16 c then 0 else fitting limit (units + lenUtf16 c) cs + 1

/-- `rfind`: the last place at which what follows matches. -/
def rfind (p : Str → Bool) : Str → Option Nat
  | [] => none
  | c :: cs =>
      match rfind p cs with
      | some i => some (i + 1)
      | none => if p (c :: cs) then some 0 else none

/-- The boundaries of a window: after a paragraph, after a line, after a word. -/
def candidates (window : Str) : List Nat :=
  [(rfind ("\n\n".toList.isPrefixOf ·) window).map (· + 2),
    (rfind ("\n".toList.isPrefixOf ·) window).map (· + 1),
    (rfind (fun t => t.head?.any isWhitespace) window).map (· + 1)].filterMap id

/-- The characters of the first page of a text. -/
def pageEnd (limit : Nat) (rest : Str) : Nat :=
  let stop := fitting limit 0 rest
  if stop < rest.length then
    let window := rest.take stop
    ((candidates window).find? fun i => decide (limit / 2 ≤ utf16Len (window.take i))).getD stop
  else stop

/-! ## Pages -/

/-- What a page shows of an entity. -/
def Entity.clip (unitStart count : Nat) (e : Entity) : Option Entity :=
  let left := max e.offset unitStart
  let right := min e.finish (unitStart + count)
  if right ≤ left then none
  else some { e with offset := left - unitStart, length := right - left }

def firstPage (limit : Nat) (entities : List Entity) (unitStart : Nat) (rest : Str) :
    FormattedText :=
  let text := rest.take (pageEnd limit rest)
  ⟨text, entities.filterMap (Entity.clip unitStart (utf16Len text))⟩

/-- The loop over a text, which takes one page after the other. -/
def slices (limit : Nat) (entities : List Entity) : Nat → Nat → Str → Option (List FormattedText)
  | _, _, [] => some []
  | 0, _, _ :: _ => none
  | fuel + 1, unitStart, rest =>
      let page := firstPage limit entities unitStart rest
      (slices limit entities fuel (unitStart + utf16Len page.text)
        (rest.drop (pageEnd limit rest))).map (page :: ·)

section

variable [Platform]

def Entity.json (e : Entity) : Json :=
  .obj ([("type", .str e.kind.asStr), ("offset", .int e.offset), ("length", .int e.length)] ++
    e.extra.toList.map fun (key, value) => (key, .str value))

/-- The bytes of a page as they are written into a receipt. -/
def FormattedText.bytes (page : FormattedText) : Nat :=
  (Platform.jsonBytes (.obj [("text", .str (String.ofList page.text)),
    ("entities", .arr (page.entities.map Entity.json))])).length

/-- `FormattedText::pages`; no result without fuel, or for a limit that is not asserted. -/
def FormattedText.pages : Nat → Nat → FormattedText → Option (List FormattedText)
  | 0, _, _ => none
  | fuel + 1, limit, t =>
      if 2 ≤ limit ∧ limit ≤ 4096 then do
        let cut ← slices limit t.entities fuel 0 t.text
        let parts ← cut.mapM fun page =>
          let half := utf16Len page.text / 2
          if 32 * 1024 < page.bytes ∧ 2 ≤ half then FormattedText.pages fuel half page
          else some [page]
        return parts.flatten
      else none

end

/-! ## Boundaries -/

theorem utf16Len_fitting (limit : Nat) (t : Str) (units : Nat) (h : units ≤ limit) :
    units + utf16Len (t.take (fitting limit units t)) ≤ limit := by
  induction t generalizing units with
  | nil => simpa using h
  | cons c cs ih =>
      rw [fitting]
      split
      · simpa using h
      · rename_i hle
        rw [List.take_succ_cons, utf16Len_cons, ← Nat.add_assoc]
        exact ih _ (Nat.le_of_not_lt hle)

variable {pages : List FormattedText} {e : Entity} {limit n s : Nat}

/-- Two units are enough for a character. -/
theorem fitting_pos (hl : 2 ≤ limit) {t : Str} (h : t ≠ []) : 0 < fitting limit 0 t := by
  cases t with
  | nil => exact absurd rfl h
  | cons c cs =>
      have := (lenUtf16_bounds c).2
      rw [fitting, if_neg (by omega)]
      exact Nat.succ_pos _

theorem rfind_spec {p : Str → Bool} {t : Str} {i : Nat} (h : rfind p t = some i) :
    i < t.length ∧ p (t.drop i) = true := by
  induction t generalizing i with
  | nil => cases h
  | cons c cs ih =>
      rw [rfind] at h
      split at h
      · rename_i j hj
        cases h
        obtain ⟨hlt, hp⟩ := ih hj
        exact ⟨Nat.succ_lt_succ hlt, hp⟩
      · split at h
        · cases h
          exact ⟨Nat.succ_pos _, by assumption⟩
        · cases h

theorem candidates_le {window : Str} {i : Nat} (h : i ∈ candidates window) :
    i ≤ window.length := by
  obtain ⟨found, hmem, hi⟩ := List.mem_filterMap.mp h
  simp only [List.mem_cons, List.not_mem_nil, or_false] at hmem
  rcases hmem with rfl | rfl | rfl
  · obtain ⟨j, hj, rfl⟩ := Option.map_eq_some_iff.mp hi
    obtain ⟨-, hp⟩ := rfind_spec hj
    have hlen := (List.isPrefixOf_iff_prefix.mp hp).length_le
    have hlt := (rfind_spec hj).1
    rw [List.length_drop] at hlen
    have htwo : "\n\n".toList.length = 2 := rfl
    omega
  · obtain ⟨j, hj, rfl⟩ := Option.map_eq_some_iff.mp hi
    exact (rfind_spec hj).1
  · obtain ⟨j, hj, rfl⟩ := Option.map_eq_some_iff.mp hi
    exact (rfind_spec hj).1

/-- A page has a character, and fits into the limit. -/
theorem pageEnd_spec (hl : 2 ≤ limit) {t : Str} (h : t ≠ []) :
    0 < pageEnd limit t ∧ pageEnd limit t ≤ fitting limit 0 t := by
  rw [pageEnd]
  dsimp only
  split
  · cases hf : (candidates (t.take (fitting limit 0 t))).find? fun i =>
        decide (limit / 2 ≤ utf16Len ((t.take (fitting limit 0 t)).take i)) with
    | none => exact ⟨fitting_pos hl h, Nat.le_refl _⟩
    | some i =>
        have hle := candidates_le (List.mem_of_find?_eq_some hf)
        rw [List.length_take] at hle
        have hhalf := List.find?_some hf
        rw [decide_eq_true_eq] at hhalf
        show 0 < i ∧ i ≤ _
        refine ⟨Nat.pos_of_ne_zero ?_, by omega⟩
        rintro rfl
        rw [List.take_zero, utf16Len_nil] at hhalf
        omega
  · exact ⟨fitting_pos hl h, Nat.le_refl _⟩

theorem take_pageEnd (hl : 2 ≤ limit) {t : Str} (h : t ≠ []) :
    t.take (pageEnd limit t) ≠ [] ∧ utf16Len (t.take (pageEnd limit t)) ≤ limit := by
  obtain ⟨hpos, hle⟩ := pageEnd_spec hl h
  constructor
  · intro hn
    rcases List.take_eq_nil_iff.mp hn with h0 | h0
    · omega
    · exact h h0
  · have hfit := utf16Len_fitting limit t 0 (Nat.zero_le _)
    have hsplit : t.take (fitting limit 0 t) =
        t.take (pageEnd limit t) ++ (t.take (fitting limit 0 t)).drop (pageEnd limit t) := by
      conv_lhs => rw [← List.take_append_drop (pageEnd limit t) (t.take (fitting limit 0 t))]
      rw [List.take_take, Nat.min_eq_left hle]
    rw [hsplit, utf16Len_append] at hfit
    omega

/-! ## Pieces of entities -/

theorem clip_of_lt (h : max e.offset s < min e.finish (s + n)) :
    e.clip s n = some { e with
      offset := max e.offset s - s
      length := min e.finish (s + n) - max e.offset s } :=
  if_neg (Nat.not_le_of_lt h)

theorem clip_of_le (h : min e.finish (s + n) ≤ max e.offset s) : e.clip s n = none := if_pos h

theorem clip_eq_none (h : e.clip s n = none) : min e.finish (s + n) ≤ max e.offset s := by
  rcases Nat.lt_or_ge (max e.offset s) (min e.finish (s + n)) with hlt | hle
  · rw [clip_of_lt hlt] at h
    cases h
  · exact hle

variable {entities : List Entity} {page : FormattedText} {e' : Entity}

theorem clip_eq_some (h : e.clip s n = some e') :
    max e.offset s < min e.finish (s + n) ∧ e'.offset = max e.offset s - s ∧
      e'.length = min e.finish (s + n) - max e.offset s ∧ e'.kind = e.kind ∧
      e'.extra = e.extra := by
  rcases Nat.lt_or_ge (max e.offset s) (min e.finish (s + n)) with hlt | hle
  · rw [clip_of_lt hlt] at h
    cases h
    exact ⟨hlt, rfl, rfl, rfl, rfl⟩
  · rw [clip_of_le hle] at h
    cases h

/-- A piece is not empty and within its page. -/
theorem clip_inside (h : e.clip s n = some e') :
    0 < e'.length ∧ e'.finish ≤ n ∧ e'.kind = e.kind ∧ e'.extra = e.extra := by
  obtain ⟨hlt, hoffset, hlength, hkind, hextra⟩ := clip_eq_some h
  refine ⟨by omega, ?_, hkind, hextra⟩
  rw [Entity.finish, hoffset, hlength]
  omega

/-- A page of a page shows what the text shows there. -/
theorem clip_clip {s' n' : Nat} (h : s' + n' ≤ n) (e : Entity) :
    (e.clip s n).bind (Entity.clip s' n') = e.clip (s + s') n' := by
  cases hc : e.clip s n with
  | none =>
      have := clip_eq_none hc
      rw [Option.bind_none, clip_of_le (by omega)]
  | some e' =>
      obtain ⟨hlt, hoffset, hlength, hkind, hextra⟩ := clip_eq_some hc
      have hfinish : e'.finish = min e.finish (s + n) - s := by
        rw [Entity.finish, hoffset, hlength]
        omega
      have hleft : max e'.offset s' + s = max e.offset (s + s') := by
        rw [hoffset]
        omega
      have hright : min e'.finish (s' + n') + s = min e.finish (s + s' + n') := by
        rw [hfinish]
        omega
      clear hlt hoffset hlength hfinish
      rw [Option.bind_some]
      rcases Nat.lt_or_ge (max e'.offset s') (min e'.finish (s' + n')) with hin | hout
      · rw [clip_of_lt hin, clip_of_lt (by rw [← hleft, ← hright]; omega), ← hleft, ← hright,
          hkind, hextra]
        simp only [Option.some.injEq, Entity.mk.injEq, true_and, and_true]
        omega
      · rw [clip_of_le hout, clip_of_le (by rw [← hleft, ← hright]; omega)]

/-- The pages from a unit on show the entities. -/
def Shown (entities : List Entity) : Nat → List FormattedText → Prop
  | _, [] => True
  | unitStart, page :: pages =>
      page.entities = entities.filterMap (Entity.clip unitStart (utf16Len page.text)) ∧
        Shown entities (unitStart + utf16Len page.text) pages

theorem shown_append {others : List FormattedText} :
    Shown entities s (pages ++ others) ↔
      Shown entities s pages ∧
        Shown entities (s + utf16Len (pages.flatMap (·.text))) others := by
  induction pages generalizing s with
  | nil => simp [Shown]
  | cons page pages ih =>
      rw [List.cons_append, Shown, Shown, ih, List.flatMap_cons, utf16Len_append, and_assoc,
        Nat.add_assoc]

/-- The pages of a page show the entities of the text. -/
theorem Shown.nested {s' : Nat} (h : Shown (entities.filterMap (Entity.clip s n)) s' pages)
    (hn : s' + utf16Len (pages.flatMap (·.text)) ≤ n) : Shown entities (s + s') pages := by
  induction pages generalizing s' with
  | nil => trivial
  | cons page pages ih =>
      obtain ⟨hpage, hpages⟩ := h
      rw [List.flatMap_cons, utf16Len_append] at hn
      refine ⟨?_, ?_⟩
      · rw [hpage, List.filterMap_filterMap]
        exact List.filterMap_congr fun e _ => clip_clip (by omega) e
      · rw [Nat.add_assoc]
        exact ih hpages (by omega)

/-- The positions of the pieces of an entity in the pages from a unit on. -/
def pieces (e : Entity) : Nat → List FormattedText → List Nat
  | _, [] => []
  | unitStart, page :: pages =>
      ((e.clip unitStart (utf16Len page.text)).toList.flatMap fun piece =>
          List.range' (unitStart + piece.offset) piece.length) ++
        pieces e (unitStart + utf16Len page.text) pages

/-- The pieces of an entity make up the rest of it. -/
theorem pieces_eq (h : e.finish ≤ s + utf16Len (pages.flatMap (·.text))) :
    pieces e s pages = List.range' (max e.offset s) (e.finish - max e.offset s) := by
  induction pages generalizing s with
  | nil =>
      rw [pieces, show e.finish - max e.offset s = 0 by simp at h; omega]
      rfl
  | cons page pages ih =>
      rw [List.flatMap_cons, utf16Len_append, ← Nat.add_assoc] at h
      rw [pieces, ih h]
      cases hc : e.clip s (utf16Len page.text) with
      | none =>
          have hle := clip_eq_none hc
          show List.range' _ _ = _
          rcases Nat.lt_or_ge (max e.offset s) (s + utf16Len page.text) with hp | hp
          swap
          · rw [show max e.offset (s + utf16Len page.text) = max e.offset s by omega]
          · rw [show e.finish - max e.offset s = 0 by omega,
              show e.finish - max e.offset (s + utf16Len page.text) = 0 by omega]
            rfl
      | some e' =>
          obtain ⟨hlt, hoffset, hlength, -, -⟩ := clip_eq_some hc
          show List.range' (s + e'.offset) e'.length ++ [] ++ _ = _
          rw [List.append_nil, hoffset, hlength,
            show s + (max e.offset s - s) = max e.offset s by omega]
          rcases Nat.le_total e.finish (s + utf16Len page.text) with hf | hf
          · rw [Nat.min_eq_left hf,
              show e.finish - max e.offset (s + utf16Len page.text) = 0 by omega]
            exact List.append_nil _
          · rw [Nat.min_eq_right hf,
              show max e.offset (s + utf16Len page.text) = max e.offset s +
                (s + utf16Len page.text - max e.offset s) by omega, List.range'_append_1]
            congr 1
            omega

/-! ## One pass -/

/-- What a pass over a text gives. -/
structure Sliced (limit unitStart : Nat) (entities : List Entity) (rest : Str)
    (cut : List FormattedText) : Prop where
  text : cut.flatMap (·.text) = rest
  nonempty : ∀ page ∈ cut, page.text ≠ []
  bounded : ∀ page ∈ cut, utf16Len page.text ≤ limit
  shown : Shown entities unitStart cut

/-- A pass takes a character in every turn, so that it ends. -/
theorem slices_spec (hl : 2 ≤ limit) (entities : List Entity) (rest : Str) (unitStart : Nat) :
    ∃ cut, (∀ fuel, rest.length ≤ fuel → slices limit entities fuel unitStart rest = some cut) ∧
      Sliced limit unitStart entities rest cut := by
  induction h : rest.length using Nat.strongRecOn generalizing rest unitStart with
  | ind n ih =>
      subst h
      cases rest with
      | nil => exact ⟨[], fun fuel _ => by cases fuel <;> rfl, rfl, by simp, by simp, trivial⟩
      | cons c cs =>
          have hne : c :: cs ≠ [] := List.cons_ne_nil _ _
          obtain ⟨hpage, hle⟩ := take_pageEnd hl hne
          have hpos := (pageEnd_spec hl hne).1
          have hlen : ((c :: cs).drop (pageEnd limit (c :: cs))).length < (c :: cs).length := by
            rw [List.length_drop, List.length_cons]
            omega
          obtain ⟨cut, hcut, h⟩ := ih _ hlen ((c :: cs).drop (pageEnd limit (c :: cs)))
            (unitStart + utf16Len ((c :: cs).take (pageEnd limit (c :: cs)))) rfl
          refine ⟨firstPage limit entities unitStart (c :: cs) :: cut, fun fuel hfuel => ?_,
            ?_, ?_, ?_, ?_⟩
          · cases fuel with
            | zero => cases hfuel
            | succ fuel =>
                exact Option.map_eq_some_iff.mpr ⟨cut, hcut fuel (by omega), rfl⟩
          · rw [List.flatMap_cons, h.text]
            exact List.take_append_drop _ _
          · intro page hp
            rcases List.mem_cons.mp hp with rfl | hp
            · exact hpage
            · exact h.nonempty page hp
          · intro page hp
            rcases List.mem_cons.mp hp with rfl | hp
            · exact hle
            · exact h.bounded page hp
          · exact ⟨rfl, h.shown⟩

/-- The entities of a page are not empty, and within it. -/
theorem Shown.inside (h : Shown entities s pages) (hp : page ∈ pages) :
    ∀ e ∈ page.entities, 0 < e.length ∧ e.finish ≤ utf16Len page.text := by
  induction pages generalizing s with
  | nil => cases hp
  | cons first pages ih =>
      obtain ⟨hfirst, hpages⟩ := h
      rcases List.mem_cons.mp hp with rfl | hp
      · intro e he
        rw [hfirst] at he
        obtain ⟨e', -, hclip⟩ := List.mem_filterMap.mp he
        exact ⟨(clip_inside hclip).1, (clip_inside hclip).2.1⟩
      · exact ih hpages hp

/-- A page shows its own entities as they are. -/
theorem shown_self (h : ∀ e ∈ page.entities, 0 < e.length ∧ e.finish ≤ utf16Len page.text) :
    Shown page.entities 0 [page] := by
  refine ⟨?_, trivial⟩
  conv_lhs => rw [← List.filterMap_some (l := page.entities)]
  refine List.filterMap_congr fun e he => ?_
  obtain ⟨hpos, hle⟩ := h e he
  have hfinish : e.finish = e.offset + e.length := rfl
  rw [clip_of_lt (by omega), Option.some.injEq]
  cases e
  simp only [Entity.mk.injEq, true_and, and_true]
  simp only [Entity.finish] at hle hfinish ⊢
  omega

/-! ## Pages of a text -/

section

variable [Platform]

/-- The pages of a text: they make it up, are not empty and fit into the limit, show its
entities, and those of four or more units fit into a receipt. -/
structure Paged (limit : Nat) (t : FormattedText) (pages : List FormattedText) : Prop
    extends Sliced limit 0 t.entities t.text pages where
  light : ∀ page ∈ pages, 4 ≤ utf16Len page.text → page.bytes ≤ 32 * 1024

/-- Pages that are cut again, or stay. -/
theorem paged_flatten {cut : List FormattedText} {parts : List (List FormattedText)}
    (h : List.Forall₂ (fun page part => Paged limit page part) cut parts) :
    parts.flatten.flatMap (·.text) = cut.flatMap (·.text) ∧
      (∀ page ∈ parts.flatten, page.text ≠ [] ∧ utf16Len page.text ≤ limit ∧
        (4 ≤ utf16Len page.text → page.bytes ≤ 32 * 1024)) ∧
      ∀ entities s, Shown entities s cut → Shown entities s parts.flatten := by
  induction h with
  | nil => exact ⟨rfl, by simp, fun _ _ h => h⟩
  | @cons page part cut parts hpage _ ih =>
      obtain ⟨htext, hpages, hshown⟩ := ih
      refine ⟨?_, ?_, ?_⟩
      · rw [List.flatten_cons, List.flatMap_append, hpage.text, htext, List.flatMap_cons]
      · intro p hp
        rw [List.flatten_cons, List.mem_append] at hp
        rcases hp with hp | hp
        · exact ⟨hpage.nonempty p hp, hpage.bounded p hp, hpage.light p hp⟩
        · exact hpages p hp
      · intro entities s hs
        obtain ⟨hentities, hrest⟩ := hs
        rw [List.flatten_cons, shown_append, hpage.text]
        refine ⟨?_, hshown entities _ hrest⟩
        have hnested := hpage.shown
        rw [hentities] at hnested
        exact hnested.nested (by rw [hpage.text, Nat.zero_add])

omit [Platform] in
/-- Results that do not depend on the fuel, one for each element. -/
theorem mapM_of_forall {α β : Type} {f : Nat → α → Option β} {P : α → β → Prop} {as : List α}
    (h : ∀ a ∈ as, ∃ b, (∀ fuel, n ≤ fuel → f fuel a = some b) ∧ P a b) :
    ∃ bs, (∀ fuel, n ≤ fuel → as.mapM (f fuel) = some bs) ∧ List.Forall₂ P as bs := by
  induction as with
  | nil => exact ⟨[], fun _ _ => rfl, .nil⟩
  | cons a as ih =>
      obtain ⟨b, hb, hp⟩ := h a List.mem_cons_self
      obtain ⟨bs, hbs, hps⟩ := ih fun a ha => h a (List.mem_cons_of_mem _ ha)
      refine ⟨b :: bs, fun fuel hf => ?_, .cons hp hps⟩
      rw [List.mapM_cons, hb fuel hf, hbs fuel hf]
      rfl

/-- Every limit that is asserted gives pages, whatever the fuel once it is enough. -/
theorem pages_paged (hl : 2 ≤ limit) (hu : limit ≤ 4096) (t : FormattedText) :
    ∃ pages, (∀ fuel, t.text.length + limit ≤ fuel → t.pages fuel limit = some pages) ∧
      Paged limit t pages := by
  induction limit using Nat.strongRecOn generalizing t with
  | ind limit ih =>
      obtain ⟨cut, hcut, hsliced⟩ := slices_spec hl t.entities t.text 0
      have hlen : ∀ page ∈ cut, page.text.length ≤ t.text.length := by
        intro page hp
        obtain ⟨before, after, rfl⟩ := List.append_of_mem hp
        rw [← hsliced.text, List.flatMap_append, List.flatMap_cons, List.length_append,
          List.length_append]
        omega
      -- A page is cut again at half its length, which is below the limit.
      have hparts : ∀ page ∈ cut, ∃ part, (∀ fuel, t.text.length + (limit - 1) ≤ fuel →
          (if 32 * 1024 < page.bytes ∧ 2 ≤ utf16Len page.text / 2 then
            page.pages fuel (utf16Len page.text / 2) else some [page]) = some part) ∧
          Paged limit page part := by
        intro page hp
        have hbounded := hsliced.bounded page hp
        have hlen := hlen page hp
        by_cases hheavy : 32 * 1024 < page.bytes ∧ 2 ≤ utf16Len page.text / 2
        · obtain ⟨part, hpart, hpaged⟩ :=
            ih (utf16Len page.text / 2) (by omega) hheavy.2 (by omega) page
          refine ⟨part, fun fuel hf => ?_, ?_⟩
          · rw [if_pos hheavy]
            exact hpart fuel (by omega)
          · exact { hpaged with
              bounded := fun p hp => (hpaged.bounded p hp).trans (by omega) }
        · refine ⟨[page], fun fuel _ => if_neg hheavy, ?_⟩
          have hsingle : ∀ p ∈ [page], p = page := fun p hp => List.mem_singleton.mp hp
          refine { text := by simp, nonempty := ?_, bounded := ?_, shown := ?_, light := ?_ }
          · exact fun p h => hsingle p h ▸ hsliced.nonempty page hp
          · exact fun p h => hsingle p h ▸ hbounded
          · exact shown_self (hsliced.shown.inside hp)
          · intro p h h4
            obtain rfl := hsingle p h
            exact Nat.le_of_not_lt fun hlt => hheavy ⟨hlt, by omega⟩
      obtain ⟨parts, hmap, hall⟩ := mapM_of_forall hparts
      obtain ⟨htext, hpages, hshown⟩ := paged_flatten hall
      refine ⟨parts.flatten, fun fuel hf => ?_, ?_⟩
      · cases fuel with
        | zero => omega
        | succ fuel =>
            rw [FormattedText.pages, if_pos ⟨hl, hu⟩, hcut fuel (by omega)]
            simp only [Option.bind_eq_bind, Option.bind_some]
            rw [hmap fuel (by omega)]
            rfl
      · exact {
          text := htext.trans hsliced.text
          nonempty := fun p hp => (hpages p hp).1
          bounded := fun p hp => (hpages p hp).2.1
          shown := hshown _ _ hsliced.shown
          light := fun p hp => (hpages p hp).2.2 }

/-- **Page splitting preserves text and formatting.** For entities within the text and an
asserted limit the pages are found, whatever the fuel once it is enough. They make up the
text; none is empty or longer than the limit; their entities are not empty and within them.
Each page shows of every entity what lies in it, with its type and attributes, and the
pieces make up the entity. Pages of four or more units fit into a receipt. -/
theorem pages_partition {limit : Nat} (hl : 2 ≤ limit) (hu : limit ≤ 4096) (t : FormattedText)
    (ht : ∀ e ∈ t.entities, e.finish ≤ utf16Len t.text) :
    ∃ pages, (∀ fuel, t.text.length + limit ≤ fuel → t.pages fuel limit = some pages) ∧
      pages.flatMap (·.text) = t.text ∧
      (∀ page ∈ pages, page.text ≠ [] ∧ utf16Len page.text ≤ limit ∧
        (∀ e ∈ page.entities, 0 < e.length ∧ e.finish ≤ utf16Len page.text) ∧
        (4 ≤ utf16Len page.text → page.bytes ≤ 32 * 1024)) ∧
      Shown t.entities 0 pages ∧
      ∀ e ∈ t.entities, pieces e 0 pages = List.range' e.offset e.length ∧
        ∀ unitStart count piece, e.clip unitStart count = some piece →
          piece.kind = e.kind ∧ piece.extra = e.extra := by
  obtain ⟨pages, hrun, h⟩ := pages_paged hl hu t
  refine ⟨pages, hrun, h.text, fun page hp => ?_, h.shown, fun e he => ⟨?_, ?_⟩⟩
  · exact ⟨h.nonempty page hp, h.bounded page hp, h.shown.inside hp, h.light page hp⟩
  · have hin := ht e he
    rw [pieces_eq (by rw [h.text, Nat.zero_add]; exact hin), Nat.max_zero,
      show e.finish - e.offset = e.length from Nat.add_sub_cancel_left ..]
  · intro unitStart count piece hc
    exact (clip_inside hc).2.2

end

section

attribute [local instance] Storage.Scenario.platform

/-- A line with a link in its second half. -/
def linkedLine : FormattedText :=
  ⟨"seen there".toList, [⟨.textLink, 5, 5, some ("url", "https://example.com/")⟩]⟩

theorem pages_partition_link : ∃ pages, linkedLine.pages 20 8 = some pages ∧
    pages.flatMap (·.text) = linkedLine.text ∧
    pieces ⟨.textLink, 5, 5, some ("url", "https://example.com/")⟩ 0 pages =
      [5, 6, 7, 8, 9] := by
  obtain ⟨pages, hrun, htext, -, -, hpieces⟩ :=
    pages_partition (by decide : 2 ≤ 8) (by decide) linkedLine (by decide)
  exact ⟨pages, hrun 20 (by decide), htext, (hpieces _ List.mem_cons_self).1⟩

end

end YoinkCore.Telegram
