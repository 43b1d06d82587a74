import YoinkCore.Telegram.Entities

/-!
# Entities that may stand together

Nothing is formatted across code, and quotations hold no links: entities are cut where
something else is protected from them.
-/

namespace YoinkCore.Telegram

open Lib Text

/-- What is protected from entities of a kind. -/
def protectedFor (entities : List Entity) : EntityKind → List (Nat × Nat)
  | .code | .pre => []
  | .blockquote => protectedSpans entities true
  | _ => protectedSpans entities false

/-- The pieces of an entity between protected spans, up to a limit. -/
def Entity.cut (e : Entity) (limit : Nat) (shield : List (Nat × Nat)) : List Entity :=
  let stop := min e.finish limit
  let spans := gaps e.offset stop <|
    (seek e.offset shield).takeWhile fun s => decide (s.1 < stop)
  (spans.filter fun s => decide (s.1 < s.2)).map fun s =>
    { e with offset := s.1, length := s.2 - s.1 }

/-- By offset, the longer first, then by type. -/
def Entity.before (a b : Entity) : Prop :=
  a.offset < b.offset ∨ (a.offset = b.offset ∧
    (b.length < a.length ∨ (a.length = b.length ∧ a.kind.asStr ≤ b.kind.asStr)))

instance : DecidableRel Entity.before := fun _ _ =>
  inferInstanceAs (Decidable (_ ∨ (_ ∧ (_ ∨ (_ ∧ _)))))

/-- `Vec::dedup` -/
def dedup : List Entity → List Entity
  | [] => []
  | [e] => [e]
  | a :: b :: rest => if a = b then dedup (b :: rest) else a :: dedup (b :: rest)

def normalize (entities : List Entity) (limit : Nat) : List Entity :=
  dedup <| (entities.flatMap fun e =>
    e.cut limit (protectedFor entities e.kind)).insertionSort Entity.before

variable {entities : List Entity} {shield : List (Nat × Nat)} {e : Entity}

theorem mem_dedup : e ∈ dedup entities ↔ e ∈ entities := by
  induction entities with
  | nil => rfl
  | cons a entities ih =>
      cases entities with
      | nil => rfl
      | cons b rest =>
          rw [dedup]
          split
          · rename_i hab
            rw [ih, hab]
            simp
          · simp only [List.mem_cons, ih]

theorem mem_normalize {limit : Nat} :
    e ∈ normalize entities limit ↔
      ∃ e' ∈ entities, e ∈ e'.cut limit (protectedFor entities e'.kind) := by
  rw [normalize, mem_dedup, List.mem_insertionSort, List.mem_flatMap]

theorem sorted_protectedFor (entities : List Entity) (kind : EntityKind) :
    SortedByStart (protectedFor entities kind) := by
  cases kind
  case code => exact List.Pairwise.nil
  case pre => exact List.Pairwise.nil
  all_goals exact sorted_protectedSpans _ _

/-! ## Pieces -/

/-- A piece is not empty, and within the limit. -/
theorem cut_spec {p : Entity} {limit : Nat} (h : p ∈ e.cut limit shield) :
    p.kind = e.kind ∧ p.extra = e.extra ∧ 0 < p.length ∧ (p.offset, p.finish) ∈
      gaps e.offset (min e.finish limit)
        ((seek e.offset shield).takeWhile fun s => decide (s.1 < min e.finish limit)) := by
  obtain ⟨s, hs, rfl⟩ := List.mem_map.mp h
  obtain ⟨hmem, hlt⟩ := List.mem_filter.mp hs
  rw [decide_eq_true_eq] at hlt
  refine ⟨rfl, rfl, Nat.sub_pos_of_lt hlt, ?_⟩
  show (s.1, s.1 + (s.2 - s.1)) ∈ _
  rwa [Nat.add_sub_cancel' hlt.le]

/-- The pieces cover what the entity does, up to the limit, but for what is protected. -/
theorem covers_cut {limit : Nat} (h : SortedByStart shield) {x : Nat} :
    (∃ p ∈ e.cut limit shield, p.covers x) ↔ e.covers x ∧ x < limit ∧ ¬ Covers shield x := by
  have hgaps : (∃ p ∈ e.cut limit shield, p.covers x) ↔
      Covers (gaps e.offset (min e.finish limit)
        ((seek e.offset shield).takeWhile fun s => decide (s.1 < min e.finish limit))) x := by
    constructor
    · rintro ⟨p, hp, hx⟩
      exact ⟨_, (cut_spec hp).2.2.2, hx⟩
    · rintro ⟨s, hs, hx⟩
      have hlt : s.1 < s.2 := hx.1.trans_lt hx.2
      refine ⟨{ e with offset := s.1, length := s.2 - s.1 }, List.mem_map.mpr
        ⟨s, List.mem_filter.mpr ⟨hs, decide_eq_true hlt⟩, rfl⟩, hx.1, ?_⟩
      show x < s.1 + (s.2 - s.1)
      rw [Nat.add_sub_cancel' hlt.le]
      exact hx.2
  rw [hgaps, covers_gaps ((sorted_seek h _).sublist (List.takeWhile_sublist _)), lt_min_iff]
  constructor
  · rintro ⟨⟨hle, hfin, hlim⟩, hn⟩
    refine ⟨⟨hle, hfin⟩, hlim, fun hc => hn ?_⟩
    rw [covers_takeWhile (sorted_seek h _) (lt_min hfin hlim), covers_seek hle]
    exact hc
  · rintro ⟨⟨hle, hfin⟩, hlim, hn⟩
    refine ⟨⟨hle, hfin, hlim⟩, fun hc => hn ?_⟩
    rwa [covers_takeWhile (sorted_seek h _) (lt_min hfin hlim), covers_seek hle] at hc

/-- What the result covers, by type and attributes. -/
theorem covers_normalize {limit : Nat} (kind : EntityKind) (extra : Option (String × String))
    (x : Nat) :
    (∃ e ∈ normalize entities limit, e.kind = kind ∧ e.extra = extra ∧ e.covers x) ↔
      (∃ e ∈ entities, e.kind = kind ∧ e.extra = extra ∧ e.covers x) ∧ x < limit ∧
        ¬ Covers (protectedFor entities kind) x := by
  constructor
  · rintro ⟨p, hp, rfl, rfl, hx⟩
    obtain ⟨e, he, hcut⟩ := mem_normalize.mp hp
    obtain ⟨hkind, hextra, -, -⟩ := cut_spec hcut
    obtain ⟨hcov, hlim, hn⟩ := (covers_cut (sorted_protectedFor _ _)).mp ⟨p, hcut, hx⟩
    rw [hkind, hextra]
    exact ⟨⟨e, he, rfl, rfl, hcov⟩, hlim, hn⟩
  · rintro ⟨⟨e, he, rfl, rfl, hx⟩, hlim, hn⟩
    obtain ⟨p, hp, hcov⟩ := (covers_cut (sorted_protectedFor _ _)).mpr ⟨hx, hlim, hn⟩
    obtain ⟨hkind, hextra, -, -⟩ := cut_spec hp
    exact ⟨p, mem_normalize.mpr ⟨e, he, hp⟩, hkind, hextra, hcov⟩

/-- Entities of the result are not empty and end at the limit or before. -/
theorem normalize_bounds {limit : Nat} (h : e ∈ normalize entities limit) :
    0 < e.length ∧ e.finish ≤ limit := by
  obtain ⟨e', he, hcut⟩ := mem_normalize.mp h
  have hpos := (cut_spec hcut).2.2.1
  have hlast : e.covers (e.finish - 1) := by
    have : e.finish = e.offset + e.length := rfl
    exact ⟨by omega, by omega⟩
  obtain ⟨-, hlim, -⟩ := (covers_cut (sorted_protectedFor _ _)).mp ⟨e, hcut, hlast⟩
  have : e.finish = e.offset + e.length := rfl
  exact ⟨hpos, by omega⟩

end YoinkCore.Telegram
