import Mathlib

/-!
# Rows with parents

Rows have a key, an owner, and may name the key of a parent. They are a forest when every
parent is a row of the same owner, and no row is above itself. `Forest.of_links` says which
changes keep a forest: links may go, and new links may lead to one place, as long as that
place is not below a row that gets one. A walk from a row to its parents ends at the top,
or where it is stopped.
-/

namespace YoinkCore.Lib

open Relation

/-! ## Relations without cycles -/

section

variable {α : Type} {r r' : α → α → Prop}

def Acyclic (r : α → α → Prop) : Prop := ∀ a, ¬ TransGen r a a

variable {S : α → Prop} {y : α}

/-- What is reached from where the new links lead was reached before. -/
theorem reach_of_redirect (hnew : ∀ a b, r' a b → r a b ∨ (S a ∧ b = y)) {b : α}
    (h : ReflTransGen r' y b) : ReflTransGen r y b := by
  induction h with
  | refl => exact .refl
  | tail _ hab ih =>
      rcases hnew _ _ hab with hab | ⟨-, rfl⟩
      · exact ih.tail hab
      · exact .refl

/-- A path is an old one, or takes a new link. -/
theorem path_of_redirect (hnew : ∀ a b, r' a b → r a b ∨ (S a ∧ b = y)) {a b : α}
    (h : TransGen r' a b) :
    TransGen r a b ∨ ∃ s, S s ∧ ReflTransGen r' a s ∧ ReflTransGen r' y b := by
  induction h with
  | single hab =>
      rcases hnew _ _ hab with hab | ⟨hs, rfl⟩
      · exact .inl (.single hab)
      · exact .inr ⟨_, hs, .refl, .refl⟩
  | tail hac hcb ih =>
      rcases hnew _ _ hcb with hold | ⟨hs, rfl⟩
      · rcases ih with hac | ⟨s, hs, has, hyc⟩
        · exact .inl (hac.tail hold)
        · exact .inr ⟨s, hs, has, hyc.tail hcb⟩
      · exact .inr ⟨_, hs, hac.to_reflTransGen, .refl⟩

/-- New links to one place make no cycle, when that place leads to none of their starts. -/
theorem Acyclic.redirect (h : Acyclic r) (hnew : ∀ a b, r' a b → r a b ∨ (S a ∧ b = y))
    (hapart : ∀ a, S a → ¬ ReflTransGen r y a) : Acyclic r' := by
  intro a ha
  rcases path_of_redirect hnew ha with hold | ⟨s, hs, has, hya⟩
  · exact h a hold
  · exact hapart s hs (reach_of_redirect hnew (hya.trans has))

end

/-! ## Forests -/

/-- The columns that make rows a forest. -/
structure TreeColumns (ρ κ υ : Type) where
  key : ρ → κ
  owner : ρ → υ
  parent : ρ → Option κ

namespace TreeColumns

variable {ρ κ υ : Type} (T : TreeColumns ρ κ υ) (rows : List ρ)

/-- The second is the parent of the first. -/
def Up (a b : κ) : Prop := ∃ r ∈ rows, T.key r = a ∧ T.parent r = some b

structure Forest : Prop where
  owned : ∀ r ∈ rows, ∀ k, T.parent r = some k → ∃ q ∈ rows, T.key q = k ∧ T.owner q = T.owner r
  acyclic : Acyclic (T.Up rows)

namespace Forest

variable {T rows} {rows' : List ρ}

theorem empty : T.Forest [] where
  owned := fun _ h => nomatch h
  acyclic a h := by
    cases h with
    | single hab | tail _ hab => obtain ⟨r, hr, -⟩ := hab; cases hr

/-- **Links.** Links may go, and new ones may lead to one place. -/
theorem of_links (h : T.Forest rows) {S : κ → Prop} {y : κ}
    (hback : ∀ r ∈ rows', ∀ k, T.parent r = some k →
      (∃ q ∈ rows', T.key q = k ∧ T.owner q = T.owner r) ∧
        (T.Up rows (T.key r) k ∨ (S (T.key r) ∧ k = y)))
    (hapart : ∀ a, S a → ¬ ReflTransGen (T.Up rows) y a) : T.Forest rows' where
  owned r hr k hk := (hback r hr k hk).1
  acyclic := by
    refine h.acyclic.redirect (S := S) (y := y) ?_ hapart
    rintro a b ⟨r, hr, rfl, hb⟩
    exact (hback r hr b hb).2

/-- No link is new. -/
theorem of_kept (h : T.Forest rows)
    (hback : ∀ r ∈ rows', ∀ k, T.parent r = some k →
      (∃ q ∈ rows', T.key q = k ∧ T.owner q = T.owner r) ∧ T.Up rows (T.key r) k) :
    T.Forest rows' where
  owned r hr k hk := (hback r hr k hk).1
  acyclic := by
    intro a ha
    have hle : T.Up rows' ≤ T.Up rows := by
      rintro a b ⟨r, hr, rfl, hb⟩
      exact (hback r hr b hb).2
    exact h.acyclic a (TransGen.mono hle a a ha)

/-- What is reached is where the walk began, or a row. -/
theorem reached (h : T.Forest rows) {a b : κ} (hab : ReflTransGen (T.Up rows) a b) :
    a = b ∨ ∃ q ∈ rows, T.key q = b := by
  cases hab with
  | refl => exact .inl rfl
  | tail _ hup =>
      obtain ⟨r, hr, -, hb⟩ := hup
      obtain ⟨q, hq, hkey, -⟩ := h.owned r hr _ hb
      exact .inr ⟨q, hq, hkey⟩

/-- A new row is below none of the others. -/
theorem insert (h : T.Forest rows) {new : ρ} (hnew : ∀ r ∈ rows, T.key r ≠ T.key new)
    (hparent : ∀ k, T.parent new = some k →
      ∃ q ∈ rows, T.key q = k ∧ T.owner q = T.owner new) : T.Forest (rows ++ [new]) := by
  cases hp : T.parent new with
  | none =>
      refine h.of_kept fun r hr k hk => ?_
      rcases List.mem_append.mp hr with hr | hr
      · obtain ⟨q, hq, hkey⟩ := h.owned r hr k hk
        exact ⟨⟨q, List.mem_append_left _ hq, hkey⟩, r, hr, rfl, hk⟩
      · rw [List.mem_singleton.mp hr, hp] at hk
        cases hk
  | some p =>
      refine h.of_links (S := (· = T.key new)) (y := p) (fun r hr k hk => ?_) ?_
      · rcases List.mem_append.mp hr with hr | hr
        · obtain ⟨q, hq, hkey⟩ := h.owned r hr k hk
          exact ⟨⟨q, List.mem_append_left _ hq, hkey⟩, .inl ⟨r, hr, rfl, hk⟩⟩
        · obtain rfl := List.mem_singleton.mp hr
          obtain ⟨q, hq, hkey⟩ := hparent k hk
          rw [hp] at hk
          exact ⟨⟨q, List.mem_append_left _ hq, hkey⟩, .inr ⟨rfl, (Option.some.inj hk).symm⟩⟩
      · rintro a rfl hreach
        obtain ⟨q, hq, hkey, -⟩ := hparent p hp
        rcases h.reached hreach with he | ⟨q', hq', hkey'⟩
        · exact hnew q hq (hkey.trans he)
        · exact hnew q' hq' hkey'

/-- Rows move below one that is not below them. -/
theorem update (h : T.Forest rows) {p : ρ → Bool} {f : ρ → ρ}
    (hkeeps : ∀ r, T.key (f r) = T.key r ∧ T.owner (f r) = T.owner r) (target : κ)
    (hmoves : ∀ r ∈ rows, p r = true → ∀ k, T.parent (f r) = some k →
      T.parent r = some k ∨ (k = target ∧ ¬ ReflTransGen (T.Up rows) target (T.key r) ∧
        ∃ q ∈ rows, T.key q = target ∧ T.owner q = T.owner r)) :
    T.Forest (rows.map fun r => if p r then f r else r) := by
  have hstays : ∀ {k owner}, (∃ q ∈ rows, T.key q = k ∧ T.owner q = owner) →
      ∃ q ∈ rows.map fun r => if p r then f r else r, T.key q = k ∧ T.owner q = owner := by
    rintro k owner ⟨q, hq, rfl, rfl⟩
    refine ⟨_, List.mem_map_of_mem hq, ?_⟩
    split
    · exact hkeeps q
    · exact ⟨rfl, rfl⟩
  refine h.of_links (S := fun a => ¬ ReflTransGen (T.Up rows) target a) (y := target) ?_
    fun _ h => h
  intro r hr k hk
  obtain ⟨g, hg, rfl⟩ := List.mem_map.mp hr
  by_cases hp : p g = true
  · rw [if_pos hp] at hk ⊢
    rw [(hkeeps g).1, (hkeeps g).2]
    rcases hmoves g hg hp k hk with hold | ⟨rfl, hapart, hq⟩
    · exact ⟨hstays (h.owned g hg k hold), .inl ⟨g, hg, rfl, hold⟩⟩
    · exact ⟨hstays hq, .inr ⟨hapart, rfl⟩⟩
  · rw [if_neg hp] at hk ⊢
    exact ⟨hstays (h.owned g hg k hk), .inl ⟨g, hg, rfl, hk⟩⟩

/-- Rows go, and their children lose the parent. -/
theorem delete (h : T.Forest rows) {p lost : ρ → Bool} {f : ρ → ρ}
    (hkeeps : ∀ r, T.key (f r) = T.key r ∧ T.owner (f r) = T.owner r ∧ T.parent (f r) = none)
    (hlost : ∀ r q k, q ∈ rows → p q = true → T.parent r = some k → T.key q = k →
      lost r = true) :
    T.Forest ((rows.filter (!p ·)).map fun r => if lost r then f r else r) := by
  have hsame : ∀ r, T.key (if lost r then f r else r) = T.key r ∧
      T.owner (if lost r then f r else r) = T.owner r := by
    intro r
    split
    · exact ⟨(hkeeps r).1, (hkeeps r).2.1⟩
    · exact ⟨rfl, rfl⟩
  refine h.of_kept fun r hr k hk => ?_
  obtain ⟨g, hg, rfl⟩ := List.mem_map.mp hr
  obtain ⟨hmem, -⟩ := List.mem_filter.mp hg
  rw [(hsame g).1, (hsame g).2]
  by_cases hl : lost g = true
  · rw [if_pos hl, (hkeeps g).2.2] at hk
    cases hk
  · rw [if_neg hl] at hk
    obtain ⟨q, hq, hkey, howner⟩ := h.owned g hmem k hk
    refine ⟨⟨_, List.mem_map_of_mem (List.mem_filter.mpr ⟨hq, ?_⟩), (hsame q).1.trans hkey,
      (hsame q).2.trans howner⟩, g, hmem, rfl, hk⟩
    -- a parent that goes would have been taken from the child
    cases hpq : p q with
    | false => rfl
    | true => exact absurd (hlost g q k hq hpq hk hkey) hl

end Forest

/-! ## Walks -/

inductive WalkEnd where
  | top | blocked | missing
deriving DecidableEq

section

variable [DecidableEq κ] (lookup : κ → Option ρ) (stop : Option κ)

/-- Walk up from a row, until the top, a row to stop at, one seen before, or none. -/
def walk : Nat → List κ → Option κ → WalkEnd
  | _, _, none => .top
  | 0, _, some _ => .blocked
  | steps + 1, visited, some k =>
      if some k = stop || visited.contains k then .blocked
      else
        match lookup k with
        | none => .missing
        | some r => walk steps (k :: visited) (T.parent r)

/-- The lookup finds the rows of an owner. -/
def Finds (owner : υ) : Prop :=
  ∀ k r, lookup k = some r ↔ r ∈ rows ∧ T.key r = k ∧ T.owner r = owner

variable {T rows lookup stop} {owner : υ}

omit [DecidableEq κ] in
/-- Where keys are unique, a row has one parent. -/
theorem parent_of_up (hkeys : ∀ a ∈ rows, ∀ b ∈ rows, T.key a = T.key b → a = b) {r : ρ}
    (hr : r ∈ rows) {k : κ} (hup : T.Up rows (T.key r) k) : T.parent r = some k := by
  obtain ⟨r', hr', hkey, hk⟩ := hup
  rwa [hkeys r' hr' r hr hkey] at hk

/-- A walk that ends at the top has met every row above its start. -/
theorem above_of_walk (hfinds : T.Finds rows lookup owner)
    (hkeys : ∀ a ∈ rows, ∀ b ∈ rows, T.key a = T.key b → a = b) {steps : Nat}
    {visited : List κ} {p k : κ} (h : T.walk lookup stop steps visited (some p) = .top)
    (hpk : ReflTransGen (T.Up rows) p k) :
    stop ≠ some k ∧ ∃ r ∈ rows, T.key r = k ∧ T.owner r = owner := by
  induction steps generalizing visited p with
  | zero => cases h
  | succ steps ih =>
      unfold walk at h
      by_cases hstop : some p = stop || visited.contains p
      · rw [if_pos hstop] at h
        cases h
      · rw [if_neg hstop] at h
        cases hl : lookup p with
        | none =>
            rw [hl] at h
            cases h
        | some r =>
            rw [hl] at h
            obtain ⟨hr, rfl, ho⟩ := (hfinds p r).mp hl
            rcases ReflTransGen.cases_head hpk with rfl | ⟨m, hup, hmk⟩
            · refine ⟨fun he => hstop ?_, r, hr, rfl, ho⟩
              rw [he]
              simp
            · simp only [parent_of_up hkeys hr hup] at h
              exact ih h hmk

/-- **Walks end.** In a forest a walk from a row ends at the top, or where it is stopped. -/
theorem Forest.walk_ends (h : T.Forest rows) (hfinds : T.Finds rows lookup owner)
    (stop : Option κ) (steps : Nat) (visited : List κ) {r : ρ} (hr : r ∈ rows)
    (ho : T.owner r = owner)
    (hrows : ∀ v ∈ visited, ∃ q ∈ rows, T.key q = v) (hnodup : visited.Nodup)
    (hbelow : ∀ v ∈ visited, TransGen (T.Up rows) v (T.key r))
    (hsteps : rows.length < steps + visited.length) :
    T.walk lookup stop steps visited (some (T.key r)) = .top ∨
      ∃ k, stop = some k ∧ ReflTransGen (T.Up rows) (T.key r) k ∧
        T.walk lookup stop steps visited (some (T.key r)) = .blocked := by
  induction steps generalizing visited r with
  | zero =>
      have hsub : visited ⊆ rows.map T.key := fun v hv => by
        obtain ⟨q, hq, rfl⟩ := hrows v hv
        exact List.mem_map_of_mem hq
      have := (List.subperm_of_subset hnodup hsub).length_le
      rw [List.length_map] at this
      omega
  | succ steps ih =>
      have hnew : T.key r ∉ visited := fun hv => h.acyclic _ (hbelow _ hv)
      have hfound : lookup (T.key r) = some r := (hfinds _ r).mpr ⟨hr, rfl, ho⟩
      unfold walk
      by_cases hstop : some (T.key r) = stop
      · exact .inr ⟨T.key r, hstop.symm, .refl, by simp [hstop]⟩
      · rw [if_neg (by simpa [hstop] using hnew), hfound]
        cases hp : T.parent r with
        | none =>
            left
            simp only [hp]
            cases steps <;> rfl
        | some p =>
            obtain ⟨q, hq, rfl, hqo⟩ := h.owned r hr p hp
            have hup : T.Up rows (T.key r) (T.key q) := ⟨r, hr, rfl, hp⟩
            simp only [hp]
            rcases ih (T.key r :: visited) hq (hqo.trans ho)
                (by simpa using ⟨⟨r, hr, rfl⟩, hrows⟩) (List.nodup_cons.mpr ⟨hnew, hnodup⟩)
                (by simpa using ⟨.single hup, fun v hv => (hbelow v hv).tail hup⟩)
                (by simp only [List.length_cons]; omega) with htop | ⟨k, hk, hqk, hblocked⟩
            · exact .inl htop
            · exact .inr ⟨k, hk, ReflTransGen.head hup hqk, hblocked⟩

end

end TreeColumns

end YoinkCore.Lib
