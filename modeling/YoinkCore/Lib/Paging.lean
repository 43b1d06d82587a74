import Mathlib

/-!
# Pages

A list is read page by page. A page begins behind the last row of the page before it, and a
page that is not full is the last one. Whatever the rows are added up to, the size of the pages
makes no difference.
-/

namespace YoinkCore.Lib

variable {ρ κ ε σ : Type}

/-! ## Lists in an order -/

/-- Lists of one strict order are told apart by their elements. -/
theorem eq_of_mem_iff {lt : ρ → ρ → Prop} (asymm : ∀ a b, lt a b → ¬ lt b a)
    {l l' : List ρ} (h : l.Pairwise lt) (h' : l'.Pairwise lt) (hmem : ∀ a, a ∈ l ↔ a ∈ l') :
    l = l' := by
  have hne : ∀ a b, lt a b → a ≠ b := by
    rintro a b hab rfl
    exact asymm a a hab hab
  have hnodup : ∀ {l : List ρ}, l.Pairwise lt → l.Nodup := fun h => h.imp (hne _ _)
  have hperm : l.Perm l' := (List.perm_ext_iff_of_nodup (hnodup h) (hnodup h')).mpr hmem
  exact hperm.eq_of_pairwise (fun a b _ _ hab hba => absurd hba (asymm a b hab)) h h'

/-! ## Reading pages -/

/-- Read pages until one that is not full, at most so many, and visit each of them. `next` reads
the page behind a key, `key` is that of a row. -/
def readPages (next : Option κ → Except ε (List ρ)) (key : ρ → κ) (size : Nat)
    (visit : σ → List ρ → Except ε σ) : Nat → Option κ → σ → Option (Except ε σ)
  | 0, _, _ => none
  | turns + 1, cursor, s =>
      match next cursor with
      | .error e => some (.error e)
      | .ok page =>
          match page.getLast? with
          | none => some (.ok s)
          | some r =>
              match visit s page with
              | .error e => some (.error e)
              | .ok s =>
                  if page.length < size then some (.ok s)
                  else readPages next key size visit turns (some (key r)) s

/-- Only pages that are read are visited. -/
theorem readPages_congr {next : Option κ → Except ε (List ρ)} {key : ρ → κ} {size : Nat}
    {visit visit' : σ → List ρ → Except ε σ}
    (h : ∀ cursor page, next cursor = .ok page → ∀ s, visit s page = visit' s page)
    (turns : Nat) : ∀ (cursor : Option κ) (s : σ),
      readPages next key size visit turns cursor s =
        readPages next key size visit' turns cursor s := by
  induction turns with
  | zero => exact fun _ _ => rfl
  | succ turns ih =>
      intro cursor s
      unfold readPages
      cases hpage : next cursor with
      | error e => rfl
      | ok page => simp only [h cursor page hpage, ih]

/-- Rows are visited one after the other. -/
def visitAll (f : σ → ρ → Except ε σ) (s : σ) (page : List ρ) : Except ε σ := page.foldlM f s

theorem visitAll_append (f : σ → ρ → Except ε σ) (s : σ) (a b : List ρ) :
    visitAll f s (a ++ b) = visitAll f s a >>= fun s => visitAll f s b :=
  List.foldlM_append

/-- The cursor stands behind the rows that were read. -/
def Behind (key : ρ → κ) (read : List ρ) (cursor : Option κ) : Prop :=
  cursor = read.getLast?.map key

/-- **Pages.** Behind any part of the rows, the rest is read, unless a page cannot be read. -/
theorem readPages_spec {next : Option κ → Except ε (List ρ)} {key : ρ → κ} {size : Nat}
    (hsize : 0 < size) {all : List ρ} {Faulty : List ρ → ε → Prop}
    (hnext : ∀ front rest cursor, all = front ++ rest → Behind key front cursor →
      next cursor = .ok (rest.take size) ∨ ∃ e, next cursor = .error e ∧ Faulty front e)
    (f : σ → ρ → Except ε σ) (n : Nat) : ∀ (front rest : List ρ) (cursor : Option κ) (s : σ),
      rest.length = n → all = front ++ rest → Behind key front cursor →
      ∃ x, (∀ turns, n < turns →
          readPages next key size (visitAll f) turns cursor s = some x) ∧
        (x = visitAll f s rest ∨
          ∃ mid rest' e, rest = mid ++ rest' ∧ Faulty (front ++ mid) e ∧
            x = visitAll f s mid >>= fun _ => .error e) := by
  induction n using Nat.strongRecOn with
  | ind n ih =>
      intro front rest cursor s hn hall hcursor
      rcases hnext front rest cursor hall hcursor with hpage | ⟨e, herror, hfaulty⟩
      · rcases hlast : (rest.take size).getLast? with _ | r
        · -- nothing is left
          have hnil : rest = [] := by
            rw [List.getLast?_eq_none_iff, List.take_eq_nil_iff] at hlast
            exact hlast.resolve_left (Nat.ne_of_gt hsize)
          refine ⟨.ok s, ?_, .inl (by rw [hnil]; rfl)⟩
          intro turns hturns
          cases turns with
          | zero => cases hturns
          | succ turns => simp only [readPages, hpage, hlast]
        have hsplit : visitAll f s rest =
            visitAll f s (rest.take size) >>= fun s => visitAll f s (rest.drop size) := by
          rw [← visitAll_append, List.take_append_drop]
        cases hvisit : visitAll f s (rest.take size) with
        | error e =>
            refine ⟨.error e, ?_, .inl (by rw [hsplit, hvisit]; rfl)⟩
            intro turns hturns
            cases turns with
            | zero => cases hturns
            | succ turns => simp only [readPages, hpage, hlast, hvisit]
        | ok s' =>
            rw [hvisit] at hsplit
            by_cases hfull : (rest.take size).length < size
            · -- the last page
              have hshort : rest.length ≤ size := by
                rw [List.length_take] at hfull
                omega
              refine ⟨.ok s', ?_, .inl ?_⟩
              · intro turns hturns
                cases turns with
                | zero => cases hturns
                | succ turns => simp only [readPages, hpage, hlast, hvisit, if_pos hfull]
              · rw [hsplit, List.drop_eq_nil_of_le hshort]
                rfl
            · have hlong : size ≤ rest.length := by
                rw [List.length_take] at hfull
                omega
              have hdrop : (rest.drop size).length < n := by
                rw [List.length_drop, ← hn]
                omega
              have hbehind : Behind key (front ++ rest.take size) (some (key r)) := by
                rw [Behind, List.getLast?_append, hlast]
                rfl
              have hall' : all = (front ++ rest.take size) ++ rest.drop size := by
                rw [List.append_assoc, List.take_append_drop, hall]
              obtain ⟨x, hx, hcases⟩ := ih _ hdrop _ _ _ s' rfl hall' hbehind
              refine ⟨x, ?_, ?_⟩
              · intro turns hturns
                cases turns with
                | zero => cases hturns
                | succ turns =>
                    simp only [readPages, hpage, hlast, hvisit, if_neg hfull]
                    exact hx turns (by omega)
              · rcases hcases with hvisited | ⟨mid, rest', e, hrest, hfaulty, hvisited⟩
                · exact .inl (by rw [hvisited, hsplit]; rfl)
                · refine .inr ⟨rest.take size ++ mid, rest', e, ?_, ?_, ?_⟩
                  · rw [List.append_assoc, ← hrest, List.take_append_drop]
                  · rwa [← List.append_assoc]
                  · rw [hvisited, visitAll_append, hvisit]
                    rfl
      · refine ⟨.error e, ?_, .inr ⟨[], rest, e, rfl, by rwa [List.append_nil], rfl⟩⟩
        intro turns hturns
        cases turns with
        | zero => cases hturns
        | succ turns => rw [readPages, herror]

end YoinkCore.Lib
