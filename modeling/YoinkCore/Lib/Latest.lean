import Mathlib

/-!
# The latest of a history

Elements of a history are ordered by a key and not by their places. The latest one with a
property, and the stretch since a value last changed, depend on the elements alone.
-/

namespace YoinkCore.Lib

variable {α κ : Type} [LinearOrder κ] {key : α → κ} {P Q : α → Prop} {h h' : List α} {a b : α}

/-- The latest element with a property. -/
structure Latest (key : α → κ) (P : α → Prop) (h : List α) (a : α) : Prop where
  mem : a ∈ h
  prop : P a
  le : ∀ b ∈ h, P b → key b ≤ key a

/-- An instant lies in the last stretch over which a value of the elements stayed the same. -/
def Since {β : Type} (key : α → κ) (P : α → Prop) (f : α → β) (h : List α) (k : κ) : Prop :=
  ∃ b ∈ h, P b ∧ key b < k ∧ ∀ c ∈ h, P c → key b ≤ key c → f c = f b

/-- No two elements have one key. -/
def KeyInj (key : α → κ) (h : List α) : Prop := ∀ a ∈ h, ∀ b ∈ h, key a = key b → a = b

namespace Latest

theorem unique (hinj : KeyInj key h) (ha : Latest key P h a) (hb : Latest key P h b) : a = b :=
  hinj a ha.mem b hb.mem (le_antisymm (hb.le a ha.mem ha.prop) (ha.le b hb.mem hb.prop))

theorem congr (hmem : ∀ x, x ∈ h ↔ x ∈ h') (ha : Latest key P h a) : Latest key P h' a :=
  ⟨(hmem a).mp ha.mem, ha.prop, fun b hb => ha.le b ((hmem b).mpr hb)⟩

/-- An element without the property, or before the latest one, changes nothing. -/
theorem snoc (ha : Latest key P h a) (hb : P b → key b ≤ key a) : Latest key P (h ++ [b]) a := by
  refine ⟨List.mem_append_left _ ha.mem, ha.prop, fun c hc hp => ?_⟩
  rcases List.mem_append.mp hc with hc | hc
  · exact ha.le c hc hp
  · obtain rfl := List.mem_singleton.mp hc
    exact hb hp

/-- An element after all others is the latest. -/
theorem snoc_last (hb : P b) (hlast : ∀ c ∈ h, P c → key c ≤ key b) :
    Latest key P (h ++ [b]) b := by
  refine ⟨List.mem_append_right _ List.mem_cons_self, hb, fun c hc hp => ?_⟩
  rcases List.mem_append.mp hc with hc | hc
  · exact hlast c hc hp
  · rw [List.mem_singleton.mp hc]

end Latest

section

variable {β : Type} {f : α → β} {k : κ}

theorem Since.congr (hmem : ∀ x, x ∈ h ↔ x ∈ h') (hs : Since key P f h k) :
    Since key P f h' k := by
  obtain ⟨b, hb, hp, hlt, hsame⟩ := hs
  exact ⟨b, (hmem b).mp hb, hp, hlt, fun c hc => hsame c ((hmem c).mpr hc)⟩

theorem since_congr (hmem : ∀ x, x ∈ h ↔ x ∈ h') : Since key P f h k ↔ Since key P f h' k :=
  ⟨Since.congr hmem, Since.congr fun x => (hmem x).symm⟩

/-- What has not the property does not count. -/
theorem since_snoc_of_not (hb : ¬ P b) : Since key P f (h ++ [b]) k ↔ Since key P f h k := by
  constructor
  · rintro ⟨a, ha, hp, hlt, hsame⟩
    refine ⟨a, ?_, hp, hlt, fun c hc => hsame c (List.mem_append_left _ hc)⟩
    rcases List.mem_append.mp ha with ha | ha
    · exact ha
    · exact absurd (List.mem_singleton.mp ha ▸ hp) hb
  · rintro ⟨a, ha, hp, hlt, hsame⟩
    refine ⟨a, List.mem_append_left _ ha, hp, hlt, fun c hc hc' => ?_⟩
    rcases List.mem_append.mp hc with hc | hc
    · exact hsame c hc hc'
    · exact absurd (List.mem_singleton.mp hc ▸ hc') hb

/-- The stretch goes at least from the latest element on. -/
theorem Latest.since (hinj : KeyInj key h) (ha : Latest key P h a) (hlt : key a < k) :
    Since key P f h k := by
  refine ⟨a, ha.mem, ha.prop, hlt, fun c hc hp hle => ?_⟩
  rw [hinj c hc a ha.mem (le_antisymm (ha.le c hc hp) hle)]

/-- A later element with the same value lengthens the stretch at its end. -/
theorem since_snoc_same (hinj : KeyInj key h) (ha : Latest key P h a) (hb : P b)
    (hlt : key a < key b) (hsame : f b = f a) :
    Since key P f (h ++ [b]) k ↔ Since key P f h k := by
  constructor
  · rintro ⟨c, hc, hp, hck, hall⟩
    rcases List.mem_append.mp hc with hc | hc
    · exact ⟨c, hc, hp, hck, fun d hd => hall d (List.mem_append_left _ hd)⟩
    · obtain rfl := List.mem_singleton.mp hc
      exact ha.since hinj (lt_trans hlt hck)
  · rintro ⟨c, hc, hp, hck, hall⟩
    refine ⟨c, List.mem_append_left _ hc, hp, hck, fun d hd hd' hle => ?_⟩
    rcases List.mem_append.mp hd with hd | hd
    · exact hall d hd hd' hle
    · rw [List.mem_singleton.mp hd, hsame]
      exact hall a ha.mem ha.prop (ha.le c hc hp)

/-- A later element with another value begins a stretch. -/
theorem not_since_snoc (hother : ∀ a, Latest key P h a → f b ≠ f a)
    (hlatest : (∃ c ∈ h, P c) → ∃ a, Latest key P h a) (hb : P b)
    (hlast : ∀ c ∈ h, P c → key c < key b) (hk : k ≤ key b) :
    ¬ Since key P f (h ++ [b]) k := by
  rintro ⟨c, hc, hp, hck, hall⟩
  rcases List.mem_append.mp hc with hc | hc
  · obtain ⟨a, ha⟩ := hlatest ⟨c, hc, hp⟩
    refine hother a ha ?_
    have hend := hall b (List.mem_append_right _ List.mem_cons_self) hb (le_of_lt (hlast c hc hp))
    have hmid := hall a (List.mem_append_left _ ha.mem) ha.prop (ha.le c hc hp)
    exact hend.trans hmid.symm
  · obtain rfl := List.mem_singleton.mp hc
    exact absurd hck (not_lt.mpr hk)

end

end YoinkCore.Lib
