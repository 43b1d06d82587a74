import Mathlib

/-!
# Retention

A value is put away once, and needed for a while. `Retained` says that what is held are
exactly the values that were put away and are still needed. Two rules keep it: a value that
is put away is needed at that time, and what is given up is what nothing needs any more.
-/

namespace YoinkCore.Lib

variable {α : Type}

/-- What is held is what was put away and is needed. -/
def Retained (held kept needed : α → Prop) : Prop :=
  ∀ a, held a ↔ kept a ∧ needed a

namespace Retained

variable {held held' kept kept' needed needed' : α → Prop}

/-- Values that are needed are put away. -/
theorem put {new : α → Prop} (h : Retained held kept needed)
    (hheld : ∀ a, held' a ↔ held a ∨ new a) (hkept : ∀ a, kept' a ↔ kept a ∨ new a)
    (hnew : ∀ a, new a → needed a) : Retained held' kept' needed := by
  intro a
  rw [hheld, hkept, h a, or_and_right]
  exact or_congr_right ⟨fun hn => ⟨hn, hnew a hn⟩, And.left⟩

/-- What goes is what is not needed any more, and nothing is needed again. -/
theorem release {gone : α → Prop} (h : Retained held kept needed)
    (hheld : ∀ a, held' a ↔ held a ∧ ¬ gone a)
    (hgone : ∀ a, kept a → needed a → (gone a ↔ ¬ needed' a))
    (hback : ∀ a, kept a → needed' a → needed a) : Retained held' kept needed' := by
  intro a
  rw [hheld, h a]
  constructor
  · rintro ⟨⟨hk, hn⟩, hg⟩
    rw [hgone a hk hn, not_not] at hg
    exact ⟨hk, hg⟩
  · rintro ⟨hk, hn'⟩
    have hn := hback a hk hn'
    refine ⟨⟨hk, hn⟩, ?_⟩
    rw [hgone a hk hn, not_not]
    exact hn'

end Retained

end YoinkCore.Lib
