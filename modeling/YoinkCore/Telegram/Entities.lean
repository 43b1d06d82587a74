import YoinkCore.Platform
import YoinkCore.Lib.Spans
import YoinkCore.Lib.Text

/-!
# Formatted texts

A text and the entities that format it. Offsets and lengths of entities count UTF-16 units.
-/

namespace YoinkCore.Telegram

open Lib Text

/-- `type` of an entity. -/
inductive EntityKind where
  | bold
  | italic
  | strikethrough
  | textLink
  | blockquote
  | pre
  | code
deriving DecidableEq

def EntityKind.asStr : EntityKind → String
  | .bold => "bold"
  | .italic => "italic"
  | .strikethrough => "strikethrough"
  | .textLink => "text_link"
  | .blockquote => "blockquote"
  | .pre => "pre"
  | .code => "code"

/-- An entity; `extra` is the URL of a link or the language of code. -/
structure Entity where
  kind : EntityKind
  offset : Nat
  length : Nat
  extra : Option (String × String)
deriving DecidableEq

namespace Entity

def finish (e : Entity) : Nat := e.offset + e.length

def span (e : Entity) : Nat × Nat := (e.offset, e.finish)

def isCode (e : Entity) : Bool := e.kind == .code || e.kind == .pre

/-- A position an entity formats. -/
def covers (e : Entity) (x : Nat) : Prop := e.offset ≤ x ∧ x < e.finish

instance (e : Entity) (x : Nat) : Decidable (e.covers x) :=
  inferInstanceAs (Decidable (_ ∧ _))

end Entity

structure FormattedText where
  text : Str
  entities : List Entity
deriving DecidableEq

/-- `len_utf16` -/
def lenUtf16 (c : Char) : Nat := if c.toNat < 0x10000 then 1 else 2

@[simp] theorem utf16Len_nil : utf16Len [] = 0 := rfl

@[simp] theorem utf16Len_cons (c : Char) (t : Str) :
    utf16Len (c :: t) = lenUtf16 c + utf16Len t := by
  simp [utf16Len, lenUtf16]

@[simp] theorem utf16Len_append (s t : Str) : utf16Len (s ++ t) = utf16Len s + utf16Len t := by
  simp [utf16Len]

theorem lenUtf16_bounds (c : Char) : 1 ≤ lenUtf16 c ∧ lenUtf16 c ≤ 2 := by
  unfold lenUtf16
  split <;> simp

theorem lenUtf16_le_utf8Size (c : Char) : lenUtf16 c ≤ c.utf8Size := by
  unfold lenUtf16
  split
  · exact c.utf8Size_pos
  · rename_i h
    have hone : ¬ c.utf8Size = 1 := by
      intro h1
      have hle := UInt32.le_iff_toNat_le.mp (Char.utf8Size_eq_one_iff.mp h1)
      exact h (Nat.lt_of_le_of_lt hle (by decide))
    have hpos := c.utf8Size_pos
    omega

theorem length_le_utf16Len (t : Str) : t.length ≤ utf16Len t := by
  induction t with
  | nil => rfl
  | cons c t ih =>
      have := (lenUtf16_bounds c).1
      rw [List.length_cons, utf16Len_cons]
      omega

theorem utf16Len_pos {t : Str} (h : t ≠ []) : 0 < utf16Len t :=
  Nat.lt_of_lt_of_le (List.length_pos_iff.mpr h) (length_le_utf16Len t)

theorem utf16Len_take_lt {t : Str} {i : Nat} (h : i < t.length) :
    utf16Len (t.take i) < utf16Len t := by
  conv_rhs => rw [← List.take_append_drop i t]
  rw [utf16Len_append]
  have := utf16Len_pos (t := t.drop i) (by simpa [List.drop_eq_nil_iff] using h)
  omega

/-! ## Protected spans -/

/-- Where nothing else may be formatted: code, and links if they are asked for. -/
def isProtected (links : Bool) (e : Entity) : Bool :=
  e.isCode || (links && e.kind == .textLink)

def protectedSpans (entities : List Entity) (links : Bool) : List (Nat × Nat) :=
  mergeSpans (sortSpans ((entities.filter (isProtected links)).map Entity.span))

theorem sorted_protectedSpans (entities : List Entity) (links : Bool) :
    SortedByStart (protectedSpans entities links) := sorted_mergeSpans (sorted_sortSpans _)

theorem covers_protectedSpans {entities : List Entity} {links : Bool} {x : Nat} :
    Covers (protectedSpans entities links) x ↔
      ∃ e ∈ entities, isProtected links e = true ∧ e.covers x := by
  rw [protectedSpans, covers_mergeSpans (sorted_sortSpans _), covers_sortSpans]
  simp only [Covers, List.mem_map, List.mem_filter]
  constructor
  · rintro ⟨_, ⟨e, ⟨he, hp⟩, rfl⟩, hx⟩
    exact ⟨e, he, hp, hx⟩
  · rintro ⟨e, he, hp, hx⟩
    exact ⟨_, ⟨e, ⟨he, hp⟩, rfl⟩, hx⟩

end YoinkCore.Telegram
