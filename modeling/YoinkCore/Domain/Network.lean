import YoinkCore.Lib.Text

/-!
# Network references

An admitted request names the credentials it runs with by reference: a cookie
row or a proxy setting, with the SHA-256 version of its content. A reference
whose fields were not checked cannot be built.
-/

namespace YoinkCore.Domain

open Lib

/-- The largest `i64`, the bound of every persisted identifier. -/
def i64Max : Nat := 2 ^ 63 - 1

inductive NetworkReferenceError where
  | invalidVersion
  | invalidCookie
  | invalidProxy
  | actorMismatch
deriving DecidableEq

/-- Sixty-four hexadecimal digits. -/
def hexVersion (value : String) : Bool :=
  decide (value.toList.length = 64) && value.toList.all Text.isHexDigit

/-- Validated lowercase SHA-256 version token. -/
structure CredentialVersion where
  value : String
  hex : hexVersion value = true
  lowercase : value.toList.map Text.toLower = value.toList
deriving DecidableEq

theorem isHexDigit_toLower {c : Char} (h : Text.isHexDigit c = true) :
    Text.isHexDigit (Text.toLower c) = true ∧
      Text.toLower (Text.toLower c) = Text.toLower c := by
  unfold Text.toLower
  by_cases hu : Text.isUpper c = true
  · have hc : 'A' ≤ c ∧ c ≤ 'F' := by
      simp only [Text.isHexDigit, Text.isDigit, Text.isUpper, Bool.or_eq_true,
        Bool.and_eq_true, decide_eq_true_eq, Char.le_def, UInt32.le_iff_toNat_le]
        at h hu ⊢
      rcases h with (h | h) | h
      · exact absurd (le_trans hu.1 h.2) (by decide)
      · exact absurd (le_trans h.1 hu.2) (by decide)
      · exact h
    obtain ⟨lo, hi⟩ := hc
    have hn : c.toNat = 65 ∨ c.toNat = 66 ∨ c.toNat = 67 ∨ c.toNat = 68 ∨
        c.toNat = 69 ∨ c.toNat = 70 := by
      rw [Char.le_def, UInt32.le_iff_toNat_le] at lo hi
      have h1 : ('A' : Char).val.toNat = 65 := rfl
      have h2 : ('F' : Char).val.toNat = 70 := rfl
      have h3 : c.toNat = c.val.toNat := rfl
      omega
    have hcc : c = Char.ofNat c.toNat := (Char.ofNat_toNat c).symm
    rcases hn with e | e | e | e | e | e <;> rw [hcc, e] <;> decide
  · simp [hu, h]

/-- Equality of versions is equality of their text. -/
theorem CredentialVersion.ext {a b : CredentialVersion} (h : a.value = b.value) :
    a = b := by
  obtain ⟨a, _, _⟩ := a
  cases h
  rfl

def CredentialVersion.new (value : String) :
    Except NetworkReferenceError CredentialVersion :=
  if h : hexVersion value = true then
    .ok {
      value := String.ofList (value.toList.map Text.toLower)
      hex := by
        simp only [hexVersion, Bool.and_eq_true, decide_eq_true_eq,
          List.all_eq_true, String.toList_ofList, List.length_map,
          List.mem_map, forall_exists_index, and_imp,
          forall_apply_eq_imp_iff₂] at h ⊢
        exact ⟨h.1, fun c hc => (isHexDigit_toLower (h.2 c hc)).1⟩
      lowercase := by
        simp only [hexVersion, Bool.and_eq_true, List.all_eq_true] at h
        rw [String.toList_ofList, List.map_map]
        exact List.map_congr_left fun c hc => (isHexDigit_toLower (h.2 c hc)).2 }
  else .error .invalidVersion

theorem CredentialVersion.new_value (v : CredentialVersion) :
    CredentialVersion.new v.value = .ok v := by
  unfold CredentialVersion.new
  rw [dif_pos v.hex]
  congr 1
  apply CredentialVersion.ext
  show String.ofList (v.value.toList.map Text.toLower) = v.value
  rw [v.lowercase, String.ofList_toList]

/-- A host label: lowercase letters, digits and inner hyphens. -/
def validLabel (label : Text.Str) : Bool :=
  !label.isEmpty && decide (Text.byteLen label ≤ 63) &&
    label.all (fun c => Text.isLower c || Text.isDigit c || c == '-') &&
    label.head?.all Text.isAlphanumeric && label.getLast?.all Text.isAlphanumeric

def validDomain (value : String) : Bool :=
  let t := value.toList
  decide (Text.byteLen t ≤ 253) && !t.isEmpty && t.head? != some '.' &&
    t.getLast? != some '.' && (Text.split '.' t).all validLabel

structure CookieReference where
  id : Int32
  ownerId : UInt64
  domain : String
  isPool : Bool
  version : CredentialVersion
  id_pos : 0 < id.toInt
  owner_pos : 0 < ownerId.toNat
  owner_le : ownerId.toNat ≤ i64Max
  domain_ok : validDomain domain = true
deriving DecidableEq

def CookieReference.new (id : Int32) (ownerId : UInt64) (domain : String)
    (isPool : Bool) (version : CredentialVersion) :
    Except NetworkReferenceError CookieReference :=
  if h : 0 < id.toInt ∧ 0 < ownerId.toNat ∧ ownerId.toNat ≤ i64Max ∧
      validDomain domain = true then
    .ok ⟨id, ownerId, domain, isPool, version, h.1, h.2.1, h.2.2.1, h.2.2.2⟩
  else .error .invalidCookie

theorem CookieReference.new_self (c : CookieReference) :
    CookieReference.new c.id c.ownerId c.domain c.isPool c.version = .ok c := by
  unfold CookieReference.new
  rw [dif_pos ⟨c.id_pos, c.owner_pos, c.owner_le, c.domain_ok⟩]

inductive ProxySource where
  | personal (actorId : UInt64)
  | system
deriving DecidableEq

/-- A personal source names a persistable actor. -/
def ProxySource.valid : ProxySource → Bool
  | .personal actorId => decide (0 < actorId.toNat) && decide (actorId.toNat ≤ i64Max)
  | .system => true

structure ProxyReference where
  source : ProxySource
  version : CredentialVersion
  source_ok : source.valid = true
deriving DecidableEq

def ProxyReference.new (source : ProxySource) (version : CredentialVersion) :
    Except NetworkReferenceError ProxyReference :=
  if h : source.valid = true then .ok ⟨source, version, h⟩
  else .error .invalidProxy

theorem ProxyReference.new_self (p : ProxyReference) :
    ProxyReference.new p.source p.version = .ok p := by
  unfold ProxyReference.new
  rw [dif_pos p.source_ok]

structure NetworkSelection where
  cookie : Option CookieReference
  proxy : Option ProxyReference
deriving DecidableEq

def NetworkSelection.none : NetworkSelection := ⟨.none, .none⟩

/-- A personal reference must belong to the actor; pool cookies and the system
proxy serve everybody. -/
def NetworkSelection.validateActor (n : NetworkSelection) (actorId : UInt64) :
    Except NetworkReferenceError Unit :=
  if n.cookie.any (fun c => !c.isPool && decide (c.ownerId ≠ actorId)) ||
      n.proxy.any (fun p =>
        match p.source with
        | .personal owner => decide (owner ≠ actorId)
        | .system => false) then
    .error .actorMismatch
  else .ok ()

/-- What is personal in a valid selection is the actor's. -/
theorem NetworkSelection.validateActor_eq_ok {n : NetworkSelection} {actorId : UInt64} :
    n.validateActor actorId = .ok () ↔
      (∀ c, n.cookie = some c → c.isPool = false → c.ownerId = actorId) ∧
      ∀ p owner, n.proxy = some p → p.source = .personal owner → owner = actorId := by
  obtain ⟨cookie, proxy⟩ := n
  unfold validateActor
  constructor
  · intro h
    split at h
    · cases h
    rename_i hsame
    simp only [Bool.or_eq_true, Option.any_eq_true, not_or, not_exists, not_and] at hsame
    constructor
    · intro c hc hp
      simpa [hp] using hsame.1 c hc
    · intro p owner hp hs
      simpa [hs] using hsame.2 p hp
  · rintro ⟨hc, hp⟩
    rw [if_neg]
    simp only [Bool.or_eq_true, Option.any_eq_true, not_or, not_exists, not_and]
    constructor
    · intro c hcookie
      cases hpool : c.isPool with
      | true => simp
      | false => simp [hc c hcookie hpool]
    · intro p hproxy
      cases hs : p.source with
      | system => simp
      | personal owner => simp [hp p owner hproxy hs]

end YoinkCore.Domain
