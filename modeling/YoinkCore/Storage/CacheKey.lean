import YoinkCore.Storage.Codec

/-!
# Media cache keys

A cache identity is the digest of the persisted request, less what does not
change the delivered bytes. The actor and the bot stay in: they partition the
cache.
-/

namespace YoinkCore.Storage

open Lib Lib.Json Domain Codec

variable [Platform]

/-- The document that is hashed. -/
def cacheMaterial (r : DownloadRequest) (target : DeliveryTarget) : Json :=
  let fields := remove (remove (members (requestFields r)) "preference_overrides")
    "force_nsfw"
  let fields :=
    match get? fields "params" with
    | some (.obj params) => insert fields "params" (.obj (remove params "media_info"))
    | _ => fields
  .obj (insert fields "target" (object [field "bot_id" (ofI64 target.botId)]))

def cachePrefix : List UInt8 :=
  "yoink:media-cache:v1\x00".toList.map fun c => UInt8.ofNat c.toNat

def materialDigest (material : Json) : BitVec 256 :=
  Platform.sha256 (cachePrefix ++ Platform.jsonBytes material)

omit [Platform] in
def hexDigit (n : Nat) : Char :=
  if n < 10 then Char.ofNat ('0'.toNat + n) else Char.ofNat ('a'.toNat + (n - 10))

omit [Platform] in
/-- The lowest `k` hexadecimal digits of a number, the most significant first. -/
def hexDigits : Nat → Nat → List Char
  | 0, _ => []
  | k + 1, n => hexDigits k (n / 16) ++ [hexDigit (n % 16)]

omit [Platform] in
theorem hexDigit_injective {m n : Nat} (hm : m < 16) (hn : n < 16)
    (h : hexDigit m = hexDigit n) : m = n := by
  have hall : ∀ i j : Fin 16, hexDigit i = hexDigit j → i = j := by decide
  have := hall ⟨m, hm⟩ ⟨n, hn⟩ h
  exact congrArg Fin.val this

omit [Platform] in
theorem hexDigits_injective : ∀ (k : Nat) {m n : Nat}, m < 16 ^ k → n < 16 ^ k →
    hexDigits k m = hexDigits k n → m = n := by
  intro k
  induction k with
  | zero => intro m n hm hn _; omega
  | succ k ih =>
      intro m n hm hn h
      obtain ⟨hinit, hlast⟩ := List.append_inj' h rfl
      have hdigit := hexDigit_injective (Nat.mod_lt m (by decide))
        (Nat.mod_lt n (by decide)) (List.cons.inj hlast).1
      have hrest := ih (Nat.div_lt_of_lt_mul (by rwa [Nat.mul_comm, ← Nat.pow_succ]))
        (Nat.div_lt_of_lt_mul (by rwa [Nat.mul_comm, ← Nat.pow_succ])) hinit
      rw [← Nat.div_add_mod m 16, ← Nat.div_add_mod n 16, hdigit, hrest]

omit [Platform] in
theorem hexDigit_mod {n : Nat} :
    Text.isHexDigit (hexDigit (n % 16)) = true ∧
      Text.toLower (hexDigit (n % 16)) = hexDigit (n % 16) := by
  have hall : ∀ k : Fin 16, Text.isHexDigit (hexDigit k) = true ∧
      Text.toLower (hexDigit k) = hexDigit k := by decide
  exact hall ⟨n % 16, Nat.mod_lt _ (by decide)⟩

omit [Platform] in
theorem hexDigits_length (k n : Nat) : (hexDigits k n).length = k := by
  induction k generalizing n with
  | zero => rfl
  | succ k ih => rw [hexDigits, List.length_append, ih, List.length_singleton]

omit [Platform] in
theorem mem_hexDigits {k n : Nat} {c : Char} (h : c ∈ hexDigits k n) :
    Text.isHexDigit c = true ∧ Text.toLower c = c := by
  induction k generalizing n with
  | zero => cases h
  | succ k ih =>
      rw [hexDigits, List.mem_append, List.mem_singleton] at h
      rcases h with h | rfl
      · exact ih h
      · exact hexDigit_mod

omit [Platform] in
def cacheKeyText (digest : BitVec 256) : String :=
  String.ofList ("v1:".toList ++ hexDigits 64 digest.toNat)

def mediaCacheKey (r : DownloadRequest) : Except StoreError String :=
  match r.target with
  | none => .error .invalidInput
  | some target => .ok (cacheKeyText (materialDigest (cacheMaterial r target)))

end YoinkCore.Storage
