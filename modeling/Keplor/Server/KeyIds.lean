import Keplor.Lib.Numerals
import Keplor.Server.Auth

/-!
# The ids of bare secrets

The id of a secret that comes without one is documented as `key_` and the first eight hex digits of its
hash. The code writes four bytes with `{:x}`, which leaves a leading zero out, so a byte below 16 is one
digit and the text no longer says where a byte ends. `derived_ids_faithful_iff` says that this is the
whole difference: the ids are as documented, and as distinct as the hashes, exactly when none of the
bytes is below 16.
-/

set_option autoImplicit false

namespace Keplor.Server

open Keplor.Core Keplor.Lib

/-! ## Bytes in digits -/

/-- A byte in two digits. -/
def byteHex (b : UInt8) : List Char := numeral 16 2 b.toNat

/-- The hex text of a hash. -/
def hexText (h : Sha256) : List Char := h.bytes.flatMap byteHex

theorem byteHex_inj {b c : UInt8} : byteHex b = byteHex c ↔ b = c := by
  have hb : b.toNat < 16 ^ 2 := b.toNat_lt
  have hc : c.toNat < 16 ^ 2 := c.toNat_lt
  rw [byteHex, byteHex, numeral_inj (by omega) (by omega) hb hc, UInt8.toNat_inj]

theorem length_lowerHex (b : UInt8) : (lowerHex b).length = if b.toNat < 16 then 1 else 2 := by
  rw [lowerHex]
  split
  · rename_i h
    rw [Nat.toDigits_of_lt_base h]
    rfl
  · have hdiv : b.toNat / 16 < 16 := by
      have := b.toNat_lt
      omega
    rw [Nat.toDigits_of_base_le (by omega) (by omega), Nat.toDigits_of_lt_base hdiv]
    rfl

/-- Without a leading zero to leave out the two texts of a byte are one. -/
theorem lowerHex_eq_byteHex {b : UInt8} (h : 16 ≤ b.toNat) : lowerHex b = byteHex b := by
  have hlen : (Nat.toDigits 16 b.toNat).length = 2 := by
    have := length_lowerHex b
    rwa [if_neg (by omega)] at this
  have hdigits := (replicate_append_toDigits (b := 16) (w := 2) (by omega) (by omega) b.toNat_lt).2
  rw [hlen] at hdigits
  exact hdigits

/-- Every byte below 16 costs a digit. -/
theorem length_flatMap_lowerHex (bs : List UInt8) :
    (bs.flatMap lowerHex).length + bs.countP (fun b => b.toNat < 16) = 2 * bs.length := by
  induction bs with
  | nil => rfl
  | cons b bs ih =>
    rw [List.flatMap_cons, List.length_append, length_lowerHex, List.countP_cons, List.length_cons]
    simp only [decide_eq_true_eq]
    split <;> omega

theorem length_flatMap_byteHex (bs : List UInt8) : (bs.flatMap byteHex).length = 2 * bs.length := by
  induction bs with
  | nil => rfl
  | cons b bs ih =>
    rw [List.flatMap_cons, List.length_append, ih, byteHex, length_numeral, List.length_cons]
    omega

theorem flatMap_lowerHex_eq_iff {bs : List UInt8} :
    bs.flatMap lowerHex = bs.flatMap byteHex ↔ ∀ b ∈ bs, 16 ≤ b.toNat := by
  constructor
  · intro h b hb
    have hcount := length_flatMap_lowerHex bs
    rw [h, length_flatMap_byteHex] at hcount
    have hzero : bs.countP (fun b => b.toNat < 16) = 0 := by omega
    simpa using List.countP_eq_zero.mp hzero b hb
  · intro h
    induction bs with
    | nil => rfl
    | cons b bs ih =>
      rw [List.flatMap_cons, List.flatMap_cons, lowerHex_eq_byteHex (h b List.mem_cons_self),
        ih fun c hc => h c (List.mem_cons_of_mem b hc)]

/-- Two digits a byte can be read back. -/
theorem flatMap_byteHex_inj {bs cs : List UInt8} :
    bs.flatMap byteHex = cs.flatMap byteHex ↔ bs = cs := by
  refine ⟨fun h => ?_, fun h => h ▸ rfl⟩
  induction bs generalizing cs with
  | nil =>
    have hlen := congrArg List.length h
    rw [length_flatMap_byteHex, length_flatMap_byteHex] at hlen
    have hcs : cs.length = 0 := by simpa using hlen.symm
    exact (List.length_eq_zero_iff.mp hcs).symm
  | cons b bs ih =>
    cases cs with
    | nil => exact absurd (congrArg List.length h) (by simp [byteHex, length_numeral])
    | cons c cs =>
      rw [List.flatMap_cons, List.flatMap_cons] at h
      obtain ⟨hhead, htail⟩ := List.append_inj h (by simp [byteHex, length_numeral])
      rw [byteHex_inj.mp hhead, ih htail]

/-! ## Derived ids -/

variable (digest : ByteArray → Sha256)

/-- A secret without an id: no colon, or nothing on one side of the first. -/
def IsBare (raw : String) : Prop :=
  ∀ id secret, splitOnce ':' raw.toList = some (id, secret) → id = [] ∨ secret = []

/-- The id as documented: `key_<first8hex_sha256>`. -/
def documentedId (raw : String) : String :=
  "key_" ++ String.ofList ((hexText (digest raw.toByteArray)).take 8)

/-- The bytes of a hash an id is made of. -/
def idBytes (raw : String) : List UInt8 := (digest raw.toByteArray).bytes.take 4

variable {digest} {raw raw' : String}

theorem parseKeyEntry_of_bare (h : IsBare raw) : parseKeyEntry digest raw = (derivedId digest raw, raw) := by
  unfold parseKeyEntry
  split
  · rename_i id secret hsplit
    rw [if_neg]
    rcases h id secret hsplit with rfl | rfl <;> simp
  · rfl

/-- Eight digits are four bytes. -/
theorem take_hexText (h : Sha256) : (hexText h).take 8 = (h.bytes.take 4).flatMap byteHex := by
  have hlen : ((h.bytes.take 4).flatMap byteHex).length = 8 := by
    rw [length_flatMap_byteHex, List.length_take, h.length_eq]
    rfl
  rw [hexText, ← List.take_append_drop 4 h.bytes, List.flatMap_append, List.take_left' hlen,
    List.take_append_drop]

theorem key_append_inj {s t : List Char} :
    "key_" ++ String.ofList s = "key_" ++ String.ofList t ↔ s = t := by
  rw [← String.toList_inj, String.toList_append, String.toList_append, List.append_cancel_left_eq,
    String.toList_ofList, String.toList_ofList]

theorem derivedId_eq_documentedId_iff :
    derivedId digest raw = documentedId digest raw ↔ ∀ b ∈ idBytes digest raw, 16 ≤ b.toNat := by
  rw [derivedId, documentedId, key_append_inj, take_hexText, flatMap_lowerHex_eq_iff, idBytes]

theorem documentedId_inj :
    documentedId digest raw = documentedId digest raw' ↔ idBytes digest raw = idBytes digest raw' := by
  rw [documentedId, documentedId, key_append_inj, take_hexText, take_hexText, flatMap_byteHex_inj,
    idBytes, idBytes]

/-- The ids of two bare secrets are as documented, and equal exactly when the hashes begin alike, if
and only if none of the bytes they are made of is below 16. -/
theorem derived_ids_faithful_iff (digest : ByteArray → Sha256) (raw raw' : String)
    (h : IsBare raw) (h' : IsBare raw') :
    (((parseKeyEntry digest raw).1 = (parseKeyEntry digest raw').1 ↔
        (digest raw.toByteArray).bytes.take 4 = (digest raw'.toByteArray).bytes.take 4) ∧
      (parseKeyEntry digest raw).1 = documentedId digest raw ∧
      (parseKeyEntry digest raw').1 = documentedId digest raw') ↔
    (∀ b ∈ (digest raw.toByteArray).bytes.take 4, 16 ≤ b.toNat) ∧
      ∀ b ∈ (digest raw'.toByteArray).bytes.take 4, 16 ≤ b.toNat := by
  rw [parseKeyEntry_of_bare h, parseKeyEntry_of_bare h']
  show (derivedId digest raw = derivedId digest raw' ↔ idBytes digest raw = idBytes digest raw') ∧
    derivedId digest raw = documentedId digest raw ∧
    derivedId digest raw' = documentedId digest raw' ↔
    (∀ b ∈ idBytes digest raw, 16 ≤ b.toNat) ∧ ∀ b ∈ idBytes digest raw', 16 ≤ b.toNat
  rw [← derivedId_eq_documentedId_iff, ← derivedId_eq_documentedId_iff]
  refine ⟨fun ⟨_, hdoc⟩ => hdoc, fun ⟨hdoc, hdoc'⟩ => ⟨?_, hdoc, hdoc'⟩⟩
  rw [hdoc, hdoc', documentedId_inj]

/-- A digest of two secrets. -/
def digestOfTwo (first : String) (h h' : Sha256) (bytes : ByteArray) : Sha256 :=
  if bytes = first.toByteArray then h else h'

theorem digestOfTwo_first (first : String) (h h' : Sha256) :
    digestOfTwo first h h' first.toByteArray = h := if_pos rfl

theorem digestOfTwo_second {first second : String} (hne : second ≠ first) (h h' : Sha256) :
    digestOfTwo first h h' second.toByteArray = h' :=
  if_neg fun heq => hne (String.toByteArray_inj.mp heq)

theorem isBare_of_splitOnce (h : splitOnce ':' raw.toList = none) : IsBare raw := by
  intro id secret hsplit
  rw [h] at hsplit
  cases hsplit

/-- The SHA-256 of `"alpha"`. -/
def alphaHash : Sha256 :=
  ⟨[0x8e, 0xd3, 0xf6, 0xad, 0x68, 0x5b, 0x95, 0x9e, 0xad, 0x70, 0x22, 0x51, 0x8e, 0x1a, 0xf7, 0x6c,
    0xd8, 0x16, 0xf8, 0xe8, 0xec, 0x7c, 0xcd, 0xda, 0x1e, 0xd4, 0x01, 0x8e, 0x8f, 0x22, 0x23, 0xf8], by decide⟩

/-- The SHA-256 of `"beta"`. -/
def betaHash : Sha256 :=
  ⟨[0xf4, 0x4e, 0x64, 0xe7, 0x5f, 0x39, 0x48, 0xe9, 0xf7, 0x3f, 0x8d, 0xfa, 0x94, 0x72, 0x1c, 0x4c,
    0xe8, 0xcb, 0xb4, 0xf2, 0x65, 0xc4, 0x79, 0x0c, 0x70, 0x2b, 0x2d, 0x41, 0xcf, 0xbf, 0x27, 0x53], by decide⟩

theorem alpha_beta_ids_faithful :
    (parseKeyEntry (digestOfTwo "alpha" alphaHash betaHash) "alpha").1 = "key_8ed3f6ad" ∧
    (parseKeyEntry (digestOfTwo "alpha" alphaHash betaHash) "beta").1 = "key_f44e64e7" := by
  have ha : IsBare "alpha" := isBare_of_splitOnce (by decide)
  have hb : IsBare "beta" := isBare_of_splitOnce (by decide)
  have h := (derived_ids_faithful_iff (digestOfTwo "alpha" alphaHash betaHash) _ _ ha hb).mpr
  rw [digestOfTwo_first, digestOfTwo_second (by decide)] at h
  obtain ⟨-, hdoc, hdoc'⟩ := h ⟨by simp [alphaHash], by simp [betaHash]⟩
  rw [hdoc, hdoc', documentedId, documentedId, digestOfTwo_first, digestOfTwo_second (by decide)]
  exact ⟨by decide, by decide⟩

/-- The SHA-256 of `"sk-57361"`. -/
def leadingZeroHash : Sha256 :=
  ⟨[0x0c, 0x16, 0xe8, 0xc9, 0xf1, 0xef, 0x40, 0x11, 0x21, 0x1b, 0x84, 0x79, 0x92, 0xf8, 0xa2, 0x57,
    0x83, 0xc6, 0x8a, 0xd0, 0xb1, 0x24, 0xf2, 0x2c, 0xa7, 0x36, 0xd8, 0xe5, 0xa4, 0x4f, 0x1f, 0x39], by decide⟩

/-- The SHA-256 of `"sk-236160"`. -/
def innerZeroHash : Sha256 :=
  ⟨[0xc1, 0x6e, 0x8c, 0x09, 0x9b, 0x02, 0x94, 0x59, 0xe2, 0xd8, 0x54, 0x60, 0x14, 0x5a, 0x3d, 0xe3,
    0x3b, 0xdd, 0x4e, 0x41, 0x3e, 0xac, 0xc8, 0xe6, 0x46, 0x77, 0x50, 0x89, 0xe8, 0xfc, 0x9b, 0x68], by decide⟩

/-- Two secrets whose hashes begin `0c16e8c9` and `c16e8c09` are both `key_c16e8c9`. -/
theorem derived_ids_collide :
    IsBare "sk-57361" ∧ IsBare "sk-236160" ∧
    (parseKeyEntry (digestOfTwo "sk-57361" leadingZeroHash innerZeroHash) "sk-57361").1 =
      (parseKeyEntry (digestOfTwo "sk-57361" leadingZeroHash innerZeroHash) "sk-236160").1 ∧
    leadingZeroHash.bytes.take 4 ≠ innerZeroHash.bytes.take 4 ∧
    (parseKeyEntry (digestOfTwo "sk-57361" leadingZeroHash innerZeroHash) "sk-57361").1 ≠
      documentedId (digestOfTwo "sk-57361" leadingZeroHash innerZeroHash) "sk-57361" := by
  have h : IsBare "sk-57361" := isBare_of_splitOnce (by decide)
  have h' : IsBare "sk-236160" := isBare_of_splitOnce (by decide)
  rw [parseKeyEntry_of_bare h, parseKeyEntry_of_bare h', derivedId, derivedId, documentedId,
    digestOfTwo_first, digestOfTwo_second (by decide)]
  exact ⟨h, h', by decide +kernel, by decide, by decide +kernel⟩

end Keplor.Server
