import Mathlib.Data.List.Basic
import Mathlib.Tactic.Common

/-!
# UTF-8 text, sliced by byte offset

A string is a list of characters; its length, and every offset into it, is counted in the bytes of
its UTF-8 encoding. Slicing at an offset that is not between two characters is a fault of the
program that does it, so `splitAt` answers `none` there, and the functions below are written in
the `Option` monad with `none` for the fault.

Two facts carry every proof about a slice taken near the end of a string:

* `splitAt_eq_some` — what a successful cut looks like, as an equation between lists;
* `isBoundary_append` — an offset past a prefix is a boundary of the whole exactly when the rest
  of it is a boundary of what follows.

The second half of the file is the encoding itself, byte by byte, and the way a reader takes it
back: one character at a time, refusing the first sequence that is not UTF-8.
-/

set_option autoImplicit false

namespace Keplor.Lib.Utf8

/-! ## Length and cuts -/

/-- The number of bytes of the encoding. -/
def byteLen : List Char → Nat
  | [] => 0
  | c :: s => c.utf8Size + byteLen s

/-- Cut a string at a byte offset; `none` when the offset is inside a character or past the end. -/
def splitAt : List Char → Nat → Option (List Char × List Char)
  | s, 0 => some ([], s)
  | [], _ + 1 => none
  | c :: s, i + 1 =>
      if c.utf8Size ≤ i + 1 then
        (splitAt s (i + 1 - c.utf8Size)).map fun p => (c :: p.1, p.2)
      else none

/-- An offset between two characters, or at either end. -/
def IsBoundary (s : List Char) (i : Nat) : Prop := ∃ a b, s = a ++ b ∧ byteLen a = i

/-- The suffix from an offset on. -/
def sliceFrom (s : List Char) (i : Nat) : Option (List Char) := (splitAt s i).map Prod.snd

/-- The prefix up to an offset. -/
def sliceTo (s : List Char) (i : Nat) : Option (List Char) := (splitAt s i).map Prod.fst

/-- The part between two offsets. -/
def slice (s : List Char) (i j : Nat) : Option (List Char) := (sliceTo s j).bind (sliceFrom · i)

@[simp] theorem byteLen_nil : byteLen [] = 0 := rfl

@[simp] theorem byteLen_cons (c : Char) (s : List Char) :
    byteLen (c :: s) = c.utf8Size + byteLen s := rfl

@[simp] theorem byteLen_append (a b : List Char) : byteLen (a ++ b) = byteLen a + byteLen b := by
  induction a with
  | nil => simp
  | cons c a ih => simp [ih, Nat.add_assoc]

theorem utf8Size_pos (c : Char) : 0 < c.utf8Size := c.utf8Size_pos

theorem eq_nil_of_byteLen {s : List Char} (h : byteLen s = 0) : s = [] := by
  cases s with
  | nil => rfl
  | cons c s =>
    have := utf8Size_pos c
    simp only [byteLen_cons] at h
    omega

/-- A successful cut is the two halves of the string, the first of the asked length. -/
theorem splitAt_eq_some {s a b : List Char} {i : Nat} :
    splitAt s i = some (a, b) ↔ s = a ++ b ∧ byteLen a = i := by
  constructor
  · intro h
    induction s generalizing i a with
    | nil =>
      cases i with
      | zero => simp only [splitAt, Option.some.injEq, Prod.mk.injEq] at h; simp [← h.1, ← h.2]
      | succ i => simp [splitAt] at h
    | cons c s ih =>
      cases i with
      | zero => simp only [splitAt, Option.some.injEq, Prod.mk.injEq] at h; simp [← h.1, ← h.2]
      | succ i =>
        simp only [splitAt] at h
        split at h
        · rename_i hle
          obtain ⟨⟨a', b'⟩, hp, he⟩ := Option.map_eq_some_iff.mp h
          simp only [Prod.mk.injEq] at he
          obtain ⟨rfl, rfl⟩ := he
          obtain ⟨rfl, hl⟩ := ih hp
          exact ⟨rfl, by simp only [byteLen_cons, hl]; omega⟩
        · exact absurd h (by simp)
  · rintro ⟨rfl, rfl⟩
    induction a with
    | nil => simp [splitAt]
    | cons c a ih =>
      have hc := utf8Size_pos c
      obtain ⟨n, hn⟩ : ∃ n, byteLen (c :: a) = n + 1 :=
        ⟨byteLen (c :: a) - 1, by simp only [byteLen_cons]; omega⟩
      have hsub : n + 1 - c.utf8Size = byteLen a := by simp only [byteLen_cons] at hn; omega
      have hle : c.utf8Size ≤ n + 1 := by simp only [byteLen_cons] at hn; omega
      rw [hn, List.cons_append, splitAt, if_pos hle, hsub, ih]
      rfl

theorem splitAt_isSome {s : List Char} {i : Nat} : (splitAt s i).isSome ↔ IsBoundary s i := by
  rw [Option.isSome_iff_exists]
  constructor
  · rintro ⟨⟨a, b⟩, h⟩
    exact ⟨a, b, splitAt_eq_some.mp h⟩
  · rintro ⟨a, b, h⟩
    exact ⟨(a, b), splitAt_eq_some.mpr h⟩

instance (s : List Char) (i : Nat) : Decidable (IsBoundary s i) :=
  decidable_of_iff _ splitAt_isSome

/-! ## Boundaries -/

theorem isBoundary_zero (s : List Char) : IsBoundary s 0 := ⟨[], s, rfl, rfl⟩

/-- Past a prefix, the boundaries of the whole are those of what follows it. -/
theorem isBoundary_append {a b : List Char} {k : Nat} :
    IsBoundary (a ++ b) (byteLen a + k) ↔ IsBoundary b k := by
  constructor
  · rintro ⟨x, y, he, hl⟩
    induction a generalizing x with
    | nil => exact ⟨x, y, he, by simpa using hl⟩
    | cons c a ih =>
      cases x with
      | nil =>
        have := utf8Size_pos c
        simp only [byteLen_cons, byteLen_nil] at hl
        omega
      | cons d x =>
        simp only [List.cons_append, List.cons.injEq] at he
        obtain ⟨rfl, he⟩ := he
        exact ih x he (by simp only [byteLen_cons] at hl; omega)
  · rintro ⟨x, y, rfl, rfl⟩
    exact ⟨a ++ x, y, by simp, by simp⟩

theorem isBoundary_cons {c : Char} {s : List Char} {k : Nat} :
    IsBoundary (c :: s) (c.utf8Size + k) ↔ IsBoundary s k := by
  simpa using isBoundary_append (a := [c]) (b := s) (k := k)

/-- A suffix of known length is cut off at exactly the boundary that far from the end. -/
theorem exists_tail {s : List Char} {n : Nat} (hn : n ≤ byteLen s)
    (h : IsBoundary s (byteLen s - n)) : ∃ a t, s = a ++ t ∧ byteLen t = n := by
  obtain ⟨a, t, rfl, hl⟩ := h
  refine ⟨a, t, rfl, ?_⟩
  simp only [byteLen_append] at hn hl
  omega

theorem sliceFrom_append (a t : List Char) : sliceFrom (a ++ t) (byteLen a) = some t := by
  rw [sliceFrom, splitAt_eq_some.mpr ⟨rfl, rfl⟩]
  rfl

theorem sliceTo_append (a t : List Char) : sliceTo (a ++ t) (byteLen a) = some a := by
  rw [sliceTo, splitAt_eq_some.mpr ⟨rfl, rfl⟩]
  rfl

theorem sliceFrom_isSome {s : List Char} {i : Nat} : (sliceFrom s i).isSome ↔ IsBoundary s i := by
  rw [sliceFrom, Option.isSome_map, splitAt_isSome]

/-- Equal prefixes of equal length. -/
theorem append_inj {a b c d : List Char} (h : a ++ b = c ++ d) (hl : byteLen a = byteLen c) :
    a = c ∧ b = d := by
  have h1 : splitAt (a ++ b) (byteLen a) = some (a, b) := splitAt_eq_some.mpr ⟨rfl, rfl⟩
  have h2 : splitAt (a ++ b) (byteLen a) = some (c, d) := splitAt_eq_some.mpr ⟨h, hl.symm⟩
  rw [h1, Option.some.injEq, Prod.mk.injEq] at h2
  exact h2

theorem slice_eq_some {s a b c : List Char} {i j : Nat} (hs : s = a ++ b ++ c)
    (hi : byteLen a = i) (hj : byteLen a + byteLen b = j) : slice s i j = some b := by
  rw [slice, hs, ← hj, ← byteLen_append, sliceTo_append, Option.bind_some, ← hi, sliceFrom_append]

/-- What a successful slice looks like. -/
theorem of_slice_eq_some {s b : List Char} {i j : Nat} (h : slice s i j = some b) :
    ∃ a c, s = a ++ b ++ c ∧ byteLen a = i ∧ byteLen a + byteLen b = j := by
  obtain ⟨p, hp, hb⟩ := Option.bind_eq_some_iff.mp h
  obtain ⟨⟨p', c⟩, hs, rfl⟩ := Option.map_eq_some_iff.mp hp
  obtain ⟨⟨a, b'⟩, hs', rfl⟩ := Option.map_eq_some_iff.mp hb
  obtain ⟨rfl, hj⟩ := splitAt_eq_some.mp hs
  obtain ⟨rfl, hi⟩ := splitAt_eq_some.mp hs'
  exact ⟨a, c, rfl, hi, by rw [← byteLen_append]; exact hj⟩

theorem slice_eq_none {s : List Char} {i j : Nat} (h : ¬ IsBoundary s j) : slice s i j = none := by
  have : splitAt s j = none := by
    rwa [← Option.not_isSome_iff_eq_none, splitAt_isSome]
  rw [slice, sliceTo, this]
  rfl

/-! ## Bytes -/

/-- The encoding. -/
def encode (s : List Char) : List UInt8 := s.flatMap String.utf8EncodeChar

/-- One character at a time; `fuel` counts them. -/
def decodeAux : Nat → List UInt8 → Option (List Char)
  | _, [] => some []
  | 0, _ :: _ => none
  | fuel + 1, bs@(_ :: _) =>
      match bs.toByteArray.utf8DecodeChar? 0 with
      | none => none
      | some c => (decodeAux fuel (bs.drop c.utf8Size)).map (c :: ·)

/-- The text of a byte string, if it is UTF-8. A character takes at least one byte, so the length is
fuel enough. -/
def decode (bs : List UInt8) : Option (List Char) := decodeAux bs.length bs

theorem length_encode (s : List Char) : (encode s).length = byteLen s := by
  induction s with
  | nil => rfl
  | cons c s ih =>
    have h : (encode (c :: s)) = String.utf8EncodeChar c ++ encode s := rfl
    rw [h, List.length_append, ih, String.length_utf8EncodeChar, byteLen_cons]

theorem length_le_byteLen (s : List Char) : s.length ≤ byteLen s := by
  induction s with
  | nil => simp
  | cons c s ih =>
    have := utf8Size_pos c
    simp only [List.length_cons, byteLen_cons]
    omega

theorem encode_append (s t : List Char) : encode (s ++ t) = encode s ++ encode t := by
  simp [encode]

theorem decodeAux_encode (s : List Char) :
    ∀ fuel, (encode s).length ≤ fuel → decodeAux fuel (encode s) = some s := by
  induction s with
  | nil => intro fuel _; cases fuel <;> rfl
  | cons c s ih =>
    intro fuel hfuel
    have hcons : encode (c :: s) = String.utf8EncodeChar c ++ encode s := rfl
    have hlen := String.length_utf8EncodeChar c
    have hpos := utf8Size_pos c
    rw [hcons, List.length_append, hlen] at hfuel
    obtain ⟨n, rfl⟩ : ∃ n, fuel = n + 1 := ⟨fuel - 1, by omega⟩
    have hdec : (encode (c :: s)).toByteArray.utf8DecodeChar? 0 = some c := by
      rw [hcons, List.toByteArray_append]
      exact ByteArray.utf8DecodeChar?_utf8EncodeChar_append
    have hdrop : (encode (c :: s)).drop c.utf8Size = encode s := by
      rw [hcons, ← hlen, List.drop_left]
    obtain ⟨b, bs, hb⟩ : ∃ b bs, encode (c :: s) = b :: bs := by
      refine List.exists_cons_of_ne_nil fun h => ?_
      rw [hcons] at h
      have := congrArg List.length h
      rw [List.length_append, hlen] at this
      simp at this
      omega
    rw [hb] at hdec hdrop ⊢
    simp only [decodeAux, hdec, hdrop, ih n (by omega), Option.map_some]

/-- Decoding undoes encoding. -/
theorem decode_encode (s : List Char) : decode (encode s) = some s :=
  decodeAux_encode s _ (Nat.le_refl _)

/-- A byte below `0x80` is a character of its own. -/
theorem mem_utf8EncodeChar {c : Char} {b : UInt8} (hb : b.toNat < 0x80)
    (h : b ∈ String.utf8EncodeChar c) : c.toNat = b.toNat := by
  have hval : c.toNat = c.val.toNat := rfl
  unfold String.utf8EncodeChar at h
  simp only at h
  have hof : ∀ n, n < 256 → (UInt8.ofNat n).toNat = n := fun n hn => by
    rw [UInt8.toNat_ofNat']
    omega
  split at h
  · rw [List.mem_singleton] at h
    rw [h, hof _ (by omega), hval]
  · exfalso
    split at h
    · simp only [List.mem_cons, List.not_mem_nil, or_false] at h
      rcases h with rfl | rfl <;> rw [hof _ (by omega)] at hb <;> omega
    · split at h
      · simp only [List.mem_cons, List.not_mem_nil, or_false] at h
        rcases h with rfl | rfl | rfl <;> rw [hof _ (by omega)] at hb <;> omega
      · simp only [List.mem_cons, List.not_mem_nil, or_false] at h
        rcases h with rfl | rfl | rfl | rfl <;> rw [hof _ (by omega)] at hb <;> omega

/-- The first byte past a prefix. -/
theorem getElem?_encode_append (a b : List Char) :
    (encode (a ++ b))[byteLen a]? = (encode b)[0]? := by
  rw [encode_append, List.getElem?_append_right (Nat.le_of_eq (length_encode a)), length_encode,
    Nat.sub_self]

/-- A byte below `0x80` at the front is the first character. -/
theorem getElem?_encode_cons {c d : Char} {s : List Char} (hd : d.toNat < 0x80) :
    (encode (c :: s))[0]? = some (UInt8.ofNat d.toNat) ↔ c = d := by
  have hcons : encode (c :: s) = String.utf8EncodeChar c ++ encode s := rfl
  have hlen := String.length_utf8EncodeChar c
  have hpos := utf8Size_pos c
  have hbyte : (UInt8.ofNat d.toNat).toNat = d.toNat := by
    rw [UInt8.toNat_ofNat']
    omega
  rw [hcons, List.getElem?_append_left (by omega)]
  constructor
  · intro h
    have hmem := mem_utf8EncodeChar (by omega) (List.mem_of_getElem? h)
    exact Char.ext (UInt32.toNat_inj.mp (by rw [hbyte] at hmem; exact hmem))
  · rintro rfl
    have hval : c.val.toNat ≤ 127 := Nat.lt_succ_iff.mp hd
    simp only [String.utf8EncodeChar, if_pos hval]
    rfl

/-- Text without control characters has no control bytes. -/
theorem notMem_encode {s : List Char} (hs : ∀ c ∈ s, 0x20 ≤ c.toNat) {b : UInt8}
    (hb : b.toNat < 0x20) : b ∉ encode s := by
  intro h
  obtain ⟨c, hc, hbc⟩ := List.mem_flatMap.mp h
  have := mem_utf8EncodeChar (by omega) hbc
  have := hs c hc
  omega

end Keplor.Lib.Utf8
