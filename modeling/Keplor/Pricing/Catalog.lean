import Keplor.Lib.Utf8
import Keplor.Pricing.Compute

/-!
# `keplor-pricing/src/catalog.rs` — looking a price up

A model name is looked up as it is, and failing that with a trailing date taken off. The date is
recognised by slicing the name at byte offsets counted from its end, and slicing a `str` inside a
character aborts. `stripDateSuffix` is therefore written in `Option`, with the outer `none` for the
abort, and the answer of the function, itself an option, inside.

`CutsOnBoundaries` says when no slice aborts, and `stripDateSuffix_isSome` that it says so exactly.
Of the offsets the source uses only four can fall inside a character. The others follow a dash or a
run of digits, all of one byte.
-/

set_option autoImplicit false

namespace Keplor.Pricing

open Keplor.Core Keplor.Lib Keplor.Lib.Utf8

/-! ## The date suffix -/

/-- `b.is_ascii_digit()` for every byte -/
def allDigits (s : List Char) : Bool := (encode s).all fun b => 0x30 ≤ b && b ≤ 0x39

/-- `tail.starts_with('-')` -/
def startsWithDash (s : List Char) : Bool := s.head? == some '-'

/-- The test for `-YYYY-MM-DD`, conjunct by conjunct: a failed one keeps the next from slicing. -/
def isIsoSuffix (tail : List Char) : Option Bool := do
  if !startsWithDash tail then return false
  let year ← slice tail 1 5
  if !allDigits year then return false
  let dash ← (encode tail)[5]?
  if dash ≠ 0x2d then return false
  let month ← slice tail 6 8
  if !allDigits month then return false
  let dash ← (encode tail)[8]?
  if dash ≠ 0x2d then return false
  let day ← slice tail 9 11
  return allDigits day

/-- The test for `-YYYYMMDD`. -/
def isCompactSuffix (tail : List Char) : Option Bool := do
  if !startsWithDash tail then return false
  let digits ← sliceFrom tail 1
  return allDigits digits

/-- One arm of `strip_date_suffix`: a suffix of `n` bytes that passes `test` is taken off. -/
def stripSuffix (s : List Char) (n : Nat) (test : List Char → Option Bool) :
    Option (Option (List Char)) := do
  if n < byteLen s then
    let tail ← sliceFrom s (byteLen s - n)
    if ← test tail then
      let base ← sliceTo s (byteLen s - n)
      return some base
  return none

/-- `strip_date_suffix` -/
def stripDateSuffix (s : List Char) : Option (Option (List Char)) := do
  if let some base ← stripSuffix s 11 isIsoSuffix then return some base
  stripSuffix s 9 isCompactSuffix

/-! ## When no slice aborts -/

/-- The offsets that can fall inside a character do not: nine and eleven bytes from the end, and
the two behind a dash, where the test comes that far. -/
structure CutsOnBoundaries (s : List Char) : Prop where
  compact : 9 < byteLen s → IsBoundary s (byteLen s - 9)
  iso : 11 < byteLen s → IsBoundary s (byteLen s - 11)
  year : ∀ a r, s = a ++ '-' :: r → a ≠ [] → byteLen r = 10 → IsBoundary r 4
  month : ∀ a y u, s = a ++ '-' :: (y ++ '-' :: u) → a ≠ [] → byteLen y = 4 → allDigits y = true →
    byteLen u = 5 → IsBoundary u 2

theorem startsWithDash_iff {s : List Char} : startsWithDash s = true ↔ ∃ r, s = '-' :: r := by
  cases s with
  | nil => simp [startsWithDash]
  | cons c r => simp [startsWithDash]

/-- Digits are one byte each. -/
theorem isBoundary_of_allDigits {s : List Char} (h : allDigits s = true) :
    ∀ {i : Nat}, i ≤ byteLen s → IsBoundary s i := by
  induction s with
  | nil =>
    intro i hi
    rw [Nat.le_zero.mp hi]
    exact isBoundary_zero []
  | cons c s ih =>
    have hcons : encode (c :: s) = String.utf8EncodeChar c ++ encode s := rfl
    simp only [allDigits, hcons, List.all_append, Bool.and_eq_true] at h
    have hlen := String.length_utf8EncodeChar c
    have hpos := utf8Size_pos c
    obtain ⟨b, hb⟩ := List.exists_mem_of_length_pos (hlen ▸ hpos)
    have hdigit := List.all_eq_true.mp h.1 b hb
    simp only [Bool.and_eq_true, decide_eq_true_eq, UInt8.le_iff_toNat_le] at hdigit
    have hb39 : b.toNat ≤ 0x39 := hdigit.2
    have hval : c.toNat ≤ 0x7f := by
      have := mem_utf8EncodeChar (by omega) hb
      omega
    have hsize : c.utf8Size = 1 := Char.utf8Size_eq_one_iff.mpr hval
    intro i hi
    rw [byteLen_cons, hsize] at hi
    cases i with
    | zero => exact isBoundary_zero _
    | succ i =>
      have := (isBoundary_cons (c := c) (k := i)).mpr (ih h.2 (by omega))
      rwa [hsize, Nat.add_comm] at this

/-- The compact test never aborts: a dash is one byte. -/
theorem isCompactSuffix_isSome (t : List Char) : (isCompactSuffix t).isSome := by
  cases hd : startsWithDash t with
  | false => simp [isCompactSuffix, hd]
  | true =>
    obtain ⟨r, rfl⟩ := startsWithDash_iff.mp hd
    have : sliceFrom ('-' :: r) 1 = some r := sliceFrom_append ['-'] r
    simp [isCompactSuffix, hd, this]

@[simp] theorem utf8Size_dash : '-'.utf8Size = 1 := rfl

/-- The byte behind a prefix is a dash exactly when the character there is one. -/
theorem dash_at {a : List Char} {c : Char} {s : List Char} {i : Nat} (hi : byteLen a = i) :
    ∃ b, (encode (a ++ c :: s))[i]? = some b ∧ (b = 0x2d ↔ c = '-') := by
  have hget := getElem?_encode_append a (c :: s)
  have hiff := getElem?_encode_cons (c := c) (d := '-') (s := s) (by decide)
  have hlen : 0 < (encode (c :: s)).length := by
    have := utf8Size_pos c
    rw [length_encode, byteLen_cons]
    omega
  rw [hi] at hget
  refine ⟨(encode (c :: s))[0], by rw [hget, List.getElem?_eq_getElem hlen], ?_⟩
  rw [← hiff, List.getElem?_eq_getElem hlen, Option.some.injEq]
  rfl

/-- The part of the ISO test behind the second dash. -/
theorem isIsoSuffix_month {y u : List Char} (hy : byteLen y = 4) (hdig : allDigits y = true)
    (hu : byteLen u = 5) : (isIsoSuffix ('-' :: (y ++ '-' :: u))).isSome ↔ IsBoundary u 2 := by
  have hyear : slice ('-' :: (y ++ '-' :: u)) 1 5 = some y :=
    slice_eq_some (a := ['-']) rfl rfl (by simp [hy])
  have hstart : startsWithDash ('-' :: (y ++ '-' :: u)) = true := startsWithDash_iff.mpr ⟨_, rfl⟩
  obtain ⟨b, hb, hbd⟩ := dash_at (a := '-' :: y) (c := '-') (s := u) (i := 5) (by simp [hy])
  rw [List.cons_append] at hb
  have hb2 : b = 0x2d := hbd.mpr rfl
  have hcut : IsBoundary ('-' :: (y ++ '-' :: u)) 8 ↔ IsBoundary u 2 := by
    have := isBoundary_append (a := '-' :: (y ++ ['-'])) (b := u) (k := 2)
    simpa [hy] using this
  by_cases hm : IsBoundary u 2
  · obtain ⟨m, w, rfl, hml⟩ := hm
    have hw : byteLen w = 3 := by simp only [byteLen_append] at hu; omega
    have hmonth : slice ('-' :: (y ++ '-' :: (m ++ w))) 6 8 = some m :=
      slice_eq_some (a := '-' :: (y ++ ['-'])) (c := w) (by simp) (by simp [hy]) (by simp [hy, hml])
    refine iff_of_true ?_ ⟨m, w, rfl, hml⟩
    obtain ⟨c, x, rfl⟩ : ∃ c x, w = c :: x := by
      cases w with
      | nil => simp at hw
      | cons c x => exact ⟨c, x, rfl⟩
    obtain ⟨d, hd, hdd⟩ := dash_at (a := '-' :: (y ++ '-' :: m)) (c := c) (s := x) (i := 8)
      (by simp [hy, hml])
    simp only [List.cons_append, List.append_assoc] at hd
    by_cases hdash : d = 0x2d
    · -- the last two bytes are whole characters because the last three are
      obtain rfl := hdd.mp hdash
      have hday : slice ('-' :: (y ++ '-' :: (m ++ '-' :: x))) 9 11 = some x :=
        slice_eq_some (a := '-' :: (y ++ '-' :: (m ++ ['-']))) (c := []) (by simp)
          (by simp [hy, hml]) (by simp only [byteLen_cons, utf8Size_dash] at hw; simp [hy, hml]; omega)
      cases hmd : allDigits m <;>
        simp [isIsoSuffix, hstart, hyear, hdig, hb, hb2, hmonth, hmd, hd, hdash, hday]
    · simp [isIsoSuffix, hstart, hyear, hb, hb2, hmonth, hd, hdash]
  · have hnone : slice ('-' :: (y ++ '-' :: u)) 6 8 = none := slice_eq_none (mt hcut.mp hm)
    refine iff_of_false ?_ hm
    simp [isIsoSuffix, hstart, hyear, hdig, hb, hb2, hnone]

/-- With a whole year, the test aborts exactly when a month after it is cut through. -/
theorem isIsoSuffix_year {y v : List Char} (hy : byteLen y = 4) (hv : byteLen v = 6) :
    (isIsoSuffix ('-' :: (y ++ v))).isSome ↔
      ∀ u, v = '-' :: u → allDigits y = true → IsBoundary u 2 := by
  have hstart : startsWithDash ('-' :: (y ++ v)) = true := startsWithDash_iff.mpr ⟨_, rfl⟩
  have hyear : slice ('-' :: (y ++ v)) 1 5 = some y :=
    slice_eq_some (a := ['-']) rfl rfl (by simp [hy])
  obtain ⟨c, u, rfl⟩ : ∃ c u, v = c :: u := by
    cases v with
    | nil => simp at hv
    | cons c u => exact ⟨c, u, rfl⟩
  obtain ⟨b, hb, hbd⟩ := dash_at (a := '-' :: y) (c := c) (s := u) (i := 5) (by simp [hy])
  rw [List.cons_append] at hb
  cases hdig : allDigits y with
  | false => simp [isIsoSuffix, hstart, hyear, hdig]
  | true =>
    by_cases hc : c = '-'
    · subst hc
      have hu : byteLen u = 5 := by rw [byteLen_cons, utf8Size_dash] at hv; omega
      rw [isIsoSuffix_month hy hdig hu]
      constructor
      · rintro hcut _ ⟨⟩ -
        exact hcut
      · intro h
        exact h u rfl rfl
    · have hne : b ≠ 0x2d := mt hbd.mp hc
      simp [isIsoSuffix, hstart, hyear, hb, hne, hc]

/-- The ISO test aborts on eleven bytes exactly when the year or the month is cut through. -/
theorem isIsoSuffix_isSome {t : List Char} (ht : byteLen t = 11) :
    (isIsoSuffix t).isSome ↔ ∀ r, t = '-' :: r → IsBoundary r 4 ∧
      ∀ y u, r = y ++ '-' :: u → byteLen y = 4 → allDigits y = true → IsBoundary u 2 := by
  cases hd : startsWithDash t with
  | false =>
    have hno : ∀ r, t ≠ '-' :: r := fun r h => by simp [startsWithDash, h] at hd
    simp [isIsoSuffix, hd, hno]
  | true =>
    obtain ⟨r, rfl⟩ := startsWithDash_iff.mp hd
    have hr : byteLen r = 10 := by
      rw [byteLen_cons, utf8Size_dash] at ht
      omega
    have hcut : IsBoundary ('-' :: r) 5 ↔ IsBoundary r 4 := isBoundary_cons (c := '-') (k := 4)
    by_cases hy : IsBoundary r 4
    · obtain ⟨y, v, rfl, hyl⟩ := hy
      have hvl : byteLen v = 6 := by rw [byteLen_append] at hr; omega
      rw [isIsoSuffix_year hyl hvl]
      constructor
      · rintro h _ ⟨⟩
        refine ⟨⟨y, v, rfl, hyl⟩, fun y' u hsplit hl hdig => ?_⟩
        obtain ⟨rfl, rfl⟩ := append_inj hsplit (hyl.trans hl.symm)
        exact h u rfl hdig
      · intro h u hv hdig
        exact (h _ rfl).2 y u (by rw [hv]) hyl hdig
    · have hnone : slice ('-' :: r) 1 5 = none := slice_eq_none (mt hcut.mp hy)
      refine iff_of_false (by simp [isIsoSuffix, hd, hnone]) ?_
      intro h
      exact hy (h r rfl).1

/-- An arm that looks at the tail answers as its test does. -/
theorem stripSuffix_append {a t : List Char} (ha : a ≠ []) (test : List Char → Option Bool) :
    stripSuffix (a ++ t) (byteLen t) test = (test t).map fun b => if b then some a else none := by
  have hlt : byteLen t < byteLen (a ++ t) := by
    have : byteLen a ≠ 0 := mt eq_nil_of_byteLen ha
    rw [byteLen_append]
    omega
  have hoff : byteLen (a ++ t) - byteLen t = byteLen a := by rw [byteLen_append]; omega
  rw [stripSuffix, if_pos hlt, hoff, sliceFrom_append, sliceTo_append]
  cases ht : test t with
  | none => simp [ht]
  | some b => cases b <;> simp [ht]

/-- An arm aborts exactly when the tail cannot be cut off or its test aborts on it. -/
theorem stripSuffix_isSome {s : List Char} {n : Nat} {test : List Char → Option Bool} :
    (stripSuffix s n test).isSome ↔ (n < byteLen s → IsBoundary s (byteLen s - n)) ∧
      ∀ a t, s = a ++ t → a ≠ [] → byteLen t = n → (test t).isSome := by
  by_cases hlt : n < byteLen s
  · by_cases hcut : IsBoundary s (byteLen s - n)
    · obtain ⟨a, t, rfl, rfl⟩ := exists_tail (by omega) hcut
      have ha : a ≠ [] := by
        rintro rfl
        simp at hlt
      rw [stripSuffix_append ha, Option.isSome_map]
      constructor
      · intro h
        refine ⟨fun _ => hcut, fun a' t' he _ hl => ?_⟩
        have hal : byteLen a = byteLen a' := by
          have := congrArg byteLen he
          simp only [byteLen_append] at this
          omega
        rwa [← (append_inj he hal).2]
      · intro h
        exact h.2 a t rfl ha rfl
    · have hnone : sliceFrom s (byteLen s - n) = none := by
        rwa [← Option.not_isSome_iff_eq_none, sliceFrom_isSome]
      refine iff_of_false ?_ fun h => hcut (h.1 hlt)
      simp [stripSuffix, hlt, hnone]
  · refine iff_of_true (by simp [stripSuffix, hlt]) ⟨fun h => absurd h hlt, ?_⟩
    rintro a t rfl ha rfl
    have : byteLen a ≠ 0 := mt eq_nil_of_byteLen ha
    rw [byteLen_append] at hlt
    omega

/-- A name that ends in an ISO date can also be cut nine bytes from its end. -/
theorem isBoundary_of_isIsoSuffix {a t : List Char} (ht : byteLen t = 11)
    (h : isIsoSuffix t = some true) : IsBoundary (a ++ t) (byteLen (a ++ t) - 9) := by
  obtain ⟨y, hy, hdig⟩ : ∃ y, slice t 1 5 = some y ∧ allDigits y = true := by
    rw [isIsoSuffix] at h
    cases hd : startsWithDash t with
    | false => simp [hd] at h
    | true =>
      cases hy : slice t 1 5 with
      | none => simp [hd, hy] at h
      | some y =>
        cases hdig : allDigits y with
        | false => simp [hd, hy, hdig] at h
        | true => exact ⟨y, rfl, hdig⟩
  obtain ⟨x, z, rfl, hx, hxy⟩ := of_slice_eq_some hy
  have hoff : byteLen (a ++ (x ++ y ++ z)) - 9 = byteLen (a ++ x) + 1 := by
    rw [byteLen_append, byteLen_append a x]
    omega
  have hcut : IsBoundary (y ++ z) 1 := by
    obtain ⟨u, v, rfl, hu⟩ := isBoundary_of_allDigits hdig (i := 1) (by omega)
    exact ⟨u, v ++ z, by simp, hu⟩
  rw [hoff, show a ++ (x ++ y ++ z) = (a ++ x) ++ (y ++ z) by simp, isBoundary_append]
  exact hcut

/-- `strip_date_suffix` aborts on exactly the names that one of its slices cuts through. -/
theorem stripDateSuffix_isSome {s : List Char} : (stripDateSuffix s).isSome ↔ CutsOnBoundaries s := by
  have hiso : (stripSuffix s 11 isIsoSuffix).isSome ↔
      (11 < byteLen s → IsBoundary s (byteLen s - 11)) ∧
      ∀ a r, s = a ++ '-' :: r → a ≠ [] → byteLen r = 10 → IsBoundary r 4 ∧
        ∀ y u, r = y ++ '-' :: u → byteLen y = 4 → allDigits y = true → IsBoundary u 2 := by
    rw [stripSuffix_isSome]
    refine and_congr_right fun _ => ⟨?_, ?_⟩
    · intro h a r hs ha hr
      have ht : byteLen ('-' :: r) = 11 := by rw [byteLen_cons, utf8Size_dash, hr]
      exact (isIsoSuffix_isSome ht).mp (h a _ hs ha ht) r rfl
    · intro h a t hs ha ht
      rw [isIsoSuffix_isSome ht]
      rintro r rfl
      exact h a r hs ha (by rw [byteLen_cons, utf8Size_dash] at ht; omega)
  have hcompact : (stripSuffix s 9 isCompactSuffix).isSome ↔
      (9 < byteLen s → IsBoundary s (byteLen s - 9)) := by
    rw [stripSuffix_isSome]
    exact and_iff_left fun _ t _ _ _ => isCompactSuffix_isSome t
  have hcuts : CutsOnBoundaries s ↔ (stripSuffix s 11 isIsoSuffix).isSome ∧
      (stripSuffix s 9 isCompactSuffix).isSome := by
    rw [hiso, hcompact]
    constructor
    · intro h
      refine ⟨⟨h.iso, fun a r hs ha hr => ⟨h.year a r hs ha hr, ?_⟩⟩, h.compact⟩
      rintro y u rfl hy hdig
      refine h.month a y u hs ha hy hdig ?_
      rw [byteLen_append, byteLen_cons, utf8Size_dash] at hr
      omega
    · rintro ⟨⟨h1, h2⟩, h3⟩
      refine ⟨h3, h1, fun a r hs ha hr => (h2 a r hs ha hr).1, fun a y u hs ha hy hdig hu => ?_⟩
      refine (h2 a _ hs ha ?_).2 y u rfl hy hdig
      rw [byteLen_append, byteLen_cons, utf8Size_dash]
      omega
  rw [hcuts, stripDateSuffix]
  cases harm : stripSuffix s 11 isIsoSuffix with
  | none => simp
  | some found =>
    cases found with
    | none => simp
    | some base =>
      -- the first arm answered, so the second is never reached, but it would not abort either
      suffices h : (stripSuffix s 9 isCompactSuffix).isSome by simpa using h
      rw [hcompact]
      intro _
      have hcut : 11 < byteLen s → IsBoundary s (byteLen s - 11) := (hiso.mp (by rw [harm]; rfl)).1
      by_cases hlt : 11 < byteLen s
      · obtain ⟨a, t, rfl, ht⟩ := exists_tail (by omega) (hcut hlt)
        have ha : a ≠ [] := by
          rintro rfl
          rw [List.nil_append] at hlt
          omega
        have harm' := stripSuffix_append ha (t := t) isIsoSuffix
        rw [ht, harm] at harm'
        cases htest : isIsoSuffix t with
        | none => simp [htest] at harm'
        | some b =>
          cases b with
          | false => simp [htest] at harm'
          | true => exact isBoundary_of_isIsoSuffix ht htest
      · simp [stripSuffix, hlt] at harm

/-! ## The catalog -/

/-- `Catalog`: the hash map, by its lookup function. -/
structure Catalog where
  entries : String → Option ModelPricing

/-- `str::to_ascii_lowercase` -/
def toAsciiLowercase (s : List Char) : List Char := s.map Char.toLower

/-- `Catalog::lookup`. The stripped name is lowered once more, as `ModelKey::new` does. -/
def Catalog.lookup (c : Catalog) (key : String) : Option (Option ModelPricing) := do
  if let some p := c.entries key then return some p
  if let some base ← stripDateSuffix key.toList then
    return c.entries (String.ofList (toAsciiLowercase base))
  return none

/-- A lookup aborts only past the exact match. -/
theorem Catalog.lookup_isSome {c : Catalog} {key : String} :
    (c.lookup key).isSome ↔ (c.entries key).isSome ∨ CutsOnBoundaries key.toList := by
  rw [← stripDateSuffix_isSome, Catalog.lookup]
  cases c.entries key with
  | some p => simp
  | none =>
    cases stripDateSuffix key.toList with
    | none => simp
    | some found => cases found <;> simp

end Keplor.Pricing
