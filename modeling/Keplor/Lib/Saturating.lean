import Keplor.Lib.Int64
import Mathlib.Algebra.BigOperators.Group.List.Basic
import Mathlib.Algebra.Order.BigOperators.Group.List
import Mathlib.Algebra.Order.Ring.Int

/-!
# Saturating sums

Amounts are added one after the other, and every amount and every total is cut off at the ends of the
signed 64-bit range. While nothing negative is added, a total that has reached the upper end stays
there, so cutting off at every step is cutting off once (`clampedSum_of_nonneg`). With signs mixed it is
not: a total that was cut off at one end comes back from that end.

An amount is a number of units at a rate, and `weighted` is what all of them come to.
-/

set_option autoImplicit false

namespace Keplor.Lib

/-- The nearest integer that a signed 64-bit word can hold. -/
def clamp (x : Int) : Int := max (-2 ^ 63) (min x (2 ^ 63 - 1))

/-- The amounts added to a total, from left to right. -/
def clampedSum (total : Int) (amounts : List Int) : Int :=
  amounts.foldl (fun t x => clamp (t + clamp x)) total

theorem clamp_of_nonneg {x : Int} (h : 0 ≤ x) : clamp x = min x (2 ^ 63 - 1) := by
  unfold clamp
  omega

theorem clamp_toInt (a : Int64) : clamp a.toInt = a.toInt := by
  have hlow := a.le_toInt
  have hhigh := a.toInt_lt
  unfold clamp
  omega

theorem clamp_mono {x y : Int} (h : x ≤ y) : clamp x ≤ clamp y := by
  unfold clamp
  omega

theorem clamp_add_clamp {x y : Int} (hx : 0 ≤ x) (hy : 0 ≤ y) :
    clamp (clamp x + clamp y) = clamp (x + y) := by
  unfold clamp
  omega

@[simp] theorem toInt_saturatingAdd_clamp (a b : Int64) :
    (saturatingAdd a b).toInt = clamp (a.toInt + b.toInt) := toInt_ofIntClamp _

@[simp] theorem toInt_saturatingMul (a b : Int64) :
    (saturatingMul a b).toInt = clamp (a.toInt * b.toInt) := toInt_ofIntClamp _

/-- Nothing negative: the total is the exact one, cut off. -/
theorem clampedSum_of_nonneg {total : Int} {amounts : List Int} (htotal : 0 ≤ total)
    (hamounts : ∀ x ∈ amounts, 0 ≤ x) :
    clampedSum (clamp total) amounts = clamp (total + amounts.sum) := by
  induction amounts generalizing total with
  | nil => rw [clampedSum, List.foldl_nil, List.sum_nil, Int.add_zero]
  | cons x amounts ih =>
    have hx : 0 ≤ x := hamounts x List.mem_cons_self
    have hrest := ih (Int.add_nonneg htotal hx) fun y hy => hamounts y (List.mem_cons_of_mem x hy)
    rw [clampedSum, List.foldl_cons, clamp_add_clamp htotal hx, ← clampedSum, hrest, List.sum_cons,
      Int.add_assoc]

theorem clamp_nonneg {x : Int} (h : 0 ≤ x) : 0 ≤ clamp x := by
  unfold clamp
  omega

/-- Parts that were cut off, added up and cut off, are the whole cut off. -/
theorem clamp_sum_clamp {xs : List Int} (h : ∀ x ∈ xs, 0 ≤ x) :
    clamp (xs.map clamp).sum = clamp xs.sum := by
  induction xs with
  | nil => rfl
  | cons x xs ih =>
    have hx : 0 ≤ x := h x List.mem_cons_self
    have hxs : ∀ y ∈ xs, 0 ≤ y := fun y hy => h y (List.mem_cons_of_mem x hy)
    have hparts : ∀ y ∈ xs.map clamp, 0 ≤ y := by
      intro y hy
      obtain ⟨z, hz, rfl⟩ := List.mem_map.mp hy
      exact clamp_nonneg (hxs z hz)
    have hclamped : clamp (clamp x) = clamp x := by
      unfold clamp
      omega
    rw [List.map_cons, List.sum_cons, List.sum_cons,
      ← clamp_add_clamp (clamp_nonneg hx) (List.sum_nonneg hparts), ih hxs, hclamped,
      clamp_add_clamp hx (List.sum_nonneg hxs)]

theorem toInt_foldl_saturatingAdd {xs : List Int64} (h : ∀ x ∈ xs, 0 ≤ x) :
    (xs.foldl saturatingAdd 0).toInt = clamp (xs.map Int64.toInt).sum := by
  have hfold : ∀ a : Int64, (xs.foldl saturatingAdd a).toInt
      = clampedSum a.toInt (xs.map Int64.toInt) := by
    clear h
    induction xs with
    | nil => exact fun a => rfl
    | cons x xs ih =>
      intro a
      rw [List.foldl_cons, ih, List.map_cons, toInt_saturatingAdd_clamp, clampedSum, clampedSum,
        List.foldl_cons, clamp_toInt]
  have hnonneg : ∀ y ∈ xs.map Int64.toInt, 0 ≤ y := by
    intro y hy
    obtain ⟨x, hx, rfl⟩ := List.mem_map.mp hy
    exact Int64.le_iff_toInt_le.mp (h x hx)
  have hsum := clampedSum_of_nonneg (Int.le_refl 0) hnonneg
  rw [Int.zero_add] at hsum
  rw [hfold]
  exact hsum

/-! ## Sums that wrap -/

/-- A wrapped total is congruent to the exact one, whatever happened on the way. -/
theorem toInt_foldl_add (xs : List Int64) (a : Int64) :
    (xs.foldl (· + ·) a).toInt = (a.toInt + (xs.map Int64.toInt).sum).bmod (2 ^ 64) := by
  induction xs generalizing a with
  | nil =>
    rw [List.foldl_nil, List.map_nil, List.sum_nil, Int.add_zero]
    exact (Int64.toInt_bmod a).symm
  | cons x xs ih =>
    rw [List.foldl_cons, ih, Int64.toInt_add, Int.bmod_add_bmod, List.map_cons, List.sum_cons,
      Int.add_assoc]

theorem bmod_of_fits {x : Int} (hlow : 0 ≤ x) (hhigh : x < 2 ^ 63) : x.bmod (2 ^ 64) = x :=
  Int.bmod_eq_of_le (by omega) (by omega)

/-! ## Units at a rate -/

/-- What each number of units comes to at its rate. -/
def amounts (units : List Nat) (rates : List Int) : List Int :=
  List.zipWith (fun (n : Nat) (r : Int) => (n : Int) * r) units rates

/-- All of it together. -/
def weighted (units : List Nat) (rates : List Int) : Int := (amounts units rates).sum

theorem amounts_nonneg {units : List Nat} {rates : List Int} (hrates : ∀ r ∈ rates, 0 ≤ r) :
    ∀ x ∈ amounts units rates, 0 ≤ x := by
  intro x hx
  rw [amounts, ← List.map_uncurry_zip_eq_zipWith] at hx
  obtain ⟨⟨n, r⟩, hmem, rfl⟩ := List.mem_map.mp hx
  exact Int.mul_nonneg (Int.natCast_nonneg n) (hrates r (List.of_mem_zip hmem).2)

theorem weighted_nonneg {units : List Nat} {rates : List Int} (hrates : ∀ r ∈ rates, 0 ≤ r) :
    0 ≤ weighted units rates :=
  List.sum_nonneg (amounts_nonneg hrates)

/-- More units at higher rates come to more. -/
theorem weighted_mono {units units' : List Nat} {rates rates' : List Int}
    (hunits : List.Forall₂ (· ≤ ·) units units') (hrates : List.Forall₂ (· ≤ ·) rates rates')
    (hnonneg : ∀ r ∈ rates', 0 ≤ r) : weighted units rates ≤ weighted units' rates' := by
  induction hunits generalizing rates rates' with
  | nil => simp [weighted, amounts]
  | @cons n n' units units' hn _ ih =>
    cases hrates with
    | nil => simp [weighted, amounts]
    | @cons r r' rates rates' hr hrates =>
      have hrest := ih hrates fun x hx => hnonneg x (List.mem_cons_of_mem r' hx)
      have hfirst : (n : Int) * r ≤ n' * r' := by
        calc (n : Int) * r ≤ n * r' := Int.mul_le_mul_of_nonneg_left hr (Int.natCast_nonneg n)
          _ ≤ n' * r' := Int.mul_le_mul_of_nonneg_right (Int.ofNat_le.mpr hn)
            (hnonneg r' List.mem_cons_self)
      exact Int.add_le_add hfirst hrest

/-- A difference of rates comes to the difference of what they come to. -/
theorem weighted_sub {units : List Nat} {rates rates' : List Int} (h : rates.length = rates'.length) :
    weighted units (List.zipWith (· - ·) rates rates') = weighted units rates - weighted units rates' := by
  induction rates generalizing units rates' with
  | nil =>
    rw [List.eq_nil_of_length_eq_zero h.symm]
    simp [weighted, amounts]
  | cons r rates ih =>
    cases rates' with
    | nil => cases h
    | cons r' rates' =>
      cases units with
      | nil => simp [weighted, amounts]
      | cons n units =>
        have hrest := @ih units rates' (Nat.succ.inj h)
        simp only [weighted, amounts, List.zipWith_cons_cons, List.sum_cons] at hrest ⊢
        rw [hrest, Int.mul_sub]
        omega

end Keplor.Lib
