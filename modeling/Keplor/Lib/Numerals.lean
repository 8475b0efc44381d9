import Mathlib.Algebra.Order.Ring.Nat
import Mathlib.Order.Lattice
import Mathlib.Tactic.Common

/-!
# Numerals of a fixed width

The digits of a number in a base of at most sixteen, with leading zeros up to a width. Numbers that
fit the width are determined by their numeral, and the order of texts is the order of numbers:
`numeral_inj`, `numeral_lt_iff`. `replicate_append_toDigits` connects them to the digits without
leading zeros.
-/

set_option autoImplicit false

namespace Keplor.Lib

/-- Lists with first parts of one length are compared part by part. -/
theorem append_lt_append_iff {α : Type} [LT α] {xs ys xs' ys' : List α}
    (h : xs.length = ys.length) :
    xs ++ xs' < ys ++ ys' ↔ xs < ys ∨ (xs = ys ∧ xs' < ys') := by
  induction xs generalizing ys with
  | nil =>
    obtain rfl := List.length_eq_zero_iff.mp h.symm
    simp
  | cons x xs ih =>
    cases ys with
    | nil => exact absurd h (by simp)
    | cons y ys =>
      simp only [List.cons_append, List.cons_lt_cons_iff, ih (Nat.succ.inj h), List.cons.injEq]
      grind

/-- The last `w` digits of a number. -/
def numeral (b : Nat) : Nat → Nat → List Char
  | 0, _ => []
  | w + 1, n => numeral b w (n / b) ++ [Nat.digitChar (n % b)]

theorem length_numeral (b w n : Nat) : (numeral b w n).length = w := by
  induction w generalizing n with
  | zero => rfl
  | succ w ih => simp [numeral, ih]

theorem digitChar_lt_iff {m n : Nat} (hm : m < 16) (hn : n < 16) :
    Nat.digitChar m < Nat.digitChar n ↔ m < n := by
  have h : ∀ m < 16, ∀ n < 16, (Nat.digitChar m < Nat.digitChar n ↔ m < n) := by decide
  exact h m hm n hn

theorem digitChar_inj {m n : Nat} (hm : m < 16) (hn : n < 16) :
    Nat.digitChar m = Nat.digitChar n ↔ m = n := by
  have h : ∀ m < 16, ∀ n < 16, (Nat.digitChar m = Nat.digitChar n ↔ m = n) := by decide
  exact h m hm n hn

section Base

variable {b w m n : Nat}

/-- A number is its quotient, then its remainder, in the order too. -/
theorem lt_iff_div_mod : m < n ↔ m / b < n / b ∨ (m / b = n / b ∧ m % b < n % b) := by
  have hm := Nat.div_add_mod m b
  have hn := Nat.div_add_mod n b
  constructor
  · intro h
    rcases Nat.lt_or_eq_of_le (Nat.div_le_div_right (c := b) (Nat.le_of_lt h)) with hlt | heq
    · exact .inl hlt
    · rw [heq] at hm
      exact .inr ⟨heq, by omega⟩
  · rintro (hlt | ⟨heq, hlt⟩)
    · exact Nat.lt_of_div_lt_div hlt
    · rw [heq] at hm
      omega

theorem mod_lt_sixteen (hb : 0 < b) (h16 : b ≤ 16) (k : Nat) : k % b < 16 :=
  (Nat.mod_lt k hb).trans_le h16

theorem div_lt_pow (h : n < b ^ (w + 1)) : n / b < b ^ w :=
  Nat.div_lt_of_lt_mul (by rwa [Nat.pow_succ'] at h)

/-- A numeral determines a number that fits its width. -/
theorem numeral_inj (hb : 0 < b) (h16 : b ≤ 16) (hm : m < b ^ w) (hn : n < b ^ w) :
    numeral b w m = numeral b w n ↔ m = n := by
  induction w generalizing m n with
  | zero => simp_all
  | succ w ih =>
    rw [numeral, numeral, List.append_singleton_inj, ih (div_lt_pow hm) (div_lt_pow hn),
      digitChar_inj (mod_lt_sixteen hb h16 m) (mod_lt_sixteen hb h16 n)]
    refine ⟨fun ⟨hq, hr⟩ => ?_, fun h => h ▸ ⟨rfl, rfl⟩⟩
    rw [← Nat.div_add_mod m b, hq, hr, Nat.div_add_mod]

/-- The order of numerals is the order of the numbers. -/
theorem numeral_lt_iff (hb : 0 < b) (h16 : b ≤ 16) (hm : m < b ^ w) (hn : n < b ^ w) :
    numeral b w m < numeral b w n ↔ m < n := by
  induction w generalizing m n with
  | zero => simp_all [numeral]
  | succ w ih =>
    rw [numeral, numeral, append_lt_append_iff (by simp [length_numeral]),
      ih (div_lt_pow hm) (div_lt_pow hn), numeral_inj hb h16 (div_lt_pow hm) (div_lt_pow hn),
      lt_iff_div_mod (m := m) (b := b), List.cons_lt_cons_iff,
      digitChar_lt_iff (mod_lt_sixteen hb h16 m) (mod_lt_sixteen hb h16 n)]
    simp

/-- Leading zeros make the digits of a number its numeral. -/
theorem replicate_append_toDigits (hb : 1 < b) (hw : 0 < w) (hn : n < b ^ w) :
    (Nat.toDigits b n).length ≤ w ∧
      List.replicate (w - (Nat.toDigits b n).length) '0' ++ Nat.toDigits b n = numeral b w n := by
  have hzero (k : Nat) : numeral b k 0 = List.replicate k '0' := by
    induction k with
    | zero => rfl
    | succ k ih => rw [numeral, Nat.zero_div, ih, Nat.zero_mod, List.replicate_succ']; rfl
  induction w generalizing n with
  | zero => exact absurd hw (Nat.lt_irrefl 0)
  | succ w ih =>
    rcases Nat.lt_or_ge n b with hlt | hge
    · rw [Nat.toDigits_of_lt_base hlt, numeral, Nat.div_eq_of_lt hlt, hzero, Nat.mod_eq_of_lt hlt]
      simp
    · -- a number of two digits or more leaves at least one for the width below
      have hwpos : 0 < w := by
        rcases Nat.eq_zero_or_pos w with rfl | h
        · simp at hn
          omega
        · exact h
      obtain ⟨hlen, hih⟩ := ih hwpos (div_lt_pow hn)
      rw [Nat.toDigits_of_base_le hb hge, numeral, ← hih, List.length_append, List.length_singleton,
        Nat.add_sub_add_right, List.append_assoc]
      exact ⟨Nat.succ_le_succ hlen, rfl⟩

end Base

end Keplor.Lib
