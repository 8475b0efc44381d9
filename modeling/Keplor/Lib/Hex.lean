import Keplor.Lib.Json.RoundTrip
import Keplor.Lib.Utf8

/-!
# Hexadecimal digits of either case

A reader of hexadecimal text takes digits of either case and a printer writes lower case, so what is
read and printed again is the text in lower case (`hexDigit_of_hexVal`). A digit is one byte: in
hexadecimal text the characters are as many as the bytes.
-/

set_option autoImplicit false

namespace Keplor.Lib.Json

open Utf8

variable {c : Char} {v : Nat}

theorem isSome_hexVal (c : Char) : (hexVal c).isSome = c.isHexDigit := by
  have hdef : c.isHexDigit =
      (c.isDigit || decide ('a' ≤ c ∧ c ≤ 'f') || decide ('A' ≤ c ∧ c ≤ 'F')) := by
    rw [Bool.decide_and, Bool.decide_and]
    rfl
  rw [hdef, hexVal]
  split
  · rename_i hdigit
    simp [hdigit]
  · rename_i hdigit
    split
    · rename_i hlower
      simp [hlower]
    · rename_i hlower
      split
      · rename_i hupper
        simp [hupper]
      · rename_i hupper
        simp [hdigit, hlower, hupper]

theorem hexVal_eq_none_iff : hexVal c = none ↔ c.isHexDigit = false := by
  rw [← isSome_hexVal, Option.isSome_eq_false_iff, Option.isNone_iff_eq_none]

theorem val_le_of_isHexDigit (h : c.isHexDigit = true) : c.val ≤ 127 := by
  have hle : c.val ≤ '9'.val ∨ c.val ≤ 'f'.val ∨ c.val ≤ 'F'.val := by
    simp only [Char.isHexDigit, Char.isDigit, Bool.or_eq_true, Bool.and_eq_true,
      decide_eq_true_eq] at h
    rcases h with (h | h) | h
    · exact .inl h.2
    · exact .inr (.inl h.2)
    · exact .inr (.inr h.2)
  rcases hle with h | h | h
  · exact UInt32.le_trans h (by decide)
  · exact UInt32.le_trans h (by decide)
  · exact UInt32.le_trans h (by decide)

theorem utf8Size_of_isHexDigit (h : c.isHexDigit = true) : c.utf8Size = 1 :=
  Char.utf8Size_eq_one_iff.mpr (val_le_of_isHexDigit h)

/-- Printing what a digit was read as gives the digit in lower case. -/
theorem hexDigit_of_hexVal (h : hexVal c = some v) : v < 16 ∧ hexDigit v = c.toLower := by
  have hall : ∀ n < 128, ∀ v ∈ hexVal (Char.ofNat n),
      v < 16 ∧ hexDigit v = (Char.ofNat n).toLower := by decide
  have hdigit : c.isHexDigit = true := by rw [← isSome_hexVal, h, Option.isSome_some]
  have hle : c.toNat ≤ 127 := UInt32.le_iff_toNat_le.mp (val_le_of_isHexDigit hdigit)
  rw [← Char.ofNat_toNat c] at h ⊢
  exact hall c.toNat (Nat.lt_succ_of_le hle) v h

/-- In hexadecimal text a character is a byte. -/
theorem byteLen_of_isHexDigit {s : List Char} (h : ∀ c ∈ s, c.isHexDigit = true) :
    byteLen s = s.length := by
  induction s with
  | nil => rfl
  | cons c s ih =>
    rw [byteLen_cons, utf8Size_of_isHexDigit (h c List.mem_cons_self),
      ih fun x hx => h x (List.mem_cons_of_mem _ hx), List.length_cons, Nat.add_comm]

end Keplor.Lib.Json
