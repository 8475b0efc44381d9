import Mathlib.Data.List.Basic
import Mathlib.Tactic.Common

/-!
# Answers that come back for some of the inputs

A loop turns inputs into outcomes. The ones that went wrong have their answer at once; the others are
passed on together, and what comes back for them, a shorter list, is written to the places they came
from. `fill` is the list of answers when the first few have come back, and `writeAt_fill` says that
writing the next one to the next noted place takes it one answer further.
-/

set_option autoImplicit false

namespace Keplor.Lib

variable {ε μ ρ α : Type}

/-- `xs[i] = a`, which aborts when the index is out of range. -/
def writeAt (xs : List α) (i : Nat) (a : α) : Option (List α) :=
  if i < xs.length then some (xs.set i a) else none

/-- The values among the outcomes. -/
def okValues (outcomes : List (Except ε μ)) : List μ :=
  outcomes.filterMap fun
    | .ok m => some m
    | .error _ => none

/-- Where the values stand among the outcomes, counted from `start`. -/
def okPositions (start : Nat) : List (Except ε μ) → List Nat
  | [] => []
  | .error _ :: outcomes => okPositions (start + 1) outcomes
  | .ok _ :: outcomes => start :: okPositions (start + 1) outcomes

/-- The answers so far: an error is its own, and the values are answered in order. -/
def fill (reject : ε → α) (answer : μ → ρ → α) : List (Except ε μ) → List ρ → List (Option α)
  | [], _ => []
  | .error e :: outcomes, replies => some (reject e) :: fill reject answer outcomes replies
  | .ok _ :: outcomes, [] => none :: fill reject answer outcomes []
  | .ok m :: outcomes, r :: replies => some (answer m r) :: fill reject answer outcomes replies

section Values

@[simp] theorem okValues_nil : okValues ([] : List (Except ε μ)) = [] := rfl

@[simp] theorem okValues_error (e : ε) (outcomes : List (Except ε μ)) :
    okValues (.error e :: outcomes) = okValues outcomes := rfl

@[simp] theorem okValues_ok (m : μ) (outcomes : List (Except ε μ)) :
    okValues (.ok m :: outcomes) = m :: okValues outcomes := rfl

theorem okValues_append (outcomes more : List (Except ε μ)) :
    okValues (outcomes ++ more) = okValues outcomes ++ okValues more :=
  List.filterMap_append

theorem okPositions_append (start : Nat) (outcomes more : List (Except ε μ)) :
    okPositions start (outcomes ++ more)
      = okPositions start outcomes ++ okPositions (start + outcomes.length) more := by
  induction outcomes generalizing start with
  | nil => rfl
  | cons outcome outcomes ih =>
    have hlength : start + (outcome :: outcomes).length = start + 1 + outcomes.length := by
      rw [List.length_cons]
      omega
    rw [hlength]
    cases outcome with
    | error e => exact ih (start + 1)
    | ok m => exact congrArg (start :: ·) (ih (start + 1))

theorem length_okPositions (start : Nat) (outcomes : List (Except ε μ)) :
    (okPositions start outcomes).length = (okValues outcomes).length := by
  induction outcomes generalizing start with
  | nil => rfl
  | cons outcome outcomes ih =>
    cases outcome with
    | error e => exact ih (start + 1)
    | ok m => exact congrArg (· + 1) (ih (start + 1))

end Values

section Fill

variable {reject : ε → α} {answer : μ → ρ → α}

@[simp] theorem length_fill (outcomes : List (Except ε μ)) (replies : List ρ) :
    (fill reject answer outcomes replies).length = outcomes.length := by
  induction outcomes, replies using fill.induct with
  | case1 => rfl
  | case2 replies e outcomes ih => exact congrArg (· + 1) ih
  | case3 m outcomes ih => exact congrArg (· + 1) ih
  | case4 m outcomes r replies ih => exact congrArg (· + 1) ih

theorem fill_append_nil (outcomes more : List (Except ε μ)) :
    fill reject answer (outcomes ++ more) ([] : List ρ)
      = fill reject answer outcomes [] ++ fill reject answer more [] := by
  induction outcomes with
  | nil => rfl
  | cons outcome outcomes ih =>
    cases outcome with
    | error e => exact congrArg (some (reject e) :: ·) ih
    | ok m => exact congrArg (none :: ·) ih

theorem writeAt_cons_succ (x : α) (xs : List α) (i : Nat) (a : α) :
    writeAt (x :: xs) (i + 1) a = (writeAt xs i a).map (x :: ·) := by
  simp only [writeAt, List.length_cons, Nat.add_lt_add_iff_right, List.set_cons_succ]
  split <;> rfl

/-- The next answer: its place and its value are in range, and written there it is the next one. -/
theorem writeAt_fill (outcomes : List (Except ε μ)) (replies : List ρ) (r : ρ)
    (h : replies.length < (okValues outcomes).length) (start : Nat) :
    ∃ (i : Nat) (m : μ), (okPositions start outcomes)[replies.length]? = some (start + i) ∧
      (okValues outcomes)[replies.length]? = some m ∧
      writeAt (fill reject answer outcomes replies) i (some (answer m r))
        = some (fill reject answer outcomes (replies ++ [r])) := by
  induction outcomes, replies using fill.induct generalizing start with
  | case1 replies => cases h
  | case2 replies e outcomes ih =>
    obtain ⟨i, m, hi, hm, hwrite⟩ := ih h (start + 1)
    refine ⟨i + 1, m, ?_, hm, ?_⟩
    · rw [okPositions, hi, Nat.add_right_comm, Nat.add_assoc]
    · rw [fill, writeAt_cons_succ, hwrite]
      rfl
  | case3 m outcomes ih => exact ⟨0, m, rfl, rfl, by simp [writeAt, fill]⟩
  | case4 m outcomes r' replies ih =>
    obtain ⟨i, m', hi, hm, hwrite⟩ := ih (Nat.lt_of_succ_lt_succ h) (start + 1)
    refine ⟨i + 1, m', ?_, ?_, ?_⟩
    · rw [okPositions, List.length_cons, List.getElem?_cons_succ, hi, Nat.add_right_comm, Nat.add_assoc]
    · rw [okValues_ok, List.length_cons, List.getElem?_cons_succ, hm]
    · rw [fill, writeAt_cons_succ, hwrite]
      rfl

theorem getElem?_fill_error {outcomes : List (Except ε μ)} {i : Nat} {e : ε}
    (h : outcomes[i]? = some (.error e)) (replies : List ρ) :
    (fill reject answer outcomes replies)[i]? = some (some (reject e)) := by
  induction outcomes, replies using fill.induct generalizing i with
  | case1 replies => cases h
  | case2 replies e' outcomes ih =>
    cases i with
    | zero =>
      cases h
      rfl
    | succ i => exact ih h
  | case3 m outcomes ih =>
    cases i with
    | zero => cases h
    | succ i => exact ih h
  | case4 m outcomes r replies ih =>
    cases i with
    | zero => cases h
    | succ i => exact ih h

/-- A value is answered by the reply whose number is that of the values before it. -/
theorem getElem?_fill_ok {outcomes : List (Except ε μ)} {replies : List ρ} {i : Nat} {m : μ} {r : ρ}
    (h : outcomes[i]? = some (.ok m)) (hr : replies[(okValues (outcomes.take i)).length]? = some r) :
    (fill reject answer outcomes replies)[i]? = some (some (answer m r)) := by
  induction outcomes, replies using fill.induct generalizing i with
  | case1 replies => cases h
  | case2 replies e outcomes ih =>
    cases i with
    | zero => cases h
    | succ i => exact ih h hr
  | case3 m' outcomes ih => cases hr
  | case4 m' outcomes r' replies ih =>
    cases i with
    | zero =>
      cases h
      cases hr
      rfl
    | succ i => exact ih h hr

end Fill

end Keplor.Lib
