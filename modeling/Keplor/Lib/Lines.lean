import Mathlib.Data.List.Basic
import Mathlib.Tactic.Common

/-!
# Text as lines

A reader of lines cuts its input at every newline, drops a carriage return in front of one, and
takes what stands after the last newline as one more line when it is not empty. The input is a list
over any alphabet, so that the same facts serve characters and bytes.

`lines_append_of_ended` is the rule behind every append-only log: what is appended after a newline
is read as if it stood alone. Without that newline the first appended line is read together with the
unfinished one.
-/

set_option autoImplicit false

namespace Keplor.Lib

variable {α : Type} [DecidableEq α]

/-- A line without the carriage return before its newline. -/
def dropCr (cr : α) (l : List α) : List α := if l.getLast? = some cr then l.dropLast else l

/-- The lines of a text, `cur` being the reversed beginning of the current one. -/
def linesFrom (nl cr : α) : List α → List α → List (List α)
  | cur, [] => if cur = [] then [] else [cur.reverse]
  | cur, c :: s =>
      if c = nl then dropCr cr cur.reverse :: linesFrom nl cr [] s else linesFrom nl cr (c :: cur) s

/-- The lines of a text. -/
def lines (nl cr : α) (s : List α) : List (List α) := linesFrom nl cr [] s

/-- The text is empty or ends with a newline. -/
def Ended (nl : α) (s : List α) : Prop := s = [] ∨ s.getLast? = some nl

instance (nl : α) (s : List α) : Decidable (Ended nl s) :=
  inferInstanceAs (Decidable (_ ∨ _))

section

variable {nl cr : α}

@[simp] theorem lines_nil : lines nl cr [] = [] := by simp [lines, linesFrom]

theorem linesFrom_append_newline (cur a b : List α) (h : nl ∉ a) :
    linesFrom nl cr cur (a ++ nl :: b) = dropCr cr (cur.reverse ++ a) :: lines nl cr b := by
  induction a generalizing cur with
  | nil => simp [linesFrom, lines]
  | cons c a ih =>
    simp only [List.mem_cons, not_or] at h
    rw [List.cons_append, linesFrom, if_neg (Ne.symm h.1), ih _ h.2]
    simp

/-- A line without a newline in it, then its newline, is one line. -/
theorem lines_append_newline (a b : List α) (h : nl ∉ a) :
    lines nl cr (a ++ nl :: b) = dropCr cr a :: lines nl cr b := by
  rw [lines, linesFrom_append_newline [] a b h]
  simp

theorem linesFrom_append_of_ended (cur s t : List α) (h : s.getLast? = some nl) :
    linesFrom nl cr cur (s ++ t) = linesFrom nl cr cur s ++ lines nl cr t := by
  induction s generalizing cur with
  | nil => exact absurd h (by simp)
  | cons c s ih =>
    cases s with
    | nil =>
      simp only [List.getLast?_singleton, Option.some.injEq] at h
      subst h
      simp [linesFrom, lines]
    | cons d s =>
      rw [List.getLast?_cons_cons] at h
      rw [List.cons_append, linesFrom, linesFrom]
      by_cases hc : c = nl
      · rw [if_pos hc, if_pos hc, ih [] h]
        rfl
      · rw [if_neg hc, if_neg hc, ih (c :: cur) h]

/-- What follows an ended text is read as if it stood alone. -/
theorem lines_append_of_ended {s : List α} (h : Ended nl s) (t : List α) :
    lines nl cr (s ++ t) = lines nl cr s ++ lines nl cr t := by
  rcases h with rfl | h
  · simp
  · exact linesFrom_append_of_ended [] s t h

theorem dropCr_of_notMem {l : List α} (h : cr ∉ l) : dropCr cr l = l := by
  rw [dropCr, if_neg]
  intro he
  exact h (List.mem_of_getLast? he)

/-- A file of whole lines is read line by line. -/
theorem lines_flatMap {β : Type} (f : β → List α) (xs : List β) (hnl : ∀ x ∈ xs, nl ∉ f x)
    (hcr : ∀ x ∈ xs, cr ∉ f x) :
    lines nl cr (xs.flatMap fun x => f x ++ [nl]) = xs.map f := by
  induction xs with
  | nil => simp
  | cons x xs ih =>
    have ih := ih (fun y hy => hnl y (List.mem_cons_of_mem x hy))
      fun y hy => hcr y (List.mem_cons_of_mem x hy)
    rw [List.flatMap_cons, List.append_assoc, List.singleton_append,
      lines_append_newline _ _ (hnl x (by simp)), dropCr_of_notMem (hcr x (by simp)), ih]
    rfl

end

end Keplor.Lib
