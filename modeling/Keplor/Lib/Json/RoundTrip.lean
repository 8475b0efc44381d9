import Keplor.Lib.Json.Text
import Mathlib.Data.List.TakeDrop

/-!
# Reading back what was printed

`parse_print` says exactly what reading a printed tree gives: nothing when the tree is deeper than
the reader's limit, and otherwise the tree with every double replaced by what its own spelling reads
as (`reread`). The proof is one induction over the tree; everything it needs about *where a token
ends* is in `Follow`, because a number is the only token whose end is decided by what comes after
it.

`print_printable` is the other fact about the printed text that its users need: no control character
stands in it, so it is one line.
-/

set_option autoImplicit false

namespace Keplor.Lib.Json

/-! ## Strings -/

theorem hexVal_hexDigit : ∀ n, n < 16 → hexVal (hexDigit n) = some n := by decide

theorem unescape_of_shortEscape {c e : Char} (h : shortEscape c = some e) :
    unescape e = some c ∧ e ≠ 'u' := by
  unfold shortEscape at h
  split at h <;> simp only [Option.some.injEq, reduceCtorEq] at h <;> subst h <;> decide

theorem ne_of_shortEscape_none {c : Char} (h : shortEscape c = none) : c ≠ '"' ∧ c ≠ '\\' := by
  refine ⟨?_, ?_⟩ <;> rintro rfl <;> exact absurd h (by decide)

theorem parseStr_short {c e : Char} (r : List Char) (h : unescape e = some c) (hu : e ≠ 'u') :
    parseStr ('\\' :: e :: r) = (parseStr r).map fun p => (c :: p.1, p.2) := by
  rw [parseStr.eq_def]
  split
  · rename_i he; cases he
  · rename_i he; cases he
  · rename_i he; cases he; exact absurd rfl hu
  · rename_i he; cases he; rw [h]
  · rename_i hne he; cases he; exact absurd rfl (hne e r rfl)

theorem parseStr_plain {c : Char} (r : List Char) (hq : c ≠ '"') (hb : c ≠ '\\')
    (hlt : ¬c.toNat < 0x20) :
    parseStr (c :: r) = (parseStr r).map fun p => (c :: p.1, p.2) := by
  rw [parseStr.eq_def]
  split <;> simp_all

/-- A control character comes back from its four hexadecimal digits. -/
theorem parseStr_control {c : Char} (r : List Char) (hlt : c.toNat < 0x20) :
    parseStr ('\\' :: 'u' :: '0' :: '0' :: hexDigit (c.toNat / 16) :: hexDigit (c.toNat % 16) :: r)
      = (parseStr r).map fun p => (c :: p.1, p.2) := by
  have hhex : hex4 '0' '0' (hexDigit (c.toNat / 16)) (hexDigit (c.toNat % 16)) = some c.toNat := by
    have hzero : hexVal '0' = some 0 := by decide
    simp only [hex4, hzero, hexVal_hexDigit _ (show c.toNat / 16 < 16 by omega),
      hexVal_hexDigit _ (show c.toNat % 16 < 16 by omega), Option.bind_eq_bind, Option.bind_some,
      Option.pure_def, Option.some.injEq]
    omega
  simp only [parseStr, hhex]
  rw [if_pos (Or.inl (by omega)), Char.ofNat_toNat]

/-- One escaped character is read as that character. -/
theorem parseStr_escape (c : Char) (r : List Char) :
    parseStr (escape c ++ r) = (parseStr r).map fun p => (c :: p.1, p.2) := by
  unfold escape
  cases hs : shortEscape c with
  | some e =>
    obtain ⟨hun, hu⟩ := unescape_of_shortEscape hs
    exact parseStr_short r hun hu
  | none =>
    obtain ⟨hq, hb⟩ := ne_of_shortEscape_none hs
    by_cases hlt : c.toNat < 0x20
    · simpa [hlt] using parseStr_control r hlt
    · simpa [hlt] using parseStr_plain r hq hb hlt

theorem parseStr_flatMap (cs r : List Char) :
    parseStr (cs.flatMap escape ++ '"' :: r) = some (cs, r) := by
  induction cs with
  | nil => simp [parseStr]
  | cons c cs ih =>
    rw [List.flatMap_cons, List.append_assoc, parseStr_escape, ih]
    rfl

/-- The body of a printed literal, read from after its opening quote. -/
theorem parseStr_printStr (s : String) (r : List Char) :
    parseStr ((s.toList.flatMap escape ++ ['"']) ++ r) = some (s.toList, r) := by
  rw [List.append_assoc]
  exact parseStr_flatMap s.toList r

/-! ## Numbers -/

/-- What may follow a number token without being read into it. -/
def Follow (r : List Char) : Prop :=
  ∀ c s, r = c :: s → c.isDigit = false ∧ c ≠ '.' ∧ c ≠ 'e' ∧ c ≠ 'E'

theorem Follow.nil : Follow [] := by intro c s h; cases h

theorem Follow.cons {c : Char} {r : List Char}
    (h : c.isDigit = false ∧ c ≠ '.' ∧ c ≠ 'e' ∧ c ≠ 'E') : Follow (c :: r) := by
  intro d s he
  cases he
  exact h

theorem span_digits {ds r : List Char} (hd : ∀ c ∈ ds, c.isDigit = true)
    (hr : ∀ c s, r = c :: s → c.isDigit = false) :
    (ds ++ r).span Char.isDigit = (ds, r) := by
  induction ds with
  | nil =>
    cases r with
    | nil => rfl
    | cons c s => simp [List.span_eq_takeWhile_dropWhile, hr c s rfl]
  | cons c ds ih =>
    have ih := ih fun x hx => hd x (by simp [hx])
    simp only [List.span_eq_takeWhile_dropWhile, Prod.mk.injEq] at ih ⊢
    simp [hd c (by simp), ih.1, ih.2]

theorem scanDigits_append {ds r : List Char} (hd : Lexeme.Digits ds)
    (hr : ∀ c s, r = c :: s → c.isDigit = false) : scanDigits (ds ++ r) = some (ds, r) := by
  rw [scanDigits, span_digits hd.2 hr]
  cases ds with
  | nil => exact absurd rfl hd.1
  | cons c ds => rfl

theorem scanExp_append {e : Option ExpPart} {r : List Char}
    (hm : ∀ p, e = some p → p.mark = 'e' ∨ p.mark = 'E')
    (hs : ∀ p, e = some p → p.sign = [] ∨ p.sign = ['+'] ∨ p.sign = ['-'])
    (hd : ∀ p, e = some p → Lexeme.Digits p.digits) (hr : Follow r) :
    scanExp (Lexeme.expText e ++ r) = some (e, r) := by
  cases e with
  | none =>
    cases r with
    | nil => rfl
    | cons c s =>
      obtain ⟨-, -, h1, h2⟩ := hr c s rfl
      simp [Lexeme.expText, scanExp, h1, h2]
  | some p =>
    obtain ⟨mark, sign, digits⟩ := p
    have hdig := hd _ rfl
    have hsign : scanSign (sign ++ (digits ++ r)) = (sign, digits ++ r) := by
      obtain ⟨d, ds, rfl⟩ := List.exists_cons_of_ne_nil hdig.1
      have hdd : d.isDigit = true := hdig.2 d (by simp)
      rcases hs _ rfl with h | h | h <;> simp only at h <;> subst h
      · simp only [List.nil_append, List.cons_append]
        unfold scanSign
        split
        · rename_i he; simp only [List.cons.injEq] at he; simp [he.1] at hdd
        · rename_i he; simp only [List.cons.injEq] at he; simp [he.1] at hdd
        · rfl
      · rfl
      · rfl
    have hscan := scanDigits_append hdig fun c s he => (hr c s he).1
    simp only [Lexeme.expText, List.cons_append, List.append_assoc, scanExp, hsign, hscan,
      Option.map_some]
    rw [if_pos (hm _ rfl)]

/-- What an exponent starts with is no digit and no point. -/
theorem expText_follow {e : Option ExpPart} {r : List Char}
    (hm : ∀ p, e = some p → p.mark = 'e' ∨ p.mark = 'E') (hr : Follow r) :
    ∀ c s, Lexeme.expText e ++ r = c :: s → c.isDigit = false ∧ c ≠ '.' := by
  intro c s he
  cases e with
  | none => exact ⟨(hr c s he).1, (hr c s he).2.1⟩
  | some p =>
    simp only [Lexeme.expText, List.cons_append, List.cons.injEq] at he
    rcases hm p rfl with h | h <;> rw [h] at he <;> rw [← he.1] <;> decide

theorem scanFrac_append {f : Option (List Char)} {r : List Char}
    (hd : ∀ ds, f = some ds → Lexeme.Digits ds)
    (hr : ∀ c s, r = c :: s → c.isDigit = false ∧ c ≠ '.') :
    scanFrac (Lexeme.fracText f ++ r) = some (f, r) := by
  cases f with
  | none =>
    cases r with
    | nil => rfl
    | cons c s =>
      simp only [Lexeme.fracText, List.nil_append]
      unfold scanFrac
      split
      · rename_i he; simp only [List.cons.injEq] at he; exact absurd he.1 (hr c s rfl).2
      · rfl
  | some ds =>
    simp only [Lexeme.fracText, List.cons_append, scanFrac,
      scanDigits_append (hd ds rfl) fun c s he => (hr c s he).1, Option.map_some]

theorem scanNeg_text (t : Lexeme) (r : List Char) (h : Lexeme.Digits t.int) :
    scanNeg (t.text ++ r)
      = (t.neg, t.int ++ (Lexeme.fracText t.frac ++ (Lexeme.expText t.exp ++ r))) := by
  obtain ⟨neg, int, frac, exp⟩ := t
  obtain ⟨d, ds, hint⟩ := List.exists_cons_of_ne_nil h.1
  simp only at hint
  subst hint
  have hd : d.isDigit = true := h.2 d (by simp)
  cases neg with
  | true => simp [Lexeme.text, scanNeg]
  | false =>
    simp only [Lexeme.text, Bool.false_eq_true, if_false, List.nil_append, List.cons_append,
      List.append_assoc]
    unfold scanNeg
    split
    · rename_i he; simp only [List.cons.injEq] at he; simp [he.1] at hd
    · rfl

/-- A token is read back from its text, whatever follows that is not part of it. -/
theorem scanNumber_text {t : Lexeme} (h : t.WF) {r : List Char} (hr : Follow r) :
    scanNumber (t.text ++ r) = some (t, r) := by
  have hexp := expText_follow (r := r) h.mark hr
  have hfrac : ∀ c s, Lexeme.fracText t.frac ++ (Lexeme.expText t.exp ++ r) = c :: s →
      c.isDigit = false := by
    intro c s he
    cases hf : t.frac with
    | none => rw [hf] at he; exact (hexp c s he).1
    | some ds =>
      rw [hf] at he
      simp only [Lexeme.fracText, List.cons_append, List.cons.injEq] at he
      rw [← he.1]
      decide
  have hzero : ¬(t.int.head? = some '0' ∧ t.int.length ≠ 1) := by
    rintro ⟨hh, hl⟩
    obtain ⟨ds, hds⟩ := List.head?_eq_some_iff.mp hh
    rw [hds, h.noLeadingZero ds hds] at hl
    exact hl rfl
  simp only [scanNumber, scanNeg_text t r h.int, scanDigits_append h.int hfrac,
    Option.bind_eq_bind, Option.bind_some, if_neg hzero, scanFrac_append h.frac hexp,
    scanExp_append h.mark h.sign h.exp hr, Option.pure_def]

theorem toDigits_noLeadingZero (n : Nat) : ∀ ds, Nat.toDigits 10 n = '0' :: ds → ds = [] := by
  induction n using Nat.strong_induction_on with
  | _ n ih =>
    intro ds h
    by_cases hn : n < 10
    · rw [Nat.toDigits_of_lt_base hn] at h
      simp only [List.cons.injEq] at h
      exact h.2.symm
    · rw [Nat.toDigits_of_base_le (by omega) (by omega)] at h
      -- the quotient is positive, so its own digits are not the single zero
      cases hq : Nat.toDigits 10 (n / 10) with
      | nil => exact absurd hq Nat.toDigits_ne_nil
      | cons c cs =>
        rw [hq] at h
        simp only [List.cons_append, List.cons.injEq] at h
        obtain ⟨rfl, -⟩ := h
        have hcs := ih (n / 10) (by omega) cs hq
        subst hcs
        have hval := Nat.ofDigitChars_ten_toDigits (n := n / 10)
        rw [hq] at hval
        have : n / 10 = 0 := by rw [← hval]; decide
        omega

theorem intLexeme_wf (i : JsonInt) : (intLexeme i).WF where
  int := ⟨Nat.toDigits_ne_nil, fun _ hc => Nat.isDigit_of_mem_toDigits (by omega) (by omega) hc⟩
  noLeadingZero := toDigits_noLeadingZero _
  frac := fun ds h => absurd h (by simp [intLexeme])
  mark := fun e h => absurd h (by simp [intLexeme])
  sign := fun e h => absurd h (by simp [intLexeme])
  exp := fun e h => absurd h (by simp [intLexeme])

theorem ofLexeme_intLexeme (ff : FloatFormat) (i : JsonInt) :
    ofLexeme ff (intLexeme i) = some (.int i) := by
  obtain ⟨v, lo, hi⟩ := i
  have hdig : Nat.ofDigitChars 10 (intLexeme ⟨v, lo, hi⟩).int 0 = v.natAbs :=
    Nat.ofDigitChars_ten_toDigits
  have hint : (intLexeme ⟨v, lo, hi⟩).isInt = true := rfl
  simp only [ofLexeme, hdig, hint, if_true]
  by_cases hneg : v < 0
  · have h1 : 0 < v.natAbs ∧ v.natAbs ≤ 9223372036854775808 := by omega
    have h2 : -(v.natAbs : Int) = v := by omega
    simp only [intLexeme, hneg, decide_true, if_true, dif_pos h1, h2]
  · have h1 : v.natAbs < 18446744073709551616 := by omega
    have h2 : (v.natAbs : Int) = v := by omega
    simp only [intLexeme, hneg, decide_false, Bool.false_eq_true, if_false, dif_pos h1, JsonInt.ofNat, h2]

theorem ofLexeme_float (ff : FloatFormat) (x : F64) :
    ofLexeme ff (ff.print x) = (ff.read (ff.print x)).map .float := by
  simp [ofLexeme, ff.print_notInt x]

/-- A number token starts with a digit or a minus sign. -/
theorem text_head {t : Lexeme} (h : t.WF) :
    ∃ c s, t.text = c :: s ∧ (c.isDigit = true ∨ c = '-') := by
  obtain ⟨d, ds, hint⟩ := List.exists_cons_of_ne_nil h.int.1
  cases hn : t.neg with
  | true => exact ⟨'-', t.int ++ (Lexeme.fracText t.frac ++ Lexeme.expText t.exp),
      by simp [Lexeme.text, hn], Or.inr rfl⟩
  | false =>
    refine ⟨d, ds ++ (Lexeme.fracText t.frac ++ Lexeme.expText t.exp), by simp [Lexeme.text, hn, hint],
      Or.inl (h.int.2 d (by simp [hint]))⟩

theorem isWs_of_numHead {c : Char} (h : c.isDigit = true ∨ c = '-') : isWs c = false := by
  rcases h with h | rfl
  · simp only [isWs, Bool.or_eq_false_iff, beq_eq_false_iff_ne]
    refine ⟨⟨⟨?_, ?_⟩, ?_⟩, ?_⟩ <;> rintro rfl <;> exact absurd h (by decide)
  · decide

/-- At a digit or a minus sign the reader takes the number branch. -/
theorem parseValue_number {ff : FloatFormat} {fuel depth : Nat} {c : Char} {s r : List Char}
    {t : Lexeme} (hc : c.isDigit = true ∨ c = '-') (hscan : scanNumber (c :: s) = some (t, r)) :
    parseValue ff (fuel + 1) depth (c :: s) = (ofLexeme ff t).map fun j => (j, r) := by
  have hne : ∀ d : Char, (d.isDigit = false ∧ d ≠ '-') → c ≠ d := by
    rintro d ⟨h1, h2⟩ rfl
    rcases hc with h | h
    · rw [h1] at h; exact absurd h (by simp)
    · exact h2 h
  rw [parseValue]
  simp only [skipWs, isWs_of_numHead hc, Bool.false_eq_true, if_false]
  split
  · rename_i he; exact absurd (List.cons.inj he).1 (hne _ (by decide))
  · rename_i he; exact absurd (List.cons.inj he).1 (hne _ (by decide))
  · rename_i he; exact absurd (List.cons.inj he).1 (hne _ (by decide))
  · rename_i he; exact absurd (List.cons.inj he).1 (hne _ (by decide))
  · rename_i he; exact absurd (List.cons.inj he).1 (hne _ (by decide))
  · rename_i he; exact absurd (List.cons.inj he).1 (hne _ (by decide))
  · simp [hscan]

theorem parseValue_lexeme {ff : FloatFormat} {fuel depth : Nat} {t : Lexeme} (h : t.WF)
    {r : List Char} (hr : Follow r) :
    parseValue ff (fuel + 1) depth (t.text ++ r) = (ofLexeme ff t).map fun j => (j, r) := by
  obtain ⟨c, s, ht, hc⟩ := text_head h
  have hscan := scanNumber_text h hr
  rw [ht] at hscan ⊢
  exact parseValue_number hc hscan

/-! ## Trees -/

mutual

/-- The tree with every double replaced by what its spelling reads as. -/
def reread (ff : FloatFormat) : Json → Option Json
  | .float x => (ff.read (ff.print x)).map .float
  | .arr xs => (rereadList ff xs).map .arr
  | .obj ms => (rereadMembers ff ms).map .obj
  | j => some j
termination_by structural j => j

/-- Element by element. -/
def rereadList (ff : FloatFormat) : List Json → Option (List Json)
  | [] => some []
  | x :: xs => (reread ff x).bind fun y => (rereadList ff xs).map (y :: ·)
termination_by structural xs => xs

/-- The value of one member. -/
def rereadMember (ff : FloatFormat) : String × Json → Option (String × Json)
  | (k, v) => (reread ff v).map (k, ·)
termination_by structural m => m

/-- Member by member. -/
def rereadMembers (ff : FloatFormat) : List (String × Json) → Option (List (String × Json))
  | [] => some []
  | m :: ms => (rereadMember ff m).bind fun n => (rereadMembers ff ms).map (n :: ·)
termination_by structural ms => ms

end

/-- What a reader limited to `depth` makes of a value printed in front of `r`. -/
def readBack {α β : Type} (depth limit : Nat) (v : Option α) (r : β) : Option (α × β) :=
  if depth ≤ limit then v.map fun a => (a, r) else none

/-- The first character of a printed tree is neither blank nor a closing bracket. -/
theorem print_head (ff : FloatFormat) (j : Json) :
    ∃ c s, print ff j = c :: s ∧ isWs c = false ∧ c ≠ ']' := by
  have hlex : ∀ t : Lexeme, t.WF → ∃ c s, t.text = c :: s ∧ isWs c = false ∧ c ≠ ']' := by
    intro t ht
    obtain ⟨c, s, he, hc⟩ := text_head ht
    refine ⟨c, s, he, isWs_of_numHead hc, ?_⟩
    rintro rfl
    exact absurd hc (by decide)
  cases j with
  | null => exact ⟨_, _, rfl, by decide, by decide⟩
  | bool b => cases b <;> exact ⟨_, _, rfl, by decide, by decide⟩
  | int i => exact hlex _ (intLexeme_wf i)
  | float x => exact hlex _ (ff.print_wf x)
  | str s => exact ⟨_, _, rfl, by decide, by decide⟩
  | arr xs => cases xs <;> exact ⟨_, _, rfl, by decide, by decide⟩
  | obj ms => cases ms <;> exact ⟨_, _, rfl, by decide, by decide⟩

theorem print_ne_nil (ff : FloatFormat) (j : Json) : print ff j ≠ [] := by
  obtain ⟨c, s, h, -⟩ := print_head ff j
  simp [h]

theorem skipWs_cons {c : Char} (h : isWs c = false) (s : List Char) :
    skipWs (c :: s) = c :: s := by
  simp [skipWs, h]

/-- The induction's statement for one tree. -/
def ReadsBack (ff : FloatFormat) (j : Json) : Prop :=
  ∀ fuel limit r, (print ff j).length ≤ fuel → Follow r →
    parseValue ff fuel limit (print ff j ++ r) = readBack (depth j) limit (reread ff j) r

theorem printElems_head (ff : FloatFormat) (xs : List Json) (r : List Char) :
    Follow (printElems ff xs ++ r) := by
  cases xs <;> exact Follow.cons (by decide)

theorem printMembers_head (ff : FloatFormat) (ms : List (String × Json)) (r : List Char) :
    Follow (printMembers ff ms ++ r) := by
  cases ms <;> exact Follow.cons (by decide)

theorem length_printElems_pos (ff : FloatFormat) (xs : List Json) :
    0 < (printElems ff xs).length := by
  cases xs <;> simp [printElems]

/-- Reading one value and then the rest is reading the two together. -/
theorem readBack_bind {α β γ δ : Type} (a b limit : Nat) (v : Option α) (w : Option β)
    (f : α → β → γ) (r r' : δ) :
    readBack (max a b) limit (v.bind fun x => w.map (f x)) r
      = (readBack a limit v r').bind fun p =>
          (readBack b limit w r).map fun q => (f p.1 q.1, q.2) := by
  by_cases ha : a ≤ limit
  · by_cases hb : b ≤ limit
    · cases v <;> cases w <;> simp [readBack, ha, hb]
    · cases v <;> simp [readBack, hb]
  · simp [readBack, ha]

/-- The elements of a printed array, from the first one on. -/
theorem parseElems_print {ff : FloatFormat} {xs : List Json} :
    ∀ {x : Json}, (∀ y ∈ x :: xs, ReadsBack ff y) → ∀ (fuel limit : Nat) (r : List Char),
      (print ff x ++ printElems ff xs).length ≤ fuel →
      parseElems ff fuel limit (print ff x ++ (printElems ff xs ++ r))
        = readBack (depthList (x :: xs)) limit (rereadList ff (x :: xs)) r := by
  induction xs with
  | nil =>
    intro x ih fuel limit r hfuel
    rw [List.length_append] at hfuel
    have hpos := length_printElems_pos ff []
    obtain ⟨n, rfl⟩ : ∃ n, fuel = n + 1 := ⟨fuel - 1, by omega⟩
    rw [parseElems, ih x (by simp) n limit _ (by omega) (printElems_head ff [] r)]
    by_cases hd : depth x ≤ limit
    · cases hx : reread ff x <;>
        simp [readBack, hd, hx, rereadList, depthList, printElems, skipWs, isWs]
    · simp [readBack, hd, depthList]
  | cons z zs ihx =>
    intro x ih fuel limit r hfuel
    rw [List.length_append] at hfuel
    have hpos := length_printElems_pos ff (z :: zs)
    obtain ⟨n, rfl⟩ : ∃ n, fuel = n + 1 := ⟨fuel - 1, by omega⟩
    have hlen : (print ff z ++ printElems ff zs).length ≤ n := by
      simp only [printElems, List.cons_append, List.length_cons] at hfuel
      omega
    have hrest := ihx (x := z) (fun y hy => ih y (List.mem_cons_of_mem x hy)) n limit r hlen
    rw [parseElems, ih x (by simp) n limit _ (by omega) (printElems_head ff (z :: zs) r),
      depthList, rereadList, readBack_bind _ _ _ _ _ _ r (printElems ff (z :: zs) ++ r), ← hrest]
    by_cases hd : depth x ≤ limit
    · cases reread ff x <;> simp [readBack, hd, printElems, skipWs, isWs]
    · simp [readBack, hd]

/-- A printed key and its colon. -/
theorem parseMembers_key {ff : FloatFormat} {n limit : Nat} (k : String) (s : List Char) :
    parseMembers ff (n + 1) limit (printStr k ++ ':' :: s)
      = match parseValue ff n limit s with
        | none => none
        | some (v, r) =>
          match skipWs r with
          | ',' :: r' => (parseMembers ff n limit r').map fun p => ((k, v) :: p.1, p.2)
          | '}' :: r' => some ([(k, v)], r')
          | _ => none := by
  apply parseMembers_of_key
  · exact skipWs_cons (c := '"') rfl _
  · exact parseStr_printStr k (':' :: s)
  · exact skipWs_cons (c := ':') rfl s

/-- The members of a printed object, from the first one on. -/
theorem parseMembers_print {ff : FloatFormat} {ms : List (String × Json)} :
    ∀ {m : String × Json}, (∀ p ∈ m :: ms, ReadsBack ff p.2) →
      ∀ (fuel limit : Nat) (r : List Char),
      (printMember ff m ++ printMembers ff ms).length ≤ fuel →
      parseMembers ff fuel limit (printMember ff m ++ (printMembers ff ms ++ r))
        = readBack (depthMembers (m :: ms)) limit (rereadMembers ff (m :: ms)) r := by
  induction ms with
  | nil =>
    rintro ⟨k, v⟩ ih fuel limit r hfuel
    simp only [List.length_append, printMember, List.length_cons] at hfuel
    obtain ⟨n, rfl⟩ : ∃ n, fuel = n + 1 := ⟨fuel - 1, by omega⟩
    rw [printMember, List.append_assoc, List.cons_append, parseMembers_key,
      ih (k, v) (by simp) n limit _ (by simp only; omega) (printMembers_head ff [] r)]
    by_cases hd : depth v ≤ limit
    · cases hv : reread ff v <;>
        simp [readBack, hd, hv, rereadMembers, rereadMember, depthMembers, depthMember,
          printMembers, skipWs, isWs]
    · simp [readBack, hd, depthMembers, depthMember]
  | cons q qs ihx =>
    rintro ⟨k, v⟩ ih fuel limit r hfuel
    simp only [List.length_append, printMember, List.length_cons] at hfuel
    obtain ⟨n, rfl⟩ : ∃ n, fuel = n + 1 := ⟨fuel - 1, by omega⟩
    have hlen : (printMember ff q ++ printMembers ff qs).length ≤ n := by
      simp only [printMembers, List.cons_append, List.length_cons] at hfuel
      omega
    have hrest := ihx (m := q) (fun p hp => ih p (List.mem_cons_of_mem _ hp)) n limit r hlen
    rw [printMember, List.append_assoc, List.cons_append, parseMembers_key,
      ih (k, v) (by simp) n limit _ (by simp only; omega) (printMembers_head ff (q :: qs) r),
      depthMembers, rereadMembers, readBack_bind _ _ _ _ _ _ r (printMembers ff (q :: qs) ++ r),
      ← hrest]
    by_cases hd : depth v ≤ limit
    · cases hv : reread ff v <;>
        simp [readBack, hd, hv, depthMember, rereadMember, printMembers, skipWs, isWs]
    · simp [readBack, hd, depthMember]

/-- A bracket costs one level on both sides. -/
theorem readBack_map {α β δ : Type} (a limit : Nat) (v : Option α) (f : α → β) (r : δ) :
    (readBack a limit v r).map (fun p => (f p.1, p.2))
      = readBack (a + 1) (limit + 1) (v.map f) r := by
  by_cases ha : a ≤ limit
  · cases v <;> simp [readBack, ha]
  · simp [readBack, ha]

theorem parseValue_arr {ff : FloatFormat} {n limit : Nat} {c : Char} (s : List Char)
    (hws : isWs c = false) (hc : c ≠ ']') :
    parseValue ff (n + 1) (limit + 1) ('[' :: c :: s)
      = (parseElems ff n limit (c :: s)).map fun p => (.arr p.1, p.2) := by
  have hopen := skipWs_cons (c := '[') rfl
  simp only [parseValue, hopen, skipWs_cons hws]
  split
  · omega
  · split
    · rename_i he; exact absurd (List.cons.inj he).1 hc
    · rfl

theorem parseValue_obj {ff : FloatFormat} {n limit : Nat} {c : Char} (s : List Char)
    (hws : isWs c = false) (hc : c ≠ '}') :
    parseValue ff (n + 1) (limit + 1) ('{' :: c :: s)
      = (parseMembers ff n limit (c :: s)).map fun p => (.obj p.1, p.2) := by
  have hopen := skipWs_cons (c := '{') rfl
  simp only [parseValue, hopen, skipWs_cons hws]
  split
  · omega
  · split
    · rename_i he; exact absurd (List.cons.inj he).1 hc
    · rfl

/-- Every tree reads back, up to the reader's depth and its reading of doubles. -/
theorem readsBack (ff : FloatFormat) (j : Json) : ReadsBack ff j := by
  have hpos : ∀ (k : Json) (fuel : Nat), (print ff k).length ≤ fuel → ∃ n, fuel = n + 1 := by
    intro k fuel hfuel
    have := List.length_pos_iff.mpr (print_ne_nil ff k)
    exact ⟨fuel - 1, by omega⟩
  induction j using Json.induct with
  | null =>
    intro fuel limit r hfuel hr
    obtain ⟨n, rfl⟩ := hpos _ _ hfuel
    simp [print, parseValue, readBack, depth, reread, skipWs, isWs]
  | bool b =>
    intro fuel limit r hfuel hr
    obtain ⟨n, rfl⟩ := hpos _ _ hfuel
    cases b <;> simp [print, parseValue, readBack, depth, reread, skipWs, isWs]
  | int i =>
    intro fuel limit r hfuel hr
    obtain ⟨n, rfl⟩ := hpos _ _ hfuel
    rw [print, parseValue_lexeme (intLexeme_wf i) hr, ofLexeme_intLexeme]
    simp [readBack, depth, reread]
  | float x =>
    intro fuel limit r hfuel hr
    obtain ⟨n, rfl⟩ := hpos _ _ hfuel
    rw [print, parseValue_lexeme (ff.print_wf x) hr, ofLexeme_float]
    simp [readBack, depth, reread]
  | str s =>
    intro fuel limit r hfuel hr
    obtain ⟨n, rfl⟩ := hpos _ _ hfuel
    have hquote := skipWs_cons (c := '"') rfl
    simp only [print, printStr, List.cons_append, parseValue, hquote, parseStr_printStr s r]
    simp [readBack, depth, reread]
  | arr xs ih =>
    intro fuel limit r hfuel hr
    obtain ⟨n, rfl⟩ := hpos _ _ hfuel
    cases limit with
    | zero => cases xs <;> simp [print, parseValue, readBack, depth, skipWs, isWs]
    | succ limit =>
      cases xs with
      | nil => simp [print, parseValue, readBack, depth, depthList, reread, rereadList, skipWs, isWs]
      | cons x xs =>
        have hlen : (print ff x ++ printElems ff xs).length ≤ n := by
          simp only [print, List.cons_append, List.length_cons] at hfuel
          omega
        have helems := parseElems_print ih n limit r hlen
        obtain ⟨c, s, hx, hws, hc⟩ := print_head ff x
        simp only [print, hx, List.cons_append, List.append_assoc] at helems ⊢
        rw [parseValue_arr _ hws hc, helems, readBack_map]
        rfl
  | obj ms ih =>
    intro fuel limit r hfuel hr
    obtain ⟨n, rfl⟩ := hpos _ _ hfuel
    cases limit with
    | zero => cases ms <;> simp [print, parseValue, readBack, depth, skipWs, isWs]
    | succ limit =>
      cases ms with
      | nil =>
        simp [print, parseValue, readBack, depth, depthMembers, reread, rereadMembers, skipWs, isWs]
      | cons m ms =>
        have hlen : (printMember ff m ++ printMembers ff ms).length ≤ n := by
          simp only [print, List.cons_append, List.length_cons] at hfuel
          omega
        have hmembers := parseMembers_print ih n limit r hlen
        obtain ⟨k, v⟩ := m
        simp only [print, printMember, printStr, List.cons_append, List.append_assoc] at hmembers ⊢
        rw [parseValue_obj _ (by decide) (by decide), hmembers, readBack_map]
        rfl

/-- Reading a printed tree: nothing beyond the depth limit, the reread tree within it. -/
theorem parse_print (ff : FloatFormat) (limit : Nat) (j : Json) :
    parse ff limit (print ff j) = if depth j ≤ limit then reread ff j else none := by
  have h := readsBack ff j (2 * (print ff j).length + 1) limit [] (by omega) Follow.nil
  rw [List.append_nil] at h
  rw [parse, h]
  by_cases hd : depth j ≤ limit
  · cases hj : reread ff j <;> simp [readBack, hd, skipWs]
  · simp [readBack, hd]

/-- The round trip holds exactly for the trees within the limit whose doubles all read back. -/
theorem parse_print_eq_some {ff : FloatFormat} {limit : Nat} {j : Json} :
    parse ff limit (print ff j) = some j ↔ depth j ≤ limit ∧ reread ff j = some j := by
  rw [parse_print]
  by_cases hd : depth j ≤ limit <;> simp [hd]

/-! ## Rereading keeps the order of keys -/

theorem rereadList_of_mem {ff : FloatFormat} {xs ys : List Json} (h : rereadList ff xs = some ys) :
    ∀ y ∈ ys, ∃ x ∈ xs, reread ff x = some y := by
  induction xs generalizing ys with
  | nil => cases h; simp
  | cons x xs ih =>
    rw [rereadList] at h
    obtain ⟨z, hz, h⟩ := Option.bind_eq_some_iff.mp h
    obtain ⟨zs, hzs, rfl⟩ := Option.map_eq_some_iff.mp h
    intro y hy
    rcases List.mem_cons.mp hy with rfl | hy
    · exact ⟨x, by simp, hz⟩
    · obtain ⟨w, hw, he⟩ := ih hzs y hy
      exact ⟨w, List.mem_cons_of_mem x hw, he⟩

theorem rereadMembers_of_mem {ff : FloatFormat} {ms ns : List (String × Json)}
    (h : rereadMembers ff ms = some ns) :
    ns.map Prod.fst = ms.map Prod.fst ∧ ∀ n ∈ ns, ∃ m ∈ ms, reread ff m.2 = some n.2 := by
  induction ms generalizing ns with
  | nil => cases h; simp
  | cons m ms ih =>
    obtain ⟨k, v⟩ := m
    rw [rereadMembers, rereadMember] at h
    obtain ⟨p, hp, h⟩ := Option.bind_eq_some_iff.mp h
    obtain ⟨w, hw, rfl⟩ := Option.map_eq_some_iff.mp hp
    obtain ⟨ns, hns, rfl⟩ := Option.map_eq_some_iff.mp h
    obtain ⟨hkeys, hmem⟩ := ih hns
    refine ⟨by simp [hkeys], ?_⟩
    intro n hn
    rcases List.mem_cons.mp hn with rfl | hn
    · exact ⟨(k, v), by simp, hw⟩
    · obtain ⟨q, hq, he⟩ := hmem n hn
      exact ⟨q, List.mem_cons_of_mem _ hq, he⟩

theorem isCanon_reread {ff : FloatFormat} {j : Json} :
    ∀ {w : Json}, IsCanon j → reread ff j = some w → IsCanon w := by
  induction j using Json.induct with
  | null => intro w _ h; cases h; trivial
  | bool b => intro w _ h; cases h; trivial
  | int i => intro w _ h; cases h; trivial
  | float x =>
    intro w _ h
    rw [reread] at h
    obtain ⟨y, -, rfl⟩ := Option.map_eq_some_iff.mp h
    trivial
  | str s => intro w _ h; cases h; trivial
  | arr xs ih =>
    intro w hc h
    rw [reread] at h
    obtain ⟨ys, hys, rfl⟩ := Option.map_eq_some_iff.mp h
    rw [IsCanon, isCanonList_iff] at hc ⊢
    intro y hy
    obtain ⟨x, hx, he⟩ := rereadList_of_mem hys y hy
    exact ih x hx (hc x hx) he
  | obj ms ih =>
    intro w hc h
    rw [reread] at h
    obtain ⟨ns, hns, rfl⟩ := Option.map_eq_some_iff.mp h
    obtain ⟨hkeys, hmem⟩ := rereadMembers_of_mem hns
    rw [IsCanon, isCanonMembers_iff] at hc ⊢
    refine ⟨?_, ?_⟩
    · have hsorted := List.pairwise_map.mpr hc.1
      rw [← hkeys] at hsorted
      exact List.pairwise_map.mp hsorted
    · intro n hn
      obtain ⟨m, hm, he⟩ := hmem n hn
      exact ih m hm (hc.2 m hm) he

/-! ## One line -/

theorem hexDigit_printable : ∀ n, n < 16 → 0x20 ≤ (hexDigit n).toNat := by decide

theorem isDigit_printable {c : Char} (h : c.isDigit = true) : 0x20 ≤ c.toNat := by
  simp only [Char.isDigit, Bool.and_eq_true, decide_eq_true_eq] at h
  have h0 : ('0' : Char).val.toNat ≤ c.val.toNat := h.1
  have h1 : ('0' : Char).val.toNat = 48 := rfl
  have h2 : c.toNat = c.val.toNat := rfl
  omega

theorem escape_printable {c d : Char} (h : d ∈ escape c) : 0x20 ≤ d.toNat := by
  unfold escape at h
  split at h
  · rename_i e he
    simp only [List.mem_cons, List.not_mem_nil, or_false] at h
    rcases h with rfl | rfl
    · decide
    · unfold shortEscape at he
      split at he <;> simp only [Option.some.injEq, reduceCtorEq] at he <;> subst he <;> decide
  · split at h
    · simp only [List.mem_cons, List.not_mem_nil, or_false] at h
      rcases h with rfl | rfl | rfl | rfl | rfl | rfl
      · decide
      · decide
      · decide
      · decide
      · exact hexDigit_printable _ (by omega)
      · exact hexDigit_printable _ (by omega)
    · simp only [List.mem_singleton] at h
      subst h
      omega

theorem printStr_printable (s : String) : ∀ c ∈ printStr s, 0x20 ≤ c.toNat := by
  intro c hc
  simp only [printStr, List.cons_append, List.mem_cons, List.mem_append, List.mem_flatMap,
    List.not_mem_nil, or_false] at hc
  rcases hc with rfl | ⟨a, -, h⟩ | rfl
  · decide
  · exact escape_printable h
  · decide

theorem fracText_printable {f : Option (List Char)}
    (h : ∀ ds, f = some ds → Lexeme.Digits ds) : ∀ c ∈ Lexeme.fracText f, 0x20 ≤ c.toNat := by
  intro c hc
  cases f with
  | none => exact absurd hc (by simp [Lexeme.fracText])
  | some ds =>
    rcases List.mem_cons.mp hc with rfl | hc
    · decide
    · exact isDigit_printable ((h ds rfl).2 c hc)

theorem expText_printable {e : Option ExpPart}
    (hm : ∀ p, e = some p → p.mark = 'e' ∨ p.mark = 'E')
    (hs : ∀ p, e = some p → p.sign = [] ∨ p.sign = ['+'] ∨ p.sign = ['-'])
    (hd : ∀ p, e = some p → Lexeme.Digits p.digits) :
    ∀ c ∈ Lexeme.expText e, 0x20 ≤ c.toNat := by
  intro c hc
  cases e with
  | none => exact absurd hc (by simp [Lexeme.expText])
  | some p =>
    simp only [Lexeme.expText, List.cons_append, List.mem_cons, List.mem_append] at hc
    rcases hc with rfl | hc | hc
    · rcases hm p rfl with h | h <;> rw [h] <;> decide
    · rcases hs p rfl with h | h | h <;> rw [h] at hc <;>
        simp only [List.mem_singleton, List.not_mem_nil] at hc <;> subst hc <;> decide
    · exact isDigit_printable ((hd p rfl).2 c hc)

theorem text_printable {t : Lexeme} (h : t.WF) : ∀ c ∈ t.text, 0x20 ≤ c.toNat := by
  intro c hc
  simp only [Lexeme.text, List.mem_append] at hc
  rcases hc with ((hc | hc) | hc) | hc
  · split at hc
    · rw [List.mem_singleton.mp hc]; decide
    · exact absurd hc (by simp)
  · exact isDigit_printable (h.int.2 c hc)
  · exact fracText_printable h.frac c hc
  · exact expText_printable h.mark h.sign h.exp c hc

theorem printElems_printable {ff : FloatFormat} {xs : List Json}
    (ih : ∀ x ∈ xs, ∀ c ∈ print ff x, 0x20 ≤ c.toNat) :
    ∀ c ∈ printElems ff xs, 0x20 ≤ c.toNat := by
  induction xs with
  | nil => simp [printElems]
  | cons x xs ihx =>
    intro c hc
    simp only [printElems, List.cons_append, List.mem_cons, List.mem_append] at hc
    rcases hc with rfl | hc | hc
    · decide
    · exact ih x (by simp) c hc
    · exact ihx (fun y hy => ih y (List.mem_cons_of_mem x hy)) c hc

theorem printMember_printable {ff : FloatFormat} {m : String × Json}
    (ih : ∀ c ∈ print ff m.2, 0x20 ≤ c.toNat) : ∀ c ∈ printMember ff m, 0x20 ≤ c.toNat := by
  obtain ⟨k, v⟩ := m
  intro c hc
  simp only [printMember, List.mem_append, List.mem_cons] at hc
  rcases hc with hc | rfl | hc
  · exact printStr_printable k c hc
  · decide
  · exact ih c hc

theorem printMembers_printable {ff : FloatFormat} {ms : List (String × Json)}
    (ih : ∀ m ∈ ms, ∀ c ∈ print ff m.2, 0x20 ≤ c.toNat) :
    ∀ c ∈ printMembers ff ms, 0x20 ≤ c.toNat := by
  induction ms with
  | nil => simp [printMembers]
  | cons m ms ihx =>
    intro c hc
    simp only [printMembers, List.cons_append, List.mem_cons, List.mem_append] at hc
    rcases hc with rfl | hc | hc
    · decide
    · exact printMember_printable (ih m (by simp)) c hc
    · exact ihx (fun y hy => ih y (List.mem_cons_of_mem m hy)) c hc

/-- No control character stands in the compact text of a tree. -/
theorem print_printable (ff : FloatFormat) (j : Json) : ∀ c ∈ print ff j, 0x20 ≤ c.toNat := by
  induction j using Json.induct with
  | null => simp [print]
  | bool b => cases b <;> simp [print]
  | int i => exact text_printable (intLexeme_wf i)
  | float x => exact text_printable (ff.print_wf x)
  | str s => exact printStr_printable s
  | arr xs ih =>
    cases xs with
    | nil => simp [print]
    | cons x xs =>
      intro c hc
      simp only [print, List.cons_append, List.mem_cons, List.mem_append] at hc
      rcases hc with rfl | hc | hc
      · decide
      · exact ih x (by simp) c hc
      · exact printElems_printable (fun y hy => ih y (List.mem_cons_of_mem x hy)) c hc
  | obj ms ih =>
    cases ms with
    | nil => simp [print]
    | cons m ms =>
      intro c hc
      simp only [print, List.cons_append, List.mem_cons, List.mem_append] at hc
      rcases hc with rfl | hc | hc
      · decide
      · exact printMember_printable (ih m (by simp)) c hc
      · exact printMembers_printable (fun n hn => ih n (List.mem_cons_of_mem m hn)) c hc

end Keplor.Lib.Json
