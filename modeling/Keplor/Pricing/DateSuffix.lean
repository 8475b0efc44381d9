import Keplor.Pricing.Index

/-!
# The grammar of `strip_date_suffix`

On ASCII names the slices of `strip_date_suffix` fall between characters, and what it accepts is a
grammar: something, then a date in one of two forms. The forms overlap in the name but exclude each
other, since each has a dash where the other has a digit. `stripDateSuffix_grammar` states the
equivalence; every turn takes a date off, so taking dates off comes to an end.
-/

set_option autoImplicit false

namespace Keplor.Pricing

open Keplor.Core Keplor.Lib Keplor.Lib.Utf8

/-- `-dddd-dd-dd` -/
def IsIsoDate (t : List Char) : Prop :=
  ∃ y m d : List Char, t = '-' :: (y ++ '-' :: (m ++ '-' :: d)) ∧
    y.length = 4 ∧ m.length = 2 ∧ d.length = 2 ∧ ∀ c ∈ y ++ m ++ d, c.isDigit = true

/-- `-dddddddd` -/
def IsCompactDate (t : List Char) : Prop :=
  ∃ n : List Char, t = '-' :: n ∧ n.length = 8 ∧ ∀ c ∈ n, c.isDigit = true

theorem IsIsoDate.isDateSuffix {t : List Char} (h : IsIsoDate t) : IsDateSuffix t := by
  obtain ⟨y, m, d, rfl, hy, hm, hd, hdigits⟩ := h
  exact .iso hy hm hd hdigits

theorem IsCompactDate.isDateSuffix {t : List Char} (h : IsCompactDate t) : IsDateSuffix t := by
  obtain ⟨n, rfl, hn, hdigits⟩ := h
  exact .compact hn hdigits

theorem isDateSuffix_iff {t : List Char} : IsDateSuffix t ↔ IsIsoDate t ∨ IsCompactDate t := by
  refine ⟨fun h => ?_, fun h => h.elim IsIsoDate.isDateSuffix IsCompactDate.isDateSuffix⟩
  cases h with
  | iso hy hm hd hdigits => exact .inl ⟨_, _, _, rfl, hy, hm, hd, hdigits⟩
  | compact hn hdigits => exact .inr ⟨_, rfl, hn, hdigits⟩

/-! ## The tests accept nothing else -/

/-- Digits in bytes are digits in characters. -/
theorem isDigit_of_allDigits {s : List Char} (h : allDigits s = true) (hascii : IsAscii s) :
    ∀ c ∈ s, c.isDigit = true := by
  intro c hc
  have hval : c.val.toNat ≤ 127 := hascii c hc
  have hbyte : UInt8.ofNat c.val.toNat ∈ encode s := by
    refine List.mem_flatMap.mpr ⟨c, hc, ?_⟩
    simp only [String.utf8EncodeChar, if_pos hval, List.mem_singleton]
  have hdigit := List.all_eq_true.mp h _ hbyte
  have hnat : (UInt8.ofNat c.val.toNat).toNat = c.val.toNat := by
    rw [UInt8.toNat_ofNat']
    omega
  rw [Bool.and_eq_true, decide_eq_true_eq, decide_eq_true_eq, UInt8.le_iff_toNat_le,
    UInt8.le_iff_toNat_le, hnat] at hdigit
  rw [Char.isDigit, Bool.and_eq_true, decide_eq_true_eq, decide_eq_true_eq]
  exact ⟨UInt32.le_iff_toNat_le.mpr hdigit.1, UInt32.le_iff_toNat_le.mpr hdigit.2⟩

theorem isCompactDate_of_test {t : List Char} (hascii : IsAscii t) (hlen : t.length = 9)
    (h : isCompactSuffix t = some true) : IsCompactDate t := by
  unfold isCompactSuffix at h
  cases hd : startsWithDash t with
  | false => simp [hd] at h
  | true =>
    obtain ⟨n, rfl⟩ := startsWithDash_iff.mp hd
    have hslice : sliceFrom ('-' :: n) 1 = some n := sliceFrom_append ['-'] n
    have hdigits : allDigits n = true := by simpa [hd, hslice] using h
    exact ⟨n, rfl, by simpa using hlen,
      isDigit_of_allDigits hdigits fun c hc => hascii c (List.mem_cons_of_mem _ hc)⟩

/-- A test that gives up early has passed when nothing made it give up. -/
theorem guarded_eq_true {p : Prop} [Decidable p] {x : Option Bool} :
    (if p then pure false else x) = some true ↔ ¬ p ∧ x = some true := by
  split <;> simp [*]

/-- A slice of an ASCII text is cut by counting characters. -/
theorem slice_of_isAscii {t : List Char} (hascii : IsAscii t) {i j : Nat} (hij : i ≤ j)
    (hj : j ≤ t.length) : slice t i j = some ((t.take j).drop i) := by
  have hsplit : t = (t.take j).take i ++ (t.take j).drop i ++ t.drop j := by
    rw [List.take_append_drop, List.take_append_drop]
  have htake : IsAscii (t.take j) := fun c hc => hascii c (List.mem_of_mem_take hc)
  have hfirst : byteLen ((t.take j).take i) = i := by
    rw [byteLen_of_isAscii fun c hc => htake c (List.mem_of_mem_take hc), List.length_take,
      List.length_take]
    omega
  have hsecond : byteLen ((t.take j).drop i) = j - i := by
    rw [byteLen_of_isAscii fun c hc => htake c (List.mem_of_mem_drop hc), List.length_drop,
      List.length_take]
    omega
  refine slice_eq_some hsplit hfirst ?_
  rw [hfirst, hsecond]
  omega

theorem isIsoDate_of_test {t : List Char} (hascii : IsAscii t) (hlen : t.length = 11)
    (h : isIsoSuffix t = some true) : IsIsoDate t := by
  match t, hlen with
  | [c₀, c₁, c₂, c₃, c₄, c₅, c₆, c₇, c₈, c₉, c₁₀], _ =>
    have hpart : ∀ s : List Char, s ⊆ [c₀, c₁, c₂, c₃, c₄, c₅, c₆, c₇, c₈, c₉, c₁₀] → IsAscii s :=
      fun s hs c hc => hascii c (hs hc)
    have hyear : slice [c₀, c₁, c₂, c₃, c₄, c₅, c₆, c₇, c₈, c₉, c₁₀] 1 5 = some [c₁, c₂, c₃, c₄] :=
      slice_of_isAscii hascii (by omega) (by simp)
    have hmonth : slice [c₀, c₁, c₂, c₃, c₄, c₅, c₆, c₇, c₈, c₉, c₁₀] 6 8 = some [c₆, c₇] :=
      slice_of_isAscii hascii (by omega) (by simp)
    have hday : slice [c₀, c₁, c₂, c₃, c₄, c₅, c₆, c₇, c₈, c₉, c₁₀] 9 11 = some [c₉, c₁₀] :=
      slice_of_isAscii hascii (by omega) (by simp)
    obtain ⟨b, hb, hdash⟩ := dash_at (a := [c₀, c₁, c₂, c₃, c₄]) (c := c₅)
      (s := [c₆, c₇, c₈, c₉, c₁₀]) (byteLen_of_isAscii (hpart _ (by simp)))
    obtain ⟨b', hb', hdash'⟩ := dash_at (a := [c₀, c₁, c₂, c₃, c₄, c₅, c₆, c₇]) (c := c₈)
      (s := [c₉, c₁₀]) (byteLen_of_isAscii (hpart _ (by simp)))
    simp only [List.cons_append, List.nil_append, List.length_cons, List.length_nil] at hb hb'
    unfold isIsoSuffix at h
    rw [hyear, hmonth, hday, hb, hb'] at h
    simp only [Option.bind_eq_bind, Option.bind_some] at h
    simp only [guarded_eq_true, Bool.not_eq_true', Bool.not_eq_false, ne_eq, not_not] at h
    obtain ⟨hstart, hy, hb5, hm, hb8, hd⟩ := h
    obtain ⟨r, hr⟩ := startsWithDash_iff.mp hstart
    have hfirst : c₀ = '-' := (List.cons.inj hr).1
    have hy' := isDigit_of_allDigits hy (hpart _ (by simp))
    have hm' := isDigit_of_allDigits hm (hpart _ (by simp))
    have hd' := isDigit_of_allDigits (Option.some.inj hd) (hpart _ (by simp))
    rw [hfirst, hdash.mp hb5, hdash'.mp hb8]
    refine ⟨[c₁, c₂, c₃, c₄], [c₆, c₇], [c₉, c₁₀], rfl, rfl, rfl, rfl, fun c hc => ?_⟩
    rcases List.mem_append.mp hc with hc | hc
    · rcases List.mem_append.mp hc with hc | hc
      exacts [hy' c hc, hm' c hc]
    · exact hd' c hc

/-! ## The grammar -/

theorem stripDateSuffix_eq_some {s b : List Char} (hascii : IsAscii s)
    (h : stripDateSuffix s = some (some b)) : b ≠ [] ∧ ∃ t, IsDateSuffix t ∧ s = b ++ t := by
  have htail : ∀ t, s = b ++ t → IsAscii t := by
    rintro t rfl c hc
    exact hascii c (List.mem_append_right b hc)
  unfold stripDateSuffix at h
  obtain ⟨found, hiso, h⟩ := Option.bind_eq_some_iff.mp h
  cases found with
  | some base =>
    cases h
    obtain ⟨hb, t, hs, hlen, htest⟩ := stripSuffix_eq_some hiso
    rw [byteLen_of_isAscii (htail t hs)] at hlen
    exact ⟨hb, t, (isIsoDate_of_test (htail t hs) hlen htest).isDateSuffix, hs⟩
  | none =>
    obtain ⟨hb, t, hs, hlen, htest⟩ := stripSuffix_eq_some h
    rw [byteLen_of_isAscii (htail t hs)] at hlen
    exact ⟨hb, t, (isCompactDate_of_test (htail t hs) hlen htest).isDateSuffix, hs⟩

/-- The two forms exclude each other: the dash before the day would be a digit. -/
theorem not_iso_and_compact {b b' t t' : List Char} (h : b ++ t = b' ++ t') (ht : IsIsoDate t)
    (ht' : IsCompactDate t') : False := by
  obtain ⟨y, m, d, rfl, -, -, hd, -⟩ := ht
  obtain ⟨n, rfl, hn, hdigits⟩ := ht'
  have hday : '-' :: d <:+ b ++ '-' :: (y ++ '-' :: (m ++ '-' :: d)) :=
    ⟨b ++ '-' :: (y ++ '-' :: m), by simp⟩
  have hcompact : n <:+ b ++ '-' :: (y ++ '-' :: (m ++ '-' :: d)) :=
    ⟨b' ++ ['-'], by rw [h]; simp⟩
  have hsuffix : '-' :: d <:+ n :=
    List.suffix_of_suffix_length_le hday hcompact (by simp [hd, hn])
  exact absurd (hdigits '-' (hsuffix.subset List.mem_cons_self)) (by decide)

/-- What is left is shorter, in whatever characters. -/
theorem length_lt_of_stripDateSuffix {s b : List Char} (h : stripDateSuffix s = some (some b)) :
    b <+: s ∧ b.length < s.length := by
  have harm : ∀ {n : Nat} {test : List Char → Option Bool}, 0 < n →
      stripSuffix s n test = some (some b) → b <+: s ∧ b.length < s.length := by
    intro n test hn h
    obtain ⟨-, t, rfl, hlen, -⟩ := stripSuffix_eq_some h
    have ht : t ≠ [] := by
      rintro rfl
      simp at hlen
      omega
    have := List.length_pos_iff.mpr ht
    exact ⟨List.prefix_append b t, by rw [List.length_append]; omega⟩
  unfold stripDateSuffix at h
  obtain ⟨found, hiso, h⟩ := Option.bind_eq_some_iff.mp h
  cases found with
  | some base =>
    cases h
    exact harm (by omega) hiso
  | none => exact harm (by omega) h

/-- On ASCII names `strip_date_suffix` accepts its grammar and nothing else, in one form at most; what
it returns is a proper prefix, and taking dates off any name comes to an end. -/
theorem stripDateSuffix_grammar :
    (∀ s : List Char, IsAscii s →
      (∀ b, stripDateSuffix s = some (some b) ↔
        b ≠ [] ∧ ((∃ t, IsIsoDate t ∧ s = b ++ t) ∨ ∃ t, IsCompactDate t ∧ s = b ++ t)) ∧
      (stripDateSuffix s = some none ↔
        ¬ ∃ b, b ≠ [] ∧ ((∃ t, IsIsoDate t ∧ s = b ++ t) ∨ ∃ t, IsCompactDate t ∧ s = b ++ t)) ∧
      ¬ ((∃ b t, IsIsoDate t ∧ s = b ++ t) ∧ ∃ b t, IsCompactDate t ∧ s = b ++ t) ∧
      ∀ b, stripDateSuffix s = some (some b) → b <+: s ∧ b ≠ s) ∧
    WellFounded fun b s : List Char => stripDateSuffix s = some (some b) := by
  refine ⟨fun s hascii => ?_, ?_⟩
  · have hiff : ∀ b, stripDateSuffix s = some (some b) ↔
        b ≠ [] ∧ ((∃ t, IsIsoDate t ∧ s = b ++ t) ∨ ∃ t, IsCompactDate t ∧ s = b ++ t) := by
      intro b
      rw [← exists_or]
      simp only [← or_and_right, ← isDateSuffix_iff]
      refine ⟨stripDateSuffix_eq_some hascii, ?_⟩
      rintro ⟨hb, t, ht, rfl⟩
      exact stripDateSuffix_append hb (fun c hc => hascii c (List.mem_append_left t hc)) ht
    refine ⟨hiff, ?_, ?_, fun b h => ?_⟩
    · -- no slice aborts, so the answer is one of the two
      obtain ⟨r, hr⟩ := Option.isSome_iff_exists.mp (stripDateSuffix_of_isAscii hascii)
      simp only [← hiff, hr]
      cases r <;> simp
    · rintro ⟨⟨b, t, ht, hs⟩, b', t', ht', hs'⟩
      exact not_iso_and_compact (hs.symm.trans hs') ht ht'
    · obtain ⟨hpre, hlt⟩ := length_lt_of_stripDateSuffix h
      exact ⟨hpre, fun heq => by rw [heq] at hlt; exact Nat.lt_irrefl _ hlt⟩
  · exact Subrelation.wf (fun h => (length_lt_of_stripDateSuffix h).2)
      (InvImage.wf List.length Nat.lt_wfRel.wf)

theorem stripDateSuffix_grammar_sonnet :
    IsAscii "claude-sonnet-4-20250514".toList ∧
    ((stripDateSuffix "claude-sonnet-4-20250514".toList = some (some "claude-sonnet-4".toList)) ↔
      "claude-sonnet-4".toList ≠ [] ∧
        ((∃ t, IsIsoDate t ∧ "claude-sonnet-4-20250514".toList = "claude-sonnet-4".toList ++ t) ∨
          ∃ t, IsCompactDate t ∧
            "claude-sonnet-4-20250514".toList = "claude-sonnet-4".toList ++ t)) := by
  have hascii : IsAscii "claude-sonnet-4-20250514".toList := by simp [IsAscii]
  exact ⟨hascii, (stripDateSuffix_grammar.1 _ hascii).1 _⟩

end Keplor.Pricing
