import Keplor.Lib.Hex
import Keplor.Store.RowRoundTrip

/-!
# Which texts are read as a trace id

`hex_to_trace_id` counts bytes, then cuts the text every two bytes and gives each piece to
`u8::from_str_radix`. That is a strict reader of 32 digits up to two details: the cut may fall inside
a character, where slicing aborts, and the integer parser takes a plus sign before a single digit.

The pieces are read from the left and the first one that is no byte ends the loop, so a cut inside a
character only matters when every piece before it was read. `stopsCleanly` says that on the text
alone, and `strictAt_iff` is the answer for every text.
-/

set_option autoImplicit false

namespace Keplor.Store

open Keplor.Lib Keplor.Core Keplor.Lib.Json Keplor.Lib.Utf8

/-! ## The texts -/

/-- The text of a trace id: 32 digits of either case. -/
def IsTraceText (s : String) : Prop :=
  s.toList.length = 32 ∧ ∀ c ∈ s.toList, c.isHexDigit = true

instance (s : String) : Decidable (IsTraceText s) :=
  decidable_of_iff (s.toList.length = 32 ∧ s.toList.all Char.isHexDigit = true)
    (by rw [IsTraceText, List.all_eq_true])

/-- On `s` the reader is strict and total: a trace id for 32 digits, printed again in lower case,
and an error for any other text. -/
def StrictAt (s : String) : Prop :=
  ((∃ t, hexToTraceId s = pure t) ↔ IsTraceText s) ∧
  (∀ t, hexToTraceId s = pure t → traceIdToHex t = String.ofList (s.toList.map Char.toLower)) ∧
  (¬ IsTraceText s → ∃ e, hexToTraceId s = throw e)

/-- Two characters the integer parser takes for a byte: two digits, or a sign and a digit. -/
def isBytePair (x y : Char) : Bool := (x.isHexDigit || x == '+') && y.isHexDigit

/-- There is a first piece of two bytes that is no byte, and it ends between two characters. -/
def stopsCleanly : List Char → Bool
  | [] => false
  | [x] => x.utf8Size == 2
  | x :: y :: rest =>
      if isBytePair x y then stopsCleanly rest
      else x.utf8Size == 2 || (x.utf8Size == 1 && y.utf8Size == 1)

/-! ## One piece -/

section Piece

variable {x y : Char} {pair rest : List Char}

theorem utf8Size_of_isBytePair (h : isBytePair x y = true) : x.utf8Size = 1 ∧ y.utf8Size = 1 := by
  rw [isBytePair, Bool.and_eq_true, Bool.or_eq_true] at h
  obtain ⟨hx | hx, hy⟩ := h
  · exact ⟨utf8Size_of_isHexDigit hx, utf8Size_of_isHexDigit hy⟩
  · rw [eq_of_beq hx]
    exact ⟨by decide, utf8Size_of_isHexDigit hy⟩

theorem isSome_u8FromHex_pair (x y : Char) : (u8FromHex [x, y]).isSome = isBytePair x y := by
  by_cases hplus : x = '+'
  · subst hplus
    rw [isBytePair, ← isSome_hexVal y]
    cases hy : hexVal y with
    | none => simp [u8FromHex, hy]
    | some v => simp [u8FromHex, hy]
  · rw [isBytePair, ← isSome_hexVal x, ← isSome_hexVal y]
    cases hx : hexVal x with
    | none => simp [u8FromHex, hplus, hx]
    | some v =>
      cases hy : hexVal y with
      | none => simp [u8FromHex, hplus, hx, hy]
      | some w => simp [u8FromHex, hplus, hx, hy]

/-- No character of two bytes is a digit or a sign. -/
theorem u8FromHex_wide (h : x.utf8Size = 2) : u8FromHex [x] = none := by
  have hplus : x ≠ '+' := by
    rintro rfl
    exact absurd h (by decide)
  have hval : hexVal x = none := by
    rw [hexVal_eq_none_iff, Bool.eq_false_iff]
    intro hx
    rw [utf8Size_of_isHexDigit hx] at h
    exact absurd h (by decide)
  simp [u8FromHex, hplus, hval]

theorem piece_cases (h : byteLen pair = 2) :
    (∃ x, pair = [x] ∧ x.utf8Size = 2) ∨
      ∃ x y, pair = [x, y] ∧ x.utf8Size = 1 ∧ y.utf8Size = 1 := by
  match pair with
  | [] => exact absurd h (by decide)
  | [x] => exact .inl ⟨x, rfl, h⟩
  | [x, y] =>
    have hx := utf8Size_pos x
    have hy := utf8Size_pos y
    simp only [byteLen_cons, byteLen_nil] at h
    exact .inr ⟨x, y, rfl, by omega, by omega⟩
  | x :: y :: z :: rest =>
    have hx := utf8Size_pos x
    have hy := utf8Size_pos y
    have hz := utf8Size_pos z
    simp only [byteLen_cons] at h
    omega

/-- A piece that is a byte is passed over, any other one ends the search. -/
theorem stopsCleanly_append (h : byteLen pair = 2) :
    stopsCleanly (pair ++ rest) = ((u8FromHex pair).isNone || stopsCleanly rest) := by
  obtain ⟨x, rfl, hx⟩ | ⟨x, y, rfl, hx, hy⟩ := piece_cases h
  · rw [u8FromHex_wide hx]
    cases rest with
    | nil => simp [stopsCleanly, hx]
    | cons y rest =>
      have hpair : isBytePair x y = false := by
        rw [Bool.eq_false_iff]
        intro hpair
        rw [(utf8Size_of_isBytePair hpair).1] at hx
        exact absurd hx (by decide)
      simp [stopsCleanly, hpair, hx]
  · have hsome := isSome_u8FromHex_pair x y
    rw [← Option.not_isSome, hsome]
    cases hpair : isBytePair x y with
    | false => simp [stopsCleanly, hpair, hx, hy]
    | true => simp [stopsCleanly, hpair]

/-- The text begins with a whole piece, whether the search passes it over or ends there. -/
theorem exists_piece_of_stopsCleanly {s : List Char} (h : stopsCleanly s = true) :
    ∃ pair rest, s = pair ++ rest ∧ byteLen pair = 2 := by
  match s with
  | [] => cases h
  | [x] => exact ⟨[x], [], rfl, eq_of_beq h⟩
  | x :: y :: rest =>
    cases hpair : isBytePair x y with
    | true =>
      obtain ⟨hx, hy⟩ := utf8Size_of_isBytePair hpair
      exact ⟨[x, y], rest, rfl, by simp [hx, hy]⟩
    | false =>
      rw [stopsCleanly, hpair, if_neg Bool.false_ne_true, Bool.or_eq_true, Bool.and_eq_true] at h
      obtain hx | ⟨hx, hy⟩ := h
      · exact ⟨[x], y :: rest, rfl, by simp [eq_of_beq hx]⟩
      · exact ⟨[x, y], rest, rfl, by simp [eq_of_beq hx, eq_of_beq hy]⟩

end Piece

/-! ## The loop -/

section Loop

variable {s : String} {done rest : List Char} {i n : Nat}

/-- Two digits are read as the byte that prints as them, in lower case. -/
theorem u8FromHex_digits {x y : Char} (hx : x.isHexDigit = true) (hy : y.isHexDigit = true) :
    ∃ b, u8FromHex [x, y] = some b ∧ byteToHex b = [x.toLower, y.toLower] := by
  have hplus : x ≠ '+' := by
    rintro rfl
    exact absurd hx (by decide)
  rw [← isSome_hexVal] at hx hy
  obtain ⟨v, hv⟩ := Option.isSome_iff_exists.mp hx
  obtain ⟨w, hw⟩ := Option.isSome_iff_exists.mp hy
  obtain ⟨hv16, hxv⟩ := hexDigit_of_hexVal hv
  obtain ⟨hw16, hyw⟩ := hexDigit_of_hexVal hw
  have hnat : (UInt8.ofNat (v * 16 + w)).toNat = v * 16 + w :=
    UInt8.toNat_ofNat_of_lt' (show v * 16 + w < 256 by omega)
  have hhigh : (v * 16 + w) / 16 = v := by omega
  have hlow : (v * 16 + w) % 16 = w := by omega
  exact ⟨UInt8.ofNat (v * 16 + w), by simp [u8FromHex, hplus, hv, hw],
    by rw [byteToHex, hnat, hhigh, hlow, hxv, hyw]⟩

theorem length_of_hexBytes {bs : List UInt8} (h : hexBytes s i n = pure bs) : bs.length = n := by
  induction n generalizing i bs with
  | zero => rw [← Fallible.pure_inj h, List.length_nil]
  | succ n ih =>
    obtain ⟨piece, -, h⟩ := Fallible.bind_eq_pure h
    obtain ⟨b, -, h⟩ := Fallible.bind_eq_pure h
    obtain ⟨bytes, hbytes, h⟩ := Fallible.bind_eq_pure h
    rw [← Fallible.pure_inj h, List.length_cons, ih hbytes]

/-- Digits are read to the end, and print as themselves in lower case. -/
theorem hexBytes_of_isHexDigit (hs : s.toList = done ++ rest) (hdone : byteLen done = i * 2)
    (hlen : rest.length = n * 2) (hdigits : ∀ c ∈ rest, c.isHexDigit = true) :
    ∃ bs, hexBytes s i n = pure bs ∧ bs.flatMap byteToHex = rest.map Char.toLower := by
  induction n generalizing i done rest with
  | zero =>
    rw [Nat.zero_mul, List.length_eq_zero_iff] at hlen
    exact ⟨[], rfl, by rw [hlen]; rfl⟩
  | succ n ih =>
    match rest with
    | [] =>
      rw [List.length_nil] at hlen
      omega
    | [x] =>
      rw [List.length_singleton] at hlen
      omega
    | x :: y :: rest =>
      have hx := hdigits x (by simp)
      have hy := hdigits y (by simp)
      have hpair : byteLen [x, y] = 2 := byteLen_of_isHexDigit (by simp [hx, hy])
      have hcut : s.toList = done ++ [x, y] ++ rest := by simp [hs]
      have hnext : byteLen (done ++ [x, y]) = (i + 1) * 2 := by
        rw [byteLen_append, hdone, hpair, Nat.succ_mul]
      obtain ⟨b, hb, hprint⟩ := u8FromHex_digits hx hy
      obtain ⟨bs, hbs, hprints⟩ := ih hcut hnext (by simp at hlen; omega)
        fun c hc => hdigits c (by simp [hc])
      refine ⟨b :: bs, ?_, ?_⟩
      · rw [hexBytes_succ hcut hdone hpair, hb, Fallible.orError_some, pure_bind, hbs, pure_bind]
      · rw [List.flatMap_cons, hprint, hprints]
        rfl

/-- The loop answers with an error only at a piece of whole characters. -/
theorem stopsCleanly_of_hexBytes {e : MappingError} (hs : s.toList = done ++ rest)
    (hdone : byteLen done = i * 2) (h : hexBytes s i n = throw e) : stopsCleanly rest = true := by
  induction n generalizing i done rest with
  | zero => cases h
  | succ n ih =>
    rcases Fallible.bind_eq_throw h with h | ⟨piece, hslice, h⟩
    · exact absurd h Fallible.ofPartial_ne_throw
    obtain ⟨before, after, hcut, hbefore, hend⟩ :=
      of_slice_eq_some (Fallible.ofPartial_eq_pure hslice)
    have hpiece : byteLen piece = 2 := by omega
    obtain ⟨rfl, rfl⟩ := append_inj (hs.symm.trans (hcut.trans (List.append_assoc _ _ _)))
      (hdone.trans hbefore.symm)
    rw [stopsCleanly_append hpiece]
    cases hbyte : u8FromHex piece with
    | none => rfl
    | some b =>
      rw [hbyte, Fallible.orError_some, pure_bind] at h
      rcases Fallible.bind_eq_throw h with h | ⟨bytes, -, h⟩
      · exact ih hcut (by rw [byteLen_append, hbefore, hpiece, Nat.succ_mul]) h
      · cases h

/-- A text that stops cleanly is refused, as long as the loop gets to its end. -/
theorem hexBytes_of_stopsCleanly (hs : s.toList = done ++ rest) (hdone : byteLen done = i * 2)
    (hlen : byteLen rest = n * 2) (h : stopsCleanly rest = true) :
    hexBytes s i n = throw (.invalidTraceId s) := by
  induction n generalizing i done rest with
  | zero =>
    rw [eq_nil_of_byteLen (hlen.trans (Nat.zero_mul 2))] at h
    cases h
  | succ n ih =>
    obtain ⟨piece, rest, rfl, hpiece⟩ := exists_piece_of_stopsCleanly h
    have hcut : s.toList = done ++ piece ++ rest := by rw [hs, List.append_assoc]
    rw [hexBytes_succ hcut hdone hpiece]
    cases hbyte : u8FromHex piece with
    | none => rfl
    | some b =>
      rw [stopsCleanly_append hpiece, hbyte] at h
      rw [byteLen_append, hpiece] at hlen
      rw [Fallible.orError_some, pure_bind,
        ih hcut (by rw [byteLen_append, hdone, hpiece, Nat.succ_mul]) (by omega) h]
      rfl

end Loop

/-! ## The reader -/

section Reader

variable {s : String}

theorem byteLen_of_isTraceText (h : IsTraceText s) : byteLen s.toList = 32 := by
  rw [byteLen_of_isHexDigit h.2, h.1]

/-- Past the length test the reader is its loop. -/
theorem hexToTraceId_of_byteLen (h : byteLen s.toList = 32) :
    hexToTraceId s = (do
      let bytes ← hexBytes s 0 16
      if h : bytes.length = 16 then return ⟨bytes, h⟩ else throw (.invalidTraceId s)) := by
  rw [hexToTraceId, if_neg (not_not.mpr h)]

theorem hexToTraceId_of_isTraceText (h : IsTraceText s) :
    ∃ t, hexToTraceId s = pure t ∧
      traceIdToHex t = String.ofList (s.toList.map Char.toLower) := by
  have hloop : ∃ bs, hexBytes s 0 16 = pure bs ∧
      bs.flatMap byteToHex = s.toList.map Char.toLower :=
    hexBytes_of_isHexDigit (List.nil_append _).symm rfl h.1 h.2
  obtain ⟨bs, hbs, hprint⟩ := hloop
  have hlen := length_of_hexBytes hbs
  refine ⟨⟨bs, hlen⟩, ?_, congrArg String.ofList hprint⟩
  rw [hexToTraceId_of_byteLen (byteLen_of_isTraceText h), hbs, pure_bind, dif_pos hlen]

theorem hexToTraceId_of_stopsCleanly (h : byteLen s.toList = 32)
    (hstops : stopsCleanly s.toList = true) : hexToTraceId s = throw (.invalidTraceId s) := by
  have hloop : hexBytes s 0 16 = throw (.invalidTraceId s) :=
    hexBytes_of_stopsCleanly (List.nil_append _).symm rfl h hstops
  rw [hexToTraceId_of_byteLen h, hloop]
  rfl

theorem stopsCleanly_of_hexToTraceId {e : MappingError} (h : byteLen s.toList = 32)
    (hthrow : hexToTraceId s = throw e) : stopsCleanly s.toList = true := by
  rw [hexToTraceId_of_byteLen h] at hthrow
  rcases Fallible.bind_eq_throw hthrow with hthrow | ⟨bs, hbs, hthrow⟩
  · exact stopsCleanly_of_hexBytes (List.nil_append _).symm rfl hthrow
  · rw [dif_pos (length_of_hexBytes hbs)] at hthrow
    cases hthrow

theorem strictAt_of_isTraceText (h : IsTraceText s) : StrictAt s := by
  obtain ⟨t, ht, hprint⟩ := hexToTraceId_of_isTraceText h
  refine ⟨iff_of_true ⟨t, ht⟩ h, ?_, fun hnot => absurd h hnot⟩
  intro u hu
  rw [← Fallible.pure_inj (ht.symm.trans hu)]
  exact hprint

theorem strictAt_of_throw {e : MappingError} (h : hexToTraceId s = throw e) : StrictAt s := by
  have hnone : ∀ t, hexToTraceId s ≠ pure t := by
    intro t ht
    rw [h] at ht
    cases ht
  have htext : ¬ IsTraceText s := by
    intro htext
    obtain ⟨t, ht, -⟩ := hexToTraceId_of_isTraceText htext
    exact hnone t ht
  exact ⟨iff_of_false (fun ⟨t, ht⟩ => hnone t ht) htext, fun t ht => absurd ht (hnone t),
    fun _ => ⟨e, h⟩⟩

/-- The reader is strict and total on exactly these texts: the wrong number of bytes, digits only,
or a first piece that is no byte and ends between two characters. -/
theorem strictAt_iff (s : String) :
    StrictAt s ↔ byteLen s.toList ≠ 32 ∨ (∀ c ∈ s.toList, c.isHexDigit = true) ∨
      stopsCleanly s.toList = true := by
  constructor
  · intro h
    by_cases hlen : byteLen s.toList = 32
    · by_cases hdigits : ∀ c ∈ s.toList, c.isHexDigit = true
      · exact .inr (.inl hdigits)
      · obtain ⟨e, he⟩ := h.2.2 fun htext => hdigits htext.2
        exact .inr (.inr (stopsCleanly_of_hexToTraceId hlen he))
    · exact .inl hlen
  · intro h
    by_cases hlen : byteLen s.toList = 32
    · rcases h with h | h | h
      · exact absurd hlen h
      · exact strictAt_of_isTraceText ⟨by rw [← byteLen_of_isHexDigit h, hlen], h⟩
      · exact strictAt_of_throw (hexToTraceId_of_stopsCleanly hlen h)
    · exact strictAt_of_throw (if_pos hlen)

/-- A sign is read as part of a byte, and a character across two pieces aborts the reader. -/
theorem not_strictAt_sign_or_wide :
    ¬ StrictAt "+f000000000000000000000000000000" ∧
      ¬ StrictAt "aé00000000000000000000000000000" := by
  constructor
  · intro h
    have hread : (hexToTraceId "+f000000000000000000000000000000").value?.isSome := by decide +kernel
    have htext : ¬ IsTraceText "+f000000000000000000000000000000" := by decide +kernel
    exact htext (h.1.mp (Fallible.exists_pure_of_value? hread))
  · intro h
    have habort : ¬ (hexToTraceId "aé00000000000000000000000000000").Returns := by decide +kernel
    have htext : ¬ IsTraceText "aé00000000000000000000000000000" := by decide +kernel
    obtain ⟨e, he⟩ := h.2.2 htext
    rw [he] at habort
    exact habort (Fallible.returns_throw e)

end Reader

end Keplor.Store
