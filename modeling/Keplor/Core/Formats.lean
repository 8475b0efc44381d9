import Keplor.Core.Event

/-!
# A concrete set of text forms

`TextFormats` is a parameter of the whole development. This file gives one set that satisfies it:
Crockford's base 32 for ULIDs, dotted decimals and colon-separated groups for addresses, the flag
names joined by bars. It is what the forms look like on ordinary values, and it makes the functions
that take the parameter run.

Two corners are simpler than the crates': an IPv6 address is never abbreviated, and a double is
spelled by its bit pattern. Nothing downstream depends on either.
-/

set_option autoImplicit false

namespace Keplor.Core

namespace Formats

open Keplor.Lib Keplor.Lib.Json

/-! ## Positional digits of a fixed width -/

/-- The `k` low digits of `n` in base `b`, most significant first. -/
def digits (b : Nat) : Nat → Nat → List Nat
  | 0, _ => []
  | k + 1, n => digits b k (n / b) ++ [n % b]

/-- The number a list of digits stands for. -/
def ofDigits (b : Nat) (ds : List Nat) : Nat := ds.foldl (fun n d => n * b + d) 0

theorem length_digits (b k n : Nat) : (digits b k n).length = k := by
  induction k generalizing n with
  | zero => rfl
  | succ k ih => simp [digits, ih]

theorem digits_lt {b : Nat} (hb : 0 < b) (k n : Nat) : ∀ d ∈ digits b k n, d < b := by
  induction k generalizing n with
  | zero => simp [digits]
  | succ k ih =>
    intro d hd
    rcases List.mem_append.mp hd with h | h
    · exact ih _ d h
    · rw [List.mem_singleton.mp h]
      exact Nat.mod_lt _ hb

theorem ofDigits_digits {b : Nat} (k : Nat) :
    ∀ n, n < b ^ k → ofDigits b (digits b k n) = n := by
  induction k with
  | zero =>
    intro n hn
    simp only [Nat.pow_zero, Nat.lt_one_iff] at hn
    simp [ofDigits, digits, hn]
  | succ k ih =>
    intro n hn
    have hq : n / b < b ^ k := Nat.div_lt_of_lt_mul (by rwa [Nat.pow_succ, Nat.mul_comm] at hn)
    have hih := ih (n / b) hq
    rw [ofDigits] at hih ⊢
    rw [digits, List.foldl_append, hih, List.foldl_cons, List.foldl_nil]
    exact Nat.div_add_mod' n b

/-- Digits spelled with `f` and read with `g` come back. -/
theorem mapM_map_digits {γ : Type} {f : Nat → γ} {g : γ → Option Nat} {b : Nat} (hb : 0 < b)
    (h : ∀ d, d < b → g (f d) = some d) (k n : Nat) :
    ((digits b k n).map f).mapM g = some (digits b k n) := by
  have hall := digits_lt hb k n
  generalize digits b k n = ds at hall
  induction ds with
  | nil => rfl
  | cons d ds ih =>
    rw [List.map_cons, List.mapM_cons, h d (hall d (by simp)), ih fun x hx => hall x (by simp [hx])]
    rfl

/-! ## ULIDs -/

/-- Crockford's alphabet. -/
def alphabet : List Char := "0123456789ABCDEFGHJKMNPQRSTVWXYZ".toList

/-- A base-32 digit. -/
def crockford (d : Nat) : Char := alphabet.getD d '0'

/-- The value of a base-32 digit, either case. -/
def crockfordVal (c : Char) : Option Nat := alphabet.idxOf? c.toUpper

theorem crockfordVal_crockford : ∀ d, d < 32 → crockfordVal (crockford d) = some d := by decide

/-- Twenty-six base-32 digits. -/
def ulid : TextFormat EventId where
  print id := String.ofList ((digits 32 26 id.ulid.toNat).map crockford)
  parse s :=
    if s.toList.length = 26 then
      (s.toList.mapM crockfordVal).map fun ds => ⟨BitVec.ofNat 128 (ofDigits 32 ds)⟩
    else none
  parse_print id := by
    have hlt : id.ulid.toNat < 32 ^ 26 := Nat.lt_trans id.ulid.isLt (by decide)
    rw [String.toList_ofList, List.length_map, length_digits, if_pos rfl,
      mapM_map_digits (by decide) crockfordVal_crockford, Option.map_some, ofDigits_digits 26 _ hlt,
      BitVec.ofNat_toNat, BitVec.setWidth_eq]

/-! ## Addresses -/

/-- Four octets in decimal. -/
def printV4 (a : BitVec 32) : List Char :=
  ['.'].intercalate ((digits 256 4 a.toNat).map (Nat.toDigits 10))

/-- Eight groups of four hexadecimal digits. -/
def printV6 (a : BitVec 128) : List Char :=
  [':'].intercalate ((digits 65536 8 a.toNat).map fun g => (digits 16 4 g).map hexDigit)

/-- An octet without leading zeros. -/
def octetVal (s : List Char) : Option Nat := (List.range 256).find? fun n => Nat.toDigits 10 n == s

/-- A group of exactly four hexadecimal digits. -/
def groupVal (s : List Char) : Option Nat :=
  if s.length = 4 then (s.mapM hexVal).map (ofDigits 16) else none

theorem octetVal_toDigits (n : Nat) (h : n < 256) : octetVal (Nat.toDigits 10 n) = some n := by
  have hinj : ∀ m, Nat.toDigits 10 m = Nat.toDigits 10 n → m = n := by
    intro m hm
    rw [← Nat.ofDigitChars_ten_toDigits (n := m), hm, Nat.ofDigitChars_ten_toDigits]
  rw [octetVal, List.find?_range_eq_some]
  refine ⟨by simp, by simpa using h, ?_⟩
  intro m hm
  have hne : m ≠ n := by omega
  simpa using fun he => hne (hinj m he)

theorem groupVal_hex (g : Nat) (h : g < 65536) :
    groupVal ((digits 16 4 g).map hexDigit) = some g := by
  rw [groupVal, List.length_map, length_digits, if_pos rfl,
    mapM_map_digits (by decide) hexVal_hexDigit, Option.map_some, ofDigits_digits 4 g h]

/-- Dotted octets, or groups separated by colons. -/
def parseIp (s : String) : Option IpAddr :=
  let octets := s.toList.splitOn '.'
  if octets.length = 4 then
    (octets.mapM octetVal).map fun ds => .v4 (BitVec.ofNat 32 (ofDigits 256 ds))
  else
    let groups := s.toList.splitOn ':'
    if groups.length = 8 then
      (groups.mapM groupVal).map fun ds => .v6 (BitVec.ofNat 128 (ofDigits 65536 ds))
    else none

theorem notMem_toDigits {c : Char} (h : c.isDigit = false) (n : Nat) : c ∉ Nat.toDigits 10 n := by
  intro hc
  have := Nat.isDigit_of_mem_toDigits (by omega) (by omega) hc
  rw [h] at this
  exact absurd this (by simp)

theorem notMem_hex {c : Char} (h : ∀ d, d < 16 → hexDigit d ≠ c) (k g : Nat) :
    c ∉ (digits 16 k g).map hexDigit := by
  intro hc
  obtain ⟨d, hd, he⟩ := List.mem_map.mp hc
  exact h d (digits_lt (by decide) k g d hd) he

theorem mem_of_mem_intercalate {α : Type} {c : α} {sep : List α} {ls : List (List α)}
    (h : c ∈ sep.intercalate ls) : c ∈ sep ∨ ∃ l ∈ ls, c ∈ l := by
  induction ls with
  | nil => exact absurd h (by simp [List.intercalate])
  | cons x xs ih =>
    cases xs with
    | nil => exact Or.inr ⟨x, by simp, by simpa [List.intercalate] using h⟩
    | cons y ys =>
      have h' : c ∈ x ∨ c ∈ sep ∨ c ∈ sep.intercalate (y :: ys) := by
        simpa [List.intercalate] using h
      rcases h' with h' | h' | h'
      · exact Or.inr ⟨x, by simp, h'⟩
      · exact Or.inl h'
      · rcases ih h' with hs | ⟨l, hl, hc⟩
        · exact Or.inl hs
        · exact Or.inr ⟨l, List.mem_cons_of_mem x hl, hc⟩

theorem splitOn_of_notMem {c : Char} {s : List Char} (h : c ∉ s) : s.splitOn c = [s] := by
  have hsplit := List.splitOn_intercalate c (show ∀ l ∈ [s], c ∉ l by simpa using h) (by simp)
  rwa [List.intercalate_singleton] at hsplit

theorem parseIp_printV4 (a : BitVec 32) :
    parseIp (String.ofList (printV4 a)) = some (.v4 a) := by
  have hsplit : (printV4 a).splitOn '.' = (digits 256 4 a.toNat).map (Nat.toDigits 10) := by
    refine List.splitOn_intercalate '.' ?_ (by simp [digits])
    intro l hl
    obtain ⟨n, -, rfl⟩ := List.mem_map.mp hl
    exact notMem_toDigits (by decide) n
  have hlt : a.toNat < 256 ^ 4 := a.isLt
  rw [parseIp, String.toList_ofList, hsplit]
  simp only [List.length_map, length_digits, if_true]
  rw [mapM_map_digits (by decide) octetVal_toDigits, Option.map_some, ofDigits_digits 4 _ hlt,
    BitVec.ofNat_toNat, BitVec.setWidth_eq]

theorem parseIp_printV6 (a : BitVec 128) :
    parseIp (String.ofList (printV6 a)) = some (.v6 a) := by
  have hsplit : (printV6 a).splitOn ':'
      = (digits 65536 8 a.toNat).map fun g => (digits 16 4 g).map hexDigit := by
    refine List.splitOn_intercalate ':' ?_ (by simp [digits])
    intro l hl
    obtain ⟨g, -, rfl⟩ := List.mem_map.mp hl
    exact notMem_hex (by decide) 4 g
  have hdot : '.' ∉ printV6 a := by
    intro hc
    rcases mem_of_mem_intercalate hc with h | ⟨l, hl, h⟩
    · exact absurd h (by decide)
    · obtain ⟨g, -, rfl⟩ := List.mem_map.mp hl
      exact notMem_hex (by decide) 4 g h
  have hone : (printV6 a).splitOn '.' = [printV6 a] := splitOn_of_notMem hdot
  have hlt : a.toNat < 65536 ^ 8 := a.isLt
  rw [parseIp, String.toList_ofList, hone, hsplit]
  simp only [List.length_map, length_digits, List.length_singleton]
  rw [if_neg (by decide), if_true, mapM_map_digits (by decide) groupVal_hex, Option.map_some,
    ofDigits_digits 8 _ hlt, BitVec.ofNat_toNat, BitVec.setWidth_eq]

/-- Addresses in text. -/
def ip : TextFormat IpAddr where
  print
    | .v4 a => String.ofList (printV4 a)
    | .v6 a => String.ofList (printV6 a)
  parse := parseIp
  parse_print
    | .v4 a => parseIp_printV4 a
    | .v6 a => parseIp_printV6 a

theorem ip_ne_empty (a : IpAddr) : ip.print a ≠ "" := by
  intro h
  have hparse := ip.parse_print a
  rw [h, show ip.parse "" = none from by decide] at hparse
  exact absurd hparse (by simp)

/-! ## Flag sets -/

/-- The declared flags with their names. -/
def flagNames : List (BitVec 32 × String) :=
  [(EventFlags.STREAMING, "STREAMING"), (EventFlags.TOOL_CALLS, "TOOL_CALLS"),
    (EventFlags.REASONING, "REASONING"), (EventFlags.STREAM_INCOMPLETE, "STREAM_INCOMPLETE"),
    (EventFlags.CACHED_USED, "CACHED_USED"), (EventFlags.BUDGET_BLOCKED, "BUDGET_BLOCKED")]

/-- The names of the set flags; a set with an undeclared bit is spelled in hexadecimal. -/
def printFlags (f : EventFlags) : List Char :=
  if f.bits &&& ~~~EventFlags.all = 0#32 then
    " | ".toList.intercalate
      ((flagNames.filter fun p => f.bits &&& p.1 != 0#32).map fun p => p.2.toList)
  else '0' :: 'x' :: (digits 16 8 f.bits.toNat).map hexDigit

/-- A word without the blanks around it. -/
def trim (w : List Char) : List Char :=
  ((w.dropWhile (· == ' ')).reverse.dropWhile (· == ' ')).reverse

/-- One word of a flag text: a hexadecimal number or a name. -/
def wordBits (w : List Char) : Option (BitVec 32) :=
  match w with
  | '0' :: 'x' :: hex => (hex.mapM hexVal).map fun ds => BitVec.ofNat 32 (ofDigits 16 ds)
  | _ => (flagNames.find? fun p => p.2.toList == w).map Prod.fst

/-- The union of the words between bars. -/
def parseFlags (s : List Char) : Option EventFlags :=
  if s = [] then some ⟨0#32⟩
  else
    ((s.splitOn '|').foldlM (fun acc w => (wordBits (trim w)).map (acc ||| ·)) 0#32).map
      EventFlags.mk

theorem parseFlags_declared :
    ∀ n, n < 64 → parseFlags (printFlags ⟨BitVec.ofNat 32 n⟩) = some ⟨BitVec.ofNat 32 n⟩ := by
  decide +kernel

theorem toNat_lt_of_declared {x : BitVec 32} (h : x &&& ~~~EventFlags.all = 0#32) :
    x.toNat < 64 := by
  have hx : x = x &&& EventFlags.all := by
    have hsplit : x &&& (EventFlags.all ||| ~~~EventFlags.all) = x &&& EventFlags.all := by
      rw [BitVec.and_or_distrib_left, h, BitVec.or_zero]
    have hall : EventFlags.all ||| ~~~EventFlags.all = BitVec.allOnes 32 := by decide
    rw [hall, BitVec.and_allOnes] at hsplit
    exact hsplit
  have hle : (x &&& EventFlags.all).toNat ≤ EventFlags.all.toNat := by
    rw [BitVec.toNat_and]
    exact Nat.and_le_right
  have h63 : EventFlags.all.toNat = 63 := by decide
  rw [hx]
  omega

theorem dropWhile_blank_of_notMem {s : List Char} (h : ' ' ∉ s) :
    s.dropWhile (· == ' ') = s := by
  cases s with
  | nil => rfl
  | cons c s =>
    have hc : (c == ' ') = false := by
      simp only [List.mem_cons, not_or] at h
      simpa using Ne.symm h.1
    simp [hc]

theorem trim_of_notMem {s : List Char} (h : ' ' ∉ s) : trim s = s := by
  rw [trim, dropWhile_blank_of_notMem h, dropWhile_blank_of_notMem (by simpa using h),
    List.reverse_reverse]

theorem parseFlags_printFlags (f : EventFlags) : parseFlags (printFlags f) = some f := by
  by_cases h : f.bits &&& ~~~EventFlags.all = 0#32
  · have := parseFlags_declared f.bits.toNat (toNat_lt_of_declared h)
    simpa using this
  · have hbar := notMem_hex (c := '|') (by decide) 8 f.bits.toNat
    have hblank := notMem_hex (c := ' ') (by decide) 8 f.bits.toNat
    have hlt : f.bits.toNat < 16 ^ 8 := f.bits.isLt
    have hmap := mapM_map_digits (by decide) hexVal_hexDigit 8 f.bits.toNat
    generalize hhex : (digits 16 8 f.bits.toNat).map hexDigit = hex at hbar hblank hmap
    have hsplit : ('0' :: 'x' :: hex).splitOn '|' = ['0' :: 'x' :: hex] :=
      splitOn_of_notMem (by simpa using hbar)
    have htrim : trim ('0' :: 'x' :: hex) = '0' :: 'x' :: hex :=
      trim_of_notMem (by simpa using hblank)
    have hword : wordBits ('0' :: 'x' :: hex) = some f.bits := by
      rw [wordBits, hmap, Option.map_some, ofDigits_digits 8 _ hlt, BitVec.ofNat_toNat,
        BitVec.setWidth_eq]
    rw [printFlags, if_neg h, hhex, parseFlags, if_neg (by simp), hsplit]
    simp [List.foldlM_cons, htrim, hword]

/-- Flag sets in text. -/
def flags : TextFormat EventFlags where
  print f := String.ofList (printFlags f)
  parse s := parseFlags s.toList
  parse_print f := by rw [String.toList_ofList, parseFlags_printFlags]

/-! ## Doubles -/

/-- A stand-in spelling: the bit pattern, then a zero fraction. -/
def float : FloatFormat where
  print x :=
    { neg := false, int := Nat.toDigits 10 x.bits.toNat, frac := some ['0'], exp := none }
  read t :=
    let b := BitVec.ofNat 64 (Nat.ofDigitChars 10 t.int 0)
    if h : b.toNat / 2 ^ 52 % 2 ^ 11 ≠ 2047 then some ⟨b, h⟩ else none
  print_wf x :=
    { int := ⟨Nat.toDigits_ne_nil, fun _ hc => Nat.isDigit_of_mem_toDigits (by omega) (by omega) hc⟩
      noLeadingZero := toDigits_noLeadingZero _
      frac := by
        rintro ds h
        cases h
        exact ⟨by simp, by simp⟩
      mark := by rintro e h; cases h
      sign := by rintro e h; cases h
      exp := by rintro e h; cases h }
  print_notInt _ := rfl

end Formats

/-- One set of text forms. -/
def textFormats : TextFormats where
  ulid := Formats.ulid
  ip := Formats.ip
  ip_ne_empty := Formats.ip_ne_empty
  flags := Formats.flags
  float := Formats.float
  jsonErrorText s := "invalid JSON: " ++ s
  serializeErrorText := "cannot serialize tagged newtype variant"

/-- A streamed, rate-limited request with a base URL, an empty user id and nested metadata. -/
def sampleEvent : LlmEvent where
  id := ⟨12345#128⟩
  tsNs := 1700000000000000000
  userId := some ""
  apiKeyId := some "key"
  orgId := none
  projectId := none
  routeId := "chat"
  provider := .openAICompatible "https://llm.example"
  model := "gpt-4o"
  modelFamily := none
  endpoint := "/v1/chat/completions"
  method := .POST
  httpStatus := some 429
  usage := { inputTokens := 7 }
  costNanodollars := 42
  latency := { ttftMs := some 0, totalMs := 3 }
  flags := ⟨65#32⟩
  error := some (.rateLimited (some ⟨3, 500000000, by decide⟩))
  requestSha256 := .zero
  responseSha256 := .zero
  clientIp := some (.v4 0x7f000001#32)
  userAgent := none
  requestId := none
  traceId := none
  source := some "litellm"
  ingestedAt := 1700000000000000001
  metadata := some (.ofTree (.obj [("user_tag", .str "a\nb"), ("n", .arr [.bool true, .null])]))
  tier := "free"

end Keplor.Core
