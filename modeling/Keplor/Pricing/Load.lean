import Keplor.Lib.Aliases
import Keplor.Lib.Json.Record
import Keplor.Pricing.Catalog

/-!
# `Catalog::from_json` — a catalog out of a hash map

The document is read into a hash map, and the map is iterated in whatever order it has. Every entry
with a price goes in under its lowered key, and then under its key without the date, without the
provider prefix, and without both, wherever nothing stands yet. A comment in the source says that the
unprefixed form is added when it does not collide; when two entries collide with each other, the one
that is iterated first has the name.

Reading an entry's JSON and rounding its dollars to nanodollars are `f64` arithmetic in another
crate's deserializer. They are the parameters `fromValue` and `dollarsToNanos`.
-/

set_option autoImplicit false

namespace Keplor.Pricing

open Keplor.Core Keplor.Lib Keplor.Lib.Utf8

/-! ## An entry of the document -/

/-- The bits of an `f64`. -/
abbrev F64 := BitVec 64

/-- `SearchCostRaw` -/
inductive SearchCostRaw where
  | flat (v : F64)
  | tiered (medium high low : Option F64)

/-- `RawEntry`, as far as a price depends on it. -/
structure RawEntry where
  inputCostPerToken : Option F64 := none
  outputCostPerToken : Option F64 := none
  cacheReadInputTokenCost : Option F64 := none
  cacheCreationInputTokenCost : Option F64 := none
  cacheCreationInputTokenCostAbove1hr : Option F64 := none
  cacheCreationInputTokenCostAbove200kTokens : Option F64 := none
  outputCostPerReasoningToken : Option F64 := none
  inputCostPerAudioToken : Option F64 := none
  inputCostPerVideoPerSecond : Option F64 := none
  inputCostPerTokenBatches : Option F64 := none
  outputCostPerTokenBatches : Option F64 := none
  searchContextCostPerQuery : Option SearchCostRaw := none
  inputCostPerTokenAbove200kTokens : Option F64 := none
  outputCostPerTokenAbove200kTokens : Option F64 := none
  cacheReadInputTokenCostAbove200kTokens : Option F64 := none

variable (dollarsToNanos : F64 → Int64)

/-- `SearchCostRaw::to_nanos`; the bits of `0.0` are all zero. -/
def SearchCostRaw.toNanos : SearchCostRaw → Int64
  | .flat v => dollarsToNanos v
  | .tiered medium high low => dollarsToNanos (((medium.or high).or low).getD 0#64)

/-- `RawEntry::into_pricing` -/
def RawEntry.intoPricing (e : RawEntry) : ModelPricing where
  inputCostPerToken := dollarsToNanos (e.inputCostPerToken.getD 0#64)
  outputCostPerToken := dollarsToNanos (e.outputCostPerToken.getD 0#64)
  cacheReadInputTokenCost := e.cacheReadInputTokenCost.map dollarsToNanos
  cacheCreationInputTokenCost := e.cacheCreationInputTokenCost.map dollarsToNanos
  cacheCreationInputTokenCostAbove1hr := e.cacheCreationInputTokenCostAbove1hr.map dollarsToNanos
  cacheCreationInputTokenCostAbove200kTokens :=
    e.cacheCreationInputTokenCostAbove200kTokens.map dollarsToNanos
  outputCostPerReasoningToken := e.outputCostPerReasoningToken.map dollarsToNanos
  inputCostPerAudioToken := e.inputCostPerAudioToken.map dollarsToNanos
  inputCostPerVideoPerSecond := e.inputCostPerVideoPerSecond.map dollarsToNanos
  inputCostPerTokenBatches := e.inputCostPerTokenBatches.map dollarsToNanos
  outputCostPerTokenBatches := e.outputCostPerTokenBatches.map dollarsToNanos
  searchContextCostPerQuery := e.searchContextCostPerQuery.map (SearchCostRaw.toNanos dollarsToNanos)
  inputCostPerTokenAbove200k := e.inputCostPerTokenAbove200kTokens.map dollarsToNanos
  outputCostPerTokenAbove200k := e.outputCostPerTokenAbove200kTokens.map dollarsToNanos
  cacheReadInputTokenCostAbove200k := e.cacheReadInputTokenCostAbove200kTokens.map dollarsToNanos
  inferenceGeoMultiplier := none

/-! ## The index -/

/-- `ModelKey::new` -/
def modelKey (raw : List Char) : String := String.ofList (toAsciiLowercase raw)

/-- What stands behind the first slash, if there is one. -/
def afterSlash (s : List Char) : Option (List Char) :=
  match s.dropWhile (· ≠ '/') with
  | [] => none
  | _ :: suffix => some suffix

variable (fromValue : JsonValue → Option RawEntry)

/-- The end of the loop's body, for an entry that has a price. -/
def addPriced (entries : String → Option ModelPricing) (canonical : List Char) (pricing : ModelPricing) :
    Option (String → Option ModelPricing) := do
  let entries := Function.update entries (String.ofList canonical) (some pricing)
  let entries ← match ← stripDateSuffix canonical with
    | some base => pure (orInsert entries (modelKey base) pricing)
    | none => pure entries
  match afterSlash canonical with
  | none => return entries
  | some suffix =>
    let entries := orInsert entries (modelKey suffix) pricing
    match ← stripDateSuffix suffix with
    | some base => return orInsert entries (modelKey base) pricing
    | none => return entries

/-- The price of an entry of the document. The sample and what cannot be read or has no costs are
skipped. -/
def priceOf (key : String) (value : JsonValue) : Option ModelPricing :=
  if key = "sample_spec" then none
  else
    match fromValue value with
    | none => none
    | some entry =>
      if entry.inputCostPerToken.isNone && entry.outputCostPerToken.isNone then none
      else some (entry.intoPricing dollarsToNanos)

/-- The body of the loop. -/
def addEntry (entries : String → Option ModelPricing) (p : String × JsonValue) :
    Option (String → Option ModelPricing) :=
  match priceOf dollarsToNanos fromValue p.1 p.2 with
  | none => some entries
  | some pricing => addPriced entries (toAsciiLowercase p.1.toList) pricing

/-- `Catalog::from_json`, from the map on: `raw` are its entries in the order of their iteration. The
outer `none` is the abort of a slice inside a character. -/
def Catalog.fromJson (raw : List (String × JsonValue)) : Option Catalog := do
  let entries ← raw.foldlM (addEntry dollarsToNanos fromValue) fun _ => none
  return ⟨entries⟩

/-! ## The loop as an index with aliases -/

/-- The names an entry asks for besides its own, with the aborts of the slices. -/
def aliasesOf (canonical : List Char) : Option (List String) := do
  let dated ← stripDateSuffix canonical
  match afterSlash canonical with
  | none => return dated.toList.map modelKey
  | some suffix =>
    let base ← stripDateSuffix suffix
    return (dated.toList ++ suffix :: base.toList).map modelKey

/-- An entry of the document that has a price. -/
def entryOf (p : String × JsonValue) : Option (Aliased String ModelPricing) :=
  (priceOf dollarsToNanos fromValue p.1 p.2).map fun pricing =>
    ⟨modelKey p.1.toList, (aliasesOf (toAsciiLowercase p.1.toList)).getD [], pricing⟩

theorem addPriced_eq (entries : String → Option ModelPricing) (canonical : List Char)
    (pricing : ModelPricing) :
    addPriced entries canonical pricing
      = (aliasesOf canonical).map fun aliases =>
          indexOne entries ⟨String.ofList canonical, aliases, pricing⟩ := by
  unfold addPriced aliasesOf
  cases stripDateSuffix canonical with
  | none => rfl
  | some dated =>
    cases afterSlash canonical with
    | none => cases dated <;> rfl
    | some suffix =>
      simp only [Option.bind_eq_bind, Option.bind_some]
      cases stripDateSuffix suffix with
      | none => cases dated <;> rfl
      | some base => cases dated <;> cases base <;> rfl

/-! ## ASCII keys -/

/-- Every character is one byte. -/
def IsAscii (s : List Char) : Prop := ∀ c ∈ s, c.toNat ≤ 0x7f

theorem isBoundary_of_isAscii {s : List Char} (h : IsAscii s) : ∀ {i : Nat}, i ≤ byteLen s → IsBoundary s i := by
  induction s with
  | nil =>
    intro i hi
    rw [Nat.le_zero.mp hi]
    exact isBoundary_zero []
  | cons c s ih =>
    intro i hi
    have hsize : c.utf8Size = 1 := Char.utf8Size_eq_one_iff.mpr (h c (by simp))
    rw [byteLen_cons, hsize] at hi
    cases i with
    | zero => exact isBoundary_zero _
    | succ i =>
      have hrest := (isBoundary_cons (c := c) (k := i)).mpr
        (ih (fun d hd => h d (by simp [hd])) (by omega))
      rwa [hsize, Nat.add_comm] at hrest

/-- No slice of an ASCII name aborts. -/
theorem stripDateSuffix_of_isAscii {s : List Char} (h : IsAscii s) : (stripDateSuffix s).isSome := by
  apply stripDateSuffix_isSome.mpr
  constructor
  · exact fun _ => isBoundary_of_isAscii h (Nat.sub_le _ _)
  · exact fun _ => isBoundary_of_isAscii h (Nat.sub_le _ _)
  · rintro a r rfl - hr
    exact isBoundary_of_isAscii (fun c hc => h c (by simp [hc])) (by omega)
  · rintro a y u rfl - - - hu
    exact isBoundary_of_isAscii (fun c hc => h c (by simp [hc])) (by omega)

theorem toNat_toLower_le {c : Char} (h : c.toNat ≤ 0x7f) : c.toLower.toNat ≤ 0x7f := by
  unfold Char.toLower
  split
  · rename_i hupper
    have hle : c.val.toNat ≤ 90 := hupper.2
    have hshift : ('a'.val - 'A'.val).toNat = 32 := by decide
    show (c.val + ('a'.val - 'A'.val)).toNat ≤ 0x7f
    rw [UInt32.toNat_add]
    omega
  · exact h

theorem isAscii_toAsciiLowercase {s : List Char} (h : IsAscii s) : IsAscii (toAsciiLowercase s) := by
  intro c hc
  obtain ⟨d, hd, rfl⟩ := List.mem_map.mp hc
  exact toNat_toLower_le (h d hd)

theorem mem_of_afterSlash {s suffix : List Char} (h : afterSlash s = some suffix) {c : Char}
    (hc : c ∈ suffix) : c ∈ s := by
  unfold afterSlash at h
  split at h
  · cases h
  · rename_i d suffix' hdrop
    cases h
    have hmem : c ∈ s.dropWhile (· ≠ '/') := by
      rw [hdrop]
      simp [hc]
    exact (List.dropWhile_sublist _).subset hmem

theorem aliasesOf_of_isAscii {s : List Char} (h : IsAscii s) : (aliasesOf s).isSome := by
  obtain ⟨dated, hdated⟩ := Option.isSome_iff_exists.mp (stripDateSuffix_of_isAscii h)
  unfold aliasesOf
  rw [hdated]
  cases hslash : afterSlash s with
  | none => rfl
  | some suffix =>
    have hsuffix : IsAscii suffix := fun c hc => h c (mem_of_afterSlash hslash hc)
    obtain ⟨base, hbase⟩ := Option.isSome_iff_exists.mp (stripDateSuffix_of_isAscii hsuffix)
    simp [hbase]

variable {dollarsToNanos fromValue}

theorem addEntry_eq {p : String × JsonValue} (hascii : IsAscii p.1.toList)
    (entries : String → Option ModelPricing) :
    addEntry dollarsToNanos fromValue entries p
      = some ((entryOf dollarsToNanos fromValue p).elim entries (indexOne entries)) := by
  obtain ⟨aliases, haliases⟩ := Option.isSome_iff_exists.mp
    (aliasesOf_of_isAscii (isAscii_toAsciiLowercase hascii))
  unfold addEntry entryOf
  cases priceOf dollarsToNanos fromValue p.1 p.2 with
  | none => rfl
  | some pricing =>
    dsimp only
    rw [addPriced_eq, haliases]
    rfl

/-- The catalog of a document with ASCII keys is the index of its priced entries. -/
theorem fromJson_eq {raw : List (String × JsonValue)} (hascii : ∀ p ∈ raw, IsAscii p.1.toList) :
    Catalog.fromJson dollarsToNanos fromValue raw
      = some ⟨index (raw.filterMap (entryOf dollarsToNanos fromValue))⟩ := by
  have hloop : ∀ entries : String → Option ModelPricing,
      raw.foldlM (addEntry dollarsToNanos fromValue) entries
      = some ((raw.filterMap (entryOf dollarsToNanos fromValue)).foldl indexOne entries) := by
    induction raw with
    | nil => exact fun _ => rfl
    | cons p raw ih =>
      intro entries
      have hrest := ih fun q hq => hascii q (by simp [hq])
      rw [List.foldlM_cons, addEntry_eq (hascii p (by simp))]
      cases hentry : entryOf dollarsToNanos fromValue p with
      | none =>
        rw [List.filterMap_cons_none hentry]
        exact hrest entries
      | some e =>
        rw [List.filterMap_cons_some hentry, List.foldl_cons]
        exact hrest _
  unfold Catalog.fromJson
  rw [hloop]
  rfl

/-! ## The order of the map -/

/-- The keys of the priced entries are among the lowered keys of the document. -/
theorem sublist_keys (raw : List (String × JsonValue)) :
    ((raw.filterMap (entryOf dollarsToNanos fromValue)).map Aliased.key).Sublist
      (raw.map fun p => modelKey p.1.toList) := by
  induction raw with
  | nil => simp
  | cons p raw ih =>
    cases hentry : entryOf dollarsToNanos fromValue p with
    | none =>
      rw [List.filterMap_cons_none hentry, List.map_cons]
      exact ih.cons _
    | some e =>
      have hkey : e.key = modelKey p.1.toList := by
        obtain ⟨pricing, -, rfl⟩ := Option.map_eq_some_iff.mp hentry
        rfl
      rw [List.filterMap_cons_some hentry, List.map_cons, List.map_cons, hkey]
      exact ih.cons_cons _

/-- An exact match is what a lookup returns. -/
theorem lookup_of_entry {c : Catalog} {key : String} {pricing : ModelPricing}
    (h : c.entries key = some pricing) : c.lookup key = some (some pricing) := by
  unfold Catalog.lookup
  rw [h]
  rfl

section Order

variable {raw : List (String × JsonValue)} (hascii : ∀ p ∈ raw, IsAscii p.1.toList)
  (hdistinct : (raw.map fun p => modelKey p.1.toList).Nodup)

include hascii in
theorem fromJson_of_perm {r : List (String × JsonValue)} (h : r.Perm raw) :
    Catalog.fromJson dollarsToNanos fromValue r
      = some ⟨index (r.filterMap (entryOf dollarsToNanos fromValue))⟩ :=
  fromJson_eq fun p hp => hascii p (h.mem_iff.mp hp)

include hascii hdistinct in
/-- Any entry can be the one that is iterated first, and has its aliases then. -/
theorem exists_order_with_first {e : Aliased String ModelPricing}
    (he : e ∈ raw.filterMap (entryOf dollarsToNanos fromValue)) {k : String}
    (hfree : ∀ e' ∈ raw.filterMap (entryOf dollarsToNanos fromValue), e'.key ≠ k) (hk : k ∈ e.aliases) :
    ∃ r c, r.Perm raw ∧ Catalog.fromJson dollarsToNanos fromValue r = some c ∧
      c.lookup k = some (some e.value) := by
  obtain ⟨p, hp, hentry⟩ := List.mem_filterMap.mp he
  obtain ⟨before, after, rfl⟩ := List.append_of_mem hp
  have hperm : (p :: (before ++ after)).Perm (before ++ p :: after) := List.perm_middle.symm
  refine ⟨_, _, hperm, fromJson_of_perm hascii hperm, lookup_of_entry ?_⟩
  have hentries := hperm.filterMap (entryOf dollarsToNanos fromValue)
  have hnodup := (hentries.map Aliased.key).nodup_iff.mpr ((sublist_keys _).nodup hdistinct)
  rw [List.filterMap_cons_some hentry] at hentries hnodup ⊢
  exact index_cons_apply hnodup (fun e' he' => hfree e' (hentries.mem_iff.mp he')) hk

end Order

/-- For a document with ASCII keys that stay different when they are lowered: every order of the map
gives a catalog, and all of them answer every lookup alike exactly when the priced entries that share
an alias, one that is no key of a priced entry, have the same price. -/
theorem catalog_order_irrelevant_iff (dollarsToNanos : F64 → Int64)
    (fromValue : JsonValue → Option RawEntry) (raw : List (String × JsonValue))
    (hascii : ∀ p ∈ raw, IsAscii p.1.toList)
    (hdistinct : (raw.map fun p => modelKey p.1.toList).Nodup) :
    (∀ r, r.Perm raw → ∃ c, Catalog.fromJson dollarsToNanos fromValue r = some c) ∧
    ((∀ r r' c c', r.Perm raw → r'.Perm raw →
        Catalog.fromJson dollarsToNanos fromValue r = some c →
        Catalog.fromJson dollarsToNanos fromValue r' = some c' →
        ∀ key, c.lookup key = c'.lookup key) ↔
      AliasesAgree (raw.filterMap (entryOf dollarsToNanos fromValue))) := by
  have hnodup : ((raw.filterMap (entryOf dollarsToNanos fromValue)).map Aliased.key).Nodup :=
    (sublist_keys raw).nodup hdistinct
  refine ⟨fun r hr => ⟨_, fromJson_of_perm hascii hr⟩, ?_, ?_⟩
  · intro h k hfree e he e' he' hk hk'
    obtain ⟨r, c, hr, hc, hlookup⟩ := exists_order_with_first hascii hdistinct he hfree hk
    obtain ⟨r', c', hr', hc', hlookup'⟩ := exists_order_with_first hascii hdistinct he' hfree hk'
    have hsame := h r r' c c' hr hr' hc hc' k
    rw [hlookup, hlookup'] at hsame
    exact Option.some.inj (Option.some.inj hsame)
  · intro hagree r r' c c' hr hr' hc hc' key
    rw [fromJson_of_perm hascii hr] at hc
    rw [fromJson_of_perm hascii hr'] at hc'
    cases hc
    cases hc'
    rw [index_perm_of_agree hnodup hagree (hr.filterMap _),
      index_perm_of_agree hnodup hagree (hr'.filterMap _)]

/-! ## Two providers of one model -/

/-- An entry that costs so many dollars a token. -/
def dollars (n : UInt32) : JsonValue := .ofTree (.obj [("input_cost_per_token", Json.ofU32 n)])

/-- What is read from such an entry, for one dollar and for two. -/
def wholeDollars (v : JsonValue) : Option RawEntry :=
  match v.get? "input_cost_per_token" with
  | some (.int i) =>
    some { inputCostPerToken := some (if i.val = 1 then 0x3ff0000000000000#64 else 0x4000000000000000#64) }
  | _ => some {}

/-- `dollars_to_nanos` of 0.0, 1.0 and 2.0. -/
def wholeNanos (d : F64) : Int64 :=
  if d = 0x3ff0000000000000#64 then 1000000000
  else if d = 0x4000000000000000#64 then 2000000000 else 0

/-- A provider's entry next to the model's own: the alias is a key, so nobody collides. -/
def ownEntry : List (String × JsonValue) := [("openai/gpt-4o", dollars 1), ("gpt-4o", dollars 2)]

theorem catalog_order_irrelevant_own_entry :
    (∀ p ∈ ownEntry, IsAscii p.1.toList) ∧ (ownEntry.map fun p => modelKey p.1.toList).Nodup ∧
    ∀ r r' c c', r.Perm ownEntry → r'.Perm ownEntry →
      Catalog.fromJson wholeNanos wholeDollars r = some c →
      Catalog.fromJson wholeNanos wholeDollars r' = some c' →
      ∀ key, c.lookup key = c'.lookup key := by
  have hascii : ∀ p ∈ ownEntry, IsAscii p.1.toList := by simp [ownEntry, IsAscii]
  have hdistinct : (ownEntry.map fun p => modelKey p.1.toList).Nodup := by decide +kernel
  refine ⟨hascii, hdistinct, ?_⟩
  apply (catalog_order_irrelevant_iff wholeNanos wholeDollars ownEntry hascii hdistinct).2.mpr
  have hentries : ownEntry.filterMap (entryOf wholeNanos wholeDollars)
      = [⟨"openai/gpt-4o", ["gpt-4o"], { inputCostPerToken := 1000000000 }⟩,
        ⟨"gpt-4o", [], { inputCostPerToken := 2000000000 }⟩] := by decide +kernel
  rw [hentries]
  intro k hfree e he e' he' hk hk'
  simp only [List.mem_cons, List.not_mem_nil, or_false] at he he'
  rcases he with rfl | rfl
  · rcases he' with rfl | rfl
    · rfl
    · simp at hk'
  · simp at hk

/-- Two providers of one model, at different prices. -/
def twoProviders : List (String × JsonValue) :=
  [("azure/gpt-4o", dollars 1), ("openai/gpt-4o", dollars 2)]

/-- The price of the model is the one of the provider that comes first out of the map. -/
theorem unprefixed_price_depends_on_order :
    (∀ p ∈ twoProviders, IsAscii p.1.toList) ∧
    (twoProviders.map fun p => modelKey p.1.toList).Nodup ∧ twoProviders.reverse.Perm twoProviders ∧
    ((Catalog.fromJson wholeNanos wholeDollars twoProviders).bind fun c => c.lookup "gpt-4o").map
        (fun found => found.map ModelPricing.inputCostPerToken) = some (some 1000000000) ∧
    ((Catalog.fromJson wholeNanos wholeDollars twoProviders.reverse).bind fun c =>
        c.lookup "gpt-4o").map
        (fun found => found.map ModelPricing.inputCostPerToken) = some (some 2000000000) := by
  refine ⟨by simp [twoProviders, IsAscii], by decide +kernel, List.reverse_perm _, ?_, ?_⟩
  · decide +kernel
  · decide +kernel

end Keplor.Pricing
