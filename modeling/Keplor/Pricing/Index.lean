import Keplor.Pricing.Load

/-!
# What a catalog's index holds

`Catalog::from_json` writes an entry's own key over whatever stands there and its other names only where
nothing does, so while the map is iterated the same name can belong to one entry and then to another.
At the end every key leads to its own entry. Every other name in the index is a variant of the key whose
price it has, and the variants of a priced key are all there, whoever has them.

A lookup that finds nothing takes a date off and tries again. What it finds then is the name it was
derived from: no date is taken for another one (`stripDateSuffix_append`).
-/

set_option autoImplicit false

namespace Keplor.Pricing

open Keplor.Core Keplor.Lib Keplor.Lib.Utf8

/-! ## Dates -/

/-- `-YYYY-MM-DD` or `-YYYYMMDD`, in digits. -/
inductive IsDateSuffix : List Char → Prop
  | iso {y m d : List Char} : y.length = 4 → m.length = 2 → d.length = 2 →
      (∀ c ∈ y ++ m ++ d, c.isDigit = true) → IsDateSuffix ('-' :: (y ++ '-' :: (m ++ '-' :: d)))
  | compact {n : List Char} : n.length = 8 → (∀ c ∈ n, c.isDigit = true) → IsDateSuffix ('-' :: n)

theorem byteLen_of_isAscii {s : List Char} (h : IsAscii s) : byteLen s = s.length := by
  induction s with
  | nil => rfl
  | cons c s ih =>
    have hsize : c.utf8Size = 1 := Char.utf8Size_eq_one_iff.mpr (h c List.mem_cons_self)
    rw [byteLen_cons, hsize, ih fun d hd => h d (List.mem_cons_of_mem c hd), List.length_cons,
      Nat.add_comm]

theorem toNat_of_isDigit {c : Char} (h : c.isDigit = true) : 48 ≤ c.toNat ∧ c.toNat ≤ 57 := by
  rw [Char.isDigit, Bool.and_eq_true, decide_eq_true_eq, decide_eq_true_eq] at h
  exact ⟨UInt32.le_iff_toNat_le.mp h.1, UInt32.le_iff_toNat_le.mp h.2⟩

theorem isAscii_of_isDigit {s : List Char} (h : ∀ c ∈ s, c.isDigit = true) : IsAscii s := by
  intro c hc
  have := toNat_of_isDigit (h c hc)
  omega

theorem allDigits_of_isDigit {s : List Char} (h : ∀ c ∈ s, c.isDigit = true) : allDigits s = true := by
  rw [allDigits, List.all_eq_true]
  intro b hb
  obtain ⟨c, hc, hb⟩ := List.mem_flatMap.mp hb
  obtain ⟨hge, hle⟩ := toNat_of_isDigit (h c hc)
  have hval : c.val.toNat ≤ 127 := Nat.le_trans hle (by decide)
  simp only [String.utf8EncodeChar, if_pos hval, List.mem_singleton] at hb
  subst hb
  have hbyte : (UInt8.ofNat c.val.toNat).toNat = c.val.toNat := by
    rw [UInt8.toNat_ofNat']
    omega
  rw [Bool.and_eq_true, decide_eq_true_eq, decide_eq_true_eq, UInt8.le_iff_toNat_le,
    UInt8.le_iff_toNat_le, hbyte]
  exact ⟨hge, hle⟩

/-- A dash is no digit. -/
theorem allDigits_dash (a b : List Char) : allDigits (a ++ '-' :: b) = false := by
  rw [allDigits, List.all_eq_false]
  refine ⟨0x2d, ?_, by decide⟩
  rw [encode_append, List.mem_append]
  exact .inr List.mem_cons_self

theorem isIsoSuffix_date {y m d : List Char} (hy : y.length = 4) (hm : m.length = 2) (hd : d.length = 2)
    (hdigits : ∀ c ∈ y ++ m ++ d, c.isDigit = true) :
    isIsoSuffix ('-' :: (y ++ '-' :: (m ++ '-' :: d))) = some true := by
  have hyd : ∀ c ∈ y, c.isDigit = true := fun c hc => hdigits c (by simp [hc])
  have hmd : ∀ c ∈ m, c.isDigit = true := fun c hc => hdigits c (by simp [hc])
  have hdd : ∀ c ∈ d, c.isDigit = true := fun c hc => hdigits c (by simp [hc])
  rw [← byteLen_of_isAscii (isAscii_of_isDigit hyd)] at hy
  rw [← byteLen_of_isAscii (isAscii_of_isDigit hmd)] at hm
  rw [← byteLen_of_isAscii (isAscii_of_isDigit hdd)] at hd
  have hstart : startsWithDash ('-' :: (y ++ '-' :: (m ++ '-' :: d))) = true :=
    startsWithDash_iff.mpr ⟨_, rfl⟩
  have hyear : slice ('-' :: (y ++ '-' :: (m ++ '-' :: d))) 1 5 = some y :=
    slice_eq_some (a := ['-']) rfl rfl (by simp [hy])
  have hmonth : slice ('-' :: (y ++ '-' :: (m ++ '-' :: d))) 6 8 = some m :=
    slice_eq_some (a := '-' :: (y ++ ['-'])) (c := '-' :: d) (by simp) (by simp [hy]) (by simp [hy, hm])
  have hday : slice ('-' :: (y ++ '-' :: (m ++ '-' :: d))) 9 11 = some d :=
    slice_eq_some (a := '-' :: (y ++ '-' :: (m ++ ['-']))) (c := []) (by simp) (by simp [hy, hm])
      (by simp [hy, hm, hd])
  obtain ⟨b, hb, hdash⟩ := dash_at (a := '-' :: y) (c := '-') (s := m ++ '-' :: d) (i := 5) (by simp [hy])
  obtain ⟨b', hb', hdash'⟩ := dash_at (a := '-' :: (y ++ '-' :: m)) (c := '-') (s := d) (i := 8)
    (by simp [hy, hm])
  simp only [List.cons_append, List.append_assoc] at hb hb'
  simp [isIsoSuffix, hstart, hyear, hmonth, hday, hb, hb', hdash.mpr rfl, hdash'.mpr rfl,
    allDigits_of_isDigit hyd, allDigits_of_isDigit hmd, allDigits_of_isDigit hdd]

theorem isCompactSuffix_date {n : List Char} (hdigits : ∀ c ∈ n, c.isDigit = true) :
    isCompactSuffix ('-' :: n) = some true := by
  have hstart : startsWithDash ('-' :: n) = true := startsWithDash_iff.mpr ⟨n, rfl⟩
  have hslice : sliceFrom ('-' :: n) 1 = some n := sliceFrom_append ['-'] n
  simp [isCompactSuffix, hstart, hslice, allDigits_of_isDigit hdigits]

/-- Two characters in front of a compact date never make it an ISO date: its dash would be a digit of
the year. -/
theorem isIsoSuffix_compact {x y : Char} {n : List Char} (hascii : IsAscii (x :: y :: '-' :: n))
    (hlen : n.length = 8) : isIsoSuffix (x :: y :: '-' :: n) = some false := by
  by_cases hx : x = '-'
  · subst hx
    obtain ⟨p, q, n, rfl⟩ : ∃ p q r, n = p :: q :: r := by
      match n, hlen with
      | p :: q :: r, _ => exact ⟨p, q, r, rfl⟩
    have hsize : ∀ c ∈ '-' :: y :: '-' :: p :: q :: n, c.utf8Size = 1 :=
      fun c hc => Char.utf8Size_eq_one_iff.mpr (hascii c hc)
    have hyear : slice ('-' :: y :: '-' :: p :: q :: n) 1 5 = some [y, '-', p, q] := by
      refine slice_eq_some (a := ['-']) (c := n) rfl rfl ?_
      simp [hsize y (by simp), hsize p (by simp), hsize q (by simp)]
    have hno : allDigits [y, '-', p, q] = false := allDigits_dash [y] [p, q]
    have hstart : startsWithDash ('-' :: y :: '-' :: p :: q :: n) = true := startsWithDash_iff.mpr ⟨_, rfl⟩
    simp [isIsoSuffix, hstart, hyear, hno]
  · have hstart : startsWithDash (x :: y :: '-' :: n) = false := by simp [startsWithDash, hx]
    simp [isIsoSuffix, hstart]

/-- The first arm lets a compact date pass. -/
theorem stripSuffix_iso_compact {k n : List Char} (hascii : IsAscii (k ++ '-' :: n))
    (hlen : n.length = 8) : stripSuffix (k ++ '-' :: n) 11 isIsoSuffix = some none := by
  by_cases hshort : k.length < 3
  · have hle : ¬ 11 < byteLen (k ++ '-' :: n) := by
      rw [byteLen_of_isAscii hascii, List.length_append, List.length_cons]
      omega
    rw [stripSuffix, if_neg hle]
    rfl
  · obtain ⟨a, x, y, ha, rfl⟩ : ∃ a x y, a ≠ [] ∧ k = a ++ [x, y] := by
      have hsplit := List.take_append_drop (k.length - 2) k
      have hdrop : (k.drop (k.length - 2)).length = 2 := by
        rw [List.length_drop]
        omega
      obtain ⟨x, y, hxy⟩ := List.length_eq_two.mp hdrop
      refine ⟨k.take (k.length - 2), x, y, ?_, by rw [← hxy, hsplit]⟩
      intro hnil
      have htake := congrArg List.length hnil
      rw [List.length_take, List.length_nil] at htake
      omega
    have htail : IsAscii (x :: y :: '-' :: n) := fun c hc => hascii c (by simp at hc ⊢; tauto)
    have hassoc : a ++ [x, y] ++ '-' :: n = a ++ (x :: y :: '-' :: n) := by simp
    have hbytes : byteLen (x :: y :: '-' :: n) = 11 := by
      rw [byteLen_of_isAscii htail]
      simp [hlen]
    have harm := stripSuffix_append ha (t := x :: y :: '-' :: n) isIsoSuffix
    rw [hbytes, isIsoSuffix_compact htail hlen] at harm
    rw [hassoc, harm]
    rfl

/-- A name with a date behind it is that name, dated. -/
theorem stripDateSuffix_append {k t : List Char} (hk : k ≠ []) (hascii : IsAscii k)
    (ht : IsDateSuffix t) : stripDateSuffix (k ++ t) = some (some k) := by
  cases ht with
  | @iso y m d hy hm hd hdigits =>
    have hbytes : byteLen ('-' :: (y ++ '-' :: (m ++ '-' :: d))) = 11 := by
      have hpart : ∀ s : List Char, s ⊆ y ++ m ++ d → byteLen s = s.length := fun s hs =>
        byteLen_of_isAscii (isAscii_of_isDigit fun c hc => hdigits c (hs hc))
      have h₁ := hpart y (by simp)
      have h₂ := hpart m (by simp)
      have h₃ := hpart d (by simp)
      simp [h₁, h₂, h₃, hy, hm, hd]
    have harm := stripSuffix_append hk (t := '-' :: (y ++ '-' :: (m ++ '-' :: d))) isIsoSuffix
    rw [hbytes, isIsoSuffix_date hy hm hd hdigits] at harm
    simp [stripDateSuffix, harm]
  | @compact n hn hdigits =>
    have hdate : IsAscii n := isAscii_of_isDigit hdigits
    have hbytes : byteLen ('-' :: n) = 9 := by
      simp [byteLen_of_isAscii hdate, hn]
    have hwhole : IsAscii (k ++ '-' :: n) := by
      intro c hc
      rcases List.mem_append.mp hc with hc | hc
      · exact hascii c hc
      · rcases List.mem_cons.mp hc with rfl | hc
        · decide
        · exact hdate c hc
    have harm := stripSuffix_append hk (t := '-' :: n) isCompactSuffix
    rw [hbytes, isCompactSuffix_date hdigits] at harm
    simp [stripDateSuffix, stripSuffix_iso_compact hwhole hn, harm]

/-! ## Lowered names -/

theorem toLower_of_not_upper {c : Char} (h : ¬ (c.val ≥ 'A'.val ∧ c.val ≤ 'Z'.val)) :
    c.toLower = c := by
  unfold Char.toLower
  rw [dif_neg h]

theorem toLower_toLower (c : Char) : c.toLower.toLower = c.toLower := by
  by_cases hupper : c.val ≥ 'A'.val ∧ c.val ≤ 'Z'.val
  · have hpast : 'Z'.val < c.toLower.val := by
      have hval : c.toLower.val = c.val + ('a'.val - 'A'.val) := by
        unfold Char.toLower
        rw [dif_pos hupper]
      have hge : 65 ≤ c.val.toNat := UInt32.le_iff_toNat_le.mp hupper.1
      have hle : c.val.toNat ≤ 90 := UInt32.le_iff_toNat_le.mp hupper.2
      have hshift : ('a'.val - 'A'.val).toNat = 32 := by decide
      rw [hval, UInt32.lt_iff_toNat_lt, UInt32.toNat_add, hshift]
      show 90 < _
      omega
    exact toLower_of_not_upper fun h => UInt32.not_lt.mpr h.2 hpast
  · rw [toLower_of_not_upper hupper, toLower_of_not_upper hupper]

/-- Part of a lowered name is lowered. -/
theorem toAsciiLowercase_of_subset {s t : List Char} (h : t ⊆ toAsciiLowercase s) :
    toAsciiLowercase t = t := by
  have hsame : ∀ c ∈ t, c.toLower = c := by
    intro c hc
    obtain ⟨d, -, rfl⟩ := List.mem_map.mp (h hc)
    exact toLower_toLower d
  exact (List.map_congr_left hsame).trans (List.map_id' t)

/-! ## The variants of a key -/

/-- The names an entry is indexed under: its key, without the date, without the provider, without
both. -/
inductive IsVariant (c : List Char) : List Char → Prop
  | canonical : IsVariant c c
  | strip {base : List Char} : stripDateSuffix c = some (some base) → IsVariant c base
  | suffix {s : List Char} : afterSlash c = some s → IsVariant c s
  | stripSuffix {s base : List Char} : afterSlash c = some s → stripDateSuffix s = some (some base) →
      IsVariant c base

/-- What an arm takes off was there, of the length it looks at, and passed its test. -/
theorem stripSuffix_eq_some {s b : List Char} {n : Nat} {test : List Char → Option Bool}
    (h : stripSuffix s n test = some (some b)) :
    b ≠ [] ∧ ∃ t, s = b ++ t ∧ byteLen t = n ∧ test t = some true := by
  unfold stripSuffix at h
  split at h
  · rename_i hlt
    obtain ⟨tail, htail, h⟩ := Option.bind_eq_some_iff.mp h
    obtain ⟨found, hfound, h⟩ := Option.bind_eq_some_iff.mp h
    cases found with
    | false => cases h
    | true =>
      obtain ⟨base, hbase, h⟩ := Option.bind_eq_some_iff.mp h
      cases h
      obtain ⟨⟨a, c⟩, hsplit, rfl⟩ := Option.map_eq_some_iff.mp hbase
      obtain ⟨⟨a', c'⟩, hsplit', rfl⟩ := Option.map_eq_some_iff.mp htail
      rw [hsplit] at hsplit'
      cases hsplit'
      obtain ⟨hs, hlen⟩ := splitAt_eq_some.mp hsplit
      have hbytes := congrArg byteLen hs
      rw [byteLen_append] at hbytes
      refine ⟨?_, c, hs, by omega, hfound⟩
      rintro rfl
      simp only [byteLen_nil] at hlen
      omega
  · cases h

theorem subset_of_stripSuffix {s base : List Char} {n : Nat} {test : List Char → Option Bool}
    (h : stripSuffix s n test = some (some base)) : base ⊆ s := by
  obtain ⟨-, t, rfl, -, -⟩ := stripSuffix_eq_some h
  exact List.subset_append_left base t

theorem subset_of_stripDateSuffix {s base : List Char} (h : stripDateSuffix s = some (some base)) :
    base ⊆ s := by
  unfold stripDateSuffix at h
  obtain ⟨found, hiso, h⟩ := Option.bind_eq_some_iff.mp h
  cases found with
  | some base' =>
    cases h
    exact subset_of_stripSuffix hiso
  | none => exact subset_of_stripSuffix h

theorem IsVariant.subset {c x : List Char} (h : IsVariant c x) : x ⊆ c := by
  cases h with
  | canonical => exact List.Subset.refl c
  | strip hbase => exact subset_of_stripDateSuffix hbase
  | suffix hs => exact fun _ => mem_of_afterSlash hs
  | stripSuffix hs hbase => exact fun _ hx => mem_of_afterSlash hs (subset_of_stripDateSuffix hbase hx)

section Aliases

variable {c : List Char} {names : List String} (haliases : aliasesOf c = some names)

include haliases

theorem isVariant_of_alias {k : String} (hk : k ∈ names) : ∃ x, IsVariant c x ∧ k = modelKey x := by
  unfold aliasesOf at haliases
  obtain ⟨dated, hdated, haliases⟩ := Option.bind_eq_some_iff.mp haliases
  have hstrip : ∀ x ∈ dated.toList, IsVariant c x := by
    intro x hx
    rw [Option.mem_toList] at hx
    exact .strip (hdated.trans (congrArg some hx))
  cases hs : afterSlash c with
  | none =>
    rw [hs] at haliases
    cases haliases
    obtain ⟨x, hx, rfl⟩ := List.mem_map.mp hk
    exact ⟨x, hstrip x hx, rfl⟩
  | some s =>
    rw [hs] at haliases
    obtain ⟨base, hbase, haliases⟩ := Option.bind_eq_some_iff.mp haliases
    cases haliases
    obtain ⟨x, hx, rfl⟩ := List.mem_map.mp hk
    refine ⟨x, ?_, rfl⟩
    rcases List.mem_append.mp hx with hx | hx
    · exact hstrip x hx
    · rcases List.mem_cons.mp hx with rfl | hx
      · exact .suffix hs
      · rw [Option.mem_toList] at hx
        exact .stripSuffix hs (hbase.trans (congrArg some hx))

theorem alias_of_isVariant {x : List Char} (h : IsVariant c x) : x = c ∨ modelKey x ∈ names := by
  unfold aliasesOf at haliases
  obtain ⟨dated, hdated, haliases⟩ := Option.bind_eq_some_iff.mp haliases
  cases h with
  | canonical => exact .inl rfl
  | strip hbase =>
    right
    cases hdated.symm.trans hbase
    cases hs : afterSlash c with
    | none =>
      rw [hs] at haliases
      cases haliases
      simp
    | some s =>
      rw [hs] at haliases
      obtain ⟨base, -, haliases⟩ := Option.bind_eq_some_iff.mp haliases
      cases haliases
      simp
  | suffix hs =>
    right
    rw [hs] at haliases
    obtain ⟨base, -, haliases⟩ := Option.bind_eq_some_iff.mp haliases
    cases haliases
    simp
  | stripSuffix hs hbase =>
    right
    rw [hs] at haliases
    obtain ⟨base, hbase', haliases⟩ := Option.bind_eq_some_iff.mp haliases
    cases hbase'.symm.trans hbase
    cases haliases
    simp

end Aliases

theorem modelKey_of_isVariant {s x : List Char} (h : IsVariant (toAsciiLowercase s) x) :
    modelKey x = String.ofList x := by
  rw [modelKey, toAsciiLowercase_of_subset h.subset]

/-! ## The entries of a document -/

section Entries

variable {dollarsToNanos : F64 → Int64} {fromValue : JsonValue → Option RawEntry}
  {p : String × JsonValue} {e : Aliased String ModelPricing}

/-- What the index is told about a priced key: its price, its name, and its variants. -/
theorem entry_spec (hascii : IsAscii p.1.toList) (h : entryOf dollarsToNanos fromValue p = some e) :
    priceOf dollarsToNanos fromValue p.1 p.2 = some e.value ∧ e.key = modelKey p.1.toList ∧
    ∀ k, k = e.key ∨ k ∈ e.aliases ↔
      ∃ x, IsVariant (toAsciiLowercase p.1.toList) x ∧ k = String.ofList x := by
  obtain ⟨pricing, hprice, rfl⟩ := Option.map_eq_some_iff.mp h
  obtain ⟨names, haliases⟩ := Option.isSome_iff_exists.mp
    (aliasesOf_of_isAscii (isAscii_toAsciiLowercase hascii))
  refine ⟨hprice, rfl, fun k => ?_⟩
  rw [haliases, Option.getD_some]
  constructor
  · rintro (rfl | hk)
    · exact ⟨_, .canonical, rfl⟩
    · obtain ⟨x, hx, rfl⟩ := isVariant_of_alias haliases hk
      exact ⟨x, hx, modelKey_of_isVariant hx⟩
  · rintro ⟨x, hx, rfl⟩
    rcases alias_of_isVariant haliases hx with rfl | hmem
    · exact .inl rfl
    · rw [modelKey_of_isVariant hx] at hmem
      exact .inr hmem

end Entries

/-- A lowered name that is in the index can be dated. -/
theorem exists_lookup_dated {catalog : Catalog} {x date : List Char} (hx : x ≠ []) (hascii : IsAscii x)
    (hlower : toAsciiLowercase x = x) (hentry : (catalog.entries (String.ofList x)).isSome)
    (hdate : IsDateSuffix date) :
    ∃ price, catalog.lookup (String.ofList x ++ String.ofList date) = some (some price) := by
  rw [← String.ofList_append]
  cases hexact : catalog.entries (String.ofList (x ++ date)) with
  | some price => exact ⟨price, lookup_of_entry hexact⟩
  | none =>
    obtain ⟨price, hprice⟩ := Option.isSome_iff_exists.mp hentry
    refine ⟨price, ?_⟩
    unfold Catalog.lookup
    rw [hexact, String.toList_ofList, stripDateSuffix_append hx hascii hdate]
    simp only [Option.bind_eq_bind, Option.bind_some, hlower, hprice]
    rfl

/-- For every document with ASCII keys that stay different when they are lowered, and every order of the
map: a priced key resolves to its own price; every name in the index is a variant of a priced key and has
that key's price; and every variant of a priced key, and every name in the index with a date behind it,
resolves to a price. -/
theorem catalog_index_invariant (dollarsToNanos : F64 → Int64) (fromValue : JsonValue → Option RawEntry)
    (raw order : List (String × JsonValue)) (hascii : ∀ p ∈ raw, IsAscii p.1.toList)
    (hdistinct : (raw.map fun p => modelKey p.1.toList).Nodup) (horder : order.Perm raw) :
    ∃ catalog, Catalog.fromJson dollarsToNanos fromValue order = some catalog ∧
      (∀ p ∈ raw, ∀ price, priceOf dollarsToNanos fromValue p.1 p.2 = some price →
        catalog.lookup (modelKey p.1.toList) = some (some price)) ∧
      (∀ x price, catalog.entries x = some price → ∃ p ∈ raw,
        priceOf dollarsToNanos fromValue p.1 p.2 = some price ∧
        IsVariant (toAsciiLowercase p.1.toList) x.toList) ∧
      (∀ p ∈ raw, (priceOf dollarsToNanos fromValue p.1 p.2).isSome → ∀ x,
        IsVariant (toAsciiLowercase p.1.toList) x →
        ∃ price, catalog.lookup (String.ofList x) = some (some price)) ∧
      ∀ x, (catalog.entries x).isSome → x ≠ "" → ∀ date, IsDateSuffix date →
        ∃ price, catalog.lookup (x ++ String.ofList date) = some (some price) := by
  have hnodup : ((order.filterMap (entryOf dollarsToNanos fromValue)).map Aliased.key).Nodup :=
    (sublist_keys order).nodup ((horder.map _).nodup_iff.mpr hdistinct)
  have hentry : ∀ p ∈ raw, ∀ price, priceOf dollarsToNanos fromValue p.1 p.2 = some price →
      ∃ e ∈ order.filterMap (entryOf dollarsToNanos fromValue),
        entryOf dollarsToNanos fromValue p = some e ∧ e.value = price := by
    intro p hp price hprice
    obtain ⟨e, he⟩ : ∃ e, entryOf dollarsToNanos fromValue p = some e := by
      rw [entryOf, hprice]
      exact ⟨_, rfl⟩
    refine ⟨e, List.mem_filterMap.mpr ⟨p, horder.mem_iff.mpr hp, he⟩, he, ?_⟩
    exact Option.some.inj ((entry_spec (hascii p hp) he).1.symm.trans hprice)
  -- a name was put there by some entry, and with that entry's price
  have hvariant : ∀ x price, index (order.filterMap (entryOf dollarsToNanos fromValue)) x = some price →
      ∃ p ∈ raw, priceOf dollarsToNanos fromValue p.1 p.2 = some price ∧
        IsVariant (toAsciiLowercase p.1.toList) x.toList := by
    intro x price hx
    obtain ⟨e, he, rfl, hname⟩ := exists_of_index hnodup hx
    obtain ⟨p, hp, hof⟩ := List.mem_filterMap.mp he
    have hp := horder.mem_iff.mp hp
    obtain ⟨hprice, -, hnames⟩ := entry_spec (hascii p hp) hof
    obtain ⟨y, hy, rfl⟩ := (hnames x).mp hname
    exact ⟨p, hp, hprice, by rwa [String.toList_ofList]⟩
  refine ⟨_, fromJson_of_perm hascii horder, ?_, hvariant, ?_, ?_⟩
  · intro p hp price hprice
    obtain ⟨e, he, hof, rfl⟩ := hentry p hp price hprice
    obtain ⟨-, hkey, -⟩ := entry_spec (hascii p hp) hof
    rw [← hkey]
    exact lookup_of_entry (index_key hnodup he)
  · intro p hp hpriced x hx
    obtain ⟨price, hprice⟩ := Option.isSome_iff_exists.mp hpriced
    obtain ⟨e, he, hof, -⟩ := hentry p hp price hprice
    obtain ⟨-, -, hnames⟩ := entry_spec (hascii p hp) hof
    obtain ⟨found, hfound⟩ := exists_index hnodup he ((hnames _).mpr ⟨x, hx, rfl⟩)
    exact ⟨found, lookup_of_entry hfound⟩
  · intro x hx hne date hdate
    obtain ⟨price, hprice⟩ := Option.isSome_iff_exists.mp hx
    obtain ⟨p, hp, -, hx'⟩ := hvariant x price hprice
    -- what the index holds is lowered ASCII, so the date comes off where it was put on
    have hlower : toAsciiLowercase x.toList = x.toList := toAsciiLowercase_of_subset hx'.subset
    have hchars : IsAscii x.toList := fun c hc =>
      isAscii_toAsciiLowercase (hascii p hp) c (hx'.subset hc)
    have hnil : x.toList ≠ [] := fun h => hne (String.toList_eq_nil_iff.mp h)
    have hfound := exists_lookup_dated hnil hchars hlower (by rw [String.ofList_toList]; exact hx) hdate
    rwa [String.ofList_toList] at hfound

/-- A dated entry of a provider, whose unprefixed and undated name is the key of another entry. -/
def datedEntry : List (String × JsonValue) :=
  [("openai/gpt-4o-2024-08-06", dollars 1), ("gpt-4o", dollars 2)]

/-- The dated entry goes in last and does not take the other's key; a later date leads to that key. -/
theorem dated_entry_leaves_the_key :
    (∀ p ∈ datedEntry, IsAscii p.1.toList) ∧ (datedEntry.map fun p => modelKey p.1.toList).Nodup ∧
    datedEntry.reverse.Perm datedEntry ∧
    ∃ catalog, Catalog.fromJson wholeNanos wholeDollars datedEntry.reverse = some catalog ∧
      catalog.lookup "gpt-4o" = some (some { inputCostPerToken := 2000000000 }) ∧
      ∃ price, catalog.lookup
        ("gpt-4o" ++ String.ofList ['-', '2', '0', '2', '5', '0', '1', '0', '1']) = some (some price) := by
  have hascii : ∀ p ∈ datedEntry, IsAscii p.1.toList := by simp [datedEntry, IsAscii]
  have hdistinct : (datedEntry.map fun p => modelKey p.1.toList).Nodup := by decide +kernel
  have hperm : datedEntry.reverse.Perm datedEntry := List.reverse_perm _
  refine ⟨hascii, hdistinct, hperm, ?_⟩
  obtain ⟨catalog, hcatalog, hown, -, -, hdated⟩ :=
    catalog_index_invariant wholeNanos wholeDollars datedEntry _ hascii hdistinct hperm
  have hkey : modelKey "gpt-4o".toList = "gpt-4o" := by decide +kernel
  have hprice : priceOf wholeNanos wholeDollars "gpt-4o" (dollars 2)
      = some { inputCostPerToken := 2000000000 } := by decide +kernel
  have hmem : ("gpt-4o", dollars 2) ∈ datedEntry := List.mem_cons_of_mem _ List.mem_cons_self
  have hfound := hown ("gpt-4o", dollars 2) hmem _ hprice
  rw [hkey] at hfound
  have hindexed : ((⟨index (datedEntry.reverse.filterMap (entryOf wholeNanos wholeDollars))⟩ :
      Catalog).entries "gpt-4o").isSome := by decide +kernel
  have hentry : (catalog.entries "gpt-4o").isSome := by
    rw [Option.some.inj (hcatalog.symm.trans (fromJson_of_perm hascii hperm))]
    exact hindexed
  refine ⟨catalog, hcatalog, hfound, hdated "gpt-4o" hentry (by decide) _ ?_⟩
  exact .compact rfl (List.forall_iff_forall_mem.mp (by decide))

end Keplor.Pricing
