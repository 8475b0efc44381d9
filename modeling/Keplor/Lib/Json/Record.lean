import Keplor.Lib.Json.RoundTrip

/-!
# Records as objects

How a derived serializer writes a record and a derived deserializer reads one: a member per field
in declaration order; on the way back, a field given twice is an error, an unknown one is skipped,
and a missing one is an error unless the field is optional or has a default.

The two directions meet in `field_of_mem`: in an object whose keys are distinct, looking a key up
gives the member written under it. Every record's round trip is that lemma once per field.
-/

set_option autoImplicit false

namespace Keplor.Lib.Json

/-! ## Looking a field up -/

/-- The value under a key: `none` when the key is there twice, `some none` when it is missing. -/
def field (ms : List (String × Json)) (k : String) : Option (Option Json) :=
  match ms.filter fun m => m.1 == k with
  | [] => some none
  | [m] => some (some m.2)
  | _ => none

section Read

variable {α : Type} (d : Json → Option α) (ms : List (String × Json)) (k : String)

/-- A field that has to be there. -/
def required : Option α :=
  match field ms k with
  | some (some j) => d j
  | _ => none

/-- A field that may be missing or `null`. -/
def optional : Option (Option α) :=
  match field ms k with
  | some (some .null) => some none
  | some (some j) => (d j).map some
  | some none => some none
  | none => none

/-- A field with a default for when it is missing. -/
def defaulted (a : α) : Option α :=
  match field ms k with
  | some (some j) => d j
  | some none => some a
  | none => none

end Read

section Lookup

variable {ms : List (String × Json)} {k : String} {j : Json}

theorem filter_of_mem (hk : (ms.map Prod.fst).Nodup) (h : (k, j) ∈ ms) :
    ms.filter (fun m => m.1 == k) = [(k, j)] := by
  induction ms with
  | nil => exact absurd h (by simp)
  | cons m ms ih =>
    simp only [List.map_cons, List.nodup_cons] at hk
    rcases List.mem_cons.mp h with rfl | h
    · have hnone : ms.filter (fun m => m.1 == k) = [] := by
        rw [List.filter_eq_nil_iff]
        intro m hm he
        exact hk.1 (List.mem_map.mpr ⟨m, hm, by simpa using he⟩)
      simp [hnone]
    · have hne : m.1 ≠ k := by
        rintro rfl
        exact hk.1 (List.mem_map.mpr ⟨_, h, rfl⟩)
      rw [List.filter_cons_of_neg (by simpa using hne)]
      exact ih hk.2 h

theorem field_of_mem (hk : (ms.map Prod.fst).Nodup) (h : (k, j) ∈ ms) :
    field ms k = some (some j) := by
  rw [field, filter_of_mem hk h]

variable {α : Type} {d : Json → Option α}

theorem required_of_mem (hk : (ms.map Prod.fst).Nodup) (h : (k, j) ∈ ms) :
    required d ms k = d j := by
  rw [required, field_of_mem hk h]

end Lookup

/-! ## Values of a field -/

/-- An optional value; absent is `null`. -/
def ofOption {α : Type} (f : α → Json) : Option α → Json
  | none => .null
  | some a => f a

/-- A string. -/
def toStr : Json → Option String
  | .str s => some s
  | _ => none

/-- A 64-bit signed integer. -/
def ofInt64 (x : Int64) : Json :=
  .int ⟨x.toInt, Int.le_trans (by decide) x.le_toInt, Int.lt_trans x.toInt_lt (by decide)⟩

/-- Read a 64-bit signed integer. -/
def toInt64 : Json → Option Int64
  | .int i => if i.val < 9223372036854775808 then some (.ofInt i.val) else none
  | _ => none

/-- A natural number of at most 64 bits. -/
def ofNat64 (n : Nat) (h : n < 18446744073709551616) : Json := .int (.ofNat n h)

/-- Read a natural number below a bound. -/
def toNatBelow (b : Nat) : Json → Option Nat
  | .int i => if 0 ≤ i.val ∧ i.val < b then some i.val.toNat else none
  | _ => none

/-- A `u16`, a `u32`, a `u64`. -/
def ofU16 (n : UInt16) : Json := ofNat64 n.toNat (JsonInt.lt_of_u16 n)
def ofU32 (n : UInt32) : Json := ofNat64 n.toNat (JsonInt.lt_of_u32 n)
def ofU64 (n : UInt64) : Json := ofNat64 n.toNat n.toNat_lt

/-- Read a `u16`, a `u32`, a `u64`. -/
def toU16 (j : Json) : Option UInt16 := (toNatBelow (2 ^ 16) j).map .ofNat
def toU32 (j : Json) : Option UInt32 := (toNatBelow (2 ^ 32) j).map .ofNat
def toU64 (j : Json) : Option UInt64 := (toNatBelow (2 ^ 64) j).map .ofNat

theorem toInt64_ofInt64 (x : Int64) : toInt64 (ofInt64 x) = some x := by
  have h : x.toInt < 9223372036854775808 := x.toInt_lt
  simp [toInt64, ofInt64, h]

theorem toNatBelow_ofNat64 {b n : Nat} (hb : n < b) (h : n < 18446744073709551616) :
    toNatBelow b (ofNat64 n h) = some n := by
  have : (0 : Int) ≤ n ∧ (n : Int) < b := ⟨by omega, by omega⟩
  simp [toNatBelow, ofNat64, JsonInt.ofNat, this]

theorem toU16_ofU16 (n : UInt16) : toU16 (ofU16 n) = some n := by
  rw [toU16, ofU16, toNatBelow_ofNat64 n.toNat_lt, Option.map_some, UInt16.ofNat_toNat]

theorem toU32_ofU32 (n : UInt32) : toU32 (ofU32 n) = some n := by
  rw [toU32, ofU32, toNatBelow_ofNat64 n.toNat_lt, Option.map_some, UInt32.ofNat_toNat]

theorem toU64_ofU64 (n : UInt64) : toU64 (ofU64 n) = some n := by
  rw [toU64, ofU64, toNatBelow_ofNat64 n.toNat_lt, Option.map_some, UInt64.ofNat_toNat]

/-- An optional field whose values are never `null` reads back. -/
theorem optional_ofOption {α : Type} {d : Json → Option α} {f : α → Json} {ms : List (String × Json)}
    {k : String} {o : Option α} (hk : (ms.map Prod.fst).Nodup) (h : (k, ofOption f o) ∈ ms)
    (hne : ∀ a, f a ≠ .null) (hd : ∀ a, o = some a → d (f a) = some a) :
    optional d ms k = some o := by
  rw [optional, field_of_mem hk h]
  cases o with
  | none => rfl
  | some a =>
    simp only [ofOption]
    split
    · rename_i he
      simp only [Option.some.injEq] at he
      exact absurd he (hne a)
    · rename_i he
      simp only [Option.some.injEq] at he
      rw [← he, hd a rfl]
      rfl
    · rename_i he; exact absurd he (by simp)
    · rename_i he; exact absurd he (by simp)

/-! ## Values without doubles

`Flat n j`: no double in `j`, and at most `n` levels of nesting. Such a value is read as written
wherever the reader has `n` levels left. -/

/-- A value of bounded depth that every reader reads as written. -/
structure Flat (n : Nat) (j : Json) : Prop where
  depth_le : depth j ≤ n
  reread : ∀ ff, reread ff j = some j

theorem Flat.mono {n m : Nat} {j : Json} (h : Flat n j) (hnm : n ≤ m) : Flat m j :=
  ⟨Nat.le_trans h.depth_le hnm, h.reread⟩

theorem Flat.null (n : Nat) : Flat n .null := ⟨Nat.zero_le n, fun _ => rfl⟩

theorem Flat.str (n : Nat) (s : String) : Flat n (.str s) := ⟨Nat.zero_le n, fun _ => rfl⟩

theorem Flat.int (n : Nat) (i : JsonInt) : Flat n (.int i) := ⟨Nat.zero_le n, fun _ => rfl⟩

theorem Flat.ofOption {α : Type} {f : α → Json} {n : Nat} (h : ∀ a, Flat n (f a)) (o : Option α) :
    Flat n (Json.ofOption f o) := by
  cases o with
  | none => exact Flat.null n
  | some a => exact h a

theorem rereadMembers_of_flat {ff : FloatFormat} {n : Nat} {ms : List (String × Json)}
    (h : ∀ m ∈ ms, Flat n m.2) : rereadMembers ff ms = some ms := by
  induction ms with
  | nil => rfl
  | cons m ms ih =>
    obtain ⟨k, v⟩ := m
    have hv : Json.reread ff v = some v := (h (k, v) (by simp)).reread ff
    rw [rereadMembers, rereadMember, hv, ih fun x hx => h x (List.mem_cons_of_mem _ hx)]
    rfl

theorem Flat.obj {n : Nat} {ms : List (String × Json)} (h : ∀ m ∈ ms, Flat n m.2) :
    Flat (n + 1) (.obj ms) where
  depth_le := Nat.succ_le_succ (depthMembers_le fun m hm => (h m hm).depth_le)
  reread ff := by rw [Json.reread, rereadMembers_of_flat h]; rfl

theorem rereadMembers_append (ff : FloatFormat) (as bs : List (String × Json)) :
    rereadMembers ff (as ++ bs)
      = (rereadMembers ff as).bind fun xs => (rereadMembers ff bs).map (xs ++ ·) := by
  induction as with
  | nil => cases h : rereadMembers ff bs <;> simp [rereadMembers, h]
  | cons m as ih =>
    rw [List.cons_append, rereadMembers, rereadMembers, ih]
    cases rereadMember ff m with
    | none => rfl
    | some n =>
      cases rereadMembers ff as with
      | none => rfl
      | some xs => cases rereadMembers ff bs <;> rfl

theorem depthMembers_append (as bs : List (String × Json)) :
    depthMembers (as ++ bs) = max (depthMembers as) (depthMembers bs) := by
  induction as with
  | nil => simp [depthMembers]
  | cons m as ih => simp only [List.cons_append, depthMembers, ih, max_assoc]

/-- One member among flat ones: the others are read as written, and only its own depth counts. -/
theorem parse_print_member (ff : FloatFormat) {limit n : Nat} {as bs : List (String × Json)}
    (k : String) (v : Json) (ha : ∀ m ∈ as, Flat n m.2) (hb : ∀ m ∈ bs, Flat n m.2)
    (hn : n ≤ limit) :
    parse ff (limit + 1) (print ff (.obj (as ++ (k, v) :: bs)))
      = if depth v ≤ limit then (reread ff v).map fun w => .obj (as ++ (k, w) :: bs) else none := by
  have hdepth : depth (.obj (as ++ (k, v) :: bs)) ≤ limit + 1 ↔ depth v ≤ limit := by
    have h1 := depthMembers_le fun m hm => (ha m hm).depth_le
    have h2 := depthMembers_le fun m hm => (hb m hm).depth_le
    rw [depth, depthMembers_append, depthMembers, depthMember]
    omega
  have hreread : reread ff (.obj (as ++ (k, v) :: bs))
      = (reread ff v).map fun w => .obj (as ++ (k, w) :: bs) := by
    rw [reread, rereadMembers_append, rereadMembers_of_flat ha, rereadMembers,
      rereadMembers_of_flat hb, rereadMember]
    cases reread ff v <;> rfl
  rw [parse_print, hreread]
  by_cases hd : depth v ≤ limit
  · rw [if_pos (hdepth.mpr hd), if_pos hd]
  · rw [if_neg (fun h => hd (hdepth.mp h)), if_neg hd]

/-! ## Sizes -/

theorem length_le_printMembers (ff : FloatFormat) (as bs : List (String × Json)) (k : String)
    (v : Json) : (print ff v).length ≤ (printMembers ff (as ++ (k, v) :: bs)).length := by
  induction as with
  | nil =>
    simp only [List.nil_append, printMembers, printMember, List.cons_append, List.length_cons,
      List.length_append]
    omega
  | cons m as ih =>
    simp only [List.cons_append, printMembers, List.length_cons, List.length_append]
    omega

/-- A member's value is no longer than the object. -/
theorem length_le_print_obj (ff : FloatFormat) (as bs : List (String × Json)) (k : String)
    (v : Json) : (print ff v).length ≤ (print ff (.obj (as ++ (k, v) :: bs))).length := by
  have h := length_le_printMembers ff as bs k v
  cases as with
  | nil => simpa [print, printMembers] using h
  | cons m as => simpa [print, printMembers] using h

end Keplor.Lib.Json
