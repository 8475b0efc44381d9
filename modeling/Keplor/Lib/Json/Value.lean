import Mathlib.Data.List.Basic
import Mathlib.Data.String.Basic
import Mathlib.Tactic.Common

/-!
# JSON trees, and the canonical ones

`Json` is a tree as it stands in a text: members of an object in the order they are written, and a
key as often as it is written. A reader that keeps objects in an ordered map sees less than that —
one value per key, keys in order — and what it sees is the *canonical* tree, `canon j`.

The two facts the rest of the development needs of canonical trees are that `canon` produces one
(`isCanon_canon`) and leaves one alone (`canon_eq_self`), so that a value which was read once is
never changed by being written and read again.

Integers carry their range: `-2⁶³ … 2⁶⁴ - 1`, what fits a signed or an unsigned 64-bit word. Every
other number is a finite double, known here by its bits alone.
-/

set_option autoImplicit false

namespace Keplor.Lib

/-- A finite IEEE 754 double: the exponent field is not all ones. -/
structure F64 where
  bits : BitVec 64
  finite : bits.toNat / 2 ^ 52 % 2 ^ 11 ≠ 2047
  deriving DecidableEq

/-- An integer of 64 bits, signed or unsigned. -/
structure JsonInt where
  val : Int
  lo : -9223372036854775808 ≤ val
  hi : val < 18446744073709551616
  deriving DecidableEq

/-- A natural number of at most 64 bits. -/
def JsonInt.ofNat (n : Nat) (h : n < 18446744073709551616) : JsonInt := ⟨n, by omega, by omega⟩

theorem JsonInt.lt_of_u16 (n : UInt16) : n.toNat < 18446744073709551616 :=
  Nat.lt_trans n.toNat_lt (by decide)

theorem JsonInt.lt_of_u32 (n : UInt32) : n.toNat < 18446744073709551616 :=
  Nat.lt_trans n.toNat_lt (by decide)

/-- A JSON text, as a tree. -/
inductive Json where
  | null
  | bool (b : Bool)
  | int (i : JsonInt)
  | float (x : F64)
  | str (s : String)
  | arr (xs : List Json)
  | obj (ms : List (String × Json))

namespace Json

/-- Induction over the tree, with one hypothesis for every element and every member. -/
theorem induct {motive : Json → Prop} (null : motive .null) (bool : ∀ b, motive (.bool b))
    (int : ∀ i, motive (.int i)) (float : ∀ x, motive (.float x)) (str : ∀ s, motive (.str s))
    (arr : ∀ xs, (∀ x ∈ xs, motive x) → motive (.arr xs))
    (obj : ∀ ms : List (String × Json), (∀ m ∈ ms, motive m.2) → motive (.obj ms)) :
    ∀ j, motive j
  | .null => null
  | .bool b => bool b
  | .int i => int i
  | .float x => float x
  | .str s => str s
  | .arr xs => arr xs fun x hx =>
      have : sizeOf x < sizeOf xs := List.sizeOf_lt_of_mem hx
      induct null bool int float str arr obj x
  | .obj ms => obj ms fun m hm =>
      have : sizeOf m < sizeOf ms := List.sizeOf_lt_of_mem hm
      have : sizeOf m.2 < sizeOf m := by cases m; simp
      induct null bool int float str arr obj m.2
termination_by j => sizeOf j

mutual

/-- Equality of trees, decided. -/
def beq : Json → Json → Bool
  | .null, .null => true
  | .bool a, .bool b => a == b
  | .int a, .int b => decide (a = b)
  | .float a, .float b => decide (a = b)
  | .str a, .str b => a == b
  | .arr xs, .arr ys => beqList xs ys
  | .obj xs, .obj ys => beqMembers xs ys
  | _, _ => false
termination_by structural j => j

/-- Equality of element lists. -/
def beqList : List Json → List Json → Bool
  | [], [] => true
  | x :: xs, y :: ys => beq x y && beqList xs ys
  | _, _ => false
termination_by structural xs => xs

/-- Equality of one member. -/
def beqMember : String × Json → String × Json → Bool
  | (k, v), m => k == m.1 && beq v m.2
termination_by structural m => m

/-- Equality of member lists. -/
def beqMembers : List (String × Json) → List (String × Json) → Bool
  | [], [] => true
  | x :: xs, y :: ys => beqMember x y && beqMembers xs ys
  | _, _ => false
termination_by structural xs => xs

end

theorem beqList_iff {xs : List Json} (ih : ∀ x ∈ xs, ∀ y, beq x y = true ↔ x = y) :
    ∀ ys, beqList xs ys = true ↔ xs = ys := by
  induction xs with
  | nil => intro ys; cases ys <;> simp [beqList]
  | cons x xs ihx =>
    intro ys
    cases ys with
    | nil => simp [beqList]
    | cons y ys =>
      simp only [beqList, Bool.and_eq_true, List.cons.injEq]
      rw [ih x (by simp) y, ihx (fun z hz => ih z (by simp [hz])) ys]

theorem beqMembers_iff {xs : List (String × Json)}
    (ih : ∀ m ∈ xs, ∀ y, beq m.2 y = true ↔ m.2 = y) :
    ∀ ys, beqMembers xs ys = true ↔ xs = ys := by
  induction xs with
  | nil => intro ys; cases ys <;> simp [beqMembers]
  | cons m xs ihx =>
    obtain ⟨k, v⟩ := m
    intro ys
    cases ys with
    | nil => simp [beqMembers]
    | cons n ys =>
      obtain ⟨l, w⟩ := n
      simp only [beqMembers, beqMember, Bool.and_eq_true, beq_iff_eq, List.cons.injEq,
        Prod.mk.injEq]
      rw [ih (k, v) (by simp) w, ihx (fun z hz => ih z (by simp [hz])) ys]

theorem beq_iff : ∀ j k : Json, beq j k = true ↔ j = k := by
  intro j
  induction j using Json.induct with
  | null => intro k; cases k <;> simp [beq]
  | bool b => intro k; cases k <;> simp [beq]
  | int i => intro k; cases k <;> simp [beq]
  | float x => intro k; cases k <;> simp [beq]
  | str s => intro k; cases k <;> simp [beq]
  | arr xs ih =>
    intro k
    cases k with
    | arr ys => simpa [beq] using beqList_iff ih ys
    | _ => simp [beq]
  | obj ms ih =>
    intro k
    cases k with
    | obj ns => simpa [beq] using beqMembers_iff ih ns
    | _ => simp [beq]

instance : DecidableEq Json := fun j k => decidable_of_iff _ (beq_iff j k)

/-! ## Nesting depth -/

mutual

/-- How many arrays and objects stand around the innermost value. -/
def depth : Json → Nat
  | .arr xs => depthList xs + 1
  | .obj ms => depthMembers ms + 1
  | _ => 0
termination_by structural j => j

/-- The deepest of the elements. -/
def depthList : List Json → Nat
  | [] => 0
  | x :: xs => max (depth x) (depthList xs)
termination_by structural xs => xs

/-- The depth of one member's value. -/
def depthMember : String × Json → Nat
  | (_, v) => depth v
termination_by structural m => m

/-- The deepest of the members. -/
def depthMembers : List (String × Json) → Nat
  | [] => 0
  | m :: ms => max (depthMember m) (depthMembers ms)
termination_by structural ms => ms

end

theorem depthMembers_le {ms : List (String × Json)} {n : Nat} (h : ∀ m ∈ ms, depth m.2 ≤ n) :
    depthMembers ms ≤ n := by
  induction ms with
  | nil => simp [depthMembers]
  | cons m ms ih =>
    obtain ⟨k, v⟩ := m
    rw [depthMembers, depthMember]
    exact max_le (h (k, v) (by simp)) (ih fun x hx => h x (by simp [hx]))

/-! ## Objects as ordered maps -/

/-- Put a value under a key, keeping the keys in order; a key that is there gets the new value. -/
def insertKey {α : Type} (k : String) (v : α) : List (String × α) → List (String × α)
  | [] => [(k, v)]
  | (l, w) :: ms =>
      if k = l then (k, v) :: ms
      else if k < l then (k, v) :: (l, w) :: ms
      else (l, w) :: insertKey k v ms

/-- The map read back from a member list: later members replace earlier ones of the same key. -/
def toMap {α : Type} (ms : List (String × α)) : List (String × α) :=
  ms.foldl (fun acc m => insertKey m.1 m.2 acc) []

/-- Keys strictly in order, hence each at most once. -/
def SortedKeys {α : Type} (ms : List (String × α)) : Prop :=
  ms.Pairwise fun a b => a.1 < b.1

mutual

/-- The tree a reader with ordered maps sees. -/
def canon : Json → Json
  | .arr xs => .arr (canonList xs)
  | .obj ms => .obj (toMap (canonMembers ms))
  | j => j
termination_by structural j => j

/-- `canon` on elements. -/
def canonList : List Json → List Json
  | [] => []
  | x :: xs => canon x :: canonList xs
termination_by structural xs => xs

/-- `canon` on one member. -/
def canonMember : String × Json → String × Json
  | (k, v) => (k, canon v)
termination_by structural m => m

/-- `canon` on members. -/
def canonMembers : List (String × Json) → List (String × Json)
  | [] => []
  | m :: ms => canonMember m :: canonMembers ms
termination_by structural ms => ms

end

mutual

/-- Every object in the tree has its keys in order. -/
def IsCanon : Json → Prop
  | .arr xs => IsCanonList xs
  | .obj ms => SortedKeys ms ∧ IsCanonMembers ms
  | _ => True
termination_by structural j => j

/-- `IsCanon` of elements. -/
def IsCanonList : List Json → Prop
  | [] => True
  | x :: xs => IsCanon x ∧ IsCanonList xs
termination_by structural xs => xs

/-- `IsCanon` of one member. -/
def IsCanonMember : String × Json → Prop
  | (_, v) => IsCanon v
termination_by structural m => m

/-- `IsCanon` of members. -/
def IsCanonMembers : List (String × Json) → Prop
  | [] => True
  | m :: ms => IsCanonMember m ∧ IsCanonMembers ms
termination_by structural ms => ms

end

theorem canonList_eq_map (xs : List Json) : canonList xs = xs.map canon := by
  induction xs with
  | nil => rfl
  | cons x xs ih => rw [canonList, ih]; rfl

theorem canonMembers_eq_map (ms : List (String × Json)) :
    canonMembers ms = ms.map fun m => (m.1, canon m.2) := by
  induction ms with
  | nil => rfl
  | cons m ms ih => obtain ⟨k, v⟩ := m; rw [canonMembers, canonMember, ih]; rfl

theorem isCanonList_iff (xs : List Json) : IsCanonList xs ↔ ∀ x ∈ xs, IsCanon x := by
  induction xs with
  | nil => simp [IsCanonList]
  | cons x xs ih => simp [IsCanonList, ih]

theorem isCanonMembers_iff (ms : List (String × Json)) :
    IsCanonMembers ms ↔ ∀ m ∈ ms, IsCanon m.2 := by
  induction ms with
  | nil => simp [IsCanonMembers]
  | cons m ms ih => obtain ⟨k, v⟩ := m; simp [IsCanonMembers, IsCanonMember, ih]

section Map

variable {α : Type} {k l : String} {v : α} {m : String × α} {ms acc : List (String × α)}

theorem mem_insertKey (h : m ∈ insertKey k v ms) : m = (k, v) ∨ m ∈ ms := by
  induction ms with
  | nil => simpa [insertKey] using h
  | cons n ms ih =>
    obtain ⟨l, w⟩ := n
    rw [insertKey] at h
    split at h
    · rcases List.mem_cons.mp h with h | h
      · exact Or.inl h
      · exact Or.inr (by simp [h])
    · split at h
      · rcases List.mem_cons.mp h with h | h
        · exact Or.inl h
        · exact Or.inr h
      · rcases List.mem_cons.mp h with h | h
        · exact Or.inr (by simp [h])
        · exact (ih h).imp id fun h => by simp [h]

theorem sortedKeys_insertKey (hs : SortedKeys ms) : SortedKeys (insertKey k v ms) := by
  induction ms with
  | nil => simp [insertKey, SortedKeys]
  | cons n ms ih =>
    obtain ⟨l, w⟩ := n
    obtain ⟨hl, hms⟩ := List.pairwise_cons.mp hs
    rw [insertKey]
    split
    · rename_i he
      subst he
      exact List.pairwise_cons.mpr ⟨hl, hms⟩
    · split
      · rename_i hlt
        refine List.pairwise_cons.mpr ⟨fun a ha => ?_, hs⟩
        rcases List.mem_cons.mp ha with rfl | ha
        · exact hlt
        · exact lt_trans hlt (hl a ha)
      · rename_i hne hnlt
        refine List.pairwise_cons.mpr ⟨fun a ha => ?_, ih hms⟩
        rcases mem_insertKey ha with rfl | ha
        · exact lt_of_le_of_ne (not_lt.mp hnlt) (Ne.symm hne)
        · exact hl a ha

theorem insertKey_of_lt (h : ∀ a ∈ acc, a.1 < k) : insertKey k v acc = acc ++ [(k, v)] := by
  induction acc with
  | nil => rfl
  | cons n acc ih =>
    obtain ⟨l, w⟩ := n
    have hl : l < k := h (l, w) (by simp)
    rw [insertKey, if_neg (ne_of_gt hl), if_neg (lt_asymm hl), ih fun a ha => h a (by simp [ha])]
    rfl

end Map

theorem sortedKeys_foldl {α : Type} {ms acc : List (String × α)} (h : SortedKeys acc) :
    SortedKeys (ms.foldl (fun acc m => insertKey m.1 m.2 acc) acc) := by
  induction ms generalizing acc with
  | nil => exact h
  | cons m ms ih => exact ih (sortedKeys_insertKey h)

theorem mem_foldl_insertKey {α : Type} {m : String × α} {ms acc : List (String × α)}
    (h : m ∈ ms.foldl (fun acc m => insertKey m.1 m.2 acc) acc) : m ∈ acc ∨ m ∈ ms := by
  induction ms generalizing acc with
  | nil => exact Or.inl h
  | cons n ms ih =>
    rcases ih h with h | h
    · rcases mem_insertKey h with rfl | h
      · exact Or.inr (by simp)
      · exact Or.inl h
    · exact Or.inr (by simp [h])

theorem sortedKeys_toMap {α : Type} (ms : List (String × α)) : SortedKeys (toMap ms) :=
  sortedKeys_foldl List.Pairwise.nil

theorem mem_toMap {α : Type} {m : String × α} {ms : List (String × α)} (h : m ∈ toMap ms) :
    m ∈ ms := by
  rcases mem_foldl_insertKey h with h | h
  · exact absurd h (by simp)
  · exact h

theorem foldl_insertKey_of_sorted {α : Type} {ms acc : List (String × α)}
    (h : SortedKeys (acc ++ ms)) :
    ms.foldl (fun acc m => insertKey m.1 m.2 acc) acc = acc ++ ms := by
  induction ms generalizing acc with
  | nil => simp
  | cons m ms ih =>
    have hlt : ∀ a ∈ acc, a.1 < m.1 := fun a ha =>
      (List.pairwise_append.mp h).2.2 a ha m (by simp)
    rw [List.foldl_cons, insertKey_of_lt hlt, ih (by simpa using h)]
    simp

/-- An ordered map survives being rebuilt. -/
theorem toMap_eq_self {α : Type} {ms : List (String × α)} (h : SortedKeys ms) : toMap ms = ms := by
  rw [toMap, foldl_insertKey_of_sorted (by simpa using h), List.nil_append]

/-- What the reader sees is canonical. -/
theorem isCanon_canon (j : Json) : IsCanon (canon j) := by
  induction j using Json.induct with
  | null | bool | int | float | str => trivial
  | arr xs ih =>
    rw [canon, canonList_eq_map, IsCanon, isCanonList_iff]
    intro x hx
    obtain ⟨y, hy, rfl⟩ := List.mem_map.mp hx
    exact ih y hy
  | obj ms ih =>
    rw [canon, canonMembers_eq_map, IsCanon, isCanonMembers_iff]
    refine ⟨sortedKeys_toMap _, fun m hm => ?_⟩
    obtain ⟨n, hn, rfl⟩ := List.mem_map.mp (mem_toMap hm)
    exact ih n hn

/-- A canonical tree is what the reader sees of it. -/
theorem canon_eq_self {j : Json} (h : IsCanon j) : canon j = j := by
  induction j using Json.induct with
  | null | bool | int | float | str => rfl
  | arr xs ih =>
    rw [IsCanon, isCanonList_iff] at h
    rw [canon, canonList_eq_map, List.map_congr_left fun x hx => ih x hx (h x hx), List.map_id']
  | obj ms ih =>
    rw [IsCanon, isCanonMembers_iff] at h
    have hmap : (ms.map fun m => (m.1, canon m.2)) = ms := by
      conv_rhs => rw [← List.map_id' ms]
      exact List.map_congr_left fun m hm => by rw [ih m hm (h.2 m hm)]
    rw [canon, canonMembers_eq_map, hmap, toMap_eq_self h.1]

end Json

/-- A tree as a reader with ordered maps holds it. -/
structure JsonValue where
  tree : Json
  canonical : tree.IsCanon

namespace JsonValue

theorem ext {v w : JsonValue} (h : v.tree = w.tree) : v = w := by
  cases v; cases w; simp_all

instance : DecidableEq JsonValue := fun v w =>
  decidable_of_iff (v.tree = w.tree) ⟨ext, fun h => h ▸ rfl⟩

/-- The value read from a tree. -/
def ofTree (j : Json) : JsonValue := ⟨j.canon, j.isCanon_canon⟩

theorem ofTree_tree (v : JsonValue) : ofTree v.tree = v := ext (Json.canon_eq_self v.canonical)

/-- A member of an object, by key; `none` when the value is not an object or has no such key. -/
def get? (v : JsonValue) (k : String) : Option Json :=
  match v.tree with
  | .obj ms => (ms.find? fun m => m.1 == k).map Prod.snd
  | _ => none

theorem find?_insertKey {α : Type} (k l : String) (v : α) (ms : List (String × α)) :
    (Json.insertKey k v ms).find? (fun m => m.1 == l)
      = if k = l then some (k, v) else ms.find? fun m => m.1 == l := by
  induction ms with
  | nil => by_cases h : k = l <;> simp [Json.insertKey, h]
  | cons m ms ih =>
    obtain ⟨j, w⟩ := m
    simp only [Json.insertKey]
    by_cases hkj : k = j
    · subst hkj
      by_cases h : k = l <;> simp [h]
    · rw [if_neg hkj]
      by_cases hlt : k < j
      · rw [if_pos hlt]
        by_cases h : k = l <;> simp [h]
      · rw [if_neg hlt, List.find?_cons, ih]
        by_cases h : k = l
        · subst h
          have hjk : (j == k) = false := by simpa using Ne.symm hkj
          simp [hjk]
        · simp [List.find?_cons, h]

theorem find?_toMap {α : Type} (l : String) (ms : List (String × α)) :
    (Json.toMap ms).find? (fun m => m.1 == l) = ms.reverse.find? fun m => m.1 == l := by
  have h : ∀ acc : List (String × α),
      (ms.foldl (fun acc m => Json.insertKey m.1 m.2 acc) acc).find? (fun m => m.1 == l)
        = (ms.reverse.find? fun m => m.1 == l).or (acc.find? fun m => m.1 == l) := by
    induction ms with
    | nil => intro acc; simp
    | cons m ms ih =>
      obtain ⟨k, v⟩ := m
      intro acc
      rw [List.foldl_cons, ih, find?_insertKey, List.reverse_cons, List.find?_append, Option.or_assoc]
      by_cases hm : k = l <;> simp [hm]
  rw [Json.toMap, h []]
  simp

/-- The member under a key is the last one written under it. -/
theorem get?_ofTree_obj (ms : List (String × Json)) (k : String) :
    (ofTree (.obj ms)).get? k = (ms.reverse.find? fun m => m.1 == k).map fun m => m.2.canon := by
  have hmap : (Json.canonMembers ms).reverse.find? (fun m => m.1 == k)
      = (ms.reverse.find? fun m => m.1 == k).map fun m => (m.1, m.2.canon) := by
    rw [Json.canonMembers_eq_map, ← List.map_reverse, List.find?_map]
    rfl
  simp only [get?, ofTree, Json.canon]
  rw [find?_toMap, hmap, Option.map_map]
  rfl

end JsonValue

end Keplor.Lib
