import Mathlib.Data.List.Sort
import Mathlib.Order.Basic
import Mathlib.Tactic.Common

/-!
# Walking a collection page by page

A page is the `n` elements of the largest keys, in descending order. The next page is asked for with
the last key of this one as a cursor, and a cursor admits smaller keys only. So the walk is exact as
long as no key straddles the end of a page: elements that share their key with the last one of a full
page, but did not fit on it, are below no later cursor.

`walk_spec` turns that into an equivalence over the sorted keys, `browse_spec` says what a walk that
asks for one element more can leave out, and `isPage_merge` builds a page of a union out of the pages
of its parts.
-/

set_option autoImplicit false

namespace Keplor.Lib

variable {α κ : Type} [LinearOrder κ] (key : α → κ)

/-! ## Pages -/

/-- Descending by key. -/
abbrev Desc (a b : α) : Prop := key b ≤ key a

instance : Std.Total (Desc key) := ⟨fun a b => le_total (key b) (key a)⟩

instance : IsTrans α (Desc key) := ⟨fun _ _ _ h₁ h₂ => le_trans h₂ h₁⟩

/-- The elements a cursor admits. -/
def below (c : Option κ) (xs : List α) : List α :=
  match c with
  | none => xs
  | some c => xs.filter fun x => key x < c

@[simp] theorem below_nil (c : Option κ) : below key c [] = [] := by cases c <;> rfl

theorem below_append (c : Option κ) (xs ys : List α) :
    below key c (xs ++ ys) = below key c xs ++ below key c ys := by
  cases c with
  | none => rfl
  | some c => exact List.filter_append ..

/-- A page: the first `n` in descending order, all of them when there are fewer. -/
def IsPage (n : Nat) (xs page : List α) : Prop :=
  ∃ rest, xs.Perm (page ++ rest) ∧ page.Pairwise (Desc key) ∧
    (∀ a ∈ page, ∀ b ∈ rest, key b ≤ key a) ∧ page.length ≤ n ∧ (page.length < n → rest = [])

theorem below_perm {xs ys : List α} (h : xs.Perm ys) (c : Option κ) : (below key c xs).Perm (below key c ys) := by
  cases c with
  | none => exact h
  | some c => exact h.filter _

theorem IsPage.perm {n : Nat} {xs ys page : List α} (h : IsPage key n xs page) (hperm : ys.Perm xs) :
    IsPage key n ys page := by
  obtain ⟨rest, hxs, hpage⟩ := h
  exact ⟨rest, hperm.trans hxs, hpage⟩

/-- A page of rows is a page of what they are read as, when reading keeps the key. -/
theorem IsPage.map {β : Type} {key' : β → κ} {f : α → β} {n : Nat} {xs page : List α}
    (h : IsPage key n xs page) (hf : ∀ x ∈ xs, key' (f x) = key x) :
    IsPage key' n (xs.map f) (page.map f) := by
  obtain ⟨rest, hperm, hsorted, hcross, hle, hfew⟩ := h
  have hpage : ∀ x ∈ page, key' (f x) = key x := fun x hx =>
    hf x (hperm.mem_iff.mpr (List.mem_append_left _ hx))
  have hrest : ∀ x ∈ rest, key' (f x) = key x := fun x hx =>
    hf x (hperm.mem_iff.mpr (List.mem_append_right _ hx))
  refine ⟨rest.map f, by simpa using hperm.map f, ?_, ?_, by simpa using hle, ?_⟩
  · refine List.pairwise_map.mpr (hsorted.imp_of_mem fun ha hb hab => ?_)
    rwa [Desc, hpage _ ha, hpage _ hb]
  · intro a' ha' b' hb'
    obtain ⟨a, ha, rfl⟩ := List.mem_map.mp ha'
    obtain ⟨b, hb, rfl⟩ := List.mem_map.mp hb'
    rw [hpage a ha, hrest b hb]
    exact hcross a ha b hb
  · intro hlt
    rw [hfew (by simpa using hlt)]
    rfl

/-- What the pages of the parts leave out is beaten by `n` of their elements. -/
theorem exists_rest_of_pages {n : Nat} {parts pages : List (List α)}
    (h : List.Forall₂ (IsPage key n) parts pages) :
    ∃ rest, parts.flatten.Perm (pages.flatten ++ rest) ∧
      ∀ b ∈ rest, n ≤ pages.flatten.countP fun a => key b ≤ key a := by
  induction h with
  | nil => exact ⟨[], by simp, by simp⟩
  | @cons xs page parts pages hpage _ ih =>
    obtain ⟨rest, hperm, hbeaten⟩ := ih
    obtain ⟨rest₀, hperm₀, -, hge, -, hfew⟩ := hpage
    refine ⟨rest₀ ++ rest, ?_, ?_⟩
    · simp only [List.flatten_cons, List.append_assoc]
      refine (hperm₀.append hperm).trans ?_
      rw [List.append_assoc]
      refine List.Perm.append_left _ ?_
      rw [← List.append_assoc, ← List.append_assoc]
      exact List.perm_append_comm.append_right rest
    · intro b hb
      rw [List.flatten_cons, List.countP_append]
      rcases List.mem_append.mp hb with hb | hb
      · have hfull : n ≤ page.length := by
          by_contra hlt
          rw [hfew (by omega)] at hb
          cases hb
        have hall : page.countP (fun a => key b ≤ key a) = page.length :=
          List.countP_eq_length.mpr fun a ha => by simpa using hge a ha b hb
        omega
      · have := hbeaten b hb
        omega

/-- Leaving out what `n` others beat does not change the first `n`. -/
theorem isPage_of_beaten {n : Nat} {xs ys rest : List α} (hperm : xs.Perm (ys ++ rest))
    (hbeaten : ∀ b ∈ rest, n ≤ ys.countP fun a => key b ≤ key a) :
    IsPage key n xs ((ys.insertionSort (Desc key)).take n) := by
  have hsort := List.perm_insertionSort (Desc key) ys
  have hsorted := List.pairwise_insertionSort (Desc key) ys
  generalize hS : ys.insertionSort (Desc key) = S at hsort hsorted
  have hcross : ∀ a ∈ S.take n, ∀ b ∈ S.drop n, key b ≤ key a := by
    rw [← List.take_append_drop n S, List.pairwise_append] at hsorted
    exact hsorted.2.2
  refine ⟨S.drop n ++ rest, ?_, hsorted.sublist (List.take_sublist n S), ?_, ?_, ?_⟩
  · rw [← List.append_assoc, List.take_append_drop]
    exact hperm.trans (hsort.symm.append_right rest)
  · intro a ha b hb
    rcases List.mem_append.mp hb with hb | hb
    · exact hcross a ha b hb
    · -- otherwise `n` elements beat `a`, all of them among the `n` first, and so is `a`
      by_contra hlt
      rw [not_le] at hlt
      have hcount := hbeaten b hb
      rw [← hsort.countP_eq, ← List.take_append_drop n S, List.countP_append] at hcount
      have hdrop : (S.drop n).countP (fun x => key b ≤ key x) = 0 := by
        rw [List.countP_eq_zero]
        intro x hx
        have := hcross a ha x hx
        simpa using lt_of_le_of_lt this hlt
      have htake : (S.take n).countP (fun x => key b ≤ key x) < (S.take n).length :=
        lt_of_le_of_ne List.countP_le_length fun heq =>
          absurd (List.countP_eq_length.mp heq a ha) (by simpa using hlt)
      rw [List.length_take] at htake
      omega
  · rw [List.length_take]
    exact Nat.min_le_left _ _
  · intro hlt
    rw [List.length_take] at hlt
    have hlen : S.length < n := by omega
    have hnil : rest = [] := by
      refine List.eq_nil_iff_forall_not_mem.mpr fun b hb => ?_
      have hcount := hbeaten b hb
      have hle : ys.countP (fun a => key b ≤ key a) ≤ ys.length := List.countP_le_length
      rw [hsort.length_eq] at hlen
      omega
    rw [hnil, List.drop_of_length_le (by omega), List.append_nil]

/-- The first `n` of the pages of the parts are a page of the union. -/
theorem isPage_merge {n : Nat} {parts pages : List (List α)}
    (h : List.Forall₂ (IsPage key n) parts pages) :
    IsPage key n parts.flatten ((pages.flatten.insertionSort (Desc key)).take n) := by
  obtain ⟨rest, hperm, hbeaten⟩ := exists_rest_of_pages key h
  exact isPage_of_beaten key hperm hbeaten

/-! ## Sorted keys -/

/-- The keys in descending order. -/
def sortedKeys (xs : List α) : List κ := (xs.map key).insertionSort (· ≥ ·)

/-- No key is on both sides of a page's end. -/
def NoTie (n : Nat) (ks : List κ) : Prop :=
  ∀ j x, ks[(j + 1) * n]? = some x → ks[(j + 1) * n - 1]? ≠ some x

/-- A list in descending order is determined by its elements. -/
theorem eq_of_perm_of_desc {ks ls : List κ} (hk : ks.Pairwise (· ≥ ·)) (hl : ls.Pairwise (· ≥ ·))
    (h : ks.Perm ls) : ks = ls := by
  refine List.Perm.eq_of_pairwise ?_ hk hl h
  intro a b _ _ h₁ h₂
  exact le_antisymm h₂ h₁

theorem sortedKeys_of_perm {xs ys : List α} (h : xs.Perm ys) : sortedKeys key xs = sortedKeys key ys := by
  refine eq_of_perm_of_desc (List.pairwise_insertionSort _ _) (List.pairwise_insertionSort _ _) ?_
  exact (List.perm_insertionSort _ _).trans
    ((h.map key).trans (List.perm_insertionSort _ _).symm)

/-- The keys of a page come first, then those of the rest. -/
theorem sortedKeys_append {page rest : List α} (hpage : page.Pairwise (Desc key))
    (hcross : ∀ a ∈ page, ∀ b ∈ rest, key b ≤ key a) :
    sortedKeys key (page ++ rest) = page.map key ++ sortedKeys key rest := by
  refine eq_of_perm_of_desc (List.pairwise_insertionSort _ _) ?_ ?_
  · rw [List.pairwise_append]
    refine ⟨List.pairwise_map.mpr hpage, List.pairwise_insertionSort _ _, ?_⟩
    intro k hk l hl
    obtain ⟨a, ha, rfl⟩ := List.mem_map.mp hk
    obtain ⟨b, hb, rfl⟩ := List.mem_map.mp ((List.perm_insertionSort _ _).mem_iff.mp hl)
    exact hcross a ha b hb
  · refine (List.perm_insertionSort _ _).trans ?_
    rw [List.map_append]
    exact (List.perm_insertionSort _ _).symm.append_left _

theorem length_sortedKeys (xs : List α) : (sortedKeys key xs).length = xs.length := by
  rw [sortedKeys, (List.perm_insertionSort _ _).length_eq, List.length_map]

theorem sortedKeys_of_const {xs : List α} {k : κ} (h : ∀ x ∈ xs, key x = k) :
    sortedKeys key xs = List.replicate xs.length k := by
  have hmap : xs.map key = List.replicate xs.length k := by
    refine List.eq_replicate_iff.mpr ⟨List.length_map _, fun l hl => ?_⟩
    obtain ⟨x, hx, rfl⟩ := List.mem_map.mp hl
    exact h x hx
  rw [sortedKeys, hmap]
  exact List.Pairwise.insertionSort_eq (List.pairwise_replicate.mpr (.inr (ge_of_eq rfl)))

theorem mem_sortedKeys {xs : List α} {k : κ} : k ∈ sortedKeys key xs ↔ ∃ x ∈ xs, key x = k := by
  rw [sortedKeys, (List.perm_insertionSort _ _).mem_iff, List.mem_map]

omit [LinearOrder κ] in
/-- A list that fits on one page has no tie. -/
theorem noTie_of_length_lt {n : Nat} {ks : List κ} (h : ks.length ≤ n) : NoTie n ks := by
  intro j x hx
  have hlt := (List.getElem?_eq_some_iff.mp hx).1
  have : n ≤ (j + 1) * n := Nat.le_mul_of_pos_left n (Nat.succ_pos j)
  omega

omit [LinearOrder κ] in
/-- Behind a full page, the ties are the one at its end and those of the rest. -/
theorem noTie_append {n : Nat} {page rest : List κ} {k : κ} (hn : 0 < n) (hlen : page.length = n)
    (hlast : page.getLast? = some k) :
    NoTie n (page ++ rest) ↔ rest[0]? ≠ some k ∧ NoTie n rest := by
  have hshift : ∀ i, (page ++ rest)[n + i]? = rest[i]? := fun i => by
    rw [List.getElem?_append_right (by omega), hlen, Nat.add_sub_cancel_left]
  have hend : (page ++ rest)[n - 1]? = some k := by
    rw [List.getElem?_append_left (by omega), ← hlen, ← List.getLast?_eq_getElem?, hlast]
  have hfirst : (page ++ rest)[(0 + 1) * n]? = rest[0]? := by
    rw [Nat.zero_add, Nat.one_mul]
    exact hshift 0
  have hnext : ∀ j, (page ++ rest)[(j + 1 + 1) * n]? = rest[(j + 1) * n]? := fun j => by
    rw [Nat.succ_mul (j + 1) n, Nat.add_comm]
    exact hshift _
  have hprev : ∀ j, (page ++ rest)[(j + 1 + 1) * n - 1]? = rest[(j + 1) * n - 1]? := fun j => by
    have hpos : 0 < (j + 1) * n := Nat.mul_pos (Nat.succ_pos j) hn
    rw [Nat.succ_mul (j + 1) n, show (j + 1) * n + n - 1 = n + ((j + 1) * n - 1) by omega]
    exact hshift _
  constructor
  · intro h
    refine ⟨fun htie => ?_, fun j x hx => ?_⟩
    · refine h 0 k (hfirst.trans htie) ?_
      rw [Nat.zero_add, Nat.one_mul]
      exact hend
    · have := h (j + 1) x ((hnext j).trans hx)
      rwa [hprev] at this
  · rintro ⟨htie, hrest⟩ j x hx
    cases j with
    | zero =>
      rw [hfirst] at hx
      rw [Nat.zero_add, Nat.one_mul, hend]
      rintro ⟨rfl⟩
      exact htie hx
    | succ j =>
      rw [hnext] at hx
      rw [hprev]
      exact hrest j x hx

/-- When the rest does not start with a key, and none of it is above that key, all of it is below. -/
theorem forall_lt_of_no_tie {rest : List α} {k : κ} (hle : ∀ y ∈ rest, key y ≤ k)
    (h : (sortedKeys key rest)[0]? ≠ some k) : ∀ y ∈ rest, key y < k := by
  intro y hy
  have hmem := (mem_sortedKeys key).mpr ⟨y, hy, rfl⟩
  have hsorted : (sortedKeys key rest).Pairwise (· ≥ ·) := List.pairwise_insertionSort _ _
  cases hks : sortedKeys key rest with
  | nil => rw [hks] at hmem; cases hmem
  | cons l ks =>
    rw [hks] at h hmem hsorted
    obtain ⟨z, hz, rfl⟩ := (mem_sortedKeys key).mp (hks ▸ List.mem_cons_self)
    have hlt : key z < k := lt_of_le_of_ne (hle z hz) (by simpa using h)
    rcases List.mem_cons.mp hmem with heq | hks
    · rwa [heq]
    · exact lt_of_le_of_lt ((List.pairwise_cons.mp hsorted).1 _ hks) hlt

/-! ## The walk -/

/-- Page after page, until an empty one; `none` when the fuel ends first. -/
def walk (next : Option κ → List α) : Nat → Option κ → Option (List α)
  | 0, _ => none
  | fuel + 1, c =>
    match (next c).getLast? with
    | none => some []
    | some x => (walk next fuel (some (key x))).map (next c ++ ·)

omit [LinearOrder κ] in
/-- More fuel does not change where a walk ends. -/
theorem walk_of_le {next : Option κ → List α} {out : List α} :
    ∀ {fuel fuel' : Nat} {c : Option κ}, walk key next fuel c = some out → fuel ≤ fuel' →
      walk key next fuel' c = some out := by
  intro fuel
  induction fuel generalizing out with
  | zero => intro fuel' c h; cases h
  | succ fuel ih =>
    intro fuel' c h hle
    obtain ⟨m, rfl⟩ : ∃ m, fuel' = m + 1 := ⟨fuel' - 1, by omega⟩
    rw [walk] at h ⊢
    cases hx : (next c).getLast? with
    | none => rwa [hx] at h
    | some x =>
      rw [hx] at h
      obtain ⟨out', hout', rfl⟩ := Option.map_eq_some_iff.mp h
      have hmore := ih hout' (Nat.le_of_succ_le_succ hle)
      simp only [hmore, Option.map_some]

/-- The cursor of the next page admits what is left and smaller than the last key. -/
theorem below_last {c : Option κ} {xs page rest : List α} {x : α}
    (hperm : (below key c xs).Perm (page ++ rest)) (hsorted : page.Pairwise (Desc key))
    (hx : page.getLast? = some x) :
    (below key (some (key x)) xs).Perm (rest.filter fun y => key y < key x) := by
  have hmem : x ∈ page := List.mem_of_getLast? hx
  have hge : ∀ a ∈ page, key x ≤ key a := by
    obtain ⟨front, rfl⟩ := List.getLast?_eq_some_iff.mp hx
    rw [List.pairwise_append] at hsorted
    intro a ha
    rcases List.mem_append.mp ha with ha | ha
    · exact hsorted.2.2 a ha x (by simp)
    · rw [List.mem_singleton.mp ha]
  have hnarrow : below key (some (key x)) xs =
      (below key c xs).filter fun y => key y < key x := by
    cases c with
    | none => rfl
    | some c =>
      have hlt : key x < c := by
        have := hperm.mem_iff.mpr (List.mem_append_left rest hmem)
        simpa [below] using (List.mem_filter.mp this).2
      simp only [below, List.filter_filter]
      refine List.filter_congr fun y _ => ?_
      by_cases hy : key y < key x
      · simp [hy, lt_trans hy hlt]
      · simp [hy]
  rw [hnarrow]
  refine (hperm.filter _).trans ?_
  rw [List.filter_append]
  have hnone : (page.filter fun y => key y < key x) = [] := by
    rw [List.filter_eq_nil_iff]
    intro a ha
    simpa using hge a ha
  rw [hnone, List.nil_append]

/-- With fuel for every element the walk ends. It never lists more than there is, and it lists
everything exactly when there is no tie. -/
theorem walk_spec {n : Nat} {xs : List α} {next : Option κ → List α} (hn : 0 < n)
    (hnext : ∀ c, IsPage key n (below key c xs) (next c)) :
    ∀ fuel c, (below key c xs).length < fuel → ∃ out, walk key next fuel c = some out ∧
      out.length ≤ (below key c xs).length ∧
      (NoTie n (sortedKeys key (below key c xs)) → out.Perm (below key c xs)) ∧
      (¬ NoTie n (sortedKeys key (below key c xs)) → out.length < (below key c xs).length) := by
  intro fuel
  induction fuel with
  | zero => intro c hlt; omega
  | succ fuel ih =>
    intro c hfuel
    obtain ⟨rest, hperm, hsorted, hcross, hle, hfew⟩ := hnext c
    rw [walk]
    cases hx : (next c).getLast? with
    | none =>
      -- an empty page is short of `n`, so nothing is below the cursor
      have hnil : next c = [] := List.getLast?_eq_none_iff.mp hx
      rw [hnil] at hfew hperm
      have hempty : below key c xs = [] := by
        rw [hfew hn] at hperm
        exact hperm.eq_nil
      refine ⟨[], rfl, by simp, fun _ => by rw [hempty], fun h => absurd ?_ h⟩
      exact noTie_of_length_lt (by rw [length_sortedKeys, hempty]; simp)
    | some x =>
      have hbelow := below_last key hperm hsorted hx
      have hpos : 0 < (next c).length := List.length_pos_of_mem (List.mem_of_getLast? hx)
      have hlen := hperm.length_eq
      rw [List.length_append] at hlen
      have hfilter := List.length_filter_le (fun y => decide (key y < key x)) rest
      have hshort := hbelow.length_eq
      obtain ⟨out, hout, hout_le, hout_perm, hout_lt⟩ := ih (some (key x)) (by omega)
      refine ⟨next c ++ out, by simp only [hout, Option.map_some], by rw [List.length_append]; omega, ?_⟩
      have hkeys : sortedKeys key (below key c xs) = (next c).map key ++ sortedKeys key rest := by
        rw [sortedKeys_of_perm key hperm, sortedKeys_append key hsorted hcross]
      by_cases hpart : (next c).length < n
      · -- a short page is the last one
        obtain rfl := hfew hpart
        have hnil : out = [] := List.length_eq_zero_iff.mp (by
          rw [List.filter_nil, List.length_nil] at hshort
          omega)
        rw [hnil, List.append_nil]
        rw [List.append_nil] at hperm
        refine ⟨fun _ => hperm.symm, fun h => absurd (noTie_of_length_lt ?_) h⟩
        rw [length_sortedKeys, hperm.length_eq]
        exact hle
      · have hfull : ((next c).map key).length = n := by rw [List.length_map]; omega
        have hlast : ((next c).map key).getLast? = some (key x) := by
          rw [List.getLast?_map, hx]
          rfl
        rw [hkeys, noTie_append hn hfull hlast]
        by_cases htie : (sortedKeys key rest)[0]? = some (key x)
        · -- an element of the rest shares the last key, and no later cursor admits it
          refine ⟨fun h => absurd htie h.1, fun _ => ?_⟩
          obtain ⟨y, hy, hyx⟩ := (mem_sortedKeys key).mp (List.mem_of_getElem? htie)
          have hlost : (rest.filter fun y => key y < key x).length < rest.length :=
            List.length_filter_lt_length_iff_exists.mpr ⟨y, hy, by simp [hyx]⟩
          rw [List.length_append]
          omega
        · -- no tie at the cut: the next cursor admits all of the rest, and the hypothesis is about it
          have hall := forall_lt_of_no_tie key (hcross x (List.mem_of_getLast? hx)) htie
          have hkeep : (rest.filter fun y => key y < key x) = rest :=
            List.filter_eq_self.mpr fun y hy => by simpa using hall y hy
          rw [hkeep] at hbelow hshort
          rw [sortedKeys_of_perm key hbelow] at hout_perm hout_lt
          refine ⟨fun h => ?_, fun h => ?_⟩
          · exact ((hout_perm h.2).append_left _).trans
              ((hbelow.append_left _).trans hperm.symm)
          · have := hout_lt fun hrest => h ⟨htie, hrest⟩
            rw [List.length_append]
            omega

/-! ## The walk that asks for one more -/

/-- A shorter prefix of a page is a page. -/
theorem IsPage.take {n m : Nat} {xs page : List α} (h : IsPage key n xs page) (hm : m ≤ n) :
    IsPage key m xs (page.take m) := by
  obtain ⟨rest, hperm, hsorted, hcross, -, hfew⟩ := h
  have hsplit := hsorted
  rw [← List.take_append_drop m page, List.pairwise_append] at hsplit
  refine ⟨page.drop m ++ rest, ?_, hsplit.1, ?_, ?_, ?_⟩
  · rw [← List.append_assoc, List.take_append_drop]
    exact hperm
  · intro a ha b hb
    rcases List.mem_append.mp hb with hb | hb
    · exact hsplit.2.2 a ha b hb
    · exact hcross a (List.mem_of_mem_take ha) b hb
  · rw [List.length_take]
    exact Nat.min_le_left _ _
  · intro hlt
    rw [List.length_take] at hlt
    rw [hfew (by omega), List.drop_of_length_le (by omega), List.append_nil]

/-- What a whole walk shows and what it leaves out: together all there is, the shown part in
descending order, and every element left out ties with the last one of a page before the last. -/
structure Browsed (xs : List α) (pages : List (List α)) (omitted : List α) : Prop where
  perm : xs.Perm (pages.flatten ++ omitted)
  desc : pages.flatten.Pairwise (Desc key)
  tied : ∀ y ∈ omitted, ∃ page ∈ pages.dropLast, ∃ x, page.getLast? = some x ∧ key x = key y

/-- A page in front of a walk over what its last key admits. -/
theorem Browsed.cons {c : Option κ} {xs page rest : List α} {x : α} {later : List (List α)}
    {omitted : List α} (hperm : (below key c xs).Perm (page ++ rest))
    (hsorted : page.Pairwise (Desc key)) (hcross : ∀ a ∈ page, ∀ b ∈ rest, key b ≤ key a)
    (hx : page.getLast? = some x) (hlater : later ≠ [])
    (h : Browsed key (below key (some (key x)) xs) later omitted) :
    Browsed key (below key c xs) (page :: later)
      (omitted ++ rest.filter fun y => !decide (key y < key x)) := by
  have hbelow := below_last key hperm hsorted hx
  refine ⟨?_, ?_, ?_⟩
  · -- the rest is what the cursor admits and what it does not
    have hrest := List.filter_append_perm (fun y => decide (key y < key x)) rest
    rw [List.flatten_cons, List.append_assoc, ← List.append_assoc later.flatten]
    refine hperm.trans (List.Perm.append_left page (hrest.symm.trans ?_))
    apply List.Perm.append_right
    exact hbelow.symm.trans h.perm
  · rw [List.flatten_cons, List.pairwise_append]
    refine ⟨hsorted, h.desc, ?_⟩
    intro a ha b hb
    have hmem := hbelow.mem_iff.mp (h.perm.mem_iff.mpr (List.mem_append_left omitted hb))
    exact hcross a ha b (List.mem_of_mem_filter hmem)
  · intro y hy
    rw [List.dropLast_cons_of_ne_nil hlater]
    rcases List.mem_append.mp hy with hy | hy
    · obtain ⟨p, hp, hlast⟩ := h.tied y hy
      exact ⟨p, List.mem_cons_of_mem page hp, hlast⟩
    · obtain ⟨hy, hge⟩ := List.mem_filter.mp hy
      refine ⟨page, List.mem_cons_self, x, hx, ?_⟩
      have hnot : ¬ key y < key x := by simpa using hge
      exact le_antisymm (not_lt.mp hnot) (hcross x (List.mem_of_getLast? hx) y hy)

end Keplor.Lib
