import Keplor.Lib.Paging

/-!
# Walking a collection by offsets

Every page is cut out of the whole list, which is sorted anew for each call: from the offset on, one
element more than the page holds, so that the client knows whether to ask again. A sort by part of
the key leaves ties, and each call may resolve them in its own way.

The pages fit together, whatever each call makes of the ties, exactly when no tie lies across the end
of a page (`offsets_perm_iff`). Where one does, two calls that resolve it differently show one element
twice and another not at all.
-/

set_option autoImplicit false

namespace Keplor.Lib

variable {α κ : Type} [LinearOrder κ] (key : α → κ)

/-- Pages of `n` out of answers of `n + 1`, by the number of the call; `none` when the fuel ends
first. -/
def offsetWalk (n : Nat) (answer : Nat → List α) : Nat → Nat → Option (List α)
  | 0, _ => none
  | fuel + 1, i =>
    if n < (answer i).length then (offsetWalk n answer fuel (i + 1)).map ((answer i).take n ++ ·)
    else some ((answer i).take n)

/-- The `i`-th answer, cut out of what the `i`-th call sorted. -/
def cut (n : Nat) (sorted : Nat → List α) (i : Nat) : List α := ((sorted i).drop (i * n)).take (n + 1)

/-- Lists that the calls may have sorted `xs` into. -/
structure Sortings (xs : List α) (sorted : Nat → List α) : Prop where
  perm : ∀ i, (sorted i).Perm xs
  desc : ∀ i, (sorted i).Pairwise (Desc key)

section Cut

omit [LinearOrder κ]

variable {n : Nat} {sorted : Nat → List α} {i : Nat}

theorem take_cut : (cut n sorted i).take n = ((sorted i).drop (i * n)).take n := by
  unfold cut
  rw [List.take_take, Nat.min_eq_left (Nat.le_succ n)]

theorem lt_length_cut : n < (cut n sorted i).length ↔ (i + 1) * n < (sorted i).length := by
  unfold cut
  rw [List.length_take, List.length_drop, Nat.succ_mul]
  omega

/-- What was shown before, and this page. -/
theorem take_append_take_cut :
    (sorted i).take (i * n) ++ (cut n sorted i).take n = (sorted i).take ((i + 1) * n) := by
  rw [take_cut, Nat.succ_mul, List.take_add]

end Cut

/-! ## Where nothing ties -/

/-- The keys of a sorted list are the sorted keys. -/
theorem map_key_of_desc {xs s : List α} (hperm : s.Perm xs) (hdesc : s.Pairwise (Desc key)) :
    s.map key = sortedKeys key xs := by
  apply eq_of_perm_of_desc
  · exact List.pairwise_map.mpr hdesc
  · exact List.pairwise_insertionSort _ _
  · exact (hperm.map key).trans (List.perm_insertionSort _ _).symm

/-- In front of a strict descent, a sorted list has the elements above the next key. -/
theorem take_eq_filter {s : List α} {m : Nat} {y : α} (hdesc : s.Pairwise (Desc key))
    (hy : s[m]? = some y) (hstrict : ∀ x, s[m - 1]? = some x → 0 < m → key y < key x) :
    s.take m = s.filter fun x => decide (key y < key x) := by
  obtain ⟨hm, hget⟩ := List.getElem?_eq_some_iff.mp hy
  have hsplit := hdesc
  rw [← List.take_append_drop m s, List.pairwise_append] at hsplit
  obtain ⟨htake, hdrop, -⟩ := hsplit
  have hrest : s.drop m = y :: s.drop (m + 1) := by
    rw [List.drop_eq_getElem_cons hm, hget]
  rw [hrest, List.pairwise_cons] at hdrop
  have habove : ∀ x ∈ s.take m, key y < key x := by
    intro x hx
    have hpos : 0 < m := by
      by_contra hzero
      rw [Nat.eq_zero_of_not_pos hzero, List.take_zero] at hx
      cases hx
    -- the last one in front is above `y`, and the others are not below it
    obtain ⟨z, hz⟩ : ∃ z, s[m - 1]? = some z := ⟨_, List.getElem?_eq_getElem (by omega)⟩
    have hlast : s.take m = s.take (m - 1) ++ [z] := by
      conv => lhs; rw [show m = m - 1 + 1 by omega]
      rw [List.take_add_one, hz]
      rfl
    rw [hlast, List.pairwise_append] at htake
    have hzx : key z ≤ key x := by
      rw [hlast] at hx
      rcases List.mem_append.mp hx with hx | hx
      · exact htake.2.2 x hx z (by simp)
      · rw [List.mem_singleton.mp hx]
    exact lt_of_lt_of_le (hstrict z hz hpos) hzx
  have hbelow : ∀ x ∈ s.drop m, ¬ key y < key x := by
    intro x hx
    rw [hrest] at hx
    rcases List.mem_cons.mp hx with rfl | hx
    · exact lt_irrefl _
    · exact not_lt.mpr (hdrop.1 x hx)
  conv_rhs => rw [← List.take_append_drop m s]
  rw [List.filter_append, List.filter_eq_self.mpr, List.filter_eq_nil_iff.mpr, List.append_nil]
  · intro x hx
    simpa using hbelow x hx
  · intro x hx
    simpa using habove x hx

/-- Where the keys descend strictly, every sort puts the same elements in front. -/
theorem take_perm_take {xs s t : List α} {m : Nat} (hs : s.Perm xs) (ht : t.Perm xs)
    (hsd : s.Pairwise (Desc key)) (htd : t.Pairwise (Desc key)) (hm : m < xs.length)
    (hno : ∀ k, (sortedKeys key xs)[m]? = some k → 0 < m → (sortedKeys key xs)[m - 1]? ≠ some k) :
    (s.take m).Perm (t.take m) := by
  have hstrict : ∀ {s : List α}, s.Perm xs → s.Pairwise (Desc key) →
      ∀ {y x : α}, s[m]? = some y → s[m - 1]? = some x → 0 < m → key y < key x := by
    intro s hs hsd y x hy hx hpos
    have hkeys := map_key_of_desc key hs hsd
    have hky : (sortedKeys key xs)[m]? = some (key y) := by
      rw [← hkeys, List.getElem?_map, hy]
      rfl
    have hkx : (sortedKeys key xs)[m - 1]? = some (key x) := by
      rw [← hkeys, List.getElem?_map, hx]
      rfl
    have hle : key y ≤ key x := by
      obtain ⟨hlt, rfl⟩ := List.getElem?_eq_some_iff.mp hy
      obtain ⟨hlt', rfl⟩ := List.getElem?_eq_some_iff.mp hx
      exact List.pairwise_iff_getElem.mp hsd (m - 1) m hlt' hlt (by omega)
    refine lt_of_le_of_ne hle fun heq => hno (key y) hky hpos ?_
    rw [hkx, heq]
  obtain ⟨y, hy⟩ : ∃ y, s[m]? = some y :=
    ⟨_, List.getElem?_eq_getElem (by rw [hs.length_eq]; exact hm)⟩
  obtain ⟨z, hz⟩ : ∃ z, t[m]? = some z :=
    ⟨_, List.getElem?_eq_getElem (by rw [ht.length_eq]; exact hm)⟩
  have hkey : key y = key z := by
    have hky := congrArg (·[m]?) (map_key_of_desc key hs hsd)
    have hkz := congrArg (·[m]?) (map_key_of_desc key ht htd)
    simp only [List.getElem?_map, hy, hz, Option.map_some] at hky hkz
    exact Option.some.inj (hky.trans hkz.symm)
  rw [take_eq_filter key hsd hy fun x hx => hstrict hs hsd hy hx,
    take_eq_filter key htd hz fun x hx => hstrict ht htd hz hx, hkey]
  exact (hs.trans ht.symm).filter _

/-- Without ties the pages fit together, whatever each call sorted. -/
theorem offsetWalk_perm {n : Nat} {xs : List α} {sorted : Nat → List α} (hn : 0 < n)
    (hsort : Sortings key xs sorted) (hno : NoTie n (sortedKeys key xs)) :
    ∀ fuel i, xs.length < i + fuel → i = 0 ∨ i * n < xs.length →
      ∃ out, offsetWalk n (cut n sorted) fuel i = some out ∧
        ((sorted i).take (i * n) ++ out).Perm xs := by
  intro fuel
  induction fuel with
  | zero =>
    intro i hfuel hi
    have hle : i ≤ i * n := Nat.le_mul_of_pos_right i hn
    omega
  | succ fuel ih =>
    intro i hfuel hi
    have hlen := (hsort.perm i).length_eq
    unfold offsetWalk
    by_cases hmore : n < (cut n sorted i).length
    · have hlt : (i + 1) * n < xs.length := hlen ▸ lt_length_cut.mp hmore
      obtain ⟨out, hout, hperm⟩ := ih (i + 1) (by omega) (.inr hlt)
      refine ⟨(cut n sorted i).take n ++ out, by simp only [hmore, if_true, hout, Option.map_some], ?_⟩
      rw [← List.append_assoc, take_append_take_cut]
      have hfront : ((sorted i).take ((i + 1) * n)).Perm ((sorted (i + 1)).take ((i + 1) * n)) :=
        take_perm_take key (hsort.perm i) (hsort.perm (i + 1)) (hsort.desc i) (hsort.desc (i + 1)) hlt
          fun k hk _ => hno i k hk
      exact (hfront.append_right out).trans hperm
    · refine ⟨(cut n sorted i).take n, by simp only [hmore, if_false], ?_⟩
      rw [take_append_take_cut, List.take_of_length_le]
      · exact hsort.perm i
      · exact not_lt.mp (mt lt_length_cut.mpr hmore)

/-! ## Where a tie lies across the end of a page -/

omit [LinearOrder κ] in
/-- A walk that does not end before a call goes through it. -/
theorem offsetWalk_reaches {n : Nat} {answer : Nat → List α} {m : Nat} :
    ∀ {fuel i : Nat} {out : List α}, offsetWalk n answer fuel i = some out → i ≤ m →
      (∀ k, i ≤ k → k < m → n < (answer k).length) →
        ∃ shown fuel' out', offsetWalk n answer fuel' m = some out' ∧ out = shown ++ out' := by
  intro fuel
  induction fuel with
  | zero => intro i out h; cases h
  | succ fuel ih =>
    intro i out h him hmore
    rcases Nat.eq_or_lt_of_le him with rfl | hlt
    · exact ⟨[], fuel + 1, out, h, rfl⟩
    · unfold offsetWalk at h
      rw [if_pos (hmore i (Nat.le_refl i) hlt)] at h
      obtain ⟨later, hlater, rfl⟩ := Option.map_eq_some_iff.mp h
      obtain ⟨shown, fuel', out', hout', rfl⟩ :=
        ih hlater hlt fun k hk hkm => hmore k (Nat.le_of_succ_le hk) hkm
      exact ⟨(answer i).take n ++ shown, fuel', out', hout', by rw [List.append_assoc]⟩

omit [LinearOrder κ] in
/-- Two neighbouring pages in what a walk shows. -/
theorem offsetWalk_neighbours {n : Nat} {answer : Nat → List α} {fuel j : Nat} {out : List α}
    (h : offsetWalk n answer fuel 0 = some out) (hmore : ∀ k, k ≤ j → n < (answer k).length) :
    ∃ before after, out = before ++ ((answer j).take n ++ ((answer (j + 1)).take n ++ after)) := by
  obtain ⟨before, fuel₁, out₁, hout₁, rfl⟩ :=
    offsetWalk_reaches (m := j) h (Nat.zero_le j) fun k _ hk => hmore k (Nat.le_of_lt hk)
  cases fuel₁ with
  | zero => cases hout₁
  | succ fuel₁ =>
    unfold offsetWalk at hout₁
    rw [if_pos (hmore j (Nat.le_refl j))] at hout₁
    obtain ⟨out₂, hout₂, rfl⟩ := Option.map_eq_some_iff.mp hout₁
    cases fuel₁ with
    | zero => cases hout₂
    | succ fuel₁ =>
      unfold offsetWalk at hout₂
      split at hout₂
      · obtain ⟨out₃, -, rfl⟩ := Option.map_eq_some_iff.mp hout₂
        exact ⟨before, out₃, rfl⟩
      · cases hout₂
        exact ⟨before, [], by rw [List.append_nil]⟩

/-- Two neighbours with one key can stand in either order. -/
theorem desc_swap {front back : List α} {x y : α} (hkey : key x = key y)
    (h : (front ++ x :: y :: back).Pairwise (Desc key)) :
    (front ++ y :: x :: back).Pairwise (Desc key) := by
  simp only [List.pairwise_append, List.pairwise_cons, List.mem_cons, forall_eq_or_imp, Desc] at h ⊢
  obtain ⟨hfront, ⟨⟨hxy, hx⟩, hy, hback⟩, hcross⟩ := h
  refine ⟨hfront, ⟨⟨hkey.le, hy⟩, hx, hback⟩, ?_⟩
  intro a ha
  exact ⟨(hcross a ha).2.1, (hcross a ha).1, (hcross a ha).2.2⟩

/-- A tie across the end of a page: the calls up to there resolve it one way and the later ones the
other, and one element is shown twice. -/
theorem exists_sortings_of_tie {n : Nat} {xs : List α} (hn : 0 < n) (hnd : xs.Nodup)
    (htie : ¬ NoTie n (sortedKeys key xs)) :
    ∃ sorted, Sortings key xs sorted ∧
      ∀ fuel out, offsetWalk n (cut n sorted) fuel 0 = some out → ¬ out.Perm xs := by
  unfold NoTie at htie
  push Not at htie
  obtain ⟨j, k, hk, hk'⟩ := htie
  have hsperm := List.perm_insertionSort (Desc key) xs
  have hsdesc := List.pairwise_insertionSort (Desc key) xs
  generalize xs.insertionSort (Desc key) = s at hsperm hsdesc
  have hkeys := map_key_of_desc key hsperm hsdesc
  have hpos : 0 < (j + 1) * n := Nat.mul_pos (Nat.succ_pos j) hn
  rw [← hkeys, List.getElem?_map] at hk hk'
  obtain ⟨y, hy, hyk⟩ := Option.map_eq_some_iff.mp hk
  obtain ⟨x, hx, hxk⟩ := Option.map_eq_some_iff.mp hk'
  obtain ⟨hylt, hyget⟩ := List.getElem?_eq_some_iff.mp hy
  obtain ⟨hxlt, hxget⟩ := List.getElem?_eq_some_iff.mp hx
  -- the two neighbours, and what is around them
  have hsucc : (j + 1) * n - 1 + 1 = (j + 1) * n := Nat.sub_add_cancel hpos
  obtain ⟨front, back, hlen, hs⟩ : ∃ front back, front.length = (j + 1) * n - 1 ∧
      s = front ++ x :: y :: back := by
    refine ⟨s.take ((j + 1) * n - 1), s.drop ((j + 1) * n + 1), ?_, ?_⟩
    · rw [List.length_take]
      omega
    · conv => lhs; rw [← List.take_append_drop ((j + 1) * n - 1) s]
      rw [List.drop_eq_getElem_cons hxlt, hxget]
      have hnext : s.drop ((j + 1) * n - 1 + 1) = y :: s.drop ((j + 1) * n + 1) := by
        rw [hsucc, List.drop_eq_getElem_cons hylt, hyget]
      rw [hnext]
  subst hs
  refine ⟨fun i => if i ≤ j then front ++ x :: y :: back else front ++ y :: x :: back, ⟨?_, ?_⟩, ?_⟩
  · intro i
    split
    · exact hsperm
    · exact ((List.Perm.swap x y back).append_left front).trans hsperm
  · intro i
    split
    · exact hsdesc
    · exact desc_swap key (hxk.trans hyk.symm) hsdesc
  · intro fuel out hout hperm
    obtain ⟨before, after, rfl⟩ := offsetWalk_neighbours (j := j) hout fun i hi => by
      rw [lt_length_cut]
      have hle : (i + 1) * n ≤ (j + 1) * n := Nat.mul_le_mul_right n (by omega)
      simp only [hi, if_true]
      omega
    -- the last element of one page is the first one of the next
    have hlast : x ∈ (cut n (fun i => if i ≤ j then front ++ x :: y :: back
        else front ++ y :: x :: back) j).take n := by
      rw [take_cut, if_pos (Nat.le_refl j)]
      apply List.mem_of_getElem? (i := n - 1)
      rw [List.getElem?_take_of_lt (by omega), List.getElem?_drop,
        show j * n + (n - 1) = front.length by rw [hlen, Nat.succ_mul]; omega]
      simp
    have hfirst : x ∈ (cut n (fun i => if i ≤ j then front ++ x :: y :: back
        else front ++ y :: x :: back) (j + 1)).take n := by
      rw [take_cut, if_neg (by omega)]
      apply List.mem_of_getElem? (i := 0)
      rw [List.getElem?_take_of_lt hn, List.getElem?_drop,
        show (j + 1) * n + 0 = front.length + 1 by omega]
      simp
    have hnd' := (List.nodup_append.mp (hperm.nodup_iff.mpr hnd)).2.1
    exact (List.nodup_append.mp hnd').2.2 x hlast x (List.mem_append_left after hfirst) rfl

/-- Whatever each call makes of the ties, the walk shows every element exactly once: if and only if
no tie lies across the end of a page. -/
theorem offsets_perm_iff {n : Nat} {xs : List α} (hn : 0 < n) (hnd : xs.Nodup) :
    (∀ sorted, Sortings key xs sorted → ∀ fuel, xs.length < fuel →
      ∃ out, offsetWalk n (cut n sorted) fuel 0 = some out ∧ out.Perm xs) ↔
      NoTie n (sortedKeys key xs) := by
  constructor
  · intro h
    by_contra htie
    obtain ⟨sorted, hsort, hbad⟩ := exists_sortings_of_tie key hn hnd htie
    obtain ⟨out, hout, hperm⟩ := h sorted hsort (xs.length + 1) (Nat.lt_succ_self _)
    exact hbad _ out hout hperm
  · intro hno sorted hsort fuel hfuel
    obtain ⟨out, hout, hperm⟩ := offsetWalk_perm key hn hsort hno fuel 0 (by omega) (.inl rfl)
    refine ⟨out, hout, ?_⟩
    simpa using hperm

end Keplor.Lib
