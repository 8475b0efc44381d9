import Keplor.Lib.Paging
import Mathlib.Data.List.Duplicate

/-!
# The first elements of a list with strangers and copies

A list is meant to hold a set, and its `n` largest elements are asked for. When are they the `n`
largest of the set, although the list lacks some of the set's elements, holds others that are not in
it, and holds some of them more than once? `leading_eq_iff` says it: when everything that is wrong
with the list comes after `n` elements of the set.

The second half is about pages by a key that does not tell all elements apart. Such a page is as good
as one by a finer key where it does not end between elements it cannot tell apart.
-/

set_option autoImplicit false

namespace Keplor.Lib

variable {κ : Type} [LinearOrder κ]

/-- The `n` largest, in descending order. -/
def leading (n : Nat) (xs : List κ) : List κ := (xs.insertionSort (· ≥ ·)).take n

variable {n : Nat} {xs ys ws page : List κ}

theorem leading_of_sorted (hsorted : xs.Pairwise (· ≥ ·)) (hlen : xs.length ≤ n) : leading n xs = xs := by
  rw [leading, List.Pairwise.insertionSort_eq hsorted, List.take_of_length_le hlen]

/-- A page of keys is the leading ones. -/
theorem IsPage.eq_leading (h : IsPage id n xs page) : page = leading n xs := by
  obtain ⟨rest, hperm, hsorted, hcross, hle, hfew⟩ := h
  have hall : xs.insertionSort (· ≥ ·) = page ++ rest.insertionSort (· ≥ ·) := by
    refine eq_of_perm_of_desc (List.pairwise_insertionSort _ _) ?_ ?_
    · rw [List.pairwise_append]
      refine ⟨hsorted, List.pairwise_insertionSort _ _, fun a ha b hb => ?_⟩
      exact hcross a ha b ((List.perm_insertionSort _ _).mem_iff.mp hb)
    · refine (List.perm_insertionSort _ _).trans (hperm.trans ?_)
      exact (List.perm_insertionSort _ _).symm.append_left page
  rw [leading, hall]
  rcases Nat.lt_or_ge page.length n with hlt | hge
  · rw [hfew hlt, List.insertionSort_nil, List.append_nil, List.take_of_length_le hle]
  · rw [List.take_left' (by omega)]

/-- What is in a list but not among its leading elements comes after all of them. -/
theorem leading_of_mem_drop {x : κ} (hx : x ∈ (xs.insertionSort (· ≥ ·)).drop n) :
    (leading n xs).length = n ∧ ∀ y ∈ leading n xs, x ≤ y := by
  have hsorted := List.pairwise_insertionSort (· ≥ ·) xs
  rw [leading]
  generalize xs.insertionSort (· ≥ ·) = sorted at hx hsorted ⊢
  constructor
  · rw [List.length_take]
    have hpos := List.length_pos_of_mem hx
    rw [List.length_drop] at hpos
    omega
  · rw [← List.take_append_drop n sorted, List.pairwise_append] at hsorted
    exact fun y hy => hsorted.2.2 y hy x hx

theorem leading_sublist : (leading n xs).Sublist (xs.insertionSort (· ≥ ·)) := List.take_sublist _ _

theorem mem_of_mem_leading {x : κ} (h : x ∈ leading n xs) : x ∈ xs :=
  (List.perm_insertionSort _ _).mem_iff.mp (leading_sublist.subset h)

theorem nodup_leading (h : xs.Nodup) : (leading n xs).Nodup :=
  ((List.perm_insertionSort (· ≥ ·) xs).nodup_iff.mpr h).sublist leading_sublist

/-- Leading elements are counted in the whole list. -/
theorem le_countP_of_leading {p : κ → Bool} (hlen : (leading n xs).length = n)
    (hp : ∀ y ∈ leading n xs, p y = true) : n ≤ xs.countP p := by
  calc n = (leading n xs).countP p := by rw [List.countP_eq_length.mpr hp, hlen]
    _ ≤ (xs.insertionSort (· ≥ ·)).countP p := leading_sublist.countP_le
    _ = xs.countP p := (List.perm_insertionSort _ _).countP_eq p

/-- A leading element has fewer than `n` elements above it. -/
theorem countP_lt_of_mem_leading {x : κ} (h : x ∈ leading n xs) : xs.countP (x < ·) < n := by
  have hperm := List.perm_insertionSort (· ≥ ·) xs
  have hsorted := List.pairwise_insertionSort (· ≥ ·) xs
  rw [← hperm.countP_eq]
  rw [leading] at h
  generalize xs.insertionSort (· ≥ ·) = sorted at h hsorted ⊢
  rw [← List.take_append_drop n sorted, List.pairwise_append] at hsorted
  have hdrop : (sorted.drop n).countP (x < ·) = 0 := by
    apply List.countP_eq_zero.mpr
    intro y hy
    simpa using hsorted.2.2 x h y hy
  have htake : (sorted.take n).countP (x < ·) < (sorted.take n).length := by
    refine lt_of_le_of_ne List.countP_le_length fun heq => ?_
    exact absurd (List.countP_eq_length.mp heq x h) (by simp)
  calc sorted.countP (x < ·)
      = (sorted.take n).countP (x < ·) := by
        rw [← List.take_append_drop n sorted, List.countP_append, hdrop, List.take_append_drop,
          Nat.add_zero]
    _ < (sorted.take n).length := htake
    _ ≤ n := List.length_take_le _ _

/-- If `n` elements are not below `x`, neither is a leading one. -/
theorem le_of_mem_leading {x y : κ} (hx : n ≤ xs.countP (x ≤ ·)) (hy : y ∈ leading n xs) : x ≤ y := by
  by_contra hlt
  rw [not_le] at hlt
  have hfew := countP_lt_of_mem_leading hy
  have hmono : xs.countP (x ≤ ·) ≤ xs.countP (y < ·) := by
    apply List.countP_mono_left
    intro z _ hz
    simpa using lt_of_lt_of_le hlt (by simpa using hz)
  omega

theorem mem_drop_of_notMem_leading {x : κ} (hx : x ∈ xs) (hnot : x ∉ leading n xs) :
    x ∈ (xs.insertionSort (· ≥ ·)).drop n := by
  rw [← (List.perm_insertionSort (· ≥ ·) xs).mem_iff,
    ← List.take_append_drop n (xs.insertionSort (· ≥ ·)), List.mem_append] at hx
  exact hx.resolve_left hnot

/-- A second occurrence of what leads once is behind. -/
theorem mem_drop_of_duplicate {x : κ} (htwice : xs.Duplicate x) (honce : (leading n xs).count x ≤ 1) :
    x ∈ (xs.insertionSort (· ≥ ·)).drop n := by
  rw [List.duplicate_iff_two_le_count, ← (List.perm_insertionSort (· ≥ ·) xs).count_eq,
    ← List.take_append_drop n (xs.insertionSort (· ≥ ·)), List.count_append, ← leading] at htwice
  exact List.count_pos_iff.mp (by omega)

theorem of_leading_eq (hws : ws.Nodup) (heq : leading n xs = leading n ws) :
    (∀ w ∈ ws, w ∉ xs → n ≤ ws.countP (w < ·)) ∧
      ∀ x ∈ xs, x ∉ ws ∨ xs.Duplicate x → n ≤ ws.countP (x ≤ ·) := by
  constructor
  · intro w hw hnot
    have hout : w ∉ leading n ws := fun h => hnot (mem_of_mem_leading (heq ▸ h))
    obtain ⟨hlen, hle⟩ := leading_of_mem_drop (mem_drop_of_notMem_leading hw hout)
    refine le_countP_of_leading hlen fun y hy => ?_
    have hne : w ≠ y := fun h => hout (h ▸ hy)
    exact decide_eq_true (lt_of_le_of_ne (hle y hy) hne)
  · intro x hx hbad
    have hdrop : x ∈ (xs.insertionSort (· ≥ ·)).drop n := by
      rcases hbad with hnot | htwice
      · exact mem_drop_of_notMem_leading hx fun h => hnot (mem_of_mem_leading (heq ▸ h))
      · apply mem_drop_of_duplicate htwice
        rw [heq]
        exact List.nodup_iff_count_le_one.mp (nodup_leading hws) x
    obtain ⟨hlen, hle⟩ := leading_of_mem_drop hdrop
    rw [heq] at hlen hle
    exact le_countP_of_leading hlen fun y hy => decide_eq_true (hle y hy)

theorem isPage_leading (hws : ws.Nodup) (hlacks : ∀ w ∈ ws, w ∉ xs → n ≤ ws.countP (w < ·))
    (hbad : ∀ x ∈ xs, x ∉ ws ∨ xs.Duplicate x → n ≤ ws.countP (x ≤ ·)) :
    IsPage id n xs (leading n ws) := by
  have hsub : leading n ws ⊆ xs := by
    intro w hw
    by_contra hnot
    exact absurd (countP_lt_of_mem_leading hw) (not_lt.mpr (hlacks w (mem_of_mem_leading hw) hnot))
  obtain ⟨l, hl, hsubl⟩ := List.subperm_of_subset (nodup_leading hws) hsub
  obtain ⟨rest, hrest⟩ := hsubl.exists_perm_append
  replace hrest := hrest.trans (hl.append_right rest)
  -- what is left of the list is one of the set's later elements, or comes after `n` of them anyway
  have hleft : ∀ b ∈ rest, n ≤ ws.countP (b ≤ ·) ∨ b ∈ (ws.insertionSort (· ≥ ·)).drop n := by
    intro b hb
    by_cases hok : b ∉ ws ∨ xs.Duplicate b
    · exact .inl (hbad b (hrest.mem_iff.mpr (List.mem_append_right _ hb)) hok)
    · rw [not_or, not_not] at hok
      refine .inr (mem_drop_of_notMem_leading hok.1 fun hmem => hok.2 ?_)
      rw [List.duplicate_iff_two_le_count, hrest.count_eq, List.count_append]
      exact Nat.add_le_add (List.count_pos_iff.mpr hmem) (List.count_pos_iff.mpr hb)
  refine ⟨rest, hrest, (List.pairwise_insertionSort _ _).sublist leading_sublist, ?_, ?_, ?_⟩
  · intro a ha b hb
    rcases hleft b hb with hmany | hlater
    · exact le_of_mem_leading hmany ha
    · exact (leading_of_mem_drop hlater).2 a ha
  · exact List.length_take_le _ _
  · intro hshort
    apply List.eq_nil_iff_forall_not_mem.mpr
    intro b hb
    rcases hleft b hb with hmany | hlater
    · have hall : ws.length < n := by
        rw [leading, List.length_take, List.length_insertionSort] at hshort
        omega
      exact absurd (hmany.trans List.countP_le_length) (not_le.mpr hall)
    · exact absurd (leading_of_mem_drop hlater).1 hshort.ne

/-- The leading elements of a list are those of a set exactly when what it lacks of the set, what it
has besides, and what it has twice, all come after `n` elements of the set. -/
theorem leading_eq_iff (hws : ws.Nodup) :
    leading n xs = leading n ws ↔
      (∀ w ∈ ws, w ∉ xs → n ≤ ws.countP (w < ·)) ∧
        ∀ x ∈ xs, x ∉ ws ∨ xs.Duplicate x → n ≤ ws.countP (x ≤ ·) := by
  constructor
  · exact of_leading_eq hws
  · intro h
    exact (isPage_leading hws h.1 h.2).eq_leading.symm

/-! ## Pages by a coarser key -/

section Coarse

variable {α τ : Type} [LinearOrder τ] {f : α → τ} {as page : List α}

/-- No value straddles the place where the list is cut. -/
def CleanCut (f : α → τ) (n : Nat) (as : List α) : Prop :=
  ∀ t, as.countP (t < f ·) < n → as.countP (t ≤ f ·) ≤ n

/-- No value occurs twice before the place where the list is cut. -/
def DistinctBefore (f : α → τ) (n : Nat) (as : List α) : Prop :=
  ∀ t, as.countP (t < f ·) < n → as.countP (t ≤ f ·) ≤ as.countP (t < f ·) + 1

/-- What the first `n` of a page of `n + 1` leave out. -/
theorem exists_rest_of_page (h : IsPage f (n + 1) as page) :
    ∃ rest, as.Perm (page.take n ++ rest) ∧ (∀ a ∈ page.take n, ∀ b ∈ rest, f b ≤ f a) ∧
      (rest ≠ [] → (page.take n).length = n) := by
  obtain ⟨rest, hperm, hsorted, hcross, hle, hfew⟩ := h
  have hsplit := List.take_append_drop n page
  refine ⟨page.drop n ++ rest, ?_, ?_, ?_⟩
  · rwa [← List.append_assoc, hsplit]
  · intro a ha b hb
    rcases List.mem_append.mp hb with hb | hb
    · rw [← hsplit, List.pairwise_append] at hsorted
      exact hsorted.2.2 a ha b hb
    · exact hcross a (List.mem_of_mem_take ha) b hb
  · intro hne
    rw [List.length_take]
    by_contra hlen
    have hshort : page.length < n := by omega
    apply hne
    rw [hfew (by omega), List.drop_of_length_le (by omega), List.append_nil]

/-- Fewer than `n` elements are above one of the first `n`. -/
theorem countP_lt_of_mem_take {rest : List α} (hperm : as.Perm (page.take n ++ rest))
    (hcross : ∀ a ∈ page.take n, ∀ b ∈ rest, f b ≤ f a) {a : α} (ha : a ∈ page.take n) :
    as.countP (f a < f ·) < n := by
  have hrest : rest.countP (f a < f ·) = 0 := by
    apply List.countP_eq_zero.mpr
    intro b hb
    simpa using hcross a ha b hb
  have htake : (page.take n).countP (f a < f ·) < (page.take n).length := by
    refine lt_of_le_of_ne List.countP_le_length fun heq => ?_
    exact absurd (List.countP_eq_length.mp heq a ha) (by simp)
  rw [hperm.countP_eq, List.countP_append, hrest, Nat.add_zero]
  exact lt_of_lt_of_le htake (List.length_take_le _ _)

/-- With a clean cut, what is left out is below all of the first `n`. -/
theorem lt_of_cleanCut (hcut : CleanCut f n as) {rest : List α}
    (hperm : as.Perm (page.take n ++ rest)) (hcross : ∀ a ∈ page.take n, ∀ b ∈ rest, f b ≤ f a)
    (hfull : rest ≠ [] → (page.take n).length = n) {a b : α} (ha : a ∈ page.take n) (hb : b ∈ rest) :
    f b < f a := by
  refine lt_of_le_of_ne (hcross a ha b hb) fun heq => ?_
  have hle := hcut (f a) (countP_lt_of_mem_take hperm hcross ha)
  -- the first `n` and `b` are all at `f a` or above
  have htake : (page.take n).countP (f a ≤ f ·) = n := by
    rw [List.countP_eq_length.mpr, hfull (List.ne_nil_of_mem hb)]
    intro c hc
    exact decide_eq_true (heq ▸ hcross c hc b hb)
  have hrest : 0 < rest.countP (f a ≤ f ·) :=
    List.countP_pos_iff.mpr ⟨b, hb, decide_eq_true heq.ge⟩
  rw [hperm.countP_eq, List.countP_append, htake] at hle
  omega

theorem countP_le_eq (t : τ) :
    as.countP (t ≤ f ·) = as.countP (t < f ·) + (as.map f).count t := by
  induction as with
  | nil => rfl
  | cons a as ih =>
    rw [List.countP_cons, List.countP_cons, List.map_cons, List.count_cons, ih]
    rcases lt_trichotomy t (f a) with h | h | h
    · simp [h, h.le, h.ne']
      omega
    · simp [h]
      omega
    · simp [h.not_gt, h.not_ge, h.ne]

/-- Without two of one value, the order of the first `n` is strict. -/
theorem pairwise_lt_of_distinctBefore (hdistinct : DistinctBefore f n as)
    (h : IsPage f (n + 1) as page) : (page.take n).Pairwise fun a b => f b < f a := by
  obtain ⟨rest, hperm, hcross, -⟩ := exists_rest_of_page h
  have hdesc : ((page.take n).map f).Pairwise (· ≥ ·) := by
    obtain ⟨-, -, hsorted, -⟩ := h
    exact List.pairwise_map.mpr (hsorted.sublist (List.take_sublist n page))
  have hnodup : ((page.take n).map f).Nodup := by
    apply List.nodup_iff_count_le_one.mpr
    intro t
    by_cases ht : t ∈ (page.take n).map f
    · obtain ⟨a, ha, rfl⟩ := List.mem_map.mp ht
      have hle := hdistinct (f a) (countP_lt_of_mem_take hperm hcross ha)
      have hcount : ((page.take n).map f).count (f a) ≤ (as.map f).count (f a) := by
        rw [(hperm.map f).count_eq, List.map_append, List.count_append]
        exact Nat.le_add_right _ _
      rw [countP_le_eq] at hle
      omega
    · rw [List.count_eq_zero_of_not_mem ht]
      exact Nat.zero_le _
  exact List.pairwise_map.mp (hdesc.imp₂ (fun a b hge hne => lt_of_le_of_ne hge hne.symm) hnodup)

end Coarse

end Keplor.Lib
