import Keplor.Lib.Run
import Mathlib.Data.List.Dedup
import Mathlib.Data.List.Infix

/-!
# `KdbStore::open` — tiers and their directories

A tier's engine lives in `{data_dir}/tier={name}`. `KdbStore::open` opens the tiers it is told to, then
lists the directory, takes off the `tier=` of every name that has it, and opens these tiers too, so that
a tier is found again even if the configuration no longer names it. The configuration admits every
name but the empty one.

The name goes into the path as it is, and a path is taken apart at its slashes. For a name without a
slash the directory is one component below the root, listing and stripping give the name back, and two
names have two directories (`reopening_finds_all_tiers`). A name with a slash ends up in a directory of
another tier, where no listing of the root ever finds it.

Directories are named from the root of a file system that keeps names as they are given.
-/

set_option autoImplicit false

namespace Keplor.Store

open Keplor.Lib

/-! ## Paths -/

/-- A directory, by the names on the way to it. -/
abbrev Dir : Type := List String

/-- The pieces between the slashes. -/
def splitAtSlash : List Char → List (List Char)
  | [] => [[]]
  | c :: cs =>
    if c = '/' then [] :: splitAtSlash cs
    else (c :: (splitAtSlash cs).headD []) :: (splitAtSlash cs).tail

/-- The components of a relative path. -/
def components (path : String) : List String := (splitAtSlash path.toList).map String.ofList

/-- Where a component leads from a directory. -/
def enter (d : Dir) (c : String) : Dir :=
  if c = "" ∨ c = "." then d else if c = ".." then d.dropLast else d ++ [c]

/-- `format!("tier={tier}")` -/
def tierPath (tier : String) : String := "tier=" ++ tier

/-- The directories on the way to a tier's engine, the root first and its own last. -/
def wayTo (root : Dir) (tier : String) : List Dir := (components (tierPath tier)).scanl enter root

/-- `config.data_dir.join(format!("tier={tier}"))` -/
def engineDir (root : Dir) (tier : String) : Dir := (components (tierPath tier)).foldl enter root

/-- The name of a directory right below the root. -/
def nameBelow (root d : Dir) : Option String :=
  d.getLast?.bind fun c => if d = root ++ [c] then some c else none

/-- `read_dir`: the names below the root, each once. -/
def namesBelow (root : Dir) (dirs : List Dir) : List String := (dirs.filterMap (nameBelow root)).dedup

/-- `strip_prefix("tier=")` -/
def stripTier (name : String) : Option String :=
  if "tier=".toList <+: name.toList then some (String.ofList (name.toList.drop 5)) else none

/-! ## The store and its disk -/

/-- What comes of opening an engine: it may fail with some of the directories on its way made. -/
inductive OpenResult where
  | ok
  | failed (made : Nat)

/-- What a listing of the directory shows. An entry that cannot be read is left out, and so are all
when the directory itself cannot be read. -/
structure Listing where
  shows : List String → List String
  sub : ∀ names, ∀ n ∈ shows names, n ∈ names

/-- The listing leaves nothing out. -/
def Listing.Complete (l : Listing) : Prop := ∀ names, ∀ n ∈ names, n ∈ l.shows names

/-- The directories on the disk, the tiers of the store that is open on it, and every tier that ever had an engine. -/
structure Host where
  dirs : List Dir
  engines : Option (List String)
  had : List String

/-- A disk no store was opened on. -/
def Host.fresh (dirs : List Dir) : Host := ⟨dirs, none, []⟩

/-- `open_engine`: `Engine::open` makes its directory. -/
def openEngine (root : Dir) (h : Host) (tier : String) : OpenResult → Host × Bool
  | .ok => ({ h with dirs := h.dirs ++ wayTo root tier, had := tier :: h.had }, true)
  | .failed made => ({ h with dirs := h.dirs ++ (wayTo root tier).take made }, false)

/-- Tier after tier, until one fails. -/
def openTiers (root : Dir) : List String → List OpenResult → Host → Host × Bool
  | [], _, h => (h, true)
  | _ :: _, [], h => (h, false)
  | tier :: tiers, r :: rs, h =>
    match openEngine root h tier r with
    | (h, false) => (h, false)
    | (h, true) => openTiers root tiers rs h

/-- The tiers of the listing that are not open yet. -/
def foundTiers (root : Dir) (listing : Listing) (eager : List String) (dirs : List Dir) : List String :=
  ((listing.shows (namesBelow root dirs)).filterMap stripTier).filter fun tier => decide (tier ∉ eager)

/-- `KdbStore::open`: the tiers of the configuration, then those of the listing, then the manifests. A
failure leaves no store behind. -/
def openStore (root : Dir) (eager : List String) (eagerResults : List OpenResult) (listing : Listing)
    (foundResults : List OpenResult) (manifests : Bool) (h : Host) : Host :=
  match openTiers root eager eagerResults { h with dirs := h.dirs ++ [root], engines := none } with
  | (h, false) => h
  | (h, true) =>
    let found := foundTiers root listing eager h.dirs
    match openTiers root found foundResults h with
    | (h, false) => h
    | (h, true) => if manifests then { h with engines := some (eager ++ found) } else h

/-- `engine_for` -/
def lazyEngine (root : Dir) (tier : String) (result : OpenResult) (h : Host) : Host :=
  match h.engines with
  | none => h
  | some tiers =>
    if tier ∈ tiers then h
    else
      match openEngine root h tier result with
      | (h, false) => h
      | (h, true) => { h with engines := some (tiers ++ [tier]) }

/-- What happens on a host. -/
inductive HostStep where
  | openStore (eager : List String) (eagerResults : List OpenResult) (listing : Listing)
      (foundResults : List OpenResult) (manifests : Bool)
  | lazyEngine (tier : String) (result : OpenResult)
  | close

def hostStep (root : Dir) (h : Host) : HostStep → Host
  | .openStore eager eagerResults listing foundResults manifests =>
    openStore root eager eagerResults listing foundResults manifests h
  | .lazyEngine tier result => lazyEngine root tier result h
  | .close => { h with engines := none }

/-- Every tier that ever had an engine has one in the store that is open. -/
def FindsAll (h : Host) : Prop := ∀ tiers, h.engines = some tiers → ∀ tier ∈ h.had, tier ∈ tiers

/-- No directory of an engine is, or is below, that of another tier. -/
def Apart (root : Dir) (h : Host) : Prop :=
  ∀ a ∈ h.had, ∀ b ∈ h.had, a ≠ b → ¬ engineDir root a <+: engineDir root b

/-! ## Names without a slash -/

/-- The name has no slash. -/
def Plain (tier : String) : Prop := '/' ∉ tier.toList

theorem splitAtSlash_of_not_mem {cs : List Char} (h : '/' ∉ cs) : splitAtSlash cs = [cs] := by
  induction cs with
  | nil => rfl
  | cons c cs ih =>
    have hc : c ≠ '/' := fun he => h (he ▸ List.mem_cons_self)
    have hcs := ih fun hmem => h (List.mem_cons_of_mem c hmem)
    simp [splitAtSlash, hc, hcs]

theorem components_tierPath {tier : String} (h : Plain tier) :
    components (tierPath tier) = [tierPath tier] := by
  have hnot : '/' ∉ (tierPath tier).toList := by
    unfold tierPath
    rw [String.toList_append, List.mem_append, not_or]
    exact ⟨by decide, h⟩
  unfold components
  rw [splitAtSlash_of_not_mem hnot]
  simp

/-- It is a name like any other, whatever the tier is called. -/
theorem enter_tierPath (d : Dir) (tier : String) : enter d (tierPath tier) = d ++ [tierPath tier] := by
  have hlen : 5 ≤ (tierPath tier).length := by
    unfold tierPath
    rw [String.length_append]
    exact Nat.le_add_right 5 _
  have hne : ∀ s : String, s.length < 5 → tierPath tier ≠ s := by
    rintro s hs rfl
    omega
  unfold enter
  rw [if_neg, if_neg]
  · exact hne ".." (by decide)
  · rintro (h | h)
    · exact hne "" (by decide) h
    · exact hne "." (by decide) h

theorem engineDir_of_plain {tier : String} (h : Plain tier) (root : Dir) :
    engineDir root tier = root ++ [tierPath tier] := by
  unfold engineDir
  rw [components_tierPath h]
  exact enter_tierPath root tier

theorem tierPath_injective {a b : String} (h : tierPath a = tierPath b) : a = b := by
  have hlist := congrArg String.toList h
  unfold tierPath at hlist
  rw [String.toList_append, String.toList_append] at hlist
  exact String.toList_injective (List.append_cancel_left hlist)

/-- Two names, two directories, side by side. -/
theorem engineDir_apart {a b : String} (ha : Plain a) (hb : Plain b) (hab : a ≠ b) (root : Dir) :
    ¬ engineDir root a <+: engineDir root b := by
  rw [engineDir_of_plain ha, engineDir_of_plain hb, List.prefix_append_right_inj]
  intro h
  have heq := List.IsPrefix.eq_of_length h rfl
  exact hab (tierPath_injective (List.cons.inj heq).1)

theorem stripTier_tierPath (tier : String) : stripTier (tierPath tier) = some tier := by
  unfold stripTier tierPath
  rw [String.toList_append, if_pos (List.prefix_append _ _)]
  have hdrop : ("tier=".toList ++ tier.toList).drop 5 = tier.toList := rfl
  rw [hdrop, String.ofList_toList]

/-- A directory right below the root is listed. -/
theorem mem_namesBelow {root : Dir} {dirs : List Dir} {c : String} (h : root ++ [c] ∈ dirs) :
    c ∈ namesBelow root dirs := by
  unfold namesBelow
  rw [List.mem_dedup, List.mem_filterMap]
  refine ⟨root ++ [c], h, ?_⟩
  simp [nameBelow]

theorem dir_of_mem_namesBelow {root : Dir} {dirs : List Dir} {c : String}
    (h : c ∈ namesBelow root dirs) : root ++ [c] ∈ dirs := by
  unfold namesBelow at h
  rw [List.mem_dedup, List.mem_filterMap] at h
  obtain ⟨d, hd, hname⟩ := h
  obtain ⟨c', -, hif⟩ := Option.bind_eq_some_iff.mp hname
  split at hif
  · rename_i heq
    rw [← Option.some.inj hif, ← heq]
    exact hd
  · cases hif

theorem plain_of_stripTier {name tier : String} (h : stripTier name = some tier) (hname : Plain name) :
    Plain tier := by
  unfold stripTier at h
  split at h
  · rw [← Option.some.inj h]
    unfold Plain
    rw [String.toList_ofList]
    exact fun hmem => hname (List.mem_of_mem_drop hmem)
  · cases h

theorem wayTo_of_plain {tier : String} (h : Plain tier) (root : Dir) :
    wayTo root tier = [root, root ++ [tierPath tier]] := by
  unfold wayTo
  rw [components_tierPath h]
  simp [enter_tierPath]

/-! ## What a run keeps -/

/-- The tiers that had an engine have plain names and their directory, and no name on the disk has a
slash. -/
structure Grounded (root : Dir) (h : Host) : Prop where
  kept : ∀ tier ∈ h.had, Plain tier ∧ root ++ [tierPath tier] ∈ h.dirs
  names : ∀ c, root ++ [c] ∈ h.dirs → Plain c

section Grounded

variable {root : Dir} {h : Host}

/-- Directories on the way to a plain tier may be made. -/
theorem Grounded.make (hg : Grounded root h) {tier : String} (hplain : Plain tier) {ds : List Dir}
    (hds : ∀ d ∈ ds, d ∈ wayTo root tier) : Grounded root { h with dirs := h.dirs ++ ds } := by
  refine ⟨fun t ht => ⟨(hg.kept t ht).1, List.mem_append_left ds (hg.kept t ht).2⟩, fun c hc => ?_⟩
  rcases List.mem_append.mp hc with hc | hc
  · exact hg.names c hc
  · have hway := hds _ hc
    rw [wayTo_of_plain hplain, List.mem_cons, List.mem_singleton] at hway
    rcases hway with heq | heq
    · have hlen := congrArg List.length heq
      simp at hlen
    · have hc : c = tierPath tier := by simpa using heq
      rw [hc, Plain, tierPath, String.toList_append, List.mem_append, not_or]
      exact ⟨by decide, hplain⟩

/-- What opening tiers leaves: the names stay grounded, the store that is open stays the same, and the
tiers that have had an engine now are those of before and some of these. -/
structure Opens (root : Dir) (tiers : List String) (h h' : Host) : Prop where
  grounded : Grounded root h'
  engines : h'.engines = h.engines
  dirs : ∀ d ∈ h.dirs, d ∈ h'.dirs
  had : ∀ tier ∈ h'.had, tier ∈ h.had ∨ tier ∈ tiers

theorem opens_openEngine (hg : Grounded root h) {tier : String} (hplain : Plain tier)
    (r : OpenResult) : Opens root [tier] h (openEngine root h tier r).1 := by
  cases r with
  | ok =>
    have hmade : Grounded root { h with dirs := h.dirs ++ wayTo root tier } :=
      hg.make hplain fun d hd => hd
    have hown : root ++ [tierPath tier] ∈ h.dirs ++ wayTo root tier := by
      rw [wayTo_of_plain hplain]
      exact List.mem_append_right _ (by simp)
    refine ⟨⟨fun t ht => ?_, hmade.names⟩, rfl, fun d hd => List.mem_append_left _ hd, fun t ht => ?_⟩
    · rcases List.mem_cons.mp ht with rfl | ht
      · exact ⟨hplain, hown⟩
      · exact hmade.kept t ht
    · rcases List.mem_cons.mp ht with rfl | ht
      · exact .inr (List.mem_singleton.mpr rfl)
      · exact .inl ht
  | failed made =>
    refine ⟨hg.make hplain fun d hd => List.mem_of_mem_take hd, rfl,
      fun d hd => List.mem_append_left _ hd, fun t ht => .inl ht⟩

theorem opens_openTiers (hg : Grounded root h) {tiers : List String}
    (hplain : ∀ tier ∈ tiers, Plain tier) (rs : List OpenResult) :
    Opens root tiers h (openTiers root tiers rs h).1 := by
  induction tiers generalizing rs h with
  | nil =>
    unfold openTiers
    exact ⟨hg, rfl, fun d hd => hd, fun t ht => .inl ht⟩
  | cons tier tiers ih =>
    cases rs with
    | nil =>
      unfold openTiers
      exact ⟨hg, rfl, fun d hd => hd, fun t ht => .inl ht⟩
    | cons r rs =>
      have hone := opens_openEngine hg (hplain tier List.mem_cons_self) r
      have hrest := ih hone.grounded (fun t ht => hplain t (List.mem_cons_of_mem tier ht)) rs
      unfold openTiers
      rcases hres : openEngine root h tier r with ⟨h₁, _ | _⟩
      · rw [hres] at hone
        refine ⟨hone.grounded, hone.engines, hone.dirs, fun t ht => ?_⟩
        rcases hone.had t ht with ht | ht
        · exact .inl ht
        · exact .inr (List.mem_singleton.mp ht ▸ List.mem_cons_self)
      · rw [hres] at hone hrest
        refine ⟨hrest.grounded, hrest.engines.trans hone.engines,
          fun d hd => hrest.dirs d (hone.dirs d hd), fun t ht => ?_⟩
        rcases hrest.had t ht with ht | ht
        · rcases hone.had t ht with ht | ht
          · exact .inl ht
          · exact .inr (List.mem_singleton.mp ht ▸ List.mem_cons_self)
        · exact .inr (List.mem_cons_of_mem tier ht)

/-- What is true of the host after every step. -/
def HostInv (root : Dir) (h : Host) : Prop := Grounded root h ∧ FindsAll h

/-- The tiers of a complete listing are all that have a directory, and their names are plain. -/
theorem mem_foundTiers {listing : Listing} (hcomplete : listing.Complete) {eager : List String}
    (hg : Grounded root h) {tier : String} (ht : tier ∈ h.had) :
    tier ∈ eager ++ foundTiers root listing eager h.dirs := by
  by_cases heager : tier ∈ eager
  · exact List.mem_append_left _ heager
  · apply List.mem_append_right
    unfold foundTiers
    rw [List.mem_filter, List.mem_filterMap]
    refine ⟨⟨tierPath tier, hcomplete _ _ (mem_namesBelow (hg.kept tier ht).2), ?_⟩, by simpa⟩
    exact stripTier_tierPath tier

theorem plain_of_mem_foundTiers {listing : Listing} {eager : List String} (hg : Grounded root h)
    {tier : String} (ht : tier ∈ foundTiers root listing eager h.dirs) : Plain tier := by
  obtain ⟨name, hname, hstrip⟩ := List.mem_filterMap.mp (List.mem_of_mem_filter ht)
  have hdir := dir_of_mem_namesBelow (listing.sub _ name hname)
  exact plain_of_stripTier hstrip (hg.names name hdir)

/-- No store is open, so none misses a tier. -/
theorem findsAll_of_none (hnone : h.engines = none) : FindsAll h := by
  intro tiers htiers
  rw [hnone] at htiers
  cases htiers

theorem hostInv_openStore (hinv : HostInv root h) {eager : List String}
    (hplain : ∀ tier ∈ eager, Plain tier) {listing : Listing} (hcomplete : listing.Complete)
    (rs rs' : List OpenResult) (manifests : Bool) :
    HostInv root (openStore root eager rs listing rs' manifests h) := by
  have hstart : Grounded root { h with dirs := h.dirs ++ [root], engines := none } := by
    refine ⟨fun t ht => ⟨(hinv.1.kept t ht).1, List.mem_append_left _ (hinv.1.kept t ht).2⟩,
      fun c hc => ?_⟩
    rcases List.mem_append.mp hc with hc | hc
    · exact hinv.1.names c hc
    · have hlen := congrArg List.length (List.mem_singleton.mp hc)
      simp at hlen
  have hfirst := opens_openTiers hstart hplain rs
  unfold openStore
  rcases hres : openTiers root eager rs { h with dirs := h.dirs ++ [root], engines := none } with
    ⟨h₁, _ | _⟩
  · rw [hres] at hfirst
    exact ⟨hfirst.grounded, findsAll_of_none hfirst.engines⟩
  · rw [hres] at hfirst
    have hsecond : Opens root (foundTiers root listing eager h₁.dirs) h₁ _ :=
      opens_openTiers hfirst.grounded (fun t ht => plain_of_mem_foundTiers hfirst.grounded ht) rs'
    dsimp only
    rcases hres' : openTiers root (foundTiers root listing eager h₁.dirs) rs' h₁ with ⟨h₂, _ | _⟩
    · rw [hres'] at hsecond
      exact ⟨hsecond.grounded, findsAll_of_none (hsecond.engines.trans hfirst.engines)⟩
    · rw [hres'] at hsecond
      cases manifests with
      | false => exact ⟨hsecond.grounded, findsAll_of_none (hsecond.engines.trans hfirst.engines)⟩
      | true =>
        refine ⟨⟨hsecond.grounded.kept, hsecond.grounded.names⟩, fun tiers htiers tier ht => ?_⟩
        rw [← Option.some.inj htiers]
        rcases hsecond.had tier ht with ht | ht
        · exact mem_foundTiers hcomplete hfirst.grounded ht
        · exact List.mem_append_right eager ht

theorem hostInv_lazyEngine (hinv : HostInv root h) {tier : String} (hplain : Plain tier)
    (r : OpenResult) : HostInv root (lazyEngine root tier r h) := by
  have hopens := opens_openEngine hinv.1 hplain r
  unfold lazyEngine
  cases hengines : h.engines with
  | none => exact hinv
  | some tiers =>
    dsimp only
    split
    · exact hinv
    · rcases hres : openEngine root h tier r with ⟨h', _ | _⟩
      · rw [hres] at hopens
        refine ⟨hopens.grounded, fun tiers' htiers' t ht => ?_⟩
        cases r with
        | ok => cases hres
        | failed made =>
          cases hres
          exact hinv.2 tiers' htiers' t ht
      · rw [hres] at hopens
        refine ⟨⟨hopens.grounded.kept, hopens.grounded.names⟩, fun tiers' htiers' t ht => ?_⟩
        rw [← Option.some.inj htiers']
        rcases hopens.had t ht with ht | ht
        · exact List.mem_append_left _ (hinv.2 tiers hengines t ht)
        · exact List.mem_append_right _ ht

/-- The names of a step have no slash, and it is shown all of the directory. -/
def HostStep.Plain : HostStep → Prop
  | .openStore eager _ listing _ _ => (∀ tier ∈ eager, Store.Plain tier) ∧ listing.Complete
  | .lazyEngine tier _ => Store.Plain tier
  | .close => True

theorem hostInv_step (hinv : HostInv root h) {x : HostStep} (hx : x.Plain) :
    HostInv root (hostStep root h x) := by
  cases x with
  | openStore eager rs listing rs' manifests =>
    exact hostInv_openStore hinv hx.1 hx.2 rs rs' manifests
  | lazyEngine tier r => exact hostInv_lazyEngine hinv hx r
  | close => exact ⟨⟨hinv.1.kept, hinv.1.names⟩, findsAll_of_none rfl⟩

end Grounded

/-! ## Names with a slash -/

/-- No name on the way to any directory has a slash. -/
def Slashless (dirs : List Dir) : Prop := ∀ d ∈ dirs, ∀ c ∈ d, Plain c

theorem plain_of_mem_components {path c : String} (h : c ∈ components path) : Plain c := by
  have hpieces : ∀ cs : List Char, ∀ p ∈ splitAtSlash cs, '/' ∉ p := by
    intro cs
    induction cs with
    | nil => simp [splitAtSlash]
    | cons c cs ih =>
      unfold splitAtSlash
      split
      · rw [List.forall_mem_cons]
        exact ⟨by simp, ih⟩
      · rename_i hc
        rw [List.forall_mem_cons]
        refine ⟨?_, fun p hp => ih p (List.mem_of_mem_tail hp)⟩
        rw [List.mem_cons, not_or]
        refine ⟨Ne.symm hc, ?_⟩
        cases hrest : splitAtSlash cs with
        | nil => simp
        | cons p ps => exact ih p (hrest ▸ List.mem_cons_self)
  obtain ⟨p, hp, rfl⟩ := List.mem_map.mp h
  unfold Plain
  rw [String.toList_ofList]
  exact hpieces _ p hp

theorem slashless_enter {d : Dir} (hd : ∀ c ∈ d, Plain c) {c : String} (hc : Plain c) :
    ∀ c' ∈ enter d c, Plain c' := by
  unfold enter
  split
  · exact hd
  · split
    · exact fun c' hc' => hd c' (List.mem_of_mem_dropLast hc')
    · intro c' hc'
      rcases List.mem_append.mp hc' with hc' | hc'
      · exact hd c' hc'
      · exact List.mem_singleton.mp hc' ▸ hc

theorem slashless_wayTo {root : Dir} (hroot : ∀ c ∈ root, Plain c) (tier : String) :
    Slashless (wayTo root tier) := by
  have hscan : ∀ (cs : List String) (d : Dir), (∀ c ∈ cs, Plain c) → (∀ c ∈ d, Plain c) →
      Slashless (cs.scanl enter d) := by
    intro cs
    induction cs with
    | nil =>
      intro d _ hd d' hd'
      rw [List.scanl_nil, List.mem_singleton] at hd'
      rwa [hd']
    | cons c cs ih =>
      intro d hcs hd d' hd'
      rw [List.scanl_cons] at hd'
      rcases List.mem_cons.mp hd' with rfl | hd'
      · exact hd
      · exact ih (enter d c) (fun c' hc' => hcs c' (List.mem_cons_of_mem c hc'))
          (slashless_enter hd (hcs c List.mem_cons_self)) d' hd'
  exact hscan _ root (fun c hc => plain_of_mem_components hc) hroot

theorem slashless_append {dirs ds : List Dir} (h : Slashless dirs) (hds : Slashless ds) :
    Slashless (dirs ++ ds) := by
  intro d hd
  rcases List.mem_append.mp hd with hd | hd
  · exact h d hd
  · exact hds d hd

theorem slashless_openTiers {root : Dir} (hroot : ∀ c ∈ root, Plain c) (tiers : List String)
    (rs : List OpenResult) {h : Host} (hs : Slashless h.dirs) :
    Slashless (openTiers root tiers rs h).1.dirs := by
  induction tiers generalizing rs h with
  | nil =>
    unfold openTiers
    exact hs
  | cons tier tiers ih =>
    unfold openTiers
    cases rs with
    | nil => exact hs
    | cons r rs =>
      cases r with
      | ok => exact ih rs (slashless_append hs (slashless_wayTo hroot tier))
      | failed made =>
        exact slashless_append hs fun d hd => slashless_wayTo hroot tier d (List.mem_of_mem_take hd)

theorem engines_openTiers (root : Dir) (tiers : List String) (rs : List OpenResult) (h : Host) :
    (openTiers root tiers rs h).1.engines = h.engines := by
  induction tiers generalizing rs h with
  | nil => rfl
  | cons tier tiers ih =>
    cases rs with
    | nil => rfl
    | cons r rs =>
      cases r with
      | ok => exact ih rs _
      | failed made => rfl

/-- Whatever is open after a `KdbStore::open`, a tier with a slash in its name is among it only if the
configuration names it. -/
theorem slash_tier_needs_eager {root : Dir} (hroot : ∀ c ∈ root, Plain c) {h : Host}
    (hs : Slashless h.dirs) {eager : List String} {rs rs' : List OpenResult} {listing : Listing}
    {manifests : Bool} {tiers : List String}
    (hopen : (openStore root eager rs listing rs' manifests h).engines = some tiers) {tier : String}
    (hslash : ¬ Plain tier) (ht : tier ∈ tiers) : tier ∈ eager := by
  have hroot' : Slashless [root] := by
    intro d hd
    rwa [List.mem_singleton.mp hd]
  have hfirst : Slashless (openTiers root eager rs
      { h with dirs := h.dirs ++ [root], engines := none }).1.dirs :=
    slashless_openTiers hroot eager rs (slashless_append hs hroot')
  have hnone := engines_openTiers root eager rs { h with dirs := h.dirs ++ [root], engines := none }
  unfold openStore at hopen
  rcases hres : openTiers root eager rs { h with dirs := h.dirs ++ [root], engines := none } with
    ⟨h₁, _ | _⟩
  · rw [hres] at hopen hnone
    rw [show h₁.engines = none from hnone] at hopen
    cases hopen
  · rw [hres] at hopen hnone hfirst
    have hnone' := engines_openTiers root (foundTiers root listing eager h₁.dirs) rs' h₁
    dsimp only at hopen
    rcases hres' : openTiers root (foundTiers root listing eager h₁.dirs) rs' h₁ with ⟨h₂, _ | _⟩
    · rw [hres'] at hopen hnone'
      rw [show h₂.engines = none from hnone'.trans hnone] at hopen
      cases hopen
    · rw [hres'] at hopen hnone'
      cases manifests with
      | false =>
        change h₂.engines = some tiers at hopen
        rw [show h₂.engines = none from hnone'.trans hnone] at hopen
        cases hopen
      | true =>
        rw [← Option.some.inj hopen] at ht
        rcases List.mem_append.mp ht with ht | ht
        · exact ht
        · -- a name from the listing has no slash
          obtain ⟨name, hname, hstrip⟩ := List.mem_filterMap.mp (List.mem_of_mem_filter ht)
          have hdir := dir_of_mem_namesBelow (listing.sub _ name hname)
          exact absurd (plain_of_stripTier hstrip (hfirst _ hdir name (by simp))) hslash

/-- On any disk, and for every sequence of opening the store with any tiers, asking it for engines of
any tiers, and closing it, in which engines fail to open in any pattern: as long as no tier's name has a
slash and the directory can be listed, the store that is open has an engine for every tier that ever
had one, and no engine's directory is or contains that of another tier. -/
theorem reopening_finds_all_tiers (root : Dir) (dirs : List Dir) (xs : List HostStep)
    (hdirs : ∀ c, root ++ [c] ∈ dirs → Plain c) (hxs : ∀ x ∈ xs, x.Plain) :
    FindsAll (run (hostStep root) (Host.fresh dirs) xs) ∧
      Apart root (run (hostStep root) (Host.fresh dirs) xs) := by
  have hstart : HostInv root (Host.fresh dirs) :=
    ⟨⟨fun _ ht => (List.not_mem_nil ht).elim, hdirs⟩, findsAll_of_none rfl⟩
  have hstep : ∀ h x, HostInv root h → HostStep.Plain x → HostInv root (hostStep root h x) :=
    fun _ _ hinv hx => hostInv_step hinv hx
  have hinv := run_invariant hstep hstart (allowed_of_forall fun _ x hx => hxs x hx)
  refine ⟨hinv.2, fun a ha b hb hab => ?_⟩
  exact engineDir_apart (hinv.1.kept a ha).1 (hinv.1.kept b hb).1 hab root

/-- A directory that can be read. -/
def fullListing : Listing := ⟨id, fun _ _ h => h⟩

/-- A store is opened, asked for a tier, and opened again without being told of it. -/
def reopened (tier : String) : List HostStep :=
  [.openStore [] [] fullListing [] true, .lazyEngine tier .ok, .close,
    .openStore [] [] fullListing [.ok] true]

/-- The tier `team` is found. -/
theorem reopening_finds_team :
    FindsAll (run (hostStep ["data"]) (Host.fresh []) (reopened "team")) ∧
      Apart ["data"] (run (hostStep ["data"]) (Host.fresh []) (reopened "team")) := by
  apply reopening_finds_all_tiers
  · intro c hc
    cases hc
  · intro x hx
    simp only [reopened, List.mem_cons, List.not_mem_nil, or_false] at hx
    rcases hx with rfl | rfl | rfl | rfl
    · exact ⟨fun _ h => (List.not_mem_nil h).elim, fun _ _ h => h⟩
    · exact (by decide : '/' ∉ "team".toList)
    · trivial
    · exact ⟨fun _ h => (List.not_mem_nil h).elim, fun _ _ h => h⟩

/-- The tier `eu/team` is not: there is an engine for `eu`, which nobody asked for. -/
theorem slash_tier_is_not_found :
    ¬ FindsAll (run (hostStep ["data"]) (Host.fresh []) (reopened "eu/team")) := by
  have hlost : (run (hostStep ["data"]) (Host.fresh []) (reopened "eu/team")).engines = some ["eu"] ∧
      "eu/team" ∈ (run (hostStep ["data"]) (Host.fresh []) (reopened "eu/team")).had := by
    decide
  intro hfinds
  have hmem := hfinds ["eu"] hlost.1 "eu/team" hlost.2
  exact absurd hmem (by decide)

end Keplor.Store
