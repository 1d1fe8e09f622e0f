import Mathlib.Data.Char
import Mathlib.Data.List.Lex
import RouterFirmware.MconfDepends

/-!
# The order of packages in a menu

`scripts/metadata.pl` sorts the packages of a menu so that a package stands
behind those it depends on.
-/

namespace Mconf

open Relation List Prod

def Package.deps (pkg : Package) : List Text := pkg.vdepends.getD pkg.depends

/-! ## The search -/

section

variable (package : Packages) (target : Text) {names : Finset Text}
  (hnames : ∀ x pkg, package.lookup x = some pkg → x ∈ names)

def searchStep (call : List Text → List Text → Option (Bool × List Text))
    (r : Bool × List Text) (dep : Text) : Option (Bool × List Text) :=
  if r.1 then some r
  else if r.2.contains dep then some r
  else if dep = target then some (true, dep :: r.2)
  else
    match package.lookup dep with
    | some pkg => call pkg.deps (dep :: r.2)
    | none => some (false, dep :: r.2)

def searchDeps : ℕ → List Text → List Text → Option (Bool × List Text)
  | 0, _, _ => none
  | depth + 1, deps, seen =>
    deps.foldlM (searchStep package target (searchDeps depth)) (false, seen)

def findPackageDep (depth : ℕ) (pkg : Package) : Option Bool :=
  (searchDeps package target depth pkg.deps []).map fst

def Leads (x y : Text) : Prop := ∃ pkg, package.lookup x = some pkg ∧ y ∈ pkg.deps

def DependsPlainly (pkg : Package) (target : Text) : Prop :=
  ∃ d ∈ pkg.deps, ReflTransGen (Leads package) d target

/-- **What the search of some texts leaves behind.** -/
structure Searched (deps seen : List Text) (r : Bool × List Text) : Prop where
  grows : ∀ x ∈ seen, x ∈ r.2
  found : r.1 = true → ∃ d ∈ deps, ReflTransGen (Leads package) d target
  looked : r.1 = false → ∀ d ∈ deps, d ∈ r.2
  /-- What is new is not the target, and has been followed. -/
  closed : r.1 = false → ∀ x ∈ r.2, x ∉ seen → x ≠ target ∧ ∀ y, Leads package x y → y ∈ r.2

variable {package target}

theorem Searched.mono {seen : List Text} {r : Bool × List Text} {deps deps' : List Text}
    (h : Searched package target deps seen r) (hr : r.1 = true) (hsub : ∀ d ∈ deps, d ∈ deps') :
    Searched package target deps' seen r where
  grows := h.grows
  found hr := (h.found hr).imp fun d hd => ⟨hsub d hd.1, hd.2⟩
  looked hf := absurd hr (by simp [hf])
  closed hf := absurd hr (by simp [hf])

include hnames

theorem searchStep_spec {seen : List Text} {r : Bool × List Text}
    {call : List Text → List Text → Option (Bool × List Text)} {done : List Text} (dep : Text)
    (hcall : ∀ deps seen', (names \ seen'.toFinset).card < (names \ seen.toFinset).card →
      ∃ r', call deps seen' = some r' ∧ Searched package target deps seen' r')
    (h : Searched package target done seen r) : ∃ r', searchStep package target call r dep = some r'
    ∧ Searched package target (done ++ [dep]) seen r' := by
  obtain ⟨b, checked⟩ := r
  have hdone : ∀ d ∈ done, d ∈ done ++ [dep] := fun d => mem_append_left _
  unfold searchStep
  cases b with
  | true => exact ⟨_, rfl, h.mono rfl hdone⟩
  | false =>
    simp only [Bool.false_eq_true, if_false]
    by_cases hseen : dep ∈ checked
    · rw [if_pos (by simpa using hseen)]
      refine ⟨_, rfl, h.grows, nofun, fun _ d hd => ?_, h.closed⟩
      rcases mem_append.mp hd with hd | hd
      · exact h.looked rfl d hd
      · rwa [mem_singleton.mp hd]
    rw [if_neg (by simpa using hseen)]
    -- the texts seen before and after this one, whatever was found behind it
    have hafter : ∀ r' : Bool × List Text, (∀ x ∈ dep :: checked, x ∈ r'.2) →
        (r'.1 = true → ReflTransGen (Leads package) dep target) →
        (r'.1 = false → dep ≠ target ∧ (∀ y, Leads package dep y → y ∈ r'.2)
          ∧ ∀ x ∈ r'.2, x ∉ dep :: checked → x ≠ target ∧ ∀ y, Leads package x y → y ∈ r'.2) →
        Searched package target (done ++ [dep]) seen r' := by
      intro r' hgrows hfound hclosed
      refine ⟨fun x hx => hgrows x (.tail _ (h.grows x hx)), fun hr => ⟨dep, by simp, hfound hr⟩,
        fun _ d hd => ?_, fun hr x hx hnew => ?_⟩
      · rcases mem_append.mp hd with hd | hd
        · exact hgrows d (.tail _ (h.looked rfl d hd))
        · exact hgrows d (mem_singleton.mp hd ▸ mem_cons_self)
      · obtain ⟨hdep, hleads, hrest⟩ := hclosed hr
        by_cases hx' : x ∈ dep :: checked
        · rcases mem_cons.mp hx' with rfl | hx'
          · exact ⟨hdep, hleads⟩
          · obtain ⟨hne, hy⟩ := h.closed rfl x hx' hnew
            exact ⟨hne, fun y hxy => hgrows y (.tail _ (hy y hxy))⟩
        · exact hrest x hx hx'
    by_cases htarget : dep = target
    · rw [if_pos htarget]
      exact ⟨_, rfl, hafter _ (fun x hx => hx) (fun _ => htarget ▸ .refl) nofun⟩
    rw [if_neg htarget]
    cases hpkg : package.lookup dep with
    | none =>
      refine ⟨_, rfl, hafter _ (fun x hx => hx) nofun fun _ => ⟨htarget, ?_, ?_⟩⟩
      · rintro y ⟨pkg, hp, -⟩
        simp [hpkg] at hp
      · exact fun x hx hn => absurd hx hn
    | some pkg =>
      have hfresh : dep ∉ seen := fun hx => hseen (h.grows dep hx)
      have hlt : (names \ (dep :: checked).toFinset).card < (names \ seen.toFinset).card := by
        refine Finset.card_lt_card (Finset.ssubset_iff_subset_ne.mpr ⟨?_, fun heq => ?_⟩)
        · refine Finset.sdiff_subset_sdiff le_rfl fun x hx => ?_
          exact mem_toFinset.mpr (.tail _ (h.grows x (mem_toFinset.mp hx)))
        · have hin : dep ∈ names \ seen.toFinset := by simp [hnames dep pkg hpkg, hfresh]
          rw [← heq] at hin
          simp at hin
      obtain ⟨r', hr', hs⟩ := hcall pkg.deps (dep :: checked) hlt
      refine ⟨r', hr', hafter r' hs.grows (fun hr => ?_) fun hr => ⟨htarget, ?_, hs.closed hr⟩⟩
      · obtain ⟨d, hd, hpath⟩ := hs.found hr
        exact .head ⟨pkg, hpkg, hd⟩ hpath
      · rintro y ⟨pkg', hp, hy⟩
        rw [hpkg] at hp
        cases hp
        exact hs.looked hr y hy

/-- **The search comes to an end**, with calls nested no deeper than there are
packages that have not been seen. -/
theorem searchDeps_spec {seen : List Text} {depth : ℕ}
    (hdepth : (names \ seen.toFinset).card < depth) (deps : List Text) :
    ∃ r, searchDeps package target depth deps seen = some r
      ∧ Searched package target deps seen r := by
  induction depth generalizing deps seen with
  | zero => exact absurd hdepth (Nat.not_lt_zero _)
  | succ depth ih =>
    -- the texts that are done, and those that follow
    suffices hloop : ∀ (rest done : List Text) (r : Bool × List Text),
        Searched package target done seen r →
        ∃ r', rest.foldlM (searchStep package target (searchDeps package target depth)) r = some r'
          ∧ Searched package target (done ++ rest) seen r' by
      exact hloop deps [] (false, seen) ⟨fun x hx => hx, nofun, fun _ => by simp,
        fun _ x hx hn => absurd hx hn⟩
    intro rest
    induction rest with
    | nil => exact fun done r h => ⟨r, rfl, by rwa [append_nil]⟩
    | cons dep rest ihrest =>
      intro done r h
      obtain ⟨r₁, hr₁, h₁⟩ := searchStep_spec hnames dep
        (fun deps seen' hlt => ih (by omega) deps) h
      obtain ⟨r₂, hr₂, h₂⟩ := ihrest (done ++ [dep]) r₁ h₁
      refine ⟨r₂, ?_, by simpa using h₂⟩
      rw [foldlM_cons, hr₁]
      exact hr₂

omit hnames

/-- **The search finds what can be reached in plain texts.** -/
theorem findPackageDep_eq (package : Packages) (pkg : Package) (target : Text) :
    ∃ b, (∀ depth > package.length, findPackageDep package target depth pkg = some b)
      ∧ (b = true ↔ DependsPlainly package pkg target) := by
  classical
  refine ⟨decide (DependsPlainly package pkg target), fun depth hdepth => ?_, decide_eq_true_iff⟩
  have hnames : ∀ x p, package.lookup x = some p → x ∈ (package.map fst).toFinset := by
    intro x p hx
    obtain ⟨l, r, rfl, -⟩ := lookup_eq_some_iff.mp hx
    simp
  have hcard : ((package.map fst).toFinset \ ([] : List Text).toFinset).card < depth := by
    have := toFinset_card_le (package.map fst)
    simp only [length_map, toFinset_nil, Finset.sdiff_empty] at this ⊢
    omega
  obtain ⟨⟨b, seen⟩, hr, hs⟩ : ∃ r, searchDeps package target depth pkg.deps [] = some r
      ∧ Searched package target pkg.deps [] r := searchDeps_spec hnames hcard pkg.deps
  rw [findPackageDep, hr]
  refine congrArg some (Bool.eq_iff_iff.mpr ⟨fun hb => decide_eq_true (hs.found hb), fun hp => ?_⟩)
  by_contra hb
  have hb : b = false := by simpa using hb
  obtain ⟨d, hd, hpath⟩ := of_decide_eq_true hp
  have hreach : ∀ y, ReflTransGen (Leads package) d y → y ∈ seen := by
    intro y hy
    induction hy with
    | refl => exact hs.looked hb d hd
    | tail _ hxy ih => exact (hs.closed hb _ ih (by simp)).2 _ hxy
  exact (hs.closed hb target (hreach target hpath) (by simp)).1 rfl

end

/-! ## Dependencies as they are meant -/

def Writes (dep target : Text) : Prop := dep = target ∨ '@' ∉ flags dep ∧ name dep = target

def Package.Lists (pkg : Package) (target : Text) : Prop :=
  ∃ dep ∈ pkg.vdepends.getD [] ++ pkg.depends, Writes dep target

def Reaches (package : Packages) (pkg : Package) (target : Text) : Prop :=
  ∃ q, pkg.Lists q
    ∧ ReflTransGen (fun x y => ∃ p, package.lookup x = some p ∧ Package.Lists p y) q target

theorem Package.lists_of_mem_deps {pkg : Package} {dep : Text} (h : dep ∈ pkg.deps) :
    pkg.Lists dep := by
  refine ⟨dep, ?_, .inl rfl⟩
  unfold Package.deps at h
  cases hv : pkg.vdepends <;> simp_all

theorem DependsPlainly.reaches {package : Packages} {pkg : Package} {target : Text}
    (h : DependsPlainly package pkg target) : Reaches package pkg target := by
  obtain ⟨d, hd, hpath⟩ := h
  refine ⟨d, Package.lists_of_mem_deps hd, hpath.lift id ?_⟩
  rintro x y ⟨p, hp, hy⟩
  exact ⟨p, hp, Package.lists_of_mem_deps hy⟩

/-- **The search comes to an end, and its answer is right exactly if what can be
reached can be reached in plain texts.** -/
theorem findPackageDep_iff (package : Packages) (pkg : Package) (target : Text) :
    ∃ b, (∀ depth > package.length, findPackageDep package target depth pkg = some b)
      ∧ ((b = true ↔ Reaches package pkg target)
        ↔ (Reaches package pkg target → DependsPlainly package pkg target)) := by
  obtain ⟨b, hb, hplain⟩ := findPackageDep_eq package pkg target
  refine ⟨b, hb, ?_⟩
  rw [hplain]
  exact ⟨fun h => h.mpr, fun h => ⟨DependsPlainly.reaches, h⟩⟩

def selecting : Package := ⟨["+foo".toList], false, none⟩

def selectingTable : Packages :=
  [("bar".toList, selecting), ("foo".toList, ⟨[], false, none⟩)]

/-- **A dependency with a flag is not found**: the answer is `false` although
the package depends on the other. -/
theorem findPackageDep_misses_flag : Reaches selectingTable selecting "foo".toList
    ∧ findPackageDep selectingTable "foo".toList 3 selecting = some false :=
  ⟨⟨_, ⟨_, mem_cons_self, .inr (by decide)⟩, .refl⟩, by decide⟩

/-! ## The order -/

/-- What the comparison reads of a package. -/
structure Entry where
  name : Text
  submenu : Option Text
  pkg : Package

section

variable (package : Packages) {n : ℕ}

def Entry.finds (a b : Entry) : Bool :=
  findPackageDep package b.name (package.length + 1) a.pkg = some true

def packageDepends (a b : Entry) : ℤ :=
  if a.submenu ≠ b.submenu then 0
  else if a.finds package b then 1
  else if b.finds package a then -1
  else 0

def sortCmp (a b : Entry) : ℤ :=
  if packageDepends package a b ≠ 0 then packageDepends package a b
  else if a.name < b.name then -1
  else if b.name < a.name then 1
  else 0

variable (pkgs : Fin n → Entry)

def Before (i j : Fin n) : Prop := sortCmp package (pkgs i) (pkgs j) < 0

def sorted : List (Fin n) :=
  (List.finRange n).mergeSort fun i j => decide (sortCmp package (pkgs i) (pkgs j) ≤ 0)

structure Menu : Prop where
  submenu : ∀ i j, (pkgs i).submenu = (pkgs j).submenu
  known : ∀ i, package.lookup (pkgs i).name = some (pkgs i).pkg
  distinct : ∀ i j, (pkgs i).name = (pkgs j).name → i = j
  acyclic : ∀ i, ¬ Reaches package (pkgs i).pkg (pkgs i).name

def Needs (i j : Fin n) : Prop := DependsPlainly package (pkgs i).pkg (pkgs j).name

variable {package pkgs}

theorem finds_iff {i j : Fin n} :
    (pkgs i).finds package (pkgs j) = true ↔ Needs package pkgs i j := by
  obtain ⟨b, hb, hplain⟩ := findPackageDep_eq package (pkgs i).pkg (pkgs j).name
  rw [Entry.finds, hb _ (Nat.lt_succ_self _), decide_eq_true_iff, Option.some_inj]
  exact hplain

namespace Menu

variable (h : Menu package pkgs) {i j : Fin n}

include h

theorem plain_trans {k : Fin n} (hij : Needs package pkgs i j) (hjk : Needs package pkgs j k) :
    Needs package pkgs i k := by
  obtain ⟨d, hd, hpath⟩ := hij
  obtain ⟨e, he, hpath'⟩ := hjk
  exact ⟨d, hd, (hpath.tail ⟨_, h.known j, he⟩).trans hpath'⟩

theorem not_reaches (hij : Reaches package (pkgs i).pkg (pkgs j).name) :
    ¬ Needs package pkgs j i := by
  intro hji
  obtain ⟨d, hd, hpath⟩ := hij
  obtain ⟨e, he, hpath'⟩ := hji.reaches
  exact h.acyclic i ⟨d, hd, (hpath.tail ⟨_, h.known j, he⟩).trans hpath'⟩

theorem sortCmp_eq : sortCmp package (pkgs i) (pkgs j)
    = if (pkgs i).finds package (pkgs j) then 1
      else if (pkgs j).finds package (pkgs i) then -1
      else if (pkgs i).name < (pkgs j).name then -1
      else if (pkgs j).name < (pkgs i).name then 1 else 0 := by
  unfold sortCmp packageDepends
  rw [if_neg (not_not.mpr (h.submenu i j))]
  split_ifs <;> first | rfl | contradiction

/-- **What stands before what.** -/
theorem before_iff : Before package pkgs i j
    ↔ Needs package pkgs j i ∨ ¬ Needs package pkgs i j ∧ (pkgs i).name < (pkgs j).name := by
  have hanti : Needs package pkgs i j → ¬ Needs package pkgs j i := fun hij =>
    h.not_reaches hij.reaches
  rw [Before, h.sortCmp_eq]
  rw [← finds_iff, ← finds_iff] at hanti ⊢
  split_ifs <;> simp_all

theorem cmp_nonpos_iff : sortCmp package (pkgs i) (pkgs j) ≤ 0 ↔ ¬ Before package pkgs j i := by
  rw [h.before_iff, h.sortCmp_eq, ← finds_iff, ← finds_iff]
  split_ifs with hij hji hlt hgt
  · simp [hij]
  · simp [hij, hji]
  · simp [hij, hji, hlt.le]
  · simp [hij, hji, hgt]
  · simp [hij, hji, hgt]

theorem before_or (hne : i ≠ j) : Before package pkgs i j ∨ Before package pkgs j i := by
  rw [h.before_iff, h.before_iff]
  rcases lt_trichotomy (pkgs i).name (pkgs j).name with hlt | heq | hgt
  · tauto
  · exact absurd (h.distinct i j heq) hne
  · tauto

theorem not_before_of_before (hij : Before package pkgs i j) : ¬ Before package pkgs j i := by
  rw [h.before_iff] at hij ⊢
  rintro (hji | ⟨hji, hlt⟩)
  · rcases hij with hij | ⟨hn, -⟩
    · exact h.not_reaches hij.reaches hji
    · exact hn hji
  · rcases hij with hij | ⟨-, hlt'⟩
    · exact hji hij
    · exact lt_asymm hlt hlt'

end Menu

variable (package pkgs)

def NoneBetween : Prop :=
  ∀ i j k, Needs package pkgs i j → (pkgs i).name < (pkgs k).name →
    (pkgs k).name < (pkgs j).name → Needs package pkgs i k ∨ Needs package pkgs k j

def OthersByName : Prop :=
  ∀ i j, Reaches package (pkgs i).pkg (pkgs j).name → ¬ Needs package pkgs i j →
    (pkgs j).name < (pkgs i).name

variable {package pkgs}

theorem Menu.before_trans_iff (h : Menu package pkgs) :
    (∀ i j k, Before package pkgs i j → Before package pkgs j k → Before package pkgs i k)
      ↔ NoneBetween package pkgs := by
  constructor
  · intro htrans i j k hij hik hkj
    by_contra hnone
    rw [not_or] at hnone
    have h₁ : Before package pkgs i k := h.before_iff.mpr (.inr ⟨hnone.1, hik⟩)
    have h₂ : Before package pkgs k j := h.before_iff.mpr (.inr ⟨hnone.2, hkj⟩)
    exact h.not_before_of_before (htrans i k j h₁ h₂) (h.before_iff.mpr (.inl hij))
  · intro hnone i j k hij hjk
    by_contra hik
    have hne : i ≠ k := by
      rintro rfl
      exact h.not_before_of_before hij hjk
    have hki := (h.before_or hne).resolve_left hik
    rw [h.before_iff] at hij hjk hki
    -- of the three pairs of a cycle exactly one is a dependency
    rcases hij with hji | ⟨nij, lij⟩ <;> rcases hjk with hkj | ⟨njk, ljk⟩ <;>
      rcases hki with hik' | ⟨nki, lki⟩
    · exact h.not_reaches (h.plain_trans hkj hji).reaches hik'
    · exact nki (h.plain_trans hkj hji)
    · exact njk (h.plain_trans hji hik')
    · rcases hnone j i k hji ljk lki with hp | hp
      · exact njk hp
      · exact nki hp
    · exact nij (h.plain_trans hik' hkj)
    · rcases hnone k j i hkj lki lij with hp | hp
      · exact nki hp
      · exact nij hp
    · rcases hnone i k j hik' lij ljk with hp | hp
      · exact nij hp
      · exact njk hp
    · exact lt_irrefl _ (lij.trans (ljk.trans lki))

/-- **The comparison is an order, and the packages stand behind those they depend
on, exactly if no package is between two by name alone and the dependencies that
are not found are in the order of the names.** -/
theorem sort_valid_iff (h : Menu package pkgs) : (IsStrictWeakOrder (Fin n) (Before package pkgs)
      ∧ ∀ i j, Reaches package (pkgs i).pkg (pkgs j).name →
        (sorted package pkgs).idxOf j < (sorted package pkgs).idxOf i)
    ↔ NoneBetween package pkgs ∧ OthersByName package pkgs := by
  have hirrefl : ∀ i, ¬ Before package pkgs i i := fun i hi => h.not_before_of_before hi hi
  have hmem : ∀ i, i ∈ sorted package pkgs := fun i =>
    (mergeSort_perm _ _).mem_iff.mpr (mem_finRange i)
  -- in a sorted list the one before has the smaller index
  have hsorted : NoneBetween package pkgs → ∀ i j, i ≠ j →
      ((sorted package pkgs).idxOf j < (sorted package pkgs).idxOf i
        ↔ Before package pkgs j i) := by
    intro hnone
    have htrans := h.before_trans_iff.mpr hnone
    have hpair : (sorted package pkgs).Pairwise fun i j => ¬ Before package pkgs j i := by
      refine (pairwise_mergeSort ?_ ?_ _).imp fun hij =>
        h.cmp_nonpos_iff.mp (of_decide_eq_true hij)
      · intro i j k hij hjk
        simp only [decide_eq_true_iff, h.cmp_nonpos_iff] at hij hjk ⊢
        intro hki
        by_cases hkj : k = j
        · exact hij (hkj ▸ hki)
        · exact hij (htrans j k i ((h.before_or hkj).resolve_left hjk) hki)
      · intro i j
        simp only [Bool.or_eq_true, decide_eq_true_iff, h.cmp_nonpos_iff]
        by_cases hji : Before package pkgs j i
        · exact .inr (h.not_before_of_before hji)
        · exact .inl hji
    have hlt : ∀ i j, (sorted package pkgs).idxOf j < (sorted package pkgs).idxOf i →
        ¬ Before package pkgs i j := by
      intro i j hlt
      have := pairwise_iff_getElem.mp hpair _ _ (idxOf_lt_length_iff.mpr (hmem j))
        (idxOf_lt_length_iff.mpr (hmem i)) hlt
      simpa using this
    intro i j hne
    constructor
    · intro hidx
      exact (h.before_or hne).resolve_left (hlt i j hidx)
    · intro hji
      by_contra hidx
      rcases (Nat.le_of_not_lt hidx).lt_or_eq with hidx | hidx
      · exact hlt j i hidx hji
      · exact hne ((idxOf_inj (hmem i)).mp hidx)
  constructor
  · rintro ⟨hweak, hplaced⟩
    have hnone := h.before_trans_iff.mp fun i j k => hweak.trans i j k
    refine ⟨hnone, fun i j hij hplain => ?_⟩
    have hne : i ≠ j := by
      rintro rfl
      exact h.acyclic i hij
    have hji := h.before_iff.mp ((hsorted hnone i j hne).mp (hplaced i j hij))
    exact (hji.resolve_left hplain).2
  · rintro ⟨hnone, hothers⟩
    have htrans := h.before_trans_iff.mpr hnone
    refine ⟨{ irrefl := hirrefl, trans := htrans, incomp_trans := ?_ }, fun i j hij => ?_⟩
    · rintro i j k ⟨hij, hji⟩ ⟨hjk, hkj⟩
      have hij : i = j := by
        by_contra hne
        rcases h.before_or hne with hb | hb
        · exact hij hb
        · exact hji hb
      exact hij ▸ ⟨hjk, hkj⟩
    · have hne : i ≠ j := by
        rintro rfl
        exact h.acyclic i hij
      refine (hsorted hnone i j hne).mpr (h.before_iff.mpr ?_)
      by_cases hplain : Needs package pkgs i j
      · exact .inl hplain
      · exact .inr ⟨h.not_reaches hij, hothers i j hij hplain⟩

end

def threeNames (i : Fin 3) : Text := [['a'], ['b'], ['c']].get i

def needing (who what x : Text) : Package := ⟨if x = who then [what] else [], false, none⟩

def oneNeeds (who what : Text) : Packages :=
  (finRange 3).map fun i => (threeNames i, needing who what (threeNames i))

def threeMenu (who what : Text) (i : Fin 3) : Entry :=
  ⟨threeNames i, none, needing who what (threeNames i)⟩

theorem lists_needing {who what x q : Text} (hname : name what = what)
    (h : (needing who what x).Lists q) : x = who ∧ q = what := by
  obtain ⟨dep, hdep, hwrites⟩ := h
  by_cases hx : x = who
  · simp only [needing, if_pos hx, Option.getD_none, nil_append, mem_singleton] at hdep
    subst hdep
    exact ⟨hx, hwrites.elim Eq.symm fun hw => hw.2.symm.trans hname⟩
  · simp [needing, if_neg hx] at hdep

/-- The only dependency is that of `who` on `what`. -/
theorem reaches_oneNeeds {who what x target : Text} (hname : name what = what) (hne : who ≠ what)
    (h : Reaches (oneNeeds who what) (needing who what x) target) : x = who ∧ target = what := by
  obtain ⟨q, hq, hpath⟩ := h
  obtain ⟨rfl, rfl⟩ := lists_needing hname hq
  refine ⟨rfl, ?_⟩
  rcases ReflTransGen.cases_head hpath with heq | ⟨y, ⟨p, hp, hy⟩, -⟩
  · exact heq.symm
  · -- what is needed needs nothing
    obtain ⟨l, r, heq, -⟩ := lookup_eq_some_iff.mp hp
    have hmem : (q, p) ∈ oneNeeds x q := heq ▸ mem_append_right _ mem_cons_self
    obtain ⟨i, -, hi⟩ := mem_map.mp hmem
    obtain ⟨rfl, rfl⟩ := Prod.mk.inj hi
    exact absurd (lists_needing hname hy).1.symm hne

theorem menu_oneNeeds {who what : Text} (hname : name what = what) (hne : who ≠ what) :
    Menu (oneNeeds who what) (threeMenu who what) where
  submenu _ _ := rfl
  known
    | 0 => rfl
    | 1 => rfl
    | 2 => rfl
  distinct := show ∀ i j, threeNames i = threeNames j → i = j by decide
  acyclic i hi := by
    obtain ⟨hwho, hwhat⟩ := reaches_oneNeeds hname hne hi
    exact hne (hwho.symm.trans hwhat)

/-- **A package that needs an earlier one** is sorted behind it. -/
theorem sort_valid_iff_ordered :
    IsStrictWeakOrder (Fin 3) (Before (oneNeeds ['c'] ['a']) (threeMenu ['c'] ['a']))
      ∧ ∀ i j, Reaches (oneNeeds ['c'] ['a']) (threeMenu ['c'] ['a'] i).pkg
          (threeMenu ['c'] ['a'] j).name →
        (sorted (oneNeeds ['c'] ['a']) (threeMenu ['c'] ['a'])).idxOf j
          < (sorted (oneNeeds ['c'] ['a']) (threeMenu ['c'] ['a'])).idxOf i := by
  refine (sort_valid_iff (menu_oneNeeds (by decide) (by decide))).mpr ⟨?_, fun i j hij _ => ?_⟩
  · simp only [NoneBetween, ← finds_iff]
    decide
  · obtain ⟨hi, hj⟩ := reaches_oneNeeds (by decide) (by decide) hij
    show threeNames j < threeNames i
    rw [hi, show threeNames j = ['a'] from hj]
    decide

/-- **The comparison goes round in a circle**: the first of three packages is
before the second, the second before the third, and the third, which the first
needs, before the first. No order does that. -/
theorem before_not_transitive : Menu (oneNeeds ['a'] ['c']) (threeMenu ['a'] ['c'])
    ∧ Before (oneNeeds ['a'] ['c']) (threeMenu ['a'] ['c']) 0 1
    ∧ Before (oneNeeds ['a'] ['c']) (threeMenu ['a'] ['c']) 1 2
    ∧ Before (oneNeeds ['a'] ['c']) (threeMenu ['a'] ['c']) 2 0
    ∧ ¬ IsStrictWeakOrder (Fin 3) (Before (oneNeeds ['a'] ['c']) (threeMenu ['a'] ['c'])) := by
  have hcircle : Before (oneNeeds ['a'] ['c']) (threeMenu ['a'] ['c']) 0 1
      ∧ Before (oneNeeds ['a'] ['c']) (threeMenu ['a'] ['c']) 1 2
      ∧ Before (oneNeeds ['a'] ['c']) (threeMenu ['a'] ['c']) 2 0 := by
    unfold Before
    decide
  obtain ⟨h01, h12, h20⟩ := hcircle
  refine ⟨menu_oneNeeds (by decide) (by decide), h01, h12, h20, fun hweak => ?_⟩
  exact hweak.irrefl 0 (hweak.trans _ _ _ (hweak.trans _ _ _ h01 h12) h20)

end Mconf
