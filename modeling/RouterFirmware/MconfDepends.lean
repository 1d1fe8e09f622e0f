import Mathlib.Data.Finset.Card

/-!
# The dependencies of packages in the configuration

`mconf_depends` of `scripts/metadata.pl` turns the dependencies of a package
into the `select` and `depends` lines of its Kconfig entry. A dependency may have
flags (`+` selects, `@` names a symbol that is not a package) and a condition; if
it selects, the function goes on with the dependencies of the package selected.

All these calls share a table of what has been met, so that each dependency gets
a line once. The table knows the text of the dependency only, not the condition
under which it was met. So a dependency that is met first on a way with a
condition loses the line that it would have without.

The module shows what a call leaves (`mem_mconfDepends`): every dependency has
its line, or one with the same text was met before, on a `Way` from an earlier
one. From this follows when each assignment that satisfies the lines enables what
the packages depend on (`dependencies_honoured`).
-/

namespace Mconf

open List Option

/-- A string of the script. -/
abbrev Text := List Char

/-- What `mconf_depends` reads of a package. -/
structure Package where
  depends : List Text
  buildonly : Bool
  vdepends : Option (List Text)
deriving DecidableEq

/-- The hash `%package`, by name. -/
abbrev Packages := List (Text × Package)

/-! ## The text of a dependency -/

/-- A character of the class `[@\+]`. -/
def isFlag (c : Char) : Bool := c = '@' ∨ c = '+'

/-- The flags that the first substitution takes off. -/
def flags (depend : Text) : Text := depend.takeWhile isFlag

/-- The dependency without its flags: the key of `$seen`. -/
def key (depend : Text) : Text := depend.dropWhile isFlag

/-- The last colon with something behind it. -/
def lastColon : Text → Option (Text × Text)
  | [] => none
  | c :: s =>
    match lastColon s with
    | some (l, r) => some (c :: l, r)
    | none => if c = ':' ∧ s ≠ [] then some ([], s) else none

/-- The match of `/^(.+):(.+)$/`. -/
def colonMatch (s : Text) : Option (Text × Text) :=
  match lastColon s with
  | some (c :: l, r) => some (c :: l, r)
  | _ => none

/-- The condition that a dependency has itself. -/
def ownCondition (depend : Text) : Option Text := (colonMatch (key depend)).map Prod.fst

/-- The package or symbol that is meant. -/
def name (depend : Text) : Text := ((colonMatch (key depend)).map Prod.snd).getD (key depend)

/-- The symbol of a package. -/
def symbol (pkgname : Text) : Text := "PACKAGE_".toList ++ pkgname

/-- Whether perl takes a string for true. -/
def isTrue (condition : Text) : Bool := condition ≠ [] ∧ condition ≠ ['0']

/-! ## The lines of an entry -/

/-- **What a line says**, by the three forms that the script prints. -/
inductive Clause
  /-- `$depend` -/
  | plain (depend : Text)
  /-- `$depend if $condition` -/
  | onlyIf (depend condition : Text)
  /-- `!($condition) || $depend` -/
  | unless (condition depend : Text)
deriving DecidableEq

/-- The word that a line begins with. -/
inductive Mode
  | depends
  | select
deriving DecidableEq

/-- What the calls of `mconf_depends` for one package share. -/
structure State where
  dep : List (Clause × Mode)
  seen : List Text

/-- `$dep->{$depend} =~ /select/ or $dep->{$depend} = $m` -/
def State.put (s : State) (c : Clause) (m : Mode) : State :=
  if s.dep.lookup c = some .select then s
  else { s with dep := (c, m) :: s.dep.filter (·.1 ≠ c) }

/-- `$condition` for a dependency, below the condition of the call. -/
def condition (pkgname parent depend : Text) : Text :=
  match ownCondition depend with
  | none => parent
  | some c =>
    if c = symbol pkgname then parent
    else if isTrue parent then parent ++ " && ".toList ++ c
    else c

/-- The line for a dependency that is not virtual. -/
def clause (depend : Text) (m : Mode) (condition : Text) : Clause :=
  let sym := if '@' ∈ flags depend then name depend else symbol (name depend)
  if isTrue condition then
    match m with
    | .select => .onlyIf sym condition
    | .depends => .unless condition sym
  else .plain sym

/-- `join("||", map { "PACKAGE_".$_ } @$vdep)` -/
def anyOf (vdep : List Text) : Text := intercalate "||".toList (vdep.map symbol)

/-- A package is built without having an entry. -/
def isBuildonly (package : Packages) (pkgname : Text) : Bool :=
  (package.lookup pkgname).any Package.buildonly

/-- The packages that provide a virtual one. -/
def vdepends (package : Packages) (pkgname : Text) : Option (List Text) :=
  (package.lookup pkgname).bind Package.vdepends

/-- The dependencies of a package, if there is one. -/
def dependsOf (package : Packages) (pkgname : Text) : List Text :=
  ((package.lookup pkgname).map Package.depends).getD []

/-! ## The function -/

section

variable (package : Packages) (pkgname : Text)

/-- **One turn of the loop**, with the recursive call as a parameter. -/
def step (call : List Text → Text → State → Option State) (onlyDep : Bool) (parent : Text)
    (s : State) (depend : Text) : Option State :=
  if key depend ∈ s.seen then some s
  else
    let s := { s with seen := key depend :: s.seen }
    let condition := condition pkgname parent depend
    if isBuildonly package (name depend) then some s
    else
      match vdepends package (name depend) with
      | some vdep => some (s.put (.plain (anyOf vdep)) .depends)
      | none =>
        if '+' ∈ flags depend then
          (call (dependsOf package (name depend)) condition s).map fun s =>
            if onlyDep then s else s.put (clause depend .select condition) .select
        else some (s.put (clause depend .depends condition) .depends)

/-- **`mconf_depends`**; the first argument bounds the depth of the calls. -/
def mconf : ℕ → Bool → List Text → Text → State → Option State
  | 0, _, _, _, _ => none
  | n + 1, onlyDep, depends, parent, s =>
    depends.foldlM (step package pkgname (mconf n true) onlyDep parent) s

end

/-- The texts under which the dependencies of a graph are kept in `$seen`. -/
def keys (package : Packages) : List Text :=
  package.flatMap fun p => p.2.depends.map key

/-- **The lines of a package**, with enough fuel for every way. -/
def mconfDepends (package : Packages) (pkgname : Text) : List (Clause × Mode) :=
  ((mconf package pkgname ((keys package).length + 1) false (dependsOf package pkgname) []
    ⟨[], []⟩).map State.dep).getD []

/-! ## What a call does -/

theorem mem_of_lookup {α β : Type} [BEq α] [LawfulBEq α] {l : List (α × β)} {a : α} {b : β}
    (h : l.lookup a = some b) : (a, b) ∈ l := by
  obtain ⟨l₁, l₂, rfl, -⟩ := lookup_eq_some_iff.mp h
  exact mem_append_right _ mem_cons_self

/-- A line has been put. -/
def State.Has (s : State) (c : Clause) : Prop := ∃ m, (c, m) ∈ s.dep

theorem State.has_put_self (s : State) (c : Clause) (m : Mode) : (s.put c m).Has c := by
  unfold State.put
  split
  · rename_i h
    exact ⟨_, mem_of_lookup h⟩
  · exact ⟨m, List.mem_cons_self⟩

variable {call : List Text → Text → State → Option State} {depend parent : Text} {onlyDep : Bool}
  {s s' : State}

theorem State.Has.put {c : Clause} (h : s.Has c) (d : Clause) (m : Mode) : (s.put d m).Has c := by
  by_cases hcd : c = d
  · exact hcd ▸ s.has_put_self d m
  · unfold State.put
    split
    · exact h
    · obtain ⟨mc, hmem⟩ := h
      exact ⟨mc, mem_cons_of_mem _ (mem_filter.mpr ⟨hmem, by simpa using hcd⟩)⟩

@[simp]
theorem State.seen_put (s : State) (c : Clause) (m : Mode) : (s.put c m).seen = s.seen := by
  unfold State.put
  split <;> rfl

/-- Nothing that was met or printed is forgotten. -/
structure State.Grows (s s' : State) : Prop where
  seen : s.seen ⊆ s'.seen
  has : ∀ c, s.Has c → s'.Has c

theorem State.Grows.refl (s : State) : s.Grows s := ⟨fun _ h => h, fun _ h => h⟩

theorem State.Grows.trans {s'' : State} (h : s.Grows s') (h' : s'.Grows s'') : s.Grows s'' :=
  ⟨fun _ hk => h'.seen (h.seen hk), fun c hc => h'.has c (h.has c hc)⟩

theorem State.Grows.put (h : s.Grows s') (c : Clause) (m : Mode) : s.Grows (s'.put c m) :=
  ⟨fun _ hk => by rw [s'.seen_put]; exact h.seen hk, fun d hd => (h.has d hd).put c m⟩

/-- The dependency has been met. -/
def State.meet (s : State) (depend : Text) : State := { s with seen := key depend :: s.seen }

theorem State.grows_meet (s : State) (depend : Text) : s.Grows (s.meet depend) :=
  ⟨fun _ h => List.mem_cons_of_mem _ h, fun _ h => h⟩

/-- A dependency leads on to the dependencies of the package it selects. -/
def Follows (package : Packages) (depend : Text) : Prop :=
  isBuildonly package (name depend) = false ∧ vdepends package (name depend) = none
    ∧ '+' ∈ flags depend

variable {package : Packages} {pkgname : Text}

/-- **What a step may do**, by the branch that it takes. -/
theorem step_cases (h : step package pkgname call onlyDep parent s depend = some s') :
    key depend ∈ s.seen ∧ s' = s
    ∨ key depend ∉ s.seen ∧
      (s' = s.meet depend
      ∨ (∃ c m, s' = (s.meet depend).put c m)
      ∨ Follows package depend ∧ ∃ s₁,
          call (dependsOf package (name depend)) (condition pkgname parent depend)
            (s.meet depend) = some s₁
          ∧ s' = if onlyDep then s₁
            else s₁.put (clause depend .select (condition pkgname parent depend)) .select) := by
  unfold step at h
  by_cases hseen : key depend ∈ s.seen
  · rw [if_pos hseen] at h
    exact .inl ⟨hseen, (some.inj h).symm⟩
  refine .inr ⟨hseen, ?_⟩
  rw [if_neg hseen] at h
  simp only [] at h
  by_cases hbuild : isBuildonly package (name depend) = true
  · rw [if_pos hbuild] at h
    exact .inl (some.inj h).symm
  rw [if_neg hbuild] at h
  cases hv : vdepends package (name depend) with
  | some vdep =>
    rw [hv] at h
    exact .inr (.inl ⟨_, _, (some.inj h).symm⟩)
  | none =>
    rw [hv] at h
    simp only [] at h
    by_cases hplus : '+' ∈ flags depend
    · rw [if_pos hplus] at h
      obtain ⟨s₁, hcall, hs⟩ := map_eq_some_iff.mp h
      exact .inr (.inr ⟨⟨by simpa using hbuild, hv, hplus⟩, s₁, hcall, hs.symm⟩)
    · rw [if_neg hplus] at h
      exact .inr (.inl ⟨_, _, (some.inj h).symm⟩)

theorem State.grows_unless (s : State) (onlyDep : Bool) (c : Clause) (m : Mode) :
    s.Grows (if onlyDep then s else s.put c m)
      ∧ (if onlyDep then s else s.put c m).seen = s.seen := by
  cases onlyDep with
  | true => exact ⟨.refl s, rfl⟩
  | false => exact ⟨(State.Grows.refl s).put c m, s.seen_put c m⟩

theorem step_grows (hcall : ∀ ds c s s', call ds c s = some s' → s.Grows s')
    (h : step package pkgname call onlyDep parent s depend = some s') : s.Grows s' := by
  rcases step_cases h with ⟨-, rfl⟩ | ⟨-, rfl | ⟨c, m, rfl⟩ | ⟨-, s₁, hs₁, rfl⟩⟩
  · exact .refl _
  · exact s.grows_meet depend
  · exact (s.grows_meet depend).put c m
  · exact ((s.grows_meet depend).trans (hcall _ _ _ _ hs₁)).trans (s₁.grows_unless ..).1

theorem step_isSome (hcall : key depend ∉ s.seen → (call (dependsOf package (name depend))
      (condition pkgname parent depend) (s.meet depend)).isSome = true) :
    ∃ s', step package pkgname call onlyDep parent s depend = some s' := by
  unfold step
  by_cases hseen : key depend ∈ s.seen
  · exact ⟨s, if_pos hseen⟩
  rw [if_neg hseen]
  simp only []
  split
  · exact ⟨_, rfl⟩
  split
  · exact ⟨_, rfl⟩
  split
  · obtain ⟨s₁, hs₁⟩ := isSome_iff_exists.mp (hcall hseen)
    exact ⟨_, map_eq_some_iff.mpr ⟨s₁, hs₁, rfl⟩⟩
  · exact ⟨_, rfl⟩

/-- **The line of a dependency** that is met for the first time. -/
theorem step_has (h : step package pkgname call onlyDep parent s depend = some s')
    (hseen : key depend ∉ s.seen) (hbuild : isBuildonly package (name depend) = false)
    (hv : vdepends package (name depend) = none) (hline : onlyDep = false ∨ '+' ∉ flags depend) :
    s'.Has (clause depend (if '+' ∈ flags depend then .select else .depends)
      (condition pkgname parent depend)) := by
  unfold step at h
  rw [if_neg hseen] at h
  simp only [hbuild, hv, Bool.false_eq_true, if_false] at h
  by_cases hplus : '+' ∈ flags depend
  · rw [if_pos hplus] at h ⊢
    obtain rfl := hline.resolve_right (not_not.mpr hplus)
    obtain ⟨s₁, -, rfl⟩ := map_eq_some_iff.mp h
    exact s₁.has_put_self _ _
  · rw [if_neg hplus] at h ⊢
    obtain rfl := some.inj h
    exact State.has_put_self _ _ _

theorem foldlM_grows {f : State → Text → Option State}
    (hf : ∀ s d s', f s d = some s' → s.Grows s') (ds : List Text) (h : ds.foldlM f s = some s') :
    s.Grows s' := by
  induction ds generalizing s with
  | nil => exact some.inj h ▸ .refl s
  | cons d ds ih =>
    rw [List.foldlM_cons] at h
    obtain ⟨s₁, hd, hrest⟩ := bind_eq_some_iff.mp h
    exact (hf s d s₁ hd).trans (ih hrest)

theorem mconf_grows {ds : List Text} (package : Packages) (pkgname : Text)
    (n : ℕ) (h : mconf package pkgname n onlyDep ds parent s = some s') : s.Grows s' := by
  induction n generalizing onlyDep ds parent s s' with
  | zero => cases h
  | succ n ih =>
    exact foldlM_grows (fun _ _ _ => step_grows fun _ _ _ _ => ih) ds h

/-! ## It comes to an end -/

/-- The dependencies of the graph that have not been met. -/
def unseen (package : Packages) (s : State) : ℕ :=
  ((keys package).toFinset \ s.seen.toFinset).card

theorem State.Grows.unseen_le (h : s.Grows s') (package : Packages) :
    unseen package s' ≤ unseen package s :=
  Finset.card_le_card <| Finset.sdiff_subset_sdiff (Finset.Subset.refl _) fun _ hk =>
    mem_toFinset.mpr (h.seen (mem_toFinset.mp hk))

theorem unseen_meet (hkey : key depend ∈ keys package) (hseen : key depend ∉ s.seen) :
    unseen package (s.meet depend) < unseen package s := by
  refine Finset.card_lt_card ⟨?_, fun hsub => ?_⟩
  · refine Finset.sdiff_subset_sdiff (Finset.Subset.refl _) fun k hk => ?_
    exact mem_toFinset.mpr (mem_cons_of_mem _ (mem_toFinset.mp hk))
  · have hmem := hsub (Finset.mem_sdiff.mpr
      ⟨mem_toFinset.mpr hkey, fun h => hseen (mem_toFinset.mp h)⟩)
    exact (Finset.mem_sdiff.mp hmem).2 (mem_toFinset.mpr mem_cons_self)

theorem exists_of_mem_dependsOf (h : depend ∈ dependsOf package pkgname) :
    ∃ p, (pkgname, p) ∈ package ∧ depend ∈ p.depends := by
  unfold dependsOf at h
  cases hp : package.lookup pkgname with
  | none => simp [hp] at h
  | some p =>
    rw [hp, map_some, getD_some] at h
    exact ⟨p, mem_of_lookup hp, h⟩

theorem key_mem_keys (h : depend ∈ dependsOf package pkgname) : key depend ∈ keys package := by
  obtain ⟨p, hp, hdepend⟩ := exists_of_mem_dependsOf h
  exact mem_flatMap.mpr ⟨_, hp, mem_map_of_mem hdepend⟩

/-- The calls come to an end, as each one meets something new. -/
theorem mconf_isSome (package : Packages) (pkgname : Text) (n : ℕ) (onlyDep : Bool)
    (ds : List Text) (parent : Text) (s : State) (hds : ∀ d ∈ ds, key d ∈ keys package)
    (hn : unseen package s < n) : (mconf package pkgname n onlyDep ds parent s).isSome = true := by
  induction n generalizing onlyDep ds parent s with
  | zero => exact absurd hn (Nat.not_lt_zero _)
  | succ n ih =>
    rw [mconf]
    induction ds generalizing s with
    | nil => rfl
    | cons d ds ihds =>
      obtain ⟨s₁, hs₁⟩ : ∃ s₁, step package pkgname (mconf package pkgname n true) onlyDep
          parent s d = some s₁ := by
        refine step_isSome fun hseen => ih _ _ _ _ (fun d' hd' => key_mem_keys hd') ?_
        have hless := unseen_meet (hds d List.mem_cons_self) hseen
        omega
      have hgrows : s.Grows s₁ := step_grows (fun _ _ _ _ => mconf_grows package pkgname n) hs₁
      rw [List.foldlM_cons, hs₁]
      refine ihds s₁ (fun d' hd' => hds d' (mem_cons_of_mem _ hd')) ?_
      exact Nat.lt_of_le_of_lt (hgrows.unseen_le package) hn

theorem exists_mconf (package : Packages) (pkgname : Text) :
    ∃ n s, mconf package pkgname (n + 1) false (dependsOf package pkgname) [] ⟨[], []⟩ = some s
      ∧ mconfDepends package pkgname = s.dep := by
  have hend := mconf_isSome package pkgname ((keys package).length + 1) false
    (dependsOf package pkgname) [] ⟨[], []⟩ (fun d hd => key_mem_keys hd) <|
    Nat.lt_succ_of_le <| (Finset.card_le_card Finset.sdiff_subset).trans (toFinset_card_le _)
  obtain ⟨s, hs⟩ := isSome_iff_exists.mp hend
  refine ⟨_, s, hs, ?_⟩
  unfold mconfDepends
  rw [hs]
  rfl

/-! ## What is met -/

/-- **A way from a dependency to one that is met** in the calls that follow
it, and the condition that has come together. -/
inductive Way (package : Packages) (pkgname : Text) : Text → Text → Text → Text → Prop
  | here (parent depend : Text) :
      Way package pkgname parent depend depend (condition pkgname parent depend)
  | through {parent depend next met cond : Text} (hfollows : Follows package depend)
      (hnext : next ∈ dependsOf package (name depend))
      (h : Way package pkgname (condition pkgname parent depend) next met cond) :
      Way package pkgname parent depend met cond

/-- A dependency without `+` on a package that has an entry. -/
def Plain (package : Packages) (depend : Text) : Prop :=
  isBuildonly package (name depend) = false ∧ vdepends package (name depend) = none
    ∧ '+' ∉ flags depend

/-- A key has been met on a way from the dependencies of a call. -/
def Met (package : Packages) (pkgname parent : Text) (ds : List Text) (s : State)
    (k : Text) : Prop :=
  ∃ d ∈ ds, ∃ met cond, Way package pkgname parent d met cond ∧ key met = k
    ∧ (Plain package met → s.Has (clause met .depends cond))

theorem Met.grows {ds : List Text} {k : Text} (h : Met package pkgname parent ds s k)
    (hgrows : s.Grows s') : Met package pkgname parent ds s' k := by
  obtain ⟨d, hd, met, cond, hway, hkey, hline⟩ := h
  exact ⟨d, hd, met, cond, hway, hkey, fun hplain => hgrows.has _ (hline hplain)⟩

theorem step_met {k : Text}
    (hcall : ∀ ds c s s', call ds c s = some s' → k ∈ s'.seen →
      k ∈ s.seen ∨ Met package pkgname c ds s' k)
    (h : step package pkgname call onlyDep parent s depend = some s') (hk : k ∈ s'.seen) :
    k ∈ s.seen ∨ Met package pkgname parent [depend] s' k := by
  have hmeet : key depend ∉ s.seen → k ∈ (s.meet depend).seen →
      k ∈ s.seen ∨ Met package pkgname parent [depend] s' k := by
    intro hseen hk
    rcases mem_cons.mp hk with rfl | hk
    · refine .inr ⟨depend, mem_cons_self, depend, _, .here parent depend, rfl, ?_⟩
      rintro ⟨hbuild, hv, hplus⟩
      have hhas := step_has h hseen hbuild hv (.inr hplus)
      rwa [if_neg hplus] at hhas
    · exact .inl hk
  rcases step_cases h with ⟨-, rfl⟩ | ⟨hseen, rfl | ⟨c, m, rfl⟩ | ⟨hfollows, s₁, hs₁, rfl⟩⟩
  · exact .inl hk
  · exact hmeet hseen hk
  · exact hmeet hseen (State.seen_put _ c m ▸ hk)
  · obtain ⟨hgrows, hsame⟩ := s₁.grows_unless onlyDep
      (clause depend .select (condition pkgname parent depend)) .select
    rw [hsame] at hk
    rcases hcall _ _ _ _ hs₁ hk with hk | hmet
    · exact hmeet hseen hk
    · obtain ⟨next, hnext, met, cond, hway, hkey, hline⟩ := hmet.grows hgrows
      exact .inr ⟨depend, List.mem_cons_self, met, cond, .through hfollows hnext hway, hkey, hline⟩

theorem mconf_met {ds : List Text} {k : Text} (package : Packages)
    (pkgname : Text) (n : ℕ) (h : mconf package pkgname n onlyDep ds parent s = some s')
    (hk : k ∈ s'.seen) : k ∈ s.seen ∨ Met package pkgname parent ds s' k := by
  induction n generalizing onlyDep ds parent s s' with
  | zero => cases h
  | succ n ih =>
    rw [mconf] at h
    induction ds generalizing s with
    | nil => exact .inl (Option.some.inj h ▸ hk)
    | cons d ds ihds =>
      rw [List.foldlM_cons] at h
      obtain ⟨s₁, hd, hrest⟩ := Option.bind_eq_some_iff.mp h
      rcases ihds hrest with hk | ⟨d', hd', hmet⟩
      · have hgrows : s₁.Grows s' := mconf_grows package pkgname (n + 1) hrest
        rcases step_met (fun _ _ _ _ hcall hk => ih hcall hk) hd hk with hk | hmet
        · exact .inl hk
        · obtain ⟨d', hd', hmet⟩ := hmet.grows hgrows
          exact .inr ⟨d', mem_singleton.mp hd' ▸ mem_cons_self, hmet⟩
      · exact .inr ⟨d', mem_cons_of_mem _ hd', hmet⟩

/-- **Every dependency has its line, or was met before.** -/
theorem mem_mconfDepends {before after : List Text}
    (hdepends : dependsOf package pkgname = before ++ depend :: after)
    (hbuild : isBuildonly package (name depend) = false)
    (hv : vdepends package (name depend) = none) :
    (∃ m, (clause depend (if '+' ∈ flags depend then .select else .depends)
        (condition pkgname [] depend), m) ∈ mconfDepends package pkgname)
    ∨ ∃ d ∈ before, ∃ met cond, Way package pkgname [] d met cond ∧ key met = key depend
      ∧ (Plain package met →
          ∃ m, (clause met .depends cond, m) ∈ mconfDepends package pkgname) := by
  obtain ⟨n, s, hs, hlines⟩ := exists_mconf package pkgname
  rw [hlines]
  rw [mconf, hdepends, foldlM_append] at hs
  obtain ⟨s₁, hbefore, hs⟩ := bind_eq_some_iff.mp hs
  have hgrows : s₁.Grows s := mconf_grows package pkgname (n + 1) hs
  by_cases hseen : key depend ∈ s₁.seen
  · rcases mconf_met package pkgname (n + 1) hbefore hseen with hk | hmet
    · cases hk
    · exact .inr (hmet.grows hgrows)
  · rw [foldlM_cons] at hs
    obtain ⟨s₂, hstep, hafter⟩ := bind_eq_some_iff.mp hs
    have hgrows : s₂.Grows s := mconf_grows package pkgname (n + 1) hafter
    exact .inl (hgrows.has _ (step_has hstep hseen hbuild hv (.inl rfl)))

/-! ## Assignments -/

/-- `tristate` of Kconfig, the values of its expressions. -/
inductive Tristate
  | no
  | mod
  | yes
deriving DecidableEq

/-- The order of the values. -/
def Tristate.toNat : Tristate → ℕ
  | no => 0
  | mod => 1
  | yes => 2

/-- The negation of Kconfig. -/
def Tristate.not : Tristate → Tristate
  | no => yes
  | mod => mod
  | yes => no

section

variable (value : Text → Tristate)

/-- **A line holds**: the value of the package is within the bound that the
line sets. -/
def Clause.Holds (pkgname : Text) : Clause → Prop
  | .plain depend => (value (symbol pkgname)).toNat ≤ (value depend).toNat
  | .onlyIf depend condition =>
    min (value (symbol pkgname)).toNat (value condition).toNat ≤ (value depend).toNat
  | .unless condition depend =>
    (value (symbol pkgname)).toNat ≤ max (value condition).not.toNat (value depend).toNat

instance (pkgname : Text) (c : Clause) : Decidable (c.Holds value pkgname) :=
  match c with
  | .plain _ => inferInstanceAs (Decidable (_ ≤ _))
  | .onlyIf _ _ => inferInstanceAs (Decidable (_ ≤ _))
  | .unless _ _ => inferInstanceAs (Decidable (_ ≤ _))

/-- A package is enabled, built in or as a module. -/
def Enabled (pkgname : Text) : Prop := value (symbol pkgname) ≠ .no

/-- The assignment satisfies all lines of all packages. -/
def Satisfies (package : Packages) : Prop :=
  ∀ p ∈ package, ∀ line ∈ mconfDepends package p.1, line.1.Holds value p.1

/-- **A package lists a dependency whose condition holds**. -/
def DependsOn (package : Packages) (pkgname dependency : Text) : Prop :=
  ∃ depend ∈ dependsOf package pkgname, '@' ∉ flags depend ∧ name depend = dependency
    ∧ (∀ c, ownCondition depend = some c → value c ≠ .no)
    ∧ (package.lookup dependency).isSome = true
    ∧ isBuildonly package dependency = false ∧ vdepends package dependency = none

/-- The condition of a line makes it say something. -/
def Applies (pkgname cond : Text) (m : Mode) : Prop :=
  isTrue cond = true →
    value cond ≠ .no ∧ (m = .depends → value cond = .yes ∨ value (symbol pkgname) = .yes)

/-- **A dependency is kept**: it has a line that applies, or one of the same
text was met before that has one. -/
def Keeps (package : Packages) (pkgname dependency : Text) : Prop :=
  ∃ before depend after, dependsOf package pkgname = before ++ depend :: after
    ∧ '@' ∉ flags depend ∧ name depend = dependency
    ∧ isBuildonly package dependency = false ∧ vdepends package dependency = none
    ∧ Applies value pkgname (condition pkgname [] depend)
      (if '+' ∈ flags depend then .select else .depends)
    ∧ ∀ d ∈ before, ∀ met cond, Way package pkgname [] d met cond → key met = key depend →
      '@' ∉ flags met ∧ '+' ∉ flags met ∧ Applies value pkgname cond .depends

/-- **Dependencies are honoured**: an enabled package has what it depends on. -/
def Honoured (package : Packages) : Prop :=
  Satisfies value package → ∀ pkgname dependency, Enabled value pkgname →
    DependsOn value package pkgname dependency → Enabled value dependency

end

theorem Tristate.ne_no_iff {t : Tristate} : t ≠ .no ↔ 0 < t.toNat := by
  cases t <;> decide

theorem Tristate.eq_yes_iff {t : Tristate} : t = .yes ↔ t.toNat = 2 := by
  cases t <;> decide

theorem Tristate.toNat_not (t : Tristate) : t.not.toNat = 2 - t.toNat := by
  cases t <;> rfl

theorem enabled_of_clause {value : Text → Tristate} {cond : Text} {m : Mode}
    (h : (clause depend m cond).Holds value pkgname) (hat : '@' ∉ flags depend)
    (happlies : Applies value pkgname cond m) (hen : Enabled value pkgname) :
    Enabled value (name depend) := by
  unfold clause at h
  simp only [if_neg hat] at h
  unfold Enabled at hen ⊢
  unfold Applies at happlies
  simp only [Tristate.ne_no_iff, Tristate.eq_yes_iff] at hen happlies ⊢
  by_cases hcond : isTrue cond = true
  · rw [if_pos hcond] at h
    obtain ⟨hne, hm⟩ := happlies hcond
    cases m with
    | select =>
      simp only [Clause.Holds] at h
      omega
    | depends =>
      have hyes := hm rfl
      simp only [Clause.Holds, Tristate.toNat_not] at h
      omega
  · rw [if_neg hcond] at h
    simp only [Clause.Holds] at h
    omega

theorem name_eq_of_key_eq {d d' : Text} (h : key d = key d') : name d = name d' := by
  unfold name
  rw [h]

theorem Keeps.enabled {value : Text → Tristate} {dependency : Text}
    (h : Keeps value package pkgname dependency) (hsat : Satisfies value package)
    (hen : Enabled value pkgname) : Enabled value dependency := by
  obtain ⟨before, depend, after, hdepends, hat, rfl, hbuild, hv, happlies, hways⟩ := h
  obtain ⟨p, hp, -⟩ : ∃ p, (pkgname, p) ∈ package ∧ depend ∈ p.depends :=
    exists_of_mem_dependsOf (hdepends ▸ List.mem_append_right _ List.mem_cons_self)
  rcases mem_mconfDepends hdepends hbuild hv with ⟨m, hline⟩ | ⟨d, hd, met, cond, hway, hkey, hline⟩
  · exact enabled_of_clause (hsat _ hp _ hline) hat happlies hen
  · have hname := name_eq_of_key_eq hkey
    obtain ⟨hat, hplus, happlies⟩ := hways d hd met cond hway hkey
    obtain ⟨m, hline⟩ := hline ⟨by rw [hname]; exact hbuild, by rw [hname]; exact hv, hplus⟩
    exact hname ▸ enabled_of_clause (hsat _ hp _ hline) hat happlies hen

theorem enabled_of_transGen {value : Text → Tristate} {dependency : Text}
    (h : Relation.TransGen (Keeps value package) pkgname dependency)
    (hsat : Satisfies value package) (hen : Enabled value pkgname) : Enabled value dependency := by
  induction h with
  | single h => exact h.enabled hsat hen
  | tail _ h ih => exact h.enabled hsat ih

/-- **The dependencies are honoured where they are kept**: if every dependency
of an enabled package is reached from it by dependencies that are kept, every
assignment that satisfies the lines enables it. -/
theorem dependencies_honoured (package : Packages) (value : Text → Tristate)
    (hkept : ∀ pkgname dependency, Enabled value pkgname →
      DependsOn value package pkgname dependency →
      Relation.TransGen (Keeps value package) pkgname dependency) : Honoured value package := by
  intro hsat pkgname dependency hen hdep
  exact enabled_of_transGen (hkept pkgname dependency hen hdep) hsat hen

/-- A package that has these dependencies only. -/
def ofStrings (depends : List String) : Package := ⟨depends.map String.toList, false, none⟩

/-- A package that selects what a package it selects also selects. -/
def diamond : Packages :=
  [(['p'], ofStrings ["+a", "+d"]), (['a'], ofStrings ["+d"]), (['d'], ofStrings [])]

theorem keeps_first {value : Text → Tristate} (depend : Text) (after : List Text)
    (hdepends : dependsOf package pkgname = depend :: after) (hat : '@' ∉ flags depend)
    (hown : ownCondition depend = none) (hbuild : isBuildonly package (name depend) = false)
    (hv : vdepends package (name depend) = none) : Keeps value package pkgname (name depend) := by
  refine ⟨[], depend, after, hdepends, hat, rfl, hbuild, hv, ?_, nofun⟩
  unfold condition
  rw [hown]
  exact nofun

/-- **The dependencies of the diamond are honoured**, although the second one of
`p` is skipped. -/
theorem dependencies_honoured_diamond : Honoured (fun _ => .yes) diamond := by
  have hpa : Keeps (fun _ => .yes) diamond ['p'] ['a'] :=
    keeps_first ['+', 'a'] [['+', 'd']] rfl (by decide) (by decide) (by decide) (by decide)
  have had : Keeps (fun _ => .yes) diamond ['a'] ['d'] :=
    keeps_first ['+', 'd'] [] rfl (by decide) (by decide) (by decide) (by decide)
  have hall : ∀ p ∈ diamond, ∀ depend ∈ dependsOf diamond p.1,
      p.1 = ['p'] ∧ name depend = ['a'] ∨ p.1 = ['p'] ∧ name depend = ['d']
        ∨ p.1 = ['a'] ∧ name depend = ['d'] := by
    decide +kernel
  refine dependencies_honoured diamond _ fun pkgname dependency _ hdep => ?_
  obtain ⟨depend, hmem, -, rfl, -⟩ := hdep
  obtain ⟨p, hp, -⟩ := exists_of_mem_dependsOf hmem
  rcases hall _ hp depend hmem with ⟨rfl, hd⟩ | ⟨rfl, hd⟩ | ⟨rfl, hd⟩ <;> rw [hd]
  · exact .single hpa
  · exact .tail (.single hpa) had
  · exact .single had

/-- The diamond with a condition on one side. -/
def conditionalDiamond : Packages :=
  [(['p'], ofStrings ["+FOO:a", "+d"]), (['a'], ofStrings ["+d"]), (['d'], ofStrings [])]

/-- Two packages that select each other and both select a third one. -/
def cycle : Packages :=
  [(['p'], ofStrings ["+a", "+d"]), (['a'], ofStrings ["+p", "+d"]), (['d'], ofStrings [])]

/-- **A dependency met under a condition is lost**: with `FOO` off, `p` alone
satisfies all lines, and so do the packages of the cycle without `d`. -/
theorem not_honoured_conditionalDiamond :
    ¬Honoured (fun t => if t = symbol ['p'] then .yes else .no) conditionalDiamond
    ∧ ¬Honoured (fun t => if t = symbol ['d'] then .no else .yes) cycle := by
  refine ⟨fun h => ?_, fun h => ?_⟩
  all_goals
    exact h (by unfold Satisfies; decide +kernel) ['p'] ['d'] (by unfold Enabled; decide)
      ⟨['+', 'd'], by decide, by decide, by decide, nofun, by decide, by decide, by decide⟩
      (by decide)

end Mconf
