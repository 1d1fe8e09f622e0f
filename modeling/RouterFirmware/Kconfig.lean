import Mathlib.Data.Char
import Mathlib.Data.List.Dedup
import Mathlib.Data.List.Lex

/-!
# Configurations of the kernel

`scripts/kconfig.pl` reads configuration files, joins them as an expression on
its command line says, and prints the result.
-/

namespace Kconfig

open List Option

/-- A text: a file, a line, a symbol or a value. -/
abbrev Text := List Char

/-- `%config`: the values of the symbols, the last one set first. -/
abbrev Config := List (Text × Text)

def keys (cfg : Config) : List Text := (cfg.map Prod.fst).dedup

def undef : Text := ['#', 'u', 'n', 'd', 'e', 'f']

def truthy (v : Text) : Bool := v ≠ [] ∧ v ≠ ['0']

/-! ## Files -/

def setConfig (config : Config) (idx newval : Text) (modPlus : Bool) : Config :=
  if config.lookup idx = none ∨ modPlus = false ∨ config.lookup idx = some undef
      ∨ newval = ['y'] then
    (idx, newval) :: config
  else config

def strip (p s : Text) : Option Text := if p <+: s then some (s.drop p.length) else none

def splitAtFirst (sep : Text) : Text → Option (Text × Text)
  | [] => none
  | c :: s =>
    match strip sep (c :: s) with
    | some r => some ([], r)
    | none => (splitAtFirst sep s).map fun p => (c :: p.1, p.2)

def shortest (sep : Text) : Text → Option (Text × Text)
  | [] => none
  | c :: s => (splitAtFirst sep s).map fun p => (c :: p.1, p.2)

def symbolStart : Text := "CONFIG_".toList

def isNotSet : Text := " is not set".toList

def assignment (line : Text) : Option (Text × Text) := do
  let p ← shortest ['='] (← strip symbolStart line)
  if p.2 = [] then none else some p

def notSet (line : Text) : Option Text := do
  let p ← shortest isNotSet (← strip ('#' :: ' ' :: symbolStart) line)
  some p.1

def parseLine (line : Text) : Option (Text × Text) :=
  match assignment line with
  | some p => some p
  | none => (notSet line).map fun name => (name, undef)

def loadLine (modPlus : Bool) (config : Config) (line : Text) : Config :=
  match parseLine line with
  | some p => setConfig config p.1 p.2 modPlus
  | none => config

def loadConfig (text : Text) (modPlus : Bool) : Config :=
  (text.splitOn '\n').foldl (loadLine modPlus) []

def printCfgline (name val : Text) : Text :=
  if val = undef ∨ val = ['n'] then '#' :: ' ' :: symbolStart ++ name ++ isNotSet
  else symbolStart ++ name ++ '=' :: val

def dumpConfig (cfg : Config) : Text :=
  ((keys cfg).mergeSort (· ≤ ·)).flatMap fun name =>
    printCfgline name ((cfg.lookup name).getD []) ++ ['\n']

/-! ## Operations -/

def fill (f : Text → Option Text → Option Text) (ks : List Text) (config : Config) : Config :=
  ks.foldl (fun config k => ((f k (config.lookup k)).map fun v => (k, v)).toList ++ config) config

def configAnd (cfg1 cfg2 : Config) : Config :=
  fill (fun k _ => do
    let val1 ← cfg1.lookup k
    let val2 ← cfg2.lookup k
    if truthy val2 ∧ val1 = val2 then some val1 else none) (keys cfg1) []

def configAdd (cfg1 cfg2 : Config) (modPlus : Bool) : Config :=
  let add (cfg : Config) := fill (fun k v =>
    if modPlus ∧ v = some ['y'] then none else cfg.lookup k) (keys cfg)
  add cfg2 (add cfg1 [])

def configDiff (cfg1 cfg2 : Config) : Config :=
  fill (fun k _ => if cfg1.lookup k = cfg2.lookup k then none else cfg2.lookup k) (keys cfg2) []

def configSub (cfg1 cfg2 : Config) : Config := cfg1.filter fun p => !(keys cfg2).contains p.1

def parseTwo (expr : List Text → Bool → Option (Config × List Text)) (args : List Text)
    (mod2 : Bool) (op : Config → Config → Config) : Option (Config × List Text) := do
  let arg1 ← expr args false
  let arg2 ← expr arg1.2 mod2
  some (op arg1.1 arg2.1, arg2.2)

def parseExpr (files : Text → Option Text) : ℕ → List Text → Bool → Option (Config × List Text)
  | 0, _, _ => none
  | _ + 1, [], _ => none
  | fuel + 1, arg :: args, modPlus =>
    if truthy arg = false then none
    else if arg = ['&'] then parseTwo (parseExpr files fuel) args false configAnd
    else if ['+'] <+: arg then
      parseTwo (parseExpr files fuel) args false fun a b => configAdd a b false
    else if ['m', '+'] <+: arg then
      parseTwo (parseExpr files fuel) args true fun a b => configAdd a b true
    else if arg = ['>'] then parseTwo (parseExpr files fuel) args false configDiff
    else if arg = ['-'] then parseTwo (parseExpr files fuel) args false configSub
    else (files arg).map fun text => (loadConfig text modPlus, args)

def evaluate (files : Text → Option Text) (args : List Text) : Option Config :=
  (parseExpr files args.length args false).map Prod.fst

def IsFile (arg : Text) : Prop :=
  truthy arg ∧ arg ≠ ['&'] ∧ ¬ ['+'] <+: arg ∧ ¬ ['m', '+'] <+: arg ∧ arg ≠ ['>'] ∧ arg ≠ ['-']

variable {text v : Text}

theorem parseExpr_file {files : Text → Option Text} {arg : Text} (harg : IsFile arg)
    (htext : files arg = some text) (fuel : ℕ) (args : List Text) (modPlus : Bool) :
    parseExpr files (fuel + 1) (arg :: args) modPlus
      = some (loadConfig text modPlus, args) := by
  obtain ⟨h0, h1, h2, h3, h4, h5⟩ := harg
  simp [parseExpr, h0, h1, h2, h3, h4, h5, htext]

/-! ## What the loops store -/

variable {cfg : Config} {k : Text} {modPlus : Bool}

section

theorem lookup_cons (p : Text × Text) :
    List.lookup k (p :: cfg) = if k = p.1 then some p.2 else cfg.lookup k := by
  obtain ⟨x, v⟩ := p
  by_cases hk : k = x
  · simp [hk]
  · simp [hk, List.lookup_cons, beq_false_of_ne hk]

theorem mem_keys : k ∈ keys cfg ↔ (cfg.lookup k).isSome := by
  induction cfg with
  | nil => simp [keys]
  | cons p cfg ih =>
    simp only [keys, mem_dedup, map_cons, mem_cons, lookup_cons] at ih ⊢
    by_cases h : k = p.1
    · simp [h]
    · simp [h, ih]

theorem lookup_fill {config : Config} {f : Text → Option Text → Option Text} {ks : List Text}
    (hks : ks.Nodup) : (fill f ks config).lookup k
    = if k ∈ ks then (f k (config.lookup k)).or (config.lookup k) else config.lookup k := by
  induction ks generalizing config with
  | nil => simp [fill]
  | cons x ks ih =>
    obtain ⟨hx, hks⟩ := nodup_cons.mp hks
    have hstep : ∀ y, (((f x (config.lookup x)).map fun v => (x, v)).toList ++ config).lookup y
        = if y = x then (f x (config.lookup x)).or (config.lookup x) else config.lookup y := by
      intro y
      by_cases hy : y = x
      · cases hf : f x (config.lookup x) <;> simp [hy]
      · cases hf : f x (config.lookup x) <;> simp [hy, lookup_cons]
    show (fill f ks _).lookup k = _
    rw [ih hks, hstep]
    by_cases hk : k = x
    · simp [hk, hx]
    · simp [hk]

theorem lookup_fill_keys {config : Config} {f : Text → Option Text → Option Text} :
    (fill f (keys cfg) config).lookup k
      = if (cfg.lookup k).isSome then (f k (config.lookup k)).or (config.lookup k)
        else config.lookup k := by
  have hks : (keys cfg).Nodup := nodup_dedup _
  simp only [lookup_fill hks, mem_keys]

variable {cfg1 cfg2 : Config}

theorem lookup_configAnd {v : Text} : (configAnd cfg1 cfg2).lookup k = some v
    ↔ truthy v ∧ cfg1.lookup k = some v ∧ cfg2.lookup k = some v := by
  rw [configAnd, lookup_fill_keys]
  cases h1 : cfg1.lookup k with
  | none => simp
  | some v1 =>
    cases h2 : cfg2.lookup k with
    | none => simp
    | some v2 =>
      by_cases hv : v1 = v2
      · simp [hv]
        rintro rfl
        trivial
      · simp [hv]
        rintro - rfl rfl
        exact hv rfl

theorem lookup_configAdd : (configAdd cfg1 cfg2 modPlus).lookup k
    = if modPlus ∧ cfg1.lookup k = some ['y'] then some ['y']
      else (cfg2.lookup k).or (cfg1.lookup k) := by
  have h1 : (fill (fun k v => if modPlus = true ∧ v = some ['y'] then none else cfg1.lookup k)
      (keys cfg1) []).lookup k = cfg1.lookup k := by
    rw [lookup_fill_keys]
    cases cfg1.lookup k <;> simp
  rw [configAdd, lookup_fill_keys, h1]
  by_cases hy : modPlus = true ∧ cfg1.lookup k = some ['y']
  · simp [hy.1, hy.2]
  · rw [if_neg hy, if_neg hy]
    cases cfg2.lookup k <;> simp

theorem lookup_configDiff : (configDiff cfg1 cfg2).lookup k
    = if cfg1.lookup k = cfg2.lookup k then none else cfg2.lookup k := by
  rw [configDiff, lookup_fill_keys]
  cases cfg2.lookup k <;> simp

theorem lookup_configSub :
    (configSub cfg1 cfg2).lookup k = if k ∈ keys cfg2 then none else cfg1.lookup k := by
  induction cfg1 with
  | nil => simp [configSub]
  | cons p cfg1 ih =>
    rw [configSub, filter_cons, ← configSub]
    by_cases hp : k = p.1
    · subst hp
      by_cases hk : p.1 ∈ keys cfg2
      · rw [if_neg (by simpa using hk), ih, if_pos hk, if_pos hk]
      · rw [if_pos (by simpa using hk), if_neg hk, lookup_cons, lookup_cons, if_pos rfl, if_pos rfl]
    · rw [lookup_cons, if_neg hp, ← ih]
      split_ifs
      · rw [lookup_cons, if_neg hp]
      · rfl

theorem lookup_setConfig {config : Config} {idx newval : Text} :
    (setConfig config idx newval modPlus).lookup k
      = if k = idx ∧ (config.lookup k = none ∨ modPlus = false ∨ config.lookup k = some undef
          ∨ newval = ['y']) then some newval
        else config.lookup k := by
  unfold setConfig
  by_cases hset : config.lookup idx = none ∨ modPlus = false ∨ config.lookup idx = some undef
      ∨ newval = ['y']
  · rw [if_pos hset, lookup_cons]
    by_cases hk : k = idx
    · rw [if_pos hk, if_pos ⟨hk, hk ▸ hset⟩]
    · rw [if_neg hk, if_neg fun h => hk h.1]
  · rw [if_neg hset, if_neg]
    rintro ⟨rfl, h⟩
    exact hset h

end

/-! ## What a file can define -/

theorem strip_eq_some {p s r : Text} : strip p s = some r ↔ s = p ++ r := by
  rw [strip]
  constructor
  · intro h
    split_ifs at h with hp
    obtain ⟨t, rfl⟩ := hp
    simpa using h
  · rintro rfl
    simp

theorem eq_of_splitAtFirst {sep s : Text} {p : Text × Text} (h : splitAtFirst sep s = some p) :
    s = p.1 ++ sep ++ p.2 := by
  induction s generalizing p with
  | nil => simp [splitAtFirst] at h
  | cons c s ih =>
    rw [splitAtFirst] at h
    split at h
    · next r hr =>
      cases h
      simpa using strip_eq_some.mp hr
    · obtain ⟨q, hq, rfl⟩ := map_eq_some_iff.mp h
      simp [ih hq]

theorem splitAtFirst_append {c : Char} (sep : Text) {l : Text} (hl : c ∉ l) (r : Text) :
    splitAtFirst (c :: sep) (l ++ c :: sep ++ r) = some (l, r) := by
  induction l with
  | nil =>
    have hs : strip (c :: sep) (c :: (sep ++ r)) = some r := strip_eq_some.mpr rfl
    simp [splitAtFirst, hs]
  | cons x l ih =>
    have hs : strip (c :: sep) (x :: (l ++ c :: sep ++ r)) = none := by
      rw [strip, if_neg]
      rintro ⟨t, ht⟩
      exact hl (mem_cons.mpr (.inl (List.cons.inj ht).1))
    rw [cons_append, cons_append, splitAtFirst, hs, ih fun h => hl (.tail _ h)]
    rfl

theorem shortest_append {c : Char} (sep : Text) {l : List Char} (hne : l ≠ []) (hl : c ∉ l)
    (r : Text) : shortest (c :: sep) (l ++ c :: sep ++ r) = some (l, r) := by
  cases l with
  | nil => exact absurd rfl hne
  | cons x l =>
    have h := splitAtFirst_append sep (fun h => hl (.tail _ h)) r
    rw [cons_append, cons_append, shortest, h]
    rfl

theorem of_shortest {sep s : Text} {p : Text × Text} (h : shortest sep s = some p) :
    p.1 ≠ [] ∧ s = p.1 ++ sep ++ p.2 := by
  cases s with
  | nil => simp [shortest] at h
  | cons c s =>
    obtain ⟨q, hq, rfl⟩ := map_eq_some_iff.mp h
    exact ⟨cons_ne_nil _ _, congrArg (c :: ·) (eq_of_splitAtFirst hq)⟩

theorem of_parseLine {line : Text} {p : Text × Text} (h : parseLine line = some p) :
    p.1 ≠ [] ∧ p.2 ≠ [] ∧ ('\n' ∉ line → '\n' ∉ p.2) := by
  unfold parseLine at h
  split at h
  · next q hq =>
    cases h
    obtain ⟨s, hs, hq⟩ := bind_eq_some_iff.mp hq
    obtain ⟨t, ht, hq⟩ := bind_eq_some_iff.mp hq
    split_ifs at hq with hne
    cases hq
    obtain ⟨h1, rfl⟩ := of_shortest ht
    rw [strip_eq_some.mp hs]
    exact ⟨h1, hne, fun hn hp => hn (by simp [hp])⟩
  · obtain ⟨name, hq, rfl⟩ := map_eq_some_iff.mp h
    obtain ⟨s, -, hq⟩ := bind_eq_some_iff.mp hq
    obtain ⟨t, ht, hq⟩ := bind_eq_some_iff.mp hq
    cases hq
    have hundef : undef ≠ [] ∧ '\n' ∉ undef := by decide
    exact ⟨(of_shortest ht).1, hundef.1, fun _ => hundef.2⟩

theorem newline_notMem_of_mem_splitOn {line : Text} (h : line ∈ text.splitOn '\n') :
    '\n' ∉ line := by
  induction text generalizing line with
  | nil => simp_all
  | cons c text ih =>
    rw [splitOn_cons_eq_if_modifyHead] at h
    split_ifs at h with hc
    · rcases mem_cons.mp h with rfl | h
      · exact not_mem_nil
      · exact ih h
    · cases hs : text.splitOn '\n' with
      | nil => simp [hs] at h
      | cons l ls =>
        rw [hs, modifyHead_cons, mem_cons] at h
        rcases h with rfl | h
        · rw [mem_cons, not_or]
          exact ⟨fun h => hc (beq_iff_eq.mpr h.symm), ih (hs ▸ mem_cons_self)⟩
        · exact ih (hs ▸ .tail _ h)

theorem of_lookup_loadConfig {P : Text → Text → Prop}
    (hP : ∀ line ∈ text.splitOn '\n', ∀ p, parseLine line = some p → P p.1 p.2)
    (h : (loadConfig text modPlus).lookup k = some v) : P k v := by
  suffices hall : ∀ lines : List Text, (∀ line ∈ lines, ∀ p, parseLine line = some p → P p.1 p.2) →
      ∀ config : Config, (∀ v, config.lookup k = some v → P k v) →
      ∀ v, (lines.foldl (loadLine modPlus) config).lookup k = some v → P k v by
    exact hall _ hP [] (by simp) v h
  intro lines hlines
  induction lines with
  | nil => exact fun config h => h
  | cons line lines ih =>
    intro config hconfig
    refine ih (fun l hl => hlines l (.tail _ hl)) _ fun v hv => ?_
    unfold loadLine at hv
    split at hv
    · next p hp =>
      rw [lookup_setConfig] at hv
      split_ifs at hv with hk
      · cases hv
        rw [hk.1]
        exact hlines line mem_cons_self p hp
      · exact hconfig v hv
    · exact hconfig v hv

theorem of_lookup_parseExpr {P : Text → Text → Prop} {files : Text → Option Text}
    (hP : ∀ f text, files f = some text →
      ∀ line ∈ text.splitOn '\n', ∀ p, parseLine line = some p → P p.1 p.2)
    {fuel : ℕ} {args : List Text} {r : Config × List Text}
    (h : parseExpr files fuel args modPlus = some r) (hv : r.1.lookup k = some v) : P k v := by
  induction fuel generalizing args modPlus r v with
  | zero => simp [parseExpr] at h
  | succ fuel ih =>
    cases args with
    | nil => simp [parseExpr] at h
    | cons arg args =>
      -- every operation takes each value from one of its two configurations
      have htwo : ∀ {mod2 : Bool} {op : Config → Config → Config},
          (∀ a b, (op a b).lookup k = some v → a.lookup k = some v ∨ b.lookup k = some v) →
          parseTwo (parseExpr files fuel) args mod2 op = some r → P k v := by
        intro mod2 op hop h
        obtain ⟨r1, h1, h⟩ := bind_eq_some_iff.mp h
        obtain ⟨r2, h2, h⟩ := bind_eq_some_iff.mp h
        cases h
        rcases hop _ _ hv with hv | hv
        · exact ih h1 hv
        · exact ih h2 hv
      have hadd : ∀ (m : Bool) (a b : Config), (configAdd a b m).lookup k = some v →
          a.lookup k = some v ∨ b.lookup k = some v := by
        intro m a b hab
        rw [lookup_configAdd] at hab
        split_ifs at hab with hy
        · exact .inl (hy.2.trans hab)
        · exact (or_eq_some_iff.mp hab).symm.imp And.right id
      simp only [parseExpr] at h
      split_ifs at h
      · exact htwo (fun a b hab => .inl (lookup_configAnd.mp hab).2.1) h
      · exact htwo (hadd false) h
      · exact htwo (hadd true) h
      · refine htwo (fun a b hab => .inr ?_) h
        rw [lookup_configDiff] at hab
        split_ifs at hab
        exact hab
      · refine htwo (fun a b hab => .inl ?_) h
        rw [lookup_configSub] at hab
        split_ifs at hab
        exact hab
      · obtain ⟨text, htext, rfl⟩ := map_eq_some_iff.mp h
        exact of_lookup_loadConfig (hP arg text htext) hv

/-! ## Intersections -/

inductive Chain where
  | file (name : Text)
  | and (l r : Chain)

namespace Chain

def args : Chain → List Text
  | file name => [name]
  | and l r => ['&'] :: (l.args ++ r.args)

def files : Chain → List Text
  | file name => [name]
  | and l r => l.files ++ r.files

variable (texts : Text → Option Text)

def loaded (name : Text) : Config := loadConfig ((texts name).getD []) false

def value : Chain → Config
  | file name => loaded texts name
  | and l r => configAnd l.value r.value

variable {texts}

theorem parseExpr_args {e : Chain} (he : ∀ f ∈ e.files, IsFile f ∧ (texts f).isSome)
    {fuel : ℕ} (hfuel : e.args.length ≤ fuel) (rest : List Text) :
    parseExpr texts fuel (e.args ++ rest) false = some (e.value texts, rest) := by
  induction e generalizing fuel rest with
  | file name =>
    obtain ⟨hname, htext⟩ := he name mem_cons_self
    obtain ⟨text, htext⟩ := isSome_iff_exists.mp htext
    obtain ⟨fuel, rfl⟩ : ∃ n, fuel = n + 1 := ⟨fuel - 1, by simp [args] at hfuel; omega⟩
    simp [args, value, loaded, parseExpr_file hname htext, htext]
  | and l r ihl ihr =>
    simp only [args, length_cons, length_append] at hfuel
    obtain ⟨fuel, rfl⟩ : ∃ n, fuel = n + 1 := ⟨fuel - 1, by omega⟩
    have hl := ihl (fun f hf => he f (mem_append_left _ hf))
      (show l.args.length ≤ fuel by omega) (r.args ++ rest)
    have hr := ihr (fun f hf => he f (mem_append_right _ hf))
      (show r.args.length ≤ fuel by omega) rest
    simp [args, value, parseExpr, parseTwo, truthy, hl, hr]

theorem lookup_value {e : Chain} {k v : Text} (hv : truthy v) :
    (e.value texts).lookup k = some v ↔ ∀ f ∈ e.files, (loaded texts f).lookup k = some v := by
  induction e with
  | file name => simp [value, files]
  | and l r ihl ihr =>
    rw [value, lookup_configAnd, ihl, ihr]
    simp [hv, files, or_imp, forall_and]

end Chain

theorem truthy_of_loaded (h : (loadConfig text modPlus).lookup k = some v)
    (hv : v ≠ ['0']) : truthy v := by
  have hne : v ≠ [] := of_lookup_loadConfig (P := fun _ v => v ≠ [])
    (fun line _ p hp => (of_parseLine hp).2.1) h
  exact decide_eq_true ⟨hne, hv⟩

/-- **An intersection is what it should be exactly if no symbol of it is `0`**: this
goes for two files, for a file with itself and for a chain. The order of the
files never matters. -/
theorem configAnd_laws (texts : Text → Option Text) (l r : Chain)
    (hfiles : ∀ f ∈ (Chain.and l r).files, IsFile f ∧ (texts f).isSome)
    (text : Text) (A B C : Config) (hA : A = loadConfig text false) :
    ((∀ k v, (configAnd A B).lookup k = some v ↔ A.lookup k = some v ∧ B.lookup k = some v)
        ↔ ∀ k, ¬(A.lookup k = some ['0'] ∧ B.lookup k = some ['0']))
      ∧ (∀ k, (configAnd A B).lookup k = (configAnd B A).lookup k)
      ∧ (∀ k, (configAnd (configAnd A B) C).lookup k = (configAnd A (configAnd B C)).lookup k)
      ∧ ((∀ k, (configAnd A A).lookup k = A.lookup k) ↔ ∀ k, A.lookup k ≠ some ['0'])
      ∧ ∃ cfg, evaluate texts (Chain.and l r).args = some cfg
        ∧ ((∀ k v, cfg.lookup k = some v
              ↔ ∀ f ∈ (Chain.and l r).files, (Chain.loaded texts f).lookup k = some v)
            ↔ ∀ k, ∃ f ∈ (Chain.and l r).files, (Chain.loaded texts f).lookup k ≠ some ['0']) := by
  have hzero : truthy ['0'] = false := rfl
  have hand : ∀ D : Config,
      (∀ k v, (configAnd A D).lookup k = some v ↔ A.lookup k = some v ∧ D.lookup k = some v)
        ↔ ∀ k, ¬(A.lookup k = some ['0'] ∧ D.lookup k = some ['0']) := by
    intro D
    constructor
    · intro h k hk
      have := (lookup_configAnd.mp ((h k ['0']).mpr hk)).1
      exact absurd this (by simp [hzero])
    · intro h k v
      rw [lookup_configAnd, and_iff_right_iff_imp]
      intro hv
      refine truthy_of_loaded (hA ▸ hv.1) ?_
      rintro rfl
      exact h k hv
  refine ⟨hand B, fun k => ?_, fun k => ?_, ?_, ?_⟩
  · refine Option.ext fun v => ?_
    rw [lookup_configAnd, lookup_configAnd, and_comm (a := A.lookup k = some v)]
  · refine Option.ext fun v => ?_
    simp only [lookup_configAnd]
    tauto
  · have hself := hand A
    simp only [and_self] at hself
    rw [← hself]
    exact ⟨fun h k v => by rw [h], fun h k => Option.ext (h k)⟩
  · refine ⟨(Chain.and l r).value texts, ?_, ?_, ?_⟩
    · have h := Chain.parseExpr_args hfiles (Nat.le_refl _) []
      rw [append_nil] at h
      rw [evaluate, h]
      rfl
    · intro h k
      by_contra hall
      simp only [not_exists, not_and, not_not] at hall
      have := (lookup_configAnd.mp ((h k ['0']).mpr hall)).1
      exact absurd this (by simp [hzero])
    · intro h k v
      by_cases hv : truthy v
      · exact Chain.lookup_value hv
      · refine ⟨fun hk => absurd (lookup_configAnd.mp hk).1 hv, fun hk => absurd ?_ hv⟩
        obtain ⟨f, hf, hne⟩ := h k
        refine truthy_of_loaded (hk f hf) ?_
        rintro rfl
        exact hne (hk f hf)

def fileA : Text := "CONFIG_A=y\nCONFIG_B=m\n# CONFIG_C is not set".toList

def fileB : Text := "CONFIG_A=y\nCONFIG_B=y\nCONFIG_D=2".toList

def twoFiles (f : Text) : Option Text := some (if f = ['a'] then fileA else fileB)

theorem lookup_ne_of_forall (h : ∀ p ∈ cfg, p.2 ≠ v) (k : Text) : cfg.lookup k ≠ some v := by
  intro hk
  obtain ⟨l, r, rfl, -⟩ := lookup_eq_some_iff.mp hk
  exact h (k, v) (mem_append_right _ mem_cons_self) rfl

/-- **Two files without a `0`**: what both have is kept, a file with itself is
the file, and a chain of `&` has `A` but not `B`, which differs. -/
theorem configAnd_laws_twoFiles :
    (∀ k v, (configAnd (loadConfig fileA false) (loadConfig fileB false)).lookup k = some v
        ↔ (loadConfig fileA false).lookup k = some v ∧ (loadConfig fileB false).lookup k = some v)
      ∧ (∀ k, (configAnd (loadConfig fileA false) (loadConfig fileA false)).lookup k
        = (loadConfig fileA false).lookup k)
      ∧ ∃ cfg, evaluate twoFiles [['&'], ['a'], ['b']] = some cfg
        ∧ cfg.lookup ['A'] = some ['y'] ∧ cfg.lookup ['B'] = none := by
  have hzero : ∀ k, (loadConfig fileA false).lookup k ≠ some ['0'] :=
    lookup_ne_of_forall (by decide +kernel)
  obtain ⟨hand, -, -, hself, cfg, hcfg, hchain⟩ := configAnd_laws twoFiles (.file ['a'])
    (.file ['b']) (by simp only [Chain.files]; unfold IsFile; decide) fileA _
    (loadConfig fileB false) [] rfl
  have hkept := hchain.mpr fun k => ⟨['a'], mem_cons_self, hzero k⟩
  refine ⟨hand.mpr fun k hk => hzero k hk.1, hself.mpr hzero, cfg, hcfg, ?_, ?_⟩
  · exact (hkept _ _).mpr (by decide +kernel)
  · refine eq_none_iff_forall_ne_some.mpr fun v hv => ?_
    have hfiles := (hkept _ _).mp hv
    have hm : some ['m'] = some v := hfiles ['a'] (by decide)
    have hy : some ['y'] = some v := hfiles ['b'] (by decide)
    exact absurd (hm.trans hy.symm) (by decide)

/-- **A symbol that is `0` in both files is dropped.** -/
theorem configAnd_drops_zero : (loadConfig "CONFIG_A=0".toList false).lookup ['A'] = some ['0']
    ∧ (configAnd (loadConfig "CONFIG_A=0".toList false)
      (loadConfig "CONFIG_A=0".toList false)).lookup ['A'] = none := by
  decide

/-! ## Differences, and files written and read again -/

def isWord (c : Char) : Bool := c.isAlphanum || c = '_'

def WordNames (text : Text) : Prop :=
  ∀ line ∈ text.splitOn '\n', ∀ p, parseLine line = some p → ∀ c ∈ p.1, isWord c

theorem parseLine_printCfgline {name val : List Char} (hne : name ≠ [])
    (hname : ∀ c ∈ name, isWord c) (hval : val ≠ []) :
    parseLine (printCfgline name val) = some (name, if val = ['n'] then undef else val) := by
  have heq : '=' ∉ name := fun h => absurd (hname _ h) (by decide)
  have hblank : ' ' ∉ name := fun h => absurd (hname _ h) (by decide)
  unfold printCfgline parseLine
  by_cases hv : val = undef ∨ val = ['n']
  · rw [if_pos hv]
    have hnot : assignment ('#' :: ' ' :: symbolStart ++ name ++ isNotSet) = none := by
      rw [assignment]
      have : strip symbolStart ('#' :: ' ' :: symbolStart ++ name ++ isNotSet) = none := rfl
      rw [this]
      rfl
    have hs : strip ('#' :: ' ' :: symbolStart) ('#' :: ' ' :: symbolStart ++ name ++ isNotSet)
        = some (name ++ isNotSet) := strip_eq_some.mpr (append_assoc ..)
    have hshort : shortest isNotSet (name ++ isNotSet) = some (name, []) := by
      have := shortest_append "is not set".toList hne hblank []
      rwa [append_nil] at this
    have hset : notSet ('#' :: ' ' :: symbolStart ++ name ++ isNotSet) = some name := by
      rw [notSet, hs, bind_eq_bind, bind_some, hshort]
      rfl
    rw [hnot, hset]
    rcases hv with rfl | rfl <;> rfl
  · rw [if_neg hv]
    rw [not_or] at hv
    have hs : strip symbolStart (symbolStart ++ name ++ '=' :: val) = some (name ++ '=' :: val) :=
      strip_eq_some.mpr (append_assoc ..)
    have hshort : shortest ['='] (name ++ '=' :: val) = some (name, val) := by
      have := shortest_append [] hne heq val
      rwa [append_assoc] at this
    have hass : assignment (symbolStart ++ name ++ '=' :: val) = some (name, val) := by
      rw [assignment, hs, bind_eq_bind, bind_some, hshort]
      simp [hval]
    rw [hass, if_neg hv.2]

theorem splitOn_flatMap {α : Type} {ls : List α} {f : α → Text} (h : ∀ x ∈ ls, '\n' ∉ f x) :
    (ls.flatMap fun x => f x ++ ['\n']).splitOn '\n' = ls.map f ++ [[]] := by
  induction ls with
  | nil => rfl
  | cons x ls ih =>
    rw [flatMap_cons, append_assoc, singleton_append,
      splitOn_append_cons_self_of_not_mem (h x mem_cons_self), ih fun y hy => h y (.tail _ hy)]
    rfl

theorem lookup_loadConfig_dumpConfig (h : ∀ k v, cfg.lookup k = some v →
      k ≠ [] ∧ (∀ c ∈ k, isWord c) ∧ v ≠ [] ∧ '\n' ∉ v) (k : Text) :
    (loadConfig (dumpConfig cfg) false).lookup k
      = (cfg.lookup k).map fun v => if v = ['n'] then undef else v := by
  have hsort := mergeSort_perm (keys cfg) (· ≤ ·)
  rw [loadConfig, dumpConfig]
  generalize (keys cfg).mergeSort (· ≤ ·) = ks at hsort
  have hmem : ∀ x ∈ ks, ∃ v, cfg.lookup x = some v :=
    fun x hx => isSome_iff_exists.mp (mem_keys.mp (hsort.mem_iff.mp hx))
  have hline : ∀ x ∈ ks, '\n' ∉ printCfgline x ((cfg.lookup x).getD []) := by
    intro x hx
    obtain ⟨v, hv⟩ := hmem x hx
    obtain ⟨-, hword, -, hnl⟩ := h x v hv
    have hnx : '\n' ∉ x := fun hc => absurd (hword _ hc) (by decide)
    have hstart : '\n' ∉ symbolStart := by decide
    have hend : '\n' ∉ isNotSet := by decide
    rw [hv, getD_some, printCfgline]
    split_ifs <;> simp [hstart, hend, hnx, hnl]
  have hload : ∀ config : Config,
      (ks.map fun x => printCfgline x ((cfg.lookup x).getD [])).foldl (loadLine false) config
        = fill (fun x _ => (cfg.lookup x).map fun v => if v = ['n'] then undef else v) ks
          config := by
    clear hline hsort
    induction ks with
    | nil => exact fun _ => rfl
    | cons x ks ih =>
      intro config
      obtain ⟨v, hv⟩ := hmem x mem_cons_self
      obtain ⟨hne, hword, hval, -⟩ := h x v hv
      rw [map_cons, foldl_cons, ih fun y hy => hmem y (.tail _ hy)]
      have hstep : loadLine false config (printCfgline x ((cfg.lookup x).getD []))
          = (x, if v = ['n'] then undef else v) :: config := by
        rw [hv, getD_some, loadLine, parseLine_printCfgline hne hword hval]
        exact if_pos (.inr (.inl rfl))
      rw [hstep, fill, fill, foldl_cons, hv]
      rfl
  have hempty : parseLine [] = none := by decide
  rw [splitOn_flatMap hline, foldl_append, hload, foldl_cons, foldl_nil, loadLine,
    hempty, lookup_fill (hsort.nodup_iff.mpr (nodup_dedup _))]
  simp only [hsort.mem_iff, mem_keys]
  cases cfg.lookup k <;> simp

theorem lookup_loadConfig_modPlus
    (h : (loadConfig text false).lookup k = some ['y']) :
    (loadConfig text true).lookup k = some ['y'] := by
  suffices hall : ∀ (lines : List Text) (c1 c2 : Config),
      (c1.lookup k = some ['y'] → c2.lookup k = some ['y']) →
      (lines.foldl (loadLine false) c1).lookup k = some ['y'] →
      (lines.foldl (loadLine true) c2).lookup k = some ['y'] by
    exact hall _ [] [] id h
  intro lines
  induction lines with
  | nil => exact fun _ _ h => h
  | cons line lines ih =>
    intro c1 c2 hc
    refine ih _ _ fun hy => ?_
    unfold loadLine at hy ⊢
    split at hy
    · next p hp =>
      rw [lookup_setConfig] at hy ⊢
      by_cases hk : k = p.1
      · have hp2 : p.2 = ['y'] := by simpa [hk] using hy
        simp [hk, hp2]
      · simp only [hk, false_and, if_false] at hy ⊢
        exact hc hy
    · exact hc hy

/-- **A difference is a patch**: what `>` finds and `+` adds makes the second file
of the first. What is `y` in one of the files of `m+` stays so, and a result that
is printed can be read again. -/
theorem difference_is_patch (files : Text → Option Text) (a b ta tb : Text) (ha : IsFile a)
    (hb : IsFile b) (hta : files a = some ta) (htb : files b = some tb)
    (hwords : ∀ f text, files f = some text → WordNames text) :
    (∃ cfg, evaluate files [['+'], a, ['>'], a, b] = some cfg
        ∧ ∀ k, cfg.lookup k
          = ((loadConfig tb false).lookup k).or ((loadConfig ta false).lookup k))
      ∧ (∃ cfg, evaluate files [['m', '+'], a, b] = some cfg
        ∧ ∀ k, (loadConfig ta false).lookup k = some ['y']
            ∨ (loadConfig tb false).lookup k = some ['y'] → cfg.lookup k = some ['y'])
      ∧ ∀ args cfg, evaluate files args = some cfg →
        ∀ k, (loadConfig (dumpConfig cfg) false).lookup k
          = (cfg.lookup k).map fun v => if v = ['n'] then undef else v := by
  refine ⟨⟨configAdd (loadConfig ta false) (configDiff (loadConfig ta false)
    (loadConfig tb false)) false, ?_, fun k => ?_⟩, ⟨configAdd (loadConfig ta false)
    (loadConfig tb true) true, ?_, fun k hy => ?_⟩, fun args cfg hcfg => ?_⟩
  · have hadd : parseExpr files 5 [['+'], a, ['>'], a, b] false
        = parseTwo (parseExpr files 4) [a, ['>'], a, b] false fun a b => configAdd a b false := rfl
    have hdiff : parseExpr files 4 [['>'], a, b] false
        = parseTwo (parseExpr files 3) [a, b] false configDiff := rfl
    simp only [evaluate, length_cons, length_nil, hadd, hdiff, parseTwo, parseExpr_file ha hta,
      parseExpr_file hb htb, bind_eq_bind, bind_some, map_some]
  · rw [lookup_configAdd, lookup_configDiff, if_neg (by simp)]
    split_ifs with heq
    · rw [heq]
      cases (loadConfig tb false).lookup k <;> rfl
    · rfl
  · have hadd : parseExpr files 3 [['m', '+'], a, b] false
        = parseTwo (parseExpr files 2) [a, b] true fun a b => configAdd a b true := rfl
    simp only [evaluate, length_cons, length_nil, hadd, parseTwo, parseExpr_file ha hta,
      parseExpr_file hb htb, bind_eq_bind, bind_some, map_some]
  · rw [lookup_configAdd]
    split_ifs with hk
    · rfl
    · rw [lookup_loadConfig_modPlus (hy.resolve_left fun h => hk ⟨rfl, h⟩)]
      rfl
  · obtain ⟨r, hr, rfl⟩ := map_eq_some_iff.mp hcfg
    refine lookup_loadConfig_dumpConfig fun k v hv => ?_
    refine of_lookup_parseExpr (P := fun k v => k ≠ [] ∧ (∀ c ∈ k, isWord c) ∧ v ≠ [] ∧ '\n' ∉ v)
      (fun f text hf line hline p hp => ?_) hr hv
    obtain ⟨hne, hval, hnl⟩ := of_parseLine hp
    exact ⟨hne, hwords f text hf line hline p hp, hval, hnl (newline_notMem_of_mem_splitOn hline)⟩

theorem wordNames_of_all
    (h : (text.splitOn '\n').all fun line => (parseLine line).all fun p => p.1.all isWord) :
    WordNames text := by
  intro line hline p hp c hc
  have hall := all_eq_true.mp h line hline
  rw [hp] at hall
  exact all_eq_true.mp hall c hc

/-- **The difference of two files, added to the first**: `B` and `D` are those of
the second file, and `C` is that of the first. -/
theorem difference_is_patch_twoFiles :
    ∃ cfg, evaluate twoFiles [['+'], ['a'], ['>'], ['a'], ['b']] = some cfg
      ∧ cfg.lookup ['A'] = some ['y'] ∧ cfg.lookup ['B'] = some ['y']
      ∧ cfg.lookup ['C'] = some undef ∧ cfg.lookup ['D'] = some ['2'] := by
  have hwords : ∀ f text, twoFiles f = some text → WordNames text := by
    rintro f text ⟨⟩
    split
    · exact wordNames_of_all (by decide +kernel)
    · exact wordNames_of_all (by decide +kernel)
  obtain ⟨⟨cfg, hcfg, hlookup⟩, -⟩ := difference_is_patch twoFiles ['a'] ['b'] fileA fileB
    (by unfold IsFile; decide) (by unfold IsFile; decide) rfl rfl hwords
  refine ⟨cfg, hcfg, ?_⟩
  simp only [hlookup]
  decide +kernel

end Kconfig
