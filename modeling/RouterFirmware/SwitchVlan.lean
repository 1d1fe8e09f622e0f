import Mathlib.Data.List.Induction
import Mathlib.Data.Nat.Bitwise
import RouterFirmware.Tokens

/-!
# The ports of a VLAN as text

`switch_parse_vlan` of `switch-core.c` reads the ports of a VLAN: numbers with
flags behind them, separated by white space.
-/

namespace Switch

open List Tokens Nat UInt32

structure Driver where
  cpuport : UInt32
  ports : ℕ

structure VlanConfig where
  port : UInt32
  untag : UInt32
  pvid : UInt32
deriving DecidableEq

/-- `1 << j`, which the processor computes with the lowest five bits of `j`. -/
def bit (j : UInt32) : UInt32 := 1 <<< j

def untagFlag (u : Bool) (c : Char) : Bool := if c = 'u' then true else if c = 't' then false else u

/-- The `isspace` of `switch-core.c`, which is not that of the C library. -/
def isspace (c : Char) : Bool := c = ' ' ∨ c = '\t' ∨ c = '\n' ∨ c = '\r'

theorem isspace_of_isDigit {c : Char} (h : c.isDigit) : isspace c = false := by
  rw [isspace, decide_eq_false_iff_not]
  rintro (rfl | rfl | rfl | rfl) <;> exact absurd h (by decide)

section Parse

/-- The loop over the flags: `u`, `p` and the rest of the text. -/
def scanFlags : List Char → Bool → Bool → Bool × Bool × List Char
  | [], u, p => (u, p, [])
  | c :: buf, u, p =>
    if isspace c then (u, p, c :: buf) else scanFlags buf (untagFlag u c) (p || c = '*')

def VlanConfig.add (c : VlanConfig) (j : UInt32) (u p : Bool) : VlanConfig where
  port := c.port ||| bit j
  untag := if u then c.untag ||| bit j else c.untag
  pvid := if p then c.pvid ||| bit j else c.pvid

/-- The loop of `switch_parse_vlan`: the text it stops at, and the masks. -/
def parseLoop (d : Driver) : ℕ → List Char → UInt32 → VlanConfig → List Char × VlanConfig
  | 0, buf, _, c => (buf, c)
  | _ + 1, [], _, c => ([], c)
  | n + 1, x :: buf, j, c =>
    if x.isDigit then
      let j := j * 10 + (x.val - '0'.val)
      if buf.head?.any Char.isDigit then parseLoop d n (buf.dropWhile isspace) j c
      else
        let r := scanFlags buf (j ≠ d.cpuport) false
        parseLoop d n (r.2.2.dropWhile isspace) 0 (c.add j r.1 r.2.1)
    else (x :: buf, c)

def Driver.mask (d : Driver) : UInt32 := bit (.ofNat d.ports) - 1

def switchParseVlan (d : Driver) (buf : List Char) : Option VlanConfig :=
  let r := parseLoop d buf.length (buf.dropWhile isspace) 0 ⟨0, 0, 0⟩
  if r.1 = [] then some ⟨r.2.port &&& d.mask, r.2.untag &&& d.mask, r.2.pvid &&& d.mask⟩ else none

end Parse

/-! ## Tokens -/

def number (t : List Char) : ℕ :=
  (t.takeWhile Char.isDigit).foldl (fun n c => n * 10 + (c.val - '0'.val).toNat) 0

def lastFlag (t : List Char) : Option Char := (t.filter fun c => c = 'u' ∨ c = 't').getLast?

/-- Whether a token is untagged, if it is so without a flag in the case of `default`. -/
def untagged (default : Bool) (t : List Char) : Bool := (lastFlag t).elim default (· = 'u')

def Numbered (t : List Char) : Prop := t.head?.any Char.isDigit

instance (t : List Char) : Decidable (Numbered t) := inferInstanceAs (Decidable (_ = true))

def VlanConfig.addToken (d : Driver) (c : VlanConfig) (t : List Char) : VlanConfig :=
  c.add (.ofNat (number t)) (untagged (.ofNat (number t) ≠ d.cpuport) t) ('*' ∈ t)

theorem foldl_untagFlag (t : List Char) (u : Bool) : t.foldl untagFlag u = untagged u t := by
  induction t using reverseRecOn with
  | nil => rfl
  | append_singleton t c ih =>
    rw [foldl_append, ih, foldl_cons, foldl_nil, untagFlag]
    unfold untagged lastFlag
    rw [filter_append]
    by_cases hu : c = 'u'
    · simp [hu]
    · by_cases ht : c = 't' <;> simp [hu, ht]

section Tokens

theorem scanFlags_append {t rest : List Char} (ht : ∀ c ∈ t, isspace c = false)
    (hrest : rest.dropWhile isspace = rest → rest = []) (u p : Bool) :
    scanFlags (t ++ rest) u p = (untagged u t, p || '*' ∈ t, rest) := by
  induction t generalizing u p with
  | nil =>
    cases rest with
    | nil => simp [scanFlags, untagged, lastFlag]
    | cons x rest =>
      have hx : isspace x = true := by
        by_contra hx
        exact absurd (hrest (dropWhile_cons_of_neg hx)) (cons_ne_nil _ _)
      simp [scanFlags, hx, untagged, lastFlag]
  | cons c t ih =>
    rw [cons_append, scanFlags, ht c mem_cons_self, if_neg Bool.false_ne_true,
      ih fun x hx => ht x (.tail _ hx), ← foldl_untagFlag, ← foldl_untagFlag]
    simp [Bool.or_assoc, eq_comm (a := c)]

def readDigits (j : UInt32) (ds : List Char) : UInt32 :=
  ds.foldl (fun j x => j * 10 + (x.val - '0'.val)) j

theorem readDigits_ofNat (ds : List Char) (a : ℕ) : readDigits (.ofNat a) ds
    = .ofNat (ds.foldl (fun n c => n * 10 + (c.val - '0'.val).toNat) a) := by
  induction ds generalizing a with
  | nil => rfl
  | cons x ds ih =>
    rw [List.foldl_cons, ← ih, ofNat_add, ofNat_mul, UInt32.ofNat_toNat]
    rfl

/-- **A token**: its digits, its flags, and the white space behind it. -/
theorem parseLoop_token {rest : List Char} {x : Char} {ds f : List Char} {n : ℕ}
    (d : Driver) (hds : ∀ c ∈ x :: ds, c.isDigit)
    (hf : ∀ c ∈ f, isspace c = false) (hhead : f.head?.any Char.isDigit = false)
    (hrest : rest.dropWhile isspace = rest → rest = []) (hn : ds.length < n) (j : UInt32)
    (c : VlanConfig) : parseLoop d n (x :: (ds ++ (f ++ rest))) j c
    = parseLoop d (n - ds.length - 1) (rest.dropWhile isspace) 0
      (c.add (readDigits j (x :: ds)) (untagged (readDigits j (x :: ds) ≠ d.cpuport) f)
        ('*' ∈ f)) := by
  have hx := hds x mem_cons_self
  obtain ⟨n, rfl⟩ : ∃ m, n = m + 1 := ⟨n - 1, by omega⟩
  induction ds generalizing x n j with
  | nil =>
    have hnext : (f ++ rest).head?.any Char.isDigit = false := by
      cases f with
      | cons y f => exact hhead
      | nil =>
        cases rest with
        | nil => rfl
        | cons y rest =>
          by_contra hy
          have hy : y.isDigit := by simpa using hy
          cases hrest (dropWhile_cons_of_neg (by simp [isspace_of_isDigit hy]))
    rw [nil_append, parseLoop, if_pos hx]
    dsimp only
    rw [hnext, if_neg Bool.false_ne_true, scanFlags_append hf hrest]
    rfl
  | cons y ds ih =>
    have hy := hds y (.tail _ mem_cons_self)
    obtain ⟨n, rfl⟩ : ∃ m, n = m + 1 := ⟨n - 1, by simp at hn; omega⟩
    have hdrop : (y :: (ds ++ (f ++ rest))).dropWhile isspace = y :: (ds ++ (f ++ rest)) :=
      dropWhile_cons_of_neg (by simp [isspace_of_isDigit hy])
    have hnext := ih (fun c hc => hds c (.tail _ hc)) (j * 10 + (x.val - '0'.val)) hy n
      (by simpa using hn)
    rw [cons_append, parseLoop, if_pos hx]
    simp only [head?_cons, Option.any_some, hy, if_true, hdrop, hnext]
    rw [length_cons, Nat.add_sub_add_right]
    rfl

theorem addToken_append {ds f : List Char} (hds : ∀ c ∈ ds, c.isDigit)
    (hhead : f.head?.any Char.isDigit = false) (d : Driver) (c : VlanConfig) :
    c.add (readDigits 0 ds) (untagged (readDigits 0 ds ≠ d.cpuport) f) ('*' ∈ f)
      = c.addToken d (ds ++ f) := by
  have hnumber : number (ds ++ f) = ds.foldl (fun n c => n * 10 + (c.val - '0'.val).toNat) 0 := by
    have hf : f.takeWhile Char.isDigit = [] := by
      cases f with
      | nil => rfl
      | cons y f => exact takeWhile_cons_of_neg (by simpa using hhead)
    rw [number, takeWhile_append_of_pos hds, hf, append_nil]
  have hfilter : (ds.filter fun c => c = 'u' ∨ c = 't') = [] := by
    rw [filter_eq_nil_iff]
    rintro c hc hut
    have := hds c hc
    rcases of_decide_eq_true hut with rfl | rfl <;> exact absurd this (by decide)
  have huntag : ∀ u, untagged u (ds ++ f) = untagged u f := fun u => by
    rw [untagged, lastFlag, filter_append, hfilter, nil_append, ← lastFlag, ← untagged]
  have hstar : '*' ∉ ds := fun h => absurd (hds _ h) (by decide)
  rw [VlanConfig.addToken, hnumber, ← readDigits_ofNat, huntag]
  simp [hstar]

/-- **The loop reads the tokens** up to the first that does not begin with a digit. -/
theorem parseLoop_tokens {n : ℕ} (d : Driver)
    {buf : List Char} (hbuf : buf.dropWhile isspace = buf) (hn : buf.length ≤ n) (c : VlanConfig) :
    if ∀ t ∈ tokens isspace buf, Numbered t then
      parseLoop d n buf 0 c = ([], (tokens isspace buf).foldl (.addToken d) c)
    else (parseLoop d n buf 0 c).1 ≠ [] := by
  induction hlen : buf.length using Nat.strong_induction_on generalizing buf n c with
  | _ m ih =>
  cases buf with
  | nil => cases n <;> simp [tokens, parseLoop]
  | cons x b =>
    have hx := head_eq_false hbuf
    -- the token and what follows it
    set t := (x :: b).takeWhile (!isspace ·) with ht
    set rest := (x :: b).dropWhile (!isspace ·) with hrest
    have hsplit : x :: b = t ++ rest := (takeWhile_append_dropWhile ..).symm
    have htmem : ∀ c ∈ t, isspace c = false := fun c hc => by
      simpa using mem_takeWhile_imp hc
    have htx : t = x :: b.takeWhile (!isspace ·) := by simp [ht, hx]
    have hrest' : rest.dropWhile isspace = rest → rest = [] := by
      intro h
      cases hr : rest with
      | nil => rfl
      | cons y r =>
        have h1 := head_dropWhile_not (!isspace ·) (l := x :: b) (by simp [← hrest, hr])
        have h2 := head_eq_false (hr ▸ h)
        simp only [← hrest, hr, head_cons, h2] at h1
        cases h1
    have htokens := tokens_append (by simp [htx]) htmem hrest'
    rw [hsplit, htokens]
    by_cases hd : x.isDigit
    · -- its digits and its flags
      set t' := b.takeWhile (!isspace ·)
      have htf : t' = t'.takeWhile Char.isDigit ++ t'.dropWhile Char.isDigit :=
        (takeWhile_append_dropWhile ..).symm
      have hds : ∀ c ∈ x :: t'.takeWhile Char.isDigit, c.isDigit := by
        intro c hc
        rcases mem_cons.mp hc with rfl | hc
        · exact hd
        · exact mem_takeWhile_imp hc
      have hhead : (t'.dropWhile Char.isDigit).head?.any Char.isDigit = false := by
        cases hdrop : t'.dropWhile Char.isDigit with
        | nil => rfl
        | cons y f =>
          have := head_dropWhile_not Char.isDigit (l := t') (by simp [hdrop])
          simpa [hdrop] using this
      have hlens := congrArg length hsplit
      have hlent := congrArg length htf
      have hle := length_dropWhile_le isspace rest
      simp only [htx, length_append, length_cons] at hlens hlent hn hlen
      have hloop := parseLoop_token d hds
        (fun c hc => htmem c (htx ▸ .tail _ ((dropWhile_suffix _).subset hc))) hhead hrest'
        (n := n) (by omega) 0 c
      rw [addToken_append hds hhead, ← append_assoc, ← htf, cons_append, ← htf,
        ← cons_append, ← htx] at hloop
      have := ih (rest.dropWhile isspace).length (by omega) (dropWhile_idempotent ..)
        (n := n - (t'.takeWhile Char.isDigit).length - 1) (by omega) (c.addToken d t) rfl
      have hnum : Numbered t := by simp [Numbered, htx, hd]
      rw [tokens_dropWhile] at this
      rw [hloop]
      simpa [hnum] using this
    · obtain ⟨n, rfl⟩ : ∃ k, n = k + 1 := ⟨n - 1, by simp at hn; omega⟩
      have hnum : ¬ Numbered t := by simp [Numbered, htx, hd]
      rw [if_neg (fun h => hnum (h t mem_cons_self)), ← hsplit, parseLoop, if_neg hd]
      exact cons_ne_nil _ _

/-- **What `switch_parse_vlan` returns.** -/
theorem switchParseVlan_eq (d : Driver) (s : List Char) : switchParseVlan d s
    = if ∀ t ∈ tokens isspace s, Numbered t then
        let c := (tokens isspace s).foldl (VlanConfig.addToken d) ⟨0, 0, 0⟩
        some ⟨c.port &&& d.mask, c.untag &&& d.mask, c.pvid &&& d.mask⟩
      else none := by
  have h := parseLoop_tokens d (dropWhile_idempotent _ s) (length_dropWhile_le ..) ⟨0, 0, 0⟩
  rw [tokens_dropWhile] at h
  unfold switchParseVlan
  by_cases hall : ∀ t ∈ tokens isspace s, Numbered t
  · rw [if_pos hall] at h ⊢
    simp [h]
  · rw [if_neg hall] at h ⊢
    exact if_neg h

end Tokens

/-! ## Masks -/

/-- The bits of the tokens with a property. -/
def bitsOf (Q : List Char → Bool) (ts : List (List Char)) : UInt32 :=
  ts.foldl (fun m t => if Q t then m ||| bit (.ofNat (number t)) else m) 0

theorem foldl_addToken (d : Driver) (ts : List (List Char)) :
    ts.foldl (VlanConfig.addToken d) ⟨0, 0, 0⟩
      = ⟨bitsOf (fun _ => true) ts,
          bitsOf (fun t => untagged (.ofNat (number t) ≠ d.cpuport) t) ts,
          bitsOf (fun t => '*' ∈ t) ts⟩ := by
  induction ts using reverseRecOn with
  | nil => rfl
  | append_singleton ts t ih =>
    rw [foldl_append, ih]
    simp only [bitsOf, foldl_append, foldl_cons, foldl_nil]
    rfl

theorem toNat_bit (j : ℕ) : (bit (.ofNat j)).toNat = 2 ^ (j % 32) := by
  have hlt : 2 ^ (j % 32) < 2 ^ 32 := Nat.pow_lt_pow_right (by decide) (Nat.mod_lt _ (by decide))
  rw [bit, UInt32.toNat_shiftLeft, toNat_one, toNat_ofNat', one_shiftLeft,
    mod_mod_of_dvd j (by decide : 32 ∣ 2 ^ 32), Nat.mod_eq_of_lt hlt]

theorem testBit_bitsOf (Q : List Char → Bool) (ts : List (List Char)) (k : ℕ) :
    (bitsOf Q ts).toNat.testBit k ↔ ∃ t ∈ ts, Q t ∧ number t % 32 = k := by
  induction ts using reverseRecOn with
  | nil => simp [bitsOf]
  | append_singleton ts t ih =>
    have hstep : bitsOf Q (ts ++ [t])
        = if Q t then bitsOf Q ts ||| bit (.ofNat (number t)) else bitsOf Q ts := by
      rw [bitsOf, foldl_append]
      rfl
    rw [hstep]
    by_cases hQ : Q t = true
    · rw [if_pos hQ, UInt32.toNat_or, testBit_or, Bool.or_eq_true, ih, toNat_bit,
        testBit_two_pow, decide_eq_true_iff]
      simp only [mem_append, mem_singleton, or_and_right, exists_or, exists_eq_left, hQ, true_and]
    · rw [if_neg hQ, ih]
      simp [or_and_right, exists_or, hQ]

theorem testBit_mask (d : Driver) (k : ℕ) : d.mask.toNat.testBit k = decide (k < d.ports % 32) := by
  have hle : (1 : UInt32) ≤ bit (.ofNat d.ports) := by
    rw [le_iff_toNat_le, toNat_bit]
    exact Nat.one_le_two_pow
  rw [Driver.mask, UInt32.toNat_sub_of_le _ _ hle, toNat_bit, toNat_one,
    testBit_two_pow_sub_one]

/-- **A mask is exact**: its bits are the numbers of the tokens with a property. -/
def ExactMask (d : Driver) (ts : List (List Char)) (Q : List Char → Prop) (m : UInt32) : Prop :=
  (∀ k < d.ports, m.toNat.testBit k ↔ ∃ t ∈ ts, number t = k ∧ Q t)
    ∧ ∀ k ≥ d.ports, m.toNat.testBit k = false

/-- **No token with a property does harm** to a mask: none is for a port beyond what
the mask has room for, and one that counts for a port although its number is
another counts for what a token of that port says anyway. -/
def Harmless (d : Driver) (ts : List (List Char)) (Q Q' : List Char → Bool) : Prop :=
  (∀ t ∈ ts, Q' t → number t < d.ports → number t < d.ports % 32)
    ∧ ∀ t ∈ ts, Q t → number t % 32 < d.ports % 32 →
      ∃ t' ∈ ts, number t' = number t % 32 ∧ Q' t'

theorem exactMask_iff (d : Driver) (ts : List (List Char)) {Q Q' : List Char → Bool}
    (hQ : ∀ t, number t < 2 ^ 32 → Q t = Q' t) :
    ExactMask d ts (fun t => Q' t) (bitsOf Q ts &&& d.mask) ↔ Harmless d ts Q Q' := by
  have hle := mod_le d.ports 32
  have h32 : d.ports % 32 < 32 := Nat.mod_lt _ (by decide)
  have hbit : ∀ k, (bitsOf Q ts &&& d.mask).toNat.testBit k
      ↔ (∃ t ∈ ts, Q t ∧ number t % 32 = k) ∧ k < d.ports % 32 := by
    intro k
    rw [UInt32.toNat_and, testBit_and, Bool.and_eq_true, testBit_bitsOf, testBit_mask,
      decide_eq_true_iff]
  constructor
  · rintro ⟨hexact, -⟩
    refine ⟨fun t ht hq hlt => ?_, fun t ht hq hlt => ?_⟩
    · exact ((hbit _).mp ((hexact _ hlt).mpr ⟨t, ht, rfl, hq⟩)).2
    · exact (hexact _ (by omega)).mp ((hbit _).mpr ⟨⟨t, ht, hq, rfl⟩, hlt⟩)
  · rintro ⟨hroom, hother⟩
    refine ⟨fun k hk => ?_, fun k hk => ?_⟩
    · rw [hbit]
      constructor
      · rintro ⟨⟨t, ht, hq, rfl⟩, hlt⟩
        exact hother t ht hq hlt
      · rintro ⟨t, ht, rfl, hq⟩
        have hlt := hroom t ht hq hk
        exact ⟨⟨t, ht, hQ t (by omega) ▸ hq, Nat.mod_eq_of_lt (by omega)⟩, hlt⟩
    · rw [Bool.eq_false_iff, ne_eq, hbit]
      rintro ⟨-, hlt⟩
      omega

/-- A token is untagged: as its last flag says, and without one if it is not for
the CPU. -/
def Driver.untagged (d : Driver) (t : List Char) : Bool :=
  Switch.untagged (number t ≠ d.cpuport.toNat) t

/-- **The text is parsed exactly**: it is refused if a token does not begin with a
digit, and else every mask has the bits of its tokens. -/
def Exact (d : Driver) (s : List Char) (r : Option VlanConfig) : Prop :=
  (r = none ↔ ∃ t ∈ tokens isspace s, ¬ Numbered t)
    ∧ ∀ c, r = some c → ExactMask d (tokens isspace s) (fun _ => True) c.port
      ∧ ExactMask d (tokens isspace s) (fun t => d.untagged t) c.untag
      ∧ ExactMask d (tokens isspace s) (fun t => '*' ∈ t) c.pvid

/-- **`switch_parse_vlan` is exact exactly if no number does harm**: it shifts by
the number of a token before it cuts off the ports that do not exist, and a shift
by 32 is none. -/
theorem switchParseVlan_exact_iff (d : Driver) (s : List Char) : Exact d s (switchParseVlan d s)
    ↔ ((∀ t ∈ tokens isspace s, Numbered t) →
      Harmless d (tokens isspace s) (fun _ => true) (fun _ => true)
        ∧ Harmless d (tokens isspace s) (fun t => untagged (.ofNat (number t) ≠ d.cpuport) t)
          d.untagged
        ∧ Harmless d (tokens isspace s) (fun t => '*' ∈ t) (fun t => '*' ∈ t)) := by
  have huntag : ∀ t, number t < 2 ^ 32 →
      untagged (.ofNat (number t) ≠ d.cpuport) t = d.untagged t := by
    intro t ht
    have : UInt32.ofNat (number t) ≠ d.cpuport ↔ number t ≠ d.cpuport.toNat := by
      rw [ne_eq, ← UInt32.toNat_inj, toNat_ofNat_of_lt' ht]
    simp only [Driver.untagged, this]
  have hport := exactMask_iff d (tokens isspace s) (Q := fun _ => true) fun t _ => rfl
  have hpvid := exactMask_iff d (tokens isspace s) (Q := fun t => '*' ∈ t) fun t _ => rfl
  rw [Exact, switchParseVlan_eq, foldl_addToken]
  by_cases hall : ∀ t ∈ tokens isspace s, Numbered t
  · have hnot : ¬ ∃ t ∈ tokens isspace s, ¬ Numbered t := fun ⟨t, ht, h⟩ => h (hall t ht)
    rw [if_pos hall, ← hport, ← exactMask_iff d _ huntag, ← hpvid]
    simp only [decide_eq_true_iff]
    exact ⟨fun h _ => h.2 _ rfl, fun h => ⟨iff_of_false nofun hnot, fun c hc => by
      cases hc
      exact h hall⟩⟩
  · have hsome : ∃ t ∈ tokens isspace s, ¬ Numbered t := by simpa using hall
    rw [if_neg hall]
    exact iff_of_true ⟨iff_of_true rfl hsome, nofun⟩ fun h => absurd h hall

/-- **Three ports**: one untagged, one tagged with a star, and the CPU. -/
theorem switchParseVlan_exact_three : switchParseVlan ⟨5, 6⟩ "0 3t*\t5".toList = some ⟨41, 1, 8⟩
    ∧ Exact ⟨5, 6⟩ "0 3t*\t5".toList (switchParseVlan ⟨5, 6⟩ "0 3t*\t5".toList) := by
  refine ⟨by decide, (switchParseVlan_exact_iff _ _).mpr fun _ => ?_⟩
  unfold Harmless
  decide

/-- **A port that does not exist is taken for another one**: the text `32` is
port 0. -/
theorem switchParseVlan_shifts : switchParseVlan ⟨5, 6⟩ ['3', '2'] = some ⟨1, 1, 0⟩
    ∧ ¬ Exact ⟨5, 6⟩ ['3', '2'] (switchParseVlan ⟨5, 6⟩ ['3', '2']) := by
  have hparse : switchParseVlan ⟨5, 6⟩ ['3', '2'] = some ⟨1, 1, 0⟩ := by decide
  refine ⟨hparse, fun hexact => ?_⟩
  -- bit 0 is set, and no token has the number 0
  have hzero := ((hexact.2 _ hparse).1.1 0 (by decide)).mp (by decide)
  revert hzero
  decide

end Switch
