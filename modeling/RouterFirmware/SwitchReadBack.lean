import Mathlib.Tactic.IntervalCases
import RouterFirmware.SwitchVlan

/-!
# VLANs read back from the chip

The drivers of `switch-robo.c` and `switch-adm.c` write the ports of a VLAN
into registers of their chips, and print them from there.
-/

namespace Switch

open List Tokens BitVec Nat Function Option

def has (m : UInt32) (k : ℕ) : Bool := m.toNat.testBit k

theorem eq_of_has {m m' : UInt32} (h : ∀ k, has m k = has m' k) : m = m' :=
  UInt32.toNat_inj.mp (eq_of_testBit_eq h)

/-! ## What is printed -/

section Print

/-- What is printed for a port, up to the tabulator. -/
def printPort (untag star : ℕ → Bool) (j : ℕ) : List Char :=
  Nat.digitChar j ::
    if untag j then (if j = 5 then ['u'] else []) else 't' :: if star j then ['*'] else []

/-- The loop of both functions `handle_vlan_port_read`. -/
def printPorts (member untag star : ℕ → Bool) : List Char :=
  (range 6).flatMap (fun j => if member j then printPort untag star j ++ ['\t'] else [])
    ++ ['\n']

theorem tokens_printPorts (member untag star : ℕ → Bool) :
    tokens isspace (printPorts member untag star)
      = ((range 6).filter member).map (printPort untag star) := by
  have hnl : tokens isspace ['\n'] = [] := by decide
  unfold printPorts
  suffices h : ∀ js : List ℕ, (∀ j ∈ js, j < 6) →
      tokens isspace
        (js.flatMap (fun j => if member j then printPort untag star j ++ ['\t'] else [])
        ++ ['\n']) = (js.filter member).map (printPort untag star) by
    exact h _ fun j hj => mem_range.mp hj
  intro js hjs
  induction js with
  | nil => exact hnl
  | cons j js ih =>
    have hj := hjs j mem_cons_self
    have ih := ih fun k hk => hjs k (.tail _ hk)
    rw [List.flatMap_cons, List.append_assoc]
    cases hm : member j with
    | false => simpa [hm] using ih
    | true =>
      have hall : (printPort untag star j).all (!isspace ·) = true := by
        unfold printPort
        generalize untag j = u
        generalize star j = p
        interval_cases j <;> revert u p <;> decide
      have hspace : ∀ c ∈ printPort untag star j, isspace c = false := fun c hc => by
        simpa using all_eq_true.mp hall c hc
      have hne : printPort untag star j ≠ [] := cons_ne_nil _ _
      have htab : isspace '\t' = true := by decide
      rw [if_pos rfl, List.append_assoc, List.singleton_append, tokens_append hne hspace
        (fun h => absurd htab (by simp [head_eq_false h])), tokens_cons_sep htab, ih,
        filter_cons_of_pos hm]
      rfl

/-- **What is printed is parsed as it is meant.** -/
theorem parse_printPorts (member untag star : ℕ → Bool) {d : Driver} (hcpu : d.cpuport = 5)
    (hports : 6 ≤ d.ports) (hmax : d.ports < 32) :
    ∃ c, switchParseVlan d (printPorts member untag star) = some c
      ∧ ∀ k, has c.port k = decide (k < 6 ∧ member k)
        ∧ has c.untag k = decide (k < 6 ∧ member k ∧ untag k)
        ∧ has c.pvid k = decide (k < 6 ∧ member k ∧ untag k = false ∧ star k) := by
  have hprint : ∀ j < 6, Numbered (printPort untag star j) ∧ number (printPort untag star j) = j
      ∧ Switch.untagged (.ofNat j ≠ d.cpuport) (printPort untag star j) = untag j
      ∧ (decide ('*' ∈ printPort untag star j) = (!untag j && star j)) := by
    intro j hj
    unfold printPort Numbered
    generalize untag j = u
    generalize star j = p
    rw [hcpu]
    interval_cases j <;> revert u p <;> decide
  have hall : ∀ t ∈ tokens isspace (printPorts member untag star), Numbered t := by
    rw [tokens_printPorts]
    intro t ht
    obtain ⟨j, hj, rfl⟩ := mem_map.mp ht
    exact (hprint j (mem_range.mp (mem_filter.mp hj).1)).1
  rw [switchParseVlan_eq, if_pos hall, foldl_addToken]
  have hbit : ∀ (Q : List Char → Bool) k,
      (bitsOf Q (tokens isspace (printPorts member untag star)) &&& d.mask).toNat.testBit k
        = decide (k < 6 ∧ member k ∧ Q (printPort untag star k)) := by
    intro Q k
    rw [UInt32.toNat_and, Nat.testBit_and, testBit_mask, Bool.eq_iff_iff, Bool.and_eq_true,
      testBit_bitsOf, tokens_printPorts, decide_eq_true_iff, decide_eq_true_iff, mod_eq_of_lt hmax]
    constructor
    · rintro ⟨⟨t, ht, hQ, hk⟩, -⟩
      obtain ⟨j, hj, rfl⟩ := mem_map.mp ht
      obtain ⟨hj6, hm⟩ := mem_filter.mp hj
      have hj6 := mem_range.mp hj6
      rw [(hprint j hj6).2.1, mod_eq_of_lt (by omega)] at hk
      subst hk
      exact ⟨hj6, hm, hQ⟩
    · rintro ⟨hk, hm, hQ⟩
      refine ⟨⟨_, mem_map.mpr ⟨k, mem_filter.mpr ⟨mem_range.mpr hk, hm⟩, rfl⟩, hQ, ?_⟩, by omega⟩
      rw [(hprint k hk).2.1, mod_eq_of_lt (by omega)]
  refine ⟨_, rfl, fun k => ⟨?_, ?_, ?_⟩⟩ <;> rw [has, hbit] <;> by_cases hk : k < 6
  · simp [hk]
  · simp [hk]
  · obtain ⟨-, hnumber, huntag, -⟩ := hprint k hk
    rw [hnumber, huntag]
  · simp [hk]
  · rw [(hprint k hk).2.2.2]
    simp [hk]
  · simp [hk]

end Print

/-- **What a text that is accepted says**: its ports exist, and what is said of a
port is said of one that is listed. -/
theorem has_of_parse {d : Driver} {s : List Char} {c : VlanConfig}
    (h : switchParseVlan d s = some c) (k : ℕ) :
    (has c.port k → k < d.ports % 32) ∧ (has c.untag k → has c.port k)
      ∧ (has c.pvid k → has c.port k) := by
  rw [switchParseVlan_eq, foldl_addToken] at h
  split_ifs at h
  cases h
  simp only [has, UInt32.toNat_and, testBit_and, testBit_mask, Bool.and_eq_true,
    decide_eq_true_iff, testBit_bitsOf]
  exact ⟨fun h => h.2, fun h => ⟨h.1.imp fun t ht => ⟨ht.1, trivial, ht.2.2⟩, h.2⟩,
    fun h => ⟨h.1.imp fun t ht => ⟨ht.1, trivial, ht.2.2⟩, h.2⟩⟩

/-! ## Robo switches -/

/-- The devices that `switch-robo.c` knows. -/
inductive RoboId
  | r5325 | r5395 | r5397 | r5398 | r53115
deriving DecidableEq

/-- A Robo switch with its VLAN table, which gives back what was written last for a
VLAN, and the default VLANs of its ports. -/
structure Robo where
  devid : RoboId
  is5350 : Bool
  table : ℕ → ℕ
  defTag : ℕ → ℕ

namespace Robo

variable (r : Robo)

/-- The driver, with port 5 as the CPU port. -/
def driver : Driver := ⟨5, if r.devid = .r5325 then 6 else 9⟩

def entry (c : VlanConfig) : ℕ :=
  if r.devid ≠ .r5325 then (c.untag.toNat <<< 9 ||| c.port.toNat) % 2 ^ 32
  else if r.is5350 then (2 ^ 20 ||| c.untag.toNat <<< 6 ||| c.port.toNat) % 2 ^ 32
  else (2 ^ 14 ||| c.untag.toNat <<< 7 ||| c.port.toNat) % 2 ^ 16

/-- `handle_vlan_port_write` of `switch-robo.c`. -/
def handleVlanPortWrite (buf : List Char) (nr : ℕ) : Option Robo :=
  (switchParseVlan r.driver buf).map fun c =>
    { r with
      table := update r.table nr (r.entry c)
      defTag := fun j => if j < r.driver.ports ∧ (has c.untag j || has c.pvid j) then nr % 2 ^ 16
        else r.defTag j }

/-- What is printed of an entry with the bit `valid` and the tags from bit `shift` on. -/
def print (val valid shift nr : ℕ) : List Char :=
  if val.testBit valid then
    printPorts val.testBit (fun j => val.testBit (j + shift)) fun j => r.defTag j = nr
  else []

/-- `handle_vlan_port_read` of `switch-robo.c`. -/
def handleVlanPortRead (nr : ℕ) : List Char :=
  if r.is5350 then r.print (r.table nr) 20 6 nr else r.print (r.table nr % 2 ^ 16) 14 7 nr

/-- The masks are read back from an entry. -/
def ReadsBack (c : VlanConfig) (text : List Char) : Prop :=
  ∃ c', switchParseVlan r.driver text = some c' ∧ c'.port = c.port ∧ c'.untag = c.untag

variable {r}

theorem readsBack_nil_iff {c : VlanConfig} {s : List Char}
    (h : switchParseVlan r.driver s = some c) : r.ReadsBack c [] ↔ c.port = 0 := by
  have hnil : switchParseVlan r.driver [] = some ⟨0, 0, 0⟩ := by
    simp [switchParseVlan, parseLoop]
  rw [ReadsBack, hnil]
  constructor
  · rintro ⟨c', hc', hport, -⟩
    cases hc'
    exact hport.symm
  · intro hport
    refine ⟨_, rfl, hport.symm, eq_of_has fun k => ?_⟩
    have hk := (has_of_parse h k).2.1
    rw [hport] at hk
    have hzero : ∀ k, has 0 k = false := fun k => zero_testBit k
    rw [hzero] at hk ⊢
    simpa using hk

theorem readsBack_print {c : VlanConfig} {val valid shift nr : ℕ}
    (hvalid : val.testBit valid = true) (hports : 6 ≤ r.driver.ports ∧ r.driver.ports < 32) :
    r.ReadsBack c (r.print val valid shift nr)
      ↔ ∀ k, has c.port k = decide (k < 6 ∧ val.testBit k)
        ∧ has c.untag k = decide (k < 6 ∧ val.testBit k ∧ val.testBit (k + shift)) := by
  obtain ⟨c', hc', hbits⟩ := parse_printPorts val.testBit (fun j => val.testBit (j + shift))
    (fun j => r.defTag j = nr) (d := r.driver) rfl hports.1 hports.2
  rw [ReadsBack, print, if_pos hvalid, hc']
  constructor
  · rintro ⟨_, hs, hport, huntag⟩ k
    cases hs
    rw [← hport, ← huntag]
    exact ⟨(hbits k).1, (hbits k).2.1⟩
  · intro h
    refine ⟨c', rfl, eq_of_has fun k => ?_, eq_of_has fun k => ?_⟩
    · rw [(h k).1, (hbits k).1]
    · rw [(h k).2, (hbits k).2.1]

theorem readsBack_entry {c : VlanConfig} {s : List Char} {valid shift w nr : ℕ}
    (hshift : 6 ≤ shift) (hvalid : shift + 6 ≤ valid) (hw : valid < w)
    (hports : r.driver.ports = 6) (h : switchParseVlan r.driver s = some c) :
    r.ReadsBack c (r.print ((2 ^ valid ||| c.untag.toNat <<< shift ||| c.port.toNat) % 2 ^ w)
      valid shift nr) := by
  have hport : ∀ k, 6 ≤ k → c.port.toNat.testBit k = false := fun k hk => by
    by_contra hc
    have := (has_of_parse h k).1 (Bool.eq_true_of_not_eq_false hc)
    omega
  have huntag : ∀ k, 6 ≤ k → c.untag.toNat.testBit k = false := fun k hk => by
    by_contra hc
    have := (has_of_parse h k).2.1 (Bool.eq_true_of_not_eq_false hc)
    simp [has, hport k hk] at this
  have hbit : ∀ k, ((2 ^ valid ||| c.untag.toNat <<< shift ||| c.port.toNat) % 2 ^ w).testBit k
      = (decide (k < w) && (decide (valid = k)
        || (decide (shift ≤ k) && c.untag.toNat.testBit (k - shift))
          || c.port.toNat.testBit k)) := by
    intro k
    simp [testBit_mod_two_pow, testBit_two_pow]
  refine (readsBack_print (by simp [hbit, hw]) (by omega)).mpr fun k => ?_
  by_cases hk : k < 6
  · have h1 : ¬ valid = k := by omega
    have h2 : ¬ shift ≤ k := by omega
    have h3 : ¬ valid = k + shift := by omega
    have h4 : k < w ∧ k + shift < w := by omega
    have hsub := (has_of_parse h k).2.1
    simp only [has] at hsub ⊢
    simp only [hbit, hk, h1, h2, h3, h4, hport (k + shift) (by omega), le_add_left,
      Nat.add_sub_cancel, decide_true, decide_false, Bool.true_and, Bool.false_and, Bool.false_or,
      Bool.or_false, true_and, Bool.decide_eq_true]
    cases hu : c.untag.toNat.testBit k <;> simp_all
  · simp [has, hk, hport k (by omega), huntag k (by omega)]

/-- **A VLAN is read back from a Robo switch exactly if it is a 5325**, unless it has
no ports: the others are written in a way of their own, and read like a 5325. -/
theorem readsBack_iff (r : Robo) (nr : ℕ) (s : List Char) (c : VlanConfig)
    (h : switchParseVlan r.driver s = some c) : ∃ r', r.handleVlanPortWrite s nr = some r'
    ∧ (r'.ReadsBack c (r'.handleVlanPortRead nr) ↔ r.devid = .r5325 ∨ c.port = 0) := by
  obtain ⟨r', hwrite, hdevid, hfive', htable⟩ : ∃ r', r.handleVlanPortWrite s nr = some r'
      ∧ r'.devid = r.devid ∧ r'.is5350 = r.is5350 ∧ r'.table nr = r.entry c := by
    rw [handleVlanPortWrite, h]
    exact ⟨_, rfl, rfl, rfl, update_self ..⟩
  refine ⟨r', hwrite, ?_⟩
  have hparse : switchParseVlan r'.driver s = some c := by rw [driver, hdevid]; exact h
  rw [handleVlanPortRead, htable, entry, hfive']
  by_cases hdev : r.devid = .r5325
  · have hports : r'.driver.ports = 6 := if_pos (hdevid.trans hdev)
    rw [if_neg (not_not.mpr hdev)]
    refine iff_of_true ?_ (.inl hdev)
    cases hfive : r.is5350 with
    | true =>
      rw [if_pos rfl, if_pos rfl]
      exact readsBack_entry (by decide) (by decide) (by decide) hports hparse
    | false =>
      rw [if_neg Bool.false_ne_true, if_neg Bool.false_ne_true, Nat.mod_mod]
      exact readsBack_entry (by decide) (by decide) (by decide) hports hparse
  · have hports : r'.driver.ports = 9 := if_neg (hdevid ▸ hdev)
    have hhigh : ∀ k, 9 ≤ k → has c.untag k = false ∧ has c.port k = false := fun k hk => by
      have hp := (has_of_parse hparse k).1
      have hu := (has_of_parse hparse k).2.1
      rw [hports] at hp
      have hp : has c.port k = false := by
        by_contra hc
        have := hp (by simpa using hc)
        omega
      simp_all
    have hbit : ∀ k < 32, ((c.untag.toNat <<< 9 ||| c.port.toNat) % 2 ^ 32).testBit k
        = ((decide (9 ≤ k) && has c.untag (k - 9)) || has c.port k) := by
      intro k hk
      rw [testBit_mod_two_pow, testBit_or, testBit_shiftLeft]
      simp [has, hk]
    have hbit' : ∀ k < 16, ((c.untag.toNat <<< 9 ||| c.port.toNat) % 2 ^ 32 % 2 ^ 16).testBit k
        = ((decide (9 ≤ k) && has c.untag (k - 9)) || has c.port k) := by
      intro k hk
      rw [testBit_mod_two_pow, hbit k (by omega)]
      simp [hk]
    rw [if_pos hdev, or_iff_right hdev]
    cases hfive : r.is5350 with
    | true =>
      have hinvalid : ((c.untag.toNat <<< 9 ||| c.port.toNat) % 2 ^ 32).testBit 20 = false := by
        rw [hbit 20 (by decide), (hhigh 20 (by decide)).2, (hhigh (20 - 9) (by decide)).1]
        rfl
      rw [if_pos rfl, print, hinvalid, if_neg Bool.false_ne_true]
      exact readsBack_nil_iff hparse
    | false =>
      rw [if_neg Bool.false_ne_true]
      have hvalid := hbit' 14 (by decide)
      rw [(hhigh 14 (by decide)).2, Bool.or_false] at hvalid
      cases h5 : has c.untag 5 with
      | false =>
        rw [print, hvalid]
        simp only [h5, Bool.and_false, Bool.false_eq_true, if_false]
        exact readsBack_nil_iff hparse
      | true =>
        -- the tag of port 5 would be that of port 3, this one that of port 1, and that a port 8
        refine iff_of_false ?_ fun hzero => ?_
        · rw [readsBack_print (hvalid.trans h5) (by omega)]
          intro hall
          have h3 := (hall 5).2
          rw [h5, hbit' 5 (by decide), hbit' 12 (by decide)] at h3
          have h3 : has c.port 5 = true ∧ has c.untag 3 = true := by
            simpa [(hhigh 12 (by decide)).2] using h3
          have h1 := (hall 3).2
          rw [h3.2, hbit' 3 (by decide), hbit' 10 (by decide)] at h1
          have h1 : has c.port 3 = true ∧ has c.untag 1 = true := by
            simpa [(hhigh 10 (by decide)).2] using h1
          have h8 := (hall 1).2
          rw [h1.2, hbit' 1 (by decide), hbit' 8 (by decide)] at h8
          have h8 : has c.port 1 = true ∧ has c.port 8 = true := by simpa using h8
          have := (hall 8).1
          simp [h8.2] at this
        · have := (has_of_parse hparse 5).2.1 h5
          simp [hzero, has] at this

def fresh (devid : RoboId) : Robo := ⟨devid, false, fun _ => 0, fun _ => 0⟩

/-- A 5325 reads back what is written. -/
theorem readsBack_iff_fresh :
    ∃ r', (fresh .r5325).handleVlanPortWrite ['0', ' ', '5', 't'] 1 = some r'
      ∧ r'.ReadsBack ⟨33, 1, 0⟩ (r'.handleVlanPortRead 1) := by
  obtain ⟨r', hwrite, hiff⟩ := readsBack_iff (fresh .r5325) 1 ['0', ' ', '5', 't'] ⟨33, 1, 0⟩
    (by decide)
  exact ⟨r', hwrite, hiff.mpr (.inl rfl)⟩

/-- **A 5395 reads nothing back.** -/
theorem r5395_reads_nothing : switchParseVlan (fresh .r5395).driver ['0'] = some ⟨1, 1, 0⟩
    ∧ ((fresh .r5395).handleVlanPortWrite ['0'] 1).bind (fun r' =>
      switchParseVlan r'.driver (r'.handleVlanPortRead 1)) = some ⟨0, 0, 0⟩ := by
  decide

end Robo

/-! ## ADM6996 -/

namespace Adm

abbrev Regs := ℕ → BitVec 16

def driver : Driver := ⟨5, 6⟩

def portConf (i : ℕ) : ℕ := [0x01, 0x03, 0x05, 0x07, 0x08, 0x09].getD i 0

def vlanBit (i : ℕ) : ℕ := [0, 2, 4, 6, 7, 8].getD i 0

def pvidMask : BitVec 16 := 0xf#16 <<< 10

/-- The register of a port after it is listed for VLAN `nr`. -/
def portCfg (c : VlanConfig) (nr i : ℕ) (cfg : BitVec 16) : BitVec 16 :=
  let cfg := if has c.untag i then cfg &&& ~~~(1#16 <<< 4) else cfg ||| 1#16 <<< 4
  if has c.untag i || has c.pvid i then cfg &&& ~~~pvidMask ||| BitVec.ofNat 16 nr <<< 10 else cfg

/-- One turn of the loop of `handle_vlan_port_write`: the registers and `ports`. -/
def writeTurn (c : VlanConfig) (nr : ℕ) (r : Regs × BitVec 16) (i : ℕ) : Regs × BitVec 16 :=
  if has c.port i then
    (update r.1 (portConf i) (portCfg c nr i (r.1 (portConf i))),
      r.2 ||| 1#16 <<< vlanBit i)
  else (r.1, r.2 &&& ~~~(1#16 <<< vlanBit i))

/-- The registers after a VLAN is written. -/
def writeVlan (c : VlanConfig) (nr : ℕ) (regs : Regs) : Regs :=
  let r := (range driver.ports).foldl (writeTurn c nr) (regs, regs (0x13 + nr))
  update r.1 (0x13 + nr) r.2

/-- `handle_vlan_port_write` of `switch-adm.c`. -/
def handleVlanPortWrite (regs : Regs) (buf : List Char) (nr : ℕ) : Option Regs :=
  (switchParseVlan driver buf).map fun c => writeVlan c nr regs

/-- `handle_vlan_port_read` of `switch-adm.c`. -/
def handleVlanPortRead (regs : Regs) (nr : ℕ) : List Char :=
  if 15 < nr then []
  else printPorts (fun i => (regs (0x13 + nr)).getLsbD (vlanBit i))
    (fun i => !(regs (portConf i)).getLsbD 4)
    fun i => (regs (portConf i) &&& pvidMask) >>> 10 = BitVec.ofNat 16 nr

structure Wrote (c : VlanConfig) (nr : ℕ) (regs regs' : Regs) : Prop where
  vlan : ∀ i < 6, (regs' (0x13 + nr)).getLsbD (vlanBit i) = has c.port i
  others : ∀ m, m ≠ nr → regs' (0x13 + m) = regs (0x13 + m)
  port : ∀ i < 6, regs' (portConf i)
    = if has c.port i then portCfg c nr i (regs (portConf i)) else regs (portConf i)

theorem wrote_writeVlan (c : VlanConfig) (nr : ℕ) (regs : Regs) :
    Wrote c nr regs (writeVlan c nr regs) := by
  have hconf : ∀ i < 6, portConf i < 0x13 := by decide
  have hinj : ∀ i < 6, ∀ j < 6, portConf i = portConf j → i = j := by decide
  have hvlan : ∀ i < 6, vlanBit i < 16 ∧ ∀ j < 6, vlanBit i = vlanBit j → i = j := by decide
  -- the loop, after the first `n` ports
  have hloop : ∀ n ≤ 6, let r := (range n).foldl (writeTurn c nr) (regs, regs (0x13 + nr))
      (∀ a, 0x13 ≤ a → r.1 a = regs a)
      ∧ (∀ i < n, r.2.getLsbD (vlanBit i) = has c.port i)
      ∧ ∀ i < 6, r.1 (portConf i)
        = if i < n ∧ has c.port i then portCfg c nr i (regs (portConf i))
          else regs (portConf i) := by
    intro n hn
    induction n with
    | zero => exact ⟨fun _ _ => rfl, nofun, fun i _ => rfl⟩
    | succ n ih =>
      obtain ⟨hregs, hports, hcfg⟩ := ih (by omega)
      rw [range_succ, foldl_append, foldl_cons, foldl_nil]
      generalize (range n).foldl (writeTurn c nr) (regs, regs (0x13 + nr)) = r at *
      have hn6 : n < 6 := by omega
      refine ⟨fun a ha => ?_, fun i hi => ?_, fun i hi => ?_⟩
      · unfold writeTurn
        split
        · have := hconf n hn6
          exact (update_of_ne (by omega) ..).trans (hregs a ha)
        · exact hregs a ha
      · obtain ⟨h16, hbit⟩ := hvlan n hn6
        have hi6 : i < 6 := by omega
        unfold writeTurn
        rcases Nat.lt_succ_iff_lt_or_eq.mp hi with hlt | rfl
        · have hne : ¬ vlanBit i = vlanBit n := fun h => by
            have := (hvlan i hi6).2 n hn6 h
            omega
          have hone : (1#16 <<< vlanBit n).getLsbD (vlanBit i) = false := by
            simp [getLsbD_shiftLeft]
            omega
          split
          · rw [BitVec.getLsbD_or, hone, Bool.or_false, hports i hlt]
          · rw [getLsbD_and, getLsbD_not, hone, hports i hlt]
            simp [(hvlan i hi6).1]
        · split <;> simp_all
      · unfold writeTurn
        by_cases hin : i = n
        · subst hin
          split <;> simp_all
        · have hne : portConf i ≠ portConf n := fun h => hin (hinj i hi n hn6 h)
          have hlt : i < n + 1 ↔ i < n := by omega
          simp only [hlt, ← hcfg i hi]
          split
          · exact update_of_ne hne ..
          · rfl
  obtain ⟨hregs, hports, hcfg⟩ := hloop 6 le_rfl
  refine ⟨fun i hi => ?_, fun m hm => ?_, fun i hi => ?_⟩
  · rw [writeVlan, update_self]
    exact hports i hi
  · rw [writeVlan, update_of_ne (by omega)]
    exact hregs _ (by omega)
  · have := hconf i hi
    rw [writeVlan, update_of_ne (by omega)]
    exact (hcfg i hi).trans (by simp [hi])

/-- **The tag of a port** after it is listed. -/
theorem tag_portCfg (c : VlanConfig) (nr i : ℕ) (cfg : BitVec 16) :
    (portCfg c nr i cfg).getLsbD 4 = !has c.untag i := by
  have hmask : pvidMask[4] = false := by decide
  unfold portCfg
  cases has c.untag i <;> cases has c.pvid i <;> simp [hmask]

/-- **The VLAN of a port** after it is listed. -/
theorem pvid_portCfg (c : VlanConfig) {nr : ℕ} (hnr : nr < 16) (i : ℕ) (cfg : BitVec 16) :
    (portCfg c nr i cfg &&& pvidMask) >>> 10
      = if has c.untag i || has c.pvid i then BitVec.ofNat 16 nr
        else (cfg &&& pvidMask) >>> 10 := by
  have hset : ∀ x : BitVec 16,
      ((x &&& ~~~pvidMask ||| BitVec.ofNat 16 nr <<< 10) &&& pvidMask) >>> 10
      = BitVec.ofNat 16 nr := by
    intro x
    have hx : pvidMask &&& (x &&& ~~~pvidMask) = 0#16 := by
      refine eq_of_getLsbD_eq fun k hk => ?_
      rw [getLsbD_and, getLsbD_and, getLsbD_not]
      cases pvidMask.getLsbD k <;> simp
    have hn : ∀ m : Fin 16, (pvidMask &&& BitVec.ofNat 16 m <<< 10) >>> 10 = BitVec.ofNat 16 m := by
      decide
    rw [BitVec.and_comm, BitVec.and_or_distrib_left, hx, BitVec.zero_or]
    exact hn ⟨nr, hnr⟩
  have htag : pvidMask &&& 1#16 <<< 4 = 0#16 := by decide
  unfold portCfg
  cases has c.untag i with
  | true => simp [hset]
  | false =>
    cases has c.pvid i with
    | true => simp [hset]
    | false =>
      simp only [Bool.false_eq_true, if_false, Bool.or_self]
      rw [BitVec.and_comm, BitVec.and_or_distrib_left, htag, BitVec.or_zero, BitVec.and_comm]

def config (w : ℕ × List Char) : VlanConfig := (switchParseVlan driver w.2).getD ⟨0, 0, 0⟩

/-- Some calls of `handle_vlan_port_write`, with VLANs and texts. -/
def run (regs : Regs) (ws : List (ℕ × List Char)) : Option Regs :=
  ws.foldlM (fun regs w => handleVlanPortWrite regs w.2 w.1) regs

def last (p : ℕ × List Char → Bool) (ws : List (ℕ × List Char)) : Option (ℕ × List Char) :=
  (ws.filter p).getLast?

def lists (i : ℕ) (w : ℕ × List Char) : Bool := has (config w).port i

/-- A call has a port untagged or starred. -/
def sets (i : ℕ) (w : ℕ × List Char) : Bool := has (config w).untag i || has (config w).pvid i

theorem last_append (p : ℕ × List Char → Bool) (ws : List (ℕ × List Char)) (w : ℕ × List Char) :
    last p (ws ++ [w]) = if p w then some w else last p ws := by
  cases hp : p w <;> simp [last, hp]

/-- **The registers hold what was written last.** -/
structure Holds (ws : List (ℕ × List Char)) (regs : Regs) : Prop where
  vlan : ∀ n w, last (·.1 = n) ws = some w →
    ∀ i < 6, (regs (0x13 + n)).getLsbD (vlanBit i) = has (config w).port i
  tag : ∀ i < 6, ∀ w, last (lists i) ws = some w →
    (regs (portConf i)).getLsbD 4 = !has (config w).untag i
  pvid : ∀ i < 6, ∀ w, last (sets i) ws = some w →
    (regs (portConf i) &&& pvidMask) >>> 10 = BitVec.ofNat 16 w.1

theorem Holds.write {ws : List (ℕ × List Char)} {regs : Regs} {w : ℕ × List Char} {regs' : Regs}
    (h : Holds ws regs) (hw : w.1 < 16) (hparse : switchParseVlan driver w.2 = some (config w))
    (hwrote : Wrote (config w) w.1 regs regs') : Holds (ws ++ [w]) regs' where
  vlan n v hv i hi := by
    rw [last_append] at hv
    by_cases hn : w.1 = n
    · subst hn
      simp only [decide_true, if_true, some_inj] at hv
      exact hv ▸ hwrote.vlan i hi
    · simp only [hn, decide_false, Bool.false_eq_true, if_false] at hv
      rw [hwrote.others n (Ne.symm hn)]
      exact h.vlan n v hv i hi
  tag i hi v hv := by
    rw [last_append] at hv
    rw [hwrote.port i hi]
    cases hl : has (config w).port i with
    | true =>
      rw [lists, if_pos hl] at hv
      cases hv
      exact tag_portCfg ..
    | false =>
      rw [lists, hl] at hv
      exact h.tag i hi v hv
  pvid i hi v hv := by
    rw [last_append] at hv
    rw [hwrote.port i hi]
    cases hs : sets i w with
    | true =>
      have hport : has (config w).port i = true := by
        have := has_of_parse hparse i
        rcases Bool.or_eq_true_iff.mp hs with hu | hp
        · exact this.2.1 hu
        · exact this.2.2 hp
      rw [if_pos hs] at hv
      cases hv
      rw [if_pos hport, pvid_portCfg _ hw]
      exact if_pos hs
    | false =>
      rw [hs] at hv
      split
      · rw [pvid_portCfg _ hw, ← sets, hs]
        exact h.pvid i hi v hv
      · exact h.pvid i hi v hv

theorem holds_run {ws : List (ℕ × List Char)} {regs : Regs} (hws : ∀ w ∈ ws, w.1 < 16)
    {regs₀ : Regs} (h : run regs₀ ws = some regs) : Holds ws regs := by
  induction ws using reverseRecOn generalizing regs with
  | nil => exact ⟨nofun, nofun, nofun⟩
  | append_singleton ws w ih =>
    rw [run, foldlM_append] at h
    obtain ⟨regs₁, h₁, h⟩ := bind_eq_some_iff.mp h
    rw [foldlM_cons] at h
    obtain ⟨regs₂, h₂, h⟩ := bind_eq_some_iff.mp h
    cases h
    obtain ⟨c, hc, rfl⟩ := map_eq_some_iff.mp h₂
    have hconfig : config w = c := by rw [config, hc]; rfl
    refine (ih (fun v hv => hws v (mem_append_left _ hv)) h₁).write
      (hws w (by simp)) (hconfig ▸ hc) ?_
    rw [hconfig]
    exact wrote_writeVlan c w.1 regs₁

/-- **A VLAN is read back from an ADM6996** with the ports of the last text written
for it. A port is untagged as the last text that lists it has it, and starred if it
is tagged and the last text that has it untagged or starred was for this VLAN. -/
theorem vlan_readsBack (regs₀ regs : Regs) (ws : List (ℕ × List Char)) (hws : ∀ w ∈ ws, w.1 < 16)
    (hrun : run regs₀ ws = some regs) (n : ℕ) (w : ℕ × List Char)
    (hw : last (·.1 = n) ws = some w) :
    ∃ c, switchParseVlan driver (handleVlanPortRead regs n) = some c
      ∧ c.port = (config w).port
      ∧ (∀ i, has c.port i → ∃ v, last (lists i) ws = some v
        ∧ has c.untag i = has (config v).untag i)
      ∧ ∀ i, has c.port i → ∀ v, last (sets i) ws = some v →
        (has c.pvid i ↔ has c.untag i = false ∧ v.1 = n) := by
  have hholds := holds_run hws hrun
  obtain ⟨hmem, hwn⟩ := mem_filter.mp (mem_of_getLast? hw)
  have hwn : w.1 = n := by simpa using hwn
  have hn : n < 16 := hwn ▸ hws w hmem
  obtain ⟨c, hc, hbits⟩ := parse_printPorts (fun i => (regs (0x13 + n)).getLsbD (vlanBit i))
    (fun i => !(regs (portConf i)).getLsbD 4)
    (fun i => (regs (portConf i) &&& pvidMask) >>> 10 = BitVec.ofNat 16 n) (d := driver) rfl
    (by decide) (by decide)
  have hmember : ∀ i, has c.port i = true ↔ i < 6 ∧ has (config w).port i = true := by
    intro i
    rw [(hbits i).1, decide_eq_true_iff]
    exact and_congr_right fun hi => by rw [hholds.vlan n w hw i hi]
  have hsix : ∀ i, has (config w).port i = true → i < 6 := by
    intro i hi
    unfold config at hi
    cases hp : switchParseVlan driver w.2 with
    | none => simp [hp, has] at hi
    | some c' => exact (has_of_parse hp i).1 (by simpa [hp] using hi)
  refine ⟨c, ?_, eq_of_has fun i => ?_, fun i hi => ?_, fun i hi v hv => ?_⟩
  · rw [handleVlanPortRead, if_neg (by omega)]
    exact hc
  · rw [Bool.eq_iff_iff, hmember]
    exact and_iff_right_of_imp (hsix i)
  · obtain ⟨hi6, hport⟩ := (hmember i).mp hi
    have hne : ws.filter (lists i) ≠ [] := ne_nil_of_mem (mem_filter.mpr ⟨hmem, hport⟩)
    refine ⟨_, getLast?_eq_some_getLast hne, ?_⟩
    have htag := hholds.tag i hi6 _ (getLast?_eq_some_getLast hne)
    rw [(hbits i).2.1, htag]
    simp [hi6, hholds.vlan n w hw i hi6, hport]
  · obtain ⟨hi6, hport⟩ := (hmember i).mp hi
    have hv16 : v.1 < 16 := hws v (mem_filter.mp (mem_of_getLast? hv)).1
    have heq : BitVec.ofNat 16 v.1 = BitVec.ofNat 16 n ↔ v.1 = n := by
      rw [toNat_inj.symm, toNat_ofNat, toNat_ofNat,
        mod_eq_of_lt (by omega), mod_eq_of_lt (by omega)]
    rw [(hbits i).2.2, (hbits i).2.1, hholds.vlan n w hw i hi6, hport, hholds.pvid i hi6 v hv]
    simp [hi6, heq]

/-- Port 0 is put untagged into VLAN 1, and then tagged with a star into VLAN 2. -/
def twoWrites : List (ℕ × List Char) := [(1, "0 5t".toList), (2, "0t* 3".toList)]

/-- **Two VLANs that share a port**: port 0 is tagged in VLAN 1 as well, after
the write to VLAN 2, and starred in VLAN 2 alone. -/
theorem vlan_readsBack_two : ∃ regs, run (fun _ => 0) twoWrites = some regs
    ∧ (∃ c, switchParseVlan driver (handleVlanPortRead regs 1) = some c ∧ c.port = 33
      ∧ has c.untag 0 = false ∧ has c.pvid 0 = false)
    ∧ ∃ c, switchParseVlan driver (handleVlanPortRead regs 2) = some c ∧ c.port = 9
      ∧ has c.untag 0 = false ∧ has c.pvid 0 = true := by
  obtain ⟨regs, hrun⟩ := isSome_iff_exists.mp
    (show (run (fun _ => 0) twoWrites).isSome by decide +kernel)
  have hws : ∀ w ∈ twoWrites, w.1 < 16 := by decide
  have hlists : last (lists 0) twoWrites = some (2, "0t* 3".toList) := by decide +kernel
  have hsets : last (sets 0) twoWrites = some (2, "0t* 3".toList) := by decide +kernel
  have hread := vlan_readsBack _ regs twoWrites hws hrun
  refine ⟨regs, hrun, ?_, ?_⟩
  · obtain ⟨c, hc, hport, huntag, hpvid⟩ := hread 1 (1, "0 5t".toList) (by decide)
    have hmem : has c.port 0 = true := hport ▸ by decide +kernel
    obtain ⟨v, hv, hu⟩ := huntag 0 hmem
    obtain rfl := some.inj (hlists.symm.trans hv)
    have hstar := (hpvid 0 hmem _ hsets).not.mpr fun h => absurd h.2 (by decide)
    exact ⟨c, hc, hport.trans (by decide +kernel), hu.trans (by decide +kernel),
      by simpa using hstar⟩
  · obtain ⟨c, hc, hport, huntag, hpvid⟩ := hread 2 (2, "0t* 3".toList) (by decide)
    have hmem : has c.port 0 = true := hport ▸ by decide +kernel
    obtain ⟨v, hv, hu⟩ := huntag 0 hmem
    obtain rfl := some.inj (hlists.symm.trans hv)
    have hu' : has c.untag 0 = false := hu.trans (by decide +kernel)
    exact ⟨c, hc, hport.trans (by decide +kernel), hu', (hpvid 0 hmem _ hsets).mpr ⟨hu', rfl⟩⟩

end Adm

end Switch
