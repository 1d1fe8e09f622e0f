import Mathlib.Data.List.Induction
import Mathlib.Tactic.IntervalCases
import RouterFirmware.SharedSlots

/-!
# The PVIDs of the RTL8366S switch driver

The switch has no register for the PVID of a port. It has 16 member configurations, each with a VID
and a set of ports, and a port refers to one of them by its index: its PVID is the VID there. The
entries of the `VLAN 4K` table play no part in the PVIDs.
-/

namespace Rtl8366s

open BitVec List Function Option Slots

/-! ## The registers -/

abbrev Regs := ℕ → BitVec 16

structure Chip where
  /-- the order of the bit-fields in a word, which is the byte order of the host -/
  littleEndian : Bool
  /-- the answers of the registers of the 4K table -/
  table : Regs → ℕ → BitVec 16

def vlanTableReadBase : ℕ := 0x18B

def vlanTableWriteBase : ℕ := 0x185

def tableAccessCtrlReg : ℕ := 0x180

def vlanMemconfBase : ℕ := 0x16

def portVlanCtrlReg (p : ℕ) : ℕ := 0x58 + p / 4

def portVlanCtrlShift (p : ℕ) : ℕ := 4 * (p % 4)

def portCpu : BitVec 6 := 1#6 <<< 5

def portAll : BitVec 6 := 0x3f

def portAllButCpu : BitVec 6 := 0x1f

/-- `struct rtl8366s_vlanconfig`: a member configuration. -/
structure VlanConfig where
  reserved2 : BitVec 1
  priority : BitVec 3
  vid : BitVec 12
  reserved1 : BitVec 1
  fid : BitVec 3
  untag : BitVec 6
  member : BitVec 6

/-- `struct rtl8366s_vlan4kentry`: an entry of the 4K table. -/
structure Vlan4kEntry where
  reserved1 : BitVec 4
  vid : BitVec 12
  reserved2 : BitVec 1
  fid : BitVec 3
  untag : BitVec 6
  member : BitVec 6

section

variable (chip : Chip)

def readReg (regs : Regs) (reg : ℕ) : BitVec 16 :=
  if vlanTableReadBase ≤ reg ∧ reg ≤ vlanTableReadBase + 1 then chip.table regs reg else regs reg

def writeReg (regs : Regs) (reg : ℕ) (data : BitVec 16) : Regs :=
  update regs reg data

def memberWord (reserved : BitVec 1) (fid : BitVec 3) (untag member : BitVec 6) : BitVec 16 :=
  if chip.littleEndian then member ++ untag ++ fid ++ reserved
  else reserved ++ fid ++ untag ++ member

def VlanConfig.vidWord (c : VlanConfig) : BitVec 16 :=
  if chip.littleEndian then c.vid ++ c.priority ++ c.reserved2
  else c.reserved2 ++ c.priority ++ c.vid

def Vlan4kEntry.vidWord (e : Vlan4kEntry) : BitVec 16 :=
  if chip.littleEndian then e.vid ++ e.reserved1 else e.reserved1 ++ e.vid

def VlanConfig.ofWords (w₀ w₁ : BitVec 16) : VlanConfig :=
  if chip.littleEndian then
    { reserved2 := w₀.extractLsb' 0 1, priority := w₀.extractLsb' 1 3, vid := w₀.extractLsb' 4 12
      reserved1 := w₁.extractLsb' 0 1, fid := w₁.extractLsb' 1 3
      untag := w₁.extractLsb' 4 6, member := w₁.extractLsb' 10 6 }
  else
    { reserved2 := w₀.extractLsb' 15 1, priority := w₀.extractLsb' 12 3, vid := w₀.extractLsb' 0 12
      reserved1 := w₁.extractLsb' 15 1, fid := w₁.extractLsb' 12 3
      untag := w₁.extractLsb' 6 6, member := w₁.extractLsb' 0 6 }

def Vlan4kEntry.ofWords (w₀ w₁ : BitVec 16) : Vlan4kEntry :=
  if chip.littleEndian then
    { reserved1 := w₀.extractLsb' 0 4, vid := w₀.extractLsb' 4 12
      reserved2 := w₁.extractLsb' 0 1, fid := w₁.extractLsb' 1 3
      untag := w₁.extractLsb' 4 6, member := w₁.extractLsb' 10 6 }
  else
    { reserved1 := w₀.extractLsb' 12 4, vid := w₀.extractLsb' 0 12
      reserved2 := w₁.extractLsb' 15 1, fid := w₁.extractLsb' 12 3
      untag := w₁.extractLsb' 6 6, member := w₁.extractLsb' 0 6 }

theorem VlanConfig.ofWords_words (c : VlanConfig) :
    ofWords chip (c.vidWord chip) (memberWord chip c.reserved1 c.fid c.untag c.member) = c := by
  cases c
  unfold ofWords vidWord memberWord
  cases chip.littleEndian <;>
    simp only [Bool.false_eq_true, if_false, if_true, VlanConfig.mk.injEq] <;>
    refine ⟨?_, ?_, ?_, ?_, ?_, ?_, ?_⟩ <;> refine eq_of_getLsbD_eq fun i hi => ?_ <;>
    simp only [getLsbD_extractLsb', getLsbD_append, hi, decide_true, Bool.true_and] <;>
    split_ifs <;> first | omega | (congr 1; omega)

/-! ## The functions of the driver -/

def getVlan4kEntry (regs : Regs) (vid : ℕ) : Regs × Vlan4kEntry :=
  let e : Vlan4kEntry := ⟨0, BitVec.ofNat 12 vid, 0, 0, 0, 0⟩
  if vid ≥ 4096 then (regs, e)
  else
    let regs := writeReg regs vlanTableWriteBase (e.vidWord chip)
    let regs := writeReg regs tableAccessCtrlReg 0x0E01
    (regs, { Vlan4kEntry.ofWords chip (readReg chip regs vlanTableReadBase)
      (readReg chip regs (vlanTableReadBase + 1)) with vid := BitVec.ofNat 12 vid })

def setVlan4kEntry (regs : Regs) (e : Vlan4kEntry) : Regs :=
  if e.vid.toNat ≥ 4096 ∨ portAll < e.member ∨ portAll < e.untag ∨ e.fid.toNat > 7 then regs
  else
    let regs := writeReg regs vlanTableWriteBase (e.vidWord chip)
    let regs := writeReg regs (vlanTableWriteBase + 1)
      (memberWord chip e.reserved2 e.fid e.untag e.member)
    writeReg regs tableAccessCtrlReg 0x0F01

def getVlanMemberConfig (regs : Regs) (index : ℕ) : VlanConfig :=
  if index ≥ 16 then ⟨0, 0, 0, 0, 0, 0, 0⟩
  else
    .ofWords chip (readReg chip regs (vlanMemconfBase + 2 * index))
      (readReg chip regs (vlanMemconfBase + 1 + 2 * index))

def setVlanMemberConfig (regs : Regs) (index : ℕ) (c : VlanConfig) : Regs :=
  if index ≥ 16 ∨ c.vid.toNat ≥ 4096 ∨ c.priority.toNat > 7 ∨ portAll < c.member ∨
      portAll < c.untag ∨ c.fid.toNat > 7 then regs
  else
    let regs := writeReg regs (vlanMemconfBase + 2 * index) (c.vidWord chip)
    writeReg regs (vlanMemconfBase + 1 + 2 * index)
      (memberWord chip c.reserved1 c.fid c.untag c.member)

def getPortVlanIndex (regs : Regs) (port : ℕ) : BitVec 16 :=
  (readReg chip regs (portVlanCtrlReg port) >>> portVlanCtrlShift port) &&& 0xf#16

def getVlanPortPvid (regs : Regs) (port : ℕ) : ℕ :=
  (getVlanMemberConfig chip regs (getPortVlanIndex chip regs port).toNat).vid.toNat

def setPortVlanIndex (regs : Regs) (port index : ℕ) : Regs :=
  if port ≥ 6 ∨ index ≥ 16 then regs
  else
    let data := readReg chip regs (portVlanCtrlReg port)
    let data := data &&& ~~~(0xf#16 <<< portVlanCtrlShift port)
    writeReg regs (portVlanCtrlReg port)
      (data ||| ((BitVec.ofNat 16 index &&& 0xf#16) <<< portVlanCtrlShift port))

def findVid (regs : Regs) (val : ℤ) : Option ℕ :=
  (range 16).find? fun i => val = (getVlanMemberConfig chip regs i).vid.toNat

def VlanConfig.Unused (c : VlanConfig) : Prop := c.member = 0 ∨ c.member = portCpu

instance (c : VlanConfig) : Decidable c.Unused := inferInstanceAs (Decidable (_ ∨ _))

def findUnused (regs : Regs) : Option ℕ :=
  (range 16).find? fun i => (getVlanMemberConfig chip regs i).Unused

def update4k (regs : Regs) (port : ℕ) (val : ℤ) : Regs :=
  let read := getVlan4kEntry chip regs (val % 2 ^ 32).toNat
  setVlan4kEntry chip read.1 { read.2 with
    member := read.2.member ||| (1#6 <<< port ||| portCpu), untag := portAllButCpu }

def chosen (regs : Regs) (port : ℕ) (val : ℤ) : Option (ℕ × VlanConfig) :=
  match findVid chip regs val with
  | some i =>
    let c := getVlanMemberConfig chip regs i
    some (i, { c with member := c.member ||| (1#6 <<< port ||| portCpu) })
  | none =>
    (findUnused chip regs).map fun i => (i, { getVlanMemberConfig chip regs i with
      vid := BitVec.ofInt 12 val, priority := 0, untag := portAllButCpu
      member := 1#6 <<< port ||| portCpu, fid := 0 })

def setVlanPortPvid (regs : Regs) (port : ℕ) (val : ℤ) : Regs × Bool :=
  if port ≥ 6 ∨ val ≥ 4096 then (regs, false)
  else
    let regs := update4k chip regs port val
    match chosen chip regs port val with
    | some (i, c) => (setPortVlanIndex chip (setVlanMemberConfig chip regs i c) port i, true)
    | none => (regs, false)

def swSetVlanPorts (regs : Regs) (portVlan : ℤ) (ports : List (ℕ × Bool)) : Regs × Bool :=
  if portVlan ≥ 16 then (regs, false)
  else
    let index := (portVlan % 2 ^ 32).toNat
    let c := getVlanMemberConfig chip regs index
    let read := getVlan4kEntry chip regs c.vid.toNat
    let member := ports.foldl (fun m p => m ||| 1#6 <<< p.1) (0 : BitVec 6)
    let untag := ports.foldl (fun m p => if p.2 then m else m ||| 1#6 <<< p.1) (0 : BitVec 6)
    let regs := setVlanMemberConfig chip read.1 index { c with member, untag }
    (setVlan4kEntry chip regs { read.2 with member, untag }, true)

def resetVlan (regs : Regs) (c : VlanConfig) (e : Vlan4kEntry) : Regs :=
  let c := { c with vid := 0, priority := 0, member := 0, untag := 0, fid := 0 }
  let regs := (range 16).foldl (fun regs i => setVlanMemberConfig chip regs i c) regs
  let regs := setVlan4kEntry chip regs
    { e with vid := 1, member := portAll, untag := portAll, fid := 0 }
  (range 6).foldl (fun regs i => (setVlanPortPvid chip regs i 0).1) regs

inductive Call
  | setPvid (port : ℕ) (val : ℤ)
  | setPorts (portVlan : ℤ) (ports : List (ℕ × Bool))

def call (regs : Regs) : Call → Regs × Bool
  | .setPvid port val => setVlanPortPvid chip regs port val
  | .setPorts portVlan ports => swSetVlanPorts chip regs portVlan ports

/-! ## The slots that the ports share -/

def slots (regs : Regs) : Slots ℕ (Fin 6) ℕ where
  value i := (getVlanMemberConfig chip regs i).vid.toNat
  slot p := (getPortVlanIndex chip regs p).toNat

variable {chip} {i : ℕ}

theorem readReg_writeReg_of_ne {r reg : ℕ} (regs : Regs) (hr : r < 0x100) (hne : r ≠ reg)
    (data : BitVec 16) : readReg chip (writeReg regs reg data) r = readReg chip regs r := by
  unfold readReg vlanTableReadBase
  rw [if_neg (by omega), if_neg (by omega), writeReg, update_of_ne hne]

theorem readReg_writeReg_self {r : ℕ} (regs : Regs) (hr : r < 0x100) (data : BitVec 16) :
    readReg chip (writeReg regs r data) r = data := by
  unfold readReg vlanTableReadBase
  rw [if_neg (by omega), writeReg, update_self]

def SameVlans (chip : Chip) (regs regs' : Regs) : Prop :=
  ∀ r < 0x100, readReg chip regs' r = readReg chip regs r

theorem SameVlans.trans {r₁ r₂ r₃ : Regs} (h : SameVlans chip r₁ r₂) (h' : SameVlans chip r₂ r₃) :
    SameVlans chip r₁ r₃ :=
  fun r hr => (h' r hr).trans (h r hr)

variable (regs : Regs) {regs' : Regs}

include regs

theorem sameVlans_writeReg {reg : ℕ} (hreg : 0x100 ≤ reg) (data : BitVec 16) :
    SameVlans chip regs (writeReg regs reg data) :=
  fun _ hr => readReg_writeReg_of_ne regs hr (by omega) data

theorem sameVlans_setVlan4kEntry (e : Vlan4kEntry) :
    SameVlans chip regs (setVlan4kEntry chip regs e) := by
  unfold setVlan4kEntry
  split
  · exact fun _ _ => rfl
  · exact ((sameVlans_writeReg regs (by decide) _).trans
      (sameVlans_writeReg _ (by decide) _)).trans (sameVlans_writeReg _ (by decide) _)

theorem sameVlans_getVlan4kEntry (vid : ℕ) :
    SameVlans chip regs (getVlan4kEntry chip regs vid).1 := by
  unfold getVlan4kEntry
  split
  · exact fun _ _ => rfl
  · exact (sameVlans_writeReg regs (by decide) _).trans (sameVlans_writeReg _ (by decide) _)

theorem sameVlans_update4k (port : ℕ) (val : ℤ) :
    SameVlans chip regs (update4k chip regs port val) :=
  (sameVlans_getVlan4kEntry regs _).trans (sameVlans_setVlan4kEntry _ _)

omit regs

variable {regs : Regs} (h : SameVlans chip regs regs')

include h

theorem SameVlans.getVlanMemberConfig_eq :
    getVlanMemberConfig chip regs' = getVlanMemberConfig chip regs := by
  funext i
  unfold getVlanMemberConfig vlanMemconfBase
  split
  · rfl
  · rw [h _ (by omega), h _ (by omega)]

theorem SameVlans.getPortVlanIndex_eq
    (p : Fin 6) : getPortVlanIndex chip regs' p = getPortVlanIndex chip regs p := by
  unfold getPortVlanIndex portVlanCtrlReg
  rw [h _ (by omega)]

theorem SameVlans.slots_eq : slots chip regs' = slots chip regs := by
  simp only [slots, h.getVlanMemberConfig_eq, h.getPortVlanIndex_eq]

omit h

theorem not_portAll_lt (m : BitVec 6) : ¬ portAll < m := by
  have hm : m.toNat < 64 := m.isLt
  rw [lt_def, show portAll.toNat = 63 from rfl]
  omega

theorem setVlanMemberConfig_of_lt (regs : Regs) (hi : i < 16) (c : VlanConfig) :
    setVlanMemberConfig chip regs i c
      = writeReg (writeReg regs (vlanMemconfBase + 2 * i) (c.vidWord chip))
          (vlanMemconfBase + 1 + 2 * i) (memberWord chip c.reserved1 c.fid c.untag c.member) := by
  have hvid : c.vid.toNat < 4096 := c.vid.isLt
  have hpriority : c.priority.toNat < 8 := c.priority.isLt
  have hfid : c.fid.toNat < 8 := c.fid.isLt
  refine if_neg ?_
  simp only [not_portAll_lt, false_or]
  omega

theorem getVlanMemberConfig_set (regs : Regs) (hi : i < 16) (c : VlanConfig) (j : ℕ) :
    getVlanMemberConfig chip (setVlanMemberConfig chip regs i c) j
      = if j = i then c else getVlanMemberConfig chip regs j := by
  rw [setVlanMemberConfig_of_lt regs hi]
  unfold getVlanMemberConfig vlanMemconfBase
  by_cases hj : j ≥ 16
  · rw [if_pos hj, if_neg (by omega), if_pos hj]
  rw [if_neg hj, if_neg hj, readReg_writeReg_of_ne _ (by omega) (by omega)]
  by_cases hji : j = i
  · subst hji
    rw [if_pos rfl, readReg_writeReg_self _ (by omega), readReg_writeReg_self _ (by omega),
      VlanConfig.ofWords_words]
  · rw [if_neg hji, readReg_writeReg_of_ne _ (by omega) (by omega),
      readReg_writeReg_of_ne _ (by omega) (by omega),
      readReg_writeReg_of_ne _ (by omega) (by omega)]

theorem getPortVlanIndex_setVlanMemberConfig (regs : Regs) (hi : i < 16)
    (c : VlanConfig) (p : Fin 6) :
    getPortVlanIndex chip (setVlanMemberConfig chip regs i c) p = getPortVlanIndex chip regs p := by
  rw [setVlanMemberConfig_of_lt regs hi]
  unfold getPortVlanIndex portVlanCtrlReg vlanMemconfBase
  rw [readReg_writeReg_of_ne _ (by omega) (by omega),
    readReg_writeReg_of_ne _ (by omega) (by omega)]

theorem setPortVlanIndex_of_lt (regs : Regs) (p : Fin 6) (hi : i < 16) :
    setPortVlanIndex chip regs p i = writeReg regs (portVlanCtrlReg p)
      ((readReg chip regs (portVlanCtrlReg p) &&& ~~~(0xf#16 <<< portVlanCtrlShift p))
        ||| ((BitVec.ofNat 16 i &&& 0xf#16) <<< portVlanCtrlShift p)) :=
  if_neg (by omega)

theorem getVlanMemberConfig_setPortVlanIndex (regs : Regs) (p : Fin 6) (hi : i < 16) (j : ℕ) :
    getVlanMemberConfig chip (setPortVlanIndex chip regs p i) j
      = getVlanMemberConfig chip regs j := by
  rw [setPortVlanIndex_of_lt regs p hi]
  unfold getVlanMemberConfig vlanMemconfBase portVlanCtrlReg
  by_cases hj : j ≥ 16
  · rw [if_pos hj, if_pos hj]
  · rw [if_neg hj, if_neg hj, readReg_writeReg_of_ne _ (by omega) (by omega),
      readReg_writeReg_of_ne _ (by omega) (by omega)]

theorem nibble_set (data index : BitVec 16) {a b : ℕ} (ha : a < 4) (hb : b < 4) :
    ((data &&& ~~~(0xf#16 <<< (4 * a))) ||| ((index &&& 0xf#16) <<< (4 * a)))
        >>> (4 * b) &&& 0xf#16
      = if b = a then index &&& 0xf#16 else data >>> (4 * b) &&& 0xf#16 := by
  have hmask (k : ℕ) : (0xf#16).getLsbD k = decide (k < 4) := by
    rw [show 0xf#16 = BitVec.ofNat 16 (2 ^ 4 - 1) from rfl, getLsbD_ofNat,
      Nat.testBit_two_pow_sub_one]
    grind
  apply eq_of_getLsbD_eq
  intro k hk
  by_cases hba : b = a
  · subst hba
    simp only [if_true, getLsbD_and, getLsbD_or, getLsbD_not, hmask,
      getLsbD_ushiftRight, getLsbD_shiftLeft]
    grind
  · simp only [hba, if_false, getLsbD_and, getLsbD_or, getLsbD_not, hmask,
      getLsbD_ushiftRight, getLsbD_shiftLeft]
    grind

theorem getPortVlanIndex_setPortVlanIndex (regs : Regs) (p : Fin 6) (hi : i < 16) (q : Fin 6) :
    (getPortVlanIndex chip (setPortVlanIndex chip regs p i) q).toNat
      = if q = p then i else (getPortVlanIndex chip regs q).toNat := by
  rw [setPortVlanIndex_of_lt regs p hi]
  unfold getPortVlanIndex portVlanCtrlShift
  by_cases hreg : portVlanCtrlReg q = portVlanCtrlReg p
  · have hshift : q = p ↔ q.val % 4 = p.val % 4 := by
      unfold portVlanCtrlReg at hreg
      omega
    have hp : portVlanCtrlReg p < 0x100 := by
      unfold portVlanCtrlReg
      omega
    rw [hreg, readReg_writeReg_self _ hp, nibble_set _ _ (Nat.mod_lt _ (by decide))
      (Nat.mod_lt _ (by decide))]
    by_cases hq : q = p
    · rw [if_pos hq, if_pos (hshift.mp hq)]
      interval_cases i <;> rfl
    · rw [if_neg hq, if_neg fun heq => hq (hshift.mpr heq)]
  · have hq : q ≠ p := fun heq => hreg (heq ▸ rfl)
    rw [if_neg hq, readReg_writeReg_of_ne _ (by unfold portVlanCtrlReg; omega) hreg]

theorem slots_set (regs : Regs) (p : Fin 6) (hi : i < 16) (c : VlanConfig) :
    slots chip (setPortVlanIndex chip (setVlanMemberConfig chip regs i c) p i)
      = (slots chip regs).assign p i c.vid.toNat := by
  unfold slots assign
  congr 1
  · funext j
    rw [getVlanMemberConfig_setPortVlanIndex _ p hi, getVlanMemberConfig_set regs hi]
    by_cases hj : j = i <;> simp [hj]
  · funext q
    rw [getPortVlanIndex_setPortVlanIndex _ p hi]
    by_cases hq : q = p <;> simp [hq, getPortVlanIndex_setVlanMemberConfig regs hi]

/-! ## The PVIDs of the ports -/

variable (chip)

def Separate (regs : Regs) : Call → Prop
  | .setPvid port val => port < 6 → val < 4096 →
      (∀ i < 16, val ≠ (getVlanMemberConfig chip regs i).vid.toNat) →
      ∀ i < 16, (getVlanMemberConfig chip regs i).Unused →
        (∀ j < i, ¬ (getVlanMemberConfig chip regs j).Unused) →
        0 ≤ val ∧ ∀ q : Fin 6, q.val ≠ port → (getPortVlanIndex chip regs q).toNat ≠ i
  | .setPorts _ _ => True

def wanted (want : Fin 6 → ℤ) (regs : Regs) : Call → Fin 6 → ℤ
  | .setPvid port val =>
    if (setVlanPortPvid chip regs port val).2 then fun q => if q.val = port then val else want q
    else want
  | .setPorts _ _ => want

def after (regs : Regs) (calls : List Call) : Regs × (Fin 6 → ℤ) :=
  calls.foldl (fun s c => ((call chip s.1 c).1, wanted chip s.2 s.1 c)) (regs, fun _ => 0)

def Right (s : Regs × (Fin 6 → ℤ)) : Prop :=
  ∀ p : Fin 6, (getVlanPortPvid chip s.1 p : ℤ) = s.2 p

variable {chip} {val : ℤ}

variable {want : Fin 6 → ℤ}

theorem right_of_slots_eq (h : Right chip (regs, want))
    (heq : slots chip regs' = slots chip regs) : Right chip (regs', want) := by
  intro p
  have hread : getVlanPortPvid chip regs' p = getVlanPortPvid chip regs p :=
    congrArg (fun t => t.read p) heq
  rw [hread]
  exact h p

theorem slots_swSetVlanPorts (regs : Regs) (portVlan : ℤ) (ports : List (ℕ × Bool)) :
    slots chip (swSetVlanPorts chip regs portVlan ports).1 = slots chip regs := by
  unfold swSetVlanPorts
  split
  · rfl
  rw [(sameVlans_setVlan4kEntry _ _).slots_eq]
  have hsame : SameVlans chip regs (getVlan4kEntry chip regs
    (getVlanMemberConfig chip regs (portVlan % 2 ^ 32).toNat).vid.toNat).1 :=
    sameVlans_getVlan4kEntry regs _
  by_cases hi : (portVlan % 2 ^ 32).toNat < 16
  · -- the members change, and the VID does not
    unfold slots
    congr 1
    · funext j
      rw [getVlanMemberConfig_set _ hi]
      by_cases hj : j = (portVlan % 2 ^ 32).toNat
      · rw [if_pos hj, hj]
      · rw [if_neg hj, hsame.getVlanMemberConfig_eq]
    · funext q
      rw [getPortVlanIndex_setVlanMemberConfig _ hi, hsame.getPortVlanIndex_eq]
  · rw [setVlanMemberConfig, if_pos (.inl (by omega)), hsame.slots_eq]

theorem chosen_eq_some {port : ℕ} {c : VlanConfig} (h : chosen chip regs port val = some (i, c)) :
    i < 16 ∧ (val = (slots chip regs).value i ∧ c.vid.toNat = (slots chip regs).value i ∨
      (∀ j < 16, val ≠ (slots chip regs).value j) ∧ (getVlanMemberConfig chip regs i).Unused ∧
        (∀ j < i, ¬ (getVlanMemberConfig chip regs j).Unused) ∧ c.vid = BitVec.ofInt 12 val) := by
  unfold chosen at h
  cases hfind : findVid chip regs val with
  | some k =>
    rw [hfind] at h
    obtain ⟨rfl, rfl⟩ := Prod.mk.inj (some.inj h)
    obtain ⟨hval, hmem, -⟩ := find?_range_eq_some.mp hfind
    exact ⟨mem_range.mp hmem, .inl ⟨of_decide_eq_true hval, rfl⟩⟩
  | none =>
    rw [hfind] at h
    obtain ⟨k, hk, heq⟩ := map_eq_some_iff.mp h
    obtain ⟨rfl, rfl⟩ := Prod.mk.inj heq
    obtain ⟨hunused, hmem, hfirst⟩ := find?_range_eq_some.mp hk
    refine ⟨mem_range.mp hmem, .inr ⟨fun j hj => ?_, of_decide_eq_true hunused,
      fun j hj => ?_, rfl⟩⟩
    · simpa [slots] using find?_eq_none.mp hfind j (mem_range.mpr hj)
    · simpa using hfirst j hj

theorem chosen_eq_none {port : ℕ} (h : chosen chip regs port val = none) :
    ∀ i < 16, ¬ (getVlanMemberConfig chip regs i).Unused := by
  unfold chosen at h
  cases hfind : findVid chip regs val with
  | some k =>
    rw [hfind] at h
    cases h
  | none =>
    rw [hfind] at h
    intro i hi
    simpa using find?_eq_none.mp (map_eq_none_iff.mp h) i (mem_range.mpr hi)

theorem SameVlans.chosen_eq (h : SameVlans chip regs regs') (port : ℕ)
    (val : ℤ) : chosen chip regs' port val = chosen chip regs port val := by
  unfold chosen findVid findUnused
  rw [h.getVlanMemberConfig_eq]

theorem setVlanPortPvid_of_lt (regs : Regs) (p : Fin 6) (hval : val < 4096) :
    setVlanPortPvid chip regs p val
      = match chosen chip regs p val with
        | some (i, c) => (setPortVlanIndex chip
            (setVlanMemberConfig chip (update4k chip regs p val) i c) p i, true)
        | none => (update4k chip regs p val, false) := by
  unfold setVlanPortPvid
  rw [if_neg (by omega)]
  simp only [(sameVlans_update4k regs p val).chosen_eq]

theorem toNat_ofInt_of_nonneg (h : 0 ≤ val) (hval : val < 4096) :
    ((BitVec.ofInt 12 val).toNat : ℤ) = val := by
  rw [toNat_ofInt]
  omega

theorem assign_right_iff {t : Slots ℕ (Fin 6) ℕ}
    (h : ∀ q, (t.read q : ℤ) = want q) (p : Fin 6) (i v : ℕ) (val : ℤ) :
    (∀ q, ((t.assign p i v).read q : ℤ) = if q.val = p.val then val else want q) ↔
      (v : ℤ) = val ∧ ∀ q, q ≠ p → t.slot q = i → t.value i = v := by
  rw [← read_assign_iff t p i v]
  constructor
  · intro hall
    refine ⟨by simpa using hall p, funext fun q => ?_⟩
    by_cases hq : q = p
    · subst hq
      simp
    · have hread := hall q
      rw [if_neg fun heq => hq (Fin.ext heq), ← h q] at hread
      rw [update_of_ne hq]
      exact Int.ofNat.inj hread
  · rintro ⟨hv, hread⟩ q
    rw [hread]
    by_cases hq : q = p
    · subst hq
      rw [update_self, if_pos rfl, hv]
    · rw [update_of_ne hq, if_neg fun heq => hq (Fin.ext heq), h q]

theorem right_setPvid_iff (h : Right chip (regs, want)) (p : Fin 6) (hval : val < 4096) :
    Right chip ((call chip regs (.setPvid p val)).1, wanted chip want regs (.setPvid p val)) ↔
      Separate chip regs (.setPvid p val) := by
  have hsame : SameVlans chip regs (update4k chip regs p val) := sameVlans_update4k regs p val
  rw [call, wanted, setVlanPortPvid_of_lt regs p hval]
  cases hc : chosen chip regs p val with
  | none =>
    refine iff_of_true ?_ fun _ _ _ i hi hunused => absurd hunused (chosen_eq_none hc i hi)
    exact right_of_slots_eq h hsame.slots_eq
  | some ic =>
    obtain ⟨i, c⟩ := ic
    obtain ⟨hi, hcase⟩ := chosen_eq_some hc
    have hslots : slots chip (setPortVlanIndex chip
        (setVlanMemberConfig chip (update4k chip regs p val) i c) p i)
          = (slots chip regs).assign p i c.vid.toNat := by
      rw [slots_set _ p hi c, hsame.slots_eq]
    have hread : ∀ q, ((slots chip regs).read q : ℤ) = want q := h
    have hright := assign_right_iff hread p i c.vid.toNat val
    rw [← hslots] at hright
    refine hright.trans ?_
    rcases hcase with ⟨hval', hvid⟩ | ⟨hnew, hunused, hfirst, hvid⟩
    · -- the VID is found, so that no configuration changes its VID
      rw [hvid]
      exact iff_of_true ⟨hval'.symm, fun _ _ _ => rfl⟩ fun _ _ hnone => absurd hval' (hnone i hi)
    · constructor
      · rintro ⟨hv, hothers⟩ - - - k hk hunused' hfirst'
        have hki : k = i := Nat.le_antisymm (Nat.not_lt.mp fun hlt => hfirst' i hlt hunused)
          (Nat.not_lt.mp fun hlt => hfirst k hlt hunused')
        subst hki
        refine ⟨by omega, fun q hq hslot => hnew k hk ?_⟩
        rw [← hv, hothers q (fun heq => hq (heq ▸ rfl)) hslot]
      · intro hsep
        obtain ⟨hnonneg, hothers⟩ := hsep p.isLt hval hnew i hi hunused hfirst
        rw [hvid]
        refine ⟨toNat_ofInt_of_nonneg hnonneg hval, fun q hq hslot => ?_⟩
        exact absurd hslot (hothers q fun heq => hq (Fin.ext heq))

theorem right_call_iff (h : Right chip (regs, want)) (c : Call) :
    Right chip ((call chip regs c).1, wanted chip want regs c) ↔ Separate chip regs c := by
  cases c with
  | setPorts portVlan ports =>
    exact iff_of_true (right_of_slots_eq h (slots_swSetVlanPorts regs portVlan ports)) trivial
  | setPvid port val =>
    by_cases hbad : port ≥ 6 ∨ val ≥ 4096
    · rw [call, wanted, setVlanPortPvid, if_pos hbad]
      exact iff_of_true h fun _ _ => by omega
    · obtain ⟨p, rfl⟩ : ∃ p : Fin 6, p.val = port := ⟨⟨port, by omega⟩, rfl⟩
      exact right_setPvid_iff h p (by omega)

theorem value_setVlanPortPvid_zero (h : ∀ j, (slots chip regs).value j = 0)
    (p : Fin 6) (j : ℕ) : (slots chip (setVlanPortPvid chip regs p 0).1).value j = 0 := by
  have hsame : SameVlans chip regs (update4k chip regs p 0) := sameVlans_update4k regs p 0
  rw [setVlanPortPvid_of_lt regs p (by decide)]
  cases hc : chosen chip regs p 0 with
  | none =>
    show (slots chip (update4k chip regs p 0)).value j = 0
    rw [hsame.slots_eq, h j]
  | some ic =>
    obtain ⟨i, c⟩ := ic
    obtain ⟨hi, ⟨-, hvid⟩ | ⟨hnew, -⟩⟩ := chosen_eq_some hc
    · show (slots chip (setPortVlanIndex chip (setVlanMemberConfig chip _ i c) p i)).value j = 0
      rw [slots_set _ p hi c, hsame.slots_eq, hvid, h i, assign]
      by_cases hj : j = i <;> simp [hj, h]
    · exact absurd (by rw [h i]; rfl) (hnew i hi)

theorem vid_clear {c : VlanConfig} (regs : Regs) (hc : c.vid = 0) (n : ℕ) (hn : n ≤ 16) {j : ℕ}
    (hj : j < n) : (getVlanMemberConfig chip ((range n).foldl
    (fun regs i => setVlanMemberConfig chip regs i c) regs) j).vid = 0 := by
  induction n with
  | zero => omega
  | succ n ih =>
    rw [range_succ, foldl_append, foldl_cons, foldl_nil, getVlanMemberConfig_set _ (by omega)]
    by_cases hjn : j = n
    · rw [if_pos hjn, hc]
    · rw [if_neg hjn]
      exact ih (by omega) (by omega)

theorem right_resetVlan (regs : Regs) (c : VlanConfig) (e : Vlan4kEntry) :
    Right chip (resetVlan chip regs c e, fun _ => 0) := by
  have hzero (j : ℕ) : (slots chip (resetVlan chip regs c e)).value j = 0 := by
    unfold resetVlan
    refine foldlRecOn (motive := fun regs => ∀ j, (slots chip regs).value j = 0) (range 6)
      _ (fun j => ?_) (fun regs hregs i hi => ?_) j
    · rw [(sameVlans_setVlan4kEntry _ _).slots_eq]
      by_cases hj : j < 16
      · exact congrArg BitVec.toNat (vid_clear regs rfl 16 (Nat.le_refl 16) hj)
      · exact congrArg (fun c : VlanConfig => c.vid.toNat) (if_pos (Nat.le_of_not_lt hj))
    · exact value_setVlanPortPvid_zero hregs ⟨i, mem_range.mp hi⟩
  exact fun p => congrArg Nat.cast (hzero _)

/-- **PVIDs are independent** if and only if no call takes a configuration that
another port refers to. -/
theorem pvids_independent_iff (regs : Regs) (c : VlanConfig) (e : Vlan4kEntry) (calls : List Call) :
    (∀ pre, pre <+: calls → Right chip (after chip (resetVlan chip regs c e) pre)) ↔
      ∀ pre next, pre ++ [next] <+: calls →
        Separate chip (after chip (resetVlan chip regs c e) pre).1 next := by
  have hstep (pre : List Call) (next : Call)
      (hpre : Right chip (after chip (resetVlan chip regs c e) pre)) :
      Right chip (after chip (resetVlan chip regs c e) (pre ++ [next])) ↔
        Separate chip (after chip (resetVlan chip regs c e) pre).1 next := by
    rw [after, foldl_append]
    exact right_call_iff hpre next
  constructor
  · intro h pre next hpre
    exact (hstep pre next (h pre ((prefix_append _ _).trans hpre))).mp (h _ hpre)
  · intro h pre
    induction pre using reverseRecOn with
    | nil => exact fun _ => right_resetVlan regs c e
    | append_singleton pre next ih =>
      intro hpre
      exact (hstep pre next (ih ((prefix_append _ _).trans hpre))).mpr (h pre next hpre)

def plain : Chip := ⟨false, fun _ _ => 0⟩

def blank : Regs := resetVlan plain (fun _ => 0) ⟨0, 0, 0, 0, 0, 0, 0⟩ ⟨0, 0, 0, 0, 0, 0⟩

/-- The configuration that the CPU port refers to has the CPU port as its only
member: the next new VID goes there. -/
theorem cpu_pvid_overwritten : (after plain blank [.setPvid 5 10, .setPvid 0 20]).2 5 = 10 ∧
    (after plain blank [.setPvid 5 10, .setPvid 0 20]).2 0 = 20 ∧
    getVlanPortPvid plain (after plain blank [.setPvid 5 10, .setPvid 0 20]).1 5 = 20 := by
  decide +kernel

end

end Rtl8366s
