import Mathlib.Data.List.Induction

/-!
# The VLANs of the AR8216 switch driver

`src/target/linux/generic-2.6/files/drivers/net/phy/ar8216.c` keeps the VLANs
of a switch in memory and writes them to the chip on request.
-/

namespace Ar8216

open Function List

abbrev Port := Fin 6

/-- The number of a VLAN in the tables, below `AR8216_NUM_VLANS`. -/
abbrev Vlan := Fin 16

def portCpu : Port := 0

def bit (i : Port) : BitVec 8 := 1#8 <<< i.val

@[simp]
theorem getLsbD_bit (i j : Port) : (bit i).getLsbD j = decide (j = i) := by
  revert i j
  decide

theorem getLsbD_and_not_bit (m : BitVec 8) (i j : Port) :
    (m &&& ~~~bit i).getLsbD j = (m.getLsbD j && decide (j ≠ i)) := by
  have hj : j.val < 8 := by omega
  rw [BitVec.getLsbD_and, BitVec.getLsbD_not, getLsbD_bit]
  simp only [hj, decide_true, Bool.true_and, decide_not]

/-- The fields of `struct ar8216_priv` that a reset clears. -/
structure Priv where
  /-- VLANs are enabled -/
  vlan : Bool
  /-- the VID of each VLAN -/
  vlanId : Vlan → BitVec 16
  /-- the ports of each VLAN -/
  vlanTable : Vlan → BitVec 8
  /-- the ports whose frames carry a tag -/
  vlanTagged : BitVec 8
  /-- the VLAN of the untagged frames of a port -/
  pvid : Port → Vlan

structure SwitchPort where
  /-- the port -/
  id : Port
  /-- its frames carry a tag -/
  tagged : Bool

def Priv.Member (priv : Priv) (v : Vlan) (p : Port) : Prop :=
  (priv.vlanTable v).getLsbD p = true

def Priv.Tagged (priv : Priv) (p : Port) : Prop :=
  priv.vlanTagged.getLsbD p = true

instance (priv : Priv) (v : Vlan) (p : Port) : Decidable (priv.Member v p) :=
  inferInstanceAs (Decidable (_ = _))

instance (priv : Priv) (p : Port) : Decidable (priv.Tagged p) :=
  inferInstanceAs (Decidable (_ = _))

/-! ## The calls that change the tables -/

def setPort (v : Vlan) (priv : Priv) (p : SwitchPort) : Priv :=
  let priv :=
    if p.tagged then
      { priv with vlanTagged := priv.vlanTagged ||| bit p.id }
    else
      { priv with
        vlanTagged := priv.vlanTagged &&& ~~~bit p.id
        pvid := update priv.pvid p.id v
        -- an untagged port does not appear in other VLANs
        vlanTable := fun j =>
          if j = v then priv.vlanTable j else priv.vlanTable j &&& ~~~bit p.id }
  { priv with vlanTable := update priv.vlanTable v (priv.vlanTable v ||| bit p.id) }

def setPorts (priv : Priv) (v : Vlan) (ports : List SwitchPort) : Priv :=
  ports.foldl (setPort v) { priv with vlanTable := update priv.vlanTable v 0 }

def setVlan (priv : Priv) (enable : Bool) : Priv :=
  { priv with vlan := enable }

def setVid (priv : Priv) (v : Vlan) (vid : BitVec 16) : Priv :=
  { priv with vlanId := update priv.vlanId v vid }

/-- The calls that change the tables, but for `ar8216_set_pvid`. -/
inductive Call
  | setPorts (v : Vlan) (ports : List SwitchPort)
  | setVlan (enable : Bool)
  | setVid (v : Vlan) (vid : BitVec 16)

def call (priv : Priv) : Call → Priv
  | .setPorts v ports => setPorts priv v ports
  | .setVlan enable => setVlan priv enable
  | .setVid v vid => setVid priv v vid

/-! ## The accesses to the chip -/

inductive Access
  | read (reg : ℕ)
  | write (reg : ℕ) (val : BitVec 32)

abbrev Device := List Access → ℕ → BitVec 32

def lastWrite : List Access → ℕ → Option (BitVec 32)
  | [], _ => none
  | .read _ :: log, reg => lastWrite log reg
  | .write r val :: log, reg => if r = reg then some val else lastWrite log reg

@[simp]
theorem lastWrite_read (r : ℕ) (log : List Access) (reg : ℕ) :
    lastWrite (.read r :: log) reg = lastWrite log reg := rfl

@[simp]
theorem lastWrite_write_self (reg : ℕ) (val : BitVec 32) (log : List Access) :
    lastWrite (.write reg val :: log) reg = some val :=
  if_pos rfl

theorem lastWrite_write_of_ne {r reg : ℕ} (h : r ≠ reg) (val : BitVec 32) (log : List Access) :
    lastWrite (.write r val :: log) reg = lastWrite log reg :=
  if_neg h

def bits (s n : ℕ) : BitVec 32 := ((1#32 <<< n) - 1) <<< s

def regVtu : ℕ := 0x40

def regVtuData : ℕ := 0x44

def regGlobalCtrl : ℕ := 0x30

def portOffset (i : Port) : ℕ := 0x100 * (i.val + 1)

def regPortStatus (i : Port) : ℕ := portOffset i

def regPortCtrl (i : Port) : ℕ := portOffset i + 4

def regPortVlan (i : Port) : ℕ := portOffset i + 8

theorem regPortCtrl_ne_regPortVlan (i j : Port) : regPortCtrl i ≠ regPortVlan j := by
  unfold regPortCtrl regPortVlan portOffset
  omega

theorem regPortVlan_ne {i j : Port} (h : i ≠ j) : regPortVlan i ≠ regPortVlan j := by
  unfold regPortVlan portOffset
  have hval : i.val ≠ j.val := fun hval => h (Fin.ext hval)
  omega

section

variable (dev : Device)

def rmw (reg : ℕ) (mask val : BitVec 32) (log : List Access) : List Access :=
  .write reg ((dev log reg &&& ~~~mask) ||| val) :: .read reg :: log

def waitBit (reg : ℕ) (mask val : BitVec 32) : ℕ → List Access → Bool × List Access
  | 0, log => (decide (dev log reg &&& mask ≠ val), .read reg :: log)
  | timeout + 1, log =>
    if dev log reg &&& mask = val then (false, .read reg :: log)
    else waitBit reg mask val timeout (.read reg :: log)

def vtuOp (op val : BitVec 32) (log : List Access) : List Access :=
  let waited := waitBit dev regVtu (bits 3 1) 0 20 log
  if waited.1 then waited.2
  else
    -- the member mask is given for an `AR8216_VTU_OP_LOAD` only
    let log := if op &&& bits 0 3 = 2 then
      .write regVtuData ((val &&& bits 0 10) ||| bits 11 1) :: waited.2 else waited.2
    .write regVtu (op ||| bits 3 1) :: log

def addVlan (vp : BitVec 8) (portmask : Port → BitVec 8) (i : Port) : BitVec 8 :=
  if vp &&& bit i ≠ 0 then portmask i ||| (vp &&& ~~~bit i) else portmask i

def loadVlan (priv : Priv) (s : (Port → BitVec 8) × List Access) (j : Vlan) :
    (Port → BitVec 8) × List Access :=
  let vp := priv.vlanTable j
  if vp = 0 then s
  else
    (addVlan vp s.1,
      vtuOp dev (2 ||| ((priv.vlanId j).setWidth 32 <<< 16)) (vp.setWidth 32) s.2)

def connectCpu (portmask : Port → BitVec 8) (i : Port) : Port → BitVec 8 :=
  if i = portCpu then portmask
  else
    let portmask := update portmask i (bit portCpu)
    update portmask portCpu (portmask portCpu ||| bit i)

def portVlanVal (priv : Priv) (portmask : Port → BitVec 8) (i : Port) : BitVec 32 :=
  let pvid : BitVec 32 :=
    if priv.vlan then (priv.vlanId (priv.pvid i)).setWidth 32 else BitVec.ofNat 32 i.val
  let ingress : BitVec 32 := if priv.vlan then 3 else 0
  ((portmask i).setWidth 32 <<< 16) ||| (ingress <<< 30) ||| pvid

def portVlanMask : BitVec 32 := bits 16 9 ||| bits 30 2 ||| bits 0 12

def portCtrlVal (priv : Priv) (i : Port) : BitVec 32 :=
  let egress : BitVec 32 := if priv.vlan ∧ priv.Tagged i then 2 else 1
  bits 14 1 ||| (if priv.vlan ∧ i = portCpu then bits 11 1 else 0) ||| (egress <<< 8) ||| 4

def portCtrlMask : BitVec 32 :=
  bits 14 1 ||| bits 8 2 ||| bits 13 1 ||| bits 0 3 ||| bits 11 1 ||| bits 7 1

def applyPort (priv : Priv) (portmask : Port → BitVec 8) (log : List Access) (i : Port) :
    List Access :=
  rmw dev (regPortVlan i) portVlanMask (portVlanVal priv portmask i)
    (rmw dev (regPortCtrl i) portCtrlMask (portCtrlVal priv i) log)

def portmasks (priv : Priv) (log : List Access) : (Port → BitVec 8) × List Access :=
  if priv.vlan then (finRange 16).foldl (loadVlan dev priv) (fun _ => 0, log)
  else ((finRange 6).foldl connectCpu (fun _ => 0), log)

def hwApply (priv : Priv) (log : List Access) : List Access :=
  -- the entries of the VLAN translation unit are flushed first
  let masked := portmasks dev priv (vtuOp dev 1 0 log)
  (finRange 6).foldl (applyPort dev priv masked.1) masked.2

def Priv.reset : Priv where
  vlan := false
  vlanId j := BitVec.ofNat 16 j.val
  vlanTable _ := 0
  vlanTagged := 0
  pvid _ := ⟨0, Nat.zero_lt_succ 15⟩

def resetPort (log : List Access) (i : Port) : List Access :=
  let status : BitVec 32 :=
    if i = portCpu then bits 8 1 ||| 1 ||| bits 2 1 ||| bits 3 1 ||| bits 6 1 else bits 9 1
  .write (regPortStatus i) status :: .write (regPortVlan i) 0 ::
    .write (regPortCtrl i) (bits 14 1 ||| 4) :: log

def resetSwitch (log : List Access) : Priv × List Access :=
  let log := (finRange 6).foldl resetPort log
  let log := rmw dev regGlobalCtrl (bits 0 11) (1518 + 8 + 2) (.write 0x38 0xc000050e :: log)
  (.reset, hwApply dev .reset log)

end

/-! ## Untagged ports are in one VLAN -/

def Priv.Isolated (priv : Priv) : Prop :=
  ∀ p v, ¬ priv.Tagged p → priv.Member v p → v = priv.pvid p

theorem isolated_reset : Priv.reset.Isolated := by
  intro p v _ hmem
  simp [Priv.Member, Priv.reset] at hmem

variable {priv : Priv} (h : priv.Isolated)

theorem Priv.Isolated.clear (h : priv.Isolated) (v : Vlan) :
    Priv.Isolated { priv with vlanTable := update priv.vlanTable v 0 } := by
  intro p w htag hmem
  by_cases hw : w = v
  · subst hw
    simp [Member] at hmem
  · have hold : priv.Member w p := by simpa [Member, hw] using hmem
    exact h p w htag hold

theorem tagged_setPort (v : Vlan) (priv : Priv) (p : SwitchPort) (q : Port) :
    (setPort v priv p).Tagged q ↔ if q = p.id then p.tagged = true else priv.Tagged q := by
  unfold setPort Priv.Tagged
  cases ht : p.tagged <;> by_cases hq : q = p.id <;>
    simp [hq, getLsbD_and_not_bit, -BitVec.getLsbD_and]

theorem member_setPort (v : Vlan) (priv : Priv) (p : SwitchPort) (w : Vlan) (q : Port) :
    (setPort v priv p).Member w q ↔
      if q = p.id then w = v ∨ p.tagged = true ∧ priv.Member w q else priv.Member w q := by
  unfold setPort Priv.Member
  cases ht : p.tagged <;> by_cases hw : w = v <;> by_cases hq : q = p.id <;>
    simp [hw, hq, getLsbD_and_not_bit, -BitVec.getLsbD_and]

theorem pvid_setPort (v : Vlan) (priv : Priv) (p : SwitchPort) (q : Port) :
    (setPort v priv p).pvid q = if q = p.id ∧ p.tagged = false then v else priv.pvid q := by
  unfold setPort
  cases ht : p.tagged <;> by_cases hq : q = p.id <;> simp [hq]

include h

theorem Priv.Isolated.setPort (v : Vlan) (p : SwitchPort) : (setPort v priv p).Isolated := by
  intro q w htag hmem
  rw [tagged_setPort] at htag
  rw [member_setPort] at hmem
  rw [pvid_setPort]
  by_cases hq : q = p.id
  · -- the port of this turn: untagged, so that it is in VLAN `v` alone
    rw [if_pos hq] at htag hmem
    have hfalse : p.tagged = false := Bool.eq_false_iff.mpr htag
    rw [if_pos ⟨hq, hfalse⟩]
    exact hmem.resolve_right fun hboth => htag hboth.1
  · rw [if_neg hq] at htag hmem
    rw [if_neg fun hboth => hq hboth.1]
    exact h q w htag hmem

theorem Priv.Isolated.setPorts (v : Vlan)
    (ports : List SwitchPort) : (setPorts priv v ports).Isolated :=
  foldlRecOn ports (Ar8216.setPort v) (h.clear v) fun _ hprev p _ => hprev.setPort v p

theorem Priv.Isolated.call (c : Call) : (call priv c).Isolated := by
  cases c with
  | setPorts v ports => exact h.setPorts v ports
  | setVlan enable => exact h
  | setVid v vid => exact h

omit h

theorem isolated_foldl_call (calls : List Call) : (calls.foldl call .reset).Isolated :=
  foldlRecOn calls call isolated_reset fun _ hprev c _ => hprev.call c

/-! ## The destination masks -/

def Priv.Share (priv : Priv) (i j : Port) : Prop :=
  ∃ v, priv.Member v i ∧ priv.Member v j

theorem and_bit_ne_zero (vp : BitVec 8) (i : Port) : vp &&& bit i ≠ 0 ↔ vp.getLsbD i = true := by
  rw [bit, ← BitVec.twoPow_eq, BitVec.and_twoPow]
  have hne : ∀ i : Port, ¬ BitVec.twoPow 8 i.val = 0#8 := by decide
  by_cases hbit : vp.getLsbD i = true
  · simp [hbit, hne]
  · simp [hbit]

theorem getLsbD_addVlan (vp : BitVec 8) (portmask : Port → BitVec 8) (i j : Port) :
    (addVlan vp portmask i).getLsbD j = true ↔
      (portmask i).getLsbD j = true ∨
        (i ≠ j ∧ vp.getLsbD i = true ∧ vp.getLsbD j = true) := by
  unfold addVlan
  by_cases hi : vp.getLsbD i = true
  · rw [if_pos ((and_bit_ne_zero vp i).mpr hi)]
    rw [BitVec.getLsbD_or, getLsbD_and_not_bit]
    simp [hi, and_comm, ne_comm]
  · rw [if_neg fun hne => hi ((and_bit_ne_zero vp i).mp hne)]
    simp [hi]

section

variable (dev : Device)

theorem getLsbD_loadVlan (priv : Priv) (s : (Port → BitVec 8) × List Access) (v : Vlan)
    (i j : Port) : ((loadVlan dev priv s v).1 i).getLsbD j = true ↔
    (s.1 i).getLsbD j = true ∨ (i ≠ j ∧ priv.Member v i ∧ priv.Member v j) := by
  unfold loadVlan
  by_cases hvp : priv.vlanTable v = 0
  · simp [hvp, Priv.Member]
  · rw [if_neg hvp]
    exact getLsbD_addVlan _ _ i j

theorem getLsbD_foldl_loadVlan (priv : Priv) (vs : List Vlan)
    (s : (Port → BitVec 8) × List Access) (i j : Port) :
    ((vs.foldl (loadVlan dev priv) s).1 i).getLsbD j = true ↔
      (s.1 i).getLsbD j = true ∨ (i ≠ j ∧ ∃ v ∈ vs, priv.Member v i ∧ priv.Member v j) := by
  induction vs generalizing s with
  | nil => simp
  | cons v vs ih =>
    rw [foldl_cons, ih, getLsbD_loadVlan]
    simp only [mem_cons, exists_eq_or_imp]
    tauto

theorem getLsbD_portmasks (hvlan : priv.vlan = true) (log : List Access) (i j : Port) :
    ((portmasks dev priv log).1 i).getLsbD j = true ↔ i ≠ j ∧ priv.Share i j := by
  rw [portmasks, if_pos hvlan, getLsbD_foldl_loadVlan]
  simp [Priv.Share]

def destPorts (val : BitVec 32) : BitVec 9 := val.extractLsb' 16 9

theorem getLsbD_destPorts (old : BitVec 32) (priv : Priv) (portmask : Port → BitVec 8)
    (i j : Port) : (destPorts ((old &&& ~~~portVlanMask) ||| portVlanVal priv portmask i)).getLsbD j
    = (portmask i).getLsbD j := by
  have hmask : ∀ j : Port, portVlanMask.getLsbD (16 + j.val) = true := by decide
  have hval : (portVlanVal priv portmask i).getLsbD (16 + j.val) = (portmask i).getLsbD j := by
    have hport : ∀ i j : Port, (BitVec.ofNat 32 i.val).getLsbD (16 + j.val) = false := by decide
    have hsecure : ∀ j : Port, (3221225472#32).getLsbD (16 + j.val) = false := by decide
    have hlt : 16 + j.val < 32 ∧ ¬ 16 + j.val < 16 ∧ j.val < 32 := by omega
    have hshift : ((portmask i).setWidth 32 <<< 16).getLsbD (16 + j.val)
        = (portmask i).getLsbD j := by
      simp only [BitVec.getLsbD_shiftLeft, BitVec.getLsbD_setWidth, Nat.add_sub_cancel_left, hlt,
        decide_true, decide_false, Bool.not_false, Bool.true_and]
    rw [portVlanVal, BitVec.getLsbD_or, BitVec.getLsbD_or, hshift]
    cases priv.vlan <;> simp [hport, hsecure]
  have hj : decide (j.val < 9) = true := decide_eq_true (by omega)
  rw [destPorts, BitVec.getLsbD_extractLsb', hj, BitVec.getLsbD_or, BitVec.getLsbD_and,
    BitVec.getLsbD_not, hmask, hval]
  simp

theorem lastWrite_applyPort_self (priv : Priv) (portmask : Port → BitVec 8) (log : List Access)
    (i : Port) : ∃ val, lastWrite (applyPort dev priv portmask log i) (regPortVlan i) = some val ∧
    ∀ j : Port, (destPorts val).getLsbD j = (portmask i).getLsbD j :=
  ⟨_, lastWrite_write_self _ _ _, fun j => getLsbD_destPorts _ priv portmask i j⟩

theorem lastWrite_applyPort_of_ne {i : Port} (priv : Priv) (portmask : Port → BitVec 8)
    (log : List Access) {k : Port} (h : k ≠ i) :
    lastWrite (applyPort dev priv portmask log k) (regPortVlan i)
      = lastWrite log (regPortVlan i) := by
  unfold applyPort rmw
  rw [lastWrite_write_of_ne (regPortVlan_ne h), lastWrite_read,
    lastWrite_write_of_ne (regPortCtrl_ne_regPortVlan k i), lastWrite_read]

theorem lastWrite_foldl_applyPort {i : Port} (priv : Priv) (portmask : Port → BitVec 8)
    (ports : List Port) (log : List Access) (hi : i ∈ ports) :
    ∃ val, lastWrite (ports.foldl (applyPort dev priv portmask) log) (regPortVlan i) = some val ∧
      ∀ j : Port, (destPorts val).getLsbD j = (portmask i).getLsbD j := by
  induction ports using reverseRecOn with
  | nil => cases hi
  | append_singleton ports k ih =>
    rw [foldl_append]
    by_cases hk : k = i
    · subst hk
      exact lastWrite_applyPort_self dev priv portmask _ k
    · have hmem : i ∈ ports := by
        simpa [Ne.symm hk] using hi
      obtain ⟨val, hval, hdest⟩ := ih hmem
      exact ⟨val, (lastWrite_applyPort_of_ne dev priv portmask _ hk).trans hval, hdest⟩

def Reaches (log : List Access) (i j : Port) : Prop :=
  ∃ val, lastWrite log (regPortVlan i) = some val ∧ (destPorts val).getLsbD j = true

theorem lastWrite_hwApply (hvlan : priv.vlan = true) (log : List Access) (i : Port) :
    ∃ val, lastWrite (hwApply dev priv log) (regPortVlan i) = some val ∧
      ∀ j : Port, (destPorts val).getLsbD j = true ↔ i ≠ j ∧ priv.Share i j := by
  obtain ⟨val, hval, hdest⟩ := lastWrite_foldl_applyPort dev priv
    (portmasks dev priv (vtuOp dev 1 0 log)).1 (finRange 6)
    (portmasks dev priv (vtuOp dev 1 0 log)).2 (mem_finRange i)
  refine ⟨val, hval, fun j => ?_⟩
  rw [hdest j]
  exact getLsbD_portmasks dev hvlan (vtuOp dev 1 0 log) i j

theorem reaches_hwApply_iff (hvlan : priv.vlan = true) (log : List Access) (i j : Port) :
    Reaches (hwApply dev priv log) i j ↔ i ≠ j ∧ priv.Share i j := by
  obtain ⟨val, hval, hdest⟩ := lastWrite_hwApply dev hvlan log i
  rw [← hdest j]
  constructor
  · rintro ⟨val', hval', hj⟩
    have heq : val' = val := Option.some.inj (hval'.symm.trans hval)
    exact heq ▸ hj
  · intro hj
    exact ⟨val, hval, hj⟩

theorem Priv.Share.symm {i j : Port} (h : priv.Share i j) : priv.Share j i :=
  h.imp fun _ hboth => hboth.symm

def afterCalls (log : List Access) (calls : List Call) : Priv :=
  calls.foldl call (resetSwitch dev log).1

/-- **VLANs isolate the ports.** After a reset and any calls that do not set a
`pvid` themselves, an untagged port is in no VLAN but the one of its `pvid`.
When VLANs are then applied, each port is given a destination mask that
consists of the other ports with which it shares a VLAN: the relation is
symmetric, and an untagged port reaches the ports of its one VLAN only. -/
theorem ports_isolated (log log' : List Access) (calls : List Call) :
    (∀ p v, ¬ (afterCalls dev log calls).Tagged p → (afterCalls dev log calls).Member v p →
      v = (afterCalls dev log calls).pvid p) ∧
    ((afterCalls dev log calls).vlan = true →
      (∀ i, ∃ val,
        lastWrite (hwApply dev (afterCalls dev log calls) log') (regPortVlan i) = some val ∧
          ∀ j : Port, (destPorts val).getLsbD j = true ↔
            i ≠ j ∧ ∃ v, (afterCalls dev log calls).Member v i ∧
              (afterCalls dev log calls).Member v j) ∧
      (∀ i j, Reaches (hwApply dev (afterCalls dev log calls) log') i j →
        Reaches (hwApply dev (afterCalls dev log calls) log') j i) ∧
      (∀ i j, ¬ (afterCalls dev log calls).Tagged i →
        Reaches (hwApply dev (afterCalls dev log calls) log') i j →
          (afterCalls dev log calls).Member ((afterCalls dev log calls).pvid i) i ∧
          (afterCalls dev log calls).Member ((afterCalls dev log calls).pvid i) j)) := by
  have hiso : (afterCalls dev log calls).Isolated := isolated_foldl_call calls
  refine ⟨hiso, fun hvlan => ⟨lastWrite_hwApply dev hvlan log', fun i j hij => ?_,
    fun i j htag hij => ?_⟩⟩
  · rw [reaches_hwApply_iff dev hvlan] at hij ⊢
    exact ⟨hij.1.symm, hij.2.symm⟩
  · obtain ⟨-, v, hi, hj⟩ := (reaches_hwApply_iff dev hvlan log' i j).mp hij
    rw [← hiso i v htag hi]
    exact ⟨hi, hj⟩

def trunk : List Call :=
  [.setVlan true, .setPorts (1#4).toFin [⟨0, true⟩, ⟨1, false⟩],
    .setPorts (2#4).toFin [⟨0, true⟩, ⟨2, false⟩]]

def zeroDevice : Device := fun _ _ => 0

theorem trunk_isolated :
    ¬ (afterCalls zeroDevice [] trunk).Tagged 1 ∧ (afterCalls zeroDevice [] trunk).vlan = true ∧
      ∀ j, Reaches (hwApply zeroDevice (afterCalls zeroDevice [] trunk) []) 1 j →
        (afterCalls zeroDevice [] trunk).Member 1 j := by
  have htag : ¬ (afterCalls zeroDevice [] trunk).Tagged 1 := by decide
  have hvlan : (afterCalls zeroDevice [] trunk).vlan = true := by decide
  have hpvid : (afterCalls zeroDevice [] trunk).pvid 1 = 1 := by decide
  refine ⟨htag, hvlan, fun j hj => ?_⟩
  have hboth := ((ports_isolated zeroDevice [] [] trunk).2 hvlan).2.2 1 j htag hj
  exact hpvid ▸ hboth.2

end

end Ar8216
