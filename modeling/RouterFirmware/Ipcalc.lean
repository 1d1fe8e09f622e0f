import RouterFirmware.Alignment
import RouterFirmware.BitCount

/-!
# The address range of `ipcalc.sh`

`ipcalc.sh` prints the network of an address and the range that a DHCP server may
lease from it.  Its arguments are an address, a netmask, a first address and a
number; what it prints is read by the scripts that set up the network.

The program is an awk script over the functions of `common.awk`.  Numbers of awk
are signed, and its bit operations take them as 32-bit numbers, so a number below
zero wraps when it is printed as an address (`int2ip`).  The number of network
bits is 32 minus the ones of the complement of the mask, which `bitcount` counts
by adding neighbouring groups of bits; that this counts the ones of every 32-bit
number is a use of `BitCount.addLanes` (`bitcount_eq`).

For a mask with `h` host bits everything that is printed is known in closed form
(`prints_network`).  From this follows when the range fits (`ipcalc_fits_iff`).
-/

namespace Ipcalc

open Nat

/-- An IPv4 address in dotted form. -/
structure Addr where
  a : UInt8
  b : UInt8
  c : UInt8
  d : UInt8

def compl (x : ℕ) : ℕ := 2 ^ 32 - 1 - x

def bitcount (c : ℕ) : ℕ :=
  let c := (c >>> 1 &&& 0x55555555) + (c &&& 0x55555555)
  let c := (c >>> 2 &&& 0x33333333) + (c &&& 0x33333333)
  let c := (c >>> 4 &&& 0x0f0f0f0f) + (c &&& 0x0f0f0f0f)
  let c := (c >>> 8 &&& 0x00ff00ff) + (c &&& 0x00ff00ff)
  (c >>> 16 &&& 0x0000ffff) + (c &&& 0x0000ffff)

def ip2int (ip : Addr) : ℕ :=
  [ip.a, ip.b, ip.c, ip.d].foldl (fun ret x => ret <<< 8 % 2 ^ 32 ||| x.toNat) 0

def int2ip (ip : ℤ) : Addr :=
  let ip := (ip % 2 ^ 32).toNat
  ⟨.ofNat (ip >>> 8 >>> 8 >>> 8), .ofNat (ip >>> 8 >>> 8), .ofNat (ip >>> 8), .ofNat ip⟩

/-- What the script prints. -/
structure Printed where
  ip : Addr
  netmask : Addr
  broadcast : Addr
  network : Addr
  prefixLen : ℕ
  start : Addr
  stop : Addr

def ipcalc (ip mask first : Addr) (num : ℕ) : Printed :=
  let ipaddr := ip2int ip
  let netmask := ip2int mask
  let network := ipaddr &&& netmask
  let broadcast := network ||| compl netmask
  let start : ℤ := max (network ||| ip2int first &&& compl netmask : ℕ) (network + 1)
  let stop : ℤ := min (start + num) (broadcast - 1)
  ⟨int2ip ipaddr, int2ip netmask, int2ip broadcast, int2ip network,
    32 - bitcount (compl netmask), int2ip start, int2ip stop⟩

/-! ## Addresses as numbers -/

theorem turn_eq {ret : ℕ} (h : ret < 2 ^ 24) (x : UInt8) :
    ret <<< 8 % 2 ^ 32 ||| x.toNat = ret * 256 + x.toNat := by
  rw [mod_eq_of_lt (by rw [shiftLeft_eq]; omega), ← shiftLeft_add_eq_or_of_lt x.toNat_lt,
    shiftLeft_eq]

theorem ip2int_eq (ip : Addr) : ip2int ip
    = ((ip.a.toNat * 256 + ip.b.toNat) * 256 + ip.c.toNat) * 256 + ip.d.toNat := by
  have ha := ip.a.toNat_lt
  have hb := ip.b.toNat_lt
  have hc := ip.c.toNat_lt
  simp (disch := omega) only [ip2int, List.foldl, turn_eq, Nat.zero_mul, Nat.zero_add]

theorem ip2int_lt (ip : Addr) : ip2int ip < 2 ^ 32 := by
  have ha := ip.a.toNat_lt
  have hb := ip.b.toNat_lt
  have hc := ip.c.toNat_lt
  have hd := ip.d.toNat_lt
  rw [ip2int_eq]
  omega

/-- An address that is printed is the number modulo `2 ^ 32`. -/
theorem ip2int_int2ip (x : ℤ) : (ip2int (int2ip x) : ℤ) = x % 2 ^ 32 := by
  rw [ip2int_eq]
  simp only [int2ip, UInt8.toNat_ofNat', shiftRight_eq_div_pow]
  omega

/-! ## The number of network bits -/

/-- **`bitcount` counts the ones** of every 32-bit number. -/
theorem bitcount_eq {c : ℕ} (hc : c < 2 ^ 32) : bitcount c = BitCount.ones 32 c := by
  have hone := BitCount.addLanes 1 16 c
  have htwo := BitCount.addLanes 2 8 c
  have hfour := BitCount.addLanes 4 4 c
  have height := BitCount.addLanes 8 2 c
  have hsixteen := BitCount.addLanes 16 1 c
  rw [BitCount.lanes_one hc] at hone
  rw [BitCount.lanes_single] at hsixteen
  -- the masks of the five turns are those of the source
  show (_ >>> 16 &&& BitCount.mask 16 1) + (_ &&& BitCount.mask 16 1) = _
  rw [← hsixteen, ← height, ← hfour, ← htwo, ← hone]
  rfl

/-- The complement has the other ones. -/
theorem ones_compl {x : ℕ} (hx : x < 2 ^ 32) :
    BitCount.ones 32 (compl x) + BitCount.ones 32 x = 32 := by
  have hbit : ∀ i ∈ List.range 32, ((compl x).testBit i = true ↔ (!x.testBit i) = true) := by
    intro i hi
    rw [compl, Nat.sub_sub, Nat.add_comm, testBit_two_pow_sub_succ hx,
      decide_eq_true (List.mem_range.mp hi), Bool.true_and]
  unfold BitCount.ones
  rw [List.countP_congr hbit, Nat.add_comm]
  have hlen : (List.range 32).length = _ := List.length_eq_countP_add_countP x.testBit
  simpa using hlen.symm

/-! ## A network with `h` host bits -/

def netAddr (h : ℕ) (ip : Addr) : ℕ := 2 ^ h * (ip2int ip / 2 ^ h)

def startAddr (h : ℕ) (ip first : Addr) : ℕ := netAddr h ip + max 1 (ip2int first % 2 ^ h)

/-- **What is printed for a network with `h` host bits**: its lowest and highest
address, the number of network bits, and a range that starts in the network and
ends before the highest address or after `num` more addresses. -/
structure PrintsNetwork (h : ℕ) (ip first : Addr) (num : ℕ) (r : Printed) : Prop where
  network : ip2int r.network = netAddr h ip
  broadcast : ip2int r.broadcast = netAddr h ip + (2 ^ h - 1)
  prefixLen : r.prefixLen = 32 - h
  start : (ip2int r.start : ℤ) = startAddr h ip first % 2 ^ 32
  stop : (ip2int r.stop : ℤ)
    = min ((startAddr h ip first : ℤ) + num) (netAddr h ip + 2 ^ h - 2) % 2 ^ 32

theorem netAddr_le (ip : Addr) {h : ℕ} (hh : h ≤ 32) : netAddr h ip + 2 ^ h ≤ 2 ^ 32 := by
  obtain ⟨n, hn⟩ := Nat.pow_dvd_pow 2 hh
  have hlt : 2 ^ h * (ip2int ip / 2 ^ h) < 2 ^ h * n :=
    hn ▸ (mul_div_le ..).trans_lt (ip2int_lt ip)
  rw [netAddr, ← mul_succ, hn]
  exact Nat.mul_le_mul_left _ (Nat.lt_of_mul_lt_mul_left hlt)

theorem prints_network {h : ℕ} (ip mask first : Addr) (num : ℕ) (hh : h ≤ 32)
    (hm : ip2int mask = 2 ^ 32 - 2 ^ h) :
    PrintsNetwork h ip first num (ipcalc ip mask first num) := by
  have hcount : ∀ h ≤ 32, BitCount.ones 32 (2 ^ h - 1) = h := by decide +kernel
  have hnet := netAddr_le ip hh
  have hpos := Nat.two_pow_pos h
  have hmod := mod_lt (ip2int first) hpos
  have hcompl : compl (ip2int mask) = 2 ^ h - 1 := by
    rw [compl, hm]
    omega
  have hand : ip2int ip &&& ip2int mask = netAddr h ip := by
    rw [hm, Alignment.and_mask (ip2int_lt ip) (by omega), netAddr, Nat.mul_comm]
  have hor : ∀ {x : ℕ}, x < 2 ^ h → netAddr h ip ||| x = netAddr h ip + x := fun hx =>
    (two_pow_add_eq_or_of_lt hx _).symm
  have hstart : ((max (netAddr h ip ||| ip2int first &&& (2 ^ h - 1) : ℕ)
      ((netAddr h ip : ℕ) + 1) : ℤ)) = startAddr h ip first := by
    rw [and_two_pow_sub_one_eq_mod, hor hmod, startAddr]
    omega
  have hstop : (((netAddr h ip ||| (2 ^ h - 1) : ℕ) : ℤ) - 1) = netAddr h ip + 2 ^ h - 2 := by
    have hcast : (2 : ℤ) ^ h = (2 ^ h : ℕ) := by norm_cast
    rw [hor (by omega), hcast]
    omega
  constructor
  · rw [← Int.natCast_inj]
    simp only [ipcalc, hand, ip2int_int2ip]
    omega
  · rw [← Int.natCast_inj]
    simp only [ipcalc, hand, hcompl, hor (Nat.sub_one_lt hpos.ne'), ip2int_int2ip]
    omega
  · simp only [ipcalc, hcompl]
    rw [bitcount_eq (by omega), hcount h hh]
  · simp only [ipcalc, hand, hcompl, hstart, ip2int_int2ip]
  · simp only [ipcalc, hand, hcompl, hstart, hstop, ip2int_int2ip]

/-! ## Ranges that fit -/

def Printed.Fits (r : Printed) (num : ℕ) : Prop :=
  ip2int r.network < ip2int r.start ∧ ip2int r.start ≤ ip2int r.stop ∧
    ip2int r.stop < ip2int r.broadcast ∧ ip2int r.stop + 1 - ip2int r.start ≤ num

/-- **What is printed fits exactly if the host part of the start is not all ones and the range is
cut before the broadcast address** – the program adds `num` to the start, so that a range that is
not cut has one address more. -/
theorem ipcalc_fits_iff (ip : Addr) {h : ℕ} (mask first : Addr) (num : ℕ) (hh : 2 ≤ h ∧ h ≤ 32)
    (hm : ip2int mask = 2 ^ 32 - 2 ^ h) (hn : 1 ≤ num) : (ipcalc ip mask first num).Fits num ↔
    ip2int first % 2 ^ h ≠ 2 ^ h - 1 ∧ 2 ^ h - 1 ≤ max 1 (ip2int first % 2 ^ h) + num := by
  obtain ⟨hnetwork, hbroadcast, -, hstart, hstop⟩ := prints_network ip mask first num hh.2 hm
  have hpow : 2 ^ 2 ≤ 2 ^ h := Nat.pow_le_pow_right (by decide) hh.1
  have hnet := netAddr_le ip hh.2
  have hmod := mod_lt (ip2int first) (Nat.two_pow_pos h)
  unfold startAddr at hstart hstop
  unfold Printed.Fits
  generalize ip2int first % 2 ^ h = s at *
  generalize netAddr h ip = n at *
  have hcast : ((2 : ℤ) ^ h) = (2 ^ h : ℕ) := by norm_cast
  rw [hcast] at hstop
  generalize 2 ^ h = p at *
  omega

theorem ipcalc_fits_iff_cut : (ipcalc ⟨192, 168, 1, 1⟩ ⟨255, 255, 255, 0⟩ ⟨192, 168, 1, 100⟩
    200).Fits 200 :=
  (ipcalc_fits_iff (h := 8) _ _ _ _ (by decide) (by decide) (by decide)).mpr (by decide)

/-- **Ten addresses from 192.168.1.100 on are printed as eleven.** -/
theorem ipcalc_one_more : ¬ (ipcalc ⟨192, 168, 1, 1⟩ ⟨255, 255, 255, 0⟩ ⟨192, 168, 1, 100⟩
    10).Fits 10 := by
  unfold Printed.Fits
  decide

/-- **What `ipcalc.sh` prints**: for every mask the number of its ones, and for a
mask with `h` host bits the whole network and the range. -/
theorem ipcalc_prints (ip mask first : Addr) (num : ℕ) :
    (ipcalc ip mask first num).prefixLen = BitCount.ones 32 (ip2int mask)
      ∧ ∀ h ≤ 32, ip2int mask = 2 ^ 32 - 2 ^ h →
        PrintsNetwork h ip first num (ipcalc ip mask first num) := by
  refine ⟨?_, fun h hh hm => prints_network ip mask first num hh hm⟩
  have hcompl := ones_compl (ip2int_lt mask)
  have hlt : compl (ip2int mask) < 2 ^ 32 := by
    unfold compl
    omega
  show 32 - bitcount (compl (ip2int mask)) = _
  rw [bitcount_eq hlt]
  omega

/-- **A mask with gaps and one without**: the ones of 255.0.255.0 are counted,
and a single address with 32 network bits has a range that wraps. -/
theorem ipcalc_prints_three : (ipcalc ⟨10, 0, 0, 1⟩ ⟨255, 0, 255, 0⟩ ⟨0, 0, 0, 9⟩ 5).prefixLen = 16
    ∧ PrintsNetwork 8 ⟨192, 168, 1, 1⟩ ⟨192, 168, 1, 100⟩ 10
      (ipcalc ⟨192, 168, 1, 1⟩ ⟨255, 255, 255, 0⟩ ⟨192, 168, 1, 100⟩ 10)
    ∧ ip2int (ipcalc ⟨0, 0, 0, 0⟩ ⟨255, 255, 255, 255⟩ ⟨0, 0, 0, 0⟩ 10).stop = 2 ^ 32 - 1 := by
  refine ⟨(ipcalc_prints ..).1.trans (by decide +kernel),
    (ipcalc_prints ..).2 8 (by decide) (by decide), ?_⟩
  have hstop := ((ipcalc_prints ⟨0, 0, 0, 0⟩ ⟨255, 255, 255, 255⟩ ⟨0, 0, 0, 0⟩ 10).2 0 (by decide)
    (by decide)).stop
  rw [← Int.natCast_inj, hstop]
  decide

end Ipcalc
