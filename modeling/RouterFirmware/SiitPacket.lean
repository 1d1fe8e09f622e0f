import RouterFirmware.ByteOrder
import RouterFirmware.InternetChecksum

/-!
# Packets of the SIIT translator

The headers `siit.c` reads and writes, as the kernel declares them: a record
for each, with `bytes` for its layout and `read` for the record at an address.
-/

/-! ## Halves of a byte -/

/-- A half has a literal. -/
instance instNeZeroSixteen : NeZero 16 := ⟨by decide⟩

def highNibble (b : UInt8) : Fin 16 := ⟨b.toNat / 16, by have := b.toNat_lt; omega⟩

def lowNibble (b : UInt8) : Fin 16 := ⟨b.toNat % 16, by omega⟩

def packNibbles (hi lo : Fin 16) : UInt8 := .ofNat (hi.val * 16 + lo.val)

theorem toNat_packNibbles (hi lo : Fin 16) : (packNibbles hi lo).toNat = hi.val * 16 + lo.val :=
  UInt8.toNat_ofNat_of_lt' (show hi.val * 16 + lo.val < 256 by omega)

@[simp] theorem highNibble_packNibbles (hi lo : Fin 16) : highNibble (packNibbles hi lo) = hi := by
  refine Fin.ext ?_
  simp only [highNibble, toNat_packNibbles]
  omega

@[simp] theorem lowNibble_packNibbles (hi lo : Fin 16) : lowNibble (packNibbles hi lo) = lo := by
  refine Fin.ext ?_
  simp only [lowNibble, toNat_packNibbles]
  omega

@[simp] theorem packNibbles_nibbles (b : UInt8) : packNibbles (highNibble b) (lowNibble b) = b := by
  apply UInt8.toNat_inj.mp
  rw [toNat_packNibbles, highNibble, lowNibble]
  dsimp only
  omega

/-! ## Headers -/

@[ext] structure Iphdr where
  version : Fin 16
  ihl : Fin 16
  tos : UInt8
  totLen : UInt16
  id : UInt16
  fragOff : UInt16
  ttl : UInt8
  protocol : UInt8
  check : UInt16
  saddr : UInt32
  daddr : UInt32
deriving DecidableEq

@[ext] structure In6Addr where
  word0 : UInt32
  word1 : UInt32
  word2 : UInt32
  word3 : UInt32

@[ext] structure Ipv6hdr where
  version : Fin 16
  priority : Fin 16
  flowLbl0 : UInt8
  flowLbl1 : UInt8
  flowLbl2 : UInt8
  payloadLen : UInt16
  nexthdr : UInt8
  hopLimit : UInt8
  saddr : In6Addr
  daddr : In6Addr

@[ext] structure FragHdr where
  nexthdr : UInt8
  reserved : UInt8
  fragOff : UInt16
  identification : UInt32

theorem Memory.eq_of_slice_one {m : Bytes} {a : ℕ} {b : UInt8} (h : m.slice a 1 = [b]) :
    m a = b := (List.cons.inj h).1

namespace Iphdr

open Memory List

def bytes (h : Iphdr) : List UInt8 :=
  [packNibbles h.version h.ihl, h.tos] ++ be16 h.totLen ++ be16 h.id ++ be16 h.fragOff
    ++ [h.ttl, h.protocol] ++ be16 h.check ++ be32 h.saddr ++ be32 h.daddr

def read (m : Bytes) (a : ℕ) : Iphdr where
  version := highNibble (m a)
  ihl := lowNibble (m a)
  tos := m (a + 1)
  totLen := m.load16 (a + 2)
  id := m.load16 (a + 4)
  fragOff := m.load16 (a + 6)
  ttl := m (a + 8)
  protocol := m (a + 9)
  check := m.load16 (a + 10)
  saddr := m.load32 (a + 12)
  daddr := m.load32 (a + 16)

@[simp] theorem length_bytes (h : Iphdr) : h.bytes.length = 20 := by
  simp [bytes]

theorem bytes_read (m : Bytes) (a : ℕ) : (read m a).bytes = m.slice a 20 := by
  have hsplit : m.slice a 20 = m.slice a 2 ++ m.slice (a + 2) 2 ++ m.slice (a + 4) 2
      ++ m.slice (a + 6) 2 ++ m.slice (a + 8) 2 ++ m.slice (a + 10) 2 ++ m.slice (a + 12) 4
      ++ m.slice (a + 16) 4 := by
    rw [← m.slice_add a 2 2, ← m.slice_add a 4 2, ← m.slice_add a 6 2, ← m.slice_add a 8 2,
      ← m.slice_add a 10 2, ← m.slice_add a 12 4, ← m.slice_add a 16 4]
  rw [hsplit]
  simp only [bytes, read, packNibbles_nibbles, be16_load16, be32_load32]
  rfl

theorem read_of_slice {m : Bytes} {a : ℕ} {h : Iphdr} (hs : m.slice a 20 = h.bytes) :
    read m a = h := by
  have hs' : m.slice a h.bytes.length = h.bytes := by rwa [length_bytes]
  simp only [bytes, ← singleton_append (l := [h.tos]), ← singleton_append (l := [h.protocol]),
    ← append_assoc, slice_append_iff] at hs'
  simp only [length_append, length_be16, length_singleton, length_be32] at hs'
  obtain ⟨⟨⟨⟨⟨⟨⟨⟨⟨h0, h1⟩, h2⟩, h4⟩, h6⟩, h8⟩, h9⟩, h10⟩, h12⟩, h16⟩ := hs'
  refine Iphdr.ext ?_ ?_ (eq_of_slice_one h1) (load16_of_slice h2)
    (load16_of_slice h4) (load16_of_slice h6) (eq_of_slice_one h8)
    (eq_of_slice_one h9) (load16_of_slice h10) (load32_of_slice h12) (load32_of_slice h16)
  · rw [read, eq_of_slice_one h0, highNibble_packNibbles]
  · rw [read, eq_of_slice_one h0, lowNibble_packNibbles]

def withCheck (h : Iphdr) : Iphdr :=
  { h with check := internetChecksum ({ h with check := 0 } : Iphdr).bytes }

end Iphdr

namespace In6Addr

def bytes (x : In6Addr) : List UInt8 :=
  be32 x.word0 ++ be32 x.word1 ++ be32 x.word2 ++ be32 x.word3

def read (m : Bytes) (a : ℕ) : In6Addr where
  word0 := m.load32 a
  word1 := m.load32 (a + 4)
  word2 := m.load32 (a + 8)
  word3 := m.load32 (a + 12)

@[simp] theorem length_bytes (x : In6Addr) : x.bytes.length = 16 := by
  simp [bytes]

theorem read_of_slice {m : Bytes} {a : ℕ} {x : In6Addr} (h : m.slice a 16 = x.bytes) :
    read m a = x := by
  have hs : m.slice a x.bytes.length = x.bytes := by rwa [length_bytes]
  simp only [bytes, Memory.slice_append_iff] at hs
  simp only [List.length_append, length_be32] at hs
  obtain ⟨⟨⟨h0, h1⟩, h2⟩, h3⟩ := hs
  exact In6Addr.ext (Memory.load32_of_slice h0) (Memory.load32_of_slice h1)
    (Memory.load32_of_slice h2) (Memory.load32_of_slice h3)

end In6Addr

namespace Ipv6hdr

def bytes (h : Ipv6hdr) : List UInt8 :=
  [packNibbles h.version h.priority] ++ [h.flowLbl0] ++ [h.flowLbl1] ++ [h.flowLbl2]
    ++ be16 h.payloadLen ++ [h.nexthdr] ++ [h.hopLimit] ++ h.saddr.bytes ++ h.daddr.bytes

def read (m : Bytes) (a : ℕ) : Ipv6hdr where
  version := highNibble (m a)
  priority := lowNibble (m a)
  flowLbl0 := m (a + 1)
  flowLbl1 := m (a + 2)
  flowLbl2 := m (a + 3)
  payloadLen := m.load16 (a + 4)
  nexthdr := m (a + 6)
  hopLimit := m (a + 7)
  saddr := .read m (a + 8)
  daddr := .read m (a + 24)

@[simp] theorem length_bytes (h : Ipv6hdr) : h.bytes.length = 40 := by
  simp [bytes]

theorem read_of_slice {m : Bytes} {a : ℕ} {h : Ipv6hdr} (hs : m.slice a 40 = h.bytes) :
    read m a = h := by
  have hs' : m.slice a h.bytes.length = h.bytes := by rwa [length_bytes]
  simp only [bytes, Memory.slice_append_iff] at hs'
  simp only [List.length_append, length_be16, List.length_singleton, In6Addr.length_bytes] at hs'
  obtain ⟨⟨⟨⟨⟨⟨⟨⟨h0, h1⟩, h2⟩, h3⟩, h4⟩, h6⟩, h7⟩, h8⟩, h24⟩ := hs'
  refine Ipv6hdr.ext ?_ ?_ (Memory.eq_of_slice_one h1) (Memory.eq_of_slice_one h2)
    (Memory.eq_of_slice_one h3) (Memory.load16_of_slice h4) (Memory.eq_of_slice_one h6)
    (Memory.eq_of_slice_one h7) (In6Addr.read_of_slice h8) (In6Addr.read_of_slice h24)
  · rw [read, Memory.eq_of_slice_one h0, highNibble_packNibbles]
  · rw [read, Memory.eq_of_slice_one h0, lowNibble_packNibbles]

end Ipv6hdr

namespace FragHdr

def bytes (h : FragHdr) : List UInt8 :=
  [h.nexthdr] ++ [h.reserved] ++ be16 h.fragOff ++ be32 h.identification

def read (m : Bytes) (a : ℕ) : FragHdr where
  nexthdr := m a
  reserved := m (a + 1)
  fragOff := m.load16 (a + 2)
  identification := m.load32 (a + 4)

@[simp] theorem length_bytes (h : FragHdr) : h.bytes.length = 8 := by
  simp [bytes]

theorem read_of_slice {m : Bytes} {a : ℕ} {h : FragHdr} (hs : m.slice a 8 = h.bytes) :
    read m a = h := by
  have hs' : m.slice a h.bytes.length = h.bytes := by rwa [length_bytes]
  simp only [bytes, Memory.slice_append_iff] at hs'
  simp only [List.length_append, length_be16, List.length_singleton, length_be32] at hs'
  obtain ⟨⟨⟨h0, h1⟩, h2⟩, h4⟩ := hs'
  exact FragHdr.ext (Memory.eq_of_slice_one h0) (Memory.eq_of_slice_one h1)
    (Memory.load16_of_slice h2) (Memory.load32_of_slice h4)

end FragHdr

/-! ## The checksums of the kernel -/

theorem wordSum_be16 (x : UInt16) : wordSum (be16 x) = x.toNat := by
  have hx := x.toNat_lt
  have hbytes : be16 x = [.ofNat (x.toNat / 256), .ofNat x.toNat] := rfl
  rw [hbytes, wordSum, wordSum, UInt8.toNat_ofNat', UInt8.toNat_ofNat']
  omega

theorem wordSum_blit_field (m : Bytes) (b : ℕ) {k n : ℕ} (hk : 2 ∣ k) (hn : k + 2 ≤ n)
    (check : UInt16) : wordSum ((m.blit (b + k) (be16 check)).slice b n)
    = wordSum ((m.blit (b + k) (be16 0)).slice b n) + check.toNat := by
  obtain ⟨j, rfl⟩ := Nat.exists_eq_add_of_le hn
  have hsum (x : UInt16) : wordSum ((m.blit (b + k) (be16 x)).slice b (k + 2 + j))
      = wordSum (m.slice b k) + x.toNat + wordSum (m.slice (b + (k + 2)) j) := by
    have hfield : (m.blit (b + k) (be16 x)).slice (b + k) 2 = be16 x := Memory.slice_blit_self ..
    rw [Memory.slice_add, Memory.slice_add, hfield, Memory.slice_blit_of_disjoint _ (by omega),
      Memory.slice_blit_of_disjoint _ (by rw [length_be16]; omega),
      wordSum_append (by rw [List.length_append, Memory.length_slice, length_be16]; omega),
      wordSum_append (by rwa [Memory.length_slice]), wordSum_be16]
  rw [hsum, hsum]
  exact Nat.add_right_comm ..

def csumPartial (bytes : List UInt8) (csum : ℕ) : ℕ := wordSum bytes + csum

def csumIpv6Magic (saddr daddr : In6Addr) (len : ℕ) (proto : UInt8) (csum : ℕ) : UInt16 :=
  csumFold (wordSum saddr.bytes + wordSum daddr.bytes + len / 0x10000 + len % 0x10000
    + proto.toNat + csum)

/-! ## Numbers of the protocols -/

namespace Siit

def ipDf : UInt16 := 0x4000
def ipMf : UInt16 := 0x2000
def ipOffset : UInt16 := 0x1fff

def ipprotoIcmp : UInt8 := 1
def ipprotoTcp : UInt8 := 6
def ipprotoUdp : UInt8 := 17
def ipprotoIcmpv6 : UInt8 := 58

def nexthdrHop : UInt8 := 0
def nexthdrTcp : UInt8 := 6
def nexthdrUdp : UInt8 := 17
def nexthdrRouting : UInt8 := 43
def nexthdrFragment : UInt8 := 44
def nexthdrIcmp : UInt8 := 58
def nexthdrNone : UInt8 := 59
def nexthdrDest : UInt8 := 60

def translatedPrefix : UInt32 := 0x0000ffff

def mappedPrefix : UInt32 := 0x0000ffff

def ip4Ip6HdrDiff : ℕ := 20

inductive Refused where
  /-- The function returns -1. -/
  | dropped
  /-- It copies or sums a negative number of bytes. -/
  | fault
  /-- A signed number passes the end of its range. -/
  | overflow
deriving DecidableEq

def memcpy (dst : Bytes) (b : ℕ) (src : Bytes) (a : ℕ) (n : ℤ) : Except Refused Bytes :=
  if n < 0 then .error .fault else .ok (dst.blit b (src.slice a n.toNat))

theorem memcpy_of_nonneg (dst : Bytes) (b : ℕ) (src : Bytes) (a : ℕ) (n : ℕ) :
    memcpy dst b src a n = .ok (dst.blit b (src.slice a n)) := by
  rw [memcpy, if_neg (by omega), Int.toNat_natCast]

end Siit
