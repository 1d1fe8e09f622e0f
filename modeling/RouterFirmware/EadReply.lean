import RouterFirmware.SiitPacket

/-!
# The packets the EAD server sends

`ead_send_packet_clone` turns the headers of the received packet round and computes both checksums
with an accumulator of 16 bits, which takes its carry back at once.
-/

namespace Ead

open List Nat UInt16

def addWord (sum t : UInt16) : UInt16 := if sum + t < t then sum + t + 1 else sum + t

def chksum (sum : UInt16) : List UInt8 → UInt16
  | [] => sum
  | [b] => addWord sum (.ofNat (b.toNat <<< 8))
  | b :: c :: bs => chksum (addWord sum (.ofNat (b.toNat <<< 8 + c.toNat))) bs

def field (sum : UInt16) : UInt16 := ~~~(if sum = 0 then 0xffff else sum)

/-- The Ethernet header, the IPv4 header and the UDP datagram of a packet. -/
structure Packet where
  eh : List UInt8
  ip : List UInt8
  udp : List UInt8

/-- Checksums and lengths are right: the sum of the IPv4 header, that of the UDP pseudo-header and
datagram, and the lengths in both headers. -/
structure Packet.Right (p : Packet) : Prop where
  ipSum : endAround (wordSum p.ip) = 0xffff
  udpSum : endAround (wordSum (p.ip.drop 12 ++ [0, 17] ++ (p.udp.drop 4).take 2 ++ p.udp)) = 0xffff
  ipLength : p.ip.length = 20
  len : wordSum ((p.ip.drop 2).take 2) = (p.ip ++ p.udp).length
  udplen : wordSum ((p.udp.drop 4).take 2) = p.udp.length

section Reply

variable (ethmac : List UInt8) (pkt pktbuf : Bytes)

def len : UInt16 := .ofNat (62 - 14 + (pktbuf.load32 4).toNat)

def addrs : List UInt8 := pkt.slice 58 4 ++ pkt.slice 26 4

def ipHeader (sum : UInt16) : List UInt8 :=
  pkt.slice 14 2 ++ be16 (len pktbuf) ++ pkt.slice 18 6 ++ be16 sum ++ addrs pkt

def datagram (sum : UInt16) : List UInt8 :=
  pkt.slice 36 2 ++ pkt.slice 34 2 ++ be16 (len pktbuf - 20) ++ be16 sum ++
    pktbuf.slice 0 (20 + (pktbuf.load32 4).toNat)

def eadSendPacketClone : Packet where
  eh := pkt.slice 6 6 ++ ethmac ++ pkt.slice 12 2
  ip := ipHeader pkt pktbuf (field (chksum 0 (ipHeader pkt pktbuf 0)))
  udp := datagram pkt pktbuf (field (chksum (chksum (len pktbuf - 20 + 17) (addrs pkt))
    ((datagram pkt pktbuf 0).take (len pktbuf - 20).toNat)))

end Reply

variable {sum : UInt16} {n : ℕ} (h : sum.toNat = endAround n)

include h

theorem toNat_addWord {t : ℕ} (ht : t ≤ 0xffff) :
    (addWord sum (.ofNat t)).toNat = endAround (n + t) := by
  have hs := endAround_le n
  have hword : (UInt16.ofNat t).toNat = t := toNat_ofNat_of_lt' (lt_succ_of_le ht)
  rw [endAround_add _ ht]
  simp only [addWord, lt_iff_toNat_lt, apply_ite UInt16.toNat, UInt16.toNat_add, hword, h,
    toNat_one]
  split_ifs <;> omega

theorem toNat_chksum (bs : List UInt8) : (chksum sum bs).toNat = endAround (n + wordSum bs) := by
  induction bs using wordSum.induct generalizing sum n with
  | case1 => exact h
  | case2 b =>
    have hb := b.toNat_lt
    rw [chksum, shiftLeft_eq]
    exact toNat_addWord h (by omega)
  | case3 b c bs ih =>
    have hb := b.toNat_lt
    have hc := c.toNat_lt
    rw [chksum, wordSum, ← Nat.add_assoc, shiftLeft_eq]
    exact ih (toNat_addWord h (by omega))

/-- The field completes a sum that is not zero. -/
theorem endAround_field (hn : n ≠ 0) : endAround (n + (field sum).toNat) = 0xffff := by
  have hle := endAround_le n
  have hpos : 0 < endAround n := by
    rw [endAround, if_neg hn]
    exact succ_pos _
  have hne : sum ≠ 0 := fun hz => hpos.ne (by rw [← h, hz]; rfl)
  have hfield : (field sum).toNat = 0xffff - sum.toNat := by
    rw [field, if_neg hne, UInt16.toNat_not]
    rfl
  rw [hfield, endAround_add _ (Nat.sub_le ..), h, if_neg (by omega)]
  omega

omit h

theorem wordSum_field {a : List UInt8} (ha : 2 ∣ a.length) (c : UInt16) (b : List UInt8) :
    wordSum (a ++ be16 c ++ b) = wordSum (a ++ be16 0 ++ b) + c.toNat := by
  rw [wordSum_append (by simp [ha]), wordSum_append ha, wordSum_append (by simp [ha]),
    wordSum_append ha, wordSum_be16, wordSum_be16]
  show _ = _ + 0 + _ + _
  omega

theorem take_drop_field {a b : List UInt8} {k : ℕ} (ha : a.length = k) (hb : b.length = 2)
    (c : List UInt8) : ((a ++ b ++ c).drop k).take 2 = b := by
  rw [append_assoc, drop_left' ha, take_left' hb]

section Reply

variable (pkt : Bytes) {pktbuf : Bytes} (hlen : 28 + (pktbuf.load32 4).toNat ≤ 65000)

theorem ipSum_reply (hvhl : pkt 14 = 0x45) : endAround (wordSum
    (ipHeader pkt pktbuf (field (chksum 0 (ipHeader pkt pktbuf 0))))) = 0xffff := by
  have hslice : pkt.slice 14 2 = [0x45, pkt 15] := hvhl ▸ rfl
  rw [ipHeader, wordSum_field (by simp), ← ipHeader]
  refine endAround_field ?_ ?_
  · rw [toNat_chksum (n := 0) rfl, Nat.zero_add]
  · simp [ipHeader, hslice, wordSum]

theorem length_datagram (sum : UInt16) :
    (datagram pkt pktbuf sum).length = 28 + (pktbuf.load32 4).toNat := by
  simp [datagram]
  omega

include hlen

theorem toNat_len : (len pktbuf).toNat = 48 + (pktbuf.load32 4).toNat :=
  toNat_ofNat_of_lt' (show _ < 65536 by omega)

theorem toNat_udplen : (len pktbuf - 20).toNat = 28 + (pktbuf.load32 4).toNat := by
  have h16 := toNat_len hlen
  rw [UInt16.toNat_sub_of_le _ _ (le_iff_toNat_le.mpr ?_), h16]
  · show 48 + _ - 20 = _
    omega
  · show 20 ≤ _
    omega

theorem udpSum_reply : endAround (wordSum (addrs pkt ++ [0, 17] ++ be16 (len pktbuf - 20) ++
    datagram pkt pktbuf (field (chksum (chksum (len pktbuf - 20 + 17) (addrs pkt))
      ((datagram pkt pktbuf 0).take (len pktbuf - 20).toNat))))) = 0xffff := by
  have hulen := toNat_udplen hlen
  have hseed : (len pktbuf - 20 + 17).toNat = endAround (28 + (pktbuf.load32 4).toNat + 17) := by
    rw [UInt16.toNat_add, hulen, endAround, if_neg (by omega)]
    show (_ + 17) % 65536 = _
    omega
  have hsum := endAround_field (toNat_chksum (toNat_chksum hseed (addrs pkt))
    (datagram pkt pktbuf 0)) (by omega)
  have heven : 2 ∣ (addrs pkt).length := by simp [addrs]
  rw [take_of_length_le (by rw [length_datagram, hulen]), wordSum_append (by simp [heven]),
    wordSum_append (by simp [heven]), wordSum_append heven, wordSum_be16, hulen, datagram,
    wordSum_field (by simp), ← datagram]
  refine Eq.trans (congrArg endAround ?_) hsum
  show _ + 17 + _ + _ = _
  omega

end Reply

/-- **Every reply is right** – an IPv4 header of 20 bytes makes no sum zero, for which the
complement of `0xffff` would be written. -/
theorem eadSendPacketClone_right (ethmac : List UInt8) (pkt pktbuf : Bytes)
    (hvhl : pkt 14 = 0x45) (hlen : 28 + (pktbuf.load32 4).toNat ≤ 65000) :
    (eadSendPacketClone ethmac pkt pktbuf).Right ∧
      34 + (eadSendPacketClone ethmac pkt pktbuf).udp.length
        = 62 + (pktbuf.load32 4).toNat := by
  have hip (sum) : (ipHeader pkt pktbuf sum).length = 20 := by simp [ipHeader, addrs]
  have haddrs (sum) : (ipHeader pkt pktbuf sum).drop 12 = addrs pkt := drop_left' (by simp)
  have hlen16 (sum) : ((ipHeader pkt pktbuf sum).drop 2).take 2 = be16 (len pktbuf) := by
    rw [ipHeader, append_assoc, append_assoc]
    exact take_drop_field (by simp) (length_be16 _) _
  have hudplen (sum) : ((datagram pkt pktbuf sum).drop 4).take 2 = be16 (len pktbuf - 20) := by
    rw [datagram, append_assoc]
    exact take_drop_field (by simp) (length_be16 _) _
  refine ⟨⟨ipSum_reply pkt hvhl, ?_, hip _, ?_, ?_⟩, ?_⟩ <;> rw [eadSendPacketClone]
  · rw [haddrs, hudplen]
    exact udpSum_reply pkt hlen
  · rw [hlen16, wordSum_be16, toNat_len hlen, length_append, hip, length_datagram]
    omega
  · rw [hudplen, wordSum_be16, toNat_udplen hlen, length_datagram]
  · rw [length_datagram]
    omega

def countingPacket : Bytes := fun i => if i = 14 then 0x45 else UInt8.ofNat i

def fiveBytes : Bytes :=
  Memory.blit (fun _ => 0) 0
    [0x45, 0x41, 0x44, 0x21, 0, 0, 0, 5, 0, 0, 0, 7, 0, 0, 0, 9, 0, 0, 0, 3, 1, 2, 3, 4, 5]

/-- **A reply with an odd number of bytes.** -/
theorem eadSendPacketClone_right_odd :
    (eadSendPacketClone [0, 0x13, 0x37, 1, 2, 3] countingPacket fiveBytes).Right
      ∧ (eadSendPacketClone [0, 0x13, 0x37, 1, 2, 3] countingPacket fiveBytes).udp.length = 33 := by
  have hload : (fiveBytes.load32 4).toNat = 5 := by decide
  obtain ⟨hright, hlen⟩ :=
    eadSendPacketClone_right [0, 0x13, 0x37, 1, 2, 3] countingPacket fiveBytes
    rfl (by rw [hload]; decide)
  rw [hload] at hlen
  exact ⟨hright, by omega⟩

end Ead
