import RouterFirmware.SiitChecksum

/-!
# UDP without a checksum

A UDP datagram over IPv4 may do without a checksum, which is then zero; over
IPv6 it may not.
-/

namespace Siit

open Iphdr Memory

/-- The sum of the IPv4 pseudo-header and the datagram. -/
def udpSum (src : Bytes) (s : ℕ) : ℕ :=
  wordSum (be32 (read src s).saddr) + wordSum (be32 (read src s).daddr)
    + segLen4 src s + ipprotoUdp.toNat
    + wordSum (src.slice (s + (read src s).ihl.val * 4) (segLen4 src s))

theorem plenOf_sub (ih4 : Iphdr) (hihl : ih4.ihl.val * 4 ≤ ih4.totLen.toNat) :
    if frFlag false ih4 ∧ 65528 ≤ ih4.totLen.toNat then
      plenOf false ih4 - (if frFlag false ih4 then 8 else 0) < 0
    else
      plenOf false ih4 - (if frFlag false ih4 then 8 else 0)
        = (ih4.totLen.toNat - ih4.ihl.val * 4 : ℕ) := by
  have hlt := ih4.totLen.toNat_lt
  have hsum : (ih4.totLen + 8).toNat = (ih4.totLen.toNat + 8) % 65536 := UInt16.toNat_add ..
  unfold plenOf
  cases frFlag false ih4
  · simp only [Bool.false_eq_true, false_and, if_false]
    omega
  · simp only [true_and, if_true, hsum]
    split <;> omega

theorem ip4Ip6_of_zero {src : Bytes} {s len : ℕ} (tosIgnoreFlag : Bool)
    (h : Transport4 src s len) (hudp : (read src s).protocol = ipprotoUdp)
    (hzero : src.load16 (s + (read src s).ihl.val * 4 + 6) = 0) (dst : Bytes) (d : ℕ)
    {copy : Bytes} {udpLen : ℤ}
    (hcopy : copy = ((headers6 tosIgnoreFlag false (read src s) dst d).blit
      (d + 40 + fragLen false (read src s))
        (src.slice (s + (read src s).ihl.val * 4) (len - (read src s).ihl.val * 4))).blit
          (d + 40 + fragLen false (read src s) + 6) (be16 0))
    (hlen : udpLen = plenOf false (read src s) - if frFlag false (read src s) then 8 else 0) :
    ip4Ip6 tosIgnoreFlag false src s len dst d
      = if udpLen < 0 then .error .fault
        else .ok (copy.blit (d + 40 + fragLen false (read src s) + 6)
          (be16 (csumIpv6Magic (embed translatedPrefix (read src s).saddr)
            (embed translatedPrefix (read src s).daddr) udpLen.toNat ipprotoUdp
            (wordSum (copy.slice (d + 40 + fragLen false (read src s)) udpLen.toNat))))) := by
  have hheader := h.header
  have hwhole := h.whole
  have hleft : (len : ℤ) - ((read src s).ihl.val * 4 : ℕ)
      = (len - (read src s).ihl.val * 4 : ℕ) := by omega
  show ip4Ip6Body tosIgnoreFlag (ip4Ip6 tosIgnoreFlag true) false src s len dst d = _
  rw [ip4Ip6Body]
  simp only [hleft]
  rw [if_neg (by rw [hudp]; decide), if_neg (by rw [hudp]; decide), if_pos hudp, ip4Ip6Udp,
    memcpy_of_nonneg]
  dsimp only
  rw [if_neg fun hmore => hmore.2.1 h.more, hcopy, hlen]
  exact if_pos ⟨h.offset, not_not.mpr h.more, hzero, Bool.false_ne_true⟩

theorem ip4Ip6_zeroChecksum {src : Bytes} {s len : ℕ} (tosIgnoreFlag : Bool)
    (h : Transport4 src s len) (hudp : (read src s).protocol = ipprotoUdp)
    (hzero : src.load16 (s + (read src s).ihl.val * 4 + 6) = 0)
    (hfits : ¬ (frFlag false (read src s) ∧ 65528 ≤ (read src s).totLen.toNat))
    (dst : Bytes) (d : ℕ) : ∃ out, ip4Ip6 tosIgnoreFlag false src s len dst d = .ok out
    ∧ out.load16 (d + 40 + fragLen false (read src s) + 6) = csumFold (udpSum src s)
    ∧ ChecksumValid6 out d (40 + fragLen false (read src s)) ipprotoUdp := by
  have hheader := h.header
  have hwhole := h.whole
  have hlt := (read src s).totLen.toNat_lt
  have hmin : transportHdrLen (read src s).protocol = 8 := by rw [hudp]; rfl
  have hseg : segLen4 src s = (read src s).totLen.toNat - (read src s).ihl.val * 4 := rfl
  have hudpLen := plenOf_sub (read src s) (by omega)
  rw [if_neg hfits, ← hseg] at hudpLen
  -- what is copied, with a checksum of zero
  obtain ⟨copy, hcopy⟩ : ∃ copy, copy = (headers6 tosIgnoreFlag false (read src s) dst d).blit
    (d + 40 + fragLen false (read src s)) (src.slice (s + (read src s).ihl.val * 4)
    (len - (read src s).ihl.val * 4)) := ⟨_, rfl⟩
  have hbytes : copy.slice (d + 40 + fragLen false (read src s)) (segLen4 src s)
      = src.slice (s + (read src s).ihl.val * 4) (segLen4 src s) := by
    rw [hcopy]
    exact slice_eq_of_le (slice_blit_slice ..) (by omega)
  have hblank : copy.blit (d + 40 + fragLen false (read src s) + 6) (be16 0) = copy := by
    have hfield : copy.slice (d + 40 + fragLen false (read src s) + 6) 2 = be16 0 := by
      have hdrop := congrArg (List.drop 6) hbytes
      rw [drop_slice _ _ (by omega), drop_slice _ _ (by omega)] at hdrop
      rw [slice_eq_of_le hdrop (show 2 ≤ segLen4 src s - 6 by omega), ← be16_load16, hzero]
    rw [← hfield, blit_slice]
  have hheaded : Headed tosIgnoreFlag false (read src s) copy d :=
    hcopy.symm ▸ (headed_headers6 ..).blit le_rfl _
  have hmagic (csum : ℕ) := csumIpv6Magic_embed (read src s).saddr (read src s).daddr
    (show segLen4 src s < 0x10000 by omega) (.inr rfl) csum
  refine ⟨copy.blit (d + 40 + fragLen false (read src s) + 6)
    (be16 (csumFold (udpSum src s))), ?_, load16_blit_self .., ?_⟩
  · rw [ip4Ip6_of_zero tosIgnoreFlag h hudp hzero dst d (by rw [← hcopy, hblank] : copy = _)
      hudpLen.symm, if_neg (by omega), Int.toNat_natCast, hbytes, hmagic]
    rfl
  · have hread := Ipv6hdr.read_of_slice
      (hheaded.blit (Nat.le_add_right _ 6) (be16 (csumFold (udpSum src s)))).header
    have hpos : segLen6 (copy.blit (d + 40 + fragLen false (read src s) + 6)
        (be16 (csumFold (udpSum src s)))) d (40 + fragLen false (read src s))
          = segLen4 src s := by
      rw [segLen6, hread, payloadLen_ipv6hdrOf h.ihl (by omega)]
      omega
    rw [ChecksumValid6, hpos, hread, saddr_ipv6hdrOf, daddr_ipv6hdrOf, hmagic, ← Nat.add_assoc,
      wordSum_blit_field copy _ (by decide) (by omega), hblank, hbytes, csumTcpudpMagic,
      ← Nat.add_assoc]
    exact csumFold_add_csumFold (udpSum src s)

/-- **A zero checksum becomes a valid one** that is not zero if and only if the
sum is not a multiple of a word of ones, and the total length leaves room for
a fragment header where there is one. -/
theorem ip4Ip6_zeroChecksum_iff (tosIgnoreFlag : Bool) {src : Bytes} {s len : ℕ}
    (h : Transport4 src s len) (hudp : (read src s).protocol = ipprotoUdp)
    (hzero : src.load16 (s + (read src s).ihl.val * 4 + 6) = 0) (dst : Bytes) (d : ℕ) :
    (∃ out, ip4Ip6 tosIgnoreFlag false src s len dst d = .ok out
      ∧ out.load16 (d + 40 + fragLen false (read src s) + 6) ≠ 0
      ∧ ChecksumValid6 out d (40 + fragLen false (read src s)) ipprotoUdp)
    ↔ (frFlag false (read src s) → (read src s).totLen.toNat < 65528)
      ∧ ¬ 0xffff ∣ udpSum src s := by
  have hsum : udpSum src s ≠ 0 := by
    have hproto : ipprotoUdp.toNat = 17 := rfl
    unfold udpSum
    omega
  rw [← not_iff_not.mpr (csumFold_eq_zero_iff hsum)]
  by_cases hfits : frFlag false (read src s) ∧ 65528 ≤ (read src s).totLen.toNat
  · -- the length is negative, and there is no translation
    have hheader := h.header
    have hudpLen := plenOf_sub (read src s) (by omega)
    rw [if_pos hfits] at hudpLen
    refine iff_of_false ?_ fun hboth => absurd (hboth.1 hfits.1) (by omega)
    rintro ⟨out, hout, -⟩
    rw [ip4Ip6_of_zero tosIgnoreFlag h hudp hzero dst d rfl rfl, if_pos hudpLen] at hout
    cases hout
  · obtain ⟨out, hout, hcheck, hvalid⟩ := ip4Ip6_zeroChecksum tosIgnoreFlag h hudp hzero hfits dst d
    constructor
    · rintro ⟨out', hout', hne, -⟩
      cases hout.symm.trans hout'
      exact ⟨fun hfr => Nat.lt_of_not_le fun hle => hfits ⟨hfr, hle⟩, hcheck ▸ hne⟩
    · rintro ⟨-, hne⟩
      exact ⟨out, hout, hcheck ▸ hne, hvalid⟩

/-- A datagram of 10 bytes without a checksum. -/
def zeroPacket (word : UInt16) : Bytes := fun i =>
  ([0x45, 0, 0, 30, 0, 1, 0x40, 0, 64, 17, 0, 0, 10, 0, 0, 1, 192, 168, 0, 2,
    0x30, 0x39, 0, 53, 0, 10, 0, 0] ++ be16 word : List UInt8).getD i 0

theorem ip4Ip6_zeroPacket :
    ∃ out, ip4Ip6 false false (zeroPacket 1) 0 (30 : ℕ) (fun _ => 0) 0 = .ok out
      ∧ out.load16 46 ≠ 0 ∧ ChecksumValid6 out 0 40 ipprotoUdp :=
  (ip4Ip6_zeroChecksum_iff false
    (⟨.inr (by decide), by decide, by decide, by decide, by decide, by decide⟩ :
      Transport4 (zeroPacket 1) 0 30) (by decide) (by decide) (fun _ => 0) 0).mpr
    ⟨fun hfr => absurd hfr (by decide), by decide⟩

/-- The datagram whose sum is a word of ones: its checksum stays zero. -/
theorem ip4Ip6_zeroPacket_ones :
    ∃ out, ip4Ip6 false false (zeroPacket 0x4c1) 0 (30 : ℕ) (fun _ => 0) 0 = .ok out
      ∧ out.load16 46 = 0 := by
  obtain ⟨out, hout, hcheck, -⟩ := ip4Ip6_zeroChecksum false
    (⟨.inr (by decide), by decide, by decide, by decide, by decide, by decide⟩ :
    Transport4 (zeroPacket 0x4c1) 0 30) (by decide) (by decide) (by decide) (fun _ => 0) 0
  exact ⟨out, hout, hcheck.trans (by decide)⟩

end Siit
