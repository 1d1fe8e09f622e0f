import RouterFirmware.Fallible
import RouterFirmware.SiitChecksum

/-!
# The header that `ip6_ip4` writes

`ip6_ip4` keeps the length of the packet it builds twice: in `ntot_len`, which
starts from the payload length and is stored as the total length, and in
`real_len`, which starts from the length of the buffer and is returned.
-/

namespace Siit

open Fallible Iphdr

variable {out : Bytes} {d : ℕ}

theorem internetChecksum_withCheck (h : Iphdr) : internetChecksum h.withCheck.bytes = 0 := by
  obtain ⟨front, back, hfront, hbytes⟩ : ∃ front back, 2 ∣ front.length ∧ ∀ c,
      ({ h with check := c } : Iphdr).bytes = front ++ be16 c ++ back :=
      ⟨[packNibbles h.version h.ihl, h.tos] ++ be16 h.totLen ++ be16 h.id ++ be16 h.fragOff
      ++ [h.ttl, h.protocol], be32 h.saddr ++ be32 h.daddr, by simp, fun c => List.append_assoc ..⟩
  have hsum (c : UInt16) : wordSum ({ h with check := c } : Iphdr).bytes
      = wordSum front + c.toNat + wordSum back := by
    rw [hbytes, wordSum_append (by simpa using hfront), wordSum_append hfront, wordSum_be16]
  have hzero := hsum 0
  rw [UInt16.toNat_zero, Nat.add_zero] at hzero
  rw [internetChecksum, withCheck, hsum, internetChecksum, hzero, Nat.add_right_comm]
  exact csumFold_add_csumFold _

/-! ## What is written -/

structure HeaderRight (out : Bytes) (d : ℕ) (r : ℤ) : Prop where
  totLen : ((read out d).totLen.toNat : ℤ) = r
  ihl : (read out d).ihl = 5
  check : internetChecksum (out.slice d 20) = 0

theorem headerRight_of_slice {hdr : Iphdr} {n : ℕ} (h : out.slice d 20 = hdr.withCheck.bytes)
    (hihl : hdr.ihl = 5) (htot : hdr.totLen = .ofInt n) (hn : n < 65536) : HeaderRight out d n := by
  have hread : read out d = hdr.withCheck := read_of_slice h
  have htotLen : hdr.withCheck.totLen = hdr.totLen := by simp only [withCheck]
  have hihl' : hdr.withCheck.ihl = hdr.ihl := by simp only [withCheck]
  refine ⟨?_, ?_, ?_⟩
  · rw [hread, htotLen, htot, toNat_ofInt_natCast hn]
  · rw [hread, hihl', hihl]
  · rw [h]
    exact internetChecksum_withCheck hdr

theorem slice_setIcmpChecksum {dst : Bytes} {hdr : Iphdr} {b : ℕ}
    (h : setIcmpChecksum hdr dst b = .ok out) (hb : d + 20 ≤ b) :
    out.slice d 20 = dst.slice d 20 := by
  unfold setIcmpChecksum at h
  dsimp only at h
  split at h
  · cases h
  · cases h
    rw [Memory.slice_blit_of_disjoint _ (by omega), Memory.slice_blit_of_disjoint _ (by omega)]

theorem optsLen_of_included {src : Bytes} {s : ℕ} {tosIgnoreFlag : Bool} {host : ByteOrder}
    {dst : Bytes} {inner : Translator (ℤ × Bytes)} {k : ℕ} {opts : ℤ}
    (h : ip6Ip4Body tosIgnoreFlag host inner true src s k dst d = .ok (opts, out)) :
    0 ≤ opts ∧ 40 + opts ≤ k := by
  obtain ⟨w, hw, h⟩ := bind_ok.mp h
  have hopts : opts = w.optsLen := by
    simp only [if_true] at h
    split_ifs at h
    · cases h
      rfl
    · obtain ⟨p, -, h⟩ := bind_ok.mp h
      cases h
      rfl
    · obtain ⟨p, -, h⟩ := bind_ok.mp h
      cases h
      rfl
  have hinside := (chainEnd_of_ok hw).2
  have htotal := hinside.total
  have hnonneg := hinside.nonneg
  have hpos : w.pos = 40 + w.optsLen := rfl
  omega

theorem headerRight_of_finish {r : ℤ} (hdr : Iphdr) {m : Bytes} (hihl : hdr.ihl = 5)
    (htot : hdr.totLen = .ofInt r) (hpos : 0 ≤ r) (hlt : r < 65536)
    (h : setIcmpChecksum hdr (m.blit d hdr.withCheck.bytes) (d + 20) = .ok out) :
    HeaderRight out d r := by
  obtain ⟨k, rfl⟩ := Int.eq_ofNat_of_zero_le hpos
  refine headerRight_of_slice ?_ hihl htot (by omega)
  rw [slice_setIcmpChecksum h le_rfl, slice_blit_bytes]

theorem headerRight_of_icmp {src : Bytes} {host : ByteOrder} {dst : Bytes}
    {hdr : Iphdr} {n : ℕ} {inner : Translator (ℤ × Bytes)} {r : ℤ} {a : ℕ}
    (hihl : hdr.ihl = 5) (hn : n < 65516)
    (hinner : ∀ (k b : ℕ) (opts : ℤ) m m', inner src (a + 8) k m b = .ok (opts, m') →
      0 ≤ opts ∧ 40 + opts ≤ k)
    (h : ip6Ip4Icmp host inner false hdr (20 + n) src a n dst d = .ok (r, out)) :
    HeaderRight out d r := by
  unfold ip6Ip4Icmp at h
  dsimp only at h
  by_cases hshort : (n : ℤ) - 8 < 0
  · rw [if_pos hshort] at h
    cases h
  rw [if_neg hshort, if_neg (fun h => Bool.false_ne_true h.1)] at h
  obtain ⟨⟨m₁, icmperr⟩, -, h⟩ := bind_ok.mp h
  have hne : (20 : ℤ) + n ≠ 0 := by omega
  have hreal : (20 : ℤ) + ((n : ℤ) - 8 + 8) = 20 + n := by omega
  simp only [hne, if_false, hreal] at h
  split_ifs at h
  · obtain ⟨⟨opts, m⟩, hopts, h⟩ := bind_ok.mp h
    obtain ⟨_, hpure, h⟩ := bind_ok.mp h
    cases hpure
    obtain ⟨m', hm', h⟩ := bind_ok.mp h
    cases h
    rw [show (n : ℤ) - 8 = (n - 8 : ℕ) by omega] at hopts
    have := hinner _ _ _ _ _ hopts
    refine headerRight_of_finish { hdr with protocol := ipprotoIcmp, totLen := _ } hihl rfl
      ?_ ?_ hm' <;> simp only [Option.getD_some, ip4Ip6HdrDiff] <;> omega
  · obtain ⟨m, -, h⟩ := bind_ok.mp h
    obtain ⟨_, hpure, h⟩ := bind_ok.mp h
    cases hpure
    obtain ⟨m', hm', h⟩ := bind_ok.mp h
    cases h
    exact headerRight_of_finish { hdr with protocol := ipprotoIcmp, totLen := _ } hihl rfl
      (by simp; omega) (by simp; omega) hm'
  · obtain ⟨_, hpure, h⟩ := bind_ok.mp h
    cases hpure
    obtain ⟨m', hm', h⟩ := bind_ok.mp h
    cases h
    exact headerRight_of_finish { hdr with protocol := ipprotoIcmp, totLen := _ } hihl rfl
      (by simp; omega) (by simp; omega) hm'

/-- **The header that is written is right**, for every packet whose payload
length is right. -/
theorem ip6Ip4_header (tosIgnoreFlag : Bool) (host : ByteOrder) {src dst out : Bytes}
    {s len d : ℕ} {r : ℤ} (hlen : len ≤ 2048) (hpos : 40 < len)
    (hpayload : (Ipv6hdr.read src s).payloadLen.toNat = len - 40)
    (h : ip6Ip4 tosIgnoreFlag host false src s len dst d = .ok (r, out)) : HeaderRight out d r := by
  obtain ⟨w, hw, h⟩ := bind_ok.mp h
  have hinside := (chainEnd_of_ok hw).2
  have htotal := hinside.total
  have hwpos : w.pos = 40 + w.optsLen := rfl
  obtain ⟨n, hn⟩ := Int.eq_ofNat_of_zero_le hinside.nonneg
  have hntot : ntotLenOf (Ipv6hdr.read src s) w = 20 + n := by
    have hne : (Ipv6hdr.read src s).payloadLen ≠ 0 := by
      intro hzero
      rw [hzero, UInt16.toNat_zero] at hpayload
      omega
    rw [ntotLenOf, if_neg hne, hpayload, ip4Ip6HdrDiff]
    omega
  have hright {m : Bytes} (hm : m.slice d 20
      = (iphdrOf tosIgnoreFlag (Ipv6hdr.read src s) w).withCheck.bytes) :
      HeaderRight m d ((20 + n : ℕ) : ℤ) := by
    refine headerRight_of_slice hm rfl ?_ (by omega)
    exact congrArg UInt16.ofInt (hntot.trans (by omega))
  dsimp only at h
  rw [hn, hntot] at h
  by_cases hleft : (n : ℤ) ≤ 0
  · rw [if_pos hleft] at h
    cases h
    rw [if_neg Bool.false_ne_true, show (20 : ℤ) = (20 + n : ℕ) by omega]
    exact hright (slice_blit_bytes ..)
  rw [if_neg hleft] at h
  by_cases hicmp : w.nextHdr = nexthdrIcmp
  · rw [if_pos hicmp] at h
    obtain ⟨⟨realLen, m⟩, hdata, h⟩ := bind_ok.mp h
    cases h
    exact headerRight_of_icmp rfl (by omega) (fun _ _ _ _ _ => optsLen_of_included) hdata
  · rw [if_neg hicmp, memcpy_of_nonneg] at h
    cases h
    rw [if_neg Bool.false_ne_true, show (20 : ℤ) + n = (20 + n : ℕ) by omega]
    refine hright ?_
    rw [Memory.slice_blit_of_disjoint _ (by omega), slice_blit_bytes]

/-- A datagram is well formed, and gets a header of 28 bytes. -/
theorem ip6Ip4_header_udpPacket : ∃ out,
    ip6Ip4 false .big false (udpPacket 0 0) 0 48 (fun _ => 0) 0 = .ok (28, out)
      ∧ HeaderRight out 0 28 := by
  have ht : Transport6 (udpPacket 0 0) 0 48 40 ipprotoUdp :=
    ⟨.inr rfl, .first (by decide) (by decide), by decide, by decide⟩
  obtain ⟨w, -, -, heq⟩ := ip6Ip4_of_transport6 ht ⟨by decide, by decide⟩
  exact ⟨_, heq, ip6Ip4_header false .big (by decide) (by decide) (by decide) heq⟩

end Siit
