import RouterFirmware.SiitRoundTrip

/-!
# Transport checksums across the translation

TCP and UDP sum their segment together with a pseudo-header: the addresses, the
length of the segment and the protocol.
-/

namespace Siit

open Ipv6hdr Iphdr Memory UInt16

/-! ## The checksum of a segment -/

def csumTcpudpMagic (saddr daddr : UInt32) (len : ℕ) (proto : UInt8) (csum : ℕ) : UInt16 :=
  csumFold (wordSum (be32 saddr) + wordSum (be32 daddr) + len + proto.toNat + csum)

def transportHdrLen (proto : UInt8) : ℕ := if proto = ipprotoTcp then 20 else 8

theorem transportHdrLen_pos (proto : UInt8) : 0 < transportHdrLen proto := by
  rw [transportHdrLen]
  split <;> decide

/-- **The IPv4 packet of `len` bytes at `s` is a whole segment** of TCP or
UDP. -/
structure Transport4 (src : Bytes) (s len : ℕ) : Prop where
  tcpOrUdp : (Iphdr.read src s).protocol = ipprotoTcp ∨ (Iphdr.read src s).protocol = ipprotoUdp
  ihl : 5 ≤ (Iphdr.read src s).ihl.val
  header : (Iphdr.read src s).ihl.val * 4 + transportHdrLen (Iphdr.read src s).protocol
    ≤ (Iphdr.read src s).totLen.toNat
  whole : (Iphdr.read src s).totLen.toNat ≤ len
  offset : (Iphdr.read src s).fragOff &&& ipOffset = 0
  more : (Iphdr.read src s).fragOff &&& ipMf = 0

def segLen4 (src : Bytes) (s : ℕ) : ℕ :=
  (Iphdr.read src s).totLen.toNat - (Iphdr.read src s).ihl.val * 4

def ChecksumValid4 (src : Bytes) (s : ℕ) : Prop :=
  (Iphdr.read src s).ihl.val * 4 ≤ (Iphdr.read src s).totLen.toNat
  ∧ csumTcpudpMagic (Iphdr.read src s).saddr (Iphdr.read src s).daddr (segLen4 src s)
      (Iphdr.read src s).protocol
      (wordSum (src.slice (s + (Iphdr.read src s).ihl.val * 4) (segLen4 src s))) = 0

/-- **The IPv6 packet of `len` bytes at `s` has a segment** of TCP or UDP. -/
structure Transport6 (src : Bytes) (s len pos : ℕ) (proto : UInt8) : Prop where
  tcpOrUdp : proto = ipprotoTcp ∨ proto = ipprotoUdp
  chain : HeaderAt src s len pos proto
  header : pos + transportHdrLen proto ≤ 40 + (Ipv6hdr.read src s).payloadLen.toNat
  whole : 40 + (Ipv6hdr.read src s).payloadLen.toNat ≤ len

def Unfragmented6 (src : Bytes) (s len : ℕ) : Prop :=
  ∀ pos, HeaderAt src s len pos nexthdrFragment
    → (FragHdr.read src (s + pos)).fragOff &&& 0xfff9 = 0

def segLen6 (src : Bytes) (s pos : ℕ) : ℕ :=
  40 + (Ipv6hdr.read src s).payloadLen.toNat - pos

def ChecksumValid6 (src : Bytes) (s pos : ℕ) (proto : UInt8) : Prop :=
  csumIpv6Magic (Ipv6hdr.read src s).saddr (Ipv6hdr.read src s).daddr (segLen6 src s pos) proto
    (wordSum (src.slice (s + pos) (segLen6 src s pos))) = 0

theorem wordSum_embed (addr : UInt32) :
    wordSum (embed translatedPrefix addr).bytes = 0xffff + wordSum (be32 addr) := by
  have hzero : wordSum (be32 0) = 0 := by decide
  have hones : wordSum (be32 translatedPrefix) = 0xffff := by decide
  simp only [embed, In6Addr.bytes]
  rw [wordSum_append (by simp), wordSum_append (by simp), wordSum_append (by simp), hzero, hones]

variable {proto : UInt8} {src : Bytes} {s len : ℕ} {tosIgnoreFlag includeFlag : Bool}
  {dst : Bytes} {d : ℕ} {host : ByteOrder} {n : ℤ} {pos : ℕ}
  (hproto : (Ipv6hdr.read src s).nexthdr = ipprotoTcp ∨ (Ipv6hdr.read src s).nexthdr = ipprotoUdp)

theorem csumIpv6Magic_embed (saddr daddr : UInt32) {len : ℕ} (hlen : len < 0x10000)
    (hproto : proto = ipprotoTcp ∨ proto = ipprotoUdp) (csum : ℕ) :
    csumIpv6Magic (embed translatedPrefix saddr) (embed translatedPrefix daddr) len proto csum
      = csumTcpudpMagic saddr daddr len proto csum := by
  have hpos : 0 < proto.toNat := by
    rcases hproto with rfl | rfl <;> decide
  have hsum : 0xffff + wordSum (be32 saddr) + (0xffff + wordSum (be32 daddr)) + len / 0x10000
      + len % 0x10000 + proto.toNat + csum
      = 0xffff + (0xffff + (wordSum (be32 saddr) + wordSum (be32 daddr) + len + proto.toNat
        + csum)) := by
    omega
  rw [csumIpv6Magic, wordSum_embed, wordSum_embed, hsum, csumFold_add_ones (by omega),
    csumFold_add_ones (by omega), csumTcpudpMagic]

/-! ## `ip4_ip6` -/

def fragLen (includeFlag : Bool) (ih4 : Iphdr) : ℕ := if frFlag includeFlag ih4 then 8 else 0

/-- **The headers of the translated packet**. -/
structure Headed (tosIgnoreFlag includeFlag : Bool) (ih4 : Iphdr) (out : Bytes) (d : ℕ) :
    Prop where
  header : out.slice d 40 = (ipv6hdrOf tosIgnoreFlag includeFlag ih4).bytes
  fragment : frFlag includeFlag ih4 → out.slice (d + 40) 8 = (fragHdrOf ih4).bytes

variable (tosIgnoreFlag includeFlag) in
def headers6 (ih4 : Iphdr) (dst : Bytes) (d : ℕ) : Bytes :=
  (if frFlag includeFlag ih4 then dst.blit (d + 40) (fragHdrOf ih4).bytes else dst).blit d
    (ipv6hdrOf tosIgnoreFlag includeFlag ih4).bytes

theorem headed_headers6 (ih4 : Iphdr) (dst : Bytes) (d : ℕ) :
    Headed tosIgnoreFlag includeFlag ih4 (headers6 tosIgnoreFlag includeFlag ih4 dst d) d := by
  have hlen := (ipv6hdrOf tosIgnoreFlag includeFlag ih4).length_bytes
  have hfrag := (fragHdrOf ih4).length_bytes
  refine ⟨?_, fun hfr => ?_⟩
  · nth_rewrite 1 [headers6, ← hlen]
    exact slice_blit_self ..
  · rw [headers6, if_pos hfr, slice_blit_of_disjoint _ (by omega)]
    nth_rewrite 1 [← hfrag]
    exact slice_blit_self ..

variable {out : Bytes} (h : ip6Ip4 tosIgnoreFlag host false src s len dst d = .ok (n, out))

theorem Headed.blit {ih4 : Iphdr} {d b : ℕ} (h : Headed tosIgnoreFlag includeFlag ih4 out d)
    (hb : d + 40 + fragLen includeFlag ih4 ≤ b) (xs : List UInt8) :
    Headed tosIgnoreFlag includeFlag ih4 (out.blit b xs) d := by
  refine ⟨?_, fun hfr => ?_⟩
  · rw [slice_blit_of_disjoint _ (by omega)]
    exact h.header
  · rw [fragLen, if_pos hfr] at hb
    rw [slice_blit_of_disjoint _ (by omega)]
    exact h.fragment hfr

theorem ip4Ip6_segment (tosIgnoreFlag includeFlag : Bool) (h : Transport4 src s len)
    (hsum : (Iphdr.read src s).protocol = ipprotoUdp →
      src.load16 (s + (Iphdr.read src s).ihl.val * 4 + 6) ≠ 0)
    (dst : Bytes) (d : ℕ) : ∃ out, ip4Ip6 tosIgnoreFlag includeFlag src s len dst d = .ok out
    ∧ Headed tosIgnoreFlag includeFlag (read src s) out d
    ∧ out.slice (d + 40 + fragLen includeFlag (read src s)) (len - (Iphdr.read src s).ihl.val * 4)
      = src.slice (s + (Iphdr.read src s).ihl.val * 4)
        (len - (Iphdr.read src s).ihl.val * 4) := by
  have hheader := h.header
  have hwhole := h.whole
  have hleft : (len : ℤ) - ((Iphdr.read src s).ihl.val * 4 : ℕ)
      = (len - (Iphdr.read src s).ihl.val * 4 : ℕ) := by omega
  refine ⟨(headers6 tosIgnoreFlag includeFlag (read src s) dst d).blit
    (d + 40 + fragLen includeFlag (read src s))
    (src.slice (s + (Iphdr.read src s).ihl.val * 4) (len - (Iphdr.read src s).ihl.val * 4)), ?_,
    (headed_headers6 ..).blit le_rfl _, slice_blit_slice ..⟩
  have hbody : ∃ inner, ip4Ip6 tosIgnoreFlag includeFlag
      = ip4Ip6Body tosIgnoreFlag inner includeFlag := by
    cases includeFlag
    · exact ⟨_, rfl⟩
    · exact ⟨_, rfl⟩
  obtain ⟨inner, hbody⟩ := hbody
  rw [hbody, ip4Ip6Body]
  simp only [hleft]
  rcases h.tcpOrUdp with htcp | hudp
  · rw [if_neg (by rw [htcp]; decide), if_pos htcp, memcpy_of_nonneg]
    rfl
  · rw [if_neg (by rw [hudp]; decide), if_neg (by rw [hudp]; decide), if_pos hudp, ip4Ip6Udp,
      memcpy_of_nonneg]
    dsimp only
    rw [if_neg fun hzero => hsum hudp hzero.2.2]
    exact if_neg fun hzero => hsum hudp hzero.2.2.1

theorem payloadLen_ipv6hdrOf {ih4 : Iphdr} (hihl : 5 ≤ ih4.ihl.val)
    (hlen : ih4.ihl.val * 4 ≤ ih4.totLen.toNat) :
    (ipv6hdrOf tosIgnoreFlag includeFlag ih4).payloadLen.toNat
      = fragLen includeFlag ih4 + (ih4.totLen.toNat - ih4.ihl.val * 4) := by
  have hlt := ih4.totLen.toNat_lt
  have hmod : (ofInt (plenOf includeFlag ih4)).toNat
      = (plenOf includeFlag ih4 % 65536).toNat := by
    rw [ofInt]
    refine toNat_ofNat_of_lt' ?_
    show (plenOf includeFlag ih4 % 65536).toNat < 65536
    omega
  show (ofInt (plenOf includeFlag ih4)).toNat = _
  rw [hmod, plenOf, fragLen]
  cases frFlag includeFlag ih4
  · simp only [Bool.false_eq_true, if_false]
    omega
  · have hsum : (ih4.totLen + 8).toNat = (ih4.totLen.toNat + 8) % 65536 := by
      rw [UInt16.toNat_add]
      rfl
    simp only [if_true, hsum]
    omega

theorem saddr_ipv6hdrOf (ih4 : Iphdr) :
    (ipv6hdrOf tosIgnoreFlag includeFlag ih4).saddr = embed translatedPrefix ih4.saddr := by
  cases includeFlag <;> rfl

theorem daddr_ipv6hdrOf (ih4 : Iphdr) :
    (ipv6hdrOf tosIgnoreFlag includeFlag ih4).daddr = embed translatedPrefix ih4.daddr := by
  cases includeFlag <;> rfl

theorem Headed.headerAt {ih4 : Iphdr} {d len : ℕ} (h : Headed tosIgnoreFlag includeFlag ih4 out d)
    (hproto : ih4.protocol = ipprotoTcp ∨ ih4.protocol = ipprotoUdp)
    (hlen : 40 + fragLen includeFlag ih4 < len) :
    HeaderAt out d len (40 + fragLen includeFlag ih4) ih4.protocol := by
  have hicmp : ih4.protocol ≠ ipprotoIcmp := by
    rcases hproto with hproto | hproto <;> rw [hproto] <;> decide
  have hread := read_of_slice h.header
  by_cases hfr : frFlag includeFlag ih4 = true
  · have hfirst : (Ipv6hdr.read out d).nexthdr = nexthdrFragment := by
      rw [hread]
      exact if_pos hfr
    have hnext : out (d + 40) = ih4.protocol := by
      have hfrag := congrArg FragHdr.nexthdr (FragHdr.read_of_slice (h.fragment hfr))
      exact hfrag.trans (if_neg hicmp)
    rw [fragLen, if_pos hfr] at hlen ⊢
    have hat := HeaderAt.first (by rw [hfirst]; decide) (show 40 < len by omega)
    rw [hfirst] at hat
    have hext : extLen out d 40 nexthdrFragment = some 8 := by
      rw [extLen, if_neg (by decide), if_neg (fun hr => absurd hr.1 (by decide)), if_pos rfl]
    have hat' := hat.next hext hlen.le
    rwa [hnext] at hat'
  · have hfirst : (Ipv6hdr.read out d).nexthdr = ih4.protocol := by
      rw [hread]
      exact (if_neg hfr).trans (if_neg hicmp)
    rw [fragLen, if_neg hfr] at hlen ⊢
    have hhop : (Ipv6hdr.read out d).nexthdr ≠ nexthdrHop := by
      rw [hfirst]
      rcases hproto with hproto | hproto <;> rw [hproto] <;> decide
    have hat := HeaderAt.first hhop hlen
    rwa [hfirst] at hat

/-- **`ip4_ip6` keeps transport checksums valid**: a whole segment, of UDP
with a checksum, is translated to a segment whose checksum is valid under the
pseudo-header of the translated addresses. -/
theorem ip4Ip6_checksumValid (tosIgnoreFlag includeFlag : Bool) {src : Bytes} {s len : ℕ}
    (h : Transport4 src s len) (hsum : (Iphdr.read src s).protocol = ipprotoUdp
      → src.load16 (s + (Iphdr.read src s).ihl.val * 4 + 6) ≠ 0)
    (hvalid : ChecksumValid4 src s) (dst : Bytes) (d : ℕ) :
    ∃ out, ip4Ip6 tosIgnoreFlag includeFlag src s len dst d = .ok out
      ∧ ∃ pos, Transport6 out d (pos + (len - (Iphdr.read src s).ihl.val * 4)) pos
          (Iphdr.read src s).protocol
        ∧ ChecksumValid6 out d pos (Iphdr.read src s).protocol := by
  have hheader := h.header
  have hwhole := h.whole
  have hpos := transportHdrLen_pos (Iphdr.read src s).protocol
  obtain ⟨out, hout, hheaded, hcopy⟩ := ip4Ip6_segment tosIgnoreFlag includeFlag h hsum dst d
  have hpayload : (Ipv6hdr.read out d).payloadLen.toNat
      = fragLen includeFlag (read src s) + segLen4 src s := by
    rw [read_of_slice hheaded.header]
    exact payloadLen_ipv6hdrOf h.ihl (by omega)
  have hseg : segLen6 out d (40 + fragLen includeFlag (read src s)) = segLen4 src s := by
    rw [segLen6, hpayload]
    omega
  have hseg4 : segLen4 src s
      = (Iphdr.read src s).totLen.toNat - (Iphdr.read src s).ihl.val * 4 := rfl
  refine ⟨out, hout, 40 + fragLen includeFlag (read src s),
    ⟨h.tcpOrUdp, hheaded.headerAt h.tcpOrUdp (by omega), by omega, by omega⟩, ?_⟩
  -- what is copied begins with the segment
  have hbytes : out.slice (d + (40 + fragLen includeFlag (read src s))) (segLen4 src s)
      = src.slice (s + (Iphdr.read src s).ihl.val * 4) (segLen4 src s) := by
    rw [← Nat.add_assoc]
    exact Memory.slice_eq_of_le hcopy (by omega)
  have hlt := (Iphdr.read src s).totLen.toNat_lt
  rw [ChecksumValid6, hseg, hbytes, read_of_slice hheaded.header, saddr_ipv6hdrOf,
    daddr_ipv6hdrOf, csumIpv6Magic_embed _ _ (by omega) h.tcpOrUdp]
  exact hvalid.2

def tcpPacket : Bytes := fun i =>
  ([0x46, 0, 0, 46, 0, 1, 0, 0, 64, 6, 0, 0, 10, 0, 0, 1, 192, 168, 0, 2, 1, 1, 1, 0,
    0x30, 0x39, 0, 80, 0, 0, 0, 1, 0, 0, 0, 2, 0x50, 0x18, 0x10, 0, 0x43, 0x31, 0, 0,
    0x61, 0x62] : List UInt8).getD i 0

/-- Its checksum is valid on both sides. -/
theorem ip4Ip6_checksumValid_tcpPacket :
    ∃ out, ip4Ip6 false false tcpPacket 0 (46 : ℕ) (fun _ => 0) 0 = .ok out
      ∧ ∃ pos, Transport6 out 0 (pos + (46 - 24)) pos ipprotoTcp
        ∧ ChecksumValid6 out 0 pos ipprotoTcp :=
  ip4Ip6_checksumValid false false
    (⟨.inl (by decide), by decide, by decide, by decide, by decide, by decide⟩ :
      Transport4 tcpPacket 0 46)
    (fun h => absurd h (by decide)) ⟨by decide, by decide⟩ (fun _ => 0) 0

/-! ## `ip6_ip4` -/

include h

theorem addressed_of_ok : Addressed false src s := by
  by_contra ha
  have hbody : ip6Ip4 tosIgnoreFlag host false src s len dst d
      = ip6Ip4Body tosIgnoreFlag host (ip6Ip4 tosIgnoreFlag host true) false src s len dst d := rfl
  rw [hbody, ip6Ip4Body, ip6Headers_of_not_addressed ha] at h
  cases h

omit h in
theorem Transport6.exists_walk (h : Transport6 src s len pos proto)
    (ha : Addressed includeFlag src s) : ∃ w, w.pos = pos ∧ w.nextHdr = proto ∧ w.Inside len
    ∧ ip6Headers includeFlag src s len = .ok w := by
  obtain ⟨w, hpos, hnext, hinside, heq⟩ := h.chain.exists_walk ha
  refine ⟨w, hpos, hnext, hinside, heq.trans (walk_of_leave ?_)⟩
  rw [walkTurn, hnext]
  exact if_pos (.inr h.tcpOrUdp)

omit h in
theorem ip6Ip4_of_transport6 (ht : Transport6 src s len pos proto) (ha : Addressed false src s) :
    ∃ w, w.pos = pos ∧ w.nextHdr = proto
      ∧ ip6Ip4 tosIgnoreFlag host false src s len dst d = .ok (20 + (len - pos : ℕ),
          (dst.blit d (iphdrOf tosIgnoreFlag (read src s) w).withCheck.bytes).blit
            (d + 20) (src.slice (s + pos) (len - pos))) := by
  have hheader := ht.header
  have hwhole := ht.whole
  have hmin := transportHdrLen_pos proto
  obtain ⟨w, hpos, hnext, hinside, heq⟩ := ht.exists_walk ha
  have htotal := hinside.total
  have hdelta : w.lenDelta = (len - pos : ℕ) := by omega
  have hicmp : w.nextHdr ≠ nexthdrIcmp := by
    rw [hnext]
    rcases ht.tcpOrUdp with rfl | rfl <;> decide
  refine ⟨w, hpos, hnext, ?_⟩
  show ip6Ip4Body tosIgnoreFlag host (ip6Ip4 tosIgnoreFlag host true) false src s len dst d = _
  rw [ip6Ip4Body, heq]
  simp only [bind, Except.bind, if_neg hicmp]
  rw [if_neg (by omega), hdelta, hpos, memcpy_of_nonneg]
  rfl

theorem ip6Ip4_segment (ht : Transport6 src s len pos proto) : ∃ w, w.pos = pos ∧ w.nextHdr = proto
    ∧ out.slice d 20 = (iphdrOf tosIgnoreFlag (read src s) w).withCheck.bytes
    ∧ out.slice (d + 20) (len - pos) = src.slice (s + pos) (len - pos) := by
  obtain ⟨w, hpos, hnext, heq⟩ := ip6Ip4_of_transport6 ht (addressed_of_ok h)
  rw [heq] at h
  cases h
  refine ⟨w, hpos, hnext, ?_, slice_blit_slice ..⟩
  rw [slice_blit_of_disjoint _ (by omega)]
  exact slice_blit_bytes ..

omit h

def HasPrefix (x : In6Addr) : Prop := x.word0 = 0 ∧ x.word1 = 0 ∧ x.word2 = translatedPrefix

theorem HasPrefix.eq_embed {x : In6Addr} (h : HasPrefix x) : x = embed translatedPrefix x.word3 :=
  In6Addr.ext h.1 h.2.1 h.2.2 rfl

theorem totLen_iphdrOf {ip6Hdr : Ipv6hdr} {w : Walk} {n : ℕ} (hn : 0 < n)
    (hpos : w.pos + n = 40 + ip6Hdr.payloadLen.toNat) :
    (iphdrOf tosIgnoreFlag ip6Hdr w).totLen.toNat = (n + 20) % 65536 := by
  have hopts : w.pos = 40 + w.optsLen := rfl
  have hne : ip6Hdr.payloadLen ≠ 0 := by
    intro hzero
    rw [hzero] at hpos
    have : w.pos + n = 40 := hpos
    omega
  have hntot : ntotLenOf ip6Hdr w = (n + 20 : ℕ) := by
    rw [ntotLenOf, if_neg hne]
    show (ip6Hdr.payloadLen.toNat : ℤ) + (20 : ℕ) - w.optsLen = (n + 20 : ℕ)
    omega
  show (ofInt (ntotLenOf ip6Hdr w)).toNat = _
  rw [hntot, ofInt]
  have hmod : (((n + 20 : ℕ) : ℤ) % 2 ^ 16).toNat = (n + 20) % 65536 := by omega
  rw [hmod]
  exact toNat_ofNat_of_lt' (Nat.mod_lt _ (by decide))

theorem checksumValid4_iff (h : ip6Ip4 tosIgnoreFlag host false src s len dst d = .ok (n, out))
    (ht : Transport6 src s len pos proto) : ChecksumValid4 out d ↔ segLen6 src s pos ≤ 65515
    ∧ csumTcpudpMagic (Ipv6hdr.read src s).saddr.word3 (Ipv6hdr.read src s).daddr.word3
        (segLen6 src s pos) proto (wordSum (src.slice (s + pos) (segLen6 src s pos))) = 0 := by
  have hheader := ht.header
  have hwhole := ht.whole
  have hmin := transportHdrLen_pos proto
  have hlt := (Ipv6hdr.read src s).payloadLen.toNat_lt
  have hseg : segLen6 src s pos = 40 + (Ipv6hdr.read src s).payloadLen.toNat - pos := rfl
  obtain ⟨w, rfl, rfl, hbytes, hcopy⟩ := ip6Ip4_segment h ht
  have hread := read_of_slice hbytes
  have hopts : w.pos = 40 + w.optsLen := rfl
  have htot : (Iphdr.read out d).totLen.toNat = (segLen6 src s w.pos + 20) % 65536 := by
    have hkept : (Iphdr.read out d).totLen
        = (iphdrOf tosIgnoreFlag (read src s) w).totLen := by
      rw [hread]
      rfl
    rw [hkept]
    exact totLen_iphdrOf (by omega) (by omega)
  have hihl : (Iphdr.read out d).ihl.val * 4 = 20 := by
    rw [hread]
    rfl
  have hseg4 : segLen4 out d = (Iphdr.read out d).totLen.toNat - 20 := by rw [segLen4, hihl]
  by_cases hfits : segLen6 src s w.pos ≤ 65515
  · have hlen : segLen4 out d = segLen6 src s w.pos := by omega
    have hslice : out.slice (d + 20) (segLen6 src s w.pos)
        = src.slice (s + w.pos) (segLen6 src s w.pos) := slice_eq_of_le hcopy (by omega)
    rw [ChecksumValid4, and_iff_right (by omega), and_iff_right hfits, hihl, hlen, hslice, hread]
    rfl
  · -- the total length has wrapped around to less than a header
    refine ⟨fun hvalid => ?_, fun hvalid => absurd hvalid.1 hfits⟩
    have hle := hvalid.1
    omega

theorem checksumValid6_iff
    (hsrc : HasPrefix (Ipv6hdr.read src s).saddr) (hdst : HasPrefix (Ipv6hdr.read src s).daddr)
    (ht : Transport6 src s len pos proto) (hlen : segLen6 src s pos ≤ 65515) :
    ChecksumValid6 src s pos proto
      ↔ csumTcpudpMagic (Ipv6hdr.read src s).saddr.word3 (Ipv6hdr.read src s).daddr.word3
          (segLen6 src s pos) proto (wordSum (src.slice (s + pos) (segLen6 src s pos))) = 0 := by
  rw [ChecksumValid6, hsrc.eq_embed, hdst.eq_embed, csumIpv6Magic_embed _ _ (by omega) ht.tcpOrUdp]
  rfl

/-- **Which packets are translated rightly**: of those that `ip6_ip4` accepts,
the ones whose addresses begin with two words of zero, unless the segment in
them is too long for an IPv4 packet. -/
theorem ip6Ip4_translated_iff {tosIgnoreFlag : Bool} {host : ByteOrder} {src : Bytes}
    {s len : ℕ} {dst : Bytes} {d : ℕ} {n : ℤ} {out : Bytes}
    (h : ip6Ip4 tosIgnoreFlag host false src s len dst d = .ok (n, out)) :
    (HasPrefix (Ipv6hdr.read src s).saddr ∧ HasPrefix (Ipv6hdr.read src s).daddr
      ∧ ∀ pos proto, Transport6 src s len pos proto → Unfragmented6 src s len
        → ChecksumValid6 src s pos proto → ChecksumValid4 out d)
    ↔ ((Ipv6hdr.read src s).saddr.word0 = 0 ∧ (Ipv6hdr.read src s).saddr.word1 = 0)
      ∧ ((Ipv6hdr.read src s).daddr.word0 = 0 ∧ (Ipv6hdr.read src s).daddr.word1 = 0)
      ∧ ∀ pos proto, Transport6 src s len pos proto → Unfragmented6 src s len
        → ChecksumValid6 src s pos proto → segLen6 src s pos ≤ 65515 := by
  constructor
  · rintro ⟨hsrc, hdst, hkept⟩
    refine ⟨⟨hsrc.1, hsrc.2.1⟩, ⟨hdst.1, hdst.2.1⟩, fun pos proto ht hunfrag hvalid => ?_⟩
    exact ((checksumValid4_iff h ht).mp (hkept pos proto ht hunfrag hvalid)).1
  · rintro ⟨⟨hsrc0, hsrc1⟩, ⟨hdst0, hdst1⟩, hfits⟩
    obtain ⟨hsrc2, hdst2⟩ := addressed_of_ok h
    have hsrc : HasPrefix (Ipv6hdr.read src s).saddr := ⟨hsrc0, hsrc1, hsrc2⟩
    have hdst : HasPrefix (Ipv6hdr.read src s).daddr := ⟨hdst0, hdst1, hdst2⟩
    refine ⟨hsrc, hdst, fun pos proto ht hunfrag hvalid => ?_⟩
    have hle := hfits pos proto ht hunfrag hvalid
    exact (checksumValid4_iff h ht).mpr ⟨hle, (checksumValid6_iff hsrc hdst ht hle).mp hvalid⟩

theorem extLen_segment (hproto : proto = ipprotoTcp ∨ proto = ipprotoUdp)
    (pos : ℕ) : extLen src s pos proto = none := by
  have hdest : proto ≠ nexthdrDest := by rcases hproto with rfl | rfl <;> decide
  have hrouting : proto ≠ nexthdrRouting := by rcases hproto with rfl | rfl <;> decide
  have hfragment : proto ≠ nexthdrFragment := by rcases hproto with rfl | rfl <;> decide
  rw [extLen, if_neg hdest, if_neg (fun h => hrouting h.1), if_neg hfragment]

include hproto

theorem segment_of_headerAt {type : UInt8} (h : HeaderAt src s len pos type) :
    type = ipprotoTcp ∨ type = ipprotoUdp := by
  induction h with
  | first h hlen => exact hproto
  | hop h hlen =>
    rw [h] at hproto
    exact absurd hproto (by decide)
  | next h hext hlen ih =>
    rw [extLen_segment ih] at hext
    cases hext

theorem unfragmented6_of_nexthdr : Unfragmented6 src s len := by
  intro pos h
  exact absurd (segment_of_headerAt hproto h) (by decide)

omit hproto

def udpPacket (word0 : UInt32) (check : UInt16) : Bytes := fun i =>
  ([0x60, 0, 0, 0, 0, 8, 17, 64] ++ be32 word0
    ++ [0, 0, 0, 0, 0, 0, 0xff, 0xff, 10, 0, 0, 1]
    ++ [0, 0, 0, 0, 0, 0, 0, 0, 0, 0, 0xff, 0xff, 10, 0, 0, 2]
    ++ [0x30, 0x39, 0, 53, 0, 8] ++ be16 check : List UInt8).getD i 0

def mappedPacket : Bytes := udpPacket 0 0xbb6d

/-- It is translated, with its checksum. -/
theorem ip6Ip4_mappedPacket :
    ∃ n out, ip6Ip4 false .big false mappedPacket 0 (48 : ℕ) (fun _ => 0) 0 = .ok (n, out)
      ∧ HasPrefix (Ipv6hdr.read mappedPacket 0).saddr
      ∧ HasPrefix (Ipv6hdr.read mappedPacket 0).daddr
      ∧ ∀ pos proto, Transport6 mappedPacket 0 48 pos proto → Unfragmented6 mappedPacket 0 48
        → ChecksumValid6 mappedPacket 0 pos proto → ChecksumValid4 out 0 := by
  have ht : Transport6 mappedPacket 0 48 40 ipprotoUdp :=
    ⟨.inr rfl, .first (by decide) (by decide), by decide, by decide⟩
  obtain ⟨w, -, -, heq⟩ := ip6Ip4_of_transport6 ht ⟨by decide, by decide⟩
  refine ⟨_, _, heq, (ip6Ip4_translated_iff heq).mpr
    ⟨⟨by decide, by decide⟩, ⟨by decide, by decide⟩, fun pos _ _ _ _ => ?_⟩⟩
  have hpayload : (Ipv6hdr.read mappedPacket 0).payloadLen.toNat = 8 := by decide
  rw [segLen6, hpayload]
  omega

def foreignPacket : Bytes := udpPacket 0x20010db8 0x8db4

/-- **It is accepted and loses its checksum**: the source address does not
begin with the prefix, and the checksum was valid before and is not now. -/
theorem ip6Ip4_foreignPacket :
    ∃ n out, ip6Ip4 false .big false foreignPacket 0 (48 : ℕ) (fun _ => 0) 0 = .ok (n, out)
      ∧ ¬ HasPrefix (Ipv6hdr.read foreignPacket 0).saddr
      ∧ Transport6 foreignPacket 0 48 40 ipprotoUdp ∧ Unfragmented6 foreignPacket 0 48
      ∧ ChecksumValid6 foreignPacket 0 40 ipprotoUdp ∧ ¬ ChecksumValid4 out 0 := by
  have ht : Transport6 foreignPacket 0 48 40 ipprotoUdp :=
    ⟨.inr rfl, .first (by decide) (by decide), by decide, by decide⟩
  obtain ⟨w, -, -, heq⟩ := ip6Ip4_of_transport6 ht ⟨by decide, by decide⟩
  refine ⟨_, _, heq, fun h => absurd h.1 (by decide), ht,
    unfragmented6_of_nexthdr (by decide), by unfold ChecksumValid6; decide, ?_⟩
  rw [checksumValid4_iff heq ht]
  decide

end Siit
