import RouterFirmware.SiitHeaderWalk
import Mathlib.Tactic.IntervalCases

/-!
# To IPv6 and back

An IPv4 packet without options that `ip4_ip6` translates gets a fragment
header, unless its DF bit is set.
-/

namespace Siit

open Iphdr Memory Walk UInt16

/-! ## Fields that change their place -/

theorem fragOff_restored {f : UInt16} (h : f &&& 0xc000 = 0) :
    (((f &&& ipOffset) <<< 3 ||| (f &&& ipMf) >>> 13) &&& 0xfff8) >>> 3
      ||| (((f &&& ipOffset) <<< 3 ||| (f &&& ipMf) >>> 13) &&& 1) <<< 13 = f := by
  have hbits : f.toBitVec &&& 0xc000#16 = 0#16 := congrArg toBitVec h
  have h14 := congrArg (fun v => v.getLsbD 14) hbits
  have h15 := congrArg (fun v => v.getLsbD 15) hbits
  apply UInt16.eq_of_toBitVec_eq
  simp only [ipOffset, ipMf]
  simp at h14 h15 ⊢
  ext i hi
  interval_cases i <;> simp_all

theorem tos_restored (t : UInt8) : UInt8.ofNat ((Fin.ofNat 16 ((t &&& 0xf0) >>> 4).toNat).val <<< 4)
    ||| ((t &&& 0x0f) <<< 4) >>> 4 = t := by
  -- a byte has 256 values
  obtain ⟨⟨t⟩⟩ := t
  revert t
  decide +kernel

theorem toNat_ofInt_natCast {n : ℕ} (h : n < 65536) : (ofInt n).toNat = n := by
  have hmod : ((n : ℤ) % 2 ^ 16).toNat = n := by omega
  rw [ofInt, hmod]
  exact toNat_ofNat_of_lt' h

/-! ## The packets -/

/-- **The header of a packet that comes back.** -/
structure Plain (ih4 : Iphdr) (len : ℕ) : Prop where
  version : ih4.version = 4
  ihl : ih4.ihl = 5
  le_len : 20 ≤ len
  totLen : ih4.totLen.toNat = len
  len_le : len ≤ 65527
  flags : ih4.fragOff &&& 0xc000 = 0
  check : ih4.withCheck = ih4

/-- An unfragmented echo request or reply of code 0 and with its checksum. -/
structure Echo (ih4 : Iphdr) (src : Bytes) (s len : ℕ) : Prop where
  offset : ih4.fragOff &&& ipOffset = 0
  more : ih4.fragOff &&& ipMf = 0
  le_len : 28 ≤ len
  type : src (s + 20) = icmpEcho ∨ src (s + 20) = icmpEchoreply
  code : src (s + 21) = 0
  checksum : src.load16 (s + 22)
    = internetChecksum ((src.blit (s + 22) (be16 0)).slice (s + 20) (len - 20))

structure Restorable (src : Bytes) (s len : ℕ) : Prop where
  plain : Plain (read src s) len
  content : (read src s).protocol = ipprotoTcp
    ∨ (read src s).protocol = ipprotoUdp
      ∧ (src.load16 (s + 26) ≠ 0 ∨ (read src s).fragOff &&& ipOffset ≠ 0)
    ∨ (read src s).protocol = ipprotoIcmp ∧ Echo (read src s) src s len

namespace Plain

variable {ih4 : Iphdr} {len : ℕ}

variable (h : Plain ih4 len)

include h

theorem frFlag : Siit.frFlag false ih4 = true := by
  have hdf : ih4.fragOff ≠ ipDf := by
    intro hdf
    have hflags := h.flags
    rw [hdf] at hflags
    exact absurd hflags (by decide)
  simp [Siit.frFlag, hdf]

theorem plenOf : Siit.plenOf false ih4 = len - 12 := by
  have htot := h.totLen
  have hle := h.len_le
  have hsum : (ih4.totLen + 8).toNat = len + 8 := by
    rw [UInt16.toNat_add, htot]
    show (len + 8) % 65536 = len + 8
    omega
  rw [Siit.plenOf]
  simp only [h.frFlag, if_true, hsum, h.ihl]
  show ((len + 8 : ℕ) : ℤ) - ((5 * 4 : ℕ) : ℤ) = len - 12
  omega

theorem ofInt_len : ofInt len = ih4.totLen := by
  have hle := h.len_le
  exact UInt16.toNat_inj.mp ((toNat_ofInt_natCast (by omega)).trans h.totLen.symm)

end Plain

/-! ## The translated packet -/

/-- **The headers of the translated packet.** -/
structure Translated (ih4 : Iphdr) (out : Bytes) (d : ℕ) : Prop where
  header : out.slice d 40 = (ipv6hdrOf false false ih4).bytes
  fragment : out.slice (d + 40) 8 = (fragHdrOf ih4).bytes

variable {ih4 : Iphdr} {out src : Bytes} {s : ℕ}

def headersOf (ih4 : Iphdr) (dst : Bytes) (d : ℕ) : Bytes :=
  (dst.blit (d + 40) (fragHdrOf ih4).bytes).blit d (ipv6hdrOf false false ih4).bytes

theorem translated_headersOf (ih4 : Iphdr) (dst : Bytes) (d : ℕ) :
    Translated ih4 (headersOf ih4 dst d) d := by
  have hlen := (ipv6hdrOf false false ih4).length_bytes
  have hfrag := (fragHdrOf ih4).length_bytes
  constructor
  · nth_rewrite 1 [headersOf, ← hlen]
    exact slice_blit_self ..
  · rw [headersOf, slice_blit_of_disjoint _ (by omega)]
    nth_rewrite 1 [← hfrag]
    exact slice_blit_self ..

variable {d : ℕ} {type : UInt8}

theorem Translated.blit {b : ℕ} (h : Translated ih4 out d) (hb : d + 48 ≤ b) (xs : List UInt8) :
    Translated ih4 (out.blit b xs) d := by
  refine ⟨?_, ?_⟩
  · rw [slice_blit_of_disjoint _ (by omega)]
    exact h.header
  · rw [slice_blit_of_disjoint _ (by omega)]
    exact h.fragment

/-! ## `ip4_ip6` -/

variable {len : ℕ}

theorem ip4Ip6_of_plain (h : Plain (read src s) len) (dst : Bytes) (d : ℕ) :
    ip4Ip6 false false src s len dst d
      = if (read src s).protocol = ipprotoIcmp then
          ip4Ip6Icmp (ip4Ip6 false true) false (read src s)
            (ipv6hdrOf false false (read src s)) src (s + 20) (len - 20 : ℕ)
            (headersOf (read src s) dst d) d (d + 48)
        else if (read src s).protocol = ipprotoTcp then
          memcpy (headersOf (read src s) dst d) (d + 48) src (s + 20) (len - 20 : ℕ)
        else if (read src s).protocol = ipprotoUdp then
          ip4Ip6Udp false (read src s) (ipv6hdrOf false false (read src s)) src
            (s + 20) (len - 20 : ℕ) (headersOf (read src s) dst d) (d + 48)
        else .error .dropped := by
  have hihl : (read src s).ihl.val * 4 = 20 := by
    rw [h.ihl]
    rfl
  have hleft : (len : ℤ) - (20 : ℕ) = (len - 20 : ℕ) := by
    have := h.le_len
    omega
  show ip4Ip6Body false (ip4Ip6 false true) false src s len dst d = _
  rw [ip4Ip6Body]
  simp only [hihl, h.frFlag, if_true, hleft]
  rfl

theorem ip4Ip6_copies (h : Plain (read src s) len)
    (hcontent : (read src s).protocol = ipprotoTcp
      ∨ (read src s).protocol = ipprotoUdp
        ∧ (src.load16 (s + 26) ≠ 0 ∨ (read src s).fragOff &&& ipOffset ≠ 0))
    (dst : Bytes) (d : ℕ) : ∃ out, ip4Ip6 false false src s len dst d = .ok out
    ∧ Translated (read src s) out d
    ∧ out.slice (d + 48) (len - 20) = src.slice (s + 20) (len - 20) := by
  refine ⟨(headersOf (read src s) dst d).blit (d + 48) (src.slice (s + 20) (len - 20)), ?_,
    (translated_headersOf ..).blit le_rfl _, slice_blit_slice ..⟩
  rw [ip4Ip6_of_plain h]
  rcases hcontent with htcp | ⟨hudp, hsum⟩
  · rw [if_neg (by rw [htcp]; decide), if_pos htcp, memcpy_of_nonneg]
  · rw [if_neg (by rw [hudp]; decide), if_neg (by rw [hudp]; decide), if_pos hudp, ip4Ip6Udp]
    have hkept : ¬ ((read src s).fragOff &&& ipOffset = 0 ∧ src.load16 (s + 26) = 0) :=
      fun hzero => hsum.elim (absurd hzero.2) (absurd hzero.1)
    rw [memcpy_of_nonneg]
    dsimp only
    rw [if_neg fun hzero => hkept ⟨hzero.1, hzero.2.2⟩]
    exact if_neg fun hzero => hkept ⟨hzero.1, hzero.2.2.1⟩

/-- The type of the ICMPv6 message for an echo. -/
def echoType (type : UInt8) : UInt8 :=
  if type = icmpEcho then icmpv6EchoRequest else icmpv6EchoReply

theorem icmp4Header_echo {dst : Bytes}
    (htype : src (s + 20) = icmpEcho ∨ src (s + 20) = icmpEchoreply) (hlen : 28 ≤ len) (b : ℕ) :
    icmp4Header src (s + 20) (len - 20 : ℕ) dst b
      = .ok ((dst.blit b [echoType (src (s + 20)), 0]).blit (b + 4)
          (src.slice (s + 24) (len - 24)), false) := by
  have hrest : ((len - 20 : ℕ) : ℤ) - 4 = (len - 24 : ℕ) := by omega
  rcases htype with htype | htype
  · simp only [icmp4Header, htype, hrest, memcpy_of_nonneg]
    rfl
  · simp only [icmp4Header, htype, hrest, memcpy_of_nonneg]
    rfl

theorem setIcmp6Cksum_of_nonneg (ih6 : Ipv6hdr) (dst : Bytes) (b : ℕ) {n : ℤ} (hn : 0 ≤ n) :
    ∃ check, setIcmp6Cksum ih6 dst b n
      = .ok ((dst.blit (b + 2) (be16 0)).blit (b + 2) (be16 check)) :=
  ⟨_, if_neg (Int.not_lt.mpr hn)⟩

theorem ip4Ip6_echo (h : Plain (read src s) len) (hicmp : (read src s).protocol = ipprotoIcmp)
    (hecho : Echo (read src s) src s len) (dst : Bytes) (d : ℕ) :
    ∃ out, ip4Ip6 false false src s len dst d = .ok out
      ∧ Translated (read src s) out d
      ∧ out (d + 48) = echoType (src (s + 20))
      ∧ out.slice (d + 52) (len - 24) = src.slice (s + 24) (len - 24) := by
  have hn : (0 : ℤ) ≤ (read src s).totLen.toNat - ((read src s).ihl.val * 4 : ℕ) := by
    rw [h.totLen, h.ihl]
    have := h.le_len
    show (0 : ℤ) ≤ len - (20 : ℕ)
    omega
  obtain ⟨check, hcheck⟩ := setIcmp6Cksum_of_nonneg (ipv6hdrOf false false (read src s))
    (((headersOf (read src s) dst d).blit (d + 48) [echoType (src (s + 20)), 0]).blit
    (d + 48 + 4) (src.slice (s + 24) (len - 24))) (d + 48) hn
  refine ⟨_, Eq.trans ?_ hcheck, ?_, ?_, ?_⟩
  · rw [ip4Ip6_of_plain h, if_pos hicmp, ip4Ip6Icmp,
      if_neg (by rw [hecho.offset, hecho.more]; decide), if_neg (by decide),
      icmp4Header_echo hecho.type hecho.le_len]
    rfl
  · exact ((((translated_headersOf ..).blit le_rfl _).blit (by omega) _).blit
      (by omega) _).blit (by omega) _
  · rw [blit_of_outside _ (by omega), blit_of_outside _ (by omega), blit_of_outside _ (by omega)]
    exact blit_cons_self ..
  · rw [slice_blit_of_disjoint _ (by rw [length_be16]; omega),
      slice_blit_of_disjoint _ (by rw [length_be16]; omega)]
    exact slice_blit_slice ..

/-! ## `ip6_ip4` -/

def walked (ih4 : Iphdr) (len : ℕ) : Walk :=
  ⟨(len - 20 : ℕ), 8, (fragHdrOf ih4).nexthdr, ih4.id, ih4.fragOff, [(40, 8)]⟩

variable (h : Plain ih4 len)

include h

theorem ip6Headers_of_translated (ht : Translated ih4 out d)
    (hnext : (fragHdrOf ih4).nexthdr = nexthdrIcmp ∨ (fragHdrOf ih4).nexthdr = nexthdrTcp
      ∨ (fragHdrOf ih4).nexthdr = nexthdrUdp) :
    ip6Headers false out d (len + 28 : ℕ) = .ok (walked ih4 len) := by
  have hlen := h.le_len
  have hread := Ipv6hdr.read_of_slice ht.header
  have hfrag := FragHdr.read_of_slice ht.fragment
  have hfirst : (Ipv6hdr.read out d).nexthdr = nexthdrFragment := by
    rw [hread, ipv6hdrOf, h.frFlag]
    rfl
  have haddressed : Addressed false out d := by
    rw [Addressed, hread]
    exact ⟨rfl, rfl⟩
  have hmin := intMin_le
  have hdelta : (start out d (len + 28)).lenDelta = ((len + 28 : ℕ) : ℤ) - 40 := rfl
  have hturn : walkTurn out d (start out d (len + 28)) = .again (walked ih4 len) := by
    rw [walkTurn_fragment hfirst, if_neg (by omega), if_pos (by omega)]
    have hpos : d + (start out d (len + 28)).pos = d + 40 := rfl
    rw [hpos, hfrag]
    have hnextHdr : out (d + 40) = (fragHdrOf ih4).nexthdr := congrArg FragHdr.nexthdr hfrag
    have hleft : (start out d (len + 28)).lenDelta - (8 : ℕ) = (len - 20 : ℕ) := by omega
    have hid : (fragHdrOf ih4).identification.toUInt16 = ih4.id := toUInt16_toUInt32 ih4.id
    have hoff := fragOff_restored h.flags
    simp only [Walk.take, Walk.pass, hnextHdr, hleft, hid]
    exact congrArg Turn.again (congrArg (Walk.mk _ _ _ _ · _) hoff)
  have hleave : walkTurn out d (walked ih4 len) = .leave (.ok (walked ih4 len)) := if_pos hnext
  rw [ip6Headers_of_no_hop haddressed (by omega) (by rw [hfirst]; decide), walk_of_again hturn,
    walk_of_leave hleave]

theorem ntotLenOf_walked : ntotLenOf (ipv6hdrOf false false ih4) (walked ih4 len) = len := by
  have hle := h.le_len
  have hlen := h.len_le
  have hpayload : (ipv6hdrOf false false ih4).payloadLen.toNat = len - 12 := by
    show (ofInt (plenOf false ih4)).toNat = len - 12
    rw [h.plenOf, show (len : ℤ) - 12 = (len - 12 : ℕ) by omega]
    exact toNat_ofInt_natCast (by omega)
  have hne : (ipv6hdrOf false false ih4).payloadLen ≠ 0 := by
    intro hzero
    rw [hzero] at hpayload
    have : len - 12 = 0 := hpayload.symm
    omega
  rw [ntotLenOf, if_neg hne, hpayload]
  show ((len - 12 : ℕ) : ℤ) + (20 : ℕ) - (8 : ℕ) = len
  omega

theorem iphdrOf_walked : iphdrOf false (ipv6hdrOf false false ih4) (walked ih4 len)
    = { ih4 with protocol := (fragHdrOf ih4).nexthdr, check := 0 } := by
  have htot : ofInt (ntotLenOf (ipv6hdrOf false false ih4) (walked ih4 len))
      = ih4.totLen := by
    rw [ntotLenOf_walked h, h.ofInt_len]
  exact Iphdr.ext h.version.symm h.ihl.symm (tos_restored ih4.tos) htot rfl rfl rfl rfl rfl rfl rfl

omit h

/-! ## The message of an echo -/

/-- An echo of a type, with what follows its checksum. -/
def echoMessage (type : UInt8) (rest : List UInt8) : List UInt8 :=
  [type, 0] ++ be16 (internetChecksum ([type, 0] ++ be16 0 ++ rest)) ++ rest

theorem slice_echo {n : ℕ} (m : Bytes) (a : ℕ) (hn : 4 ≤ n) :
    m.slice a n = m.slice a 2 ++ m.slice (a + 2) 2 ++ m.slice (a + 4) (n - 4) := by
  rw [← m.slice_add, ← m.slice_add, show 2 + 2 + (n - 4) = n by omega]

theorem slice_blit_checksum {n : ℕ} (m : Bytes) (a : ℕ) (hn : 4 ≤ n) (check : UInt16) :
    (m.blit (a + 2) (be16 check)).slice a n
      = m.slice a 2 ++ be16 check ++ m.slice (a + 4) (n - 4) := by
  have hcheck : (m.blit (a + 2) (be16 check)).slice (a + 2) 2 = be16 check := slice_blit_self ..
  rw [slice_echo _ a hn, hcheck, slice_blit_of_disjoint _ (by omega),
    slice_blit_of_disjoint _ (by rw [length_be16]; omega)]

theorem Echo.slice_eq (h : Echo ih4 src s len) : src.slice (s + 20) (len - 20)
    = echoMessage (src (s + 20)) (src.slice (s + 24) (len - 24)) := by
  have hlen := h.le_len
  have hfirst : src.slice (s + 20) 2 = [src (s + 20), 0] := by
    rw [← h.code]
    rfl
  have hrest : len - 20 - 4 = len - 24 := by omega
  have hcheck : src.slice (s + 20 + 2) 2 = be16 (src.load16 (s + 22)) := (be16_load16 ..).symm
  have hsum := h.checksum
  rw [slice_blit_checksum src (s + 20) (by omega), hfirst, hrest] at hsum
  rw [slice_echo src (s + 20) (by omega), hfirst, hcheck, hsum, hrest]
  rfl

theorem setIcmpChecksum_echo {b : ℕ} {dst : Bytes} {hdr : Iphdr}
    (hlen : 28 ≤ len) (htot : hdr.totLen.toNat = len) (hfirst : dst.slice b 2 = [type, 0]) :
    ∃ back, setIcmpChecksum hdr dst b = .ok back
      ∧ (∀ a n, a + n ≤ b → back.slice a n = dst.slice a n)
      ∧ back.slice b (len - 20) = echoMessage type (dst.slice (b + 4) (len - 24)) := by
  have hn : ((hdr.totLen.toNat : ℤ) - 20).toNat = len - 20 := by omega
  have hrest : len - 20 - 4 = len - 24 := by omega
  refine ⟨_, if_neg (by omega), fun a n ha => ?_, ?_⟩
  · rw [slice_blit_of_disjoint _ (by omega), slice_blit_of_disjoint _ (by omega)]
  · have hzero := slice_blit_checksum dst b (n := len - 20) (by omega) 0
    rw [hfirst, hrest] at hzero
    rw [slice_blit_checksum (dst.blit (b + 2) (be16 0)) b (by omega), hn, hzero, hrest,
      slice_blit_of_disjoint dst (by omega),
      slice_blit_of_disjoint dst (by rw [length_be16]; omega), hfirst]
    rfl

/-! ## The content -/

theorem withCheck_restored (h : Plain ih4 len) {protocol : UInt8} (hp : protocol = ih4.protocol) :
    ({ ih4 with protocol := protocol, check := 0 } : Iphdr).withCheck = ih4 := by
  subst hp
  exact h.check

theorem slice_blit_bytes (dst : Bytes) (e : ℕ) (hdr : Iphdr) :
    (dst.blit e hdr.bytes).slice e 20 = hdr.bytes := by
  nth_rewrite 1 [← hdr.length_bytes]
  exact slice_blit_self ..

theorem ip6Ip4_copies (h : Plain ih4 len) (ht : Translated ih4 out d)
    (hproto : ih4.protocol = ipprotoTcp ∨ ih4.protocol = ipprotoUdp) (host : ByteOrder)
    (dst : Bytes) (e : ℕ) :
    ∃ back, ip6Ip4 false host false out d (len + 28 : ℕ) dst e = .ok (len, back)
      ∧ back.slice e 20 = ih4.bytes
      ∧ back.slice (e + 20) (len - 20) = out.slice (d + 48) (len - 20) := by
  have hnext : (fragHdrOf ih4).nexthdr = ih4.protocol :=
    if_neg (by rcases hproto with hproto | hproto <;> rw [hproto] <;> decide)
  have hicmp : (walked ih4 len).nextHdr ≠ nexthdrIcmp := by
    show (fragHdrOf ih4).nexthdr ≠ nexthdrIcmp
    rcases hproto with hproto | hproto <;> rw [hnext, hproto] <;> decide
  have hle := h.le_len
  have hdelta : (walked ih4 len).lenDelta = (len - 20 : ℕ) := rfl
  refine ⟨(dst.blit e ih4.bytes).blit (e + 20) (out.slice (d + 48) (len - 20)), ?_, ?_,
    slice_blit_slice ..⟩
  · show ip6Ip4Body false host (ip6Ip4 false host true) false out d (len + 28 : ℕ) dst e = _
    rw [ip6Ip4Body, ip6Headers_of_translated h ht (by rw [hnext]; exact .inr hproto)]
    simp only [bind, Except.bind, Ipv6hdr.read_of_slice ht.header, iphdrOf_walked h,
      withCheck_restored h hnext, if_neg hicmp]
    rcases hle.eq_or_lt with rfl | hmore
    · -- nothing is left behind the headers
      rw [if_pos (by omega), Nat.sub_self, slice_zero, blit_nil]
      rfl
    · have hlen : (20 : ℤ) + (len - 20 : ℕ) = len := by omega
      rw [if_neg (by omega), hdelta, memcpy_of_nonneg, hlen]
      rfl
  · rw [slice_blit_of_disjoint _ (by omega)]
    exact slice_blit_bytes ..

theorem echo6_eq (type : UInt8) (src : Bytes) (a n : ℕ) (dst : Bytes) (b : ℕ) :
    echo6 type src a n dst b = (dst.blit b [type, 0]).blit (b + 4) (src.slice (a + 4) (4 + n)) := by
  have hfour : (src.slice (a + 4) 4).length = 4 := length_slice ..
  have happend := (dst.blit b [type, 0]).blit_append (b + 4) (src.slice (a + 4) 4)
    (src.slice (a + 8) n)
  rw [src.slice_add, ← happend, hfour, echo6]
  rcases n.eq_zero_or_pos with rfl | hpos
  · exact (blit_nil ..).symm
  · exact if_pos (by omega)

theorem icmp6Header_echo {a : ℕ} (htype : type = icmpEcho ∨ type = icmpEchoreply)
    (hlen : 28 ≤ len) (hout : out a = echoType type) (host : ByteOrder) (dst : Bytes) (b : ℕ) :
    icmp6Header host out a ((len - 20 : ℕ) - 8) dst b
      = .ok ((dst.blit b [type, 0]).blit (b + 4) (out.slice (a + 4) (len - 24)), false) := by
  have hdata : ((len - 20 : ℕ) : ℤ) - 8 = (len - 28 : ℕ) := by omega
  have hrest : 4 + (len - 28) = len - 24 := by omega
  rcases htype with rfl | rfl
  · rw [← hrest, ← echo6_eq, hdata]
    simp only [icmp6Header, hout]
    rfl
  · rw [← hrest, ← echo6_eq, hdata]
    simp only [icmp6Header, hout]
    rfl

theorem ip6Ip4Icmp_echo {a : ℕ} (h : Plain ih4 len)
    (hproto : ih4.protocol = ipprotoIcmp) (hlen : 28 ≤ len)
    (htype : type = icmpEcho ∨ type = icmpEchoreply) (hout : out a = echoType type)
    (host : ByteOrder) (inner : Translator (ℤ × Bytes)) (protocol : UInt8) (dst : Bytes) (e : ℕ) :
    ∃ back, ip6Ip4Icmp host inner false { ih4 with protocol := protocol, check := 0 } len out a
        (len - 20 : ℕ) dst e = .ok (len, back)
      ∧ back.slice e 20 = ih4.bytes
      ∧ back.slice (e + 20) (len - 20) = echoMessage type (out.slice (a + 4) (len - 24)) := by
  have hne : (len : ℤ) ≠ 0 := by omega
  have hreal : (20 : ℤ) + ((len - 20 : ℕ) - 8 + 8) - 0 = len := by omega
  have htot : ({ ih4 with check := 0 } : Iphdr).totLen.toNat = len := h.totLen
  have hcheck : ({ ih4 with check := 0 } : Iphdr).withCheck = ih4 := h.check
  have hfirst : ((((dst.blit (e + 20) [type, 0]).blit (e + 20 + 4)
      (out.slice (a + 4) (len - 24))).blit e ih4.bytes).slice (e + 20) 2) = [type, 0] := by
    rw [slice_blit_of_disjoint _ (by rw [length_bytes]; omega), slice_blit_of_disjoint _ (by omega)]
    exact slice_blit_self ..
  have hrest : ((((dst.blit (e + 20) [type, 0]).blit (e + 20 + 4)
      (out.slice (a + 4) (len - 24))).blit e ih4.bytes).slice (e + 20 + 4) (len - 24))
        = out.slice (a + 4) (len - 24) := by
    rw [slice_blit_of_disjoint _ (by rw [length_bytes]; omega)]
    exact slice_blit_slice ..
  obtain ⟨back, heq, hbefore, hmessage⟩ := setIcmpChecksum_echo hlen htot hfirst
  refine ⟨back, ?_, ?_, ?_⟩
  · rw [ip6Ip4Icmp, if_neg (by omega), if_neg (by simp), icmp6Header_echo htype hlen hout]
    simp only [bind, Except.bind, pure, Except.pure, Bool.false_eq_true, false_and, if_false,
      if_neg hne, Option.getD_none, Int.sub_zero, h.ofInt_len, ← hproto, hcheck, heq]
    rw [← hreal, Int.sub_zero]
  · rw [hbefore e 20 le_rfl]
    exact slice_blit_bytes ..
  · rw [hmessage, hrest]

theorem ip6Ip4_echo (h : Plain ih4 len) (ht : Translated ih4 out d)
    (hproto : ih4.protocol = ipprotoIcmp) (hlen : 28 ≤ len)
    (htype : type = icmpEcho ∨ type = icmpEchoreply) (hout : out (d + 48) = echoType type)
    (host : ByteOrder) (dst : Bytes) (e : ℕ) :
    ∃ back, ip6Ip4 false host false out d (len + 28 : ℕ) dst e = .ok (len, back)
      ∧ back.slice e 20 = ih4.bytes
      ∧ back.slice (e + 20) (len - 20) = echoMessage type (out.slice (d + 52) (len - 24)) := by
  have hnext : (fragHdrOf ih4).nexthdr = nexthdrIcmp := if_pos hproto
  have hicmp : (walked ih4 len).nextHdr = nexthdrIcmp := hnext
  have hdelta : (walked ih4 len).lenDelta = (len - 20 : ℕ) := rfl
  show ∃ back, ip6Ip4Body false host (ip6Ip4 false host true) false out d (len + 28 : ℕ) dst e
    = .ok (len, back) ∧ _
  rw [ip6Ip4Body, ip6Headers_of_translated h ht (.inl hnext)]
  simp only [bind, Except.bind, Ipv6hdr.read_of_slice ht.header, iphdrOf_walked h,
    if_pos hicmp, ntotLenOf_walked h]
  rw [if_neg (by omega)]
  obtain ⟨back, heq, hback⟩ := ip6Ip4Icmp_echo h hproto hlen htype hout host
    (ip6Ip4 false host true) (fragHdrOf ih4).nexthdr _ e
  have hpos : d + (walked ih4 len).pos = d + 48 := rfl
  refine ⟨back, ?_, hback⟩
  rw [hdelta, hpos, heq]
  rfl

/-! ## There and back -/

/-- **`ip6_ip4` undoes `ip4_ip6`**: a packet that is translated to IPv6 comes
back with its length and with every byte. -/
theorem ip6Ip4_ip4Ip6 {src : Bytes} {s len : ℕ} (h : Restorable src s len)
    (host : ByteOrder) (dst6 : Bytes) (d : ℕ) (dst4 : Bytes) (e : ℕ) :
    ∃ out, ip4Ip6 false false src s len dst6 d = .ok out
      ∧ ∃ back, ip6Ip4 false host false out d (len + 28 : ℕ) dst4 e = .ok (len, back)
        ∧ back.slice e len = src.slice s len := by
  have hplain := h.plain
  have hsplit (m : Bytes) (a : ℕ) :
      m.slice a len = m.slice a 20 ++ m.slice (a + 20) (len - 20) := by
    rw [← m.slice_add, Nat.add_sub_cancel' hplain.le_len]
  rcases or_assoc.mpr h.content with hcopied | ⟨hicmp, hecho⟩
  · obtain ⟨out, hout, ht, hrest⟩ := ip4Ip6_copies hplain hcopied dst6 d
    obtain ⟨back, hback, hheader, hcontent⟩ :=
      ip6Ip4_copies hplain ht (hcopied.imp_right And.left) host dst4 e
    refine ⟨out, hout, back, hback, ?_⟩
    rw [hsplit, hsplit src, hheader, bytes_read, hcontent, hrest]
  · obtain ⟨out, hout, ht, htype, hrest⟩ := ip4Ip6_echo hplain hicmp hecho dst6 d
    obtain ⟨back, hback, hheader, hmessage⟩ :=
      ip6Ip4_echo hplain ht hicmp hecho.le_len hecho.type htype host dst4 e
    refine ⟨out, hout, back, hback, ?_⟩
    rw [hsplit, hsplit src, hheader, bytes_read, hmessage, hrest, ← hecho.slice_eq]

def pingPacket : Bytes := fun i =>
  ([0x45, 0x10, 0, 30, 0xab, 0xcd, 0, 0, 64, 1, 0x04, 0x57, 10, 0, 0, 1, 192, 168, 0, 2,
    8, 0, 0x84, 0x68, 0x12, 0x34, 0, 1, 0x61, 0x62] : List UInt8).getD i 0

/-- It comes back. -/
theorem ip6Ip4_ip4Ip6_ping :
    ∃ out, ip4Ip6 false false pingPacket 0 (30 : ℕ) (fun _ => 0) 0 = .ok out
      ∧ ∃ back, ip6Ip4 false .big false out 0 (58 : ℕ) (fun _ => 0) 0 = .ok ((30 : ℕ), back)
        ∧ back.slice 0 30 = pingPacket.slice 0 30 := by
  have hplain : Plain (read pingPacket 0) 30 :=
    ⟨by decide, by decide, by decide, by decide, by decide, by decide, by decide⟩
  have hecho : Echo (read pingPacket 0) pingPacket 0 30 :=
    ⟨by decide, by decide, by decide, by decide, by decide, by decide⟩
  exact ip6Ip4_ip4Ip6 ⟨hplain, .inr (.inr ⟨by decide, hecho⟩)⟩ .big (fun _ => 0) 0 (fun _ => 0) 0

end Siit
