import RouterFirmware.SiitChecksum

/-!
# Fragmenting a large packet

An IPv6 packet of more than 1280 bytes may not get through, so `ip4_fragment`
cuts an IPv4 packet whose payload has more than 1232 bytes into pieces, gives
each a header of its own and translates it by `ip4_ip6`.

What the receiver puts together again is said in terms of RFC 791, without the
code: a list of fragments **carries** a payload from an offset on
(`Fragment.Carries`). The loop keeps this by induction: one turn emits the first
fragment of what is left (`fragmentLoop_turn`), and the rest is carried by the
next turns (`fragmentLoop_carries`).

The length that the packets are given to `netif_rx` with counts the options of
the IPv4 header, which are not translated. So they are as short as they should
be exactly if there are none (`ip4Fragment_lossless_iff`).
-/

/-- **A fragment** as the receiver sees it; the offset is in units of eight
bytes. -/
structure Fragment where
  offset : ℕ
  more : Bool
  data : List UInt8

namespace Fragment

/-- **A list of fragments carries a payload**: each but the last has the flag
and a multiple of eight bytes, and the next one begins where it ends. -/
inductive Carries (more : Bool) : ℕ → List UInt8 → List Fragment → Prop where
  | last (f : Fragment) (h : f.more = more) : Carries more f.offset f.data [f]
  | cons (f : Fragment) (h : f.more = true) {n : ℕ} (hn : f.data.length = n * 8)
    {rest : List UInt8} {fs : List Fragment} (hrest : Carries more (f.offset + n) rest fs) :
    Carries more f.offset (f.data ++ rest) (f :: fs)

end Fragment

namespace Siit

/-- `FRAG_BUFF_SIZE`. -/
def fragBuffSize : ℕ := 1232

/-- A packet as it is given to `netif_rx`: its bytes, and how many. -/
structure Skb2 where
  data : Bytes
  len : ℕ

namespace Skb2

/-- The IPv6 header. -/
def header (skb : Skb2) : Ipv6hdr := Ipv6hdr.read skb.data 0

/-- The fragment header behind it. -/
def fragHdr (skb : Skb2) : FragHdr := FragHdr.read skb.data 40

/-- **What the packet carries**, as its headers say. -/
def fragment (skb : Skb2) : Fragment where
  offset := skb.fragHdr.fragOff.toNat / 8
  more := skb.fragHdr.fragOff.toNat % 2 == 1
  data := skb.data.slice 48 (skb.header.payloadLen.toNat - 8)

end Skb2

/-! ## `ip4_fragment` -/

section Code

variable (tosIgnoreFlag : Bool) (alloc : ℕ → Option Bytes) (src : Bytes) (hdrLen : ℕ)

/-- Whether the flag for more fragments is cleared in the last one
(`flag_last_mf`). -/
def flagLastMf (ih4 : Iphdr) : Bool := ih4.fragOff &&& ipMf == 0

/-- The checksum of a UDP datagram, by the length in its header. -/
def udpCheck (ih4 : Iphdr) : UInt16 :=
  let udpLen := (src.load16 (hdrLen + 4)).toNat
  csumTcpudpMagic ih4.saddr ih4.daddr udpLen ipprotoUdp (csumPartial (src.slice hdrLen udpLen) 0)

/-- What is done about a UDP checksum of zero, before the packet is cut. -/
def zeroCheck (ih4 : Iphdr) : Except Refused Bytes :=
  if ih4.protocol = ipprotoUdp ∧ ih4.fragOff &&& ipOffset = 0 ∧ src.load16 (hdrLen + 6) = 0 then
    if flagLastMf ih4 then .ok (src.blit (hdrLen + 6) (be16 (udpCheck src hdrLen ih4)))
    else .error .dropped
  else .ok src

/-- The IPv4 packet of a piece, in the buffer. -/
def pieceOf (ih4 : Iphdr) (buff : Bytes) (cur fragLen : ℕ) (fragOff : UInt16) : Bytes :=
  let buff := buff.blit 0 (src.slice 0 hdrLen)
  let buff := buff.blit hdrLen (src.slice cur fragLen)
  let buff := buff.blit 4 (be16 ih4.id)
  let buff := buff.blit 6 (be16 fragOff)
  let buff := buff.blit 2 (be16 (.ofNat (fragLen + hdrLen)))
  let buff := buff.blit 10 (be16 0)
  buff.blit 10 (be16 (internetChecksum (buff.slice 0 (ih4.ihl.val * 4))))

/-- The field with the offset and the flag, which the last piece clears. -/
def fragOffOf (clear : Bool) (fragOffset : UInt16) : UInt16 :=
  if clear then fragOffset &&& ~~~ipMf else fragOffset ||| ipMf

/-- The loop of `ip4_fragment`: the packets that are emitted, and how it ends. -/
def fragmentLoop (ih4 : Iphdr) : ℕ → ℕ → Bytes → ℕ → ℕ → UInt16 → List Skb2 × Except Refused Unit
  | 0, _, _, _, _, _ => ([], .error .fault)
  | fuel + 1, k, buff, cur, rest, fragOffset =>
    let lastFrag : Bool := rest ≤ fragBuffSize
    let fragLen := if lastFrag then rest else fragBuffSize
    let buff := pieceOf src hdrLen ih4 buff cur fragLen
      (fragOffOf (lastFrag && flagLastMf ih4) fragOffset)
    match alloc k with
    | none => ([], .error .dropped)
    | some mem =>
      match ip4Ip6 tosIgnoreFlag false buff 0 (fragLen + hdrLen : ℕ) mem 0 with
      | .error e => ([], .error e)
      | .ok data =>
        let skb : Skb2 := ⟨data, fragLen + hdrLen + ip4Ip6HdrDiff + 8⟩
        if lastFrag then ([skb], .ok ())
        else
          let (skbs, r) := fragmentLoop ih4 fuel (k + 1) buff (cur + fragLen) (rest - fragLen)
            (.ofNat ((fragOffset.toNat * 8 + fragLen) / 8))
          (skb :: skbs, r)

/-- **`ip4_fragment`** of a packet of `len` bytes. -/
def ip4Fragment (len : ℕ) (buff : Bytes) : List Skb2 × Except Refused Unit :=
  let ih4 := Iphdr.read src 0
  match zeroCheck src hdrLen ih4 with
  | .error e => ([], .error e)
  | .ok src => fragmentLoop tosIgnoreFlag alloc src hdrLen ih4 (len - hdrLen + 1) 0 buff hdrLen
      (len - hdrLen) (ih4.fragOff &&& ipOffset)

end Code

/-! ## Offset and flag -/

variable {buff : Bytes} {clear : Bool} {cur : ℕ} {o : UInt16}

variable (ho : o.toNat < 8192)

include ho

theorem and_high_of_lt : o &&& 0xe000 = 0 := by
  apply UInt16.toNat_inj.mp
  rw [UInt16.toNat_and]
  apply Nat.eq_of_testBit_eq
  intro i
  rw [Nat.testBit_and]
  by_cases hi : i < 13
  · have hmask : (0xe000 : UInt16).toNat.testBit i = false := by
      interval_cases i <;> rfl
    rw [hmask, Bool.and_false]
    exact (Nat.zero_testBit i).symm
  · have hpow : 2 ^ 13 ≤ 2 ^ i := Nat.pow_le_pow_right (by decide) (Nat.le_of_not_lt hi)
    rw [Nat.testBit_lt_two_pow (Nat.lt_of_lt_of_le ho hpow), Bool.false_and]
    exact (Nat.zero_testBit i).symm

theorem fragOffOf_fields (clear : Bool) : fragOffOf clear o &&& ipOffset = o
    ∧ fragOffOf clear o &&& ipMf = if clear then 0 else ipMf := by
  have hbits : o.toBitVec &&& 0xe000#16 = 0#16 := congrArg UInt16.toBitVec (and_high_of_lt ho)
  have h13 := congrArg (fun v => v.getLsbD 13) hbits
  have h14 := congrArg (fun v => v.getLsbD 14) hbits
  have h15 := congrArg (fun v => v.getLsbD 15) hbits
  simp at h13 h14 h15
  cases clear <;> constructor <;> apply UInt16.eq_of_toBitVec_eq <;>
    simp only [fragOffOf, ipOffset, ipMf] <;> simp <;> ext i hi <;> interval_cases i <;> simp_all

theorem toNat_fragOff_fragHdrOf {ih4 : Iphdr} (h : ih4.fragOff = fragOffOf clear o) :
    (fragHdrOf ih4).fragOff.toNat = o.toNat * 8 + if clear then 0 else 1 := by
  obtain ⟨hoffset, hmore⟩ := fragOffOf_fields ho clear
  rw [fragHdrOf, h, hoffset, hmore]
  have hshift : (o <<< 3).toNat = o.toNat * 8 := by
    rw [UInt16.toNat_shiftLeft]
    show o.toNat <<< 3 % 65536 = _
    rw [Nat.shiftLeft_eq]
    omega
  rw [UInt16.toNat_or, hshift]
  cases clear
  · have hor := Nat.shiftLeft_add_eq_or_of_lt (i := 3) (b := 1) (by decide) o.toNat
    rw [Nat.shiftLeft_eq] at hor
    exact hor.symm
  · exact Nat.or_zero _

omit ho

/-! ## A piece in the buffer -/

section Piece

/-- A piece of the packet, with the offset and the flag of its place. -/
abbrev pieceAt (src : Bytes) (hdrLen : ℕ) (buff : Bytes) (cur n : ℕ) (clear : Bool) (o : UInt16) :
    Bytes :=
  pieceOf src hdrLen (Iphdr.read src 0) buff cur n (fragOffOf clear o)

theorem eqOn_header (src buff : Bytes) (hdrLen cur n : ℕ) :
    Memory.EqOn ((buff.blit 0 (src.slice 0 hdrLen)).blit hdrLen (src.slice cur n)) src 0
      hdrLen := by
  intro i _ hi
  have hlt : i < (src.slice 0 hdrLen).length := by simpa using hi
  have hinside := buff.blit_of_inside 0 hlt
  rw [Memory.blit_of_outside _ (.inl hi)]
  simpa using hinside

theorem read_pieceAt {hdrLen : ℕ} (hhdr : 20 ≤ hdrLen) (src buff : Bytes) (cur n : ℕ)
    (clear : Bool) (o : UInt16) : ∃ check, Iphdr.read (pieceAt src hdrLen buff cur n clear o) 0
    = { Iphdr.read src 0 with
        fragOff := fragOffOf clear o, totLen := .ofNat (n + hdrLen), check } := by
  have hbase := eqOn_header src buff hdrLen cur n
  generalize hm : (buff.blit 0 (src.slice 0 hdrLen)).blit hdrLen (src.slice cur n) = m at hbase
  refine ⟨internetChecksum (Memory.slice ((((m.blit 4 (be16 (Iphdr.read src 0).id)).blit 6
    (be16 (fragOffOf clear o))).blit 2 (be16 (.ofNat (n + hdrLen)))).blit 10 (be16 0)) 0
    ((Iphdr.read src 0).ihl.val * 4)), ?_⟩
  have hbyte (i : ℕ) (hi : i < 20) : m i = src i := hbase i (Nat.zero_le i) (by omega)
  have hword (i : ℕ) (hi : i + 4 ≤ 20) : m.load32 i = src.load32 i :=
    hbase.load32_eq (Nat.zero_le i) (by omega)
  rw [pieceAt, pieceOf, hm]
  apply Iphdr.ext <;>
    simp (disch := simp) only [Iphdr.read, Memory.load16_blit_self, Memory.load16_blit_of_disjoint,
      Memory.load32_blit_of_disjoint, Memory.blit_of_outside, Nat.zero_add, hbyte, hword]

theorem slice_pieceOf {hdrLen : ℕ} (hhdr : 20 ≤ hdrLen) (ih4 : Iphdr) (src buff : Bytes)
    (cur n : ℕ) (fragOff : UInt16) :
    (pieceOf src hdrLen ih4 buff cur n fragOff).slice hdrLen n = src.slice cur n := by
  rw [pieceOf]
  iterate 5 rw [Memory.slice_blit_of_disjoint _ (.inr (by rw [length_be16]; omega))]
  have h := (buff.blit 0 (src.slice 0 hdrLen)).slice_blit_self hdrLen (src.slice cur n)
  rwa [Memory.length_slice] at h

end Piece

/-! ## A piece, translated -/

section Translation

/-- A piece has an offset, or more follow. -/
def IsPiece (ih4 : Iphdr) : Prop := ih4.fragOff &&& ipOffset ≠ 0 ∨ ih4.fragOff &&& ipMf ≠ 0

theorem IsPiece.frFlag {ih4 : Iphdr} (h : IsPiece ih4) : Siit.frFlag false ih4 = true := by
  have hne : ih4.fragOff ≠ ipDf := by
    intro hdf
    rw [IsPiece, hdf] at h
    revert h
    decide
  simp [Siit.frFlag, hne]

/-- `ip4_ip6` translates a piece of such a packet. -/
def Translatable (src : Bytes) : Prop :=
  (Iphdr.read src 0).protocol = ipprotoTcp
    ∨ (Iphdr.read src 0).protocol = ipprotoUdp ∧ ¬ ((Iphdr.read src 0).fragOff &&& ipOffset = 0
      ∧ src.load16 ((Iphdr.read src 0).ihl.val * 4 + 6) = 0)

instance (src : Bytes) : Decidable (Translatable src) :=
  inferInstanceAs (Decidable (_ ∨ _))

/-- **The translation of a piece.** -/
theorem ip4Ip6_of_isPiece {src : Bytes} {hdrLen : ℕ} (h : IsPiece (Iphdr.read src 0))
    (hhdr : (Iphdr.read src 0).ihl.val * 4 = hdrLen) (tosIgnoreFlag : Bool) (n : ℕ) (dst : Bytes) :
    ip4Ip6 tosIgnoreFlag false src 0 (n + hdrLen : ℕ) dst 0
      = if Translatable src then
          .ok ((headers6 tosIgnoreFlag false (Iphdr.read src 0) dst 0).blit 48 (src.slice hdrLen n))
        else .error .dropped := by
  have hleft : ((n + hdrLen : ℕ) : ℤ) - (hdrLen : ℕ) = n := by omega
  have hwritten : headers6 tosIgnoreFlag false (Iphdr.read src 0) dst 0
      = (dst.blit 40 (fragHdrOf (Iphdr.read src 0)).bytes).blit 0
        (ipv6hdrOf tosIgnoreFlag false (Iphdr.read src 0)).bytes := by
    rw [headers6, if_pos h.frFlag]
  change ip4Ip6Body tosIgnoreFlag (ip4Ip6 tosIgnoreFlag true) false src 0 (n + hdrLen : ℕ) dst 0 = _
  rw [ip4Ip6Body, hwritten]
  simp only [h.frFlag, if_true, Nat.zero_add, hhdr, hleft]
  generalize (dst.blit 40 (fragHdrOf (Iphdr.read src 0)).bytes).blit 0
    (ipv6hdrOf tosIgnoreFlag false (Iphdr.read src 0)).bytes = dst
  by_cases hicmp : (Iphdr.read src 0).protocol = ipprotoIcmp
  · have hnot : ¬ Translatable src := by
      rw [Translatable, hicmp]
      rintro (htcp | ⟨hudp, -⟩)
      · exact absurd htcp (by decide)
      · exact absurd hudp (by decide)
    rw [if_pos hicmp, if_neg hnot, ip4Ip6Icmp]
    exact if_pos h
  rw [if_neg hicmp]
  by_cases htcp : (Iphdr.read src 0).protocol = ipprotoTcp
  · rw [if_pos htcp, if_pos (.inl htcp)]
    exact memcpy_of_nonneg ..
  rw [if_neg htcp]
  by_cases hudp : (Iphdr.read src 0).protocol = ipprotoUdp
  · rw [if_pos hudp, ip4Ip6Udp]
    dsimp only
    by_cases hzero : (Iphdr.read src 0).fragOff &&& ipOffset = 0 ∧ src.load16 (hdrLen + 6) = 0
    · have hmore : (Iphdr.read src 0).fragOff &&& ipMf ≠ 0 := h.resolve_left fun hne => hne hzero.1
      have hnot : ¬ Translatable src := by
        rw [Translatable, hhdr]
        exact fun ht => ht.elim htcp fun ht => ht.2 hzero
      rw [if_pos ⟨hzero.1, hmore, hzero.2⟩, if_neg hnot]
    · have ht : Translatable src := .inr ⟨hudp, by rwa [hhdr]⟩
      rw [if_neg fun hall => hzero ⟨hall.1, hall.2.2⟩, if_pos ht, memcpy_of_nonneg]
      exact if_neg fun hall => hzero ⟨hall.1, hall.2.2.1⟩
  · have hnot : ¬ Translatable src := fun ht => ht.elim htcp fun ht => hudp ht.1
    rw [if_neg hudp, if_neg hnot]

theorem skb2_of_piece {dst : Bytes} {tosIgnoreFlag : Bool} {n hdrLen : ℕ} {ih4 : Iphdr}
    (ho : o.toNat < 8192) (hoff : ih4.fragOff = fragOffOf clear o)
    (hpiece : IsPiece ih4) (hihl : 5 ≤ ih4.ihl.val) (hhdr : ih4.ihl.val * 4 = hdrLen)
    (htot : ih4.totLen.toNat = n + hdrLen) {data : List UInt8} (hdata : data.length = n)
    {skb : Skb2} (hskb : skb.data = (headers6 tosIgnoreFlag false ih4 dst 0).blit 48 data) :
    skb.fragment = ⟨o.toNat, !clear, data⟩ ∧ skb.fragHdr.identification = ih4.id.toUInt32
      ∧ skb.header.payloadLen.toNat = n + 8 := by
  have hlen : fragLen false ih4 = 8 := if_pos hpiece.frFlag
  have hheaded : Headed tosIgnoreFlag false ih4 skb.data 0 :=
    hskb ▸ (headed_headers6 ih4 dst 0).blit (by rw [hlen]) data
  have hheader : skb.header = ipv6hdrOf tosIgnoreFlag false ih4 :=
    Ipv6hdr.read_of_slice hheaded.header
  have hfrag : skb.fragHdr = fragHdrOf ih4 := FragHdr.read_of_slice (hheaded.fragment hpiece.frFlag)
  have hpayload : skb.header.payloadLen.toNat = n + 8 := by
    rw [hheader, payloadLen_ipv6hdrOf hihl (by omega), hlen, htot]
    omega
  have hfield := toNat_fragOff_fragHdrOf ho hoff
  refine ⟨?_, by rw [hfrag]; rfl, hpayload⟩
  have hslice : skb.data.slice 48 n = data := hskb ▸ hdata ▸ Memory.slice_blit_self ..
  rw [Skb2.fragment, hfrag, hfield, hpayload, Nat.add_sub_cancel, hslice]
  cases clear
  · have hdiv : (o.toNat * 8 + 1) / 8 = o.toNat := by omega
    have hmod : (o.toNat * 8 + 1) % 2 = 1 := by omega
    simp only [Bool.false_eq_true, if_false, hdiv, hmod]
    rfl
  · have hdiv : o.toNat * 8 / 8 = o.toNat := by omega
    have hmod : o.toNat * 8 % 2 = 0 := by omega
    simp only [if_true, Nat.add_zero, hdiv, hmod]
    rfl

end Translation

/-! ## The loop -/

section Loop

variable {tosIgnoreFlag : Bool} {alloc : ℕ → Option Bytes} {src : Bytes} {hdrLen : ℕ}

/-- What is true of every packet that is emitted. -/
structure PieceOf (ih4 : Iphdr) (hdrLen : ℕ) (skb : Skb2) : Prop where
  identification : skb.fragHdr.identification = ih4.id.toUInt32
  payload_le : 40 + skb.header.payloadLen.toNat ≤ 1280
  len_eq : skb.len + 20 = 40 + skb.header.payloadLen.toNat + hdrLen

theorem isPiece_pieceOf (hhdr : 20 ≤ hdrLen) (ho : o.toNat < 8192)
    (hpiece : o ≠ 0 ∨ clear = false) (src buff : Bytes) (cur n : ℕ) :
    IsPiece (Iphdr.read (pieceAt src hdrLen buff cur n clear o) 0) := by
  obtain ⟨check, hread⟩ := read_pieceAt hhdr src buff cur n clear o
  obtain ⟨hoffset, hmore⟩ := fragOffOf_fields ho clear
  rw [IsPiece, hread, hoffset, hmore]
  refine hpiece.imp_right fun hclear => ?_
  rw [hclear]
  decide

variable (tosIgnoreFlag alloc src hdrLen) in
/-- The loop for the header of this packet. -/
abbrev loopFrom (fuel k : ℕ) (buff : Bytes) (cur rest : ℕ) (o : UInt16) :
    List Skb2 × Except Refused Unit :=
  fragmentLoop tosIgnoreFlag alloc src hdrLen (Iphdr.read src 0) fuel k buff cur rest o

theorem fragmentLoop_ok {fuel k rest : ℕ}
    (hok : (loopFrom tosIgnoreFlag alloc src hdrLen (fuel + 1) k buff cur rest o).2 = .ok ()) :
    ∃ (n : ℕ) (clear : Bool) (dst : Bytes) (skb : Skb2),
      ip4Ip6 tosIgnoreFlag false (pieceAt src hdrLen buff cur n clear o) 0 (n + hdrLen : ℕ) dst 0
          = .ok skb.data
        ∧ skb.len = n + hdrLen + ip4Ip6HdrDiff + 8
        ∧ (rest ≤ fragBuffSize ∧ n = rest ∧ clear = flagLastMf (Iphdr.read src 0)
            ∧ (loopFrom tosIgnoreFlag alloc src hdrLen (fuel + 1) k buff cur rest o).1 = [skb]
          ∨ fragBuffSize < rest ∧ n = fragBuffSize ∧ clear = false
            ∧ ∃ buff', (loopFrom tosIgnoreFlag alloc src hdrLen fuel (k + 1) buff' (cur + n)
                (rest - n) (.ofNat ((o.toNat * 8 + n) / 8))).2 = .ok ()
              ∧ (loopFrom tosIgnoreFlag alloc src hdrLen (fuel + 1) k buff cur rest o).1
                = skb :: (loopFrom tosIgnoreFlag alloc src hdrLen fuel (k + 1) buff' (cur + n)
                  (rest - n) (.ofNat ((o.toNat * 8 + n) / 8))).1) := by
  unfold loopFrom at hok ⊢
  rw [fragmentLoop] at hok ⊢
  cases halloc : alloc k with
  | none =>
    rw [halloc] at hok
    cases hok
  | some dst =>
    simp only [halloc] at hok ⊢
    by_cases hlast : rest ≤ fragBuffSize
    · simp only [hlast, decide_true, if_true, Bool.true_and] at hok ⊢
      split at hok
      · cases hok
      next data hdata =>
      exact ⟨rest, _, dst, ⟨data, rest + hdrLen + ip4Ip6HdrDiff + 8⟩, hdata, rfl,
        .inl ⟨trivial, rfl, rfl, rfl⟩⟩
    · simp only [hlast, decide_false, Bool.false_eq_true, if_false, Bool.false_and] at hok ⊢
      split at hok
      · cases hok
      next data hdata =>
      exact ⟨fragBuffSize, false, dst, ⟨data, fragBuffSize + hdrLen + ip4Ip6HdrDiff + 8⟩, hdata,
        rfl, .inr ⟨Nat.lt_of_not_le hlast, rfl, rfl, _, hok, rfl⟩⟩

theorem toNat_nextOffset (ho : o.toNat * 8 + fragBuffSize ≤ 65535) :
    (UInt16.ofNat ((o.toNat * 8 + fragBuffSize) / 8)).toNat = o.toNat + 154
      ∧ UInt16.ofNat ((o.toNat * 8 + fragBuffSize) / 8) ≠ 0 := by
  have hbuff : fragBuffSize = 1232 := rfl
  have hnext : (UInt16.ofNat ((o.toNat * 8 + fragBuffSize) / 8)).toNat = o.toNat + 154 := by
    rw [UInt16.toNat_ofNat_of_lt' (show (o.toNat * 8 + fragBuffSize) / 8 < 65536 by omega)]
    omega
  refine ⟨hnext, fun hzero => ?_⟩
  rw [hzero] at hnext
  exact absurd hnext (by simp)

variable (hihl : 5 ≤ (Iphdr.read src 0).ihl.val) (hhdr : (Iphdr.read src 0).ihl.val * 4 = hdrLen)

include hihl hhdr

theorem fragmentLoop_turn {n : ℕ} (ho : o.toNat < 8192) (hpiece : o ≠ 0 ∨ clear = false)
    (hn : n ≤ fragBuffSize) (dst : Bytes) {skb : Skb2}
    (hok : ip4Ip6 tosIgnoreFlag false (pieceAt src hdrLen buff cur n clear o) 0 (n + hdrLen : ℕ)
      dst 0 = .ok skb.data)
    (hlen : skb.len = n + hdrLen + ip4Ip6HdrDiff + 8) :
    skb.fragment = ⟨o.toNat, !clear, src.slice cur n⟩
      ∧ PieceOf (Iphdr.read src 0) hdrLen skb := by
  have hsize : (Iphdr.read src 0).ihl.val < 16 := (Iphdr.read src 0).ihl.isLt
  have hle : 20 ≤ hdrLen := by omega
  obtain ⟨check, hread⟩ := read_pieceAt hle src buff cur n clear o
  have his := isPiece_pieceOf hle ho hpiece src buff cur n
  generalize hm : pieceAt src hdrLen buff cur n clear o = m at hok hread his
  have hslice : m.slice hdrLen n = src.slice cur n := hm ▸ slice_pieceOf hle ..
  have hmhdr : (Iphdr.read m 0).ihl.val * 4 = hdrLen := by rw [hread]; exact hhdr
  rw [ip4Ip6_of_isPiece his hmhdr] at hok
  split at hok
  · have hskb := (Except.ok.inj hok).symm
    have htot : (Iphdr.read m 0).totLen.toNat = n + hdrLen := by
      have hbuff : fragBuffSize = 1232 := rfl
      rw [hread]
      exact UInt16.toNat_ofNat_of_lt' (show n + hdrLen < 65536 by omega)
    obtain ⟨hfragment, hid, hpayload⟩ := skb2_of_piece ho (congrArg Iphdr.fragOff hread) his
      (by rwa [hread]) hmhdr htot (m.length_slice hdrLen n) hskb
    rw [hslice] at hfragment
    rw [hread] at hid
    refine ⟨hfragment, hid, ?_, ?_⟩
    · rw [hpayload]
      have hbuff : fragBuffSize = 1232 := rfl
      omega
    · rw [hpayload, hlen, ip4Ip6HdrDiff]
      omega
  · cases hok

theorem fragmentLoop_carries {fuel k rest : ℕ} (hfuel : rest < fuel)
    (hbound : o.toNat * 8 + rest ≤ 65535)
    (hpiece : o ≠ 0 ∨ fragBuffSize < rest ∨ flagLastMf (Iphdr.read src 0) = false)
    (hok : (loopFrom tosIgnoreFlag alloc src hdrLen fuel k buff cur rest o).2 = .ok ()) :
    Fragment.Carries (!flagLastMf (Iphdr.read src 0)) o.toNat (src.slice cur rest)
        ((loopFrom tosIgnoreFlag alloc src hdrLen fuel k buff cur rest o).1.map Skb2.fragment)
      ∧ ∀ skb ∈ (loopFrom tosIgnoreFlag alloc src hdrLen fuel k buff cur rest o).1,
        PieceOf (Iphdr.read src 0) hdrLen skb := by
  induction fuel generalizing k buff cur rest o with
  | zero => omega
  | succ fuel ih =>
    have hbuff : fragBuffSize = 1232 := rfl
    obtain ⟨n, clear, dst, skb, hdata, hlen, hturn⟩ := fragmentLoop_ok hok
    rcases hturn with ⟨hlast, rfl, hclear, hone⟩ | ⟨hmore, hn, hclear, buff', hrest, hcons⟩
    · have hshort : o ≠ 0 ∨ clear = false :=
        hpiece.imp_right fun h => hclear.trans (h.resolve_left (by omega))
      obtain ⟨hfragment, hskb⟩ := fragmentLoop_turn hihl hhdr (by omega) hshort hlast dst hdata hlen
      rw [hone, List.map_singleton, hfragment, ← hclear]
      refine ⟨.last ⟨o.toNat, !clear, _⟩ rfl, fun skb' hskb' => ?_⟩
      rw [List.mem_singleton.mp hskb']
      exact hskb
    · obtain ⟨hfragment, hskb⟩ :=
        fragmentLoop_turn hihl hhdr (by omega) (.inr hclear) (Nat.le_of_eq hn) dst hdata hlen
      obtain ⟨hnext, hne⟩ := toNat_nextOffset (o := o) (by omega)
      rw [← hn] at hnext hne
      obtain ⟨hcarries, hall⟩ := ih (by omega) (by omega) (.inl hne) hrest
      rw [hnext] at hcarries
      rw [hcons, List.map_cons, hfragment, hclear]
      have hsplit : src.slice cur rest = src.slice cur n ++ src.slice (cur + n) (rest - n) := by
        rw [← Memory.slice_add]
        congr 1
        omega
      refine ⟨?_, fun skb' hskb' => ?_⟩
      · rw [hsplit]
        exact .cons ⟨o.toNat, true, src.slice cur n⟩ rfl (by simp; omega) hcarries
      · rcases List.mem_cons.mp hskb' with rfl | hskb'
        · exact hskb
        · exact hall skb' hskb'

theorem fragmentLoop_tcp {fuel k rest : ℕ}
    (hproto : (Iphdr.read src 0).protocol = ipprotoTcp) (halloc : ∀ k, (alloc k).isSome)
    (hfuel : rest < fuel) (hbound : o.toNat * 8 + rest ≤ 65535)
    (hpiece : o ≠ 0 ∨ fragBuffSize < rest ∨ flagLastMf (Iphdr.read src 0) = false) :
    (loopFrom tosIgnoreFlag alloc src hdrLen fuel k buff cur rest o).2 = .ok () := by
  have hle : 20 ≤ hdrLen := by omega
  -- each piece has a translation
  have htranslated (clear : Bool) (o : UInt16) (buff dst : Bytes) (cur n : ℕ)
      (ho : o.toNat < 8192) (hpiece : o ≠ 0 ∨ clear = false) :
      ∃ data, ip4Ip6 tosIgnoreFlag false (pieceAt src hdrLen buff cur n clear o) 0
        (n + hdrLen : ℕ) dst 0 = .ok data := by
    obtain ⟨check, hread⟩ := read_pieceAt hle src buff cur n clear o
    refine ⟨_, (ip4Ip6_of_isPiece (isPiece_pieceOf hle ho hpiece src buff cur n)
      (by rw [hread]; exact hhdr) tosIgnoreFlag n dst).trans (if_pos (.inl ?_))⟩
    rw [hread]
    exact hproto
  induction fuel generalizing k buff cur rest o with
  | zero => omega
  | succ fuel ih =>
    have hbuff : fragBuffSize = 1232 := rfl
    obtain ⟨dst, hdst⟩ := Option.isSome_iff_exists.mp (halloc k)
    unfold loopFrom
    rw [fragmentLoop]
    simp only [hdst]
    by_cases hlast : rest ≤ fragBuffSize
    · obtain ⟨data, hdata⟩ := htranslated (flagLastMf (Iphdr.read src 0)) o buff dst cur rest
        (by omega) (hpiece.imp_right fun h => h.resolve_left (by omega))
      simp only [hlast, decide_true, if_true, Bool.true_and, hdata]
    · obtain ⟨data, hdata⟩ := htranslated false o buff dst cur fragBuffSize (by omega) (.inr rfl)
      obtain ⟨hnext, hne⟩ := toNat_nextOffset (o := o) (by omega)
      simp only [hlast, decide_false, Bool.false_eq_true, if_false, Bool.false_and, hdata]
      exact ih (by omega) (by omega) (.inl hne)

end Loop

/-! ## The whole packet -/

section Whole

/-- The packet is a UDP datagram that is not fragmented and has no checksum. -/
def NoChecksum (src : Bytes) (hdrLen : ℕ) : Prop :=
  (Iphdr.read src 0).protocol = ipprotoUdp ∧ (Iphdr.read src 0).fragOff &&& ipOffset = 0
    ∧ (Iphdr.read src 0).fragOff &&& ipMf = 0 ∧ src.load16 (hdrLen + 6) = 0

instance (src : Bytes) (hdrLen : ℕ) : Decidable (NoChecksum src hdrLen) :=
  inferInstanceAs (Decidable (_ ∧ _))

/-- The payload, with the UDP checksum filled in if there was none. -/
def filledPayload (src : Bytes) (hdrLen n : ℕ) : List UInt8 :=
  if NoChecksum src hdrLen then
    src.slice hdrLen 6 ++ be16 (udpCheck src hdrLen (Iphdr.read src 0))
      ++ src.slice (hdrLen + 8) (n - 8)
  else src.slice hdrLen n

/-- **The packets carry the original**, from its offset on and with its flag. -/
def CarriesPacket (src : Bytes) (hdrLen len : ℕ) (skbs : List Skb2) : Prop :=
  Fragment.Carries ((Iphdr.read src 0).fragOff &&& ipMf != 0)
    ((Iphdr.read src 0).fragOff &&& ipOffset).toNat (filledPayload src hdrLen (len - hdrLen))
    (skbs.map Skb2.fragment)

/-- **The packets carry the original**, and none is too long. -/
structure Lossless (src : Bytes) (hdrLen len : ℕ) (skbs : List Skb2) : Prop where
  carries : CarriesPacket src hdrLen len skbs
  identification : ∀ skb ∈ skbs, skb.fragHdr.identification = (Iphdr.read src 0).id.toUInt32
  size : ∀ skb ∈ skbs, skb.len ≤ 1280

theorem zeroCheck_ok {src : Bytes} {hdrLen n : ℕ} {src' : Bytes}
    (hhdr : 20 ≤ hdrLen) (hn : 8 ≤ n) (h : zeroCheck src hdrLen (Iphdr.read src 0) = .ok src') :
    Iphdr.read src' 0 = Iphdr.read src 0 ∧ src'.slice hdrLen n = filledPayload src hdrLen n := by
  unfold zeroCheck at h
  unfold filledPayload
  by_cases hzero : (Iphdr.read src 0).protocol = ipprotoUdp
      ∧ (Iphdr.read src 0).fragOff &&& ipOffset = 0 ∧ src.load16 (hdrLen + 6) = 0
  · rw [if_pos hzero] at h
    by_cases hmf : flagLastMf (Iphdr.read src 0) = true
    · rw [if_pos hmf] at h
      have hno : NoChecksum src hdrLen := ⟨hzero.1, hzero.2.1, beq_iff_eq.mp hmf, hzero.2.2⟩
      rw [if_pos hno]
      cases h
      generalize udpCheck src hdrLen (Iphdr.read src 0) = check
      constructor
      · refine Iphdr.read_of_slice ?_
        rw [Memory.slice_blit_of_disjoint _ (.inl (by omega)), Iphdr.bytes_read]
      · have hsplit : n = 6 + (2 + (n - 8)) := by omega
        have hself := src.slice_blit_self (hdrLen + 6) (be16 check)
        rw [length_be16] at hself
        nth_rewrite 1 [hsplit]
        rw [Memory.slice_add, Memory.slice_add, hself,
          Memory.slice_blit_of_disjoint _ (.inl (by omega)),
          Memory.slice_blit_of_disjoint _ (.inr (by rw [length_be16])), List.append_assoc]
    · rw [if_neg hmf] at h
      cases h
  · rw [if_neg hzero] at h
    cases h
    have hno : ¬ NoChecksum src hdrLen := fun hno => hzero ⟨hno.1, hno.2.1, hno.2.2.2⟩
    rw [if_neg hno]
    exact ⟨rfl, rfl⟩

section Success

variable {src : Bytes} {hdrLen : ℕ} {tosIgnoreFlag : Bool} {alloc : ℕ → Option Bytes} {len : ℕ}
  (hihl : 5 ≤ (Iphdr.read src 0).ihl.val) (hhdr : (Iphdr.read src 0).ihl.val * 4 = hdrLen)
  (hlong : fragBuffSize < len - hdrLen)
  (hbound : ((Iphdr.read src 0).fragOff &&& ipOffset).toNat * 8 + (len - hdrLen) ≤ 65535)

include hihl hhdr hlong hbound

theorem ip4Fragment_ok
    (hok : (ip4Fragment tosIgnoreFlag alloc src hdrLen len buff).2 = .ok ()) :
    CarriesPacket src hdrLen len (ip4Fragment tosIgnoreFlag alloc src hdrLen len buff).1
      ∧ (∀ skb ∈ (ip4Fragment tosIgnoreFlag alloc src hdrLen len buff).1,
        PieceOf (Iphdr.read src 0) hdrLen skb)
      ∧ ∃ skb ∈ (ip4Fragment tosIgnoreFlag alloc src hdrLen len buff).1,
        skb.len = 1260 + hdrLen := by
  have hbuff : fragBuffSize = 1232 := rfl
  rw [ip4Fragment] at hok ⊢
  cases hzero : zeroCheck src hdrLen (Iphdr.read src 0) with
  | error e =>
    rw [hzero] at hok
    cases hok
  | ok src' =>
    obtain ⟨hread, hpayload⟩ := zeroCheck_ok (n := len - hdrLen) (by omega) (by omega) hzero
    simp only [hzero] at hok ⊢
    rw [← hread] at hok hihl hhdr hbound
    rw [CarriesPacket, ← hread, ← hpayload]
    have hcarries := fragmentLoop_carries hihl hhdr (Nat.lt_succ_self _) hbound
      (.inr (.inl hlong)) hok
    refine ⟨?_, hcarries.2, ?_⟩
    · have hflag : (!flagLastMf (Iphdr.read src' 0))
          = ((Iphdr.read src' 0).fragOff &&& ipMf != 0) := rfl
      rw [← hflag]
      exact hcarries.1
    · obtain ⟨n, clear, dst, skb, -, hlen, hturn⟩ := fragmentLoop_ok hok
      rcases hturn with ⟨hlast, -⟩ | ⟨-, hn, -, buff', -, hcons⟩
      · omega
      · refine ⟨skb, ?_, ?_⟩
        · rw [hcons]
          exact List.mem_cons_self
        · rw [hlen, hn, hbuff, ip4Ip6HdrDiff]
          omega

theorem ip4Fragment_tcp (hproto : (Iphdr.read src 0).protocol = ipprotoTcp)
    (halloc : ∀ k, (alloc k).isSome) :
    (ip4Fragment tosIgnoreFlag alloc src hdrLen len buff).2 = .ok () := by
  have hzero : zeroCheck src hdrLen (Iphdr.read src 0) = .ok src := by
    refine if_neg fun h => ?_
    rw [hproto] at h
    exact absurd h.1 (by decide)
  simp only [ip4Fragment, hzero]
  exact fragmentLoop_tcp hihl hhdr hproto halloc (Nat.lt_succ_self _) hbound (.inr (.inl hlong))

end Success

/-- The header of a TCP packet with 1240 bytes of data, of `ihl` words. -/
def longHeader (ihl : Fin 16) : Iphdr where
  version := 4
  ihl := ihl
  tos := 0
  totLen := .ofNat (ihl.val * 4 + 1240)
  id := 7
  fragOff := 0
  ttl := 64
  protocol := ipprotoTcp
  check := 0
  saddr := 0x0a000001
  daddr := 0x0a000002

/-- The packet, with options and data that are zero. -/
def longPacket (ihl : Fin 16) : Bytes := Memory.blit (fun _ => 0) 0 (longHeader ihl).bytes

/-- What `ip4_fragment` does with the packet. -/
def fragmentLong (ihl : Fin 16) : List Skb2 × Except Refused Unit :=
  ip4Fragment false (fun _ => some fun _ => 0) (longPacket ihl) (ihl.val * 4) (ihl.val * 4 + 1240)
    fun _ => 0

theorem read_longPacket (ihl : Fin 16) : Iphdr.read (longPacket ihl) 0 = longHeader ihl := by
  refine Iphdr.read_of_slice ?_
  have hself := Memory.slice_blit_self (fun _ => 0) 0 (longHeader ihl).bytes
  rwa [Iphdr.length_bytes] at hself

theorem bounds_longPacket (ihl : Fin 16) : fragBuffSize < ihl.val * 4 + 1240 - ihl.val * 4
    ∧ ((Iphdr.read (longPacket ihl) 0).fragOff &&& ipOffset).toNat * 8
      + (ihl.val * 4 + 1240 - ihl.val * 4) ≤ 65535 := by
  rw [read_longPacket, Nat.add_sub_cancel_left]
  refine ⟨by decide, ?_⟩
  show ((0 : UInt16) &&& ipOffset).toNat * 8 + 1240 ≤ 65535
  decide

theorem fragmentLong_ok {ihl : Fin 16} (hihl : 5 ≤ ihl.val) : (fragmentLong ihl).2 = .ok () := by
  have hread := read_longPacket ihl
  obtain ⟨hlong, hbound⟩ := bounds_longPacket ihl
  exact ip4Fragment_tcp (by rwa [hread]) (by rw [hread]; rfl) hlong hbound (by rw [hread]; rfl)
    fun _ => rfl

/-- **Fragmenting loses nothing, and the packets are short enough if there are
no options.** If `ip4_fragment` succeeds, what it emits carries the original,
and no packet is longer than 1280 bytes as far as its header says. What is
given to `netif_rx` is not longer either exactly if the IPv4 header has no
options. -/
theorem ip4Fragment_lossless_iff {hdrLen : ℕ} (tosIgnoreFlag : Bool)
    (alloc : ℕ → Option Bytes) (src buff : Bytes) (len : ℕ)
    (hihl : 5 ≤ (Iphdr.read src 0).ihl.val) (hhdr : (Iphdr.read src 0).ihl.val * 4 = hdrLen)
    (hlong : fragBuffSize < len - hdrLen)
    (hbound : ((Iphdr.read src 0).fragOff &&& ipOffset).toNat * 8 + (len - hdrLen) ≤ 65535)
    (hok : (ip4Fragment tosIgnoreFlag alloc src hdrLen len buff).2 = .ok ()) :
    (CarriesPacket src hdrLen len (ip4Fragment tosIgnoreFlag alloc src hdrLen len buff).1
      ∧ ∀ skb ∈ (ip4Fragment tosIgnoreFlag alloc src hdrLen len buff).1,
        skb.fragHdr.identification = (Iphdr.read src 0).id.toUInt32
          ∧ 40 + skb.header.payloadLen.toNat ≤ 1280)
      ∧ (Lossless src hdrLen len (ip4Fragment tosIgnoreFlag alloc src hdrLen len buff).1
        ↔ (Iphdr.read src 0).ihl = 5) := by
  obtain ⟨hcarries, hall, skb, hskb, hlen⟩ := ip4Fragment_ok hihl hhdr hlong hbound hok
  refine ⟨⟨hcarries, fun skb hskb => ⟨(hall skb hskb).identification, (hall skb hskb).payload_le⟩⟩,
    fun h => ?_, fun h => ⟨hcarries, fun skb hskb => (hall skb hskb).identification, ?_⟩⟩
  · -- the first packet is full, and its length counts the options
    have hsize := h.size skb hskb
    apply Fin.ext
    show (Iphdr.read src 0).ihl.val = 5
    omega
  · intro skb hskb
    have hfive : (Iphdr.read src 0).ihl.val = 5 := congrArg Fin.val h
    have hle := (hall skb hskb).payload_le
    have heq := (hall skb hskb).len_eq
    omega

/-- A packet without options. -/
theorem ip4Fragment_lossless_noOptions : Lossless (longPacket 5) 20 1260 (fragmentLong 5).1 :=
  (ip4Fragment_lossless_iff false (fun _ => some fun _ => 0) (longPacket 5) (fun _ => 0) 1260
    (by rw [read_longPacket]; decide) (by rw [read_longPacket]; rfl) (bounds_longPacket 5).1
    (bounds_longPacket 5).2 (fragmentLong_ok (by decide))).2.mpr (by rw [read_longPacket]; rfl)

/-- **With a word of options a packet of 1284 bytes is emitted**, and there is
something behind the data. -/
theorem options_too_long : (fragmentLong 6).2 = .ok ()
    ∧ (∃ skb ∈ (fragmentLong 6).1, skb.len = 1284 ∧ 40 + skb.header.payloadLen.toNat = 1280)
    ∧ ¬ Lossless (longPacket 6) 24 1264 (fragmentLong 6).1 := by
  have hok : (fragmentLong 6).2 = .ok () := fragmentLong_ok (by decide)
  obtain ⟨-, hall, skb, hskb, hlen⟩ := ip4Fragment_ok (by rw [read_longPacket]; decide)
    (by rw [read_longPacket]; rfl) (bounds_longPacket 6).1 (bounds_longPacket 6).2 hok
  have heq : skb.len + 20 = 40 + skb.header.payloadLen.toNat + 24 := (hall skb hskb).len_eq
  have hlong : skb.len = 1284 := hlen
  refine ⟨hok, ⟨skb, hskb, hlong, by omega⟩, fun h => ?_⟩
  have hsize := h.size skb hskb
  omega

end Whole

end Siit
