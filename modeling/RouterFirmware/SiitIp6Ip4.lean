import RouterFirmware.Loop
import RouterFirmware.SiitIp4Ip6

/-!
# From IPv6 to IPv4

`ip6_ip4` translates the IPv6 packet of `len` bytes at `s` to an IPv4 packet
at `d`, and returns its length – or, for the packet in an ICMPv6 error, how
long its extension headers were.
-/

namespace Siit

/-! ## The walk over the extension headers -/

structure Walk where
  /-- `len_delta`: the bytes that are left. -/
  lenDelta : ℤ
  /-- `opts_len`: the bytes of the extension headers. -/
  optsLen : ℕ
  /-- `next_hdr`. -/
  nextHdr : UInt8
  /-- The `id` of the IPv4 header. -/
  id : UInt16
  /-- The `frag_off` of the IPv4 header. -/
  fragOff : UInt16
  /-- Position in the packet and length of every header that was read. -/
  headers : List (ℕ × ℕ)

def intMin : ℤ := -2 ^ 31

def optionLen (hdrlen : UInt8) : ℕ := hdrlen.toNat * 8 + 8

namespace Walk

def pos (w : Walk) : ℕ := 40 + w.optsLen

def take (w : Walk) (n : ℕ) : Walk :=
  { w with lenDelta := w.lenDelta - n, headers := (w.pos, n) :: w.headers }

def pass (w : Walk) (n : ℕ) (nextHdr : UInt8) : Walk :=
  { w with optsLen := w.optsLen + n, nextHdr := nextHdr }

end Walk

theorem le_optionLen (hdrlen : UInt8) : 8 ≤ optionLen hdrlen := Nat.le_add_left ..

def walkTurn (src : Bytes) (s : ℕ) (w : Walk) : Turn Walk (Except Refused Walk) :=
  if w.nextHdr = nexthdrIcmp ∨ w.nextHdr = nexthdrTcp ∨ w.nextHdr = nexthdrUdp then
    .leave (.ok w)
  else if w.nextHdr = nexthdrDest then
    let n := optionLen (src (s + w.pos + 1))
    if w.lenDelta - n < intMin then .leave (.error .overflow)
    else if 0 ≤ w.lenDelta - n then .again ((w.take n).pass n (src (s + w.pos)))
    -- the header does not fit, and is read again
    else .again (w.take n)
  else if w.nextHdr = nexthdrRouting then
    let n := optionLen (src (s + w.pos + 1))
    if src (s + w.pos + 3) ≠ 0 then .leave (.error .dropped)
    else if w.lenDelta - n < intMin then .leave (.error .overflow)
    else if 0 ≤ w.lenDelta - n then .again ((w.take n).pass n (src (s + w.pos)))
    else .leave (.error .dropped)
  else if w.nextHdr = nexthdrFragment then
    let ip6f := FragHdr.read src (s + w.pos)
    if w.lenDelta - 8 < intMin then .leave (.error .overflow)
    else if 0 ≤ w.lenDelta - 8 then
      .again { (w.take 8).pass 8 ip6f.nexthdr with
        id := ip6f.identification.toUInt16
        fragOff := (ip6f.fragOff &&& 0xfff8) >>> 3 ||| (ip6f.fragOff &&& 1) <<< 13 }
    else .leave (.error .dropped)
  else if w.nextHdr = nexthdrNone then .leave (.ok w)
  -- ESP, AUTH, an IPv6 packet, a hop-by-hop header out of place, or any other
  else .leave (.error .dropped)

theorem lenDelta_lt_of_again {src : Bytes} {s : ℕ} {w w' : Walk}
    (h : walkTurn src s w = .again w') : intMin ≤ w'.lenDelta ∧ w'.lenDelta < w.lenDelta := by
  have hlen := le_optionLen (src (s + w.pos + 1))
  unfold walkTurn at h
  dsimp only at h
  split_ifs at h <;> cases h <;> simp only [Walk.take, Walk.pass] <;> omega

def walk (src : Bytes) (s : ℕ) (w : Walk) : Except Refused Walk :=
  match _h : walkTurn src s w with
  | .leave r => r
  | .again w' => walk src s w'
termination_by (w.lenDelta - intMin).toNat
decreasing_by
  have := lenDelta_lt_of_again _h
  omega

def hopByHop (src : Bytes) (s : ℕ) (w : Walk) : Except Refused Walk :=
  if w.nextHdr = nexthdrHop then
    let n := optionLen (src (s + w.pos + 1))
    if 0 ≤ w.lenDelta - n then .ok ((w.take n).pass n (src (s + w.pos)))
    else .error .dropped
  else .ok w

def ip6Headers (includeFlag : Bool) (src : Bytes) (s : ℕ) (len : ℤ) : Except Refused Walk :=
  if 0 ≤ len - 40 then
    let ip6Hdr := Ipv6hdr.read src s
    let srcPrefix := if includeFlag then mappedPrefix else translatedPrefix
    let dstPrefix := if includeFlag then translatedPrefix else mappedPrefix
    if ip6Hdr.saddr.word2 ≠ srcPrefix then .error .dropped
    else if ip6Hdr.daddr.word2 ≠ dstPrefix then .error .dropped
    else do
      let w ← hopByHop src s ⟨len - 40, 0, ip6Hdr.nexthdr, 0, 0, []⟩
      if 0 < w.lenDelta then walk src s w else return w
  else .error .dropped

/-! ## ICMPv6 -/

def pointer6 (ptr : UInt32) : ℕ :=
  if ptr = 0 then 0
  else if ptr = 4 then 2
  else if ptr = 6 then 9
  else if ptr = 7 then 8
  else if ptr = 8 then 12
  else if ptr = 24 then 16
  else 0xff

def destUnreach6 (src : Bytes) (a : ℕ) (dst : Bytes) (b : ℕ) : Except Refused Bytes :=
  let code := src (a + 1)
  let dst := (dst.blit b [icmpDestUnreach]).blit (b + 4) (be32 0)
  if code = icmpv6Noroute ∨ code = icmpv6NotNeighbour ∨ code = icmpv6AddrUnreach then
    .ok (dst.blit (b + 1) [icmpHostUnreach])
  else if code = icmpv6AdmProhibited then .ok (dst.blit (b + 1) [icmpHostAno])
  else if code = icmpv6PortUnreach then .ok (dst.blit (b + 1) [icmpPortUnreach])
  else .error .dropped

def echo6 (type : UInt8) (src : Bytes) (a : ℕ) (n : ℤ) (dst : Bytes) (b : ℕ) : Bytes :=
  let dst := (dst.blit b [type, 0]).blit (b + 4) (src.slice (a + 4) 4)
  if 0 < n then dst.blit (b + 8) (src.slice (a + 8) n.toNat) else dst

def icmp6Header (host : ByteOrder) (src : Bytes) (a : ℕ) (n : ℤ) (dst : Bytes)
    (b : ℕ) : Except Refused (Bytes × Bool) :=
  let type := src a
  let code := src (a + 1)
  if type = icmpv6DestUnreach then do
    return (← destUnreach6 src a dst b, true)
  else if type = icmpv6PktToobig then
    let mtu := src.load host 4 (a + 4)
    .ok ((dst.blit b [icmpDestUnreach, icmpFragNeeded]).store host 2 (b + 6) mtu, true)
  else if type = icmpv6TimeExceed then
    .ok (dst.blit b [icmpTimeExceeded, code], true)
  else if type = icmpv6Paramprob then
    if code = icmpv6UnkNexthdr then .ok (dst.blit b [icmpDestUnreach, icmpProtUnreach], true)
    else
      .ok ((dst.blit b [icmpParameterprob, 0]).store host 2 (b + 4)
        (pointer6 (src.load32 (a + 4))), true)
  else if type = icmpv6EchoRequest then .ok (echo6 icmpEcho src a n dst b, false)
  else if type = icmpv6EchoReply then .ok (echo6 icmpEchoreply src a n dst b, false)
  else .error .dropped

/-! ## The translation -/

def ntotLenOf (ip6Hdr : Ipv6hdr) (w : Walk) : ℤ :=
  if ip6Hdr.payloadLen = 0 then 0
  else ip6Hdr.payloadLen.toNat + ip4Ip6HdrDiff - w.optsLen

def iphdrOf (tosIgnoreFlag : Bool) (ip6Hdr : Ipv6hdr) (w : Walk) : Iphdr where
  version := 4
  ihl := 5
  tos :=
    if tosIgnoreFlag then 0
    else .ofNat (ip6Hdr.priority.val <<< 4) ||| (ip6Hdr.flowLbl0 >>> 4)
  totLen := .ofInt (ntotLenOf ip6Hdr w)
  id := w.id
  fragOff := w.fragOff
  ttl := ip6Hdr.hopLimit
  protocol := w.nextHdr
  check := 0
  saddr := ip6Hdr.saddr.word3
  daddr := ip6Hdr.daddr.word3

def setIcmpChecksum (hdr : Iphdr) (dst : Bytes) (b : ℕ) : Except Refused Bytes :=
  let n : ℤ := hdr.totLen.toNat - 20
  let dst := dst.blit (b + 2) (be16 0)
  if n < 0 then .error .fault
  else .ok (dst.blit (b + 2) (be16 (internetChecksum (dst.slice b n.toNat))))

def ip6Ip4Icmp (host : ByteOrder) (inner : Translator (ℤ × Bytes)) (includeFlag : Bool)
    (hdr : Iphdr) (ntotLen : ℤ) (src : Bytes) (a : ℕ) (lenDelta : ℤ)
    (dst : Bytes) (d : ℕ) : Except Refused (ℤ × Bytes) :=
  let n := lenDelta - 8
  let b := d + 20
  let hdr := { hdr with protocol := ipprotoIcmp }
  if n < 0 then .error .dropped
  else if includeFlag ∧ src a ≠ icmpv6EchoRequest then .error .dropped
  else do
    let (dst, icmperr) ← icmp6Header host src a n dst b
    let (incOptsLen, dst) ←
      if icmperr ∧ 40 ≤ n then do
        let (opts, dst) ← inner src (a + 8) n dst (b + 8)
        -- the packet in the message has lost its extension headers, too
        pure (some (opts + ip4Ip6HdrDiff), dst)
      else if icmperr ∧ 0 < n then do
        let dst ← memcpy dst (b + 8) src (a + 8) n
        pure (none, dst)
      else pure (none, dst)
    let shrink := incOptsLen.getD 0
    let hdr := if ntotLen = 0 then hdr else { hdr with totLen := .ofInt (ntotLen - shrink) }
    let dst := dst.blit d hdr.withCheck.bytes
    let dst ← if ntotLen = 0 then pure dst else setIcmpChecksum hdr dst b
    return (20 + (n + 8) - shrink, dst)

def ip6Ip4Body (tosIgnoreFlag : Bool) (host : ByteOrder) (inner : Translator (ℤ × Bytes))
    (includeFlag : Bool) : Translator (ℤ × Bytes) := fun src s len dst d => do
  let w ← ip6Headers includeFlag src s len
  let ip6Hdr := Ipv6hdr.read src s
  let hdr := iphdrOf tosIgnoreFlag ip6Hdr w
  let dst := dst.blit d hdr.withCheck.bytes
  let a := s + w.pos
  let (realLen, dst) ←
    if w.lenDelta ≤ 0 then pure (20, dst)
    else if w.nextHdr = nexthdrIcmp then
      ip6Ip4Icmp host inner includeFlag hdr (ntotLenOf ip6Hdr w) src a w.lenDelta dst d
    else do
      let dst ← memcpy dst (d + 20) src a w.lenDelta
      pure (20 + w.lenDelta, dst)
  return (if includeFlag then (w.optsLen : ℤ) else realLen, dst)

def ip6Ip4 (tosIgnoreFlag : Bool) (host : ByteOrder) (includeFlag : Bool) :
    Translator (ℤ × Bytes) :=
  -- with the flag set, only an echo request is translated, which has no packet in it
  let included := ip6Ip4Body tosIgnoreFlag host (fun _ _ _ _ _ => .error .dropped) true
  if includeFlag then included else ip6Ip4Body tosIgnoreFlag host included false

end Siit
