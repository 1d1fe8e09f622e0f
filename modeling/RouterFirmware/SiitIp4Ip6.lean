import RouterFirmware.SiitPacket

/-!
# From IPv4 to IPv6

`ip4_ip6` translates the IPv4 packet of `len` bytes at `s` to an IPv6 packet at
`d`.
-/

namespace Siit

/-! ## ICMP -/

def icmpEchoreply : UInt8 := 0
def icmpDestUnreach : UInt8 := 3
def icmpEcho : UInt8 := 8
def icmpTimeExceeded : UInt8 := 11
def icmpParameterprob : UInt8 := 12

def icmpNetUnreach : UInt8 := 0
def icmpHostUnreach : UInt8 := 1
def icmpProtUnreach : UInt8 := 2
def icmpPortUnreach : UInt8 := 3
def icmpFragNeeded : UInt8 := 4
def icmpSrFailed : UInt8 := 5
def icmpNetUnknown : UInt8 := 6
def icmpHostUnknown : UInt8 := 7
def icmpHostIsolated : UInt8 := 8
def icmpNetAno : UInt8 := 9
def icmpHostAno : UInt8 := 10
def icmpNetUnrTos : UInt8 := 11
def icmpHostUnrTos : UInt8 := 12

def icmpv6DestUnreach : UInt8 := 1
def icmpv6PktToobig : UInt8 := 2
def icmpv6TimeExceed : UInt8 := 3
def icmpv6Paramprob : UInt8 := 4
def icmpv6EchoRequest : UInt8 := 128
def icmpv6EchoReply : UInt8 := 129

def icmpv6Noroute : UInt8 := 0
def icmpv6AdmProhibited : UInt8 := 1
def icmpv6NotNeighbour : UInt8 := 2
def icmpv6AddrUnreach : UInt8 := 3
def icmpv6PortUnreach : UInt8 := 4
def icmpv6UnkNexthdr : UInt8 := 1

def destUnreach4 (src : Bytes) (a : ℕ) (dst : Bytes) (b : ℕ) : Except Refused Bytes :=
  let code := src (a + 1)
  let dst := (dst.blit b [icmpv6DestUnreach]).blit (b + 4) (be32 0)
  if code ∈ [icmpNetUnreach, icmpHostUnreach, icmpSrFailed, icmpNetUnknown, icmpHostUnknown,
      icmpHostIsolated, icmpNetUnrTos, icmpHostUnrTos] then
    .ok (dst.blit (b + 1) [icmpv6Noroute])
  else if code = icmpProtUnreach then
    .ok ((dst.blit b [icmpv6Paramprob, icmpv6UnkNexthdr]).blit (b + 4) (be32 6))
  else if code = icmpPortUnreach then
    .ok (dst.blit (b + 1) [icmpv6PortUnreach])
  else if code = icmpFragNeeded then
    let mtu := src.load16 (a + 6)
    let mtu6 : UInt32 := if mtu = 0 then 576 else mtu.toUInt32 + .ofNat ip4Ip6HdrDiff
    .ok ((dst.blit b [icmpv6PktToobig, 0]).blit (b + 4) (be32 mtu6))
  else if code = icmpNetAno ∨ code = icmpHostAno then
    .ok (dst.blit (b + 1) [icmpv6AdmProhibited])
  else .error .dropped

def pointer4 (ptr : UInt8) : UInt32 :=
  if ptr = 0 then 0
  else if ptr = 2 then 4
  else if ptr = 8 then 7
  else if ptr = 9 then 6
  else if ptr = 12 then 8
  else if ptr = 16 then 24
  else 0xffffffff

def icmp4Header (src : Bytes) (a : ℕ) (n : ℤ) (dst : Bytes) (b : ℕ) :
    Except Refused (Bytes × Bool) :=
  let type := src a
  let code := src (a + 1)
  if type = icmpDestUnreach then do
    return (← destUnreach4 src a dst b, true)
  else if type = icmpTimeExceeded then
    .ok (dst.blit b [icmpv6TimeExceed, code], true)
  else if type = icmpParameterprob then
    .ok ((dst.blit b [icmpv6Paramprob, code]).blit (b + 4) (be32 (pointer4 (src (a + 4)))), true)
  else if type = icmpEcho then do
    return (← memcpy (dst.blit b [icmpv6EchoRequest, 0]) (b + 4) src (a + 4) (n - 4), false)
  else if type = icmpEchoreply then do
    return (← memcpy (dst.blit b [icmpv6EchoReply, 0]) (b + 4) src (a + 4) (n - 4), false)
  else .error .dropped

/-! ## The headers -/

def fragHdrOf (ih4 : Iphdr) : FragHdr where
  nexthdr := if ih4.protocol = ipprotoIcmp then nexthdrIcmp else ih4.protocol
  reserved := 0
  fragOff := (ih4.fragOff &&& ipOffset) <<< 3 ||| (ih4.fragOff &&& ipMf) >>> 13
  identification := ih4.id.toUInt32

def embed (third addr : UInt32) : In6Addr := ⟨0, 0, third, addr⟩

def frFlag (includeFlag : Bool) (ih4 : Iphdr) : Bool :=
  !(ih4.fragOff == ipDf || includeFlag)

def plenOf (includeFlag : Bool) (ih4 : Iphdr) : ℤ :=
  let newTotLen := if frFlag includeFlag ih4 then ih4.totLen + 8 else ih4.totLen
  newTotLen.toNat - (ih4.ihl.val * 4 : ℕ)

def ipv6hdrOf (tosIgnoreFlag includeFlag : Bool) (ih4 : Iphdr) : Ipv6hdr where
  version := 6
  priority := if tosIgnoreFlag then 0 else Fin.ofNat 16 ((ih4.tos &&& 0xf0) >>> 4).toNat
  flowLbl0 := if tosIgnoreFlag then 0 else (ih4.tos &&& 0x0f) <<< 4
  flowLbl1 := 0
  flowLbl2 := 0
  payloadLen := .ofInt (plenOf includeFlag ih4)
  nexthdr :=
    if frFlag includeFlag ih4 then nexthdrFragment
    else if ih4.protocol = ipprotoIcmp then nexthdrIcmp
    else ih4.protocol
  hopLimit := ih4.ttl
  saddr := embed (if includeFlag then translatedPrefix else mappedPrefix) ih4.saddr
  daddr := embed (if includeFlag then mappedPrefix else translatedPrefix) ih4.daddr

/-! ## The translation -/

/-- A translator of the packet of `len` bytes at `s`, to `d`. -/
abbrev Translator (ρ : Type) : Type :=
  Bytes → ℕ → ℤ → Bytes → ℕ → Except Refused ρ

def setIcmp6Cksum (ih6 : Ipv6hdr) (dst : Bytes) (b : ℕ) (n : ℤ) : Except Refused Bytes :=
  let dst := dst.blit (b + 2) (be16 0)
  if n < 0 then .error .fault
  else
    let csum := csumPartial (dst.slice b n.toNat) 0
    .ok (dst.blit (b + 2)
      (be16 (csumIpv6Magic ih6.saddr ih6.daddr n.toNat ipprotoIcmpv6 csum)))

def ip4Ip6Icmp (inner : Translator Bytes) (includeFlag : Bool) (ih4 : Iphdr)
    (ih6 : Ipv6hdr) (src : Bytes) (a : ℕ) (n : ℤ) (dst : Bytes) (d b : ℕ) : Except Refused Bytes :=
  if ih4.fragOff &&& ipOffset ≠ 0 ∨ ih4.fragOff &&& ipMf ≠ 0 then .error .dropped
  else if includeFlag then .error .dropped
  else do
    let icmpLen : ℤ := ih4.totLen.toNat - (ih4.ihl.val * 4 : ℕ)
    let (dst, icmperr) ← icmp4Header src a n dst b
    if icmperr then
      let dst ← inner src (a + 8) (n - 8) dst (b + 8)
      -- the packet in the message grows by the difference of the headers
      let dst := dst.blit (d + 4) (be16 (.ofInt (plenOf includeFlag ih4 + 20)))
      setIcmp6Cksum ih6 dst b (icmpLen + 20)
    else setIcmp6Cksum ih6 dst b icmpLen

def ip4Ip6Udp (includeFlag : Bool) (ih4 : Iphdr) (ih6 : Ipv6hdr) (src : Bytes) (a : ℕ)
    (n : ℤ) (dst : Bytes) (b : ℕ) : Except Refused Bytes :=
  let first := ih4.fragOff &&& ipOffset = 0
  let more := ih4.fragOff &&& ipMf ≠ 0
  let zero := src.load16 (a + 6) = 0
  if first ∧ more ∧ zero then .error .dropped
  else do
    let dst ← memcpy dst b src a n
    if first ∧ ¬ more ∧ zero ∧ ¬ includeFlag then
      let udpLen := plenOf includeFlag ih4 - if frFlag includeFlag ih4 then 8 else 0
      let dst := dst.blit (b + 6) (be16 0)
      if udpLen < 0 then .error .fault
      else
        let csum := csumPartial (dst.slice b udpLen.toNat) 0
        return dst.blit (b + 6)
          (be16 (csumIpv6Magic ih6.saddr ih6.daddr udpLen.toNat ipprotoUdp csum))
    else return dst

def ip4Ip6Body (tosIgnoreFlag : Bool) (inner : Translator Bytes) (includeFlag : Bool) :
    Translator Bytes := fun src s len dst d =>
  let ih4 := Iphdr.read src s
  let hdrLen := ih4.ihl.val * 4
  let fr := frFlag includeFlag ih4
  let ih6 := ipv6hdrOf tosIgnoreFlag includeFlag ih4
  let dst := if fr then dst.blit (d + 40) (fragHdrOf ih4).bytes else dst
  let dst := dst.blit d ih6.bytes
  let b := d + 40 + if fr then 8 else 0
  if ih4.protocol = ipprotoIcmp then
    ip4Ip6Icmp inner includeFlag ih4 ih6 src (s + hdrLen) (len - hdrLen) dst d b
  else if ih4.protocol = ipprotoTcp then
    memcpy dst b src (s + hdrLen) (len - hdrLen)
  else if ih4.protocol = ipprotoUdp then
    ip4Ip6Udp includeFlag ih4 ih6 src (s + hdrLen) (len - hdrLen) dst b
  else .error .dropped

def ip4Ip6 (tosIgnoreFlag includeFlag : Bool) : Translator Bytes :=
  -- with the flag set, ICMP is dropped before the call
  let included := ip4Ip6Body tosIgnoreFlag (fun _ _ _ _ _ => .error .dropped) true
  if includeFlag then included else ip4Ip6Body tosIgnoreFlag included false

end Siit
