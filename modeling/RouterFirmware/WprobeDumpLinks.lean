import RouterFirmware.WprobeInfo

/-!
# The dump of the links of a wprobe interface

`WPROBE_CMD_GET_LINKS` asks for the addresses of the stations that an interface
has heard.  A netlink dump is a callback that is called again and again, each
time with an empty message buffer, until it adds nothing; what it has to
remember between two calls it keeps in the arguments of the callback.

`wprobe_dump_links` remembers the interface and the number of links that it has
sent.  In its loop

    if (i < cb->args[1])
        continue;

a link that was sent before is skipped *without* being counted, so that `i`
stays at zero and every link is skipped once the number is not zero.  The second
call therefore adds nothing, and the dump ends with what the first buffer held
(`dump_linksCall`).

The main result `dumpLinks_complete_iff` says which dumps are complete in the
sense of `Netlink.Completes`: those whose first buffer has room for the records
of all links.  The buffers of the calls may differ in size.
-/

namespace Wprobe

open List Netlink Skb Errno

/-! ## The dump -/

/-- **The request and what is kept between two calls** (`struct
netlink_callback`). -/
structure Callback where
  pid : UInt32
  seq : UInt32
  /-- What `nlmsg_parse` makes of the request: its error, or the attribute
  `WPROBE_ATTR_INTERFACE`. -/
  parsed : Except ℤ (Option (List UInt8))
  /-- `args[0]`: the interface. -/
  dev : Option ℕ
  /-- `args[1]`: the number of links. -/
  index : ℕ

/-- The callback of a request before the first call. -/
def Callback.start (pid seq : UInt32) (attr : Option (List UInt8)) : Callback :=
  ⟨pid, seq, .ok attr, none, 0⟩

/-- The header of a record of `WPROBE_CMD_GET_LINKS`. -/
def linkHeader (env : Env) (cb : Callback) : Header :=
  recordHeader env cb.pid.toNat cb.seq.toNat 5

/-- `WPROBE_ATTR_MAC`, the address of a link. -/
def macAttr (l : LinkHdr) : Attr := ⟨2, l.addr.toList⟩

/-- **`wprobe_dump_link`**: whether the message for a link was added. -/
def wprobeDumpLink (env : Env) (msg : Skb) (l : LinkHdr) (cb : Callback) : Bool × Skb :=
  match genlmsgPut env.host msg (linkHeader env cb) with
  | none => (false, msg)
  | some (hdr, msg) =>
    match nlaPut env.host msg (macAttr l) with
    | none => (false, genlmsgCancel msg (some hdr))
    | some msg => (true, genlmsgEnd env.host msg hdr)

/-- The loop of `wprobe_dump_links` over the links, from the counter `i`. -/
def dumpLoop (env : Env) (cb : Callback) : List LinkHdr → ℕ → Skb → ℕ × Skb
  | [], i, skb => (i, skb)
  | l :: links, i, skb =>
    -- the counter stays where it is when a link is skipped
    if i < cb.index then dumpLoop env cb links i skb
    else
      match wprobeDumpLink env skb l cb with
      | (false, skb) => (i, skb)
      | (true, skb) => dumpLoop env cb links (i + 1) skb

/-- The interface of a call: the one that the request names in the first call,
and the one at the pointer that was kept in the others. -/
def dumpDev (devices : List Device) (cb : Callback) : Except ℤ Device :=
  match cb.dev with
  | none => do
    let attr ← cb.parsed
    match Device.wprobeGetDev devices attr with
    | none => .error (-ENODEV)
    | some dev => .ok dev
  | some ptr =>
    match deviceAt devices ptr with
    | none => .error (-ENODEV)
    | some dev => .ok dev

/-- **`wprobe_dump_links`**: the return value, the buffer and what is kept. -/
def wprobeDumpLinks (env : Env) (devices : List Device) (skb : Skb) (cb : Callback) :
    ℤ × Skb × Callback :=
  match dumpDev devices cb with
  | .error err => (err, skb, cb)
  | .ok dev =>
    let (i, skb) := dumpLoop env cb dev.linkHdrs 0 skb
    (skb.data.length, skb, { cb with dev := some dev.ptr, index := i })

/-- A call of the dump with an empty buffer, of its own size for each call. -/
def linksCall (env : Env) (devices : List Device) (room : ℕ → ℕ) (s : ℕ × Callback) :
    Option ((ℕ × Callback) × List UInt8) :=
  let (_, skb, cb) := wprobeDumpLinks env devices (empty (room s.1)) s.2
  some ((s.1 + 1, cb), skb.data)

/-! ## One call -/

/-- The message for a link. -/
def linkRecord (env : Env) (cb : Callback) (l : LinkHdr) : List UInt8 :=
  message env.host (linkHeader env cb) ((macAttr l).bytes env.host)

theorem length_macAttr (host : ByteOrder) (l : LinkHdr) : ((macAttr l).bytes host).length = 12 := by
  rw [Attr.length_bytes, macAttr, Vector.length_toList]
  rfl

/-- The message for a link has 32 bytes. -/
theorem length_linkRecord (env : Env) (cb : Callback) (l : LinkHdr) :
    (linkRecord env cb l).length = 32 := by
  rw [linkRecord, length_message, length_macAttr]

theorem length_flatMap_linkRecord (env : Env) (cb : Callback) (links : List LinkHdr) :
    (links.flatMap (linkRecord env cb)).length = 32 * links.length := by
  induction links with
  | nil => rfl
  | cons l links ih =>
    rw [flatMap_cons, length_append, ih, length_linkRecord, length_cons]
    omega

/-- **A link is added as a whole or not at all**: header and address need 32
bytes, and where only the header fits, it is taken back. -/
theorem wprobeDumpLink_eq (env : Env) (skb : Skb) (l : LinkHdr) (cb : Callback) :
    wprobeDumpLink env skb l cb
      = if skb.Fits 32 then (true, skb.add (linkRecord env cb l)) else (false, skb) := by
  have hattr : (skb.add ((linkHeader env cb).bytes env.host 20)).Fits
      ((macAttr l).bytes env.host).length ↔ skb.Fits 32 := by
    rw [fits_add, Header.length_bytes, length_macAttr]
  rw [wprobeDumpLink, genlmsgPut]
  by_cases hhdr : skb.Fits 20
  · rw [if_pos hhdr]
    dsimp only
    by_cases hfits : skb.Fits 32
    · rw [nlaPut_of_fits (hattr.mpr hfits), if_pos hfits]
      dsimp only
      rw [add_add, genlmsgEnd_put]
      rfl
    · rw [nlaPut_of_not_fits (mt hattr.mp hfits), if_neg hfits]
      dsimp only
      rw [genlmsgCancel_add]
  · rw [if_neg hhdr, if_neg fun hfits => hhdr (hfits.mono (by decide))]

/-- **A loop that skips nothing** adds as many links as there is room for. -/
theorem dumpLoop_of_le (env : Env) {skb : Skb} {cb : Callback} {i : ℕ} (links : List LinkHdr)
    (hi : cb.index ≤ i) (hskb : skb.Fits 0) : dumpLoop env cb links i skb
    = (i + min links.length ((skb.room - skb.data.length) / 32),
        skb.add ((links.take ((skb.room - skb.data.length) / 32)).flatMap
          (linkRecord env cb))) := by
  induction links generalizing i skb with
  | nil => simp [dumpLoop]
  | cons l links ih =>
    rw [dumpLoop, if_neg (by omega), wprobeDumpLink_eq]
    by_cases hfits : skb.Fits 32
    · have hrest : (skb.add (linkRecord env cb l)).Fits 0 := by
        rwa [fits_add, length_linkRecord]
      have hnum : (skb.room - skb.data.length) / 32
          = (skb.room - (skb.data.length + 32)) / 32 + 1 := by
        unfold Fits at hfits
        omega
      rw [if_pos hfits]
      dsimp only
      rw [ih (by omega) hrest, room_add, data_add, length_append, length_linkRecord, hnum,
        add_add, take_succ_cons, flatMap_cons, length_cons]
      refine Prod.ext ?_ rfl
      show i + 1 + min links.length ((skb.room - (skb.data.length + 32)) / 32)
        = i + min (links.length + 1) ((skb.room - (skb.data.length + 32)) / 32 + 1)
      omega
    · have hnum : (skb.room - skb.data.length) / 32 = 0 := by
        unfold Fits at hfits
        omega
      rw [if_neg hfits, hnum]
      simp

/-- **A loop that skips one link skips them all**, as the counter stays. -/
theorem dumpLoop_of_lt (env : Env) {cb : Callback} {i : ℕ} (links : List LinkHdr)
    (hi : i < cb.index) (skb : Skb) : dumpLoop env cb links i skb = (i, skb) := by
  induction links with
  | nil => rfl
  | cons l links ih => rw [dumpLoop, if_pos hi, ih]

/-! ## The whole dump -/

section Dump

variable {env : Env} {devices : List Device} {attr : Option (List UInt8)} {dev : Device}
  {pid seq : UInt32} {room : ℕ → ℕ}

/-- What the first call adds: the links that its buffer has room for. -/
theorem linksCall_start (hdev : Device.wprobeGetDev devices attr = some dev) :
    linksCall env devices room (0, .start pid seq attr)
      = some ((1, ⟨pid, seq, .ok attr, some dev.ptr, min dev.linkHdrs.length (room 0 / 32)⟩),
          (dev.linkHdrs.take (room 0 / 32)).flatMap (linkRecord env (.start pid seq attr))) := by
  have hfound : dumpDev devices (.start pid seq attr) = .ok dev := by
    simp only [dumpDev, Callback.start, bind, Except.bind, hdev]
  have hloop : dumpLoop env (.start pid seq attr) dev.linkHdrs 0 (empty (room 0))
      = (min dev.linkHdrs.length (room 0 / 32), (empty (room 0)).add
          ((dev.linkHdrs.take (room 0 / 32)).flatMap (linkRecord env (.start pid seq attr)))) := by
    have hempty : (empty (room 0)).Fits 0 := Nat.zero_le _
    rw [dumpLoop_of_le env dev.linkHdrs (Nat.le_refl 0) hempty, Nat.zero_add]
    rfl
  rw [linksCall, wprobeDumpLinks, hfound]
  dsimp only
  rw [hloop]
  rfl

/-- A call after links have been sent adds nothing. -/
theorem linksCall_resumed {cb : Callback} {k : ℕ}
    (hdev : deviceAt devices dev.ptr = some dev) (hptr : cb.dev = some dev.ptr)
    (hindex : 0 < cb.index) : linksCall env devices room (k, cb)
    = some ((k + 1, { cb with dev := some dev.ptr, index := 0 }), []) := by
  have hfound : dumpDev devices cb = .ok dev := by
    simp only [dumpDev, hptr, hdev]
  rw [linksCall, wprobeDumpLinks, hfound]
  dsimp only
  rw [dumpLoop_of_lt env dev.linkHdrs hindex]
  rfl

/-- **A dump sends what the first call added**, and the second call ends it. -/
theorem dump_linksCall (hptrs : (devices.map Device.ptr).Nodup)
    (hdev : Device.wprobeGetDev devices attr = some dev) :
    dump (linksCall env devices room) 2 (0, .start pid seq attr)
      = some (single ((dev.linkHdrs.take (room 0 / 32)).flatMap
          (linkRecord env (.start pid seq attr)))) := by
  refine dump_two (linksCall_start hdev) fun hne => ?_
  -- something was added, so the number that was kept is not zero
  have hpos : 0 < min dev.linkHdrs.length (room 0 / 32) := by
    have hlen := length_pos_of_ne_nil hne
    rw [length_flatMap_linkRecord, length_take] at hlen
    omega
  exact ⟨_, linksCall_resumed (deviceAt_of_mem hptrs (mem_of_wprobeGetDev hdev)) rfl hpos⟩

end Dump

/-- **Which dumps are complete**: those whose first buffer has room for the
records of all links. -/
theorem dumpLinks_complete_iff (env : Env) {devices : List Device} {attr : Option (List UInt8)}
    {dev : Device} (hptrs : (devices.map Device.ptr).Nodup)
    (hdev : Device.wprobeGetDev devices attr = some dev) (pid seq : UInt32) (room : ℕ → ℕ) :
    Completes (linksCall env devices room) (0, .start pid seq attr)
        (dev.linkHdrs.map (linkRecord env (.start pid seq attr)))
      ↔ 32 * dev.linkHdrs.length ≤ room 0 := by
  have hne : ∀ r ∈ dev.linkHdrs.map (linkRecord env (.start pid seq attr)), r ≠ [] := by
    intro r hr
    obtain ⟨l, -, rfl⟩ := mem_map.mp hr
    exact ne_nil_of_length_pos (by rw [length_linkRecord]; decide)
  rw [completes_iff_of_dump (dump_linksCall hptrs hdev), complete_single_iff hne, ← flatMap_def]
  constructor
  · intro heq
    have hlen := congrArg length heq
    rw [length_flatMap_linkRecord, length_flatMap_linkRecord, length_take] at hlen
    omega
  · intro hfits
    rw [take_of_length_le (by omega)]

/-- An interface with three links. -/
def threeLinks : Device where
  ptr := 4096
  name := [0x77]
  addr := none
  nGlobalItems := 0
  nLinkItems := 0
  items := ⟨#v[], #v[]⟩
  iface := { (Iface.added : Iface Value 0 0) with links := [#v[], #v[], #v[]] }
  linkHdrs := [⟨1, #v[2, 0, 0, 0, 0, 1], 0⟩, ⟨2, #v[2, 0, 0, 0, 0, 2], 0⟩,
    ⟨3, #v[2, 0, 0, 0, 0, 3], 0⟩]
  queryVal := #v[]
  length_linkHdrs := rfl

/-- Buffers of 96 bytes are enough for three links. -/
theorem dumpLinks_complete_threeLinks :
    Completes (linksCall smallEnv [threeLinks] fun _ => 96) (0, .start 7 1 (some [0x77]))
      (threeLinks.linkHdrs.map (linkRecord smallEnv (.start 7 1 (some [0x77])))) :=
  (dumpLinks_complete_iff smallEnv (by decide) rfl 7 1 fun _ => 96).mpr (by decide)

/-- **With buffers of 64 bytes the third link is never sent.** -/
theorem dumpLinks_loses_link :
    dump (linksCall smallEnv [threeLinks] fun _ => 64) 2 (0, .start 7 1 (some [0x77]))
        = some [(threeLinks.linkHdrs.take 2).flatMap
            (linkRecord smallEnv (.start 7 1 (some [0x77])))]
      ∧ ¬ Completes (linksCall smallEnv [threeLinks] fun _ => 64) (0, .start 7 1 (some [0x77]))
        (threeLinks.linkHdrs.map (linkRecord smallEnv (.start 7 1 (some [0x77])))) := by
  have hptrs : ([threeLinks].map Device.ptr).Nodup := by decide
  have hdev : Device.wprobeGetDev [threeLinks] (some [0x77]) = some threeLinks := rfl
  have hdump : dump (linksCall smallEnv [threeLinks] fun _ => 64) 2 (0, .start 7 1 (some [0x77]))
      = some [(threeLinks.linkHdrs.take 2).flatMap
          (linkRecord smallEnv (.start 7 1 (some [0x77])))] := by
    rw [dump_linksCall hptrs hdev]
    rfl
  refine ⟨hdump, fun hcomplete => ?_⟩
  obtain ⟨parts, hparts, hmsgs⟩ := (completes_iff_of_dump hdump).mp hcomplete
  -- the message is too short for the three records
  have hlen := congrArg (fun msgs => msgs.flatten.length) hmsgs
  rw [← flatten_flatten, hparts] at hlen
  exact absurd hlen (by decide +kernel)

end Wprobe
