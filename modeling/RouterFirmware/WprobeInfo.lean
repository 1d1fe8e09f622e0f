import RouterFirmware.LockTrace
import RouterFirmware.NetlinkDump
import RouterFirmware.WprobeStats

/-!
# Queries to wprobe

`wprobe_dump_info` answers two requests, `WPROBE_CMD_GET_LIST` for the items of
an interface or of its links and `WPROBE_CMD_GET_INFO` for their values.
-/

namespace Wprobe

open Netlink LockTrace Errno

/-! ## Interfaces -/

structure LinkHdr where
  ptr : ℕ
  addr : Vector UInt8 6
  flags : UInt32

/-- **An interface in the list of them**. -/
structure Device where
  ptr : ℕ
  name : List UInt8
  addr : Option (Vector UInt8 6)
  nGlobalItems : ℕ
  nLinkItems : ℕ
  items : Items nGlobalItems nLinkItems
  iface : Iface Value nGlobalItems nLinkItems
  linkHdrs : List LinkHdr
  queryVal : Vector Value (max nLinkItems nGlobalItems)
  length_linkHdrs : linkHdrs.length = iface.links.length

/-- An interface with items of its own and no links. -/
def bareDevice {n : ℕ} (items : Vector Item n) (iface : Iface Value n 0)
    (h : iface.links.length = 0) : Device where
  ptr := 1
  name := [0x77]
  addr := none
  nGlobalItems := n
  nLinkItems := 0
  items := ⟨items, .ofFn Fin.elim0⟩
  iface := iface
  linkHdrs := []
  queryVal := .replicate _ 0
  length_linkHdrs := h.symm

def byteItem : Item := ⟨[0x72], .u8, 0⟩

def Device.wprobeGetDev (devices : List Device) : Option (List UInt8) → Option Device
  | none => none
  | some name => devices.find? (·.name = name)

/-- `wprobe_check_ptr` in the list of interfaces: the interface at a
pointer. -/
def deviceAt (devices : List Device) (ptr : ℕ) : Option Device := devices.find? (·.ptr = ptr)

def setDevice (devices : List Device) (dev : Device) : List Device :=
  devices.map fun d => if d.ptr = dev.ptr then dev else d

section Lookup

open List

/-- What a request names is in the list of interfaces. -/
theorem mem_of_wprobeGetDev {dev : Device} {devices : List Device}
    {interface : Option (List UInt8)} (h : Device.wprobeGetDev devices interface = some dev) :
    dev ∈ devices := by
  cases interface with
  | none => exact nomatch h
  | some name =>
    rw [Device.wprobeGetDev] at h
    exact mem_of_find?_eq_some h

/-- **A pointer finds its interface again**, as no two are at one place. -/
theorem deviceAt_of_mem {dev : Device} {devices : List Device}
    (hptrs : (devices.map Device.ptr).Nodup)
    (h : dev ∈ devices) : deviceAt devices dev.ptr = some dev := by
  induction devices with
  | nil => exact absurd h not_mem_nil
  | cons d devices ih =>
    rw [map_cons, nodup_cons] at hptrs
    rw [deviceAt, find?_cons]
    rcases mem_cons.mp h with rfl | hmem
    · rw [decide_eq_true rfl]
    · have hne : d.ptr ≠ dev.ptr := fun heq => hptrs.1 (heq ▸ mem_map_of_mem hmem)
      rw [decide_eq_false hne]
      exact ih hptrs.2 hmem

/-- An interface that was changed in the list is found as it is now. -/
theorem deviceAt_setDevice {dev : Device} {devices : List Device} (h : dev ∈ devices) :
    deviceAt (setDevice devices dev) dev.ptr = some dev := by
  induction devices with
  | nil => exact absurd h not_mem_nil
  | cons d devices ih =>
    unfold deviceAt setDevice at *
    rw [map_cons, find?_cons]
    by_cases hptr : d.ptr = dev.ptr
    · simp [hptr]
    · have hmem : dev ∈ devices := by
        rcases mem_cons.mp h with rfl | hmem
        · exact absurd rfl hptr
        · exact hmem
      simp only [hptr, if_false, decide_false, ih hmem]

end Lookup

namespace Device

/-- **`wprobe_find_link`**: the place of a link in the list. -/
def wprobeFindLink (dev : Device) (mac : Vector UInt8 6) : Option ℕ :=
  dev.linkHdrs.findIdx? (·.addr = mac)

def lookup (dev : Device) : Option (Vector UInt8 6) → Option (Option ℕ)
  | none => some none
  | some mac => (dev.wprobeFindLink mac).map some

/-- The values of the interface, or of a link. -/
def values (dev : Device) : Option ℕ → List Value
  | none => dev.iface.val.toList
  | some k => (dev.iface.links[k]?.map Vector.toList).getD []

def copy (dev : Device) (vals : List Value) : Device :=
  { dev with queryVal := .ofFn fun i => vals[i]?.getD dev.queryVal[i] }

end Device

/-! ## Synchronising with the driver -/

/-- What the driver does when it is asked for values, however many, and
when. -/
structure Sync where
  now : Now
  driver : (n : ℕ) → Driver n

/-- The locks are those of the interfaces. -/
abbrev Path := List (Event ℕ ℕ)

namespace Device

variable (dev : Device)

/-- The values as the driver leaves them, and whether it returns zero. -/
def filled (sync : Sync) : Option ℕ → Bool × List Value
  | none =>
    ((sync.driver dev.nGlobalItems).ok, ((sync.driver _).fill sync.now dev.iface.val).toList)
  | some k =>
    ((sync.driver dev.nLinkItems).ok,
      (dev.iface.links[k]?.map fun val => ((sync.driver _).fill sync.now val).toList).getD [])

/-- The measurement that `wprobe_sync_data` takes. -/
def measurement (sync : Sync) : Option ℕ → Measurement dev.nGlobalItems dev.nLinkItems
  | none => .device sync.now (sync.driver _)
  | some k => .link k sync.now (sync.driver _)

theorem length_links_measure {nG nL : ℕ} {host : ByteOrder}
    {items : Items nG nL} (iface : Iface Value nG nL) (m : Measurement nG nL) :
    (iface.measure host items m).links.length = iface.links.length := by
  cases m with
  | device now driver => rfl
  | link k now driver => exact List.length_modify ..

def measure (host : ByteOrder) (sync : Sync) (l : Option ℕ) : Device :=
  { dev with
    iface := dev.iface.measure host dev.items (dev.measurement sync l)
    length_linkHdrs := dev.length_linkHdrs.trans (length_links_measure _ _).symm }

/-- **`wprobe_sync_data`**, of the interface or of the link at a place. -/
def wprobeSyncData (host : ByteOrder) (sync : Sync) (l : Option ℕ) (query : Bool) : Device :=
  let queryVal :=
    if (dev.filled sync l).1 && query then (dev.copy (dev.filled sync l).2).queryVal
    else dev.queryVal
  { dev with queryVal := queryVal }.measure host sync l

def syncPath : Path := locked dev.ptr []

end Device

/-! ## Records -/

structure Env where
  host : ByteOrder
  ptrBytes : ℕ
  text : ℕ → List UInt8
  family : ℕ
  jiffiesToMsecs : UInt64 → UInt64

/-- A machine whose pointers have four bytes. -/
def smallEnv : Env := ⟨.little, 4, fun _ => [], 24, id⟩

def numAttr (host : ByteOrder) (type w v : ℕ) : Attr := ⟨type, host.bytes w v⟩

@[simp] theorem length_numAttr (host : ByteOrder) (type w v : ℕ) :
    ((numAttr host type w v).bytes host).length = align (4 + w) := by
  rw [Attr.length_bytes, numAttr, ByteOrder.length_bytes]

def strAttr (type : ℕ) (text : List UInt8) : Attr := ⟨type, text ++ [0]⟩

/-- The number of an item's type in `enum wprobe_attr`. -/
def ItemType.toNat : ItemType → ℕ
  | .string => 8
  | .s8 => 9
  | .s16 => 10
  | .s32 => 11
  | .s64 => 12
  | .u8 => 13
  | .u16 => 14
  | .u32 => 15
  | .u64 => 16
  | .other attr => attr.toNat

section Records

variable (env : Env)

/-- The statistics of a value, where they are kept. -/
def statAttrs (item : Item) (val : Value) : List Attr :=
  if item.Keepstat then
    [numAttr env.host 17 8 (val.s % 2 ^ 64).toNat, numAttr env.host 18 8 (val.ss % 2 ^ 64).toNat,
      numAttr env.host 19 4 val.n.toNat,
      numAttr env.host 20 8 (env.jiffiesToMsecs val.scaleTimestamp).toNat]
  else []

def memberAttr (item : Item) (val : Value) (w : ℕ) : Attr :=
  ⟨item.type.toNat, val.union.toList.take w⟩

/-- The value itself, and its statistics. -/
def valAttrs (item : Item) (val : Value) : List Attr :=
  match item.type with
  | .s8 | .u8 => memberAttr item val 1 :: statAttrs env item val
  | .s16 | .u16 => memberAttr item val 2 :: statAttrs env item val
  | .s32 | .u32 => memberAttr item val 4 :: statAttrs env item val
  | .s64 | .u64 => memberAttr item val 8 :: statAttrs env item val
  | .string =>
    let ptr := val.member env.host env.ptrBytes
    [strAttr item.type.toNat (if ptr ≠ 0 then env.text ptr else [])]
  | .other _ => []

/-- The number of an item and the flags of the query. -/
def idAttrs (flags : UInt32) (i : ℕ) : List Attr :=
  [numAttr env.host 4 4 i, numAttr env.host 3 4 flags.toNat]

/-- **The attributes of `wprobe_send_item_value`.** -/
def itemValueAttrs (flags : UInt32) (i : ℕ) (item : Item) (val : Value) : List Attr :=
  idAttrs env flags i ++ numAttr env.host 6 1 item.type.toNat
    :: numAttr env.host 7 8 (val.last - val.first).toNat :: valAttrs env item val

/-- **The attributes of `wprobe_send_item_info`.** -/
def itemInfoAttrs (addr : Option (Vector UInt8 6)) (i : ℕ) (item : Item) : List Attr :=
  (if i = 0 then (addr.map fun mac => ⟨2, mac.toList⟩).toList else [])
    ++ [numAttr env.host 4 4 i, strAttr 5 item.name, numAttr env.host 6 1 item.type.toNat,
      numAttr env.host 3 4 item.flags.toNat]

end Records

inductive InfoCmd where
  | getInfo
  | getList
  | other (cmd : UInt8)
deriving DecidableEq

/-- The number of a command in `enum wprobe_cmd`. -/
def InfoCmd.toUInt8 : InfoCmd → UInt8
  | .getList => 1
  | .getInfo => 2
  | .other cmd => cmd

structure InfoAttrs where
  interface : Option (List UInt8)
  mac : Option (Vector UInt8 6)
  flags : Option UInt32

/-- **A query**, and what `nlmsg_parse` makes of it. -/
structure InfoRequest where
  pid : ℕ
  seq : ℕ
  cmd : InfoCmd
  attrs : Except ℤ InfoAttrs

def recordHeader (env : Env) (pid seq : ℕ) (cmd : UInt8) : Header :=
  { type := env.family, flags := 2, seq := seq, pid := pid, cmd := cmd, version := 1 }

/-- **A record is put as the two functions do it.** -/
def sendRecord (host : ByteOrder) (hdr : Header) (attrs : List Attr) (msg : Skb) :
    Option (Bool × Skb) :=
  let (nlh, msg) :=
    match genlmsgPut host msg hdr with
    | none => (none, msg)
    | some (nlh, msg) => (some nlh, msg)
  match nlaPuts host attrs msg with
  | (true, msg) => nlh.map fun nlh => (true, genlmsgEnd host msg nlh)
  | (false, msg) => some (false, genlmsgCancel msg nlh)

def wprobeSendItemValue (env : Env) (req : InfoRequest) (dev : Device) (items : List Item)
    (flags : UInt32) (i : ℕ) (msg : Skb) : Option (Bool × Skb) := do
  let item ← items[i]?
  let val ← dev.queryVal[i]?
  sendRecord env.host (recordHeader env req.pid req.seq InfoCmd.getInfo.toUInt8)
    (itemValueAttrs env flags i item val) msg

def wprobeSendItemInfo (env : Env) (req : InfoRequest) (dev : Device) (items : List Item)
    (i : ℕ) (msg : Skb) : Option (Bool × Skb) := do
  let item ← items[i]?
  sendRecord env.host (recordHeader env req.pid req.seq InfoCmd.getList.toUInt8)
    (itemInfoAttrs env dev.addr i item) msg

/-! ## `wprobe_dump_info` -/

def wprobeFLink : UInt32 := (1 : UInt32) <<< 31

/-- The items of the links or of the interface, as the flags say. -/
def Device.itemList (dev : Device) (vflags : UInt32) : List Item :=
  if vflags &&& wprobeFLink ≠ 0 then dev.items.linkItems.toList else dev.items.globalItems.toList

/-- Where a dump is: the pointers to the interface and the link. -/
structure InfoPos where
  dev : ℕ
  link : Option ℕ
  vflags : UInt32
  index : ℕ

structure InfoCb where
  request : InfoRequest
  pos : Option InfoPos

def startFlags (link : Option LinkHdr) (attrs : InfoAttrs) : UInt32 :=
  (link.map LinkHdr.flags).getD 0 ||| attrs.flags.getD 0
    ||| if attrs.mac.isSome then wprobeFLink else 0

structure Started where
  dev : Device
  link : Option LinkHdr
  vflags : UInt32
  path : Path

def dumpInfoStart (env : Env) (devices : List Device) (sync : Sync) (req : InfoRequest) :
    Except ℤ Started :=
  match req.attrs with
  | .error err => .error err
  | .ok attrs =>
    match Device.wprobeGetDev devices attrs.interface with
    | none => .error (-ENOENT)
    | some dev =>
      if req.cmd = .getInfo then
        match dev.lookup attrs.mac with
        | none => .error (-ENOENT)
        | some l =>
          let link := l.bind fun k => dev.linkHdrs[k]?
          let synced := dev.wprobeSyncData env.host sync l true
          .ok ⟨synced.copy (synced.values l), link, startFlags link attrs,
            locked dev.ptr dev.syncPath⟩
      else .ok ⟨dev, none, startFlags none attrs, []⟩

structure InfoResult where
  err : ℤ
  skb : Skb
  cb : InfoCb
  devices : List Device

/-- The function that puts the records of a dump. -/
def sendItem (env : Env) (req : InfoRequest) (dev : Device) (vflags : UInt32) :
    Option (ℕ → Skb → Option (Bool × Skb)) :=
  match req.cmd with
  | .getInfo => some (wprobeSendItemValue env req dev (dev.itemList vflags) vflags)
  | .getList => some (wprobeSendItemInfo env req dev (dev.itemList vflags))
  | .other _ => none

/-- The rest of a call, from the place of the dump on. -/
def dumpInfoSend (env : Env) (devices : List Device) (dev : Device) (req : InfoRequest)
    (pos : InfoPos) (skb : Skb) : Option InfoResult :=
  match sendItem env req dev pos.vflags with
  | none => some ⟨-EINVAL, skb, ⟨req, some pos⟩, devices⟩
  | some send => do
    let (i, skb) ← sendAll send ((dev.itemList pos.vflags).length - pos.index) pos.index skb
    some ⟨skb.data.length, skb, ⟨req, some { pos with index := i }⟩, devices⟩

def wprobeDumpInfo (env : Env) (devices : List Device) (sync : Sync) (skb : Skb) (cb : InfoCb) :
    Option InfoResult :=
  match cb.pos with
  | none =>
    match dumpInfoStart env devices sync cb.request with
    | .error err => some ⟨err, skb, cb, devices⟩
    | .ok st =>
      dumpInfoSend env (setDevice devices st.dev) st.dev cb.request
        ⟨st.dev.ptr, st.link.map LinkHdr.ptr, st.vflags, 0⟩ skb
  | some pos =>
    match deviceAt devices pos.dev with
    | none => some ⟨-ENOENT, skb, cb, devices⟩
    | some dev =>
      -- the link of the dump may have gone
      if ∀ l ∈ pos.link, ∃ hdr ∈ dev.linkHdrs, hdr.ptr = l then
        dumpInfoSend env devices dev cb.request pos skb
      else some ⟨-ENOENT, skb, cb, devices⟩

def dumpInfoPath (env : Env) (devices : List Device) (sync : Sync) (cb : InfoCb) : Path :=
  match cb.pos with
  | none =>
    match dumpInfoStart env devices sync cb.request with
    | .error _ => []
    | .ok st => st.path
  | some _ => []

/-! ## Measurements -/

def wprobeMeasure (host : ByteOrder) (devices : List Device) (sync : Sync) (attrs : InfoAttrs) :
    ℤ × List Device :=
  match Device.wprobeGetDev devices attrs.interface with
  | none => (-ENOENT, devices)
  | some dev =>
    match dev.lookup attrs.mac with
    | none => (-ENOENT, devices)
    | some l => (0, setDevice devices (dev.wprobeSyncData host sync l false))

def measurePath (devices : List Device) (attrs : InfoAttrs) : Path :=
  match Device.wprobeGetDev devices attrs.interface with
  | none => []
  | some dev =>
    match dev.lookup attrs.mac with
    | none => []
    | some _ => dev.syncPath

def Device.wprobeMeasureTimer (dev : Device) (host : ByteOrder) (sync : Sync) : Device :=
  { dev with iface := { dev.iface with measureTimer := true } }.wprobeSyncData host sync none false

def Device.timerPath (dev : Device) : Path := dev.syncPath

/-! ## How a record is put -/

section Sending

theorem sendRecord_of_fits {host : ByteOrder} {hdr : Header} {attrs : List Attr} {msg : Skb}
    (h : msg.Fits (20 + (encode host attrs).length)) : sendRecord host hdr attrs msg
    = some (true, msg.add (message host hdr (encode host attrs))) := by
  have hput : genlmsgPut host msg hdr
      = some (msg.data.length, msg.add (hdr.bytes host 20)) := if_pos (h.mono (by omega))
  have hrest : (msg.add (hdr.bytes host 20)).Fits (encode host attrs).length :=
    Skb.fits_add.mpr (by rwa [Header.length_bytes])
  have hattrs := nlaPuts_of_fits hrest
  simp only [sendRecord, hput, hattrs, Skb.add_add, Option.map_some, genlmsgEnd_put]

theorem sendRecord_of_header_fits {host : ByteOrder} {hdr : Header} {attrs : List Attr}
    {msg : Skb} (h : ¬ msg.Fits (20 + (encode host attrs).length)) (hhdr : msg.Fits 20) :
    sendRecord host hdr attrs msg = some (false, msg) := by
  have hput : genlmsgPut host msg hdr
      = some (msg.data.length, msg.add (hdr.bytes host 20)) := if_pos hhdr
  have hrest : ¬ (msg.add (hdr.bytes host 20)).Fits (encode host attrs).length := by
    rwa [Skb.fits_add, Header.length_bytes]
  have hzero : (msg.add (hdr.bytes host 20)).Fits 0 :=
    Skb.fits_add.mpr (by rwa [Header.length_bytes])
  obtain ⟨sent, -, -, -, hattrs, -⟩ := nlaPuts_of_not_fits hrest hzero
  simp only [sendRecord, hput, hattrs, Skb.add_add, genlmsgCancel_add]

theorem sendRecord_of_not_fits {host : ByteOrder} {hdr : Header} {attrs : List Attr} {msg : Skb}
    (hskb : msg.Fits 0) (hhdr : ¬ msg.Fits 20) (hattrs : 20 ≤ (encode host attrs).length) :
    ∃ sent a rest, attrs = sent ++ a :: rest
      ∧ sendRecord host hdr attrs msg = some (false, msg.add (encode host sent))
      ∧ msg.Fits (encode host sent).length
      ∧ ¬ msg.Fits ((encode host sent).length + (a.bytes host).length) := by
  have hput : genlmsgPut host msg hdr = none := if_neg hhdr
  have hrest : ¬ msg.Fits (encode host attrs).length := fun hfits => hhdr (hfits.mono hattrs)
  obtain ⟨sent, a, rest, hsplit, heq, hfits, hnext⟩ := nlaPuts_of_not_fits hrest hskb
  refine ⟨sent, a, rest, hsplit, ?_, hfits, hnext⟩
  simp only [sendRecord, hput, heq, genlmsgCancel]

end Sending

end Wprobe
