import RouterFirmware.WprobeInfo

/-!
# Dumps of filters and of items

`wprobe_dump_filters` sends a record for each group of the active filter, with
the names and counters of its items; `wprobe_dump_info` sends one for each item
of an interface or of its links, where it is asked for their list.

A dump is a series of calls, each with an empty buffer: a call adds records until
one does not fit, and the next call goes on from there. It is complete if the
records arrive each once and in order. For that a record that does not fit must
leave the buffer as it was. Both functions fail to do so in one place, and
`dumps_complete_iff` says that nothing else can go wrong:

* a group without items whose name fits and whose nested attribute does not: the
  function writes through a null pointer;
* an item whose header does not fit and whose first attribute does: the attributes
  are put without a header.
-/

namespace Wprobe

open Netlink List Skb Device Option Errno

/-! ## `wprobe_dump_filters` -/

/-- An item of a filter with its counters. -/
structure DumpItem where
  name : List UInt8
  rx : UInt64
  tx : UInt64

/-- A group of a filter as it is sent. -/
structure DumpGroup where
  name : List UInt8
  items : List DumpItem

/-- **What a filter points to**: the memory with the copy of the blob that it
was made from, and the counters of its items. -/
structure FilterHeap where
  mem : Bytes
  rx : ℕ → UInt64
  tx : ℕ → UInt64

/-- A name in memory. It has 32 bytes with a zero among them, as
`wprobe_check_filter` puts one into the last. -/
def nameAt (mem : Bytes) (a : ℕ) : List UInt8 := (mem.slice a 32).takeWhile (· ≠ 0)

/-- **The groups of a filter**: those that `wprobe_set_filter` found in the
blob, with the names that are there and the counters of the items. -/
def Filter.dumpGroups (heap : FilterHeap) (f : Filter) : List DumpGroup :=
  f.groups.map fun g =>
    ⟨nameAt heap.mem g.name, (range g.nItems.toNat).map fun j =>
      ⟨nameAt heap.mem (f.items.getD (g.first + j) 0), heap.rx (g.first + j),
        heap.tx (g.first + j)⟩⟩

section Groups

variable (host : ByteOrder)

/-- The attributes of an item. -/
def dumpItemAttrs (fi : DumpItem) : List Attr :=
  [strAttr 5 fi.name, numAttr host 28 8 fi.rx.toNat, numAttr host 29 8 fi.tx.toNat]

/-- The loop of `wprobe_dump_filter_group` over the items: nothing where the
nested attribute was not started. -/
def dumpItems : List DumpItem → Skb → Option (Bool × Skb)
  | [], msg => some (true, msg)
  | fi :: rest, msg =>
    let (item, msg) := nlaNestStart host msg 27
    match nlaPuts host (dumpItemAttrs host fi) msg with
    | (false, msg) => some (false, msg)
    | (true, msg) => item.bind fun start => dumpItems rest (nlaNestEnd host msg start)

/-- **`wprobe_dump_filter_group`.** -/
def wprobeDumpFilterGroup (hdr : Header) (fg : DumpGroup) (msg : Skb) : Option (Bool × Skb) :=
  match genlmsgPut host msg hdr with
  | none => some (false, msg)
  | some (nlh, msg) =>
    match nlaPuts host [strAttr 5 fg.name] msg with
    | (false, msg) => some (false, genlmsgCancel msg (some nlh))
    | (true, msg) =>
      let (group, msg) := nlaNestStart host msg 27
      match dumpItems host fg.items msg with
      | none => none
      | some (false, msg) => some (false, genlmsgCancel msg (some nlh))
      | some (true, msg) =>
        group.map fun start => (true, genlmsgEnd host (nlaNestEnd host msg start) nlh)

/-- The nested attribute of an item. -/
def dumpItemAttr (fi : DumpItem) : Attr := ⟨27, encode host (dumpItemAttrs host fi)⟩

/-- The attributes of a group. -/
def groupAttrs (fg : DumpGroup) : List Attr :=
  [strAttr 5 fg.name, ⟨27, encode host (fg.items.map (dumpItemAttr host))⟩]

/-- **The record of a group.** -/
def groupRecord (hdr : Header) (fg : DumpGroup) : List UInt8 :=
  message host hdr (encode host (groupAttrs host fg))

end Groups

/-- A request for the counters of a filter. -/
structure FilterRequest where
  pid : ℕ
  seq : ℕ
  interface : Except ℤ (Option (List UInt8))

/-- The callback of a dump: the request, and the interface and the group to go
on from. -/
structure FilterCb where
  request : FilterRequest
  pos : Option (ℕ × ℕ)

/-- What a call of `wprobe_dump_filters` returns. -/
structure FilterResult where
  err : ℤ
  skb : Skb
  cb : FilterCb

/-- The header of a record of `WPROBE_CMD_GET_FILTER`. -/
def filterHeader (env : Env) (req : FilterRequest) : Header :=
  recordHeader env req.pid req.seq 7

/-- The group at an index is put. -/
def sendGroup (host : ByteOrder) (hdr : Header) (groups : List DumpGroup) (i : ℕ) (skb : Skb) :
    Option (Bool × Skb) :=
  groups[i]?.bind fun fg => wprobeDumpFilterGroup host hdr fg skb

/-- The rest of a call, for the groups of the active filter. -/
def dumpFiltersSend (env : Env) (groups : Option (List DumpGroup)) (req : FilterRequest)
    (ptr i : ℕ) (skb : Skb) : Option FilterResult :=
  match groups with
  | none => some ⟨skb.data.length, skb, ⟨req, some (ptr, i)⟩⟩
  | some groups => do
    let (i, skb) ← sendAll (sendGroup env.host (filterHeader env req) groups)
      (groups.length - i) i skb
    some ⟨skb.data.length, skb, ⟨req, some (ptr, i)⟩⟩

/-- **`wprobe_dump_filters`**: nothing where it writes through a null pointer. -/
def wprobeDumpFilters (env : Env) (heap : FilterHeap) (devices : List Device)
    (skb : Skb) (cb : FilterCb) : Option FilterResult :=
  match cb.pos with
  | none =>
    match cb.request.interface with
    | .error err => some ⟨err, skb, cb⟩
    | .ok interface =>
      match Device.wprobeGetDev devices interface with
      | none => some ⟨-ENODEV, skb, cb⟩
      | some dev =>
        dumpFiltersSend env (dev.iface.activeFilter.map (Filter.dumpGroups heap)) cb.request
          dev.ptr 0 skb
  | some (ptr, i) =>
    match deviceAt devices ptr with
    | none => some ⟨-ENODEV, skb, cb⟩
    | some dev =>
      dumpFiltersSend env (dev.iface.activeFilter.map (Filter.dumpGroups heap)) cb.request ptr i skb

/-! ## How a group is put -/

section Groups

variable {host : ByteOrder} {hdr : Header} {fg : DumpGroup} {msg : Skb}
  (h : ¬ msg.Fits (groupRecord host hdr fg).length)

theorem four_lt_length_strAttr (host : ByteOrder) (type : ℕ) (text : List UInt8) :
    4 < ((strAttr type text).bytes host).length := by
  rw [Attr.length_bytes, strAttr, length_append]
  exact Nat.lt_of_lt_of_le (by simp) (le_align _)

theorem length_nested (type : ℕ) (attrs : List Attr) :
    ((⟨type, encode host attrs⟩ : Attr).bytes host).length = 4 + (encode host attrs).length := by
  obtain ⟨k, hk⟩ := dvd_length_encode host attrs
  rw [Attr.length_bytes]
  show align (4 + (encode host attrs).length) = _
  rw [hk]
  unfold align
  omega

theorem length_nestStart (type : ℕ) : ((⟨type, []⟩ : Attr).bytes host).length = 4 := by
  rw [Attr.length_bytes]
  show align (4 + 0) = 4
  rfl

theorem fits_nestStart {type n : ℕ} :
    (msg.add ((⟨type, []⟩ : Attr).bytes host)).Fits n ↔ msg.Fits (4 + n) := by
  rw [fits_add, length_nestStart]

theorem nlaNestStart_of_fits {type : ℕ} (h : msg.Fits 4) : nlaNestStart host msg type
    = (some msg.data.length, msg.add ((⟨type, []⟩ : Attr).bytes host)) := by
  rw [nlaNestStart, nlaPut_of_fits (by rwa [length_nestStart])]

theorem nlaNestStart_of_not_fits {type : ℕ} (h : ¬ msg.Fits 4) :
    nlaNestStart host msg type = (none, msg) := by
  rw [nlaNestStart, nlaPut_of_not_fits (by rwa [length_nestStart])]

theorem dumpItems_cons_of_fits {fi : DumpItem} (items : List DumpItem)
    (h : msg.Fits ((dumpItemAttr host fi).bytes host).length) : dumpItems host (fi :: items) msg
    = dumpItems host items (msg.add ((dumpItemAttr host fi).bytes host)) := by
  rw [dumpItemAttr, length_nested] at h
  rw [dumpItems, nlaNestStart_of_fits (h.mono (by omega))]
  dsimp only
  rw [nlaPuts_of_fits (fits_nestStart.mpr h)]
  dsimp only
  rw [bind_some, add_add, nestEnd_append]
  rfl

theorem dumpItems_cons_of_not_fits {fi : DumpItem} (items : List DumpItem) (hmsg : msg.Fits 0)
    (h : ¬ msg.Fits ((dumpItemAttr host fi).bytes host).length) :
    ∃ s, dumpItems host (fi :: items) msg = some (false, msg.add s) := by
  rw [dumpItemAttr, length_nested] at h
  rw [dumpItems]
  by_cases hstart : msg.Fits 4
  · obtain ⟨sent, -, -, -, hputs, -⟩ :=
      nlaPuts_of_not_fits (mt fits_nestStart.mp h) (fits_nestStart.mpr hstart)
    rw [nlaNestStart_of_fits hstart]
    dsimp only
    rw [hputs]
    exact ⟨_, by rw [add_add]⟩
  · -- the attributes of the item do not fit either
    have hinner : ¬ msg.Fits (encode host (dumpItemAttrs host fi)).length := by
      intro hfits
      refine hstart (hfits.mono ?_)
      have hname := four_lt_length_strAttr host 5 fi.name
      rw [dumpItemAttrs, encode_cons, length_append]
      omega
    obtain ⟨sent, -, -, -, hputs, -⟩ := nlaPuts_of_not_fits hinner hmsg
    rw [nlaNestStart_of_not_fits hstart]
    dsimp only
    rw [hputs]
    exact ⟨_, rfl⟩

/-- The bytes of the items of a group. -/
def itemsBytes (host : ByteOrder) (items : List DumpItem) : List UInt8 :=
  encode host (items.map (dumpItemAttr host))

theorem itemsBytes_cons (fi : DumpItem) (items : List DumpItem) : itemsBytes host (fi :: items)
    = (dumpItemAttr host fi).bytes host ++ itemsBytes host items := encode_cons ..

theorem dumpItems_of_fits {items : List DumpItem} (h : msg.Fits (itemsBytes host items).length) :
    dumpItems host items msg = some (true, msg.add (itemsBytes host items)) := by
  induction items generalizing msg with
  | nil => exact congrArg (fun b => some (true, b)) (add_nil msg).symm
  | cons fi items ih =>
    rw [itemsBytes_cons, length_append] at h
    rw [dumpItems_cons_of_fits items (h.mono (Nat.le_add_right _ _)), ih (by rwa [fits_add]),
      add_add, itemsBytes_cons]

theorem dumpItems_of_not_fits {items : List DumpItem} (hmsg : msg.Fits 0)
    (h : ¬ msg.Fits (itemsBytes host items).length) :
    ∃ s, dumpItems host items msg = some (false, msg.add s) := by
  induction items generalizing msg with
  | nil => exact absurd hmsg h
  | cons fi items ih =>
    by_cases hfirst : msg.Fits ((dumpItemAttr host fi).bytes host).length
    · rw [itemsBytes_cons, length_append, ← fits_add] at h
      obtain ⟨s, hs⟩ := ih (by rwa [fits_add]) h
      exact ⟨_, by rw [dumpItems_cons_of_fits items hfirst, hs, add_add]⟩
    · exact dumpItems_cons_of_not_fits items hmsg hfirst

/-- The room that the header and the name of a group need. -/
def nameRoom (host : ByteOrder) (fg : DumpGroup) : ℕ := 20 + ((strAttr 5 fg.name).bytes host).length

theorem length_groupRecord : (groupRecord host hdr fg).length
    = nameRoom host fg + (4 + (itemsBytes host fg.items).length) := by
  rw [groupRecord, length_message, groupAttrs, encode_cons, encode_cons, encode_nil,
    append_nil, length_append, length_nested, nameRoom, Nat.add_assoc, itemsBytes]

/-- The header and the name of a group. -/
def groupStart (host : ByteOrder) (hdr : Header) (fg : DumpGroup) : List UInt8 :=
  hdr.bytes host 20 ++ (strAttr 5 fg.name).bytes host

theorem length_groupStart : (groupStart host hdr fg).length = nameRoom host fg := by
  rw [groupStart, length_append, Header.length_bytes, nameRoom]

/-- Where the name fits, the items decide. -/
theorem wprobeDumpFilterGroup_of_name (h : msg.Fits (nameRoom host fg)) :
    wprobeDumpFilterGroup host hdr fg msg
      = match dumpItems host fg.items
            (nlaNestStart host (msg.add (groupStart host hdr fg)) 27).2 with
        | none => none
        | some (false, msg') => some (false, genlmsgCancel msg' (some msg.data.length))
        | some (true, msg') =>
          (nlaNestStart host (msg.add (groupStart host hdr fg)) 27).1.map fun start =>
            (true, genlmsgEnd host (nlaNestEnd host msg' start) msg.data.length) := by
  have hput : genlmsgPut host msg hdr = some (msg.data.length, msg.add (hdr.bytes host 20)) :=
      if_pos (h.mono (Nat.le_add_right _ _))
  have hname : (msg.add (hdr.bytes host 20)).Fits (encode host [strAttr 5 fg.name]).length := by
    rw [fits_add, Header.length_bytes, encode_cons, encode_nil, append_nil]
    exact h
  rw [wprobeDumpFilterGroup, hput]
  dsimp only
  rw [nlaPuts_of_fits hname, add_add, encode_cons, encode_nil, append_nil]
  rfl

theorem wprobeDumpFilterGroup_of_fits (h : msg.Fits (groupRecord host hdr fg).length) :
    wprobeDumpFilterGroup host hdr fg msg = some (true, msg.add (groupRecord host hdr fg)) := by
  rw [length_groupRecord] at h
  have hname : msg.Fits (nameRoom host fg) := h.mono (Nat.le_add_right _ _)
  have hstart : (msg.add (groupStart host hdr fg)).Fits 4 := by
    rw [fits_add, length_groupStart]
    exact h.mono (by omega)
  have hitems : ((msg.add (groupStart host hdr fg)).add ((⟨27, []⟩ : Attr).bytes host)).Fits
      (itemsBytes host fg.items).length := by
    rw [fits_nestStart, fits_add, length_groupStart]
    exact h
  rw [wprobeDumpFilterGroup_of_name hname, nlaNestStart_of_fits hstart]
  dsimp only
  rw [dumpItems_of_fits hitems]
  dsimp only
  rw [map_some, add_add _ ((⟨27, []⟩ : Attr).bytes host), itemsBytes, nestEnd_append, add_add,
    groupStart, append_assoc, genlmsgEnd_put, groupRecord, groupAttrs, encode_cons,
    encode_cons, encode_nil, append_nil]

include h

theorem wprobeDumpFilterGroup_of_not_fits
    (hclean : ¬ (fg.items = [] ∧ msg.Fits (nameRoom host fg))) :
    wprobeDumpFilterGroup host hdr fg msg = some (false, msg) := by
  rw [length_groupRecord] at h
  by_cases hname : msg.Fits (nameRoom host fg)
  · have hzero : (msg.add (groupStart host hdr fg)).Fits 0 := by
      rwa [fits_add, length_groupStart]
    have hne : fg.items ≠ [] := fun hnil => hclean ⟨hnil, hname⟩
    obtain ⟨s, hs⟩ : ∃ s, dumpItems host fg.items
        (nlaNestStart host (msg.add (groupStart host hdr fg)) 27).2
          = some (false, msg.add (groupStart host hdr fg ++ s)) := by
      by_cases hstart : (msg.add (groupStart host hdr fg)).Fits 4
      · rw [nlaNestStart_of_fits hstart]
        have hitems : ¬ ((msg.add (groupStart host hdr fg)).add
            ((⟨27, []⟩ : Attr).bytes host)).Fits (itemsBytes host fg.items).length := by
          rwa [fits_nestStart, fits_add, length_groupStart]
        obtain ⟨s, hs⟩ := dumpItems_of_not_fits (fits_nestStart.mpr hstart) hitems
        exact ⟨_, by rw [hs, add_add, add_add]⟩
      · rw [nlaNestStart_of_not_fits hstart]
        obtain ⟨fi, items, hcons⟩ := exists_cons_of_ne_nil hne
        have hitems : ¬ (msg.add (groupStart host hdr fg)).Fits
            (itemsBytes host fg.items).length := by
          intro hfits
          refine hstart (hfits.mono ?_)
          rw [hcons, itemsBytes_cons, length_append, dumpItemAttr, length_nested]
          omega
        obtain ⟨s, hs⟩ := dumpItems_of_not_fits hzero hitems
        exact ⟨s, by rw [hs, add_add]⟩
    rw [wprobeDumpFilterGroup_of_name hname, hs]
    dsimp only
    rw [genlmsgCancel_add]
  · rw [wprobeDumpFilterGroup]
    by_cases hhdr : msg.Fits 20
    · have hput : genlmsgPut host msg hdr
          = some (msg.data.length, msg.add (hdr.bytes host 20)) := if_pos hhdr
      have hzero : (msg.add (hdr.bytes host 20)).Fits 0 := by
        rwa [fits_add, Header.length_bytes]
      have hnot : ¬ (msg.add (hdr.bytes host 20)).Fits
          (encode host [strAttr 5 fg.name]).length := by
        rwa [fits_add, Header.length_bytes, encode_cons, encode_nil, append_nil]
      obtain ⟨sent, -, -, -, hputs, -⟩ := nlaPuts_of_not_fits hnot hzero
      rw [hput]
      dsimp only
      rw [hputs, add_add]
      dsimp only
      rw [genlmsgCancel_add]
    · have hput : genlmsgPut host msg hdr = none := if_neg hhdr
      rw [hput]

theorem wprobeDumpFilterGroup_of_empty (hempty : fg.items = [])
    (hname : msg.Fits (nameRoom host fg)) : wprobeDumpFilterGroup host hdr fg msg = none := by
  rw [length_groupRecord, hempty] at h
  have hstart : ¬ (msg.add (groupStart host hdr fg)).Fits 4 := by
    rwa [fits_add, length_groupStart]
  rw [wprobeDumpFilterGroup_of_name hname, nlaNestStart_of_not_fits hstart, hempty]
  rfl

end Groups

/-! ## Complete dumps -/

section Filters

/-- A group spoils a dump of filters: it has no items, and its name fits. -/
def GroupSpoils (host : ByteOrder) (groups : List DumpGroup) (i left : ℕ) : Prop :=
  ∃ fg, groups[i]? = some fg ∧ fg.items = [] ∧ nameRoom host fg ≤ left

theorem fits_iff_le_left {msg : Skb} {n : ℕ} (hmsg : msg.Fits 0) :
    msg.Fits n ↔ n ≤ msg.room - msg.data.length := by
  unfold Skb.Fits at *
  omega

/-- **How groups are sent**: as a whole, or not at all, or they spoil the
dump. -/
theorem sends_groups (hdr : Header) (host : ByteOrder) (groups : List DumpGroup) :
    Sends (groups.map (groupRecord host hdr)) (sendGroup host hdr groups)
      (GroupSpoils host groups) := by
  have hget : ∀ {i : ℕ} {r}, (groups.map (groupRecord host hdr))[i]? = some r →
      ∃ fg, groups[i]? = some fg ∧ groupRecord host hdr fg = r := by
    intro i r h
    rw [getElem?_map] at h
    exact map_eq_some_iff.mp h
  refine ⟨?_, ?_, ?_, ?_⟩
  · intro r hr
    obtain ⟨fg, -, rfl⟩ := mem_map.mp hr
    refine ne_nil_of_length_pos ?_
    rw [groupRecord, length_message]
    omega
  · intro i r skb hr hfits
    obtain ⟨fg, hfg, rfl⟩ := hget hr
    rw [sendGroup, hfg]
    exact wprobeDumpFilterGroup_of_fits hfits
  · intro i r skb hr hskb hfits hclean
    obtain ⟨fg, hfg, rfl⟩ := hget hr
    rw [sendGroup, hfg]
    refine wprobeDumpFilterGroup_of_not_fits hfits fun hspoils =>
      hclean ⟨fg, hfg, hspoils.1, ?_⟩
    exact (fits_iff_le_left hskb).mp hspoils.2
  · intro i r skb res hr hskb hfits hspoils hres
    obtain ⟨fg, hfg, rfl⟩ := hget hr
    obtain ⟨fg', hfg', hempty, hname⟩ := hspoils
    obtain rfl := some.inj (hfg.symm.trans hfg')
    have hnone := wprobeDumpFilterGroup_of_empty hfits hempty ((fits_iff_le_left hskb).mpr hname)
    rw [sendGroup, hfg, bind_some, hnone] at hres
    exact nomatch hres

/-- A call of a dump of filters with an empty buffer. -/
def filterCall (env : Env) (heap : FilterHeap) (devices : List Device) (room : ℕ)
    (cb : FilterCb) : Option (FilterCb × List UInt8) :=
  (wprobeDumpFilters env heap devices (empty room) cb).map fun res => (res.cb, res.skb.data)

theorem filters_completes_iff {env : Env} {heap : FilterHeap} {devices : List Device}
    {dev : Device} {groups : List DumpGroup} {req : FilterRequest} {room : ℕ}
    {interface : Option (List UInt8)} (hptr : deviceAt devices dev.ptr = some dev)
    (hreq : req.interface = .ok interface) (hdev : Device.wprobeGetDev devices interface = some dev)
    (hgroups : dev.iface.activeFilter.map (Filter.dumpGroups heap) = some groups)
    (hroom : ∀ fg ∈ groups, (groupRecord env.host (filterHeader env req) fg).length ≤ room) :
    Completes (filterCall env heap devices room) ⟨req, none⟩
        (groups.map (groupRecord env.host (filterHeader env req)))
      ↔ Packs room (GroupSpoils env.host groups) 0 0
        (groups.map (groupRecord env.host (filterHeader env req))) := by
  have hsends := sends_groups (filterHeader env req) env.host groups
  rw [← hsends.completes_iff_packs (forall_mem_map.mpr hroom), length_map]
  have hcall : ∀ i, filterCall env heap devices room ⟨req, some (dev.ptr, i)⟩
      = (fill (sendGroup env.host (filterHeader env req) groups) groups.length room i).map
        (Prod.map (fun i => (⟨req, some (dev.ptr, i)⟩ : FilterCb)) id) := by
    intro i
    simp only [filterCall, wprobeDumpFilters, hptr, hgroups, dumpFiltersSend, fill]
    cases sendAll (sendGroup env.host (filterHeader env req) groups) (groups.length - i) i
      (empty room) <;> rfl
  have hfirst : filterCall env heap devices room ⟨req, none⟩
      = filterCall env heap devices room ⟨req, some (dev.ptr, 0)⟩ := by
    simp only [filterCall, wprobeDumpFilters, hreq, hdev, hptr]
  unfold Completes
  simp only [dump_congr hfirst, dump_map hcall]

end Filters

section Lists

/-- The room that the first attribute of an item needs. -/
def firstRoom (dev : Device) (i : ℕ) : ℕ := if i = 0 ∧ dev.addr.isSome then 12 else 8

/-- An item spoils a dump: its first attribute fits, and the header does
not. -/
def InfoSpoils (dev : Device) (i left : ℕ) : Prop := firstRoom dev i ≤ left ∧ left < 20

/-- **The record of an item.** -/
def infoRecord (env : Env) (req : InfoRequest) (dev : Device) (i : ℕ) (item : Item) : List UInt8 :=
  message env.host (recordHeader env req.pid req.seq InfoCmd.getList.toUInt8)
    (encode env.host (itemInfoAttrs env dev.addr i item))

/-- The records of a list of items. -/
def infoRecords (env : Env) (req : InfoRequest) (dev : Device) (items : List Item) :
    List (List UInt8) :=
  items.mapIdx (infoRecord env req dev)

theorem exists_itemInfoAttrs_eq (env : Env) (dev : Device) (i : ℕ) (item : Item) :
    ∃ a rest, itemInfoAttrs env dev.addr i item = a :: rest
      ∧ (a.bytes env.host).length = firstRoom dev i := by
  unfold itemInfoAttrs firstRoom
  by_cases hi : i = 0
  · rw [if_pos hi]
    cases dev.addr with
    | none =>
      refine ⟨_, _, rfl, ?_⟩
      rw [length_numAttr, if_neg fun h => nomatch h.2]
      rfl
    | some mac =>
      refine ⟨_, _, rfl, ?_⟩
      rw [Attr.length_bytes, Vector.length_toList, if_pos ⟨hi, rfl⟩]
      rfl
  · rw [if_neg hi, if_neg fun h => hi h.1]
    refine ⟨_, _, rfl, ?_⟩
    rw [length_numAttr]
    rfl

theorem length_itemInfoAttrs (env : Env) (dev : Device) (i : ℕ) (item : Item) :
    20 ≤ (encode env.host (itemInfoAttrs env dev.addr i item)).length := by
  have hname := four_lt_length_strAttr env.host 5 item.name
  have hfour : align (4 + 4) = 8 := rfl
  have hone : align (4 + 1) = 8 := rfl
  rw [itemInfoAttrs, encode_append, length_append]
  simp only [encode_cons, encode_nil, length_append, length_numAttr, length_nil]
  omega

/-- **Where the header does not fit**, attributes are left exactly if the first
one fits. -/
theorem sendRecord_of_header_not_fits (env : Env) {hdr : Header} (dev : Device) {i : ℕ}
    {item : Item} {skb : Skb} (hskb : skb.Fits 0) (hhdr : ¬ skb.Fits 20) :
    ∃ s, sendRecord env.host hdr (itemInfoAttrs env dev.addr i item) skb = some (false, skb.add s)
      ∧ (s = [] ↔ ¬ skb.Fits (firstRoom dev i)) := by
  obtain ⟨sent, a, rest, hsplit, heq, hsent, hnext⟩ := sendRecord_of_not_fits hskb hhdr
    (length_itemInfoAttrs env dev i item)
  obtain ⟨first, rest', hattrs, hfirst⟩ := exists_itemInfoAttrs_eq env dev i item
  refine ⟨_, heq, ?_⟩
  rw [hattrs] at hsplit
  cases sent with
  | nil =>
    obtain ⟨rfl, -⟩ := cons.inj hsplit
    rw [encode_nil, length_nil, Nat.zero_add, hfirst] at hnext
    exact iff_of_true rfl hnext
  | cons b sent =>
    obtain ⟨rfl, -⟩ := cons.inj hsplit
    rw [encode_cons, length_append, hfirst] at hsent
    refine iff_of_false (ne_nil_of_length_pos ?_) (not_not.mpr (hsent.mono (Nat.le_add_right _ _)))
    rw [encode_cons, length_append, hfirst, firstRoom]
    split_ifs <;> omega

/-- **How items are sent.** -/
theorem sends_infos (env : Env) (req : InfoRequest) (dev : Device) (items : List Item) :
    Sends (infoRecords env req dev items) (wprobeSendItemInfo env req dev items)
      (InfoSpoils dev) := by
  have hget : ∀ {i r}, (infoRecords env req dev items)[i]? = some r →
      ∃ item, items[i]? = some item ∧ r = infoRecord env req dev i item := by
    intro i r h
    rw [infoRecords, getElem?_mapIdx] at h
    obtain ⟨item, hitem, heq⟩ := map_eq_some_iff.mp h
    exact ⟨item, hitem, heq.symm⟩
  have hsend : ∀ {i item} skb, items[i]? = some item →
      wprobeSendItemInfo env req dev items i skb
        = sendRecord env.host (recordHeader env req.pid req.seq InfoCmd.getList.toUInt8)
          (itemInfoAttrs env dev.addr i item) skb := by
    intro i item skb hitem
    rw [wprobeSendItemInfo, hitem]
    rfl
  refine ⟨?_, ?_, ?_, ?_⟩
  · intro r hr
    obtain ⟨i, hi, rfl⟩ := mem_mapIdx.mp hr
    refine ne_nil_of_length_pos ?_
    rw [infoRecord, length_message]
    omega
  · intro i r skb hr hfits
    obtain ⟨item, hitem, rfl⟩ := hget hr
    rw [infoRecord, length_message] at hfits
    rw [hsend skb hitem, sendRecord_of_fits hfits]
    rfl
  · intro i r skb hr hskb hfits hclean
    obtain ⟨item, hitem, rfl⟩ := hget hr
    rw [infoRecord, length_message] at hfits
    rw [hsend skb hitem]
    by_cases hhdr : skb.Fits 20
    · exact sendRecord_of_header_fits hfits hhdr
    · have hleft : skb.room - skb.data.length < 20 :=
        Nat.lt_of_not_le (mt (fits_iff_le_left hskb).mpr hhdr)
      obtain ⟨s, heq, hnil⟩ := sendRecord_of_header_not_fits env dev hskb hhdr
      rw [heq, hnil.mpr fun hfirst => hclean ⟨(fits_iff_le_left hskb).mp hfirst, hleft⟩, add_nil]
  · intro i r skb res hr hskb hfits hspoils hres
    obtain ⟨item, hitem, rfl⟩ := hget hr
    have hhdr : ¬ skb.Fits 20 := fun h => Nat.not_le.mpr hspoils.2 ((fits_iff_le_left hskb).mp h)
    obtain ⟨s, heq, hnil⟩ := sendRecord_of_header_not_fits env dev hskb hhdr
    rw [hsend skb hitem, heq] at hres
    exact ⟨s, fun h => hnil.mp h ((fits_iff_le_left hskb).mpr hspoils.1), (some.inj hres).symm⟩

/-- A call of a dump of items with an empty buffer. -/
def listCall (env : Env) (sync : Sync) (room : ℕ) (s : List Device × InfoCb) :
    Option ((List Device × InfoCb) × List UInt8) :=
  (wprobeDumpInfo env s.1 sync (empty room) s.2).map fun res =>
    ((res.devices, res.cb), res.skb.data)

theorem items_completes_iff {env : Env} {req : InfoRequest} {dev : Device} {devices : List Device}
    {attrs : InfoAttrs} {items : List Item} {room : ℕ} (sync : Sync) (hcmd : req.cmd = .getList)
    (hreq : req.attrs = .ok attrs) (hdev : Device.wprobeGetDev devices attrs.interface = some dev)
    (hitems : dev.itemList (startFlags none attrs) = items)
    (hroom : ∀ r ∈ infoRecords env req dev items, r.length ≤ room) :
    Completes (listCall env sync room) (devices, ⟨req, none⟩) (infoRecords env req dev items)
      ↔ Packs room (InfoSpoils dev) 0 0 (infoRecords env req dev items) := by
  have hlen : (infoRecords env req dev items).length = items.length := length_mapIdx
  rw [← (sends_infos env req dev items).completes_iff_packs hroom, hlen]
  -- the callback after the first call, at an item
  let cbAt : ℕ → List Device × InfoCb := fun i =>
    (setDevice devices dev, ⟨req, some ⟨dev.ptr, none, startFlags none attrs, i⟩⟩)
  have hat := deviceAt_setDevice (mem_of_wprobeGetDev hdev)
  have hcall : ∀ i, listCall env sync room (cbAt i)
      = (fill (wprobeSendItemInfo env req dev items) items.length room i).map
        (Prod.map cbAt id) := by
    intro i
    simp only [listCall, cbAt, wprobeDumpInfo, hat, dumpInfoSend, sendItem, hcmd, hitems, fill]
    rw [if_pos (fun l hl => nomatch hl)]
    cases sendAll (wprobeSendItemInfo env req dev items) (items.length - i) i (empty room) <;> rfl
  have hstart : dumpInfoStart env devices sync req
      = .ok ⟨dev, none, startFlags none attrs, []⟩ := by
    rw [dumpInfoStart, hreq]
    dsimp only
    rw [hdev]
    dsimp only
    rw [if_neg (by rw [hcmd]; decide)]
  have hfirst :
      listCall env sync room (devices, ⟨req, none⟩) = listCall env sync room (cbAt 0) := by
    simp only [listCall, cbAt, wprobeDumpInfo, hstart, hat]
    rw [if_pos (fun l hl => nomatch hl)]
    rfl
  unfold Completes
  simp only [dump_congr hfirst, dump_map hcall]

end Lists

/-- **Dumps of the active filter and of items are complete if and only if
nothing spoils them**, for every size of a message that holds each record: no
group without items comes to a place where only its name fits, and no item to
one where its first attribute fits and the header does not. -/
theorem dumps_complete_iff (env : Env) (devices : List Device) : ((devices.map ptr).Nodup →
      ∀ (heap : FilterHeap) (dev : Device) (f : Filter) (req : FilterRequest)
        (interface : Option (List UInt8)) (room : ℕ), req.interface = .ok interface →
      Device.wprobeGetDev devices interface = some dev → dev.iface.activeFilter = some f →
      (∀ fg ∈ f.dumpGroups heap,
        (groupRecord env.host (filterHeader env req) fg).length ≤ room) →
      (Completes (filterCall env heap devices room) ⟨req, none⟩
          ((f.dumpGroups heap).map (groupRecord env.host (filterHeader env req)))
        ↔ Packs room (GroupSpoils env.host (f.dumpGroups heap)) 0 0
          ((f.dumpGroups heap).map (groupRecord env.host (filterHeader env req)))))
    ∧ ∀ (sync : Sync) (dev : Device) (req : InfoRequest) (attrs : InfoAttrs) (room : ℕ),
      req.cmd = .getList → req.attrs = .ok attrs →
      Device.wprobeGetDev devices attrs.interface = some dev →
      (∀ r ∈ infoRecords env req dev (dev.itemList (startFlags none attrs)),
        r.length ≤ room) →
      (Completes (listCall env sync room) (devices, ⟨req, none⟩)
          (infoRecords env req dev (dev.itemList (startFlags none attrs)))
        ↔ Packs room (InfoSpoils dev) 0 0
          (infoRecords env req dev (dev.itemList (startFlags none attrs)))) := by
  refine ⟨fun hptrs heap dev f req interface room hreq hdev hfilter hroom => ?_,
    fun sync dev req attrs room hcmd hreq hdev hroom =>
      items_completes_iff sync hcmd hreq hdev rfl hroom⟩
  have hptr := deviceAt_of_mem hptrs (mem_of_wprobeGetDev hdev)
  exact filters_completes_iff hptr hreq hdev (by rw [hfilter]; rfl) hroom

/-! ### Two records and the size of a message -/

/-- A header of a group or of an item: a name of one byte and a number. -/
def entryBytes (name num : UInt8) : List UInt8 := name :: replicate 34 0 ++ [num]

/-- A blob with two groups: `a` with an item `b` that has no instructions, and
`c` without items. -/
def twoGroupsBlob : List UInt8 :=
  filterMagic ++ [0, 0, 0, 2] ++ entryBytes 97 1 ++ entryBytes 98 0 ++ entryBytes 99 0

/-- A machine that accepts any instructions. -/
def laxKernel : Kernel := ⟨.little, false, fun _ => 0⟩

/-- The blob is at 0, and the memory for its copy at 1000. -/
def blobMemory : Bytes := Memory.blit (fun _ => 0) 0 twoGroupsBlob

/-- The filter that is made of the blob. -/
def twoGroups : Filter := ⟨1000, 2, 4, [1036], 1, 1, [⟨1000, 1, 0⟩, ⟨1072, 0, 1⟩]⟩

/-- The memory with the copy, as `wprobe_check_filter` left the blob. -/
def twoGroupsHeap : FilterHeap where
  mem := (wprobeCheckFilter laxKernel blobMemory 8 108 2).elim blobMemory fun c =>
    c.mem.blit 1000 (c.mem.slice 8 108)
  rx := fun _ => 3
  tx := fun _ => 5

/-- An interface with this filter and two items. -/
def filteredDevice : Device :=
  bareDevice (.replicate 2 byteItem) { Iface.added with activeFilter := some twoGroups } rfl

/-- A request for the counters of the interface. -/
def countersRequest : FilterRequest := ⟨7, 1, .ok (some [0x77])⟩

/-- A request for the items of the interface. -/
def itemsRequest : InfoRequest := ⟨7, 1, .getList, .ok ⟨some [0x77], none, none⟩⟩

/-- The driver is not asked for anything. -/
def noSync : Sync := ⟨⟨0, 0⟩, fun n => ⟨.replicate n none, true⟩⟩

/-- The records of the two groups have 68 and 32 bytes. -/
def groupRecords : List (List UInt8) :=
  (twoGroups.dumpGroups twoGroupsHeap).map
    (groupRecord .little (filterHeader smallEnv countersRequest))

/-- **The filter is one that `wprobe_set_filter` makes**, of the blob at 0 and
with its copy at 1000. -/
theorem wprobeSetFilter_twoGroups :
    (wprobeSetFilter laxKernel ⟨true, true, some 1000, true, true⟩ blobMemory 0 116).toOption.map
      Accepted.filter = some twoGroups := by
  decide +kernel

/-- **Messages that hold both records.** -/
theorem dumps_complete_together :
    (wprobeSetFilter laxKernel ⟨true, true, some 1000, true, true⟩ blobMemory 0 116).toOption.map
        Accepted.filter = some twoGroups
      ∧ Completes (filterCall smallEnv twoGroupsHeap [filteredDevice] 100) ⟨countersRequest, none⟩
        groupRecords
      ∧ Completes (listCall smallEnv noSync 104) ([filteredDevice], ⟨itemsRequest, none⟩)
        (infoRecords smallEnv itemsRequest filteredDevice [byteItem, byteItem]) := by
  obtain ⟨hfilters, hitems⟩ := dumps_complete_iff smallEnv [filteredDevice]
  refine ⟨wprobeSetFilter_twoGroups,
    (hfilters (by decide) twoGroupsHeap filteredDevice twoGroups countersRequest (some [0x77]) 100
      rfl rfl rfl (by decide +kernel)).mpr ?_,
    (hitems noSync filteredDevice itemsRequest ⟨some [0x77], none, none⟩ 104 rfl rfl rfl
      (by decide +kernel)).mpr ?_⟩
  · show Packs 100 _ 0 0 [_, _]
    rw [Packs, if_pos (by decide +kernel), Packs, if_pos (by decide +kernel)]
    trivial
  · show Packs 104 _ 0 0 [_, _]
    rw [Packs, if_pos (by decide +kernel), Packs, if_pos (by decide +kernel)]
    trivial

/-- **Messages that hold one record and not quite two**: the group without
items goes wrong, as 30 bytes are left and its name needs 28; and the second
item leaves an attribute. -/
theorem dumps_not_complete :
    (wprobeSetFilter laxKernel ⟨true, true, some 1000, true, true⟩ blobMemory 0 116).toOption.map
        Accepted.filter = some twoGroups
      ∧ ¬ Completes (filterCall smallEnv twoGroupsHeap [filteredDevice] 98) ⟨countersRequest, none⟩
        groupRecords
      ∧ ¬ Completes (listCall smallEnv noSync 62) ([filteredDevice], ⟨itemsRequest, none⟩)
        (infoRecords smallEnv itemsRequest filteredDevice [byteItem, byteItem]) := by
  refine ⟨wprobeSetFilter_twoGroups, ?_, ?_⟩
  · have hptr : deviceAt [filteredDevice] filteredDevice.ptr = some filteredDevice := rfl
    have hreq : countersRequest.interface = .ok (some [0x77]) := rfl
    have hdev : Device.wprobeGetDev [filteredDevice] (some [0x77]) = some filteredDevice := rfl
    have hroom : ∀ fg ∈ twoGroups.dumpGroups twoGroupsHeap,
        (groupRecord smallEnv.host (filterHeader smallEnv countersRequest) fg).length ≤ 98 := by
      decide +kernel
    intro h
    have hpacks : Packs 98 _ 0 0 [_, _] := (filters_completes_iff hptr hreq hdev rfl hroom).mp h
    rw [Packs, if_pos (by decide +kernel), Packs, if_neg (by decide +kernel)] at hpacks
    exact hpacks.1 ⟨_, rfl, rfl, by decide +kernel⟩
  · have hreq : itemsRequest.attrs = .ok ⟨some [0x77], none, none⟩ := rfl
    have hdev : Device.wprobeGetDev [filteredDevice] (some [0x77]) = some filteredDevice := rfl
    have hroom : ∀ r ∈ infoRecords smallEnv itemsRequest filteredDevice [byteItem, byteItem],
        r.length ≤ 62 := by
      decide +kernel
    intro h
    have hpacks : Packs 62 _ 0 0 [_, _] := (items_completes_iff noSync rfl hreq hdev rfl hroom).mp h
    rw [Packs, if_pos (by decide +kernel), Packs, if_neg (by decide +kernel)] at hpacks
    exact hpacks.1 ⟨by decide +kernel, by decide +kernel⟩

end Wprobe
