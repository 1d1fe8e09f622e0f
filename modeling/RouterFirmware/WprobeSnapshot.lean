import RouterFirmware.WprobeInfo

/-!
# Snapshots of values

A dump of values over several messages is to report the values as they were
when the first of its messages was made.
-/

namespace Wprobe

open Netlink Transitions Device Option Skb InfoCmd Errno

/-! ## The run of an interface and its requesters -/

structure Dump where
  cb : InfoCb
  snapshot : List Value
  msgs : List (List UInt8)

/-- **The interface and the dumps of its requesters**. -/
structure Queries where
  dev : Device
  dumps : ℕ → Option Dump
  owner : Option ℕ

inductive QueryEvent where
  /-- A requester begins a dump, and the first call is made; -/
  | start (r pid seq : ℕ) (attrs : Except ℤ InfoAttrs) (sync : Sync) (room : ℕ)
  /-- a call goes on with its dump; -/
  | resume (r : ℕ) (sync : Sync) (room : ℕ)
  /-- a measurement is asked for, -/
  | measure (sync : Sync) (attrs : InfoAttrs)
  /-- or taken by the timer. -/
  | timer (sync : Sync)

def valuesRequest (pid seq : ℕ) (attrs : Except ℤ InfoAttrs) : InfoRequest :=
  ⟨pid, seq, .getInfo, attrs⟩

def Device.requested (dev : Device) (req : InfoRequest) : List Value :=
  match req.attrs with
  | .ok attrs => dev.values ((dev.lookup attrs.mac).getD none)
  | .error _ => []

def setDump (dumps : ℕ → Option Dump) (r : ℕ) (d : Dump) : ℕ → Option Dump :=
  fun r' => if r' = r then some d else dumps r'

section Run

def Queries.start (env : Env) (q : Queries) (r : ℕ) (req : InfoRequest) (sync : Sync) (room : ℕ) :
    Option Queries := do
  let res ← wprobeDumpInfo env [q.dev] sync (empty room) ⟨req, none⟩
  if res.cb.pos.isSome then
    let dev := res.devices.headD q.dev
    some ⟨dev, setDump q.dumps r ⟨res.cb, dev.requested req, [res.skb.data]⟩, some r⟩
  else some q

def Queries.resume (env : Env) (q : Queries) (r : ℕ) (sync : Sync) (room : ℕ) : Option Queries :=
  match q.dumps r with
  | none => some q
  | some d => do
    let res ← wprobeDumpInfo env [q.dev] sync (empty room) d.cb
    some { q with
      dev := res.devices.headD q.dev
      dumps := setDump q.dumps r { d with cb := res.cb, msgs := d.msgs ++ [res.skb.data] } }

def Queries.step (env : Env) (q : Queries) : QueryEvent → Option Queries
  | .start r pid seq attrs sync room => q.start env r (valuesRequest pid seq attrs) sync room
  | .resume r sync room => q.resume env r sync room
  | .measure sync attrs =>
    some { q with dev := (wprobeMeasure env.host [q.dev] sync attrs).2.headD q.dev }
  | .timer sync => some { q with dev := q.dev.wprobeMeasureTimer env.host sync }

end Run

/-! ## What a dump reports -/

/-- The record of an item with its value. -/
def valueRecord (env : Env) (req : InfoRequest) (items : List Item) (vflags : UInt32)
    (vals : List Value) (i : ℕ) : List UInt8 :=
  match items[i]?, vals[i]? with
  | some item, some val =>
    message env.host (recordHeader env req.pid req.seq getInfo.toUInt8)
      (encode env.host (itemValueAttrs env vflags i item val))
  | _, _ => []

/-- Without room for a header some bytes may be left. -/
def StrayId (env : Env) (vflags : UInt32) (i : ℕ) (s : List UInt8) : Prop :=
  ∃ sent, sent <+: idAttrs env vflags i ∧ s = encode env.host sent

def Dump.Reports (env : Env) (dev : Device) (d : Dump) : Prop :=
  ∃ pos, d.cb.pos = some pos
    ∧ Reported (valueRecord env d.cb.request (dev.itemList pos.vflags) pos.vflags d.snapshot)
      (StrayId env pos.vflags) pos.index d.msgs

def Queries.Report (env : Env) (q : Queries) : Prop :=
  ∀ r d, q.dumps r = some d → d.Reports env q.dev

/-- The flags of a request for the values of the interface do not have the flag
for links. -/
def FlagsClear (attrs : InfoAttrs) : Prop :=
  attrs.mac = none → ∀ flags ∈ attrs.flags, flags &&& wprobeFLink = 0

instance (attrs : InfoAttrs) : Decidable (FlagsClear attrs) :=
  -- by the flags that there are, and not by trying all
  have (_ : attrs.mac = none) : Decidable (∀ flags ∈ attrs.flags, flags &&& wprobeFLink = 0) :=
    decidableForallMem _
  inferInstanceAs (Decidable (attrs.mac = none → _))

/-- **Dumps do not get into each other's way.** -/
def QueryEvent.Ok (q : Queries) : QueryEvent → Prop
  | .start _ _ _ attrs _ _ => ∀ a ∈ attrs.toOption, FlagsClear a
  | .resume r _ _ => ∀ d ∈ q.dumps r, ∀ pos ∈ d.cb.pos,
    pos.index < (q.dev.itemList pos.vflags).length → q.owner = some r
  | .measure _ _ => True
  | .timer _ => True

instance (q : Queries) : (e : QueryEvent) → Decidable (e.Ok q)
  | .start _ _ _ attrs _ _ => inferInstanceAs (Decidable (∀ a ∈ attrs.toOption, FlagsClear a))
  | .resume r _ _ => inferInstanceAs (Decidable (∀ d ∈ q.dumps r, ∀ pos ∈ d.cb.pos,
    pos.index < (q.dev.itemList pos.vflags).length → q.owner = some r))
  | .measure _ _ => isTrue trivial
  | .timer _ => isTrue trivial

/-! ## Interfaces and their buffer -/

variable {d : Dump} {env : Env} {host : ByteOrder} {i : ℕ} {l : Option ℕ}
  {mac : Option (Vector UInt8 6)} {req : InfoRequest} {sync : Sync} {val : Value}

section Devices

variable {dev : Device}

/-- Two interfaces agree in what a dump that goes on takes from them. -/
structure Device.Agrees (dev dev' : Device) : Prop where
  ptr : dev'.ptr = dev.ptr
  items : ∀ vflags, dev'.itemList vflags = dev.itemList vflags
  query : ∀ i : ℕ, dev'.queryVal[i]? = dev.queryVal[i]?

theorem Device.Agrees.refl (dev : Device) : dev.Agrees dev := ⟨rfl, fun _ => rfl, fun _ => rfl⟩

theorem Device.agrees_syncData (l : Option ℕ) :
    dev.Agrees (dev.wprobeSyncData host sync l false) := by
  refine ⟨rfl, fun _ => rfl, fun i => ?_⟩
  have h : (dev.wprobeSyncData host sync l false).queryVal = dev.queryVal :=
    if_neg (by rw [Bool.and_false]; exact Bool.false_ne_true)
  exact congrArg (fun v : Vector Value _ => v[i]?) h

theorem setDevice_singleton {dev' : Device} (h : dev'.ptr = dev.ptr) :
    setDevice [dev] dev' = [dev'] := by
  simp [setDevice, h]

theorem eq_of_wprobeGetDev_singleton {name : Option (List UInt8)} {found : Device}
    (h : Device.wprobeGetDev [dev] name = some found) : found = dev := by
  cases name with
  | none => exact nomatch h
  | some name =>
    rw [Device.wprobeGetDev] at h
    exact List.mem_singleton.mp (List.mem_of_find?_eq_some h)

theorem wprobeMeasure_agrees (attrs : InfoAttrs) :
    dev.Agrees ((wprobeMeasure host [dev] sync attrs).2.headD dev) := by
  unfold wprobeMeasure
  split
  · exact .refl dev
  · rename_i found hfound
    rw [eq_of_wprobeGetDev_singleton hfound]
    split
    · exact .refl dev
    · rename_i l _
      have hptr : (dev.wprobeSyncData host sync l false).ptr = dev.ptr := rfl
      rw [setDevice_singleton hptr]
      exact agrees_syncData l

theorem Device.agrees_timer : dev.Agrees (dev.wprobeMeasureTimer host sync) := by
  obtain ⟨hptr, hitems, hquery⟩ : Device.Agrees
      { dev with iface := { dev.iface with measureTimer := true } }
      (dev.wprobeMeasureTimer host sync) := agrees_syncData none
  exact ⟨hptr, hitems, hquery⟩

/-! ### The values of the first call -/

theorem Device.lt_of_lookup {k : ℕ}
    (h : dev.lookup mac = some (some k)) : k < dev.linkHdrs.length := by
  cases mac with
  | none => exact nomatch Option.some.inj h
  | some mac =>
    obtain ⟨k', hfind, hk⟩ := Option.map_eq_some_iff.mp h
    obtain rfl := Option.some.inj hk
    exact (List.findIdx?_eq_some_iff_findIdx_eq.mp hfind).1

theorem Device.mac_of_lookup (h : dev.lookup mac = some l) : mac.isSome = l.isSome := by
  cases mac with
  | none =>
    obtain rfl := Option.some.inj h
    rfl
  | some mac =>
    obtain ⟨k, -, rfl⟩ := Option.map_eq_some_iff.mp h
    rfl

theorem Device.length_values (h : dev.lookup mac = some l) :
    (dev.values l).length = if l.isSome then dev.nLinkItems else dev.nGlobalItems := by
  cases l with
  | none => exact Vector.length_toList
  | some k =>
    have hk := dev.length_linkHdrs ▸ dev.lt_of_lookup h
    rw [values, List.getElem?_eq_getElem hk]
    exact Vector.length_toList

theorem Device.getElem?_copy {vals : List Value}
    (h : vals.length ≤ max dev.nLinkItems dev.nGlobalItems) (hval : vals[i]? = some val) :
    (dev.copy vals).queryVal[i]? = some val := by
  obtain ⟨hi, -⟩ := List.getElem?_eq_some_iff.mp hval
  have hlt : i < max dev.nLinkItems dev.nGlobalItems := by omega
  show (Vector.ofFn _)[i]? = _
  rw [Vector.getElem?_eq_getElem hlt, Vector.getElem_ofFn]
  exact congrArg some (congrArg (fun o : Option Value => o.getD _) hval)

end Devices

theorem startFlags_link {link : Option LinkHdr} {attrs : InfoAttrs} (h : attrs.mac.isSome) :
    startFlags link attrs &&& wprobeFLink ≠ 0 := by
  rw [startFlags, if_pos h]
  generalize (link.map LinkHdr.flags).getD 0 ||| attrs.flags.getD 0 = x
  have habsorb : (x ||| wprobeFLink) &&& wprobeFLink = wprobeFLink := by
    rw [← UInt32.toBitVec_inj, UInt32.toBitVec_and, UInt32.toBitVec_or]
    ext i hi
    have hbool : ∀ a b : Bool, ((a || b) && b) = b := by decide
    rw [BitVec.getElem_and, BitVec.getElem_or, hbool]
  rw [habsorb]
  decide

theorem startFlags_global {attrs : InfoAttrs} (hmac : attrs.mac = none) (h : FlagsClear attrs) :
    startFlags none attrs &&& wprobeFLink = 0 := by
  rw [startFlags, hmac]
  show (0 ||| attrs.flags.getD 0 ||| 0) &&& wprobeFLink = 0
  rw [UInt32.zero_or, UInt32.or_zero]
  cases hflags : attrs.flags with
  | none => exact UInt32.zero_and
  | some flags => exact h hmac flags hflags

variable {dev : Device}

theorem Device.length_itemList {link : Option LinkHdr} {attrs : InfoAttrs}
    (hlookup : dev.lookup attrs.mac = some l) (hclear : FlagsClear attrs)
    (hlink : l = none → link = none) :
    (dev.itemList (startFlags link attrs)).length = (dev.values l).length := by
  have hmac := mac_of_lookup hlookup
  rw [dev.length_values hlookup]
  unfold itemList
  cases l with
  | none =>
    have hnone : attrs.mac = none := not_isSome_iff_eq_none.mp (by rw [hmac]; simp)
    rw [hlink rfl, startFlags_global hnone hclear, if_neg (not_not_intro rfl)]
    exact Vector.length_toList
  | some k =>
    rw [if_pos (startFlags_link (by rw [hmac]; rfl))]
    exact Vector.length_toList

/-! ## Records of values -/

section Records

theorem length_itemValueAttrs (env : Env) (vflags : UInt32) (i : ℕ) (item : Item) (val : Value) :
    24 ≤ (encode env.host (itemValueAttrs env vflags i item val)).length := by
  simp only [itemValueAttrs, idAttrs, List.cons_append, List.nil_append, encode_cons,
    List.length_append, length_numAttr]
  show 24 ≤ 8 + (8 + (8 + _))
  omega

theorem StrayId.length_le {vflags : UInt32} {s : List UInt8}
    (h : StrayId env vflags i s) : s.length ≤ 16 := by
  obtain ⟨sent, ⟨rest, hrest⟩, rfl⟩ := h
  have hall : (encode env.host (idAttrs env vflags i)).length = 8 + (8 + 0) := by
    simp only [idAttrs, encode_cons, encode_nil, List.length_append, length_numAttr]
    rfl
  rw [← hrest, encode_append, List.length_append] at hall
  omega

theorem strayId_of_fits {vflags : UInt32} {item : Item} {sent rest : List Attr} {a : Attr}
    (hsplit : itemValueAttrs env vflags i item val = sent ++ a :: rest)
    (hlen : (encode env.host sent).length < 20) : StrayId env vflags i (encode env.host sent) := by
  refine ⟨sent, ?_, rfl⟩
  rcases sent with _ | ⟨a₁, _ | ⟨a₂, _ | ⟨a₃, sent⟩⟩⟩
  · exact List.nil_prefix
  · obtain ⟨rfl, -⟩ := List.cons.inj hsplit
    exact ⟨_, rfl⟩
  · obtain ⟨rfl, hsplit₂⟩ := List.cons.inj hsplit
    obtain ⟨rfl, -⟩ := List.cons.inj hsplit₂
    exact List.prefix_rfl
  · obtain ⟨rfl, hsplit₂⟩ := List.cons.inj hsplit
    obtain ⟨rfl, hsplit₃⟩ := List.cons.inj hsplit₂
    obtain ⟨rfl, -⟩ := List.cons.inj hsplit₃
    simp only [encode_cons, List.length_append, length_numAttr] at hlen
    have hfour : align (4 + 4) = 8 := rfl
    have hone : align (4 + 1) = 8 := rfl
    omega

theorem wprobeSendItemValue_cases {vflags : UInt32} {vals : List Value} {item : Item} {skb : Skb}
    (hitem : (dev.itemList vflags)[i]? = some item) (hquery : dev.queryVal[i]? = some val)
    (hval : vals[i]? = some val) (hskb : skb.Fits 0) :
    wprobeSendItemValue env req dev (dev.itemList vflags) vflags i skb
        = some (true, skb.add (valueRecord env req (dev.itemList vflags) vflags vals i))
      ∧ (skb.add (valueRecord env req (dev.itemList vflags) vflags vals i)).Fits 0
    ∨ ∃ s, StrayId env vflags i s
      ∧ wprobeSendItemValue env req dev (dev.itemList vflags) vflags i skb
        = some (false, skb.add s) := by
  have heq : wprobeSendItemValue env req dev (dev.itemList vflags) vflags i skb
      = sendRecord env.host (recordHeader env req.pid req.seq getInfo.toUInt8)
        (itemValueAttrs env vflags i item val) skb := by
    rw [wprobeSendItemValue, hitem, hquery]
    rfl
  have hrecord : valueRecord env req (dev.itemList vflags) vflags vals i
      = message env.host (recordHeader env req.pid req.seq getInfo.toUInt8)
        (encode env.host (itemValueAttrs env vflags i item val)) := by
    rw [valueRecord, hitem, hval]
  have hlong := length_itemValueAttrs env vflags i item val
  rw [heq, hrecord]
  by_cases hfits : skb.Fits (20 + (encode env.host (itemValueAttrs env vflags i item val)).length)
  · exact .inl ⟨sendRecord_of_fits hfits, fits_add.mpr (by rwa [length_message])⟩
  · refine .inr ?_
    by_cases hhdr : skb.Fits 20
    · refine ⟨[], ⟨[], List.nil_prefix, rfl⟩, ?_⟩
      rw [sendRecord_of_header_fits hfits hhdr, add_nil]
    · obtain ⟨sent, a, rest, hsplit, hsend, hsent, -⟩ := sendRecord_of_not_fits hskb hhdr
        (Nat.le_trans (by decide) hlong)
      refine ⟨_, strayId_of_fits hsplit ?_, hsend⟩
      by_contra hge
      exact hhdr (hsent.mono (Nat.le_of_not_lt hge))

theorem dumpInfoSend_reports {vals : List Value} (env : Env)
    (devices : List Device) (room : ℕ) {pos : InfoPos} (hcmd : req.cmd = .getInfo)
    (hvals : ∀ i, pos.index ≤ i → i < (dev.itemList pos.vflags).length →
      ∃ val, dev.queryVal[i]? = some val ∧ vals[i]? = some val) :
    ∃ k s res, dumpInfoSend env devices dev req pos (empty room) = some res
    ∧ res.skb.data = (List.range' pos.index k).flatMap
      (valueRecord env req (dev.itemList pos.vflags) pos.vflags vals) ++ s
    ∧ res.cb = ⟨req, some { pos with index := pos.index + k }⟩ ∧ res.devices = devices
    ∧ StrayId env pos.vflags (pos.index + k) s := by
  have hempty : (empty room).Fits 0 := Nat.zero_le _
  have hnil : ∀ i, StrayId env pos.vflags i [] := fun _ => ⟨[], List.nil_prefix, rfl⟩
  have hput : ∀ i skb, pos.index ≤ i →
      i < pos.index + ((dev.itemList pos.vflags).length - pos.index) → skb.Fits 0 →
      wprobeSendItemValue env req dev (dev.itemList pos.vflags) pos.vflags i skb
          = some (true, skb.add (valueRecord env req (dev.itemList pos.vflags) pos.vflags vals i))
        ∧ (skb.add (valueRecord env req (dev.itemList pos.vflags) pos.vflags vals i)).Fits 0
      ∨ ∃ s, StrayId env pos.vflags i s
        ∧ wprobeSendItemValue env req dev (dev.itemList pos.vflags) pos.vflags i skb
          = some (false, skb.add s) := by
    intro i skb hi hlt hskb
    have hlt' : i < (dev.itemList pos.vflags).length := by omega
    obtain ⟨val, hquery, hval⟩ := hvals i hi hlt'
    exact wprobeSendItemValue_cases (List.getElem?_eq_getElem hlt') hquery hval hskb
  obtain ⟨k, s, hsent, hs⟩ := sendAll_reports hnil hempty hput
  have heq : dumpInfoSend env devices dev req pos (empty room)
      = (sendAll (wprobeSendItemValue env req dev (dev.itemList pos.vflags) pos.vflags)
          ((dev.itemList pos.vflags).length - pos.index) pos.index (empty room)).bind
        fun sent =>
          some ⟨sent.2.data.length, sent.2, ⟨req, some { pos with index := sent.1 }⟩, devices⟩ := by
    rw [dumpInfoSend, sendItem, hcmd]
    rfl
  rw [heq, hsent]
  exact ⟨k, s, _, rfl, rfl, rfl, rfl, hs⟩

end Records

/-! ## Every dump reports its snapshot -/

structure Dump.Sound (env : Env) (dev : Device) (owner : Bool) (d : Dump) : Prop where
  getInfo : d.cb.request.cmd = .getInfo
  reports : ∃ pos, d.cb.pos = some pos ∧ pos.dev = dev.ptr
    ∧ d.snapshot.length = (dev.itemList pos.vflags).length
    ∧ Reported (valueRecord env d.cb.request (dev.itemList pos.vflags) pos.vflags d.snapshot)
      (StrayId env pos.vflags) pos.index d.msgs
  query : owner = true → ∀ (i : ℕ) val, d.snapshot[i]? = some val → dev.queryVal[i]? = some val

def Queries.Sound (env : Env) (q : Queries) : Prop :=
  ∀ r d, q.dumps r = some d → d.Sound env q.dev (q.owner = some r)

section Steps

theorem Dump.Sound.agrees {dev' : Device} {owner : Bool}
    (h : d.Sound env dev owner) (hdev : dev.Agrees dev') : d.Sound env dev' owner := by
  obtain ⟨hcmd, ⟨pos, hpos, hptr, hlen, hreported⟩, hquery⟩ := h
  refine ⟨hcmd, ⟨pos, hpos, hptr.trans hdev.ptr.symm, ?_, ?_⟩, fun howner i val hval => ?_⟩
  · rw [hdev.items, hlen]
  · rwa [hdev.items]
  · rw [hdev.query, hquery howner i val hval]

theorem Dump.Sound.disowned {dev' : Device} {owner : Bool}
    (h : d.Sound env dev owner) (hptr : dev'.ptr = dev.ptr)
    (hitems : ∀ vflags, dev'.itemList vflags = dev.itemList vflags) : d.Sound env dev' false := by
  obtain ⟨hcmd, ⟨pos, hpos, hpos', hlen, hreported⟩, -⟩ := h
  refine ⟨hcmd, ⟨pos, hpos, hpos'.trans hptr.symm, ?_, ?_⟩, nofun⟩
  · rw [hitems, hlen]
  · rwa [hitems]

/-- The interface after the beginning of a first call. -/
def Device.started (dev : Device) (host : ByteOrder) (sync : Sync) (l : Option ℕ) : Device :=
  (dev.wprobeSyncData host sync l true).copy ((dev.wprobeSyncData host sync l true).values l)

theorem Device.values_started (l l' : Option ℕ) :
    (dev.started host sync l).values l' = (dev.wprobeSyncData host sync l true).values l' := by
  cases l' <;> rfl

theorem Device.queryVal_started (hlookup : dev.lookup mac = some l)
    (hval : ((dev.started host sync l).values l)[i]? = some val) :
    (dev.started host sync l).queryVal[i]? = some val := by
  rw [dev.values_started] at hval
  refine Device.getElem?_copy ?_ hval
  have hlookup' : (dev.wprobeSyncData host sync l true).lookup mac = some l := hlookup
  rw [Device.length_values hlookup']
  split
  · exact Nat.le_max_left _ _
  · exact Nat.le_max_right _ _

theorem dumpInfoStart_cases (env : Env) (dev : Device) (sync : Sync)
    (hcmd : req.cmd = .getInfo) : (∃ err, dumpInfoStart env [dev] sync req = .error err)
    ∨ ∃ attrs l link path, req.attrs = .ok attrs ∧ dev.lookup attrs.mac = some l
      ∧ (l = none → link = none)
      ∧ dumpInfoStart env [dev] sync req
        = .ok ⟨dev.started env.host sync l, link, startFlags link attrs, path⟩ := by
  unfold dumpInfoStart
  cases hattrs : req.attrs with
  | error err => exact .inl ⟨err, rfl⟩
  | ok attrs =>
    dsimp only
    cases hdev : Device.wprobeGetDev [dev] attrs.interface with
    | none => exact .inl ⟨_, rfl⟩
    | some found =>
      obtain rfl := eq_of_wprobeGetDev_singleton hdev
      dsimp only
      rw [if_pos hcmd]
      cases hlookup : found.lookup attrs.mac with
      | none => exact .inl ⟨_, rfl⟩
      | some l =>
        refine .inr ⟨attrs, l, _, _, rfl, hlookup, ?_, rfl⟩
        rintro rfl
        rfl

theorem wprobeDumpInfo_first (env : Env) (dev : Device) (sync : Sync)
    (room : ℕ) (hcmd : req.cmd = .getInfo) (hclear : ∀ a ∈ req.attrs.toOption, FlagsClear a) :
    ∃ res, wprobeDumpInfo env [dev] sync (empty room) ⟨req, none⟩ = some res
      ∧ (res.cb.pos = none ∨ ∃ dev', res.devices = [dev'] ∧ res.cb.pos.isSome
        ∧ dev'.ptr = dev.ptr ∧ (∀ vflags, dev'.itemList vflags = dev.itemList vflags)
        ∧ (⟨res.cb, dev'.requested req, [res.skb.data]⟩ : Dump).Sound env dev' true) := by
  rcases dumpInfoStart_cases env dev sync hcmd with
    ⟨err, herr⟩ | ⟨attrs, l, link, path, hattrs, hlookup, hlink, hstart⟩
  · refine ⟨⟨err, empty room, ⟨req, none⟩, [dev]⟩, ?_, .inl rfl⟩
    simp only [wprobeDumpInfo, herr]
  · have hlookup' : (dev.started env.host sync l).lookup attrs.mac = some l := hlookup
    have hrequested : (dev.started env.host sync l).requested req
        = (dev.started env.host sync l).values l := by
      rw [Device.requested, hattrs]
      show values _ (getD _ none) = _
      rw [hlookup', getD_some]
    have hmem : attrs ∈ req.attrs.toOption := by
      rw [hattrs]
      rfl
    have hlen := Device.length_itemList hlookup' (hclear attrs hmem) hlink
    let pos : InfoPos := ⟨dev.ptr, link.map LinkHdr.ptr, startFlags link attrs, 0⟩
    have hvals : ∀ i, pos.index ≤ i →
        i < ((dev.started env.host sync l).itemList pos.vflags).length →
        ∃ val, (dev.started env.host sync l).queryVal[i]? = some val
          ∧ ((dev.started env.host sync l).values l)[i]? = some val := by
      intro i _ hi
      have hval := List.getElem?_eq_getElem (hlen ▸ hi)
      exact ⟨_, queryVal_started hlookup hval, hval⟩
    obtain ⟨k, s, res, hsend, hdata, hcb, hdevices, hstray⟩ :=
      dumpInfoSend_reports env [dev.started env.host sync l] room hcmd hvals
    refine ⟨res, ?_, .inr ⟨dev.started env.host sync l, hdevices, ?_, rfl, fun _ => rfl, ?_⟩⟩
    · rw [wprobeDumpInfo]
      dsimp only
      rw [hstart]
      dsimp only
      have hptr : (dev.started env.host sync l).ptr = dev.ptr := rfl
      rw [setDevice_singleton hptr]
      exact hsend
    · rw [hcb]
      rfl
    · refine ⟨?_, ⟨_, congrArg InfoCb.pos hcb, rfl, ?_, ?_⟩, fun _ i val hval => ?_⟩
      · rw [hcb]
        exact hcmd
      · rw [hrequested, hlen]
      · rw [hcb, hdata, hrequested]
        exact Reported.message .nil k s hstray
      · exact queryVal_started hlookup (hrequested ▸ hval)

theorem wprobeDumpInfo_resumed {owner : Bool} (sync : Sync) (room : ℕ)
    (hsound : d.Sound env dev owner)
    (howner : ∀ pos, d.cb.pos = some pos → pos.index < (dev.itemList pos.vflags).length →
      owner = true) :
    ∃ res, wprobeDumpInfo env [dev] sync (empty room) d.cb = some res ∧ res.devices = [dev]
    ∧ Dump.Sound env dev owner { d with cb := res.cb, msgs := d.msgs ++ [res.skb.data] } := by
  obtain ⟨hcmd, ⟨pos, hpos, hptr, hlen, hreported⟩, hquery⟩ := hsound
  have hat : deviceAt [dev] pos.dev = some dev := by
    simp [deviceAt, hptr]
  by_cases hlink : ∀ l ∈ pos.link, ∃ hdr ∈ dev.linkHdrs, hdr.ptr = l
  · have hvals : ∀ i, pos.index ≤ i → i < (dev.itemList pos.vflags).length →
        ∃ val, dev.queryVal[i]? = some val ∧ d.snapshot[i]? = some val := by
      intro i hle hi
      have hval := List.getElem?_eq_getElem (hlen.symm ▸ hi)
      exact ⟨_, hquery (howner pos hpos (Nat.lt_of_le_of_lt hle hi)) i _ hval, hval⟩
    obtain ⟨k, s, res, hsend, hdata, hcb, hdevices, hstray⟩ :=
      dumpInfoSend_reports env [dev] room hcmd hvals
    refine ⟨res, ?_, hdevices, ?_, ⟨_, congrArg InfoCb.pos hcb, hptr, hlen, ?_⟩, hquery⟩
    · simp only [wprobeDumpInfo, hpos, hat, if_pos hlink]
      exact hsend
    · rw [hcb]
      exact hcmd
    · rw [hcb, hdata]
      exact hreported.message k s hstray
  · refine ⟨⟨-ENOENT, empty room, d.cb, [dev]⟩, ?_, rfl, hcmd, ⟨pos, hpos, hptr, hlen, ?_⟩, hquery⟩
    · simp only [wprobeDumpInfo, hpos, hat, if_neg hlink]
    · -- the link has gone, and nothing is added
      exact hreported.message 0 [] ⟨[], List.nil_prefix, rfl⟩

theorem Queries.Sound.step {q q' : Queries} {e : QueryEvent} (h : q.Sound env)
    (hok : e.Ok q) (hstep : q.step env e = some q') : q'.Sound env := by
  cases e with
  | start r pid seq attrs sync room =>
    have hcmd : (valuesRequest pid seq attrs).cmd = .getInfo := rfl
    obtain ⟨res, hres, hcases⟩ := wprobeDumpInfo_first env q.dev sync room hcmd hok
    have hstep : q.start env r (valuesRequest pid seq attrs) sync room = some q' := hstep
    rw [Queries.start, hres] at hstep
    rcases hcases with hnone | ⟨dev', hdevices, hsome, hptr, hitems, hsound⟩
    · obtain rfl : q = q' := by simpa [hnone] using hstep
      exact h
    · have hq' : (⟨dev', setDump q.dumps r ⟨res.cb, dev'.requested (valuesRequest pid seq attrs),
          [res.skb.data]⟩, some r⟩ : Queries) = q' := by
        simpa [hsome, hdevices] using hstep
      rw [← hq']
      intro r' d' hd'
      by_cases hr : r' = r
      · obtain rfl := hr
        obtain rfl : _ = d' := by simpa [setDump] using hd'
        simpa using hsound
      · have hold : q.dumps r' = some d' := by simpa [setDump, hr] using hd'
        have hother : decide (some r = some r') = false := by simp [Ne.symm hr]
        show d'.Sound env dev' (decide (some r = some r'))
        rw [hother]
        exact (h r' d' hold).disowned hptr hitems
  | resume r sync room =>
    have hstep : q.resume env r sync room = some q' := hstep
    rw [Queries.resume] at hstep
    cases hd : q.dumps r with
    | none =>
      rw [hd] at hstep
      exact some.inj hstep ▸ h
    | some d =>
      obtain ⟨res, hres, hdevices, hsound⟩ := wprobeDumpInfo_resumed sync room (h r d hd)
        (fun pos hpos hlt => by simpa using hok d hd pos hpos hlt)
      rw [hd] at hstep
      dsimp only at hstep
      rw [hres] at hstep
      have hq' : (⟨q.dev, setDump q.dumps r ⟨res.cb, d.snapshot, d.msgs ++ [res.skb.data]⟩,
          q.owner⟩ : Queries) = q' := by
        simpa [hdevices] using hstep
      rw [← hq']
      intro r' d' hd'
      by_cases hr : r' = r
      · obtain rfl := hr
        obtain rfl : _ = d' := by simpa [setDump] using hd'
        exact hsound
      · exact h r' d' (by simpa [setDump, hr] using hd')
  | measure sync attrs =>
    obtain rfl := some.inj hstep
    exact fun r d hd => (h r d hd).agrees (wprobeMeasure_agrees attrs)
  | timer sync =>
    obtain rfl := some.inj hstep
    exact fun r d hd => (h r d hd).agrees agrees_timer

end Steps

def idleQueries (dev : Device) : Queries := ⟨dev, fun _ => none, none⟩

/-- **Every dump reports the values that its link or the interface had when
its first message was made**, in every run in which a dump with items left goes
on only if it was the last to begin, and no request for the values of the
interface has the flag for links. -/
theorem reports_of_reaches (env : Env) (dev : Device) {q : Queries}
    (h : Reaches (Queries.step env) (fun q e => e.Ok q) (idleQueries dev) q) : q.Report env := by
  have hidle : (idleQueries dev).Sound env := by
    intro r d hd
    cases hd
  have hsound : q.Sound env := Reaches.invariant (P := Queries.Sound env) hidle
    (fun _ _ _ hs hok hstep => hs.step hok hstep) h
  intro r d hd
  obtain ⟨-, ⟨pos, hpos, -, -, hreported⟩, -⟩ := hsound r d hd
  exact ⟨pos, hpos, hreported⟩

/-! ### Two dumps at a time -/

/-- An interface with two such items and no links. -/
def twoBytes : Device := bareDevice (.replicate 2 byteItem) Iface.added rfl

/-- The driver fills in a byte everywhere. -/
def fillByte (b : UInt8) : Sync where
  now := ⟨0, 0⟩
  driver := fun n => ⟨.replicate n (some (.replicate 8 b)), true⟩

/-- A request for the values of that interface. -/
def twoBytesAttrs : InfoAttrs := ⟨some [0x77], none, none⟩

/-- A dump in two messages, with a measurement between them. -/
def measuredDump : List QueryEvent :=
  [.start 0 7 1 (.ok twoBytesAttrs) (fillByte 0x11) 64, .timer (fillByte 0x22),
    .resume 0 (fillByte 0x33) 64]

/-- A measurement between the two messages of a dump does no harm. -/
theorem reports_of_reaches_measured : ∃ q,
    (Reaches (Queries.step smallEnv) (fun q e => e.Ok q) (idleQueries twoBytes) q
      ∧ (q.dumps 0).map (fun d => d.msgs.map List.length) = some [64, 64])
    ∧ q.Report smallEnv := by
  have hrun : (run (Queries.step smallEnv) (fun q e => decide (e.Ok q)) (idleQueries twoBytes)
      measuredDump).any
      (fun q => (q.dumps 0).map (fun d => d.msgs.map List.length) = some [64, 64]) = true := by
    decide +kernel
  obtain ⟨q, hq, hmsgs⟩ := exists_reaches_of_run hrun
  have hreach : Reaches (Queries.step smallEnv) (fun q e => e.Ok q) (idleQueries twoBytes) q := by
    simpa only [decide_eq_true_eq] using hq
  exact ⟨q, ⟨hreach, of_decide_eq_true hmsgs⟩, reports_of_reaches smallEnv twoBytes hreach⟩

/-- Another dump begins between the two messages. -/
def overtakenDump : List QueryEvent :=
  [.start 0 7 1 (.ok twoBytesAttrs) (fillByte 0x11) 64,
    .start 1 8 1 (.ok twoBytesAttrs) (fillByte 0x22) 64, .resume 0 (fillByte 0x33) 64]

/-- What is wrong with the first of the two dumps. -/
def Dump.Overtaken (dev : Device) (d : Dump) : Bool :=
  match d.cb.pos, d.msgs with
  | some pos, [msg₀, msg₁] =>
    let record := valueRecord smallEnv d.cb.request (dev.itemList pos.vflags) pos.vflags d.snapshot
    pos.index = 2 ∧ msg₀.length = 64 ∧ (record 0).length = 64 ∧ (record 1).length = 64
      ∧ msg₁.take 64 ≠ record 1
  | _, _ => false

theorem not_reports_of_overtaken (h : d.Overtaken dev = true) : ¬ d.Reports smallEnv dev := by
  rintro ⟨pos, hpos, hreported⟩
  unfold Dump.Overtaken at h
  rw [hpos] at h
  split at h
  · rename_i pos' msg₀ msg₁ hpos' hmsgs
    obtain rfl := some.inj hpos'
    obtain ⟨hindex, hlen₀, hrecord₀, hrecord₁, hwrong⟩ := of_decide_eq_true h
    rw [hmsgs, hindex] at hreported
    rw [show [msg₀, msg₁] = [msg₀] ++ [msg₁] from rfl] at hreported
    obtain ⟨j, k, s, hjk, hfirst, -, hmsg₁⟩ := hreported.last
    rw [show [msg₀] = [] ++ [msg₀] from rfl] at hfirst
    obtain ⟨i, n, s', hin, hnil, hstray, hmsg₀⟩ := hfirst.last
    obtain rfl := hnil.eq_zero
    have hstray := hstray.length_le
    -- the first message has one record, so that the second has the other
    have hlen := hlen₀
    rw [hmsg₀, List.length_append] at hlen
    have hone : n = 1 := by
      rcases n with _ | _ | n
      · rw [List.range'_zero, List.flatMap_nil, List.length_nil] at hlen
        omega
      · rfl
      · rw [List.range'_succ, List.range'_succ, List.flatMap_cons, List.flatMap_cons,
          List.length_append, List.length_append, Nat.zero_add] at hlen
        omega
    obtain rfl : j = 1 := by omega
    obtain rfl : k = 1 := by omega
    rw [hmsg₁, List.range'_one, List.flatMap_singleton, ← hrecord₁, List.take_left] at hwrong
    exact hwrong rfl
  · exact nomatch h

/-- **A dump that is overtaken reports values of the other.** -/
theorem overtaken_not_reports : ∃ q,
    Reaches (Queries.step smallEnv) (fun _ _ => True) (idleQueries twoBytes) q
      ∧ ¬ q.Report smallEnv := by
  have hrun : (run (Queries.step smallEnv) (fun _ _ => true) (idleQueries twoBytes)
      overtakenDump).any (fun q => (q.dumps 0).any (fun d => d.Overtaken q.dev)) = true := by
    decide +kernel
  obtain ⟨q, hq, hwrong⟩ := exists_reaches_of_run hrun
  obtain ⟨d, hd, hovertaken⟩ := (any_eq_true _ _).mp hwrong
  refine ⟨q, by simpa only using hq, fun hreport => ?_⟩
  exact not_reports_of_overtaken hovertaken (hreport 0 d hd)

end Wprobe
