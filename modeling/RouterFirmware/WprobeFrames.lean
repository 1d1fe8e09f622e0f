import RouterFirmware.WprobeFilterContained

/-!
# Counting frames

A driver gives every frame to `wprobe_add_frame`, which puts a header before
it into the packet of the filter, cuts the frame where the packet would get
too long, and counts it for one item of each group: the first that accepts
the packet, or else the last that has no instructions.

A group is a span of the items of the filter, and the groups that
`wprobe_set_filter` installs take up the items one after the other
(`Consecutive`), so that what is counted for one group does not change the
counters of another. What does go wrong is the length: the cut leaves out the
header, and a frame of more than 1888 bytes overruns the packet.
-/

namespace Wprobe

open Nat List Option

/-! ## `wprobe_add_frame` -/

/-- `WPROBE_MAX_FRAME_SIZE`. -/
def wprobeMaxFrameSize : ℕ := 1900

/-- `sizeof(struct wprobe_rtap_hdr)`. -/
def sizeofRtapHdr : ℕ := 8

/-- `WPROBE_PKT_TX`. -/
def wprobePktTx : UInt8 := 0x10

/-- `struct wprobe_wlan_hdr`. -/
structure WlanHdr where
  len : UInt16
  snr : UInt8
  type : UInt8

/-- The header in the packet; the length is in network order. -/
def WlanHdr.bytes (hdr : WlanHdr) : List UInt8 :=
  ByteOrder.big.bytes 2 hdr.len.toNat ++ [hdr.snr, hdr.type]

/-- A frame of the driver. -/
structure Frame where
  hdr : WlanHdr
  data : List UInt8
  length_lt : data.length < 2 ^ 31

/-- The packet of a filter: its bytes, and how many of them are in use. -/
structure FilterSkb where
  mem : Bytes
  len : ℕ

namespace FilterSkb

/-- What is copied to where `skb_put` has made room for `n` bytes. -/
def put (skb : FilterSkb) (n : ℕ) (bytes : List UInt8) : FilterSkb :=
  ⟨skb.mem.blit skb.len bytes, skb.len + n⟩

/-- The bytes of the packet that are in use. -/
def data (skb : FilterSkb) : List UInt8 := skb.mem.slice 0 skb.len

/-- The packet for a frame: the header, and what fits of the frame. -/
def addFrame (skb : FilterSkb) (hdrlen : ℕ) (fr : Frame) : FilterSkb :=
  let skb : FilterSkb := { skb with len := sizeofRtapHdr }
  let len :=
    if wprobeMaxFrameSize < fr.data.length + skb.len then wprobeMaxFrameSize - skb.len
    else fr.data.length
  (skb.put hdrlen fr.hdr.bytes).put len (fr.data.take len)

end FilterSkb

/-- `struct wprobe_filter_counter`. -/
structure Counter where
  tx : UInt64
  rx : UInt64

/-- A frame is counted as sent or as received. -/
def Counter.count (type : UInt8) (c : Counter) : Counter :=
  if wprobePktTx ≤ type then { c with tx := c.tx + 1 } else { c with rx := c.rx + 1 }

/-- The packet and the counters of a filter. -/
structure Matching where
  skb : FilterSkb
  counters : ℕ → Counter

variable (K : Kernel) (skRunFilter : List UInt8 → List SockFilter → UInt32) (mem : Bytes)

/-- The number of instructions of an item. -/
def itemLength (fi : ℕ) : ℕ := mem.load K.order 4 (fi + 32)

/-- `sk_run_filter`, with the instructions of an item. -/
def runItem (skb : List UInt8) (fi : ℕ) : UInt32 :=
  skRunFilter skb (filterAt K.order mem (itemLength K mem fi) (fi + sizeofItemHdr))

/-- **The loop over the items of a group**. -/
def findItem (skb : List UInt8) : List ℕ → ℕ → Option ℕ → Option ℕ
  | [], _, dflt => dflt
  | fi :: items, j, dflt =>
    if itemLength K mem fi = 0 then findItem skb items (j + 1) (some j)
    else if runItem K skRunFilter mem skb fi = 0 then findItem skb items (j + 1) dflt
    else some j

/-- The items of a group. -/
def Filter.groupItems (f : Filter) (g : Group) : List ℕ :=
  (f.items.drop g.first).take g.nItems.toNat

/-- One turn of the loop over the groups. -/
def countGroup (f : Filter) (skb : List UInt8) (type : UInt8) (counters : ℕ → Counter)
    (g : Group) : ℕ → Counter :=
  match findItem K skRunFilter mem skb (f.groupItems g) 0 none with
  | none => counters
  | some j => fun i => if i = g.first + j then (counters i).count type else counters i

/-- **`wprobe_add_frame`**, for the active filter. -/
def wprobeAddFrame (f : Filter) (s : Matching) (fr : Frame) : Matching :=
  let skb := s.skb.addFrame f.hdrlen fr
  ⟨skb, f.groups.foldl (countGroup K skRunFilter mem f skb.data fr.hdr.type) s.counters⟩

/-- A sequence of frames. -/
def addFrames (f : Filter) (s : Matching) (frames : List Frame) : Matching :=
  frames.foldl (wprobeAddFrame K skRunFilter mem f) s

/-! ## What is to hold -/

/-- An item accepts the packet: it has instructions, and they do. -/
def Accepts (skb : List UInt8) (items : List ℕ) (i : ℕ) : Prop :=
  ∃ fi, items[i]? = some fi ∧ itemLength K mem fi ≠ 0 ∧ runItem K skRunFilter mem skb fi ≠ 0

/-- An item has no instructions. -/
def Unconditional (items : List ℕ) (i : ℕ) : Prop :=
  ∃ fi, items[i]? = some fi ∧ itemLength K mem fi = 0

/-- **The item that is to count a frame.** -/
def Counts (skb : List UInt8) (items : List ℕ) : Option ℕ → Prop
  | some j =>
    Accepts K skRunFilter mem skb items j ∧ (∀ i < j, ¬ Accepts K skRunFilter mem skb items i)
      ∨ (∀ i, ¬ Accepts K skRunFilter mem skb items i) ∧ Unconditional K mem items j
        ∧ ∀ i, j < i → ¬ Unconditional K mem items i
  | none =>
    (∀ i, ¬ Accepts K skRunFilter mem skb items i) ∧ ∀ i, ¬ Unconditional K mem items i

/-- **A frame is matched as it should be.** -/
structure Lawful (f : Filter) (s : Matching) (fr : Frame) (s' : Matching) : Prop where
  within : s'.skb.len ≤ wprobeMaxFrameSize
  counts : ∀ g ∈ f.groups, ∃ o, Counts K skRunFilter mem s'.skb.data (f.groupItems g) o
    ∧ ∀ j < g.nItems.toNat, s'.counters (g.first + j)
      = if o = some j then (s.counters (g.first + j)).count fr.hdr.type
        else s.counters (g.first + j)
  others : ∀ i, f.items.length ≤ i → s'.counters i = s.counters i

/-! ## The packet -/

theorem FilterSkb.len_addFrame (skb : FilterSkb) (hdrlen : ℕ) (fr : Frame) :
    (skb.addFrame hdrlen fr).len = 8 + hdrlen + min fr.data.length 1892 := by
  unfold addFrame put wprobeMaxFrameSize sizeofRtapHdr
  dsimp only
  split
  · omega
  · omega

/-! ## The item that counts -/

/-- What holds of an entry of a list with one more entry. -/
theorem exists_getElem?_concat {α : Type} {P : α → Prop} {l : List α} {x : α} {i : ℕ} :
    (∃ y, (l ++ [x])[i]? = some y ∧ P y)
      ↔ (∃ y, l[i]? = some y ∧ P y) ∨ i = l.length ∧ P x := by
  rcases lt_trichotomy i l.length with hi | rfl | hi
  · rw [getElem?_append_left hi]
    exact (or_iff_left fun h => absurd h.1 hi.ne).symm
  · simp
  · have hend : (l ++ [x])[i]? = none ∧ l[i]? = none := by
      simp only [getElem?_eq_none_iff, length_append, length_singleton]
      omega
    simp [hend, hi.ne']

variable {f : Filter} {skb : List UInt8}

/-- The loop behind the items `pre`, of which none accepts and `dflt` is the
last one without instructions. -/
theorem counts_findItem_append (pre : List ℕ) {dflt : Option ℕ}
    (items : List ℕ) (hno : ∀ i, ¬ Accepts K skRunFilter mem skb pre i)
    (hdflt : Counts K skRunFilter mem skb pre dflt) : Counts K skRunFilter mem skb (pre ++ items)
    (findItem K skRunFilter mem skb items pre.length dflt) := by
  induction items generalizing pre dflt with
  | nil => rwa [append_nil]
  | cons fi items ih =>
    rw [findItem, append_cons]
    have hlength : (pre ++ [fi]).length = pre.length + 1 := length_append
    have hno' (hfi : ¬ (itemLength K mem fi ≠ 0 ∧ runItem K skRunFilter mem skb fi ≠ 0)) (i : ℕ) :
        ¬ Accepts K skRunFilter mem skb (pre ++ [fi]) i :=
      fun h => (exists_getElem?_concat.mp h).elim (hno i) fun h => hfi h.2
    by_cases hempty : itemLength K mem fi = 0
    · have hnone := hno' fun h => h.1 hempty
      rw [if_pos hempty, ← hlength]
      refine ih _ hnone (.inr ⟨hnone, exists_getElem?_concat.mpr (.inr ⟨rfl, hempty⟩), ?_⟩)
      rintro i hi ⟨fi', hfi', -⟩
      have := (List.getElem?_eq_some_iff.mp hfi').1
      omega
    rw [if_neg hempty]
    by_cases hrun : runItem K skRunFilter mem skb fi = 0
    · have hnone := hno' fun h => h.2 hrun
      rw [if_pos hrun, ← hlength]
      have huncond : ∀ i, Unconditional K mem (pre ++ [fi]) i ↔ Unconditional K mem pre i :=
        fun i => exists_getElem?_concat.trans (or_iff_left fun h => hempty h.2)
      refine ih _ hnone ?_
      cases dflt with
      | none => exact ⟨hnone, fun i h => hdflt.2 i ((huncond i).mp h)⟩
      | some j =>
        obtain ⟨-, hj, hlast⟩ := hdflt.resolve_left fun h => hno j h.1
        exact .inr ⟨hnone, (huncond j).mpr hj, fun i hi h => hlast i hi ((huncond i).mp h)⟩
    · rw [if_neg hrun]
      refine .inl ⟨⟨fi, by simp, hempty, hrun⟩, fun i hi ⟨fi', hfi', h⟩ => hno i ⟨fi', ?_, h⟩⟩
      rwa [append_assoc, getElem?_append_left hi] at hfi'

theorem counts_findItem (skb : List UInt8) (items : List ℕ) :
    Counts K skRunFilter mem skb items (findItem K skRunFilter mem skb items 0 none) :=
  counts_findItem_append K skRunFilter mem [] items nofun ⟨nofun, nofun⟩

variable {K skRunFilter mem}

theorem lt_of_findItem {items : List ℕ} {j : ℕ}
    (h : findItem K skRunFilter mem skb items 0 none = some j) : j < items.length := by
  have hcounts := counts_findItem K skRunFilter mem skb items
  rw [h] at hcounts
  rcases hcounts with ⟨⟨fi, hfi, -⟩, -⟩ | ⟨-, ⟨fi, hfi, -⟩, -⟩
  · exact (List.getElem?_eq_some_iff.mp hfi).1
  · exact (List.getElem?_eq_some_iff.mp hfi).1

/-! ## The groups of an installed filter -/

/-- **The groups take up their items one after the other**. -/
inductive Consecutive : ℕ → List Group → ℕ → Prop
  | nil (a : ℕ) : Consecutive a [] a
  | cons {a b : ℕ} {g : Group} {groups : List Group} (hg : g.first = a)
      (h : Consecutive (a + g.nItems.toNat) groups b) : Consecutive a (g :: groups) b

namespace Consecutive

variable {a b : ℕ} {groups : List Group} (h : Consecutive a groups b)

include h

theorem snoc {g : Group} (hg : g.first = b) :
    Consecutive a (groups ++ [g]) (b + g.nItems.toNat) := by
  induction h with
  | nil a => exact .cons hg (.nil _)
  | cons hg' _ ih => exact .cons hg' (ih hg)

theorem le : a ≤ b := by
  induction h with
  | nil a => exact le_refl a
  | cons _ _ ih => exact le_trans (le_add_right _ _) ih

theorem first_le {g : Group} (hg : g ∈ groups) : a ≤ g.first := by
  induction h with
  | nil a => exact absurd hg not_mem_nil
  | cons hg' _ ih =>
    rcases mem_cons.mp hg with rfl | hg
    · exact le_of_eq hg'.symm
    · exact le_trans (le_add_right _ _) (ih hg)

end Consecutive

variable {m : Bytes}

theorem groups_parseItem (p : Parse) : (parseItem K m p).groups = p.groups := by
  rw [parseItem]

theorem length_items_parseItem (p : Parse) :
    (parseItem K m p).items.length = p.items.length + 1 := by
  rw [parseItem, length_append, length_singleton]

theorem parseItems_spec (k : ℕ) (p : Parse) : (parseItems K m k p).groups = p.groups
    ∧ (parseItems K m k p).items.length = p.items.length + k := by
  induction k generalizing p with
  | zero => exact ⟨rfl, rfl⟩
  | succ k ih =>
    have hstep : parseItems K m (k + 1) p = parseItems K m k (parseItem K m p) :=
      Function.iterate_succ_apply _ _ _
    obtain ⟨hgroups, hitems⟩ := ih (parseItem K m p)
    rw [hstep, hgroups, hitems, groups_parseItem, length_items_parseItem]
    exact ⟨rfl, by omega⟩

theorem parseGroup_spec (p : Parse) :
    ∃ nItems, (parseGroup K m p).groups = p.groups ++ [⟨p.data, nItems, p.items.length⟩]
      ∧ (parseGroup K m p).items.length = p.items.length + nItems.toNat := by
  rw [parseGroup]
  exact ⟨_, parseItems_spec _ _⟩

theorem consecutive_parseGroup {p : Parse} (h : Consecutive 0 p.groups p.items.length) :
    Consecutive 0 (parseGroup K m p).groups (parseGroup K m p).items.length := by
  obtain ⟨nItems, hgroups, hitems⟩ := parseGroup_spec (K := K) (m := m) p
  rw [hgroups, hitems]
  exact h.snoc rfl

theorem consecutive_parseGroups {g : ℕ} {p : Parse} (h : Consecutive 0 p.groups p.items.length) :
    Consecutive 0 (parseGroups K m g p).groups (parseGroups K m g p).items.length := by
  induction g generalizing p with
  | zero => exact h
  | succ g ih =>
    have hstep : parseGroups K m (g + 1) p = parseGroups K m g (parseGroup K m p) :=
      Function.iterate_succ_apply _ _ _
    rw [hstep]
    exact ih (consecutive_parseGroup h)

theorem consecutive_of_wprobeSetFilter {allocs : Allocs} {data len : ℕ} {r : Accepted}
    (h : wprobeSetFilter K allocs m data len = .ok r) :
    r.filter.hdrlen = 4 ∧ Consecutive 0 r.filter.groups r.filter.items.length := by
  obtain ⟨-, c, -, -, -, -, -, hdrlen, p, rfl, hitems, hgroups, -⟩ := exists_of_wprobeSetFilter h
  rw [hitems, hgroups]
  exact ⟨hdrlen, consecutive_parseGroups (.nil 0)⟩

/-! ## The counters -/

theorem countGroup_apply {type : UInt8} (counters : ℕ → Counter)
    (g : Group) (i : ℕ) : countGroup K skRunFilter mem f skb type counters g i
    = if (findItem K skRunFilter mem skb (f.groupItems g) 0 none).map (g.first + ·) = some i
      then (counters i).count type else counters i := by
  unfold countGroup
  cases findItem K skRunFilter mem skb (f.groupItems g) 0 none with
  | none => rfl
  | some j =>
    rw [map_some]
    simp only [some.injEq, eq_comm]

theorem countGroup_of_outside {type : UInt8}
    {counters : ℕ → Counter} {g : Group} {i : ℕ} (h : i < g.first ∨ g.first + g.nItems.toNat ≤ i) :
    countGroup K skRunFilter mem f skb type counters g i = counters i := by
  rw [countGroup_apply]
  refine if_neg fun heq => ?_
  obtain ⟨j, hj, rfl⟩ := map_eq_some_iff.mp heq
  have hlt := lt_of_findItem hj
  have hle : (f.groupItems g).length ≤ g.nItems.toNat := length_take_le _ _
  omega

variable (K skRunFilter mem)

theorem foldl_countGroup (f : Filter) (skb : List UInt8) (type : UInt8) {groups : List Group}
    {a b : ℕ} (h : Consecutive a groups b) (counters : ℕ → Counter) : (∀ i, i < a ∨ b ≤ i →
      groups.foldl (countGroup K skRunFilter mem f skb type) counters i = counters i)
    ∧ ∀ g ∈ groups, ∀ j < g.nItems.toNat,
      groups.foldl (countGroup K skRunFilter mem f skb type) counters (g.first + j)
        = if findItem K skRunFilter mem skb (f.groupItems g) 0 none = some j
          then (counters (g.first + j)).count type else counters (g.first + j) := by
  induction h generalizing counters with
  | nil a => exact ⟨fun _ _ => rfl, fun g hg => absurd hg not_mem_nil⟩
  | @cons a b g groups hg hrest ih =>
    obtain rfl := hg
    have hle := hrest.le
    obtain ⟨houtside, hinside⟩ := ih (countGroup K skRunFilter mem f skb type counters g)
    constructor
    · intro i hi
      rw [foldl_cons, houtside i (by omega), countGroup_of_outside (by omega)]
    · intro g' hg' j hj
      rw [foldl_cons]
      rcases mem_cons.mp hg' with rfl | hg'
      · rw [houtside _ (by omega), countGroup_apply]
        have hiff : (findItem K skRunFilter mem skb (f.groupItems g') 0 none).map (g'.first + ·)
            = some (g'.first + j)
              ↔ findItem K skRunFilter mem skb (f.groupItems g') 0 none = some j := by
          cases findItem K skRunFilter mem skb (f.groupItems g') 0 none with
          | none => exact iff_of_false nofun nofun
          | some k => simp
        simp only [hiff]
      · -- the first group is not one of those that follow
        have hfirst := hrest.first_le hg'
        rw [hinside g' hg' j hj, countGroup_of_outside (by omega)]

theorem lawful_iff (hdrlen : f.hdrlen = 4)
    (h : Consecutive 0 f.groups f.items.length) (s : Matching) (fr : Frame) :
    Lawful K skRunFilter mem f s fr (wprobeAddFrame K skRunFilter mem f s fr)
      ↔ fr.data.length ≤ 1888 := by
  have hlen : (wprobeAddFrame K skRunFilter mem f s fr).skb.len
      = 8 + 4 + min fr.data.length 1892 := by
    rw [← hdrlen]
    exact FilterSkb.len_addFrame s.skb f.hdrlen fr
  constructor
  · intro hlaw
    have hwithin := hlaw.within
    rw [hlen] at hwithin
    unfold wprobeMaxFrameSize at hwithin
    omega
  · intro hshort
    obtain ⟨houtside, hinside⟩ := foldl_countGroup K skRunFilter mem f
      (s.skb.addFrame f.hdrlen fr).data fr.hdr.type h s.counters
    refine ⟨?_, fun g hg => ⟨_, counts_findItem K skRunFilter mem _ _, hinside g hg⟩,
      fun i hi => houtside i (.inr hi)⟩
    rw [hlen]
    unfold wprobeMaxFrameSize
    omega

theorem addFrames_take_succ {s : Matching} {frames : List Frame} {n : ℕ}
    (hn : n < frames.length) : addFrames K skRunFilter mem f s (frames.take (n + 1))
    = wprobeAddFrame K skRunFilter mem f (addFrames K skRunFilter mem f s (frames.take n))
      frames[n] := by
  unfold addFrames
  rw [take_add_one, getElem?_eq_getElem hn, toList_some, foldl_append]
  rfl

/-- **Every frame of a sequence is matched as it should be if and only if none
has more than 1888 bytes**, for every filter that `wprobe_set_filter` has
installed. -/
theorem frames_lawful_iff (K : Kernel) (skRunFilter : List UInt8 → List SockFilter → UInt32)
    (mem : Bytes) (allocs : Allocs) (m : Bytes) (data len : ℕ) (r : Accepted)
    (hinstalled : wprobeSetFilter K allocs m data len = .ok r) (s : Matching)
    (frames : List Frame) : (∀ n (hn : n < frames.length),
      Lawful K skRunFilter mem r.filter
        (addFrames K skRunFilter mem r.filter s (frames.take n)) frames[n]
        (addFrames K skRunFilter mem r.filter s (frames.take (n + 1))))
    ↔ ∀ fr ∈ frames, fr.data.length ≤ 1888 := by
  obtain ⟨hdrlen, hgroups⟩ := consecutive_of_wprobeSetFilter hinstalled
  rw [forall_mem_iff_forall_getElem]
  refine forall_congr' fun n => forall_congr' fun hn => ?_
  rw [addFrames_take_succ K skRunFilter mem hn]
  exact lawful_iff K skRunFilter mem hdrlen hgroups _ _

/-! ### A short frame and a long one -/

theorem length_zeros_lt (n : ℕ) : (replicate (n % 2 ^ 31) (0 : UInt8)).length < 2 ^ 31 := by
  rw [length_replicate]
  exact mod_lt n (Nat.two_pow_pos 31)

/-- A frame of `n` zeros. -/
def zeroFrame (n : ℕ) : Frame := ⟨⟨0, 0, 0⟩, replicate (n % 2 ^ 31) 0, length_zeros_lt n⟩

theorem length_zeroFrame (n : ℕ) : (zeroFrame n).data.length = n % 2 ^ 31 := length_replicate

def shortFrames : List Frame := [zeroFrame 60, zeroFrame 1888]

/-- The packet and the counters before the first frame. -/
def freshMatching : Matching := ⟨⟨fun _ => 0, 8⟩, fun _ => ⟨0, 0⟩⟩

theorem exists_returnFilter :
    ∃ r, wprobeSetFilter smallKernel allAllocs returnPacket 0x1000 88 = .ok r :=
  exists_of_isOk (by decide +kernel)

theorem frames_lawful_short : ∃ r,
    wprobeSetFilter smallKernel allAllocs returnPacket 0x1000 88 = .ok r
      ∧ ∀ n (hn : n < shortFrames.length),
        Lawful smallKernel (fun _ _ => 1) returnPacket r.filter
          (addFrames smallKernel (fun _ _ => 1) returnPacket r.filter freshMatching
            (shortFrames.take n)) shortFrames[n]
          (addFrames smallKernel (fun _ _ => 1) returnPacket r.filter freshMatching
            (shortFrames.take (n + 1))) := by
  obtain ⟨r, hr⟩ := exists_returnFilter
  refine ⟨r, hr, (frames_lawful_iff smallKernel (fun _ _ => 1) returnPacket allAllocs returnPacket
    0x1000 88 r hr freshMatching shortFrames).mpr fun fr hfr => ?_⟩
  rcases mem_cons.mp hfr with rfl | hfr
  · rw [length_zeroFrame]
    decide
  · rw [mem_singleton.mp hfr, length_zeroFrame]
    decide

/-- **A frame of 1900 bytes makes the packet too long.** -/
theorem frame_overruns : ∃ r,
    wprobeSetFilter smallKernel allAllocs returnPacket 0x1000 88 = .ok r
      ∧ (wprobeAddFrame smallKernel (fun _ _ => 1) returnPacket r.filter freshMatching
        (zeroFrame 1900)).skb.len = 1904
      ∧ ¬ Lawful smallKernel (fun _ _ => 1) returnPacket r.filter freshMatching (zeroFrame 1900)
        (wprobeAddFrame smallKernel (fun _ _ => 1) returnPacket r.filter freshMatching
          (zeroFrame 1900)) := by
  obtain ⟨r, hr⟩ := exists_returnFilter
  have hlen : (wprobeAddFrame smallKernel (fun _ _ => 1) returnPacket r.filter freshMatching
      (zeroFrame 1900)).skb.len = 1904 := by
    refine (FilterSkb.len_addFrame _ _ _).trans ?_
    rw [(consecutive_of_wprobeSetFilter hr).1, length_zeroFrame]
    decide
  refine ⟨r, hr, hlen, fun hlaw => ?_⟩
  have hwithin := hlaw.within
  rw [hlen] at hwithin
  exact absurd hwithin (by decide)

end Wprobe
