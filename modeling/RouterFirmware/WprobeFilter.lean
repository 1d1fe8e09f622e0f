import RouterFirmware.ByteOrder
import RouterFirmware.Errno

/-!
# The packet filter of wprobe

A filter comes as a blob of bytes: a header with the number of groups; for each
group a header with a name and the number of items; for each item a header with
a name and the number of instructions, and the instructions.
-/

namespace Wprobe

open Errno

/-! ## The kernel -/

/-- `struct sock_filter`, an instruction of a packet filter. -/
structure SockFilter where
  code : ℕ
  jt : UInt8
  jf : UInt8
  k : ℕ

/-- What the code takes from the kernel it runs in. -/
structure Kernel where
  /-- The byte order of the machine. -/
  order : ByteOrder
  /-- Whether pointers have 64 bits; otherwise they have 32. -/
  wide : Bool
  /-- `sk_chk_filter`, which looks at the instructions it is given. -/
  skChkFilter : List SockFilter → ℤ

namespace Kernel

/-- The bits of a pointer, and of a `size_t`. -/
def bits (K : Kernel) : ℕ := if K.wide then 64 else 32

def sizeofPtr (K : Kernel) : ℕ := K.bits / 8

/-- A pointer and a number added. -/
def add (K : Kernel) (p : ℕ) (n : ℤ) : ℕ := ((p + n) % 2 ^ K.bits).toNat

/-- How many objects of a size there are in what `kzalloc(size * n)` returns. -/
def allocated (K : Kernel) (size : ℕ) (n : ℤ) : ℕ := (size * n % 2 ^ K.bits).toNat / size

end Kernel

/-- What an `int` holds. -/
def toInt (n : ℤ) : ℤ := n.bmod (2 ^ 32)

/-! ## `wprobe_check_filter` -/

def sizeofFilterHdr : ℕ := 8

/-- `sizeof(struct wprobe_filter_item_hdr)`: the name and the number. -/
def sizeofItemHdr : ℕ := 36

def sizeofSockFilter : ℕ := 8

/-- `sizeof(struct wprobe_filter_counter)`. -/
def sizeofCounter : ℕ := 16

def sizeofWlanHdr : ℕ := 4

/-- A number of `n` bytes is put into the order of the machine. -/
def toCpu (o : ByteOrder) (n : ℕ) (m : Bytes) (a : ℕ) : Bytes :=
  m.store o n a (m.load .big n a)

/-- The loop over the instructions of an item. -/
def swapFilter (o : ByteOrder) : ℕ → ℕ → Bytes → Bytes
  | 0, _, m => m
  | k + 1, sf, m => swapFilter o k (sf + sizeofSockFilter) (toCpu o 4 (toCpu o 2 m sf) (sf + 4))

/-- What the swaps of `k` instructions touch. -/
def filterTouched : ℕ → ℕ → List (ℕ × ℕ)
  | 0, _ => []
  | k + 1, sf => (sf, 2) :: (sf + 4, 4) :: filterTouched k (sf + sizeofSockFilter)

/-- The `k` instructions at an address. -/
def filterAt (o : ByteOrder) (m : Bytes) : ℕ → ℕ → List SockFilter
  | 0, _ => []
  | k + 1, sf =>
    ⟨m.load o 2 sf, m (sf + 2), m (sf + 3), m.load o 4 (sf + 4)⟩
      :: filterAt o m k (sf + sizeofSockFilter)

/-- What `wprobe_check_filter` has done so far. -/
structure Check where
  /-- The memory. -/
  mem : Bytes
  /-- Where it is. -/
  data : ℕ
  /-- How many items there are. -/
  is : ℤ
  /-- What has been read or swapped. -/
  touched : List (ℕ × ℕ)

/-- A header is skipped, if it is not behind the end. -/
def Check.header (K : Kernel) (stop : ℕ) (c : Check) : Option (ℤ × Check) :=
  let hdr := c.data
  let data := K.add hdr sizeofItemHdr
  if stop < data then none
  else
    let m := c.mem.blit (hdr + 31) [0]
    some (toInt (m.load .big 4 (hdr + 32)),
      { c with
        mem := toCpu K.order 4 m (hdr + 32)
        data := data
        touched := c.touched ++ [(hdr + 31, 1), (hdr + 32, 4)] })

/-- One turn of the inner loop of `wprobe_check_filter`. -/
def checkItem (K : Kernel) (stop : ℕ) (c : Check) : Option Check :=
  (c.header K stop).bind fun (nItems, c) =>
    if 1024 < nItems then none
    else
      let m := swapFilter K.order nItems.toNat c.data c.mem
      if 0 < nItems ∧ K.skChkFilter (filterAt K.order m nItems.toNat c.data) ≠ 0 then none
      else
        some { c with
          mem := m
          data := K.add c.data (nItems * sizeofSockFilter)
          touched := c.touched ++ filterTouched nItems.toNat c.data }

/-- The inner loop. -/
def checkItems (K : Kernel) (stop : ℕ) : ℕ → Check → Option Check
  | 0, c => some c
  | k + 1, c => (checkItem K stop c).bind (checkItems K stop k)

/-- One turn of the outer loop. -/
def checkGroup (K : Kernel) (stop : ℕ) (c : Check) : Option Check :=
  (c.header K stop).bind fun (curIs, c) =>
    checkItems K stop curIs.toNat { c with is := toInt (c.is + curIs) }

/-- The outer loop. -/
def checkGroups (K : Kernel) (stop : ℕ) : ℕ → Check → Option Check
  | 0, c => some c
  | g + 1, c => (checkGroup K stop c).bind (checkGroups K stop g)

/-- **`wprobe_check_filter`**: nothing where it returns zero at once. -/
def wprobeCheckFilter (K : Kernel) (m : Bytes) (data datalen gs : ℕ) : Option Check :=
  checkGroups K (data + datalen) gs ⟨m, data, 0, []⟩

/-! ## `wprobe_set_filter` -/

/-- `struct wprobe_filter_group`; its items begin at entry `first`. -/
structure Group where
  name : ℕ
  nItems : ℤ
  first : ℕ
deriving DecidableEq

/-- What the second walk has done so far. -/
structure Parse where
  /-- Where it is. -/
  data : ℕ
  /-- The pointers to items that it has stored. -/
  items : List ℕ
  /-- The groups. -/
  groups : List Group
  /-- What has been read. -/
  touched : List (ℕ × ℕ)

section Parse

/-- An item of the second walk. -/
def parseItem (K : Kernel) (m : Bytes) (p : Parse) : Parse :=
  { p with
    data := K.add p.data (sizeofItemHdr + m.load K.order 4 (p.data + 32) * sizeofSockFilter)
    items := p.items ++ [p.data]
    touched := p.touched ++ [(p.data + 32, 4)] }

def parseItems (K : Kernel) (m : Bytes) (k : ℕ) (p : Parse) : Parse := (parseItem K m)^[k] p

/-- A group of the second walk. -/
def parseGroup (K : Kernel) (m : Bytes) (p : Parse) : Parse :=
  let nItems := toInt (m.load K.order 4 (p.data + 32))
  parseItems K m nItems.toNat
    { data := K.add p.data sizeofItemHdr
      items := p.items
      groups := p.groups ++ [⟨p.data, nItems, p.items.length⟩]
      touched := p.touched ++ [(p.data + 32, 4)] }

/-- The second walk. -/
def parseGroups (K : Kernel) (m : Bytes) (g : ℕ) (p : Parse) : Parse :=
  (parseGroup K m)^[g] p

end Parse

/-- Which allocations of `wprobe_set_filter` succeed. -/
structure Allocs where
  filter : Bool
  skb : Bool
  data : Option ℕ
  items : Bool
  counters : Bool

/-- `struct wprobe_filter`. -/
structure Filter where
  data : ℕ
  nGroups : ℕ
  hdrlen : ℕ
  /-- The pointers in `items`. -/
  items : List ℕ
  /-- How many there is room for. -/
  itemsAllocated : ℕ
  /-- How many counters there are. -/
  countersAllocated : ℕ
  groups : List Group
deriving DecidableEq

/-- What `wprobe_set_filter` leaves when it returns zero. -/
structure Accepted where
  /-- The filter that is active now. -/
  filter : Filter
  /-- What `wprobe_check_filter` read or swapped. -/
  checked : List (ℕ × ℕ)
  /-- What the second walk read. -/
  parsed : List (ℕ × ℕ)

/-- `WPFF`. -/
def filterMagic : List UInt8 := [87, 80, 70, 70]

/-- **`wprobe_set_filter`**, for the blob of `len` bytes at `data`. -/
def wprobeSetFilter (K : Kernel) (allocs : Allocs) (m : Bytes) (data len : ℕ) : Except ℤ Accepted :=
  if len < sizeofFilterHdr then .error (-EINVAL)
  else if m.slice data 4 ≠ filterMagic then .error (-EINVAL)
  else
    let gs := m.load .big 2 (data + 6)
    match wprobeCheckFilter K m (data + sizeofFilterHdr) (len - sizeofFilterHdr) gs with
    | none => .error (-EINVAL)
    | some c =>
      if c.is = 0 then .error (-EINVAL)
      else
        match allocs with
        | ⟨true, true, some d, true, true⟩ =>
          let m := c.mem.blit d (c.mem.slice (data + sizeofFilterHdr) (len - sizeofFilterHdr))
          let p := parseGroups K m gs ⟨d, [], [], []⟩
          .ok {
            filter := {
              data := d
              nGroups := gs
              -- cleared by the allocation, and never read from the blob
              hdrlen := if 0 < sizeofWlanHdr then sizeofWlanHdr else 0
              items := p.items
              itemsAllocated := K.allocated K.sizeofPtr c.is
              countersAllocated := K.allocated sizeofCounter c.is
              groups := p.groups }
            checked := c.touched
            parsed := p.touched }
        | _ => .error (-ENOMEM)

end Wprobe
