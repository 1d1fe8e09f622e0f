import RouterFirmware.ByteOrder
import RouterFirmware.NvramCrc
import RouterFirmware.NvramTable

/-!
# The NVRAM image

The image is a header of five words and behind it the variables as `name=value`
strings, with an empty string at the end.
-/

inductive NvramField where
  | magic
  | len
  | crcVerInit
  | configRefresh
  | configNcdl

def NvramField.offset : NvramField → ℕ
  | magic => 0
  | len => 4
  | crcVerInit => 8
  | configRefresh => 12
  | configNcdl => 16

def nvramHeaderSize : ℕ := 20

theorem NvramField.offset_lt (f : NvramField) : f.offset + 4 ≤ nvramHeaderSize := by
  cases f <;> decide

theorem NvramField.disjoint {f f' : NvramField} (hne : f' ≠ f) :
    f'.offset + 4 ≤ f.offset ∨ f.offset + 4 ≤ f'.offset := by
  cases f <;> cases f' <;> first | exact absurd rfl hne | decide

def nvramMagic : ℕ := 0x48534C46

def nvramVersion : ℕ := 1

def nvramCrcStartPosition : ℕ := 9

def sdramInitValue : ℕ := 0x419

def sdramConfigValue : ℕ := 0

def sdramRefreshValue : ℕ := 0x40 ||| 0x8000

def equalsSign : UInt8 := 61

def hexDigit (d : Fin 16) : UInt8 :=
  if d.val < 10 then UInt8.ofNat (48 + d.val) else UInt8.ofNat (55 + d.val)

def hexText (n v : ℕ) : CString where
  bytes := 48 :: 120 :: (List.range n).reverse.map (fun i => hexDigit (Fin.ofNat 16 (v / 16 ^ i)))
  noZero := by
    have hdigit : ∀ d : Fin 16, (0 : UInt8) ≠ hexDigit d := by decide
    intro h
    rcases List.mem_cons.mp h with h | h
    · exact absurd h (by decide)
    rcases List.mem_cons.mp h with h | h
    · exact absurd h (by decide)
    obtain ⟨i, -, hi⟩ := List.mem_map.mp h
    exact hdigit _ hi.symm

def sdramInit : CString := .ofString "sdram_init" (by decide)
def sdramConfig : CString := .ofString "sdram_config" (by decide)
def sdramRefresh : CString := .ofString "sdram_refresh" (by decide)
def sdramNcdl : CString := .ofString "sdram_ncdl" (by decide)

def NvramTuple.bytes (t : NvramTuple) : List UInt8 := t.1.bytes ++ equalsSign :: t.2.bytes

def NvramTuple.size (t : NvramTuple) : ℕ := t.1.length + 1 + t.2.length + 1

namespace NvramHandle

variable (order : ByteOrder) (h : NvramHandle)

def nvramHeader : ℕ := h.length - nvramSpace

def setMmap (m : Bytes) : NvramHandle := { h with mmap := m }

def field (f : NvramField) : ℕ := h.mmap.load order 4 (h.nvramHeader + f.offset)

def setField (f : NvramField) (v : ℕ) : NvramHandle :=
  h.setMmap (h.mmap.store order 4 (h.nvramHeader + f.offset) v)

def poke (pos : ℕ) (c : UInt8) : NvramHandle := h.setMmap (h.mmap.blit pos [c])

variable {h}

@[simp] theorem mmap_setMmap (m : Bytes) : (h.setMmap m).mmap = m := rfl

@[simp] theorem length_setMmap (m : Bytes) : (h.setMmap m).length = h.length := by
  cases h
  rfl

@[simp] theorem nvramHash_setMmap (m : Bytes) : (h.setMmap m).nvramHash = h.nvramHash := by
  cases h
  rfl

theorem nvramHeader_congr {h h' : NvramHandle} (hlen : h'.length = h.length) :
    h'.nvramHeader = h.nvramHeader := by
  rw [nvramHeader, hlen, nvramHeader]

@[simp] theorem nvramHeader_setMmap (m : Bytes) : (h.setMmap m).nvramHeader = h.nvramHeader :=
  nvramHeader_congr (length_setMmap m)

variable (h)

/-! ## Reading the image -/

def rehashTuples (h : NvramHandle) (name : ℕ) : Option NvramHandle :=
  if name < h.length then
    if h.mmap name = 0 then some h
    else
      match _heq : h.mmap.strchr equalsSign name (h.length - name) with
      | none => none
      | some none => some h
      | some (some eq) =>
        let h₁ := h.poke eq 0
        match h₁.mmap.readCStr name (h₁.length - name),
            h₁.mmap.readCStr (eq + 1) (h₁.length - (eq + 1)) with
        | some n, some v =>
          rehashTuples ((h₁.nvramSet n v).2.poke eq equalsSign) (eq + 1 + v.length + 1)
        | _, _ => none
  else none
termination_by h.length - name
decreasing_by
  have hle := (Memory.strchr_eq_some_iff h.mmap).mp _heq
  simp only [poke, setMmap, length_nvramSet]
  omega

def setSpecial (name value : CString) : NvramHandle :=
  match h.nvramGet name with
  | none => (h.nvramSet name value).2
  | some _ => h

def setSdram : NvramHandle :=
  let h := h.setSpecial sdramInit (hexText 4 ((h.field order .crcVerInit >>> 16) % 2 ^ 16))
  let h := h.setSpecial sdramConfig (hexText 4 (h.field order .configRefresh % 2 ^ 16))
  let h := h.setSpecial sdramRefresh (hexText 4 ((h.field order .configRefresh >>> 16) % 2 ^ 16))
  h.setSpecial sdramNcdl (hexText 8 (h.field order .configNcdl))

def nvramRehash : Option NvramHandle :=
  (h.nvramFree.rehashTuples (h.nvramHeader + nvramHeaderSize)).map (setSdram order)

/-! ## Writing the image -/

def regenerateHeader (strtoul : CString → ℕ) : NvramHandle :=
  let g := h.setField order .magic nvramMagic
  let g := g.setField order .crcVerInit (nvramVersion <<< 8)
  match h.nvramGet sdramInit, h.nvramGet sdramConfig, h.nvramGet sdramRefresh,
      h.nvramGet sdramNcdl with
  | some init, some config, some refresh, some ncdl =>
    let g := g.setField order .crcVerInit
      (g.field order .crcVerInit ||| (strtoul init &&& 0xffff) <<< 16)
    let g := g.setField order .configRefresh (strtoul config &&& 0xffff)
    let g := g.setField order .configRefresh
      (g.field order .configRefresh ||| (strtoul refresh &&& 0xffff) <<< 16)
    g.setField order .configNcdl (strtoul ncdl)
  | _, _, _, _ =>
    let g := g.setField order .crcVerInit (g.field order .crcVerInit ||| sdramInitValue <<< 16)
    let g := g.setField order .configRefresh sdramConfigValue
    let g := g.setField order .configRefresh
      (g.field order .configRefresh ||| sdramRefreshValue <<< 16)
    g.setField order .configNcdl 0

def clearData : NvramHandle :=
  h.setMmap (h.mmap.blit (h.nvramHeader + nvramHeaderSize)
    (List.replicate (nvramSpace - nvramHeaderSize) 0xFF))

def writeBucket (last : ℕ) : List NvramTuple → ℕ × Bytes → ℕ × Bytes
  | [], s => s
  | t :: ts, (ptr, m) =>
    if last < ptr + t.1.length + 1 + t.2.length + 1 then (ptr, m)
    else writeBucket last ts (ptr + t.size, m.blit ptr (t.bytes ++ [0]))

def writeTuples : ℕ × Bytes :=
  (List.finRange nvramBuckets).foldl
    (fun s i => writeBucket (h.nvramHeader + nvramSpace - 2) (h.nvramHash.bucket i).entries s)
    (h.nvramHeader + nvramHeaderSize, h.mmap)

def terminate (ptr : ℕ) : NvramHandle :=
  let m := h.mmap.blit ptr [0]
  let m := if (ptr + 1) % 4 = 0 then m
    else m.blit (ptr + 1) (List.replicate (4 - (ptr + 1) % 4) 0)
  (h.setMmap m).setField order .len ((ptr + 2 - h.nvramHeader + 3) / 4 * 4)

def setCrc : NvramHandle :=
  let tmp := order.bytes 4 0 ++ order.bytes 4 0 ++ order.bytes 4 (h.field order .crcVerInit)
    ++ order.bytes 4 (h.field order .configRefresh) ++ order.bytes 4 (h.field order .configNcdl)
  let crc := hndcrc8 (tmp.drop nvramCrcStartPosition) 0xff
  let crc := hndcrc8 (h.mmap.slice (h.nvramHeader + nvramHeaderSize)
    (h.field order .len - nvramHeaderSize)) crc
  h.setField order .crcVerInit (h.field order .crcVerInit ||| crc.toNat)

def committed (strtoul : CString → ℕ) : NvramHandle :=
  let g := (h.regenerateHeader order strtoul).clearData
  let s := g.writeTuples
  ((g.setMmap s.2).terminate order s.1).setCrc order

def nvramCommit (strtoul : CString → ℕ) : Option (ℤ × NvramHandle) :=
  ((h.committed order strtoul).nvramRehash order).map (fun g => (0, g))

end NvramHandle

inductive NvramOpened where
  /-- It returns a handle. -/
  | handle (h : NvramHandle)
  /-- It returns `NULL`. -/
  | null
  /-- It leaves the mapping. -/
  | fault

def NvramHandle.mapped (image : Bytes) (length : ℕ) (hlen : nvramSpace ≤ length) : NvramHandle where
  mmap := image.blit 0 (List.replicate (length - nvramSpace) 0xFF)
  length := length
  space_le := hlen
  nvramHash := .empty
  nvramDead := []

def nvramOpen (order : ByteOrder) (image : Bytes) (length : ℕ)
    (hlen : nvramSpace ≤ length) : NvramOpened :=
  let h := NvramHandle.mapped image length hlen
  if h.field order .magic = nvramMagic then
    match h.nvramRehash order with
    | some h => .handle h
    | none => .fault
  else .null
