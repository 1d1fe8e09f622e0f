import RouterFirmware.ListSpan
import RouterFirmware.Memory

/-!
# The FIS directory

RedBoot keeps its partition table, the FIS directory, in one erase block: a
descriptor of 256 bytes for each partition, up to the first whose name begins
with 0 or 0xff.
-/

namespace Fis

/-- A name: 16 bytes, zeros behind a shorter one. -/
abbrev Name := Vector UInt8 16

structure Part where
  name : Name
  loadaddr : UInt32
  size : UInt32
deriving DecidableEq

structure ImageDesc where
  name : Name
  flashBase : UInt32
  memBase : UInt32
  size : UInt32
  entryPoint : UInt32
  dataLength : UInt32
  pad : Vector UInt8 212
  crcDesc : UInt32
  crcFile : UInt32
deriving DecidableEq

def ImageDesc.erased : ImageDesc where
  name := .replicate 16 0xff
  flashBase := 0xffffffff
  memBase := 0xffffffff
  size := 0xffffffff
  entryPoint := 0xffffffff
  dataLength := 0xffffffff
  pad := .replicate 212 0xff
  crcDesc := 0xffffffff
  crcFile := 0xffffffff

def strncmpEq : List UInt8 → List UInt8 → Bool
  | a :: as, b :: bs => a == b && (a == 0 || strncmpEq as bs)
  | _, _ => true

def fisDirectory : List UInt8 := [70, 73, 83, 32, 100, 105, 114, 101, 99, 116, 111, 114, 121, 0]

namespace ImageDesc

def isEnd (d : ImageDesc) : Bool := d.name[0] == 0 || d.name[0] == 0xff

def isOld (old : List Part) (d : ImageDesc) : Bool :=
  old.any fun p => strncmpEq d.name.toList p.name.toList

def isFisdir (d : ImageDesc) : Bool := d.name.toList.take 14 == fisDirectory

end ImageDesc

section Functions

variable (slots : ℕ) (m : Memory ImageDesc) (old : List Part)

/-! ## `fis_validate` -/

def validateScan : ℕ → ℕ → ℕ → ℕ
  | 0, _, found => found
  | k + 1, desc, found =>
    if (m desc).isEnd then found
    else validateScan k (desc + 1) (if (m desc).isOld old then found + 1 else found)

def fisValidate (new : List Part) : ℤ :=
  if new.dropLast.any (fun p => p.size == 0) then -1
  else if validateScan m old slots 0 0 = old.length then 1
  else -1

/-! ## `fis_remap` -/

/-- What the loop of `fis_remap` over the table finds out. -/
structure RemapScan where
  desc : ℕ
  fisdir : Option ℕ
  first : Option ℕ
  last : Option ℕ
  size : UInt32

def RemapScan.start : RemapScan := ⟨0, none, none, none, 0⟩

def RemapScan.turn (s : RemapScan) (d : ImageDesc) : RemapScan where
  desc := s.desc + 1
  fisdir := if d.isFisdir then some s.desc else s.fisdir
  first := if d.isOld old then s.first.or (some s.desc) else s.first
  last := if d.isOld old then some s.desc else s.last
  size := if d.isOld old then s.size + d.size else s.size

def remapScan : ℕ → RemapScan → RemapScan
  | 0, s => s
  | k + 1, s => if (m s.desc).isEnd then s else remapScan k (s.turn old (m s.desc))

def sizeFixup (s : RemapScan) (last : ℕ) : UInt32 :=
  match if s.desc - 1 = last then s.fisdir else some (s.desc - 1) with
  | none => 0
  | some desc =>
    if (m last).flashBase < (m desc).flashBase - (m last).size then
      ((m desc).flashBase - (m last).flashBase) - (m last).size
    else 0

def newDescs : UInt32 → UInt32 → List Part → List ImageDesc
  | _, _, [] => []
  | offset, size, part :: parts =>
    let partSize := if 0 < part.size then part.size else size
    { name := part.name, flashBase := offset, memBase := part.loadaddr, size := partSize
      entryPoint := part.loadaddr, dataLength := partSize, pad := .replicate 212 0
      crcDesc := 0, crcFile := 0 } :: newDescs (offset + partSize) (size - partSize) parts

def fisRemap (new : List Part) : Option (Memory ImageDesc) :=
  let s := remapScan m old slots .start
  match s.first, s.last with
  | some first, some last =>
    let descs := newDescs (m first).flashBase (s.size + sizeFixup m s last) new
    let desc := first + new.length
    if last + 1 < desc then
      -- behind the block, the number of bytes to be moved is negative
      if desc ≤ slots then
        some ((m.blit desc (m.slice (last + 1) (slots - desc))).blit first descs)
      else none
    -- `memset(tmp, 0xff, tmp - end)`, and `tmp` is before `end`
    else if desc < last + 1 then none
    else some (m.blit first descs)
  | _, _ => none

end Functions

end Fis
