import RouterFirmware.ByteOrder
import RouterFirmware.Crc32
import RouterFirmware.OutFile
import RouterFirmware.ToolArgs

/-!
# The tool mkmylofw

`mkmylofw` makes a firmware image for the boot loader MyLoader. Its options name the board and list
the blocks and partitions; a block may have a file, which goes into the image, and may ask for a
header in front of the file:

| size | part |
|--|--|
| 40 | header, with a check of the whole image |
| 16 | descriptor of the partition table, if any |
| 16 | descriptor of each block |
| 16 | empty descriptor |
| 400 | partition table and names, if any |
| `dlen` | data of each block |
-/

namespace Mylo

open Tool

structure Board where
  model : Text
  did : UInt16
  flashSize : UInt32
  partOffset : UInt32
  partSize : UInt32

def venidCompex : UInt16 := 0x11F6

def cpxBoardAdm (did : UInt16) (flash : UInt32) (model : List Char) : Board :=
  ⟨ascii model, did, flash <<< 20, 0x10000, 0x10000⟩

def cpxBoardAr71xx (did : UInt16) (flash : UInt32) (model : List Char) : Board :=
  ⟨ascii model, did, flash <<< 20, 0x20000, 0x8000⟩

def boards : List Board :=
  [cpxBoardAdm 0x0489 4 ['N', 'P', '1', '8', 'A'],
    cpxBoardAdm 0x03E8 2 ['N', 'P', '2', '6', 'G', '8', 'M'],
    cpxBoardAdm 0x03E9 4 ['N', 'P', '2', '6', 'G', '1', '6', 'M'],
    cpxBoardAdm 0x0078 4 ['N', 'P', '2', '7', 'G'],
    cpxBoardAdm 0x044C 4 ['N', 'P', '2', '8', 'G'],
    cpxBoardAdm 0x044E 4 ['N', 'P', '2', '8', 'G', 'H', 'S'],
    cpxBoardAdm 0x047E 4 ['W', 'P', '1', '8'],
    cpxBoardAdm 0x0515 4 ['W', 'P', '5', '4', 'G'],
    cpxBoardAdm 0x0514 2 ['W', 'P', '5', '4', 'G', 'v', '1', 'C'],
    cpxBoardAdm 0x0546 4 ['W', 'P', '5', '4', 'A', 'G'],
    cpxBoardAdm 0x0555 4 ['W', 'P', 'P', '5', '4', 'G'],
    cpxBoardAdm 0x0550 4 ['W', 'P', 'P', '5', '4', 'A', 'G'],
    cpxBoardAr71xx 0x0640 2 ['W', 'P', '5', '4', '3'],
    cpxBoardAdm 0x05e6 4 ['N', 'P', '2', '5', 'G'],
    cpxBoardAdm 0x05dc 4 ['W', 'P', 'E', '5', '3', 'G']]

def findBoard (model : Text) : Option Board :=
  boards.find? fun b => model.map toLower = b.model.map toLower

structure FwBlock where
  addr : UInt32
  blocklen : UInt32
  /-- `BLOCK_FLAG_HAVEHDR`. -/
  haveHdr : Bool
  name : Option Text
  size : UInt32

structure FwPart where
  flags : UInt16
  addr : UInt32
  size : UInt32
  param : UInt32
  name : Text

/-- The fields of the firmware header that are set. -/
structure FwHeader where
  vid : UInt16
  did : UInt16
  svid : UInt16
  sdid : UInt16
  rev : UInt32
  fwhi : UInt32
  fwlo : UInt32
  flags : UInt32

structure State where
  flashSize : UInt32
  parts : List FwPart
  blocks : List FwBlock
  header : FwHeader
  board : Option Board

def State.start : State where
  flashSize := 0
  parts := []
  blocks := []
  header := ⟨venidCompex, 0x0515, venidCompex, 0x0515, 0, 0x20000, 0x20000, 0⟩
  board := none

/-! ## The options -/

inductive Opt where
  | b (arg : Text)
  | B (arg : Text)
  | f (arg : Text)
  | h
  | i (arg : Text)
  | p (arg : Text)
  | r (arg : Text)
  | s (arg : Text)
  | v
  | invalid

def parseArg (arg : Text) : Except Exit (List Text) :=
  if arg = [] then .error .undefined else .ok ((strsep (arg.take 1023)).take 32)

def requiredArg (arg : Text) : Except Exit Unit :=
  if arg.head? = some 45 then .error .failure else .ok ()

def required {α : Type} (convert : Text → Option α) (p : Text) : Except Exit α :=
  if p = [] then .error .failure else orFail (convert p)

def optional {α : Type} (convert : Text → Option α) (default : α) (p : Text) : Except Exit α :=
  if p = [] then .ok default else orFail (convert p)

def maxFwBlocks : ℕ := 32

def myloMaxPartitions : ℕ := 8

def partNameLen : ℕ := 32

section Options

variable (host : Host) (s : State)

def str2u16 (arg : Text) : Option UInt16 :=
  (host.str2u32 arg).bind fun t => if t < 0x10000 then some t.toUInt16 else none

def parseOptBlock (arg : Text) : Except Exit State := do
  requiredArg arg
  if maxFwBlocks ≤ s.blocks.length then throw .failure
  let argv ← parseArg arg
  let addr ← required host.str2u32 (argv.getD 0 [])
  let blocklen ← required host.str2u32 (argv.getD 1 [])
  if argv.length < 3 then
    return { s with blocks := s.blocks ++ [⟨addr, blocklen, false, none, 0⟩] }
  let flags := argv.getD 2 []
  if ¬ flags.all (· = 104) then throw .failure
  let name := argv.getD 3 []
  if name = [] then throw .failure
  return { s with blocks := s.blocks ++ [⟨addr, blocklen, !flags.isEmpty, some name, 0⟩] }

def partitionFlag (flags : UInt16) (c : UInt8) : Except Exit UInt16 :=
  if c = 97 then .ok (flags ||| 0x8000)
  else if c = 112 then .ok (flags ||| 0x0800)
  else if c = 108 then .ok (flags ||| 0x0100)
  else if c = 104 then .ok (flags ||| 0x0002)
  else .error .failure

def parseOptPartition (arg : Text) : Except Exit State := do
  requiredArg arg
  if myloMaxPartitions ≤ s.parts.length then throw .failure
  let argv ← parseArg arg
  let addr ← required host.str2u32 (argv.getD 0 [])
  let size ← required host.str2u32 (argv.getD 1 [])
  let flags ← (argv.getD 2 []).foldlM partitionFlag 0
  let param ← optional host.str2u32 0 (argv.getD 3 [])
  let size := if size = 0 then s.flashSize - addr else size
  let parts := s.parts ++ [⟨flags, addr, size, param, (argv.getD 4 []).take partNameLen⟩]
  let name := argv.getD 5 []
  if name = [] then return { s with parts := parts }
  if s.blocks.length = maxFwBlocks then throw .failure
  return { s with
    parts := parts
    blocks := s.blocks ++ [⟨addr, size, flags &&& 0x0002 ≠ 0, some name, 0⟩] }

def parseOptId (arg : Text) : Except Exit State := do
  requiredArg arg
  let argv ← parseArg arg
  let vid ← required (str2u16 host) (argv.getD 0 [])
  let did ← required (str2u16 host) (argv.getD 1 [])
  let svid ← optional (str2u16 host) vid (argv.getD 2 [])
  let sdid ← optional (str2u16 host) did (argv.getD 3 [])
  let rev ← optional (fun _ => host.str2u32 arg) 0 (argv.getD 4 [])
  return { s with
    header := { s.header with vid := vid, did := did, svid := svid, sdid := sdid, rev := rev } }

def parseOptBoard (arg : Text) : Except Exit State := do
  requiredArg arg
  let board ← orFail (findBoard arg)
  return { s with
    board := some board
    flashSize := board.flashSize
    header := { s.header with
      vid := venidCompex, did := board.did, svid := venidCompex, sdid := board.did } }

def parseOptFlags (arg : Text) : Except Exit State := do
  requiredArg arg
  let flags ← orFail (host.str2u32 arg)
  return { s with header := { s.header with flags := flags } }

def parseOptRev (arg : Text) : Except Exit State := do
  requiredArg arg
  let rev ← orFail (host.str2u32 arg)
  return { s with header := { s.header with rev := rev } }

def parseOptSize (arg : Text) : Except Exit State := do
  requiredArg arg
  let size ← orFail (host.str2u32 arg)
  return { s with flashSize := size }

def parseOpt : Opt → Except Exit State
  | .b arg => parseOptBlock host s arg
  | .B arg => parseOptBoard s arg
  | .f arg => parseOptFlags host s arg
  | .h => .error .usage
  | .i arg => parseOptId host s arg
  | .p arg => parseOptPartition host s arg
  | .r arg => parseOptRev host s arg
  | .s arg => parseOptSize host s arg
  | .v => .ok s
  | .invalid => .error .failure

/-! ## The checks -/

def processFile (b : FwBlock) : Except Exit FwBlock :=
  if s.flashSize < b.addr + b.blocklen then .error .failure
  else match b.name with
    | none => .ok b
    | some name => do
      let content ← orFail (host.file name)
      let blocklen := if b.blocklen = 0 then s.flashSize - b.addr else b.blocklen
      if blocklen.toNat < content.length then throw .failure
      return { b with blocklen := blocklen, size := .ofNat content.length }

def processPartition (p : FwPart) : Except Exit Unit :=
  if s.flashSize < p.addr ∨ s.flashSize < p.addr + p.size then .error .failure else .ok ()

end Options

def accept (host : Host) (opts : List Opt) : Except Exit (Board × State) := do
  let s ← opts.foldlM (parseOpt host) .start
  let board ← orFail s.board
  if s.flashSize = 0 then throw .failure
  let blocks ← s.blocks.mapM (processFile host s)
  s.parts.forM (processPartition s)
  return (board, { s with blocks := blocks })

/-! ## The check of the image -/

def crcPattern : BitVec 32 :=
  [0, 1, 2, 4, 5, 7, 8, 10, 11, 12, 16, 22, 23, 26].foldl (fun e p => e ||| 1#32 <<< (31 - p)) 0

def crcEntry : ℕ → ℕ → BitVec 32 → BitVec 32
  | 0, _, c => c
  | n + 1, k, c =>
    let c := if c.getLsbD 0 then (c >>> 1) ^^^ crcPattern else c >>> 1
    crcEntry n (k / 2) (if k % 2 = 1 then c ^^^ crcPattern else c)

def crc32Tab : List (BitVec 32) :=
  0 :: (List.range 255).map fun i => crcEntry 8 ((i + 1) ||| 256) 0

def crcTurn (t : BitVec 32) (p : UInt8) : BitVec 32 :=
  crc32Tab.getD ((t ^^^ p.toBitVec.setWidth 32) &&& 0xff#32).toNat 0 ^^^ (t >>> 8)

@[irreducible] def updateCrc (crc : BitVec 32) (p : List UInt8) : BitVec 32 :=
  p.foldl crcTurn (crc ^^^ 0xFFFFFFFF#32) ^^^ 0xFFFFFFFF#32

/-! ## The output file -/

/-- The output file, and the check of what has been written so far. -/
structure Writing where
  file : OutFile UInt8
  crc : BitVec 32

namespace Writing

variable (w : Writing)

def writeOutData (data : List UInt8) : Writing := ⟨w.file.write data, updateCrc w.crc data⟩

def writeOutPadding (len : ℕ) (padc : UInt8) : Writing :=
  (pieces 512 len (List.replicate len padc)).foldl writeOutData w

def desc (type : ℕ) (addr dlen blen : UInt32) : List UInt8 :=
  ByteOrder.little.record [(4, type), (4, addr.toNat), (4, dlen.toNat), (4, blen.toNat)]

def align4 (dlen : UInt32) : UInt32 := (dlen + 3) &&& ~~~3

def partitionHeaderSize : ℕ := 8

def dlen (b : FwBlock) : UInt32 := align4 (if b.haveHdr then b.size + 8 else b.size)

def padLen (size : UInt32) : ℕ := (0 + 3) &&& ((~~~3 : UInt32) - size).toNat

def fileBufLen : ℕ := 16 * 1024

def getFileCrc (data : List UInt8) : BitVec 32 :=
  (pieces fileBufLen data.length data).foldl updateCrc 0

def partitionHeader (data : List UInt8) (size : UInt32) : List UInt8 :=
  ByteOrder.little.record [(4, size.toNat), (4, (getFileCrc data).toNat)]

def writeOutFile (host : Host) (b : FwBlock) : Option Writing :=
  match b.name with
  | none => some w
  | some name =>
    (host.file name).map fun content =>
      let data := content.take b.size.toNat
      let w := if b.haveHdr then w.writeOutData (partitionHeader data b.size) else w
      ((pieces fileBufLen data.length data).foldl writeOutData w).writeOutPadding
        (padLen b.size) 0xFF

def headerBytes (h : FwHeader) (crc : BitVec 32) : List UInt8 :=
  ByteOrder.little.record
    [(4, 0x4C594D00), (4, crc.toNat), (4, 0), (4, 0), (2, h.vid.toNat), (2, h.did.toNat),
      (2, h.svid.toNat), (2, h.sdid.toNat), (4, h.rev.toNat), (4, h.fwhi.toNat), (4, h.fwlo.toNat),
      (4, h.flags.toNat)]

def partitionEntry (p : FwPart) : List UInt8 :=
  ByteOrder.little.record
    [(2, p.flags.toNat), (2, 1), (4, p.addr.toNat), (4, p.size.toNat), (4, p.param.toNat)]

def eightPlaces (n : ℕ) (taken : List (List UInt8)) : List UInt8 :=
  (taken.flatten ++ List.replicate (n * myloMaxPartitions) 0).take (n * myloMaxPartitions)

def partitionTable (parts : List FwPart) : List UInt8 :=
  ByteOrder.little.record [(4, 0x20021103), (4, 0), (4, 0), (4, 0)]
    ++ eightPlaces 16 (parts.map partitionEntry)

def partNames (parts : List FwPart) : List UInt8 :=
  eightPlaces partNameLen
    (parts.map fun p => p.name ++ List.replicate (partNameLen - p.name.length) 0)

def writeOutPartitions (parts : List FwPart) : Writing :=
  if parts.isEmpty then w
  else (w.writeOutData (partitionTable parts)).writeOutData (partNames parts)

def partitionsSize : UInt32 := 400

def writeOutBlocks (host : Host) (board : Board) (s : State) : Option Writing :=
  let w := if s.parts.isEmpty then w
    else w.writeOutData (desc 1 board.partOffset partitionsSize board.partSize)
  let w := s.blocks.foldl
    (fun w b => w.writeOutData (desc 1 b.addr (dlen b) b.blocklen)) w
  let w := (w.writeOutData (desc 0 0 0 0)).writeOutPartitions s.parts
  s.blocks.foldlM (fun w b => w.writeOutFile host b) w

end Writing

def writeOut (host : Host) (board : Board) (s : State) : Option (List UInt8) := do
  let w ← ((⟨.empty, 0⟩ : Writing).writeOutData (Writing.headerBytes s.header 0)).writeOutBlocks
    host board s
  return ((w.file.seek 0).write (Writing.headerBytes s.header w.crc)).bytes

def main (host : Host) (opts : List Opt) (names : List Text) : Except Exit (List UInt8) := do
  let (board, s) ← accept host opts
  let [ofname] := names | throw .failure
  if ¬ host.creates ofname then throw .failure
  orFail (writeOut host board s)

end Mylo
