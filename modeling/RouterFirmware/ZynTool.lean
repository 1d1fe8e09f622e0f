import RouterFirmware.ByteOrder
import RouterFirmware.OutFile
import RouterFirmware.ToolArgs

/-!
# The tool mkzynfw

`mkzynfw` makes a firmware image for boards that run ZyNOS. Its last word makes the sum of all
before come out as a given number:

| size | part |
|--|--|
| 48 | ROMBIN header |
| | boot extension, padded to a multiple of 16 |
| 1024 | memory map block |
| | padding up to `bootext_size` |
| | raw blocks, each padded to its alignment |
| | padding to a multiple of 4 |
| 2 | fix-up word |
-/

namespace Zyn

open Tool

structure Board where
  name : Text
  vendor : UInt16
  model : UInt16
  flashBase : UInt32
  flashSize : UInt32
  codeStart : UInt32
  romioOffs : UInt32
  bootextSize : UInt32

/-- `MID`: the model numbers are kept in network order. -/
def mid (x : UInt16) : UInt16 := ((x &&& 0xFF) <<< 8) ||| ((x &&& 0xFF00) >>> 8)

/-- `BE16_TO_HOST`, on a little-endian host. -/
def be16ToHost (x : UInt16) : UInt16 := (x <<< 8) ||| (x >>> 8)

def bootextDefSize : UInt32 := 0x18000

def ar7FlashBase : UInt32 := 0xB0000000

def admboard1 (name : List Char) (model : UInt16) (flash : UInt32) : Board :=
  ⟨ascii name, 0, mid model, 0xBFC00000, flash <<< 20, 0x80008000, 0x8000, bootextDefSize⟩

def admboard2 (name : List Char) (model : UInt16) (flash : UInt32) : Board :=
  ⟨ascii name, 0, mid model, 0xBFC00000, flash <<< 20, 0x80008000, 0x10000, bootextDefSize⟩

def atherosboard1 (name : List Char) (model : UInt16) (flash : UInt32) : Board :=
  ⟨ascii name, 0, mid model, 0xBFC00000, flash <<< 20, 0x80e00000, 0x30000, bootextDefSize⟩

def boards : List Board :=
  [admboard2 ['E', 'S', '-', '2', '0', '2', '4', 'A'] 221 4,
    admboard2 ['E', 'S', '-', '2', '0', '2', '4', 'P', 'W', 'R'] 4097 4,
    admboard2 ['E', 'S', '-', '2', '1', '0', '8'] 61952 4,
    admboard2 ['E', 'S', '-', '2', '1', '0', '8', '-', 'F'] 44801 4,
    admboard2 ['E', 'S', '-', '2', '1', '0', '8', '-', 'G'] 62208 4,
    admboard2 ['E', 'S', '-', '2', '1', '0', '8', '-', 'L', 'C'] 64512 4,
    admboard2 ['E', 'S', '-', '2', '1', '0', '8', 'P', 'W', 'R'] 62464 4,
    admboard1 ['H', 'S', '-', '1', '0', '0'] 61855 2,
    admboard1 ['H', 'S', '-', '1', '0', '0', 'W'] 61855 2,
    admboard1 ['P', '-', '3', '3', '4'] 62879 2,
    admboard1 ['P', '-', '3', '3', '4', 'U'] 56735 4,
    admboard1 ['P', '-', '3', '3', '4', 'W'] 62367 2,
    admboard1 ['P', '-', '3', '3', '4', 'W', 'H'] 57344 4,
    admboard1 ['P', '-', '3', '3', '4', 'W', 'H', 'D'] 57600 4,
    admboard1 ['P', '-', '3', '3', '4', 'W', 'T'] 61343 4,
    admboard1 ['P', '-', '3', '3', '5'] 60831 4,
    admboard1 ['P', '-', '3', '3', '5', 'P', 'l', 'u', 's'] 9472 4,
    admboard1 ['P', '-', '3', '3', '5', 'U'] 56479 4,
    admboard1 ['P', '-', '3', '3', '5', 'W', 'T'] 60831 4,
    ⟨ascii ['P', '-', '2', '6', '0', '2', 'H', 'W', '-', 'D', '1', 'A'], 0, mid 6301,
      ar7FlashBase, 4 * 1024 * 1024, 0x94008000, 0x20000, bootextDefSize⟩,
    ⟨ascii ['O', '2', 'S', 'U', 'R', 'F'], 10, mid 30464, ar7FlashBase, 8 * 1024 * 1024,
      0x94014000, 0x40000, bootextDefSize⟩,
    atherosboard1 ['N', 'B', 'G', '-', '3', '1', '8', 'S'] 59392 4]

def findBoard (name : Text) : Option Board :=
  boards.find? fun b => name.map toLower = b.name.map toLower

/-- `BLOCK_TYPE_BOOTEXT` and `BLOCK_TYPE_RAW`. -/
inductive BlockType where
  | bootext
  | raw
deriving DecidableEq

structure FwBlock where
  align : UInt32
  fileName : Text
  fileSize : UInt32
  type : BlockType

structure State where
  board : Option Board
  ofname : Option Text
  blocks : List FwBlock
  /-- `bootext_block` points to a block. -/
  bootextBlock : Option ℕ

/-- The variables when the options are read. -/
def State.start : State := ⟨none, none, [], none⟩

/-! ## The options -/

inductive Opt where
  | b (arg : Text)
  | B (arg : Text)
  | h
  | o (arg : Text)
  | r (arg : Text)
  | v
  | invalid

def parseArg (arg : Text) : List Text :=
  if arg = [] then [] else (strsep (arg.take 1023)).take 32

def requiredArg (arg : Text) : Except Exit Unit :=
  if arg.head? = some 45 then .error .failure else .ok ()

def maxNumBlocks : ℕ := 8

section Options

variable (host : Host) (s : State)

def parseOptBootext (arg : Text) : Except Exit State := do
  if maxNumBlocks ≤ s.blocks.length then throw .failure
  let name := (parseArg arg).getD 0 []
  if name = [] then throw .failure
  return { s with
    blocks := s.blocks ++ [⟨0, name, 0, .bootext⟩]
    bootextBlock := s.bootextBlock.or (some s.blocks.length) }

def parseOptRaw (arg : Text) : Except Exit State := do
  if maxNumBlocks ≤ s.blocks.length then throw .failure
  let argv := parseArg arg
  let name := argv.getD 0 []
  if name = [] then throw .failure
  let p := argv.getD 1 []
  let align ← if p = [] then pure 0 else orFail (host.str2u32 p)
  return { s with blocks := s.blocks ++ [⟨align, name, 0, .raw⟩] }

def parseOptBoard (arg : Text) : Except Exit State := do
  if s.board.isSome then throw .failure
  requiredArg arg
  let board ← orFail (findBoard arg)
  return { s with board := some board }

def parseOptOfname (arg : Text) : Except Exit State := do
  if s.ofname.isSome then throw .failure
  requiredArg arg
  return { s with ofname := some arg }

def parseOpt : Opt → Except Exit State
  | .b arg => parseOptBootext s arg
  | .B arg => parseOptBoard s arg
  | .h => .error .usage
  | .o arg => parseOptOfname s arg
  | .r arg => parseOptRaw host s arg
  | .v => .ok s
  | .invalid => .error .failure

/-! ## The checks -/

def align (x y : UInt32) : UInt32 := (x + (y - 1)) &&& ~~~(y - 1)

def blockStatFile (b : FwBlock) : Except Exit FwBlock := do
  let content ← orFail (host.file b.fileName)
  return { b with fileSize := .ofNat content.length }

/-- A turn of the loop of `calc_block_offsets`, on a raw block. -/
def calcBlockOffset (board : Board) (offset : UInt32) (b : FwBlock) : Except Exit UInt32 :=
  if b.type ≠ .raw then .ok offset
  else
    let nextOffs := align offset b.align
    let avail := board.flashSize - board.romioOffs - nextOffs
    if avail < nextOffs + b.fileSize then .error .failure else .ok (offset + b.fileSize)

end Options

/-- What is written out: the board, the boot extension and the blocks. -/
structure Job where
  board : Board
  bootext : FwBlock
  blocks : List FwBlock

/-- **What the tool accepts**: everything before the output file is opened. -/
def accept (host : Host) (opts : List Opt) (operands : List Text) : Except Exit (Text × Job) := do
  let s ← opts.foldlM (parseOpt host) .start
  let board ← orFail s.board
  let ofname ← orFail s.ofname
  if operands ≠ [] then throw .failure
  let blocks ← s.blocks.mapM (blockStatFile host)
  -- the boot extension is read through a null pointer if there is none
  let some bootext := s.bootextBlock.bind (blocks[·]?) | throw .undefined
  let _ ← blocks.foldlM (calcBlockOffset board) (board.romioOffs + bootext.fileSize)
  return (ofname, ⟨board, bootext, blocks⟩)

/-! ## The sum -/

structure CsumState where
  odd : Bool
  sum : ℕ
  tmp : UInt8

namespace CsumState

def init : CsumState := ⟨false, 0, 0⟩

def addWord (css : CsumState) (hi lo : UInt8) : CsumState :=
  let sum := css.sum + (hi.toNat * 256 + lo.toNat)
  { css with sum := if 0xFFFF < sum then (sum + 1) % 0x10000 else sum }

/-- The loop of `csum_update`, and the byte that may be left. -/
def words (css : CsumState) : List UInt8 → CsumState
  | [] => css
  | [a] => { css with tmp := a, odd := true }
  | a :: b :: p => (css.addWord a b).words p

def update (css : CsumState) : List UInt8 → CsumState
  | [] => css
  | b :: p => if css.odd then { css.addWord css.tmp b with odd := false }.words p
    else css.words (b :: p)

def get (css : CsumState) : UInt16 := .ofNat (css.update [0]).sum

end CsumState

def csumBuf (p : List UInt8) : UInt16 := (CsumState.init.update p).get

/-! ## The output file -/

/-- The output file, and the sum of what has been written so far. -/
structure Writing where
  file : OutFile UInt8
  css : CsumState

namespace Writing

def writeOutData (w : Writing) (data : List UInt8) : Writing :=
  ⟨w.file.write data, w.css.update data⟩

def writeOutPadding (w : Writing) (len : UInt32) (padc : UInt8) : Writing :=
  (pieces 512 len.toNat (List.replicate len.toNat padc)).foldl writeOutData w

/-- **`write_out_block`**, if the file can be opened. -/
def writeOutBlock (w : Writing) (host : Host) (b : FwBlock) : Option Writing :=
  if b.fileSize = 0 then some w
  else
    (host.file b.fileName).map fun content =>
      (pieces (16 * 1024) b.fileSize.toNat (content.take b.fileSize.toNat)).foldl writeOutData w

end Writing

/-- The bytes that `write_out_header` writes. -/
def headerBytes (board : Board) (osize mmapAddr : UInt32) (ocsum : UInt16) : List UInt8 :=
  ByteOrder.big.record
    [(4, board.codeStart.toNat), (2, 0), (3, 0x534947), (1, 3), (4, osize.toNat), (4, 0), (1, 0x40),
      (1, 0), (2, ocsum.toNat), (2, 0), (15, 0), (4, mmapAddr.toNat), (4, 0), (1, 0)]

def decimal (n : ℕ) : Text := ascii (Nat.toDigits 10 n)

def userData (board : Board) : List UInt8 :=
  ascii ['V', 'e', 'n', 'd', 'o', 'r', ' ', '1', ' '] ++ decimal board.vendor.toNat ++ [0]
    ++ ascii ['M', 'o', 'd', 'e', 'l', ' ', '1', ' '] ++ decimal (be16ToHost board.model).toNat
    ++ [0]
    ++ ascii ['H', 'w', 'V', 'e', 'r', 'R', 'a', 'n', 'g', 'e', ' ', '2', ' ', '0', ' ', '0']
    ++ [0]

def mmapDataSize : ℕ := 1024

/-- **The memory map block** of `write_out_mmap`. -/
def mmapData (board : Board) (addr : UInt32) : List UInt8 :=
  let user := userData board
  let userSize := 24 + user.length
  let csum := csumBuf ((user ++ List.replicate userSize 0).take userSize)
  let header := ByteOrder.big.record
    [(2, 0), (4, (addr + 24).toNat), (4, (addr + .ofNat userSize).toNat), (2, csum.toNat), (12, 0)]
  (header ++ user ++ List.replicate mmapDataSize 0).take mmapDataSize

/-- `read_magic`, in the order of the host. -/
def readMagic (content : List UInt8) : UInt16 :=
  .ofNat ((content.getD 0 0).toNat * 256 + (content.getD 1 0).toNat)

/-- A turn of the loop of `write_out_image` over the blocks. -/
def writeRaw (host : Host) : Writing × UInt32 → FwBlock → Option (Writing × UInt32)
  | (w, offset), b =>
    if b.type = .bootext then some (w, offset)
    else
      let padlen := align offset b.align - offset
      ((w.writeOutPadding padlen 0xFF).writeOutBlock host b).map
        fun w => (w, offset + padlen + b.fileSize)

/-- The word that makes the sum `csum` come out as `ocsum`. -/
def fixUp (ocsum csum : UInt16) : UInt16 :=
  if csum ≤ ocsum then ocsum - csum else ocsum - csum - 1

/-- `write_out_image` up to the boot extension. -/
def writeBootext (host : Host) (job : Job) : Option (Writing × UInt32) := do
  let w : Writing := ⟨OutFile.empty.write (headerBytes job.board 0 0 0), .init⟩
  let w ← w.writeOutBlock host job.bootext
  let offset := job.board.romioOffs + 48 + job.bootext.fileSize
  if job.board.romioOffs + job.board.bootextSize < offset then none else some (w, offset)

/-- The part of `write_out_image` with the memory map block, and its
address. -/
def writeMmap (board : Board) (w : Writing) (offset : UInt32) : (Writing × UInt32) × UInt32 :=
  let padlen := align offset 16 - offset
  let w := w.writeOutPadding padlen 0xFF
  let offset := offset + padlen
  let mmapAddr := board.flashBase + offset
  let w := w.writeOutData (mmapData board mmapAddr)
  let offset := offset + .ofNat mmapDataSize
  if offset - board.romioOffs < board.bootextSize then
    let padlen := board.romioOffs + board.bootextSize - offset
    ((w.writeOutPadding padlen 0xFF, offset + padlen), mmapAddr)
  else ((w, offset), mmapAddr)

/-- The end of `write_out_image`: the fix-up word, and the header again. -/
def writeEnd (board : Board) (ocsum : UInt16) (mmapAddr : UInt32) (w : Writing)
    (offset : UInt32) : List UInt8 :=
  let w := w.writeOutPadding (align offset 4 - offset) 0xFF
  let file := w.file.write (be16 (fixUp ocsum w.css.get))
  ((file.seek 0).write (headerBytes board 2 mmapAddr ocsum)).bytes

/-- **`write_out_image`**: the output file, if all goes well. -/
def writeOutImage (host : Host) (job : Job) : Option (List UInt8) := do
  let (w, offset) ← writeBootext host job
  let (state, mmapAddr) := writeMmap job.board w offset
  let (w, offset) ← job.blocks.foldlM (writeRaw host) state
  let content ← host.file job.bootext.fileName
  return writeEnd job.board (readMagic content) mmapAddr w offset

/-- **`main`**, behind the splitting of the command line: the image. -/
def main (host : Host) (opts : List Opt) (operands : List Text) : Except Exit (List UInt8) := do
  let (ofname, job) ← accept host opts operands
  if ¬ host.creates ofname then throw .failure
  orFail (writeOutImage host job)

end Zyn
