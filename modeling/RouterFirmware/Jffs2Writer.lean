import RouterFirmware.AlignedRecords
import RouterFirmware.ByteOrder
import RouterFirmware.CString
import RouterFirmware.Crc32
import RouterFirmware.MtdWrite

/-!
# The jffs2 writer of mtd

`jffs2.c` adds one file to a jffs2 file system on the flash.
-/

namespace Jffs2

open List

/-- **The target**: its byte order, and the erase size of its flash. -/
structure Target where
  order : ByteOrder
  erasesize : ℕ
  le_erasesize : 4096 ≤ erasesize
  dvd_erasesize : 4 ∣ erasesize
  erasesize_le : erasesize ≤ intMax

/-! ## The nodes -/

def magicBitmask : ℕ := 0x1985

def nodetypeDirent : ℕ := 0xe001

def nodetypeInode : ℕ := 0xe002

def cleanmarker : ByteOrder → List UInt8
  | .big => [0x19, 0x85, 0x20, 0x03, 0x00, 0x00, 0x00, 0x0c, 0xf0, 0x60, 0xdc, 0x98]
  | .little => [0x85, 0x19, 0x03, 0x20, 0x0c, 0x00, 0x00, 0x00, 0xb1, 0xb0, 0x1e, 0xe4]

@[irreducible] def crc32 (val : BitVec 32) (ss : List UInt8) : BitVec 32 :=
  ss.foldl (fun val s =>
    crc32Table.getD ((val ^^^ s.toBitVec.setWidth 32) &&& 0xff#32).toNat 0 ^^^ (val >>> 8)) val

def direntSize : ℕ := 40

def inodeSize : ℕ := 68

/-- `struct jffs2_raw_dirent`, as `add_dirent` fills it; `mctime` is zero. -/
structure RawDirent where
  name : List UInt8
  type : ℕ
  pino : ℕ
  version : ℕ
  ino : ℕ

def RawDirent.layout (de : RawDirent) (hdrCrc nodeCrc nameCrc : ℕ) : List (ℕ × ℕ) :=
  [(2, magicBitmask), (2, nodetypeDirent), (4, direntSize + de.name.length), (4, hdrCrc),
    (4, de.pino), (4, de.version), (4, de.ino), (4, 0), (1, de.name.length), (1, de.type), (2, 0),
    (4, nodeCrc), (4, nameCrc)]

structure RawInode where
  totlen : ℕ
  ino : ℕ
  version : ℕ
  mode : ℕ
  isize : ℕ
  atime : ℕ
  mtime : ℕ
  ctime : ℕ
  offset : ℕ
  /-- Both `csize` and `dsize`. -/
  dsize : ℕ
  dataCrc : ℕ

def RawInode.layout (ri : RawInode) (hdrCrc nodeCrc : ℕ) : List (ℕ × ℕ) :=
  [(2, magicBitmask), (2, nodetypeInode), (4, ri.totlen), (4, hdrCrc), (4, ri.ino),
    (4, ri.version), (4, ri.mode), (2, 0), (2, 0), (4, ri.isize), (4, ri.atime), (4, ri.mtime),
    (4, ri.ctime), (4, ri.offset), (4, ri.dsize), (4, ri.dsize), (1, 0), (1, 0), (2, 0),
    (4, ri.dataCrc), (4, nodeCrc)]

section Nodes

def crcOf (o : ByteOrder) (n : ℕ) (fields : List (ℕ × ℕ)) : ℕ :=
  (crc32 0 ((o.record fields).take n)).toNat

def RawDirent.node (o : ByteOrder) (de : RawDirent) : List UInt8 :=
  let hdrCrc := crcOf o 8 (de.layout 0 0 0)
  let nodeCrc := crcOf o (direntSize - 8) (de.layout hdrCrc 0 0)
  o.record (de.layout hdrCrc nodeCrc (crc32 0 de.name).toNat) ++ de.name

def RawInode.bytes (o : ByteOrder) (ri : RawInode) : List UInt8 :=
  let hdrCrc := crcOf o 8 (ri.layout 0 0)
  o.record (ri.layout hdrCrc (crcOf o (inodeSize - 8) (ri.layout hdrCrc 0)))

end Nodes

/-! ## The buffer -/

/-- **The static variables** of the writer. -/
structure Writer where
  lastIno : UInt32
  lastVersion : UInt32
  buf : Bytes
  ofs : ℕ
  outfd : MtdFd
  mtdofs : ℕ
  targetIno : UInt32
  /-- Whether an erase or a write has failed. The source does not ask. -/
  failed : Bool

namespace Writer

variable (t : Target) (s : Writer)

def flush : Writer :=
  let erased := s.outfd.mtdEraseBlock s.mtdofs
  let wrote := (erased.getD s.outfd).write (s.buf.slice 0 t.erasesize)
  { s with
    outfd := wrote.2
    mtdofs := s.mtdofs + t.erasesize
    failed := s.failed || erased.isNone || wrote.1 != some t.erasesize }

def copyIn (bytes : List UInt8) : Writer :=
  { s with buf := s.buf.blit s.ofs bytes, ofs := s.ofs + bytes.length }

def wrap : Writer :=
  if s.ofs % t.erasesize = 0 then ({ s with ofs := 0 } : Writer).flush t
  else { s with ofs := s.ofs % t.erasesize }

def pad (size : ℕ) : Writer :=
  if s.ofs % size = 0 ∧ s.ofs < t.erasesize then s
  else if s.ofs < t.erasesize then
    (s.copyIn (replicate (size - s.ofs % size) 0xff)).wrap t
  else s.wrap t

def rbytes : ℕ := t.erasesize - s.ofs % t.erasesize

def prepEraseblock : Writer :=
  if 0 < s.ofs then s else s.copyIn (cleanmarker t.order)

def addData (ptr : List UInt8) : Writer :=
  (if t.erasesize < s.ofs + ptr.length then (s.pad t t.erasesize).prepEraseblock t
    else s).copyIn ptr

/-! ## Directory entries and directories -/

def direntCheck (name : CString) : Prop :=
  ((s.ofs : ℤ) - t.erasesize) % 2 ^ 32 < direntSize + name.length

instance (name : CString) : Decidable (s.direntCheck t name) :=
  inferInstanceAs (Decidable (_ < _))

def dirent (name : CString) (type : ℕ) (parent : UInt32) : RawDirent :=
  { name := name.bytes, type := type, pino := parent.toNat, version := s.lastVersion.toNat
    ino := (s.lastIno + 1).toNat }

def putDirent (name : CString) (type : ℕ) (parent : UInt32) : Writer :=
  { s with
    lastIno := s.lastIno + 2
    lastVersion := s.lastVersion + 1
    buf := s.buf.blit s.ofs ((s.dirent name type parent).node t.order)
    ofs := s.ofs + (direntSize + name.length % 256) }

def addDirent (name : CString) (type : ℕ) (parent : UInt32) : UInt32 × Writer :=
  let s₁ := (if s.direntCheck t name then s.pad t t.erasesize else s).prepEraseblock t
  (s₁.lastIno + 1, (s₁.putDirent t name type parent).pad t 4)

def dtDir : ℕ := 4

def dtReg : ℕ := 8

def dirInode (inode : UInt32) : RawInode :=
  { totlen := inodeSize, ino := inode.toNat, version := 1, mode := 0o40755, isize := 0
    atime := 0, mtime := 0, ctime := 0, offset := 0, dsize := 0, dataCrc := 0 }

def addDir (name : CString) (parent : UInt32) : UInt32 × Writer :=
  let (inode, s₁) := s.addDirent t name dtDir parent
  let s₂ := (if s₁.rbytes t < inodeSize then s₁.pad t t.erasesize else s₁).prepEraseblock t
  (inode, (s₂.addData t ((dirInode inode).bytes t.order)).pad t 4)

end Writer

/-! ## Files -/

structure Stat where
  mode : ℕ
  atime : ℕ
  ctime : ℕ
  mtime : ℕ
  size : ℕ

/-- **A file to be added**, as the tool finds it. -/
structure SourceFile where
  name : CString
  /-- What `stat` gives, if the file exists. -/
  stat : Option Stat
  /-- What reading the file gives, if it can be opened. -/
  data : Option (List UInt8)
  /-- How many bytes beyond the first a `read` at a position is ready to
  give. -/
  more : ℕ → ℕ

def slash : UInt8 := 47

def SourceFile.fname (file : SourceFile) : CString where
  bytes := (file.name.bytes.reverse.takeWhile (· ≠ slash)).reverse
  noZero h := by
    rw [mem_reverse] at h
    exact file.name.noZero (mem_reverse.mp (takeWhile_subset _ h))

structure Adding where
  writer : Writer
  /-- What is still to be read. -/
  rest : List UInt8
  fOffset : ℕ

def pieceInode (st : Stat) (inode version : UInt32) (fOffset : ℕ) (wbuf : List UInt8) : RawInode :=
  { totlen := inodeSize + wbuf.length, ino := inode.toNat, version := version.toNat
    mode := st.mode, isize := st.size, atime := st.atime, mtime := st.mtime, ctime := st.ctime
    offset := fOffset, dsize := wbuf.length, dataCrc := (crc32 0 wbuf).toNat }

def addFileTurn (t : Target) (st : Stat) (inode : UInt32) (more : ℕ → ℕ) (a : Adding) :
    Turn Adding Writer :=
  let s := a.writer
  if inodeSize + 128 < s.rbytes t then
    let len := min (s.rbytes t - inodeSize) 4096
    let wbuf := a.rest.take (min len (1 + more a.fOffset))
    if wbuf = [] then .leave s
    else
      let ri := pieceInode st inode (s.lastVersion + 1) a.fOffset wbuf
      let s₁ := { s with lastVersion := s.lastVersion + 1 }
      .again
        { writer :=
            ((((s₁.addData t (ri.bytes t.order)).addData t wbuf).pad t 4).prepEraseblock t)
          rest := a.rest.drop wbuf.length
          fOffset := a.fOffset + wbuf.length }
  else .again { a with writer := (s.pad t t.erasesize).prepEraseblock t }

namespace Writer

variable (t : Target) (s : Writer)

def addFile (file : SourceFile) (parent : UInt32) : Option Writer :=
  match file.stat with
  | none => some s
  | some st =>
    let (inode, s₁) := s.addDirent t file.fname dtReg parent
    match file.data with
    | none => some s₁
    | some data =>
      Loop.run (addFileTurn t st inode file.more) (2 * data.length + 3) ⟨s₁, data, 0⟩

def addEof : Writer := ((s.pad t t.erasesize).addData t jffs2Eof).pad t t.erasesize

def startIno : Writer := { s with lastIno := if s.lastIno = 0 then 1 else s.lastIno }

def mtdReplaceJffs2 (malloced : Bytes) (fd : MtdFd) (ofs : ℕ) (file : SourceFile) : Option Writer :=
  let s₁ := { s with outfd := fd, mtdofs := ofs, buf := malloced, targetIno := 1, failed := false }
  ((s₁.startIno).addFile t file 1).map fun s₂ => s₂.addEof t

/-! ## Reading the file system -/

def PAD (x : ℕ) : ℕ := (x + 3) % 2 ^ 32 / 4 * 4

def strncmpEq (m : Bytes) : ℕ → List UInt8 → ℕ → Bool
  | _, _, 0 => true
  | a, [], _ + 1 => m a == 0
  | a, c :: cs, n + 1 => m a == c && strncmpEq m (a + 1) cs n

def loadField (a : ℕ) : UInt32 := .ofNat (s.buf.load t.order 4 a)

def noteDirent (dir : CString) (node : ℕ) : Writer :=
  let ino := s.loadField t (node + 20)
  let version := s.loadField t (node + 16)
  let found := !dir.bytes.isEmpty && s.loadField t (node + 12) == 1
    && strncmpEq s.buf (node + direntSize) dir.bytes (s.buf (node + 28)).toNat
  { s with
    targetIno := if found then ino else s.targetIno
    lastIno := if s.lastIno < ino then ino else s.lastIno
    lastVersion := if s.lastVersion < version then version else s.lastVersion }

def parseTurn (dir : CString) (p : ℕ × Writer) : Turn (ℕ × Writer) Writer :=
  let (ofs, s) := p
  if ofs < t.erasesize ∧ s.buf.load t.order 2 ofs = magicBitmask then
    .again ((ofs + PAD (s.loadField t (ofs + 4)).toNat) % 2 ^ 32,
      if s.buf.load t.order 2 (ofs + 2) = nodetypeDirent then s.noteDirent t dir ofs else s)
  else .leave s

def mtdParseJffs2data (dir : CString) (fuel : ℕ) : Option Writer :=
  Loop.run (parseTurn t dir) fuel (0, s)

/-- How the loop of `mtd_write_jffs2` over the file system ends. -/
inductive Scanned where
  /-- The partition ends first. -/
  | noRoom (s : Writer)
  | wrongEndian (s : Writer)
  /-- The file system ends. -/
  | found (s : Writer)

def readBlock : Writer :=
  { s with
    buf := s.buf.blit 0 (s.outfd.flash.slice s.outfd.pos t.erasesize)
    outfd := { s.outfd with pos := s.outfd.pos + t.erasesize }
    mtdofs := s.mtdofs + t.erasesize }

def scan (dir : CString) : ℕ → Writer → Option Scanned
  | 0, _ => none
  | fuel + 1, s =>
    if s.outfd.pos + t.erasesize ≤ s.outfd.dev.size then
      let s₁ := s.readBlock t
      let magic := s₁.buf.load t.order 2 0
      if magic = 0x8519 then some (.wrongEndian s₁)
      else if magic = magicBitmask then
        (s₁.mtdParseJffs2data t dir fuel).bind (scan dir fuel)
      else some (.found s₁)
    else some (.noRoom s)

def jumpBack : Writer :=
  let mtdofs := s.mtdofs - t.erasesize
  { s with
    mtdofs := mtdofs
    outfd := if mtdofs ≤ s.outfd.dev.size then { s.outfd with pos := mtdofs } else s.outfd
    ofs := 0 }

def addMissingDir (dir : CString) : Writer :=
  if s.targetIno = 0 then
    let (inode, s₁) := s.addDir t dir 1
    { s₁ with targetIno := inode }
  else s

def append (file : SourceFile) (dir : CString) : Option Writer :=
  let s₁ := ((s.jumpBack t).startIno).addMissingDir t dir
  (s₁.addFile t file s₁.targetIno).map fun s₂ => s₂.addEof t

def mtdWriteJffs2 (fuel : ℕ) (fd : Option MtdFd) (malloced : Option Bytes)
    (file : SourceFile) (dir : CString) : Option (ℤ × Writer) :=
  match fd, malloced with
  | none, _ => some (-1, s)
  | some fd, none => some (-1, { s with outfd := fd })
  | some fd, some malloced =>
    let s₁ := { s with
      outfd := fd, buf := malloced, failed := false
      targetIno := if dir.bytes.isEmpty then 1 else s.targetIno }
    match scan t dir fuel s₁ with
    | none => none
    | some (.noRoom s₂) => some (-1, s₂)
    | some (.wrongEndian s₂) => some (-1, s₂)
    | some (.found s₂) => (s₂.append t file dir).map fun s₃ => (0, s₃)

end Writer

end Jffs2
