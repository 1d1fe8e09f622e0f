import Mathlib.Data.List.Forall2
import RouterFirmware.Alignment
import RouterFirmware.Fallible
import RouterFirmware.MyloTool

/-!
# The images of mkmylofw

What the boot loader needs of an image: it goes through the descriptors and
takes the data of each block to have the length `dlen` of its descriptor, one
block right behind the other.
-/

namespace Mylo

open Tool List ByteOrder OutFile Option UInt32

/-! ## The check -/

theorem crc32Tab_eq : crc32Tab = crc32Table.toList := by
  decide +kernel

def crc32 (data : List UInt8) : BitVec 32 :=
  Crc.crc crc32Poly 0xFFFFFFFF#32 data ^^^ 0xFFFFFFFF#32

theorem crcTurn_eq : crcTurn = Crc.byte crc32Poly := by
  funext t p
  rw [← crc32Table_step, crcTurn, crc32Tab_eq, Array.getD_eq_getD_getElem?,
    getD_eq_getElem?_getD, Array.getElem?_toList]

theorem updateCrc_eq (crc : BitVec 32) (p : List UInt8) : updateCrc crc p
    = Crc.crc crc32Poly (crc ^^^ 0xFFFFFFFF#32) p ^^^ 0xFFFFFFFF#32 := by
  rw [updateCrc, crcTurn_eq]
  rfl

theorem updateCrc_zero (p : List UInt8) : updateCrc 0 p = crc32 p := by
  rw [updateCrc_eq]
  rfl

theorem xor_ones (c : BitVec 32) : c ^^^ 0xFFFFFFFF#32 ^^^ 0xFFFFFFFF#32 = c := by
  rw [BitVec.xor_assoc, BitVec.xor_self, BitVec.xor_zero]

theorem updateCrc_nil (crc : BitVec 32) : updateCrc crc [] = crc := by
  rw [updateCrc_eq]
  exact xor_ones crc

theorem updateCrc_append (crc : BitVec 32) (p q : List UInt8) :
    updateCrc (updateCrc crc p) q = updateCrc crc (p ++ q) := by
  rw [updateCrc_eq, updateCrc_eq crc p, updateCrc_eq, xor_ones, Crc.crc, Crc.crc, Crc.crc,
    foldl_append]

theorem foldl_updateCrc (crc : BitVec 32) (ps : List (List UInt8)) :
    ps.foldl updateCrc crc = updateCrc crc ps.flatten := by
  induction ps generalizing crc with
  | nil => exact (updateCrc_nil crc).symm
  | cons p ps ih => rw [foldl_cons, ih, updateCrc_append, flatten_cons]

namespace Writing

theorem getFileCrc_eq (data : List UInt8) : getFileCrc data = crc32 data := by
  rw [getFileCrc, foldl_updateCrc, flatten_pieces (by decide) le_rfl, updateCrc_zero]

/-! ## Everything is one write -/

variable {w : Writing}

section Writes

variable (h : w.file.AtEnd)

include h

theorem writeOutData_atEnd (data : List UInt8) : (w.writeOutData data).file.AtEnd :=
  write_end_atEnd h data

theorem writeOutData_nil : w.writeOutData [] = w := by
  obtain ⟨⟨bytes, pos⟩, crc⟩ := w
  have hpos : pos = bytes.length := h
  rw [writeOutData, write_end h, updateCrc_nil, append_nil, hpos]

theorem writeOutData_append (a b : List UInt8) :
    (w.writeOutData a).writeOutData b = w.writeOutData (a ++ b) := by
  show (⟨(w.file.write a).write b, updateCrc (updateCrc w.crc a) b⟩ : Writing)
    = ⟨w.file.write (a ++ b), updateCrc w.crc (a ++ b)⟩
  rw [updateCrc_append, write_end (write_end_atEnd h a), write_end h, write_end h, append_assoc]

theorem foldl_writeOutData (ps : List (List UInt8)) :
    ps.foldl writeOutData w = w.writeOutData ps.flatten := by
  induction ps generalizing w with
  | nil => exact (writeOutData_nil h).symm
  | cons p ps ih =>
    rw [foldl_cons, ih (writeOutData_atEnd h p), writeOutData_append h, flatten_cons]

theorem writeOutPadding_eq (len : ℕ) (padc : UInt8) :
    w.writeOutPadding len padc = w.writeOutData (replicate len padc) := by
  rw [writeOutPadding, foldl_writeOutData h, flatten_pieces (by decide) (le_of_eq length_replicate)]

theorem writeOutPartitions_eq (parts : List FwPart) : w.writeOutPartitions parts
    = w.writeOutData
        (if parts.isEmpty then [] else partitionTable parts ++ partNames parts) := by
  cases parts with
  | nil => exact (writeOutData_nil h).symm
  | cons p parts => exact writeOutData_append h _ _

end Writes

def blockData (host : Host) (b : FwBlock) : Option (List UInt8) :=
  match b.name with
  | none => some []
  | some name =>
    (host.file name).map fun content =>
      let data := content.take b.size.toNat
      (if b.haveHdr then partitionHeader data b.size else []) ++ data
        ++ List.replicate (padLen b.size) 0xFF

variable {host : Host}

theorem writeOutFile_eq (h : w.file.AtEnd) (b : FwBlock) :
    w.writeOutFile host b = (blockData host b).map w.writeOutData := by
  unfold writeOutFile blockData
  cases b.name with
  | none => exact congrArg some (writeOutData_nil h).symm
  | some name =>
    rw [Option.map_map]
    refine congrArg (fun f => Option.map f (host.file name)) (funext fun content => ?_)
    have hpieces (w : Writing) (hw : w.file.AtEnd) (data : List UInt8) (n : ℕ) :
        ((pieces fileBufLen data.length data).foldl writeOutData w).writeOutPadding n 0xFF
          = w.writeOutData (data ++ replicate n 0xFF) := by
      rw [foldl_writeOutData hw, flatten_pieces (by decide) le_rfl,
        writeOutPadding_eq (writeOutData_atEnd hw _), writeOutData_append hw]
    show ((pieces fileBufLen _ _).foldl writeOutData
      (if b.haveHdr then w.writeOutData (partitionHeader _ b.size) else w)).writeOutPadding
      (padLen b.size) 0xFF = w.writeOutData _
    cases b.haveHdr with
    | false => exact hpieces w h _ _
    | true =>
      show _ = w.writeOutData (partitionHeader _ b.size ++ _ ++ _)
      rw [if_pos rfl, hpieces _ (writeOutData_atEnd h _), writeOutData_append h, append_assoc]

theorem foldlM_writeOutFile (h : w.file.AtEnd) (blocks : List FwBlock) :
    blocks.foldlM (fun w b => w.writeOutFile host b) w
      = (blocks.mapM (blockData host)).map fun datas => w.writeOutData datas.flatten := by
  induction blocks generalizing w with
  | nil => exact congrArg some (writeOutData_nil h).symm
  | cons b blocks ih =>
    rw [foldlM_cons, mapM_cons, writeOutFile_eq h]
    cases blockData host b with
    | none => rfl
    | some data =>
      show blocks.foldlM _ (w.writeOutData data) = _
      rw [ih (writeOutData_atEnd h data)]
      cases blocks.mapM (blockData host) with
      | none => rfl
      | some datas =>
        exact congrArg some (writeOutData_append h data datas.flatten)

def blockDesc (b : FwBlock) : List UInt8 := desc 1 b.addr (dlen b) b.blocklen

def partitionsDesc (board : Board) (s : State) : List UInt8 :=
  if s.parts.isEmpty then [] else desc 1 board.partOffset partitionsSize board.partSize

def partitionsData (s : State) : List UInt8 :=
  if s.parts.isEmpty then [] else partitionTable s.parts ++ partNames s.parts

def tables (board : Board) (s : State) : List UInt8 :=
  partitionsDesc board s ++ (s.blocks.map blockDesc).flatten ++ desc 0 0 0 0 ++ partitionsData s

theorem writeOutBlocks_eq (h : w.file.AtEnd) (board : Board) (s : State) :
    w.writeOutBlocks host board s
      = (s.blocks.mapM (blockData host)).map fun datas =>
          w.writeOutData (tables board s ++ datas.flatten) := by
  have hdesc : (if s.parts.isEmpty then w
      else w.writeOutData (desc 1 board.partOffset partitionsSize board.partSize))
        = w.writeOutData (partitionsDesc board s) := by
    unfold partitionsDesc
    cases s.parts.isEmpty with
    | false => rfl
    | true => exact (writeOutData_nil h).symm
  have hblocks (w : Writing) (hw : w.file.AtEnd) :
      s.blocks.foldl (fun w b => w.writeOutData (desc 1 b.addr (dlen b) b.blocklen)) w
        = w.writeOutData (s.blocks.map blockDesc).flatten := by
    rw [← foldl_writeOutData hw, foldl_map]
    rfl
  unfold writeOutBlocks
  dsimp only
  rw [hdesc, hblocks _ (writeOutData_atEnd h _), writeOutData_append h, writeOutData_append h,
    writeOutPartitions_eq (writeOutData_atEnd h _), writeOutData_append h,
    foldlM_writeOutFile (writeOutData_atEnd h _)]
  refine congrArg (fun f => Option.map f _) (funext fun datas => ?_)
  rw [writeOutData_append h]
  rfl

end Writing

open Writing

def imageOf (board : Board) (s : State) (datas : List (List UInt8)) : List UInt8 :=
  headerBytes s.header (crc32 (headerBytes s.header 0 ++ (tables board s ++ datas.flatten)))
    ++ (tables board s ++ datas.flatten)

@[simp] theorem length_headerBytes (h : FwHeader) (crc : BitVec 32) :
    (headerBytes h crc).length = 40 :=
  length_record ..

theorem writeOut_eq (host : Host) (board : Board) (s : State) :
    writeOut host board s = (s.blocks.mapM (blockData host)).map (imageOf board s) := by
  have hstart := writeOutData_atEnd (w := ⟨.empty, 0⟩) empty_atEnd (headerBytes s.header 0)
  unfold writeOut
  rw [writeOutBlocks_eq hstart]
  cases s.blocks.mapM (blockData host) with
  | none => rfl
  | some datas =>
    rw [map_some, writeOutData_append OutFile.empty_atEnd]
    refine congrArg some (Eq.trans (write_inside (a := []) (b := headerBytes s.header 0)
      (c := tables board s ++ datas.flatten) ?_ rfl ?_) ?_)
    · show ((empty : OutFile UInt8).write _).bytes = _
      rw [write_end OutFile.empty_atEnd]
      rfl
    · rw [length_headerBytes, length_headerBytes]
    · show [] ++ headerBytes s.header (updateCrc 0 _) ++ _ = imageOf board s datas
      rw [updateCrc_zero, nil_append, imageOf]

/-! ## What is accepted -/

open Fallible

namespace FwBlock

def Parsed (b : FwBlock) : Prop := b.name = none → b.haveHdr = false ∧ b.size = 0

def Accepted (host : Host) (b : FwBlock) : Prop :=
  (b.name = none ∧ b.haveHdr = false ∧ b.size = 0)
    ∨ ∃ name content, b.name = some name ∧ host.file name = some content
      ∧ content.length < 2 ^ 32 ∧ b.size = .ofNat content.length

end FwBlock

variable {b : FwBlock} {data : List UInt8}

section Accept

variable {host : Host} {s : State}

theorem parseOptBlock_blocks {s' : State} {arg : Text} (h : parseOptBlock host s arg = .ok s') :
    ∃ bs : List FwBlock, (∀ b ∈ bs, b.Parsed) ∧ s'.blocks = s.blocks ++ bs := by
  unfold parseOptBlock at h
  simp only [throw_bind, bind_ok, unless_ok] at h
  obtain ⟨-, -, -, argv, -, addr, -, blocklen, -, h⟩ := h
  split at h
  · refine ⟨[⟨addr, blocklen, false, none, 0⟩], ?_, by rw [← pure_ok.mp h]⟩
    rintro b hb -
    rw [mem_singleton.mp hb]
    exact ⟨rfl, rfl⟩
  · simp only [unless_ok] at h
    obtain ⟨-, -, h⟩ := h
    refine ⟨[⟨addr, blocklen, !(argv.getD 2 []).isEmpty, some (argv.getD 3 []), 0⟩], ?_,
      by rw [← pure_ok.mp h]⟩
    rintro b hb hname
    rw [mem_singleton.mp hb] at hname
    cases hname

theorem parseOptPartition_blocks {s' : State} {arg : Text}
    (h : parseOptPartition host s arg = .ok s') :
    ∃ bs : List FwBlock, (∀ b ∈ bs, b.Parsed) ∧ s'.blocks = s.blocks ++ bs := by
  unfold parseOptPartition at h
  simp only [throw_bind, bind_ok, unless_ok] at h
  obtain ⟨-, -, -, argv, -, addr, -, size, -, flags, -, param, -, h⟩ := h
  split at h
  · exact ⟨[], nofun, by rw [← pure_ok.mp h, append_nil]⟩
  · simp only [unless_ok] at h
    obtain ⟨-, h⟩ := h
    refine ⟨_, ?_, by rw [← pure_ok.mp h]⟩
    rintro b hb hname
    rw [mem_singleton.mp hb] at hname
    cases hname

theorem parseOpt_blocks {s' : State} {o : Opt} (h : parseOpt host s o = .ok s') :
    ∃ bs : List FwBlock, (∀ b ∈ bs, b.Parsed) ∧ s'.blocks = s.blocks ++ bs := by
  have hsame (heq : s'.blocks = s.blocks) :
      ∃ bs : List FwBlock, (∀ b ∈ bs, b.Parsed) ∧ s'.blocks = s.blocks ++ bs :=
    ⟨[], nofun, heq.trans (append_nil _).symm⟩
  cases o with
  | b arg => exact parseOptBlock_blocks h
  | p arg => exact parseOptPartition_blocks h
  | B arg =>
    simp only [parseOpt, parseOptBoard, bind_ok, pure_ok] at h
    obtain ⟨-, -, board, -, rfl⟩ := h
    exact hsame rfl
  | f arg =>
    simp only [parseOpt, parseOptFlags, bind_ok, pure_ok] at h
    obtain ⟨-, -, flags, -, rfl⟩ := h
    exact hsame rfl
  | i arg =>
    simp only [parseOpt, parseOptId, bind_ok, pure_ok] at h
    obtain ⟨-, -, argv, -, vid, -, did, -, svid, -, sdid, -, rev, -, rfl⟩ := h
    exact hsame rfl
  | r arg =>
    simp only [parseOpt, parseOptRev, bind_ok, pure_ok] at h
    obtain ⟨-, -, rev, -, rfl⟩ := h
    exact hsame rfl
  | s arg =>
    simp only [parseOpt, parseOptSize, bind_ok, pure_ok] at h
    obtain ⟨-, -, size, -, rfl⟩ := h
    exact hsame rfl
  | v => exact hsame (congrArg State.blocks (Except.ok.inj h)).symm
  | h => cases h
  | invalid => cases h

theorem processFile_accepted {b' : FwBlock} (hb : b.Parsed) (h : processFile host s b = .ok b') :
    b'.Accepted host := by
  unfold processFile at h
  split at h
  · cases h
  · split at h
    case h_1 hname =>
      cases h
      exact .inl ⟨hname, hb hname⟩
    case h_2 name hname =>
      simp only [throw_bind, bind_ok, unless_ok, pure_ok, orFail_ok] at h
      obtain ⟨content, hfile, hlen, rfl⟩ := h
      refine .inr ⟨name, content, hname, hfile, ?_, rfl⟩
      exact lt_of_le_of_lt (Nat.le_of_not_lt hlen) (toNat_lt _)

theorem parsed_of_options {opts : List Opt} (h : opts.foldlM (parseOpt host) .start = .ok s) :
    ∀ b ∈ s.blocks, b.Parsed := by
  refine foldlM_ok (P := fun s : State => ∀ b ∈ s.blocks, b.Parsed) ?_
    (fun b hb => absurd hb not_mem_nil) h
  intro s o s' hs ho b hb
  obtain ⟨bs, hbs, heq⟩ := parseOpt_blocks ho
  rw [heq] at hb
  exact (mem_append.mp hb).elim (hs b) (hbs b)

theorem accept_blocks {opts : List Opt} {board : Board} (h : accept host opts = .ok (board, s)) :
    ∀ b ∈ s.blocks, b.Accepted host := by
  simp only [accept, throw_bind, bind_ok, unless_ok, pure_ok] at h
  obtain ⟨s₀, hopts, _, -, -, blocks, hblocks, -, -, heq⟩ := h
  obtain ⟨rfl, rfl⟩ := Prod.mk.inj heq
  intro b' hb'
  obtain ⟨b, hb, hfile⟩ := mapM_ok hblocks hb'
  exact processFile_accepted (parsed_of_options hopts b hb) hfile

end Accept

/-! ## Lengths and positions -/

namespace FwBlock

def FitsDlen (host : Host) (b : FwBlock) : Prop :=
  ∀ name content, b.name = some name → host.file name = some content →
    content.length + (if b.haveHdr then partitionHeaderSize else 0) + 3 < 2 ^ 32

def Writes (host : Host) (b : FwBlock) (data : List UInt8) : Prop :=
  ∀ w : Writing, w.file.AtEnd →
    (w.writeOutFile host b).map (fun w => w.file.bytes) = some (w.file.bytes ++ data)

theorem writes_of_blockData {host : Host} {b : FwBlock} {data : List UInt8}
    (h : blockData host b = some data) : b.Writes host data := by
  intro w hw
  rw [writeOutFile_eq hw, h, map_some, map_some]
  exact congrArg some (congrArg OutFile.bytes (OutFile.write_end hw data))

end FwBlock

theorem padLen_eq (size : UInt32) : padLen size = (4 - size.toNat % 4) % 4 := by
  have h := size.toNat_lt
  rw [padLen, Nat.zero_add, Nat.and_comm, show 3 = 2 ^ 2 - 1 from rfl,
    Nat.and_two_pow_sub_one_eq_mod, UInt32.toNat_sub,
    show (~~~3 : UInt32).toNat = 4294967292 from rfl]
  omega

theorem toNat_align4 (x : UInt32) : (align4 x).toNat = (x.toNat + 3) % 2 ^ 32 / 4 * 4 :=
  Alignment.toNat_roundUp (a := 4) (k := 2) x rfl

@[simp] theorem length_partitionHeader (data : List UInt8) (size : UInt32) :
    (partitionHeader data size).length = 8 :=
  length_record ..

section Block

variable {host : Host} (hb : b.Accepted host)

include hb

theorem blockData_isSome : ∃ data, blockData host b = some data := by
  unfold blockData
  rcases hb with ⟨hname, -, -⟩ | ⟨name, content, hname, hfile, -, -⟩
  · rw [hname]
    exact ⟨_, rfl⟩
  · rw [hname]
    dsimp only
    rw [hfile]
    exact ⟨_, rfl⟩

end Block

variable {host : Host}

theorem length_blockData {name : Text} {content : List UInt8}
    (hname : b.name = some name) (hfile : host.file name = some content)
    (hlen : content.length < 2 ^ 32) (hsize : b.size = .ofNat content.length)
    (hdata : blockData host b = some data) :
    data.length = ((if b.haveHdr then 8 else 0) + content.length + 3) / 4 * 4
      ∧ (dlen b).toNat
        = ((if b.haveHdr then 8 else 0) + content.length + 3) % 2 ^ 32 / 4 * 4 := by
  have hsz : b.size.toNat = content.length := by
    rw [hsize, toNat_ofNat_of_lt' hlen]
  unfold blockData at hdata
  rw [hname] at hdata
  dsimp only at hdata
  rw [hfile, map_some, hsz, take_length] at hdata
  cases hdata
  rw [dlen, toNat_align4, length_append, length_append, length_replicate, padLen_eq, hsz]
  cases b.haveHdr with
  | false =>
    simp only [Bool.false_eq_true, if_false, length_nil, hsz]
    omega
  | true =>
    simp only [if_true, length_partitionHeader, UInt32.toNat_add, hsz]
    show 8 + _ + _ = _ ∧ ((content.length + 8) % 2 ^ 32 + 3) % 2 ^ 32 / 4 * 4 = _
    omega

theorem length_eq_dlen_iff (hb : b.Accepted host)
    (hdata : blockData host b = some data) : data.length = (dlen b).toNat ↔ b.FitsDlen host := by
  rcases hb with ⟨hname, hhdr, hsize⟩ | ⟨name, content, hname, hfile, hlen, hsize⟩
  · unfold blockData at hdata
    rw [hname] at hdata
    cases hdata
    rw [dlen, hhdr, hsize]
    refine iff_of_true rfl fun name content hn => ?_
    rw [hname] at hn
    cases hn
  · have hfits : b.FitsDlen host
        ↔ content.length + (if b.haveHdr then 8 else 0) + 3 < 2 ^ 32 := by
      refine ⟨fun h => h name content hname hfile, fun h name' content' hn hf => ?_⟩
      rw [hname] at hn
      cases hn
      rw [hfile] at hf
      cases hf
      exact h
    obtain ⟨hd, hs⟩ := length_blockData hname hfile hlen hsize hdata
    rw [hd, hs, hfits]
    omega

/-! ## The image -/

def partitionsDescs (s : State) : ℕ := if s.parts.isEmpty then 0 else 1

def storedDlen (s : State) (image : List UInt8) (i : ℕ) : ℕ :=
  little.field image (40 + 16 * (partitionsDescs s + i) + 8) 4

def dataStart (s : State) (image : List UInt8) (i : ℕ) : ℕ :=
  40 + 16 * (partitionsDescs s + s.blocks.length + 1) + (if s.parts.isEmpty then 0 else 400)
    + ((range i).map (storedDlen s image)).sum

def clearCrc (image : List UInt8) : List UInt8 :=
  image.take 4 ++ List.replicate 4 0 ++ image.drop 8

/-- **An image that the boot loader can read.** -/
structure Consistent (host : Host) (s : State) (image : List UInt8)
    (datas : List (List UInt8)) : Prop where
  length : ∀ i data, datas[i]? = some data → data.length = storedDlen s image i
  start : ∀ i data, datas[i]? = some data →
    (image.drop (dataStart s image i)).take data.length = data
  header : ∀ (i : ℕ) (b : FwBlock) (data : List UInt8), s.blocks[i]? = some b →
    datas[i]? = some data → b.haveHdr → ∃ name content,
      b.name = some name ∧ host.file name = some content
      ∧ little.field data 0 4 = content.length
      ∧ little.field data 4 4 = (crc32 content).toNat
  crc : little.field image 4 4 = (crc32 (clearCrc image)).toNat

section Layout

variable (board : Board) (s : State)

@[simp] theorem length_desc (type : ℕ) (addr dlen blen : UInt32) :
    (desc type addr dlen blen).length = 16 :=
  length_record ..

theorem field_desc_dlen (type : ℕ) (addr dlen blen : UInt32) (tail : List UInt8) :
    little.field (desc type addr dlen blen ++ tail) 8 4 = dlen.toNat := by
  unfold desc
  refine Eq.trans (field_record .little (i := 2) (v := dlen.toNat) ?_ ?_ tail) ?_
  · rfl
  · rfl
  · exact Nat.mod_eq_of_lt dlen.toNat_lt

theorem length_partitionsDesc : (partitionsDesc board s).length = 16 * partitionsDescs s := by
  unfold partitionsDesc partitionsDescs
  cases s.parts.isEmpty with
  | true => rfl
  | false => exact length_desc ..

theorem length_blockDescs (blocks : List FwBlock) :
    (blocks.map blockDesc).flatten.length = 16 * blocks.length := by
  induction blocks with
  | nil => rfl
  | cons b blocks ih =>
    rw [map_cons, flatten_cons, length_append, ih, blockDesc, length_desc, length_cons]
    omega

theorem length_eightPlaces (n : ℕ) (taken : List (List UInt8)) :
    (eightPlaces n taken).length = n * 8 := by
  rw [eightPlaces, length_take, length_append, length_replicate]
  exact Nat.min_eq_left (Nat.le_add_left ..)

theorem length_partitionsData : (partitionsData s).length = if s.parts.isEmpty then 0 else 400 := by
  unfold partitionsData
  cases s.parts.isEmpty with
  | true => rfl
  | false =>
    show (partitionTable s.parts ++ partNames s.parts).length = 400
    rw [length_append, partitionTable, length_append, partNames, length_eightPlaces,
      length_eightPlaces, length_record]
    rfl

theorem length_tables : (tables board s).length
    = 16 * (partitionsDescs s + s.blocks.length + 1) + if s.parts.isEmpty then 0 else 400 := by
  rw [tables, length_append, length_append, length_append, length_partitionsDesc,
    length_blockDescs, length_desc, length_partitionsData]
  omega

theorem flatten_split {i : ℕ} {xs : List (List UInt8)} {x : List UInt8} (hi : xs[i]? = some x) :
    xs.flatten = (xs.take i).flatten ++ (x ++ (xs.drop (i + 1)).flatten) := by
  obtain ⟨hlt, hget⟩ := List.getElem?_eq_some_iff.mp hi
  conv_lhs => rw [← take_append_drop i xs, drop_eq_getElem_cons hlt, hget]
  rw [flatten_append, flatten_cons]

theorem storedDlen_imageOf (datas : List (List UInt8)) {i : ℕ}
    (hi : s.blocks[i]? = some b) : storedDlen s (imageOf board s datas) i = (dlen b).toNat := by
  have hlt : i < s.blocks.length := (List.getElem?_eq_some_iff.mp hi).1
  have hdesc : (s.blocks.map blockDesc)[i]? = some (blockDesc b) := by
    rw [getElem?_map, hi, map_some]
  have hsplit : tables board s ++ datas.flatten
      = (partitionsDesc board s ++ ((s.blocks.take i).map blockDesc).flatten)
        ++ (blockDesc b ++ (((s.blocks.map blockDesc).drop (i + 1)).flatten
          ++ (desc 0 0 0 0 ++ (partitionsData s ++ datas.flatten)))) := by
    rw [tables, flatten_split hdesc, map_take]
    simp only [append_assoc]
  have hlen (crc : BitVec 32) : (headerBytes s.header crc ++ (partitionsDesc board s
      ++ ((s.blocks.take i).map blockDesc).flatten)).length
        = 40 + 16 * (partitionsDescs s + i) := by
    rw [length_append, length_append, length_headerBytes, length_partitionsDesc,
      length_blockDescs, length_take, Nat.min_eq_left hlt.le]
    omega
  rw [storedDlen, imageOf, hsplit, ← append_assoc, field, ← drop_drop, drop_left' (hlen _)]
  exact field_desc_dlen ..

theorem start_of_lengths (datas : List (List UInt8)) {i : ℕ} (hi : datas[i]? = some data)
    (hlen : ∀ j d, datas[j]? = some d → d.length = storedDlen s (imageOf board s datas) j) :
    ((imageOf board s datas).drop (dataStart s (imageOf board s datas) i)).take data.length
      = data := by
  have hlt : i < datas.length := (List.getElem?_eq_some_iff.mp hi).1
  have hsum : ((range i).map (storedDlen s (imageOf board s datas))).sum
      = (datas.take i).flatten.length := by
    rw [length_flatten]
    refine congrArg sum (ext_getElem? fun j => ?_)
    rw [getElem?_map, getElem?_map, getElem?_take]
    by_cases hj : j < i
    · obtain ⟨d, hd⟩ : ∃ d, datas[j]? = some d := ⟨_, getElem?_eq_getElem (hj.trans hlt)⟩
      rw [getElem?_range hj, if_pos hj, hd, map_some, map_some, hlen j d hd]
    · rw [if_neg hj, List.getElem?_eq_none (by rw [length_range]; omega)]
      rfl
  have hstart (crc : BitVec 32) :
      (headerBytes s.header crc ++ (tables board s ++ (datas.take i).flatten)).length
        = dataStart s (imageOf board s datas) i := by
    rw [dataStart, hsum, length_append, length_append, length_headerBytes, length_tables]
    omega
  generalize dataStart s (imageOf board s datas) i = start at hstart ⊢
  rw [imageOf, flatten_split hi, ← append_assoc (tables board s), ← append_assoc,
    drop_left' (hstart _), take_left' rfl]

end Layout

/-! ## The check in the header -/

theorem headerBytes_eq (h : FwHeader) : ∃ tail, ∀ crc : BitVec 32,
    headerBytes h crc
      = little.bytes 4 0x4C594D00 ++ (little.bytes 4 crc.toNat ++ tail) := by
  refine ⟨little.record [(4, 0), (4, 0), (2, h.vid.toNat), (2, h.did.toNat), (2, h.svid.toNat),
    (2, h.sdid.toNat), (4, h.rev.toNat), (4, h.fwhi.toNat), (4, h.fwlo.toNat), (4, h.flags.toNat)],
    fun crc => ?_⟩
  rw [headerBytes, record, flatMap_cons, flatMap_cons, ← record]

theorem field_headerBytes_crc (h : FwHeader) (crc : BitVec 32) (tail : List UInt8) :
    little.field (headerBytes h crc ++ tail) 4 4 = crc.toNat := by
  unfold headerBytes
  refine Eq.trans (field_record .little (i := 1) (v := crc.toNat) ?_ ?_ tail) ?_
  · rfl
  · rfl
  · exact Nat.mod_eq_of_lt crc.isLt

theorem clearCrc_header (h : FwHeader) (crc : BitVec 32) (rest : List UInt8) :
    clearCrc (headerBytes h crc ++ rest) = headerBytes h 0 ++ rest := by
  obtain ⟨tail, htail⟩ := headerBytes_eq h
  rw [clearCrc, htail crc, htail 0, append_assoc, append_assoc, take_left' (length_bytes ..),
    show 8 = 4 + 4 from rfl, ← drop_drop, drop_left' (length_bytes ..),
    append_assoc (little.bytes 4 _), drop_left' (length_bytes ..)]
  simp only [append_assoc]
  rfl

theorem field_crc_imageOf (board : Board) (s : State) (datas : List (List UInt8)) :
    little.field (imageOf board s datas) 4 4
      = (crc32 (clearCrc (imageOf board s datas))).toNat := by
  rw [imageOf, clearCrc_header]
  exact field_headerBytes_crc ..

/-! ## The result -/

theorem field_partitionHeader (data tail : List UInt8) (size : UInt32) :
    little.field (partitionHeader data size ++ tail) 0 4 = size.toNat
      ∧ little.field (partitionHeader data size ++ tail) 4 4 = (crc32 data).toNat := by
  unfold partitionHeader
  rw [getFileCrc_eq]
  constructor
  · refine Eq.trans (field_record .little (i := 0) (v := size.toNat) ?_ ?_ tail) ?_
    · rfl
    · rfl
    · exact Nat.mod_eq_of_lt size.toNat_lt
  · refine Eq.trans (field_record .little (i := 1) (v := (crc32 data).toNat) ?_ ?_ tail) ?_
    · rfl
    · rfl
    · exact Nat.mod_eq_of_lt (BitVec.isLt _)

theorem blockData_header (hb : b.Accepted host)
    (hdata : blockData host b = some data) (hhdr : b.haveHdr) :
    ∃ name content, b.name = some name ∧ host.file name = some content
      ∧ little.field data 0 4 = content.length
      ∧ little.field data 4 4 = (crc32 content).toNat := by
  unfold blockData at hdata
  rcases hb with ⟨-, hno, -⟩ | ⟨name, content, hname, hfile, hlen, hsize⟩
  · rw [hno] at hhdr
    cases hhdr
  · have hsz : b.size.toNat = content.length := by
      rw [hsize, toNat_ofNat_of_lt' hlen]
    rw [hname] at hdata
    dsimp only at hdata
    rw [hfile, map_some, hsz, take_length, if_pos hhdr, append_assoc] at hdata
    cases hdata
    exact ⟨name, content, hname, hfile, hsz ▸ field_partitionHeader ..⟩

theorem mapM_blockData {blocks : List FwBlock} (h : ∀ b ∈ blocks, b.Accepted host) :
    ∃ datas, blocks.mapM (blockData host) = some datas
      ∧ List.Forall₂ (fun b data => blockData host b = some data) blocks datas := by
  induction blocks with
  | nil => exact ⟨[], rfl, .nil⟩
  | cons b blocks ih =>
    obtain ⟨data, hdata⟩ := blockData_isSome (h b mem_cons_self)
    obtain ⟨datas, hdatas, hall⟩ := ih fun b hb => h b (mem_cons_of_mem _ hb)
    refine ⟨data :: datas, ?_, .cons hdata hall⟩
    rw [mapM_cons, hdata, hdatas]
    rfl

theorem main_eq {opts : List Opt} {board : Board} {s : State}
    (hacc : accept host opts = .ok (board, s)) (ofname : Text) (hcreate : host.creates ofname) :
    ∃ datas, main host opts [ofname] = .ok (imageOf board s datas)
      ∧ List.Forall₂ (fun b data => blockData host b = some data) s.blocks datas := by
  obtain ⟨datas, hmap, hall⟩ := mapM_blockData (accept_blocks hacc)
  refine ⟨datas, ?_, hall⟩
  rw [main, hacc]
  show (if ¬ host.creates ofname then _ else orFail (writeOut host board s)) = _
  rw [if_neg (not_not_intro hcreate), writeOut_eq, hmap]
  rfl

/-! ### One block

A command line with one file, which may be as large as a block can be. -/

def oneFile (content : List UInt8) : Host where
  file name := if name = ascii ['f'] then some content else none
  str2u32 arg :=
    if arg = ascii ['0'] then some 0
    else if arg = ascii ['4', '2', '9', '4', '9', '6', '7', '2', '9', '5'] then some 4294967295
    else none
  creates _ := true

def oneBlock : List Opt :=
  [.B (ascii ['W', 'P', '5', '4', 'G']),
    .s (ascii ['4', '2', '9', '4', '9', '6', '7', '2', '9', '5']),
    .b (ascii ['0', ':', '0', ':', 'h', ':', 'f'])]

def oneBlockState (size : UInt32) : State where
  flashSize := 4294967295
  parts := []
  blocks := [⟨0, 4294967295, true, some (ascii ['f']), size⟩]
  header := ⟨venidCompex, 0x0515, venidCompex, 0x0515, 0, 0x20000, 0x20000, 0⟩
  board := some (cpxBoardAdm 0x0515 4 ['W', 'P', '5', '4', 'G'])

theorem accept_oneBlock (content : List UInt8) (h : content.length < 2 ^ 32) :
    accept (oneFile content) oneBlock
      = .ok (cpxBoardAdm 0x0515 4 ['W', 'P', '5', '4', 'G'],
          oneBlockState (.ofNat content.length)) := by
  have hopts : oneBlock.foldlM (parseOpt (oneFile content)) .start
      = .ok { oneBlockState 0 with blocks := [⟨0, 0, true, some (ascii ['f']), 0⟩] } := rfl
  have hfile : processFile (oneFile content)
      { oneBlockState 0 with blocks := [⟨0, 0, true, some (ascii ['f']), 0⟩] }
      ⟨0, 0, true, some (ascii ['f']), 0⟩
        = .ok ⟨0, 4294967295, true, some (ascii ['f']), .ofNat content.length⟩ := by
    show (if 4294967295 < content.length then _ else _) = _
    rw [if_neg (by omega)]
    rfl
  rw [accept, hopts]
  show ([_].mapM (processFile (oneFile content) _) >>= _) = _
  rw [mapM_cons, hfile]
  rfl

/-! ### All command lines -/

/-- **The image can be read exactly if every block fits.** The tool accepts
the command line, writes the image, and its descriptors say where the data is
unless the file of a block is so large that `dlen` wraps. -/
theorem main_consistent_iff {host : Host} {opts : List Opt} {board : Board} {s : State}
    (hacc : accept host opts = .ok (board, s)) (ofname : Text) (hcreate : host.creates ofname) :
    ∃ image datas, main host opts [ofname] = .ok image
      ∧ List.Forall₂ (FwBlock.Writes host) s.blocks datas
      ∧ (Consistent host s image datas ↔ ∀ b ∈ s.blocks, b.FitsDlen host) := by
  have hblocks := accept_blocks hacc
  obtain ⟨datas, hmain, hall⟩ := main_eq hacc ofname hcreate
  have hlen := hall.length_eq
  have hpair {i : ℕ} {b : FwBlock} {data : List UInt8} (hb : s.blocks[i]? = some b)
      (hd : datas[i]? = some data) : blockData host b = some data := by
    obtain ⟨hi, rfl⟩ := List.getElem?_eq_some_iff.mp hb
    obtain ⟨hi', rfl⟩ := List.getElem?_eq_some_iff.mp hd
    exact hall.get hi hi'
  refine ⟨_, datas, hmain, hall.imp fun b data h => FwBlock.writes_of_blockData h,
    fun h b hb => ?_, fun h => ?_⟩
  · obtain ⟨i, hi, rfl⟩ := getElem_of_mem hb
    have hb' : s.blocks[i]? = some s.blocks[i] := getElem?_eq_getElem hi
    have hd : datas[i]? = some datas[i] := getElem?_eq_getElem (hlen ▸ hi)
    refine (length_eq_dlen_iff (hblocks _ hb) (hpair hb' hd)).mp ?_
    rw [h.length i _ hd, storedDlen_imageOf board s datas hb']
  · have hlength (i : ℕ) (data : List UInt8) (hd : datas[i]? = some data) :
        data.length = storedDlen s (imageOf board s datas) i := by
      have hi : i < s.blocks.length := hlen ▸ (List.getElem?_eq_some_iff.mp hd).1
      have hb : s.blocks[i]? = some s.blocks[i] := getElem?_eq_getElem hi
      have hmem := getElem_mem hi
      rw [storedDlen_imageOf board s datas hb]
      exact (length_eq_dlen_iff (hblocks _ hmem) (hpair hb hd)).mpr (h _ hmem)
    exact {
      length := hlength
      start := fun i data hd => start_of_lengths board s datas hd hlength
      header := fun i b data hb hd hhdr =>
        blockData_header (hblocks b (mem_of_getElem? hb)) (hpair hb hd) hhdr
      crc := field_crc_imageOf board s datas }

theorem main_consistent_oneBlock :
    ∃ image datas, main (oneFile [1, 2, 3, 4, 5]) oneBlock [[111]] = .ok image
      ∧ Consistent (oneFile [1, 2, 3, 4, 5]) (oneBlockState 5) image datas := by
  obtain ⟨image, datas, hmain, -, hiff⟩ :=
    main_consistent_iff (accept_oneBlock [1, 2, 3, 4, 5] (by decide)) [111] rfl
  refine ⟨image, datas, hmain, hiff.mpr fun b hb name content hn hf => ?_⟩
  rw [mem_singleton.mp hb] at hn ⊢
  cases hn
  cases hf
  decide

/-- **A file of almost 4 GiB**: the data of the block has `2 ^ 32 + 8` bytes,
and the descriptor says 8. -/
theorem main_dlen_wraps : let host := oneFile (replicate 4294967293 0)
    ∃ image data, main host oneBlock [[111]] = .ok image
      ∧ List.Forall₂ (FwBlock.Writes host) (oneBlockState 4294967293).blocks [data]
      ∧ data.length = 4294967304 ∧ storedDlen (oneBlockState 4294967293) image 0 = 8 := by
  intro host
  have hlen : (replicate 4294967293 (0 : UInt8)).length = 4294967293 := length_replicate
  have hacc := accept_oneBlock (replicate 4294967293 0) (by rw [hlen]; decide)
  rw [hlen] at hacc
  obtain ⟨datas, hmain, hall⟩ := main_eq hacc [111] rfl
  obtain ⟨data, _, hdata, hnil, rfl⟩ := forall₂_cons_left_iff.mp hall
  cases hnil
  obtain ⟨hd, hs⟩ := length_blockData rfl rfl (by rw [hlen]; decide) (by rw [hlen]) hdata
  rw [hlen] at hd hs
  refine ⟨_, data, hmain, .cons (FwBlock.writes_of_blockData hdata) .nil, hd, ?_⟩
  exact (storedDlen_imageOf _ _ _ rfl).trans hs

end Mylo
