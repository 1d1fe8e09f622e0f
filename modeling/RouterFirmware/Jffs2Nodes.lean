import RouterFirmware.Jffs2Writer

/-!
# What the jffs2 writer should leave on the flash

A reader of the file system takes a block apart into nodes: each begins with
the magic number, its total length and a check of both, and the next one begins
at the next multiple of four (`IsBlock`).
-/

namespace Jffs2

open ByteOrder List RawInode Nat

/-! ## What a reader finds -/

/-- **A node**: magic number, length and check of its header are right. -/
structure IsNode (o : ByteOrder) (n : List UInt8) : Prop where
  magic : o.field n 0 2 = magicBitmask
  totlen : o.field n 4 4 = n.length
  hdrCrc : o.field n 8 4 = (Crc.crc crc32Poly 0 (n.take 8)).toNat

structure IsBlock (t : Target) (b : List UInt8) (ns : List (List UInt8)) : Prop where
  length_eq : b.length = t.erasesize
  begins : b.take 12 = cleanmarker t.order
  isNode : ∀ n ∈ ns, IsNode t.order n
  nodes : RecordsFrom 0xff 4 b 0 ns

section Fields

variable (o : ByteOrder)

def isFileNode (ino : UInt32) (n : List UInt8) : Bool :=
  o.field n 2 2 == nodetypeInode && o.field n 12 4 == ino.toNat

def fileNodes (ino : UInt32) (ns : List (List UInt8)) : List (List UInt8) :=
  ns.filter (isFileNode o ino)

def payload (n : List UInt8) : List UInt8 := n.drop inodeSize

def Contiguous : ℕ → List (List UInt8) → Prop
  | _, [] => True
  | a, n :: ns => o.field n 44 4 = a ∧ o.field n 52 4 = (payload n).length
      ∧ Contiguous (a + (payload n).length) ns

def VersionsIncrease (ns : List (List UInt8)) : Prop :=
  ns.Pairwise fun n n' => o.field n 16 4 < o.field n' 16 4

end Fields

structure LaidOut (t : Target) (content : List UInt8) (ino : UInt32) (blocks : List (List UInt8))
    (nodes : List (List (List UInt8))) (eof : List UInt8) : Prop where
  isBlock : List.Forall₂ (IsBlock t) blocks nodes
  eof_length : eof.length = t.erasesize
  eof_begins : eof.take 4 = jffs2Eof
  contiguous : Contiguous t.order 0 (fileNodes t.order ino nodes.flatten)
  content_eq : (fileNodes t.order ino nodes.flatten).flatMap payload = content

/-! ## What the writer makes -/

theorem crc32_eq (val : BitVec 32) (ss : List UInt8) : crc32 val ss = Crc.crc crc32Poly val ss := by
  have hturn : (fun (val : BitVec 32) (s : UInt8) =>
      crc32Table.getD ((val ^^^ s.toBitVec.setWidth 32) &&& 0xff#32).toNat 0 ^^^ (val >>> 8))
      = Crc.byte crc32Poly := by
    funext val s
    exact crc32Table_step val s
  rw [crc32, hturn, Crc.crc]

variable {o : ByteOrder}

theorem cleanmarker_isNode (o : ByteOrder) : IsNode o (cleanmarker o) := by
  cases o with
  | little => exact ⟨by decide, by decide, by decide +kernel⟩
  | big => exact ⟨by decide, by decide, by decide +kernel⟩

@[simp] theorem length_cleanmarker (o : ByteOrder) : (cleanmarker o).length = 12 := by
  cases o <;> rfl

theorem take_record (nodetype totlen : ℕ) (rest : List (ℕ × ℕ)) (tail : List UInt8) :
    (o.record ((2, magicBitmask) :: (2, nodetype) :: (4, totlen) :: rest) ++ tail).take 8
      = o.record [(2, magicBitmask), (2, nodetype), (4, totlen)] := by
  have hsplit : o.record ((2, magicBitmask) :: (2, nodetype) :: (4, totlen) :: rest)
      = o.record [(2, magicBitmask), (2, nodetype), (4, totlen)] ++ o.record rest := by
    show flatMap _ ([(2, magicBitmask), (2, nodetype), (4, totlen)] ++ rest) = _
    rw [flatMap_append]
    rfl
  rw [hsplit, append_assoc]
  exact take_left' (o.length_record _)

theorem isNode_of_fields {nodetype totlen hdrCrc : ℕ} {rest rest' : List (ℕ × ℕ)}
    {tail : List UInt8} (hlen : recordSize rest + 12 + tail.length = totlen) (hlt : totlen < 2 ^ 32)
    (hcrc : hdrCrc = crcOf o 8 ((2, magicBitmask) :: (2, nodetype) :: (4, totlen) :: rest')) :
    IsNode o (o.record ((2, magicBitmask) :: (2, nodetype) :: (4, totlen) :: (4, hdrCrc) :: rest)
      ++ tail) := by
  refine ⟨?_, ?_, ?_⟩
  · exact (o.field_record (i := 0) rfl rfl tail).trans (by decide)
  · refine (o.field_record (i := 2) rfl rfl tail).trans ((mod_eq_of_lt hlt).trans ?_)
    rw [length_append, o.length_record, recordSize, recordSize, recordSize, recordSize]
    omega
  · have htake := take_record (o := o) nodetype totlen rest' []
    rw [append_nil] at htake
    rw [take_record, ← crc32_eq]
    refine (o.field_record (i := 3) rfl rfl tail).trans ?_
    rw [hcrc, crcOf, htake]
    exact mod_eq_of_lt (BitVec.isLt _)

theorem recordSize_rawDirent (de : RawDirent) (hdrCrc nodeCrc nameCrc : ℕ) :
    recordSize (de.layout hdrCrc nodeCrc nameCrc) = direntSize := by
  simp only [RawDirent.layout, recordSize, reduceAdd, direntSize]

theorem recordSize_rawInode (ri : RawInode) (hdrCrc nodeCrc : ℕ) :
    recordSize (ri.layout hdrCrc nodeCrc) = inodeSize := by
  simp only [layout, recordSize, reduceAdd, inodeSize]

theorem length_rawDirent_node (o : ByteOrder) (de : RawDirent) :
    (de.node o).length = direntSize + de.name.length := by
  rw [RawDirent.node, length_append, o.length_record, recordSize_rawDirent]

theorem rawDirent_isNode (o : ByteOrder) (de : RawDirent) (h : de.name.length ≤ 255) :
    IsNode o (de.node o) := by
  refine isNode_of_fields ?_ (by unfold direntSize; omega) rfl
  simp only [recordSize, reduceAdd, direntSize]

theorem rawDirent_nodetype (o : ByteOrder) (de : RawDirent) :
    o.field (de.node o) 2 2 = nodetypeDirent := by
  have h (c d e : ℕ) : o.field (o.record (de.layout c d e) ++ de.name) 2 2
      = nodetypeDirent % 256 ^ 2 := o.field_record (i := 1) rfl rfl de.name
  exact (h _ _ _).trans (by decide)

theorem length_rawInode_bytes (o : ByteOrder) (ri : RawInode) :
    (ri.bytes o).length = inodeSize := by
  rw [RawInode.bytes, o.length_record, recordSize_rawInode]

theorem rawInode_isNode (o : ByteOrder) (ri : RawInode) (data : List UInt8)
    (hlen : ri.totlen = inodeSize + data.length) (hlt : data.length ≤ 4096) :
    IsNode o (ri.bytes o ++ data) := by
  refine isNode_of_fields ?_ (by unfold inodeSize at hlen; omega) rfl
  simp only [recordSize, reduceAdd, hlen, inodeSize]

section Inode

variable (o) (ri : RawInode) (data : List UInt8)

theorem rawInode_field {i n v a : ℕ} (hi : ∀ c d, (ri.layout c d)[i]? = some (n, v))
    (ha : ∀ c d, recordSize ((ri.layout c d).take i) = a) :
    o.field (ri.bytes o ++ data) a n = v % 256 ^ n :=
  o.field_record (hi _ _) (ha _ _) data

theorem rawInode_nodetype : o.field (ri.bytes o ++ data) 2 2 = nodetypeInode :=
  (rawInode_field o ri data (i := 1) (fun _ _ => rfl) (fun _ _ => by simp [layout,
    recordSize])).trans (by decide)

theorem rawInode_ino : o.field (ri.bytes o ++ data) 12 4 = ri.ino % 2 ^ 32 :=
  rawInode_field o ri data (i := 4) (fun _ _ => rfl) fun _ _ => by
    simp [layout, recordSize]

theorem rawInode_version : o.field (ri.bytes o ++ data) 16 4 = ri.version % 2 ^ 32 :=
  rawInode_field o ri data (i := 5) (fun _ _ => rfl) fun _ _ => by
    simp [layout, recordSize]

theorem rawInode_offset : o.field (ri.bytes o ++ data) 44 4 = ri.offset % 2 ^ 32 :=
  rawInode_field o ri data (i := 13) (fun _ _ => rfl) fun _ _ => by
    simp [layout, recordSize]

theorem rawInode_dsize : o.field (ri.bytes o ++ data) 52 4 = ri.dsize % 2 ^ 32 :=
  rawInode_field o ri data (i := 15) (fun _ _ => rfl) fun _ _ => by
    simp [layout, recordSize]

theorem payload_rawInode : payload (ri.bytes o ++ data) = data := by
  rw [payload, drop_left' (length_rawInode_bytes o ri)]

end Inode

/-! ## The nodes of a file -/

def pieceNode (o : ByteOrder) (st : Stat) (inode version : UInt32) (fOffset : ℕ)
    (wbuf : List UInt8) : List UInt8 :=
  (pieceInode st inode version fOffset wbuf).bytes o ++ wbuf

def pieceNodes (o : ByteOrder) (st : Stat) (inode : UInt32) :
    UInt32 → ℕ → List (List UInt8) → List (List UInt8)
  | _, _, [] => []
  | version, fOffset, wbuf :: pieces =>
    pieceNode o st inode (version + 1) fOffset wbuf
      :: pieceNodes o st inode (version + 1) (fOffset + wbuf.length) pieces

section Pieces

variable (o) (st : Stat) (inode version : UInt32) (fOffset : ℕ)

theorem pieceNodes_concat (pieces : List (List UInt8)) (wbuf : List UInt8) :
    pieceNodes o st inode version fOffset (pieces ++ [wbuf])
      = pieceNodes o st inode version fOffset pieces
        ++ [pieceNode o st inode (version + UInt32.ofNat pieces.length + 1)
          (fOffset + pieces.flatten.length) wbuf] := by
  induction pieces generalizing version fOffset with
  | nil => simp [pieceNodes]
  | cons w pieces ih =>
    have hversion : version + 1 + UInt32.ofNat pieces.length
        = version + UInt32.ofNat (w :: pieces).length := by
      rw [length_cons, UInt32.ofNat_add, UInt32.add_assoc, UInt32.add_comm 1]
      rfl
    have hoffset : fOffset + w.length + pieces.flatten.length
        = fOffset + (w :: pieces).flatten.length := by
      rw [flatten_cons, length_append, add_assoc]
    rw [cons_append, pieceNodes, ih, hversion, hoffset, pieceNodes, cons_append]

theorem flatMap_payload_pieceNodes (pieces : List (List UInt8)) :
    (pieceNodes o st inode version fOffset pieces).flatMap payload = pieces.flatten := by
  induction pieces generalizing version fOffset with
  | nil => rfl
  | cons w pieces ih =>
    rw [pieceNodes, flatMap_cons, ih, pieceNode, payload_rawInode, flatten_cons]

theorem contiguous_pieceNodes {fOffset : ℕ} {pieces : List (List UInt8)}
    (h : fOffset + pieces.flatten.length < 2 ^ 32) :
    Contiguous o fOffset (pieceNodes o st inode version fOffset pieces) := by
  induction pieces generalizing version fOffset with
  | nil => exact trivial
  | cons w pieces ih =>
    rw [flatten_cons, length_append, ← add_assoc] at h
    refine ⟨?_, ?_, ?_⟩
    · exact (rawInode_offset ..).trans (mod_eq_of_lt (by show fOffset < _; omega))
    · rw [pieceNode, payload_rawInode, rawInode_dsize]
      exact mod_eq_of_lt (by show w.length < _; omega)
    · rw [pieceNode, payload_rawInode]
      exact ih (version + 1) h

theorem isFileNode_pieceNode (w : List UInt8) :
    isFileNode o inode (pieceNode o st inode version fOffset w) = true := by
  rw [isFileNode, pieceNode, rawInode_nodetype, rawInode_ino, Bool.and_eq_true, beq_iff_eq,
    beq_iff_eq]
  exact ⟨rfl, mod_eq_of_lt inode.toNat_lt⟩

theorem version_pieceNode (w : List UInt8) :
    o.field (pieceNode o st inode version fOffset w) 16 4 = version.toNat :=
  (rawInode_version ..).trans (mod_eq_of_lt version.toNat_lt)

theorem toNat_succ_of_lt {v : UInt32} (h : v.toNat + 1 < 2 ^ 32) : (v + 1).toNat = v.toNat + 1 := by
  rw [UInt32.toNat_add]
  exact mod_eq_of_lt h

theorem versionsIncrease_pieceNodes_iff (pieces : List (List UInt8)) :
    VersionsIncrease o (pieceNodes o st inode version fOffset pieces)
      ↔ (version + 1).toNat + pieces.length ≤ 2 ^ 32 := by
  induction pieces generalizing version fOffset with
  | nil => exact iff_of_true .nil (version + 1).toNat_lt.le
  | cons w pieces ih =>
    have hlt := (version + 1).toNat_lt
    cases pieces with
    | nil =>
      refine iff_of_true (pairwise_singleton ..) ?_
      rw [length_singleton]
      omega
    | cons w' pieces =>
      specialize ih (version + 1) (fOffset + w.length)
      have hnext : (version + 1 + 1).toNat = ((version + 1).toNat + 1) % 2 ^ 32 :=
        UInt32.toNat_add _ _
      rw [length_cons]
      constructor
      · intro h
        obtain ⟨hhead, hrest⟩ := pairwise_cons.mp h
        have hfirst := hhead _ mem_cons_self
        rw [version_pieceNode, version_pieceNode] at hfirst
        have hle := ih.mp hrest
        omega
      · intro h
        rw [length_cons] at h ih
        have hsucc := toNat_succ_of_lt (v := version + 1) (by omega)
        have hrest := ih.mpr (by omega)
        refine pairwise_cons.mpr ⟨fun n hn => ?_, hrest⟩
        have hfirst : o.field (pieceNode o st inode (version + 1) fOffset w) 16 4
            < o.field (pieceNode o st inode (version + 1 + 1) (fOffset + w.length) w') 16 4 := by
          rw [version_pieceNode, version_pieceNode]
          omega
        rcases mem_cons.mp hn with rfl | hn
        · exact hfirst
        · exact hfirst.trans ((pairwise_cons.mp hrest).1 n hn)

end Pieces

end Jffs2
