import RouterFirmware.Jffs2Layout

/-!
# A file appended to a jffs2 file system

Both entry points of `jffs2.c` end alike: the file is added, the block is
filled up, and a block with the mark of the end follows.
-/

namespace Jffs2

open List Nat UInt32 Bool Turn MtdDevice

def Appended (t : Target) (content : List UInt8) (ino version : UInt32) (count : ℕ)
    (before after : List UInt8) : Prop :=
  ∃ blocks nodes eof, after = before ++ (blocks ++ [eof]).flatten
    ∧ LaidOut t content ino blocks nodes eof
    ∧ (VersionsIncrease t.order (fileNodes t.order ino nodes.flatten)
      ↔ version.toNat + count ≤ 2 ^ 32)

/-! ## The end of the file system -/

section Eof

theorem Holds.addEof {t : Target} {start s : Writer} {ns : List (List UInt8)}
    (h : Holds t start s ns) (hpos : 0 < s.ofs) :
    ∃ blocks nodes eof, Flushed t start (s.addEof t) (blocks ++ [eof])
      ∧ List.Forall₂ (IsBlock t) blocks nodes
      ∧ nodes.flatten.filter (· ≠ cleanmarker t.order) = ns
      ∧ eof.length = t.erasesize ∧ eof.take 4 = jffs2Eof ∧ (s.addEof t).ofs = 0 := by
  obtain ⟨hpad, hzero⟩ := h.padBlock hpos
  have hE := t.le_erasesize
  have hlen : jffs2Eof.length = 4 := rfl
  unfold Writer.addEof
  generalize s.pad t t.erasesize = s₁ at hpad hzero
  obtain ⟨blocks, nodes, cur, hflushed, hblocks, hfilled, hns⟩ := hpad
  obtain rfl : cur = [] := hfilled.eq_nil hzero
  rw [Writer.addData_eq (by omega)]
  have hofs₂ : (s₁.copyIn jffs2Eof).ofs = 4 := by rw [Writer.copyIn, hzero, hlen]
  have hslice₂ : (s₁.copyIn jffs2Eof).buf.slice 0 4 = jffs2Eof := by
    rw [← hofs₂, Writer.slice_copyIn, hfilled.slice_eq]
    rfl
  have hflushed₂ : Flushed t start (s₁.copyIn jffs2Eof) blocks := hflushed.congr ⟨rfl, rfl, rfl⟩
  generalize s₁.copyIn jffs2Eof = s₂ at hofs₂ hslice₂ hflushed₂
  have hpadding : padding t.erasesize s₂.ofs = t.erasesize - 4 := by
    have hmod : s₂.ofs % t.erasesize = 4 := by rw [hofs₂, mod_eq_of_lt (by omega)]
    rw [padding_of_not_dvd (by omega), hmod]
  rw [Writer.pad_eq (dvd_refl _) (by omega) (by omega), hpadding]
  have hofs₃ : (s₂.copyIn (replicate (t.erasesize - 4) 0xff)).ofs = t.erasesize := by
    rw [Writer.copyIn, length_replicate, hofs₂]
    exact Nat.add_sub_cancel' (by omega)
  have hslice₃ := s₂.slice_copyIn (replicate (t.erasesize - 4) 0xff)
  have hflushed₃ : Flushed t start
      ({ s₂.copyIn (replicate (t.erasesize - 4) 0xff) with ofs := 0 } : Writer) blocks :=
    hflushed₂.congr ⟨rfl, rfl, rfl⟩
  rw [hofs₃, hofs₂, hslice₂] at hslice₃
  rw [append_nil] at hns
  rw [Writer.wrap_of_eq hofs₃]
  refine ⟨blocks, nodes, _, hflushed₃.flush, hblocks, hns, Memory.length_slice .., ?_, rfl⟩
  show (Memory.slice _ 0 t.erasesize).take 4 = jffs2Eof
  rw [hslice₃]
  exact take_left' hlen

end Eof

/-! ## The data have room -/

variable {t : Target}

theorem length_flatten_le {blocks : List (List UInt8)} {nodes : List (List (List UInt8))}
    (h : List.Forall₂ (IsBlock t) blocks nodes) :
    nodes.flatten.flatten.length ≤ t.erasesize * blocks.length := by
  induction h with
  | nil => exact zero_le _
  | cons hblock _ ih =>
    have hle := hblock.nodes.length_le (zero_le _)
    rw [hblock.length_eq] at hle
    rw [flatten_cons, flatten_append, length_append, length_cons, mul_succ]
    omega

theorem length_flatMap_payload_le (o : ByteOrder) (ino : UInt32) (ns : List (List UInt8)) :
    ((fileNodes o ino ns).flatMap payload).length ≤ ns.flatten.length := by
  induction ns with
  | nil => exact le_refl _
  | cons n ns ih =>
    have hle : (payload n).length ≤ n.length := by
      rw [payload, length_drop]
      exact sub_le ..
    rw [fileNodes, filter_cons, flatten_cons, length_append]
    split_ifs
    · rw [flatMap_cons, length_append]
      exact Nat.add_le_add hle ih
    · exact ih.trans (Nat.le_add_left ..)

theorem isFileNode_cleanmarker (o : ByteOrder) (ino : UInt32) :
    isFileNode o ino (cleanmarker o) = false := by
  have hnodetype : (o.field (cleanmarker o) 2 2 == nodetypeInode) = false := by
    cases o <;> decide
  rw [isFileNode, hnodetype, Bool.false_and]

theorem fileNodes_filter (o : ByteOrder) (ino : UInt32) (ns : List (List UInt8)) :
    fileNodes o ino (ns.filter (· ≠ cleanmarker o)) = fileNodes o ino ns := by
  rw [fileNodes, filter_filter]
  refine filter_congr fun n _ => ?_
  by_cases hn : n = cleanmarker o
  · rw [hn, isFileNode_cleanmarker, Bool.false_and]
  · simp [hn]

variable {s : Writer}

theorem Holds.appended {start : Writer} {ns pieces : List (List UInt8)} {st : Stat}
    {ino version : UInt32} (h : Holds t start s ns) (hpos : 0 < s.ofs)
    (hfile : fileNodes t.order ino ns = pieceNodes t.order st ino version 0 pieces)
    (hok : (s.addEof t).failed = false) :
    Appended t pieces.flatten ino (version + 1) pieces.length start.outfd.written
      (s.addEof t).outfd.written := by
  obtain ⟨blocks, nodes, eof, hflushed, hblocks, hns, hlength, hbegins, _⟩ := h.addEof hpos
  obtain ⟨hwritten, hsize⟩ := hflushed.written hok
  have hnodes : fileNodes t.order ino nodes.flatten
      = pieceNodes t.order st ino version 0 pieces := by
    rw [← hfile, ← hns, fileNodes_filter]
  have hcontent : (fileNodes t.order ino nodes.flatten).flatMap payload = pieces.flatten := by
    rw [hnodes, flatMap_payload_pieceNodes]
  -- the offsets have 32 bits, and the partition is smaller than that
  have hroom : pieces.flatten.length < 2 ^ 32 := by
    have hdata := length_flatMap_payload_le t.order ino nodes.flatten
    have hfits := length_flatten_le hblocks
    have hmtdofs := hflushed.mtdofs_eq
    have hdev := (s.addEof t).outfd.dev.size_le
    have hle := hsize.resolve_left (by simp)
    rw [hcontent] at hdata
    rw [length_append, length_singleton, mul_succ] at hmtdofs
    unfold intMax at hdev
    omega
  refine ⟨blocks, nodes, eof, hwritten, ⟨hblocks, hlength, hbegins, ?_, hcontent⟩, ?_⟩
  · rw [hnodes]
    exact contiguous_pieceNodes _ _ _ _ (by rwa [zero_add])
  · rw [hnodes]
    exact versionsIncrease_pieceNodes_iff ..

/-! ## The file behind an image -/

theorem holds_nil (hofs : s.ofs = 0)
    (hdev : s.outfd.dev.erasesize = t.erasesize) : Holds t s s [] := by
  have hE := t.le_erasesize
  refine ⟨[], [], [], ⟨hdev, rfl, ?_, fun _ => ⟨?_, .inl rfl⟩⟩, .nil,
    ⟨?_, by omega, nofun, .inl rfl⟩, rfl⟩
  · exact (add_zero _).symm
  · exact (append_nil _).symm
  · rw [hofs]
    rfl

namespace Writer

variable (t s)

def fileIno : UInt32 := s.startIno.lastIno + if s.targetIno = 0 then 3 else 1

def firstVersion : UInt32 := s.lastVersion + if s.targetIno = 0 then 3 else 2

def dataNodes (file : SourceFile) (content : List UInt8) (dir : CString) : ℕ :=
  pieceCount t file.more (2 * content.length + 3)
    (direntEnd (if s.targetIno = 0 then nodeEnd (direntEnd 0 dir.length + inodeSize) else 0)
      file.fname.length) 0 content.length

variable {t s} {dir : CString}

theorem addMissingDir_holds (hofs : s.ofs = 0)
    (hdev : s.outfd.dev.erasesize = t.erasesize) (hdir : dir.length ≤ 255) :
    ∃ s' ns, s.addMissingDir t dir = s' ∧ Holds t s s' ns
      ∧ fileNodes t.order (s'.lastIno + 1) ns = []
      ∧ s'.ofs = (if s.targetIno = 0 then nodeEnd (direntEnd 0 dir.length + inodeSize) else 0)
      ∧ s'.lastIno = s.lastIno + (if s.targetIno = 0 then 2 else 0)
      ∧ s'.lastVersion = s.lastVersion + (if s.targetIno = 0 then 1 else 0) := by
  have hstart := holds_nil hofs hdev
  by_cases htarget : s.targetIno = 0
  · obtain ⟨ino, s', ns, heq, hino, hholds, hfile, hend, hcounters⟩ :=
      addDir_holds hstart hdir hofs 1
    have hlast : s'.lastIno = s.lastIno + 2 := congrArg (·.1) hcounters
    refine ⟨_, ns, rfl, ?_, ?_, ?_, ?_, ?_⟩ <;> rw [addMissingDir, if_pos htarget, heq]
    · exact hholds.congr ⟨rfl, rfl, rfl⟩ rfl rfl
    · refine hfile _ ?_
      show s'.lastIno + 1 ≠ ino
      rw [hlast, hino, add_assoc]
      intro h
      exact absurd ((add_right_inj _).mp h) (by decide)
    · rw [if_pos htarget]
      exact hend
    · rw [if_pos htarget]
      exact hlast
    · rw [if_pos htarget]
      exact congrArg (·.2.1) hcounters
  · refine ⟨s, [], ?_, hstart, rfl, ?_, ?_, ?_⟩
    · rw [addMissingDir, if_neg htarget]
    · rw [if_neg htarget, hofs]
    · rw [if_neg htarget]
      exact (add_zero _).symm
    · rw [if_neg htarget]
      exact (add_zero _).symm

variable {content : List UInt8} {file : SourceFile} {fuel : ℕ} {st : Stat}

theorem addFile_appended (hofs : s.ofs = 0)
    (hdev : s.outfd.dev.erasesize = t.erasesize) (hstat : file.stat = some st)
    (hdata : file.data = some content) (hname : file.fname.length ≤ 255) (hdir : dir.length ≤ 255)
    (parent : UInt32) (hstart : s.startIno = s) :
    ∃ s', (((s.addMissingDir t dir).addFile t file parent).map fun s₂ => s₂.addEof t) = some s'
      ∧ s'.ofs = 0
      ∧ (s'.failed = false → Appended t content s.fileIno s.firstVersion
        (s.dataNodes t file content dir) s.outfd.written s'.outfd.written) := by
  obtain ⟨s₁, ns₁, heq₁, hholds₁, hfresh, hofs₁, hino, hversion⟩ :=
    addMissingDir_holds hofs hdev hdir
  have hroom : max s₁.ofs 12 ≤ 3000 := by
    have hend := (direntEnd_le 0 hdir).2
    have hlast := (nodeEnd_le (direntEnd 0 dir.length + inodeSize)).2
    unfold inodeSize at hlast hofs₁
    rw [hofs₁]
    split_ifs <;> omega
  obtain ⟨s₂, ns₂, pieces, heq₂, hholds₂, hpos, hfile, rfl, hcount⟩ :=
    addFile_holds hholds₁ hstat hdata hname hroom hfresh parent
  obtain ⟨_, _, _, _, _, _, _, _, hzero⟩ := hholds₂.addEof hpos
  have hfileIno : s.fileIno = s₁.lastIno + 1 := by
    rw [fileIno, hstart, hino]
    split_ifs
    · rw [add_assoc]
      rfl
    · rw [add_zero]
  have hfirst : s.firstVersion = s₁.lastVersion + 1 + 1 := by
    rw [firstVersion, hversion]
    split_ifs
    · rw [add_assoc, add_assoc]
      rfl
    · rw [add_zero, add_assoc]
      rfl
  refine ⟨s₂.addEof t, ?_, hzero, fun hok => ?_⟩
  · rw [heq₁, heq₂]
    rfl
  · rw [hfileIno, hfirst, dataNodes, ← hofs₁, ← hcount]
    exact hholds₂.appended hpos hfile hok

theorem startIno_startIno (s : Writer) : s.startIno.startIno = s.startIno := by
  have h : s.startIno.lastIno ≠ 0 := by
    rw [startIno]
    split_ifs with h
    · exact show (1 : UInt32) ≠ 0 by decide
    · exact h
  rw [startIno, if_neg h]

theorem mtdReplaceJffs2_appended {fd : MtdFd} (hofs : s.ofs = 0)
    (hdev : fd.dev.erasesize = t.erasesize)
    (hstat : file.stat = some st) (hdata : file.data = some content)
    (hname : file.fname.length ≤ 255) (malloced : Bytes) (mtdofs : ℕ) :
    ∃ s', s.mtdReplaceJffs2 t malloced fd mtdofs file = some s' ∧ s'.ofs = 0
      ∧ (s'.failed = false → Appended t content (s.startIno.lastIno + 1) (s.lastVersion + 2)
        (pieceCount t file.more (2 * content.length + 3) (direntEnd 0 file.fname.length) 0
          content.length) fd.written s'.outfd.written) := by
  let s₁ : Writer :=
    { s with outfd := fd, mtdofs := mtdofs, buf := malloced, targetIno := 1, failed := false }
  have htarget : ¬ s₁.startIno.targetIno = 0 := show ¬ (1 : UInt32) = 0 by decide
  have hdir : (⟨[], nofun⟩ : CString).length ≤ 255 := zero_le _
  have h := addFile_appended (s := s₁.startIno) hofs hdev hstat hdata hname hdir 1
    (startIno_startIno s₁)
  rw [addMissingDir, if_neg htarget, fileIno, startIno_startIno, if_neg htarget, firstVersion,
    if_neg htarget, dataNodes, if_neg htarget] at h
  exact h

/-! ## The file behind a file system -/

theorem mtdParseJffs2data_outfd {s' : Writer}
    (h : s.mtdParseJffs2data t dir fuel = some s') : s'.outfd = s.outfd := by
  refine Loop.post_of_ends (fun p => p.2.outfd = s.outfd) (·.outfd = s.outfd) ?_ ?_ rfl ⟨fuel, h⟩
  · rintro ⟨ofs, s₁⟩ ⟨ofs', s₂⟩ hs₁ hturn
    rw [parseTurn] at hturn
    split_ifs at hturn with hmagic htype
    · obtain ⟨_, rfl⟩ := Prod.mk.inj (again.inj hturn)
      exact hs₁
    · obtain ⟨_, rfl⟩ := Prod.mk.inj (again.inj hturn)
      exact hs₁
  · rintro ⟨ofs, s₁⟩ r hs₁ hturn
    rw [parseTurn] at hturn
    split_ifs at hturn
    rw [← leave.inj hturn]
    exact hs₁

def Scanned.writer : Scanned → Writer
  | .noRoom s => s
  | .wrongEndian s => s
  | .found s => s

theorem scan_keeps {r : Scanned} (h : scan t dir fuel s = some r) :
    r.writer.outfd.dev = s.outfd.dev ∧ r.writer.outfd.written = s.outfd.written := by
  induction fuel generalizing s with
  | zero => exact absurd h nofun
  | succ fuel ih =>
    rw [scan] at h
    split_ifs at h with hroom
    · simp only at h
      split_ifs at h with hwrong hmagic
      · rw [← Option.some.inj h]
        exact ⟨rfl, rfl⟩
      · obtain ⟨s₁, hparse, hscan⟩ := Option.bind_eq_some_iff.mp h
        obtain ⟨hdev, hwritten⟩ := ih hscan
        rw [hdev, hwritten, mtdParseJffs2data_outfd hparse]
        exact ⟨rfl, rfl⟩
      · rw [← Option.some.inj h]
        exact ⟨rfl, rfl⟩
    · rw [← Option.some.inj h]
      exact ⟨rfl, rfl⟩

theorem jumpBack_keeps (s : Writer) :
    (s.jumpBack t).outfd.dev = s.outfd.dev ∧ (s.jumpBack t).outfd.written = s.outfd.written := by
  simp only [jumpBack]
  split_ifs <;> exact ⟨rfl, rfl⟩

theorem append_appended (hdev : s.outfd.dev.erasesize = t.erasesize) (hstat : file.stat = some st)
    (hdata : file.data = some content) (hname : file.fname.length ≤ 255) (hdir : dir.length ≤ 255) :
    ∃ s', s.append t file dir = some s' ∧ s'.ofs = 0
      ∧ (s'.failed = false → Appended t content s.fileIno s.firstVersion
        (s.dataNodes t file content dir) s.outfd.written s'.outfd.written) := by
  obtain ⟨hback, hwritten⟩ := jumpBack_keeps (t := t) s
  have h := addFile_appended (s := (s.jumpBack t).startIno) rfl (by rw [← hdev, ← hback]; rfl) hstat
    hdata hname hdir ((s.jumpBack t).startIno.addMissingDir t dir).targetIno (startIno_startIno _)
  rw [fileIno, startIno_startIno] at h
  rw [← hwritten]
  exact h

variable (s) in
def opened (fd : MtdFd) (malloced : Bytes) (dir : CString) : Writer :=
  { s with
    outfd := fd, buf := malloced, failed := false
    targetIno := if dir.bytes.isEmpty then 1 else s.targetIno }

theorem mtdWriteJffs2_eq (fuel : ℕ) (fd : MtdFd) (malloced : Bytes) (file : SourceFile)
    (dir : CString) : s.mtdWriteJffs2 t fuel (some fd) (some malloced) file dir
    = match scan t dir fuel (s.opened fd malloced dir) with
      | none => none
      | some (.noRoom s₂) => some (-1, s₂)
      | some (.wrongEndian s₂) => some (-1, s₂)
      | some (.found s₂) => (s₂.append t file dir).map fun s₃ => (0, s₃) := rfl

theorem mtdWriteJffs2_appended {fd : MtdFd}
    {malloced : Bytes} (hdev : fd.dev.erasesize = t.erasesize) (file : SourceFile)
    (hstat : file.stat = some st) (hdata : file.data = some content)
    (hname : file.fname.length ≤ 255) (hdir : dir.length ≤ 255) {w : Writer}
    (hscan : scan t dir fuel (s.opened fd malloced dir) = some (.found w)) :
    ∃ s', s.mtdWriteJffs2 t fuel (some fd) (some malloced) file dir = some (0, s') ∧ s'.ofs = 0
      ∧ (s'.failed = false → Appended t content w.fileIno w.firstVersion
        (w.dataNodes t file content dir) fd.written s'.outfd.written) := by
  obtain ⟨hsame, hwritten⟩ := scan_keeps hscan
  have hw : w.outfd.dev.erasesize = t.erasesize := (congrArg erasesize hsame).trans hdev
  obtain ⟨s', heq, hofs, happended⟩ := append_appended hw hstat hdata hname hdir
  refine ⟨s', ?_, hofs, fun hok => ?_⟩
  · rw [mtdWriteJffs2_eq, hscan]
    simp only [heq]
    rfl
  · rw [show fd.written = w.outfd.written from hwritten.symm]
    exact happended hok

theorem mtdWriteJffs2_failure {fd : MtdFd} {s' : Writer} {malloced : Bytes} {e : ℤ}
    (h : s.mtdWriteJffs2 t fuel (some fd) (some malloced) file dir = some (e, s')) (he : e ≠ 0) :
    s'.outfd.written = fd.written := by
  rw [mtdWriteJffs2_eq] at h
  split at h
  case h_1 => exact absurd h nofun
  case h_2 s₂ hscan =>
    obtain ⟨_, rfl⟩ := Prod.mk.inj (Option.some.inj h)
    exact (scan_keeps hscan).2
  case h_3 s₂ hscan =>
    obtain ⟨_, rfl⟩ := Prod.mk.inj (Option.some.inj h)
    exact (scan_keeps hscan).2
  case h_4 s₂ hscan =>
    obtain ⟨s₃, _, heq⟩ := Option.map_eq_some_iff.mp h
    exact absurd (congrArg Prod.fst heq).symm he

/-! ## Both entry points -/

/-- **What both entry points leave on the flash**, if every erase and every
write goes through. The file is laid out as it should be. Its versions increase
exactly if the counter of versions does not overflow. -/
theorem appended_of_not_failed (t : Target) (file : SourceFile) {st : Stat} {content : List UInt8}
    (hstat : file.stat = some st) (hdata : file.data = some content)
    (hname : file.fname.length ≤ 255) (s : Writer) (fd : MtdFd)
    (hdev : fd.dev.erasesize = t.erasesize) (malloced : Bytes) :
    (s.ofs = 0 → ∀ mtdofs, ∃ s', s.mtdReplaceJffs2 t malloced fd mtdofs file = some s' ∧ s'.ofs = 0
      ∧ (s'.failed = false → Appended t content (s.startIno.lastIno + 1) (s.lastVersion + 2)
        (pieceCount t file.more (2 * content.length + 3) (direntEnd 0 file.fname.length) 0
          content.length) fd.written s'.outfd.written))
      ∧ ∀ dir : CString, dir.length ≤ 255 → ∀ fuel,
        (∀ w, scan t dir fuel (s.opened fd malloced dir) = some (.found w) →
          ∃ s', s.mtdWriteJffs2 t fuel (some fd) (some malloced) file dir = some (0, s')
            ∧ s'.ofs = 0
            ∧ (s'.failed = false → Appended t content w.fileIno w.firstVersion
              (w.dataNodes t file content dir) fd.written s'.outfd.written))
        ∧ ∀ e s', s.mtdWriteJffs2 t fuel (some fd) (some malloced) file dir = some (e, s') →
          e ≠ 0 → s'.outfd.written = fd.written := by
  refine ⟨fun hofs mtdofs => ?_, fun dir hdir fuel => ⟨fun w hscan => ?_, fun e s' h he => ?_⟩⟩
  · exact mtdReplaceJffs2_appended hofs hdev hstat hdata hname malloced mtdofs
  · exact mtdWriteJffs2_appended hdev file hstat hdata hname hdir hscan
  · exact mtdWriteJffs2_failure h he

def smallTarget : Target where
  order := .little
  erasesize := 4096
  le_erasesize := le_refl _
  dvd_erasesize := by decide
  erasesize_le := by decide

def smallDevice (bytes : List UInt8) : MtdDevice :=
  { reliable 4096 4 (by decide) (by decide) (by decide) (fun _ => false) with
    flash := fun a => bytes.getD a 0 }

def initialWriter (bytes : List UInt8) : Writer where
  lastIno := 0
  lastVersion := 0
  buf := fun _ => 0
  ofs := 0
  outfd := (smallDevice bytes).opened
  mtdofs := 0
  targetIno := 0
  failed := false

def smallFile (content : List UInt8) : SourceFile where
  name := ⟨[97], by decide⟩
  stat := some ⟨0o100644, 0, 0, 0, content.length⟩
  data := some content
  more := fun _ => 4095

def rootDir : CString := ⟨[], nofun⟩

def Scanned.isFound (p : Writer → Bool) : Scanned → Bool
  | .noRoom _ => false
  | .wrongEndian _ => false
  | .found s => p s

theorem exists_of_isFound {p : Writer → Bool} {r : Option Scanned}
    (h : r.elim false (Scanned.isFound p) = true) : ∃ w, r = some (.found w) ∧ p w = true := by
  match r, h with
  | some (.found w), h => exact ⟨w, rfl, h⟩

theorem appended_of_not_failed_threeBytes :
    (∃ s', (initialWriter []).mtdReplaceJffs2 smallTarget (fun _ => 0) (smallDevice []).opened 0
          (smallFile [1, 2, 3]) = some s'
        ∧ Appended smallTarget [1, 2, 3] 2 2 1 [] s'.outfd.written)
      ∧ ∃ s', (initialWriter []).mtdWriteJffs2 smallTarget 1 (some (smallDevice []).opened)
          (some fun _ => 0) (smallFile [1, 2, 3]) rootDir = some (0, s')
        ∧ Appended smallTarget [1, 2, 3] 2 2 1 [] s'.outfd.written := by
  obtain ⟨hreplace, hwrite⟩ := appended_of_not_failed smallTarget (smallFile [1, 2, 3]) rfl rfl
    (by decide) (initialWriter []) (smallDevice []).opened rfl (fun _ => 0)
  refine ⟨?_, ?_⟩
  · obtain ⟨s', heq, _, happended⟩ := hreplace rfl 0
    have hok : ((initialWriter []).mtdReplaceJffs2 smallTarget (fun _ => 0) (smallDevice []).opened
        0 (smallFile [1, 2, 3])).map failed = some false := by decide +kernel
    rw [heq] at hok
    have hcount : pieceCount smallTarget (fun _ => 4095) 9 (direntEnd 0 1) 0 3 = 1 := by decide
    refine ⟨s', heq, ?_⟩
    rw [← hcount]
    exact happended (Option.some.inj hok)
  · obtain ⟨w, hscan, hw⟩ := exists_of_isFound (p := fun w => w.fileIno == 2 && w.firstVersion == 2
        && w.dataNodes smallTarget (smallFile [1, 2, 3]) [1, 2, 3] rootDir == 1)
      (r := scan smallTarget rootDir 1
        ((initialWriter []).opened (smallDevice []).opened (fun _ => 0) rootDir))
      (by decide +kernel)
    obtain ⟨s', heq, _, happended⟩ := (hwrite rootDir (zero_le _) 1).1 w hscan
    have hok : ((initialWriter []).mtdWriteJffs2 smallTarget 1 (some (smallDevice []).opened)
        (some fun _ => 0) (smallFile [1, 2, 3]) rootDir).map (·.2.failed) = some false := by
      decide +kernel
    rw [heq] at hok
    rw [and_eq_true, and_eq_true, beq_iff_eq, beq_iff_eq, beq_iff_eq] at hw
    obtain ⟨⟨hino, hversion⟩, hcount⟩ := hw
    have h := happended (Option.some.inj hok)
    rw [hino, hversion, hcount] at h
    exact ⟨s', heq, h⟩

def lateEntry : RawDirent where
  name := [98]
  type := dtReg
  pino := 1
  version := 0xfffffffd
  ino := 2

def lateWriter : Writer := initialWriter (lateEntry.node .little)

/-- **The versions of the nodes come back to zero**: behind an entry with the
version 0xfffffffd, the two nodes of a file of 5000 bytes get the versions
0xffffffff and 0. -/
theorem mtdWriteJffs2_versions_overflow : ∃ w s' blocks nodes eof,
    scan smallTarget rootDir 3 (lateWriter.opened lateWriter.outfd (fun _ => 0) rootDir)
        = some (.found w)
      ∧ lateWriter.mtdWriteJffs2 smallTarget 3 (some lateWriter.outfd) (some fun _ => 0)
        (smallFile (replicate 5000 0)) rootDir = some (0, s')
      ∧ s'.failed = false ∧ s'.outfd.written = (blocks ++ [eof]).flatten
      ∧ LaidOut smallTarget (replicate 5000 0) w.fileIno blocks nodes eof
      ∧ ¬ VersionsIncrease .little (fileNodes .little w.fileIno nodes.flatten) := by
  obtain ⟨w, hscan, hw⟩ := exists_of_isFound (p := fun w => w.firstVersion == 0xffffffff
      && w.dataNodes smallTarget (smallFile (replicate 5000 0)) (replicate 5000 0) rootDir == 2)
      (r := scan smallTarget rootDir 3 (lateWriter.opened lateWriter.outfd (fun _ => 0) rootDir))
      (by decide +kernel)
  rw [and_eq_true, beq_iff_eq, beq_iff_eq] at hw
  obtain ⟨s', heq, _, happended⟩ := mtdWriteJffs2_appended (t := smallTarget) rfl
    (smallFile (replicate 5000 0)) rfl rfl (by decide) (zero_le _) hscan
  have hok : (lateWriter.mtdWriteJffs2 smallTarget 3 (some lateWriter.outfd) (some fun _ => 0)
      (smallFile (replicate 5000 0)) rootDir).map (·.2.failed) = some false := by
    decide +kernel
  rw [heq] at hok
  obtain ⟨blocks, nodes, eof, hwritten, hlaid, hversions⟩ := happended (Option.some.inj hok)
  refine ⟨w, s', blocks, nodes, eof, hscan, heq, Option.some.inj hok, hwritten, hlaid, ?_⟩
  rw [hw.1, hw.2] at hversions
  exact fun hincrease => absurd (hversions.mp hincrease) (by decide)

end Writer

end Jffs2
