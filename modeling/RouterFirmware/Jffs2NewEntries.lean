import RouterFirmware.Jffs2Entries

/-!
# The directory entries that are appended

Behind a file system whose entries have been noted, `mtd_write_jffs2` appends
an entry for the directory, if it has found none, and one for the file;
`mtd_replace_jffs2` appends one for the file.

A jffs2 driver that mounts the partition takes, of two entries with the same
name, the one with the higher version. So the question is whether the new
entries **supersede** the old ones: whether their inode numbers and versions are
above all that have been noted. The functions take the highest number found and
add one, but they take the highest version as it is. Hence they supersede only
if there is nothing to supersede.

The second part is about the directory under which the file is put. The scan
compares a name only as far as the entry's own name goes, so that any entry
whose name begins the name of the directory is taken for it.
-/

namespace Jffs2

open List RawDirent

namespace Writer

section Made

variable (t : Target) (s : Writer)

/-- **The directory entry that `add_dirent` makes.** -/
def madeDirent (name : CString) (type : ℕ) (parent : UInt32) : RawDirent :=
  ((if s.direntCheck t name then s.pad t t.erasesize else s).prepEraseblock t).dirent name type
    parent

/-- The entries that `add_file` makes: none if there is no such file. -/
def fileDirents (file : SourceFile) (parent : UInt32) : List RawDirent :=
  match file.stat with
  | none => []
  | some _ => [s.madeDirent t file.fname dtReg parent]

/-- The entries that `mtd_write_jffs2` makes where the file system ends. -/
def appendDirents (file : SourceFile) (dir : CString) : List RawDirent :=
  let s₀ := (s.jumpBack t).startIno
  let s₁ := s₀.addMissingDir t dir
  (if s₀.targetIno = 0 then [s₀.madeDirent t dir dtDir 1] else [])
    ++ s₁.fileDirents t file s₁.targetIno

/-- The entries that `mtd_replace_jffs2` makes. -/
def replaceDirents (malloced : Bytes) (fd : MtdFd) (ofs : ℕ) (file : SourceFile) : List RawDirent :=
  let s₁ := { s with outfd := fd, mtdofs := ofs, buf := malloced, targetIno := 1, failed := false }
  s₁.startIno.fileDirents t file 1

variable {t s}

/-- Making room for an entry keeps the counters. -/
theorem counters_prepDirent (name : CString) :
    ((if s.direntCheck t name then s.pad t t.erasesize else s).prepEraseblock t).counters
      = s.counters := by
  rw [counters_prepEraseblock]
  split_ifs
  · exact counters_pad _
  · rfl

/-- **What `add_dirent` does**: the entry is put down in a block with room for
it, and the numbers move on. -/
theorem addDirent_eq (name : CString) (type : ℕ) (parent : UInt32) :
    ∃ s₁ : Writer, s₁.counters = s.counters
      ∧ s.addDirent t name type parent
        = (s₁.lastIno + 1,
          Writer.pad t { s₁ with
            lastIno := s₁.lastIno + 2
            lastVersion := s₁.lastVersion + 1
            buf := s₁.buf.blit s₁.ofs ((s.madeDirent t name type parent).node t.order)
            ofs := s₁.ofs + (direntSize + name.length % 256) } 4) :=
  ⟨_, counters_prepDirent name, rfl⟩

/-- The entry that is made has the numbers from before the room was made. -/
theorem madeDirent_eq (name : CString) (type : ℕ) (parent : UInt32) :
    s.madeDirent t name type parent = s.dirent name type parent := by
  obtain ⟨hino, hversion, -⟩ := counters_eq_iff.mp (counters_prepDirent (t := t) (s := s) name)
  rw [madeDirent, dirent, hino, hversion, dirent]

/-- **A directory takes two inode numbers.** -/
theorem lastIno_addDir (name : CString) (parent : UInt32) :
    (s.addDir t name parent).2.lastIno = s.lastIno + 2 := by
  obtain ⟨s₁, hcounters, heq⟩ := addDirent_eq (t := t) (s := s) name dtDir parent
  have hall : (s.addDir t name parent).2.counters
      = (s₁.lastIno + 2, s₁.lastVersion + 1, s₁.targetIno) := by
    unfold addDir
    rw [heq]
    simp only
    rw [counters_pad, counters_addData, counters_prepEraseblock]
    split_ifs
    all_goals
      simp only [counters_pad]
      rfl
  rw [← (counters_eq_iff.mp hcounters).1]
  exact congrArg Prod.fst hall

/-- There is one entry if the file exists. -/
theorem fileDirents_eq (file : SourceFile) (parent : UInt32) : s.fileDirents t file parent
    = file.stat.toList.map fun _ => s.dirent file.fname dtReg parent := by
  unfold fileDirents
  cases file.stat with
  | none => rfl
  | some st =>
    rw [madeDirent_eq]
    rfl

theorem eq_of_mem_fileDirents {file : SourceFile} {parent : UInt32} {d : RawDirent}
    (hd : d ∈ s.fileDirents t file parent) : d = s.dirent file.fname dtReg parent := by
  rw [fileDirents_eq] at hd
  obtain ⟨-, -, rfl⟩ := mem_map.mp hd
  rfl

theorem fileDirents_eq_nil_iff {file : SourceFile} {parent : UInt32} :
    s.fileDirents t file parent = [] ↔ file.stat = none := by
  rw [fileDirents_eq, map_eq_nil_iff, Option.toList_eq_nil_iff]

theorem nodup_fileDirents (file : SourceFile) (parent : UInt32) :
    ((s.fileDirents t file parent).map ino).Nodup := by
  rw [fileDirents_eq]
  cases file.stat <;> simp

/-- If the directory is known, only the file gets an entry. -/
theorem appendDirents_of_ne (h : s.targetIno ≠ 0) (file : SourceFile) (dir : CString) :
    s.appendDirents t file dir = (s.jumpBack t).startIno.fileDirents t file s.targetIno := by
  have htarget : (s.jumpBack t).startIno.targetIno ≠ 0 := h
  rw [appendDirents, if_neg htarget, addMissingDir, if_neg htarget]
  rfl

/-- If not, the directory gets one first, and the file's number is two above
it. -/
theorem appendDirents_of_eq (h : s.targetIno = 0) (file : SourceFile) (dir : CString) :
    ∃ s₁ : Writer, s₁.lastIno = s.startIno.lastIno + 2
      ∧ s.appendDirents t file dir
        = (s.jumpBack t).startIno.dirent dir dtDir 1 :: s₁.fileDirents t file s₁.targetIno := by
  have htarget : (s.jumpBack t).startIno.targetIno = 0 := h
  refine ⟨(s.jumpBack t).startIno.addMissingDir t dir, ?_, ?_⟩
  · rw [addMissingDir, if_pos htarget]
    exact lastIno_addDir dir 1
  · rw [appendDirents, if_pos htarget, madeDirent_eq, singleton_append]

/-- **The first new entry has the last version**, not the next. -/
theorem exists_version_appendDirents {file : SourceFile} {dir : CString}
    (h : s.appendDirents t file dir ≠ []) :
    ∃ d ∈ s.appendDirents t file dir, d.version = s.lastVersion.toNat := by
  by_cases htarget : s.targetIno = 0
  · obtain ⟨s₁, -, heq⟩ := appendDirents_of_eq (t := t) htarget file dir
    rw [heq]
    exact ⟨_, mem_cons_self, rfl⟩
  · rw [appendDirents_of_ne htarget] at h ⊢
    obtain ⟨d, hd⟩ := exists_mem_of_ne_nil _ h
    exact ⟨d, hd, by rw [eq_of_mem_fileDirents hd]; rfl⟩

theorem nodup_appendDirents (file : SourceFile) (dir : CString) :
    ((s.appendDirents t file dir).map ino).Nodup := by
  by_cases htarget : s.targetIno = 0
  · obtain ⟨s₁, hino, heq⟩ := appendDirents_of_eq (t := t) htarget file dir
    rw [heq, map_cons, nodup_cons]
    refine ⟨fun hmem => ?_, nodup_fileDirents ..⟩
    obtain ⟨d, hd, hsame⟩ := mem_map.mp hmem
    rw [eq_of_mem_fileDirents hd] at hsame
    have hnumbers : (s₁.lastIno + 1).toNat = (s.startIno.lastIno + 1).toNat := hsame
    -- the numbers are two apart, also if they wrap around
    rw [hino] at hnumbers
    simp only [UInt32.toNat_add, UInt32.reduceToNat, Nat.reducePow] at hnumbers
    omega
  · rw [appendDirents_of_ne htarget]
    exact nodup_fileDirents ..

theorem appendDirents_eq_nil_iff {file : SourceFile} {dir : CString} :
    s.appendDirents t file dir = [] ↔ file.stat = none ∧ s.targetIno ≠ 0 := by
  by_cases htarget : s.targetIno = 0
  · obtain ⟨s₁, -, heq⟩ := appendDirents_of_eq (t := t) htarget file dir
    simp [heq, htarget]
  · rw [appendDirents_of_ne htarget, fileDirents_eq_nil_iff, and_iff_left htarget]

theorem exists_dtDir_iff {file : SourceFile} {dir : CString} :
    (∃ d ∈ s.appendDirents t file dir, d.type = dtDir) ↔ s.targetIno = 0 := by
  refine ⟨fun ⟨d, hd, htype⟩ => ?_, fun htarget => ?_⟩
  · by_contra htarget
    rw [appendDirents_of_ne htarget] at hd
    rw [eq_of_mem_fileDirents hd] at htype
    exact absurd htype (show dtReg ≠ dtDir by decide)
  · obtain ⟨s₁, -, heq⟩ := appendDirents_of_eq (t := t) htarget file dir
    rw [heq]
    exact ⟨_, mem_cons_self, rfl⟩

end Made

end Writer

/-! ## Whether they supersede the old ones -/

/-- **New entries supersede old ones** if their numbers and versions are above
them, and no number is given twice. -/
structure Supersedes (old : List Entry) (new : List RawDirent) : Prop where
  ino_lt : ∀ e ∈ old, ∀ d ∈ new, e.ino.toNat < d.ino
  version_lt : ∀ e ∈ old, ∀ d ∈ new, e.version.toNat < d.version
  nodup : (new.map ino).Nodup

/-- Entries of one version supersede each other only if one side is empty. -/
theorem supersedes_iff {old : List Entry} {new : List RawDirent} {v : ℕ}
    (hold : old ≠ [] → ∃ e ∈ old, e.version.toNat = v)
    (hnew : new ≠ [] → ∃ d ∈ new, d.version = v) (hnodup : (new.map ino).Nodup) :
    Supersedes old new ↔ old = [] ∨ new = [] := by
  constructor
  · intro h
    by_contra hne
    rw [not_or] at hne
    obtain ⟨e, he, hev⟩ := hold hne.1
    obtain ⟨d, hd, hdv⟩ := hnew hne.2
    have hlt := h.version_lt e he d hd
    omega
  · rintro (rfl | rfl)
    · exact ⟨nofun, nofun, hnodup⟩
    · exact ⟨fun _ _ => nofun, fun _ _ => nofun, hnodup⟩

/-- The last version noted is that of an entry. -/
theorem exists_version_eq {dir : CString} {s : Writer} (hs : s.lastVersion = 0) {es : List Entry}
    (hes : es ≠ []) :
    ∃ e ∈ es, e.version.toNat = (es.foldl (Writer.note dir) s).lastVersion.toNat := by
  obtain ⟨hall, -, hsame | ⟨e, he, heq⟩⟩ := Writer.lastVersion_foldl dir s es
  · obtain ⟨e, he⟩ := exists_mem_of_ne_nil es hes
    have hle := UInt32.le_iff_toNat_le.mp (hall e he)
    rw [hsame, hs] at hle ⊢
    exact ⟨e, he, Nat.le_zero.mp hle⟩
  · exact ⟨e, he, by rw [heq]⟩

/-- **The directory is known**: it is the root directory, or the last entry
that is taken for it is not a deletion. -/
def DirectoryKnown (dir : CString) (es : List Entry) : Prop :=
  dir.bytes = [] ∨ lastInoOf (es.filter (·.Begins dir)) ≠ 0

section Scanned

variable {s w : Writer} {dir : CString} {fd : MtdFd} {malloced : Bytes}
  {entries : List (List Entry)} (hs : s.counters = (0, 0, 0)) (hw : w.counters
    = (entries.flatten.foldl (Writer.note dir) (s.opened fd malloced dir)).counters)

include hs hw

/-- The scan ends with the number of the last entry that is taken for the
directory. -/
theorem targetIno_of_scan (hdir : dir.bytes ≠ []) :
    w.targetIno = lastInoOf (entries.flatten.filter (·.Begins dir)) := by
  have hzero : (s.opened fd malloced dir).targetIno = 0 := by
    have htarget : s.targetIno = 0 := congrArg (·.2.2) hs
    simp [Writer.opened, hdir, htarget]
  rw [(Writer.counters_eq_iff.mp hw).2.2, Writer.targetIno_foldl hdir, hzero, lastInoOf]

theorem targetIno_ne_zero_iff : w.targetIno ≠ 0 ↔ DirectoryKnown dir entries.flatten := by
  by_cases hdir : dir.bytes = []
  · have hone : (s.opened fd malloced dir).targetIno = 1 := by simp [Writer.opened, hdir]
    rw [(Writer.counters_eq_iff.mp hw).2.2, Writer.targetIno_foldl_of_nil hdir, hone]
    exact iff_of_true (by decide) (.inl hdir)
  · rw [targetIno_of_scan hs hw hdir, DirectoryKnown, or_iff_right hdir]

end Scanned

/-- **When the new entries supersede the old ones**: exactly if there are no
old ones, or no new ones. -/
theorem supersede_iff (t : Target) (s : Writer) (hs : s.counters = (0, 0, 0)) (dir : CString)
    (file : SourceFile) (fd : MtdFd) (malloced : Bytes) (blocks : List Bytes)
    (entries : List (List Entry)) (hblocks : List.Forall₂ (EntriesFrom t · 0) blocks entries) :
    (∀ w ofs, Scans t dir blocks s w →
        (Supersedes entries.flatten (w.replaceDirents t malloced fd ofs file)
          ↔ entries.flatten = [] ∨ file.stat = none))
      ∧ (FileSystemAt t fd.flash fd.dev.size fd.pos blocks →
        ∀ fuel w, Writer.scan t dir fuel (s.opened fd malloced dir) = some (.found w) →
          (Supersedes entries.flatten (w.appendDirents t file dir)
            ↔ entries.flatten = []
              ∨ file.stat = none ∧ DirectoryKnown dir entries.flatten)) := by
  have hversion : s.lastVersion = 0 := congrArg (·.2.1) hs
  refine ⟨fun w ofs hscans => ?_, fun hfs fuel w hscan => ?_⟩
  · have hw := congrArg (·.2.1) (hscans.counters_eq hblocks)
    have hlast : w.lastVersion = (entries.flatten.foldl (Writer.note dir) s).lastVersion := hw
    rw [Writer.replaceDirents, ← Writer.fileDirents_eq_nil_iff]
    refine supersedes_iff (v := w.lastVersion.toNat) (fun hne => ?_) (fun hne => ?_)
      (Writer.nodup_fileDirents ..)
    · rw [hlast]
      exact exists_version_eq hversion hne
    · obtain ⟨d, hd⟩ := exists_mem_of_ne_nil _ hne
      exact ⟨d, hd, by rw [Writer.eq_of_mem_fileDirents hd]; rfl⟩
  · have hw := Writer.counters_of_scan hblocks hfs hscan
    have hlast : w.lastVersion
        = (entries.flatten.foldl (Writer.note dir) (s.opened fd malloced dir)).lastVersion :=
      congrArg (·.2.1) hw
    rw [← targetIno_ne_zero_iff hs hw, ← @Writer.appendDirents_eq_nil_iff t w file dir]
    refine supersedes_iff (v := w.lastVersion.toNat) (fun hne => ?_)
      Writer.exists_version_appendDirents (Writer.nodup_appendDirents file dir)
    rw [hlast]
    exact exists_version_eq (s := s.opened fd malloced dir) hversion hne

/-- A directory of the root directory, with inode number 2. -/
def smallDirent (name : List UInt8) : RawDirent where
  name := name
  type := Writer.dtDir
  pino := 1
  version := 5
  ino := 2

/-- The flash of a partition with this directory only. -/
def smallFlash (name : List UInt8) : Bytes :=
  (Writer.smallDevice ((smallDirent name).node .little)).flash

/-- The state in which the scan of this flash starts. -/
def smallOpened (name : List UInt8) (dir : CString) : Writer :=
  let s := Writer.initialWriter ((smallDirent name).node .little)
  s.opened s.outfd (fun _ => 0) dir

theorem entriesFrom_et : EntriesFrom Writer.smallTarget (smallFlash [101, 116]) 0
    [⟨1, 5, 2, [101, 116]⟩] := by
  have hentry : entryAt Writer.smallTarget (smallFlash [101, 116]) 0 = ⟨1, 5, 2, [101, 116]⟩ := by
    decide +kernel
  rw [← hentry]
  exact .dirent ⟨by decide +kernel, by decide +kernel, by decide +kernel⟩ (by decide +kernel)
    (by decide +kernel) (by decide +kernel) (.last (by decide +kernel))

theorem fileSystemAt_et : FileSystemAt Writer.smallTarget (smallFlash [101, 116])
    (Writer.smallDevice []).size 0 [smallFlash [101, 116]] :=
  ⟨by decide, rfl, by decide +kernel, by decide, by decide +kernel, by decide +kernel⟩

/-- A file that does not exist. -/
def missingFile : SourceFile := { Writer.smallFile [] with stat := none, data := none }

open Writer in
/-- **Behind the directory `et`** a new entry does not supersede the old one,
for either of the two functions. For a file that does not exist no entry is
made, and none is left unsuperseded. -/
theorem supersede_et : (∃ w, Scans smallTarget rootDir [smallFlash [101, 116]]
        (initialWriter ((smallDirent [101, 116]).node .little)) w
      ∧ ¬ Supersedes [⟨1, 5, 2, [101, 116]⟩] (w.replaceDirents smallTarget (fun _ => 0)
        (smallDevice []).opened 0 (smallFile [1, 2, 3]))
      ∧ Supersedes [⟨1, 5, 2, [101, 116]⟩] (w.replaceDirents smallTarget (fun _ => 0)
        (smallDevice []).opened 0 missingFile))
    ∧ ∃ w, scan smallTarget rootDir 3 (smallOpened [101, 116] rootDir) = some (.found w)
      ∧ ¬ Supersedes [⟨1, 5, 2, [101, 116]⟩]
        (w.appendDirents smallTarget (smallFile [1, 2, 3]) rootDir)
      ∧ Supersedes [⟨1, 5, 2, [101, 116]⟩] (w.appendDirents smallTarget missingFile rootDir) := by
  have hiff := fun file fd => supersede_iff smallTarget
    (initialWriter ((smallDirent [101, 116]).node .little)) rfl rootDir file fd (fun _ => 0)
    [smallFlash [101, 116]] [[⟨1, 5, 2, [101, 116]⟩]] (.cons entriesFrom_et .nil)
  constructor
  · obtain ⟨fuel, hparse⟩ := ends_of_entriesFrom rootDir
      (s := { initialWriter ((smallDirent [101, 116]).node .little) with
        buf := smallFlash [101, 116] }) entriesFrom_et
    refine ⟨_, .cons hparse (.nil _), fun h => ?_, ?_⟩
    · rcases ((hiff _ _).1 _ 0 (.cons hparse (.nil _))).mp h with h | h <;> cases h
    · exact ((hiff _ _).1 _ 0 (.cons hparse (.nil _))).mpr (.inr rfl)
  · obtain ⟨w, hscan, -⟩ := exists_of_isFound (p := fun _ => true)
      (r := scan smallTarget rootDir 3 (smallOpened [101, 116] rootDir)) (by decide +kernel)
    refine ⟨w, hscan, fun h => ?_, ?_⟩
    · rcases ((hiff _ _).2 fileSystemAt_et 3 w hscan).mp h with h | ⟨h, -⟩ <;> cases h
    · exact ((hiff _ _).2 fileSystemAt_et 3 w hscan).mpr (.inr ⟨rfl, .inl rfl⟩)

open Writer in
/-- **A file behind it** gets an entry of the same version. -/
theorem append_same_version :
    ∃ w, scan smallTarget rootDir 3 (smallOpened [101, 116] rootDir) = some (.found w)
      ∧ EntriesFrom smallTarget (smallFlash [101, 116]) 0 [⟨1, 5, 2, [101, 116]⟩]
      ∧ (w.appendDirents smallTarget (smallFile [1, 2, 3]) rootDir).map version = [5]
      ∧ ¬ Supersedes [⟨1, 5, 2, [101, 116]⟩]
        (w.appendDirents smallTarget (smallFile [1, 2, 3]) rootDir) := by
  obtain ⟨w, hscan, hw⟩ := exists_of_isFound (p := fun w =>
      (w.appendDirents smallTarget (smallFile [1, 2, 3]) rootDir).map version == [5])
    (r := scan smallTarget rootDir 3 (smallOpened [101, 116] rootDir)) (by decide +kernel)
  have hversions := beq_iff_eq.mp hw
  refine ⟨w, hscan, entriesFrom_et, hversions, fun h => ?_⟩
  have hmem : 5 ∈ (w.appendDirents smallTarget (smallFile [1, 2, 3]) rootDir).map
      version := by
    rw [hversions]
    exact mem_singleton_self 5
  obtain ⟨d, hd, hd5⟩ := mem_map.mp hmem
  have hlt := h.version_lt _ (mem_singleton_self _) d hd
  rw [hd5] at hlt
  exact absurd hlt (by decide)

/-! ## The directory -/

/-- The entry has the name of the directory, in the root directory. -/
def Entry.Named (dir : CString) (e : Entry) : Prop := e.pino = 1 ∧ e.name = dir.bytes

instance (dir : CString) (e : Entry) : Decidable (e.Named dir) :=
  inferInstanceAs (Decidable (_ ∧ _))

/-- The last entry that is the directory. -/
def lastNamed (dir : CString) (es : List Entry) : Option Entry :=
  (es.filter (·.Named dir)).getLast?

theorem lastNamed_eq_none_iff {dir : CString} {es : List Entry} :
    lastNamed dir es = none ↔ ∀ e ∈ es, ¬ e.Named dir := by
  rw [lastNamed, getLast?_eq_none_iff, filter_eq_nil_iff]
  simp only [decide_eq_true_eq]

/-- **The target is the named directory**. -/
def TargetIsNamed (t : Target) (file : SourceFile) (dir : CString) (es : List Entry)
    (w : Writer) : Prop :=
  (∀ e, lastNamed dir es = some e → w.targetIno = e.ino)
    ∧ ((∃ d ∈ w.appendDirents t file dir, d.type = Writer.dtDir) ↔ ∀ e ∈ es, ¬ e.Named dir)

/-- **The last beginning is the last name**, and that is not a deletion. -/
def NamedLast (dir : CString) (es : List Entry) : Prop :=
  lastInoOf (es.filter (·.Begins dir)) = (lastNamed dir es).elim 0 Entry.ino
    ∧ ∀ e, lastNamed dir es = some e → e.ino ≠ 0

/-- **When the target is the named directory**: exactly if the last entry
whose name begins the name of the directory has the inode number of the last
that has it, and the latter, if there is one, is not a deletion. -/
theorem target_is_named_iff (t : Target) (s : Writer) (hs : s.counters = (0, 0, 0))
    (dir : CString) (hdir : dir.bytes ≠ []) (file : SourceFile) (fd : MtdFd)
    (malloced : Bytes) (blocks : List Bytes) (entries : List (List Entry))
    (hblocks : List.Forall₂ (EntriesFrom t · 0) blocks entries)
    (hfs : FileSystemAt t fd.flash fd.dev.size fd.pos blocks) (fuel : ℕ) (w : Writer)
    (hscan : Writer.scan t dir fuel (s.opened fd malloced dir) = some (.found w)) :
    TargetIsNamed t file dir entries.flatten w ↔ NamedLast dir entries.flatten := by
  have htarget := targetIno_of_scan hs (Writer.counters_of_scan hblocks hfs hscan) hdir
  rw [TargetIsNamed, NamedLast, Writer.exists_dtDir_iff, htarget, ← lastNamed_eq_none_iff]
  cases lastNamed dir entries.flatten with
  | none => simp
  | some e =>
    simp only [Option.some.injEq, forall_eq', reduceCtorEq, iff_false, Option.elim_some]
    exact and_congr_right fun heq => by rw [heq]

/-- The name `et`. -/
def etName : CString := ⟨[101, 116], by decide⟩

/-- The name `etc`. -/
def etcName : CString := ⟨[101, 116, 99], by decide⟩

open Writer in
/-- **The directory `et` is found** where it is asked for. -/
theorem target_is_named_et :
    ∃ w, scan smallTarget etName 3 (smallOpened [101, 116] etName) = some (.found w)
      ∧ TargetIsNamed smallTarget (smallFile [1, 2, 3]) etName [⟨1, 5, 2, [101, 116]⟩] w := by
  obtain ⟨w, hscan, -⟩ := exists_of_isFound (p := fun _ => true)
    (r := scan smallTarget etName 3 (smallOpened [101, 116] etName)) (by decide +kernel)
  refine ⟨w, hscan, ?_⟩
  refine (target_is_named_iff smallTarget (initialWriter ((smallDirent [101, 116]).node .little))
    rfl etName (by decide) (smallFile [1, 2, 3]) _ (fun _ => 0) [smallFlash [101, 116]]
    [[⟨1, 5, 2, [101, 116]⟩]] (.cons entriesFrom_et .nil) fileSystemAt_et 3 w hscan).mpr ?_
  exact ⟨by decide, fun e he => by
    obtain rfl := Option.some.inj (show some (⟨1, 5, 2, [101, 116]⟩ : Entry) = some e from he)
    decide⟩

open Writer in
/-- **The directory `et` is taken for `etc`**, which is not there and is not
made. -/
theorem target_is_another :
    ∃ w, scan smallTarget etcName 3 (smallOpened [101, 116] etcName) = some (.found w)
      ∧ EntriesFrom smallTarget (smallFlash [101, 116]) 0 [⟨1, 5, 2, [101, 116]⟩]
      ∧ w.targetIno = 2
      ∧ ¬ TargetIsNamed smallTarget (smallFile [1, 2, 3]) etcName [⟨1, 5, 2, [101, 116]⟩] w := by
  obtain ⟨w, hscan, hw⟩ := exists_of_isFound (p := fun w => w.targetIno == 2)
    (r := scan smallTarget etcName 3 (smallOpened [101, 116] etcName)) (by decide +kernel)
  have htarget := beq_iff_eq.mp hw
  refine ⟨w, hscan, entriesFrom_et, htarget, fun h => ?_⟩
  have hnone : ∀ e ∈ [(⟨1, 5, 2, [101, 116]⟩ : Entry)], ¬ e.Named etcName := by decide
  have hmade := Writer.exists_dtDir_iff.mp (h.2.mpr hnone)
  rw [htarget] at hmade
  exact absurd hmade (by decide)

end Jffs2
