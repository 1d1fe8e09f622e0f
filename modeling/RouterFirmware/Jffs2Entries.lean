import RouterFirmware.Jffs2Scan

/-!
# The directory entries of a file system

A block that is well formed is a sequence of nodes, one behind the other, up to
the end of the block or to something that is no node (`EntriesFrom`).
-/

namespace Jffs2

open Nat List Memory Loop Option

/-- **A directory entry**, as the scan reads it. -/
structure Entry where
  pino : UInt32
  version : UInt32
  ino : UInt32
  name : List UInt8
deriving DecidableEq

section Block

variable (t : Target) (m : Bytes)

def entryAt (node : ℕ) : Entry where
  pino := .ofNat (m.load t.order 4 (node + 12))
  version := .ofNat (m.load t.order 4 (node + 16))
  ino := .ofNat (m.load t.order 4 (node + 20))
  name := m.slice (node + direntSize) (m (node + 28)).toNat

def totlenAt (ofs : ℕ) : ℕ := m.load t.order 4 (ofs + 4)

/-- **A node in the block**, with a length that is right for its header. -/
structure FitsAt (ofs : ℕ) : Prop where
  isNode : IsNodeAt t m ofs
  header_le : nodeHeaderSize ≤ totlenAt t m ofs
  inside : ofs + totlenAt t m ofs ≤ t.erasesize

/-- **The nodes of a well-formed block** from an offset on. -/
inductive EntriesFrom : ℕ → List Entry → Prop where
  | last {ofs : ℕ} : ¬ IsNodeAt t m ofs → EntriesFrom ofs []
  | other {ofs : ℕ} {es : List Entry} : FitsAt t m ofs → ¬ IsDirentAt t m ofs →
      EntriesFrom (ofs + Writer.PAD (totlenAt t m ofs)) es → EntriesFrom ofs es
  | dirent {ofs : ℕ} {es : List Entry} : FitsAt t m ofs → IsDirentAt t m ofs →
      totlenAt t m ofs = direntLength m ofs → 0 ∉ (entryAt t m ofs).name →
      EntriesFrom (ofs + Writer.PAD (totlenAt t m ofs)) es →
      EntriesFrom ofs (entryAt t m ofs :: es)

end Block

def Entry.Begins (dir : CString) (e : Entry) : Prop := e.pino = 1 ∧ e.name <+: dir.bytes

instance (dir : CString) (e : Entry) : Decidable (e.Begins dir) :=
  inferInstanceAs (Decidable (_ ∧ _))

namespace Writer

variable {t : Target}

def note (dir : CString) (s : Writer) (e : Entry) : Writer :=
  { s with
    targetIno := if dir.bytes ≠ [] ∧ e.Begins dir then e.ino else s.targetIno
    lastIno := if s.lastIno < e.ino then e.ino else s.lastIno
    lastVersion := if s.lastVersion < e.version then e.version else s.lastVersion }

theorem strncmpEq_iff {m : Bytes} {a n : ℕ} {cs : List UInt8} (h : 0 ∉ m.slice a n) :
    strncmpEq m a cs n = true ↔ m.slice a n <+: cs := by
  induction n generalizing a cs with
  | zero => simp [strncmpEq]
  | succ n ih =>
    rw [slice_succ, mem_cons, not_or] at h
    rw [slice_succ]
    cases cs with
    | nil => simp [strncmpEq, Ne.symm h.1]
    | cons c cs => rw [strncmpEq, Bool.and_eq_true, beq_iff_eq, ih h.2, cons_prefix_cons]

variable {dir : CString} {s : Writer}

theorem noteDirent_eq {node : ℕ} (h : 0 ∉ (entryAt t s.buf node).name) :
    s.noteDirent t dir node = s.note dir (entryAt t s.buf node) := by
  have hfound : (!dir.bytes.isEmpty && s.loadField t (node + 12) == 1
      && strncmpEq s.buf (node + direntSize) dir.bytes (s.buf (node + 28)).toNat) = true
      ↔ dir.bytes ≠ [] ∧ (entryAt t s.buf node).Begins dir := by
    rw [Bool.and_eq_true, Bool.and_eq_true, beq_iff_eq, strncmpEq_iff h, Entry.Begins, and_assoc]
    simp [entryAt, loadField]
  unfold noteDirent note
  simp only [hfound]
  rfl

theorem ends_of_entriesFrom (dir : CString) {ofs : ℕ} {es : List Entry}
    (h : EntriesFrom t s.buf ofs es) :
    Loop.Ends (parseTurn t dir) (ofs, s) (es.foldl (note dir) s) := by
  generalize hm : s.buf = m at h
  have hnext : ∀ ofs, FitsAt t m ofs →
      (ofs + PAD (m.load t.order 4 (ofs + 4))) % 2 ^ 32 = ofs + PAD (totlenAt t m ofs) := by
    intro ofs hfits
    have hinside := hfits.inside
    have hE := t.erasesize_le
    rw [totlenAt] at hinside ⊢
    unfold PAD intMax at *
    omega
  induction h generalizing s with
  | last hnode =>
    refine ends_of_leave ?_
    rw [parseTurn_eq, hm]
    exact if_neg hnode
  | @other ofs es hfits hdirent _ ih =>
    have hturn : parseTurn t dir (ofs, s) = .again (ofs + PAD (totlenAt t m ofs), s) := by
      rw [parseTurn_eq, hm, if_pos hfits.isNode, if_neg hdirent, hnext ofs hfits]
    exact (ends_iff_of_again hturn).mpr (ih hm)
  | @dirent ofs es hfits hdirent _ hname _ ih =>
    have hturn : parseTurn t dir (ofs, s)
        = .again (ofs + PAD (totlenAt t m ofs), s.note dir (entryAt t m ofs)) := by
      subst hm
      rw [parseTurn_eq, if_pos hfits.isNode, if_pos hdirent, hnext ofs hfits, noteDirent_eq hname]
    exact (ends_iff_of_again hturn).mpr (ih hm)

/-! ### The counters -/

theorem counters_note_congr {s' : Writer} (h : s.counters = s'.counters)
    (e : Entry) : (s.note dir e).counters = (s'.note dir e).counters := by
  obtain ⟨hino, hversion, htarget⟩ := counters_eq_iff.mp h
  simp only [counters, note, hino, hversion, htarget]

theorem counters_foldl_congr {s' : Writer} (h : s.counters = s'.counters)
    (es : List Entry) : (es.foldl (note dir) s).counters = (es.foldl (note dir) s').counters := by
  induction es generalizing s s' with
  | nil => exact h
  | cons e es ih => exact ih (counters_note_congr h e)

theorem outfd_foldl_note (s : Writer) (es : List Entry) :
    (es.foldl (note dir) s).outfd = s.outfd := by
  induction es generalizing s with
  | nil => rfl
  | cons e es ih => exact ih (s.note dir e)

theorem lastVersion_foldl (dir : CString) (s : Writer) (es : List Entry) :
    (∀ e ∈ es, e.version ≤ (es.foldl (note dir) s).lastVersion)
      ∧ s.lastVersion ≤ (es.foldl (note dir) s).lastVersion
      ∧ ((es.foldl (note dir) s).lastVersion = s.lastVersion
        ∨ ∃ e ∈ es, (es.foldl (note dir) s).lastVersion = e.version) := by
  induction es generalizing s with
  | nil => exact ⟨nofun, UInt32.le_refl _, .inl rfl⟩
  | cons e es ih =>
    obtain ⟨hall, hle, hcases⟩ := ih (s.note dir e)
    have hnote : (s.note dir e).lastVersion
        = if s.lastVersion < e.version then e.version else s.lastVersion := rfl
    have hstep : s.lastVersion ≤ (s.note dir e).lastVersion
        ∧ e.version ≤ (s.note dir e).lastVersion := by
      rw [hnote]
      split_ifs with hlt
      · exact ⟨UInt32.le_of_lt hlt, UInt32.le_refl _⟩
      · exact ⟨UInt32.le_refl _, UInt32.not_lt.mp hlt⟩
    refine ⟨fun e' he' => ?_, UInt32.le_trans hstep.1 hle, ?_⟩
    · rcases mem_cons.mp he' with rfl | he'
      · exact UInt32.le_trans hstep.2 hle
      · exact hall e' he'
    · rcases hcases with hsame | ⟨e', he', heq⟩
      · rw [hnote] at hsame
        split_ifs at hsame
        · exact .inr ⟨e, mem_cons_self, hsame⟩
        · exact .inl hsame
      · exact .inr ⟨e', mem_cons_of_mem e he', heq⟩

end Writer

def lastInoOf (es : List Entry) : UInt32 := es.getLast?.elim 0 Entry.ino

theorem Writer.targetIno_foldl {dir : CString} (hdir : dir.bytes ≠ []) (s : Writer)
    (es : List Entry) : (es.foldl (note dir) s).targetIno
    = (es.filter (·.Begins dir)).getLast?.elim s.targetIno Entry.ino := by
  induction es generalizing s with
  | nil => rfl
  | cons e es ih =>
    rw [foldl_cons, ih]
    by_cases he : e.Begins dir
    · have htarget : (s.note dir e).targetIno = e.ino := if_pos ⟨hdir, he⟩
      rw [filter_cons_of_pos (by simpa using he), getLast?_cons, htarget]
      cases (es.filter (·.Begins dir)).getLast? <;> rfl
    · have htarget : (s.note dir e).targetIno = s.targetIno := if_neg fun h => he h.2
      rw [filter_cons_of_neg (by simpa using he), htarget]

theorem Writer.targetIno_foldl_of_nil {dir : CString} (hdir : dir.bytes = []) (s : Writer)
    (es : List Entry) : (es.foldl (note dir) s).targetIno = s.targetIno := by
  induction es generalizing s with
  | nil => rfl
  | cons e es ih =>
    rw [foldl_cons, ih]
    exact if_neg fun h => h.1 hdir

/-! ## Blocks of an image -/

/-- **The blocks of an image are scanned**. -/
inductive Scans (t : Target) (dir : CString) : List Bytes → Writer → Writer → Prop where
  | nil (s : Writer) : Scans t dir [] s s
  | cons {b : Bytes} {bs : List Bytes} {s s₁ s₂ : Writer} {fuel : ℕ} :
      ({ s with buf := b } : Writer).mtdParseJffs2data t dir fuel = some s₁ →
      Scans t dir bs s₁ s₂ → Scans t dir (b :: bs) s s₂

section Image

variable {t : Target}

theorem Scans.counters_eq {dir : CString} {blocks : List Bytes}
    {entries : List (List Entry)} {s w : Writer} (h : Scans t dir blocks s w)
    (hblocks : List.Forall₂ (EntriesFrom t · 0) blocks entries) :
    w.counters = (entries.flatten.foldl (Writer.note dir) s).counters := by
  induction h generalizing entries with
  | nil s =>
    cases hblocks
    rfl
  | @cons b bs s s₁ s₂ fuel hparse _ ih =>
    obtain _ | ⟨hb, hbs⟩ := hblocks
    obtain rfl := ends_unique (Writer.ends_of_entriesFrom dir (s := { s with buf := b }) hb)
      ⟨fuel, hparse⟩
    have hsame : ({ s with buf := b } : Writer).counters = s.counters := rfl
    rw [ih hbs, flatten_cons, foldl_append]
    exact Writer.counters_foldl_congr (Writer.counters_foldl_congr hsame _) _

end Image

/-! ## Blocks of a partition -/

section Partition

variable {t : Target} {m m' : Bytes} {ofs : ℕ} (h : Memory.EqOn m m' 0 t.erasesize)

include h

theorem isNodeAt_congr (hdvd : 4 ∣ ofs) : IsNodeAt t m ofs ↔ IsNodeAt t m' ofs := by
  have hE := t.dvd_erasesize
  unfold IsNodeAt
  refine and_congr_right fun hlt => ?_
  rw [h.load_eq t.order (zero_le _) (by omega)]

theorem totlenAt_congr (hfits : FitsAt t m ofs) : totlenAt t m ofs = totlenAt t m' ofs := by
  have hheader := hfits.header_le
  have hinside := hfits.inside
  rw [nodeHeaderSize] at hheader
  exact h.load_eq t.order (zero_le _) (by omega)

theorem FitsAt.congr (hdvd : 4 ∣ ofs) (hfits : FitsAt t m ofs) : FitsAt t m' ofs := by
  have htotlen := totlenAt_congr h hfits
  exact ⟨(isNodeAt_congr h hdvd).mp hfits.isNode, htotlen ▸ hfits.header_le, htotlen ▸ hfits.inside⟩

theorem isDirentAt_congr (hfits : FitsAt t m ofs) : IsDirentAt t m ofs ↔ IsDirentAt t m' ofs := by
  have hheader := hfits.header_le
  have hinside := hfits.inside
  rw [nodeHeaderSize] at hheader
  rw [IsDirentAt, h.load_eq t.order (zero_le _) (by omega), IsDirentAt]

theorem entryAt_congr (hinside : ofs + direntLength m ofs ≤ t.erasesize) :
    entryAt t m ofs = entryAt t m' ofs ∧ direntLength m ofs = direntLength m' ofs := by
  unfold direntLength direntSize at *
  have hnsize : m (ofs + 28) = m' (ofs + 28) := h _ (zero_le _) (by omega)
  refine ⟨?_, by rw [hnsize]⟩
  unfold entryAt direntSize
  rw [h.load_eq t.order (zero_le _) (by omega), h.load_eq t.order (zero_le _) (by omega),
    h.load_eq t.order (zero_le _) (by omega), h.slice_eq (by omega) (zero_le _), hnsize]

theorem EntriesFrom.congr {es : List Entry} (hentries : EntriesFrom t m ofs es) (hdvd : 4 ∣ ofs) :
    EntriesFrom t m' ofs es := by
  have hnext : ∀ {ofs n : ℕ}, 4 ∣ ofs → 4 ∣ ofs + Writer.PAD n :=
    fun hofs => Nat.dvd_add hofs (Nat.dvd_mul_left ..)
  induction hentries with
  | last hnode => exact .last (mt (isNodeAt_congr h hdvd).mpr hnode)
  | other hfits hdirent _ ih =>
    have hrest := ih (hnext hdvd)
    rw [totlenAt_congr h hfits] at hrest
    exact .other (hfits.congr h hdvd) (mt (isDirentAt_congr h hfits).mpr hdirent) hrest
  | dirent hfits hdirent hlength hname _ ih =>
    have hrest := ih (hnext hdvd)
    have hinside := hfits.inside
    rw [hlength] at hinside
    obtain ⟨hentry, hdirentLength⟩ := entryAt_congr h hinside
    rw [totlenAt_congr h hfits] at hrest hlength
    rw [hentry] at hname ⊢
    exact .dirent (hfits.congr h hdvd) ((isDirentAt_congr h hfits).mp hdirent)
      (hlength.trans hdirentLength) hname hrest

end Partition

def FileSystemAt (t : Target) (flash : Bytes) (size : ℕ) : ℕ → List Bytes → Prop
  | pos, [] => pos + t.erasesize ≤ size ∧ flash.load t.order 2 pos ≠ 0x8519
      ∧ flash.load t.order 2 pos ≠ magicBitmask
  | pos, b :: bs => pos + t.erasesize ≤ size ∧ flash.slice pos t.erasesize = b.slice 0 t.erasesize
      ∧ IsNodeAt t b 0 ∧ FileSystemAt t flash size (pos + t.erasesize) bs

namespace Writer

variable {t : Target}

theorem scan_of_le {dir : CString} {s : Writer} {n k : ℕ} {r : Scanned}
    (h : scan t dir n s = some r) (hle : n ≤ k) : scan t dir k s = some r := by
  induction n generalizing k s with
  | zero => exact absurd h nofun
  | succ n ih =>
    obtain ⟨k, rfl⟩ : ∃ j, k = j + 1 := ⟨k - 1, by omega⟩
    rw [scan] at h ⊢
    split_ifs at h ⊢ with hroom
    · simp only at h ⊢
      split_ifs at h ⊢ with hwrong hmagic
      · exact h
      · obtain ⟨s₁, hparse, hscan⟩ := bind_eq_some_iff.mp h
        have hparse' := run_of_le hparse (show n ≤ k by omega)
        rw [mtdParseJffs2data, hparse', bind_some]
        exact ih hscan (by omega)
      · exact h
    · exact h

theorem slice_readBlock (s : Writer) : (s.readBlock t).buf.slice 0 t.erasesize
    = s.outfd.flash.slice s.outfd.pos t.erasesize :=
  slice_blit_slice s.buf 0 s.outfd.flash s.outfd.pos t.erasesize

theorem load_readBlock (s : Writer) :
    (s.readBlock t).buf.load t.order 2 0 = s.outfd.flash.load t.order 2 s.outfd.pos := by
  have hE := t.le_erasesize
  rw [load, slice_eq_of_le (slice_readBlock s) (by omega), load]

theorem scan_of_fileSystem {s : Writer} {blocks : List Bytes}
    {entries : List (List Entry)} (dir : CString)
    (hblocks : List.Forall₂ (EntriesFrom t · 0) blocks entries)
    (hfs : FileSystemAt t s.outfd.flash s.outfd.dev.size s.outfd.pos blocks) :
    ∃ fuel w, scan t dir fuel s = some (.found w)
      ∧ w.counters = (entries.flatten.foldl (note dir) s).counters := by
  induction hblocks generalizing s with
  | nil =>
    obtain ⟨hroom, hwrong, hmagic⟩ := hfs
    rw [← load_readBlock] at hwrong hmagic
    refine ⟨1, s.readBlock t, ?_, rfl⟩
    rw [scan, if_pos hroom]
    simp only [if_neg hwrong, if_neg hmagic]
  | @cons b es bs ess hb _ ih =>
    obtain ⟨hroom, hslice, hnode, hrest⟩ := hfs
    have hsame : Memory.EqOn b (s.readBlock t).buf 0 t.erasesize := by
      have heq := eqOn_of_slice_eq (hslice.symm.trans (slice_readBlock s).symm)
      rwa [zero_add] at heq
    have hmagic : (s.readBlock t).buf.load t.order 2 0 = magicBitmask :=
      ((isNodeAt_congr hsame (dvd_zero 4)).mp hnode).2
    obtain ⟨n, hparse⟩ := ends_of_entriesFrom dir (hb.congr hsame (dvd_zero 4))
    set s₁ := es.foldl (note dir) (s.readBlock t) with hs₁
    have houtfd : s₁.outfd = { s.outfd with pos := s.outfd.pos + t.erasesize } :=
      outfd_foldl_note _ _
    obtain ⟨fuel, w, hscan, hcounters⟩ := ih (s := s₁) (by rw [houtfd]; exact hrest)
    refine ⟨max n fuel + 1, w, ?_, ?_⟩
    · have hwrong : (s.readBlock t).buf.load t.order 2 0 ≠ 0x8519 := by
        rw [hmagic]
        decide
      rw [scan, if_pos hroom]
      simp only [if_neg hwrong, if_pos hmagic]
      rw [mtdParseJffs2data, run_of_le hparse (le_max_left ..), bind_some]
      exact scan_of_le hscan (le_max_right ..)
    · have hread : (s.readBlock t).counters = s.counters := rfl
      rw [hcounters, hs₁, flatten_cons, foldl_append]
      exact counters_foldl_congr (counters_foldl_congr hread _) _

theorem counters_of_scan {dir : CString} {s : Writer} {blocks : List Bytes}
    {entries : List (List Entry)} {w : Writer} {fuel : ℕ}
    (hblocks : List.Forall₂ (EntriesFrom t · 0) blocks entries)
    (hfs : FileSystemAt t s.outfd.flash s.outfd.dev.size s.outfd.pos blocks)
    (hscan : scan t dir fuel s = some (.found w)) :
    w.counters = (entries.flatten.foldl (note dir) s).counters := by
  obtain ⟨n, w', hscan', hcounters⟩ := scan_of_fileSystem dir hblocks hfs
  have heq := (scan_of_le hscan (le_max_left fuel n)).symm.trans
    (scan_of_le hscan' (le_max_right fuel n))
  rw [Scanned.found.inj (some.inj heq), hcounters]

end Writer

end Jffs2
