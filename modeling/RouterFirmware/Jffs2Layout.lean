import RouterFirmware.Jffs2Nodes

/-!
# The layout of what the jffs2 writer writes

The writer shares one cursor, `ofs`, among functions that all may fill up the
block and begin the next.
-/

namespace Jffs2

open List Nat MtdFd Memory

namespace Writer

variable (t : Target) (s : Writer)

def counters : UInt32 × UInt32 × UInt32 := (s.lastIno, s.lastVersion, s.targetIno)

variable {t s}

theorem counters_eq_iff {s' : Writer} : s.counters = s'.counters
    ↔ s.lastIno = s'.lastIno ∧ s.lastVersion = s'.lastVersion ∧ s.targetIno = s'.targetIno := by
  simp [counters]

theorem wrap_of_eq (h : s.ofs = t.erasesize) : s.wrap t = ({ s with ofs := 0 } : Writer).flush t :=
  if_pos (by rw [h, mod_self])

theorem wrap_of_lt (hpos : 0 < s.ofs) (hlt : s.ofs < t.erasesize) : s.wrap t = s := by
  have hmod : s.ofs % t.erasesize = s.ofs := mod_eq_of_lt hlt
  rw [wrap, hmod, if_neg hpos.ne']

theorem pad_eq {size : ℕ} (hdvd : size ∣ t.erasesize) (hpos : 0 < s.ofs)
    (hofs : s.ofs ≤ t.erasesize) :
    s.pad t size = (s.copyIn (replicate (padding size s.ofs) 0xff)).wrap t := by
  have hnil : s.copyIn (replicate 0 0xff) = s := by
    rw [copyIn, replicate_zero, blit_nil]
    rfl
  by_cases hlt : s.ofs < t.erasesize
  · by_cases hmod : s.ofs % size = 0
    · rw [pad, if_pos ⟨hmod, hlt⟩, padding_of_dvd (dvd_of_mod_eq_zero hmod), hnil,
        wrap_of_lt hpos hlt]
    · rw [pad, if_neg fun h => hmod h.1, if_pos hlt, padding_of_not_dvd hmod]
  · have heq : s.ofs = t.erasesize := Nat.le_antisymm hofs (Nat.le_of_not_lt hlt)
    rw [pad, if_neg fun h => hlt h.2, if_neg hlt, padding_of_dvd (heq ▸ hdvd), hnil]

theorem flush_dev (s : Writer) : (s.flush t).outfd.dev = s.outfd.dev := by
  have herase : ((s.outfd.mtdEraseBlock s.mtdofs).getD s.outfd).dev = s.outfd.dev := by
    rcases s.outfd.mtdEraseBlock_cases s.mtdofs with h | ⟨_, h⟩ <;> rw [h] <;> rfl
  rw [← herase]
  show (write _ _).2.dev = _
  rcases write_cases ((s.outfd.mtdEraseBlock s.mtdofs).getD s.outfd)
    (s.buf.slice 0 t.erasesize) with h | ⟨n, _, _, h⟩ <;> rw [h]
  rfl

theorem flush_written (s : Writer) (hok : (s.flush t).failed = false) :
    s.failed = false ∧ s.mtdofs + s.outfd.dev.erasesize ≤ s.outfd.dev.size
      ∧ (s.flush t).outfd.written = s.outfd.written ++ s.buf.slice 0 t.erasesize := by
  have hlen : (s.buf.slice 0 t.erasesize).length = t.erasesize := length_slice ..
  obtain ⟨⟨hbefore, herase⟩, hwrite⟩ : (s.failed = false
      ∧ (s.outfd.mtdEraseBlock s.mtdofs).isNone = false)
      ∧ (((s.outfd.mtdEraseBlock s.mtdofs).getD s.outfd).write (s.buf.slice 0 t.erasesize)).1
        = some t.erasesize := by
    simpa [flush] using hok
  show _ ∧ _ ∧ (write _ _).2.written = _
  rcases s.outfd.mtdEraseBlock_cases s.mtdofs with hnone | ⟨hroom, hsome⟩
  · rw [hnone] at herase
    exact absurd herase (by decide)
  rw [hsome, Option.getD_some] at hwrite ⊢
  rcases write_cases (s.outfd.erased s.mtdofs) (s.buf.slice 0 t.erasesize) with h | ⟨n, _, _, h⟩
  · rw [h] at hwrite
    exact absurd hwrite nofun
  · rw [h] at hwrite ⊢
    obtain rfl : n = t.erasesize := Option.some.inj hwrite
    refine ⟨hbefore, hroom, ?_⟩
    rw [take_of_length_le hlen.le, written_wrote, written_erased]

theorem slice_copyIn (s : Writer) (bytes : List UInt8) :
    (s.copyIn bytes).buf.slice 0 (s.copyIn bytes).ofs = s.buf.slice 0 s.ofs ++ bytes := by
  have h := s.buf.slice_blit_append 0 s.ofs bytes
  rwa [zero_add] at h

@[simp] theorem counters_copyIn (bytes : List UInt8) : (s.copyIn bytes).counters = s.counters := rfl

@[simp] theorem counters_wrap : (s.wrap t).counters = s.counters := by
  unfold wrap
  split_ifs <;> rfl

@[simp] theorem counters_pad (size : ℕ) : (s.pad t size).counters = s.counters := by
  unfold pad
  split_ifs <;> simp

@[simp] theorem counters_prepEraseblock : (s.prepEraseblock t).counters = s.counters := by
  unfold prepEraseblock
  split_ifs <;> rfl

@[simp] theorem counters_addData (ptr : List UInt8) : (s.addData t ptr).counters = s.counters := by
  unfold addData
  split_ifs <;> simp

end Writer

/-! ## What has been written -/

/-- **What has been written** since `start`: some blocks, if all went well. -/
structure Flushed (t : Target) (start s : Writer) (blocks : List (List UInt8)) : Prop where
  erasesize_eq : start.outfd.dev.erasesize = t.erasesize
  dev_eq : s.outfd.dev = start.outfd.dev
  mtdofs_eq : s.mtdofs = start.mtdofs + t.erasesize * blocks.length
  written : s.failed = false → s.outfd.written = start.outfd.written ++ blocks.flatten
    ∧ (blocks = [] ∨ s.mtdofs ≤ s.outfd.dev.size)

def SameDevice (s s' : Writer) : Prop :=
  s'.outfd = s.outfd ∧ s'.mtdofs = s.mtdofs ∧ s'.failed = s.failed

namespace Flushed

variable {t : Target} {start s : Writer}

theorem congr {s' : Writer} {blocks : List (List UInt8)} (h : Flushed t start s blocks)
    (hs : SameDevice s s') : Flushed t start s' blocks := by
  obtain ⟨hfd, hmtdofs, hfailed⟩ := hs
  refine ⟨h.erasesize_eq, ?_, ?_, ?_⟩
  · rw [hfd, h.dev_eq]
  · rw [hmtdofs, h.mtdofs_eq]
  · rw [hfd, hmtdofs, hfailed]
    exact h.written

theorem flush {blocks : List (List UInt8)} (h : Flushed t start s blocks) :
    Flushed t start (s.flush t) (blocks ++ [s.buf.slice 0 t.erasesize]) := by
  have hmtdofs : (s.flush t).mtdofs
      = start.mtdofs + t.erasesize * (blocks ++ [s.buf.slice 0 t.erasesize]).length := by
    show s.mtdofs + t.erasesize = _
    rw [h.mtdofs_eq, length_append, length_singleton, mul_add, mul_one, add_assoc]
  refine ⟨h.erasesize_eq, s.flush_dev.trans h.dev_eq, hmtdofs, fun hok => ?_⟩
  obtain ⟨hbefore, hroom, hwritten⟩ := s.flush_written hok
  refine ⟨?_, .inr ?_⟩
  · rw [hwritten, (h.written hbefore).1, flatten_append, flatten_singleton, append_assoc]
  · rw [s.flush_dev]
    rw [h.dev_eq, h.erasesize_eq, ← h.dev_eq] at hroom
    exact hroom

end Flushed

/-! ## What the buffer holds -/

/-- **What the buffer holds** below the cursor. -/
structure Filled (t : Target) (s : Writer) (cur : List (List UInt8)) : Prop where
  slice_eq : s.buf.slice 0 s.ofs = cur.flatMap (padded 0xff 4)
  ofs_lt : s.ofs < t.erasesize
  isNode : ∀ n ∈ cur, IsNode t.order n
  marked : cur = [] ∨ cur.head? = some (cleanmarker t.order)

namespace Filled

variable {t : Target} {s : Writer} {cur : List (List UInt8)} (h : Filled t s cur)

include h

theorem ofs_eq : s.ofs = (cur.flatMap (padded (0xff : UInt8) 4)).length := by
  rw [← h.slice_eq, length_slice]

theorem dvd_ofs : 4 ∣ s.ofs := by
  rw [h.ofs_eq]
  exact dvd_length_flatMap_padded _ (by decide) cur

omit h in
theorem ofs_eq_zero (h : Filled t s []) : s.ofs = 0 := h.ofs_eq

theorem eq_nil (hzero : s.ofs = 0) : cur = [] := by
  rcases h.marked with hnil | hmark
  · exact hnil
  · obtain ⟨rest, rfl⟩ := head?_eq_some_iff.mp hmark
    have hofs := h.ofs_eq
    rw [hzero, flatMap_cons, length_append, length_padded, length_cleanmarker] at hofs
    omega

theorem head (hpos : 0 < s.ofs) : cur.head? = some (cleanmarker t.order) := by
  rcases h.marked with rfl | hmark
  · exact absurd h.ofs_eq_zero hpos.ne'
  · exact hmark

end Filled

theorem padded_cleanmarker (o : ByteOrder) :
    padded (0xff : UInt8) 4 (cleanmarker o) = cleanmarker o := by
  rw [padded, length_cleanmarker]
  exact append_nil _

theorem isBlock_of_eq {t : Target} {b : List UInt8} {ns : List (List UInt8)} {k : ℕ}
    (hb : b = ns.flatMap (padded 0xff 4) ++ replicate k 0xff) (hlen : b.length = t.erasesize)
    (hmark : ns.head? = some (cleanmarker t.order)) (hnodes : ∀ n ∈ ns, IsNode t.order n) :
    IsBlock t b ns := by
  refine ⟨hlen, ?_, hnodes, recordsFrom_of_eq (by decide) [] hb (dvd_zero 4)⟩
  obtain ⟨rest, rfl⟩ := head?_eq_some_iff.mp hmark
  rw [hb, flatMap_cons, padded_cleanmarker, append_assoc]
  exact take_left' (length_cleanmarker t.order)

def Holds (t : Target) (start s : Writer) (ns : List (List UInt8)) : Prop :=
  ∃ blocks nodes cur, Flushed t start s blocks ∧ List.Forall₂ (IsBlock t) blocks nodes
    ∧ Filled t s cur ∧ (nodes.flatten ++ cur).filter (· ≠ cleanmarker t.order) = ns

namespace Holds

variable {t : Target} {start s : Writer} {ns : List (List UInt8)} (h : Holds t start s ns)

include h

theorem congr {s' : Writer} (hs : SameDevice s s') (hbuf : s'.buf = s.buf) (hofs : s'.ofs = s.ofs) :
    Holds t start s' ns := by
  obtain ⟨blocks, nodes, cur, hflushed, hblocks, hfilled, hns⟩ := h
  refine ⟨blocks, nodes, cur, hflushed.congr hs, hblocks, ?_, hns⟩
  exact ⟨by rw [hbuf, hofs, hfilled.slice_eq], by rw [hofs]; exact hfilled.ofs_lt,
    hfilled.isNode, hfilled.marked⟩

theorem ofs_lt : s.ofs < t.erasesize := by
  obtain ⟨_, _, _, _, _, hfilled, _⟩ := h
  exact hfilled.ofs_lt

theorem prepEraseblock : Holds t start (s.prepEraseblock t) ns ∧ 0 < (s.prepEraseblock t).ofs
    ∧ (s.prepEraseblock t).ofs ≤ max s.ofs 12 := by
  by_cases hpos : 0 < s.ofs
  · have heq : s.prepEraseblock t = s := if_pos hpos
    rw [heq]
    exact ⟨h, hpos, le_max_left ..⟩
  obtain ⟨blocks, nodes, cur, hflushed, hblocks, hfilled, hns⟩ := h
  have hzero : s.ofs = 0 := Nat.eq_zero_of_not_pos hpos
  obtain rfl : cur = [] := hfilled.eq_nil hzero
  have heq : s.prepEraseblock t = s.copyIn (cleanmarker t.order) := if_neg hpos
  have hofs : (s.copyIn (cleanmarker t.order)).ofs = 12 := by
    rw [Writer.copyIn, hzero, length_cleanmarker]
  have hE := t.le_erasesize
  rw [heq, hofs]
  refine ⟨⟨blocks, nodes, [cleanmarker t.order], hflushed.congr ⟨rfl, rfl, rfl⟩, hblocks, ?_, ?_⟩,
    by decide, le_max_right ..⟩
  · refine ⟨?_, by omega, ?_, .inr rfl⟩
    · rw [Writer.slice_copyIn, hfilled.slice_eq, flatMap_singleton, padded_cleanmarker]
      rfl
    · intro n hn
      rw [mem_singleton.mp hn]
      exact cleanmarker_isNode t.order
  · rw [append_nil] at hns
    rw [filter_append, hns]
    simp

omit h in
theorem of_full {blocks : List (List UInt8)} {nodes : List (List (List UInt8))}
    {cur : List (List UInt8)} {k : ℕ} (hflushed : Flushed t start s blocks)
    (hblocks : List.Forall₂ (IsBlock t) blocks nodes) (hofs : s.ofs = t.erasesize)
    (hslice : s.buf.slice 0 s.ofs = cur.flatMap (padded 0xff 4) ++ replicate k 0xff)
    (hmark : cur.head? = some (cleanmarker t.order)) (hnodes : ∀ n ∈ cur, IsNode t.order n) :
    Holds t start (s.wrap t) ((nodes.flatten ++ cur).filter (· ≠ cleanmarker t.order)) := by
  rw [hofs] at hslice
  have hblock : IsBlock t (s.buf.slice 0 t.erasesize) cur :=
    isBlock_of_eq hslice (length_slice ..) hmark hnodes
  have hempty : Flushed t start ({ s with ofs := 0 } : Writer) blocks :=
    hflushed.congr ⟨rfl, rfl, rfl⟩
  have hE := t.le_erasesize
  rw [Writer.wrap_of_eq hofs]
  refine ⟨_, nodes ++ [cur], [], hempty.flush, ?_, ⟨rfl, ?_, nofun, .inl rfl⟩, ?_⟩
  · exact rel_append hblocks (.cons hblock .nil)
  · show 0 < t.erasesize
    omega
  · rw [append_nil, flatten_append, flatten_singleton]

theorem addNode {n : List UInt8} (s₁ : Writer) (hpos : 0 < s.ofs) (hn : IsNode t.order n)
    (hne : n ≠ cleanmarker t.order) (hroom : s.ofs + n.length ≤ t.erasesize)
    (hs : SameDevice s s₁) (hbuf : s₁.buf = s.buf.blit s.ofs n) (hofs : s₁.ofs = s.ofs + n.length) :
    Holds t start (s₁.pad t 4) (ns ++ [n]) := by
  obtain ⟨blocks, nodes, cur, hflushed, hblocks, hfilled, hns⟩ := h
  have hns' : (nodes.flatten ++ (cur ++ [n])).filter (· ≠ cleanmarker t.order) = ns ++ [n] := by
    rw [← append_assoc, filter_append, hns]
    simp [hne]
  have hslice₁ : s₁.buf.slice 0 s₁.ofs = cur.flatMap (padded 0xff 4) ++ n := by
    rw [← hfilled.slice_eq, ← Writer.slice_copyIn, hbuf, hofs]
    rfl
  have hpad : padding 4 s₁.ofs = padding 4 n.length := by rw [hofs, padding_add hfilled.dvd_ofs]
  have hle : s₁.ofs ≤ t.erasesize := hofs.trans_le hroom
  have hpos₁ : 0 < s₁.ofs := by omega
  have hnodes : ∀ m ∈ cur ++ [n], IsNode t.order m := by
    intro m hm
    rcases mem_append.mp hm with hm | hm
    · exact hfilled.isNode m hm
    · rw [mem_singleton.mp hm]
      exact hn
  have hmark : (cur ++ [n]).head? = some (cleanmarker t.order) := by
    rw [head?_append, hfilled.head hpos]
    rfl
  rw [Writer.pad_eq t.dvd_erasesize hpos₁ hle]
  generalize hs₂ : s₁.copyIn (replicate (padding 4 s₁.ofs) 0xff) = s₂
  have hofs₂ : s₂.ofs = s₁.ofs + padding 4 s₁.ofs := by
    rw [← hs₂, Writer.copyIn, length_replicate]
  have hslice₂ : s₂.buf.slice 0 s₂.ofs = (cur ++ [n]).flatMap (padded 0xff 4) := by
    rw [← hs₂, Writer.slice_copyIn, hslice₁, hpad, flatMap_append, flatMap_singleton,
      padded, append_assoc]
  have hflushed₂ : Flushed t start s₂ blocks := (hflushed.congr hs).congr (hs₂ ▸ ⟨rfl, rfl, rfl⟩)
  have hle₂ : s₂.ofs ≤ t.erasesize :=
    hofs₂.trans_le (add_padding_le (by decide) t.dvd_erasesize hle)
  rw [← hns']
  by_cases hfull : s₂.ofs = t.erasesize
  · refine of_full (k := 0) hflushed₂ hblocks hfull ?_ hmark hnodes
    rw [hslice₂]
    exact (append_nil _).symm
  · rw [Writer.wrap_of_lt (by omega) (by omega)]
    exact ⟨blocks, nodes, cur ++ [n], hflushed₂, hblocks,
      ⟨hslice₂, by omega, hnodes, .inr hmark⟩, rfl⟩

theorem padBlock (hpos : 0 < s.ofs) :
    Holds t start (s.pad t t.erasesize) ns ∧ (s.pad t t.erasesize).ofs = 0 := by
  obtain ⟨blocks, nodes, cur, hflushed, hblocks, hfilled, hns⟩ := h
  have hlt := hfilled.ofs_lt
  have hpad : padding t.erasesize s.ofs = t.erasesize - s.ofs := by
    rw [padding_of_not_dvd (by rw [mod_eq_of_lt hlt]; omega), mod_eq_of_lt hlt]
  rw [Writer.pad_eq (dvd_refl _) hpos hlt.le, hpad]
  generalize hs₂ : s.copyIn (replicate (t.erasesize - s.ofs) 0xff) = s₂
  have hofs₂ : s₂.ofs = t.erasesize := by
    rw [← hs₂, Writer.copyIn, length_replicate]
    exact Nat.add_sub_cancel' hlt.le
  have hslice₂ : s₂.buf.slice 0 s₂.ofs
      = cur.flatMap (padded 0xff 4) ++ replicate (t.erasesize - s.ofs) 0xff := by
    rw [← hs₂, Writer.slice_copyIn, hfilled.slice_eq]
  have hflushed₂ : Flushed t start s₂ blocks := hflushed.congr (hs₂ ▸ ⟨rfl, rfl, rfl⟩)
  refine ⟨?_, ?_⟩
  · rw [← hns]
    exact of_full hflushed₂ hblocks hofs₂ hslice₂ (hfilled.head hpos) hfilled.isNode
  · rw [Writer.wrap_of_eq hofs₂]
    rfl

end Holds

/-! ## Directory entries and directories -/

theorem fileNodes_concat_of_not {o : ByteOrder} {ino : UInt32} {n : List UInt8}
    (h : isFileNode o ino n = false) (ns : List (List UInt8)) :
    fileNodes o ino (ns ++ [n]) = fileNodes o ino ns := by
  rw [fileNodes, filter_append, filter_singleton, h]
  exact append_nil _

def nodeStart (ofs : ℕ) : ℕ := if 0 < ofs then ofs else 12

def nodeEnd (ofs : ℕ) : ℕ := ofs + padding 4 ofs

def direntEnd (ofs len : ℕ) : ℕ := nodeEnd (nodeStart ofs + (direntSize + len))

theorem nodeEnd_le (ofs : ℕ) : ofs ≤ nodeEnd ofs ∧ nodeEnd ofs ≤ ofs + 3 := by
  have hpad : padding 4 ofs < 4 := padding_lt (by decide) ofs
  unfold nodeEnd
  omega

theorem direntEnd_le (ofs : ℕ) {len : ℕ} (hlen : len ≤ 255) :
    0 < direntEnd ofs len ∧ direntEnd ofs len ≤ max ofs 12 + 298 := by
  have hend := nodeEnd_le (nodeStart ofs + (direntSize + len))
  have hstart : nodeStart ofs ≤ max ofs 12 := by
    unfold nodeStart
    split_ifs <;> omega
  unfold direntEnd
  unfold direntSize at hend ⊢
  omega

namespace Writer

variable {t : Target} {start s : Writer} {ns : List (List UInt8)}

theorem addData_eq {ptr : List UInt8} (h : s.ofs + ptr.length ≤ t.erasesize) :
    s.addData t ptr = s.copyIn ptr := by
  rw [addData, if_neg (not_lt.mpr h)]

theorem wrap_ofs : (s.wrap t).ofs = s.ofs % t.erasesize := by
  unfold wrap
  split_ifs with h
  · exact h.symm
  · rfl

theorem prepEraseblock_ofs : (s.prepEraseblock t).ofs = nodeStart s.ofs := by
  unfold prepEraseblock nodeStart
  split_ifs with h
  · rfl
  · rw [copyIn, length_cleanmarker, Nat.eq_zero_of_not_pos h]

theorem pad_four_ofs (hpos : 0 < s.ofs) (h : s.ofs ≤ t.erasesize) :
    (s.pad t 4).ofs = nodeEnd s.ofs % t.erasesize := by
  rw [pad_eq t.dvd_erasesize hpos h, wrap_ofs, copyIn, length_replicate, nodeEnd]

theorem not_direntCheck {name : CString} (hofs : s.ofs < t.erasesize) (hname : name.length ≤ 255) :
    ¬ s.direntCheck t name := by
  have hE := t.erasesize_le
  unfold direntCheck
  unfold intMax at hE
  unfold direntSize
  omega

theorem addDirent_holds {name : CString} (h : Holds t start s ns) (hname : name.length ≤ 255)
    (hroom : max s.ofs 12 ≤ 3000) (type : ℕ) (parent : UInt32) :
    ∃ ino s' ns', s.addDirent t name type parent = (ino, s') ∧ ino = s.lastIno + 1
      ∧ Holds t start s' ns' ∧ (∀ i, fileNodes t.order i ns' = fileNodes t.order i ns)
      ∧ s'.ofs = direntEnd s.ofs name.length
      ∧ s'.counters = (s.lastIno + 2, s.lastVersion + 1, s.targetIno) := by
  obtain ⟨hprep, hpos, hle⟩ := h.prepEraseblock
  have hstart := prepEraseblock_ofs (t := t) (s := s)
  have hcounters := counters_prepEraseblock (t := t) (s := s)
  have hcheck : (if s.direntCheck t name then s.pad t t.erasesize else s) = s :=
    if_neg (not_direntCheck h.ofs_lt hname)
  have heq : s.addDirent t name type parent
      = ((s.prepEraseblock t).lastIno + 1,
        ((s.prepEraseblock t).putDirent t name type parent).pad t 4) := by
    rw [addDirent, hcheck]
  generalize s.prepEraseblock t = s₁ at hprep hpos hle hstart hcounters heq
  obtain ⟨hino, hversion, htarget⟩ := counters_eq_iff.mp hcounters
  have hE := t.le_erasesize
  have hmod : name.length % 256 = name.length := mod_eq_of_lt (by omega)
  have hlen := length_rawDirent_node t.order (s₁.dirent name type parent)
  have hofs : (s₁.putDirent t name type parent).ofs
      = s₁.ofs + ((s₁.dirent name type parent).node t.order).length := by
    rw [hlen, putDirent, hmod]
    rfl
  have hsize : ((s₁.dirent name type parent).node t.order).length = 40 + name.length := hlen
  refine ⟨_, _, ns ++ [(s₁.dirent name type parent).node t.order], heq, by rw [hino], ?_, ?_, ?_⟩
  · refine hprep.addNode _ hpos (rawDirent_isNode _ _ hname) ?_ (by omega) ⟨rfl, rfl, rfl⟩ rfl hofs
    intro hmarker
    rw [hmarker, length_cleanmarker] at hsize
    omega
  · intro i
    refine fileNodes_concat_of_not ?_ ns
    rw [isFileNode, rawDirent_nodetype]
    rfl
  · have hend := (direntEnd_le s.ofs hname).2
    refine ⟨?_, ?_⟩
    · rw [pad_four_ofs (by omega) (by omega), hofs, hsize, hstart]
      exact mod_eq_of_lt (by show direntEnd s.ofs name.length < _; omega)
    · rw [counters_pad, counters, putDirent, hino, hversion, htarget]

theorem addDir_holds {name : CString} (h : Holds t start s ns) (hname : name.length ≤ 255)
    (hofs : s.ofs = 0) (parent : UInt32) :
    ∃ ino s' ns', s.addDir t name parent = (ino, s') ∧ ino = s.lastIno + 1
      ∧ Holds t start s' ns' ∧ (∀ i, i ≠ ino → fileNodes t.order i ns' = fileNodes t.order i ns)
      ∧ s'.ofs = nodeEnd (direntEnd 0 name.length + inodeSize)
      ∧ s'.counters = (s.lastIno + 2, s.lastVersion + 1, s.targetIno) := by
  obtain ⟨ino, s₁, ns₁, heq₁, hino, hholds, hfile, hend, hcounters⟩ :=
    addDirent_holds h hname (by rw [hofs]; decide) dtDir parent
  have hE := t.le_erasesize
  rw [hofs] at hend
  obtain ⟨hpos, hle⟩ : 0 < s₁.ofs ∧ s₁.ofs ≤ 310 := by
    rw [hend]
    exact direntEnd_le 0 hname
  have hrbytes : ¬ s₁.rbytes t < inodeSize := by
    rw [rbytes, mod_eq_of_lt (by omega)]
    unfold inodeSize
    omega
  have hprep : s₁.prepEraseblock t = s₁ := if_pos hpos
  have hlen := length_rawInode_bytes t.order (dirInode ino)
  have hsize : ((dirInode ino).bytes t.order).length = 68 := hlen
  have heq : s.addDir t name parent
      = (ino, (s₁.copyIn ((dirInode ino).bytes t.order)).pad t 4) := by
    rw [addDir, heq₁]
    simp only [if_neg hrbytes, hprep]
    rw [addData_eq (by omega)]
  have hnode : IsNode t.order ((dirInode ino).bytes t.order) := by
    have := rawInode_isNode t.order (dirInode ino) [] rfl (zero_le _)
    rwa [append_nil] at this
  refine ⟨ino, _, ns₁ ++ [(dirInode ino).bytes t.order], heq, hino, ?_, ?_, ?_, ?_⟩
  · refine hholds.addNode _ hpos hnode ?_ (by omega) ⟨rfl, rfl, rfl⟩ rfl rfl
    intro hmarker
    rw [hmarker, length_cleanmarker] at hsize
    omega
  · intro i hi
    rw [fileNodes_concat_of_not ?_ ns₁, hfile i]
    have hfield := rawInode_ino t.order (dirInode ino) []
    rw [append_nil] at hfield
    rw [isFileNode, hfield, Bool.and_eq_false_iff]
    right
    rw [beq_eq_false_iff_ne]
    intro heqi
    refine hi (UInt32.toNat_inj.mp ?_)
    rw [← heqi]
    exact mod_eq_of_lt ino.toNat_lt
  · have hcopy : (s₁.copyIn ((dirInode ino).bytes t.order)).ofs = s₁.ofs + 68 := by
      rw [copyIn, hsize]
    have hlast := (nodeEnd_le (s₁.ofs + 68)).2
    rw [pad_four_ofs (by omega) (by omega), hcopy, ← hend]
    exact mod_eq_of_lt (by omega)
  · rw [counters_pad, counters_copyIn, hcounters]

end Writer

/-! ## Files -/

section AddFile

variable {t : Target} {start : Writer} {st : Stat} {inode version : UInt32} {content : List UInt8}

/-- **The invariant of the loops of `add_file`.** -/
structure AddsFile (t : Target) (start : Writer) (st : Stat) (inode version : UInt32)
    (content : List UInt8) (a : Adding) (ns pieces : List (List UInt8)) : Prop where
  holds : Holds t start a.writer ns
  ofs_pos : 0 < a.writer.ofs
  nodes_eq : fileNodes t.order inode ns = pieceNodes t.order st inode version 0 pieces
  content_eq : pieces.flatten ++ a.rest = content
  fOffset_eq : a.fOffset = pieces.flatten.length
  lastVersion_eq : a.writer.lastVersion = version + UInt32.ofNat pieces.length

variable {a : Adding} {ns pieces : List (List UInt8)}
  (h : AddsFile t start st inode version content a ns pieces)

include h

theorem AddsFile.rbytes_eq : a.writer.rbytes t = t.erasesize - a.writer.ofs := by
  rw [Writer.rbytes, mod_eq_of_lt h.holds.ofs_lt]

theorem AddsFile.newBlock : AddsFile t start st inode version content
      { a with writer := (a.writer.pad t t.erasesize).prepEraseblock t } ns pieces
    ∧ ((a.writer.pad t t.erasesize).prepEraseblock t).ofs = 12 := by
  obtain ⟨hpad, hzero⟩ := h.holds.padBlock h.ofs_pos
  obtain ⟨hprep, hpos, _⟩ := hpad.prepEraseblock
  refine ⟨⟨hprep, hpos, h.nodes_eq, h.content_eq, h.fOffset_eq, ?_⟩, ?_⟩
  swap
  · rw [Writer.prepEraseblock_ofs, hzero]
    rfl
  have hcounters : ((a.writer.pad t t.erasesize).prepEraseblock t).counters
      = a.writer.counters := by
    rw [Writer.counters_prepEraseblock, Writer.counters_pad]
  exact (congrArg (·.2.1) hcounters).trans h.lastVersion_eq

omit h

def pieceEnd (t : Target) (ofs len : ℕ) : ℕ :=
  nodeStart (nodeEnd (ofs + (inodeSize + len)) % t.erasesize)

def pieceCount (t : Target) (more : ℕ → ℕ) : ℕ → ℕ → ℕ → ℕ → ℕ
  | 0, _, _, _ => 0
  | fuel + 1, ofs, fOffset, rest =>
    if inodeSize + 128 < t.erasesize - ofs then
      let len := min (min (min (t.erasesize - ofs - inodeSize) 4096) (1 + more fOffset)) rest
      if len = 0 then 0
      else 1 + pieceCount t more fuel (pieceEnd t ofs len) (fOffset + len) (rest - len)
    else pieceCount t more fuel 12 fOffset rest

theorem pieceCount_zero (more : ℕ → ℕ) (fuel ofs fOffset : ℕ) :
    pieceCount t more fuel ofs fOffset 0 = 0 := by
  induction fuel generalizing ofs with
  | zero => rfl
  | succ fuel ih =>
    rw [pieceCount]
    split_ifs with hroom
    · exact if_pos (Nat.min_zero _)
    · exact ih 12

def Writer.addPiece (t : Target) (s : Writer) (st : Stat) (inode : UInt32) (fOffset : ℕ)
    (wbuf : List UInt8) : Writer :=
  (((({ s with lastVersion := s.lastVersion + 1 } : Writer).addData t
    ((pieceInode st inode (s.lastVersion + 1) fOffset wbuf).bytes t.order)).addData t
      wbuf).pad t 4).prepEraseblock t

theorem AddsFile.addPiece (h : AddsFile t start st inode version content a ns pieces)
    (wbuf : List UInt8) {k : ℕ} (hwbuf : wbuf = a.rest.take k)
    (hroom : a.writer.ofs + (inodeSize + wbuf.length) ≤ t.erasesize) (hle : wbuf.length ≤ 4096) :
    AddsFile t start st inode version content
      { writer := a.writer.addPiece t st inode a.fOffset wbuf
        rest := a.rest.drop wbuf.length
        fOffset := a.fOffset + wbuf.length }
      (ns ++ [pieceNode t.order st inode (a.writer.lastVersion + 1) a.fOffset wbuf])
      (pieces ++ [wbuf])
    ∧ (a.writer.addPiece t st inode a.fOffset wbuf).ofs
      = pieceEnd t a.writer.ofs wbuf.length := by
  let s₁ : Writer := { a.writer with lastVersion := a.writer.lastVersion + 1 }
  let ri := pieceInode st inode (a.writer.lastVersion + 1) a.fOffset wbuf
  have hlen : (ri.bytes t.order).length = inodeSize := length_rawInode_bytes t.order ri
  have hcopy : (s₁.addData t (ri.bytes t.order)).addData t wbuf
      = (s₁.copyIn (ri.bytes t.order)).copyIn wbuf := by
    have hofs : (s₁.copyIn (ri.bytes t.order)).ofs = a.writer.ofs + inodeSize := by
      rw [Writer.copyIn, hlen]
    rw [Writer.addData_eq (s := s₁) (by show a.writer.ofs + _ ≤ _; omega),
      Writer.addData_eq (by omega)]
  have hsize : (ri.bytes t.order ++ wbuf).length = inodeSize + wbuf.length := by
    rw [length_append, hlen]
  have hne : ri.bytes t.order ++ wbuf ≠ cleanmarker t.order := by
    intro hmarker
    rw [hmarker, length_cleanmarker] at hsize
    unfold inodeSize at hsize
    omega
  have hadd := h.holds.addNode ((s₁.copyIn (ri.bytes t.order)).copyIn wbuf) h.ofs_pos
    (rawInode_isNode t.order ri wbuf rfl hle) hne (hsize ▸ hroom) ⟨rfl, rfl, rfl⟩
    (blit_append ..) (by rw [length_append, ← add_assoc]; rfl)
  obtain ⟨hprep, hpos, _⟩ := hadd.prepEraseblock
  have hpiece : a.writer.addPiece t st inode a.fOffset wbuf
      = (((s₁.copyIn (ri.bytes t.order)).copyIn wbuf).pad t 4).prepEraseblock t := by
    rw [← hcopy, Writer.addPiece]
  rw [hpiece]
  have hofs : ((s₁.copyIn (ri.bytes t.order)).copyIn wbuf).ofs
      = a.writer.ofs + (inodeSize + wbuf.length) := by
    rw [Writer.copyIn, Writer.copyIn, hlen, add_assoc]
  refine ⟨⟨hprep, hpos, ?_, ?_, ?_, ?_⟩, ?_⟩
  · rw [fileNodes, filter_append, ← fileNodes, h.nodes_eq, filter_singleton,
      isFileNode_pieceNode, pieceNodes_concat, ← h.lastVersion_eq, zero_add, ← h.fOffset_eq]
    rfl
  · have hrest : wbuf ++ a.rest.drop wbuf.length = a.rest :=
      prefix_iff_eq_append.mp (hwbuf ▸ take_prefix k a.rest)
    rw [flatten_append, flatten_singleton, append_assoc, hrest, h.content_eq]
  · rw [flatten_append, flatten_singleton, length_append, ← h.fOffset_eq]
  · have hcounters : ((((s₁.copyIn (ri.bytes t.order)).copyIn wbuf).pad t 4).prepEraseblock
        t).counters = s₁.counters := by
      rw [Writer.counters_prepEraseblock, Writer.counters_pad]
      rfl
    refine (congrArg (·.2.1) hcounters).trans ?_
    show a.writer.lastVersion + 1 = _
    rw [h.lastVersion_eq, length_append, UInt32.ofNat_add, ← UInt32.add_assoc]
    rfl
  · have hpos₁ : 0 < a.writer.ofs + (inodeSize + wbuf.length) := Nat.add_pos_left h.ofs_pos _
    rw [Writer.prepEraseblock_ofs, Writer.pad_four_ofs (hofs ▸ hpos₁) (hofs ▸ hroom), hofs,
      pieceEnd]

def addFileVariant (t : Target) (a : Adding) : ℕ :=
  2 * a.rest.length + if inodeSize + 128 < a.writer.rbytes t then 0 else 1

theorem AddsFile.turn (h : AddsFile t start st inode version content a ns pieces) (more : ℕ → ℕ) :
    (addFileTurn t st inode more a = .leave a.writer ∧ a.rest = [])
      ∨ ∃ a' ns' pieces', addFileTurn t st inode more a = .again a'
        ∧ AddsFile t start st inode version content a' ns' pieces'
        ∧ addFileVariant t a' < addFileVariant t a
        ∧ ∀ fuel, pieces.length + pieceCount t more (fuel + 1) a.writer.ofs a.fOffset a.rest.length
          = pieces'.length + pieceCount t more fuel a'.writer.ofs a'.fOffset a'.rest.length := by
  have hE := t.le_erasesize
  have hrbytes := h.rbytes_eq
  by_cases hroom : inodeSize + 128 < a.writer.rbytes t
  · let k := min (min (a.writer.rbytes t - inodeSize) 4096) (1 + more a.fOffset)
    have hk : 0 < k := by omega
    have hlen : (a.rest.take k).length = min k a.rest.length := length_take
    by_cases hwbuf : a.rest.take k = []
    · left
      refine ⟨?_, ?_⟩
      · simp only [addFileTurn, if_pos hroom]
        exact if_pos hwbuf
      · rw [take_eq_nil_iff] at hwbuf
        exact hwbuf.resolve_left hk.ne'
    · right
      have hpos : 0 < (a.rest.take k).length := length_pos_iff.mpr hwbuf
      have hlt := h.holds.ofs_lt
      obtain ⟨hadds, hofs⟩ := h.addPiece (a.rest.take k) rfl (by omega) (by omega)
      refine ⟨_, _, _, ?_, hadds, ?_, ?_⟩
      · simp only [addFileTurn, if_pos hroom]
        exact if_neg hwbuf
      · unfold addFileVariant
        rw [if_pos hroom, length_drop]
        split_ifs <;> omega
      · intro fuel
        rw [hofs, length_append, length_singleton, length_drop, hlen, add_assoc]
        rw [hrbytes] at hroom
        have hlen' : min (min (min (t.erasesize - a.writer.ofs - inodeSize) 4096)
            (1 + more a.fOffset)) a.rest.length = min k a.rest.length := by rw [← hrbytes]
        rw [pieceCount, if_pos hroom]
        simp only [hlen']
        rw [if_neg (by omega)]
  · right
    obtain ⟨hnew, hofs⟩ := h.newBlock
    refine ⟨_, _, _, if_neg hroom, hnew, ?_, ?_⟩
    · have hrbytes' : Writer.rbytes t ((a.writer.pad t t.erasesize).prepEraseblock t)
          = t.erasesize - ((a.writer.pad t t.erasesize).prepEraseblock t).ofs := hnew.rbytes_eq
      have hspace : inodeSize + 128
          < Writer.rbytes t ((a.writer.pad t t.erasesize).prepEraseblock t) := by
        unfold inodeSize
        omega
      unfold addFileVariant
      rw [if_neg hroom, if_pos hspace]
      exact lt_succ_self _
    · intro fuel
      rw [hrbytes] at hroom
      rw [pieceCount, if_neg hroom, hofs]

theorem addFile_holds {s : Writer} (h : Holds t start s ns) {file : SourceFile}
    (hstat : file.stat = some st) (hdata : file.data = some content)
    (hname : file.fname.length ≤ 255) (hroom : max s.ofs 12 ≤ 3000)
    (hfresh : fileNodes t.order (s.lastIno + 1) ns = []) (parent : UInt32) :
    ∃ s' ns' pieces, s.addFile t file parent = some s' ∧ Holds t start s' ns' ∧ 0 < s'.ofs
      ∧ fileNodes t.order (s.lastIno + 1) ns'
        = pieceNodes t.order st (s.lastIno + 1) (s.lastVersion + 1) 0 pieces
      ∧ pieces.flatten = content
      ∧ pieces.length = pieceCount t file.more (2 * content.length + 3)
        (direntEnd s.ofs file.fname.length) 0 content.length := by
  obtain ⟨ino, s₁, ns₁, heq, hino, hholds, hfile, hofs, hcounters⟩ :=
    Writer.addDirent_holds h hname hroom Writer.dtReg parent
  have hversion : s₁.lastVersion = s.lastVersion + 1 := congrArg (·.2.1) hcounters
  have hstart : AddsFile t start st (s.lastIno + 1) (s.lastVersion + 1) content ⟨s₁, content, 0⟩
      ns₁ [] := by
    refine ⟨hholds, ?_, ?_, rfl, rfl, ?_⟩
    · show 0 < s₁.ofs
      rw [hofs]
      exact (direntEnd_le _ hname).1
    · rw [hfile, hfresh]
      rfl
    · exact hversion.trans (UInt32.add_zero _).symm
  -- the fuel of the count goes down with that of the loop, and stays above the variant
  let Counted (a : Adding) (pieces : List (List UInt8)) : Prop :=
    ∃ fuel, addFileVariant t a < fuel
      ∧ pieces.length + pieceCount t file.more fuel a.writer.ofs a.fOffset a.rest.length
        = pieceCount t file.more (2 * content.length + 3) (direntEnd s.ofs file.fname.length) 0
          content.length
  have hvariant : addFileVariant t ⟨s₁, content, 0⟩ < 2 * content.length + 3 := by
    unfold addFileVariant
    split_ifs <;> simp
  obtain ⟨s', hrun, ns', pieces, hdone, hcount⟩ := Loop.run_of_variant
    (fun a => ∃ ns pieces, AddsFile t start st (s.lastIno + 1) (s.lastVersion + 1) content a ns
      pieces ∧ Counted a pieces)
    (fun s' => ∃ ns' pieces, AddsFile t start st (s.lastIno + 1) (s.lastVersion + 1) content
      ⟨s', [], pieces.flatten.length⟩ ns' pieces ∧ Counted ⟨s', [], pieces.flatten.length⟩ pieces)
    (addFileVariant t)
    (by
      rintro a ⟨ns, pieces, hadds, fuel, hfuel, hcount⟩
      rcases hadds.turn file.more
        with ⟨hleave, hrest⟩ | ⟨a', ns', pieces', hagain, hinv, hlt, hstep⟩
      · have ha : a = ⟨a.writer, [], pieces.flatten.length⟩ := by
          rw [← hrest, ← hadds.fOffset_eq]
        rw [ha] at hadds hfuel hcount
        exact .inl ⟨_, hleave, ns, pieces, hadds, fuel, hfuel, hcount⟩
      · obtain ⟨fuel, rfl⟩ : ∃ n, fuel = n + 1 := ⟨fuel - 1, by omega⟩
        exact .inr ⟨a', hagain, ⟨ns', pieces', hinv, fuel, by omega, by rw [← hstep, hcount]⟩, hlt⟩)
    (s := ⟨s₁, content, 0⟩)
    ⟨ns₁, [], hstart, _, hvariant, by rw [← hofs]; exact zero_add _⟩ hvariant
  obtain ⟨fuel, _, hcount⟩ := hcount
  refine ⟨s', ns', pieces, ?_, hdone.holds, hdone.ofs_pos, hdone.nodes_eq, ?_, ?_⟩
  · rw [Writer.addFile, hstat]
    simp only [heq, hdata, hino]
    exact hrun
  · rw [← hdone.content_eq]
    exact (append_nil _).symm
  · rw [← hcount]
    exact (congrArg (pieces.length + ·) (pieceCount_zero _ _ _ _)).symm

end AddFile

end Jffs2
