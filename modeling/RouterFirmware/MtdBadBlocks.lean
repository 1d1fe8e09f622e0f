import RouterFirmware.MtdWrite

/-!
# Writing past bad blocks

On one partition `mtd_write` skips the blocks whose erase fails.
-/

/-- How many chunks of `erasesize` bytes there are in `n` bytes. -/
def chunkCount (erasesize n : ℕ) : ℕ := (n + erasesize - 1) / erasesize

def imageChunk (erasesize : ℕ) (image : List UInt8) (k : ℕ) : List UInt8 :=
  (image.drop (k * erasesize)).take erasesize

variable {erasesize : ℕ}

theorem chunkCount_le_iff (h : 0 < erasesize) (n m : ℕ) :
    chunkCount erasesize n ≤ m ↔ n ≤ m * erasesize := by
  unfold chunkCount
  rw [Nat.div_le_iff_le_mul_add_pred h, Nat.mul_comm]
  omega

/-- The blocks of a partition that can be erased, in ascending order. -/
def MtdDevice.goodBlocks (d : MtdDevice) : List ℕ :=
  (List.range d.blocks).filter (fun b => !d.bad b)

/-- The byte `i` is erased or written by the operation. -/
def MtdOp.Touches : MtdOp → ℕ → Prop
  | .erase start length, i => start ≤ i ∧ i < start + length
  | .write pos bytes, i => pos ≤ i ∧ i < pos + bytes.length

structure Stored (d : MtdDevice) (image : List UInt8) (fd : MtdFd) : Prop where
  /-- The `k`-th good block holds the `k`-th chunk. -/
  holds : ∀ k < chunkCount d.erasesize image.length, ∃ g, d.goodBlocks[k]? = some g
    ∧ fd.flash.slice (g * d.erasesize) (imageChunk d.erasesize image k).length
      = imageChunk d.erasesize image k
  /-- No bad block is erased or written. -/
  bad_untouched : ∀ op ∈ fd.ops, ∀ i, op.Touches i → d.bad (i / d.erasesize) = false
  /-- Only blocks that hold a chunk are erased or written, and so none after
  the last one used. -/
  only_used : ∀ op ∈ fd.ops, ∀ i, op.Touches i →
    ∃ k < chunkCount d.erasesize image.length, d.goodBlocks[k]? = some (i / d.erasesize)
  /-- What was not touched is what was there. -/
  unchanged : ∀ i, (∀ op ∈ fd.ops, ¬ op.Touches i) → fd.flash i = d.flash i

/-! ## Where an image belongs -/

def storeChunk (fd : MtdFd) (g : ℕ) (chunk : List UInt8) : MtdFd :=
  { fd with
    pos := g * fd.dev.erasesize + chunk.length
    flash := (eraseFlash fd.flash (g * fd.dev.erasesize) fd.dev.erasesize).blit
      (g * fd.dev.erasesize) chunk
    ops := fd.ops ++ [.erase (g * fd.dev.erasesize) fd.dev.erasesize,
      .write (g * fd.dev.erasesize) chunk] }

/-- **An image in a list of blocks**, one chunk in each. -/
def placeImage (fd : MtdFd) : List ℕ → List UInt8 → MtdFd
  | [], _ => fd
  | g :: gs, image =>
    if image = [] then fd
    else placeImage (storeChunk fd g (image.take fd.dev.erasesize)) gs
      (image.drop fd.dev.erasesize)

theorem lt_chunkCount_iff (h : 0 < erasesize) (n k : ℕ) :
    k < chunkCount erasesize n ↔ k * erasesize < n := by
  rw [← not_le, chunkCount_le_iff h, not_le]

theorem imageChunk_succ (erasesize : ℕ) (image : List UInt8) (k : ℕ) :
    imageChunk erasesize image (k + 1) = imageChunk erasesize (image.drop erasesize) k := by
  unfold imageChunk
  rw [List.drop_drop, Nat.succ_mul, Nat.add_comm]

theorem succ_lt_chunkCount_iff (h : 0 < erasesize) (image : List UInt8) (k : ℕ) :
    k + 1 < chunkCount erasesize image.length
      ↔ k < chunkCount erasesize (image.drop erasesize).length := by
  rw [lt_chunkCount_iff h, lt_chunkCount_iff h, List.length_drop, Nat.succ_mul]
  omega

theorem div_erasesize_eq_iff (h : 0 < erasesize) (i g : ℕ) :
    i / erasesize = g ↔ g * erasesize ≤ i ∧ i < g * erasesize + erasesize := by
  rw [← Nat.succ_mul, ← Nat.div_lt_iff_lt_mul h, ← Nat.le_div_iff_mul_le h]
  omega

section Place

variable (fd : MtdFd) (g : ℕ) (chunk : List UInt8) (hlen : chunk.length ≤ fd.dev.erasesize)

include hlen

theorem storeChunk_touches {op : MtdOp} (hop : op ∈ (storeChunk fd g chunk).ops) :
    op ∈ fd.ops ∨ ∀ i, op.Touches i → i / fd.dev.erasesize = g := by
  simp only [storeChunk, List.mem_append, List.mem_cons, List.not_mem_nil, or_false] at hop
  obtain hop | rfl | rfl := hop
  · exact .inl hop
  · exact .inr fun i hi => (div_erasesize_eq_iff fd.dev.erasesize_pos i g).mpr hi
  · refine .inr fun i hi => (div_erasesize_eq_iff fd.dev.erasesize_pos i g).mpr ⟨hi.1, ?_⟩
    exact lt_of_lt_of_le hi.2 (by omega)

theorem storeChunk_flash {i : ℕ} (hi : i / fd.dev.erasesize ≠ g) :
    (storeChunk fd g chunk).flash i = fd.flash i := by
  rw [ne_eq, div_erasesize_eq_iff fd.dev.erasesize_pos] at hi
  exact (Memory.blit_of_outside _ (by omega)).trans (eraseFlash_of_outside _ (by omega))

theorem wrote_erased (hpos : fd.pos = g * fd.dev.erasesize) :
    (fd.erased (g * fd.dev.erasesize)).wrote chunk = storeChunk fd g chunk := by
  have herased : (eraseFlash fd.flash (g * fd.dev.erasesize) fd.dev.erasesize).slice
      (g * fd.dev.erasesize) chunk.length = List.replicate chunk.length 0xff :=
    slice_eraseFlash fd.flash (le_refl _) (Nat.add_le_add_left hlen _)
  unfold MtdFd.wrote MtdFd.erased storeChunk
  rw [hpos]
  simp only [programFlash_of_erased herased, List.append_assoc, List.cons_append, List.nil_append]

omit hlen

variable {fd}

@[simp] theorem placeImage_nil (gs : List ℕ) : placeImage fd gs [] = fd := by
  cases gs <;> simp [placeImage]

theorem placeImage_cons {image : List UInt8} (h : image ≠ []) (g : ℕ) (gs : List ℕ) :
    placeImage fd (g :: gs) image
      = placeImage (storeChunk fd g (image.take fd.dev.erasesize)) gs
          (image.drop fd.dev.erasesize) :=
  if_neg h

theorem placeImage_flash {i : ℕ} (gs : List ℕ) (image : List UInt8)
    (hi : i / fd.dev.erasesize ∉ gs) : (placeImage fd gs image).flash i = fd.flash i := by
  fun_induction placeImage fd gs image with
  | case1 => rfl
  | case2 => rfl
  | case3 fd g gs image _ ih =>
    rw [List.mem_cons, not_or] at hi
    exact (ih hi.2).trans (storeChunk_flash fd g _ (by simp) hi.1)

theorem placeImage_holds {image : List UInt8} {gs : List ℕ} (hgs : gs.Pairwise (· < ·))
    (hfit : chunkCount fd.dev.erasesize image.length ≤ gs.length) {k : ℕ}
    (hk : k < chunkCount fd.dev.erasesize image.length) : ∃ g, gs[k]? = some g
    ∧ (placeImage fd gs image).flash.slice (g * fd.dev.erasesize)
        (imageChunk fd.dev.erasesize image k).length
      = imageChunk fd.dev.erasesize image k := by
  induction gs generalizing fd image k with
  | nil =>
    rw [List.length_nil, Nat.le_zero] at hfit
    rw [hfit] at hk
    exact absurd hk (Nat.not_lt_zero k)
  | cons g gs ih =>
    obtain ⟨hg, hgs'⟩ := List.pairwise_cons.mp hgs
    have hpos := fd.dev.erasesize_pos
    have himage : image ≠ [] := by
      rintro rfl
      rw [lt_chunkCount_iff hpos] at hk
      exact absurd hk (Nat.not_lt_zero _)
    rw [placeImage_cons himage]
    cases k with
    | zero =>
      refine ⟨g, rfl, ?_⟩
      have hchunk : imageChunk fd.dev.erasesize image 0 = image.take fd.dev.erasesize := by
        simp [imageChunk]
      rw [hchunk]
      -- the later chunks are in later blocks
      refine (Memory.slice_congr fun i hi => placeImage_flash gs _ fun hmem => ?_).trans
        (Memory.slice_blit_self _ _ _)
      have hlt : i < fd.dev.erasesize := lt_of_lt_of_le hi (List.length_take_le _ _)
      have hblock := (div_erasesize_eq_iff hpos (g * fd.dev.erasesize + i) g).mpr
        ⟨Nat.le_add_right _ _, by omega⟩
      rw [show (storeChunk fd g (image.take fd.dev.erasesize)).dev = fd.dev from rfl,
        hblock] at hmem
      exact absurd (hg g hmem) (lt_irrefl g)
    | succ k =>
      rw [succ_lt_chunkCount_iff hpos] at hk
      rw [imageChunk_succ, List.getElem?_cons_succ]
      let fd' := storeChunk fd g (image.take fd.dev.erasesize)
      have hk' : k < chunkCount fd'.dev.erasesize (image.drop fd.dev.erasesize).length := hk
      refine ih hgs' ?_ hk'
      have hle := (chunkCount_le_iff hpos _ _).mp hfit
      refine (chunkCount_le_iff hpos _ _).mpr ?_
      rw [List.length_cons, Nat.succ_mul] at hle
      rw [List.length_drop]
      show _ - fd.dev.erasesize ≤ gs.length * fd.dev.erasesize
      omega

theorem placeImage_touches {op : MtdOp} (gs : List ℕ) (image : List UInt8)
    (hop : op ∈ (placeImage fd gs image).ops) :
    op ∈ fd.ops ∨ ∃ k < chunkCount fd.dev.erasesize image.length, ∃ g, gs[k]? = some g
      ∧ ∀ i, op.Touches i → i / fd.dev.erasesize = g := by
  fun_induction placeImage fd gs image with
  | case1 => exact .inl hop
  | case2 => exact .inl hop
  | case3 fd g gs image himage ih =>
    have hpos := fd.dev.erasesize_pos
    rcases ih hop with hop | ⟨k, hk, g', hg', htouch⟩
    · rcases storeChunk_touches fd g _ (by simp) hop with hop | htouch
      · exact .inl hop
      · refine .inr ⟨0, (lt_chunkCount_iff hpos _ _).mpr ?_, g, rfl, htouch⟩
        rw [zero_mul]
        exact List.length_pos_iff.mpr himage
    · exact .inr ⟨k + 1, (succ_lt_chunkCount_iff hpos image k).mpr hk, g', hg', htouch⟩

theorem placeImage_unchanged {i : ℕ} (gs : List ℕ) (image : List UInt8)
    (hi : ∀ op ∈ (placeImage fd gs image).ops, ¬ op.Touches i) :
    (∀ op ∈ fd.ops, ¬ op.Touches i) ∧ (placeImage fd gs image).flash i = fd.flash i := by
  fun_induction placeImage fd gs image with
  | case1 => exact ⟨hi, rfl⟩
  | case2 => exact ⟨hi, rfl⟩
  | case3 fd g gs image _ ih =>
    obtain ⟨hops, hflash⟩ := ih hi
    have herase := hops (.erase (g * fd.dev.erasesize) fd.dev.erasesize) (by simp [storeChunk])
    refine ⟨fun op hop => hops op (List.mem_append_left _ hop), hflash.trans ?_⟩
    exact storeChunk_flash fd g _ (by simp) fun hblock =>
      herase ((div_erasesize_eq_iff fd.dev.erasesize_pos i g).mp hblock)

end Place

theorem stored_placeImage (d : MtdDevice) {image : List UInt8}
    (hfit : chunkCount d.erasesize image.length ≤ d.goodBlocks.length) :
    Stored d image (placeImage d.opened d.goodBlocks image) := by
  have hused : ∀ op ∈ (placeImage d.opened d.goodBlocks image).ops, ∀ i, op.Touches i →
      ∃ k < chunkCount d.erasesize image.length, d.goodBlocks[k]? = some (i / d.erasesize) := by
    intro op hop i hi
    obtain h | ⟨k, hk, g, hg, htouch⟩ := placeImage_touches d.goodBlocks image hop
    · cases h
    · exact ⟨k, hk, (htouch i hi).symm ▸ hg⟩
  refine ⟨fun k hk => ?_, fun op hop i hi => ?_, hused, fun i hi => ?_⟩
  · have hpw : d.goodBlocks.Pairwise (· < ·) := List.pairwise_lt_range.filter _
    exact placeImage_holds (show d.goodBlocks.Pairwise _ from hpw) hfit hk
  · obtain ⟨k, -, hg⟩ := hused op hop i hi
    simpa using (List.mem_filter.mp (List.mem_of_getElem? hg)).2
  · exact (placeImage_unchanged d.goodBlocks image hi).2

/-! ## The good blocks from a block on -/

/-- **The first good block from `b` on** is `g`. -/
structure NextGood (d : MtdDevice) (b g : ℕ) : Prop where
  le : b ≤ g
  lt : g < d.blocks
  bad : ∀ b', b ≤ b' → b' < g → d.bad b' = true
  good : d.bad g = false

/-- **The good blocks from `b` on** are the ones of the list. -/
inductive GoodFrom (d : MtdDevice) : ℕ → List ℕ → Prop where
  | nil {b : ℕ} (hbad : ∀ b', b ≤ b' → d.blocks ≤ b' ∨ d.bad b' = true) : GoodFrom d b []
  | cons {b g : ℕ} {gs : List ℕ} (hg : NextGood d b g) (hgs : GoodFrom d (g + 1) gs) :
      GoodFrom d b (g :: gs)

/-- **The writes of an image of `n` bytes to a list of blocks are complete**. -/
def Accepted (d : MtdDevice) : List ℕ → ℕ → Prop
  | [], _ => True
  | g :: gs, n =>
    n = 0 ∨ (d.accepts (g * d.erasesize) (min d.erasesize n) = some (min d.erasesize n)
      ∧ Accepted d gs (n - d.erasesize))

variable {d : MtdDevice} {b : ℕ} {gs : List ℕ}

theorem GoodFrom.of_bad (h : GoodFrom d (b + 1) gs) (hbad : d.bad b = true) : GoodFrom d b gs := by
  cases h with
  | nil hbad' =>
    refine .nil fun b' hb' => ?_
    rcases eq_or_lt_of_le hb' with rfl | hlt
    · exact .inr hbad
    · exact hbad' b' hlt
  | cons hg hgs =>
    refine .cons ⟨le_of_lt hg.le, hg.lt, fun b' hb' hlt => ?_, hg.good⟩ hgs
    rcases eq_or_lt_of_le hb' with rfl | hlt'
    · exact hbad
    · exact hg.bad b' hlt' hlt

theorem GoodFrom.next (h : GoodFrom d b gs) :
    (d.blocks ≤ b ∨ d.bad b = true) ∧ GoodFrom d (b + 1) gs
      ∨ ∃ gs', gs = b :: gs' ∧ b < d.blocks ∧ d.bad b = false ∧ GoodFrom d (b + 1) gs' := by
  cases h with
  | nil hbad => exact .inl ⟨hbad b le_rfl, .nil fun b' hb' => hbad b' (by omega)⟩
  | @cons _ g gs hg hgs =>
    rcases eq_or_lt_of_le hg.le with rfl | hlt
    · exact .inr ⟨gs, rfl, hg.lt, hg.good, hgs⟩
    · exact .inl ⟨.inr (hg.bad b le_rfl hlt),
        .cons ⟨hlt, hg.lt, fun b' hb' => hg.bad b' (by omega), hg.good⟩ hgs⟩

theorem GoodFrom.add_length_le (h : GoodFrom d b gs)
    (hb : b ≤ d.blocks) : b + gs.length ≤ d.blocks := by
  induction h with
  | nil => exact hb
  | cons hg _ ih =>
    have hrest := ih hg.lt
    have hle := hg.le
    rw [List.length_cons]
    omega

theorem goodFrom_range' (d : MtdDevice) (n b : ℕ) (h : b + n = d.blocks) :
    GoodFrom d b ((List.range' b n).filter (fun b => !d.bad b)) := by
  induction n generalizing b with
  | zero => exact .nil fun b' hb' => .inl (by omega)
  | succ n ih =>
    rw [List.range'_succ]
    have hrest := ih (b + 1) (by omega)
    cases hb : d.bad b with
    | false =>
      rw [List.filter_cons_of_pos (by simp [hb])]
      exact .cons ⟨le_rfl, by omega, fun b' hle hlt => absurd hlt (by omega), hb⟩ hrest
    | true =>
      rw [List.filter_cons_of_neg (by simp [hb])]
      exact hrest.of_bad hb

theorem goodFrom_goodBlocks (d : MtdDevice) : GoodFrom d 0 d.goodBlocks := by
  unfold MtdDevice.goodBlocks
  rw [List.range_eq_range']
  exact goodFrom_range' d d.blocks 0 (zero_add _)

theorem accepted_of_writesComplete (hw : d.WritesComplete) (hgs : GoodFrom d b gs)
    (n : ℕ) : Accepted d gs n := by
  induction hgs generalizing n with
  | nil => trivial
  | @cons b g gs hg _ ih =>
    have hend := (d.block_le_size_iff g).mpr hg.lt
    have hpos := d.erasesize_pos
    by_cases hn : n = 0
    · exact .inl hn
    · exact .inr ⟨hw _ _ (by omega) (by omega), ih _⟩

/-! ## One chunk -/

namespace MtdWrite

open List Nat MtdFd Loop

variable {s : MtdWrite} {g : ℕ}

/-- The state with the file position and both counters at the block `b`. -/
def atBlock (s : MtdWrite) (b : ℕ) : MtdWrite :=
  { s with
    w := b * s.fd.dev.erasesize
    e := b * s.fd.dev.erasesize
    fd := { s.fd with pos := b * s.fd.dev.erasesize } }

section Erase

variable (hpc : s.pc = .erase) (hpos : 0 < s.buflen) (hlen : s.buflen ≤ s.fd.dev.erasesize)

include hpc hpos hlen

theorem steps_skip (hnext : s.next = []) (hle : b ≤ g) (hlt : g < s.fd.dev.blocks)
    (hbad : ∀ b', b ≤ b' → b' < g → s.fd.dev.bad b' = true) :
    Loop.Steps plain (s.atBlock b) (s.atBlock g) := by
  induction g, hle using le_induction with
  | base => exact Loop.Steps.refl _
  | succ g hle ih =>
    refine (ih (by omega) fun b' h₁ h₂ => hbad b' h₁ (by omega)).trans (Loop.Steps.single ?_)
    have hend := (s.fd.dev.block_le_size_iff g).mpr (by omega)
    have hsize := s.fd.dev.size_le
    have hturn := plain_erase_bad (s := s.atBlock g) (b := g) hpc hnext rfl
      (by dsimp only [atBlock]; omega) (by dsimp only [atBlock]; omega)
      (by dsimp only [atBlock]; omega) (by dsimp only [atBlock]; omega)
      (.inr (hbad g hle (lt_succ_self g)))
    rw [hturn, lseekCur_of_le
      (show g * s.fd.dev.erasesize + s.fd.dev.erasesize ≤ s.fd.dev.size from hend)]
    simp only [atBlock, succ_mul]

/-- The block `g` is erased, and the buffer about to be written to it. -/
def atErased (s : MtdWrite) (g : ℕ) : MtdWrite :=
  { s.atBlock g with
    pc := .write
    e := (g + 1) * s.fd.dev.erasesize
    fd := (s.atBlock g).fd.erased (g * s.fd.dev.erasesize) }

theorem steps_erase (hnext : s.next = []) (hg : NextGood s.fd.dev b g) :
    Loop.Steps plain (s.atBlock b) (s.atErased g) := by
  have hend := (s.fd.dev.block_le_size_iff g).mpr hg.lt
  have hsize := s.fd.dev.size_le
  have hskip := steps_skip hpc hpos hlen hnext hg.le hg.lt hg.bad
  have herase := plain_erase_good (s := s.atBlock g) (b := g) hpc rfl
    (by dsimp only [atBlock]; omega) (by dsimp only [atBlock]; omega) hg.lt hg.good
  refine hskip.trans ((Loop.Steps.single herase).trans (.single (plain_erase_done hpc ?_ ?_)))
  · show g * s.fd.dev.erasesize + s.buflen ≤ (g + 1) * s.fd.dev.erasesize
    rw [succ_mul]
    omega
  · dsimp only [atBlock]
    omega

end Erase

theorem steps_store (hoff : s.offset = 0) (hlen : s.buflen ≤ s.fd.dev.erasesize)
    (hacc : s.fd.dev.accepts (g * s.fd.dev.erasesize) s.buflen = some s.buflen) :
    Loop.Steps plain (s.atErased g) { s with
      pc := .fill
      w := g * s.fd.dev.erasesize + s.buflen
      e := (g + 1) * s.fd.dev.erasesize
      buflen := 0
      offset := 0
      fd := storeChunk s.fd g s.pending } := by
  have hfd : ((s.atBlock g).fd.erased (g * s.fd.dev.erasesize)).wrote s.pending
      = storeChunk s.fd g s.pending :=
    wrote_erased (s.atBlock g).fd g s.pending (by rw [length_pending]; exact hlen) rfl
  rw [← hfd]
  exact .single (plain_write (s := s.atErased g) rfl hoff hacc)

structure Aligned (s : MtdWrite) (b : ℕ) : Prop where
  pc : s.pc = .fill
  next : s.next = []
  offset : s.offset = 0
  buflen : s.buflen ≤ s.fd.dev.erasesize
  atBlock : s.atBlock b = s
  reads : Faultless s.reads

theorem ends_of_left_eq_nil (hpc : s.pc = .fill) (hleft : s.left = []) :
    ∃ s', Loop.Ends plain s (.returned s') ∧ s'.fd = s.fd := by
  have hlen : s.afterFill.buflen = 0 := by
    have h := left_afterFill s
    rw [hleft] at h
    rw [← length_pending, (append_eq_nil_iff.mp h).1, length_nil]
  exact ⟨s.afterFill, ends_of_leave (plain_fill_done hpc hlen), rfl⟩

def afterChunk (s : MtdWrite) (g : ℕ) : MtdWrite :=
  { s.afterFill with
    pc := .fill
    w := g * s.fd.dev.erasesize + s.afterFill.buflen
    e := (g + 1) * s.fd.dev.erasesize
    buflen := 0
    offset := 0
    fd := storeChunk s.fd g s.afterFill.pending }

variable (hs : s.Aligned b) (hleft : s.left ≠ [])

include hs hleft

theorem Aligned.steps_fill : Loop.Steps plain s ({ s.afterFill with pc := .erase }.atBlock b)
    ∧ 0 < s.afterFill.buflen ∧ s.afterFill.buflen = min s.fd.dev.erasesize s.left.length := by
  have hpending := pending_afterFill hs.reads hs.buflen
  have hlen : s.afterFill.buflen = min s.fd.dev.erasesize s.left.length := by
    rw [← length_pending, hpending, length_take]
  have hpos := s.fd.dev.erasesize_pos
  have hleft' := length_pos_iff.mpr hleft
  refine ⟨?_, by omega, hlen⟩
  have hat : { s.afterFill with pc := .erase }.atBlock b = { s.afterFill with pc := .erase } :=
    congrArg (fun s : MtdWrite => { s.afterFill with pc := MtdPc.erase }) hs.atBlock
  rw [hat]
  exact .single (plain_fill hs.pc (by omega))

variable (hg : NextGood s.fd.dev b g)

include hg

theorem Aligned.steps_erased :
    Loop.Steps plain s ({ s.afterFill with pc := .erase }.atErased g) := by
  obtain ⟨hfill, hpos, hlen⟩ := hs.steps_fill hleft
  exact hfill.trans (steps_erase (s := { s.afterFill with pc := .erase }) rfl hpos
    (hlen.trans_le (min_le_left _ _)) hs.next hg)

/-- **The block takes the next chunk** in one call. -/
def Takes (s : MtdWrite) (g : ℕ) : Prop :=
  s.fd.dev.accepts (g * s.fd.dev.erasesize) (min s.fd.dev.erasesize s.left.length)
    = some (min s.fd.dev.erasesize s.left.length)

theorem Aligned.steps_chunk (hacc : s.Takes g) : Loop.Steps plain s (s.afterChunk g) := by
  obtain ⟨-, -, hlen⟩ := hs.steps_fill hleft
  rw [Takes, ← hlen] at hacc
  exact (hs.steps_erased hleft hg).trans (steps_store (s := { s.afterFill with pc := .erase })
    hs.offset (hlen.trans_le (min_le_left _ _)) hacc)

theorem Aligned.exits_of_refused (hacc : ¬ s.Takes g) :
    ∃ msg s', Loop.Ends plain s (.exited msg s') := by
  obtain ⟨-, -, hlen⟩ := hs.steps_fill hleft
  rw [Takes, ← hlen] at hacc
  obtain ⟨msg, s', hturn⟩ := plain_write_refused
    (s := { s.afterFill with pc := .erase }.atErased g) rfl hacc
  simp only [ends_iff_of_steps (hs.steps_erased hleft hg)]
  exact ⟨msg, s', ends_of_leave hturn⟩

omit hleft hg

theorem Aligned.left_afterChunk (g : ℕ) : (s.afterChunk g).left = s.left.drop s.fd.dev.erasesize :=
  readContent_afterFill hs.reads hs.buflen

theorem Aligned.fd_afterChunk (g : ℕ) :
    (s.afterChunk g).fd = storeChunk s.fd g (s.left.take s.fd.dev.erasesize) := by
  rw [← pending_afterFill hs.reads hs.buflen]
  rfl

theorem Aligned.afterChunk
    (hfull : s.fd.dev.erasesize ≤ s.left.length) : (s.afterChunk g).Aligned (g + 1) := by
  have hlen : s.afterFill.pending.length = s.fd.dev.erasesize := by
    rw [pending_afterFill hs.reads hs.buflen, length_take, min_eq_left hfull]
  refine ⟨rfl, hs.next, rfl, zero_le _, ?_, faultless_afterFill hs.reads⟩
  rw [length_pending] at hlen
  simp only [MtdWrite.atBlock, MtdWrite.afterChunk, storeChunk, length_pending, hlen, succ_mul]

omit hs

/-! ## The whole image -/

theorem ends_of_fits (hgs : GoodFrom s.fd.dev b gs) (hs : s.Aligned b)
    (hacc : Accepted s.fd.dev gs s.left.length)
    (hfit : s.left.length ≤ gs.length * s.fd.dev.erasesize) :
    ∃ s', Loop.Ends plain s (.returned s') ∧ s'.fd = placeImage s.fd gs s.left := by
  by_cases hleft : s.left = []
  · rw [hleft, placeImage_nil]
    exact ends_of_left_eq_nil hs.pc hleft
  induction gs generalizing s b with
  | nil =>
    rw [length_nil, zero_mul, le_zero, length_eq_zero_iff] at hfit
    exact absurd hfit hleft
  | cons g gs ih =>
    cases hgs with
    | cons hg hgs =>
    obtain ⟨hacc₀, hacc⟩ := hacc.resolve_left (length_pos_iff.mpr hleft).ne'
    have hsteps := hs.steps_chunk hleft hg hacc₀
    have hleft₁ := hs.left_afterChunk g
    have hplace : placeImage s.fd (g :: gs) s.left
        = placeImage (s.afterChunk g).fd gs (s.afterChunk g).left := by
      rw [placeImage_cons hleft, hleft₁, hs.fd_afterChunk]
    rw [hplace]
    simp only [ends_iff_of_steps hsteps]
    by_cases hrest : (s.afterChunk g).left = []
    · rw [hrest, placeImage_nil]
      exact ends_of_left_eq_nil rfl hrest
    · have hfull : s.fd.dev.erasesize < s.left.length := by
        rw [hleft₁, ← ne_eq, ne_eq, drop_eq_nil_iff] at hrest
        omega
      refine ih hgs (hs.afterChunk hfull.le) (by rwa [hleft₁, length_drop]) ?_ hrest
      rw [hleft₁, length_drop]
      rw [length_cons, succ_mul] at hfit
      show s.left.length - s.fd.dev.erasesize ≤ gs.length * s.fd.dev.erasesize
      omega

theorem exits_of_not_accepted (hgs : GoodFrom s.fd.dev b gs)
    (hs : s.Aligned b) (hacc : ¬ Accepted s.fd.dev gs s.left.length) :
    ∃ msg s', Loop.Ends plain s (.exited msg s') := by
  induction gs generalizing s b with
  | nil => exact absurd trivial hacc
  | cons g gs ih =>
    cases hgs with
    | cons hg hgs =>
    rw [Accepted, not_or, not_and] at hacc
    have hleft : s.left ≠ [] := List.length_pos_iff.mp (Nat.pos_of_ne_zero hacc.1)
    by_cases hacc₀ : s.Takes g
    swap
    · exact hs.exits_of_refused hleft hg hacc₀
    have hrest : ¬ Accepted s.fd.dev gs (s.left.length - s.fd.dev.erasesize) := hacc.2 hacc₀
    simp only [ends_iff_of_steps (hs.steps_chunk hleft hg hacc₀)]
    -- a refused write has bytes left to write, so that this chunk was a whole one
    have hfull : s.fd.dev.erasesize ≤ s.left.length := by
      by_contra hlt'
      rw [Nat.sub_eq_zero_of_le (by omega)] at hrest
      exact hrest (by cases gs <;> simp [Accepted])
    exact ih hgs (hs.afterChunk hfull) (by rwa [hs.left_afterChunk, length_drop])

/-- **The erasing loop without room for the buffer.** -/
structure Stuck (s : MtdWrite) : Prop where
  pc : s.pc = .erase
  next : s.next = []
  room : ∃ b gs, s.e = b * s.fd.dev.erasesize ∧ GoodFrom s.fd.dev b gs
    ∧ s.e + gs.length * s.fd.dev.erasesize < s.w + s.buflen

theorem stuck_of_not_fits (hgs : GoodFrom s.fd.dev b gs)
    (hs : s.Aligned b) (hacc : Accepted s.fd.dev gs s.left.length)
    (hfit : gs.length * s.fd.dev.erasesize < s.left.length) :
    ∃ s', Loop.Steps plain s s' ∧ s'.Stuck := by
  have hleft : s.left ≠ [] := ne_nil_of_length_pos (by omega)
  induction gs generalizing s b with
  | nil =>
    obtain ⟨hfill, hpos, -⟩ := hs.steps_fill hleft
    refine ⟨_, hfill, rfl, hs.next, b, [], rfl, hgs, ?_⟩
    rw [length_nil, zero_mul, add_zero]
    exact Nat.lt_add_of_pos_right hpos
  | cons g gs ih =>
    cases hgs with
    | cons hg hgs =>
    obtain ⟨hacc₀, hacc⟩ := hacc.resolve_left (length_pos_iff.mpr hleft).ne'
    have hsteps := hs.steps_chunk hleft hg hacc₀
    rw [length_cons, succ_mul] at hfit
    have hrest : gs.length * (s.afterChunk g).fd.dev.erasesize < (s.afterChunk g).left.length := by
      rw [hs.left_afterChunk, length_drop]
      show gs.length * s.fd.dev.erasesize < _
      omega
    have hs₁ : (s.afterChunk g).Aligned (g + 1) := hs.afterChunk (by omega)
    obtain ⟨s', hsteps', hstuck⟩ := ih (s := s.afterChunk g) hgs hs₁
      (by rwa [hs.left_afterChunk, length_drop]) hrest (ne_nil_of_length_pos (by omega))
    exact ⟨s', hsteps.trans hsteps', hstuck⟩

theorem Stuck.turn (hs : s.Stuck) :
    (∃ s', plain s = .again s' ∧ s'.Stuck) ∨ ∃ s', plain s = .leave (.undefined s') := by
  obtain ⟨b, gs, he, hgs, hroom⟩ := hs.room
  have hlt : s.e < s.w + s.buflen := by omega
  by_cases hint : s.w + s.buflen ≤ intMax
  swap
  · refine .inr ⟨s, ?_⟩
    simp only [plain, step, hs.pc, eraseTurn, if_pos (not_le.mp hint)]
  rcases hgs.next with ⟨hbad, hgs⟩ | ⟨gs, rfl, hb, hgood, hgs⟩
  · by_cases hsize : s.w + s.fd.dev.erasesize ≤ intMax ∧ s.e + s.fd.dev.erasesize ≤ intMax
    · have hturn := plain_erase_bad hs.pc hs.next he hlt hint hsize.1 hsize.2 hbad
      refine .inl ⟨_, hturn, hs.pc, hs.next, b + 1, gs, ?_, ?_, ?_⟩
      · show s.e + s.fd.dev.erasesize = _
        rw [lseekCur_dev, he, succ_mul]
      · rw [lseekCur_dev]
        exact hgs
      · show s.e + s.fd.dev.erasesize + _ < s.w + s.fd.dev.erasesize + s.buflen
        rw [lseekCur_dev]
        omega
    · refine .inr ⟨s, ?_⟩
      have hnone : s.fd.mtdEraseBlock s.e = none := by
        rw [he]
        exact mtdEraseBlock_of_bad hbad
      simp only [plain, step, hs.pc, eraseTurn, hnone, hs.next, if_pos hlt]
      rw [if_neg (by omega), if_pos (by omega)]
  · have hturn := plain_erase_good hs.pc he hlt hint hb hgood
    refine .inl ⟨_, hturn, hs.pc, hs.next, b + 1, gs, rfl, hgs, ?_⟩
    show (b + 1) * s.fd.dev.erasesize + gs.length * s.fd.dev.erasesize < s.w + s.buflen
    rw [length_cons, succ_mul] at hroom
    rw [succ_mul]
    omega

theorem Stuck.undefined (hs : s.Stuck) {r : MtdResult} (h : Loop.Ends plain s r) :
    ∃ s', r = .undefined s' := by
  refine post_of_ends Stuck (fun r => ∃ s', r = .undefined s') ?_ ?_ hs h
  · intro s s' hs hturn
    obtain ⟨s₁, h₁, hstuck⟩ | ⟨s₁, h₁⟩ := hs.turn <;> cases hturn.symm.trans h₁
    exact hstuck
  · intro s r hs hturn
    obtain ⟨s₁, h₁, -⟩ | ⟨s₁, h₁⟩ := hs.turn <;> cases hturn.symm.trans h₁
    exact ⟨s₁, rfl⟩

theorem aligned_start (d : MtdDevice) (buf : Bytes) {buflen : ℕ}
    (hlen : buflen ≤ d.erasesize) (reads : List ReadResult) (hreads : Faultless reads) :
    (start d [] buf buflen reads).Aligned 0 := by
  refine ⟨rfl, rfl, rfl, hlen, ?_, hreads⟩
  simp [MtdWrite.atBlock, start, MtdDevice.opened]

end MtdWrite

/-! ## The results -/

/-- The write loop has ended as it should. -/
def MtdResult.Settled (d : MtdDevice) (image : List UInt8) : MtdResult → Prop
  | .returned s => Stored d image s.fd
  | .exited _ _ => True
  | .undefined _ => False

namespace MtdWrite

variable {s : MtdWrite} (hs : s.Aligned 0) (hnew : s.fd = d.opened)

include hs hnew

theorem Aligned.stores_of_fits (hacc : Accepted d d.goodBlocks s.left.length)
    (hfit : chunkCount d.erasesize s.left.length ≤ d.goodBlocks.length) :
    ∃ s', Loop.Ends plain s (.returned s') ∧ Stored d s.left s'.fd := by
  have hdev : s.fd.dev = d := by rw [hnew]; rfl
  obtain ⟨s', hends, hfd⟩ := ends_of_fits (hdev ▸ goodFrom_goodBlocks d) hs (hdev ▸ hacc)
    (hdev ▸ (chunkCount_le_iff d.erasesize_pos _ _).mp hfit)
  refine ⟨s', hends, ?_⟩
  rw [hfd, hnew]
  exact stored_placeImage d hfit

/-- **How the loop ends** from its first turn on. -/
theorem Aligned.settles_iff : (∃ r, Loop.Ends plain s r ∧ r.Settled d s.left)
    ↔ chunkCount d.erasesize s.left.length ≤ d.goodBlocks.length
      ∨ ¬ Accepted d d.goodBlocks s.left.length := by
  have hdev : s.fd.dev = d := by rw [hnew]; rfl
  have hgs : GoodFrom s.fd.dev 0 d.goodBlocks := hdev ▸ goodFrom_goodBlocks d
  by_cases hacc : Accepted d d.goodBlocks s.left.length
  swap
  · obtain ⟨msg, s', hends⟩ := exits_of_not_accepted hgs hs (hdev ▸ hacc)
    exact iff_of_true ⟨_, hends, trivial⟩ (.inr hacc)
  by_cases hfit : chunkCount d.erasesize s.left.length ≤ d.goodBlocks.length
  · obtain ⟨s', hends, hstored⟩ := hs.stores_of_fits hnew hacc hfit
    exact iff_of_true ⟨.returned s', hends, hstored⟩ (.inl hfit)
  · refine iff_of_false ?_ (not_or.mpr ⟨hfit, not_not.mpr hacc⟩)
    rintro ⟨r, hends, hr⟩
    obtain ⟨s', hsteps, hstuck⟩ := stuck_of_not_fits hgs hs (hdev ▸ hacc)
      (hdev ▸ (lt_chunkCount_iff d.erasesize_pos _ _).mp (not_le.mp hfit))
    obtain ⟨s'', rfl⟩ := hstuck.undefined ((Loop.ends_iff_of_steps hsteps).mp hends)
    exact hr

end MtdWrite

section OnePartition

variable (d) (buf : Bytes) (buflen : ℕ) (hlen : buflen ≤ d.erasesize)
  (reads : List ReadResult) (hreads : Faultless reads)

include hlen hreads

/-- **Bad-block-aware flashing stores the image**: with as many good blocks
as the image has chunks, `mtd_write` returns, and the good blocks in
ascending order hold the chunks. -/
theorem mtdWrite_stores_image (hw : d.WritesComplete)
    (hfit : chunkCount d.erasesize (buf.slice 0 buflen ++ readContent reads).length
      ≤ d.goodBlocks.length) :
    ∃ s, Loop.Ends MtdWrite.plain (.start d [] buf buflen reads) (.returned s)
      ∧ Stored d (buf.slice 0 buflen ++ readContent reads) s.fd :=
  (MtdWrite.aligned_start d buf hlen reads hreads).stores_of_fits rfl
    (accepted_of_writesComplete hw (goodFrom_goodBlocks d) _) hfit

/-- **When the write loop of `mtd_write` ends**: exactly if there are good
blocks enough for the image, or a write to one of them is refused. -/
theorem mtdWrite_ends_iff : (∃ r, Loop.Ends MtdWrite.plain (.start d [] buf buflen reads) r
      ∧ r.Settled d (buf.slice 0 buflen ++ readContent reads))
    ↔ chunkCount d.erasesize (buf.slice 0 buflen ++ readContent reads).length
        ≤ d.goodBlocks.length
      ∨ ¬ Accepted d d.goodBlocks (buf.slice 0 buflen ++ readContent reads).length :=
  (MtdWrite.aligned_start d buf hlen reads hreads).settles_iff rfl

end OnePartition

/-- Three blocks of four bytes, the second of them bad. -/
def badSecond : MtdDevice :=
  .reliableFour 3 (by decide) (fun b => b == 1)

theorem badSecond_writesComplete : badSecond.WritesComplete :=
  MtdDevice.reliable_writesComplete 4 3 _ _ _ _

def sixBytes : List ReadResult := [.data [1, 2, 3, 4, 5], .fail .eintr, .data [6]]

/-- The six bytes go to the first and the third block. -/
theorem mtdWrite_stores_image_badSecond :
    ∃ s, Loop.Ends MtdWrite.plain (.start badSecond [] (fun _ => 0) 0 sixBytes) (.returned s)
      ∧ Stored badSecond [1, 2, 3, 4, 5, 6] s.fd :=
  mtdWrite_stores_image badSecond (fun _ => 0) 0 (by decide) sixBytes (by decide)
    badSecond_writesComplete (by decide)

/-- Six bytes have two chunks, and there are two good blocks. -/
theorem mtdWrite_ends_iff_badSecond :
    ∃ r, Loop.Ends MtdWrite.plain (.start badSecond [] (fun _ => 0) 0 sixBytes) r
      ∧ r.Settled badSecond [1, 2, 3, 4, 5, 6] :=
  (mtdWrite_ends_iff badSecond (fun _ => 0) 0 (by decide) sixBytes (by decide)).mpr
    (.inl (by decide))

/-- Twelve bytes have a third chunk, for which no good block is left: no
number of turns ends the loop with the image stored or with an error. -/
theorem mtdWrite_never_ends : ¬ ∃ r, Loop.Ends MtdWrite.plain
      (.start badSecond [] (fun _ => 0) 0 [.data [1, 2, 3, 4, 5, 6, 7, 8, 9, 10, 11, 12]]) r
    ∧ r.Settled badSecond [1, 2, 3, 4, 5, 6, 7, 8, 9, 10, 11, 12] := by
  have hstart := MtdWrite.aligned_start badSecond (fun _ => 0) (Nat.zero_le _)
    [.data [1, 2, 3, 4, 5, 6, 7, 8, 9, 10, 11, 12]] (by decide)
  have hiff := hstart.settles_iff rfl
  refine mt hiff.mp (not_or.mpr ⟨by decide, not_not.mpr ?_⟩)
  exact accepted_of_writesComplete badSecond_writesComplete (goodFrom_goodBlocks _) _
