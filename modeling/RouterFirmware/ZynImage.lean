import RouterFirmware.Alignment
import RouterFirmware.Fallible
import RouterFirmware.InternetChecksum
import RouterFirmware.ZynTool

/-!
# The images of mkzynfw

What the boot loader of a ZyNOS board needs of an image: the raw blocks are at
their alignments in the flash, the header has the address of the memory map
block, and the sum of everything behind the header is the one in the header
(`Zyn.main_checksOut`).
-/

namespace Zyn

open Tool Fallible List ByteOrder Nat OutFile UInt16 Option Alignment Writing

/-! ## The sum -/

namespace CsumState

/-- **What the sum remembers** of some bytes. -/
def Holds (css : CsumState) (bs : List UInt8) : Prop :=
  ∃ even rest, bs = even ++ rest ∧ 2 ∣ even.length ∧ css.sum = endAround (wordSum even)
    ∧ (rest = [] ∧ css.odd = false ∨ rest = [css.tmp] ∧ css.odd = true)

theorem init_holds : init.Holds [] := ⟨[], [], rfl, ⟨0, rfl⟩, rfl, .inl ⟨rfl, rfl⟩⟩

variable {css : CsumState}

theorem addWord_sum {even : List UInt8} (h2 : 2 ∣ even.length)
    (hsum : css.sum = endAround (wordSum even)) (a b : UInt8) :
    (css.addWord a b).sum = endAround (wordSum (even ++ [a, b])) := by
  have hword : a.toNat * 256 + b.toNat ≤ 0xffff := by
    have ha := a.toNat_lt
    have hb := b.toNat_lt
    omega
  have hle := endAround_le (wordSum even)
  have hpair : wordSum [a, b] = a.toNat * 256 + b.toNat := by
    simp only [wordSum, add_zero]
  rw [wordSum_append h2, hpair, endAround_add _ hword, addWord, hsum]
  show (if 0xFFFF < _ then _ else _) = _
  split_ifs <;> omega

theorem words_holds {even : List UInt8} (p : List UInt8) (h2 : 2 ∣ even.length)
    (hsum : css.sum = endAround (wordSum even)) (hodd : css.odd = false) :
    (css.words p).Holds (even ++ p) := by
  induction p using wordSum.induct generalizing css even with
  | case1 =>
    rw [append_nil]
    exact ⟨even, [], (append_nil even).symm, h2, hsum, .inl ⟨rfl, hodd⟩⟩
  | case2 a => exact ⟨even, [a], rfl, h2, hsum, .inr ⟨rfl, rfl⟩⟩
  | case3 a b p ih =>
    have hlen : 2 ∣ (even ++ [a, b]).length := by
      rw [length_append]
      exact Nat.dvd_add h2 (Nat.dvd_refl 2)
    have hnext := ih hlen (addWord_sum h2 hsum a b) hodd
    rwa [append_assoc] at hnext

variable {bs : List UInt8}

theorem Holds.update (h : css.Holds bs) (p : List UInt8) : (css.update p).Holds (bs ++ p) := by
  obtain ⟨even, rest, rfl, h2, hsum, hrest⟩ := h
  cases p with
  | nil =>
    rw [append_nil]
    exact ⟨even, rest, rfl, h2, hsum, hrest⟩
  | cons b p =>
    rcases hrest with ⟨rfl, hodd⟩ | ⟨rfl, hodd⟩
    · rw [CsumState.update, hodd, append_nil]
      exact words_holds (b :: p) h2 hsum hodd
    · have hlen : 2 ∣ (even ++ [css.tmp, b]).length := by
        rw [length_append]
        exact Nat.dvd_add h2 (Nat.dvd_refl 2)
      have hnext : (words { css.addWord css.tmp b with odd := false } p).Holds
          (even ++ [css.tmp, b] ++ p) := words_holds p hlen (addWord_sum h2 hsum css.tmp b) rfl
      rw [append_assoc] at hnext ⊢
      rw [CsumState.update, if_pos hodd]
      exact hnext

theorem Holds.get (h : css.Holds bs) (h2 : 2 ∣ bs.length) :
    css.get.toNat = endAround (wordSum bs) := by
  obtain ⟨even, rest, rfl, heven, hsum, hrest⟩ := h
  rcases hrest with ⟨rfl, hodd⟩ | ⟨rfl, -⟩
  · have hupdate : (css.update [0]).sum = css.sum := by
      rw [CsumState.update, hodd]
      rfl
    rw [CsumState.get, hupdate, hsum, List.append_nil, UInt16.toNat_ofNat_of_lt']
    exact lt_succ_of_le (endAround_le _)
  · rw [length_append, length_singleton] at h2
    omega

end CsumState

theorem endAround_fixUp {ocsum csum : UInt16} {sum : ℕ} (hocsum : ocsum ≠ 0)
    (hcsum : csum.toNat = endAround sum) :
    endAround (sum + (fixUp ocsum csum).toNat) = ocsum.toNat := by
  have hle := endAround_le sum
  have hword : (fixUp ocsum csum).toNat ≤ 0xffff := le_of_lt_succ (toNat_lt _)
  have hpos : 0 < ocsum.toNat := Nat.pos_of_ne_zero fun h => hocsum (UInt16.toNat_inj.mp h)
  have holt := ocsum.toNat_lt
  rw [endAround_add _ hword, ← hcsum, fixUp]
  by_cases hborrow : csum ≤ ocsum
  · have hle' : csum.toNat ≤ ocsum.toNat := le_iff_toNat_le.mp hborrow
    rw [if_pos hborrow, UInt16.toNat_sub_of_le _ _ hborrow, if_neg (by omega)]
    omega
  · have hlt : ocsum.toNat < csum.toNat := Nat.lt_of_not_le fun h =>
      hborrow (le_iff_toNat_le.mpr h)
    have hsub : (ocsum - csum - 1).toNat = ocsum.toNat + 0xffff - csum.toNat := by
      rw [UInt16.toNat_sub, UInt16.toNat_sub]
      show (2 ^ 16 - 1 + (2 ^ 16 - csum.toNat + ocsum.toNat) % 2 ^ 16) % 2 ^ 16 = _
      omega
    rw [if_neg hborrow, hsub, if_pos (by omega)]
    omega

/-! ## What has been written -/

/-- **The file so far**: a header, and bytes that the sum remembers. -/
structure Wrote (header bs : List UInt8) (w : Writing) : Prop where
  atEnd : w.file.AtEnd
  bytes : w.file.bytes = header ++ bs
  sum : w.css.Holds bs

variable {header : List UInt8} {w : Writing}

section Wrote

variable {bs : List UInt8}

theorem Wrote.data (h : Wrote header bs w) (data : List UInt8) :
    Wrote header (bs ++ data) (w.writeOutData data) where
  atEnd := write_end_atEnd h.atEnd data
  bytes := by
    refine (congrArg OutFile.bytes (OutFile.write_end h.atEnd data)).trans ?_
    rw [h.bytes, append_assoc]
  sum := h.sum.update data

theorem Wrote.foldl (ps : List (List UInt8))
    (h : Wrote header bs w) : Wrote header (bs ++ ps.flatten) (ps.foldl writeOutData w) := by
  induction ps generalizing bs w with
  | nil => exact (append_nil bs).symm ▸ h
  | cons p ps ih =>
    rw [flatten_cons, ← append_assoc]
    exact ih (h.data p)

theorem Wrote.padding (h : Wrote header bs w) (len : UInt32) (padc : UInt8) :
    Wrote header (bs ++ replicate len.toNat padc) (w.writeOutPadding len padc) := by
  have hflat : (pieces 512 len.toNat (replicate len.toNat padc)).flatten
      = replicate len.toNat padc := flatten_pieces (by decide) (le_of_eq length_replicate)
  have hfold := h.foldl (pieces 512 len.toNat (replicate len.toNat padc))
  rwa [hflat] at hfold

/-- A block whose file has the size that was found. -/
def FwBlock.HasFile (host : Host) (b : FwBlock) (content : List UInt8) : Prop :=
  host.file b.fileName = some content ∧ b.fileSize.toNat = content.length

theorem Wrote.block {host : Host} {b : FwBlock}
    {content : List UInt8} (h : Wrote header bs w) (hb : b.HasFile host content) :
    ∃ w', w.writeOutBlock host b = some w' ∧ Wrote header (bs ++ content) w' := by
  obtain ⟨hfile, hsize⟩ := hb
  unfold writeOutBlock
  by_cases hzero : b.fileSize = 0
  · have hnil : content = [] := by
      rw [hzero] at hsize
      exact eq_nil_of_length_eq_zero hsize.symm
    rw [if_pos hzero, hnil, append_nil]
    exact ⟨w, rfl, h⟩
  · have hflat : (pieces (16 * 1024) b.fileSize.toNat (content.take b.fileSize.toNat)).flatten
        = content := by
      rw [hsize, take_length]
      exact flatten_pieces (by decide) (le_refl _)
    have hfold := h.foldl (pieces (16 * 1024) b.fileSize.toNat (content.take b.fileSize.toNat))
    rw [hflat] at hfold
    rw [if_neg hzero, hfile]
    exact ⟨_, rfl, hfold⟩

end Wrote

/-! ## Offsets -/

/-- **The offset that the tool keeps** is where the next byte comes to be in
the flash, modulo `2 ^ 32`. -/
def Cursor (board : Board) (bs : List UInt8) (offset : UInt32) : Prop :=
  offset = board.romioOffs + .ofNat (48 + bs.length)

variable {board : Board} {bs : List UInt8} {offset : UInt32} (h : Cursor board bs offset)

include h

theorem Cursor.append {cs : List UInt8} {size : UInt32} (hsize : size.toNat = cs.length) :
    Cursor board (bs ++ cs) (offset + size) := by
  have hcs : size = .ofNat cs.length := by rw [← hsize, UInt32.ofNat_toNat]
  rw [Cursor, h, hcs, List.length_append, UInt32.add_assoc, ← UInt32.ofNat_add, Nat.add_assoc]

theorem Cursor.dvd {k : ℕ} (hk : k ≤ 32) (hdvd : 2 ^ k ∣ offset.toNat) :
    2 ^ k ∣ board.romioOffs.toNat + (48 + bs.length) := by
  have hpow : 2 ^ k ∣ 2 ^ 32 := pow_dvd_pow 2 hk
  have hoffset : offset.toNat = (board.romioOffs.toNat + (48 + bs.length)) % 2 ^ 32 := by
    rw [h, UInt32.toNat_add, UInt32.toNat_ofNat', add_mod_mod]
  rw [hoffset] at hdvd
  exact (dvd_mod_iff hpow).mp hdvd

theorem Cursor.padding {k : ℕ} {a : UInt32} (ha : a.toNat = 2 ^ k) (padc : UInt8) :
    Cursor board (bs ++ replicate (align offset a - offset).toNat padc)
        (offset + (align offset a - offset))
      ∧ 2 ^ k ∣ board.romioOffs.toNat
        + (48 + (bs ++ List.replicate (align offset a - offset).toNat padc).length) := by
  obtain ⟨hlt, hdvd⟩ := toNat_gap offset ha
  have hk := pow_lt ha
  have hcursor : Cursor board (bs ++ replicate (align offset a - offset).toNat padc)
      (offset + (align offset a - offset)) := h.append List.length_replicate.symm
  refine ⟨hcursor, hcursor.dvd (le_of_lt hk) ?_⟩
  rw [UInt32.toNat_add]
  exact (dvd_mod_iff (pow_dvd_pow 2 (le_of_lt hk))).mpr hdvd

omit h

/-! ## The blocks -/

inductive Placed (host : Host) (board : Board) (image : List UInt8) : ℕ → List FwBlock → Prop
  | nil (lo : ℕ) : Placed host board image lo []
  | cons {lo p : ℕ} {b : FwBlock} {bs : List FwBlock} {content : List UInt8} :
      lo ≤ p → p + content.length ≤ image.length → host.file b.fileName = some content →
      (image.drop p).take content.length = content →
      b.align.toNat ∣ board.romioOffs.toNat + p →
      Placed host board image (p + content.length) bs → Placed host board image lo (b :: bs)

variable {host : Host}

theorem Placed.mono {image : List UInt8} {lo lo' : ℕ} {bs : List FwBlock}
    (h : Placed host board image lo bs) (hle : lo' ≤ lo) : Placed host board image lo' bs := by
  cases h with
  | nil => exact .nil lo'
  | cons hlo hend hfile hbytes hdvd hrest =>
    exact .cons (hle.trans hlo) hend hfile hbytes hdvd hrest

/-- The blocks that are written out in the loop. -/
def rawBlocks (blocks : List FwBlock) : List FwBlock := blocks.filter (·.type = .raw)

def Aligned (blocks : List FwBlock) : Prop :=
  ∀ b ∈ rawBlocks blocks, ∃ k, b.align.toNat = 2 ^ k

section Blocks

theorem foldlM_writeRaw {blocks : List FwBlock}
    (hfiles : ∀ b ∈ blocks, ∃ content, b.HasFile host content) (haligned : Aligned blocks)
    {offset : UInt32} {bs : List UInt8} (h : Wrote header bs w) (hc : Cursor board bs offset) :
    ∃ w' offset' xs, blocks.foldlM (writeRaw host) (w, offset) = some (w', offset')
      ∧ Wrote header (bs ++ xs) w' ∧ Cursor board (bs ++ xs) offset'
      ∧ ∀ header' more : List UInt8, header'.length = 48 →
        Placed host board (header' ++ (bs ++ xs ++ more)) (48 + bs.length) (rawBlocks blocks) := by
  induction blocks generalizing w offset bs with
  | nil =>
    refine ⟨w, offset, [], rfl, ?_, ?_, fun _ _ _ => .nil _⟩
    · rwa [append_nil]
    · rwa [append_nil]
  | cons b blocks ih =>
    have hfiles' (c : FwBlock) (hc : c ∈ blocks) := hfiles c (mem_cons_of_mem b hc)
    cases htype : b.type with
    | bootext =>
      have hraw : rawBlocks (b :: blocks) = rawBlocks blocks := by
        rw [rawBlocks, filter_cons_of_neg (by rw [htype]; decide), ← rawBlocks]
      rw [Aligned, hraw] at haligned
      obtain ⟨w', offset', xs, hfold, hrest⟩ := ih hfiles' haligned h hc
      refine ⟨w', offset', xs, ?_, hraw ▸ hrest⟩
      rw [foldlM_cons, writeRaw, if_pos htype]
      exact hfold
    | raw =>
      have hraw : rawBlocks (b :: blocks) = b :: rawBlocks blocks := by
        rw [rawBlocks, filter_cons_of_pos (by rw [htype]; decide), ← rawBlocks]
      rw [Aligned, hraw] at haligned
      obtain ⟨k, hk⟩ := haligned b mem_cons_self
      obtain ⟨content, hcontent⟩ := hfiles b mem_cons_self
      obtain ⟨hcpad, hdvd⟩ := hc.padding hk 0xFF
      have hpad := h.padding (align offset b.align - offset) 0xFF
      generalize replicate (align offset b.align - offset).toNat (0xFF : UInt8) = pad
        at hcpad hdvd hpad
      obtain ⟨w₁, hblock, hw₁⟩ := hpad.block hcontent
      have hc₁ := hcpad.append hcontent.2
      obtain ⟨w', offset', xs, hfold, hw', hc', hplaced⟩ :=
        ih hfiles' (fun c hc => haligned c (mem_cons_of_mem b hc)) hw₁ hc₁
      have hbody : bs ++ pad ++ content ++ xs = bs ++ (pad ++ content ++ xs) := by
        simp only [append_assoc]
      rw [hbody] at hw' hc'
      refine ⟨w', offset', pad ++ content ++ xs, ?_, hw', hc', fun header' more hlen => ?_⟩
      · rw [foldlM_cons, writeRaw, if_neg (by rw [htype]; decide)]
        dsimp only
        rw [hblock]
        exact hfold
      · have himage : header' ++ (bs ++ (pad ++ content ++ xs) ++ more)
            = header' ++ (bs ++ pad) ++ (content ++ (xs ++ more)) := by
          simp only [append_assoc]
        have hpos : (header' ++ (bs ++ pad)).length = 48 + (bs ++ pad).length := by
          rw [length_append, hlen]
        rw [hraw]
        refine .cons (p := 48 + (bs ++ pad).length) ?_ ?_ hcontent.1 ?_ (hk ▸ hdvd) ?_
        · rw [length_append]
          omega
        · rw [himage, ← hpos]
          simp only [length_append]
          omega
        · rw [himage, drop_left' hpos, take_left' rfl]
        · have hrest := hplaced header' more hlen
          have hnext : 48 + (bs ++ pad ++ content).length
              = 48 + (bs ++ pad).length + content.length := by
            rw [length_append, add_assoc]
          rwa [hbody, hnext] at hrest

end Blocks

/-! ## What is accepted -/

theorem boards_spec (h : board ∈ boards) :
    board.bootextSize.toNat = 0x18000 ∧ 16 ∣ board.romioOffs.toNat
      ∧ board.romioOffs.toNat < 2 ^ 20 ∧ board.flashBase.toNat < 0xC0000000 := by
  have hall : ∀ b ∈ boards, b.bootextSize.toNat = 0x18000 ∧ 16 ∣ b.romioOffs.toNat
      ∧ b.romioOffs.toNat < 2 ^ 20 ∧ b.flashBase.toNat < 0xC0000000 := by
    decide +kernel
  exact hall board h

theorem parseOpt_board {s s' : State} {o : Opt} (hs : ∀ b ∈ s.board, b ∈ boards)
    (h : parseOpt host s o = .ok s') : ∀ b ∈ s'.board, b ∈ boards := by
  cases o with
  | b arg =>
    simp only [parseOpt, parseOptBootext, throw_bind, unless_ok, pure_ok] at h
    obtain ⟨-, -, rfl⟩ := h
    exact hs
  | r arg =>
    simp only [parseOpt, parseOptRaw, throw_bind, unless_ok] at h
    obtain ⟨-, -, h⟩ := h
    split at h
    · cases h
      exact hs
    · simp only [bind_ok, pure_ok] at h
      obtain ⟨_, -, rfl⟩ := h
      exact hs
  | B arg =>
    simp only [parseOpt, parseOptBoard, throw_bind, bind_ok, unless_ok, pure_ok, orFail_ok] at h
    obtain ⟨-, -, -, board, hfind, rfl⟩ := h
    rintro b ⟨⟩
    exact mem_of_find?_eq_some hfind
  | o arg =>
    simp only [parseOpt, parseOptOfname, throw_bind, bind_ok, unless_ok, pure_ok] at h
    obtain ⟨-, -, -, rfl⟩ := h
    exact hs
  | v =>
    cases h
    exact hs
  | h => cases h
  | invalid => cases h

variable {content : List UInt8} {job : Job}

theorem accept_spec {opts : List Opt} {operands : List Text} {ofname : Text}
    (h : accept host opts operands = .ok (ofname, job)) :
    job.board ∈ boards ∧ job.bootext ∈ job.blocks
      ∧ ∀ b ∈ job.blocks, ∃ content, host.file b.fileName = some content
        ∧ b.fileSize = .ofNat content.length := by
  simp only [accept, throw_bind, bind_ok, unless_ok, orFail_ok] at h
  obtain ⟨s, hopts, board, hboard, name, -, -, blocks, hblocks, h⟩ := h
  split at h
  case h_2 => cases h
  case h_1 bootext hbootext =>
    simp only [bind_ok, pure_ok] at h
    obtain ⟨_, -, heq⟩ := h
    obtain ⟨rfl, rfl⟩ := Prod.mk.inj heq
    have htable := foldlM_ok (P := fun s : State => ∀ b ∈ s.board, b ∈ boards)
      (fun s o s' hs ho => parseOpt_board hs ho) (by rintro b ⟨⟩) hopts
    refine ⟨htable board hboard, ?_, fun b hb => ?_⟩
    · obtain ⟨i, -, hi⟩ := bind_eq_some_iff.mp hbootext
      exact mem_of_getElem? hi
    · obtain ⟨b', -, hstat⟩ := mapM_ok hblocks hb
      simp only [blockStatFile, bind_ok, pure_ok, orFail_ok] at hstat
      obtain ⟨content, hfile, rfl⟩ := hstat
      exact ⟨content, hfile, rfl⟩

/-! ## The image -/

/-- **An image that the boot loader can use.** -/
structure ChecksOut (host : Host) (job : Job) (image : List UInt8) : Prop where
  blocks : ∃ pos, big.field image 39 4
      = job.board.flashBase.toNat + job.board.romioOffs.toNat + pos
    ∧ (image.drop pos).take mmapDataSize
      = mmapData job.board (.ofNat (big.field image 39 4))
    ∧ Placed host job.board image (pos + mmapDataSize) (rawBlocks job.blocks)
  sum : big.field image 20 2 = endAround (wordSum (image.drop 48))

@[simp] theorem length_headerBytes (board : Board) (osize mmapAddr : UInt32) (ocsum : UInt16) :
    (headerBytes board osize mmapAddr ocsum).length = 48 :=
  length_record ..

theorem length_mmapData (board : Board) (addr : UInt32) :
    (mmapData board addr).length = mmapDataSize := by
  unfold mmapData
  rw [length_take, length_append, length_replicate]
  exact Nat.min_eq_left (Nat.le_add_left ..)

theorem field_headerBytes (board : Board) (osize mmapAddr : UInt32) (ocsum : UInt16)
    (tail : List UInt8) :
    big.field (headerBytes board osize mmapAddr ocsum ++ tail) 39 4 = mmapAddr.toNat
      ∧ big.field (headerBytes board osize mmapAddr ocsum ++ tail) 20 2
        = ocsum.toNat := by
  unfold headerBytes
  constructor
  · refine Eq.trans (field_record .big (i := 11) (v := mmapAddr.toNat) ?_ ?_ tail) ?_
    · rfl
    · rfl
    · exact mod_eq_of_lt mmapAddr.toNat_lt
  · refine Eq.trans (field_record .big (i := 8) (v := ocsum.toNat) ?_ ?_ tail) ?_
    · rfl
    · rfl
    · exact mod_eq_of_lt ocsum.toNat_lt

theorem wordSum_be16 (x : UInt16) : wordSum (be16 x) = x.toNat := by
  have hvalue : big.value (be16 x) = x.toNat := by
    rw [be16, value_bytes]
    exact mod_eq_of_lt x.toNat_lt
  obtain ⟨a, b, hbe⟩ : ∃ a b, be16 x = [a, b] := length_eq_two.mp (length_be16 x)
  rw [hbe] at hvalue ⊢
  rw [← hvalue]
  simp only [wordSum, value, reverse_cons, reverse_nil, nil_append, cons_append, leValue]
  omega

theorem writeBootext_spec (hboard : job.board ∈ boards) (hboot : job.bootext.HasFile host content)
    (hfits : 48 + content.length ≤ job.board.bootextSize.toNat) :
    ∃ w offset, writeBootext host job = some (w, offset)
      ∧ Wrote (headerBytes job.board 0 0 0) content w ∧ Cursor job.board content offset := by
  obtain ⟨hsize, -, hromio, -⟩ := boards_spec hboard
  have hstart : Wrote (headerBytes job.board 0 0 0) []
      ⟨empty.write (headerBytes job.board 0 0 0), .init⟩ := by
    refine ⟨write_end_atEnd empty_atEnd _, ?_, CsumState.init_holds⟩
    rw [write_end OutFile.empty_atEnd, append_nil]
    rfl
  obtain ⟨w, hblock, hw⟩ := hstart.block hboot
  have hzero : Cursor job.board [] (job.board.romioOffs + 48) := rfl
  have hcursor := hzero.append hboot.2
  have hcheck : ¬ job.board.romioOffs + job.board.bootextSize
      < job.board.romioOffs + 48 + job.bootext.fileSize := by
    rw [UInt32.lt_iff_toNat_lt, UInt32.toNat_add, UInt32.toNat_add, UInt32.toNat_add, hboot.2]
    show ¬ _ < ((job.board.romioOffs.toNat + 48) % 2 ^ 32 + content.length) % 2 ^ 32
    omega
  refine ⟨w, _, ?_, hw, hcursor⟩
  rw [writeBootext, hblock]
  exact if_neg hcheck

theorem writeMmap_spec (hw : Wrote header bs w) (hc : Cursor board bs offset) :
    ∃ w' offset' addr pad more, writeMmap board w offset = ((w', offset'), addr)
      ∧ Wrote header (bs ++ pad ++ mmapData board addr ++ more) w'
      ∧ Cursor board (bs ++ pad ++ mmapData board addr ++ more) offset'
      ∧ addr = board.flashBase + (board.romioOffs + .ofNat (48 + (bs ++ pad).length))
      ∧ pad.length < 16 := by
  have hsixteen : (16 : UInt32).toNat = 2 ^ 4 := rfl
  obtain ⟨hcpad, -⟩ := hc.padding hsixteen 0xFF
  have hpad := hw.padding (align offset 16 - offset) 0xFF
  have hshort : (replicate (align offset 16 - offset).toNat (0xFF : UInt8)).length < 16 := by
    rw [length_replicate]
    exact (toNat_gap offset hsixteen).1
  generalize replicate (align offset 16 - offset).toNat (0xFF : UInt8) = pad
    at hcpad hpad hshort
  unfold writeMmap
  dsimp only
  generalize w.writeOutPadding (align offset 16 - offset) 0xFF = w₁ at hpad
  generalize offset + (align offset 16 - offset) = offset₁ at hcpad
  have hmmap := hpad.data (mmapData board (board.flashBase + offset₁))
  have hsize : (UInt32.ofNat mmapDataSize).toNat
      = (mmapData board (board.flashBase + offset₁)).length := by
    rw [length_mmapData]
    decide
  have hcmmap := hcpad.append hsize
  have haddr := congrArg (board.flashBase + ·) hcpad
  split
  · refine ⟨_, _, _, pad, replicate _ 0xFF, rfl, hmmap.padding _ 0xFF, ?_, haddr, hshort⟩
    exact hcmmap.append List.length_replicate.symm
  · refine ⟨_, _, _, pad, [], rfl, ?_, ?_, haddr, hshort⟩
    · rw [append_nil]
      exact hmmap
    · rw [append_nil]
      exact hcmmap

theorem writeEnd_spec {ocsum : UInt16} (hboard : board ∈ boards) (hw : Wrote header bs w)
    (hc : Cursor board bs offset)
    (hheader : header.length = 48) (hocsum : ocsum ≠ 0) (mmapAddr : UInt32) :
    ∃ tail, writeEnd board ocsum mmapAddr w offset
        = headerBytes board 2 mmapAddr ocsum ++ (bs ++ tail)
      ∧ endAround (wordSum (bs ++ tail)) = ocsum.toNat := by
  obtain ⟨-, h16, -, -⟩ := boards_spec hboard
  have hfour : (4 : UInt32).toNat = 2 ^ 2 := rfl
  obtain ⟨-, hdvd⟩ := hc.padding hfour 0xFF
  have hpad := hw.padding (align offset 4 - offset) 0xFF
  unfold writeEnd
  dsimp only
  generalize replicate (align offset 4 - offset).toNat (0xFF : UInt8) = pad at hdvd hpad
  generalize w.writeOutPadding (align offset 4 - offset) 0xFF = w₁ at hpad
  have heven : 2 ∣ (bs ++ pad).length := by omega
  have hget := hpad.sum.get heven
  refine ⟨pad ++ be16 (fixUp ocsum w₁.css.get), ?_, ?_⟩
  · refine (write_inside (a := []) (b := header)
      (c := bs ++ (pad ++ be16 (fixUp ocsum w₁.css.get))) ?_ rfl ?_).trans ?_
    · refine (congrArg OutFile.bytes (OutFile.write_end hpad.atEnd _)).trans ?_
      rw [hpad.bytes, nil_append]
      simp only [append_assoc]
    · rw [length_headerBytes, hheader]
    · rw [nil_append]
  · rw [← append_assoc, wordSum_append heven, wordSum_be16]
    exact endAround_fixUp hocsum hget

theorem writeOutImage_checksOut (hboard : job.board ∈ boards)
    (hboot : job.bootext.HasFile host content)
    (hfits : 48 + content.length ≤ job.board.bootextSize.toNat) (hmagic : readMagic content ≠ 0)
    (hfiles : ∀ b ∈ job.blocks, ∃ content, b.HasFile host content) (haligned : Aligned job.blocks) :
    ∃ image, writeOutImage host job = some image ∧ ChecksOut host job image := by
  obtain ⟨hsize, -, hromio, hflash⟩ := boards_spec hboard
  obtain ⟨w₀, offset₀, hbootext, hw₀, hc₀⟩ := writeBootext_spec hboard hboot hfits
  obtain ⟨w₁, offset₁, addr, pad, more, hmmap, hw₁, hc₁, haddr, hpad⟩ := writeMmap_spec hw₀ hc₀
  obtain ⟨w₂, offset₂, xs, hraw, hw₂, hc₂, hplaced⟩ := foldlM_writeRaw hfiles haligned hw₁ hc₁
  obtain ⟨tail, hend, hsum⟩ := writeEnd_spec hboard hw₂ hc₂ (length_headerBytes ..) hmagic addr
  have hwrite : writeOutImage host job
      = some (writeEnd job.board (readMagic content) addr w₂ offset₂) := by
    rw [writeOutImage, hbootext]
    dsimp only [bind_eq_bind, bind_some]
    rw [hmmap, hraw, hboot.1]
    rfl
  refine ⟨_, hwrite, ?_⟩
  rw [hend]
  obtain ⟨hfield, hocsum⟩ := field_headerBytes job.board 2 addr (readMagic content)
    (content ++ pad ++ mmapData job.board addr ++ more ++ xs ++ tail)
  have hpos : addr.toNat = job.board.flashBase.toNat + job.board.romioOffs.toNat
      + (48 + (content ++ pad).length) := by
    rw [haddr, UInt32.toNat_add, UInt32.toNat_add, UInt32.toNat_ofNat', List.length_append]
    omega
  have hfront : (headerBytes job.board 2 addr (readMagic content) ++ (content ++ pad)).length
      = 48 + (content ++ pad).length := by
    rw [length_append, length_headerBytes]
  have himage : headerBytes job.board 2 addr (readMagic content)
      ++ (content ++ pad ++ mmapData job.board addr ++ more ++ xs ++ tail)
        = headerBytes job.board 2 addr (readMagic content) ++ (content ++ pad)
          ++ (mmapData job.board addr ++ (more ++ xs ++ tail)) := by
    simp only [append_assoc]
  refine ⟨⟨48 + (content ++ pad).length, ?_, ?_, ?_⟩, ?_⟩
  · rw [hfield, hpos]
  · rw [hfield, UInt32.ofNat_toNat, himage, List.drop_left' hfront, take_left' (length_mmapData ..)]
  · refine (hplaced _ tail (length_headerBytes ..)).mono ?_
    simp only [length_append, length_mmapData]
    omega
  · rw [hocsum, drop_left' (length_headerBytes ..), hsum]

theorem writeOutImage_tooBig (hboard : job.board ∈ boards)
    (hboot : job.bootext.HasFile host content) (hsmall : content.length < 2 ^ 31)
    (hbig : job.board.bootextSize.toNat < 48 + content.length) : writeOutImage host job = none := by
  obtain ⟨hsize, -, hromio, -⟩ := boards_spec hboard
  have hcheck : job.board.romioOffs + job.board.bootextSize
      < job.board.romioOffs + 48 + job.bootext.fileSize := by
    rw [UInt32.lt_iff_toNat_lt, UInt32.toNat_add, UInt32.toNat_add, UInt32.toNat_add, hboot.2]
    show _ < ((job.board.romioOffs.toNat + 48) % 2 ^ 32 + content.length) % 2 ^ 32
    omega
  have hnone : writeBootext host job = none := by
    unfold writeBootext
    dsimp only
    generalize writeOutBlock _ host job.bootext = written
    cases written with
    | none => rfl
    | some w => exact if_pos hcheck
  rw [writeOutImage, hnone]
  rfl

theorem readMagic_ne_zero (hlong : 2 ≤ content.length)
    (h : big.field content 0 2 ≠ 0) : readMagic content ≠ 0 := by
  match content, hlong with
  | a :: b :: rest, _ =>
    have hlt : a.toNat * 256 + b.toNat < 2 ^ 16 := by
      have ha := a.toNat_lt
      have hb := b.toNat_lt
      omega
    intro hzero
    have hsum : a.toNat * 256 + b.toNat = 0 := by
      rw [← toNat_ofNat_of_lt' hlt]
      exact congrArg UInt16.toNat hzero
    refine h ?_
    show leValue [b, a] = 0
    simp only [leValue]
    omega

/-! ### One command line -/

/-- A host with a boot extension `b` and a file `r`. -/
def twoFiles : Host where
  file name :=
    if name = ascii ['b'] then some [0x12, 0x34, 0x56]
    else if name = ascii ['r'] then some [1, 2, 3, 4, 5]
    else none
  str2u32 arg := if arg = ascii ['6', '4'] then some 64 else none
  creates _ := true

/-- The options `-B P-335 -o o -b b -r r:64`. -/
def twoBlocks : List Opt :=
  [.B (ascii ['P', '-', '3', '3', '5']), .o (ascii ['o']), .b (ascii ['b']),
    .r (ascii ['r', ':', '6', '4'])]

/-- What the tool makes of these options. -/
def twoBlocksJob : Job where
  board := admboard1 ['P', '-', '3', '3', '5'] 60831 4
  bootext := ⟨0, ascii ['b'], 3, .bootext⟩
  blocks := [⟨0, ascii ['b'], 3, .bootext⟩, ⟨64, ascii ['r'], 5, .raw⟩]

/-! ### All command lines -/

/-- **The images check out.** For files of less than 2 GiB, alignments that are
powers of two and a boot extension that begins with a word other than zero,
the tool writes an image if the boot extension has room, and every image that
it writes has its blocks in place and its sum right. -/
theorem main_checksOut {host : Host} {opts : List Opt} {operands : List Text} {ofname : Text}
    {job : Job} (hacc : accept host opts operands = .ok (ofname, job))
    (hcreate : host.creates ofname)
    (hsmall : ∀ b ∈ job.blocks, ∀ content, host.file b.fileName = some content →
      content.length < 2 ^ 31) (haligned : Aligned job.blocks) {content : List UInt8}
    (hbootext : host.file job.bootext.fileName = some content) (hlong : 2 ≤ content.length)
    (hmagic : big.field content 0 2 ≠ 0) : ((∃ image, main host opts operands = .ok image)
      ↔ 48 + content.length ≤ job.board.bootextSize.toNat)
    ∧ ∀ image, main host opts operands = .ok image → ChecksOut host job image := by
  obtain ⟨hboard, hmem, hstat⟩ := accept_spec hacc
  have hfiles (b : FwBlock) (hb : b ∈ job.blocks) : ∃ content, b.HasFile host content := by
    obtain ⟨c, hc, hsize⟩ := hstat b hb
    refine ⟨c, hc, ?_⟩
    rw [hsize, UInt32.toNat_ofNat_of_lt']
    exact (hsmall b hb c hc).trans (by decide)
  obtain ⟨c, hboot⟩ := hfiles job.bootext hmem
  obtain rfl : c = content := some.inj (hboot.1.symm.trans hbootext)
  have hmain : main host opts operands = orFail (writeOutImage host job) := by
    rw [main, hacc]
    exact if_neg (not_not_intro hcreate)
  rw [hmain]
  by_cases hfits : 48 + c.length ≤ job.board.bootextSize.toNat
  · obtain ⟨image, hwrite, hchecks⟩ := writeOutImage_checksOut hboard hboot hfits
      (readMagic_ne_zero hlong hmagic) hfiles haligned
    rw [hwrite]
    refine ⟨iff_of_true ⟨image, rfl⟩ hfits, fun image' h => ?_⟩
    cases h
    exact hchecks
  · rw [writeOutImage_tooBig hboard hboot (hsmall _ hmem c hbootext) (Nat.lt_of_not_le hfits)]
    exact ⟨iff_of_false (fun ⟨_, h⟩ => nomatch h) hfits, nofun⟩

theorem main_checksOut_twoBlocks :
    ∃ image, main twoFiles twoBlocks [] = .ok image ∧ ChecksOut twoFiles twoBlocksJob image := by
  have hacc : accept twoFiles twoBlocks [] = .ok (ascii ['o'], twoBlocksJob) := rfl
  have hsmall : ∀ b ∈ twoBlocksJob.blocks, ∀ content,
      twoFiles.file b.fileName = some content → content.length < 2 ^ 31 := by
    intro b hb content hc
    rcases mem_cons.mp hb with rfl | hb
    · cases hc
      decide
    · rw [mem_singleton.mp hb] at hc
      cases hc
      decide
  have haligned : Aligned twoBlocksJob.blocks := by
    intro b hb
    rw [show rawBlocks twoBlocksJob.blocks = [⟨64, ascii ['r'], 5, .raw⟩] from rfl] at hb
    rw [mem_singleton.mp hb]
    exact ⟨6, rfl⟩
  obtain ⟨hok, hchecks⟩ := main_checksOut hacc rfl hsmall haligned
    (rfl : twoFiles.file twoBlocksJob.bootext.fileName = some [0x12, 0x34, 0x56]) (by decide)
    (by decide)
  obtain ⟨image, himage⟩ := hok.mpr (by decide)
  exact ⟨image, himage, hchecks image himage⟩

end Zyn
