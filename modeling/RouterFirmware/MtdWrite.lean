import RouterFirmware.Loop
import RouterFirmware.MtdDevice

/-!
# `mtd write`

`mtd_write` copies an image to a list of partitions.
-/

/-! ## Reading the image -/

/-- The errors of `read` the filling loop tells apart. -/
inductive ReadError where
  | eintr
  | eagain
  | other
deriving DecidableEq, Repr

inductive ReadResult where
  | data (bytes : List UInt8)
  | fail (errno : ReadError)
deriving DecidableEq, Repr

namespace ReadResult

def bytes : ReadResult → List UInt8
  | data bytes => bytes
  | fail _ => []

def Delivers : ReadResult → Prop
  | data bytes => bytes ≠ []
  | fail errno => errno ≠ .other

end ReadResult

instance : DecidablePred ReadResult.Delivers
  | .data bytes => inferInstanceAs (Decidable (bytes ≠ []))
  | .fail errno => inferInstanceAs (Decidable (errno ≠ .other))

def readContent (reads : List ReadResult) : List UInt8 := reads.flatMap ReadResult.bytes

def Faultless (reads : List ReadResult) : Prop := ∀ r ∈ reads, r.Delivers

instance (reads : List ReadResult) : Decidable (Faultless reads) :=
  inferInstanceAs (Decidable (∀ r ∈ reads, r.Delivers))

/-- The buffer after the filling loop, and the results that are left. -/
structure Fill where
  buf : Bytes
  buflen : ℕ
  reads : List ReadResult

def fillBuf (erasesize : ℕ) : List ReadResult → Bytes → ℕ → Fill
  | [], buf, buflen => ⟨buf, buflen, []⟩
  | r :: reads, buf, buflen =>
    if buflen < erasesize then
      match r with
      | .fail .eintr => fillBuf erasesize reads buf buflen
      | .fail .eagain => fillBuf erasesize reads buf buflen
      | .fail .other => ⟨buf, buflen, reads⟩
      | .data bytes =>
        let got := bytes.take (erasesize - buflen)
        if got = [] then ⟨buf, buflen, reads⟩
        else if bytes.length ≤ erasesize - buflen then
          fillBuf erasesize reads (buf.blit buflen got) (buflen + got.length)
        else
          -- the buffer is full, and what is left of the result stays
          ⟨buf.blit buflen got, buflen + got.length,
            .data (bytes.drop (erasesize - buflen)) :: reads⟩
    else ⟨buf, buflen, r :: reads⟩

/-! ## The partitions of the command line -/

/-- One name of the list `a:b:...`, and the partition it opens, if it does. -/
structure MtdTarget where
  name : String
  dev : Option MtdDevice

def mtdCheck (buf : Option ℕ) : List MtdTarget → Option (Option ℕ)
  | [] => some buf
  | t :: ts =>
    match t.dev with
    | none => none
    | some d => mtdCheck (some (buf.getD d.erasesize)) ts

/-! ## The writing loop -/

/-- Where in its outer loop `mtd_write` is. -/
inductive MtdPc where
  | fill
  | erase
  | write
deriving DecidableEq, Repr

structure MtdWrite where
  pc : MtdPc
  /-- What `read` on the image file is going to return. -/
  reads : List ReadResult
  buf : Bytes
  buflen : ℕ
  /-- How far the buffer has ever been filled. -/
  filled : ℕ
  offset : ℕ
  w : ℕ
  e : ℕ
  fd : MtdFd
  /-- The names after `next`. -/
  next : List MtdTarget
  /-- The partitions already closed, in order. -/
  closed : List MtdFd

inductive MtdResult where
  /-- It returns 0. -/
  | returned (s : MtdWrite)
  /-- It prints `msg` and exits with 1. -/
  | exited (msg : String) (s : MtdWrite)
  /-- A counter overflows. -/
  | undefined (s : MtdWrite)

def jffs2Eof : List UInt8 := [0xde, 0xad, 0xc0, 0xde]

namespace MtdWrite

def start (dev : MtdDevice) (next : List MtdTarget) (buf : Bytes) (buflen : ℕ)
    (reads : List ReadResult) : MtdWrite where
  pc := .fill
  reads := reads
  buf := buf
  buflen := buflen
  filled := buflen
  offset := 0
  w := 0
  e := 0
  fd := dev.opened
  next := next
  closed := []

def afterFill (s : MtdWrite) : MtdWrite :=
  let f := fillBuf s.fd.dev.erasesize s.reads s.buf s.buflen
  { s with reads := f.reads, buf := f.buf, buflen := f.buflen, filled := max s.filled f.buflen }

def fillTurn (jffs2 : Option (MtdFd → ℕ → MtdFd)) (s : MtdWrite) : Turn MtdWrite MtdResult :=
  if s.afterFill.buflen = 0 then .leave (.returned s.afterFill)
  else
    match jffs2 with
    | none => .again { s.afterFill with pc := .erase }
    | some replace =>
      if s.afterFill.buf.slice 0 jffs2Eof.length = jffs2Eof then
        .leave (.returned { s.afterFill with fd := replace s.fd s.e })
      else .again { s.afterFill with pc := .erase }

def resume (s : MtdWrite) (t : MtdTarget) (next : List MtdTarget) : Turn MtdWrite MtdResult :=
  let fd := if s.w < s.e then (s.fd.write (s.buf.slice s.offset (s.e - s.w))).2 else s.fd
  let offset := if s.w < s.e then s.e - s.w else s.offset
  match t.dev with
  | none =>
    .leave (.exited ("Could not open mtd device: " ++ t.name ++ "\n")
      { s with fd := fd, offset := offset, w := 0, e := 0 })
  | some dev =>
    .again { s with
      pc := .fill, fd := dev.opened, offset := offset, w := 0, e := 0, next := next
      closed := s.closed ++ [fd] }

def eraseTurn (s : MtdWrite) : Turn MtdWrite MtdResult :=
  let size := s.fd.dev.erasesize
  if intMax < s.w + s.buflen then .leave (.undefined s)
  else if s.e < s.w + s.buflen then
    match s.fd.mtdEraseBlock s.e with
    | some fd =>
      if intMax < s.e + size then .leave (.undefined s)
      else .again { s with fd := fd, e := s.e + size }
    | none =>
      match s.next with
      | t :: ts => s.resume t ts
      | [] =>
        -- skip the bad block
        if intMax < s.w + size ∨ intMax < s.e + size then .leave (.undefined s)
        else .again { s with fd := s.fd.lseekCur size, w := s.w + size, e := s.e + size }
  else .again { s with pc := .write }

def writeTurn (s : MtdWrite) : Turn MtdWrite MtdResult :=
  match s.fd.write (s.buf.slice s.offset s.buflen) with
  | (none, fd) => .leave (.exited "Error writing image.\n" { s with fd := fd })
  | (some n, fd) =>
    if n < s.buflen then .leave (.exited "Insufficient space.\n" { s with fd := fd })
    else
      .again { s with pc := .fill, fd := fd, w := s.w + s.buflen, buflen := 0, offset := 0 }

def step (jffs2 : Option (MtdFd → ℕ → MtdFd)) (s : MtdWrite) : Turn MtdWrite MtdResult :=
  match s.pc with
  | .fill => s.fillTurn jffs2
  | .erase => s.eraseTurn
  | .write => s.writeTurn

/-- `mtd_write` without a file to append. -/
abbrev plain : MtdWrite → Turn MtdWrite MtdResult := step none

def devices (s : MtdWrite) : List MtdFd := s.closed ++ [s.fd]

def pending (s : MtdWrite) : List UInt8 := s.buf.slice 0 s.buflen

def written (s : MtdWrite) : List UInt8 := s.devices.flatMap MtdFd.written

end MtdWrite

/-! ## What the filling loop does -/

@[simp] theorem readContent_nil : readContent [] = [] := rfl

@[simp] theorem readContent_cons (r : ReadResult) (reads : List ReadResult) :
    readContent (r :: reads) = r.bytes ++ readContent reads := rfl

theorem faultless_cons {r : ReadResult} {reads : List ReadResult} :
    Faultless (r :: reads) ↔ r.Delivers ∧ Faultless reads := by
  simp [Faultless]

inductive Fills (erasesize : ℕ) :
    ℕ → List ReadResult → List UInt8 → List ReadResult → Prop where
  /-- The buffer is full. -/
  | full {n : ℕ} {reads : List ReadResult} (hn : erasesize ≤ n) :
      Fills erasesize n reads [] reads
  /-- No result is left. -/
  | last {n : ℕ} : Fills erasesize n [] [] []
  /-- The end of the file. -/
  | eof {n : ℕ} {reads : List ReadResult} (hn : n < erasesize) :
      Fills erasesize n (.data [] :: reads) [] reads
  /-- An error that ends the loop. -/
  | error {n : ℕ} {reads : List ReadResult} (hn : n < erasesize) :
      Fills erasesize n (.fail .other :: reads) [] reads
  /-- An error that does not. -/
  | retry {n : ℕ} {errno : ReadError} {reads rest : List ReadResult} {got : List UInt8}
      (hn : n < erasesize) (herr : errno ≠ .other) (h : Fills erasesize n reads got rest) :
      Fills erasesize n (.fail errno :: reads) got rest
  /-- A result that fits. -/
  | whole {n : ℕ} {bytes got : List UInt8} {reads rest : List ReadResult}
      (hn : n < erasesize) (hne : bytes ≠ []) (hlen : bytes.length ≤ erasesize - n)
      (h : Fills erasesize (n + bytes.length) reads got rest) :
      Fills erasesize n (.data bytes :: reads) (bytes ++ got) rest
  /-- A result that does not. -/
  | part {n : ℕ} {bytes : List UInt8} {reads : List ReadResult}
      (hn : n < erasesize) (hlen : erasesize - n < bytes.length) :
      Fills erasesize n (.data bytes :: reads) (bytes.take (erasesize - n))
        (.data (bytes.drop (erasesize - n)) :: reads)

theorem fillBuf_fills (erasesize : ℕ) (reads : List ReadResult) (buf : Bytes) (n : ℕ) :
    ∃ got, Fills erasesize n reads got (fillBuf erasesize reads buf n).reads
      ∧ (fillBuf erasesize reads buf n).buflen = n + got.length
      ∧ (fillBuf erasesize reads buf n).buf.slice 0 (n + got.length) = buf.slice 0 n ++ got := by
  induction reads generalizing buf n with
  | nil => exact ⟨[], .last, by simp [fillBuf]⟩
  | cons r reads ih =>
    by_cases hn : n < erasesize
    swap
    · refine ⟨[], ?_⟩
      simp only [fillBuf, if_neg hn]
      exact ⟨.full (Nat.le_of_not_lt hn), rfl, (List.append_nil _).symm⟩
    cases r with
    | fail errno =>
      obtain ⟨got, hfills, hbuf⟩ := ih buf n
      cases errno with
      | eintr => exact ⟨got, by simpa [fillBuf, hn] using ⟨.retry hn (by decide) hfills, hbuf⟩⟩
      | eagain => exact ⟨got, by simpa [fillBuf, hn] using ⟨.retry hn (by decide) hfills, hbuf⟩⟩
      | other => exact ⟨[], by simpa [fillBuf, hn] using .error hn⟩
    | data bytes =>
      by_cases hne : bytes = []
      · subst hne
        exact ⟨[], by simpa [fillBuf, hn] using .eof hn⟩
      have htake : bytes.take (erasesize - n) ≠ [] := by
        rw [ne_eq, List.take_eq_nil_iff, not_or]
        exact ⟨by omega, hne⟩
      by_cases hlen : bytes.length ≤ erasesize - n
      · have hfill : fillBuf erasesize (.data bytes :: reads) buf n
            = fillBuf erasesize reads (buf.blit n bytes) (n + bytes.length) := by
          simp only [fillBuf, if_pos hn, if_neg hne, if_pos hlen, List.take_of_length_le hlen]
        obtain ⟨got, hfills, hlen', hslice⟩ := ih (buf.blit n bytes) (n + bytes.length)
        have happend := Memory.slice_blit_append buf 0 n bytes
        rw [Nat.zero_add] at happend
        rw [hfill]
        refine ⟨bytes ++ got, .whole hn hne hlen hfills, ?_, ?_⟩
        · rw [hlen', List.length_append, Nat.add_assoc]
        · rw [List.length_append, ← Nat.add_assoc, hslice, happend, List.append_assoc]
      · have happend := Memory.slice_blit_append buf 0 n (bytes.take (erasesize - n))
        rw [Nat.zero_add] at happend
        simp only [fillBuf, if_pos hn, if_neg htake, if_neg hlen]
        exact ⟨_, .part hn (by omega), rfl, happend⟩

namespace Fills

variable {erasesize n : ℕ} {reads rest : List ReadResult} {got : List UInt8}
  (h : Fills erasesize n reads got rest) (hreads : Faultless reads)

include h

theorem readContent_eq : readContent reads = got ++ readContent rest := by
  induction h with
  | full | last | eof | error => rfl
  | retry _ _ _ ih => exact ih
  | whole _ _ _ _ ih => rw [readContent_cons, ih, List.append_assoc]; rfl
  | part =>
    rw [readContent_cons, readContent_cons, ← List.append_assoc]
    simp only [ReadResult.bytes, List.take_append_drop]

include hreads

theorem faultless : Faultless rest := by
  induction h with
  | full | last => exact hreads
  | eof | error => exact (faultless_cons.mp hreads).2
  | retry _ _ _ ih | whole _ _ _ _ ih => exact ih (faultless_cons.mp hreads).2
  | part _ hlen =>
    refine faultless_cons.mpr ⟨?_, (faultless_cons.mp hreads).2⟩
    rw [ReadResult.Delivers, ne_eq, List.drop_eq_nil_iff]
    omega

theorem length_eq : got.length = min (erasesize - n) (readContent reads).length := by
  induction h with
  | full hn => rw [Nat.sub_eq_zero_of_le hn, Nat.zero_min]; rfl
  | last => simp
  | eof => exact absurd rfl (faultless_cons.mp hreads).1
  | error => exact absurd rfl (faultless_cons.mp hreads).1
  | retry _ _ _ ih => exact ih (faultless_cons.mp hreads).2
  | whole _ _ hlen _ ih =>
    rw [List.length_append, ih (faultless_cons.mp hreads).2, readContent_cons, List.length_append,
      ReadResult.bytes]
    omega
  | part _ hlen =>
    rw [readContent_cons, List.length_append, List.length_take, ReadResult.bytes]
    omega

theorem eq_take : got = (readContent reads).take (erasesize - n)
    ∧ readContent rest = (readContent reads).drop (erasesize - n) := by
  have hgot : (readContent reads).take (erasesize - n) = got := by
    rw [List.take_eq_take_min, ← h.length_eq hreads, h.readContent_eq, List.take_left]
  have hsplit : got ++ (readContent reads).drop (erasesize - n) = got ++ readContent rest := by
    rw [← h.readContent_eq, ← hgot, List.take_append_drop]
  exact ⟨hgot.symm, (List.append_cancel_left hsplit).symm⟩

end Fills

namespace MtdWrite

/-! ## What a turn does -/

variable {s : MtdWrite} (hreads : Faultless s.reads) (hlen : s.buflen ≤ s.fd.dev.erasesize)
  (hpc : s.pc = .erase)

def left (s : MtdWrite) : List UInt8 := s.pending ++ readContent s.reads

@[simp] theorem length_pending (s : MtdWrite) : s.pending.length = s.buflen :=
  Memory.length_slice ..

theorem afterFill_fills (s : MtdWrite) :
    ∃ got, Fills s.fd.dev.erasesize s.buflen s.reads got s.afterFill.reads
      ∧ s.afterFill.pending = s.pending ++ got := by
  obtain ⟨got, hfills, hlen, hslice⟩ := fillBuf_fills s.fd.dev.erasesize s.reads s.buf s.buflen
  refine ⟨got, hfills, ?_⟩
  show (fillBuf _ _ _ _).buf.slice 0 (fillBuf _ _ _ _).buflen = _
  rw [hlen, hslice]
  rfl

theorem left_afterFill (s : MtdWrite) : s.afterFill.left = s.left := by
  obtain ⟨got, hfills, hpending⟩ := s.afterFill_fills
  rw [left, left, hpending, hfills.readContent_eq, List.append_assoc]

include hreads

include hlen

theorem pending_afterFill : s.afterFill.pending = s.left.take s.fd.dev.erasesize := by
  obtain ⟨got, hfills, hpending⟩ := s.afterFill_fills
  have htake : s.pending.take s.fd.dev.erasesize = s.pending :=
    List.take_of_length_le (by simpa using hlen)
  rw [hpending, left, List.take_append, length_pending, htake, (hfills.eq_take hreads).1]

theorem readContent_afterFill : readContent s.afterFill.reads = s.left.drop s.fd.dev.erasesize := by
  obtain ⟨got, hfills, -⟩ := s.afterFill_fills
  have hdrop : s.pending.drop s.fd.dev.erasesize = [] :=
    List.drop_eq_nil_of_le (by simpa using hlen)
  rw [left, List.drop_append, length_pending, hdrop, List.nil_append, (hfills.eq_take hreads).2]

omit hlen

theorem faultless_afterFill : Faultless s.afterFill.reads := by
  obtain ⟨got, hfills, -⟩ := s.afterFill_fills
  exact hfills.faultless hreads

omit hreads

theorem plain_fill_done (hpc : s.pc = .fill) (h : s.afterFill.buflen = 0) :
    plain s = .leave (.returned s.afterFill) := by
  simp only [plain, step, hpc, fillTurn, h, if_true]

theorem plain_fill (hpc : s.pc = .fill) (h : s.afterFill.buflen ≠ 0) :
    plain s = .again { s.afterFill with pc := .erase } := by
  simp only [plain, step, hpc, fillTurn, h, if_false]

include hpc

theorem plain_erase_good {b : ℕ} (he : s.e = b * s.fd.dev.erasesize) (hlt : s.e < s.w + s.buflen)
    (hint : s.w + s.buflen ≤ intMax) (hb : b < s.fd.dev.blocks) (hgood : s.fd.dev.bad b = false) :
    plain s = .again { s with
      e := (b + 1) * s.fd.dev.erasesize
      fd := s.fd.erased (b * s.fd.dev.erasesize) } := by
  have hend := (s.fd.dev.block_le_size_iff b).mpr hb
  have hsize := s.fd.dev.size_le
  simp only [plain, step, hpc, eraseTurn]
  rw [if_neg (by omega), if_pos hlt, he, MtdFd.mtdEraseBlock_of_good hb hgood]
  simp only
  rw [if_neg (by omega), Nat.succ_mul]

theorem plain_erase_bad {b : ℕ} (hnext : s.next = []) (he : s.e = b * s.fd.dev.erasesize)
    (hlt : s.e < s.w + s.buflen) (hint : s.w + s.buflen ≤ intMax)
    (hw : s.w + s.fd.dev.erasesize ≤ intMax) (he' : s.e + s.fd.dev.erasesize ≤ intMax)
    (hbad : s.fd.dev.blocks ≤ b ∨ s.fd.dev.bad b = true) : plain s = .again { s with
    w := s.w + s.fd.dev.erasesize
    e := s.e + s.fd.dev.erasesize
    fd := s.fd.lseekCur s.fd.dev.erasesize } := by
  simp only [plain, step, hpc, eraseTurn]
  rw [if_neg (by omega), if_pos hlt, he, MtdFd.mtdEraseBlock_of_bad hbad, hnext]
  simp only
  rw [if_neg (by omega)]

theorem plain_erase_resume {b : ℕ} {t : MtdTarget} {ts : List MtdTarget}
    (hnext : s.next = t :: ts) (he : s.e = b * s.fd.dev.erasesize) (hlt : s.e < s.w + s.buflen)
    (hint : s.w + s.buflen ≤ intMax) (hbad : s.fd.dev.blocks ≤ b ∨ s.fd.dev.bad b = true) :
    plain s = s.resume t ts := by
  simp only [plain, step, hpc, eraseTurn]
  rw [if_neg (by omega), if_pos hlt, he, MtdFd.mtdEraseBlock_of_bad hbad, hnext]

theorem plain_erase_done (hle : s.w + s.buflen ≤ s.e)
    (hint : s.w + s.buflen ≤ intMax) : plain s = .again { s with pc := .write } := by
  simp only [plain, step, hpc, eraseTurn]
  rw [if_neg (by omega), if_neg (by omega)]

omit hpc

theorem plain_write (hpc : s.pc = .write) (hoff : s.offset = 0)
    (hacc : s.fd.dev.accepts s.fd.pos s.buflen = some s.buflen) : plain s = .again { s with
    pc := .fill
    w := s.w + s.buflen
    buflen := 0
    offset := 0
    fd := s.fd.wrote s.pending } := by
  have hlen : s.pending.length = s.buflen := length_pending s
  have hwrite := MtdFd.write_of_accepts s.pending (hlen.symm ▸ hacc)
  simp only [plain, step, hpc, writeTurn, hoff]
  rw [show s.buf.slice 0 s.buflen = s.pending from rfl, hwrite, hlen]
  simp

theorem plain_write_refused (hpc : s.pc = .write)
    (hacc : s.fd.dev.accepts s.fd.pos s.buflen ≠ some s.buflen) :
    ∃ msg s', plain s = .leave (.exited msg s') := by
  simp only [plain, step, hpc, writeTurn, MtdFd.write, Memory.length_slice]
  cases h : s.fd.dev.accepts s.fd.pos s.buflen with
  | none => exact ⟨_, _, rfl⟩
  | some n =>
    have hle := (s.fd.dev.accepts_le _ _ _ h).1
    have hne : n ≠ s.buflen := fun hn => hacc (by rw [h, hn])
    exact ⟨_, _, if_pos (by omega)⟩

theorem plain_erase_cases (hpc : s.pc = .erase) : (∃ s', plain s = .leave (.undefined s'))
    ∨ (∃ pc fd w e, plain s = .again { s with pc := pc, fd := fd, w := w, e := e }
      ∧ pc ≠ .fill ∧ fd.dev = s.fd.dev ∧ fd.written = s.fd.written
      ∧ s.fd.pos ≤ fd.pos ∧ (s.fd.pos ≤ s.fd.dev.size → fd.pos ≤ s.fd.dev.size))
    ∨ ∃ t ts, s.next = t :: ts ∧ plain s = s.resume t ts := by
  simp only [plain, step, hpc, eraseTurn]
  split
  · exact .inl ⟨s, rfl⟩
  split
  · rcases s.fd.mtdEraseBlock_cases s.e with h | ⟨hend, h⟩
    · cases hnext : s.next with
      | cons t ts =>
        simp only [h]
        exact .inr (.inr ⟨t, ts, rfl, rfl⟩)
      | nil =>
        simp only [h]
        split
        · exact .inl ⟨s, rfl⟩
        · refine .inr (.inl ⟨.erase, s.fd.lseekCur s.fd.dev.erasesize, s.w + s.fd.dev.erasesize,
            s.e + s.fd.dev.erasesize, rfl, by decide, by simp, by simp, ?_, ?_⟩)
          · exact s.fd.le_lseekCur_pos _
          · exact s.fd.lseekCur_pos_le _
    · have hsize := s.fd.dev.size_le
      simp only [h]
      rw [if_neg (by omega)]
      exact .inr (.inl ⟨.erase, s.fd.erased s.e, s.w, s.e + s.fd.dev.erasesize, rfl, by decide,
        rfl, by simp, le_rfl, id⟩)
  · exact .inr (.inl ⟨.write, s.fd, s.w, s.e, rfl, by decide, rfl, rfl, le_rfl, id⟩)

theorem plain_write_cases (hpc : s.pc = .write) : (∃ msg s', plain s = .leave (.exited msg s'))
    ∨ (plain s = .again { s with
        pc := .fill
        w := s.w + s.buflen
        buflen := 0
        offset := 0
        fd := s.fd.wrote (s.buf.slice s.offset s.buflen) }
      ∧ s.fd.pos + s.buflen ≤ s.fd.dev.size) := by
  simp only [plain, step, hpc, writeTurn]
  rcases s.fd.write_cases (s.buf.slice s.offset s.buflen) with h | ⟨n, hle, hend, h⟩
  · exact .inl ⟨_, _, by rw [h]⟩
  · rw [h]
    by_cases hn : n < s.buflen
    · exact .inl ⟨_, _, if_pos hn⟩
    · rw [Memory.length_slice] at hle
      obtain rfl : n = s.buflen := by omega
      refine .inr ⟨(if_neg hn).trans ?_, hend⟩
      rw [List.take_of_length_le (Memory.length_slice ..).le]

end MtdWrite
