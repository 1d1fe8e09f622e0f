import RouterFirmware.MtdBadBlocks

/-!
# Writing over several partitions

When an erase fails and another partition follows, `mtd_write` goes on there
with the bytes in its buffer. Two things can go wrong.
-/

def MtdDevice.firstBad (d : MtdDevice) : ℕ :=
  (List.range d.blocks).findIdx d.bad

def firstChunk (d : MtdDevice) (carried left : ℕ) : ℕ :=
  if d.erasesize ≤ carried then carried else min d.erasesize left

def HandsOver (alloc : ℕ) : ℕ → ℕ → List MtdDevice → Prop
  | _, _, [] => False
  | carried, left, [d] =>
    firstChunk d carried left ≤ alloc
      ∧ chunkCount d.erasesize left ≤ d.goodBlocks.length
  | carried, left, d :: d' :: ds =>
    let chunk := firstChunk d carried left
    let room := d.firstBad * d.erasesize
    chunk ≤ alloc
      ∧ (left ≤ room
        ∨ (d.firstBad = 0 ∧ HandsOver alloc chunk left (d' :: ds))
        ∨ (0 < d.firstBad ∧ chunk ≤ room ∧ d.erasesize ∣ chunk
          ∧ room + min d.erasesize (left - room) ≤ intMax
          ∧ HandsOver alloc (min d.erasesize (left - room)) (left - room) (d' :: ds)))

def LosesNothing (alloc : ℕ) (d : MtdDevice) (next : List MtdTarget) (buf : Bytes)
    (buflen : ℕ) (reads : List ReadResult) : Prop :=
  ∃ s, Loop.Ends MtdWrite.plain (.start d next buf buflen reads) (.returned s)
    ∧ s.written = buf.slice 0 buflen ++ readContent reads ∧ s.filled ≤ alloc

namespace MtdDevice

open List Nat

/-- The bytes before the first bad block. -/
abbrev room (d : MtdDevice) : ℕ := d.firstBad * d.erasesize

theorem firstBad_le (d : MtdDevice) : d.firstBad ≤ d.blocks :=
  findIdx_le_length.trans_eq length_range

theorem room_le (d : MtdDevice) : d.room ≤ d.size := by
  rw [← d.blocks_mul]
  exact mul_le_mul_right _ d.firstBad_le

theorem bad_of_lt_firstBad (d : MtdDevice) {b : ℕ} (h : b < d.firstBad) : d.bad b = false := by
  have hb := not_of_lt_findIdx h
  rwa [getElem_range] at hb

theorem firstBad_fails (d : MtdDevice) : d.blocks ≤ d.firstBad ∨ d.bad d.firstBad = true := by
  by_cases h : d.firstBad < d.blocks
  · have hlt : (List.range d.blocks).findIdx d.bad < (List.range d.blocks).length := by
      rwa [length_range]
    have hb := findIdx_getElem (w := hlt)
    rw [getElem_range] at hb
    exact .inr hb
  · exact .inl (not_lt.mp h)

end MtdDevice

namespace MtdWrite

variable {s : MtdWrite} {image : List UInt8} {alloc : ℕ} {d' : MtdDevice}

theorem written_eq (s : MtdWrite) : s.written = s.closed.flatMap MtdFd.written ++ s.fd.written := by
  simp [written, devices]

/-! ## What cannot be put right again -/

structure Spoiled (image : List UInt8) (alloc : ℕ) (s : MtdWrite) : Prop where
  reads : Faultless s.reads
  spoiled : alloc < s.filled ∨ image.length < s.written.length + s.left.length

theorem length_left (s : MtdWrite) : s.left.length = s.buflen + (readContent s.reads).length := by
  rw [left, List.length_append, length_pending]

theorem Spoiled.of_counts {s' : MtdWrite} (h : s.Spoiled image alloc)
    (hreads : Faultless s'.reads) (hfilled : s.filled ≤ s'.filled)
    (hcount : s.written.length + s.left.length ≤ s'.written.length + s'.left.length) :
    s'.Spoiled image alloc :=
  ⟨hreads, h.spoiled.imp (fun h => h.trans_le hfilled) (fun h => h.trans_le hcount)⟩

theorem left_eq_nil_of_afterFill (hreads : Faultless s.reads) (hzero : s.afterFill.buflen = 0) :
    s.left = [] := by
  obtain ⟨got, hfills, hpending⟩ := s.afterFill_fills
  have hlen : s.buflen + got.length = 0 := by
    rw [← hzero, ← length_pending, ← length_pending s.afterFill, hpending, List.length_append]
  have hgot := (hfills.length_eq hreads).symm
  have hpos := s.fd.dev.erasesize_pos
  refine List.length_eq_zero_iff.mp ?_
  rw [length_left]
  omega

theorem resume_cases (s : MtdWrite) (t : MtdTarget) (ts : List MtdTarget) :
    (t.dev = none ∧ ∃ msg s', s.resume t ts = .leave (.exited msg s'))
      ∨ ∃ d fd offset, t.dev = some d
        ∧ s.resume t ts = .again { s with
          pc := .fill, fd := d.opened, offset := offset, w := 0, e := 0, next := ts
          closed := s.closed ++ [fd] }
        ∧ ((s.w < s.e ∧ fd = (s.fd.write (s.buf.slice s.offset (s.e - s.w))).2)
          ∨ (¬ s.w < s.e ∧ offset = s.offset ∧ fd = s.fd)) := by
  unfold resume
  cases hd : t.dev with
  | none => exact .inl ⟨rfl, _, _, rfl⟩
  | some d =>
    refine .inr ⟨d, _, _, rfl, rfl, ?_⟩
    by_cases hlt : s.w < s.e
    · exact .inl ⟨hlt, if_pos hlt⟩
    · exact .inr ⟨hlt, if_neg hlt, if_neg hlt⟩

theorem length_written_le_write (fd : MtdFd) (bytes : List UInt8) :
    fd.written.length ≤ (fd.write bytes).2.written.length := by
  rcases fd.write_cases bytes with h | ⟨n, -, -, h⟩
  · rw [h]
  · rw [h]
    simp

theorem Spoiled.turn (h : s.Spoiled image alloc) :
    (∃ s', plain s = .again s' ∧ s'.Spoiled image alloc)
      ∨ ∃ r, plain s = .leave r ∧ ∀ s', r = .returned s' →
        s'.written ≠ image ∨ alloc < s'.filled := by
  cases hpc : s.pc with
  | fill =>
    have hreads := faultless_afterFill h.reads
    have hs' : s.afterFill.Spoiled image alloc := h.of_counts hreads (le_max_left _ _)
      (by rw [left_afterFill]; exact le_rfl)
    by_cases hzero : s.afterFill.buflen = 0
    · refine .inr ⟨_, plain_fill_done hpc hzero, fun s' hr => ?_⟩
      cases hr
      rcases hs'.spoiled with hfilled | hcount
      · exact .inr hfilled
      · refine .inl fun himage => ?_
        rw [left_afterFill, left_eq_nil_of_afterFill h.reads hzero, himage] at hcount
        exact absurd hcount (by simp)
    · exact .inl ⟨_, plain_fill hpc hzero, hs'.of_counts hreads le_rfl le_rfl⟩
  | erase =>
    rcases plain_erase_cases hpc with
      ⟨s', hs'⟩ | ⟨pc, fd, w, e, hs', -, -, hwritten, -⟩ | ⟨t, ts, -, hs'⟩
    · exact .inr ⟨_, hs', fun _ hr => by cases hr⟩
    · refine .inl ⟨_, hs', h.of_counts h.reads le_rfl ?_⟩
      rw [written_eq, written_eq, hwritten]
      exact le_rfl
    · rw [hs']
      rcases s.resume_cases t ts with ⟨-, msg, s', hr⟩ | ⟨d, fd, offset, -, hr, hfd⟩
      · exact .inr ⟨_, hr, fun _ hr => by cases hr⟩
      · refine .inl ⟨_, hr, h.of_counts h.reads le_rfl (Nat.add_le_add_right ?_ _)⟩
        have hle : s.fd.written.length ≤ fd.written.length := by
          rcases hfd with ⟨-, rfl⟩ | ⟨-, -, rfl⟩
          · exact length_written_le_write _ _
          · exact le_rfl
        rw [written_eq, written_eq]
        simpa [MtdDevice.opened, MtdFd.written] using hle
  | write =>
    rcases plain_write_cases hpc with ⟨msg, s', hs'⟩ | ⟨hs', -⟩
    · exact .inr ⟨_, hs', fun _ hr => by cases hr⟩
    · refine .inl ⟨_, hs', h.of_counts h.reads le_rfl ?_⟩
      rw [length_left, length_left, written_eq, written_eq]
      simp
      omega

def GoodEnd (image : List UInt8) (alloc : ℕ) (s : MtdWrite) : Prop :=
  ∃ s', Loop.Ends plain s (.returned s') ∧ s'.written = image ∧ s'.filled ≤ alloc

theorem goodEnd_iff_of_steps {s' : MtdWrite} (h : Loop.Steps plain s s') :
    s.GoodEnd image alloc ↔ s'.GoodEnd image alloc := by
  simp only [GoodEnd, Loop.ends_iff_of_steps h]

theorem Spoiled.not_goodEnd (h : s.Spoiled image alloc) : ¬ s.GoodEnd image alloc := by
  rintro ⟨s', hends, hwritten, hfilled⟩
  have hpost := Loop.post_of_ends (Spoiled image alloc)
    (fun r => ∀ s', r = .returned s' → s'.written ≠ image ∨ alloc < s'.filled) ?_ ?_ h hends
  · rcases hpost s' rfl with hne | hlt
    · exact hne hwritten
    · exact absurd hfilled (not_le.mpr hlt)
  · intro s s' h hs
    rcases h.turn with ⟨s₁, h₁, hspoiled⟩ | ⟨r, h₁, -⟩ <;> rw [hs] at h₁ <;> cases h₁
    exact hspoiled
  · intro s r h hs
    rcases h.turn with ⟨s₁, h₁, -⟩ | ⟨r, h₁, hpost⟩ <;> rw [hs] at h₁ <;> cases h₁
    exact hpost

/-! ## One chunk -/

/-- The length of the chunk that is filled next. -/
abbrev chunk (s : MtdWrite) : ℕ := s.afterFill.buflen

/-- **Nothing is lost so far**, and the next chunk goes to the partition
`d`. -/
structure Intact (image : List UInt8) (alloc : ℕ) (d : MtdDevice) (s : MtdWrite) : Prop where
  writes : d.WritesComplete
  pc : s.pc = .fill
  offset : s.offset = 0
  dev : s.fd.dev = d
  pos : s.fd.pos = s.w
  reads : Faultless s.reads
  filled : s.filled ≤ alloc
  whole : s.written ++ s.left = image

/-- **The state between two chunks** on the partition `d`. -/
structure Between (image : List UInt8) (alloc : ℕ) (d : MtdDevice) (ds : List MtdDevice)
    (s : MtdWrite) : Prop extends Intact image alloc d s where
  erased : ∃ k ≤ d.firstBad, s.e = k * d.erasesize ∧ s.w ≤ s.e
  next : s.next.map MtdTarget.dev = ds.map some

variable {d : MtdDevice} {ds : List MtdDevice}

theorem steps_climb {k m : ℕ} (hpc : s.pc = .erase) (hint : s.w + s.buflen ≤ intMax) (hkm : k ≤ m)
    (hm : m ≤ s.fd.dev.firstBad) (he : s.e = k * s.fd.dev.erasesize)
    (hlt : ∀ i, k ≤ i → i < m → i * s.fd.dev.erasesize < s.w + s.buflen) :
    ∃ fd, Loop.Steps plain s { s with e := m * s.fd.dev.erasesize, fd := fd }
      ∧ fd.dev = s.fd.dev ∧ fd.pos = s.fd.pos ∧ fd.written = s.fd.written := by
  induction m, hkm using Nat.le_induction with
  | base =>
    refine ⟨s.fd, ?_, rfl, rfl, rfl⟩
    rw [← he]
    exact Loop.Steps.refl s
  | succ m hkm ih =>
    obtain ⟨fd, hsteps, hdev, hpos, hwritten⟩ := ih (by omega) fun i h₁ h₂ => hlt i h₁ (by omega)
    have hturn := plain_erase_good
      (s := { s with e := m * s.fd.dev.erasesize, fd := fd }) (b := m) hpc
      (show m * s.fd.dev.erasesize = m * fd.dev.erasesize by rw [hdev])
      (hlt m hkm (Nat.lt_succ_self m)) hint
      (show m < fd.dev.blocks by rw [hdev]; exact lt_of_lt_of_le hm s.fd.dev.firstBad_le)
      (show fd.dev.bad m = false by rw [hdev]; exact s.fd.dev.bad_of_lt_firstBad hm)
    rw [show (m + 1) * fd.dev.erasesize = (m + 1) * s.fd.dev.erasesize by rw [hdev]] at hturn
    exact ⟨_, hsteps.trans (.single hturn), hdev, hpos, by simpa using hwritten⟩

theorem Between.w_le (h : s.Between image alloc d ds) : s.w ≤ d.room := by
  obtain ⟨k, hk, he, hle⟩ := h.erased
  exact hle.trans (he.trans_le (Nat.mul_le_mul_right _ hk))

theorem Intact.buflen_afterFill (h : s.Intact image alloc d) :
    s.chunk = firstChunk d s.buflen s.left.length := by
  obtain ⟨got, hfills, hpending⟩ := s.afterFill_fills
  have hlen : s.afterFill.buflen = s.buflen + got.length := by
    rw [← length_pending, hpending, List.length_append, length_pending]
  have hgot := hfills.length_eq h.reads
  rw [h.dev] at hgot
  rw [chunk, length_left, firstChunk]
  split <;> omega

theorem left_eq_pending_append (s : MtdWrite) :
    s.left = s.afterFill.pending ++ readContent s.afterFill.reads :=
  (left_afterFill s).symm

theorem Between.steps_to_erased {k m : ℕ} (h : s.Between image alloc d ds)
    (hpos : 0 < s.chunk) (hint : s.w + s.chunk ≤ intMax) (hkm : k ≤ m)
    (hm : m ≤ d.firstBad) (he : s.e = k * d.erasesize)
    (hlt : ∀ i, k ≤ i → i < m → i * d.erasesize < s.w + s.chunk) : ∃ fd, Loop.Steps plain s
      { s.afterFill with pc := .erase, e := m * d.erasesize, fd := fd }
    ∧ fd.dev = d ∧ fd.pos = s.w ∧ fd.written = s.fd.written := by
  have hfill := plain_fill h.pc hpos.ne'
  obtain rfl := h.dev
  obtain ⟨fd, hsteps, hdev, hposfd, hwritten⟩ := steps_climb
    (s := { s.afterFill with pc := .erase }) rfl hint hkm hm he hlt
  exact ⟨fd, (Loop.Steps.single hfill).trans hsteps, hdev, hposfd.trans h.pos, hwritten⟩

theorem Between.not_goodEnd_of_overflow (h : s.Between image alloc d ds)
    (hpos : 0 < s.chunk) (hint : intMax < s.w + s.chunk) : ¬ s.GoodEnd image alloc := by
  rw [goodEnd_iff_of_steps (Loop.Steps.single (plain_fill h.pc hpos.ne'))]
  rintro ⟨s', hends, -⟩
  have hleave : plain { s.afterFill with pc := .erase }
      = .leave (.undefined { s.afterFill with pc := .erase }) := if_pos hint
  cases (Loop.ends_iff_of_leave hleave).mp hends

theorem Intact.steps_write {w : ℕ} (h : s.Intact image alloc d) (hpos : 0 < s.chunk)
    (halloc : s.chunk ≤ alloc) {e : ℕ} {fd : MtdFd} (hdev : fd.dev = d)
    (hfd : fd.pos = w) (hwritten : fd.written = s.fd.written)
    (henough : w + s.chunk ≤ e) (hsize : w + s.chunk ≤ d.size) :
    ∃ s', Loop.Steps plain { s.afterFill with pc := .erase, w := w, e := e, fd := fd } s'
      ∧ s'.Intact image alloc d ∧ s'.w = w + s.chunk ∧ s'.e = e ∧ s'.next = s.next
      ∧ s'.buflen = 0 ∧ s'.left = s.left.drop s.chunk := by
  have hint := d.size_le
  have hdrop : s.left.drop s.chunk = readContent s.afterFill.reads := by
    rw [left_eq_pending_append]
    exact List.drop_left' (length_pending _)
  have hdone := plain_erase_done
    (s := { s.afterFill with pc := .erase, w := w, e := e, fd := fd }) rfl henough
    (show w + s.chunk ≤ intMax by omega)
  have hwrite := plain_write
    (s := { s.afterFill with pc := .write, w := w, e := e, fd := fd }) rfl h.offset
    (show fd.dev.accepts fd.pos s.chunk = some s.chunk by
      rw [hdev, hfd]
      exact h.writes _ _ hpos hsize)
  refine ⟨_, (Loop.Steps.single hdone).trans (.single hwrite), ⟨h.writes, rfl, rfl, hdev, ?_,
    faultless_afterFill h.reads, max_le h.filled halloc, ?_⟩, rfl, rfl, rfl, rfl, hdrop.symm⟩
  · show fd.pos + s.afterFill.pending.length = w + s.chunk
    rw [hfd, length_pending]
  · have hwhole := h.whole
    rw [left_eq_pending_append, written_eq, ← hwritten] at hwhole
    rw [written_eq]
    show s.closed.flatMap MtdFd.written ++ (fd.wrote s.afterFill.pending).written
      ++ readContent s.afterFill.reads = image
    rw [MtdFd.written_wrote, ← hwhole]
    simp only [List.append_assoc]

theorem Between.steps_chunk (h : s.Between image alloc d ds) (hpos : 0 < s.chunk)
    (halloc : s.chunk ≤ alloc) (hroom : s.w + s.chunk ≤ d.room) :
    ∃ s', Loop.Steps plain s s' ∧ s'.Between image alloc d ds
      ∧ s'.w = s.w + s.chunk ∧ s'.buflen = 0
      ∧ s'.left = s.left.drop s.chunk := by
  obtain ⟨k, hk, he, hle⟩ := h.erased
  have hE := d.erasesize_pos
  have hsize := d.room_le
  have hint := d.size_le
  -- as many blocks as the chunk needs, or those that are erased already
  obtain ⟨fd, hsteps, hdev, hposfd, hwritten⟩ := h.steps_to_erased hpos (by omega)
    (m := max k (chunkCount d.erasesize (s.w + s.chunk))) (le_max_left _ _)
    (max_le hk ((chunkCount_le_iff hE _ _).mpr hroom)) he fun i hki hi =>
      (lt_chunkCount_iff hE _ _).mp (by omega)
  generalize hm : max k (chunkCount d.erasesize (s.w + s.chunk)) = m at hsteps
  have hmf : m ≤ d.firstBad := by
    rw [← hm]
    exact max_le hk ((chunkCount_le_iff hE _ _).mpr hroom)
  have henough : s.w + s.chunk ≤ m * d.erasesize := by
    rw [← chunkCount_le_iff hE, ← hm]
    exact le_max_right _ _
  obtain ⟨s', hsteps', hs', hw', he', hnext, hrest⟩ :=
    h.steps_write hpos halloc hdev hposfd hwritten henough (by omega)
  refine ⟨s', hsteps.trans hsteps', ⟨hs', ⟨m, hmf, he', ?_⟩, ?_⟩, hw', hrest⟩
  · rw [hw', he']
    exact henough
  · rw [hnext]
    exact h.next

theorem Between.next_cons (h : s.Between image alloc d (d' :: ds)) :
    ∃ t ts, s.next = t :: ts ∧ t.dev = some d' ∧ ts.map MtdTarget.dev = ds.map some := by
  have hmap := h.next
  cases hn : s.next with
  | nil =>
    rw [hn] at hmap
    cases hmap
  | cons t ts =>
    rw [hn, List.map_cons, List.map_cons, List.cons.injEq] at hmap
    exact ⟨t, ts, rfl, hmap.1, hmap.2⟩

theorem Between.steps_fail (h : s.Between image alloc d (d' :: ds))
    (hwrites : d'.WritesComplete) (hpos : 0 < s.chunk)
    (halloc : s.chunk ≤ alloc) (hint : s.w + s.chunk ≤ intMax)
    (hroom : d.room < s.w + s.chunk) : ∃ s', Loop.Steps plain s s'
    ∧ ((s.w = d.room ∧ s'.Between image alloc d' ds ∧ s'.w = 0
        ∧ s'.buflen = s.chunk ∧ s'.left = s.left)
      ∨ (s.w < d.room ∧ s'.Spoiled image alloc)) := by
  obtain ⟨k, hk, he, hle⟩ := h.erased
  have hE := d.erasesize_pos
  have hsize := d.room_le
  have hw := h.w_le
  obtain ⟨fd, hsteps, hdev, hposfd, hwritten⟩ := h.steps_to_erased hpos hint hk le_rfl he
    fun i _ hi => lt_trans ((Nat.mul_lt_mul_right hE).mpr hi) hroom
  obtain ⟨t, ts, hnext, ht, hts⟩ := h.next_cons
  have hresume := plain_erase_resume (b := d.firstBad)
    (s := { s.afterFill with pc := .erase, e := d.room, fd := fd }) rfl hnext
    (by rw [hdev]) hroom hint (by rw [hdev]; exact d.firstBad_fails)
  rcases resume_cases _ t ts with ⟨hnone, -⟩ | ⟨d₁, fd₁, offset, hd₁, hr, hfd⟩
  · rw [ht] at hnone
    cases hnone
  rw [ht, Option.some.injEq] at hd₁
  subst hd₁
  rw [hr] at hresume
  refine ⟨_, hsteps.trans (.single hresume), ?_⟩
  have hwhole := h.whole
  rw [written_eq, ← hwritten] at hwhole
  rcases hfd with ⟨hlt, hfd⟩ | ⟨hlt, hoff, hfd⟩
  · have hlt' : s.w < d.room := hlt
    refine .inr ⟨hlt', faultless_afterFill h.reads, .inr ?_⟩
    -- the part that still fits is written, and stays in the buffer
    have hwrite := MtdFd.write_of_accepts
      (s.afterFill.buf.slice s.afterFill.offset (d.room - s.w))
      (show fd.dev.accepts fd.pos _ = _ by
        rw [Memory.length_slice, hposfd, hdev]
        exact h.writes _ _ (by omega) (by omega))
    have hfd₁ : fd₁.written.length = fd.written.length + (d.room - s.w) := by
      rw [hfd.trans (congrArg Prod.snd hwrite), MtdFd.written_wrote, List.length_append,
        Memory.length_slice]
    have hlen := congrArg List.length hwhole
    rw [← left_afterFill, List.length_append, List.length_append] at hlen
    rw [written_eq]
    show image.length < ((s.closed ++ [fd₁]).flatMap MtdFd.written ++ []).length
      + s.afterFill.left.length
    simp only [List.flatMap_append, List.length_append, List.flatMap_cons, List.flatMap_nil,
      List.append_nil, hfd₁]
    omega
  · have hlt' : ¬ s.w < d.room := hlt
    refine .inl ⟨by omega, ⟨⟨hwrites, rfl, hoff.trans h.offset, rfl, rfl,
      faultless_afterFill h.reads, max_le h.filled halloc, ?_⟩,
      ⟨0, Nat.zero_le _, (Nat.zero_mul _).symm, le_rfl⟩, hts⟩, rfl, rfl, left_afterFill s⟩
    rw [written_eq]
    show (s.closed ++ [fd₁]).flatMap MtdFd.written ++ [] ++ s.afterFill.left = image
    rw [left_afterFill, hfd, ← hwhole]
    simp

/-! ## One partition -/

theorem Intact.goodEnd_of_left_eq_nil (h : s.Intact image alloc d) (hleft : s.left = []) :
    s.GoodEnd image alloc := by
  have hlen : s.buflen = 0 := by
    have hlen := length_left s
    rw [hleft, List.length_nil] at hlen
    omega
  have hzero : s.chunk = 0 := by
    rw [h.buflen_afterFill, hleft, hlen]
    simp [firstChunk, d.erasesize_pos.ne']
  refine ⟨_, Loop.ends_of_leave (plain_fill_done h.pc hzero), ?_, ?_⟩
  · have hwhole := h.whole
    rwa [hleft, List.append_nil] at hwhole
  · exact max_le h.filled (hzero.trans_le (Nat.zero_le _))

theorem dvd_iff_eq_room {w E f b : ℕ} (hw : w ≤ f * E) (hlt : f * E < w + b) (hb : b ≤ E) :
    E ∣ w ↔ w = f * E := by
  constructor
  · rintro ⟨c, hc⟩
    rw [mul_comm] at hc
    by_contra hne
    have hcf : c < f := Nat.lt_of_mul_lt_mul_right (hc ▸ lt_of_le_of_ne hw hne)
    have hle := Nat.mul_le_mul_right E hcf
    rw [Nat.succ_mul, ← hc] at hle
    omega
  · rintro rfl
    exact dvd_mul_left E f

/-- **What becomes of the rest** when the partition `d` is full, `x` bytes of it
written before the last whole block: it goes on to `d'`, or is not stored. -/
def GoesOn (image : List UInt8) (alloc : ℕ) (d d' : MtdDevice) (ds : List MtdDevice)
    (x rest : ℕ) (s : MtdWrite) : Prop :=
  if d.erasesize ∣ x ∧ d.room + min d.erasesize rest ≤ intMax then
    s.Between image alloc d' ds ∧ s.w = 0 ∧ s.left.length = rest
      ∧ s.buflen = min d.erasesize rest
  else ¬ s.GoodEnd image alloc

theorem Between.run_rest (h : s.Between image alloc d ds) (hzero : s.buflen = 0)
    (halloc : min d.erasesize s.left.length ≤ alloc) :
    (s.w + s.left.length ≤ d.room → s.GoodEnd image alloc)
      ∧ ∀ d' ds', ds = d' :: ds' → d'.WritesComplete →
        d.room < s.w + s.left.length →
        ∃ s', Loop.Steps plain s s'
          ∧ s'.GoesOn image alloc d d' ds' s.w (s.w + s.left.length - d.room) := by
  induction hn : s.left.length using Nat.strongRecOn generalizing s with
  | ind n ih =>
    subst hn
    have hE := d.erasesize_pos
    have hw := h.w_le
    by_cases hleft : s.left = []
    · refine ⟨fun _ => h.goodEnd_of_left_eq_nil hleft, fun d' ds' _ _ hlt => ?_⟩
      rw [hleft, List.length_nil] at hlt
      omega
    have hlpos := List.length_pos_iff.mpr hleft
    have hb : s.chunk = min d.erasesize s.left.length := by
      rw [h.buflen_afterFill, hzero, firstChunk, if_neg (by omega)]
    have hpos : 0 < s.chunk := by omega
    by_cases hroom : s.w + s.chunk ≤ d.room
    · obtain ⟨s₁, hsteps, h₁, hw₁, hzero₁, hleft₁⟩ := h.steps_chunk hpos (by omega) hroom
      have hlen₁ : s₁.left.length = s.left.length - s.chunk := by
        rw [hleft₁, List.length_drop]
      have hsum : s₁.w + s₁.left.length = s.w + s.left.length := by omega
      obtain ⟨ih₁, ih₂⟩ := ih _ (by omega) h₁ hzero₁ (by omega) rfl
      rw [hsum] at ih₁ ih₂
      refine ⟨fun hfit => (goodEnd_iff_of_steps hsteps).mpr (ih₁ hfit), ?_⟩
      intro d' ds' hds hwr hlt
      obtain ⟨s', hsteps', hs'⟩ := ih₂ d' ds' hds hwr hlt
      -- more than this chunk is left, so that it was a whole block
      have hdvd : d.erasesize ∣ s₁.w ↔ d.erasesize ∣ s.w := by
        rw [hw₁, show s.chunk = d.erasesize by clear hs' ih₁ ih₂; omega,
          Nat.dvd_add_self_right]
      simp only [GoesOn, hdvd] at hs'
      exact ⟨s', hsteps.trans hsteps', hs'⟩
    · refine ⟨fun hfit => absurd hfit (by omega), fun d' ds' hds hwr hlt => ?_⟩
      subst hds
      have hdvd := dvd_iff_eq_room hw (not_le.mp hroom) (hb.trans_le (min_le_left _ _))
      by_cases hint : s.w + s.chunk ≤ intMax
      · obtain ⟨s', hsteps, hs'⟩ := h.steps_fail hwr hpos (by omega) hint (not_le.mp hroom)
        refine ⟨s', hsteps, ?_⟩
        rcases hs' with ⟨hw', h', hw₀, hbuf, hleft'⟩ | ⟨hw', hspoiled⟩
        · rw [GoesOn, hw', Nat.add_sub_cancel_left, if_pos ⟨hw' ▸ hdvd.mpr hw', by omega⟩]
          exact ⟨h', hw₀, congrArg _ hleft', hbuf.trans hb⟩
        · rw [GoesOn, if_neg fun hc => hw'.ne (hdvd.mp hc.1)]
          exact hspoiled.not_goodEnd
      · refine ⟨s, Loop.Steps.refl s, ?_⟩
        rw [GoesOn, if_neg]
        · exact h.not_goodEnd_of_overflow hpos (not_le.mp hint)
        · rintro ⟨hd, hle⟩
          have hw' := hdvd.mp hd
          omega

theorem Intact.not_goodEnd_of_alloc_lt (h : s.Intact image alloc d)
    (halloc : alloc < s.chunk) : ¬ s.GoodEnd image alloc := by
  rw [goodEnd_iff_of_steps (Loop.Steps.single (plain_fill h.pc (Nat.ne_zero_of_lt halloc)))]
  exact Spoiled.not_goodEnd ⟨faultless_afterFill h.reads, .inl (lt_max_of_lt_right halloc)⟩

theorem Intact.min_left_le (h : s.Intact image alloc d) :
    min d.erasesize (s.left.length - s.chunk) ≤ s.chunk := by
  rw [h.buflen_afterFill, firstChunk]
  split <;> omega

theorem Intact.buflen_afterFill_pos (h : s.Intact image alloc d) (hleft : s.left ≠ []) :
    0 < s.chunk ∧ s.chunk ≤ s.left.length := by
  have hE := d.erasesize_pos
  have hlpos := List.length_pos_iff.mpr hleft
  have hlen := length_left s
  rw [h.buflen_afterFill, firstChunk]
  split <;> omega

theorem Between.goodEnd_of_fits (h : s.Between image alloc d ds) (hw : s.w = 0)
    (halloc : s.chunk ≤ alloc) (hfit : s.left.length ≤ d.room) : s.GoodEnd image alloc := by
  by_cases hleft : s.left = []
  · exact h.goodEnd_of_left_eq_nil hleft
  have hmin := h.min_left_le
  have hb := h.buflen_afterFill_pos hleft
  obtain ⟨s₁, hsteps, h₁, hw₁, hzero₁, hleft₁⟩ := h.steps_chunk hb.1 halloc (by omega)
  have hlen₁ : s₁.left.length = s.left.length - s.chunk := by
    rw [hleft₁, List.length_drop]
  rw [goodEnd_iff_of_steps hsteps]
  exact (h₁.run_rest hzero₁ (by omega)).1 (by omega)

theorem Between.goodEnd_of_chunk (h : s.Between image alloc d (d' :: ds))
    (hw : s.w = 0) (hwr : d'.WritesComplete) (halloc : s.chunk ≤ alloc)
    (hfit : d.room < s.left.length) (hpos : 0 < s.chunk) (hroom : s.chunk ≤ d.room) :
    ∃ s' : MtdWrite, (s.GoodEnd image alloc ↔ s'.GoodEnd image alloc)
      ∧ s'.GoesOn image alloc d d' ds s.chunk (s.left.length - d.room) := by
  have hmin := h.min_left_le
  obtain ⟨s₁, hsteps, h₁, hw₁, hzero₁, hleft₁⟩ := h.steps_chunk hpos halloc (by omega)
  have hlen₁ : s₁.left.length = s.left.length - s.chunk := by
    rw [hleft₁, List.length_drop]
  have hsum : s₁.w + s₁.left.length = s.left.length := by omega
  obtain ⟨s', hsteps', hs'⟩ := (h₁.run_rest hzero₁ (by omega)).2 d' ds rfl hwr (by omega)
  rw [hsum, hw₁, hw, zero_add] at hs'
  exact ⟨s', goodEnd_iff_of_steps (hsteps.trans hsteps'), hs'⟩

theorem Between.handsOver_iff_of_room (h : s.Between image alloc d (d' :: ds))
    (halloc : s.chunk ≤ alloc) (hfit : ¬ s.left.length ≤ d.room)
    (hf : d.firstBad ≠ 0) (hroom : s.chunk ≤ d.room) :
    HandsOver alloc s.buflen s.left.length (d :: d' :: ds)
      ↔ (d.erasesize ∣ s.chunk
          ∧ d.room
            + min d.erasesize (s.left.length - d.room) ≤ intMax)
        ∧ HandsOver alloc (min d.erasesize (s.left.length - d.room))
          (s.left.length - d.room) (d' :: ds) := by
  rw [HandsOver]
  simp only [← h.buflen_afterFill]
  constructor
  · rintro ⟨-, hh | ⟨hf', -⟩ | ⟨-, -, hd, hle, hh⟩⟩
    · exact absurd hh hfit
    · exact absurd hf' hf
    · exact ⟨⟨hd, hle⟩, hh⟩
  · rintro ⟨⟨hd, hle⟩, hh⟩
    exact ⟨halloc, .inr (.inr ⟨Nat.pos_of_ne_zero hf, hroom, hd, hle, hh⟩)⟩

theorem Between.handsOver_iff_of_not_room (h : s.Between image alloc d (d' :: ds))
    (halloc : s.chunk ≤ alloc) (hfit : ¬ s.left.length ≤ d.room) (hroom : ¬ s.chunk ≤ d.room) :
    HandsOver alloc s.buflen s.left.length (d :: d' :: ds)
      ↔ d.firstBad = 0 ∧ HandsOver alloc s.chunk s.left.length (d' :: ds) := by
  rw [HandsOver]
  simp only [← h.buflen_afterFill]
  constructor
  · rintro ⟨-, hh | hh | ⟨-, hh, -⟩⟩
    · exact absurd hh hfit
    · exact hh
    · exact absurd hh hroom
  · exact fun hh => ⟨halloc, .inr (.inl hh)⟩

/-! ## The last partition -/

theorem goodFrom_of_le_firstBad {k : ℕ} (hk : k ≤ d.firstBad) :
    ∃ gs, GoodFrom d k gs ∧ k + gs.length = d.goodBlocks.length := by
  have hle := hk.trans d.firstBad_le
  have hsplit : List.range d.blocks = List.range k ++ List.range' k (d.blocks - k) := by
    have happend := List.range'_append_1 (s := 0) (m := k) (n := d.blocks - k)
    rw [Nat.zero_add, Nat.add_sub_cancel' hle] at happend
    rw [List.range_eq_range', List.range_eq_range', happend]
  have hgood : (List.range k).filter (fun b => !d.bad b) = List.range k := by
    refine List.filter_eq_self.mpr fun b hb => ?_
    rw [d.bad_of_lt_firstBad ((List.mem_range.mp hb).trans_le hk)]
    rfl
  refine ⟨_, goodFrom_range' d (d.blocks - k) k (by omega), ?_⟩
  rw [MtdDevice.goodBlocks, hsplit, List.filter_append, hgood, List.length_append,
    List.length_range]

structure HasRoom (room : ℕ) (s : MtdWrite) : Prop where
  next : s.next = []
  at_w : s.fd.pos = s.w
  w_le : s.w ≤ s.e
  room_eq : ∃ b gs, s.e = b * s.fd.dev.erasesize ∧ b ≤ s.fd.dev.blocks
    ∧ GoodFrom s.fd.dev b gs ∧ room + s.w = s.e + gs.length * s.fd.dev.erasesize

variable {room : ℕ} (h : s.HasRoom room)

include h

theorem HasRoom.add_le_size : room + s.w ≤ s.fd.dev.size := by
  obtain ⟨b, gs, he, hb, hgs, hroom⟩ := h.room_eq
  rw [hroom, he, ← add_mul, ← s.fd.dev.blocks_mul]
  exact Nat.mul_le_mul_right _ (hgs.add_length_le hb)

theorem HasRoom.turn (hpc : s.pc = .erase) (hroom : s.buflen ≤ room) (hlt : s.e < s.w + s.buflen) :
    ∃ w fd, plain s = .again { s with w := w, e := s.e + s.fd.dev.erasesize, fd := fd }
      ∧ { s with w := w, e := s.e + s.fd.dev.erasesize, fd := fd }.HasRoom room
      ∧ fd.dev = s.fd.dev ∧ fd.written = s.fd.written := by
  have hend := h.add_le_size
  have hsize := s.fd.dev.size_le
  have hpos := h.at_w
  have hle := h.w_le
  obtain ⟨b, gs, he, hb, hgs, hsum⟩ := h.room_eq
  have hnext : (b + 1) * s.fd.dev.erasesize = s.e + s.fd.dev.erasesize := by
    rw [he, Nat.succ_mul]
  rcases hgs.next with ⟨hbad, hgs'⟩ | ⟨gs, rfl, hb', hgood, hgs'⟩
  · -- good blocks follow, so that this one is inside the partition
    have hb' : b < s.fd.dev.blocks := by
      refine lt_of_lt_of_le (Nat.lt_add_of_pos_right ?_) (hgs.add_length_le hb)
      refine Nat.pos_of_ne_zero fun hzero => ?_
      rw [hzero, zero_mul] at hsum
      omega
    have hblock := (s.fd.dev.block_le_size_iff b).mpr hb'
    have hturn := plain_erase_bad hpc h.next he hlt (by omega) (by omega) (by omega) hbad
    rw [MtdFd.lseekCur_of_le (by omega)] at hturn
    refine ⟨_, _, hturn, ⟨h.next, congrArg (· + _) hpos, Nat.add_le_add_right hle _,
      b + 1, gs, hnext.symm, hb', hgs', ?_⟩, rfl, rfl⟩
    show room + (s.w + s.fd.dev.erasesize)
      = s.e + s.fd.dev.erasesize + gs.length * s.fd.dev.erasesize
    omega
  · have hturn := plain_erase_good hpc he hlt (by omega) hb' hgood
    rw [hnext] at hturn
    rw [List.length_cons, Nat.succ_mul] at hsum
    refine ⟨_, _, hturn, ⟨h.next, hpos, Nat.le_add_right_of_le hle,
      b + 1, gs, hnext.symm, hb', hgs', ?_⟩, rfl, MtdFd.written_erased ..⟩
    show room + s.w = s.e + s.fd.dev.erasesize + gs.length * s.fd.dev.erasesize
    omega

theorem HasRoom.steps (hpc : s.pc = .erase) (hroom : s.buflen ≤ room) :
    ∃ w e fd, Loop.Steps plain s { s with w := w, e := e, fd := fd }
      ∧ { s with w := w, e := e, fd := fd }.HasRoom room ∧ w + s.buflen ≤ e
      ∧ fd.dev = s.fd.dev ∧ fd.written = s.fd.written := by
  -- what is behind `e` gets less
  induction hn : s.fd.dev.size - s.e using Nat.strongRecOn generalizing s with
  | ind n ih =>
    rcases lt_or_ge s.e (s.w + s.buflen) with hlt | hle
    · have hend := h.add_le_size
      have hE := s.fd.dev.erasesize_pos
      obtain ⟨w, fd, hturn, h', hdev, hwritten⟩ := h.turn hpc hroom hlt
      have hless : fd.dev.size - (s.e + s.fd.dev.erasesize) < n := by
        rw [hdev]
        omega
      obtain ⟨w', e', fd', hsteps, h'', henough, hdev', hwritten'⟩ := ih _ hless h' hpc hroom rfl
      exact ⟨w', e', fd', (Loop.Steps.single hturn).trans hsteps, h'', henough,
        hdev'.trans hdev, hwritten'.trans hwritten⟩
    · exact ⟨s.w, s.e, s.fd, Loop.Steps.refl s, h, hle, rfl, rfl⟩

theorem HasRoom.steps_chunk (hs : s.Intact image alloc d) (hpos : 0 < s.chunk)
    (halloc : s.chunk ≤ alloc) (hroom : s.chunk ≤ room) :
    ∃ s', Loop.Steps plain s s' ∧ s'.HasRoom (room - s.chunk)
      ∧ s'.Intact image alloc d ∧ s'.buflen = 0 ∧ s'.left = s.left.drop s.chunk := by
  obtain ⟨w, e, fd, hsteps, h', henough, hdev, hwritten⟩ := HasRoom.steps
    (s := { s.afterFill with pc := .erase }) ⟨h.next, h.at_w, h.w_le, h.room_eq⟩ rfl hroom
  have hdev' : fd.dev = d := hdev.trans hs.dev
  have hend : room + w ≤ fd.dev.size := h'.add_le_size
  rw [hdev'] at hend
  have hat : fd.pos = w := h'.at_w
  have henough : w + s.chunk ≤ e := henough
  obtain ⟨s', hsteps', hs', hw', he', hnext, hrest⟩ :=
    hs.steps_write hpos halloc hdev' hat hwritten henough (by omega)
  refine ⟨s', (Loop.Steps.single (plain_fill hs.pc hpos.ne')).trans (hsteps.trans hsteps'),
    ⟨hnext.trans h.next, hs'.pos, ?_, ?_⟩, hs', hrest⟩
  · rw [hw', he']
    exact henough
  · obtain ⟨b, gs, hb, hblocks, hgs, hsum⟩ := h'.room_eq
    dsimp only at hb hblocks hgs hsum
    rw [hdev'] at hb hblocks hgs hsum
    rw [hs'.dev, hw', he']
    exact ⟨b, gs, hb, hblocks, hgs, by omega⟩

theorem HasRoom.not_goodEnd (hpc : s.pc = .fill)
    (hroom : room < s.chunk) : ¬ s.GoodEnd image alloc := by
  obtain ⟨b, gs, hb, -, hgs, hsum⟩ := h.room_eq
  have hshort : s.e + gs.length * s.fd.dev.erasesize < s.w + s.chunk := by omega
  have hstuck : Stuck { s.afterFill with pc := .erase } := ⟨rfl, h.next, b, gs, hb, hgs, hshort⟩
  rw [goodEnd_iff_of_steps (Loop.Steps.single (plain_fill hpc (Nat.ne_zero_of_lt hroom)))]
  rintro ⟨s', hends, -⟩
  obtain ⟨s'', hr⟩ := hstuck.undefined hends
  cases hr

theorem HasRoom.goodEnd_iff (hs : s.Intact image alloc d)
    (halloc : s.chunk ≤ alloc) : s.GoodEnd image alloc ↔ s.left.length ≤ room := by
  induction hn : s.left.length using Nat.strongRecOn generalizing s room with
  | ind n ih =>
    by_cases hleft : s.left = []
    · refine iff_of_true (hs.goodEnd_of_left_eq_nil hleft) ?_
      rw [← hn, hleft]
      exact Nat.zero_le _
    have hb := hs.buflen_afterFill_pos hleft
    by_cases hroom : s.chunk ≤ room
    · obtain ⟨s', hsteps, h', hs', hzero, hrest⟩ := h.steps_chunk hs hb.1 halloc hroom
      have hlen : s'.left.length = n - s.chunk := by
        rw [hrest, List.length_drop, hn]
      have hmin := hs.min_left_le
      have hnext : s'.chunk ≤ alloc := by
        rw [hs'.buflen_afterFill, hzero, firstChunk, if_neg (not_le.mpr d.erasesize_pos)]
        omega
      rw [goodEnd_iff_of_steps hsteps, ih _ (by omega) h' hs' hnext hlen]
      omega
    · exact iff_of_false (h.not_goodEnd hs.pc (not_le.mp hroom)) (by omega)

omit h

theorem Between.hasRoom_last (h : s.Between image alloc d []) :
    s.HasRoom (d.goodBlocks.length * d.erasesize - s.w) := by
  obtain ⟨k, hk, he, hle⟩ := h.erased
  obtain ⟨gs, hgs, hlen⟩ := goodFrom_of_le_firstBad hk
  refine ⟨List.map_eq_nil_iff.mp h.next, h.pos, hle, k, gs, ?_⟩
  rw [h.dev]
  refine ⟨he, hk.trans d.firstBad_le, hgs, ?_⟩
  rw [← hlen, add_mul, ← he]
  omega

theorem Between.goodEnd_iff_handsOver (h : s.Between image alloc d ds) (hw : s.w = 0)
    (hint : alloc ≤ intMax) (hwrites : ∀ d' ∈ ds, d'.WritesComplete) :
    s.GoodEnd image alloc ↔ HandsOver alloc s.buflen s.left.length (d :: ds) := by
  induction ds generalizing d s with
  | nil =>
    by_cases halloc : s.chunk ≤ alloc
    · rw [h.hasRoom_last.goodEnd_iff h.toIntact halloc, HandsOver, ← h.buflen_afterFill,
        and_iff_right halloc, chunkCount_le_iff d.erasesize_pos, hw, Nat.sub_zero]
    · refine iff_of_false (h.not_goodEnd_of_alloc_lt (not_le.mp halloc)) fun hh => halloc ?_
      rw [HandsOver, ← h.buflen_afterFill] at hh
      exact hh.1
  | cons d' ds ih =>
    have hE := d.erasesize_pos
    have hwr := hwrites d' (List.mem_cons_self ..)
    have hrest : ∀ {s' : MtdWrite}, s'.Between image alloc d' ds → s'.w = 0 → _ :=
      fun h' hw' => ih h' hw' fun d₁ hd₁ => hwrites d₁ (List.mem_cons_of_mem _ hd₁)
    have hlen := length_left s
    by_cases halloc : s.chunk ≤ alloc
    swap
    · refine iff_of_false (h.not_goodEnd_of_alloc_lt (not_le.mp halloc)) fun hh => halloc ?_
      rw [HandsOver, ← h.buflen_afterFill] at hh
      exact hh.1
    by_cases hfit : s.left.length ≤ d.room
    · refine iff_of_true (h.goodEnd_of_fits hw halloc hfit) ?_
      rw [HandsOver, ← h.buflen_afterFill]
      exact ⟨halloc, .inl hfit⟩
    have hpos := (h.buflen_afterFill_pos (List.ne_nil_of_length_pos (by omega))).1
    by_cases hroom : s.chunk ≤ d.room
    · -- the first chunk is written, and whole blocks after it
      have hf : d.firstBad ≠ 0 := by
        rintro hf
        rw [MtdDevice.room, hf, zero_mul] at hroom
        omega
      obtain ⟨s', hiff, hs'⟩ := h.goodEnd_of_chunk hw hwr halloc (not_le.mp hfit) hpos hroom
      rw [hiff, h.handsOver_iff_of_room halloc hfit hf hroom]
      unfold GoesOn at hs'
      split_ifs at hs' with hc
      · obtain ⟨h', hw₀, hleft, hbuf⟩ := hs'
        rw [hrest h' hw₀, hbuf, hleft, and_iff_right hc]
      · exact iff_of_false hs' fun hh => hc hh.1
    · -- the first chunk already meets the failing block
      obtain ⟨s', hsteps, hs'⟩ := h.steps_fail hwr hpos halloc (by omega) (by omega)
      rw [goodEnd_iff_of_steps hsteps, h.handsOver_iff_of_not_room halloc hfit hroom]
      rcases hs' with ⟨hw', h', hw₀, hbuf, hleft⟩ | ⟨hlt, hspoiled⟩
      · have hf : d.firstBad = 0 := by
          rw [hw] at hw'
          exact (mul_eq_zero.mp hw'.symm).resolve_right hE.ne'
        rw [hrest h' hw₀, hbuf, hleft, and_iff_right hf]
      · refine iff_of_false hspoiled.not_goodEnd fun hh => ?_
        rw [MtdDevice.room, hh.1, zero_mul] at hlt
        exact Nat.not_lt_zero _ hlt

end MtdWrite

/-! ## The result -/

theorem mtdCheck_some {a : ℕ} {ts : List MtdTarget} {r : Option ℕ}
    (h : mtdCheck (some a) ts = some r) :
    r = some a ∧ ts.map MtdTarget.dev = (ts.filterMap MtdTarget.dev).map some := by
  induction ts with
  | nil => exact ⟨(Option.some.inj h).symm, rfl⟩
  | cons t ts ih =>
    rw [mtdCheck] at h
    cases ht : t.dev with
    | none => rw [ht] at h; cases h
    | some d =>
      rw [ht] at h
      obtain ⟨hr, hts⟩ := ih h
      refine ⟨hr, ?_⟩
      rw [List.filterMap_cons_some ht, List.map_cons, List.map_cons, ht, hts]

/-- **When writing over several partitions loses nothing**: exactly if the
lengths hand over, on chips that take what is written. -/
theorem mtdWrite_loses_nothing_iff (t : MtdTarget) (d : MtdDevice) (ht : t.dev = some d)
    (ts : List MtdTarget) (alloc : ℕ) (hcheck : mtdCheck none (t :: ts) = some (some alloc))
    (hwrites : ∀ d' ∈ (t :: ts).filterMap MtdTarget.dev, d'.WritesComplete) (buf : Bytes)
    (buflen : ℕ) (hlen : buflen ≤ alloc) (reads : List ReadResult) (hreads : Faultless reads) :
    LosesNothing alloc d ts buf buflen reads
      ↔ HandsOver alloc buflen (buflen + (readContent reads).length)
        ((t :: ts).filterMap MtdTarget.dev) := by
  rw [mtdCheck, ht] at hcheck
  obtain ⟨halloc, hts⟩ := mtdCheck_some hcheck
  rw [List.filterMap_cons_some ht] at hwrites ⊢
  have hs : (MtdWrite.start d ts buf buflen reads).Between
      (buf.slice 0 buflen ++ readContent reads) alloc d (ts.filterMap MtdTarget.dev) :=
    ⟨⟨hwrites d (List.mem_cons_self ..), rfl, rfl, rfl, rfl, hreads, hlen, rfl⟩,
      ⟨0, Nat.zero_le _, (Nat.zero_mul _).symm, le_rfl⟩, hts⟩
  have hint : alloc ≤ intMax := (Option.some.inj halloc).trans_le d.erasesize_le
  have hiff := hs.goodEnd_iff_handsOver rfl hint
    fun d' hd' => hwrites d' (List.mem_cons_of_mem _ hd')
  rwa [MtdWrite.length_left] at hiff

def oneBlock : MtdTarget :=
  ⟨"rootfs", some (.reliableFour 1 (by decide) (fun _ => false))⟩

def fourBlocks : MtdTarget :=
  ⟨"rootfs_data", some (.reliableFour 4 (by decide) (fun _ => false))⟩

def deadBlock : MtdTarget :=
  ⟨"kernel", some (.reliable 8 1 (by decide) (by decide) (by decide) (fun _ => true))⟩

def MtdTarget.opens (t : MtdTarget) (h : t.dev.isSome) : MtdDevice := t.dev.get h

/-- Six bytes on a partition of one block and, for the rest, one of four. -/
theorem mtdWrite_loses_nothing_two :
    LosesNothing 4 (oneBlock.opens rfl) [fourBlocks] (fun _ => 0) 0 sixBytes := by
  refine (mtdWrite_loses_nothing_iff oneBlock (oneBlock.opens rfl) rfl [fourBlocks] 4 rfl ?_
    (fun _ => 0) 0 (by decide) sixBytes (by decide)).mpr ?_
  · intro d' hd'
    simp only [oneBlock, fourBlocks, List.filterMap_cons, List.filterMap_nil, List.mem_cons,
      List.not_mem_nil, or_false] at hd'
    obtain rfl | rfl := hd'
    · exact MtdDevice.reliable_writesComplete _ _ _ _ _ _
    · exact MtdDevice.reliable_writesComplete _ _ _ _ _ _
  · exact ⟨by decide, .inr (.inr ⟨by decide, by decide, by decide, by decide, by decide,
      by decide⟩)⟩

def tenBytes : List ReadResult := [.data [1, 2, 3, 4, 5, 6, 7, 8, 9, 10]]

/-- The first partition fails at once, the second after four of the eight
bytes in the buffer: they are written, but the third partition gets eight
bytes more from behind them, four of which are past the end of the
buffer. -/
theorem mtdWrite_writes_past_buffer : (∃ s, Loop.Ends MtdWrite.plain
        (.start (deadBlock.opens rfl) [oneBlock, fourBlocks] (fun _ => 0) 0 tenBytes) (.returned s)
      ∧ s.written = [1, 2, 3, 4, 5, 6, 7, 8, 0, 0, 0, 0, 9, 10])
    ∧ ¬ LosesNothing 8 (deadBlock.opens rfl) [oneBlock, fourBlocks] (fun _ => 0) 0 tenBytes := by
  have hends : Loop.Ends MtdWrite.plain
      (.start (deadBlock.opens rfl) [oneBlock, fourBlocks] (fun _ => 0) 0 tenBytes)
      (.returned _) := ⟨15, rfl⟩
  refine ⟨⟨_, hends, rfl⟩, ?_⟩
  rintro ⟨s, hends', hwritten, -⟩
  cases Loop.ends_unique hends hends'
  exact absurd hwritten (by decide)
