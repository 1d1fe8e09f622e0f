import RouterFirmware.MtdBadBlocks

/-!
# What `mtd write` does with a failed read

The filling loop of `mtd_write` is left in the same way when the buffer is
full, at the end of the file and after an error, and the outer loop then looks
at the length of the buffer alone.
-/

def hardErrors (reads : List ReadResult) : ℕ := reads.count (.fail .other)

def upToEof : List ReadResult → List UInt8
  | [] => []
  | .fail _ :: reads => upToEof reads
  | .data bytes :: reads => if bytes = [] then [] else bytes ++ upToEof reads

def NoHardError (erasesize : ℕ) : ℕ → List ReadResult → Prop
  | _, [] => True
  | n, .fail errno :: reads => errno ≠ .other ∧ NoHardError erasesize n reads
  | n, .data bytes :: reads =>
    if bytes = [] then n = 0 ∨ NoHardError erasesize 0 reads
    else NoHardError erasesize ((n + bytes.length) % erasesize) reads

def handedOver (erasesize : ℕ) : ℕ → List ReadResult → ℕ
  | n, [] => n
  | n, .fail errno :: reads =>
    if errno ≠ .other then handedOver erasesize n reads
    else if n = 0 then 0 else n + handedOver erasesize 0 reads
  | n, .data bytes :: reads =>
    if bytes = [] then if n = 0 then 0 else n + handedOver erasesize 0 reads
    else (n + bytes.length) / erasesize * erasesize
      + handedOver erasesize ((n + bytes.length) % erasesize) reads

def ReportsErrors (erasesize : ℕ) (buf : Bytes) (buflen : ℕ) (reads : List ReadResult) : Prop :=
  ∀ d : MtdDevice, d.erasesize = erasesize → ∀ s,
    Loop.Ends MtdWrite.plain (.start d [] buf buflen reads) (.returned s) →
      buf.slice 0 buflen ++ upToEof reads <+: s.written ∧ hardErrors s.reads = hardErrors reads

/-! ## One filling -/

namespace Fills

open Nat List

variable {erasesize n : ℕ} {reads rest : List ReadResult} {got : List UInt8}
  (h : Fills erasesize n reads got rest)

include h

theorem hardErrors_le : hardErrors rest ≤ hardErrors reads := by
  induction h with
  | full | last => exact le_rfl
  | eof | error => exact count_le_count_cons
  | retry _ _ _ ih | whole _ _ _ _ ih => exact ih.trans count_le_count_cons
  | part => simp [hardErrors]

omit h in
theorem ne_nil_of_part {bytes : List UInt8} (hlen : erasesize - n < bytes.length) :
    bytes ≠ [] ∧ bytes.drop (erasesize - n) ≠ [] := by
  rw [ne_eq, ne_eq, drop_eq_nil_iff]
  exact ⟨ne_nil_of_length_pos (by omega), by omega⟩

theorem noHardError_iff (hpos : 0 < erasesize) (hn : n ≤ erasesize) :
    NoHardError erasesize (n % erasesize) reads
      ↔ hardErrors rest = hardErrors reads
        ∧ (n + got.length = 0 ∨ NoHardError erasesize 0 rest) := by
  induction h with
  | full hfull =>
    obtain rfl := le_antisymm hn hfull
    simp [hpos.ne']
  | last => simp [NoHardError]
  | eof hlt => simp [NoHardError, hardErrors, mod_eq_of_lt hlt]
  | error => simp [NoHardError, hardErrors]
  | retry _ herr _ ih =>
    rw [NoHardError, ih hn]
    simp [hardErrors, herr]
  | whole hlt hne hlen _ ih =>
    rw [NoHardError, if_neg hne, mod_eq_of_lt hlt, ih (by omega), length_append, add_assoc]
    simp [hardErrors]
  | @part n bytes reads hlt hlen =>
    obtain ⟨hne, hdrop⟩ := ne_nil_of_part hlen
    have hmod : (n + bytes.length) % erasesize
        = (0 + (bytes.drop (erasesize - n)).length) % erasesize := by
      rw [length_drop, zero_add, ← add_mod_right (bytes.length - _)]
      congr 1
      omega
    rw [NoHardError, if_neg hne, mod_eq_of_lt hlt, hmod, NoHardError, if_neg hdrop, length_take]
    have hfull : n + min (erasesize - n) bytes.length ≠ 0 := by omega
    exact ⟨fun h => ⟨by simp [hardErrors], .inr h⟩, fun h => h.2.resolve_left hfull⟩

theorem handedOver_eq (hpos : 0 < erasesize) (hn : n ≤ erasesize) :
    n / erasesize * erasesize + handedOver erasesize (n % erasesize) reads
      = n + got.length
        + if n + got.length = 0 then 0 else handedOver erasesize 0 rest := by
  induction h with
  | full hfull =>
    obtain rfl := le_antisymm hn hfull
    simp [hpos.ne', Nat.div_self hpos]
  | @last n =>
    have hmod := div_add_mod' n erasesize
    simp [handedOver, hmod]
  | eof hlt =>
    simp only [handedOver, mod_eq_of_lt hlt, div_eq_of_lt hlt, if_true, length_nil, add_zero]
    split <;> omega
  | error hlt =>
    simp only [handedOver, mod_eq_of_lt hlt, div_eq_of_lt hlt, length_nil,
      add_zero, ne_eq, not_true_eq_false, if_false]
    split <;> omega
  | retry _ herr _ ih =>
    rw [handedOver, if_pos herr]
    exact ih hn
  | whole hlt hne hlen _ ih =>
    rw [handedOver, if_neg hne, mod_eq_of_lt hlt, div_eq_of_lt hlt, zero_mul,
      zero_add, ih (by omega), length_append, ← add_assoc]
  | @part n bytes reads hlt hlen =>
    obtain ⟨hne, hdrop⟩ := ne_nil_of_part hlen
    have hsum : n + bytes.length = bytes.length - (erasesize - n) + erasesize := by omega
    have hfull : n + min (erasesize - n) bytes.length = erasesize := by omega
    rw [handedOver, if_neg hne, mod_eq_of_lt hlt, div_eq_of_lt hlt, handedOver,
      if_neg hdrop, length_take, length_drop, hfull, if_neg hpos.ne', zero_add,
      hsum, add_mod_right, add_div_right _ hpos, succ_mul]
    omega

theorem upToEof_spec : (upToEof reads <+: got ∨ upToEof reads = got ++ upToEof rest)
    ∧ (n + got.length < erasesize → hardErrors rest = hardErrors reads →
      upToEof reads <+: got) := by
  induction h with
  | full hfull => exact ⟨.inr rfl, fun h => absurd h (by simpa using hfull)⟩
  | last => exact ⟨.inr rfl, fun _ _ => prefix_rfl⟩
  | eof => exact ⟨.inl prefix_rfl, fun _ _ => prefix_rfl⟩
  | error => exact ⟨.inr rfl, fun _ h => absurd h (by simp [hardErrors])⟩
  | retry _ herr _ ih =>
    refine ⟨ih.1, fun hlt h => ih.2 hlt ?_⟩
    simpa [hardErrors, herr] using h
  | whole _ hne _ _ ih =>
    rw [upToEof, if_neg hne, append_assoc]
    refine ⟨ih.1.imp (fun h => (prefix_append_right_inj _).mpr h) (congrArg _),
      fun hlt h => (prefix_append_right_inj _).mpr (ih.2 ?_ ?_)⟩
    · rwa [length_append, ← add_assoc] at hlt
    · simpa [hardErrors] using h
  | @part n bytes reads hn hlen =>
    obtain ⟨hne, hdrop⟩ := ne_nil_of_part hlen
    refine ⟨.inr ?_, fun h => absurd h ?_⟩
    · rw [upToEof, if_neg hne, upToEof, if_neg hdrop, ← append_assoc, take_append_drop]
    · rw [length_take]
      omega

end Fills

/-! ## A run on one partition -/

/-- What a run starts from, as far as its reads are concerned. -/
structure ReadTask where
  dev : MtdDevice
  /-- The bytes up to the end of the file. -/
  upTo : List UInt8
  /-- How many of the results are failures. -/
  hard : ℕ
  /-- The run meets no failure. -/
  NoError : Prop
  /-- How many bytes the run hands over. -/
  total : ℕ

namespace MtdWrite

structure Copying (t : ReadTask) (n : ℕ) (s : MtdWrite) : Prop where
  next : s.next = []
  closed : s.closed = []
  offset : s.offset = 0
  dev : s.fd.dev = t.dev
  pos_le : s.fd.pos ≤ t.dev.size
  written_le : s.fd.written.length ≤ s.fd.pos
  hard_le : hardErrors s.reads ≤ t.hard
  upTo : t.upTo <+: s.fd.written ++ s.pending
    ∨ t.upTo = s.fd.written ++ s.pending ++ upToEof s.reads
  noError_iff : t.NoError
    ↔ hardErrors s.reads = t.hard ∧ NoHardError t.dev.erasesize (n % t.dev.erasesize) s.reads
  total_eq : s.fd.written.length + (s.buflen - n)
      + (n / t.dev.erasesize * t.dev.erasesize
        + handedOver t.dev.erasesize (n % t.dev.erasesize) s.reads)
    = t.total

def ReadInv (t : ReadTask) (s : MtdWrite) : Prop :=
  if s.pc = .fill then s.buflen ≤ t.dev.erasesize ∧ s.Copying t s.buflen
  else 0 < s.buflen ∧ s.Copying t 0

variable {t : ReadTask} {s : MtdWrite} (h : s.ReadInv t)

theorem Copying.afterFill (h : s.Copying t s.buflen) (hfull : s.buflen ≤ t.dev.erasesize) :
    hardErrors s.afterFill.reads ≤ t.hard
      ∧ (t.upTo <+: s.fd.written ++ s.afterFill.pending
        ∨ t.upTo = s.fd.written ++ s.afterFill.pending ++ upToEof s.afterFill.reads)
      ∧ (t.NoError ↔ hardErrors s.afterFill.reads = t.hard
        ∧ (s.afterFill.buflen = 0 ∨ NoHardError t.dev.erasesize 0 s.afterFill.reads))
      ∧ s.fd.written.length + s.afterFill.buflen
          + (if s.afterFill.buflen = 0 then 0
            else handedOver t.dev.erasesize 0 s.afterFill.reads)
        = t.total
      ∧ (s.afterFill.buflen = 0 → t.NoError → t.upTo <+: s.fd.written) := by
  obtain ⟨got, hfills, hpending⟩ := s.afterFill_fills
  rw [h.dev] at hfills
  have hpos := t.dev.erasesize_pos
  have hlen : s.afterFill.buflen = s.buflen + got.length := by
    rw [← length_pending, hpending, List.length_append, length_pending]
  have hiff := hfills.noHardError_iff hpos hfull
  have hover := hfills.handedOver_eq hpos hfull
  have hle := hfills.hardErrors_le
  obtain ⟨hupTo, hmet⟩ := hfills.upToEof_spec
  rw [← hlen] at hiff hover hmet
  have htotal := h.total_eq
  refine ⟨hle.trans h.hard_le, ?_, ?_, ?_, fun hzero hno => ?_⟩
  · rw [hpending, ← List.append_assoc]
    rcases h.upTo with hup | hup
    · exact .inl (hup.trans (List.prefix_append _ _))
    · rw [hup]
      refine hupTo.imp (fun hgot => (List.prefix_append_right_inj _).mpr hgot) fun hgot => ?_
      rw [hgot, List.append_assoc, List.append_assoc, List.append_assoc]
  · rw [h.noError_iff, hiff]
    have hhard := h.hard_le
    constructor
    · rintro ⟨h₁, h₂, h₃⟩
      exact ⟨h₂.trans h₁, h₃⟩
    · rintro ⟨h₁, h₃⟩
      exact ⟨by omega, by omega, h₃⟩
  · rw [Nat.sub_self, Nat.add_zero, hover] at htotal
    rw [← htotal, add_assoc]
  · -- nothing was read, so that the end of the file is here
    have hsame : hardErrors s.afterFill.reads = hardErrors s.reads :=
      (hiff.mp (h.noError_iff.mp hno).2).1
    have hgot : got = [] := List.length_eq_zero_iff.mp (by omega)
    have hbuf : s.pending = [] := List.length_eq_zero_iff.mp (by rw [length_pending]; omega)
    have heof : upToEof s.reads = [] := by
      have hpre := hmet (by omega) hsame
      rwa [hgot, List.prefix_nil] at hpre
    rcases h.upTo with hup | hup
    · rwa [hbuf, List.append_nil] at hup
    · rw [hup, hbuf, heof, List.append_nil, List.append_nil]

def ReadPost (t : ReadTask) : MtdResult → Prop
  | .returned s => (t.NoError ↔ hardErrors s.reads = t.hard)
    ∧ s.written.length = t.total ∧ t.total ≤ t.dev.size ∧ (t.NoError → t.upTo <+: s.written)
  | _ => True

include h

theorem ReadInv.turn_fill (hpc : s.pc = .fill) :
    (∃ s', plain s = .again s' ∧ s'.ReadInv t) ∨ ∃ r, plain s = .leave r ∧ ReadPost t r := by
  rw [ReadInv, if_pos hpc] at h
  obtain ⟨hlt, h⟩ := h
  obtain ⟨hhard, hupTo, hno, htotal, hend⟩ := h.afterFill hlt
  have hwritten : s.afterFill.written = s.fd.written := by
    simp [written, devices, show s.afterFill.closed = [] from h.closed,
      show s.afterFill.fd = s.fd from rfl]
  by_cases hzero : s.afterFill.buflen = 0
  · refine .inr ⟨_, plain_fill_done hpc hzero, ?_⟩
    rw [hzero, if_pos rfl, Nat.add_zero] at htotal
    have hle := h.written_le.trans h.pos_le
    refine ⟨?_, ?_, ?_, ?_⟩
    · simpa [hzero] using hno
    · rw [hwritten, htotal]
    · rwa [htotal] at hle
    · rw [hwritten]
      exact hend hzero
  · refine .inl ⟨_, plain_fill hpc hzero, ?_⟩
    rw [ReadInv, if_neg (show MtdPc.erase ≠ .fill by decide)]
    refine ⟨Nat.pos_of_ne_zero hzero, h.next, h.closed, h.offset, h.dev, h.pos_le,
      h.written_le, hhard, hupTo, ?_, ?_⟩
    · rw [hno, Nat.zero_mod]
      simp [hzero]
    · rw [if_neg hzero] at htotal
      rw [Nat.zero_div, Nat.zero_mul, Nat.zero_add, Nat.zero_mod]
      exact htotal

theorem ReadInv.turn_erase (hpc : s.pc = .erase) :
    (∃ s', plain s = .again s' ∧ s'.ReadInv t) ∨ ∃ r, plain s = .leave r ∧ ReadPost t r := by
  rw [ReadInv, if_neg (by rw [hpc]; decide)] at h
  obtain ⟨hlen, h⟩ := h
  rcases plain_erase_cases hpc with
    ⟨s', hs'⟩ | ⟨pc, fd, w, e, hs', hne, hdev, hwritten, hle, hend⟩ | ⟨t', ts, hnext, -⟩
  · exact .inr ⟨_, hs', trivial⟩
  · refine .inl ⟨_, hs', ?_⟩
    rw [ReadInv, if_neg hne]
    have hup := h.upTo
    have htotal := h.total_eq
    have hwr := h.written_le
    rw [← hwritten] at hup htotal hwr
    rw [h.dev] at hend
    exact ⟨hlen, h.next, h.closed, h.offset, hdev.trans h.dev, hend h.pos_le,
      hwr.trans hle, h.hard_le, hup, h.noError_iff, htotal⟩
  · rw [h.next] at hnext
    cases hnext

theorem ReadInv.turn_write (hpc : s.pc = .write) :
    (∃ s', plain s = .again s' ∧ s'.ReadInv t) ∨ ∃ r, plain s = .leave r ∧ ReadPost t r := by
  rw [ReadInv, if_neg (by rw [hpc]; decide)] at h
  obtain ⟨hlen, h⟩ := h
  rcases plain_write_cases hpc with ⟨msg, s', hs'⟩ | ⟨hs', hend⟩
  · exact .inr ⟨_, hs', trivial⟩
  · have hslice : s.buf.slice s.offset s.buflen = s.pending := by rw [h.offset]; rfl
    rw [hslice] at hs'
    refine .inl ⟨_, hs', ?_⟩
    rw [ReadInv, if_pos rfl]
    have hpos : (s.fd.wrote s.pending).pos = s.fd.pos + s.buflen := by
      simp [MtdFd.wrote]
    refine ⟨Nat.zero_le _, h.next, h.closed, rfl, h.dev, ?_, ?_, h.hard_le, ?_, h.noError_iff, ?_⟩
    · show (s.fd.wrote s.pending).pos ≤ _
      rw [hpos, ← h.dev]
      exact hend
    · show (s.fd.wrote s.pending).written.length ≤ (s.fd.wrote s.pending).pos
      rw [hpos, MtdFd.written_wrote, List.length_append, length_pending]
      exact Nat.add_le_add_right h.written_le _
    · have hup := h.upTo
      rw [← MtdFd.written_wrote] at hup
      simpa [pending] using hup
    · have htotal := h.total_eq
      show (s.fd.wrote s.pending).written.length + (0 - 0) + (_ + _) = _
      rw [MtdFd.written_wrote, List.length_append, length_pending]
      exact htotal

theorem ReadInv.turn :
    (∃ s', plain s = .again s' ∧ s'.ReadInv t) ∨ ∃ r, plain s = .leave r ∧ ReadPost t r := by
  cases hpc : s.pc with
  | fill => exact h.turn_fill hpc
  | erase => exact h.turn_erase hpc
  | write => exact h.turn_write hpc

theorem ReadInv.of_again {s' : MtdWrite} (hs : plain s = .again s') : s'.ReadInv t := by
  rcases h.turn with ⟨s₁, h₁, hinv⟩ | ⟨r, h₁, -⟩ <;> rw [hs] at h₁ <;> cases h₁
  exact hinv

theorem ReadInv.of_leave {r : MtdResult} (hs : plain s = .leave r) : ReadPost t r := by
  rcases h.turn with ⟨s₁, h₁, -⟩ | ⟨r, h₁, hpost⟩ <;> rw [hs] at h₁ <;> cases h₁
  exact hpost

theorem ReadInv.post {r : MtdResult} (hends : Loop.Ends plain s r) : ReadPost t r :=
  Loop.post_of_ends (ReadInv t) (ReadPost t) (fun _ _ h hs => h.of_again hs)
    (fun _ _ h hs => h.of_leave hs) h hends

omit h

/-! ## A partition with room -/

/-- The invariant of a run on a partition without bad blocks. -/
structure Roomy (t : ReadTask) (s : MtdWrite) : Prop where
  inv : s.ReadInv t
  pos : s.fd.pos = s.w
  written : s.fd.written.length = s.w
  erased : ∃ b ≤ t.dev.blocks, s.e = b * t.dev.erasesize
  enough : s.pc = .write → s.w + s.buflen ≤ s.e

def turnsLeft (t : ReadTask) (s : MtdWrite) : ℕ :=
  3 * (t.dev.size - s.w) + (t.dev.size - s.e)
    + match s.pc with
      | .fill => 2
      | .erase => 1
      | .write => 0

theorem ReadInv.w_add_buflen_le (h : s.ReadInv t) (hpc : s.pc ≠ .fill) :
    0 < s.buflen ∧ s.fd.written.length + s.buflen ≤ t.total := by
  rw [ReadInv, if_neg hpc] at h
  have htotal := h.2.total_eq
  exact ⟨h.1, by omega⟩

theorem Roomy.turn (hw : t.dev.WritesComplete) (hgood : ∀ b, t.dev.bad b = false)
    (hroom : t.total ≤ t.dev.size) (h : s.Roomy t) :
    (∃ r, plain s = .leave r ∧ ∃ s', r = .returned s')
      ∨ ∃ s', plain s = .again s' ∧ s'.Roomy t ∧ s'.turnsLeft t < s.turnsLeft t := by
  obtain ⟨hinv, hpos, hwritten, ⟨b, hb, he⟩, henough⟩ := h
  have hsize := t.dev.size_le
  cases hpc : s.pc with
  | fill =>
    by_cases hzero : s.afterFill.buflen = 0
    · exact .inl ⟨_, plain_fill_done hpc hzero, _, rfl⟩
    · have hs := plain_fill hpc hzero
      refine .inr ⟨_, hs, ⟨hinv.of_again hs, hpos, hwritten, ⟨b, hb, he⟩, by simp⟩, ?_⟩
      simp [turnsLeft, hpc, afterFill]
  | erase =>
    obtain ⟨hlen, hle⟩ := hinv.w_add_buflen_le (by rw [hpc]; decide)
    have hdev : s.fd.dev = t.dev := by
      rw [ReadInv, if_neg (by rw [hpc]; decide)] at hinv
      exact hinv.2.dev
    by_cases hlt : s.e < s.w + s.buflen
    · have hb' : b < t.dev.blocks := by
        rw [← Nat.mul_lt_mul_right t.dev.erasesize_pos, t.dev.blocks_mul, ← he]
        omega
      have hs := plain_erase_good hpc (by rw [hdev]; exact he) hlt (by omega)
        (by rw [hdev]; exact hb') (by rw [hdev]; exact hgood b)
      have hend := (t.dev.block_le_size_iff b).mpr hb'
      refine .inr ⟨_, hs, ⟨hinv.of_again hs, hpos, ?_, ⟨b + 1, hb', ?_⟩, by simp [hpc]⟩, ?_⟩
      · simpa using hwritten
      · rw [hdev]
      · have hposE := t.dev.erasesize_pos
        simp only [turnsLeft, hpc, hdev, Nat.succ_mul]
        omega
    · have hs := plain_erase_done hpc (by omega) (by omega)
      refine .inr ⟨_, hs, ⟨hinv.of_again hs, hpos, hwritten, ⟨b, hb, he⟩, fun _ => ?_⟩, ?_⟩
      · exact Nat.le_of_not_lt hlt
      · simp [turnsLeft, hpc]
  | write =>
    obtain ⟨hlen, hle⟩ := hinv.w_add_buflen_le (by rw [hpc]; decide)
    have hcopy : s.Copying t 0 := by
      rw [ReadInv, if_neg (by rw [hpc]; decide)] at hinv
      exact hinv.2
    have hs := plain_write hpc hcopy.offset (by rw [hcopy.dev]; exact hw _ _ hlen (by omega))
    refine .inr ⟨_, hs, ⟨hinv.of_again hs, ?_, ?_, ⟨b, hb, he⟩, by simp⟩, ?_⟩
    · simp [MtdFd.wrote, hpos]
    · simp [hwritten]
    · simp only [turnsLeft, hpc]
      omega

end MtdWrite

/-! ## The result -/

def readTask (d : MtdDevice) (buf : Bytes) (buflen : ℕ) (reads : List ReadResult) : ReadTask where
  dev := d
  upTo := buf.slice 0 buflen ++ upToEof reads
  hard := hardErrors reads
  NoError := NoHardError d.erasesize (buflen % d.erasesize) reads
  total := buflen / d.erasesize * d.erasesize + handedOver d.erasesize (buflen % d.erasesize) reads

theorem MtdWrite.readInv_start (d : MtdDevice) (buf : Bytes) {buflen : ℕ}
    (hfull : buflen ≤ d.erasesize) (reads : List ReadResult) :
    (start d [] buf buflen reads).ReadInv (readTask d buf buflen reads) := by
  rw [ReadInv, if_pos (show (start d [] buf buflen reads).pc = .fill from rfl)]
  refine ⟨hfull, rfl, rfl, rfl, rfl, Nat.zero_le _, Nat.zero_le _, le_rfl, .inr rfl, ?_, ?_⟩
  · exact ⟨fun h => ⟨rfl, h⟩, fun h => h.2⟩
  · show 0 + (buflen - buflen) + _ = _
    rw [Nat.sub_self, Nat.zero_add]
    rfl

theorem MtdWrite.returns_of_room {d : MtdDevice} (hw : d.WritesComplete)
    (hgood : ∀ b, d.bad b = false) (buf : Bytes) {buflen : ℕ}
    (hfull : buflen ≤ d.erasesize) (reads : List ReadResult)
    (hroom : (readTask d buf buflen reads).total ≤ d.size) :
    ∃ s, Loop.Ends plain (start d [] buf buflen reads) (.returned s) := by
  have hs : (start d [] buf buflen reads).Roomy (readTask d buf buflen reads) :=
    ⟨readInv_start d buf hfull reads, rfl, rfl, ⟨0, Nat.zero_le _, (Nat.zero_mul _).symm⟩,
    fun h => by cases h⟩
  have hturn := fun (s : MtdWrite) (h : s.Roomy (readTask d buf buflen reads)) =>
    h.turn hw hgood hroom
  obtain ⟨r, hends, s, rfl⟩ := Loop.ends_of_variant (Roomy _)
    (fun r : MtdResult => ∃ s, r = .returned s) (turnsLeft _) hturn hs
  exact ⟨s, hends⟩

/-- **When `mtd_write` reports a failed read**: exactly if none of the reads
it makes fails, or there is more to hand over than a partition can hold. -/
theorem mtdWrite_reports_errors_iff (erasesize : ℕ) (hpos : 0 < erasesize)
    (hle : erasesize ≤ intMax) (buf : Bytes) (buflen : ℕ) (hfull : buflen ≤ erasesize)
    (reads : List ReadResult) : ReportsErrors erasesize buf buflen reads
    ↔ NoHardError erasesize (buflen % erasesize) reads
      ∨ intMax < chunkCount erasesize (buflen / erasesize * erasesize
        + handedOver erasesize (buflen % erasesize) reads) * erasesize := by
  generalize htotal : buflen / erasesize * erasesize
    + handedOver erasesize (buflen % erasesize) reads = total
  have hchunks : total ≤ chunkCount erasesize total * erasesize :=
    (chunkCount_le_iff hpos _ _).mp le_rfl
  constructor
  · intro h
    by_contra hnot
    obtain ⟨hno, hfits⟩ := not_or.mp hnot
    -- a partition with just the blocks that are needed
    let d := MtdDevice.reliable erasesize (chunkCount erasesize total) hpos hle (not_lt.mp hfits)
      (fun _ => false)
    obtain ⟨s, hends⟩ := MtdWrite.returns_of_room (d := d)
      (MtdDevice.reliable_writesComplete _ _ _ _ _ _) (fun _ => rfl) buf hfull reads
      (htotal.trans_le hchunks)
    have hpost := (MtdWrite.readInv_start d buf hfull reads).post hends
    exact hno (hpost.1.mpr (h d rfl s hends).2)
  · rintro h d rfl s hends
    obtain ⟨hiff, -, hsize, hupTo⟩ := (MtdWrite.readInv_start d buf hfull reads).post hends
    rcases h with hno | hbig
    · exact ⟨hupTo hno, hiff.mp hno⟩
    · have hblocks : chunkCount d.erasesize total ≤ d.blocks := by
        rw [chunkCount_le_iff hpos, d.blocks_mul, ← htotal]
        exact hsize
      have hmul := Nat.mul_le_mul_right d.erasesize hblocks
      rw [d.blocks_mul] at hmul
      exact absurd (hmul.trans d.size_le) (not_le.mpr hbig)

/-- Two reads, one of them interrupted: nothing fails. -/
theorem mtdWrite_reports_errors_sixBytes : ReportsErrors 4 (fun _ => 0) 0 sixBytes :=
  (mtdWrite_reports_errors_iff 4 (by decide) (by decide) (fun _ => 0) 0 (by decide) sixBytes).mpr
    (.inl ⟨by decide, trivial⟩)

def failedRead : List ReadResult := [.data [1, 2, 3, 4], .fail .other, .data [5, 6, 7, 8]]

/-- `mtd_write` returns 0 after the first half, although the read after it
failed. -/
theorem mtdWrite_ignores_failed_read :
    (∃ s, Loop.Ends MtdWrite.plain (.start badSecond [] (fun _ => 0) 0 failedRead) (.returned s)
      ∧ s.written = [1, 2, 3, 4] ∧ upToEof failedRead = [1, 2, 3, 4, 5, 6, 7, 8]
      ∧ hardErrors s.reads ≠ hardErrors failedRead)
    ∧ ¬ ReportsErrors 4 (fun _ => 0) 0 failedRead := by
  have hends : Loop.Ends MtdWrite.plain (.start badSecond [] (fun _ => 0) 0 failedRead)
      (.returned _) := ⟨5, rfl⟩
  have hhard : hardErrors [.data [5, 6, 7, 8]] ≠ hardErrors failedRead := by decide
  refine ⟨⟨_, hends, rfl, rfl, hhard⟩, fun h => hhard (h badSecond rfl _ hends).2⟩
