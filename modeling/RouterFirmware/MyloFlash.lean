import RouterFirmware.MyloImage

/-!
# MyLoader images inside the flash

`mkmylofw` compares the end of every block and partition with the size of the
flash in 32 bits, and the file of a block with its length before the header
and the padding are added.
-/

namespace Mylo

open Tool Fallible Writing UInt32

def FwBlock.HasRoom (host : Host) (s : State) (b : FwBlock) : Prop :=
  ∀ name content, b.name = some name → host.file name = some content →
    content.length + (if b.haveHdr then 8 else 0)
      ≤ (if b.blocklen = 0 then s.flashSize - b.addr else b.blocklen).toNat / 4 * 4

section Flash

variable {host : Host} {s : State} {b b' : FwBlock} (h : processFile host s b = .ok b')

theorem not_lt_add_iff {a l : UInt32} (h : ¬ s.flashSize < a + l) :
    a.toNat + l.toNat ≤ s.flashSize.toNat ↔ a.toNat + l.toNat < 2 ^ 32 := by
  have hf := s.flashSize.toNat_lt
  rw [lt_iff_toNat_lt, UInt32.toNat_add] at h
  omega

include h

theorem processFile_within : b'.addr.toNat + b'.blocklen.toNat ≤ s.flashSize.toNat
    ↔ b.addr.toNat + b.blocklen.toNat < 2 ^ 32 := by
  unfold processFile at h
  split at h
  · cases h
  next hsum =>
  split at h
  · cases h
    exact not_lt_add_iff hsum
  · simp only [throw_bind, bind_ok, unless_ok, pure_ok, orFail_ok] at h
    obtain ⟨content, -, -, rfl⟩ := h
    by_cases hzero : b.blocklen = 0
    · have ha := b.addr.toNat_lt
      rw [hzero, UInt32.add_zero, lt_iff_toNat_lt] at hsum
      simp only [hzero, if_true, UInt32.toNat_zero, Nat.add_zero]
      rw [UInt32.toNat_sub_of_le _ _ (le_iff_toNat_le.mpr (Nat.le_of_not_lt hsum))]
      omega
    · simp only [hzero, if_false]
      exact not_lt_add_iff hsum

theorem processFile_room {data : List UInt8} (hdata : blockData host b' = some data) :
    data.length ≤ b'.blocklen.toNat ↔ b.HasRoom host s := by
  unfold processFile at h
  split at h
  · cases h
  split at h
  case h_1 hname =>
    cases h
    simp only [blockData, hname, Option.some.injEq] at hdata
    subst hdata
    exact iff_of_true (Nat.zero_le _) fun name content hn => by simp [hname] at hn
  case h_2 name hname =>
    simp only [throw_bind, bind_ok, unless_ok, pure_ok, orFail_ok] at h
    obtain ⟨content, hfile, hlen, hb'⟩ := h
    have hlen := lt_of_le_of_lt (Nat.le_of_not_lt hlen) (toNat_lt _)
    have hlength := (length_blockData (b := b') (by rw [← hb', hname]) hfile hlen (by rw [← hb'])
      hdata).1
    rw [hlength, ← hb']
    refine Iff.trans (b := content.length + (if b.haveHdr then 8 else 0)
      ≤ (if b.blocklen = 0 then s.flashSize - b.addr else b.blocklen).toNat / 4 * 4) ?_ ?_
    · dsimp only
      omega
    · refine ⟨fun hroom name' content' hn hf => ?_, fun hroom => hroom name content hname hfile⟩
      cases hname.symm.trans hn
      cases hfile.symm.trans hf
      exact hroom

omit h

/-- **Everything is inside the flash exactly if no sum of an address and a length
wraps, and every file has room with its header and its padding.** -/
theorem within_flash_iff {s₀ : State} {opts : List Opt} {board : Board}
    (hopts : opts.foldlM (parseOpt host) .start = .ok s₀)
    (hacc : accept host opts = .ok (board, s)) :
    ((∀ b ∈ s.blocks, b.addr.toNat + b.blocklen.toNat ≤ s.flashSize.toNat)
        ∧ (∀ p ∈ s.parts, p.addr.toNat + p.size.toNat ≤ s.flashSize.toNat)
        ∧ ∀ b ∈ s.blocks, ∃ data, b.Writes host data ∧ blockData host b = some data
          ∧ data.length ≤ b.blocklen.toNat)
      ↔ (∀ b ∈ s₀.blocks, b.addr.toNat + b.blocklen.toNat < 2 ^ 32)
        ∧ (∀ p ∈ s₀.parts, p.addr.toNat + p.size.toNat < 2 ^ 32)
        ∧ ∀ b ∈ s₀.blocks, b.HasRoom host s₀ := by
  have hsome : ∀ b ∈ s.blocks, ∃ data, blockData host b = some data := fun b hb =>
    blockData_isSome (accept_blocks hacc b hb)
  simp only [accept, hopts, throw_bind, bind_ok, unless_ok, pure_ok] at hacc
  obtain ⟨_, hs, _, -, -, blocks, hblocks, _, hparts, heq⟩ := hacc
  cases hs
  cases heq
  have hpart : ∀ p ∈ s₀.parts, ¬ s₀.flashSize < p.addr + p.size := by
    intro p hp hlt
    have hok := forM_ok hparts hp
    simp [processPartition, hlt] at hok
  constructor
  · rintro ⟨hb, hp, hd⟩
    refine ⟨fun b hb₀ => ?_, fun p hp₀ => (not_lt_add_iff (hpart p hp₀)).mp (hp p hp₀),
      fun b hb₀ => ?_⟩
    · obtain ⟨b', hb', hfile⟩ := mapM_ok_left hblocks hb₀
      exact (processFile_within hfile).mp (hb b' hb')
    · obtain ⟨b', hb', hfile⟩ := mapM_ok_left hblocks hb₀
      obtain ⟨data, -, hdata, hlen⟩ := hd b' hb'
      exact (processFile_room hfile hdata).mp hlen
  · rintro ⟨hb, hp, hd⟩
    refine ⟨fun b' hb' => ?_, fun p hp₀ => (not_lt_add_iff (hpart p hp₀)).mpr (hp p hp₀),
      fun b' hb' => ?_⟩
    · obtain ⟨b, hb₀, hfile⟩ := mapM_ok hblocks hb'
      exact (processFile_within hfile).mpr (hb b hb₀)
    · obtain ⟨b, hb₀, hfile⟩ := mapM_ok hblocks hb'
      obtain ⟨data, hdata⟩ := hsome b' hb'
      exact ⟨data, FwBlock.writes_of_blockData hdata, hdata,
        (processFile_room hfile hdata).mpr (hd b hb₀)⟩

end Flash

def onePartition : List Opt :=
  [.B (ascii ['W', 'P', '5', '4', 'G']),
    .s (ascii ['4', '2', '9', '4', '9', '6', '7', '2', '9', '5']),
    .p (ascii ['0', ':', '4', '2', '9', '4', '9', '6', '7', '2', '9', '5', ':', 'h', ':', '0', ':',
      'k', ':', 'f'])]

/-- A partition that fills the flash and its block are inside, with five bytes,
the header and the padding. -/
theorem within_flash_onePartition :
    ∃ board s, accept (oneFile [1, 2, 3, 4, 5]) onePartition = .ok (board, s)
      ∧ s.blocks.length = 1 ∧ s.parts.length = 1
      ∧ (∀ b ∈ s.blocks, b.addr.toNat + b.blocklen.toNat ≤ s.flashSize.toNat)
      ∧ (∀ p ∈ s.parts, p.addr.toNat + p.size.toNat ≤ s.flashSize.toNat)
      ∧ ∀ b ∈ s.blocks, ∃ data, b.Writes (oneFile [1, 2, 3, 4, 5]) data
        ∧ blockData (oneFile [1, 2, 3, 4, 5]) b = some data ∧ data.length ≤ b.blocklen.toNat := by
  have hacc : accept (oneFile [1, 2, 3, 4, 5]) onePartition = .ok (_, _) := rfl
  refine ⟨_, _, hacc, rfl, rfl, (within_flash_iff rfl hacc).mpr ⟨?_, ?_, ?_⟩⟩
  · intro b hb
    rw [List.mem_singleton.mp hb]
    decide
  · intro p hp
    rw [List.mem_singleton.mp hp]
    decide
  · intro b hb name content hn hf
    rw [List.mem_singleton.mp hb] at hn ⊢
    cases hn
    cases hf
    decide

def wrappingBlock : List Opt :=
  [.B (ascii ['W', 'P', '5', '4', 'G']),
    .s (ascii ['4', '2', '9', '4', '9', '6', '7', '2', '9', '5']),
    .b (ascii ['4', '2', '9', '4', '9', '6', '7', '2', '9', '5', ':',
      '4', '2', '9', '4', '9', '6', '7', '2', '9', '5'])]

/-- **A block may end far behind the flash**, if its end wraps. -/
theorem accept_wrappingBlock : ∃ board s, accept (oneFile []) wrappingBlock = .ok (board, s)
    ∧ s.flashSize = 4294967295
    ∧ s.blocks.map (fun b => (b.addr, b.blocklen)) = [(4294967295, 4294967295)]
    ∧ ¬ ∀ b ∈ s.blocks, b.addr.toNat + b.blocklen.toNat ≤ s.flashSize.toNat :=
  ⟨_, _, rfl, rfl, rfl, by decide⟩

end Mylo
