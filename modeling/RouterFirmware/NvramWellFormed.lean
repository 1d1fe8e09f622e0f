import RouterFirmware.NvramDamaged

/-!
# Every committed image is well formed

Whatever the table holds, and whether it fits or not, `nvram_commit` leaves an
image with the magic number, a length that is a multiple of four and fits, an
empty string behind the variables, and the checksum that `do_info` computes; and
it writes nowhere but in the image.

The checksum is the delicate part. `nvram_commit` computes it in two pieces, over
a copy of the header whose first two words are zero and over the data, with the
byte that is to hold the result still zero; `do_info` computes it in one piece
over the image as it is then. Both begin behind the byte of the result, so that
they read the same bytes (`infoCrc_setCrc`).

The zeros that fill up the last word end with the image, because the header is
aligned (`commitStaysInside`). A position here is an offset into the
mapping, and the code fills up to a multiple of four of the address,
`(int)ptr % 4`. The mapping begins at a page, and an address of a process on the
MIPS targets of the package is below `2 ^ 31`, so that the two agree.
-/

namespace NvramHandle

open List Memory Nat

variable (order : ByteOrder) (strtoul : CString → ℕ) (h : NvramHandle)

def withTuples : NvramHandle :=
  let g := (h.regenerateHeader order strtoul).clearData
  g.setMmap g.writeTuples.2

def endOfTuples : ℕ := h.nvramHeader + nvramHeaderSize + tuplesSize h.written

def infoCrc : UInt8 :=
  hndcrc8 (h.mmap.slice (h.nvramHeader + nvramCrcStartPosition)
    (h.field order .len - nvramCrcStartPosition)) 0xff

theorem nvramHeader_withTuples : (h.withTuples order strtoul).nvramHeader = h.nvramHeader :=
  nvramHeader_congr
    (by rw [withTuples, length_setMmap, clearData, length_setMmap, length_regenerateHeader])

/-- A commit writes the variables, their end and the checksum, in this order. -/
theorem committed_eq_setCrc : h.committed order strtoul
    = ((h.withTuples order strtoul).terminate order h.endOfTuples).setCrc order := by
  have hptr : (h.regenerateHeader order strtoul).clearData.writeTuples.1 = h.endOfTuples := by
    rw [writeTuples_eq, nvramHeader_cleared, written_cleared, endOfTuples]
  rw [committed, hptr, withTuples]

/-! ## The header -/

theorem crcVerInit_regenerateHeader :
    (h.regenerateHeader order strtoul).field order .crcVerInit % 256 = 0 := by
  have hversion : nvramVersion <<< 8 < 256 ^ 4 := by decide
  have hlt : ∀ v < 2 ^ 16, nvramVersion <<< 8 ||| v <<< 16 < 256 ^ 4 := by
    intro v hv
    refine or_lt_two_pow (n := 32) (by decide) ?_
    rw [shiftLeft_eq]
    omega
  have hmod : ∀ v, (nvramVersion <<< 8 ||| v <<< 16) % 256 = 0 := by
    intro v
    have hv : v <<< 16 % 2 ^ 8 = 0 := by
      rw [shiftLeft_eq]
      omega
    rw [show 256 = 2 ^ 8 from rfl, or_mod_two_pow, hv]
    decide
  have hand : ∀ v : ℕ, v &&& 0xffff < 2 ^ 16 := fun v => and_lt_two_pow v (by decide)
  unfold regenerateHeader
  split
  · simp only [field_setField_of_ne, ne_eq, reduceCtorEq, not_false_eq_true]
    rw [field_setField_self order _ hversion, field_setField_self order _ (hlt _ (hand _)), hmod]
  · simp only [field_setField_of_ne, ne_eq, reduceCtorEq, not_false_eq_true]
    rw [field_setField_self order _ hversion, field_setField_self order _ (hlt _ (by decide)), hmod]

theorem field_withTuples (f : NvramField) : (h.withTuples order strtoul).field order f
    = (h.regenerateHeader order strtoul).field order f := by
  rw [withTuples, writeTuples_eq, field_setMmap_blit order le_rfl, clearData,
    field_setMmap_blit order le_rfl]

theorem len_terminate :
    ((h.withTuples order strtoul).terminate order h.endOfTuples).field order .len
      = (nvramHeaderSize + tuplesSize h.written + 2 + 3) / 4 * 4 := by
  have hsize := h.tuplesSize_written_le
  have hspace := nvramSpace_eq
  have hlen : h.endOfTuples + 2 - (h.withTuples order strtoul).nvramHeader
      = nvramHeaderSize + tuplesSize h.written + 2 := by
    rw [nvramHeader_withTuples, endOfTuples]
    omega
  rw [terminate, hlen, field_setField_self]
  omega

/-! ## The checksum -/

theorem bytes_field (f : NvramField) :
    order.bytes 4 (h.field order f) = h.mmap.slice (h.nvramHeader + f.offset) 4 := by
  have hbytes := order.bytes_value (h.mmap.slice (h.nvramHeader + f.offset) 4)
  rwa [length_slice] at hbytes

def crcWords : List UInt8 :=
  order.bytes 4 (h.field order .crcVerInit) ++ order.bytes 4 (h.field order .configRefresh)
    ++ order.bytes 4 (h.field order .configNcdl)

theorem crcWords_eq : h.crcWords order = h.mmap.slice (h.nvramHeader + 8) 12 := by
  rw [crcWords, bytes_field, bytes_field, bytes_field, show 12 = 4 + 4 + 4 from rfl,
    slice_add, slice_add]
  rfl

def newCrc : UInt8 :=
  hndcrc8 ((h.crcWords order).drop 1 ++ h.mmap.slice (h.nvramHeader + nvramHeaderSize)
    (h.field order .len - nvramHeaderSize)) 0xff

theorem setCrc_eq : h.setCrc order
    = h.setField order .crcVerInit (h.field order .crcVerInit ||| (h.newCrc order).toNat) := by
  have hdrop : (order.bytes 4 0 ++ order.bytes 4 0 ++ order.bytes 4 (h.field order .crcVerInit)
      ++ order.bytes 4 (h.field order .configRefresh)
      ++ order.bytes 4 (h.field order .configNcdl)).drop nvramCrcStartPosition
      = (h.crcWords order).drop 1 := by
    have hzeros : (order.bytes 4 0 ++ order.bytes 4 0).length = 8 := by simp
    rw [nvramCrcStartPosition, show 9 = 8 + 1 from rfl, ← drop_drop, append_assoc,
      append_assoc, drop_left' hzeros, crcWords, append_assoc]
  rw [setCrc, hdrop, newCrc, hndcrc8, hndcrc8, hndcrc8, foldl_append]

theorem leBytes_or_drop {v : ℕ} (hv : v % 256 = 0) (c : UInt8) :
    (leBytes 4 (v ||| c.toNat)).drop 1 = (leBytes 4 v).drop 1
      ∧ (v ||| c.toNat) % 256 = c.toNat := by
  have hc := c.toNat_lt
  have hdiv : (v ||| c.toNat) / 2 ^ 8 = v / 2 ^ 8 := by
    rw [or_div_two_pow, div_eq_of_lt hc, or_zero]
  have hmod : (v ||| c.toNat) % 2 ^ 8 = c.toNat := by
    rw [or_mod_two_pow, show v % 2 ^ 8 = 0 from hv, zero_or, mod_eq_of_lt hc]
  exact ⟨congrArg (leBytes 3) hdiv, hmod⟩

theorem infoCrc_setCrc (hlow : h.field .little .crcVerInit % 256 = 0)
    (hlen : nvramHeaderSize ≤ h.field .little .len) :
    (h.setCrc .little).field .little .crcVerInit % 256
      = ((h.setCrc .little).infoCrc .little).toNat := by
  set v := h.field .little .crcVerInit with hv
  set crc := h.newCrc .little with hcrc
  have hvlt : v < 2 ^ 32 := h.mmap.load_lt .little 4 _
  obtain ⟨hdrop, hmod⟩ := leBytes_or_drop hlow crc
  have hnew : v ||| crc.toNat < 256 ^ 4 :=
    or_lt_two_pow (n := 32) hvlt (lt_trans crc.toNat_lt (by decide))
  have hset := setCrc_eq .little h
  have hfield : (h.setCrc .little).field .little .crcVerInit = v ||| crc.toNat := by
    rw [hset, field_setField_self _ _ hnew]
  have hother : ∀ f, f ≠ .crcVerInit → (h.setCrc .little).field .little f = h.field .little f := by
    intro f hf
    rw [hset, field_setField_of_ne _ hf]
  have hheader : (h.setCrc .little).nvramHeader = h.nvramHeader := by
    rw [hset, nvramHeader_setField]
  have hwords : ((h.setCrc .little).crcWords .little).drop 1 = (h.crcWords .little).drop 1 := by
    rw [crcWords, hfield, hother _ (by simp), hother _ (by simp), crcWords, append_assoc,
      append_assoc, drop_append_of_le_length (by simp), drop_append_of_le_length (by simp)]
    exact congrArg (· ++ _) hdrop
  have hdata : (h.setCrc .little).mmap.slice (h.nvramHeader + nvramHeaderSize)
      (h.field .little .len - nvramHeaderSize)
      = h.mmap.slice (h.nvramHeader + nvramHeaderSize)
          (h.field .little .len - nvramHeaderSize) := by
    rw [hset, mmap_setField, store, slice_blit_of_disjoint]
    exact .inr (by rw [ByteOrder.length_bytes, NvramField.offset, nvramHeaderSize]; omega)
  rw [nvramHeaderSize] at hlen
  have hsplit : h.field .little .len - nvramCrcStartPosition
      = 11 + (h.field .little .len - nvramHeaderSize) := by
    rw [nvramCrcStartPosition, nvramHeaderSize]
    omega
  have hfirst : (h.setCrc .little).mmap.slice (h.nvramHeader + nvramCrcStartPosition) 11
      = (h.crcWords .little).drop 1 := by
    rw [← hwords, crcWords_eq, hheader, drop_slice _ _ (by decide)]
    rfl
  rw [hfield, hmod, infoCrc, hother .len (by simp), hheader, hsplit, slice_add, hfirst,
    add_assoc, show nvramCrcStartPosition + 11 = nvramHeaderSize from rfl, hdata, hcrc, newCrc]

/-! ## The strings -/

theorem nvramHeader_committed : (h.committed order strtoul).nvramHeader = h.nvramHeader :=
  nvramHeader_congr (length_committed order strtoul)

theorem endsInside_of_holds {m : Bytes} {ts : List NvramTuple} {pos last : ℕ}
    (hm : HoldsTuples m pos ts) (hlast : pos + tuplesSize ts < last) : EndsInside m pos last := by
  induction ts generalizing pos with
  | nil =>
    have h0 : m pos = 0 := (cons.inj hm).1
    exact ⟨pos, pos, le_refl _, le_refl _, by omega, .inl rfl, h0, fun i hi hi' => by omega⟩
  | cons t ts ih =>
    obtain ⟨-, -, -, hzero⟩ := hm.head
    rw [tuplesSize_cons] at hlast
    obtain ⟨p, z, hp, hpz, hz, hbegin, hend⟩ := ih hm.tail (by omega)
    refine ⟨p, z, by omega, hpz, hz, .inr ?_, hend⟩
    rcases hbegin with rfl | hbegin
    · rw [NvramTuple.size, show pos + (t.1.length + 1 + t.2.length + 1) - 1
        = pos + t.1.length + 1 + t.2.length by omega, hzero]
    · exact hbegin

/-! ## An image that is well formed -/

/-- **A well-formed image** of some variables. -/
structure WellFormed (ts : List NvramTuple) (g : NvramHandle) : Prop where
  magic : g.field .little .magic = nvramMagic
  len_mod : g.field .little .len % 4 = 0
  len_le : g.field .little .len ≤ nvramSpace
  holds : HoldsTuples g.mmap (g.nvramHeader + nvramHeaderSize) ts
  ends : nvramHeaderSize + tuplesSize ts < g.field .little .len
  crc : g.field .little .crcVerInit % 256 = (g.infoCrc .little).toNat

theorem WellFormed.congr {ts : List NvramTuple} {g g' : NvramHandle} (hg : g.WellFormed ts)
    (hlen : g'.length = g.length) (hmem : g'.mmap = g.mmap) : g'.WellFormed ts := by
  have hheader := nvramHeader_congr hlen
  have hfield : ∀ f, g'.field .little f = g.field .little f := fun f => by
    rw [field, hheader, hmem, field]
  have hcrc : g'.infoCrc .little = g.infoCrc .little := by
    rw [infoCrc, hheader, hmem, hfield, infoCrc]
  refine ⟨?_, ?_, ?_, ?_, ?_, ?_⟩
  · rw [hfield, hg.magic]
  · rw [hfield, hg.len_mod]
  · rw [hfield]
    exact hg.len_le
  · rw [hmem, hheader]
    exact hg.holds
  · rw [hfield]
    exact hg.ends
  · rw [hfield, hcrc, hg.crc]

theorem wellFormed_committed : (h.committed .little strtoul).WellFormed h.written := by
  have hptr : (h.withTuples .little strtoul).nvramHeader + nvramHeaderSize ≤ h.endOfTuples := by
    rw [nvramHeader_withTuples, endOfTuples]
    omega
  have hsize := h.tuplesSize_written_le
  have hspace := nvramSpace_eq
  have hlen := h.len_terminate .little strtoul
  have hlow : ((h.withTuples .little strtoul).terminate .little h.endOfTuples).field
      .little .crcVerInit % 256 = 0 := by
    rw [field_terminate _ hptr (by simp), field_withTuples, crcVerInit_regenerateHeader]
  have hcommitted : (h.committed .little strtoul).field .little .len
      = ((h.withTuples .little strtoul).terminate .little h.endOfTuples).field .little .len := by
    rw [committed_eq_setCrc, setCrc_eq, field_setField_of_ne _ (by simp)]
  have hholds := holds_committed (h := h) .little strtoul
  rw [← nvramHeader_committed .little strtoul] at hholds
  refine ⟨magic_committed .little strtoul, ?_, ?_, hholds, ?_, ?_⟩
  · rw [hcommitted, hlen, mul_mod_left]
  · rw [hcommitted, hlen]
    omega
  · rw [hcommitted, hlen]
    omega
  · rw [committed_eq_setCrc]
    refine infoCrc_setCrc _ hlow ?_
    rw [hlen]
    omega

theorem exists_nvramCommit :
    ∃ g, h.nvramCommit .little strtoul = some (0, g) ∧ g.WellFormed h.written := by
  have hwell := h.wellFormed_committed strtoul
  have hsize := h.tuplesSize_written_le
  have hsome : ((h.committed .little strtoul).nvramRehash .little).isSome = true := by
    refine (isSome_nvramRehash_iff .little).mpr (endsInside_of_holds hwell.holds ?_)
    have hle := h.space_le
    rw [nvramHeader_committed, length_committed, nvramHeader]
    omega
  obtain ⟨g, hg⟩ := Option.isSome_iff_exists.mp hsome
  exact ⟨g, by rw [nvramCommit, hg, Option.map_some],
    hwell.congr (length_nvramRehash hg) (mmap_nvramRehash hg)⟩

/-! ## Where it writes -/

def DiffersInside (g : NvramHandle) (m : Bytes) : Prop :=
  Memory.EqOff g.mmap m g.nvramHeader (g.nvramHeader + nvramSpace)

section Inside

variable {order strtoul h} {m : Bytes} (hg : h.DiffersInside m)

include hg

theorem DiffersInside.setField (f : NvramField) (v : ℕ) :
    (h.setField order f v).DiffersInside m := by
  have hoff := f.offset_lt
  have hroom := nvramHeaderSize_add_room
  rw [DiffersInside, nvramHeader_setField]
  intro i hi
  rw [mmap_setField, store_of_outside _ _ _ (by omega)]
  exact hg i hi

theorem DiffersInside.blit {a : ℕ} (xs : List UInt8) (ha : h.nvramHeader ≤ a)
    (hxs : a + xs.length ≤ h.nvramHeader + nvramSpace) :
    (h.setMmap (h.mmap.blit a xs)).DiffersInside m := by
  rw [DiffersInside, nvramHeader_setMmap]
  intro i hi
  rw [mmap_setMmap, blit_of_outside _ (by omega)]
  exact hg i hi

theorem DiffersInside.withTuples : (h.withTuples order strtoul).DiffersInside m := by
  have hroom := nvramHeaderSize_add_room
  have hregenerate : (h.regenerateHeader order strtoul).DiffersInside m := by
    unfold regenerateHeader
    split <;> exact ((((((hg.setField _ _).setField _ _).setField _ _).setField _ _).setField
      _ _).setField _ _)
  have hclear : (h.regenerateHeader order strtoul).clearData.DiffersInside m :=
    hregenerate.blit _ (by omega) (by rw [length_replicate]; omega)
  have hsize := (h.regenerateHeader order strtoul).clearData.tuplesSize_written_le
  rw [NvramHandle.withTuples, writeTuples_eq]
  exact hclear.blit _ (by omega) (by rw [length_tuplesBytes]; omega)

/-- The zeros behind the empty string fill up a word of the image, the last one
at most. -/
theorem DiffersInside.terminate {ptr : ℕ} (haligned : h.nvramHeader % 4 = 0)
    (hptr : h.nvramHeader ≤ ptr) (hlast : ptr + 2 ≤ h.nvramHeader + nvramSpace) :
    (h.terminate order ptr).DiffersInside m := by
  have hspace := nvramSpace_eq
  have hzero := hg.blit [0] hptr (by rw [length_singleton]; omega)
  rw [NvramHandle.terminate]
  split
  · exact hzero.setField _ _
  · refine (hzero.blit (a := ptr + 1) (replicate (4 - (ptr + 1) % 4) 0) ?_ ?_).setField _ _
    · rw [nvramHeader_setMmap]
      omega
    · rw [nvramHeader_setMmap, length_replicate]
      omega

end Inside

def CommitStaysInside : Prop :=
  ∀ m, ((h.setMmap m).committed order strtoul).DiffersInside m

theorem commitStaysInside (haligned : h.nvramHeader % 4 = 0) :
    h.CommitStaysInside order strtoul := by
  intro m
  have hsame : (h.setMmap m).DiffersInside m := fun _ _ => rfl
  have hsize := (h.setMmap m).tuplesSize_written_le
  have hend : (h.setMmap m).endOfTuples
      = h.nvramHeader + nvramHeaderSize + tuplesSize (h.setMmap m).written := by
    rw [endOfTuples, nvramHeader_setMmap]
  rw [committed_eq_setCrc, setCrc_eq]
  refine (hsame.withTuples.terminate ?_ ?_ ?_).setField _ _ <;>
    rw [nvramHeader_withTuples, nvramHeader_setMmap]
  · exact haligned
  · omega
  · omega

end NvramHandle

/-- **Every committed image is well formed**, for every content of the table, and
nothing is written outside of it. -/
theorem nvramCommit_wellFormed (strtoul : CString → ℕ) (h : NvramHandle)
    (haligned : h.nvramHeader % 4 = 0) :
    (∃ g, h.nvramCommit .little strtoul = some (0, g) ∧ g.WellFormed h.written)
      ∧ h.CommitStaysInside .little strtoul :=
  ⟨h.exists_nvramCommit strtoul, h.commitStaysInside .little strtoul haligned⟩

def emptyHandle : NvramHandle := .mapped blankImage nvramSpace le_rfl

def fillingValue : CString where
  bytes := List.replicate 32743 98
  noZero := by
    rw [List.mem_replicate]
    rintro ⟨-, h⟩
    exact absurd h (by decide)

theorem length_fillingValue : fillingValue.length = 32743 := by
  rw [CString.length, fillingValue, List.length_replicate]

theorem tuplesSize_singleton (name value : CString) :
    tuplesSize [⟨name, value⟩] = name.length + 1 + value.length + 1 := rfl

def filledHandle : NvramHandle := (emptyHandle.nvramSet largeName fillingValue).2

theorem tuples_filledHandle : filledHandle.tuples = [⟨largeName, fillingValue⟩] := by
  have hle : fillingValue.length + 1 ≤ nvramSpace := by
    rw [length_fillingValue, nvramSpace_eq]
    decide
  have hget : filledHandle.nvramGet
      = Function.update (fun _ => none) largeName (some fillingValue) := by
    rw [filledHandle, NvramHandle.nvramGet_nvramSet, if_pos hle]
    exact congrArg (fun f => Function.update f _ _) (funext HashTable.lookup_empty)
  refine List.perm_singleton.mp ((List.perm_ext_iff_of_nodup
    filledHandle.nvramHash.nodupKeys_entries.nodup (List.nodup_singleton _)).mpr ?_)
  rintro ⟨name, value⟩
  refine NvramHandle.mem_tuples.trans ?_
  rw [hget, List.mem_singleton]
  by_cases hname : name = largeName
  · subst hname
    simp [eq_comm]
  · simp [hname]

/-- **An image filled to its end**: header, variable and double zero take all of
it, and it is well formed. -/
theorem nvramCommit_wellFormed_filled :
    nvramHeaderSize + tuplesSize [⟨largeName, fillingValue⟩] + 2 = nvramSpace
      ∧ (∃ g, filledHandle.nvramCommit .little (fun _ => 0) = some (0, g)
          ∧ g.WellFormed [⟨largeName, fillingValue⟩])
      ∧ filledHandle.CommitStaysInside .little (fun _ => 0) := by
  have hsize : nvramHeaderSize + tuplesSize [⟨largeName, fillingValue⟩] + 2 = nvramSpace := by
    have hname : largeName.length = 1 := by decide
    rw [tuplesSize_singleton, length_fillingValue, hname, nvramSpace_eq, nvramHeaderSize]
  have hwritten : filledHandle.written = [⟨largeName, fillingValue⟩] := by
    rw [← tuples_filledHandle, NvramHandle.written_eq_iff, NvramHandle.Fits, tuples_filledHandle]
    exact hsize.le
  have haligned : filledHandle.nvramHeader % 4 = 0 := by
    rw [filledHandle, NvramHandle.nvramHeader_congr NvramHandle.length_nvramSet]
    exact congrArg (· % 4) (Nat.sub_self nvramSpace)
  have hcommit := nvramCommit_wellFormed (fun _ => 0) filledHandle haligned
  rw [hwritten] at hcommit
  exact ⟨hsize, hcommit⟩
