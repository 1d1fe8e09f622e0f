import RouterFirmware.CString
import RouterFirmware.HashTable

/-!
# The variables of the NVRAM

`nvram.c` keeps the variables of the opened NVRAM in a table of 257 buckets.
-/

@[irreducible] def nvramSpace : ℕ := 0x8000

theorem nvramSpace_eq : nvramSpace = 0x8000 := by rw [nvramSpace]

def nvramBuckets : ℕ := 257

def charWord (c : UInt8) : UInt32 :=
  if c < 128 then c.toUInt32 else c.toUInt32 + 0xFFFFFF00

def nvramHashOf (s : CString) : UInt32 :=
  s.bytes.foldl (fun hash c => 31 * hash + charWord c) 0

def nvramIndex (name : CString) : Fin nvramBuckets :=
  ⟨(nvramHashOf name).toNat % (nvramBuckets * 4) / 4, by unfold nvramBuckets; omega⟩

abbrev NvramTuple : Type := Σ _ : CString, CString

structure NvramHandle where
  /-- The mapped erase block. -/
  mmap : Bytes
  /-- Its size, which is `nvram_erase_size`. -/
  length : ℕ
  /-- The erase block has room for the image. -/
  space_le : nvramSpace ≤ length
  /-- The variables. -/
  nvramHash : HashTable nvramIndex CString
  /-- The variables that were unset. -/
  nvramDead : List NvramTuple

namespace NvramHandle

open List

variable (h : NvramHandle)

def nvramFree : NvramHandle := { h with nvramHash := .empty, nvramDead := [] }

def nvramRealloc (name value : CString) : Option NvramTuple :=
  if nvramSpace < value.length + 1 then none else some ⟨name, value⟩

def nvramGet (name : CString) : Option CString := h.nvramHash.lookup name

def nvramSet (name value : CString) : ℤ × NvramHandle :=
  match nvramRealloc name value with
  | none => (-12, h)
  -- a tuple that was found is changed where it is (`t == u`), and never goes to the dead ones
  | some u => (0, { h with nvramHash := h.nvramHash.insert u.1 u.2 })

def nvramUnset (name : CString) : ℤ × NvramHandle :=
  match h.nvramGet name with
  | none => (0, h)
  | some value =>
    (0, { h with
      nvramHash := h.nvramHash.erase name
      nvramDead := ⟨name, value⟩ :: h.nvramDead })

def tuples : List NvramTuple := h.nvramHash.entries

def nvramGetall : List NvramTuple := h.tuples.foldl (fun l t => t :: l) []


variable {h} {name value : CString}

theorem nvramSet_of_le (hlen : value.length + 1 ≤ nvramSpace) :
    h.nvramSet name value = (0, { h with nvramHash := h.nvramHash.insert name value }) := by
  rw [nvramSet, nvramRealloc, if_neg (Nat.not_lt.mpr hlen)]

theorem nvramSet_of_lt (hlen : nvramSpace < value.length + 1) :
    h.nvramSet name value = (-12, h) := by
  rw [nvramSet, nvramRealloc, if_pos hlen]

@[simp] theorem mmap_nvramSet : (h.nvramSet name value).2.mmap = h.mmap := by
  unfold nvramSet
  split <;> rfl

@[simp] theorem length_nvramSet : (h.nvramSet name value).2.length = h.length := by
  unfold nvramSet
  split <;> rfl

theorem nvramGet_nvramSet : (h.nvramSet name value).2.nvramGet
    = if value.length + 1 ≤ nvramSpace then Function.update h.nvramGet name (some value)
      else h.nvramGet := by
  by_cases hlen : value.length + 1 ≤ nvramSpace
  · rw [if_pos hlen, nvramSet_of_le hlen]
    exact HashTable.lookup_insert ..
  · rw [if_neg hlen, nvramSet_of_lt (Nat.not_le.mp hlen)]

theorem nvramGet_nvramUnset :
    (h.nvramUnset name).2.nvramGet = Function.update h.nvramGet name none := by
  unfold nvramUnset
  cases hname : h.nvramGet name with
  | none => exact (Function.update_eq_self_iff.mpr hname.symm).symm
  | some value => exact HashTable.lookup_erase ..

theorem mem_tuples : ⟨name, value⟩ ∈ h.tuples ↔ h.nvramGet name = some value :=
  HashTable.mem_entries h.nvramHash

theorem mem_nvramGetall : ⟨name, value⟩ ∈ h.nvramGetall ↔ h.nvramGet name = some value := by
  rw [nvramGetall, foldl_flip_cons_eq_append', append_nil, mem_reverse, mem_tuples]

theorem dlookup_tuples : h.tuples.dlookup name = h.nvramGet name := by
  refine Option.ext fun value => ?_
  exact (mem_dlookup_iff h.nvramHash.nodupKeys_entries).trans mem_tuples

end NvramHandle
