import RouterFirmware.Memory
import Mathlib.Data.UInt

/-!
# A flash partition

What `mtd` sees of a partition is its character device: a size and an erase
size, `MEMERASE` on one erase block, `write` at the file position, and `lseek`.
-/

def intMax : ℕ := 2 ^ 31 - 1

structure MtdDevice where
  size : ℕ
  erasesize : ℕ
  /-- The blocks whose erase fails. -/
  bad : ℕ → Bool
  /-- How many bytes of a write of `len` bytes at `pos` are taken; `none` if
  the write fails. -/
  accepts : ℕ → ℕ → Option ℕ
  flash : Bytes
  erasesize_pos : 0 < erasesize
  erasesize_le : erasesize ≤ intMax
  erasesize_dvd : erasesize ∣ size
  size_le : size ≤ intMax
  accepts_le : ∀ pos len k, accepts pos len = some k → k ≤ len ∧ pos + k ≤ size

/-- An erase or a write that went through. -/
inductive MtdOp where
  | erase (start length : ℕ)
  | write (pos : ℕ) (bytes : List UInt8)
deriving DecidableEq, Repr

structure MtdFd where
  dev : MtdDevice
  pos : ℕ
  flash : Bytes
  ops : List MtdOp

def MtdOp.bytes : MtdOp → List UInt8
  | .erase _ _ => []
  | .write _ bytes => bytes

namespace MtdDevice

def opened (d : MtdDevice) : MtdFd := ⟨d, 0, d.flash, []⟩

def blocks (d : MtdDevice) : ℕ := d.size / d.erasesize

def WritesComplete (d : MtdDevice) : Prop :=
  ∀ pos len, 0 < len → pos + len ≤ d.size → d.accepts pos len = some len

def reliable (erasesize n : ℕ) (hpos : 0 < erasesize) (hle : erasesize ≤ intMax)
    (hsize : n * erasesize ≤ intMax) (bad : ℕ → Bool) : MtdDevice where
  size := n * erasesize
  erasesize := erasesize
  bad := bad
  accepts := fun pos len =>
    if pos < n * erasesize then some (min len (n * erasesize - pos)) else none
  flash := fun _ => 0
  erasesize_pos := hpos
  erasesize_le := hle
  erasesize_dvd := Nat.dvd_mul_left erasesize n
  size_le := hsize
  accepts_le := by
    intro pos len k h
    split_ifs at h with hp
    rw [Option.some.injEq] at h
    omega

/-- A reliable device whose blocks have four bytes. -/
def reliableFour (n : ℕ) (hsize : n * 4 ≤ intMax) (bad : ℕ → Bool) : MtdDevice :=
  reliable 4 n (by decide) (by decide) hsize bad

theorem reliable_writesComplete (erasesize n : ℕ) (hpos : 0 < erasesize)
    (hle : erasesize ≤ intMax) (hsize : n * erasesize ≤ intMax) (bad : ℕ → Bool) :
    (reliable erasesize n hpos hle hsize bad).WritesComplete := by
  intro pos len hlen hend
  have hend' : pos + len ≤ n * erasesize := hend
  show (if pos < n * erasesize then some (min len (n * erasesize - pos)) else none) = _
  rw [if_pos (by omega), Nat.min_eq_left (by omega)]

theorem blocks_mul (d : MtdDevice) : d.blocks * d.erasesize = d.size :=
  Nat.div_mul_cancel d.erasesize_dvd

theorem block_le_size_iff (d : MtdDevice) (b : ℕ) :
    b * d.erasesize + d.erasesize ≤ d.size ↔ b < d.blocks := by
  rw [← d.blocks_mul, ← Nat.succ_mul, Nat.mul_le_mul_right_iff d.erasesize_pos]
  exact Iff.rfl

end MtdDevice

def eraseFlash (flash : Bytes) (start length : ℕ) : Bytes :=
  flash.blit start (List.replicate length 0xff)

def programFlash (flash : Bytes) (pos : ℕ) (bytes : List UInt8) : Bytes :=
  flash.blit pos (List.zipWith (· &&& ·) (flash.slice pos bytes.length) bytes)

namespace MtdFd

def erased (fd : MtdFd) (offset : ℕ) : MtdFd :=
  { fd with
    flash := eraseFlash fd.flash offset fd.dev.erasesize
    ops := fd.ops ++ [.erase offset fd.dev.erasesize] }

def wrote (fd : MtdFd) (bytes : List UInt8) : MtdFd :=
  { fd with
    pos := fd.pos + bytes.length
    flash := programFlash fd.flash fd.pos bytes
    ops := fd.ops ++ [.write fd.pos bytes] }

def mtdEraseBlock (fd : MtdFd) (offset : ℕ) : Option MtdFd :=
  if offset + fd.dev.erasesize ≤ fd.dev.size
      ∧ fd.dev.bad (offset / fd.dev.erasesize) = false then
    some (fd.erased offset)
  else none

def write (fd : MtdFd) (bytes : List UInt8) : Option ℕ × MtdFd :=
  match fd.dev.accepts fd.pos bytes.length with
  | none => (none, fd)
  | some n => (some n, fd.wrote (bytes.take n))

def lseekCur (fd : MtdFd) (off : ℕ) : MtdFd :=
  if fd.pos + off ≤ fd.dev.size then { fd with pos := fd.pos + off } else fd

def written (fd : MtdFd) : List UInt8 := fd.ops.flatMap MtdOp.bytes

end MtdFd

/-! ## What the operations do -/

theorem eraseFlash_of_outside (flash : Bytes) {start length i : ℕ}
    (h : i < start ∨ start + length ≤ i) : eraseFlash flash start length i = flash i :=
  Memory.blit_of_outside flash (by rw [List.length_replicate]; exact h)

theorem slice_eraseFlash (flash : Bytes) {start length a n : ℕ} (h₁ : start ≤ a)
    (h₂ : a + n ≤ start + length) :
    (eraseFlash flash start length).slice a n = List.replicate n 0xff := by
  refine List.ext_getElem (by simp) fun i hi _ => ?_
  rw [Memory.length_slice] at hi
  rw [Memory.getElem_slice, List.getElem_replicate, eraseFlash,
    show a + i = start + (a + i - start) by omega,
    Memory.blit_of_inside flash start (by rw [List.length_replicate]; omega),
    List.getElem_replicate]

theorem programFlash_of_erased {flash : Bytes} {pos : ℕ} {bytes : List UInt8}
    (h : flash.slice pos bytes.length = List.replicate bytes.length 0xff) :
    programFlash flash pos bytes = flash.blit pos bytes := by
  have hand : ∀ x : UInt8, 0xff &&& x = x := fun x =>
    UInt8.eq_of_toBitVec_eq (BitVec.allOnes_and (x := x.toBitVec))
  unfold programFlash
  rw [h]
  congr 1
  refine List.ext_getElem (by simp) fun i _ _ => ?_
  rw [List.getElem_zipWith, List.getElem_replicate, hand]

namespace MtdFd

theorem mtdEraseBlock_of_good {fd : MtdFd} {b : ℕ} (hb : b < fd.dev.blocks)
    (hgood : fd.dev.bad b = false) :
    fd.mtdEraseBlock (b * fd.dev.erasesize) = some (fd.erased (b * fd.dev.erasesize)) := by
  unfold mtdEraseBlock
  rw [Nat.mul_div_cancel _ fd.dev.erasesize_pos]
  exact if_pos ⟨(fd.dev.block_le_size_iff b).mpr hb, hgood⟩

theorem mtdEraseBlock_of_bad {fd : MtdFd} {b : ℕ} (h : fd.dev.blocks ≤ b ∨ fd.dev.bad b = true) :
    fd.mtdEraseBlock (b * fd.dev.erasesize) = none := by
  unfold mtdEraseBlock
  rw [Nat.mul_div_cancel _ fd.dev.erasesize_pos]
  refine if_neg fun ⟨hb, hgood⟩ => ?_
  rcases h with h | h
  · exact absurd ((fd.dev.block_le_size_iff b).mp hb) (by omega)
  · rw [h] at hgood
    cases hgood

theorem write_of_accepts {fd : MtdFd} (bytes : List UInt8)
    (h : fd.dev.accepts fd.pos bytes.length = some bytes.length) :
    fd.write bytes = (some bytes.length, fd.wrote bytes) := by
  unfold write
  rw [h]
  simp only [List.take_length]

variable (fd : MtdFd) (off : ℕ)

@[simp] theorem written_erased (offset : ℕ) : (fd.erased offset).written = fd.written := by
  simp [written, erased, MtdOp.bytes]

@[simp] theorem written_wrote (bytes : List UInt8) :
    (fd.wrote bytes).written = fd.written ++ bytes := by
  simp [written, wrote, MtdOp.bytes]

@[simp] theorem written_lseekCur : (fd.lseekCur off).written = fd.written := by
  unfold lseekCur
  split <;> rfl

theorem le_lseekCur_pos : fd.pos ≤ (fd.lseekCur off).pos := by
  unfold lseekCur
  split
  · exact Nat.le_add_right _ _
  · exact le_rfl

theorem lseekCur_pos_le (h : fd.pos ≤ fd.dev.size) : (fd.lseekCur off).pos ≤ fd.dev.size := by
  unfold lseekCur
  split
  · exact ‹_›
  · exact h

theorem write_cases (bytes : List UInt8) : fd.write bytes = (none, fd)
    ∨ ∃ n ≤ bytes.length, fd.pos + n ≤ fd.dev.size
      ∧ fd.write bytes = (some n, fd.wrote (bytes.take n)) := by
  unfold write
  cases h : fd.dev.accepts fd.pos bytes.length with
  | none => exact .inl rfl
  | some n =>
    obtain ⟨hle, hend⟩ := fd.dev.accepts_le _ _ _ h
    exact .inr ⟨n, hle, hend, rfl⟩

theorem mtdEraseBlock_cases (offset : ℕ) : fd.mtdEraseBlock offset = none
    ∨ (offset + fd.dev.erasesize ≤ fd.dev.size
      ∧ fd.mtdEraseBlock offset = some (fd.erased offset)) := by
  unfold mtdEraseBlock
  split
  · exact .inr ⟨(‹_ ∧ _›).1, rfl⟩
  · exact .inl rfl

@[simp] theorem lseekCur_dev : (fd.lseekCur off).dev = fd.dev := by
  unfold lseekCur
  split <;> rfl

theorem lseekCur_of_le {fd : MtdFd} {off : ℕ} (h : fd.pos + off ≤ fd.dev.size) :
    fd.lseekCur off = { fd with pos := fd.pos + off } :=
  if_pos h

end MtdFd
