import RouterFirmware.Memory
import Mathlib.Data.Int.Basic

/-!
# Block ciphers on a memory

A block cipher takes a key and a block of a fixed size to a block of that size.
-/

/-- **A block cipher** for blocks of `size` elements. -/
structure BlockCipher (κ α : Type) (size : ℕ) where
  encrypt : κ → List α → List α
  decrypt : κ → List α → List α
  length_encrypt : ∀ k b, b.length = size → (encrypt k b).length = size
  length_decrypt : ∀ k b, b.length = size → (decrypt k b).length = size
  decrypt_encrypt : ∀ k b, b.length = size → decrypt k (encrypt k b) = b

def blockCount (size : ℕ) (len : ℤ) : ℕ := (len.toNat + (size - 1)) / size

section Blocks

variable {α : Type} (f : List α → List α) (size : ℕ)
  (hf : ∀ b, b.length = size → (f b).length = size)

def ecb : ℕ → List α → List α
  | 0, _ => []
  | n + 1, l => f (l.take size) ++ ecb n (l.drop size)

variable {f size}

include hf

theorem length_ecb (n : ℕ) {l : List α} (hl : l.length = n * size) :
    (ecb f size n l).length = n * size := by
  induction n generalizing l with
  | zero => simp [ecb]
  | succ n ih =>
    rw [Nat.succ_mul] at hl
    rw [ecb, List.length_append, hf _ (by rw [List.length_take]; omega),
      ih (by rw [List.length_drop]; omega), Nat.succ_mul, Nat.add_comm]

theorem ecb_ecb {g : List α → List α} (hinv : ∀ b, b.length = size → g (f b) = b) (n : ℕ)
    {l : List α} (hl : l.length = n * size) : ecb g size n (ecb f size n l) = l := by
  induction n generalizing l with
  | zero => exact (List.length_eq_zero_iff.1 (by rw [hl, Nat.zero_mul])).symm
  | succ n ih =>
    rw [Nat.succ_mul] at hl
    have htake : (l.take size).length = size := by rw [List.length_take]; omega
    have hdrop : (l.drop size).length = n * size := by rw [List.length_drop]; omega
    rw [ecb, ecb, List.take_left' (hf _ htake), List.drop_left' (hf _ htake), hinv _ htake,
      ih hdrop, List.take_append_drop]

omit hf

variable (f size)

def Memory.eachBlock : ℕ → ℕ → Memory α → Memory α
  | 0, _, m => m
  | n + 1, a, m => Memory.eachBlock n (a + size) (m.blit a (f (m.slice a size)))

variable {f size}

theorem Memory.eachBlock_eq_blit (hf : ∀ b, b.length = size → (f b).length = size) (n a : ℕ)
    (m : Memory α) : m.eachBlock f size n a = m.blit a (ecb f size n (m.slice a (n * size))) := by
  induction n generalizing a m with
  | zero => rw [eachBlock, ecb, blit_nil]
  | succ n ih =>
    have hfirst : (f (m.slice a size)).length = size := hf _ (length_slice ..)
    have hsplit : m.slice a ((n + 1) * size) = m.slice a size ++ m.slice (a + size) (n * size) := by
      rw [Nat.succ_mul, Nat.add_comm, slice_add]
    have hrest : (m.blit a (f (m.slice a size))).slice (a + size) (n * size)
        = m.slice (a + size) (n * size) := slice_blit_of_disjoint m (by omega)
    rw [eachBlock, ih, hrest, hsplit, ecb, List.take_left' (length_slice ..),
      List.drop_left' (length_slice ..), ← blit_append, hfirst]

/-- **The inverse loop restores the memory.** -/
theorem Memory.eachBlock_eachBlock {g : List α → List α}
    (hf : ∀ b, b.length = size → (f b).length = size)
    (hg : ∀ b, b.length = size → (g b).length = size)
    (hinv : ∀ b, b.length = size → g (f b) = b) (n a : ℕ) (m : Memory α) :
    (m.eachBlock f size n a).eachBlock g size n a = m := by
  have hlen : (ecb f size n (m.slice a (n * size))).length = n * size :=
    length_ecb hf n (length_slice ..)
  have hself := m.slice_blit_self a (ecb f size n (m.slice a (n * size)))
  rw [hlen] at hself
  rw [eachBlock_eq_blit hf, eachBlock_eq_blit hg, hself, ecb_ecb hf hinv n (length_slice ..)]
  exact blit_blit_restore _ _ (by rw [hlen, length_slice]) (by rw [length_slice])

end Blocks
