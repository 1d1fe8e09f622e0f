import Mathlib.Tactic.Common

/-!
# The Internet checksum

The checksum of the Internet protocols is the complement of the sum of the
16-bit words of a run of bytes, a carry being added at the low end.
-/

def wordSum : List UInt8 → ℕ
  | [] => 0
  | [b] => b.toNat * 256
  | b :: c :: bs => b.toNat * 256 + c.toNat + wordSum bs

def endAround (sum : ℕ) : ℕ := if sum = 0 then 0 else (sum - 1) % 0xffff + 1

def csumFold (sum : ℕ) : UInt16 := .ofNat (0xffff - endAround sum)

theorem endAround_le (sum : ℕ) : endAround sum ≤ 0xffff := by
  rw [endAround]
  split <;> omega

theorem endAround_add (sum : ℕ) {word : ℕ} (h : word ≤ 0xffff) : endAround (sum + word)
    = if 0xffff < endAround sum + word then endAround sum + word - 0xffff
      else endAround sum + word := by
  simp only [endAround]
  split_ifs <;> omega

theorem wordSum_append {bs : List UInt8} (h : 2 ∣ bs.length) (cs : List UInt8) :
    wordSum (bs ++ cs) = wordSum bs + wordSum cs := by
  induction bs using wordSum.induct with
  | case1 => exact (Nat.zero_add _).symm
  | case2 b => exact absurd h (by simp)
  | case3 b c bs ih =>
    have hbs : 2 ∣ bs.length := by
      rw [List.length_cons, List.length_cons] at h
      omega
    simp only [List.cons_append, wordSum, ih hbs, Nat.add_assoc]

theorem csumFold_add_ones {sum : ℕ} (h : sum ≠ 0) : csumFold (0xffff + sum) = csumFold sum := by
  have hmod : (0xffff + sum - 1) % 0xffff = (sum - 1) % 0xffff := by omega
  rw [csumFold, csumFold, endAround, endAround, if_neg (by omega), if_neg h, hmod]

theorem toNat_csumFold (sum : ℕ) : (csumFold sum).toNat = 0xffff - endAround sum :=
  UInt16.toNat_ofNat_of_lt' (Nat.lt_of_le_of_lt (Nat.sub_le ..) (by decide))

theorem csumFold_eq_zero_iff {sum : ℕ} (h : sum ≠ 0) : csumFold sum = 0 ↔ 0xffff ∣ sum := by
  rw [← UInt16.toNat_inj, toNat_csumFold, endAround, if_neg h, UInt16.toNat_zero]
  omega

/-- **A run of bytes with its checksum in it has the checksum zero.** -/
theorem csumFold_add_csumFold (sum : ℕ) : csumFold (sum + (csumFold sum).toNat) = 0 := by
  have hfold := toNat_csumFold sum
  rw [endAround] at hfold
  split at hfold <;> exact (csumFold_eq_zero_iff (by omega)).mpr (by omega)

def internetChecksum (bytes : List UInt8) : UInt16 := csumFold (wordSum bytes)

example : internetChecksum [0x00, 0x01, 0xf2, 0x03, 0xf4, 0xf5, 0xf6, 0xf7] = 0x220d := by
  decide
