import Mathlib.Algebra.Order.Group.Nat
import Mathlib.Data.Nat.Bitwise
import Mathlib.Tactic.Ring

/-!
# Counting bits by adding neighbouring groups

The number of ones in a word can be had without a loop over its bits: take the
word as groups of one bit, add every second group to its neighbour, and go on
with groups of twice the size until there is one group left.  A turn for groups
of `w` bits is

    c = ((c >> w) & mask) + (c & mask)

where the mask has the lower half of each pair of groups.

Here `lanes w n c` is the number whose `n` groups of `w` bits hold the counts of
the groups of `c` – for `w = 1` it is `c` itself (`lanes_one`), and one group
that is as large as the word holds the count of the word (`lanes_single`).
`addLanes` is the turn, for any size and any number of groups.
-/

namespace BitCount

open Nat List

def ones (n c : ℕ) : ℕ := (List.range n).countP c.testBit

def mask (w : ℕ) : ℕ → ℕ
  | 0 => 0
  | n + 1 => 2 ^ (w + w) * mask w n + (2 ^ w - 1)

def lanes (w : ℕ) : ℕ → ℕ → ℕ
  | 0, _ => 0
  | n + 1, c => 2 ^ w * lanes w n (c / 2 ^ w) + ones w c

theorem ones_add (v w c : ℕ) : ones (v + w) c = ones v c + ones w (c / 2 ^ v) := by
  unfold ones
  rw [range_add, countP_append, countP_map]
  congr 1
  refine countP_congr fun i _ => ?_
  rw [Function.comp_apply, testBit_div_two_pow, Nat.add_comm]

/-- The count of a group fits into the group. -/
theorem ones_lt (w c : ℕ) : ones w c < 2 ^ w := by
  refine lt_of_le_of_lt ?_ Nat.lt_two_pow_self
  exact countP_le_length.trans_eq length_range

theorem ones_one (c : ℕ) : ones 1 c = c % 2 := by
  have hbit : c.testBit 0 = decide (c % 2 = 1) := testBit_zero c
  rcases mod_two_eq_zero_or_one c with h | h <;> simp [ones, hbit, h]

/-- At the beginning every bit is its own count. -/
theorem lanes_one {n c : ℕ} (hc : c < 2 ^ n) : lanes 1 n c = c := by
  induction n generalizing c with
  | zero => exact (lt_one_iff.mp hc).symm
  | succ n ih =>
    rw [lanes, ones_one, pow_one, ih (by rw [Nat.pow_succ] at hc; omega)]
    exact div_add_mod c 2

/-- At the end there is one count. -/
theorem lanes_single (w c : ℕ) : lanes w 1 c = ones w c := by
  rw [lanes, lanes, Nat.mul_zero, Nat.zero_add]

/-! ## Numbers of two parts -/

section Split

variable {k b b' : ℕ}

theorem div_split (a : ℕ) (hb : b < 2 ^ k) : (2 ^ k * a + b) / 2 ^ k = a := by
  rw [mul_add_div (Nat.two_pow_pos k), div_eq_of_lt hb, Nat.add_zero]

theorem mod_split (a : ℕ) (hb : b < 2 ^ k) : (2 ^ k * a + b) % 2 ^ k = b := by
  rw [mul_add_mod, mod_eq_of_lt hb]

/-- Two parts that fit into groups fit into a pair of groups. -/
theorem pair_lt {a : ℕ} (ha : a < 2 ^ k) (hb : b < 2 ^ k) : 2 ^ k * a + b < 2 ^ (k + k) := by
  rw [Nat.pow_add]
  calc 2 ^ k * a + b < 2 ^ k * a + 2 ^ k := Nat.add_lt_add_left hb _
    _ = 2 ^ k * (a + 1) := by ring
    _ ≤ 2 ^ k * 2 ^ k := Nat.mul_le_mul_left _ ha

/-- A bitwise and is taken of each part. -/
theorem and_split (a a' : ℕ) (hb : b < 2 ^ k) (hb' : b' < 2 ^ k) :
    (2 ^ k * a + b) &&& (2 ^ k * a' + b') = 2 ^ k * (a &&& a') + (b &&& b') := by
  rw [← div_add_mod ((2 ^ k * a + b) &&& (2 ^ k * a' + b')) (2 ^ k), and_div_two_pow,
    and_mod_two_pow, div_split a hb, div_split a' hb', mod_split a hb, mod_split a' hb']

/-- The mask of a pair of groups takes the lower one. -/
theorem and_mask_pair (a a' x : ℕ) (hx : x < 2 ^ k) (hb : b < 2 ^ k) :
    (2 ^ (k + k) * a + (2 ^ k * x + b)) &&& (2 ^ (k + k) * a' + (2 ^ k - 1))
      = 2 ^ (k + k) * (a &&& a') + b := by
  have hmask : 2 ^ k - 1 < 2 ^ (k + k) :=
    lt_of_lt_of_le (Nat.sub_one_lt (Nat.two_pow_pos k).ne')
      (Nat.pow_le_pow_right (by decide) (Nat.le_add_right k k))
  rw [and_split a a' (pair_lt hx hb) hmask, and_two_pow_sub_one_eq_mod, mod_split x hb]

end Split

/-- **A turn**: neighbouring groups are added. -/
theorem addLanes (w n c : ℕ) :
    (lanes w (2 * n) c >>> w &&& mask w n) + (lanes w (2 * n) c &&& mask w n)
      = lanes (w + w) n c := by
  induction n generalizing c with
  | zero => simp [lanes, mask]
  | succ n ih =>
    have hlow := ones_lt w c
    have hhigh := ones_lt w (c / 2 ^ w)
    have hih := ih (c / 2 ^ w / 2 ^ w)
    -- the counts of the first two groups, and `rest` those of the others
    have hword : lanes w (2 * (n + 1)) c
        = 2 ^ (w + w) * lanes w (2 * n) (c / 2 ^ w / 2 ^ w)
          + (2 ^ w * ones w (c / 2 ^ w) + ones w c) := by
      rw [mul_succ, lanes, lanes, Nat.pow_add]
      ring
    generalize lanes w (2 * n) (c / 2 ^ w / 2 ^ w) = rest at hword hih
    have hshift : lanes w (2 * (n + 1)) c >>> w
        = 2 ^ (w + w) * (rest >>> w) + (2 ^ w * (rest % 2 ^ w) + ones w (c / 2 ^ w)) := by
      have hsplit : lanes w (2 * (n + 1)) c
          = 2 ^ w * (2 ^ w * rest + ones w (c / 2 ^ w)) + ones w c := by
        rw [hword, Nat.pow_add]
        ring
      rw [hsplit, shiftRight_eq_div_pow, shiftRight_eq_div_pow, div_split _ hlow,
        Nat.pow_add]
      conv_lhs => rw [← div_add_mod rest (2 ^ w)]
      ring
    rw [hshift, hword, mask, and_mask_pair _ _ _ (mod_lt _ (Nat.two_pow_pos w)) hhigh,
      and_mask_pair _ _ _ hhigh hlow, lanes, ones_add w w c, Nat.pow_add,
      ← Nat.div_div_eq_div_mul, ← hih]
    ring

end BitCount
