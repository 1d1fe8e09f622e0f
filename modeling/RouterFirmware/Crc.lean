import Mathlib.Data.List.GetD
import Mathlib.Logic.Function.Iterate

/-!
# Cyclic redundancy checks

A check of `w` bits, its lowest bit first: a remainder is shifted right once
for every bit of the message and takes the polynomial whenever a one falls out
of it.
-/

namespace Crc

open BitVec

variable {w : ℕ}

def shift (poly c : BitVec w) : BitVec w :=
  (c >>> 1) ^^^ (if c.getLsbD 0 then poly else 0#w)

def byte (poly c : BitVec w) (b : UInt8) : BitVec w :=
  (shift poly)^[8] (c ^^^ b.toBitVec.setWidth w)

def crc (poly init : BitVec w) (bytes : List UInt8) : BitVec w := bytes.foldl (byte poly) init

variable (poly : BitVec w)

theorem shift_xor (a b : BitVec w) : shift poly (a ^^^ b) = shift poly a ^^^ shift poly b := by
  have hout : (if (a ^^^ b).getLsbD 0 then poly else 0#w)
      = (if a.getLsbD 0 then poly else 0#w) ^^^ (if b.getLsbD 0 then poly else 0#w) := by
    rw [getLsbD_xor]
    cases a.getLsbD 0 <;> cases b.getLsbD 0 <;> simp
  unfold shift
  rw [hout, ushiftRight_xor_distrib]
  ac_rfl

theorem shifts_xor (n : ℕ) (a b : BitVec w) :
    (shift poly)^[n] (a ^^^ b) = (shift poly)^[n] a ^^^ (shift poly)^[n] b := by
  induction n generalizing a b with
  | zero => rfl
  | succ n ih => rw [Function.iterate_succ_apply, shift_xor, ih, ← Function.iterate_succ_apply,
      ← Function.iterate_succ_apply]

theorem shifts_of_low_clear {n : ℕ} {c : BitVec w} (h : ∀ i, i < n → c.getLsbD i = false) :
    (shift poly)^[n] c = c >>> n := by
  induction n generalizing c with
  | zero => exact (ushiftRight_zero c).symm
  | succ n ih =>
    have hshift : shift poly c = c >>> 1 := by
      rw [shift, h 0 n.succ_pos]
      exact xor_zero
    have hlow (i : ℕ) (hi : i < n) : (c >>> 1).getLsbD i = false := by
      rw [getLsbD_ushiftRight, Nat.add_comm]
      exact h (i + 1) (Nat.succ_lt_succ hi)
    rw [Function.iterate_succ_apply, hshift, ih hlow, ← shiftRight_add, Nat.add_comm]

theorem eq_low_xor_rest (mask c : BitVec w) : c = (c &&& mask) ^^^ (c &&& ~~~mask) := by
  refine eq_of_getLsbD_eq fun i hi => ?_
  rw [getLsbD_xor, getLsbD_and, getLsbD_and, getLsbD_not]
  cases mask.getLsbD i <;> simp [hi]

theorem shifts_eq_table (mask c : BitVec w) {n : ℕ}
    (hmask : ∀ i, i < w → mask.getLsbD i = decide (i < n)) :
    (shift poly)^[n] c = (shift poly)^[n] (c &&& mask) ^^^ (c >>> n) := by
  have hlow (i : ℕ) (hi : i < n) : (c &&& ~~~mask).getLsbD i = false := by
    rw [getLsbD_and, getLsbD_not]
    by_cases hw : i < w
    · rw [hmask i hw]
      simp [hi]
    · simp [hw]
  have hrest : (c &&& ~~~mask) >>> n = c >>> n := by
    ext i hi
    rw [getElem_ushiftRight, getElem_ushiftRight, getLsbD_and, getLsbD_not]
    by_cases hw : n + i < w
    · rw [hmask _ hw]
      simp [hw]
    · simp [hw, getLsbD_of_ge c _ (Nat.le_of_not_lt hw)]
  calc (shift poly)^[n] c
      = (shift poly)^[n] ((c &&& mask) ^^^ (c &&& ~~~mask)) := by rw [← eq_low_xor_rest]
    _ = (shift poly)^[n] (c &&& mask) ^^^ (shift poly)^[n] (c &&& ~~~mask) :=
        shifts_xor poly n _ _
    _ = (shift poly)^[n] (c &&& mask) ^^^ (c >>> n) := by
        rw [shifts_of_low_clear poly hlow, hrest]

def bit (poly c : BitVec w) (b : Bool) : BitVec w := shift poly (c ^^^ (ofBool b).setWidth w)

def bits (bytes : List UInt8) : List Bool :=
  bytes.flatMap fun b => (List.range 8).map b.toBitVec.getLsbD

theorem foldl_bit {u : List Bool} {c x : BitVec w} (hx : ∀ i, x.getLsbD i = u.getD i false) :
    u.foldl (bit poly) c = (shift poly)^[u.length] (c ^^^ x) := by
  induction u generalizing c x with
  | nil =>
    have hzero : x = 0#w := eq_of_getLsbD_eq fun i _ => by rw [hx, getLsbD_zero]; rfl
    rw [hzero, xor_zero]
    rfl
  | cons b u ih =>
    have hrest : ((ofBool b).setWidth w ^^^ x) >>> 1 = x >>> 1 := by
      refine eq_of_getLsbD_eq fun i _ => ?_
      simp
    have hlow (i : ℕ) (hi : i < 1) : ((ofBool b).setWidth w ^^^ x).getLsbD i = false := by
      obtain rfl := Nat.lt_one_iff.mp hi
      have hb : x.getLsbD 0 = b := hx 0
      cases w <;> simp [← hb]
    have hx' (i : ℕ) : (x >>> 1).getLsbD i = u.getD i false := by
      rw [getLsbD_ushiftRight, hx, Nat.add_comm]
      rfl
    rw [List.foldl_cons, ih hx', bit, ← hrest, ← shifts_of_low_clear poly hlow,
      Function.iterate_one, ← shift_xor, ← BitVec.xor_assoc, BitVec.xor_assoc c, BitVec.xor_self,
      xor_zero]
    rfl

theorem shift_injective {poly : BitVec w} (hpoly : poly.msb = true) :
    Function.Injective (shift poly) := by
  intro a b hab
  have hout (c : BitVec w) : (shift poly c).msb = c.getLsbD 0 := by
    rw [shift, msb_xor, msb_ushiftRight]
    cases c.getLsbD 0 <;> simp [hpoly]
  have hlow : a.getLsbD 0 = b.getLsbD 0 := by rw [← hout a, hab, hout b]
  have hrest : a >>> 1 = b >>> 1 := by
    rw [shift, shift, hlow] at hab
    exact (xor_left_inj _).mp hab
  refine eq_of_getLsbD_eq fun i _ => ?_
  cases i with
  | zero => exact hlow
  | succ i =>
    have hi := congrArg (·.getLsbD i) hrest
    simpa only [getLsbD_ushiftRight, Nat.add_comm] using hi

/-- **A burst no longer than the remainder is detected.** -/
theorem foldl_bit_ne {poly : BitVec w} (hpoly : poly.msb = true) (c : BitVec w)
    {p u v s : List Bool} (hlen : u.length = v.length) (hw : u.length ≤ w) (huv : u ≠ v) :
    (p ++ u ++ s).foldl (bit poly) c ≠ (p ++ v ++ s).foldl (bit poly) c := by
  have hval (u : List Bool) (hw : u.length ≤ w) :
      ∃ x : BitVec w, ∀ i, x.getLsbD i = u.getD i false := by
    refine ⟨(ofBoolListLE u).setWidth w, fun i => ?_⟩
    rw [getLsbD_setWidth, getLsbD_ofBoolListLE]
    by_cases hi : i < w
    · rw [decide_eq_true hi, Bool.true_and]
    · rw [decide_eq_false hi, List.getD_eq_default _ _ (Nat.le_trans hw (Nat.le_of_not_lt hi))]
      rfl
  have hsuffix (c c' : BitVec w) (h : s.foldl (bit poly) c = s.foldl (bit poly) c') : c = c' := by
    induction s generalizing c c' with
    | nil => exact h
    | cons b s ih => exact (xor_left_inj _).mp (shift_injective hpoly (ih _ _ h))
  obtain ⟨x, hx⟩ := hval u hw
  obtain ⟨y, hy⟩ := hval v (hlen ▸ hw)
  intro h
  rw [List.foldl_append, List.foldl_append, List.foldl_append, List.foldl_append] at h
  have hmid := hsuffix _ _ h
  rw [foldl_bit poly hx, foldl_bit poly hy, hlen] at hmid
  have hxy : x = y := (xor_right_inj _).mp ((shift_injective hpoly).iterate _ hmid)
  refine huv (List.ext_getElem hlen fun i hi hi' => ?_)
  rw [← List.getD_eq_getElem _ false, ← List.getD_eq_getElem _ false, ← hx, ← hy, hxy]

/-- **The check is the division bit by bit.** -/
theorem crc_eq_foldl_bit (init : BitVec w) (hw : 8 ≤ w) (bytes : List UInt8) :
    crc poly init bytes = (bits bytes).foldl (bit poly) init := by
  have hbyte (b : UInt8) (i : ℕ) : (b.toBitVec.setWidth w).getLsbD i
      = ((List.range 8).map b.toBitVec.getLsbD).getD i false := by
    rw [getLsbD_setWidth, List.getD_eq_getElem?_getD, List.getElem?_map]
    by_cases hi : i < 8
    · rw [List.getElem?_range hi, decide_eq_true (Nat.lt_of_lt_of_le hi hw)]
      rfl
    · simp [hi, getLsbD_of_ge b.toBitVec i (Nat.le_of_not_lt hi)]
  rw [bits, List.foldl_flatMap, crc]
  congr 1
  funext c b
  exact (foldl_bit poly (hbyte b)).symm

end Crc
