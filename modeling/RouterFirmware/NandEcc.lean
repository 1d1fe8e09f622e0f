import Mathlib.Data.Fintype.Prod
import Mathlib.Data.Nat.Digits.Defs
import Mathlib.Tactic.IntervalCases

/-!
# The error correction code of nand_ecc

The code of a block of 256 bytes is three bytes: beside the parity of a half of
the bits it has the parity of the other half.
-/

namespace NandEcc

open Function

def nandEccPrecalcTable : Array (BitVec 8) :=
  #[0x00, 0x55, 0x56, 0x03, 0x59, 0x0c, 0x0f, 0x5a, 0x5a, 0x0f, 0x0c, 0x59, 0x03, 0x56, 0x55, 0x00,
    0x65, 0x30, 0x33, 0x66, 0x3c, 0x69, 0x6a, 0x3f, 0x3f, 0x6a, 0x69, 0x3c, 0x66, 0x33, 0x30, 0x65,
    0x66, 0x33, 0x30, 0x65, 0x3f, 0x6a, 0x69, 0x3c, 0x3c, 0x69, 0x6a, 0x3f, 0x65, 0x30, 0x33, 0x66,
    0x03, 0x56, 0x55, 0x00, 0x5a, 0x0f, 0x0c, 0x59, 0x59, 0x0c, 0x0f, 0x5a, 0x00, 0x55, 0x56, 0x03,
    0x69, 0x3c, 0x3f, 0x6a, 0x30, 0x65, 0x66, 0x33, 0x33, 0x66, 0x65, 0x30, 0x6a, 0x3f, 0x3c, 0x69,
    0x0c, 0x59, 0x5a, 0x0f, 0x55, 0x00, 0x03, 0x56, 0x56, 0x03, 0x00, 0x55, 0x0f, 0x5a, 0x59, 0x0c,
    0x0f, 0x5a, 0x59, 0x0c, 0x56, 0x03, 0x00, 0x55, 0x55, 0x00, 0x03, 0x56, 0x0c, 0x59, 0x5a, 0x0f,
    0x6a, 0x3f, 0x3c, 0x69, 0x33, 0x66, 0x65, 0x30, 0x30, 0x65, 0x66, 0x33, 0x69, 0x3c, 0x3f, 0x6a,
    0x6a, 0x3f, 0x3c, 0x69, 0x33, 0x66, 0x65, 0x30, 0x30, 0x65, 0x66, 0x33, 0x69, 0x3c, 0x3f, 0x6a,
    0x0f, 0x5a, 0x59, 0x0c, 0x56, 0x03, 0x00, 0x55, 0x55, 0x00, 0x03, 0x56, 0x0c, 0x59, 0x5a, 0x0f,
    0x0c, 0x59, 0x5a, 0x0f, 0x55, 0x00, 0x03, 0x56, 0x56, 0x03, 0x00, 0x55, 0x0f, 0x5a, 0x59, 0x0c,
    0x69, 0x3c, 0x3f, 0x6a, 0x30, 0x65, 0x66, 0x33, 0x33, 0x66, 0x65, 0x30, 0x6a, 0x3f, 0x3c, 0x69,
    0x03, 0x56, 0x55, 0x00, 0x5a, 0x0f, 0x0c, 0x59, 0x59, 0x0c, 0x0f, 0x5a, 0x00, 0x55, 0x56, 0x03,
    0x66, 0x33, 0x30, 0x65, 0x3f, 0x6a, 0x69, 0x3c, 0x3c, 0x69, 0x6a, 0x3f, 0x65, 0x30, 0x33, 0x66,
    0x65, 0x30, 0x33, 0x66, 0x3c, 0x69, 0x6a, 0x3f, 0x3f, 0x6a, 0x69, 0x3c, 0x66, 0x33, 0x30, 0x65,
    0x00, 0x55, 0x56, 0x03, 0x59, 0x0c, 0x0f, 0x5a, 0x5a, 0x0f, 0x0c, 0x59, 0x03, 0x56, 0x55, 0x00]

/-- The variables `reg1`, `reg2` and `reg3`, or the bytes of `ecc_code`. -/
abbrev Three := BitVec 8 × BitVec 8 × BitVec 8

def turn (r : Three) (i : Fin 256) (x : BitVec 8) : Three :=
  let (reg1, reg2, reg3) := r
  let idx := nandEccPrecalcTable.getD x.toNat 0
  let reg1 := reg1 ^^^ (idx &&& 0x3f)
  if idx &&& 0x40 ≠ 0 then (reg1, reg2 ^^^ ~~~.ofNat 8 i, reg3 ^^^ .ofNat 8 i)
  else (reg1, reg2, reg3)

def code (r : Three) : Three :=
  let (reg1, reg2, reg3) := r
  let tmp1 := (reg3 &&& 0x80) >>> 0 ||| (reg2 &&& 0x80) >>> 1 ||| (reg3 &&& 0x40) >>> 1
    ||| (reg2 &&& 0x40) >>> 2 ||| (reg3 &&& 0x20) >>> 2 ||| (reg2 &&& 0x20) >>> 3
    ||| (reg3 &&& 0x10) >>> 3 ||| (reg2 &&& 0x10) >>> 4
  let tmp2 := (reg3 &&& 0x08) <<< 4 ||| (reg2 &&& 0x08) <<< 3 ||| (reg3 &&& 0x04) <<< 3
    ||| (reg2 &&& 0x04) <<< 2 ||| (reg3 &&& 0x02) <<< 2 ||| (reg2 &&& 0x02) <<< 1
    ||| (reg3 &&& 0x01) <<< 1 ||| (reg2 &&& 0x01) <<< 0
  (~~~tmp1, ~~~tmp2, (~~~reg1) <<< 2 ||| 0x03)

abbrev Block := Fin 256 → BitVec 8

def nandCalculateEcc (dat : Block) : Three :=
  code ((List.finRange 256).foldl (fun r i => turn r i (dat i)) (0, 0, 0))

/-! ## The code is linear -/

instance : XorOp Three := ⟨fun r s => (r.1 ^^^ s.1, r.2.1 ^^^ s.2.1, r.2.2 ^^^ s.2.2)⟩

theorem xor_def (r s : Three) : r ^^^ s = (r.1 ^^^ s.1, r.2.1 ^^^ s.2.1, r.2.2 ^^^ s.2.2) := rfl

theorem code_xor (r s : Three) : code (r ^^^ s) ^^^ code r = code s ^^^ code (0, 0, 0) := by
  have hbit (a b : Bool) : (a != (b != a)) = b := by cases a <;> cases b <;> rfl
  refine Prod.ext ?_ (Prod.ext ?_ ?_)
  all_goals
    refine BitVec.eq_of_getLsbD_eq fun k hk => ?_
    interval_cases k <;> simp [code, xor_def, hbit]

def pick (c : Bool) (v : BitVec 8) : BitVec 8 := if c then v else 0

theorem pick_xor (a b : Bool) (v : BitVec 8) : pick (a ^^ b) v = pick a v ^^^ pick b v := by
  cases a <;> cases b <;> simp [pick]

def parities (x : BitVec 8) : BitVec 8 :=
  [0x55, 0x56, 0x59, 0x5a, 0x65, 0x66, 0x69, 0x6a].zipIdx.foldl
    (fun t e => t ^^^ pick (x.getLsbD e.2) e.1) 0

theorem table_toList :
    nandEccPrecalcTable.toList = (List.range 256).map fun i => parities (.ofNat 8 i) := by
  decide +kernel

theorem table_getD (x : BitVec 8) : nandEccPrecalcTable.getD x.toNat 0 = parities x := by
  rw [Array.getD_eq_getD_getElem?, ← Array.getElem?_toList, table_toList, List.getElem?_map,
    List.getElem?_range x.isLt, Option.map_some, BitVec.ofNat_toNat, BitVec.setWidth_eq]
  rfl

theorem parities_xor (x y : BitVec 8) : parities (x ^^^ y) = parities x ^^^ parities y := by
  have hfold (l : List (BitVec 8 × ℕ)) (s t : BitVec 8) :
      l.foldl (fun t e => t ^^^ pick ((x ^^^ y).getLsbD e.2) e.1) (s ^^^ t)
        = l.foldl (fun t e => t ^^^ pick (x.getLsbD e.2) e.1) s
          ^^^ l.foldl (fun t e => t ^^^ pick (y.getLsbD e.2) e.1) t := by
    induction l generalizing s t with
    | nil => rfl
    | cons e l ih =>
      rw [List.foldl_cons, List.foldl_cons, List.foldl_cons, ← ih, BitVec.getLsbD_xor, pick_xor]
      congr 1
      ac_rfl
  exact hfold _ 0 0

def share (i : Fin 256) (x : BitVec 8) : Three :=
  let odd := (parities x).getLsbD 6
  (parities x &&& 0x3f, pick odd (~~~.ofNat 8 i), pick odd (.ofNat 8 i))

theorem turn_eq (r : Three) (i : Fin 256) (x : BitVec 8) : turn r i x = r ^^^ share i x := by
  have hparity : ∀ t : BitVec 8, t &&& 0x40 ≠ 0 ↔ t.getLsbD 6 = true := by decide +kernel
  simp only [turn, table_getD, hparity, share, xor_def, pick]
  split_ifs <;> simp

theorem share_xor (i : Fin 256) (x y : BitVec 8) : share i (x ^^^ y) = share i x ^^^ share i y := by
  have hand (a b m : BitVec 8) : (a ^^^ b) &&& m = (a &&& m) ^^^ (b &&& m) := by
    ext k
    simp [Bool.and_xor_distrib_right]
  simp only [share, parities_xor, BitVec.getLsbD_xor, pick_xor, xor_def, hand]

/-! ## Errors of one bit and of two -/

def flip (dat : Block) (p : Fin 256 × Fin 8) : Block :=
  update dat p.1 (dat p.1 ^^^ 1#8 <<< p.2.val)

def syndrome (p : Fin 256 × Fin 8) : Three :=
  code (share p.1 (1#8 <<< p.2.val)) ^^^ code (0, 0, 0)

theorem foldl_turn_xor (dat : Block) (l : List (Fin 256)) (r s : Three) :
    l.foldl (fun r i => turn r i (dat i)) (r ^^^ s)
      = l.foldl (fun r i => turn r i (dat i)) r ^^^ s := by
  refine List.foldl_hom (· ^^^ s) fun r i => ?_
  have hcomm (a b c : BitVec 8) : a ^^^ b ^^^ c = a ^^^ c ^^^ b := by ac_rfl
  rw [turn_eq, turn_eq]
  exact Prod.ext (hcomm ..) (Prod.ext (hcomm ..) (hcomm ..))

theorem foldl_turn_flip (dat : Block) (p : Fin 256 × Fin 8) {l : List (Fin 256)} (hl : l.Nodup)
    (hp : p.1 ∈ l) (r : Three) : l.foldl (fun r i => turn r i (flip dat p i)) r
    = l.foldl (fun r i => turn r i (dat i)) r ^^^ share p.1 (1#8 <<< p.2.val) := by
  induction l generalizing r with
  | nil => exact nomatch hp
  | cons i l ih =>
    obtain ⟨hi, hl⟩ := List.nodup_cons.mp hl
    rw [List.foldl_cons, List.foldl_cons]
    by_cases hpi : i = p.1
    · have hrest (j : Fin 256) (hj : j ∈ l) : flip dat p j = dat j :=
        update_of_ne (ne_of_mem_of_not_mem hj (hpi ▸ hi)) ..
      have hassoc (a b c : BitVec 8) : a ^^^ (b ^^^ c) = a ^^^ b ^^^ c := by ac_rfl
      rw [List.foldl_ext _ (fun r i => turn r i (dat i)) _ fun r j hj => by rw [hrest j hj],
        ← foldl_turn_xor, turn_eq, turn_eq, hpi, flip, update_self, share_xor]
      exact congrArg (List.foldl _ · l) (Prod.ext (hassoc ..) (Prod.ext (hassoc ..) (hassoc ..)))
    · rw [ih hl ((List.mem_cons.mp hp).resolve_left (Ne.symm hpi)), flip, update_of_ne hpi]

theorem ecc_flip (dat : Block) (p : Fin 256 × Fin 8) :
    nandCalculateEcc (flip dat p) ^^^ nandCalculateEcc dat = syndrome p := by
  rw [nandCalculateEcc, foldl_turn_flip dat p (List.nodup_finRange 256) (List.mem_finRange _),
    nandCalculateEcc, code_xor, syndrome]

def oddBits (x y : BitVec 8) : ℕ :=
  Nat.ofDigits 2 ([x, y].flatMap fun x => [1, 3, 5, 7].map fun k => (x.getLsbD k).toNat)

/-- **The syndrome says where the wrong bit is**, and the two halves of a parity differ in it. -/
theorem syndrome_spec (p : Fin 256 × Fin 8) :
    oddBits (syndrome p).2.1 (syndrome p).1 = p.1 ∧ oddBits (syndrome p).2.2 0 = 2 * p.2.val
      ∧ (syndrome p).2.2.getLsbD 2 = !(syndrome p).2.2.getLsbD 3 := by
  have hline : ∀ i : BitVec 8, oddBits (code (0, ~~~i, i) ^^^ code (0, 0, 0)).2.1
      (code (0, ~~~i, i) ^^^ code (0, 0, 0)).1 = i.toNat := by decide +kernel
  have hcolumn : ∀ b : Fin 8, (parities (1#8 <<< b.val)).getLsbD 6 = true
      ∧ oddBits (syndrome (0, b)).2.2 0 = 2 * b.val
      ∧ (syndrome (0, b)).2.2.getLsbD 2 = !(syndrome (0, b)).2.2.getLsbD 3 := by decide +kernel
  obtain ⟨hodd, hbits⟩ := hcolumn p.2
  refine ⟨?_, hbits⟩
  rw [syndrome, share, hodd]
  exact (hline (.ofNat 8 p.1)).trans (Nat.mod_eq_of_lt p.1.isLt)

theorem syndrome_injective : Injective syndrome := by
  intro p q h
  obtain ⟨hline, hcolumn, -⟩ := syndrome_spec p
  rw [h, (syndrome_spec q).1] at hline
  rw [h, (syndrome_spec q).2.1] at hcolumn
  exact Prod.ext (Fin.ext hline.symm) (Fin.ext (Nat.mul_left_cancel Nat.two_pos hcolumn).symm)

/-- **One wrong bit is found and two are noticed.** -/
theorem nandCalculateEcc_errors : Injective syndrome
    ∧ (∀ dat p, nandCalculateEcc (flip dat p) ^^^ nandCalculateEcc dat = syndrome p)
    ∧ ∀ dat p q, p ≠ q →
      nandCalculateEcc (flip (flip dat p) q) ^^^ nandCalculateEcc dat ≠ (0, 0, 0)
        ∧ ∀ r, nandCalculateEcc (flip (flip dat p) q) ^^^ nandCalculateEcc dat ≠ syndrome r := by
  refine ⟨syndrome_injective, ecc_flip, fun dat p q hpq => ?_⟩
  have htwo : nandCalculateEcc (flip (flip dat p) q) ^^^ nandCalculateEcc dat
      = syndrome q ^^^ syndrome p := by
    have hmid (a b c : BitVec 8) : a ^^^ c = a ^^^ b ^^^ (b ^^^ c) := by
      rw [BitVec.xor_assoc, ← BitVec.xor_assoc b, BitVec.xor_self, BitVec.zero_xor]
    rw [← ecc_flip (flip dat p) q, ← ecc_flip dat p]
    exact Prod.ext (hmid ..) (Prod.ext (hmid ..) (hmid ..))
  rw [htwo]
  refine ⟨fun h => hpq (syndrome_injective ?_), fun r h => ?_⟩
  · obtain ⟨h₀, h⟩ := Prod.mk.inj h
    obtain ⟨h₁, h₂⟩ := Prod.mk.inj h
    exact Prod.ext (BitVec.xor_eq_zero_iff.mp h₀).symm (Prod.ext
      (BitVec.xor_eq_zero_iff.mp h₁).symm (BitVec.xor_eq_zero_iff.mp h₂).symm)
  · have h₂ := congrArg (·.2.2.getLsbD 2) h
    have h₃ := congrArg (·.2.2.getLsbD 3) h
    simp only [xor_def, BitVec.getLsbD_xor, (syndrome_spec _).2.2] at h₂ h₃
    rw [← h₃] at h₂
    simp at h₂

end NandEcc
