import Mathlib.Algebra.Order.Group.Nat
import Mathlib.Data.List.Forall2

/-!
# The partition table of `ptgen`

`ptgen` lays partitions out one after another, each rounded up to a cylinder, and gives their
first and last sector also as cylinder, head and sector, packed into three bytes.
-/

namespace Ptgen

open Nat List

abbrev Chs := UInt8 × UInt8 × UInt8

structure Pte where
  active : UInt8
  chsStart : Chs
  type : UInt8
  chsEnd : Chs
  start : ℕ
  length : ℕ

structure Partinfo where
  size : ℕ
  type : UInt8

variable (heads sectors : ℕ)

def toChs (sect : ℕ) : Chs :=
  let s := sect % sectors + 1
  let h := sect / sectors % heads
  let c := sect / sectors / heads
  (.ofNat h, .ofNat (s ||| (c >>> 2 &&& 0xC0)), .ofNat (c &&& 0xFF))

def roundToCyl (sect : ℕ) : ℕ :=
  let cylSize := heads * sectors
  sect + cylSize - sect % cylSize

def genPtable (active : ℕ) : ℕ → ℕ → List Partinfo → Option (List Pte)
  | _, _, [] => some []
  | i, sect, p :: parts =>
    if p.size = 0 then none else
      let start := sect + sectors
      let sect := roundToCyl heads sectors (start + p.size * 2)
      let len := sect - start
      if 2 ^ 31 ≤ sect then none else
        (genPtable active (i + 1) sect parts).map
          (⟨if i + 1 = active then 0x80 else 0, toChs heads sectors start, p.type,
            toChs heads sectors (start + len - 1), start, len⟩ :: ·)

def rounded (sect : ℕ) (parts : List Partinfo) : ℕ :=
  parts.foldl (fun sect p => roundToCyl heads sectors (sect + sectors + p.size * 2)) sect

def ofChs (chs : Chs) : ℕ :=
  let c := (chs.2.1.toNat &&& 0xC0) <<< 2 ||| chs.2.2.toNat
  (c * heads + chs.1.toNat) * sectors + (chs.2.1.toNat &&& 0x3F) - 1

/-- An entry as large as requested, up to a cylinder boundary, with the sectors it names. -/
structure Holds (p : Partinfo) (e : Pte) : Prop where
  size : 2 * p.size ≤ e.length
  boundary : heads * sectors ∣ e.start + e.length
  first : e.start / sectors / heads < 1024 → ofChs heads sectors e.chsStart = e.start
  last : (e.start + e.length - 1) / sectors / heads < 1024 →
    ofChs heads sectors e.chsEnd = e.start + e.length - 1

variable {heads sectors}

section Geometry

variable (hh : 1 ≤ heads ∧ heads ≤ 255) (hs : 1 ≤ sectors ∧ sectors ≤ 63)

include hh hs

theorem ofChs_toChs {sect : ℕ} (hc : sect / sectors / heads < 1024) :
    ofChs heads sectors (toChs heads sectors sect) = sect := by
  have hsplit : (sect / sectors / heads * heads + sect / sectors % heads) * sectors
      + sect % sectors = sect := by
    rw [div_add_mod', div_add_mod']
  have hhead := Nat.mod_lt (sect / sectors) hh.1
  have hsect := Nat.mod_lt sect hs.1
  have hhigh : ∀ x < 256, x &&& 0xC0 = 2 ^ 6 * (x / 2 ^ 6) := by decide +kernel
  simp only [ofChs, toChs, UInt8.toNat_ofNat']
  generalize sect / sectors / heads = c at *
  have hpack : sect % sectors + 1 ||| (c >>> 2 &&& 0xC0)
      = 2 ^ 6 * (c / 2 ^ 8) + (sect % sectors + 1) := by
    rw [shiftRight_eq_div_pow, hhigh _ (by omega), Nat.or_comm,
      ← two_pow_add_eq_or_of_lt (by omega), Nat.div_div_eq_div_mul, ← Nat.pow_add]
  have hcyl : (2 ^ 6 * (c / 2 ^ 8)) <<< 2 ||| c % 2 ^ 8 = c := by
    rw [shiftLeft_eq, Nat.mul_right_comm, ← Nat.pow_add,
      ← two_pow_add_eq_or_of_lt (mod_lt _ (by decide)), div_add_mod]
  have hdiv : (2 ^ 6 * (c / 2 ^ 8) + (sect % sectors + 1)) / 2 ^ 6 = c / 2 ^ 8 := by omega
  rw [hpack, mod_eq_of_lt (by omega), hhigh _ (by omega), hdiv,
    and_two_pow_sub_one_eq_mod c 8, mod_mod, hcyl, and_two_pow_sub_one_eq_mod _ 6,
    mul_add_mod, mod_eq_of_lt (by omega : sect % sectors + 1 < 2 ^ 6),
    mod_eq_of_lt (by omega : sect / sectors % heads < 2 ^ 8)]
  exact hsplit

theorem lt_roundToCyl (sect : ℕ) :
    sect < roundToCyl heads sectors sect ∧ heads * sectors ∣ roundToCyl heads sectors sect := by
  have hmod := Nat.mod_lt sect (Nat.mul_pos hh.1 hs.1)
  have hdvd : heads * sectors ∣ _ := dvd_sub_mod sect
  have hle := mod_le sect (heads * sectors)
  rw [roundToCyl, Nat.sub_add_comm hle]
  exact ⟨by omega, Nat.dvd_add hdvd (Nat.dvd_refl _)⟩

theorem le_rounded (sect : ℕ) (parts : List Partinfo) :
    sect ≤ rounded heads sectors sect parts := by
  induction parts generalizing sect with
  | nil => exact le_rfl
  | cons p parts ih =>
    have hlt := (lt_roundToCyl hh hs (sect + sectors + p.size * 2)).1
    exact le_trans (show sect ≤ roundToCyl heads sectors _ by omega) (ih _)

theorem genPtable_spec (active : ℕ) {parts : List Partinfo} (i sect : ℕ)
    (hpos : ∀ p ∈ parts, 0 < p.size) (hfit : rounded heads sectors sect parts < 2 ^ 31) :
    ∃ ptes, genPtable heads sectors active i sect parts = some ptes ∧
      Forall₂ (Holds heads sectors) parts ptes ∧ (∀ e ∈ ptes, sect ≤ e.start) ∧
      ptes.Pairwise fun e e' => e.start + e.length ≤ e'.start := by
  induction parts generalizing i sect with
  | nil => exact ⟨[], rfl, .nil, nofun, .nil⟩
  | cons p parts ih =>
    rw [forall_mem_cons] at hpos
    obtain ⟨hlt, hdvd⟩ := lt_roundToCyl hh hs (sect + sectors + p.size * 2)
    change rounded heads sectors (roundToCyl heads sectors _) parts < 2 ^ 31 at hfit
    obtain ⟨ptes, heq, hall, hfrom, hpair⟩ := ih (i + 1) _ hpos.2 hfit
    have hend := (le_rounded hh hs _ _).trans_lt hfit
    rw [genPtable, if_neg hpos.1.ne', if_neg hend.not_ge, heq]
    refine ⟨_, rfl, .cons ⟨?_, ?_, ofChs_toChs hh hs, ofChs_toChs hh hs⟩ hall, ?_, ?_⟩
    · show 2 * p.size ≤ _ - _
      omega
    · show heads * sectors ∣ sect + sectors + (_ - _)
      rwa [Nat.add_sub_cancel' (by omega)]
    · refine forall_mem_cons.mpr ⟨Nat.le_add_right .., fun e he => ?_⟩
      exact le_trans (by omega) (hfrom e he)
    · refine .cons (fun e he => ?_) hpair
      have := hfrom e he
      show sect + sectors + (_ - _) ≤ _
      omega

end Geometry

/-- **Partitions are ordered and disjoint, each holds what was requested** – for every geometry
and all sizes whose rounded end is a sector number of 31 bits. -/
theorem genPtable_partitions (active : ℕ) (parts : List Partinfo)
    (hh : 1 ≤ heads ∧ heads ≤ 255) (hs : 1 ≤ sectors ∧ sectors ≤ 63)
    (hpos : ∀ p ∈ parts, 0 < p.size) (hfit : rounded heads sectors 0 parts < 2 ^ 31) :
    ∃ ptes, genPtable heads sectors active 0 0 parts = some ptes ∧
      Forall₂ (Holds heads sectors) parts ptes ∧
      ptes.Pairwise fun e e' => e.start + e.length ≤ e'.start := by
  obtain ⟨ptes, heq, hall, -, hpair⟩ := genPtable_spec hh hs active 0 0 hpos hfit
  exact ⟨ptes, heq, hall, hpair⟩

theorem genPtable_partitions_two : ∃ ptes,
    genPtable 16 63 1 0 0 [⟨4096, 0x83⟩, ⟨16384, 0x83⟩] = some ptes ∧
      Forall₂ (Holds 16 63) [⟨4096, 0x83⟩, ⟨16384, 0x83⟩] ptes ∧
      ptes.Pairwise fun e e' => e.start + e.length ≤ e'.start :=
  genPtable_partitions 1 _ (by decide) (by decide) (by decide) (by decide)

end Ptgen
