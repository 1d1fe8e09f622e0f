import RouterFirmware.Memory
import Mathlib.Data.List.TakeWhile

/-!
# C strings

A C string is a run of bytes without a zero; in memory the zero behind it says
where it ends. A `CString` carries the proof that it has none, so that a text
which would end early in memory cannot be built.

The length of a string is a number of bytes: what `strlen` counts and what
`strncpy` and `snprintf` cut at. No encoding of characters is assumed.

The second half reads strings out of memory. `Memory.readCStr` and
`Memory.strchr` scan a bounded number of cells and give `none` where the scan
would leave them; each has one lemma that says when it finds what, and one that
says when it leaves.
-/

/-- **A C string**: bytes none of which is the terminating zero. -/
@[ext]
structure CString where
  /-- The bytes of the string, without the zero. -/
  bytes : List UInt8
  /-- The zero ends the string. -/
  noZero : (0 : UInt8) ∉ bytes
deriving DecidableEq

namespace CString

open List

def length (s : CString) : ℕ := s.bytes.length

def ofString (s : String)
    (h : (0 : UInt8) ∉ s.toList.map (fun c => UInt8.ofNat c.toNat)) : CString :=
  ⟨s.toList.map (fun c => UInt8.ofNat c.toNat), h⟩

def take (n : ℕ) (s : CString) : CString :=
  ⟨s.bytes.take n, fun h => s.noZero (mem_of_mem_take h)⟩

def ofBuffer (buf : List UInt8) : CString :=
  ⟨buf.takeWhile (· ≠ 0), fun h => by simpa using mem_takeWhile_imp h⟩

def nil : CString := ⟨[], not_mem_nil⟩

def cons (c : UInt8) (h : c ≠ 0) (s : CString) : CString :=
  ⟨c :: s.bytes, by
    rw [mem_cons, not_or]
    exact ⟨h.symm, s.noZero⟩⟩

theorem eq_nil_or_cons (s : CString) : s = nil ∨ ∃ c h s', s = cons c h s' := by
  obtain ⟨l, hl⟩ := s
  cases l with
  | nil => exact .inl rfl
  | cons c l =>
    rw [mem_cons, not_or] at hl
    exact .inr ⟨c, fun h => hl.1 h.symm, ⟨l, hl.2⟩, rfl⟩

theorem cons_inj {c c' : UInt8} {h : c ≠ 0} {h' : c' ≠ 0} {s s' : CString} :
    cons c h s = cons c' h' s' ↔ c = c' ∧ s = s' := by
  cases s
  cases s'
  simp [cons]

end CString

namespace Memory

variable (m : Bytes)

def readCStr (pos : ℕ) : ℕ → Option CString
  | 0 => none
  | n + 1 =>
    if h : m pos = 0 then some .nil
    else (readCStr (pos + 1) n).map (CString.cons (m pos) h)

def strchr (c : UInt8) (pos : ℕ) : ℕ → Option (Option ℕ)
  | 0 => none
  | n + 1 =>
    if m pos = c then some (some pos)
    else if m pos = 0 then some none
    else strchr c (pos + 1) n

variable {pos n : ℕ}

theorem readCStr_eq_some_iff {s : CString} : m.readCStr pos n = some s
    ↔ m.slice pos s.length = s.bytes ∧ m (pos + s.length) = 0 ∧ s.length < n := by
  induction n generalizing pos s with
  | zero => simp [readCStr]
  | succ n ih =>
    unfold readCStr
    rcases s.eq_nil_or_cons with rfl | ⟨c, hc, s, rfl⟩
    · by_cases h0 : m pos = 0 <;>
        simp [h0, CString.nil, CString.cons, CString.length]
    · have hlen : (CString.cons c hc s).length = s.length + 1 := rfl
      have hbytes : (CString.cons c hc s).bytes = c :: s.bytes := rfl
      rw [hlen, hbytes, slice_succ, List.cons.injEq, Nat.add_lt_add_iff_right,
        show pos + (s.length + 1) = pos + 1 + s.length by omega, and_assoc, ← ih]
      by_cases h0 : m pos = 0
      · rw [dif_pos h0]
        refine iff_of_false (by simp [CString.nil, CString.cons]) fun h => ?_
        exact hc (h.1.symm.trans h0)
      · rw [dif_neg h0, Option.map_eq_some_iff]
        constructor
        · rintro ⟨s', hs', h⟩
          obtain ⟨hpos, rfl⟩ := CString.cons_inj.mp h
          exact ⟨hpos, hs'⟩
        · rintro ⟨hpos, hs⟩
          exact ⟨s, hs, CString.cons_inj.mpr ⟨hpos, rfl⟩⟩

theorem forall_range_succ_iff {P : ℕ → Prop} : (∀ i, pos ≤ i → i < pos + (n + 1) → P i)
    ↔ P pos ∧ ∀ i, pos + 1 ≤ i → i < pos + 1 + n → P i := by
  refine ⟨fun h => ⟨h pos (Nat.le_refl _) (by omega),
    fun i hi hlt => h i (by omega) (by omega)⟩, ?_⟩
  rintro ⟨h0, h⟩ i hi hlt
  rcases Nat.eq_or_lt_of_le hi with rfl | hi
  · exact h0
  · exact h i hi (by omega)

theorem readCStr_eq_none_iff : m.readCStr pos n = none ↔ ∀ i, pos ≤ i → i < pos + n → m i ≠ 0 := by
  induction n generalizing pos with
  | zero => exact ⟨fun _ i h h' => absurd h (by omega), fun _ => rfl⟩
  | succ n ih =>
    rw [forall_range_succ_iff]
    unfold readCStr
    by_cases h0 : m pos = 0
    · rw [dif_pos h0]
      exact iff_of_false (by simp) fun h => h.1 h0
    · rw [dif_neg h0, Option.map_eq_none_iff, ih, and_iff_right h0]

theorem strchr_eq_none_iff {c : UInt8} :
    m.strchr c pos n = none ↔ ∀ i, pos ≤ i → i < pos + n → m i ≠ c ∧ m i ≠ 0 := by
  induction n generalizing pos with
  | zero => exact ⟨fun _ i h h' => absurd h (by omega), fun _ => rfl⟩
  | succ n ih =>
    rw [forall_range_succ_iff]
    unfold strchr
    by_cases hc : m pos = c
    · rw [if_pos hc]
      exact iff_of_false (by simp) fun h => h.1.1 hc
    by_cases h0 : m pos = 0
    · rw [if_neg hc, if_pos h0]
      exact iff_of_false (by simp) fun h => h.1.2 h0
    rw [if_neg hc, if_neg h0, ih, and_iff_right ⟨hc, h0⟩]

theorem exists_zero_of_strchr {c : UInt8} (h : m.strchr c pos n = some none) :
    ∃ z, pos ≤ z ∧ z < pos + n ∧ m z = 0 ∧ ∀ i, pos ≤ i → i < z → m i ≠ c ∧ m i ≠ 0 := by
  induction n generalizing pos with
  | zero => cases h
  | succ n ih =>
    unfold strchr at h
    by_cases hc : m pos = c
    · rw [if_pos hc] at h
      cases h
    rw [if_neg hc] at h
    by_cases h0 : m pos = 0
    · exact ⟨pos, Nat.le_refl _, by omega, h0, fun i hi hlt => absurd hi (by omega)⟩
    rw [if_neg h0] at h
    obtain ⟨z, hz, hlt, hzero, hfirst⟩ := ih h
    refine ⟨z, by omega, by omega, hzero, fun i hi hiz => ?_⟩
    rcases Nat.eq_or_lt_of_le hi with rfl | hi
    · exact ⟨hc, h0⟩
    · exact hfirst i hi hiz

theorem strchr_eq_some_iff {c : UInt8} {p : ℕ} : m.strchr c pos n = some (some p)
    ↔ pos ≤ p ∧ p < pos + n ∧ m p = c ∧ ∀ i, pos ≤ i → i < p → m i ≠ c ∧ m i ≠ 0 := by
  induction n generalizing pos with
  | zero =>
    refine iff_of_false (by simp [strchr]) ?_
    rintro ⟨h, h', -⟩
    omega
  | succ n ih =>
    unfold strchr
    by_cases hc : m pos = c
    · rw [if_pos hc]
      constructor
      · rintro ⟨⟩
        exact ⟨Nat.le_refl _, by omega, hc, fun i h h' => absurd h (by omega)⟩
      · rintro ⟨hle, -, -, hfirst⟩
        rcases Nat.eq_or_lt_of_le hle with rfl | hlt
        · rfl
        · exact absurd hc (hfirst pos (Nat.le_refl _) hlt).1
    · rw [if_neg hc]
      by_cases h0 : m pos = 0
      · rw [if_pos h0]
        refine iff_of_false (by simp) ?_
        rintro ⟨hle, -, hp, hfirst⟩
        rcases Nat.eq_or_lt_of_le hle with rfl | hlt
        · exact hc hp
        · exact (hfirst pos (Nat.le_refl _) hlt).2 h0
      · rw [if_neg h0, ih]
        constructor
        · rintro ⟨hle, hlt, hp, hfirst⟩
          refine ⟨by omega, by omega, hp, fun i hi hip => ?_⟩
          rcases Nat.eq_or_lt_of_le hi with rfl | hlt
          · exact ⟨hc, h0⟩
          · exact hfirst i hlt hip
        · rintro ⟨hle, hlt, hp, hfirst⟩
          have hne : pos ≠ p := by
            rintro rfl
            exact hc hp
          exact ⟨by omega, by omega, hp, fun i hi hip => hfirst i (by omega) hip⟩

end Memory
