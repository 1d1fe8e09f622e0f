import Mathlib.Data.List.GetD
import Mathlib.Tactic.Common

/-!
# Memories

A memory gives every address a cell.
-/

/-- A memory, every address of which has a cell. -/
abbrev Memory (α : Type) := ℕ → α

/-- A memory of bytes, as a C program addresses it. -/
abbrev Bytes := Memory UInt8

namespace Memory

open List

variable {α : Type} {c : ℕ}

def slice (m : Memory α) (a n : ℕ) : List α := (List.range n).map (fun i => m (a + i))

def blit (m : Memory α) (a : ℕ) (xs : List α) : Memory α :=
  fun i => if a ≤ i then xs.getD (i - a) (m i) else m i

variable (m : Memory α) {n : ℕ} {xs : List α}

include m

@[simp] theorem length_slice (a n : ℕ) : (m.slice a n).length = n := by
  simp [slice]

@[simp] theorem slice_zero (a : ℕ) : m.slice a 0 = [] := rfl

@[simp] theorem getElem_slice (a n i : ℕ) (h : i < (m.slice a n).length) :
    (m.slice a n)[i] = m (a + i) := by
  simp [slice]

omit m in
theorem slice_congr {m m' : Memory α} {a a' : ℕ}
    (h : ∀ i < n, m (a + i) = m' (a' + i)) : m.slice a n = m'.slice a' n := by
  refine map_congr_left fun i hi => h i (mem_range.mp hi)

omit m in
theorem slice_eq_iff {m : Memory α} {a : ℕ} :
    m.slice a xs.length = xs ↔ ∀ (i : ℕ) (h : i < xs.length), m (a + i) = xs[i] := by
  constructor
  · intro h i hi
    have hs := getElem_slice m a xs.length i (by rw [length_slice]; exact hi)
    rw [← hs]
    simp only [h]
  · intro h
    refine ext_getElem (length_slice ..) fun i _ hi => ?_
    rw [getElem_slice]
    exact h i hi

theorem slice_add (a n k : ℕ) : m.slice a (n + k) = m.slice a n ++ m.slice (a + n) k := by
  simp only [slice, range_add, map_append, map_map]
  congr 1
  refine map_congr_left fun i _ => ?_
  simp [Nat.add_assoc]

theorem slice_succ (a n : ℕ) : m.slice a (n + 1) = m a :: m.slice (a + 1) n := by
  rw [Nat.add_comm, slice_add]
  rfl

theorem drop_slice {k : ℕ} (a : ℕ) (h : k ≤ n) :
    (m.slice a n).drop k = m.slice (a + k) (n - k) := by
  obtain ⟨j, rfl⟩ := Nat.exists_eq_add_of_le h
  rw [slice_add, drop_left' (length_slice ..), Nat.add_sub_cancel_left]

theorem take_slice {k : ℕ} (a : ℕ) (h : k ≤ n) : (m.slice a n).take k = m.slice a k := by
  obtain ⟨j, rfl⟩ := Nat.exists_eq_add_of_le h
  rw [slice_add, take_left' (length_slice ..)]

omit m in
theorem slice_eq_of_le {k : ℕ} {m m' : Memory α} {a b : ℕ} (h : m.slice a n = m'.slice b n)
    (hk : k ≤ n) : m.slice a k = m'.slice b k := by
  obtain ⟨j, rfl⟩ := Nat.exists_eq_add_of_le hk
  rw [slice_add, slice_add] at h
  exact (append_inj h (by simp)).1

omit m in
theorem slice_append_iff {ys : List α} {m : Memory α} {a : ℕ} :
    m.slice a (xs ++ ys).length = xs ++ ys
      ↔ m.slice a xs.length = xs ∧ m.slice (a + xs.length) ys.length = ys := by
  rw [length_append, slice_add]
  constructor
  · intro h
    exact append_inj h (length_slice ..)
  · rintro ⟨h, h'⟩
    rw [h, h']

theorem blit_of_outside {i a : ℕ} (h : i < a ∨ a + xs.length ≤ i) : m.blit a xs i = m i := by
  unfold blit
  by_cases ha : a ≤ i
  · rw [if_pos ha, getD_eq_default _ _ (by omega)]
  · rw [if_neg ha]

variable (a : ℕ)

include a

theorem blit_of_inside {i : ℕ} (h : i < xs.length) : m.blit a xs (a + i) = xs[i] := by
  unfold blit
  rw [if_pos (Nat.le_add_right a i), Nat.add_sub_cancel_left, getD_eq_getElem _ _ h]

theorem blit_cons_self (x : α) (xs : List α) : m.blit a (x :: xs) a = x := by
  have h : 0 < (x :: xs).length := Nat.zero_lt_succ _
  exact blit_of_inside m a h

omit a in
theorem slice_blit_of_disjoint {a b : ℕ}
    (h : b + n ≤ a ∨ a + xs.length ≤ b) : (m.blit a xs).slice b n = m.slice b n :=
  slice_congr fun i hi => blit_of_outside m (by omega)

@[simp] theorem slice_blit_self (xs : List α) : (m.blit a xs).slice a xs.length = xs :=
  slice_eq_iff.mpr fun _ hi => blit_of_inside m a hi

theorem slice_blit_slice (m' : Memory α) (b n : ℕ) :
    (m.blit a (m'.slice b n)).slice a n = m'.slice b n := by
  have h := m.slice_blit_self a (m'.slice b n)
  rwa [length_slice] at h

theorem slice_blit_append (n : ℕ) (xs : List α) :
    (m.blit (a + n) xs).slice a (n + xs.length) = m.slice a n ++ xs := by
  rw [slice_add, slice_blit_of_disjoint m (Or.inl (Nat.le_refl _)), slice_blit_self]

theorem blit_nil : m.blit a [] = m :=
  funext fun _ => blit_of_outside m (by rw [length_nil]; omega)

theorem blit_append (xs ys : List α) :
    (m.blit a xs).blit (a + xs.length) ys = m.blit a (xs ++ ys) := by
  funext i
  by_cases hlo : i < a
  · rw [blit_of_outside _ (by omega), blit_of_outside _ (by omega), blit_of_outside _ (by omega)]
  obtain ⟨k, rfl⟩ := Nat.exists_eq_add_of_le (Nat.le_of_not_lt hlo)
  by_cases hxs : k < xs.length
  · rw [blit_of_outside _ (by omega), blit_of_inside _ _ hxs,
      blit_of_inside _ _ (by simp; omega), getElem_append_left hxs]
  obtain ⟨j, rfl⟩ := Nat.exists_eq_add_of_le (Nat.le_of_not_lt hxs)
  by_cases hys : j < ys.length
  · rw [← Nat.add_assoc, blit_of_inside _ _ hys, Nat.add_assoc,
      blit_of_inside _ _ (by simp; omega), getElem_append_right (by omega)]
    simp
  · rw [blit_of_outside _ (by omega), blit_of_outside _ (by omega),
      blit_of_outside _ (by simp; omega)]

theorem blit_blit_restore {ys : List α} (hlen : ys.length = xs.length)
    (h : m.slice a xs.length = xs) : (m.blit a ys).blit a xs = m := by
  funext i
  by_cases hin : a ≤ i ∧ i < a + xs.length
  · obtain ⟨k, rfl⟩ := Nat.exists_eq_add_of_le hin.1
    have hk : k < xs.length := by omega
    rw [blit_of_inside _ _ hk, slice_eq_iff.mp h k hk]
  · rw [blit_of_outside _ (by omega), blit_of_outside _ (by omega)]

omit a

omit m

def drop (m : Memory α) (s : ℕ) : Memory α := fun i => m (s + i)

theorem slice_drop (m : Memory α) (s a n : ℕ) : (m.drop s).slice a n = m.slice (s + a) n :=
  map_congr_left fun i _ => congrArg m (Nat.add_assoc s a i).symm

/-! ## Ranges -/

def EqOn (m m' : Memory α) (a b : ℕ) : Prop := ∀ i, a ≤ i → i < b → m i = m' i

def EqOff (m m' : Memory α) (a b : ℕ) : Prop := ∀ i, i < a ∨ b ≤ i → m i = m' i

variable {m m' : Memory α} {a b : ℕ} (h : EqOn m m' a b)

include h

theorem EqOn.symm : EqOn m' m a b := fun i ha hb => (h i ha hb).symm

theorem EqOn.trans {m'' : Memory α} (h' : EqOn m' m'' a b) : EqOn m m'' a b :=
  fun i ha hb => (h i ha hb).trans (h' i ha hb)

theorem EqOn.mono {d : ℕ} (ha : a ≤ c) (hb : d ≤ b) : EqOn m m' c d :=
  fun i hc hd => h i (by omega) (by omega)

omit h in
theorem EqOff.trans {m'' : Memory α} (h : EqOff m m' a b) (h' : EqOff m' m'' a b) :
    EqOff m m'' a b :=
  fun i hi => (h i hi).trans (h' i hi)

omit h in
theorem EqOff.mono {d : ℕ} (h : EqOff m m' a b) (ha : c ≤ a) (hb : b ≤ d) : EqOff m m' c d :=
  fun i hi => h i (by omega)

omit h in
theorem EqOff.eqOn {d : ℕ} (h : EqOff m m' a b) (hd : d ≤ a ∨ b ≤ c) : EqOn m m' c d :=
  fun i hc hi => h i (by omega)

theorem EqOn.append (h' : EqOn m m' b c) : EqOn m m' a c := by
  intro i ha hc
  rcases Nat.lt_or_ge i b with hb | hb
  · exact h i ha hb
  · exact h' i hb hc

theorem eq_of_eqOn (h' : EqOff m m' a b) : m = m' := by
  funext i
  by_cases hi : a ≤ i ∧ i < b
  · exact h i hi.1 hi.2
  · exact h' i (by omega)

theorem EqOn.drop {d s : ℕ} (ha : a ≤ s + c) (hb : s + d ≤ b) : EqOn (m.drop s) (m'.drop s) c d :=
  fun i hc hd => h (s + i) (by omega) (by omega)

omit h in
theorem eqOff_blit (m : Memory α) (a : ℕ) (xs : List α) :
    EqOff (m.blit a xs) m a (a + xs.length) := fun _ hi => blit_of_outside m hi

theorem EqOn.blit (c : ℕ) (xs : List α) : EqOn (m.blit c xs) (m'.blit c xs) a b := by
  intro i ha hb
  simp only [Memory.blit, h i ha hb]

omit h

theorem eqOn_blit (m m' : Memory α) (a : ℕ) (xs : List α) :
    EqOn (m.blit a xs) (m'.blit a xs) a (a + xs.length) := by
  intro i ha hb
  obtain ⟨k, rfl⟩ := Nat.exists_eq_add_of_le ha
  rw [blit_of_inside m a (by omega), blit_of_inside m' a (by omega)]

theorem eqOn_blit_slice (m m' : Memory α) (a n : ℕ) :
    EqOn (m.blit a (m'.slice a n)) m' a (a + n) := by
  intro i ha hb
  obtain ⟨k, rfl⟩ := Nat.exists_eq_add_of_le ha
  have hk : k < (m'.slice a n).length := by
    rw [length_slice]
    omega
  rw [blit_of_inside m a hk, getElem_slice]

theorem blit_slice (m : Memory α) (a n : ℕ) : m.blit a (m.slice a n) = m := by
  have hoff := eqOff_blit m a (m.slice a n)
  rw [length_slice] at hoff
  exact eq_of_eqOn (eqOn_blit_slice m m a n) hoff

theorem eqOn_of_slice_eq (h : m.slice a n = m'.slice a n) : EqOn m m' a (a + n) := by
  intro i ha hb
  obtain ⟨k, rfl⟩ := Nat.exists_eq_add_of_le ha
  have hk : k < n := by omega
  have hget := congrArg (fun l => l[k]?) h
  simpa [slice, hk] using hget

theorem EqOn.slice_eq (h : EqOn m m' a b) (hn : c + n ≤ b) (hc : a ≤ c) :
    m.slice c n = m'.slice c n :=
  slice_congr fun i hi => h (c + i) (by omega) (by omega)

end Memory
