import Mathlib.Data.List.Basic

/-!
# Singly linked lists in memory

Some pointers are the heads of lists; the nodes of a list are in memory, each
with a pointer to the next one.
-/

namespace LinkedLists

open Function List Nat

variable {ι α : Type}

structure Node (α : Type) where
  val : α
  next : Option ℕ

/-- **The memory**: the heads of the lists, and the nodes at their addresses. -/
structure Links (ι α : Type) where
  head : ι → Option ℕ
  node : ℕ → Node α

inductive Slot (ι : Type) where
  | head (i : ι)
  | next (a : ℕ)

def Slot.after (prev : Slot ι) : List ℕ → Slot ι
  | [] => prev
  | a :: as => Slot.after (.next a) as

theorem Slot.after_concat (prev : Slot ι) (as : List ℕ) (a : ℕ) :
    prev.after (as ++ [a]) = .next a := by
  induction as generalizing prev with
  | nil => rfl
  | cons b as ih => exact ih _

namespace Links

variable (s : Links ι α)

def read : Slot ι → Option ℕ
  | .head i => s.head i
  | .next a => (s.node a).next

def write [DecidableEq ι] : Slot ι → Option ℕ → Links ι α
  | .head i, q => { s with head := update s.head i q }
  | .next a, q => { s with node := update s.node a { s.node a with next := q } }

def setVal (a : ℕ) (v : α) : Links ι α :=
  { s with node := update s.node a { s.node a with val := v } }

def push [DecidableEq ι] (i : ι) (a : ℕ) : Links ι α :=
  (s.write (.next a) (s.head i)).write (.head i) (some a)

def find (p : α → Bool) : ℕ → Slot ι → Option (Slot ι × Option ℕ)
  | 0, _ => none
  | n + 1, prev =>
    match s.read prev with
    | none => some (prev, none)
    | some t => if p (s.node t).val then some (prev, some t) else find p n (.next t)

def foldVals {β : Type} (f : β → α → β) : ℕ → Option ℕ → β → Option β
  | _, none, b => some b
  | 0, some _, _ => none
  | n + 1, some a, b => foldVals f n (s.node a).next (f b (s.node a).val)

def Segment : Option ℕ → List ℕ → Option ℕ → Prop
  | q, [], r => q = r
  | q, a :: as, r => q = some a ∧ Segment (s.node a).next as r

structure Owns (lists : ι → List ℕ) : Prop where
  chain : ∀ i, s.Segment (s.head i) (lists i) none
  nodup : ∀ i, (lists i).Nodup
  disjoint : ∀ i j, i ≠ j → List.Disjoint (lists i) (lists j)

variable {s} {as : List ℕ}

variable {bs : List ℕ} {t : ℕ}

theorem segment_append {q r : Option ℕ} :
    s.Segment q (as ++ bs) r ↔ ∃ m, s.Segment q as m ∧ s.Segment m bs r := by
  induction as generalizing q with
  | nil => exact ⟨fun h => ⟨q, rfl, h⟩, fun ⟨_, hq, h⟩ => hq ▸ h⟩
  | cons a as ih =>
    rw [cons_append, Segment, ih]
    constructor
    · rintro ⟨hq, m, has, hbs⟩
      exact ⟨m, ⟨hq, has⟩, hbs⟩
    · rintro ⟨m, ⟨hq, has⟩, hbs⟩
      exact ⟨hq, m, has, hbs⟩

theorem Segment.congr {q r : Option ℕ} {s' : Links ι α}
    (hnext : ∀ a ∈ as, (s'.node a).next = (s.node a).next) (h : s.Segment q as r) :
    s'.Segment q as r := by
  induction as generalizing q with
  | nil => exact h
  | cons a as ih =>
    rw [forall_mem_cons] at hnext
    refine ⟨h.1, ?_⟩
    rw [hnext.1]
    exact ih hnext.2 h.2

theorem not_mem_of_nodup_append {a : ℕ} (h : (as ++ a :: bs).Nodup) : a ∉ as ∧ a ∉ bs := by
  rw [nodup_append, nodup_cons] at h
  exact ⟨fun ha => h.2.2 a ha a mem_cons_self rfl, h.2.1.1⟩

@[simp] theorem val_write [DecidableEq ι] (slot : Slot ι) (q : Option ℕ) (a : ℕ) :
    ((s.write slot q).node a).val = (s.node a).val := by
  cases slot with
  | head i => rfl
  | next b =>
    by_cases hb : a = b
    · subst hb
      simp [write]
    · simp [write, update_of_ne hb]

@[simp] theorem val_push [DecidableEq ι] (i : ι) (b a : ℕ) :
    ((s.push i b).node a).val = (s.node a).val := by
  rw [push, val_write, val_write]

@[simp] theorem val_setVal_self (a : ℕ) (v : α) : ((s.setVal a v).node a).val = v := by
  simp [setVal]

theorem val_setVal_of_ne {a b : ℕ} (h : a ≠ b) (v : α) :
    ((s.setVal b v).node a).val = (s.node a).val := by
  simp [setVal, update_of_ne h]

theorem map_val_setVal {b : ℕ} (h : b ∉ as) (v : α) :
    as.map (fun a => ((s.setVal b v).node a).val) = as.map fun a => (s.node a).val :=
  map_congr_left fun _ ha => val_setVal_of_ne (ne_of_mem_of_not_mem ha h) v

/-! ## The walk -/

theorem find_eq_none {p : α → Bool} {n : ℕ} {prev : Slot ι} (h : s.Segment (s.read prev) as none)
    (hp : ∀ a ∈ as, p (s.node a).val = false) (hn : as.length < n) :
    s.find p n prev = some (prev.after as, none) := by
  induction as generalizing prev n with
  | nil =>
    obtain ⟨n, rfl⟩ := exists_eq_succ_of_ne_zero (Nat.ne_of_gt hn)
    rw [find, show s.read prev = none from h]
    rfl
  | cons a as ih =>
    obtain ⟨n, rfl⟩ := exists_eq_succ_of_ne_zero (Nat.ne_of_gt (zero_lt_of_lt hn))
    rw [forall_mem_cons] at hp
    rw [find, h.1]
    simp only [hp.1, Bool.false_eq_true, if_false]
    exact ih h.2 hp.2 (lt_of_succ_lt_succ hn)

theorem find_eq_some {r : Option ℕ} {p : α → Bool} {n : ℕ} {prev : Slot ι}
    (h : s.Segment (s.read prev) (as ++ t :: bs) r) (hp : ∀ a ∈ as, p (s.node a).val = false)
    (ht : p (s.node t).val = true) (hn : as.length < n) :
    s.find p n prev = some (prev.after as, some t) := by
  induction as generalizing prev n with
  | nil =>
    obtain ⟨n, rfl⟩ := exists_eq_succ_of_ne_zero (Nat.ne_of_gt hn)
    rw [find, h.1]
    exact if_pos ht
  | cons a as ih =>
    obtain ⟨n, rfl⟩ := exists_eq_succ_of_ne_zero (Nat.ne_of_gt (zero_lt_of_lt hn))
    rw [forall_mem_cons] at hp
    rw [find, h.1]
    simp only [hp.1, Bool.false_eq_true, if_false]
    exact ih h.2 hp.2 (lt_of_succ_lt_succ hn)

theorem foldVals_eq {q : Option ℕ} {n : ℕ} {β : Type} {f : β → α → β} (h : s.Segment q as none)
    (hn : as.length ≤ n) (b : β) :
    s.foldVals f n q b = some ((as.map fun a => (s.node a).val).foldl f b) := by
  induction as generalizing q n b with
  | nil =>
    obtain rfl : q = none := h
    cases n <;> rfl
  | cons a as ih =>
    obtain ⟨n, rfl⟩ := exists_eq_succ_of_ne_zero (Nat.ne_of_gt (zero_lt_of_lt hn))
    obtain ⟨rfl, hrest⟩ := h
    exact ih hrest (le_of_succ_le_succ hn) _

/-! ## The operations -/

section

variable [DecidableEq ι]

variable {lists : ι → List ℕ}

omit [DecidableEq ι] in
theorem Owns.setVal (h : s.Owns lists) (v : α) : (s.setVal t v).Owns lists where
  chain i := (h.chain i).congr fun a _ => by
    by_cases ha : a = t
    · subst ha
      simp [Links.setVal]
    · simp [Links.setVal, update_of_ne ha]
  nodup := h.nodup
  disjoint := h.disjoint

theorem Owns.update {i : ι} {s' : Links ι α} {l : List ℕ} (h : s.Owns lists)
    (hchain : s'.Segment (s'.head i) l none) (hnodup : l.Nodup)
    (hown : ∀ j ≠ i, List.Disjoint l (lists j)) (hhead : ∀ j ≠ i, s'.head j = s.head j)
    (hnext : ∀ j ≠ i, ∀ a ∈ lists j, (s'.node a).next = (s.node a).next) :
    s'.Owns (update lists i l) where
  chain j := by
    by_cases hj : j = i
    · subst hj
      rw [update_self]
      exact hchain
    · rw [update_of_ne hj, hhead j hj]
      exact (h.chain j).congr (hnext j hj)
  nodup j := by
    by_cases hj : j = i
    · subst hj
      rw [update_self]
      exact hnodup
    · rw [update_of_ne hj]
      exact h.nodup j
  disjoint j k hjk := by
    by_cases hj : j = i
    · subst hj
      rw [update_self, update_of_ne hjk.symm]
      exact hown k hjk.symm
    · rw [update_of_ne hj]
      by_cases hk : k = i
      · subst hk
        rw [update_self]
        exact fun _ ha hb => hown j hj hb ha
      · rw [update_of_ne hk]
        exact h.disjoint j k hjk

theorem Owns.unlink {i : ι} {as : List ℕ} (h : s.Owns lists)
    (hi : lists i = as ++ t :: bs) : (s.write ((Slot.head i).after as) (s.node t).next).Owns
    (Function.update lists i (as ++ bs)) := by
  have hchain := h.chain i
  have hnodup := h.nodup i
  rw [hi] at hchain hnodup
  have hsub : (as ++ bs).Sublist (lists i) := by
    rw [hi]
    exact (List.Sublist.refl as).append (sublist_cons_self t bs)
  have hown : ∀ j ≠ i, List.Disjoint (as ++ bs) (lists j) := fun j hj _ ha hb =>
    h.disjoint i j hj.symm (hsub.subset ha) hb
  obtain ⟨m, has, hm, hbs⟩ := segment_append.mp hchain
  rcases eq_nil_or_concat as with rfl | ⟨front, a, rfl⟩
  · refine h.update ?_ (hsub.nodup (h.nodup i)) hown
      (fun j hj => Function.update_of_ne hj ..) (fun _ _ _ _ => rfl)
    rw [show (s.write ((Slot.head i).after []) (s.node t).next).head i = (s.node t).next from
      update_self ..]
    exact Segment.congr (s := s) (fun _ _ => rfl) hbs
  · rw [concat_eq_append] at *
    rw [Slot.after_concat]
    have hother : ∀ b ≠ a, ((s.write (.next a) (s.node t).next).node b).next
        = (s.node b).next := fun b hb => by
      simp [write, update_of_ne hb]
    have ha : a ∉ front ∧ a ∉ t :: bs := by
      rw [append_assoc] at hnodup
      exact not_mem_of_nodup_append hnodup
    refine h.update ?_ (hsub.nodup (h.nodup i)) hown (fun _ _ => rfl) fun j hj b hb => ?_
    · rw [append_assoc, segment_append]
      obtain ⟨m', hfront, hm', hlast⟩ := segment_append.mp has
      refine ⟨m', hfront.congr fun b hb => hother b (ne_of_mem_of_not_mem hb ha.1), hm', ?_⟩
      have hwritten : ((s.write (Slot.next a : Slot ι) (s.node t).next).node a).next
          = (s.node t).next := by
        simp [write]
      rw [hwritten]
      exact hbs.congr fun b hb =>
        hother b (ne_of_mem_of_not_mem hb fun hin => ha.2 (mem_cons_of_mem t hin))
    · refine hother b ?_
      rintro rfl
      refine h.disjoint i j hj.symm ?_ hb
      rw [hi]
      simp

theorem Owns.push {i : ι} (h : s.Owns lists) (ht : ∀ j, t ∉ lists j) :
    (s.push i t).Owns (Function.update lists i (t :: lists i)) := by
  have hother : ∀ b ≠ t, ((s.push i t).node b).next = (s.node b).next := fun b hb => by
    simp [Links.push, write, update_of_ne hb]
  refine h.update ⟨?_, ?_⟩ (List.nodup_cons.mpr ⟨ht i, h.nodup i⟩) (fun j hj => ?_)
    (fun j hj => ?_) fun j hj b hb => hother b ?_
  · simp [Links.push, write]
  · have hnext : ((s.push i t).node t).next = s.head i := by
      simp [Links.push, write]
    rw [hnext]
    exact (h.chain i).congr fun b hb => hother b (ne_of_mem_of_not_mem hb (ht i))
  · rw [disjoint_cons_left]
    exact ⟨ht j, h.disjoint i j hj.symm⟩
  · simp [Links.push, write, update_of_ne hj]
  · exact ne_of_mem_of_not_mem hb (ht j)

end

end Links

end LinkedLists
