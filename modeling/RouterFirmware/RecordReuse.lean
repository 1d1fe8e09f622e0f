import Mathlib.Data.List.Count
import Mathlib.Data.List.Induction
import Mathlib.Data.List.Perm.Subperm

/-!
# Reusing records

There are records with keys.
-/

namespace RecordReuse

open List

variable {α κ : Type} [DecidableEq κ]

structure Reuse (α κ : Type) where
  done : List (α × κ)
  old : List (α × κ)
  calls : ℕ

def hasKey (a : κ) (p : α × κ) : Bool := p.2 == a

def report (alloc : ℕ → Option α) (s : Reuse α κ) (a : κ) : Reuse α κ :=
  match s.old.find? (hasKey a) with
  | some p => { s with done := s.done ++ [p], old := s.old.eraseP (hasKey a) }
  | none =>
    match alloc s.calls with
    | some x => { s with done := s.done ++ [(x, a)], calls := s.calls + 1 }
    | none => { s with calls := s.calls + 1 }

def failures (alloc : ℕ → Option α) (calls : ℕ) : List ℕ :=
  (List.range calls).filter fun i => (alloc i).isNone

/-- **How records and reports have been matched.** -/
structure Matched (alloc : ℕ → Option α) (known : List (α × κ)) (reports : List κ)
    (s : Reuse α κ) : Prop where
  old_keys : s.old.map Prod.snd = (known.map Prod.snd).diff reports
  old_known : ∀ p ∈ s.old, p ∈ known
  kept : ∀ p ∈ known, p ∈ s.done ∨ p ∈ s.old
  done_origin : ∀ p ∈ s.done, p ∈ known ∨ ∃ i < s.calls, alloc i = some p.1
  reuse : ∀ p ∈ s.done, p ∉ known → ∀ q ∈ known, q.2 = p.2 → q ∈ s.done
  calls : s.calls = (reports.diff (known.map Prod.snd)).length
  done_keys : (s.done.map Prod.snd).Sublist reports
  done_length : s.done.length + (failures alloc s.calls).length = reports.length

variable {alloc : ℕ → Option α} {known : List (α × κ)} {reports : List κ} {s : Reuse α κ}
  (h : Matched alloc known reports s)

theorem length_diff_concat (reports keys : List κ) (a : κ) : ((reports ++ [a]).diff keys).length
    = (reports.diff keys).length + if a ∈ keys.diff reports then 0 else 1 := by
  have hmem : a ∈ keys.diff reports ↔ reports.count a < keys.count a := by
    rw [← count_pos_iff, count_diff]
    omega
  split
  · next h =>
    rw [hmem] at h
    refine List.Perm.length_eq (perm_iff_count.mpr fun b => ?_)
    rw [count_diff, count_diff, count_append, count_singleton]
    by_cases hb : a = b
    · subst hb
      simp only [beq_self_eq_true, if_true]
      omega
    · simp only [beq_iff_eq, hb, if_false, Nat.add_zero]
  · next h =>
    rw [hmem] at h
    have hperm : ((reports ++ [a]).diff keys).Perm (reports.diff keys ++ [a]) := by
      refine perm_iff_count.mpr fun b => ?_
      rw [count_diff, count_append, count_append, count_diff, count_singleton]
      by_cases hb : a = b
      · subst hb
        simp only [beq_self_eq_true, if_true]
        omega
      · simp only [beq_iff_eq, hb, if_false, Nat.add_zero]
    rw [hperm.length_eq, length_append, length_singleton]

theorem map_eraseP_hasKey (a : κ) (l : List (α × κ)) :
    (l.eraseP (hasKey a)).map Prod.snd = (l.map Prod.snd).erase a := by
  rw [erase_eq_eraseP, eraseP_map]
  congr 2
  funext p
  exact Bool.beq_comm

theorem find?_hasKey_eq_none {a : κ} {l : List (α × κ)} :
    l.find? (hasKey a) = none ↔ a ∉ l.map Prod.snd := by
  rw [List.find?_eq_none, mem_map, not_exists]
  exact forall_congr' fun p => by simp [hasKey]

theorem failures_succ (alloc : ℕ → Option α) (calls : ℕ) : (failures alloc (calls + 1)).length
    = (failures alloc calls).length + if (alloc calls).isNone then 1 else 0 := by
  rw [failures, range_succ, filter_append, length_append, failures]
  cases h : alloc calls <;> simp [h]

include h

theorem Matched.report (a : κ) : Matched alloc known (reports ++ [a]) (report alloc s a) := by
  have hdiff : (known.map Prod.snd).diff (reports ++ [a]) = (s.old.map Prod.snd).erase a := by
    rw [diff_append, ← h.old_keys, diff_cons, diff_nil]
  have hcalls := length_diff_concat reports (known.map Prod.snd) a
  rw [← h.old_keys, ← h.calls] at hcalls
  unfold RecordReuse.report
  split
  · next p hfind =>
    obtain ⟨hp, before, after, hsplit, hbefore⟩ := List.find?_eq_some_iff_append.mp hfind
    have hmem : p ∈ s.old := mem_of_find?_eq_some hfind
    have hkey : p.2 = a := beq_iff_eq.mp hp
    have herase : s.old.eraseP (hasKey a) = before ++ after := by
      rw [hsplit, eraseP_append_right _ (by simpa using hbefore), eraseP_cons_of_pos hp]
    rw [if_pos (hkey ▸ mem_map_of_mem hmem), Nat.add_zero] at hcalls
    refine ⟨?_, ?_, ?_, ?_, ?_, hcalls.symm, ?_, ?_⟩
    · exact (map_eraseP_hasKey a s.old).trans hdiff.symm
    · exact fun q hq => h.old_known q (mem_of_mem_eraseP hq)
    · intro q hq
      rw [herase]
      have hcases := h.kept q hq
      rw [hsplit] at hcases
      simp only [mem_append, mem_cons] at hcases ⊢
      tauto
    · intro q hq
      rcases mem_append.mp hq with hq | hq
      · exact h.done_origin q hq
      · exact .inl (mem_singleton.mp hq ▸ h.old_known p hmem)
    · intro q hq hnew r hr hsame
      rcases mem_append.mp hq with hq | hq
      · exact mem_append_left _ (h.reuse q hq hnew r hr hsame)
      · exact absurd (h.old_known p hmem) (mem_singleton.mp hq ▸ hnew)
    · rw [map_append, map_singleton, hkey]
      exact h.done_keys.append (.refl _)
    · simp only [length_append, length_singleton, ← h.done_length]
      omega
  · next hnone =>
    rw [find?_hasKey_eq_none] at hnone
    have hold : (known.map Prod.snd).diff (reports ++ [a]) = s.old.map Prod.snd := by
      rw [hdiff, erase_of_not_mem hnone]
    -- all records with the key have been reported
    have hall : ∀ q ∈ known, q.2 = a → q ∈ s.done := fun q hq hqa =>
      (h.kept q hq).resolve_right fun hqo => hnone (hqa ▸ mem_map_of_mem hqo)
    have hfail := failures_succ alloc s.calls
    rw [if_neg hnone] at hcalls
    cases halloc : alloc s.calls with
    | some x =>
      refine ⟨hold.symm, h.old_known, ?_, ?_, ?_, hcalls.symm, ?_, ?_⟩
      · exact fun q hq => (h.kept q hq).imp_left (mem_append_left _)
      · intro q hq
        rcases mem_append.mp hq with hq | hq
        · exact (h.done_origin q hq).imp_right (Exists.imp fun _ h => h.imp_left Nat.lt_succ_of_lt)
        · exact .inr ⟨s.calls, Nat.lt_succ_self _, mem_singleton.mp hq ▸ halloc⟩
      · intro q hq hnew r hr hsame
        rcases mem_append.mp hq with hq | hq
        · exact mem_append_left _ (h.reuse q hq hnew r hr hsame)
        · rw [mem_singleton.mp hq] at hsame
          exact mem_append_left _ (hall r hr hsame)
      · rw [map_append, map_singleton]
        exact h.done_keys.append (.refl _)
      · rw [halloc] at hfail
        simp only [length_append, length_singleton, hfail, ← h.done_length,
          Option.isNone_some, Bool.false_eq_true, if_false]
        omega
    | none =>
      refine ⟨hold.symm, h.old_known, h.kept, ?_, h.reuse, hcalls.symm, ?_, ?_⟩
      · exact fun q hq => (h.done_origin q hq).imp_right
          (Exists.imp fun _ h => h.imp_left Nat.lt_succ_of_lt)
      · exact h.done_keys.trans (sublist_append_left ..)
      · rw [halloc] at hfail
        simp only [length_append, length_singleton, hfail, ← h.done_length,
          Option.isNone_none, if_true]
        omega

omit h in
theorem matched_foldl (alloc : ℕ → Option α) (known : List (α × κ)) (reports : List κ) :
    Matched alloc known reports (reports.foldl (report alloc) ⟨[], known, 0⟩) := by
  induction reports using List.reverseRecOn with
  | nil => exact ⟨rfl, fun _ h => h, fun _ h => .inr h, by simp, by simp, by simp, .refl _, rfl⟩
  | append_singleton reports a ih =>
    rw [foldl_append, foldl_cons, foldl_nil]
    exact ih.report a

theorem Matched.old_eq_nil_iff : s.old = [] ↔ (known.map Prod.snd).Subperm reports := by
  rw [← map_eq_nil_iff (f := Prod.snd), h.old_keys, subperm_ext_iff, eq_nil_iff_forall_not_mem]
  refine forall_congr' fun a => ?_
  rw [← count_pos_iff, count_diff, ← count_pos_iff]
  omega

theorem Matched.done_keys_eq_iff : s.done.map Prod.snd = reports
    ↔ ∀ i < (reports.diff (known.map Prod.snd)).length, (alloc i).isSome := by
  have hfailures : s.done.map Prod.snd = reports ↔ failures alloc s.calls = [] := by
    have hlen := h.done_length
    rw [← length_eq_zero_iff]
    constructor
    · intro heq
      have hsame := congrArg List.length heq
      rw [length_map] at hsame
      omega
    · intro hzero
      refine h.done_keys.eq_of_length ?_
      rw [length_map]
      omega
  rw [hfailures, ← h.calls, failures, filter_eq_nil_iff]
  simp only [mem_range, Option.isNone_iff_eq_none, Option.isSome_iff_ne_none, ne_eq]

end RecordReuse
