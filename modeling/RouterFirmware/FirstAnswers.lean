import Mathlib.Data.List.Induction
import Mathlib.Data.List.Nodup
import Mathlib.Data.List.Perm.Basic

/-!
# In order of the first answer

Some things wait for an answer. When one comes, the first of those that wait
and that it is an answer for goes to the end of the things that are done.
-/

namespace FirstAnswers

open List

variable {α : Type}

def answer (s : List α × List α) (q : α → Bool) : List α × List α :=
  match s.2.find? q with
  | some x => (s.1 ++ [x], s.2.eraseP q)
  | none => s

def firstAnswer (qs : List (α → Bool)) (x : α) : ℕ := qs.findIdx (· x)

def HasAnswer (qs : List (α → Bool)) (x : α) : Prop := ∃ q ∈ qs, q x

instance (qs : List (α → Bool)) (x : α) : Decidable (HasAnswer qs x) :=
  inferInstanceAs (Decidable (∃ q ∈ qs, q x))

/-- **Those with an answer in order of the first one, then the others.** -/
structure Answered (qs : List (α → Bool)) (xs : List α) (s : List α × List α) : Prop where
  perm : (s.1 ++ s.2).Perm xs
  hasAnswer : ∀ x ∈ s.1, HasAnswer qs x
  order : s.1.Pairwise fun x y => firstAnswer qs x < firstAnswer qs y
  waiting : s.2 = xs.filter fun x => ¬ HasAnswer qs x

variable {qs : List (α → Bool)}

variable {q : α → Bool} {x : α}

theorem hasAnswer_append : HasAnswer (qs ++ [q]) x ↔ HasAnswer qs x ∨ q x := by
  simp only [HasAnswer, mem_append, mem_singleton, or_and_right, exists_or, exists_eq_left]

theorem firstAnswer_lt (h : HasAnswer qs x) : firstAnswer qs x < qs.length :=
  findIdx_lt_length.mpr h

theorem firstAnswer_append_of_hasAnswer (h : HasAnswer qs x) :
    firstAnswer (qs ++ [q]) x = firstAnswer qs x :=
  findIdx_append.trans (if_pos (firstAnswer_lt h))

theorem firstAnswer_append_of_not (h : ¬ HasAnswer qs x) (hq : q x) :
    firstAnswer (qs ++ [q]) x = qs.length := by
  have hnot : ¬ qs.findIdx (· x) < qs.length := fun hlt => h (findIdx_lt_length.mp hlt)
  rw [firstAnswer, findIdx_append, if_neg hnot, findIdx_cons, hq]
  simp

theorem filter_append (qs : List (α → Bool)) (q : α → Bool) (xs : List α) :
    (xs.filter fun x => ¬ HasAnswer (qs ++ [q]) x)
      = (xs.filter fun x => ¬ HasAnswer qs x).filter fun x => !q x := by
  rw [filter_filter]
  refine filter_congr fun x _ => ?_
  by_cases h : HasAnswer qs x <;> cases hq : q x <;> simp [hasAnswer_append, h, hq]

theorem Answered.answer {xs : List α} {s : List α × List α} (h : Answered qs xs s)
    (hxs : xs.Nodup) (hq : ∀ x ∈ xs, ∀ y ∈ xs, q x → q y → x = y) :
    Answered (qs ++ [q]) xs (answer s q) := by
  have horder : s.1.Pairwise fun x y =>
      firstAnswer (qs ++ [q]) x < firstAnswer (qs ++ [q]) y :=
    h.order.imp_of_mem fun hx hy hlt => by
      rwa [firstAnswer_append_of_hasAnswer (h.hasAnswer _ hx),
        firstAnswer_append_of_hasAnswer (h.hasAnswer _ hy)]
  have hdone : ∀ x ∈ s.1, HasAnswer (qs ++ [q]) x := fun x hx =>
    hasAnswer_append.mpr (.inl (h.hasAnswer x hx))
  unfold FirstAnswers.answer
  split
  · next x hfind =>
    obtain ⟨hqx, as, bs, hsplit, has⟩ := List.find?_eq_some_iff_append.mp hfind
    have hmem {y : α} (hy : y ∈ s.2) : y ∈ xs := h.perm.subset (mem_append_right _ hy)
    have hx : x ∈ s.2 := hsplit ▸ mem_append_right as mem_cons_self
    have hwait : ¬ HasAnswer qs x := by
      rw [h.waiting] at hx
      simpa using (mem_filter.mp hx).2
    have hnodup : (as ++ x :: bs).Nodup := hsplit ▸ (h.perm.nodup_iff.mpr hxs).of_append_right
    have hbs : ∀ b ∈ bs, ¬ q b := fun b hb hqb => by
      have hbx := hq b (hmem (hsplit ▸ mem_append_right as (mem_cons_of_mem x hb)))
        x (hmem hx) hqb hqx
      exact (nodup_cons.mp hnodup.of_append_right).1 (hbx ▸ hb)
    have herase : s.2.eraseP q = as ++ bs := by
      rw [hsplit, eraseP_append_right _ (by simpa using has), eraseP_cons_of_pos hqx]
    refine ⟨?_, fun y hy => ?_, ?_, ?_⟩
    · have hmove : (s.1 ++ x :: (as ++ bs)).Perm (s.1 ++ s.2) :=
        hsplit ▸ perm_middle.symm.append_left s.1
      rw [herase, append_assoc]
      exact hmove.trans h.perm
    · rcases mem_append.mp hy with hy | hy
      · exact hdone y hy
      · exact hasAnswer_append.mpr (.inr (mem_singleton.mp hy ▸ hqx))
    · refine pairwise_append.mpr ⟨horder, pairwise_singleton _ _, fun y hy z hz => ?_⟩
      rw [mem_singleton.mp hz, firstAnswer_append_of_not hwait hqx,
        firstAnswer_append_of_hasAnswer (h.hasAnswer y hy)]
      exact firstAnswer_lt (h.hasAnswer y hy)
    · rw [filter_append, ← h.waiting, herase, hsplit, List.filter_append,
        filter_cons_of_neg (by simp [hqx]), filter_eq_self.mpr has,
        filter_eq_self.mpr (by simpa using hbs)]
  · next hnone =>
    refine ⟨h.perm, hdone, horder, ?_⟩
    rw [filter_append, ← h.waiting]
    exact (filter_eq_self.mpr (by simpa using hnone)).symm

theorem answered_foldl {xs : List α} (hxs : xs.Nodup)
    (hqs : ∀ q ∈ qs, ∀ x ∈ xs, ∀ y ∈ xs, q x → q y → x = y) :
    Answered qs xs (qs.foldl answer ([], xs)) := by
  induction qs using reverseRecOn with
  | nil =>
    refine ⟨.refl _, by simp, .nil, ?_⟩
    exact (filter_eq_self.mpr (by simp [HasAnswer])).symm
  | append_singleton qs q ih =>
    rw [foldl_append, foldl_cons, foldl_nil]
    exact (ih fun q' hq' => hqs q' (mem_append_left _ hq')).answer hxs
      (hqs q (mem_append_right _ mem_cons_self))

end FirstAnswers
