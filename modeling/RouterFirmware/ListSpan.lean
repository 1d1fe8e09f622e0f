import Mathlib.Data.List.DropRight

/-!
# The span of the marked elements of a list

Some elements of a list are marked.
-/

namespace ListSpan

open List

variable {α : Type} (p : α → Bool) (l : List α)

def before : List α := l.takeWhile (!p ·)

def spanned : List α := (l.dropWhile (!p ·)).rdropWhile (!p ·)

def behind : List α := (l.dropWhile (!p ·)).rtakeWhile (!p ·)

theorem spanned_append_behind : spanned p l ++ behind p l = l.dropWhile (!p ·) :=
  rdropWhile_append_rtakeWhile ..

theorem append_eq : before p l ++ (spanned p l ++ behind p l) = l := by
  rw [spanned_append_behind]
  exact takeWhile_append_dropWhile

variable {p l}

theorem of_mem_before {x : α} (h : x ∈ before p l) : p x = false := by
  have := mem_takeWhile_imp h
  simpa using this

theorem of_mem_behind {x : α} (h : x ∈ behind p l) : p x = false := by
  have := mem_rtakeWhile_imp h
  simpa using this

theorem spanned_ne_nil {x : α} (hx : x ∈ l) (hp : p x = true) : spanned p l ≠ [] := by
  intro hnil
  have hmem : x ∈ before p l ++ (spanned p l ++ behind p l) := by rwa [append_eq]
  rw [hnil, nil_append] at hmem
  rcases mem_append.mp hmem with h | h
  · exact absurd hp (by rw [of_mem_before h]; simp)
  · exact absurd hp (by rw [of_mem_behind h]; simp)

theorem exists_cons (h : spanned p l ≠ []) : ∃ x xs, spanned p l = x :: xs ∧ p x = true := by
  obtain ⟨x, xs, hcons⟩ := exists_cons_of_ne_nil h
  refine ⟨x, xs, hcons, ?_⟩
  have hdrop : l.dropWhile (!p ·) = x :: (xs ++ behind p l) := by
    rw [← spanned_append_behind, hcons, cons_append]
  have hhead := List.head?_dropWhile_not (!p ·) l
  rw [hdrop] at hhead
  simpa using hhead

theorem exists_concat (h : spanned p l ≠ []) : ∃ xs x, spanned p l = xs ++ [x] ∧ p x = true := by
  refine ⟨(spanned p l).dropLast, (spanned p l).getLast h, ?_, ?_⟩
  · exact (dropLast_append_getLast h).symm
  · have hlast : ¬ (!p ((spanned p l).getLast h)) = true := rdropWhile_last_not _ _ h
    simpa using hlast

theorem filter_dropWhile :
    (l.dropWhile (!p ·)).filter (!p ·) = (spanned p l).filter (!p ·) ++ behind p l := by
  rw [← spanned_append_behind, filter_append]
  congr 1
  refine filter_eq_self.mpr fun x hx => ?_
  rw [of_mem_behind hx]
  rfl

theorem filter_spanned : (spanned p l).filter p = l.filter p := by
  have hbefore : (before p l).filter p = [] :=
    filter_eq_nil_iff.mpr fun x hx => by rw [of_mem_before hx]; simp
  have hbehind : (behind p l).filter p = [] :=
    filter_eq_nil_iff.mpr fun x hx => by rw [of_mem_behind hx]; simp
  conv_rhs => rw [← append_eq p l]
  rw [filter_append, filter_append, hbefore, hbehind, append_nil, nil_append]

end ListSpan
