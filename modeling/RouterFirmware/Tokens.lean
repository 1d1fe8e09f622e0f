import Mathlib.Data.List.DropRight
import Mathlib.Data.List.TakeWhile

/-!
# Tokens between separators

A text that is read word by word is a list in which some elements are
separators.  Its tokens are the longest pieces without a separator, so that any
number of separators may stand before, between and behind them (`tokens`).

A scanner of the usual kind skips separators with one loop and reads a token
with another.  The lemmas say what the tokens are at each of these steps:
separators at the beginning do not matter (`tokens_cons_sep`,
`tokens_dropWhile`), and a piece without separators is a token of its own if a
separator or the end comes next (`tokens_append`).
-/

namespace Tokens

open List

variable {α : Type} {sep : α → Bool} {x : α} {s t rest : List α}

/-- **The tokens of a text**: what is between the separators, where something
is. -/
def tokens (sep : α → Bool) (s : List α) : List (List α) := (s.splitOnP sep).filter (· ≠ [])

/-- Where separators have been skipped, the next element is none. -/
theorem head_eq_false (h : (x :: s).dropWhile sep = x :: s) : sep x = false := by
  by_contra hx
  have hle := length_dropWhile_le sep s
  rw [dropWhile_cons_of_pos (by simpa using hx)] at h
  rw [h, length_cons] at hle
  omega

theorem tokens_cons_sep (hx : sep x = true) (s : List α) : tokens sep (x :: s) = tokens sep s := by
  simp [tokens, splitOnP_cons_eq_if_modifyHead, hx]

/-- Separators at the beginning do not matter. -/
theorem tokens_dropWhile (s : List α) : tokens sep (s.dropWhile sep) = tokens sep s := by
  induction s with
  | nil => rfl
  | cons x s ih =>
    by_cases hx : sep x = true
    · rw [dropWhile_cons_of_pos hx, ih, tokens_cons_sep hx]
    · rw [dropWhile_cons_of_neg hx]

/-- **The first token**: a piece without separators, with a separator or the
end behind it. -/
theorem tokens_append (hne : t ≠ []) (ht : ∀ c ∈ t, sep c = false)
    (hrest : rest.dropWhile sep = rest → rest = []) :
    tokens sep (t ++ rest) = t :: tokens sep rest := by
  cases rest with
  | nil => simp [tokens, splitOnP_eq_singleton ht, hne]
  | cons x rest =>
    have hx : sep x = true := by
      by_contra hx
      cases hrest (dropWhile_cons_of_neg hx)
    rw [tokens_cons_sep hx, tokens, splitOnP_append_cons_of_forall_mem ht x hx]
    simp [tokens, hne]

theorem eq_false_of_mem_splitOnP (ht : t ∈ s.splitOnP sep) (hx : x ∈ t) : sep x = false := by
  induction s generalizing t with
  | nil =>
    obtain rfl : t = [] := by simpa using ht
    cases hx
  | cons y s ih =>
    rw [splitOnP_cons_eq_if_modifyHead] at ht
    split at ht
    · rcases mem_cons.mp ht with rfl | ht
      · cases hx
      · exact ih ht hx
    · next hy =>
      obtain ⟨u, us, hus⟩ := exists_cons_of_ne_nil (splitOnP_ne_nil sep s)
      rw [hus] at ht ih
      rcases mem_cons.mp ht with rfl | ht
      · rcases mem_cons.mp hx with rfl | hx
        · simpa using hy
        · exact ih mem_cons_self hx
      · exact ih (.tail _ ht) hx

/-- There is nothing to skip at the beginning of a token. -/
theorem dropWhile_token (ht : t ∈ tokens sep s) : t.dropWhile sep = t := by
  cases t with
  | nil => rfl
  | cons x t =>
    have hx := eq_false_of_mem_splitOnP (mem_filter.mp ht).1 mem_cons_self
    exact dropWhile_cons_of_neg (by simp [hx])

end Tokens
