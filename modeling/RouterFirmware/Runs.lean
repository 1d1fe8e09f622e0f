import Mathlib.Data.List.SplitBy

/-!
# Runs

A list falls into runs: pieces in which every element is related to the next,
as long as they can be. `List.splitBy` gives them.
-/

namespace Runs

open List

variable {α : Type} {r : α → α → Bool}

def breaks (r : α → α → Bool) : α → List α → ℕ
  | _, [] => 0
  | p, a :: as => (if r p a then 0 else 1) + breaks r a as

theorem getLastD_append (p : α) (as bs : List α) :
    (as ++ bs).getLastD p = bs.getLastD (as.getLastD p) := by
  induction as generalizing p with
  | nil => rfl
  | cons a as ih => rw [cons_append, getLastD_cons, ih, getLastD_cons]

theorem breaks_append (p : α) (as bs : List α) :
    breaks r p (as ++ bs) = breaks r p as + breaks r (as.getLastD p) bs := by
  induction as generalizing p with
  | nil => exact (Nat.zero_add _).symm
  | cons a as ih =>
    rw [cons_append, breaks, breaks, ih, getLastD_cons, Nat.add_assoc]

theorem splitBy_append_related {b as c : List α} {cs : List (List α)} (hb : b ≠ [])
    (hchain : b.IsChain fun x y => r x y) (hsplit : as.splitBy r = c :: cs)
    (hrel : ∀ x ∈ c.head?, r (b.getLast hb) x) : (b ++ as).splitBy r = (b ++ c) :: cs := by
  obtain ⟨hflat, hnil, hall, hbreak⟩ := splitBy_eq_iff.mp hsplit
  have hc : c ≠ [] := fun h => hnil (h ▸ mem_cons_self)
  refine splitBy_eq_iff.mpr ⟨?_, ?_, ?_, ?_⟩
  · rw [hflat, flatten_cons, flatten_cons, append_assoc]
  · intro h
    rcases mem_cons.mp h with h | h
    · exact hb (append_eq_nil_iff.mp h.symm).1
    · exact hnil (mem_cons_of_mem c h)
  · intro m hm
    rcases mem_cons.mp hm with rfl | hm
    · refine isChain_append.mpr ⟨hchain, hall c mem_cons_self, fun x hx y hy => ?_⟩
      rw [← getLast_of_mem_getLast? hx]
      exact hrel y hy
    · exact hall m (mem_cons_of_mem c hm)
  · rw [isChain_cons] at hbreak ⊢
    refine ⟨fun m hm => ?_, hbreak.2⟩
    obtain ⟨_, hm', hfalse⟩ := hbreak.1 m hm
    refine ⟨append_ne_nil_of_right_ne_nil b hc, hm', ?_⟩
    rwa [getLast_append_of_ne_nil _ hc]

theorem exists_splitBy_cons {as : List α} {x : α} (hx : x ∈ as.head?) :
    ∃ c cs, as.splitBy r = c :: cs ∧ c.head? = some x := by
  have has : as ≠ [] := by
    rintro rfl
    cases hx
  obtain ⟨c, cs, hsplit⟩ := exists_cons_of_ne_nil (splitBy_ne_nil.mpr has)
  have hmem : c ∈ as.splitBy r := hsplit ▸ mem_cons_self
  obtain ⟨d, ds, rfl⟩ := exists_cons_of_ne_nil (ne_nil_of_mem_splitBy hmem)
  refine ⟨d :: ds, cs, hsplit, ?_⟩
  have hflat := flatten_splitBy r as
  rw [hsplit] at hflat
  rw [← hflat] at hx
  exact hx

theorem length_splitBy_cons (a : α) (as : List α) :
    ((a :: as).splitBy r).length = breaks r a as + 1 := by
  induction as generalizing a with
  | nil => rfl
  | cons b as ih =>
    by_cases hab : r a b
    · have hb : b ∈ (b :: as).head? := rfl
      obtain ⟨c, cs, hsplit, hhead⟩ := exists_splitBy_cons (r := r) hb
      have hmerge := splitBy_append_related (cons_ne_nil a []) (isChain_singleton a)
        hsplit (fun x hx => by rw [hhead] at hx; cases hx; exact hab)
      rw [show a :: b :: as = [a] ++ b :: as from rfl, hmerge, length_cons, breaks, if_pos hab,
        Nat.zero_add, ← ih, hsplit, length_cons]
    · have hcut := splitBy_append_cons (r := r) (l := [a]) (a := b) as
        (fun x hx => by cases hx; simpa using hab)
      rw [show a :: b :: as = [a] ++ b :: as from rfl, hcut, length_append, ih, breaks, if_neg hab]
      show 1 + _ = _
      omega

theorem splitBy_shortest {bs : List (List α)} (hnil : [] ∉ bs)
    (hchain : ∀ b ∈ bs, b.IsChain fun x y => r x y) : (bs.flatten.splitBy r).length ≤ bs.length
    ∧ (bs.length ≤ (bs.flatten.splitBy r).length → bs.flatten.splitBy r = bs) := by
  induction bs with
  | nil => exact ⟨Nat.le_refl _, fun _ => rfl⟩
  | cons b bs ih =>
    obtain ⟨hle, heq⟩ := ih (fun h => hnil (mem_cons_of_mem b h))
      (fun c hc => hchain c (mem_cons_of_mem b hc))
    have hb : b ≠ [] := fun h => hnil (h ▸ mem_cons_self)
    have hbchain := hchain b mem_cons_self
    rw [flatten_cons]
    by_cases hrel : ∀ x ∈ bs.flatten.head?, r (b.getLast hb) x = false
    · have hcut : (b ++ bs.flatten).splitBy r = b :: bs.flatten.splitBy r := by
        rw [splitBy_append, splitBy_of_isChain hb hbchain]
        · rfl
        · intro x hx y hy
          rw [← getLast_of_mem_getLast? hx]
          exact hrel y hy
      rw [hcut, length_cons, length_cons]
      exact ⟨Nat.succ_le_succ hle, fun h => congrArg _ (heq (Nat.le_of_succ_le_succ h))⟩
    · obtain ⟨x, hx, hbx⟩ : ∃ x ∈ bs.flatten.head?, r (b.getLast hb) x = true := by
        simpa using hrel
      obtain ⟨c, cs, hsplit, hhead⟩ := exists_splitBy_cons (r := r) hx
      rw [splitBy_append_related hb hbchain hsplit (fun y hy => by
        rw [hhead] at hy; cases hy; exact hbx), length_cons, length_cons]
      rw [hsplit, length_cons] at hle
      exact ⟨by omega, fun h => absurd h (by omega)⟩

theorem splitBy_snoc_related {b as : List α} {bs : List (List α)} {a : α}
    (hsplit : as.splitBy r = bs ++ [b]) (hrel : ∀ x ∈ b.getLast?, r x a) :
    (as ++ [a]).splitBy r = bs ++ [b ++ [a]] := by
  obtain ⟨hflat, hnil, hall, hbreak⟩ := splitBy_eq_iff.mp hsplit
  have hlast : b ∈ bs ++ [b] := mem_append_right bs mem_cons_self
  have hb : b ≠ [] := fun h => hnil (h ▸ hlast)
  refine splitBy_eq_iff.mpr ⟨?_, ?_, ?_, ?_⟩
  · rw [hflat, flatten_append, flatten_append, flatten_singleton, flatten_singleton, append_assoc]
  · intro h
    rcases mem_append.mp h with h | h
    · exact hnil (mem_append_left _ h)
    · exact append_ne_nil_of_left_ne_nil hb [a] (mem_singleton.mp h).symm
  · intro m hm
    rcases mem_append.mp hm with hm | hm
    · exact hall m (mem_append_left _ hm)
    · rw [mem_singleton.mp hm]
      refine isChain_append.mpr ⟨hall b hlast, isChain_singleton a, fun x hx y hy => ?_⟩
      cases hy
      exact hrel x hx
  · rw [isChain_append] at hbreak ⊢
    refine ⟨hbreak.1, isChain_singleton _, fun x hx y hy => ?_⟩
    cases hy
    obtain ⟨hx', _, hfalse⟩ := hbreak.2.2 x hx b rfl
    refine ⟨hx', append_ne_nil_of_left_ne_nil hb [a], ?_⟩
    rwa [head_append_of_ne_nil hb]

end Runs
