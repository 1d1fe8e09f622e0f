import Mathlib.Data.List.Nodup

/-!
# Receivers that accept increasing numbers

A receiver is protected against replays if it remembers the number of the last
message that it has accepted and accepts only greater ones.
-/

namespace ReplayWindow

variable {σ α : Type} (step : σ → α → σ) (accepts : σ → α → Bool)

def accepted : σ → List α → List α
  | _, [] => []
  | s, a :: as =>
    if accepts s a then a :: accepted (step s a) as else accepted (step s a) as

variable {step accepts}

theorem pairwise_accepted (Inv : σ → Prop) (level : σ → ℕ) (number : α → ℕ)
    (hinv : ∀ s a, Inv s → Inv (step s a)) (hlevel : ∀ s a, Inv s → level s ≤ level (step s a))
    (haccept : ∀ s a, Inv s → accepts s a = true → level s < number a ∧ number a ≤ level (step s a))
    {s : σ} (hs : Inv s) (as : List α) :
    (accepted step accepts s as).Pairwise (fun a b => number a < number b)
      ∧ ∀ a ∈ accepted step accepts s as, level s < number a := by
  induction as generalizing s with
  | nil => exact ⟨List.Pairwise.nil, fun a ha => absurd ha List.not_mem_nil⟩
  | cons a as ih =>
    obtain ⟨hpair, habove⟩ := ih (hinv s a hs)
    rw [accepted]
    by_cases ha : accepts s a = true
    · obtain ⟨hlt, hle⟩ := haccept s a hs ha
      rw [if_pos ha]
      refine ⟨List.pairwise_cons.2 ⟨fun b hb => Nat.lt_of_le_of_lt hle (habove b hb), hpair⟩, ?_⟩
      rintro b (_ | ⟨_, hb⟩)
      · exact hlt
      · exact Nat.lt_of_le_of_lt (hlevel s a hs) (habove b hb)
    · rw [if_neg ha]
      exact ⟨hpair, fun b hb => Nat.lt_of_le_of_lt (hlevel s a hs) (habove b hb)⟩

end ReplayWindow
