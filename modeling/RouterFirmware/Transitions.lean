import Mathlib.Tactic.Common

/-!
# Runs of a transition system

A system takes one action after the other; an action may be impossible in a
state.
-/

namespace Transitions

variable {σ α : Type}

/-- **The states that are reached** from `start` by actions that meet `ok`. -/
inductive Reaches (step : σ → α → Option σ) (ok : σ → α → Prop) (start : σ) : σ → Prop
  | start : Reaches step ok start start
  | next {s s' : σ} {a : α} (h : Reaches step ok start s) (hok : ok s a)
      (hs : step s a = some s') : Reaches step ok start s'

theorem Reaches.invariant {step : σ → α → Option σ} {ok : σ → α → Prop} {start : σ} {P : σ → Prop}
    (hstart : P start) (hstep : ∀ s a s', P s → ok s a → step s a = some s' → P s') {s : σ}
    (h : Reaches step ok start s) : P s := by
  induction h with
  | start => exact hstart
  | next _ hok hs ih => exact hstep _ _ _ ih hok hs

/-- A run that takes the given actions, as long as they meet the condition. -/
def run (step : σ → α → Option σ) (ok : σ → α → Bool) (s : σ) (as : List α) : Option σ :=
  as.foldlM (fun s a => if ok s a then step s a else none) s

theorem reaches_run {step : σ → α → Option σ} {start : σ} {ok : σ → α → Bool} {as : List α}
    {s s' : σ} (hs : Reaches step (fun s a => ok s a = true) start s)
    (h : run step ok s as = some s') : Reaches step (fun s a => ok s a = true) start s' := by
  induction as generalizing s with
  | nil => exact Option.some.inj h ▸ hs
  | cons a as ih =>
    rw [run, List.foldlM_cons] at h
    obtain ⟨s₁, hs₁, hrest⟩ := Option.bind_eq_some_iff.mp h
    by_cases hok : ok s a = true
    · rw [if_pos hok] at hs₁
      exact ih (hs.next hok hs₁) hrest
    · rw [if_neg hok] at hs₁
      cases hs₁

theorem exists_reaches_of_run {step : σ → α → Option σ} {start : σ} {ok : σ → α → Bool}
    {as : List α} {P : σ → Bool} (h : (run step ok start as).any P = true) :
    ∃ s, Reaches step (fun s a => ok s a = true) start s ∧ P s = true := by
  obtain ⟨s, hs, hP⟩ := (Option.any_eq_true _ _).mp h
  exact ⟨s, reaches_run .start hs, hP⟩

end Transitions
