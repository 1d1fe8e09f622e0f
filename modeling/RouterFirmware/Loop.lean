import Mathlib.Data.Nat.Basic
import Mathlib.Logic.Relation
import Mathlib.Tactic.Common

/-!
# Loops that leave, and loops that do not

A C function that loops is a body read again and again: each turn either hands
the next turn a new state or leaves with a result.
-/

variable {σ ρ : Type}

inductive Turn (σ ρ : Type) where
  /-- Another turn, from the state `s`. -/
  | again (s : σ)
  /-- The loop is left with the result `r`. -/
  | leave (r : ρ)

namespace Loop

variable (body : σ → Turn σ ρ) (Inv : σ → Prop) (Post : ρ → Prop) (variant : σ → ℕ)

def run : ℕ → σ → Option ρ
  | 0, _ => none
  | n + 1, s =>
    match body s with
    | .again s' => run n s'
    | .leave r => some r

def Ends (s : σ) (r : ρ) : Prop := ∃ n, run body n s = some r

def Next (s s' : σ) : Prop := body s = .again s'

def Steps : σ → σ → Prop := Relation.ReflTransGen (Next body)

variable {body} {s s' : σ} {r : ρ}
  (hturn : ∀ s, Inv s → (∃ r, body s = .leave r ∧ Post r)
    ∨ ∃ s', body s = .again s' ∧ Inv s' ∧ variant s' < variant s)

theorem run_succ_again (h : body s = .again s') (n : ℕ) : run body (n + 1) s = run body n s' := by
  rw [run, h]

theorem run_succ_leave (h : body s = .leave r) (n : ℕ) : run body (n + 1) s = some r := by
  rw [run, h]

theorem run_of_le {n k : ℕ} (h : run body n s = some r) (hle : n ≤ k) : run body k s = some r := by
  induction n generalizing k s with
  | zero => exact absurd h (by simp [run])
  | succ n ih =>
    obtain ⟨k, rfl⟩ : ∃ j, k = j + 1 := ⟨k - 1, by omega⟩
    cases hb : body s with
    | again s' =>
      rw [run_succ_again hb] at h ⊢
      exact ih h (by omega)
    | leave r' =>
      rw [run_succ_leave hb] at h ⊢
      exact h

theorem ends_of_leave (h : body s = .leave r) : Ends body s r :=
  ⟨1, run_succ_leave h 0⟩

theorem ends_iff_of_again (h : body s = .again s') : Ends body s r ↔ Ends body s' r := by
  constructor
  · rintro ⟨n, hn⟩
    cases n with
    | zero => exact absurd hn (by simp [run])
    | succ n => exact ⟨n, by rw [← run_succ_again h]; exact hn⟩
  · rintro ⟨n, hn⟩
    exact ⟨n + 1, by rw [run_succ_again h]; exact hn⟩

theorem ends_iff_of_leave {r' : ρ} (h : body s = .leave r) : Ends body s r' ↔ r = r' := by
  constructor
  · rintro ⟨n, hn⟩
    cases n with
    | zero => exact absurd hn (by simp [run])
    | succ n =>
      rw [run_succ_leave h] at hn
      exact Option.some.inj hn
  · rintro rfl
    exact ends_of_leave h

theorem ends_iff_of_steps (h : Steps body s s') : Ends body s r ↔ Ends body s' r := by
  induction h with
  | refl => exact Iff.rfl
  | tail _ hstep ih => exact ih.trans (ends_iff_of_again hstep)

theorem ends_unique {r' : ρ} (h : Ends body s r) (h' : Ends body s r') : r = r' := by
  obtain ⟨n, hn⟩ := h
  induction n generalizing s with
  | zero => exact absurd hn (by simp [run])
  | succ n ih =>
    cases hb : body s with
    | again s₁ =>
      rw [run_succ_again hb] at hn
      exact ih ((ends_iff_of_again hb).mp h') hn
    | leave r₁ =>
      rw [run_succ_leave hb] at hn
      exact (Option.some.inj hn).symm.trans ((ends_iff_of_leave hb).mp h')

theorem Steps.single (h : body s = .again s') : Steps body s s' :=
  Relation.ReflTransGen.single h

theorem Steps.refl (s : σ) : Steps body s s := Relation.ReflTransGen.refl

theorem Steps.trans {s₁ s₂ s₃ : σ} (h : Steps body s₁ s₂) (h' : Steps body s₂ s₃) :
    Steps body s₁ s₃ :=
  Relation.ReflTransGen.trans h h'

include hturn

theorem run_of_variant {n : ℕ} (hs : Inv s) (hn : variant s < n) :
    ∃ r, run body n s = some r ∧ Post r := by
  induction n generalizing s with
  | zero => exact absurd hn (Nat.not_lt_zero _)
  | succ n ih =>
    obtain ⟨r, hr, hpost⟩ | ⟨s', hs', hinv, hlt⟩ := hturn s hs
    · exact ⟨r, run_succ_leave hr n, hpost⟩
    · rw [run_succ_again hs']
      exact ih hinv (Nat.lt_of_lt_of_le hlt (Nat.le_of_lt_succ hn))

theorem ends_of_variant (hs : Inv s) : ∃ r, Ends body s r ∧ Post r := by
  obtain ⟨r, hr, hpost⟩ := run_of_variant Inv Post variant hturn hs (Nat.lt_succ_self (variant s))
  exact ⟨r, ⟨_, hr⟩, hpost⟩

omit hturn

theorem post_of_ends
    (hagain : ∀ s s', Inv s → body s = .again s' → Inv s')
    (hleave : ∀ s r, Inv s → body s = .leave r → Post r) (hs : Inv s)
    (h : Ends body s r) : Post r := by
  obtain ⟨n, hn⟩ := h
  induction n generalizing s with
  | zero => exact absurd hn (by simp [run])
  | succ n ih =>
    cases hb : body s with
    | again s' =>
      rw [run_succ_again hb] at hn
      exact ih (hagain s s' hs hb) hn
    | leave r' =>
      rw [run_succ_leave hb] at hn
      exact Option.some.inj hn ▸ hleave s r' hs hb

end Loop
