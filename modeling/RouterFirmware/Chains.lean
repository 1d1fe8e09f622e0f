import Mathlib.Data.Finset.Card
import RouterFirmware.Loop

/-!
# Chains of positions

A reader of untrusted data often follows a chain: at each position the data say
where the next one is.
-/

namespace Chain

variable {π : Type} (next : π → Option π)

def Leads (p q : π) : Prop := next p = some q

def Reaches : π → π → Prop := Relation.ReflTransGen (Leads next)

def Returns (p : π) : Prop := ∃ q, Reaches next p q ∧ Relation.TransGen (Leads next) q q

def Halts (p : π) : Prop := Acc (fun q p => Leads next p q) p

variable {next} {p : π}

theorem halts_of_none (h : next p = none) : Halts next p :=
  Acc.intro p fun q hq => absurd (h.symm.trans hq) (by simp)

theorem halts_iff_of_leads {q : π} (h : Leads next p q) : Halts next p ↔ Halts next q := by
  constructor
  · exact fun hp => hp.inv h
  · intro hq
    refine Acc.intro p fun q' hq' => ?_
    rwa [← Option.some.inj (h.symm.trans hq')]

theorem not_halts_of_cycle (h : Relation.TransGen (Leads next) p p) : ¬ Halts next p := by
  intro hp
  induction hp with
  | intro p _ ih =>
    -- the position behind `p` is on the cycle as well
    obtain ⟨q, hpq, hqp⟩ := Relation.TransGen.head'_iff.mp h
    exact ih q hpq (Relation.TransGen.tail' hqp hpq)

theorem Halts.of_reaches {q : π} (h : Halts next p) (hpq : Reaches next p q) : Halts next q := by
  induction hpq with
  | refl => exact h
  | tail _ hstep ih => exact (halts_iff_of_leads hstep).mp ih

theorem not_returns_of_halts (h : Halts next p) : ¬ Returns next p := by
  rintro ⟨q, hpq, hcycle⟩
  exact not_halts_of_cycle hcycle (h.of_reaches hpq)

theorem halts_of_not_returns (S : Finset π) [DecidableEq π]
    (hS : ∀ q, Reaches next p q → next q ≠ none → q ∈ S) (h : ¬ Returns next p) : Halts next p := by
  induction hn : S.card generalizing S p with
  | zero =>
    refine halts_of_none (by_contra fun hp => ?_)
    have hmem := hS p Relation.ReflTransGen.refl hp
    rw [Finset.card_eq_zero.mp hn] at hmem
    exact absurd hmem (Finset.notMem_empty p)
  | succ n ih =>
    cases hp : next p with
    | none => exact halts_of_none hp
    | some q =>
      have hmem : p ∈ S := hS p Relation.ReflTransGen.refl (by rw [hp]; simp)
      have hback : ∀ r, Reaches next q r → Reaches next p r := fun r hr => hr.head hp
      refine (halts_iff_of_leads hp).mpr (ih (S.erase p) (fun r hr hnext => ?_) ?_ ?_)
      · refine Finset.mem_erase.mpr ⟨?_, hS r (hback r hr) hnext⟩
        rintro rfl
        exact h ⟨r, Relation.ReflTransGen.refl, Relation.TransGen.head' hp hr⟩
      · rintro ⟨r, hr, hcycle⟩
        exact h ⟨r, hback r hr, hcycle⟩
      · rw [Finset.card_erase_of_mem hmem, hn, Nat.add_sub_cancel]

theorem halts_iff (S : Finset π) [DecidableEq π]
    (hS : ∀ q, Reaches next p q → next q ≠ none → q ∈ S) : Halts next p ↔ ¬ Returns next p :=
  ⟨not_returns_of_halts, halts_of_not_returns S hS⟩

/-! ## Loops that follow a chain -/

section Loops

variable {σ ρ : Type} {body : σ → Turn σ ρ} {pos : σ → π} {Inv : σ → Prop}

structure Follows (next : π → Option π) (body : σ → Turn σ ρ) (pos : σ → π)
    (Inv : σ → Prop) : Prop where
  again : ∀ {s s'}, Inv s → body s = .again s' → next (pos s) = some (pos s') ∧ Inv s'
  leave : ∀ {s r}, Inv s → body s = .leave r → next (pos s) = none

variable (h : Follows next body pos Inv)

include h

theorem Follows.exists_ends_iff {s : σ} (hs : Inv s) :
    (∃ r, Loop.Ends body s r) ↔ Halts next (pos s) := by
  constructor
  · rintro ⟨r, n, hn⟩
    induction n generalizing s with
    | zero => exact absurd hn (by simp [Loop.run])
    | succ n ih =>
      cases hb : body s with
      | again s' =>
        obtain ⟨hnext, hs'⟩ := h.again hs hb
        rw [Loop.run_succ_again hb] at hn
        exact (halts_iff_of_leads hnext).mpr (ih hs' hn)
      | leave r' => exact halts_of_none (h.leave hs hb)
  · intro hhalts
    generalize hp : pos s = p at hhalts
    induction hhalts generalizing s with
    | intro p _ ih =>
      subst hp
      cases hb : body s with
      | again s' =>
        obtain ⟨hnext, hs'⟩ := h.again hs hb
        obtain ⟨r, hr⟩ := ih _ hnext hs' rfl
        exact ⟨r, (Loop.ends_iff_of_again hb).mpr hr⟩
      | leave r => exact ⟨r, Loop.ends_of_leave hb⟩

theorem Follows.reaches_of_steps {s s' : σ} (hs : Inv s) (hsteps : Loop.Steps body s s') :
    Reaches next (pos s) (pos s') ∧ Inv s' := by
  induction hsteps with
  | refl => exact ⟨Relation.ReflTransGen.refl, hs⟩
  | tail _ hstep ih =>
    obtain ⟨hnext, hs'⟩ := h.again ih.2 hstep
    exact ⟨ih.1.tail hnext, hs'⟩

theorem Follows.exists_steps_of_reaches {q : π} {s : σ} (hs : Inv s)
    (hreach : Reaches next (pos s) q) : ∃ s', Loop.Steps body s s' ∧ pos s' = q ∧ Inv s' := by
  induction hreach with
  | refl => exact ⟨s, Loop.Steps.refl s, rfl, hs⟩
  | tail _ hstep ih =>
    obtain ⟨s', hsteps, rfl, hs'⟩ := ih
    cases hb : body s' with
    | again s'' =>
      obtain ⟨hnext, hs''⟩ := h.again hs' hb
      exact ⟨s'', hsteps.tail hb, Option.some.inj (hnext.symm.trans hstep), hs''⟩
    | leave r => exact absurd ((h.leave hs' hb).symm.trans hstep) (by simp)

end Loops

end Chain
