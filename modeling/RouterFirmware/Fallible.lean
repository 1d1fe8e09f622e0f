import Mathlib.Tactic.Common

/-!
# Programs that may stop

A program that checks its input as it goes along is a chain of steps of which
each may stop it.
-/

namespace Fallible

open List

variable {ε α β : Type}

theorem bind_ok {x : Except ε α} {f : α → Except ε β} {r : β} :
    (x >>= f) = .ok r ↔ ∃ a, x = .ok a ∧ f a = .ok r := by
  cases x with
  | error e => exact ⟨nofun, fun ⟨_, h, _⟩ => nomatch h⟩
  | ok a => exact ⟨fun h => ⟨a, rfl, h⟩, fun ⟨_, h, hr⟩ => Except.ok.inj h ▸ hr⟩

theorem throw_bind (e : ε) (f : α → Except ε β) : ((throw e : Except ε α) >>= f) = throw e := rfl

theorem pure_ok {a r : α} : (pure a : Except ε α) = .ok r ↔ a = r :=
  ⟨Except.ok.inj, congrArg _⟩

theorem unless_ok {x : Except ε α} {r : α} {p : Prop} [Decidable p] {e : ε} :
    (if p then throw e else x) = .ok r ↔ ¬ p ∧ x = .ok r := by
  by_cases hp : p
  · rw [if_pos hp]
    exact ⟨nofun, fun h => absurd hp h.1⟩
  · rw [if_neg hp]
    exact ⟨fun h => ⟨hp, h⟩, And.right⟩

theorem foldlM_ok {a r : α} {bs : List β} {P : α → Prop} {f : α → β → Except ε α}
    (hstep : ∀ a b a', P a → f a b = .ok a' → P a') (ha : P a) (h : bs.foldlM f a = .ok r) :
    P r := by
  induction bs generalizing a with
  | nil => exact pure_ok.mp h ▸ ha
  | cons b bs ih =>
    rw [foldlM_cons] at h
    obtain ⟨a', hb, hrest⟩ := bind_ok.mp h
    exact ih (hstep a b a' ha hb) hrest

theorem exists_foldlM_ok_iff {P : β → Prop} {f : α → β → Except ε α}
    (hf : ∀ a b, (∃ a', f a b = .ok a') ↔ P b) (bs : List β) (a : α) :
    (∃ r, bs.foldlM f a = .ok r) ↔ ∀ b ∈ bs, P b := by
  induction bs generalizing a with
  | nil => exact ⟨fun _ _ => nofun, fun _ => ⟨a, rfl⟩⟩
  | cons b bs ih =>
    rw [forall_mem_cons, ← hf a b, foldlM_cons]
    constructor
    · rintro ⟨r, h⟩
      obtain ⟨a', hb, hrest⟩ := bind_ok.mp h
      exact ⟨⟨a', hb⟩, (ih a').mp ⟨r, hrest⟩⟩
    · rintro ⟨⟨a', hb⟩, hrest⟩
      obtain ⟨r, hr⟩ := (ih a').mpr hrest
      exact ⟨r, bind_ok.mpr ⟨a', hb, hr⟩⟩

theorem mapM_ok {f : α → Except ε β} {bs : List β} {as : List α} (h : as.mapM f = .ok bs) {b : β}
    (hb : b ∈ bs) : ∃ a ∈ as, f a = .ok b := by
  induction as generalizing bs with
  | nil =>
    rw [← pure_ok.mp h] at hb
    cases hb
  | cons a as ih =>
    rw [mapM_cons] at h
    obtain ⟨c, hc, h⟩ := bind_ok.mp h
    obtain ⟨cs, hcs, h⟩ := bind_ok.mp h
    rw [← pure_ok.mp h] at hb
    rcases mem_cons.mp hb with rfl | hb
    · exact ⟨a, mem_cons_self, hc⟩
    · obtain ⟨a', ha', hb'⟩ := ih hcs hb
      exact ⟨a', mem_cons_of_mem a ha', hb'⟩

theorem mapM_ok_left {f : α → Except ε β} {a : α} {bs : List β} {as : List α}
    (h : as.mapM f = .ok bs) (ha : a ∈ as) : ∃ b ∈ bs, f a = .ok b := by
  induction as generalizing bs with
  | nil => cases ha
  | cons x as ih =>
    rw [mapM_cons] at h
    obtain ⟨c, hc, h⟩ := bind_ok.mp h
    obtain ⟨cs, hcs, h⟩ := bind_ok.mp h
    rw [← pure_ok.mp h]
    rcases mem_cons.mp ha with rfl | ha
    · exact ⟨c, mem_cons_self, hc⟩
    · exact (ih hcs ha).imp fun b hb => ⟨.tail _ hb.1, hb.2⟩

theorem forM_ok {a : α} {as : List α} {f : α → Except ε Unit} (h : as.forM f = .ok ())
    (ha : a ∈ as) : f a = .ok () := by
  induction as with
  | nil => cases ha
  | cons x as ih =>
    obtain ⟨_, hx, h⟩ := bind_ok.mp h
    rcases mem_cons.mp ha with rfl | ha
    · exact hx
    · exact ih h ha

end Fallible
