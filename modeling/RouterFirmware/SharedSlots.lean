import Mathlib.Logic.Function.Basic

/-!
# Values kept in shared slots

Several owners each refer to one slot of a table, and an owner's value is the
value of its slot. When an owner is given a value by giving it to a slot and
referring to that slot (`Slots.assign`), every owner of the slot is concerned:
whether this is an update of one owner alone is a condition on the references
(`Slots.read_assign_iff`).
-/

/-- A table of slots, and the slot that each owner refers to. -/
structure Slots (S O V : Type) where
  /-- the value of a slot -/
  value : S → V
  /-- the slot of an owner -/
  slot : O → S

namespace Slots

variable {S O V : Type} [DecidableEq S] [DecidableEq O]

def read (t : Slots S O V) (o : O) : V := t.value (t.slot o)

def assign (t : Slots S O V) (o : O) (s : S) (v : V) : Slots S O V :=
  { value := Function.update t.value s v, slot := Function.update t.slot o s }

@[simp]
theorem read_assign_self (t : Slots S O V) (o : O) (s : S) (v : V) :
    (t.assign o s v).read o = v := by
  simp [read, assign]

theorem read_assign_iff (t : Slots S O V) (o : O) (s : S) (v : V) :
    (t.assign o s v).read = Function.update t.read o v ↔
      ∀ q, q ≠ o → t.slot q = s → t.value s = v := by
  constructor
  · intro h q hq hslot
    have hread := congrFun h q
    simpa [read, assign, hq, hslot, eq_comm] using hread
  · intro h
    funext q
    by_cases hq : q = o
    · subst hq
      simp
    · by_cases hslot : t.slot q = s
      · simp [read, assign, hq, hslot, h q hq hslot]
      · simp [read, assign, hq, hslot]

end Slots
