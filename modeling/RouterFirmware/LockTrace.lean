import Mathlib.Data.List.Basic

/-!
# Locks along a path of execution

What a context does with locks is a list of events: a lock is acquired or
released, or the context waits until a handler has run.
-/

namespace LockTrace

/-- An event, for locks `L` and handlers `H`. -/
inductive Event (L H : Type) where
  | acquire (l : L)
  | release (l : L)
  /-- The context waits for a handler to finish. -/
  | await (h : H)
deriving DecidableEq

variable {L H : Type} [DecidableEq L]

def acquired (path : List (Event L H)) : List L :=
  path.filterMap fun
    | .acquire l => some l
    | .release _ | .await _ => none

def after : List L → List (Event L H) → List L
  | held, [] => held
  | held, .acquire l :: path => after (l :: held) path
  | held, .release l :: path => after (held.erase l) path
  | held, .await _ :: path => after held path

variable (takes : H → List L)

def Safe : List L → List (Event L H) → Prop
  | _, [] => True
  | held, .acquire l :: path => l ∉ held ∧ Safe (l :: held) path
  | held, .release l :: path => Safe (held.erase l) path
  | held, .await h :: path => (∀ l ∈ takes h, l ∉ held) ∧ Safe held path

def locked (l : L) (path : List (Event L H)) : List (Event L H) :=
  .acquire l :: path ++ [.release l]

variable {takes}

theorem safe_append {held : List L} {path path' : List (Event L H)} :
    Safe takes held (path ++ path')
      ↔ Safe takes held path ∧ Safe takes (after held path) path' := by
  induction path generalizing held with
  | nil => exact (and_iff_right trivial).symm
  | cons e path ih =>
    cases e with
    | acquire l => exact (and_congr_right fun _ => ih).trans and_assoc.symm
    | release l => exact ih
    | await h => exact (and_congr_right fun _ => ih).trans and_assoc.symm

theorem safe_locked {held : List L} {path : List (Event L H)} {l : L} :
    Safe takes held (locked l path) ↔ l ∉ held ∧ Safe takes (l :: held) path := by
  rw [locked, List.cons_append]
  show _ ∧ _ ↔ _
  rw [safe_append]
  exact and_congr_right fun _ => and_iff_left trivial

end LockTrace
