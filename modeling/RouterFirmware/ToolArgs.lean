import Mathlib.Data.Nat.Notation

/-!
# The command lines of the firmware tools

`mkmylofw` and `mkzynfw` read their command lines with the same functions:
an argument is cut at its colons, a number is converted with `strtoul`, and
the first thing that is wrong ends the tool.
-/

namespace Tool

/-- The bytes of an argument or of a name. -/
abbrev Text := List UInt8

def ascii (cs : List Char) : Text := cs.map Char.toUInt8

structure Host where
  file : Text → Option (List UInt8)
  str2u32 : Text → Option UInt32
  creates : Text → Bool

def toLower (c : UInt8) : UInt8 := if 65 ≤ c ∧ c ≤ 90 then c + 32 else c

inductive Exit where
  | failure
  | usage
  /-- Something is read that has not been set. -/
  | undefined
deriving DecidableEq

def strsep : Text → List Text
  | [] => [[]]
  | c :: cs =>
    if c = 58 then [] :: strsep cs
    else match strsep cs with
      | [] => [[c]]
      | t :: ts => (c :: t) :: ts

def orFail {α : Type} : Option α → Except Exit α
  | none => .error .failure
  | some a => .ok a

theorem orFail_ok {α : Type} {x : Option α} {a : α} : orFail x = .ok a ↔ x = some a := by
  cases x with
  | none => exact ⟨nofun, nofun⟩
  | some b =>
    exact ⟨fun h => congrArg some (Except.ok.inj h), fun h => congrArg _ (Option.some.inj h)⟩

end Tool
