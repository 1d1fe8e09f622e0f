import Mathlib.Data.List.Basic

/-!
# Files that are written

A file that a program writes has its bytes and the position where the next
write begins.
-/

structure OutFile (α : Type) where
  bytes : List α
  pos : ℕ

namespace OutFile

open List

variable {α : Type}

def empty : OutFile α := ⟨[], 0⟩

def write (f : OutFile α) (data : List α) : OutFile α where
  bytes := f.bytes.take f.pos ++ data ++ f.bytes.drop (f.pos + data.length)
  pos := f.pos + data.length

def seek (f : OutFile α) (pos : ℕ) : OutFile α := { f with pos := pos }

def AtEnd (f : OutFile α) : Prop := f.pos = f.bytes.length

theorem empty_atEnd : (empty : OutFile α).AtEnd := rfl

theorem write_end {f : OutFile α} (h : f.AtEnd) (data : List α) :
    f.write data = ⟨f.bytes ++ data, (f.bytes ++ data).length⟩ := by
  rw [write, h, take_length, drop_eq_nil_of_le (Nat.le_add_right ..), append_nil, length_append]

theorem write_end_atEnd {f : OutFile α} (h : f.AtEnd) (data : List α) : (f.write data).AtEnd := by
  rw [write_end h]
  rfl

theorem write_inside {f : OutFile α} {data a b c : List α} (h : f.bytes = a ++ b ++ c)
    (hpos : f.pos = a.length) (hlen : data.length = b.length) :
    (f.write data).bytes = a ++ data ++ c := by
  show f.bytes.take f.pos ++ data ++ f.bytes.drop (f.pos + data.length) = _
  rw [h, hpos, hlen, append_assoc a, take_left, ← append_assoc, drop_left' (length_append ..)]

theorem length_write_inside {f : OutFile α} {data : List α}
    (h : f.pos + data.length ≤ f.bytes.length) : (f.write data).bytes.length = f.bytes.length := by
  show (f.bytes.take f.pos ++ data ++ f.bytes.drop (f.pos + data.length)).length = _
  rw [length_append, length_append, length_take, length_drop]
  omega

end OutFile

/-! ## Pieces -/

def pieces {α : Type} (n : ℕ) : ℕ → List α → List (List α)
  | 0, _ => []
  | fuel + 1, data => if data.isEmpty then [] else data.take n :: pieces n fuel (data.drop n)

theorem flatten_pieces {α : Type} {n : ℕ} (hn : 0 < n) {fuel : ℕ} {data : List α}
    (h : data.length ≤ fuel) : (pieces n fuel data).flatten = data := by
  induction fuel generalizing data with
  | zero =>
    rw [List.eq_nil_of_length_eq_zero (Nat.le_zero.mp h)]
    rfl
  | succ fuel ih =>
    cases data with
    | nil => rfl
    | cons a data =>
      have hrest : ((a :: data).drop n).length ≤ fuel := by
        rw [List.length_drop]
        rw [List.length_cons] at h ⊢
        omega
      show ((a :: data).take n :: pieces n fuel ((a :: data).drop n)).flatten = _
      rw [List.flatten_cons, ih hrest, List.take_append_drop]
