import Mathlib.Algebra.Order.Group.Multiset
import Mathlib.Data.Int.Basic

/-!
# A key that does one thing when held and another when released early

A handler notes that a key is held, and a timer counts down while it is.
-/

namespace HeldKey

inductive Timer where
  | awake
  /-- It has seen that the key is held and is about to count. -/
  | counting
  /-- It has counted to the end and will take the note away. -/
  | asleep
deriving DecidableEq

inductive Handler where
  | elsewhere
  /-- The key has gone down, and the countdown is not at its end. -/
  | pressed
  /-- The key has come up, and the note is there. -/
  | released
  /-- It has taken the note away. -/
  | cleared
  /-- The countdown is not at its end. -/
  | early
  /-- It has started the countdown again. -/
  | ready
deriving DecidableEq

inductive Worker where
  | elsewhere
  /-- It has seen the end of the countdown. -/
  | starting
  /-- It has begun a session and not started the countdown again. -/
  | session
  /-- It has seen a request. -/
  | taken
  /-- It has taken the request away. -/
  | acting
deriving DecidableEq

/-- **For which press something is there.** -/
structure Blame where
  presses : ℕ
  heldBy : ℕ
  timerBy : ℕ
  zeroBy : ℕ
  handlerBy : ℕ
  askedBy : ℕ
  workerBy : ℕ
  done : List ℕ
deriving DecidableEq

def Blame.start : Blame := ⟨0, 0, 0, 0, 0, 0, 0, []⟩

structure Keypad where
  left : ℤ
  held : Bool
  asked : Bool
  timer : Timer
  handler : Handler
  worker : Worker
  blame : Blame

namespace Keypad

/-- **A step**, with the full time of the countdown. -/
inductive Step (full : ℤ) (k : Keypad) : Keypad → Prop
  | count (ht : k.timer = .awake) (hheld : k.held = true) :
      Step full k { k with
        timer := .counting
        blame := { k.blame with timerBy := k.blame.heldBy } }
  | tick (ht : k.timer = .counting) (hleft : k.left - 1 ≠ 0) :
      Step full k { k with left := k.left - 1, timer := .awake }
  /-- Not while the handler relies on a countdown that is not at its end. -/
  | finish (ht : k.timer = .counting) (hleft : k.left - 1 = 0)
      (hpressed : k.handler ≠ .pressed) (hearly : k.handler ≠ .early) :
      Step full k { k with
        left := k.left - 1
        timer := .asleep
        blame := { k.blame with zeroBy := k.blame.timerBy } }
  | wake (ht : k.timer = .asleep) : Step full k { k with held := false, timer := .awake }
  | press (hh : k.handler = .elsewhere) (hleft : k.left ≠ 0) :
      Step full k { k with handler := .pressed }
  | note (hh : k.handler = .pressed) :
      Step full k { k with
        held := true
        handler := .elsewhere
        blame := { k.blame with
          heldBy := k.blame.presses
          presses := k.blame.presses + 1 } }
  /-- Not of a press that has been counted to the end, with the note still there
  and the countdown started again. -/
  | release (hh : k.handler = .elsewhere) (hheld : k.held = true)
      (hslept : k.timer = .asleep → k.blame.timerBy = k.blame.heldBy → k.left = 0) :
      Step full k { k with
        handler := .released
        blame := { k.blame with handlerBy := k.blame.heldBy } }
  | clear (hh : k.handler = .released) : Step full k { k with held := false, handler := .cleared }
  | late (hh : k.handler = .cleared) : Step full k { k with handler := .elsewhere }
  | early (hh : k.handler = .cleared) (hleft : k.left ≠ 0) :
      Step full k { k with handler := .early }
  | again (hh : k.handler = .early) : Step full k { k with left := full, handler := .ready }
  | ask (hh : k.handler = .ready) :
      Step full k { k with
        asked := true
        handler := .elsewhere
        blame := { k.blame with askedBy := k.blame.handlerBy } }
  /-- Another key takes the note away, -/
  | cancel (hh : k.handler = .elsewhere) :
      Step full k { k with held := false, handler := .elsewhere }
  /-- and starts the countdown again. -/
  | reset (hh : k.handler = .elsewhere) :
      Step full k { k with left := full, handler := .elsewhere }
  | start (hw : k.worker = .elsewhere) (hleft : k.left = 0) :
      Step full k { k with
        worker := .starting
        blame := { k.blame with workerBy := k.blame.zeroBy } }
  | call (hw : k.worker = .starting) :
      Step full k { k with
        worker := .session
        blame := { k.blame with done := k.blame.done ++ [k.blame.workerBy] } }
  /-- Not while the handler has seen the note and not looked at the countdown. -/
  | restart (hw : k.worker = .session) (hreleased : k.handler ≠ .released)
      (hcleared : k.handler ≠ .cleared) :
      Step full k { k with left := full, worker := .elsewhere }
  | take (hw : k.worker = .elsewhere) (hasked : k.asked = true) :
      Step full k { k with
        worker := .taken
        blame := { k.blame with workerBy := k.blame.askedBy } }
  | untake (hw : k.worker = .taken) : Step full k { k with asked := false, worker := .acting }
  | act (hw : k.worker = .acting) :
      Step full k { k with
        worker := .elsewhere
        blame := { k.blame with done := k.blame.done ++ [k.blame.workerBy] } }

/-! ## What the presses have caused -/

def zeroOwed (k : Keypad) : Multiset ℕ :=
  if k.left = 0 ∧ k.worker ≠ .starting ∧ k.worker ≠ .session then {k.blame.zeroBy} else 0

def workerOwed (k : Keypad) : Multiset ℕ :=
  if k.worker = .starting ∨ k.worker = .taken ∨ k.worker = .acting then {k.blame.workerBy} else 0

def askedOwed (k : Keypad) : Multiset ℕ :=
  if k.asked = true ∧ k.worker ≠ .taken then {k.blame.askedBy} else 0

def caused (k : Keypad) : Multiset ℕ := k.blame.done + k.zeroOwed + k.workerOwed + k.askedOwed

structure Inv (full : ℤ) (k : Keypad) : Prop where
  /-- No press causes two things. -/
  nodup : k.caused.Nodup
  known : ∀ n ∈ k.caused, n < k.blame.presses
  heldKnown : k.held = true → k.blame.heldBy < k.blame.presses
  timerKnown : k.timer = .counting → k.blame.timerBy < k.blame.presses
  handlerKnown : k.handler = .released ∨ k.handler = .cleared ∨ k.handler = .early
    ∨ k.handler = .ready → k.blame.handlerBy < k.blame.presses
  /-- The note of a press that has caused something is one that the timer will
  take away. -/
  heldCaused : k.held = true → k.blame.heldBy ∈ k.caused →
    k.timer = .asleep ∧ k.blame.timerBy = k.blame.heldBy
  /-- The timer does not count to the end for a press that has caused
  something, -/
  timerCaused : k.timer = .counting → k.blame.timerBy ∈ k.caused → k.left = full
  /-- and the handler does not ask for it. -/
  handlerCaused : k.handler = .released ∨ k.handler = .cleared →
    k.blame.handlerBy ∈ k.caused → k.left = 0
  handlerFree : k.handler = .early ∨ k.handler = .ready → k.blame.handlerBy ∉ k.caused
  notHeld : k.handler = .cleared ∨ k.handler = .early ∨ k.handler = .ready → k.held = false
  ready : k.handler = .ready → k.timer = .counting → k.left = full
  leftGe : 0 ≤ k.left
  leftLe : k.left ≤ full
  countingPos : k.timer = .counting → 1 ≤ k.left
  awakePos : k.timer = .awake → k.held = true → 1 ≤ k.left
  pressedPos : k.handler = .pressed → 1 ≤ k.left

section

variable {full : ℤ} {k k' : Keypad} (hs : Step full k k') (hfull : 1 < full)

theorem zeroOwed_of_ne (h : k.left ≠ 0) : k.zeroOwed = 0 := if_neg fun hzero => h hzero.1

theorem caused_le_of_zeroOwed (h : k'.zeroOwed = 0) (hd : k'.blame.done = k.blame.done)
    (hw : k'.workerOwed = k.workerOwed) (ha : k'.askedOwed = k.askedOwed) :
    k'.caused ≤ k.caused := by
  simp only [caused, h, hd, hw, ha, add_zero]
  gcongr
  exact Multiset.le_add_right ..

theorem coe_append_singleton (l : List ℕ) (n : ℕ) :
    ((l ++ [n] : List ℕ) : Multiset ℕ) = (l : Multiset ℕ) + {n} :=
  rfl

include hs hfull

theorem Step.caused_le : k'.caused ≤ k.caused
    ∨ k'.caused ≤ k.blame.timerBy ::ₘ k.caused ∧ k.timer = .counting ∧ k.left = 1
      ∧ k'.timer = .asleep
    ∨ k'.caused ≤ k.blame.handlerBy ::ₘ k.caused ∧ k.handler = .ready
      ∧ k'.handler = .elsewhere := by
  have hzero : full ≠ 0 := by omega
  cases hs with
  | tick ht hleft => exact .inl (caused_le_of_zeroOwed (zeroOwed_of_ne hleft) rfl rfl rfl)
  | finish ht hleft hpressed hearly =>
    refine .inr (.inl ⟨?_, ht, by omega, rfl⟩)
    have hnew : zeroOwed { k with
        left := k.left - 1
        timer := .asleep
        blame := { k.blame with zeroBy := k.blame.timerBy } } ≤ {k.blame.timerBy} := by
      unfold zeroOwed
      split
      · exact le_refl _
      · exact Multiset.zero_le _
    have hold : k.caused = k.blame.done + k.workerOwed + k.askedOwed := by
      rw [caused, zeroOwed_of_ne (by omega : k.left ≠ 0), add_zero]
    rw [hold, ← Multiset.singleton_add, ← add_assoc, ← add_assoc, add_comm {_}]
    show k.blame.done + zeroOwed _ + k.workerOwed + k.askedOwed ≤ _
    gcongr
  | again hh => exact .inl (caused_le_of_zeroOwed (zeroOwed_of_ne hzero) rfl rfl rfl)
  | ask hh =>
    refine .inr (.inr ⟨?_, hh, rfl⟩)
    have hold : k.caused = k.blame.done + k.zeroOwed + k.workerOwed + k.askedOwed := rfl
    rw [hold, ← Multiset.singleton_add, add_comm, add_assoc _ k.askedOwed]
    show k.blame.done + k.zeroOwed + k.workerOwed + askedOwed _ ≤ _
    gcongr
    unfold askedOwed
    split
    · exact Multiset.le_add_left ..
    · exact Multiset.zero_le _
  | reset hh => exact .inl (caused_le_of_zeroOwed (zeroOwed_of_ne hzero) rfl rfl rfl)
  | start hw hleft => exact .inl (by simp [caused, zeroOwed, workerOwed, askedOwed, hw, hleft])
  | call hw =>
    refine .inl ?_
    simp [caused, zeroOwed, workerOwed, askedOwed, hw, coe_append_singleton]
  | restart hw => exact .inl (by simp [caused, zeroOwed, workerOwed, askedOwed, hw, hzero])
  | take hw hasked => exact .inl (by simp [caused, zeroOwed, workerOwed, askedOwed, hw, hasked])
  | untake hw => exact .inl (by simp [caused, zeroOwed, workerOwed, askedOwed, hw])
  | act hw =>
    refine .inl ?_
    simp [caused, zeroOwed, workerOwed, askedOwed, hw, coe_append_singleton, add_right_comm]
  | _ => exact .inl (le_refl _)

theorem Step.mem_caused {n : ℕ} (hn : n ∈ k'.caused) : n ∈ k.caused
    ∨ n = k.blame.timerBy ∧ k.timer = .counting ∧ k.left = 1 ∧ k'.timer = .asleep
    ∨ n = k.blame.handlerBy ∧ k.handler = .ready ∧ k'.handler = .elsewhere := by
  rcases hs.caused_le hfull with hle | ⟨hle, hrest⟩ | ⟨hle, hrest⟩
  · exact .inl (Multiset.mem_of_le hle hn)
  · rcases Multiset.mem_cons.mp (Multiset.mem_of_le hle hn) with heq | hmem
    · exact .inr (.inl ⟨heq, hrest⟩)
    · exact .inl hmem
  · rcases Multiset.mem_cons.mp (Multiset.mem_of_le hle hn) with heq | hmem
    · exact .inr (.inr ⟨heq, hrest⟩)
    · exact .inl hmem

/-! ## The invariant is kept -/

theorem Step.nodup (h : k.Inv full) : k'.caused.Nodup := by
  rcases hs.caused_le hfull with hle | ⟨hle, hcounting, hleft, -⟩ | ⟨hle, hready, -⟩
  · exact Multiset.nodup_of_le hle h.nodup
  · refine Multiset.nodup_of_le hle (Multiset.nodup_cons.mpr ⟨fun hmem => ?_, h.nodup⟩)
    have hagain := h.timerCaused hcounting hmem
    omega
  · exact Multiset.nodup_of_le hle (Multiset.nodup_cons.mpr ⟨h.handlerFree (.inr hready), h.nodup⟩)

theorem Step.known (h : k.Inv full) {n : ℕ} (hn : n ∈ k'.caused) : n < k'.blame.presses := by
  have hgrow : k.blame.presses ≤ k'.blame.presses := by
    cases hs <;> simp
  refine Nat.lt_of_lt_of_le ?_ hgrow
  rcases hs.mem_caused hfull hn with hmem | ⟨rfl, hcounting, -⟩ | ⟨rfl, hready, -⟩
  · exact h.known n hmem
  · exact h.timerKnown hcounting
  · exact h.handlerKnown (.inr (.inr (.inr hready)))

omit hfull in
theorem Step.blameKnown (h : k.Inv full) : (k'.held = true → k'.blame.heldBy < k'.blame.presses)
    ∧ (k'.timer = .counting → k'.blame.timerBy < k'.blame.presses)
    ∧ (k'.handler = .released ∨ k'.handler = .cleared ∨ k'.handler = .early
      ∨ k'.handler = .ready → k'.blame.handlerBy < k'.blame.presses) := by
  have hheld := h.heldKnown
  have htimer := h.timerKnown
  have hhandler := h.handlerKnown
  cases hs <;> grind -ring -linarith -ac -order

theorem Step.heldCaused (h : k.Inv full)
    (hheld : k'.held = true) (hc : k'.blame.heldBy ∈ k'.caused) :
    k'.timer = .asleep ∧ k'.blame.timerBy = k'.blame.heldBy := by
  have hmem := hs.mem_caused hfull hc
  have hcaused := h.heldCaused
  have hnot := h.notHeld
  -- a press that has just been noted has caused nothing
  have hfresh := h.known k.blame.presses
  clear hc
  cases hs <;> grind -ring -linarith -ac -order

theorem Step.timerCaused (h : k.Inv full)
    (ht : k'.timer = .counting) (hc : k'.blame.timerBy ∈ k'.caused) : k'.left = full := by
  have hmem := hs.mem_caused hfull hc
  have hheld := h.heldCaused
  have hcaused := h.timerCaused
  have hready := h.ready
  clear hc
  cases hs <;> grind -ring -linarith -ac -order

theorem Step.handlerCaused (h : k.Inv full) (hh : k'.handler = .released ∨ k'.handler = .cleared)
    (hc : k'.blame.handlerBy ∈ k'.caused) : k'.left = 0 := by
  have hmem := hs.mem_caused hfull hc
  have hheld := h.heldCaused
  have hcaused := h.handlerCaused
  have hpos := h.countingPos
  clear hc
  cases hs <;> grind -ring -linarith -ac -order

theorem Step.handlerFree (h : k.Inv full)
    (hh : k'.handler = .early ∨ k'.handler = .ready) : k'.blame.handlerBy ∉ k'.caused := by
  intro hc
  have hmem := hs.mem_caused hfull hc
  have hready := h.ready
  have hcaused := h.handlerCaused
  have hfree := h.handlerFree
  clear hc
  cases hs <;> grind -ring -linarith -ac -order

omit hfull in
theorem Step.asking (h : k.Inv full) :
    (k'.handler = .cleared ∨ k'.handler = .early ∨ k'.handler = .ready → k'.held = false)
      ∧ (k'.handler = .ready → k'.timer = .counting → k'.left = full) := by
  have hnot := h.notHeld
  have hready := h.ready
  cases hs <;> grind -ring -linarith -ac -order

theorem Step.range (h : k.Inv full) :
    0 ≤ k'.left ∧ k'.left ≤ full ∧ (k'.timer = .counting → 1 ≤ k'.left)
      ∧ (k'.timer = .awake → k'.held = true → 1 ≤ k'.left)
      ∧ (k'.handler = .pressed → 1 ≤ k'.left) := by
  have hge := h.leftGe
  have hle := h.leftLe
  have hcounting := h.countingPos
  have hawake := h.awakePos
  have hpressed := h.pressedPos
  cases hs <;> grind -ring -linarith -ac -order

theorem Step.inv (h : k.Inv full) : k'.Inv full where
  nodup := hs.nodup hfull h
  known _ hn := hs.known hfull h hn
  heldKnown := (hs.blameKnown h).1
  timerKnown := (hs.blameKnown h).2.1
  handlerKnown := (hs.blameKnown h).2.2
  heldCaused := hs.heldCaused hfull h
  timerCaused := hs.timerCaused hfull h
  handlerCaused := hs.handlerCaused hfull h
  handlerFree := hs.handlerFree hfull h
  notHeld := (hs.asking h).1
  ready := (hs.asking h).2
  leftGe := (hs.range hfull h).1
  leftLe := (hs.range hfull h).2.1
  countingPos := (hs.range hfull h).2.2.1
  awakePos := (hs.range hfull h).2.2.2.1
  pressedPos := (hs.range hfull h).2.2.2.2

omit hfull

omit hs

theorem Inv.nodup_done (h : k.Inv full) : k.blame.done.Nodup := by
  rw [← Multiset.coe_nodup]
  refine Multiset.nodup_of_le ?_ h.nodup
  unfold caused
  rw [add_assoc, add_assoc]
  exact Multiset.le_add_right ..

end

end Keypad

end HeldKey
