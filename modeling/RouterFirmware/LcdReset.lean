import RouterFirmware.LcdDaemon
import RouterFirmware.Transitions
import Mathlib.Tactic.Linarith

/-!
# The factory reset and the keys

Holding the WPS key and the menu key together for ten ticks of the timer resets
the device.
-/

/-- **The daemon and its two reset keys.** -/
structure ResetWorld where
  lcd : Lcd
  /-- The WPS key `0x100` is physically down. -/
  wpsDown : Bool
  /-- The menu key `0x101` is physically down. -/
  menuDown : Bool
  /-- The ticks in a row, up to the last one, at which both keys were down
  and since which neither has come up. -/
  heldTicks : ℕ

inductive ResetEvent where
  /-- The timer task runs to where it blocks next. -/
  | timer
  /-- The key task handles an event. -/
  | key (ev : InputEvent)
  /-- `enter_doze.sh` returns in the key task. -/
  | keyWake
  /-- Another process writes the shared memory, `PIN_status` included. -/
  | shared (info : AllInfo)
  /-- Another thread stores the panel counters. -/
  | counters (dimHalf off : ℤ)
deriving DecidableEq

namespace ResetWorld

open InputEvent Lcd List

def start (info : AllInfo) : ResetWorld := ⟨Lcd.start info, false, false, 0⟩

def bothDown (w : ResetWorld) : Bool := w.wpsDown && w.menuDown

def keyNum (down : Bool) : ℤ := if down then 1 else 0

def keysDown (w : ResetWorld) : ℤ := keyNum w.wpsDown + keyNum w.menuDown

def IsRelease (ev : InputEvent) : Prop :=
  ev.type = evKey ∧ ev.value = 0 ∧ (ev.code = 0x100 ∨ ev.code = 0x101)

instance (ev : InputEvent) : Decidable (IsRelease ev) :=
  inferInstanceAs (Decidable (_ ∧ _ ∧ (_ ∨ _)))

def keyAfter (code : ℕ) (down : Bool) (ev : InputEvent) : Bool :=
  if ev.type = evKey ∧ ev.code = code then
    if ev.value = 1 then true else if ev.value = 0 then false else down
  else down

def Alternates (code : ℕ) (down : Bool) (ev : InputEvent) : Prop :=
  ev.type = evKey → ev.code = code →
    (ev.value = 1 → down = false) ∧ (ev.value = 0 → down = true)

instance (code : ℕ) (down : Bool) (ev : InputEvent) : Decidable (Alternates code down ev) :=
  inferInstanceAs (Decidable (_ → _ → _))

def quiet (w : ResetWorld) : Lcd := { w.lcd with out := [] }

def ticksAfter (w : ResetWorld) (lcd : Lcd) : ℕ :=
  if lcd.passes = w.lcd.passes then w.heldTicks
  else if w.bothDown then w.heldTicks + 1 else 0

def step (w : ResetWorld) : ResetEvent → ResetWorld
  | .timer =>
    { w with
      lcd := w.quiet.timerHandle
      heldTicks := w.ticksAfter w.quiet.timerHandle }
  | .key ev =>
    { lcd := w.quiet.keyeventTask ev
      wpsDown := keyAfter 0x100 w.wpsDown ev
      menuDown := keyAfter 0x101 w.menuDown ev
      heldTicks := if IsRelease ev then 0 else w.heldTicks }
  | .keyWake => { w with lcd := w.quiet.keyExitDoze }
  | .shared info => { w with lcd := { w.quiet with allInfo := info } }
  | .counters dimHalf off =>
    { w with lcd := { w.quiet with gLcdDimHalf := dimHalf, gLcdOff := off } }

def Enabled (w : ResetWorld) : ResetEvent → Prop
  | .timer => True
  | .key ev =>
    w.lcd.keyPc = .reading ∧ Alternates 0x100 w.wpsDown ev ∧ Alternates 0x101 w.menuDown ev
  | .keyWake => w.lcd.keyPc = .dozing
  | .shared _ => True
  | .counters _ _ => True

instance (w : ResetWorld) : DecidablePred w.Enabled := fun e => by
  cases e <;> unfold Enabled <;> infer_instance

def Reaches (ok : ResetWorld → ResetEvent → Prop) (info : AllInfo) : ResetWorld → Prop :=
  Transitions.Reaches (fun w e => if w.Enabled e then some (w.step e) else none) ok (start info)

def ReleaseCounted (w : ResetWorld) : ResetEvent → Prop
  | .key ev => IsRelease ev →
    (w.lcd.gLcdDimHalf ≠ -1 ∧ w.lcd.allInfo.pinStatus = .ready)
      ∨ w.lcd.gIsStartResetToDefault < w.keysDown
  | _ => True

/-! ## What a piece of code does to the countdown

Most of what the tasks do leaves the countdown alone. `Idle` says so, and
everything the timer can do is then one of two things: idle, or idle and
then the end of its loop. -/

/-- From `s` to `s'` nothing has happened to the reset countdown. -/
structure Idle (s s' : Lcd) : Prop where
  count : s'.gIsStartResetToDefault = s.gIsStartResetToDefault
  time : s'.gResetToDefaultTime = s.gResetToDefaultTime
  run : s'.gIsRunUpdate = s.gIsRunUpdate
  passes : s'.passes = s.passes
  out : .brDefault ∈ s'.out → .brDefault ∈ s.out

variable (s : Lcd)

theorem Idle.refl : Idle s s := ⟨rfl, rfl, rfl, rfl, id⟩

theorem Idle.trans {s₁ s₂ s₃ : Lcd} (h : Idle s₁ s₂) (h' : Idle s₂ s₃) : Idle s₁ s₃ :=
  ⟨h'.count.trans h.count, h'.time.trans h.time, h'.run.trans h.run,
    h'.passes.trans h.passes, fun hm => h.out (h'.out hm)⟩

theorem idle_emit {c : List LcdCommand} (h : .brDefault ∉ c) : Idle s (s.emit c) :=
  ⟨rfl, rfl, rfl, rfl, fun hm => (mem_append.mp hm).resolve_right h⟩

def TimerEffect (s s' : Lcd) : Prop :=
  Idle s s' ∨ ∃ t, Idle s t ∧ s' = t.timerReset

theorem TimerEffect.of_idle {t s s' : Lcd} (h : Idle s t) (h' : TimerEffect t s') :
    TimerEffect s s' := by
  obtain h' | ⟨u, hu, rfl⟩ := h'
  · exact Or.inl (h.trans h')
  · exact Or.inr ⟨u, h.trans hu, rfl⟩

theorem timerWps_effect : TimerEffect s s.timerWps := by
  unfold timerWps
  dsimp only
  split
  · split
    · exact Or.inl ⟨rfl, rfl, rfl, rfl, id⟩
    · exact Or.inr ⟨{ s with gWpsEnableTime := s.gWpsEnableTime - 1 },
        ⟨rfl, rfl, rfl, rfl, id⟩, rfl⟩
  · exact Or.inr ⟨s, Idle.refl s, rfl⟩

theorem timerLogCount_effect : TimerEffect s s.timerLogCount :=
  TimerEffect.of_idle (idle_emit s (by simp)) (timerWps_effect _)

theorem timerWifi_effect : TimerEffect s s.timerWifi := by
  unfold timerWifi
  split
  · -- the count goes up or stays, and the doze or `ap_rm` may block
    dsimp only
    set t := if s.gAutoWiFiOffCount < s.allInfo.sleepTime then
        { s with gAutoWiFiOffCount := s.gAutoWiFiOffCount + 1 } else s with ht
    have hst : Idle s t := by
      rw [ht]
      split
      · exact ⟨rfl, rfl, rfl, rfl, id⟩
      · exact Idle.refl s
    refine TimerEffect.of_idle hst ?_
    split
    · split
      · have h := idle_emit t (c := [.resetBar, .drawLine1 "Sleeping...Zzz", .enterDoze]) (by simp)
        exact Or.inl ⟨rfl, rfl, rfl, rfl, h.out⟩
      · split
        · have h := idle_emit t (c := [.apRm, .log "WiFi Auto off..."]) (by simp)
          refine TimerEffect.of_idle h ?_
          split
          · exact Or.inl ⟨rfl, rfl, rfl, rfl, id⟩
          · exact timerLogCount_effect _
        · exact timerLogCount_effect _
    · exact timerLogCount_effect _
  · exact TimerEffect.of_idle (t := { s with gAutoWiFiOffCount := 0, gIsStartAutoWiFiOff := false })
      ⟨rfl, rfl, rfl, rfl, id⟩ (timerWps_effect _)

theorem timerDim_idle : Idle s s.timerDim := by
  unfold timerDim
  dsimp only
  have hdim : Idle s (if 0 < s.gLcdDimHalf then
      { s with gLcdDimHalf := s.gLcdDimHalf - 1 } else s) := by
    split
    · exact ⟨rfl, rfl, rfl, rfl, id⟩
    · exact Idle.refl s
  refine hdim.trans ?_
  generalize (if 0 < s.gLcdDimHalf then
    { s with gLcdDimHalf := s.gLcdDimHalf - 1 } else s) = t
  split
  · have hback : Idle t (if t.gLcdDimHalf = 0 then
        { t.emit [.brightness 0] with gLcdDimHalf := t.gLcdDimHalf - 1 } else t) := by
      split
      · exact ⟨rfl, rfl, rfl, rfl, (idle_emit t (c := [.brightness 0]) (by simp)).out⟩
      · exact Idle.refl t
    refine hback.trans ?_
    generalize (if t.gLcdDimHalf = 0 then
      { t.emit [.brightness 0] with gLcdDimHalf := t.gLcdDimHalf - 1 } else t) = u
    split
    · exact ⟨rfl, rfl, rfl, rfl, id⟩
    · split
      · exact ⟨rfl, rfl, rfl, rfl, (idle_emit u (c := [.blank 1]) (by simp)).out⟩
      · exact Idle.refl u
  · exact Idle.refl t

theorem timerTop_effect : TimerEffect s s.timerTop := by
  unfold timerTop
  refine TimerEffect.of_idle (timerDim_idle s) ?_
  dsimp only
  split
  · have h := idle_emit s.timerDim (c := [.log "Stop count timer..."]) (by simp)
    exact Or.inl ⟨rfl, rfl, rfl, rfl, h.out⟩
  · exact timerWifi_effect _

theorem timerHandle_effect : TimerEffect s s.timerHandle := by
  unfold timerHandle
  split
  · split
    · exact timerTop_effect s
    · exact Or.inl (Idle.refl s)
  · split
    · refine TimerEffect.of_idle (t := ({ s with gTimerSem := s.gTimerSem - 1 }.emit
        [.log "Start count timer..."])) ?_ (timerWifi_effect _)
      exact ⟨rfl, rfl, rfl, rfl, (idle_emit s (c := [.log "Start count timer..."]) (by simp)).out⟩
    · exact Or.inl (Idle.refl s)
  · refine TimerEffect.of_idle (t := { s.emit [.exitDoze] with gIsSleepMode := false })
      ⟨rfl, rfl, rfl, rfl, (idle_emit s (c := [.exitDoze]) (by simp)).out⟩ (timerLogCount_effect _)
  · split
    · exact TimerEffect.of_idle (t := { s with gTimerSem := s.gTimerSem - 1 })
        ⟨rfl, rfl, rfl, rfl, id⟩ (timerLogCount_effect _)
    · exact Or.inl (Idle.refl s)
  · exact Or.inr ⟨{ s with gIsCountToStartWPS := false }, ⟨rfl, rfl, rfl, rfl, id⟩, rfl⟩

/-! ## What a key event does to the countdown -/

def IsPress (ev : InputEvent) : Prop :=
  ev.type = evKey ∧ ev.value = 1 ∧ (ev.code = 0x100 ∨ ev.code = 0x101)

/-- From `s` to `s'` the key task has left alone what belongs to the
timer. -/
structure KeyKeeps (s s' : Lcd) : Prop where
  run : s'.gIsRunUpdate = s.gIsRunUpdate
  passes : s'.passes = s.passes
  timerPc : s'.timerPc = s.timerPc
  out : .brDefault ∈ s'.out → .brDefault ∈ s.out

/-- The three things an event can do to the count of keys and to the countdown. -/
inductive CountEffect (ev : InputEvent) (s s' : Lcd) : Prop where
  | nothing (hc : s'.gIsStartResetToDefault = s.gIsStartResetToDefault)
      (ht : s'.gResetToDefaultTime = s.gResetToDefaultTime)
      (hdrop : IsRelease ev → s.gLcdDimHalf = -1 ∨ s.allInfo.pinStatus ≠ .ready)
  | more (hc : s'.gIsStartResetToDefault = s.gIsStartResetToDefault + 1)
      (ht : s'.gResetToDefaultTime = s.gResetToDefaultTime) (hev : IsPress ev)
  | less (hc : s'.gIsStartResetToDefault = s.releaseReset.gIsStartResetToDefault)
      (ht : s'.gResetToDefaultTime = s.releaseReset.gResetToDefaultTime)
      (hev : IsRelease ev)

theorem releaseReset_count : s.releaseReset.gIsStartResetToDefault
    = if 0 < s.gIsStartResetToDefault then s.gIsStartResetToDefault - 1
      else s.gIsStartResetToDefault := by
  unfold releaseReset
  split <;> rfl

theorem releaseReset_time : s.releaseReset.gResetToDefaultTime
    = if 0 < s.gIsStartResetToDefault then 10 else s.gResetToDefaultTime := by
  unfold releaseReset
  split <;> rfl

theorem releaseReset_keeps : KeyKeeps s s.releaseReset := by
  unfold releaseReset
  split <;> exact ⟨rfl, rfl, rfl, id⟩

theorem releaseWps_eq : s.releaseWps.gIsStartResetToDefault = s.releaseReset.gIsStartResetToDefault
    ∧ s.releaseWps.gResetToDefaultTime = s.releaseReset.gResetToDefaultTime
    ∧ KeyKeeps s s.releaseWps := by
  have h := releaseReset_keeps s
  unfold releaseWps
  dsimp only
  split
  · split <;> exact ⟨rfl, rfl, h.run, h.passes, h.timerPc, h.out⟩
  · exact ⟨rfl, rfl, h⟩

theorem pressMenu_eq : s.pressMenu.gIsStartResetToDefault = s.gIsStartResetToDefault + 1
    ∧ s.pressMenu.gResetToDefaultTime = s.gResetToDefaultTime
    ∧ KeyKeeps s s.pressMenu := by
  unfold pressMenu
  dsimp only
  split
  · exact ⟨rfl, rfl, rfl, rfl, rfl, id⟩
  · split <;> exact ⟨rfl, rfl, rfl, rfl, rfl, id⟩

theorem pressWps_eq : s.pressWps.gIsStartResetToDefault = s.gIsStartResetToDefault + 1
    ∧ s.pressWps.gResetToDefaultTime = s.gResetToDefaultTime
    ∧ KeyKeeps s s.pressWps := by
  unfold pressWps
  dsimp only
  split <;> exact ⟨rfl, rfl, rfl, rfl, rfl, id⟩

theorem keyExitDoze_idle : Idle s s.keyExitDoze ∧ s.keyExitDoze.timerPc = s.timerPc := by
  have h := idle_emit s (c := [.log "Wake up...", .exitDoze]) (by simp)
  exact ⟨⟨rfl, rfl, rfl, rfl, h.out⟩, rfl⟩

variable {ev : InputEvent}

theorem keyDispatch_effect (htype : ev.type = evKey) :
    CountEffect ev s (s.keyDispatch ev) ∧ KeyKeeps s (s.keyDispatch ev) := by
  unfold keyDispatch
  split
  · rename_i h
    obtain ⟨hc, ht, hk⟩ := pressMenu_eq s
    exact ⟨.more hc ht ⟨htype, h.1, Or.inr h.2⟩, hk.run, hk.passes, hk.timerPc, hk.out⟩
  split
  · rename_i h
    obtain ⟨hc, ht, hk⟩ := pressWps_eq s
    exact ⟨.more hc ht ⟨htype, h.1, Or.inl h.2⟩, hk.run, hk.passes, hk.timerPc, hk.out⟩
  split
  · rename_i h
    have hno : ¬ IsRelease ev := fun hr => by
      have hv := hr.2.1
      rw [h.1] at hv
      exact absurd hv (by decide)
    split
    · have ho := (idle_emit s (c := [.resetBar, .drawLine1 "Sleeping...Zzz",
        .log "Entering doze...", .enterDoze]) (by simp)).out
      exact ⟨.nothing rfl rfl (fun hr => absurd hr hno), rfl, rfl, rfl, ho⟩
    · exact ⟨.nothing rfl rfl (fun hr => absurd hr hno), rfl, rfl, rfl, id⟩
  split
  · rename_i h
    obtain ⟨hc, ht, hk⟩ := releaseWps_eq s
    exact ⟨.less hc ht ⟨htype, h.1, Or.inl h.2⟩, hk.run, hk.passes, hk.timerPc, hk.out⟩
  split
  · rename_i h
    have hk := releaseReset_keeps s
    exact ⟨.less rfl rfl ⟨htype, h.1, Or.inr h.2⟩, hk.run, hk.passes, hk.timerPc, hk.out⟩
  · -- none of the branches: the event is not one of a reset key
    rename_i h₁ h₂
    refine ⟨.nothing rfl rfl (fun hr => ?_), rfl, rfl, rfl, id⟩
    obtain hcode | hcode := hr.2.2
    · exact absurd ⟨hr.2.1, hcode⟩ h₁
    · exact absurd ⟨hr.2.1, hcode⟩ h₂

theorem keyeventTask_effect (ev : InputEvent) :
    CountEffect ev s (s.keyeventTask ev) ∧ KeyKeeps s (s.keyeventTask ev) := by
  have hlight := (idle_emit s (c := [.blank 0, .brightness 128]) (by simp)).out
  unfold keyeventTask
  split
  · rename_i h
    exact ⟨.nothing rfl rfl (fun hr => absurd hr.1 h), rfl, rfl, rfl, id⟩
  rename_i htype
  have htype : ev.type = evKey := not_not.mp htype
  split
  · rename_i h
    refine ⟨.nothing rfl rfl (fun hr => ?_), rfl, rfl, rfl, id⟩
    rw [hr.2.1] at h
    exact absurd h.1 (by decide)
  split
  · rename_i h
    exact ⟨.nothing rfl rfl (fun _ => Or.inl h.1), rfl, rfl, rfl, hlight⟩
  dsimp only
  split
  · -- `KEY_SLEEP` on a panel that is off: the panel is lit and no dim is left
    rename_i h₃ h
    have hsleep : ev.code = keySleep := by
      by_contra hne
      exact h₃ ⟨h.1, h.2, hne⟩
    have hno : ¬ IsRelease ev := fun hr => by
      rw [IsRelease, hsleep] at hr
      exact absurd hr.2.2 (by decide)
    set t := (s.emit [.blank 0, .brightness 128]).initLCDTime with ht
    have hdim : ¬ t.gLcdDimHalf = -1 := show ¬ (10 : ℤ) = -1 by decide
    rw [if_neg hdim, if_neg (fun hp => hp.2 hsleep)]
    obtain ⟨hcount, hkeep⟩ := keyDispatch_effect t htype
    refine ⟨?_, hkeep.run, hkeep.passes, hkeep.timerPc, fun hm => hlight (hkeep.out hm)⟩
    cases hcount with
    | nothing hc ht _ => exact .nothing hc ht (fun hr => absurd hr hno)
    | more hc ht hev => exact .more hc ht hev
    | less hc ht hev => exact absurd hev hno
  · split
    · rename_i h
      have ho := (idle_emit s (c := [.brightness 128]) (by simp)).out
      exact ⟨.nothing rfl rfl (fun _ => Or.inl h), rfl, rfl, rfl, ho⟩
    split
    · rename_i h
      exact ⟨.nothing rfl rfl (fun _ => Or.inr h.1), rfl, rfl, rfl, id⟩
    · exact keyDispatch_effect s htype

/-! ## The count follows the keys -/

/-- **The invariant of a run that loses no release.** -/
structure Tracks (w : ResetWorld) : Prop where
  /-- The count is a number of keys. -/
  nonneg : 0 ≤ w.lcd.gIsStartResetToDefault
  /-- It is at most the number of keys held. -/
  le_keys : w.lcd.gIsStartResetToDefault ≤ w.keysDown
  /-- The countdown starts from ten. -/
  time_le : w.lcd.gResetToDefaultTime ≤ 10
  /-- It has not reached zero while the daemon runs. -/
  pos : w.lcd.gIsRunUpdate = true → 0 < w.lcd.gResetToDefaultTime
  /-- It has started only if two keys are counted. -/
  full : w.lcd.gResetToDefaultTime < 10 → w.lcd.gIsStartResetToDefault = 2
  /-- It has not run longer than both keys have been held. -/
  ticks : 10 - w.lcd.gResetToDefaultTime ≤ w.heldTicks
  /-- Once the daemon stops, the timer is at the end of its loop. -/
  stopped : w.lcd.gIsRunUpdate = false → w.lcd.timerPc = .top

theorem keyNum_mem (down : Bool) : keyNum down = 0 ∨ keyNum down = 1 := by
  cases down
  · exact Or.inl rfl
  · exact Or.inr rfl

theorem keysDown_mem (w : ResetWorld) : 0 ≤ w.keysDown ∧ w.keysDown ≤ 2 := by
  have h₁ := keyNum_mem w.wpsDown
  have h₂ := keyNum_mem w.menuDown
  unfold keysDown
  omega

variable {w : ResetWorld} (h₁ : Alternates 0x100 w.wpsDown ev) (h : Tracks w)

theorem bothDown_of_two_le (h : 2 ≤ w.keysDown) : w.bothDown = true := by
  have h₁ := keyNum_mem w.wpsDown
  have h₂ := keyNum_mem w.menuDown
  have down_of_one : ∀ b : Bool, keyNum b = 1 → b = true := by decide
  unfold keysDown at h
  rw [bothDown, down_of_one w.wpsDown (by omega), down_of_one w.menuDown (by omega)]
  rfl

theorem tracks_start (info : AllInfo) : Tracks (start info) where
  nonneg := le_refl (0 : ℤ)
  le_keys := le_refl (0 : ℤ)
  time_le := le_refl (10 : ℤ)
  pos := fun _ => show (0 : ℤ) < 10 by decide
  full := fun h => absurd (show (10 : ℤ) < 10 from h) (by decide)
  ticks := le_refl (0 : ℤ)
  stopped := fun h => absurd (show true = false from h) (by decide)

section Keys

def change (ev : InputEvent) : ℤ := if ev.value = 1 then 1 else -1

theorem keyNum_keyAfter {code : ℕ} {down : Bool} (halt : Alternates code down ev)
    (ht : ev.type = evKey) (hc : ev.code = code) (hv : ev.value = 1 ∨ ev.value = 0) :
    keyNum (keyAfter code down ev) = keyNum down + change ev := by
  rw [keyAfter, if_pos ⟨ht, hc⟩, change]
  rcases hv with hv | hv
  · rw [if_pos hv, if_pos hv, (halt ht hc).1 hv]
    rfl
  · rw [if_neg (by omega), if_pos hv, if_neg (by omega), (halt ht hc).2 hv]
    rfl

theorem keyAfter_of_ne {code : ℕ} {down : Bool} (hc : ev.code ≠ code) :
    keyAfter code down ev = down :=
  if_neg (fun h => hc h.2)

theorem keyNum_le_keyAfter {code : ℕ} {down : Bool}
    (h : ev.type = evKey → ev.code = code → ev.value ≠ 0) :
    keyNum down ≤ keyNum (keyAfter code down ev) := by
  unfold keyAfter
  split
  · rename_i hev
    rw [if_neg (h hev.1 hev.2)]
    split
    · have := keyNum_mem down
      show keyNum down ≤ 1
      omega
    · exact le_refl _
  · exact le_refl _

end Keys

include h₁

theorem keysDown_change (h₂ : Alternates 0x101 w.menuDown ev) (ht : ev.type = evKey)
    (hv : ev.value = 1 ∨ ev.value = 0) (hc : ev.code = 0x100 ∨ ev.code = 0x101) :
    (w.step (.key ev)).keysDown = w.keysDown + change ev := by
  show keyNum (keyAfter 0x100 _ ev) + keyNum (keyAfter 0x101 _ ev) = _
  rw [keysDown]
  rcases hc with hc | hc
  · rw [keyNum_keyAfter h₁ ht hc hv, keyAfter_of_ne (by omega)]
    omega
  · rw [keyNum_keyAfter h₂ ht hc hv, keyAfter_of_ne (by omega)]
    omega

theorem keysDown_press (h₂ : Alternates 0x101 w.menuDown ev) (hev : IsPress ev) :
    (w.step (.key ev)).keysDown = w.keysDown + 1 := by
  rw [keysDown_change h₁ h₂ hev.1 (.inl hev.2.1) hev.2.2, change, if_pos hev.2.1]

theorem keysDown_release (h₂ : Alternates 0x101 w.menuDown ev) (hev : IsRelease ev) :
    (w.step (.key ev)).keysDown = w.keysDown - 1 := by
  have hv := hev.2.1
  rw [keysDown_change h₁ h₂ hev.1 (.inr hv) hev.2.2, change, if_neg (by omega), Int.sub_eq_add_neg]

omit h₁ in
theorem keysDown_le_of_not_release
    (hev : ¬ IsRelease ev) : w.keysDown ≤ (w.step (.key ev)).keysDown :=
  add_le_add
    (keyNum_le_keyAfter (fun ht hc hv => hev ⟨ht, hv, Or.inl hc⟩))
    (keyNum_le_keyAfter (fun ht hc hv => hev ⟨ht, hv, Or.inr hc⟩))

omit h₁

include h

theorem Tracks.time_eq_ten
    (hlt : w.lcd.gIsStartResetToDefault < 2) : w.lcd.gResetToDefaultTime = 10 := by
  have hle := h.time_le
  by_contra hne
  have := h.full (by omega)
  omega

omit h in
theorem Tracks.of_time_eq_ten (hnonneg : 0 ≤ w.lcd.gIsStartResetToDefault)
    (hle : w.lcd.gIsStartResetToDefault ≤ w.keysDown) (htime : w.lcd.gResetToDefaultTime = 10)
    (hstop : w.lcd.gIsRunUpdate = false → w.lcd.timerPc = .top) : Tracks w :=
  ⟨hnonneg, hle, by omega, fun _ => by omega, fun hlt => by omega, by omega, hstop⟩

omit h in
/-- What a key event does to the count, as the world sees it. -/
theorem countEffect_step (w : ResetWorld) (ev : InputEvent) :
    CountEffect ev w.lcd (w.step (.key ev)).lcd := by
  cases (keyeventTask_effect w.quiet ev).1 with
  | nothing hc ht hdrop => exact .nothing hc ht hdrop
  | more hc ht hev => exact .more hc ht hev
  | less hc ht hev =>
    rw [releaseReset_count] at hc
    rw [releaseReset_time] at ht
    exact .less (hc.trans (releaseReset_count w.lcd).symm) (ht.trans (releaseReset_time w.lcd).symm)
      hev

theorem Tracks.stopped_key (hr : (w.step (.key ev)).lcd.gIsRunUpdate = false) :
    (w.step (.key ev)).lcd.timerPc = .top :=
  have hkeep := (keyeventTask_effect w.quiet ev).2
  hkeep.timerPc.trans (h.stopped (hkeep.run.symm.trans hr))

theorem tracks_release (h₁ : Alternates 0x100 w.wpsDown ev) (h₂ : Alternates 0x101 w.menuDown ev)
    (hrel : IsRelease ev) (hok : ReleaseCounted w (.key ev)) : Tracks (w.step (.key ev)) := by
  have hnn := h.nonneg
  have hle := h.le_keys
  have hkeys := keysDown_release h₁ h₂ hrel
  have hk2 := keysDown_mem w
  have hdown := keysDown_mem (w.step (.key ev))
  cases countEffect_step w ev with
  | nothing hc ht hdrop =>
    -- the release is dropped, so the count was below the keys held
    have hlt : w.lcd.gIsStartResetToDefault < w.keysDown := by
      refine (hok hrel).resolve_left (fun hseen => ?_)
      exact (hdrop hrel).elim hseen.1 (fun hp => hp hseen.2)
    exact .of_time_eq_ten (by omega) (by omega) (ht.trans (h.time_eq_ten (by omega))) h.stopped_key
  | more _ _ hev =>
    have hv := hev.2.1
    rw [hrel.2.1] at hv
    exact absurd hv (by decide)
  | less hc ht _ =>
    rw [releaseReset_count] at hc
    rw [releaseReset_time] at ht
    by_cases hz : 0 < w.lcd.gIsStartResetToDefault
    · rw [if_pos hz] at hc ht
      exact .of_time_eq_ten (by omega) (by omega) ht h.stopped_key
    · rw [if_neg hz] at hc ht
      exact .of_time_eq_ten (by omega) (by omega) (ht.trans (h.time_eq_ten (by omega)))
        h.stopped_key

theorem tracks_key (he : w.Enabled (.key ev)) (hok : ReleaseCounted w (.key ev)) :
    Tracks (w.step (.key ev)) := by
  obtain ⟨-, h₁, h₂⟩ := he
  by_cases hrel : IsRelease ev
  · exact tracks_release h h₁ h₂ hrel hok
  have hnn := h.nonneg
  have hle := h.le_keys
  have htl := h.time_le
  have htick := h.ticks
  have hfull := h.full
  have hpos : (w.step (.key ev)).lcd.gIsRunUpdate = true → 0 < w.lcd.gResetToDefaultTime :=
    fun hr => h.pos ((keyeventTask_effect w.quiet ev).2.run.symm.trans hr)
  have hheld : (w.step (.key ev)).heldTicks = w.heldTicks := if_neg hrel
  cases countEffect_step w ev with
  | nothing hc ht _ =>
    have hkeys := keysDown_le_of_not_release (w := w) hrel
    exact ⟨by omega, by omega, by omega, fun hr => by have := hpos hr; omega,
      fun hlt => by have := hfull (by omega); omega, by rw [hheld]; omega, h.stopped_key⟩
  | more hc ht hev =>
    have hkeys := keysDown_press h₁ h₂ hev
    have hk2 := keysDown_mem (w.step (.key ev))
    exact ⟨by omega, by omega, by omega, fun hr => by have := hpos hr; omega,
      fun hlt => by have := hfull (by omega); omega, by rw [hheld]; omega, h.stopped_key⟩
  | less _ _ hev => exact absurd hev hrel

omit h in
theorem timerReset_cases (t : Lcd) : (t.timerReset.gIsStartResetToDefault = t.gIsStartResetToDefault
      ∧ t.timerReset.passes = t.passes + 1 ∧ t.timerReset.timerPc = .top)
    ∧ ((¬ 1 < t.gIsStartResetToDefault
          ∧ t.timerReset.gResetToDefaultTime = t.gResetToDefaultTime
          ∧ t.timerReset.gIsRunUpdate = t.gIsRunUpdate ∧ t.timerReset.out = t.out)
      ∨ (1 < t.gIsStartResetToDefault
          ∧ t.timerReset.gResetToDefaultTime = t.gResetToDefaultTime - 1
          ∧ ((t.gResetToDefaultTime - 1 = 0 ∧ t.timerReset.gIsRunUpdate = false)
            ∨ (t.gResetToDefaultTime - 1 ≠ 0
              ∧ t.timerReset.gIsRunUpdate = t.gIsRunUpdate
              ∧ t.timerReset.out = t.out)))) := by
  unfold timerReset
  dsimp only
  split
  · rename_i h
    split
    · rename_i hz
      exact ⟨⟨rfl, rfl, rfl⟩, Or.inr ⟨h, rfl, Or.inl ⟨hz, rfl⟩⟩⟩
    · rename_i hz
      exact ⟨⟨rfl, rfl, rfl⟩, Or.inr ⟨h, rfl, Or.inr ⟨hz, rfl, rfl⟩⟩⟩
  · rename_i h
    exact ⟨⟨rfl, rfl, rfl⟩, Or.inl ⟨h, rfl, rfl, rfl⟩⟩

theorem Tracks.of_eq {w' : ResetWorld}
    (hc : w'.lcd.gIsStartResetToDefault = w.lcd.gIsStartResetToDefault)
    (ht : w'.lcd.gResetToDefaultTime = w.lcd.gResetToDefaultTime)
    (hr : w'.lcd.gIsRunUpdate = w.lcd.gIsRunUpdate)
    (hp : w'.lcd.gIsRunUpdate = false → w'.lcd.timerPc = w.lcd.timerPc)
    (hw : w'.wpsDown = w.wpsDown) (hm : w'.menuDown = w.menuDown)
    (hh : w'.heldTicks = w.heldTicks) : Tracks w' where
  nonneg := by rw [hc]; exact h.nonneg
  le_keys := by rw [hc, keysDown, hw, hm]; exact h.le_keys
  time_le := by rw [ht]; exact h.time_le
  pos := by rw [hr, ht]; exact h.pos
  full := by rw [hc, ht]; exact h.full
  ticks := by rw [ht, hh]; exact h.ticks
  stopped := fun hf => (hp hf).trans (h.stopped (hr.symm.trans hf))

theorem step_timer_of_stopped
    (hrun : w.lcd.gIsRunUpdate = false) : w.step .timer = { w with lcd := w.quiet } := by
  have hsame : w.quiet.timerHandle = w.quiet := by
    unfold timerHandle
    rw [show w.quiet.timerPc = .top from h.stopped hrun,
      show w.quiet.gIsRunUpdate = false from hrun]
    rfl
  rw [step, hsame, ticksAfter, if_pos (show w.quiet.passes = w.lcd.passes from rfl)]

theorem tracks_timerReset {t : Lcd} (hrun : w.lcd.gIsRunUpdate = true) (hidle : Idle w.quiet t)
    (heq : w.quiet.timerHandle = t.timerReset) : Tracks (w.step .timer)
    ∧ (.brDefault ∈ (w.step .timer).lcd.out →
      w.bothDown = true ∧ 10 ≤ (w.step .timer).heldTicks) := by
  have hnn := h.nonneg
  have hle := h.le_keys
  have htl := h.time_le
  have htick := h.ticks
  have hfull := h.full
  have hk2 := keysDown_mem w
  have hpos := h.pos hrun
  obtain ⟨⟨hc, hp, htop⟩, hcase⟩ := timerReset_cases t
  have hcount : t.gIsStartResetToDefault = w.lcd.gIsStartResetToDefault := hidle.count
  have htime : t.gResetToDefaultTime = w.lcd.gResetToDefaultTime := hidle.time
  have hlcd : (w.step .timer).lcd = t.timerReset := heq
  have hc : (w.step .timer).lcd.gIsStartResetToDefault
      = w.lcd.gIsStartResetToDefault := by rw [hlcd, hc, hcount]
  have hpass : ¬ w.quiet.timerHandle.passes = w.lcd.passes := by
    rw [heq, hp, hidle.passes]
    show ¬ w.lcd.passes + 1 = w.lcd.passes
    omega
  have hheld : (w.step .timer).heldTicks = if w.bothDown then w.heldTicks + 1 else 0 := if_neg hpass
  have hk : (w.step .timer).keysDown = w.keysDown := rfl
  have hstop : (w.step .timer).lcd.timerPc = .top := by rw [hlcd]; exact htop
  have hnew : t.timerReset.out = t.out → .brDefault ∉ (w.step .timer).lcd.out := by
    intro hout hm
    rw [hlcd, hout] at hm
    exact absurd (hidle.out hm) (not_mem_nil)
  obtain ⟨hlt, ht, hr, hout⟩ | ⟨hlt, ht, hz⟩ := hcase
  · -- fewer than two keys counted: the countdown has not started
    have ht : (w.step .timer).lcd.gResetToDefaultTime = w.lcd.gResetToDefaultTime := by
      rw [hlcd, ht, htime]
    refine ⟨.of_time_eq_ten (by omega) (by omega) (ht.trans (h.time_eq_ten (by omega)))
      fun _ => hstop, fun hm => absurd hm (hnew hout)⟩
  · -- two keys counted: both are held, and this tick counts
    have hboth : w.bothDown = true := bothDown_of_two_le (by omega)
    rw [hboth, if_pos rfl] at hheld
    have ht : (w.step .timer).lcd.gResetToDefaultTime
        = w.lcd.gResetToDefaultTime - 1 := by rw [hlcd, ht, htime]
    refine ⟨⟨by omega, by omega, by omega, fun hr => ?_, fun _ => by omega,
      by omega, fun _ => hstop⟩, fun hm => ⟨hboth, ?_⟩⟩
    · obtain ⟨_, hrf⟩ | ⟨hnz, _, _⟩ := hz
      · rw [hlcd, hrf] at hr
        exact absurd hr (by decide)
      · omega
    · obtain ⟨hzero, _⟩ | ⟨_, _, hout⟩ := hz
      · omega
      · exact absurd hm (hnew hout)

theorem tracks_timer : Tracks (w.step .timer)
    ∧ (.brDefault ∈ (w.step .timer).lcd.out →
      w.bothDown = true ∧ 10 ≤ (w.step .timer).heldTicks) := by
  cases hrun : w.lcd.gIsRunUpdate with
  | false =>
    rw [step_timer_of_stopped h hrun]
    exact ⟨⟨h.nonneg, h.le_keys, h.time_le, h.pos, h.full, h.ticks, h.stopped⟩,
      fun hm => absurd hm (not_mem_nil)⟩
  | true =>
    obtain hidle | ⟨t, hidle, heq⟩ := timerHandle_effect w.quiet
    · have hr : (w.step .timer).lcd.gIsRunUpdate = true := hidle.run.trans hrun
      refine ⟨h.of_eq hidle.count hidle.time (hr.trans hrun.symm)
        (fun hf => absurd (hr.symm.trans hf) (by decide)) rfl rfl (if_pos hidle.passes), ?_⟩
      exact fun hm => absurd (hidle.out hm) (not_mem_nil)
    · exact tracks_timerReset h hrun hidle heq

theorem tracks_step {e : ResetEvent} (he : w.Enabled e) (hok : ReleaseCounted w e) :
    Tracks (w.step e) := by
  cases e with
  | timer => exact (tracks_timer h).1
  | key ev => exact tracks_key h he hok
  | keyWake =>
    have hk := keyExitDoze_idle w.quiet
    refine h.of_eq hk.1.count hk.1.time hk.1.run (fun _ => hk.2) ?_ ?_ ?_ <;> simp only [step]
  | shared info => exact h.of_eq rfl rfl rfl (fun _ => rfl) rfl rfl rfl
  | counters d o => exact h.of_eq rfl rfl rfl (fun _ => rfl) rfl rfl rfl

omit h

theorem tracks_of_reaches {info : AllInfo} (h : Reaches ReleaseCounted info w) : Tracks w := by
  refine h.invariant (P := Tracks) (tracks_start info) fun w e w' hw hok hs => ?_
  obtain ⟨he, rfl⟩ := Option.ite_some_none_eq_some.mp hs
  exact tracks_step hw he hok

theorem brDefault_not_mem_of_ne_timer {e : ResetEvent} (he : e ≠ .timer) :
    .brDefault ∉ (w.step e).lcd.out := by
  intro hm
  cases e with
  | timer => exact he rfl
  | key ev =>
    exact absurd ((keyeventTask_effect w.quiet ev).2.out hm) (not_mem_nil)
  | keyWake =>
    exact absurd ((keyExitDoze_idle w.quiet).1.out hm) (not_mem_nil)
  | shared info => exact absurd hm (not_mem_nil)
  | counters d o => exact absurd hm (not_mem_nil)

/-! ## Runs -/

instance (w : ResetWorld) : DecidablePred (ReleaseCounted w) := fun e => by
  cases e <;> unfold ReleaseCounted <;> infer_instance

def readyInfo : AllInfo where
  pinStatus := .ready
  numSta := 0
  sleepTime := 100
  wifiAutoOff := false
  active := true
  allowSleep := false

/-- **The factory reset needs both keys**, in every run that loses no
release: more than one key is counted only while both keys are down, and the
reset is executed only at a tick at which both are down, as they were at
each of the nine ticks before it. -/
theorem reset_needs_both_keys (info : AllInfo) (w : ResetWorld)
    (h : Reaches ReleaseCounted info w) : (1 < w.lcd.gIsStartResetToDefault → w.bothDown = true)
    ∧ ∀ e, w.Enabled e → .brDefault ∈ (w.step e).lcd.out →
      w.bothDown = true ∧ 10 ≤ (w.step e).heldTicks := by
  have htracks := tracks_of_reaches h
  have hle := htracks.le_keys
  refine ⟨fun hlt => bothDown_of_two_le (by omega), fun e _ hm => ?_⟩
  by_cases he : e = .timer
  · rw [he] at hm ⊢
    exact (tracks_timer htracks).2 hm
  · exact absurd hm (brDefault_not_mem_of_ne_timer he)

def bothKeysRun : List ResetEvent :=
  [.key (.press 0x101), .key (.press 0x100)] ++ replicate 9 .timer

/-- Held together, the two keys do reset the device at the tenth tick. -/
theorem reset_by_both_keys :
    ∃ w, Reaches ReleaseCounted readyInfo w ∧ .brDefault ∈ (w.step .timer).lcd.out
      ∧ w.bothDown = true ∧ 10 ≤ (w.step .timer).heldTicks := by
  have hrun : (Transitions.run (fun w e => if Enabled w e then some (w.step e) else none)
      (fun w e => ReleaseCounted w e) (start readyInfo) bothKeysRun).any
        (fun w => .brDefault ∈ (w.step .timer).lcd.out) = true := by
    decide
  obtain ⟨w, hw, hout⟩ := Transitions.exists_reaches_of_run hrun
  have hw : Reaches ReleaseCounted readyInfo w := by simpa [Reaches] using hw
  have hout := of_decide_eq_true hout
  exact ⟨w, hw, hout, (reset_needs_both_keys readyInfo w hw).2 .timer trivial hout⟩

def oneKeyRun : List ResetEvent :=
  .key (.press 0x101) :: replicate 10 .timer
    ++ [.key (.release 0x101), .key (.press 0x101)] ++ replicate 9 .timer

/-- **One key resets the device**: after `oneKeyRun` the next tick executes
the factory reset, with the WPS key up all along. -/
theorem reset_with_one_key : ∃ w, Reaches (fun _ _ => True) readyInfo w ∧ w.Enabled .timer
    ∧ 1 < w.lcd.gIsStartResetToDefault ∧ .brDefault ∈ (w.step .timer).lcd.out
    ∧ w.wpsDown = false ∧ w.bothDown = false := by
  have hrun : (Transitions.run (fun w e => if Enabled w e then some (w.step e) else none)
      (fun _ _ => true) (start readyInfo) oneKeyRun).any (fun w =>
        1 < w.lcd.gIsStartResetToDefault ∧ .brDefault ∈ (w.step .timer).lcd.out
          ∧ w.wpsDown = false ∧ w.bothDown = false) = true := by
    decide
  obtain ⟨w, hw, hout⟩ := Transitions.exists_reaches_of_run hrun
  obtain ⟨hcount, hrest⟩ := of_decide_eq_true hout
  exact ⟨w, by simpa [Reaches] using hw, trivial, hcount, hrest⟩

end ResetWorld
