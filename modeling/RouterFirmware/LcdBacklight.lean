import Mathlib.Data.Option.Basic
import RouterFirmware.DimmedDisplay
import RouterFirmware.LcdThreads
import RouterFirmware.Transitions

/-!
# Backlight and panel of the LCD daemon

The timer puts out the backlight when `g_lcd_dim_half` has come down to zero,
and later the panel when `g_lcd_off` has; a key, or an empty battery, puts both
back.
-/

namespace Brlcd

open DimmedDisplay Transitions Daemon InputEvent List Option

inductive Lighter where
  | key
  | main
deriving DecidableEq

def Timer.dimmer : Timer → Dimmer
  | .ifDimPos => .ifDimPos
  | .decDim => .decDim
  | .ifDimLe => .ifDimLe
  | .ifOffGe => .ifOffGe
  | .ifDimZero => .ifDimZero
  | .darken => .darken
  | .decDimZero => .decDimZero
  | .ifOffPos => .ifOffPos
  | .ifDimmed => .ifDimmed
  | .decOff => .decOff
  | .ifOffZero => .ifOffZero
  | .blankPanel => .blankPanel
  | .decOffZero => .decOffZero
  | _ => .elsewhere

def Key.waker : Key → Waker
  | .loop | .read | .wakeMode | .wakeTimer | .wakeUpdate | .litTimer | .litUpdate => .elsewhere
  | .ifDimmed | .ifPanelOff => .looking
  | .unblank => .unblank
  | .light | .relight => .light
  | .setDim | .resetDim => .setDim
  | .setOff | .resetOff | .doneOff => .setOff
  | .ifDark => .seen
  | _ => .ready

def Main.waker : Main → Waker
  | .ifDimmed => .looking
  | .ifPanelOff => .ready
  | .unblank => .unblank
  | .light => .light
  | .setDim => .setDim
  | .setOff => .setOff
  | _ => .elsewhere

def display (d : Daemon) : Display Lighter where
  dim := d.gLcdDimHalf
  off := d.gLcdOff
  lit := d.brightness ≠ 0
  blank := d.blank ≠ 0
  timer := d.timer.dimmer
  waker
    | .key => d.key.waker
    | .main => d.main.waker

theorem display_congr {d d' : Daemon} (hdim : d'.gLcdDimHalf = d.gLcdDimHalf)
    (hoff : d'.gLcdOff = d.gLcdOff) (hlit : d'.brightness = d.brightness)
    (hblank : d'.blank = d.blank) (ht : d'.timer.dimmer = d.timer.dimmer)
    (hk : d'.key.waker = d.key.waker) (hm : d'.main.waker = d.main.waker) :
    display d' = display d := by
  simp only [display, hdim, hoff, hlit, hblank, ht, hk, hm]

def Apart (d : Daemon) : Action → Bool
  | .timer =>
    !(d.timer = .ifDimZero ∧ d.gLcdDimHalf = 0 ∨ d.timer = .ifOffZero ∧ d.gLcdOff = 0)
      || (d.key.waker = .elsewhere ∧ d.main.waker = .elsewhere)
  | .event ev =>
    !(ev.type = evKey ∧ ¬(ev.value = 1 ∧ ev.code = keyWakeup))
      || !d.timer.dimmer.switching
  | .main => !(d.main = .ifBattery ∧ d.lowBattery) || !d.timer.dimmer.switching
  | .sigusr1 => false
  | _ => true

section

variable {d d' : Daemon}

theorem display_timerDim (hs : d.timerDim = some d') : display d' = (display d).timerStep := by
  unfold timerDim at hs
  split at hs <;> rename_i ht <;> cases hs <;>
    simp only [display, timerAt, ht, apply_ite Timer.dimmer] <;> rfl

theorem display_timerDoze (hs : d.timerDoze = some d') : display d' = display d := by
  unfold timerDoze at hs
  split at hs <;> rename_i ht <;> (try split at hs) <;> cases hs <;>
    exact display_congr rfl rfl rfl rfl (by rw [ht]; rfl) rfl rfl

theorem display_timerCountdown (hs : d.timerCountdown = some d') : display d' = display d := by
  unfold timerCountdown at hs
  split at hs <;> rename_i ht <;> (try split at hs) <;> cases hs <;>
    exact display_congr rfl rfl rfl rfl (by rw [ht]; rfl) rfl rfl

theorem display_timerStep (hs : d.timerStep = some d') :
    display d' = display d ∨ display d' = (display d).timerStep := by
  unfold timerStep at hs
  split at hs
  · rename_i ht
    split at hs <;> cases hs
    refine .inr ?_
    simp only [display, timerAt, ht]
    rfl
  · rcases (orElse_eq_some _ _ _).mp hs with hs | ⟨-, hs⟩
    · exact .inr (display_timerDim hs)
    · rcases (orElse_eq_some _ _ _).mp hs with hs | ⟨-, hs⟩
      · exact .inl (display_timerDoze hs)
      · exact .inl (display_timerCountdown hs)

theorem step_keyAt {e : Daemon} {k : Key} (ht : e.timer = d.timer) (hm : e.main = d.main)
    (h : (display d).Step 10 5 (({ display d with
      dim := e.gLcdDimHalf
      off := e.gLcdOff
      lit := e.brightness ≠ 0
      blank := e.blank ≠ 0 } : Display Lighter).wakerAt .key k.waker)) :
    (display d).Step 10 5 (display (e.keyAt k)) := by
  convert h using 1
  unfold display Display.wakerAt
  congr 1
  · rw [← ht]
    rfl
  · funext i
    cases i with
    | key => rfl
    | main => exact congrArg Main.waker hm

theorem step_mainAt {e : Daemon} {m : Main} (ht : e.timer = d.timer) (hk : e.key = d.key)
    (h : (display d).Step 10 5 (({ display d with
      dim := e.gLcdDimHalf
      off := e.gLcdOff
      lit := e.brightness ≠ 0
      blank := e.blank ≠ 0 } : Display Lighter).wakerAt .main m.waker)) :
    (display d).Step 10 5 (display (e.mainAt m)) := by
  convert h using 1
  unfold display Display.wakerAt
  congr 1
  · rw [← ht]
    rfl
  · funext i
    cases i with
    | key => exact congrArg Key.waker hk
    | main => rfl

theorem waker_dispatch (ev : InputEvent) : (dispatch ev).waker = .ready := by
  unfold dispatch
  repeat' split
  all_goals rfl

theorem waker_upNext (ev : InputEvent) : (upNext ev).waker = .ready := by
  unfold upNext
  split <;> rfl

theorem display_keyWake (hs : d.keyWake = some d') :
    display d' = display d ∨ (display d).Step 10 5 (display d') := by
  have hw : (display d).waker .key = d.key.waker := rfl
  unfold keyWake at hs
  cases hk : d.key <;> rw [hk] at hs hw <;> simp only [] at hs
  case loop =>
    split at hs <;> cases hs
    exact .inl (display_congr rfl rfl rfl rfl rfl (by rw [hk]; rfl) rfl)
  case wakeMode | wakeTimer | wakeUpdate | litTimer | litUpdate =>
    cases hs
    exact .inl (display_congr rfl rfl rfl rfl rfl (by rw [hk]; rfl) rfl)
  case ifDimmed =>
    split at hs <;> rename_i hdim <;> cases hs
    · exact .inl (display_congr rfl rfl rfl rfl rfl (by rw [hk]; rfl) rfl)
    · exact .inr (step_keyAt rfl rfl (.see _ hw (.inl hdim)))
  case ifPanelOff =>
    split at hs <;> rename_i hoff <;> cases hs
    · exact .inr (step_keyAt rfl rfl (.wake _ (.inl hw)))
    · exact .inr (step_keyAt rfl rfl (.see _ hw (.inr hoff)))
  case unblank => cases hs; exact .inr (step_keyAt rfl rfl (.unblank _ hw))
  case light | relight => cases hs; exact .inr (step_keyAt rfl rfl (.light _ hw))
  case setDim | resetDim => cases hs; exact .inr (step_keyAt rfl rfl (.setDim _ (.inl hw)))
  case doneDim => cases hs; exact .inr (step_keyAt rfl rfl (.setDim _ (.inr hw)))
  case setOff =>
    split at hs <;> cases hs
    · exact .inr (step_keyAt rfl rfl (.setOff _ hw _ (.inl rfl)))
    · exact .inr (step_keyAt rfl rfl (.setOff _ hw _ (.inr rfl)))
  case resetOff | doneOff =>
    cases hs
    exact .inr (step_keyAt rfl rfl (.setOff _ hw _ (.inl rfl)))
  case ifDark =>
    split at hs <;> rename_i hdim <;> cases hs
    · exact .inr (step_keyAt rfl rfl (.relight _ hw))
    · exact .inr (step_keyAt rfl rfl (.seeLit _ (.inr hw) hdim))
  case ifPin =>
    split at hs <;> cases hs
    · exact .inr (step_keyAt rfl rfl (.leave _ hw))
    · exact .inl (display_congr rfl rfl rfl rfl rfl (by rw [hk]; exact waker_dispatch d.ev) rfl)
  all_goals cases hs

theorem display_keyDown (hs : d.keyDown = some d') : display d' = display d := by
  unfold keyDown at hs
  split at hs <;> rename_i hk <;> (try split at hs) <;> cases hs <;>
    exact display_congr rfl rfl rfl rfl rfl (by rw [hk]; rfl) rfl

theorem display_keySleep (hs : d.keySleep = some d') : display d' = display d := by
  unfold Daemon.keySleep at hs
  split at hs <;> rename_i hk <;> (try split at hs) <;> cases hs <;>
    exact display_congr rfl rfl rfl rfl rfl (by rw [hk]; rfl) rfl

theorem display_keyUp (hs : d.keyUp = some d') : display d' = display d := by
  unfold keyUp at hs
  split at hs <;> rename_i hk <;> (try split at hs) <;> cases hs <;>
    exact display_congr rfl rfl rfl rfl rfl (by rw [hk]; first | rfl | exact waker_upNext d.ev) rfl

theorem display_keyStep (hs : d.keyStep = some d') :
    display d' = display d ∨ (display d).Step 10 5 (display d') := by
  unfold keyStep at hs
  rcases (orElse_eq_some _ _ _).mp hs with hs | ⟨-, hs⟩
  · exact display_keyWake hs
  rcases (orElse_eq_some _ _ _).mp hs with hs | ⟨-, hs⟩
  · exact .inl (display_keyDown hs)
  rcases (orElse_eq_some _ _ _).mp hs with hs | ⟨-, hs⟩
  · exact .inl (display_keySleep hs)
  · exact .inl (display_keyUp hs)

theorem display_mainStep (hs : d.mainStep = some d')
    (henter : d.main = .ifBattery → d.lowBattery = true → d.timer.dimmer.switching = false) :
    display d' = display d ∨ (display d).Step 10 5 (display d') := by
  have hw : (display d).waker .main = d.main.waker := rfl
  unfold mainStep at hs
  cases hm : d.main <;> rw [hm] at hs hw <;> simp only [] at hs
  case ifBattery =>
    split at hs <;> rename_i hlow <;> cases hs
    · exact .inr (step_mainAt rfl rfl (.enter _ hw (henter hm hlow)))
    · exact .inl (display_congr rfl rfl rfl rfl rfl rfl (by rw [hm]; rfl))
  case ifDimmed =>
    split at hs <;> rename_i hdim <;> cases hs
    · exact .inr (step_mainAt rfl rfl (.wake _ (.inl hw)))
    · exact .inr (step_mainAt rfl rfl (.seeLit _ (.inl hw) hdim))
  case ifPanelOff =>
    split at hs <;> cases hs
    · exact .inr (step_mainAt rfl rfl (.wake _ (.inr hw)))
    · exact .inr (step_mainAt rfl rfl (.set _ hw))
  case unblank => cases hs; exact .inr (step_mainAt rfl rfl (.unblank _ hw))
  case light => cases hs; exact .inr (step_mainAt rfl rfl (.light _ hw))
  case setDim => cases hs; exact .inr (step_mainAt rfl rfl (.setDim _ (.inl hw)))
  case setOff => cases hs; exact .inr (step_mainAt rfl rfl (.setOff _ hw _ (.inl rfl)))
  case sleepWait | darkWait =>
    unfold waitUpdate at hs
    split at hs <;> cases hs
    exact .inl (display_congr rfl rfl rfl rfl rfl rfl (by rw [hm]; rfl))
  all_goals
    refine .inl ?_
    try split at hs
    all_goals
      cases hs <;> exact display_congr rfl rfl rfl rfl rfl rfl (by rw [hm]; rfl)

theorem display_keyEvent {ev : InputEvent} (hs : d.keyEvent ev = some d')
    (henter : ev.type = evKey → ¬(ev.value = 1 ∧ ev.code = keyWakeup) →
      d.timer.dimmer.switching = false) :
    display d' = display d ∨ (display d).Step 10 5 (display d') := by
  unfold keyEvent at hs
  split at hs
  · rename_i hk
    have hw : (display d).waker .key = .elsewhere := congrArg Key.waker hk
    cases hs
    split
    · exact .inl (display_congr rfl rfl rfl rfl rfl (by rw [hk]; rfl) rfl)
    · rename_i htype
      split
      · exact .inl (display_congr rfl rfl rfl rfl rfl (by rw [hk]; rfl) rfl)
      · rename_i hwake
        exact .inr (step_keyAt rfl rfl (.enter _ hw (henter (not_not.mp htype) hwake)))
  · cases hs

theorem Timer.dimmer_eq_ifDimZero {t : Timer} (h : t.dimmer = .ifDimZero) : t = .ifDimZero := by
  cases t <;> first | rfl | cases h

theorem Timer.dimmer_eq_ifOffZero {t : Timer} (h : t.dimmer = .ifOffZero) : t = .ifOffZero := by
  cases t <;> first | rfl | cases h

theorem display_step {a : Action} (hok : Apart d a = true) (hs : d.step a = some d') :
    display d' = display d ∨ (display d).Step 10 5 (display d') := by
  cases a with
  | timer =>
    rcases display_timerStep hs with heq | heq
    · exact .inl heq
    refine .inr (heq ▸ Display.Step.timer fun htest => ?_)
    have hquiet : d.key.waker = .elsewhere ∧ d.main.waker = .elsewhere := by
      simp only [Apart, Bool.or_eq_true, Bool.not_eq_true', decide_eq_false_iff_not,
        decide_eq_true_eq] at hok
      refine hok.resolve_left fun hnot => hnot (htest.imp ?_ ?_)
      · exact fun h => ⟨Timer.dimmer_eq_ifDimZero h.1, h.2⟩
      · exact fun h => ⟨Timer.dimmer_eq_ifOffZero h.1, h.2⟩
    intro i
    cases i with
    | key => exact hquiet.1
    | main => exact hquiet.2
  | key => exact display_keyStep hs
  | event ev =>
    refine display_keyEvent hs fun htype hwake => ?_
    simpa [Apart, htype, hwake] using hok
  | main =>
    refine display_mainStep hs fun hm hlow => ?_
    simpa [Apart, hm, hlow] using hok
  | shared info low =>
    cases hs
    exact .inl (display_congr rfl rfl rfl rfl rfl rfl rfl)
  | sigusr1 => cases hok
  | sigusr2 =>
    cases hs
    exact .inl (display_congr rfl rfl rfl rfl rfl rfl rfl)
  | sigterm =>
    cases hs
    exact .inl (display_congr rfl rfl rfl rfl rfl rfl rfl)

end

theorem inv_display_start (info : AllInfo) (lowBattery : Bool) :
    (display (start info lowBattery)).Inv 5 where
  dimGe := show (-1 : ℤ) ≤ 10 by decide
  offGe := show (-1 : ℤ) ≤ 5 by decide
  fits := trivial
  dark := nofun
  dimmed := nofun
  blank := nofun
  panelOff := nofun
  wakerUnblanked i := by cases i <;> exact nofun
  wakerLit i := by cases i <;> exact nofun
  offHigh _ := .inl (show (5 : ℤ) - 1 ≤ 5 by decide)

/-- **Backlight and panel follow the counters**: in every run in which the timer
and the other threads keep apart, whenever none of the three is in its
section. -/
theorem backlight_follows_counters (info : AllInfo) (lowBattery : Bool) (d : Daemon)
    (h : Reaches step (fun d a => Apart d a = true) (start info lowBattery) d)
    (ht : d.timer.dimmer = .elsewhere) (hk : d.key.waker = .elsewhere)
    (hm : d.main.waker = .elsewhere) :
    (d.brightness = 0 ↔ d.gLcdDimHalf = -1) ∧ (d.blank ≠ 0 ↔ d.gLcdOff = -1) := by
  have hinv : (display d).Inv 5 := by
    refine h.invariant (P := fun d => (display d).Inv 5) (inv_display_start info lowBattery)
      fun s a s' hs hok hstep => ?_
    rcases display_step hok hstep with heq | hdisplay
    · exact heq ▸ hs
    · exact hdisplay.inv (by decide) (by decide) hs
  have hquiet : (display d).Quiet := fun i => by
    cases i with
    | key => exact hk
    | main => exact hm
  refine ⟨Iff.trans ?_ (hinv.lit_iff ht hquiet), Iff.trans ?_ (hinv.blank_iff ht hquiet)⟩
  · show d.brightness = 0 ↔ decide (d.brightness ≠ 0) = false
    simp
  · show d.blank ≠ 0 ↔ decide (d.blank ≠ 0) = true
    simp

def oneStation : AllInfo where
  pinStatus := .ready
  numSta := 1
  sleepTime := 60
  wifiAutoOff := false
  active := true
  allowSleep := false

/-- **The panel goes dark** when the timer is left alone. -/
theorem backlight_follows_counters_dark :
    ∃ d, Reaches step (fun d a => Apart d a = true) (start oneStation false) d
      ∧ d.gLcdDimHalf = -1 ∧ d.brightness = 0 ∧ d.gLcdOff = -1 ∧ d.blank ≠ 0 := by
  have hrun : (run step Apart (start oneStation false)
      (replicate 178 .timer)).any (fun d => d.timer.dimmer = .elsewhere
        ∧ d.key.waker = .elsewhere ∧ d.main.waker = .elsewhere
        ∧ d.gLcdDimHalf = -1 ∧ d.gLcdOff = -1) = true := by
    decide +kernel
  obtain ⟨d, hd, hdark⟩ := exists_reaches_of_run hrun
  obtain ⟨ht, hk, hm, hdim, hoff⟩ := of_decide_eq_true hdark
  have hfollows := backlight_follows_counters oneStation false d hd ht hk hm
  exact ⟨d, hd, hdim, hfollows.1.mpr hdim, hoff, hfollows.2.mpr hoff⟩

def keyWhileDimming : List Action :=
  replicate 95 .timer ++ [.key, .event (.press 0x101), .key, .key]
    ++ replicate 12 .timer ++ replicate 9 .key

/-- **The display stays dark with its counters set**: the key task has seen that
the backlight is on, the timer puts it out, and the key task sets the counters
as if it had lit it. -/
theorem dark_with_counters_set :
    ∃ d, Reaches step (fun _ a => (a != .sigusr1) = true) (start oneStation false) d
      ∧ d.timer.dimmer = .elsewhere ∧ d.key.waker = .elsewhere ∧ d.main.waker = .elsewhere
      ∧ d.brightness = 0 ∧ d.gLcdDimHalf = 10 := by
  have hrun : (run step (fun _ a => a != .sigusr1) (start oneStation false)
      keyWhileDimming).any (fun d => d.timer.dimmer = .elsewhere ∧ d.key.waker = .elsewhere
        ∧ d.main.waker = .elsewhere ∧ d.brightness = 0 ∧ d.gLcdDimHalf = 10) = true := by
    decide +kernel
  obtain ⟨d, hd, hdark⟩ := exists_reaches_of_run hrun
  exact ⟨d, hd, of_decide_eq_true hdark⟩

end Brlcd
