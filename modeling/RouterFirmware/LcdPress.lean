import RouterFirmware.HeldKey
import RouterFirmware.LcdBacklight

/-!
# The WPS key of the LCD daemon

Held for five seconds the WPS key starts a WPS session; released before that it
switches WiFi on or off.
-/

namespace Brlcd

open HeldKey Transitions Daemon Option List

def Timer.wps : Timer → HeldKey.Timer
  | .decEnable => .counting
  | .postUpdate | .sleep | .clearCount => .asleep
  | _ => .awake

def Key.wps : Key → Handler
  | .wpsSetCount => .pressed
  | .upClear => .released
  | .upIfEnable => .cleared
  | .upEnable => .early
  | .upSwitch => .ready
  | _ => .elsewhere

def Main.wps : Main → Worker
  | .callWps => .starting
  | .inWps | .resetEnable => .session
  | .clearSwitch => .taken
  | .switchWifi => .acting
  | _ => .elsewhere

def keypad (d : Daemon) (b : Blame) : Keypad where
  left := d.gWpsEnableTime
  held := d.gIsCountToStartWPS
  asked := d.gIsWiFiSwitch
  timer := d.timer.wps
  handler := d.key.wps
  worker := d.main.wps
  blame := b

def Daemon.blameTimer (d : Daemon) (b : Blame) : Blame :=
  match d.timer with
  | .ifCount => if d.gIsCountToStartWPS then { b with timerBy := b.heldBy } else b
  | .decEnable => if d.gWpsEnableTime - 1 = 0 then { b with zeroBy := b.timerBy } else b
  | _ => b

def Daemon.blameKey (d : Daemon) (b : Blame) : Blame :=
  match d.key with
  | .wpsSetCount => { b with heldBy := b.presses, presses := b.presses + 1 }
  | .upIfCount => if d.gIsCountToStartWPS then { b with handlerBy := b.heldBy } else b
  | .upSwitch => { b with askedBy := b.handlerBy }
  | _ => b

def Daemon.blameMain (d : Daemon) (b : Blame) : Blame :=
  match d.main with
  | .ifEnable => if d.gWpsEnableTime = 0 then { b with workerBy := b.zeroBy } else b
  | .ifSwitch => if d.gIsWiFiSwitch then { b with workerBy := b.askedBy } else b
  | .callWps | .switchWifi => { b with done := b.done ++ [b.workerBy] }
  | _ => b

/-- **The daemon with the presses behind what it does.** -/
structure Blamed where
  daemon : Daemon
  blame : Blame

namespace Blamed

def start (info : AllInfo) (lowBattery : Bool) : Blamed :=
  ⟨Daemon.start info lowBattery, Blame.start⟩

def next (s : Blamed) : Action → Blame
  | .timer => s.daemon.blameTimer s.blame
  | .key => s.daemon.blameKey s.blame
  | .main => s.daemon.blameMain s.blame
  | _ => s.blame

def step (s : Blamed) (a : Action) : Option Blamed :=
  (s.daemon.step a).map fun d => ⟨d, s.next a⟩

def Orderly (s : Blamed) : Action → Bool
  | .timer =>
    !(s.daemon.timer = .decEnable ∧ s.daemon.gWpsEnableTime = 1
      ∧ (s.daemon.key = .wpsSetCount ∨ s.daemon.key = .upEnable))
  | .key =>
    !(s.daemon.key = .upIfCount ∧ s.daemon.gIsCountToStartWPS ∧ s.daemon.timer.wps = .asleep
      ∧ s.blame.timerBy = s.blame.heldBy ∧ s.daemon.gWpsEnableTime ≠ 0)
  | .main =>
    !(s.daemon.main = .resetEnable ∧ (s.daemon.key = .upClear ∨ s.daemon.key = .upIfEnable))
  | _ => true

end Blamed

section

variable {d d' : Daemon} {b : Blame}

theorem keypad_congr {b' : Blame} (hleft : d'.gWpsEnableTime = d.gWpsEnableTime)
    (hheld : d'.gIsCountToStartWPS = d.gIsCountToStartWPS)
    (hasked : d'.gIsWiFiSwitch = d.gIsWiFiSwitch) (ht : d'.timer.wps = d.timer.wps)
    (hk : d'.key.wps = d.key.wps) (hm : d'.main.wps = d.main.wps) (hb : b' = b) :
    keypad d' b' = keypad d b := by
  simp only [keypad, hleft, hheld, hasked, ht, hk, hm, hb]

theorem Key.wps_eq_pressed {k : Key} (h : k.wps = .pressed) : k = .wpsSetCount := by
  cases k <;> first | rfl | cases h

theorem Key.wps_eq_released {k : Key} (h : k.wps = .released) : k = .upClear := by
  cases k <;> first | rfl | cases h

theorem Key.wps_eq_cleared {k : Key} (h : k.wps = .cleared) : k = .upIfEnable := by
  cases k <;> first | rfl | cases h

theorem Key.wps_eq_early {k : Key} (h : k.wps = .early) : k = .upEnable := by
  cases k <;> first | rfl | cases h

/-! ## `Timer_handle` -/

theorem keypad_timerDim (hs : d.timerDim = some d') : keypad d' (d.blameTimer b) = keypad d b := by
  unfold timerDim at hs
  split at hs <;> rename_i ht <;> (try split at hs) <;> cases hs <;>
    exact keypad_congr rfl rfl rfl (by rw [ht]; rfl) rfl rfl (by rw [blameTimer, ht])

theorem keypad_timerDoze (hs : d.timerDoze = some d') :
    keypad d' (d.blameTimer b) = keypad d b := by
  unfold timerDoze at hs
  split at hs <;> rename_i ht <;> (try split at hs) <;> cases hs <;>
    exact keypad_congr rfl rfl rfl (by rw [ht]; rfl) rfl rfl (by rw [blameTimer, ht])

theorem keypad_timerCountdown (hs : d.timerCountdown = some d')
    (hfinish : d.timer = .decEnable → d.gWpsEnableTime = 1 →
      ¬(d.key = .wpsSetCount ∨ d.key = .upEnable)) : keypad d' (d.blameTimer b) = keypad d b
    ∨ (keypad d b).Step 5 (keypad d' (d.blameTimer b)) := by
  have hw : (keypad d b).timer = d.timer.wps := rfl
  unfold timerCountdown at hs
  cases ht : d.timer <;> rw [ht] at hs hw <;> simp only [] at hs
  case ifCount =>
    rw [blameTimer, ht]
    split at hs <;> rename_i hcount <;> cases hs <;> simp only [hcount, if_true]
    · exact .inr (.count hw hcount)
    · exact .inl (keypad_congr rfl rfl rfl (by rw [ht]; rfl) rfl rfl rfl)
  case decEnable =>
    split at hs <;> rename_i hleft <;> cases hs
    · have hno := hfinish ht (by omega)
      have hblame : d.blameTimer b = { b with zeroBy := b.timerBy } := by
        rw [blameTimer, ht]
        exact if_pos hleft
      rw [hblame]
      exact .inr (.finish hw hleft (fun hk => hno (.inl (Key.wps_eq_pressed hk)))
        fun hk => hno (.inr (Key.wps_eq_early hk)))
    · have hblame : d.blameTimer b = b := by
        rw [blameTimer, ht]
        exact if_neg hleft
      rw [hblame]
      exact .inr (.tick hw hleft)
  case clearCount =>
    rw [blameTimer, ht]
    cases hs
    exact .inr (.wake hw)
  all_goals
    refine .inl ?_
    try split at hs
    all_goals
      cases hs <;>
        exact keypad_congr rfl rfl rfl (by rw [ht]; rfl) rfl rfl (by rw [blameTimer, ht])

theorem keypad_timerStep (hs : d.timerStep = some d')
    (hfinish : d.timer = .decEnable → d.gWpsEnableTime = 1 →
      ¬(d.key = .wpsSetCount ∨ d.key = .upEnable)) : keypad d' (d.blameTimer b) = keypad d b
    ∨ (keypad d b).Step 5 (keypad d' (d.blameTimer b)) := by
  unfold timerStep at hs
  split at hs
  · rename_i ht
    split at hs <;> cases hs
    exact .inl (keypad_congr rfl rfl rfl (by rw [ht]; rfl) rfl rfl (by rw [blameTimer, ht]))
  rcases (orElse_eq_some _ _ _).mp hs with hs | ⟨-, hs⟩
  · exact .inl (keypad_timerDim hs)
  rcases (orElse_eq_some _ _ _).mp hs with hs | ⟨-, hs⟩
  · exact .inl (keypad_timerDoze hs)
  · exact keypad_timerCountdown hs hfinish

/-! ## `keyevent_task` -/

theorem wps_dispatch (ev : InputEvent) : (dispatch ev).wps = .elsewhere := by
  unfold dispatch
  repeat' split
  all_goals rfl

theorem wps_upNext (ev : InputEvent) : (upNext ev).wps = .elsewhere := by
  unfold upNext
  split <;> rfl

theorem keypad_keyWake (hs : d.keyWake = some d') : keypad d' (d.blameKey b) = keypad d b := by
  unfold keyWake at hs
  split at hs <;> rename_i hk <;> (try split at hs) <;> cases hs <;>
    exact keypad_congr rfl rfl rfl rfl (by rw [hk]; first | rfl | exact wps_dispatch d.ev) rfl
      (by rw [blameKey, hk])

theorem keypad_keySleep (hs : d.keySleep = some d') : keypad d' (d.blameKey b) = keypad d b := by
  unfold keySleep at hs
  split at hs <;> rename_i hk <;> (try split at hs) <;> cases hs <;>
    exact keypad_congr rfl rfl rfl rfl (by rw [hk]; rfl) rfl (by rw [blameKey, hk])

theorem keypad_keyDown (hs : d.keyDown = some d') : keypad d' (d.blameKey b) = keypad d b
    ∨ (keypad d b).Step 5 (keypad d' (d.blameKey b)) := by
  have hw : (keypad d b).handler = d.key.wps := rfl
  unfold keyDown at hs
  cases hk : d.key <;> rw [hk] at hs hw <;> simp only [] at hs <;> rw [blameKey, hk]
  case menuClear => cases hs; exact .inr (.cancel hw)
  case menuEnable => cases hs; exact .inr (.reset hw)
  case wpsIfEnable =>
    split at hs <;> rename_i hleft <;> cases hs
    · exact .inr (.press hw hleft)
    · exact .inl (keypad_congr rfl rfl rfl rfl (by rw [hk]; rfl) rfl rfl)
  case wpsSetCount => cases hs; exact .inr (.note hw)
  all_goals
    refine .inl ?_
    try split at hs
    all_goals
      cases hs <;> exact keypad_congr rfl rfl rfl rfl (by rw [hk]; rfl) rfl rfl

theorem keypad_keyUp (hs : d.keyUp = some d')
    (hrelease : d.key = .upIfCount → d.gIsCountToStartWPS = true → d.timer.wps = .asleep →
      b.timerBy = b.heldBy → d.gWpsEnableTime = 0) : keypad d' (d.blameKey b) = keypad d b
    ∨ (keypad d b).Step 5 (keypad d' (d.blameKey b)) := by
  have hw : (keypad d b).handler = d.key.wps := rfl
  unfold keyUp at hs
  cases hk : d.key <;> rw [hk] at hs hw <;> simp only [] at hs <;> rw [blameKey, hk]
  case upIfCount =>
    split at hs <;> rename_i hheld <;> cases hs <;> simp only [hheld, if_true]
    · exact .inr (.release hw hheld (hrelease hk hheld))
    · exact .inl (keypad_congr rfl rfl rfl rfl (by rw [hk]; rfl) rfl rfl)
  case upClear => cases hs; exact .inr (.clear hw)
  case upIfEnable =>
    split at hs <;> rename_i hleft <;> cases hs
    · exact .inr (.early hw hleft)
    · exact .inr (.late hw)
  case upEnable => cases hs; exact .inr (.again hw)
  case upSwitch => cases hs; exact .inr (.ask hw)
  all_goals
    refine .inl ?_
    try split at hs
    all_goals
      cases hs <;>
        exact keypad_congr rfl rfl rfl rfl (by rw [hk]; first | rfl | exact wps_upNext d.ev) rfl rfl

theorem keypad_keyStep (hs : d.keyStep = some d')
    (hrelease : d.key = .upIfCount → d.gIsCountToStartWPS = true → d.timer.wps = .asleep →
      b.timerBy = b.heldBy → d.gWpsEnableTime = 0) : keypad d' (d.blameKey b) = keypad d b
    ∨ (keypad d b).Step 5 (keypad d' (d.blameKey b)) := by
  rcases (orElse_eq_some _ _ _).mp hs with hs | ⟨-, hs⟩
  · exact .inl (keypad_keyWake hs)
  rcases (orElse_eq_some _ _ _).mp hs with hs | ⟨-, hs⟩
  · exact keypad_keyDown hs
  rcases (orElse_eq_some _ _ _).mp hs with hs | ⟨-, hs⟩
  · exact .inl (keypad_keySleep hs)
  · exact keypad_keyUp hs hrelease

theorem keypad_keyEvent {ev : InputEvent} (hs : d.keyEvent ev = some d') :
    keypad d' b = keypad d b := by
  unfold keyEvent at hs
  split at hs
  · rename_i hk
    cases hs
    refine keypad_congr rfl rfl rfl rfl ?_ rfl rfl
    rw [hk]
    show (ite _ _ _ : Key).wps = _
    repeat' split
    all_goals rfl
  · cases hs

/-! ## `main` -/

theorem keypad_mainStep (hs : d.mainStep = some d')
    (hrestart : d.main = .resetEnable → ¬(d.key = .upClear ∨ d.key = .upIfEnable)) :
    keypad d' (d.blameMain b) = keypad d b
      ∨ (keypad d b).Step 5 (keypad d' (d.blameMain b)) := by
  have hw : (keypad d b).worker = d.main.wps := rfl
  unfold mainStep at hs
  cases hm : d.main <;> rw [hm] at hs hw <;> simp only [] at hs <;> rw [blameMain, hm]
  case ifEnable =>
    split at hs <;> rename_i hleft <;> cases hs
    · simp only [hleft, if_true]
      exact .inr (.start hw hleft)
    · simp only [hleft, if_false]
      exact .inl (keypad_congr rfl rfl rfl rfl rfl (by rw [hm]; rfl) rfl)
  case callWps => cases hs; exact .inr (.call hw)
  case resetEnable =>
    cases hs
    exact .inr (.restart hw (fun hk => hrestart hm (.inl (Key.wps_eq_released hk)))
      fun hk => hrestart hm (.inr (Key.wps_eq_cleared hk)))
  case ifSwitch =>
    split at hs <;> rename_i hasked <;> cases hs <;> simp only [hasked, if_true]
    · exact .inr (.take hw hasked)
    · exact .inl (keypad_congr rfl rfl rfl rfl rfl (by rw [hm]; rfl) rfl)
  case clearSwitch => cases hs; exact .inr (.untake hw)
  case switchWifi => cases hs; exact .inr (.act hw)
  case sleepWait | darkWait =>
    unfold waitUpdate at hs
    split at hs <;> cases hs
    exact .inl (keypad_congr rfl rfl rfl rfl rfl (by rw [hm]; rfl) rfl)
  all_goals
    refine .inl ?_
    try split at hs
    all_goals
      cases hs <;> exact keypad_congr rfl rfl rfl rfl rfl (by rw [hm]; rfl) rfl

end

/-! ## The daemon -/

theorem keypad_step {s s' : Blamed} {a : Action} (hok : s.Orderly a = true)
    (hs : s.step a = some s') : keypad s'.daemon s'.blame = keypad s.daemon s.blame
    ∨ (keypad s.daemon s.blame).Step 5 (keypad s'.daemon s'.blame) := by
  obtain ⟨d, hd, rfl⟩ := map_eq_some_iff.mp hs
  cases a with
  | timer =>
    refine keypad_timerStep hd fun ht hleft hk => ?_
    simp [Blamed.Orderly, ht, hleft, hk] at hok
  | key =>
    refine keypad_keyStep hd fun hk hheld ht hby => ?_
    by_contra hleft
    simp [Blamed.Orderly, hk, hheld, ht, hby, hleft] at hok
  | event ev => exact .inl (keypad_keyEvent hd)
  | main =>
    refine keypad_mainStep hd fun hm hk => ?_
    simp [Blamed.Orderly, hm, hk] at hok
  | shared | sigusr1 | sigusr2 | sigterm =>
    cases hd
    exact .inl rfl

theorem inv_keypad_start (info : AllInfo) (lowBattery : Bool) :
    (keypad (start info lowBattery) Blame.start).Inv 5 where
  nodup := Multiset.nodup_zero
  known _ hn := absurd hn (Multiset.notMem_zero _)
  heldKnown := nofun
  timerKnown := nofun
  handlerKnown := nofun
  heldCaused := nofun
  timerCaused := nofun
  handlerCaused := nofun
  handlerFree := nofun
  notHeld := nofun
  ready := nofun
  leftGe := show (0 : ℤ) ≤ 5 by decide
  leftLe := Int.le_refl 5
  countingPos := nofun
  awakePos := nofun
  pressedPos := nofun

/-- **A press does one thing**: in every run whose steps are orderly, no press of
the WPS key has led to two calls of `wps_start` or switches of WiFi, and
`g_wps_enable_time` is between zero and `WPS_ENABLE_COUNT_TIME`. -/
theorem press_does_one_thing (info : AllInfo) (lowBattery : Bool) (s : Blamed)
    (h : Reaches Blamed.step (fun s a => s.Orderly a = true) (Blamed.start info lowBattery) s) :
    s.blame.done.Nodup ∧ 0 ≤ s.daemon.gWpsEnableTime
      ∧ s.daemon.gWpsEnableTime ≤ Lcd.wpsEnableCountTime := by
  have hinv : (keypad s.daemon s.blame).Inv 5 := by
    refine h.invariant (P := fun s => (keypad s.daemon s.blame).Inv 5)
      (inv_keypad_start info lowBattery) fun s a s' hs hok hstep => ?_
    rcases keypad_step hok hstep with heq | hkeypad
    · exact heq ▸ hs
    · exact hkeypad.inv (by decide) hs
  exact ⟨hinv.nodup_done, hinv.leftGe, hinv.leftLe⟩

def holdWps : List Action :=
  [.key, .event (.press 0x100)] ++ replicate 13 .key ++ replicate 55 .timer
    ++ replicate 9 .main

/-- **A WPS session** for the key that is held. -/
theorem press_does_one_thing_held :
    ∃ s, Reaches Blamed.step (fun s a => s.Orderly a = true) (Blamed.start oneStation false) s
      ∧ s.blame.done = [0] ∧ s.blame.done.Nodup ∧ 0 ≤ s.daemon.gWpsEnableTime
      ∧ s.daemon.gWpsEnableTime ≤ Lcd.wpsEnableCountTime := by
  have hrun : (run Blamed.step Blamed.Orderly (Blamed.start oneStation false) holdWps).any
      (fun s => s.blame.done = [0]) = true := by
    decide +kernel
  obtain ⟨s, hs, hdone⟩ := exists_reaches_of_run hrun
  exact ⟨s, hs, of_decide_eq_true hdone, press_does_one_thing oneStation false s hs⟩

def releaseInSleep : List Action :=
  holdWps ++ replicate 2 .main ++ [.event (.release 0x100)] ++ replicate 11 .key
    ++ replicate 11 .main

/-- **A press does two things**: `wps_start` is called and WiFi is switched for
one press. -/
theorem press_does_two_things :
    ∃ s, Reaches Blamed.step (fun _ _ => True) (Blamed.start oneStation false) s
      ∧ s.blame.done = [0, 0] := by
  have hrun : (run Blamed.step (fun _ _ => true) (Blamed.start oneStation false)
      releaseInSleep).any (fun s => s.blame.done = [0, 0]) = true := by
    decide +kernel
  obtain ⟨s, hs, hdone⟩ := exists_reaches_of_run hrun
  exact ⟨s, by simpa using hs, of_decide_eq_true hdone⟩

end Brlcd
