import Mathlib.Data.Option.Basic
import RouterFirmware.LcdThreads
import RouterFirmware.Transitions

/-!
# The doze of the LCD daemon

Two threads put the device to sleep with `/etc/enter_doze.sh`.
-/

namespace Brlcd

open Transitions Daemon Option Timer

/-- **The daemon with what is kept in mind of it.** -/
structure Watched where
  daemon : Daemon
  /-- Neither has changed since `Timer_handle` last tested the number of
  stations. -/
  counted : Bool
  /-- Neither has changed since `keyevent_task` last tested the count. -/
  keyTested : Bool

def Daemon.changes (d : Daemon) : Action → Bool
  | .shared info _ =>
    info.numSta ≠ d.allInfo.numSta ∨ info.wifiAutoOff ≠ d.allInfo.wifiAutoOff
  | _ => false

namespace Watched

def start (info : AllInfo) (lowBattery : Bool) : Watched :=
  ⟨Daemon.start info lowBattery, true, true⟩

def step (w : Watched) (a : Action) : Option Watched :=
  (w.daemon.step a).map fun d =>
    { daemon := d
      counted := !w.daemon.changes a
        && (w.counted || (a = .timer ∧ w.daemon.timer = .ifNoSta))
      keyTested := !w.daemon.changes a
        && (w.keyTested || (a = .key ∧ w.daemon.key = .sleepIfReached)) }

def Settled (w : Watched) : Action → Bool
  | .timer => !(w.daemon.timer = .enterDoze) || w.counted
  | .key =>
    (!(w.daemon.key = .enterDoze) || w.keyTested)
      && (!(w.daemon.key = .sleepIfReached
          ∧ w.daemon.allInfo.sleepTime ≤ w.daemon.gAutoWiFiOffCount)
        || (0 < w.daemon.allInfo.sleepTime && w.counted && w.daemon.timer ≠ .zeroCount))
  | _ => true

end Watched

def Timer.noSta : Timer → Bool
  | .ifAutoOff | .ifBelow | .incCount | .ifFull | .ifAllow | .dozeCount | .dozeStart | .dozeMode
  | .enterDoze => true
  | _ => false

def Timer.autoOff : Timer → Bool
  | .ifBelow | .incCount | .ifFull | .ifAllow | .dozeCount | .dozeStart | .dozeMode
  | .enterDoze => true
  | _ => false

def Key.full : Key → Bool
  | .sleepIfAutoOff | .sleepIfAllow | .dozeCount | .dozeStart | .dozeMode | .enterDoze => true
  | _ => false

def Key.autoOff : Key → Bool
  | .sleepIfAllow | .dozeCount | .dozeStart | .dozeMode | .enterDoze => true
  | _ => false

namespace Watched

structure Inv (w : Watched) : Prop where
  timerSta : w.counted = true → w.daemon.timer.noSta = true → w.daemon.allInfo.numSta = 0
  timerAuto : w.counted = true → w.daemon.timer.autoOff = true →
    w.daemon.allInfo.wifiAutoOff = true
  count : w.counted = true → w.daemon.timer = .zeroCount ∨ w.daemon.allInfo.numSta = 0
    ∨ w.daemon.gAutoWiFiOffCount ≤ 0
  keySta : w.keyTested = true → w.daemon.key.full = true → w.daemon.allInfo.numSta = 0
  keyAuto : w.keyTested = true → w.daemon.key.autoOff = true →
    w.daemon.allInfo.wifiAutoOff = true

theorem Inv.congr {w : Watched} (h : w.Inv) {d : Daemon} (hinfo : d.allInfo = w.daemon.allInfo)
    (hcount : d.gAutoWiFiOffCount = w.daemon.gAutoWiFiOffCount ∨ d.gAutoWiFiOffCount = 0)
    (htsta : d.timer.noSta = true → w.daemon.timer.noSta = true)
    (htauto : d.timer.autoOff = true → w.daemon.timer.autoOff = true)
    (hzero : w.daemon.timer = .zeroCount → d.timer = .zeroCount ∨ d.gAutoWiFiOffCount = 0)
    (hkfull : d.key.full = true → w.daemon.key.full = true)
    (hkauto : d.key.autoOff = true → w.daemon.key.autoOff = true) :
    Inv ⟨d, w.counted, w.keyTested⟩ where
  timerSta hc ht := hinfo ▸ h.timerSta hc (htsta ht)
  timerAuto hc ht := hinfo ▸ h.timerAuto hc (htauto ht)
  count hc := by
    rcases h.count hc with ht | hsta | hle
    · exact (hzero ht).imp_right fun h0 => .inr (Int.le_of_eq h0)
    · exact .inr (.inl (hinfo ▸ hsta))
    · exact .inr (.inr (hcount.elim (fun h => h ▸ hle) fun h => Int.le_of_eq h))
  keySta hc hk := hinfo ▸ h.keySta hc (hkfull hk)
  keyAuto hc hk := hinfo ▸ h.keyAuto hc (hkauto hk)

section

variable {w : Watched} {d : Daemon} (h : w.Inv)

/-! ## `Timer_handle` -/

include h

theorem Inv.ifNoSta (ht : w.daemon.timer = .ifNoSta)
    (hs : w.daemon.timerDoze = some d) : Inv ⟨d, true, w.keyTested⟩ := by
  rw [timerDoze, ht] at hs
  cases hs
  by_cases hsta : w.daemon.allInfo.numSta = 0
  · rw [if_pos (.inr hsta)]
    exact ⟨fun _ _ => hsta, nofun, fun _ => .inr (.inl hsta), h.keySta, h.keyAuto⟩
  · rw [if_neg (by rintro (⟨-, h0⟩ | h0) <;> exact hsta h0)]
    exact ⟨nofun, nofun, fun _ => .inl rfl, h.keySta, h.keyAuto⟩

theorem Inv.ifAutoOff (ht : w.daemon.timer = .ifAutoOff)
    (hs : w.daemon.timerDoze = some d) : Inv ⟨d, w.counted, w.keyTested⟩ := by
  have hsta : w.counted = true → w.daemon.allInfo.numSta = 0 := fun hc =>
    h.timerSta hc (by rw [ht]; rfl)
  rw [timerDoze, ht] at hs
  cases hs
  by_cases hauto : w.daemon.allInfo.wifiAutoOff = true
  · rw [if_pos hauto]
    exact ⟨fun hc _ => hsta hc, fun _ _ => hauto, fun hc => .inr (.inl (hsta hc)),
      h.keySta, h.keyAuto⟩
  · rw [if_neg hauto]
    exact ⟨nofun, nofun, fun _ => .inl rfl, h.keySta, h.keyAuto⟩

theorem Inv.incCount (ht : w.daemon.timer = .incCount)
    (hs : w.daemon.timerDoze = some d) : Inv ⟨d, w.counted, w.keyTested⟩ := by
  have hsta : w.counted = true → w.daemon.allInfo.numSta = 0 := fun hc =>
    h.timerSta hc (by rw [ht]; rfl)
  have hauto : w.counted = true → w.daemon.allInfo.wifiAutoOff = true := fun hc =>
    h.timerAuto hc (by rw [ht]; rfl)
  rw [timerDoze, ht] at hs
  cases hs
  exact ⟨fun hc _ => hsta hc, fun hc _ => hauto hc, fun hc => .inr (.inl (hsta hc)),
    h.keySta, h.keyAuto⟩

theorem Inv.timerDoze (hno : w.daemon.timer ≠ .ifNoSta)
    (hs : w.daemon.timerDoze = some d) : Inv ⟨d, w.counted, w.keyTested⟩ := by
  by_cases hauto : w.daemon.timer = .ifAutoOff
  · exact h.ifAutoOff hauto hs
  by_cases hinc : w.daemon.timer = .incCount
  · exact h.incCount hinc hs
  unfold Daemon.timerDoze at hs
  split at hs <;> rename_i ht <;>
    first
    | exact absurd ht hno
    | exact absurd ht hauto
    | exact absurd ht hinc
    | (try split at hs) <;> cases hs <;>
        refine h.congr rfl (by first | exact .inl rfl | exact .inr rfl) ?_ ?_ ?_ id id <;>
        rw [ht] <;> simp [timerAt, noSta, autoOff]

theorem Inv.timerDim (hs : w.daemon.timerDim = some d) :
    Inv ⟨d, w.counted, w.keyTested⟩ ∧ w.daemon.timer ≠ .ifNoSta := by
  unfold Daemon.timerDim at hs
  split at hs <;> rename_i ht <;> (try split at hs) <;> cases hs <;> rw [ht] <;>
    refine ⟨h.congr rfl (.inl rfl) ?_ ?_ ?_ id id, nofun⟩ <;>
    rw [ht] <;> simp [timerAt, noSta, autoOff]

theorem Inv.timerCountdown (hs : w.daemon.timerCountdown = some d) :
    Inv ⟨d, w.counted, w.keyTested⟩ ∧ w.daemon.timer ≠ .ifNoSta := by
  unfold Daemon.timerCountdown at hs
  split at hs <;> rename_i ht <;> (try split at hs) <;> cases hs <;> rw [ht] <;>
    refine ⟨h.congr rfl (.inl rfl) ?_ ?_ ?_ id id, nofun⟩ <;>
    rw [ht] <;> simp [timerAt, noSta, autoOff]

theorem Inv.timerStep (hs : w.daemon.timerStep = some d) :
    Inv ⟨d, w.counted || decide (w.daemon.timer = .ifNoSta), w.keyTested⟩ := by
  have quiet : Inv ⟨d, w.counted, w.keyTested⟩ ∧ w.daemon.timer ≠ .ifNoSta →
      Inv ⟨d, w.counted || decide (w.daemon.timer = .ifNoSta), w.keyTested⟩ := by
    rintro ⟨hd, hno⟩
    rwa [decide_eq_false hno, Bool.or_false]
  unfold Daemon.timerStep at hs
  split at hs
  · rename_i ht
    split at hs <;> cases hs
    refine quiet ⟨h.congr rfl (.inl rfl) nofun nofun ?_ id id, ?_⟩ <;> rw [ht] <;> nofun
  rcases (orElse_eq_some _ _ _).mp hs with hs | ⟨-, hs⟩
  · exact quiet (h.timerDim hs)
  rcases (orElse_eq_some _ _ _).mp hs with hs | ⟨-, hs⟩
  · by_cases hno : w.daemon.timer = .ifNoSta
    · rw [decide_eq_true hno, Bool.or_true]
      exact h.ifNoSta hno hs
    · exact quiet ⟨h.timerDoze hno hs, hno⟩
  · exact quiet (h.timerCountdown hs)

/-! ## `keyevent_task` -/

theorem Inv.sleepIfReached (hok : w.Settled .key = true) (hk : w.daemon.key = .sleepIfReached)
    (hs : w.daemon.keySleep = some d) : Inv ⟨d, w.counted, true⟩ := by
  rw [keySleep, hk] at hs
  cases hs
  by_cases hfull : w.daemon.allInfo.sleepTime ≤ w.daemon.gAutoWiFiOffCount
  · rw [if_pos hfull]
    simp only [Settled, hk, hfull, and_self, decide_true, Bool.not_true, Bool.false_or,
      Bool.and_eq_true, decide_eq_true_eq] at hok
    obtain ⟨-, ⟨hpos, hcounted⟩, hzero⟩ := hok
    have hsta : w.daemon.allInfo.numSta = 0 := by
      rcases h.count hcounted with ht | hsta | hle
      · exact absurd ht hzero
      · exact hsta
      · omega
    exact ⟨h.timerSta, h.timerAuto, h.count, fun _ _ => hsta, nofun⟩
  · rw [if_neg hfull]
    exact ⟨h.timerSta, h.timerAuto, h.count, nofun, nofun⟩

theorem Inv.sleepIfAutoOff (hk : w.daemon.key = .sleepIfAutoOff)
    (hs : w.daemon.keySleep = some d) : Inv ⟨d, w.counted, w.keyTested⟩ := by
  have hsta : w.keyTested = true → w.daemon.allInfo.numSta = 0 := fun hc =>
    h.keySta hc (by rw [hk]; rfl)
  rw [keySleep, hk] at hs
  cases hs
  by_cases hauto : w.daemon.allInfo.wifiAutoOff = true
  · rw [if_pos hauto]
    exact ⟨h.timerSta, h.timerAuto, h.count, fun hc _ => hsta hc, fun _ _ => hauto⟩
  · rw [if_neg hauto]
    exact ⟨h.timerSta, h.timerAuto, h.count, nofun, nofun⟩

theorem Inv.keySleep (hreached : w.daemon.key ≠ .sleepIfReached)
    (hs : w.daemon.keySleep = some d) : Inv ⟨d, w.counted, w.keyTested⟩ := by
  by_cases hauto : w.daemon.key = .sleepIfAutoOff
  · exact h.sleepIfAutoOff hauto hs
  unfold Daemon.keySleep at hs
  split at hs <;> rename_i hk <;>
    first
    | exact absurd hk hreached
    | exact absurd hk hauto
    | (try split at hs) <;> cases hs <;>
        refine h.congr rfl (by first | exact .inl rfl | exact .inr rfl) id id .inl ?_ ?_ <;>
        rw [hk] <;> simp [keyAt, Key.full, Key.autoOff]

omit h in
theorem full_dispatch (ev : InputEvent) :
    (dispatch ev).full = false ∧ (dispatch ev).autoOff = false := by
  unfold dispatch
  (repeat' split) <;> exact ⟨rfl, rfl⟩

omit h in
theorem full_upNext (ev : InputEvent) : (upNext ev).full = false ∧ (upNext ev).autoOff = false := by
  unfold upNext
  split <;> exact ⟨rfl, rfl⟩

theorem Inv.keyWake (hs : w.daemon.keyWake = some d) :
    Inv ⟨d, w.counted, w.keyTested⟩ ∧ w.daemon.key ≠ .sleepIfReached := by
  unfold Daemon.keyWake at hs
  split at hs <;> rename_i hk <;> (try split at hs) <;> cases hs <;> rw [hk] <;>
    refine ⟨h.congr rfl (.inl rfl) id id .inl ?_ ?_, nofun⟩ <;>
    first | simp [keyAt, full_dispatch]; done | simp [keyAt, Key.full, Key.autoOff]

theorem Inv.keyDown (hs : w.daemon.keyDown = some d) :
    Inv ⟨d, w.counted, w.keyTested⟩ ∧ w.daemon.key ≠ .sleepIfReached := by
  unfold Daemon.keyDown at hs
  split at hs <;> rename_i hk <;> (try split at hs) <;> cases hs <;> rw [hk] <;>
    refine ⟨h.congr rfl (by first | exact .inl rfl | exact .inr rfl) id id .inl ?_ ?_, nofun⟩ <;>
    simp [keyAt, Key.full, Key.autoOff]

theorem Inv.keyUp (hs : w.daemon.keyUp = some d) :
    Inv ⟨d, w.counted, w.keyTested⟩ ∧ w.daemon.key ≠ .sleepIfReached := by
  unfold Daemon.keyUp at hs
  split at hs <;> rename_i hk <;> (try split at hs) <;> cases hs <;> rw [hk] <;>
    refine ⟨h.congr rfl (.inl rfl) id id .inl ?_ ?_, nofun⟩ <;>
    first | simp [keyAt, full_upNext]; done | simp [keyAt, Key.full, Key.autoOff]

theorem Inv.keyStep (hok : w.Settled .key = true) (hs : w.daemon.keyStep = some d) :
    Inv ⟨d, w.counted, w.keyTested || decide (w.daemon.key = .sleepIfReached)⟩ := by
  have quiet : Inv ⟨d, w.counted, w.keyTested⟩ ∧ w.daemon.key ≠ .sleepIfReached →
      Inv ⟨d, w.counted, w.keyTested || decide (w.daemon.key = .sleepIfReached)⟩ := by
    rintro ⟨hd, hno⟩
    rwa [decide_eq_false hno, Bool.or_false]
  rcases (orElse_eq_some _ _ _).mp hs with hs | ⟨-, hs⟩
  · exact quiet (h.keyWake hs)
  rcases (orElse_eq_some _ _ _).mp hs with hs | ⟨-, hs⟩
  · exact quiet (h.keyDown hs)
  rcases (orElse_eq_some _ _ _).mp hs with hs | ⟨-, hs⟩
  · by_cases hno : w.daemon.key = .sleepIfReached
    · rw [decide_eq_true hno, Bool.or_true]
      exact h.sleepIfReached hok hno hs
    · exact quiet ⟨h.keySleep hno hs, hno⟩
  · exact quiet (h.keyUp hs)

/-! ## The daemon -/

theorem Inv.mainStep (hs : w.daemon.mainStep = some d) : Inv ⟨d, w.counted, w.keyTested⟩ := by
  unfold Daemon.mainStep Daemon.waitUpdate Daemon.timedWait at hs
  split at hs <;> (try split at hs) <;> cases hs <;>
    exact h.congr rfl (.inl rfl) id id .inl id id

theorem Inv.keyEvent {ev : InputEvent} (hs : w.daemon.keyEvent ev = some d) :
    Inv ⟨d, w.counted, w.keyTested⟩ := by
  unfold Daemon.keyEvent at hs
  split at hs <;> cases hs
  refine h.congr rfl (.inl rfl) id id .inl ?_ ?_ <;> unfold keyAt <;> (repeat' split) <;> nofun

theorem Inv.shared (info : AllInfo) (lowBattery : Bool) :
    Inv ⟨{ w.daemon with allInfo := info, lowBattery := lowBattery },
      !w.daemon.changes (.shared info lowBattery) && w.counted,
      !w.daemon.changes (.shared info lowBattery) && w.keyTested⟩ := by
  by_cases hchange : w.daemon.changes (.shared info lowBattery) = true
  · rw [hchange]
    exact ⟨nofun, nofun, nofun, nofun, nofun⟩
  · have hsame : info.numSta = w.daemon.allInfo.numSta
        ∧ info.wifiAutoOff = w.daemon.allInfo.wifiAutoOff := by
      simpa [changes] using hchange
    rw [Bool.not_eq_true] at hchange
    rw [hchange]
    exact ⟨fun hc ht => hsame.1.trans (h.timerSta hc ht),
      fun hc ht => hsame.2.trans (h.timerAuto hc ht),
      fun hc => (h.count hc).imp_right (.imp_left hsame.1.trans),
      fun hc hk => hsame.1.trans (h.keySta hc hk), fun hc hk => hsame.2.trans (h.keyAuto hc hk)⟩

theorem Inv.step {a : Action} {w' : Watched} (hok : w.Settled a = true) (hs : w.step a = some w') :
    w'.Inv := by
  obtain ⟨d, hd, rfl⟩ := map_eq_some_iff.mp hs
  cases a with
  | timer => simpa [changes] using h.timerStep hd
  | key => simpa [changes] using h.keyStep hok hd
  | event ev => simpa [changes] using h.keyEvent hd
  | main => simpa [changes] using h.mainStep hd
  | shared info lowBattery =>
    cases hd
    simpa using h.shared info lowBattery
  | sigusr1 =>
    cases hd
    simp only [Daemon.changes, reduceCtorEq, false_and, decide_false, Bool.or_false,
      Bool.not_false, Bool.true_and]
    exact h.congr rfl (.inl rfl) id id .inl id id
  | sigusr2 =>
    cases hd
    simp only [Daemon.changes, reduceCtorEq, false_and, decide_false, Bool.or_false,
      Bool.not_false, Bool.true_and]
    exact h.congr rfl (.inr rfl) id id .inl id id
  | sigterm =>
    cases hd
    simp only [Daemon.changes, reduceCtorEq, false_and, decide_false, Bool.or_false,
      Bool.not_false, Bool.true_and]
    exact h.congr rfl (.inl rfl) id id .inl id id

omit h

theorem inv_start (info : AllInfo) (lowBattery : Bool) : (start info lowBattery).Inv :=
  ⟨nofun, nofun, fun _ => .inr (.inr (Int.le_refl 0)), nofun, nofun⟩

end

end Watched

def Daemon.Dozes (d : Daemon) (a : Action) : Prop :=
  a = .timer ∧ d.timer = .enterDoze ∨ a = .key ∧ d.key = .enterDoze

instance (d : Daemon) (a : Action) : Decidable (d.Dozes a) :=
  inferInstanceAs (Decidable (_ ∨ _))

/-- **The device dozes without stations**: in every run whose steps are settled,
`/etc/enter_doze.sh` is executed only when no station is associated and
`wifi_auto_off` is on. -/
theorem doze_without_stations (info : AllInfo) (lowBattery : Bool) (w : Watched) (a : Action)
    (h : Reaches Watched.step (fun w a => w.Settled a = true) (Watched.start info lowBattery) w)
    (hok : w.Settled a = true) (hdoze : w.daemon.Dozes a) :
    w.daemon.allInfo.numSta = 0 ∧ w.daemon.allInfo.wifiAutoOff = true := by
  have hinv : w.Inv := h.invariant (Watched.inv_start info lowBattery)
    fun _ _ _ hs hok hstep => hs.step hok hstep
  rcases hdoze with ⟨rfl, ht⟩ | ⟨rfl, hk⟩
  · have hcounted : w.counted = true := by
      simpa [Watched.Settled, ht] using hok
    exact ⟨hinv.timerSta hcounted (by rw [ht]; rfl), hinv.timerAuto hcounted (by rw [ht]; rfl)⟩
  · have htested : w.keyTested = true := by
      simpa [Watched.Settled, hk] using hok
    exact ⟨hinv.keySta htested (by rw [hk]; rfl), hinv.keyAuto htested (by rw [hk]; rfl)⟩

def idle : AllInfo where
  pinStatus := .ready
  numSta := 0
  sleepTime := 2
  wifiAutoOff := true
  active := false
  allowSleep := true

/-- **The timer dozes** in its third second. -/
theorem doze_without_stations_idle :
    ∃ w, Reaches Watched.step (fun w a => w.Settled a = true) (Watched.start idle false) w
      ∧ w.daemon.Dozes .timer ∧ w.daemon.allInfo.numSta = 0
      ∧ w.daemon.allInfo.wifiAutoOff = true := by
  have hrun : (run Watched.step Watched.Settled (Watched.start idle false)
      (List.replicate 26 .timer)).any (fun w => w.Settled .timer ∧ w.daemon.Dozes .timer)
        = true := by
    decide +kernel
  obtain ⟨w, hw, hdoze⟩ := exists_reaches_of_run hrun
  obtain ⟨hok, hdoze⟩ := of_decide_eq_true hdoze
  exact ⟨w, hw, hdoze, doze_without_stations idle false w .timer hw hok hdoze⟩

def sleepKeyWithStation : List Action :=
  List.replicate 26 .timer ++ [.shared { idle with numSta := 1 } false, .key,
    .event (.press InputEvent.keySleep)] ++ List.replicate 9 .key

/-- **The device dozes with a station**: `KEY_SLEEP` relies on a count that the
timer has not set back yet. -/
theorem doze_with_station : ∃ d, Reaches step (fun _ _ => True)
      (start { idle with allowSleep := false } false) d
    ∧ d.Dozes .key ∧ d.allInfo.numSta = 1 := by
  have hrun : (run step (fun _ _ => true)
      (start { idle with allowSleep := false } false) sleepKeyWithStation).any
        (fun d => d.Dozes .key ∧ d.allInfo.numSta = 1) = true := by
    decide +kernel
  obtain ⟨d, hd, hdoze⟩ := exists_reaches_of_run hrun
  exact ⟨d, by simpa using hd, of_decide_eq_true hdoze⟩

end Brlcd
