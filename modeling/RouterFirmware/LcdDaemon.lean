import Mathlib.Data.Int.Basic
import Mathlib.Tactic.Common

/-!
# The tasks of the LCD daemon

`brlcd` is three threads over one set of global variables: `keyevent_task`
reads the keys, `Timer_handle` wakes once a second and counts, and `main`
draws.
-/

/-- The values of `PIN_status` (`PIN_statue_e`). -/
inductive PinStatus where
  | error
  | ready
  | enable
  | blocked
  | invalid
deriving DecidableEq, Repr

/-- The screens of the menu (`BR_Lcd_menu_e`). -/
inductive LcdMenu where
  | basic
  | threeGStatus
  | wifiStatus
  | version
  | wpsFun
deriving DecidableEq, Repr

def LcdMenu.next : LcdMenu → LcdMenu
  | .basic => .threeGStatus
  | .threeGStatus => .wifiStatus
  | .wifiStatus => .version
  | .version => .wpsFun
  | .wpsFun => .basic

/-- What the tasks read of the shared memory segment `all_info`. -/
structure AllInfo where
  /-- `u_threeG_info.PIN_status`. -/
  pinStatus : PinStatus
  /-- `u_wifi.num_sta`, the stations associated to the access point. -/
  numSta : ℕ
  /-- `u_wifi.sleep_time`. -/
  sleepTime : ℤ
  /-- `u_wifi.wifi_auto_off == wifi_auto_off_on`. -/
  wifiAutoOff : Bool
  /-- `u_wifi.active == 1`. -/
  active : Bool
  /-- `getAllowSleepMode() == 1`. -/
  allowSleep : Bool
deriving DecidableEq, Repr

/-- What a task does outside its own memory. -/
inductive LcdCommand where
  /-- `echo n > /sys/class/graphics/fb0/blank`. -/
  | blank (n : ℕ)
  /-- `echo n > /sys/class/backlight/mxc_slcdc_bl.0/brightness`. -/
  | brightness (n : ℕ)
  /-- `/etc/enter_doze.sh`. -/
  | enterDoze
  /-- `/etc/exit_doze.sh`. -/
  | exitDoze
  /-- `/tmp/ap_rm`. -/
  | apRm
  /-- `/etc/br_default.sh`, the factory reset. -/
  | brDefault
  /-- `/sbin/reboot -f`. -/
  | reboot
  /-- `/etc/init.d/br_wifi restart`. -/
  | wifiRestart
  /-- `reset_bar()`. -/
  | resetBar
  /-- `drawLine1(msg)`. -/
  | drawLine1 (msg : String)
  /-- `log_message(LOG_FILE, msg)`. -/
  | log (msg : String)
  /-- The log line `Doze Count=%d(%d)`. -/
  | logDozeCount (count sleepTime : ℤ)
deriving DecidableEq, Repr

/-- An event of the key device (`struct input_event` less its time). -/
structure InputEvent where
  type : ℕ
  code : ℕ
  value : ℤ
deriving DecidableEq, Repr

namespace InputEvent

def evKey : ℕ := 1
def keySleep : ℕ := 142
def keyWakeup : ℕ := 143

def press (code : ℕ) : InputEvent := ⟨evKey, code, 1⟩
def release (code : ℕ) : InputEvent := ⟨evKey, code, 0⟩

end InputEvent

inductive TimerPc where
  /-- In `usleep` at the end of the loop, or about to start. -/
  | top
  /-- In the `sem_wait` that stops the count while the panel is off. -/
  | stopCount
  /-- In `enter_doze.sh`. -/
  | dozing
  /-- In the `sem_wait` after `ap_rm`. -/
  | wifiOff
  /-- In the `sleep(3)` before a WPS session. -/
  | wpsSleep
deriving DecidableEq, Repr

inductive KeyPc where
  /-- In `read` on the key device. -/
  | reading
  /-- In `enter_doze.sh`. -/
  | dozing
  /-- The loop is left. -/
  | ended
deriving DecidableEq, Repr

structure Lcd where
  gScreenId : LcdMenu
  gIsRunUpdate : Bool
  gWpsEnableTime : ℤ
  gResetToDefaultTime : ℤ
  gLcdDimHalf : ℤ
  gLcdOff : ℤ
  gIsCountToStartWPS : Bool
  gIsStartResetToDefault : ℤ
  gIsShowWPSSuccess : Bool
  gIsWiFiSwitch : Bool
  gIsStartAutoWiFiOff : Bool
  gAutoWiFiOffCount : ℤ
  gIsSleepMode : Bool
  gTimerSem : ℕ
  gUpdateSem : ℕ
  allInfo : AllInfo
  timerPc : TimerPc
  keyPc : KeyPc
  /-- How often `Timer_handle` has been through its loop. -/
  passes : ℕ
  /-- What the piece of code run last did, in order. -/
  out : List LcdCommand

namespace Lcd

def wpsEnableCountTime : ℤ := 5

def start (info : AllInfo) : Lcd where
  gScreenId := .basic
  gIsRunUpdate := true
  gWpsEnableTime := wpsEnableCountTime
  gResetToDefaultTime := 10
  gLcdDimHalf := 10
  gLcdOff := 5
  gIsCountToStartWPS := false
  gIsStartResetToDefault := 0
  gIsShowWPSSuccess := false
  gIsWiFiSwitch := false
  gIsStartAutoWiFiOff := false
  gAutoWiFiOffCount := 0
  gIsSleepMode := false
  gTimerSem := 0
  gUpdateSem := 0
  allInfo := info
  timerPc := .top
  keyPc := .reading
  passes := 0
  out := []

def emit (s : Lcd) (cs : List LcdCommand) : Lcd := { s with out := s.out ++ cs }

def initLCDTime (s : Lcd) : Lcd := { s with gLcdDimHalf := 10, gLcdOff := 5 }

def postTimer (s : Lcd) : Lcd := { s with gTimerSem := s.gTimerSem + 1 }

def postUpdate (s : Lcd) : Lcd := { s with gUpdateSem := s.gUpdateSem + 1 }

/-! ## The key task -/

def keyLoop (s : Lcd) : Lcd :=
  { s with keyPc := if s.gIsRunUpdate then .reading else .ended }

def keyDone (s : Lcd) : Lcd := s.initLCDTime.keyLoop

def pressMenu (s : Lcd) : Lcd :=
  let s := { s with
    gIsStartResetToDefault := s.gIsStartResetToDefault + 1
    gAutoWiFiOffCount := 0 }
  if s.gIsStartResetToDefault < 2 then
    { s with
      gScreenId := s.gScreenId.next
      gIsShowWPSSuccess := false }.postUpdate
  else if s.gIsCountToStartWPS then
    { s with gIsCountToStartWPS := false, gWpsEnableTime := wpsEnableCountTime }
  else s

def pressWps (s : Lcd) : Lcd :=
  let s := { s with
    gIsStartResetToDefault := s.gIsStartResetToDefault + 1
    gAutoWiFiOffCount := 0 }
  if s.gIsStartResetToDefault < 2 then
    { s with
      gIsCountToStartWPS := s.gIsCountToStartWPS || s.gWpsEnableTime ≠ 0
      gIsShowWPSSuccess := false }.postUpdate
  else s

def releaseReset (s : Lcd) : Lcd :=
  if 0 < s.gIsStartResetToDefault then
    { s with
      gIsStartResetToDefault := s.gIsStartResetToDefault - 1
      gResetToDefaultTime := 10 }
  else s

def releaseWps (s : Lcd) : Lcd :=
  let s := s.releaseReset
  if s.gIsCountToStartWPS then
    let s := { s with gIsCountToStartWPS := false }
    if s.gWpsEnableTime ≠ 0 then
      { s with gWpsEnableTime := wpsEnableCountTime, gIsWiFiSwitch := true }.postUpdate
    else s
  else s

def keySleepMayDoze (s : Lcd) : Bool :=
  s.allInfo.sleepTime ≤ s.gAutoWiFiOffCount && s.allInfo.wifiAutoOff && s.allInfo.allowSleep

def keyEnterDoze (s : Lcd) : Lcd :=
  { s.emit [.resetBar, .drawLine1 "Sleeping...Zzz", .log "Entering doze...", .enterDoze] with
    gAutoWiFiOffCount := 0
    gIsStartAutoWiFiOff := false
    gIsSleepMode := true
    keyPc := .dozing }

def keyExitDoze (s : Lcd) : Lcd :=
  { s.emit [.log "Wake up...", .exitDoze] with gIsSleepMode := false }.postTimer.keyDone

def keyDispatch (s : Lcd) (ev : InputEvent) : Lcd :=
  if ev.value = 1 ∧ ev.code = 0x101 then s.pressMenu.keyDone
  else if ev.value = 1 ∧ ev.code = 0x100 then s.pressWps.keyDone
  else if ev.value = 1 ∧ ev.code = InputEvent.keySleep then
    if s.keySleepMayDoze then s.keyEnterDoze else s.keyDone
  else if ev.value = 0 ∧ ev.code = 0x100 then s.releaseWps.keyDone
  else if ev.value = 0 ∧ ev.code = 0x101 then s.releaseReset.keyDone
  else s.keyDone

def keyeventTask (s : Lcd) (ev : InputEvent) : Lcd :=
  if ev.type ≠ InputEvent.evKey then s.keyLoop
  else if ev.value = 1 ∧ ev.code = InputEvent.keyWakeup then
    { s with gIsSleepMode := false }.postTimer.postUpdate.keyLoop
  else if s.gLcdDimHalf = -1 ∧ s.gLcdOff = -1 ∧ ev.code ≠ InputEvent.keySleep then
    (s.emit [.blank 0, .brightness 128]).initLCDTime.postTimer.postUpdate.keyLoop
  else
    -- `KEY_SLEEP` lights the panel too, and goes on
    let s := if s.gLcdDimHalf = -1 ∧ s.gLcdOff = -1 then
        (s.emit [.blank 0, .brightness 128]).initLCDTime
      else s
    if s.gLcdDimHalf = -1 then (s.emit [.brightness 128]).initLCDTime.keyLoop
    else if s.allInfo.pinStatus ≠ .ready ∧ ev.code ≠ InputEvent.keySleep then s.keyLoop
    else s.keyDispatch ev

/-! ## The timer task -/

def timerReset (s : Lcd) : Lcd :=
  let s := { s with timerPc := .top, passes := s.passes + 1 }
  if 1 < s.gIsStartResetToDefault then
    let s := { s with gResetToDefaultTime := s.gResetToDefaultTime - 1 }
    if s.gResetToDefaultTime = 0 then
      { s.emit [.drawLine1 "Reset to default", .brDefault, .reboot] with gIsRunUpdate := false }
    else s
  else s

def timerWps (s : Lcd) : Lcd :=
  if s.gIsCountToStartWPS then
    let s := { s with gWpsEnableTime := s.gWpsEnableTime - 1 }
    if s.gWpsEnableTime = 0 then { s.postUpdate with timerPc := .wpsSleep }
    else s.timerReset
  else s.timerReset

def timerLogCount (s : Lcd) : Lcd :=
  (s.emit [.logDozeCount s.gAutoWiFiOffCount s.allInfo.sleepTime]).timerWps

def timerWifi (s : Lcd) : Lcd :=
  if ((s.gIsStartAutoWiFiOff ∧ s.allInfo.numSta = 0) ∨ s.allInfo.numSta = 0)
      ∧ s.allInfo.wifiAutoOff then
    let s := if s.gAutoWiFiOffCount < s.allInfo.sleepTime then
        { s with gAutoWiFiOffCount := s.gAutoWiFiOffCount + 1 }
      else s
    if s.allInfo.sleepTime ≤ s.gAutoWiFiOffCount then
      if s.allInfo.allowSleep then
        { s.emit [.resetBar, .drawLine1 "Sleeping...Zzz", .enterDoze] with
          gAutoWiFiOffCount := 0
          gIsStartAutoWiFiOff := false
          gIsSleepMode := true
          timerPc := .dozing }
      else if s.allInfo.active then
        let s := s.emit [.apRm, .log "WiFi Auto off..."]
        if s.gLcdOff = -1 then { s with timerPc := .wifiOff } else s.timerLogCount
      else s.timerLogCount
    else s.timerLogCount
  else
    { s with gAutoWiFiOffCount := 0, gIsStartAutoWiFiOff := false }.timerWps

def timerDim (s : Lcd) : Lcd :=
  let s := if 0 < s.gLcdDimHalf then { s with gLcdDimHalf := s.gLcdDimHalf - 1 } else s
  if s.gLcdDimHalf ≤ 0 ∧ 0 ≤ s.gLcdOff then
    let s := if s.gLcdDimHalf = 0 then
        { s.emit [.brightness 0] with gLcdDimHalf := s.gLcdDimHalf - 1 }
      else s
    if 0 < s.gLcdOff ∧ s.gLcdDimHalf = -1 then { s with gLcdOff := s.gLcdOff - 1 }
    else if s.gLcdOff = 0 then { s.emit [.blank 1] with gLcdOff := s.gLcdOff - 1 }
    else s
  else s

def timerTop (s : Lcd) : Lcd :=
  let s := s.timerDim
  if s.allInfo.sleepTime ≤ s.gAutoWiFiOffCount ∧ s.gLcdOff = -1 then
    { s.emit [.log "Stop count timer..."] with timerPc := .stopCount }
  else s.timerWifi

def timerHandle (s : Lcd) : Lcd :=
  match s.timerPc with
  | .top => if s.gIsRunUpdate then s.timerTop else s
  | .stopCount =>
    if 0 < s.gTimerSem then
      ({ s with gTimerSem := s.gTimerSem - 1 }.emit [.log "Start count timer..."]).timerWifi
    else s
  | .dozing => { s.emit [.exitDoze] with gIsSleepMode := false }.timerLogCount
  | .wifiOff =>
    if 0 < s.gTimerSem then { s with gTimerSem := s.gTimerSem - 1 }.timerLogCount else s
  | .wpsSleep => { s with gIsCountToStartWPS := false }.timerReset

end Lcd
