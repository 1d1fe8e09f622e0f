import RouterFirmware.LcdDaemon

/-!
# The threads of the LCD daemon, statement by statement

`LcdDaemon` runs a thread of `brlcd` from one blocking call to the next.
-/

namespace Brlcd

inductive Timer where
  | top
  -- the backlight and the panel
  | ifDimPos | decDim | ifDimLe | ifOffGe | ifDimZero | darken | decDimZero
  | ifOffPos | ifDimmed | decOff | ifOffZero | blankPanel | decOffZero
  -- the count towards the doze
  | ifReached | ifPanelOff | stopCount | ifNoSta | ifAutoOff | ifBelow | incCount | ifFull
  | ifAllow | dozeCount | dozeStart | dozeMode | enterDoze | exitDoze | dozeEnd
  | ifActive | apRm | ifStillOff | wifiWait | zeroCount | zeroStart
  -- the countdown to a WPS session
  | ifCount | decEnable | postUpdate | sleep | clearCount
  -- the countdown to the factory reset
  | ifReset | decReset | reset | stopRun
deriving DecidableEq, Repr

inductive Key where
  | loop | read
  -- `KEY_WAKEUP`
  | wakeMode | wakeTimer | wakeUpdate
  -- the panel is off
  | ifDimmed | ifPanelOff | unblank | light | setDim | setOff | litTimer | litUpdate
  -- the backlight is off
  | ifDark | relight | resetDim | resetOff
  | ifPin
  -- the menu key goes down
  | menuReset | menuCount | menuIfReset | menuScreen | menuShow | menuPost | menuIfCount
  | menuClear | menuEnable
  -- the WPS key goes down
  | wpsReset | wpsCount | wpsIfReset | wpsIfEnable | wpsSetCount | wpsShow | wpsPost
  -- `KEY_SLEEP`
  | sleepIfReached | sleepIfAutoOff | sleepIfAllow | dozeCount | dozeStart | dozeMode
  | enterDoze | exitDoze | dozeEnd | dozePost
  -- a reset key comes up
  | upIfReset | upDec | upTime | upIfCount | upClear | upIfEnable | upEnable | upSwitch | upPost
  -- `initLCDTime()` at the end
  | doneDim | doneOff
deriving DecidableEq, Repr

inductive Main where
  | loop | ifSleep | sleepWait
  -- the battery is empty
  | ifBattery | ifDimmed | ifPanelOff | unblank | light | setDim | setOff
  -- the next second, and from the beginning
  | ifUpdating | pause | ifDark | darkWait | ifRun | ifPin | screenWait
  -- a WPS session, or WiFi on or off
  | ifEnable | callWps | inWps | resetEnable | ifSwitch | clearSwitch | switchWifi
deriving DecidableEq, Repr

structure Daemon where
  gScreenId : LcdMenu
  gIsRunUpdate : Bool
  gWpsEnableTime : ℤ
  gResetToDefaultTime : ℤ
  gLcdDimHalf : ℤ
  gLcdOff : ℤ
  gIsCountToStartWPS : Bool
  gIsStartResetToDefault : ℤ
  gIsShowWPSSuccess : Bool
  gIsWiFiSwitch : Bool
  gIsUpdatingFW : Bool
  gIsStartAutoWiFiOff : Bool
  gAutoWiFiOffCount : ℤ
  gIsSleepMode : Bool
  gTimerSem : ℕ
  gUpdateSem : ℕ
  allInfo : AllInfo
  /-- `u_battery.voltage<3.6`. -/
  lowBattery : Bool
  /-- `/sys/class/backlight/mxc_slcdc_bl.0/brightness`. -/
  brightness : ℕ
  /-- `/sys/class/graphics/fb0/blank`. -/
  blank : ℕ
  ev : InputEvent
  timer : Timer
  key : Key
  main : Main
deriving DecidableEq

inductive Action where
  /-- A step of `Timer_handle`. -/
  | timer
  /-- A step of `keyevent_task`. -/
  | key
  /-- `getKeyEvent` returns an event. -/
  | event (ev : InputEvent)
  /-- A step of `main`. -/
  | main
  /-- Another process writes the shared memory. -/
  | shared (info : AllInfo) (lowBattery : Bool)
  /-- The firmware-update signal `SIGUSR1`. -/
  | sigusr1
  /-- `SIGUSR2`. -/
  | sigusr2
  /-- `SIGTERM`. -/
  | sigterm
deriving DecidableEq

namespace Daemon

def start (info : AllInfo) (lowBattery : Bool) : Daemon where
  gScreenId := .basic
  gIsRunUpdate := true
  gWpsEnableTime := Lcd.wpsEnableCountTime
  gResetToDefaultTime := 10
  gLcdDimHalf := 10
  gLcdOff := 5
  gIsCountToStartWPS := false
  gIsStartResetToDefault := 0
  gIsShowWPSSuccess := false
  gIsWiFiSwitch := false
  gIsUpdatingFW := false
  gIsStartAutoWiFiOff := false
  gAutoWiFiOffCount := 0
  gIsSleepMode := false
  gTimerSem := 0
  gUpdateSem := 0
  allInfo := info
  lowBattery := lowBattery
  brightness := 128
  blank := 0
  ev := ⟨0, 0, 0⟩
  timer := .top
  key := .loop
  main := .loop

def timerAt (d : Daemon) (at' : Timer) : Daemon := { d with timer := at' }

def keyAt (d : Daemon) (at' : Key) : Daemon := { d with key := at' }

def mainAt (d : Daemon) (at' : Main) : Daemon := { d with main := at' }

/-! ## `Timer_handle` -/

def timerDim (d : Daemon) : Option Daemon :=
  match d.timer with
  | .ifDimPos => some (d.timerAt (if 0 < d.gLcdDimHalf then .decDim else .ifDimLe))
  | .decDim => some ({ d with gLcdDimHalf := d.gLcdDimHalf - 1 }.timerAt .ifDimLe)
  | .ifDimLe => some (d.timerAt (if d.gLcdDimHalf ≤ 0 then .ifOffGe else .ifReached))
  | .ifOffGe => some (d.timerAt (if 0 ≤ d.gLcdOff then .ifDimZero else .ifReached))
  | .ifDimZero => some (d.timerAt (if d.gLcdDimHalf = 0 then .darken else .ifOffPos))
  | .darken => some ({ d with brightness := 0 }.timerAt .decDimZero)
  | .decDimZero => some ({ d with gLcdDimHalf := d.gLcdDimHalf - 1 }.timerAt .ifOffPos)
  | .ifOffPos => some (d.timerAt (if 0 < d.gLcdOff then .ifDimmed else .ifOffZero))
  | .ifDimmed => some (d.timerAt (if d.gLcdDimHalf = -1 then .decOff else .ifOffZero))
  | .decOff => some ({ d with gLcdOff := d.gLcdOff - 1 }.timerAt .ifReached)
  | .ifOffZero => some (d.timerAt (if d.gLcdOff = 0 then .blankPanel else .ifReached))
  | .blankPanel => some ({ d with blank := 1 }.timerAt .decOffZero)
  | .decOffZero => some ({ d with gLcdOff := d.gLcdOff - 1 }.timerAt .ifReached)
  | _ => none

def timerDoze (d : Daemon) : Option Daemon :=
  match d.timer with
  | .ifReached =>
    some (d.timerAt (if d.allInfo.sleepTime ≤ d.gAutoWiFiOffCount then .ifPanelOff else .ifNoSta))
  | .ifPanelOff => some (d.timerAt (if d.gLcdOff = -1 then .stopCount else .ifNoSta))
  | .stopCount =>
    if 0 < d.gTimerSem then some ({ d with gTimerSem := d.gTimerSem - 1 }.timerAt .ifNoSta)
    else none
  | .ifNoSta =>
    some (d.timerAt (if (d.gIsStartAutoWiFiOff ∧ d.allInfo.numSta = 0) ∨ d.allInfo.numSta = 0
      then .ifAutoOff else .zeroCount))
  | .ifAutoOff => some (d.timerAt (if d.allInfo.wifiAutoOff then .ifBelow else .zeroCount))
  | .ifBelow =>
    some (d.timerAt (if d.gAutoWiFiOffCount < d.allInfo.sleepTime then .incCount else .ifFull))
  | .incCount => some ({ d with gAutoWiFiOffCount := d.gAutoWiFiOffCount + 1 }.timerAt .ifFull)
  | .ifFull =>
    some (d.timerAt (if d.allInfo.sleepTime ≤ d.gAutoWiFiOffCount then .ifAllow else .ifCount))
  | .ifAllow => some (d.timerAt (if d.allInfo.allowSleep then .dozeCount else .ifActive))
  | .dozeCount => some ({ d with gAutoWiFiOffCount := 0 }.timerAt .dozeStart)
  | .dozeStart => some ({ d with gIsStartAutoWiFiOff := false }.timerAt .dozeMode)
  | .dozeMode => some ({ d with gIsSleepMode := true }.timerAt .enterDoze)
  -- `/etc/enter_doze.sh`
  | .enterDoze => some (d.timerAt .exitDoze)
  | .exitDoze => some (d.timerAt .dozeEnd)
  | .dozeEnd => some ({ d with gIsSleepMode := false }.timerAt .ifCount)
  | .ifActive => some (d.timerAt (if d.allInfo.active then .apRm else .ifCount))
  | .apRm => some (d.timerAt .ifStillOff)
  | .ifStillOff => some (d.timerAt (if d.gLcdOff = -1 then .wifiWait else .ifCount))
  | .wifiWait =>
    if 0 < d.gTimerSem then some ({ d with gTimerSem := d.gTimerSem - 1 }.timerAt .ifCount)
    else none
  | .zeroCount => some ({ d with gAutoWiFiOffCount := 0 }.timerAt .zeroStart)
  | .zeroStart => some ({ d with gIsStartAutoWiFiOff := false }.timerAt .ifCount)
  | _ => none

def timerCountdown (d : Daemon) : Option Daemon :=
  match d.timer with
  | .ifCount => some (d.timerAt (if d.gIsCountToStartWPS then .decEnable else .ifReset))
  -- `if(--g_wps_enable_time==0)`
  | .decEnable =>
    some ({ d with gWpsEnableTime := d.gWpsEnableTime - 1 }.timerAt
      (if d.gWpsEnableTime - 1 = 0 then .postUpdate else .ifReset))
  | .postUpdate => some ({ d with gUpdateSem := d.gUpdateSem + 1 }.timerAt .sleep)
  -- `sleep(3)`
  | .sleep => some (d.timerAt .clearCount)
  | .clearCount => some ({ d with gIsCountToStartWPS := false }.timerAt .ifReset)
  | .ifReset => some (d.timerAt (if 1 < d.gIsStartResetToDefault then .decReset else .top))
  | .decReset =>
    some ({ d with gResetToDefaultTime := d.gResetToDefaultTime - 1 }.timerAt
      (if d.gResetToDefaultTime - 1 = 0 then .reset else .top))
  -- `/etc/br_default.sh` and `/sbin/reboot -f`
  | .reset => some (d.timerAt .stopRun)
  | .stopRun => some ({ d with gIsRunUpdate := false }.timerAt .top)
  | _ => none

def timerStep (d : Daemon) : Option Daemon :=
  if d.timer = .top then if d.gIsRunUpdate then some (d.timerAt .ifDimPos) else none
  else d.timerDim <|> d.timerDoze <|> d.timerCountdown

/-! ## `keyevent_task` -/

def dispatch (ev : InputEvent) : Key :=
  if ev.value = 1 ∧ ev.code = 0x101 then .menuReset
  else if ev.value = 1 ∧ ev.code = 0x100 then .wpsReset
  else if ev.value = 1 ∧ ev.code = InputEvent.keySleep then .sleepIfReached
  else if ev.value = 0 ∧ (ev.code = 0x100 ∨ ev.code = 0x101) then .upIfReset
  else .doneDim

def upNext (ev : InputEvent) : Key := if ev.code = 0x100 then .upIfCount else .doneDim

def keyEvent (d : Daemon) (ev : InputEvent) : Option Daemon :=
  if d.key = .read then
    some ({ d with ev := ev }.keyAt
      (if ev.type ≠ InputEvent.evKey then .loop
      else if ev.value = 1 ∧ ev.code = InputEvent.keyWakeup then .wakeMode
      else .ifDimmed))
  else none

def keyWake (d : Daemon) : Option Daemon :=
  match d.key with
  | .loop => if d.gIsRunUpdate then some (d.keyAt .read) else none
  | .wakeMode => some ({ d with gIsSleepMode := false }.keyAt .wakeTimer)
  | .wakeTimer => some ({ d with gTimerSem := d.gTimerSem + 1 }.keyAt .wakeUpdate)
  | .wakeUpdate => some ({ d with gUpdateSem := d.gUpdateSem + 1 }.keyAt .loop)
  | .ifDimmed => some (d.keyAt (if d.gLcdDimHalf = -1 then .ifPanelOff else .ifDark))
  | .ifPanelOff => some (d.keyAt (if d.gLcdOff = -1 then .unblank else .ifDark))
  | .unblank => some ({ d with blank := 0 }.keyAt .light)
  | .light => some ({ d with brightness := 128 }.keyAt .setDim)
  | .setDim => some ({ d with gLcdDimHalf := 10 }.keyAt .setOff)
  | .setOff =>
    some ({ d with gLcdOff := 5 }.keyAt
      (if d.ev.code ≠ InputEvent.keySleep then .litTimer else .ifDark))
  | .litTimer => some ({ d with gTimerSem := d.gTimerSem + 1 }.keyAt .litUpdate)
  | .litUpdate => some ({ d with gUpdateSem := d.gUpdateSem + 1 }.keyAt .loop)
  | .ifDark => some (d.keyAt (if d.gLcdDimHalf = -1 then .relight else .ifPin))
  | .relight => some ({ d with brightness := 128 }.keyAt .resetDim)
  | .resetDim => some ({ d with gLcdDimHalf := 10 }.keyAt .resetOff)
  | .resetOff => some ({ d with gLcdOff := 5 }.keyAt .loop)
  | .ifPin =>
    some (d.keyAt
      (if d.allInfo.pinStatus ≠ .ready ∧ d.ev.code ≠ InputEvent.keySleep then .loop
      else dispatch d.ev))
  | .doneDim => some ({ d with gLcdDimHalf := 10 }.keyAt .doneOff)
  | .doneOff => some ({ d with gLcdOff := 5 }.keyAt .loop)
  | _ => none

def keyDown (d : Daemon) : Option Daemon :=
  match d.key with
  | .menuReset =>
    some ({ d with gIsStartResetToDefault := d.gIsStartResetToDefault + 1 }.keyAt .menuCount)
  | .menuCount => some ({ d with gAutoWiFiOffCount := 0 }.keyAt .menuIfReset)
  | .menuIfReset =>
    some (d.keyAt (if d.gIsStartResetToDefault < 2 then .menuScreen else .menuIfCount))
  | .menuScreen => some ({ d with gScreenId := d.gScreenId.next }.keyAt .menuShow)
  | .menuShow => some ({ d with gIsShowWPSSuccess := false }.keyAt .menuPost)
  | .menuPost => some ({ d with gUpdateSem := d.gUpdateSem + 1 }.keyAt .doneDim)
  | .menuIfCount => some (d.keyAt (if d.gIsCountToStartWPS then .menuClear else .doneDim))
  | .menuClear => some ({ d with gIsCountToStartWPS := false }.keyAt .menuEnable)
  | .menuEnable => some ({ d with gWpsEnableTime := Lcd.wpsEnableCountTime }.keyAt .doneDim)
  | .wpsReset =>
    some ({ d with gIsStartResetToDefault := d.gIsStartResetToDefault + 1 }.keyAt .wpsCount)
  | .wpsCount => some ({ d with gAutoWiFiOffCount := 0 }.keyAt .wpsIfReset)
  | .wpsIfReset => some (d.keyAt (if d.gIsStartResetToDefault < 2 then .wpsIfEnable else .doneDim))
  | .wpsIfEnable => some (d.keyAt (if d.gWpsEnableTime ≠ 0 then .wpsSetCount else .wpsShow))
  | .wpsSetCount => some ({ d with gIsCountToStartWPS := true }.keyAt .wpsShow)
  | .wpsShow => some ({ d with gIsShowWPSSuccess := false }.keyAt .wpsPost)
  | .wpsPost => some ({ d with gUpdateSem := d.gUpdateSem + 1 }.keyAt .doneDim)
  | _ => none

def keySleep (d : Daemon) : Option Daemon :=
  match d.key with
  | .sleepIfReached =>
    some (d.keyAt (if d.allInfo.sleepTime ≤ d.gAutoWiFiOffCount then .sleepIfAutoOff else .doneDim))
  | .sleepIfAutoOff => some (d.keyAt (if d.allInfo.wifiAutoOff then .sleepIfAllow else .doneDim))
  | .sleepIfAllow => some (d.keyAt (if d.allInfo.allowSleep then .dozeCount else .doneDim))
  | .dozeCount => some ({ d with gAutoWiFiOffCount := 0 }.keyAt .dozeStart)
  | .dozeStart => some ({ d with gIsStartAutoWiFiOff := false }.keyAt .dozeMode)
  | .dozeMode => some ({ d with gIsSleepMode := true }.keyAt .enterDoze)
  -- `/etc/enter_doze.sh`
  | .enterDoze => some (d.keyAt .exitDoze)
  | .exitDoze => some (d.keyAt .dozeEnd)
  | .dozeEnd => some ({ d with gIsSleepMode := false }.keyAt .dozePost)
  | .dozePost => some ({ d with gTimerSem := d.gTimerSem + 1 }.keyAt .doneDim)
  | _ => none

def keyUp (d : Daemon) : Option Daemon :=
  match d.key with
  | .upIfReset => some (d.keyAt (if 0 < d.gIsStartResetToDefault then .upDec else upNext d.ev))
  | .upDec => some ({ d with gIsStartResetToDefault := d.gIsStartResetToDefault - 1 }.keyAt .upTime)
  | .upTime => some ({ d with gResetToDefaultTime := 10 }.keyAt (upNext d.ev))
  | .upIfCount => some (d.keyAt (if d.gIsCountToStartWPS then .upClear else .doneDim))
  | .upClear => some ({ d with gIsCountToStartWPS := false }.keyAt .upIfEnable)
  | .upIfEnable => some (d.keyAt (if d.gWpsEnableTime ≠ 0 then .upEnable else .doneDim))
  | .upEnable => some ({ d with gWpsEnableTime := Lcd.wpsEnableCountTime }.keyAt .upSwitch)
  | .upSwitch => some ({ d with gIsWiFiSwitch := true }.keyAt .upPost)
  | .upPost => some ({ d with gUpdateSem := d.gUpdateSem + 1 }.keyAt .doneDim)
  | _ => none

def keyStep (d : Daemon) : Option Daemon :=
  d.keyWake <|> d.keyDown <|> d.keySleep <|> d.keyUp

/-! ## `main` -/

def waitUpdate (d : Daemon) (next : Main) : Option Daemon :=
  if 0 < d.gUpdateSem then some ({ d with gUpdateSem := d.gUpdateSem - 1 }.mainAt next) else none

def timedWait (d : Daemon) (next : Main) : Option Daemon :=
  some ({ d with gUpdateSem := d.gUpdateSem - 1 }.mainAt next)

def mainStep (d : Daemon) : Option Daemon :=
  match d.main with
  | .loop => if d.gIsRunUpdate then some (d.mainAt .ifSleep) else none
  | .ifSleep => some (d.mainAt (if d.gIsSleepMode then .sleepWait else .ifBattery))
  | .sleepWait => d.waitUpdate .loop
  | .ifBattery => some (d.mainAt (if d.lowBattery then .ifDimmed else .ifUpdating))
  | .ifDimmed => some (d.mainAt (if d.gLcdDimHalf = -1 then .unblank else .ifPanelOff))
  | .ifPanelOff => some (d.mainAt (if d.gLcdOff = -1 then .unblank else .setDim))
  | .unblank => some ({ d with blank := 0 }.mainAt .light)
  | .light => some ({ d with brightness := 128 }.mainAt .setDim)
  | .setDim => some ({ d with gLcdDimHalf := 10 }.mainAt .setOff)
  | .setOff => some ({ d with gLcdOff := 5 }.mainAt .pause)
  | .ifUpdating =>
    some (d.mainAt (if d.gIsUpdatingFW ∨ 1 < d.gIsStartResetToDefault then .pause else .ifDark))
  | .pause => d.timedWait .loop
  | .ifDark => some (d.mainAt (if d.gLcdOff < 0 then .darkWait else .ifPin))
  | .darkWait => d.waitUpdate .ifRun
  | .ifRun => if d.gIsRunUpdate then some (d.mainAt .ifPin) else none
  | .ifPin => some (d.mainAt (if d.allInfo.pinStatus ≠ .ready then .pause else .screenWait))
  | .screenWait => d.timedWait .ifEnable
  | .ifEnable => some (d.mainAt (if d.gWpsEnableTime = 0 then .callWps else .ifSwitch))
  -- `wps_start()` is called, after `/tmp/ap_run` if there is no access point
  | .callWps => some (d.mainAt .inWps)
  -- and returns
  | .inWps => some (d.mainAt .resetEnable)
  | .resetEnable => some ({ d with gWpsEnableTime := Lcd.wpsEnableCountTime }.mainAt .loop)
  | .ifSwitch => some (d.mainAt (if d.gIsWiFiSwitch then .clearSwitch else .loop))
  | .clearSwitch => some ({ d with gIsWiFiSwitch := false }.mainAt .switchWifi)
  -- `/tmp/ap_run` or `/tmp/ap_rm`
  | .switchWifi => some (d.mainAt .loop)

/-! ## The daemon -/

def step (d : Daemon) : Action → Option Daemon
  | .timer => d.timerStep
  | .key => d.keyStep
  | .event ev => d.keyEvent ev
  | .main => d.mainStep
  | .shared info lowBattery => some { d with allInfo := info, lowBattery := lowBattery }
  -- `showFWUpdate` lights the panel
  | .sigusr1 =>
    some { d with
      gIsRunUpdate := false
      gIsUpdatingFW := true
      blank := 0
      brightness := 128
      gUpdateSem := d.gUpdateSem + 1 }
  | .sigusr2 =>
    some { d with
      gIsStartAutoWiFiOff := true
      gAutoWiFiOffCount := 0
      gTimerSem := d.gTimerSem + 1 }
  | .sigterm => some { d with gIsRunUpdate := false, gUpdateSem := d.gUpdateSem + 1 }

end Daemon

end Brlcd
