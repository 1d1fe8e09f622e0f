import RouterFirmware.WprobeInfo

/-!
# The lock of a wprobe interface

The handlers of wprobe's requests and the timer of an interface take the
interface's spin lock, which cannot be taken twice.
-/

namespace Wprobe

open LockTrace Device Option

/-! ## The locks of a request to `wprobe_set_config` -/

section Config

/-- `wprobe_update_auto_measurement` waits for the timer with `del_timer_sync`
where it switches it off. -/
def updateAutoPath {nG nL : ℕ} (ptr : ℕ) (iface : Iface Value nG nL) (interval : UInt32) : Path :=
  if interval ≠ 0 ∧ interval < wprobeMinInterval then []
  else if interval = 0 ∧ iface.measureInterval ≠ 0 then [.await ptr]
  else []

def configPath {nG nL : ℕ} (K : Kernel) (allocs : Allocs) (mem : Bytes)
    (attrs : ConfigAttrs) (ptr : ℕ) (iface : Iface Value nG nL) : Path :=
  if attrs.mac then []
  else
    match configSamples attrs (configFlags attrs iface) with
    | none => []
    | some iface =>
      match configScale attrs iface with
      | none => []
      | some iface =>
        let iface := configFilter K allocs mem attrs iface
        match attrs.interval with
        | none => []
        | some interval => updateAutoPath ptr iface interval.toUInt32

def setConfigPath (K : Kernel) (allocs : Allocs) (mem : Bytes) (attrs : ConfigAttrs) :
    Option Device → Path
  | none => []
  | some dev => locked dev.ptr (configPath K allocs mem attrs dev.ptr dev.iface)

end Config

/-! ## Handlers -/

/-- **What runs in a context of its own.** -/
inductive Handler where
  | dumpInfo (sync : Sync) (cb : InfoCb)
  | measure (attrs : InfoAttrs)
  | setConfig (K : Kernel) (allocs : Allocs) (mem : Bytes) (interface : Option (List UInt8))
    (attrs : ConfigAttrs)
  | timer (dev : Device)

/-- The locks along the path of a handler. -/
def Handler.path (env : Env) (devices : List Device) : Handler → Path
  | .dumpInfo sync cb => dumpInfoPath env devices sync cb
  | .measure attrs => measurePath devices attrs
  | .setConfig K allocs mem interface attrs =>
    setConfigPath K allocs mem attrs (Device.wprobeGetDev devices interface)
  | .timer dev => dev.timerPath

/-- The locks that the timer of the interface at a pointer takes, along
`wprobe_measure_timer`. -/
def timerTakes (devices : List Device) (ptr : ℕ) : List ℕ :=
  (devices.filter (·.ptr = ptr)).flatMap fun dev => acquired dev.timerPath

/-- **The handler does not block itself.** -/
def Handler.NoSelfDeadlock (env : Env) (devices : List Device) (h : Handler) : Prop :=
  Safe (timerTakes devices) [] (h.path env devices)

/-- The query gets as far as the values of an interface or of a link. -/
def ReachesValues (devices : List Device) (cb : InfoCb) : Prop :=
  cb.pos = none ∧ cb.request.cmd = .getInfo
    ∧ ∃ attrs dev, cb.request.attrs = .ok attrs
      ∧ Device.wprobeGetDev devices attrs.interface = some dev
      ∧ ∀ mac, attrs.mac = some mac → ∃ hdr ∈ dev.linkHdrs, hdr.addr = mac

/-- The request switches off a timer that is in use. -/
def SwitchesOff (devices : List Device) (interface : Option (List UInt8)) (attrs : ConfigAttrs) :
    Prop :=
  ∃ dev interval, Device.wprobeGetDev devices interface = some dev ∧ attrs.mac = false
    ∧ SamplesValid attrs dev.iface ∧ ScaleValid attrs ∧ attrs.interval = some interval
    ∧ interval.toUInt32 = 0 ∧ dev.iface.measureInterval ≠ 0

def Handler.Clear (devices : List Device) : Handler → Prop
  | .dumpInfo _ cb => ¬ ReachesValues devices cb
  | .measure _ => True
  | .setConfig _ _ _ interface attrs => ¬ SwitchesOff devices interface attrs
  | .timer _ => True

variable {dev : Device} {devices : List Device}

section Paths

theorem safe_syncPath {held : List ℕ} :
    Safe (timerTakes devices) held dev.syncPath ↔ dev.ptr ∉ held :=
  safe_locked.trans (and_iff_left trivial)

theorem Device.lookup_eq_none_iff {mac : Option (Vector UInt8 6)} : dev.lookup mac = none
    ↔ ¬ ∀ m, mac = some m → ∃ hdr ∈ dev.linkHdrs, hdr.addr = m := by
  cases mac with
  | none => exact iff_of_false nofun (not_not_intro nofun)
  | some mac =>
    have hfind : dev.lookup (some mac) = none ↔ ∀ hdr ∈ dev.linkHdrs, hdr.addr ≠ mac := by
      rw [lookup, Option.map_eq_none_iff, wprobeFindLink, List.findIdx?_eq_none_iff]
      simp only [decide_eq_false_iff_not, ne_eq]
    rw [hfind]
    constructor
    · intro hall hex
      obtain ⟨hdr, hmem, heq⟩ := hex mac rfl
      exact hall hdr hmem heq
    · intro hnot hdr hmem heq
      refine hnot fun m hm => ⟨hdr, hmem, ?_⟩
      exact heq.trans (Option.some.inj hm)

theorem dumpInfoPath_cases (env : Env) (devices : List Device) (sync : Sync) (cb : InfoCb) :
    ReachesValues devices cb ∧ (∃ dev : Device,
        dumpInfoPath env devices sync cb = locked dev.ptr dev.syncPath)
      ∨ ¬ ReachesValues devices cb ∧ dumpInfoPath env devices sync cb = [] := by
  unfold dumpInfoPath
  cases hpos : cb.pos with
  | some pos =>
    refine .inr ⟨fun h => ?_, rfl⟩
    cases hpos.symm.trans h.1
  | none =>
    dsimp only
    unfold dumpInfoStart
    cases hattrs : cb.request.attrs with
    | error err =>
      refine .inr ⟨?_, rfl⟩
      rintro ⟨-, -, attrs, -, heq, -⟩
      cases hattrs.symm.trans heq
    | ok attrs =>
      dsimp only
      cases hdev : Device.wprobeGetDev devices attrs.interface with
      | none =>
        refine .inr ⟨?_, rfl⟩
        rintro ⟨-, -, attrs', dev, heq, hdev', -⟩
        obtain rfl := Except.ok.inj (hattrs.symm.trans heq)
        cases hdev.symm.trans hdev'
      | some dev =>
        dsimp only
        by_cases hcmd : cb.request.cmd = .getInfo
        · rw [if_pos hcmd]
          cases hlookup : dev.lookup attrs.mac with
          | none =>
            refine .inr ⟨?_, rfl⟩
            rintro ⟨-, -, attrs', dev', heq, hdev', hmac⟩
            obtain rfl := Except.ok.inj (hattrs.symm.trans heq)
            obtain rfl := some.inj (hdev.symm.trans hdev')
            exact lookup_eq_none_iff.mp hlookup hmac
          | some l =>
            have hmac := mt lookup_eq_none_iff.mpr (hlookup ▸ some_ne_none l)
            exact .inl ⟨⟨hpos, hcmd, attrs, dev, hattrs, hdev, not_not.mp hmac⟩, dev, rfl⟩
        · rw [if_neg hcmd]
          exact .inr ⟨fun h => hcmd h.2.1, rfl⟩

theorem mem_timerTakes (hdev : dev ∈ devices) : dev.ptr ∈ timerTakes devices dev.ptr :=
  List.mem_flatMap.mpr
    ⟨dev, List.mem_filter.mpr ⟨hdev, decide_eq_true rfl⟩, List.mem_cons_self⟩

/-- **The timer cannot be waited for under its lock.** -/
theorem not_safe_await (hdev : dev ∈ devices) :
    ¬ Safe (timerTakes devices) [dev.ptr] [.await dev.ptr] :=
  fun h => h.1 dev.ptr (mem_timerTakes hdev) List.mem_cons_self

section Config

variable {nG nL : ℕ} {iface : Iface Value nG nL}

theorem safe_updateAutoPath {interval : UInt32} (hdev : dev ∈ devices) :
    Safe (timerTakes devices) [dev.ptr] (updateAutoPath dev.ptr iface interval)
      ↔ ¬ (interval = 0 ∧ iface.measureInterval ≠ 0) := by
  unfold updateAutoPath
  by_cases hshort : interval ≠ 0 ∧ interval < wprobeMinInterval
  · rw [if_pos hshort]
    exact iff_of_true trivial fun h => hshort.1 h.1
  · rw [if_neg hshort]
    by_cases hoff : interval = 0 ∧ iface.measureInterval ≠ 0
    · rw [if_pos hoff]
      exact iff_of_false (not_safe_await hdev) (not_not_intro hoff)
    · rw [if_neg hoff]
      exact iff_of_true trivial hoff

theorem configFilter_measureInterval {K : Kernel} {allocs : Allocs}
    {mem : Bytes} {attrs : ConfigAttrs} :
    (configFilter K allocs mem attrs iface).measureInterval = iface.measureInterval := by
  rw [configFilter_eq]

theorem withScale_measureInterval {attrs : ConfigAttrs} :
    (withScale attrs iface).measureInterval = iface.measureInterval := by
  unfold withScale
  split <;> rfl

theorem safe_configPath {K : Kernel} {allocs : Allocs}
    {mem : Bytes} {attrs : ConfigAttrs} (hdev : dev ∈ devices) :
    Safe (timerTakes devices) [dev.ptr] (configPath K allocs mem attrs dev.ptr iface)
      ↔ ¬ ∃ interval : UInt64, attrs.mac = false ∧ SamplesValid attrs iface ∧ ScaleValid attrs
        ∧ attrs.interval = some interval ∧ interval.toUInt32 = 0 ∧ iface.measureInterval ≠ 0 := by
  unfold configPath
  by_cases hmac : attrs.mac = true
  · rw [if_pos hmac]
    exact iff_of_true trivial fun ⟨_, h, _⟩ => nomatch hmac.symm.trans h
  rw [if_neg hmac]
  by_cases hsamples : SamplesValid attrs iface
  · rw [configSamples_of_valid (samplesValid_configFlags.mpr hsamples)]
    dsimp only
    by_cases hscale : ScaleValid attrs
    · rw [configScale_of_valid hscale]
      dsimp only
      cases hinterval : attrs.interval with
      | none => exact iff_of_true trivial fun ⟨_, _, _, _, h, _⟩ => nomatch h
      | some interval =>
        have hsame : (configFilter K allocs mem attrs
            (withScale attrs (withSamples attrs (configFlags attrs iface)))).measureInterval
              = iface.measureInterval := by
          rw [configFilter_measureInterval, withScale_measureInterval, configFlags_eq]
          rfl
        dsimp only
        rw [safe_updateAutoPath hdev, hsame, not_iff_not]
        constructor
        · rintro ⟨hzero, htimer⟩
          exact ⟨interval, Bool.not_eq_true _ ▸ hmac, hsamples, hscale, rfl, hzero, htimer⟩
        · rintro ⟨interval', -, -, -, heq, hzero, htimer⟩
          obtain rfl := some.inj heq
          exact ⟨hzero, htimer⟩
    · rw [configScale_of_not_valid hscale]
      exact iff_of_true trivial fun ⟨_, _, _, h, _⟩ => hscale h
  · rw [configSamples_of_not_valid (mt samplesValid_configFlags.mp hsamples)]
    exact iff_of_true trivial fun ⟨_, _, h, _⟩ => hsamples h

end Config

end Paths

/-- **A handler does not block itself if and only if it is clear of the two
cases**: the first call of a dump that gets as far as the values, and a request
that switches off a timer in use. -/
theorem noSelfDeadlock_iff_clear (env : Env) (devices : List Device) (h : Handler) :
    h.NoSelfDeadlock env devices ↔ h.Clear devices := by
  cases h with
  | dumpInfo sync cb =>
    show Safe (timerTakes devices) [] (dumpInfoPath env devices sync cb)
      ↔ ¬ ReachesValues devices cb
    rcases dumpInfoPath_cases env devices sync cb with ⟨hreaches, dev, heq⟩ | ⟨hnot, heq⟩
    · rw [heq, safe_locked, safe_syncPath]
      exact iff_of_false (fun hsafe => hsafe.2 List.mem_cons_self) (not_not_intro hreaches)
    · rw [heq]
      exact iff_of_true trivial hnot
  | measure attrs =>
    refine iff_of_true ?_ trivial
    show Safe (timerTakes devices) [] (measurePath devices attrs)
    unfold measurePath
    split
    · trivial
    · split
      · trivial
      · exact safe_syncPath.mpr List.not_mem_nil
  | setConfig K allocs mem interface attrs =>
    show Safe (timerTakes devices) []
      (setConfigPath K allocs mem attrs (Device.wprobeGetDev devices interface))
        ↔ ¬ SwitchesOff devices interface attrs
    cases hdev : Device.wprobeGetDev devices interface with
    | none =>
      refine iff_of_true trivial ?_
      rintro ⟨dev, -, heq, -⟩
      exact nomatch hdev.symm.trans heq
    | some dev =>
      show Safe (timerTakes devices) [] (locked dev.ptr _) ↔ _
      rw [safe_locked, and_iff_right List.not_mem_nil, safe_configPath (mem_of_wprobeGetDev hdev),
        not_iff_not]
      constructor
      · rintro ⟨interval, hrest⟩
        exact ⟨dev, interval, hdev, hrest⟩
      · rintro ⟨dev', interval, heq, hrest⟩
        obtain rfl := some.inj (hdev.symm.trans heq)
        exact ⟨interval, hrest⟩
  | timer dev => exact iff_of_true (safe_syncPath.mpr List.not_mem_nil) trivial

/-- An interface without items, with the given interval of its timer. -/
def timedDevice (interval : UInt32) : Device :=
  bareDevice (.ofFn Fin.elim0) { Iface.added with measureInterval := interval } rfl

/-- A query for the values of that interface. -/
def valuesQuery : Handler :=
  .dumpInfo ⟨⟨0, 0⟩, fun n => ⟨.replicate n none, true⟩⟩
    ⟨⟨0, 0, .getInfo, .ok ⟨some [0x77], none, none⟩⟩, none⟩

def stopTimer : Handler :=
  .setConfig smallKernel allAllocs (fun _ => 0) (some [0x77]) { noAttrs with interval := some 0 }

/-- **A query for values takes the lock twice, and switching off the timer
waits for a handler that needs the lock.** -/
theorem selfDeadlock : ¬ valuesQuery.NoSelfDeadlock smallEnv [timedDevice 0]
    ∧ ¬ stopTimer.NoSelfDeadlock smallEnv [timedDevice 1000] := by
  constructor
  · intro h
    exact h.2.1 List.mem_cons_self
  · intro h
    exact not_safe_await List.mem_cons_self ⟨h.2.1, trivial⟩

end Wprobe
