import RouterFirmware.CString
import RouterFirmware.LcdDaemon
import Mathlib.Data.List.Infix

/-!
# The WPS session

`wps_start` runs a push-button session on the access point. WPS does not work
with WEP: `wps_check_auth_type` first writes WPA settings into the package
`hostapd`, from the factory defaults or from hard-coded ones, and keeps a copy
of what was there. Then the session waits for an event of `hostapd`.

The copy is written back on one path only, the timeout of the session. After
every failure the rewritten settings stay, and after a timeout the settings
are back only where the copy holds all of them: its fields are shorter than
what an option may have. `wpsStart_leaves_config_iff` says which sessions
leave the configuration as it was.
-/

/-- The sections of the `hostapd` package the session touches. -/
inductive HostapdSection where
  | auth
  | wpa
  | wps
deriving DecidableEq, Repr

/-- The options of the `hostapd` package the session touches. -/
inductive HostapdOption where
  | authType
  | wpaUsekey
  | wpaPsk
  | wpaPassphrase
  | wpaPairwise
  | wpsState
deriving DecidableEq, Repr

namespace HostapdOption

/-- The section an option is in. -/
def sect : HostapdOption → HostapdSection
  | authType => .auth
  | wpaUsekey => .wpa
  | wpaPsk => .wpa
  | wpaPassphrase => .wpa
  | wpaPairwise => .wpa
  | wpsState => .wps

/-- The name the code looks an option up by. -/
def path : HostapdOption → CString
  | authType => .ofString "hostapd.auth.auth_type" (by decide)
  | wpaUsekey => .ofString "hostapd.wpa.wpa_usekey" (by decide)
  | wpaPsk => .ofString "hostapd.wpa.wpa_psk" (by decide)
  | wpaPassphrase => .ofString "hostapd.wpa.wpa_passphrase" (by decide)
  | wpaPairwise => .ofString "hostapd.wpa.wpa_pairwise" (by decide)
  | wpsState => .ofString "hostapd.wps.wps_state" (by decide)

/-- The options `wps_check_auth_type` keeps a copy of. -/
def copied : List HostapdOption := [wpaUsekey, wpaPsk, wpaPassphrase, wpaPairwise]

/-- How many bytes of an option the copy holds. -/
def maxLen : HostapdOption → ℕ
  | wpaUsekey => 10
  | wpaPsk => 64
  | wpaPassphrase => 63
  | wpaPairwise => 9
  | _ => 0

end HostapdOption

/-- `uci_validate_text`: no control character but the tab. -/
def uciValidateText (s : CString) : Bool := s.bytes.all (fun c => 32 ≤ c || c == 9)

/-- **The value of an option**: a text libuci accepts. -/
@[ext]
structure UciText where
  /-- The bytes of the text. -/
  val : CString
  valid : uciValidateText val = true
deriving DecidableEq

namespace UciText

/-- The first `n` bytes of a text, as `strncpy` and `snprintf` cut it. A
character of several bytes may lose its last ones. -/
def cut (n : ℕ) (t : UciText) : UciText :=
  ⟨t.val.take n, by
    have h := t.valid
    unfold uciValidateText at h ⊢
    rw [List.all_eq_true] at h ⊢
    exact fun c hc => h c (List.mem_of_mem_take hc)⟩

theorem cut_eq_self_iff (n : ℕ) (t : UciText) : t.cut n = t ↔ t.val.length ≤ n := by
  rw [UciText.ext_iff, CString.ext_iff]
  exact List.take_eq_self_iff _

def wep : UciText := ⟨.ofString "wep" (by decide), by decide⟩
def wpa : UciText := ⟨.ofString "wpa" (by decide), by decide⟩
def wpa2 : UciText := ⟨.ofString "wpa2" (by decide), by decide⟩
def wpaWpa2 : UciText := ⟨.ofString "wpa_wpa2" (by decide), by decide⟩
def zero : UciText := ⟨.ofString "0" (by decide), by decide⟩
def two : UciText := ⟨.ofString "2" (by decide), by decide⟩

end UciText

/-- **The package `hostapd`**, as libuci holds it. -/
structure Hostapd where
  hasSection : HostapdSection → Bool
  value : HostapdOption → Option UciText
  /-- An option is in a section. -/
  value_sect : ∀ o, (value o).isSome → hasSection o.sect = true

namespace Hostapd

/-- `uci_set`, which makes no section. -/
def uciSet (p : Hostapd) (o : HostapdOption) (v : UciText) : Hostapd where
  hasSection := p.hasSection
  value := fun o' => if o' = o ∧ p.hasSection o.sect then some v else p.value o'
  value_sect := fun o' h => by
    by_cases hc : o' = o ∧ p.hasSection o.sect = true
    · rw [hc.1]
      exact hc.2
    · rw [if_neg hc] at h
      exact p.value_sect o' h

/-- `wps_uci_set_value`: the path, `=` and the value share 255 bytes. -/
def wpsUciSetValue (p : Hostapd) (o : HostapdOption) (v : UciText) : Hostapd :=
  p.uciSet o (v.cut (255 - (o.path.length + 1)))

/-- `wps_uci_set_cur_from_dflt`; undefined where the default has no such
option. -/
def wpsUciSetCurFromDflt (p dflt : Hostapd) (o : HostapdOption) : Option Hostapd := do
  let v ← dflt.value o
  some (p.uciSet o (v.cut (255 - (o.path.length + 1))))

/-- `wps_uci_backup_setting`, into a buffer that was cleared. -/
def wpsUciBackupSetting (p : Hostapd) (o : HostapdOption) : Option UciText := do
  let v ← p.value o
  some (v.cut o.maxLen)

end Hostapd

/-- The copy of the WPA options (`wpa_info_s_type`). -/
structure WpaInfo where
  wpaUsekey : UciText
  wpaPsk : UciText
  wpaPassphrase : UciText
  wpaPairwise : UciText

/-- What the session finds: which `uci_alloc_context` succeed, and the factory
defaults. -/
structure WpsEnv where
  allocCur : Bool
  allocDflt : Bool
  allocRestore : Bool
  dflt : Option Hostapd

/-- What `wps_check_auth_type` returns and leaves behind. -/
structure AuthCheck where
  result : ℤ
  authChanged : Option WpaInfo
  conf : Hostapd

/-- The copies `wps_check_auth_type` takes before it overwrites anything. -/
def wpsBackup (cur : Hostapd) : Option WpaInfo := do
  let usekey ← cur.wpsUciBackupSetting .wpaUsekey
  let psk ← cur.wpsUciBackupSetting .wpaPsk
  let passphrase ← cur.wpsUciBackupSetting .wpaPassphrase
  let pairwise ← cur.wpsUciBackupSetting .wpaPairwise
  some ⟨usekey, psk, passphrase, pairwise⟩

/-- The test for the three WPA modes. -/
def isAuthWpa (t : UciText) : Bool := t = .wpa || t = .wpa2 || t = .wpaWpa2

/-- The configuration from the factory defaults. -/
def wpsFromDflt (cur dflt : Hostapd) : Option Hostapd := do
  let p ← cur.wpsUciSetCurFromDflt dflt .authType
  let p ← p.wpsUciSetCurFromDflt dflt .wpaUsekey
  let p ← p.wpsUciSetCurFromDflt dflt .wpaPsk
  let p ← p.wpsUciSetCurFromDflt dflt .wpaPassphrase
  let p ← p.wpsUciSetCurFromDflt dflt .wpaPairwise
  some (p.wpsUciSetValue .wpsState .two)

/-- The configuration from the hard-coded values `WPS_DFLT_*`. -/
def wpsHardCoded (cur : Hostapd) : Hostapd :=
  let p := cur.wpsUciSetValue .authType .wpa
  let p := p.wpsUciSetValue .wpaUsekey ⟨.ofString "passphrase" (by decide), by decide⟩
  let p := p.wpsUciSetValue .wpaPsk ⟨.ofString "" (by decide), by decide⟩
  let p := p.wpsUciSetValue .wpaPassphrase ⟨.ofString "bandrich" (by decide), by decide⟩
  let p := p.wpsUciSetValue .wpaPairwise ⟨.ofString "TKIP CCMP" (by decide), by decide⟩
  p.wpsUciSetValue .wpsState .two

/-- **`wps_check_auth_type`**: a WEP configuration becomes a WPA one. -/
def wpsCheckAuthType (env : WpsEnv) (cur : Hostapd) : Option AuthCheck :=
  if env.allocCur then do
    let authType ← cur.value .authType
    if authType = .wep then
      let info ← wpsBackup cur
      match env.dflt with
      | some dflt =>
        if env.allocDflt then
          let dfltType ← dflt.value .authType
          if isAuthWpa dfltType then
            let p ← wpsFromDflt cur dflt
            some ⟨0, some info, p⟩
          else some ⟨-1, none, cur⟩
        else some ⟨-1, none, cur⟩
      | none => some ⟨0, some info, wpsHardCoded cur⟩
    else some ⟨0, none, cur⟩
  else some ⟨-1, none, cur⟩

/-- **`wps_restore_auth_config`**, from the copy. -/
def wpsRestoreAuthConfig (env : WpsEnv) (info : WpaInfo) (p : Hostapd) : Hostapd :=
  if env.allocRestore then
    let p := p.wpsUciSetValue .authType .wep
    let p := p.wpsUciSetValue .wpaUsekey info.wpaUsekey
    let p := p.wpsUciSetValue .wpaPsk info.wpaPsk
    let p := p.wpsUciSetValue .wpaPassphrase info.wpaPassphrase
    let p := p.wpsUciSetValue .wpaPairwise info.wpaPairwise
    p.wpsUciSetValue .wpsState .zero
  else p

/-- One turn of the loop that waits for the session to end. -/
inductive CtrlTurn where
  /-- `wpa_ctrl_pending` finds nothing. -/
  | idle
  /-- `wpa_ctrl_recv` fails. -/
  | recvFailed
  /-- `wpa_ctrl_recv` delivers an event, the bytes `buf`. -/
  | recv (buf : List UInt8)
deriving DecidableEq, Repr

/-- What the control interface of `hostapd` answers. -/
structure CtrlOutcomes where
  /-- `wpa_ctrl_open` gives a connection. -/
  opened : Bool
  /-- The result of `wpa_ctrl_attach`. -/
  attach : ℤ
  /-- The result of `wpa_ctrl_request` for `WPS_PBC`. -/
  request : ℤ
  /-- The turns of the waiting loop. -/
  turns : List CtrlTurn
deriving DecidableEq, Repr

/-- `strstr` finds `pat` in `s`. -/
def strstr (s pat : CString) : Bool := decide (pat.bytes <:+: s.bytes)

/-- The event of a device that has registered. -/
def wpsRegSuccess : CString := .ofString "WPS-REG-SUCCESS" (by decide)

/-- The event of a session that has run out of time. -/
def wpsEventTimeout : CString := .ofString "WPS-EVENT-TIMEOUT" (by decide)

/-- How a call of `wps_start` comes out. -/
inductive WpsRun where
  /-- A null pointer is followed. -/
  | crashed
  /-- The session is still waiting for an event. -/
  | waiting
  /-- It returns `ret`, the event `last` having ended the session. -/
  | returned (ret : ℤ) (last : Option CString) (conf : Hostapd) (out : List LcdCommand)

/-- **The loop of `wps_start` that waits for the end of the session.** A zero
is put behind the bytes of an event before it is searched, so that an event
with a zero in it is read up to there. -/
def wpsWait (env : WpsEnv) (authChanged : Option WpaInfo) (conf : Hostapd)
    (out : List LcdCommand) : List CtrlTurn → WpsRun
  | [] => .waiting
  | .idle :: ts => wpsWait env authChanged conf out ts
  | .recvFailed :: _ =>
    .returned 0 none conf (out ++ [.log "WPS_CTRL: receive event failed!\n"])
  | .recv buf :: ts =>
    if strstr (.ofBuffer buf) wpsRegSuccess then
      .returned 0 (some (.ofBuffer buf)) conf
        (out ++ [.log "WPS_CTRL: Register success, UI action...\n",
          .drawLine1 "New device connected"])
    else if strstr (.ofBuffer buf) wpsEventTimeout then
      let out := out ++ [.log "WPS_CTRL: WPS mode timeout, UI action...\n",
        .drawLine1 "WPS : No device found"]
      match authChanged with
      | some info =>
        .returned 0 (some (.ofBuffer buf)) (wpsRestoreAuthConfig env info conf)
          (out ++ [.wifiRestart])
      | none => .returned 0 (some (.ofBuffer buf)) conf out
    else wpsWait env authChanged conf out ts

/-- The part of `wps_start` after the configuration is checked. -/
def wpsSession (env : WpsEnv) (ctrl : CtrlOutcomes) (authChanged : Option WpaInfo)
    (conf : Hostapd) : WpsRun :=
  let out := if authChanged.isSome then [LcdCommand.wifiRestart] else []
  if !ctrl.opened then
    .returned (-1) none conf (out ++ [.log "WPS_CTRL: failed to connect to hostapd!",
      .drawLine1 "Failed to activate WPS"])
  else if ctrl.attach = -2 then
    .returned (-2) none conf (out ++ [.log "WPS_CTRL: attach timeout!"])
  else if ctrl.attach = -1 then
    .returned (-1) none conf (out ++ [.log "WPS_CTRL: attach error!"])
  else if ctrl.request = -2 then
    .returned (-2) none conf (out ++ [.log "WPS_CTRL: WPS_PBC command timeout!\n"])
  else if ctrl.request ≠ 0 then
    .returned (-1) none conf (out ++ [.log "WPS_CTRL: WPS_PBC command error!\n"])
  else
    wpsWait env authChanged conf
      (out ++ [.drawLine1 "WPS: Connecting device.",
        .log "WPS_CTRL: WPS button pushed, UI action...\n"]) ctrl.turns

/-- **`wps_start`**, on the configuration `cur`. -/
def wpsStart (env : WpsEnv) (ctrl : CtrlOutcomes) (cur : Hostapd) : WpsRun :=
  match wpsCheckAuthType env cur with
  | none => .crashed
  | some check =>
    if check.result ≠ 0 then
      .returned (-1) none check.conf [.log "WPS_CTRL: check auth failed!\n",
        .drawLine1 "Failed to activate WPS"]
    else wpsSession env ctrl check.authChanged check.conf

/-! ## What a session leaves behind -/

/-- A session that registers no device leaves every option as it was. -/
def LeavesConfig (env : WpsEnv) (ctrl : CtrlOutcomes) (cur : Hostapd) : Prop :=
  ∀ ret last conf out, wpsStart env ctrl cur = .returned ret last conf out →
    (∀ msg, last = some msg → strstr msg wpsRegSuccess = false) →
    ∀ o, conf.value o = cur.value o

/-- How a session ends. -/
inductive SessionEnd where
  /-- A call fails before or while the session waits. -/
  | failed
  /-- A device registers. -/
  | registered
  /-- The session times out. -/
  | timeout
  /-- It does not end. -/
  | waiting
deriving DecidableEq, Repr

/-- How the waiting loop ends. -/
def turnsEnd : List CtrlTurn → SessionEnd
  | [] => .waiting
  | .idle :: ts => turnsEnd ts
  | .recvFailed :: _ => .failed
  | .recv buf :: ts =>
    if strstr (.ofBuffer buf) wpsRegSuccess then .registered
    else if strstr (.ofBuffer buf) wpsEventTimeout then .timeout
    else turnsEnd ts

/-- How the session ends, from the answers of the control interface. -/
def CtrlOutcomes.sessionEnd (ctrl : CtrlOutcomes) : SessionEnd :=
  if ctrl.opened ∧ ctrl.attach ≠ -2 ∧ ctrl.attach ≠ -1 ∧ ctrl.request = 0 then
    turnsEnd ctrl.turns
  else .failed

/-- **The configuration is rewritten before the session.** -/
def Rewrites (env : WpsEnv) (cur : Hostapd) : Prop :=
  env.allocCur = true ∧ cur.value .authType = some .wep
    ∧ (∀ o ∈ HostapdOption.copied, (cur.value o).isSome)
    ∧ ∀ dflt, env.dflt = some dflt →
      env.allocDflt = true ∧ (∃ t, dflt.value .authType = some t ∧ isAuthWpa t = true)
        ∧ ∀ o ∈ HostapdOption.copied, (dflt.value o).isSome

/-- **The copy holds everything the session overwrites.** -/
def Restorable (env : WpsEnv) (cur : Hostapd) : Prop :=
  env.allocRestore = true
    ∧ (∀ o ∈ HostapdOption.copied, ∀ v, cur.value o = some v → v.val.length ≤ o.maxLen)
    ∧ (cur.hasSection .wps = true → cur.value .wpsState = some .zero)

namespace UciText

theorem cut_of_length_le {n : ℕ} {t : UciText} (h : t.val.length ≤ n) : t.cut n = t :=
  (cut_eq_self_iff n t).mpr h

theorem length_cut_le (n : ℕ) (t : UciText) : (t.cut n).val.length ≤ n := by
  show (t.val.bytes.take n).length ≤ n
  rw [List.length_take]
  exact min_le_left _ _

theorem cut_cut {m n : ℕ} (h : m ≤ n) (t : UciText) : (t.cut m).cut n = t.cut m :=
  cut_of_length_le ((length_cut_le m t).trans h)

end UciText

namespace Hostapd

/-- All six options written, as both ways into WPA and the way back do. -/
def writeAll (p : Hostapd) (text : HostapdOption → UciText) : Hostapd :=
  let p := p.wpsUciSetValue .authType (text .authType)
  let p := p.wpsUciSetValue .wpaUsekey (text .wpaUsekey)
  let p := p.wpsUciSetValue .wpaPsk (text .wpaPsk)
  let p := p.wpsUciSetValue .wpaPassphrase (text .wpaPassphrase)
  let p := p.wpsUciSetValue .wpaPairwise (text .wpaPairwise)
  p.wpsUciSetValue .wpsState (text .wpsState)

@[simp] theorem writeAll_hasSection (p : Hostapd) (text : HostapdOption → UciText) :
    (p.writeAll text).hasSection = p.hasSection := rfl

theorem value_of_no_section (p : Hostapd) {o : HostapdOption} (h : p.hasSection o.sect ≠ true) :
    p.value o = none := by
  by_contra hne
  exact h (p.value_sect o (Option.isSome_iff_ne_none.mpr hne))

theorem writeAll_value (p : Hostapd) (text : HostapdOption → UciText) (o : HostapdOption) :
    (p.writeAll text).value o
      = if p.hasSection o.sect then some ((text o).cut (255 - (o.path.length + 1)))
        else none := by
  by_cases h : p.hasSection o.sect = true
  · rw [if_pos h]
    cases o <;>
      simp only [HostapdOption.sect] at h <;>
      simp [writeAll, wpsUciSetValue, uciSet, HostapdOption.sect, h]
  · rw [if_neg h]
    exact (p.writeAll text).value_of_no_section h

theorem wpsUciSetCurFromDflt_eq (p : Hostapd) {o : HostapdOption} {dflt : Hostapd} {v : UciText}
    (h : dflt.value o = some v) : p.wpsUciSetCurFromDflt dflt o = some (p.wpsUciSetValue o v) := by
  unfold wpsUciSetCurFromDflt
  rw [h]
  rfl

end Hostapd

/-- The texts written with a copy `info`. -/
def WpaInfo.text (info : WpaInfo) (t st : UciText) : HostapdOption → UciText
  | .authType => t
  | .wpaUsekey => info.wpaUsekey
  | .wpaPsk => info.wpaPsk
  | .wpaPassphrase => info.wpaPassphrase
  | .wpaPairwise => info.wpaPairwise
  | .wpsState => st

/-! ## What the check does -/

theorem isAuthWpa_spec {t : UciText} (h : isAuthWpa t = true) :
    t ≠ .wep ∧ t.val.length ≤ 255 - (HostapdOption.authType.path.length + 1) := by
  simp only [isAuthWpa, Bool.or_eq_true, decide_eq_true_eq] at h
  obtain (rfl | rfl) | rfl := h <;> decide

theorem Hostapd.exists_copied (p : Hostapd) (h : ∀ o ∈ HostapdOption.copied, (p.value o).isSome) :
    ∃ info : WpaInfo, ∀ t st, ∀ o ∈ HostapdOption.copied, p.value o = some (info.text t st o) := by
  obtain ⟨usekey, h₁⟩ := Option.isSome_iff_exists.mp (h .wpaUsekey (by decide))
  obtain ⟨psk, h₂⟩ := Option.isSome_iff_exists.mp (h .wpaPsk (by decide))
  obtain ⟨pass, h₃⟩ := Option.isSome_iff_exists.mp (h .wpaPassphrase (by decide))
  obtain ⟨pair, h₄⟩ := Option.isSome_iff_exists.mp (h .wpaPairwise (by decide))
  exact ⟨⟨usekey, psk, pass, pair⟩, by simp [HostapdOption.copied, WpaInfo.text, h₁, h₂, h₃, h₄]⟩

theorem wpsFromDflt_eq {t : UciText} {dflt : Hostapd} (cur : Hostapd)
    (ht : dflt.value .authType = some t)
    (hcopied : ∀ o ∈ HostapdOption.copied, (dflt.value o).isSome) :
    ∃ info : WpaInfo, wpsFromDflt cur dflt = some (cur.writeAll (info.text t .two)) := by
  obtain ⟨info, hinfo⟩ := dflt.exists_copied hcopied
  have hset : ∀ (p : Hostapd), ∀ o ∈ HostapdOption.copied,
      p.wpsUciSetCurFromDflt dflt o = some (p.wpsUciSetValue o (info.text t .two o)) :=
    fun p o ho => p.wpsUciSetCurFromDflt_eq (hinfo t .two o ho)
  refine ⟨info, ?_⟩
  simp only [wpsFromDflt, Hostapd.wpsUciSetCurFromDflt_eq _ ht, hset _ .wpaUsekey (by decide),
    hset _ .wpaPsk (by decide), hset _ .wpaPassphrase (by decide),
    hset _ .wpaPairwise (by decide), Option.bind_eq_bind, Option.bind_some]
  rfl

variable {cur : Hostapd} {env : WpsEnv}

theorem wpsBackup_eq (h : ∀ o ∈ HostapdOption.copied, (cur.value o).isSome) :
    ∃ info, wpsBackup cur = some info
      ∧ ∀ t st, ∀ o ∈ HostapdOption.copied, ∀ v, cur.value o = some v →
        info.text t st o = v.cut o.maxLen := by
  obtain ⟨⟨usekey, psk, pass, pair⟩, hinfo⟩ := cur.exists_copied h
  have hvalue := hinfo .wep .zero
  simp only [HostapdOption.copied, List.forall_mem_cons] at hvalue
  obtain ⟨h₁, h₂, h₃, h₄, -⟩ := hvalue
  refine ⟨⟨usekey.cut 10, psk.cut 64, pass.cut 63, pair.cut 9⟩, ?_, fun t st o ho v hv => ?_⟩
  · simp [wpsBackup, Hostapd.wpsUciBackupSetting, h₁, h₂, h₃, h₄, HostapdOption.maxLen,
      WpaInfo.text]
  · obtain rfl := Option.some.inj ((hinfo t st o ho).symm.trans hv)
    simp only [HostapdOption.copied, List.mem_cons, List.not_mem_nil, or_false] at ho
    obtain rfl | rfl | rfl | rfl := ho <;> rfl

theorem wpsHardCoded_eq (cur : Hostapd) :
    ∃ info : WpaInfo, wpsHardCoded cur = cur.writeAll (info.text .wpa .two) :=
  ⟨⟨_, _, _, _⟩, rfl⟩

theorem wpsCheckAuthType_of_rewrites (h : Rewrites env cur) :
    ∃ info text, wpsCheckAuthType env cur = some ⟨0, some info, cur.writeAll text⟩
      ∧ wpsBackup cur = some info ∧ isAuthWpa (text .authType) = true := by
  obtain ⟨halloc, hwep, hcopied, hdflt⟩ := h
  obtain ⟨info, hinfo, -⟩ := wpsBackup_eq hcopied
  cases hd : env.dflt with
  | none =>
    obtain ⟨hard, hhard⟩ := wpsHardCoded_eq cur
    refine ⟨info, hard.text .wpa .two, ?_, hinfo, rfl⟩
    simp [wpsCheckAuthType, halloc, hwep, hinfo, hd, hhard]
  | some dflt =>
    obtain ⟨halloc', ⟨t, ht, hwpa⟩, hall⟩ := hdflt dflt hd
    obtain ⟨dinfo, hp⟩ := wpsFromDflt_eq cur ht hall
    refine ⟨info, dinfo.text t .two, ?_, hinfo, hwpa⟩
    simp [wpsCheckAuthType, halloc, hwep, hinfo, hd, halloc', ht, hwpa, hp]

theorem wpsBackup_isSome {info : WpaInfo} (h : wpsBackup cur = some info) :
    ∀ o ∈ HostapdOption.copied, (cur.value o).isSome := by
  simp only [wpsBackup, Hostapd.wpsUciBackupSetting, Option.bind_eq_bind,
    Option.bind_eq_some_iff] at h
  obtain ⟨_, ⟨_, h₁, -⟩, _, ⟨_, h₂, -⟩, _, ⟨_, h₃, -⟩, _, ⟨_, h₄, -⟩, -⟩ := h
  simp [HostapdOption.copied, h₁, h₂, h₃, h₄]

theorem wpsFromDflt_isSome {dflt p : Hostapd} (h : wpsFromDflt cur dflt = some p) :
    ∀ o ∈ HostapdOption.copied, (dflt.value o).isSome := by
  simp only [wpsFromDflt, Hostapd.wpsUciSetCurFromDflt, Option.bind_eq_bind,
    Option.bind_eq_some_iff] at h
  obtain ⟨_, -, _, ⟨_, h₁, -⟩, _, ⟨_, h₂, -⟩, _, ⟨_, h₃, -⟩, _, ⟨_, h₄, -⟩, -⟩ := h
  simp [HostapdOption.copied, h₁, h₂, h₃, h₄]

theorem rewrites_or_of_wpsCheckAuthType {check : AuthCheck}
    (h : wpsCheckAuthType env cur = some check) :
    Rewrites env cur ∨ ∃ r, check = ⟨r, none, cur⟩ := by
  have hunchanged : ∀ r, some (⟨r, none, cur⟩ : AuthCheck) = some check →
      Rewrites env cur ∨ ∃ r, check = ⟨r, none, cur⟩ :=
    fun r h => .inr ⟨r, (Option.some.inj h).symm⟩
  unfold wpsCheckAuthType at h
  split at h
  swap
  · exact hunchanged _ h
  next halloc =>
  obtain ⟨t, ht, h⟩ := Option.bind_eq_some_iff.mp h
  split at h
  swap
  · exact hunchanged _ h
  next hwep =>
  obtain ⟨info, hinfo, h⟩ := Option.bind_eq_some_iff.mp h
  split at h
  swap
  · next hd =>
    exact .inl ⟨halloc, hwep ▸ ht, wpsBackup_isSome hinfo, fun d hd' => nomatch hd.symm.trans hd'⟩
  next dflt hd =>
  split at h
  swap
  · exact hunchanged _ h
  next halloc' =>
  obtain ⟨dt, hdt, h⟩ := Option.bind_eq_some_iff.mp h
  split at h
  swap
  · exact hunchanged _ h
  next hwpa =>
  obtain ⟨p, hp, -⟩ := Option.bind_eq_some_iff.mp h
  refine .inl ⟨halloc, hwep ▸ ht, wpsBackup_isSome hinfo, fun d hd' => ?_⟩
  obtain rfl := Option.some.inj (hd.symm.trans hd')
  exact ⟨halloc', ⟨dt, hdt, hwpa⟩, wpsFromDflt_isSome hp⟩

/-! ## How the session comes out -/

/-- The configuration a session that ends with `e` returns with. -/
def sessionConf (env : WpsEnv) (authChanged : Option WpaInfo) (conf : Hostapd) :
    SessionEnd → Hostapd
  | .timeout =>
    match authChanged with
    | some info => wpsRestoreAuthConfig env info conf
    | none => conf
  | _ => conf

/-- What a session that ends in `e` returns. -/
def SessionOutcome (env : WpsEnv) (authChanged : Option WpaInfo) (conf : Hostapd)
    (e : SessionEnd) (run : WpsRun) : Prop :=
  if e = .waiting then run = .waiting
  else ∃ ret last out, run = .returned ret last (sessionConf env authChanged conf e) out
    ∧ ((∀ msg, last = some msg → strstr msg wpsRegSuccess = false) ↔ e ≠ .registered)

theorem wpsWait_outcome (env : WpsEnv) (authChanged : Option WpaInfo) (conf : Hostapd)
    (out : List LcdCommand) (turns : List CtrlTurn) :
    SessionOutcome env authChanged conf (turnsEnd turns)
      (wpsWait env authChanged conf out turns) := by
  induction turns with
  | nil => rfl
  | cons t ts ih =>
    cases t with
    | idle => exact ih
    | recvFailed => exact ⟨_, _, _, rfl, by simp [turnsEnd]⟩
    | recv buf =>
      by_cases hreg : strstr (.ofBuffer buf) wpsRegSuccess = true
      · simp only [turnsEnd, wpsWait, hreg, if_true]
        exact ⟨_, _, _, rfl, by simp [hreg]⟩
      by_cases htime : strstr (.ofBuffer buf) wpsEventTimeout = true
      · simp only [turnsEnd, wpsWait, hreg, htime, if_true, Bool.false_eq_true, if_false]
        cases authChanged with
        | none => exact ⟨_, _, _, rfl, by simp [hreg]⟩
        | some info => exact ⟨_, _, _, rfl, by simp [hreg]⟩
      · simp only [turnsEnd, wpsWait, hreg, htime, Bool.false_eq_true, if_false]
        exact ih

theorem sessionOutcome_failed (env : WpsEnv) (authChanged : Option WpaInfo) (conf : Hostapd)
    (ret : ℤ) (out : List LcdCommand) :
    SessionOutcome env authChanged conf .failed (.returned ret none conf out) :=
  ⟨ret, none, out, rfl, by simp⟩

theorem wpsSession_outcome (env : WpsEnv) (ctrl : CtrlOutcomes) (authChanged : Option WpaInfo)
    (conf : Hostapd) : SessionOutcome env authChanged conf ctrl.sessionEnd
    (wpsSession env ctrl authChanged conf) := by
  unfold CtrlOutcomes.sessionEnd wpsSession
  generalize (if authChanged.isSome then [LcdCommand.wifiRestart] else []) = out
  dsimp only
  by_cases hok : ctrl.opened = true ∧ ctrl.attach ≠ -2 ∧ ctrl.attach ≠ -1 ∧ ctrl.request = 0
  · rw [if_pos hok]
    obtain ⟨hopen, ha₂, ha₁, hreq⟩ := hok
    rw [if_neg (by simp [hopen]), if_neg ha₂, if_neg ha₁, if_neg (by simp [hreq]),
      if_neg (by simp [hreq])]
    exact wpsWait_outcome env authChanged conf _ ctrl.turns
  · rw [if_neg hok]
    split_ifs with hopen ha₂ ha₁ hr₂ hr₀
    iterate 5 exact sessionOutcome_failed ..
    · exact absurd ⟨by simpa using hopen, ha₂, ha₁, not_not.mp hr₀⟩ hok

theorem writeAll_authType_ne {text : HostapdOption → UciText}
    (hwep : cur.value .authType = some .wep) (hwpa : isAuthWpa (text .authType) = true) :
    (cur.writeAll text).value .authType ≠ cur.value .authType := by
  obtain ⟨hne, hlen⟩ := isAuthWpa_spec hwpa
  rw [Hostapd.writeAll_value, if_pos (cur.value_sect .authType (by rw [hwep]; rfl)),
    UciText.cut_of_length_le hlen, hwep]
  exact fun h => hne (Option.some.inj h)

theorem sessionConf_none (env : WpsEnv) (conf : Hostapd) (e : SessionEnd) :
    sessionConf env none conf e = conf := by
  cases e <;> rfl

theorem HostapdOption.maxLen_le (o : HostapdOption) : o.maxLen ≤ 255 - (o.path.length + 1) := by
  cases o <;> decide

theorem wpsRestoreAuthConfig_value_iff {info : WpaInfo} {text : HostapdOption → UciText}
    (hcur : Rewrites env cur) (hinfo : wpsBackup cur = some info)
    (hwpa : isAuthWpa (text .authType) = true) :
    (∀ o, (wpsRestoreAuthConfig env info (cur.writeAll text)).value o = cur.value o)
      ↔ Restorable env cur := by
  obtain ⟨-, hwep, hcopied, -⟩ := hcur
  obtain ⟨info', hinfo', htext⟩ := wpsBackup_eq hcopied
  obtain rfl := Option.some.inj (hinfo.symm.trans hinfo')
  by_cases halloc : env.allocRestore = true
  swap
  · refine iff_of_false (fun h => ?_) (fun h => halloc h.1)
    have hauth := h .authType
    rw [wpsRestoreAuthConfig, if_neg halloc] at hauth
    exact writeAll_authType_ne hwep hwpa hauth
  have hback : wpsRestoreAuthConfig env info (cur.writeAll text)
      = (cur.writeAll text).writeAll (info.text .wep .zero) := if_pos halloc
  have hcut : ∀ o ∈ HostapdOption.copied, ∀ v, cur.value o = some v →
      ((cur.writeAll text).writeAll (info.text .wep .zero)).value o
        = some (v.cut o.maxLen) := by
    intro o ho v hv
    rw [Hostapd.writeAll_value, Hostapd.writeAll_hasSection,
      if_pos (cur.value_sect o (by rw [hv]; rfl)), htext _ _ o ho v hv, UciText.cut_cut o.maxLen_le]
  rw [hback]
  constructor
  · intro h
    refine ⟨halloc, fun o ho v hv => ?_, fun hwps => ?_⟩
    · have hcv := (hcut o ho v hv).symm.trans ((h o).trans hv)
      exact (UciText.cut_eq_self_iff _ _).mp (Option.some.inj hcv)
    · rw [← h .wpsState, Hostapd.writeAll_value, Hostapd.writeAll_hasSection]
      exact (if_pos hwps).trans (congrArg some
        (UciText.cut_of_length_le (show UciText.zero.val.length ≤ _ by decide)))
  · rintro ⟨-, hlen, hwps⟩ o
    by_cases ho : o ∈ HostapdOption.copied
    · obtain ⟨v, hv⟩ := Option.isSome_iff_exists.mp (hcopied o ho)
      rw [hcut o ho v hv, hv, UciText.cut_of_length_le (hlen o ho v hv)]
    rw [Hostapd.writeAll_value, Hostapd.writeAll_hasSection]
    by_cases hsect : cur.hasSection o.sect = true
    swap
    · rw [if_neg hsect, cur.value_of_no_section hsect]
    rw [if_pos hsect]
    cases o with
    | authType => exact hwep.symm
    | wpsState => exact (hwps hsect).symm
    | _ => exact absurd (by decide) ho

theorem leavesConfig_iff_of_returned {ctrl : CtrlOutcomes} {ret : ℤ} {last : Option CString}
    {conf : Hostapd} {out : List LcdCommand}
    (h : wpsStart env ctrl cur = .returned ret last conf out) : LeavesConfig env ctrl cur
    ↔ ((∀ msg, last = some msg → strstr msg wpsRegSuccess = false) →
      ∀ o, conf.value o = cur.value o) := by
  refine ⟨fun hl => hl ret last conf out h, fun hl ret' last' conf' out' h' => ?_⟩
  rw [h] at h'
  cases h'
  exact hl

theorem leavesConfig_of_not_rewrites (h : ¬ Rewrites env cur) (ctrl : CtrlOutcomes) :
    LeavesConfig env ctrl cur := by
  intro ret last conf out hrun _ o
  unfold wpsStart at hrun
  split at hrun
  · cases hrun
  next check hcheck =>
  obtain ⟨r, rfl⟩ := (rewrites_or_of_wpsCheckAuthType hcheck).resolve_left h
  split at hrun
  · cases hrun
    rfl
  have hout := wpsSession_outcome env ctrl none cur
  rw [show wpsSession env ctrl none cur = _ from hrun] at hout
  unfold SessionOutcome at hout
  split_ifs at hout
  obtain ⟨_, _, _, heq, -⟩ := hout
  rw [sessionConf_none] at heq
  cases heq
  rfl

/-- **Which sessions leave the configuration as it was**: those that find it
fit for WPS, those that register a device or never end, and those that time
out when the copy holds all of it. -/
theorem wpsStart_leaves_config_iff (env : WpsEnv) (ctrl : CtrlOutcomes) (cur : Hostapd) :
    LeavesConfig env ctrl cur
      ↔ ¬ Rewrites env cur ∨ ctrl.sessionEnd = .registered ∨ ctrl.sessionEnd = .waiting
        ∨ (ctrl.sessionEnd = .timeout ∧ Restorable env cur) := by
  by_cases hrw : Rewrites env cur
  swap
  · exact iff_of_true (leavesConfig_of_not_rewrites hrw ctrl) (.inl hrw)
  obtain ⟨info, text, hcheck, hinfo, hwpa⟩ := wpsCheckAuthType_of_rewrites hrw
  have hout := wpsSession_outcome env ctrl (some info) (cur.writeAll text)
  have hstart : wpsStart env ctrl cur
      = wpsSession env ctrl (some info) (cur.writeAll text) := by
    simp [wpsStart, hcheck]
  rw [← hstart] at hout
  have hne := writeAll_authType_ne hrw.2.1 hwpa
  by_cases hend : ctrl.sessionEnd = .waiting
  · rw [hend] at hout
    have hwait : wpsStart env ctrl cur = .waiting := hout
    refine iff_of_true (fun _ _ _ _ h => ?_) (by simp [hend])
    rw [hwait] at h
    cases h
  unfold SessionOutcome at hout
  rw [if_neg hend] at hout
  obtain ⟨ret, last, out, hrun, hlast⟩ := hout
  rw [leavesConfig_iff_of_returned hrun, hlast]
  cases hend' : ctrl.sessionEnd with
  | waiting => exact absurd hend' hend
  | registered => simp
  | failed => exact iff_of_false (fun h => hne (h (by simp) .authType)) (by simp [hrw])
  | timeout => simp [hrw, sessionConf, wpsRestoreAuthConfig_value_iff hrw hinfo hwpa]

/-- A network with WEP. -/
def wepConf : Hostapd where
  hasSection := fun _ => true
  value := fun o =>
    match o with
    | .authType => some .wep
    | .wpsState => some .zero
    | _ => some ⟨.ofString "" (by decide), by decide⟩
  value_sect := fun _ _ => rfl

/-- Without factory defaults, and with a `hostapd` that does not answer,
pressing the button turns a WEP network into one with a known passphrase,
and reports that WPS could not be activated. -/
theorem wpsStart_keeps_rewritten_config :
    (∃ conf out, wpsStart ⟨true, true, true, none⟩ ⟨false, 0, 0, []⟩ wepConf
        = .returned (-1) none conf out
      ∧ conf.value .authType = some .wpa
      ∧ conf.value .wpaPassphrase = some ⟨.ofString "bandrich" (by decide), by decide⟩)
    ∧ ¬ LeavesConfig ⟨true, true, true, none⟩ ⟨false, 0, 0, []⟩ wepConf := by
  have hrun : wpsStart ⟨true, true, true, none⟩ ⟨false, 0, 0, []⟩ wepConf
      = .returned (-1) none (wpsHardCoded wepConf) [.wifiRestart,
        .log "WPS_CTRL: failed to connect to hostapd!", .drawLine1 "Failed to activate WPS"] :=
    rfl
  refine ⟨⟨_, _, hrun, by decide, by decide⟩, fun h => ?_⟩
  exact absurd (h _ _ _ _ hrun (by simp) .authType) (by decide)
