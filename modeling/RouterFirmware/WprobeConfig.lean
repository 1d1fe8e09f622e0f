import RouterFirmware.WprobeFilterContained

/-!
# Configuring wprobe

`wprobe_set_config` goes through the attributes of a request one after the
other – the flags, the range of samples, the scale, the filter, the interval –
and applies each to the interface at once.

So a request that fails half way leaves what came before. The property
`AllOrNothing` asks for more: a call that returns an error has changed nothing,
and after one that returns zero every attribute given has taken effect. The
conditions `Orderly` say for which requests this holds, by the first attribute
that is not valid; `wprobeSetConfig_allOrNothing_iff` shows that they are exactly
the requests for which it does.

What breaks it: a range of samples followed by a bad scale; a filter that does
not pass the check, which only removes the old one; half of a scale, which is
ignored; an interval of more than 32 bits; and the flag for a reset, of which the
code tests another bit.
-/

namespace Wprobe

open Option Errno

/-! ## The interface and the request -/

/-- **`struct wprobe_iface`**, as far as a configuration reads or writes it,
with the values of the interface and of its links. -/
@[ext]
structure Iface (V : Type) (nGlobalItems nLinkItems : ℕ) where
  val : Vector V nGlobalItems
  links : List (Vector V nLinkItems)
  activeFilter : Option Filter
  measureInterval : UInt32
  /-- Whether the timer for the next measurement is set. -/
  measureTimer : Bool
  scaleMin : UInt32
  scaleMax : UInt32
  scaleM : UInt32
  scaleD : UInt32

/-- **The attributes of a request**; the filter is an address and a length. -/
structure ConfigAttrs where
  mac : Bool
  flags : Option UInt32
  samplesMin : Option UInt32
  samplesMax : Option UInt32
  scaleM : Option UInt32
  scaleD : Option UInt32
  filter : Option (ℕ × ℕ)
  interval : Option UInt64

/-- `WPROBE_F_RESET`: reset statistics now. -/
def wprobeFReset : UInt32 := (1 : UInt32) <<< 1

/-- `WPROBE_MIN_INTERVAL`, in milliseconds. -/
def wprobeMinInterval : UInt32 := 100

/-- The macro `BIT`. -/
def BIT (n : UInt32) : UInt32 := 1 <<< n

section Model

variable {V : Type} {nG nL : ℕ}

/-- The statistics of the interface and of each link are cleared. -/
def Iface.reset [Zero V] (dev : Iface V nG nL) : Iface V nG nL :=
  { dev with
    val := .replicate nG 0
    links := dev.links.map fun _ => .replicate nL 0 }

/-- `WPROBE_ATTR_FLAGS`: the code tests `BIT(WPROBE_F_RESET)`. -/
def configFlags [Zero V] (attrs : ConfigAttrs) (dev : Iface V nG nL) : Iface V nG nL :=
  match attrs.flags with
  | some flags => if flags &&& BIT wprobeFReset ≠ 0 then dev.reset else dev
  | none => dev

/-- `WPROBE_ATTR_SAMPLES_MIN` and `_MAX`: nothing if they are no range. -/
def configSamples (attrs : ConfigAttrs) (dev : Iface V nG nL) : Option (Iface V nG nL) :=
  if attrs.samplesMin.isSome ∨ attrs.samplesMax.isSome then
    let scaleMin := attrs.samplesMin.getD dev.scaleMin
    let scaleMax := attrs.samplesMax.getD dev.scaleMax
    if scaleMin = 0 ∧ scaleMax = 0 ∨ scaleMin ≠ 0 ∧ scaleMax ≠ 0 ∧ scaleMin < scaleMax then
      some { dev with scaleMin := scaleMin, scaleMax := scaleMax }
    else none
  else some dev

/-- `WPROBE_ATTR_SAMPLES_SCALE_M` and `_D`, if both are given. -/
def configScale (attrs : ConfigAttrs) (dev : Iface V nG nL) : Option (Iface V nG nL) :=
  match attrs.scaleM, attrs.scaleD with
  | some scaleM, some scaleD =>
    if scaleD = 0 ∨ scaleD < scaleM then none
    else some { dev with scaleM := scaleM, scaleD := scaleD }
  | _, _ => some dev

/-- `WPROBE_ATTR_FILTER`: the old filter goes in any case. -/
def configFilter (K : Kernel) (allocs : Allocs) (mem : Bytes) (attrs : ConfigAttrs)
    (dev : Iface V nG nL) : Iface V nG nL :=
  match attrs.filter with
  | some (data, len) =>
    let dev := { dev with activeFilter := none }
    if 0 < len then
      match wprobeSetFilter K allocs mem data len with
      | .ok r => { dev with activeFilter := some r.filter }
      | .error _ => dev
    else dev
  | none => dev

/-- **`wprobe_update_auto_measurement`.** -/
def wprobeUpdateAutoMeasurement (dev : Iface V nG nL) (interval : UInt32) : ℤ × Iface V nG nL :=
  if interval ≠ 0 ∧ interval < wprobeMinInterval then (-EINVAL, dev)
  else
    let dev := if interval = 0 ∧ dev.measureInterval ≠ 0 then { dev with measureTimer := false }
      else dev
    let dev := { dev with measureInterval := interval }
    if interval = 0 then (0, dev) else (0, { dev with measureTimer := true })

/-- **`wprobe_set_config`**, for the interface that was found, if any. -/
def wprobeSetConfig [Zero V] (K : Kernel) (allocs : Allocs) (mem : Bytes) (attrs : ConfigAttrs) :
    Option (Iface V nG nL) → ℤ × Option (Iface V nG nL)
  | none => (-ENOENT, none)
  | some dev =>
    if attrs.mac then (-EINVAL, some dev)
    else
      let dev := configFlags attrs dev
      match configSamples attrs dev with
      | none => (-EINVAL, some dev)
      | some dev =>
        match configScale attrs dev with
        | none => (-EINVAL, some dev)
        | some dev =>
          let dev := configFilter K allocs mem attrs dev
          match attrs.interval with
          | none => (0, some dev)
          | some interval =>
            let (err, dev) := wprobeUpdateAutoMeasurement dev interval.toUInt32
            (err, some dev)

end Model

/-! ## All or nothing -/

section Property

variable {V : Type} [Zero V] {nG nL : ℕ}

/-- All statistics are zero. -/
def Iface.Cleared (dev : Iface V nG nL) : Prop :=
  dev.val = .replicate nG 0 ∧ ∀ l ∈ dev.links, l = .replicate nL 0

/-- **Every attribute given has taken effect.** -/
structure TakesEffect (K : Kernel) (allocs : Allocs) (mem : Bytes) (attrs : ConfigAttrs)
    (dev' : Iface V nG nL) : Prop where
  reset : ∀ flags, attrs.flags = some flags → flags &&& wprobeFReset ≠ 0 → dev'.Cleared
  samplesMin : ∀ v, attrs.samplesMin = some v → dev'.scaleMin = v
  samplesMax : ∀ v, attrs.samplesMax = some v → dev'.scaleMax = v
  scaleM : ∀ v, attrs.scaleM = some v → dev'.scaleM = v
  scaleD : ∀ v, attrs.scaleD = some v → dev'.scaleD = v
  noFilter : ∀ data, attrs.filter = some (data, 0) → dev'.activeFilter = none
  filter : ∀ data len, attrs.filter = some (data, len) → 0 < len →
    ∃ r, wprobeSetFilter K allocs mem data len = .ok r ∧ dev'.activeFilter = some r.filter
  interval : ∀ v, attrs.interval = some v → dev'.measureInterval.toNat = v.toNat

/-- **A request is applied as a whole or not at all.** -/
def AllOrNothing (K : Kernel) (allocs : Allocs) (mem : Bytes) (attrs : ConfigAttrs)
    (found : Option (Iface V nG nL)) : Prop :=
  ((wprobeSetConfig K allocs mem attrs found).1 ≠ 0 →
      (wprobeSetConfig K allocs mem attrs found).2 = found)
    ∧ ((wprobeSetConfig K allocs mem attrs found).1 = 0 →
      ∃ dev', (wprobeSetConfig K allocs mem attrs found).2 = some dev'
        ∧ TakesEffect K allocs mem attrs dev')

/-! ### Requests that are orderly -/

section Conditions

variable (K : Kernel) (allocs : Allocs) (mem : Bytes) (attrs : ConfigAttrs) (dev : Iface V nG nL)

omit [Zero V] in
/-- The range of samples, where one is given, is one or is switched off. -/
def SamplesValid : Prop :=
  attrs.samplesMin.isSome ∨ attrs.samplesMax.isSome →
    attrs.samplesMin.getD dev.scaleMin = 0 ∧ attrs.samplesMax.getD dev.scaleMax = 0
      ∨ attrs.samplesMin.getD dev.scaleMin ≠ 0 ∧ attrs.samplesMax.getD dev.scaleMax ≠ 0
        ∧ attrs.samplesMin.getD dev.scaleMin < attrs.samplesMax.getD dev.scaleMax

/-- The scale, where it is given, is a fraction up to one. -/
def ScaleValid : Prop :=
  ∀ m d, attrs.scaleM = some m → attrs.scaleD = some d → d ≠ 0 ∧ m ≤ d

/-- The interval, without its upper half, is zero or long enough. -/
def IntervalValid : Prop :=
  ∀ v, attrs.interval = some v → v.toUInt32 = 0 ∨ wprobeMinInterval ≤ v.toUInt32

/-- The flags clear nothing that is not zero. -/
def ResetIdle : Prop :=
  ∀ flags, attrs.flags = some flags → flags &&& BIT wprobeFReset ≠ 0 → dev.Cleared

omit [Zero V] in
/-- The samples are as they are asked for. -/
def SamplesIdle : Prop :=
  attrs.samplesMin.getD dev.scaleMin = dev.scaleMin
    ∧ attrs.samplesMax.getD dev.scaleMax = dev.scaleMax

omit [Zero V] in
/-- The scale is as it is asked for. -/
def ScaleIdle : Prop :=
  ∀ m d, attrs.scaleM = some m → attrs.scaleD = some d → m = dev.scaleM ∧ d = dev.scaleD

omit [Zero V] in
/-- A filter is given only where there is none. -/
def FilterIdle : Prop :=
  ∀ data len, attrs.filter = some (data, len) →
    dev.activeFilter = none ∧ ∀ r, 0 < len → wprobeSetFilter K allocs mem data len ≠ .ok r

/-- A request for a reset has the bit that the code looks at. -/
def ResetHonoured : Prop :=
  ∀ flags, attrs.flags = some flags → flags &&& wprobeFReset ≠ 0 →
    flags &&& BIT wprobeFReset ≠ 0 ∨ dev.Cleared

omit [Zero V] in
/-- Half of a scale is as it is asked for. -/
def ScaleHonoured : Prop :=
  (∀ m, attrs.scaleM = some m → attrs.scaleD = none → m = dev.scaleM)
    ∧ ∀ d, attrs.scaleD = some d → attrs.scaleM = none → d = dev.scaleD

/-- A filter that is given passes the check. -/
def FilterHonoured : Prop :=
  ∀ data len, attrs.filter = some (data, len) → 0 < len →
    ∃ r, wprobeSetFilter K allocs mem data len = .ok r

/-- An interval that is given fits in 32 bits. -/
def IntervalHonoured : Prop := ∀ v, attrs.interval = some v → v.toNat < 2 ^ 32

/-- **An orderly request**, by the first attribute that is not valid. -/
@[mk_iff]
structure Orderly : Prop where
  samples : ¬ SamplesValid attrs dev → ResetIdle attrs dev
  scale : SamplesValid attrs dev → ¬ ScaleValid attrs →
    ResetIdle attrs dev ∧ SamplesIdle attrs dev
  interval : SamplesValid attrs dev → ScaleValid attrs → ¬ IntervalValid attrs →
    ResetIdle attrs dev ∧ SamplesIdle attrs dev ∧ ScaleIdle attrs dev
      ∧ FilterIdle K allocs mem attrs dev
  effect : SamplesValid attrs dev → ScaleValid attrs → IntervalValid attrs →
    ResetHonoured attrs dev ∧ ScaleHonoured attrs dev ∧ FilterHonoured K allocs mem attrs
      ∧ IntervalHonoured attrs

end Conditions

/-! ### The steps of the call -/

section Steps

variable {K : Kernel} {allocs : Allocs} {mem : Bytes} {attrs : ConfigAttrs}
  {dev : Iface V nG nL} (hmac : attrs.mac = false)
  (hsamples : SamplesValid attrs dev) (hscale : ScaleValid attrs)

theorem Iface.reset_eq_self_iff : dev.reset = dev ↔ dev.Cleared := by
  constructor
  · intro h
    refine ⟨(congrArg Iface.val h).symm, fun l hl => ?_⟩
    have hlinks : dev.links.map (fun _ => Vector.replicate nL (0 : V)) = dev.links :=
      congrArg Iface.links h
    rw [← hlinks] at hl
    obtain ⟨-, -, heq⟩ := List.mem_map.mp hl
    exact heq.symm
  · rintro ⟨hval, hlinks⟩
    have hmap : dev.links.map (fun _ => Vector.replicate nL (0 : V)) = dev.links := by
      refine (List.map_congr_left fun l hl => (hlinks l hl).symm).trans ?_
      exact List.map_id _
    rw [Iface.reset, hmap, ← hval]

theorem Iface.cleared_reset (dev : Iface V nG nL) : dev.reset.Cleared := by
  refine ⟨rfl, fun l hl => ?_⟩
  obtain ⟨-, -, heq⟩ := List.mem_map.mp hl
  exact heq.symm

theorem configFlags_eq (attrs : ConfigAttrs) (dev : Iface V nG nL) : configFlags attrs dev
    = { dev with
        val := (configFlags attrs dev).val, links := (configFlags attrs dev).links } := by
  unfold configFlags
  split
  · split_ifs <;> rfl
  · rfl

theorem configFlags_eq_self_iff : configFlags attrs dev = dev ↔ ResetIdle attrs dev := by
  unfold configFlags ResetIdle
  cases attrs.flags with
  | none => exact iff_of_true rfl nofun
  | some flags =>
    simp only [some.injEq, forall_eq']
    split_ifs with hbit
    · rw [Iface.reset_eq_self_iff, imp_iff_right hbit]
    · exact iff_of_true rfl fun h => absurd h hbit

theorem configFlags_honours_iff : (∀ flags, attrs.flags = some flags → flags &&& wprobeFReset ≠ 0 →
      (configFlags attrs dev).Cleared)
    ↔ ResetHonoured attrs dev := by
  unfold configFlags ResetHonoured
  cases attrs.flags with
  | none => exact iff_of_true nofun nofun
  | some flags =>
    simp only [some.injEq, forall_eq']
    split_ifs with hbit
    · exact iff_of_true (fun _ => dev.cleared_reset) fun _ => .inl hbit
    · rw [or_iff_right hbit]

omit [Zero V] in
/-- The interface with the samples that are asked for. -/
def withSamples (attrs : ConfigAttrs) (dev : Iface V nG nL) : Iface V nG nL :=
  { dev with
    scaleMin := attrs.samplesMin.getD dev.scaleMin
    scaleMax := attrs.samplesMax.getD dev.scaleMax }

omit [Zero V] in
theorem configSamples_of_valid (h : SamplesValid attrs dev) :
    configSamples attrs dev = some (withSamples attrs dev) := by
  unfold configSamples
  by_cases hgiven : attrs.samplesMin.isSome ∨ attrs.samplesMax.isSome
  · rw [if_pos hgiven, if_pos (h hgiven)]
    rfl
  · obtain ⟨hmin, hmax⟩ := not_or.mp hgiven
    rw [if_neg hgiven, withSamples, not_isSome_iff_eq_none.mp hmin, not_isSome_iff_eq_none.mp hmax]
    rfl

omit [Zero V] in
theorem configSamples_of_not_valid (h : ¬ SamplesValid attrs dev) :
    configSamples attrs dev = none := by
  obtain ⟨hgiven, hrange⟩ := Classical.not_imp.mp h
  rw [configSamples, if_pos hgiven, if_neg hrange]

omit [Zero V] in
/-- The interface with the scale that is asked for. -/
def withScale (attrs : ConfigAttrs) (dev : Iface V nG nL) : Iface V nG nL :=
  match attrs.scaleM, attrs.scaleD with
  | some m, some d => { dev with scaleM := m, scaleD := d }
  | _, _ => dev

omit [Zero V] in
theorem configScale_of_valid (h : ScaleValid attrs) :
    configScale attrs dev = some (withScale attrs dev) := by
  unfold configScale withScale
  cases hm : attrs.scaleM with
  | none => rfl
  | some m =>
    cases hd : attrs.scaleD with
    | none => rfl
    | some d =>
      obtain ⟨hzero, hle⟩ := h m d hm hd
      exact if_neg (not_or.mpr ⟨hzero, UInt32.not_lt.mpr hle⟩)

omit [Zero V] in
theorem configScale_of_not_valid (h : ¬ ScaleValid attrs) : configScale attrs dev = none := by
  unfold configScale
  cases hm : attrs.scaleM with
  | none => exact absurd (fun m d h _ => nomatch hm.symm.trans h) h
  | some m =>
    cases hd : attrs.scaleD with
    | none => exact absurd (fun m d _ h => nomatch hd.symm.trans h) h
    | some d =>
      have hbad : d ≠ 0 → d < m := by simpa [ScaleValid, hm, hd] using h
      exact if_pos (Classical.or_iff_not_imp_left.mpr hbad)

/-- The filter that is active after the call. -/
def nextFilter (K : Kernel) (allocs : Allocs) (mem : Bytes) (attrs : ConfigAttrs)
    (old : Option Filter) : Option Filter :=
  match attrs.filter with
  | some (data, len) =>
    if 0 < len then
      match wprobeSetFilter K allocs mem data len with
      | .ok r => some r.filter
      | .error _ => none
    else none
  | none => old

omit [Zero V] in
theorem configFilter_eq : configFilter K allocs mem attrs dev
    = { dev with activeFilter := nextFilter K allocs mem attrs dev.activeFilter } := by
  unfold configFilter nextFilter
  cases attrs.filter with
  | none => rfl
  | some f =>
    obtain ⟨data, len⟩ := f
    by_cases hlen : 0 < len
    · simp only [if_pos hlen]
      cases wprobeSetFilter K allocs mem data len <;> rfl
    · simp only [if_neg hlen]

omit [Zero V] in
theorem wprobeUpdateAutoMeasurement_of_valid (dev : Iface V nG nL)
    {interval : UInt32} (h : interval = 0 ∨ wprobeMinInterval ≤ interval) :
    ∃ timer, wprobeUpdateAutoMeasurement dev interval
      = (0, { dev with measureInterval := interval, measureTimer := timer }) := by
  have hvalid : ¬ (interval ≠ 0 ∧ interval < wprobeMinInterval) := by
    rintro ⟨hzero, hlt⟩
    exact h.elim hzero fun hle => UInt32.not_lt.mpr hle hlt
  rw [wprobeUpdateAutoMeasurement, if_neg hvalid]
  dsimp only
  split_ifs
  · exact ⟨false, rfl⟩
  · exact ⟨dev.measureTimer, rfl⟩
  · exact ⟨true, rfl⟩
  · exact ⟨true, rfl⟩

/-! ### The call by the first attribute that is not valid -/

/-- The interface with everything applied but the interval. -/
def applied (K : Kernel) (allocs : Allocs) (mem : Bytes) (attrs : ConfigAttrs)
    (dev : Iface V nG nL) : Iface V nG nL :=
  configFilter K allocs mem attrs (withScale attrs (withSamples attrs (configFlags attrs dev)))

theorem samplesValid_configFlags :
    SamplesValid attrs (configFlags attrs dev) ↔ SamplesValid attrs dev := by
  rw [configFlags_eq]
  rfl

include hmac

theorem wprobeSetConfig_of_not_samplesValid (hsamples : ¬ SamplesValid attrs dev) :
    wprobeSetConfig K allocs mem attrs (some dev) = (-EINVAL, some (configFlags attrs dev)) := by
  have hnot := mt samplesValid_configFlags.mp hsamples
  simp only [wprobeSetConfig, hmac, Bool.false_eq_true, if_false, configSamples_of_not_valid hnot]

include hsamples

theorem wprobeSetConfig_of_not_scaleValid (hscale : ¬ ScaleValid attrs) :
    wprobeSetConfig K allocs mem attrs (some dev)
      = (-EINVAL, some (withSamples attrs (configFlags attrs dev))) := by
  have hvalid := samplesValid_configFlags.mpr hsamples
  simp only [wprobeSetConfig, hmac, Bool.false_eq_true, if_false, configSamples_of_valid hvalid,
    configScale_of_not_valid hscale]

include hscale

theorem wprobeSetConfig_of_scaleValid : wprobeSetConfig K allocs mem attrs (some dev)
    = match attrs.interval with
      | none => (0, some (applied K allocs mem attrs dev))
      | some v =>
        ((wprobeUpdateAutoMeasurement (applied K allocs mem attrs dev) v.toUInt32).1,
          some (wprobeUpdateAutoMeasurement (applied K allocs mem attrs dev) v.toUInt32).2) := by
  have hvalid := samplesValid_configFlags.mpr hsamples
  simp only [wprobeSetConfig, hmac, Bool.false_eq_true, if_false, configSamples_of_valid hvalid,
    configScale_of_valid hscale]
  rfl

theorem wprobeSetConfig_of_not_intervalValid (hinterval : ¬ IntervalValid attrs) :
    wprobeSetConfig K allocs mem attrs (some dev)
      = (-EINVAL, some (applied K allocs mem attrs dev)) := by
  rw [wprobeSetConfig_of_scaleValid hmac hsamples hscale]
  cases hv : attrs.interval with
  | none => exact absurd (fun v h => nomatch hv.symm.trans h) hinterval
  | some v =>
    simp only [IntervalValid, hv, some.injEq, forall_eq', not_or, UInt32.not_le] at hinterval
    simp only [wprobeUpdateAutoMeasurement, if_pos hinterval]

theorem wprobeSetConfig_of_intervalValid (hinterval : IntervalValid attrs) :
    ∃ interval timer, wprobeSetConfig K allocs mem attrs (some dev)
        = (0, some { applied K allocs mem attrs dev with
            measureInterval := interval, measureTimer := timer })
      ∧ ∀ v, attrs.interval = some v → interval = v.toUInt32 := by
  rw [wprobeSetConfig_of_scaleValid hmac hsamples hscale]
  cases hv : attrs.interval with
  | none => exact ⟨_, _, rfl, nofun⟩
  | some v =>
    obtain ⟨timer, heq⟩ :=
      wprobeUpdateAutoMeasurement_of_valid (applied K allocs mem attrs dev) (hinterval v hv)
    exact ⟨v.toUInt32, timer, by simp only [heq], fun v' hv' => by rw [some.inj hv']⟩

omit hscale

omit hsamples

omit hmac

/-! ### What leaves the interface as it is -/

theorem withSamples_eq_self_iff : withSamples attrs (configFlags attrs dev) = dev
    ↔ ResetIdle attrs dev ∧ SamplesIdle attrs dev := by
  rw [← configFlags_eq_self_iff, configFlags_eq attrs dev]
  generalize (configFlags attrs dev).val = val
  generalize (configFlags attrs dev).links = links
  simp only [Iface.ext_iff, withSamples, SamplesIdle]
  tauto

omit [Zero V] in
theorem withScale_eq_self_iff : withScale attrs dev = dev ↔ ScaleIdle attrs dev := by
  unfold withScale ScaleIdle
  cases attrs.scaleM with
  | none => exact iff_of_true rfl nofun
  | some m =>
    cases attrs.scaleD with
    | none => exact iff_of_true rfl nofun
    | some d =>
      simp [Iface.ext_iff]

omit [Zero V] in
theorem nextFilter_eq_self_iff
    (hfresh : ∀ f, dev.activeFilter = some f → allocs.data ≠ some f.data) :
    nextFilter K allocs mem attrs dev.activeFilter = dev.activeFilter
      ↔ FilterIdle K allocs mem attrs dev := by
  cases hf : attrs.filter with
  | none => simp [nextFilter, FilterIdle, hf]
  | some f =>
    obtain ⟨data, len⟩ := f
    have hidle : FilterIdle K allocs mem attrs dev ↔ dev.activeFilter = none
        ∧ ∀ r, 0 < len → wprobeSetFilter K allocs mem data len ≠ .ok r := by
      simp [FilterIdle, hf]
    rw [hidle, nextFilter, hf]
    by_cases hlen : 0 < len
    · simp only [if_pos hlen]
      cases hset : wprobeSetFilter K allocs mem data len with
      | error e => exact ⟨fun h => ⟨h.symm, fun r _ => nofun⟩, fun h => h.1.symm⟩
      | ok r =>
        obtain ⟨-, -, -, hdata, -⟩ := exists_of_wprobeSetFilter hset
        refine iff_of_false ?_ fun h => h.2 r hlen rfl
        exact fun heq => hfresh r.filter heq.symm hdata
    · simp only [if_neg hlen]
      exact ⟨fun h => ⟨h.symm, fun r h => absurd h hlen⟩, fun h => h.1.symm⟩

/-- **What a valid request leaves**, field by field. -/
theorem applied_eq : applied K allocs mem attrs dev
    = { dev with
        val := (configFlags attrs dev).val
        links := (configFlags attrs dev).links
        activeFilter := nextFilter K allocs mem attrs dev.activeFilter
        scaleMin := attrs.samplesMin.getD dev.scaleMin
        scaleMax := attrs.samplesMax.getD dev.scaleMax
        scaleM := (withScale attrs dev).scaleM
        scaleD := (withScale attrs dev).scaleD } := by
  rw [applied, configFilter_eq, configFlags_eq attrs dev]
  unfold withScale withSamples
  cases attrs.scaleM with
  | none => rfl
  | some m => cases attrs.scaleD <;> rfl

omit [Zero V] in
theorem withScale_eq : withScale attrs dev
    = { dev with
        scaleM := (withScale attrs dev).scaleM, scaleD := (withScale attrs dev).scaleD } := by
  unfold withScale
  cases attrs.scaleM with
  | none => rfl
  | some m => cases attrs.scaleD <;> rfl

theorem applied_eq_self_iff (hfresh : ∀ f, dev.activeFilter = some f → allocs.data ≠ some f.data) :
    applied K allocs mem attrs dev = dev
      ↔ ResetIdle attrs dev ∧ SamplesIdle attrs dev ∧ ScaleIdle attrs dev
        ∧ FilterIdle K allocs mem attrs dev := by
  rw [← nextFilter_eq_self_iff hfresh, ← withScale_eq_self_iff, ← configFlags_eq_self_iff,
    applied_eq, configFlags_eq attrs dev, withScale_eq]
  simp only [Iface.ext_iff, SamplesIdle]
  tauto

/-! ### What takes effect -/

omit [Zero V] in
theorem withScale_honours_iff : ((∀ v, attrs.scaleM = some v → (withScale attrs dev).scaleM = v)
      ∧ ∀ v, attrs.scaleD = some v → (withScale attrs dev).scaleD = v)
    ↔ ScaleHonoured attrs dev := by
  unfold withScale ScaleHonoured
  cases attrs.scaleM with
  | none =>
    cases attrs.scaleD with
    | none => exact iff_of_true ⟨nofun, nofun⟩ ⟨nofun, nofun⟩
    | some d =>
      refine and_congr (iff_of_true nofun nofun) (forall_congr' fun v => forall_congr' fun _ => ?_)
      exact ⟨fun h _ => h.symm, fun h => (h rfl).symm⟩
  | some m =>
    cases attrs.scaleD with
    | none =>
      refine and_congr (forall_congr' fun v => forall_congr' fun _ => ?_) (iff_of_true nofun nofun)
      exact ⟨fun h _ => h.symm, fun h => (h rfl).symm⟩
    | some d =>
      exact iff_of_true ⟨fun _ h => some.inj h, fun _ h => some.inj h⟩
        ⟨fun _ _ => nofun, fun _ _ => nofun⟩

theorem nextFilter_honours_iff {old : Option Filter} :
    (∀ data len, attrs.filter = some (data, len) → 0 < len →
        ∃ r, wprobeSetFilter K allocs mem data len = .ok r
          ∧ nextFilter K allocs mem attrs old = some r.filter)
      ↔ FilterHonoured K allocs mem attrs := by
  refine forall_congr' fun data => forall_congr' fun len => forall_congr' fun hfilter =>
    forall_congr' fun hlen => ⟨fun ⟨r, hr, _⟩ => ⟨r, hr⟩, fun ⟨r, hr⟩ => ⟨r, hr, ?_⟩⟩
  simp only [nextFilter, hfilter, if_pos hlen, hr]

theorem takesEffect_applied_iff {interval : UInt32} {timer : Bool}
    (hinterval : ∀ v, attrs.interval = some v → interval = v.toUInt32) :
    TakesEffect K allocs mem attrs { applied K allocs mem attrs dev with
        measureInterval := interval, measureTimer := timer }
      ↔ ResetHonoured attrs dev ∧ ScaleHonoured attrs dev ∧ FilterHonoured K allocs mem attrs
        ∧ IntervalHonoured attrs := by
  have hmod : ∀ v, attrs.interval = some v → interval.toNat = v.toNat % 2 ^ 32 := by
    intro v hv
    rw [hinterval v hv, UInt64.toNat_toUInt32]
  rw [← configFlags_honours_iff, ← withScale_honours_iff,
    ← @nextFilter_honours_iff K allocs mem attrs dev.activeFilter, applied_eq]
  constructor
  · intro h
    refine ⟨h.reset, ⟨h.scaleM, h.scaleD⟩, h.filter, fun v hv => ?_⟩
    have heq := h.interval v hv
    rw [hmod v hv] at heq
    omega
  · rintro ⟨hreset, ⟨hscaleM, hscaleD⟩, hfilter, hfits⟩
    refine ⟨hreset, ?_, ?_, hscaleM, hscaleD, ?_, hfilter, fun v hv => ?_⟩
    · rintro v hv
      simp only [hv, getD_some]
    · rintro v hv
      simp only [hv, getD_some]
    · rintro data hdata
      simp only [nextFilter, hdata, Nat.lt_irrefl, if_false]
    · exact (hmod v hv).trans (Nat.mod_eq_of_lt (hfits v hv))

/-! ### All or nothing -/

theorem allOrNothing_of_fails {found out : Option (Iface V nG nL)} {err : ℤ}
    (herr : err ≠ 0) (h : wprobeSetConfig K allocs mem attrs found = (err, out)) :
    AllOrNothing K allocs mem attrs found ↔ out = found := by
  rw [AllOrNothing, h]
  exact ⟨fun hall => hall.1 herr, fun heq => ⟨fun _ => heq, fun hzero => absurd hzero herr⟩⟩

theorem allOrNothing_of_succeeds {found : Option (Iface V nG nL)} {dev' : Iface V nG nL}
    (h : wprobeSetConfig K allocs mem attrs found = (0, some dev')) :
    AllOrNothing K allocs mem attrs found ↔ TakesEffect K allocs mem attrs dev' := by
  rw [AllOrNothing, h]
  constructor
  · rintro ⟨-, hall⟩
    obtain ⟨dev'', heq, heffect⟩ := hall rfl
    obtain rfl := some.inj heq
    exact heffect
  · exact fun heffect => ⟨fun hne => absurd rfl hne, fun _ => ⟨dev', rfl, heffect⟩⟩

/-- The request is for an interface and without an address. -/
theorem allOrNothing_iff_orderly (hmac : attrs.mac = false)
    (hfresh : ∀ f, dev.activeFilter = some f → allocs.data ≠ some f.data) :
    AllOrNothing K allocs mem attrs (some dev) ↔ Orderly K allocs mem attrs dev := by
  have heinval : -EINVAL ≠ 0 := by decide
  by_cases hsamples : SamplesValid attrs dev
  · by_cases hscale : ScaleValid attrs
    · by_cases hinterval : IntervalValid attrs
      · obtain ⟨interval, timer, hcall, hv⟩ := @wprobeSetConfig_of_intervalValid V _ nG
          nL K allocs mem attrs dev hmac hsamples hscale hinterval
        rw [allOrNothing_of_succeeds hcall, takesEffect_applied_iff hv]
        simp [orderly_iff, hsamples, hscale, hinterval]
      · rw [allOrNothing_of_fails heinval
          (wprobeSetConfig_of_not_intervalValid hmac hsamples hscale hinterval),
          some_inj, applied_eq_self_iff hfresh]
        simp [orderly_iff, hsamples, hscale, hinterval]
    · rw [allOrNothing_of_fails heinval
        (wprobeSetConfig_of_not_scaleValid hmac hsamples hscale), some_inj,
        withSamples_eq_self_iff]
      simp [orderly_iff, hsamples, hscale]
  · rw [allOrNothing_of_fails heinval (wprobeSetConfig_of_not_samplesValid hmac hsamples),
      some_inj, configFlags_eq_self_iff]
    simp [orderly_iff, hsamples]

end Steps

/-- **When a configuration is all or nothing**: there is no interface, or an
address is given, or the request is orderly. The memory for a new filter is
not in use by the active one. -/
theorem wprobeSetConfig_allOrNothing_iff (K : Kernel) (allocs : Allocs) (mem : Bytes)
    (attrs : ConfigAttrs) (found : Option (Iface V nG nL))
    (hfresh : ∀ dev f, found = some dev → dev.activeFilter = some f →
      allocs.data ≠ some f.data) : AllOrNothing K allocs mem attrs found
    ↔ ∀ dev, found = some dev → attrs.mac = false → Orderly K allocs mem attrs dev := by
  cases found with
  | none =>
    refine iff_of_true ?_ nofun
    exact (allOrNothing_of_fails (show -ENOENT ≠ 0 by decide) rfl).mpr rfl
  | some dev =>
    cases hmac : attrs.mac with
    | true =>
      have hcall : wprobeSetConfig K allocs mem attrs (some dev) = (-EINVAL, some dev) :=
        if_pos hmac
      have hno := (allOrNothing_of_fails (show -EINVAL ≠ 0 by decide) hcall).mpr rfl
      exact iff_of_true hno fun _ _ => nofun
    | false =>
      simp [allOrNothing_iff_orderly hmac (hfresh dev · rfl)]

end Property

/-- An interface without items or links, with a filter. -/
def plainIface : Iface ℕ 0 0 where
  val := #v[]
  links := []
  activeFilter := some ⟨0x20000, 0, sizeofWlanHdr, [], 0, 0, []⟩
  measureInterval := 0
  measureTimer := false
  scaleMin := 0
  scaleMax := 0
  scaleM := 1
  scaleD := 10

/-- A request for nothing. -/
def noAttrs : ConfigAttrs := ⟨false, none, none, none, none, none, none, none⟩

/-- A range of samples is set, alone. -/
theorem wprobeSetConfig_allOrNothing_samples : AllOrNothing smallKernel allAllocs returnPacket
    { noAttrs with samplesMin := some 10, samplesMax := some 20 } (some plainIface) := by
  refine (wprobeSetConfig_allOrNothing_iff smallKernel allAllocs returnPacket _ _ ?_).mpr ?_
  · rintro dev f heq hf hdata
    obtain rfl := some.inj heq
    obtain rfl := some.inj hf
    exact absurd hdata (by decide)
  · rintro dev heq -
    obtain rfl := some.inj heq
    have hsamples : SamplesValid { noAttrs with samplesMin := some 10, samplesMax := some 20 }
        plainIface := fun _ => .inr (by decide)
    refine ⟨fun h => absurd hsamples h, fun _ h => absurd (fun m d => nofun) h,
      fun _ _ h => absurd (fun v => nofun) h, fun _ _ _ => ⟨fun _ => nofun, ⟨fun _ => nofun,
      fun _ => nofun⟩, fun _ _ => nofun, fun _ => nofun⟩⟩

/-- **Something, and nothing**: with a scale that is not valid the call fails,
and the range of samples is the new one; with a filter of one byte it
succeeds, and there is no filter any more. -/
theorem wprobeSetConfig_not_allOrNothing : ¬ AllOrNothing smallKernel allAllocs returnPacket
      { noAttrs with
        samplesMin := some 10, samplesMax := some 20, scaleM := some 1, scaleD := some 0 }
      (some plainIface)
    ∧ ¬ AllOrNothing smallKernel allAllocs returnPacket
      { noAttrs with filter := some (0x1000, 1) } (some plainIface) := by
  constructor
  · rintro ⟨hfails, -⟩
    have hmin := congrArg (fun dev => dev.map Iface.scaleMin) (hfails (by decide))
    exact absurd hmin (by decide)
  · rintro ⟨-, hsucceeds⟩
    obtain ⟨dev', -, heffect⟩ := hsucceeds (by decide)
    obtain ⟨r, hset, -⟩ := heffect.filter 0x1000 1 rfl (by decide)
    exact nomatch hset

end Wprobe
