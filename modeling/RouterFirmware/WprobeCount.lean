import Mathlib.Tactic.NormNum.Basic
import RouterFirmware.WprobeStats

/-!
# How many samples wprobe counts

`scale_max` is meant to bound the counts of the items whose statistics are kept:
a count that passes it is scaled down at once. Whether that brings it back below
depends on the scale, which a request sets: it must be less than one, and the
product of a count with `scale_m` must not overflow (`Iface.SafeScale`).

With a safe scale the counts stay in bounds in every run, and scaling is exact.
With any other scale that a request may set there is a series of measurements
after which they are not (`sampleCount_bounded`).
-/

namespace Wprobe

open Iface Nat Option Function

variable {nG nL n : ℕ} {dev : Iface Value nG nL} {host : ByteOrder} {vals : Vector Value n}
variable {items : Vector Item n}

/-! ## The property -/

/-- The counts that are kept are at most `scaleMax`. -/
def BoundedBy (scaleMax : UInt32) (items : Vector Item n) (vals : Vector Value n) : Prop :=
  ∀ i : Fin n, (items.get i).Keepstat → (vals.get i).n ≤ scaleMax

/-- **The counts of the interface and of its links are in bounds.** -/
def Iface.Bounded (dev : Iface Value nG nL) (items : Items nG nL) : Prop :=
  BoundedBy dev.scaleMax items.globalItems dev.val
    ∧ ∀ vals ∈ dev.links, BoundedBy dev.scaleMax items.linkItems vals

/-- **Where `wprobe_update_stats` scales, it scales exactly.** -/
def ScalesExactly (dev : Iface Value nG nL) (host : ByteOrder)
    (scaleTs : UInt64) (items : Vector Item n) (vals : Vector Value n) : Prop :=
  ScaleDue dev items vals → ∀ i : Fin n, (items.get i).Keepstat →
    dev.scaleMin < ((countStats host items vals).get i).n →
      (((wprobeScaleStats dev scaleTs items (countStats host items vals)).get i).n.toNat
          = ((countStats host items vals).get i).n.toNat * dev.scaleM.toNat / dev.scaleD.toNat)
        ∧ ((wprobeScaleStats dev scaleTs items (countStats host items vals)).get i).n
          ≤ ((countStats host items vals).get i).n

/-- **The property of a measurement** that comes to `wprobe_update_stats`. -/
def CountOk (host : ByteOrder) (items : Items nG nL)
    (dev : Iface Value nG nL) : Measurement nG nL → Prop
  | .device now driver => driver.ok →
    ScalesExactly dev host now.jiffies items.globalItems (driver.fill now dev.val)
      ∧ (dev.measure host items (.device now driver)).Bounded items
  | .link k now driver => driver.ok → ∀ vals, dev.links[k]? = some vals →
    ScalesExactly dev host now.jiffies items.linkItems (driver.fill now vals)
      ∧ (dev.measure host items (.link k now driver)).Bounded items

/-- **A scale that keeps the counts in bounds.** -/
def Iface.SafeScale (dev : Iface Value nG nL) : Prop :=
  dev.scaleMax.toNat = 2 ^ 32 - 1
    ∨ dev.scaleM < dev.scaleD ∧ (dev.scaleMax.toNat + 1) * dev.scaleM.toNat < 2 ^ 32

/-! ## One update -/

section Update

@[simp] theorem n_fill (msecs : UInt64) (val : Value) (bytes : Option (Vector UInt8 8)) :
    (val.fill msecs bytes).n = val.n := by
  cases bytes <;> rfl

theorem n_countValue (host : ByteOrder) (item : Item) (val : Value) :
    (countValue host item val).n = if val.pending then val.n + 1 else val.n := by
  unfold countValue
  cases val.pending with
  | false => rfl
  | true =>
    simp only [not_true_eq_false, if_false, if_true]
    split <;> rfl

theorem n_countStats (host : ByteOrder) (items : Vector Item n) (vals : Vector Value n)
    (i : Fin n) : ((countStats host items vals).get i).n
    = if (vals.get i).pending then (vals.get i).n + 1 else (vals.get i).n := by
  rw [get_countStats, n_countValue]

theorem n_scaleValue (dev : Iface Value nG nL) (scaleTs : UInt64) (item : Item)
    (val : Value) : (scaleValue dev scaleTs item val).n
    = if item.Keepstat ∧ dev.scaleMin < val.n then val.n * dev.scaleM / dev.scaleD
      else val.n := by
  unfold scaleValue
  by_cases hkeep : item.Keepstat
  · by_cases hmin : dev.scaleMin < val.n
    · rw [if_neg (not_not.mpr hkeep), if_neg (UInt32.not_le.mpr hmin), if_pos ⟨hkeep, hmin⟩]
    · rw [if_neg (not_not.mpr hkeep), if_pos (UInt32.not_lt.mp hmin), if_neg fun h => hmin h.2]
  · rw [if_pos hkeep, if_neg fun h => hkeep h.1]

theorem scaled_count {count scaleMax scaleM scaleD : UInt32} (hm : scaleM < scaleD)
    (hproduct : (scaleMax.toNat + 1) * scaleM.toNat < 2 ^ 32)
    (hcount : count.toNat ≤ scaleMax.toNat + 1) :
    (count * scaleM / scaleD).toNat = count.toNat * scaleM.toNat / scaleD.toNat
      ∧ count * scaleM / scaleD ≤ count ∧ count * scaleM / scaleD ≤ scaleMax := by
  have hlt : count.toNat * scaleM.toNat < 2 ^ 32 :=
    lt_of_le_of_lt (mul_le_mul_right _ hcount) hproduct
  have hm' : scaleM.toNat < scaleD.toNat := hm
  have heq : (count * scaleM / scaleD).toNat
      = count.toNat * scaleM.toNat / scaleD.toNat := by
    rw [UInt32.toNat_div, UInt32.toNat_mul, Nat.mod_eq_of_lt hlt]
  have hpos : 0 < scaleD.toNat := zero_lt_of_lt hm'
  have hle : count.toNat * scaleM.toNat / scaleD.toNat ≤ count.toNat :=
    Nat.div_le_of_le_mul (by
      rw [mul_comm]
      exact mul_le_mul_right _ (le_of_lt hm'))
  refine ⟨heq, UInt32.le_iff_toNat_le.mpr (heq ▸ hle), UInt32.le_iff_toNat_le.mpr ?_⟩
  rw [heq]
  have hbound : count.toNat * scaleM.toNat / scaleD.toNat < scaleMax.toNat + 1 := by
    rw [div_lt_iff_lt_mul hpos]
    calc count.toNat * scaleM.toNat ≤ (scaleMax.toNat + 1) * scaleM.toNat :=
          mul_le_mul_right _ hcount
      _ < (scaleMax.toNat + 1) * scaleD.toNat :=
          Nat.mul_lt_mul_of_pos_left hm' (Nat.succ_pos _)
  exact le_of_lt_succ hbound

theorem n_countStats_le (host : ByteOrder) (hbounded : BoundedBy dev.scaleMax items vals)
    (hmax : dev.scaleMax.toNat ≠ 2 ^ 32 - 1) {i : Fin n} (hkeep : (items.get i).Keepstat) :
    ((countStats host items vals).get i).n.toNat ≤ dev.scaleMax.toNat + 1 := by
  have hle : (vals.get i).n.toNat ≤ dev.scaleMax.toNat := hbounded i hkeep
  have hlt := dev.scaleMax.toNat_lt
  rw [n_countStats]
  split
  · rw [UInt32.toNat_add, show (1 : UInt32).toNat = 1 from rfl, Nat.mod_eq_of_lt (by omega)]
    omega
  · omega

theorem scaleMax_ne_of_scaleDue (h : ScaleDue dev items vals) :
    dev.scaleMax.toNat ≠ 2 ^ 32 - 1 := by
  obtain ⟨i, -, -, -, hlt⟩ := h
  have hlt' : dev.scaleMax.toNat < ((vals.get i).n + 1).toNat := hlt
  have := ((vals.get i).n + 1).toNat_lt
  omega

theorem scalesExactly_of_safe (hsafe : dev.SafeScale)
    (hbounded : BoundedBy dev.scaleMax items vals) (scaleTs : UInt64) :
    ScalesExactly dev host scaleTs items vals := by
  intro hdue i hkeep hmin
  have hne := scaleMax_ne_of_scaleDue hdue
  obtain ⟨hm, hproduct⟩ := hsafe.resolve_left hne
  obtain ⟨heq, hle, -⟩ := scaled_count hm hproduct (n_countStats_le host hbounded hne hkeep)
  rw [get_wprobeScaleStats, n_scaleValue, if_pos ⟨hkeep, hmin⟩]
  exact ⟨heq, hle⟩

theorem boundedBy_wprobeUpdateStats (hsafe : dev.SafeScale) (hmin : dev.scaleMin < dev.scaleMax)
    (hbounded : BoundedBy dev.scaleMax items vals) (scaleTs : UInt64) :
    BoundedBy dev.scaleMax items (wprobeUpdateStats dev host scaleTs items vals) := by
  intro i hkeep
  unfold wprobeUpdateStats
  split
  · rename_i hdue
    have hne := scaleMax_ne_of_scaleDue hdue
    obtain ⟨hm, hproduct⟩ := hsafe.resolve_left hne
    have hcount := n_countStats_le host hbounded hne hkeep
    rw [get_wprobeScaleStats, n_scaleValue]
    split
    · exact (scaled_count hm hproduct hcount).2.2
    · rename_i hnot
      exact UInt32.le_trans (UInt32.not_lt.mp fun h => hnot ⟨hkeep, h⟩) (UInt32.le_of_lt hmin)
  · rename_i hdue
    rw [n_countStats]
    split
    · rename_i hpending
      exact UInt32.not_lt.mp fun h =>
        hdue ⟨i, hpending, hkeep, UInt32.lt_of_le_of_lt (UInt32.zero_le) hmin, h⟩
    · exact hbounded i hkeep

theorem boundedBy_fill (driver : Driver n) (now : Now) {scaleMax : UInt32}
    (hbounded : BoundedBy scaleMax items vals) :
    BoundedBy scaleMax items (driver.fill now vals) := by
  intro i hkeep
  rw [Driver.get_fill, n_fill]
  exact hbounded i hkeep

theorem boundedBy_syncValues (hsafe : dev.SafeScale) (hmin : dev.scaleMin < dev.scaleMax)
    (hbounded : BoundedBy dev.scaleMax items vals) (now : Now) (driver : Driver n) :
    BoundedBy dev.scaleMax items (syncValues dev host now items driver vals) := by
  unfold syncValues
  split
  · exact boundedBy_wprobeUpdateStats hsafe hmin (boundedBy_fill driver now hbounded) _
  · exact boundedBy_fill driver now hbounded

end Update

/-! ## Runs -/

section Runs

variable {items : Items nG nL} {dev' : Iface Value nG nL}

/-- **What `wprobe_set_config` sees to.** -/
structure Iface.ScaleSet (dev : Iface Value nG nL) : Prop where
  samples : dev.scaleMin = 0 ∧ dev.scaleMax = 0 ∨ 0 < dev.scaleMin ∧ dev.scaleMin < dev.scaleMax
  divisor : 0 < dev.scaleD
  atMostOne : dev.scaleM ≤ dev.scaleD

theorem Iface.ScaleSet.min_lt (h : dev.ScaleSet) (hmax : 0 < dev.scaleMax) :
    dev.scaleMin < dev.scaleMax := by
  rcases h.samples with ⟨-, hzero⟩ | ⟨-, hlt⟩
  · exact absurd (hzero ▸ hmax) (by decide)
  · exact hlt

theorem scaleSet_added : (added : Iface Value nG nL).ScaleSet where
  samples := .inr ⟨show (0 : UInt32) < 20 by decide,
    show (20 : UInt32) < (1 : UInt32) <<< 31 by decide⟩
  divisor := show (0 : UInt32) < 10 by decide
  atMostOne := show (1 : UInt32) ≤ 10 by decide

theorem scaleSet_configSamples {attrs : ConfigAttrs} (h : dev.ScaleSet)
    (heq : configSamples attrs dev = some dev') : dev'.ScaleSet := by
  unfold configSamples at heq
  split at heq
  · simp only at heq
    split at heq
    · rename_i hsamples
      obtain rfl := some.inj heq
      refine ⟨?_, h.divisor, h.atMostOne⟩
      rcases hsamples with hzero | ⟨hmin, -, hlt⟩
      · exact .inl hzero
      · exact .inr ⟨UInt32.pos_iff_ne_zero.mpr hmin, hlt⟩
    · cases heq
  · exact some.inj heq ▸ h

theorem scaleSet_configScale {attrs : ConfigAttrs} (h : dev.ScaleSet)
    (heq : configScale attrs dev = some dev') : dev'.ScaleSet := by
  unfold configScale at heq
  split at heq
  · split at heq
    · cases heq
    · rename_i hscale
      obtain ⟨hd, hm⟩ := not_or.mp hscale
      obtain rfl := some.inj heq
      exact ⟨h.samples, UInt32.pos_iff_ne_zero.mpr hd, UInt32.not_lt.mp hm⟩
  · exact some.inj heq ▸ h

theorem scaleSet_wprobeSetConfig {attrs : ConfigAttrs} {K : Kernel} {allocs : Allocs}
    {mem : Bytes} (h : dev.ScaleSet)
    (heq : (wprobeSetConfig K allocs mem attrs (some dev)).2 = some dev') : dev'.ScaleSet := by
  refine wprobeSetConfig_keeps ?_ ?_ ?_ ?_ ?_ h heq
  · exact fun d hd => ⟨hd.samples, hd.divisor, hd.atMostOne⟩
  · exact fun d d' hd hsamples => scaleSet_configSamples hd hsamples
  · exact fun d d' hd hscale => scaleSet_configScale hd hscale
  · exact fun d f hd => ⟨hd.samples, hd.divisor, hd.atMostOne⟩
  · exact fun d i t hd => ⟨hd.samples, hd.divisor, hd.atMostOne⟩

/-- **Every event keeps the scale set.** -/
theorem Iface.ScaleSet.step {event : IfaceEvent nG nL} (h : dev.ScaleSet)
    (hstep : dev.step host items event = some dev') : dev'.ScaleSet := by
  cases event with
  | config K allocs mem attrs => exact scaleSet_wprobeSetConfig h hstep
  | measure m =>
    obtain rfl := some.inj hstep
    cases m <;> exact ⟨h.samples, h.divisor, h.atMostOne⟩
  | _ =>
    obtain rfl := some.inj hstep
    exact ⟨h.samples, h.divisor, h.atMostOne⟩

/-- A request leaves a safe scale and counts in bounds. -/
def KeepsBound (items : Items nG nL) (dev : Iface Value nG nL) : IfaceEvent nG nL → Prop
  | .config K allocs mem attrs => ∀ dev',
    (wprobeSetConfig K allocs mem attrs (some dev)).2 = some dev' → 0 < dev'.scaleMax →
      dev'.SafeScale ∧ dev'.Bounded items
  | _ => True

/-- **The invariant**: the scale is set and safe, and the counts are in
bounds. -/
structure Iface.InBounds (dev : Iface Value nG nL)
    (items : Items nG nL) : Prop where
  set : dev.ScaleSet
  safe : 0 < dev.scaleMax → dev.SafeScale
  bounded : 0 < dev.scaleMax → dev.Bounded items

theorem boundedBy_replicate {items : Vector Item n} {scaleMax : UInt32} :
    BoundedBy scaleMax items (.replicate n 0) := by
  intro i _
  rw [show (Vector.replicate n (0 : Value)).get i = 0 from Vector.getElem_replicate _]
  exact UInt32.zero_le

/-- The counts of an interface that has no samples are in bounds. -/
theorem bounded_of_no_samples (hval : dev.val = .replicate nG 0)
    (hlinks : dev.links = []) : dev.Bounded items :=
  ⟨hval ▸ boundedBy_replicate, fun _ hvals => absurd (hlinks ▸ hvals) List.not_mem_nil⟩

theorem inBounds_added : (Iface.added : Iface Value nG nL).InBounds items where
  set := scaleSet_added
  safe _ := .inr ⟨show (1 : UInt32) < 10 by decide,
    show (((1 : UInt32) <<< 31).toNat + 1) * (1 : UInt32).toNat < 2 ^ 32 by decide⟩
  bounded _ := bounded_of_no_samples rfl rfl

variable (h : dev.InBounds items)

include h

theorem Iface.InBounds.measure (hmax : 0 < dev.scaleMax)
    (m : Measurement nG nL) : (dev.measure host items m).Bounded items := by
  have hmin := h.set.min_lt hmax
  obtain ⟨hdevice, hlinks⟩ := h.bounded hmax
  cases m with
  | device now driver =>
    exact ⟨boundedBy_syncValues (h.safe hmax) hmin hdevice now driver, hlinks⟩
  | link k now driver =>
    refine ⟨hdevice, fun vals hvals => ?_⟩
    obtain ⟨vals₀, hvals₀, ⟨-, rfl⟩ | rfl⟩ := mem_links_measure hvals
    · exact boundedBy_syncValues (h.safe hmax) hmin (hlinks _ hvals₀) now driver
    · exact hlinks _ hvals₀

theorem Iface.InBounds.countOk (hmax : 0 < dev.scaleMax)
    (m : Measurement nG nL) : CountOk host items dev m := by
  obtain ⟨hdevice, hlinks⟩ := h.bounded hmax
  cases m with
  | device now driver =>
    intro _
    exact ⟨scalesExactly_of_safe (h.safe hmax) (boundedBy_fill driver now hdevice) _,
      h.measure hmax _⟩
  | link k now driver =>
    intro _ vals hvals
    exact ⟨scalesExactly_of_safe (h.safe hmax)
      (boundedBy_fill driver now (hlinks vals (List.mem_of_getElem? hvals))) _, h.measure hmax _⟩

theorem Iface.InBounds.step {event : IfaceEvent nG nL}
    (hok : KeepsBound items dev event) (hstep : dev.step host items event = some dev') :
    dev'.InBounds items := by
  have hset := h.set.step hstep
  cases event with
  | addLink =>
    obtain rfl := some.inj hstep
    refine ⟨hset, h.safe, fun hmax => ⟨(h.bounded hmax).1, fun vals hvals => ?_⟩⟩
    rcases List.mem_append.mp hvals with hold | hnew
    · exact (h.bounded hmax).2 vals hold
    · obtain rfl := List.mem_singleton.mp hnew
      exact boundedBy_replicate
  | removeLink k =>
    obtain rfl := some.inj hstep
    exact ⟨hset, h.safe, fun hmax => ⟨(h.bounded hmax).1, fun vals hvals =>
      (h.bounded hmax).2 vals (List.mem_of_mem_eraseIdx hvals)⟩⟩
  | measure m =>
    obtain rfl := some.inj hstep
    cases m <;> exact ⟨hset, h.safe, fun hmax => h.measure hmax _⟩
  | config K allocs mem attrs =>
    exact ⟨hset, fun hmax => (hok dev' hstep hmax).1, fun hmax => (hok dev' hstep hmax).2⟩

omit h

theorem inBounds_of_reaches
    (h : Transitions.Reaches (step host items) (KeepsBound items) added dev) :
    dev.InBounds items :=
  h.invariant (P := fun dev => dev.InBounds items) inBounds_added
    fun _ _ _ hs hok hstep => hs.step hok hstep

end Runs

/-! ## Scales that are not safe -/

section Unsafe

/-- **A scale that is not safe** and goes right once is never needed. -/
theorem not_scaleDue_of_not_safe (hset : dev.ScaleSet) (hblocked : ¬ dev.SafeScale)
    (hbounded : BoundedBy dev.scaleMax items vals) {scaleTs : UInt64}
    (hexact : ScalesExactly dev host scaleTs items vals)
    (hafter : BoundedBy dev.scaleMax items (wprobeUpdateStats dev host scaleTs items vals)) :
    ¬ ScaleDue dev items vals := by
  intro hdue
  have hne := scaleMax_ne_of_scaleDue hdue
  obtain ⟨i, hpending, hkeep, hmax, hlt⟩ := id hdue
  have hcount : ((countStats host items vals).get i).n = (vals.get i).n + 1 := by
    rw [n_countStats, if_pos hpending]
  have hmin := UInt32.lt_trans (hset.min_lt hmax) hlt
  obtain ⟨heq, -⟩ := hexact hdue i hkeep (hcount ▸ hmin)
  have hle := hafter i hkeep
  rw [wprobeUpdateStats, if_pos hdue] at hle
  have hle' := UInt32.le_iff_toNat_le.mp hle
  have hcount' := n_countStats_le host hbounded hne hkeep
  rw [get_wprobeScaleStats, n_scaleValue, if_pos ⟨hkeep, hcount ▸ hmin⟩, hcount] at heq hle'
  have hone : ((vals.get i).n + 1).toNat = dev.scaleMax.toNat + 1 := by
    have hlt' : dev.scaleMax.toNat < ((vals.get i).n + 1).toNat := hlt
    rw [hcount] at hcount'
    omega
  rw [hone] at heq
  rw [heq] at hle'
  have hd : 0 < dev.scaleD.toNat := hset.divisor
  have hm : dev.scaleM.toNat ≤ dev.scaleD.toNat := hset.atMostOne
  -- the scaled count is exact and in bounds, so the scale is less than one
  have hless : dev.scaleM.toNat < dev.scaleD.toNat := by
    refine Nat.lt_of_le_of_ne hm fun hsame => ?_
    rw [hsame, Nat.mul_div_cancel _ hd] at hle'
    omega
  -- and the product has not lost anything
  refine hblocked (.inr ⟨hless, ?_⟩)
  by_contra hproduct
  rw [UInt32.toNat_div, UInt32.toNat_mul, hone] at heq
  have hsplit := Nat.div_add_mod ((dev.scaleMax.toNat + 1) * dev.scaleM.toNat) (2 ^ 32)
  have hquot : 0 < (dev.scaleMax.toNat + 1) * dev.scaleM.toNat / 2 ^ 32 :=
    Nat.div_pos (Nat.not_lt.mp hproduct) (by decide)
  have hd' := dev.scaleD.toNat_lt
  have hfar : (dev.scaleMax.toNat + 1) * dev.scaleM.toNat % 2 ^ 32 + dev.scaleD.toNat
      ≤ (dev.scaleMax.toNat + 1) * dev.scaleM.toNat := by
    omega
  have hgap := Nat.div_le_div_right (c := dev.scaleD.toNat) hfar
  rw [Nat.add_div_right _ hd] at hgap
  omega

/-- A driver that fills in every value. -/
def Driver.all (n : ℕ) : Driver n := ⟨.replicate n (some (.replicate 8 0)), true⟩

theorem syncValues_all (dev : Iface Value nG nL) (host : ByteOrder) (now : Now)
    (items : Vector Item n) (vals : Vector Value n) :
    syncValues dev host now items (Driver.all n) vals
      = wprobeUpdateStats dev host now.jiffies items ((Driver.all n).fill now vals) := rfl

theorem n_syncValues_all {now : Now} {i : Fin n}
    (hdue : ¬ ScaleDue dev items ((Driver.all n).fill now vals)) :
    ((syncValues dev host now items (Driver.all n) vals).get i).n = (vals.get i).n + 1 := by
  have hfill : (Driver.all n).fills.get i = some (.replicate 8 0) := Vector.getElem_replicate _
  rw [syncValues_all, wprobeUpdateStats, if_neg hdue, n_countStats, Driver.get_fill, hfill]
  rfl

/-- A count that is never scaled passes every bound. -/
theorem false_of_always_bounded {now : Now} {i : Fin n} (hset : dev.ScaleSet)
    (hblocked : ¬ dev.SafeScale) {seq : ℕ → Vector Value n}
    (hseq : ∀ t, seq (t + 1) = syncValues dev host now items (Driver.all n) (seq t))
    (hbounded : ∀ t, BoundedBy dev.scaleMax items (seq t))
    (hexact : ∀ t, ScalesExactly dev host now.jiffies items ((Driver.all n).fill now (seq t)))
    (hkeep : (items.get i).Keepstat) : False := by
  have hdue : ∀ t, ¬ ScaleDue dev items ((Driver.all n).fill now (seq t)) := fun t =>
    not_scaleDue_of_not_safe hset hblocked (boundedBy_fill _ now (hbounded t)) (hexact t) (by
      have h := hbounded (t + 1)
      rwa [hseq, syncValues_all] at h)
  have hne : dev.scaleMax.toNat ≠ 2 ^ 32 - 1 := fun h => hblocked (.inl h)
  have hlt := dev.scaleMax.toNat_lt
  have hgrows : ∀ t, t ≤ ((seq t).get i).n.toNat := by
    intro t
    induction t with
    | zero => exact Nat.zero_le _
    | succ t ih =>
      have hle : ((seq t).get i).n.toNat ≤ dev.scaleMax.toNat := hbounded t i hkeep
      rw [hseq, n_syncValues_all (hdue t), UInt32.toNat_add, show (1 : UInt32).toNat = 1 from rfl,
        Nat.mod_eq_of_lt (by omega)]
      omega
  have hover := hgrows (dev.scaleMax.toNat + 1)
  have hle : ((seq (dev.scaleMax.toNat + 1)).get i).n.toNat ≤ dev.scaleMax.toNat :=
    hbounded _ i hkeep
  omega

/-- Measurements are taken one after the other. -/
def Iface.measures (host : ByteOrder) (items : Items nG nL)
    (dev : Iface Value nG nL) (ms : List (Measurement nG nL)) : Iface Value nG nL :=
  ms.foldl (measure host items) dev

theorem Iface.measures_replicate_succ {items : Items nG nL} (m : Measurement nG nL) (t : ℕ) :
    dev.measures host items (List.replicate (t + 1) m)
      = (dev.measures host items (List.replicate t m)).measure host items m := by
  rw [measures, List.replicate_succ', List.foldl_append]
  rfl

theorem Iface.measures_device {items : Items nG nL} (now : Now) (driver : Driver nG) (t : ℕ) :
    dev.measures host items (List.replicate t (.device now driver))
      = { dev with val := (syncValues dev host now items.globalItems driver)^[t] dev.val } := by
  induction t with
  | zero => rfl
  | succ t ih =>
    rw [measures_replicate_succ, ih, iterate_succ_apply']
    rfl

theorem Iface.measures_link {items : Items nG nL} (k : ℕ) (now : Now) (driver : Driver nL) (t : ℕ) :
    dev.measures host items (List.replicate t (.link k now driver))
      = { dev with
          links := dev.links.modify k (syncValues dev host now items.linkItems driver)^[t] } := by
  induction t with
  | zero => simp [measures]
  | succ t ih =>
    rw [measures_replicate_succ, ih, iterate_succ', ← List.modify_modify_eq]
    rfl

/-- Statistics are kept of some item. -/
def Iface.Keeps (dev : Iface Value nG nL) (items : Items nG nL) : Prop :=
  (∃ i : Fin nG, (items.globalItems.get i).Keepstat)
    ∨ dev.links ≠ [] ∧ ∃ i : Fin nL, (items.linkItems.get i).Keepstat

theorem exists_not_countOk {items : Items nG nL} (hset : dev.ScaleSet)
    (hbounded : dev.Bounded items) (hkeeps : dev.Keeps items) (hblocked : ¬ dev.SafeScale) :
    ∃ ms m, ¬ CountOk host items (dev.measures host items ms) m := by
  by_contra hall
  simp only [not_exists, not_not] at hall
  rcases hkeeps with ⟨i, hkeep⟩ | ⟨hlinks, i, hkeep⟩
  · have hok := fun t =>
      hall (List.replicate t (.device ⟨0, 0⟩ (.all _))) (.device ⟨0, 0⟩ (.all _)) rfl
    simp only [Iface.measures_device] at hok
    refine false_of_always_bounded hset hblocked (fun t => Function.iterate_succ_apply' _ t dev.val)
      (fun t => ?_) (fun t => (hok t).1) hkeep
    cases t with
    | zero => exact hbounded.1
    | succ t =>
      rw [Function.iterate_succ_apply']
      exact (hok t).2.1
  · obtain ⟨vals, rest, hlinks⟩ := List.exists_cons_of_ne_nil hlinks
    have hlink : ∀ f : Vector Value nL → Vector Value nL,
        (dev.links.modify 0 f)[0]? = some (f vals) := fun f => by
      rw [hlinks]
      rfl
    have hok := fun t =>
      hall (List.replicate t (.link 0 ⟨0, 0⟩ (.all _))) (.link 0 ⟨0, 0⟩ (.all _)) rfl
    simp only [Iface.measures_link] at hok
    refine false_of_always_bounded hset hblocked (fun t => Function.iterate_succ_apply' _ t vals)
      (fun t => ?_) (fun t => (hok t _ (hlink _)).1) hkeep
    cases t with
    | zero => exact hbounded.2 vals (hlinks ▸ List.mem_cons_self)
    | succ t =>
      have hnext := hlink (syncValues dev host ⟨0, 0⟩ items.linkItems (.all _)
        ∘ (syncValues dev host ⟨0, 0⟩ items.linkItems (.all _))^[t])
      rw [← List.modify_modify_eq] at hnext
      rw [Function.iterate_succ_apply']
      exact (hok t _ (hlink _)).2.2 _ (List.mem_of_getElem? hnext)

end Unsafe

/-! ## The bound -/

/-- **How many samples are counted.** In every run whose requests leave a safe
scale and counts in bounds, the counts stay in bounds and scaling is exact. A
scale that is not safe goes wrong, in every run, for some measurements. -/
theorem sampleCount_bounded (host : ByteOrder) (items : Items nG nL) :
    (∀ dev, Transitions.Reaches (step host items) (KeepsBound items) added dev →
      0 < dev.scaleMax → dev.Bounded items ∧ ∀ m, CountOk host items dev m)
    ∧ ∀ dev, Transitions.Reaches (step host items) (fun _ _ => True) added dev →
      dev.Bounded items → dev.Keeps items → ¬ dev.SafeScale →
        ∃ ms m, ¬ CountOk host items (dev.measures host items ms) m := by
  constructor
  · intro dev hreaches hmax
    have h := inBounds_of_reaches hreaches
    exact ⟨h.bounded hmax, h.countOk hmax⟩
  · intro dev hreaches hbounded hkeeps hblocked
    have hset : dev.ScaleSet := hreaches.invariant (P := fun dev => dev.ScaleSet) scaleSet_added
      fun _ _ _ hs _ hstep => hs.step hstep
    exact exists_not_countOk hset hbounded hkeeps hblocked

/-- An interface with one item, a byte whose statistics are kept. -/
def keptByte : Items 1 0 := ⟨#v[⟨[98], .u8, wprobeFKeepstat⟩], .ofFn nofun⟩

/-- A request for a range of samples and a scale. -/
def scaleAttrs (scaleMin scaleMax scaleM scaleD : UInt32) : ConfigAttrs :=
  { noAttrs with
    samplesMin := some scaleMin
    samplesMax := some scaleMax
    scaleM := some scaleM
    scaleD := some scaleD }

/-- The request as an event. -/
def scaleRequest (scaleMin scaleMax scaleM scaleD : UInt32) : IfaceEvent 1 0 :=
  .config smallKernel allAllocs (fun _ => 0) (scaleAttrs scaleMin scaleMax scaleM scaleD)

/-- A measurement of the byte. -/
def byteSample (v : UInt8) : Measurement 1 0 :=
  .device ⟨0, 0⟩ ⟨#v[some #v[v, 0, 0, 0, 0, 0, 0, 0]], true⟩

/-- The scale is one half, of at most three samples. -/
def halved : Iface Value 1 0 :=
  { added with scaleMin := 1, scaleMax := 3, scaleM := 1, scaleD := 2 }

/-- Four samples, after which the statistics have been scaled. -/
def halvedTwos : Iface Value 1 0 :=
  (((halved.measure .little keptByte (byteSample 2)).measure .little keptByte
    (byteSample 2)).measure .little keptByte (byteSample 2)).measure .little keptByte (byteSample 2)

/-- The scale is one, of at most two samples. -/
def unscaled : Iface Value 1 0 :=
  { added with scaleMin := 1, scaleMax := 2, scaleM := 1, scaleD := 1 }

/-- **Four samples with a scale of one half** are scaled to two, and stay in
bounds; with a scale of one some samples do not. -/
theorem sampleCount_bounded_halvedTwos :
    Transitions.Reaches (step .little keptByte) (KeepsBound keptByte) added halvedTwos
      ∧ (halvedTwos.val.get 0).n = 2 ∧ halvedTwos.Bounded keptByte
      ∧ CountOk .little keptByte halvedTwos (byteSample 2)
      ∧ ∃ ms m, ¬ CountOk .little keptByte (unscaled.measures .little keptByte ms) m := by
  have hrequest : KeepsBound keptByte added (scaleRequest 1 3 1 2) := by
    intro dev hdev _
    obtain rfl : halved = dev := some.inj hdev
    exact ⟨.inr ⟨by decide, by decide⟩, bounded_of_no_samples rfl rfl⟩
  have hreaches : Transitions.Reaches (step .little keptByte) (KeepsBound keptByte) added
      halvedTwos :=
    .next (a := .measure (byteSample 2)) (.next (a := .measure (byteSample 2))
      (.next (a := .measure (byteSample 2)) (.next (a := .measure (byteSample 2))
      (.next (a := scaleRequest 1 3 1 2) .start hrequest rfl) trivial rfl) trivial rfl)
      trivial rfl) trivial rfl
  have hunscaled : Transitions.Reaches (step .little keptByte) (fun _ _ => True) added unscaled :=
    .next (a := scaleRequest 1 2 1 1) .start trivial rfl
  obtain ⟨hsafe, hunsafe⟩ := sampleCount_bounded .little keptByte
  obtain ⟨hbounded, hok⟩ := hsafe halvedTwos hreaches (by decide)
  exact ⟨hreaches, by decide, hbounded, hok _,
    hunsafe unscaled hunscaled (bounded_of_no_samples rfl rfl) (.inl ⟨0, by decide⟩)
      (by unfold Iface.SafeScale; decide)⟩

/-- **A scale of one is accepted**, and leaves three samples where there
should be two. -/
theorem sampleCount_not_bounded : ∃ dev : Iface Value 1 0,
    Transitions.Reaches (Iface.step .little keptByte) (fun _ _ => True) Iface.added dev
      ∧ 0 < dev.scaleMax ∧ ¬ CountOk .little keptByte dev (byteSample 7) := by
  refine ⟨_, .next (a := .measure (byteSample 7)) (.next (a := .measure (byteSample 7))
    (.next (a := scaleRequest 1 2 1 1) .start trivial rfl) trivial rfl) trivial rfl,
    by decide, fun h => ?_⟩
  have hle := (h rfl).2.1 0 (by decide)
  revert hle
  decide

end Wprobe
