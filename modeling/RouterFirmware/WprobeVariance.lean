import RouterFirmware.SampleSums
import RouterFirmware.WprobeCount

/-!
# The variance of wprobe's samples

The user library computes a variance from the count `n`, the sum `s` and the sum
of squares `ss` that the kernel keeps, so the three should be ones that some
samples can have; in particular `s * s ≤ n * ss`. Adding a sample keeps this.
Scaling keeps it only if rounding does no harm, as each of the three is divided
and rounded for itself (`ScalesEvenly`; the arithmetic is in `SampleSums`).
-/

namespace Wprobe

open Iface

variable {nG nL n : ℕ} {dev : Iface Value nG nL}

/-! ## The condition -/

/-- The number fits in an `s64`. -/
def InS64 (x : ℤ) : Prop := -2 ^ 63 ≤ x ∧ x < 2 ^ 63

instance (x : ℤ) : Decidable (InS64 x) := inferInstanceAs (Decidable (_ ∧ _))

/-- **A sample that does not overflow anything.** -/
@[mk_iff]
structure SumsFit (host : ByteOrder) (item : Item) (val : Value) : Prop where
  count : val.n.toNat + 1 < 2 ^ 32
  square : ∀ v ∈ val.sample host item.type, InS64 (v * v)
  sum : ∀ v ∈ val.sample host item.type, InS64 (val.s + v)
  squares : ∀ v ∈ val.sample host item.type, InS64 (val.ss + v * v)

instance (host : ByteOrder) (item : Item) (val : Value) : Decidable (SumsFit host item val) :=
  decidable_of_iff' _ (sumsFit_iff host item val)

/-- **Sums for which rounding does no harm.** -/
@[mk_iff]
structure ScalesEvenly (dev : Iface Value nG nL) (val : Value) : Prop where
  divisor : dev.scaleD.toNat < 2 ^ 31
  count : val.n.toNat * dev.scaleM.toNat < 2 ^ 32
  sum : InS64 (val.s * dev.scaleM.toNat)
  squares : InS64 (val.ss * dev.scaleM.toNat)
  even : (dev.scaleD.toNat : ℤ) ∣ val.n.toNat * dev.scaleM.toNat
      ∧ (dev.scaleD.toNat : ℤ) ∣ val.ss * dev.scaleM.toNat
    ∨ (val.n.toNat * dev.scaleM.toNat : ℤ) = dev.scaleD.toNat
    ∨ |val.s * dev.scaleM.toNat| < dev.scaleD.toNat

instance (dev : Iface Value nG nL) (val : Value) : Decidable (ScalesEvenly dev val) :=
  decidable_of_iff' _ (scalesEvenly_iff dev val)

/-- **What an exact update needs** of the values as the driver leaves them. -/
@[mk_iff]
structure StatsExact (dev : Iface Value nG nL) (host : ByteOrder)
    (items : Vector Item n) (vals : Vector Value n) : Prop where
  fit : ∀ i : Fin n, (items.get i).Keepstat → (vals.get i).pending →
    SumsFit host (items.get i) (vals.get i)
  scale : ScaleDue dev items vals → ∀ i : Fin n, (items.get i).Keepstat →
    dev.scaleMin < ((countStats host items vals).get i).n →
      dev.scaleM = 0 ∨ ScalesEvenly dev ((countStats host items vals).get i)

instance (dev : Iface Value nG nL) (host : ByteOrder) (items : Vector Item n)
    (vals : Vector Value n) : Decidable (StatsExact dev host items vals) :=
  decidable_of_iff' _ (statsExact_iff dev host items vals)

/-- A measurement is exact. -/
def KeepsExact (host : ByteOrder) (items : Items nG nL)
    (dev : Iface Value nG nL) : IfaceEvent nG nL → Prop
  | .measure (.device now driver) =>
    driver.ok → StatsExact dev host items.globalItems (driver.fill now dev.val)
  | .measure (.link k now driver) => driver.ok → ∀ vals, dev.links[k]? = some vals →
    StatsExact dev host items.linkItems (driver.fill now vals)
  | _ => True

/-! ## One value -/

/-- The sums of a value can be those of some samples. -/
def Value.Consistent (val : Value) : Prop := SampleSums.Consistent val.n.toNat val.s val.ss

theorem consistent_zero : (0 : Value).Consistent := SampleSums.consistent_zero

theorem toS64_of_inS64 {x : ℤ} (h : InS64 x) : toS64 x = x :=
  Int.bmod_eq_of_le (by have := h.1; omega) (by have := h.2; omega)

theorem sample_count (host : ByteOrder) (val : Value) (count : UInt32) (type : ItemType) :
    ({ val with n := count } : Value).sample host type = val.sample host type := by
  cases type <;> rfl

variable {host : ByteOrder}

theorem consistent_countValue {item : Item} {val : Value} (h : val.Consistent)
    (hfit : val.pending → SumsFit host item val) : (countValue host item val).Consistent := by
  unfold countValue
  split
  · exact h
  · rename_i hpending
    obtain ⟨hcount, hsquare, hsum, hsquares⟩ := hfit (not_not.mp hpending)
    have hn : ((val.n + 1).toNat : ℤ) = val.n.toNat + 1 := by
      rw [UInt32.toNat_add, show (1 : UInt32).toNat = 1 from rfl, Nat.mod_eq_of_lt hcount]
      rfl
    simp only [sample_count]
    cases hsample : val.sample host item.type with
    | none =>
      show SampleSums.Consistent (val.n + 1).toNat val.s val.ss
      rw [hn]
      exact h.count
    | some v =>
      show SampleSums.Consistent (val.n + 1).toNat (toS64 (val.s + v))
        (toS64 (val.ss + toS64 (v * v)))
      rw [hn, toS64_of_inS64 (hsquare v hsample), toS64_of_inS64 (hsum v hsample),
        toS64_of_inS64 (hsquares v hsample)]
      exact h.add v

theorem divS64_eq {a : ℤ} {d : UInt32} (ha : InS64 a) (hd : d.toNat < 2 ^ 31) :
    divS64 a d = a.tdiv d.toNat := by
  rw [divS64, toInt_of_lt hd]
  apply toS64_of_inS64
  have hle : (a.tdiv d.toNat).natAbs ≤ a.natAbs := Int.natAbs_tdiv_le_natAbs a d.toNat
  have hneg : a ≤ 0 → a.tdiv d.toNat ≤ 0 := fun h => by
    rw [← Int.neg_nonneg, ← Int.neg_tdiv]
    exact Int.tdiv_nonneg (Int.neg_nonneg.mpr h) (Int.natCast_nonneg _)
  obtain ⟨hlow, hhigh⟩ := ha
  constructor <;> omega

/-- Scaling keeps sums that it divides evenly. -/
theorem consistent_scaled {val : Value} (h : val.Consistent) (hd : 0 < dev.scaleD)
    (heven : ScalesEvenly dev val) (scaleTs : UInt64) : Value.Consistent { val with
    s := divS64 (toS64 (val.s * dev.scaleM.toNat)) dev.scaleD
    ss := divS64 (toS64 (val.ss * dev.scaleM.toNat)) dev.scaleD
    n := val.n * dev.scaleM / dev.scaleD
    scaleTimestamp := scaleTs } := by
  have hpos : (0 : ℤ) < dev.scaleD.toNat := Int.natCast_pos.mpr hd
  have hm : (0 : ℤ) ≤ dev.scaleM.toNat := Int.natCast_nonneg _
  have hn : ((val.n * dev.scaleM / dev.scaleD).toNat : ℤ)
      = val.n.toNat * dev.scaleM.toNat / dev.scaleD.toNat := by
    rw [UInt32.toNat_div, UInt32.toNat_mul, Nat.mod_eq_of_lt heven.count]
    rfl
  unfold Value.Consistent
  rw [hn, toS64_of_inS64 heven.sum, toS64_of_inS64 heven.squares, divS64_eq heven.sum heven.divisor,
    divS64_eq heven.squares heven.divisor, Int.tdiv_eq_ediv_of_nonneg (Int.mul_nonneg h.squares hm)]
  rcases heven.even with ⟨hnumber, hsquares⟩ | hone | hsmall
  · exact h.scale hm hpos hnumber hsquares
  · exact h.scale_to_one hm hpos hone
  · exact h.scale_of_small hm hpos hsmall

theorem consistent_scaleValue {item : Item} {val : Value} (h : val.Consistent) (hd : 0 < dev.scaleD)
    (hscale : item.Keepstat → dev.scaleMin < val.n → dev.scaleM = 0 ∨ ScalesEvenly dev val)
    (scaleTs : UInt64) : (scaleValue dev scaleTs item val).Consistent := by
  unfold scaleValue
  split
  · exact h
  · rename_i hkeep
    split
    · exact h
    · rename_i hmin
      rcases hscale (not_not.mp hkeep) (UInt32.not_le.mp hmin) with hzero | heven
      · -- a scale of zero clears the statistics
        unfold Value.Consistent
        rw [hzero]
        simp only [UInt32.mul_zero, UInt32.zero_div]
        simp only [UInt32.toNat_zero, Int.natCast_zero, Int.mul_zero]
        rw [show divS64 (toS64 0) dev.scaleD = 0 by simp [divS64, toS64]]
        exact SampleSums.consistent_zero
      · exact consistent_scaled h hd heven scaleTs

/-! ## Runs -/

variable {vals : Vector Value n} {items : Vector Item n}

/-- The sums that are kept can be those of some samples. -/
def ConsistentOn (items : Vector Item n) (vals : Vector Value n) : Prop :=
  ∀ i : Fin n, (items.get i).Keepstat → (vals.get i).Consistent

theorem consistentOn_fill (h : ConsistentOn items vals) (driver : Driver n) (now : Now) :
    ConsistentOn items (driver.fill now vals) := by
  intro i hkeep
  rw [Driver.get_fill]
  cases driver.fills.get i <;> exact h i hkeep

theorem consistentOn_wprobeUpdateStats (h : ConsistentOn items vals) (hd : 0 < dev.scaleD)
    (hexact : StatsExact dev host items vals) (scaleTs : UInt64) :
    ConsistentOn items (wprobeUpdateStats dev host scaleTs items vals) := by
  intro i hkeep
  have hcount : ((countStats host items vals).get i).Consistent := by
    rw [get_countStats]
    exact consistent_countValue (h i hkeep) (hexact.fit i hkeep)
  unfold wprobeUpdateStats
  split
  · rename_i hdue
    rw [get_wprobeScaleStats]
    exact consistent_scaleValue hcount hd (hexact.scale hdue i) scaleTs
  · exact hcount

theorem consistentOn_syncValues (h : ConsistentOn items vals) (hd : 0 < dev.scaleD)
    (now : Now) (driver : Driver n)
    (hexact : driver.ok → StatsExact dev host items (driver.fill now vals)) :
    ConsistentOn items (syncValues dev host now items driver vals) := by
  unfold syncValues
  split
  · rename_i hok
    exact consistentOn_wprobeUpdateStats (consistentOn_fill h driver now) hd (hexact hok) _
  · exact consistentOn_fill h driver now

/-- What holds along a run whose measurements are exact. -/
structure Iface.Consistent (dev : Iface Value nG nL)
    (items : Items nG nL) : Prop where
  device : ConsistentOn items.globalItems dev.val
  links : ∀ vals ∈ dev.links, ConsistentOn items.linkItems vals

theorem consistentOn_replicate (items : Vector Item n) : ConsistentOn items (.replicate n 0) := by
  intro i _
  rw [show (Vector.replicate n (0 : Value)).get i = 0 from Vector.getElem_replicate _]
  exact consistent_zero

theorem Iface.Consistent.config {items : Items nG nL}
    {dev' : Iface Value nG nL} {K : Kernel} {allocs : Allocs}
    {mem : Bytes} {attrs : ConfigAttrs} (h : dev.Consistent items)
    (heq : (wprobeSetConfig K allocs mem attrs (some dev)).2 = some dev') :
    dev'.Consistent items := by
  refine wprobeSetConfig_keeps (P := fun dev => dev.Consistent items) ?_ ?_ ?_ ?_ ?_ h heq
  · intro d _
    refine ⟨consistentOn_replicate _, fun vals hvals => ?_⟩
    obtain ⟨-, -, rfl⟩ := List.mem_map.mp hvals
    exact consistentOn_replicate _
  · intro d d' hd hsamples
    unfold configSamples at hsamples
    split at hsamples
    · dsimp only at hsamples
      split at hsamples
      · exact Option.some.inj hsamples ▸ ⟨hd.device, hd.links⟩
      · cases hsamples
    · exact Option.some.inj hsamples ▸ hd
  · intro d d' hd hscale
    unfold configScale at hscale
    split at hscale
    · split at hscale
      · cases hscale
      · exact Option.some.inj hscale ▸ ⟨hd.device, hd.links⟩
    · exact Option.some.inj hscale ▸ hd
  · exact fun d f hd => ⟨hd.device, hd.links⟩
  · exact fun d i t hd => ⟨hd.device, hd.links⟩

theorem Iface.Consistent.step {items : Items nG nL}
    {dev' : Iface Value nG nL} {event : IfaceEvent nG nL}
    (h : dev.Consistent items) (hd : 0 < dev.scaleD) (hok : KeepsExact host items dev event)
    (hstep : dev.step host items event = some dev') : dev'.Consistent items := by
  cases event with
  | addLink =>
    obtain rfl := Option.some.inj hstep
    refine ⟨h.device, fun vals hvals => ?_⟩
    rcases List.mem_append.mp hvals with hold | hnew
    · exact h.links vals hold
    · obtain rfl := List.mem_singleton.mp hnew
      exact consistentOn_replicate _
  | removeLink k =>
    obtain rfl := Option.some.inj hstep
    exact ⟨h.device, fun vals hvals => h.links vals (List.mem_of_mem_eraseIdx hvals)⟩
  | measure m =>
    obtain rfl := Option.some.inj hstep
    cases m with
    | device now driver =>
      exact ⟨consistentOn_syncValues h.device hd now driver hok, h.links⟩
    | link k now driver =>
      refine ⟨h.device, fun vals hvals => ?_⟩
      obtain ⟨vals₀, hvals₀, ⟨hsame, rfl⟩ | rfl⟩ := mem_links_measure hvals
      · exact consistentOn_syncValues (h.links _ hvals₀) hd now driver fun hdriver =>
          hok hdriver vals₀ hsame
      · exact h.links _ hvals₀
  | config K allocs mem attrs => exact h.config hstep

/-- **No variance is negative.** -/
structure Iface.VarianceNonneg (dev : Iface Value nG nL)
    (items : Items nG nL) : Prop where
  device : ∀ i : Fin nG, (items.globalItems.get i).Keepstat →
    (dev.val.get i).s * (dev.val.get i).s ≤ (dev.val.get i).n.toNat * (dev.val.get i).ss
  links : ∀ vals ∈ dev.links, ∀ i : Fin nL, (items.linkItems.get i).Keepstat →
    (vals.get i).s * (vals.get i).s ≤ (vals.get i).n.toNat * (vals.get i).ss

/-- **In every run whose measurements are exact no variance is negative.** -/
theorem variance_nonneg_of_reaches (host : ByteOrder) (items : Items nG nL)
    (dev : Iface Value nG nL)
    (h : Transitions.Reaches (step host items) (KeepsExact host items) added dev) :
    dev.VarianceNonneg items := by
  have hboth : dev.ScaleSet ∧ dev.Consistent items := by
    refine Transitions.Reaches.invariant
      (P := fun dev => dev.ScaleSet ∧ dev.Consistent items) ?_ ?_ h
    · exact ⟨scaleSet_added, consistentOn_replicate _,
        fun vals hvals => absurd hvals List.not_mem_nil⟩
    · rintro s event s' ⟨hset, hconsistent⟩ hok hstep
      exact ⟨hset.step hstep, hconsistent.step hset.divisor hok hstep⟩
  exact ⟨fun i hkeep => (hboth.2.device i hkeep).variance,
    fun vals hvals i hkeep => (hboth.2.links vals hvals i hkeep).variance⟩

/-- Four samples of 2, of which two are left after scaling. -/
theorem variance_nonneg_halvedTwos :
    Transitions.Reaches (step .little keptByte) (KeepsExact .little keptByte) added
        halvedTwos
      ∧ (halvedTwos.val.get 0).n = 2 ∧ halvedTwos.VarianceNonneg keptByte := by
  have hreaches : Transitions.Reaches (step .little keptByte) (KeepsExact .little keptByte)
      added halvedTwos := by
    refine .next (a := .measure (byteSample 2)) (.next (a := .measure (byteSample 2))
      (.next (a := .measure (byteSample 2)) (.next (a := .measure (byteSample 2))
      (.next (a := scaleRequest 1 3 1 2) .start trivial rfl) ?_ rfl) ?_ rfl) ?_ rfl) ?_ rfl
    all_goals
      intro _
      decide +kernel
  exact ⟨hreaches, by decide, variance_nonneg_of_reaches .little keptByte _ hreaches⟩

/-- **The samples 2, 2 and 3, scaled by one half**: one sample, with the sum 3
and the squares 8. -/
theorem variance_negative : ∃ dev : Iface Value 1 0,
    Transitions.Reaches (step .little keptByte) (fun _ _ => True) added dev
      ∧ (dev.val.get 0).n = 1 ∧ (dev.val.get 0).s = 3 ∧ (dev.val.get 0).ss = 8
      ∧ ¬ dev.VarianceNonneg keptByte := by
  refine ⟨_, .next (a := .measure (byteSample 3)) (.next (a := .measure (byteSample 2))
    (.next (a := .measure (byteSample 2)) (.next (a := scaleRequest 1 2 1 2) .start trivial rfl)
    trivial rfl) trivial rfl) trivial rfl, by decide, by decide, by decide, fun h => ?_⟩
  have hle := h.device 0 (by decide)
  revert hle
  decide

end Wprobe
