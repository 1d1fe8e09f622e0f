import RouterFirmware.Transitions
import RouterFirmware.WprobeConfig

/-!
# The statistics of wprobe

A driver fills in the values of an interface or of a link and marks them as
pending. `wprobe_update_stats` then counts each pending value and adds it to the
sum and to the sum of squares; if a count passes `scale_max`, all statistics of
the interface are scaled down by `scale_m / scale_d`.

The sums are `s64` in the source: here integers that are brought back into range
by `toS64` after each operation. The module ends with the events of an interface
(`Iface.step`), over which the results on counts and variances are proved, and
with a rule for what a configuration keeps (`wprobeSetConfig_keeps`).
-/

namespace Wprobe

/-! ## Items and values -/

/-- The type of an item: those of numbers, strings, and any other attribute. -/
inductive ItemType where
  | s8
  | s16
  | s32
  | s64
  | u8
  | u16
  | u32
  | u64
  | string
  | other (attr : UInt16)
deriving DecidableEq

/-- `WPROBE_F_KEEPSTAT`: keep statistics. -/
def wprobeFKeepstat : UInt32 := (1 : UInt32) <<< 0

/-- `struct wprobe_item`. -/
structure Item where
  name : List UInt8
  type : ItemType
  flags : UInt32

/-- Statistics are kept of the item. -/
def Item.Keepstat (item : Item) : Prop := item.flags &&& wprobeFKeepstat ≠ 0

instance (item : Item) : Decidable item.Keepstat := inferInstanceAs (Decidable (_ ≠ _))

/-- **`struct wprobe_value`**: the value last filled in, and its statistics. -/
structure Value where
  pending : Bool
  union : Vector UInt8 8
  s : ℤ
  ss : ℤ
  n : UInt32
  first : UInt64
  last : UInt64
  scaleTimestamp : UInt64

instance : Zero Value := ⟨⟨false, .replicate 8 0, 0, 0, 0, 0, 0, 0⟩⟩

/-- The conversion to an `s64`. -/
def toS64 (x : ℤ) : ℤ := x.bmod (2 ^ 64)

/-- A member of the union of `w` bytes, unsigned. -/
def Value.member (host : ByteOrder) (w : ℕ) (val : Value) : ℕ :=
  host.value (val.union.toList.take w)

/-- The value as it enters the sums; strings are not added. -/
def Value.sample (host : ByteOrder) (val : Value) : ItemType → Option ℤ
  | .s8 => some ((val.member host 1 : ℤ).bmod (2 ^ 8))
  | .s16 => some ((val.member host 2 : ℤ).bmod (2 ^ 16))
  | .s32 => some ((val.member host 4 : ℤ).bmod (2 ^ 32))
  | .s64 => some (toS64 (val.member host 8))
  | .u8 => some (val.member host 1)
  | .u16 => some (val.member host 2)
  | .u32 => some (val.member host 4)
  | .u64 => some (toS64 (val.member host 8))
  | .string | .other _ => none

/-- A driver's `WPROBE_SET`, with the bytes that the union has then. -/
def Value.fill (msecs : UInt64) (val : Value) : Option (Vector UInt8 8) → Value
  | some bytes => { val with pending := true, union := bytes, first := msecs }
  | none => val

/-! ## `wprobe_scale_stats` and `wprobe_update_stats` -/

/-- `div_s64`: the divisor is converted to an `s32`. -/
def divS64 (dividend : ℤ) (divisor : UInt32) : ℤ := toS64 (dividend.tdiv (toInt divisor.toNat))

section Model

variable {nG nL n : ℕ} (dev : Iface Value nG nL)

/-- The statistics of an item are scaled. -/
def scaleValue (scaleTs : UInt64) (item : Item) (val : Value) : Value :=
  if ¬ item.Keepstat then val
  else if val.n ≤ dev.scaleMin then val
  else
    { val with
      s := divS64 (toS64 (val.s * dev.scaleM.toNat)) dev.scaleD
      ss := divS64 (toS64 (val.ss * dev.scaleM.toNat)) dev.scaleD
      n := val.n * dev.scaleM / dev.scaleD
      scaleTimestamp := scaleTs }

/-- **`wprobe_scale_stats`.** -/
def wprobeScaleStats (scaleTs : UInt64) (items : Vector Item n) (vals : Vector Value n) :
    Vector Value n :=
  .ofFn fun i => scaleValue dev scaleTs (items.get i) (vals.get i)

@[simp] theorem get_wprobeScaleStats (scaleTs : UInt64) (items : Vector Item n)
    (vals : Vector Value n) (i : Fin n) : (wprobeScaleStats dev scaleTs items vals).get i
    = scaleValue dev scaleTs (items.get i) (vals.get i) :=
  Vector.getElem_ofFn _

/-- A pending value is counted and added to the sums. -/
def countValue (host : ByteOrder) (item : Item) (val : Value) : Value :=
  if ¬ val.pending then val
  else
    let val := { val with n := val.n + 1 }
    match val.sample host item.type with
    | none => val
    | some v =>
      { val with
        s := toS64 (val.s + v)
        ss := toS64 (val.ss + toS64 (v * v))
        pending := false }

/-- The loop of `wprobe_update_stats` over the values. -/
def countStats (host : ByteOrder) (items : Vector Item n) (vals : Vector Value n) :
    Vector Value n :=
  .ofFn fun i => countValue host (items.get i) (vals.get i)

@[simp] theorem get_countStats (host : ByteOrder) (items : Vector Item n) (vals : Vector Value n)
    (i : Fin n) : (countStats host items vals).get i = countValue host (items.get i) (vals.get i) :=
  Vector.getElem_ofFn _

/-- `scale_stats`: the loop has come to a count that is too large. -/
def ScaleDue (items : Vector Item n) (vals : Vector Value n) : Prop :=
  ∃ i : Fin n, (vals.get i).pending ∧ (items.get i).Keepstat ∧ 0 < dev.scaleMax
    ∧ dev.scaleMax < (vals.get i).n + 1

instance (items : Vector Item n) (vals : Vector Value n) :
    Decidable (ScaleDue dev items vals) := inferInstanceAs (Decidable (∃ _, _))

/-- **`wprobe_update_stats`.** -/
def wprobeUpdateStats (host : ByteOrder) (scaleTs : UInt64) (items : Vector Item n)
    (vals : Vector Value n) : Vector Value n :=
  if ScaleDue dev items vals then wprobeScaleStats dev scaleTs items (countStats host items vals)
  else countStats host items vals

end Model

/-! ## Measurements -/

/-- **What a driver does in a call**: the values it fills in, and whether it
succeeds. -/
structure Driver (n : ℕ) where
  fills : Vector (Option (Vector UInt8 8)) n
  ok : Bool

/-- The time of a measurement: `jiffies` in milliseconds, and `jiffies_64`. -/
structure Now where
  msecs : UInt64
  jiffies : UInt64

section Sync

variable {nG nL : ℕ}

/-- The values as the driver leaves them. -/
def Driver.fill {n : ℕ} (driver : Driver n) (now : Now) (vals : Vector Value n) : Vector Value n :=
  .ofFn fun i => (vals.get i).fill now.msecs (driver.fills.get i)

@[simp] theorem Driver.get_fill {n : ℕ} (driver : Driver n) (now : Now) (vals : Vector Value n)
    (i : Fin n) : (driver.fill now vals).get i = (vals.get i).fill now.msecs (driver.fills.get i) :=
  Vector.getElem_ofFn _

/-- **`wprobe_sync_data`**, as far as it changes the values. -/
def syncValues {n : ℕ} (dev : Iface Value nG nL) (host : ByteOrder) (now : Now)
    (items : Vector Item n) (driver : Driver n) (vals : Vector Value n) : Vector Value n :=
  if driver.ok then
    wprobeUpdateStats dev host now.jiffies items (driver.fill now vals)
  else driver.fill now vals

/-- The items of an interface, which the driver gives. -/
structure Items (nGlobalItems nLinkItems : ℕ) where
  globalItems : Vector Item nGlobalItems
  linkItems : Vector Item nLinkItems

/-- **A measurement**, of the interface or of the link with an index. -/
inductive Measurement (nGlobalItems nLinkItems : ℕ) where
  | device (now : Now) (driver : Driver nGlobalItems)
  | link (k : ℕ) (now : Now) (driver : Driver nLinkItems)

/-- `wprobe_sync_data` on the interface or on a link. -/
def Iface.measure (host : ByteOrder) (items : Items nG nL) (dev : Iface Value nG nL) :
    Measurement nG nL → Iface Value nG nL
  | .device now driver =>
    { dev with val := syncValues dev host now items.globalItems driver dev.val }
  | .link k now driver =>
    { dev with links := dev.links.modify k (syncValues dev host now items.linkItems driver) }

theorem Iface.mem_links_measure {host : ByteOrder} {items : Items nG nL}
    {dev : Iface Value nG nL} {k : ℕ} {now : Now} {driver : Driver nL} {vals : Vector Value nL}
    (h : vals ∈ (dev.measure host items (.link k now driver)).links) :
    ∃ vals₀ ∈ dev.links, dev.links[k]? = some vals₀
        ∧ vals = syncValues dev host now items.linkItems driver vals₀ ∨ vals = vals₀ := by
  obtain ⟨j, hj⟩ := List.mem_iff_getElem?.mp h
  rw [measure, List.getElem?_modify] at hj
  obtain ⟨vals₀, hvals₀, rfl⟩ := Option.map_eq_some_iff.mp hj
  refine ⟨vals₀, List.mem_of_getElem? hvals₀, ?_⟩
  split
  · next hsame => exact .inl ⟨hsame ▸ hvals₀, rfl⟩
  · exact .inr rfl

/-! ## The interface in the course of time -/

/-- What may happen to an interface. -/
inductive IfaceEvent (nGlobalItems nLinkItems : ℕ) where
  /-- A link comes (`wprobe_add_link`), -/
  | addLink
  /-- or goes. -/
  | removeLink (k : ℕ)
  /-- A measurement, by request, by the timer or for a query. -/
  | measure (m : Measurement nGlobalItems nLinkItems)
  /-- A request to `wprobe_set_config`. -/
  | config (K : Kernel) (allocs : Allocs) (mem : Bytes) (attrs : ConfigAttrs)

/-- **One event.** -/
def Iface.step (host : ByteOrder) (items : Items nG nL) (dev : Iface Value nG nL) :
    IfaceEvent nG nL → Option (Iface Value nG nL)
  | .addLink => some { dev with links := dev.links ++ [.replicate nL 0] }
  | .removeLink k => some { dev with links := dev.links.eraseIdx k }
  | .measure m => some (dev.measure host items m)
  | .config K allocs mem attrs => (wprobeSetConfig K allocs mem attrs (some dev)).2

/-- The interface as `wprobe_add_iface` leaves it, with the defaults. -/
def Iface.added : Iface Value nG nL where
  val := .replicate nG 0
  links := []
  activeFilter := none
  measureInterval := 0
  measureTimer := false
  scaleMin := 20
  scaleMax := (1 : UInt32) <<< 31
  scaleM := 1
  scaleD := 10

/-- **What a configuration keeps**: a property that each of its parts keeps. -/
theorem wprobeSetConfig_keeps {V : Type} [Zero V] {P : Iface V nG nL → Prop}
    {K : Kernel} {allocs : Allocs} {mem : Bytes} {attrs : ConfigAttrs}
    {dev dev' : Iface V nG nL} (hreset : ∀ d, P d → P d.reset)
    (hsamples : ∀ d d', P d → configSamples attrs d = some d' → P d')
    (hscale : ∀ d d', P d → configScale attrs d = some d' → P d')
    (hfilter : ∀ d f, P d → P { d with activeFilter := f })
    (hinterval : ∀ d i t, P d → P { d with measureInterval := i, measureTimer := t }) (h : P dev)
    (heq : (wprobeSetConfig K allocs mem attrs (some dev)).2 = some dev') : P dev' := by
  have hflags : P (configFlags attrs dev) := by
    unfold configFlags
    split
    · split
      · exact hreset dev h
      · exact h
    · exact h
  have hauto : ∀ d i, P d → P (wprobeUpdateAutoMeasurement d i).2 := by
    intro d i hd
    unfold wprobeUpdateAutoMeasurement
    split
    · exact hd
    · dsimp only
      split <;> split <;> exact hinterval d _ _ hd
  unfold wprobeSetConfig at heq
  dsimp only at heq
  split at heq
  · exact Option.some.inj heq ▸ h
  · split at heq
    · exact Option.some.inj heq ▸ hflags
    · rename_i dev₁ hsome₁
      have h₁ := hsamples _ _ hflags hsome₁
      split at heq
      · exact Option.some.inj heq ▸ h₁
      · rename_i dev₂ hsome₂
        have h₂ : P (configFilter K allocs mem attrs dev₂) := by
          rw [configFilter_eq]
          exact hfilter _ _ (hscale _ _ h₁ hsome₂)
        split at heq
        · exact Option.some.inj heq ▸ h₂
        · exact Option.some.inj heq ▸ hauto _ _ h₂

end Sync

end Wprobe
