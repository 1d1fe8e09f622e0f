import RouterFirmware.ByteOrder
import Mathlib.Tactic.IntervalCases

/-!
# Messages of wprobe on the network

A remote wprobe connection carries netlink messages in network order.
-/

namespace Wprobe

open Nat Memory List BitVec Option

/-! ## Swapping numbers -/

def swab16 (x : UInt16) : UInt16 := x <<< 8 ||| x >>> 8

def swab32 (x : UInt32) : UInt32 :=
  x <<< 24 ||| x >>> 24 ||| (x &&& 0x0000ff00) <<< 8 ||| (x &&& 0x00ff0000) >>> 8

def swab64 (x : UInt64) : UInt64 :=
  x <<< 56 ||| x >>> 56
    ||| (x &&& 0x000000000000ff00) <<< 40
    ||| (x &&& 0x0000000000ff0000) <<< 24
    ||| (x &&& 0x00000000ff000000) <<< 8
    ||| (x &&& 0x000000ff00000000) >>> 8
    ||| (x &&& 0x0000ff0000000000) >>> 24
    ||| (x &&& 0x00ff000000000000) >>> 40

theorem getLsbD_swab16 {i : ℕ} (x : UInt16) (hi : i < 16) :
    (swab16 x).toBitVec.getLsbD i = x.toBitVec.getLsbD (8 - i / 8 * 8 + i % 8) := by
  simp only [swab16, UInt16.toBitVec_or, UInt16.toBitVec_shiftLeft, UInt16.toBitVec_shiftRight,
    getLsbD_or]
  interval_cases i <;> simp

theorem getLsbD_swab32 {i : ℕ} (x : UInt32) (hi : i < 32) :
    (swab32 x).toBitVec.getLsbD i = x.toBitVec.getLsbD (24 - i / 8 * 8 + i % 8) := by
  simp only [swab32, UInt32.toBitVec_or, UInt32.toBitVec_and, UInt32.toBitVec_shiftLeft,
    UInt32.toBitVec_shiftRight, BitVec.getLsbD_or]
  interval_cases i <;> simp

theorem getLsbD_swab64 {i : ℕ} (x : UInt64) (hi : i < 64) :
    (swab64 x).toBitVec.getLsbD i = x.toBitVec.getLsbD (56 - i / 8 * 8 + i % 8) := by
  simp only [swab64, UInt64.toBitVec_or, UInt64.toBitVec_and, UInt64.toBitVec_shiftLeft,
    UInt64.toBitVec_shiftRight, getLsbD_or]
  interval_cases i <;> simp

@[simp] theorem swab16_swab16 (x : UInt16) : swab16 (swab16 x) = x := by
  apply UInt16.eq_of_toBitVec_eq
  apply BitVec.eq_of_getLsbD_eq
  intro i hi
  rw [getLsbD_swab16 _ hi, getLsbD_swab16 _ (by omega)]
  congr 1
  omega

@[simp] theorem swab32_swab32 (x : UInt32) : swab32 (swab32 x) = x := by
  apply UInt32.eq_of_toBitVec_eq
  apply BitVec.eq_of_getLsbD_eq
  intro i hi
  rw [getLsbD_swab32 _ hi, getLsbD_swab32 _ (by omega)]
  congr 1
  omega

@[simp] theorem swab64_swab64 (x : UInt64) : swab64 (swab64 x) = x := by
  apply UInt64.eq_of_toBitVec_eq
  apply eq_of_getLsbD_eq
  intro i hi
  rw [getLsbD_swab64 _ hi, getLsbD_swab64 _ (by omega)]
  congr 1
  omega

/-- The width of a number that is swapped. -/
inductive Width where
  | w16
  | w32
  | w64
deriving DecidableEq

namespace Width

def bytes : Width → ℕ
  | w16 => 2
  | w32 => 4
  | w64 => 8

def swab : Width → ℕ → ℕ
  | w16, v => (swab16 (.ofNat v)).toNat
  | w32, v => (swab32 (.ofNat v)).toNat
  | w64, v => (swab64 (.ofNat v)).toNat

theorem swab_lt (w : Width) (v : ℕ) : w.swab v < 256 ^ w.bytes := by
  cases w with
  | w16 => exact UInt16.toNat_lt _
  | w32 => exact UInt32.toNat_lt _
  | w64 => exact UInt64.toNat_lt _

theorem swab_swab (w : Width) {v : ℕ} (hv : v < 256 ^ w.bytes) : w.swab (w.swab v) = v := by
  cases w with
  | w16 =>
    rw [swab, swab, UInt16.ofNat_toNat, swab16_swab16]
    exact UInt16.toNat_ofNat_of_lt' hv
  | w32 =>
    rw [swab, swab, UInt32.ofNat_toNat, swab32_swab32]
    exact UInt32.toNat_ofNat_of_lt' hv
  | w64 =>
    rw [swab, swab, UInt64.ofNat_toNat, swab64_swab64]
    exact UInt64.toNat_ofNat_of_lt' hv

end Width

/-- `SWAP16`, `SWAP32` and `SWAP64` of the variable at an address. -/
def swap (host : ByteOrder) (w : Width) (m : Bytes) (a : ℕ) : Bytes :=
  match host with
  | .little => m.modify .little w.bytes a w.swab
  | .big => m

variable {host : ByteOrder} {m m' : Bytes} {a : ℕ} (h : Memory.EqOn m m' a (a + 4))

@[simp] theorem swap_swap (host : ByteOrder) (w : Width) (m : Bytes) (a : ℕ) :
    swap host w (swap host w m a) a = m := by
  cases host with
  | little => exact m.modify_modify .little (fun v _ => w.swab_lt v) (fun v hv => w.swab_swab hv) a
  | big => rfl

theorem load_swap_self (w : Width) (m : Bytes) (a : ℕ) :
    (swap .little w m a).load .little w.bytes a = w.swab (m.load .little w.bytes a) := by
  rw [swap, Memory.modify, Memory.load_store_self, Nat.mod_eq_of_lt (w.swab_lt _)]

theorem eqOff_swap (host : ByteOrder) (w : Width) (m : Bytes) (a : ℕ) :
    Memory.EqOff (swap host w m a) m a (a + w.bytes) := by
  cases host with
  | little => exact m.eqOff_modify .little _ a _
  | big => exact fun _ _ => rfl

variable {b : ℕ} {places : List (Width × ℕ)} {w : Width}

theorem eqOn_swap {c : ℕ} (h : Memory.EqOn m m' a b) (hac : a ≤ c)
    (hcb : c + w.bytes ≤ b) : Memory.EqOn (swap host w m c) (swap host w m' c) a b := by
  have hin : Memory.EqOn (swap host w m c) (swap host w m' c) c (c + w.bytes) := by
    cases host with
    | little => exact (h.mono hac hcb).modify .little _
    | big => exact h.mono hac hcb
  intro i hai hib
  by_cases hi : c ≤ i ∧ i < c + w.bytes
  · exact hin i hi.1 hi.2
  · rw [eqOff_swap host w m c i (by omega), eqOff_swap host w m' c i (by omega)]
    exact h i hai hib

theorem swap_comm {w' : Width} (h : a + w.bytes ≤ b ∨ b + w'.bytes ≤ a) :
    swap host w' (swap host w m a) b = swap host w (swap host w' m b) a := by
  have hoff := eqOff_swap host w m a
  have hoff' := eqOff_swap host w' m b
  have hb : Memory.EqOn (swap host w' (swap host w m a) b) (swap host w' m b) b (b + w'.bytes) :=
    eqOn_swap (hoff.eqOn (by omega)) (le_refl _) (le_refl _)
  have ha : Memory.EqOn (swap host w (swap host w' m b) a) (swap host w m a) a (a + w.bytes) :=
    eqOn_swap (hoff'.eqOn (by omega)) (le_refl _) (le_refl _)
  funext i
  by_cases hib : b ≤ i ∧ i < b + w'.bytes
  · rw [hb i hib.1 hib.2, eqOff_swap host w _ a i (by omega)]
  · rw [eqOff_swap host w' _ b i (by omega)]
    by_cases hia : a ≤ i ∧ i < a + w.bytes
    · rw [ha i hia.1 hia.2]
    · rw [eqOff_swap host w _ a i (by omega), eqOff_swap host w _ a i (by omega),
        hoff' i (by omega)]

/-- **The numbers at some places are swapped**, one after the other. -/
def swapAll (host : ByteOrder) : List (Width × ℕ) → Bytes → Bytes
  | [], m => m
  | (w, a) :: places, m => swapAll host places (swap host w m a)

def Apart (p q : Width × ℕ) : Prop := p.2 + p.1.bytes ≤ q.2 ∨ q.2 + q.1.bytes ≤ p.2

def Within (places : List (Width × ℕ)) (a b : ℕ) : Prop :=
  ∀ p ∈ places, a ≤ p.2 ∧ p.2 + p.1.bytes ≤ b

theorem swapAll_swap_comm (h : ∀ p ∈ places, Apart (w, a) p) (m : Bytes) :
    swapAll host places (swap host w m a) = swap host w (swapAll host places m) a := by
  induction places generalizing m with
  | nil => rfl
  | cons p places ih =>
    obtain ⟨w', b⟩ := p
    have hp : a + w.bytes ≤ b ∨ b + w'.bytes ≤ a := h (w', b) mem_cons_self
    rw [swapAll, swapAll, swap_comm hp, ih fun p hmem => h p (mem_cons_of_mem _ hmem)]

theorem swapAll_swapAll (h : places.Pairwise Apart) (m : Bytes) :
    swapAll host places (swapAll host places m) = m := by
  induction places generalizing m with
  | nil => rfl
  | cons p places ih =>
    obtain ⟨w, a⟩ := p
    obtain ⟨hfirst, hrest⟩ := pairwise_cons.mp h
    rw [swapAll, swapAll, ← swapAll_swap_comm hfirst, swap_swap, ih hrest]

theorem eqOff_swapAll {a : ℕ} (h : Within places a b)
    (m : Bytes) : Memory.EqOff (swapAll host places m) m a b := by
  induction places generalizing m with
  | nil => exact fun _ _ => rfl
  | cons p places ih =>
    obtain ⟨w, c⟩ := p
    obtain ⟨hac, hcb⟩ := h (w, c) mem_cons_self
    exact (ih (fun p hmem => h p (mem_cons_of_mem _ hmem)) _).trans
      ((eqOff_swap host w m c).mono hac hcb)

theorem eqOn_swapAll {a : ℕ} (h : Within places a b) (heq : Memory.EqOn m m' a b) :
    Memory.EqOn (swapAll host places m) (swapAll host places m') a b := by
  induction places generalizing m m' with
  | nil => exact heq
  | cons p places ih =>
    obtain ⟨w, c⟩ := p
    obtain ⟨hac, hcb⟩ := h (w, c) mem_cons_self
    exact ih (fun p hmem => h p (mem_cons_of_mem _ hmem)) (eqOn_swap heq hac hcb)

/-! ## Attributes -/

inductive NlaType where
  | unspec
  | u8
  | u16
  | u32
  | u64
  | string
  | nested
deriving DecidableEq

/-- `attribute_policy`, indexed by `enum wprobe_attr`. -/
def attributePolicy : ℕ → NlaType
  | 3 => .u32      -- WPROBE_ATTR_FLAGS
  | 4 => .u32      -- WPROBE_ATTR_ID
  | 5 => .string   -- WPROBE_ATTR_NAME
  | 6 => .u8       -- WPROBE_ATTR_TYPE
  | 9 => .u8       -- WPROBE_VAL_S8
  | 10 => .u16     -- WPROBE_VAL_S16
  | 11 => .u32     -- WPROBE_VAL_S32
  | 12 => .u64     -- WPROBE_VAL_S64
  | 13 => .u8      -- WPROBE_VAL_U8
  | 14 => .u16     -- WPROBE_VAL_U16
  | 15 => .u32     -- WPROBE_VAL_U32
  | 16 => .u64     -- WPROBE_VAL_U64
  | 17 => .u64     -- WPROBE_VAL_SUM
  | 18 => .u64     -- WPROBE_VAL_SUM_SQ
  | 19 => .u32     -- WPROBE_VAL_SAMPLES
  | 20 => .u64     -- WPROBE_VAL_SCALE_TIME
  | 21 => .u64     -- WPROBE_ATTR_INTERVAL
  | 22 => .u32     -- WPROBE_ATTR_SAMPLES_MIN
  | 23 => .u32     -- WPROBE_ATTR_SAMPLES_MAX
  | 24 => .u32     -- WPROBE_ATTR_SAMPLES_SCALE_M
  | 25 => .u32     -- WPROBE_ATTR_SAMPLES_SCALE_D
  | 27 => .nested  -- WPROBE_ATTR_FILTER_GROUP
  | 28 => .u64     -- WPROBE_ATTR_RXCOUNT
  | 29 => .u64     -- WPROBE_ATTR_TXCOUNT
  | _ => .unspec

/-- The width of the number in an attribute of a type. -/
def NlaType.width : NlaType → Option Width
  | u16 => some .w16
  | u32 => some .w32
  | u64 => some .w64
  | _ => none

/-- The bytes of the number, if there is one. -/
def NlaType.numberLen (type : NlaType) : ℕ := (type.width.map Width.bytes).getD 0

theorem NlaType.numberLen_of_width {type : NlaType} (h : type.width = some w) :
    type.numberLen = w.bytes := by
  rw [numberLen, h]
  rfl

/-- `nla->nla_len` of the attribute at an address. -/
def nlaLen (host : ByteOrder) (m : Bytes) (a : ℕ) : ℕ := m.load host 2 a

/-- The type of the attribute at an address, without flags
(`NLA_TYPE_MASK`). -/
def nlaType (host : ByteOrder) (m : Bytes) (a : ℕ) : ℕ := m.load host 2 (a + 2) % 0x4000

def nlaAlign (n : ℕ) : ℕ := (n + 3) / 4 * 4

/-- Both fields of the header of an attribute are swapped. -/
def swapHeader (host : ByteOrder) (m : Bytes) (a : ℕ) : Bytes :=
  swapAll host [(.w16, a), (.w16, a + 2)] m

/-- An attribute that would pass the end of its parent is cut off there. -/
def limit (host : ByteOrder) (m : Bytes) (a stop : ℕ) : Bytes :=
  if stop < a + nlaLen host m a then m.store host 2 a (stop - a) else m

/-- The payload of the attribute at an address is swapped as its type has it. -/
def swapPayload (host : ByteOrder) (nested : Bytes → ℕ → ℕ → Option Bytes)
    (m : Bytes) (a : ℕ) : Option Bytes :=
  match host, attributePolicy (nlaType host m a) with
  | .big, _ => some m
  | .little, .u16 => some (swap host .w16 m (a + 4))
  | .little, .u32 => some (swap host .w32 m (a + 4))
  | .little, .u64 => some (swap host .w64 m (a + 4))
  | .little, .nested => nested m (a + 4) (a + nlaLen host m a)
  | .little, _ => some m

/-- The loop of `wprobe_swap_nested` from `data` to `stop`. -/
def swapNested (host : ByteOrder) (outgoing : Bool) : ℕ → Bytes → ℕ → ℕ → Option Bytes
  | 0, _, _, _ => none
  | fuel + 1, m, data, stop =>
    if data < stop then
      let m := if outgoing then m else limit host (swapHeader host m data) data stop
      let len := nlaAlign (nlaLen host m data)
      (swapPayload host (swapNested host outgoing fuel) m data).bind fun m =>
        let m := if outgoing then swapHeader host m data else m
        if nlaLen host m data = 0 then some m
        else swapNested host outgoing fuel m (data + len) stop
    else some m

/-- **`wprobe_swap_nested`** of `len` bytes. -/
def wprobeSwapNested (host : ByteOrder) (outgoing : Bool) (m : Bytes) (data len : ℕ) :
    Option Bytes := swapNested host outgoing (len + 1) m data (data + len)

/-! ## The netlink header -/

/-- `swap_nlmsghdr` of the header at an address. -/
def swapNlmsghdr (host : ByteOrder) (m : Bytes) (a : ℕ) : Bytes :=
  swapAll host [(.w32, a), (.w16, a + 4), (.w16, a + 6), (.w32, a + 8), (.w32, a + 12)] m

/-! ## Headers of attributes -/

theorem within_header (a : ℕ) : Within [(.w16, a), (.w16, a + 2)] a (a + 4) := by
  simp [Within, Width.bytes]

theorem swapHeader_swapHeader (host : ByteOrder) (m : Bytes) (a : ℕ) :
    swapHeader host (swapHeader host m a) a = m :=
  swapAll_swapAll (by simp [Apart, Width.bytes]) m

theorem eqOff_swapHeader (host : ByteOrder) (m : Bytes) (a : ℕ) :
    Memory.EqOff (swapHeader host m a) m a (a + 4) := eqOff_swapAll (within_header a) m

include h

theorem eqOn_swapHeader : Memory.EqOn (swapHeader host m a) (swapHeader host m' a) a (a + 4) :=
  eqOn_swapAll (within_header a) h

theorem nlaLen_congr : nlaLen host m a = nlaLen host m' a :=
  h.load_eq host (le_refl _) (by omega)

theorem nlaType_congr : nlaType host m a = nlaType host m' a :=
  congrArg (· % 0x4000) (h.load_eq host (by omega) (by omega))

omit h

theorem nlaLen_swapHeader_ne_zero (h : nlaLen host m a ≠ 0) :
    nlaLen host (swapHeader host m a) a ≠ 0 := by
  cases host with
  | big => exact h
  | little =>
    have hoff := eqOff_swap .little .w16 (swap .little .w16 m a) (a + 2)
    have hload : nlaLen .little (swapHeader .little m a) a
        = Width.w16.swab (nlaLen .little m a) := by
      have hsecond := (hoff.eqOn (c := 0) (.inl (le_refl _))).load_eq .little (zero_le a)
        (le_refl _)
      exact hsecond.trans (load_swap_self .w16 m a)
    intro hzero
    have hback := Width.w16.swab_swab (m.load_lt .little 2 a)
    have hval : Width.w16.swab (m.load .little 2 a) = 0 := hload.symm.trans hzero
    rw [hval] at hback
    exact h hback.symm

/-! ## Well-formed attributes -/

/-- **A well-formed run of attributes** from an address to the end of its parent. -/
inductive Attrs (host : ByteOrder) (m : Bytes) : ℕ → ℕ → Prop
  | nil {a stop : ℕ} (h : stop ≤ a) : Attrs host m a stop
  | cons {a stop : ℕ}
      (header : 4 + (attributePolicy (nlaType host m a)).numberLen ≤ nlaLen host m a)
      (inside : a + nlaLen host m a ≤ stop)
      (nested : attributePolicy (nlaType host m a) = .nested
        → Attrs host m (a + 4) (a + nlaLen host m a))
      (rest : Attrs host m (a + nlaAlign (nlaLen host m a)) stop) : Attrs host m a stop

/-- **One function undoes another on a range**. -/
def Undone (out back : Bytes → ℕ → ℕ → Option Bytes) (m : Bytes) (a stop : ℕ) : Prop :=
  ∀ m', Memory.EqOn m' m a stop →
    ∃ m₁, out m' a stop = some m₁ ∧ Memory.EqOff m₁ m' a stop
      ∧ ∀ m₁', Memory.EqOn m₁' m₁ a stop →
        ∃ m₂, back m₁' a stop = some m₂ ∧ Memory.EqOn m₂ m a stop ∧ Memory.EqOff m₂ m₁' a stop

variable {out : Bytes → ℕ → ℕ → Option Bytes} {stop fuel : ℕ}

theorem swapPayload_number
    (hw : (attributePolicy (nlaType .little m a)).width = some w) :
    swapPayload .little out m a = some (swap .little w m (a + 4)) := by
  unfold swapPayload
  cases htype : attributePolicy (nlaType .little m a) <;> rw [htype] at hw <;> cases hw <;> rfl

theorem swapPayload_nested (h : attributePolicy (nlaType .little m a) = .nested) :
    swapPayload .little out m a = out m (a + 4) (a + nlaLen .little m a) := by
  unfold swapPayload
  rw [h]

theorem swapPayload_other (hw : (attributePolicy (nlaType .little m a)).width = none)
    (h : attributePolicy (nlaType .little m a) ≠ .nested) :
    swapPayload .little out m a = some m := by
  unfold swapPayload
  cases htype : attributePolicy (nlaType .little m a) <;> rw [htype] at hw h <;>
    first | rfl | exact absurd rfl h | cases hw

theorem swapPayload_undone {back : Bytes → ℕ → ℕ → Option Bytes}
    (hlen : 4 + (attributePolicy (nlaType .little m a)).numberLen ≤ nlaLen .little m a)
    (hnested : attributePolicy (nlaType .little m a) = .nested →
      Undone out back m (a + 4) (a + nlaLen .little m a))
    (hm' : Memory.EqOn m' m a (a + nlaLen .little m a)) :
    ∃ m₁, swapPayload .little out m' a = some m₁
      ∧ Memory.EqOff m₁ m' (a + 4) (a + nlaLen .little m a)
      ∧ ∀ m₁', Memory.EqOn m₁' m a (a + 4)
        → Memory.EqOn m₁' m₁ (a + 4) (a + nlaLen .little m a)
        → ∃ m₂, swapPayload .little back m₁' a = some m₂
          ∧ Memory.EqOn m₂ m (a + 4) (a + nlaLen .little m a)
          ∧ Memory.EqOff m₂ m₁' (a + 4) (a + nlaLen .little m a) := by
  have hhead : Memory.EqOn m' m a (a + 4) := hm'.mono (le_refl a) (by omega)
  have hbody : Memory.EqOn m' m (a + 4) (a + nlaLen .little m a) := hm'.mono (by omega) (by omega)
  have htype : nlaType .little m' a = nlaType .little m a := nlaType_congr hhead
  cases hw : (attributePolicy (nlaType .little m a)).width with
  | some w =>
    have hfits := NlaType.numberLen_of_width hw
    have hout := eqOff_swap .little w m' (a + 4)
    refine ⟨_, swapPayload_number (htype ▸ hw), hout.mono (by omega) (by omega), ?_⟩
    intro m₁' hhead' hbody'
    have hback := eqOff_swap .little w m₁' (a + 4)
    refine ⟨_, swapPayload_number (nlaType_congr hhead' ▸ hw), ?_, hback.mono (by omega) (by omega)⟩
    have hundo : Memory.EqOn (swap .little w m₁' (a + 4))
        (swap .little w (swap .little w m' (a + 4)) (a + 4)) (a + 4) (a + nlaLen .little m a) :=
      eqOn_swap hbody' (le_refl _) (by omega)
    rw [swap_swap] at hundo
    exact hundo.trans hbody
  | none =>
    by_cases hnest : attributePolicy (nlaType .little m a) = .nested
    · obtain ⟨m₁, heq, hoff, hundo⟩ := hnested hnest m' hbody
      have hlen' : nlaLen .little m' a = nlaLen .little m a := nlaLen_congr hhead
      refine ⟨m₁, ?_, hoff, fun m₁' hhead' hbody' => ?_⟩
      · rw [swapPayload_nested (htype ▸ hnest), hlen', heq]
      · obtain ⟨m₂, heq', hon, hoff'⟩ := hundo m₁' hbody'
        have hlen'' : nlaLen .little m₁' a = nlaLen .little m a := nlaLen_congr hhead'
        refine ⟨m₂, ?_, hon, hoff'⟩
        rw [swapPayload_nested (nlaType_congr hhead' ▸ hnest), hlen'', heq']
    · refine ⟨m', swapPayload_other (htype ▸ hw) (htype ▸ hnest), fun _ _ => rfl, ?_⟩
      intro m₁' hhead' hbody'
      have htype' : nlaType .little m₁' a = nlaType .little m a := nlaType_congr hhead'
      exact ⟨m₁', swapPayload_other (htype' ▸ hw) (htype' ▸ hnest), hbody'.trans hbody,
        fun _ _ => rfl⟩

/-! ## The round trip of attributes -/

theorem le_nlaAlign (n : ℕ) : n ≤ nlaAlign n := by
  rw [nlaAlign]
  omega

theorem limit_of_inside (h : a + nlaLen host m a ≤ stop) : limit host m a stop = m :=
  if_neg (by omega)

theorem swapNested_outgoing {m₁ : Bytes} (hlt : a < stop)
    (hpayload : swapPayload host (swapNested host true fuel) m a = some m₁)
    (hlen : nlaLen host (swapHeader host m₁ a) a ≠ 0) : swapNested host true (fuel + 1) m a stop
    = swapNested host true fuel (swapHeader host m₁ a) (a + nlaAlign (nlaLen host m a)) stop := by
  rw [swapNested, if_pos hlt]
  simp only [if_true, hpayload, bind_some, if_neg hlen]

theorem swapNested_incoming {m₁ : Bytes} (hlt : a < stop)
    (hinside : a + nlaLen host (swapHeader host m a) a ≤ stop)
    (hpayload : swapPayload host (swapNested host false fuel) (swapHeader host m a) a = some m₁)
    (hlen : nlaLen host m₁ a ≠ 0) : swapNested host false (fuel + 1) m a stop
    = swapNested host false fuel m₁
        (a + nlaAlign (nlaLen host (swapHeader host m a) a)) stop := by
  rw [swapNested, if_pos hlt]
  simp only [Bool.false_eq_true, if_false, limit_of_inside hinside, hpayload, bind_some,
    if_neg hlen]

theorem undone_cons
    (header : 4 + (attributePolicy (nlaType .little m a)).numberLen ≤ nlaLen .little m a)
    (inside : a + nlaLen .little m a ≤ stop)
    (nested : attributePolicy (nlaType .little m a) = .nested
      → Undone (swapNested .little true fuel) (swapNested .little false fuel) m (a + 4)
        (a + nlaLen .little m a))
    (rest : Undone (swapNested .little true fuel) (swapNested .little false fuel) m
      (a + nlaAlign (nlaLen .little m a)) stop) :
    Undone (swapNested .little true (fuel + 1)) (swapNested .little false (fuel + 1)) m a stop := by
  intro m' hm'
  have halign := le_nlaAlign (nlaLen .little m a)
  have hhead : Memory.EqOn m' m a (a + 4) := hm'.mono (le_refl a) (by omega)
  -- on its way out: the payload, the header, the rest
  obtain ⟨mA, heqA, hoffA, hundoA⟩ := swapPayload_undone header nested (hm'.mono (le_refl a) inside)
  have hheadA : Memory.EqOn mA m a (a + 4) := (hoffA.eqOn (.inl (le_refl _))).trans hhead
  have hlenA : nlaLen .little mA a = nlaLen .little m a := nlaLen_congr hheadA
  have hlen' : nlaLen .little m' a = nlaLen .little m a := nlaLen_congr hhead
  have hoffB := eqOff_swapHeader .little mA a
  have hrestB : Memory.EqOn (swapHeader .little mA a) m (a + nlaAlign (nlaLen .little m a)) stop :=
    ((hoffB.eqOn (.inr (by omega))).trans (hoffA.eqOn (.inr (by omega)))).trans
    (hm'.mono (by omega) (le_refl _))
  obtain ⟨m₁, heq₁, hoff₁, hundo₁⟩ := rest _ hrestB
  refine ⟨m₁, ?_, ?_, fun m₁' hm₁' => ?_⟩
  · rw [swapNested_outgoing (by omega) heqA (nlaLen_swapHeader_ne_zero (by omega)), hlen', heq₁]
  · exact ((hoff₁.mono (by omega) (le_refl _)).trans
      (hoffB.mono (le_refl _) (by omega))).trans (hoffA.mono (by omega) inside)
  -- on its way in: the header, the payload, the rest
  have hheadC : Memory.EqOn (swapHeader .little m₁' a) m a (a + 4) := by
    have hback : Memory.EqOn m₁' (swapHeader .little mA a) a (a + 4) :=
      (hm₁'.mono (le_refl _) (by omega)).trans (hoff₁.eqOn (.inl (by omega)))
    have hswap : Memory.EqOn (swapHeader .little m₁' a)
      (swapHeader .little (swapHeader .little mA a) a) a (a + 4) := eqOn_swapHeader hback
    rw [swapHeader_swapHeader] at hswap
    exact hswap.trans hheadA
  have hoffC := eqOff_swapHeader .little m₁' a
  have hlenC : nlaLen .little (swapHeader .little m₁' a) a = nlaLen .little m a :=
    nlaLen_congr hheadC
  have hbodyC : Memory.EqOn (swapHeader .little m₁' a) mA (a + 4) (a + nlaLen .little m a) :=
    (((hoffC.eqOn (.inr (le_refl _))).trans (hm₁'.mono (by omega) inside)).trans
    (hoff₁.eqOn (.inl (by omega)))).trans (hoffB.eqOn (.inr (le_refl _)))
  obtain ⟨mD, heqD, honD, hoffD⟩ := hundoA _ hheadC hbodyC
  have hheadD : Memory.EqOn mD m a (a + 4) := (hoffD.eqOn (.inl (le_refl _))).trans hheadC
  have hlenD : nlaLen .little mD a = nlaLen .little m a := nlaLen_congr hheadD
  have hrestD : Memory.EqOn mD m₁ (a + nlaAlign (nlaLen .little m a)) stop :=
    ((hoffD.eqOn (.inr (by omega))).trans (hoffC.eqOn (.inr (by omega)))).trans
    (hm₁'.mono (by omega) (le_refl _))
  obtain ⟨m₂, heq₂, hon₂, hoff₂⟩ := hundo₁ mD hrestD
  refine ⟨m₂, ?_, ?_, ?_⟩
  · rw [swapNested_incoming (by omega) (by omega) heqD (by omega), hlenC, heq₂]
  · -- header, payload, padding and rest
    have hpadding : Memory.EqOn mD m (a + nlaLen .little m a)
        (min (a + nlaAlign (nlaLen .little m a)) stop) :=
        (((((hoffD.eqOn (.inr (le_refl _))).trans (hoffC.eqOn (.inr (by omega)))).trans
        (hm₁'.mono (by omega) (by omega))).trans (hoff₁.eqOn (.inl (by omega)))).trans
        ((hoffB.eqOn (.inr (by omega))).trans (hoffA.eqOn (.inr (le_refl _))))).trans
        (hm'.mono (by omega) (by omega))
    intro i hai his
    rcases lt_or_ge i (a + nlaAlign (nlaLen .little m a)) with hlt | hge
    · rw [hoff₂ i (.inl hlt)]
      exact ((hheadD.append honD).append hpadding) i hai (by omega)
    · exact hon₂ i hge his
  · exact ((hoff₂.mono (by omega) (le_refl _)).trans (hoffD.mono (by omega) inside)).trans
      (hoffC.mono (le_refl _) (by omega))

theorem Attrs.undone (h : Attrs .little m a stop) (hfuel : stop - a < fuel) :
    Undone (swapNested .little true fuel) (swapNested .little false fuel) m a stop := by
  induction h generalizing fuel with
  | @nil a stop h =>
    obtain ⟨fuel, rfl⟩ := Nat.exists_eq_add_of_lt hfuel
    intro m' hm'
    have hend (outgoing : Bool) (m' : Bytes) (k : ℕ) :
        swapNested .little outgoing (k + 1) m' a stop = some m' := by
      rw [swapNested, if_neg (by omega)]
    refine ⟨m', hend .., fun _ _ => rfl, fun m₁' hm₁' => ⟨m₁', hend .., ?_, fun _ _ => rfl⟩⟩
    exact hm₁'.trans hm'
  | @cons a stop header inside nested rest ihnested ihrest =>
    obtain ⟨fuel, rfl⟩ := Nat.exists_eq_add_of_lt hfuel
    have halign := le_nlaAlign (nlaLen .little m a)
    exact undone_cons header inside (fun h => ihnested h (by omega)) (ihrest (by omega))

/-! ## Whatever comes in -/

theorem nlaLen_limit_le (h : a < stop) : a + nlaLen host (limit host m a stop) a ≤ stop := by
  rw [limit]
  split
  · next hpast =>
    have hlt := m.load_lt host 2 a
    have hlen : nlaLen host m a = m.load host 2 a := rfl
    rw [nlaLen, load_store_self, mod_eq_of_lt (by omega)]
    omega
  · next hpast => omega

theorem eqOff_limit (host : ByteOrder) (m : Bytes) (a stop : ℕ) :
    Memory.EqOff (limit host m a stop) m a (a + 4) := by
  rw [limit]
  split
  · exact fun i hi => m.store_of_outside host _ (by omega)
  · exact fun _ _ => rfl

theorem swapPayload_ends (hinside : a + nlaLen host m a ≤ stop)
    (hnested : a + nlaLen host m a ≤ stop → ∃ m', out m (a + 4) (a + nlaLen host m a) = some m'
      ∧ ∀ i < a + 4, m' i = m i) :
    ∃ m', swapPayload host out m a = some m' ∧ ∀ i < a + 4, m' i = m i := by
  have hswap (w : Width) : ∀ i < a + 4, swap host w m (a + 4) i = m i :=
    fun i hi => eqOff_swap host w m (a + 4) i (.inl hi)
  unfold swapPayload
  split
  · exact ⟨_, rfl, fun _ _ => rfl⟩
  · exact ⟨_, rfl, hswap _⟩
  · exact ⟨_, rfl, hswap _⟩
  · exact ⟨_, rfl, hswap _⟩
  · exact hnested hinside
  · exact ⟨_, rfl, fun _ _ => rfl⟩

theorem swapNested_incoming_ends {data : ℕ} (hfuel : stop - data < fuel) (m : Bytes) :
    ∃ m', swapNested host false fuel m data stop = some m' ∧ ∀ i < data, m' i = m i := by
  induction fuel generalizing m data stop with
  | zero => omega
  | succ fuel ih =>
    rw [swapNested]
    split
    · next hlt =>
      simp only [Bool.false_eq_true, if_false]
      have hinside : data + nlaLen host (limit host (swapHeader host m data) data stop) data
          ≤ stop := nlaLen_limit_le hlt
      have hbelow : ∀ i < data, limit host (swapHeader host m data) data stop i = m i := fun i hi =>
        (eqOff_limit host _ data stop i (.inl hi)).trans (eqOff_swapHeader host m data i (.inl hi))
      generalize limit host (swapHeader host m data) data stop = m₀ at hinside hbelow ⊢
      obtain ⟨m₁, hpayload, hkept⟩ : ∃ m₁, swapPayload host (swapNested host false fuel) m₀ data
          = some m₁ ∧ ∀ i < data + 4, m₁ i = m₀ i :=
        swapPayload_ends hinside fun _ => ih (by omega) m₀
      have hlen : nlaLen host m₁ data = nlaLen host m₀ data := nlaLen_congr fun i _ hi => hkept i hi
      have halign := le_nlaAlign (nlaLen host m₀ data)
      rw [hpayload, bind_some, hlen]
      split
      · exact ⟨_, rfl, fun i hi => (hkept i (by omega)).trans (hbelow i hi)⟩
      · have hless : stop - (data + nlaAlign (nlaLen host m₀ data)) < fuel := by omega
        obtain ⟨m₂, heq, hrest⟩ := ih hless m₁
        exact ⟨m₂, heq, fun i hi => (hrest i (by omega)).trans
          ((hkept i (by omega)).trans (hbelow i hi))⟩
    · exact ⟨_, rfl, fun _ _ => rfl⟩

/-! ## Whole messages -/

def wprobeMsgDone : UInt16 := 0
def wprobeMsgData : UInt16 := 1

/-- `struct wprobe_msg_hdr`, which goes before a message. -/
@[ext] structure MsgHdr where
  status : UInt16
  error : UInt16
  len : UInt32
deriving DecidableEq

namespace MsgHdr

def bytes (host : ByteOrder) (mhdr : MsgHdr) : List UInt8 :=
  host.bytes 2 mhdr.status.toNat ++ host.bytes 2 mhdr.error.toNat ++ host.bytes 4 mhdr.len.toNat

/-- The header that a host sees in 8 bytes. -/
def ofBytes (host : ByteOrder) (bs : List UInt8) : MsgHdr where
  status := .ofNat (host.value (bs.take 2))
  error := .ofNat (host.value ((bs.drop 2).take 2))
  len := .ofNat (host.value ((bs.drop 4).take 4))

def swap (host : ByteOrder) (mhdr : MsgHdr) : MsgHdr :=
  match host with
  | .little => ⟨swab16 mhdr.status, swab16 mhdr.error, swab32 mhdr.len⟩
  | .big => mhdr

end MsgHdr

def nlmsgLen (host : ByteOrder) (msg : List UInt8) : ℕ := host.value (msg.take 4)

def msgToNetwork (host : ByteOrder) (buf : Bytes) (msg : List UInt8) : Option (List UInt8) :=
  let buflen := nlmsgLen host msg
  let mhdr := MsgHdr.swap host ⟨wprobeMsgData, 0, .ofNat buflen⟩
  (wprobeSwapNested host true (buf.blit 0 (msg.take buflen)) 20 (buflen - 20)).map fun buf =>
    mhdr.bytes host ++ (swapNlmsghdr host buf 0).slice 0 buflen

def msgFromNetwork (host : ByteOrder) (buf : Bytes) (stream : List UInt8) (len : ℕ) :
    Option (List UInt8 × List UInt8) :=
  if stream.length < len then none
  else
    let nlh := swapNlmsghdr host (buf.blit 0 (stream.take len)) 0
    if len < nlh.load host 4 0 then none
    else (wprobeSwapNested host false nlh 20 (nlh.load host 4 0 - 20)).map fun nlh =>
      (nlh.slice 0 (nlh.load host 4 0), stream.drop len)

structure IsMessage (host : ByteOrder) (msg : List UInt8) : Prop where
  headers : 20 ≤ msg.length
  length : nlmsgLen host msg = msg.length
  attrs : Attrs host (blit (fun _ => 0) 0 msg) 20 msg.length

theorem within_nlmsghdr : Within [(.w32, 0), (.w16, 0 + 4), (.w16, 0 + 6), (.w32, 0 + 8),
    (.w32, 0 + 12)] 0 16 := by
  simp [Within, Width.bytes]

theorem swapNlmsghdr_swapNlmsghdr (host : ByteOrder) (m : Bytes) (a : ℕ) :
    swapNlmsghdr host (swapNlmsghdr host m a) a = m :=
  swapAll_swapAll (by simp [Apart, Width.bytes]) m

theorem eqOff_swapNlmsghdr (host : ByteOrder) (m : Bytes) :
    Memory.EqOff (swapNlmsghdr host m 0) m 0 16 := eqOff_swapAll within_nlmsghdr m

theorem eqOn_swapNlmsghdr {n : ℕ} (hn : 16 ≤ n) (h : Memory.EqOn m m' 0 n) :
    Memory.EqOn (swapNlmsghdr host m 0) (swapNlmsghdr host m' 0) 0 n :=
  eqOn_swapAll (fun p hp => ⟨(within_nlmsghdr p hp).1, (within_nlmsghdr p hp).2.trans hn⟩) h

theorem load_blit_msg {msg : List UInt8} (host : ByteOrder) (buf : Bytes)
    (h : 4 ≤ msg.length) : (buf.blit 0 msg).load host 4 0 = nlmsgLen host msg := by
  have hslice := buf.slice_blit_self 0 msg
  obtain ⟨k, hk⟩ := Nat.exists_eq_add_of_le h
  rw [hk, slice_add] at hslice
  have hfour : msg.take 4 = (buf.blit 0 msg).slice 0 4 := by
    rw [← hslice, take_left' (length_slice ..), hslice]
  rw [load, nlmsgLen, hfour]

theorem msgFromNetwork_of_isMessage {msg : List UInt8} (h : IsMessage .little msg) (buf : Bytes) :
    ∃ wire, msgToNetwork .little buf msg
        = some ((MsgHdr.swap .little ⟨wprobeMsgData, 0, .ofNat msg.length⟩).bytes .little ++ wire)
      ∧ wire.length = msg.length
      ∧ ∀ buf' rest, msgFromNetwork .little buf' (wire ++ rest) msg.length = some (msg, rest) := by
  have hlen := h.headers
  have hbuf := buf.slice_blit_self 0 msg
  have hon : Memory.EqOn (buf.blit 0 msg) (blit (fun _ => 0) 0 msg) 20 msg.length :=
    (buf.eqOn_blit (fun _ => 0) 0 msg).mono (zero_le _) (by omega)
  have hstop : 20 + (msg.length - 20) = msg.length := by omega
  have hfuel : msg.length - 20 < msg.length - 20 + 1 := lt_succ_self _
  obtain ⟨m₁, heq₁, hoff₁, hundo₁⟩ := h.attrs.undone hfuel _ hon
  have hoffW := eqOff_swapNlmsghdr .little m₁
  refine ⟨(swapNlmsghdr .little m₁ 0).slice 0 msg.length, ?_, length_slice .., fun buf' rest => ?_⟩
  · rw [msgToNetwork, h.length, take_length]
    simp only [wprobeSwapNested, hstop, heq₁, map_some]
  · -- the headers are swapped back, and then the attributes
    have hwire : ((swapNlmsghdr .little m₁ 0).slice 0 msg.length).length = msg.length :=
      length_slice ..
    have honW := buf'.eqOn_blit_slice (swapNlmsghdr .little m₁ 0) 0 msg.length
    rw [zero_add] at honW
    generalize (swapNlmsghdr .little m₁ 0).slice 0 msg.length = wire at hwire honW ⊢
    have honC : Memory.EqOn (swapNlmsghdr .little (buf'.blit 0 wire) 0) m₁ 0 msg.length := by
      have hswap : Memory.EqOn (swapNlmsghdr .little (buf'.blit 0 wire) 0)
        (swapNlmsghdr .little (swapNlmsghdr .little m₁ 0) 0) 0 msg.length :=
        eqOn_swapNlmsghdr (by omega) honW
      rwa [swapNlmsghdr_swapNlmsghdr] at hswap
    obtain ⟨m₂, heq₂, hon₂, hoff₂⟩ := hundo₁ _ (honC.mono (zero_le _) (le_refl _))
    -- the headers of the message are outside the attributes
    have hhead : Memory.EqOn m₂ (buf.blit 0 msg) 0 20 :=
      ((hoff₂.eqOn (.inl (le_refl _))).trans (honC.mono (le_refl _) hlen)).trans
      (hoff₁.eqOn (.inl (le_refl _)))
    have hload (m : Bytes) (hm : Memory.EqOn m (buf.blit 0 msg) 0 20) :
        m.load .little 4 0 = msg.length := by
      rw [hm.load_eq .little (le_refl _) (by omega), load_blit_msg .little buf (by omega), h.length]
    have hloadC : (swapNlmsghdr .little (buf'.blit 0 wire) 0).load .little 4 0 = msg.length :=
      hload _ ((honC.mono (le_refl _) hlen).trans (hoff₁.eqOn (.inl (le_refl _))))
    have hmsg : m₂.slice 0 msg.length = msg := by
      have hall : Memory.EqOn m₂ (buf.blit 0 msg) 0 msg.length := hhead.append (hon₂.trans hon.symm)
      rw [hall.slice_eq (by omega) (le_refl _), hbuf]
    rw [msgFromNetwork, if_neg (by simp [hwire]), take_left' hwire, drop_left' hwire]
    dsimp only
    rw [hloadC, if_neg (lt_irrefl _), wprobeSwapNested, hstop, heq₂]
    show some (m₂.slice 0 (m₂.load .little 4 0), rest) = _
    rw [hload m₂ hhead, hmsg]

/-- **The codec is an involution with itself**: attributes swapped on their
way out come back from the way in, so does the netlink header, and so does a
whole message. -/
theorem wprobe_codec_round_trip : (∀ (m : Bytes) (data len : ℕ), Attrs .little m data (data + len)
      → ∃ m₁, wprobeSwapNested .little true m data len = some m₁
        ∧ wprobeSwapNested .little false m₁ data len = some m)
    ∧ (∀ (m : Bytes) (a : ℕ), swapNlmsghdr .little (swapNlmsghdr .little m a) a = m)
    ∧ ∀ msg, IsMessage .little msg → ∀ buf : Bytes,
      ∃ wire, msgToNetwork .little buf msg
          = some ((MsgHdr.swap .little ⟨wprobeMsgData, 0, .ofNat msg.length⟩).bytes .little ++ wire)
        ∧ wire.length = msg.length
        ∧ ∀ buf' rest, msgFromNetwork .little buf' (wire ++ rest) msg.length
          = some (msg, rest) := by
  refine ⟨fun m data len h => ?_, swapNlmsghdr_swapNlmsghdr .little,
    fun msg h => msgFromNetwork_of_isMessage h⟩
  have hfuel : data + len - data < len + 1 := by omega
  obtain ⟨m₁, heq₁, hoff₁, hundo⟩ := h.undone hfuel m fun _ _ _ => rfl
  obtain ⟨m₂, heq₂, hon₂, hoff₂⟩ := hundo m₁ fun _ _ _ => rfl
  have hback : m₂ = m := eq_of_eqOn hon₂ (hoff₂.trans hoff₁)
  exact ⟨m₁, heq₁, hback ▸ heq₂⟩

def nestedMessage : List UInt8 :=
  [63, 0, 0, 0, 0x1c, 0, 2, 0, 1, 0, 0, 0, 0x39, 0x30, 0, 0, 7, 1, 0, 0,
    8, 0, 4, 0, 1, 2, 3, 4,
    28, 0, 27, 0x80, 6, 0, 14, 0, 5, 6, 0, 0, 16, 0, 27, 0, 12, 0, 28, 0, 1, 2, 3, 4, 5, 6, 7, 8,
    7, 0, 5, 0, 0x61, 0x62, 0]

theorem isMessage_nestedMessage : IsMessage .little nestedMessage := by
  refine ⟨by decide, by decide, ?_⟩
  -- the identifier, the group and the name
  refine .cons (by decide) (by decide) (fun h => absurd h (by decide)) ?_
  refine .cons (by decide) (by decide) (fun _ => ?_) ?_
  · -- the value and the inner group
    refine .cons (by decide) (by decide) (fun h => absurd h (by decide)) ?_
    refine .cons (by decide) (by decide) (fun _ => ?_) (.nil (by decide))
    exact .cons (by decide) (by decide) (fun h => absurd h (by decide)) (.nil (by decide))
  · exact .cons (by decide) (by decide) (fun h => absurd h (by decide)) (.nil (by decide))

/-- It comes back. -/
theorem wprobe_codec_round_trip_nestedMessage :
    ∃ wire, msgToNetwork .little (fun _ => 0) nestedMessage
        = some ((MsgHdr.swap .little ⟨wprobeMsgData, 0, 63⟩).bytes .little ++ wire)
      ∧ wire.length = 63
      ∧ ∀ buf' rest, msgFromNetwork .little buf' (wire ++ rest) 63 = some (nestedMessage, rest) :=
  wprobe_codec_round_trip.2.2 nestedMessage isMessage_nestedMessage fun _ => 0

end Wprobe
