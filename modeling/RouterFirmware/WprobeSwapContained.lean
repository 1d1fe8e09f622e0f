import RouterFirmware.WprobeWire

/-!
# What swapping a received message touches

A message that comes from the network is swapped before anything in it has been
checked.
-/

namespace Wprobe

open Nat List Memory Option ByteOrder

variable {host : ByteOrder} {m : Bytes} {a stop last fuel : ℕ} (hfuel : stop - a < fuel)

/-! ## What is touched -/

def received (host : ByteOrder) (m : Bytes) (a stop : ℕ) : Bytes :=
  limit host (swapHeader host m a) a stop

/-- What swapping the payload of an attribute touches. -/
def payloadTouches (host : ByteOrder) (nested : Bytes → ℕ → ℕ → List (ℕ × ℕ))
    (m : Bytes) (a : ℕ) : List (ℕ × ℕ) :=
  match host, attributePolicy (nlaType host m a) with
  | .big, _ => []
  | .little, .u16 => [(a + 4, 2)]
  | .little, .u32 => [(a + 4, 4)]
  | .little, .u64 => [(a + 4, 8)]
  | .little, .nested => nested m (a + 4) (a + nlaLen host m a)
  | .little, _ => []

/-- **What `wprobe_swap_nested` touches** in a message that has come in. -/
def touches (host : ByteOrder) : ℕ → Bytes → ℕ → ℕ → List (ℕ × ℕ)
  | 0, _, _, _ => []
  | fuel + 1, m, data, stop =>
    if data < stop then
      let m := received host m data stop
      let len := nlaAlign (nlaLen host m data)
      (data, 4) :: payloadTouches host (touches host fuel) m data
        ++ match swapPayload host (swapNested host false fuel) m data with
          | none => []
          | some m => if nlaLen host m data = 0 then [] else touches host fuel m (data + len) stop
    else []

/-- **Nothing outside the message is touched.** -/
def SwapContained (host : ByteOrder) (m : Bytes) (data len : ℕ) : Prop :=
  ∀ t ∈ touches host (len + 1) m data (data + len), data ≤ t.1 ∧ t.1 + t.2 ≤ data + len

/-! ## Where the lengths lead -/

/-- The bytes of the number in an attribute that are swapped. -/
def swappedLen (host : ByteOrder) (type : ℕ) : ℕ :=
  match host with
  | .little => (attributePolicy type).numberLen
  | .big => 0

def swapNumber (host : ByteOrder) (type : ℕ) (m : Bytes) (a : ℕ) : Bytes :=
  match (attributePolicy type).width with
  | some w => swap host w m (a + 4)
  | none => m

def SwapsNested (host : ByteOrder) (type : ℕ) : Prop :=
  host = .little ∧ attributePolicy type = .nested

instance (host : ByteOrder) (type : ℕ) : Decidable (SwapsNested host type) :=
  inferInstanceAs (Decidable (_ ∧ _))

/-- Where reading goes on behind an attribute. -/
def nextRead (a len stop : ℕ) : ℕ := if len = 0 then stop else min (a + nlaAlign len) stop

/-- **The walk through the attributes** from an address to the end of their parent. -/
def attrWalk (host : ByteOrder) (last : ℕ) : ℕ → Bytes → ℕ → ℕ → Option Bytes
  | 0, _, _, _ => none
  | fuel + 1, m, a, stop =>
    if a < stop then
      let len := min (m.load .big 2 a) (stop - a)
      let type := m.load .big 2 (a + 2) % 0x4000
      let behind := a + 4 + swappedLen host type
      if last < behind then none
      else
        let m := if behind ≤ nextRead a len stop then m
          else swapNumber host type (received host m a stop) a
        (if SwapsNested host type then attrWalk host last fuel m (a + 4) (a + len) else some m).bind
          fun m => if len = 0 then some m else attrWalk host last fuel m (a + nlaAlign len) stop
    else some m

/-- **No header and no number on the way through a message passes its
end.** -/
def StaysInside (host : ByteOrder) (m : Bytes) (data len : ℕ) : Prop :=
  (attrWalk host (data + len) (len + 1) m data (data + len)).isSome

/-! ## Headers -/

theorem swab_w16 (lo hi : UInt8) :
    Width.w16.swab (lo.toNat + 256 * hi.toNat) = hi.toNat + 256 * lo.toNat := by
  have hlo := lo.toNat_lt
  have hhi := hi.toNat_lt
  have hval : (lo.toNat + 256 * hi.toNat) % 65536 = lo.toNat + 256 * hi.toNat := by omega
  have hleft : (lo.toNat + 256 * hi.toNat) * 256 % 65536 = lo.toNat * 256 := by omega
  have hright : (lo.toNat + 256 * hi.toNat) / 256 = hi.toNat := by omega
  have hor := shiftLeft_add_eq_or_of_lt (i := 8) hhi lo.toNat
  rw [Width.swab, swab16, UInt16.toNat_or, UInt16.toNat_shiftLeft, UInt16.toNat_shiftRight]
  simp only [UInt16.toNat_ofNat', reducePow, shiftLeft_eq, shiftRight_eq_div_pow,
    UInt16.reduceToNat, hval, reduceMod, hleft, hright] at hor ⊢
  omega

theorem swab_load (m : Bytes) (a : ℕ) : Width.w16.swab (m.load .little 2 a) = m.load .big 2 a := by
  have hlittle : m.load .little 2 a = (m a).toNat + 256 * (m (a + 1)).toNat := by
    simp only [load, value, slice_succ, slice_zero, leValue, mul_zero, add_zero]
  have hbig : m.load .big 2 a = (m (a + 1)).toNat + 256 * (m a).toNat := by
    simp only [load, value, slice_succ, slice_zero, leValue, mul_zero, add_zero, reverse_cons,
      reverse_nil, nil_append, cons_append]
  rw [hlittle, hbig, swab_w16]

theorem nlaLen_swapHeader (host : ByteOrder) (m : Bytes) (a : ℕ) :
    nlaLen host (swapHeader host m a) a = m.load .big 2 a := by
  cases host with
  | big => rfl
  | little =>
    have hoff := eqOff_swap .little .w16 (swap .little .w16 m a) (a + 2)
    have hsecond := (hoff.eqOn (c := 0) (.inl (le_refl _))).load_eq .little (zero_le a) (le_refl _)
    exact hsecond.trans ((load_swap_self .w16 m a).trans (swab_load m a))

theorem load_type_swapHeader (host : ByteOrder) (m : Bytes) (a : ℕ) :
    (swapHeader host m a).load host 2 (a + 2) = m.load .big 2 (a + 2) := by
  cases host with
  | big => rfl
  | little =>
    have hoff := eqOff_swap .little .w16 m a
    have hfirst : (swap .little .w16 m a).load .little 2 (a + 2) = m.load .little 2 (a + 2) :=
      (hoff.eqOn (c := a + 2) (d := a + 4) (.inr (le_refl _))).load_eq .little (le_refl _)
      (le_refl _)
    refine (load_swap_self .w16 (swap .little .w16 m a) (a + 2)).trans ?_
    exact (congrArg Width.w16.swab hfirst).trans (swab_load m (a + 2))

theorem eqOff_received (host : ByteOrder) (m : Bytes) (a stop : ℕ) :
    Memory.EqOff (received host m a stop) m a (a + 4) :=
  (eqOff_limit host _ a stop).trans (eqOff_swapHeader host m a)

theorem received_header {m' : Bytes} (host : ByteOrder) (h : Memory.EqOn m' m a (a + 4))
    (hlt : a < stop) : nlaLen host (received host m' a stop) a = min (m.load .big 2 a) (stop - a)
    ∧ nlaType host (received host m' a stop) a = m.load .big 2 (a + 2) % 0x4000 := by
  have hlen : nlaLen host (swapHeader host m' a) a = m.load .big 2 a :=
    (nlaLen_swapHeader host m' a).trans (h.load_eq .big (le_refl _) (by omega))
  have htype : (swapHeader host m' a).load host 2 (a + 2) = m.load .big 2 (a + 2) :=
    (load_type_swapHeader host m' a).trans (h.load_eq .big (by omega) (by omega))
  have hbound := m.load_lt .big 2 a
  unfold received limit
  split
  · next hpast =>
    rw [hlen] at hpast
    constructor
    · rw [nlaLen, load_store_self, mod_eq_of_lt (by omega)]
      omega
    · rw [nlaType, load_store_of_disjoint _ _ _ (by omega), htype]
  · next hpast =>
    rw [hlen] at hpast
    exact ⟨by omega, congrArg (· % 0x4000) htype⟩

theorem eqOn_received {m' : Bytes} (h : Memory.EqOn m' m a (a + 4)) :
    Memory.EqOn (received host m' a stop) (received host m a stop) a (a + 4) := by
  have hswapped : Memory.EqOn (swapHeader host m' a) (swapHeader host m a) a (a + 4) :=
    eqOn_swapHeader h
  have hlen : nlaLen host (swapHeader host m' a) a = nlaLen host (swapHeader host m a) a :=
    nlaLen_congr hswapped
  unfold received limit
  rw [hlen]
  split
  · exact hswapped.blit a _
  · exact hswapped

/-! ## Numbers -/

variable {type : ℕ}

theorem swappedLen_of_nested (h : SwapsNested host type) : swappedLen host type = 0 := by
  rw [h.1, swappedLen, h.2]
  rfl

theorem swapNumber_of_nested (h : SwapsNested host type) (m : Bytes) (a : ℕ) :
    swapNumber host type m a = m := by
  rw [swapNumber, h.2]
  rfl

theorem eqOff_swapNumber (host : ByteOrder) (type : ℕ) (m : Bytes) (a : ℕ) :
    Memory.EqOff (swapNumber host type m a) m (a + 4) (a + 4 + swappedLen host type) := by
  unfold swapNumber
  split
  · next w hw =>
    cases host with
    | big => exact fun _ _ => rfl
    | little =>
      rw [swappedLen, NlaType.numberLen_of_width hw]
      exact eqOff_swap .little w m (a + 4)
  · exact fun _ _ => rfl

theorem eqOn_swapNumber {m' : Bytes} {b : ℕ} (h : Memory.EqOn m' m a b)
    (hb : a + 4 + swappedLen host type ≤ b) :
    Memory.EqOn (swapNumber host type m' a) (swapNumber host type m a) a b := by
  unfold swapNumber
  split
  · next w hw =>
    cases host with
    | big => exact h
    | little =>
      rw [swappedLen, NlaType.numberLen_of_width hw] at hb
      exact eqOn_swap h (by omega) hb
  · exact h

theorem swapPayload_eq (out : Bytes → ℕ → ℕ → Option Bytes) (m : Bytes) (a : ℕ) :
    swapPayload host out m a = if SwapsNested host (nlaType host m a)
      then out m (a + 4) (a + nlaLen host m a)
      else some (swapNumber host (nlaType host m a) m a) := by
  by_cases h : SwapsNested host (nlaType host m a)
  · rw [if_pos h]
    obtain ⟨rfl, hnested⟩ := h
    exact swapPayload_nested hnested
  · rw [if_neg h]
    cases host with
    | big =>
      unfold swapNumber
      split <;> rfl
    | little =>
      have hother : attributePolicy (nlaType .little m a) ≠ .nested := fun hn => h ⟨rfl, hn⟩
      unfold swapNumber
      split
      · next w hw => exact swapPayload_number hw
      · next hw => exact swapPayload_other hw hother

theorem payloadTouches_eq (nested : Bytes → ℕ → ℕ → List (ℕ × ℕ)) (m : Bytes) (a : ℕ) :
    payloadTouches host nested m a = if SwapsNested host (nlaType host m a)
      then nested m (a + 4) (a + nlaLen host m a)
      else if swappedLen host (nlaType host m a) = 0 then []
      else [(a + 4, swappedLen host (nlaType host m a))] := by
  by_cases h : SwapsNested host (nlaType host m a)
  · rw [if_pos h]
    obtain ⟨rfl, hnested⟩ := h
    unfold payloadTouches
    rw [hnested]
  · rw [if_neg h]
    cases host with
    | big => rfl
    | little =>
      have hother : attributePolicy (nlaType .little m a) ≠ .nested := fun hn => h ⟨rfl, hn⟩
      unfold payloadTouches swappedLen
      cases htype : attributePolicy (nlaType .little m a) <;>
        first | rfl | exact absurd htype hother

/-! ## One turn -/

theorem swapNested_turn (host : ByteOrder) (hlt : a < stop) (hfuel : stop - a < fuel + 1)
    (m : Bytes) : ∃ len type m₀ m₁, len = nlaLen host (received host m a stop) a
    ∧ type = nlaType host (received host m a stop) a
    ∧ m₀ = swapNumber host type (received host m a stop) a
    ∧ (if SwapsNested host type then swapNested host false fuel m₀ (a + 4) (a + len) else some m₀)
      = some m₁
    ∧ swapNested host false (fuel + 1) m a stop
      = (if len = 0 then some m₁ else swapNested host false fuel m₁ (a + nlaAlign len) stop)
    ∧ touches host (fuel + 1) m a stop = (a, 4) ::
      (if SwapsNested host type then touches host fuel m₀ (a + 4) (a + len)
        else if swappedLen host type = 0 then [] else [(a + 4, swappedLen host type)])
      ++ if len = 0 then [] else touches host fuel m₁ (a + nlaAlign len) stop := by
  have hinside : a + nlaLen host (received host m a stop) a ≤ stop := nlaLen_limit_le hlt
  obtain ⟨m₁, hpayload, hkept⟩ : ∃ m₁, swapPayload host (swapNested host false fuel)
      (received host m a stop) a = some m₁ ∧ ∀ i < a + 4, m₁ i = received host m a stop i :=
    swapPayload_ends hinside fun _ => swapNested_incoming_ends (by omega) _
  have hlen : nlaLen host m₁ a = nlaLen host (received host m a stop) a :=
    nlaLen_congr fun i _ hi => hkept i hi
  refine ⟨_, _, _, m₁, rfl, rfl, rfl, ?_, ?_, ?_⟩
  · rw [← hpayload, swapPayload_eq]
    split
    · next hnested => rw [swapNumber_of_nested hnested]
    · rfl
  · rw [swapNested, if_pos hlt]
    simp only [Bool.false_eq_true, if_false]
    rw [show limit host (swapHeader host m a) a stop = received host m a stop from rfl, hpayload,
      bind_some, hlen]
  · rw [touches, if_pos hlt]
    simp only [hpayload, hlen, payloadTouches_eq]
    split
    · next hnested => rw [swapNumber_of_nested hnested]
    · rfl

/-- The message as the walk has it behind the number of an attribute. -/
def walked (host : ByteOrder) (m : Bytes) (a stop len type : ℕ) : Bytes :=
  if a + 4 + swappedLen host type ≤ nextRead a len stop then m
  else swapNumber host type (received host m a stop) a

theorem attrWalk_turn {len : ℕ} (hlt : a < stop) (hlen : len = min (m.load .big 2 a) (stop - a))
    (htype : type = m.load .big 2 (a + 2) % 0x4000) :
    attrWalk host last (fuel + 1) m a stop = if last < a + 4 + swappedLen host type then none
      else (if SwapsNested host type
          then attrWalk host last fuel (walked host m a stop len type) (a + 4) (a + len)
          else some (walked host m a stop len type)).bind fun m =>
        if len = 0 then some m else attrWalk host last fuel m (a + nlaAlign len) stop := by
  subst hlen htype
  rw [attrWalk, if_pos hlt]
  rfl

theorem eqOn_walked {m' : Bytes} (host : ByteOrder) (hlt : a < stop)
    (heq : Memory.EqOn m' m a last) (len : ℕ) (hlast : a + 4 + swappedLen host type ≤ last) :
    Memory.EqOn (swapNumber host type (received host m' a stop) a) (walked host m a stop len type)
      (min (nextRead a len stop) (a + 4 + swappedLen host type)) last := by
  have hnumber (m : Bytes) := eqOff_swapNumber host type (received host m a stop) a
  have hheader (m : Bytes) := eqOff_received host m a stop
  have hfrom : a ≤ nextRead a len stop := by
    unfold nextRead
    split <;> omega
  unfold walked
  split
  · intro i hi hilast
    rw [hnumber m' i (by omega), hheader m' i (by omega)]
    exact heq i (by omega) hilast
  · have hrec : Memory.EqOn (received host m' a stop) (received host m a stop) a last := by
      refine (eqOn_received (heq.mono (le_refl _) (by omega))).append fun i hi hilast => ?_
      rw [hheader m' i (by omega), hheader m i (by omega)]
      exact heq i (by omega) hilast
    exact (eqOn_swapNumber hrec hlast).mono (by omega) (le_refl _)

theorem le_nextRead {len : ℕ} (hlen : a + len ≤ stop) (hne : len ≠ 0) :
    a + len ≤ nextRead a len stop := by
  have halign := le_nlaAlign len
  rw [nextRead, if_neg hne]
  omega

theorem swappedLen_touch (hlast : a + 4 + swappedLen host type ≤ last) :
    ∀ t ∈ if swappedLen host type = 0 then [] else [(a + 4, swappedLen host type)],
      a ≤ t.1 ∧ t.1 + t.2 ≤ last := by
  intro t ht
  split at ht
  · cases ht
  · cases mem_singleton.mp ht
    exact ⟨le_add_right a 4, hlast⟩

theorem payload_some {m'' v v' : Bytes} {len : ℕ} (hlen : a + len ≤ stop)
    (hfuel : 0 < fuel) (hlast : a + 4 + swappedLen host type ≤ last)
    (hview : Memory.EqOn m v (min (nextRead a len stop) (a + 4 + swappedLen host type)) last)
    (hnested : SwapsNested host type → 4 ≤ len → Memory.EqOn m v (min (a + 4) (a + len)) last →
      attrWalk host last fuel v (a + 4) (a + len) = some v' → swapNested host false fuel m (a + 4)
        (a + len) = some m'' → (∀ t ∈ touches host fuel m (a + 4) (a + len), a + 4 ≤ t.1
          ∧ t.1 + t.2 ≤ last) ∧ Memory.EqOn m'' v' (a + len) last)
    (hwalk : (if SwapsNested host type then attrWalk host last fuel v (a + 4) (a + len) else some v)
      = some v')
    (hrun : (if SwapsNested host type then swapNested host false fuel m (a + 4)
      (a + len) else some m) = some m'') :
    (∀ t ∈ if SwapsNested host type then touches host fuel m (a + 4) (a + len)
      else if swappedLen host type = 0 then [] else [(a + 4, swappedLen host type)],
    a ≤ t.1 ∧ t.1 + t.2 ≤ last)
    ∧ Memory.EqOn m'' v' (nextRead a len stop) last := by
  by_cases hcall : SwapsNested host type
  · rw [if_pos hcall] at hwalk hrun ⊢
    rw [swappedLen_of_nested hcall] at hview
    by_cases hroom : 4 ≤ len
    · obtain ⟨htouches, hafter⟩ := hnested hcall hroom
        (hview.mono (by omega) (le_refl _)) hwalk hrun
      exact ⟨fun t ht => ⟨by have := (htouches t ht).1; omega, (htouches t ht).2⟩,
        hafter.mono (le_nextRead hlen (by omega)) (le_refl _)⟩
    · -- the call has nothing to do
      obtain ⟨fuel, rfl⟩ := exists_eq_succ_of_ne_zero hfuel.ne'
      have hempty : ¬ a + 4 < a + len := by omega
      rw [attrWalk, if_neg hempty] at hwalk
      rw [swapNested, if_neg hempty] at hrun
      rw [touches, if_neg hempty]
      cases hwalk
      cases hrun
      exact ⟨by simp, hview.mono (min_le_left _ _) (le_refl _)⟩
  · rw [if_neg hcall] at hwalk hrun ⊢
    cases hwalk
    cases hrun
    exact ⟨swappedLen_touch hlast, hview.mono (min_le_left _ _) (le_refl _)⟩

/-! ## Whole messages -/

include hfuel

theorem attrWalk_some {m'' v v' : Bytes} (hstop : stop ≤ last)
    (heq : Memory.EqOn m v (min a stop) last) (hwalk : attrWalk host last fuel v a stop = some v')
    (hrun : swapNested host false fuel m a stop = some m'') :
    (∀ t ∈ touches host fuel m a stop, a ≤ t.1 ∧ t.1 + t.2 ≤ last)
      ∧ Memory.EqOn m'' v' stop last := by
  induction fuel generalizing a stop m m'' v v' with
  | zero => omega
  | succ fuel ih =>
    by_cases hlt : a < stop
    · rw [min_eq_left hlt.le] at heq
      by_cases hheader : last < a + 4
      · rw [attrWalk_turn hlt rfl rfl, if_pos (by omega)] at hwalk
        cases hwalk
      obtain ⟨len, type, m₀, m₁, hlen, htype, hm₀, hpayload, hturn, htouches⟩ :=
        swapNested_turn host hlt hfuel m
      obtain ⟨hlen', htype'⟩ := received_header host (heq.mono (le_refl _) (by omega)) hlt
      rw [hlen'] at hlen
      rw [htype'] at htype
      rw [attrWalk_turn hlt hlen htype] at hwalk
      split at hwalk
      · cases hwalk
      next hlast =>
      obtain ⟨v₁, hwalked, hrest⟩ := bind_eq_some_iff.mp hwalk
      have hinside : a + len ≤ stop := by omega
      have hview := eqOn_walked host hlt heq len (Nat.le_of_not_lt hlast)
      rw [← hm₀] at hview
      obtain ⟨hfirst, hnext⟩ := payload_some hinside (by omega) (Nat.le_of_not_lt hlast) hview
        (fun _ _ hsame => ih (by omega) (by omega) hsame) hwalked hpayload
      have hfirstTouch {t : ℕ × ℕ} (ht : t = (a, 4)) : a ≤ t.1 ∧ t.1 + t.2 ≤ last :=
        ht ▸ ⟨Nat.le_refl a, Nat.le_of_not_lt hheader⟩
      rw [htouches]
      rw [hturn] at hrun
      by_cases hzero : len = 0
      · rw [if_pos hzero] at hrun hrest ⊢
        rw [nextRead, if_pos hzero] at hnext
        cases hrun
        cases hrest
        rw [append_nil]
        exact ⟨fun t ht => (mem_cons.mp ht).elim hfirstTouch (hfirst t), hnext⟩
      · rw [if_neg hzero] at hrun hrest ⊢
        rw [nextRead, if_neg hzero] at hnext
        have halign := le_nlaAlign len
        obtain ⟨hlater, hend⟩ := ih (by omega) hstop hnext hrest hrun
        refine ⟨fun t ht => ?_, hend⟩
        rcases mem_append.mp ht with hhere | hthere
        · exact (mem_cons.mp hhere).elim hfirstTouch (hfirst t)
        · exact ⟨by have := (hlater t hthere).1; omega, (hlater t hthere).2⟩
    · rw [touches, if_neg hlt]
      rw [swapNested, if_neg hlt] at hrun
      rw [attrWalk, if_neg hlt] at hwalk
      cases hrun
      cases hwalk
      exact ⟨by simp, heq.mono (by omega) (le_refl _)⟩

theorem attrWalk_none {v : Bytes} (hstop : stop ≤ last)
    (heq : Memory.EqOn m v (min a stop) last) (hwalk : attrWalk host last fuel v a stop = none) :
    ∃ t ∈ touches host fuel m a stop, last < t.1 + t.2 := by
  induction fuel generalizing a stop m v with
  | zero => omega
  | succ fuel ih =>
    by_cases hlt : a < stop
    · rw [min_eq_left hlt.le] at heq
      obtain ⟨len, type, m₀, m₁, hlen, htype, hm₀, hpayload, -, htouches⟩ :=
        swapNested_turn host hlt hfuel m
      rw [htouches]
      by_cases hheader : last < a + 4
      · exact ⟨(a, 4), by simp, hheader⟩
      obtain ⟨hlen', htype'⟩ := received_header host (heq.mono (le_refl _) (by omega)) hlt
      rw [hlen'] at hlen
      rw [htype'] at htype
      rw [attrWalk_turn hlt hlen htype] at hwalk
      split at hwalk
      · next hnumber =>
        have hsome : swappedLen host type ≠ 0 := by omega
        have hcall : ¬ SwapsNested host type := fun h => hsome (swappedLen_of_nested h)
        rw [if_neg hcall, if_neg hsome]
        exact ⟨(a + 4, swappedLen host type), by simp, hnumber⟩
      next hlast =>
      have hinside : a + len ≤ stop := by omega
      have hview := eqOn_walked host hlt heq len (Nat.le_of_not_lt hlast)
      rw [← hm₀] at hview
      cases hwalked : (if SwapsNested host type
          then attrWalk host last fuel (walked host v a stop len type) (a + 4) (a + len)
          else some (walked host v a stop len type)) with
      | none =>
        by_cases hcall : SwapsNested host type
        · rw [if_pos hcall] at hwalked ⊢
          rw [swappedLen_of_nested hcall] at hview
          by_cases hroom : 4 ≤ len
          · obtain ⟨t, ht, hpast⟩ := ih (by omega) (by omega)
              (hview.mono (by omega) (le_refl _)) hwalked
            exact ⟨t, mem_append_left _ (mem_cons_of_mem _ ht), hpast⟩
          · obtain ⟨fuel, rfl⟩ := exists_eq_succ_of_ne_zero (show fuel ≠ 0 by omega)
            rw [attrWalk, if_neg (by omega)] at hwalked
            cases hwalked
        · rw [if_neg hcall] at hwalked
          cases hwalked
      | some v₁ =>
        rw [hwalked, bind_some] at hwalk
        have hnext := (payload_some hinside (by omega) (Nat.le_of_not_lt hlast) hview
          (fun _ _ hsame => attrWalk_some (by omega) (by omega) hsame) hwalked hpayload).2
        by_cases hzero : len = 0
        · rw [if_pos hzero] at hwalk
          cases hwalk
        · rw [if_neg hzero] at hwalk ⊢
          rw [nextRead, if_neg hzero] at hnext
          have halign := le_nlaAlign len
          obtain ⟨t, ht, hpast⟩ := ih (by omega) hstop hnext hwalk
          exact ⟨t, mem_append_right _ ht, hpast⟩
    · rw [attrWalk, if_neg hlt] at hwalk
      cases hwalk

theorem swapNested_untouched {m'' : Bytes}
    (hrun : swapNested host false fuel m a stop = some m'') {i : ℕ}
    (hi : ∀ t ∈ touches host fuel m a stop, i < t.1 ∨ t.1 + t.2 ≤ i) : m'' i = m i := by
  induction fuel generalizing a stop m m'' with
  | zero => omega
  | succ fuel ih =>
    by_cases hlt : a < stop
    · obtain ⟨len, type, m₀, m₁, hlen, htype, hm₀, hpayload, hturn, htouches⟩ :=
        swapNested_turn host hlt hfuel m
      rw [htouches] at hi
      rw [hturn] at hrun
      have hinside : a + len ≤ stop := hlen ▸ nlaLen_limit_le hlt
      have hhere {t : ℕ × ℕ} (ht : t ∈ (if SwapsNested host type
          then touches host fuel m₀ (a + 4) (a + len)
          else if swappedLen host type = 0 then [] else [(a + 4, swappedLen host type)])) :
          i < t.1 ∨ t.1 + t.2 ≤ i := hi t (mem_append_left _ (mem_cons_of_mem _ ht))
      have hheader : received host m a stop i = m i :=
        eqOff_received host m a stop i (hi (a, 4) (by simp))
      have hpayload' : m₁ i = m i := by
        by_cases hcall : SwapsNested host type
        · rw [if_pos hcall] at hpayload hhere
          rw [swapNumber_of_nested hcall] at hm₀
          exact (ih (by omega) hpayload fun t ht => hhere ht).trans (hm₀ ▸ hheader)
        · rw [if_neg hcall] at hpayload hhere
          cases hpayload
          have hoff : i < a + 4 ∨ a + 4 + swappedLen host type ≤ i := by
            by_cases hsome : swappedLen host type = 0
            · omega
            · rw [if_neg hsome] at hhere
              exact hhere (mem_singleton_self _)
          rw [hm₀, eqOff_swapNumber host type _ a i hoff]
          exact hheader
      split at hrun
      · cases hrun
        exact hpayload'
      · next hzero =>
        rw [if_neg hzero] at hi
        have halign := le_nlaAlign len
        exact (ih (by omega) hrun fun t ht => hi t (mem_append_right _ ht)).trans hpayload'
    · rw [swapNested, if_neg hlt] at hrun
      cases hrun
      rfl

omit hfuel

/-- **What swapping a received message touches.** It comes to an end and
changes nothing but what it touches, and this is inside the message exactly if
no header and no number on the way through it passes its end. -/
theorem swapContained_iff (host : ByteOrder) (m : Bytes) (data len : ℕ) :
    (∃ m', wprobeSwapNested host false m data len = some m'
        ∧ ∀ i, (∀ t ∈ touches host (len + 1) m data (data + len), i < t.1 ∨ t.1 + t.2 ≤ i) →
          m' i = m i)
      ∧ (SwapContained host m data len ↔ StaysInside host m data len) := by
  have hfuel : data + len - data < len + 1 := by omega
  obtain ⟨m', hrun, -⟩ : ∃ m', swapNested host false (len + 1) m data (data + len) = some m'
      ∧ ∀ i < data, m' i = m i := swapNested_incoming_ends hfuel m
  refine ⟨⟨m', hrun, fun i hi => swapNested_untouched hfuel hrun hi⟩, ?_⟩
  rw [StaysInside]
  constructor
  · intro hinside
    by_contra hstays
    obtain ⟨t, ht, hpast⟩ := attrWalk_none hfuel (le_refl _) (fun _ _ _ => rfl)
      (not_isSome_iff_eq_none.mp hstays)
    exact not_lt.mpr (hinside t ht).2 hpast
  · intro hstays
    obtain ⟨v, hwalk⟩ := isSome_iff_exists.mp hstays
    exact (attrWalk_some hfuel (le_refl _) (fun _ _ _ => rfl) hwalk hrun).1

/-- An attribute `WPROBE_VAL_U64` without its number. -/
def emptyU64 : Bytes := blit (fun _ => 0) 0 [0, 4, 0, 16, 1, 2, 3, 4, 5, 6, 7, 8]

/-- **The eight bytes behind the message are swapped.** -/
theorem emptyU64_not_contained : ¬ SwapContained .little emptyU64 0 4
    ∧ (wprobeSwapNested .little false emptyU64 0 4).map (·.slice 4 8)
      = some [8, 7, 6, 5, 4, 3, 2, 1] := by
  have htouches : touches .little 5 emptyU64 0 4 = [(0, 4), (4, 8)] := by decide +kernel
  refine ⟨fun h => ?_, by decide +kernel⟩
  have hlast := (h (4, 8) (htouches ▸ by simp)).2
  omega

end Wprobe
