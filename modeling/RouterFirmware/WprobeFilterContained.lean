import RouterFirmware.WprobeFilter

/-!
# What is read of a wprobe filter

The numbers in a blob say where its headers are. `wprobe_check_filter` walks
along them and puts each number into the order of the machine, and a second
walk over a copy stores a pointer for every item.

The numbers come from the user. A blob is *well formed* if a walk over it
(`walkGroups`, in terms of offsets into the blob) stays inside and meets no
negative number. The walks of the code follow that walk as long as it does
(`Passes`, `ParsePasses`), so a well-formed blob is read inside only; but the
code tests the end before the headers and not before the instructions, and a
negative number makes the total of items too small.
-/

namespace Wprobe

open Memory List Option Check Errno

/-! ## Walking by the numbers -/

/-- Where a walk over a blob leads. -/
inductive Walk where
  /-- To an offset in the blob, past so many items. -/
  | ends (a t : ℕ)
  /-- To a negative number. -/
  | negative
  /-- Outside. -/
  | outside
deriving DecidableEq

section Walk

variable (o : ByteOrder) (v : Bytes) (len : ℕ)

/-- The walk over the items of a group, from offset `a` with `t` items passed. -/
def walkItems : ℕ → ℕ → ℕ → Walk
  | 0, a, t => .ends a t
  | k + 1, a, t =>
    if len < a + sizeofItemHdr then .outside
    else if 2 ^ 31 ≤ v.load o 4 (a + 32) then .negative
    else if len < a + sizeofItemHdr + v.load o 4 (a + 32) * sizeofSockFilter then .outside
    else walkItems k (a + sizeofItemHdr + v.load o 4 (a + 32) * sizeofSockFilter) (t + 1)

/-- **The walk over the groups**, in the blob `v` of `len` bytes. -/
def walkGroups : ℕ → ℕ → ℕ → Walk
  | 0, a, t => .ends a t
  | g + 1, a, t =>
    if len < a + sizeofItemHdr then .outside
    else if 2 ^ 31 ≤ v.load o 4 (a + 32) then .negative
    else
      match walkItems o v len (v.load o 4 (a + 32)) (a + sizeofItemHdr) t with
      | .ends b u => walkGroups g b u
      | w => w

end Walk

variable {K : Kernel} {a g k n stop t u : ℕ} {m : Bytes}

section Walk

variable {o : ByteOrder} {v : Bytes} {len b : ℕ}

theorem walkItems_succ_eq_ends_iff : walkItems o v len (k + 1) a t = .ends b u
    ↔ v.load o 4 (a + 32) < 2 ^ 31
      ∧ a + sizeofItemHdr + v.load o 4 (a + 32) * sizeofSockFilter ≤ len
      ∧ walkItems o v len k (a + sizeofItemHdr + v.load o 4 (a + 32) * sizeofSockFilter) (t + 1)
        = .ends b u := by
  rw [walkItems]
  generalize v.load o 4 (a + 32) = n
  split_ifs with hhdr hneg hout
  · exact iff_of_false nofun fun h => by omega
  · exact iff_of_false nofun fun h => by omega
  · exact iff_of_false nofun fun h => by omega
  · exact ⟨fun h => ⟨by omega, by omega, h⟩, fun h => h.2.2⟩

theorem walkGroups_succ_eq_ends_iff : walkGroups o v len (g + 1) a t = .ends b u
    ↔ a + sizeofItemHdr ≤ len ∧ v.load o 4 (a + 32) < 2 ^ 31
      ∧ ∃ c w, walkItems o v len (v.load o 4 (a + 32)) (a + sizeofItemHdr) t = .ends c w
        ∧ walkGroups o v len g c w = .ends b u := by
  rw [walkGroups]
  split_ifs with hhdr hneg
  · exact iff_of_false nofun fun h => by omega
  · exact iff_of_false nofun fun h => by omega
  · cases hitems : walkItems o v len (v.load o 4 (a + 32)) (a + sizeofItemHdr) t with
    | ends c w =>
      constructor
      · exact fun h => ⟨by omega, by omega, c, w, rfl, h⟩
      · rintro ⟨-, -, c', w', heq, h⟩
        obtain ⟨rfl, rfl⟩ := Walk.ends.inj heq
        exact h
    | negative =>
      refine iff_of_false nofun ?_
      rintro ⟨-, -, c, w, heq, -⟩
      exact nomatch heq
    | outside =>
      refine iff_of_false nofun ?_
      rintro ⟨-, -, c, w, heq, -⟩
      exact nomatch heq

theorem walkItems_bounds (h : walkItems o v len k a t = .ends b u) (ha : a ≤ len) :
    a + sizeofItemHdr * k ≤ b ∧ b ≤ len ∧ u = t + k := by
  induction k generalizing a t with
  | zero =>
    obtain ⟨rfl, rfl⟩ := Walk.ends.inj h
    exact ⟨Nat.le_refl _, ha, rfl⟩
  | succ k ih =>
    obtain ⟨-, hinside, hrest⟩ := walkItems_succ_eq_ends_iff.mp h
    obtain ⟨hle, hb, hu⟩ := ih hrest hinside
    refine ⟨?_, hb, by omega⟩
    rw [Nat.mul_succ]
    omega

theorem walkGroups_bounds (h : walkGroups o v len g a t = .ends b u) (ha : a ≤ len) :
    a + sizeofItemHdr * u ≤ b + sizeofItemHdr * t ∧ a ≤ b ∧ b ≤ len := by
  induction g generalizing a t with
  | zero =>
    obtain ⟨rfl, rfl⟩ := Walk.ends.inj h
    exact ⟨Nat.le_refl _, Nat.le_refl _, ha⟩
  | succ g ih =>
    obtain ⟨hhdr, -, c, w, hitems, hrest⟩ := walkGroups_succ_eq_ends_iff.mp h
    obtain ⟨hle, hc, hw⟩ := walkItems_bounds hitems hhdr
    obtain ⟨htotal, hcb, hb⟩ := ih hrest hc
    rw [hw, Nat.mul_add] at htotal
    exact ⟨by omega, by omega, hb⟩

theorem walkItems_congr {v' : Bytes} (h : Memory.EqOn v v' a len) :
    walkItems o v len k a t = walkItems o v' len k a t := by
  induction k generalizing a t with
  | zero => rfl
  | succ k ih =>
    rw [walkItems, walkItems]
    by_cases hhdr : len < a + sizeofItemHdr
    · rw [if_pos hhdr, if_pos hhdr]
    · have hload : v.load o 4 (a + 32) = v'.load o 4 (a + 32) :=
        h.load_eq o (Nat.le_add_right ..) (Nat.le_of_not_lt hhdr)
      rw [if_neg hhdr, if_neg hhdr, hload,
        ih (h.mono (by rw [Nat.add_assoc]; exact Nat.le_add_right ..) (Nat.le_refl _))]

theorem walkGroups_congr {v' : Bytes} (h : Memory.EqOn v v' a len) (ha : a ≤ len) :
    walkGroups o v len g a t = walkGroups o v' len g a t := by
  induction g generalizing a t with
  | zero => rfl
  | succ g ih =>
    rw [walkGroups, walkGroups]
    by_cases hhdr : len < a + sizeofItemHdr
    · rw [if_pos hhdr, if_pos hhdr]
    · have hload : v.load o 4 (a + 32) = v'.load o 4 (a + 32) :=
        h.load_eq o (Nat.le_add_right ..) (Nat.le_of_not_lt hhdr)
      rw [if_neg hhdr, if_neg hhdr, hload,
        walkItems_congr (h.mono (Nat.le_add_right ..) (Nat.le_refl _))]
      cases hitems : walkItems o v' len (v'.load o 4 (a + 32)) (a + sizeofItemHdr) t with
      | ends c w =>
        obtain ⟨hle, hc, -⟩ := walkItems_bounds hitems (Nat.le_of_not_lt hhdr)
        simp only [ih (h.mono (show a ≤ c by omega) (Nat.le_refl _)) hc]
      | negative => rfl
      | outside => rfl

theorem walkItems_ends_congr {v' : Bytes}
    (hw : walkItems o v len k a t = .ends b u) (ha : a ≤ len) (h : Memory.EqOn v v' a b) :
    walkItems o v' len k a t = .ends b u := by
  induction k generalizing a t with
  | zero => exact hw
  | succ k ih =>
    obtain ⟨hcount, hinside, hrest⟩ := walkItems_succ_eq_ends_iff.mp hw
    obtain ⟨hle, -, -⟩ := walkItems_bounds hrest hinside
    have hload : v.load o 4 (a + 32) = v'.load o 4 (a + 32) :=
      h.load_eq o (Nat.le_add_right ..) (show a + sizeofItemHdr ≤ b by omega)
    rw [hload] at hcount hinside hrest
    exact walkItems_succ_eq_ends_iff.mpr
      ⟨hcount, hinside, ih hrest hinside (h.mono (by omega) (Nat.le_refl _))⟩

end Walk

/-! ## The first walk of the code -/

/-- **A range of the memory of the kernel.** -/
def Kernel.Placed (K : Kernel) (s len : ℕ) : Prop := s + len + 4096 ≤ 2 ^ K.bits

instance (K : Kernel) (s len : ℕ) : Decidable (K.Placed s len) :=
  inferInstanceAs (Decidable (_ ≤ _))

theorem Kernel.add_natCast {p : ℕ} (h : p + n < 2 ^ K.bits) : K.add p n = p + n := by
  have hcast : ((p : ℤ) + n) % 2 ^ K.bits = ((p + n : ℕ) : ℤ) := by
    rw [Int.emod_eq_of_lt (by omega) (by exact_mod_cast h)]
    rfl
  rw [Kernel.add, hcast, Int.toNat_natCast]

theorem Kernel.Placed.add {s len : ℕ} (h : K.Placed s len)
    (hn : a + n < len + 4096) : K.add (s + a) n = s + (a + n) := by
  unfold Kernel.Placed at h
  rw [Kernel.add_natCast (by omega), Nat.add_assoc]

theorem toInt_of_lt (h : n < 2 ^ 31) : toInt n = n := by
  rw [toInt, Int.bmod_eq_of_le (by omega) (by omega)]

theorem load_toCpu (o : ByteOrder) (n : ℕ) (m : Bytes) (a : ℕ) :
    (toCpu o n m a).load o n a = m.load .big n a := by
  rw [toCpu, load_store_self, Nat.mod_eq_of_lt (m.load_lt ..)]

theorem eqOff_toCpu (o : ByteOrder) (n : ℕ) (m : Bytes) (a : ℕ) :
    Memory.EqOff (toCpu o n m a) m a (a + n) := fun _ hi => m.store_of_outside o _ hi

theorem eqOff_swapFilter (o : ByteOrder) (k sf : ℕ) (m : Bytes) :
    Memory.EqOff (swapFilter o k sf m) m sf (sf + k * sizeofSockFilter) := by
  induction k generalizing sf m with
  | zero => exact fun _ _ => rfl
  | succ k ih =>
    rw [swapFilter, Nat.succ_mul]
    have hstep : Memory.EqOff (toCpu o 4 (toCpu o 2 m sf) (sf + 4)) m sf (sf + sizeofSockFilter) :=
        ((eqOff_toCpu o 4 _ (sf + 4)).mono (by omega) (Nat.le_refl _)).trans
        ((eqOff_toCpu o 2 m sf).mono (Nat.le_refl _) (by omega))
    exact ((ih _ _).mono (by omega) (by omega)).trans (hstep.mono (Nat.le_refl _) (by omega))

theorem mem_filterTouched {sf : ℕ} {t : ℕ × ℕ} (h : t ∈ filterTouched k sf) :
    sf ≤ t.1 ∧ t.1 + t.2 ≤ sf + k * sizeofSockFilter := by
  induction k generalizing sf with
  | zero => exact absurd h not_mem_nil
  | succ k ih =>
    rw [Nat.succ_mul]
    unfold sizeofSockFilter at ih ⊢
    rcases mem_cons.mp h with rfl | h
    · exact ⟨Nat.le_refl _, by omega⟩
    rcases mem_cons.mp h with rfl | h
    · exact ⟨by omega, by omega⟩
    · obtain ⟨hle, hend⟩ := ih h
      unfold sizeofSockFilter at hle hend
      exact ⟨by omega, by omega⟩

theorem exists_mem_filterTouched (k sf : ℕ) :
    ∃ t ∈ filterTouched (k + 1) sf, t.1 + t.2 = sf + (k + 1) * sizeofSockFilter := by
  induction k generalizing sf with
  | zero => exact ⟨(sf + 4, 4), mem_cons_of_mem _ mem_cons_self, rfl⟩
  | succ k ih =>
    obtain ⟨t, ht, heq⟩ := ih (sf + sizeofSockFilter)
    refine ⟨t, mem_cons_of_mem _ (mem_cons_of_mem _ ht), ?_⟩
    rw [heq, Nat.succ_mul (k + 1)]
    omega

/-- **The check passes a part of the blob.** -/
structure Passes (s a b : ℕ) (c c' : Check) : Prop where
  data : c'.data = s + b
  le : a ≤ b
  mem : Memory.EqOff c'.mem c.mem (s + a) (s + b)
  touched : ∀ t ∈ c'.touched, t ∈ c.touched ∨ s + a ≤ t.1 ∧ t.1 + t.2 ≤ s + b

section Check

variable {s len b : ℕ} {c c' : Check} (h : Passes s a b c c') (hplaced : K.Placed s len)
  (hdata : c.data = s + a)

theorem Passes.refl (hdata : c.data = s + a) : Passes s a a c c :=
  ⟨hdata, Nat.le_refl _, fun _ _ => rfl, fun _ ht => .inl ht⟩

include h

theorem Passes.trans {d : ℕ} {c'' : Check} (h' : Passes s b d c' c'') : Passes s a d c c'' where
  data := h'.data
  le := h.le.trans h'.le
  mem := (h'.mem.mono (by have := h.le; omega) (Nat.le_refl _)).trans
    (h.mem.mono (Nat.le_refl _) (by have := h'.le; omega))
  touched := by
    have hle := h.le
    have hle' := h'.le
    intro t ht
    rcases h'.touched t ht with ht | ⟨ha, hb⟩
    · rcases h.touched t ht with ht | ⟨ha, hb⟩
      · exact .inl ht
      · exact .inr ⟨ha, by omega⟩
    · exact .inr ⟨by omega, hb⟩

theorem Passes.rest : Memory.EqOn (c'.mem.drop s) (c.mem.drop s) b len :=
  (h.mem.eqOn (d := s + len) (.inr (Nat.le_refl _))).drop (Nat.le_refl _) (Nat.le_refl _)

theorem Passes.load_eq (o : ByteOrder) {i j : ℕ} (hi : i + j ≤ s + a) :
    c'.mem.load o j i = c.mem.load o j i :=
  (h.mem.eqOn (c := i) (.inl (Nat.le_refl _))).load_eq o (Nat.le_refl _) hi

omit h

include hplaced

theorem header_of_inside (hdata : c.data = s + a) (hhdr : a + sizeofItemHdr ≤ len) :
    ∃ c', c.header K (s + len) = some (toInt (c.mem.load .big 4 (s + a + 32)), c')
      ∧ Passes s a (a + sizeofItemHdr) c c' ∧ c'.is = c.is
      ∧ c'.mem.load K.order 4 (s + a + 32) = c.mem.load .big 4 (s + a + 32) := by
  have hadd := hplaced.add (show a + sizeofItemHdr < len + 4096 by omega)
  have hload : (c.mem.blit (s + a + 31) [0]).load .big 4 (s + a + 32)
      = c.mem.load .big 4 (s + a + 32) := c.mem.load_blit_of_disjoint .big (.inr (Nat.le_refl _))
  refine ⟨{ c with
      mem := toCpu K.order 4 (c.mem.blit (s + a + 31) [0]) (s + a + 32)
      data := s + (a + sizeofItemHdr)
      touched := c.touched ++ [(s + a + 31, 1), (s + a + 32, 4)] }, ?_, ?_, rfl, ?_⟩
  · rw [header, hdata, hadd, if_neg (by omega)]
    simp only [hload]
  · refine ⟨rfl, Nat.le_add_right .., ?_, fun t ht => ?_⟩
    · have hblit := c.mem.eqOff_blit (s + a + 31) [0]
      rw [length_singleton] at hblit
      exact ((eqOff_toCpu K.order 4 _ (s + a + 32)).mono (by omega) (Nat.le_refl _)).trans
        (hblit.mono (by omega) (by omega))
    · rcases mem_append.mp ht with ht | ht
      · exact .inl ht
      · refine .inr ?_
        unfold sizeofItemHdr
        rcases mem_cons.mp ht with rfl | ht
        · exact ⟨by omega, by omega⟩
        · obtain rfl := mem_singleton.mp ht
          exact ⟨by omega, by omega⟩
  · rw [load_toCpu, hload]

theorem header_of_outside (hdata : c.data = s + a) (ha : a ≤ len)
    (hhdr : len < a + sizeofItemHdr) : c.header K (s + len) = none := by
  rw [header, hdata, hplaced.add (by unfold sizeofItemHdr; omega), if_pos (by omega)]

omit hplaced in
theorem checkItem_of_header {c'' : Check} {nItems : ℤ}
    (hheader : c.header K stop = some (nItems, c')) (hrun : checkItem K stop c = some c'') :
    nItems ≤ 1024
      ∧ c'' = { c' with
          mem := swapFilter K.order nItems.toNat c'.data c'.mem
          data := K.add c'.data (nItems * sizeofSockFilter)
          touched := c'.touched ++ filterTouched nItems.toNat c'.data } := by
  rw [checkItem, hheader, bind_some] at hrun
  dsimp only at hrun
  by_cases hmany : 1024 < nItems
  · rw [if_pos hmany] at hrun
    exact nomatch hrun
  · rw [if_neg hmany] at hrun
    refine ⟨Int.not_lt.mp hmany, ?_⟩
    split at hrun
    · exact nomatch hrun
    · exact (some.inj hrun).symm

include hdata

theorem checkItem_passes (hn : c.mem.load .big 4 (s + a + 32) = n) (hcount : n < 2 ^ 31)
    (hinside : a + sizeofItemHdr + n * sizeofSockFilter ≤ len)
    (hrun : checkItem K (s + len) c = some c') :
    Passes s a (a + sizeofItemHdr + n * sizeofSockFilter) c c' ∧ c'.is = c.is
      ∧ c'.mem.load K.order 4 (s + a + 32) = n := by
  obtain ⟨c₁, hheader, hpass, his, hload⟩ := header_of_inside hplaced hdata (by omega)
  rw [hn, toInt_of_lt hcount] at hheader
  obtain ⟨-, heq⟩ := checkItem_of_header hheader hrun
  rw [Int.toNat_natCast, ← Int.natCast_mul] at heq
  have hmem := eqOff_swapFilter K.order n c₁.data c₁.mem
  have hstep : Passes s (a + sizeofItemHdr) (a + sizeofItemHdr + n * sizeofSockFilter) c₁ c' := by
    rw [heq]
    rw [hpass.data] at hmem ⊢
    refine ⟨hplaced.add (by omega), Nat.le_add_right .., hmem.mono (Nat.le_refl _)
      (Nat.le_of_eq (Nat.add_assoc ..)), fun t ht => ?_⟩
    rcases mem_append.mp ht with ht | ht
    · exact .inl ht
    · obtain ⟨hle, hend⟩ := mem_filterTouched ht
      exact .inr ⟨hle, by omega⟩
  refine ⟨hpass.trans hstep, by rw [heq]; exact his, ?_⟩
  rw [← hn, ← hload]
  exact hstep.load_eq K.order (Nat.le_of_eq (Nat.add_assoc ..))

theorem checkItems_passes (hwalk : walkItems .big (c.mem.drop s) len k a t = .ends b u)
    (hrun : checkItems K (s + len) k c = some c') : Passes s a b c c' ∧ c'.is = c.is
    ∧ walkItems K.order (c'.mem.drop s) len k a t = .ends b u := by
  induction k generalizing a t c with
  | zero =>
    obtain rfl := some.inj hrun
    obtain ⟨rfl, rfl⟩ := Walk.ends.inj hwalk
    exact ⟨.refl hdata, rfl, rfl⟩
  | succ k ih =>
    rw [checkItems] at hrun
    obtain ⟨c₁, hitem, hrun⟩ := bind_eq_some_iff.mp hrun
    obtain ⟨hcount, hinside, hwalk⟩ := walkItems_succ_eq_ends_iff.mp hwalk
    generalize hn : (c.mem.drop s).load .big 4 (a + 32) = n at hcount hinside hwalk
    rw [load_drop, ← Nat.add_assoc] at hn
    obtain ⟨hpass, his, hload⟩ := checkItem_passes hplaced hdata hn hcount hinside hitem
    rw [← walkItems_congr hpass.rest] at hwalk
    obtain ⟨hrest, his', hwalk'⟩ := ih hpass.data hwalk hrun
    refine ⟨hpass.trans hrest, his'.trans his, walkItems_succ_eq_ends_iff.mpr ?_⟩
    have hkept : (c'.mem.drop s).load K.order 4 (a + 32) = n := by
      rw [load_drop, ← Nat.add_assoc, ← hload]
      exact hrest.load_eq K.order (by unfold sizeofItemHdr; omega)
    rw [hkept]
    exact ⟨hcount, hinside, hwalk'⟩

theorem exists_checkGroup_eq (hhdr : a + sizeofItemHdr ≤ len)
    (hn : c.mem.load .big 4 (s + a + 32) = n) (hcount : n < 2 ^ 31) :
    ∃ c₁, checkGroup K (s + len) c = checkItems K (s + len) n c₁
      ∧ Passes s a (a + sizeofItemHdr) c c₁ ∧ c₁.is = toInt (c.is + n)
      ∧ c₁.mem.load K.order 4 (s + a + 32) = n := by
  obtain ⟨c₁, hheader, hpass, his, hload⟩ := header_of_inside hplaced hdata hhdr
  refine ⟨{ c₁ with is := toInt (c.is + n) }, ?_,
    ⟨hpass.data, hpass.le, hpass.mem, hpass.touched⟩, rfl, hload.trans hn⟩
  rw [checkGroup, hheader, bind_some, hn, toInt_of_lt hcount]
  dsimp only
  rw [his, Int.toNat_natCast]

omit hdata

theorem checkGroups_passes (hlen : len < 2 ^ 31) (hdata : c.data = s + a)
    (ha : a ≤ len) (his : c.is = t) (ht : sizeofItemHdr * t ≤ a)
    (hwalk : walkGroups .big (c.mem.drop s) len g a t = .ends b u)
    (hrun : checkGroups K (s + len) g c = some c') : Passes s a b c c' ∧ c'.is = u
    ∧ walkGroups K.order (c'.mem.drop s) len g a t = .ends b u := by
  induction g generalizing a t c with
  | zero =>
    obtain rfl := some.inj hrun
    obtain ⟨rfl, rfl⟩ := Walk.ends.inj hwalk
    exact ⟨.refl hdata, his, rfl⟩
  | succ g ih =>
    obtain ⟨c₂, hgroup, hrun⟩ := bind_eq_some_iff.mp hrun
    obtain ⟨hhdr, hcount, d, w, hitems, hwalk⟩ := walkGroups_succ_eq_ends_iff.mp hwalk
    obtain ⟨hpassed, hd, hw⟩ := walkItems_bounds hitems hhdr
    generalize hn : (c.mem.drop s).load .big 4 (a + 32) = n at hcount hitems hpassed hw
    rw [load_drop, ← Nat.add_assoc] at hn
    obtain ⟨c₁, heq, hpass₁, his₁, hload⟩ := exists_checkGroup_eq hplaced hdata hhdr hn hcount
    rw [heq] at hgroup
    rw [← walkItems_congr hpass₁.rest] at hitems
    obtain ⟨hpass₂, his₂, hitems'⟩ := checkItems_passes hplaced hpass₁.data hitems hgroup
    rw [← walkGroups_congr (hpass₁.trans hpass₂).rest hd] at hwalk
    have hsum : c₂.is = w := by
      rw [his₂, his₁, his, ← Int.natCast_add, ← hw]
      exact toInt_of_lt (by unfold sizeofItemHdr at *; omega)
    obtain ⟨hrest, his₃, hwalk'⟩ :=
      ih hpass₂.data hd hsum (by rw [hw, Nat.mul_add]; omega) hwalk hrun
    refine ⟨(hpass₁.trans hpass₂).trans hrest, his₃, walkGroups_succ_eq_ends_iff.mpr ?_⟩
    have hkept : (c'.mem.drop s).load K.order 4 (a + 32) = n := by
      have hle := hpass₂.le
      rw [load_drop, ← Nat.add_assoc, hrest.load_eq K.order (by unfold sizeofItemHdr at hle; omega),
        hpass₂.load_eq K.order (by unfold sizeofItemHdr; omega), hload]
    rw [hkept]
    refine ⟨hhdr, hcount, d, w, ?_, hwalk'⟩
    exact walkItems_ends_congr hitems' hhdr
      ((hrest.mem.eqOn (c := s + (a + sizeofItemHdr)) (.inl (Nat.le_refl _))).symm.drop
      (Nat.le_refl _) (Nat.le_refl _))

/-! ### Led outside -/

omit hplaced in
theorem touched_subset_header {nItems : ℤ} (h : c.header K stop = some (nItems, c')) :
    c.touched ⊆ c'.touched := by
  rw [header] at h
  split at h
  · exact nomatch h
  · obtain ⟨-, rfl⟩ := Prod.mk.inj (some.inj h)
    exact subset_append_left ..

omit hplaced in
theorem touched_subset_checkItems (h : checkItems K stop k c = some c') :
    c.touched ⊆ c'.touched := by
  induction k generalizing c with
  | zero =>
    obtain rfl := some.inj h
    exact List.Subset.refl _
  | succ k ih =>
    obtain ⟨c₂, hitem, h⟩ := bind_eq_some_iff.mp h
    obtain ⟨⟨nItems, c₁⟩, hheader, -⟩ := bind_eq_some_iff.mp hitem
    obtain ⟨-, rfl⟩ := checkItem_of_header hheader hitem
    exact List.Subset.trans (List.Subset.trans (touched_subset_header hheader)
      (subset_append_left ..)) (ih h)

omit hplaced in
theorem touched_subset_checkGroups (h : checkGroups K stop g c = some c') :
    c.touched ⊆ c'.touched := by
  induction g generalizing c with
  | zero =>
    obtain rfl := some.inj h
    exact List.Subset.refl _
  | succ g ih =>
    obtain ⟨c₂, hgroup, h⟩ := bind_eq_some_iff.mp h
    obtain ⟨⟨curIs, c₁⟩, hheader, hitems⟩ := bind_eq_some_iff.mp hgroup
    have hsubset := touched_subset_checkItems (c := { c₁ with is := toInt (c₁.is + curIs) }) hitems
    exact List.Subset.trans (List.Subset.trans (touched_subset_header hheader) hsubset) (ih h)

theorem checkItems_outside (hdata : c.data = s + a) (ha : a ≤ len)
    (hwalk : walkItems .big (c.mem.drop s) len k a t = .outside)
    (hrun : checkItems K (s + len) k c = some c') : ∃ x ∈ c'.touched, s + len < x.1 + x.2 := by
  induction k generalizing a t c with
  | zero => exact nomatch hwalk
  | succ k ih =>
    obtain ⟨c₂, hitem, hrun⟩ := bind_eq_some_iff.mp hrun
    rw [walkItems] at hwalk
    split_ifs at hwalk with hhdr hneg hout
    · rw [checkItem, header_of_outside hplaced hdata ha hhdr] at hitem
      exact nomatch hitem
    · -- the instructions of this item
      rw [load_drop, ← Nat.add_assoc] at hneg hout
      obtain ⟨c₁, hheader, hpass, -, -⟩ := header_of_inside hplaced hdata (Nat.le_of_not_lt hhdr)
      generalize c.mem.load .big 4 (s + a + 32) = n at hneg hout hheader
      rw [toInt_of_lt (Nat.lt_of_not_le hneg)] at hheader
      obtain ⟨-, rfl⟩ := checkItem_of_header hheader hitem
      cases n with
      | zero => omega
      | succ n =>
        obtain ⟨x, hx, hend⟩ := exists_mem_filterTouched n c₁.data
        refine ⟨x, touched_subset_checkItems hrun (mem_append_right _ hx), ?_⟩
        rw [hend, hpass.data]
        omega
    · rw [load_drop, ← Nat.add_assoc] at hneg hout hwalk
      generalize hn : c.mem.load .big 4 (s + a + 32) = n at hneg hout hwalk
      obtain ⟨hpass, -, -⟩ := checkItem_passes hplaced hdata hn (Nat.lt_of_not_le hneg)
        (Nat.le_of_not_lt hout) hitem
      rw [← walkItems_congr hpass.rest] at hwalk
      exact ih hpass.data (Nat.le_of_not_lt hout) hwalk hrun

theorem checkGroups_outside (hdata : c.data = s + a) (ha : a ≤ len)
    (hwalk : walkGroups .big (c.mem.drop s) len g a t = .outside)
    (hrun : checkGroups K (s + len) g c = some c') : ∃ x ∈ c'.touched, s + len < x.1 + x.2 := by
  induction g generalizing a t c with
  | zero => exact nomatch hwalk
  | succ g ih =>
    obtain ⟨c₂, hgroup, hrun⟩ := bind_eq_some_iff.mp hrun
    rw [walkGroups] at hwalk
    split_ifs at hwalk with hhdr hneg
    · rw [checkGroup, header_of_outside hplaced hdata ha hhdr] at hgroup
      exact nomatch hgroup
    have hhdr := Nat.le_of_not_lt hhdr
    rw [load_drop, ← Nat.add_assoc] at hneg hwalk
    generalize hn : c.mem.load .big 4 (s + a + 32) = n at hneg hwalk
    obtain ⟨c₁, heq, hpass₁, -, -⟩ :=
      exists_checkGroup_eq hplaced hdata hhdr hn (Nat.lt_of_not_le hneg)
    rw [heq] at hgroup
    rw [← walkItems_congr hpass₁.rest] at hwalk
    cases hitems : walkItems .big (c₁.mem.drop s) len n (a + sizeofItemHdr) t with
    | ends d w =>
      rw [hitems] at hwalk
      obtain ⟨-, hd, -⟩ := walkItems_bounds hitems hhdr
      obtain ⟨hpass₂, -, -⟩ := checkItems_passes hplaced hpass₁.data hitems hgroup
      have hwalk : walkGroups .big (c.mem.drop s) len g d w = .outside := hwalk
      rw [← walkGroups_congr (hpass₁.trans hpass₂).rest hd] at hwalk
      exact ih hpass₂.data hd hwalk hrun
    | negative =>
      rw [hitems] at hwalk
      exact nomatch hwalk
    | outside =>
      obtain ⟨x, hx, hend⟩ := checkItems_outside hplaced hpass₁.data hhdr hitems hgroup
      exact ⟨x, touched_subset_checkGroups hrun hx, hend⟩

end Check

/-! ## The second walk -/

section Parse

/-- **The second walk** stays at the bytes it passes. -/
structure ParsePasses (d a b t : ℕ) (p p' : Parse) : Prop where
  data : p'.data = d + b
  le : a ≤ b
  items : p'.items.length = t
  touched : ∀ x ∈ p'.touched, x ∈ p.touched ∨ d + a ≤ x.1 ∧ x.1 + x.2 ≤ d + b

variable {d len b : ℕ} {p : Parse}

theorem ParsePasses.trans {e : ℕ} {p' p'' : Parse} (h : ParsePasses d a b t p p')
    (h' : ParsePasses d b e u p' p'') : ParsePasses d a e u p p'' := by
  have hle := h.le
  have hle' := h'.le
  refine ⟨h'.data, hle.trans hle', h'.items, fun x hx => ?_⟩
  rcases h'.touched x hx with hx | hx
  · exact (h.touched x hx).imp_right fun hx => ⟨hx.1, by omega⟩
  · exact .inr ⟨by omega, hx.2⟩

/-- One header is read, at `d + a`. -/
theorem parsePasses_of_header {p' : Parse} (hdata : p.data = d + a) (hdata' : p'.data = d + b)
    (hle : a + sizeofItemHdr ≤ b) (hitems : p'.items.length = t)
    (htouched : p'.touched = p.touched ++ [(p.data + 32, 4)]) : ParsePasses d a b t p p' := by
  unfold sizeofItemHdr at hle
  refine ⟨hdata', by omega, hitems, fun x hx => ?_⟩
  rw [htouched, hdata] at hx
  rcases mem_append.mp hx with hx | hx
  · exact .inl hx
  · obtain rfl := mem_singleton.mp hx
    exact .inr ⟨by omega, by omega⟩

theorem parseItems_passes (hplaced : K.Placed d len) (hdata : p.data = d + a)
    (ha : a ≤ len) (hitems : p.items.length = t)
    (hwalk : walkItems K.order (m.drop d) len k a t = .ends b u) :
    ParsePasses d a b u p (parseItems K m k p) := by
  induction k generalizing a t p with
  | zero =>
    obtain ⟨rfl, rfl⟩ := Walk.ends.inj hwalk
    exact ⟨hdata, Nat.le_refl _, hitems, fun x hx => .inl hx⟩
  | succ k ih =>
    obtain ⟨hcount, hinside, hwalk⟩ := walkItems_succ_eq_ends_iff.mp hwalk
    generalize hn : (m.drop d).load K.order 4 (a + 32) = n at hcount hinside hwalk
    rw [load_drop, ← Nat.add_assoc] at hn
    have hadd := hplaced.add (show a + (sizeofItemHdr + n * sizeofSockFilter) < len + 4096 by omega)
    rw [Int.natCast_add, Int.natCast_mul, ← Nat.add_assoc a] at hadd
    have hstep : (parseItem K m p).data = d + (a + sizeofItemHdr + n * sizeofSockFilter) := by
      rw [parseItem, hdata, hn, hadd]
    have hlength : (parseItem K m p).items.length = t + 1 := by
      rw [parseItem, length_append, hitems]
      rfl
    rw [parseItems, Function.iterate_succ_apply]
    exact (parsePasses_of_header hdata hstep (Nat.le_add_right ..) hlength rfl).trans
      (ih hstep hinside hlength hwalk)

theorem parseGroups_passes (hplaced : K.Placed d len) (hdata : p.data = d + a)
    (ha : a ≤ len) (hitems : p.items.length = t)
    (hwalk : walkGroups K.order (m.drop d) len g a t = .ends b u) :
    ParsePasses d a b u p (parseGroups K m g p) := by
  induction g generalizing a t p with
  | zero =>
    obtain ⟨rfl, rfl⟩ := Walk.ends.inj hwalk
    exact ⟨hdata, Nat.le_refl _, hitems, fun x hx => .inl hx⟩
  | succ g ih =>
    obtain ⟨hhdr, hcount, e, w, hwalk₁, hwalk⟩ := walkGroups_succ_eq_ends_iff.mp hwalk
    obtain ⟨-, he, -⟩ := walkItems_bounds hwalk₁ hhdr
    have hadd : K.add p.data sizeofItemHdr = d + (a + sizeofItemHdr) := by
      rw [hdata, hplaced.add (by omega)]
    have hn : (toInt (m.load K.order 4 (p.data + 32))).toNat
        = (m.drop d).load K.order 4 (a + 32) := by
      rw [hdata, Nat.add_assoc, ← load_drop, toInt_of_lt hcount, Int.toNat_natCast]
    have hgroup : ParsePasses d a e w p (parseGroup K m p) := by
      rw [parseGroup, hn]
      refine .trans (t := t) ?_ (parseItems_passes hplaced ?_ hhdr ?_ hwalk₁)
      · exact parsePasses_of_header hdata hadd (Nat.le_refl _) hitems rfl
      · exact hadd
      · exact hitems
    rw [parseGroups, Function.iterate_succ_apply]
    exact hgroup.trans (ih hgroup.data he hgroup.items hwalk)

end Parse

/-! ## Accepted blobs -/

/-- Everything that was touched is in a range. -/
def Inside (s len : ℕ) (touched : List (ℕ × ℕ)) : Prop :=
  ∀ x ∈ touched, s ≤ x.1 ∧ x.1 + x.2 ≤ s + len

/-- **An accepted blob was read inside only**. -/
structure Accepted.Contained (r : Accepted) (data len : ℕ) : Prop where
  checked : Inside data len r.checked
  parsed : Inside r.filter.data (len - sizeofFilterHdr) r.parsed
  items : r.filter.items.length ≤ r.filter.itemsAllocated
  counters : r.filter.items.length ≤ r.filter.countersAllocated

/-- The walk over a blob, behind its header. -/
def blobWalk (m : Bytes) (data len : ℕ) : Walk :=
  walkGroups .big (m.drop (data + sizeofFilterHdr)) (len - sizeofFilterHdr)
    (m.load .big 2 (data + 6)) 0 0

/-- **The numbers of the blob lead to its headers.** -/
def WellFormed (m : Bytes) (data len : ℕ) : Prop := ∃ b t, blobWalk m data len = .ends b t

section Accepted

theorem exists_of_wprobeSetFilter {allocs : Allocs} {data len : ℕ}
    {r : Accepted} (h : wprobeSetFilter K allocs m data len = .ok r) :
    sizeofFilterHdr ≤ len ∧ ∃ c, wprobeCheckFilter K m (data + sizeofFilterHdr)
          (len - sizeofFilterHdr) (m.load .big 2 (data + 6)) = some c
      ∧ allocs.data = some r.filter.data
      ∧ r.checked = c.touched
      ∧ r.filter.itemsAllocated = K.allocated K.sizeofPtr c.is
      ∧ r.filter.countersAllocated = K.allocated sizeofCounter c.is
      ∧ r.filter.hdrlen = 4
      ∧ ∃ p, p = parseGroups K (c.mem.blit r.filter.data
            (c.mem.slice (data + sizeofFilterHdr) (len - sizeofFilterHdr)))
          (m.load .big 2 (data + 6)) ⟨r.filter.data, [], [], []⟩
        ∧ r.filter.items = p.items ∧ r.filter.groups = p.groups ∧ r.parsed = p.touched := by
  rw [wprobeSetFilter] at h
  split at h
  · cases h
  next hshort =>
  split at h
  · cases h
  dsimp only at h
  split at h
  · cases h
  next c hcheck =>
  split at h
  · cases h
  split at h
  · obtain rfl := Except.ok.inj h
    exact ⟨Nat.le_of_not_lt hshort, c, hcheck, rfl, rfl, rfl, rfl, rfl, _, rfl, rfl, rfl, rfl⟩
  · cases h

theorem Kernel.allocated_natCast {size : ℕ} (hsize : 0 < size) (h : size * t < 2 ^ K.bits) :
    K.allocated size t = t := by
  have hcast : (size : ℤ) * t % 2 ^ K.bits = ((size * t : ℕ) : ℤ) := by
    rw [← Int.natCast_mul]
    exact Int.emod_eq_of_lt (Int.natCast_nonneg _) (by exact_mod_cast h)
  rw [Kernel.allocated, hcast, Int.toNat_natCast, Nat.mul_div_cancel_left t hsize]

theorem Kernel.allocated_items (ht : sizeofItemHdr * t < 2 ^ 31) :
    K.allocated K.sizeofPtr t = t ∧ K.allocated sizeofCounter t = t := by
  unfold sizeofItemHdr at ht
  have hbits : 2 ^ 32 ≤ 2 ^ K.bits ∧ 0 < K.sizeofPtr ∧ K.sizeofPtr ≤ 8 := by
    unfold Kernel.sizeofPtr Kernel.bits
    cases K.wide with
    | false => decide
    | true => decide
  obtain ⟨hbits, hpos, hle⟩ := hbits
  have hptr := Nat.mul_le_mul_right t hle
  exact ⟨Kernel.allocated_natCast hpos (by omega),
    Kernel.allocated_natCast (by decide) (by unfold sizeofCounter; omega)⟩

theorem contained_of_wellFormed {allocs : Allocs} {data len : ℕ} {r : Accepted}
    (hblob : K.Placed data len) (hlen : len < 2 ^ 31)
    (hcopy : ∀ d, allocs.data = some d → K.Placed d (len - sizeofFilterHdr))
    (h : wprobeSetFilter K allocs m data len = .ok r) (hwell : WellFormed m data len) :
    r.Contained data len := by
  obtain ⟨hshort, c, hcheck, hdata, hchecked, hitems, hcounters, -, p, hp, hstored, -, hparsed⟩ :=
    exists_of_wprobeSetFilter h
  obtain ⟨b, t, hwalk⟩ := hwell
  have hplaced : K.Placed (data + sizeofFilterHdr) (len - sizeofFilterHdr) := by
    unfold Kernel.Placed at *
    omega
  unfold blobWalk at hwalk
  unfold wprobeCheckFilter at hcheck
  obtain ⟨hpass, his, hwalk'⟩ :=
    checkGroups_passes (c := ⟨m, data + sizeofFilterHdr, 0, []⟩) hplaced (by omega)
    (Nat.add_zero _).symm (Nat.zero_le _) rfl (Nat.le_refl _) hwalk hcheck
  obtain ⟨htotal, -, hb⟩ := walkGroups_bounds hwalk (Nat.zero_le _)
  obtain ⟨hptrs, hcounts⟩ := @Kernel.allocated_items K t (by omega)
  -- the copy has the numbers where the first walk left them
  have hsame : Memory.EqOn (c.mem.drop (data + sizeofFilterHdr))
      ((c.mem.blit r.filter.data (c.mem.slice (data + sizeofFilterHdr)
        (len - sizeofFilterHdr))).drop r.filter.data) 0 (len - sizeofFilterHdr) := by
    intro i _ hi
    have hcell : i < (c.mem.slice (data + sizeofFilterHdr) (len - sizeofFilterHdr)).length := by
      rwa [length_slice]
    rw [Memory.drop, Memory.drop, Memory.blit_of_inside _ _ hcell, Memory.getElem_slice]
  rw [walkGroups_congr hsame (Nat.zero_le _)] at hwalk'
  have hparse := parseGroups_passes (p := ⟨r.filter.data, [], [], []⟩)
    (hcopy _ hdata) (Nat.add_zero _).symm (Nat.zero_le _) rfl hwalk'
  rw [← hp] at hparse
  refine ⟨?_, ?_, ?_, ?_⟩
  · rw [hchecked]
    intro x hx
    rcases hpass.touched x hx with hx | ⟨hle, hend⟩
    · exact absurd hx not_mem_nil
    · exact ⟨by omega, by omega⟩
  · rw [hparsed]
    intro x hx
    rcases hparse.touched x hx with hx | ⟨hle, hend⟩
    · exact absurd hx not_mem_nil
    · exact ⟨by omega, by omega⟩
  · rw [hstored, hparse.items, hitems, his, hptrs]
  · rw [hstored, hparse.items, hcounters, his, hcounts]

theorem not_contained_of_outside {allocs : Allocs} {data len : ℕ}
    {r : Accepted} (hblob : K.Placed data len) (h : wprobeSetFilter K allocs m data len = .ok r)
    (hwalk : blobWalk m data len = .outside) : ¬ r.Contained data len := by
  obtain ⟨hshort, c, hcheck, -, hchecked, -⟩ := exists_of_wprobeSetFilter h
  have hplaced : K.Placed (data + sizeofFilterHdr) (len - sizeofFilterHdr) := by
    unfold Kernel.Placed at *
    omega
  unfold blobWalk at hwalk
  unfold wprobeCheckFilter at hcheck
  obtain ⟨x, hx, hend⟩ := checkGroups_outside (c := ⟨m, data + sizeofFilterHdr, 0, []⟩) hplaced
    (Nat.add_zero _).symm (Nat.zero_le _) hwalk hcheck
  intro hcontained
  have hin := hcontained.checked x (by rw [hchecked]; exact hx)
  omega

end Accepted

/-- **What is read of an accepted blob**: if it is well formed, bytes of the
blob only, and there is room for all its items; if its numbers lead outside,
bytes outside as well. -/
theorem wprobeSetFilter_contained (K : Kernel) (allocs : Allocs) (m : Bytes) (data len : ℕ)
    (r : Accepted) (hblob : K.Placed data len) (hlen : len < 2 ^ 31)
    (hcopy : ∀ d, allocs.data = some d → K.Placed d (len - sizeofFilterHdr))
    (haccepted : wprobeSetFilter K allocs m data len = .ok r) :
    (WellFormed m data len → r.Contained data len)
      ∧ (blobWalk m data len = .outside → ¬ r.Contained data len) :=
  ⟨contained_of_wellFormed hblob hlen hcopy haccepted, not_contained_of_outside hblob haccepted⟩

/-- A kernel that accepts filters which end in a return. -/
def smallKernel : Kernel where
  order := .little
  wide := false
  skChkFilter insns := if insns.getLast?.any (·.code = 6) then 0 else -EINVAL

/-- Every allocation succeeds. -/
def allAllocs : Allocs := ⟨true, true, some 0x10000, true, true⟩

/-- A header without a name. -/
def itemHdr (n : ℕ) : List UInt8 := List.replicate 32 0 ++ ByteOrder.big.bytes 4 n

/-- A packet with a filter of one item with one instruction, a return. -/
def returnPacket : Bytes :=
  blit (fun _ => 0) 0x1000
    (filterMagic ++ [1, 0, 0, 1] ++ itemHdr 1 ++ itemHdr 1 ++ [0, 6, 0, 0, 0, 0, 0, 0])

theorem exists_of_isOk {ε α : Type} {x : Except ε α} (h : x.isOk = true) : ∃ a, x = .ok a := by
  cases x with
  | error e => cases h
  | ok a => exact ⟨a, rfl⟩

theorem wprobeSetFilter_contained_return :
    ∃ r, wprobeSetFilter smallKernel allAllocs returnPacket 0x1000 88 = .ok r
      ∧ r.Contained 0x1000 88 := by
  obtain ⟨r, hr⟩ := exists_of_isOk
    (x := wprobeSetFilter smallKernel allAllocs returnPacket 0x1000 88) (by decide +kernel)
  refine ⟨r, hr, (wprobeSetFilter_contained smallKernel allAllocs returnPacket 0x1000 88 r
    (by decide) (by decide) ?_ hr).1 ⟨80, 1, by decide +kernel⟩⟩
  intro d hd
  obtain rfl := some.inj hd
  decide

/-- A packet with a group of two items and a group of minus one item. -/
def negativePacket : Bytes :=
  blit (fun _ => 0) 0x1000
    (filterMagic ++ [1, 0, 0, 2] ++ itemHdr 2 ++ itemHdr 0 ++ itemHdr 0 ++ itemHdr 0xffffffff)

/-- **Blobs that are not contained and accepted**: without its last
instruction, the first filter is swapped behind its end; the second has two
items and room for one. -/
theorem wprobeSetFilter_not_contained :
    (∃ r, wprobeSetFilter smallKernel allAllocs returnPacket 0x1000 80 = .ok r
        ∧ ¬ r.Contained 0x1000 80)
      ∧ ∃ r, wprobeSetFilter smallKernel allAllocs negativePacket 0x1000 152 = .ok r
        ∧ ¬ r.Contained 0x1000 152 := by
  constructor
  · obtain ⟨r, hr⟩ := exists_of_isOk
      (x := wprobeSetFilter smallKernel allAllocs returnPacket 0x1000 80) (by decide +kernel)
    exact ⟨r, hr, not_contained_of_outside (by decide) hr (by decide +kernel)⟩
  · have hcounts : (wprobeSetFilter smallKernel allAllocs negativePacket 0x1000 152).toOption.map
        (fun r => (r.filter.items.length, r.filter.itemsAllocated)) = some (2, 1) := by
      decide +kernel
    obtain ⟨r, hr⟩ := exists_of_isOk
      (x := wprobeSetFilter smallKernel allAllocs negativePacket 0x1000 152) (by decide +kernel)
    rw [hr] at hcounts
    obtain ⟨hitems, hallocated⟩ := Prod.mk.inj (some.inj hcounts)
    refine ⟨r, hr, fun hcontained => ?_⟩
    have hle := hcontained.items
    rw [hitems, hallocated] at hle
    exact absurd hle (by decide)

end Wprobe
