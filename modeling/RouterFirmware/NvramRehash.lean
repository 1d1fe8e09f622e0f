import RouterFirmware.NvramImage

/-!
# Reading the NVRAM image

What `_nvram_rehash` makes of an image.
-/

def tuplesBytes (ts : List NvramTuple) : List UInt8 :=
  ts.flatMap (fun t => t.bytes ++ [0])

def HoldsTuples (m : Bytes) (pos : ℕ) (ts : List NvramTuple) : Prop :=
  m.slice pos (tuplesBytes ts ++ [0]).length = tuplesBytes ts ++ [0]

def tuplesSize (ts : List NvramTuple) : ℕ := (ts.map NvramTuple.size).sum

variable (t : NvramTuple) {pos : ℕ}

theorem NvramTuple.length_bytes : (bytes t ++ [0]).length = size t := by
  simp only [NvramTuple.bytes, NvramTuple.size, CString.length, List.length_append,
    List.length_cons, List.length_nil]
  omega

variable (ts : List NvramTuple)

@[simp] theorem length_tuplesBytes : (tuplesBytes ts).length = tuplesSize ts := by
  rw [tuplesBytes, List.length_flatMap, tuplesSize]
  simp only [NvramTuple.length_bytes]

theorem tuplesBytes_cons :
    tuplesBytes (t :: ts) = (t.bytes ++ [0]) ++ tuplesBytes ts := List.flatMap_cons

theorem tuplesSize_cons : tuplesSize (t :: ts) = t.size + tuplesSize ts := List.sum_cons

variable {t ts}

theorem HoldsTuples.head {m : Bytes} (h : HoldsTuples m pos (t :: ts)) :
    m.slice pos t.1.length = t.1.bytes ∧ m (pos + t.1.length) = equalsSign
      ∧ m.slice (pos + t.1.length + 1) t.2.length = t.2.bytes
      ∧ m (pos + t.1.length + 1 + t.2.length) = 0 := by
  rw [HoldsTuples, tuplesBytes_cons, List.append_assoc] at h
  have hstring := (Memory.slice_append_iff.mp h).1
  rw [NvramTuple.bytes, List.append_assoc] at hstring
  obtain ⟨hname, hrest⟩ := Memory.slice_append_iff.mp hstring
  rw [List.cons_append, ← List.singleton_append] at hrest
  obtain ⟨heq, hrest⟩ := Memory.slice_append_iff.mp hrest
  obtain ⟨hvalue, hzero⟩ := Memory.slice_append_iff.mp hrest
  exact ⟨hname, (List.cons.inj heq).1, hvalue, (List.cons.inj hzero).1⟩

theorem HoldsTuples.tail {m : Bytes} (h : HoldsTuples m pos (t :: ts)) :
    HoldsTuples m (pos + t.size) ts := by
  rw [HoldsTuples, tuplesBytes_cons, List.append_assoc] at h
  rw [← NvramTuple.length_bytes]
  exact (Memory.slice_append_iff.mp h).2

namespace NvramHandle

open Memory NvramTuple List Option

variable {h : NvramHandle}

/-! ## One string -/

@[simp] theorem poke_self (h : NvramHandle) (i : ℕ) (c : UInt8) : (h.poke i c).mmap i = c :=
  blit_of_inside (i := 0) h.mmap i (show 0 < [c].length from Nat.one_pos)

theorem poke_of_ne (h : NvramHandle) {i j : ℕ} (hne : j ≠ i) (c : UInt8) :
    (h.poke i c).mmap j = h.mmap j :=
  blit_of_outside h.mmap (by rw [length_singleton]; omega)

theorem poke_nvramSet_poke {eq : ℕ} (heq : h.mmap eq = equalsSign) (n v : CString) :
    ((h.poke eq 0).nvramSet n v).2.poke eq equalsSign = (h.nvramSet n v).2 := by
  have hm : (h.mmap.blit eq [0]).blit eq [equalsSign] = h.mmap :=
    blit_blit_restore h.mmap eq rfl (by rw [← heq]; rfl)
  unfold nvramSet
  cases nvramRealloc n v with
  | none =>
    show { h with mmap := (h.mmap.blit eq [0]).blit eq [equalsSign] } = h
    rw [hm]
  | some u =>
    show ({ h with
        mmap := (h.mmap.blit eq [0]).blit eq [equalsSign]
        nvramHash := _ } : NvramHandle) = _
    rw [hm]
    rfl

theorem equalsSign_not_mem_name {eq : ℕ} {n : CString}
    (heq : h.mmap.strchr equalsSign pos (h.length - pos) = some (some eq))
    (hn : (h.poke eq 0).mmap.readCStr pos (h.length - pos) = some n) : equalsSign ∉ n.bytes := by
  obtain ⟨hle, -, -, hfirst⟩ := (strchr_eq_some_iff _).mp heq
  obtain ⟨hslice, -, -⟩ := (readCStr_eq_some_iff _).mp hn
  have hcell := slice_eq_iff.mp hslice
  have hzero : (h.poke eq 0).mmap eq = 0 := poke_self ..
  -- the name stops at the zero in the place of the equals sign
  have hlen : pos + n.length ≤ eq := by
    by_contra hlt
    have hbyte := hcell (eq - pos) (by rw [CString.length] at hlt; omega)
    rw [Nat.add_sub_cancel' hle, hzero] at hbyte
    exact n.noZero (hbyte ▸ getElem_mem _)
  intro hmem
  obtain ⟨i, hi, hbyte⟩ := getElem_of_mem hmem
  rw [CString.length] at hlen
  have hother : (h.poke eq 0).mmap (pos + i) = h.mmap (pos + i) := blit_of_outside h.mmap (by omega)
  exact (hfirst (pos + i) (by omega) (by omega)).1 (by rw [← hother, hcell i hi, hbyte])

theorem rehashTuples_turn {eq : ℕ} (hlt : pos < h.length) (h0 : h.mmap pos ≠ 0)
    (heq : h.mmap.strchr equalsSign pos (h.length - pos) = some (some eq)) : h.rehashTuples pos
    = match (h.poke eq 0).mmap.readCStr pos (h.length - pos),
        (h.poke eq 0).mmap.readCStr (eq + 1) (h.length - (eq + 1)) with
      | some n, some v => (h.nvramSet n v).2.rehashTuples (eq + 1 + v.length + 1)
      | _, _ => none := by
  have hsign := ((strchr_eq_some_iff _).mp heq).2.2.1
  rw [rehashTuples, if_pos hlt, if_neg h0]
  split
  case h_1 heq' => exact absurd (heq.symm.trans heq') (by simp)
  case h_2 heq' => exact absurd (heq.symm.trans heq') (by simp)
  case h_3 eq' heq' =>
    obtain rfl : eq = eq' := some.inj (some.inj (heq.symm.trans heq'))
    simp only [poke_nvramSet_poke hsign]
    rfl

theorem rehash_invariant {h' : NvramHandle} (P : NvramHandle → Prop)
    (hset : ∀ (h : NvramHandle) (n v : CString), equalsSign ∉ n.bytes → P h → P (h.nvramSet n v).2)
    (hP : P h) (hr : h.rehashTuples pos = some h') : P h' := by
  induction h, pos using rehashTuples.induct with
  | case1 h pos hlt h0 =>
    rw [rehashTuples, if_pos hlt, if_pos h0] at hr
    exact some.inj hr ▸ hP
  | case2 h pos hlt h0 heq =>
    rw [rehashTuples, if_pos hlt, if_neg h0] at hr
    split at hr <;> simp_all
  | case3 h pos hlt h0 heq =>
    rw [rehashTuples, if_pos hlt, if_neg h0] at hr
    split at hr <;> simp_all
  | case4 h pos hlt h0 eq heq h₁ n v hv hn ih =>
    have hsign := ((strchr_eq_some_iff _).mp heq).2.2.1
    rw [poke_nvramSet_poke hsign] at ih
    change (h.poke eq 0).mmap.readCStr pos (h.length - pos) = some n at hn
    change (h.poke eq 0).mmap.readCStr (eq + 1) (h.length - (eq + 1)) = some v at hv
    rw [rehashTuples_turn hlt h0 heq, hn, hv] at hr
    exact ih (hset h n v (equalsSign_not_mem_name heq hn) hP) hr
  | case5 h pos hlt h0 eq heq h₁ hno =>
    rw [rehashTuples_turn hlt h0 heq] at hr
    split at hr
    case h_1 hn hv => exact absurd hv (hno _ _ hn)
    case h_2 => exact absurd hr (by simp)
  | case6 h pos hlt =>
    rw [rehashTuples, if_neg hlt] at hr
    exact absurd hr (by simp)

/-! ## An image that holds variables -/

theorem rehashTuples_cons {t : NvramTuple} (hm : HoldsTuples h.mmap pos (t :: ts))
    (hname : equalsSign ∉ t.1.bytes) (hlen : pos + t.size ≤ h.length) :
    h.rehashTuples pos = (h.nvramSet t.1 t.2).2.rehashTuples (pos + t.size) := by
  obtain ⟨hn, hsign, hv, hzero⟩ := hm.head
  have hcell := slice_eq_iff.mp hn
  rw [size] at hlen
  have hfirst : ∀ i, pos ≤ i → i < pos + t.1.length → h.mmap i ≠ equalsSign ∧ h.mmap i ≠ 0 := by
    intro i hi hlt
    obtain ⟨k, rfl⟩ := Nat.exists_eq_add_of_le hi
    rw [CString.length] at hlt
    have hk : h.mmap (pos + k) ∈ t.1.bytes := by
      rw [hcell k (by omega)]
      exact getElem_mem _
    exact ⟨fun h' => hname (h' ▸ hk), fun h' => t.1.noZero (h' ▸ hk)⟩
  have h0 : h.mmap pos ≠ 0 := by
    rcases Nat.eq_zero_or_pos t.1.length with hempty | hne
    · rw [hempty] at hsign
      rw [show h.mmap pos = equalsSign from hsign]
      decide
    · exact (hfirst pos le_rfl (by omega)).2
  have heq : h.mmap.strchr equalsSign pos (h.length - pos) = some (some (pos + t.1.length)) :=
    (strchr_eq_some_iff _).mpr ⟨by omega, by omega, hsign, hfirst⟩
  have hreadName : (h.poke (pos + t.1.length) 0).mmap.readCStr pos (h.length - pos)
      = some t.1 := by
    refine (readCStr_eq_some_iff _).mpr ⟨?_, poke_self .., by omega⟩
    rw [← hn]
    exact slice_blit_of_disjoint h.mmap (.inl le_rfl)
  have hreadValue : (h.poke (pos + t.1.length) 0).mmap.readCStr (pos + t.1.length + 1)
      (h.length - (pos + t.1.length + 1)) = some t.2 := by
    refine (readCStr_eq_some_iff _).mpr ⟨?_, ?_, by omega⟩
    · rw [← hv]
      exact slice_blit_of_disjoint h.mmap (.inr (by rw [length_singleton]))
    · rw [poke_of_ne h (by omega), hzero]
  rw [rehashTuples_turn (by omega) h0 heq, hreadName, hreadValue]
  show (h.nvramSet t.1 t.2).2.rehashTuples (pos + t.1.length + 1 + t.2.length + 1) = _
  rw [size]
  congr 1
  omega

theorem rehashTuples_of_holds (hm : HoldsTuples h.mmap pos ts)
    (hname : ∀ t ∈ ts, equalsSign ∉ t.1.bytes) (hlen : pos + tuplesSize ts < h.length)
    (hspace : tuplesSize ts ≤ nvramSpace) :
    h.rehashTuples pos = some { h with nvramHash := h.nvramHash.insertAll ts } := by
  induction ts generalizing h pos with
  | nil =>
    have h0 : h.mmap pos = 0 := (cons.inj hm).1
    rw [rehashTuples, if_pos (by omega), if_pos h0]
    rfl
  | cons t ts ih =>
    rw [tuplesSize_cons] at hlen hspace
    have hvalue : t.2.length + 1 ≤ nvramSpace := by
      rw [size] at hspace
      omega
    rw [rehashTuples_cons hm (hname t mem_cons_self) (by omega), nvramSet_of_le hvalue]
    exact ih hm.tail (fun t' ht' => hname t' (mem_cons_of_mem _ ht'))
      (show pos + t.size + tuplesSize ts < h.length by omega) (by omega)

/-! ## The parameters of the header -/

theorem nvramGet_setSpecial {name value : CString} (hlen : value.length + 1 ≤ nvramSpace)
    (n : CString) : (h.setSpecial name value).nvramGet n
    = (h.nvramGet n).or (if n = name then some value else none) := by
  unfold setSpecial
  by_cases hn : n = name
  · subst hn
    rw [if_pos rfl]
    cases hget : h.nvramGet n with
    | none =>
      simp only [nvramGet_nvramSet, if_pos hlen, Function.update_self, none_or]
    | some v => rw [hget, some_or]
  · rw [if_neg hn, or_none]
    split
    · rw [nvramGet_nvramSet, if_pos hlen, Function.update_of_ne hn]
    · rfl

@[simp] theorem mmap_setSpecial (name value : CString) :
    (h.setSpecial name value).mmap = h.mmap := by
  unfold setSpecial
  split
  · exact mmap_nvramSet
  · rfl

@[simp] theorem length_setSpecial (name value : CString) :
    (h.setSpecial name value).length = h.length := by
  unfold setSpecial
  split
  · exact length_nvramSet
  · rfl

@[simp] theorem field_setSpecial (name value : CString) (order : ByteOrder) (f : NvramField) :
    (h.setSpecial name value).field order f = h.field order f := by
  rw [field, field, mmap_setSpecial, nvramHeader, nvramHeader, length_setSpecial]

variable (h) in
def sdramValue (order : ByteOrder) (name : CString) : Option CString :=
  if name = sdramInit then some (hexText 4 ((h.field order .crcVerInit >>> 16) % 2 ^ 16))
  else if name = sdramConfig then some (hexText 4 (h.field order .configRefresh % 2 ^ 16))
  else if name = sdramRefresh then
    some (hexText 4 ((h.field order .configRefresh >>> 16) % 2 ^ 16))
  else if name = sdramNcdl then some (hexText 8 (h.field order .configNcdl))
  else none

theorem length_hexText (n v : ℕ) : (hexText n v).length = n + 2 := by
  simp [hexText, CString.length]

theorem nvramGet_setSdram (name : CString) (order : ByteOrder) :
    (h.setSdram order).nvramGet name = (h.nvramGet name).or (h.sdramValue order name) := by
  have hlen4 : ∀ v, (hexText 4 v).length + 1 ≤ nvramSpace := by
    intro v
    rw [length_hexText, nvramSpace_eq]
    decide
  have hlen8 : ∀ v, (hexText 8 v).length + 1 ≤ nvramSpace := by
    intro v
    rw [length_hexText, nvramSpace_eq]
    decide
  simp only [setSdram, nvramGet_setSpecial (hlen4 _), nvramGet_setSpecial (hlen8 _),
    field_setSpecial, Option.or_assoc, sdramValue]
  congr 1
  split_ifs <;> rfl

theorem rehash_of_holds (order : ByteOrder)
    (hm : HoldsTuples h.mmap (h.nvramHeader + nvramHeaderSize) ts)
    (hname : ∀ t ∈ ts, equalsSign ∉ t.1.bytes) (hkeys : ts.NodupKeys)
    (hfit : nvramHeaderSize + tuplesSize ts < nvramSpace) :
    ∃ h', h.nvramRehash order = some h' ∧ h'.mmap = h.mmap ∧ h'.length = h.length
      ∧ ∀ name, h'.nvramGet name = (ts.dlookup name).or (h.sdramValue order name) := by
  have hspace := h.space_le
  have hwalk := rehashTuples_of_holds (h := h.nvramFree) hm hname
    (show h.nvramHeader + nvramHeaderSize + tuplesSize ts < h.length by
      rw [nvramHeader]
      omega) (by omega)
  refine ⟨_, by rw [nvramRehash, hwalk, map_some], ?_, ?_, fun name => ?_⟩
  · simp [setSdram, nvramFree]
  · simp [setSdram, nvramFree]
  · rw [nvramGet_setSdram]
    congr 1
    exact (HashTable.lookup_insertAll _ hkeys name).trans (by simp [nvramFree])

end NvramHandle
