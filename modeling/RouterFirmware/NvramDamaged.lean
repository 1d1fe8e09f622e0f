import RouterFirmware.NvramCommit

/-!
# Opening a damaged NVRAM

`_nvram_rehash` trusts the image: it walks from one string to the next until it
is at an empty one, or at one without an equals sign, and the image is at the
end of the mapped memory.
-/

def EndsInside (m : Bytes) (pos last : ℕ) : Prop :=
  ∃ p z, pos ≤ p ∧ p ≤ z ∧ z < last ∧ (p = pos ∨ m (p - 1) = 0) ∧ m z = 0
    ∧ ∀ i, p ≤ i → i < z → m i ≠ equalsSign ∧ m i ≠ 0

variable {pos : ℕ}

theorem not_endsInside_of_ne_zero {m : Bytes} {last : ℕ}
    (h : ∀ i, pos ≤ i → i < last → m i ≠ 0) : ¬ EndsInside m pos last := by
  rintro ⟨p, z, hp, hpz, hz, -, hzero, -⟩
  exact h z (by omega) hz hzero

theorem endsInside_next_iff {m : Bytes} {last eq z : ℕ} (hle : pos ≤ eq) (hz : eq < z)
    (heq : m eq = equalsSign) (hzero : m z = 0) (hno : ∀ i, pos ≤ i → i < z → m i ≠ 0) :
    EndsInside m pos last ↔ EndsInside m (z + 1) last := by
  constructor
  · rintro ⟨p, z', hp, hpz, hz', hbegin, hzero', hfirst⟩
    have hge : z ≤ z' := by
      by_contra hlt
      exact hno z' (by omega) (by omega) hzero'
    have hbehind : z + 1 ≤ p := by
      rcases hbegin with rfl | hbegin
      · exact absurd heq (hfirst eq hle (by omega)).1
      · by_contra hlt
        rcases Nat.eq_or_lt_of_le hp with rfl | hlt'
        · exact absurd heq (hfirst eq hle (by omega)).1
        · exact hno (p - 1) (by omega) (by omega) hbegin
    refine ⟨p, z', hbehind, hpz, hz', .inr ?_, hzero', hfirst⟩
    rcases hbegin with rfl | hbegin
    · omega
    · exact hbegin
  · rintro ⟨p, z', hp, hpz, hz', hbegin, hzero', hfirst⟩
    refine ⟨p, z', by omega, hpz, hz', .inr ?_, hzero', hfirst⟩
    rcases hbegin with rfl | hbegin
    · exact hzero
    · exact hbegin

namespace NvramHandle

open Memory

variable {h h' : NvramHandle} {order : ByteOrder} (hr : h.nvramRehash order = some h')

theorem exists_readCStr_poke {eq : ℕ}
    (heq : h.mmap.strchr equalsSign pos (h.length - pos) = some (some eq)) :
    ∃ n, (h.poke eq 0).mmap.readCStr pos (h.length - pos) = some n := by
  obtain ⟨hle, hlt, -, -⟩ := (strchr_eq_some_iff _).mp heq
  cases hread : (h.poke eq 0).mmap.readCStr pos (h.length - pos) with
  | none => exact absurd (poke_self h eq 0) ((readCStr_eq_none_iff _).mp hread eq hle hlt)
  | some n => exact ⟨n, rfl⟩

theorem isSome_rehashTuples_iff :
    (h.rehashTuples pos).isSome = true ↔ EndsInside h.mmap pos h.length := by
  induction h, pos using rehashTuples.induct with
  | case1 h pos hlt h0 =>
    rw [rehashTuples, if_pos hlt, if_pos h0]
    exact iff_of_true rfl
      ⟨pos, pos, Nat.le_refl _, Nat.le_refl _, hlt, .inl rfl, h0, fun i hi hi' => by omega⟩
  | case2 h pos hlt h0 heq =>
    have hnone : h.rehashTuples pos = none := by
      rw [rehashTuples, if_pos hlt, if_neg h0]
      split <;> simp_all
    rw [hnone]
    refine iff_of_false (by simp) (not_endsInside_of_ne_zero fun i hi hi' => ?_)
    exact ((strchr_eq_none_iff _).mp heq i hi (by omega)).2
  | case3 h pos hlt h0 heq =>
    have hsome : h.rehashTuples pos = some h := by
      rw [rehashTuples, if_pos hlt, if_neg h0]
      split <;> simp_all
    obtain ⟨z, hz, hzlt, hzero, hfirst⟩ := exists_zero_of_strchr _ heq
    rw [hsome]
    exact iff_of_true rfl ⟨pos, z, Nat.le_refl _, hz, by omega, .inl rfl, hzero, hfirst⟩
  | case4 h pos hlt h0 eq heq h₁ n v hv hn ih =>
    obtain ⟨hle, heqlt, hsign, hfirst⟩ := (strchr_eq_some_iff _).mp heq
    rw [poke_nvramSet_poke hsign] at ih
    change (h.poke eq 0).mmap.readCStr pos (h.length - pos) = some n at hn
    change (h.poke eq 0).mmap.readCStr (eq + 1) (h.length - (eq + 1)) = some v at hv
    rw [rehashTuples_turn hlt h0 heq, hn, hv]
    rw [mmap_nvramSet, length_nvramSet] at ih
    refine ih.trans (endsInside_next_iff hle (by omega) hsign ?_ fun i hi hi' => ?_).symm
    · obtain ⟨-, hzero, -⟩ := (readCStr_eq_some_iff _).mp hv
      rwa [poke_of_ne h (by omega)] at hzero
    · rcases Nat.lt_trichotomy i eq with hlt' | rfl | hgt
      · exact (hfirst i hi hlt').2
      · rw [hsign]
        decide
      · obtain ⟨hslice, -, -⟩ := (readCStr_eq_some_iff _).mp hv
        obtain ⟨k, rfl⟩ := Nat.exists_eq_add_of_le (Nat.succ_le_of_lt hgt)
        have hcell := slice_eq_iff.mp hslice k (by rw [CString.length] at hi'; omega)
        rw [poke_of_ne h (by omega)] at hcell
        rw [hcell]
        exact fun hzero => v.noZero (hzero ▸ List.getElem_mem _)
  | case5 h pos hlt h0 eq heq h₁ hno =>
    obtain ⟨hle, heqlt, hsign, hfirst⟩ := (strchr_eq_some_iff _).mp heq
    obtain ⟨n, hn⟩ := exists_readCStr_poke heq
    have hv : (h.poke eq 0).mmap.readCStr (eq + 1) (h.length - (eq + 1)) = none := by
      cases hv : (h.poke eq 0).mmap.readCStr (eq + 1) (h.length - (eq + 1)) with
      | none => rfl
      | some v => exact absurd hv (hno n v hn)
    rw [rehashTuples_turn hlt h0 heq, hn, hv]
    refine iff_of_false (by simp) (not_endsInside_of_ne_zero fun i hi hi' => ?_)
    rcases Nat.lt_trichotomy i eq with hlt' | rfl | hgt
    · exact (hfirst i hi hlt').2
    · rw [hsign]
      decide
    · have hcell := (readCStr_eq_none_iff _).mp hv i hgt (by omega)
      rwa [poke_of_ne h (by omega)] at hcell
  | case6 h pos hlt =>
    rw [rehashTuples, if_neg hlt]
    refine iff_of_false (by simp) ?_
    rintro ⟨p, z, hp, hpz, hz, -⟩
    omega

include hr

theorem mmap_nvramRehash : h'.mmap = h.mmap := by
  obtain ⟨g, hg, rfl⟩ := Option.map_eq_some_iff.mp hr
  have hwalk : g.mmap = h.mmap := by
    refine rehash_invariant (h := h.nvramFree) (fun g => g.mmap = h.mmap)
      (fun g n v _ hg => ?_) rfl hg
    rw [mmap_nvramSet, hg]
  simp [setSdram, hwalk]

theorem length_nvramRehash : h'.length = h.length := by
  obtain ⟨g, hg, rfl⟩ := Option.map_eq_some_iff.mp hr
  have hwalk : g.length = h.length := by
    refine rehash_invariant (h := h.nvramFree) (fun g => g.length = h.length)
      (fun g n v _ hg => ?_) rfl hg
    rw [length_nvramSet, hg]
  simp [setSdram, hwalk]

omit hr

theorem isSome_nvramRehash_iff (order : ByteOrder) : (h.nvramRehash order).isSome = true
    ↔ EndsInside h.mmap (h.nvramHeader + nvramHeaderSize) h.length := by
  rw [nvramRehash, Option.isSome_map, isSome_rehashTuples_iff]
  rfl

end NvramHandle

theorem EndsInside.congr {m : Bytes} {last : ℕ} {m' : Bytes}
    (hm : ∀ i, pos ≤ i → m' i = m i) (h : EndsInside m pos last) : EndsInside m' pos last := by
  obtain ⟨p, z, hp, hpz, hz, hbegin, hzero, hfirst⟩ := h
  refine ⟨p, z, hp, hpz, hz, ?_, by rw [hm z (by omega), hzero], fun i hi hi' => ?_⟩
  · rcases Nat.eq_or_lt_of_le hp with rfl | hlt
    · exact .inl rfl
    · refine hbegin.imp_right fun hb => ?_
      rw [hm (p - 1) (by omega), hb]
  · rw [hm i (by omega)]
    exact hfirst i hi hi'

/-- **Opening an image with the right magic number is contained** – it does not
leave the image, and leaves the image as it was – if and only if the image has
a string without an equals sign at which the walk ends. -/
theorem nvramOpen_contained_iff (order : ByteOrder) (image : Bytes) (length : ℕ)
    (hlen : nvramSpace ≤ length)
    (hmagic : (NvramHandle.mapped image length hlen).field order .magic = nvramMagic) :
    (∃ g, nvramOpen order image length hlen = .handle g
        ∧ ∀ i, length - nvramSpace ≤ i → g.mmap i = image i)
      ↔ EndsInside image (length - nvramSpace + nvramHeaderSize) length := by
  have hcell : ∀ i, length - nvramSpace + nvramHeaderSize ≤ i →
      (NvramHandle.mapped image length hlen).mmap i = image i := fun i hi =>
    NvramHandle.mmap_mapped_of_le hlen (by omega)
  have hends := NvramHandle.isSome_nvramRehash_iff (h := NvramHandle.mapped image length hlen) order
  constructor
  · rintro ⟨g, hopen, -⟩
    rw [nvramOpen, if_pos hmagic] at hopen
    cases hr : (NvramHandle.mapped image length hlen).nvramRehash order with
    | none => simp [hr] at hopen
    | some g' =>
      rw [hr] at hends
      exact (hends.mp rfl).congr fun i hi => (hcell i hi).symm
  · intro himage
    obtain ⟨g, hg⟩ := Option.isSome_iff_exists.mp (hends.mpr (himage.congr hcell))
    refine ⟨g, ?_, fun i hi => ?_⟩
    · rw [nvramOpen, if_pos hmagic]
      simp only [hg]
    · rw [NvramHandle.mmap_nvramRehash hg, NvramHandle.mmap_mapped_of_le hlen hi]

def magicImage (m : Bytes) : Bytes := m.store .little 4 0 nvramMagic

theorem magic_magicImage (m : Bytes) :
    (NvramHandle.mapped (magicImage m) nvramSpace le_rfl).field .little .magic = nvramMagic := by
  let h : NvramHandle := ⟨magicImage m, nvramSpace, le_rfl, .empty, []⟩
  have hheader : h.nvramHeader = 0 := Nat.sub_self nvramSpace
  have hmagic : h.field .little .magic = nvramMagic := by
    rw [NvramHandle.field, hheader]
    exact (Memory.load_store_self _ .little 4 0 nvramMagic).trans (by decide)
  rw [← hmagic]
  exact NvramHandle.field_congr (h := h) .little (NvramHandle.length_mapped le_rfl)
    (fun i hi _ => NvramHandle.mmap_mapped_of_le le_rfl hi) _

theorem magicImage_of_le (m : Bytes) {i : ℕ} (hi : 4 ≤ i) : magicImage m i = m i :=
  m.store_of_outside .little nvramMagic (.inr hi)

def twoTuples : Bytes :=
  magicImage (Memory.blit (fun _ => 0) nvramHeaderSize [0x61, 0x3D, 0x62, 0, 0x63, 0x3D, 0])

/-- **An image with two tuples** is opened: the walk ends at the empty string
behind them. -/
theorem nvramOpen_contained_twoTuples :
    ∃ g, nvramOpen .little twoTuples nvramSpace le_rfl = .handle g
      ∧ ∀ i, nvramSpace - nvramSpace ≤ i → g.mmap i = twoTuples i := by
  have hend : twoTuples (nvramHeaderSize + 7) = 0 := by decide
  have hbefore : twoTuples (nvramHeaderSize + 6) = 0 := by decide
  refine (nvramOpen_contained_iff .little twoTuples nvramSpace le_rfl (magic_magicImage _)).mpr ?_
  rw [Nat.sub_self, Nat.zero_add]
  refine ⟨nvramHeaderSize + 7, nvramHeaderSize + 7, by omega, le_rfl, ?_, .inr hbefore, hend,
    fun i hi hi' => by omega⟩
  rw [nvramSpace_eq, nvramHeaderSize]
  decide

/-- **An erased tuple area** behind a magic number: the walk leaves the image. -/
theorem nvramOpen_leaves_erased :
    nvramOpen .little (magicImage fun _ => 0xFF) nvramSpace le_rfl = .fault := by
  have hnone : (NvramHandle.mapped (magicImage fun _ => 0xFF) nvramSpace le_rfl).nvramRehash .little
      = none := by
    refine Option.not_isSome_iff_eq_none.mp fun hsome => ?_
    refine not_endsInside_of_ne_zero (fun i hi _ => ?_)
      ((NvramHandle.isSome_nvramRehash_iff .little).mp hsome)
    have hge : nvramHeaderSize ≤ i := le_trans (Nat.le_add_left _ _) hi
    rw [nvramHeaderSize] at hge
    rw [NvramHandle.mmap_mapped_of_le le_rfl (by omega), magicImage_of_le _ (by omega)]
    decide
  rw [nvramOpen, if_pos (magic_magicImage _)]
  simp only [hnone]
