import Mathlib.Algebra.GroupWithZero.Nat
import Mathlib.Data.List.Chain
import RouterFirmware.FisRemap

/-!
# Where `fis_remap` puts the new partitions

The new partitions begin where the first old one began and follow one another
in the flash.
-/

namespace Fis

open List Memory ListSpan RemapScan Option

/-! ## Ranges of the flash -/

def ImageDesc.begins (d : ImageDesc) : ℕ := d.flashBase.toNat

def ImageDesc.ends (d : ImageDesc) : ℕ := d.flashBase.toNat + d.size.toNat

def Apart (d d' : ImageDesc) : Prop := d.ends ≤ d'.begins ∨ d'.ends ≤ d.begins

instance (d d' : ImageDesc) : Decidable (Apart d d') := inferInstanceAs (Decidable (_ ∨ _))

instance : Std.Symm Apart where
  symm _ _ := Or.symm

theorem ImageDesc.begins_le_ends (d : ImageDesc) : d.begins ≤ d.ends := Nat.le_add_right ..

section Region

variable (slots : ℕ) (m : Memory ImageDesc) (old : List Part)

def others : List ImageDesc := (table slots m).filter (!·.isOld old)

def regionBegin : ℕ := (m (before slots m old).length).begins

def regionEnd : ℕ :=
  match (((others slots m old).map ImageDesc.begins).filter (regionBegin slots m old ≤ ·)).min? with
  | some a => a
  | none => (((table slots m).filter (ImageDesc.isOld old)).map ImageDesc.ends).foldr max
      (regionBegin slots m old)

/-- **The new partitions tile the region.** -/
structure Tiles (ds : List ImageDesc) : Prop where
  starts : ∀ d ∈ ds.head?, d.begins = regionBegin slots m old
  follows : ds.IsChain fun d d' => d'.begins = d.ends
  apart : ds.Pairwise Apart
  inside : ∀ d ∈ ds, regionBegin slots m old ≤ d.begins ∧ d.ends ≤ regionEnd slots m old
  others : ∀ d ∈ ds, ∀ o ∈ others slots m old, Apart d o

end Region

def newSizes : UInt32 → List Part → List ℕ
  | _, [] => []
  | size, part :: parts =>
    let partSize := if 0 < part.size then part.size else size
    partSize.toNat :: newSizes (size - partSize) parts

section Shared

variable (slots : ℕ) (m : Memory ImageDesc) (old : List Part)

def gapEnd : Option ImageDesc :=
  (table slots m).getLast?.bind fun d =>
    if d.isOld old then ((table slots m).filter ImageDesc.isFisdir).getLast? else some d

def gap : UInt32 :=
  match ((table slots m).filter (ImageDesc.isOld old)).getLast?, gapEnd slots m old with
  | some l, some d => if l.flashBase < d.flashBase - l.size then d.flashBase - l.flashBase - l.size
      else 0
  | _, _ => 0

def sharedSize : UInt32 :=
  (((table slots m).filter (ImageDesc.isOld old)).map ImageDesc.size).foldl (· + ·) 0
    + gap slots m old

end Shared

def SizesFit (slots : ℕ) (m : Memory ImageDesc) (old new : List Part) : Prop :=
  regionBegin slots m old + (newSizes (sharedSize slots m old) new).sum ≤ regionEnd slots m old
    ∧ regionBegin slots m old + (newSizes (sharedSize slots m old) new).dropLast.sum < 2 ^ 32

section FreedSize

variable {slots : ℕ} {m : Memory ImageDesc} {old : List Part}

theorem fisdir_foldl (ds : List ImageDesc) (s : RemapScan) (hds : m.slice s.desc ds.length = ds) :
    (ds.foldl (turn old) s).fisdir.map m
      = (ds.filter ImageDesc.isFisdir).getLast?.or (s.fisdir.map m) := by
  induction ds generalizing s with
  | nil => rfl
  | cons d ds ih =>
    rw [length_cons, slice_succ] at hds
    obtain ⟨hd, hds⟩ := cons.inj hds
    rw [foldl_cons, ih (s.turn old d) hds]
    by_cases hdir : d.isFisdir
    · have hturn : (s.turn old d).fisdir.map m = some d := by
        rw [turn, if_pos hdir, map_some, hd]
      rw [hturn, filter_cons_of_pos hdir, getLast?_cons]
      cases (ds.filter ImageDesc.isFisdir).getLast? <;> rfl
    · have hturn : (s.turn old d).fisdir = s.fisdir := if_neg hdir
      rw [hturn, filter_cons_of_neg hdir]

theorem slice_table : m.slice 0 (table slots m).length = table slots m := by
  have hall : m.slice 0 (table slots m ++ rest slots m).length = table slots m ++ rest slots m := by
    rw [length_append, length_table_add_rest, table_append_rest]
  exact (slice_append_iff.mp hall).1

theorem getLast?_table (h : table slots m ≠ []) :
    (table slots m).getLast? = some (m ((table slots m).length - 1)) := by
  have hpos := length_pos_iff.mpr h
  have hslice : m.slice 0 (table slots m).length = table slots m := slice_table
  have hcell := slice_eq_iff.mp hslice ((table slots m).length - 1) (by omega)
  rw [getLast?_eq_getElem?, getElem?_eq_getElem (by omega), ← hcell, Nat.zero_add]

theorem getLast?_old (hspan : spanned slots m old ≠ []) :
    ((table slots m).filter (ImageDesc.isOld old)).getLast?
      = some (m ((before slots m old).length + (spanned slots m old).length - 1)) := by
  obtain ⟨xs, x, hconcat, hx⟩ := exists_concat hspan
  have hconcat : spanned slots m old = xs ++ [x] := hconcat
  have hfilter : (spanned slots m old).filter (ImageDesc.isOld old)
      = (table slots m).filter (ImageDesc.isOld old) := filter_spanned
  have hparts : (before slots m old ++ xs) ++ ([x] ++ behind slots m old) = table slots m := by
    rw [← append_eq (ImageDesc.isOld old) (table slots m), ← before, ← spanned, ← behind, hconcat]
    simp only [append_assoc]
  have hslice : m.slice 0 (table slots m).length = table slots m := slice_table
  rw [← hparts] at hslice
  have hcell : m (0 + (before slots m old ++ xs).length) = x :=
    (cons.inj (slice_append_iff.mp (slice_append_iff.mp hslice).2).1).1
  rw [Nat.zero_add, length_append] at hcell
  rw [← hfilter, hconcat, filter_append, filter_cons_of_pos hx, filter_nil, getLast?_concat,
    length_append, length_singleton, ← Nat.add_assoc, Nat.add_sub_cancel, hcell]

theorem freedSize_eq (hspan : spanned slots m old ≠ []) :
    freedSize slots m old = sharedSize slots m old := by
  have hlast := getLast?_old hspan
  have htable : (table slots m).length = (before slots m old).length
    + (spanned slots m old).length + (behind slots m old).length := length_table
  have hpos := length_pos_iff.mpr hspan
  have hne : table slots m ≠ [] := length_pos_iff.mp (by omega)
  have hscan : remapScan m old slots .start = (table slots m).foldl (turn old) .start :=
    remapScan_eq slots .start
  have hdesc : (remapScan m old slots .start).desc = (table slots m).length := by
    rw [hscan, desc_foldl]
    exact Nat.zero_add _
  have hsize : (remapScan m old slots .start).size
      = (((table slots m).filter (ImageDesc.isOld old)).map ImageDesc.size).foldl (· + ·) 0 := by
    rw [hscan, size_foldl]
    rfl
  have hfisdir : (remapScan m old slots .start).fisdir.map m
      = ((table slots m).filter ImageDesc.isFisdir).getLast? := by
    rw [hscan, fisdir_foldl _ _ slice_table]
    exact or_none
  have hgap : gapEnd slots m old
      = (if (remapScan m old slots .start).desc - 1
            = (before slots m old).length + (spanned slots m old).length - 1
          then (remapScan m old slots .start).fisdir
          else some ((remapScan m old slots .start).desc - 1)).map m := by
    rw [gapEnd, getLast?_table hne, bind_some, hdesc]
    by_cases hend : (table slots m).length - 1
        = (before slots m old).length + (spanned slots m old).length - 1
    · have hold : (m ((table slots m).length - 1)).isOld old = true := by
        rw [hend]
        exact (mem_filter.mp (mem_of_getLast? hlast)).2
      rw [if_pos hold, if_pos hend, hfisdir]
    · have hbehind : behind slots m old ≠ [] := length_pos_iff.mp (by omega)
      have hmem : m ((table slots m).length - 1) ∈ behind slots m old := by
        refine mem_of_getLast? ?_
        rw [← getLast?_table hne, ← append_eq (ImageDesc.isOld old) (table slots m), ← before,
          ← spanned, ← behind, ← append_assoc, getLast?_append_of_ne_nil _ hbehind]
      rw [if_neg (by rw [of_mem_behind hmem]; simp), if_neg hend, map_some]
  rw [freedSize, sharedSize, hsize, gap, hlast, hgap, sizeFixup]
  congr 1
  cases (if (remapScan m old slots .start).desc - 1
    = (before slots m old).length + (spanned slots m old).length - 1
    then (remapScan m old slots .start).fisdir
    else some ((remapScan m old slots .start).desc - 1)) <;> rfl

end FreedSize

section NewDescs

theorem sizes_newDescs (offset size : UInt32) (parts : List Part) :
    (newDescs offset size parts).map (fun d => d.size.toNat) = newSizes size parts := by
  induction parts generalizing offset size with
  | nil => rfl
  | cons p parts ih => rw [newDescs, newSizes, map_cons, ih]

theorem newDescs_follow {offset size : UInt32} {parts : List Part}
    (h : offset.toNat + (newSizes size parts).dropLast.sum < 2 ^ 32) :
    (∀ d ∈ (newDescs offset size parts).head?, d.begins = offset.toNat)
      ∧ (newDescs offset size parts).IsChain (fun d d' => d'.begins = d.ends)
      ∧ (newDescs offset size parts).Pairwise (fun d d' => d.ends ≤ d'.begins)
      ∧ ∀ d ∈ newDescs offset size parts, offset.toNat ≤ d.begins
        ∧ d.ends ≤ offset.toNat + (newSizes size parts).sum := by
  induction parts generalizing offset size with
  | nil => exact ⟨nofun, .nil, .nil, nofun⟩
  | cons p parts ih =>
    rw [newSizes] at h
    rw [newDescs, newSizes]
    generalize (if 0 < p.size then p.size else size) = partSize at h ⊢
    cases parts with
    | nil =>
      refine ⟨?_, .singleton _, pairwise_singleton _ _, ?_⟩
      · intro d hd
        obtain rfl := some.inj hd
        rfl
      · intro d hd
        obtain rfl := mem_singleton.mp hd
        exact ⟨Nat.le_refl _, Nat.le_refl _⟩
    | cons q parts =>
      have hdrop : (partSize.toNat :: newSizes (size - partSize) (q :: parts)).dropLast
          = partSize.toNat :: (newSizes (size - partSize) (q :: parts)).dropLast := rfl
      rw [hdrop, sum_cons] at h
      have hoffset : (offset + partSize).toNat = offset.toNat + partSize.toNat := by
        rw [UInt32.toNat_add]
        exact Nat.mod_eq_of_lt (by omega)
      have hroom : (offset + partSize).toNat
          + (newSizes (size - partSize) (q :: parts)).dropLast.sum < 2 ^ 32 := by omega
      obtain ⟨hstarts, hfollows, hapart, hinside⟩ := ih hroom
      rw [hoffset] at hstarts hinside
      refine ⟨?_, isChain_cons.mpr ⟨hstarts, hfollows⟩,
        pairwise_cons.mpr ⟨fun d hd => (hinside d hd).1, hapart⟩, ?_⟩
      · intro d hd
        obtain rfl := some.inj hd
        rfl
      · intro d hd
        rw [sum_cons]
        rcases mem_cons.mp hd with rfl | hd
        · refine ⟨Nat.le_refl _, ?_⟩
          show offset.toNat + partSize.toNat ≤ _
          omega
        · obtain ⟨hbegins, hends⟩ := hinside d hd
          omega

theorem exists_last_of_follows {ds : List ImageDesc} (hne : ds ≠ []) {a : ℕ}
    (hstarts : ∀ d ∈ ds.head?, d.begins = a)
    (hfollows : ds.IsChain fun d d' => d'.begins = d.ends) :
    ∃ d ∈ ds, d.begins = a + (ds.map fun d => d.size.toNat).dropLast.sum
      ∧ d.ends = a + (ds.map fun d => d.size.toNat).sum := by
  induction ds generalizing a with
  | nil => exact absurd rfl hne
  | cons d ds ih =>
    have hd : d.begins = a := hstarts d rfl
    have hends : d.ends = a + d.size.toNat := by rw [← hd]; rfl
    cases ds with
    | nil => exact ⟨d, mem_singleton_self d, hd, by simpa using hends⟩
    | cons e ds =>
      obtain ⟨hnext, hrest⟩ := isChain_cons.mp hfollows
      obtain ⟨l, hl, hbegins, hlast⟩ := ih (by simp) (a := d.ends) hnext hrest
      refine ⟨l, mem_cons_of_mem d hl, ?_, ?_⟩
      · rw [hbegins, hends, Nat.add_assoc]
        rfl
      · rw [hlast, hends, Nat.add_assoc]
        rfl

end NewDescs

/-! ## The region -/

section Tiling

variable {slots : ℕ} {m : Memory ImageDesc} {old : List Part} (hspan : spanned slots m old ≠ [])

include hspan

theorem exists_first : m (before slots m old).length ∈ table slots m
    ∧ (m (before slots m old).length).isOld old = true := by
  obtain ⟨x, xs, hcons, hx⟩ := exists_cons hspan
  have hcons : spanned slots m old = x :: xs := hcons
  have hlength := length_eq slots m old
  have hslice := slice_eq slots m old
  rw [hcons, length_cons] at hlength
  have hcell : m (before slots m old).length = x := by
    have hget : (m.slice 0 slots)[(before slots m old).length]?
        = some (m (before slots m old).length) := by
      rw [getElem?_eq_getElem (by rw [length_slice]; omega), getElem_slice, Nat.zero_add]
    rw [hslice, getElem?_append_right (Nat.le_refl _), Nat.sub_self, hcons] at hget
    exact (some.inj hget).symm
  rw [hcell]
  exact ⟨mem_table_of_mem_spanned (by rw [hcons]; exact mem_cons_self), hx⟩

omit hspan in
theorem regionEnd_le {o : ImageDesc} (ho : o ∈ others slots m old)
    (hle : regionBegin slots m old ≤ o.begins) : regionEnd slots m old ≤ o.begins := by
  have hmem : o.begins ∈ ((others slots m old).map ImageDesc.begins).filter
      (regionBegin slots m old ≤ ·) := mem_filter.mpr ⟨mem_map_of_mem ho, by simpa using hle⟩
  unfold regionEnd
  cases hmin : (((others slots m old).map ImageDesc.begins).filter
      (regionBegin slots m old ≤ ·)).min? with
  | none =>
    rw [min?_eq_none_iff.mp hmin] at hmem
    exact absurd hmem not_mem_nil
  | some a => exact (min?_eq_some_iff.mp hmin).2 _ hmem

theorem others_outside (hdisjoint : (table slots m).Pairwise Apart) {o : ImageDesc}
    (ho : o ∈ others slots m old) :
    o.ends ≤ regionBegin slots m old ∨ regionEnd slots m old ≤ o.begins := by
  by_cases hle : regionBegin slots m old ≤ o.begins
  · exact .inr (regionEnd_le ho hle)
  · obtain ⟨hfirst, hold⟩ := exists_first hspan
    obtain ⟨htable, hnot⟩ := mem_filter.mp ho
    have hne : o ≠ m (before slots m old).length := by
      rintro rfl
      rw [hold] at hnot
      exact absurd hnot (by simp)
    have hfirst_le := (m (before slots m old).length).begins_le_ends
    rcases hdisjoint.forall htable hfirst hne with h | h
    · exact .inl h
    · rw [regionBegin] at hle
      omega

omit hspan in
theorem slice_new {new : List Part} {m' : Memory ImageDesc}
    (h : fisRemap slots m old new = some m') :
    m'.slice (before slots m old).length new.length = writtenDescs slots m old new := by
  obtain ⟨⟨-, -, hroom⟩, hslice, -⟩ := slice_fisRemap h
  have hsplit : m'.slice 0 slots = m'.slice 0 (before slots m old).length
      ++ (m'.slice (before slots m old).length new.length
        ++ m'.slice ((before slots m old).length + new.length)
          (slots - ((before slots m old).length + new.length))) := by
    rw [show m'.slice 0 slots = m'.slice 0 ((before slots m old).length + (new.length
      + (slots - ((before slots m old).length + new.length)))) by congr 1; omega,
      slice_add, slice_add, Nat.zero_add]
  rw [hsplit] at hslice
  obtain ⟨-, hrest⟩ := append_inj hslice (length_slice ..)
  exact (append_inj hrest (by rw [length_slice, length_writtenDescs])).1

theorem tiles_of_sizesFit {new : List Part} (hdisjoint : (table slots m).Pairwise Apart)
    (h : SizesFit slots m old new) : Tiles slots m old (writtenDescs slots m old new) := by
  obtain ⟨hfit, hbelow⟩ := h
  rw [← freedSize_eq hspan] at hfit hbelow
  obtain ⟨hstarts, hfollows, hapart, hinside⟩ := newDescs_follow hbelow
  have hregion : ∀ d ∈ writtenDescs slots m old new,
      regionBegin slots m old ≤ d.begins ∧ d.ends ≤ regionEnd slots m old := fun d hd =>
    ⟨(hinside d hd).1, (hinside d hd).2.trans hfit⟩
  refine ⟨hstarts, hfollows, hapart.imp .inl, hregion, fun d hd o ho => ?_⟩
  obtain ⟨hbegins, hends⟩ := hregion d hd
  rcases others_outside hspan hdisjoint ho with h | h
  · exact .inr (h.trans hbegins)
  · exact .inl (hends.trans h)

theorem sizesFit_of_tiles {new : List Part} (hnew : new ≠ [])
    (h : Tiles slots m old (writtenDescs slots m old new)) : SizesFit slots m old new := by
  have hne : writtenDescs slots m old new ≠ [] := by
    rw [← length_pos_iff, length_writtenDescs]
    exact length_pos_iff.mpr hnew
  obtain ⟨d, hd, hbegins, hends⟩ := exists_last_of_follows hne h.starts h.follows
  rw [writtenDescs, sizes_newDescs, freedSize_eq hspan] at hbegins hends
  refine ⟨?_, ?_⟩
  · rw [← hends]
    exact (h.inside d hd).2
  · rw [← hbegins]
    exact d.flashBase.toNat_lt

end Tiling

def Writes (slots : ℕ) (m : Memory ImageDesc) (old new : List Part) : Prop :=
  spanned slots m old ≠ [] ∧ (spanned slots m old).length ≤ new.length
    ∧ (before slots m old).length + new.length ≤ slots

theorem exists_fisRemap_iff {slots : ℕ} {m : Memory ImageDesc} {old new : List Part} :
    (∃ m', fisRemap slots m old new = some m') ↔ Writes slots m old new := by
  constructor
  · rintro ⟨m', h⟩
    exact (slice_fisRemap h).1
  · rintro ⟨hspan, hfits⟩
    rw [fisRemap_eq hspan, if_pos hfits]
    exact ⟨_, rfl⟩

/-- **When the new partitions tile the region of the old ones**: exactly if
they are not written at all, or their sizes fit. -/
theorem fisRemap_tiles_iff (slots : ℕ) (m : Memory ImageDesc) (old new : List Part)
    (hdisjoint : (table slots m).Pairwise Apart) : (∀ m', fisRemap slots m old new = some m' →
      Tiles slots m old (m'.slice (before slots m old).length new.length))
    ↔ (Writes slots m old new → SizesFit slots m old new) := by
  constructor
  · rintro h ⟨hspan, hlong, hroom⟩
    obtain ⟨m', hremap⟩ := exists_fisRemap_iff.mpr ⟨hspan, hlong, hroom⟩
    have hnew : new ≠ [] := by
      rintro rfl
      exact hspan (length_eq_zero_iff.mp (Nat.le_zero.mp hlong))
    refine sizesFit_of_tiles hspan hnew ?_
    rw [← slice_new hremap]
    exact h m' hremap
  · intro h m' hremap
    have hwrites := (slice_fisRemap hremap).1
    rw [slice_new hremap]
    exact tiles_of_sizesFit hwrites.1 hdisjoint (h hwrites)

/-- One partition is replaced by two of half its size. -/
theorem fisRemap_tiles_letters :
    ∃ m', fisRemap 6 letterTable [letterPart 98 0] [letterPart 100 0x8000, letterPart 101 0]
        = some m'
      ∧ Tiles 6 letterTable [letterPart 98 0] (m'.slice 1 2) := by
  obtain ⟨m', hremap⟩ : ∃ m', fisRemap 6 letterTable [letterPart 98 0]
      [letterPart 100 0x8000, letterPart 101 0] = some m' :=
    exists_fisRemap_iff.mpr ⟨by decide +kernel, by decide +kernel, by decide +kernel⟩
  exact ⟨m', hremap, (fisRemap_tiles_iff 6 letterTable [letterPart 98 0]
    [letterPart 100 0x8000, letterPart 101 0] (by decide +kernel)).mpr
    (fun _ => ⟨by decide +kernel, by decide +kernel⟩) m' hremap⟩

/-- **A partition is replaced by one of twice its size**: the lists are
accepted, and the new partition is where the next one is. -/
theorem fisRemap_overlaps : fisValidate 6 letterTable [letterPart 98 0] [letterPart 100 0x20000] = 1
    ∧ (table 6 letterTable).Pairwise Apart
    ∧ ∃ m', fisRemap 6 letterTable [letterPart 98 0] [letterPart 100 0x20000] = some m'
      ∧ ¬ Tiles 6 letterTable [letterPart 98 0] (m'.slice 1 1) := by
  obtain ⟨m', hremap⟩ : ∃ m', fisRemap 6 letterTable [letterPart 98 0] [letterPart 100 0x20000]
      = some m' := exists_fisRemap_iff.mpr ⟨by decide +kernel, by decide +kernel, by decide +kernel⟩
  have hslice : m'.slice 1 1
      = writtenDescs 6 letterTable [letterPart 98 0] [letterPart 100 0x20000] := slice_new hremap
  have hnew : writtenDescs 6 letterTable [letterPart 98 0] [letterPart 100 0x20000]
      = [letterDesc 100 0x20000 0x20000] := rfl
  refine ⟨by decide +kernel, by decide +kernel, m', hremap, fun h => ?_⟩
  rw [hslice, hnew] at h
  have hnext : letterTable 2 ∈ others 6 letterTable [letterPart 98 0] := by
    refine mem_filter.mpr ⟨?_, by decide +kernel⟩
    rw [table_letterTable]
    exact mem_cons_of_mem _ (mem_cons_of_mem _ mem_cons_self)
  have hapart := h.others _ (mem_singleton_self _) (letterTable 2) hnext
  exact absurd hapart (by decide +kernel)

end Fis
