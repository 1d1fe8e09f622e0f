import Mathlib.Data.List.Forall2
import RouterFirmware.FisTable

/-!
# What `fis_remap` makes of the table

The table is what is before the first old partition, the span from the first to
the last, and what is behind (`ListSpan`).
-/

namespace Fis

open List ImageDesc ListSpan Memory Option

variable {slots : ℕ} {m : Memory ImageDesc} {old new : List Part}

def table (slots : ℕ) (m : Memory ImageDesc) : List ImageDesc :=
  (m.slice 0 slots).takeWhile (!·.isEnd)

def rest (slots : ℕ) (m : Memory ImageDesc) : List ImageDesc :=
  (m.slice 0 slots).dropWhile (!·.isEnd)

theorem table_append_rest : table slots m ++ rest slots m = m.slice 0 slots :=
  takeWhile_append_dropWhile

theorem length_table_add_rest : (table slots m).length + (rest slots m).length = slots := by
  rw [← length_append, table_append_rest, length_slice]

variable {d : ImageDesc}

theorem isEnd_of_mem_table (h : d ∈ table slots m) : d.isEnd = false := by
  have := mem_takeWhile_imp h
  simpa using this

theorem isEnd_of_rest_cons {ds : List ImageDesc} (h : rest slots m = d :: ds) : d.isEnd = true := by
  have hhead := head?_dropWhile_not (!·.isEnd) (m.slice 0 slots)
  rw [← rest, h] at hhead
  simpa using hhead

/-! ## The loops over the table -/

theorem validateScan_eq (k desc found : ℕ) : validateScan m old k desc found
    = found + (((m.slice desc k).takeWhile (!·.isEnd)).filter (isOld old)).length := by
  induction k generalizing desc found with
  | zero => rfl
  | succ k ih =>
    rw [validateScan, slice_succ]
    by_cases hend : (m desc).isEnd
    · rw [if_pos hend, takeWhile_cons_of_neg (by simp [hend])]
      rfl
    · rw [if_neg hend, ih, takeWhile_cons_of_pos (by simp [hend])]
      by_cases hold : (m desc).isOld old
      · rw [if_pos hold, filter_cons_of_pos hold, length_cons]
        omega
      · rw [if_neg hold, filter_cons_of_neg hold]

theorem fisValidate_eq_one_iff : fisValidate slots m old new = 1
    ↔ (∀ p ∈ new.dropLast, p.size ≠ 0)
      ∧ ((table slots m).filter (isOld old)).length = old.length := by
  rw [fisValidate, validateScan_eq, Nat.zero_add, ← table]
  by_cases hsize : new.dropLast.any (fun p => p.size == 0)
  · rw [if_pos hsize]
    obtain ⟨p, hp, hzero⟩ := any_eq_true.mp hsize
    exact iff_of_false (by decide) fun h => h.1 p hp (beq_iff_eq.mp hzero)
  · have hall : ∀ p ∈ new.dropLast, p.size ≠ 0 := fun p hp hzero =>
      hsize (any_eq_true.mpr ⟨p, hp, beq_iff_eq.mpr hzero⟩)
    rw [if_neg hsize]
    split_ifs with hfound
    · exact iff_of_true rfl ⟨hall, hfound⟩
    · exact iff_of_false (by decide) fun h => hfound h.2

theorem remapScan_eq (k : ℕ) (s : RemapScan) : remapScan m old k s
    = ((m.slice s.desc k).takeWhile (!·.isEnd)).foldl (RemapScan.turn old) s := by
  induction k generalizing s with
  | zero => rfl
  | succ k ih =>
    rw [remapScan, slice_succ]
    by_cases hend : (m s.desc).isEnd
    · rw [if_pos hend, takeWhile_cons_of_neg (by simp [hend])]
      rfl
    · rw [if_neg hend, ih, takeWhile_cons_of_pos (by simp [hend])]
      rfl

namespace RemapScan

variable (s : RemapScan) (ds : List ImageDesc)

@[simp] theorem desc_turn (d : ImageDesc) : (s.turn old d).desc = s.desc + 1 := rfl

@[simp] theorem first_turn (d : ImageDesc) :
    (s.turn old d).first = if d.isOld old then s.first.or (some s.desc) else s.first := rfl

@[simp] theorem last_turn (d : ImageDesc) :
    (s.turn old d).last = if d.isOld old then some s.desc else s.last := rfl

@[simp] theorem size_turn (d : ImageDesc) :
    (s.turn old d).size = if d.isOld old then s.size + d.size else s.size := rfl

theorem desc_foldl : (ds.foldl (turn old) s).desc = s.desc + ds.length := by
  induction ds generalizing s with
  | nil => rfl
  | cons d ds ih =>
    rw [foldl_cons, ih, desc_turn, length_cons]
    omega

theorem size_foldl : (ds.foldl (turn old) s).size
    = ((ds.filter (ImageDesc.isOld old)).map ImageDesc.size).foldl (· + ·) s.size := by
  induction ds generalizing s with
  | nil => rfl
  | cons d ds ih =>
    rw [foldl_cons, ih, size_turn]
    by_cases hold : d.isOld old
    · rw [if_pos hold, filter_cons_of_pos hold, map_cons, foldl_cons]
    · rw [if_neg hold, filter_cons_of_neg hold]

variable {s ds}

theorem pointers_foldl_of_not (h : ∀ d ∈ ds, d.isOld old = false) :
    (ds.foldl (turn old) s).first = s.first ∧ (ds.foldl (turn old) s).last = s.last := by
  induction ds generalizing s with
  | nil => exact ⟨rfl, rfl⟩
  | cons d ds ih =>
    have hd : ¬ d.isOld old = true := by
      rw [h d mem_cons_self]
      simp
    obtain ⟨hfirst, hlast⟩ := ih (s := s.turn old d) fun d' hd' => h d' (mem_cons_of_mem d hd')
    rw [foldl_cons, hfirst, hlast, first_turn, last_turn, if_neg hd, if_neg hd]
    exact ⟨rfl, rfl⟩

theorem first_foldl_of_some {a : ℕ} (h : s.first = some a) :
    (ds.foldl (turn old) s).first = some a := by
  induction ds generalizing s with
  | nil => exact h
  | cons d ds ih =>
    refine ih ?_
    rw [first_turn, h, some_or, ite_self]

theorem pointers_foldl (hspan : spanned (isOld old) ds ≠ []) :
    (ds.foldl (turn old) start).first = some (before (isOld old) ds).length
      ∧ (ds.foldl (turn old) start).last
        = some ((before (isOld old) ds).length
          + (spanned (isOld old) ds).length - 1) := by
  have hsplit := append_eq (isOld old) ds
  obtain ⟨x, xs, hcons, hx⟩ := exists_cons hspan
  obtain ⟨ys, y, hconcat, hy⟩ := exists_concat hspan
  have hbefore := @pointers_foldl_of_not old start
    (before (isOld old) ds) fun d hd => of_mem_before hd
  have hdesc := @desc_foldl old start (before (isOld old) ds)
  set s₁ := (before (isOld old) ds).foldl (turn old) start with hs₁
  have hfold : ds.foldl (turn old) start
      = (behind (isOld old) ds).foldl (turn old)
          ((spanned (isOld old) ds).foldl (turn old) s₁) := by
    conv_lhs => rw [← hsplit, foldl_append, foldl_append]
  obtain ⟨hfirst, hlast⟩ := @pointers_foldl_of_not old
    ((spanned (isOld old) ds).foldl (turn old) s₁)
    (behind (isOld old) ds) fun d hd => of_mem_behind hd
  have hstart : s₁.desc = (before (isOld old) ds).length := by
    rw [hdesc]
    exact Nat.zero_add _
  rw [hfold, hfirst, hlast]
  constructor
  · rw [hcons, foldl_cons]
    refine first_foldl_of_some ?_
    rw [first_turn, if_pos hx, hbefore.1, hstart]
    rfl
  · have hlength : (spanned (isOld old) ds).length = ys.length + 1 := by
      rw [hconcat, length_append, length_singleton]
    rw [hlength, hconcat, foldl_append, foldl_cons, foldl_nil, last_turn, if_pos hy,
      desc_foldl, hstart]
    rfl

end RemapScan

/-! ## The table that is written -/

section Written

variable (slots m old new)

def before : List ImageDesc := ListSpan.before (ImageDesc.isOld old) (table slots m)

def spanned : List ImageDesc := ListSpan.spanned (ImageDesc.isOld old) (table slots m)

def behind : List ImageDesc := ListSpan.behind (ImageDesc.isOld old) (table slots m)

def freedSize : UInt32 :=
  let s := remapScan m old slots .start
  s.size + sizeFixup m s ((before slots m old).length + (spanned slots m old).length - 1)

def writtenDescs : List ImageDesc :=
  newDescs (m (before slots m old).length).flashBase (freedSize slots m old) new

theorem slice_eq : m.slice 0 slots
    = before slots m old ++ (spanned slots m old ++ (behind slots m old ++ rest slots m)) := by
  rw [← table_append_rest]
  conv_lhs => rw [← ListSpan.append_eq (ImageDesc.isOld old) (table slots m)]
  simp only [before, spanned, behind, append_assoc]

theorem length_eq : (before slots m old).length + ((spanned slots m old).length
    + ((behind slots m old).length + (rest slots m).length)) = slots := by
  have hlength := congrArg length (slice_eq slots m old)
  rw [length_slice, length_append, length_append, length_append] at hlength
  exact hlength.symm

theorem slice_before : m.slice 0 (before slots m old).length = before slots m old := by
  have hlength := length_eq slots m old
  rw [← take_slice m 0 (show (before slots m old).length ≤ slots by omega), slice_eq,
    take_left' rfl]

theorem slice_behind {k : ℕ}
    (hk : k ≤ slots - ((before slots m old).length + (spanned slots m old).length)) :
    m.slice ((before slots m old).length + (spanned slots m old).length) k
      = (behind slots m old ++ rest slots m).take k := by
  have hlength := length_eq slots m old
  have hdrop := drop_slice m 0
    (show (before slots m old).length + (spanned slots m old).length ≤ slots by omega)
  rw [slice_eq slots m old, ← append_assoc, drop_left' (by rw [length_append]),
    Nat.zero_add] at hdrop
  rw [hdrop, take_slice _ _ hk]

variable {slots m old new}

theorem length_newDescs (offset size : UInt32) (parts : List Part) :
    (newDescs offset size parts).length = parts.length := by
  induction parts generalizing offset size with
  | nil => rfl
  | cons p parts ih => rw [newDescs, length_cons, ih, length_cons]

theorem length_writtenDescs : (writtenDescs slots m old new).length = new.length :=
  length_newDescs ..

theorem fisRemap_eq (hspan : spanned slots m old ≠ []) : fisRemap slots m old new
    = if (spanned slots m old).length ≤ new.length
          ∧ (before slots m old).length + new.length ≤ slots then
        some ((m.blit ((before slots m old).length + new.length)
          (m.slice ((before slots m old).length + (spanned slots m old).length)
            (slots - ((before slots m old).length + new.length)))).blit
          (before slots m old).length (writtenDescs slots m old new))
      else none := by
  have hpos : 0 < (spanned slots m old).length := List.length_pos_iff.mpr hspan
  have hlength := length_eq slots m old
  obtain ⟨hfirst, hlast⟩ := @RemapScan.pointers_foldl old (table slots m) hspan
  have hscan : remapScan m old slots .start
      = (table slots m).foldl (RemapScan.turn old) .start := remapScan_eq slots .start
  rw [← hscan] at hfirst hlast
  have hsucc : (before slots m old).length + (spanned slots m old).length - 1 + 1
      = (before slots m old).length + (spanned slots m old).length := by omega
  unfold fisRemap
  simp only [hfirst, hlast]
  rw [← before, ← spanned, hsucc, ← freedSize, ← writtenDescs]
  set b := (before slots m old).length
  set k := (spanned slots m old).length
  by_cases hlong : k ≤ new.length
  · by_cases hroom : b + new.length ≤ slots
    · rw [if_pos (show k ≤ new.length ∧ b + new.length ≤ slots from ⟨hlong, hroom⟩)]
      rcases Nat.eq_or_lt_of_le hlong with heq | hlt
      · rw [if_neg (by omega), if_neg (by omega), heq, blit_slice]
      · rw [if_pos (by omega), if_pos hroom]
    · have hnot : ¬ (k ≤ new.length ∧ b + new.length ≤ slots) := fun h => hroom h.2
      rw [if_pos (by omega), if_neg hroom, if_neg hnot]
  · have hnot : ¬ (k ≤ new.length ∧ b + new.length ≤ slots) := fun h => hlong h.1
    rw [if_neg (by omega), if_pos (by omega), if_neg hnot]

theorem fisRemap_eq_none (hspan : spanned slots m old = []) : fisRemap slots m old new = none := by
  have hnot : ∀ d ∈ table slots m, d.isOld old = false := by
    intro d hd
    by_contra hold
    exact spanned_ne_nil hd (by simpa using hold) hspan
  have hfirst : (remapScan m old slots .start).first = none := by
    rw [remapScan_eq]
    exact (RemapScan.pointers_foldl_of_not hnot).1
  rw [fisRemap, hfirst]

theorem slice_fisRemap {m' : Memory ImageDesc} (h : fisRemap slots m old new = some m') :
    (spanned slots m old ≠ [] ∧ (spanned slots m old).length ≤ new.length
        ∧ (before slots m old).length + new.length ≤ slots)
      ∧ m'.slice 0 slots
        = before slots m old ++ (writtenDescs slots m old new
          ++ (behind slots m old ++ rest slots m).take
            (slots - ((before slots m old).length + new.length)))
      ∧ ∀ i, slots ≤ i → m' i = m i := by
  have hspan : spanned slots m old ≠ [] := fun hnil =>
    absurd (h.symm.trans (fisRemap_eq_none hnil)) (by simp)
  rw [fisRemap_eq hspan] at h
  split_ifs at h with hfits
  obtain ⟨hlong, hroom⟩ := hfits
  have hbefore := slice_before slots m old
  have hbehind := slice_behind slots m old (k := slots - ((before slots m old).length + new.length))
    (by omega)
  have hdescs : (writtenDescs slots m old new).length = new.length := length_writtenDescs
  generalize writtenDescs slots m old new = descs at h hdescs ⊢
  set b := (before slots m old).length
  set k := slots - (b + new.length) with hk
  have hlength : (m.slice (b + (spanned slots m old).length) k).length = k := length_slice ..
  generalize m.slice (b + (spanned slots m old).length) k = moved at h hbehind hlength
  obtain rfl := some.inj h
  refine ⟨⟨hspan, hlong, hroom⟩, ?_, fun i hi => ?_⟩
  · have hsplit : slots = b + (descs.length + moved.length) := by omega
    rw [← hbehind, ← hbefore]
    conv_lhs => rw [hsplit]
    rw [slice_add, slice_add, Nat.zero_add, slice_blit_of_disjoint _ (.inl (by omega)),
      slice_blit_of_disjoint _ (.inl (by omega)), slice_blit_self,
      slice_blit_of_disjoint _ (.inr (by omega)), hdescs, slice_blit_self]
  · rw [blit_of_outside _ (.inr (by omega)), blit_of_outside _ (.inr (by omega))]

end Written

/-! ## What it is for -/

section Purpose

variable (slots m old new) (hfound : ((table slots m).filter (isOld old)).length = old.length)

def Describes (d : ImageDesc) (p : Part) : Prop :=
  d.name = p.name ∧ d.memBase = p.loadaddr ∧ d.entryPoint = p.loadaddr

def Rewritten (m' : Memory ImageDesc) : Prop :=
  (∃ ds k, List.Forall₂ Describes ds new
    ∧ m'.slice 0 slots
      = before slots m old ++ (ds
        ++ (((table slots m).dropWhile (!·.isOld old)).filter (!·.isOld old)
          ++ replicate k erased)))
    ∧ ∀ i, slots ≤ i → m' i = m i

structure Rewritable : Prop where
  old_ne_nil : old ≠ []
  together : ∀ d ∈ spanned slots m old, d.isOld old = true
  grows : old.length ≤ new.length
  room : (table slots m).length + new.length ≤ slots + old.length
  erased : ∀ d ∈ (rest slots m).take (slots + old.length - ((table slots m).length + new.length)),
    d = erased

variable {slots m old new}

theorem describes_newDescs (offset size : UInt32) (parts : List Part) :
    List.Forall₂ Describes (newDescs offset size parts) parts := by
  induction parts generalizing offset size with
  | nil => exact .nil
  | cons p parts ih => exact .cons ⟨rfl, rfl, rfl⟩ (ih _ _)

theorem eq_nil_of_take_eq {mid post tail : List ImageDesc} {n : ℕ} {xs : List ImageDesc}
    (hmid : ∀ d ∈ mid, d.isEnd = false) (hpost : ∀ d ∈ post, d.isEnd = false)
    (htail : ∀ d ds, tail = d :: ds → d.isEnd = true)
    (h : (post ++ tail).take n = mid ++ post ++ xs) : mid = [] := by
  by_contra hne
  have hlt : post.length < (mid ++ post).length := by
    have := length_pos_iff.mpr hne
    rw [length_append]
    omega
  -- one place behind the descriptors, there is the end on one side and none on the other
  have hget : ((post ++ tail).take n)[post.length]? = (mid ++ post ++ xs)[post.length]? := by
    rw [h]
  rw [getElem?_append_left hlt, getElem?_eq_getElem hlt] at hget
  have hnot : ((mid ++ post).get ⟨post.length, hlt⟩).isEnd = false := by
    rcases mem_append.mp ((mid ++ post).get_mem ⟨post.length, hlt⟩) with hm | hm
    · exact hmid _ hm
    · exact hpost _ hm
  rw [getElem?_take] at hget
  split_ifs at hget
  rw [getElem?_append_right (Nat.le_refl _), Nat.sub_self] at hget
  cases tail with
  | nil => exact absurd hget (by simp)
  | cons d ds =>
    have heq : d = (mid ++ post).get ⟨post.length, hlt⟩ := some.inj hget
    have hend := htail d ds rfl
    rw [heq, hnot] at hend
    exact absurd hend (by simp)

theorem length_table : (table slots m).length
    = (before slots m old).length + (spanned slots m old).length
      + (behind slots m old).length := by
  have hlength := length_eq slots m old
  have htable : (table slots m).length + (rest slots m).length = slots := length_table_add_rest
  omega

theorem mem_table_of_mem_spanned (h : d ∈ spanned slots m old) : d ∈ table slots m := by
  rw [← ListSpan.append_eq (ImageDesc.isOld old) (table slots m)]
  exact mem_append_right _ (mem_append_left _ h)

theorem mem_table_of_mem_behind (h : d ∈ behind slots m old) : d ∈ table slots m := by
  rw [← ListSpan.append_eq (ImageDesc.isOld old) (table slots m)]
  exact mem_append_right _ (mem_append_right _ h)

theorem filter_others : ((table slots m).dropWhile (!·.isOld old)).filter (!·.isOld old)
    = (spanned slots m old).filter (!·.isOld old) ++ behind slots m old :=
  filter_dropWhile

include hfound

theorem length_spanned (htogether : ∀ d ∈ spanned slots m old, d.isOld old = true) :
    (spanned slots m old).length = old.length := by
  have hspanned : (spanned slots m old).filter (ImageDesc.isOld old)
      = (table slots m).filter (isOld old) := filter_spanned
  rw [← hfound, ← hspanned, filter_eq_self.mpr htogether]

theorem rewritable_of_rewritten {m' : Memory ImageDesc}
    (hremap : fisRemap slots m old new = some m') (h : Rewritten slots m old new m') :
    Rewritable slots m old new := by
  obtain ⟨⟨ds, k, hds, hslice⟩, -⟩ := h
  obtain ⟨⟨hspan, hlong, hroom⟩, hwritten, -⟩ := slice_fisRemap hremap
  rw [hwritten, append_cancel_left_eq, filter_others] at hslice
  obtain ⟨-, hmoved⟩ := append_inj hslice (by rw [length_writtenDescs, hds.length_eq])
  -- the others in the span would have to be where the table ends
  have hmid : (spanned slots m old).filter (!·.isOld old) = [] := eq_nil_of_take_eq
    (fun d hd => isEnd_of_mem_table (mem_table_of_mem_spanned (mem_filter.mp hd).1))
    (fun d hd => isEnd_of_mem_table (mem_table_of_mem_behind hd))
    (fun d ds => isEnd_of_rest_cons) hmoved
  have htogether : ∀ d ∈ spanned slots m old, d.isOld old = true := by
    intro d hd
    have hnot := filter_eq_nil_iff.mp hmid d hd
    simpa using hnot
  have hsame := length_spanned hfound htogether
  have htable : (table slots m).length = (before slots m old).length
    + (spanned slots m old).length + (behind slots m old).length := length_table
  have hlength := length_eq slots m old
  rw [hmid, nil_append] at hmoved
  have hcount := congrArg length hmoved
  rw [length_take, length_append, length_append, length_replicate] at hcount
  have hpos := length_pos_iff.mpr hspan
  refine ⟨fun hnil => ?_, htogether, by omega, by omega, fun d hd => ?_⟩
  · have hzero : old.length = 0 := by rw [hnil, length_nil]
    omega
  · rw [take_append, take_of_length_le (by omega), append_cancel_left_eq] at hmoved
    rw [show slots + old.length - ((table slots m).length + new.length)
      = slots - ((before slots m old).length + new.length) - (behind slots m old).length by omega,
      hmoved] at hd
    exact (mem_replicate.mp hd).2

theorem rewritten_of_rewritable (h : Rewritable slots m old new) :
    ∃ m', fisRemap slots m old new = some m' ∧ Rewritten slots m old new m' := by
  have hsame := length_spanned hfound h.together
  have htable : (table slots m).length = (before slots m old).length
    + (spanned slots m old).length + (behind slots m old).length := length_table
  have hlength := length_eq slots m old
  have hold := length_pos_iff.mpr h.old_ne_nil
  have hgrows := h.grows
  have hroom := h.room
  have hspan : spanned slots m old ≠ [] := length_pos_iff.mp (by omega)
  have hfits : (spanned slots m old).length ≤ new.length
      ∧ (before slots m old).length + new.length ≤ slots := by omega
  have hremap := @fisRemap_eq slots m old new hspan
  rw [if_pos hfits] at hremap
  obtain ⟨-, hslice, hout⟩ := slice_fisRemap hremap
  refine ⟨_, hremap, ⟨writtenDescs slots m old new,
    slots + old.length - ((table slots m).length + new.length), describes_newDescs .., ?_⟩, hout⟩
  have hmid : (spanned slots m old).filter (!·.isOld old) = [] :=
    filter_eq_nil_iff.mpr fun d hd => by simp [h.together d hd]
  have herased : (rest slots m).take (slots + old.length - ((table slots m).length + new.length))
      = replicate (slots + old.length - ((table slots m).length + new.length))
          erased := by
    refine eq_replicate_iff.mpr ⟨?_, h.erased⟩
    rw [length_take]
    omega
  rw [hslice, filter_others, hmid, nil_append, take_append,
    take_of_length_le (by omega), ← herased,
    show slots - ((before slots m old).length + new.length) - (behind slots m old).length
      = slots + old.length - ((table slots m).length + new.length) by omega]

end Purpose

/-- **When `fis_remap` rewrites the table as it should**: exactly if there
are old partitions, next to each other and not more than new ones, the block
has room for the table, and is erased behind it. -/
theorem fisRemap_rewrites_iff (slots : ℕ) (m : Memory ImageDesc) (old new : List Part)
    (haccepted : fisValidate slots m old new = 1) :
    (∃ m', fisRemap slots m old new = some m' ∧ Rewritten slots m old new m')
      ↔ Rewritable slots m old new := by
  obtain ⟨-, hfound⟩ := fisValidate_eq_one_iff.mp haccepted
  constructor
  · rintro ⟨m', hremap, h⟩
    exact rewritable_of_rewritten hfound hremap h
  · exact rewritten_of_rewritable hfound

def letter (c : UInt8) : Name := (Vector.replicate 16 0).setIfInBounds 0 c

def letterPart (c : UInt8) (size : UInt32) : Part := ⟨letter c, 0, size⟩

def letterDesc (c : UInt8) (flashBase size : UInt32) : ImageDesc where
  name := letter c
  flashBase := flashBase
  memBase := 0
  size := size
  entryPoint := 0
  dataLength := size
  pad := .replicate 212 0
  crcDesc := 0
  crcFile := 0

def letterTable : Memory ImageDesc
  | 0 => letterDesc 97 0x10000 0x10000
  | 1 => letterDesc 98 0x20000 0x10000
  | 2 => letterDesc 99 0x30000 0x10000
  | _ => .erased

theorem table_letterTable :
    table 6 letterTable = [letterTable 0, letterTable 1, letterTable 2] := rfl

theorem rest_letterTable : rest 6 letterTable = replicate 3 .erased := rfl

/-- **One partition is replaced by two.** -/
theorem fisRemap_rewrites_letters :
    ∃ m', fisRemap 6 letterTable [letterPart 98 0] [letterPart 100 0x8000, letterPart 101 0]
        = some m'
      ∧ Rewritten 6 letterTable [letterPart 98 0] [letterPart 100 0x8000, letterPart 101 0] m' :=
  (fisRemap_rewrites_iff 6 letterTable [letterPart 98 0]
    [letterPart 100 0x8000, letterPart 101 0] (by decide +kernel)).mpr
    ⟨by decide, by decide +kernel, by decide, by decide +kernel, fun d hd =>
      eq_of_mem_replicate (rest_letterTable ▸ mem_of_mem_take hd)⟩

/-- **Two partitions are replaced by one**: the lists are accepted, and the
`memset` leaves the block. -/
theorem fisRemap_leaves_block :
    fisValidate 6 letterTable [letterPart 97 0, letterPart 98 0] [letterPart 100 0] = 1
      ∧ fisRemap 6 letterTable [letterPart 97 0, letterPart 98 0] [letterPart 100 0] = none := by
  refine ⟨by decide +kernel, ?_⟩
  have hspan : spanned 6 letterTable [letterPart 97 0, letterPart 98 0] ≠ [] := by decide +kernel
  rw [fisRemap_eq hspan, if_neg (by decide +kernel)]

end Fis
