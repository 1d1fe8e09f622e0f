import Mathlib.Algebra.Order.BigOperators.Group.List
import Mathlib.Algebra.Order.Group.Nat
import RouterFirmware.NvramRehash

/-!
# Committing the NVRAM

`nvram_commit` writes the variables bucket by bucket and skips, without a word,
what does not fit: `NvramHandle.written` is what it writes.
-/

/-! ## What is written -/

def fitting : ℕ → List NvramTuple → List NvramTuple
  | _, [] => []
  | room, t :: ts => if room < t.size then [] else t :: fitting (room - t.size) ts

def fittingBuckets : ℕ → List (List NvramTuple) → List NvramTuple
  | _, [] => []
  | room, b :: bs => fitting room b ++ fittingBuckets (room - tuplesSize (fitting room b)) bs

theorem tuplesSize_append (ts ts' : List NvramTuple) :
    tuplesSize (ts ++ ts') = tuplesSize ts + tuplesSize ts' := by
  rw [tuplesSize, List.map_append, List.sum_append, tuplesSize, tuplesSize]

theorem tuplesBytes_append (ts ts' : List NvramTuple) :
    tuplesBytes (ts ++ ts') = tuplesBytes ts ++ tuplesBytes ts' := List.flatMap_append

theorem tuplesSize_le_of_subset {ts ts' : List NvramTuple} (hts : ts.Nodup) (h : ts ⊆ ts') :
    tuplesSize ts ≤ tuplesSize ts' := by
  obtain ⟨l, hl, hlts⟩ := List.subperm_of_subset hts h
  have hperm : tuplesSize ts = tuplesSize l := (hl.map NvramTuple.size).sum_eq.symm
  rw [hperm]
  exact (hlts.map NvramTuple.size).sum_le_sum fun _ _ => Nat.zero_le _

theorem fitting_sublist (room : ℕ) (ts : List NvramTuple) : (fitting room ts).Sublist ts := by
  induction ts generalizing room with
  | nil => exact List.Sublist.refl _
  | cons t ts ih =>
    rw [fitting]
    split
    · exact List.nil_sublist _
    · exact (ih _).cons_cons t

theorem tuplesSize_fitting_le (room : ℕ) (ts : List NvramTuple) :
    tuplesSize (fitting room ts) ≤ room := by
  induction ts generalizing room with
  | nil => exact Nat.zero_le _
  | cons t ts ih =>
    rw [fitting]
    split
    · exact Nat.zero_le _
    · have := ih (room - t.size)
      rw [tuplesSize_cons]
      omega

theorem fitting_of_le {room : ℕ} {ts : List NvramTuple} (h : tuplesSize ts ≤ room) :
    fitting room ts = ts := by
  induction ts generalizing room with
  | nil => rfl
  | cons t ts ih =>
    rw [tuplesSize_cons] at h
    rw [fitting, if_neg (by omega), ih (by omega)]

theorem fittingBuckets_sublist (room : ℕ) (bs : List (List NvramTuple)) :
    (fittingBuckets room bs).Sublist bs.flatten := by
  induction bs generalizing room with
  | nil => exact List.Sublist.refl _
  | cons b bs ih => exact (fitting_sublist room b).append (ih _)

theorem tuplesSize_fittingBuckets_le (room : ℕ) (bs : List (List NvramTuple)) :
    tuplesSize (fittingBuckets room bs) ≤ room := by
  induction bs generalizing room with
  | nil => exact Nat.zero_le _
  | cons b bs ih =>
    have hb := tuplesSize_fitting_le room b
    have hbs := ih (room - tuplesSize (fitting room b))
    rw [fittingBuckets, tuplesSize_append]
    omega

theorem fittingBuckets_of_le {room : ℕ} {bs : List (List NvramTuple)}
    (h : tuplesSize bs.flatten ≤ room) : fittingBuckets room bs = bs.flatten := by
  induction bs generalizing room with
  | nil => rfl
  | cons b bs ih =>
    rw [List.flatten_cons, tuplesSize_append] at h
    rw [fittingBuckets, fitting_of_le (by omega), ih (by omega), List.flatten_cons]

namespace NvramHandle

open Memory Nat List Function

theorem writeBucket_eq {last ptr : ℕ} (hptr : ptr ≤ last) (b : List NvramTuple) (m : Bytes) :
    writeBucket last b (ptr, m)
      = (ptr + tuplesSize (fitting (last - ptr) b),
          m.blit ptr (tuplesBytes (fitting (last - ptr) b))) := by
  induction b generalizing ptr m with
  | nil => exact Prod.ext rfl (blit_nil m ptr).symm
  | cons t ts ih =>
    have hsize : last < ptr + t.1.length + 1 + t.2.length + 1 ↔ last - ptr < t.size := by
      rw [NvramTuple.size]
      omega
    rw [writeBucket, fitting]
    by_cases hfit : last - ptr < t.size
    · rw [if_pos (hsize.mpr hfit), if_pos hfit]
      exact Prod.ext rfl (blit_nil m ptr).symm
    · rw [if_neg (mt hsize.mp hfit), if_neg hfit, ih (by omega), tuplesSize_cons, tuplesBytes_cons,
        ← NvramTuple.length_bytes, blit_append, sub_add_eq, add_assoc]

theorem writeBuckets_eq {last ptr : ℕ} (hptr : ptr ≤ last) {ι : Type}
    (bucket : ι → List NvramTuple) (is : List ι) (m : Bytes) :
    is.foldl (fun s i => writeBucket last (bucket i) s) (ptr, m)
      = (ptr + tuplesSize (fittingBuckets (last - ptr) (is.map bucket)),
          m.blit ptr (tuplesBytes (fittingBuckets (last - ptr) (is.map bucket)))) := by
  induction is generalizing ptr m with
  | nil => exact Prod.ext rfl (blit_nil m ptr).symm
  | cons i is ih =>
    have hle := tuplesSize_fitting_le (last - ptr) (bucket i)
    rw [foldl_cons, writeBucket_eq hptr, ih (by omega), map_cons, fittingBuckets, tuplesSize_append,
      tuplesBytes_append, ← blit_append, length_tuplesBytes, sub_add_eq, add_assoc]

variable (h : NvramHandle)

theorem nvramHeaderSize_add_room :
    nvramHeaderSize + (nvramSpace - 2 - nvramHeaderSize) + 2 = nvramSpace := by
  rw [nvramSpace_eq, nvramHeaderSize]

def written : List NvramTuple :=
  fittingBuckets (nvramSpace - 2 - nvramHeaderSize)
    ((finRange nvramBuckets).map (fun i => (h.nvramHash.bucket i).entries))

def Fits : Prop := nvramHeaderSize + tuplesSize h.tuples + 2 ≤ nvramSpace

theorem written_sublist : h.written.Sublist h.tuples := fittingBuckets_sublist _ _

theorem tuplesSize_written_le : nvramHeaderSize + tuplesSize h.written + 2 ≤ nvramSpace := by
  have hle := tuplesSize_fittingBuckets_le (nvramSpace - 2 - nvramHeaderSize)
    ((finRange nvramBuckets).map (fun i => (h.nvramHash.bucket i).entries))
  have hroom := nvramHeaderSize_add_room
  rw [written]
  omega

theorem written_eq_iff : h.written = h.tuples ↔ h.Fits := by
  constructor
  · intro heq
    have := h.tuplesSize_written_le
    rwa [heq] at this
  · intro hfits
    refine fittingBuckets_of_le ?_
    have hroom := nvramHeaderSize_add_room
    rw [Fits, tuples, HashTable.entries, flatMap] at hfits
    omega

theorem exists_not_written (hfits : ¬ h.Fits) : ∃ t ∈ h.tuples, t ∉ h.written := by
  by_contra hall
  have hsubset : h.tuples ⊆ h.written := fun t ht => by_contra fun hout => hall ⟨t, ht, hout⟩
  refine hfits (h.written_eq_iff.mp (h.written_sublist.eq_of_length_le ?_))
  exact (subperm_of_subset h.nvramHash.nodupKeys_entries.nodup hsubset).length_le

/-! ## The image -/

variable {ts : List NvramTuple}

section Image

variable (order : ByteOrder) {h} (f : NvramField)

theorem mmap_setField (v : ℕ) :
    (h.setField order f v).mmap = h.mmap.store order 4 (h.nvramHeader + f.offset) v := rfl

@[simp] theorem length_setField (v : ℕ) :
    (h.setField order f v).length = h.length := length_setMmap _

@[simp] theorem nvramHash_setField (v : ℕ) :
    (h.setField order f v).nvramHash = h.nvramHash := nvramHash_setMmap _

@[simp] theorem nvramHeader_setField (v : ℕ) :
    (h.setField order f v).nvramHeader = h.nvramHeader := nvramHeader_setMmap _

theorem field_setField_of_ne {f f' : NvramField} (hne : f' ≠ f) (v : ℕ) :
    (h.setField order f v).field order f' = h.field order f' := by
  have := NvramField.disjoint hne
  rw [field, mmap_setField, nvramHeader_setField,
    load_store_of_disjoint h.mmap order v (by omega), field]

theorem field_setField_self {v : ℕ} (hv : v < 256 ^ 4) :
    (h.setField order f v).field order f = v := by
  rw [field, mmap_setField, nvramHeader_setField, load_store_self, mod_eq_of_lt hv]

theorem field_congr {g : NvramHandle} (hlen : g.length = h.length)
    (hm : ∀ i, h.nvramHeader ≤ i → i < h.nvramHeader + nvramHeaderSize → g.mmap i = h.mmap i)
    (f : NvramField) : g.field order f = h.field order f := by
  have := f.offset_lt
  rw [field, field, nvramHeader_congr hlen, load, load]
  exact congrArg order.value (slice_congr fun i hi => hm _ (by omega) (by omega))

theorem field_setMmap_blit {a : ℕ} (ha : h.nvramHeader + nvramHeaderSize ≤ a) (xs : List UInt8)
    (f : NvramField) : (h.setMmap (h.mmap.blit a xs)).field order f = h.field order f :=
  field_congr order (length_setMmap _)
    (fun _ _ hi => blit_of_outside h.mmap (.inl (by omega))) f

theorem field_terminate {ptr : ℕ} (hptr : h.nvramHeader + nvramHeaderSize ≤ ptr)
    {f : NvramField} (hf : f ≠ .len) : (h.terminate order ptr).field order f = h.field order f := by
  rw [terminate, field_setField_of_ne order hf]
  refine field_congr order (length_setMmap _) (fun i _ hi => ?_) _
  rw [mmap_setMmap]
  split
  · exact blit_of_outside _ (.inl (by omega))
  · rw [blit_of_outside _ (.inl (by omega)), blit_of_outside _ (.inl (by omega))]

theorem holds_setField {pos : ℕ} (hm : HoldsTuples h.mmap pos ts)
    (hpos : h.nvramHeader + nvramHeaderSize ≤ pos) (f : NvramField) (v : ℕ) :
    HoldsTuples (h.setField order f v).mmap pos ts := by
  have := f.offset_lt
  rw [HoldsTuples, mmap_setField, store,
    slice_blit_of_disjoint h.mmap (.inr (by rw [ByteOrder.length_bytes]; omega))]
  exact hm

section Regenerate

theorem length_regenerateHeader (strtoul : CString → ℕ) :
    (h.regenerateHeader order strtoul).length = h.length := by
  unfold regenerateHeader
  split <;> simp only [length_setField]

theorem nvramHash_regenerateHeader (strtoul : CString → ℕ) :
    (h.regenerateHeader order strtoul).nvramHash = h.nvramHash := by
  unfold regenerateHeader
  split <;> simp only [nvramHash_setField]

theorem magic_regenerateHeader (strtoul : CString → ℕ) :
    (h.regenerateHeader order strtoul).field order .magic = nvramMagic := by
  have hmagic : nvramMagic < 256 ^ 4 := by decide
  unfold regenerateHeader
  split <;> simp only [field_setField_of_ne, ne_eq, reduceCtorEq, not_false_eq_true,
    field_setField_self order .magic hmagic]

end Regenerate

theorem writeTuples_eq (h : NvramHandle) : h.writeTuples
    = (h.nvramHeader + nvramHeaderSize + tuplesSize h.written,
        h.mmap.blit (h.nvramHeader + nvramHeaderSize) (tuplesBytes h.written)) := by
  have hroom := nvramHeaderSize_add_room
  have hlast : h.nvramHeader + nvramSpace - 2 - (h.nvramHeader + nvramHeaderSize)
      = nvramSpace - 2 - nvramHeaderSize := by omega
  rw [writeTuples, writeBuckets_eq (by omega), hlast]
  rfl

theorem holds_terminator {pos : ℕ} {m : Bytes} (hm : h.mmap = m.blit pos (tuplesBytes ts)) :
    HoldsTuples (h.mmap.blit (pos + tuplesSize ts) [0]) pos ts := by
  rw [hm, ← length_tuplesBytes, blit_append]
  exact slice_blit_self ..

theorem holds_terminate {pos : ℕ} {m : Bytes}
    (hpos : h.nvramHeader + nvramHeaderSize ≤ pos) (hm : h.mmap = m.blit pos (tuplesBytes ts)) :
    HoldsTuples (h.terminate order (pos + tuplesSize ts)).mmap pos ts := by
  have hholds := holds_terminator hm
  refine holds_setField order ?_ (by rw [nvramHeader_setMmap]; exact hpos) _ _
  rw [mmap_setMmap]
  split
  · exact hholds
  · rw [HoldsTuples, slice_blit_of_disjoint _ (.inl ?_)]
    · exact hholds
    · rw [length_append, length_tuplesBytes, length_singleton, add_assoc]

variable (strtoul : CString → ℕ)

theorem length_committed : (h.committed order strtoul).length = h.length := by
  simp only [committed, setCrc, terminate, clearData, length_setField, length_setMmap,
    length_regenerateHeader]

theorem nvramHeader_cleared :
    (h.regenerateHeader order strtoul).clearData.nvramHeader = h.nvramHeader :=
  nvramHeader_congr (by rw [clearData, length_setMmap, length_regenerateHeader])

theorem written_cleared : (h.regenerateHeader order strtoul).clearData.written = h.written := by
  rw [written, clearData, nvramHash_setMmap, nvramHash_regenerateHeader, written]

theorem holds_committed :
    HoldsTuples (h.committed order strtoul).mmap (h.nvramHeader + nvramHeaderSize) h.written := by
  have hheader := nvramHeader_cleared (h := h) order strtoul
  unfold committed
  dsimp only
  rw [writeTuples_eq, hheader, written_cleared]
  refine holds_setField order (holds_terminate order ?_ rfl) ?_ _ _
  · rw [nvramHeader_setMmap, hheader]
  · rw [terminate, nvramHeader_setField, nvramHeader_setMmap, nvramHeader_setMmap, hheader]

theorem magic_committed : (h.committed order strtoul).field order .magic = nvramMagic := by
  unfold committed
  dsimp only
  rw [setCrc, field_setField_of_ne order (by simp), field_terminate _ _ (by simp),
    writeTuples_eq, field_setMmap_blit order le_rfl, clearData, field_setMmap_blit order le_rfl,
    magic_regenerateHeader]
  rw [writeTuples_eq, nvramHeader_setMmap]
  exact le_add_right _ _

end Image

/-! ## Reading it back -/

section ReadBack

variable {h}

theorem sdramValue_congr (order : ByteOrder) {g : NvramHandle}
    (hf : ∀ f, g.field order f = h.field order f) (name : CString) :
    g.sdramValue order name = h.sdramValue order name := by
  simp only [sdramValue, hf]

theorem length_mapped {image : Bytes} {length : ℕ} (hlen : nvramSpace ≤ length) :
    (mapped image length hlen).length = length := rfl

theorem mmap_mapped_of_le {image : Bytes} {length : ℕ} (hlen : nvramSpace ≤ length) {i : ℕ}
    (hi : length - nvramSpace ≤ i) : (mapped image length hlen).mmap i = image i := by
  have hones : (replicate (length - nvramSpace) (0xFF : UInt8)).length ≤ i := by
    rwa [length_replicate]
  rw [mapped]
  exact blit_of_outside image (.inr ((zero_add _).trans_le hones))

theorem open_of_holds (order : ByteOrder) (hmagic : h.field order .magic = nvramMagic)
    (hm : HoldsTuples h.mmap (h.nvramHeader + nvramHeaderSize) ts)
    (hname : ∀ t ∈ ts, equalsSign ∉ t.1.bytes) (hkeys : ts.NodupKeys)
    (hfit : nvramHeaderSize + tuplesSize ts < nvramSpace) :
    ∃ g, nvramOpen order h.mmap h.length h.space_le = .handle g
      ∧ (∀ f, g.field order f = h.field order f)
      ∧ ∀ name, g.nvramGet name = (ts.dlookup name).or (h.sdramValue order name) := by
  set g₀ := mapped h.mmap h.length h.space_le with hg₀
  have hcell : ∀ i, h.nvramHeader ≤ i → g₀.mmap i = h.mmap i := by
    intro i hi
    rw [nvramHeader] at hi
    exact mmap_mapped_of_le h.space_le hi
  have hlen₀ : g₀.length = h.length := length_mapped h.space_le
  have hfield : ∀ f, g₀.field order f = h.field order f :=
    field_congr order hlen₀ fun i hi _ => hcell i hi
  have hm₀ : HoldsTuples g₀.mmap (g₀.nvramHeader + nvramHeaderSize) ts := by
    rw [nvramHeader_congr hlen₀]
    refine (slice_congr fun i _ => hcell _ ?_).trans hm
    omega
  obtain ⟨g, hg, hmem, hlen, hget⟩ := rehash_of_holds order hm₀ hname hkeys hfit
  refine ⟨g, ?_, fun f => ?_, fun name => ?_⟩
  · rw [nvramOpen, ← hg₀, if_pos ((hfield _).trans hmagic), hg]
  · rw [← hfield]
    exact field_congr order hlen (fun i _ _ => by rw [hmem]) f
  · rw [hget, sdramValue_congr order hfield]

theorem commit_spec (order : ByteOrder) (strtoul : CString → ℕ)
    (hname : ∀ t ∈ h.written, equalsSign ∉ t.1.bytes) :
    ∃ g, h.nvramCommit order strtoul = some (0, g)
      ∧ g.field order .magic = nvramMagic
      ∧ HoldsTuples g.mmap (g.nvramHeader + nvramHeaderSize) h.written
      ∧ ∀ name, g.nvramGet name = (h.written.dlookup name).or (g.sdramValue order name) := by
  have hheader : (h.committed order strtoul).nvramHeader = h.nvramHeader :=
    nvramHeader_congr (length_committed order strtoul)
  have hholds := holds_committed (h := h) order strtoul
  rw [← hheader] at hholds
  have hsize := h.tuplesSize_written_le
  obtain ⟨g, hg, hmem, hlen, hget⟩ := rehash_of_holds order hholds hname
    (h.nvramHash.nodupKeys_entries.sublist h.written_sublist) (by omega)
  have hfield : ∀ f, g.field order f = (h.committed order strtoul).field order f :=
    field_congr order hlen (fun i _ _ => by rw [hmem])
  refine ⟨g, by rw [nvramCommit, hg, Option.map_some], ?_, ?_, fun name => ?_⟩
  · rw [hfield, magic_committed]
  · rw [hmem, nvramHeader_congr hlen]
    exact hholds
  · rw [hget, sdramValue_congr order hfield]

end ReadBack

/-! ## Names without equals signs -/

def PlainNames : Prop := ∀ name value, h.nvramGet name = some value → equalsSign ∉ name.bytes

variable {h} (hp : h.PlainNames)

include hp

theorem PlainNames.nvramSet {name : CString} (hname : equalsSign ∉ name.bytes) (value : CString) :
    (h.nvramSet name value).2.PlainNames := by
  intro n v hn
  by_cases hnn : n = name
  · exact hnn ▸ hname
  · refine hp n v ?_
    rw [← hn, nvramGet_nvramSet]
    split
    · rw [update_of_ne hnn]
    · rfl

theorem PlainNames.nvramUnset (name : CString) : (h.nvramUnset name).2.PlainNames := by
  intro n v hn
  rw [nvramGet_nvramUnset] at hn
  by_cases hnn : n = name
  · rw [hnn, update_self] at hn
    exact absurd hn (by simp)
  · rw [update_of_ne hnn] at hn
    exact hp n v hn

theorem PlainNames.setSpecial {name : CString} (hname : equalsSign ∉ name.bytes) (value : CString) :
    (h.setSpecial name value).PlainNames := by
  unfold NvramHandle.setSpecial
  split
  · exact hp.nvramSet hname value
  · exact hp

omit hp

theorem plainNames_of_rehash {order : ByteOrder} {h' : NvramHandle}
    (hr : h.nvramRehash order = some h') : h'.PlainNames := by
  rw [nvramRehash, Option.map_eq_some_iff] at hr
  obtain ⟨g, hg, rfl⟩ := hr
  have hplain : g.PlainNames := rehash_invariant PlainNames
    (fun _ _ v hname hp => hp.nvramSet hname v)
    (fun name _ hget => absurd hget (by simp [nvramGet, nvramFree])) hg
  exact (((hplain.setSpecial (by decide) _).setSpecial (by decide) _).setSpecial
    (by decide) _).setSpecial (by decide) _

theorem plainNames_of_open {order : ByteOrder} {image : Bytes} {length : ℕ}
    {hlen : nvramSpace ≤ length} (ho : nvramOpen order image length hlen = .handle h) :
    h.PlainNames := by
  unfold nvramOpen at ho
  dsimp only at ho
  split at ho
  · split at ho
    · rename_i h' hr
      cases ho
      exact plainNames_of_rehash hr
    · exact absurd ho (by simp)
  · exact absurd ho (by simp)

end NvramHandle

/-! ## The round trip -/

inductive NvramCall where
  | set (name value : CString)
  | unset (name : CString)

def NvramCall.name : NvramCall → CString
  | set name _ => name
  | unset name => name

namespace NvramHandle

def call (h : NvramHandle) : NvramCall → NvramHandle
  | .set name value => (h.nvramSet name value).2
  | .unset name => (h.nvramUnset name).2

def calls (h : NvramHandle) (cs : List NvramCall) : NvramHandle := cs.foldl call h

theorem PlainNames.calls {h : NvramHandle} (hp : h.PlainNames) {cs : List NvramCall}
    (hcs : ∀ c ∈ cs, equalsSign ∉ c.name.bytes) : (h.calls cs).PlainNames := by
  induction cs generalizing h with
  | nil => exact hp
  | cons c cs ih =>
    refine ih ?_ fun c' hc' => hcs c' (List.mem_cons_of_mem _ hc')
    cases c with
    | set name value => exact hp.nvramSet (hcs _ List.mem_cons_self) value
    | unset name => exact hp.nvramUnset name

def Restores (order : ByteOrder) (g h : NvramHandle) : Prop :=
  ∀ name, g.nvramGet name = (h.nvramGet name).or (g.sdramValue order name)

theorem PlainNames.written {h : NvramHandle} (hp : h.PlainNames) :
    ∀ t ∈ h.written, equalsSign ∉ t.1.bytes :=
  fun t ht => hp t.1 t.2 (mem_tuples.mp (h.written_sublist.subset ht))

theorem restores_of_fits {h : NvramHandle} (order : ByteOrder) (strtoul : CString → ℕ)
    (hp : h.PlainNames) (hfits : h.Fits) :
    ∃ g, h.nvramCommit order strtoul = some (0, g) ∧ Restores order g h
      ∧ (∃ g', nvramOpen order g.mmap g.length g.space_le = .handle g' ∧ Restores order g' h)
      ∧ ∃ g', g.nvramRehash order = some g' ∧ Restores order g' h := by
  obtain ⟨g, hg, hmagic, hholds, hget⟩ := commit_spec order strtoul hp.written
  have hlookup : ∀ name, h.written.dlookup name = h.nvramGet name := by
    intro name
    rw [h.written_eq_iff.mpr hfits, dlookup_tuples]
  have hkeys := h.nvramHash.nodupKeys_entries.sublist h.written_sublist
  have hsize := h.tuplesSize_written_le
  refine ⟨g, hg, fun name => by rw [hget, hlookup], ?_, ?_⟩
  · obtain ⟨g', hg', hfield, hget'⟩ := open_of_holds order hmagic hholds hp.written hkeys (by omega)
    exact ⟨g', hg', fun name => by rw [hget', hlookup, sdramValue_congr order hfield]⟩
  · obtain ⟨g', hg', hmem, hlen, hget'⟩ := rehash_of_holds order hholds hp.written hkeys (by omega)
    have hfield : ∀ f, g'.field order f = g.field order f :=
      field_congr order hlen fun i _ _ => by rw [hmem]
    exact ⟨g', hg', fun name => by rw [hget', hlookup, sdramValue_congr order hfield]⟩

end NvramHandle

/-- **The NVRAM round trip**: after any calls on an opened image, with names
that the command line can give, what fits is restored. -/
theorem nvramCommit_round_trip (order : ByteOrder) (strtoul : CString → ℕ)
    {image : Bytes} {length : ℕ} {hlen : nvramSpace ≤ length} {h : NvramHandle}
    (hopen : nvramOpen order image length hlen = .handle h) (cs : List NvramCall)
    (hcs : ∀ c ∈ cs, equalsSign ∉ c.name.bytes) (hfits : (h.calls cs).Fits) :
    ∃ g, (h.calls cs).nvramCommit order strtoul = some (0, g)
      ∧ NvramHandle.Restores order g (h.calls cs)
      ∧ (∃ g', nvramOpen order g.mmap g.length g.space_le = .handle g'
          ∧ NvramHandle.Restores order g' (h.calls cs))
      ∧ ∃ g', g.nvramRehash order = some g' ∧ NvramHandle.Restores order g' (h.calls cs) :=
  NvramHandle.restores_of_fits order strtoul
    ((NvramHandle.plainNames_of_open hopen).calls hcs) hfits

def blankImage : Bytes := Memory.store (fun _ => 0) .little 4 0 nvramMagic

theorem open_blankImage : ∃ h, nvramOpen .little blankImage nvramSpace le_rfl = .handle h
    ∧ ∀ name, name ∉ [sdramInit, sdramConfig, sdramRefresh, sdramNcdl] →
      h.nvramGet name = none := by
  let h : NvramHandle := ⟨blankImage, nvramSpace, le_rfl, .empty, []⟩
  have hheader : h.nvramHeader = 0 := Nat.sub_self nvramSpace
  have hmagic : h.field .little .magic = nvramMagic := by
    rw [NvramHandle.field, hheader]
    exact (Memory.load_store_self _ .little 4 0 nvramMagic).trans (by decide)
  have hholds : HoldsTuples h.mmap (h.nvramHeader + nvramHeaderSize) [] := by
    have hzero : blankImage nvramHeaderSize = 0 :=
      Memory.store_of_outside (fun _ => 0) .little nvramMagic (by decide)
    rw [hheader]
    show [blankImage (0 + nvramHeaderSize + 0)] = [0]
    rw [add_zero, zero_add, hzero]
  obtain ⟨g, hg, -, hget⟩ := NvramHandle.open_of_holds .little hmagic hholds (by simp)
    List.nodupKeys_nil (by rw [nvramSpace_eq]; decide)
  refine ⟨g, hg, fun name hname => ?_⟩
  simp only [List.mem_cons, List.not_mem_nil, or_false, not_or] at hname
  rw [hget, NvramHandle.sdramValue, if_neg hname.1, if_neg hname.2.1, if_neg hname.2.2.1,
    if_neg hname.2.2.2]
  rfl

def oneVariable : List NvramCall :=
  [.unset sdramInit, .unset sdramConfig, .unset sdramRefresh, .unset sdramNcdl,
    .set (.ofString "wan_proto" (by decide)) (.ofString "dhcp" (by decide))]

/-- The variable is restored, and the SDRAM parameters come back from the
header. -/
theorem nvramCommit_round_trip_oneVariable :
    ∃ h, nvramOpen .little blankImage nvramSpace le_rfl = .handle h
      ∧ ∃ g, (h.calls oneVariable).nvramCommit .little (fun _ => 0) = some (0, g)
        ∧ NvramHandle.Restores .little g (h.calls oneVariable)
        ∧ (∃ g', nvramOpen .little g.mmap g.length g.space_le = .handle g'
            ∧ NvramHandle.Restores .little g' (h.calls oneVariable))
        ∧ ∃ g', g.nvramRehash .little = some g'
          ∧ NvramHandle.Restores .little g' (h.calls oneVariable) := by
  obtain ⟨h, hopen, hget⟩ := open_blankImage
  refine ⟨h, hopen, nvramCommit_round_trip .little (fun _ => 0) hopen oneVariable (by decide) ?_⟩
  have hle : tuplesSize (h.calls oneVariable).tuples
      ≤ tuplesSize [⟨.ofString "wan_proto" (by decide), .ofString "dhcp" (by decide)⟩] := by
    refine tuplesSize_le_of_subset (h.calls oneVariable).nvramHash.nodupKeys_entries.nodup ?_
    rintro ⟨name, value⟩ ht
    have hvalue := NvramHandle.mem_tuples.mp ht
    have hlen : (CString.ofString "dhcp" (by decide)).length + 1 ≤ nvramSpace := by
      rw [nvramSpace_eq]
      decide
    simp only [NvramHandle.calls, oneVariable, List.foldl_cons, List.foldl_nil, NvramHandle.call,
      NvramHandle.nvramGet_nvramSet, if_pos hlen, NvramHandle.nvramGet_nvramUnset,
      Function.update_apply] at hvalue
    split_ifs at hvalue with hname hn hn hn hn
    · rw [hname, ← Option.some.inj hvalue]
      exact List.mem_cons_self
    · have hnone := hget name (by simp only [List.mem_cons, *]; simp)
      exact absurd (hvalue.symm.trans hnone) (by simp)
  rw [NvramHandle.Fits, nvramSpace_eq]
  exact (Nat.add_le_add_right (Nat.add_le_add_left hle _) _).trans (by decide)

/-! ## Silent losses -/

namespace NvramHandle

def ImageHas (g : NvramHandle) (t : NvramTuple) : Prop :=
  ∃ g', g.nvramFree.rehashTuples (g.nvramHeader + nvramHeaderSize) = some g'
    ∧ g'.nvramGet t.1 = some t.2

def CommitKeeps (order : ByteOrder) (strtoul : CString → ℕ) (h : NvramHandle) : Prop :=
  ∃ r g, h.nvramCommit order strtoul = some (r, g)
    ∧ (r ≠ 0 ∨ (∀ t ∈ h.tuples, g.ImageHas t) ∧ ∀ t ∈ h.tuples, t ∈ g.nvramGetall)

variable {h : NvramHandle}

theorem imageHas_iff {g : NvramHandle} (hp : ∀ t ∈ h.written, equalsSign ∉ t.1.bytes)
    (hholds : HoldsTuples g.mmap (g.nvramHeader + nvramHeaderSize) h.written) (t : NvramTuple) :
    g.ImageHas t ↔ t ∈ h.written := by
  have hsize := h.tuplesSize_written_le
  have hspace := g.space_le
  have hkeys := h.nvramHash.nodupKeys_entries.sublist h.written_sublist
  have hwalk := rehashTuples_of_holds (h := g.nvramFree) hholds hp
    (show g.nvramHeader + nvramHeaderSize + tuplesSize h.written < g.length by
      rw [nvramHeader]
      omega) (by omega)
  have hget : ∀ name, ((HashTable.empty : HashTable nvramIndex CString).insertAll
      h.written).lookup name = h.written.dlookup name := by
    intro name
    rw [HashTable.lookup_insertAll _ hkeys, HashTable.lookup_empty, Option.or_none]
  rw [ImageHas, hwalk]
  constructor
  · rintro ⟨g', hg', hvalue⟩
    cases hg'
    exact (List.mem_dlookup_iff hkeys).mp ((hget t.1).symm.trans hvalue)
  · intro ht
    exact ⟨_, rfl, (hget t.1).trans ((List.mem_dlookup_iff hkeys).mpr ht)⟩

variable (order : ByteOrder) (strtoul : CString → ℕ)

theorem keeps_of_fits (hp : h.PlainNames) (hfits : h.Fits) : CommitKeeps order strtoul h := by
  obtain ⟨g, hg, -, hholds, hget⟩ := commit_spec order strtoul hp.written
  have hwritten := h.written_eq_iff.mpr hfits
  refine ⟨0, g, hg, .inr ⟨fun t ht => ?_, fun t ht => ?_⟩⟩
  · rw [imageHas_iff hp.written hholds, hwritten]
    exact ht
  · refine mem_nvramGetall.mpr ?_
    rw [hget, hwritten, dlookup_tuples, mem_tuples.mp ht, Option.some_or]

theorem plainNames_of_keeps (hk : CommitKeeps order strtoul h) : h.PlainNames := by
  obtain ⟨r, g, hg, hr⟩ := hk
  rw [nvramCommit, Option.map_eq_some_iff] at hg
  obtain ⟨g', hg', heq⟩ := hg
  cases heq
  intro name value hvalue
  have hlisted := (hr.resolve_left (fun h0 => h0 rfl)).2 ⟨name, value⟩ (mem_tuples.mpr hvalue)
  exact plainNames_of_rehash hg' name value (mem_nvramGetall.mp hlisted)

theorem fits_of_keeps (hk : CommitKeeps order strtoul h) : h.Fits := by
  have hp := plainNames_of_keeps order strtoul hk
  obtain ⟨g, hg, -, hholds, -⟩ := commit_spec order strtoul hp.written
  obtain ⟨r, g', hg', hr⟩ := hk
  cases hg.symm.trans hg'
  by_contra hfits
  obtain ⟨t, ht, hlost⟩ := h.exists_not_written hfits
  exact hlost ((imageHas_iff hp.written hholds t).mp ((hr.resolve_left (fun h0 => h0 rfl)).1 t ht))

theorem lost_of_large (hp : h.PlainNames)
    {name value : CString} (hvalue : h.nvramGet name = some value)
    (hname : name ∉ [sdramInit, sdramConfig, sdramRefresh, sdramNcdl])
    (hlarge : nvramSpace < nvramHeaderSize + (name.length + 1 + value.length + 1) + 2) :
    ¬ CommitKeeps order strtoul h
      ∧ ∃ g, h.nvramCommit order strtoul = some (0, g) ∧ g.nvramGet name = none := by
  have hsize : ∀ ts : List NvramTuple, ⟨name, value⟩ ∈ ts
      → name.length + 1 + value.length + 1 ≤ tuplesSize ts := by
    intro ts hmem
    exact tuplesSize_le_of_subset (List.nodup_singleton _)
      (List.cons_subset.mpr ⟨hmem, List.nil_subset _⟩)
  constructor
  · intro hk
    have hfits := fits_of_keeps _ _ hk
    have hle := hsize _ (mem_tuples.mpr hvalue)
    rw [Fits] at hfits
    omega
  · obtain ⟨g, hg, -, -, hget⟩ := commit_spec order strtoul hp.written
    refine ⟨g, hg, ?_⟩
    simp only [List.mem_cons, List.not_mem_nil, or_false, not_or] at hname
    rw [hget, sdramValue, if_neg hname.1, if_neg hname.2.1, if_neg hname.2.2.1,
      if_neg hname.2.2.2, Option.or_none, List.dlookup_eq_none]
    intro hmem
    obtain ⟨value', hin⟩ := List.exists_of_mem_keys hmem
    cases hvalue.symm.trans (mem_tuples.mp (h.written_sublist.subset hin))
    have hle := hsize _ hin
    have hroom := h.tuplesSize_written_le
    omega

end NvramHandle

/-- **When a commit loses nothing silently**: exactly if the variables fit
into the image and no name has an equals sign. -/
theorem nvramCommit_keeps_iff (order : ByteOrder) (strtoul : CString → ℕ) (h : NvramHandle) :
    h.CommitKeeps order strtoul ↔ h.Fits ∧ h.PlainNames := by
  constructor
  · intro hk
    exact ⟨NvramHandle.fits_of_keeps order strtoul hk,
      NvramHandle.plainNames_of_keeps order strtoul hk⟩
  · rintro ⟨hfits, hp⟩
    exact NvramHandle.keeps_of_fits order strtoul hp hfits

def largeValue : CString where
  bytes := List.replicate 32766 98
  noZero := by
    rw [List.mem_replicate]
    rintro ⟨-, h⟩
    exact absurd h (by decide)

def largeName : CString := .ofString "a" (by decide)

/-- The set returns 0, the commit returns 0, and the variable is gone. -/
theorem nvramCommit_drops_variable : ∃ h, nvramOpen .little blankImage nvramSpace le_rfl = .handle h
    ∧ (h.nvramSet largeName largeValue).1 = 0
    ∧ ¬ (h.nvramSet largeName largeValue).2.CommitKeeps .little (fun _ => 0)
    ∧ ∃ g, (h.nvramSet largeName largeValue).2.nvramCommit .little (fun _ => 0) = some (0, g)
      ∧ g.nvramGet largeName = none := by
  obtain ⟨h, hopen, -⟩ := open_blankImage
  have hlength : largeValue.length = 32766 := List.length_replicate
  have hset : largeValue.length + 1 ≤ nvramSpace := by
    rw [hlength, nvramSpace_eq]
    decide
  have hget : (h.nvramSet largeName largeValue).2.nvramGet largeName = some largeValue := by
    rw [NvramHandle.nvramGet_nvramSet, if_pos hset, Function.update_self]
  have hp := (NvramHandle.plainNames_of_open hopen).nvramSet
    (show equalsSign ∉ largeName.bytes by decide) largeValue
  have hname : largeName.length = 1 := by decide
  refine ⟨h, hopen, by rw [NvramHandle.nvramSet_of_le hset],
    NvramHandle.lost_of_large .little (fun _ => 0) hp hget (by decide) ?_⟩
  rw [hname, hlength, nvramSpace_eq]
  decide
