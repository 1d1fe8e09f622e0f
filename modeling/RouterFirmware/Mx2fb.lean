import Mathlib.Data.UInt
import RouterFirmware.Memory

/-!
# The frame buffer of the OLED panel

The frame buffer has a byte for each pixel; the panel wants eight pixels of a column in each byte,
page by page. `slcdc_fill_lcd` sends these bytes one by one. `mx2fb_format_convert` puts them into a
buffer that is sent by DMA and says whether any was new: `mx2fb_update_lcdc` starts a transfer only
then.
-/

namespace Mx2fb

open Nat List Memory

def u16 (n : ℕ) : ℕ := n % 2 ^ 16

section Convert

variable (src : Bytes) (width : ℕ)

def packColumn (x y : ℕ) : UInt8 :=
  (range 8).foldl
    (fun target shift =>
      if src (u16 ((y + shift) * width + x)) ≠ 0 then target ||| (1 <<< UInt8.ofNat shift)
      else target) 0

def packPage (y : ℕ) : List UInt8 := (range width).map fun x => packColumn src width x y

def fillPages : ℕ → ℕ → List UInt8
  | 0, _ => []
  | pages + 1, y => packPage src width y ++ fillPages pages (u16 (y + 8))

end Convert

def slcdcFillLcd (dataBuffer : Bytes) (high width : UInt16) : List UInt8 :=
  fillPages dataBuffer width.toNat (high.toNat / 8) 0

/-- The variables of `mx2fb_format_convert`. -/
structure Converting where
  target : Bytes
  contentChanged : UInt8
  targetIndex : ℕ

def Converting.put (c : Converting) (target : UInt8) : Converting :=
  if target ≠ c.target c.targetIndex then
    { target := c.target.blit c.targetIndex [target]
      contentChanged := 1
      targetIndex := u16 (c.targetIndex + 1) }
  else { c with targetIndex := u16 (c.targetIndex + 1) }

def convertPages (src : Bytes) (width : ℕ) : ℕ → ℕ → Converting → Converting
  | 0, _, c => c
  | pages + 1, y, c =>
    convertPages src width pages (u16 (y + 8))
      ((range width).foldl (fun c x => c.put (packColumn src width x y)) c)

def mx2fbFormatConvert (target src : Bytes) (high width : UInt16) : Bytes × UInt8 :=
  let c := convertPages src width.toNat (high.toNat / 8) 0 ⟨target, 0, 0⟩
  (c.target, c.contentChanged)

/-- The DMA buffer, and the bytes that the panel shows. -/
structure Panel where
  dbuffer : Bytes
  shown : List UInt8

def pixelMemSize (high width : UInt16) : ℕ := width.toNat * high.toNat / 8

def mx2fbUpdateLcdc (high width : UInt16) (p : Panel) (screenBase : Bytes) : Panel :=
  let converted := mx2fbFormatConvert p.dbuffer screenBase high width
  { dbuffer := converted.1
    shown := if converted.2 = 0 then p.shown
      else converted.1.slice 0 (pixelMemSize high width) }

def slcdcHigh : UInt16 := 64

def slcdcWidth : UInt16 := 128

/-! ## The bytes -/

def IsPacked (bytes src : Bytes) (high width : ℕ) : Prop :=
  ∀ p < high / 8, ∀ x < width, ∀ s < 8,
    (bytes (p * width + x)).toBitVec.getLsbD s = decide (src ((8 * p + s) * width + x) ≠ 0)

theorem getLsbD_one_shiftLeft {n s : ℕ} (hn : n < 8) (hs : s < 8) :
    ((1 : UInt8) <<< UInt8.ofNat n).toBitVec.getLsbD s = decide (s = n) := by
  have h : ∀ n < 8, ∀ s < 8,
      ((1 : UInt8) <<< UInt8.ofNat n).toBitVec.getLsbD s = decide (s = n) := by decide
  exact h n hn s hs

theorem getLsbD_foldl_range (g : ℕ → Prop) [DecidablePred g] {n s : ℕ} (hn : n ≤ 8) (hs : s < 8) :
    ((range n).foldl
      (fun target shift => if g shift then target ||| (1 <<< UInt8.ofNat shift) else target)
      (0 : UInt8)).toBitVec.getLsbD s = decide (s < n ∧ g s) := by
  induction n with
  | zero => simp
  | succ n ih =>
    specialize ih (le_of_succ_le hn)
    rw [range_succ, foldl_append]
    simp only [foldl_cons, foldl_nil]
    by_cases hg : g n
    · rw [if_pos hg, UInt8.toBitVec_or, BitVec.getLsbD_or, ih, getLsbD_one_shiftLeft hn hs]
      by_cases heq : s = n
      · simp [heq, hg]
      · have hlt : s < n + 1 ↔ s < n := by omega
        simp [heq, hlt]
    · rw [if_neg hg, ih]
      by_cases heq : s = n
      · simp [heq, hg]
      · have hlt : s < n + 1 ↔ s < n := by omega
        simp [hlt]

section Pages

variable {width : ℕ}

theorem length_packPage {src : Bytes} (y : ℕ) : (packPage src width y).length = width := by
  rw [packPage, length_map, length_range]

theorem length_fillPages {src : Bytes} (pages y : ℕ) :
    (fillPages src width pages y).length = pages * width := by
  induction pages generalizing y with
  | zero => rw [fillPages, Nat.zero_mul, length_nil]
  | succ pages ih =>
    rw [fillPages, length_append, length_packPage, ih, Nat.add_mul, Nat.one_mul, Nat.add_comm]

theorem fillPages_getElem {src : Bytes} {pages y : ℕ} (hsize : y + 8 * pages ≤ 2 ^ 16)
    {p x : ℕ} (hp : p < pages) (hx : x < width) :
    (fillPages src width pages y)[p * width + x]? = some (packColumn src width x (y + 8 * p)) := by
  induction pages generalizing y p with
  | zero => exact absurd hp (Nat.not_lt_zero _)
  | succ pages ih =>
    cases p with
    | zero =>
      rw [fillPages, zero_mul, zero_add, getElem?_append_left (by rwa [length_packPage])]
      simp [packPage, hx]
    | succ p =>
      have hindex : (p + 1) * width + x = width + (p * width + x) := by
        rw [add_mul, one_mul, add_comm (p * width), add_assoc]
      have hy : u16 (y + 8) = y + 8 := mod_eq_of_lt (by omega)
      rw [fillPages, hindex, getElem?_append_right (by rw [length_packPage]; omega),
        length_packPage, Nat.add_sub_cancel_left, hy, ih (by omega) (lt_of_succ_lt_succ hp),
        mul_succ, Nat.add_assoc y, Nat.add_comm 8]

end Pages

theorem getLsbD_packColumn {src : Bytes} {width x y s : ℕ} (hs : s < 8)
    (hindex : (y + s) * width + x < 2 ^ 16) :
    (packColumn src width x y).toBitVec.getLsbD s = decide (src ((y + s) * width + x) ≠ 0) := by
  rw [packColumn, getLsbD_foldl_range _ (Nat.le_refl 8) hs, u16, mod_eq_of_lt hindex]
  simp [hs]

/-! ## The target buffer -/

theorem Converting.put_target (c : Converting) (b : UInt8) :
    (c.put b).target = c.target.blit c.targetIndex [b] := by
  unfold Converting.put
  split_ifs with h
  · rfl
  · funext i
    by_cases hi : i = c.targetIndex
    · rw [hi, blit_cons_self]
      exact (not_not.mp h).symm
    · rw [blit_of_outside c.target (by rw [length_singleton]; omega)]

theorem Converting.put_contentChanged (c : Converting) (b : UInt8) :
    (c.put b).contentChanged = if b ≠ c.target c.targetIndex then 1 else c.contentChanged := by
  unfold Converting.put
  split_ifs <;> rfl

theorem Converting.put_targetIndex (c : Converting) (b : UInt8) :
    (c.put b).targetIndex = u16 (c.targetIndex + 1) := by
  unfold Converting.put
  split_ifs <;> rfl

theorem foldl_put_target (bytes : List UInt8) (c : Converting)
    (h : c.targetIndex + bytes.length < 2 ^ 16) :
    (bytes.foldl Converting.put c).target = c.target.blit c.targetIndex bytes := by
  induction bytes generalizing c with
  | nil => rw [foldl_nil, blit_nil]
  | cons b bytes ih =>
    rw [length_cons] at h
    have hindex : (c.put b).targetIndex = c.targetIndex + [b].length := by
      rw [c.put_targetIndex, length_singleton]
      exact mod_eq_of_lt (by omega)
    rw [foldl_cons, ih (c.put b) (by rw [hindex, length_singleton]; omega), hindex,
      c.put_target, blit_append, singleton_append]

theorem foldl_put_contentChanged (bytes : List UInt8) (c : Converting)
    (h : c.targetIndex + bytes.length < 2 ^ 16) : (bytes.foldl Converting.put c).contentChanged
    = if c.target.slice c.targetIndex bytes.length ≠ bytes then 1 else c.contentChanged := by
  induction bytes generalizing c with
  | nil => rfl
  | cons b bytes ih =>
    rw [length_cons] at h
    have hindex : (c.put b).targetIndex = c.targetIndex + 1 := by
      rw [c.put_targetIndex]
      exact mod_eq_of_lt (by omega)
    -- the bytes behind the first are those of the old buffer
    have hrest : (c.put b).target.slice (c.targetIndex + 1) bytes.length
        = c.target.slice (c.targetIndex + 1) bytes.length := by
      rw [c.put_target]
      exact slice_blit_of_disjoint _ (.inr (Nat.le_refl _))
    have hslice : c.target.slice c.targetIndex (b :: bytes).length
        = c.target c.targetIndex :: c.target.slice (c.targetIndex + 1) bytes.length := by
      rw [length_cons, Nat.add_comm, slice_add]
      rfl
    rw [foldl_cons, ih (c.put b) (by omega), hindex, hrest, c.put_contentChanged, hslice]
    by_cases hb : b = c.target c.targetIndex
    · simp [hb]
    · simp [hb, Ne.symm hb]

theorem convertPages_eq (src : Bytes) (width pages y : ℕ) (c : Converting) :
    convertPages src width pages y c = (fillPages src width pages y).foldl Converting.put c := by
  induction pages generalizing y c with
  | zero => rfl
  | succ pages ih => rw [convertPages, ih, fillPages, foldl_append, packPage, foldl_map]

section Frame

variable {high width : UInt16} (hsize : width.toNat * high.toNat ≤ 65536)

theorem length_slcdcFillLcd (src : Bytes) :
    (slcdcFillLcd src high width).length = high.toNat / 8 * width.toNat := length_fillPages ..

include hsize in
theorem length_slcdcFillLcd_lt (src : Bytes) : (slcdcFillLcd src high width).length < 2 ^ 16 := by
  have hle : high.toNat / 8 * width.toNat ≤ 65536 / 8 := by
    rw [Nat.le_div_iff_mul_le (by decide)]
    calc high.toNat / 8 * width.toNat * 8
        = high.toNat / 8 * 8 * width.toNat := mul_right_comm ..
      _ ≤ high.toNat * width.toNat := Nat.mul_le_mul_right _ (div_mul_le_self ..)
      _ = width.toNat * high.toNat := mul_comm ..
      _ ≤ 65536 := hsize
  rw [length_slcdcFillLcd]
  omega

include hsize in
theorem mx2fbFormatConvert_eq (target src : Bytes) : mx2fbFormatConvert target src high width
    = (target.blit 0 (slcdcFillLcd src high width),
      if target.slice 0 (slcdcFillLcd src high width).length ≠ slcdcFillLcd src high width
        then 1 else 0) := by
  have hlen := length_slcdcFillLcd_lt hsize src
  rw [mx2fbFormatConvert]
  simp only [convertPages_eq]
  rw [foldl_put_target _ _ (by rwa [Nat.zero_add]),
    foldl_put_contentChanged _ _ (by rwa [Nat.zero_add])]
  rfl

theorem slice_ne_iff_blit_ne (target : Bytes) (bytes : List UInt8) :
    target.slice 0 bytes.length ≠ bytes ↔ target.blit 0 bytes ≠ target := by
  refine not_congr ⟨fun h => ?_, fun h => ?_⟩
  · conv_lhs => rw [← h]
    exact eq_of_eqOn (eqOn_blit_slice target target 0 bytes.length)
      (by rw [h]; have := eqOff_blit target 0 bytes; rwa [zero_add] at this ⊢)
  · conv_lhs => rw [← h]
    exact target.slice_blit_self 0 bytes

include hsize in
theorem isPacked_blit (target src : Bytes) :
    IsPacked (target.blit 0 (slcdcFillLcd src high width)) src high.toNat width.toNat := by
  intro p hp x hx s hs
  have hhigh := high.toNat_lt
  have hget : (slcdcFillLcd src high width)[p * width.toNat + x]?
      = some (packColumn src width.toNat x (0 + 8 * p)) := fillPages_getElem (by omega) hp hx
  have hindex : (8 * p + s) * width.toNat + x < 2 ^ 16 := by
    calc (8 * p + s) * width.toNat + x
        < (8 * p + s) * width.toNat + width.toNat := Nat.add_lt_add_left hx _
      _ = (8 * p + s + 1) * width.toNat := (succ_mul ..).symm
      _ ≤ high.toNat * width.toNat := Nat.mul_le_mul_right _ (by omega)
      _ = width.toNat * high.toNat := mul_comm ..
      _ ≤ 2 ^ 16 := hsize
  rw [zero_add] at hget
  obtain ⟨hlt, hbyte⟩ := List.getElem?_eq_some_iff.mp hget
  have hblit := target.blit_of_inside 0 hlt
  rw [zero_add] at hblit
  rw [hblit, hbyte, getLsbD_packColumn hs hindex]

end Frame

/-! ## The panel -/

section Panel

variable {high width : UInt16} (h8 : 8 ∣ high.toNat) (hsize : width.toNat * high.toNat ≤ 65536)

include h8 in
theorem pixelMemSize_eq (src : Bytes) :
    pixelMemSize high width = (slcdcFillLcd src high width).length := by
  rw [length_slcdcFillLcd, pixelMemSize, Nat.mul_div_assoc _ h8, Nat.mul_comm]

def Panel.UpToDate (high width : UInt16) (p : Panel) : Prop :=
  p.shown = p.dbuffer.slice 0 (pixelMemSize high width)

instance (p : Panel) : Decidable (p.UpToDate high width) := inferInstanceAs (Decidable (_ = _))

include h8 hsize in
theorem mx2fbUpdateLcdc_shown {p : Panel} (h : p.UpToDate high width) (frame : Bytes) :
    (mx2fbUpdateLcdc high width p frame).UpToDate high width
      ∧ (mx2fbUpdateLcdc high width p frame).shown = slcdcFillLcd frame high width := by
  have hmem : pixelMemSize high width = (slcdcFillLcd frame high width).length :=
    pixelMemSize_eq h8 frame
  have hslice := p.dbuffer.slice_blit_self 0 (slcdcFillLcd frame high width)
  have hshown : (mx2fbUpdateLcdc high width p frame).shown = slcdcFillLcd frame high width := by
    simp only [mx2fbUpdateLcdc, mx2fbFormatConvert_eq hsize]
    by_cases hnew : p.dbuffer.slice 0 (slcdcFillLcd frame high width).length
        ≠ slcdcFillLcd frame high width
    · rw [if_pos hnew, if_neg (by decide), hmem, hslice]
    · -- nothing is sent, and nothing has to be
      rw [if_neg hnew, if_pos rfl, h, hmem]
      exact not_not.mp hnew
  refine ⟨?_, hshown⟩
  rw [Panel.UpToDate, hshown, hmem]
  simp only [mx2fbUpdateLcdc, mx2fbFormatConvert_eq hsize]
  exact hslice.symm

include h8 hsize in
theorem foldl_mx2fbUpdateLcdc_upToDate (frames : List Bytes) {p : Panel}
    (h : p.UpToDate high width) :
    (frames.foldl (mx2fbUpdateLcdc high width) p).UpToDate high width := by
  induction frames generalizing p with
  | nil => exact h
  | cons frame frames ih => exact ih (mx2fbUpdateLcdc_shown h8 hsize h frame).1

end Panel

/-- **The panel shows the current frame.** For every size whose pixels have
indices of 16 bits, the conversion gives the page-packed image, which is what
`slcdc_fill_lcd` sends; it says whether the buffer has changed; and a panel
that is updated only then shows the last frame. -/
theorem panel_shows_last_frame (high width : UInt16) (h8 : 8 ∣ high.toNat)
    (hsize : width.toNat * high.toNat ≤ 65536) : (∀ target src : Bytes,
    IsPacked (mx2fbFormatConvert target src high width).1 src high.toNat width.toNat
      ∧ (mx2fbFormatConvert target src high width).1.slice 0 (pixelMemSize high width)
        = slcdcFillLcd src high width
      ∧ Memory.EqOff (mx2fbFormatConvert target src high width).1 target 0
        (pixelMemSize high width)
      ∧ ((mx2fbFormatConvert target src high width).2 = 1
        ↔ (mx2fbFormatConvert target src high width).1 ≠ target)
      ∧ ((mx2fbFormatConvert target src high width).2 = 0
        ↔ (mx2fbFormatConvert target src high width).1 = target))
    ∧ ∀ (p : Panel) (frames : List Bytes) (last : Bytes),
      p.UpToDate high width →
        ((frames ++ [last]).foldl (mx2fbUpdateLcdc high width) p).shown
          = slcdcFillLcd last high width := by
  refine ⟨fun target src => ?_, fun p frames last hp => ?_⟩
  · have hchanged := slice_ne_iff_blit_ne target (slcdcFillLcd src high width)
    rw [mx2fbFormatConvert_eq hsize, pixelMemSize_eq h8 src]
    refine ⟨isPacked_blit hsize target src, target.slice_blit_self 0 _, ?_, ?_, ?_⟩
    · have hoff := target.eqOff_blit 0 (slcdcFillLcd src high width)
      rwa [zero_add] at hoff
    · rw [← hchanged]
      split_ifs with h <;> simp [h]
    · rw [← not_iff_not, ← ne_eq (target.blit _ _), ← hchanged]
      split_ifs with h <;> simp [h]
  · have hbefore := foldl_mx2fbUpdateLcdc_upToDate h8 hsize frames hp
    rw [foldl_append]
    exact (mx2fbUpdateLcdc_shown h8 hsize hbefore last).2

def onePixel (a : ℕ) : Bytes := fun i => if i = a then 1 else 0

/-- The panel of the device, with three frames: the second is like the first and
is not transferred, the third sets another pixel. -/
theorem panel_shows_last_frame_device :
    ([onePixel 0, onePixel 0, onePixel 200].foldl (mx2fbUpdateLcdc slcdcHigh slcdcWidth)
        ⟨fun _ => 0, replicate 1024 0⟩).shown
      = slcdcFillLcd (onePixel 200) slcdcHigh slcdcWidth :=
  (panel_shows_last_frame slcdcHigh slcdcWidth (by decide) (by decide)).2
    ⟨fun _ => 0, replicate 1024 0⟩ [onePixel 0, onePixel 0] (onePixel 200) (by decide +kernel)

end Mx2fb
