import Mathlib.Algebra.GroupWithZero.Nat
import Mathlib.Data.List.TakeWhile
import Mathlib.Data.Int.Basic
import RouterFirmware.Fallible

/-!
# Drawing a line of text on the panel

`Draw_string_line` of `OLED_DRAW_API.c` converts a UTF-8 text to UCS-4 in
`bufout`, copies the codes up to the end of the line to `ucode_array`, measures
the glyphs to centre the line, and draws them one by one into `dot_matrix`.
-/

namespace OledDraw

open List

/-! ## FreeType -/

structure Glyph where
  rows : ℤ
  width : ℤ
  pitch : ℤ
  /-- The bytes from `bitmap.buffer` on. -/
  buffer : ℤ → UInt8
  horiBearingX : ℤ
  horiBearingY : ℤ
  metricsWidth : ℤ
  metricsHeight : ℤ
  rows_nonneg : 0 ≤ rows
  width_nonneg : 0 ≤ width
  width_le : width ≤ 8 * pitch

inductive GlyphError
  /-- `FT_Load_Glyph` fails. -/
  | load
  /-- `FT_Render_Glyph` fails. -/
  | render
deriving DecidableEq, Repr

def GlyphError.code : GlyphError → ℤ
  | .load => 9
  | .render => 10

/-- **A face**, opened and set to a size. -/
structure Face where
  /-- `FT_Init_FreeType` and `FT_New_Face` succeed, or have done so before. -/
  initialized : Bool
  /-- `FT_Set_Char_Size` succeeds. -/
  sized : Bool
  /-- `FT_Get_Char_Index`; zero is no glyph. -/
  charIndex : UInt32 → ℕ
  /-- `FT_Load_Glyph` and `FT_Render_Glyph`. -/
  glyph : ℕ → Except GlyphError Glyph

def Glyph.bearingX (g : Glyph) : ℤ := g.horiBearingX >>> (6 : ℕ)

def Glyph.columns (g : Glyph) : ℕ := (g.metricsWidth >>> (6 : ℕ)).toNat

def Glyph.height (g : Glyph) : ℕ := (g.metricsHeight >>> (6 : ℕ)).toNat

def Glyph.white (g : Glyph) (row pixel : ℕ) : Bool :=
  g.buffer (row * g.pitch + pixel / 8) &&& (0xC0 >>> UInt8.ofNat (pixel % 8)) ≠ 0

/-! ## The code -/

inductive Fault
  | ucodeArray (i : ℕ)
  | bufout (i : ℕ)
  | dotMatrix (x y : ℤ)
deriving DecidableEq, Repr

def oledWidth : ℕ := 128

def oledHeight : ℕ := 64

/-- `dot_matrix`; a white point is `true`. -/
abbrev DotMatrix := Fin oledWidth → Fin oledHeight → Bool

def setDot (dots : DotMatrix) (x y : ℤ) (point : Bool) : Except Fault DotMatrix :=
  if h : (0 ≤ x ∧ x < oledWidth) ∧ 0 ≤ y ∧ y < oledHeight then
    .ok (Function.update dots ⟨x.toNat, by omega⟩
      (Function.update (dots ⟨x.toNat, by omega⟩) ⟨y.toNat, by omega⟩ point))
  else .error (.dotMatrix x y)

def strlen (text : List Char) : ℕ := (text.map Char.utf8Size).sum

def outText (text : List Char) (stack : ℕ → UInt32) (i : ℕ) : UInt32 :=
  (((text.take 128)[i]?).map Char.val).getD (stack i)

def isEnd (word : UInt32) : Bool := word = 0x0a ∨ word = 0

def copyCodes (outText : ℕ → UInt32) : ℕ → ℕ → List UInt32 → Except Fault (List UInt32)
  | 0, _, ucodeArray => .ok ucodeArray
  | n + 1, i, ucodeArray =>
    if 128 ≤ i then .error (.bufout i)
    else if isEnd (outText i) then .ok ucodeArray
    else if 50 ≤ ucodeArray.length then .error (.ucodeArray ucodeArray.length)
    else copyCodes outText n (i + 1) (ucodeArray ++ [outText i])

/-- What the first loop over the glyphs finds out. -/
structure Measure where
  maxFontHeight : ℤ
  maxFontWidth : ℤ
  totalWidth : ℤ

def measure (face : Face) : List UInt32 → Measure → Except GlyphError Measure
  | [], m => .ok m
  | code :: codes, m =>
    if face.charIndex code = 0 then measure face codes m
    else
      match face.glyph (face.charIndex code) with
      | .error e => .error e
      | .ok g =>
        let m := if m.maxFontHeight < g.rows then
          { m with maxFontHeight := g.rows, maxFontWidth := g.width } else m
        if oledWidth < g.width + g.bearingX + m.totalWidth then .ok m
        else measure face codes { m with totalWidth := m.totalWidth + (g.width + g.bearingX) }

structure Pen where
  xOffset : ℤ
  yOffset : ℤ
  isSkipDraw : Bool

def Pen.full (pen : Pen) (g : Glyph) : Bool := oledWidth < g.width + g.bearingX + pen.xOffset

def Pen.place (pen : Pen) (g : Glyph) : Pen :=
  if pen.full g then
    { xOffset := g.bearingX + g.bearingX, yOffset := pen.yOffset + 18, isSkipDraw := true }
  else { pen with xOffset := pen.xOffset + g.bearingX }

def Pen.advance (pen : Pen) (g : Glyph) (maxFontWidth : ℤ) : Pen :=
  { pen with
    xOffset := (if g.width = 0 then pen.xOffset + maxFontWidth.tdiv 2 else pen.xOffset) + g.width }

def drawPixel (g : Glyph) (x y : ℤ) (dots : DotMatrix) (row pixel : ℕ) : Except Fault DotMatrix :=
  if g.white row pixel then
    if row + y < oledHeight then setDot dots (pixel + x) (row + y) true else .ok dots
  else setDot dots (pixel + x) (row + y) false

def drawBitmap (g : Glyph) (x y : ℤ) (dots : DotMatrix) : Except Fault DotMatrix :=
  (range g.height).foldlM (fun dots row =>
    (range g.columns).foldlM (fun dots pixel => drawPixel g x y dots row pixel) dots) dots

inductive Outcome
  | returns (code : ℤ) (dots : DotMatrix)
  | fault (f : Fault)

def drawGlyphs (face : Face) (fontSize maxFontWidth : ℤ) : List UInt32 → Pen → DotMatrix → Outcome
  | [], _, dots => .returns 0 dots
  | code :: codes, pen, dots =>
    if face.charIndex code = 0 then .returns 8 dots
    else
      match face.glyph (face.charIndex code) with
      | .error e => .returns e.code dots
      | .ok g =>
        if pen.full g ∧ pen.isSkipDraw then .returns 0 dots
        else
          let pen := pen.place g
          match drawBitmap g pen.xOffset (fontSize - (g.horiBearingY >>> (6 : ℕ)) + pen.yOffset)
              dots with
          | .error f => .fault f
          | .ok dots =>
            drawGlyphs face fontSize maxFontWidth codes (pen.advance g maxFontWidth) dots

def penOf (yOffset : ℤ) (m : Measure) : Pen where
  xOffset := if m.totalWidth < oledWidth then 128 / 2 - m.totalWidth.tdiv 2 else 0
  yOffset := yOffset
  isSkipDraw := 22 < yOffset

def drawStringLine (face : Face) (text : List Char) (stack : ℕ → UInt32)
    (fontSize yOffset : ℤ) (dots : DotMatrix) : Outcome :=
  match copyCodes (outText text stack) (strlen text) 0 [] with
  | .error f => .fault f
  | .ok codes =>
    if face.initialized = false then .returns 2 dots
    else if face.sized = false then .returns 3 dots
    else
      match measure face codes ⟨0, 0, 0⟩ with
      | .error e => .returns e.code dots
      | .ok m => drawGlyphs face fontSize m.maxFontWidth codes (penOf yOffset m) dots

/-! ## The text -/

def lineCodes (text : List Char) (stack : ℕ → UInt32) : List UInt32 :=
  ((range (strlen text)).map (outText text stack)).takeWhile (! isEnd ·)

def TextFits (text : List Char) (stack : ℕ → UInt32) : Prop :=
  strlen text ≤ 50 ∨ ∃ i ≤ 50, isEnd (outText text stack i) = true

theorem copyCodes_eq (outText : ℕ → UInt32) (n i : ℕ) (ucodeArray : List UInt32)
    (hi : ucodeArray.length = i) (hle : i ≤ 50) : copyCodes outText n i ucodeArray
    = if (((range' i n).map outText).takeWhile (! isEnd ·)).length ≤ 50 - i then
        .ok (ucodeArray ++ ((range' i n).map outText).takeWhile (! isEnd ·))
      else .error (.ucodeArray 50) := by
  induction n generalizing i ucodeArray with
  | zero => simp [copyCodes]
  | succ n ih =>
    rw [copyCodes, if_neg (by omega), range'_succ, map_cons, takeWhile_cons]
    by_cases hend : isEnd (outText i) = true
    · simp [hend]
    have hgo : (! isEnd (outText i)) = true := by simpa using hend
    rw [if_neg hend]
    simp only [hgo, if_true]
    by_cases hfull : 50 ≤ ucodeArray.length
    · rw [if_pos hfull, if_neg (by simp only [length_cons]; omega)]
      congr 2
      omega
    · rw [if_neg hfull, ih (i + 1) _ (by simp [hi]) (by omega), append_assoc]
      simp only [singleton_append, length_cons]
      congr 1
      rw [eq_iff_iff]
      omega

theorem length_takeWhile_map_range'_le (outText : ℕ → UInt32) (n i k : ℕ) :
    (((range' i n).map outText).takeWhile (! isEnd ·)).length ≤ k
      ↔ n ≤ k ∨ ∃ j, i ≤ j ∧ j ≤ i + k ∧ isEnd (outText j) = true := by
  induction n generalizing i k with
  | zero => simp
  | succ n ih =>
    rw [range'_succ, map_cons, takeWhile_cons]
    by_cases hend : isEnd (outText i) = true
    · simp only [hend, Bool.not_true, Bool.false_eq_true, if_false, length_nil, Nat.zero_le,
        true_iff]
      exact .inr ⟨i, Nat.le_refl i, by omega, hend⟩
    have hgo : (! isEnd (outText i)) = true := by simpa using hend
    rw [if_pos hgo, length_cons]
    cases k with
    | zero =>
      refine ⟨nofun, ?_⟩
      rintro (hle | ⟨j, hij, hj, hjend⟩)
      · omega
      · obtain rfl : j = i := by omega
        exact absurd hjend hend
    | succ k =>
      rw [Nat.add_le_add_iff_right, ih, Nat.add_le_add_iff_right]
      refine or_congr Iff.rfl ⟨?_, ?_⟩
      · rintro ⟨j, hij, hj, hjend⟩
        exact ⟨j, by omega, by omega, hjend⟩
      · rintro ⟨j, hij, hj, hjend⟩
        have hne : j ≠ i := by
          rintro rfl
          exact hend hjend
        exact ⟨j, by omega, by omega, hjend⟩

theorem textFits_iff (text : List Char) (stack : ℕ → UInt32) :
    TextFits text stack ↔ (lineCodes text stack).length ≤ 50 := by
  rw [lineCodes, range_eq_range', length_takeWhile_map_range'_le]
  simp [TextFits]

theorem copyCodes_outText (text : List Char) (stack : ℕ → UInt32) :
    copyCodes (outText text stack) (strlen text) 0 []
      = if (lineCodes text stack).length ≤ 50 then .ok (lineCodes text stack)
        else .error (.ucodeArray 50) := by
  rw [copyCodes_eq _ _ 0 [] rfl (by decide), lineCodes, range_eq_range']
  rfl

/-! ## The glyphs -/

/-- A glyph on the panel, with its corner. -/
structure Placement where
  glyph : Glyph
  x : ℤ
  y : ℤ

def Placement.Fits (p : Placement) : Prop :=
  p.glyph.columns = 0 ∨ p.glyph.height = 0
    ∨ 0 ≤ p.y ∧ (p.y < oledHeight → 0 ≤ p.x ∧ p.x + p.glyph.columns ≤ oledWidth)
      ∧ ∀ row < p.glyph.height, ∀ pixel < p.glyph.columns,
        p.glyph.white row pixel = false → row + p.y < oledHeight

def layout (face : Face) (fontSize maxFontWidth : ℤ) : List UInt32 → Pen → List Placement
  | [], _ => []
  | code :: codes, pen =>
    if face.charIndex code = 0 then []
    else
      match face.glyph (face.charIndex code) with
      | .error _ => []
      | .ok g =>
        if pen.full g ∧ pen.isSkipDraw then []
        else
          ⟨g, (pen.place g).xOffset,
              fontSize - (g.horiBearingY >>> (6 : ℕ)) + (pen.place g).yOffset⟩
            :: layout face fontSize maxFontWidth codes ((pen.place g).advance g maxFontWidth)

theorem exists_setDot_ok_iff (dots : DotMatrix) (x y : ℤ) (point : Bool) :
    (∃ dots', setDot dots x y point = .ok dots')
      ↔ (0 ≤ x ∧ x < oledWidth) ∧ 0 ≤ y ∧ y < oledHeight := by
  unfold setDot
  split
  · rename_i h
    exact ⟨fun _ => h, fun _ => ⟨_, rfl⟩⟩
  · rename_i h
    exact ⟨nofun, fun hin => absurd hin h⟩

theorem exists_drawPixel_ok_iff (g : Glyph) (x y : ℤ) (dots : DotMatrix) (row pixel : ℕ) :
    (∃ dots', drawPixel g x y dots row pixel = .ok dots')
      ↔ (g.white row pixel = true ∧ (oledHeight : ℤ) ≤ row + y)
        ∨ (0 ≤ pixel + x ∧ pixel + x < oledWidth) ∧ 0 ≤ row + y ∧ row + y < oledHeight := by
  unfold drawPixel
  by_cases hwhite : g.white row pixel = true
  · rw [if_pos hwhite]
    by_cases hrow : row + y < oledHeight
    · rw [if_pos hrow, exists_setDot_ok_iff]
      simp only [hwhite, true_and, Int.not_le.mpr hrow, false_or]
    · rw [if_neg hrow]
      exact ⟨fun _ => .inl ⟨hwhite, Int.not_lt.mp hrow⟩, fun _ => ⟨_, rfl⟩⟩
  · rw [if_neg hwhite, exists_setDot_ok_iff]
    simp only [hwhite, Bool.false_eq_true, false_and, false_or]

theorem exists_drawBitmap_ok_iff (g : Glyph) (x y : ℤ) (dots : DotMatrix) :
    (∃ dots', drawBitmap g x y dots = .ok dots') ↔ Placement.Fits ⟨g, x, y⟩ := by
  have hpixels : (∃ dots', drawBitmap g x y dots = .ok dots')
      ↔ ∀ row ∈ range g.height, ∀ pixel ∈ range g.columns,
        (g.white row pixel = true ∧ (oledHeight : ℤ) ≤ row + y)
          ∨ (0 ≤ pixel + x ∧ pixel + x < oledWidth) ∧ 0 ≤ row + y ∧ row + y < oledHeight :=
    Fallible.exists_foldlM_ok_iff (fun dots row =>
      Fallible.exists_foldlM_ok_iff (fun dots pixel =>
        exists_drawPixel_ok_iff g x y dots row pixel) _ dots) _ dots
  rw [hpixels]
  simp only [mem_range, Placement.Fits, oledWidth, oledHeight]
  constructor
  · intro h
    by_cases hcolumns : g.columns = 0
    · exact .inl hcolumns
    by_cases hheight : g.height = 0
    · exact .inr (.inl hheight)
    -- the corners of the top row say where the glyph is
    have hleft := h 0 (by omega) 0 (by omega)
    have hright := h 0 (by omega) (g.columns - 1) (by omega)
    refine .inr (.inr ⟨by omega, fun hy => ⟨by omega, by omega⟩,
      fun row hrow pixel hpixel hb => ?_⟩)
    rcases h row hrow pixel hpixel with ⟨hwhite, -⟩ | hin
    · rw [hb] at hwhite
      cases hwhite
    · exact hin.2.2
  · rintro (hcolumns | hheight | ⟨hy, hx, hblack⟩) row hrow pixel hpixel
    · omega
    · omega
    · by_cases hbelow : row + y < 64
      · have hcolumns := hx (by omega)
        exact .inr (by omega)
      · refine .inl ⟨?_, by omega⟩
        by_contra hwhite
        exact hbelow (hblack row hrow pixel hpixel (by simpa using hwhite))

theorem drawGlyphs_inRange_iff (face : Face) (fontSize maxFontWidth : ℤ) (codes : List UInt32)
    (pen : Pen) (dots : DotMatrix) :
    (∀ f, drawGlyphs face fontSize maxFontWidth codes pen dots ≠ .fault f)
      ↔ ∀ p ∈ layout face fontSize maxFontWidth codes pen, p.Fits := by
  induction codes generalizing pen dots with
  | nil => simp [drawGlyphs, layout]
  | cons code codes ih =>
    rw [drawGlyphs, layout]
    by_cases hindex : face.charIndex code = 0
    · simp [hindex]
    rw [if_neg hindex, if_neg hindex]
    cases hglyph : face.glyph (face.charIndex code) with
    | error e => simp
    | ok g =>
      by_cases hskip : pen.full g ∧ pen.isSkipDraw
      · simp [hskip]
      simp only [if_neg hskip, forall_mem_cons]
      rw [← exists_drawBitmap_ok_iff g _ _ dots]
      cases drawBitmap g (pen.place g).xOffset
          (fontSize - (g.horiBearingY >>> (6 : ℕ)) + (pen.place g).yOffset) dots with
      | error f => simp
      | ok dots' => simpa using ih _ dots'

def lineLayout (face : Face) (codes : List UInt32) (fontSize yOffset : ℤ) : List Placement :=
  if face.initialized = false ∨ face.sized = false then []
  else
    match measure face codes ⟨0, 0, 0⟩ with
    | .error _ => []
    | .ok m => layout face fontSize m.maxFontWidth codes (penOf yOffset m)

/-- **Every index is in range** if and only if at most fifty codes are copied and
every glyph that is drawn lies on the panel. -/
theorem drawStringLine_inRange_iff (face : Face) (text : List Char) (stack : ℕ → UInt32)
    (fontSize yOffset : ℤ) (dots : DotMatrix) :
    (∀ f, drawStringLine face text stack fontSize yOffset dots ≠ .fault f)
      ↔ TextFits text stack
        ∧ ∀ p ∈ lineLayout face (lineCodes text stack) fontSize yOffset, p.Fits := by
  rw [textFits_iff, drawStringLine, copyCodes_outText]
  by_cases htext : (lineCodes text stack).length ≤ 50
  · simp only [if_pos htext, lineLayout]
    by_cases hinit : face.initialized = false
    · simp [hinit, htext]
    by_cases hsized : face.sized = false
    · simp [hinit, hsized, htext]
    simp only [hinit, hsized, or_self, htext, true_and]
    cases measure face (lineCodes text stack) ⟨0, 0, 0⟩ with
    | error e => simp
    | ok m => exact drawGlyphs_inRange_iff ..
  · simp [htext]

def wideGlyph : Glyph where
  rows := 1
  width := 130
  pitch := 18
  buffer := fun _ => 0
  horiBearingX := 0
  horiBearingY := 64
  metricsWidth := 130 * 64
  metricsHeight := 64
  rows_nonneg := by decide
  width_nonneg := by decide
  width_le := by decide

def wideFace : Face where
  initialized := true
  sized := true
  charIndex := fun _ => 1
  glyph := fun _ => .ok wideGlyph

def Outcome.fault? : Outcome → Option Fault
  | .fault f => some f
  | .returns _ _ => none

/-- **Fifty-one characters** do not fit `ucode_array`, and a glyph that is wider
than the panel is drawn beyond its right border. -/
theorem drawStringLine_out_of_range : (drawStringLine wideFace (replicate 51 'a') (fun _ => 0) 12 22
      (fun _ _ => false)).fault? = some (.ucodeArray 50)
    ∧ (drawStringLine wideFace ['m'] (fun _ => 0) 12 22
      (fun _ _ => false)).fault? = some (.dotMatrix 128 51) := by
  decide +kernel

end OledDraw
