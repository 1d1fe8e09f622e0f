import Mathlib.Data.Int.Basic
import Mathlib.Tactic.Common

/-!
# A display that a timer dims and others light

A display has a backlight and a panel, each with a counter.
-/

namespace DimmedDisplay

open Function

inductive Dimmer where
  | elsewhere
  | ifDimPos | decDim | ifDimLe | ifOffGe | ifDimZero | darken | decDimZero
  | ifOffPos | ifDimmed | decOff | ifOffZero | blankPanel | decOffZero
deriving DecidableEq

inductive Waker where
  | elsewhere
  /-- It looks at the counters. -/
  | looking
  /-- It has seen that the panel is on. -/
  | seen
  /-- It has seen that both are on. -/
  | ready
  /-- It is about to switch on the panel, -/
  | unblank
  /-- the backlight, -/
  | light
  /-- to set the counter of the backlight, -/
  | setDim
  /-- and that of the panel. -/
  | setOff
deriving DecidableEq

def Waker.unblanked : Waker → Bool
  | .seen | .ready | .light | .setDim | .setOff => true
  | _ => false

def Waker.lit : Waker → Bool
  | .ready | .setDim | .setOff => true
  | _ => false

def Waker.willSetOff : Waker → Bool
  | .light | .setDim | .setOff => true
  | _ => false

/-- **The display**, its counters, the timer and the wakers. -/
structure Display (ι : Type) where
  dim : ℤ
  off : ℤ
  lit : Bool
  blank : Bool
  timer : Dimmer
  waker : ι → Waker

def Dimmer.switching : Dimmer → Bool
  | .darken | .decDimZero | .blankPanel | .decOffZero => true
  | _ => false

namespace Display

variable {ι : Type}

def timerStep (s : Display ι) : Display ι :=
  match s.timer with
  | .elsewhere => { s with timer := .ifDimPos }
  | .ifDimPos => { s with timer := if 0 < s.dim then .decDim else .ifDimLe }
  | .decDim => { s with dim := s.dim - 1, timer := .ifDimLe }
  | .ifDimLe => { s with timer := if s.dim ≤ 0 then .ifOffGe else .elsewhere }
  | .ifOffGe => { s with timer := if 0 ≤ s.off then .ifDimZero else .elsewhere }
  | .ifDimZero => { s with timer := if s.dim = 0 then .darken else .ifOffPos }
  | .darken => { s with lit := false, timer := .decDimZero }
  | .decDimZero => { s with dim := s.dim - 1, timer := .ifOffPos }
  | .ifOffPos => { s with timer := if 0 < s.off then .ifDimmed else .ifOffZero }
  | .ifDimmed => { s with timer := if s.dim = -1 then .decOff else .ifOffZero }
  | .decOff => { s with off := s.off - 1, timer := .elsewhere }
  | .ifOffZero => { s with timer := if s.off = 0 then .blankPanel else .elsewhere }
  | .blankPanel => { s with blank := true, timer := .decOffZero }
  | .decOffZero => { s with off := s.off - 1, timer := .elsewhere }

def wakerAt [DecidableEq ι] (s : Display ι) (i : ι) (w : Waker) : Display ι :=
  { s with waker := update s.waker i w }

def Quiet (s : Display ι) : Prop := ∀ i, s.waker i = .elsewhere

/-- **A step of the display**, with the full times of the two counters. -/
inductive Step [DecidableEq ι] (dimTime offTime : ℤ) (s : Display ι) : Display ι → Prop
  | timer (h : s.timer = .ifDimZero ∧ s.dim = 0 ∨ s.timer = .ifOffZero ∧ s.off = 0 → s.Quiet) :
      Step dimTime offTime s s.timerStep
  | enter (i : ι) (h : s.waker i = .elsewhere) (ht : s.timer.switching = false) :
      Step dimTime offTime s (s.wakerAt i .looking)
  | see (i : ι) (h : s.waker i = .looking) (hsee : s.dim ≠ -1 ∨ s.off ≠ -1) :
      Step dimTime offTime s (s.wakerAt i .seen)
  | seeLit (i : ι) (h : s.waker i = .looking ∨ s.waker i = .seen) (hsee : s.dim ≠ -1) :
      Step dimTime offTime s (s.wakerAt i .ready)
  | leave (i : ι) (h : s.waker i = .ready) : Step dimTime offTime s (s.wakerAt i .elsewhere)
  | wake (i : ι) (h : s.waker i = .looking ∨ s.waker i = .ready) :
      Step dimTime offTime s (s.wakerAt i .unblank)
  | unblank (i : ι) (h : s.waker i = .unblank) :
      Step dimTime offTime s ({ s with blank := false }.wakerAt i .light)
  | relight (i : ι) (h : s.waker i = .seen) : Step dimTime offTime s (s.wakerAt i .light)
  | light (i : ι) (h : s.waker i = .light) :
      Step dimTime offTime s ({ s with lit := true }.wakerAt i .setDim)
  | set (i : ι) (h : s.waker i = .ready) : Step dimTime offTime s (s.wakerAt i .setDim)
  | setDim (i : ι) (h : s.waker i = .setDim ∨ s.waker i = .ready) :
      Step dimTime offTime s ({ s with dim := dimTime }.wakerAt i .setOff)
  | setOff (i : ι) (h : s.waker i = .setOff) (w : Waker) (hw : w = .elsewhere ∨ w = .seen) :
      Step dimTime offTime s ({ s with off := offTime }.wakerAt i w)

/-! ## The invariant -/

def Fits (offTime : ℤ) (s : Display ι) : Dimmer → Prop
  | .decDim => 0 < s.dim
  | .ifDimmed => 0 < s.off
  | .decOff => 0 < s.off ∧ (s.dim ≠ -1 → offTime ≤ s.off ∨ ∃ i, s.waker i = .setOff)
  | .darken => s.dim = 0 ∧ s.Quiet
  | .decDimZero => s.dim = 0 ∧ s.lit = false ∧ s.Quiet
  | .blankPanel => s.off = 0 ∧ s.dim = -1 ∧ s.Quiet
  | .decOffZero => s.off = 0 ∧ s.dim = -1 ∧ s.blank = true ∧ s.Quiet
  | _ => True

structure Inv (offTime : ℤ) (s : Display ι) : Prop where
  dimGe : -1 ≤ s.dim
  offGe : -1 ≤ s.off
  fits : s.Fits offTime s.timer
  dark : s.lit = false → s.dim = -1 ∨ s.timer = .decDimZero
  dimmed : s.dim = -1 → s.lit = false ∨ ∃ i, s.waker i = .setDim
  blank : s.blank = true → s.dim = -1 ∧ (s.off = -1 ∨ s.timer = .decOffZero)
  panelOff : s.off = -1 → s.blank = true ∨ ∃ i, (s.waker i).willSetOff = true
  wakerUnblanked : ∀ i, (s.waker i).unblanked = true → s.blank = false
  wakerLit : ∀ i, (s.waker i).lit = true → s.lit = true
  offHigh : s.dim ≠ -1 → offTime - 1 ≤ s.off ∨ ∃ i, s.waker i = .setOff

section

variable {offTime : ℤ} {s : Display ι} (h : s.Inv offTime) {i : ι}

include h

theorem Inv.lit_iff (ht : s.timer = .elsewhere) (hq : s.Quiet) : s.lit = false ↔ s.dim = -1 := by
  refine ⟨fun hlit => (h.dark hlit).resolve_right (by rw [ht]; exact nofun), fun hdim => ?_⟩
  refine (h.dimmed hdim).resolve_right ?_
  rintro ⟨i, hi⟩
  exact nomatch (hq i).symm.trans hi

theorem Inv.blank_iff (ht : s.timer = .elsewhere) (hq : s.Quiet) : s.blank = true ↔ s.off = -1 := by
  refine ⟨fun hblank => (h.blank hblank).2.resolve_right (by rw [ht]; exact nofun), fun hoff => ?_⟩
  refine (h.panelOff hoff).resolve_right ?_
  rintro ⟨i, hi⟩
  rw [hq i] at hi
  exact nomatch hi

/-! ## Steps of the timer -/

theorem Inv.timerTo {t₀ t : Dimmer} (ht : s.timer = t₀) (hfrom : t₀.switching = false)
    (hto : s.Fits offTime t) : ({ s with timer := t } : Display ι).Inv offTime where
  dimGe := h.dimGe
  offGe := h.offGe
  fits := by cases t <;> exact hto
  dark hlit := .inl ((h.dark hlit).resolve_right fun hz => by
    rw [← ht, hz] at hfrom
    cases hfrom)
  dimmed := h.dimmed
  blank hblank := ⟨(h.blank hblank).1,
    .inl ((h.blank hblank).2.resolve_right fun hz => by rw [← ht, hz] at hfrom; cases hfrom)⟩
  panelOff := h.panelOff
  wakerUnblanked := h.wakerUnblanked
  wakerLit := h.wakerLit
  offHigh := h.offHigh

omit h in
theorem Quiet.not_exists {P : Waker → Prop} (hq : s.Quiet) (hP : ¬P .elsewhere) :
    ¬∃ i, P (s.waker i) := by
  rintro ⟨i, hi⟩
  rw [hq i] at hi
  exact hP hi

omit h in
theorem inv_timerStep (hoff : 2 ≤ offTime) (h : s.Inv offTime)
    (hquiet : s.timer = .ifDimZero ∧ s.dim = 0 ∨ s.timer = .ifOffZero ∧ s.off = 0 → s.Quiet) :
    s.timerStep.Inv offTime := by
  obtain ⟨dim, off, lit, blank, timer, waker⟩ := s
  have hdimGe : -1 ≤ dim := h.dimGe
  have hoffGe : -1 ≤ off := h.offGe
  have hblank : blank = true → dim = -1 := fun hblank => (h.blank hblank).1
  cases timer with
  | elsewhere => exact h.timerTo rfl rfl trivial
  | ifDimPos =>
    refine h.timerTo rfl rfl ?_
    split
    · assumption
    · trivial
  | decDim =>
    have hpos : 0 < dim := h.fits
    refine ⟨show -1 ≤ dim - 1 by omega, hoffGe, trivial, fun hlit => ?_, fun hdim => ?_,
      fun hb => ?_, h.panelOff, h.wakerUnblanked, h.wakerLit,
      fun _ => h.offHigh (show dim ≠ -1 by omega)⟩
    · have hdark : dim = -1 := (h.dark hlit).resolve_right nofun
      omega
    · have hzero : dim - 1 = -1 := hdim
      omega
    · have hdark := hblank hb
      omega
  | ifDimLe | ifOffGe =>
    refine h.timerTo rfl rfl ?_
    split <;> trivial
  | ifDimZero =>
    refine h.timerTo rfl rfl ?_
    split
    · rename_i hdim
      exact ⟨hdim, hquiet (.inl ⟨rfl, hdim⟩)⟩
    · trivial
  | darken =>
    obtain ⟨hdim, hq⟩ : dim = 0 ∧ _ := h.fits
    refine ⟨hdimGe, hoffGe, ⟨hdim, rfl, hq⟩, fun _ => .inr rfl, fun _ => .inl rfl,
      fun hb => ?_, h.panelOff, h.wakerUnblanked, fun i hi => ?_, h.offHigh⟩
    · have hdark := hblank hb
      omega
    · exact absurd ⟨i, hi⟩ (hq.not_exists (P := fun w => w.lit = true) (by decide))
  | decDimZero =>
    obtain ⟨hdim, hlit, -⟩ : dim = 0 ∧ _ := h.fits
    have hnew : dim - 1 = -1 := by omega
    refine ⟨show -1 ≤ dim - 1 by omega, hoffGe, trivial, fun _ => .inl hnew, fun _ => .inl hlit,
      fun hb => ?_, h.panelOff, h.wakerUnblanked, h.wakerLit, fun hne => absurd hnew hne⟩
    have hdark := hblank hb
    omega
  | ifOffPos =>
    refine h.timerTo rfl rfl ?_
    split
    · assumption
    · trivial
  | ifDimmed =>
    refine h.timerTo rfl rfl ?_
    split
    · rename_i hdim
      exact ⟨h.fits, fun hne => absurd hdim hne⟩
    · trivial
  | decOff =>
    obtain ⟨hpos, hhigh⟩ : 0 < off ∧ _ := h.fits
    refine ⟨hdimGe, show -1 ≤ off - 1 by omega, trivial,
      fun hlit => .inl ((h.dark hlit).resolve_right nofun), h.dimmed, fun hb => ?_, fun hoff => ?_,
      h.wakerUnblanked, h.wakerLit,
      fun hne => (hhigh hne).imp_left fun hle => Int.sub_le_sub_right hle 1⟩
    · have hgone : off = -1 := (h.blank hb).2.resolve_right nofun
      omega
    · have hzero : off - 1 = -1 := hoff
      omega
  | ifOffZero =>
    refine h.timerTo rfl rfl ?_
    split
    · rename_i hzero
      have hq := hquiet (.inr ⟨rfl, hzero⟩)
      refine ⟨hzero, ?_, hq⟩
      by_contra hdim
      rcases h.offHigh hdim with hle | hset
      · have hgone : off = 0 := hzero
        have hhigh : offTime - 1 ≤ off := hle
        omega
      · exact hq.not_exists (P := fun w => w = .setOff) (by decide) hset
    · trivial
  | blankPanel =>
    obtain ⟨hzero, hdim, hq⟩ := h.fits
    refine ⟨hdimGe, hoffGe, ⟨hzero, hdim, rfl, hq⟩, fun _ => .inl hdim, h.dimmed,
      fun _ => ⟨hdim, .inr rfl⟩, fun _ => .inl rfl, fun i hi => ?_, h.wakerLit, h.offHigh⟩
    exact absurd ⟨i, hi⟩ (hq.not_exists (P := fun w => w.unblanked = true) (by decide))
  | decOffZero =>
    obtain ⟨hzero, hdim, hb, -⟩ : off = 0 ∧ _ := h.fits
    have hnew : off - 1 = -1 := by omega
    exact ⟨hdimGe, show -1 ≤ off - 1 by omega, trivial, fun _ => .inl hdim, h.dimmed,
      fun _ => ⟨hdim, .inl hnew⟩, fun _ => .inl hb, h.wakerUnblanked, h.wakerLit,
      fun hne => absurd hdim hne⟩

/-! ## Steps of a waker -/

/-- **The timer switches nothing** while a waker is under way. -/
theorem Inv.not_switching {i : ι} (hi : s.waker i ≠ .elsewhere) : s.timer.switching = false := by
  obtain ⟨dim, off, lit, blank, timer, waker⟩ := s
  cases timer with
  | darken => exact absurd (h.fits.2 i) hi
  | decDimZero | blankPanel => exact absurd (h.fits.2.2 i) hi
  | decOffZero => exact absurd (h.fits.2.2.2 i) hi
  | _ => rfl

/-- A change keeps what the timer knows if it keeps the counters positive and
the panel's counter high. -/
theorem Inv.fits_of {s' : Display ι} (hfrom : s.timer.switching = false)
    (hdim : 0 < s.dim → 0 < s'.dim) (hoff : 0 < s.off → 0 < s'.off)
    (hhigh : (s.dim ≠ -1 → offTime ≤ s.off ∨ ∃ i, s.waker i = .setOff) →
      s'.dim ≠ -1 → offTime ≤ s'.off ∨ ∃ i, s'.waker i = .setOff) : s'.Fits offTime s.timer := by
  have hfits := h.fits
  cases ht : s.timer <;> rw [ht] at hfrom hfits
  case darken | decDimZero | blankPanel | decOffZero => cases hfrom
  case decDim => exact hdim hfits
  case ifDimmed => exact hoff hfits
  case decOff => exact ⟨hoff hfits.1, hhigh hfits.2⟩
  all_goals trivial

variable [DecidableEq ι]

omit h in
theorem exists_update {P : Waker → Prop} {f : ι → Waker} {w : Waker} (h : ∃ j, P (f j))
    (hi : P (f i) → P w) : ∃ j, P (update f i w j) := by
  obtain ⟨j, hj⟩ := h
  by_cases hji : j = i
  · exact ⟨i, by rw [update_self]; exact hi (hji ▸ hj)⟩
  · exact ⟨j, by rw [update_of_ne hji]; exact hj⟩

omit h in
theorem forall_update {P : Waker → Prop} {f : ι → Waker} {w : Waker} (h : ∀ j, P (f j)) (hw : P w)
    (j : ι) : P (update f i w j) := by
  by_cases hji : j = i
  · rw [hji, update_self]
    exact hw
  · rw [update_of_ne hji]
    exact h j

theorem Inv.wakerTo {v w : Waker} (hi : s.waker i = v)
    (hfrom : v = .elsewhere → s.timer.switching = false) {lit blank : Bool}
    (hlit : lit = s.lit ∨ lit = true ∧ w = .setDim)
    (hblank : blank = s.blank ∨ blank = false ∧ w.willSetOff = true)
    (hw : w.unblanked = true → blank = false) (hl : w.lit = true → lit = true)
    (hdim : v = .setDim → w = .setDim) (hset : v.willSetOff = true → w.willSetOff = true)
    (hoff : v = .setOff → w = .setOff) :
    (({ s with lit := lit, blank := blank } : Display ι).wakerAt i w).Inv offTime where
  dimGe := h.dimGe
  offGe := h.offGe
  fits := by
    have hquiet : s.timer.switching = false := by
      by_cases hv : v = .elsewhere
      · exact hfrom hv
      · exact h.not_switching (hi ▸ hv)
    exact h.fits_of hquiet id id fun hhigh hne => (hhigh hne).imp_right fun hex =>
      exists_update (P := fun w => w = .setOff) hex (hi ▸ hoff)
  dark hfalse := by
    rcases hlit with hsame | ⟨htrue, -⟩
    · exact h.dark (hsame ▸ hfalse)
    · exact absurd (htrue.symm.trans hfalse) (by decide)
  dimmed hd := by
    rcases h.dimmed hd with hfalse | hex
    · rcases hlit with hsame | ⟨-, hwake⟩
      · exact .inl (hsame.trans hfalse)
      · exact .inr ⟨i, (update_self ..).trans hwake⟩
    · exact .inr (exists_update (P := fun w => w = .setDim) hex (hi ▸ hdim))
  blank htrue := by
    rcases hblank with hsame | ⟨hfalse, -⟩
    · exact h.blank (hsame ▸ htrue)
    · exact absurd (hfalse.symm.trans htrue) (by decide)
  panelOff ho := by
    rcases h.panelOff ho with htrue | hex
    · rcases hblank with hsame | ⟨-, hwake⟩
      · exact .inl (hsame.trans htrue)
      · exact .inr ⟨i, (congrArg Waker.willSetOff (update_self ..)).trans hwake⟩
    · exact .inr (exists_update (P := fun w => w.willSetOff = true) hex (hi ▸ hset))
  wakerUnblanked := by
    refine forall_update (P := fun w => w.unblanked = true → blank = false) (fun j hj => ?_) hw
    rcases hblank with hsame | ⟨hfalse, -⟩
    · exact hsame.trans (h.wakerUnblanked j hj)
    · exact hfalse
  wakerLit := by
    refine forall_update (P := fun w => w.lit = true → lit = true) (fun j hj => ?_) hl
    rcases hlit with hsame | ⟨htrue, -⟩
    · exact hsame.trans (h.wakerLit j hj)
    · exact htrue
  offHigh hne := (h.offHigh hne).imp_right fun hex =>
    exists_update (P := fun w => w = .setOff) hex (hi ▸ hoff)

theorem Inv.setDim {dimTime : ℤ} {v : Waker} (hdim : 0 < dimTime) (hi : s.waker i = v)
    (hv : v = .setDim ∨ v = .ready) :
    (({ s with dim := dimTime } : Display ι).wakerAt i .setOff).Inv offTime := by
  have hknown : v ≠ .elsewhere ∧ v.lit = true ∧ v.unblanked = true := by
    rcases hv with rfl | rfl <;> decide
  have hfrom := h.not_switching (hi ▸ hknown.1)
  have hlit : s.lit = true := h.wakerLit i (hi ▸ hknown.2.1)
  have hblank : s.blank = false := h.wakerUnblanked i (hi ▸ hknown.2.2)
  have hself : ∃ j, update s.waker i .setOff j = .setOff := ⟨i, update_self ..⟩
  refine ⟨by show -1 ≤ dimTime; omega, h.offGe, ?_, fun hf => ?_, fun hd => ?_, fun hb => ?_,
    fun ho => ?_, ?_, ?_, fun _ => .inr hself⟩
  · exact h.fits_of hfrom (fun _ => hdim) id fun _ _ => .inr hself
  · exact absurd (hlit.symm.trans hf) (by decide)
  · have : dimTime = -1 := hd
    omega
  · exact absurd (hblank.symm.trans hb) (by decide)
  · exact (h.panelOff ho).imp_right fun hex =>
      exists_update (P := fun w => w.willSetOff = true) hex fun _ => rfl
  · exact forall_update (P := fun w => w.unblanked = true → s.blank = false) h.wakerUnblanked
      fun _ => hblank
  · exact forall_update (P := fun w => w.lit = true → s.lit = true) h.wakerLit fun _ => hlit

theorem Inv.setOff {w : Waker} (hoff : 2 ≤ offTime) (hi : s.waker i = .setOff)
    (hw : w = .elsewhere ∨ w = .seen) :
    (({ s with off := offTime } : Display ι).wakerAt i w).Inv offTime := by
  have hfrom := h.not_switching (i := i) (by rw [hi]; exact nofun)
  have hblank : s.blank = false := h.wakerUnblanked i (by rw [hi]; rfl)
  have hnot : w.lit = false := by rcases hw with rfl | rfl <;> rfl
  refine ⟨h.dimGe, by show -1 ≤ offTime; omega, ?_, h.dark, fun hd => ?_, fun hb => ?_,
    fun ho => ?_, ?_, ?_, fun _ => .inl (by show offTime - 1 ≤ offTime; omega)⟩
  · exact h.fits_of hfrom id (fun _ => show 0 < offTime by omega) fun _ _ => .inl (Int.le_refl _)
  · refine (h.dimmed hd).imp_right fun hex =>
      exists_update (P := fun w => w = .setDim) hex fun hset => ?_
    rw [hi] at hset
    cases hset
  · exact absurd (hblank.symm.trans hb) (by decide)
  · have : offTime = -1 := ho
    omega
  · exact forall_update (P := fun w => w.unblanked = true → s.blank = false) h.wakerUnblanked
      fun _ => hblank
  · refine forall_update (P := fun w => w.lit = true → s.lit = true) h.wakerLit fun hl => ?_
    rw [hnot] at hl
    cases hl

omit h

theorem Step.inv {dimTime : ℤ} {s' : Display ι} (hstep : s.Step dimTime offTime s')
    (hdim : 0 < dimTime) (hoff : 2 ≤ offTime) (h : s.Inv offTime) : s'.Inv offTime := by
  cases hstep with
  | timer hquiet => exact inv_timerStep hoff h hquiet
  | enter i hi ht =>
    exact h.wakerTo hi (fun _ => ht) (.inl rfl) (.inl rfl) nofun nofun nofun nofun nofun
  | see i hi hsee =>
    have hfrom := h.not_switching (i := i) (by rw [hi]; exact nofun)
    have hblank : s.blank = false := by
      by_contra hb
      obtain ⟨hd, ho⟩ := h.blank (by simpa using hb)
      have ho' := ho.resolve_right fun ht => by rw [ht] at hfrom; cases hfrom
      exact hsee.elim (absurd hd) (absurd ho')
    exact h.wakerTo hi nofun (.inl rfl) (.inl rfl) (fun _ => hblank) nofun nofun nofun nofun
  | seeLit i hi hsee =>
    have hfrom := h.not_switching (i := i) (by rcases hi with hi | hi <;> rw [hi] <;> exact nofun)
    have hblank : s.blank = false := by
      by_contra hb
      exact hsee (h.blank (by simpa using hb)).1
    have hlit : s.lit = true := by
      by_contra hl
      rcases h.dark (by simpa using hl) with hd | ht
      · exact hsee hd
      · rw [ht] at hfrom
        cases hfrom
    rcases hi with hi | hi
    all_goals
      exact h.wakerTo hi nofun (.inl rfl) (.inl rfl) (fun _ => hblank) (fun _ => hlit) nofun nofun
        nofun
  | leave i hi =>
    exact h.wakerTo hi nofun (.inl rfl) (.inl rfl) nofun nofun nofun nofun nofun
  | wake i hi =>
    rcases hi with hi | hi
    all_goals
      exact h.wakerTo hi nofun (.inl rfl) (.inl rfl) nofun nofun nofun nofun nofun
  | unblank i hi =>
    exact h.wakerTo hi nofun (.inl rfl) (.inr ⟨rfl, rfl⟩) (fun _ => rfl) nofun nofun nofun nofun
  | relight i hi =>
    exact h.wakerTo hi nofun (.inl rfl) (.inl rfl) (fun _ => h.wakerUnblanked i (hi ▸ rfl)) nofun
      nofun nofun nofun
  | light i hi =>
    exact h.wakerTo hi nofun (.inr ⟨rfl, rfl⟩) (.inl rfl)
      (fun _ => h.wakerUnblanked i (hi ▸ rfl)) (fun _ => rfl) nofun (fun _ => rfl) nofun
  | set i hi =>
    exact h.wakerTo hi nofun (.inl rfl) (.inl rfl) (fun _ => h.wakerUnblanked i (hi ▸ rfl))
      (fun _ => h.wakerLit i (hi ▸ rfl)) nofun nofun nofun
  | setDim i hi => exact h.setDim hdim rfl hi
  | setOff i hi w hw => exact h.setOff hoff hi hw

end

end Display

end DimmedDisplay
