import Mathlib.Data.List.TakeWhile
import RouterFirmware.CString

/-!
# The language file of the display

`getStringLine` of `brlcdmain.c` translates a text of the display: it reads the
language file with `fgets` into a buffer of 512 bytes, cuts each piece into
tokens with `strtok_r`, and copies the second token of the first piece whose
first token is the key.
-/

namespace LcdLanguage

open List Option CString Prod

abbrev Text := List UInt8

def newline : UInt8 := 10

def equals : UInt8 := 61

def hash : UInt8 := 35

def maxTextLen : ℕ := 512

/-! ## The code -/

def fgets : ℕ → Text → Text × Text
  | 0, file => ([], file)
  | _ + 1, [] => ([], [])
  | n + 1, c :: file =>
    if c = newline then ([c], file)
    else (c :: (fgets n file).1, (fgets n file).2)

def cText (inbuf : Text) : Text := inbuf.takeWhile (· ≠ 0)

def strtok (s : Text) : Option (Text × Text) :=
  match s.dropWhile (· = equals) with
  | [] => none
  | c :: s => some ((c :: s).takeWhile (· ≠ equals), ((c :: s).dropWhile (· ≠ equals)).tail)

inductive Outcome
  /-- It returns, and this text is in `_outbuf`. -/
  | stored (outbuf : Text)
  /-- It uses the null pointer that `strtok_r` returned. -/
  | missingToken
deriving DecidableEq, Repr

def scanLine (key inbuf : Text) : Option Outcome :=
  match strtok inbuf with
  -- `keystr[0]`
  | none => some .missingToken
  | some (keystr, strtokData) =>
    if keystr.head? = some hash ∨ keystr ≠ key then none
    else
      match strtok strtokData with
      -- `strcpy(_outbuf,valstr)`
      | none => some .missingToken
      -- the newline is taken off `valstr` after it has been copied
      | some (valstr, _) => some (.stored valstr)

def scan (key : Text) : ℕ → Text → Outcome
  | 0, _ => .stored key
  | n + 1, file =>
    match fgets (maxTextLen - 1) file with
    | ([], _) => .stored key
    | (c :: inbuf, file) => (scanLine key (cText (c :: inbuf))).getD (scan key n file)

def getStringLine (file : Option Text) (key : CString) : Outcome :=
  match file with
  | none => .stored key.bytes
  | some file => scan key.bytes (file.length + 1) file

/-! ## What a language file says -/

def lines : Text → List Text
  | [] => []
  | c :: file =>
    if c = newline then [] :: lines file
    else
      match lines file with
      | [] => [[c]]
      | l :: ls => (c :: l) :: ls

def IsFor (key line : Text) : Prop :=
  line.head? ≠ some hash ∧ equals ∈ line ∧ line.takeWhile (· ≠ equals) = key

instance (key line : Text) : Decidable (IsFor key line) :=
  inferInstanceAs (Decidable (_ ∧ _ ∧ _))

def valueOf (line : Text) : Text := (line.dropWhile (· ≠ equals)).tail

def translate (key : Text) (ls : List Text) : Text :=
  ((ls.find? (fun line => IsFor key line)).map valueOf).getD key

def wanted (file : Option Text) (key : CString) : Text :=
  translate key.bytes (lines (file.getD []))

/-! ## The pieces that `fgets` delivers -/

structure Piece where
  /-- It is the beginning of a line. -/
  begins : Bool
  /-- Its bytes. -/
  text : Text
  /-- What is left of the file behind it. -/
  rest : Text

def pieces : ℕ → Bool → Text → List Piece
  | 0, _, _ => []
  | n + 1, begins, file =>
    match fgets (maxTextLen - 1) file with
    | ([], _) => []
    | (c :: inbuf, rest) =>
      ⟨begins, c :: inbuf, rest⟩ :: pieces n (decide (newline ∈ c :: inbuf)) rest

def Stops (key inbuf : Text) : Prop :=
  (strtok (cText inbuf)).map fst = none
    ∨ key.head? ≠ some hash ∧ (strtok (cText inbuf)).map fst = some key

instance (key inbuf : Text) : Decidable (Stops key inbuf) :=
  inferInstanceAs (Decidable (_ ∨ _))

def secondToken (inbuf : Text) : Option Text :=
  (strtok (cText inbuf)).bind fun t => (strtok t.2).map fst

def firstStop (key file : Text) : Option Piece :=
  (pieces (file.length + 1) true file).find? fun p => Stops key p.text

def IsUnendedLine (key : Text) (p : Piece) : Prop :=
  ∃ u, p.text = key ++ equals :: u ∧ u ≠ [] ∧ equals ∉ u ∧ newline ∉ u ∧ 0 ∉ u
    ∧ (p.rest = [] ∨ p.rest.head? = some newline)

def Answers (file key : Text) : Prop :=
  match firstStop key file with
  | none => translate key (lines file) = key
  | some p =>
    if p.begins ∧ p.text.head? ≠ some equals then IsUnendedLine key p
    else secondToken p.text = some (translate key (lines file))

/-! ## Pieces -/

theorem fgets_spec (n : ℕ) (file : Text) : file = (fgets n file).1 ++ (fgets n file).2
    ∧ (fgets n file).1.length ≤ n
    ∧ ((∃ l, (fgets n file).1 = l ++ [newline] ∧ newline ∉ l)
      ∨ newline ∉ (fgets n file).1
        ∧ ((fgets n file).2 = [] ∨ (fgets n file).1.length = n)) := by
  induction n generalizing file with
  | zero => exact ⟨rfl, Nat.le_refl _, .inr ⟨not_mem_nil, .inr rfl⟩⟩
  | succ n ih =>
    cases file with
    | nil => exact ⟨rfl, Nat.zero_le _, .inr ⟨not_mem_nil, .inl rfl⟩⟩
    | cons c file =>
      by_cases hc : c = newline
      · rw [fgets, if_pos hc, hc]
        exact ⟨rfl, Nat.succ_le_succ (Nat.zero_le _), .inl ⟨[], rfl, not_mem_nil⟩⟩
      · obtain ⟨hfile, hlen, hend⟩ := ih file
        rw [fgets, if_neg hc]
        refine ⟨congrArg (c :: ·) hfile, Nat.succ_le_succ hlen, ?_⟩
        rcases hend with ⟨l, hl, hmem⟩ | ⟨hmem, hrest⟩
        · refine .inl ⟨c :: l, congrArg (c :: ·) hl, ?_⟩
          rw [mem_cons, not_or]
          exact ⟨fun h => hc h.symm, hmem⟩
        · refine .inr ⟨?_, hrest.imp_right (congrArg Nat.succ)⟩
          rw [mem_cons, not_or]
          exact ⟨fun h => hc h.symm, hmem⟩

theorem newline_notMem_of_isPrefix {q a : List UInt8} {P : Prop}
    (hend : (∃ l, q = l ++ [newline] ∧ newline ∉ l) ∨ newline ∉ q ∧ P) (ha : a <+: q)
    (hlast : a.getLast? ≠ some newline) : newline ∉ a := by
  rcases hend with ⟨l, rfl, hl⟩ | ⟨hq, -⟩
  · rcases prefix_concat_iff.mp ha with rfl | ha
    · exact absurd getLast?_concat hlast
    · exact fun h => hl (ha.subset h)
  · exact fun h => hq (ha.subset h)

variable {key line : Text} {p : Piece}

theorem pieces_spec {n : ℕ} {begins : Bool} {file : Text}
    (hp : p ∈ pieces n begins file) : p.text ≠ [] ∧ p.text.length ≤ maxTextLen - 1
    ∧ ((∃ l, p.text = l ++ [newline] ∧ newline ∉ l)
      ∨ newline ∉ p.text ∧ (p.rest = [] ∨ p.text.length = maxTextLen - 1)) := by
  induction n generalizing begins file with
  | zero => cases hp
  | succ n ih =>
    rw [pieces] at hp
    obtain ⟨-, hlen, hend⟩ := fgets_spec (maxTextLen - 1) file
    revert hp hlen hend
    rcases fgets (maxTextLen - 1) file with ⟨_ | ⟨c, inbuf⟩, rest⟩
    · intro hp
      cases hp
    · intro hp hlen hend
      rcases mem_cons.mp hp with rfl | hp
      · exact ⟨cons_ne_nil _ _, hlen, hend⟩
      · exact ih hp

/-! ## Tokens -/

theorem strtok_eq_none {s : Text} (h : strtok s = none) : ∀ c ∈ s, c = equals := by
  unfold strtok at h
  split at h
  · rename_i hdrop
    intro c hc
    simpa using dropWhile_eq_nil_iff.mp hdrop c hc
  · cases h

theorem strtok_cons {c : UInt8} (hc : c ≠ equals) (s : Text) : strtok (c :: s)
    = some ((c :: s).takeWhile (· ≠ equals), ((c :: s).dropWhile (· ≠ equals)).tail) := by
  unfold strtok
  rw [dropWhile_cons_of_neg (by simpa using hc)]

theorem strtok_append {tok : List UInt8} (hne : tok ≠ []) (htok : equals ∉ tok) (rest : Text) :
    strtok (tok ++ equals :: rest) = some (tok, rest) := by
  have hall : ∀ c ∈ tok, decide (c ≠ equals) = true := fun c hc =>
    decide_eq_true fun h => htok (h ▸ hc)
  cases tok with
  | nil => exact absurd rfl hne
  | cons c tok =>
    rw [cons_append, strtok_cons (of_decide_eq_true (hall c mem_cons_self)),
      ← cons_append, takeWhile_append_of_pos hall, dropWhile_append_of_pos hall]
    simp [equals]

theorem strtok_token {tok : List UInt8} (hne : tok ≠ []) (htok : equals ∉ tok) :
    strtok tok = some (tok, []) := by
  have hall : ∀ c ∈ tok, decide (c ≠ equals) = true := fun c hc =>
    decide_eq_true fun h => htok (h ▸ hc)
  cases tok with
  | nil => exact absurd rfl hne
  | cons c tok =>
    rw [strtok_cons (of_decide_eq_true (hall c mem_cons_self)),
      takeWhile_eq_self_iff.mpr hall, dropWhile_eq_nil_iff.mpr hall]
    rfl

theorem strtok_spec {s tok rest : Text} (h : strtok s = some (tok, rest)) : tok ≠ [] ∧ equals ∉ tok
    ∧ ∃ seps, (∀ c ∈ seps, c = equals)
      ∧ (s = seps ++ tok ∧ rest = [] ∨ s = seps ++ (tok ++ equals :: rest)) := by
  have hsplit : s.takeWhile (· = equals) ++ s.dropWhile (· = equals) = s :=
    takeWhile_append_dropWhile
  have hseps : ∀ c ∈ s.takeWhile (· = equals), c = equals := fun c hc => by
    simpa using mem_takeWhile_imp hc
  unfold strtok at h
  split at h
  · cases h
  · rename_i c s' hdrop
    have hc : c ≠ equals := by
      have hhead := head?_dropWhile_not (· = equals) s
      rw [hdrop] at hhead
      simpa using hhead
    obtain ⟨rfl, rfl⟩ := Prod.mk.inj (some.inj h)
    rw [hdrop] at hsplit
    refine ⟨?_, ?_, _, hseps, ?_⟩
    · rw [takeWhile_cons_of_pos (by simpa using hc)]
      exact cons_ne_nil _ _
    · intro hmem
      simpa using mem_takeWhile_imp hmem
    · have hrest : (c :: s').takeWhile (· ≠ equals) ++ (c :: s').dropWhile (· ≠ equals) = c :: s' :=
        takeWhile_append_dropWhile
      rw [← hrest] at hsplit
      cases hafter : (c :: s').dropWhile (· ≠ equals) with
      | nil =>
        rw [hafter, append_nil] at hsplit
        exact .inl ⟨hsplit.symm, rfl⟩
      | cons d after =>
        have hd : d = equals := by
          have hhead := head?_dropWhile_not (· ≠ equals) (c :: s')
          rw [hafter] at hhead
          simpa using hhead
        rw [hafter, hd] at hsplit
        exact .inr hsplit.symm

theorem cText_append {a : Text} (ha : 0 ∉ a) (t : Text) : cText (a ++ t) = a ++ cText t :=
  takeWhile_append_of_pos fun _ hc => decide_eq_true fun h => ha (h ▸ hc)

theorem cText_of_noZero {a : Text} (ha : 0 ∉ a) : cText a = a :=
  takeWhile_eq_self_iff.mpr fun _ hc => decide_eq_true fun h => ha (h ▸ hc)

theorem cText_key (h0 : 0 ∉ key) (t : Text) :
    cText (key ++ equals :: t) = key ++ equals :: cText t := by
  rw [cText_append h0]
  rfl

theorem cText_isPrefix (t : Text) : cText t <+: t := takeWhile_prefix _

theorem noZero_cText (t : Text) : 0 ∉ cText t := fun h => by
  simpa using mem_takeWhile_imp h

/-! ## Lines -/

theorem lines_line {l : Text} (hl : newline ∉ l) (t : Text) :
    lines (l ++ newline :: t) = l :: lines t := by
  induction l with
  | nil => rw [nil_append, lines, if_pos rfl]
  | cons c l ih =>
    rw [mem_cons, not_or] at hl
    rw [cons_append, lines, if_neg (fun h => hl.1 h.symm), ih hl.2]

theorem lines_open {q : List UInt8} (hq : newline ∉ q) (hne : q ≠ []) (t : Text) :
    lines (q ++ t) = (q ++ (lines t).headD []) :: (lines t).tail := by
  induction q with
  | nil => exact absurd rfl hne
  | cons c q ih =>
    rw [mem_cons, not_or] at hq
    rw [cons_append, lines, if_neg (fun h => hq.1 h.symm)]
    cases q with
    | nil =>
      rw [nil_append]
      cases lines t <;> rfl
    | cons d q => rw [ih hq.2 (cons_ne_nil _ _)]; rfl

theorem headD_lines_eq_nil {t : Text} (h : (lines t).headD [] = []) :
    t = [] ∨ t.head? = some newline := by
  cases t with
  | nil => exact .inl rfl
  | cons c t =>
    refine .inr ?_
    rw [lines] at h
    by_cases hc : c = newline
    · exact congrArg some hc
    · rw [if_neg hc] at h
      cases ht : lines t <;> rw [ht] at h <;> cases h

theorem headD_lines_of_rest {t : List UInt8} (h : t = [] ∨ t.head? = some newline) :
    (lines t).headD [] = [] := by
  rcases h with rfl | h
  · rfl
  · cases t with
    | nil => rfl
    | cons c t => rw [lines, if_pos (some.inj h)]; rfl

theorem IsFor.eq (h : IsFor key line) : equals ∉ key ∧ line = key ++ equals :: valueOf line := by
  obtain ⟨-, hmem, hkey⟩ := h
  have hsplit : line.takeWhile (· ≠ equals) ++ line.dropWhile (· ≠ equals) = line :=
    takeWhile_append_dropWhile
  have hnot : equals ∉ key := by
    rw [← hkey]
    intro h
    simpa using mem_takeWhile_imp h
  refine ⟨hnot, ?_⟩
  rw [hkey] at hsplit
  unfold valueOf
  cases hafter : line.dropWhile (· ≠ equals) with
  | nil =>
    rw [hafter, append_nil] at hsplit
    exact absurd (hsplit ▸ hmem) hnot
  | cons d after =>
    have hd : d = equals := by
      have hhead := head?_dropWhile_not (· ≠ equals) line
      rw [hafter] at hhead
      simpa using hhead
    rw [hafter, hd] at hsplit
    exact hsplit.symm

theorem valueOf_append (hkey : equals ∉ key) (v : Text) : valueOf (key ++ equals :: v) = v := by
  have hall : ∀ c ∈ key, decide (c ≠ equals) = true := fun c hc =>
    decide_eq_true fun h => hkey (h ▸ hc)
  unfold valueOf
  rw [dropWhile_append_of_pos hall]
  simp [equals]

theorem isFor_append {key : List UInt8} (hne : key ≠ []) (hkey : equals ∉ key)
    (hhash : key.head? ≠ some hash) (v : Text) : IsFor key (key ++ equals :: v) := by
  have hall : ∀ c ∈ key, decide (c ≠ equals) = true := fun c hc =>
    decide_eq_true fun h => hkey (h ▸ hc)
  refine ⟨?_, mem_append_right _ mem_cons_self, ?_⟩
  · cases key with
    | nil => exact absurd rfl hne
    | cons c key => exact hhash
  · rw [takeWhile_append_of_pos hall]
    simp [equals]

theorem translate_cons_of_isFor (h : IsFor key line) (ls : List Text) :
    translate key (line :: ls) = valueOf line := by
  unfold translate
  rw [find?_cons_of_pos (by simpa using h)]
  rfl

theorem translate_cons_of_not (h : ¬IsFor key line) (ls : List Text) :
    translate key (line :: ls) = translate key ls := by
  unfold translate
  rw [find?_cons_of_neg (by simpa using h)]

/-! ## Where the loop ends -/

theorem stops_of_key {key : List UInt8} (hne : key ≠ []) (hkey : equals ∉ key) (h0 : 0 ∉ key)
    (hhash : key.head? ≠ some hash) (t : Text) : Stops key (key ++ equals :: t) := by
  refine .inr ⟨hhash, ?_⟩
  rw [cText_key h0, strtok_append hne hkey]
  rfl

theorem scan_eq (key : Text) (n : ℕ) (begins : Bool) (file : Text) : scan key n file
    = match (pieces n begins file).find? (fun p => Stops key p.text) with
      | none => .stored key
      | some p => ((secondToken p.text).map Outcome.stored).getD .missingToken := by
  induction n generalizing begins file with
  | zero => rfl
  | succ n ih =>
    rw [scan, pieces]
    rcases fgets (maxTextLen - 1) file with ⟨_ | ⟨c, inbuf⟩, rest⟩
    · rfl
    · simp only []
      by_cases hstop : Stops key (c :: inbuf)
      · rw [find?_cons_of_pos (by simpa using hstop)]
        simp only [scanLine, secondToken]
        rcases hstop with hnone | ⟨hhash, hkey⟩
        · rw [map_eq_none_iff.mp hnone]
          rfl
        · obtain ⟨⟨tok, after⟩, htok, rfl⟩ := map_eq_some_iff.mp hkey
          rw [htok]
          simp only [bind_some]
          rw [if_neg (by simpa using hhash)]
          cases strtok after <;> rfl
      · rw [find?_cons_of_neg (by simpa using hstop), ← ih]
        have hpass : scanLine key (cText (c :: inbuf)) = none := by
          rw [Stops, not_or, not_and] at hstop
          unfold scanLine
          cases htok : strtok (cText (c :: inbuf)) with
          | none => exact absurd (by rw [htok]; rfl) hstop.1
          | some t =>
            refine if_pos ?_
            by_cases hhash : t.1.head? = some hash
            · exact .inl hhash
            · refine .inr fun hkey => ?_
              exact hstop.2 (hkey ▸ hhash) (by rw [htok, ← hkey]; rfl)
        rw [hpass]
        rfl

theorem IsFor.stops {q : List UInt8} (h : IsFor key line) (hne : key ≠ [])
    (h0 : 0 ∉ key) (hq : key ++ [equals] <+: line → key ++ [equals] <+: q) : Stops key q := by
  obtain ⟨hkey, hline⟩ := h.eq
  have hhash : key.head? ≠ some hash := by
    have hhead := h.1
    rw [hline] at hhead
    cases key with
    | nil => exact absurd rfl hne
    | cons c key => exact hhead
  obtain ⟨t, ht⟩ := hq ⟨valueOf line, by rw [append_assoc]; exact hline.symm⟩
  rw [← ht, append_assoc]
  exact stops_of_key hne hkey h0 hhash t

def linesFrom (begins : Bool) (file : Text) : List Text :=
  if begins then lines file else (lines file).tail

theorem translate_passed {key : List UInt8} (file : Text) (begins : Bool) (hne : key ≠ [])
    (h0 : 0 ∉ key) (hlen : key.length < maxTextLen - 1)
    (hread : (fgets (maxTextLen - 1) file).1 ≠ [])
    (hpass : ¬Stops key (fgets (maxTextLen - 1) file).1) : translate key (linesFrom begins file)
    = translate key (linesFrom (decide (newline ∈ (fgets (maxTextLen - 1) file).1))
        (fgets (maxTextLen - 1) file).2) := by
  obtain ⟨hfile, -, hend⟩ := fgets_spec (maxTextLen - 1) file
  revert hfile hend hread hpass
  generalize (fgets (maxTextLen - 1) file).1 = q
  generalize (fgets (maxTextLen - 1) file).2 = rest
  intro hread hpass hfile hend
  rcases hend with ⟨l, hq, hl⟩ | ⟨hq, hrest⟩
  · -- the piece is a line and its end
    have hlines : lines file = l :: lines rest := by
      rw [hfile, hq, append_assoc]
      exact lines_line hl rest
    have hnot : ¬IsFor key l := fun h =>
      hpass (h.stops hne h0 fun hpre => hpre.trans ⟨[newline], hq.symm⟩)
    have hmem : decide (newline ∈ q) = true := by
      rw [hq]
      exact decide_eq_true (mem_append_right _ mem_cons_self)
    rw [hmem, linesFrom, linesFrom, hlines, if_pos rfl]
    cases begins with
    | false => rfl
    | true => exact translate_cons_of_not hnot _
  · -- the line goes on behind the piece, or the file ends
    have hlines := lines_open hq hread rest
    rw [← hfile] at hlines
    have hnot : ¬IsFor key (q ++ (lines rest).headD []) := fun h =>
      hpass <| h.stops hne h0 fun hpre => by
        rcases hrest with rfl | hfull
        · rwa [lines, headD_nil, append_nil] at hpre
        · refine prefix_of_prefix_length_le hpre (prefix_append _ _) ?_
          rw [length_append, hfull]
          exact hlen
    rw [decide_eq_false hq, linesFrom, linesFrom, hlines, if_neg Bool.false_ne_true]
    cases begins with
    | false => rfl
    | true => exact translate_cons_of_not hnot _

theorem translate_of_stop {key : List UInt8} (hne : key ≠ []) (hkey : equals ∉ key) (h0 : 0 ∉ key)
    (hhash : key.head? ≠ some hash) (hlen : key.length < maxTextLen - 1)
    {t : List UInt8} (hbegins : p.begins = true) (hp : p.text = key ++ equals :: t) (n : ℕ)
    (begins : Bool) (file : Text)
    (hfind : (pieces n begins file).find? (fun p => Stops key p.text) = some p) :
    translate key (linesFrom begins file) = (lines (t ++ p.rest)).headD [] := by
  induction n generalizing begins file with
  | zero => cases hfind
  | succ n ih =>
    rw [pieces] at hfind
    have hpassed := translate_passed file begins hne h0 hlen
    obtain ⟨hfile, -, hend⟩ := fgets_spec (maxTextLen - 1) file
    revert hfind hpassed hfile hend
    rcases fgets (maxTextLen - 1) file with ⟨_ | ⟨c, inbuf⟩, rest⟩
    · intro hfind
      cases hfind
    · simp only []
      intro hfind hpassed hfile hend
      by_cases hstop : Stops key (c :: inbuf)
      · rw [find?_cons_of_pos (by simpa using hstop)] at hfind
        cases hfind
        subst hbegins
        simp only [] at hp ⊢
        have hnl : newline ∉ key ++ [equals] := by
          exact newline_notMem_of_isPrefix hend ⟨t, by rw [hp, append_assoc]; rfl⟩
            (by simp [equals, newline])
        have hopen := lines_open hnl (by simp) (t ++ rest)
        have hsame : file = key ++ [equals] ++ (t ++ rest) := by
          rw [hfile, hp]
          simp
        rw [linesFrom, if_pos rfl, hsame, hopen, append_assoc, singleton_append,
          translate_cons_of_isFor (isFor_append hne hkey hhash _), valueOf_append hkey]
      · rw [find?_cons_of_neg (by simpa using hstop)] at hfind
        rw [hpassed (cons_ne_nil _ _) hstop]
        exact ih _ _ hfind

/-! ## When the answer is right -/

section

variable (h0 : 0 ∉ key)
include h0

theorem secondToken_key (hne : key ≠ []) (hkey : equals ∉ key) (t : Text) :
    secondToken (key ++ equals :: t) = (strtok (cText t)).map fst := by
  unfold secondToken
  rw [cText_key h0, strtok_append hne hkey]
  rfl

omit h0 in
theorem strtok_ne_of_newline {t after : Text} (ht : newline ∉ t) :
    strtok (cText (t ++ [newline])) ≠ some (t, after) := by
  intro h
  obtain ⟨-, hequals, seps, hseps, hsplit⟩ := strtok_spec h
  have hzero : 0 ∉ t := fun hz =>
    noZero_cText (t ++ [newline]) (by rcases hsplit with ⟨hs, -⟩ | hs <;> rw [hs] <;> simp [hz])
  rw [cText_append hzero] at hsplit
  rcases hsplit with ⟨hs, -⟩ | hs
  · have hmem : newline ∈ seps ++ t := by
      rw [← hs]
      exact mem_append_right _ mem_cons_self
    rcases mem_append.mp hmem with hmem | hmem
    · exact absurd (hseps _ hmem) (by decide)
    · exact ht hmem
  · have hmem : equals ∈ t ++ [newline] := by
      refine (hs : t ++ [newline] = _) ▸ ?_
      simp
    rcases mem_append.mp hmem with hmem | hmem
    · exact hequals hmem
    · exact absurd (mem_singleton.mp hmem) (by decide)

omit h0 in
theorem eq_of_strtok_append {t h after : Text} (hs : strtok (cText t) = some (t ++ h, after)) :
    h = [] ∧ t ≠ [] ∧ equals ∉ t ∧ 0 ∉ t := by
  obtain ⟨hne, hequals, seps, hseps, hsplit⟩ := strtok_spec hs
  have ht : equals ∉ t := fun hmem => hequals (mem_append_left _ hmem)
  have hct : equals ∉ cText t := fun hmem => ht ((cText_isPrefix t).subset hmem)
  rcases hsplit with ⟨hsplit, -⟩ | hsplit
  · cases seps with
    | cons c seps =>
      refine absurd ?_ hct
      rw [hsplit, hseps c mem_cons_self]
      exact mem_cons_self
    | nil =>
      rw [nil_append] at hsplit
      have hlen := (cText_isPrefix t).length_le
      rw [hsplit, length_append] at hlen
      have hh : h = [] := eq_nil_of_length_eq_zero (by omega)
      rw [hh, append_nil] at hsplit hne
      exact ⟨hh, hne, ht, hsplit ▸ noZero_cText t⟩
  · refine absurd ?_ hct
    rw [hsplit]
    simp

theorem secondToken_eq_value_iff {t : List UInt8} (hne : key ≠ [])
    (hkey : equals ∉ key) (hp : p.text = key ++ equals :: t)
    (hend : (∃ l, p.text = l ++ [newline] ∧ newline ∉ l)
      ∨ newline ∉ p.text ∧ (p.rest = [] ∨ p.text.length = maxTextLen - 1)) :
    secondToken p.text = some ((lines (t ++ p.rest)).headD []) ↔ IsUnendedLine key p := by
  rw [hp, secondToken_key h0 hne hkey]
  constructor
  · intro h
    obtain ⟨⟨v, after⟩, hv, hw⟩ := map_eq_some_iff.mp h
    simp only [] at hw
    have htne : t ≠ [] := by
      rintro rfl
      cases hv
    rcases hend with ⟨l, hl, hnl⟩ | ⟨hnl, -⟩
    · obtain ⟨t, d, rfl⟩ := eq_nil_or_concat t |>.resolve_left htne
      rw [concat_eq_append] at hp hv hw
      rw [hp, ← cons_append, ← append_assoc] at hl
      obtain ⟨rfl, hd⟩ := append_inj' hl rfl
      obtain rfl := singleton_inj.mp hd
      have ht : newline ∉ t := fun hmem =>
        hnl (mem_append_right _ (mem_cons_of_mem _ hmem))
      rw [append_assoc, singleton_append, lines_line ht, headD_cons] at hw
      exact absurd (hw ▸ hv) (strtok_ne_of_newline ht)
    · have ht : newline ∉ t := fun hmem =>
        hnl (hp ▸ mem_append_right _ (mem_cons_of_mem _ hmem))
      rw [lines_open ht htne, headD_cons] at hw
      obtain ⟨hhead, -, hequals, hzero⟩ := eq_of_strtok_append (hw ▸ hv)
      exact ⟨t, hp, htne, hequals, ht, hzero, headD_lines_eq_nil hhead⟩
  · rintro ⟨u, hu, hune, huequals, hunl, hu0, hrest⟩
    have htu : t = u := (cons.inj (append_cancel_left (hp.symm.trans hu))).2
    rw [htu, cText_of_noZero hu0, strtok_token hune huequals, lines_open hunl hune,
      headD_lines_of_rest hrest, append_nil]
    rfl

end

theorem IsUnendedLine.strtok_ne_none (h0 : 0 ∉ key)
    (h : IsUnendedLine key p) : strtok (cText p.text) ≠ none := by
  obtain ⟨u, hu, hune, huequals, -, hu0, -⟩ := h
  intro hnone
  obtain ⟨c, u, rfl⟩ := exists_cons_of_ne_nil hune
  have hc : c = equals := by
    refine strtok_eq_none hnone c ?_
    rw [hu, cText_key h0, cText_of_noZero hu0]
    simp
  exact huequals (hc ▸ mem_cons_self)

theorem stops_begin {inbuf : Text} (hstop : Stops key inbuf)
    (hhead : inbuf.head? ≠ some equals) (hnone : strtok (cText inbuf) ≠ none) :
    key ≠ [] ∧ equals ∉ key ∧ key.head? ≠ some hash
      ∧ (cText inbuf = key ∨ ∃ t, inbuf = key ++ equals :: t) := by
  rcases hstop with hstop | ⟨hhash, hkey⟩
  · exact absurd (map_eq_none_iff.mp hstop) hnone
  obtain ⟨⟨tok, after⟩, htok, rfl⟩ := map_eq_some_iff.mp hkey
  obtain ⟨hne, hequals, seps, hseps, hsplit⟩ := strtok_spec htok
  obtain ⟨behind, hbehind⟩ := cText_isPrefix inbuf
  have hnil : seps = [] := by
    cases seps with
    | nil => rfl
    | cons c seps =>
      refine absurd ?_ hhead
      rw [← hbehind, ← hseps c mem_cons_self]
      rcases hsplit with ⟨hs, -⟩ | hs <;> rw [hs] <;> rfl
  rw [hnil, nil_append, nil_append] at hsplit
  refine ⟨hne, hequals, hhash, hsplit.imp And.left fun hs => ⟨after ++ behind, ?_⟩⟩
  rw [← hbehind, hs, append_assoc]
  rfl

theorem secondToken_eq_translate_iff {key : CString} {file : Text}
    (hfind : firstStop key.bytes file = some p) (hbegins : p.begins = true)
    (hhead : p.text.head? ≠ some equals) :
    secondToken p.text = some (translate key.bytes (lines file))
      ↔ IsUnendedLine key.bytes p := by
  have hstop : Stops key.bytes p.text := by simpa using find?_some hfind
  obtain ⟨-, hlen, hend⟩ := pieces_spec (mem_of_find?_eq_some hfind)
  by_cases hnone : strtok (cText p.text) = none
  · refine iff_of_false ?_ fun h => h.strtok_ne_none key.noZero hnone
    unfold secondToken
    rw [hnone]
    exact (some_ne_none _).symm
  obtain ⟨hne, hkey, hhash, hall | ⟨t, ht⟩⟩ := stops_begin hstop hhead hnone
  · -- the key is all there is: no value to copy
    refine iff_of_false ?_ ?_
    · unfold secondToken
      rw [hall, strtok_token hne hkey]
      exact (some_ne_none _).symm
    · rintro ⟨u, hu, -, -, -, hu0, -⟩
      rw [hu, cText_key key.noZero] at hall
      exact hkey (hall ▸ mem_append_right _ mem_cons_self)
  · have hfits : key.bytes.length < maxTextLen - 1 := by
      rw [ht, length_append, length_cons] at hlen
      omega
    have hvalue := translate_of_stop hne hkey key.noZero hhash hfits hbegins ht _ true file hfind
    rw [linesFrom, if_pos rfl] at hvalue
    rw [hvalue]
    exact secondToken_eq_value_iff key.noZero hne hkey ht hend

/-- **The language lookup is right exactly if the file answers for the key** –
or cannot be opened. -/
theorem getStringLine_right_iff (file : Option Text) (key : CString) :
    getStringLine file key = .stored (wanted file key)
      ↔ ∀ text, file = some text → Answers text key.bytes := by
  cases file with
  | none => exact iff_of_true rfl fun text h => nomatch h
  | some text =>
    have hforall : (∀ t, some text = some t → Answers t key.bytes) ↔ Answers text key.bytes :=
      ⟨fun h => h text rfl, fun h t ht => some.inj ht ▸ h⟩
    rw [hforall, getStringLine, scan_eq key.bytes _ true]
    unfold Answers
    show (match firstStop key.bytes text with | none => _ | some p => _) = _ ↔ _
    have hstored : ∀ o : Option Text, (o.map Outcome.stored).getD .missingToken
        = .stored (wanted (some text) key) ↔ o = some (translate key.bytes (lines text)) := by
      intro o
      cases o with
      | none => exact iff_of_false Outcome.noConfusion (some_ne_none _).symm
      | some v => exact Outcome.stored.injEq v _ ▸ (some.injEq v _ ▸ Iff.rfl)
    cases hfind : firstStop key.bytes text with
    | none => exact Outcome.stored.injEq _ _ ▸ eq_comm
    | some p =>
      simp only []
      rw [hstored]
      split
      · rename_i h
        exact secondToken_eq_translate_iff hfind h.1 h.2
      · exact Iff.rfl

/-- **A plain line keeps its end**: the file `Hello=Bonjour` with a newline makes
the display show the newline as well, and without a value the code copies from
the null pointer. -/
theorem getStringLine_keeps_newline :
    getStringLine (some (ofString "Hello=Bonjour\n" (by decide)).bytes)
        (ofString "Hello" (by decide))
      = .stored (ofString "Bonjour\n" (by decide)).bytes
    ∧ wanted (some (ofString "Hello=Bonjour\n" (by decide)).bytes) (ofString "Hello" (by decide))
      = (ofString "Bonjour" (by decide)).bytes
    ∧ getStringLine (some (ofString "Hello=" (by decide)).bytes) (ofString "Hello" (by decide))
      = .missingToken := by
  decide +kernel

end LcdLanguage
