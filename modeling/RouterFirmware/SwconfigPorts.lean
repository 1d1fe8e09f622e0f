import RouterFirmware.SwitchVlan

/-!
# Port lists of swconfig

`swlib_set_attr_string` of `swlib.c` reads a list of ports with `strtoul`, into
an array with room for the ports of the switch.
-/

namespace Swconfig

open Switch Tokens List Nat

/-- The text behind a sign. -/
def unsign (s : List Char) : List Char :=
  if s.head? = some '-' ∨ s.head? = some '+' then s.tail else s

/-- `strtoul` finds a number at the beginning. -/
def numeric (s : List Char) : Bool := (unsign s).head?.any Char.isDigit

section

variable (isspace : Char → Bool) (bits : ℕ)

/-- `strtoul(s, &ptr, 10)`: the number of `bits` bits, and `ptr`. -/
def strtoul (s : List Char) : ℕ × List Char :=
  let r := s.dropWhile isspace
  if numeric r then
    let n := number (unsign r)
    (if 2 ^ bits ≤ n then 2 ^ bits - 1 else if r.head? = some '-' then (2 ^ bits - n) % 2 ^ bits
      else n, (unsign r).dropWhile Char.isDigit)
  else (0, s)

/-- The loop of `swlib_set_attr_string`: the ports it stores, with the tagged flag. -/
def portLoop : ℕ → List Char → List (ℕ × Bool)
  | 0, _ => []
  | _ + 1, [] => []
  | n + 1, c :: s =>
    let r := strtoul isspace bits (c :: s)
    (r.1 % 2 ^ 32, decide ('t' ∈ r.2.takeWhile (!isspace ·)))
      :: portLoop n ((r.2.dropWhile (!isspace ·)).drop 1)

/-- The entries that are stored. -/
def portEntries (s : List Char) : List (ℕ × Bool) := portLoop isspace bits s.length s

/-- **White space is well placed**: one that stands at the beginning or directly
behind another is followed by a number. -/
def wellSpaced : Bool → List Char → Bool
  | _, [] => true
  | surplus, c :: s =>
    if isspace c then (!surplus || numeric (s.dropWhile isspace)) && wellSpaced true s
    else wellSpaced false s

end

/-- The number a token begins with. -/
def leadingNumber (t : List Char) : ℤ :=
  if t.head? = some '-' then -(number (unsign t) : ℤ) else number (unsign t)

/-- The entry of a token. -/
def entry (isspace : Char → Bool) (bits : ℕ) (t : List Char) : ℕ × Bool :=
  ((strtoul isspace bits t).1 % 2 ^ 32, decide ('t' ∈ t))

/-- One entry for each token, or, where white space is not well placed, more
entries than there are tokens. -/
def Exact (isspace : Char → Bool) (bits : ℕ) (s : List Char) (es : List (ℕ × Bool)) : Prop :=
  if wellSpaced isspace true s then es = (tokens isspace s).map (entry isspace bits)
  else (tokens isspace s).length < es.length

variable {rest t : List Char}

theorem while_append {p : Char → Bool} (hrest : rest.head?.any p = false) (u : List Char) :
    (u ++ rest).takeWhile p = u.takeWhile p ∧ (u ++ rest).dropWhile p = u.dropWhile p ++ rest := by
  induction u with
  | nil =>
    cases rest with
    | nil => simp
    | cons x rest =>
      have hx : ¬ p x = true := by simpa using hrest
      simp [takeWhile_cons_of_neg hx, dropWhile_cons_of_neg hx]
  | cons x u ih =>
    by_cases hx : p x = true
    · simp [hx, ih]
    · simp [hx]

theorem head?_append_token (hne : t ≠ []) (rest : List Char) : (t ++ rest).head? = t.head? := by
  obtain ⟨x, t, rfl⟩ := exists_cons_of_ne_nil hne
  rfl

theorem unsign_append (hne : t ≠ []) (rest : List Char) :
    unsign (t ++ rest) = unsign t ++ rest := by
  unfold unsign
  rw [head?_append_token hne, tail_append_of_ne_nil hne]
  split
  · rfl
  · rfl

theorem mem_of_mem_unsign {c : Char} (hc : c ∈ unsign t) : c ∈ t := by
  unfold unsign at hc
  split at hc
  · exact mem_of_mem_tail hc
  · exact hc

theorem tag_mem_unsign : 't' ∈ (unsign t).dropWhile Char.isDigit ↔ 't' ∈ t := by
  constructor
  · exact fun h => mem_of_mem_unsign ((dropWhile_suffix _).subset h)
  · intro h
    have hunsign : 't' ∈ unsign t := by
      unfold unsign
      split
      · next hsign =>
        cases t with
        | nil => cases h
        | cons x t =>
          rcases mem_cons.mp h with rfl | h
          · simp at hsign
          · exact h
      · exact h
    rw [← takeWhile_append_dropWhile (p := Char.isDigit) (l := unsign t)] at hunsign
    rcases mem_append.mp hunsign with h | h
    · exact absurd (mem_takeWhile_imp h) (by decide)
    · exact h

theorem number_unsign (h : numeric t = false) : number (unsign t) = 0 := by
  unfold number
  cases hu : unsign t with
  | nil => rfl
  | cons y u =>
    rw [takeWhile_cons_of_neg (by simpa [numeric, hu] using h)]
    rfl

section

variable {isspace : Char → Bool} {bits : ℕ} {s : List Char}
  (hnot : ∀ c, c.isDigit ∨ c = '-' ∨ c = '+' → isspace c = false)

/-- **The id of a token** is its number exactly if an `unsigned int` holds it. -/
theorem entry_id_iff (hbits : 32 ≤ bits) (ht : t.dropWhile isspace = t) :
    ((entry isspace bits t).1 : ℤ) = leadingNumber t
      ↔ 0 ≤ leadingNumber t ∧ leadingNumber t < 2 ^ 32 := by
  have hpow : 2 ^ 32 ≤ 2 ^ bits := Nat.pow_le_pow_right (by decide) hbits
  have hlt : (entry isspace bits t).1 < 2 ^ 32 := mod_lt _ (by decide)
  refine ⟨fun h => by omega, fun ⟨hpos, hsmall⟩ => ?_⟩
  unfold leadingNumber at *
  simp only [entry, strtoul, ht]
  cases hnum : numeric t with
  | false =>
    rw [number_unsign hnum]
    simp
  | true =>
    rw [if_pos rfl]
    generalize number (unsign t) = n at *
    by_cases hneg : t.head? = some '-'
    · rw [if_pos hneg] at *
      obtain rfl : n = 0 := by omega
      rw [if_neg (by omega), if_pos hneg, Nat.sub_zero, mod_self]
      rfl
    · rw [if_neg hneg] at *
      rw [if_neg (by omega), if_neg hneg, mod_eq_of_lt (by omega)]

theorem strtoul_of_numeric (h : numeric (s.dropWhile isspace) = true) :
    strtoul isspace bits s = strtoul isspace bits (s.dropWhile isspace) := by
  unfold strtoul
  rw [dropWhile_idempotent]
  simp only [h, if_true]

theorem strtoul_of_not_numeric (h : numeric (s.dropWhile isspace) = false) :
    strtoul isspace bits s = (0, s) := by
  simp [strtoul, h]

include hnot

/-- **A token is read**, up to the white space behind it. -/
theorem strtoul_append (bits : ℕ) (hne : t ≠ [])
    (ht : ∀ c ∈ t, isspace c = false) (hrest : rest.head?.any (!isspace ·) = false) :
    (strtoul isspace bits (t ++ rest)).1 = (strtoul isspace bits t).1
      ∧ ('t' ∈ (strtoul isspace bits (t ++ rest)).2.takeWhile (!isspace ·) ↔ 't' ∈ t)
      ∧ (strtoul isspace bits (t ++ rest)).2.dropWhile (!isspace ·) = rest := by
  have hdigit : rest.head?.any Char.isDigit = false := by
    cases rest with
    | nil => rfl
    | cons y rest =>
      by_contra hy
      have hspace := hnot y (.inl (by simpa using hy))
      simp [hspace] at hrest
  have hself : ∀ r, (t ++ r).dropWhile isspace = t ++ r := by
    intro r
    obtain ⟨x, t, rfl⟩ := exists_cons_of_ne_nil hne
    exact dropWhile_cons_of_neg (by simp [ht x mem_cons_self])
  have hnil := hself []
  rw [append_nil] at hnil
  have hnumeric : numeric (t ++ rest) = numeric t := by
    rw [numeric, unsign_append hne, numeric]
    cases unsign t with
    | nil => exact hdigit
    | cons y u => rfl
  have hstop : ∀ u, (∀ c ∈ u, isspace c = false) →
      (u ++ rest).takeWhile (!isspace ·) = u ∧ (u ++ rest).dropWhile (!isspace ·) = rest := by
    intro u hu
    have hall : ∀ c ∈ u, (!isspace c) = true := fun c hc => by simp [hu c hc]
    rw [(while_append hrest u).1, (while_append hrest u).2, takeWhile_eq_self_iff.mpr hall,
      dropWhile_eq_nil_iff.mpr hall, nil_append]
    exact ⟨rfl, rfl⟩
  unfold strtoul
  simp only [hself, hnil, hnumeric]
  cases numeric t with
  | false =>
    obtain ⟨htake, hdrop⟩ := hstop t ht
    simp only [Bool.false_eq_true, if_false, htake, hdrop, and_self]
  | true =>
    obtain ⟨htake, hdrop⟩ := hstop ((unsign t).dropWhile Char.isDigit)
      fun c hc => ht c (mem_of_mem_unsign ((dropWhile_suffix _).subset hc))
    have hnumber : number (unsign t ++ rest) = number (unsign t) := by
      rw [number, (while_append hdigit _).1, number]
    rw [head?_append_token hne]
    simp only [if_true, unsign_append hne, (while_append hdigit _).2, htake, hdrop, tag_mem_unsign,
      hnumber, and_self]

theorem portLoop_token (hne : t ≠ []) (ht : ∀ c ∈ t, isspace c = false)
    (hrest : rest.head?.any (!isspace ·) = false) {c : Char}
    (hs : strtoul isspace bits (c :: s) = strtoul isspace bits (t ++ rest)) (n : ℕ) :
    portLoop isspace bits (n + 1) (c :: s)
      = entry isspace bits t :: portLoop isspace bits n (rest.drop 1) := by
  obtain ⟨hid, htag, hdrop⟩ := strtoul_append hnot bits hne ht hrest
  rw [portLoop]
  simp only [hs, hid, htag, hdrop, entry]

omit hnot in
theorem wellSpaced_token (hne : t ≠ []) (ht : ∀ c ∈ t, isspace c = false)
    (hrest : rest.head?.any (!isspace ·) = false) (b : Bool) :
    wellSpaced isspace b (t ++ rest) = wellSpaced isspace true (rest.drop 1) := by
  have hfirst : wellSpaced isspace false rest = wellSpaced isspace true (rest.drop 1) := by
    cases rest with
    | nil => rfl
    | cons y rest =>
      have hy : isspace y = true := by simpa using hrest
      simp [wellSpaced, hy]
  obtain ⟨x, t, rfl⟩ := exists_cons_of_ne_nil hne
  clear hne
  induction t generalizing x b with
  | nil => simp [wellSpaced, ht x mem_cons_self, hfirst]
  | cons y t ih =>
    rw [cons_append, wellSpaced, ht x mem_cons_self, if_neg Bool.false_ne_true]
    exact ih false y fun c hc => ht c (.tail _ hc)

omit hnot in
theorem wellSpaced_dropWhile (h : numeric (s.dropWhile isspace) = true) :
    wellSpaced isspace true s = wellSpaced isspace true (s.dropWhile isspace) := by
  induction s with
  | nil => rfl
  | cons c s ih =>
    by_cases hc : isspace c = true
    · rw [dropWhile_cons_of_pos hc] at h ⊢
      rw [wellSpaced, if_pos hc, h, ih h]
      simp
    · rw [dropWhile_cons_of_neg hc]

/-- The turn at a token, reached directly or over white space before a number. -/
theorem portLoop_turn {n : ℕ} {c : Char} {r : List Char} (hr : r ≠ [])
    (hhead : r.dropWhile isspace = r) (hlen : r.length ≤ n + 1)
    (hstr : strtoul isspace bits (c :: s) = strtoul isspace bits r)
    (ih : ∀ {s : List Char}, s.length ≤ n → Exact isspace bits s (portLoop isspace bits n s))
    (hwell : wellSpaced isspace true (c :: s) = wellSpaced isspace true r)
    (htok : tokens isspace (c :: s) = tokens isspace r) :
    Exact isspace bits (c :: s) (portLoop isspace bits (n + 1) (c :: s)) := by
  have hsplit : r.takeWhile (!isspace ·) ++ r.dropWhile (!isspace ·) = r :=
    takeWhile_append_dropWhile
  have hne : r.takeWhile (!isspace ·) ≠ [] := by
    obtain ⟨x, r, rfl⟩ := exists_cons_of_ne_nil hr
    rw [takeWhile_cons_of_pos (by simp [head_eq_false hhead])]
    exact cons_ne_nil _ _
  have ht : ∀ c ∈ r.takeWhile (!isspace ·), isspace c = false := fun c hc => by
    simpa using mem_takeWhile_imp hc
  have hrest : (r.dropWhile (!isspace ·)).head?.any (!isspace ·) = false := by
    cases hd : r.dropWhile (!isspace ·) with
    | nil => rfl
    | cons y rest =>
      simpa [hd] using head_dropWhile_not (!isspace ·) (l := r) (by simp [hd])
  generalize r.takeWhile (!isspace ·) = t at *
  generalize r.dropWhile (!isspace ·) = rest at *
  subst hsplit
  have hpos := length_pos_iff.mpr hne
  have hnext := ih (s := rest.drop 1) (by rw [length_append] at hlen; simp; omega)
  have htokens : tokens isspace (t ++ rest) = t :: tokens isspace (rest.drop 1) := by
    cases rest with
    | nil => simpa using tokens_append hne ht fun _ => rfl
    | cons y rest =>
      have hy : isspace y = true := by simpa using hrest
      rw [tokens_append hne ht fun h => by simp [head_eq_false h] at hy, tokens_cons_sep hy]
      rfl
  unfold Exact at *
  rw [portLoop_token hnot hne ht hrest hstr, hwell, htok, wellSpaced_token hne ht hrest, htokens]
  split at hnext
  · next h => rw [if_pos h, map_cons, hnext]
  · next h =>
    rw [if_neg h]
    simpa using hnext

theorem portLoop_exact (bits n : ℕ) (hn : s.length ≤ n) :
    Exact isspace bits s (portLoop isspace bits n s) := by
  induction n generalizing s with
  | zero =>
    obtain rfl := length_eq_zero_iff.mp (le_zero.mp hn)
    rfl
  | succ n ih =>
    cases s with
    | nil => rfl
    | cons c s =>
      by_cases hc : isspace c = true
      · have hdrop : (c :: s).dropWhile isspace = s.dropWhile isspace := dropWhile_cons_of_pos hc
        cases hnum : numeric (s.dropWhile isspace) with
        | true =>
          rw [← hdrop] at hnum
          refine portLoop_turn hnot (fun h => ?_) (dropWhile_idempotent ..)
            ((length_dropWhile_le _ _).trans hn) (strtoul_of_numeric hnum) (ih ·)
            (wellSpaced_dropWhile hnum) (tokens_dropWhile _).symm
          rw [h] at hnum
          cases hnum
        | false =>
          have hrest := ih (s := s) (le_of_succ_le_succ hn)
          have hle : (tokens isspace s).length ≤ (portLoop isspace bits n s).length := by
            unfold Exact at hrest
            split at hrest
            · rw [hrest, length_map]
            · exact hrest.le
          rw [Exact, wellSpaced, if_pos hc, hnum, tokens_cons_sep hc, portLoop,
            strtoul_of_not_numeric (hdrop ▸ hnum)]
          simpa [hc] using lt_succ_of_le hle
      · exact portLoop_turn hnot (cons_ne_nil _ _) (dropWhile_cons_of_neg hc) hn rfl (ih ·) rfl rfl

/-- **Port lists are read exactly** if white space is well placed, each number is
one of an `unsigned int`, and the switch has as many ports as there are tokens. -/
theorem portEntries_exact_iff (hbits : 32 ≤ bits) (s : List Char) (ports : ℕ) :
    ((portEntries isspace bits s).map (fun e => ((e.1 : ℤ), e.2))
          = (tokens isspace s).map (fun t => (leadingNumber t, decide ('t' ∈ t)))
        ∧ (portEntries isspace bits s).length ≤ ports)
      ↔ wellSpaced isspace true s = true
        ∧ (∀ t ∈ tokens isspace s, 0 ≤ leadingNumber t ∧ leadingNumber t < 2 ^ 32)
        ∧ (tokens isspace s).length ≤ ports := by
  have hexact := portLoop_exact hnot bits s.length (s := s) le_rfl
  change Exact isspace bits s (portEntries isspace bits s) at hexact
  unfold Exact at hexact
  split at hexact
  · next hwell =>
    rw [hexact, map_map, map_inj_left, length_map, and_iff_right hwell]
    refine and_congr_left fun _ => forall₂_congr fun t ht => ?_
    rw [← entry_id_iff hbits (dropWhile_token ht)]
    simp [entry]
  · next hwell =>
    refine iff_of_false (fun h => ?_) fun h => hwell h.1
    have hlen := congrArg List.length h.1
    rw [length_map, length_map] at hlen
    omega

end

theorem portEntries_exact_two :
    (portEntries (· = ' ') 32 "1 5t".toList).map (fun e => ((e.1 : ℤ), e.2))
      = [(1, false), (5, true)] := by
  refine ((portEntries_exact_iff (fun c hc => ?_) le_rfl "1 5t".toList 6).mpr (by decide)).1
  by_contra h
  obtain rfl : c = ' ' := by simpa using h
  exact absurd hc (by decide)

/-- **A blank too many** makes a port 0 of its own, and a switch with one port
gets two. -/
theorem portEntries_adds_zero : portEntries (· = ' ') 32 "1  ".toList = [(1, false), (0, false)]
    ∧ tokens (· = ' ') "1  ".toList = [['1']]
    ∧ ¬ (portEntries (· = ' ') 32 "1 2".toList).length ≤ 1 := by
  decide

end Swconfig
