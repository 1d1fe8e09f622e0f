import Mathlib.Data.List.Basic

/-!
# Aligned records in a block

A block is filled with records one behind the other, each of them followed by
as many filling bytes as bring the next one to a multiple of the alignment, and
with filling bytes behind the last.
-/

/-! ## Rounding up -/

def padding (round n : ℕ) : ℕ := if n % round = 0 then 0 else round - n % round

variable {r : ℕ}

theorem padding_of_dvd {n : ℕ} (h : r ∣ n) : padding r n = 0 :=
  if_pos (Nat.mod_eq_zero_of_dvd h)

theorem padding_of_not_dvd {n : ℕ} (h : n % r ≠ 0) : padding r n = r - n % r := if_neg h

theorem dvd_add_padding (hr : 0 < r) (n : ℕ) : r ∣ n + padding r n := by
  have hlt : n % r < r := Nat.mod_lt n hr
  unfold padding
  split_ifs with h
  · exact Nat.dvd_of_mod_eq_zero h
  · refine ⟨n / r + 1, ?_⟩
    have hn : r * (n / r) + n % r = n := Nat.div_add_mod n r
    rw [Nat.mul_add]
    omega

theorem add_padding_le {n m : ℕ} (hr : 0 < r) (hm : r ∣ m) (hn : n ≤ m) : n + padding r n ≤ m := by
  have hlt : n % r < r := Nat.mod_lt n hr
  obtain ⟨k, rfl⟩ := hm
  unfold padding
  split_ifs with h
  · exact hn
  · have hdiv : r * (n / r) + n % r = n := Nat.div_add_mod n r
    have hk : n / r < k := Nat.lt_of_mul_lt_mul_left (a := r) (by omega)
    have hmul : r * (n / r + 1) ≤ r * k := Nat.mul_le_mul_left r hk
    rw [Nat.mul_add] at hmul
    omega

theorem padding_lt (hr : 0 < r) (n : ℕ) : padding r n < r := by
  have hlt : n % r < r := Nat.mod_lt n hr
  unfold padding
  split_ifs <;> omega

theorem padding_add {a : ℕ} (ha : r ∣ a) (n : ℕ) : padding r (a + n) = padding r n := by
  obtain ⟨k, rfl⟩ := ha
  rw [padding, padding, Nat.mul_add_mod]

/-! ## Records -/

section Records

variable {α : Type} (fill : α) (align : ℕ)

def padded (r : List α) : List α := r ++ List.replicate (padding align r.length) fill

theorem length_padded (r : List α) :
    (padded fill align r).length = r.length + padding align r.length := by
  rw [padded, List.length_append, List.length_replicate]

theorem dvd_length_flatMap_padded {align : ℕ} (halign : 0 < align) (rs : List (List α)) :
    align ∣ (rs.flatMap (padded fill align)).length := by
  induction rs with
  | nil => exact Nat.dvd_zero align
  | cons r rs ih =>
    rw [List.flatMap_cons, List.length_append, length_padded]
    exact (Nat.dvd_add_right (dvd_add_padding halign r.length)).mpr ih

def RecordsFrom (b : List α) : ℕ → List (List α) → Prop
  | a, [] => b.drop a = List.replicate (b.length - a) fill
  | a, r :: rs => align ∣ a ∧ a + r.length ≤ b.length ∧ (b.drop a).take r.length = r
      ∧ RecordsFrom b (a + r.length + padding align r.length) rs

variable {fill align}

theorem recordsFrom_of_eq {b : List α} {rs : List (List α)} (halign : 0 < align) (front : List α)
    {k : ℕ} (hb : b = front ++ rs.flatMap (padded fill align) ++ List.replicate k fill)
    (hfront : align ∣ front.length) : RecordsFrom fill align b front.length rs := by
  induction rs generalizing front with
  | nil =>
    rw [List.flatMap_nil, List.append_nil] at hb
    rw [RecordsFrom, hb, List.drop_left, List.length_append, List.length_replicate,
      Nat.add_sub_cancel_left]
  | cons r rs ih =>
    have hb' : b = (front ++ padded fill align r) ++ rs.flatMap (padded fill align)
        ++ List.replicate k fill := by
      rw [hb, List.flatMap_cons, ← List.append_assoc front]
    have hlen : (front ++ padded fill align r).length
        = front.length + r.length + padding align r.length := by
      rw [List.length_append, length_padded, Nat.add_assoc]
    refine ⟨hfront, ?_, ?_, ?_⟩
    · rw [hb', List.length_append, List.length_append, hlen]
      omega
    · rw [hb, List.append_assoc, List.drop_left, List.flatMap_cons, padded, List.append_assoc,
        List.append_assoc, List.take_left]
    · rw [← hlen]
      refine ih _ hb' ?_
      rw [hlen, Nat.add_assoc]
      exact (Nat.dvd_add_right hfront).mpr (dvd_add_padding halign r.length)

theorem RecordsFrom.length_le {b : List α} {rs : List (List α)} {a : ℕ}
    (h : RecordsFrom fill align b a rs) (ha : a ≤ b.length) : a + rs.flatten.length ≤ b.length := by
  induction rs generalizing a with
  | nil => exact ha
  | cons r rs ih =>
    obtain ⟨_, hle, _, hrest⟩ := h
    rw [List.flatten_cons, List.length_append]
    cases rs with
    | nil =>
      simp only [List.flatten_nil, List.length_nil]
      omega
    | cons r' rs' =>
      have hnext := hrest.2.1
      have := ih hrest (by omega)
      omega

end Records
