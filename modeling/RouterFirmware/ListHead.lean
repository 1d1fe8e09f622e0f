import Mathlib.Data.List.Chain
import Mathlib.Data.List.Nodup
import Mathlib.Data.List.Perm.Basic

/-!
# Doubly linked lists in memory

The lists of the Linux kernel, which other programs have taken over: a list
head is a pair of pointers, one inside each record and one for the list as
such.
-/

namespace ListHead

open List Function Nat

/-- **The memory**: the pointers of the list head at an address. -/
@[ext]
structure Heads where
  next : ℕ → ℕ
  prev : ℕ → ℕ

namespace Heads

variable (h : Heads) {ys : List ℕ}

/-! ## Operations -/

def setNext (a b : ℕ) : Heads := { h with next := update h.next a b }

def setPrev (a b : ℕ) : Heads := { h with prev := update h.prev a b }

def initListHead (list : ℕ) : Heads := (h.setNext list list).setPrev list list

def listAddBetween (new prev next : ℕ) : Heads :=
  (((h.setPrev next new).setNext new next).setPrev new prev).setNext prev new

def listAddTail (new head : ℕ) : Heads := h.listAddBetween new (h.prev head) head

def listDelBetween (prev next : ℕ) : Heads := (h.setPrev next prev).setNext prev next

def listDelInit (entry : ℕ) : Heads :=
  (h.listDelBetween (h.prev entry) (h.next entry)).initListHead entry

def listDel (entry : ℕ) : Heads :=
  ((h.listDelBetween (h.prev entry) (h.next entry)).setNext entry 0).setPrev entry 0

def listEmpty (head : ℕ) : Bool := h.next head == head

def listSpliceBetween (list head : ℕ) : Heads :=
  let first := h.next list
  let last := h.prev list
  let at' := h.next head
  (((h.setPrev first head).setNext head first).setNext last at').setPrev at' last

def listSplice (list head : ℕ) : Heads :=
  if h.listEmpty list then h else h.listSpliceBetween list head

def listSpliceInit (list head : ℕ) : Heads :=
  if h.listEmpty list then h else (h.listSpliceBetween list head).initListHead list

def find (head : ℕ) (p : ℕ → Bool) : ℕ → ℕ → Option (Option ℕ)
  | 0, _ => none
  | fuel + 1, pos =>
    if pos = head then some none
    else if p pos then some (some pos)
    else find head p fuel (h.next pos)

def delEach (head : ℕ) : ℕ → Heads → ℕ → ℕ → Option (Heads × List ℕ)
  | 0, _, _, _ => none
  | fuel + 1, h, pos, n =>
    if pos = head then some (h, [])
    else (delEach head fuel (h.listDel pos) n ((h.listDel pos).next n)).map
      fun (h, deleted) => (h, pos :: deleted)

/-! ## Rings -/

def Links (x y : ℕ) : Prop := h.next x = y ∧ h.prev y = x

/-- **The ring of a list**: its head and the records, in order. -/
structure Ring (head : ℕ) (xs : List ℕ) : Prop where
  nodup : (head :: xs).Nodup
  chain : (head :: xs ++ [head]).IsChain h.Links

variable {h} {a b x : ℕ} {xs : List ℕ} (hr : h.Ring a xs)

theorem chain_congr {h' : Heads} {l : List ℕ} (hl : l.IsChain h.Links)
    (hnext : ∀ x ∈ l.dropLast, h'.next x = h.next x) (hprev : ∀ y ∈ l.tail, h'.prev y = h.prev y) :
    l.IsChain h'.Links := by
  induction l with
  | nil => exact .nil
  | cons x l ih =>
    cases l with
    | nil => exact .singleton x
    | cons y l =>
      rw [isChain_cons_cons] at hl ⊢
      refine ⟨⟨(hnext x (by simp)).trans hl.1.1, (hprev y (by simp)).trans hl.1.2⟩, ih hl.2 ?_ ?_⟩
      · exact fun z hz => hnext z (mem_cons_of_mem _ hz)
      · exact fun z hz => hprev z (mem_cons_of_mem _ hz)

include hr

theorem Ring.congr {h' : Heads} (hnext : ∀ x ∈ a :: xs, h'.next x = h.next x)
    (hprev : ∀ x ∈ a :: xs, h'.prev x = h.prev x) : h'.Ring a xs := by
  refine ⟨hr.nodup, chain_congr hr.chain (fun x hx => hnext x ?_) (fun x hx => hprev x ?_)⟩
  · rwa [dropLast_concat] at hx
  · simp only [cons_append, tail_cons, mem_append, mem_singleton] at hx
    exact mem_cons.mpr hx.symm

theorem Ring.exists_last :
    ∃ l p, a :: xs = l ++ [p] ∧ p ∉ l ∧ (l ++ [p]).IsChain h.Links ∧ h.next p = a
      ∧ h.prev a = p := by
  obtain ⟨l, p, hlp⟩ := (a :: xs).eq_nil_or_concat.resolve_left (cons_ne_nil _ _)
  rw [concat_eq_append] at hlp
  have hchain := hr.chain
  have hnodup := hr.nodup
  rw [hlp, append_assoc, singleton_append, isChain_append_cons_cons] at hchain
  rw [hlp] at hnodup
  refine ⟨l, p, hlp, fun hp => ?_, hchain.1, hchain.2.1⟩
  exact (nodup_append.mp hnodup).2.2 p hp p (mem_singleton_self p) rfl

theorem Ring.head_not_mem_tail {l : List ℕ} {p : ℕ} (hlp : a :: xs = l ++ [p]) :
    a ∉ (l ++ [p]).tail := by
  rw [← hlp]
  exact (nodup_cons.mp hr.nodup).1

omit hr in
theorem ring_initListHead (h : Heads) (a : ℕ) : (h.initListHead a).Ring a [] := by
  refine ⟨nodup_singleton a, isChain_pair.mpr ⟨?_, ?_⟩⟩
  · exact update_self ..
  · exact update_self ..

theorem listEmpty_iff : h.listEmpty a = true ↔ xs = [] := by
  rw [listEmpty, beq_iff_eq]
  cases xs with
  | nil => exact iff_of_true (isChain_pair.mp hr.chain).1 rfl
  | cons x xs =>
    have hlink : h.Links a x := (isChain_cons_cons.mp hr.chain).1
    have hne : x ≠ a := fun hxa => (nodup_cons.mp hr.nodup).1 (hxa ▸ mem_cons_self)
    exact iff_of_false (hlink.1 ▸ hne) (cons_ne_nil _ _)

theorem Ring.listAddTail (hx : x ∉ a :: xs) : (h.listAddTail x a).Ring a (xs ++ [x]) := by
  obtain ⟨l, p, hlp, hpl, hchain, -, hlast⟩ := hr.exists_last
  have htail := hr.head_not_mem_tail hlp
  have hxa : x ≠ a := fun h => hx (h ▸ mem_cons_self)
  have hxl : x ∉ l ++ [p] := hlp ▸ hx
  have hxp : x ≠ p := (ne_of_mem_of_not_mem (mem_append_right l mem_cons_self) hxl).symm
  have hnext : (h.listAddTail x a).next = update (update h.next x a) p x := by
    rw [← hlast]
    rfl
  have hprev : (h.listAddTail x a).prev = update (update h.prev a x) x p := by
    rw [← hlast]
    rfl
  refine ⟨?_, ?_⟩
  · rw [← cons_append]
    exact nodup_append.mpr ⟨hr.nodup, nodup_singleton x, fun y hy z hz hyz =>
      hx (mem_singleton.mp hz ▸ hyz ▸ hy)⟩
  · rw [← cons_append, hlp, append_assoc, append_assoc, singleton_append,
      singleton_append, isChain_append_cons_cons, isChain_pair]
    refine ⟨chain_congr hchain (fun y hy => ?_) (fun y hy => ?_), ⟨?_, ?_⟩, ?_, ?_⟩
    · rw [dropLast_concat] at hy
      rw [hnext, update_of_ne (ne_of_mem_of_not_mem hy hpl),
        update_of_ne (ne_of_mem_of_not_mem (mem_append_left _ hy) hxl)]
    · rw [hprev, update_of_ne (ne_of_mem_of_not_mem (mem_of_mem_tail hy) hxl),
        update_of_ne (ne_of_mem_of_not_mem hy htail)]
    · rw [hnext, update_self]
    · rw [hprev, update_self]
    · rw [hnext, update_of_ne hxp, update_self]
    · rw [hprev, update_of_ne hxa.symm, update_self]

omit hr in
theorem Ring.del {h' : Heads} (hr : h.Ring a (xs ++ x :: ys))
    (hnext : ∀ y ≠ x, h'.next y = (h.listDelBetween (h.prev x) (h.next x)).next y)
    (hprev : ∀ y ≠ x, h'.prev y = (h.listDelBetween (h.prev x) (h.next x)).prev y) :
    h'.Ring a (xs ++ ys) := by
  obtain ⟨l, p, hlp⟩ := (a :: xs).eq_nil_or_concat.resolve_left (cons_ne_nil _ _)
  obtain ⟨n, l', hnl⟩ := exists_cons_of_ne_nil (concat_ne_nil a ys)
  rw [concat_eq_append] at hlp
  have hnodup : (l ++ [p] ++ x :: ys).Nodup := hlp ▸ hr.nodup
  have hchain : (l ++ p :: x :: n :: l').IsChain h.Links := by
    have hring := hr.chain
    rwa [← cons_append, hlp, append_assoc, cons_append, hnl, append_assoc,
      singleton_append] at hring
  obtain ⟨hbefore, ⟨hpx, hxp⟩, hrest⟩ := isChain_append_cons_cons.mp hchain
  obtain ⟨⟨hxn, hnx⟩, hafter⟩ := isChain_cons_cons.mp hrest
  rw [hxp, hxn] at hnext hprev
  -- neither piece has the record in it, and they have only the head in common
  obtain ⟨hfirst, hsecond, hapart⟩ := nodup_append.mp hnodup
  obtain ⟨hxys, hys⟩ := nodup_cons.mp hsecond
  have hxlp : x ∉ l ++ [p] := fun hx => hapart x hx x mem_cons_self rfl
  have ha : a ∈ l ++ [p] := hlp ▸ mem_cons_self
  have hpmem : p ∈ l ++ [p] := mem_append_right l mem_cons_self
  have hpl : p ∉ l := fun hp => (nodup_append.mp hfirst).2.2 p hp p mem_cons_self rfl
  have hpys : p ∉ ys := fun hp => hapart p hpmem p (mem_cons_of_mem x hp) rfl
  have hays : a ∉ ys := fun hp => hapart a ha a (mem_cons_of_mem x hp) rfl
  have hxnl : x ∉ n :: l' := by
    rw [← hnl, mem_append, mem_singleton]
    exact not_or.mpr ⟨hxys, (ne_of_mem_of_not_mem ha hxlp).symm⟩
  have hnl' : n ∉ l' := (nodup_cons.mp (hnl ▸ nodup_append.mpr
    ⟨hys, nodup_singleton a, fun y hy z hz hyz =>
      hays (mem_singleton.mp hz ▸ hyz ▸ hy)⟩)).1
  have hntail : n ∉ (l ++ [p]).tail := by
    intro hn
    have hmem : n ∈ ys ++ [a] := hnl ▸ mem_cons_self
    rcases mem_append.mp hmem with hnys | hna
    · exact hapart n (mem_of_mem_tail hn) n (mem_cons_of_mem x hnys) rfl
    · rw [← hlp] at hfirst hn
      exact (nodup_cons.mp hfirst).1 (mem_singleton.mp hna ▸ hn)
  refine ⟨?_, ?_⟩
  · rw [← cons_append, hlp]
    exact hnodup.sublist ((sublist_cons_self x ys).append_left _)
  · rw [← cons_append, hlp, append_assoc, hnl, append_assoc, singleton_append,
      isChain_append_cons_cons]
    refine ⟨chain_congr hbefore (fun y hy => ?_) (fun y hy => ?_), ⟨?_, ?_⟩,
      chain_congr hafter (fun y hy => ?_) (fun y hy => ?_)⟩
    · rw [dropLast_concat] at hy
      rw [hnext y (ne_of_mem_of_not_mem (mem_append_left _ hy) hxlp)]
      exact update_of_ne (ne_of_mem_of_not_mem hy hpl) ..
    · rw [hprev y (ne_of_mem_of_not_mem (mem_of_mem_tail hy) hxlp)]
      exact update_of_ne (ne_of_mem_of_not_mem hy hntail) ..
    · rw [hnext p (ne_of_mem_of_not_mem hpmem hxlp)]
      exact update_self ..
    · rw [hprev n (ne_of_mem_of_not_mem mem_cons_self hxnl)]
      exact update_self ..
    · rw [← hnl, dropLast_concat] at hy
      rw [hnext y (ne_of_mem_of_not_mem hy hxys)]
      exact update_of_ne (ne_of_mem_of_not_mem hy hpys) ..
    · rw [hprev y (ne_of_mem_of_not_mem (mem_cons_of_mem n hy) hxnl)]
      exact update_of_ne (ne_of_mem_of_not_mem hy hnl') ..

omit hr in
theorem chain_next_mem {l : List ℕ} (hl : l.IsChain h.Links) :
    ∀ x ∈ l.dropLast, h.next x ∈ l.tail := by
  induction l with
  | nil => simp
  | cons x l ih =>
    cases l with
    | nil => simp
    | cons y l =>
      rw [isChain_cons_cons] at hl
      intro z hz
      rcases mem_cons.mp hz with rfl | hz
      · exact hl.1.1 ▸ mem_cons_self
      · exact mem_cons_of_mem y (ih hl.2 z hz)

omit hr in
theorem chain_prev_mem {l : List ℕ} (hl : l.IsChain h.Links) :
    ∀ y ∈ l.tail, h.prev y ∈ l.dropLast := by
  induction l with
  | nil => simp
  | cons x l ih =>
    cases l with
    | nil => simp
    | cons y l =>
      rw [isChain_cons_cons] at hl
      intro z hz
      rcases mem_cons.mp hz with rfl | hz
      · exact hl.1.2 ▸ mem_cons_self
      · exact mem_cons_of_mem x (ih hl.2 z hz)

theorem Ring.next_mem (hx : x ∈ a :: xs) : h.next x ∈ a :: xs := by
  have hmem := chain_next_mem hr.chain x (dropLast_concat ▸ hx)
  rw [cons_append, tail_cons, mem_append, mem_singleton] at hmem
  exact mem_cons.mpr hmem.symm

theorem Ring.prev_mem (hx : x ∈ a :: xs) : h.prev x ∈ a :: xs := by
  have hmem : x ∈ (a :: xs ++ [a]).tail := by
    rw [cons_append, tail_cons, mem_append, mem_singleton]
    exact (mem_cons.mp hx).symm
  have hprev := chain_prev_mem hr.chain x hmem
  rwa [dropLast_concat] at hprev

theorem Ring.listSplice (hs : h.Ring b ys) (hd : (a :: xs).Disjoint (b :: ys)) :
    (h.listSplice b (h.prev a)).Ring a (xs ++ ys) := by
  rw [Heads.listSplice]
  split
  · next hempty =>
    rw [(listEmpty_iff hs).mp hempty, append_nil]
    exact hr
  next hempty =>
  obtain ⟨first, rest, rfl⟩ := exists_cons_of_ne_nil (mt (listEmpty_iff hs).mpr hempty)
  obtain ⟨l, p, hlp, hpl, hchain, hpa, hap⟩ := hr.exists_last
  obtain ⟨m, last, hml⟩ := (first :: rest).eq_nil_or_concat.resolve_left (cons_ne_nil _ _)
  rw [concat_eq_append] at hml
  have hbf : h.next b = first := (isChain_cons_cons.mp hs.chain).1.1
  have hys : (first :: rest ++ [b]).IsChain h.Links := (isChain_cons_cons.mp hs.chain).2
  rw [hml, append_assoc, singleton_append, isChain_append_cons_cons] at hys
  obtain ⟨hchain', ⟨-, hbl⟩, -⟩ := hys
  have hnext : (h.listSpliceBetween b (h.prev a)).next
      = update (update h.next p first) last a := by
    change update (update h.next (h.prev a) (h.next b)) (h.prev b) (h.next (h.prev a)) = _
    rw [hbf, hbl, hap, hpa]
  have hprev : (h.listSpliceBetween b (h.prev a)).prev
      = update (update h.prev first p) a last := by
    change update (update h.prev (h.next b) (h.prev a)) (h.next (h.prev a)) (h.prev b) = _
    rw [hbf, hbl, hap, hpa]
  have hnodup : (first :: rest).Nodup := (nodup_cons.mp hs.nodup).2
  have hapart {x y : ℕ} (hx : x ∈ l ++ [p]) (hy : y ∈ first :: rest) : x ≠ y := by
    rintro rfl
    exact hd (hlp ▸ hx) (mem_cons_of_mem b hy)
  have ha : a ∈ l ++ [p] := hlp ▸ mem_cons_self
  have hp : p ∈ l ++ [p] := mem_append_right l mem_cons_self
  have hlast : last ∈ first :: rest := hml ▸ mem_append_right m mem_cons_self
  have hlastm : last ∉ m := fun hm =>
    (nodup_append.mp (hml ▸ hnodup)).2.2 last hm last mem_cons_self rfl
  refine ⟨?_, ?_⟩
  · rw [← cons_append]
    exact nodup_append.mpr ⟨hr.nodup, hnodup, fun x hx y hy => hapart (hlp ▸ hx) hy⟩
  rw [← cons_append, hlp, append_assoc, append_assoc, singleton_append,
    cons_append, isChain_append_cons_cons, ← cons_append, hml, append_assoc,
    singleton_append, isChain_append_cons_cons]
  refine ⟨chain_congr hchain (fun y hy => ?_) (fun y hy => ?_), ⟨?_, ?_⟩,
    chain_congr hchain' (fun y hy => ?_) (fun y hy => ?_), ⟨?_, ?_⟩, .singleton a⟩
  · rw [dropLast_concat] at hy
    rw [hnext, update_of_ne (hapart (mem_append_left _ hy) hlast),
      update_of_ne (ne_of_mem_of_not_mem hy hpl)]
  · rw [hprev, update_of_ne (ne_of_mem_of_not_mem hy (hr.head_not_mem_tail hlp)),
      update_of_ne (hapart (mem_of_mem_tail hy) mem_cons_self)]
  · rw [hnext, update_of_ne (hapart hp hlast), update_self]
  · rw [hprev, update_of_ne (hapart ha mem_cons_self).symm, update_self]
  · rw [dropLast_concat] at hy
    have hmem : y ∈ first :: rest := hml ▸ mem_append_left _ hy
    rw [hnext, update_of_ne (ne_of_mem_of_not_mem hy hlastm), update_of_ne (hapart hp hmem).symm]
  · rw [← hml] at hy
    rw [hprev, update_of_ne (hapart ha (mem_cons_of_mem first hy)).symm,
      update_of_ne (ne_of_mem_of_not_mem hy (nodup_cons.mp hnodup).1)]
  · rw [hnext, update_self]
  · rw [hprev, update_self]

theorem Ring.next_head : h.next a = xs.headD a := by
  cases xs with
  | nil => exact (isChain_pair.mp hr.chain).1
  | cons x xs => exact (isChain_cons_cons.mp hr.chain).1.1

omit hr

theorem Ring.next_record (hr : h.Ring a (x :: xs)) : h.next x = xs.headD a := by
  have hrest := (isChain_cons_cons.mp hr.chain).2
  cases xs with
  | nil => exact (isChain_pair.mp hrest).1
  | cons y xs => exact (isChain_cons_cons.mp hrest).1.1

theorem find_of_chain {p : ℕ → Bool} {fuel : ℕ} (hchain : (b :: xs ++ [a]).IsChain h.Links)
    (ha : a ∉ xs) (hfuel : xs.length < fuel) : h.find a p fuel (h.next b) = some (xs.find? p) := by
  induction fuel generalizing b xs with
  | zero => omega
  | succ fuel ih =>
    cases xs with
    | nil =>
      rw [find, if_pos (isChain_pair.mp hchain).1]
      rfl
    | cons x xs =>
      obtain ⟨⟨hbx, -⟩, hrest⟩ := isChain_cons_cons.mp hchain
      have hxa : x ≠ a := fun h => ha (h ▸ mem_cons_self)
      rw [find, hbx, if_neg hxa, List.find?_cons]
      cases p x with
      | true => rfl
      | false =>
        exact ih hrest (fun h => ha (mem_cons_of_mem x h)) (lt_of_succ_lt_succ hfuel)

theorem Ring.find_eq (hr : h.Ring a xs) (p : ℕ → Bool) {fuel : ℕ} (hfuel : xs.length < fuel) :
    h.find a p fuel (h.next a) = some (xs.find? p) :=
  find_of_chain hr.chain (nodup_cons.mp hr.nodup).1 hfuel

/-! ## Two rings -/

/-- **Two lists with nothing in common.** -/
structure Two (h : Heads) (a : ℕ) (xs : List ℕ) (b : ℕ) (ys : List ℕ) : Prop where
  first : h.Ring a xs
  second : h.Ring b ys
  apart : (a :: xs).Disjoint (b :: ys)

namespace Two

theorem add (ht : h.Two a xs b ys) (hxs : x ∉ a :: xs) (hys : x ∉ b :: ys) :
    (h.listAddTail x a).Two a (xs ++ [x]) b ys := by
  have hlast := ht.first.prev_mem mem_cons_self
  have hother {y : ℕ} (hy : y ∈ b :: ys) : y ≠ h.prev a ∧ y ≠ a ∧ y ≠ x :=
    ⟨fun h => ht.apart hlast (h ▸ hy), fun h => ht.apart mem_cons_self (h ▸ hy),
    fun h => hys (h ▸ hy)⟩
  refine ⟨ht.first.listAddTail hxs, ht.second.congr (fun y hy => ?_) (fun y hy => ?_), ?_⟩
  · exact (update_of_ne (hother hy).1 ..).trans (update_of_ne (hother hy).2.2 ..)
  · exact (update_of_ne (hother hy).2.2 ..).trans (update_of_ne (hother hy).2.1 ..)
  · intro y hy hy'
    rw [← cons_append, mem_append, mem_singleton] at hy
    exact hy.elim (fun hy => ht.apart hy hy') (hother hy').2.2

theorem del {h' : Heads} {zs : List ℕ} (ht : h.Two a xs b (ys ++ x :: zs))
    (hnext : ∀ y ≠ x, h'.next y = (h.listDelBetween (h.prev x) (h.next x)).next y)
    (hprev : ∀ y ≠ x, h'.prev y = (h.listDelBetween (h.prev x) (h.next x)).prev y) :
    h'.Two a xs b (ys ++ zs) := by
  have hx : x ∈ b :: (ys ++ x :: zs) := mem_cons_of_mem b (mem_append_right ys mem_cons_self)
  have hother {y z : ℕ} (hy : y ∈ a :: xs) (hz : z ∈ b :: (ys ++ x :: zs)) : y ≠ z :=
    fun h => ht.apart hy (h ▸ hz)
  refine ⟨ht.first.congr (fun y hy => ?_) (fun y hy => ?_), ht.second.del hnext hprev, ?_⟩
  · rw [hnext y (hother hy hx)]
    exact update_of_ne (hother hy (ht.second.prev_mem hx)) ..
  · rw [hprev y (hother hy hx)]
    exact update_of_ne (hother hy (ht.second.next_mem hx)) ..
  · exact disjoint_of_subset_right (((sublist_cons_self x zs).append_left ys).cons_cons
      b).subset ht.apart

theorem move {zs : List ℕ} (ht : h.Two a xs b (ys ++ x :: zs)) :
    ((h.listDelInit x).listAddTail x a).Two a (xs ++ [x]) b (ys ++ zs) := by
  have hdel : (h.listDelInit x).Two a xs b (ys ++ zs) :=
    ht.del (fun _ hy => update_of_ne hy ..) (fun _ hy => update_of_ne hy ..)
  have hx : x ∈ b :: (ys ++ x :: zs) := mem_cons_of_mem b (mem_append_right ys mem_cons_self)
  refine hdel.add (fun hmem => ht.apart hmem hx) ?_
  have hnodup : (b :: ys ++ x :: zs).Nodup := ht.second.nodup
  exact (nodup_cons.mp (nodup_middle.mp hnodup)).1

theorem delEach_eq (ht : h.Two a xs b ys) {fuel : ℕ} (hfuel : ys.length < fuel) :
    ∃ h', delEach b fuel h (h.next b) (h.next (h.next b)) = some (h', ys) ∧ h'.Two a xs b [] := by
  induction ys generalizing h fuel with
  | nil =>
    obtain ⟨fuel, rfl⟩ := exists_eq_succ_of_ne_zero (Nat.ne_of_gt hfuel)
    exact ⟨h, if_pos ht.second.next_head, ht⟩
  | cons y ys ih =>
    obtain ⟨fuel, rfl⟩ := exists_eq_succ_of_ne_zero (Nat.ne_of_gt (zero_lt_of_lt hfuel))
    have hsplit : h.Two a xs b ([] ++ y :: ys) := ht
    have hdel : (h.listDel y).Two a xs b ys := hsplit.del (fun _ hy => update_of_ne hy ..)
      (fun _ hy => update_of_ne hy ..)
    obtain ⟨h', hrest, hend⟩ := ih hdel (lt_of_succ_lt_succ hfuel)
    have hne : y ≠ b := fun h => (nodup_cons.mp ht.second.nodup).1 (h ▸ mem_cons_self)
    have hnext : h.next y = (h.listDel y).next b :=
      ht.second.next_record.trans hdel.second.next_head.symm
    refine ⟨h', ?_, hend⟩
    rw [delEach, ht.second.next_head, headD_cons, if_neg hne, hnext, hrest]
    rfl

theorem attach (ht : h.Two a xs b ys) : (h.listSplice b (h.prev a)).Ring a (xs ++ ys) :=
  ht.first.listSplice ht.second ht.apart

end Two

theorem Ring.initListHead (hr : h.Ring a xs) (hb : b ∉ a :: xs) : (h.initListHead b).Ring a xs :=
  hr.congr (fun _ hx => update_of_ne (ne_of_mem_of_not_mem hx hb) ..)
    (fun _ hx => update_of_ne (ne_of_mem_of_not_mem hx hb) ..)

theorem Two.initListHead (ht : h.Two a xs b ys) (hxs : x ∉ a :: xs) (hys : x ∉ b :: ys) :
    (h.initListHead x).Two a xs b ys :=
  ⟨ht.first.initListHead hxs, ht.second.initListHead hys, ht.apart⟩

theorem Ring.detach (hr : h.Ring a xs) (hb : b ∉ a :: xs) :
    ((h.initListHead b).listSpliceInit a b).Two a [] b xs := by
  have hkept := hr.initListHead hb
  have hnew := ring_initListHead h b
  have hab : a ∉ b :: xs := fun ha => (mem_cons.mp ha).elim
    (fun ha => hb (ha ▸ mem_cons_self)) (nodup_cons.mp hr.nodup).1
  have hdisj : (b :: []).Disjoint (a :: xs) := fun x hx hx' =>
    hb (mem_singleton.mp hx ▸ hx')
  have hspliced := hnew.listSplice hkept hdisj
  have hself : (h.initListHead b).prev b = b := update_self ..
  rw [hself, Heads.listSplice, nil_append] at hspliced
  rw [listSpliceInit]
  split at hspliced
  · next hempty =>
    rw [if_pos hempty]
    have hxs := (listEmpty_iff hkept).mp hempty
    rw [hxs] at hkept
    exact ⟨hkept, hspliced, fun x hx hx' => hab (mem_singleton.mp hx ▸ hx')⟩
  · next hempty =>
    rw [if_neg hempty]
    exact ⟨ring_initListHead _ a, hspliced.initListHead hab,
      fun x hx hx' => hab (mem_singleton.mp hx ▸ hx')⟩

end Heads

end ListHead
