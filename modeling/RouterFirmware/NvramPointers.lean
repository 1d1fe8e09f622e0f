import Mathlib.Data.List.Induction
import RouterFirmware.LinkedLists
import RouterFirmware.NvramCommit

/-!
# The tuples of the NVRAM in memory

`NvramTable` has the buckets as association lists.
-/

open LinkedLists Function List Nat Option

/-- The lists of tuples: `nvram_hash[i]` and `nvram_dead`. -/
inductive NvramList where
  | hash (i : Fin nvramBuckets)
  | dead
deriving DecidableEq

structure NvramMemory where
  links : Links NvramList NvramTuple
  fresh : ℕ

namespace NvramMemory

def empty (node : ℕ → Node NvramTuple) : NvramMemory where
  links := ⟨fun _ => none, node⟩
  fresh := 0

variable (m : NvramMemory)

def findTuple (name : CString) : Option (Slot NvramList × Option ℕ) :=
  m.links.find (fun t => t.1 = name) (m.fresh + 1) (.head (.hash (nvramIndex name)))

def realloc (t : Option ℕ) (name value : CString) : Option (ℕ × NvramMemory) :=
  if nvramSpace < value.length + 1 then none
  else
    match t with
    | none =>
      some (m.fresh, { links := m.links.setVal m.fresh ⟨name, value⟩, fresh := m.fresh + 1 })
    | some t =>
      if (m.links.node t).val.2 = value then some (t, m)
      else some (t, { m with links := m.links.setVal t ⟨(m.links.node t).val.1, value⟩ })

def kill (prev : Slot NvramList) (t : ℕ) : NvramMemory :=
  { m with links := (m.links.write prev (m.links.node t).next).push .dead t }

def nvramGet (name : CString) : Option (Option CString) :=
  (m.findTuple name).map fun found => found.2.map fun t => (m.links.node t).val.2

def nvramSet (name value : CString) : Option (ℤ × NvramMemory) :=
  (m.findTuple name).map fun (prev, t) =>
    match m.realloc t name value with
    | none => (-12, m)
    | some (u, m) =>
      if t = some u then (0, m)
      else
        -- an old tuple would go to the dead ones
        let m := match t with
          | some t => m.kill prev t
          | none => m
        (0, { m with links := m.links.push (.hash (nvramIndex name)) u })

def nvramUnset (name : CString) : Option (ℤ × NvramMemory) :=
  (m.findTuple name).map fun (prev, t) =>
    match t with
    | some t => (0, m.kill prev t)
    | none => (0, m)

def nvramGetall : Option (List NvramTuple) :=
  (finRange nvramBuckets).foldlM
    (fun l i => m.links.foldVals (fun l t => t :: l) m.fresh (m.links.head (.hash i)) l) []

end NvramMemory

/-- **The table in memory is that of a handle.** -/
structure NvramMemory.Represents (m : NvramMemory) (h : NvramHandle) (lists : NvramList → List ℕ) :
    Prop where
  owns : m.links.Owns lists
  /-- All tuples have been allocated. -/
  allocated : ∀ l, ∀ a ∈ lists l, a < m.fresh
  bucket : ∀ i, (lists (.hash i)).map (fun a => (m.links.node a).val)
    = (h.nvramHash.bucket i).entries
  dead : (lists .dead).map (fun a => (m.links.node a).val) = h.nvramDead

namespace NvramMemory

variable {m : NvramMemory} {h : NvramHandle} {lists : NvramList → List ℕ}
  (hm : m.Represents h lists)

include hm

theorem Represents.length_le (l : NvramList) : (lists l).length ≤ m.fresh := by
  have hsub : lists l ⊆ List.range m.fresh := fun a ha =>
    mem_range.mpr (hm.allocated l a ha)
  have hle := (subperm_of_subset (hm.owns.nodup l) hsub).length_le
  rwa [length_range] at hle

theorem Represents.nvramGet_eq (name : CString) :
    h.nvramGet name = ((lists (.hash (nvramIndex name))).map
      fun a => (m.links.node a).val).dlookup name := by
  rw [hm.bucket]
  rfl

theorem Represents.findTuple (name : CString) :
    (h.nvramGet name = none ∧ ∃ prev, m.findTuple name = some (prev, none))
      ∨ ∃ as t bs value, lists (.hash (nvramIndex name)) = as ++ t :: bs
        ∧ m.findTuple name = some ((Slot.head (.hash (nvramIndex name))).after as, some t)
        ∧ (m.links.node t).val = ⟨name, value⟩
        ∧ name ∉ (as.map fun a => (m.links.node a).val).keys := by
  have hchain := hm.owns.chain (.hash (nvramIndex name))
  have hlen := hm.length_le (.hash (nvramIndex name))
  cases hfind : (lists (.hash (nvramIndex name))).find?
      (fun a => (m.links.node a).val.1 = name) with
  | none =>
    have hne : ∀ a ∈ lists (.hash (nvramIndex name)), (m.links.node a).val.1 ≠ name := by
      simpa using hfind
    refine .inl ⟨?_, _, Links.find_eq_none hchain (fun a ha => decide_eq_false (hne a ha))
      (lt_succ_of_le hlen)⟩
    rw [hm.nvramGet_eq, dlookup_eq_none]
    intro hmem
    obtain ⟨e, he, rfl⟩ := List.mem_map.mp hmem
    obtain ⟨a, ha, rfl⟩ := List.mem_map.mp he
    exact hne a ha rfl
  | some t =>
    obtain ⟨ht, as, bs, hsplit, hfirst⟩ := List.find?_eq_some_iff_append.mp hfind
    have hfirst : ∀ a ∈ as, (m.links.node a).val.1 ≠ name := by
      simpa using hfirst
    rw [hsplit] at hchain hlen
    rw [length_append, length_cons] at hlen
    have ht : (m.links.node t).val.1 = name := of_decide_eq_true ht
    refine .inr ⟨as, t, bs, (m.links.node t).val.2, hsplit, Links.find_eq_some hchain
      (fun a ha => decide_eq_false (hfirst a ha)) (decide_eq_true ht) (by omega), ?_, ?_⟩
    · rw [← ht]
    · intro hmem
      obtain ⟨e, he, rfl⟩ := List.mem_map.mp hmem
      obtain ⟨a, ha, rfl⟩ := List.mem_map.mp he
      exact hfirst a ha rfl

/-! ## The operations -/

theorem Represents.nvramGet (name : CString) : m.nvramGet name = some (h.nvramGet name) := by
  rcases hm.findTuple name with ⟨hnone, prev, hfind⟩ | ⟨as, t, bs, value, hsplit, hfind, ht, hkeys⟩
  · rw [NvramMemory.nvramGet, hfind, hnone]
    rfl
  · rw [NvramMemory.nvramGet, hfind, hm.nvramGet_eq, hsplit, map_append, map_cons,
      dlookup_append, dlookup_eq_none.mpr hkeys, none_or, ht, dlookup_cons_eq]
    simp [ht]

omit hm in
theorem Represents.of_update {m' : NvramMemory} (h' : NvramHandle) (hm : m.Represents h lists)
    {i : Fin nvramBuckets} {l : List ℕ}
    (howns : m'.links.Owns (Function.update lists (.hash i) l)) (hfresh : m.fresh ≤ m'.fresh)
    (hl : ∀ a ∈ l, a < m'.fresh)
    (hval : ∀ j ≠ NvramList.hash i, ∀ a ∈ lists j, (m'.links.node a).val = (m.links.node a).val)
    (hbucket : l.map (fun a => (m'.links.node a).val) = (h'.nvramHash.bucket i).entries)
    (hother : ∀ j ≠ i, h'.nvramHash.bucket j = h.nvramHash.bucket j)
    (hdead : h'.nvramDead = h.nvramDead) :
    m'.Represents h' (Function.update lists (.hash i) l) where
  owns := howns
  allocated j a ha := by
    by_cases hj : j = .hash i
    · subst hj
      rw [update_self] at ha
      exact hl a ha
    · rw [update_of_ne hj] at ha
      exact Nat.lt_of_lt_of_le (hm.allocated j a ha) hfresh
  bucket j := by
    by_cases hj : j = i
    · subst hj
      rw [update_self]
      exact hbucket
    · have hne : NvramList.hash j ≠ .hash i := fun heq => hj (NvramList.hash.inj heq)
      rw [update_of_ne hne, hother j hj, ← hm.bucket]
      exact map_congr_left (hval _ hne)
  dead := by
    rw [update_of_ne (by simp), hdead, ← hm.dead]
    exact map_congr_left (hval _ (by simp))

theorem Represents.nvramSet_new {name value : CString} (hvalue : value.length + 1 ≤ nvramSpace)
    {prev : Slot NvramList} (hnone : h.nvramGet name = none)
    (hfind : m.findTuple name = some (prev, none)) :
    ∃ m' lists', m.nvramSet name value = some (0, m')
      ∧ m'.Represents { h with nvramHash := h.nvramHash.insert name value } lists' := by
  have hfree : ∀ l, m.fresh ∉ lists l := fun l ha =>
    Nat.lt_irrefl _ (hm.allocated l _ ha)
  refine ⟨_, _, by
      simp only [NvramMemory.nvramSet, hfind, map_some, realloc,
        if_neg (Nat.not_lt.mpr hvalue), reduceCtorEq, if_false]
      rfl,
    hm.of_update { h with nvramHash := h.nvramHash.insert name value }
      ((hm.owns.setVal ⟨name, value⟩).push hfree) (le_succ _) ?_ ?_ ?_
      (fun j hj => HashTable.bucket_insert_of_ne _ _ _ hj) rfl⟩
  · intro a ha
    rcases mem_cons.mp ha with rfl | ha
    · exact lt_succ_self _
    · exact lt_succ_of_lt (hm.allocated _ a ha)
  · intro j _ a ha
    rw [Links.val_push, Links.val_setVal_of_ne (ne_of_mem_of_not_mem ha (hfree j))]
  · rw [HashTable.entries_insert_of_notMem _ _ hnone, ← hm.bucket]
    simp only [Links.val_push, map_cons, Links.val_setVal_self, Links.map_val_setVal (hfree _)]

theorem Represents.setVal {name value : CString} {as bs : List ℕ} {t : ℕ} {v : CString}
    (hsplit : lists (.hash (nvramIndex name)) = as ++ t :: bs)
    (ht : (m.links.node t).val = ⟨name, v⟩)
    (hkeys : name ∉ (as.map fun a => (m.links.node a).val).keys) :
    Represents { m with links := m.links.setVal t ⟨name, value⟩ }
      { h with nvramHash := h.nvramHash.insert name value } lists := by
  have hown := Links.not_mem_of_nodup_append (hsplit ▸ hm.owns.nodup (.hash (nvramIndex name)))
  have hmem : t ∈ lists (.hash (nvramIndex name)) := by
    rw [hsplit]
    simp
  have hself := update_eq_self (NvramList.hash (nvramIndex name)) lists
  rw [← hself]
  refine hm.of_update { h with nvramHash := h.nvramHash.insert name value }
    (by rw [hself]; exact hm.owns.setVal _) (Nat.le_refl _) (hm.allocated _) (fun j hj a ha => ?_)
    ?_ (fun j hj => HashTable.bucket_insert_of_ne _ _ _ hj) rfl
  · refine Links.val_setVal_of_ne ?_ _
    rintro rfl
    exact hm.owns.disjoint _ _ hj ha hmem
  · have hentries := hm.bucket (nvramIndex name)
    rw [hsplit, map_append, map_cons, ht] at hentries
    rw [HashTable.entries_insert_of_split _ hentries.symm hkeys, hsplit, map_append,
      map_cons, Links.map_val_setVal hown.1, Links.map_val_setVal hown.2,
      Links.val_setVal_self]

theorem Represents.nvramSet (name value : CString) :
    ∃ m' lists', m.nvramSet name value = some ((h.nvramSet name value).1, m')
      ∧ m'.Represents (h.nvramSet name value).2 lists' := by
  by_cases hlong : nvramSpace < value.length + 1
  · rw [NvramHandle.nvramSet_of_lt hlong]
    refine ⟨m, lists, ?_, hm⟩
    rcases hm.findTuple name with ⟨-, prev, hfind⟩ | ⟨as, t, bs, -, -, hfind, -⟩ <;>
      simp only [NvramMemory.nvramSet, hfind, map_some, realloc, if_pos hlong]
  rw [NvramHandle.nvramSet_of_le (Nat.not_lt.mp hlong)]
  rcases hm.findTuple name with ⟨hnone, prev, hfind⟩ | ⟨as, t, bs, v, hsplit, hfind, ht, hkeys⟩
  · exact hm.nvramSet_new (Nat.not_lt.mp hlong) hnone hfind
  refine ⟨_, lists, ?_, hm.setVal hsplit ht hkeys⟩
  simp only [NvramMemory.nvramSet, hfind, map_some, realloc, if_neg hlong, ht]
  by_cases hsame : v = value
  · -- `strcmp` finds the value in the tuple already
    subst hsame
    have hlinks : m.links.setVal t ⟨name, v⟩ = m.links := by
      rw [Links.setVal, ← ht, update_eq_self]
    simp [hlinks]
  · simp [hsame]

theorem Represents.nvramUnset (name : CString) :
    ∃ m' lists', m.nvramUnset name = some ((h.nvramUnset name).1, m')
      ∧ m'.Represents (h.nvramUnset name).2 lists' := by
  rcases hm.findTuple name with ⟨hnone, prev, hfind⟩ | ⟨as, t, bs, v, hsplit, hfind, ht, hkeys⟩
  · refine ⟨m, lists, ?_, ?_⟩
    · simp only [NvramMemory.nvramUnset, hfind, map_some, NvramHandle.nvramUnset, hnone]
    · simp only [NvramHandle.nvramUnset, hnone]
      exact hm
  have hget : h.nvramGet name = some v := by
    rw [hm.nvramGet_eq, hsplit, map_append, map_cons, dlookup_append,
      dlookup_eq_none.mpr hkeys, none_or, ht, dlookup_cons_eq]
  have hown := Links.not_mem_of_nodup_append (hsplit ▸ hm.owns.nodup (.hash (nvramIndex name)))
  have hmem : t ∈ lists (.hash (nvramIndex name)) := by
    rw [hsplit]
    simp
  have hfree : ∀ l, t ∉ Function.update lists (.hash (nvramIndex name)) (as ++ bs) l := by
    intro l ha
    by_cases hl : l = .hash (nvramIndex name)
    · subst hl
      rw [update_self, mem_append] at ha
      exact ha.elim hown.1 hown.2
    · rw [update_of_ne hl] at ha
      exact hm.owns.disjoint _ _ hl ha hmem
  have hdead : Function.update lists (.hash (nvramIndex name)) (as ++ bs) .dead = lists .dead :=
    update_of_ne (by simp) ..
  refine ⟨m.kill ((Slot.head (.hash (nvramIndex name))).after as) t,
    Function.update (Function.update lists (.hash (nvramIndex name)) (as ++ bs)) .dead
    (t :: lists .dead), ?_, ?_, ?_, fun i => ?_, ?_⟩
  · simp only [NvramMemory.nvramUnset, hfind, map_some, NvramHandle.nvramUnset, hget]
  · have howns := (hm.owns.unlink hsplit).push (i := .dead) hfree
    rw [hdead] at howns
    exact howns
  · intro l a ha
    by_cases hl : l = .dead
    · subst hl
      rw [update_self] at ha
      rcases mem_cons.mp ha with rfl | ha
      · exact hm.allocated _ _ hmem
      · exact hm.allocated _ a ha
    rw [update_of_ne hl] at ha
    by_cases hi : l = .hash (nvramIndex name)
    · subst hi
      rw [update_self] at ha
      refine hm.allocated (.hash (nvramIndex name)) a ?_
      rw [hsplit]
      simp only [mem_append, mem_cons] at ha ⊢
      tauto
    · rw [update_of_ne hi] at ha
      exact hm.allocated _ a ha
  · simp only [NvramHandle.nvramUnset, hget, kill, Links.val_push, Links.val_write]
    rw [update_of_ne (by simp)]
    by_cases hi : i = nvramIndex name
    · subst hi
      have hentries := hm.bucket (nvramIndex name)
      rw [hsplit, map_append, map_cons, ht] at hentries
      rw [update_self, HashTable.entries_erase_of_split _ hentries.symm hkeys,
        map_append]
    · rw [update_of_ne (fun heq => hi (NvramList.hash.inj heq)),
        HashTable.bucket_erase_of_ne _ _ hi, hm.bucket]
  · simp only [NvramHandle.nvramUnset, hget, kill, Links.val_push, Links.val_write]
    rw [update_self, map_cons, hm.dead, ht]

theorem Represents.nvramGetall : m.nvramGetall = some h.nvramGetall := by
  have hwalk : ∀ (is : List (Fin nvramBuckets)) (l : List NvramTuple),
      is.foldlM (fun l i => m.links.foldVals (fun l t => t :: l) m.fresh
          (m.links.head (.hash i)) l) l
        = some ((is.flatMap fun i => (h.nvramHash.bucket i).entries).foldl
            (fun l t => t :: l) l) := by
    intro is
    induction is with
    | nil => exact fun _ => rfl
    | cons i is ih =>
      intro l
      rw [foldlM_cons, Links.foldVals_eq (hm.owns.chain (.hash i)) (hm.length_le _),
        hm.bucket, flatMap_cons, foldl_append]
      exact ih _
  exact hwalk _ _

omit hm

theorem represents_empty (node : ℕ → Node NvramTuple) (hhash : h.nvramHash = .empty)
    (hdead : h.nvramDead = []) : (NvramMemory.empty node).Represents h fun _ => [] where
  owns := ⟨fun _ => rfl, fun _ => nodup_nil, fun _ _ _ _ => nofun⟩
  allocated _ _ := nofun
  bucket i := by
    rw [hhash]
    rfl
  dead := hdead.symm

end NvramMemory

/-! ## Sequences of calls -/

abbrev NvramEvent := NvramCall × ℤ

namespace NvramMemory

def call (m : NvramMemory) : NvramCall → Option (ℤ × NvramMemory)
  | .set name value => m.nvramSet name value
  | .unset name => m.nvramUnset name

def run (m : NvramMemory) : List NvramCall → Option (List NvramEvent × NvramMemory)
  | [] => some ([], m)
  | c :: cs => do
    let (ret, m) ← m.call c
    let (events, m) ← run m cs
    return ((c, ret) :: events, m)

end NvramMemory

def NvramEvent.Touches (name : CString) (e : NvramEvent) : Prop :=
  (∃ value, e = (.set name value, 0)) ∨ e.1 = .unset name

def LastSet (events : List NvramEvent) (name value : CString) : Prop :=
  ∃ before after, events = before ++ (.set name value, 0) :: after
    ∧ ∀ e ∈ after, ¬ NvramEvent.Touches name e

def NvramEvent.apply (f : CString → Option CString) : NvramEvent → CString → Option CString
  | (.set name value, ret) => if ret = 0 then Function.update f name (some value) else f
  | (.unset name, _) => Function.update f name none

theorem NvramEvent.apply_of_not_touches {f : CString → Option CString} {e : NvramEvent}
    {name : CString} (h : ¬ e.Touches name) : e.apply f name = f name := by
  obtain ⟨c, ret⟩ := e
  cases c with
  | set n v =>
    show (if ret = 0 then Function.update f n (some v) else f) name = f name
    split
    · rename_i hret
      subst hret
      refine update_of_ne ?_ ..
      rintro rfl
      exact h (.inl ⟨v, rfl⟩)
    · rfl
  | unset n =>
    refine update_of_ne ?_ ..
    rintro rfl
    exact h (.inr rfl)

theorem lastSet_concat (events : List NvramEvent) (e : NvramEvent) (name value : CString) :
    LastSet (events ++ [e]) name value
      ↔ e = (.set name value, 0) ∨ ¬ e.Touches name ∧ LastSet events name value := by
  constructor
  · rintro ⟨before, after, heq, hafter⟩
    rcases eq_nil_or_concat after with rfl | ⟨rest, e', rfl⟩
    · have he := (append_inj' heq rfl).2
      exact .inl (by simpa using he)
    · rw [concat_eq_append, ← cons_append, ← append_assoc] at heq
      obtain ⟨rfl, he⟩ := append_inj' heq rfl
      obtain rfl : e = e' := by simpa using he
      rw [concat_eq_append] at hafter
      exact .inr ⟨hafter e (by simp), before, rest, rfl, fun x hx =>
        hafter x (mem_append_left _ hx)⟩
  · rintro (rfl | ⟨he, before, after, rfl, hafter⟩)
    · exact ⟨events, [], rfl, fun _ => nofun⟩
    · refine ⟨before, after ++ [e], by simp, fun x hx => ?_⟩
      rcases mem_append.mp hx with hx | hx
      · exact hafter x hx
      · rwa [mem_singleton.mp hx]

theorem foldl_apply_eq_some_iff (events : List NvramEvent) (name value : CString) :
    events.foldl NvramEvent.apply (fun _ => none) name = some value
      ↔ LastSet events name value := by
  induction events using reverseRecOn with
  | nil => simp [LastSet]
  | append_singleton events e ih =>
    rw [foldl_append, foldl_cons, foldl_nil, lastSet_concat]
    by_cases he : e.Touches name
    · simp only [he, not_true, false_and, or_false]
      rcases he with ⟨v, rfl⟩ | hunset
      · have hset : NvramEvent.apply (events.foldl NvramEvent.apply fun _ => none)
            (.set name v, 0) name = some v := update_self ..
        rw [hset]
        simp
      · obtain ⟨c, ret⟩ := e
        obtain rfl : c = .unset name := hunset
        have hnone : NvramEvent.apply (events.foldl NvramEvent.apply fun _ => none)
            (.unset name, ret) name = none := update_self ..
        rw [hnone]
        simp
    · rw [NvramEvent.apply_of_not_touches he, ih]
      simp only [he, not_false_eq_true, true_and]
      refine (or_iff_right ?_).symm
      rintro rfl
      exact he (.inl ⟨value, rfl⟩)

namespace NvramMemory

theorem Represents.call {m : NvramMemory} {h : NvramHandle} {lists : NvramList → List ℕ}
    (hm : m.Represents h lists) (c : NvramCall) :
    ∃ ret m' h' lists', m.call c = some (ret, m') ∧ m'.Represents h' lists'
      ∧ h'.nvramGet = NvramEvent.apply h.nvramGet (c, ret) := by
  cases c with
  | set name value =>
    obtain ⟨m', lists', hcall, hm'⟩ := hm.nvramSet name value
    refine ⟨_, m', _, lists', hcall, hm', ?_⟩
    rw [NvramHandle.nvramGet_nvramSet]
    show _ = if (h.nvramSet name value).1 = 0 then _ else _
    by_cases hlen : value.length + 1 ≤ nvramSpace
    · rw [if_pos hlen, NvramHandle.nvramSet_of_le hlen, if_pos rfl]
    · rw [if_neg hlen, NvramHandle.nvramSet_of_lt (Nat.not_le.mp hlen), if_neg (by simp)]
  | unset name =>
    obtain ⟨m', lists', hcall, hm'⟩ := hm.nvramUnset name
    exact ⟨_, m', _, lists', hcall, hm', NvramHandle.nvramGet_nvramUnset⟩

theorem Represents.run {m : NvramMemory} {h : NvramHandle} {lists : NvramList → List ℕ}
    (hm : m.Represents h lists) (calls : List NvramCall) :
    ∃ events m' h' lists', m.run calls = some (events, m') ∧ events.map Prod.fst = calls
      ∧ m'.Represents h' lists' ∧ h'.nvramGet = events.foldl NvramEvent.apply h.nvramGet := by
  induction calls generalizing m h lists with
  | nil => exact ⟨[], m, h, lists, rfl, rfl, hm, rfl⟩
  | cons c calls ih =>
    obtain ⟨ret, m₁, h₁, lists₁, hcall, hm₁, hget₁⟩ := hm.call c
    obtain ⟨events, m', h', lists', hrun, hcalls, hm', hget⟩ := ih hm₁
    refine ⟨(c, ret) :: events, m', h', lists', ?_, by rw [map_cons, hcalls], hm', ?_⟩
    · rw [NvramMemory.run, hcall]
      show (m₁.run calls).bind _ = _
      rw [hrun]
      rfl
    · rw [hget, hget₁, foldl_cons]

end NvramMemory

/-- **The table is a finite map.** Every sequence of calls on an empty table
returns; then `nvram_get` gives for each name the value that was last set for
it, `nvram_getall` lists these pairs, each once, and a `nvram_set` of a value
that is too long returns -12 and changes nothing. -/
theorem nvramTable_finite_map (node : ℕ → Node NvramTuple) (calls : List NvramCall) :
    ∃ events m, (NvramMemory.empty node).run calls = some (events, m)
      ∧ events.map Prod.fst = calls
      ∧ (∀ name, ∃ got, m.nvramGet name = some got
        ∧ ∀ value, got = some value ↔ LastSet events name value)
      ∧ (∃ l, m.nvramGetall = some l ∧ l.Nodup
        ∧ ∀ name value, ⟨name, value⟩ ∈ l ↔ LastSet events name value)
      ∧ ∀ name value : CString, nvramSpace < value.length + 1 →
        m.nvramSet name value = some (-12, m) := by
  have hempty := NvramMemory.represents_empty (h := ⟨fun _ => 0, nvramSpace, le_rfl, .empty, []⟩)
    node rfl rfl
  obtain ⟨events, m, h, lists, hrun, hcalls, hm, hget⟩ := hempty.run calls
  have hlast : ∀ name value, h.nvramGet name = some value ↔ LastSet events name value := by
    intro name value
    rw [hget, ← foldl_apply_eq_some_iff]
    rfl
  refine ⟨events, m, hrun, hcalls, fun name => ⟨_, hm.nvramGet name, hlast name⟩,
    ⟨_, hm.nvramGetall, ?_, fun name value => ?_⟩, fun name value hlong => ?_⟩
  · rw [NvramHandle.nvramGetall, foldl_flip_cons_eq_append', append_nil,
      nodup_reverse]
    exact h.nvramHash.nodupKeys_entries.nodup
  · rw [NvramHandle.mem_nvramGetall, hlast]
  · rcases hm.findTuple name with ⟨-, prev, hfind⟩ | ⟨as, t, bs, -, -, hfind, -⟩ <;>
      simp only [NvramMemory.nvramSet, hfind, map_some, NvramMemory.realloc, if_pos hlong]
