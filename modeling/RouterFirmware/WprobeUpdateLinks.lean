import Mathlib.Data.List.Find
import RouterFirmware.RecordReuse
import RouterFirmware.WprobeRequest

/-!
# Updating the list of links

`wprobe_update_links` replaces the links of a device by those that are
reported.
-/

namespace WprobeLib

open ListHead RecordReuse List Function Errno

structure Mac where
  bytes : List UInt8
  length_bytes : bytes.length = 6
deriving DecidableEq

structure Link where
  flags : UInt32
  addr : Mac

structure Links where
  heads : Heads
  link : ℕ → Link
  mallocs : ℕ

/-! ## The handler -/

section Handler

variable (malloc : ℕ → Option ℕ)

/-- **`get_link`**: the link with an address, off the list, or a new one. -/
def getLink (fuel list : ℕ) (s : Links) (addr : Mac) : Option (Links × Option ℕ) :=
  (s.heads.find list (fun l => (s.link l).addr == addr) fuel (s.heads.next list)).map fun
  | some l => ({ s with heads := s.heads.listDelInit l }, some l)
  | none =>
    match malloc s.mallocs with
    | none => ({ s with mallocs := s.mallocs + 1 }, none)
    | some l => ({ heads := s.heads.initListHead l,
                   link := update s.link l ⟨0, addr⟩,
                   mallocs := s.mallocs + 1 }, some l)

def reportedAddr (tb : Tb) : Option Mac :=
  (tb 2).bind fun mac => if h : mac.length = 6 then some ⟨mac, h⟩ else none

def reportedFlags (host : ByteOrder) (tb : Tb) (link : Link) : Link :=
  { link with flags := (tb 3).elim link.flags fun p => UInt32.ofNat (nlaGet host 4 p) }

def saveLinkHandler (host : ByteOrder) (fuel list oldList : ℕ) (s : Links) (tb : Tb) :
    Option (Links × ℤ) :=
  match reportedAddr tb with
  | none => some (s, -1)
  | some addr =>
    (getLink malloc fuel oldList s addr).map fun
    | (s, none) => (s, -1)
    | (s, some l) => ({ s with
        heads := s.heads.listAddTail l list
        link := update s.link l (reportedFlags host tb (s.link l)) }, 0)

end Handler

/-- What `wprobe_update_links` meets on the way. -/
structure Update where
  /-- Whether a message can be allocated. -/
  newMsg : Bool
  /-- What `send_msg` gives to the handler, and what it returns. -/
  reports : List Tb
  err : ℤ

def Update.addrs (u : Update) : List Mac := u.reports.filterMap reportedAddr

def wprobeUpdateLinks (malloc : ℕ → Option ℕ) (host : ByteOrder) (fuel : ℕ) (u : Update)
    (links oldList : ℕ) (s : Links) : Option (Links × ℤ × List ℕ) :=
  let s := { s with heads := (s.heads.initListHead oldList).listSpliceInit links oldList }
  if u.newMsg then
    (u.reports.foldlM
        (fun s tb => (saveLinkHandler malloc host fuel links oldList s tb).map Prod.fst) s).bind
      fun s =>
        if u.err < 0 then some (s, u.err, [])
        else
          let first := s.heads.next oldList
          (Heads.delEach oldList fuel s.heads first (s.heads.next first)).map
            fun (heads, freed) => ({ s with heads }, 0, freed)
  else some (s, -ENOMEM, [])

structure Fresh (malloc : ℕ → Option ℕ) (used : List ℕ) : Prop where
  new : ∀ {i x}, malloc i = some x → x ∉ used
  distinct : ∀ {i j x}, malloc i = some x → malloc j = some x → i = j

/-! ## Reports and records -/

section Reports

variable {malloc : ℕ → Option ℕ} {links oldList : ℕ} {known : List ℕ} {s : Links} {r : Reuse ℕ Mac}

/-- **The lists in memory hold the records.** -/
structure Holds (malloc : ℕ → Option ℕ) (links oldList : ℕ) (known : List ℕ) (s : Links)
    (r : Reuse ℕ Mac) : Prop where
  lists : s.heads.Two links (r.done.map Prod.fst) oldList (r.old.map Prod.fst)
  addrs : ∀ p ∈ r.done ++ r.old, (s.link p.1).addr = p.2
  mallocs : s.mallocs = r.calls
  origin : ∀ p ∈ r.done ++ r.old, p.1 ∈ known ∨ ∃ i < r.calls, malloc i = some p.1

theorem addr_update_reportedFlags (host : ByteOrder) (tb : Tb) (link : ℕ → Link) (x y : ℕ) :
    (update link x (reportedFlags host tb (link x)) y).addr = (link y).addr := by
  by_cases hyx : y = x
  · rw [hyx, update_self]
    rfl
  · rw [update_of_ne hyx]

variable (h : Holds malloc links oldList known s r)

include h

theorem Holds.not_mem (hfresh : Fresh malloc (links :: oldList :: known)) {x : ℕ}
    (hx : malloc r.calls = some x) :
    x ∉ links :: r.done.map Prod.fst ∧ x ∉ oldList :: r.old.map Prod.fst := by
  have hnew : x ∉ links :: oldList :: known := hfresh.new hx
  have hrecord {p : ℕ × Mac} (hp : p ∈ r.done ++ r.old) : p.1 ≠ x := by
    rintro rfl
    rcases h.origin p hp with hknown | ⟨i, hi, heq⟩
    · exact hnew (mem_cons_of_mem _ (mem_cons_of_mem _ hknown))
    · exact absurd (hfresh.distinct heq hx) (Nat.ne_of_lt hi)
  constructor
  · intro hmem
    rcases mem_cons.mp hmem with rfl | hmem
    · exact hnew mem_cons_self
    · obtain ⟨p, hp, hpx⟩ := mem_map.mp hmem
      exact hrecord (mem_append_left _ hp) hpx
  · intro hmem
    rcases mem_cons.mp hmem with rfl | hmem
    · exact hnew (mem_cons_of_mem _ mem_cons_self)
    · obtain ⟨p, hp, hpx⟩ := mem_map.mp hmem
      exact hrecord (mem_append_right _ hp) hpx

theorem Holds.find_eq {fuel : ℕ} (hfuel : r.old.length < fuel) (a : Mac) :
    s.heads.find oldList (fun l => (s.link l).addr == a) fuel (s.heads.next oldList)
      = some ((r.old.find? (hasKey a)).map Prod.fst) := by
  rw [h.lists.second.find_eq _ (by rwa [length_map]), List.find?_map]
  have hsame : r.old.find? ((fun l => (s.link l).addr == a) ∘ Prod.fst)
      = r.old.find? (hasKey a) := List.find?_congr fun p hp => by
    rw [comp_apply, h.addrs p (mem_append_right _ hp)]
    rfl
  rw [hsame]

theorem saveLinkHandler_spec {host : ByteOrder} {fuel : ℕ} {tb : Tb}
    (hfresh : Fresh malloc (links :: oldList :: known)) (hfuel : r.old.length < fuel) {a : Mac}
    (ha : reportedAddr tb = some a) :
    ∃ s' ret, saveLinkHandler malloc host fuel links oldList s tb = some (s', ret)
      ∧ Holds malloc links oldList known s' (report malloc r a) := by
  unfold saveLinkHandler getLink report
  simp only [ha, h.find_eq hfuel]
  cases hfind : r.old.find? (hasKey a) with
  | some p =>
    obtain ⟨hp, before, after, hsplit, hbefore⟩ := List.find?_eq_some_iff_append.mp hfind
    have herase : r.old.eraseP (hasKey a) = before ++ after := by
      rw [hsplit, eraseP_append_right _ (by simpa using hbefore), eraseP_cons_of_pos hp]
    have hmem {q : ℕ × Mac} (hq : q ∈ (r.done ++ [p]) ++ (before ++ after)) :
        q ∈ r.done ++ r.old := by
      rw [hsplit]
      simp only [mem_append, mem_cons, not_mem_nil, or_false] at hq ⊢
      tauto
    refine ⟨_, 0, rfl, ?_, ?_, h.mallocs, ?_⟩
    · have hlists := h.lists
      rw [hsplit, map_append, map_cons] at hlists
      simp only [herase, map_append, map_cons, map_nil]
      exact hlists.move
    · simp only [herase]
      exact fun q hq => (addr_update_reportedFlags ..).trans (h.addrs q (hmem hq))
    · simp only [herase]
      exact fun q hq => h.origin q (hmem hq)
  | none =>
    simp only [h.mallocs]
    cases hmalloc : malloc r.calls with
    | some x =>
      obtain ⟨hdone, hold⟩ := h.not_mem hfresh hmalloc
      have hsplit {q : ℕ × Mac} (hq : q ∈ (r.done ++ [(x, a)]) ++ r.old) :
          q = (x, a) ∨ q ∈ r.done ++ r.old := by
        simp only [mem_append, mem_cons, not_mem_nil, or_false] at hq ⊢
        tauto
      have hne {q : ℕ × Mac} (hq : q ∈ r.done ++ r.old) : q.1 ≠ x := by
        rintro rfl
        exact (mem_append.mp hq).elim (fun hq => hdone (mem_cons_of_mem _ (mem_map_of_mem hq)))
          (fun hq => hold (mem_cons_of_mem _ (mem_map_of_mem hq)))
      refine ⟨_, 0, rfl, ?_, ?_, rfl, ?_⟩
      · simp only [map_append, map_cons, map_nil]
        exact (h.lists.initListHead hdone hold).add hdone hold
      · intro q hq
        refine (addr_update_reportedFlags ..).trans ?_
        rcases hsplit hq with rfl | hq
        · simp only [update_self]
        · exact (congrArg Link.addr (update_of_ne (hne hq) ..)).trans (h.addrs q hq)
      · intro q hq
        rcases hsplit hq with rfl | hq
        · exact .inr ⟨r.calls, Nat.lt_succ_self _, hmalloc⟩
        · exact (h.origin q hq).imp_right (Exists.imp fun _ h => h.imp_left Nat.lt_succ_of_lt)
    | none =>
      refine ⟨_, -1, rfl, h.lists, h.addrs, rfl, fun q hq => ?_⟩
      exact (h.origin q hq).imp_right (Exists.imp fun _ h => h.imp_left Nat.lt_succ_of_lt)

omit h

theorem saveLinkHandler_of_none {host : ByteOrder} {fuel : ℕ} {tb : Tb} (s : Links)
    (ha : reportedAddr tb = none) :
    saveLinkHandler malloc host fuel links oldList s tb = some (s, -1) := by
  rw [saveLinkHandler, ha]

theorem foldlM_saveLinkHandler {fuel : ℕ} (host : ByteOrder)
    (h : Holds malloc links oldList known s r) (hfresh : Fresh malloc (links :: oldList :: known))
    (hfuel : r.old.length < fuel) (reports : List Tb) : ∃ s', reports.foldlM
      (fun s tb => (saveLinkHandler malloc host fuel links oldList s tb).map Prod.fst) s = some s'
    ∧ Holds malloc links oldList known s'
      ((reports.filterMap reportedAddr).foldl (report malloc) r) := by
  induction reports generalizing s r with
  | nil => exact ⟨s, rfl, h⟩
  | cons tb reports ih =>
    rw [foldlM_cons]
    cases ha : reportedAddr tb with
    | none =>
      rw [saveLinkHandler_of_none s ha, filterMap_cons_none ha]
      exact ih h hfuel
    | some a =>
      obtain ⟨s₁, ret, hcall, h₁⟩ := saveLinkHandler_spec h hfresh hfuel ha
      have hlength : (report malloc r a).old.length ≤ r.old.length := by
        unfold report
        split
        · exact length_eraseP_le
        · split <;> exact Nat.le_refl _
      rw [hcall, filterMap_cons_some ha]
      exact ih h₁ (Nat.lt_of_le_of_lt hlength hfuel)

end Reports

/-! ## The update -/

structure Updated (before : List ℕ) (link : ℕ → Link) (addrs : List Mac) (ret : ℤ)
    (after : List ℕ) (link' : ℕ → Link) : Prop where
  kept : ret < 0 → ∀ x ∈ before, x ∈ after ∧ (link' x).addr = (link x).addr
  reported : 0 ≤ ret → after.map (fun x => (link' x).addr) = addrs
  reused : 0 ≤ ret → ∀ x ∈ after, x ∉ before → ∀ y ∈ before, (link y).addr = (link' x).addr →
    y ∈ after

namespace Update

def ret (u : Update) : ℤ := if u.newMsg then if u.err < 0 then u.err else 0 else -ENOMEM

/-- **When an update does what it should.** -/
def Keeps (u : Update) (malloc : ℕ → Option ℕ) (before : List ℕ) (link : ℕ → Link) : Prop :=
  if u.newMsg then
    if u.err < 0 then (before.map fun x => (link x).addr).Subperm u.addrs
    else ∀ i < (u.addrs.diff (before.map fun x => (link x).addr)).length, (malloc i).isSome
  else before = []

end Update

section Whole

variable {malloc : ℕ → Option ℕ} {links oldList : ℕ} {before : List ℕ} {link : ℕ → Link}
  {addrs : List Mac} {s : Links} {r : Reuse ℕ Mac} (h : Holds malloc links oldList before s r)

def records (link : ℕ → Link) (before : List ℕ) : List (ℕ × Mac) :=
  before.map fun x => (x, (link x).addr)

theorem map_fst_records (link : ℕ → Link) (before : List ℕ) :
    (records link before).map Prod.fst = before := by
  rw [records, map_map]
  exact map_id before

theorem map_snd_records (link : ℕ → Link) (before : List ℕ) :
    (records link before).map Prod.snd = before.map fun x => (link x).addr := by
  rw [records, map_map]
  rfl

theorem mem_records {x : ℕ} (hx : x ∈ before) : (x, (link x).addr) ∈ records link before :=
  mem_map_of_mem hx

theorem holds_start (hlist : s.heads.Ring links before) (hold : oldList ∉ links :: before)
    (hmallocs : s.mallocs = 0) : Holds malloc links oldList before
    { s with heads := (s.heads.initListHead oldList).listSpliceInit links oldList }
    ⟨[], records s.link before, 0⟩ := by
  refine ⟨?_, fun p hp => ?_, hmallocs, fun p hp => ?_⟩
  · exact (map_fst_records s.link before).symm ▸ hlist.detach hold
  · obtain ⟨x, -, rfl⟩ := mem_map.mp hp
    rfl
  · obtain ⟨x, hx, rfl⟩ := mem_map.mp hp
    exact .inl hx

variable (hm : Matched malloc (records link before) addrs r)

include h hm

theorem updated_of_failure {ret : ℤ} (hret : ret < 0) :
    Updated before link addrs ret (r.done.map Prod.fst) s.link
      ↔ (before.map fun x => (link x).addr).Subperm addrs := by
  rw [← map_snd_records, ← hm.old_eq_nil_iff]
  constructor
  · intro hupdated
    refine eq_nil_iff_forall_not_mem.mpr fun p hp => ?_
    obtain ⟨x, hx, rfl⟩ := mem_map.mp (hm.old_known p hp)
    exact h.lists.apart (mem_cons_of_mem _ (hupdated.kept hret x hx).1)
      (mem_cons_of_mem _ (mem_map_of_mem hp))
  · intro hnil
    refine ⟨fun _ x hx => ?_, fun hpos => absurd hret (Int.not_lt.mpr hpos),
      fun hpos => absurd hret (Int.not_lt.mpr hpos)⟩
    have hdone := (hm.kept _ (mem_records hx)).resolve_right (hnil ▸ not_mem_nil)
    exact ⟨mem_map_of_mem hdone, h.addrs _ (mem_append_left _ hdone)⟩

theorem updated_of_success {ret : ℤ} (hret : 0 ≤ ret) :
    Updated before link addrs ret (r.done.map Prod.fst) s.link
      ↔ ∀ i < (addrs.diff (before.map fun x => (link x).addr)).length, (malloc i).isSome := by
  have haddrs : (r.done.map Prod.fst).map (fun x => (s.link x).addr) = r.done.map Prod.snd := by
    rw [map_map]
    exact map_congr_left fun p hp => h.addrs p (mem_append_left _ hp)
  rw [← map_snd_records, ← hm.done_keys_eq_iff, ← haddrs]
  refine ⟨fun hupdated => hupdated.reported hret, fun hreported =>
    ⟨fun hneg => absurd hneg (Int.not_lt.mpr hret), fun _ => hreported, ?_⟩⟩
  intro _ x hx hnew y hy hsame
  obtain ⟨p, hp, rfl⟩ := mem_map.mp hx
  rw [h.addrs p (mem_append_left _ hp)] at hsame
  have hunknown : p ∉ records link before := by
    intro hknown
    obtain ⟨z, hz, rfl⟩ := mem_map.mp hknown
    exact hnew hz
  exact mem_map_of_mem (hm.reuse p hp hunknown _ (mem_records hy) hsame)

end Whole

/-- **An update does what it should exactly under the condition.** -/
theorem wprobeUpdateLinks_iff (malloc : ℕ → Option ℕ) (host : ByteOrder) (fuel : ℕ) (u : Update)
    (links oldList : ℕ) (s : Links) (before : List ℕ) (hlist : s.heads.Ring links before)
    (hold : oldList ∉ links :: before) (hfresh : Fresh malloc (links :: oldList :: before))
    (hmallocs : s.mallocs = 0) (hfuel : before.length < fuel) : ∃ s' freed after,
    wprobeUpdateLinks malloc host fuel u links oldList s = some (s', u.ret, freed)
      ∧ s'.heads.Ring links after
      ∧ (Updated before s.link u.addrs u.ret after s'.link ↔ u.Keeps malloc before s.link) := by
  have hdetached := hlist.detach hold
  unfold wprobeUpdateLinks Update.ret Update.Keeps
  cases hmsg : u.newMsg with
  | false =>
    refine ⟨_, [], [], rfl, hdetached.first, fun hupdated => ?_, fun hnil => ?_⟩
    · have hneg : -ENOMEM < 0 := by decide
      exact eq_nil_iff_forall_not_mem.mpr fun x hx =>
        not_mem_nil (hupdated.kept hneg x hx).1
    · have hneg : ¬ (0 : ℤ) ≤ -ENOMEM := by decide
      exact ⟨fun _ x hx => absurd hx (hnil ▸ not_mem_nil), fun h => absurd h hneg,
        fun h => absurd h hneg⟩
  | true =>
    have hlength : (records s.link before).length = before.length := length_map ..
    obtain ⟨s₁, hrun, hend⟩ := foldlM_saveLinkHandler host (holds_start hlist hold hmallocs) hfresh
      (hlength ▸ hfuel) u.reports
    have hm := matched_foldl malloc (records s.link before) u.addrs
    rw [← Update.addrs] at hend
    generalize u.addrs.foldl (report malloc) ⟨[], records s.link before, 0⟩ = r at hend hm
    simp only [if_true, hrun, Option.bind_some]
    by_cases herr : u.err < 0
    · rw [if_pos herr, if_pos herr, if_pos herr]
      exact ⟨s₁, [], _, rfl, hend.lists.first, updated_of_failure hend hm herr⟩
    · rw [if_neg herr, if_neg herr, if_neg herr]
      have hleft : (r.old.map Prod.fst).length < fuel := by
        have hle := (diff_sublist ((records s.link before).map Prod.snd) u.addrs).length_le
        rw [← hm.old_keys, length_map, length_map, hlength] at hle
        rw [length_map]
        exact Nat.lt_of_le_of_lt hle hfuel
      obtain ⟨heads, hdel, hfinal⟩ := hend.lists.delEach_eq hleft
      have hupdated : Updated before s.link u.addrs 0 (r.done.map Prod.fst) s₁.link ↔ _ :=
        updated_of_success hend hm (Int.le_refl 0)
      refine ⟨{ s₁ with heads }, r.old.map Prod.fst, _, ?_, hfinal.first, hupdated⟩
      rw [hdel]
      rfl

/-! ### A link that is lost -/

def exampleMac (n : UInt8) : Mac := ⟨[2, 0, 0, 0, 0, n], rfl⟩

/-- A device with two links, whose records are at 10 and 20. -/
def twoLinks : Links where
  heads := (((⟨id, id⟩ : Heads).initListHead 1).listAddTail 10 1).listAddTail 20 1
  link x := ⟨0, if x = 10 then exampleMac 1 else exampleMac 2⟩
  mallocs := 0

theorem ring_twoLinks : twoLinks.heads.Ring 1 [10, 20] :=
  ((Heads.ring_initListHead _ 1).listAddTail (x := 10) (by decide)).listAddTail (x := 20)
    (by decide)

def endlessMalloc (i : ℕ) : Option ℕ := some (100 + i)

theorem fresh_endlessMalloc : Fresh endlessMalloc [1, 5, 10, 20] where
  new h := by
    cases h
    simp only [mem_cons, not_mem_nil, or_false]
    omega
  distinct h h' := by
    cases h
    have hsum := Option.some.inj h'
    omega

def reportOf (n : UInt8) : Tb := fun t => if t = 2 then some (exampleMac n).bytes else none

/-- The second link and a new one are reported. -/
def twoReports : Update := ⟨true, [reportOf 2, reportOf 3], 0⟩

/-- **An update that succeeds.** -/
theorem wprobeUpdateLinks_iff_twoReports :
    ∃ s' freed after, wprobeUpdateLinks endlessMalloc .little 3 twoReports 1 5 twoLinks
        = some (s', 0, freed)
      ∧ s'.heads.Ring 1 after
      ∧ Updated [10, 20] twoLinks.link [exampleMac 2, exampleMac 3] 0 after s'.link := by
  obtain ⟨s', freed, after, hrun, hring, hiff⟩ := wprobeUpdateLinks_iff endlessMalloc .little 3
    twoReports 1 5 twoLinks [10, 20] ring_twoLinks (by decide) fresh_endlessMalloc rfl (by decide)
  exact ⟨s', freed, after, hrun, hring, hiff.mpr fun _ _ => rfl⟩

/-- **The first link is lost** if `send_msg` fails when only the second one
has been reported. -/
theorem link_lost :
    ∃ s', wprobeUpdateLinks endlessMalloc .little 3 ⟨true, [reportOf 2], -5⟩ 1 5 twoLinks
        = some (s', -5, [])
      ∧ s'.heads.Ring 1 [20]
      ∧ ¬ Updated [10, 20] twoLinks.link [exampleMac 2] (-5) [20] s'.link := by
  obtain ⟨s₁, hrun, hend⟩ := foldlM_saveLinkHandler .little
    (holds_start ring_twoLinks (by decide : 5 ∉ [1, 10, 20]) rfl) fresh_endlessMalloc
    (by decide : 2 < 3) [reportOf 2]
  have hrecords : ([reportOf 2].filterMap reportedAddr).foldl (report endlessMalloc)
      ⟨[], records twoLinks.link [10, 20], 0⟩
      = ⟨[(20, exampleMac 2)], [(10, exampleMac 1)], 0⟩ := rfl
  rw [hrecords] at hend
  refine ⟨s₁, ?_, hend.lists.first, fun hupdated => ?_⟩
  · exact congrArg (Option.bind · fun s => some (s, -5, [])) hrun
  · exact absurd (hupdated.kept (by decide) 10 (by decide)).1 (by decide)

end WprobeLib
