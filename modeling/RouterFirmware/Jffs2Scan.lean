import RouterFirmware.Chains
import RouterFirmware.Jffs2Append

/-!
# How far a scan of jffs2 data goes

`mtd_parse_jffs2data` goes from node to node of an erase block.
-/

namespace Jffs2

open List

variable (t : Target) (m : Bytes)

def IsNodeAt (ofs : ℕ) : Prop := ofs < t.erasesize ∧ m.load t.order 2 ofs = magicBitmask

instance (ofs : ℕ) : Decidable (IsNodeAt t m ofs) := inferInstanceAs (Decidable (_ ∧ _))

def IsDirentAt (ofs : ℕ) : Prop := m.load t.order 2 (ofs + 2) = nodetypeDirent

instance (ofs : ℕ) : Decidable (IsDirentAt t m ofs) := inferInstanceAs (Decidable (_ = _))

def nextNode (ofs : ℕ) : Option ℕ :=
  if IsNodeAt t m ofs then some ((ofs + Writer.PAD (m.load t.order 4 (ofs + 4))) % 2 ^ 32)
  else none

def nodeHeaderSize : ℕ := 12

def direntLength (ofs : ℕ) : ℕ := direntSize + (m (ofs + 28)).toNat

def turnReads (ofs : ℕ) : List (ℕ × ℕ) :=
  if ofs < t.erasesize then
    if IsNodeAt t m ofs then
      (ofs, nodeHeaderSize) :: if IsDirentAt t m ofs then [(ofs, direntLength m ofs)] else []
    else [(ofs, 2)]
  else []

def Contained (s : Writer) (dir : CString) : Prop :=
  (∃ fuel s', s.mtdParseJffs2data t dir fuel = some s')
    ∧ ∀ ofs s', Loop.Steps (Writer.parseTurn t dir) (0, s) (ofs, s') →
      ∀ r ∈ turnReads t s'.buf ofs, r.1 + r.2 ≤ t.erasesize

def LeadsOn : Prop := ¬ Chain.Returns (nextNode t m) 0

def NodesInside : Prop :=
  ∀ ofs, Chain.Reaches (nextNode t m) 0 ofs → IsNodeAt t m ofs →
    ofs + nodeHeaderSize ≤ t.erasesize
      ∧ (IsDirentAt t m ofs → ofs + direntLength m ofs ≤ t.erasesize)

variable {t m}

theorem nextNode_of_isNode {ofs : ℕ} (h : IsNodeAt t m ofs) :
    nextNode t m ofs = some ((ofs + Writer.PAD (m.load t.order 4 (ofs + 4))) % 2 ^ 32) :=
  if_pos h

theorem nextNode_of_not_isNode {ofs : ℕ} (h : ¬ IsNodeAt t m ofs) : nextNode t m ofs = none :=
  if_neg h

theorem dvd_of_reaches {ofs : ℕ} (h : Chain.Reaches (nextNode t m) 0 ofs) : 4 ∣ ofs := by
  induction h with
  | refl => exact Nat.dvd_zero 4
  | @tail a b _ hstep ih =>
    by_cases ha : IsNodeAt t m a
    · rw [Chain.Leads, nextNode_of_isNode ha] at hstep
      have hpad : 4 ∣ Writer.PAD (m.load t.order 4 (a + 4)) := Nat.dvd_mul_left ..
      rw [← Option.some.inj hstep]
      exact (Nat.dvd_mod_iff (by decide)).mpr (Nat.dvd_add ih hpad)
    · rw [Chain.Leads, nextNode_of_not_isNode ha] at hstep
      exact absurd hstep (by simp)

namespace Writer

theorem toNat_loadField (s : Writer) (a : ℕ) :
    (s.loadField t a).toNat = s.buf.load t.order 4 a := by
  rw [loadField, UInt32.toNat_ofNat']
  exact Nat.mod_eq_of_lt (s.buf.load_lt t.order 4 a)

theorem parseTurn_eq (dir : CString) (ofs : ℕ) (s : Writer) : parseTurn t dir (ofs, s)
    = if IsNodeAt t s.buf ofs then
        .again ((ofs + PAD (s.buf.load t.order 4 (ofs + 4))) % 2 ^ 32,
          if IsDirentAt t s.buf ofs then s.noteDirent t dir ofs else s)
      else .leave s := by
  rw [parseTurn, toNat_loadField]
  rfl

theorem parseTurn_follows (dir : CString) :
    Chain.Follows (nextNode t m) (parseTurn t dir) Prod.fst (fun p => p.2.buf = m) := by
  constructor
  · rintro ⟨ofs, s⟩ ⟨ofs', s'⟩ rfl hturn
    rw [parseTurn_eq] at hturn
    split_ifs at hturn with hnode hdirent
    all_goals
      obtain ⟨rfl, rfl⟩ := Prod.mk.inj (Turn.again.inj hturn)
      exact ⟨nextNode_of_isNode hnode, rfl⟩
  · rintro ⟨ofs, s⟩ r rfl hturn
    rw [parseTurn_eq] at hturn
    split_ifs at hturn with hnode
    exact nextNode_of_not_isNode hnode

theorem exists_mtdParseJffs2data_iff (s : Writer) (dir : CString) :
    (∃ fuel s', s.mtdParseJffs2data t dir fuel = some s') ↔ LeadsOn t s.buf := by
  have hfollows := parseTurn_follows (t := t) (m := s.buf) dir
  have hfinite : ∀ q, Chain.Reaches (nextNode t s.buf) 0 q → nextNode t s.buf q ≠ none →
      q ∈ Finset.range t.erasesize := by
    intro q _ hq
    by_cases hnode : IsNodeAt t s.buf q
    · exact Finset.mem_range.mpr hnode.1
    · exact absurd (nextNode_of_not_isNode hnode) hq
  rw [LeadsOn, ← Chain.halts_iff _ hfinite, ← hfollows.exists_ends_iff (s := (0, s)) rfl]
  exact exists_comm

theorem reads_iff (s : Writer) (dir : CString) :
    (∀ ofs s', Loop.Steps (parseTurn t dir) (0, s) (ofs, s') →
        ∀ r ∈ turnReads t s'.buf ofs, r.1 + r.2 ≤ t.erasesize)
      ↔ NodesInside t s.buf := by
  have hfollows := parseTurn_follows (t := t) (m := s.buf) dir
  constructor
  · intro hreads ofs hreach hnode
    obtain ⟨⟨_, s'⟩, hsteps, rfl, hbuf⟩ := hfollows.exists_steps_of_reaches (s := (0, s)) rfl hreach
    have hin := hreads _ s' hsteps
    rw [show s'.buf = s.buf from hbuf, turnReads, if_pos hnode.1, if_pos hnode] at hin
    refine ⟨hin (_, nodeHeaderSize) mem_cons_self, fun hdirent => ?_⟩
    rw [if_pos hdirent] at hin
    exact hin (_, direntLength s.buf _) (by simp)
  · intro hinside ofs s' hsteps r hr
    obtain ⟨hreach, hbuf⟩ := hfollows.reaches_of_steps (s := (0, s)) rfl hsteps
    have hdvd := dvd_of_reaches hreach
    have hE := t.dvd_erasesize
    rw [show s'.buf = s.buf from hbuf, turnReads] at hr
    split_ifs at hr with hlt hnode hdirent
    · obtain ⟨hheader, hentry⟩ := hinside ofs hreach hnode
      rcases mem_cons.mp hr with rfl | hr
      · exact hheader
      · rw [mem_singleton.mp hr]
        exact hentry hdirent
    · rw [mem_singleton.mp hr]
      exact (hinside ofs hreach hnode).1
    · rw [mem_singleton.mp hr]
      show ofs + 2 ≤ t.erasesize
      have hdvd : 4 ∣ ofs := hdvd
      omega
    · exact absurd hr not_mem_nil

/-- **When a scan ends and stays in the block**: exactly if no node leads
back to one before it, and the nodes of the chain are in the block. -/
theorem mtdParseJffs2data_contained_iff (t : Target) (s : Writer) (dir : CString) :
    Contained t s dir ↔ LeadsOn t s.buf ∧ NodesInside t s.buf :=
  and_congr (exists_mtdParseJffs2data_iff s dir) (reads_iff s dir)

def zeroLengthWriter : Writer :=
  { initialWriter [] with
    buf := fun a => [0x85, 0x19, 0x03, 0x20, 0x00, 0x00, 0x00, 0x00].getD a 0xff }

/-- **A node of length zero** leads to itself, and no number of turns is
enough. -/
theorem mtdParseJffs2data_never_ends :
    ¬ ∃ fuel s', zeroLengthWriter.mtdParseJffs2data smallTarget rootDir fuel = some s' := by
  have hstay : nextNode smallTarget zeroLengthWriter.buf 0 = some 0 := by decide +kernel
  have hback : ¬ LeadsOn smallTarget zeroLengthWriter.buf :=
    not_not.mpr ⟨0, Relation.ReflTransGen.refl, Relation.TransGen.single hstay⟩
  exact fun hends => hback ((exists_mtdParseJffs2data_iff _ _).mp hends)

end Writer

end Jffs2
