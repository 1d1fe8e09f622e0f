import RouterFirmware.TrxTool

/-!
# The images of the trx tool

What the tool is for: the files it is given lie in the image one behind the
other, the header says where the recorded ones begin, and its length and its
check are right (`IsImage`).
-/

namespace Trx

open Memory List ByteOrder Nat

/-! ## What an image has to be -/

/-- A file of a command line: its bytes, and whether its offset is recorded. -/
structure Part where
  recorded : Bool
  bytes : List UInt8

/-- The file that an option adds, if it does and the file can be read. -/
def Opt.part (files : String → Option InFile) : Opt → List Part
  | .A optarg => ((files optarg).map fun file => ⟨false, file.bytes⟩).toList
  | .f optarg => ((files optarg).map fun file => ⟨true, file.bytes⟩).toList
  | .arg optarg => ((files optarg).map fun file => ⟨true, file.bytes⟩).toList
  | _ => []

/-- The files after an option: that of the output is emptied. -/
def Opt.filesAfter (files : String → Option InFile) : Opt → String → Option InFile
  | .o optarg => Function.update files optarg (some ⟨[], false⟩)
  | _ => files

def Opt.maxlenAfter (host : Host) (maxlen : ℕ) : Opt → ℕ
  | .m optarg => ((host.strtoul optarg).map host.roundMaxlen).getD maxlen
  | _ => maxlen

/-- **The files of a command line**, in its order. -/
def parts (files : String → Option InFile) : List Opt → List Part
  | [] => []
  | opt :: opts => opt.part files ++ parts (opt.filesAfter files) opts

def maxlenOf (host : Host) (maxlen : ℕ) : List Opt → ℕ
  | [] => maxlen
  | opt :: opts => maxlenOf host (opt.maxlenAfter host maxlen) opts

structure Placement extends Part where
  start : ℕ

def Placement.stop (p : Placement) : ℕ := p.start + p.bytes.length

/-- The beginnings of the recorded files. -/
def recordedStarts (pl : List Placement) : List ℕ := (pl.filter (·.recorded)).map (·.start)

def field (out : List UInt8) (a : ℕ) : ℕ := little.field out a 4

structure IsImage (parts : List Part) (maxlen : ℕ) (out : List UInt8) : Prop where
  recorded_le : (parts.filter (·.recorded)).length ≤ 3
  /-- Every file has its place, behind the header and behind the files before;
  the offsets of the header are the places of the recorded ones. -/
  placed : ∃ pl : List Placement, pl.map Placement.toPart = parts
    ∧ (∀ p ∈ pl, headerSize ≤ p.start ∧ p.stop ≤ out.length
      ∧ (out.drop p.start).take p.bytes.length = p.bytes)
    ∧ pl.Pairwise (fun p q => p.stop ≤ q.start)
    ∧ recordedStarts pl
      = (List.range (recordedStarts pl).length).map (fun i => field out (offsetsAt i))
  len_eq : field out lenAt = out.length
  dvd_length : 0x1000 ∣ out.length
  length_le : out.length ≤ maxlen
  crc_eq : field out crc32At
    = (Crc.crc crc32Poly 0xFFFFFFFF (out.drop flagVersionAt)).toNat

/-! ## When an option fits -/

namespace State

variable {host : Host} (s : State host)

def limit : ℕ := min s.maxlen 0xfffff000

/-- A file has room, if the tool does not refuse it: also the zeros behind
it. -/
def HasRoom (optarg : String) : Prop :=
  ∀ file ∈ s.files optarg, s.curLen + file.bytes.length < s.maxlen →
    s.curLen + (file.bytes.length + padding 4 file.bytes.length) ≤ s.limit

def Fits : Opt → Prop
  | .A optarg => s.HasRoom optarg
  | .f optarg => s.i < 3 ∧ s.HasRoom optarg
  | .arg optarg => s.i < 3 ∧ s.HasRoom optarg
  | .m optarg => ∀ n ∈ host.strtoul optarg, 0x1000 ≤ host.roundMaxlen n →
      s.curLen ≤ host.roundMaxlen n
  | .a optarg => ∀ n ∈ host.strtoul optarg,
      0 < n ∧ (s.curLen &&& (n - 1) ≠ 0 → s.curLen + (n - (s.curLen &&& (n - 1))) ≤ s.limit)
  | .b optarg => ∀ n ∈ host.strtoul optarg, n ≤ s.limit
  | .o _ => True
  | .other => True

/-- Every option of a command line fits when its turn comes. -/
def FitAll (s : State host) : List Opt → Prop
  | [] => True
  | opt :: opts => s.Fits opt ∧ match s.step opt with
    | .again s' => s'.FitAll opts
    | .leave _ => True

instance (optarg : String) : Decidable (s.HasRoom optarg) :=
  inferInstanceAs (Decidable (∀ file ∈ s.files optarg, _ → _))

instance : (opt : Opt) → Decidable (s.Fits opt)
  | .A optarg => inferInstanceAs (Decidable (s.HasRoom optarg))
  | .f optarg => inferInstanceAs (Decidable (s.i < 3 ∧ s.HasRoom optarg))
  | .arg optarg => inferInstanceAs (Decidable (s.i < 3 ∧ s.HasRoom optarg))
  | .m optarg => inferInstanceAs (Decidable (∀ n ∈ host.strtoul optarg, _ → _))
  | .a optarg => inferInstanceAs (Decidable (∀ n ∈ host.strtoul optarg, _ ∧ (_ → _)))
  | .b optarg => inferInstanceAs (Decidable (∀ n ∈ host.strtoul optarg, n ≤ s.limit))
  | .o _ => .isTrue trivial
  | .other => .isTrue trivial

instance decidableFitAll (s : State host) : (opts : List Opt) → Decidable (s.FitAll opts)
  | [] => .isTrue trivial
  | opt :: opts =>
    let _ : Decidable (match s.step opt with
        | .again s' => s'.FitAll opts
        | .leave _ => True) :=
      match s.step opt with
      | .again s' => decidableFitAll s' opts
      | .leave _ => .isTrue trivial
    inferInstanceAs (Decidable (_ ∧ _))

end State

/-! ## Arithmetic -/

theorem Host.sub_eq {a : ℕ} (host : Host) {b : ℕ} (hb : b ≤ a) (ha : a < host.word) :
    host.sub a b = a - b := by
  rw [Host.sub, show a + host.word - b = a - b + host.word by omega, add_mod_right,
    mod_eq_of_lt (by omega)]

theorem State.limit_lt {host : Host} (s : State host) : s.limit < 2 ^ 32 :=
  Nat.lt_of_le_of_lt (Nat.min_le_right ..) (by decide)

theorem State.limit_le {host : Host} (s : State host) : s.limit ≤ s.maxlen := Nat.min_le_left ..

theorem State.dvd_limit {host : Host} (s : State host) : 0x1000 ∣ s.limit := by
  have h := s.dvd_maxlen
  unfold State.limit
  omega

/-! ## What the options keep -/

variable {host : Host}

/-- **What the buffer holds** between two options. -/
structure Layout (s : State host) (pl : List Placement) (starts : List ℕ) : Prop where
  headerSize_le : headerSize ≤ s.curLen
  le_limit : s.curLen ≤ s.limit
  placed : ∀ p ∈ pl, headerSize ≤ p.start ∧ p.stop ≤ s.curLen
    ∧ s.buf.slice p.start p.bytes.length = p.bytes
  ordered : pl.Pairwise (fun p q => p.stop ≤ q.start)
  length_le : starts.length ≤ 3
  count : s.i = starts.length
  offsets : starts = (List.range s.i).map (fun i => s.buf.load .little 4 (offsetsAt i))

theorem offsetsAt_lt {i : ℕ} (hi : i < 3) : offsetsAt i + 4 ≤ headerSize := by
  unfold offsetsAt headerSize
  omega

namespace Layout

variable {s : State host} {pl : List Placement} {starts : List ℕ}

variable (h : Layout s pl starts)

include h

theorem le_maxlen : s.curLen ≤ s.maxlen :=
  h.le_limit.trans s.limit_le

theorem grow {s' : State host} (hbuf : Memory.EqOn s.buf s'.buf 0 s.curLen)
    (hle : s.curLen ≤ s'.curLen) (hlimit : s'.curLen ≤ s'.limit) (hi : s'.i = s.i) :
    Layout s' pl starts where
  headerSize_le := h.headerSize_le.trans hle
  le_limit := hlimit
  placed p hp := by
    obtain ⟨hstart, hstop, hslice⟩ := h.placed p hp
    exact ⟨hstart, hstop.trans hle, (hbuf.slice_eq hstop (Nat.zero_le _)).symm.trans hslice⟩
  ordered := h.ordered
  length_le := h.length_le
  count := hi.trans h.count
  offsets := by
    rw [hi]
    refine h.offsets.trans (map_congr_left fun i hmem => ?_)
    have hlt : i < 3 := (mem_range.mp hmem).trans_le (h.count ▸ h.length_le)
    exact hbuf.load_eq _ (Nat.zero_le _) ((offsetsAt_lt hlt).trans h.headerSize_le)

theorem place {s' : State host} {p : Placement} (hp : s.curLen ≤ p.start)
    (hstop : p.stop ≤ s'.curLen) (hbuf : Memory.EqOn s.buf s'.buf 0 s.curLen)
    (hbytes : s'.buf.slice p.start p.bytes.length = p.bytes) (hlimit : s'.curLen ≤ s'.limit)
    (hi : s'.i = s.i) : Layout s' (pl ++ [p]) starts := by
  have hle : s.curLen ≤ s'.curLen := (hp.trans (Nat.le_add_right ..)).trans hstop
  have hgrow := h.grow hbuf hle hlimit hi
  refine { hgrow with placed := ?_, ordered := ?_ }
  · intro q hq
    rcases mem_append.mp hq with hq | hq
    · exact hgrow.placed q hq
    · obtain rfl := mem_singleton.mp hq
      exact ⟨h.headerSize_le.trans hp, hstop, hbytes⟩
  · refine pairwise_append.mpr ⟨h.ordered, pairwise_singleton .., ?_⟩
    intro q hq r hr
    obtain rfl := mem_singleton.mp hr
    exact (h.placed q hq).2.1.trans hp

end Layout

/-! ## The options, one by one -/

/-- **How a turn ends** that adds some files. -/
def Keeps (pl : List Placement) (new : List Part) (files : String → Option InFile) (maxlen : ℕ)
    (turn : Turn (State host) Exit) : Prop :=
  turn = .leave .failure
    ∨ ∃ s' pl', turn = .again s' ∧ pl'.map Placement.toPart = new
      ∧ Layout s' (pl ++ pl') (recordedStarts (pl ++ pl')) ∧ s'.files = files
      ∧ s'.maxlen = maxlen

theorem recordedStarts_append (pl pl' : List Placement) :
    recordedStarts (pl ++ pl') = recordedStarts pl ++ recordedStarts pl' := by
  rw [recordedStarts, filter_append, map_append, recordedStarts, recordedStarts]

variable {pl : List Placement}

theorem Keeps.of_layout {s' : State host}
    (h : Layout s' pl (recordedStarts pl)) : Keeps pl [] s'.files s'.maxlen (.again s') :=
  .inr ⟨s', [], rfl, rfl, by rwa [append_nil], rfl, rfl⟩

namespace State

variable {s : State host}

theorem setCurLen_curLen {n : ℕ} (h : n ≤ s.limit) : (s.setCurLen n).curLen = n :=
  mod_eq_of_lt (h.trans_lt s.limit_lt)

theorem record_layout {starts : List ℕ} (h : Layout s pl starts) (hi : s.i < 3) :
    ∃ s', s.record = some s' ∧ Layout s' pl (starts ++ [s.curLen]) ∧ s'.curLen = s.curLen
      ∧ s'.maxlen = s.maxlen ∧ s'.files = s.files := by
  have hat : offsetsAt s.i + 4 ≤ headerSize := offsetsAt_lt hi
  have hfit : offsetsAt s.i + 4 ≤ s.maxlen := (hat.trans h.headerSize_le).trans h.le_maxlen
  refine ⟨{ s with buf := s.buf.store .little 4 (offsetsAt s.i) s.curLen, i := s.i + 1 }, ?_, ?_,
    rfl, rfl, rfl⟩
  · rw [record, put, length_bytes, if_pos (.inr hfit)]
    rfl
  · refine ⟨h.headerSize_le, h.le_limit, ?placed, h.ordered, ?length_le, ?count, ?offsets⟩
    case placed =>
      intro p hp
      obtain ⟨hstart, hstop, hslice⟩ := h.placed p hp
      refine ⟨hstart, hstop, (slice_blit_of_disjoint _ (.inr ?_)).trans hslice⟩
      rw [length_bytes]
      exact hat.trans hstart
    case length_le =>
      rw [length_append, ← h.count]
      exact hi
    case count =>
      show s.i + 1 = _
      rw [length_append, h.count]
      rfl
    case offsets =>
      show _ = (List.range (s.i + 1)).map _
      rw [range_succ, map_append, map_singleton, load_store_self,
        show s.curLen % 256 ^ 4 = s.curLen from mod_eq_of_lt s.curLen_lt]
      refine congrArg (· ++ [s.curLen]) (h.offsets.trans (map_congr_left fun i hmem => ?_))
      refine (load_store_of_disjoint _ _ _ (.inl ?_)).symm
      have hlt : i < s.i := mem_range.mp hmem
      unfold offsetsAt
      omega

theorem put_eq {a : ℕ} {b : List UInt8} (h : a + b.length ≤ s.maxlen) :
    s.put a b = some (s.setBuf (s.buf.blit a b)) :=
  if_pos (.inr h)

theorem fill_eq {a n : ℕ} (h : a + n ≤ s.maxlen) :
    s.fill a n = some (s.setBuf (s.buf.blit a (replicate n 0))) :=
  if_pos (.inr h)

/-- The state with the bytes of a file and their padding at its end. -/
def read (s : State host) (bytes : List UInt8) : State host :=
  { s with
    buf := (s.buf.blit s.curLen bytes).blit (s.curLen + bytes.length)
      (replicate (padding 4 bytes.length) 0)
    opened := true }

theorem readFile_refused {file : InFile} (hle : s.curLen ≤ s.maxlen)
    (hend : file.error = true ∨ s.maxlen - s.curLen ≤ file.bytes.length) :
    s.readFile file = .leave .failure := by
  have hput := put_eq (s := s) (a := s.curLen)
    (b := file.bytes.take (s.maxlen - s.curLen)) (by rw [length_take]; omega)
  have hend' : (file.error || decide (s.maxlen - s.curLen ≤ file.bytes.length)) = true := by
    rwa [Bool.or_eq_true, decide_eq_true_iff]
  simp only [readFile, host.sub_eq hle s.maxlen_lt, hput, hend', if_true]

theorem readFile_read {file : InFile} (herror : file.error = false)
    (hshort : s.curLen + file.bytes.length < s.maxlen)
    (hpad : s.curLen + (file.bytes.length + padding 4 file.bytes.length) ≤ s.maxlen) :
    s.readFile file = .again ((s.read file.bytes).setCurLen
      (s.curLen + (file.bytes.length + padding 4 file.bytes.length))) := by
  have hsub : host.sub s.maxlen s.curLen = s.maxlen - s.curLen := host.sub_eq (by omega) s.maxlen_lt
  have htake : file.bytes.take (s.maxlen - s.curLen) = file.bytes := take_of_length_le (by omega)
  have hend : (file.error || decide (s.maxlen - s.curLen ≤ file.bytes.length)) = false := by
    rw [herror, Bool.false_or, decide_eq_false_iff_not]
    omega
  let s₁ := s.setBuf (s.buf.blit s.curLen file.bytes)
  have hfill := fill_eq (s := s₁) (a := s₁.curLen + file.bytes.length)
    (n := padding 4 file.bytes.length) ((Nat.add_assoc ..).trans_le hpad)
  simp only [readFile, hsub, htake, put_eq hshort.le, hend, Bool.false_eq_true, if_false]
  rw [hfill]
  rfl

theorem readFile_layout {starts : List ℕ} {file : InFile} (h : Layout s pl starts) (recorded : Bool)
    (hroom : s.curLen + file.bytes.length < s.maxlen →
      s.curLen + (file.bytes.length + padding 4 file.bytes.length) ≤ s.limit) :
    s.readFile file = .leave .failure
    ∨ ∃ s', s.readFile file = .again s'
      ∧ Layout s' (pl ++ [⟨⟨recorded, file.bytes⟩, s.curLen⟩]) starts
      ∧ s'.files = s.files ∧ s'.maxlen = s.maxlen := by
  by_cases hend : file.error = true ∨ s.maxlen - s.curLen ≤ file.bytes.length
  · exact .inl (readFile_refused h.le_maxlen hend)
  right
  simp only [not_or, Bool.not_eq_true, Nat.not_le] at hend
  have hlimit := hroom (by omega)
  have hcur : ((s.read file.bytes).setCurLen _).curLen = _ :=
    setCurLen_curLen (s := s.read _) hlimit
  refine ⟨_, readFile_read hend.1 (by omega) (hlimit.trans s.limit_le), ?_, rfl, rfl⟩
  refine h.place (Nat.le_refl _) ?_ ?_ ?_ (hcur.trans_le hlimit) rfl
  · rw [hcur]
    show s.curLen + file.bytes.length ≤ _
    omega
  · exact fun a _ ha => ((blit_of_outside _ (.inl (by omega))).trans
      (blit_of_outside _ (.inl ha))).symm
  · show slice (blit _ _ _) _ _ = _
    rw [slice_blit_of_disjoint _ (.inl (Nat.le_refl _)), slice_blit_self]

theorem fill_to_layout {starts : List ℕ} {n : ℕ} (h : Layout s pl starts) (hn : s.curLen ≤ n)
    (hlimit : n ≤ s.limit) (k : ℕ) :
    Layout ((s.setBuf (s.buf.blit s.curLen (replicate k 0))).setCurLen n) pl starts := by
  have hcur := setCurLen_curLen (s := s.setBuf (s.buf.blit s.curLen (replicate k 0))) hlimit
  refine h.grow (fun a _ ha => (blit_of_outside _ (.inl ha)).symm) (hn.trans_eq hcur.symm)
    (hcur.trans_le hlimit) rfl

variable (h : Layout s pl (recordedStarts pl))

include h

variable {optarg : String}

theorem addFile_keeps (append : Bool) (hi : append = false → s.i < 3) (hroom : s.HasRoom optarg) :
    Keeps pl (((s.files optarg).map fun file => ⟨!append, file.bytes⟩).toList) s.files s.maxlen
      (s.addFile append optarg) := by
  obtain ⟨s₁, hs₁, hlay, hcur, hmax, hfiles⟩ : ∃ s₁, (if append then some s else s.record) = some s₁
      ∧ Layout s₁ pl (recordedStarts pl ++ if append then [] else [s.curLen])
      ∧ s₁.curLen = s.curLen ∧ s₁.maxlen = s.maxlen ∧ s₁.files = s.files := by
    cases append with
    | true => exact ⟨s, rfl, by simpa using h, rfl, rfl, rfl⟩
    | false => exact record_layout h (hi rfl)
  cases hfile : s.files optarg with
  | none =>
    left
    simp only [addFile, hs₁, hfiles, hfile]
  | some file =>
    have hlimit : s₁.limit = s.limit := by rw [limit, limit, hmax]
    have hread : s.addFile append optarg = s₁.readFile file := by
      simp only [addFile, hs₁, hfiles, hfile]
    rw [hread]
    refine (readFile_layout hlay (!append) ?_).imp_right ?_
    · rw [hcur, hmax, hlimit]
      exact hroom file hfile
    · rintro ⟨s', hs', hlay', hfiles', hmax'⟩
      refine ⟨s', [⟨⟨!append, file.bytes⟩, s₁.curLen⟩], hs', rfl, ?_, hfiles'.trans hfiles,
        hmax'.trans hmax⟩
      rw [recordedStarts_append, hcur]
      rw [hcur] at hlay'
      cases append <;> exact hlay'

theorem setMaxlen_keeps (hfits : s.Fits (.m optarg)) :
    Keeps pl [] s.files ((Opt.m optarg).maxlenAfter host s.maxlen) (s.setMaxlen optarg) := by
  unfold setMaxlen
  split
  · exact .inl rfl
  rename_i n hn
  have hmax : (Opt.m optarg).maxlenAfter host s.maxlen = host.roundMaxlen n := by
    rw [Opt.maxlenAfter, hn, Option.map_some, Option.getD_some]
  rw [hmax]
  split_ifs with hle halloc
  · have hcur : s.curLen ≤ host.roundMaxlen n := hfits n hn hle
    refine Keeps.of_layout (h.grow ?_ (Nat.le_refl _) ?_ rfl)
    · intro a _ ha
      exact (if_pos (Nat.lt_min.mpr ⟨ha.trans_le h.le_maxlen, ha.trans_le hcur⟩)).symm
    · exact Nat.le_min.mpr ⟨hcur, h.le_limit.trans (Nat.min_le_right ..)⟩
  · exact .inl rfl
  · exact .inl rfl

theorem align_keeps (hfits : s.Fits (.a optarg)) :
    Keeps pl [] s.files s.maxlen (s.align optarg) := by
  unfold align
  split
  · exact .inl rfl
  rename_i n hn
  obtain ⟨hpos, hroom⟩ := hfits n hn
  have hword : n < host.word := host.strtoul_lt optarg n hn
  have hlow : s.curLen &&& (n - 1) ≤ n - 1 := and_le_right
  simp only [host.sub_eq hpos hword, host.sub_eq (hlow.trans (sub_le ..)) hword]
  split_ifs with hzero
  · exact Keeps.of_layout h
  · have hlimit := hroom hzero
    rw [fill_eq (hlimit.trans s.limit_le)]
    exact Keeps.of_layout (fill_to_layout h (Nat.le_add_right ..) hlimit _)

theorem moveTo_keeps (hfits : s.Fits (.b optarg)) :
    Keeps pl [] s.files s.maxlen (s.moveTo optarg) := by
  unfold moveTo
  split
  · exact .inl rfl
  rename_i n hn
  have hlimit : n ≤ s.limit := hfits n hn
  split_ifs with hlt
  · exact Keeps.of_layout h
  · have hle : s.curLen ≤ n := Nat.le_of_not_lt hlt
    rw [fill_eq ((Nat.add_sub_cancel' hle).trans_le (hlimit.trans s.limit_le))]
    exact Keeps.of_layout (fill_to_layout h hle hlimit _)

theorem step_keeps {opt : Opt} (hfits : s.Fits opt) :
    Keeps pl (opt.part s.files) (opt.filesAfter s.files) (opt.maxlenAfter host s.maxlen)
      (s.step opt) := by
  cases opt with
  | A optarg => exact addFile_keeps h true (fun hf => absurd hf (by decide)) hfits
  | f optarg => exact addFile_keeps h false (fun _ => hfits.1) hfits.2
  | arg optarg => exact addFile_keeps h false (fun _ => hfits.1) hfits.2
  | o optarg =>
    show Keeps _ _ _ _ (s.openOutput optarg)
    unfold openOutput
    split_ifs
    · let s' : State host := { s with files := Function.update s.files optarg (some ⟨[], false⟩) }
      have hsame : Layout s' pl (recordedStarts pl) :=
        h.grow (fun _ _ _ => rfl) (Nat.le_refl _) h.le_limit rfl
      exact Keeps.of_layout hsame
    · exact .inl rfl
  | m optarg => exact setMaxlen_keeps h hfits
  | a optarg => exact align_keeps h hfits
  | b optarg => exact moveTo_keeps h hfits
  | other => exact .inl rfl

end State

/-! ## The header, and the image -/

theorem field_slice {a : ℕ} (m : Bytes) {n : ℕ} (h : a + 4 ≤ n) :
    field (m.slice 0 n) a = m.load .little 4 a := by
  rw [field, ByteOrder.field, drop_slice _ _ (by omega), take_slice _ _ (by omega),
    Nat.zero_add, load]

namespace State

variable (s : State host)

theorem completeHeader_eqOn (crc : BitVec 32) (n : ℕ) :
    Memory.EqOn s.buf (s.completeHeader crc) flagVersionAt n := by
  intro a ha _
  have hcrc : crc32At + 4 ≤ a := ha
  have hlen : lenAt + 4 ≤ a := Nat.le_trans (by decide) ha
  rw [completeHeader, store_of_outside _ _ _ (.inr hlen), store_of_outside _ _ _ (.inr hcrc)]

theorem load_completeHeader_len (crc : BitVec 32) :
    (s.completeHeader crc).load .little 4 lenAt = s.curLen := by
  rw [completeHeader, load_store_self]
  exact mod_eq_of_lt s.curLen_lt

theorem load_completeHeader_crc (crc : BitVec 32) :
    (s.completeHeader crc).load .little 4 crc32At = crc.toNat := by
  rw [completeHeader, load_store_of_disjoint _ _ _ (.inr (by decide)), load_store_self]
  exact mod_eq_of_lt crc.isLt

end State

variable {s : State host}

variable (h : Layout s pl (recordedStarts pl))

include h

theorem Layout.isImage (hdvd : 0x1000 ∣ s.curLen) : IsImage (pl.map Placement.toPart) s.maxlen
    ((s.completeHeader (crc32buf (s.buf.slice flagVersionAt (s.curLen - flagVersionAt)))).slice 0
      s.curLen) := by
  generalize hcrc : crc32buf (s.buf.slice flagVersionAt (s.curLen - flagVersionAt)) = crc
  have hhead : 28 ≤ s.curLen := h.headerSize_le
  have hversion : flagVersionAt ≤ 28 := by decide
  have hkeep := s.completeHeader_eqOn crc s.curLen
  refine ⟨?_, ⟨pl, rfl, ?_, h.ordered, ?_⟩, ?_, ?_, ?_, ?_⟩
  · have hlen : ((pl.map Placement.toPart).filter (·.recorded)).length
        = (recordedStarts pl).length := by
      rw [filter_map, length_map, recordedStarts, length_map]
      rfl
    exact hlen.trans_le h.length_le
  · intro p hp
    obtain ⟨hstart, hstop, hslice⟩ := h.placed p hp
    have hfrom : 28 ≤ p.start := hstart
    have hto : p.start + p.bytes.length ≤ s.curLen := hstop
    refine ⟨hstart, hstop.trans_eq (length_slice ..).symm, ?_⟩
    rw [drop_slice _ _ (by omega), take_slice _ _ (by omega), Nat.zero_add,
      ← hkeep.slice_eq hto (Nat.le_trans (by decide) hfrom), hslice]
  · have hcount : (recordedStarts pl).length = s.i := h.count.symm
    rw [hcount]
    refine h.offsets.trans (map_congr_left fun i hi => ?_)
    have hat : offsetsAt i + 4 ≤ headerSize :=
      offsetsAt_lt ((mem_range.mp hi).trans_le (h.count ▸ h.length_le))
    rw [field_slice _ (hat.trans h.headerSize_le)]
    exact hkeep.load_eq _ (Nat.le_trans (by decide) (Nat.le_add_right 16 (4 * i)))
      (hat.trans h.headerSize_le)
  · rw [field_slice _ (by unfold lenAt; omega), s.load_completeHeader_len, length_slice]
  · rwa [length_slice]
  · rw [length_slice]
    exact h.le_maxlen
  · rw [field_slice _ (by unfold crc32At; omega), s.load_completeHeader_crc, ← crc32buf_eq,
      drop_slice _ _ (hversion.trans hhead), Nat.zero_add,
      ← hkeep.slice_eq (Nat.add_sub_cancel' (hversion.trans hhead)).le (Nat.le_refl _), hcrc]

theorem State.writeImage_image (hdvd : 0x1000 ∣ s.curLen) : s.writeImage = .failure
    ∨ ∃ out, s.writeImage = .success out ∧ IsImage (pl.map Placement.toPart) s.maxlen out := by
  have hversion : flagVersionAt ≤ s.curLen := Nat.le_trans (by decide) h.headerSize_le
  have hsub : host.sub s.curLen flagVersionAt = s.curLen - flagVersionAt :=
    host.sub_eq hversion (s.curLen_lt.trans_le host.two_pow_le_word)
  simp only [writeImage, hsub, Nat.add_sub_cancel' hversion, h.le_maxlen, if_true]
  split_ifs
  · exact .inr ⟨_, rfl, h.isImage hdvd⟩
  · exact .inl rfl

theorem State.finish_image : s.finish = .failure
    ∨ ∃ out, s.finish = .success out ∧ IsImage (pl.map Placement.toPart) s.maxlen out := by
  unfold finish
  split_ifs
  · have hlimit : s.curLen + padding 0x1000 s.curLen ≤ s.limit :=
      add_padding_le (by decide) s.dvd_limit h.le_limit
    have hlay := fill_to_layout h (Nat.le_add_right ..) hlimit (padding 0x1000 s.curLen)
    have hcur := setCurLen_curLen (s := s.setBuf (s.buf.blit s.curLen
      (replicate (padding 0x1000 s.curLen) 0))) hlimit
    have hdvd : 0x1000 ∣ s.curLen + padding 0x1000 s.curLen := dvd_add_padding (by decide) _
    rw [fill_eq (hlimit.trans s.limit_le)]
    exact writeImage_image hlay (Nat.dvd_trans hdvd hcur.symm.dvd)
  · exact .inl rfl

theorem State.options_image {opts : List Opt} (hfit : s.FitAll opts) : s.options opts = .failure
    ∨ ∃ out, s.options opts = .success out
      ∧ IsImage (pl.map Placement.toPart ++ parts s.files opts) (maxlenOf host s.maxlen opts)
        out := by
  induction opts generalizing s pl with
  | nil =>
    rw [parts, append_nil]
    exact finish_image h
  | cons opt opts ih =>
    obtain ⟨hopt, hrest⟩ := hfit
    rcases step_keeps h hopt with hfail | ⟨s', pl', hs', hnew, hlay, hfiles, hmax⟩
    · left
      simp only [options, hfail]
    · rw [hs'] at hrest
      rw [options_cons hs', parts, maxlenOf, ← hnew, ← hfiles, ← hmax, ← append_assoc, ← map_append]
      exact ih hlay hrest

omit h

theorem start_layout (host : Host) : Layout (start host) [] (recordedStarts []) where
  headerSize_le := Nat.le_refl _
  le_limit := show headerSize ≤ min trxMaxLen 0xfffff000 by decide
  placed _ hp := absurd hp not_mem_nil
  ordered := .nil
  length_le := by decide
  count := rfl
  offsets := rfl

/-- **The images of the tool are correct, when the options fit**: no run leaves
the buffer, and whatever is written is an image of the files of the command
line, in their order. -/
theorem main_isImage (host : Host) (opts : List Opt) (hfit : (start host).FitAll opts) :
    main host opts ≠ .undefined
      ∧ ∀ out, main host opts = .success out →
        IsImage (parts host.files opts) (maxlenOf host trxMaxLen opts) out := by
  have hrun : main host opts = .failure ∨ ∃ out, main host opts = .success out
      ∧ IsImage (parts host.files opts) (maxlenOf host trxMaxLen opts) out := by
    unfold main
    split_ifs
    · exact State.options_image (start_layout host) hfit
    · exact .inl rfl
  rcases hrun with hfail | ⟨out, hout, himage⟩
  · rw [hfail]
    exact ⟨nofun, nofun⟩
  · rw [hout]
    refine ⟨nofun, fun out' hout' => ?_⟩
    obtain rfl := Exit.success.inj hout'
    exact himage

/-- The numbers of the command lines below. -/
def exampleNumber (optarg : String) : Option ℕ :=
  if optarg = "0x2000" then some 0x2000
  else if optarg = "0x1000" then some 0x1000
  else if optarg = "64" then some 64
  else none

def exampleHost : Host where
  model := .lp64
  strtoul := exampleNumber
  strtoul_lt optarg n h := by
    unfold exampleNumber at h
    split_ifs at h <;> obtain rfl := Option.some.inj h <;> decide
  files name :=
    if name = "loader" then some ⟨[1, 2, 3, 4], false⟩
    else if name = "kernel" then some ⟨[5, 6, 7], false⟩
    else if name = "rootfs" then some ⟨[8], false⟩
    else none
  creates _ := true
  allocates _ := true
  heap _ _ := 0
  writes := true

/-- A command line with every kind of option. -/
def threeFiles : List Opt :=
  [.m "0x2000", .f "loader", .a "64", .A "kernel", .b "0x1000", .f "rootfs"]

theorem main_isImage_threeFiles : (start exampleHost).FitAll threeFiles
    ∧ ∃ out, main exampleHost threeFiles = .success out
      ∧ IsImage (parts exampleHost.files threeFiles) (maxlenOf exampleHost trxMaxLen threeFiles)
        out := by
  have hfit : (start exampleHost).FitAll threeFiles := by decide +kernel
  have hwrites : main exampleHost threeFiles ≠ .failure := by decide +kernel
  obtain ⟨hdefined, himage⟩ := main_isImage exampleHost threeFiles hfit
  refine ⟨hfit, ?_⟩
  cases hmain : main exampleHost threeFiles with
  | success out => exact ⟨out, rfl, himage out hmain⟩
  | failure => exact absurd hmain hwrites
  | undefined => exact absurd hmain hdefined

/-- Four files, all of them to be recorded. -/
def fourFiles : List Opt := [.f "loader", .f "kernel", .f "rootfs", .arg "kernel"]

/-- **The fourth recorded file destroys the first**: its offset is written
behind the offsets of the header, where the first file lies. -/
theorem main_fourFiles : ∃ out, main exampleHost fourFiles = .success out
    ∧ field out (offsetsAt 0) = 28 ∧ exampleHost.files "loader" = some ⟨[1, 2, 3, 4], false⟩
    ∧ (out.drop 28).take 4 = [40, 0, 0, 0]
    ∧ ¬ IsImage (parts exampleHost.files fourFiles) (maxlenOf exampleHost trxMaxLen fourFiles)
      out := by
  have hstart : main exampleHost fourFiles = (start exampleHost).options fourFiles := rfl
  refine ⟨_, hstart.trans <| (State.options_cons rfl _).trans <|
    (State.options_cons rfl _).trans <| (State.options_cons rfl _).trans <|
    (State.options_cons rfl _).trans rfl, ?_, rfl, ?_, ?_⟩
  · rw [field_slice _ (by decide)]
    decide
  · rw [drop_slice _ _ (by decide), take_slice _ _ (by decide)]
    decide
  · exact fun h => absurd h.recorded_le (by decide)

end Trx
