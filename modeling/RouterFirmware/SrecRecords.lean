import RouterFirmware.SrecProgram

/-!
# The records of srec2bin

The output of `srec2bin` for a valid file, and for which files it is the
program of the file (`Srec.preserved_iff`).
-/

namespace Srec

open List ByteOrder OutFile UInt32 Runs Nat

namespace Out

/-! ## How long the output is -/

/-- The file is at its end, and has a tag. -/
structure Writable (o : Out) : Prop where
  atEnd : o.fOut.AtEnd
  tag : 4 ≤ o.fOut.bytes.length

/-- The length of the output if it ended here. -/
def size (o : Out) : ℕ := o.fOut.bytes.length + if o.recStart then 4 else 0

variable {o : Out} (h : o.Writable)

include h

theorem Writable.binOut32 (data : UInt32) : (o.binOut32 data).Writable
    ∧ (o.binOut32 data).fOut.bytes
      = o.fOut.bytes ++ little.bytes 4 data.toNat := by
  have hwrite := write_end h.atEnd (little.bytes 4 data.toNat)
  have hbytes : (o.binOut32 data).fOut.bytes
      = o.fOut.bytes ++ ByteOrder.little.bytes 4 data.toNat := congrArg OutFile.bytes hwrite
  refine ⟨⟨write_end_atEnd h.atEnd _, ?_⟩, hbytes⟩
  rw [hbytes, length_append]
  exact le_add_right_of_le h.tag

theorem Writable.binRecEnd : o.binRecEnd.Writable ∧ o.binRecEnd.fOut.bytes.length = o.size
    ∧ o.binRecEnd.recStart = false ∧ o.binRecEnd.addressCurrent = o.addressCurrent := by
  unfold Out.binRecEnd size
  cases hstart : o.recStart with
  | false => exact ⟨h, rfl, hstart, rfl⟩
  | true =>
    have hend : o.fOut.pos = o.fOut.bytes.length := h.atEnd
    have htag := h.tag
    let f := (o.fOut.seek (o.fOut.pos - o.recLength.toNat - 4 - 4)).write
      (little.bytes 4 o.recLength.toNat)
    have hlen : f.bytes.length = o.fOut.bytes.length := by
      refine length_write_inside ?_
      rw [length_bytes]
      show o.fOut.pos - o.recLength.toNat - 4 - 4 + 4 ≤ o.fOut.bytes.length
      omega
    have hback : (f.seek o.fOut.pos).AtEnd := by
      show o.fOut.pos = f.bytes.length
      rw [hlen, hend]
    have hw : Writable { o with fOut := f.seek o.fOut.pos } := ⟨hback, hlen ▸ htag⟩
    obtain ⟨hw', hbytes⟩ := hw.binOut32 (~~~(o.checkSum + o.recLength) + 1)
    refine ⟨⟨hw'.atEnd, hw'.tag⟩, ?_, rfl, rfl⟩
    refine (congrArg length hbytes).trans ?_
    rw [length_append, length_bytes]
    exact congrArg (· + 4) hlen

theorem Writable.binRecStart (address : UInt32) : (o.binRecStart address).Writable
    ∧ (o.binRecStart address).fOut.bytes
      = o.fOut.bytes ++ (little.bytes 4 0 ++ little.bytes 4 address.toNat)
    ∧ (o.binRecStart address).addressCurrent = o.addressCurrent := by
  have hw : Writable { o with recLength := 0, checkSum := address, recStart := true } :=
    ⟨h.atEnd, h.tag⟩
  obtain ⟨hw₁, hbytes₁⟩ := hw.binOut32 0
  obtain ⟨hw₂, hbytes₂⟩ := hw₁.binOut32 address
  refine ⟨hw₂, ?_, rfl⟩
  refine hbytes₂.trans ?_
  rw [hbytes₁, append_assoc]
  rfl

theorem Writable.binRecAt (address : UInt32) : (o.binRecAt address).Writable
    ∧ (o.binRecAt address).size
      = o.size + 12 * (if address = o.addressCurrent + 1 then 0 else 1) := by
  unfold Out.binRecAt
  by_cases hfollows : address = o.addressCurrent + 1
  · rw [if_neg (not_not_intro hfollows), if_pos hfollows]
    exact ⟨⟨h.atEnd, h.tag⟩, rfl⟩
  · rw [if_pos hfollows, if_neg hfollows]
    obtain ⟨hend, hlen, -, -⟩ := h.binRecEnd
    obtain ⟨hstart, hbytes, -⟩ := hend.binRecStart address
    refine ⟨⟨hstart.atEnd, hstart.tag⟩, ?_⟩
    show (o.binRecEnd.binRecStart address).fOut.bytes.length + 4 = o.size + 12
    rw [hbytes, length_append, hlen, length_append, length_bytes, length_bytes]

theorem Writable.outAt (a : UInt32 × UInt8) : (o.outAt a).Writable
    ∧ (o.outAt a).size
      = o.size + 1 + 12 * (if a.1 = o.addressCurrent + 1 then 0 else 1)
    ∧ (o.outAt a).fOut.bytes = (o.binRecAt a.1).fOut.bytes ++ [a.2] := by
  obtain ⟨hat, hsize⟩ := h.binRecAt a.1
  have hwrite := write_end hat.atEnd [a.2]
  have hbytes : (o.outAt a).fOut.bytes = (o.binRecAt a.1).fOut.bytes ++ [a.2] :=
    congrArg OutFile.bytes hwrite
  refine ⟨⟨write_end_atEnd hat.atEnd _, ?_⟩, ?_, hbytes⟩
  · rw [hbytes, length_append]
    exact le_add_right_of_le hat.tag
  · have hrec : (o.outAt a).recStart = (o.binRecAt a.1).recStart := rfl
    rw [size, hbytes, hrec, length_append, length_singleton, add_right_comm, ← size,
      hsize, add_right_comm]

omit h

theorem foldl_outAt_size (as : List (UInt32 × UInt8)) {o : Out} (h : o.Writable)
    {p : UInt32 × UInt8} (hp : o.addressCurrent = p.1) : (as.foldl outAt o).Writable
    ∧ (as.foldl outAt o).size = o.size + as.length + 12 * breaks follows p as
    ∧ (as.foldl outAt o).addressCurrent = (as.getLastD p).1 := by
  induction as generalizing o p with
  | nil => exact ⟨h, rfl, hp⟩
  | cons a as ih =>
    obtain ⟨hw, hsize, -⟩ := h.outAt a
    obtain ⟨hw', hsize', hlast⟩ := ih hw (p := a) rfl
    refine ⟨hw', ?_, ?_⟩
    · have hfollows : (if follows p a then 0 else 1)
          = if a.1 = o.addressCurrent + 1 then 0 else 1 := by
        rw [hp]
        exact if_congr beq_iff_eq rfl rfl
      rw [foldl_cons, hsize', hsize, breaks, hfollows, length_cons]
      omega
    · rw [foldl_cons, hlast, getLastD_cons]

end Out

/-- An S3 record that fits into the line buffer. -/
def Record.Short (r : Record) : Prop := r.data.length ≤ 120

theorem assignments_cons (r : Record) (rs : List Record) :
    assignments (r :: rs) = r.assignments ++ assignments rs :=
  flatMap_cons

theorem feed_size (start : UInt32) (rs : List Record) {o : Out} (h : o.Writable)
    {p : UInt32 × UInt8} (hp : o.addressCurrent = p.1) : (feed start rs o).Writable
    ∧ ((feed start rs o).size
        ≤ o.size + (assignments rs).length + 12 * breaks follows p (assignments rs)
      ∨ (∀ r ∈ rs, r.Short) ∧ start ≠ ((assignments rs).getLastD p).1 + 1
        ∧ (feed start rs o).size
          = o.size + (assignments rs).length
            + 12 * (breaks follows p (assignments rs) + 1)) := by
  induction rs generalizing o p with
  | nil =>
    obtain ⟨hw, hsize⟩ := h.binRecAt start
    refine ⟨hw, ?_⟩
    by_cases hstart : start = o.addressCurrent + 1
    · rw [if_pos hstart] at hsize
      exact .inl (le_of_eq hsize)
    · rw [if_neg hstart] at hsize
      exact .inr ⟨fun r hr => absurd hr not_mem_nil, hp ▸ hstart, hsize⟩
  | cons r rs ih =>
    obtain ⟨hw, hsize, hlast⟩ := Out.foldl_outAt_size r.assignments h hp
    rw [assignments_cons, length_append, breaks_append, getLastD_append, feed]
    by_cases hshort : r.data.length ≤ 120
    · rw [if_pos hshort]
      have hw' : (r.assignments.foldl Out.outAt o).counted.Writable := ⟨hw.atEnd, hw.tag⟩
      have hsize' : (r.assignments.foldl Out.outAt o).counted.size
          = (r.assignments.foldl Out.outAt o).size := rfl
      obtain ⟨hwrite, hbound⟩ := ih hw' hlast
      rw [hsize', hsize] at hbound
      refine ⟨hwrite, ?_⟩
      rcases hbound with hle | ⟨hall, hstart, heq⟩
      · exact .inl (by omega)
      · refine .inr ⟨fun r' hr' => ?_, hstart, by omega⟩
        rcases mem_cons.mp hr' with rfl | hr'
        · exact hshort
        · exact hall r' hr'
    · rw [if_neg hshort]
      exact ⟨h, .inl (by omega)⟩

/-! ## Decoding needs a record for each run -/

structure Fits (rs : List Record) (start : UInt32) : Prop where
  short : ∀ r ∈ rs, r.Short
  first : ∀ a ∈ (assignments rs).head?, a.1 ≠ 0
  start : start ≠ ((assignments rs).getLastD (0xFFFFFFFF, 0)).1 + 1
  runs : ∀ run ∈ (assignments rs).splitBy follows, run.length < 2 ^ 32

/-- **The output says the program of the input.** -/
def Preserved (output : List UInt8) (rs : List Record) (start : UInt32) : Prop :=
  ∃ decoded, decode output.length (output.drop 4) = some decoded
    ∧ assignments decoded = assignments rs ∧ starts decoded = [start]

def withData (rs : List Record) : List Record := rs.filter (fun r => !r.data.isEmpty)

theorem length_withData_add_starts (rs : List Record) :
    (withData rs).length + (starts rs).length = rs.length := by
  induction rs with
  | nil => rfl
  | cons r rs ih =>
    obtain ⟨address, data⟩ := r
    rw [length_cons, ← ih]
    cases data with
    | nil => rfl
    | cons b data => exact succ_add ..

theorem flatten_withData (rs : List Record) :
    ((withData rs).map Record.assignments).flatten = assignments rs := by
  induction rs with
  | nil => rfl
  | cons r rs ih =>
    obtain ⟨address, data⟩ := r
    rw [assignments_cons, ← ih]
    cases data with
    | nil => rfl
    | cons b data => rfl

theorem runs_of_decoded {decoded : List Record} {start : UInt32}
    (hstarts : starts decoded = [start]) (hlen : ∀ r ∈ decoded, r.data.length < 2 ^ 32) :
    ((assignments decoded).splitBy follows).length + 1 ≤ decoded.length
      ∧ (decoded.length ≤ ((assignments decoded).splitBy follows).length + 1 →
        ∀ run ∈ (assignments decoded).splitBy follows, run.length < 2 ^ 32) := by
  have hcount := length_withData_add_starts decoded
  rw [hstarts, length_singleton] at hcount
  have hne : [] ∉ (withData decoded).map Record.assignments := by
    intro h
    obtain ⟨r, hr, hnil⟩ := mem_map.mp h
    have hdata := (mem_filter.mp hr).2
    have hzero : r.data.length = 0 := by
      rw [← length_place r.address, ← Record.assignments, hnil, length_nil]
    rw [eq_nil_of_length_eq_zero hzero] at hdata
    cases hdata
  have hchain : ∀ run ∈ (withData decoded).map Record.assignments,
      run.IsChain fun x y => follows x y := by
    intro run h
    obtain ⟨r, -, rfl⟩ := mem_map.mp h
    exact isChain_place r.address r.data
  obtain ⟨hle, heq⟩ := splitBy_shortest hne hchain
  rw [flatten_withData, length_map] at hle heq
  refine ⟨by omega, fun h run hrun => ?_⟩
  rw [heq (by omega)] at hrun
  obtain ⟨r, hr, rfl⟩ := mem_map.mp hrun
  rw [Record.assignments, length_place]
  exact hlen r (mem_of_mem_filter hr)

theorem breaks_le_runs (as : List (UInt32 × UInt8)) :
    breaks follows (0xFFFFFFFF, 0) as ≤ (as.splitBy follows).length
      ∧ ((as.splitBy follows).length ≤ breaks follows (0xFFFFFFFF, 0) as →
        ∀ a ∈ as.head?, a.1 ≠ 0) := by
  cases as with
  | nil => exact ⟨le_refl _, fun _ a ha => nomatch ha⟩
  | cons a as =>
    rw [length_splitBy_cons, breaks]
    by_cases hfollows : follows (0xFFFFFFFF, 0) a
    · rw [if_pos hfollows]
      exact ⟨by omega, fun h => absurd h (by omega)⟩
    · rw [if_neg hfollows]
      refine ⟨by omega, fun _ b hb => ?_⟩
      cases hb
      intro hzero
      exact hfollows (by rw [follows, hzero]; rfl)

/-! ## The records that are written -/

/-- **A record is open** behind others that have ended. -/
structure Streaming (tag : List UInt8) (o : Out) (closed : List Record) (r : Record) : Prop where
  recStart : o.recStart = true
  recLength : o.recLength = .ofNat r.data.length
  checkSum : o.checkSum = r.address + sumBytes r.data
  bytes : (∀ c ∈ closed, c.data.length < 2 ^ 32) →
    o.fOut.bytes = tag ++ closed.flatMap Record.bytes
      ++ (little.bytes 4 0 ++ (little.bytes 4 r.address.toNat ++ r.data))

def Ended (tag : List UInt8) (o : Out) (cs : List Record) : Prop :=
  (∀ c ∈ cs, c.data.length < 2 ^ 32) →
    o.binRecEnd.fOut.bytes = tag ++ cs.flatMap Record.bytes

variable {as : List (UInt32 × UInt8)} {tag : List UInt8}

section Streaming

theorem Streaming.ended {o : Out} {closed : List Record} {r : Record}
    (h : Streaming tag o closed r) (hw : o.Writable) : Ended tag o (closed ++ [r]) := by
  intro hall
  have hr : r.data.length < 2 ^ 32 := hall r (mem_append_right _ mem_cons_self)
  have hbytes := h.bytes fun c hc => hall c (mem_append_left _ hc)
  have hlen : o.recLength.toNat = r.data.length := by
    rw [h.recLength, toNat_ofNat_of_lt' hr]
  have hend : o.fOut.pos = o.fOut.bytes.length := hw.atEnd
  have hpos : o.fOut.pos - o.recLength.toNat - 4 - 4
      = (tag ++ closed.flatMap Record.bytes).length := by
    rw [hend, hbytes, hlen]
    simp only [length_append, length_bytes]
    omega
  let f := (o.fOut.seek (o.fOut.pos - o.recLength.toNat - 4 - 4)).write
    (little.bytes 4 o.recLength.toNat)
  have hf : f.bytes = tag ++ closed.flatMap Record.bytes
      ++ little.bytes 4 o.recLength.toNat
      ++ (little.bytes 4 r.address.toNat ++ r.data) := by
    refine write_inside (b := little.bytes 4 0) ?_ hpos ?_
    · exact hbytes.trans (append_assoc ..).symm
    · rw [length_bytes, length_bytes]
  have hback : (f.seek o.fOut.pos).AtEnd := by
    show o.fOut.pos = f.bytes.length
    rw [hend, hf, hbytes]
    simp only [length_append, length_bytes]
    omega
  have hcheck : ~~~(o.checkSum + o.recLength) + 1
      = (0 - (.ofNat r.data.length + r.address + sumBytes r.data) : UInt32) := by
    rw [h.checkSum, h.recLength, UInt32.zero_sub, neg_eq_not_add, UInt32.add_comm,
      UInt32.add_comm (r.address + _), ← UInt32.add_assoc, UInt32.add_comm 1]
  have hwrite := write_end hback (little.bytes 4 (~~~(o.checkSum + o.recLength) + 1).toNat)
  unfold Out.binRecEnd
  rw [if_pos h.recStart]
  refine (congrArg OutFile.bytes hwrite).trans ?_
  show f.bytes ++ _ = _
  rw [hf, hcheck, hlen, flatMap_append, flatMap_singleton, Record.bytes]
  simp only [append_assoc]

theorem Streaming.start {o : Out} {closed : List Record} (hw : o.Writable)
    (hbytes : (∀ c ∈ closed, c.data.length < 2 ^ 32) →
      o.fOut.bytes = tag ++ closed.flatMap Record.bytes)
    (address : UInt32) : Streaming tag (o.binRecStart address) closed ⟨address, []⟩ where
  recStart := rfl
  recLength := rfl
  checkSum := (UInt32.add_zero address).symm
  bytes h := by
    rw [(hw.binRecStart address).2.1, hbytes h, append_nil]

theorem sumBytes_snoc (data : List UInt8) (b : UInt8) :
    sumBytes (data ++ [b]) = sumBytes data + b.toUInt32 := by
  rw [sumBytes, foldl_append]
  rfl

theorem Streaming.out {o : Out} {closed : List Record} {r : Record}
    (h : Streaming tag o closed r) (hw : o.Writable) (b : UInt8) :
    Streaming tag (({ o with checkSum := o.checkSum + b.toUInt32 } : Out).binOut8 b) closed
      ⟨r.address, r.data ++ [b]⟩ where
  recStart := h.recStart
  recLength := by
    show o.recLength + 1 = _
    rw [h.recLength, length_append, ofNat_add]
    rfl
  checkSum := by
    show o.checkSum + b.toUInt32 = _
    rw [h.checkSum, sumBytes_snoc, UInt32.add_assoc]
  bytes hc := by
    refine (congrArg OutFile.bytes (OutFile.write_end hw.atEnd [b])).trans ?_
    show o.fOut.bytes ++ [b] = _
    rw [h.bytes hc]
    simp only [append_assoc]

end Streaming

/-- **What has been written** for the bytes so far. -/
structure Written (tag : List UInt8) (o : Out) (as : List (UInt32 × UInt8)) : Prop where
  writable : o.Writable
  current : o.addressCurrent = (as.getLastD (0xFFFFFFFF, 0)).1
  records : as = [] ∧ o.recStart = false ∧ o.fOut.bytes = tag
    ∨ ∃ closed r, as.splitBy follows = closed.map Record.assignments ++ [r.assignments]
      ∧ Streaming tag o closed r

theorem Written.ended {o : Out} (h : Written tag o as) :
    ∃ cs, as.splitBy follows = cs.map Record.assignments ∧ Ended tag o cs := by
  rcases h.records with ⟨rfl, hstart, hbytes⟩ | ⟨closed, r, hsplit, hs⟩
  · refine ⟨[], rfl, fun _ => ?_⟩
    rw [Out.binRecEnd, hstart, flatMap_nil, append_nil]
    exact hbytes
  · exact ⟨closed ++ [r], by rw [hsplit, map_append]; rfl, hs.ended h.writable⟩

theorem address_behind {address : UInt32} {data : List UInt8} {x : UInt32 × UInt8}
    (hx : x ∈ (place address data).getLast?) : x.1 + 1 = address + .ofNat data.length := by
  rcases eq_nil_or_concat data with rfl | ⟨init, d, rfl⟩
  · cases hx
  · rw [concat_eq_append, place_append] at hx
    rw [show place (address + .ofNat init.length) [d]
        = [(address + .ofNat init.length, d)] from rfl, getLast?_concat] at hx
    cases hx
    rw [List.concat_eq_append, List.length_append, UInt32.ofNat_add, ← UInt32.add_assoc]
    rfl

theorem Written.outAt {o : Out}
    (h : Written tag o as) {a : UInt32 × UInt8} (hfirst : as = [] → a.1 ≠ 0) :
    Written tag (o.outAt a) (as ++ [a]) := by
  have hlast (x : UInt32 × UInt8) (hx : x ∈ as.getLast?) : x.1 = o.addressCurrent := by
    rw [h.current, getLastD_eq_getLast?, hx]
    rfl
  have hw := h.writable
  have hcurrent : (o.outAt a).addressCurrent = ((as ++ [a]).getLastD (0xFFFFFFFF, 0)).1 := by
    rw [getLastD_append]
    rfl
  refine ⟨(hw.outAt a).1, hcurrent, .inr ?_⟩
  have hat := (hw.binRecAt a.1).1
  by_cases hfollows : a.1 = o.addressCurrent + 1
  · -- the byte goes into the open record, and joins the last run
    rcases h.records with ⟨rfl, -, -⟩ | ⟨closed, r, hsplit, hs⟩
    · rw [h.current] at hfollows
      exact absurd hfollows (hfirst rfl)
    · have hflat : as = (closed.map Record.assignments).flatten ++ r.assignments := by
        rw [← flatten_splitBy follows as, hsplit, flatten_append, flatten_singleton]
      have hrun (x : UInt32 × UInt8) (hx : x ∈ r.assignments.getLast?) : follows x a := by
        have hxas : x ∈ as.getLast? := by
          rw [hflat, getLast?_append, hx]
          rfl
        rw [follows, hlast x hxas, hfollows]
        exact beq_self_eq_true _
      have hr : r.assignments ≠ [] := by
        refine ne_nil_of_mem_splitBy (r := follows) (l := as) ?_
        rw [hsplit]
        exact mem_append_right _ mem_cons_self
      have hgrown : r.assignments ++ [a] = Record.assignments ⟨r.address, r.data ++ [a.2]⟩ := by
        obtain ⟨x, hx⟩ : ∃ x, r.assignments.getLast? = some x := ⟨_, getLast?_eq_some_getLast hr⟩
        have hbehind := address_behind hx
        have hxas : x ∈ as.getLast? := by
          rw [hflat, getLast?_append, hx]
          rfl
        rw [hlast x hxas, ← hfollows] at hbehind
        show _ = place r.address (r.data ++ [a.2])
        rw [place_append, ← hbehind]
        rfl
      have hat' : o.binRecAt a.1 = { o with addressCurrent := a.1 } := by
        rw [Out.binRecAt, if_neg (not_not_intro hfollows)]
      have hs' : Streaming tag (o.binRecAt a.1) closed r := by
        rw [hat']
        exact ⟨hs.recStart, hs.recLength, hs.checkSum, hs.bytes⟩
      refine ⟨closed, ⟨r.address, r.data ++ [a.2]⟩, ?_, hs'.out hat a.2⟩
      rw [← hgrown]
      exact splitBy_snoc_related hsplit hrun
  · -- a record ends and another one begins, as the runs do
    obtain ⟨cs, hsplit, hended⟩ := h.ended
    have hat' : o.binRecAt a.1
        = { (o.binRecEnd.binRecStart a.1) with addressCurrent := a.1 } := by
      rw [Out.binRecAt, if_pos hfollows]
    have hs := Streaming.start hw.binRecEnd.1 hended a.1
    have hs' : Streaming tag (o.binRecAt a.1) cs ⟨a.1, []⟩ := by
      rw [hat']
      exact ⟨hs.recStart, hs.recLength, hs.checkSum, hs.bytes⟩
    refine ⟨cs, ⟨a.1, [a.2]⟩, ?_, hs'.out hat a.2⟩
    rw [splitBy_append_cons, hsplit]
    · rfl
    · intro x hx
      rw [follows, hlast x hx]
      exact beq_eq_false_iff_ne.mpr hfollows

theorem Written.foldl (bs : List (UInt32 × UInt8)) {o : Out}
    (h : Written tag o as) (hfirst : ∀ a ∈ (as ++ bs).head?, a.1 ≠ 0) :
    Written tag (bs.foldl Out.outAt o) (as ++ bs) := by
  induction bs generalizing o as with
  | nil => exact (append_nil as).symm ▸ h
  | cons b bs ih =>
    have hsplit : as ++ b :: bs = as ++ [b] ++ bs := by rw [append_assoc]; rfl
    rw [hsplit] at hfirst ⊢
    refine ih (h.outAt ?_) hfirst
    rintro rfl
    exact hfirst b rfl

theorem feed_written (start : UInt32) (rs : List Record) {o : Out}
    (h : Written tag o as) (hshort : ∀ r ∈ rs, r.Short)
    (hfirst : ∀ a ∈ (as ++ assignments rs).head?, a.1 ≠ 0) :
    ∃ o', feed start rs o = o'.binRecOutProgramStart start
      ∧ Written tag o' (as ++ assignments rs) := by
  induction rs generalizing o as with
  | nil => exact ⟨o, rfl, (append_nil as).symm ▸ h⟩
  | cons r rs ih =>
    rw [assignments_cons, ← append_assoc] at hfirst ⊢
    have hw : Written tag (r.assignments.foldl Out.outAt o) (as ++ r.assignments) := by
      refine h.foldl _ fun a ha => hfirst a ?_
      rw [head?_append, ha]
      rfl
    have hcounted : Written tag (r.assignments.foldl Out.outAt o).counted (as ++ r.assignments) :=
      ⟨⟨hw.writable.atEnd, hw.writable.tag⟩, hw.current, hw.records.imp id fun ⟨closed, r', hsplit,
      hs⟩ => ⟨closed, r', hsplit, ⟨hs.recStart, hs.recLength, hs.checkSum, hs.bytes⟩⟩⟩
    have hr : r.data.length ≤ 120 := hshort r mem_cons_self
    rw [feed, if_pos hr]
    exact ih hcounted (fun r' hr' => hshort r' (mem_cons_of_mem r hr')) hfirst

theorem Written.programStart {o : Out}
    (h : Written tag o as) {start : UInt32} (hstart : start ≠ o.addressCurrent + 1) :
    ∃ cs, as.splitBy follows = cs.map Record.assignments
      ∧ Ended tag (o.binRecOutProgramStart start) (cs ++ [⟨start, []⟩]) := by
  obtain ⟨cs, hsplit, hended⟩ := h.ended
  have hat : o.binRecOutProgramStart start
      = { (o.binRecEnd.binRecStart start) with addressCurrent := start } := by
    rw [Out.binRecOutProgramStart, Out.binRecAt, if_pos hstart]
  have hs := Streaming.start h.writable.binRecEnd.1 hended start
  have hs' : Streaming tag (o.binRecOutProgramStart start) cs ⟨start, []⟩ := by
    rw [hat]
    exact ⟨hs.recStart, hs.recLength, hs.checkSum, hs.bytes⟩
  exact ⟨cs, hsplit, hs'.ended (h.writable.binRecAt start).1⟩

/-! ## The result -/

def tagBytes (bigEndian : Bool) : List UInt8 :=
  little.bytes 4 (if bigEndian then 0xDEADBE42 else 0xFEEDFA42 : UInt32).toNat

theorem start_written (bigEndian : Bool) : Written (tagBytes bigEndian) (.start bigEndian) [] := by
  have hbytes : (Out.start bigEndian).fOut.bytes = tagBytes bigEndian :=
    congrArg OutFile.bytes (OutFile.write_end OutFile.empty_atEnd _)
  refine ⟨⟨write_end_atEnd empty_atEnd _, ?_⟩, rfl, .inl ⟨rfl, rfl, hbytes⟩⟩
  rw [hbytes, tagBytes, length_bytes]

theorem srec2bin_eq {input : List UInt8} {rs : List Record} {start : UInt32}
    (h : ValidFile input rs start) (bigEndian : Bool) :
    srec2bin bigEndian input = (feed start rs (.start bigEndian)).binRecEnd.fOut.bytes := by
  rw [srec2bin, processLines_eq h (le_succ _)]

theorem preserved_of_fits {input : List UInt8} {rs : List Record} {start : UInt32}
    (h : ValidFile input rs start) (hfits : Fits rs start) (bigEndian : Bool) :
    Preserved (srec2bin bigEndian input) rs start := by
  obtain ⟨o, hfeed, hw⟩ := feed_written start rs (start_written bigEndian) hfits.short
    (by rw [nil_append]; exact hfits.first)
  rw [nil_append] at hw
  obtain ⟨cs, hsplit, hended⟩ := hw.programStart (hw.current ▸ hfits.start)
  have hlen (c : Record) (hc : c ∈ cs) : 0 < c.data.length ∧ c.data.length < 2 ^ 32 := by
    have hrun : c.assignments ∈ (assignments rs).splitBy follows := by
      rw [hsplit]
      exact mem_map_of_mem hc
    have hne := length_pos_iff.mpr (ne_nil_of_mem_splitBy hrun)
    have hlt := hfits.runs _ hrun
    rw [Record.assignments, length_place] at hne hlt
    exact ⟨hne, hlt⟩
  have hall (c : Record) (hc : c ∈ cs ++ [⟨start, []⟩]) : c.data.length < 2 ^ 32 := by
    rcases mem_append.mp hc with hc | hc
    · exact (hlen c hc).2
    · rw [mem_singleton.mp hc]
      exact Nat.two_pow_pos 32
  have hbytes := hended hall
  rw [← hfeed, ← srec2bin_eq h] at hbytes
  have htag : (tagBytes bigEndian).length = 4 := length_bytes ..
  refine ⟨cs ++ [⟨start, []⟩], ?_, ?_, ?_⟩
  · rw [hbytes, drop_left' htag]
    refine decode_bytes hall ?_
    have hcount (ds : List Record) : ds.length ≤ (ds.flatMap Record.bytes).length := by
      induction ds with
      | nil => exact le_refl _
      | cons d ds ih =>
        rw [flatMap_cons, length_append, Record.length_bytes, length_cons]
        omega
    exact (hcount _).trans (length_append ▸ Nat.le_add_left ..)
  · have hcs : assignments cs = assignments rs := by
      rw [assignments, flatMap_def, ← hsplit, flatten_splitBy]
    rw [assignments, flatMap_append, ← assignments, hcs]
    exact append_nil _
  · have hnone : cs.filter (·.data.isEmpty) = [] := by
      refine filter_eq_nil_iff.mpr fun c hc hempty => ?_
      have hpos := (hlen c hc).1
      rw [isEmpty_iff.mp hempty] at hpos
      exact absurd hpos (lt_irrefl 0)
    rw [starts, filter_append, hnone]
    rfl

theorem fits_of_preserved {input : List UInt8} {rs : List Record} {start : UInt32}
    (h : ValidFile input rs start) {bigEndian : Bool}
    (hp : Preserved (srec2bin bigEndian input) rs start) : Fits rs start := by
  obtain ⟨decoded, hdecode, hassign, hstarts⟩ := hp
  have hw := start_written bigEndian
  have hstart : (Out.start bigEndian).size = 4 := by
    rcases hw.records with ⟨-, hrec, hbytes⟩ | ⟨closed, r, hsplit, -⟩
    · rw [Out.size, hrec, hbytes, tagBytes, length_bytes]
      rfl
    · exact absurd hsplit.symm (append_ne_nil_of_right_ne_nil _ (cons_ne_nil _ _))
  have hcurrent : (Out.start bigEndian).addressCurrent = ((0xFFFFFFFF, 0) : UInt32 × UInt8).1 := rfl
  obtain ⟨hfeed, hsize⟩ := feed_size start rs hw.writable hcurrent
  obtain ⟨-, hlen, -, -⟩ := hfeed.binRecEnd
  rw [← srec2bin_eq h] at hlen
  obtain ⟨hdecoded, hall⟩ := length_of_decode hdecode
  rw [length_drop, hassign] at hdecoded
  obtain ⟨hneed, hruns⟩ := runs_of_decoded hstarts hall
  rw [hassign] at hneed hruns
  obtain ⟨hbreaks, hfirst⟩ := breaks_le_runs (assignments rs)
  rw [hstart] at hsize
  rcases hsize with hsize | ⟨hshort, hnext, hsize⟩
  · omega
  · exact {
      short := hshort
      first := hfirst (by omega)
      start := hnext
      runs := hruns (by omega) }

/-! ### Two files -/

/-- The line `S307000000100102E5`: two bytes at address 16. -/
def lineAt16 : List UInt8 :=
  map Char.toUInt8
    ['S', '3', '0', '7', '0', '0', '0', '0', '0', '0', '1', '0', '0', '1', '0', '2', 'E', '5']

/-- The line `S307000000000102F5`: two bytes at address 0. -/
def lineAt0 : List UInt8 :=
  map Char.toUInt8
    ['S', '3', '0', '7', '0', '0', '0', '0', '0', '0', '0', '0', '0', '1', '0', '2', 'F', '5']

/-- The line `S70500000100F9`: the start address is 256. -/
def lineStart : List UInt8 :=
  map Char.toUInt8
    ['S', '7', '0', '5', '0', '0', '0', '0', '0', '1', '0', '0', 'F', '9']

theorem validFile_lineAt16 :
    ValidFile (lineAt16 ++ ([10] ++ (lineStart ++ [10]))) [⟨16, [1, 2]⟩] 256 :=
  .data ⟨by decide, _, 0xE5, rfl, by decide, by decide⟩ mem_cons_self
    (.start ⟨by decide, _, 0xF9, rfl, by decide, by decide⟩ (by decide))

theorem validFile_lineAt0 :
    ValidFile (lineAt0 ++ ([10] ++ (lineStart ++ [10]))) [⟨0, [1, 2]⟩] 256 :=
  .data ⟨by decide, _, 0xF5, rfl, by decide, by decide⟩ mem_cons_self
    (.start ⟨by decide, _, 0xF9, rfl, by decide, by decide⟩ (by decide))

/-! ### All files -/

/-- **The program is preserved exactly if the file fits.** -/
theorem preserved_iff {input : List UInt8} {rs : List Record} {start : UInt32}
    (h : ValidFile input rs start) (bigEndian : Bool) :
    Preserved (srec2bin bigEndian input) rs start ↔ Fits rs start :=
  ⟨fits_of_preserved h, fun hfits => preserved_of_fits h hfits bigEndian⟩

theorem preserved_lineAt16 :
    Preserved (srec2bin false (lineAt16 ++ ([10] ++ (lineStart ++ [10])))) [⟨16, [1, 2]⟩] 256 := by
  refine (preserved_iff validFile_lineAt16 false).mpr ⟨?_, ?_, by decide, ?_⟩
  · intro r hr
    rw [mem_singleton.mp hr]
    show 2 ≤ 120
    decide
  · intro a ha
    cases ha
    decide
  · decide

/-- **A byte at address 0**: the tool begins no record for it, and its output
cannot be decoded. -/
theorem not_preserved_lineAt0 :
    ValidFile (lineAt0 ++ ([10] ++ (lineStart ++ [10]))) [⟨0, [1, 2]⟩] 256
      ∧ ¬ Preserved (srec2bin false (lineAt0 ++ ([10] ++ (lineStart ++ [10])))) [⟨0, [1, 2]⟩]
        256 := by
  refine ⟨validFile_lineAt0, fun h => ?_⟩
  exact (fits_of_preserved validFile_lineAt0 h).first (0, 1) rfl rfl

end Srec
