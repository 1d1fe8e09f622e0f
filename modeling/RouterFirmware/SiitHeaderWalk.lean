import RouterFirmware.SiitIp6Ip4

/-!
# Extension headers and the end of the packet

The extension headers of a packet form a chain: each gives the type of the next
one and, but for the fragment header, its own length.
-/

namespace Siit

open Ipv6hdr Walk

variable {src : Bytes} {s : ℕ} {w : Walk}

/-! ## The chain of headers -/

variable (src s) in
def extLen (pos : ℕ) (type : UInt8) : Option ℕ :=
  if type = nexthdrDest then some (optionLen (src (s + pos + 1)))
  else if type = nexthdrRouting ∧ src (s + pos + 3) = 0 then
    some (optionLen (src (s + pos + 1)))
  else if type = nexthdrFragment then some 8
  else none

variable {type : UInt8}

theorem extLen_pos {pos n : ℕ} (h : extLen src s pos type = some n) : 0 < n := by
  have := le_optionLen (src (s + pos + 1))
  unfold extLen at h
  split_ifs at h <;> cases h <;> omega

/-- **The chain of extension headers** behind the hop-by-hop header. -/
inductive HeaderAt (src : Bytes) (s len : ℕ) : ℕ → UInt8 → Prop
  /-- The header behind the IPv6 header, if there is anything. -/
  | first (h : (read src s).nexthdr ≠ nexthdrHop) (hlen : 40 < len) :
      HeaderAt src s len 40 (read src s).nexthdr
  /-- The header behind the hop-by-hop header. -/
  | hop (h : (read src s).nexthdr = nexthdrHop)
      (hlen : 40 + optionLen (src (s + 41)) < len) :
      HeaderAt src s len (40 + optionLen (src (s + 41))) (src (s + 40))
  /-- The header behind one that lies inside the packet. -/
  | next {pos n : ℕ} {type : UInt8} (h : HeaderAt src s len pos type)
      (hext : extLen src s pos type = some n) (hlen : pos + n ≤ len) :
      HeaderAt src s len (pos + n) (src (s + pos))

/-! ## One turn -/

variable {len : ℕ}

structure Walk.Inside (len : ℕ) (w : Walk) : Prop where
  nonneg : 0 ≤ w.lenDelta
  total : (w.pos : ℤ) + w.lenDelta = len
  headers : ∀ h ∈ w.headers, h.1 + h.2 ≤ len

/-- **A header was passed**, of `n` bytes and with the type of the next. -/
structure Walk.Passes (n : ℕ) (type : UInt8) (w w' : Walk) : Prop where
  pos : w'.pos = w.pos + n
  nextHdr : w'.nextHdr = type
  lenDelta : w'.lenDelta = w.lenDelta - n
  headers : w'.headers = (w.pos, n) :: w.headers

theorem Walk.passes_pass (w : Walk) (n : ℕ) (type : UInt8) :
    Walk.Passes n type w ((w.take n).pass n type) :=
  ⟨(Nat.add_assoc ..).symm, rfl, rfl, rfl⟩

theorem Walk.Passes.inside {n : ℕ} {w' : Walk} (h : Walk.Passes n type w w')
    (hw : w.Inside len) (hfit : (n : ℤ) ≤ w.lenDelta) : w'.Inside len := by
  have htotal := hw.total
  refine ⟨?_, ?_, ?_⟩
  · rw [h.lenDelta]
    omega
  · rw [h.pos, h.lenDelta]
    omega
  · rw [h.headers]
    intro header hmem
    rcases List.mem_cons.mp hmem with rfl | hmem
    · show w.pos + n ≤ len
      omega
    · exact hw.headers header hmem

theorem optionLen_le (hdrlen : UInt8) : optionLen hdrlen ≤ 2048 := by
  have := hdrlen.toNat_lt
  rw [optionLen]
  omega

theorem intMin_le : intMin ≤ -2048 := by decide

theorem walkTurn_dest (hd : w.nextHdr = nexthdrDest) : walkTurn src s w
    = if w.lenDelta - optionLen (src (s + w.pos + 1)) < intMin then .leave (.error .overflow)
      else if 0 ≤ w.lenDelta - optionLen (src (s + w.pos + 1)) then
        .again ((w.take (optionLen (src (s + w.pos + 1)))).pass
          (optionLen (src (s + w.pos + 1))) (src (s + w.pos)))
      else .again (w.take (optionLen (src (s + w.pos + 1)))) := by
  rw [walkTurn, if_neg (by rw [hd]; decide), if_pos hd]

theorem walkTurn_routing (hr : w.nextHdr = nexthdrRouting) (hseg : src (s + w.pos + 3) = 0) :
    walkTurn src s w
      = if w.lenDelta - optionLen (src (s + w.pos + 1)) < intMin then .leave (.error .overflow)
        else if 0 ≤ w.lenDelta - optionLen (src (s + w.pos + 1)) then
          .again ((w.take (optionLen (src (s + w.pos + 1)))).pass
            (optionLen (src (s + w.pos + 1))) (src (s + w.pos)))
        else .leave (.error .dropped) := by
  rw [walkTurn, if_neg (by rw [hr]; decide), if_neg (by rw [hr]; decide), if_pos hr,
    if_neg (not_not.mpr hseg)]

theorem walkTurn_fragment (hf : w.nextHdr = nexthdrFragment) : walkTurn src s w
    = if w.lenDelta - 8 < intMin then .leave (.error .overflow)
      else if 0 ≤ w.lenDelta - 8 then
        .again { (w.take 8).pass 8 (src (s + w.pos)) with
          id := (FragHdr.read src (s + w.pos)).identification.toUInt16
          fragOff := ((FragHdr.read src (s + w.pos)).fragOff &&& 0xfff8) >>> 3
            ||| ((FragHdr.read src (s + w.pos)).fragOff &&& 1) <<< 13 }
      else .leave (.error .dropped) := by
  rw [walkTurn, if_neg (by rw [hf]; decide), if_neg (by rw [hf]; decide),
    if_neg (by rw [hf]; decide), if_pos hf]
  rfl

theorem walkTurn_of_fits {n : ℕ} (hext : extLen src s w.pos w.nextHdr = some n)
    (hfit : (n : ℤ) ≤ w.lenDelta) :
    ∃ w', walkTurn src s w = .again w' ∧ Walk.Passes n (src (s + w.pos)) w w' := by
  have hmin := intMin_le
  unfold extLen at hext
  split_ifs at hext with hd hr hf
  · cases hext
    rw [walkTurn_dest hd, if_neg (by omega), if_pos (by omega)]
    exact ⟨_, rfl, w.passes_pass ..⟩
  · cases hext
    rw [walkTurn_routing hr.1 hr.2, if_neg (by omega), if_pos (by omega)]
    exact ⟨_, rfl, w.passes_pass ..⟩
  · cases hext
    rw [walkTurn_fragment hf, if_neg (by omega), if_pos (by omega)]
    obtain ⟨hpos, hnext, hdelta, hheaders⟩ := w.passes_pass 8 (src (s + w.pos))
    exact ⟨_, rfl, hpos, hnext, hdelta, hheaders⟩

theorem walkTurn_of_not_fits (hw : 0 ≤ w.lenDelta) (hd : w.nextHdr ≠ nexthdrDest)
    (hno : ∀ n, extLen src s w.pos w.nextHdr = some n → w.lenDelta < n) :
    walkTurn src s w = .leave (.ok w) ∨ walkTurn src s w = .leave (.error .dropped) := by
  have hle := optionLen_le (src (s + w.pos + 1))
  have hmin := intMin_le
  by_cases hr : w.nextHdr = nexthdrRouting
  · right
    by_cases hseg : src (s + w.pos + 3) = 0
    · have := hno _ (by rw [extLen, if_neg hd, if_pos ⟨hr, hseg⟩])
      rw [walkTurn_routing hr hseg, if_neg (by omega), if_neg (by omega)]
    · rw [walkTurn, if_neg (by rw [hr]; decide), if_neg hd, if_pos hr, if_pos hseg]
  by_cases hf : w.nextHdr = nexthdrFragment
  · right
    have := hno 8 (by rw [extLen, if_neg hd, if_neg (fun h => hr h.1), if_pos hf])
    rw [walkTurn_fragment hf, if_neg (by omega), if_neg (by omega)]
  · rw [walkTurn, if_neg hd, if_neg hr, if_neg hf]
    split_ifs
    · exact .inl rfl
    · exact .inl rfl
    · exact .inr rfl

/-! ## The whole walk -/

theorem walk_of_leave {r : Except Refused Walk} (h : walkTurn src s w = .leave r) :
    walk src s w = r := by
  rw [walk]
  split
  · simp_all
  · simp_all

theorem walk_of_again {w' : Walk} (h : walkTurn src s w = .again w') :
    walk src s w = walk src s w' := by
  rw [walk]
  split
  · simp_all
  · simp_all

theorem walk_of_dest_outside (hd : w.nextHdr = nexthdrDest)
    (hfit : w.lenDelta < optionLen (src (s + w.pos + 1))) : walk src s w = .error .overflow := by
  have hlen := le_optionLen (src (s + w.pos + 1))
  induction hv : (w.lenDelta - intMin).toNat using Nat.strongRecOn generalizing w with
  | ind v ih =>
    by_cases hlow : w.lenDelta - optionLen (src (s + w.pos + 1)) < intMin
    · refine walk_of_leave ?_
      rw [walkTurn_dest hd, if_pos hlow]
    · -- the same header, with less left
      have hturn : walkTurn src s w = .again (w.take (optionLen (src (s + w.pos + 1)))) := by
        rw [walkTurn_dest hd, if_neg hlow, if_neg (by omega)]
      rw [walk_of_again hturn]
      have hless : (w.take (optionLen (src (s + w.pos + 1)))).lenDelta
          = w.lenDelta - optionLen (src (s + w.pos + 1)) := rfl
      refine ih _ ?_ hd ?_ hlen rfl
      · omega
      · show (w.take (optionLen (src (s + w.pos + 1)))).lenDelta < optionLen (src (s + w.pos + 1))
        omega

inductive ChainEnd (src : Bytes) (s len : ℕ) : ℕ → UInt8 → Prop
  /-- There is only the IPv6 header. -/
  | bare (h : (read src s).nexthdr ≠ nexthdrHop) (hlen : len = 40) :
      ChainEnd src s len 40 (read src s).nexthdr
  /-- There is only the hop-by-hop header behind it. -/
  | hop (h : (read src s).nexthdr = nexthdrHop)
      (hlen : len = 40 + optionLen (src (s + 41))) :
      ChainEnd src s len (40 + optionLen (src (s + 41))) (src (s + 40))
  /-- A header of the chain is not an extension header. -/
  | last {pos : ℕ} {type : UInt8} (h : HeaderAt src s len pos type)
      (htype : type = nexthdrIcmp ∨ type = nexthdrTcp ∨ type = nexthdrUdp ∨ type = nexthdrNone) :
      ChainEnd src s len pos type

theorem last_of_walkTurn (h : walkTurn src s w = .leave (.ok w)) :
    w.nextHdr = nexthdrIcmp ∨ w.nextHdr = nexthdrTcp ∨ w.nextHdr = nexthdrUdp
      ∨ w.nextHdr = nexthdrNone := by
  unfold walkTurn at h
  dsimp only at h
  split_ifs at h <;> first | tauto | cases h

theorem turn_cases (hw : w.Inside len) (hat : HeaderAt src s len w.pos w.nextHdr) :
    (∃ w', walkTurn src s w = .again w' ∧ w'.lenDelta < w.lenDelta ∧ w'.Inside len
        ∧ HeaderAt src s len w'.pos w'.nextHdr)
      ∨ walkTurn src s w = .leave (.ok w) ∨ walkTurn src s w = .leave (.error .dropped)
      ∨ w.nextHdr = nexthdrDest ∧ w.lenDelta < optionLen (src (s + w.pos + 1)) := by
  have htotal := hw.total
  by_cases hfits : ∃ n : ℕ, extLen src s w.pos w.nextHdr = some n ∧ (n : ℤ) ≤ w.lenDelta
  · obtain ⟨n, hext, hfit⟩ := hfits
    obtain ⟨w', hturn, hpasses⟩ := walkTurn_of_fits hext hfit
    have hless := hpasses.lenDelta
    have hn := extLen_pos hext
    refine .inl ⟨w', hturn, by omega, hpasses.inside hw hfit, ?_⟩
    rw [hpasses.pos, hpasses.nextHdr]
    exact hat.next hext (by omega)
  · have hno : ∀ n, extLen src s w.pos w.nextHdr = some n → w.lenDelta < n := by
      intro n hext
      by_contra hle
      exact hfits ⟨n, hext, not_lt.mp hle⟩
    by_cases hd : w.nextHdr = nexthdrDest
    · exact .inr (.inr (.inr ⟨hd, hno _ (if_pos hd)⟩))
    · exact .inr ((walkTurn_of_not_fits hw.nonneg hd hno).imp_right .inl)

theorem walk_cases (hw : w.Inside len) (hat : HeaderAt src s len w.pos w.nextHdr) :
    (∃ w', walk src s w = .ok w' ∧ ChainEnd src s len w'.pos w'.nextHdr ∧ w'.Inside len)
      ∨ walk src s w = .error .dropped
      ∨ ∃ pos, HeaderAt src s len pos nexthdrDest ∧ len < pos + optionLen (src (s + pos + 1))
        ∧ walk src s w = .error .overflow := by
  induction hv : w.lenDelta.toNat using Nat.strongRecOn generalizing w with
  | ind v ih =>
    have htotal := hw.total
    rcases turn_cases hw hat with ⟨w', hturn, hless, hw', hat'⟩ | hturn | hturn | ⟨hd, hout⟩
    · have hnonneg := hw'.nonneg
      rw [walk_of_again hturn]
      exact ih _ (by omega) hw' hat' rfl
    · exact .inl ⟨w, walk_of_leave hturn, .last hat (last_of_walkTurn hturn), hw⟩
    · exact .inr (.inl (walk_of_leave hturn))
    · exact .inr (.inr ⟨w.pos, hd ▸ hat, by omega, walk_of_dest_outside hd hout⟩)

def Bounded (len : ℕ) : Except Refused Walk → Prop
  | .ok w => w.Inside len
  | .error r => r = .dropped

theorem bounded_walk
    (hdest : ∀ pos, HeaderAt src s len pos nexthdrDest
      → pos + optionLen (src (s + pos + 1)) ≤ len)
    (hw : w.Inside len) (hat : HeaderAt src s len w.pos w.nextHdr) :
    Bounded len (walk src s w) := by
  rcases walk_cases hw hat with ⟨w', h, -, hinside⟩ | h | ⟨pos, hat, hout, -⟩
  · rw [h]
    exact hinside
  · rw [h]
    rfl
  · exact absurd (hdest pos hat) (by omega)

/-! ## The header part of `ip6_ip4` -/

def Addressed (includeFlag : Bool) (src : Bytes) (s : ℕ) : Prop :=
  (read src s).saddr.word2 = (if includeFlag then mappedPrefix else translatedPrefix)
  ∧ (read src s).daddr.word2 = (if includeFlag then translatedPrefix else mappedPrefix)

variable {includeFlag : Bool} (h : (read src s).nexthdr = nexthdrHop)

theorem ip6Headers_of_short (h : len < 40) :
    ip6Headers includeFlag src s len = .error .dropped := if_neg (by omega)

theorem ip6Headers_of_not_addressed (h : ¬ Addressed includeFlag src s) :
    ip6Headers includeFlag src s len = .error .dropped := by
  unfold ip6Headers
  dsimp only
  refine ite_eq_right_iff.mpr fun _ => ite_eq_left_iff.mpr fun hs => if_pos fun hd => ?_
  exact h ⟨not_not.mp hs, hd⟩

variable (src s) in
def Walk.start (len : ℕ) : Walk := ⟨len - 40, 0, (read src s).nexthdr, 0, 0, []⟩

theorem Walk.inside_start (hlen : 40 ≤ len) : (start src s len).Inside len := by
  refine ⟨?_, ?_, fun _ h => absurd h List.not_mem_nil⟩
  · show (0 : ℤ) ≤ len - 40
    omega
  · show ((40 + 0 : ℕ) : ℤ) + (len - 40) = len
    omega

theorem ip6Headers_of_addressed (ha : Addressed includeFlag src s) (hlen : 40 ≤ len) :
    ip6Headers includeFlag src s len
      = (hopByHop src s (start src s len)).bind fun w =>
          if 0 < w.lenDelta then walk src s w else .ok w := by
  unfold ip6Headers
  rw [if_pos (by omega)]
  dsimp only
  rw [if_neg (not_not.mpr ha.1), if_neg (not_not.mpr ha.2)]
  rfl

theorem hopByHop_of_ne (h : w.nextHdr ≠ nexthdrHop) : hopByHop src s w = .ok w := if_neg h

theorem ip6Headers_of_no_hop (ha : Addressed includeFlag src s) (hlen : 40 < len)
    (h : (read src s).nexthdr ≠ nexthdrHop) :
    ip6Headers includeFlag src s len = walk src s (start src s len) := by
  have hdelta : (start src s len).lenDelta = len - 40 := rfl
  rw [ip6Headers_of_addressed ha hlen.le, hopByHop_of_ne h]
  exact if_pos (by omega)

include h

theorem hopByHop_of_hop : hopByHop src s (start src s len)
    = if (0 : ℤ) ≤ len - 40 - optionLen (src (s + 41)) then
        .ok (((start src s len).take (optionLen (src (s + 41)))).pass
          (optionLen (src (s + 41))) (src (s + 40)))
      else .error .dropped := if_pos h

theorem hopByHop_of_fits
    (hfit : 40 + optionLen (src (s + 41)) ≤ len) :
    ∃ w, hopByHop src s (start src s len) = .ok w ∧ w.Inside len
      ∧ Walk.Passes (optionLen (src (s + 41))) (src (s + 40)) (start src s len) w := by
  have hpasses := (start src s len).passes_pass (optionLen (src (s + 41))) (src (s + 40))
  have hdelta : (start src s len).lenDelta = len - 40 := rfl
  refine ⟨_, ?_, hpasses.inside (inside_start (by omega)) (by omega), hpasses⟩
  rw [hopByHop_of_hop h, if_pos (by omega)]

omit h

theorem hopByHop_start (src : Bytes) (s : ℕ) (hlen : 40 ≤ len) :
    hopByHop src s (start src s len) = .error .dropped
      ∨ ∃ w, hopByHop src s (start src s len) = .ok w ∧ w.Inside len
        ∧ (0 < w.lenDelta → HeaderAt src s len w.pos w.nextHdr) := by
  have hdelta : (start src s len).lenDelta = len - 40 := rfl
  by_cases hhop : (read src s).nexthdr = nexthdrHop
  · rcases le_or_gt (40 + optionLen (src (s + 41))) len with hfit | hfit
    · obtain ⟨w, hw, hinside, hpasses⟩ := hopByHop_of_fits hhop hfit
      refine .inr ⟨w, hw, hinside, fun hleft => ?_⟩
      rw [hpasses.lenDelta] at hleft
      rw [hpasses.pos, hpasses.nextHdr]
      exact .hop hhop (by omega)
    · left
      rw [hopByHop_of_hop hhop, if_neg (by omega)]
  · exact .inr ⟨_, hopByHop_of_ne hhop, inside_start hlen, fun hleft => .first hhop (by omega)⟩

theorem HeaderAt.exists_steps {pos : ℕ} (h : HeaderAt src s len pos type) :
    40 < len ∧ ∃ w₀ w, hopByHop src s (start src s len) = .ok w₀ ∧ 0 < w₀.lenDelta
      ∧ Loop.Steps (walkTurn src s) w₀ w ∧ w.pos = pos ∧ w.nextHdr = type ∧ w.Inside len := by
  have hdelta : (start src s len).lenDelta = len - 40 := rfl
  induction h with
  | first h hlen =>
    exact ⟨hlen, _, _, hopByHop_of_ne h, by omega, .refl _, rfl, rfl, inside_start hlen.le⟩
  | hop h hlen =>
    obtain ⟨w, hw, hinside, hpasses⟩ := hopByHop_of_fits h hlen.le
    have hless := hpasses.lenDelta
    exact ⟨by omega, w, w, hw, by omega, .refl _, hpasses.pos, hpasses.nextHdr, hinside⟩
  | @next pos n type hat hext hlen ih =>
    obtain ⟨hlen', w₀, w, hw₀, hleft, hsteps, rfl, rfl, hw⟩ := ih
    have htotal := hw.total
    have hfit : (n : ℤ) ≤ w.lenDelta := by omega
    obtain ⟨w', hturn, hpasses⟩ := walkTurn_of_fits hext hfit
    exact ⟨hlen', w₀, w', hw₀, hleft, hsteps.trans (.single hturn), hpasses.pos, hpasses.nextHdr,
      hpasses.inside hw hfit⟩

theorem walk_of_steps {w' : Walk} (h : Loop.Steps (walkTurn src s) w w') :
    walk src s w = walk src s w' := by
  induction h with
  | refl => rfl
  | tail _ hturn ih => exact ih.trans (walk_of_again hturn)

theorem HeaderAt.exists_walk {pos : ℕ} (ha : Addressed includeFlag src s)
    (h : HeaderAt src s len pos type) : ∃ w, w.pos = pos ∧ w.nextHdr = type ∧ w.Inside len
    ∧ ip6Headers includeFlag src s len = walk src s w := by
  obtain ⟨hlen, w₀, w, hw₀, hleft, hsteps, hpos, hnext, hinside⟩ := h.exists_steps
  refine ⟨w, hpos, hnext, hinside, ?_⟩
  rw [ip6Headers_of_addressed ha hlen.le, hw₀, ← walk_of_steps hsteps]
  exact if_pos hleft

/-- **Which packets bound the walk**: those whose addresses are not
translated, and those of which every destination options header lies inside
the packet. For every other packet `len_delta` overflows. -/
theorem bounded_ip6Headers_iff (includeFlag : Bool) (src : Bytes) (s len : ℕ) :
    Bounded len (ip6Headers includeFlag src s len)
      ↔ (Addressed includeFlag src s → ∀ pos, HeaderAt src s len pos nexthdrDest
          → pos + optionLen (src (s + pos + 1)) ≤ len) := by
  constructor
  · intro hbounded ha pos hat
    by_contra hout
    obtain ⟨w, rfl, hd, hw, heq⟩ := hat.exists_walk ha
    have htotal := hw.total
    rw [heq, walk_of_dest_outside hd (by omega)] at hbounded
    cases hbounded
  · intro hdest
    rcases lt_or_ge len 40 with hshort | hlen
    · rw [ip6Headers_of_short hshort]
      rfl
    by_cases ha : Addressed includeFlag src s
    · rw [ip6Headers_of_addressed ha hlen]
      rcases hopByHop_start src s hlen with hdrop | ⟨w, heq, hw, hat⟩
      · rw [hdrop]
        rfl
      · rw [heq]
        show Bounded len (if 0 < w.lenDelta then walk src s w else .ok w)
        split
        · next hleft => exact bounded_walk (hdest ha) hw (hat hleft)
        · exact hw
    · rw [ip6Headers_of_not_addressed ha]
      rfl

theorem chainEnd_of_ok (h : ip6Headers includeFlag src s len = .ok w) :
    ChainEnd src s len w.pos w.nextHdr ∧ w.Inside len := by
  rcases lt_or_ge len 40 with hshort | hlen
  · rw [ip6Headers_of_short hshort] at h
    cases h
  by_cases ha : Addressed includeFlag src s
  · rw [ip6Headers_of_addressed ha hlen] at h
    have hdelta : (start src s len).lenDelta = len - 40 := rfl
    rcases hopByHop_start src s hlen with hdrop | ⟨w₀, heq, hw, hat⟩
    · rw [hdrop] at h
      cases h
    rw [heq] at h
    replace h : (if 0 < w₀.lenDelta then walk src s w₀ else .ok w₀) = Except.ok w := h
    have htotal := hw.total
    have hnonneg := hw.nonneg
    split_ifs at h with hleft
    · rcases walk_cases hw (hat hleft) with ⟨w', hok, hend⟩ | hdrop | ⟨-, -, -, hover⟩
      · rw [hok] at h
        cases h
        exact hend
      · rw [hdrop] at h
        cases h
      · rw [hover] at h
        cases h
    cases h
    refine ⟨?_, hw⟩
    by_cases hhop : (read src s).nexthdr = nexthdrHop
    · by_cases hfit : 40 + optionLen (src (s + 41)) ≤ len
      · obtain ⟨w', hw', -, hpasses⟩ := hopByHop_of_fits hhop hfit
        rw [heq] at hw'
        cases hw'
        have hpos : w.pos = 40 + optionLen (src (s + 41)) := hpasses.pos
        rw [hpos, hpasses.nextHdr]
        exact .hop hhop (by omega)
      · rw [hopByHop_of_hop hhop, if_neg (by omega)] at heq
        cases heq
    · rw [hopByHop_of_ne hhop] at heq
      cases heq
      exact .bare hhop (by omega)
  · rw [ip6Headers_of_not_addressed ha] at h
    cases h

def truncatedOptions : Bytes := fun i =>
  ([0x60, 0, 0, 0, 0, 2, 60, 64,
    0, 0, 0, 0, 0, 0, 0, 0, 0, 0, 0xff, 0xff, 10, 0, 0, 1,
    0, 0, 0, 0, 0, 0, 0, 0, 0, 0, 0xff, 0xff, 10, 0, 0, 2,
    6, 0] : List UInt8).getD i 0

theorem addressed_truncatedOptions : Addressed false truncatedOptions 0 := by
  unfold Addressed
  decide

/-- The walk over it overflows `len_delta`. -/
theorem ip6Headers_truncatedOptions :
    ip6Headers false truncatedOptions 0 (42 : ℕ) = .error .overflow
      ∧ ¬ Bounded 42 (ip6Headers false truncatedOptions 0 (42 : ℕ)) := by
  have hoverflow : ip6Headers false truncatedOptions 0 (42 : ℕ) = .error .overflow := by
    rw [ip6Headers_of_no_hop addressed_truncatedOptions (by decide) (by decide)]
    exact walk_of_dest_outside (by decide) (by decide)
  refine ⟨hoverflow, fun hbounded => ?_⟩
  rw [hoverflow] at hbounded
  cases hbounded

end Siit
