import RouterFirmware.Netlink

/-!
# Dumps over several messages

A dump of more records than one buffer holds is made of calls.
-/

namespace Netlink

open List Nat Skb Option

def sendAll (send : ℕ → Skb → Option (Bool × Skb)) : ℕ → ℕ → Skb → Option (ℕ × Skb)
  | 0, i, skb => some (i, skb)
  | k + 1, i, skb =>
    match send i skb with
    | none => none
    | some (false, skb) => some (i, skb)
    | some (true, skb) => sendAll send k (i + 1) skb

def dump {σ : Type} (call : σ → Option (σ × List UInt8)) : ℕ → σ → Option (List (List UInt8))
  | 0, _ => none
  | fuel + 1, s =>
    match call s with
    | none => none
    | some (_, []) => some []
    | some (s, b :: bs) => (dump call fuel s).map ((b :: bs) :: ·)

def Complete (records msgs : List (List UInt8)) : Prop :=
  ∃ parts : List (List (List UInt8)), parts.flatten = records ∧ msgs = parts.map flatten

def Completes {σ : Type} (call : σ → Option (σ × List UInt8)) (s : σ)
    (records : List (List UInt8)) : Prop :=
  ∃ fuel msgs, dump call fuel s = some msgs ∧ Complete records msgs

variable {i k : ℕ} {msgs records : List (List UInt8)}

section Calls

variable {σ : Type}

variable {call : σ → Option (σ × List UInt8)} {s : σ}

theorem dump_map {τ : Type} {call' : τ → Option (τ × List UInt8)} {f : τ → σ}
    (h : ∀ t, call (f t) = (call' t).map (Prod.map f id)) (fuel : ℕ) (t : τ) :
    dump call fuel (f t) = dump call' fuel t := by
  induction fuel generalizing t with
  | zero => rfl
  | succ fuel ih =>
    rw [dump, dump, h]
    rcases call' t with _ | ⟨t', _ | ⟨b, bs⟩⟩
    · rfl
    · rfl
    · exact congrArg (Option.map _) (ih t')

theorem dump_congr {s' : σ} (h : call s = call s')
    (fuel : ℕ) : dump call fuel s = dump call fuel s' := by
  cases fuel with
  | zero => rfl
  | succ fuel => rw [dump, dump, h]

/-- **A dump ends in one way**: more calls do not change what is sent. -/
theorem dump_unique {n : ℕ} {msgs' : List (List UInt8)} (h : dump call n s = some msgs)
    (h' : dump call k s = some msgs') : msgs = msgs' := by
  induction n generalizing k s msgs msgs' with
  | zero => exact nomatch h
  | succ n ih =>
    cases k with
    | zero => exact nomatch h'
    | succ k =>
      rw [dump] at h h'
      rcases hcall : call s with _ | ⟨t, _ | ⟨b, bs⟩⟩
      · rw [hcall] at h
        exact nomatch h
      · rw [hcall] at h h'
        exact (Option.some.inj h).symm.trans (Option.some.inj h')
      · rw [hcall] at h h'
        obtain ⟨rest, hrest, rfl⟩ := map_eq_some_iff.mp h
        obtain ⟨rest', hrest', rfl⟩ := map_eq_some_iff.mp h'
        rw [ih hrest hrest']

/-- A dump that ends is complete if its messages are. -/
theorem completes_iff_of_dump {n : ℕ} (h : dump call n s = some msgs) :
    Completes call s records ↔ Complete records msgs := by
  constructor
  · rintro ⟨k, msgs', hdump, hcomplete⟩
    rwa [dump_unique h hdump]
  · exact fun hcomplete => ⟨n, msgs, h, hcomplete⟩

def single (data : List UInt8) : List (List UInt8) := if data = [] then [] else [data]

/-- A dump whose second call adds nothing sends what the first one added. -/
theorem dump_two {t : σ} {data : List UInt8}
    (h : call s = some (t, data)) (hnext : data ≠ [] → ∃ u, call t = some (u, [])) :
    dump call 2 s = some (single data) := by
  rw [dump, h]
  cases data with
  | nil => rfl
  | cons b bs =>
    obtain ⟨u, hu⟩ := hnext (cons_ne_nil b bs)
    dsimp only
    rw [dump, hu]
    rfl

theorem flatten_single (data : List UInt8) : (single data).flatten = data := by
  by_cases h : data = []
  · rw [single, if_pos h, h, flatten_nil]
  · rw [single, if_neg h, flatten_singleton]

/-- One message is made of the records if it is all of them. -/
theorem complete_single_iff {data : List UInt8}
    (hne : ∀ r ∈ records, r ≠ []) : Complete records (single data) ↔ data = records.flatten := by
  constructor
  · rintro ⟨parts, rfl, hmsgs⟩
    rw [← flatten_single data, hmsgs, flatten_flatten]
  · rintro rfl
    cases records with
    | nil => exact ⟨[], rfl, rfl⟩
    | cons r records =>
      have hdata : (r :: records).flatten ≠ [] :=
        append_ne_nil_of_left_ne_nil (hne r mem_cons_self) _
      refine ⟨[r :: records], flatten_singleton, ?_⟩
      rw [single, if_neg hdata]
      rfl

end Calls

/-! ## What the messages report -/

section Reports

/-- **Messages that report records in their order**. -/
inductive Reported (record : ℕ → List UInt8) (Stray : ℕ → List UInt8 → Prop) :
    ℕ → List (List UInt8) → Prop where
  | nil : Reported record Stray 0 []
  | message {i : ℕ} {msgs : List (List UInt8)} (h : Reported record Stray i msgs) (k : ℕ)
    (s : List UInt8) (hs : Stray (i + k) s) :
    Reported record Stray (i + k) (msgs ++ [(range' i k).flatMap record ++ s])

theorem Reported.last {record : ℕ → List UInt8} {Stray : ℕ → List UInt8 → Prop}
    {msg : List UInt8} (h : Reported record Stray i (msgs ++ [msg])) :
    ∃ j k s, j + k = i ∧ Reported record Stray j msgs ∧ Stray i s
      ∧ msg = (range' j k).flatMap record ++ s := by
  generalize hall : msgs ++ [msg] = all at h
  cases h with
  | nil => exact absurd hall (append_ne_nil_of_right_ne_nil _ (cons_ne_nil _ _))
  | @message j msgs' h k s hs =>
    obtain ⟨rfl, hlast⟩ := append_inj' hall rfl
    exact ⟨j, k, s, rfl, h, hs, singleton_inj.mp hlast⟩

theorem Reported.eq_zero {record : ℕ → List UInt8} {Stray : ℕ → List UInt8 → Prop}
    (h : Reported record Stray i []) : i = 0 := by
  generalize hall : ([] : List (List UInt8)) = all at h
  cases h with
  | nil => rfl
  | message => exact absurd hall.symm (append_ne_nil_of_right_ne_nil _ (cons_ne_nil _ _))

theorem sendAll_reports {record : ℕ → List UInt8} {Stray : ℕ → List UInt8 → Prop}
    {send : ℕ → Skb → Option (Bool × Skb)} (hnil : ∀ j, Stray j []) {skb : Skb} (hskb : skb.Fits 0)
    (h : ∀ j skb, i ≤ j → j < i + k → skb.Fits 0 →
      send j skb = some (true, skb.add (record j)) ∧ (skb.add (record j)).Fits 0
        ∨ ∃ s, Stray j s ∧ send j skb = some (false, skb.add s)) :
    ∃ m s, sendAll send k i skb = some (i + m, skb.add ((range' i m).flatMap record ++ s))
    ∧ Stray (i + m) s := by
  induction k generalizing i skb with
  | zero => exact ⟨0, [], congrArg (fun b => some (i, b)) (add_nil skb).symm, hnil i⟩
  | succ k ih =>
    rcases h i skb (le_refl i) (by omega) hskb with ⟨hsend, hfits⟩ | ⟨s, hs, hsend⟩
    · obtain ⟨m, s, heq, hs⟩ := ih (i := i + 1) hfits
        fun j skb' hi hj => h j skb' (by omega) (by omega)
      refine ⟨m + 1, s, ?_, by rwa [← add_assoc, add_right_comm]⟩
      rw [sendAll, hsend]
      show sendAll send k (i + 1) _ = _
      rw [heq, add_add, ← append_assoc, range'_succ, flatMap_cons, add_right_comm, add_assoc]
    · refine ⟨0, s, ?_, hs⟩
      rw [sendAll, hsend]
      rfl

end Reports

/-! ## Packing records into buffers -/

def Packs (room : ℕ) (Spoils : ℕ → ℕ → Prop) : ℕ → ℕ → List (List UInt8) → Prop
  | _, _, [] => True
  | i, used, r :: rs =>
    if used + r.length ≤ room then Packs room Spoils (i + 1) (used + r.length) rs
    else ¬ Spoils i (room - used) ∧ Packs room Spoils (i + 1) r.length rs

structure Sends (records : List (List UInt8)) (send : ℕ → Skb → Option (Bool × Skb))
    (Spoils : ℕ → ℕ → Prop) : Prop where
  ne_nil : ∀ r ∈ records, r ≠ []
  fits : ∀ {i r skb}, records[i]? = some r → skb.Fits r.length →
    send i skb = some (true, skb.add r)
  clean : ∀ {i r skb}, records[i]? = some r → skb.Fits 0 → ¬ skb.Fits r.length →
    ¬ Spoils i (skb.room - skb.data.length) → send i skb = some (false, skb)
  spoils : ∀ {i r skb res}, records[i]? = some r → skb.Fits 0 → ¬ skb.Fits r.length →
    Spoils i (skb.room - skb.data.length) → send i skb = some res →
    ∃ s, s ≠ [] ∧ res = (false, skb.add s)

section Packing

variable {send : ℕ → Skb → Option (Bool × Skb)} {Spoils : ℕ → ℕ → Prop} {room : ℕ} {r : List UInt8}
  (h : Sends records send Spoils) (hroom : ∀ r ∈ records, r.length ≤ room)

variable {rs : List (List UInt8)}

theorem packs_fresh (h : r.length ≤ room) :
    Packs room Spoils i 0 (r :: rs) ↔ Packs room Spoils (i + 1) r.length rs := by
  rw [Packs, if_pos (by omega), zero_add]

structure Sent (room : ℕ) (Spoils : ℕ → ℕ → Prop) (skb : Skb) (i : ℕ)
    (rs : List (List UInt8)) (k : ℕ) (s : List UInt8) (res : Option (ℕ × Skb)) : Prop where
  le : k ≤ rs.length
  eq : res = some (i + k, skb.add ((rs.take k).flatten ++ s))
  packs_iff : Packs room Spoils i skb.data.length rs
    ↔ s = [] ∧ Packs room Spoils (i + k) 0 (rs.drop k)
  pos : ∀ r, rs.head? = some r → skb.Fits r.length → 0 < k

theorem Sent.cons {skb : Skb} {s : List UInt8}
    {res : Option (ℕ × Skb)} (hfits : skb.Fits r.length) (hroom : skb.room = room)
    (h : Sent room Spoils (skb.add r) (i + 1) rs k s res) :
    Sent room Spoils skb i (r :: rs) (k + 1) s res where
  le := succ_le_succ h.le
  eq := by
    rw [h.eq, add_add, take_succ_cons, flatten_cons, append_assoc, add_right_comm, add_assoc]
  packs_iff := by
    have hpacks := h.packs_iff
    rw [data_add, length_append, add_right_comm, add_assoc] at hpacks
    rw [Packs, if_pos (hroom ▸ hfits), drop_succ_cons]
    exact hpacks
  pos := fun _ _ _ => succ_pos k

theorem Sends.sendAll {skb : Skb} (h : Sends records send Spoils)
    (hroom : ∀ r ∈ records, r.length ≤ room) (hrs : records.drop i = rs) (hskb : skb.Fits 0)
    (hskbRoom : skb.room = room) :
    sendAll send rs.length i skb = none ∧ ¬ Packs room Spoils i skb.data.length rs
      ∨ ∃ k s, Sent room Spoils skb i rs k s (sendAll send rs.length i skb) := by
  induction rs generalizing i skb with
  | nil =>
    refine Or.inr ⟨0, [], le_refl 0, ?_, (and_iff_right rfl).symm, fun r hr => nomatch hr⟩
    exact congrArg (fun b => some (i, b)) (add_nil skb).symm
  | cons r rs ih =>
    have hget : records[i]? = some r := by
      rw [← List.head?_drop, hrs]
      rfl
    have hmem : r ∈ records := mem_of_getElem? hget
    have hdrop : records.drop (i + 1) = rs := by
      rw [← drop_drop, hrs]
      rfl
    by_cases hfits : skb.Fits r.length
    · have hsend := h.fits hget hfits
      have heq : Netlink.sendAll send (r :: rs).length i skb
          = Netlink.sendAll send rs.length (i + 1) (skb.add r) := by
        rw [length_cons, Netlink.sendAll, hsend]
      rw [heq]
      rcases ih hdrop (fits_add.mpr hfits) hskbRoom with ⟨hnone, hnot⟩ | ⟨k, s, hsent⟩
      · refine Or.inl ⟨hnone, fun hpacks => hnot ?_⟩
        rw [Packs, if_pos (hskbRoom ▸ hfits)] at hpacks
        rwa [data_add, length_append]
      · exact Or.inr ⟨k + 1, s, hsent.cons hfits hskbRoom⟩
    · -- the record is the first of the next message
      have hnext : Packs room Spoils i skb.data.length (r :: rs)
          ↔ ¬ Spoils i (skb.room - skb.data.length) ∧ Packs room Spoils i 0 (r :: rs) := by
        rw [packs_fresh (hroom r hmem), Packs, if_neg (hskbRoom ▸ hfits), hskbRoom]
      have hpos : ∀ r', (r :: rs).head? = some r' → skb.Fits r'.length → 0 < 0 := by
        intro r' hr' hfits'
        exact absurd (Option.some.inj hr' ▸ hfits') hfits
      by_cases hspoils : Spoils i (skb.room - skb.data.length)
      · cases hres : send i skb with
        | none =>
          refine Or.inl ⟨?_, fun hpacks => (hnext.mp hpacks).1 hspoils⟩
          rw [length_cons, Netlink.sendAll, hres]
        | some res =>
          obtain ⟨s, hs, rfl⟩ := h.spoils hget hskb hfits hspoils hres
          refine Or.inr ⟨0, s, zero_le _, ?_, ?_, hpos⟩
          · rw [length_cons, Netlink.sendAll, hres]
            rfl
          · exact iff_of_false (fun hpacks => (hnext.mp hpacks).1 hspoils) (fun hp => hs hp.1)
      · refine Or.inr ⟨0, [], zero_le _, ?_, ?_, hpos⟩
        · rw [length_cons, Netlink.sendAll, h.clean hget hskb hfits hspoils]
          exact congrArg (fun b => some (i, b)) (add_nil skb).symm
        · rw [hnext, and_iff_right hspoils, and_iff_right rfl]
          rfl

def fill (send : ℕ → Skb → Option (Bool × Skb)) (n room i : ℕ) : Option (ℕ × List UInt8) :=
  (sendAll send (n - i) i (empty room)).map fun (j, skb) => (j, skb.data)

include h

theorem Sends.fill (hroom : ∀ r ∈ records, r.length ≤ room) (i : ℕ) :
    fill send records.length room i = none ∧ ¬ Packs room Spoils i 0 (records.drop i)
      ∨ ∃ k s, k ≤ (records.drop i).length
        ∧ fill send records.length room i = some (i + k, ((records.drop i).take k).flatten ++ s)
        ∧ (Packs room Spoils i 0 (records.drop i)
          ↔ s = [] ∧ Packs room Spoils (i + k) 0 (records.drop (i + k)))
        ∧ (records.drop i ≠ [] → 0 < k) := by
  unfold Netlink.fill
  rw [← length_drop]
  have hempty : (empty room).Fits 0 := zero_le _
  rcases h.sendAll hroom (i := i) rfl hempty rfl with ⟨hnone, hnot⟩ | ⟨k, s, hsent⟩
  · exact Or.inl ⟨by rw [hnone]; rfl, hnot⟩
  · refine Or.inr ⟨k, s, hsent.le, by rw [hsent.eq]; rfl, ?_, ?_⟩
    · rw [← drop_drop]
      exact hsent.packs_iff
    · intro hne
      obtain ⟨r, rs, hrs⟩ := exists_cons_of_ne_nil hne
      refine hsent.pos r (by rw [hrs]; rfl) ?_
      have hle := hroom r (mem_of_mem_drop (hrs ▸ mem_cons_self : r ∈ records.drop i))
      show 0 + r.length ≤ room
      rwa [zero_add]

omit h in
theorem flatten_take_ne_nil (h : ∀ r ∈ rs, r ≠ []) (hk : 0 < k)
    (hrs : rs ≠ []) : (rs.take k).flatten ≠ [] := by
  obtain ⟨r, rs, rfl⟩ := exists_cons_of_ne_nil hrs
  obtain ⟨k, rfl⟩ := exists_eq_succ_of_ne_zero hk.ne'
  rw [take_succ_cons, flatten_cons]
  exact append_ne_nil_of_left_ne_nil (h r mem_cons_self) _

include hroom

theorem Sends.completes_of_packs (hpacks : Packs room Spoils i 0 (records.drop i)) :
    Completes (Netlink.fill send records.length room) i (records.drop i) := by
  induction hn : (records.drop i).length using Nat.strong_induction_on generalizing i with
  | _ n ih =>
    rcases h.fill hroom i with ⟨-, hnot⟩ | ⟨k, s, hk, heq, hiff, hpos⟩
    · exact absurd hpacks hnot
    · obtain ⟨rfl, hpacks'⟩ := hiff.mp hpacks
      rw [append_nil] at heq
      by_cases hnil : records.drop i = []
      · refine ⟨1, [], ?_, [], hnil.symm, rfl⟩
        rw [dump, heq, hnil, take_nil, flatten_nil]
      · have hlt : (records.drop (i + k)).length < n := by
          rw [← drop_drop, length_drop]
          have := hpos hnil
          omega
        obtain ⟨fuel, msgs, hdump, parts, hparts, rfl⟩ := ih _ hlt hpacks' rfl
        refine ⟨fuel + 1, _, ?_, (records.drop i).take k :: parts, ?_, rfl⟩
        · have hne := flatten_take_ne_nil
            (fun r hr => h.ne_nil r (mem_of_mem_drop hr)) (hpos hnil) hnil
          obtain ⟨b, bs, hb⟩ := exists_cons_of_ne_nil hne
          rw [dump, heq, hb]
          show (dump _ fuel _).map _ = _
          rw [hdump, map_some, map_cons, hb]
        · rw [flatten_cons, hparts, ← drop_drop, take_append_drop]

theorem Sends.length_dump {fuel : ℕ}
    (hdump : dump (Netlink.fill send records.length room) fuel i = some msgs) :
    (records.drop i).flatten.length ≤ msgs.flatten.length
      ∧ (msgs.flatten.length = (records.drop i).flatten.length →
        Packs room Spoils i 0 (records.drop i)) := by
  induction fuel generalizing i msgs with
  | zero => exact nomatch hdump
  | succ fuel ih =>
    rw [dump] at hdump
    rcases h.fill hroom i with ⟨hnone, -⟩ | ⟨k, s, hk, heq, hiff, hpos⟩
    · rw [hnone] at hdump
      exact nomatch hdump
    · rw [heq] at hdump
      by_cases hnil : records.drop i = []
      · rw [hnil]
        exact ⟨zero_le _, fun _ => trivial⟩
      · have hne := flatten_take_ne_nil
          (fun r hr => h.ne_nil r (mem_of_mem_drop hr)) (hpos hnil) hnil
        obtain ⟨b, bs, hb⟩ := exists_cons_of_ne_nil (append_ne_nil_of_left_ne_nil hne s)
        rw [hb] at hdump
        obtain ⟨msgs', hmsgs', rfl⟩ := map_eq_some_iff.mp hdump
        obtain ⟨hle, hpacks⟩ := ih hmsgs'
        have hsplit : (records.drop i).flatten.length
            = ((records.drop i).take k).flatten.length
              + (records.drop (i + k)).flatten.length := by
          rw [← length_append, ← flatten_append, ← drop_drop, take_append_drop]
        have hlen : (b :: bs).length = ((records.drop i).take k).flatten.length + s.length := by
          rw [← hb, length_append]
        rw [flatten_cons, length_append, hsplit, hlen]
        refine ⟨by omega, fun htotal => hiff.mpr ⟨?_, hpacks ?_⟩⟩
        · exact length_eq_zero_iff.mp (by omega)
        · omega

theorem Sends.completes_iff_packs : Completes (Netlink.fill send records.length room) 0 records
    ↔ Packs room Spoils 0 0 records := by
  constructor
  · rintro ⟨fuel, msgs, hdump, parts, rfl, rfl⟩
    refine (h.length_dump hroom hdump).2 ?_
    rw [drop_zero, flatten_flatten]
  · exact h.completes_of_packs hroom

end Packing

end Netlink
