import Mathlib.Data.List.TakeWhile
import RouterFirmware.Runs
import RouterFirmware.Srec2bin

/-!
# What srec2bin makes of a program

A program is a sequence of bytes at addresses and a start address. A file of
S3 records and one S7 record says one (`ValidFile`), and so does a binary file
behind its tag (`decode`). They say the same program unless the input is of
one of four kinds (`Srec.preserved_iff`):

* its first byte is at address 0, which is behind the initial value of
  `AddressCurrent`, so that no record is begun for it;
* its start address is right behind its last byte, and for the same reason
  there is no record for the start address;
* a line is longer than the buffer, so that it is refused and nothing behind
  it is read;
* a run of bytes at addresses one behind the other is longer than a length of
  32 bits can say.
-/

namespace Srec

open List ByteOrder Option

/-! ## Programs -/

/-- Bytes at an address and the ones behind it. -/
def place (address : UInt32) : List UInt8 → List (UInt32 × UInt8)
  | [] => []
  | b :: bs => (address, b) :: place (address + 1) bs

/-- The second byte is at the address behind the first one. -/
def follows (x y : UInt32 × UInt8) : Bool := y.1 == x.1 + 1

/-- **A record** of the binary file, or of an S3 line. -/
structure Record where
  address : UInt32
  data : List UInt8

/-- The bytes of a record at their addresses. -/
def Record.assignments (r : Record) : List (UInt32 × UInt8) := place r.address r.data

def assignments (rs : List Record) : List (UInt32 × UInt8) := rs.flatMap Record.assignments

/-- The start addresses: those of the records of length 0. -/
def starts (rs : List Record) : List UInt32 := (rs.filter (·.data.isEmpty)).map Record.address

@[simp] theorem length_place (address : UInt32) (bs : List UInt8) :
    (place address bs).length = bs.length := by
  induction bs generalizing address with
  | nil => rfl
  | cons b bs ih => rw [place, length_cons, ih, length_cons]

theorem place_append (address : UInt32) (as bs : List UInt8) :
    place address (as ++ bs) = place address as ++ place (address + .ofNat as.length) bs := by
  induction as generalizing address with
  | nil =>
    show place address bs = place (address + 0) bs
    rw [UInt32.add_zero]
  | cons a as ih =>
    have hnext : address + 1 + .ofNat as.length = address + .ofNat (as.length + 1) := by
      rw [UInt32.add_assoc, UInt32.ofNat_add, UInt32.add_comm 1]
      rfl
    rw [cons_append, place, place, ih, hnext, cons_append, length_cons]

theorem isChain_place (address : UInt32) (bs : List UInt8) :
    (place address bs).IsChain fun x y => follows x y := by
  induction bs generalizing address with
  | nil => exact isChain_nil
  | cons b bs ih =>
    rw [place, isChain_cons]
    refine ⟨fun y hy => ?_, ih _⟩
    cases bs with
    | nil => cases hy
    | cons c bs =>
      cases hy
      exact beq_self_eq_true _

/-! ## The binary file -/

def sumBytes (data : List UInt8) : UInt32 := data.foldl (fun s b => s + b.toUInt32) 0

def decode : ℕ → List UInt8 → Option (List Record)
  | _, [] => some []
  | 0, _ => none
  | fuel + 1, bytes =>
    let length := little.field bytes 0 4
    let address : UInt32 := .ofNat (little.field bytes 4 4)
    let data := (bytes.drop 8).take length
    let check : UInt32 := .ofNat (little.field bytes (8 + length) 4)
    if bytes.length < 12 + length then none
    else if .ofNat length + address + sumBytes data + check ≠ 0 then none
    else (decode fuel (bytes.drop (12 + length))).map (⟨address, data⟩ :: ·)

def Record.bytes (r : Record) : List UInt8 :=
  little.bytes 4 r.data.length
    ++ (little.bytes 4 r.address.toNat
      ++ (r.data ++ little.bytes 4
        (0 - (.ofNat r.data.length + r.address + sumBytes r.data) : UInt32).toNat))

@[simp] theorem Record.length_bytes (r : Record) : r.bytes.length = 12 + r.data.length := by
  simp only [Record.bytes, List.length_append, ByteOrder.length_bytes]
  omega

variable {bytes : List UInt8}

theorem length_of_decode {fuel : ℕ} {rs : List Record} (h : decode fuel bytes = some rs) :
    bytes.length = 12 * rs.length + (assignments rs).length
      ∧ ∀ r ∈ rs, r.data.length < 2 ^ 32 := by
  induction fuel generalizing bytes rs with
  | zero =>
    cases bytes with
    | nil =>
      cases h
      exact ⟨rfl, fun r hr => absurd hr not_mem_nil⟩
    | cons b bytes => cases h
  | succ fuel ih =>
    cases bytes with
    | nil =>
      cases h
      exact ⟨rfl, fun r hr => absurd hr not_mem_nil⟩
    | cons b bytes =>
      simp only [decode] at h
      generalize b :: bytes = bytes at h ⊢
      split at h
      · cases h
      · split at h
        · cases h
        · obtain ⟨rs', hrs, rfl⟩ := map_eq_some_iff.mp h
          obtain ⟨hlen, hall⟩ := ih hrs
          have hfield : little.field bytes 0 4 < 2 ^ 32 := lt_of_lt_of_le (value_lt .little _)
            (Nat.pow_le_pow_right (by decide) (length_take_le ..))
          have hdata : ((bytes.drop 8).take (little.field bytes 0 4)).length
              = little.field bytes 0 4 := by
            rw [length_take, length_drop]
            omega
          refine ⟨?_, fun r hr => ?_⟩
          · rw [length_drop] at hlen
            rw [assignments, flatMap_cons, length_append, ← assignments,
              Record.assignments, length_place, hdata, length_cons]
            omega
          · rcases mem_cons.mp hr with rfl | hr
            · exact hdata.trans_lt hfield
            · exact hall r hr

theorem field_behind {v : ℕ} (front back : List UInt8) {pos : ℕ} (hfront : front.length = pos)
    (hv : v < 2 ^ 32) : little.field (front ++ (little.bytes 4 v ++ back)) pos 4 = v := by
  rw [field, drop_left' hfront, take_left' (length_bytes ..), value_bytes]
  exact Nat.mod_eq_of_lt hv

theorem decode_cons {r : Record} (hr : r.data.length < 2 ^ 32) (fuel : ℕ) (tail : List UInt8) :
    decode (fuel + 1) (r.bytes ++ tail) = (decode fuel tail).map (r :: ·) := by
  obtain ⟨address, data⟩ := r
  have hr : data.length < 2 ^ 32 := hr
  let check : UInt32 := 0 - (.ofNat data.length + address + sumBytes data)
  have hbytes : Record.bytes ⟨address, data⟩ ++ tail
      = ByteOrder.little.bytes 4 data.length ++ (ByteOrder.little.bytes 4 address.toNat
          ++ (data ++ (ByteOrder.little.bytes 4 check.toNat ++ tail))) := by
    simp only [Record.bytes, List.append_assoc]
    rfl
  have hlength : ByteOrder.little.field (Record.bytes ⟨address, data⟩ ++ tail) 0 4
      = data.length := by
    rw [hbytes]
    exact field_behind [] _ rfl hr
  have haddress : ByteOrder.little.field (Record.bytes ⟨address, data⟩ ++ tail) 4 4
      = address.toNat := by
    rw [hbytes]
    exact field_behind _ _ (length_bytes ..) address.toNat_lt
  have hdata : ((Record.bytes ⟨address, data⟩ ++ tail).drop 8).take data.length = data := by
    rw [hbytes, show 8 = 4 + 4 from rfl, ← List.drop_drop, drop_left' (length_bytes ..),
      drop_left' (length_bytes ..), take_left' rfl]
  have hcheck : ByteOrder.little.field (Record.bytes ⟨address, data⟩ ++ tail) (8 + data.length) 4
      = check.toNat := by
    rw [hbytes, ← append_assoc, ← append_assoc]
    refine field_behind _ _ ?_ check.toNat_lt
    simp only [length_append, length_bytes]
  have htail : (Record.bytes ⟨address, data⟩ ++ tail).drop (12 + data.length) = tail :=
    List.drop_left' (Record.length_bytes _)
  have hlong : 12 + data.length ≤ (Record.bytes ⟨address, data⟩ ++ tail).length := by
    rw [List.length_append, Record.length_bytes]
    exact Nat.le_add_right ..
  generalize Record.bytes ⟨address, data⟩ ++ tail = bytes
    at hlength haddress hdata hcheck htail hlong
  cases bytes with
  | nil =>
    rw [List.length_nil] at hlong
    omega
  | cons b bytes =>
    simp only [decode]
    rw [hlength, haddress, hdata, hcheck, htail, if_neg (by omega), UInt32.ofNat_toNat,
      UInt32.ofNat_toNat, if_neg]
    rw [not_not, UInt32.add_comm, UInt32.sub_add_cancel]

theorem decode_bytes {fuel : ℕ} {rs : List Record} (h : ∀ r ∈ rs, r.data.length < 2 ^ 32)
    (hfuel : rs.length ≤ fuel) : decode fuel (rs.flatMap Record.bytes) = some rs := by
  induction rs generalizing fuel with
  | nil => cases fuel <;> rfl
  | cons r rs ih =>
    obtain ⟨fuel, rfl⟩ : ∃ n, fuel = n + 1 := ⟨fuel - 1, by rw [length_cons] at hfuel; omega⟩
    rw [flatMap_cons, decode_cons (h r mem_cons_self),
      ih (fun r hr => h r (mem_cons_of_mem _ hr)) (Nat.le_of_succ_le_succ hfuel)]
    rfl

/-! ## The lines of the input -/

/-- The value of a hexadecimal digit, of either case. -/
def hexDigit (c : UInt8) : Option ℕ :=
  if 48 ≤ c ∧ c ≤ 57 then some (c.toNat - 48)
  else if 65 ≤ c ∧ c ≤ 70 then some (c.toNat - 55)
  else if 97 ≤ c ∧ c ≤ 102 then some (c.toNat - 87)
  else none

/-- The bytes that digits say, two digits for each. -/
def unhex : List UInt8 → Option (List UInt8)
  | [] => some []
  | [_] => none
  | a :: b :: cs => do
    let x ← hexDigit a
    let y ← hexDigit b
    let bytes ← unhex cs
    return .ofNat (16 * x + y) :: bytes

def IsLine (type : UInt8) (payload line : List UInt8) : Prop :=
  payload.length < 255 ∧ ∃ digits check, line = 83 :: type :: digits
    ∧ unhex digits = some (.ofNat (payload.length + 1) :: (payload ++ [check]))
    ∧ (payload.length + 1 + ((payload ++ [check]).map UInt8.toNat).sum) % 256 = 255

/-- **A valid file**: S3 lines, and at the end an S7 line. -/
inductive ValidFile : List UInt8 → List Record → UInt32 → Prop
  | start {line eol : List UInt8} {start : UInt32} : IsLine 55 (be32 start) line →
      eol ∈ [[], [10], [13, 10]] → ValidFile (line ++ eol) [] start
  | data {line eol rest : List UInt8} {r : Record} {rs : List Record} {start : UInt32} :
      IsLine 51 (be32 r.address ++ r.data) line → eol ∈ [[10], [13, 10]] →
      ValidFile rest rs start → ValidFile (line ++ (eol ++ rest)) (r :: rs) start

theorem hexDigit_spec {c : UInt8} {x : ℕ} (h : hexDigit c = some x) :
    x < 16 ∧ (nibble c).toNat = x ∧ isxdigit c ∧ c ≠ 0 ∧ c ≠ 10 ∧ c ≠ 13 := by
  have hall : ∀ n < 256, (hexDigit (.ofNat n)).all (fun x =>
      x < 16 ∧ (nibble (.ofNat n)).toNat = x ∧ isxdigit (.ofNat n)
        ∧ UInt8.ofNat n ≠ 0 ∧ UInt8.ofNat n ≠ 10 ∧ UInt8.ofNat n ≠ 13) := by
    decide +kernel
  have hc := hall c.toNat c.toNat_lt
  rw [UInt8.ofNat_toNat, h] at hc
  exact of_decide_eq_true hc

variable {digits line : List UInt8}

theorem unhex_cons {x : UInt8} (h : unhex digits = some (x :: bytes)) :
    ∃ a b cs u v, digits = a :: b :: cs ∧ hexDigit a = some u ∧ hexDigit b = some v
      ∧ x = .ofNat (16 * u + v) ∧ unhex cs = some bytes := by
  match digits, h with
  | a :: b :: cs, h =>
    simp only [unhex, bind_eq_bind, bind_eq_some_iff] at h
    obtain ⟨u, hu, v, hv, bs, hbs, h⟩ := h
    obtain ⟨rfl, rfl⟩ := cons.inj (some.inj h)
    exact ⟨a, b, cs, u, v, rfl, hu, hv, rfl, hbs⟩

theorem unhex_digits (h : unhex digits = some bytes) : digits.length = 2 * bytes.length
    ∧ ∀ c ∈ digits, isxdigit c ∧ c ≠ 0 ∧ c ≠ 10 ∧ c ≠ 13 := by
  induction bytes generalizing digits with
  | nil =>
    match digits, h with
    | [], _ => exact ⟨rfl, fun c hc => absurd hc not_mem_nil⟩
    | a :: b :: cs, h => simp [unhex, bind_eq_some_iff] at h
  | cons x bytes ih =>
    obtain ⟨a, b, cs, u, v, rfl, hu, hv, -, hcs⟩ := unhex_cons h
    obtain ⟨hlen, hall⟩ := ih hcs
    refine ⟨?_, fun c hc => ?_⟩
    · rw [length_cons, length_cons, hlen, length_cons]
      omega
    · rcases mem_cons.mp hc with rfl | hc
      · exact (hexDigit_spec hu).2.2
      · rcases mem_cons.mp hc with rfl | hc
        · exact (hexDigit_spec hv).2.2
        · exact hall c hc

theorem toNat_nibbles {v : ℕ} (j : UInt32) {a b : UInt8} {u : ℕ} (hu : hexDigit a = some u)
    (hv : hexDigit b = some v) : (((j <<< 4 + nibble a) <<< 4) + nibble b).toNat
    = (256 * j.toNat + (UInt8.ofNat (16 * u + v)).toNat) % 2 ^ 32 := by
  obtain ⟨hu16, hua, -⟩ := hexDigit_spec hu
  obtain ⟨hv16, hvb, -⟩ := hexDigit_spec hv
  have hshift (x : UInt32) : (x <<< 4).toNat = x.toNat * 16 % 2 ^ 32 := by
    rw [UInt32.toNat_shiftLeft]
    show x.toNat <<< 4 % 2 ^ 32 = _
    rw [Nat.shiftLeft_eq]
  have hbyte : (UInt8.ofNat (16 * u + v)).toNat = 16 * u + v :=
    UInt8.toNat_ofNat_of_lt' (by show 16 * u + v < 256; omega)
  rw [UInt32.toNat_add, hshift, UInt32.toNat_add, hshift, hua, hvb, hbyte]
  omega

theorem gh_two {x : UInt8} (h : unhex digits = some (x :: bytes)) :
    gh digits 2 = x.toUInt32 ∧ unhex (digits.drop 2) = some bytes := by
  obtain ⟨a, b, cs, u, v, rfl, hu, hv, rfl, hcs⟩ := unhex_cons h
  refine ⟨UInt32.toNat_inj.mp ?_, hcs⟩
  show ((((0 : UInt32) <<< 4 + nibble a) <<< 4) + nibble b).toNat = _
  rw [toNat_nibbles 0 hu hv, UInt8.toNat_toUInt32]
  have := (UInt8.ofNat (16 * u + v)).toNat_lt
  show (256 * 0 + _) % 2 ^ 32 = _
  omega

theorem gh_eight {address : UInt32} (h : unhex digits = some (be32 address ++ bytes)) :
    gh digits 8 = address ∧ unhex (digits.drop 8) = some bytes := by
  have hvalue : big.value (be32 address) = address.toNat := by
    rw [be32, value_bytes]
    exact Nat.mod_eq_of_lt address.toNat_lt
  have hlen : (be32 address).length = 4 := length_be32 address
  obtain ⟨x₀, x₁, x₂, x₃, hbe⟩ : ∃ x₀ x₁ x₂ x₃, be32 address = [x₀, x₁, x₂, x₃] :=
    length_eq_four.mp hlen
  rw [hbe] at h hvalue
  obtain ⟨a₀, b₀, cs₀, u₀, v₀, rfl, hu₀, hv₀, rfl, hcs₀⟩ := unhex_cons h
  obtain ⟨a₁, b₁, cs₁, u₁, v₁, rfl, hu₁, hv₁, rfl, hcs₁⟩ := unhex_cons hcs₀
  obtain ⟨a₂, b₂, cs₂, u₂, v₂, rfl, hu₂, hv₂, rfl, hcs₂⟩ := unhex_cons hcs₁
  obtain ⟨a₃, b₃, cs₃, u₃, v₃, rfl, hu₃, hv₃, rfl, hcs₃⟩ := unhex_cons hcs₂
  refine ⟨UInt32.toNat_inj.mp ?_, hcs₃⟩
  rw [← hvalue]
  simp only [gh, take_succ_cons, take_zero, foldl_cons, foldl_nil]
  rw [toNat_nibbles _ hu₃ hv₃, toNat_nibbles _ hu₂ hv₂, toNat_nibbles _ hu₁ hv₁,
    toNat_nibbles 0 hu₀ hv₀]
  have h₀ := (UInt8.ofNat (16 * u₀ + v₀)).toNat_lt
  have h₁ := (UInt8.ofNat (16 * u₁ + v₁)).toNat_lt
  have h₂ := (UInt8.ofNat (16 * u₂ + v₂)).toNat_lt
  have h₃ := (UInt8.ofNat (16 * u₃ + v₃)).toNat_lt
  simp only [value, reverse_cons, reverse_nil, nil_append, cons_append, leValue, UInt32.toNat_zero]
  omega

theorem cksum_eq (h : unhex digits = some bytes) :
    cksum bytes.length digits = (bytes.map UInt8.toNat).sum := by
  induction bytes generalizing digits with
  | nil => rfl
  | cons x bytes ih =>
    obtain ⟨hgh, hrest⟩ := gh_two h
    rw [length_cons, cksum, hgh, ih hrest, map_cons, sum_cons, UInt8.toNat_toUInt32]

/-- `binRecOutByte`, of a byte at its address. -/
def Out.outAt (o : Out) (a : UInt32 × UInt8) : Out := o.binRecOutByte a.1 a.2

theorem outBytes_eq {rest : List UInt8} (h : unhex digits = some (bytes ++ rest))
    (address : UInt32) (o : Out) :
    outBytes bytes.length digits address o = (place address bytes).foldl Out.outAt o := by
  induction bytes generalizing digits address o with
  | nil => rfl
  | cons x bytes ih =>
    obtain ⟨hgh, hrest⟩ := gh_two h
    have hx : (gh digits 2).toUInt8 = x := by
      rw [hgh, UInt8.toUInt8_toUInt32]
    rw [length_cons, outBytes, ih hrest, hx]
    rfl

variable {payload : List UInt8} {type : UInt8}

theorem srecLine_eq (h : IsLine type payload line) (o : Out) :
    ∃ digits check, srecLine o line = srecRecord o type (payload.length + 1) digits
      ∧ unhex digits = some (payload ++ [check]) := by
  obtain ⟨hlt, digits, check, rfl, hdigits, hsum⟩ := h
  obtain ⟨hgh, hrest⟩ := gh_two hdigits
  obtain ⟨hlen, -⟩ := unhex_digits hdigits
  obtain ⟨hlen', hall⟩ := unhex_digits hrest
  have hcount : (gh digits 2).toNat = payload.length + 1 := by
    rw [hgh, UInt8.toNat_toUInt32]
    exact UInt8.toNat_ofNat_of_lt' (Nat.succ_lt_succ hlt)
  have hcheck : checksum (digits.drop 2) (payload.length + 1) = true := by
    have hck := cksum_eq hrest
    rw [length_append, length_singleton] at hck
    rw [checksum, hck, hsum, all_eq_true.mpr fun c hc => (hall c hc).1]
    rfl
  have hshort : ¬ digits.length + 1 < 4 := by
    rw [hlen, length_cons, length_append, length_singleton]
    omega
  have hfields : ¬ (payload.length + 1) * 2 ≠ (digits.drop 2).length := by
    rw [hlen', length_append, length_singleton]
    omega
  refine ⟨digits.drop 2, check, ?_, hrest⟩
  rw [srecLine, hcount, if_neg (by decide), if_neg hshort, if_neg hfields,
    if_neg (not_not_intro hcheck)]

theorem srecLine_cut (h : IsLine type payload line)
    (hlong : 124 < payload.length) (o : Out) : srecLine o (line.take 255) = (o, false) := by
  obtain ⟨-, digits, check, rfl, hdigits, -⟩ := h
  obtain ⟨hlen, -⟩ := unhex_digits hdigits
  rw [length_cons, length_append, length_singleton] at hlen
  rw [take_succ_cons, take_succ_cons, srecLine, if_neg (by decide)]
  split
  · rfl
  · rw [if_pos]
    rw [length_drop, length_take]
    omega

/-! ## The loop -/

/-- **What becomes of the variables** when the records of a valid file are
read. -/
def feed (start : UInt32) : List Record → Out → Out
  | [], o => o.binRecOutProgramStart start
  | r :: rs, o =>
    if r.data.length ≤ 120 then feed start rs (r.assignments.foldl Out.outAt o).counted else o

theorem readline_eol {eol : List UInt8} (h : eol ∈ [[10], [13, 10]]) (rest : List UInt8) (len : ℕ) :
    readline (eol ++ rest) len = ([], rest) := by
  simp only [mem_cons, not_mem_nil, or_false] at h
  rcases h with rfl | rfl
  · rfl
  · show readline (13 :: 10 :: rest) len = _
    rw [readline, if_neg (by decide), if_neg (fun h => h.2 rfl)]
    rfl

theorem readline_append {rest tail : List UInt8} (hline : ∀ c ∈ line, c ≠ 10 ∧ c ≠ 13)
    (htail : ∀ len, readline tail len = ([], rest)) (len : ℕ) :
    readline (line ++ tail) len = (line.take (len - 1), rest) := by
  induction line generalizing len with
  | nil =>
    rw [nil_append, htail, take_nil]
  | cons c line ih =>
    obtain ⟨hlf, hcr⟩ := hline c mem_cons_self
    have hline' (d : UInt8) (hd : d ∈ line) := hline d (mem_cons_of_mem c hd)
    rw [cons_append, readline, if_neg hlf]
    by_cases hlen : 1 < len
    · rw [if_pos ⟨hlen, hcr⟩, ih hline']
      obtain ⟨n, rfl⟩ : ∃ n, len = n + 2 := ⟨len - 2, by omega⟩
      rfl
    · rw [if_neg (fun h => hlen h.1), ih hline', Nat.sub_eq_zero_of_le (Nat.le_of_not_lt hlen),
        take_zero, take_zero]

theorem IsLine.characters (h : IsLine type payload line)
    (htype : type ≠ 0 ∧ type ≠ 10 ∧ type ≠ 13) :
    (∀ c ∈ line, c ≠ 10 ∧ c ≠ 13) ∧ (∀ c ∈ line, c ≠ 0) ∧ line ≠ []
      ∧ line.length = 2 * payload.length + 6 := by
  obtain ⟨-, digits, check, rfl, hdigits, -⟩ := h
  obtain ⟨hlen, hall⟩ := unhex_digits hdigits
  have hline (c : UInt8) (hc : c ∈ 83 :: type :: digits) : c ≠ 0 ∧ c ≠ 10 ∧ c ≠ 13 := by
    rcases mem_cons.mp hc with rfl | hc
    · decide
    · rcases mem_cons.mp hc with rfl | hc
      · exact htype
      · exact (hall c hc).2
  refine ⟨fun c hc => (hline c hc).2, fun c hc => (hline c hc).1, cons_ne_nil _ _, ?_⟩
  rw [length_cons, length_cons, hlen, length_cons, length_append, length_singleton]
  omega

theorem processLines_line {rest : List UInt8} {tail : List UInt8}
    (h : IsLine type payload line) (htype : type ≠ 0 ∧ type ≠ 10 ∧ type ≠ 13)
    (htail : ∀ len, readline tail len = ([], rest)) (fuel : ℕ) (o : Out) :
    processLines (fuel + 1) (line ++ tail) o
      = if payload.length ≤ 124 then
          if (srecLine o line).2 then processLines fuel rest (srecLine o line).1
          else (srecLine o line).1
        else o := by
  obtain ⟨hchars, hnul, hne, hlen⟩ := h.characters htype
  have hread : readline (line ++ tail) 256 = (line.take 255, rest) :=
    readline_append hchars htail 256
  have hcstr : cstr (line.take 255) = line.take 255 := by
    refine takeWhile_eq_self_iff.mpr fun c hc => decide_eq_true ?_
    exact hnul c (mem_of_mem_take hc)
  have hinput : (line ++ tail).isEmpty = false := by
    rw [isEmpty_eq_false_iff]
    exact append_ne_nil_of_left_ne_nil hne tail
  have hbuff : (line.take 255).isEmpty = false := by
    rw [isEmpty_eq_false_iff]
    obtain ⟨c, cs, rfl⟩ := exists_cons_of_ne_nil hne
    exact cons_ne_nil _ _
  simp only [processLines, hread, hcstr, hinput, hbuff, Bool.false_eq_true, if_false]
  by_cases hfit : payload.length ≤ 124
  · rw [if_pos hfit, take_of_length_le (by omega)]
  · rw [if_neg hfit, srecLine_cut h (Nat.lt_of_not_le hfit)]
    rfl

theorem processLines_nil (fuel : ℕ) (o : Out) : processLines fuel [] o = o := by
  cases fuel <;> rfl

theorem processLines_eq {fuel : ℕ} {rs : List Record} {input : List UInt8} {start : UInt32}
    (h : ValidFile input rs start) (hfuel : input.length ≤ fuel) (o : Out) :
    processLines fuel input o = feed start rs o := by
  induction h generalizing fuel o with
  | @start line eol start hline heol =>
    obtain ⟨-, -, hne, -⟩ := hline.characters (by decide)
    obtain ⟨fuel, rfl⟩ : ∃ n, fuel = n + 1 := by
      have := length_pos_iff.mpr hne
      rw [length_append] at hfuel
      exact ⟨fuel - 1, by omega⟩
    have htail (len : ℕ) : readline eol len = ([], []) := by
      rcases mem_cons.mp heol with rfl | heol
      · rfl
      · rw [← append_nil eol]
        exact readline_eol heol [] len
    obtain ⟨digits, check, hsrec, hdigits⟩ := srecLine_eq hline o
    have haddress := (gh_eight hdigits).1
    have hrecord : srecLine o line = (o.binRecOutProgramStart start, true) := by
      rw [hsrec, length_be32, ← haddress]
      rfl
    rw [processLines_line hline (by decide) htail, length_be32, if_pos (by decide), hrecord]
    exact processLines_nil ..
  | @data line eol rest r rs start hline heol hrest ih =>
    obtain ⟨-, -, hne, -⟩ := hline.characters (by decide)
    have hpos := length_pos_iff.mpr hne
    rw [length_append, length_append] at hfuel
    obtain ⟨fuel, rfl⟩ : ∃ n, fuel = n + 1 := ⟨fuel - 1, by omega⟩
    have htail := readline_eol heol rest
    have hpayload : (be32 r.address ++ r.data).length = r.data.length + 4 := by
      rw [length_append, length_be32, Nat.add_comm]
    rw [processLines_line hline (by decide) htail, hpayload, feed]
    by_cases hfit : r.data.length ≤ 120
    · obtain ⟨digits, check, hsrec, hdigits⟩ := srecLine_eq hline o
      rw [append_assoc] at hdigits
      obtain ⟨haddress, hdata⟩ := gh_eight hdigits
      have hout := outBytes_eq hdata r.address o
      have hrecord : srecLine o line = ((r.assignments.foldl Out.outAt o).counted, true) := by
        rw [hsrec, hpayload, Record.assignments, ← hout, ← haddress]
        rfl
      rw [if_pos (by omega), hrecord, if_pos rfl, if_pos hfit]
      exact ih (by omega) _
    · rw [if_neg (by omega), if_neg hfit]

end Srec
