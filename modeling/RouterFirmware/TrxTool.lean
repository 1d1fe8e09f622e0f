import RouterFirmware.AlignedRecords
import RouterFirmware.ByteOrder
import RouterFirmware.Crc32
import RouterFirmware.Loop

/-!
# The trx tool

`trx` packs files into a firmware image.
-/

namespace Trx

open BitVec Nat

/-! ## The check -/

def updc32 (octet : UInt8) (crc : BitVec 32) : BitVec 32 :=
  crc32Table.getD ((crc ^^^ octet.toBitVec.signExtend 32) &&& 0xff#32).toNat 0 ^^^ (crc >>> 8)

def crc32buf (buf : List UInt8) : BitVec 32 :=
  buf.foldl (fun crc octet => updc32 octet crc) 0xFFFFFFFF

theorem signExtend_and_mask (crc : BitVec 32) (octet : BitVec 8) :
    (crc ^^^ octet.signExtend 32) &&& 0xff#32 = (crc ^^^ octet.setWidth 32) &&& 0xff#32 := by
  refine eq_of_getLsbD_eq fun i hi => ?_
  rw [getLsbD_and, getLsbD_and, crc32_mask_getLsbD i hi, getLsbD_xor,
    getLsbD_xor, getLsbD_signExtend, getLsbD_setWidth]
  by_cases h : i < 8
  · simp [h]
  · simp [h]

theorem updc32_eq (octet : UInt8) (crc : BitVec 32) :
    updc32 octet crc = Crc.byte crc32Poly crc octet := by
  rw [updc32, signExtend_and_mask, crc32Table_step]

theorem crc32buf_eq (buf : List UInt8) : crc32buf buf = Crc.crc crc32Poly 0xFFFFFFFF buf := by
  have hturn : (fun crc octet => updc32 octet crc) = Crc.byte crc32Poly := by
    funext crc octet
    exact updc32_eq octet crc
  rw [crc32buf, hturn, Crc.crc]

/-! ## The machine the tool runs on -/

/-- The data models of the hosts the tool is built for. -/
inductive DataModel where
  | ilp32
  | lp64
deriving DecidableEq

/-- The number of values of an `unsigned long` and of a `size_t`. -/
def DataModel.word : DataModel → ℕ
  | ilp32 => 2 ^ 32
  | lp64 => 2 ^ 64

structure InFile where
  bytes : List UInt8
  error : Bool

/-- **The host**: what the tool finds outside of itself. -/
structure Host where
  model : DataModel
  /-- `strtoul` with base 0, on a string that is a number and no more. -/
  strtoul : String → Option ℕ
  strtoul_lt : ∀ optarg n, strtoul optarg = some n → n < model.word
  /-- The files that open for reading when the tool starts. -/
  files : String → Option InFile
  /-- Whether a file opens for writing. -/
  creates : String → Bool
  /-- Whether `malloc` and `realloc` have a block of a size. -/
  allocates : ℕ → Bool
  /-- What the memory holds that the `n`-th allocation adds. -/
  heap : ℕ → Bytes
  /-- Whether `fwrite` and `fflush` succeed on the output. -/
  writes : Bool

namespace Host

variable (host : Host)

def word : ℕ := host.model.word

/-- A difference of numbers of type `size_t`. -/
def sub (a b : ℕ) : ℕ := (a + host.word - b) % host.word

theorem two_pow_le_word : 2 ^ 32 ≤ host.word := by
  unfold word
  cases host.model <;> decide

theorem dvd_word : 0x1000 ∣ host.word := by
  unfold word
  cases host.model <;> decide

def roundMaxlen (n : ℕ) : ℕ :=
  if n % 0x1000 = 0 then n else (n + (0x1000 - n % 0x1000)) % host.word

theorem dvd_roundMaxlen (n : ℕ) : 0x1000 ∣ host.roundMaxlen n := by
  unfold roundMaxlen
  split_ifs with h
  · exact dvd_of_mod_eq_zero h
  · rw [dvd_mod_iff host.dvd_word]
    omega

theorem roundMaxlen_lt {optarg : String} {n : ℕ} (h : host.strtoul optarg = some n) :
    host.roundMaxlen n < host.word := by
  have hn : n < host.word := host.strtoul_lt optarg n h
  unfold roundMaxlen
  split_ifs
  · exact hn
  · exact mod_lt _ (by omega)

end Host

/-! ## The state -/

def trxMagic : ℕ := 0x30524448

def trxVersion : ℕ := 1

def trxMaxLen : ℕ := 0x720000

def headerSize : ℕ := 28

def magicAt : ℕ := 0
def lenAt : ℕ := 4
def crc32At : ℕ := 8
def flagVersionAt : ℕ := 12

def offsetsAt (i : ℕ) : ℕ := 16 + 4 * i

/-- **The state of the tool** between two options. -/
structure State (host : Host) where
  buf : Bytes
  maxlen : ℕ
  curLen : ℕ
  /-- The number of offsets recorded. -/
  i : ℕ
  /-- Whether a file has been opened, that is, whether `in` is set. -/
  opened : Bool
  files : String → Option InFile
  /-- The number of allocations so far. -/
  allocations : ℕ
  curLen_lt : curLen < 2 ^ 32
  le_maxlen : 0x1000 ≤ maxlen
  dvd_maxlen : 0x1000 ∣ maxlen
  maxlen_lt : maxlen < host.word

inductive Exit where
  /-- `EXIT_SUCCESS`, with what has been written. -/
  | success (out : List UInt8)
  /-- `EXIT_FAILURE`, after a message. -/
  | failure
  /-- The tool has left its buffer. -/
  | undefined
deriving DecidableEq

/-- **The options**, as `getopt` hands them over. -/
inductive Opt where
  | A (optarg : String)
  | f (optarg : String)
  /-- An argument that is no option, which `getopt` gives the code 1. -/
  | arg (optarg : String)
  | o (optarg : String)
  | m (optarg : String)
  | a (optarg : String)
  | b (optarg : String)
  /-- An unknown option, or one without its argument. -/
  | other

theorem curLen_mod_lt (n : ℕ) : n % 2 ^ 32 < 2 ^ 32 := mod_lt n (by decide)

namespace State

variable {host : Host} (s : State host)

/-- `cur_len` set to a number, as far as 32 bits have room for it. -/
def setCurLen (n : ℕ) : State host :=
  { s with curLen := n % 2 ^ 32, curLen_lt := curLen_mod_lt n }

def setBuf (m : Bytes) : State host := { s with buf := m }

/-- Bytes written to the buffer; undefined where it ends. -/
def put (a : ℕ) (bytes : List UInt8) : Option (State host) :=
  if bytes.length = 0 ∨ a + bytes.length ≤ s.maxlen then some (s.setBuf (s.buf.blit a bytes))
  else none

def fill (a n : ℕ) : Option (State host) :=
  if n = 0 ∨ a + n ≤ s.maxlen then some (s.setBuf (s.buf.blit a (List.replicate n 0)))
  else none

def record : Option (State host) :=
  (s.put (offsetsAt s.i) (ByteOrder.little.bytes 4 s.curLen)).map
    fun s' => { s' with i := s'.i + 1 }

/-- The bytes of an open file are read and padded to a multiple of four. -/
def readFile (file : InFile) : Turn (State host) Exit :=
  let room := host.sub s.maxlen s.curLen
  let got := file.bytes.take room
  match s.put s.curLen got with
  | none => .leave .undefined
  | some s₁ =>
    if file.error || decide (room ≤ file.bytes.length) then .leave .failure
    else
      let n := got.length
      match s₁.fill (s₁.curLen + n) (padding 4 n) with
      | none => .leave .undefined
      | some s₂ => .again ({ s₂ with opened := true }.setCurLen (s₂.curLen + (n + padding 4 n)))

/-- The case of `-A`, `-f` and an argument alone. -/
def addFile (append : Bool) (optarg : String) : Turn (State host) Exit :=
  match if append then some s else s.record with
  | none => .leave .undefined
  | some s' =>
    match s'.files optarg with
    | none => .leave .failure
    | some file => s'.readFile file

/-- The case of `-o`: the file is created, or emptied. -/
def openOutput (optarg : String) : Turn (State host) Exit :=
  if host.creates optarg then
    .again { s with files := Function.update s.files optarg (some ⟨[], false⟩) }
  else .leave .failure

/-- `realloc`: what fits in the new block is kept. -/
def realloc (maxlen : ℕ) (hle : 0x1000 ≤ maxlen) (hdvd : 0x1000 ∣ maxlen)
    (hlt : maxlen < host.word) : State host :=
  { s with
    buf := fun a => if a < min s.maxlen maxlen then s.buf a else host.heap s.allocations a
    maxlen := maxlen
    allocations := s.allocations + 1
    le_maxlen := hle
    dvd_maxlen := hdvd
    maxlen_lt := hlt }

def setMaxlen (optarg : String) : Turn (State host) Exit :=
  match h : host.strtoul optarg with
  | none => .leave .failure
  | some n =>
    if hle : 0x1000 ≤ host.roundMaxlen n then
      if host.allocates (host.roundMaxlen n) then
        .again (s.realloc (host.roundMaxlen n) hle (host.dvd_roundMaxlen n)
          (host.roundMaxlen_lt h))
      else .leave .failure
    else .leave .failure

def align (optarg : String) : Turn (State host) Exit :=
  match host.strtoul optarg with
  | none => .leave .failure
  | some n =>
    let low := s.curLen &&& host.sub n 1
    if low = 0 then .again s
    else
      let n' := host.sub n low
      match s.fill s.curLen n' with
      | none => .leave .undefined
      | some s' => .again (s'.setCurLen (s'.curLen + n'))

def moveTo (optarg : String) : Turn (State host) Exit :=
  match host.strtoul optarg with
  | none => .leave .failure
  | some n =>
    -- only a warning is printed
    if n < s.curLen then .again s
    else
      match s.fill s.curLen (n - s.curLen) with
      | none => .leave .undefined
      | some s' => .again (s'.setCurLen n)

/-- One turn of the loop over the options. -/
def step : Opt → Turn (State host) Exit
  | .A optarg => s.addFile true optarg
  | .f optarg => s.addFile false optarg
  | .arg optarg => s.addFile false optarg
  | .o optarg => s.openOutput optarg
  | .m optarg => s.setMaxlen optarg
  | .a optarg => s.align optarg
  | .b optarg => s.moveTo optarg
  | .other => .leave .failure

def completeHeader (crc : BitVec 32) : Bytes :=
  (s.buf.store .little 4 crc32At crc.toNat).store .little 4 lenAt s.curLen

def writeImage : Exit :=
  let n := host.sub s.curLen flagVersionAt
  if flagVersionAt + n ≤ s.maxlen then
    if host.writes then
      .success ((s.completeHeader (crc32buf (s.buf.slice flagVersionAt n))).slice 0 s.curLen)
    else .failure
  else .undefined

def finish : Exit :=
  if s.opened then
    match s.fill s.curLen (padding 0x1000 s.curLen) with
    | none => .undefined
    | some s' => (s'.setCurLen (s'.curLen + padding 0x1000 s'.curLen)).writeImage
  else .failure

/-- The loop over the options, and what follows. -/
def options (s : State host) : List Opt → Exit
  | [] => s.finish
  | opt :: opts =>
    match s.step opt with
    | .again s' => s'.options opts
    | .leave e => e

theorem options_cons {s s' : State host} {opt : Opt} (h : s.step opt = .again s')
    (opts : List Opt) : s.options (opt :: opts) = s'.options opts := by
  simp only [options, h]

end State

theorem trxMaxLen_lt (host : Host) : trxMaxLen < host.word :=
  Nat.lt_of_lt_of_le (by decide) host.two_pow_le_word

def start (host : Host) : State host where
  buf := ((host.heap 0).store .little 4 magicAt trxMagic).store .little 4 flagVersionAt
    (trxVersion * 2 ^ 16)
  maxlen := trxMaxLen
  curLen := headerSize
  i := 0
  opened := false
  files := host.files
  allocations := 1
  curLen_lt := by decide
  le_maxlen := by decide
  dvd_maxlen := by decide
  maxlen_lt := trxMaxLen_lt host

/-- **`main`**, after `getopt` has read the command line. -/
def main (host : Host) (opts : List Opt) : Exit :=
  if host.allocates trxMaxLen then (start host).options opts else .failure

end Trx
