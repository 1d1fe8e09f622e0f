import RouterFirmware.ByteOrder
import RouterFirmware.OutFile

/-!
# The tool srec2bin

`srec2bin` turns a file of S-records, which are lines of hexadecimal digits,
into a binary file: a tag, and records of a length, an address, as many bytes
and a check, all little-endian.
-/

namespace Srec

/-! ## The output -/

/-- **The global variables** that have to do with the output. -/
structure Out where
  fOut : OutFile UInt8
  recStart : Bool
  recLength : UInt32
  checkSum : UInt32
  addressCurrent : UInt32
  s1s2s3Total : UInt32

namespace Out

variable (o : Out)

def binOut32 (data : UInt32) : Out :=
  { o with fOut := o.fOut.write (ByteOrder.little.bytes 4 data.toNat) }

def binOut8 (data : UInt8) : Out :=
  { o with fOut := o.fOut.write [data], recLength := o.recLength + 1 }

def binRecStart (address : UInt32) : Out :=
  (({ o with recLength := 0, checkSum := address, recStart := true } : Out).binOut32 0).binOut32
    address

def binRecEnd : Out :=
  if o.recStart then
    let recEnd := o.fOut.pos
    let o := { o with
      recStart := false
      fOut := o.fOut.seek (recEnd - o.recLength.toNat - 4 - 4) }
    let o := o.binOut32 o.recLength
    let o := { o with
      fOut := o.fOut.seek recEnd
      checkSum := ~~~(o.checkSum + o.recLength) + 1 }
    o.binOut32 o.checkSum
  else o

/-- The beginning of `binRecOutProgramStart` and `binRecOutByte`. -/
def binRecAt (address : UInt32) : Out :=
  let o := if address ≠ o.addressCurrent + 1 then o.binRecEnd.binRecStart address else o
  { o with addressCurrent := address }

def binRecOutProgramStart (address : UInt32) : Out := o.binRecAt address

def binRecOutByte (address : UInt32) (data : UInt8) : Out :=
  let o := o.binRecAt address
  ({ o with checkSum := o.checkSum + data.toUInt32 } : Out).binOut8 data

def counted : Out := { o with s1s2s3Total := o.s1s2s3Total + 1 }

end Out

/-! ## The input -/

def readline : List UInt8 → ℕ → List UInt8 × List UInt8
  | [], _ => ([], [])
  | c :: cs, len =>
    if c = 10 then ([], cs)
    else if 1 < len ∧ c ≠ 13 then
      let (buf, rest) := readline cs (len - 1)
      (c :: buf, rest)
    else readline cs len

/-- The value that `gh` takes a character for. -/
def nibble (c : UInt8) : UInt32 :=
  let c := if 97 ≤ c ∧ c ≤ 122 then c &&& 0x5f else c
  if 48 ≤ c ∧ c ≤ 57 then (c - 0x30).toUInt32
  else if 65 ≤ c ∧ c ≤ 70 then (c - 0x37).toUInt32
  else 0

def gh (cp : List UInt8) (nibs : ℕ) : UInt32 :=
  (cp.take nibs).foldl (fun j c => (j <<< 4) + nibble c) 0

def isxdigit (c : UInt8) : Bool :=
  (48 ≤ c && c ≤ 57) || (65 ≤ c && c ≤ 70) || (97 ≤ c && c ≤ 102)

def cksum : ℕ → List UInt8 → ℕ
  | 0, _ => 0
  | count + 1, scp => (gh scp 2).toNat + cksum count (scp.drop 2)

def checksum (cp : List UInt8) (count : ℕ) : Bool :=
  cp.all isxdigit && (count + cksum count cp) % 256 == 255

def outBytes : ℕ → List UInt8 → UInt32 → Out → Out
  | 0, _, _, o => o
  | count + 1, p, adr, o =>
    outBytes count (p.drop 2) (adr + 1) (o.binRecOutByte adr (gh p 2).toUInt8)

/-- The switch of `srecLine`, on the type of the record. -/
def srecRecord (o : Out) (ch : UInt8) (count : ℕ) (p : List UInt8) : Out × Bool :=
  if ch = 48 then (o, !(count < 3) && gh p 4 == 0)
  else if ch = 51 then
    if count < 5 then (o, false)
    else
      ((outBytes (count - 5) (p.drop 8) (gh p 8) o).counted, true)
  else if ch = 53 then (o, !(count < 3) && (gh p 4 ||| o.s1s2s3Total) == 0)
  else if ch = 55 then
    if count < 5 then (o, false)
    else if count - 4 ≠ 1 then (o, false)
    else (o.binRecOutProgramStart (gh p 8), true)
  -- S1, S2, S4, S6, S8 and S9 are refused
  else (o, !(ch ∈ [49, 50, 52, 54, 56, 57]))

def srecLine (o : Out) : List UInt8 → Out × Bool
  | c :: ch :: p =>
    let count := (gh p 2).toNat
    if c ≠ 83 then (o, false)
    else if p.length + 1 < 4 then (o, false)
    else if count * 2 ≠ (p.drop 2).length then (o, false)
    else if ¬ checksum (p.drop 2) count then (o, false)
    else srecRecord o ch count (p.drop 2)
  | _ => (o, false)

def cstr (buf : List UInt8) : List UInt8 := buf.takeWhile (· ≠ 0)

def processLines : ℕ → List UInt8 → Out → Out
  | 0, _, o => o
  | fuel + 1, input, o =>
    if input.isEmpty then o
    else
      let (buff, rest) := readline input 256
      if (cstr buff).isEmpty then processLines fuel rest o
      else
        let (o, sts) := srecLine o (cstr buff)
        if sts then processLines fuel rest o else o

/-- The variables when the first line is read. -/
def Out.start (bigEndian : Bool) : Out :=
  (⟨.empty, false, 0, 0, 0xFFFFFFFF, 0⟩ : Out).binOut32
    (if bigEndian then 0xDEADBE42 else 0xFEEDFA42)

def srec2bin (bigEndian : Bool) (input : List UInt8) : List UInt8 :=
  (processLines (input.length + 1) input (.start bigEndian)).binRecEnd.fOut.bytes

end Srec
