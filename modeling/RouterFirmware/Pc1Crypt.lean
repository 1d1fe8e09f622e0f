import Mathlib.Data.Nat.Notation
import Mathlib.Logic.Function.Basic

/-!
# The PC1 cipher of pc1crypt

A byte of the stream is drawn from the context, which then takes the byte of
the plaintext into its key: before it is encrypted on one side, after it was
decrypted on the other.
-/

namespace Pc1

open UInt8 Function List

structure Ctx where
  (ax bx cx dx si tmp x1a2 : UInt16)
  x1a0 : ℕ → UInt16
  (res i inter cfc cfd compte : UInt16)
  cle : ℕ → UInt8

def pc1Code (pc1 : Ctx) : Ctx :=
  let pc1 := { pc1 with dx := pc1.x1a2 + pc1.i, ax := pc1.x1a0 pc1.i.toNat }
  let pc1 := { pc1 with cx := 0x015a, bx := 0x4e35 }
  let pc1 := { pc1 with tmp := pc1.ax, ax := pc1.si, si := pc1.ax }
  let pc1 := { pc1 with tmp := pc1.ax, ax := pc1.dx, dx := pc1.ax }
  let pc1 := if pc1.ax ≠ 0 then { pc1 with ax := pc1.ax * pc1.bx } else pc1
  let pc1 := { pc1 with tmp := pc1.ax, ax := pc1.cx, cx := pc1.ax }
  let pc1 := if pc1.ax ≠ 0 then
      { pc1 with ax := pc1.ax * pc1.si, cx := pc1.ax * pc1.si + pc1.cx } else pc1
  let pc1 := { pc1 with tmp := pc1.ax, ax := pc1.si, si := pc1.ax }
  let pc1 := { pc1 with ax := pc1.ax * pc1.bx, dx := pc1.cx + pc1.dx }
  let pc1 := { pc1 with ax := pc1.ax + 1 }
  let pc1 := { pc1 with x1a2 := pc1.dx, x1a0 := update pc1.x1a0 pc1.i.toNat pc1.ax }
  { pc1 with res := pc1.ax ^^^ pc1.dx, i := pc1.i + 1 }

def Ctx.cleWord (pc1 : Ctx) (k : ℕ) : UInt16 :=
  (pc1.cle (2 * k)).toUInt16 * 256 + (pc1.cle (2 * k + 1)).toUInt16

def pc1Assemble (pc1 : Ctx) : Ctx :=
  let pc1 := pc1Code { pc1 with x1a0 := update pc1.x1a0 0 (pc1.cleWord 0) }
  let pc1 := { pc1 with inter := pc1.res }
  let pc1 := [1, 2, 3, 4, 5, 6, 7].foldl (fun pc1 k =>
    let pc1 := pc1Code { pc1 with
      x1a0 := update pc1.x1a0 k (pc1.x1a0 (k - 1) ^^^ pc1.cleWord k) }
    { pc1 with inter := pc1.inter ^^^ pc1.res }) pc1
  { pc1 with i := 0 }

def Ctx.mix (pc1 : Ctx) (c : UInt8) : Ctx :=
  { pc1 with cle := fun k => if k ≤ 15 then pc1.cle k ^^^ c else pc1.cle k, compte := 16 }

def Ctx.draw (pc1 : Ctx) : Ctx :=
  let pc1 := pc1Assemble pc1
  { pc1 with cfc := pc1.inter >>> 8, cfd := pc1.inter &&& 255 }

def pc1Decrypt (pc1 : Ctx) (c : UInt16) : UInt8 × Ctx :=
  let pc1 := pc1.draw
  let c := c ^^^ (pc1.cfc ^^^ pc1.cfd)
  (c.toUInt8, pc1.mix c.toUInt8)

def pc1Encrypt (pc1 : Ctx) (c : UInt16) : UInt8 × Ctx :=
  let pc1 := pc1.draw.mix c.toUInt8
  let c := c ^^^ (pc1.cfc ^^^ pc1.cfd)
  (c.toUInt8, pc1)

def pc1Init : Ctx :=
  ⟨0, 0, 0, 0, 0, 0, 0, fun _ => 0, 0, 0, 0, 0, 0, 0,
    fun k => ("Remsaalps!123456".toList.map fun c => c.toNat.toUInt8).getD k 0⟩

def overBuf (crypt : Ctx → UInt16 → UInt8 × Ctx) (pc1 : Ctx) : List UInt8 → List UInt8 × Ctx
  | [] => ([], pc1)
  | b :: buf =>
    let first := crypt pc1 b.toUInt16
    let rest := overBuf crypt first.2 buf
    (first.1 :: rest.1, rest.2)

def pc1DecryptBuf : Ctx → List UInt8 → List UInt8 × Ctx := overBuf pc1Decrypt

def pc1EncryptBuf : Ctx → List UInt8 → List UInt8 × Ctx := overBuf pc1Encrypt

def overBufs (cryptBuf : Ctx → List UInt8 → List UInt8 × Ctx) (pc1 : Ctx) :
    List (List UInt8) → List (List UInt8)
  | [] => []
  | buf :: bufs => (cryptBuf pc1 buf).1 :: overBufs cryptBuf (cryptBuf pc1 buf).2 bufs

theorem overBuf_append (crypt : Ctx → UInt16 → UInt8 × Ctx) (pc1 : Ctx) (buf buf' : List UInt8) :
    (overBuf crypt pc1 (buf ++ buf')).1
      = (overBuf crypt pc1 buf).1 ++ (overBuf crypt (overBuf crypt pc1 buf).2 buf').1 := by
  induction buf generalizing pc1 with
  | nil => rfl
  | cons b buf ih => exact congrArg (cons _) (ih _)

/-- **Where a text is cut does not matter.** -/
theorem flatten_overBufs (crypt : Ctx → UInt16 → UInt8 × Ctx) (pc1 : Ctx)
    (bufs : List (List UInt8)) :
    (overBufs (overBuf crypt) pc1 bufs).flatten = (overBuf crypt pc1 bufs.flatten).1 := by
  induction bufs generalizing pc1 with
  | nil => rfl
  | cons buf bufs ih => rw [overBufs, flatten_cons, flatten_cons, ih, overBuf_append]

/-- **The two sides stay in step**: from one context, the byte comes back and both contexts are
again the same. -/
theorem pc1Decrypt_pc1Encrypt (pc1 : Ctx) (b : UInt8) :
    pc1Decrypt pc1 (pc1Encrypt pc1 b.toUInt16).1.toUInt16
      = (b, (pc1Encrypt pc1 b.toUInt16).2) := by
  have hbyte (k : UInt16) : ((b.toUInt16 ^^^ k).toUInt8.toUInt16 ^^^ k).toUInt8 = b := by
    rw [UInt16.toUInt8_xor, toUInt8_toUInt16, UInt16.toUInt8_xor, toUInt8_toUInt16,
      UInt8.xor_assoc, UInt8.xor_self, UInt8.xor_zero]
  show (_, pc1.draw.mix _) = (b, pc1.draw.mix b.toUInt16.toUInt8)
  rw [toUInt8_toUInt16]
  exact congrArg (fun c => (c, pc1.draw.mix c)) (hbyte _)

theorem pc1DecryptBuf_pc1EncryptBuf (pc1 : Ctx) (buf : List UInt8) :
    (pc1DecryptBuf pc1 (pc1EncryptBuf pc1 buf).1).1 = buf := by
  induction buf generalizing pc1 with
  | nil => rfl
  | cons b buf ih =>
    show (pc1Decrypt pc1 _).1 :: (overBuf pc1Decrypt (pc1Decrypt pc1 _).2 _).1 = _
    rw [pc1Decrypt_pc1Encrypt]
    exact congrArg (b :: ·) (ih _)

/-- **Decryption undoes encryption**, however the text and the encrypted text are cut into
buffers. -/
theorem pc1_round_trip (bufs bufs' : List (List UInt8))
    (hcut : bufs'.flatten = (overBufs pc1EncryptBuf pc1Init bufs).flatten) :
    (overBufs pc1DecryptBuf pc1Init bufs').flatten = bufs.flatten := by
  rw [pc1DecryptBuf, flatten_overBufs, hcut, pc1EncryptBuf, flatten_overBufs]
  exact pc1DecryptBuf_pc1EncryptBuf pc1Init bufs.flatten

theorem pc1_round_trip_pieces : (overBufs pc1DecryptBuf pc1Init
    [(overBufs pc1EncryptBuf pc1Init [[1, 2], [3]]).flatten]).flatten = [1, 2, 3] :=
  pc1_round_trip [[1, 2], [3]] [_] (append_nil _)

end Pc1
