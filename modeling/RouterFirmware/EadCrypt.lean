import RouterFirmware.BlockCipher
import RouterFirmware.ByteOrder

/-!
# The encrypted messages of ead

After the authentication the client and the server of ead exchange messages
whose data is encrypted with the session key. The encrypted part begins with
a hash of it, the number of the message, and the number of padding bytes
that fill it up to a multiple of 64:

| at | field |
|----|-------|
| 4  | `msg->len`, in the clear |
| 20 | `enc->hash`, five words |
| 40 | `enc->iv` |
| 44 | `enc->pad` |
| 45 | the payload |
-/

namespace Ead

open Memory List

/-! ## SHA-1 -/

def rol32 (word shift : UInt32) : UInt32 := word <<< shift ||| word >>> (32 - shift)

@[ext] structure Digest where
  a : UInt32
  b : UInt32
  c : UInt32
  d : UInt32
  e : UInt32
deriving DecidableEq

def shaInit : Digest := ⟨0x67452301, 0xefcdab89, 0x98badcfe, 0x10325476, 0xc3d2e1f0⟩

def shaW (data : List UInt8) : List UInt32 :=
  let words := (range 16).map fun i =>
    UInt32.ofNat (ByteOrder.big.value ((data.drop (4 * i)).take 4))
  (range 64).foldl (fun W i =>
    W ++ [rol32 (W.getD (i + 13) 0 ^^^ W.getD (i + 8) 0 ^^^ W.getD (i + 2) 0 ^^^ W.getD i 0) 1])
    words

def shaF (i : ℕ) (x y z : UInt32) : UInt32 :=
  if i < 20 then (z ^^^ (x &&& (y ^^^ z))) + 0x5A827999
  else if i < 40 then (x ^^^ y ^^^ z) + 0x6ED9EBA1
  else if i < 60 then ((x &&& y) + (z &&& (x ^^^ y))) + 0x8F1BBCDC
  else (x ^^^ y ^^^ z) + 0xCA62C1D6

def shaTransform (digest : Digest) (data : List UInt8) : Digest :=
  let W := shaW data
  let v := (range 80).foldl (fun v i =>
    { a := shaF i v.b v.c v.d + rol32 v.a 5 + v.e + W.getD i 0
      b := v.a
      c := rol32 v.b 30
      d := v.c
      e := v.d }) digest
  ⟨digest.a + v.a, digest.b + v.b, digest.c + v.c, digest.d + v.d, digest.e + v.e⟩

namespace Digest

def bytes (h : Digest) : List UInt8 := be32 h.a ++ be32 h.b ++ be32 h.c ++ be32 h.d ++ be32 h.e

def load (m : Bytes) (a : ℕ) : Digest :=
  ⟨m.load32 a, m.load32 (a + 4), m.load32 (a + 8), m.load32 (a + 12), m.load32 (a + 16)⟩

@[simp] theorem length_bytes (h : Digest) : h.bytes.length = 20 := by simp [bytes]

theorem load_blit (m : Bytes) (a : ℕ) (h : Digest) : load (m.blit a h.bytes) a = h := by
  have hall := m.slice_blit_self a h.bytes
  simp only [bytes, slice_append_iff] at hall
  simp only [length_append, length_be32] at hall
  obtain ⟨⟨⟨⟨ha, hb⟩, hc⟩, hd⟩, he⟩ := hall
  exact Digest.ext (load32_of_slice ha) (load32_of_slice hb)
    (load32_of_slice hc) (load32_of_slice hd) (load32_of_slice he)

theorem load_eq_of_eqOn {m m' : Bytes} {a b c : ℕ} (h : m.EqOn m' a b) (hac : a ≤ c)
    (hcb : c + 20 ≤ b) : load m c = load m' c := by
  simp only [load, h.load32_eq (c := c) (by omega) (by omega),
    h.load32_eq (c := c + 4) (by omega) (by omega), h.load32_eq (c := c + 8) (by omega) (by omega),
    h.load32_eq (c := c + 12) (by omega) (by omega),
    h.load32_eq (c := c + 16) (by omega) (by omega)]

end Digest

/-! ## The static variables -/

def toInt (x : UInt32) : ℤ := if x.toNat < 2 ^ 31 then x.toNat else x.toNat - 2 ^ 32

/-- **The static variables of `ead-crypt.c`.** -/
structure Crypt where
  key : List UInt8
  rxIv : UInt32
  txIv : UInt32
  ivofsVec : UInt32
  ivofsIdx : Fin 16
deriving DecidableEq

namespace Crypt

theorem ivofsIdx_lt (idx : ℕ) : idx % 16 < 16 := Nat.mod_lt idx (by decide)

def initial : Crypt := ⟨[], 0, 0, 0, ⟨0 % 16, ivofsIdx_lt 0⟩⟩

def eadSetKey (st : Crypt) (host : ByteOrder) (skey : Bytes) : Crypt :=
  let iv := skey.load32 32 &&& 0x00ffffff
  { st with
    key := skey.slice 0 16
    rxIv := iv
    txIv := iv
    ivofsVec := .ofNat (skey.load host 4 36) }

def eadMaxIvIncr : UInt32 := 128

def eadCheckRxIv (st : Crypt) (iv : UInt32) : Option Crypt :=
  if iv ≤ st.rxIv then none
  else if iv > st.rxIv + eadMaxIvIncr then none
  else some { st with rxIv := iv }

def eadGetTxIv (st : Crypt) : Crypt × UInt32 :=
  let ofs : UInt32 := 1 + ((st.ivofsVec >>> (2 * UInt32.ofNat st.ivofsIdx)) &&& 0x3)
  let idx := st.ivofsIdx.1 + 1
  let st := { st with ivofsIdx := ⟨idx % 16, ivofsIdx_lt idx⟩, txIv := st.txIv + ofs }
  (st, st.txIv)

end Crypt

/-! ## Messages

The addresses are those of `struct ead_msg` and, from 20 on,
`struct ead_msg_encrypted`. -/

def sizeofEncrypted : UInt32 := 25

def eadEncPad : UInt32 := 64

def hashBlocks (transform : Digest → List UInt8 → Digest) (m : Bytes) : ℕ → ℕ → Digest → Digest
  | 0, _, hash => hash
  | n + 1, data, hash => hashBlocks transform m n (data + 64) (transform hash (m.slice data 64))

def eadHashMessage (msg : Bytes) (len : ℤ) : Bytes × Digest :=
  let msg := msg.blit 20 (replicate 20 0)
  (msg, hashBlocks shaTransform msg (blockCount 64 len) 20 shaInit)

def encPad (len : UInt32) : UInt32 := (eadEncPad - len % eadEncPad) % eadEncPad

section Cipher

def plainMessage (msg : Bytes) (iv len : UInt32) : Bytes :=
  let len := len + sizeofEncrypted
  let msg := msg.blit 44 [(encPad len).toUInt8]
  let enclen := len + encPad len
  let msg := msg.blit 4 (be32 enclen)
  let msg := msg.blit 40 (be32 iv)
  let (msg, hash) := eadHashMessage msg (toInt enclen)
  msg.blit 20 hash.bytes

def encLen (len : UInt32) : UInt32 := len + sizeofEncrypted + encPad (len + sizeofEncrypted)

/-- The cipher of `aes_enc_ctx` and `aes_dec_ctx`: a key of bytes, blocks of sixteen bytes. -/
abbrev Aes := BlockCipher (List UInt8) UInt8 16

def eadEncryptMessage (aes : Aes) (st : Crypt) (msg : Bytes) (len : UInt32) : Crypt × Bytes :=
  let (st, iv) := st.eadGetTxIv
  let msg := plainMessage msg iv len
  (st, msg.eachBlock (aes.encrypt st.key) 16 (blockCount 16 (toInt (encLen len))) 20)

def eadDecryptMessage (aes : Aes) (st : Crypt) (msg : Bytes) : Crypt × Bytes × ℤ :=
  let enclen := msg.load32 4
  let len := toInt enclen
  if len = 0 ∨ 0 < len.tmod 64 then (st, msg, 0)
  else
    let msg := msg.eachBlock (aes.decrypt st.key) 16 (blockCount 16 len) 20
    if 64 ≤ (msg 44).toNat then (st, msg, 0)
    else
      match st.eadCheckRxIv (msg.load32 40) with
      | none => (st, msg, 0)
      | some st =>
        let hashOld := Digest.load msg 20
        let (msg, hashNew) := eadHashMessage msg len
        if hashOld ≠ hashNew then (st, msg, 0)
        -- the difference is unsigned, as `sizeof` is
        else (st, msg, toInt (enclen - ((msg 44).toUInt32 + sizeofEncrypted)))

end Cipher

/-! ## Lengths -/

theorem toNat_encLen {len : UInt32} (h : len.toNat < 2 ^ 31) :
    (encLen len).toNat = len.toNat + 25 + (encPad (len + sizeofEncrypted)).toNat
      ∧ (encLen len).toNat % 64 = 0 ∧ (encPad (len + sizeofEncrypted)).toNat < 64 := by
  have hlen : (len + sizeofEncrypted).toNat = len.toNat + 25 := by
    rw [UInt32.toNat_add, show sizeofEncrypted.toNat = 25 from rfl]
    omega
  have hpad : (encPad (len + sizeofEncrypted)).toNat = (64 - (len.toNat + 25) % 64) % 64 := by
    have hmod := (len + sizeofEncrypted).toNat.mod_lt (show 64 > 0 by decide)
    rw [encPad, UInt32.toNat_mod, UInt32.toNat_sub, UInt32.toNat_mod, hlen,
      show eadEncPad.toNat = 64 from rfl]
    omega
  have henc : (encLen len).toNat = len.toNat + 25 + (64 - (len.toNat + 25) % 64) % 64 := by
    rw [encLen, UInt32.toNat_add, hlen, hpad]
    omega
  omega

theorem toInt_encLen_sub {len : UInt32} (h : len.toNat < 2 ^ 31) :
    toInt (encLen len - ((encPad (len + sizeofEncrypted)).toUInt8.toUInt32 + sizeofEncrypted))
      = len.toNat := by
  obtain ⟨henc, -, hpad⟩ := toNat_encLen h
  have hsub : (encLen len
      - ((encPad (len + sizeofEncrypted)).toUInt8.toUInt32 + sizeofEncrypted)).toNat
        = len.toNat := by
    rw [UInt32.toNat_sub, UInt32.toNat_add, UInt8.toNat_toUInt32, UInt32.toNat_toUInt8,
      show sizeofEncrypted.toNat = 25 from rfl, henc]
    omega
  rw [toInt, hsub, if_pos h]

theorem blockCount_mul_le (x : UInt32) (h : x.toNat % 64 = 0) :
    blockCount 16 (toInt x) * 16 ≤ x.toNat ∧ blockCount 64 (toInt x) * 64 ≤ x.toNat := by
  simp only [blockCount, toInt]
  split_ifs <;> omega

/-! ## The plain message -/

theorem hashBlocks_eq_of_eqOn {m : Bytes} (transform : Digest → List UInt8 → Digest)
    {m' : Bytes} {b n data : ℕ} (h : m.EqOn m' data b) (hn : data + n * 64 ≤ b) (hash : Digest) :
    hashBlocks transform m n data hash = hashBlocks transform m' n data hash := by
  induction n generalizing data hash with
  | zero => rfl
  | succ n ih =>
    have hfirst : m.slice data 64 = m'.slice data 64 := h.slice_eq (by omega) (by omega)
    rw [hashBlocks, hashBlocks, hfirst, ih (h.mono (by omega) (Nat.le_refl _)) (by omega)]

variable (msg : Bytes) (iv len : UInt32)

def zeroedMessage : Bytes :=
  (((msg.blit 44 [(encPad (len + sizeofEncrypted)).toUInt8]).blit 4 (be32 (encLen len))).blit 40
    (be32 iv)).blit 20 (replicate 20 0)

theorem plainMessage_eq : plainMessage msg iv len = (zeroedMessage msg iv len).blit 20
    (hashBlocks shaTransform (zeroedMessage msg iv len) (blockCount 64 (toInt (encLen len))) 20
      shaInit).bytes := rfl

theorem blit_plainMessage :
    (plainMessage msg iv len).blit 20 (replicate 20 0) = zeroedMessage msg iv len := by
  rw [plainMessage_eq]
  refine blit_blit_restore _ _ (by simp) ?_
  exact slice_blit_self ..

theorem plainMessage_len : (plainMessage msg iv len).load32 4 = encLen len := by
  rw [plainMessage_eq, load32_blit_of_disjoint _ (by simp), zeroedMessage,
    load32_blit_of_disjoint _ (by simp), load32_blit_of_disjoint _ (by simp), load32_blit_self]

theorem plainMessage_iv : (plainMessage msg iv len).load32 40 = iv := by
  rw [plainMessage_eq, load32_blit_of_disjoint _ (by simp), zeroedMessage,
    load32_blit_of_disjoint _ (by simp), load32_blit_self]

theorem plainMessage_pad :
    plainMessage msg iv len 44 = (encPad (len + sizeofEncrypted)).toUInt8 := by
  rw [plainMessage_eq, blit_of_outside _ (by simp), zeroedMessage, blit_of_outside _ (by simp),
    blit_of_outside _ (by simp), blit_of_outside _ (by simp), blit_cons_self]

theorem slice_plainMessage {a n : ℕ} (h : 8 ≤ a ∧ a + n ≤ 20 ∨ 45 ≤ a) :
    (plainMessage msg iv len).slice a n = msg.slice a n := by
  rw [plainMessage_eq, slice_blit_of_disjoint _ (by simp; omega), zeroedMessage,
    slice_blit_of_disjoint _ (by simp; omega), slice_blit_of_disjoint _ (by simp; omega),
    slice_blit_of_disjoint _ (by simp; omega), slice_blit_of_disjoint _ (by simp; omega)]

/-! ## The round trip -/

variable {msg iv len}

theorem eadEncryptMessage_len (aes : Aes) (st : Crypt)
    (msg : Bytes) (len : UInt32) : (eadEncryptMessage aes st msg len).2.load32 4 = encLen len := by
  show ((plainMessage msg _ len).eachBlock (aes.encrypt st.key) 16 _ 20).load32 4 = _
  rw [eachBlock_eq_blit (aes.length_encrypt _),
    load32_blit_of_disjoint _ (Or.inl (by decide)), plainMessage_len]

theorem eachBlock_decrypt_eqOn {m : Bytes} (aes : Aes) (hlen : len.toNat < 2 ^ 31)
    (key : List UInt8) (h : ((plainMessage msg iv len).eachBlock (aes.encrypt key) 16
      (blockCount 16 (toInt (encLen len))) 20).EqOn m 20 (20 + (encLen len).toNat)) :
    (m.eachBlock (aes.decrypt key) 16 (blockCount 16 (toInt (encLen len))) 20).EqOn
      (plainMessage msg iv len) 20 (20 + (encLen len).toNat) := by
  have hle := (blockCount_mul_le _ (toNat_encLen hlen).2.1).1
  set n := blockCount 16 (toInt (encLen len))
  set plain := plainMessage msg iv len
  have hcipher : (ecb (aes.encrypt key) 16 n (plain.slice 20 (n * 16))).length = n * 16 :=
    length_ecb (aes.length_encrypt key) n (by simp)
  rw [eachBlock_eq_blit (aes.length_encrypt key)] at h
  -- the blocks that arrive are those of the plain message under the cipher
  have hslice : m.slice 20 (n * 16) = ecb (aes.encrypt key) 16 n (plain.slice 20 (n * 16)) := by
    have hself := plain.slice_blit_self 20 (ecb (aes.encrypt key) 16 n (plain.slice 20 (n * 16)))
    rw [hcipher] at hself
    rw [← h.slice_eq (by omega) (by omega), hself]
  rw [eachBlock_eq_blit (aes.length_decrypt key), hslice,
    ecb_ecb (aes.length_encrypt key) (aes.decrypt_encrypt key) n (by simp)]
  intro i hlo hi
  by_cases hin : i < 20 + n * 16
  · exact eqOn_blit_slice m plain 20 (n * 16) i hlo hin
  · rw [blit_of_outside _ (by simp; omega), ← h i hlo hi,
      blit_of_outside _ (by rw [hcipher]; omega)]

theorem eadDecryptMessage_sent {m : Bytes} (aes : Aes)
    {st st' : Crypt} (hkey : st'.key = st.key) (hlen : len.toNat < 2 ^ 31)
    (hfield : m.load32 4 = encLen len)
    (h : (eadEncryptMessage aes st msg len).2.EqOn m 20 (20 + (encLen len).toNat)) :
    ∃ m', m'.slice 45 len.toNat = msg.slice 45 len.toNat
      ∧ eadDecryptMessage aes st' m
        = match st'.eadCheckRxIv st.eadGetTxIv.2 with
          | none => (st', m', 0)
          | some st'' => (st'', m', len.toNat) := by
  obtain ⟨henc, hmod, hpad⟩ := toNat_encLen hlen
  set iv := st.eadGetTxIv.2
  have hsent : ((plainMessage msg iv len).eachBlock (aes.encrypt st.key) 16
      (blockCount 16 (toInt (encLen len))) 20).EqOn m 20 (20 + (encLen len).toNat) := h
  have hd := eachBlock_decrypt_eqOn aes hlen st.key hsent
  have hnot : ¬ (toInt (encLen len) = 0 ∨ 0 < (toInt (encLen len)).tmod 64) := by
    have hdvd : (64 : ℤ) ∣ toInt (encLen len) := by
      rw [toInt]
      split_ifs <;> omega
    rw [Int.tmod_eq_zero_of_dvd hdvd, toInt]
    split_ifs <;> omega
  rw [eadDecryptMessage]
  simp only [hfield, hkey, if_neg hnot]
  set d := m.eachBlock (aes.decrypt st.key) 16 (blockCount 16 (toInt (encLen len))) 20
  have hdpad : d 44 = (encPad (len + sizeofEncrypted)).toUInt8 := by
    rw [hd 44 (by omega) (by omega), plainMessage_pad]
  have hdiv : d.load32 40 = iv := by rw [hd.load32_eq (by omega) (by omega), plainMessage_iv]
  have hdslice : d.slice 45 len.toNat = msg.slice 45 len.toNat := by
    rw [hd.slice_eq (by omega) (by omega), slice_plainMessage _ _ _ (by omega)]
  have hbyte : (encPad (len + sizeofEncrypted)).toUInt8.toNat
      = (encPad (len + sizeofEncrypted)).toNat := by
    rw [UInt32.toNat_toUInt8]
    omega
  rw [if_neg (by rw [hdpad, hbyte]; omega), hdiv]
  cases hcheck : st'.eadCheckRxIv iv with
  | none => exact ⟨d, hdslice, rfl⟩
  | some st'' =>
    refine ⟨d.blit 20 (replicate 20 0), ?_, ?_⟩
    · rw [slice_blit_of_disjoint _ (by simp), hdslice]
    · have hzeroed := hd.blit 20 (replicate 20 0)
      rw [blit_plainMessage] at hzeroed
      have hhash : Digest.load d 20
          = hashBlocks shaTransform (d.blit 20 (replicate 20 0))
            (blockCount 64 (toInt (encLen len))) 20 shaInit := by
        have hle := (blockCount_mul_le _ hmod).2
        rw [hashBlocks_eq_of_eqOn _ hzeroed (by omega),
          Digest.load_eq_of_eqOn hd (Nat.le_refl 20) (by omega), plainMessage_eq, Digest.load_blit]
      have hpadKept : d.blit 20 (replicate 20 0) 44 = d 44 := blit_of_outside _ (by simp)
      simp only [eadHashMessage, ← hhash, ne_eq, not_true_eq_false, if_false, hpadKept, hdpad]
      rw [toInt_encLen_sub hlen]

end Ead
