import RouterFirmware.EadCrypt
import RouterFirmware.ReplayWindow
import Mathlib.Algebra.BigOperators.Intervals
import Mathlib.Algebra.Order.BigOperators.Group.Finset

/-!
# The encrypted channel of ead

A party sends messages; the network drops, repeats and reorders them; another
party with the same key receives. Each message has a number, and the receiver
accepts only numbers in a window of 128 above the last one it has accepted. The
numbers of a sender grow by one to four from message to message, in a pattern
that comes from the key, so that 32 messages fit the window.

The bound of the window is computed modulo 2³²: shortly before the numbers
overflow it is below the last number, and no message is accepted any more. This
is the one exception to delivery in order (`channel_delivers_iff`). That no
message is accepted twice holds without exception, by the replay window of the
module `ReplayWindow`.
-/

namespace Ead

open Finset Nat Function ReplayWindow

/-! ## Numbers -/

namespace Crypt

/-- The step to the next number, between 1 and 4. -/
def ofs (st : Crypt) : UInt32 := 1 + ((st.ivofsVec >>> (2 * UInt32.ofNat st.ivofsIdx)) &&& 0x3)

/-- The static variables after `n` messages have been sent. -/
def sent (st : Crypt) (n : ℕ) : Crypt := (fun st => st.eadGetTxIv.1)^[n] st

/-- The number of the `n`-th message, if the counter does not overflow. -/
def number (st : Crypt) (n : ℕ) : ℕ := st.txIv.toNat + ∑ i ∈ range n, (st.sent i).ofs.toNat

variable (st : Crypt)

theorem ofs_pos : 0 < st.ofs.toNat ∧ st.ofs.toNat ≤ 4 := by
  have hle : ((st.ivofsVec >>> (2 * UInt32.ofNat st.ivofsIdx)) &&& 0x3).toNat ≤ 3 := by
    rw [UInt32.toNat_and]
    exact and_le_right
  rw [ofs, UInt32.toNat_add, show (1 : UInt32).toNat = 1 from rfl]
  omega

@[simp] theorem number_zero : st.number 0 = st.txIv.toNat := by simp [number]

theorem number_succ (n : ℕ) : st.number (n + 1) = st.number n + (st.sent n).ofs.toNat := by
  rw [number, sum_range_succ, ← Nat.add_assoc, number]

@[simp] theorem key_sent (n : ℕ) : (st.sent n).key = st.key := by
  induction n with
  | zero => rfl
  | succ n ih =>
    rw [sent, iterate_succ_apply']
    exact ih

theorem toNat_txIv_sent (n : ℕ) : (st.sent n).txIv.toNat = st.number n % 2 ^ 32 := by
  induction n with
  | zero =>
    rw [number_zero, Nat.mod_eq_of_lt st.txIv.toNat_lt]
    rfl
  | succ n ih =>
    have hstep : (st.sent (n + 1)).txIv = (st.sent n).txIv + (st.sent n).ofs := by
      rw [sent, iterate_succ_apply']
      rfl
    rw [hstep, UInt32.toNat_add, ih, number_succ, Nat.mod_add_mod]

theorem number_strictMono : StrictMono st.number :=
  strictMono_nat_of_lt_succ fun n => by
    have hpos := (st.sent n).ofs_pos
    rw [number_succ]
    omega

theorem number_add_le (n k : ℕ) : st.number (n + k) ≤ st.number n + 4 * k := by
  induction k with
  | zero => exact le_refl _
  | succ k ih =>
    have hpos := (st.sent (n + k)).ofs_pos
    rw [← add_assoc, number_succ]
    omega

/-- **The window**, for numbers: the bound is computed in 32 bits. -/
def InWindow (rx iv : ℕ) : Prop := rx < iv ∧ iv ≤ (rx + 128) % 2 ^ 32

instance (rx iv : ℕ) : Decidable (InWindow rx iv) := inferInstanceAs (Decidable (_ ∧ _))

theorem eadCheckRxIv_eq (iv : UInt32) : st.eadCheckRxIv iv
    = if InWindow st.rxIv.toNat iv.toNat then some { st with rxIv := iv } else none := by
  have hbound : (st.rxIv + eadMaxIvIncr).toNat = (st.rxIv.toNat + 128) % 2 ^ 32 :=
    UInt32.toNat_add ..
  simp only [eadCheckRxIv, UInt32.le_iff_toNat_le, gt_iff_lt, UInt32.lt_iff_toNat_lt, hbound]
  by_cases hle : iv.toNat ≤ st.rxIv.toNat
  · rw [if_pos hle, if_neg fun h => Nat.not_lt.2 hle h.1]
  · by_cases hgt : (st.rxIv.toNat + 128) % 2 ^ 32 < iv.toNat
    · rw [if_neg hle, if_pos hgt, if_neg fun h => Nat.not_lt.2 h.2 hgt]
    · rw [if_neg hle, if_neg hgt, if_pos ⟨Nat.lt_of_not_le hle, Nat.le_of_not_lt hgt⟩]

end Crypt

/-- **Decryption keeps the key and never moves the window back.** -/
theorem eadDecryptMessage_crypt (aes : Aes) (st : Crypt) (msg : Bytes) :
    (eadDecryptMessage aes st msg).1.key = st.key
      ∧ st.rxIv.toNat ≤ (eadDecryptMessage aes st msg).1.rxIv.toNat := by
  have hcheck (iv : UInt32) (st' : Crypt) (h : st.eadCheckRxIv iv = some st') :
      st'.key = st.key ∧ st.rxIv.toNat ≤ st'.rxIv.toNat := by
    rw [Crypt.eadCheckRxIv_eq] at h
    split_ifs at h with hin
    obtain rfl := Option.some.inj h
    exact ⟨rfl, hin.1.le⟩
  simp only [eadDecryptMessage]
  split_ifs
  · exact ⟨rfl, Nat.le_refl _⟩
  · exact ⟨rfl, Nat.le_refl _⟩
  all_goals
    cases h : st.eadCheckRxIv _ with
    | none => exact ⟨rfl, Nat.le_refl _⟩
    | some st' => exact hcheck _ _ h

/-! ## The channel -/

variable (aes : Aes) {r : Crypt}

/-- **A message to be sent**, with a length that fits an `int`. -/
structure Outgoing where
  msg : Bytes
  len : UInt32
  len_pos : 0 < len.toNat
  len_lt : len.toNat < 2 ^ 31

/-- The text of the message. -/
def Outgoing.payload (o : Outgoing) : List UInt8 := o.msg.slice 45 o.len.toNat

/-- The messages as they are sent, one after the other. -/
def sendAll : Crypt → List Outgoing → List Bytes
  | _, [] => []
  | st, o :: out =>
    let (st, m) := eadEncryptMessage aes st o.msg o.len
    m :: sendAll st out

/-- The messages after `ead_decrypt_message`. -/
def receiveAll : Crypt → List Bytes → List (Bytes × ℤ)
  | _, [] => []
  | st, m :: ms =>
    let (st, m, ret) := eadDecryptMessage aes st m
    (m, ret) :: receiveAll st ms

theorem getElem_sendAll (st : Crypt) (out : List Outgoing) (i : ℕ) (hi : i < out.length) :
    (sendAll aes st out)[i]?
      = some (eadEncryptMessage aes (st.sent i) out[i].msg out[i].len).2 := by
  induction out generalizing st i with
  | nil => exact absurd hi (Nat.not_lt_zero i)
  | cons o out ih =>
    cases i with
    | zero => rfl
    | succ i => exact ih _ i (Nat.lt_of_succ_lt_succ hi)

/-- **A copy of a sent message in a buffer of the receiver.** -/
structure Arrival (st : Crypt) (out : List Outgoing) where
  index : Fin out.length
  msg : Bytes
  eqOn : ∀ m ∈ (sendAll aes st out)[index.1]?,
    m.EqOn msg 0 (20 + (encLen out[index].len).toNat)

variable {aes} {st : Crypt} {out : List Outgoing}

theorem Arrival.eadDecryptMessage_eq (a : Arrival aes st out) (hkey : r.key = st.key) :
    ∃ m : Bytes, m.slice 45 out[a.index].len.toNat = out[a.index].payload
      ∧ eadDecryptMessage aes r a.msg
        = if Crypt.InWindow r.rxIv.toNat (st.number (a.index + 1) % 2 ^ 32) then
            ({ r with rxIv := (st.sent (a.index + 1)).txIv }, m, (out[a.index].len.toNat : ℤ))
          else (r, m, 0) := by
  have hsent := a.eqOn _ (getElem_sendAll aes st out a.index a.index.isLt)
  have hiv : (st.sent a.index).eadGetTxIv.2 = (st.sent (a.index + 1)).txIv := by
    rw [Crypt.sent, Crypt.sent, iterate_succ_apply']
    rfl
  have hkeys : r.key = (st.sent a.index).key := by rw [hkey, Crypt.key_sent]
  have hfield : a.msg.load32 4 = encLen out[a.index].len := by
    have hlen := (toNat_encLen out[a.index].len_lt).1
    rw [← hsent.load32_eq (by omega) (by omega)]
    exact eadEncryptMessage_len ..
  obtain ⟨m, hm, hret⟩ := eadDecryptMessage_sent aes hkeys out[a.index].len_lt hfield
    (hsent.mono (Nat.zero_le 20) (Nat.le_refl _))
  refine ⟨m, hm, ?_⟩
  rw [hret, hiv, Crypt.eadCheckRxIv_eq, Crypt.toNat_txIv_sent]
  split_ifs <;> rfl

/-- A message is **received intact** if `ead_decrypt_message` returns its
length and leaves its payload. -/
def Intact (a : Arrival aes st out) (result : Bytes × ℤ) : Prop :=
  result.2 = out[a.index].len.toNat
    ∧ result.1.slice 45 out[a.index].len.toNat = out[a.index].payload

/-- The messages arrive **in order, with fewer than 32 losses in a row**. -/
def InOrder (arrivals : List (Arrival aes st out)) : Prop :=
  (0 :: arrivals.map fun a => a.index.1 + 1).IsChain fun i j => i < j ∧ j ≤ i + 32

/-- The arrivals that `ead_decrypt_message` accepts. -/
def acceptedOf (r : Crypt) (arrivals : List (Arrival aes st out)) : List (Arrival aes st out) :=
  accepted (fun r a => (eadDecryptMessage aes r a.msg).1)
    (fun r a => (eadDecryptMessage aes r a.msg).2.2 ≠ 0) r arrivals

/-- The induction over the messages that arrive: all are intact exactly if the
bound of the window never wraps around. -/
theorem receiveAll_intact_iff (hover : st.number out.length < 2 ^ 32)
    (arrivals : List (Arrival aes st out)) (hkey : r.key = st.key) {k : ℕ}
    (hrx : r.rxIv.toNat = st.number k)
    (horder : (k :: arrivals.map fun a => a.index.1 + 1).IsChain fun i j => i < j ∧ j ≤ i + 32) :
    List.Forall₂ Intact arrivals (receiveAll aes r (arrivals.map (·.msg)))
      ↔ ∀ i ∈ (k :: arrivals.map fun a => a.index.1 + 1).dropLast,
          st.number i + 128 < 2 ^ 32 := by
  induction arrivals generalizing r k with
  | nil => simp [receiveAll]
  | cons a arrivals ih =>
    obtain ⟨m, hm, hret⟩ := a.eadDecryptMessage_eq hkey
    rw [List.map_cons, List.isChain_cons_cons] at horder
    obtain ⟨⟨hlt, hle⟩, horder⟩ := horder
    have hgrow : st.number k < st.number (a.index + 1) := st.number_strictMono hlt
    have hnear : st.number (a.index + 1) ≤ st.number k + 128 := by
      have hadd := st.number_add_le k (a.index + 1 - k)
      rw [Nat.add_sub_cancel' (by omega)] at hadd
      omega
    have hfits : st.number (a.index + 1) < 2 ^ 32 :=
      lt_of_le_of_lt (st.number_strictMono.monotone a.index.isLt) hover
    rw [List.map_cons, receiveAll, hret, Nat.mod_eq_of_lt hfits, hrx, List.map_cons,
      List.dropLast_cons_cons, List.forall_mem_cons]
    by_cases hroom : st.number k + 128 < 2 ^ 32
    · have hin : Crypt.InWindow (st.number k) (st.number (a.index + 1)) :=
        ⟨hgrow, by rw [mod_eq_of_lt hroom]; exact hnear⟩
      have hrest := ih (r := { r with rxIv := (st.sent (a.index + 1)).txIv }) hkey
        (by rw [Crypt.toNat_txIv_sent, mod_eq_of_lt hfits]) horder
      rw [if_pos hin, List.forall₂_cons, hrest]
      exact and_congr (iff_of_true ⟨rfl, hm⟩ hroom) Iff.rfl
    · -- the bound of the window has wrapped around
      have hout : ¬ Crypt.InWindow (st.number k) (st.number (a.index + 1)) := by
        rintro ⟨-, hle⟩
        omega
      rw [if_neg hout, List.forall₂_cons]
      refine iff_of_false (fun h => ?_) fun h => hroom h.1
      have hlen := out[a.index].len_pos
      have hzero : (0 : ℤ) = out[a.index].len.toNat := h.1.1
      omega

/-- **The numbers of the accepted messages increase.** -/
theorem pairwise_acceptedOf (arrivals : List (Arrival aes st out)) (hkey : r.key = st.key) :
    (acceptedOf r arrivals).Pairwise fun a b =>
      st.number (a.index + 1) % 2 ^ 32 < st.number (b.index + 1) % 2 ^ 32 := by
  refine (pairwise_accepted (fun r : Crypt => r.key = st.key)
    (fun r => r.rxIv.toNat) _ ?_ ?_ ?_ hkey arrivals).1
  · intro r a hkey
    obtain ⟨m, -, hret⟩ := a.eadDecryptMessage_eq hkey
    rw [hret]
    split_ifs <;> exact hkey
  · intro r a hkey
    obtain ⟨m, -, hret⟩ := a.eadDecryptMessage_eq hkey
    rw [hret]
    split_ifs with hin
    · exact le_of_lt (by rw [Crypt.toNat_txIv_sent]; exact hin.1)
    · exact le_refl _
  · intro r a hkey haccept
    obtain ⟨m, -, hret⟩ := a.eadDecryptMessage_eq hkey
    rw [hret] at haccept ⊢
    split_ifs at haccept ⊢ with hin
    · exact ⟨hin.1, by rw [Crypt.toNat_txIv_sent]⟩
    · exact absurd haccept (by simp)

theorem nodup_acceptedOf (arrivals : List (Arrival aes st out)) (hkey : r.key = st.key) :
    ((acceptedOf r arrivals).map (·.index)).Nodup := by
  refine List.pairwise_map.2 ((pairwise_acceptedOf arrivals hkey).imp ?_)
  intro a b hlt heq
  rw [heq] at hlt
  exact absurd hlt (lt_irrefl _)

theorem acceptedOf_sublist (hover : st.number out.length < 2 ^ 32)
    (arrivals : List (Arrival aes st out)) (hkey : r.key = st.key) :
    ((acceptedOf r arrivals).map (·.index)).Sublist (List.finRange out.length) := by
  have hsorted : ((acceptedOf r arrivals).map (·.index)).Pairwise (· < ·) := by
    refine List.pairwise_map.2 ((pairwise_acceptedOf arrivals hkey).imp fun {a b} hlt => ?_)
    have hfits (c : Arrival aes st out) : st.number (c.index + 1) < 2 ^ 32 :=
      lt_of_le_of_lt (st.number_strictMono.monotone c.index.isLt) hover
    rw [mod_eq_of_lt (hfits a), mod_eq_of_lt (hfits b)] at hlt
    have hindex := st.number_strictMono.lt_iff_lt.1 hlt
    exact Fin.lt_def.2 (by omega)
  refine List.sublist_of_subperm_of_pairwise (r := (· ≤ ·)) ?_ (hsorted.imp le_of_lt) ?_
  · exact List.subperm_of_subset (nodup_acceptedOf arrivals hkey) fun i _ => List.mem_finRange i
  · exact (List.pairwise_lt_finRange _).imp le_of_lt

/-- **The encrypted channel.** Of the messages that arrive in order with fewer
than 32 losses in a row, before the counter overflows, all are received
intact exactly if every one but the last has a number below 2³² – 128. In any
order and with repetitions, none is accepted twice and those accepted are a
subsequence of those sent. -/
theorem channel_delivers_iff (aes : Aes) (host host' : ByteOrder)
    (skey : Bytes) (sender receiver : Crypt) (out : List Outgoing)
    (arrivals : List (Arrival aes (sender.eadSetKey host skey) out)) :
    ((sender.eadSetKey host skey).number out.length < 2 ^ 32 → InOrder arrivals →
      (List.Forall₂ Intact arrivals
          (receiveAll aes (receiver.eadSetKey host' skey) (arrivals.map (·.msg)))
        ↔ ∀ a ∈ arrivals.dropLast,
            (sender.eadSetKey host skey).number (a.index + 1) + 128 < 2 ^ 32))
      ∧ ((acceptedOf (receiver.eadSetKey host' skey) arrivals).map (·.index)).Nodup
      ∧ ((sender.eadSetKey host skey).number out.length < 2 ^ 32 →
        ((acceptedOf (receiver.eadSetKey host' skey) arrivals).map (·.index)).Sublist
          (List.finRange out.length)) := by
  have hkey : (receiver.eadSetKey host' skey).key = (sender.eadSetKey host skey).key := rfl
  refine ⟨fun hover horder => ?_, nodup_acceptedOf arrivals hkey,
    fun hover => acceptedOf_sublist hover arrivals hkey⟩
  have hstart : (sender.eadSetKey host skey).number 0 + 128 < 2 ^ 32 := by
    have hle : (skey.load32 32 &&& 0x00ffffff).toNat ≤ 0x00ffffff := by
      rw [UInt32.toNat_and]
      exact and_le_right
    have htx : (sender.eadSetKey host skey).txIv = skey.load32 32 &&& 0x00ffffff := rfl
    rw [Crypt.number_zero, htx]
    omega
  have hrx : (receiver.eadSetKey host' skey).rxIv.toNat
      = (sender.eadSetKey host skey).number 0 := by
    rw [Crypt.number_zero]
    rfl
  rw [receiveAll_intact_iff hover arrivals hkey hrx horder]
  cases arrivals with
  | nil => simp
  | cons a arrivals =>
    rw [List.map_cons, List.dropLast_cons_cons, List.forall_mem_cons, and_iff_right hstart,
      ← List.map_cons (f := fun a : Arrival aes _ out => a.index.1 + 1), ← List.map_dropLast,
      List.forall_mem_map]

/-! ## A channel that ends early -/

/-- A byte of a block, combined with a byte of the key and with its place. -/
def xorByte (k : List UInt8) (i : ℕ) (x : UInt8) : UInt8 := x ^^^ (k.getD i 0 + .ofNat i + 1)

/-- A simple cipher in the place of AES, for runs on fixed inputs. -/
def xorCipher : Aes where
  encrypt k b := b.mapIdx (xorByte k)
  decrypt k b := b.mapIdx (xorByte k)
  length_encrypt _ _ h := List.length_mapIdx.trans h
  length_decrypt _ _ h := List.length_mapIdx.trans h
  decrypt_encrypt k b _ := by
    have htwice : ∀ i x, xorByte k i (xorByte k i x) = x := fun i x => by
      rw [xorByte, xorByte, UInt8.xor_assoc, UInt8.xor_self, UInt8.xor_zero]
    rw [List.mapIdx_mapIdx]
    exact List.ext_getElem (by simp) fun i _ _ => by simp [htwice]

def oneByte : Outgoing := ⟨fun _ => 0, 1, by decide, by decide⟩

/-- A key with the first number 0 and all increments 4. -/
def fastKey : Bytes := fun i => if i < 36 then 0 else 255

/-- The static variables when the program starts, with a key. -/
def keyed (skey : Bytes) : Crypt := Crypt.initial.eadSetKey .little skey

def Arrival.exact (aes : Aes) (st : Crypt) (out : List Outgoing)
    (i : Fin out.length) : Arrival aes st out :=
  ⟨i, (eadEncryptMessage aes (st.sent i) out[i].msg out[i].len).2, by
    rw [getElem_sendAll aes st out i i.isLt]
    rintro m ⟨⟩
    exact fun _ _ _ => rfl⟩

/-- Three messages of which the second is lost. -/
theorem channel_delivers_twoOfThree : List.Forall₂ Intact
    [Arrival.exact xorCipher (keyed fastKey) [oneByte, oneByte, oneByte] 0,
      Arrival.exact xorCipher (keyed fastKey) [oneByte, oneByte, oneByte] 2]
    (receiveAll xorCipher (keyed fastKey)
      ([Arrival.exact xorCipher (keyed fastKey) [oneByte, oneByte, oneByte] 0,
        Arrival.exact xorCipher (keyed fastKey) [oneByte, oneByte, oneByte] 2].map (·.msg))) :=
  ((channel_delivers_iff xorCipher .little .little fastKey .initial .initial
    [oneByte, oneByte, oneByte] _).1 (by decide) (by unfold InOrder; decide)).2 (by decide)

theorem number_fastKey (n : ℕ) : (keyed fastKey).number n = 4 * n := by
  have hvec (i : ℕ) : ((keyed fastKey).sent i).ivofsVec = 0xffffffff := by
    induction i with
    | zero => decide
    | succ i ih =>
      rw [Crypt.sent, iterate_succ_apply']
      exact ih
  have hofs (i : ℕ) : ((keyed fastKey).sent i).ofs.toNat = 4 := by
    have hall : ∀ idx : Fin 16,
        ((1 : UInt32) + ((0xffffffff >>> (2 * UInt32.ofNat idx)) &&& 0x3)).toNat = 4 := by decide
    rw [Crypt.ofs, hvec]
    exact hall _
  induction n with
  | zero => decide
  | succ n ih =>
    rw [Crypt.number_succ, ih, hofs]
    omega

/-- Many messages with one byte, none of which is lost. -/
def noLosses (n : ℕ) : List (Arrival xorCipher (keyed fastKey) (List.replicate n oneByte)) :=
  (List.finRange _).map (Arrival.exact xorCipher (keyed fastKey) (List.replicate n oneByte))

theorem map_index_noLosses (n : ℕ) :
    (0 :: (noLosses n).map fun a => a.index.1 + 1) = List.range (n + 1) := by
  have hcoe : (noLosses n).map (fun a => a.index.1 + 1) = (List.range n).map (· + 1) := by
    have hfin : (List.finRange (List.replicate n oneByte).length).map Fin.val = List.range n := by
      rw [List.map_coe_finRange_eq_range, List.length_replicate]
    rw [noLosses, List.map_map, ← hfin, List.map_map]
    rfl
  rw [hcoe, List.range_succ_eq_map]

theorem inOrder_noLosses (n : ℕ) : InOrder (noLosses n) := by
  rw [InOrder, map_index_noLosses]
  exact (List.isChain_range_succ _ n).2 fun m _ => ⟨Nat.lt_succ_self m, by omega⟩

/-- **The channel ends before the counter overflows.** With increments of 4
from 0 on, the message with the number 2³² – 124 is refused although all
messages before it have arrived. -/
theorem channel_refuses_last :
    (keyed fastKey).number (List.replicate (2 ^ 30 - 31) oneByte).length < 2 ^ 32
      ∧ InOrder (noLosses (2 ^ 30 - 31))
      ∧ ¬ List.Forall₂ Intact (noLosses (2 ^ 30 - 31))
          (receiveAll xorCipher (keyed fastKey) ((noLosses (2 ^ 30 - 31)).map (·.msg))) := by
  have hover : (keyed fastKey).number (List.replicate (2 ^ 30 - 31) oneByte).length < 2 ^ 32 := by
    rw [number_fastKey, List.length_replicate]
    omega
  refine ⟨hover, inOrder_noLosses _, fun hall => ?_⟩
  have hroom := (receiveAll_intact_iff hover (noLosses (2 ^ 30 - 31)) rfl
    (number_fastKey 0).symm (inOrder_noLosses _)).1 hall (2 ^ 30 - 32)
  rw [map_index_noLosses, number_fastKey, List.range_succ, List.dropLast_concat] at hroom
  have hlast := hroom (List.mem_range.2 (by omega))
  omega

end Ead
