import RouterFirmware.EadChannel

/-!
# Rejected messages of ead

`ead_decrypt_message` refuses a message whose length, padding, number or hash is
wrong, in this order. A message that **fails early**, by one of the first three,
leaves the state as it was. A message with a wrong hash does not: the window has
been moved to its number before the hash is compared.

So a series of rejected messages does no harm exactly if all of them fail
early. Otherwise the window has moved, and a genuine message is refused that
would have been accepted before (`rejected_harmless_iff`).
-/

namespace Ead

open Crypt List Memory

section Checks

variable (aes : Aes) (st : Crypt) (msg : Bytes)

/-- The message after the cipher. -/
def decrypted : Bytes :=
  msg.eachBlock (aes.decrypt st.key) 16 (blockCount 16 (toInt (msg.load32 4))) 20

/-- The length is not one of an encrypted message. -/
def BadLength : Prop := toInt (msg.load32 4) = 0 ∨ 0 < (toInt (msg.load32 4)).tmod 64

/-- The padding is too long. -/
def BadPadding : Prop := 64 ≤ (decrypted aes st msg 44).toNat

/-- The number is outside the window. -/
def BadNumber : Prop := ¬ Crypt.InWindow st.rxIv.toNat ((decrypted aes st msg).load32 40).toNat

/-- The hash is not that of the message. -/
def BadHash : Prop :=
  Digest.load (decrypted aes st msg) 20
    ≠ (eadHashMessage (decrypted aes st msg) (toInt (msg.load32 4))).2

instance : Decidable (BadLength msg) := inferInstanceAs (Decidable (_ ∨ _))

instance : Decidable (BadPadding aes st msg) := inferInstanceAs (Decidable (_ ≤ _))

instance : Decidable (BadNumber aes st msg) := inferInstanceAs (Decidable (¬ _))

instance : Decidable (BadHash aes st msg) := inferInstanceAs (Decidable (¬ _))

/-- **The message fails before its hash is compared.** -/
def FailsEarly : Prop := BadLength msg ∨ BadPadding aes st msg ∨ BadNumber aes st msg

/-- **The message is rejected.** -/
def Rejected : Prop := FailsEarly aes st msg ∨ BadHash aes st msg

/-- The state after a series of messages. -/
def after (msgs : List Bytes) : Crypt :=
  msgs.foldl (fun st msg => (eadDecryptMessage aes st msg).1) st

/-- Each of some messages is rejected in its turn. -/
def AllRejected : Crypt → List Bytes → Prop
  | _, [] => True
  | st, msg :: msgs => Rejected aes st msg ∧ AllRejected (eadDecryptMessage aes st msg).1 msgs

/-- **A genuine message** comes from a party with the same key. -/
def Genuine (key : List UInt8) (msg : Bytes) : Prop :=
  ∃ (sender : Crypt) (o : Outgoing), sender.key = key
    ∧ msg = (eadEncryptMessage aes sender o.msg o.len).2

end Checks

/-! ## One message -/

section Message

variable {aes : Aes} {st : Crypt} {msg : Bytes}

/-- **`ead_decrypt_message` by the four checks.** -/
theorem eadDecryptMessage_eq : eadDecryptMessage aes st msg
    = if BadLength msg then (st, msg, 0)
      else if BadPadding aes st msg then (st, decrypted aes st msg, 0)
      else if BadNumber aes st msg then (st, decrypted aes st msg, 0)
      else
        let hashed := (eadHashMessage (decrypted aes st msg) (toInt (msg.load32 4))).1
        ({ st with rxIv := (decrypted aes st msg).load32 40 }, hashed,
          if BadHash aes st msg then 0
          else toInt (msg.load32 4 - ((hashed 44).toUInt32 + sizeofEncrypted))) := by
  by_cases hlength : BadLength msg
  · rw [if_pos hlength]
    exact if_pos hlength
  rw [if_neg hlength]
  by_cases hpadding : BadPadding aes st msg
  · rw [if_pos hpadding]
    exact (if_neg hlength).trans (if_pos hpadding)
  rw [if_neg hpadding]
  refine (if_neg hlength).trans ((if_neg hpadding).trans ?_)
  have hcheck := st.eadCheckRxIv_eq ((decrypted aes st msg).load32 40)
  by_cases hnumber : BadNumber aes st msg
  · rw [if_neg hnumber] at hcheck
    unfold decrypted at hcheck
    rw [if_pos hnumber, hcheck]
    rfl
  · rw [if_pos (not_not.mp hnumber)] at hcheck
    unfold decrypted at hcheck
    rw [if_neg hnumber, hcheck]
    dsimp only
    by_cases hhash : BadHash aes st msg
    · rw [if_pos hhash]
      exact if_pos hhash
    · rw [if_neg hhash]
      exact if_neg hhash

theorem eadDecryptMessage_of_failsEarly (h : FailsEarly aes st msg) :
    (eadDecryptMessage aes st msg).1 = st ∧ (eadDecryptMessage aes st msg).2.2 = 0 := by
  rw [eadDecryptMessage_eq]
  by_cases hlength : BadLength msg
  · rw [if_pos hlength]
    exact ⟨rfl, rfl⟩
  rw [if_neg hlength]
  by_cases hpadding : BadPadding aes st msg
  · rw [if_pos hpadding]
    exact ⟨rfl, rfl⟩
  rw [if_neg hpadding, if_pos ((h.resolve_left hlength).resolve_left hpadding)]
  exact ⟨rfl, rfl⟩

theorem eadDecryptMessage_of_not_failsEarly (h : ¬ FailsEarly aes st msg) :
    (eadDecryptMessage aes st msg).1 = { st with rxIv := (decrypted aes st msg).load32 40 }
      ∧ (BadHash aes st msg → (eadDecryptMessage aes st msg).2.2 = 0) := by
  obtain ⟨hlength, hrest⟩ := not_or.mp h
  obtain ⟨hpadding, hnumber⟩ := not_or.mp hrest
  rw [eadDecryptMessage_eq, if_neg hlength, if_neg hpadding, if_neg hnumber]
  exact ⟨rfl, fun hhash => if_pos hhash⟩

theorem Rejected.eadDecryptMessage_eq_zero (h : Rejected aes st msg) :
    (eadDecryptMessage aes st msg).2.2 = 0 := by
  by_cases hearly : FailsEarly aes st msg
  · exact (eadDecryptMessage_of_failsEarly hearly).2
  · exact (eadDecryptMessage_of_not_failsEarly hearly).2 (h.resolve_left hearly)

theorem eadDecryptMessage_eq_of_key {st' : Crypt} (hkey : st'.key = st.key)
    (h : ¬ Rejected aes st msg) (h' : ¬ Rejected aes st' msg) :
    (eadDecryptMessage aes st' msg).2.2 = (eadDecryptMessage aes st msg).2.2 := by
  have hsame : decrypted aes st' msg = decrypted aes st msg := by rw [decrypted, hkey, decrypted]
  simp only [Rejected, FailsEarly, not_or] at h h'
  obtain ⟨⟨hlength, hpadding, hnumber⟩, hhash⟩ := h
  obtain ⟨⟨-, hpadding', hnumber'⟩, hhash'⟩ := h'
  rw [eadDecryptMessage_eq, if_neg hlength, if_neg hpadding', if_neg hnumber',
    eadDecryptMessage_eq, if_neg hlength, if_neg hpadding, if_neg hnumber]
  dsimp only
  rw [if_neg hhash, if_neg hhash', hsame]

theorem rxIv_lt_of_not_failsEarly (h : ¬ FailsEarly aes st msg) :
    st.rxIv.toNat < (eadDecryptMessage aes st msg).1.rxIv.toNat := by
  have hnumber : ¬ BadNumber aes st msg := fun hnumber => h (.inr (.inr hnumber))
  rw [(eadDecryptMessage_of_not_failsEarly h).1]
  exact (not_not.mp hnumber).1

end Message

/-! ## Any number of messages -/

section Messages

theorem key_after (aes : Aes) (st : Crypt)
    (msgs : List Bytes) : (after aes st msgs).key = st.key := by
  induction msgs generalizing st with
  | nil => rfl
  | cons msg msgs ih => exact (ih _).trans (eadDecryptMessage_crypt aes st msg).1

theorem rxIv_le_after (aes : Aes) (st : Crypt)
    (msgs : List Bytes) : st.rxIv.toNat ≤ (after aes st msgs).rxIv.toNat := by
  induction msgs generalizing st with
  | nil => exact Nat.le_refl _
  | cons msg msgs ih => exact (eadDecryptMessage_crypt aes st msg).2.trans (ih _)

theorem after_of_failsEarly {aes : Aes} {st : Crypt}
    {msgs : List Bytes} (h : ∀ msg ∈ msgs, FailsEarly aes st msg) : after aes st msgs = st := by
  induction msgs with
  | nil => rfl
  | cons msg msgs ih =>
    rw [after, foldl_cons, (eadDecryptMessage_of_failsEarly (h msg mem_cons_self)).1]
    exact ih fun m hm => h m (mem_cons_of_mem msg hm)

/-- One message that gets past the number moves the window. -/
theorem exists_inWindow_of_not_failsEarly {aes : Aes} {st : Crypt}
    {msgs : List Bytes} (h : ¬ ∀ msg ∈ msgs, FailsEarly aes st msg) :
    Crypt.InWindow st.rxIv.toNat (st.rxIv.toNat + 1)
      ∧ st.rxIv.toNat < (after aes st msgs).rxIv.toNat := by
  induction msgs with
  | nil => exact absurd (fun m hm => absurd hm not_mem_nil) h
  | cons msg msgs ih =>
    rw [after, foldl_cons]
    by_cases hearly : FailsEarly aes st msg
    · rw [(eadDecryptMessage_of_failsEarly hearly).1]
      refine ih fun hrest => h fun m hm => ?_
      rcases mem_cons.mp hm with rfl | hm
      · exact hearly
      · exact hrest m hm
    · have hnumber : ¬ BadNumber aes st msg := fun hnumber => hearly (.inr (.inr hnumber))
      obtain ⟨hlt, hle⟩ := not_not.mp hnumber
      exact ⟨⟨Nat.lt_succ_self _, by omega⟩,
        (rxIv_lt_of_not_failsEarly hearly).trans_le (rxIv_le_after aes _ msgs)⟩

/-- A party that has the key and is about to send the next number. -/
def nextSender (st : Crypt) : Crypt := ⟨st.key, 0, st.rxIv, 0, initial.ivofsIdx⟩

theorem toNat_nextSender {st : Crypt} (h : Crypt.InWindow st.rxIv.toNat (st.rxIv.toNat + 1)) :
    (nextSender st).eadGetTxIv.2.toNat = st.rxIv.toNat + 1 := by
  have hofs : (nextSender st).eadGetTxIv.2 = st.rxIv + 1 := by
    simp [nextSender, eadGetTxIv]
  obtain ⟨-, hle⟩ := h
  have hlt := Nat.mod_lt (st.rxIv.toNat + 128) (show 2 ^ 32 > 0 by decide)
  rw [hofs, UInt32.toNat_add, show (1 : UInt32).toNat = 1 from rfl]
  omega

theorem eadDecryptMessage_genuine (aes : Aes) {sender r : Crypt}
    (hkey : r.key = sender.key) (o : Outgoing) :
    (eadDecryptMessage aes r (eadEncryptMessage aes sender o.msg o.len).2).2.2
      = if Crypt.InWindow r.rxIv.toNat sender.eadGetTxIv.2.toNat then (o.len.toNat : ℤ) else 0 := by
  have hfield := eadEncryptMessage_len aes sender o.msg o.len
  have harrives : (eadEncryptMessage aes sender o.msg o.len).2.EqOn
      (eadEncryptMessage aes sender o.msg o.len).2 20 (20 + (encLen o.len).toNat) :=
    fun _ _ _ => rfl
  obtain ⟨m, -, hres⟩ := eadDecryptMessage_sent aes hkey o.len_lt hfield harrives
  rw [hres, eadCheckRxIv_eq]
  by_cases hin : Crypt.InWindow r.rxIv.toNat sender.eadGetTxIv.2.toNat
  · rw [if_pos hin, if_pos hin]
  · rw [if_neg hin, if_neg hin]

/-- **Once the window has moved**, the next genuine message is refused. -/
theorem exists_genuine_refused {aes : Aes} {st st' : Crypt}
    (hkey : st'.key = st.key) (h : Crypt.InWindow st.rxIv.toNat (st.rxIv.toNat + 1))
    (hmoved : st.rxIv.toNat < st'.rxIv.toNat) :
    ∃ msg, Genuine aes st.key msg ∧ ¬ Rejected aes st msg ∧ Rejected aes st' msg := by
  -- the answer to the next genuine message, in any state with the key
  have hanswer {r : Crypt} (hkey : r.key = st.key) :=
    eadDecryptMessage_genuine aes (show r.key = (nextSender st).key from hkey) oneByte
  rw [toNat_nextSender h] at hanswer
  refine ⟨_, ⟨nextSender st, oneByte, rfl, rfl⟩, ?_⟩
  generalize (eadEncryptMessage aes (nextSender st) oneByte.msg oneByte.len).2 = sent at hanswer
  have haccepted : ¬ Rejected aes st sent := by
    intro hrejected
    have hone := hanswer rfl
    rw [hrejected.eadDecryptMessage_eq_zero, if_pos h] at hone
    exact absurd hone (by decide)
  refine ⟨haccepted, ?_⟩
  by_contra hrejected
  have hsame := eadDecryptMessage_eq_of_key hkey haccepted hrejected
  rw [hanswer hkey, hanswer rfl, if_pos h, if_neg fun hin => by have := hin.1; omega] at hsame
  exact absurd hsame (by decide)

end Messages

/-- **Rejected messages do no harm exactly if all fail early.** Neither has the
window moved after them, nor is a genuine message refused that would have been
accepted before, if none of them has the right length and padding and a number
in the window; otherwise both are so. The hypothesis says which messages this is
about; the proof does not need it, since a message that is accepted moves the
window just as one with a wrong hash does. -/
theorem rejected_harmless_iff (aes : Aes) (st : Crypt)
    (msgs : List Bytes) (_h : AllRejected aes st msgs) :
    ((after aes st msgs).rxIv = st.rxIv ↔ ∀ msg ∈ msgs, FailsEarly aes st msg)
      ∧ ((∀ msg, Genuine aes st.key msg → ¬ Rejected aes st msg →
          ¬ Rejected aes (after aes st msgs) msg)
        ↔ ∀ msg ∈ msgs, FailsEarly aes st msg) := by
  refine ⟨⟨fun hsame => ?_, fun h => by rw [after_of_failsEarly h]⟩, fun hgenuine => ?_,
    fun h msg _ => by rw [after_of_failsEarly h]; exact id⟩
  · by_contra hnot
    have hmoved := (exists_inWindow_of_not_failsEarly hnot).2
    rw [hsame] at hmoved
    exact absurd hmoved (Nat.lt_irrefl _)
  · by_contra hnot
    obtain ⟨hwindow, hmoved⟩ := exists_inWindow_of_not_failsEarly hnot
    obtain ⟨msg, hmsg, haccepted, hrefused⟩ :=
      exists_genuine_refused (key_after aes st msgs) hwindow hmoved
    exact hgenuine msg hmsg haccepted hrefused

/-- A message with a length and a number, and otherwise zeros. -/
def bareMessage (len iv : UInt32) : Bytes :=
  (blit (fun _ => 0) 4 (be32 len)).blit 40 (be32 iv)

/-- A message that is decrypted to `plain`. -/
def sealed (aes : Aes) (st : Crypt) (plain : Bytes) : Bytes :=
  plain.eachBlock (aes.encrypt st.key) 16 (blockCount 16 (toInt (plain.load32 4))) 20

theorem load32_sealed (aes : Aes) (st : Crypt)
    (plain : Bytes) : (sealed aes st plain).load32 4 = plain.load32 4 := by
  rw [sealed, eachBlock_eq_blit (aes.length_encrypt _),
    load32_blit_of_disjoint _ (.inl (by decide))]

theorem decrypted_sealed (aes : Aes) (st : Crypt)
    (plain : Bytes) : decrypted aes st (sealed aes st plain) = plain := by
  rw [decrypted, load32_sealed]
  exact eachBlock_eachBlock (aes.length_encrypt _) (aes.length_decrypt _) (aes.decrypt_encrypt _) ..

/-- A message without a length, and one whose number has been used. -/
def twoRejected : List Bytes :=
  [bareMessage 0 1, sealed xorCipher initial (bareMessage 64 0)]

/-- **Two rejected messages that do no harm.** -/
theorem rejected_harmless_two : (after xorCipher initial twoRejected).rxIv = 0
    ∧ ∀ msg, Genuine xorCipher initial.key msg → ¬ Rejected xorCipher initial msg →
        ¬ Rejected xorCipher (after xorCipher initial twoRejected) msg := by
  have hlength : FailsEarly xorCipher initial (bareMessage 0 1) := .inl (by decide)
  have hnumber : FailsEarly xorCipher initial (sealed xorCipher initial (bareMessage 64 0)) := by
    refine .inr (.inr ?_)
    rw [BadNumber, decrypted_sealed]
    decide
  have hearly : ∀ msg ∈ twoRejected, FailsEarly xorCipher initial msg :=
    forall_mem_cons.mpr ⟨hlength, forall_mem_singleton.mpr hnumber⟩
  have hsame := (eadDecryptMessage_of_failsEarly hlength).1
  obtain ⟨hrx, hgenuine⟩ := rejected_harmless_iff xorCipher initial twoRejected
    ⟨.inl hlength, by rw [hsame]; exact .inl hnumber, trivial⟩
  exact ⟨hrx.mpr hearly, hgenuine.mpr hearly⟩

/-- The hash of a message that is otherwise in order, but for one. -/
def wrongHash : Digest :=
  let hash := (eadHashMessage (bareMessage 64 1) 64).2
  { hash with a := hash.a + 1 }

/-- What a forged message is decrypted to. -/
def forgedPlain : Bytes := (bareMessage 64 1).blit 20 wrongHash.bytes

/-- **A message whose hash is wrong**, with a number in the window. -/
def forged : Bytes := sealed xorCipher initial forgedPlain

theorem forged_fields :
    forgedPlain.load32 4 = 64 ∧ forgedPlain.load32 40 = 1 ∧ forgedPlain 44 = 0 := by
  have hlen := wrongHash.length_bytes
  unfold forgedPlain
  rw [load32_blit_of_disjoint _ (.inl (by decide)), load32_blit_of_disjoint _ (.inr (by rw [hlen])),
    blit_of_outside _ (.inr (by rw [hlen]; decide))]
  decide

theorem not_failsEarly_forged : ¬ FailsEarly xorCipher initial forged := by
  obtain ⟨hlen, hnumber, hpad⟩ := forged_fields
  simp only [FailsEarly, BadLength, BadPadding, BadNumber, forged, decrypted_sealed, load32_sealed,
    hlen, hnumber, hpad]
  decide

theorem badHash_forged : BadHash xorCipher initial forged := by
  have hrestored : forgedPlain.blit 20 (replicate 20 0) = bareMessage 64 1 :=
    blit_blit_restore _ _ (by rw [wrongHash.length_bytes]; rfl) (by decide)
  have hslice : (bareMessage 64 1).slice 20 20 = replicate 20 0 := by decide
  have hzeroed : (bareMessage 64 1).blit 20 (replicate 20 0) = bareMessage 64 1 := by
    rw [← hslice, blit_slice]
  have hhash : (eadHashMessage forgedPlain 64).2 = (eadHashMessage (bareMessage 64 1) 64).2 := by
    rw [eadHashMessage, eadHashMessage, hrestored, hzeroed]
  rw [BadHash, forged, decrypted_sealed, load32_sealed, forged_fields.1,
    show toInt 64 = 64 from rfl, hhash, forgedPlain, Digest.load_blit, wrongHash]
  intro heq
  have hsucc := congrArg Digest.a heq
  simp at hsucc

/-- **A forged message makes a genuine one be refused.** -/
theorem forged_refuses_genuine : AllRejected xorCipher initial [forged]
    ∧ (after xorCipher initial [forged]).rxIv = 1
    ∧ ∃ msg, Genuine xorCipher initial.key msg ∧ ¬ Rejected xorCipher initial msg
      ∧ Rejected xorCipher (after xorCipher initial [forged]) msg := by
  have hnot : ¬ ∀ msg ∈ [forged], FailsEarly xorCipher initial msg :=
    fun h => not_failsEarly_forged (h forged mem_cons_self)
  obtain ⟨hwindow, hmoved⟩ := exists_inWindow_of_not_failsEarly hnot
  refine ⟨⟨.inr badHash_forged, trivial⟩, ?_, exists_genuine_refused (key_after ..) hwindow hmoved⟩
  rw [after, foldl_cons, foldl_nil,
    (eadDecryptMessage_of_not_failsEarly not_failsEarly_forged).1, forged, decrypted_sealed]
  exact forged_fields.2.1

end Ead
