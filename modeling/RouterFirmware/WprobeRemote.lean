import RouterFirmware.Errno
import RouterFirmware.Loop
import RouterFirmware.WprobeWire

/-!
# Requests to a remote wprobe

A client sends a request to a server on another host, which hands it to the
wprobe of its kernel, passes on every message that comes back, and ends with a
header that says whether there was an error.
-/

namespace Wprobe

open List Loop Option Errno Nat

/-! ## The programs -/

def wprobeMaxMsglen : ℕ := 65536

/-- How `wprobe_remote_send_msg` ends: it returns, or exits the program. -/
inductive Reply where
  | returns (result : ℤ)
  | exits
deriving DecidableEq

/-- One turn of the loop of `wprobe_remote_send_msg`. -/
def remoteTurn (host : ByteOrder) (buf : Bytes) :
    List UInt8 × List (List UInt8) → Turn (List UInt8 × List (List UInt8)) Reply
  | (stream, msgs) =>
    if stream.length < 8 then .leave (.returns (-1))
    else
      let mhdr := (MsgHdr.ofBytes host (stream.take 8)).swap host
      let stream := stream.drop 8
      if mhdr.status = wprobeMsgData then
        if wprobeMaxMsglen < mhdr.len.toNat then .leave .exits
        else
          match msgFromNetwork host buf stream mhdr.len.toNat with
          | none => .leave (.returns (-EINVAL))
          | some (msg, stream) => .again (stream, msgs ++ [msg])
      else if mhdr.status = wprobeMsgDone then
        .leave (.returns (if mhdr.error ≠ 0 then -mhdr.error.toNat else msgs.length))
      else .again (stream, msgs)

/-- `wprobe_server_cb` for each of some messages: what is written. -/
def serverCb (host : ByteOrder) (buf : Bytes) : List (List UInt8) → Option (List UInt8)
  | [] => some []
  | msg :: msgs => do
    let bytes ← msgToNetwork host buf msg
    let rest ← serverCb host buf msgs
    return bytes ++ rest

/-- The header that ends a reply, for the result of
`wprobe_local_send_msg`. -/
def doneHdr (ret : ℤ) : MsgHdr := ⟨wprobeMsgDone, if ret < 0 then .ofInt (-ret) else 0, 0⟩

def serverHandle (host : ByteOrder) (buf : Bytes)
    (localSendMsg : List UInt8 → List (List UInt8) × ℤ) (stream : List UInt8) :
    Option (ℤ × List UInt8) :=
  if stream.length < 8 then some (if stream.length = 0 then -1 else -EINVAL, [])
  else
    let mhdr := (MsgHdr.ofBytes host (stream.take 8)).swap host
    let stream := stream.drop 8
    if mhdr.status = wprobeMsgData then
      if wprobeMaxMsglen < mhdr.len.toNat then some (-EINVAL, [])
      else
        match msgFromNetwork host buf stream mhdr.len.toNat with
        | none => some (-EINVAL, [])
        | some (msg, _) =>
          let (data, ret) := localSendMsg msg
          -- the last header is written as it is
          (serverCb host buf data).map fun bytes => (0, bytes ++ (doneHdr ret).bytes host)
    else some (-ENOENT, [])

/-! ## Headers -/

namespace MsgHdr

@[simp] theorem length_bytes (host : ByteOrder) (mhdr : MsgHdr) : (mhdr.bytes host).length = 8 := by
  simp [bytes]

theorem ofBytes_bytes (host : ByteOrder) (mhdr : MsgHdr) :
    ofBytes host (mhdr.bytes host) = mhdr := by
  have hstatus : mhdr.status.toNat < 256 ^ 2 := mhdr.status.toNat_lt
  have herror : mhdr.error.toNat < 256 ^ 2 := mhdr.error.toNat_lt
  have hlen : mhdr.len.toNat < 256 ^ 4 := mhdr.len.toNat_lt
  have hdrop2 : (mhdr.bytes host).drop 2
      = host.bytes 2 mhdr.error.toNat ++ host.bytes 4 mhdr.len.toNat := by
    rw [bytes, append_assoc]
    exact drop_left' (host.length_bytes 2 _)
  have hdrop4 : (mhdr.bytes host).drop 4 = host.bytes 4 mhdr.len.toNat := by
    rw [bytes]
    exact drop_left' (by simp)
  refine MsgHdr.ext ?_ ?_ ?_
  · show UInt16.ofNat (host.value ((mhdr.bytes host).take 2)) = mhdr.status
    rw [bytes, append_assoc, take_left' (host.length_bytes 2 _), host.value_bytes,
      mod_eq_of_lt hstatus, UInt16.ofNat_toNat]
  · show UInt16.ofNat (host.value (((mhdr.bytes host).drop 2).take 2)) = mhdr.error
    rw [hdrop2, take_left' (host.length_bytes 2 _), host.value_bytes,
      mod_eq_of_lt herror, UInt16.ofNat_toNat]
  · show UInt32.ofNat (host.value (((mhdr.bytes host).drop 4).take 4)) = mhdr.len
    rw [hdrop4, take_of_length_le (by simp), host.value_bytes, mod_eq_of_lt hlen,
      UInt32.ofNat_toNat]

@[simp] theorem swap_swap (host : ByteOrder) (mhdr : MsgHdr) :
    (mhdr.swap host).swap host = mhdr := by
  cases host with
  | little => simp [swap]
  | big => rfl

end MsgHdr

theorem toNat_swab16 (x : UInt16) : (swab16 x).toNat = x.toNat % 256 * 256 + x.toNat / 256 := by
  have hx := x.toNat_lt
  have hhigh : x.toNat * 2 ^ 8 % 2 ^ 16 = x.toNat % 256 * 2 ^ 8 := by omega
  have hor := shiftLeft_add_eq_or_of_lt (a := x.toNat % 256) (b := x.toNat / 2 ^ 8) (i := 8)
    (by omega)
  rw [shiftLeft_eq] at hor
  simp only [swab16, UInt16.toNat_or, UInt16.toNat_shiftLeft, UInt16.toNat_shiftRight,
    UInt16.reduceToNat, reduceMod, shiftLeft_eq, shiftRight_eq_div_pow]
  rw [hhigh, ← hor]
  rfl

theorem swab16_eq_zero_iff (x : UInt16) : swab16 x = 0 ↔ x = 0 := by
  constructor
  · intro h
    rw [← swab16_swab16 x, h]
    decide
  · rintro rfl
    decide

/-! ## One message -/

theorem IsMessage.length_lt {msg : List UInt8} {host : ByteOrder} (h : IsMessage host msg) :
    msg.length < 2 ^ 32 := by
  have hlt := host.value_lt (msg.take 4)
  have hle : (msg.take 4).length ≤ 4 := length_take_le ..
  have hlen : host.value (msg.take 4) = msg.length := h.length
  calc msg.length = host.value (msg.take 4) := hlen.symm
    _ < 256 ^ (msg.take 4).length := hlt
    _ ≤ 256 ^ 4 := Nat.pow_le_pow_right (by decide) hle

theorem remoteTurn_data {msg : List UInt8} (h : IsMessage .little msg) (buf buf' : Bytes) :
    ∃ bytes, msgToNetwork .little buf msg = some bytes ∧ ∀ rest msgs,
      remoteTurn .little buf' (bytes ++ rest, msgs)
        = if msg.length ≤ wprobeMaxMsglen then .again (rest, msgs ++ [msg]) else .leave .exits := by
  obtain ⟨wire, heq, hlen, hback⟩ := msgFromNetwork_of_isMessage h buf
  have hlt := h.length_lt
  have hfield : (UInt32.ofNat msg.length).toNat = msg.length := UInt32.toNat_ofNat_of_lt' hlt
  refine ⟨_, heq, fun rest msgs => ?_⟩
  rw [remoteTurn, if_neg (by simp), append_assoc, take_left' (MsgHdr.length_bytes ..),
    drop_left' (MsgHdr.length_bytes ..), MsgHdr.ofBytes_bytes, MsgHdr.swap_swap]
  simp only [hfield, hback buf' rest, if_true]
  by_cases hle : msg.length ≤ wprobeMaxMsglen
  · rw [if_pos hle, if_neg (by omega)]
  · rw [if_neg hle, if_pos (by omega)]

theorem remoteTurn_done (ret : ℤ) (buf : Bytes) (msgs : List (List UInt8)) :
    remoteTurn .little buf ((doneHdr ret).bytes .little, msgs)
      = .leave (.returns (if (doneHdr ret).error ≠ 0 then -((swab16 (doneHdr ret).error).toNat : ℤ)
          else msgs.length)) := by
  have htake : ((doneHdr ret).bytes .little).take 8 = (doneHdr ret).bytes .little :=
    take_of_length_le (by simp)
  have hstatus : ((doneHdr ret).swap .little).status = wprobeMsgDone := by
    show swab16 wprobeMsgDone = wprobeMsgDone
    decide
  have herror : ((doneHdr ret).swap .little).error = swab16 (doneHdr ret).error := rfl
  rw [remoteTurn, if_neg (by simp), htake, MsgHdr.ofBytes_bytes]
  simp only [hstatus, herror, ne_eq, swab16_eq_zero_iff]
  rw [if_neg (by decide)]
  rfl

/-! ## The whole reply -/

theorem remoteTurn_serverCb {data : List (List UInt8)} (h : ∀ msg ∈ data, IsMessage .little msg)
    (buf buf' : Bytes) : ∃ bytes, serverCb .little buf data = some bytes ∧ ∀ rest msgs,
    if ∀ msg ∈ data, msg.length ≤ wprobeMaxMsglen then
      Loop.Steps (remoteTurn .little buf') (bytes ++ rest, msgs) (rest, msgs ++ data)
    else Loop.Ends (remoteTurn .little buf') (bytes ++ rest, msgs) .exits := by
  induction data with
  | nil =>
    refine ⟨[], rfl, fun rest msgs => ?_⟩
    rw [if_pos (by simp), append_nil]
    exact .refl _
  | cons msg data ih =>
    obtain ⟨first, hfirst, hturn⟩ := remoteTurn_data (h msg mem_cons_self) buf buf'
    obtain ⟨bytes, hbytes, hrun⟩ := ih fun d hd => h d (mem_cons_of_mem _ hd)
    refine ⟨first ++ bytes, ?_, fun rest msgs => ?_⟩
    · rw [serverCb, hfirst, hbytes]
      rfl
    · have hstep := hturn (bytes ++ rest) msgs
      rw [append_assoc]
      by_cases hle : msg.length ≤ wprobeMaxMsglen
      · rw [if_pos hle] at hstep
        have hrest := hrun rest (msgs ++ [msg])
        simp only [forall_mem_cons, hle, true_and]
        split_ifs at hrest ⊢ with hall
        · rw [append_assoc] at hrest
          exact (Loop.Steps.single hstep).trans hrest
        · exact (ends_iff_of_again hstep).2 hrest
      · rw [if_neg hle] at hstep
        rw [if_neg fun hall => hle (hall msg mem_cons_self)]
        exact ends_of_leave hstep

theorem serverHandle_of_isMessage {request : List UInt8} (h : IsMessage .little request)
    (buf buf' : Bytes) (localSendMsg : List UInt8 → List (List UInt8) × ℤ) :
    ∃ sent, msgToNetwork .little buf request = some sent
      ∧ serverHandle .little buf' localSendMsg sent
        = if request.length ≤ wprobeMaxMsglen then
            (serverCb .little buf' (localSendMsg request).1).map fun bytes =>
              (0, bytes ++ (doneHdr (localSendMsg request).2).bytes .little)
          else some (-EINVAL, []) := by
  obtain ⟨wire, heq, -, hback⟩ := msgFromNetwork_of_isMessage h buf
  have hfield : (UInt32.ofNat request.length).toNat = request.length :=
    UInt32.toNat_ofNat_of_lt' h.length_lt
  have hread : msgFromNetwork .little buf' wire request.length = some (request, []) := by
    have := hback buf' []
    rwa [append_nil] at this
  refine ⟨_, heq, ?_⟩
  rw [serverHandle, if_neg (by simp), take_left' (MsgHdr.length_bytes ..),
    drop_left' (MsgHdr.length_bytes ..), MsgHdr.ofBytes_bytes, MsgHdr.swap_swap]
  simp only [hfield, hread, if_true]
  by_cases hle : request.length ≤ wprobeMaxMsglen
  · rw [if_pos hle, if_neg (by omega)]
  · rw [if_neg hle, if_pos (by omega)]

/-! ## Transparency -/

/-- What the client is to return for a result of `wprobe_local_send_msg` after
some number of messages. -/
def transparentResult (ret : ℤ) (count : ℕ) : ℤ :=
  if -65536 < ret ∧ ret < 0 then ret else count

/-- The results that have the same two bytes in the last header in both
orders, or none. -/
def SameInBothOrders (ret : ℤ) : Prop :=
  0 ≤ ret ∨ -65536 < ret ∧ -ret % 256 = -ret / 256 ∨ ret ≤ -65536 ∧ 65536 ∣ ret

instance (ret : ℤ) : Decidable (SameInBothOrders ret) := by
  unfold SameInBothOrders
  infer_instance

theorem toNat_doneHdr_error {ret : ℤ} (h : ret < 0) :
    ((doneHdr ret).error.toNat : ℤ) = -ret % 65536 := by
  have hlt : (-ret % 2 ^ 16).toNat < 2 ^ 16 := by omega
  rw [doneHdr, if_pos h, UInt16.ofInt, UInt16.toNat_ofNat_of_lt' hlt]
  omega

theorem done_result_eq_iff (ret : ℤ) (count : ℕ) :
    (if (doneHdr ret).error ≠ 0 then -((swab16 (doneHdr ret).error).toNat : ℤ) else count)
        = transparentResult ret count
      ↔ SameInBothOrders ret := by
  have hzero : (doneHdr ret).error = 0 ↔ (doneHdr ret).error.toNat = 0 := by
    rw [← UInt16.toNat_inj]
    rfl
  simp only [toNat_swab16, ne_eq, hzero, transparentResult, SameInBothOrders]
  by_cases hret : ret < 0
  · have herror := toNat_doneHdr_error hret
    generalize (doneHdr ret).error.toNat = error at herror
    by_cases hsmall : -65536 < ret
    · have hsame : (error : ℤ) = -ret := by omega
      rw [if_pos (by omega), if_pos ⟨hsmall, hret⟩]
      omega
    · rw [if_neg (c := -65536 < ret ∧ ret < 0) (by omega)]
      split_ifs <;> omega
  · have herror : (doneHdr ret).error.toNat = 0 := by simp [doneHdr, hret]
    rw [herror, if_neg (by simp), if_neg (by omega)]
    simp
    omega

/-- **Which remote results arrive.** The client has the result of
`wprobe_local_send_msg` on the server exactly if no message is longer than
`WPROBE_MAX_MSGLEN` and the error is the same in both byte orders. -/
theorem remoteSendMsg_transparent_iff {request : List UInt8} (hreq : IsMessage .little request)
    (localSendMsg : List UInt8 → List (List UInt8) × ℤ)
    (hdata : ∀ msg ∈ (localSendMsg request).1, IsMessage .little msg) (buf buf' buf'' : Bytes) :
    (∃ sent reply, msgToNetwork .little buf request = some sent
        ∧ serverHandle .little buf' localSendMsg sent = some (0, reply)
        ∧ Loop.Ends (remoteTurn .little buf'') (reply, [])
          (.returns (transparentResult (localSendMsg request).2 (localSendMsg request).1.length)))
      ↔ (∀ msg ∈ request :: (localSendMsg request).1, msg.length ≤ wprobeMaxMsglen)
        ∧ SameInBothOrders (localSendMsg request).2 := by
  obtain ⟨sent, hsent, hhandle⟩ := serverHandle_of_isMessage hreq buf buf' localSendMsg
  obtain ⟨bytes, hbytes, hrun⟩ := remoteTurn_serverCb hdata buf' buf''
  have hread := hrun ((doneHdr (localSendMsg request).2).bytes .little) []
  have hdone := remoteTurn_done (localSendMsg request).2 buf'' (localSendMsg request).1
  rw [hbytes] at hhandle
  rw [forall_mem_cons]
  by_cases hle : request.length ≤ wprobeMaxMsglen
  · rw [if_pos hle] at hhandle
    simp only [hsent, hhandle, hle, map_some, some.injEq, Prod.mk.injEq, true_and,
      exists_and_left, exists_eq_left']
    by_cases hall : ∀ msg ∈ (localSendMsg request).1, msg.length ≤ wprobeMaxMsglen
    · rw [if_pos hall, nil_append] at hread
      rw [ends_iff_of_steps hread, ends_iff_of_leave hdone, Reply.returns.injEq, done_result_eq_iff]
      exact (and_iff_right hall).symm
    · rw [if_neg hall] at hread
      refine iff_of_false (fun hends => ?_) fun hgood => hall hgood.1
      exact absurd (ends_unique hread hends) (by simp)
  · rw [if_neg hle] at hhandle
    refine iff_of_false ?_ fun hgood => hle hgood.1.1
    rintro ⟨sent', reply, hsent', hreply, -⟩
    rw [hsent, some.injEq] at hsent'
    rw [← hsent', hhandle] at hreply
    exact absurd hreply (by simp [EINVAL])

/-- A request that is answered by one message. -/
theorem remoteSendMsg_transparent_nestedMessage :
    ∃ sent reply, msgToNetwork .little (fun _ => 0) nestedMessage = some sent
      ∧ serverHandle .little (fun _ => 0) (fun _ => ([nestedMessage], 0)) sent = some (0, reply)
      ∧ Loop.Ends (remoteTurn .little fun _ => 0) (reply, []) (.returns 1) :=
  (remoteSendMsg_transparent_iff isMessage_nestedMessage (fun _ => ([nestedMessage], 0))
    (by simpa using isMessage_nestedMessage) (fun _ => 0) (fun _ => 0) fun _ => 0).2
    ⟨by decide, by decide⟩

/-- **`-ENODEV` arrives as -4864**: the client does not get the error of the
server. -/
theorem remoteSendMsg_enodev_swapped :
    ∃ sent reply, msgToNetwork .little (fun _ => 0) nestedMessage = some sent
      ∧ serverHandle .little (fun _ => 0) (fun _ => ([], -19)) sent = some (0, reply)
      ∧ Loop.Ends (remoteTurn .little fun _ => 0) (reply, []) (.returns (-4864))
      ∧ transparentResult (-19) 0 = -19 := by
  obtain ⟨sent, hsent, hhandle⟩ := serverHandle_of_isMessage isMessage_nestedMessage
    (fun _ => 0) (fun _ => 0) fun _ => ([], -19)
  refine ⟨sent, (doneHdr (-19)).bytes .little, hsent, ?_, ?_, by decide⟩
  · rw [hhandle, if_pos (by decide)]
    rfl
  · have hdone := remoteTurn_done (-19) (fun _ => 0) []
    exact ends_of_leave hdone

end Wprobe
