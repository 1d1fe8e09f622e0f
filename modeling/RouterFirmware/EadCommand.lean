import RouterFirmware.EadServer
import RouterFirmware.EadChannel

/-!
# Commands of an ead session

The client encrypts a command with the session key and sends it; the server
decrypts what arrives, passes it to `system` and sends the output back,
encrypted with the same key. Between them is a network that may deliver any
packet at any time.

**What is proved.** A packet makes the server run at most one command, and
changes key and window only as decryption does (`RunsAtMost`); this is shown
handler by handler. From it follows the invariant `SessionInv` of a session: the
commands that have been run are commands the client has sent, with increasing
numbers. It needs two assumptions on the network, stated about every prefix of
the run: nobody without the key makes a message that decrypts (`Unforgeable`),
and no message of the server is delivered to the server itself
(`NotReflected`).

**The second assumption is needed.** Both directions use one key, and the type
of a message stands outside the encrypted part. A packet with the output of a
command, whose type is changed on the way, is run as a command
(`reflected_output_runs`).
-/

namespace Ead

open Memory List Server Nat Event UInt32

/-! ## What a packet does to the trace -/

/-- The commands in a trace. -/
def systems (trace : List Event) : List (List UInt8) :=
  trace.filterMap fun e => match e with
    | .system command => some command
    | _ => none

/-- The messages in a trace. -/
def sentMessages (trace : List Event) : List (List UInt8) :=
  trace.filterMap fun e => match e with
    | .sent msg => some msg
    | _ => none

@[simp] theorem systems_append (es es' : List Event) :
    systems (es ++ es') = systems es ++ systems es' := filterMap_append ..

/-- **A step that runs nothing**: the trace grows by events that are not
commands, and if no key is set, the key stays and the window does not move
back. -/
def Grows (s s' : Server) : Prop :=
  ∃ es, s'.trace = s.trace ++ es ∧ systems es = []
    ∧ ((∃ id, keySet id ∈ es)
      ∨ s'.crypt.key = s.crypt.key ∧ s.crypt.rxIv.toNat ≤ s'.crypt.rxIv.toNat)

theorem Grows.of_crypt {s s' : Server} (htrace : s'.trace = s.trace)
    (hkey : s'.crypt.key = s.crypt.key) (hrx : s'.crypt.rxIv = s.crypt.rxIv) : Grows s s' :=
  ⟨[], by rw [htrace, append_nil], rfl, .inr ⟨hkey, by rw [hrx]⟩⟩

theorem Grows.refl (s : Server) : Grows s s := .of_crypt rfl rfl rfl

theorem Grows.log (s : Server) {e : Event} (he : systems [e] = []) : Grows s (s.log e) :=
  ⟨[e], rfl, he, .inr ⟨rfl, le_refl _⟩⟩

theorem Grows.trans {s s' s'' : Server} (h : Grows s s') (h' : Grows s' s'') : Grows s s'' := by
  obtain ⟨es, htrace, hsystems, hkey⟩ := h
  obtain ⟨es', htrace', hsystems', hkey'⟩ := h'
  refine ⟨es ++ es', by rw [htrace', htrace, append_assoc],
    by rw [systems_append, hsystems, hsystems', append_nil], ?_⟩
  rcases hkey with ⟨id, hid⟩ | ⟨hkey, hrx⟩
  · exact .inl ⟨id, mem_append_left _ hid⟩
  · rcases hkey' with ⟨id, hid⟩ | ⟨hkey', hrx'⟩
    · exact .inl ⟨id, mem_append_right _ hid⟩
    · exact .inr ⟨hkey'.trans hkey, hrx.trans hrx'⟩

theorem grows_serverClose (s : Server) : Grows s s.serverClose := by
  unfold serverClose
  cases s.ts with
  | none => exact .of_crypt rfl rfl rfl
  | some t => exact ⟨[.closed t.id], rfl, rfl, .inr ⟨rfl, le_refl _⟩⟩

theorem grows_leave (s : Server) (nstate : Phase) : Grows s (s.leave nstate) := by
  simp only [leave]
  split_ifs
  · exact (grows_serverClose s).trans (.of_crypt rfl rfl rfl)
  · exact .of_crypt rfl rfl rfl

theorem grows_openSession (s : Server) (env : Env) : Grows s (s.openSession env).1 := by
  unfold openSession
  cases env.preparePassword with
  | none => exact .refl s
  | some entry =>
    cases env.serverOpenRaw with
    | none => exact .of_crypt rfl rfl rfl
    | some salt => exact ⟨[.opened s.sessions s.username], rfl, rfl, .inr ⟨rfl, le_refl _⟩⟩

theorem grows_generateB (s : Server) (env : Env) : Grows s (s.generateB env).1 := by
  unfold generateB
  cases s.ts with
  | none => exact .of_crypt rfl rfl rfl
  | some t => exact .of_crypt rfl rfl rfl

theorem grows_establishKey (s : Server) (cfg : Config) (env : Env) :
    Grows s (s.establishKey cfg env).1 := by
  unfold establishKey
  cases s.ts with
  | none => exact .of_crypt rfl rfl rfl
  | some t =>
    cases env.serverGetKey with
    | none => exact .refl s
    | some skey => exact ⟨[.keySet t.id], rfl, rfl, .inl ⟨t.id, mem_singleton_self _⟩⟩

theorem grows_setState (s : Server) (cfg : Config) (env : Env) (nstate : Phase) :
    Grows s (s.setState cfg env nstate) := by
  have henter : Grows s (s.enter cfg env).1 := by
    unfold enter
    cases s.state with
    | setUsername => exact grows_openSession s env
    | getPrime => exact grows_generateB s env
    | sendA => exact grows_establishKey s cfg env
    | sendAuth => exact .refl s
    | sendCmd => exact .refl s
  simp only [setState]
  split_ifs
  · exact .refl s
  · exact grows_leave s nstate
  · exact henter.trans (.of_crypt rfl rfl rfl)
  · exact henter

variable (aes : Aes)

theorem grows_encryptData (s : Server) (done : UInt8) (data : List UInt8) :
    Grows s (s.encryptData aes done data) :=
  .of_crypt rfl rfl rfl

theorem grows_sendPacketClone (s : Server) : Grows s s.sendPacketClone := .log s rfl

theorem grows_sendConsole (s : Server) (console : List (List UInt8)) :
    Grows s (s.sendConsole aes console) := by
  induction console generalizing s with
  | nil => exact .refl s
  | cons data console ih =>
    exact ((grows_encryptData aes s 0 data).trans (grows_sendPacketClone _)).trans (ih _)

/-- The length of the data, computed in an `int` as in the source. -/
def dataLen (ret : ℤ) : ℤ := toInt (.ofInt (ret - 3))

/-- The string that `handle_send_cmd` makes of a decrypted message. -/
def commandOf (msg : Bytes) (ret : ℤ) : List UInt8 :=
  (msg.slice 48 (dataLen ret).toNat).takeWhile (· ≠ 0)

variable (cfg : Config) (env : Env) (msg : Bytes)

theorem grows_handle (s : Server) {handler : Handler} (h : handler ≠ .on .sendCmd) :
    Grows s (s.handle aes cfg env msg handler).1 := by
  rcases handler with _ | phase
  · exact .of_crypt rfl rfl rfl
  · cases phase with
    | setUsername =>
      have hclosed (user : List UInt8) :
          Grows s ((s.log (.setUsername user)).setState cfg env .setUsername) :=
        (Grows.log s rfl).trans (grows_setState _ cfg env .setUsername)
      exact (hclosed (((msg.slice 20 32).take 31).takeWhile (· ≠ 0))).trans
        (.of_crypt rfl rfl rfl)
    | getPrime =>
      show Grows s s.handleGetPrime.1
      unfold handleGetPrime
      cases s.ts <;> exact .of_crypt rfl rfl rfl
    | sendA =>
      show Grows s (s.handleSendA msg).1
      simp only [handleSendA]
      split_ifs
      · exact .refl s
      · exact .of_crypt rfl rfl rfl
      · cases s.B <;> exact .of_crypt rfl rfl rfl
    | sendAuth =>
      show Grows s (s.handleSendAuth env).1
      unfold handleSendAuth
      cases s.ts with
      | none => exact .of_crypt rfl rfl rfl
      | some t =>
        dsimp only
        split_ifs
        · exact ⟨[.verified t.id], rfl, rfl, .inr ⟨rfl, le_refl _⟩⟩
        · exact .refl s
    | sendCmd => exact absurd rfl h

/-- **A message runs at most one command**: that of the decrypted message. -/
def RunsAtMost (msg : Bytes) (s s' : Server) : Prop :=
  Grows s s' ∨ ∃ r, Grows s r ∧ r.crypt = (eadDecryptMessage aes s.crypt msg).1
    ∧ 0 < dataLen (eadDecryptMessage aes s.crypt msg).2.2
    ∧ Grows (r.log (.system (commandOf (eadDecryptMessage aes s.crypt msg).2.1
        (eadDecryptMessage aes s.crypt msg).2.2))) s'

variable {aes} in
theorem RunsAtMost.trans {s s' s'' : Server} {msg : Bytes} (h : RunsAtMost aes msg s s')
    (h' : Grows s' s'') : RunsAtMost aes msg s s'' := by
  rcases h with h | ⟨r, hr, hcrypt, hlen, h⟩
  · exact .inl (h.trans h')
  · exact .inr ⟨r, hr, hcrypt, hlen, h.trans h'⟩

variable {aes} in
theorem Grows.runsAtMost {s s' s'' : Server} {msg : Bytes} (h : Grows s s')
    (hcrypt : s'.crypt = s.crypt) (h' : RunsAtMost aes msg s' s'') : RunsAtMost aes msg s s'' := by
  unfold RunsAtMost at h'
  rw [hcrypt] at h'
  rcases h' with h' | ⟨r, hr, hrest⟩
  · exact .inl (h.trans h')
  · exact .inr ⟨r, h.trans hr, hrest⟩

theorem runsAtMost_handleSendCmd (s : Server) :
    RunsAtMost aes msg s (s.handleSendCmd aes cfg env msg).1 := by
  have hdecrypt : Grows s { s.log (.sendCmd s.ts s.username) with
      crypt := (eadDecryptMessage aes s.crypt msg).1 } :=
    ⟨[.sendCmd s.ts s.username], rfl, rfl, .inr (eadDecryptMessage_crypt aes s.crypt msg)⟩
  simp only [handleSendCmd]
  split_ifs with hlen
  · exact .inl hdecrypt
  · exact .inl hdecrypt
  · exact .inr ⟨_, hdecrypt, rfl, not_le.1 hlen, grows_sendConsole aes _ _⟩
  · exact .inr ⟨_, hdecrypt, rfl, not_le.1 hlen,
      (grows_sendConsole aes _ _).trans (grows_encryptData aes _ _ _)⟩
  · exact .inl hdecrypt
  · exact .inr ⟨_, hdecrypt, rfl, not_le.1 hlen, grows_encryptData aes _ _ _⟩
  · exact .inl hdecrypt

theorem runsAtMost_handle (s : Server) (handler : Server.Handler) :
    RunsAtMost aes msg s (s.handle aes cfg env msg handler).1 := by
  by_cases h : handler = .on .sendCmd
  · subst h
    exact runsAtMost_handleSendCmd aes cfg env msg s
  · exact .inl (grows_handle aes cfg env msg s h)

theorem runsAtMost_parseMessage (len : ℤ) (s : Server) :
    RunsAtMost aes msg s (s.parseMessage aes cfg env msg len) := by
  simp only [parseMessage]
  split_ifs
  · exact .inl (.refl s)
  · exact .inl (.refl s)
  cases handlerOf (toInt (msg.load32 8)) with
  | none => exact .inl (.refl s)
  | some handler =>
    have hprepared : Grows s (s.prepareReply cfg msg (toInt (msg.load32 8))) :=
      .of_crypt rfl rfl rfl
    have hhandle := hprepared.runsAtMost rfl (runsAtMost_handle aes cfg env msg _ handler)
    dsimp only
    split_ifs
    · exact .inl (.refl s)
    · exact hhandle
    · exact hhandle.trans ((grows_sendPacketClone _).trans (grows_setState _ cfg env _))
    · exact hhandle.trans (grows_setState _ cfg env _)

theorem runsAtMost_handlePacket (len : UInt32) (pkt : Bytes) (s : Server) :
    RunsAtMost aes (fun i => pkt (42 + i)) s (s.handlePacket aes cfg (env, len, pkt)) := by
  simp only [handlePacket]
  split_ifs
  all_goals first | exact .inl (.refl s) | exact runsAtMost_parseMessage aes cfg env _ _ s

/-! ## Client, server and network -/

/-- **A command** as `send_command` gets it: a string whose length fits. -/
structure Command where
  bytes : List UInt8
  nonzero : 0 ∉ bytes
  length_lt : bytes.length + 4 < 2 ^ 31

/-- The length that is encrypted: the header and the string with its zero. -/
def Command.len (command : Command) : UInt32 := 3 + .ofNat command.bytes.length + 1

/-- The buffer of `send_command` before it is encrypted. -/
def commandBuffer (msgbuf : Bytes) (command : Command) : Bytes :=
  let msg := msgbuf.blit 8 (be32 10)
  let msg := msg.blit 45 [0]
  let msg := msg.blit 46 (be16 10)
  -- `strncpy` fills up with zeros
  msg.blit 48 ((command.bytes ++ replicate 1024 0).take 1024)

/-- **`send_command`**: the message that is sent. -/
def sendCommand (st : Crypt) (msgbuf : Bytes) (command : Command) : Crypt × Bytes :=
  eadEncryptMessage aes st (commandBuffer msgbuf command) command.len

/-- The bytes of a message that are sent: the header and what it counts. -/
def messageBytes (msg : Bytes) : List UInt8 := msg.slice 0 (20 + (msg.load32 4).toNat)

/-- One call of `send_command`. -/
structure Call where
  crypt : Crypt
  msgbuf : Bytes
  command : Command

namespace Call

/-- What is sent. -/
def bytes (c : Call) : List UInt8 := messageBytes (sendCommand aes c.crypt c.msgbuf c.command).2

/-- The string that the server gets from it; it ends at the buffer's size. -/
def string (c : Call) : List UInt8 :=
  ((commandBuffer c.msgbuf c.command).slice 48 (c.command.bytes.length + 1)).takeWhile (· ≠ 0)

/-- The number of the message. -/
def iv (c : Call) : UInt32 := c.crypt.eadGetTxIv.2

end Call

/-- What may happen: the client sends, or a packet reaches the server. -/
inductive Action where
  | command (msgbuf : Bytes) (command : Command)
  | packet (env : Env) (len : UInt32) (pkt : Bytes)

/-- **The system**, with the commands that the client has sent. -/
structure Net where
  server : Server
  client : Crypt
  calls : List Call

namespace Net

/-- **One step of the system.** -/
def step (cfg : Config) (n : Net) : Action → Net
  | .command msgbuf command =>
    { n with
      client := (sendCommand aes n.client msgbuf command).1
      calls := n.calls ++ [⟨n.client, msgbuf, command⟩] }
  | .packet env len pkt => { n with server := n.server.handlePacket aes cfg (env, len, pkt) }

/-- A run of the system. -/
def run (cfg : Config) (n : Net) (actions : List Action) : Net := actions.foldl (step aes cfg) n

/-- **A session starts**: both have set the key. -/
def start (cfg : Config) (host : ByteOrder) (skey : Bytes) (server : Server)
    (client : Crypt) : Net :=
  ⟨{ server with crypt := server.crypt.eadSetKey cfg.host skey, trace := [] },
    client.eadSetKey host skey, []⟩

end Net

/-- The messages with results that the server has sent, which are encrypted. -/
def resultMessages (trace : List Event) : List (List UInt8) :=
  (sentMessages trace).filter fun msg => (msg.drop 8).take 4 = be32 11

/-- A message **carries** the length and the data of another. -/
def Carries (msg : Bytes) (bytes : List UInt8) : Prop :=
  msg.slice 4 4 = (bytes.drop 4).take 4 ∧ msg.slice 20 (msg.load32 4).toNat = bytes.drop 20

/-- **Nobody else has the key**: what decrypts to a command carries a message
that the client or the server has sent before. -/
def Unforgeable (cfg : Config) (n : Net) (actions : List Action) : Prop :=
  ∀ before env len pkt after, actions = before ++ .packet env len pkt :: after →
    0 < dataLen (eadDecryptMessage aes (n.run aes cfg before).server.crypt
      fun i => pkt (42 + i)).2.2 →
    ∃ bytes ∈ (n.run aes cfg before).calls.map (·.bytes aes)
        ++ resultMessages (n.run aes cfg before).server.trace,
      Carries (fun i => pkt (42 + i)) bytes

/-- **The server gets none of its own messages back.** -/
def NotReflected (cfg : Config) (n : Net) (actions : List Action) : Prop :=
  ∀ before env len pkt after, actions = before ++ .packet env len pkt :: after →
    ∀ bytes ∈ resultMessages (n.run aes cfg before).server.trace,
      ¬ Carries (fun i => pkt (42 + i)) bytes

/-! ## Accepted commands -/

theorem dataLen_natCast {n : ℕ} (h : 3 ≤ n) (h' : n < 2 ^ 31) : dataLen n = (n - 3 : ℕ) := by
  have hof : (ofInt ((n : ℤ) - 3)).toNat = n - 3 := by
    have hlt : (((n : ℤ) - 3) % 2 ^ 32).toNat < 2 ^ 32 := by omega
    rw [ofInt, toNat_ofNat_of_lt' hlt]
    omega
  rw [dataLen, toInt, hof, if_pos (by omega)]

theorem Carries.encrypted (st : Crypt) (buf : Bytes) (len : UInt32) {msg : Bytes}
    (h : Carries msg (messageBytes (eadEncryptMessage aes st buf len).2)) :
    msg.load32 4 = encLen len
      ∧ (eadEncryptMessage aes st buf len).2.EqOn msg 20 (20 + (encLen len).toNat) := by
  obtain ⟨hlen, hdata⟩ := h
  have hsent := eadEncryptMessage_len aes st buf len
  rw [messageBytes, drop_slice _ _ (by omega), hsent, take_slice _ _ (by omega)] at hlen
  have hfield : msg.load32 4 = encLen len := by
    rw [← hsent, load32, load, hlen]
    rfl
  rw [messageBytes, drop_slice _ _ (by omega), hsent, hfield, Nat.add_sub_cancel_left] at hdata
  exact ⟨hfield, eqOn_of_slice_eq hdata.symm⟩

theorem Command.toNat_len (command : Command) : command.len.toNat = command.bytes.length + 4 := by
  have hlt := command.length_lt
  have hof : (UInt32.ofNat command.bytes.length).toNat = command.bytes.length :=
    toNat_ofNat_of_lt' (by show _ < 2 ^ 32; omega)
  rw [len, UInt32.toNat_add, UInt32.toNat_add, hof, show (3 : UInt32).toNat = 3 from rfl,
    show (1 : UInt32).toNat = 1 from rfl]
  omega

/-- **An accepted message** has a new number, moves the window to it and is
run as the string that was encrypted. -/
theorem Call.accepted {c : Call} {st : Crypt} (hkey : st.key = c.crypt.key) {msg : Bytes}
    (hcarries : Carries msg (c.bytes aes)) (hlen : 0 < dataLen (eadDecryptMessage aes st msg).2.2) :
    st.rxIv.toNat < c.iv.toNat
      ∧ (eadDecryptMessage aes st msg).1.rxIv = c.iv
      ∧ commandOf (eadDecryptMessage aes st msg).2.1 (eadDecryptMessage aes st msg).2.2
        = c.string := by
  have hlt := c.command.length_lt
  have hn := c.command.toNat_len
  obtain ⟨hfield, heqOn⟩ := Carries.encrypted aes c.crypt (commandBuffer c.msgbuf c.command)
    c.command.len hcarries
  obtain ⟨m, hslice, hret⟩ := eadDecryptMessage_sent aes hkey (by omega) hfield heqOn
  rw [Crypt.eadCheckRxIv_eq] at hret
  split_ifs at hret with hin
  · have hdata : dataLen (c.command.len.toNat : ℤ) = (c.command.bytes.length + 1 : ℕ) := by
      rw [hn, dataLen_natCast (by omega) (by omega)]
      omega
    rw [hret]
    refine ⟨hin.1, rfl, ?_⟩
    show commandOf m (c.command.len.toNat : ℤ) = c.string
    have hpart : m.slice 48 (c.command.bytes.length + 1)
        = (commandBuffer c.msgbuf c.command).slice 48 (c.command.bytes.length + 1) := by
      rw [hn] at hslice
      have hdrop := congrArg (drop 3) hslice
      rwa [drop_slice _ _ (by omega), drop_slice _ _ (by omega)] at hdrop
    rw [commandOf, hdata, Int.toNat_natCast, hpart, Call.string]
  · have hzero : (eadDecryptMessage aes st msg).2.2 = 0 := by rw [hret]
    rw [hzero] at hlen
    exact absurd hlen (by decide)

theorem Call.string_eq {c : Call} (h : c.command.bytes.length < 1024) :
    c.string = c.command.bytes := by
  set n := c.command.bytes.length
  have hcopy : (commandBuffer c.msgbuf c.command).slice 48 1024
      = (c.command.bytes ++ replicate 1024 0).take 1024 := by
    have hself := slice_blit_self (((c.msgbuf.blit 8 (be32 10)).blit 45 [0]).blit 46 (be16 10)) 48
      ((c.command.bytes ++ replicate 1024 0).take 1024)
    rwa [length_take, length_append, length_replicate, min_eq_left (by omega)] at hself
  have hslice : (commandBuffer c.msgbuf c.command).slice 48 (n + 1) = c.command.bytes ++ [0] := by
    rw [← take_slice _ _ (show n + 1 ≤ 1024 by omega), hcopy, take_take,
      min_eq_left (by omega), take_append, take_of_length_le (by omega),
      take_replicate, show min (n + 1 - c.command.bytes.length) 1024 = 1 by omega]
    rfl
  have hnonzero : ∀ b ∈ c.command.bytes, (decide (b ≠ 0)) = true := by
    intro b hb
    exact decide_eq_true fun hzero => c.command.nonzero (hzero ▸ hb)
  rw [Call.string, hslice, takeWhile_append_of_pos hnonzero]
  simp

/-! ## Runs -/

/-- **The invariant of a session** with a key. -/
structure SessionInv (key : List UInt8) (n : Net) : Prop where
  server : n.server.crypt.key = key
  client : n.client.key = key
  calls : ∀ c ∈ n.calls, c.crypt.key = key
  executed : ∃ cs : List Call, systems n.server.trace = cs.map Call.string
    ∧ cs.Pairwise (fun c c' => c.iv.toNat < c'.iv.toNat)
    ∧ ∀ c ∈ cs, c ∈ n.calls ∧ c.iv.toNat ≤ n.server.crypt.rxIv.toNat

variable {aes cfg} {n : Net} {key : List UInt8} (h : SessionInv key n)

include h

theorem SessionInv.command (msgbuf : Bytes) (command : Command) :
    SessionInv key (n.step aes cfg (.command msgbuf command)) := by
  obtain ⟨cs, hsystems, hpair, hcs⟩ := h.executed
  refine ⟨h.server, h.client, fun c hc => ?_, cs, hsystems, hpair,
    fun c hc => ⟨mem_append_left _ (hcs c hc).1, (hcs c hc).2⟩⟩
  rcases mem_append.1 hc with hc | hc
  · exact h.calls c hc
  · rw [mem_singleton.1 hc]
    exact h.client

/-- A packet keeps the invariant. -/
theorem SessionInv.packet {env : Env} {len : UInt32} {pkt : Bytes}
    (hkeySet : ∀ id, keySet id ∉ (n.server.handlePacket aes cfg (env, len, pkt)).trace)
    (hclient : 0 < dataLen (eadDecryptMessage aes n.server.crypt fun i => pkt (42 + i)).2.2 →
      ∃ c ∈ n.calls, Carries (fun i => pkt (42 + i)) (c.bytes aes)) :
    SessionInv key (n.step aes cfg (.packet env len pkt)) := by
  obtain ⟨cs, hsystems, hpair, hcs⟩ := h.executed
  have hruns := runsAtMost_handlePacket aes cfg env len pkt n.server
  show SessionInv key { n with server := n.server.handlePacket aes cfg (env, len, pkt) }
  generalize n.server.handlePacket aes cfg (env, len, pkt) = s' at hruns hkeySet ⊢
  rcases hruns with ⟨es, htrace, hes, hkeep⟩
      | ⟨r, ⟨es, htrace, hes, hkeep⟩, hcrypt, hlen, es', htrace', hes', hkeep'⟩
  · rw [htrace] at hkeySet
    obtain ⟨hkey, hrx⟩ := hkeep.resolve_left fun ⟨id, hid⟩ =>
      hkeySet id (mem_append_right _ hid)
    refine ⟨hkey.trans h.server, h.client, h.calls, cs, ?_, hpair,
      fun c hc => ⟨(hcs c hc).1, (hcs c hc).2.trans hrx⟩⟩
    rw [htrace, systems_append, hes, append_nil, hsystems]
  · obtain ⟨c, hc, hcarries⟩ := hclient hlen
    obtain ⟨hnew, hiv, hstring⟩ :=
      Call.accepted aes (h.server.trans (h.calls c hc).symm) hcarries hlen
    have htrace'' : s'.trace = n.server.trace ++ es ++ [.system c.string] ++ es' := by
      rw [htrace', ← hstring, ← htrace]
      rfl
    rw [htrace''] at hkeySet
    obtain ⟨hkey, hrx⟩ := hkeep.resolve_left fun ⟨id, hid⟩ => hkeySet id (by simp [hid])
    obtain ⟨hkey', hrx'⟩ := hkeep'.resolve_left fun ⟨id, hid⟩ => hkeySet id (by simp [hid])
    have hlevel : c.iv.toNat ≤ s'.crypt.rxIv.toNat := by
      rw [← hiv, ← hcrypt]
      exact hrx'
    refine ⟨(hkey'.trans hkey).trans h.server, h.client, h.calls, cs ++ [c], ?_, ?_, ?_⟩
    · rw [htrace'', systems_append, systems_append, systems_append, hes, hes', hsystems]
      simp [systems]
    · refine pairwise_append.2 ⟨hpair, pairwise_singleton _ _, fun b hb c' hc' => ?_⟩
      rw [mem_singleton.1 hc']
      exact lt_of_le_of_lt (hcs b hb).2 hnew
    · intro b hb
      rcases mem_append.1 hb with hb | hb
      · exact ⟨(hcs b hb).1, (hcs b hb).2.trans (hrx.trans hrx')⟩
      · rw [mem_singleton.1 hb]
        exact ⟨hc, hlevel⟩

omit h in
theorem Net.mem_trace_step {e : Event} (a : Action) (he : e ∈ n.server.trace) :
    e ∈ (n.step aes cfg a).server.trace := by
  cases a with
  | command msgbuf command => exact he
  | packet env len pkt =>
    show e ∈ (n.server.handlePacket aes cfg (env, len, pkt)).trace
    rcases runsAtMost_handlePacket aes cfg env len pkt n.server with
      ⟨es, htrace, -⟩ | ⟨r, ⟨es, htrace, -⟩, -, -, es', htrace', -⟩
    · rw [htrace]
      exact mem_append_left _ he
    · rw [htrace']
      refine mem_append_left _ (mem_append_left _ ?_)
      rw [htrace]
      exact mem_append_left _ he

/-- **Every run keeps the invariant.** -/
theorem SessionInv.run (actions : List Action)
    (hkeySet : ∀ id, keySet id ∉ (n.run aes cfg actions).server.trace)
    (hunforgeable : Unforgeable aes cfg n actions) (hreflected : NotReflected aes cfg n actions) :
    SessionInv key (n.run aes cfg actions) := by
  induction actions using reverseRecOn with
  | nil => exact h
  | append_singleton actions a ih =>
    have hlast : n.run aes cfg (actions ++ [a]) = (n.run aes cfg actions).step aes cfg a :=
      foldl_concat ..
    rw [hlast] at hkeySet ⊢
    have hprefix : SessionInv key (n.run aes cfg actions) := by
      refine ih (fun id hid => hkeySet id (Net.mem_trace_step a hid)) ?_ ?_
      · intro before env len pkt after heq
        exact hunforgeable before env len pkt (after ++ [a]) (by rw [heq]; simp)
      · intro before env len pkt after heq
        exact hreflected before env len pkt (after ++ [a]) (by rw [heq]; simp)
    cases a with
    | command msgbuf command => exact hprefix.command msgbuf command
    | packet env len pkt =>
      refine hprefix.packet hkeySet fun hlen => ?_
      obtain ⟨bytes, hbytes, hcarries⟩ := hunforgeable actions env len pkt [] rfl hlen
      rcases mem_append.1 hbytes with hbytes | hbytes
      · obtain ⟨c, hc, rfl⟩ := mem_map.1 hbytes
        exact ⟨c, hc, hcarries⟩
      · exact absurd hcarries (hreflected actions env len pkt [] rfl bytes hbytes)

omit h

/-- **The commands of a session.** If nobody else has the key, no new key is
set and no message of the server is delivered to it again, then the strings
passed to `system` are those that the client has encrypted in this session,
each message at most once. -/
theorem commands_of_client (aes : Aes) (cfg : Config)
    (host : ByteOrder) (skey : Bytes) (server : Server) (client : Crypt) (actions : List Action)
    (hkeySet : ∀ id, keySet id
      ∉ ((Net.start cfg host skey server client).run aes cfg actions).server.trace)
    (hunforgeable : Unforgeable aes cfg (Net.start cfg host skey server client) actions)
    (hreflected : NotReflected aes cfg (Net.start cfg host skey server client) actions) :
    ∃ cs : List Call,
      systems ((Net.start cfg host skey server client).run aes cfg actions).server.trace
          = cs.map Call.string
        ∧ cs.Nodup
        ∧ ∀ c ∈ cs, c ∈ ((Net.start cfg host skey server client).run aes cfg actions).calls
          ∧ (c.command.bytes.length < 1024 → c.string = c.command.bytes) := by
  have hstart : SessionInv (skey.slice 0 16) (Net.start cfg host skey server client) := ⟨rfl, rfl,
    fun c hc => absurd hc not_mem_nil, [], rfl, List.Pairwise.nil,
    fun c hc => absurd hc not_mem_nil⟩
  obtain ⟨cs, hsystems, hpair, hcs⟩ := (hstart.run actions hkeySet hunforgeable hreflected).executed
  refine ⟨cs, hsystems, hpair.imp fun hlt heq => ?_, fun c hc => ⟨(hcs c hc).1, Call.string_eq⟩⟩
  rw [heq] at hlt
  exact lt_irrefl _ hlt

/-! ## Output that runs as a command -/

/-- A message with the header of a command. -/
def relabel (msg : Bytes) : Bytes :=
  ((msg.blit 0 (be32 3671771902)).blit 8 (be32 10)).blit 12 (be16 0xffff ++ be16 0)

/-- A packet with a message as a command: a broadcast over UDP. -/
def cmdPacket (msg : Bytes) : Bytes := fun i =>
  if i < 42 then
    (replicate 6 0xff ++ replicate 6 0 ++ [8, 0] ++ replicate 9 0 ++ [17]
      ++ replicate 12 0 ++ be16 56026 ++ replicate 4 0).getD i 0
  else relabel msg (i - 42)

theorem cmdPacket_msg : (fun i => cmdPacket msg (42 + i)) = relabel msg := by
  funext i
  rw [cmdPacket, if_neg (by omega), Nat.add_sub_cancel_left]

theorem slice_relabel {a n : ℕ} (h : 4 ≤ a ∧ a + n ≤ 8 ∨ 16 ≤ a) :
    (relabel msg).slice a n = msg.slice a n := by
  rw [relabel, slice_blit_of_disjoint _ (by simp; omega), slice_blit_of_disjoint _ (by simp; omega),
    slice_blit_of_disjoint _ (by simp; omega)]

theorem relabel_header : (relabel msg).load32 0 = 3671771902 ∧ (relabel msg).load32 8 = 10
    ∧ (relabel msg).load16 12 = 0xffff ∧ (relabel msg).load16 14 = 0
    ∧ (relabel msg).load32 4 = msg.load32 4 := by
  have hends := slice_blit_self ((msg.blit 0 (be32 3671771902)).blit 8 (be32 10)) 12
    (be16 0xffff ++ be16 0)
  rw [slice_append_iff] at hends
  simp only [length_be16] at hends
  refine ⟨?_, ?_, load16_of_slice hends.1, load16_of_slice hends.2, ?_⟩
  · rw [relabel, load32_blit_of_disjoint _ (by simp),
      load32_blit_of_disjoint _ (by simp), load32_blit_self]
  · rw [relabel, load32_blit_of_disjoint _ (by simp), load32_blit_self]
  · rw [load32, load, slice_relabel msg (by omega)]
    rfl

theorem carries_relabel : Carries (relabel msg) (messageBytes msg) := by
  refine ⟨?_, ?_⟩
  · rw [slice_relabel msg (by omega), messageBytes, drop_slice _ _ (by omega),
      take_slice _ _ (by omega)]
  · rw [slice_relabel msg (by omega), (relabel_header msg).2.2.2.2, messageBytes,
      drop_slice _ _ (by omega), Nat.add_sub_cancel_left]

theorem carries_cmdPacket : Carries (fun i => cmdPacket msg (42 + i)) (messageBytes msg) := by
  rw [cmdPacket_msg]
  exact carries_relabel msg

theorem cmdPacket_header :
    (cmdPacket msg).load16 12 = 0x0800 ∧ (cmdPacket msg).slice 0 6 = replicate 6 0xff
      ∧ cmdPacket msg 23 = 17 ∧ (cmdPacket msg).load16 36 = 56026 := by
  have hpart (a : ℕ) (n : ℕ) (h : a + n ≤ 42) : (cmdPacket msg).slice a n
      = (cmdPacket fun _ => 0).slice a n := by
    refine slice_congr fun i hi => ?_
    rw [cmdPacket, cmdPacket, if_pos (by omega), if_pos (by omega)]
  refine ⟨?_, ?_, ?_, ?_⟩
  · rw [load16, load, hpart 12 2 (by omega)]
    decide
  · rw [hpart 0 6 (by omega)]
    decide
  · rw [cmdPacket, if_pos (by omega)]
    decide
  · rw [load16, load, hpart 36 2 (by omega)]
    decide

@[simp] theorem crashed_sendConsole (s : Server) (console : List (List UInt8)) :
    (s.sendConsole aes console).crashed = s.crashed := by
  induction console generalizing s with
  | nil => rfl
  | cons data console ih => exact ih _

/-- The server after a command and its output. -/
def afterCommand (aes : Aes) (s : Server) (crypt : Crypt)
    (command : List UInt8) (console : List (List UInt8)) : Server :=
  (((({ s.log (.sendCmd s.ts s.username) with crypt }.log (.system command)).sendConsole aes
    console).encryptData aes 1 []).sendPacketClone)

/-- What the server does with a packet that decrypts to a command. -/
theorem handlePacket_cmdPacket {s : Server} (hstate : s.state = .sendCmd)
    (hcrashed : s.crashed = false) {cfg : Config} (hinstance : cfg.instanceId = 0) {env : Env}
    (henv : env.pipeFails = false ∧ env.forkFails = false ∧ env.killed = false) {len : UInt32}
    {msg : Bytes} (hmin : 90 ≤ len.toNat) (hmax : len.toNat < 2 ^ 31)
    (hlen : (62 + (msg.load32 4).toNat) % 2 ^ cfg.sizeBits ≤ len.toNat) {crypt : Crypt}
    {plain : Bytes} {n : ℕ}
    (hdecrypt : eadDecryptMessage aes s.crypt (relabel msg) = (crypt, plain, (n : ℤ)))
    (hn : 3 < n ∧ n < 2 ^ 31) (htype : plain 45 = 0) :
    s.handlePacket aes cfg (env, len, cmdPacket msg)
      = afterCommand aes (s.prepareReply cfg (relabel msg) 10) crypt (commandOf plain n)
          env.console := by
  obtain ⟨hmagic, hcode, hnid, hsid, hfield⟩ := relabel_header msg
  obtain ⟨hether, hdhost, hproto, hport⟩ := cmdPacket_header msg
  have hdata : ¬ dataLen (n : ℤ) ≤ 0 := by
    rw [dataLen_natCast hn.1.le hn.2]
    omega
  obtain ⟨prepared, hprepared⟩ : ∃ r, r = s.prepareReply cfg (relabel msg) 10 := ⟨_, rfl⟩
  have hhandle : prepared.handle aes cfg env (relabel msg) (.on .sendCmd)
      = ((({ prepared.log (.sendCmd prepared.ts prepared.username) with crypt }.log
          (.system (commandOf plain n))).sendConsole aes env.console).encryptData aes 1 [],
        true, none) := by
    have hcrypt : eadDecryptMessage aes
        (prepared.log (.sendCmd prepared.ts prepared.username)).crypt (relabel msg)
          = (crypt, plain, (n : ℤ)) := by
      rw [hprepared]
      exact hdecrypt
    have hntohs : ntohsByte cfg.host 0 = 0 := by cases cfg.host <;> rfl
    simp only [handle, handleSendCmd, hcrypt, htype, hntohs, henv]
    rw [if_neg (show ¬ toInt (.ofInt ((n : ℤ) - 3)) ≤ 0 from hdata), if_pos trivial,
      if_neg (by decide), if_neg (by decide)]
    rfl
  have hsame : (prepared.handle aes cfg env (relabel msg) (.on .sendCmd)).1.state = .sendCmd := by
    have hstart : prepared.state = .sendCmd := by
      rw [hprepared]
      exact hstate
    exact (quietly_handleSendCmd aes cfg env (relabel msg) prepared).1.state.trans hstart
  have hrunning : (prepared.handle aes cfg env (relabel msg) (.on .sendCmd)).1.crashed
      = false := by
    rw [hhandle, ← hcrashed, show s.crashed = prepared.crashed by rw [hprepared]; rfl]
    exact crashed_sendConsole _ _
  rw [handlePacket]
  simp only [cmdPacket_msg, hcrashed, hether, hdhost, hproto, hport, hmagic, hnid, hfield,
    Bool.false_eq_true, if_false, ne_eq, not_true_eq_false, false_and]
  rw [if_neg (by omega), if_neg (by omega), parseMessage]
  have htoInt : toInt len = len.toNat := if_pos hmax
  have hten : toInt 10 = 10 := by decide
  have hhandler : handlerOf 10 = some (.on .sendCmd) := rfl
  simp only [hcode, hten, hstate, hsid, hinstance, htoInt]
  rw [if_neg (by decide), if_neg (by decide), hhandler, ← hprepared]
  have hlong : ¬ (len.toNat : ℤ) < minLen (.on .sendCmd) := by
    show ¬ (len.toNat : ℤ) < 62 + (3 + 25)
    omega
  dsimp only
  rw [if_neg hlong, hrunning, hhandle, if_neg (by decide), if_pos rfl, Option.getD_none, setState]
  rw [hhandle] at hsame
  exact if_pos hsame

/-- A server with a session that has been authenticated. -/
def exampleServer : Server :=
  { init .initial (fun _ => 0) with
    state := .sendCmd
    ts := some ⟨0, [], []⟩ }

/-- A server with instance number 0 on a little-endian host. -/
def exampleConfig : Config := ⟨.little, 32, 0, 0, []⟩

/-- A session with a key whose increments are 4. -/
def exampleNet : Net :=
  Net.start exampleConfig .little fastKey exampleServer .initial

/-- The command `x`. -/
def exampleCommand : Command := ⟨[120], by decide, by decide⟩

/-- An environment in which the command prints `console`. -/
def exampleEnv (console : List (List UInt8)) : Env :=
  ⟨none, none, [], none, false, [], false, false, console, false⟩

/-- The message with the command. -/
def exampleMessage : Bytes :=
  (sendCommand xorCipher (keyed fastKey) (fun _ => 0) exampleCommand).2

/-- The static variables of the server after the command. -/
def exampleCrypt : Crypt := { keyed fastKey with rxIv := 4 }

/-- **A command of one or two bytes is run**, whoever has encrypted it. -/
theorem handlePacket_encrypted {s : Server} (hstate : s.state = .sendCmd)
    (hcrashed : s.crashed = false) {st crypt : Crypt} {buf : Bytes} (hkey : s.crypt.key = st.key)
    (hcheck : s.crypt.eadCheckRxIv st.eadGetTxIv.2 = some crypt) {x y z w : UInt8}
    (hbytes : buf.slice 45 5 = [0, x, y, z, w]) (console : List (List UInt8)) :
    s.handlePacket xorCipher exampleConfig
        (exampleEnv console, 126, cmdPacket (eadEncryptMessage xorCipher st buf 5).2)
      = afterCommand xorCipher
          (s.prepareReply exampleConfig (relabel (eadEncryptMessage xorCipher st buf 5).2) 10) crypt
          ([z, w].takeWhile (· ≠ 0)) console := by
  have hlen := eadEncryptMessage_len xorCipher st buf 5
  obtain ⟨hfield, heqOn⟩ := Carries.encrypted xorCipher st buf 5 (carries_relabel _)
  obtain ⟨plain, hslice, hret⟩ := eadDecryptMessage_sent xorCipher hkey (by decide) hfield heqOn
  rw [hcheck] at hret
  have hpayload : plain.slice 45 5 = [0, x, y, z, w] := hslice.trans hbytes
  have hcommand : commandOf plain ((5 : UInt32).toNat : ℤ) = [z, w].takeWhile (· ≠ 0) := by
    have hdrop := congrArg (drop 3) hpayload
    rw [drop_slice _ _ (by decide)] at hdrop
    rw [commandOf, dataLen_natCast (by decide) (by decide)]
    exact congrArg (takeWhile _) hdrop
  rw [handlePacket_cmdPacket hstate hcrashed (show exampleConfig.instanceId = 0 from rfl)
    ⟨rfl, rfl, rfl⟩ (by decide) (by decide) (by rw [hlen]; decide) hret (by decide)
    (cons.inj hpayload).1, hcommand]
  rfl

/-- The server after the command, with output. -/
def afterExample (console : List (List UInt8)) : Server :=
  afterCommand xorCipher
    (exampleNet.server.prepareReply exampleConfig (relabel exampleMessage) 10) exampleCrypt [120]
    console

theorem handlePacket_exampleMessage (console : List (List UInt8)) :
    exampleNet.server.handlePacket xorCipher exampleConfig
      (exampleEnv console, 126, cmdPacket exampleMessage) = afterExample console := by
  have hcheck : (keyed fastKey).eadCheckRxIv (keyed fastKey).eadGetTxIv.2 = some exampleCrypt := by
    decide
  have hbytes : (commandBuffer (fun _ => 0) exampleCommand).slice 45 5 = [0, 0, 10, 120, 0] := by
    decide
  exact handlePacket_encrypted (s := exampleNet.server) rfl rfl rfl hcheck hbytes console

/-- The server when it has sent the output `a`. -/
def exampleStream : Server :=
  (({ (exampleNet.server.prepareReply exampleConfig (relabel exampleMessage) 10).log
    (.sendCmd (some ⟨0, [], []⟩) []) with crypt := exampleCrypt }.log (.system [120])).encryptData
      xorCipher 0 [97]).sendPacketClone

/-- The output `zzid`, as it is sent then. -/
def outputMessage : Bytes :=
  (exampleStream.encryptData xorCipher 0 [122, 122, 105, 100]).pktbuf

/-- The server after it has run `x`, which has printed in two parts. -/
def afterOutput : Server := afterExample [[97], [122, 122, 105, 100]]

theorem handlePacket_outputMessage : ∃ last, (afterOutput.handlePacket xorCipher exampleConfig
      (exampleEnv [], 126, cmdPacket outputMessage)).trace
    = afterOutput.trace ++ [.sendCmd (some ⟨0, [], []⟩) [], .system [105, 100], .sent last] := by
  have hcrypt : afterOutput.crypt = exampleCrypt.eadGetTxIv.1.eadGetTxIv.1.eadGetTxIv.1 := rfl
  have hstream : exampleStream.crypt = exampleCrypt.eadGetTxIv.1 := rfl
  have hcheck : afterOutput.crypt.eadCheckRxIv exampleStream.crypt.eadGetTxIv.2
      = some { exampleCrypt.eadGetTxIv.1.eadGetTxIv.1.eadGetTxIv.1 with rxIv := 8 } := by
    rw [hcrypt, hstream]
    decide
  have hbytes : ((exampleStream.pktbuf.blit 45 [0]).blit 46 [122, 122, 105, 100]).slice 45 5
      = [0, 122, 122, 105, 100] := by
    have hblit := exampleStream.pktbuf.blit_append 45 [0] [122, 122, 105, 100]
    rw [show 46 = 45 + [(0 : UInt8)].length from rfl, hblit]
    exact slice_blit_self ..
  have houtput : outputMessage = (eadEncryptMessage xorCipher exampleStream.crypt
      ((exampleStream.pktbuf.blit 45 [0]).blit 46 [122, 122, 105, 100]) 5).2 := rfl
  have hstate : afterOutput.state = .sendCmd := rfl
  have hcrashed : afterOutput.crashed = false := rfl
  have hkey : afterOutput.crypt.key = exampleStream.crypt.key := by rw [hcrypt, hstream]; rfl
  rw [houtput, handlePacket_encrypted hstate hcrashed hkey hcheck hbytes]
  exact ⟨_, rfl⟩

theorem slice_eadEncryptMessage (aes : Aes) (st : Crypt) (msg : Bytes) (len : UInt32) :
    (eadEncryptMessage aes st msg len).2.slice 8 4 = msg.slice 8 4 := by
  show ((plainMessage msg _ len).eachBlock (aes.encrypt st.key) 16 _ 20).slice 8 4 = _
  rw [eachBlock_eq_blit (aes.length_encrypt _), slice_blit_of_disjoint _ (Or.inl (by decide)),
    slice_plainMessage _ _ _ (by omega)]

theorem slice_prepareReply (s : Server) :
    (s.prepareReply cfg msg 10).pktbuf.slice 8 4 = be32 11 := by
  show (((((s.pktbuf.blit 0 _).blit 8 (be32 11)).blit 12 (be16 cfg.nid)).blit 14
    (msg.slice 14 2)).blit 4 (be32 0)).slice 8 4 = _
  rw [slice_blit_of_disjoint _ (by simp), slice_blit_of_disjoint _ (by simp),
    slice_blit_of_disjoint _ (by simp)]
  exact slice_blit_self ..

theorem slice_encryptData (aes : Aes) (s : Server) (done : UInt8)
    (data : List UInt8) : (s.encryptData aes done data).pktbuf.slice 8 4 = s.pktbuf.slice 8 4 := by
  show (eadEncryptMessage aes s.crypt ((s.pktbuf.blit 45 [done]).blit 46 data) _).2.slice 8 4 = _
  rw [slice_eadEncryptMessage, slice_blit_of_disjoint _ (by simp),
    slice_blit_of_disjoint _ (by simp)]

theorem type_outputMessage : ((messageBytes outputMessage).drop 8).take 4 = be32 11 := by
  rw [messageBytes, drop_slice _ _ (by omega), take_slice _ _ (by omega),
    outputMessage, slice_encryptData]
  exact (slice_encryptData ..).trans (slice_prepareReply ..)

/-- The command is sent and delivered; then its output is delivered to the
server. -/
def reflection : List Action :=
  [.command (fun _ => 0) exampleCommand,
    .packet (exampleEnv [[97], [122, 122, 105, 100]]) 126 (cmdPacket exampleMessage),
    .packet (exampleEnv []) 126 (cmdPacket outputMessage)]

theorem trace_afterExample : ∃ first last, afterOutput.trace
    = [.sendCmd (some ⟨0, [], []⟩) [], .system [120], .sent first,
      .sent (messageBytes outputMessage), .sent last] :=
  ⟨_, _, rfl⟩

theorem run_exampleMessage (console : List (List UInt8)) : exampleNet.run xorCipher exampleConfig
      [.command (fun _ => 0) exampleCommand,
        .packet (exampleEnv console) 126 (cmdPacket exampleMessage)]
    = ⟨afterExample console, (sendCommand xorCipher (keyed fastKey) (fun _ => 0) exampleCommand).1,
      [⟨keyed fastKey, fun _ => 0, exampleCommand⟩]⟩ := by
  rw [← handlePacket_exampleMessage]
  rfl

/-- The run in which the client sends `x` and the server runs it. -/
def delivery : List Action :=
  [.command (fun _ => 0) exampleCommand,
    .packet (exampleEnv []) 126 (cmdPacket exampleMessage)]

theorem delivery_eq_append {before after : List Action} {env : Env} {len : UInt32}
    {pkt : Bytes} (h : delivery = before ++ .packet env len pkt :: after) :
    before = [.command (fun _ => 0) exampleCommand] ∧ pkt = cmdPacket exampleMessage := by
  simp only [delivery, cons_eq_append_iff] at h
  simp_all

/-- A command that is delivered. -/
theorem commands_of_client_delivery :
    systems (exampleNet.run xorCipher exampleConfig delivery).server.trace = [[120]]
      ∧ ∃ cs : List Call,
        systems (exampleNet.run xorCipher exampleConfig delivery).server.trace = cs.map Call.string
          ∧ cs.Nodup
          ∧ ∀ c ∈ cs, c ∈ (exampleNet.run xorCipher exampleConfig delivery).calls
            ∧ (c.command.bytes.length < 1024 → c.string = c.command.bytes) := by
  have hrun : exampleNet.run xorCipher exampleConfig delivery = _ := run_exampleMessage []
  have htrace : ∃ last, (afterExample []).trace
      = [.sendCmd (some ⟨0, [], []⟩) [], .system [120], .sent last] := ⟨_, rfl⟩
  obtain ⟨last, htrace⟩ := htrace
  refine ⟨?_, commands_of_client xorCipher exampleConfig .little fastKey exampleServer _ delivery
    ?_ ?_ ?_⟩
  · rw [hrun, htrace]
    rfl
  · intro id
    show keySet id ∉ (exampleNet.run xorCipher exampleConfig delivery).server.trace
    rw [hrun, htrace]
    simp
  · intro before env len pkt after h _
    obtain ⟨rfl, rfl⟩ := delivery_eq_append h
    exact ⟨messageBytes exampleMessage, mem_append_left _ (mem_singleton_self _),
      carries_cmdPacket _⟩
  · intro before env len pkt after h bytes hbytes
    obtain ⟨rfl, rfl⟩ := delivery_eq_append h
    exact absurd hbytes not_mem_nil

/-- **Output runs as a command.** The client has sent only `x`, and every
packet carries what the client or the server has encrypted; the server also
runs `id`, which is part of the output of `x`. -/
theorem reflected_output_runs :
    (∀ id, keySet id ∉ (exampleNet.run xorCipher exampleConfig reflection).server.trace)
      ∧ Unforgeable xorCipher exampleConfig exampleNet reflection
      ∧ systems (exampleNet.run xorCipher exampleConfig reflection).server.trace
        = [[120], [105, 100]]
      ∧ (exampleNet.run xorCipher exampleConfig reflection).calls.map Call.string = [[120]] := by
  obtain ⟨first, last, htrace⟩ := trace_afterExample
  obtain ⟨last', htrace'⟩ := handlePacket_outputMessage
  have hrun : (exampleNet.run xorCipher exampleConfig reflection).server.trace
      = afterOutput.trace ++ [.sendCmd (some ⟨0, [], []⟩) [], .system [105, 100], .sent last'] := by
    have hlast : exampleNet.run xorCipher exampleConfig reflection
        = (exampleNet.run xorCipher exampleConfig [.command (fun _ => 0) exampleCommand,
        .packet (exampleEnv [[97], [122, 122, 105, 100]]) 126 (cmdPacket exampleMessage)]).step
        xorCipher exampleConfig (.packet (exampleEnv []) 126 (cmdPacket outputMessage)) := rfl
    rw [← htrace', hlast, run_exampleMessage]
    rfl
  rw [htrace] at hrun
  refine ⟨?_, ?_, ?_, ?_⟩
  · rw [hrun]
    generalize messageBytes outputMessage = output
    simp
  · intro before env len pkt after heq _
    rw [reflection] at heq
    rcases before with _ | ⟨a, _ | ⟨b, _ | ⟨c, before⟩⟩⟩
    · exact absurd (cons.inj heq).1 (by simp)
    · obtain ⟨rfl, hrest⟩ := cons.inj heq
      obtain ⟨-, -, rfl⟩ := Action.packet.inj (cons.inj hrest).1
      exact ⟨messageBytes exampleMessage, mem_append_left _ (mem_singleton_self _),
        carries_cmdPacket _⟩
    · obtain ⟨rfl, hrest⟩ := cons.inj heq
      obtain ⟨rfl, hlast⟩ := cons.inj hrest
      obtain ⟨-, -, rfl⟩ := Action.packet.inj (cons.inj hlast).1
      refine ⟨messageBytes outputMessage, mem_append_right _ ?_, carries_cmdPacket _⟩
      rw [run_exampleMessage, ← afterOutput, htrace]
      exact mem_filter.2 ⟨by simp [sentMessages], decide_eq_true type_outputMessage⟩
    · have hlength := congrArg length heq
      simp at hlength
  · rw [hrun]
    rfl
  · show [Call.string ⟨keyed fastKey, fun _ => 0, exampleCommand⟩] = [[120]]
    rw [Call.string_eq (by decide)]
    rfl

end Ead
