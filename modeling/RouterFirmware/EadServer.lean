import RouterFirmware.EadCrypt

/-!
# The server of ead

The server waits for packets in one of five states. A client names a user,
gets the parameters of the key exchange, exchanges the two public numbers,
proves that it knows the password, and then sends encrypted commands:

`SET_USERNAME → GET_PRIME → SEND_A → SEND_AUTH → SEND_CMD`
-/

namespace Ead

open Option

/-! ## States and sessions -/

/-- The values of `state`, named by the type of message that is waited for. -/
inductive Phase where
  | setUsername
  | getPrime
  | sendA
  | sendAuth
  | sendCmd
deriving DecidableEq

def Phase.type : Phase → ℤ
  | setUsername => 2
  | getPrime => 4
  | sendA => 6
  | sendAuth => 8
  | sendCmd => 10

/-- **An open session** (`struct t_server`). -/
structure Session where
  id : ℕ
  user : List UInt8
  salt : List UInt8
deriving DecidableEq

/-- A number `B`, with the session it was generated from. -/
structure Exponent where
  session : ℕ
  data : List UInt8

/-- **What happens**, as far as it can be seen from outside. -/
inductive Event where
  /-- `handle_set_username` is entered. -/
  | setUsername (user : List UInt8)
  /-- `t_serveropenraw` has given a session. -/
  | opened (id : ℕ) (user : List UInt8)
  /-- `t_serverclose`. -/
  | closed (id : ℕ)
  /-- `ead_set_key`. -/
  | keySet (id : ℕ)
  /-- `t_serververify` has succeeded. -/
  | verified (id : ℕ)
  /-- `handle_send_cmd` is entered. -/
  | sendCmd (ts : Option Session) (user : List UInt8)
  /-- A string is passed to `system`. -/
  | system (command : List UInt8)
  /-- `ead_send_packet_clone`. -/
  | sent (msg : List UInt8)

/-- **The static variables of `ead.c`**, and the trace. -/
structure Server where
  state : Phase
  username : List UInt8
  ts : Option Session
  B : Option Exponent
  A : List UInt8
  primeIndex : UInt8
  pwSalt : List UInt8
  crypt : Crypt
  pktbuf : Bytes
  crashed : Bool
  sessions : ℕ
  trace : List Event

structure Config where
  host : ByteOrder
  sizeBits : ℕ
  nid : UInt16
  instanceId : ℤ
  devName : List UInt8

/-- **The answers of the world while a packet is handled.** -/
structure Env where
  /-- `prepare_password`: `tce->index` and the salt of the password file. -/
  preparePassword : Option (UInt8 × List UInt8)
  /-- `t_serveropenraw`: the salt of the session. -/
  serverOpenRaw : Option (List UInt8)
  serverGenExp : List UInt8
  serverGetKey : Option Bytes
  serverVerify : Bool
  serverResponse : List UInt8
  pipeFails : Bool
  forkFails : Bool
  /-- What is read from the command, a piece at a time. -/
  console : List (List UInt8)
  /-- The command had not ended when its time was over. -/
  killed : Bool

namespace Server

def log (s : Server) (e : Event) : Server := { s with trace := s.trace ++ [e] }

def crash (s : Server) : Server := { s with crashed := true }

def init (crypt : Crypt) (pktbuf : Bytes) : Server :=
  { state := .setUsername, username := [], ts := none, B := none, A := [], primeIndex := 0,
    pwSalt := [], crypt, pktbuf, crashed := false, sessions := 0, trace := [] }

/-! ## Transitions -/

def serverClose (s : Server) : Server :=
  match s.ts with
  | none => s.crash
  | some t => { s with ts := none }.log (.closed t.id)

def leave (s : Server) (nstate : Phase) : Server :=
  let s := if nstate.type < Phase.getPrime.type ∧ Phase.getPrime.type ≤ s.state.type
    then s.serverClose else s
  { s with state := nstate }

def openSession (env : Env) (s : Server) : Server × Bool :=
  match env.preparePassword with
  | none => (s, false)
  | some (primeIndex, pwSalt) =>
    let s := { s with primeIndex, pwSalt }
    match env.serverOpenRaw with
    | none => ({ s with ts := none }, false)
    | some salt =>
      ({ s with ts := some ⟨s.sessions, s.username, salt⟩, sessions := s.sessions + 1 }.log
        (.opened s.sessions s.username), true)

def generateB (env : Env) (s : Server) : Server × Bool :=
  match s.ts with
  | none => (s.crash, false)
  | some t => ({ s with B := some ⟨t.id, env.serverGenExp⟩ }, true)

def establishKey (cfg : Config) (env : Env) (s : Server) : Server × Bool :=
  match s.ts with
  | none => (s.crash, false)
  | some t =>
    match env.serverGetKey with
    | none => (s, false)
    | some skey => ({ s with crypt := s.crypt.eadSetKey cfg.host skey }.log (.keySet t.id), true)

def enter (cfg : Config) (env : Env) (s : Server) : Server × Bool :=
  match s.state with
  | .setUsername => s.openSession env
  | .getPrime => s.generateB env
  | .sendA => s.establishKey cfg env
  | _ => (s, true)

def setState (cfg : Config) (env : Env) (s : Server) (nstate : Phase) : Server :=
  if s.state = nstate then s
  else if nstate.type < s.state.type then s.leave nstate
  else
    let (s, taken) := s.enter cfg env
    if taken then { s with state := nstate } else s

/-! ## Handlers

A handler is given the message of the packet (`pkt->msg`, from address 0 on)
and gives the server after it, whether a reply is sent, and `nstate` if it is
set. -/

def handlePing (cfg : Config) (s : Server) : Server × Bool × Option Phase :=
  let name := cfg.devName.take 1024
  let buf := s.pktbuf.blit 4 (be32 (2 + .ofNat name.length))
  let buf := buf.blit 22 (name ++ [0])
  ({ s with pktbuf := buf.blit 20 (be16 1) }, true, none)

def handleSetUsername (cfg : Config) (env : Env) (msg : Bytes) (s : Server) :
    Server × Bool × Option Phase :=
  let user := ((msg.slice 20 32).take 31).takeWhile (· ≠ 0)
  let s := s.log (.setUsername user)
  let s := s.setState cfg env .setUsername
  let s := { s with username := user }
  ({ s with pktbuf := s.pktbuf.blit 4 (be32 0) }, true, some .getPrime)

def handleGetPrime (s : Server) : Server × Bool × Option Phase :=
  match s.ts with
  | none => (s.crash, false, none)
  | some t =>
    let buf := s.pktbuf.blit 4 (be32 66)
    let buf := buf.blit 20 [s.primeIndex - 1, .ofNat t.salt.length]
    let buf := buf.blit 22 t.salt
    ({ s with pktbuf := buf.blit 54 s.pwSalt }, true, some .sendA)

def handleSendA (msg : Bytes) (s : Server) : Server × Bool × Option Phase :=
  let len := toInt (msg.load32 4 - 1)
  if 256 + 1 < len then (s, false, none)
  else if len < 0 then (s.crash, false, none)
  else
    let s := { s with A := msg.slice 21 len.toNat }
    match s.B with
    | none => (s.crash, false, none)
    | some b =>
      let buf := s.pktbuf.blit 4 (be32 (1 + .ofNat b.data.length))
      ({ s with pktbuf := buf.blit 21 b.data }, true, some .sendAuth)

def handleSendAuth (env : Env) (s : Server) : Server × Bool × Option Phase :=
  match s.ts with
  | none => (s.crash, false, none)
  | some t =>
    if env.serverVerify then
      let s := s.log (.verified t.id)
      let buf := s.pktbuf.blit 4 (be32 20)
      ({ s with pktbuf := buf.blit 20 env.serverResponse }, true, some .sendCmd)
    else (s, false, some .setUsername)

section Cipher

variable (aes : Aes)

def sendPacketClone (s : Server) : Server :=
  s.log (.sent (s.pktbuf.slice 0 (20 + (s.pktbuf.load32 4).toNat)))

def encryptData (s : Server) (done : UInt8) (data : List UInt8) : Server :=
  let (crypt, buf) := eadEncryptMessage aes s.crypt ((s.pktbuf.blit 45 [done]).blit 46 data)
    (1 + .ofNat data.length)
  { s with crypt, pktbuf := buf }

def sendConsole (s : Server) : List (List UInt8) → Server
  | [] => s
  | data :: console => sendConsole (s.encryptData aes 0 data).sendPacketClone console

def ntohsByte (host : ByteOrder) (b : UInt8) : ℕ :=
  match host with
  | .little => b.toNat * 256
  | .big => b.toNat

def handleSendCmd (cfg : Config) (env : Env) (msg : Bytes) (s : Server) :
    Server × Bool × Option Phase :=
  let s := s.log (.sendCmd s.ts s.username)
  let (crypt, msg, ret) := eadDecryptMessage aes s.crypt msg
  let s := { s with crypt }
  let datalen := toInt (.ofInt (ret - 3))
  if datalen ≤ 0 then (s, false, none)
  else
    let command := (msg.slice 48 datalen.toNat).takeWhile (· ≠ 0)
    let type := ntohsByte cfg.host (msg 45)
    if type = 0 then
      if env.pipeFails ∨ env.forkFails then (s, false, none)
      else
        let s := (s.log (.system command)).sendConsole aes env.console
        if env.killed then (s, false, none) else (s.encryptData aes 1 [], true, none)
    else if type = 1 then
      if env.forkFails then (s, false, none)
      else ((s.log (.system command)).encryptData aes 1 [], true, none)
    else (s, false, none)

/-! ## Packets -/

/-- The handlers, by the type of the message. -/
inductive Handler where
  | ping
  | on (phase : Phase)

def handlerOf (type : ℤ) : Option Handler :=
  if type = 0 then some .ping
  else if type = Phase.setUsername.type then some (.on .setUsername)
  else if type = Phase.getPrime.type then some (.on .getPrime)
  else if type = Phase.sendA.type then some (.on .sendA)
  else if type = Phase.sendAuth.type then some (.on .sendAuth)
  else if type = Phase.sendCmd.type then some (.on .sendCmd)
  else none

def minLen : Handler → ℤ
  | .ping => 62
  | .on .setUsername => 62 + 32
  | .on .getPrime => 62
  | .on .sendA => 62 + 1
  | .on .sendAuth => 62 + 20
  | .on .sendCmd => 62 + (3 + 25)

def handle (cfg : Config) (env : Env) (msg : Bytes) (s : Server) :
    Handler → Server × Bool × Option Phase
  | .ping => s.handlePing cfg
  | .on .setUsername => s.handleSetUsername cfg env msg
  | .on .getPrime => s.handleGetPrime
  | .on .sendA => s.handleSendA msg
  | .on .sendAuth => s.handleSendAuth env
  | .on .sendCmd => s.handleSendCmd aes cfg env msg

def prepareReply (cfg : Config) (msg : Bytes) (type : ℤ) (s : Server) : Server :=
  let buf := s.pktbuf.blit 0 (be32 3671771902)
  let buf := buf.blit 8 (be32 (.ofInt (type + 1)))
  let buf := buf.blit 12 (be16 cfg.nid)
  let buf := buf.blit 14 (msg.slice 14 2)
  { s with pktbuf := buf.blit 4 (be32 0) }

def parseMessage (cfg : Config) (env : Env) (msg : Bytes) (len : ℤ) (s : Server) : Server :=
  let type := toInt (msg.load32 8)
  if Phase.getPrime.type ≤ type ∧ s.state.type ≠ type then s
  else if type ≠ 0 ∧ (((msg.load16 14 &&& 0xf000) >>> 12).toNat : ℤ) ≠ cfg.instanceId then s
  else
    match handlerOf type with
    | none => s
    | some handler =>
      if len < minLen handler then s
      else
        let nstate := s.state
        let (s, reply, set) := handle aes cfg env msg (s.prepareReply cfg msg type) handler
        if s.crashed then s
        else
          let s := if reply then s.sendPacketClone else s
          s.setState cfg env (set.getD nstate)

def handlePacket (cfg : Config) (s : Server) : Env × UInt32 × Bytes → Server
  | (env, len, pkt) =>
    let msg : Bytes := fun i => pkt (42 + i)
    if s.crashed then s
    else if len.toNat < 62 then s
    else if pkt.load16 12 ≠ 0x0800 then s
    else if pkt.slice 0 6 ≠ List.replicate 6 0xff then s
    else if pkt 23 ≠ 17 then s
    else if pkt.load16 36 ≠ 56026 then s
    else if msg.load32 0 ≠ 3671771902 then s
    else if len.toNat < (62 + (msg.load32 4).toNat) % 2 ^ cfg.sizeBits then s
    else if msg.load16 12 ≠ 0xffff ∧ msg.load16 12 ≠ cfg.nid then s
    else s.parseMessage aes cfg env msg (toInt len)

def run (cfg : Config) (s : Server) (packets : List (Env × UInt32 × Bytes)) : Server :=
  packets.foldl (handlePacket aes cfg) s

end Cipher

end Server

/-! ## Traces -/

def Event.Quiet : Event → Prop
  | .setUsername _ | .opened _ _ | .closed _ => False
  | _ => True

def Event.Silent : Event → Prop
  | .setUsername _ | .opened _ _ | .closed _ | .sendCmd _ _ => False
  | _ => True

def OpenedIn (trace : List Event) (t : Session) : Prop :=
  ∃ before since, trace = before ++ .opened t.id t.user :: since ∧ ∀ e ∈ since, e.Quiet

def VerifiedIn (trace : List Event) (t : Session) : Prop :=
  ∃ before between since,
    trace = before ++ .opened t.id t.user :: (between ++ .verified t.id :: since)
      ∧ (∀ e ∈ between, e.Quiet) ∧ ∀ e ∈ since, e.Quiet

def Authenticated (trace : List Event) : Prop :=
  ∀ before ts user since, trace = before ++ .sendCmd ts user :: since →
    ∃ t, ts = some t ∧ t.user = user ∧ VerifiedIn before t

theorem Event.Silent.quiet {e : Event} (h : e.Silent) : e.Quiet := by
  cases e <;> first | exact h | trivial

variable {trace : List Event} {t : Session} {nstate : Phase}

theorem OpenedIn.append {es : List Event} (h : OpenedIn trace t) (hes : ∀ e ∈ es, e.Quiet) :
    OpenedIn (trace ++ es) t := by
  obtain ⟨before, since, rfl, hquiet⟩ := h
  refine ⟨before, since ++ es, by simp, fun e he => ?_⟩
  rcases List.mem_append.1 he with he | he
  · exact hquiet e he
  · exact hes e he

theorem VerifiedIn.append {es : List Event} (h : VerifiedIn trace t) (hes : ∀ e ∈ es, e.Quiet) :
    VerifiedIn (trace ++ es) t := by
  obtain ⟨before, between, since, rfl, hbetween, hquiet⟩ := h
  refine ⟨before, between, since ++ es, by simp, hbetween, fun e he => ?_⟩
  rcases List.mem_append.1 he with he | he
  · exact hquiet e he
  · exact hes e he

theorem OpenedIn.verify (h : OpenedIn trace t) : VerifiedIn (trace ++ [.verified t.id]) t := by
  obtain ⟨before, since, rfl, hquiet⟩ := h
  exact ⟨before, since, [], by simp, hquiet, by simp⟩

theorem Authenticated.log {e : Event} (h : Authenticated trace)
    (he : ∀ ts user, e = .sendCmd ts user → ∃ t, ts = some t ∧ t.user = user ∧ VerifiedIn trace t) :
    Authenticated (trace ++ [e]) := by
  intro before ts user since heq
  rcases List.eq_nil_or_concat since with rfl | ⟨since, last, rfl⟩
  · obtain ⟨rfl, hlast⟩ := List.append_inj' heq rfl
    exact he ts user (List.cons.inj hlast).1
  · rw [List.concat_eq_append, ← List.cons_append, ← List.append_assoc] at heq
    obtain ⟨hfirst, -⟩ := List.append_inj' heq rfl
    exact h before ts user since hfirst

theorem Authenticated.append {es : List Event} (h : Authenticated trace)
    (hes : ∀ e ∈ es, e.Silent) : Authenticated (trace ++ es) := by
  induction es generalizing trace with
  | nil => rwa [List.append_nil]
  | cons e es ih =>
    obtain ⟨he, hes⟩ := List.forall_mem_cons.1 hes
    rw [List.append_cons]
    refine ih (h.log ?_) hes
    rintro ts user rfl
    exact he.elim

/-! ## The invariant -/

structure Inv (s : Server) : Prop where
  /-- A session is open from `GET_PRIME` on. -/
  open_iff : Phase.getPrime.type ≤ s.state.type ↔ s.ts.isSome
  /-- `B` is of the session from `SEND_A` on. -/
  generated : Phase.sendA.type ≤ s.state.type →
    ∃ t b, s.ts = some t ∧ s.B = some b ∧ b.session = t.id
  /-- The session is of the present user. -/
  user : ∀ t ∈ s.ts, t.user = s.username ∧ OpenedIn s.trace t
  /-- In `SEND_CMD` it is verified. -/
  verified : s.state = .sendCmd → ∀ t ∈ s.ts, VerifiedIn s.trace t
  commands : Authenticated s.trace

/-- What a step may do without a change of state. -/
structure Quietly (s s' : Server) : Prop where
  state : s'.state = s.state
  username : s'.username = s.username
  ts : s'.ts = s.ts
  B : s'.B = s.B
  trace : ∃ es, s'.trace = s.trace ++ es ∧ ∀ e ∈ es, e.Silent

/-- What a step has to be for `set_state` to keep the invariant. -/
inductive Next (s : Server) : Phase → Prop where
  | stay : Next s s.state
  | back : Next s .setUsername
  | user : s.state = .setUsername → Next s .getPrime
  | prime : s.state = .getPrime → Next s .sendA
  | key : s.state = .sendA → Next s .sendAuth
  | auth : s.state = .sendAuth → (∀ t ∈ s.ts, VerifiedIn s.trace t) → Next s .sendCmd

variable {s s' : Server}

theorem Quietly.refl (s : Server) : Quietly s s := ⟨rfl, rfl, rfl, rfl, [], by simp, by simp⟩

theorem Quietly.trans {s'' : Server} (h : Quietly s s') (h' : Quietly s' s'') : Quietly s s'' := by
  obtain ⟨es, hes, hsilent⟩ := h.trace
  obtain ⟨es', hes', hsilent'⟩ := h'.trace
  refine ⟨h'.state.trans h.state, h'.username.trans h.username, h'.ts.trans h.ts, h'.B.trans h.B,
    es ++ es', by rw [hes', hes, List.append_assoc], fun e he => ?_⟩
  rcases List.mem_append.1 he with he | he
  · exact hsilent e he
  · exact hsilent' e he

theorem Quietly.log {e : Event} (s : Server) (he : e.Silent) : Quietly s (s.log e) :=
  ⟨rfl, rfl, rfl, rfl, [e], rfl, by simpa using he⟩

theorem Inv.quietly (h : Inv s) (hq : Quietly s s') : Inv s' := by
  obtain ⟨es, hes, hsilent⟩ := hq.trace
  have hquiet : ∀ e ∈ es, e.Quiet := fun e he => (hsilent e he).quiet
  refine ⟨?_, ?_, ?_, ?_, ?_⟩
  · rw [hq.state, hq.ts]
    exact h.open_iff
  · rw [hq.state, hq.ts, hq.B]
    exact h.generated
  · rw [hq.ts, hq.username, hes]
    exact fun t ht => ⟨(h.user t ht).1, (h.user t ht).2.append hquiet⟩
  · rw [hq.state, hq.ts, hes]
    exact fun hs t ht => (h.verified hs t ht).append hquiet
  · rw [hes]
    exact h.commands.append hsilent

theorem Next.quietly (h : Next s nstate) (hq : Quietly s s') : Next s' nstate := by
  cases h with
  | stay =>
    rw [← hq.state]
    exact .stay
  | back => exact .back
  | user hstate => exact .user (hq.state.trans hstate)
  | prime hstate => exact .prime (hq.state.trans hstate)
  | key hstate => exact .key (hq.state.trans hstate)
  | auth hstate hverified =>
    obtain ⟨es, hes, hsilent⟩ := hq.trace
    refine .auth (hq.state.trans hstate) ?_
    rw [hq.ts, hes]
    exact fun t ht => (hverified t ht).append fun e he => (hsilent e he).quiet

theorem inv_of_closed (hstate : s.state = .setUsername) (hts : s.ts = none)
    (hcommands : Authenticated s.trace) : Inv s := by
  refine ⟨?_, ?_, ?_, ?_, hcommands⟩
  · rw [hstate, hts]
    decide
  · rw [hstate]
    exact fun h => absurd h (by decide)
  · rw [hts]
    exact fun t ht => absurd ht (by simp)
  · rw [hts]
    exact fun _ t ht => absurd ht (by simp)

theorem setState_setUsername (cfg : Config) (env : Env)
    (hopen : Phase.getPrime.type ≤ s.state.type ↔ s.ts.isSome) (hcommands : Authenticated s.trace) :
    (s.setState cfg env .setUsername).state = .setUsername
      ∧ (s.setState cfg env .setUsername).ts = none
      ∧ Authenticated (s.setState cfg env .setUsername).trace := by
  by_cases hstate : s.state = .setUsername
  · have hts : s.ts = none := by
      rw [hstate] at hopen
      exact not_isSome_iff_eq_none.1 fun h => absurd (hopen.2 h) (by decide)
    rw [Server.setState, if_pos hstate]
    exact ⟨hstate, hts, hcommands⟩
  · have hup : Phase.getPrime.type ≤ s.state.type := by
      cases hs : s.state <;> first | exact absurd hs hstate | decide
    have hlt : Phase.setUsername.type < s.state.type :=
      lt_of_lt_of_le (show Phase.setUsername.type < Phase.getPrime.type by decide) hup
    obtain ⟨t, ht⟩ := isSome_iff_exists.1 (hopen.1 hup)
    rw [Server.setState, if_neg hstate, if_pos hlt, Server.leave, if_pos ⟨by decide, hup⟩,
      Server.serverClose, ht]
    exact ⟨rfl, rfl, hcommands.log fun ts user h => absurd h (by simp)⟩

theorem setState_taken {cfg : Config} {env : Env} (h : s.state.type < nstate.type)
    (henter : s.enter cfg env = (s', true)) :
    s.setState cfg env nstate = { s' with state := nstate } := by
  rw [Server.setState, if_neg (by rintro rfl; exact absurd h (lt_irrefl _)),
    if_neg (not_lt.2 h.le), henter]
  rfl

theorem setState_refused {cfg : Config} {env : Env} (h : s.state.type < nstate.type)
    (henter : s.enter cfg env = (s', false)) : s.setState cfg env nstate = s' := by
  rw [Server.setState, if_neg (by rintro rfl; exact absurd h (lt_irrefl _)),
    if_neg (not_lt.2 h.le), henter]
  rfl

theorem inv_of_open (hup : Phase.getPrime.type ≤ nstate.type)
    (ht : s.ts = some t) (huser : t.user = s.username) (hopened : OpenedIn s.trace t)
    (hgenerated : Phase.sendA.type ≤ nstate.type → ∃ b, s.B = some b ∧ b.session = t.id)
    (hverified : nstate = .sendCmd → VerifiedIn s.trace t) (hcommands : Authenticated s.trace) :
    Inv { s with state := nstate } := by
  have honly : ∀ t' ∈ s.ts, t' = t := fun t' ht' => some.inj (ht'.symm.trans ht)
  refine ⟨iff_of_true hup (by rw [ht]; rfl), fun hs => ?_, fun t' ht' => ?_, fun hs t' ht' => ?_,
    hcommands⟩
  · obtain ⟨b, hb, hsession⟩ := hgenerated hs
    exact ⟨t, b, ht, hb, hsession⟩
  · rw [honly t' ht']
    exact ⟨huser, hopened⟩
  · rw [honly t' ht']
    exact hverified hs

theorem openSession_cases (env : Env) (s : Server) :
    (∃ r, s.openSession env = (r, false) ∧ r.state = s.state ∧ r.trace = s.trace
        ∧ (r.ts = s.ts ∨ r.ts = none))
      ∨ ∃ r salt, s.openSession env = (r, true)
        ∧ r.ts = some ⟨s.sessions, s.username, salt⟩ ∧ r.username = s.username
        ∧ r.trace = s.trace ++ [.opened s.sessions s.username] := by
  unfold Server.openSession
  cases env.preparePassword with
  | none => exact .inl ⟨s, rfl, rfl, rfl, .inl rfl⟩
  | some entry =>
    cases env.serverOpenRaw with
    | none => exact .inl ⟨_, rfl, rfl, rfl, .inr rfl⟩
    | some salt => exact .inr ⟨_, salt, rfl, rfl, rfl, rfl⟩

theorem establishKey_cases (cfg : Config) (env : Env) (h : s.ts = some t) :
    s.establishKey cfg env = (s, false)
      ∨ ∃ crypt, s.establishKey cfg env = ({ s with crypt }.log (.keySet t.id), true) := by
  simp only [Server.establishKey, h]
  cases env.serverGetKey with
  | none => exact .inl rfl
  | some skey => exact .inr ⟨_, rfl⟩

theorem Inv.setState (h : Inv s) (hnext : Next s nstate) (cfg : Config)
    (env : Env) : Inv (s.setState cfg env nstate) := by
  cases hnext with
  | stay =>
    rw [Server.setState, if_pos rfl]
    exact h
  | back =>
    obtain ⟨hstate, hts, hcommands⟩ := setState_setUsername cfg env h.open_iff h.commands
    exact inv_of_closed hstate hts hcommands
  | user hstate =>
    have hts : s.ts = none := by
      have hopen := h.open_iff
      rw [hstate] at hopen
      exact not_isSome_iff_eq_none.1 fun h => absurd (hopen.2 h) (by decide)
    have henter : s.enter cfg env = s.openSession env := by simp only [Server.enter, hstate]
    have hlt : s.state.type < Phase.getPrime.type := by rw [hstate]; decide
    rcases openSession_cases env s with
      ⟨r, hr, hrstate, hrtrace, hrts⟩ | ⟨r, salt, hr, hrts, hruser, hrtrace⟩
    · rw [setState_refused hlt (henter.trans hr)]
      refine inv_of_closed (hrstate.trans hstate) ?_ (hrtrace ▸ h.commands)
      exact hrts.elim (·.trans hts) id
    · rw [setState_taken hlt (henter.trans hr)]
      refine inv_of_open (by decide) hrts hruser.symm ⟨s.trace, [], hrtrace, by simp⟩
        (fun hs => absurd hs (by decide)) (fun hs => absurd hs (by decide)) ?_
      rw [hrtrace]
      exact h.commands.log fun ts user h => absurd h (by simp)
  | prime hstate =>
    obtain ⟨t, ht⟩ := isSome_iff_exists.1 (h.open_iff.1 (by rw [hstate]))
    have henter : s.enter cfg env = ({ s with B := some ⟨t.id, env.serverGenExp⟩ }, true) := by
      simp only [Server.enter, hstate, Server.generateB, ht]
    rw [setState_taken (by rw [hstate]; decide) henter]
    exact inv_of_open (by decide) ht (h.user t ht).1 (h.user t ht).2 (fun _ => ⟨_, rfl, rfl⟩)
      (fun hs => absurd hs (by decide)) h.commands
  | key hstate =>
    obtain ⟨t, b, ht, hb, hsession⟩ := h.generated (by rw [hstate])
    have henter : s.enter cfg env = s.establishKey cfg env := by simp only [Server.enter, hstate]
    have hlt : s.state.type < Phase.sendAuth.type := by rw [hstate]; decide
    rcases establishKey_cases cfg env ht with hr | ⟨crypt, hr⟩
    · rw [setState_refused hlt (henter.trans hr)]
      exact h
    · have hkeyed : Inv (s.log (.keySet t.id)) := h.quietly (Quietly.log s trivial)
      rw [setState_taken hlt (henter.trans hr)]
      exact inv_of_open (by decide) ht (h.user t ht).1 (hkeyed.user t ht).2
        (fun _ => ⟨b, hb, hsession⟩) (fun hs => absurd hs (by decide)) hkeyed.commands
  | auth hstate hverified =>
    obtain ⟨t, b, ht, hb, hsession⟩ := h.generated (by rw [hstate]; decide)
    have henter : s.enter cfg env = (s, true) := by simp only [Server.enter, hstate]
    rw [setState_taken (by rw [hstate]; decide) henter]
    exact inv_of_open (by decide) ht (h.user t ht).1 (h.user t ht).2 (fun _ => ⟨b, hb, hsession⟩)
      (fun _ => hverified t ht) h.commands

/-! ## The handlers keep the invariant -/

theorem Quietly.of_trace_eq (hstate : s'.state = s.state) (husername : s'.username = s.username)
    (hts : s'.ts = s.ts) (hB : s'.B = s.B) (htrace : s'.trace = s.trace) : Quietly s s' :=
  ⟨hstate, husername, hts, hB, [], by rw [htrace, List.append_nil], by simp⟩

variable (aes : Aes) (h : Inv s)

theorem quietly_sendPacketClone (s : Server) : Quietly s s.sendPacketClone :=
  Quietly.log s trivial

theorem quietly_encryptData (s : Server) (done : UInt8) (data : List UInt8) :
    Quietly s (s.encryptData aes done data) :=
  .of_trace_eq rfl rfl rfl rfl rfl

theorem quietly_sendConsole (s : Server) (console : List (List UInt8)) :
    Quietly s (s.sendConsole aes console) := by
  induction console generalizing s with
  | nil => exact .refl s
  | cons data console ih =>
    exact ((quietly_encryptData aes s 0 data).trans (quietly_sendPacketClone _)).trans (ih _)

theorem quietly_handleSendCmd (cfg : Config) (env : Env) (msg : Bytes) (s : Server) :
    Quietly (s.log (.sendCmd s.ts s.username)) (s.handleSendCmd aes cfg env msg).1
      ∧ (s.handleSendCmd aes cfg env msg).2.2 = none := by
  have hcrypt (s : Server) (crypt : Crypt) : Quietly s { s with crypt } :=
    .of_trace_eq rfl rfl rfl rfl rfl
  have hsystem (s : Server) (crypt : Crypt) (command : List UInt8) :
      Quietly s ({ s with crypt }.log (.system command)) := (hcrypt s crypt).trans (.log _ trivial)
  have hconsole (s : Server) (crypt : Crypt) (command : List UInt8) :
      Quietly s (({ s with crypt }.log (.system command)).sendConsole aes env.console) :=
    (hsystem s crypt command).trans (quietly_sendConsole aes _ _)
  simp only [Server.handleSendCmd]
  split_ifs
  · exact ⟨hcrypt _ _, rfl⟩
  · exact ⟨hcrypt _ _, rfl⟩
  · exact ⟨hconsole _ _ _, rfl⟩
  · exact ⟨(hconsole _ _ _).trans (quietly_encryptData aes _ _ _), rfl⟩
  · exact ⟨hcrypt _ _, rfl⟩
  · exact ⟨(hsystem _ _ _).trans (quietly_encryptData aes _ _ _), rfl⟩
  · exact ⟨hcrypt _ _, rfl⟩

def Kept (s : Server) (r : Server × Bool × Option Phase) : Prop :=
  Inv r.1 ∧ (r.1.crashed = true ∨ Next r.1 (r.2.2.getD s.state))

include h

theorem Inv.kept_of_quietly {r : Server × Bool × Option Phase} (hq : Quietly s r.1)
    (hnone : r.2.2 = none) : Kept s r := by
  refine ⟨h.quietly hq, .inr ?_⟩
  rw [hnone, getD_none, ← hq.state]
  exact .stay

theorem kept_handleSetUsername (cfg : Config) (env : Env) (msg : Bytes) :
    Kept s (s.handleSetUsername cfg env msg) := by
  have hentered (user : List UInt8) : Authenticated (s.log (.setUsername user)).trace :=
    h.commands.log fun ts user h => absurd h (by simp)
  obtain ⟨hstate, hts, hcommands⟩ := setState_setUsername (s := s.log (.setUsername _)) cfg env
    h.open_iff (hentered _)
  exact ⟨inv_of_closed hstate hts hcommands, .inr (.user hstate)⟩

theorem kept_handleGetPrime (hstate : s.state = .getPrime) : Kept s s.handleGetPrime := by
  obtain ⟨t, ht⟩ := isSome_iff_exists.1 (h.open_iff.1 (by rw [hstate]))
  simp only [Server.handleGetPrime, ht]
  exact ⟨h.quietly (.of_trace_eq rfl rfl ht.symm rfl rfl), .inr (.prime hstate)⟩

theorem kept_handleSendA (hstate : s.state = .sendA) (msg : Bytes) :
    Kept s (s.handleSendA msg) := by
  obtain ⟨t, b, ht, hb, hsession⟩ := h.generated (by rw [hstate])
  simp only [Server.handleSendA]
  split_ifs
  · exact h.kept_of_quietly (.refl s) rfl
  · exact h.kept_of_quietly (.of_trace_eq rfl rfl rfl rfl rfl) rfl
  · simp only [hb]
    exact ⟨h.quietly (.of_trace_eq rfl rfl rfl hb.symm rfl), .inr (.key hstate)⟩

theorem kept_handleSendAuth (hstate : s.state = .sendAuth) (env : Env) :
    Kept s (s.handleSendAuth env) := by
  obtain ⟨t, b, ht, hb, hsession⟩ := h.generated (by rw [hstate]; decide)
  simp only [Server.handleSendAuth, ht]
  split_ifs
  · have hlog : Inv (s.log (.verified t.id)) := h.quietly (Quietly.log s trivial)
    refine ⟨hlog.quietly (.of_trace_eq rfl rfl rfl rfl rfl), .inr (.auth hstate fun t' ht' => ?_)⟩
    obtain rfl : t' = t := some.inj (ht'.symm.trans ht)
    exact (h.user t' ht).2.verify
  · exact ⟨h, .inr .back⟩

theorem kept_handleSendCmd (hstate : s.state = .sendCmd) (cfg : Config) (env : Env)
    (msg : Bytes) : Kept s (s.handleSendCmd aes cfg env msg) := by
  obtain ⟨t, b, ht, hb, hsession⟩ := h.generated (by rw [hstate]; decide)
  obtain ⟨hq, hnone⟩ := quietly_handleSendCmd aes cfg env msg s
  have hquiet : ∀ e ∈ [Event.sendCmd s.ts s.username], e.Quiet := by simp [Event.Quiet]
  have hentered : Inv (s.log (.sendCmd s.ts s.username)) := by
    refine ⟨h.open_iff, h.generated, fun t ht => ⟨(h.user t ht).1, (h.user t ht).2.append hquiet⟩,
      fun hs t ht => (h.verified hs t ht).append hquiet, h.commands.log ?_⟩
    rintro ts user ⟨⟩
    exact ⟨t, ht, (h.user t ht).1, h.verified hstate t ht⟩
  exact hentered.kept_of_quietly hq hnone

theorem kept_handle (cfg : Config) (env : Env) (msg : Bytes) {handler : Server.Handler}
    (hphase : ∀ p, handler = .on p → p ≠ .setUsername → s.state = p) :
    Kept s (s.handle aes cfg env msg handler) := by
  rcases handler with _ | phase
  · exact h.kept_of_quietly (.of_trace_eq rfl rfl rfl rfl rfl) rfl
  · cases phase with
    | setUsername => exact kept_handleSetUsername h cfg env msg
    | getPrime => exact kept_handleGetPrime h (hphase _ rfl (by decide))
    | sendA => exact kept_handleSendA h (hphase _ rfl (by decide)) msg
    | sendAuth => exact kept_handleSendAuth h (hphase _ rfl (by decide)) env
    | sendCmd => exact kept_handleSendCmd aes h (hphase _ rfl (by decide)) cfg env msg

/-! ## Any packets -/

omit h in
theorem handlerOf_eq_on {p : Phase} {type : ℤ} (h : Server.handlerOf type = some (.on p)) :
    type = p.type := by
  unfold Server.handlerOf at h
  split_ifs at h with h0 h2 h4 h6 h8 h10
  · cases h
  all_goals
    obtain rfl := Server.Handler.on.inj (some.inj h)
    assumption

omit h in
theorem Phase.type_injective {p q : Phase} (h : p.type = q.type) : p = q := by
  cases p <;> cases q <;> first | rfl | exact absurd h (by decide)

theorem Inv.parseMessage (cfg : Config) (env : Env) (msg : Bytes) (len : ℤ) :
    Inv (s.parseMessage aes cfg env msg len) := by
  simp only [Server.parseMessage]
  split_ifs with htype hinstance
  · exact h
  · exact h
  cases hhandler : Server.handlerOf (toInt (msg.load32 8)) with
  | none => exact h
  | some handler =>
    have hprepared : Inv (s.prepareReply cfg msg (toInt (msg.load32 8))) :=
      h.quietly (.of_trace_eq rfl rfl rfl rfl rfl)
    -- all types but those of pings and user names are refused in another state
    have hphase : ∀ p, handler = .on p → p ≠ .setUsername → s.state = p := by
      rintro p rfl hp
      have hcode := handlerOf_eq_on hhandler
      have hup : Phase.getPrime.type ≤ p.type := by
        cases p <;> first | exact absurd rfl hp | decide
      rw [hcode] at htype
      exact Phase.type_injective (not_not.1 fun hne => htype ⟨hup, hne⟩)
    obtain ⟨hkept, hnext⟩ := kept_handle aes hprepared cfg env msg hphase
    have hsent := quietly_sendPacketClone
      ((s.prepareReply cfg msg (toInt (msg.load32 8))).handle aes cfg env msg handler).1
    dsimp only
    split_ifs with hlen hcrashed hreply
    · exact h
    · exact hkept
    · exact (hkept.quietly hsent).setState ((hnext.resolve_left hcrashed).quietly hsent) cfg env
    · exact hkept.setState (hnext.resolve_left hcrashed) cfg env

theorem Inv.handlePacket (cfg : Config) (packet : Env × UInt32 × Bytes) :
    Inv (s.handlePacket aes cfg packet) := by
  obtain ⟨env, len, pkt⟩ := packet
  simp only [Server.handlePacket]
  split_ifs
  all_goals first | exact h | exact h.parseMessage aes cfg env _ _

theorem Inv.run (cfg : Config) (packets : List (Env × UInt32 × Bytes)) :
    Inv (s.run aes cfg packets) := by
  induction packets generalizing s with
  | nil => exact h
  | cons packet packets ih => exact ih (h.handlePacket aes cfg packet)

omit h

/-- **Only authenticated commands run.** After any packets, `handle_send_cmd`
has only been entered with an open session of the user of then that
`t_serververify` had accepted, and no user had been named since; a session is
open exactly from `GET_PRIME` on, and `B` is of this session from `SEND_A`
on. -/
theorem only_authenticated_commands (cfg : Config) (crypt : Crypt) (pktbuf : Bytes)
    (packets : List (Env × UInt32 × Bytes)) :
    let s := (Server.init crypt pktbuf).run aes cfg packets
    Authenticated s.trace
      ∧ (Phase.getPrime.type ≤ s.state.type ↔ s.ts ≠ none)
      ∧ (Phase.sendA.type ≤ s.state.type →
        ∃ t b, s.ts = some t ∧ s.B = some b ∧ b.session = t.id) := by
  have hinit : Inv (Server.init crypt pktbuf) :=
    inv_of_closed rfl rfl fun before ts user since h => absurd h (by simp [Server.init])
  have h := hinit.run aes cfg packets
  exact ⟨h.commands, h.open_iff.trans Option.isSome_iff_ne_none, h.generated⟩

end Ead
