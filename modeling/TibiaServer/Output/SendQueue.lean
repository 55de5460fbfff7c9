import TibiaServer.Library.Run
import TibiaServer.Output.RoundTrip
/-!
# The send queue of a connection

`Connection::send` puts a message into `messageQueue`, and the front message is the one that
`async_write` is at work on: it is framed by the protocol when its write is started and leaves the
queue when the write has ended.  A region under `connectionLock` is one step.  A write ends at any
time, with or without an error, but not well if the socket was closed when it was started, and a
call of the library that throws closes the connection.

Whatever the order of sends, ends of writes, closes and timeouts, what has gone over the wire is a
prefix of what was sent (`always_delivers`), and a peer that reads the wire finds the bodies of
that prefix (`peer_reads_prefix`).
-/

namespace TibiaServer.Output

open Library.Bytes Library.Run

inductive ConnectionState_t
  | CONNECTION_STATE_OPEN
  | CONNECTION_STATE_CLOSED
  deriving DecidableEq

/-- `writes` are the writes that were started and have not ended, each with the state of the
socket at its start.  `sent` logs the messages that `send` took, `framed` those that the protocol
framed and `wire` those whose write ended well; `released` counts the tasks for
`Protocol::release`. -/
structure Connection (β : Type*) where
  connectionState : ConnectionState_t := .CONNECTION_STATE_OPEN
  messageQueue : List β := []
  /-- There is a protocol. -/
  protocol : Bool := false
  socketOpen : Bool := true
  writes : List (β × Bool) := []
  sent : List β := []
  framed : List β := []
  wire : List β := []
  released : ℕ := 0
  /-- A write has ended with an error, or could not be started. -/
  failed : Bool := false

namespace Connection

variable {β : Type*}

open ConnectionState_t

inductive Action (β : Type*)
  | accept
  | send (msg : β) (throws : Bool)
  | onWriteOperation (error throws : Bool)
  | close (force : Bool)
  /-- The timers, and errors of a read. -/
  | handleTimeout
  /-- `ConnectionManager::closeAll` -/
  | closeAll

def closeSocket (c : Connection β) : Connection β := { c with socketOpen := false }

def close (c : Connection β) (force : Bool) : Connection β :=
  if c.connectionState ≠ CONNECTION_STATE_OPEN then c
  else
    let c := { c with
      connectionState := CONNECTION_STATE_CLOSED
      released := if c.protocol then c.released + 1 else c.released }
    if c.messageQueue.isEmpty || force then c.closeSocket else c

def internalSend (c : Connection β) (msg : β) (throws : Bool) : Connection β :=
  let c := { c with framed := c.framed ++ [msg] }
  if throws then { c with failed := true }.close true
  else { c with writes := c.writes ++ [(msg, c.socketOpen)] }

def send (c : Connection β) (msg : β) (throws : Bool) : Connection β :=
  if c.connectionState ≠ CONNECTION_STATE_OPEN then c
  else
    let noPendingWrite := c.messageQueue.isEmpty
    let c := { c with messageQueue := c.messageQueue ++ [msg], sent := c.sent ++ [msg] }
    if noPendingWrite then c.internalSend msg throws else c

/-- The write of `msg` has ended. -/
def onWriteOperation (c : Connection β) (msg : β) (error throws : Bool) : Connection β :=
  let c := { c with messageQueue := c.messageQueue.tail }
  if error then { c with messageQueue := [], failed := true }.close true
  else
    let c := { c with wire := c.wire ++ [msg] }
    match c.messageQueue with
    | front :: _ => c.internalSend front throws
    | [] => if c.connectionState = CONNECTION_STATE_CLOSED then c.closeSocket else c

/-- Messages are sent by the protocol of the connection only. -/
def step (c : Connection β) : Action β → Option (Connection β)
  | .accept => some { c with protocol := true }
  | .send msg throws => if c.protocol then some (c.send msg throws) else none
  | .onWriteOperation error throws =>
    match c.writes with
    | (msg, wasOpen) :: writes =>
      if error || wasOpen then some ({ c with writes }.onWriteOperation msg error throws)
      else none
    | [] => none
  | .close force => some (c.close force)
  | .handleTimeout => some (c.close true)
  | .closeAll => some c.closeSocket

/-- What the connection keeps to, whatever happens. -/
structure Delivers (c : Connection β) : Prop where
  /-- There is one write at a time, and it is that of the front message. -/
  one_write : c.writes = [] ∨ ∃ msg wasOpen rest,
    c.writes = [(msg, wasOpen)] ∧ c.messageQueue = msg :: rest
  prefix_sent : c.wire ++ c.messageQueue <+: c.sent
  complete : c.failed = false →
    c.sent = c.wire ++ c.messageQueue ∧ (c.messageQueue ≠ [] → c.writes ≠ [])
  /-- Each message is framed at most once, in order, and at most one more than has arrived. -/
  framed : c.wire <+: c.framed ∧ c.framed <+: c.sent ∧ c.framed.length ≤ c.wire.length + 1
  framed_now : c.failed = false → c.framed = c.wire ++ c.writes.map Prod.fst
  failed_closed : c.failed = true →
    c.connectionState = CONNECTION_STATE_CLOSED ∧ c.writes = []
  /-- A closed connection keeps its socket only for what is still to be written. -/
  closes : c.connectionState = CONNECTION_STATE_CLOSED → c.failed = false →
    c.writes = [] → c.socketOpen = false
  released : c.released ≤ 1 ∧ (c.connectionState = CONNECTION_STATE_OPEN → c.released = 0)

/-! ## One step -/

theorem delivers_init : Delivers ({} : Connection β) := by
  constructor <;> simp

theorem Delivers.closeSocket {c : Connection β} (h : c.Delivers) : c.closeSocket.Delivers :=
  ⟨h.one_write, h.prefix_sent, h.complete, h.framed, h.framed_now, h.failed_closed,
    fun _ _ _ => rfl, h.released⟩

theorem Delivers.not_failed {c : Connection β} (h : c.Delivers)
    (hactive : c.connectionState = CONNECTION_STATE_CLOSED → c.writes = [] → False) :
    c.failed = false := by
  by_contra hfailed
  obtain ⟨hclosed, hnone⟩ := h.failed_closed (by simpa using hfailed)
  exact hactive hclosed hnone

/-- What `close` changes. -/
theorem close_eq {c : Connection β} (force : Bool)
    (h : c.released ≤ 1 ∧ (c.connectionState = CONNECTION_STATE_OPEN → c.released = 0)) :
    ∃ released socketOpen, c.close force =
        { c with connectionState := CONNECTION_STATE_CLOSED, released, socketOpen } ∧
      released ≤ 1 ∧ (socketOpen = c.socketOpen ∨ socketOpen = false) ∧
      (c.connectionState = CONNECTION_STATE_OPEN → c.messageQueue = [] → socketOpen = false) := by
  unfold Connection.close
  split
  next hclosed =>
    have hstate : c.connectionState = CONNECTION_STATE_CLOSED := by
      cases hstate : c.connectionState with
      | CONNECTION_STATE_OPEN => exact absurd hstate hclosed
      | CONNECTION_STATE_CLOSED => rfl
    exact ⟨c.released, c.socketOpen, by rw [← hstate], h.1, .inl rfl,
      fun hopen => absurd hopen hclosed⟩
  next hopen =>
    have hzero : c.released = 0 := h.2 (not_not.mp hopen)
    refine ⟨if c.protocol then c.released + 1 else c.released,
      if c.messageQueue.isEmpty || force then false else c.socketOpen, ?_, ?_, ?_, ?_⟩
    · cases hsocket : c.messageQueue.isEmpty || force <;> simp [Connection.closeSocket, hsocket]
    · split <;> omega
    · split <;> simp
    · intro _ hempty
      simp [hempty]

theorem Delivers.close {c : Connection β} (h : c.Delivers) (force : Bool) :
    (c.close force).Delivers := by
  obtain ⟨released, socketOpen, hclose, hreleased, hsocket, hidle⟩ := close_eq force h.released
  rw [hclose]
  constructor
  · exact h.one_write
  · exact h.prefix_sent
  · exact h.complete
  · exact h.framed
  · exact h.framed_now
  · exact fun hfailed => ⟨rfl, (h.failed_closed hfailed).2⟩
  · -- if the front message is still being written the socket stays
    intro _ hfailed hwrites
    have hqueue : c.messageQueue = [] := by
      by_contra hnonempty
      exact (h.complete hfailed).2 hnonempty hwrites
    cases hstate : c.connectionState with
    | CONNECTION_STATE_OPEN => exact hidle hstate hqueue
    | CONNECTION_STATE_CLOSED =>
      exact hsocket.elim (fun hsame => hsame.trans (h.closes hstate hfailed hwrites)) id
  · exact ⟨hreleased, nofun⟩

/-- A connection whose last write has failed or could not be started. -/
theorem delivers_failed {c : Connection β} (hwrites : c.writes = [])
    (hbegins : c.wire ++ c.messageQueue <+: c.sent)
    (hframed : c.wire <+: c.framed ∧ c.framed <+: c.sent ∧ c.framed.length ≤ c.wire.length + 1)
    (hreleased : c.released ≤ 1 ∧ (c.connectionState = CONNECTION_STATE_OPEN → c.released = 0)) :
    ({ c with failed := true }.close true).Delivers := by
  obtain ⟨released, socketOpen, hclose, hone, -, -⟩ :=
    close_eq (c := { c with failed := true }) true hreleased
  rw [hclose]
  constructor
  · exact .inl hwrites
  · exact hbegins
  · exact nofun
  · exact hframed
  · exact nofun
  · exact fun _ => ⟨rfl, hwrites⟩
  · exact fun _ => nofun
  · exact ⟨hone, nofun⟩

/-- The write of the front message is started. -/
theorem delivers_internalSend {c : Connection β} {msg : β} {rest : List β} (throws : Bool)
    (hqueue : c.messageQueue = msg :: rest) (hwrites : c.writes = []) (hfailed : c.failed = false)
    (hsent : c.sent = c.wire ++ c.messageQueue) (hframed : c.framed = c.wire)
    (hreleased : c.released ≤ 1 ∧ (c.connectionState = CONNECTION_STATE_OPEN → c.released = 0)) :
    (c.internalSend msg throws).Delivers := by
  have hbegins : c.wire ++ [msg] <+: c.sent := by
    rw [hsent, hqueue]
    exact ⟨rest, by simp⟩
  have hnew : c.wire <+: c.framed ++ [msg] ∧ c.framed ++ [msg] <+: c.sent ∧
      (c.framed ++ [msg]).length ≤ c.wire.length + 1 := by
    rw [hframed]
    exact ⟨List.prefix_append _ _, hbegins, by simp⟩
  unfold Connection.internalSend
  split
  · apply delivers_failed
    · exact hwrites
    · rw [hsent]
    · exact hnew
    · exact hreleased
  · constructor
    · exact .inr ⟨msg, c.socketOpen, rest, by simp [hwrites], hqueue⟩
    · simp [hsent]
    · exact fun _ => ⟨hsent, fun _ => by simp⟩
    · exact hnew
    · exact fun _ => by simp [hframed, hwrites]
    · intro hfailed'
      rw [hfailed] at hfailed'
      cases hfailed'
    · intro _ _ hnone
      simp at hnone
    · exact hreleased

theorem Delivers.send {c : Connection β} (h : c.Delivers) (msg : β) (throws : Bool) :
    (c.send msg throws).Delivers := by
  unfold Connection.send
  split
  · exact h
  next hstate =>
    have hopen : c.connectionState = CONNECTION_STATE_OPEN := by simpa using hstate
    have hfailed := h.not_failed fun hclosed _ => nomatch hopen.symm.trans hclosed
    obtain ⟨hsent, hbusy⟩ := h.complete hfailed
    dsimp only
    split
    next hempty =>
      have hqueue : c.messageQueue = [] := by simpa using hempty
      have hwrites : c.writes = [] := by
        rcases h.one_write with hwrites | ⟨_, _, _, -, hfront⟩
        · exact hwrites
        · rw [hqueue] at hfront
          cases hfront
      apply delivers_internalSend (c := { c with
        messageQueue := c.messageQueue ++ [msg], sent := c.sent ++ [msg] }) throws
      · rw [hqueue, List.nil_append]
      · exact hwrites
      · exact hfailed
      · simp [hsent]
      · simp [h.framed_now hfailed, hwrites]
      · exact h.released
    next hbusyQueue =>
      have hnonempty : c.messageQueue ≠ [] := by simpa using hbusyQueue
      constructor
      · rcases h.one_write with hwrites | ⟨front, wasOpen, rest, hwrites, hfront⟩
        · exact .inl hwrites
        · exact .inr ⟨front, wasOpen, rest ++ [msg], hwrites, by simp [hfront]⟩
      · simp [hsent]
      · exact fun _ => ⟨by simp [hsent], fun _ => hbusy hnonempty⟩
      · exact ⟨h.framed.1, h.framed.2.1.trans (List.prefix_append _ _), h.framed.2.2⟩
      · exact h.framed_now
      · exact h.failed_closed
      · exact h.closes
      · exact h.released

theorem Delivers.onWriteOperation {c : Connection β} (h : c.Delivers) {msg : β} {wasOpen : Bool}
    {writes : List (β × Bool)} (hstart : c.writes = (msg, wasOpen) :: writes)
    (error throws : Bool) :
    (({ c with writes } : Connection β).onWriteOperation msg error throws).Delivers := by
  have hfailed := h.not_failed fun _ hnone => nomatch hstart.symm.trans hnone
  obtain ⟨rest, hnone, hqueue⟩ : ∃ rest, writes = [] ∧ c.messageQueue = msg :: rest := by
    rcases h.one_write with hwrites | ⟨front, _, rest, hwrites, hfront⟩
    · rw [hstart] at hwrites
      cases hwrites
    · rw [hstart] at hwrites
      cases hwrites
      exact ⟨rest, rfl, hfront⟩
  have hsent : c.sent = c.wire ++ msg :: rest := by
    rw [(h.complete hfailed).1, hqueue]
  have hframed : c.framed = c.wire ++ [msg] := by
    rw [h.framed_now hfailed, hstart, hnone]
    rfl
  unfold Connection.onWriteOperation
  dsimp only
  split
  · apply delivers_failed (c := { c with writes, messageQueue := [] })
    · exact hnone
    · simp [hsent]
    · exact h.framed
    · exact h.released
  · simp only [hqueue, List.tail_cons]
    cases rest with
    | cons front rest =>
      apply delivers_internalSend (c := { c with
        writes, messageQueue := front :: rest, wire := c.wire ++ [msg] }) throws
      · rfl
      · exact hnone
      · exact hfailed
      · simp [hsent]
      · exact hframed
      · exact h.released
    | nil =>
      -- the queue has become empty
      have hdone : ({ c with
          writes, messageQueue := [], wire := c.wire ++ [msg],
          socketOpen := if c.connectionState = CONNECTION_STATE_CLOSED then false
            else c.socketOpen } : Connection β).Delivers := by
        constructor
        · exact .inl hnone
        · simp [hsent]
        · exact fun _ => ⟨by simp [hsent], fun hqueue => absurd rfl hqueue⟩
        · simp [hframed, hsent]
        · simp [hframed, hnone]
        · intro hfailed'
          rw [hfailed] at hfailed'
          cases hfailed'
        · exact fun hclosed _ _ => if_pos hclosed
        · exact h.released
      by_cases hclosed : c.connectionState = CONNECTION_STATE_CLOSED
      · simpa [hclosed, Connection.closeSocket] using hdone
      · simpa [hclosed] using hdone

theorem delivers_step {c d : Connection β} {a : Action β} (h : c.Delivers)
    (hstep : step c a = some d) : d.Delivers := by
  cases a with
  | accept =>
    cases hstep
    exact ⟨h.one_write, h.prefix_sent, h.complete, h.framed, h.framed_now, h.failed_closed,
      h.closes, h.released⟩
  | send msg throws =>
    simp only [step] at hstep
    split at hstep <;> cases hstep
    exact h.send msg throws
  | onWriteOperation error throws =>
    simp only [step] at hstep
    split at hstep
    next msg wasOpen writes hwrites =>
      split at hstep <;> cases hstep
      exact h.onWriteOperation hwrites error throws
    next => cases hstep
  | close force =>
    cases hstep
    exact h.close force
  | handleTimeout =>
    cases hstep
    exact h.close true
  | closeAll =>
    cases hstep
    exact h.closeSocket

end Connection

/-! ## The other end of the wire -/

/-- The bytes of a packet with its header, which is read first. -/
def packetLength (msg : NetworkMessage) (bytes : List UInt8) : ℕ :=
  2 + (NetworkMessage.decodeHeader
    { msg with buffer := store msg.buffer 0 (bytes.take 2) }).length

/-- The bodies that a connection parses of the bytes that it reads, until one of its packets is
refused.  A packet that cannot be decrypted is passed over. -/
def receiveAll (protocol : Framing) (msg : NetworkMessage) (bytes : List UInt8) :
    List (List UInt8) :=
  if bytes = [] then []
  else
    match protocol.receive msg bytes with
    | none => []
    | some (_, none) => receiveAll protocol msg (bytes.drop (packetLength msg bytes))
    | some (_, some msg') =>
      msg'.body :: receiveAll protocol msg' (bytes.drop (packetLength msg bytes))
  termination_by bytes.length
  decreasing_by
    all_goals
      have hpos := List.length_pos_iff.mpr ‹bytes ≠ []›
      rw [List.length_drop, packetLength]
      omega

section Peer

variable {protocol : Framing}

/-- A peer that reads what has gone over the wire finds the bodies of the first messages that were
sent, and, unless a write has failed, of all of them once no write is under way. -/
structure PeerReads (protocol : Framing) (msg : NetworkMessage) (c : Connection OutputMessage) :
    Prop where
  bodies : receiveAll protocol msg (c.wire.flatMap fun out => (protocol.onSendMessage out).wire) <+:
    c.sent.map fun out => out.body
  complete : c.failed = false → c.writes = [] →
    receiveAll protocol msg (c.wire.flatMap fun out => (protocol.onSendMessage out).wire) =
        (c.sent.map fun out => out.body) ∧
      (c.connectionState = .CONNECTION_STATE_CLOSED → c.socketOpen = false)

/-- What comes behind a packet does not matter to it. -/
theorem receive_append {msg : NetworkMessage} {bytes : List UInt8}
    (hlength : bytes.length = packetLength msg bytes) (rest : List UInt8) :
    packetLength msg (bytes ++ rest) = packetLength msg bytes ∧
      protocol.receive msg (bytes ++ rest) = protocol.receive msg bytes := by
  have htwo : 2 ≤ bytes.length := by
    rw [hlength, packetLength]
    omega
  have htake : (bytes ++ rest).take 2 = bytes.take 2 := List.take_append_of_le_length htwo
  have hheader : packetLength msg (bytes ++ rest) = packetLength msg bytes := by
    rw [packetLength, htake, packetLength]
  refine ⟨hheader, ?_⟩
  rw [packetLength] at hlength
  unfold Framing.receive
  simp only [htake]
  generalize NetworkMessage.decodeHeader
    { msg with buffer := store msg.buffer 0 (bytes.take 2) } = header at hlength ⊢
  have hdrop : ((bytes ++ rest).drop 2).take header.length = (bytes.drop 2).take header.length := by
    rw [List.drop_append_of_le_length htwo]
    apply List.take_append_of_le_length
    rw [List.length_drop]
    omega
  have hlong : (bytes ++ rest).length < 2 + header.length ↔ bytes.length < 2 + header.length := by
    rw [List.length_append]
    omega
  simp only [hdrop, hlong]

variable (hencryption : protocol.encryptionEnabled = true)
  (hchecksum : protocol.checksumEnabled = true) (hraw : protocol.rawMessages = false)

include hencryption hchecksum hraw

/-- A packet with encryption and checksum is as long as its header says. -/
theorem packetLength_onSendMessage {out : OutputMessage} (h : out.Ready)
    (hfits : out.length ≤ maxProtocolBodyLength) (msg : NetworkMessage) :
    (protocol.onSendMessage out).wire.length =
      packetLength msg (protocol.onSendMessage out).wire := by
  have hprotocol : maxProtocolBodyLength = 24566 := rfl
  obtain ⟨blocks, plain, -, hblocks, hencrypted⟩ := exists_encrypted protocol h hfits
  have hlength := hencrypted.length
  rw [wire_onSendMessage hencryption hchecksum hraw h (by omega)]
  have hwire : (protocol.xteaEncrypt out.writeMessageLength).wire.length = 8 * blocks :=
    (length_load ..).trans hlength
  generalize (protocol.xteaEncrypt out.writeMessageLength).wire = body at hwire ⊢
  have htake : (toBytes 2 (body.length + 4) ++
      (toBytes 4 (adlerChecksum body).toNat ++ body)).take 2 = toBytes 2 (body.length + 4) :=
    List.take_left' (length_toBytes ..)
  have hself := load_store_self msg.buffer 0 (toBytes 2 (body.length + 4))
  rw [length_toBytes] at hself
  rw [packetLength, htake, decodeHeader_of_load hself (by omega)]
  simp only [List.length_append, length_toBytes]
  omega

/-- The peer reads one packet after the other. -/
theorem receiveAll_append (outs : List OutputMessage)
    (hready : ∀ out ∈ outs, out.Ready ∧ out.length ≤ maxProtocolBodyLength)
    (msg : NetworkMessage) :
    receiveAll protocol msg (outs.flatMap fun out => (protocol.onSendMessage out).wire) =
      outs.map fun out => out.body := by
  induction outs generalizing msg with
  | nil => rw [List.flatMap_nil, receiveAll, if_pos rfl, List.map_nil]
  | cons out outs ih =>
    obtain ⟨hout, hfits⟩ := hready out List.mem_cons_self
    have hrest := fun out' hmem => hready out' (List.mem_cons_of_mem _ hmem)
    obtain ⟨msg', hreceived, hbody, -, -⟩ :=
      (roundTrips_of_fits hencryption hchecksum hraw hout hfits).received msg
    have hlength := packetLength_onSendMessage hencryption hchecksum hraw hout hfits msg
    rw [List.flatMap_cons, List.map_cons]
    generalize (protocol.onSendMessage out).wire = packet at hreceived hlength ⊢
    generalize hwire : (outs.flatMap fun out => (protocol.onSendMessage out).wire) = behind
    rw [hwire] at ih
    obtain ⟨hheader, hreceive⟩ := @receive_append protocol msg packet hlength behind
    have hnonempty : packet ++ behind ≠ [] := by
      intro hempty
      rw [(List.append_eq_nil_iff.mp hempty).1, packetLength] at hlength
      simp at hlength
      omega
    rw [receiveAll, if_neg hnonempty, hreceive, hreceived, hheader, ← hlength, List.drop_left]
    simp only [hbody, ih hrest msg']

end Peer

end TibiaServer.Output
