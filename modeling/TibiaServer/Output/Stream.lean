import TibiaServer.Library.Run
import TibiaServer.Output.NetworkMessage
/-!
# The output stream of a game connection

`ProtocolGame::writeToOutputBuffer` collects messages in the output buffer of
its protocol and `OutputMessagePool::sendAll` hands the buffers of all
registered protocols to `Protocol::send`.  The client must see the messages in
the order in which they were written.

Two things break the order.  `Protocol::getOutputBuffer` replaces a buffer that
is too full without sending it, and the write of a live caster that is not
broadcast is sent at once, ahead of what is still buffered.  The main result,
`always_inOrder_iff`, says that nothing else does.
-/

namespace TibiaServer.Output

open TibiaServer.Library.Run

/-- The part of a `Protocol` that the output path uses.  `sent` logs the bodies
passed to `Protocol::send` and `written` the bodies passed to
`writeToOutputBuffer`; the server itself keeps neither. -/
structure Protocol where
  outputBuffer : Option OutputMessage := none
  sent : List (List UInt8) := []
  written : List (List UInt8) := []

namespace Protocol

/-- The body that waits in the output buffer. -/
def buffered (pr : Protocol) : List UInt8 :=
  match pr.outputBuffer with
  | none => []
  | some out => out.body

def send (pr : Protocol) (msg : OutputMessage) : Protocol :=
  { pr with sent := pr.sent ++ [msg.body] }

/-- `Protocol::getOutputBuffer`: the current buffer while `size` more bytes fit,
a new one otherwise.  The old buffer is given up unsent. -/
def getOutputBuffer (pr : Protocol) (size : Nat) : Protocol × OutputMessage :=
  match pr.outputBuffer with
  | some out =>
    if out.length + size ≤ maxProtocolBodyLength then (pr, out)
    else ({ pr with outputBuffer := some {} }, {})
  | none => ({ pr with outputBuffer := some {} }, {})

/-- `ProtocolGame::writeToOutputBuffer`. -/
def writeToOutputBuffer (pr : Protocol) (msg : NetworkMessage)
    (broadcast isLiveCaster : Bool) : Protocol :=
  if !broadcast && isLiveCaster then
    pr.send (({} : OutputMessage).append msg)
  else
    let (pr, out) := pr.getOutputBuffer msg.length
    let out := if isLiveCaster then out.setBroadcastMsg true else out
    { pr with outputBuffer := some (out.append msg) }

/-- What `OutputMessagePool::sendAll` does with one registered protocol. -/
def flush (pr : Protocol) : Protocol :=
  match pr.outputBuffer with
  | some msg => { pr.send msg with outputBuffer := none }
  | none => pr

/-- The bodies sent, followed by the body still buffered, are the messages
written, in the order of the writes. -/
def InOrder (pr : Protocol) : Prop :=
  pr.sent.flatten ++ pr.buffered = pr.written.flatten

def WellFormed (pr : Protocol) : Prop :=
  ∀ out, pr.outputBuffer = some out → out.WellFormed

/-- A write neither drops nor overtakes buffered bytes. -/
def WriteKeepsOrder (pr : Protocol) (msg : NetworkMessage)
    (broadcast isLiveCaster : Bool) : Prop :=
  if !broadcast && isLiveCaster then
    msg.body ++ pr.buffered = pr.buffered ++ msg.body
  else
    pr.buffered = [] ∨ pr.buffered.length + msg.length ≤ maxProtocolBodyLength

theorem body_append_empty {msg : NetworkMessage} (hmsg : msg.Fits) :
    (({} : OutputMessage).append msg).body = msg.body := by
  rw [OutputMessage.body_append OutputMessage.wellFormed_empty]
  · simp
  · simpa [OutputMessage.HasRoom, NetworkMessage.Fits] using hmsg

/-- What a write does to the buffer and to the log, by cases on the path taken:
sent at once, appended to the current buffer, or put into a new buffer. -/
theorem writeToOutputBuffer_cases {pr : Protocol} {msg : NetworkMessage}
    (hpr : pr.WellFormed) (hmsg : msg.Fits) (broadcast isLiveCaster : Bool) :
    let pr' := pr.writeToOutputBuffer msg broadcast isLiveCaster
    pr'.WellFormed ∧ pr'.written = pr.written ∧
      if !broadcast && isLiveCaster then
        pr'.sent = pr.sent ++ [msg.body] ∧ pr'.buffered = pr.buffered
      else
        pr'.sent = pr.sent ∧
          pr'.buffered =
            if pr.buffered.length + msg.length ≤ maxProtocolBodyLength then
              pr.buffered ++ msg.body
            else msg.body := by
  intro pr'
  by_cases hbypass : (!broadcast && isLiveCaster) = true
  · have hpr' : pr' = pr.send (({} : OutputMessage).append msg) := if_pos hbypass
    rw [if_pos hbypass, hpr']
    refine ⟨hpr, rfl, ?_, rfl⟩
    simp [send, body_append_empty hmsg]
  · rw [if_neg hbypass]
    -- the buffer that receives the message, and what it already holds
    have hnew : ∀ out : OutputMessage, out.WellFormed → out.HasRoom msg →
        pr' = { pr with
          outputBuffer := some
            ((if isLiveCaster then out.setBroadcastMsg true else out).append msg) } →
        pr'.WellFormed ∧ pr'.buffered = out.body ++ msg.body := by
      intro out hout hroom hpr'
      have hout' : (if isLiveCaster then out.setBroadcastMsg true else out).WellFormed := by
        cases isLiveCaster
        · exact hout
        · exact hout.setBroadcastMsg true
      have hroom' : OutputMessage.HasRoom
          (if isLiveCaster then out.setBroadcastMsg true else out) msg := by
        cases isLiveCaster <;> exact hroom
      rw [hpr']
      constructor
      · rintro o ⟨⟩
        exact hout'.append hroom'
      · simp only [buffered]
        rw [OutputMessage.body_append hout' hroom']
        cases isLiveCaster <;> rfl
    have hempty : OutputMessage.HasRoom {} msg := by
      simpa [OutputMessage.HasRoom, NetworkMessage.Fits] using hmsg
    cases hbuf : pr.outputBuffer with
    | none =>
      have hb : pr.buffered = [] := by simp [buffered, hbuf]
      obtain ⟨hwf, hbody⟩ := hnew {} OutputMessage.wellFormed_empty hempty (by
        simp [pr', writeToOutputBuffer, getOutputBuffer, hbypass, hbuf])
      refine ⟨hwf, ?_, ?_, ?_⟩
      · simp [pr', writeToOutputBuffer, getOutputBuffer, hbypass, hbuf]
      · simp [pr', writeToOutputBuffer, getOutputBuffer, hbypass, hbuf]
      · rw [hbody, hb]
        simp
    | some out =>
      have hb : pr.buffered = out.body := by simp [buffered, hbuf]
      by_cases hfit : out.length + msg.length ≤ maxProtocolBodyLength
      · have hroom : out.HasRoom msg := by
          simp only [OutputMessage.HasRoom, initialBufferPosition, networkMessageMaxSize]
          simp only [maxProtocolBodyLength, maxBodyLength, networkMessageMaxSize] at hfit
          omega
        obtain ⟨hwf, hbody⟩ := hnew out (hpr out hbuf) hroom (by
          simp [pr', writeToOutputBuffer, getOutputBuffer, hbypass, hbuf, hfit])
        refine ⟨hwf, ?_, ?_, ?_⟩
        · simp [pr', writeToOutputBuffer, getOutputBuffer, hbypass, hbuf, hfit]
        · simp [pr', writeToOutputBuffer, getOutputBuffer, hbypass, hbuf, hfit]
        · rw [hbody, hb, NetworkMessage.length_body, if_pos hfit]
      · obtain ⟨hwf, hbody⟩ := hnew {} OutputMessage.wellFormed_empty hempty (by
          simp [pr', writeToOutputBuffer, getOutputBuffer, hbypass, hbuf, hfit])
        refine ⟨hwf, ?_, ?_, ?_⟩
        · simp [pr', writeToOutputBuffer, getOutputBuffer, hbypass, hbuf, hfit]
        · simp [pr', writeToOutputBuffer, getOutputBuffer, hbypass, hbuf, hfit]
        · rw [hbody, hb, NetworkMessage.length_body, if_neg hfit]
          rfl

theorem wellFormed_flush {pr : Protocol} (hpr : pr.WellFormed) : pr.flush.WellFormed := by
  cases hbuf : pr.outputBuffer with
  | none => simpa [flush, hbuf] using hpr
  | some out => simp [flush, hbuf, WellFormed]

/-- Handing over the buffer moves its body from the buffered to the sent part. -/
theorem inOrder_flush (pr : Protocol) : pr.flush.InOrder ↔ pr.InOrder := by
  cases hbuf : pr.outputBuffer with
  | none => simp [flush, hbuf]
  | some out => simp [InOrder, flush, send, buffered, hbuf]

/-- The log entry that belongs to a write. -/
def log (pr : Protocol) (msg : NetworkMessage) : Protocol :=
  { pr with written := pr.written ++ [msg.body] }

/-- From a stream in order, a write leads to a stream in order exactly when it
neither drops nor overtakes buffered bytes. -/
theorem inOrder_write_iff {pr : Protocol} {msg : NetworkMessage}
    (hpr : pr.WellFormed) (hmsg : msg.Fits) (broadcast isLiveCaster : Bool)
    (horder : pr.InOrder) :
    ((pr.writeToOutputBuffer msg broadcast isLiveCaster).log msg).InOrder ↔
      pr.WriteKeepsOrder msg broadcast isLiveCaster := by
  obtain ⟨-, hwritten, hpath⟩ := writeToOutputBuffer_cases hpr hmsg broadcast isLiveCaster
  have hlog : ((pr.writeToOutputBuffer msg broadcast isLiveCaster).log msg).InOrder ↔
      (pr.writeToOutputBuffer msg broadcast isLiveCaster).sent.flatten ++
          (pr.writeToOutputBuffer msg broadcast isLiveCaster).buffered =
        pr.sent.flatten ++ (pr.buffered ++ msg.body) := by
    rw [InOrder] at horder
    rw [InOrder, log, hwritten, List.flatten_append, ← horder]
    simp [buffered]
  rw [hlog, WriteKeepsOrder]
  split at hpath
  · rename_i hbypass
    obtain ⟨hsent, hbuffered⟩ := hpath
    rw [if_pos hbypass, hsent, hbuffered, List.flatten_append, List.append_assoc]
    simp
  · rename_i hbuffer
    obtain ⟨hsent, hbuffered⟩ := hpath
    rw [if_neg hbuffer, hsent, hbuffered, List.append_cancel_left_eq]
    split
    · rename_i hfit
      exact iff_of_true rfl (Or.inr hfit)
    · rename_i hfull
      rw [or_iff_left hfull, List.self_eq_append_left]

end Protocol

/-- `OutputMessagePool` with the protocols it can reach, named by `ι`. -/
structure OutputMessagePool (ι : Type) where
  protocols : ι → Protocol := fun _ => {}
  bufferedProtocols : List ι := []

/-- The calls of the dispatcher thread that touch the output path. -/
inductive Action (ι : Type)
  | writeToOutputBuffer (p : ι) (msg : NetworkMessage) (fits : msg.Fits)
      (broadcast isLiveCaster : Bool)
  | sendAll
  | addProtocolToAutosend (p : ι)
  | removeProtocolFromAutosend (p : ι)

namespace OutputMessagePool

variable {ι : Type} [DecidableEq ι]

def update (pool : OutputMessagePool ι) (p : ι) (f : Protocol → Protocol) :
    OutputMessagePool ι :=
  { pool with protocols := Function.update pool.protocols p (f (pool.protocols p)) }

def sendAll (pool : OutputMessagePool ι) : OutputMessagePool ι :=
  pool.bufferedProtocols.foldl (fun pool p => pool.update p Protocol.flush) pool

def addProtocolToAutosend (pool : OutputMessagePool ι) (p : ι) : OutputMessagePool ι :=
  { pool with bufferedProtocols := pool.bufferedProtocols ++ [p] }

/-- The first entry of `p` is swapped with the last entry and dropped. -/
def removeProtocolFromAutosend (pool : OutputMessagePool ι) (p : ι) : OutputMessagePool ι :=
  match pool.bufferedProtocols.getLast? with
  | some last =>
    if p ∈ pool.bufferedProtocols then
      { pool with
        bufferedProtocols :=
          (pool.bufferedProtocols.set (pool.bufferedProtocols.idxOf p) last).dropLast }
    else pool
  | none => pool

/-- Every action is enabled in every state. -/
def step (pool : OutputMessagePool ι) : Action ι → Option (OutputMessagePool ι)
  | .writeToOutputBuffer p msg _ broadcast isLiveCaster =>
    some (pool.update p fun pr =>
      (pr.writeToOutputBuffer msg broadcast isLiveCaster).log msg)
  | .sendAll => some pool.sendAll
  | .addProtocolToAutosend p => some (pool.addProtocolToAutosend p)
  | .removeProtocolFromAutosend p => some (pool.removeProtocolFromAutosend p)

@[simp] theorem update_same (pool : OutputMessagePool ι) (p : ι) (f : Protocol → Protocol) :
    (pool.update p f).protocols p = f (pool.protocols p) := by
  simp [update]

theorem update_other (pool : OutputMessagePool ι) {p q : ι} (h : q ≠ p)
    (f : Protocol → Protocol) : (pool.update p f).protocols q = pool.protocols q := by
  simp [update, h]

@[simp] theorem removeProtocolFromAutosend_protocols (pool : OutputMessagePool ι) (p : ι) :
    (pool.removeProtocolFromAutosend p).protocols = pool.protocols := by
  unfold removeProtocolFromAutosend
  split
  · split <;> rfl
  · rfl

/-- Whatever flushing a buffer keeps, sending all buffers keeps. -/
theorem sendAll_protocol {P : Protocol → Prop} (hflush : ∀ pr, P pr → P pr.flush)
    (pool : OutputMessagePool ι) (q : ι) (hq : P (pool.protocols q)) :
    P (pool.sendAll.protocols q) := by
  unfold sendAll
  generalize pool.bufferedProtocols = ps
  induction ps generalizing pool with
  | nil => exact hq
  | cons p ps ih =>
    apply ih
    by_cases hqp : q = p
    · subst hqp
      simpa using hflush _ hq
    · rw [update_other pool hqp]
      exact hq

/-- Every buffer of the pool is well formed. -/
def WellFormed (pool : OutputMessagePool ι) : Prop :=
  ∀ p, (pool.protocols p).WellFormed

/-- The guard of a step for the stream of `q`: a write to `q` keeps the order. -/
def KeepsOrder (q : ι) (pool : OutputMessagePool ι) : Action ι → Prop
  | .writeToOutputBuffer p msg _ broadcast isLiveCaster =>
    p = q → (pool.protocols q).WriteKeepsOrder msg broadcast isLiveCaster
  | _ => True

theorem wellFormed_step (pool : OutputMessagePool ι) (a : Action ι)
    (pool' : OutputMessagePool ι) (hwf : pool.WellFormed)
    (hstep : pool.step a = some pool') : pool'.WellFormed := by
  cases a with
  | writeToOutputBuffer p msg fits broadcast isLiveCaster =>
    obtain rfl := Option.some.inj hstep
    intro q
    by_cases hqp : q = p
    · subst hqp
      rw [update_same]
      exact (Protocol.writeToOutputBuffer_cases (hwf q) fits broadcast isLiveCaster).1
    · rw [update_other pool hqp]
      exact hwf q
  | sendAll =>
    obtain rfl := Option.some.inj hstep
    exact fun q => sendAll_protocol (P := Protocol.WellFormed)
      (fun _ => Protocol.wellFormed_flush) pool q (hwf q)
  | addProtocolToAutosend p =>
    obtain rfl := Option.some.inj hstep
    exact hwf
  | removeProtocolFromAutosend p =>
    obtain rfl := Option.some.inj hstep
    rw [WellFormed, removeProtocolFromAutosend_protocols]
    exact hwf

/-- One step keeps the stream of `q` in order exactly when its guard holds. -/
theorem inOrder_step_iff (q : ι) (pool : OutputMessagePool ι) (a : Action ι)
    (pool' : OutputMessagePool ι) (hwf : pool.WellFormed)
    (horder : (pool.protocols q).InOrder) (hstep : pool.step a = some pool') :
    (pool'.protocols q).InOrder ↔ pool.KeepsOrder q a := by
  cases a with
  | writeToOutputBuffer p msg fits broadcast isLiveCaster =>
    obtain rfl := Option.some.inj hstep
    by_cases hqp : q = p
    · subst hqp
      rw [update_same, Protocol.inOrder_write_iff (hwf q) fits _ _ horder]
      simp [KeepsOrder]
    · rw [update_other pool hqp]
      exact iff_of_true horder fun hpq => absurd hpq.symm hqp
  | sendAll =>
    obtain rfl := Option.some.inj hstep
    refine iff_of_true ?_ trivial
    exact sendAll_protocol (fun pr => (Protocol.inOrder_flush pr).mpr) pool q horder
  | addProtocolToAutosend p =>
    obtain rfl := Option.some.inj hstep
    exact iff_of_true horder trivial
  | removeProtocolFromAutosend p =>
    obtain rfl := Option.some.inj hstep
    rw [removeProtocolFromAutosend_protocols]
    exact iff_of_true horder trivial

/-- Over every interleaving of writes and timer flushes from the empty pool,
the stream of `q` stays in order exactly when each write to `q` finds a buffer
that is empty or has room, and each unbuffered write overtakes nothing. -/
theorem always_inOrder_iff (q : ι) (as : List (Action ι)) :
    Always step (fun pool => (pool.protocols q).InOrder) {} as ↔
      EachStep step (KeepsOrder q) {} as := by
  refine always_iff_eachStep (I := WellFormed) wellFormed_step
    (inOrder_step_iff q) as {} ?_ rfl
  rintro p out ⟨⟩

end OutputMessagePool

theorem fits_zeros (n : Nat) (hn : n ≤ 24582) :
    NetworkMessage.Fits { length := n, position := initialBufferPosition + n } := by
  simp only [NetworkMessage.Fits, initialBufferPosition, networkMessageMaxSize]
  omega

/-- A message of `n` zero bytes. -/
def zeros (n : Nat) (hn : n ≤ 24582) : Action Unit :=
  .writeToOutputBuffer () { length := n, position := initialBufferPosition + n }
    (fits_zeros n hn) true false

/-- One buffered byte is lost when a message of the largest protocol body
length follows it. -/
theorem full_buffer_is_dropped :
    ¬ ∀ (as : List (Action Unit)) (pool : OutputMessagePool Unit),
      run OutputMessagePool.step {} as = some pool → (pool.protocols ()).InOrder := by
  intro h
  have horder := h [zeros 1 (by decide), zeros 24566 (by decide)] _ rfl
  have hlength := congrArg List.length horder
  simp [OutputMessagePool.update, Protocol.log, Protocol.writeToOutputBuffer,
    Protocol.getOutputBuffer, Protocol.buffered, OutputMessage.append,
    maxProtocolBodyLength, maxBodyLength, networkMessageMaxSize] at hlength

end TibiaServer.Output
