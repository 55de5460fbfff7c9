import TibiaServer.Output.RoundTrip
/-!
# Reading a received packet

The buffer of a connection keeps the bytes of earlier packets.  What a packet is parsed into
should not depend on them: the message with any other memory behind its own bytes gives the
same values.  `canRead` allows eight bytes more than the length of the message, which is what
the length announces after `XTEA_decrypt` only.
-/

namespace TibiaServer.Output

open TibiaServer.Library.Bytes

/-- `RSA::decrypt` writes 128 bytes over the 128 bytes it is given. -/
structure RSA where
  decrypt : List UInt8 → List UInt8
  length_decrypt : ∀ block, block.length = 128 → (decrypt block).length = 128

namespace NetworkMessage

/-- `getString` behind its length. -/
def getChars (msg : NetworkMessage) (stringLen : ℕ) : List UInt8 × NetworkMessage :=
  if msg.canRead stringLen then
    (load msg.buffer msg.position stringLen,
      { msg with position := (msg.position + stringLen) % 65536 })
  else ([], msg)

def skipBytes (msg : NetworkMessage) (count : ℤ) : NetworkMessage :=
  { msg with position := ((msg.position + count) % 65536).toNat }

/-- `RSA_decrypt`, without the byte it reads afterwards. -/
def decryptBody (rsa : RSA) (msg : NetworkMessage) : Bool × NetworkMessage :=
  if (msg.length : ℤ) - msg.position < 128 then (false, msg)
  else
    (true, { msg with
      buffer := store msg.buffer msg.position (rsa.decrypt (load msg.buffer msg.position 128)) })

end NetworkMessage

/-! ## Parsers -/

/-- What a parser calls on its message. -/
inductive Call
  | get (size : ℕ)
  | getChars (stringLen : ℕ)
  | skipBytes (count : ℤ)
  | decryptBody
  | info

/-- What such a call returns. -/
inductive Value
  | number (n : ℕ)
  | string (chars : List UInt8)
  | flag (b : Bool)
  | nothing
  | info (length position : ℕ)
  deriving DecidableEq

def Call.exec (rsa : RSA) : Call → NetworkMessage → Value × NetworkMessage
  | .get size, msg => (.number (msg.get size).1, (msg.get size).2)
  | .getChars stringLen, msg => (.string (msg.getChars stringLen).1, (msg.getChars stringLen).2)
  | .skipBytes count, msg => (.nothing, msg.skipBytes count)
  | .decryptBody, msg => (.flag (msg.decryptBody rsa).1, (msg.decryptBody rsa).2)
  | .info, msg => (.info msg.length msg.position, msg)

/-- A parser: each call may depend on what the calls before it have returned. -/
inductive Parser
  | done
  | call (c : Call) (next : Value → Parser)

namespace Parser

def get (size : ℕ) (next : ℕ → Parser) : Parser :=
  .call (.get size) fun
    | .number n => next n
    | _ => .done

def getByte (next : ℕ → Parser) : Parser := get 1 next

def skipBytes (count : ℤ) (next : Parser) : Parser := .call (.skipBytes count) fun _ => next

def getString (stringLen : ℕ) (next : List UInt8 → Parser) : Parser :=
  let chars (stringLen : ℕ) : Parser :=
    .call (.getChars stringLen) fun
      | .string chars => next chars
      | _ => .done
  if stringLen = 0 then get 2 chars else chars stringLen

def getPosition (next : ℕ × ℕ × ℕ → Parser) : Parser :=
  get 2 fun x => get 2 fun y => getByte fun z => next (x, y, z)

/-- `RSA_decrypt` -/
def rsaDecrypt (next : Bool → Parser) : Parser :=
  .call .decryptBody fun
    | .flag true => getByte fun byte => next (byte = 0)
    | _ => next false

/-- What `ProtocolGame::onRecvFirstMessage` reads, behind the byte that `parsePacket` skips. -/
def onRecvFirstMessage : Parser :=
  skipBytes 1 <| get 2 fun _operatingSystem => get 2 fun _version => rsaDecrypt fun ok =>
    if ok then
      get 4 fun _ => get 4 fun _ => get 4 fun _ => get 4 fun _ =>
        -- gamemaster flag
        skipBytes 1 <|
          getString 0 fun _accountName => getString 0 fun _characterName =>
            getString 0 fun _password => get 4 fun _timeStamp => getByte fun _randNumber => done
    else done

/-- The values a parser is given, one after the other. -/
def values (rsa : RSA) : Parser → NetworkMessage → List Value
  | done, _ => []
  | call c next, msg =>
    (c.exec rsa msg).1 :: (next (c.exec rsa msg).1).values rsa (c.exec rsa msg).2

end Parser

/-! ## Where the calls read and write -/

/-- An access to the buffer: its first byte, and how many bytes. -/
structure Access where
  start : ℕ
  count : ℕ

def Access.InBuffer (access : Access) : Prop :=
  access.start + access.count ≤ networkMessageMaxSize

def Call.accesses (msg : NetworkMessage) : Call → List Access
  | .get size => if msg.canRead size then [⟨msg.position, size⟩] else []
  | .getChars stringLen => if msg.canRead stringLen then [⟨msg.position, stringLen⟩] else []
  | .decryptBody => if (msg.length : ℤ) - msg.position < 128 then [] else [⟨msg.position, 128⟩]
  | _ => []

def Parser.accesses (rsa : RSA) : Parser → NetworkMessage → List Access
  | done, _ => []
  | call c next, msg =>
    c.accesses msg ++ (next (c.exec rsa msg).1).accesses rsa (c.exec rsa msg).2

/-- A read that is allowed stays below `stop`. -/
def NetworkMessage.ReadsBelow (msg : NetworkMessage) (stop size : ℕ) : Prop :=
  msg.canRead size → 0 < size → msg.position + size ≤ stop

def Call.ReadsBelow (stop : ℕ) (msg : NetworkMessage) : Call → Prop
  | .get size => msg.ReadsBelow stop size
  | .getChars stringLen => msg.ReadsBelow stop stringLen
  | _ => True

def Parser.ReadsBelow (rsa : RSA) (stop : ℕ) : Parser → NetworkMessage → Prop
  | done, _ => True
  | call c next, msg =>
    c.ReadsBelow stop msg ∧ (next (c.exec rsa msg).1).ReadsBelow rsa stop (c.exec rsa msg).2

/-! ## Another memory behind the packet -/

namespace NetworkMessage

variable {msg : NetworkMessage} {stop size : ℕ}

theorem end_le_length_of_canRead (h : msg.canRead size) : msg.position + size ≤ msg.length + 8 := by
  simp only [canRead, Bool.not_eq_true', Bool.or_eq_false_iff, decide_eq_false_iff_not] at h
  omega

theorem end_le_of_canRead (h : msg.canRead size) :
    msg.position + size ≤ networkMessageMaxSize := by
  simp only [canRead, Bool.not_eq_true', Bool.or_eq_false_iff, decide_eq_false_iff_not] at h
  omega

@[simp] theorem length_get (msg : NetworkMessage) (size : ℕ) :
    (msg.get size).2.length = msg.length := by
  unfold get
  split <;> rfl

@[simp] theorem length_getChars (msg : NetworkMessage) (stringLen : ℕ) :
    (msg.getChars stringLen).2.length = msg.length := by
  unfold getChars
  split <;> rfl

@[simp] theorem length_decryptBody (rsa : RSA) (msg : NetworkMessage) :
    (msg.decryptBody rsa).2.length = msg.length := by
  unfold decryptBody
  split <;> rfl

def overlay (msg : NetworkMessage) (stop : ℕ) (old : ℕ → UInt8) : NetworkMessage :=
  { msg with buffer := Library.Bytes.overlay stop msg.buffer old }

/-- What is read below `stop` does not depend on the memory behind it. -/
theorem load_overlay (h : 0 < size → msg.position + size ≤ stop) (old : ℕ → UInt8) :
    load (msg.overlay stop old).buffer msg.position size = load msg.buffer msg.position size := by
  by_cases hsize : 0 < size
  · exact (agree_overlay msg.buffer old (h hsize)).load
  · rw [Nat.eq_zero_of_not_pos hsize]
    rfl

/-- What is read from `stop` on does. -/
theorem exists_load_overlay_ne (hsize : 0 < size) (h : stop < msg.position + size) :
    ∃ old, load (msg.overlay stop old).buffer msg.position size ≠
      load msg.buffer msg.position size := by
  refine ⟨fun i => msg.buffer i + 1, fun heq => ?_⟩
  have hlast := load_eq_iff.mp heq (msg.position + size - 1) (by omega) (by omega)
  have hstale : (msg.overlay stop fun i => msg.buffer i + 1).buffer (msg.position + size - 1) =
      msg.buffer (msg.position + size - 1) + 1 := 
    @overlay_of_le _ _ stop msg.buffer (fun i => msg.buffer i + 1) (by omega)
  rw [hstale, UInt8.add_eq_left] at hlast
  exact absurd hlast (by decide)

theorem get_overlay (h : msg.ReadsBelow stop size) (old : ℕ → UInt8) :
    (msg.overlay stop old).get size = ((msg.get size).1, (msg.get size).2.overlay stop old) := by
  unfold get
  by_cases hcan : msg.canRead size
  · have hload := load_overlay (h hcan) old
    rw [if_pos hcan, if_pos (by exact hcan)]
    exact Prod.ext (congrArg ofBytes hload) rfl
  · rw [if_neg hcan, if_neg (by exact hcan)]

theorem getChars_overlay (h : msg.ReadsBelow stop size) (old : ℕ → UInt8) :
    (msg.overlay stop old).getChars size =
      ((msg.getChars size).1, (msg.getChars size).2.overlay stop old) := by
  unfold getChars
  by_cases hcan : msg.canRead size
  · rw [if_pos hcan, if_pos (by exact hcan)]
    exact Prod.ext (load_overlay (h hcan) old) rfl
  · rw [if_neg hcan, if_neg (by exact hcan)]

theorem decryptBody_overlay (rsa : RSA) (h : msg.length ≤ stop) (old : ℕ → UInt8) :
    (msg.overlay stop old).decryptBody rsa =
      ((msg.decryptBody rsa).1, (msg.decryptBody rsa).2.overlay stop old) := by
  unfold decryptBody
  by_cases hshort : (msg.length : ℤ) - msg.position < 128
  · rw [if_pos hshort, if_pos (by exact hshort)]
  · have hload : load (msg.overlay stop old).buffer msg.position 128 =
        load msg.buffer msg.position 128 := load_overlay (fun _ => by omega) old
    have hend : msg.position + (rsa.decrypt (load msg.buffer msg.position 128)).length ≤ stop := by
      rw [rsa.length_decrypt _ (length_load ..)]
      omega
    have hstore := store_overlay msg.buffer old hend
    rw [if_neg hshort, if_neg (by exact hshort)]
    simp only [Prod.mk.injEq, true_and]
    unfold overlay at hload ⊢
    simp only [hload, hstore]

end NetworkMessage

section Runs

variable {rsa : RSA} {msg : NetworkMessage} {stop : ℕ}

theorem Call.length_exec (c : Call) : (c.exec rsa msg).2.length = msg.length := by
  cases c with
  | get size => exact NetworkMessage.length_get msg size
  | getChars stringLen => exact NetworkMessage.length_getChars msg stringLen
  | decryptBody => exact NetworkMessage.length_decryptBody rsa msg
  | skipBytes _ | info => rfl

/-- A call that reads below `stop` does not see what lies behind it, and leaves it there. -/
theorem Call.exec_overlay {c : Call} (hlength : msg.length ≤ stop) (h : c.ReadsBelow stop msg)
    (old : ℕ → UInt8) :
    c.exec rsa (msg.overlay stop old) =
      ((c.exec rsa msg).1, (c.exec rsa msg).2.overlay stop old) := by
  cases c with
  | get size => simp only [exec, NetworkMessage.get_overlay h old]
  | getChars stringLen => simp only [exec, NetworkMessage.getChars_overlay h old]
  | decryptBody => simp only [exec, NetworkMessage.decryptBody_overlay rsa hlength old]
  | skipBytes _ | info => rfl

/-- A call that reads from `stop` on returns what lies there. -/
theorem Call.exists_exec_overlay_ne (rsa : RSA) {c : Call} (h : ¬c.ReadsBelow stop msg) :
    ∃ old, (c.exec rsa (msg.overlay stop old)).1 ≠ (c.exec rsa msg).1 := by
  cases c with
  | get size =>
    simp only [ReadsBelow, NetworkMessage.ReadsBelow, not_forall, not_le] at h
    obtain ⟨hcan, hsize, hbeyond⟩ := h
    obtain ⟨old, hne⟩ := NetworkMessage.exists_load_overlay_ne hsize hbeyond
    refine ⟨old, fun heq => hne ?_⟩
    have hvalue : ((msg.overlay stop old).get size).1 = (msg.get size).1 := Value.number.inj heq
    unfold NetworkMessage.get at hvalue
    rw [if_pos hcan, if_pos (by exact hcan)] at hvalue
    exact ofBytes_inj (by rw [length_load, length_load]) hvalue
  | getChars stringLen =>
    simp only [ReadsBelow, NetworkMessage.ReadsBelow, not_forall, not_le] at h
    obtain ⟨hcan, hsize, hbeyond⟩ := h
    obtain ⟨old, hne⟩ := NetworkMessage.exists_load_overlay_ne hsize hbeyond
    refine ⟨old, fun heq => hne ?_⟩
    have hvalue : ((msg.overlay stop old).getChars stringLen).1 = (msg.getChars stringLen).1 :=
      Value.string.inj heq
    unfold NetworkMessage.getChars at hvalue
    rwa [if_pos hcan, if_pos (by exact hcan)] at hvalue
  | skipBytes _ | decryptBody | info => exact absurd trivial h

namespace Parser

theorem values_overlay {p : Parser} (hlength : msg.length ≤ stop) (h : p.ReadsBelow rsa stop msg)
    (old : ℕ → UInt8) : p.values rsa (msg.overlay stop old) = p.values rsa msg := by
  induction p generalizing msg with
  | done => rfl
  | call c next ih =>
    rw [values, values, c.exec_overlay hlength h.1]
    simp only
    rw [ih _ (by rw [c.length_exec]; exact hlength) h.2]

/-- Only a run that stays below `stop` returns the same whatever lies behind it. -/
theorem readsBelow_of_values_overlay {p : Parser} (hlength : msg.length ≤ stop)
    (h : ∀ old, p.values rsa (msg.overlay stop old) = p.values rsa msg) :
    p.ReadsBelow rsa stop msg := by
  induction p generalizing msg with
  | done => trivial
  | call c next ih =>
    have hcall : c.ReadsBelow stop msg := by
      by_contra hbeyond
      obtain ⟨old, hne⟩ := Call.exists_exec_overlay_ne rsa hbeyond
      exact hne (List.cons.inj (h old)).1
    refine ⟨hcall, ih _ (by rw [c.length_exec]; exact hlength) fun old => ?_⟩
    have hrest := (List.cons.inj (h old)).2
    rwa [c.exec_overlay hlength hcall] at hrest

/-- Where the length announces eight bytes less than there are, every run stays among them. -/
theorem readsBelow_of_length (p : Parser) (h : msg.length + 8 ≤ stop) :
    p.ReadsBelow rsa stop msg := by
  induction p generalizing msg with
  | done => trivial
  | call c next ih =>
    refine ⟨?_, ih _ (by rw [c.length_exec]; exact h)⟩
    cases c with
    | get size | getChars size =>
      exact fun hcan _ => (NetworkMessage.end_le_length_of_canRead hcan).trans h
    | skipBytes _ | decryptBody | info => trivial

/-- No run leaves the buffer. -/
theorem accesses_inBuffer (p : Parser) (h : msg.length ≤ networkMessageMaxSize) :
    ∀ access ∈ p.accesses rsa msg, access.InBuffer := by
  induction p generalizing msg with
  | done =>
    intro access haccess
    cases haccess
  | call c next ih =>
    intro access haccess
    rcases List.mem_append.mp haccess with hcall | hrest
    · cases c with
      | get size | getChars size =>
        simp only [Call.accesses] at hcall
        split at hcall
        · cases List.mem_singleton.mp hcall
          exact NetworkMessage.end_le_of_canRead ‹_›
        · cases hcall
      | decryptBody =>
        simp only [Call.accesses] at hcall
        split at hcall
        · cases hcall
        · cases List.mem_singleton.mp hcall
          simp only [Access.InBuffer]
          omega
      | skipBytes _ | info => cases hcall
    · exact ih _ (by rw [c.length_exec]; exact h) access hrest

end Parser

end Runs

/-! ## Packets -/

/-- The bytes behind the two of the length, where `parseHeader` accepts these. -/
structure Packet where
  body : List UInt8
  nonempty : 0 < body.length
  short : body.length < networkMessageMaxSize - 16

namespace Packet

variable (packet : Packet)

/-- The bytes of the buffer that belong to the packet. -/
def size : ℕ := packet.body.length + 2

/-- What `parsePacket` is called with when the buffer held `old` before. -/
def message (old : ℕ → UInt8) : NetworkMessage where
  length := packet.size
  position := 2
  buffer := store (store old 0 (toBytes 2 packet.body.length)) 2 packet.body

theorem message_overlay (old old' : ℕ → UInt8) :
    (packet.message old).overlay packet.size old' = packet.message old' := by
  have hall : ∀ old, (packet.message old).buffer =
      store old 0 (toBytes 2 packet.body.length ++ packet.body) := by
    intro old
    rw [← store_store_append, length_toBytes]
    rfl
  have hsize : packet.size = (toBytes 2 packet.body.length ++ packet.body).length := by
    rw [List.length_append, length_toBytes, size, Nat.add_comm]
  have hbuffer : Library.Bytes.overlay packet.size (packet.message old).buffer old' =
      (packet.message old').buffer := by
    rw [hall, hall, hsize]
    exact overlay_store old old' _
  unfold NetworkMessage.overlay
  rw [hbuffer]
  rfl

end Packet

namespace Framing

variable (protocol : Framing)

/-- The checksum that `parsePacket` computes. -/
def checksum (msg : NetworkMessage) : ℕ :=
  let len : ℤ := msg.length - msg.position - 4
  if len > 0 then (adlerChecksum (load msg.buffer (msg.position + 4) len.toNat)).toNat else 0

/-- `parsePacket` up to the protocol: whether the checksum is right, and the message behind it. -/
def readChecksum (msg : NetworkMessage) : Bool × NetworkMessage :=
  let (recvChecksum, inner) := msg.get 4
  (recvChecksum = checksum msg,
    if recvChecksum ≠ checksum msg then { inner with position := inner.position - 4 } else inner)

/-- The message in which `XTEA_decrypt` has decrypted the blocks. -/
def decryptBlocks (msg : NetworkMessage) : NetworkMessage :=
  { msg with
    buffer := mapBlocks (decryptBlock protocol.key) 8 msg.position
      ((((msg.length : ℤ) - 6).toNat + 7) / 8) msg.buffer }

theorem xteaDecrypt_eq (msg : NetworkMessage) :
    protocol.xteaDecrypt msg =
      if ((msg.length : ℤ) - 6) % 8 ≠ 0 then none
      else if (((protocol.decryptBlocks msg).get 2).1 : ℤ) >
          ((protocol.decryptBlocks msg).get 2).2.length - 8 then none
      else some { ((protocol.decryptBlocks msg).get 2).2 with
        length := ((protocol.decryptBlocks msg).get 2).1 } := rfl

/-- Whatever `XTEA_decrypt` answers, it has restored what `XTEA_encrypt` was given, and has
changed nothing beside it. -/
theorem xteaDecrypt_xteaEncrypt {out : OutputMessage} {msg : NetworkMessage}
    (hmultiple : out.length % 8 = 0) (hlength : msg.length = out.length + 6)
    (hreceived : load msg.buffer msg.position out.length = (protocol.xteaEncrypt out).wire) :
    load (protocol.decryptBlocks msg).buffer msg.position out.length = out.wire ∧
      (∀ i, i < msg.position ∨ msg.position + out.length ≤ i →
        (protocol.decryptBlocks msg).buffer i = msg.buffer i) ∧
      ∀ msg', protocol.xteaDecrypt msg = some msg' →
        msg'.buffer = (protocol.decryptBlocks msg).buffer := by
  obtain ⟨blocks, hblocks⟩ := Nat.dvd_of_mod_eq_zero hmultiple
  have hencrypt : ∀ bs, bs.length = 8 → (encryptBlock protocol.key bs).length = 8 :=
    fun bs _ => length_encryptBlock protocol.key bs
  have hdecrypt : ∀ bs, bs.length = 8 → (decryptBlock protocol.key bs).length = 8 :=
    fun bs _ => length_decryptBlock protocol.key bs
  have hcount : (((msg.length : ℤ) - 6).toNat + 7) / 8 = blocks := by omega
  unfold OutputMessage.wire at hreceived ⊢
  rw [xteaEncrypt_of_multiple hmultiple, hblocks, Nat.mul_div_cancel_left _ (by decide)] at hreceived
  refine ⟨?_, fun i hi => ?_, fun msg' hmsg' => ?_⟩
  · unfold decryptBlocks
    rw [hcount, hblocks]
    exact load_mapBlocks_inverse hencrypt hdecrypt
      (fun bs hbs => decryptBlock_encryptBlock protocol.key hbs) hreceived
  · unfold decryptBlocks
    rw [hcount]
    exact mapBlocks_outside hdecrypt msg.buffer (by omega)
  · rw [xteaDecrypt_eq] at hmsg'
    split at hmsg'
    · cases hmsg'
    split at hmsg'
    · cases hmsg'
    · rw [← Option.some.inj hmsg']
      unfold NetworkMessage.get
      split <;> rfl

/-- A body of eight zeros. -/
theorem zeros_are_restored :
    let protocol : Framing := { key := fun i => .ofNat 32 i }
    let out : OutputMessage := { length := 8 }
    let msg : NetworkMessage := { length := 14, buffer := (protocol.xteaEncrypt out).buffer }
    load (protocol.decryptBlocks msg).buffer msg.position 8 = List.replicate 8 0 := by
  intro protocol out msg
  have hmultiple : out.length % 8 = 0 := Nat.mod_self 8
  have hlength : msg.length = out.length + 6 := rfl
  have hreceived : load msg.buffer msg.position out.length = (protocol.xteaEncrypt out).wire := by
    show load (protocol.xteaEncrypt out).buffer msg.position out.length = _
    unfold OutputMessage.wire
    rw [xteaEncrypt_of_multiple hmultiple]
  exact (xteaDecrypt_xteaEncrypt protocol hmultiple hlength hreceived).1

/-- What the getters return once the checksum is read: the inner length where the message is
decrypted, and what the parser reads. -/
def messageValues (rsa : RSA) (parser : Parser) (msg : NetworkMessage) : List Value :=
  (if protocol.encryptionEnabled ∧ ((msg.length : ℤ) - 6) % 8 = 0 then
    [.number ((protocol.decryptBlocks msg).get 2).1]
  else []) ++ (protocol.onRecvMessage msg).elim [] (parser.values rsa)

/-- What the getters return while a packet is parsed; the parser knows about the checksum. -/
def packetValues (rsa : RSA) (parser : Bool → Parser) (msg : NetworkMessage) : List Value :=
  .number (msg.get 4).1 ::
    protocol.messageValues rsa (parser (readChecksum msg).1) (readChecksum msg).2

/-- What the getters and `XTEA_decrypt` read and write once the checksum is read. -/
def messageAccesses (rsa : RSA) (parser : Parser) (msg : NetworkMessage) : List Access :=
  (if protocol.encryptionEnabled ∧ ((msg.length : ℤ) - 6) % 8 = 0 then
    ⟨msg.position, 8 * ((((msg.length : ℤ) - 6).toNat + 7) / 8)⟩ ::
      (Call.get 2).accesses (protocol.decryptBlocks msg)
  else []) ++ (protocol.onRecvMessage msg).elim [] (parser.accesses rsa)

def packetAccesses (rsa : RSA) (parser : Bool → Parser) (msg : NetworkMessage) : List Access :=
  (Call.get 4).accesses msg ++
    protocol.messageAccesses rsa (parser (readChecksum msg).1) (readChecksum msg).2

/-- A packet is parsed from its own bytes, inside the buffer. -/
structure ParsesOwnBytes (rsa : RSA) (packet : Packet) (parser : Bool → Parser) : Prop where
  values : ∀ old old', protocol.packetValues rsa parser (packet.message old) =
    protocol.packetValues rsa parser (packet.message old')
  inBuffer : ∀ old, ∀ access ∈ protocol.packetAccesses rsa parser (packet.message old),
    access.InBuffer

/-- No read that is allowed goes beyond the end of the packet. -/
structure ReadsOwnBytes (rsa : RSA) (packet : Packet) (parser : Bool → Parser) : Prop where
  checksum : 4 ≤ packet.body.length
  /-- There is an inner length behind the checksum. -/
  innerLength : protocol.encryptionEnabled → packet.body ≠ [0, 0, 0, 0]
  plain : ¬protocol.encryptionEnabled → ∀ old,
    (parser (readChecksum (packet.message old)).1).ReadsBelow rsa packet.size
      (readChecksum (packet.message old)).2

variable {protocol} {packet : Packet} {msg : NetworkMessage} {stop : ℕ}

/-! ### The checksum -/

theorem checksum_overlay (hlength : msg.length ≤ stop) (old : ℕ → UInt8) :
    checksum (msg.overlay stop old) = checksum msg := by
  unfold checksum
  by_cases hlen : (msg.length : ℤ) - msg.position - 4 > 0
  · have hload := (agree_overlay msg.buffer old
      (by omega : msg.position + 4 + ((msg.length : ℤ) - msg.position - 4).toNat ≤ stop)).load
    rw [if_pos hlen, if_pos (by exact hlen)]
    exact congrArg (fun bytes => (adlerChecksum bytes).toNat) hload
  · rw [if_neg hlen, if_neg (by exact hlen)]

theorem readChecksum_overlay (hlength : msg.length ≤ stop) (hposition : msg.position + 4 ≤ stop)
    (old : ℕ → UInt8) :
    readChecksum (msg.overlay stop old) =
      ((readChecksum msg).1, (readChecksum msg).2.overlay stop old) := by
  unfold readChecksum
  rw [NetworkMessage.get_overlay (fun _ _ => hposition) old, checksum_overlay hlength]
  simp only
  split <;> rfl

@[simp] theorem length_readChecksum (msg : NetworkMessage) :
    (readChecksum msg).2.length = msg.length := by
  unfold readChecksum
  simp only
  split <;> exact msg.length_get 4

/-- The checksum is always read, be it in the packet or not. -/
theorem canRead_checksum (packet : Packet) (old : ℕ → UInt8) :
    (packet.message old).canRead 4 = true := by
  simp [NetworkMessage.canRead, Packet.message, Packet.size, networkMessageMaxSize]

/-- The message goes on behind the checksum, or in front of it. -/
theorem position_readChecksum (packet : Packet) (old : ℕ → UInt8) :
    (readChecksum (packet.message old)).2.position =
      if (readChecksum (packet.message old)).1 then 6 else 2 := by
  have hposition : ((packet.message old).get 4).2.position = 6 := by
    rw [NetworkMessage.get, if_pos (canRead_checksum packet old)]
    rfl
  unfold readChecksum
  by_cases hsum : ((packet.message old).get 4).1 = checksum (packet.message old)
  · simp [hsum, hposition]
  · simp [hsum, hposition]

/-- Without bytes behind it, the checksum is right where it is zero. -/
theorem readChecksum_of_length (hbody : packet.body.length = 4) (old : ℕ → UInt8) :
    (readChecksum (packet.message old)).1 = true ↔ packet.body = [0, 0, 0, 0] := by
  have hsum : checksum (packet.message old) = 0 := by
    simp [checksum, Packet.message, Packet.size, hbody]
  have hread : ((packet.message old).get 4).1 = ofBytes packet.body := by
    rw [NetworkMessage.get, if_pos (canRead_checksum packet old), ← hbody]
    exact congrArg ofBytes (load_store_self _ 2 packet.body)
  have hzero : ofBytes packet.body = 0 ↔ packet.body = [0, 0, 0, 0] := by
    constructor
    · intro h
      exact ofBytes_inj hbody h
    · intro h
      rw [h]
      rfl
  rw [← hzero, ← hread, ← hsum]
  exact decide_eq_true_iff

/-! ### The cipher -/

section

variable (protocol)

theorem decryptBlocks_of_length (h : msg.length = 6) : protocol.decryptBlocks msg = msg := by
  have hnone : (((msg.length : ℤ) - 6).toNat + 7) / 8 = 0 := by
    rw [h]
    rfl
  unfold decryptBlocks
  rw [hnone]
  rfl

theorem get_decryptBlocks_overlay (hinner : msg.position + 2 ≤ stop) (old : ℕ → UInt8) :
    ((protocol.decryptBlocks msg).overlay stop old).get 2 =
      (((protocol.decryptBlocks msg).get 2).1,
        ((protocol.decryptBlocks msg).get 2).2.overlay stop old) := by
  have hbelow : (protocol.decryptBlocks msg).ReadsBelow stop 2 := fun _ _ => hinner
  exact NetworkMessage.get_overlay hbelow old

theorem xteaDecrypt_overlay
    (hblocks : msg.position + 8 * ((((msg.length : ℤ) - 6).toNat + 7) / 8) ≤ stop)
    (hinner : msg.position + 2 ≤ stop) (old : ℕ → UInt8) :
    protocol.decryptBlocks (msg.overlay stop old) = (protocol.decryptBlocks msg).overlay stop old ∧
      protocol.xteaDecrypt (msg.overlay stop old) =
        (protocol.xteaDecrypt msg).map (·.overlay stop old) := by
  have hdecrypt : protocol.decryptBlocks (msg.overlay stop old) =
      (protocol.decryptBlocks msg).overlay stop old := by
    unfold decryptBlocks
    have hmap := mapBlocks_overlay (fun bs _ => length_decryptBlock protocol.key bs)
      msg.buffer old hblocks
    exact congrArg (fun buffer => { msg with buffer := buffer }) hmap
  refine ⟨hdecrypt, ?_⟩
  have hget := protocol.get_decryptBlocks_overlay hinner old
  rw [xteaDecrypt_eq, xteaDecrypt_eq, hdecrypt, hget, apply_ite (Option.map _),
    apply_ite (Option.map _)]
  rfl

end

theorem length_xteaDecrypt {msg' : NetworkMessage} (h : protocol.xteaDecrypt msg = some msg') :
    msg'.length + 8 ≤ msg.length := by
  have hlength : ((protocol.decryptBlocks msg).get 2).2.length = msg.length :=
    NetworkMessage.length_get _ 2
  rw [xteaDecrypt_eq, hlength] at h
  split at h
  · cases h
  · split at h
    · cases h
    · cases h
      simp only
      omega

/-- What is decrypted, and the inner length, belong to the packet. -/
theorem blocks_fit (hchecksum : 4 ≤ packet.body.length) (hbody : packet.body ≠ [0, 0, 0, 0])
    (old : ℕ → UInt8) {inner : NetworkMessage}
    (hinner : (readChecksum (packet.message old)).2 = inner)
    (hmod : ((inner.length : ℤ) - 6) % 8 = 0) :
    inner.position + 8 * ((((inner.length : ℤ) - 6).toNat + 7) / 8) ≤ packet.size ∧
      inner.position + 2 ≤ packet.size := by
  have hlength : inner.length = packet.size := by
    rw [← hinner, length_readChecksum]
    rfl
  have hposition := position_readChecksum packet old
  rw [hinner] at hposition
  have hsize : packet.size = packet.body.length + 2 := rfl
  cases hsum : (readChecksum (packet.message old)).1 with
  | false =>
    rw [hsum] at hposition
    simp only [Bool.false_eq_true, if_false] at hposition
    omega
  | true =>
    rw [hsum] at hposition
    simp only [if_true] at hposition
    have hlong : packet.body.length ≠ 4 :=
      fun hfour => hbody ((readChecksum_of_length hfour old).mp hsum)
    omega

/-! ### The packet -/

section

variable (protocol) (rsa : RSA)

theorem messageValues_plain (hplain : ¬protocol.encryptionEnabled) (p : Parser) :
    protocol.messageValues rsa p msg = p.values rsa msg := by
  unfold messageValues onRecvMessage
  rw [if_neg (fun h => hplain h.1), if_neg hplain]
  rfl

theorem messageValues_decrypted (henc : protocol.encryptionEnabled)
    (hmod : ((msg.length : ℤ) - 6) % 8 = 0) (p : Parser) :
    protocol.messageValues rsa p msg =
      .number ((protocol.decryptBlocks msg).get 2).1 ::
        (protocol.xteaDecrypt msg).elim [] (p.values rsa) := by
  unfold messageValues onRecvMessage
  rw [if_pos ⟨henc, hmod⟩, if_pos henc]
  rfl

theorem messageValues_rejected (henc : protocol.encryptionEnabled)
    (hmod : ((msg.length : ℤ) - 6) % 8 ≠ 0) (p : Parser) :
    protocol.messageValues rsa p msg = [] := by
  unfold messageValues onRecvMessage
  rw [if_neg (fun h => hmod h.2), if_pos henc, xteaDecrypt_eq, if_pos hmod]
  rfl

theorem messageValues_overlay {p : Parser} (hlength : msg.length ≤ stop)
    (hplain : ¬protocol.encryptionEnabled → p.ReadsBelow rsa stop msg)
    (hblocks : protocol.encryptionEnabled → ((msg.length : ℤ) - 6) % 8 = 0 →
      msg.position + 8 * ((((msg.length : ℤ) - 6).toNat + 7) / 8) ≤ stop ∧ msg.position + 2 ≤ stop)
    (old : ℕ → UInt8) :
    protocol.messageValues rsa p (msg.overlay stop old) = protocol.messageValues rsa p msg := by
  by_cases henc : protocol.encryptionEnabled
  · by_cases hmod : ((msg.length : ℤ) - 6) % 8 = 0
    · obtain ⟨hend, hinner⟩ := hblocks henc hmod
      obtain ⟨hdecrypt, hxtea⟩ := protocol.xteaDecrypt_overlay hend hinner old
      rw [messageValues_decrypted protocol rsa henc hmod,
        messageValues_decrypted protocol rsa henc (by exact hmod), hdecrypt, hxtea,
        protocol.get_decryptBlocks_overlay hinner]
      cases hmsg : protocol.xteaDecrypt msg with
      | none => rfl
      | some msg' =>
        have hshort := length_xteaDecrypt hmsg
        have hvalues : p.values rsa (msg'.overlay stop old) = p.values rsa msg' :=
          Parser.values_overlay (by omega) (p.readsBelow_of_length (by omega)) old
        exact congrArg _ hvalues
    · rw [messageValues_rejected protocol rsa henc hmod,
        messageValues_rejected protocol rsa henc (by exact hmod)]
  · rw [messageValues_plain protocol rsa henc, messageValues_plain protocol rsa henc]
    exact Parser.values_overlay hlength (hplain henc) old

theorem packetValues_overlay {parser : Bool → Parser} (h : protocol.ReadsOwnBytes rsa packet parser)
    (old old' : ℕ → UInt8) :
    protocol.packetValues rsa parser ((packet.message old).overlay packet.size old') =
      protocol.packetValues rsa parser (packet.message old) := by
  have hstop : (packet.message old).position + 4 ≤ packet.size := by
    have hchecksum := h.checksum
    simp only [Packet.message, Packet.size]
    omega
  have hlength : (readChecksum (packet.message old)).2.length ≤ packet.size := by
    rw [length_readChecksum]
    exact Nat.le_refl _
  unfold packetValues
  rw [readChecksum_overlay (by exact Nat.le_refl _) hstop,
    NetworkMessage.get_overlay (fun _ _ => hstop) old']
  simp only
  rw [messageValues_overlay protocol rsa hlength (fun hplain => h.plain hplain old)
    (fun henc hmod => blocks_fit h.checksum (h.innerLength henc) old rfl hmod)]

theorem packetAccesses_inBuffer (parser : Bool → Parser) (old : ℕ → UInt8) :
    ∀ access ∈ protocol.packetAccesses rsa parser (packet.message old), access.InBuffer := by
  have hmax : networkMessageMaxSize = 24590 := rfl
  have hshort := packet.short
  obtain ⟨inner, hinner⟩ : ∃ inner, (readChecksum (packet.message old)).2 = inner := ⟨_, rfl⟩
  have hlength : inner.length = packet.body.length + 2 := by
    rw [← hinner, length_readChecksum]
    rfl
  have hposition : inner.position ≤ 6 := by
    rw [← hinner, position_readChecksum]
    split <;> omega
  have hget : ∀ (msg : NetworkMessage) (size : ℕ),
      ∀ access ∈ (Call.get size).accesses msg, access.InBuffer := by
    intro msg size access haccess
    simp only [Call.accesses] at haccess
    split at haccess
    · cases List.mem_singleton.mp haccess
      exact NetworkMessage.end_le_of_canRead ‹_›
    · cases haccess
  intro access haccess
  unfold packetAccesses messageAccesses onRecvMessage at haccess
  rw [hinner] at haccess
  rcases List.mem_append.mp haccess with hchecksum | hrest
  · exact hget _ 4 access hchecksum
  · rcases List.mem_append.mp hrest with hcipher | hparsed
    · split at hcipher
      · rcases List.mem_cons.mp hcipher with rfl | hread
        · simp only [Access.InBuffer]
          omega
        · exact hget _ 2 access hread
      · cases hcipher
    · split at hparsed
      · cases hmsg : protocol.xteaDecrypt inner with
        | none =>
          rw [hmsg] at hparsed
          cases hparsed
        | some msg =>
          have hinnerLength := length_xteaDecrypt hmsg
          rw [hmsg] at hparsed
          exact Parser.accesses_inBuffer _ (by omega) access hparsed
      · exact Parser.accesses_inBuffer _ (by omega) access hparsed

/-- Where a packet is parsed from its own bytes, no read goes beyond them. -/
theorem readsOwnBytes_of_values {parser : Bool → Parser}
    (h : ∀ old old', protocol.packetValues rsa parser (packet.message old) =
      protocol.packetValues rsa parser (packet.message old')) :
    protocol.ReadsOwnBytes rsa packet parser := by
  have hoverlay : ∀ old old',
      protocol.packetValues rsa parser ((packet.message old).overlay packet.size old') =
        protocol.packetValues rsa parser (packet.message old) := by
    intro old old'
    rw [packet.message_overlay]
    exact h old' old
  have hchecksum : 4 ≤ packet.body.length := by
    by_contra hfew
    have hbeyond : ¬(Call.get 4).ReadsBelow packet.size (packet.message fun _ => 0) := by
      intro hbelow
      have hend := hbelow (canRead_checksum packet _) (by decide)
      simp only [Packet.message, Packet.size] at hend
      omega
    obtain ⟨old, hne⟩ := Call.exists_exec_overlay_ne rsa hbeyond
    exact hne (List.cons.inj (hoverlay _ old)).1
  have hstop : (packet.message fun _ => 0).position + 4 ≤ packet.size := by
    simp only [Packet.message, Packet.size]
    omega
  have hmessage : ∀ old old', protocol.messageValues rsa
        (parser (readChecksum (packet.message old)).1)
        ((readChecksum (packet.message old)).2.overlay packet.size old') =
      protocol.messageValues rsa (parser (readChecksum (packet.message old)).1)
        (readChecksum (packet.message old)).2 := by
    intro old old'
    have hrest := (List.cons.inj (hoverlay old old')).2
    rwa [readChecksum_overlay (by exact Nat.le_refl _) (by exact hstop)] at hrest
  refine ⟨hchecksum, fun henc hzero => ?_, fun hplain old => ?_⟩
  · have hsize : packet.size = 6 := by rw [Packet.size, hzero]; rfl
    obtain ⟨inner, hinner⟩ : ∃ inner, (readChecksum (packet.message fun _ => 0)).2 = inner :=
      ⟨_, rfl⟩
    have hlength : inner.length = 6 := by
      rw [← hinner, length_readChecksum]
      exact hsize
    have hposition : inner.position = 6 := by
      rw [← hinner, position_readChecksum,
        if_pos ((readChecksum_of_length (by rw [hzero]; rfl) _).mpr hzero)]
    have hmod : ((inner.length : ℤ) - 6) % 8 = 0 := by omega
    -- the inner length would be behind the end
    have hbeyond : ¬(Call.get 2).ReadsBelow packet.size inner := by
      intro hbelow
      have hend := hbelow (by simp [NetworkMessage.canRead, hlength, hposition,
        networkMessageMaxSize]) (by decide)
      omega
    obtain ⟨old, hne⟩ := Call.exists_exec_overlay_ne rsa hbeyond
    have hvalues := hmessage (fun _ => 0) old
    rw [hinner, messageValues_decrypted protocol rsa henc hmod,
      messageValues_decrypted protocol rsa henc (by exact hmod),
      protocol.decryptBlocks_of_length hlength, protocol.decryptBlocks_of_length (by exact hlength)]
      at hvalues
    exact hne (List.cons.inj hvalues).1
  · apply Parser.readsBelow_of_values_overlay
    · rw [length_readChecksum]
      exact Nat.le_refl _
    · intro old'
      have hvalues := hmessage old old'
      rwa [messageValues_plain protocol rsa hplain, messageValues_plain protocol rsa hplain]
        at hvalues

end

/-- Packets are parsed from their own bytes exactly where every read that is allowed ends with the
packet. -/
theorem parsesOwnBytes_iff (protocol : Framing) (rsa : RSA) (packet : Packet)
    (parser : Bool → Parser) :
    protocol.ParsesOwnBytes rsa packet parser ↔ protocol.ReadsOwnBytes rsa packet parser := by
  constructor
  · intro h
    exact readsOwnBytes_of_values protocol rsa h.values
  · intro h
    refine ⟨fun old old' => ?_, packetAccesses_inBuffer protocol rsa parser⟩
    rw [← packetValues_overlay protocol rsa h old old', packet.message_overlay]

/-- The version in a first packet of four bytes is read behind its end. -/
theorem version_behind_end :
    ¬∀ (protocol : Framing) (rsa : RSA) (packet : Packet) (parser : Bool → Parser),
      protocol.ParsesOwnBytes rsa packet parser := by
  intro h
  let rsa : RSA := ⟨id, fun _ hlength => hlength⟩
  let packet : Packet := ⟨[1, 2, 3, 4], by decide, by decide⟩
  have hvalues := (h ⟨fun _ => 0, false, true, false⟩ rsa packet
    fun _ => .onRecvFirstMessage).values (fun _ => 0) (fun _ => 1)
  revert hvalues
  decide

end Framing

end TibiaServer.Output
