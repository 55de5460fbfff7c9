import Mathlib.Data.BitVec
import TibiaServer.Library.Bytes
import TibiaServer.Output.NetworkMessage
/-!
# The block cipher

`XTEA_encrypt` and `XTEA_decrypt` run 32 rounds over two words of 32 bits.  What a round adds
to a word depends on the other word only, so the rounds of the one undo those of the other.
-/

namespace TibiaServer.Output

open TibiaServer.Library.Bytes

/-- The two words of a block and the running sum. -/
structure XTEAState where
  v0 : BitVec 32
  v1 : BitVec 32
  sum : BitVec 32

section

variable (k : Fin 4 → BitVec 32)

/-- `const uint32_t delta` -/
def xteaDelta : BitVec 32 := 0x61C88647

/-- `(v << 4 ^ v >> 5) + v` -/
def xteaMix (v : BitVec 32) : BitVec 32 := (v <<< 4 ^^^ v >>> 5) + v

def keyLow (sum : BitVec 32) : BitVec 32 := sum + k ⟨sum.toNat % 4, Nat.mod_lt _ (by decide)⟩

def keyHigh (sum : BitVec 32) : BitVec 32 :=
  sum + k ⟨(sum >>> 11).toNat % 4, Nat.mod_lt _ (by decide)⟩

/-- The body of the loop in `XTEA_encrypt`. -/
def encryptRound (s : XTEAState) : XTEAState :=
  let v0 := s.v0 + (xteaMix s.v1 ^^^ keyLow k s.sum)
  let sum := s.sum - xteaDelta
  let v1 := s.v1 + (xteaMix v0 ^^^ keyHigh k sum)
  { v0 := v0, v1 := v1, sum := sum }

/-- The body of the loop in `XTEA_decrypt`. -/
def decryptRound (s : XTEAState) : XTEAState :=
  let v1 := s.v1 - (xteaMix s.v0 ^^^ keyHigh k s.sum)
  let sum := s.sum + xteaDelta
  let v0 := s.v0 - (xteaMix v1 ^^^ keyLow k sum)
  { v0 := v0, v1 := v1, sum := sum }

theorem decryptRound_encryptRound :
    Function.LeftInverse (decryptRound k) (encryptRound k) := by
  intro s
  unfold decryptRound encryptRound
  simp only [add_sub_cancel_right, sub_add_cancel]

/-- The sum does not depend on the words. -/
theorem sum_iterate_encryptRound (n : ℕ) (s : XTEAState) :
    ((encryptRound k)^[n] s).sum = s.sum - n * xteaDelta := by
  induction n with
  | zero => simp
  | succ n ih =>
    rw [Function.iterate_succ_apply']
    show ((encryptRound k)^[n] s).sum - xteaDelta = _
    rw [ih, Nat.cast_succ, add_mul, one_mul, sub_sub]

/-- The words of a block of eight bytes. -/
def loadBlock (bytes : List UInt8) (sum : BitVec 32) : XTEAState where
  v0 := .ofNat 32 (ofBytes (bytes.take 4))
  v1 := .ofNat 32 (ofBytes (bytes.drop 4))
  sum := sum

def storeBlock (s : XTEAState) : List UInt8 := toBytes 4 s.v0.toNat ++ toBytes 4 s.v1.toNat

def encryptBlock (bytes : List UInt8) : List UInt8 :=
  storeBlock ((encryptRound k)^[32] (loadBlock bytes 0))

def decryptBlock (bytes : List UInt8) : List UInt8 :=
  storeBlock ((decryptRound k)^[32] (loadBlock bytes 0xC6EF3720))

@[simp] theorem length_storeBlock (s : XTEAState) : (storeBlock s).length = 8 := by
  simp [storeBlock]

theorem length_encryptBlock (bytes : List UInt8) : (encryptBlock k bytes).length = 8 :=
  length_storeBlock _

theorem length_decryptBlock (bytes : List UInt8) : (decryptBlock k bytes).length = 8 :=
  length_storeBlock _

theorem loadBlock_storeBlock (s : XTEAState) : loadBlock (storeBlock s) s.sum = s := by
  have hword : ∀ v : BitVec 32, BitVec.ofNat 32 (ofBytes (toBytes 4 v.toNat)) = v := by
    intro v
    rw [ofBytes_toBytes_of_lt v.isLt, BitVec.ofNat_toNat, BitVec.setWidth_eq]
  unfold loadBlock storeBlock
  rw [List.take_left' (length_toBytes 4 _), List.drop_left' (length_toBytes 4 _), hword, hword]

theorem storeBlock_loadBlock {bytes : List UInt8} (h : bytes.length = 8) (sum : BitVec 32) :
    storeBlock (loadBlock bytes sum) = bytes := by
  have hword : ∀ bs : List UInt8, bs.length = 4 →
      toBytes 4 (BitVec.ofNat 32 (ofBytes bs)).toNat = bs := by
    intro bs hbs
    have hlt := ofBytes_lt bs
    rw [hbs] at hlt
    rw [BitVec.toNat_ofNat, Nat.mod_eq_of_lt (by omega), ← hbs]
    exact toBytes_ofBytes bs
  unfold storeBlock loadBlock
  rw [hword _ (by simp [h]), hword _ (by simp [h]), List.take_append_drop]

/-- A block that was encrypted is decrypted to what it was. -/
theorem decryptBlock_encryptBlock {bytes : List UInt8} (h : bytes.length = 8) :
    decryptBlock k (encryptBlock k bytes) = bytes := by
  let s := (encryptRound k)^[32] (loadBlock bytes 0)
  have hsum : s.sum = 0xC6EF3720 := by
    have hrounds : (0 : BitVec 32) - (32 : ℕ) * xteaDelta = 0xC6EF3720 := by decide
    exact (sum_iterate_encryptRound k 32 (loadBlock bytes 0)).trans hrounds
  calc decryptBlock k (encryptBlock k bytes)
      = storeBlock ((decryptRound k)^[32] (loadBlock (storeBlock s) s.sum)) := by rw [hsum]; rfl
    _ = storeBlock ((decryptRound k)^[32] s) := by rw [loadBlock_storeBlock]
    _ = storeBlock (loadBlock bytes 0) := by
        rw [(decryptRound_encryptRound k).iterate 32 (loadBlock bytes 0)]
    _ = bytes := storeBlock_loadBlock h 0

end

/-!
## The frame of a packet

On its way out a body gets its length in front of it, is padded and encrypted, and gets a
checksum and the outer length.  The receiver takes the frame off in the opposite order.  The
message is `MAX_BODY_LENGTH` long at most, with room behind it for the padding, but
`addPaddingBytes` asks `canAdd`, for which that room is not there.
-/

/-! ## Checksum -/

/-- The loop of `adlerChecksum`: sums over at most 5552 bytes, then the remainders. -/
def adlerLoop (a b : BitVec 32) (data : List UInt8) : BitVec 32 :=
  if data = [] then b <<< 16 ||| a
  else
    let (a, b) := (data.take 5552).foldl
      (fun (a, b) byte => (a + .ofNat 32 byte.toNat, b + (a + .ofNat 32 byte.toNat))) (a, b)
    adlerLoop (a % 65521) (b % 65521) (data.drop 5552)
  termination_by data.length
  decreasing_by
    have hpos := List.length_pos_iff.mpr ‹data ≠ []›
    rw [List.length_drop]
    omega

def adlerChecksum (data : List UInt8) : BitVec 32 :=
  if data.length > networkMessageMaxSize then 0 else adlerLoop 1 0 data

/-! ## Messages -/

namespace NetworkMessage

def addPaddingBytes (msg : NetworkMessage) (n : ℕ) : NetworkMessage :=
  if msg.canAdd n then
    { msg with
      buffer := store msg.buffer msg.position (List.replicate n 0x33)
      length := (msg.length + n) % 65536 }
  else msg

def canRead (msg : NetworkMessage) (size : ℕ) : Bool :=
  !(msg.position + size > msg.length + 8 || (size : ℤ) ≥ networkMessageMaxSize - msg.position)

/-- `get<T>` of a number of `size` bytes. -/
def get (msg : NetworkMessage) (size : ℕ) : ℕ × NetworkMessage :=
  if msg.canRead size then
    (ofBytes (load msg.buffer msg.position size),
      { msg with position := (msg.position + size) % 65536 })
  else (0, msg)

def decodeHeader (msg : NetworkMessage) : NetworkMessage :=
  { msg with length := (msg.buffer 0).toNat ||| (msg.buffer 1).toNat <<< 8 }

end NetworkMessage

namespace OutputMessage

variable (out : OutputMessage)

/-- `add_header`; the assertion holds for the three headers of a packet. -/
def addHeader (bytes : List UInt8) : OutputMessage :=
  { out with
    outputBufferStart := out.outputBufferStart - bytes.length
    buffer := store out.buffer (out.outputBufferStart - bytes.length) bytes
    length := (out.length + bytes.length) % 65536 }

def writeMessageLength : OutputMessage := out.addHeader (toBytes 2 out.length)

/-- The bytes that go over the wire: `getOutputBuffer`, as many as `getLength` says. -/
def wire : List UInt8 := load out.buffer out.outputBufferStart out.length

def addCryptoHeader (addChecksum : Bool) : OutputMessage :=
  let out := if addChecksum then out.addHeader (toBytes 4 (adlerChecksum out.wire).toNat) else out
  out.writeMessageLength

end OutputMessage

/-! ## Protocol -/

/-- What a `Protocol` frames its packets with. -/
structure Framing where
  key : Fin 4 → BitVec 32
  encryptionEnabled : Bool := false
  checksumEnabled : Bool := true
  rawMessages : Bool := false

namespace Framing

variable (protocol : Framing)

def xteaEncrypt (msg : OutputMessage) : OutputMessage :=
  -- the message must be a multiple of 8
  let paddingBytes := msg.length % 8
  let msg :=
    if paddingBytes ≠ 0 then
      { msg with toNetworkMessage := msg.addPaddingBytes (8 - paddingBytes) }
    else msg
  { msg with
    buffer := mapBlocks (encryptBlock protocol.key) 8 msg.outputBufferStart ((msg.length + 7) / 8)
      msg.buffer }

def xteaDecrypt (msg : NetworkMessage) : Option NetworkMessage :=
  let messageLength : ℤ := msg.length - 6
  if messageLength % 8 ≠ 0 then none
  else
    let buffer := mapBlocks (decryptBlock protocol.key) 8 msg.position
      ((messageLength.toNat + 7) / 8) msg.buffer
    let (innerLength, msg) := NetworkMessage.get { msg with buffer := buffer } 2
    if (innerLength : ℤ) > msg.length - 8 then none else some { msg with length := innerLength }

def onSendMessage (msg : OutputMessage) : OutputMessage :=
  if protocol.rawMessages then msg
  else
    let msg := msg.writeMessageLength
    if protocol.encryptionEnabled then
      (protocol.xteaEncrypt msg).addCryptoHeader protocol.checksumEnabled
    else msg

/-- `onRecvMessage`, as far as the packet that is parsed. -/
def onRecvMessage (msg : NetworkMessage) : Option NetworkMessage :=
  if protocol.encryptionEnabled then protocol.xteaDecrypt msg else some msg

/-- `parsePacket` of a connection: whether the checksum is right, and the packet. -/
def parsePacket (msg : NetworkMessage) : Bool × Option NetworkMessage :=
  let len : ℤ := msg.length - msg.position - 4
  let checksum :=
    if len > 0 then (adlerChecksum (load msg.buffer (msg.position + 4) len.toNat)).toNat else 0
  let (recvChecksum, msg) := msg.get 4
  -- it might not have been the checksum, step back
  let msg := if recvChecksum ≠ checksum then { msg with position := msg.position - 4 } else msg
  (recvChecksum = checksum, protocol.onRecvMessage msg)

/-- A connection reads a packet into its message: two bytes, `parseHeader`, as many bytes as
these say, `parsePacket`. -/
def receive (msg : NetworkMessage) (bytes : List UInt8) : Option (Bool × Option NetworkMessage) :=
  let msg := NetworkMessage.decodeHeader { msg with buffer := store msg.buffer 0 (bytes.take 2) }
  let size := msg.length
  if size = 0 ∨ size ≥ networkMessageMaxSize - 16 ∨ bytes.length < 2 + size then none
  else
    some (protocol.parsePacket
      { length := (size + 2) % 65536
        position := 2
        buffer := store msg.buffer 2 ((bytes.drop 2).take size) })

end Framing

/-! ## Bodies -/

/-- How a body is built: a value is added, or a message of added values is appended. -/
inductive BodyWrite
  | add (bytes : List UInt8)
  | append (values : List (List UInt8))

/-- A message that does not fit the buffer any more gets a new one. -/
def OutputMessage.write (out : OutputMessage) : BodyWrite → OutputMessage
  | .add bytes => { out with toNetworkMessage := out.toNetworkMessage.add bytes }
  | .append values =>
    let msg := ({} : NetworkMessage).adds values
    let out := if out.length + msg.length ≤ maxProtocolBodyLength then out else {}
    out.append msg

/-- What is sent is received, and nothing else is encrypted. -/
structure Framing.RoundTrips (protocol : Framing) (out : OutputMessage) : Prop where
  /-- Whatever the connection has read before. -/
  received : ∀ msg : NetworkMessage, ∃ msg' : NetworkMessage,
    protocol.receive msg (protocol.onSendMessage out).wire = some (true, some msg') ∧
      msg'.body = out.body ∧ msg'.length = out.length ∧ msg'.position = initialBufferPosition
  untouched : ∀ i, (protocol.xteaEncrypt out.writeMessageLength).outputBufferStart +
      (protocol.xteaEncrypt out.writeMessageLength).length ≤ i →
    (protocol.xteaEncrypt out.writeMessageLength).buffer i = out.buffer i

end TibiaServer.Output
