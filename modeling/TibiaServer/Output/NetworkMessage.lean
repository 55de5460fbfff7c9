import Mathlib.Data.List.Basic
import Mathlib.Data.List.GetD
/-!
# Network messages and output messages

`NetworkMessage` is a fixed array with a write position and a length; the body
of a message starts behind eight reserved header bytes.  `OutputMessage.append`
copies the body of another message to the write position without a bound check,
so the module keeps the memory view (`memcpy` on a byte function) and relates it
to the list of body bytes.
-/

namespace TibiaServer.Output

/-- `NETWORKMESSAGE_MAXSIZE`. -/
def networkMessageMaxSize : Nat := 24590

/-- `NetworkMessage::INITIAL_BUFFER_POSITION`. -/
def initialBufferPosition : Nat := 8

/-- `NetworkMessage::MAX_BODY_LENGTH`: the header length, the checksum length
and one XTEA block are left free. -/
def maxBodyLength : Nat := networkMessageMaxSize - 2 - 4 - 8

/-- `NetworkMessage::MAX_PROTOCOL_BODY_LENGTH`. -/
def maxProtocolBodyLength : Nat := maxBodyLength - 10

/-- The `info` record and the byte array of a `NetworkMessage`. -/
structure NetworkMessage where
  length : Nat := 0
  position : Nat := initialBufferPosition
  buffer : Nat → UInt8 := fun _ => 0

/-- Copy `n` bytes of `src` from `srcPos` over `dst` at `dstPos`. -/
def memcpy (dst : Nat → UInt8) (dstPos : Nat) (src : Nat → UInt8)
    (srcPos n : Nat) : Nat → UInt8 :=
  fun i => if dstPos ≤ i ∧ i < dstPos + n then src (srcPos + (i - dstPos)) else dst i

namespace NetworkMessage

/-- The bytes behind the reserved header, as many as `getLength` says. -/
def body (msg : NetworkMessage) : List UInt8 :=
  (List.range msg.length).map fun i => msg.buffer (initialBufferPosition + i)

@[simp] theorem length_body (msg : NetworkMessage) : msg.body.length = msg.length := by
  simp [body]

@[simp] theorem body_empty : ({} : NetworkMessage).body = [] := rfl

/-- A message that one `OutputMessage` can hold. -/
def Fits (msg : NetworkMessage) : Prop :=
  initialBufferPosition + msg.length ≤ networkMessageMaxSize

end NetworkMessage

/-- `OutputMessage`; its headers are put in front of the body when it leaves the
server. -/
structure OutputMessage extends NetworkMessage where
  isBroadcastMesssage : Bool := false
  outputBufferStart : Nat := initialBufferPosition

namespace OutputMessage

def setBroadcastMsg (out : OutputMessage) (isBroadcastMesssage : Bool) : OutputMessage :=
  { out with isBroadcastMesssage := isBroadcastMesssage }

/-- `OutputMessage::append`; `MsgSize_t` is 16 bits wide. -/
def append (out : OutputMessage) (msg : NetworkMessage) : OutputMessage :=
  { out with
    buffer := memcpy out.buffer out.position msg.buffer initialBufferPosition msg.length
    length := (out.length + msg.length) % 65536
    position := (out.position + msg.length) % 65536 }

/-- The write position stands right behind the body, inside the array. -/
structure WellFormed (out : OutputMessage) : Prop where
  position_eq : out.position = initialBufferPosition + out.length
  fits : out.Fits

theorem wellFormed_empty : ({} : OutputMessage).WellFormed :=
  ⟨rfl, by simp [NetworkMessage.Fits, initialBufferPosition, networkMessageMaxSize]⟩

theorem WellFormed.setBroadcastMsg {out : OutputMessage} (h : out.WellFormed) (b : Bool) :
    (out.setBroadcastMsg b).WellFormed :=
  ⟨h.position_eq, h.fits⟩

/-- The room that `append` needs; with it the copy stays inside the array and
neither 16-bit counter wraps. -/
def HasRoom (out : OutputMessage) (msg : NetworkMessage) : Prop :=
  initialBufferPosition + out.length + msg.length ≤ networkMessageMaxSize

theorem WellFormed.append {out : OutputMessage} {msg : NetworkMessage}
    (h : out.WellFormed) (hroom : out.HasRoom msg) : (out.append msg).WellFormed := by
  obtain ⟨hpos, -⟩ := h
  simp only [HasRoom, initialBufferPosition, networkMessageMaxSize] at hroom hpos
  constructor
  · simp only [OutputMessage.append, initialBufferPosition]
    omega
  · simp only [NetworkMessage.Fits, OutputMessage.append, initialBufferPosition,
      networkMessageMaxSize]
    omega

/-- Appending to a well-formed message appends to its body. -/
theorem body_append {out : OutputMessage} {msg : NetworkMessage}
    (h : out.WellFormed) (hroom : out.HasRoom msg) :
    (out.append msg).body = out.body ++ msg.body := by
  obtain ⟨hpos, -⟩ := h
  simp only [HasRoom, initialBufferPosition, networkMessageMaxSize] at hroom hpos
  have hlen : (out.length + msg.length) % 65536 = out.length + msg.length :=
    Nat.mod_eq_of_lt (by omega)
  simp only [NetworkMessage.body, OutputMessage.append, hlen, hpos, memcpy,
    initialBufferPosition]
  rw [List.range_add, List.map_append, List.map_map]
  congr 1
  · apply List.map_congr_left
    intro i hi
    have hi : i < out.length := by simpa using hi
    rw [if_neg (by omega)]
  · apply List.map_congr_left
    intro i hi
    have hi : i < msg.length := by simpa using hi
    simp only [Function.comp_apply]
    rw [if_pos (by omega)]
    congr 1
    omega

end OutputMessage

/-!
## Writing to a message

The `add` functions of a message write a value as a whole, or not at all where the
message has no room for it.
-/
namespace NetworkMessage

def canAdd (msg : NetworkMessage) (size : ℕ) : Bool := size + msg.position < maxBodyLength

/-- `addByte`, `add` or `addString`: the bytes of one value. -/
def add (msg : NetworkMessage) (bytes : List UInt8) : NetworkMessage :=
  if msg.canAdd bytes.length then
    { length := (msg.length + bytes.length) % 65536
      position := (msg.position + bytes.length) % 65536
      buffer := memcpy msg.buffer msg.position (bytes.getD · 0) 0 bytes.length }
  else msg

/-- Several values, one after the other. -/
def adds (msg : NetworkMessage) (values : List (List UInt8)) : NetworkMessage :=
  values.foldl add msg

/-- A message that is being written stands behind its body, within the limit. -/
structure Writing (msg : NetworkMessage) : Prop where
  position_eq : msg.position = initialBufferPosition + msg.length
  room : msg.position < maxBodyLength

theorem writing_empty : ({} : NetworkMessage).Writing := ⟨rfl, by decide⟩

variable {msg : NetworkMessage}

theorem Writing.add (h : msg.Writing) (bytes : List UInt8) : (msg.add bytes).Writing := by
  obtain ⟨hposition, hroom⟩ := h
  unfold NetworkMessage.add canAdd
  split
  next hfits =>
    simp only [decide_eq_true_eq] at hfits
    have hmax : maxBodyLength = 24576 := rfl
    constructor
    · simp only [initialBufferPosition] at *
      omega
    · simp only
      omega
  next => exact ⟨hposition, hroom⟩

theorem Writing.adds (h : msg.Writing) (values : List (List UInt8)) : (msg.adds values).Writing := by
  induction values generalizing msg with
  | nil => exact h
  | cons bytes values ih => exact ih (h.add bytes)

/-- A value that the message has room for goes behind its body. -/
theorem body_add (h : msg.Writing) {bytes : List UInt8}
    (hfits : bytes.length + msg.position < maxBodyLength) :
    (msg.add bytes).body = msg.body ++ bytes ∧
      (msg.add bytes).position = msg.position + bytes.length := by
  obtain ⟨hposition, -⟩ := h
  have hmax : maxBodyLength = 24576 := rfl
  simp only [initialBufferPosition] at hposition
  have hlength : (msg.length + bytes.length) % 65536 = msg.length + bytes.length :=
    Nat.mod_eq_of_lt (by omega)
  unfold add canAdd
  rw [if_pos (by simpa using hfits)]
  constructor
  · simp only [body, hlength, hposition, memcpy, initialBufferPosition]
    rw [List.range_add, List.map_append, List.map_map]
    congr 1
    · apply List.map_congr_left
      intro i hi
      have hi : i < msg.length := by simpa using hi
      rw [if_neg (by omega)]
    · apply List.ext_getElem
      · simp
      · intro i hi hbytes
        simp only [List.getElem_map, List.getElem_range, Function.comp_apply]
        rw [if_pos (by omega)]
        have hshift : 0 + (8 + (msg.length + i) - (8 + msg.length)) = i := by omega
        rw [hshift]
        exact List.getD_eq_getElem bytes 0 hbytes
  · simp only
    omega

theorem body_adds (h : msg.Writing) {values : List (List UInt8)}
    (hfits : values.flatten.length + msg.position < maxBodyLength) :
    (msg.adds values).body = msg.body ++ values.flatten := by
  induction values generalizing msg with
  | nil => simp [adds]
  | cons bytes values ih =>
    rw [List.flatten_cons, List.length_append] at hfits
    obtain ⟨hbody, hposition⟩ := body_add h (show bytes.length + msg.position < _ by omega)
    calc ((msg.add bytes).adds values).body
        = (msg.add bytes).body ++ values.flatten := ih (h.add bytes) (by omega)
      _ = msg.body ++ (bytes :: values).flatten := by
          rw [hbody, List.append_assoc, List.flatten_cons]

end NetworkMessage

end TibiaServer.Output
