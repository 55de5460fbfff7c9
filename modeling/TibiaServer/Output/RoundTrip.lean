import TibiaServer.Output.Framing
/-!
# Packets arrive as they were sent

Every body up to `MAX_PROTOCOL_BODY_LENGTH` arrives (`roundTrips_iff`).  The one longer body
that `canAdd` lets through is not padded: the cipher runs into what lies behind the message,
and the receiver refuses a length that is no multiple of the block.
-/

namespace TibiaServer.Output

open TibiaServer.Library.Bytes

/-! ## Sending -/

section Sending

variable {out : OutputMessage} {protocol : Framing}

theorem wire_addHeader {bytes : List UInt8} (hroom : bytes.length ≤ out.outputBufferStart)
    (hlength : out.length + bytes.length < 65536) :
    (out.addHeader bytes).wire = bytes ++ out.wire := by
  have hstart : out.outputBufferStart - bytes.length + bytes.length = out.outputBufferStart := by
    omega
  unfold OutputMessage.wire OutputMessage.addHeader
  simp only
  rw [Nat.mod_eq_of_lt hlength, Nat.add_comm out.length, load_store_append, hstart]

/-- The headers of an encrypted packet. -/
theorem wire_addCryptoHeader (hstart : out.outputBufferStart = 6) (hlength : out.length < 65530) :
    (out.addCryptoHeader true).wire =
      toBytes 2 (out.length + 4) ++ (toBytes 4 (adlerChecksum out.wire).toNat ++ out.wire) := by
  have hsum : (toBytes 4 (adlerChecksum out.wire).toNat).length = 4 := length_toBytes ..
  have hlong : (out.length + 4) % 65536 = out.length + 4 := Nat.mod_eq_of_lt (by omega)
  unfold OutputMessage.addCryptoHeader OutputMessage.writeMessageLength
  rw [if_pos rfl, wire_addHeader, wire_addHeader]
  · simp only [OutputMessage.addHeader, hsum, hlong]
  · rw [hsum]
    omega
  · rw [hsum]
    omega
  · simp only [OutputMessage.addHeader, hsum, length_toBytes]
    omega
  · simp only [OutputMessage.addHeader, hsum, hlong, length_toBytes]
    omega

/-- A body that is on its way out: nothing stands in front of it yet. -/
structure OutputMessage.Ready (out : OutputMessage) : Prop extends out.Writing where
  start : out.outputBufferStart = initialBufferPosition

theorem OutputMessage.Ready.length_lt (h : out.Ready) : out.length ≤ maxProtocolBodyLength + 1 := by
  have hposition := h.position_eq
  have hroom := h.room
  have hmax : maxBodyLength = 24576 := rfl
  have hprotocol : maxProtocolBodyLength = 24566 := rfl
  have hinitial : initialBufferPosition = 8 := rfl
  omega

/-- What encryption makes of a body of length `n` with its length in front. -/
structure Encrypted (key : Fin 4 → BitVec 32) (out : OutputMessage) (blocks : ℕ)
    (plain : ℕ → UInt8) (sent : OutputMessage) : Prop where
  start : sent.outputBufferStart = 6
  length : sent.length = 8 * blocks
  buffer : sent.buffer = mapBlocks (encryptBlock key) 8 6 blocks plain
  innerLength : load plain 6 2 = toBytes 2 out.length
  body : Agree 8 out.length plain out.buffer
  behind : ∀ i, 6 + 8 * blocks ≤ i → plain i = out.buffer i

theorem xteaEncrypt_of_multiple {msg : OutputMessage} (h : msg.length % 8 = 0) :
    protocol.xteaEncrypt msg =
      { msg with
        buffer := mapBlocks (encryptBlock protocol.key) 8 msg.outputBufferStart (msg.length / 8)
          msg.buffer } := by
  have hblocks : (msg.length + 7) / 8 = msg.length / 8 := by omega
  unfold Framing.xteaEncrypt
  simp only [h, ne_eq, not_true_eq_false, if_false, hblocks]

theorem xteaEncrypt_of_padding {msg : OutputMessage} {n : ℕ} (h : msg.length % 8 ≠ 0)
    (hn : n = 8 - msg.length % 8) (hcan : n + msg.position < maxBodyLength)
    (hlength : msg.length + n < 65536) :
    protocol.xteaEncrypt msg =
      { msg with
        length := msg.length + n
        buffer := mapBlocks (encryptBlock protocol.key) 8 msg.outputBufferStart
          ((msg.length + n) / 8) (store msg.buffer msg.position (List.replicate n 0x33)) } := by
  have hpadded : msg.addPaddingBytes n =
      { msg.toNetworkMessage with
        buffer := store msg.buffer msg.position (List.replicate n 0x33)
        length := msg.length + n } := by
    unfold NetworkMessage.addPaddingBytes NetworkMessage.canAdd
    rw [if_pos (decide_eq_true hcan), Nat.mod_eq_of_lt hlength]
  have hblocks : (msg.length + n + 7) / 8 = (msg.length + n) / 8 := by omega
  unfold Framing.xteaEncrypt
  simp only [← hn, hpadded, h, ne_eq, not_false_eq_true, if_true, hblocks]

/-- Where there is no room for the padding the message stays as long as it is. -/
theorem length_xteaEncrypt_of_full {msg : OutputMessage}
    (hfull : maxBodyLength ≤ 8 - msg.length % 8 + msg.position) :
    (protocol.xteaEncrypt msg).length = msg.length := by
  unfold Framing.xteaEncrypt NetworkMessage.addPaddingBytes NetworkMessage.canAdd
  simp only [Nat.not_lt.mpr hfull, decide_false, Bool.false_eq_true, if_false, ite_self]

theorem exists_encrypted (protocol : Framing) (h : out.Ready) (hfits : out.length ≤ maxProtocolBodyLength) :
    ∃ blocks plain, out.length + 2 ≤ 8 * blocks ∧ 8 * blocks ≤ maxProtocolBodyLength + 2 ∧
      Encrypted protocol.key out blocks plain (protocol.xteaEncrypt out.writeMessageLength) := by
  have hmax : maxBodyLength = 24576 := rfl
  have hprotocol : maxProtocolBodyLength = 24566 := rfl
  have hinitial : initialBufferPosition = 8 := rfl
  have hposition := h.position_eq
  have hstart := h.start
  let plain := store out.buffer 6 (toBytes 2 out.length)
  have hheader : out.writeMessageLength =
      { out with outputBufferStart := 6, buffer := plain, length := out.length + 2 } := by
    unfold OutputMessage.writeMessageLength OutputMessage.addHeader
    simp only [length_toBytes, hstart, hinitial]
    rw [Nat.mod_eq_of_lt (by omega)]
  have hinner : load plain 6 2 = toBytes 2 out.length := by
    have hself := load_store_self out.buffer 6 (toBytes 2 out.length)
    rwa [length_toBytes] at hself
  have hbehind : ∀ i, 8 ≤ i → plain i = out.buffer i := by
    intro i hi
    exact store_of_le (by rw [length_toBytes]; omega)
  rw [hheader]
  by_cases hmultiple : (out.length + 2) % 8 = 0
  · refine ⟨(out.length + 2) / 8, plain, by omega, by omega, ?_⟩
    rw [xteaEncrypt_of_multiple hmultiple]
    exact ⟨rfl, by simp only; omega, rfl, hinner, fun i hi _ => hbehind i hi,
      fun i hi => hbehind i (by omega)⟩
  · let n := 8 - (out.length + 2) % 8
    have hpadding : (List.replicate n (0x33 : UInt8)).length = n := List.length_replicate
    have hinner' : load (store plain out.position (List.replicate n 0x33)) 6 2 = load plain 6 2 :=
      (agree_store_of_disjoint (.inl (by omega))).load
    refine ⟨(out.length + 2 + n) / 8, store plain out.position (List.replicate n 0x33),
      by omega, by omega, ?_⟩
    rw [xteaEncrypt_of_padding hmultiple rfl (by simp only; omega) (by simp only; omega)]
    refine ⟨rfl, by simp only; omega, rfl, hinner'.trans hinner, fun i hi hlt => ?_,
      fun i hi => ?_⟩
    · rw [store_of_lt (by omega)]
      exact hbehind i hi
    · rw [store_of_le (by omega)]
      exact hbehind i (by omega)

end Sending

/-! ## Receiving -/

section Receiving

variable {protocol : Framing}

theorem get_of_canRead {msg : NetworkMessage} {size : ℕ} {bytes : List UInt8}
    (hposition : msg.position + size ≤ msg.length + 8) (hsize : msg.position + size < 24590)
    (hload : load msg.buffer msg.position size = bytes) :
    msg.get size = (ofBytes bytes, { msg with position := msg.position + size }) := by
  have hmax : networkMessageMaxSize = 24590 := rfl
  have hcan : msg.canRead size = true := by
    unfold NetworkMessage.canRead
    simp only [Bool.not_eq_true', Bool.or_eq_false_iff, decide_eq_false_iff_not, hmax]
    omega
  unfold NetworkMessage.get
  rw [if_pos hcan, hload, Nat.mod_eq_of_lt (by omega)]

theorem decodeHeader_of_load {msg : NetworkMessage} {n : ℕ}
    (hload : load msg.buffer 0 2 = toBytes 2 n) (hn : n < 65536) :
    msg.decodeHeader = { msg with length := n } := by
  have hlow : msg.buffer 0 = UInt8.ofNat n := (List.cons.inj hload).1
  have hhigh : msg.buffer 1 = UInt8.ofNat (n / 256) := (List.cons.inj (List.cons.inj hload).2).1
  have hvalue : (msg.buffer 0).toNat ||| (msg.buffer 1).toNat <<< 8 = n := by
    rw [hlow, hhigh, UInt8.toNat_ofNat', UInt8.toNat_ofNat', Nat.or_comm,
      ← Nat.shiftLeft_add_eq_or_of_lt (Nat.mod_lt _ (by decide)), Nat.shiftLeft_eq]
    omega
  unfold NetworkMessage.decodeHeader
  rw [hvalue]

/-- What the outer length announces is read as a whole. -/
theorem receive_content (protocol : Framing) {content : List UInt8} (hpos : 0 < content.length)
    (hlength : content.length < networkMessageMaxSize - 16) (msg : NetworkMessage) :
    protocol.receive msg (toBytes 2 content.length ++ content) =
      some (protocol.parsePacket
        { length := content.length + 2
          position := 2
          buffer := store (store msg.buffer 0 (toBytes 2 content.length)) 2 content }) := by
  have hmax : networkMessageMaxSize = 24590 := rfl
  have htake : (toBytes 2 content.length ++ content).take 2 = toBytes 2 content.length :=
    List.take_left' (length_toBytes ..)
  have hdrop : ((toBytes 2 content.length ++ content).drop 2).take content.length = content := by
    rw [List.drop_left' (length_toBytes ..), List.take_length]
  let first := store msg.buffer 0 (toBytes 2 content.length)
  have hfirst : load first 0 2 = toBytes 2 content.length := by
    have hself := load_store_self msg.buffer 0 (toBytes 2 content.length)
    rwa [length_toBytes] at hself
  have hheader : NetworkMessage.decodeHeader { msg with buffer := first } =
      { msg with buffer := first, length := content.length } :=
    decodeHeader_of_load hfirst (by omega)
  have hlong : (toBytes 2 content.length ++ content).length = 2 + content.length := by
    rw [List.length_append, length_toBytes]
  unfold Framing.receive
  rw [htake, hheader]
  simp only [hdrop]
  rw [if_neg (by omega), Nat.mod_eq_of_lt (by omega)]

/-- A packet with the right checksum reaches the protocol behind its headers. -/
theorem receive_checked (protocol : Framing) {body : List UInt8} (hpos : 0 < body.length)
    (hlength : body.length + 4 < networkMessageMaxSize - 16) (msg : NetworkMessage) :
    ∃ buffer, load buffer 6 body.length = body ∧
      protocol.receive msg (toBytes 2 (body.length + 4) ++
          (toBytes 4 (adlerChecksum body).toNat ++ body)) =
        some (true,
          protocol.onRecvMessage { length := body.length + 6, position := 6, buffer := buffer }) := by
  have hmax : networkMessageMaxSize = 24590 := rfl
  obtain ⟨content, hcontent⟩ : ∃ content, toBytes 4 (adlerChecksum body).toNat ++ body = content :=
    ⟨_, rfl⟩
  have hcontentLength : content.length = body.length + 4 := by
    rw [← hcontent, List.length_append, length_toBytes, Nat.add_comm]
  have hreceive := receive_content protocol (by omega : 0 < content.length) (by omega) msg
  obtain ⟨first, hfirst⟩ : ∃ first, store msg.buffer 0 (toBytes 2 content.length) = first :=
    ⟨_, rfl⟩
  rw [hfirst, hcontentLength] at hreceive
  rw [hcontent, hreceive]
  obtain ⟨buffer, hstored⟩ : ∃ buffer, store first 2 content = buffer := ⟨_, rfl⟩
  have hbuffer : load buffer 2 4 ++ load buffer 6 body.length =
      toBytes 4 (adlerChecksum body).toNat ++ body := by
    rw [← load_add, Nat.add_comm 4, ← hcontentLength, hcontent, ← hstored]
    exact load_store_self first 2 content
  have hsplit := List.append_inj hbuffer (by rw [length_load, length_toBytes])
  have hread : (⟨body.length + 6, 2, buffer⟩ : NetworkMessage).get 4 =
      ((adlerChecksum body).toNat, ⟨body.length + 6, 6, buffer⟩) := by
    rw [get_of_canRead (by simp only; omega) (by simp only; omega) hsplit.1,
      ofBytes_toBytes_of_lt (adlerChecksum body).isLt]
  refine ⟨buffer, hsplit.2, ?_⟩
  have hlen : ((body.length + 6 : ℕ) : ℤ) - (2 : ℕ) - 4 = body.length := by omega
  rw [hstored]
  unfold Framing.parsePacket
  simp only [hlen, hread, Int.toNat_natCast, hsplit.2]
  rw [if_pos (by omega)]
  simp

theorem receive_frame (hencryption : protocol.encryptionEnabled = true) {body : List UInt8}
    (hpos : 0 < body.length) (hlength : body.length + 4 < networkMessageMaxSize - 16)
    (msg : NetworkMessage) :
    ∃ buffer, load buffer 6 body.length = body ∧
      protocol.receive msg (toBytes 2 (body.length + 4) ++
          (toBytes 4 (adlerChecksum body).toNat ++ body)) =
        some (true,
          protocol.xteaDecrypt { length := body.length + 6, position := 6, buffer := buffer }) := by
  obtain ⟨buffer, hload, hreceive⟩ := receive_checked protocol hpos hlength msg
  rw [Framing.onRecvMessage, if_pos hencryption] at hreceive
  exact ⟨buffer, hload, hreceive⟩

/-- The inner packet comes out of the cipher as it went in. -/
theorem xteaDecrypt_encrypted {out sent : OutputMessage} {blocks : ℕ} {plain buffer : ℕ → UInt8}
    (h : Encrypted protocol.key out blocks plain sent) (hfits : out.length + 2 ≤ 8 * blocks)
    (hblocks : 8 * blocks ≤ maxProtocolBodyLength + 2)
    (hbuffer : Agree 6 (8 * blocks) buffer sent.buffer) :
    ∃ msg : NetworkMessage,
      protocol.xteaDecrypt { length := 8 * blocks + 6, position := 6, buffer := buffer } =
        some msg ∧ msg.body = out.body ∧ msg.length = out.length ∧
        msg.position = initialBufferPosition := by
  have hprotocol : maxProtocolBodyLength = 24566 := rfl
  have hencrypt : ∀ bs, bs.length = 8 → (encryptBlock protocol.key bs).length = 8 :=
    fun bs _ => length_encryptBlock protocol.key bs
  have hdecrypt : ∀ bs, bs.length = 8 → (decryptBlock protocol.key bs).length = 8 :=
    fun bs _ => length_decryptBlock protocol.key bs
  obtain ⟨decrypted, hdecrypted⟩ :
      ∃ decrypted, mapBlocks (decryptBlock protocol.key) 8 6 blocks buffer = decrypted := ⟨_, rfl⟩
  have hplain : Agree 6 (8 * blocks) decrypted plain := by
    rw [h.buffer] at hbuffer
    rw [← hdecrypted]
    exact agree_mapBlocks_inverse hencrypt hdecrypt
      (fun bs hbs => decryptBlock_encryptBlock protocol.key hbs) hbuffer
  have hinner : load decrypted 6 2 = toBytes 2 out.length :=
    (hplain.mono (Nat.le_refl _) (by omega)).load.trans h.innerLength
  have hbody : load decrypted 8 out.length = load out.buffer 8 out.length :=
    (hplain.mono (by omega) (by omega)).load.trans h.body.load
  refine ⟨⟨out.length, 8, decrypted⟩, ?_, hbody, rfl, rfl⟩
  have hmultiple : ((8 * blocks + 6 : ℕ) : ℤ) - 6 = ((8 * blocks : ℕ) : ℤ) := by omega
  have hcount : (8 * blocks + 7) / 8 = blocks := by omega
  have hread : (⟨8 * blocks + 6, 6, decrypted⟩ : NetworkMessage).get 2 =
      (out.length, ⟨8 * blocks + 6, 8, decrypted⟩) := by
    rw [get_of_canRead (by simp only; omega) (by simp only; omega) hinner,
      ofBytes_toBytes_of_lt (by omega)]
  unfold Framing.xteaDecrypt
  simp only [hmultiple, Int.toNat_natCast, hcount, hdecrypted]
  rw [if_neg (by omega), hread]
  simp only
  rw [if_neg (by omega)]

/-- A length that is no multiple of the block is refused. -/
theorem xteaDecrypt_of_length {msg : NetworkMessage} {n : ℕ} (hlength : msg.length = n + 6)
    (hn : n % 8 ≠ 0) : protocol.xteaDecrypt msg = none := by
  unfold Framing.xteaDecrypt
  simp only
  rw [if_pos (by omega)]

end Receiving

/-! ## Bodies that are built -/

section Built

variable {out : OutputMessage}

theorem OutputMessage.Ready.append (h : out.Ready) {msg : NetworkMessage}
    (hroom : initialBufferPosition + (out.length + msg.length) < maxBodyLength) :
    (out.append msg).Ready where
  position_eq := by
    have hposition := h.position_eq
    have hmax : maxBodyLength = 24576 := rfl
    have hinitial : initialBufferPosition = 8 := rfl
    show (out.position + msg.length) % 65536 =
      initialBufferPosition + (out.length + msg.length) % 65536
    omega
  room := by
    have hposition := h.position_eq
    show (out.position + msg.length) % 65536 < maxBodyLength
    have hmax : maxBodyLength = 24576 := rfl
    omega
  start := h.start

theorem ready_empty : ({} : OutputMessage).Ready where
  toWriting := NetworkMessage.writing_empty
  start := rfl

theorem OutputMessage.Ready.write (h : out.Ready) (w : BodyWrite) : (out.write w).Ready := by
  have hmax : maxBodyLength = 24576 := rfl
  have hprotocol : maxProtocolBodyLength = 24566 := rfl
  have hinitial : initialBufferPosition = 8 := rfl
  cases w with
  | add bytes => exact { toWriting := h.toWriting.add bytes, start := h.start }
  | append values =>
    have hmsg := NetworkMessage.writing_empty.adds values
    have hposition := hmsg.position_eq
    have hroom := hmsg.room
    unfold OutputMessage.write
    simp only
    split
    · exact h.append (by omega)
    · have hempty : ({} : OutputMessage).length = 0 := rfl
      exact ready_empty.append (by omega)

theorem ready_writes (writes : List BodyWrite) (h : out.Ready) :
    (writes.foldl OutputMessage.write out).Ready := by
  induction writes generalizing out with
  | nil => exact h
  | cons w writes ih => exact ih (h.write w)

end Built

/-! ## Round trips -/

theorem outputBufferStart_xteaEncrypt (protocol : Framing) (msg : OutputMessage) :
    (protocol.xteaEncrypt msg).outputBufferStart = msg.outputBufferStart := by
  unfold Framing.xteaEncrypt
  simp only
  split_ifs <;> rfl

section RoundTrips

variable {protocol : Framing} {out : OutputMessage}

theorem wire_onSendMessage (hencryption : protocol.encryptionEnabled = true)
    (hchecksum : protocol.checksumEnabled = true) (hraw : protocol.rawMessages = false)
    (h : out.Ready)
    (hlength : (protocol.xteaEncrypt out.writeMessageLength).length < 65530) :
    (protocol.onSendMessage out).wire =
      toBytes 2 ((protocol.xteaEncrypt out.writeMessageLength).wire.length + 4) ++
        (toBytes 4 (adlerChecksum (protocol.xteaEncrypt out.writeMessageLength).wire).toNat ++
          (protocol.xteaEncrypt out.writeMessageLength).wire) := by
  have hstart : (protocol.xteaEncrypt out.writeMessageLength).outputBufferStart = 6 := by
    rw [outputBufferStart_xteaEncrypt]
    unfold OutputMessage.writeMessageLength OutputMessage.addHeader
    rw [h.start, length_toBytes]
    rfl
  have hwire : (protocol.xteaEncrypt out.writeMessageLength).wire.length =
      (protocol.xteaEncrypt out.writeMessageLength).length := length_load ..
  unfold Framing.onSendMessage
  simp only [hraw, hencryption, hchecksum, Bool.false_eq_true, if_false, if_true]
  rw [wire_addCryptoHeader hstart hlength, hwire]

theorem roundTrips_of_fits (hencryption : protocol.encryptionEnabled = true)
    (hchecksum : protocol.checksumEnabled = true) (hraw : protocol.rawMessages = false)
    (h : out.Ready) (hfits : out.length ≤ maxProtocolBodyLength) : protocol.RoundTrips out := by
  have hmax : networkMessageMaxSize = 24590 := rfl
  have hprotocol : maxProtocolBodyLength = 24566 := rfl
  obtain ⟨blocks, plain, hlength, hblocks, hencrypted⟩ := exists_encrypted protocol h hfits
  have hwire : (protocol.xteaEncrypt out.writeMessageLength).wire.length = 8 * blocks :=
    (length_load ..).trans hencrypted.length
  constructor
  · intro msg
    obtain ⟨buffer, hbuffer, hreceive⟩ := receive_frame hencryption
      (by omega : 0 < (protocol.xteaEncrypt out.writeMessageLength).wire.length) (by omega) msg
    have hagree : Agree 6 (8 * blocks) buffer
        (protocol.xteaEncrypt out.writeMessageLength).buffer := by
      rw [← load_eq_iff, ← hwire, hbuffer, OutputMessage.wire, hencrypted.start, length_load]
    obtain ⟨msg', hdecrypt, hspec⟩ := xteaDecrypt_encrypted hencrypted hlength hblocks hagree
    refine ⟨msg', ?_, hspec⟩
    rw [wire_onSendMessage hencryption hchecksum hraw h (by rw [hencrypted.length]; omega),
      hreceive, hwire, hdecrypt]
  · intro i hi
    rw [hencrypted.start, hencrypted.length] at hi
    have hblock : ∀ bs, bs.length = 8 → (encryptBlock protocol.key bs).length = 8 :=
      fun bs _ => length_encryptBlock protocol.key bs
    rw [hencrypted.buffer, mapBlocks_outside hblock _ (.inr hi)]
    exact hencrypted.behind i hi

theorem not_roundTrips_of_full (hencryption : protocol.encryptionEnabled = true)
    (hchecksum : protocol.checksumEnabled = true) (hraw : protocol.rawMessages = false)
    (h : out.Ready) (hfull : maxProtocolBodyLength < out.length) : ¬protocol.RoundTrips out := by
  have hmax : networkMessageMaxSize = 24590 := rfl
  have hbody : maxBodyLength = 24576 := rfl
  have hprotocol : maxProtocolBodyLength = 24566 := rfl
  have hinitial : initialBufferPosition = 8 := rfl
  have hexact : out.length = 24567 := by
    have hlt := h.length_lt
    omega
  have hposition : out.writeMessageLength.position = out.position := rfl
  have hheader : out.writeMessageLength.length = 24569 := by
    unfold OutputMessage.writeMessageLength OutputMessage.addHeader
    rw [length_toBytes, hexact]
  have hlength : (protocol.xteaEncrypt out.writeMessageLength).length = 24569 := by
    have hwriting := h.position_eq
    rw [length_xteaEncrypt_of_full (by omega), hheader]
  have hwire : (protocol.xteaEncrypt out.writeMessageLength).wire.length = 24569 :=
    (length_load ..).trans hlength
  intro hround
  obtain ⟨msg', hreceived, -⟩ := hround.received {}
  obtain ⟨buffer, -, hreceive⟩ := receive_frame hencryption
    (by omega : 0 < (protocol.xteaEncrypt out.writeMessageLength).wire.length) (by omega) {}
  rw [wire_onSendMessage hencryption hchecksum hraw h (by omega), hreceive,
    xteaDecrypt_of_length rfl (by omega)] at hreceived
  exact nomatch hreceived

end RoundTrips

/-- With encryption and checksum, every body that the add functions can build arrives as it
was sent, exactly as long as it is no longer than `MAX_PROTOCOL_BODY_LENGTH`. -/
theorem Framing.roundTrips_iff (key : Fin 4 → BitVec 32) (writes : List BodyWrite) :
    Framing.RoundTrips { key := key, encryptionEnabled := true }
        (writes.foldl OutputMessage.write {}) ↔
      (writes.foldl OutputMessage.write {}).length ≤ maxProtocolBodyLength := by
  have hready := ready_writes writes ready_empty
  constructor
  · intro h
    by_contra hfull
    exact not_roundTrips_of_full rfl rfl rfl hready (Nat.lt_of_not_le hfull) h
  · exact fun hfits => roundTrips_of_fits rfl rfl rfl hready hfits

/-- Three values of 8189 bytes make the longest body that can be built. -/
theorem Framing.longest_body_refused :
    let zeros : List UInt8 := List.replicate 8189 0
    ¬Framing.RoundTrips { key := fun _ => 0, encryptionEnabled := true }
      ([.add zeros, .add zeros, .add zeros].foldl OutputMessage.write {}) := by
  intro zeros
  have hzeros : zeros.length = 8189 := List.length_replicate
  apply not_roundTrips_of_full rfl rfl rfl (ready_writes _ ready_empty)
  simp [OutputMessage.write, NetworkMessage.add, NetworkMessage.canAdd, hzeros,
    initialBufferPosition, maxProtocolBodyLength, maxBodyLength, networkMessageMaxSize]

end TibiaServer.Output
