import Mathlib.Data.List.Induction
import Mathlib.Tactic.IntervalCases
import TibiaServer.Library.SHA1
/-!
# The hash of passwords

`transformToSHA1` takes the input byte by byte into a block of 64 bytes, which is processed
whenever it is full, and pads the last one or two blocks in place.
-/

namespace TibiaServer.Login

open Library

def circularShift (bits value : UInt32) : UInt32 := (value <<< bits) ||| (value >>> (32 - bits))

/-- The array `W`, written from its first word to its last. -/
def messageWords (messageBlock : List UInt8) : List UInt32 :=
  let W := (List.range 16).map fun i =>
    let offset := i <<< 2
    (messageBlock.getD offset 0).toUInt32 <<< 24 |||
      (messageBlock.getD (offset + 1) 0).toUInt32 <<< 16 |||
      (messageBlock.getD (offset + 2) 0).toUInt32 <<< 8 |||
      (messageBlock.getD (offset + 3) 0).toUInt32
  (List.range' 16 64).foldl (fun W i =>
    W ++ [circularShift 1 (W.getD (i - 3) 0 ^^^ W.getD (i - 8) 0 ^^^ W.getD (i - 14) 0 ^^^
      W.getD (i - 16) 0)]) W

/-- One of the four loops over 20 rounds, with its function of `B`, `C` and `D` and its constant. -/
def rounds (mix : SHA1.Words → UInt32) (constant : UInt32) (W : List UInt32) (first : ℕ)
    (v : SHA1.Words) : SHA1.Words :=
  (List.range' first 20).foldl (fun v i =>
    let tmp := circularShift 5 v.a + mix v + v.e + W.getD i 0 + constant
    ⟨tmp, v.a, circularShift 30 v.b, v.c, v.d⟩) v

def processSHA1MessageBlock (messageBlock : List UInt8) (H : SHA1.Words) : SHA1.Words :=
  let W := messageWords messageBlock
  let v := rounds (fun v => (v.b &&& v.c) ||| (~~~v.b &&& v.d)) 0x5A827999 W 0 H
  let v := rounds (fun v => v.b ^^^ v.c ^^^ v.d) 0x6ED9EBA1 W 20 v
  let v := rounds (fun v => (v.b &&& v.c) ||| (v.b &&& v.d) ||| (v.c &&& v.d)) 0x8F1BBCDC W 40 v
  let v := rounds (fun v => v.b ^^^ v.c ^^^ v.d) 0xCA62C1D6 W 60 v
  ⟨H.a + v.a, H.b + v.b, H.c + v.c, H.d + v.d, H.e + v.e⟩

/-- The variables of `transformToSHA1`. -/
structure Hashing where
  H : SHA1.Words := ⟨0x67452301, 0xEFCDAB89, 0x98BADCFE, 0x10325476, 0xC3D2E1F0⟩
  messageBlock : List UInt8 := List.replicate 64 0
  index : ℕ := 0
  length_low : UInt32 := 0
  length_high : UInt32 := 0

namespace Hashing

/-- `messageBlock[i] = byte`. -/
def write (s : Hashing) (i : ℕ) (byte : UInt8) : Hashing :=
  { s with messageBlock := s.messageBlock.set i byte }

/-- `messageBlock[index++] = byte`. -/
def put (s : Hashing) (byte : UInt8) : Hashing :=
  { s.write s.index byte with index := s.index + 1 }

def processBlock (s : Hashing) : Hashing :=
  { s with H := processSHA1MessageBlock s.messageBlock s.H, index := 0 }

/-- Another byte counts 8 bits. -/
def count (s : Hashing) : Hashing :=
  let s := { s with length_low := s.length_low + 8 }
  if s.length_low = 0 then { s with length_high := s.length_high + 1 } else s

/-- The body of the loop over the input. -/
def take (s : Hashing) (ch : UInt8) : Hashing :=
  let s := (s.put ch).count
  if s.index = 64 then s.processBlock else s

/-- `while (index < stop) messageBlock[index++] = 0`. -/
def fillTo (stop : ℕ) (s : Hashing) : Hashing :=
  (List.range (stop - s.index)).foldl (fun s _ => s.put 0) s

def writeLength (s : Hashing) : Hashing :=
  let s := s.write 56 (s.length_high >>> 24).toUInt8
  let s := s.write 57 (s.length_high >>> 16).toUInt8
  let s := s.write 58 (s.length_high >>> 8).toUInt8
  let s := s.write 59 s.length_high.toUInt8
  let s := s.write 60 (s.length_low >>> 24).toUInt8
  let s := s.write 61 (s.length_low >>> 16).toUInt8
  let s := s.write 62 (s.length_low >>> 8).toUInt8
  s.write 63 s.length_low.toUInt8

/-- What follows the loop over the input. -/
def finish (s : Hashing) : Hashing :=
  let s := s.put 0x80
  let s := if s.index > 56 then (s.fillTo 64).processBlock else s
  (s.fillTo 56).writeLength.processBlock

end Hashing

/-- The words as the array `H`. -/
def wordAt (H : SHA1.Words) (i : ℕ) : UInt32 := [H.a, H.b, H.c, H.d, H.e].getD i 0

def hexDigits : List Char := "0123456789abcdef".toList

def hashByteAt (H : SHA1.Words) (hashByte : ℕ) : UInt8 :=
  let shift := ((3 - (hashByte : ℤ)) % 4).toNat <<< 3
  (wordAt H (hashByte >>> 2) >>> UInt32.ofNat shift).toUInt8

/-- The loop runs from the last byte of the hash to the first. -/
def hexString (H : SHA1.Words) : List Char :=
  (List.range 20).reverse.foldl (fun hexstring (hashByte : ℕ) =>
    let byte := hashByteAt H hashByte
    let index := hashByte <<< 1
    (hexstring.set index (hexDigits.getD (byte >>> 4).toNat '0')).set (index + 1)
      (hexDigits.getD (byte &&& 15).toNat '0')) (List.replicate 40 '0')

def transformToSHA1 (input : List UInt8) : List Char :=
  hexString (input.foldl Hashing.take {}).finish.H

/-! ## One block -/

/-- The bytes of the block as they are read. -/
def bytesOf (messageBlock : List UInt8) : ℕ → UInt8 := fun i => messageBlock.getD i 0

theorem getD_map_range {α : Type} (g : ℕ → α) (a : α) {n i : ℕ} (h : i < n) :
    ((List.range n).map g).getD i a = g i := by
  rw [List.getD_eq_getElem _ _ (by simpa using h), List.getElem_map, List.getElem_range]

/-- The words written so far are those of the message schedule. -/
theorem messageWords_loop (block : ℕ → UInt8) (n : ℕ) :
    (List.range' 16 n).foldl (fun W i =>
      W ++ [circularShift 1 (W.getD (i - 3) 0 ^^^ W.getD (i - 8) 0 ^^^ W.getD (i - 14) 0 ^^^
        W.getD (i - 16) 0)]) ((List.range 16).map (SHA1.W block)) =
      (List.range (16 + n)).map (SHA1.W block) := by
  induction n with
  | zero => rfl
  | succ n ih =>
    rw [List.range'_concat, List.foldl_append, ih, List.foldl_cons, List.foldl_nil, Nat.one_mul,
      getD_map_range _ _ (by omega), getD_map_range _ _ (by omega),
      getD_map_range _ _ (by omega), getD_map_range _ _ (by omega), ← Nat.add_assoc,
      List.range_succ, List.map_append, List.map_singleton, SHA1.W_of_ge block (t := 16 + n) (by omega)]
    rfl

theorem messageWords_eq (messageBlock : List UInt8) :
    messageWords messageBlock = (List.range 80).map (SHA1.W (bytesOf messageBlock)) := by
  have hwords : ((List.range 16).map fun i =>
      (messageBlock.getD (i <<< 2) 0).toUInt32 <<< 24 |||
        (messageBlock.getD (i <<< 2 + 1) 0).toUInt32 <<< 16 |||
        (messageBlock.getD (i <<< 2 + 2) 0).toUInt32 <<< 8 |||
        (messageBlock.getD (i <<< 2 + 3) 0).toUInt32) =
      (List.range 16).map (SHA1.W (bytesOf messageBlock)) := by
    refine List.map_congr_left fun i hi => ?_
    rw [SHA1.W_of_lt _ (List.mem_range.mp hi), ← SHA1.word_eq, Nat.shiftLeft_eq, Nat.mul_comm]
    rfl
  unfold messageWords
  dsimp only
  rw [hwords]
  exact messageWords_loop (bytesOf messageBlock) 64

theorem rounds_eq {mix : SHA1.Words → UInt32} {constant : UInt32} {first : ℕ} (W : ℕ → UInt32)
    (hfirst : first + 20 ≤ 80)
    (hmix : ∀ i, first ≤ i → i < first + 20 → ∀ v : SHA1.Words, mix v = SHA1.f i v.b v.c v.d)
    (hconstant : ∀ i, first ≤ i → i < first + 20 → constant = SHA1.K i) (v : SHA1.Words) :
    rounds mix constant ((List.range 80).map W) first v =
      (List.range' first 20).foldl (SHA1.round W) v := by
  apply List.foldl_ext
  intro v i hi
  rw [List.mem_range'_1] at hi
  rw [SHA1.round, getD_map_range _ _ (by omega), ← hmix i hi.1 hi.2, ← hconstant i hi.1 hi.2,
    UInt32.add_assoc _ constant, UInt32.add_comm constant, ← UInt32.add_assoc]
  rfl

theorem processSHA1MessageBlock_eq (messageBlock : List UInt8) (H : SHA1.Words) :
    processSHA1MessageBlock messageBlock H = SHA1.compress H (bytesOf messageBlock) := by
  have hrange : List.range 80 =
      List.range' 0 20 ++ List.range' 20 20 ++ List.range' 40 20 ++ List.range' 60 20 := rfl
  rw [SHA1.compress, hrange, List.foldl_append, List.foldl_append, List.foldl_append,
    processSHA1MessageBlock, messageWords_eq]
  have hchoice : ∀ i, 0 ≤ i → i < 0 + 20 → ∀ v : SHA1.Words,
      (v.b &&& v.c) ||| (~~~v.b &&& v.d) = SHA1.f i v.b v.c v.d := by
    intro i _ hi v
    rw [SHA1.f, if_pos hi, SHA1.choice_eq]
  have hparity : ∀ i, 20 ≤ i → i < 20 + 20 → ∀ v : SHA1.Words,
      v.b ^^^ v.c ^^^ v.d = SHA1.f i v.b v.c v.d := by
    intro i hi hi' v
    rw [SHA1.f, if_neg (by omega), if_pos (by omega)]
  have hmajority : ∀ i, 40 ≤ i → i < 40 + 20 → ∀ v : SHA1.Words,
      (v.b &&& v.c) ||| (v.b &&& v.d) ||| (v.c &&& v.d) = SHA1.f i v.b v.c v.d := by
    intro i hi hi' v
    rw [SHA1.f, if_neg (by omega), if_neg (by omega), if_pos (by omega), SHA1.majority_eq]
  have hlast : ∀ i, 60 ≤ i → i < 60 + 20 → ∀ v : SHA1.Words,
      v.b ^^^ v.c ^^^ v.d = SHA1.f i v.b v.c v.d := by
    intro i hi _ v
    rw [SHA1.f, if_neg (by omega), if_neg (by omega), if_neg (by omega)]
  rw [rounds_eq _ (by decide) hchoice, rounds_eq _ (by decide) hparity,
    rounds_eq _ (by decide) hmajority, rounds_eq _ (by decide) hlast]
  · simp only [UInt32.add_comm]
  · intro i hi _
    rw [SHA1.K, if_neg (by omega), if_neg (by omega), if_neg (by omega)]
  · intro i hi hi'
    rw [SHA1.K, if_neg (by omega), if_neg (by omega), if_pos (by omega)]
  · intro i hi hi'
    rw [SHA1.K, if_neg (by omega), if_pos (by omega)]
  · intro i hi hi'
    rw [SHA1.K, if_pos (by omega)]

/-! ## The stream of bytes -/

namespace Hashing

@[simp] theorem put_index (s : Hashing) (byte : UInt8) : (s.put byte).index = s.index + 1 := rfl

theorem processBlock_H (s : Hashing) :
    s.processBlock.H = SHA1.compress s.H (bytesOf s.messageBlock) :=
  processSHA1MessageBlock_eq s.messageBlock s.H

theorem processBlock_others (s : Hashing) :
    s.processBlock.messageBlock = s.messageBlock ∧ s.processBlock.index = 0 ∧
      s.processBlock.length_low = s.length_low ∧ s.processBlock.length_high = s.length_high := by
  rw [processBlock]
  exact ⟨rfl, rfl, rfl, rfl⟩

theorem count_others (s : Hashing) :
    s.count.H = s.H ∧ s.count.messageBlock = s.messageBlock ∧ s.count.index = s.index := by
  unfold count
  dsimp only
  split_ifs <;> exact ⟨rfl, rfl, rfl⟩

theorem count_lengths (s : Hashing) : s.count.length_low = s.length_low + 8 ∧
    s.count.length_high =
      if s.length_low + 8 = 0 then s.length_high + 1 else s.length_high := by
  unfold count
  dsimp only
  split_ifs <;> exact ⟨rfl, rfl⟩

theorem fillTo_fields (stop : ℕ) (s : Hashing) (h : s.index ≤ stop) :
    (s.fillTo stop).index = stop ∧ (s.fillTo stop).length_low = s.length_low ∧
      (s.fillTo stop).length_high = s.length_high := by
  have hloop : ∀ n, ((List.range n).foldl (fun s _ => put s 0) s).index = s.index + n ∧
      ((List.range n).foldl (fun s _ => put s 0) s).length_low = s.length_low ∧
      ((List.range n).foldl (fun s _ => put s 0) s).length_high = s.length_high := by
    intro n
    induction n with
    | zero => exact ⟨rfl, rfl, rfl⟩
    | succ n ih =>
      rw [List.range_succ, List.foldl_append]
      exact ⟨congrArg (· + 1) ih.1, ih.2⟩
  obtain ⟨hindex, hlength⟩ := hloop (stop - s.index)
  exact ⟨hindex.trans (Nat.add_sub_cancel' h), hlength⟩

/-- `q` blocks of the stream are processed, and `r` bytes of the next one stand in the block. -/
structure Filled (m : ℕ → UInt8) (q r : ℕ) (s : Hashing) : Prop where
  hash : s.H = SHA1.hashBlocks m q
  size : s.messageBlock.length = 64
  bytes : ∀ i < r, s.messageBlock.getD i 0 = m (64 * q + i)

variable {m : ℕ → UInt8} {q r n : ℕ} {s : Hashing}

theorem Filled.write (h : Filled m q r s) {byte : UInt8} (hr : r < 64)
    (hbyte : byte = m (64 * q + r)) : Filled m q (r + 1) (s.write r byte) where
  hash := h.hash
  size := by simpa [Hashing.write] using h.size
  bytes i hi := by
    rw [Hashing.write, List.getD_eq_getElem?_getD, List.getElem?_set]
    by_cases hri : r = i
    · subst hri
      rw [if_pos rfl, if_pos (by rw [h.size]; exact hr), Option.getD_some, hbyte]
    · rw [if_neg hri, ← List.getD_eq_getElem?_getD]
      exact h.bytes i (by omega)

theorem Filled.put (h : Filled m q s.index s) {byte : UInt8} (hr : s.index < 64)
    (hbyte : byte = m (64 * q + s.index)) : Filled m q (s.index + 1) (s.put byte) where
  hash := (h.write hr hbyte).hash
  size := (h.write hr hbyte).size
  bytes := (h.write hr hbyte).bytes

theorem Filled.processBlock (h : Filled m q 64 s) : Filled m (q + 1) 0 s.processBlock where
  hash := by
    rw [SHA1.hashBlocks_succ, ← h.hash, processBlock_H]
    exact SHA1.compress_congr h.bytes s.H
  size := by
    rw [(processBlock_others s).1]
    exact h.size
  bytes i hi := absurd hi (Nat.not_lt_zero i)

theorem Filled.fillTo (h : Filled m q s.index s) {stop : ℕ} (hle : s.index ≤ stop)
    (hstop : stop ≤ 64) (hzero : ∀ i, s.index ≤ i → i < stop → m (64 * q + i) = 0) :
    Filled m q stop (s.fillTo stop) := by
  have hloop : ∀ n, s.index + n ≤ stop →
      Filled m q ((List.range n).foldl (fun s _ => Hashing.put s 0) s).index
        ((List.range n).foldl (fun s _ => Hashing.put s 0) s) ∧
      ((List.range n).foldl (fun s _ => Hashing.put s 0) s).index = s.index + n := by
    intro n
    induction n with
    | zero => exact fun _ => ⟨h, rfl⟩
    | succ n ih =>
      intro hn
      obtain ⟨hfilled, hindex⟩ := ih (by omega)
      rw [List.range_succ, List.foldl_append]
      refine ⟨hfilled.put (by omega) ?_, congrArg (· + 1) hindex⟩
      rw [hindex, hzero _ (by omega) (by omega)]
  obtain ⟨hfilled, hindex⟩ := hloop (stop - s.index) (by omega)
  rw [hindex, Nat.add_sub_cancel' hle] at hfilled
  exact hfilled

/-- The state after `n` bytes of the stream; the length counts their bits in two words. -/
structure Taken (m : ℕ → UInt8) (n : ℕ) (s : Hashing) : Prop where
  filled : Filled m (n / 64) (n % 64) s
  index : s.index = n % 64
  low : s.length_low.toNat = 8 * n % 2 ^ 32
  high : s.length_high.toNat = 8 * n / 2 ^ 32 % 2 ^ 32

theorem taken_initial (m : ℕ → UInt8) : Taken m 0 {} where
  filled := ⟨rfl, rfl, fun i hi => absurd hi (Nat.not_lt_zero i)⟩
  index := rfl
  low := rfl
  high := rfl

/-- The lengths after one more byte: the lower word becomes 0 where it wraps around. -/
theorem lengths_succ {low high : UInt32} {n : ℕ} (hlow : low.toNat = 8 * n % 2 ^ 32)
    (hhigh : high.toNat = 8 * n / 2 ^ 32 % 2 ^ 32) :
    (low + 8).toNat = 8 * (n + 1) % 2 ^ 32 ∧
      (if low + 8 = 0 then high + 1 else high).toNat = 8 * (n + 1) / 2 ^ 32 % 2 ^ 32 := by
  have hnext : (low + 8).toNat = 8 * (n + 1) % 2 ^ 32 := by
    rw [UInt32.toNat_add, hlow]
    simp only [UInt32.reduceToNat]
    omega
  refine ⟨hnext, ?_⟩
  have hzero : low + 8 = 0 ↔ 8 * (n + 1) % 2 ^ 32 = 0 := by
    rw [← hnext, ← UInt32.toNat_inj]
    rfl
  rw [if_congr hzero rfl rfl]
  split_ifs
  · rw [UInt32.toNat_add, hhigh]
    simp only [UInt32.reduceToNat]
    omega
  · rw [hhigh]
    omega

theorem Filled.count (h : Filled m q r s) : Filled m q r s.count := by
  obtain ⟨hH, hblock, -⟩ := count_others s
  exact ⟨hH ▸ h.hash, hblock ▸ h.size, hblock ▸ h.bytes⟩

theorem Taken.take (h : Taken m n s) {ch : UInt8} (hch : ch = m n) :
    Taken m (n + 1) (s.take ch) := by
  have hr : s.index < 64 := h.index ▸ Nat.mod_lt n (by decide)
  have hput : Filled m (n / 64) (n % 64 + 1) (s.put ch).count := by
    rw [← h.index]
    refine (Filled.put (h.index ▸ h.filled) hr ?_).count
    rw [hch, h.index, Nat.div_add_mod]
  have hindex : (s.put ch).count.index = n % 64 + 1 := by
    rw [(count_others _).2.2, put_index, h.index]
  have hlow : (s.put ch).count.length_low.toNat = 8 * (n + 1) % 2 ^ 32 := by
    rw [(count_lengths _).1]
    exact (lengths_succ h.low h.high).1
  have hhigh : (s.put ch).count.length_high.toNat = 8 * (n + 1) / 2 ^ 32 % 2 ^ 32 := by
    rw [(count_lengths _).2]
    exact (lengths_succ h.low h.high).2
  have htake : s.take ch =
      if (s.put ch).count.index = 64 then (s.put ch).count.processBlock else (s.put ch).count := rfl
  rw [htake, hindex]
  split_ifs with hfull
  · obtain ⟨-, hzero, hlow', hhigh'⟩ := processBlock_others (s.put ch).count
    have hdiv : (n + 1) / 64 = n / 64 + 1 := by omega
    have hmod : (n + 1) % 64 = 0 := by omega
    rw [hfull] at hput
    exact ⟨by rw [hdiv, hmod]; exact hput.processBlock, by rw [hmod, hzero],
      by rw [hlow', hlow], by rw [hhigh', hhigh]⟩
  · have hdiv : (n + 1) / 64 = n / 64 := by omega
    have hmod : (n + 1) % 64 = n % 64 + 1 := by omega
    exact ⟨by rw [hdiv, hmod]; exact hput, by rw [hmod, hindex], hlow, hhigh⟩

theorem taken_input (m : ℕ → UInt8) (input : List UInt8)
    (h : ∀ i < input.length, input.getD i 0 = m i) :
    Taken m input.length (input.foldl Hashing.take {}) := by
  induction input using List.reverseRecOn with
  | nil => exact taken_initial m
  | append_singleton input ch ih =>
    rw [List.foldl_append, List.length_append]
    refine Taken.take (ih fun i hi => ?_) ?_
    · rw [← h i (by simp; omega), List.getD_append _ _ _ _ hi]
    · rw [← h input.length (by simp), List.getD_append_right _ _ _ _ le_rfl, Nat.sub_self]
      rfl

/-! ## The padding -/

/-- The eight bytes of the length in the padded message. -/
theorem length_bytes {input : List UInt8} {low high : UInt32} (hinput : 8 * input.length < 2 ^ 64)
    (hlow : low.toNat = 8 * input.length % 2 ^ 32)
    (hhigh : high.toNat = 8 * input.length / 2 ^ 32 % 2 ^ 32) {q : ℕ}
    (hq : 64 * q + 56 = input.length + 1 + SHA1.zeros input.length) :
    ∀ j < 8, [(high >>> 24).toUInt8, (high >>> 16).toUInt8, (high >>> 8).toUInt8,
        high.toUInt8, (low >>> 24).toUInt8, (low >>> 16).toUInt8, (low >>> 8).toUInt8,
        low.toUInt8].getD j 0 =
      (SHA1.pad input).getD (64 * q + (56 + j)) 0 := by
  intro j hj
  rw [← Nat.add_assoc, hq, SHA1.getD_pad_length input hj]
  generalize 8 * input.length = l at *
  apply UInt8.toNat_inj.mp
  rw [UInt8.toNat_ofNat']
  interval_cases j <;>
    simp [UInt32.toNat_shiftRight, Nat.shiftRight_eq_div_pow, hlow, hhigh] <;> omega

theorem Filled.writeLength (h : Filled m q 56 s)
    (hbytes : ∀ j < 8, [(s.length_high >>> 24).toUInt8, (s.length_high >>> 16).toUInt8,
      (s.length_high >>> 8).toUInt8, s.length_high.toUInt8, (s.length_low >>> 24).toUInt8,
      (s.length_low >>> 16).toUInt8, (s.length_low >>> 8).toUInt8, s.length_low.toUInt8].getD j 0 =
        m (64 * q + (56 + j))) : Filled m q 64 s.writeLength :=
  (((((((h.write (by decide) (hbytes 0 (by decide))).write (by decide)
    (hbytes 1 (by decide))).write (by decide) (hbytes 2 (by decide))).write (by decide)
    (hbytes 3 (by decide))).write (by decide) (hbytes 4 (by decide))).write (by decide)
    (hbytes 5 (by decide))).write (by decide) (hbytes 6 (by decide))).write (by decide)
    (hbytes 7 (by decide))

/-- The mark and the zeros: one more block where the length does not fit behind the mark. -/
theorem filled_zeros {input : List UInt8}
    (h : Taken (fun i => (SHA1.pad input).getD i 0) input.length s) :
    ∃ q, ∃ t : Hashing, s.finish = t.writeLength.processBlock ∧
      Filled (fun i => (SHA1.pad input).getD i 0) q 56 t ∧
      t.length_low = s.length_low ∧ t.length_high = s.length_high ∧
      64 * q + 56 = input.length + 1 + SHA1.zeros input.length := by
  have hr : s.index < 64 := h.index ▸ Nat.mod_lt _ (by decide)
  have hmark : (0x80 : UInt8) = (SHA1.pad input).getD (64 * (input.length / 64) + s.index) 0 := by
    rw [h.index, Nat.div_add_mod, SHA1.getD_pad_mark]
  have hput := Filled.put (h.index ▸ h.filled) hr hmark
  rw [← put_index s 0x80] at hput
  have hindex : (s.put 0x80).index = input.length % 64 + 1 := by rw [put_index, h.index]
  have hzeros : SHA1.zeros input.length = (119 - input.length % 64) % 64 := rfl
  by_cases hlong : (s.put 0x80).index > 56
  · have hfull := (hput.fillTo (by omega) le_rfl fun i hi hi' =>
      SHA1.getD_pad_zero input (by omega) (by omega)).processBlock
    obtain ⟨-, hzero, hlow, hhigh⟩ := processBlock_others ((s.put 0x80).fillTo 64)
    obtain ⟨-, hlow', hhigh'⟩ := fillTo_fields 64 (s.put 0x80) (by omega)
    obtain ⟨-, hlow'', hhigh''⟩ :=
      fillTo_fields 56 ((s.put 0x80).fillTo 64).processBlock (by omega)
    refine ⟨input.length / 64 + 1, _, ?_, (hzero ▸ hfull).fillTo (by omega) (by decide)
      fun i _ hi' => SHA1.getD_pad_zero input (by omega) (by omega),
      hlow''.trans (hlow.trans hlow'), hhigh''.trans (hhigh.trans hhigh'), by omega⟩
    rw [finish, if_pos hlong]
  · obtain ⟨-, hlow, hhigh⟩ := fillTo_fields 56 (s.put 0x80) (by omega)
    refine ⟨input.length / 64, _, ?_, hput.fillTo (by omega) (by decide) fun i hi hi' =>
      SHA1.getD_pad_zero input (by omega) (by omega), hlow, hhigh, by omega⟩
    rw [finish, if_neg hlong]

/-- The message with its padding is one stream of blocks. -/
theorem finish_hash {input : List UInt8} (hinput : 8 * input.length < 2 ^ 64) :
    (input.foldl Hashing.take {}).finish.H = SHA1.hash input := by
  have htaken := taken_input (fun i => (SHA1.pad input).getD i 0) input fun i hi =>
    (SHA1.getD_pad_of_lt input hi).symm
  obtain ⟨q, t, ht, hfilled, hlow, hhigh, hq⟩ := filled_zeros htaken
  have hlength := length_bytes hinput (hlow ▸ htaken.low) (hhigh ▸ htaken.high) hq
  have hlast := (hfilled.writeLength hlength).processBlock.hash
  rw [ht, hlast, SHA1.hash, SHA1.length_pad]
  congr 1
  omega

end Hashing

/-- The two digits of a byte. -/
def byteDigits (byte : UInt8) : List Char :=
  [hexDigits.getD (byte >>> 4).toNat '0', hexDigits.getD (byte &&& 15).toNat '0']

theorem hexWord_eq (w : UInt32) :
    SHA1.hexWord w =
    byteDigits (w >>> 24).toUInt8 ++ (byteDigits (w >>> 16).toUInt8 ++
      (byteDigits (w >>> 8).toUInt8 ++ byteDigits (w >>> 0).toUInt8)) := by
  have hhigh : ∀ k < 4, ((w >>> UInt32.ofNat (8 * k)).toUInt8 >>> 4).toNat =
      w.toNat / 16 ^ (2 * k + 1) % 16 := by
    intro k hk
    interval_cases k <;>
      simp [UInt32.toNat_shiftRight, UInt8.toNat_shiftRight, Nat.shiftRight_eq_div_pow] <;> omega
  have hlow : ∀ k < 4, ((w >>> UInt32.ofNat (8 * k)).toUInt8 &&& 15).toNat =
      w.toNat / 16 ^ (2 * k) % 16 := by
    intro k hk
    have hmask : ∀ n, n &&& 15 = n % 16 := fun n => Nat.and_two_pow_sub_one_eq_mod n 4
    interval_cases k <;>
      simp [UInt32.toNat_shiftRight, Nat.shiftRight_eq_div_pow, hmask]
  have hdigits : ∀ k < 4, ∀ shift, shift = UInt32.ofNat (8 * k) →
      byteDigits (w >>> shift).toUInt8 = [SHA1.hexDigit (w.toNat / 16 ^ (2 * k + 1) % 16),
        SHA1.hexDigit (w.toNat / 16 ^ (2 * k) % 16)] := by
    rintro k hk shift rfl
    rw [byteDigits, hhigh k hk, hlow k hk]
    rfl
  rw [hdigits 3 (by decide) 24 (by decide), hdigits 2 (by decide) 16 (by decide),
    hdigits 1 (by decide) 8 (by decide), hdigits 0 (by decide) 0 (by decide)]
  simp [SHA1.hexWord, List.range_succ]

/-- A loop that writes two characters for each byte, from the last byte to the first. -/
theorem foldl_set_pairs (g h : ℕ → Char) (n : ℕ) (l : List Char) (hl : 2 * n ≤ l.length) :
    (List.range n).reverse.foldl (fun l i => (l.set (i <<< 1) (g i)).set (i <<< 1 + 1) (h i)) l =
      ((List.range n).flatMap fun i => [g i, h i]) ++ l.drop (2 * n) := by
  induction n generalizing l with
  | zero => simp
  | succ n ih =>
    rw [List.range_succ, List.reverse_append, List.reverse_singleton, List.singleton_append,
      List.foldl_cons, ih _ (by simp only [List.length_set]; omega), List.flatMap_append,
      List.append_assoc]
    have hindex : n <<< 1 = 2 * n := by rw [Nat.shiftLeft_eq]; omega
    rw [hindex]
    refine congrArg _ (List.ext_getElem? fun i => ?_)
    match i with
    | 0 => simp [List.getElem?_set]; omega
    | 1 => simp [List.getElem?_set]; omega
    | i + 2 =>
      rw [List.getElem?_drop, List.getElem?_set_ne (by omega), List.getElem?_set_ne (by omega)]
      simp only [List.flatMap_cons, List.flatMap_nil, List.append_nil, List.cons_append,
        List.nil_append, List.getElem?_cons_succ, List.getElem?_drop]
      exact congrArg (fun k => l[k]?) (by omega)

theorem hashBytes_eq (H : SHA1.Words) : (List.range 20).map (hashByteAt H) =
    [H.a, H.b, H.c, H.d, H.e].flatMap fun w : UInt32 =>
      [(w >>> 24).toUInt8, (w >>> 16).toUInt8, (w >>> 8).toUInt8, (w >>> 0).toUInt8] := by
  rfl

/-- The loop over the bytes of the hash writes the digits of its words. -/
theorem hexString_eq (H : SHA1.Words) :
    hexString H = [H.a, H.b, H.c, H.d, H.e].flatMap SHA1.hexWord := by
  have hpairs : hexString H = ((List.range 20).map (hashByteAt H)).flatMap byteDigits := by
    rw [List.flatMap_map]
    exact (foldl_set_pairs _ _ 20 (List.replicate 40 '0') (by decide)).trans (List.append_nil _)
  rw [hpairs, hashBytes_eq]
  simp only [List.flatMap_cons, List.flatMap_nil, hexWord_eq, List.append_assoc,
    List.append_nil, List.cons_append, List.nil_append]

/-- For every message whose length in bits fits the 64 bits of the padding. -/
theorem transformToSHA1_eq_digest (input : List UInt8) (h : 8 * input.length < 2 ^ 64) :
    transformToSHA1 input = SHA1.digest input := by
  rw [transformToSHA1, hexString_eq, Hashing.finish_hash h]
  rfl

/-- The digest of "abc". -/
theorem transformToSHA1_abc : transformToSHA1 [97, 98, 99] = SHA1.digest [97, 98, 99] ∧
    SHA1.digest [97, 98, 99] = "a9993e364706816aba3e25717850c26c9cd0d89d".toList := by
  have heq := transformToSHA1_eq_digest [97, 98, 99] (by decide)
  exact ⟨heq, heq.symm.trans (by decide +kernel)⟩

end TibiaServer.Login
