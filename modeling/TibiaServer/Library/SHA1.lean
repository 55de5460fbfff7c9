import TibiaServer.Library.Bytes
/-!
# SHA-1

The hash of FIPS 180 for messages of whole bytes: the message is padded to blocks of 64
bytes, and each block is compressed in 80 rounds into five words.
-/

namespace TibiaServer.Library.SHA1

/-- A rotation to the left. -/
def ROTL (n x : UInt32) : UInt32 := (x <<< n) ||| (x >>> (32 - n))

/-- The logical function of round `t`. -/
def f (t : ℕ) (x y z : UInt32) : UInt32 :=
  if t < 20 then (x &&& y) ^^^ (~~~x &&& z)
  else if t < 40 then x ^^^ y ^^^ z
  else if t < 60 then (x &&& y) ^^^ (x &&& z) ^^^ (y &&& z)
  else x ^^^ y ^^^ z

/-- The constant of round `t`. -/
def K (t : ℕ) : UInt32 :=
  if t < 20 then 0x5a827999
  else if t < 40 then 0x6ed9eba1
  else if t < 60 then 0x8f1bbcdc
  else 0xca62c1d6

/-- The working variables, and the five words of a hash value. -/
@[ext] structure Words where
  a : UInt32
  b : UInt32
  c : UInt32
  d : UInt32
  e : UInt32
  deriving DecidableEq

/-- The initial hash value. -/
def initial : Words := ⟨0x67452301, 0xefcdab89, 0x98badcfe, 0x10325476, 0xc3d2e1f0⟩

/-- Word `t` of a block, its first byte the highest. -/
def word (block : ℕ → UInt8) (t : ℕ) : UInt32 :=
  .ofNat (Bytes.ofBytes [block (4 * t + 3), block (4 * t + 2), block (4 * t + 1), block (4 * t)])

/-- The message schedule. -/
def W (block : ℕ → UInt8) (t : ℕ) : UInt32 :=
  if t < 16 then word block t
  else ROTL 1 (W block (t - 3) ^^^ W block (t - 8) ^^^ W block (t - 14) ^^^ W block (t - 16))

def round (W : ℕ → UInt32) (v : Words) (t : ℕ) : Words :=
  ⟨ROTL 5 v.a + f t v.b v.c v.d + v.e + K t + W t, v.a, ROTL 30 v.b, v.c, v.d⟩

def compress (H : Words) (block : ℕ → UInt8) : Words :=
  let v := (List.range 80).foldl (round (W block)) H
  ⟨v.a + H.a, v.b + H.b, v.c + H.c, v.d + H.d, v.e + H.e⟩

/-- The hash value after the first `n` blocks of a stream of bytes. -/
def hashBlocks (m : ℕ → UInt8) (n : ℕ) : Words :=
  (List.range n).foldl (fun H i => compress H fun t => m (64 * i + t)) initial

/-- The number of zero bytes that follow the byte `0x80` for a message of `n` bytes. -/
def zeros (n : ℕ) : ℕ := (119 - n % 64) % 64

/-- The padded message; the length counts bits. -/
def pad (message : List UInt8) : List UInt8 :=
  message ++ 0x80 :: List.replicate (zeros message.length) 0 ++
    (Bytes.toBytes 8 (8 * message.length)).reverse

def hash (message : List UInt8) : Words :=
  hashBlocks (fun i => (pad message).getD i 0) ((pad message).length / 64)

def hexDigit (n : ℕ) : Char := "0123456789abcdef".toList.getD n '0'

/-- The eight hexadecimal digits of a word. -/
def hexWord (w : UInt32) : List Char :=
  (List.range 8).map fun i => hexDigit (w.toNat / 16 ^ (7 - i) % 16)

/-- The digest in hexadecimal digits. -/
def digest (message : List UInt8) : List Char :=
  let H := hash message
  [H.a, H.b, H.c, H.d, H.e].flatMap hexWord

@[simp] theorem length_pad (message : List UInt8) :
    (pad message).length = message.length + 1 + zeros message.length + 8 := by
  simp only [pad, List.length_append, List.length_cons, List.length_replicate, List.length_reverse,
    Bytes.length_toBytes]
  omega

theorem getD_toBytes {w i : ℕ} (h : i < w) (n : ℕ) :
    (Bytes.toBytes w n).getD i 0 = UInt8.ofNat (n / 256 ^ i) := by
  induction w generalizing n i with
  | zero => omega
  | succ w ih =>
    cases i with
    | zero => rw [Nat.pow_zero, Nat.div_one]; rfl
    | succ i =>
      rw [Bytes.toBytes, List.getD_cons_succ, ih (by omega), Nat.div_div_eq_div_mul,
        Nat.pow_succ, Nat.mul_comm]

section Pad

variable (message : List UInt8)

theorem getD_pad_of_lt {i : ℕ} (h : i < message.length) :
    (pad message).getD i 0 = message.getD i 0 := by
  rw [pad, List.append_assoc, List.getD_append _ _ _ _ h]

theorem getD_pad_mark : (pad message).getD message.length 0 = 0x80 := by
  rw [pad, List.append_assoc, List.getD_append_right _ _ _ _ le_rfl, Nat.sub_self]
  rfl

theorem getD_pad_zero {i : ℕ} (h : message.length < i)
    (h' : i ≤ message.length + zeros message.length) : (pad message).getD i 0 = 0 := by
  obtain ⟨k, rfl⟩ := Nat.exists_eq_add_of_lt h
  rw [pad, List.append_assoc, List.getD_append_right _ _ _ _ (by omega), List.cons_append,
    show message.length + k + 1 - message.length = k + 1 by omega, List.getD_cons_succ,
    List.getD_append _ _ _ _ (by rw [List.length_replicate]; omega)]
  rw [List.getD_replicate _ (by omega)]

theorem getD_pad_length {j : ℕ} (h : j < 8) :
    (pad message).getD (message.length + 1 + zeros message.length + j) 0 =
      UInt8.ofNat (8 * message.length / 256 ^ (7 - j)) := by
  rw [pad, List.getD_append_right _ _ _ _ (by simp; omega)]
  have hindex : message.length + 1 + zeros message.length + j -
      (message ++ 0x80 :: List.replicate (zeros message.length) 0).length = j := by
    simp only [List.length_append, List.length_cons, List.length_replicate]
    omega
  rw [hindex, List.getD_reverse _ (by rw [Bytes.length_toBytes]; exact h), Bytes.length_toBytes,
    getD_toBytes (by omega)]

end Pad

/-! ## Compression -/

theorem W_of_lt (block : ℕ → UInt8) {t : ℕ} (h : t < 16) : W block t = word block t := by
  rw [W, if_pos h]

theorem W_of_ge (block : ℕ → UInt8) {t : ℕ} (h : 16 ≤ t) : W block t =
    ROTL 1 (W block (t - 3) ^^^ W block (t - 8) ^^^ W block (t - 14) ^^^ W block (t - 16)) := by
  rw [W, if_neg (by omega)]

theorem W_congr {block block' : ℕ → UInt8} (h : ∀ i < 64, block i = block' i) (t : ℕ) :
    W block t = W block' t := by
  induction t using Nat.strong_induction_on with
  | _ t ih =>
    rcases Nat.lt_or_ge t 16 with ht | ht
    · rw [W_of_lt block ht, W_of_lt block' ht]
      simp only [word]
      rw [h (4 * t + 3) (by omega), h (4 * t + 2) (by omega), h (4 * t + 1) (by omega),
        h (4 * t) (by omega)]
    · rw [W_of_ge block ht, W_of_ge block' ht, ih (t - 3) (by omega), ih (t - 8) (by omega),
        ih (t - 14) (by omega), ih (t - 16) (by omega)]

/-- Compression reads the 64 bytes of its block only. -/
theorem compress_congr {block block' : ℕ → UInt8} (h : ∀ i < 64, block i = block' i)
    (H : Words) : compress H block = compress H block' := by
  rw [compress, compress, show W block = W block' from funext (W_congr h)]

theorem hashBlocks_succ (m : ℕ → UInt8) (n : ℕ) :
    hashBlocks m (n + 1) = compress (hashBlocks m n) fun t => m (64 * n + t) := by
  rw [hashBlocks, List.range_succ, List.foldl_append]
  rfl

/-! ## Other forms -/

/-- The choice by the bits of `x` in terms of a disjunction. -/
theorem choice_eq (x y z : UInt32) : (x &&& y) ||| (~~~x &&& z) = (x &&& y) ^^^ (~~~x &&& z) := by
  apply UInt32.toBitVec_inj.mp
  apply BitVec.eq_of_getLsbD_eq
  intro i hi
  simp only [UInt32.toBitVec_or, UInt32.toBitVec_and, UInt32.toBitVec_xor, UInt32.toBitVec_not,
    BitVec.getLsbD_or, BitVec.getLsbD_and, BitVec.getLsbD_xor, BitVec.getLsbD_not, hi]
  cases x.toBitVec.getLsbD i <;> simp

/-- The majority of three bits in terms of disjunctions. -/
theorem majority_eq (x y z : UInt32) : (x &&& y) ||| (x &&& z) ||| (y &&& z) =
    (x &&& y) ^^^ (x &&& z) ^^^ (y &&& z) := by
  apply UInt32.toBitVec_inj.mp
  apply BitVec.eq_of_getLsbD_eq
  intro i _
  simp only [UInt32.toBitVec_or, UInt32.toBitVec_and, UInt32.toBitVec_xor, BitVec.getLsbD_or,
    BitVec.getLsbD_and, BitVec.getLsbD_xor]
  cases x.toBitVec.getLsbD i <;> cases y.toBitVec.getLsbD i <;> simp

/-- A number below `2 ^ i` beside the shifted one. -/
theorem shift_or {a b i : ℕ} (h : b < 2 ^ i) : a <<< i ||| b = a * 2 ^ i + b := by
  rw [← Nat.shiftLeft_add_eq_or_of_lt h, Nat.shiftLeft_eq]

/-- The bytes of a word put together by shifts. -/
theorem word_eq (block : ℕ → UInt8) (t : ℕ) :
    (block (4 * t)).toUInt32 <<< 24 ||| (block (4 * t + 1)).toUInt32 <<< 16 |||
      (block (4 * t + 2)).toUInt32 <<< 8 ||| (block (4 * t + 3)).toUInt32 = word block t := by
  have ha := (block (4 * t)).toNat_lt
  have hb := (block (4 * t + 1)).toNat_lt
  have hc := (block (4 * t + 2)).toNat_lt
  have hd := (block (4 * t + 3)).toNat_lt
  apply UInt32.toNat_inj.mp
  simp only [word, Bytes.ofBytes, UInt32.toNat_or, UInt32.toNat_shiftLeft, UInt8.toNat_toUInt32,
    UInt32.toNat_ofNat', UInt32.reduceToNat]
  generalize (block (4 * t)).toNat = a at *
  generalize (block (4 * t + 1)).toNat = b at *
  generalize (block (4 * t + 2)).toNat = c at *
  generalize (block (4 * t + 3)).toNat = d at *
  have hab : a <<< 24 ||| b <<< 16 = (a * 256 + b) <<< 16 := by
    rw [shift_or (by rw [Nat.shiftLeft_eq]; omega), Nat.shiftLeft_eq, Nat.shiftLeft_eq]
    omega
  have habc : (a * 256 + b) <<< 16 ||| c <<< 8 = ((a * 256 + b) * 256 + c) <<< 8 := by
    rw [shift_or (by rw [Nat.shiftLeft_eq]; omega), Nat.shiftLeft_eq, Nat.shiftLeft_eq]
    omega
  simp only [Nat.reduceMod]
  rw [Nat.mod_eq_of_lt (show a <<< 24 < 2 ^ 32 by rw [Nat.shiftLeft_eq]; omega),
    Nat.mod_eq_of_lt (show b <<< 16 < 2 ^ 32 by rw [Nat.shiftLeft_eq]; omega),
    Nat.mod_eq_of_lt (show c <<< 8 < 2 ^ 32 by rw [Nat.shiftLeft_eq]; omega), hab, habc,
    shift_or (by omega)]
  omega

end TibiaServer.Library.SHA1
