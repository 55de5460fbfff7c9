import Mathlib.Algebra.BigOperators.Intervals
import Mathlib.Data.Nat.ModEq
import Mathlib.Tactic.Linarith
import Mathlib.Tactic.Ring
/-!
# Adler-32

The checksum is made of two sums modulo 65521: of the bytes, and of the first sum after each
byte.  The remainders may be taken at any time, and how large the sums get in between depends on
how many bytes there are between two of them.
-/

namespace TibiaServer.Library.Adler32

open Finset

def modulus : ℕ := 65521

/-- One and the bytes. -/
def first (data : List UInt8) : ℕ := 1 + (data.map UInt8.toNat).sum

/-- The first sum after each byte. -/
def second (data : List UInt8) : ℕ := ∑ i ∈ range data.length, first (data.take (i + 1))

def adler32 (data : List UInt8) : ℕ := second data % modulus * 65536 + first data % modulus

/-- Both sums as they run, from any values. -/
def sums (a b : ℕ) : List UInt8 → ℕ × ℕ
  | [] => (a, b)
  | byte :: rest => sums (a + byte.toNat) (b + (a + byte.toNat)) rest

theorem sums_append (xs ys : List UInt8) (a b : ℕ) :
    sums a b (xs ++ ys) = sums (sums a b xs).1 (sums a b xs).2 ys := by
  induction xs generalizing a b with
  | nil => rfl
  | cons x xs ih =>
    rw [List.cons_append, sums, sums, ih]

theorem first_concat (xs : List UInt8) (x : UInt8) : first (xs ++ [x]) = first xs + x.toNat := by
  simp [first, Nat.add_assoc]

theorem second_concat (xs : List UInt8) (x : UInt8) :
    second (xs ++ [x]) = second xs + first (xs ++ [x]) := by
  unfold second
  have hbefore : ∑ i ∈ range xs.length, first ((xs ++ [x]).take (i + 1)) =
      ∑ i ∈ range xs.length, first (xs.take (i + 1)) := by
    apply sum_congr rfl
    intro i hi
    have hle : i + 1 ≤ xs.length := mem_range.mp hi
    rw [List.take_append_of_le_length hle]
  rw [List.length_append, List.length_singleton, sum_range_succ, hbefore]
  congr 2
  apply List.take_of_length_le
  simp

/-- The sums as they run are the sums. -/
theorem sums_eq (data : List UInt8) : sums 1 0 data = (first data, second data) := by
  induction data using List.reverseRecOn with
  | nil => rfl
  | append_singleton xs x ih =>
    rw [sums_append, ih, second_concat, first_concat]
    rfl

/-- Remainders that were taken before do not matter. -/
theorem sums_modEq (data : List UInt8) {m a a' b b' : ℕ} (ha : a ≡ a' [MOD m])
    (hb : b ≡ b' [MOD m]) :
    (sums a b data).1 ≡ (sums a' b' data).1 [MOD m] ∧
      (sums a b data).2 ≡ (sums a' b' data).2 [MOD m] := by
  induction data generalizing a a' b b' with
  | nil => exact ⟨ha, hb⟩
  | cons x xs ih =>
    have hsum : a + x.toNat ≡ a' + x.toNat [MOD m] := ha.add_right x.toNat
    exact ih hsum (hb.add hsum)

/-- Bounds on the sums after some bytes, the second of them doubled. -/
theorem sums_le (data : List UInt8) {c a b k : ℕ} (ha : a ≤ c + 255 * k)
    (hb : 2 * b ≤ 2 * c * (k + 1) + 255 * k * (k + 1)) :
    (sums a b data).1 ≤ c + 255 * (k + data.length) ∧
      2 * (sums a b data).2 ≤
        2 * c * (k + data.length + 1) + 255 * (k + data.length) * (k + data.length + 1) := by
  induction data generalizing a b k with
  | nil => exact ⟨ha, hb⟩
  | cons x xs ih =>
    have hx : x.toNat ≤ 255 := Nat.le_of_lt_succ x.toNat_lt
    have hsum : a + x.toNat ≤ c + 255 * (k + 1) := by omega
    have hnext : 2 * (b + (a + x.toNat)) ≤
        2 * c * (k + 1 + 1) + 255 * (k + 1) * (k + 1 + 1) := by
      calc 2 * (b + (a + x.toNat)) = 2 * b + 2 * (a + x.toNat) := by ring
        _ ≤ 2 * c * (k + 1) + 255 * k * (k + 1) + 2 * (c + 255 * (k + 1)) :=
            Nat.add_le_add hb (Nat.mul_le_mul_left 2 hsum)
        _ = 2 * c * (k + 1 + 1) + 255 * (k + 1) * (k + 1 + 1) := by ring
    have hlength : k + 1 + xs.length = k + (x :: xs).length := by
      rw [List.length_cons]
      omega
    have hrest := ih hsum hnext
    rw [hlength] at hrest
    exact hrest

/-- No sum passes 32 bits within 5552 bytes after the remainders. -/
theorem sums_lt (data : List UInt8) {a b : ℕ} (ha : a < modulus) (hb : b < modulus)
    (hlength : data.length ≤ 5552) :
    (sums a b data).1 < 2 ^ 32 ∧ (sums a b data).2 < 2 ^ 32 := by
  have hmodulus : modulus = 65521 := rfl
  have hstart : a ≤ 65520 + 255 * 0 := by omega
  have hstart' : 2 * b ≤ 2 * 65520 * (0 + 1) + 255 * 0 * (0 + 1) := by omega
  obtain ⟨hfirst, hsecond⟩ := sums_le data hstart hstart'
  rw [Nat.zero_add] at hfirst hsecond
  have hsquare : 255 * data.length * (data.length + 1) ≤ 255 * 5552 * (5552 + 1) :=
    Nat.mul_le_mul (Nat.mul_le_mul_left 255 hlength) (Nat.add_le_add_right hlength 1)
  constructor <;> omega

example : adler32 [87, 105, 107, 105, 112, 101, 100, 105, 97] = 0x11e60398 := by decide

end TibiaServer.Library.Adler32
