import TibiaServer.Library.Adler32
import TibiaServer.Output.Framing
/-!
# The checksum is Adler-32

`adlerChecksum` takes the remainders after 5552 bytes only.  Until then neither of the two sums
leaves 32 bits, so that it is the checksum of the standard (`adlerChecksum_eq_adler32`).
-/

namespace TibiaServer.Output

open TibiaServer.Library.Adler32

/-- The inner loop of `adlerChecksum`. -/
def adlerBlock (a b : BitVec 32) (block : List UInt8) : BitVec 32 × BitVec 32 :=
  block.foldl (fun (a, b) byte => (a + .ofNat 32 byte.toNat, b + (a + .ofNat 32 byte.toNat))) (a, b)

theorem adlerLoop_eq (a b : BitVec 32) {data : List UInt8} (h : data ≠ []) :
    adlerLoop a b data =
      adlerLoop ((adlerBlock a b (data.take 5552)).1 % 65521)
        ((adlerBlock a b (data.take 5552)).2 % 65521) (data.drop 5552) := by
  rw [adlerLoop, if_neg h]
  rfl

/-- The operands of the additions of the inner loop. -/
def blockAdditions (a b : BitVec 32) : List UInt8 → List (BitVec 32 × BitVec 32)
  | [] => []
  | byte :: rest =>
    let a' := a + .ofNat 32 byte.toNat
    (a, .ofNat 32 byte.toNat) :: (b, a') :: blockAdditions a' (b + a') rest

/-- The operands of all additions of `adlerChecksum`. -/
def adlerAdditions (a b : BitVec 32) (data : List UInt8) : List (BitVec 32 × BitVec 32) :=
  if data = [] then []
  else
    blockAdditions a b (data.take 5552) ++
      adlerAdditions ((adlerBlock a b (data.take 5552)).1 % 65521)
        ((adlerBlock a b (data.take 5552)).2 % 65521) (data.drop 5552)
  termination_by data.length
  decreasing_by
    have hpos := List.length_pos_iff.mpr ‹data ≠ []›
    rw [List.length_drop]
    omega

theorem le_sums (data : List UInt8) (a b : ℕ) :
    a ≤ (sums a b data).1 ∧ b ≤ (sums a b data).2 := by
  induction data generalizing a b with
  | nil => exact ⟨le_rfl, le_rfl⟩
  | cons x xs ih =>
    obtain ⟨hfirst, hsecond⟩ := ih (a + x.toNat) (b + (a + x.toNat))
    rw [sums]
    constructor <;> omega

/-- Where the sums fit into 32 bits the inner loop computes them, and no addition wraps. -/
theorem adlerBlock_toNat (block : List UInt8) {a b : BitVec 32}
    (h : (sums a.toNat b.toNat block).1 < 2 ^ 32 ∧ (sums a.toNat b.toNat block).2 < 2 ^ 32) :
    (adlerBlock a b block).1.toNat = (sums a.toNat b.toNat block).1 ∧
      (adlerBlock a b block).2.toNat = (sums a.toNat b.toNat block).2 ∧
      ∀ p ∈ blockAdditions a b block, p.1.toNat + p.2.toNat < 2 ^ 32 := by
  induction block generalizing a b with
  | nil => exact ⟨rfl, rfl, by simp [blockAdditions]⟩
  | cons byte rest ih =>
    rw [sums] at h ⊢
    obtain ⟨hfirst, hsecond⟩ := le_sums rest (a.toNat + byte.toNat)
      (b.toNat + (a.toNat + byte.toNat))
    have hbyte : (BitVec.ofNat 32 byte.toNat).toNat = byte.toNat := by
      have hlt := byte.toNat_lt
      rw [BitVec.toNat_ofNat]
      exact Nat.mod_eq_of_lt (by omega)
    have ha : (a + .ofNat 32 byte.toNat).toNat = a.toNat + byte.toNat := by
      rw [BitVec.toNat_add, hbyte]
      exact Nat.mod_eq_of_lt (by omega)
    have hb : (b + (a + .ofNat 32 byte.toNat)).toNat = b.toNat + (a.toNat + byte.toNat) := by
      rw [BitVec.toNat_add, ha]
      exact Nat.mod_eq_of_lt (by omega)
    rw [← hb, ← ha] at h ⊢
    obtain ⟨hone, htwo, hrest⟩ := ih h
    refine ⟨hone, htwo, ?_⟩
    intro p hp
    rw [blockAdditions] at hp
    rcases List.mem_cons.mp hp with rfl | hp
    · change a.toNat + (BitVec.ofNat 32 byte.toNat).toNat < 2 ^ 32
      omega
    · rcases List.mem_cons.mp hp with rfl | hp
      · change b.toNat + (a + .ofNat 32 byte.toNat).toNat < 2 ^ 32
        omega
      · exact hrest p hp

theorem toNat_mod_adler (x : BitVec 32) : (x % 65521).toNat = x.toNat % modulus := by
  rw [BitVec.toNat_umod]
  rfl

/-- `(b << 16) | a` -/
theorem toNat_pack {a b : BitVec 32} (ha : a.toNat < modulus) (hb : b.toNat < modulus) :
    (b <<< 16 ||| a).toNat = b.toNat * 65536 + a.toNat := by
  have hmodulus : modulus = 65521 := rfl
  have hshift : (b <<< 16).toNat = 2 ^ 16 * b.toNat := by
    rw [BitVec.toNat_shiftLeft, Nat.shiftLeft_eq, Nat.mul_comm]
    exact Nat.mod_eq_of_lt (by omega)
  rw [BitVec.toNat_or, hshift, ← Nat.two_pow_add_eq_or_of_lt (by omega)]
  omega

theorem adlerLoop_toNat (a b : BitVec 32) (data : List UInt8) (ha : a.toNat < modulus)
    (hb : b.toNat < modulus) :
    (adlerLoop a b data).toNat =
        (sums a.toNat b.toNat data).2 % modulus * 65536 + (sums a.toNat b.toNat data).1 % modulus ∧
      ∀ p ∈ adlerAdditions a b data, p.1.toNat + p.2.toNat < 2 ^ 32 := by
  induction hn : data.length using Nat.strong_induction_on generalizing a b data with
  | _ n ih =>
    by_cases hdata : data = []
    · rw [adlerLoop, adlerAdditions, if_pos hdata, if_pos hdata, hdata]
      simp only [sums, toNat_pack ha hb, Nat.mod_eq_of_lt ha, Nat.mod_eq_of_lt hb, true_and]
      simp
    · have hlt := sums_lt (data.take 5552) ha hb (List.length_take_le ..)
      obtain ⟨hone, htwo, hblock⟩ := adlerBlock_toNat (data.take 5552) hlt
      have hpos := List.length_pos_iff.mpr hdata
      have hshorter : (data.drop 5552).length < n := by
        rw [List.length_drop]
        omega
      have hmod : ∀ x : BitVec 32, (x % 65521).toNat < modulus := by
        intro x
        rw [toNat_mod_adler]
        exact Nat.mod_lt _ (by decide)
      obtain ⟨hvalue, hrest⟩ := ih _ hshorter _ _ (data.drop 5552)
        (hmod (adlerBlock a b (data.take 5552)).1) (hmod (adlerBlock a b (data.take 5552)).2) rfl
      rw [toNat_mod_adler, toNat_mod_adler, hone, htwo] at hvalue
      -- the remainders taken after the block change nothing modulo 65521
      obtain ⟨hfirst, hsecond⟩ := sums_modEq (data.drop 5552)
        (Nat.mod_modEq (sums a.toNat b.toNat (data.take 5552)).1 modulus)
        (Nat.mod_modEq (sums a.toNat b.toNat (data.take 5552)).2 modulus)
      rw [← sums_append, List.take_append_drop] at hfirst hsecond
      rw [adlerLoop_eq a b hdata, adlerAdditions, if_neg hdata]
      constructor
      · rw [hvalue, hfirst, hsecond]
      · intro p hp
        rcases List.mem_append.mp hp with hp | hp
        · exact hblock p hp
        · exact hrest p hp

/-- The checksum of a message is Adler-32, computed without a sum that leaves 32 bits; the
checksum of a longer one is 0. -/
theorem adlerChecksum_eq_adler32 (data : List UInt8) :
    (adlerChecksum data).toNat =
        (if data.length ≤ networkMessageMaxSize then adler32 data else 0) ∧
      ∀ p ∈ adlerAdditions 1 0 data, p.1.toNat + p.2.toNat < 2 ^ 32 := by
  obtain ⟨hvalue, hadditions⟩ := adlerLoop_toNat 1 0 data (by decide) (by decide)
  have hone : (1 : BitVec 32).toNat = 1 := rfl
  have hzero : (0 : BitVec 32).toNat = 0 := rfl
  rw [hone, hzero, sums_eq] at hvalue
  refine ⟨?_, hadditions⟩
  unfold adlerChecksum
  by_cases hlength : data.length ≤ networkMessageMaxSize
  · rw [if_neg (by omega), if_pos hlength]
    exact hvalue
  · rw [if_pos (by omega), if_neg hlength]
    rfl


end TibiaServer.Output
