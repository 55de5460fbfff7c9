import Mathlib.Algebra.Order.Field.Power
import Mathlib.Data.Rat.Floor
/-!
# What a magic level requires

`getReqMana` is 400 times a power of the vocation's multiplier, rounded to a multiple of 20.  The
branch that is to round up takes the remainder and 20 more off, so it rounds to 20 below the lower
multiple; the numbers are nearest, and grow, where that branch is never taken.
-/

namespace TibiaServer.Vocations

/-- The difference of two `uint64_t`. -/
def sub64 (a b : ℕ) : ℕ := (a + 18446744073709551616 - b) % 18446744073709551616

/-- The multipliers are `float`s, taken as exact ratios. -/
structure Vocation where
  manaMultiplier : ℚ := 4

namespace Vocation

variable (v : Vocation)

/-- `400 * pow(manaMultiplier, magLevel - 1)` -/
def manaFormula (magLevel : ℕ) : ℚ := 400 * v.manaMultiplier ^ ((magLevel : ℤ) - 1)

/-- Without the cache, which keeps just these numbers. -/
def getReqMana (magLevel : ℕ) : ℕ :=
  let reqMana := ⌊v.manaFormula magLevel⌋₊ % 18446744073709551616
  let modResult := reqMana % 20
  if modResult < 10 then sub64 reqMana modResult else sub64 reqMana (modResult + 20)

def Fits (magLevel : ℕ) : Prop := v.manaFormula magLevel < 18446744073709551616

/-- The number is a multiple of 20, and none is nearer to the formula. -/
structure Nearest (magLevel : ℕ) : Prop where
  multiple : 20 ∣ v.getReqMana magLevel
  nearest : ∀ k : ℕ, |(v.getReqMana magLevel : ℚ) - v.manaFormula magLevel| ≤
    |(20 * k : ℚ) - v.manaFormula magLevel|

/-- The branch that rounds down is taken. -/
def RoundsDown (magLevel : ℕ) : Prop := ⌊v.manaFormula magLevel⌋₊ % 20 < 10

variable {v} {magLevel : ℕ}

theorem floor_lt (hfits : v.Fits magLevel) :
    ⌊v.manaFormula magLevel⌋₊ < 18446744073709551616 :=
  (Nat.floor_lt' (by decide)).mpr hfits

theorem getReqMana_down (hfits : v.Fits magLevel) (hdown : v.RoundsDown magLevel) :
    v.getReqMana magLevel = ⌊v.manaFormula magLevel⌋₊ / 20 * 20 := by
  have hlt := floor_lt hfits
  unfold RoundsDown at hdown
  unfold getReqMana
  dsimp only
  rw [Nat.mod_eq_of_lt hlt, if_pos hdown]
  unfold sub64
  omega

/-- Otherwise the number is 20 below the lower multiple, if it is not below 0. -/
theorem getReqMana_up (hfits : v.Fits magLevel) (hup : ¬ v.RoundsDown magLevel) :
    v.getReqMana magLevel + 20 = ⌊v.manaFormula magLevel⌋₊ / 20 * 20 ∨
      ⌊v.manaFormula magLevel⌋₊ < 20 ∧ v.getReqMana magLevel = 18446744073709551596 := by
  have hlt := floor_lt hfits
  unfold RoundsDown at hup
  unfold getReqMana
  dsimp only
  rw [Nat.mod_eq_of_lt hlt, if_neg hup]
  unfold sub64
  rcases Nat.lt_or_ge ⌊v.manaFormula magLevel⌋₊ 20 with hless | hge
  · right
    omega
  · left
    omega

theorem floor_bounds (h : 0 < v.manaMultiplier) (magLevel : ℕ) :
    (⌊v.manaFormula magLevel⌋₊ : ℚ) ≤ v.manaFormula magLevel ∧
      v.manaFormula magLevel < ⌊v.manaFormula magLevel⌋₊ + 1 := by
  have hpos : 0 ≤ v.manaFormula magLevel := by
    unfold manaFormula
    positivity
  exact ⟨Nat.floor_le hpos, Nat.lt_floor_add_one _⟩

/-- The lower multiple and what the formula is above it. -/
theorem lower_bounds (h : 0 < v.manaMultiplier) (magLevel : ℕ) :
    ∃ q r : ℕ, ⌊v.manaFormula magLevel⌋₊ / 20 = q ∧ ⌊v.manaFormula magLevel⌋₊ % 20 = r ∧
      (20 * q + r : ℚ) ≤ v.manaFormula magLevel ∧ v.manaFormula magLevel < 20 * q + r + 1 := by
  obtain ⟨hlow, hhigh⟩ := floor_bounds h magLevel
  have hsplit := Nat.div_add_mod ⌊v.manaFormula magLevel⌋₊ 20
  rw [← hsplit] at hlow hhigh
  push_cast at hlow hhigh
  exact ⟨_, _, rfl, rfl, hlow, hhigh⟩

theorem roundsDown_of_nearest (h : 0 < v.manaMultiplier) (hfits : v.Fits magLevel)
    (hnearest : v.Nearest magLevel) : v.RoundsDown magLevel := by
  by_contra hup
  obtain ⟨q, r, hq, hr, hlow, hhigh⟩ := lower_bounds h magLevel
  have hother := hnearest.nearest q
  unfold RoundsDown at hup
  rw [hr] at hup
  have hr' : (r : ℚ) ≤ 19 := by
    have hmod := Nat.mod_lt ⌊v.manaFormula magLevel⌋₊ (show 0 < 20 by decide)
    exact_mod_cast (show r ≤ 19 by omega)
  have hr'' : (10 : ℚ) ≤ r := by exact_mod_cast not_lt.mp hup
  have habove : |(20 * q : ℚ) - v.manaFormula magLevel| < 20 := by
    rw [abs_lt]
    constructor <;> linarith
  have hup' : ¬ v.RoundsDown magLevel := by
    unfold RoundsDown
    rwa [hr]
  rcases getReqMana_up hfits hup' with hbelow | ⟨hsmall, hwrapped⟩
  · -- 20 below the lower multiple
    have hbelow' : (v.getReqMana magLevel : ℚ) + 20 = 20 * q := by
      rw [hq] at hbelow
      exact_mod_cast hbelow.trans (Nat.mul_comm q 20)
    have hfar : v.manaFormula magLevel - v.getReqMana magLevel ≤
        |(v.getReqMana magLevel : ℚ) - v.manaFormula magLevel| := by
      rw [abs_sub_comm]
      exact le_abs_self _
    linarith
  · -- 20 below 0
    have hq' : (q : ℚ) = 0 := by exact_mod_cast (show q = 0 by omega)
    have hfar := le_abs_self ((v.getReqMana magLevel : ℚ) - v.manaFormula magLevel)
    rw [hwrapped] at hfar hother
    push_cast at hfar hother
    linarith

theorem nearest_of_roundsDown (h : 0 < v.manaMultiplier) (hfits : v.Fits magLevel)
    (hdown : v.RoundsDown magLevel) : v.Nearest magLevel := by
  obtain ⟨q, r, hq, hr, hlow, hhigh⟩ := lower_bounds h magLevel
  have hreq := getReqMana_down hfits hdown
  rw [hq] at hreq
  unfold RoundsDown at hdown
  rw [hr] at hdown
  have hr' : (r : ℚ) ≤ 9 := by exact_mod_cast (show r ≤ 9 by omega)
  have hr'' : (0 : ℚ) ≤ r := Nat.cast_nonneg r
  refine ⟨⟨q, hreq.trans (Nat.mul_comm q 20)⟩, fun k => ?_⟩
  rw [hreq]
  push_cast
  have hnear : |(q * 20 : ℚ) - v.manaFormula magLevel| = v.manaFormula magLevel - 20 * q := by
    rw [abs_of_nonpos (by linarith)]
    ring
  rw [hnear]
  rcases Nat.lt_or_ge q k with habove | hbelow
  · have hk : (q : ℚ) + 1 ≤ k := by exact_mod_cast habove
    have hfar := le_abs_self ((20 * k : ℚ) - v.manaFormula magLevel)
    linarith
  · have hk : (k : ℚ) ≤ q := by exact_mod_cast hbelow
    have hfar := neg_le_abs ((20 * k : ℚ) - v.manaFormula magLevel)
    linarith

/-! ## The ladder -/

theorem manaFormula_succ (h : 0 < v.manaMultiplier) (magLevel : ℕ) :
    v.manaFormula (magLevel + 1) = v.manaFormula magLevel * v.manaMultiplier := by
  unfold manaFormula
  rw [mul_assoc, ← zpow_add_one₀ h.ne']
  push_cast
  ring_nf

theorem le_manaFormula (h : 1 ≤ v.manaMultiplier) (hlevel : 1 ≤ magLevel) :
    400 ≤ v.manaFormula magLevel := by
  have hpower : (1 : ℚ) ≤ v.manaMultiplier ^ ((magLevel : ℤ) - 1) :=
    one_le_zpow₀ h (by omega)
  unfold manaFormula
  linarith

/-- From level 1 on the formula grows by 20 and more. -/
theorem manaFormula_grows (h : 21 / 20 ≤ v.manaMultiplier) (hlevel : 1 ≤ magLevel) :
    v.manaFormula magLevel + 20 ≤ v.manaFormula (magLevel + 1) := by
  have hone : 1 ≤ v.manaMultiplier := by linarith
  have hlow := le_manaFormula hone hlevel
  rw [manaFormula_succ (by linarith)]
  calc v.manaFormula magLevel + 20
    _ ≤ v.manaFormula magLevel * (21 / 20) := by linarith
    _ ≤ v.manaFormula magLevel * v.manaMultiplier :=
      mul_le_mul_of_nonneg_left h (by linarith)

theorem getReqMana_grows (h : 21 / 20 ≤ v.manaMultiplier) (hlevel : 1 ≤ magLevel)
    (hfits : v.Fits (magLevel + 1)) (hdown : v.RoundsDown magLevel)
    (hdown' : v.RoundsDown (magLevel + 1)) :
    v.getReqMana magLevel < v.getReqMana (magLevel + 1) := by
  have hgrows := manaFormula_grows h hlevel
  have hone : 1 ≤ v.manaMultiplier := by linarith
  have hlow := le_manaFormula hone hlevel
  have hfits' : v.Fits magLevel := lt_of_le_of_lt (by linarith) hfits
  rw [getReqMana_down hfits' hdown, getReqMana_down hfits hdown']
  have hfloor : ⌊v.manaFormula magLevel⌋₊ + 20 ≤ ⌊v.manaFormula (magLevel + 1)⌋₊ := by
    apply Nat.le_floor
    push_cast
    have hle := Nat.floor_le (show 0 ≤ v.manaFormula magLevel by linarith)
    linarith
  omega

/-- The numbers are the nearest multiples of 20 and grow from level 1 on exactly where every one
of them is rounded down. -/
theorem ladder_iff (v : Vocation) (h : 21 / 20 ≤ v.manaMultiplier) :
    ((∀ magLevel, v.Fits magLevel → v.Nearest magLevel) ∧
      ∀ magLevel, 1 ≤ magLevel → v.Fits magLevel → v.Fits (magLevel + 1) →
        v.getReqMana magLevel < v.getReqMana (magLevel + 1)) ↔
    ∀ magLevel, v.Fits magLevel → v.RoundsDown magLevel := by
  have hpos : 0 < v.manaMultiplier := by linarith
  constructor
  · exact fun hladder magLevel hfits => roundsDown_of_nearest hpos hfits (hladder.1 magLevel hfits)
  · intro hdown
    refine ⟨fun magLevel hfits => nearest_of_roundsDown hpos hfits (hdown magLevel hfits), ?_⟩
    intro magLevel hlevel hfits hfits'
    exact getReqMana_grows h hlevel hfits' (hdown magLevel hfits) (hdown (magLevel + 1) hfits')

/-- With the multiplier 4 every number is a multiple of 20 before it is rounded. -/
theorem fourfold_ladder :
    (∀ magLevel, ({} : Vocation).Fits magLevel → ({} : Vocation).Nearest magLevel) ∧
      ∀ magLevel, 1 ≤ magLevel → ({} : Vocation).Fits magLevel →
        ({} : Vocation).Fits (magLevel + 1) →
          ({} : Vocation).getReqMana magLevel < ({} : Vocation).getReqMana (magLevel + 1) := by
  refine (ladder_iff {} (by norm_num)).mpr fun magLevel _ => ?_
  have hformula : ({} : Vocation).manaFormula magLevel = (20 * (5 * 4 ^ magLevel) : ℕ) := by
    unfold manaFormula
    rw [zpow_sub_one₀ (by norm_num), zpow_natCast]
    push_cast
    ring
  unfold RoundsDown
  rw [hformula, Nat.floor_natCast, Nat.mul_mod_right]
  decide

/-- With the multiplier 1.05 levels 5 and 6 both require 480, though 510.5 is nearest to 520. -/
theorem levels_five_and_six : ¬ ∀ v : Vocation, 21 / 20 ≤ v.manaMultiplier →
    (∀ magLevel, v.Fits magLevel → v.Nearest magLevel) ∧
      ∀ magLevel, 1 ≤ magLevel → v.Fits magLevel → v.Fits (magLevel + 1) →
        v.getReqMana magLevel < v.getReqMana (magLevel + 1) := by
  intro h
  have hgrows := (h { manaMultiplier := 21 / 20 } le_rfl).2 5 (by decide)
    (by unfold Fits; decide +kernel) (by unfold Fits; decide +kernel)
  revert hgrows
  decide +kernel

end Vocation

end TibiaServer.Vocations
