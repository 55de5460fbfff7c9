import Mathlib.Data.List.Count
import Mathlib.Data.Nat.ModEq
import Mathlib.Tactic.Ring
/-!
# One counter for several periods

Each round adds `d` to a counter, which some rounds set to zero in the end.  A period `s`
is due in a round whose counter has reached it and is less than `d` past one of its
multiples.  It keeps its rate exactly if the counter is only set to zero at its multiples.
-/

namespace TibiaServer.Library.SharedTicks

variable (d : ℕ) (resets : ℕ → Prop) [DecidablePred resets]

/-- The counter before round `n`. -/
def before : ℕ → ℕ
  | 0 => 0
  | n + 1 => if resets n then 0 else before n + d

/-- The counter that round `n` compares. -/
def ticks (n : ℕ) : ℕ := before d resets n + d

def Due (s n : ℕ) : Prop := s ≤ ticks d resets n ∧ ticks d resets n % s < d

instance (s n : ℕ) : Decidable (Due d resets s n) := inferInstanceAs (Decidable (_ ∧ _))

/-- How often the period is due in the first `n` rounds. -/
def times (s n : ℕ) : ℕ := (List.range n).countP fun k => Due d resets s k

theorem times_succ (s n : ℕ) :
    times d resets s (n + 1) = times d resets s n + if Due d resets s n then 1 else 0 := by
  rw [times, List.range_succ, List.countP_append, List.countP_singleton]
  simp only [times, decide_eq_true_eq]

theorem dvd_before (n : ℕ) : d ∣ before d resets n := by
  induction n with
  | zero => exact dvd_zero d
  | succ n ih =>
    rw [before]
    split_ifs
    · exact dvd_zero d
    · exact Nat.dvd_add ih dvd_rfl

variable {d} {k : ℕ}

/-- For a multiple of the step a period is due at its multiples. -/
theorem due_iff (hd : 0 < d) (n : ℕ) :
    Due d resets (d * k) n ↔ d * k ∣ ticks d resets n := by
  have hpos : 0 < ticks d resets n := Nat.add_pos_right _ hd
  constructor
  · rintro ⟨-, hmod⟩
    have hticks : d ∣ ticks d resets n := Nat.dvd_add (dvd_before d resets n) dvd_rfl
    have hdvd : d ∣ ticks d resets n % (d * k) := (Nat.dvd_mod_iff (dvd_mul_right d k)).mpr hticks
    exact Nat.dvd_of_mod_eq_zero (Nat.eq_zero_of_dvd_of_lt hdvd hmod)
  · intro hdvd
    exact ⟨Nat.le_of_dvd hpos hdvd, by rw [Nat.mod_eq_zero_of_dvd hdvd]; exact hd⟩

theorem rate_succ (hd : 0 < d) (n : ℕ) :
    (n + 1) * d / (d * k) = n * d / (d * k) + if d * k ∣ (n + 1) * d then 1 else 0 := by
  have hdiv : ∀ m, m * d / (d * k) = m / k := by
    intro m
    rw [Nat.mul_comm, Nat.mul_div_mul_left _ _ hd]
  have hdvd : d * k ∣ (n + 1) * d ↔ k ∣ n + 1 := by
    rw [Nat.mul_comm (n + 1), Nat.mul_dvd_mul_iff_left hd]
  rw [hdiv, hdiv, Nat.succ_div, if_congr hdvd rfl rfl]

/-- Where the counter is set to zero at multiples only, it counts like one that never is. -/
theorem before_modEq {m : ℕ} (h : ∀ n < m, resets n → d * k ∣ ticks d resets n) :
    before d resets m ≡ m * d [MOD d * k] := by
  induction m with
  | zero => rw [before, Nat.zero_mul]
  | succ m ih =>
    have hnext : ticks d resets m ≡ (m + 1) * d [MOD d * k] := by
      rw [Nat.add_mul, Nat.one_mul]
      exact (ih fun n hn => h n (Nat.lt_succ_of_lt hn)).add_right d
    rw [before]
    split_ifs with hreset
    · exact ((Nat.modEq_zero_iff_dvd.mpr (h m (Nat.lt_succ_self m) hreset)).symm).trans hnext
    · exact hnext

theorem due_iff_of_multiples (hd : 0 < d) {m : ℕ}
    (h : ∀ n < m, resets n → d * k ∣ ticks d resets n) :
    Due d resets (d * k) m ↔ d * k ∣ (m + 1) * d := by
  have hnext : ticks d resets m ≡ (m + 1) * d [MOD d * k] := by
    rw [Nat.add_mul, Nat.one_mul]
    exact (before_modEq resets h).add_right d
  rw [due_iff resets hd]
  exact hnext.dvd_iff dvd_rfl

/-- After a round that sets the counter to zero it grows by at most one step a round. -/
theorem before_le {n : ℕ} (h : resets n) (j : ℕ) : before d resets (n + 1 + j) ≤ j * d := by
  induction j with
  | zero => simp [before, h]
  | succ j ih =>
    rw [← Nat.add_assoc, before]
    split_ifs
    · exact Nat.zero_le _
    · rw [Nat.add_mul, Nat.one_mul]
      exact Nat.add_le_add_right ih d

/-- A period keeps its rate exactly if the counter is set to zero at its multiples only. -/
theorem times_eq_iff (hd : 0 < d) (hk : 0 < k) :
    (∀ n, times d resets (d * k) n = n * d / (d * k)) ↔
      ∀ n, resets n → d * k ∣ ticks d resets n := by
  constructor
  · intro hrate
    have hdue : ∀ n, Due d resets (d * k) n ↔ d * k ∣ (n + 1) * d := by
      intro n
      have hsucc := hrate (n + 1)
      rw [times_succ, hrate n, rate_succ hd] at hsucc
      by_cases h : Due d resets (d * k) n <;> by_cases h' : d * k ∣ (n + 1) * d <;>
        simp_all
    intro n
    induction n using Nat.strong_induction_on with
    | _ n ih =>
      intro hreset
      by_contra hno
      have hnext : ¬k ∣ n + 1 := by
        intro hdvd
        have hticks := (due_iff resets hd n).symm.trans (due_iff_of_multiples resets hd ih)
        exact hno (hticks.mpr (Nat.mul_comm d (n + 1) ▸ Nat.mul_dvd_mul_left d hdvd))
      have hrest : 0 < (n + 1) % k := Nat.pos_of_ne_zero fun h => hnext (Nat.dvd_of_mod_eq_zero h)
      -- the next multiple comes before the counter has reached the period again
      obtain ⟨j, hj⟩ : ∃ j, (n + 1) % k + (j + 1) = k :=
        ⟨k - (n + 1) % k - 1, by have := Nat.mod_lt (n + 1) hk; omega⟩
      have hmultiple : k ∣ n + 1 + j + 1 := by
        have hsum := Nat.mod_add_div (n + 1) k
        exact ⟨(n + 1) / k + 1, by rw [Nat.mul_add, Nat.mul_one]; omega⟩
      have hreached := ((hdue (n + 1 + j)).mpr
        (Nat.mul_comm d (n + 1 + j + 1) ▸ Nat.mul_dvd_mul_left d hmultiple)).1
      have hlow := before_le (d := d) resets hreset j
      have hless : (j + 1) * d < d * k := by
        rw [Nat.mul_comm]
        exact Nat.mul_lt_mul_of_pos_left (by omega) hd
      rw [Nat.add_mul, Nat.one_mul] at hless
      rw [ticks] at hreached
      omega
  · intro h n
    induction n with
    | zero => simp [times]
    | succ n ih =>
      rw [times_succ, ih, rate_succ hd]
      exact congrArg _ (if_congr (due_iff_of_multiples resets hd fun m _ => h m) rfl rfl)

/-! ## A counter with a limit -/

section Limit

variable {limit : ℕ}

theorem before_of_no_reset {n : ℕ} (h : ∀ m < n, ¬resets m) : before d resets n = n * d := by
  induction n with
  | zero => rw [before, Nat.zero_mul]
  | succ n ih =>
    rw [before, if_neg (h n (Nat.lt_succ_self n)), ih fun m hm => h m (Nat.lt_succ_of_lt hm),
      Nat.add_mul, Nat.one_mul]

/-- A counter that is set to zero at its limit does not pass it. -/
theorem ticks_le (hpos : 0 < limit) (hlimit : d ∣ limit)
    (h : ∀ n, limit ≤ ticks d resets n → resets n) (n : ℕ) : ticks d resets n ≤ limit := by
  induction n with
  | zero =>
    rw [ticks, before, Nat.zero_add]
    exact Nat.le_of_dvd hpos hlimit
  | succ n ih =>
    rw [ticks, before]
    split_ifs with hreset
    · rw [Nat.zero_add]
      exact Nat.le_of_dvd hpos hlimit
    · -- both are multiples of the step
      have hbelow : ticks d resets n < limit := not_le.mp fun hle => hreset (h n hle)
      have hdvd : d ∣ ticks d resets n := Nat.dvd_add (dvd_before d resets n) dvd_rfl
      obtain ⟨a, ha⟩ := hdvd
      obtain ⟨b, rfl⟩ := hlimit
      rw [ha] at hbelow
      have hab : a + 1 ≤ b := Nat.lt_of_mul_lt_mul_left hbelow
      have hgoal := Nat.mul_le_mul_left d hab
      rw [Nat.mul_add, Nat.mul_one, ← ha] at hgoal
      exact hgoal

theorem resets_sometimes (hd : 0 < d) (h : ∀ n, resets n ↔ limit ≤ ticks d resets n) :
    ∃ n, resets n := by
  by_contra hnone
  have hno : ∀ n, ¬resets n := fun n hn => hnone ⟨n, hn⟩
  apply hno limit
  rw [h, ticks, before_of_no_reset resets fun m _ => hno m]
  exact Nat.le_add_right_of_le (Nat.le_mul_of_pos_right limit hd)

/-- A period keeps its rate under such a counter exactly if it divides the limit. -/
theorem multiples_iff_dvd (hd : 0 < d) (hpos : 0 < limit) (hlimit : d ∣ limit)
    (h : ∀ n, resets n ↔ limit ≤ ticks d resets n) (s : ℕ) :
    (∀ n, resets n → s ∣ ticks d resets n) ↔ s ∣ limit := by
  have hat : ∀ n, resets n → ticks d resets n = limit := fun n hn =>
    le_antisymm (ticks_le resets hpos hlimit (fun m => (h m).mpr) n) ((h n).mp hn)
  constructor
  · intro hall
    obtain ⟨n, hn⟩ := resets_sometimes resets hd h
    rw [← hat n hn]
    exact hall n hn
  · intro hdvd n hn
    rw [hat n hn]
    exact hdvd

end Limit

end TibiaServer.Library.SharedTicks
