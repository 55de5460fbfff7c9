import Mathlib.Algebra.BigOperators.Field
import Mathlib.Data.Rat.Floor
import Mathlib.Tactic.Positivity
import TibiaServer.Cylinders.Item
/-!
# Shares of experience

A creature counts the damage of each attacker.  When it dies, an attacker gains the experience in
the ratio of his damage to all damage.  Both are counted in 32 bits, so the shares are more than
the whole as soon as the sum of all counters wraps.
-/

namespace TibiaServer.World

open Cylinders (toInt32)

namespace ExperienceShares

structure CountBlock_t where
  /-- an `int32_t` -/
  total : ℤ
  ticks : ℤ

/-- The `damageMap` with the ids of the attackers as its keys. -/
structure Creature where
  attackers : List ℕ := []
  damage : ℕ → CountBlock_t := fun _ => ⟨0, 0⟩
  lastHitCreatureId : ℕ := 0
  nodup : attackers.Nodup := by exact List.nodup_nil

namespace Creature

variable (creature : Creature)

/-- At the time `now`, from the creature with the id `attackerId`. -/
def addDamagePoints (now : ℤ) (attackerId : ℕ) (damagePoints : ℤ) : Creature :=
  if damagePoints ≤ 0 then creature
  else if hnew : attackerId ∉ creature.attackers then
    { attackers := attackerId :: creature.attackers
      damage := Function.update creature.damage attackerId ⟨damagePoints, now⟩
      lastHitCreatureId := attackerId
      nodup := List.nodup_cons.mpr ⟨hnew, creature.nodup⟩ }
  else
    { creature with
      damage := Function.update creature.damage attackerId
        ⟨toInt32 ((creature.damage attackerId).total + damagePoints), now⟩
      lastHitCreatureId := attackerId }

/-- The counter of an attacker as a `uint32_t`. -/
def counted (attackerId : ℕ) : ℕ := ((creature.damage attackerId).total % 4294967296).toNat

/-- The loop of `getDamageRatio` over the attackers with `p`. -/
def sumDamage (p : ℕ → Bool) : ℕ :=
  creature.attackers.foldl (fun sum attackerId =>
    if p attackerId then (sum + creature.counted attackerId) % 4294967296 else sum) 0

/-- A `double`, taken as an exact ratio. -/
def getDamageRatio (attackerId : ℕ) : ℚ :=
  let totalDamage := creature.sumDamage fun _ => true
  let attackerDamage := creature.sumDamage fun id => id = attackerId
  if totalDamage = 0 then 0 else attackerDamage / totalDamage

def getGainedExperience (getLostExperience attackerId : ℕ) : ℕ :=
  ⌊creature.getDamageRatio attackerId * getLostExperience⌋₊

/-- What all attackers gain. -/
def sharedExperience (getLostExperience : ℕ) : ℕ :=
  (creature.attackers.map (creature.getGainedExperience getLostExperience)).sum

end Creature

/-- A hit: when, by whom, how much. -/
structure Hit where
  now : ℤ
  attackerId : ℕ
  damagePoints : ℤ

/-- The creature after a fight. -/
def fought (history : List Hit) : Creature :=
  history.foldl (fun creature hit =>
    creature.addDamagePoints hit.now hit.attackerId hit.damagePoints) {}

/-- The damage that an attacker has done. -/
def pointsOf (history : List Hit) (attackerId : ℕ) : ℤ :=
  (history.map fun hit => if hit.attackerId = attackerId then max 0 hit.damagePoints else 0).sum

/-- What the counters have come to, each of 32 bits. -/
def countedDamage (history : List Hit) : ℕ :=
  ∑ attackerId ∈ (history.map Hit.attackerId).toFinset,
    (pointsOf history attackerId % 4294967296).toNat

/-! ## The counters -/

theorem pointsOf_concat (history : List Hit) (hit : Hit) (attackerId : ℕ) :
    pointsOf (history ++ [hit]) attackerId = pointsOf history attackerId +
      if hit.attackerId = attackerId then max 0 hit.damagePoints else 0 := by
  unfold pointsOf
  rw [List.map_append, List.sum_append, List.map_singleton, List.sum_singleton]

theorem fought_concat (history : List Hit) (hit : Hit) : fought (history ++ [hit]) =
    (fought history).addDamagePoints hit.now hit.attackerId hit.damagePoints := by
  unfold fought
  rw [List.foldl_append]
  rfl

theorem toInt32_emod (n : ℤ) : toInt32 n % 4294967296 = n % 4294967296 := Int.bmod_emod

/-- The attackers are counted with what they have done, modulo 2^32. -/
structure Counts (history : List Hit) (creature : Creature) : Prop where
  total : ∀ id ∈ creature.attackers,
    (creature.damage id).total % 4294967296 = pointsOf history id % 4294967296
  hit : ∀ id ∈ creature.attackers, id ∈ history.map Hit.attackerId
  zero : ∀ id ∉ creature.attackers, pointsOf history id = 0

theorem pointsOf_concat_of_ne {history : List Hit} {hit : Hit} {attackerId : ℕ}
    (hne : attackerId ≠ hit.attackerId) :
    pointsOf (history ++ [hit]) attackerId = pointsOf history attackerId := by
  rw [pointsOf_concat, if_neg hne.symm, add_zero]

theorem Counts.concat {history : List Hit} {creature : Creature} (h : Counts history creature)
    (hit : Hit) : Counts (history ++ [hit])
      (creature.addDamagePoints hit.now hit.attackerId hit.damagePoints) := by
  have hself := pointsOf_concat history hit hit.attackerId
  rw [if_pos rfl] at hself
  have hids : ∀ {id}, id ∈ history.map Hit.attackerId ∨ id = hit.attackerId →
      id ∈ (history ++ [hit]).map Hit.attackerId := by
    intro id hid
    simpa using hid
  unfold Creature.addDamagePoints
  split_ifs with hnone hnew
  · have hsame : ∀ id, pointsOf (history ++ [hit]) id = pointsOf history id := by
      intro id
      rw [pointsOf_concat, max_eq_left hnone, ite_self, add_zero]
    constructor
    · intro id hid
      rw [hsame]
      exact h.total id hid
    · exact fun id hid => hids (.inl (h.hit id hid))
    · intro id hid
      rw [hsame]
      exact h.zero id hid
  · -- the attacker has hit before
    constructor
    · intro id hid
      dsimp only at hid ⊢
      by_cases heq : id = hit.attackerId
      · subst heq
        rw [Function.update_self, hself, max_eq_right (not_le.mp hnone).le, toInt32_emod,
          Int.add_emod, h.total _ hid, ← Int.add_emod]
      · rw [Function.update_of_ne heq, pointsOf_concat_of_ne heq]
        exact h.total id hid
    · exact fun id hid => hids (.inl (h.hit id hid))
    · intro id hid
      have hne : id ≠ hit.attackerId := by
        rintro rfl
        exact hid hnew
      rw [pointsOf_concat_of_ne hne]
      exact h.zero id hid
  · have hpoints := h.zero _ hnew
    constructor
    · intro id hid
      dsimp only
      by_cases heq : id = hit.attackerId
      · subst heq
        rw [Function.update_self, hself, hpoints, zero_add, max_eq_right (not_le.mp hnone).le]
      · rw [Function.update_of_ne heq, pointsOf_concat_of_ne heq]
        exact h.total id ((List.mem_cons.mp hid).resolve_left heq)
    · intro id hid
      exact hids ((List.mem_cons.mp hid).elim .inr fun hid => .inl (h.hit id hid))
    · intro id hid
      obtain ⟨hne, hold⟩ := not_or.mp (List.mem_cons.not.mp hid)
      rw [pointsOf_concat_of_ne hne]
      exact h.zero id hold

theorem counts_fought (history : List Hit) : Counts history (fought history) := by
  induction history using List.reverseRecOn with
  | nil => exact ⟨nofun, nofun, fun _ _ => rfl⟩
  | append_singleton history hit ih =>
    rw [fought_concat]
    exact ih.concat hit

/-- The counters of the attackers taken together. -/
theorem sum_counted (history : List Hit) :
    ∑ id ∈ (fought history).attackers.toFinset, (fought history).counted id =
      countedDamage history := by
  have h := counts_fought history
  have hsubset : (fought history).attackers.toFinset ⊆
      (history.map Hit.attackerId).toFinset := by
    intro id hid
    exact List.mem_toFinset.mpr (h.hit id (List.mem_toFinset.mp hid))
  unfold countedDamage
  rw [← Finset.sum_subset hsubset]
  · apply Finset.sum_congr rfl
    intro id hid
    unfold Creature.counted
    rw [h.total id (List.mem_toFinset.mp hid)]
  · intro id _ hid
    rw [h.zero id fun hmem => hid (List.mem_toFinset.mpr hmem)]
    rfl

/-! ## The ratio -/

namespace Creature

variable {creature : Creature}

theorem counted_lt (attackerId : ℕ) : creature.counted attackerId < 4294967296 := by
  unfold counted
  omega

theorem sumDamage_eq (p : ℕ → Bool) : creature.sumDamage p =
    (∑ id ∈ creature.attackers.toFinset, if p id then creature.counted id else 0) %
      4294967296 := by
  have hfold : ∀ (l : List ℕ) (sum : ℕ), sum < 4294967296 → l.foldl (fun sum attackerId =>
      if p attackerId then (sum + creature.counted attackerId) % 4294967296 else sum) sum =
        (sum + (l.map fun id => if p id then creature.counted id else 0).sum) % 4294967296 := by
    intro l
    induction l with
    | nil =>
      intro sum hsum
      exact (Nat.mod_eq_of_lt hsum).symm
    | cons id l ih =>
      intro sum hsum
      rw [List.foldl_cons, List.map_cons, List.sum_cons]
      split_ifs
      · rw [ih _ (Nat.mod_lt _ (by decide)), Nat.mod_add_mod, Nat.add_assoc]
      · rw [ih _ hsum, Nat.zero_add]
  unfold sumDamage
  rw [hfold _ 0 (by decide), Nat.zero_add, List.sum_toFinset _ creature.nodup]

theorem sumDamage_one {attackerId : ℕ} (hid : attackerId ∈ creature.attackers) :
    creature.sumDamage (fun id => id = attackerId) = creature.counted attackerId := by
  rw [sumDamage_eq, ← Nat.mod_eq_of_lt (counted_lt attackerId)]
  congr 1
  rw [Finset.sum_eq_single_of_mem attackerId (List.mem_toFinset.mpr hid)]
  · simp
  · intro id _ hne
    simp [hne]

end Creature

theorem sharedExperience_eq (history : List Hit) (getLostExperience : ℕ) :
    (fought history).sharedExperience getLostExperience =
      ∑ id ∈ (fought history).attackers.toFinset,
        ⌊(if countedDamage history % 4294967296 = 0 then (0 : ℚ)
          else (fought history).counted id / (countedDamage history % 4294967296 : ℕ)) *
            getLostExperience⌋₊ := by
  have htotal : (fought history).sumDamage (fun _ => true) = countedDamage history % 4294967296 := by
    rw [Creature.sumDamage_eq, ← sum_counted]
    rfl
  unfold Creature.sharedExperience
  rw [← List.sum_toFinset _ (fought history).nodup]
  apply Finset.sum_congr rfl
  intro id hid
  unfold Creature.getGainedExperience Creature.getDamageRatio
  dsimp only
  rw [htotal, Creature.sumDamage_one (List.mem_toFinset.mp hid)]

/-- All attackers together gain no more than the experience, whatever it is, exactly where the
sum of the counters does not wrap, or wraps to 0. -/
theorem shares_le_iff (history : List Hit) :
    (∀ getLostExperience, (fought history).sharedExperience getLostExperience ≤
      getLostExperience) ↔
    countedDamage history < 4294967296 ∨ countedDamage history % 4294967296 = 0 := by
  have hsum := sum_counted history
  simp only [sharedExperience_eq]
  generalize countedDamage history = total at *
  constructor
  · intro h
    by_contra hwraps
    obtain ⟨hlarge, hzero⟩ := not_or.mp hwraps
    -- with as much experience as the wrapped sum each share is the counter itself
    have hshares := h (total % 4294967296)
    have hpos : ((total % 4294967296 : ℕ) : ℚ) ≠ 0 := by exact_mod_cast hzero
    have hcounter : ∀ n : ℕ, ⌊(if total % 4294967296 = 0 then (0 : ℚ)
        else n / (total % 4294967296 : ℕ)) * (total % 4294967296 : ℕ)⌋₊ = n := by
      intro n
      rw [if_neg hzero, div_mul_cancel₀ _ hpos, Nat.floor_natCast]
    simp only [hcounter, hsum] at hshares
    have hless := Nat.mod_lt total (show 0 < 4294967296 by decide)
    omega
  · intro h getLostExperience
    by_cases hzero : total % 4294967296 = 0
    · simp [hzero]
    · have hmod : total % 4294967296 = total :=
        Nat.mod_eq_of_lt (h.resolve_right hzero)
      rw [hmod] at hzero ⊢
      have hpos : (total : ℚ) ≠ 0 := by exact_mod_cast hzero
      rw [← Nat.cast_le (α := ℚ)]
      calc ((∑ id ∈ (fought history).attackers.toFinset, ⌊(if total = 0 then (0 : ℚ)
            else (fought history).counted id / total) * getLostExperience⌋₊ : ℕ) : ℚ)
        _ = ∑ id ∈ (fought history).attackers.toFinset, ((⌊(if total = 0 then (0 : ℚ)
            else (fought history).counted id / total) * getLostExperience⌋₊ : ℕ) : ℚ) :=
          Nat.cast_sum _ _
        _ ≤ ∑ id ∈ (fought history).attackers.toFinset,
            ((fought history).counted id / total) * (getLostExperience : ℚ) := by
          apply Finset.sum_le_sum
          intro id _
          rw [if_neg hzero]
          exact Nat.floor_le (by positivity)
        _ = ((∑ id ∈ (fought history).attackers.toFinset, (fought history).counted id : ℕ) : ℚ) /
            total * getLostExperience := by
          rw [← Finset.sum_mul, ← Finset.sum_div, Nat.cast_sum]
        _ = getLostExperience := by
          rw [hsum, div_self hpos, one_mul]

/-- Two attackers with 3147483647 and 2000000000 points: their counters sum up to 852516351, of
which each has more than the whole. -/
theorem five_billion_points_wrap : ¬ ∀ (history : List Hit) (getLostExperience : ℕ),
    (fought history).sharedExperience getLostExperience ≤ getLostExperience := by
  intro h
  have hshares := h [⟨0, 1, 2147483647⟩, ⟨1, 1, 1000000000⟩, ⟨2, 2, 2000000000⟩] 100
  revert hshares
  decide +kernel

end ExperienceShares

end TibiaServer.World
