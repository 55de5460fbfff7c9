import Mathlib.Algebra.BigOperators.Group.Finset.Basic
import Mathlib.Algebra.GroupWithZero.Nat
/-!
# Goods in places

Finitely many places hold lists of things, and each thing counts for some number
of units.  `total` is what all places hold together.  It moves with a thing that
is put down or taken up, and with the units of a thing that stands in one place.
-/

namespace TibiaServer.Library.Stock

variable {ι α : Type*}

/-- The units in a list. -/
def amount (f : α → ℕ) (xs : List α) : ℕ := (xs.map f).sum

/-- The units in all places. -/
def total (places : Finset ι) (contents : ι → List α) (f : α → ℕ) : ℕ :=
  ∑ i ∈ places, amount f (contents i)

theorem amount_cons (f : α → ℕ) (x : α) (xs : List α) :
    amount f (x :: xs) = f x + amount f xs := by
  simp [amount]

theorem amount_perm {f : α → ℕ} {xs ys : List α} (h : xs.Perm ys) : amount f xs = amount f ys :=
  (h.map f).sum_eq

theorem amount_congr {f g : α → ℕ} {xs : List α} (h : ∀ x ∈ xs, f x = g x) :
    amount f xs = amount g xs := by
  unfold amount
  rw [List.map_congr_left h]

/-- One thing that occurs once counts for something else. -/
theorem amount_change {f g : α → ℕ} {x : α} {xs : List α} (hnodup : xs.Nodup) (hx : x ∈ xs)
    (hothers : ∀ y ∈ xs, y ≠ x → g y = f y) : amount g xs + f x = amount f xs + g x := by
  obtain ⟨before, after, hxs⟩ := List.append_of_mem hx
  subst hxs
  have hperm : (before ++ x :: after).Perm (x :: (before ++ after)) := List.perm_middle
  have hnodup' : (x :: (before ++ after)).Nodup := hperm.nodup_iff.mp hnodup
  have hrest : amount g (before ++ after) = amount f (before ++ after) := by
    apply amount_congr
    intro y hy
    have hne : y ≠ x := by
      intro heq
      subst heq
      exact (List.nodup_cons.mp hnodup').1 hy
    have hmem : y ∈ before ++ x :: after := hperm.mem_iff.mpr (List.mem_cons_of_mem x hy)
    exact hothers y hmem hne
  rw [amount_perm hperm, amount_perm hperm, amount_cons, amount_cons, hrest]
  omega

section Total

variable {places : Finset ι} {contents contents' : ι → List α} {f g : α → ℕ}

theorem total_congr (hcontents : ∀ i ∈ places, (contents' i).Perm (contents i))
    (hf : ∀ i ∈ places, ∀ x ∈ contents i, g x = f x) :
    total places contents' g = total places contents f := by
  unfold total
  apply Finset.sum_congr rfl
  intro i hi
  rw [amount_perm (hcontents i hi)]
  exact amount_congr (hf i hi)

/-- A thing that is put down adds its units. -/
theorem total_add [DecidableEq ι] {i : ι} {x : α} (hi : i ∈ places)
    (hadd : (contents' i).Perm (x :: contents i))
    (hothers : ∀ j, j ≠ i → contents' j = contents j) :
    total places contents' f = total places contents f + f x := by
  unfold total
  rw [← Finset.add_sum_erase places _ hi, ← Finset.add_sum_erase places _ hi, amount_perm hadd,
    amount_cons]
  have hrest : ∑ j ∈ places.erase i, amount f (contents' j) =
      ∑ j ∈ places.erase i, amount f (contents j) := by
    apply Finset.sum_congr rfl
    intro j hj
    rw [hothers j (Finset.ne_of_mem_erase hj)]
  omega

/-- A thing that stands in one place and changes its units changes the total by them. -/
theorem total_change [DecidableEq ι] {i : ι} {x : α} (hi : i ∈ places) (hx : x ∈ contents i)
    (hnodup : (contents i).Nodup) (honly : ∀ j, j ≠ i → x ∉ contents j)
    (hothers : ∀ y, y ≠ x → g y = f y) :
    total places contents g + f x = total places contents f + g x := by
  unfold total
  rw [← Finset.add_sum_erase places _ hi, ← Finset.add_sum_erase places _ hi]
  have hhere := amount_change hnodup hx fun y _ => hothers y
  have hrest : ∑ j ∈ places.erase i, amount g (contents j) =
      ∑ j ∈ places.erase i, amount f (contents j) := by
    apply Finset.sum_congr rfl
    intro j hj
    apply amount_congr
    intro y hy
    apply hothers
    intro heq
    subst heq
    exact honly j (Finset.ne_of_mem_erase hj) hy
  omega

end Total

/-- Filling an empty slot adds its item to what the slots hold. -/
theorem perm_filterMap_update [DecidableEq ι] {slots : List ι} (hslots : slots.Nodup) {i : ι}
    (hi : i ∈ slots) {inventory : ι → Option α} (hempty : inventory i = none) (x : α) :
    (slots.filterMap (Function.update inventory i (some x))).Perm
      (x :: slots.filterMap inventory) := by
  induction slots with
  | nil => simp at hi
  | cons j slots ih =>
    have hnodup := List.nodup_cons.mp hslots
    by_cases hj : j = i
    · subst hj
      have hrest : slots.filterMap (Function.update inventory j (some x)) =
          slots.filterMap inventory := by
        apply List.filterMap_congr
        intro k hk
        have hkj : k ≠ j := fun heq => hnodup.1 (heq ▸ hk)
        rw [Function.update_of_ne hkj]
      simp [hempty, hrest]
    · have hmem : i ∈ slots := by
        rcases List.mem_cons.mp hi with heq | hmem
        · exact absurd heq.symm hj
        · exact hmem
      have hih := ih hnodup.2 hmem
      cases hval : inventory j with
      | none => simpa [List.filterMap_cons, Function.update_of_ne hj, hval] using hih
      | some a =>
        simp only [List.filterMap_cons, Function.update_of_ne hj, hval]
        exact (hih.cons a).trans (List.Perm.swap x a _)

end TibiaServer.Library.Stock
