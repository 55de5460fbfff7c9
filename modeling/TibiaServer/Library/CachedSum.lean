import Mathlib.Algebra.BigOperators.Group.Finset.Basic
import Mathlib.Tactic.Abel
import TibiaServer.Library.Ancestors
/-!
# Cached sums in a tree

Every node keeps the sum of the weights of its children, and its own weight comes on
top of that.  `lag` is by how much the sum that is kept is off.  Adding the same
amount to a node and to all above it changes the lag of that node alone, so a change
of weight at one node is made good by one walk up.
-/

namespace TibiaServer.Library.CachedSum

variable {α M : Type*} [AddCommGroup M]

/-- What a node weighs: its own weight and the sum that it keeps. -/
def weight (own total : α → M) (x : α) : M := own x + total x

/-- By how much the sum that a node keeps is more than its children weigh. -/
def lag (children : α → List α) (own total : α → M) (x : α) : M :=
  total x - ((children x).map (weight own total)).sum

open Classical in
/-- `diff` on top of what `x` and all above it keep. -/
noncomputable def addUp (up : α → Option α) (x : α) (diff : M) (total : α → M) (y : α) : M :=
  total y + if AtOrAbove up x y then diff else 0

section Sums

variable {f g : α → M} {xs : List α} {x : α} {d : M}

theorem sum_map_eq (h : ∀ y ∈ xs, g y = f y) : (xs.map g).sum = (xs.map f).sum := by
  rw [List.map_congr_left h]

/-- One thing that occurs once weighs `d` more. -/
theorem sum_map_change (hnodup : xs.Nodup) (hx : x ∈ xs) (hgx : g x = f x + d)
    (hothers : ∀ y ∈ xs, y ≠ x → g y = f y) : (xs.map g).sum = (xs.map f).sum + d := by
  induction xs with
  | nil => exact absurd hx List.not_mem_nil
  | cons z xs ih =>
    obtain ⟨hz, hnodup⟩ := List.nodup_cons.mp hnodup
    simp only [List.map_cons, List.sum_cons]
    by_cases hzx : z = x
    · subst hzx
      have hrest : (xs.map g).sum = (xs.map f).sum := by
        apply sum_map_eq
        intro y hy
        exact hothers y (List.mem_cons_of_mem z hy) fun heq => hz (heq ▸ hy)
      rw [hgx, hrest, add_right_comm]
    · have hmem : x ∈ xs := (List.mem_cons.mp hx).resolve_left fun heq => hzx heq.symm
      have hrest := ih hnodup hmem fun y hy => hothers y (List.mem_cons_of_mem z hy)
      rw [hothers z List.mem_cons_self hzx, hrest, add_assoc]

end Sums

section Lag

variable {children : α → List α} {up : α → Option α} {own total : α → M} {x : α}

theorem weight_addUp_of_on {y : α} (h : AtOrAbove up x y) (diff : M) :
    weight own (addUp up x diff total) y = weight own total y + diff := by
  unfold weight addUp
  rw [if_pos h, add_assoc]

theorem weight_addUp_of_off {y : α} (h : ¬AtOrAbove up x y) (diff : M) :
    weight own (addUp up x diff total) y = weight own total y := by
  unfold weight addUp
  rw [if_neg h, add_zero]

/-- The children of what is above `x`, and the way up from it. -/
structure Climbs (children : α → List α) (up : α → Option α) (x : α) : Prop where
  nodup : ∀ z, (children z).Nodup
  parent : ∀ z, ∀ y ∈ children z, up y = some z
  acyclic : ∀ z, ¬Above up z z
  child : ∀ y z, AtOrAbove up x y → up y = some z → y ∈ children z

/-- Of a node on the way up, only the child that the walk comes from weighs more. -/
theorem sum_addUp_of_child (h : Climbs children up x) (diff : M) {y z : α}
    (hy : AtOrAbove up x y) (hyz : up y = some z) :
    ((children z).map (weight own (addUp up x diff total))).sum =
      ((children z).map (weight own total)).sum + diff := by
  apply sum_map_change (h.nodup z) (h.child y z hy hyz) (weight_addUp_of_on hy diff)
  intro y' hy' hne
  apply weight_addUp_of_off
  intro hon
  exact hne (hon.eq_of_up h.acyclic hy (h.parent z y' hy') hyz)

theorem sum_addUp_of_none {z : α} (h : ∀ y ∈ children z, ¬AtOrAbove up x y) (diff : M) :
    ((children z).map (weight own (addUp up x diff total))).sum =
      ((children z).map (weight own total)).sum :=
  sum_map_eq fun y hy => weight_addUp_of_off (h y hy) diff

/-- A walk up changes the lag of where it begins. -/
theorem lag_addUp (h : Climbs children up x) (diff : M) (z : α) [Decidable (z = x)] :
    lag children own (addUp up x diff total) z =
      lag children own total z + if z = x then diff else 0 := by
  unfold lag
  by_cases hz : AtOrAbove up x z
  · have htotal : addUp up x diff total z = total z + diff := by
      rw [addUp, if_pos hz]
    rw [htotal]
    rcases Relation.ReflTransGen.cases_tail hz with rfl | ⟨y, hy, hyz⟩
    · -- nothing below the first node is on the way
      rw [sum_addUp_of_none, if_pos rfl]
      · abel
      · intro y hy hon
        exact h.acyclic z (Relation.TransGen.tail' hon (h.parent z y hy))
    · have hne : z ≠ x := by
        rintro rfl
        exact h.acyclic z (Relation.TransGen.tail' hy hyz)
      rw [sum_addUp_of_child h diff hy hyz, if_neg hne]
      abel
  · have htotal : addUp up x diff total z = total z := by
      rw [addUp, if_neg hz, add_zero]
    have hne : z ≠ x := fun heq => hz (heq ▸ .refl)
    rw [htotal, sum_addUp_of_none, if_neg hne, add_zero]
    intro y hy hon
    exact hz (hon.tail (h.parent z y hy))

end Lag

end TibiaServer.Library.CachedSum
