import Mathlib.Data.List.Nodup
/-!
# Removal by swapping with the back

Overwrite the first occurrence with the last element and drop the last place.
The order changes, the members do not.
-/

namespace TibiaServer.Library

variable {α : Type*} [DecidableEq α]

/-- `none` when there is no occurrence. -/
def swapRemove (a : α) (l : List α) : Option (List α) :=
  if a ∈ l then some ((l.set (l.idxOf a) (l.getLastD a)).dropLast) else none

theorem swapRemove_eq {a : α} (xs ys : List α) (ha : a ∉ xs) :
    swapRemove a (xs ++ a :: ys) =
      some (xs ++ (ys.getLast?.toList ++ ys.dropLast)) := by
  have hmem : a ∈ xs ++ a :: ys := by simp
  have hidx : (xs ++ a :: ys).idxOf a = xs.length := by
    rw [List.idxOf_append_of_notMem ha, List.idxOf_cons_self, Nat.add_zero]
  rw [swapRemove, if_pos hmem, hidx]
  congr 1
  rcases List.eq_nil_or_concat ys with rfl | ⟨zs, z, rfl⟩
  · simp
  · have hshape : xs ++ a :: zs.concat z = (xs ++ a :: zs) ++ [z] := by simp
    have hset : ((xs ++ a :: zs) ++ [z]).set xs.length z = (xs ++ z :: zs) ++ [z] := by
      simp
    rw [hshape, List.getLastD_concat, hset, List.dropLast_concat]
    simp

/-- The result is a rearrangement of the list without the element. -/
theorem swapRemove_perm {a : α} {l : List α} (ha : a ∈ l) :
    ∃ r, swapRemove a l = some r ∧ r.Perm (l.erase a) := by
  obtain ⟨xs, ys, rfl, hxs⟩ := List.eq_append_cons_of_mem ha
  refine ⟨_, swapRemove_eq xs ys hxs, ?_⟩
  rw [List.erase_append_right _ hxs, List.erase_cons_head]
  apply List.Perm.append_left
  rcases List.eq_nil_or_concat ys with rfl | ⟨zs, z, rfl⟩
  · simp
  · have hcomm : ([z] ++ zs).Perm (zs ++ [z]) := List.perm_append_comm
    simpa using hcomm

end TibiaServer.Library
