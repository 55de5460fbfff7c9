import Mathlib.Algebra.Order.BigOperators.Group.List
import Mathlib.Algebra.Ring.Nat
/-!
# As much of a list as it takes

The shortest beginning of a list whose weights sum up to a bound.  Only its last element can
take the sum above the bound, and none does where each weighs one.
-/

namespace TibiaServer.Library

variable {α : Type*} (g : α → ℕ)

/-- The elements up to the first with which the sum is `n`; all if there are too few. -/
def upTo : ℕ → List α → List α
  | _, [] => []
  | n, x :: l => if n ≤ g x then [x] else x :: upTo (n - g x) l

variable {g} {n : ℕ} {l : List α} {x : α}

theorem upTo_prefix : upTo g n l <+: l := by
  induction l generalizing n with
  | nil => exact List.prefix_rfl
  | cons x l ih =>
    unfold upTo
    split_ifs
    · exact List.prefix_append [x] l
    · exact List.cons_prefix_cons.mpr ⟨rfl, ih⟩

theorem mem_of_mem_upTo (hx : x ∈ upTo g n l) : x ∈ l := upTo_prefix.subset hx

theorem upTo_append_of_le {m : List α} (h : n ≤ (l.map g).sum) (hn : 0 < n) :
    upTo g n (l ++ m) = upTo g n l := by
  induction l generalizing n with
  | nil => exact absurd hn (by simpa using h)
  | cons x l ih =>
    rw [List.map_cons, List.sum_cons] at h
    rw [List.cons_append]
    unfold upTo
    split_ifs with hlast
    · rfl
    · rw [ih (by omega) (by omega)]

theorem upTo_append_of_lt {m : List α} (h : (l.map g).sum < n) :
    upTo g n (l ++ m) = l ++ upTo g (n - (l.map g).sum) m := by
  induction l generalizing n with
  | nil => rfl
  | cons x l ih =>
    rw [List.map_cons, List.sum_cons] at h ⊢
    rw [List.cons_append, upTo, if_neg (by omega), ih (by omega), Nat.sub_sub,
      List.cons_append]

/-- Elements that weigh one each make up the bound exactly. -/
theorem sum_upTo_of_one (hone : ∀ x ∈ l, g x = 1) (hn : 0 < n) (h : n ≤ (l.map g).sum) :
    ((upTo g n l).map g).sum = n := by
  induction l generalizing n with
  | nil => exact absurd hn (by simpa using h)
  | cons x l ih =>
    have hx := hone x List.mem_cons_self
    rw [List.map_cons, List.sum_cons] at h
    unfold upTo
    split_ifs with hlast
    · simp only [List.map_cons, List.map_nil, List.sum_cons, List.sum_nil]
      omega
    · have hrest := ih (n := n - g x) (fun y hy => hone y (List.mem_cons_of_mem x hy))
        (by omega) (by omega)
      rw [List.map_cons, List.sum_cons, hrest]
      omega

end TibiaServer.Library
