import Mathlib.Data.List.Basic
/-!
# Trees addressed by digit paths

A tree with children indexed by `κ` whose values sit at the leaves.  When all
leaves have the same depth `n` (`Shaped n`) the tree is a partial map from the
paths of length `n`, and `insert` adds one entry to that map and touches no
other.
-/

namespace TibiaServer.Library

/-- `null` stands for a child that does not exist yet. -/
inductive PathTree (κ α : Type*)
  | null
  | node (child : κ → PathTree κ α)
  | leaf (value : α)

namespace PathTree

variable {κ α : Type*}

def find : PathTree κ α → List κ → Option α
  | .leaf v, _ => some v
  | .node child, k :: ks => (child k).find ks
  | _, _ => none

/-- All leaves stand exactly `n` levels below the root. -/
def Shaped : ℕ → PathTree κ α → Prop
  | _, .null => True
  | 0, .leaf _ => True
  | n + 1, .node child => ∀ k, Shaped n (child k)
  | _, _ => False

@[simp] theorem find_null (ks : List κ) : (null : PathTree κ α).find ks = none := by
  cases ks <;> rfl

@[simp] theorem find_leaf (v : α) (ks : List κ) :
    (leaf v : PathTree κ α).find ks = some v := by
  cases ks <;> rfl

@[simp] theorem find_node_cons (child : κ → PathTree κ α) (k : κ) (ks : List κ) :
    (node child).find (k :: ks) = (child k).find ks := rfl

@[simp] theorem shaped_null (n : ℕ) : Shaped n (null : PathTree κ α) := by
  cases n <;> trivial

variable [DecidableEq κ]

/-- Add `v` at the end of the path unless there is a leaf already. -/
def insert (v : α) : PathTree κ α → List κ → PathTree κ α
  | .null, [] => .leaf v
  | .null, k :: ks => .node (Function.update (fun _ => .null) k (insert v .null ks))
  | .node child, k :: ks => .node (Function.update child k (insert v (child k) ks))
  | t, _ => t

theorem insert_ne_null (v : α) (t : PathTree κ α) (ks : List κ) : t.insert v ks ≠ .null := by
  cases t <;> cases ks <;> simp [insert]

theorem shaped_insert (v : α) :
    ∀ (ks : List κ) (t : PathTree κ α),
      Shaped ks.length t → Shaped ks.length (t.insert v ks) := by
  intro ks
  induction ks with
  | nil =>
    intro t ht
    cases t <;> exact ht
  | cons k ks ih =>
    intro t ht
    cases t with
    | null =>
      intro j
      by_cases hj : j = k
      · subst hj
        simpa using ih .null (shaped_null _)
      · simp [hj]
    | node child =>
      intro j
      by_cases hj : j = k
      · subst hj
        simpa using ih (child j) (ht j)
      · simpa [hj] using ht j
    | leaf w => exact ht

theorem find_insert_self (v : α) :
    ∀ (ks : List κ) (t : PathTree κ α), Shaped ks.length t →
      (t.insert v ks).find ks = some ((t.find ks).getD v) := by
  intro ks
  induction ks with
  | nil =>
    intro t ht
    cases t with
    | null => rfl
    | leaf w => rfl
    | node child => exact ht.elim
  | cons k ks ih =>
    intro t ht
    cases t with
    | null => simpa [insert] using ih .null (shaped_null _)
    | node child => simpa [insert] using ih (child k) (ht k)
    | leaf w => exact ht.elim

theorem find_insert_ne (v : α) :
    ∀ (ks js : List κ) (t : PathTree κ α), Shaped ks.length t →
      js.length = ks.length → js ≠ ks → (t.insert v ks).find js = t.find js := by
  intro ks
  induction ks with
  | nil =>
    intro js t _ hlen hne
    exact absurd (List.length_eq_zero_iff.mp hlen) hne
  | cons k ks ih =>
    intro js t ht hlen hne
    cases js with
    | nil => simp at hlen
    | cons j js =>
      have hlen' : js.length = ks.length := by simpa using hlen
      cases t with
      | leaf w => exact ht.elim
      | null =>
        by_cases hj : j = k
        · subst hj
          have hne' : js ≠ ks := fun h => hne (by rw [h])
          simpa [insert] using ih js .null (shaped_null _) hlen' hne'
        · simp [insert, hj]
      | node child =>
        by_cases hj : j = k
        · subst hj
          have hne' : js ≠ ks := fun h => hne (by rw [h])
          simpa [insert] using ih js (child j) (ht j) hlen' hne'
        · simp [insert, hj]

end PathTree

end TibiaServer.Library
