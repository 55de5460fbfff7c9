import Mathlib.Data.Nat.Bitwise
import TibiaServer.Library.PathTree
/-!
# The quad tree of the map

`QTreeNode::getLeaf` and `createLeaf` go down one level for each of the bits
15 .. 3 of the two coordinates, so a leaf stands for one block of
`FLOOR_SIZE` × `FLOOR_SIZE` squares.  The coordinates are `uint32_t` here and
only their low 16 bits are read: a neighbour across the edge of the map is the
block at the opposite edge.
-/

namespace TibiaServer.World

open TibiaServer.Library

def FLOOR_BITS : ℕ := 3
def FLOOR_SIZE : ℕ := 8
def FLOOR_MASK : ℕ := 7

/-- A leaf is known by its address. -/
abbrev LeafId := ℕ

abbrev QTreeNode := PathTree (Fin 4) LeafId

namespace QTreeNode

/-- The index into `child` that the top bits select. -/
def childIndex (x y : ℕ) : Fin 4 :=
  Fin.ofNat 4 (((x &&& 0x8000) >>> 15) ||| ((y &&& 0x8000) >>> 14))

/-- `getLeafStatic` is the same descent written as a loop. -/
def getLeaf : QTreeNode → ℕ → ℕ → Option LeafId
  | .leaf id, _, _ => some id
  | .null, _, _ => none
  | .node child, x, y =>
    getLeaf (child (childIndex x y)) (x <<< 1 % 2 ^ 32) (y <<< 1 % 2 ^ 32)

/-- Returns the tree, the leaf and `newLeaf`; `fresh` is the address that
`new QTreeLeafNode` gives.  `none` where the source never comes: a null `this`,
or a level that runs below zero. -/
def createLeaf (fresh : LeafId) :
    ℕ → QTreeNode → ℕ → ℕ → Option (QTreeNode × LeafId × Bool)
  | _, .leaf id, _, _ => some (.leaf id, id, false)
  | level + 1, .node child, x, y =>
    let index := childIndex x y
    let (next, newLeaf) : QTreeNode × Bool :=
      match child index with
      | .null =>
        if level + 1 ≠ FLOOR_BITS then (.node fun _ => .null, false)
        else (.leaf fresh, true)
      | next => (next, false)
    (createLeaf fresh level next (x * 2 % 2 ^ 32) (y * 2 % 2 ^ 32)).map
      fun (next, id, new) => (.node (Function.update child index next), id, newLeaf || new)
  | _, _, _, _ => none

/-- The indices that a descent of `n` levels takes. -/
def path : ℕ → ℕ → ℕ → List (Fin 4)
  | 0, _, _ => []
  | n + 1, x, y => childIndex x y :: path n (x * 2 % 2 ^ 32) (y * 2 % 2 ^ 32)

@[simp] theorem length_path (n x y : ℕ) : (path n x y).length = n := by
  induction n generalizing x y with
  | zero => rfl
  | succ n ih => simp [path, ih]

theorem getLeaf_eq_find :
    ∀ (n : ℕ) (t : QTreeNode) (x y : ℕ), t.Shaped n →
      getLeaf t x y = t.find (path n x y) := by
  intro n
  induction n with
  | zero =>
    intro t x y ht
    cases t with
    | null => rfl
    | leaf id => rfl
    | node child => exact ht.elim
  | succ n ih =>
    intro t x y ht
    cases t with
    | null => rfl
    | leaf id => exact ht.elim
    | node child =>
      simp only [getLeaf, path, PathTree.find_node_cons, Nat.shiftLeft_eq, pow_one]
      exact ih _ _ _ (ht _)

theorem childIndex_eq (x y : ℕ) :
    childIndex x y = Fin.ofNat 4 ((x.testBit 15).toNat + 2 * (y.testBit 15).toNat) := by
  have hx : (x &&& 0x8000) >>> 15 = (x.testBit 15).toNat := by
    rw [show (0x8000 : ℕ) = 2 ^ 15 from rfl, Nat.and_two_pow, Nat.shiftRight_eq_div_pow]
    exact Nat.mul_div_cancel _ (by decide)
  have hy : (y &&& 0x8000) >>> 14 = 2 * (y.testBit 15).toNat := by
    rw [show (0x8000 : ℕ) = 2 ^ 15 from rfl, Nat.and_two_pow, Nat.shiftRight_eq_div_pow]
    omega
  rw [childIndex, hx, hy]
  cases x.testBit 15 <;> cases y.testBit 15 <;> rfl

theorem childIndex_eq_iff (x y x' y' : ℕ) :
    childIndex x y = childIndex x' y' ↔
      x.testBit 15 = x'.testBit 15 ∧ y.testBit 15 = y'.testBit 15 := by
  rw [childIndex_eq, childIndex_eq]
  cases x.testBit 15 <;> cases y.testBit 15 <;> cases x'.testBit 15 <;>
    cases y'.testBit 15 <;> decide

/-- Shifting up by one drops bit 31, which the descent never reads. -/
theorem testBit_double (x i : ℕ) (hi : i < 31) :
    (x * 2 % 2 ^ 32).testBit (i + 1) = x.testBit i := by
  rw [Nat.testBit_mod_two_pow, Nat.testBit_succ, Nat.mul_div_cancel _ (by decide)]
  have hlt : i + 1 < 32 := by omega
  simp [hlt]

theorem path_eq_iff_testBit (n x y x' y' : ℕ) (hn : n ≤ 16) :
    path n x y = path n x' y' ↔
      ∀ i < n, x.testBit (15 - i) = x'.testBit (15 - i) ∧
        y.testBit (15 - i) = y'.testBit (15 - i) := by
  induction n generalizing x y x' y' with
  | zero => simp [path]
  | succ n ih =>
    rw [path, path, List.cons.injEq, childIndex_eq_iff, ih _ _ _ _ (by omega)]
    constructor
    · rintro ⟨hhead, htail⟩ i hi
      cases i with
      | zero => exact hhead
      | succ i =>
        have hbit := htail i (by omega)
        rw [show 15 - i = 15 - (i + 1) + 1 by omega] at hbit
        simpa only [testBit_double _ (15 - (i + 1)) (by omega)] using hbit
    · intro h
      refine ⟨h 0 (by omega), fun i hi => ?_⟩
      have hbit := h (i + 1) (by omega)
      rw [show 15 - i = 15 - (i + 1) + 1 by omega]
      simpa only [testBit_double _ (15 - (i + 1)) (by omega)] using hbit

/-- `x - FLOOR_SIZE`, converted to `uint32_t`. -/
def backward (x : ℕ) : ℕ := (x + (2 ^ 32 - FLOOR_SIZE)) % 2 ^ 32

/-- The block that a leaf stands for. -/
def block (x y : ℕ) : ℕ × ℕ := (x / 8 % 8192, y / 8 % 8192)

theorem block_coord_eq_iff (x x' : ℕ) :
    x / 8 % 8192 = x' / 8 % 8192 ↔
      ∀ i < 13, x.testBit (15 - i) = x'.testBit (15 - i) := by
  have hbit : ∀ z i : ℕ, (z / 8 % 8192).testBit i = (decide (i < 13) && z.testBit (i + 3)) := by
    intro z i
    rw [show (8192 : ℕ) = 2 ^ 13 from rfl, show (8 : ℕ) = 2 ^ 3 from rfl,
      Nat.testBit_mod_two_pow, Nat.testBit_div_two_pow]
  constructor
  · intro h i hi
    have hi' := congrArg (fun z => Nat.testBit z (12 - i)) h
    simp only [hbit, show 12 - i < 13 by omega, decide_true, Bool.true_and] at hi'
    rwa [show 12 - i + 3 = 15 - i by omega] at hi'
  · intro h
    apply Nat.eq_of_testBit_eq
    intro i
    rw [hbit, hbit]
    by_cases hi : i < 13
    · have hi' := h (12 - i) (by omega)
      rw [show 15 - (12 - i) = i + 3 by omega] at hi'
      rw [hi']
    · simp [hi]

/-- Two coordinates lead to the same leaf exactly when they lie in the same
block. -/
theorem path_eq_iff (x y x' y' : ℕ) :
    path 13 x y = path 13 x' y' ↔ block x y = block x' y' := by
  rw [path_eq_iff_testBit 13 x y x' y' (by decide), block, block, Prod.mk.injEq,
    block_coord_eq_iff, block_coord_eq_iff]
  exact ⟨fun h => ⟨fun i hi => (h i hi).1, fun i hi => (h i hi).2⟩,
    fun h i hi => ⟨h.1 i hi, h.2 i hi⟩⟩

theorem block_forward_iff (x y x' y' : ℕ) :
    (block x' (y' + FLOOR_SIZE) = block x y ↔ block x' y' = block x (backward y)) ∧
      (block (x' + FLOOR_SIZE) y' = block x y ↔ block x' y' = block (backward x) y) := by
  unfold block backward FLOOR_SIZE
  simp only [Prod.mk.injEq]
  omega

theorem block_backward_ne (x y : ℕ) :
    block x (backward y) ≠ block x y ∧ block (backward x) y ≠ block x y := by
  unfold block backward FLOOR_SIZE
  simp only [ne_eq, Prod.mk.injEq]
  omega

theorem block_forward_congr {x y x' y' : ℕ} (h : block x y = block x' y') :
    block x (y + FLOOR_SIZE) = block x' (y' + FLOOR_SIZE) ∧
      block (x + FLOOR_SIZE) y = block (x' + FLOOR_SIZE) y' := by
  unfold block FLOOR_SIZE at *
  simp only [Prod.mk.injEq] at *
  omega

/-- `createLeaf` inserts the fresh leaf at the path of the coordinates unless
there is one, and says which. -/
theorem createLeaf_eq (fresh : LeafId) :
    ∀ (n : ℕ) (child : Fin 4 → QTreeNode) (x y : ℕ),
      (∀ k, (child k).Shaped n) →
      createLeaf fresh (n + 3) (.node child) x y =
        some (PathTree.insert fresh (.node child) (path (n + 1) x y),
          ((child (childIndex x y)).find (path n (x * 2 % 2 ^ 32) (y * 2 % 2 ^ 32))).getD fresh,
          ((child (childIndex x y)).find (path n (x * 2 % 2 ^ 32) (y * 2 % 2 ^ 32))).isNone) := by
  intro n
  induction n with
  | zero =>
    intro child x y hchild
    have hshape := hchild (childIndex x y)
    cases hc : child (childIndex x y) with
    | null => simp [createLeaf, path, PathTree.insert, hc, FLOOR_BITS]
    | leaf id => simp [createLeaf, path, PathTree.insert, hc]
    | node grandchild =>
      rw [hc] at hshape
      exact hshape.elim
  | succ n ih =>
    intro child x y hchild
    have hshape := hchild (childIndex x y)
    cases hc : child (childIndex x y) with
    | null =>
      have hih := ih (fun _ => .null) (x * 2 % 2 ^ 32) (y * 2 % 2 ^ 32) (by simp)
      have hlevel : n + 3 + 1 ≠ FLOOR_BITS := by
        unfold FLOOR_BITS
        omega
      rw [createLeaf]
      simp only [hc, if_pos hlevel]
      rw [hih]
      simp [path, PathTree.insert, hc]
    | leaf id =>
      rw [hc] at hshape
      exact hshape.elim
    | node grandchild =>
      rw [hc] at hshape
      have hih := ih grandchild (x * 2 % 2 ^ 32) (y * 2 % 2 ^ 32) hshape
      rw [createLeaf]
      simp only [hc]
      rw [hih]
      simp [path, PathTree.insert, hc]

theorem createLeaf_root {root : QTreeNode} (fresh : LeafId) (x y : ℕ)
    (hshape : root.Shaped 13) (hroot : root ≠ .null) :
    createLeaf fresh 15 root x y =
      some (root.insert fresh (path 13 x y), (getLeaf root x y).getD fresh,
        (getLeaf root x y).isNone) := by
  cases root with
  | null => exact absurd rfl hroot
  | leaf id => exact hshape.elim
  | node child =>
    rw [createLeaf_eq fresh 12 child x y hshape, getLeaf_eq_find 13 _ x y hshape]
    rfl

theorem getLeaf_congr {root : QTreeNode} {x y x' y' : ℕ} (hshape : root.Shaped 13)
    (hblock : block x y = block x' y') : getLeaf root x y = getLeaf root x' y' := by
  rw [getLeaf_eq_find 13 root x y hshape, getLeaf_eq_find 13 root x' y' hshape,
    (path_eq_iff x y x' y').mpr hblock]

theorem getLeaf_insert {root : QTreeNode} (fresh : LeafId) (x y x' y' : ℕ)
    (hshape : root.Shaped 13) :
    getLeaf (root.insert fresh (path 13 x y)) x' y' =
      if block x' y' = block x y then some ((getLeaf root x y).getD fresh)
      else getLeaf root x' y' := by
  have hshape' : (root.insert fresh (path 13 x y)).Shaped 13 := by
    have h := PathTree.shaped_insert fresh (path 13 x y) root
    rw [length_path] at h
    exact h hshape
  rw [getLeaf_eq_find 13 _ x' y' hshape', getLeaf_eq_find 13 root x' y' hshape,
    getLeaf_eq_find 13 root x y hshape]
  have hlen : (path 13 x y).length = 13 := length_path 13 x y
  split
  next hblock =>
    rw [(path_eq_iff x' y' x y).mpr hblock]
    exact PathTree.find_insert_self fresh _ root (by rwa [hlen])
  next hblock =>
    apply PathTree.find_insert_ne fresh _ _ root (by rwa [hlen]) (by rw [hlen, length_path])
    exact fun h => hblock ((path_eq_iff x' y' x y).mp h)

end QTreeNode

end TibiaServer.World
