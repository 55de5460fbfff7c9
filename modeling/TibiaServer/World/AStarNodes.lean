import Mathlib.Algebra.Order.BigOperators.Group.Finset
import TibiaServer.World.Position
/-!
# The nodes of the path search

A pool of `MAX_NODES` nodes, of which the first `curNode` are in use, with a
table from coordinates to nodes.  A node is named by its place in the pool.
-/

namespace TibiaServer.World

def MAX_NODES : ℕ := 512
def MAP_NORMALWALKCOST : ℕ := 10
def MAP_DIAGONALWALKCOST : ℕ := 25

structure AStarNode where
  parent : Option ℕ
  f : ℕ
  x : UInt16
  y : UInt16

structure AStarNodes where
  nodes : ℕ → AStarNode
  openNodes : ℕ → Bool
  nodeTable : UInt32 → Option ℕ
  curNode : ℕ
  closedNodes : ℤ

namespace AStarNodes

/-- `(x << 16) | y`. -/
def key (x y : UInt16) : UInt32 := (x.toUInt32 <<< 16) ||| y.toUInt32

/-- The constructor; `nodes()` and `openNodes()` clear both arrays. -/
def init (x y : UInt16) : AStarNodes where
  nodes := fun i => if i = 0 then ⟨none, 0, x, y⟩ else ⟨none, 0, 0, 0⟩
  openNodes := fun i => i = 0
  nodeTable := fun k => if k = key x y then some 0 else none
  curNode := 1
  closedNodes := 0

variable (ns : AStarNodes)

def createOpenNode (parent : ℕ) (x y : UInt16) (f : ℕ) : Option AStarNodes :=
  if ns.curNode ≥ MAX_NODES then none
  else
    some { ns with
      nodes := Function.update ns.nodes ns.curNode ⟨some parent, f, x, y⟩
      openNodes := Function.update ns.openNodes ns.curNode true
      nodeTable := Function.update ns.nodeTable (key x y) (some ns.curNode)
      curNode := ns.curNode + 1 }

/-- One round of the loop of `getBestNode`, with `best_node_f` and `best_node`. -/
def better (best : ℕ × Option ℕ) (i : ℕ) : ℕ × Option ℕ :=
  if ns.openNodes i ∧ (ns.nodes i).f < best.1 then ((ns.nodes i).f, some i) else best

/-- The open node with the least `f`, of several the first one. -/
def getBestNode : Option ℕ :=
  ((List.range ns.curNode).foldl ns.better (2147483647, none)).2

def closeNode (index : ℕ) : AStarNodes :=
  { ns with
    openNodes := Function.update ns.openNodes index false
    closedNodes := ns.closedNodes + 1 }

def openNode (index : ℕ) : AStarNodes :=
  if ns.openNodes index then ns
  else
    { ns with
      openNodes := Function.update ns.openNodes index true
      closedNodes := ns.closedNodes - 1 }

def getNodeByPosition (x y : UInt16) : Option ℕ := ns.nodeTable (key x y)

/-- The assignments to `neighborNode->f` and `neighborNode->parent` and the call
of `openNode` after them. -/
def reparent (index n f : ℕ) : AStarNodes :=
  openNode
    { ns with nodes :=
        Function.update ns.nodes index { ns.nodes index with parent := some n, f := f } }
    index

def getMapWalkCost (node : AStarNode) (neighborPos : Position) : ℕ :=
  if |(node.x.toNat : ℤ) - neighborPos.getX| = |(node.y.toNat : ℤ) - neighborPos.getY| then
    MAP_DIAGONALWALKCOST
  else MAP_NORMALWALKCOST

theorem key_toNat (x y : UInt16) : (key x y).toNat = x.toNat * 65536 + y.toNat := by
  have hx := x.toNat_lt
  have hy := y.toNat_lt
  have hshift : (x.toUInt32 <<< 16).toNat = x.toNat <<< 16 := by
    rw [UInt32.toNat_shiftLeft, UInt16.toNat_toUInt32]
    change x.toNat <<< 16 % 2 ^ 32 = x.toNat <<< 16
    rw [Nat.shiftLeft_eq]
    omega
  unfold key
  rw [UInt32.toNat_or, hshift, UInt16.toNat_toUInt32, ← Nat.shiftLeft_add_eq_or_of_lt hy,
    Nat.shiftLeft_eq]

/-- Different squares have different entries in the table. -/
theorem key_inj {x y x' y' : UInt16} : key x y = key x' y' ↔ x = x' ∧ y = y' := by
  rw [← UInt32.toNat_inj, ← UInt16.toNat_inj, ← UInt16.toNat_inj, key_toNat, key_toNat]
  have hy := y.toNat_lt
  have hy' := y'.toNat_lt
  omega

variable {ns : AStarNodes}

/-! ## What the operations change -/

theorem better_spec (ns : AStarNodes) (best : ℕ × Option ℕ) (i : ℕ) :
    (ns.openNodes i = true ∧ (ns.nodes i).f < best.1 ∧
      ns.better best i = ((ns.nodes i).f, some i)) ∨ ns.better best i = best := by
  unfold better
  split_ifs with h
  · exact .inl ⟨h.1, h.2, rfl⟩
  · exact .inr rfl

/-- The node that is chosen is in use and open. -/
theorem getBestNode_spec {n : ℕ} (h : ns.getBestNode = some n) :
    n < ns.curNode ∧ ns.openNodes n = true := by
  have hfold : ∀ k, ∀ n, ((List.range k).foldl ns.better (2147483647, none)).2 = some n →
      n < k ∧ ns.openNodes n = true := by
    intro k
    induction k with
    | zero => simp
    | succ k ih =>
      intro n hn
      rw [List.range_succ, List.foldl_append, List.foldl_cons, List.foldl_nil] at hn
      rcases better_spec ns ((List.range k).foldl ns.better (2147483647, none)) k with
        ⟨hopen, -, heq⟩ | heq
      · rw [heq] at hn
        obtain rfl : k = n := by simpa using hn
        exact ⟨Nat.lt_succ_self k, hopen⟩
      · rw [heq] at hn
        obtain ⟨hlt, hopen⟩ := ih n hn
        exact ⟨Nat.lt_succ_of_lt hlt, hopen⟩
  exact hfold ns.curNode n h

@[simp] theorem closeNode_nodes (i : ℕ) : (ns.closeNode i).nodes = ns.nodes := rfl
@[simp] theorem closeNode_curNode (i : ℕ) : (ns.closeNode i).curNode = ns.curNode := rfl
@[simp] theorem closeNode_nodeTable (i : ℕ) : (ns.closeNode i).nodeTable = ns.nodeTable := rfl

@[simp] theorem openNode_nodes (i : ℕ) : (ns.openNode i).nodes = ns.nodes := by
  unfold openNode
  split_ifs <;> rfl

@[simp] theorem openNode_curNode (i : ℕ) : (ns.openNode i).curNode = ns.curNode := by
  unfold openNode
  split_ifs <;> rfl

@[simp] theorem openNode_nodeTable (i : ℕ) : (ns.openNode i).nodeTable = ns.nodeTable := by
  unfold openNode
  split_ifs <;> rfl

@[simp] theorem reparent_nodes (i n f : ℕ) :
    (ns.reparent i n f).nodes =
      Function.update ns.nodes i { ns.nodes i with parent := some n, f := f } := by
  simp [reparent]

@[simp] theorem reparent_curNode (i n f : ℕ) : (ns.reparent i n f).curNode = ns.curNode := by
  simp [reparent]

@[simp] theorem reparent_nodeTable (i n f : ℕ) :
    (ns.reparent i n f).nodeTable = ns.nodeTable := by
  simp [reparent]

theorem createOpenNode_eq_some {parent f : ℕ} {x y : UInt16} {ns' : AStarNodes} :
    ns.createOpenNode parent x y f = some ns' ↔
      ns.curNode < MAX_NODES ∧
        ns' = { ns with
          nodes := Function.update ns.nodes ns.curNode ⟨some parent, f, x, y⟩
          openNodes := Function.update ns.openNodes ns.curNode true
          nodeTable := Function.update ns.nodeTable (key x y) (some ns.curNode)
          curNode := ns.curNode + 1 } := by
  unfold createOpenNode
  split_ifs with hfull
  · simp only [false_iff, not_and]
    omega
  · rw [Option.some.injEq, eq_comm]
    exact (and_iff_right (by omega)).symm

/-! ## Progress -/

/-- The sum of the costs of the nodes in use. -/
def totalCost (ns : AStarNodes) : ℕ := ∑ i ∈ Finset.range ns.curNode, (ns.nodes i).f

/-- How many nodes are open. -/
def openCount (ns : AStarNodes) : ℕ :=
  ∑ i ∈ Finset.range ns.curNode, if ns.openNodes i then 1 else 0

theorem totalCost_reparent {i n f : ℕ} (hi : i < ns.curNode) (hf : f < (ns.nodes i).f) :
    (ns.reparent i n f).totalCost < ns.totalCost := by
  unfold totalCost
  rw [reparent_curNode, reparent_nodes]
  apply Finset.sum_lt_sum
  · intro j _
    by_cases hj : j = i
    · subst hj
      rw [Function.update_self]
      exact hf.le
    · rw [Function.update_of_ne hj]
  · exact ⟨i, Finset.mem_range.mpr hi, by simpa using hf⟩

theorem openCount_closeNode {i : ℕ} (hi : i < ns.curNode) (hopen : ns.openNodes i = true) :
    (ns.closeNode i).openCount < ns.openCount := by
  unfold openCount
  apply Finset.sum_lt_sum
  · intro j _
    by_cases hj : j = i
    · subst hj
      simp [closeNode]
    · simp [closeNode, Function.update_of_ne hj]
  · exact ⟨i, Finset.mem_range.mpr hi, by simp [closeNode, hopen]⟩

end AStarNodes

end TibiaServer.World
