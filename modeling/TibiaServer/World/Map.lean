import Mathlib.Data.Finset.Basic
import TibiaServer.World.Position
import TibiaServer.World.QTree
/-!
# The map

`Map` is the quad tree with its leaves on a heap.  A leaf holds the floors of
its block, links to the leaves east and south of it, and the creatures that
stand on the block.  `setTile` creates leaves in any order and keeps the links
right (`Linked`): the link of a leaf is the leaf that a descent from the root
finds at the neighbouring coordinates.
-/

namespace TibiaServer.World

open TibiaServer.Library

def MAP_MAX_LAYERS : ℕ := 16

abbrev CreatureId := ℕ

/-- What the map reads of a tile.  `items` is the ground with the item list;
`merge` below adds those of a second tile to it. -/
structure Tile (ι : Type) where
  items : ι
  creatures : List CreatureId := []

/-- `tiles[x & FLOOR_MASK][y & FLOOR_MASK]` of one layer. -/
abbrev Floor (ι : Type) := ℕ → ℕ → Option (Tile ι)

structure QTreeLeafNode (ι : Type) where
  leafS : Option LeafId := none
  leafE : Option LeafId := none
  array : ℕ → Option (Floor ι) := fun _ => none
  creature_list : List CreatureId := []
  player_list : List CreatureId := []

/-- `tile` is the parent of the creature, given by its position, so it is also
what `getPosition` returns. -/
structure Creature where
  tile : Option Position := none
  isRemoved : Bool := false

abbrev SpectatorCache := Position → Option (Finset CreatureId)

structure Map (ι : Type) where
  root : QTreeNode := .node fun _ => .null
  leaves : LeafId → QTreeLeafNode ι := fun _ => {}
  nextLeaf : LeafId := 0
  creatures : CreatureId → Creature := fun _ => {}
  spectatorCache : SpectatorCache := fun _ => none
  playersSpectatorCache : SpectatorCache := fun _ => none

namespace QTreeLeafNode

variable {ι : Type}

def getTile (leaf : QTreeLeafNode ι) (p : Position) : Option (Tile ι) :=
  (leaf.array p.z.toNat).bind fun floor =>
    floor (p.x.toNat &&& FLOOR_MASK) (p.y.toNat &&& FLOOR_MASK)

/-- `createFloor` and the assignment to the slot of the square. -/
def setTile (leaf : QTreeLeafNode ι) (p : Position) (tile : Tile ι) : QTreeLeafNode ι :=
  let floor := (leaf.array p.z.toNat).getD fun _ _ => none
  let x := p.x.toNat &&& FLOOR_MASK
  let y := p.y.toNat &&& FLOOR_MASK
  { leaf with
    array := Function.update leaf.array p.z.toNat
      (some (Function.update floor x (Function.update (floor x) y (some tile)))) }

end QTreeLeafNode

namespace Map

open QTreeNode (block backward)

variable {ι : Type}

def getQTNode (m : Map ι) (p : Position) : Option LeafId :=
  QTreeNode.getLeaf m.root p.x.toNat p.y.toNat

def getTile (m : Map ι) (p : Position) : Option (Tile ι) :=
  if p.z.toNat ≥ MAP_MAX_LAYERS then none
  else (m.getQTNode p).bind fun leaf => (m.leaves leaf).getTile p

/-- Write through a pointer to a leaf, unless it is null. -/
def writeLeaf (leaves : LeafId → QTreeLeafNode ι) (leaf : Option LeafId)
    (f : QTreeLeafNode ι → QTreeLeafNode ι) : LeafId → QTreeLeafNode ι :=
  match leaf with
  | some id => Function.update leaves id (f (leaves id))
  | none => leaves

/-- The block of `setTile` under `if (QTreeLeafNode::newLeaf)`. -/
def linkLeaf (root : QTreeNode) (leaf : LeafId) (x y : ℕ)
    (leaves : LeafId → QTreeLeafNode ι) : LeafId → QTreeLeafNode ι :=
  let northLeaf := root.getLeaf x (backward y)
  let westLeaf := root.getLeaf (backward x) y
  let southLeaf := root.getLeaf x (y + FLOOR_SIZE)
  let eastLeaf := root.getLeaf (x + FLOOR_SIZE) y
  let leaves := writeLeaf leaves northLeaf fun l => { l with leafS := some leaf }
  let leaves := writeLeaf leaves westLeaf fun l => { l with leafE := some leaf }
  let leaves :=
    if southLeaf.isSome then
      writeLeaf leaves (some leaf) fun l => { l with leafS := southLeaf }
    else leaves
  if eastLeaf.isSome then
    writeLeaf leaves (some leaf) fun l => { l with leafE := eastLeaf }
  else leaves

/-- `root.createLeaf(x, y, 15)` and the links of a new leaf. -/
def createLeaf (m : Map ι) (x y : ℕ) : Option (Map ι × LeafId) :=
  (m.root.createLeaf m.nextLeaf 15 x y).map fun (root, leaf, newLeaf) =>
    if newLeaf then
      ({ m with
          root := root
          leaves := linkLeaf root leaf x y (Function.update m.leaves leaf {})
          nextLeaf := m.nextLeaf + 1 }, leaf)
    else ({ m with root := root }, leaf)

def modifyLeaf (m : Map ι) (leaf : LeafId) (f : QTreeLeafNode ι → QTreeLeafNode ι) : Map ι :=
  { m with leaves := writeLeaf m.leaves (some leaf) f }

def setTileAt (m : Map ι) (leaf : LeafId) (p : Position) (tile : Tile ι) : Map ι :=
  m.modifyLeaf leaf fun l => l.setTile p tile

/-- `newTile` carries no creatures yet.  When there is a tile already its items
move there; `merge` is the effect of the calls of `addThing` on it. -/
def setTile (merge : ι → ι → ι) (m : Map ι) (p : Position) (newTile : ι) : Option (Map ι) :=
  if p.z.toNat ≥ MAP_MAX_LAYERS then some m
  else
    (m.createLeaf p.x.toNat p.y.toNat).map fun (m, leaf) =>
      match (m.leaves leaf).getTile p with
      | some tile => m.setTileAt leaf p { tile with items := merge tile.items newTile }
      | none => m.setTileAt leaf p { items := newTile }

/-- The quad tree and the links between its leaves. -/
structure Linked (m : Map ι) : Prop where
  shape : m.root.Shaped 13
  root_ne : m.root ≠ .null
  fresh : ∀ x y id, m.root.getLeaf x y = some id → id < m.nextLeaf
  inj : ∀ x y x' y' id, m.root.getLeaf x y = some id → m.root.getLeaf x' y' = some id →
    block x y = block x' y'
  south : ∀ x y id, m.root.getLeaf x y = some id →
    (m.leaves id).leafS = m.root.getLeaf x (y + FLOOR_SIZE)
  east : ∀ x y id, m.root.getLeaf x y = some id →
    (m.leaves id).leafE = m.root.getLeaf (x + FLOOR_SIZE) y

theorem writeLeaf_apply (leaves : LeafId → QTreeLeafNode ι) (leaf : Option LeafId)
    (f : QTreeLeafNode ι → QTreeLeafNode ι) (id : LeafId) :
    writeLeaf leaves leaf f id = if leaf = some id then f (leaves id) else leaves id := by
  cases leaf with
  | none => simp [writeLeaf]
  | some l =>
    by_cases h : l = id
    · subst h
      simp [writeLeaf]
    · have h' : id ≠ l := fun heq => h heq.symm
      simp [writeLeaf, h, h']

/-- The links say nothing about what stands on a leaf. -/
theorem linkLeaf_content (root : QTreeNode) (leaf : LeafId) (x y : ℕ)
    (leaves : LeafId → QTreeLeafNode ι) (id : LeafId) :
    (linkLeaf root leaf x y leaves id).array = (leaves id).array ∧
      (linkLeaf root leaf x y leaves id).creature_list = (leaves id).creature_list ∧
      (linkLeaf root leaf x y leaves id).player_list = (leaves id).player_list := by
  have hwrite : ∀ (ls : LeafId → QTreeLeafNode ι) (l : Option LeafId)
      (f : QTreeLeafNode ι → QTreeLeafNode ι),
      (∀ n, (f n).array = n.array ∧ (f n).creature_list = n.creature_list ∧
        (f n).player_list = n.player_list) →
      (writeLeaf ls l f id).array = (ls id).array ∧
        (writeLeaf ls l f id).creature_list = (ls id).creature_list ∧
        (writeLeaf ls l f id).player_list = (ls id).player_list := by
    intro ls l f hf
    rw [writeLeaf_apply]
    split
    · exact hf _
    · simp
  unfold linkLeaf
  split <;> split <;> simp [hwrite]

theorem linkLeaf_leafS {root : QTreeNode} {leaf : LeafId} {x y : ℕ}
    {leaves : LeafId → QTreeLeafNode ι} (id : LeafId) (hnew : leaves leaf = {})
    (hnorth : root.getLeaf x (backward y) ≠ some leaf) :
    (linkLeaf root leaf x y leaves id).leafS =
      if id = leaf then root.getLeaf x (y + FLOOR_SIZE)
      else if root.getLeaf x (backward y) = some id then some leaf
      else (leaves id).leafS := by
  unfold linkLeaf
  by_cases hid : id = leaf
  · subst hid
    cases hs : root.getLeaf x (y + FLOOR_SIZE) <;>
      cases he : root.getLeaf (x + FLOOR_SIZE) y <;>
        simp [writeLeaf_apply, hnorth, hnew, apply_ite QTreeLeafNode.leafS]
  · have hid' : leaf ≠ id := fun h => hid h.symm
    cases hs : root.getLeaf x (y + FLOOR_SIZE) <;>
      cases he : root.getLeaf (x + FLOOR_SIZE) y <;>
        simp [writeLeaf_apply, hid, hid', apply_ite QTreeLeafNode.leafS]

theorem linkLeaf_leafE {root : QTreeNode} {leaf : LeafId} {x y : ℕ}
    {leaves : LeafId → QTreeLeafNode ι} (id : LeafId) (hnew : leaves leaf = {})
    (hwest : root.getLeaf (backward x) y ≠ some leaf) :
    (linkLeaf root leaf x y leaves id).leafE =
      if id = leaf then root.getLeaf (x + FLOOR_SIZE) y
      else if root.getLeaf (backward x) y = some id then some leaf
      else (leaves id).leafE := by
  unfold linkLeaf
  by_cases hid : id = leaf
  · subst hid
    cases hs : root.getLeaf x (y + FLOOR_SIZE) <;>
      cases he : root.getLeaf (x + FLOOR_SIZE) y <;>
        simp [writeLeaf_apply, hwest, hnew, apply_ite QTreeLeafNode.leafE]
  · have hid' : leaf ≠ id := fun h => hid h.symm
    cases hs : root.getLeaf x (y + FLOOR_SIZE) <;>
      cases he : root.getLeaf (x + FLOOR_SIZE) y <;>
        simp [writeLeaf_apply, hid, hid', apply_ite QTreeLeafNode.leafE]

/-- The list that `getSpectatorsInternal` reads of a leaf. -/
def nodeList (onlyPlayers : Bool) (leaf : QTreeLeafNode ι) : List CreatureId :=
  if onlyPlayers then leaf.player_list else leaf.creature_list

/-- The creatures listed for the block of `x`, `y`. -/
def leafList (m : Map ι) (onlyPlayers : Bool) (x y : ℕ) : List CreatureId :=
  ((m.root.getLeaf x y).map fun leaf => nodeList onlyPlayers (m.leaves leaf)).getD []

/-- `m'` has the tiles, the creatures and the caches of `m`. -/
structure SameContent (m m' : Map ι) : Prop where
  getTile_eq : ∀ p, m'.getTile p = m.getTile p
  leafList_eq : ∀ onlyPlayers x y, m'.leafList onlyPlayers x y = m.leafList onlyPlayers x y
  creatures_eq : m'.creatures = m.creatures
  spectatorCache_eq : m'.spectatorCache = m.spectatorCache
  playersSpectatorCache_eq : m'.playersSpectatorCache = m.playersSpectatorCache

/-- A leaf is already there: `createLeaf` leaves the tree as `getLeaf` sees it. -/
theorem linked_of_getLeaf_eq {m : Map ι} {root : QTreeNode} (h : m.Linked)
    (hshape : root.Shaped 13) (hne : root ≠ .null)
    (hsame : ∀ x y, QTreeNode.getLeaf root x y = m.root.getLeaf x y) :
    Linked { m with root := root } := by
  refine ⟨hshape, hne, ?_, ?_, ?_, ?_⟩
  · intro x y id hid
    exact h.fresh x y id (hsame x y ▸ hid)
  · intro x y x' y' id hid hid'
    exact h.inj x y x' y' id (hsame x y ▸ hid) (hsame x' y' ▸ hid')
  · intro x y id hid
    change (m.leaves id).leafS = QTreeNode.getLeaf root x (y + FLOOR_SIZE)
    rw [hsame]
    exact h.south x y id (hsame x y ▸ hid)
  · intro x y id hid
    change (m.leaves id).leafE = QTreeNode.getLeaf root (x + FLOOR_SIZE) y
    rw [hsame]
    exact h.east x y id (hsame x y ▸ hid)

section NewLeaf

variable {m : Map ι} {root : QTreeNode} {x y : ℕ}

/-- The lookups of `root` are those of `m` and the new leaf at one block. -/
def AddsLeaf (m : Map ι) (root : QTreeNode) (x y : ℕ) : Prop :=
  m.root.getLeaf x y = none ∧
    ∀ x' y', root.getLeaf x' y' =
      if block x' y' = block x y then some m.nextLeaf else m.root.getLeaf x' y'

theorem AddsLeaf.cases (h : m.Linked) (hadd : AddsLeaf m root x y) {x' y' : ℕ} {id : LeafId}
    (hid : root.getLeaf x' y' = some id) :
    (block x' y' = block x y ∧ id = m.nextLeaf) ∨
      (block x' y' ≠ block x y ∧ m.root.getLeaf x' y' = some id ∧ id ≠ m.nextLeaf) := by
  rw [hadd.2] at hid
  split at hid
  next hb => exact .inl ⟨hb, (Option.some.inj hid).symm⟩
  next hb => exact .inr ⟨hb, hid, (h.fresh x' y' id hid).ne⟩

/-- The leaf north of a block is the one whose southern neighbour the block is. -/
theorem AddsLeaf.north_iff (h : m.Linked) (hadd : AddsLeaf m root x y) {x' y' : ℕ} {id : LeafId}
    (hid : m.root.getLeaf x' y' = some id) :
    root.getLeaf x (backward y) = some id ↔ block x' (y' + FLOOR_SIZE) = block x y := by
  rw [hadd.2, if_neg (QTreeNode.block_backward_ne x y).1,
    (QTreeNode.block_forward_iff x y x' y').1]
  constructor
  · exact fun hn => h.inj _ _ _ _ id hid hn
  · intro hb
    rw [← QTreeNode.getLeaf_congr h.shape hb, hid]

theorem AddsLeaf.west_iff (h : m.Linked) (hadd : AddsLeaf m root x y) {x' y' : ℕ} {id : LeafId}
    (hid : m.root.getLeaf x' y' = some id) :
    root.getLeaf (backward x) y = some id ↔ block (x' + FLOOR_SIZE) y' = block x y := by
  rw [hadd.2, if_neg (QTreeNode.block_backward_ne x y).2,
    (QTreeNode.block_forward_iff x y x' y').2]
  constructor
  · exact fun hn => h.inj _ _ _ _ id hid hn
  · intro hb
    rw [← QTreeNode.getLeaf_congr h.shape hb, hid]

theorem linked_newLeaf (h : m.Linked) (hshape : root.Shaped 13) (hne : root ≠ .null)
    (hadd : AddsLeaf m root x y) :
    Linked { m with
      root := root
      leaves := linkLeaf root m.nextLeaf x y (Function.update m.leaves m.nextLeaf {})
      nextLeaf := m.nextLeaf + 1 } := by
  have hnew : Function.update m.leaves m.nextLeaf {} m.nextLeaf = {} := by simp
  have hback := QTreeNode.block_backward_ne x y
  have hnorth : root.getLeaf x (backward y) ≠ some m.nextLeaf := by
    rw [hadd.2, if_neg hback.1]
    exact fun hn => (h.fresh _ _ _ hn).false
  have hwest : root.getLeaf (backward x) y ≠ some m.nextLeaf := by
    rw [hadd.2, if_neg hback.2]
    exact fun hn => (h.fresh _ _ _ hn).false
  refine ⟨hshape, hne, ?_, ?_, ?_, ?_⟩
  · intro x' y' id hid
    rcases hadd.cases h hid with ⟨-, rfl⟩ | ⟨-, hid, -⟩
    · exact Nat.lt_succ_self _
    · exact Nat.lt_succ_of_lt (h.fresh x' y' id hid)
  · intro x' y' x'' y'' id hid hid'
    rcases hadd.cases h hid with ⟨hb, rfl⟩ | ⟨-, hid, hne₁⟩
    · rcases hadd.cases h hid' with ⟨hb', -⟩ | ⟨-, -, hne₁⟩
      · exact hb.trans hb'.symm
      · exact absurd rfl hne₁
    · rcases hadd.cases h hid' with ⟨-, rfl⟩ | ⟨-, hid', -⟩
      · exact absurd rfl hne₁
      · exact h.inj x' y' x'' y'' id hid hid'
  · intro x' y' id hid
    change (linkLeaf root m.nextLeaf x y (Function.update m.leaves m.nextLeaf {}) id).leafS = _
    rw [linkLeaf_leafS id hnew hnorth]
    rcases hadd.cases h hid with ⟨hb, rfl⟩ | ⟨hb, hid, hne₁⟩
    · rw [if_pos rfl]
      exact QTreeNode.getLeaf_congr hshape (QTreeNode.block_forward_congr hb).1.symm
    · rw [if_neg hne₁, Function.update_of_ne hne₁, h.south x' y' id hid, hadd.2 x' _]
      exact if_congr (hadd.north_iff h hid) rfl rfl
  · intro x' y' id hid
    change (linkLeaf root m.nextLeaf x y (Function.update m.leaves m.nextLeaf {}) id).leafE = _
    rw [linkLeaf_leafE id hnew hwest]
    rcases hadd.cases h hid with ⟨hb, rfl⟩ | ⟨hb, hid, hne₁⟩
    · rw [if_pos rfl]
      exact QTreeNode.getLeaf_congr hshape (QTreeNode.block_forward_congr hb).2.symm
    · rw [if_neg hne₁, Function.update_of_ne hne₁, h.east x' y' id hid, hadd.2 _ y']
      exact if_congr (hadd.west_iff h hid) rfl rfl

theorem sameContent_newLeaf (h : m.Linked) (hadd : AddsLeaf m root x y) :
    SameContent m { m with
      root := root
      leaves := linkLeaf root m.nextLeaf x y (Function.update m.leaves m.nextLeaf {})
      nextLeaf := m.nextLeaf + 1 } := by
  have hcontent := fun id => linkLeaf_content root m.nextLeaf x y
    (Function.update m.leaves m.nextLeaf {}) id
  have hold : ∀ x' y' id, m.root.getLeaf x' y' = some id →
      Function.update m.leaves m.nextLeaf {} id = m.leaves id :=
    fun x' y' id hid => Function.update_of_ne (h.fresh x' y' id hid).ne _ _
  have hnone : ∀ x' y', block x' y' = block x y → m.root.getLeaf x' y' = none := by
    intro x' y' hb
    rw [QTreeNode.getLeaf_congr h.shape hb, hadd.1]
  refine ⟨fun p => ?_, fun onlyPlayers x' y' => ?_, rfl, rfl, rfl⟩
  · unfold getTile getQTNode
    split
    next => rfl
    next =>
      cases hid : root.getLeaf p.x.toNat p.y.toNat with
      | none =>
        rw [hadd.2] at hid
        split at hid
        next => simp at hid
        next => rw [hid]; rfl
      | some id =>
        have harray := (hcontent id).1
        rcases hadd.cases h hid with ⟨hb, rfl⟩ | ⟨-, hid', -⟩
        · simp [hnone _ _ hb, QTreeLeafNode.getTile, harray]
        · simp [hid', QTreeLeafNode.getTile, harray, hold _ _ _ hid']
  · unfold leafList
    cases hid : root.getLeaf x' y' with
    | none =>
      rw [hadd.2] at hid
      split at hid
      next => simp at hid
      next => rw [hid]; rfl
    | some id =>
      obtain ⟨-, hlist, hplayers⟩ := hcontent id
      rcases hadd.cases h hid with ⟨hb, rfl⟩ | ⟨-, hid', -⟩
      · simp [hnone _ _ hb, nodeList, hlist, hplayers]
      · simp [hid', nodeList, hlist, hplayers, hold _ _ _ hid']

end NewLeaf

/-- `createLeaf` returns the leaf of the block and changes nothing that a reader
of tiles or lists can see. -/
theorem createLeaf_spec {m : Map ι} (h : m.Linked) (x y : ℕ) :
    ∃ m' leaf, m.createLeaf x y = some (m', leaf) ∧ m'.Linked ∧ SameContent m m' ∧
      m'.root.getLeaf x y = some leaf := by
  have hcreate := QTreeNode.createLeaf_root m.nextLeaf x y h.shape h.root_ne
  have hget := fun x' y' => QTreeNode.getLeaf_insert m.nextLeaf x y x' y' h.shape
  have hshape := PathTree.shaped_insert m.nextLeaf (QTreeNode.path 13 x y) m.root
  have hne := PathTree.insert_ne_null m.nextLeaf m.root (QTreeNode.path 13 x y)
  rw [QTreeNode.length_path] at hshape
  generalize PathTree.insert m.nextLeaf m.root (QTreeNode.path 13 x y) = root at *
  cases hold : m.root.getLeaf x y with
  | some leaf =>
    rw [hold] at hcreate
    have hsame : ∀ x' y', QTreeNode.getLeaf root x' y' = m.root.getLeaf x' y' := by
      intro x' y'
      rw [hget]
      split
      next hb => rw [QTreeNode.getLeaf_congr h.shape hb, hold]; rfl
      next => rfl
    refine ⟨{ m with root := root }, leaf, by rw [createLeaf, hcreate]; rfl,
      linked_of_getLeaf_eq h (hshape h.shape) hne hsame, ?_, ?_⟩
    · refine ⟨fun p => ?_, fun onlyPlayers x' y' => ?_, rfl, rfl, rfl⟩
      · simp only [getTile, getQTNode, hsame]
      · simp only [leafList, hsame]
    · exact (hsame x y).trans hold
  | none =>
    rw [hold] at hcreate hget
    have hadd : AddsLeaf m root x y := ⟨hold, hget⟩
    refine ⟨_, m.nextLeaf, by rw [createLeaf, hcreate]; rfl,
      linked_newLeaf h (hshape h.shape) hne hadd, sameContent_newLeaf h hadd, ?_⟩
    exact (hget x y).trans (if_pos rfl)

/-- Two positions with the same slot in the same block are equal. -/
theorem position_eq_of_slot {p q : Position}
    (hblock : block p.x.toNat p.y.toNat = block q.x.toNat q.y.toNat)
    (hx : p.x.toNat &&& FLOOR_MASK = q.x.toNat &&& FLOOR_MASK)
    (hy : p.y.toNat &&& FLOOR_MASK = q.y.toNat &&& FLOOR_MASK)
    (hz : p.z.toNat = q.z.toNat) : p = q := by
  have hmask : ∀ n : ℕ, n &&& FLOOR_MASK = n % 8 :=
    fun n => Nat.and_two_pow_sub_one_eq_mod n 3
  rw [hmask, hmask] at hx hy
  simp only [block, Prod.mk.injEq] at hblock
  have hpx := p.x.toNat_lt
  have hpy := p.y.toNat_lt
  have hqx := q.x.toNat_lt
  have hqy := q.y.toNat_lt
  have hx' : p.x = q.x := UInt16.toNat_inj.mp (by omega)
  have hy' : p.y = q.y := UInt16.toNat_inj.mp (by omega)
  have hz' : p.z = q.z := UInt8.toNat_inj.mp hz
  cases p
  cases q
  simp_all

theorem leaf_getTile_setTile (leaf : QTreeLeafNode ι) {p q : Position} (tile : Tile ι)
    (hblock : block p.x.toNat p.y.toNat = block q.x.toNat q.y.toNat) :
    (leaf.setTile p tile).getTile q = if q = p then some tile else leaf.getTile q := by
  unfold QTreeLeafNode.setTile QTreeLeafNode.getTile
  by_cases hz : q.z.toNat = p.z.toNat
  · by_cases hx : q.x.toNat &&& FLOOR_MASK = p.x.toNat &&& FLOOR_MASK
    · by_cases hy : q.y.toNat &&& FLOOR_MASK = p.y.toNat &&& FLOOR_MASK
      · have hqp : q = p := position_eq_of_slot hblock.symm hx hy hz
        simp [hqp]
      · have hqp : q ≠ p := fun h => hy (by rw [h])
        cases hfloor : leaf.array p.z.toNat <;> simp [hqp, hz, hx, hy, hfloor]
    · have hqp : q ≠ p := fun h => hx (by rw [h])
      cases hfloor : leaf.array p.z.toNat <;> simp [hqp, hz, hx, hfloor]
  · have hqp : q ≠ p := fun h => hz (by rw [h])
    simp [hqp, hz]

theorem modifyLeaf_leaves (m : Map ι) (leaf : LeafId) (f : QTreeLeafNode ι → QTreeLeafNode ι)
    (id : LeafId) :
    (m.modifyLeaf leaf f).leaves id = if leaf = id then f (m.leaves id) else m.leaves id := by
  simp only [modifyLeaf, writeLeaf_apply, Option.some.injEq]

/-- The links stay right when a leaf is changed elsewhere. -/
theorem linked_modifyLeaf {m : Map ι} (h : m.Linked) (leaf : LeafId)
    {f : QTreeLeafNode ι → QTreeLeafNode ι}
    (hf : ∀ l, (f l).leafS = l.leafS ∧ (f l).leafE = l.leafE) :
    (m.modifyLeaf leaf f).Linked := by
  have hlinks : ∀ id, ((m.modifyLeaf leaf f).leaves id).leafS = (m.leaves id).leafS ∧
      ((m.modifyLeaf leaf f).leaves id).leafE = (m.leaves id).leafE := by
    intro id
    rw [modifyLeaf_leaves]
    split
    · exact hf _
    · exact ⟨rfl, rfl⟩
  refine ⟨h.shape, h.root_ne, h.fresh, h.inj, ?_, ?_⟩
  · intro x y id hid
    rw [(hlinks id).1]
    exact h.south x y id hid
  · intro x y id hid
    rw [(hlinks id).2]
    exact h.east x y id hid

theorem leafList_modifyLeaf (m : Map ι) (leaf : LeafId)
    (f : QTreeLeafNode ι → QTreeLeafNode ι) (onlyPlayers : Bool) (x y : ℕ) :
    (m.modifyLeaf leaf f).leafList onlyPlayers x y =
      if m.root.getLeaf x y = some leaf then nodeList onlyPlayers (f (m.leaves leaf))
      else m.leafList onlyPlayers x y := by
  have hroot : (m.modifyLeaf leaf f).root = m.root := rfl
  unfold leafList
  rw [hroot]
  cases hleaf : m.root.getLeaf x y with
  | none => rfl
  | some id =>
    simp only [Option.map_some, Option.getD_some, modifyLeaf_leaves, Option.some.injEq]
    by_cases hid : leaf = id
    · simp [hid]
    · have hid' : id ≠ leaf := fun heq => hid heq.symm
      simp [hid, hid']

theorem leafList_setTileAt (m : Map ι) (leaf : LeafId) (p : Position) (tile : Tile ι)
    (onlyPlayers : Bool) (x y : ℕ) :
    (m.setTileAt leaf p tile).leafList onlyPlayers x y = m.leafList onlyPlayers x y := by
  rw [setTileAt, leafList_modifyLeaf]
  split
  next hleaf => rw [leafList, hleaf]; rfl
  next => rfl

theorem linked_setTileAt {m : Map ι} (h : m.Linked) (leaf : LeafId) (p : Position)
    (tile : Tile ι) : (m.setTileAt leaf p tile).Linked :=
  linked_modifyLeaf h leaf fun _ => ⟨rfl, rfl⟩

theorem getTile_modifyLeaf (m : Map ι) (leaf : LeafId)
    {f : QTreeLeafNode ι → QTreeLeafNode ι} (hf : ∀ l, (f l).array = l.array)
    (p : Position) : (m.modifyLeaf leaf f).getTile p = m.getTile p := by
  have hroot : (m.modifyLeaf leaf f).getQTNode p = m.getQTNode p := rfl
  have htile : ∀ id, ((m.modifyLeaf leaf f).leaves id).getTile p = (m.leaves id).getTile p := by
    intro id
    rw [modifyLeaf_leaves]
    split
    · rw [QTreeLeafNode.getTile, QTreeLeafNode.getTile, hf]
    · rfl
  simp only [getTile, hroot, htile]

theorem getTile_setTileAt {m : Map ι} (h : m.Linked) {leaf : LeafId} {p : Position}
    (tile : Tile ι) (hleaf : m.getQTNode p = some leaf) (q : Position) :
    (m.setTileAt leaf p tile).getTile q =
      if q = p ∧ p.z.toNat < MAP_MAX_LAYERS then some tile else m.getTile q := by
  have hleaves : ∀ id, (m.setTileAt leaf p tile).leaves id =
      if leaf = id then (m.leaves id).setTile p tile else m.leaves id := by
    intro id
    simp only [setTileAt, modifyLeaf_leaves]
  have hroot : (m.setTileAt leaf p tile).getQTNode q = m.getQTNode q := rfl
  unfold getTile
  rw [hroot]
  by_cases hz : q.z.toNat ≥ MAP_MAX_LAYERS
  · rw [if_pos hz, if_pos hz, if_neg]
    rintro ⟨rfl, hlt⟩
    omega
  rw [if_neg hz, if_neg hz]
  cases hq : m.getQTNode q with
  | none =>
    have hqp : q ≠ p := by
      rintro rfl
      simp [hleaf] at hq
    simp [hqp]
  | some id =>
    simp only [Option.bind_some, hleaves]
    by_cases hid : leaf = id
    · subst hid
      have hblock := h.inj _ _ _ _ leaf hleaf hq
      rw [if_pos rfl, leaf_getTile_setTile _ tile hblock]
      by_cases hqp : q = p
      · subst hqp
        rw [if_pos rfl, if_pos ⟨rfl, by omega⟩]
      · rw [if_neg hqp, if_neg (fun hc => hqp hc.1)]
    · have hqp : q ≠ p := by
        rintro rfl
        exact hid (Option.some.inj (hleaf.symm.trans hq))
      rw [if_neg hid, if_neg (fun hc => hqp hc.1)]

/-- The tile that `setTile` leaves at its position. -/
def mergedTile (merge : ι → ι → ι) (newTile : ι) : Option (Tile ι) → Tile ι
  | some tile => { tile with items := merge tile.items newTile }
  | none => { items := newTile }

/-- `setTile` never fails, and only the tile at its position differs after it. -/
theorem setTile_spec {m : Map ι} (h : m.Linked) (merge : ι → ι → ι) (p : Position)
    (newTile : ι) :
    ∃ m', m.setTile merge p newTile = some m' ∧ m'.Linked ∧
      (∀ q, m'.getTile q =
        if q = p ∧ p.z.toNat < MAP_MAX_LAYERS then
          some (mergedTile merge newTile (m.getTile p))
        else m.getTile q) ∧
      (∀ onlyPlayers x y, m'.leafList onlyPlayers x y = m.leafList onlyPlayers x y) ∧
      m'.creatures = m.creatures ∧ m'.spectatorCache = m.spectatorCache ∧
      m'.playersSpectatorCache = m.playersSpectatorCache := by
  unfold setTile
  by_cases hz : p.z.toNat ≥ MAP_MAX_LAYERS
  · refine ⟨m, by rw [if_pos hz], h, ?_, fun _ _ _ => rfl, rfl, rfl, rfl⟩
    intro q
    rw [if_neg (fun hc => absurd hc.2 (by omega))]
  · obtain ⟨m', leaf, hcreate, hlinked, hsame, hleaf⟩ := createLeaf_spec h p.x.toNat p.y.toNat
    have htile : (m'.leaves leaf).getTile p = m.getTile p := by
      rw [← hsame.getTile_eq, getTile, if_neg hz, getQTNode, hleaf]
      rfl
    have hresult : (match (m'.leaves leaf).getTile p with
        | some tile => m'.setTileAt leaf p { tile with items := merge tile.items newTile }
        | none => m'.setTileAt leaf p { items := newTile }) =
        m'.setTileAt leaf p (mergedTile merge newTile (m.getTile p)) := by
      rw [htile]
      cases m.getTile p <;> rfl
    refine ⟨m'.setTileAt leaf p (mergedTile merge newTile (m.getTile p)), ?_,
      linked_setTileAt hlinked _ _ _, ?_, ?_, hsame.creatures_eq, hsame.spectatorCache_eq,
      hsame.playersSpectatorCache_eq⟩
    · rw [if_neg hz, hcreate, Option.map_some]
      exact congrArg some hresult
    · intro q
      rw [getTile_setTileAt hlinked _ hleaf, hsame.getTile_eq]
    · intro onlyPlayers x y
      rw [leafList_setTileAt, hsame.leafList_eq]

theorem linked_empty : Linked ({} : Map ι) := by
  have hnone : ∀ x y, ({} : Map ι).root.getLeaf x y = none := fun _ _ => rfl
  refine ⟨fun _ => PathTree.shaped_null 12, by simp, ?_, ?_, ?_, ?_⟩ <;>
    simp [hnone]

end Map

end TibiaServer.World
