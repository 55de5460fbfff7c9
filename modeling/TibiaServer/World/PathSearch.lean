import TibiaServer.World.AStarNodes
import TibiaServer.World.SightLineSquares
/-!
# The path search

`getPathMatching` opens squares around the creature until the condition is met
best, then walks the parents of the square found back to the creature.  The
loops of the source run here for a given number of rounds at most.
-/

namespace TibiaServer.World

structure FindPathParams where
  fullPathSearch : Bool := true
  clearSight : Bool := true
  allowDiagonal : Bool := true
  keepDistance : Bool := false
  maxSearchDist : ℤ := 0
  minTargetDist : ℤ := -1
  maxTargetDist : ℤ := -1

/-- The map and the creature as the search sees them.  `queryAdd` says whether
a tile answers `RETURNVALUE_NOERROR` to the creature, `getWalkCache` is 2 for a
creature without a cache, and `avoidsField` is the test of the magic field of
a tile in `getTileWalkCost`. -/
structure Walker (τ : Type) where
  getTile : Position → Option τ
  position : Position
  getWalkCache : Position → ℤ
  queryAdd : τ → Bool
  hasTopVisibleCreature : τ → Bool
  avoidsField : τ → Bool
  blocksProjectile : τ → Bool
  /-- The creature stands on a tile. -/
  onTile : (getTile position).isSome

namespace FrozenPathingConditionCall

variable (targetPos : Position) (fpp : FindPathParams)

def isInRange (startPos testPos : Position) : Bool :=
  if fpp.fullPathSearch then
    testPos.getX ≤ targetPos.getX + fpp.maxTargetDist &&
      testPos.getX ≥ targetPos.getX - fpp.maxTargetDist &&
      testPos.getY ≤ targetPos.getY + fpp.maxTargetDist &&
      testPos.getY ≥ targetPos.getY - fpp.maxTargetDist
  else
    let dx := startPos.getOffsetX targetPos
    let dxMax := if dx ≥ 0 then fpp.maxTargetDist else 0
    let dxMin := if dx ≤ 0 then fpp.maxTargetDist else 0
    let dy := startPos.getOffsetY targetPos
    let dyMax := if dy ≥ 0 then fpp.maxTargetDist else 0
    let dyMin := if dy ≤ 0 then fpp.maxTargetDist else 0
    testPos.getX ≤ targetPos.getX + dxMax && testPos.getX ≥ targetPos.getX - dxMin &&
      testPos.getY ≤ targetPos.getY + dyMax && testPos.getY ≥ targetPos.getY - dyMin

/-- `operator()`: the new `bestMatchDist` when it accepts the square. -/
def call (clear : Position → Position → Bool) (startPos testPos : Position)
    (bestMatchDist : ℤ) : Option ℤ :=
  if !isInRange targetPos fpp startPos testPos then none
  else if fpp.clearSight && !clear testPos targetPos then none
  else
    let testDist := max (targetPos.getDistanceX testPos) (targetPos.getDistanceY testPos)
    if fpp.maxTargetDist = 1 then
      if testDist < fpp.minTargetDist ∨ testDist > fpp.maxTargetDist then none
      else some bestMatchDist
    else if testDist ≤ fpp.maxTargetDist then
      if testDist < fpp.minTargetDist then none
      else if testDist = fpp.maxTargetDist then some 0
      else if testDist > bestMatchDist then some testDist
      else none
    else none

end FrozenPathingConditionCall

namespace Walker

variable {τ : Type} (w : Walker τ)

def isSightClear (fromPos toPos : Position) : Bool :=
  World.isSightClear (fun x y =>
    match w.getTile (.ofInt x y fromPos.z) with
    | some tile => w.blocksProjectile tile
    | none => false) fromPos toPos

/-- `Map::canWalkTo`; the tile is the creature's own if it is at its position. -/
def canWalkTo (pos : Position) : Option τ :=
  let walkCache := w.getWalkCache pos
  if walkCache = 0 then none
  else if walkCache = 1 then w.getTile pos
  else
    match w.getTile pos with
    | none => none
    | some tile => if pos ≠ w.position ∧ !w.queryAdd tile then none else some tile

def getTileWalkCost (tile : τ) : ℕ :=
  (if w.hasTopVisibleCreature tile then MAP_NORMALWALKCOST * 3 else 0) +
    (if w.avoidsField tile then MAP_NORMALWALKCOST * 18 else 0)

end Walker

/-- `dirNeighbors`. -/
def dirNeighbors : Direction → List (ℤ × ℤ)
  | .NORTH => [(-1, 0), (0, 1), (1, 0), (1, 1), (-1, 1)]
  | .EAST => [(-1, 0), (0, 1), (0, -1), (-1, -1), (-1, 1)]
  | .SOUTH => [(-1, 0), (1, 0), (0, -1), (-1, -1), (1, -1)]
  | .WEST => [(0, 1), (1, 0), (0, -1), (1, -1), (1, 1)]
  | .SOUTHWEST => [(1, 0), (0, -1), (-1, -1), (1, -1), (1, 1)]
  | .SOUTHEAST => [(-1, 0), (0, -1), (-1, -1), (1, -1), (-1, 1)]
  | .NORTHWEST => [(0, 1), (1, 0), (1, -1), (1, 1), (-1, 1)]
  | .NORTHEAST => [(-1, 0), (0, 1), (-1, -1), (1, 1), (-1, 1)]

/-- `allNeighbors`. -/
def allNeighbors : List (ℤ × ℤ) :=
  [(-1, 0), (0, 1), (1, 0), (0, -1), (-1, -1), (1, -1), (1, 1), (-1, 1)]

/-- The row of `dirNeighbors` for the offset of the parent. -/
def neighborsRow (allowDiagonal : Bool) (offset_x offset_y : ℤ) : Direction :=
  if offset_y = 0 then
    if offset_x = -1 then .WEST else .EAST
  else if !allowDiagonal || offset_x = 0 then
    if offset_y = -1 then .NORTH else .SOUTH
  else if offset_y = -1 then
    if offset_x = -1 then .NORTHWEST else .NORTHEAST
  else if offset_x = -1 then .SOUTHWEST
  else .SOUTHEAST

namespace PathSearch

open AStarNodes (getMapWalkCost)

/-- The variables of the outer loop; `found` goes with `endPos`. -/
structure State where
  nodes : AStarNodes
  bestMatch : ℤ
  found : Option (ℕ × Position)

/-- How one neighbor of `n` leaves the pool: as it was, changed, not at all as
it is full, or by way of a null pointer. -/
inductive Visit
  | skip
  | take (nodes : AStarNodes)
  | full
  | nullTile

/-- How the loop over the neighbors ends. -/
inductive Expansion
  | done (nodes : AStarNodes)
  | returnFalse
  | nullTile

/-- How a round of the outer loop ends. -/
inductive Round
  | again (s : State)
  | leave (s : State)
  | returnFalse
  | nullTile

inductive Answer
  | notFound
  | found (dirList : List Direction)
  | nullTile
  deriving DecidableEq, Repr

variable {τ : Type} (w : Walker τ) (targetPos : Position) (fpp : FindPathParams)

/-- The position of a node, on the floor of the creature. -/
def nodePos (node : AStarNode) : Position := ⟨node.x, node.y, w.position.z⟩

/-- The body of the loop over the neighbors of `n`, for the one at `pos`; `f` is
what `n->f` was before the loop. -/
def visit (n f : ℕ) (pos : Position) (ns : AStarNodes) : Visit :=
  let startPos := w.position
  if fpp.maxSearchDist ≠ 0 ∧ (startPos.getDistanceX pos > fpp.maxSearchDist ∨
      startPos.getDistanceY pos > fpp.maxSearchDist) then .skip
  else if fpp.keepDistance &&
      !FrozenPathingConditionCall.isInRange targetPos fpp startPos pos then .skip
  else
    match ns.getNodeByPosition pos.x pos.y with
    | some neighborNode =>
      match w.getTile pos with
      | none => .nullTile
      | some tile =>
        let newf := f + getMapWalkCost (ns.nodes n) pos + w.getTileWalkCost tile
        if (ns.nodes neighborNode).f ≤ newf then .skip
        else .take (ns.reparent neighborNode n newf)
    | none =>
      match w.canWalkTo pos with
      | none => .skip
      | some tile =>
        let newf := f + getMapWalkCost (ns.nodes n) pos + w.getTileWalkCost tile
        match ns.createOpenNode n pos.x pos.y newf with
        | none => .full
        | some ns => .take ns

/-- The loop over the neighbors; with `found` a full pool ends only this loop. -/
def expand (found : Bool) (n f : ℕ) : List Position → AStarNodes → Expansion
  | [], ns => .done ns
  | pos :: rest, ns =>
    match visit w targetPos fpp n f pos ns with
    | .skip => expand found n f rest ns
    | .take ns => expand found n f rest ns
    | .full => if found then .done ns else .returnFalse
    | .nullTile => .nullTile

/-- The squares that the loop over the neighbors looks at. -/
def neighbors (ns : AStarNodes) (n : ℕ) : List Position :=
  let node := ns.nodes n
  let offsets :=
    match node.parent with
    | some parent =>
      let offset_x := ((ns.nodes parent).x.toNat : ℤ) - node.x.toNat
      let offset_y := ((ns.nodes parent).y.toNat : ℤ) - node.y.toNat
      (dirNeighbors (neighborsRow fpp.allowDiagonal offset_x offset_y)).take
        (if fpp.allowDiagonal then 5 else 3)
    | none => allNeighbors
  offsets.map fun offset =>
    .ofInt (node.x.toNat + offset.1) (node.y.toNat + offset.2) w.position.z

/-- The variables after the condition has been asked for the square of `n`. -/
def State.record (s : State) (n : ℕ) (pos : Position) (accepted : Option ℤ) : State :=
  match accepted with
  | some bestMatch => { s with bestMatch := bestMatch, found := some (n, pos) }
  | none => s

/-- One round of the outer loop, its condition included. -/
def round (s : State) : Round :=
  if fpp.maxSearchDist = 0 ∧ s.nodes.closedNodes ≥ 100 then .leave s
  else
    match s.nodes.getBestNode with
    | none => if s.found.isSome then .leave s else .returnFalse
    | some n =>
      let pos := nodePos w (s.nodes.nodes n)
      let accepted := FrozenPathingConditionCall.call targetPos fpp w.isSightClear w.position
        pos s.bestMatch
      let s := s.record n pos accepted
      if accepted.isSome ∧ s.bestMatch = 0 then .leave s
      else
        match expand w targetPos fpp s.found.isSome n (s.nodes.nodes n).f
          (neighbors w fpp s.nodes n) s.nodes with
        | .done nodes => .again { s with nodes := nodes.closeNode n }
        | .returnFalse => .returnFalse
        | .nullTile => .nullTile

/-- The direction that `dirList.push_front` gets for the offset of the parent. -/
def stepDirection (dx dy : ℤ) : Option Direction :=
  if dx = 1 ∧ dy = 1 then some .NORTHWEST
  else if dx = -1 ∧ dy = 1 then some .NORTHEAST
  else if dx = 1 ∧ dy = -1 then some .SOUTHWEST
  else if dx = -1 ∧ dy = -1 then some .SOUTHEAST
  else if dx = 1 then some .WEST
  else if dx = -1 then some .EAST
  else if dy = 1 then some .NORTH
  else if dy = -1 then some .SOUTH
  else none

/-- The loop over the parents, from the square `prev` up. -/
def walkBack (ns : AStarNodes) : ℕ → Position → Option ℕ → List Direction →
    Option (List Direction)
  | _, _, none, dirList => some dirList
  | 0, _, some _, _ => none
  | fuel + 1, prev, some found, dirList =>
    let pos := nodePos w (ns.nodes found)
    let dir := stepDirection (pos.getOffsetX prev) (pos.getOffsetY prev)
    walkBack ns fuel pos (ns.nodes found).parent (dir.toList ++ dirList)

/-- The outer loop and what follows it; `none` when the fuel does not suffice. -/
def search : ℕ → State → Option Answer
  | 0, _ => none
  | fuel + 1, s =>
    match round w targetPos fpp s with
    | .again s => search fuel s
    | .leave s =>
      match s.found with
      | none => some .notFound
      | some (found, endPos) =>
        (walkBack w s.nodes fuel endPos (s.nodes.nodes found).parent []).map .found
    | .returnFalse => some .notFound
    | .nullTile => some .nullTile

def State.init (w : Walker τ) : State where
  nodes := .init w.position.x w.position.y
  bestMatch := 0
  found := none

/-- `getPathMatching` with an empty `dirList`, with which every caller comes. -/
def getPathMatching (fuel : ℕ) : Option Answer := search w targetPos fpp fuel (.init w)

end PathSearch

end TibiaServer.World
