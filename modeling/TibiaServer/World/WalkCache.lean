import Mathlib.Algebra.Order.Group.Abs
import TibiaServer.Enums
import TibiaServer.Library.Loops
import TibiaServer.Library.Run
import TibiaServer.World.Position
/-!
# The local map cache of a monster

`localMapCache` says of the 23 × 23 squares around a monster which of them it
may step on.  A single step shifts the cache and refreshes the strips that come
into view; everything else rebuilds it (`updateMapCache`).  After a step south
and sideways the columns are shifted in the wrong rows (`walk_not_rebuilt`); on
every other walk each cell but the monster's own holds what the rebuild would
store (`always_rebuilt`).
-/

namespace TibiaServer.World.WalkCache

open Library.Loops (shiftDown shiftUp mapRange)

/-- `CombatType_t`. -/
inductive CombatType
  | NONE
  | PHYSICALDAMAGE
  | ENERGYDAMAGE
  | EARTHDAMAGE
  | FIREDAMAGE
  | UNDEFINEDDAMAGE
  | LIFEDRAIN
  | MANADRAIN
  | HEALING
  | DROWNDAMAGE
  | ICEDAMAGE
  | HOLYDAMAGE
  | DEATHDAMAGE
  deriving DecidableEq, Repr

/-- A creature as `Tile::queryAdd` looks at it when a monster wants to step on
its tile; `summonOfPlayer` is `isSummon() && getMaster()->getPlayer()`. -/
structure TileCreature where
  isMonster : Bool := false
  isPushable : Bool := false
  summonOfPlayer : Bool := false
  isInGhostMode : Bool := false
  deriving DecidableEq, Repr

structure MagicField where
  isBlocking : Bool := false
  damage : ℤ := 0
  combatType : CombatType := .NONE
  deriving DecidableEq, Repr

/-- The ground, the `TILESTATE_*` flags, the creatures and the field of a tile. -/
structure Tile where
  ground : Bool := true
  floorChange : Bool := false
  teleport : Bool := false
  protectionZone : Bool := false
  immovableBlockSolid : Bool := false
  immovableNoFieldBlockPath : Bool := false
  blockSolid : Bool := false
  noFieldBlockPath : Bool := false
  creatures : List TileCreature := []
  field : Option MagicField := none

structure Monster where
  isMoveLocked : Bool := false
  canPushCreatures : Bool := false
  isSummon : Bool := false
  canPushItems : Bool := false
  isImmune : CombatType → Bool := fun _ => false
  canWalkOnEnergy : Bool := true
  canWalkOnFire : Bool := true
  canWalkOnPoison : Bool := true
  ignoreFieldDamage : Bool := false
  /-- The monster among the creatures of its own tile. -/
  creature : TileCreature := { isMonster := true, isPushable := true }

def Monster.canWalkOnFieldType (m : Monster) : CombatType → Bool
  | .ENERGYDAMAGE => m.canWalkOnEnergy
  | .FIREDAMAGE => m.canWalkOnFire
  | .EARTHDAMAGE => m.canWalkOnPoison
  | _ => true

namespace Tile

/-- The loops over the creatures of the tile. -/
def creaturesRefuse (t : Tile) (m : Monster) : Option ReturnValue :=
  if m.canPushCreatures && !m.isSummon then
    if t.creatures.any fun c =>
        !c.isInGhostMode && (!c.isMonster || !c.isPushable || c.summonOfPlayer) then
      some .NOTPOSSIBLE
    else none
  else if t.creatures.any fun c => !c.isInGhostMode then some .NOTENOUGHROOM
  else none

/-- The field is one that the monster must not enter. -/
def fieldRefuses (t : Tile) (m : Monster) : Bool :=
  match t.field with
  | none => false
  | some field =>
    !field.isBlocking && field.damage != 0 && !m.isImmune field.combatType &&
      !(m.canWalkOnFieldType field.combatType || m.ignoreFieldDamage)

/-- `queryAdd(0, monster, 1, FLAG_PATHFINDING | FLAG_IGNOREFIELDDAMAGE)`. -/
def queryAdd (t : Tile) (m : Monster) : ReturnValue :=
  if t.floorChange || t.teleport then .NOTPOSSIBLE
  else if m.isMoveLocked || !t.ground then .NOTPOSSIBLE
  else if t.protectionZone then .NOTPOSSIBLE
  else
    match t.creaturesRefuse m with
    | some ret => ret
    | none =>
      if t.immovableBlockSolid then .NOTPOSSIBLE
      else if t.immovableNoFieldBlockPath then .NOTPOSSIBLE
      else if (t.blockSolid || t.noFieldBlockPath) && !m.canPushItems then .NOTPOSSIBLE
      else if t.fieldRefuses m then .NOTPOSSIBLE
      else .NOERROR

end Tile

def mapWalkWidth : ℕ := 23
def mapWalkHeight : ℕ := 23
def maxWalkCacheWidth : ℤ := 11
def maxWalkCacheHeight : ℤ := 11

/-- `localMapCache[y][x]`. -/
abbrev Cache := ℕ → ℕ → Bool

/-- A monster whose map is loaded. -/
structure State where
  position : Position
  localMapCache : Cache

/-- The tiles without the monster, which stay as they are. -/
abbrev Tiles := Position → Option Tile

variable (w : Tiles) (m : Monster)

/-- `Map::getTile` while the monster stands on `myPos`. -/
def getTile (myPos pos : Position) : Option Tile :=
  if pos = myPos then (w pos).map fun t => { t with creatures := m.creature :: t.creatures }
  else w pos

/-- What `updateTileCache` stores for a tile. -/
def walkable (tile : Option Tile) : Bool :=
  match tile with
  | none => false
  | some t => t.queryAdd m = .NOERROR

/-- `updateTileCache(tile, dx, dy)`. -/
def updateTileCache (tile : Option Tile) (dx dy : ℤ) (c : Cache) : Cache :=
  if |dx| ≤ maxWalkCacheWidth ∧ |dy| ≤ maxWalkCacheHeight then
    Function.update c (maxWalkCacheHeight + dy).toNat
      (Function.update (c (maxWalkCacheHeight + dy).toNat) (maxWalkCacheWidth + dx).toNat
        (walkable m tile))
  else c

/-- `updateTileCache(tile, pos)` while the monster stands on `myPos`. -/
def updateTileCacheAt (myPos : Position) (tile : Option Tile) (pos : Position) (c : Cache) :
    Cache :=
  if pos.z = myPos.z then
    updateTileCache m tile (pos.getOffsetX myPos) (pos.getOffsetY myPos) c
  else c

/-- `-n .. n`, the order of the loops over the squares. -/
def offsets (n : ℤ) : List ℤ := (List.range (2 * n + 1).toNat).map fun (i : ℕ) => (i : ℤ) - n

def updateMapCache (s : State) : State :=
  let myPos := s.position
  { s with localMapCache :=
      (offsets maxWalkCacheHeight ×ˢ offsets maxWalkCacheWidth).foldl (fun c yx =>
        let pos := Position.ofInt (myPos.getX + yx.2) (myPos.getY + yx.1) myPos.z
        updateTileCacheAt m myPos (getTile w m myPos pos) pos c) s.localMapCache }

/-- The refresh of the row at the offset `dy`. -/
def updateRow (myPos : Position) (dy : ℤ) (c : Cache) : Cache :=
  (offsets maxWalkCacheWidth).foldl (fun c x =>
    let cacheTile := getTile w m myPos (.ofInt (myPos.getX + x) (myPos.getY + dy) myPos.z)
    updateTileCache m cacheTile x dy c) c

/-- The refresh of the column at the offset `dx`. -/
def updateColumn (myPos : Position) (dx : ℤ) (c : Cache) : Cache :=
  (offsets maxWalkCacheHeight).foldl (fun c y =>
    let cacheTile := getTile w m myPos (.ofInt (myPos.getX + dx) (myPos.getY + y) myPos.z)
    updateTileCache m cacheTile dx y c) c

/-- The part of `onCreatureMove` for a step to the north or the south; `memcpy`
copies a row as a whole. -/
def moveRows (oldPos newPos : Position) (c : Cache) : Cache :=
  if oldPos.getY > newPos.getY then
    updateRow w m newPos (-maxWalkCacheHeight) (shiftUp (mapWalkHeight - 1) c)
  else if oldPos.getY < newPos.getY then
    updateRow w m newPos maxWalkCacheHeight (shiftDown (mapWalkHeight - 1) c)
  else c

/-- `starty` and `endy`; `dy` is a distance, so that its sign is lost. -/
def shiftedRows (oldPos newPos : Position) : ℤ × ℤ :=
  let dy := oldPos.getDistanceY newPos
  if dy < 0 then (0, (mapWalkHeight - 1 : ℕ) + dy)
  else if dy > 0 then (dy, (mapWalkHeight - 1 : ℕ))
  else (0, (mapWalkHeight - 1 : ℕ))

/-- The part of `onCreatureMove` for a step to the east or the west. -/
def moveColumns (oldPos newPos : Position) (c : Cache) : Cache :=
  let (starty, endy) := shiftedRows oldPos newPos
  let rows := (endy + 1 - starty).toNat
  if oldPos.getX < newPos.getX then
    updateColumn w m newPos maxWalkCacheWidth
      (mapRange starty.toNat rows (shiftDown (mapWalkWidth - 1)) c)
  else if oldPos.getX > newPos.getX then
    updateColumn w m newPos (-maxWalkCacheWidth)
      (mapRange starty.toNat rows (shiftUp (mapWalkWidth - 1)) c)
  else c

/-- What `onCreatureMove` does to the cache of the monster that moved. -/
def onCreatureMove (s : State) (oldPos newPos : Position) (teleport : Bool) : State :=
  if teleport ∨ oldPos.z ≠ newPos.z then updateMapCache w m s
  else
    let shifted := moveColumns w m oldPos newPos (moveRows w m oldPos newPos s.localMapCache)
    let oldTile := getTile w m s.position oldPos
    { s with localMapCache := updateTileCacheAt m s.position oldTile oldPos shifted }

/-- `Map::moveCreature` to the tile at `newPos`, if there is one. -/
def moveCreature (s : State) (newPos : Position) (forceTeleport : Bool) : Option State :=
  (w newPos).map fun newTile =>
    let oldPos := s.position
    let teleport := forceTeleport || !newTile.ground || !Position.areInRange 1 1 0 oldPos newPos
    onCreatureMove w m { s with position := newPos } oldPos newPos teleport

/-- `getWalkCache` of a monster that uses the cache: 1 for a square it may step
on, 0 for one it may not, 2 for one out of range. -/
def getWalkCache (s : State) (pos : Position) : ℤ :=
  let myPos := s.position
  if myPos.z ≠ pos.z then 0
  else if pos = myPos then 1
  else
    let dx := pos.getOffsetX myPos
    let dy := pos.getOffsetY myPos
    if |dx| ≤ maxWalkCacheWidth ∧ |dy| ≤ maxWalkCacheHeight then
      if s.localMapCache (maxWalkCacheHeight + dy).toNat (maxWalkCacheWidth + dx).toNat then 1
      else 0
    else 2

variable {w m}

theorem updateTileCache_apply (tile : Option Tile) (dx dy : ℤ) (c : Cache) (y x : ℕ) :
    updateTileCache m tile dx dy c y x =
      if (|dx| ≤ 11 ∧ |dy| ≤ 11) ∧ (y : ℤ) = 11 + dy ∧ (x : ℤ) = 11 + dx then walkable m tile
      else c y x := by
  unfold updateTileCache maxWalkCacheWidth maxWalkCacheHeight
  by_cases hin : |dx| ≤ 11 ∧ |dy| ≤ 11
  · have hx := abs_le.mp hin.1
    have hy := abs_le.mp hin.2
    rw [if_pos hin]
    by_cases hrow : y = (11 + dy).toNat
    · subst hrow
      rw [Function.update_self]
      by_cases hcol : x = (11 + dx).toNat
      · subst hcol
        rw [Function.update_self, if_pos ⟨hin, by omega, by omega⟩]
      · rw [Function.update_of_ne hcol, if_neg (by omega)]
    · rw [Function.update_of_ne hrow, if_neg (by omega)]
  · rw [if_neg hin, if_neg fun h => hin h.1]

theorem mem_offsets {i : ℤ} : i ∈ offsets 11 ↔ |i| ≤ 11 := by
  rw [abs_le]
  unfold offsets
  simp only [List.mem_map, List.mem_range]
  constructor
  · rintro ⟨k, hk, rfl⟩
    omega
  · intro hi
    exact ⟨(i + 11).toNat, by omega, by omega⟩

theorem updateRow_apply {myPos : Position} {dy : ℤ} (hdy : |dy| ≤ 11) (c : Cache) {y x : ℕ}
    (hx : x < 23) :
    updateRow w m myPos dy c y x =
      if (y : ℤ) = 11 + dy then
        walkable m (getTile w m myPos
          (.ofInt (myPos.getX + (x - 11)) (myPos.getY + dy) myPos.z))
      else c y x := by
  unfold updateRow
  by_cases hy : (y : ℤ) = 11 + dy
  · have habs : |(x : ℤ) - 11| ≤ 11 := abs_le.mpr (by omega)
    rw [if_pos hy]
    apply Library.Loops.foldl_hit (fun c : Cache => c y x) (fun i : ℤ => i = x - 11)
    · intro c i hi
      exact (updateTileCache_apply _ _ _ _ _ _).trans (if_neg (by omega))
    · rintro c i rfl
      exact (updateTileCache_apply _ _ _ _ _ _).trans
        (if_pos ⟨⟨habs, hdy⟩, hy, by omega⟩)
    · exact ⟨_, mem_offsets.mpr habs, rfl⟩
  · rw [if_neg hy]
    apply Library.Loops.foldl_miss (fun c : Cache => c y x) (fun _ : ℤ => False)
    · intro c i _
      exact (updateTileCache_apply _ _ _ _ _ _).trans (if_neg fun h => hy h.2.1)
    · exact fun _ _ h => h

theorem updateColumn_apply {myPos : Position} {dx : ℤ} (hdx : |dx| ≤ 11) (c : Cache) {y x : ℕ}
    (hy : y < 23) :
    updateColumn w m myPos dx c y x =
      if (x : ℤ) = 11 + dx then
        walkable m (getTile w m myPos
          (.ofInt (myPos.getX + dx) (myPos.getY + (y - 11)) myPos.z))
      else c y x := by
  unfold updateColumn
  by_cases hx : (x : ℤ) = 11 + dx
  · have habs : |(y : ℤ) - 11| ≤ 11 := abs_le.mpr (by omega)
    rw [if_pos hx]
    apply Library.Loops.foldl_hit (fun c : Cache => c y x) (fun i : ℤ => i = y - 11)
    · intro c i hi
      exact (updateTileCache_apply _ _ _ _ _ _).trans (if_neg (by omega))
    · rintro c i rfl
      exact (updateTileCache_apply _ _ _ _ _ _).trans
        (if_pos ⟨⟨hdx, habs⟩, by omega, hx⟩)
    · exact ⟨_, mem_offsets.mpr habs, rfl⟩
  · rw [if_neg hx]
    apply Library.Loops.foldl_miss (fun c : Cache => c y x) (fun _ : ℤ => False)
    · intro c i _
      exact (updateTileCache_apply _ _ _ _ _ _).trans (if_neg fun h => hx h.2.2)
    · exact fun _ _ h => h

/-- The square that the cell in row `y` and column `x` stands for. -/
def IsSquare (myPos : Position) (y x : ℕ) (q : Position) : Prop :=
  q.getX = myPos.getX + (x - 11) ∧ q.getY = myPos.getY + (y - 11) ∧ q.z = myPos.z

instance (myPos : Position) (y x : ℕ) (q : Position) : Decidable (IsSquare myPos y x q) :=
  inferInstanceAs (Decidable (_ ∧ _ ∧ _))

theorem IsSquare.ofInt_eq {myPos q : Position} {y x : ℕ} (h : IsSquare myPos y x q) :
    Position.ofInt (myPos.getX + (x - 11)) (myPos.getY + (y - 11)) myPos.z = q := by
  rw [← h.2.2]
  exact Position.ofInt_eq h.1 h.2.1

theorem IsSquare.unique {myPos q q' : Position} {y x : ℕ} (h : IsSquare myPos y x q)
    (h' : IsSquare myPos y x q') : q = q' :=
  Position.ext_get (h.1.trans h'.1.symm) (h.2.1.trans h'.2.1.symm) (h.2.2.trans h'.2.2.symm)

/-- A square that wrapped around at the edge of the world is out of range, so
that nothing is stored for it. -/
theorem updateTileCacheAt_apply (myPos : Position) (tile : Option Tile) (q : Position)
    (c : Cache) {y x : ℕ} (hy : y < 23) (hx : x < 23) :
    updateTileCacheAt m myPos tile q c y x =
      if IsSquare myPos y x q then walkable m tile else c y x := by
  unfold updateTileCacheAt
  by_cases hz : q.z = myPos.z
  · rw [if_pos hz, updateTileCache_apply]
    apply if_congr _ rfl rfl
    simp only [Position.getOffsetX, Position.getOffsetY, abs_le, IsSquare]
    constructor
    · rintro ⟨-, hrow, hcol⟩
      exact ⟨by omega, by omega, hz⟩
    · rintro ⟨hqx, hqy, -⟩
      omega
  · rw [if_neg hz, if_neg fun h => hz h.2.2]

@[simp] theorem updateMapCache_position (s : State) :
    (updateMapCache w m s).position = s.position := by
  unfold updateMapCache
  rfl

/-- The rebuilt cell is that of its square. -/
theorem updateMapCache_square {s : State} {y x : ℕ} {q : Position} (hy : y < 23) (hx : x < 23)
    (hq : IsSquare s.position y x q) :
    (updateMapCache w m s).localMapCache y x = walkable m (getTile w m s.position q) := by
  have hdy : |(y : ℤ) - 11| ≤ 11 := abs_le.mpr (by omega)
  have hdx : |(x : ℤ) - 11| ≤ 11 := abs_le.mpr (by omega)
  unfold updateMapCache
  apply Library.Loops.foldl_hit (fun c : Cache => c y x) fun yx : ℤ × ℤ =>
    IsSquare s.position y x
      (.ofInt (s.position.getX + yx.2) (s.position.getY + yx.1) s.position.z)
  · intro c yx hmiss
    exact (updateTileCacheAt_apply _ _ _ _ hy hx).trans (if_neg hmiss)
  · intro c yx hhit
    rw [hq.unique hhit]
    exact (updateTileCacheAt_apply _ _ _ _ hy hx).trans (if_pos hhit)
  · refine ⟨((y : ℤ) - 11, (x : ℤ) - 11), ?_, ?_⟩
    · exact List.pair_mem_product.mpr ⟨mem_offsets.mpr hdy, mem_offsets.mpr hdx⟩
    · rw [hq.ofInt_eq]
      exact hq

/-- A cell without a square is left alone. -/
theorem updateMapCache_beyond {s : State} {y x : ℕ} (hy : y < 23) (hx : x < 23)
    (hq : ∀ q, ¬ IsSquare s.position y x q) :
    (updateMapCache w m s).localMapCache y x = s.localMapCache y x := by
  unfold updateMapCache
  apply Library.Loops.foldl_miss (fun c : Cache => c y x) (fun _ : ℤ × ℤ => False)
  · intro c yx _
    exact (updateTileCacheAt_apply _ _ _ _ hy hx).trans (if_neg (hq _))
  · exact fun _ _ h => h

/-- The cells other than the monster's own hold what the rebuild would store. -/
def Rebuilt (w : Tiles) (m : Monster) (s : State) : Prop :=
  ∀ y x : ℕ, y < mapWalkHeight → x < mapWalkWidth → ¬ (y = 11 ∧ x = 11) →
    s.localMapCache y x = (updateMapCache w m s).localMapCache y x

/-- The cells other than the monster's own say whether it may step on the
square that they stand for. -/
def Exact (w : Tiles) (m : Monster) (s : State) : Prop :=
  ∀ y x : ℕ, y < 23 → x < 23 → ¬ (y = 11 ∧ x = 11) →
    ∀ q, IsSquare s.position y x q → s.localMapCache y x = walkable m (w q)

theorem getTile_of_ne {myPos q : Position} (h : q ≠ myPos) : getTile w m myPos q = w q := by
  unfold getTile
  exact if_neg h

/-- Only the cell in the middle stands for the monster's own square. -/
theorem IsSquare.ne {myPos q : Position} {y x : ℕ} (h : IsSquare myPos y x q)
    (hown : ¬ (y = 11 ∧ x = 11)) : q ≠ myPos := by
  rintro rfl
  obtain ⟨hx, hy, -⟩ := h
  omega

theorem rebuilt_iff_exact {s : State} : Rebuilt w m s ↔ Exact w m s := by
  constructor
  · intro h y x hy hx hown q hq
    rw [h y x hy hx hown, updateMapCache_square hy hx hq, getTile_of_ne (hq.ne hown)]
  · intro h y x hy hx hown
    by_cases hsquare : ∃ q, IsSquare s.position y x q
    · obtain ⟨q, hq⟩ := hsquare
      rw [h y x hy hx hown q hq, updateMapCache_square hy hx hq, getTile_of_ne (hq.ne hown)]
    · exact (updateMapCache_beyond hy hx (not_exists.mp hsquare)).symm

theorem exact_updateMapCache (s : State) : Exact w m (updateMapCache w m s) := by
  intro y x hy hx hown q hq
  rw [updateMapCache_position] at hq
  rw [updateMapCache_square hy hx hq, getTile_of_ne (hq.ne hown)]

/-! ## One step -/

/-- What a refresh stores for the cell in row `y` and column `x`. -/
def fresh (w : Tiles) (m : Monster) (myPos : Position) (y x : ℕ) : Bool :=
  walkable m (getTile w m myPos
    (.ofInt (myPos.getX + (x - 11)) (myPos.getY + (y - 11)) myPos.z))

theorem fresh_eq {myPos q : Position} {y x : ℕ} (hq : IsSquare myPos y x q) (hne : q ≠ myPos) :
    fresh w m myPos y x = walkable m (w q) := by
  unfold fresh
  rw [hq.ofInt_eq, getTile_of_ne hne]

theorem moveRows_apply (oldPos newPos : Position) (c : Cache) {y x : ℕ} (hy : y < 23)
    (hx : x < 23) :
    moveRows w m oldPos newPos c y x =
      if oldPos.getY > newPos.getY then
        if y = 0 then fresh w m newPos y x else c (y - 1) x
      else if oldPos.getY < newPos.getY then
        if y = 22 then fresh w m newPos y x else c (y + 1) x
      else c y x := by
  unfold moveRows
  split_ifs with hnorth hfirst hsouth hlast
  · subst hfirst
    exact (updateRow_apply (by decide) _ hx).trans (if_pos (by decide))
  · refine (updateRow_apply (by decide) _ hx).trans ?_
    rw [if_neg (by simp only [maxWalkCacheHeight]; omega), Library.Loops.shiftUp_apply,
      if_pos (by simp only [mapWalkHeight]; omega)]
  · subst hlast
    exact (updateRow_apply (by decide) _ hx).trans (if_pos (by decide))
  · refine (updateRow_apply (by decide) _ hx).trans ?_
    rw [if_neg (by simp only [maxWalkCacheHeight]; omega), Library.Loops.shiftDown_apply,
      if_pos (by simp only [mapWalkHeight]; omega)]
  · rfl

/-- The distance is never negative, so that the rows start below the top one
after a step to the north and after a step to the south alike. -/
theorem shiftedRows_eq (oldPos newPos : Position) :
    shiftedRows oldPos newPos = (oldPos.getDistanceY newPos, 22) := by
  have hnonneg : 0 ≤ oldPos.getDistanceY newPos := abs_nonneg _
  unfold shiftedRows
  dsimp only
  split_ifs with hneg hpos
  · omega
  · rfl
  · have hzero : oldPos.getDistanceY newPos = 0 := by omega
    rw [hzero]
    rfl

theorem moveColumns_apply {oldPos newPos : Position} (hdist : oldPos.getDistanceY newPos ≤ 1)
    (c : Cache) {y x : ℕ} (hy : y < 23) (hx : x < 23) :
    moveColumns w m oldPos newPos c y x =
      if oldPos.getX < newPos.getX then
        if x = 22 then fresh w m newPos y x
        else if oldPos.getDistanceY newPos ≤ y then c y (x + 1) else c y x
      else if oldPos.getX > newPos.getX then
        if x = 0 then fresh w m newPos y x
        else if oldPos.getDistanceY newPos ≤ y then c y (x - 1) else c y x
      else c y x := by
  have hnonneg : 0 ≤ oldPos.getDistanceY newPos := abs_nonneg _
  unfold moveColumns
  rw [shiftedRows_eq]
  dsimp only
  generalize oldPos.getDistanceY newPos = dy at hdist hnonneg
  split_ifs with heast hlast hrow hwest hfirst hrow
  · subst hlast
    exact (updateColumn_apply (by decide) _ hy).trans (if_pos (by decide))
  · refine (updateColumn_apply (by decide) _ hy).trans ?_
    rw [if_neg (by simp only [maxWalkCacheWidth]; omega), Library.Loops.mapRange_apply,
      if_pos (by omega), Library.Loops.shiftDown_apply,
      if_pos (by simp only [mapWalkWidth]; omega)]
  · refine (updateColumn_apply (by decide) _ hy).trans ?_
    rw [if_neg (by simp only [maxWalkCacheWidth]; omega), Library.Loops.mapRange_apply,
      if_neg (by omega)]
  · subst hfirst
    exact (updateColumn_apply (by decide) _ hy).trans (if_pos (by decide))
  · refine (updateColumn_apply (by decide) _ hy).trans ?_
    rw [if_neg (by simp only [maxWalkCacheWidth]; omega), Library.Loops.mapRange_apply,
      if_pos (by omega), Library.Loops.shiftUp_apply,
      if_pos (by simp only [mapWalkWidth]; omega)]
  · refine (updateColumn_apply (by decide) _ hy).trans ?_
    rw [if_neg (by simp only [maxWalkCacheWidth]; omega), Library.Loops.mapRange_apply,
      if_neg (by omega)]
  · rfl

/-- The row that a step brings into view. -/
def NewRow (oldPos newPos : Position) (y : ℕ) : Prop :=
  oldPos.getY > newPos.getY ∧ y = 0 ∨ oldPos.getY < newPos.getY ∧ y = 22

theorem moveRows_newRow {oldPos newPos q : Position} {c : Cache} {y x : ℕ} (hy : y < 23)
    (hx : x < 23) (hrow : NewRow oldPos newPos y) (hq : IsSquare newPos y x q)
    (hne : q ≠ newPos) :
    moveRows w m oldPos newPos c y x = walkable m (w q) := by
  rw [moveRows_apply _ _ _ hy hx]
  rcases hrow with ⟨hnorth, hy0⟩ | ⟨hsouth, hy22⟩
  · rw [if_pos hnorth, if_pos hy0, fresh_eq hq hne]
  · rw [if_neg (by omega), if_pos hsouth, if_pos hy22, fresh_eq hq hne]

/-- After the rows have moved, the old ones stand for squares around the new
row and the old column. -/
theorem moveRows_oldRow {s : State} {newPos q : Position} (h : Exact w m s)
    (hdist : s.position.getDistanceY newPos ≤ 1) {y x : ℕ} (hy : y < 23) (hx : x < 23)
    (hrow : ¬ NewRow s.position newPos y)
    (hq : IsSquare { s.position with y := newPos.y } y x q) (hne : q ≠ s.position) :
    moveRows w m s.position newPos s.localMapCache y x = walkable m (w q) := by
  obtain ⟨hqx, hqy, hqz⟩ := hq
  have hqx : q.getX = s.position.getX + (x - 11) := hqx
  have hqy : q.getY = newPos.getY + (y - 11) := hqy
  have habs := abs_le.mp hdist
  have hoff : s.position.getOffsetY newPos = s.position.getY - newPos.getY := rfl
  -- the cell it was copied from stands for the same square around the old position
  have hold : ∀ y' : ℕ, y' < 23 → (y' : ℤ) + s.position.getY = y + newPos.getY →
      s.localMapCache y' x = walkable m (w q) := by
    intro y' hy' heq
    have hsquare : IsSquare s.position y' x q := ⟨hqx, by omega, hqz⟩
    refine h y' x hy' hx ?_ q hsquare
    rintro ⟨rfl, rfl⟩
    exact hne (Position.ext_get (by omega) (by omega) hqz)
  rw [moveRows_apply _ _ _ hy hx]
  by_cases hnorth : s.position.getY > newPos.getY
  · have hfirst : y ≠ 0 := fun hy0 => hrow (.inl ⟨hnorth, hy0⟩)
    rw [if_pos hnorth, if_neg hfirst]
    exact hold (y - 1) (by omega) (by omega)
  · rw [if_neg hnorth]
    by_cases hsouth : s.position.getY < newPos.getY
    · have hlast : y ≠ 22 := fun hy22 => hrow (.inr ⟨hsouth, hy22⟩)
      rw [if_pos hsouth, if_neg hlast]
      exact hold (y + 1) (by omega) (by omega)
    · rw [if_neg hsouth]
      exact hold y hy (by omega)

/-- The columns are shifted in the rows that the row shift left behind: all of
them after a step sideways, all but the top one after one to the north. -/
theorem exact_moveColumns {s : State} {newPos q : Position} (h : Exact w m s)
    (hdistX : s.position.getDistanceX newPos ≤ 1) (hdistY : s.position.getDistanceY newPos ≤ 1)
    (hz : s.position.z = newPos.z)
    (hdiagonal : s.position.getX ≠ newPos.getX → newPos.getY ≤ s.position.getY)
    {y x : ℕ} (hy : y < 23) (hx : x < 23) (hq : IsSquare newPos y x q) (hnew : q ≠ newPos)
    (hold : q ≠ s.position) :
    moveColumns w m s.position newPos (moveRows w m s.position newPos s.localMapCache) y x =
      walkable m (w q) := by
  obtain ⟨hqx, hqy, hqz⟩ := hq
  have habsX := abs_le.mp hdistX
  have habsY := abs_le.mp hdistY
  have hoffX : s.position.getOffsetX newPos = s.position.getX - newPos.getX := rfl
  have hoffY : s.position.getOffsetY newPos = s.position.getY - newPos.getY := rfl
  rw [moveColumns_apply hdistY _ hy hx]
  -- a row that was shifted holds, `x'` squares to the side, the same square
  have hshifted : ∀ x' : ℕ, x' < 23 → (x' : ℤ) + s.position.getX = x + newPos.getX →
      ¬ NewRow s.position newPos y →
      moveRows w m s.position newPos s.localMapCache y x' = walkable m (w q) := by
    intro x' hx' heq hrow
    refine moveRows_oldRow h hdistY hy hx' hrow ⟨?_, hqy, hqz.trans hz.symm⟩ hold
    change q.getX = s.position.getX + (x' - 11)
    omega
  have hstarty : s.position.getX ≠ newPos.getX →
      (s.position.getDistanceY newPos ≤ y ↔ ¬ NewRow s.position newPos y) := by
    intro hside
    have hle := hdiagonal hside
    have hdist : s.position.getDistanceY newPos = s.position.getY - newPos.getY :=
      abs_of_nonneg (by omega)
    unfold NewRow
    omega
  by_cases heast : s.position.getX < newPos.getX
  · rw [if_pos heast]
    by_cases hlast : x = 22
    · rw [if_pos hlast, fresh_eq ⟨hqx, hqy, hqz⟩ hnew]
    · rw [if_neg hlast]
      by_cases hrow : s.position.getDistanceY newPos ≤ y
      · rw [if_pos hrow]
        exact hshifted (x + 1) (by omega) (by omega) ((hstarty (by omega)).mp hrow)
      · rw [if_neg hrow]
        have hnewRow := not_not.mp (mt (hstarty (by omega)).mpr hrow)
        exact moveRows_newRow hy hx hnewRow ⟨hqx, hqy, hqz⟩ hnew
  · rw [if_neg heast]
    by_cases hwest : s.position.getX > newPos.getX
    · rw [if_pos hwest]
      by_cases hfirst : x = 0
      · rw [if_pos hfirst, fresh_eq ⟨hqx, hqy, hqz⟩ hnew]
      · rw [if_neg hfirst]
        by_cases hrow : s.position.getDistanceY newPos ≤ y
        · rw [if_pos hrow]
          exact hshifted (x - 1) (by omega) (by omega) ((hstarty (by omega)).mp hrow)
        · rw [if_neg hrow]
          have hnewRow := not_not.mp (mt (hstarty (by omega)).mpr hrow)
          exact moveRows_newRow hy hx hnewRow ⟨hqx, hqy, hqz⟩ hnew
    · rw [if_neg hwest]
      by_cases hrow : NewRow s.position newPos y
      · exact moveRows_newRow hy hx hrow ⟨hqx, hqy, hqz⟩ hnew
      · exact hshifted x hx (by omega) hrow

theorem exact_onCreatureMove {s : State} {newPos : Position} {teleport : Bool}
    (h : Exact w m s)
    (hstep : teleport = false →
      s.position.getDistanceX newPos ≤ 1 ∧ s.position.getDistanceY newPos ≤ 1 ∧
        (s.position.getX ≠ newPos.getX → newPos.getY ≤ s.position.getY)) :
    Exact w m (onCreatureMove w m { s with position := newPos } s.position newPos teleport) := by
  unfold onCreatureMove
  split_ifs with hrebuild
  · exact exact_updateMapCache _
  · rw [not_or, Bool.not_eq_true, not_not] at hrebuild
    obtain ⟨hdistX, hdistY, hdiagonal⟩ := hstep hrebuild.1
    intro y x hy hx hown q hq
    have hq : IsSquare newPos y x q := hq
    have hnew : q ≠ newPos := hq.ne hown
    refine (updateTileCacheAt_apply _ _ _ _ hy hx).trans ?_
    by_cases hold : q = s.position
    · -- the square that the monster has left
      rw [if_pos (hold ▸ hq), ← hold, getTile_of_ne hnew]
    · rw [if_neg fun hsquare => hold (hq.unique hsquare)]
      exact exact_moveColumns h hdistX hdistY hrebuild.2 hdiagonal hy hx hq hnew hold

/-! ## Runs -/

/-- A step in one of the eight directions; at the edge of the world it wraps
around and is a teleport. -/
def walk (w : Tiles) (m : Monster) (s : State) (a : Direction × Bool) : Option State :=
  moveCreature w m s (getNextPosition a.1 s.position) a.2

theorem getNextPosition_not_south {d : Direction} {p : Position}
    (hd : d ≠ .SOUTHEAST ∧ d ≠ .SOUTHWEST)
    (hdist : p.getDistanceY (getNextPosition d p) ≤ 1) :
    p.getX ≠ (getNextPosition d p).getX → (getNextPosition d p).getY ≤ p.getY := by
  have hup : p.getDistanceY { p with y := p.y - 1 } ≤ 1 →
      ({ p with y := p.y - 1 } : Position).getY ≤ p.getY := by
    intro h
    have hy := p.y.toNat_lt
    have habs := abs_le.mp h
    simp only [Position.getOffsetY, Position.getY, UInt16.toNat_sub, UInt16.toNat_one]
      at habs ⊢
    omega
  intro hx
  cases d with
  | NORTH => exact hup hdist
  | NORTHEAST => exact hup hdist
  | NORTHWEST => exact hup hdist
  | EAST => exact le_refl _
  | WEST => exact le_refl _
  | SOUTH => exact absurd rfl hx
  | SOUTHEAST => exact absurd rfl hd.1
  | SOUTHWEST => exact absurd rfl hd.2

theorem exact_walk {s t : State} {a : Direction × Bool} (h : Exact w m s)
    (ha : a.1 ≠ .SOUTHEAST ∧ a.1 ≠ .SOUTHWEST) (hstep : walk w m s a = some t) :
    Exact w m t := by
  obtain ⟨newTile, -, rfl⟩ := Option.map_eq_some_iff.mp hstep
  apply exact_onCreatureMove h
  intro hteleport
  simp only [Bool.or_eq_false_iff, Bool.not_eq_false', Position.areInRange, Bool.and_eq_true,
    decide_eq_true_eq] at hteleport
  obtain ⟨-, ⟨hdistX, hdistY⟩, -⟩ := hteleport
  exact ⟨hdistX, hdistY, getNextPosition_not_south ha hdistY⟩

/-- Over every world and every walk without a step to the south-east or the
south-west, the cache of a monster holds in each cell but its own what
`updateMapCache` would store there. -/
theorem always_rebuilt (w : Tiles) (m : Monster) (s : State) (moves : List (Direction × Bool))
    (hmoves : ∀ a ∈ moves, a.1 ≠ .SOUTHEAST ∧ a.1 ≠ .SOUTHWEST) :
    Library.Run.Always (walk w m) (Rebuilt w m) (updateMapCache w m s) moves := by
  apply Library.Run.always_of_eachStep
    (G := fun _ a => a.1 ≠ Direction.SOUTHEAST ∧ a.1 ≠ Direction.SOUTHWEST)
  · intro s a t h ha hstep
    exact rebuilt_iff_exact.mpr (exact_walk (rebuilt_iff_exact.mp h) ha hstep)
  · exact rebuilt_iff_exact.mpr (exact_updateMapCache s)
  · exact Library.Run.eachStep_of_forall hmoves _

/-- A monster at (100, 100, 7) on open ground, with a wall at (89, 90). -/
def byWall : State where
  position := ⟨100, 100, 7⟩
  localMapCache := fun _ _ => false

def wallAt89 : Tiles := fun p =>
  if p.z = 7 then some { immovableBlockSolid := p.x = 89 ∧ p.y = 90 } else none

def rat : Monster := {}

/-- Three steps, of which the last one is diagonal. -/
theorem always_rebuilt_byWall :
    Library.Run.Always (walk wallAt89 rat) (Rebuilt wallAt89 rat)
      (updateMapCache wallAt89 rat byWall)
      [(.SOUTH, false), (.WEST, false), (.NORTHEAST, false)] :=
  always_rebuilt wallAt89 rat byWall _ (by decide)

/-- One step to the south-east leaves the wall, which is out of sight now, in
the corner of the cache, and a step to the north leaves the cell of the monster
itself as it was found before the monster stood there. -/
theorem walk_not_rebuilt :
    (∃ t, walk wallAt89 rat (updateMapCache wallAt89 rat byWall) (.SOUTHEAST, false) = some t ∧
      t.localMapCache 0 0 = false ∧ (updateMapCache wallAt89 rat t).localMapCache 0 0 = true) ∧
    ∃ t, walk wallAt89 rat (updateMapCache wallAt89 rat byWall) (.NORTH, false) = some t ∧
      t.localMapCache 11 11 = true ∧
        (updateMapCache wallAt89 rat t).localMapCache 11 11 = false := by
  refine ⟨⟨_, rfl, ?_, ?_⟩, ⟨_, rfl, ?_, ?_⟩⟩ <;> decide +kernel

end TibiaServer.World.WalkCache
