import Mathlib.Data.List.Perm.Basic
import TibiaServer.World.MonsterSpells
import TibiaServer.World.SightLineSquares
/-!
# The steps of a monster

A monster without a path takes random steps, dances around its target and keeps its distance
from it.  Every direction it chooses leads onto a square that `canWalkTo` accepts, and apart
from steps across the edge of the coordinates none leads nearer to the target than it should.
-/

namespace TibiaServer.World

open MonsterSpells (SpellBlock)

/-- The map and the monster as its steps see them.  `queryAdd` says whether a tile answers
`RETURNVALUE_NOERROR` to the monster. -/
structure Roamer (τ : Type) where
  getTile : Position → Option τ
  position : Position
  isInSpawnRange : Position → Bool
  getWalkCache : Position → ℤ
  hasTopVisibleCreature : τ → Bool
  queryAdd : τ → Bool
  blocksProjectile : τ → Bool
  isHostile : Bool
  attackSpells : List SpellBlock
  targetDistance : ℤ

/-- The random choices of one step.  `order` is the shuffled list of `getRandomStep`, `shuffle`
and `uniform_random` are those of `getDanceStep`. -/
structure Choices where
  order : List Direction
  order_perm : order.Perm [.NORTH, .WEST, .EAST, .SOUTH]
  shuffle : List Direction → List Direction
  shuffle_perm : ∀ dirList, (shuffle dirList).Perm dirList
  uniform_random : ℕ → ℕ
  uniform_random_le : ∀ n, uniform_random n ≤ n
  boolean_random : Bool

/-- What `getDistanceStep` returns, the direction it sets and the `stepDuration` it leaves. -/
structure DistanceStep where
  result : Bool
  direction : Option Direction
  stepDuration : ℤ

namespace Roamer

variable {τ : Type} (w : Roamer τ)

def isSightClear (fromPos toPos : Position) : Bool :=
  World.isSightClear (fun x y =>
    match w.getTile (.ofInt x y fromPos.z) with
    | some tile => w.blocksProjectile tile
    | none => false) fromPos toPos

def canWalkTo (pos : Position) (direction : Direction) : Bool :=
  let pos := getNextPosition direction pos
  if w.isInSpawnRange pos then
    if w.getWalkCache pos = 0 then false
    else
      match w.getTile pos with
      | some tile => !w.hasTopVisibleCreature tile && w.queryAdd tile
      | none => false
  else false

/-- `targetPos` is the position of the target. -/
def canUseAttack (pos targetPos : Position) : Bool :=
  if w.isHostile then
    let distance := max (pos.getDistanceX targetPos) (pos.getDistanceY targetPos)
    if w.attackSpells.any fun sb => sb.range ≠ 0 && decide (distance ≤ sb.range) then
      w.isSightClear pos targetPos
    else false
  else true

/-- The direction, if there is one. -/
def getRandomStep (creaturePos : Position) (c : Choices) : Option Direction :=
  c.order.find? fun dir => w.canWalkTo creaturePos dir

/-! ## Dancing -/

section Dance

variable (creaturePos centerPos : Position) (keepAttack keepDistance : Bool)

/-- One direction of the dance, for the distance that it leads to; `away` is the test of the
offset.  The square is the one that `getNextPosition` gives. -/
def danceTo (direction : Direction) (away : Bool) (tmpDist : ℤ) : List Direction :=
  let centerToDist := max (creaturePos.getDistanceX centerPos) (creaturePos.getDistanceY centerPos)
  if !keepDistance || away then
    if decide (tmpDist = centerToDist) && w.canWalkTo creaturePos direction then
      let result :=
        if keepAttack then
          !w.canUseAttack creaturePos centerPos ||
            w.canUseAttack (getNextPosition direction creaturePos) centerPos
        else true
      if result then [direction] else []
    else []
  else []

def danceDirections : List Direction :=
  let offset_x := creaturePos.getOffsetX centerPos
  let offset_y := creaturePos.getOffsetY centerPos
  let distance_x := |offset_x|
  let distance_y := |offset_y|
  w.danceTo creaturePos centerPos keepAttack keepDistance .NORTH (offset_y ≥ 0)
      (max distance_x |creaturePos.getY - 1 - centerPos.getY|) ++
    w.danceTo creaturePos centerPos keepAttack keepDistance .SOUTH (offset_y ≤ 0)
      (max distance_x |creaturePos.getY + 1 - centerPos.getY|) ++
    w.danceTo creaturePos centerPos keepAttack keepDistance .EAST (offset_x ≤ 0)
      (max |creaturePos.getX + 1 - centerPos.getX| distance_y) ++
    w.danceTo creaturePos centerPos keepAttack keepDistance .WEST (offset_x ≥ 0)
      (max |creaturePos.getX - 1 - centerPos.getX| distance_y)

/-- The direction, if there is one. -/
def getDanceStep (c : Choices) : Option Direction :=
  let dirList := w.danceDirections creaturePos centerPos keepAttack keepDistance
  if dirList ≠ [] then
    (c.shuffle dirList)[c.uniform_random (dirList.length - 1)]?
  else none

end Dance

/-! ## Keeping the distance -/

section Escape

variable (can : Direction → Bool) (flee boolean_random : Bool)

/-- One of two directions, by chance if both are free. -/
def eitherOf (a b : Direction) : Option Direction :=
  if can a && can b then some (if boolean_random then a else b)
  else if can a then some a
  else if can b then some b
  else none

/-- A direction if it is free. -/
def ifFree (a : Direction) : Option Direction := if can a then some a else none

/-- The first side from which a diagonal step is free. -/
def besideTarget (side₁ next₁ side₂ next₂ : Direction) : Option Direction :=
  if can side₁ && can next₁ then some side₁
  else if can side₂ && can next₂ then some side₂
  else none

/-- A step to the side that does not lead nearer, by chance straight ahead of the target. -/
def sideways (offset : ℤ) (left right : Direction) : Option Direction :=
  if can left && can right && decide (offset = 0) then
    some (if boolean_random then left else right)
  else if can left && decide (offset ≤ 0) then some left
  else if can right && decide (offset ≥ 0) then some right
  else none

/-- A diagonal step, or the step to the side of one. -/
def aroundCorner (side₁ next₁ side₂ next₂ : Direction) : Option Direction :=
  if can next₁ || can next₂ then
    if can next₁ && can next₂ then some (if boolean_random then next₁ else next₂)
    else if can side₁ then some side₁
    else if can next₁ then some next₁
    else if can side₂ then some side₂
    else if can next₂ then some next₂
    else none
  else none

/-- The target is diagonal to the monster, which escapes to `a`, `b` or `ab`, fleeing to `c` or
`d`. -/
def escapeDiagonal (a b ab c d side₁ next₁ side₂ next₂ : Direction) : Option Direction :=
  (eitherOf can boolean_random a b).or <| (ifFree can ab).or <|
    (if flee then eitherOf can boolean_random c d else none).or <|
      besideTarget can side₁ next₁ side₂ next₂

/-- The target is in the direction `toward`; `offset` is the one to the sides. -/
def escapeStraight (offset : ℤ) (away left right side₁ next₁ side₂ next₂ toward : Direction) :
    Option Direction :=
  (ifFree can away).or <| (sideways can boolean_random offset left right).or <|
    (if flee then eitherOf can boolean_random left right else none).or <|
      (aroundCorner can boolean_random side₁ next₁ side₂ next₂).or <|
        if flee then ifFree can toward else none

/-- The part of `getDistanceStep` that chooses a direction. -/
def escape (offsetx offsety dx dy : ℤ) : Option Direction :=
  if dx = dy ∧ offsetx ≥ 1 ∧ offsety ≥ 1 then
    -- player is NW
    escapeDiagonal can flee boolean_random .SOUTH .EAST .SOUTHEAST .NORTH .WEST
      .WEST .SOUTHWEST .NORTH .NORTHEAST
  else if dx = dy ∧ offsetx ≤ -1 ∧ offsety ≤ -1 then
    -- player is SE
    escapeDiagonal can flee boolean_random .WEST .NORTH .NORTHWEST .SOUTH .EAST
      .SOUTH .SOUTHWEST .EAST .NORTHEAST
  else if dx = dy ∧ offsetx ≥ 1 ∧ offsety ≤ -1 then
    -- player is SW
    escapeDiagonal can flee boolean_random .NORTH .EAST .NORTHEAST .SOUTH .WEST
      .WEST .NORTHWEST .SOUTH .SOUTHEAST
  else if dx = dy ∧ offsetx ≤ -1 ∧ offsety ≥ 1 then
    -- player is NE
    escapeDiagonal can flee boolean_random .WEST .SOUTH .SOUTHWEST .NORTH .EAST
      .EAST .SOUTHEAST .NORTH .NORTHWEST
  else if dy > dx then
    if offsety < 0 then
      escapeStraight can flee boolean_random offsetx .NORTH .WEST .EAST
        .WEST .NORTHWEST .EAST .NORTHEAST .SOUTH
    else
      escapeStraight can flee boolean_random offsetx .SOUTH .WEST .EAST
        .WEST .SOUTHWEST .EAST .SOUTHEAST .NORTH
  else if offsetx < 0 then
    escapeStraight can flee boolean_random offsety .WEST .NORTH .SOUTH
      .NORTH .NORTHWEST .SOUTH .SOUTHWEST .EAST
  else
    escapeStraight can flee boolean_random offsety .EAST .NORTH .SOUTH
      .SOUTH .SOUTHEAST .NORTH .NORTHEAST .WEST

end Escape

/-- The monster slows its movements down when the target is near. -/
def slowDown (dx dy stepDuration : ℤ) : ℤ :=
  if dx ≤ 1 ∧ dy ≤ 1 then
    if stepDuration < 2 then stepDuration + 1 else stepDuration
  else if stepDuration > 0 then stepDuration - 1
  else stepDuration

def getDistanceStep (targetPos : Position) (flee : Bool) (stepDuration : ℤ) (c : Choices) :
    DistanceStep :=
  let creaturePos := w.position
  let dx := creaturePos.getDistanceX targetPos
  let dy := creaturePos.getDistanceY targetPos
  let distance := max dx dy
  if !flee && (decide (distance > w.targetDistance) || !w.isSightClear creaturePos targetPos) then
    -- let the A* calculate it
    ⟨false, none, stepDuration⟩
  else if !flee && decide (distance = w.targetDistance) then ⟨true, none, stepDuration⟩
  else
    let offsetx := creaturePos.getOffsetX targetPos
    let offsety := creaturePos.getOffsetY targetPos
    let stepDuration := slowDown dx dy stepDuration
    if offsetx = 0 ∧ offsety = 0 then
      let direction := w.getRandomStep creaturePos c
      ⟨direction.isSome, direction, stepDuration⟩
    else
      ⟨true, escape (w.canWalkTo creaturePos) flee c.boolean_random offsetx offsety dx dy,
        stepDuration⟩

end Roamer

/-! ## The square of a step -/

namespace Direction

def offsetX : Direction → ℤ
  | .NORTH | .SOUTH => 0
  | .EAST | .NORTHEAST | .SOUTHEAST => 1
  | .WEST | .NORTHWEST | .SOUTHWEST => -1

def offsetY : Direction → ℤ
  | .EAST | .WEST => 0
  | .SOUTH | .SOUTHWEST | .SOUTHEAST => 1
  | .NORTH | .NORTHWEST | .NORTHEAST => -1

/-- The step leads across the edge of the coordinates. -/
def CrossesEdge (direction : Direction) (pos : Position) : Prop :=
  pos.getX + direction.offsetX < 0 ∨ 65535 < pos.getX + direction.offsetX ∨
    pos.getY + direction.offsetY < 0 ∨ 65535 < pos.getY + direction.offsetY

instance (direction : Direction) (pos : Position) : Decidable (direction.CrossesEdge pos) :=
  inferInstanceAs (Decidable (_ ∨ _ ∨ _ ∨ _))

end Direction

theorem toNat_next (x : UInt16) :
    ((x + 1).toNat : ℤ) = (x.toNat + 1) % 65536 ∧ ((x - 1).toNat : ℤ) = (x.toNat - 1) % 65536 := by
  have hx := x.toNat_lt
  have hone : (1 : UInt16).toNat = 1 := rfl
  constructor
  · rw [UInt16.toNat_add, hone]
    omega
  · rw [UInt16.toNat_sub, hone]
    omega

theorem getNextPosition_get {direction : Direction} {pos : Position}
    (h : ¬direction.CrossesEdge pos) :
    (getNextPosition direction pos).getX = pos.getX + direction.offsetX ∧
      (getNextPosition direction pos).getY = pos.getY + direction.offsetY := by
  have hx := toNat_next pos.x
  have hy := toNat_next pos.y
  have hxlt := pos.x.toNat_lt
  have hylt := pos.y.toNat_lt
  unfold Direction.CrossesEdge at h
  cases direction <;> simp only [getNextPosition, Direction.offsetX, Direction.offsetY,
    Position.getX, Position.getY] at h ⊢ <;> omega

/-- The Chebyshev distance of two squares of a floor. -/
def chebyshev (p q : Position) : ℤ := max (p.getDistanceX q) (p.getDistanceY q)

/-- The distance after a step, in the offsets before it. -/
theorem chebyshev_next {direction : Direction} {pos : Position} (h : ¬direction.CrossesEdge pos)
    (q : Position) : chebyshev (getNextPosition direction pos) q =
      max |pos.getOffsetX q + direction.offsetX| |pos.getOffsetY q + direction.offsetY| := by
  obtain ⟨hx, hy⟩ := getNextPosition_get h
  rw [chebyshev, Position.getDistanceX, Position.getDistanceY, Position.getOffsetX,
    Position.getOffsetY, Position.getOffsetX, Position.getOffsetY, hx, hy, sub_add_eq_add_sub,
    sub_add_eq_add_sub]

namespace Roamer

/-! ## Offsets that do not shrink -/

theorem abs_le_abs_add {o u : ℤ} (h : 0 ≤ o ∧ 0 ≤ u ∨ o ≤ 0 ∧ u ≤ 0) : |o| ≤ |o + u| := by
  rcases abs_cases o with ho | ho <;> rcases abs_cases (o + u) with hu | hu <;> omega

theorem max_abs_le_of_eq {o p u v : ℤ} (heq : |o| = |p|)
    (h : (0 ≤ o ∧ 0 ≤ u ∨ o ≤ 0 ∧ u ≤ 0) ∨ (0 ≤ p ∧ 0 ≤ v ∨ p ≤ 0 ∧ v ≤ 0)) :
    max |o| |p| ≤ max |o + u| |p + v| := by
  rcases h with h | h
  · rw [← heq, max_self]
    exact le_max_of_le_left (abs_le_abs_add h)
  · rw [heq, max_self]
    exact le_max_of_le_right (abs_le_abs_add h)

/-! ## What is chosen -/

section Chosen

variable {can : Direction → Bool} {flee coin : Bool} {chosen : Direction}

theorem eitherOf_spec {a b : Direction} (h : eitherOf can coin a b = some chosen) :
    can chosen = true ∧ (chosen = a ∨ chosen = b) := by
  unfold eitherOf at h
  split_ifs at h <;> cases h <;> simp_all

theorem eitherOf_isSome {a b : Direction} (h : can a ∨ can b) :
    (eitherOf can coin a b).isSome := by
  unfold eitherOf
  split_ifs <;> simp_all

theorem ifFree_spec {a : Direction} (h : ifFree can a = some chosen) :
    can chosen = true ∧ chosen = a := by
  unfold ifFree at h
  split_ifs at h with hcan
  cases h
  exact ⟨hcan, rfl⟩

theorem besideTarget_spec {side₁ next₁ side₂ next₂ : Direction}
    (h : besideTarget can side₁ next₁ side₂ next₂ = some chosen) :
    can chosen = true ∧ (chosen = side₁ ∨ chosen = side₂) := by
  unfold besideTarget at h
  split_ifs at h <;> cases h <;> simp_all

theorem sideways_spec {offset : ℤ} {left right : Direction}
    (h : sideways can coin offset left right = some chosen) :
    can chosen = true ∧ (chosen = left ∨ chosen = right) := by
  unfold sideways at h
  split_ifs at h <;> cases h <;> simp_all

theorem aroundCorner_spec {side₁ next₁ side₂ next₂ : Direction}
    (h : aroundCorner can coin side₁ next₁ side₂ next₂ = some chosen) :
    can chosen = true ∧ chosen ∈ [side₁, next₁, side₂, next₂] := by
  unfold aroundCorner at h
  split_ifs at h <;> cases h <;> simp_all

/-- Without fleeing the monster takes no step of `c` and `d` but beside the target. -/
theorem escapeDiagonal_spec {a b ab c d side₁ next₁ side₂ next₂ : Direction}
    (h : escapeDiagonal can flee coin a b ab c d side₁ next₁ side₂ next₂ = some chosen) :
    can chosen = true ∧ (flee = false → chosen ∈ [a, b, ab, side₁, side₂]) := by
  simp only [escapeDiagonal, Option.or_eq_some_iff] at h
  rcases h with h | ⟨-, h | ⟨-, h | ⟨-, h⟩⟩⟩
  · obtain ⟨hcan, hmem⟩ := eitherOf_spec h
    exact ⟨hcan, by simp [or_assoc.symm, hmem]⟩
  · obtain ⟨hcan, rfl⟩ := ifFree_spec h
    exact ⟨hcan, by simp⟩
  · split_ifs at h with hflee
    exact ⟨(eitherOf_spec h).1, by simp [hflee]⟩
  · obtain ⟨hcan, hmem⟩ := besideTarget_spec h
    exact ⟨hcan, fun _ => by rcases hmem with rfl | rfl <;> simp⟩

theorem escapeStraight_spec {offset : ℤ}
    {away left right side₁ next₁ side₂ next₂ toward : Direction}
    (h : escapeStraight can flee coin offset away left right side₁ next₁ side₂ next₂ toward =
      some chosen) : can chosen = true ∧
      (flee = false → chosen ∈ [away, left, right, side₁, next₁, side₂, next₂]) := by
  simp only [escapeStraight, Option.or_eq_some_iff] at h
  rcases h with h | ⟨-, h | ⟨-, h | ⟨-, h | ⟨-, h⟩⟩⟩⟩
  · obtain ⟨hcan, rfl⟩ := ifFree_spec h
    exact ⟨hcan, by simp⟩
  · obtain ⟨hcan, hmem⟩ := sideways_spec h
    exact ⟨hcan, fun _ => by rcases hmem with rfl | rfl <;> simp⟩
  · split_ifs at h with hflee
    exact ⟨(eitherOf_spec h).1, by simp [hflee]⟩
  · obtain ⟨hcan, hmem⟩ := aroundCorner_spec h
    exact ⟨hcan, fun _ => List.mem_append_right [away, left, right] hmem⟩
  · split_ifs at h with hflee
    exact ⟨(ifFree_spec h).1, by simp [hflee]⟩

/-- A fleeing monster takes a step where one of its sides is free. -/
theorem escapeDiagonal_isSome {a b ab c d side₁ next₁ side₂ next₂ : Direction}
    (h : can a ∨ can b ∨ can c ∨ can d) :
    (escapeDiagonal can true coin a b ab c d side₁ next₁ side₂ next₂).isSome := by
  have hsome : (eitherOf can coin a b).isSome ∨ (eitherOf can coin c d).isSome := by
    rcases or_assoc.mpr h with h | h
    · exact .inl (eitherOf_isSome h)
    · exact .inr (eitherOf_isSome h)
  rcases hsome with hsome | hsome <;> simp [escapeDiagonal, Option.isSome_or, hsome]

theorem escapeStraight_isSome {offset : ℤ}
    {away left right side₁ next₁ side₂ next₂ toward : Direction}
    (h : can away ∨ can left ∨ can right ∨ can toward) :
    (escapeStraight can true coin offset away left right side₁ next₁ side₂ next₂ toward).isSome := by
  have hfree : ∀ a, can a = true → (ifFree can a).isSome := by
    intro a ha
    rw [ifFree, if_pos ha]
    rfl
  rcases h with h | h | h | h
  · simp [escapeStraight, Option.isSome_or, hfree away h]
  · have heither : (eitherOf can coin left right).isSome := eitherOf_isSome (.inl h)
    simp [escapeStraight, Option.isSome_or, heither]
  · have heither : (eitherOf can coin left right).isSome := eitherOf_isSome (.inr h)
    simp [escapeStraight, Option.isSome_or, heither]
  · simp [escapeStraight, Option.isSome_or, hfree toward h]

theorem escape_legal {offsetx offsety dx dy : ℤ}
    (h : escape can flee coin offsetx offsety dx dy = some chosen) : can chosen = true := by
  unfold escape at h
  split_ifs at h
  all_goals first | exact (escapeDiagonal_spec h).1 | exact (escapeStraight_spec h).1

theorem escape_isSome (offsetx offsety dx dy : ℤ)
    (h : can .NORTH ∨ can .SOUTH ∨ can .EAST ∨ can .WEST) :
    (escape can true coin offsetx offsety dx dy).isSome := by
  unfold escape
  split_ifs
  all_goals first | apply escapeDiagonal_isSome | apply escapeStraight_isSome
  all_goals rcases h with h | h | h | h <;> rw [h] <;> simp only [true_or, or_true]

/-- Without fleeing no step leads nearer to the target. -/
theorem escape_keeps_distance {offsetx offsety : ℤ}
    (h : escape can false coin offsetx offsety |offsetx| |offsety| = some chosen) :
    max |offsetx| |offsety| ≤ max |offsetx + chosen.offsetX| |offsety + chosen.offsetY| := by
  unfold escape at h
  split_ifs at h with hnw hse hsw hne hvertical hsouth heast
  · have hall : ∀ d ∈ [Direction.SOUTH, .EAST, .SOUTHEAST, .WEST, .NORTH],
        0 ≤ d.offsetX ∨ 0 ≤ d.offsetY := by decide
    have hside := hall chosen ((escapeDiagonal_spec h).2 rfl)
    exact max_abs_le_of_eq hnw.1 (hside.imp (fun hu => .inl ⟨by omega, hu⟩)
      fun hv => .inl ⟨by omega, hv⟩)
  · have hall : ∀ d ∈ [Direction.WEST, .NORTH, .NORTHWEST, .SOUTH, .EAST],
        d.offsetX ≤ 0 ∨ d.offsetY ≤ 0 := by decide
    have hside := hall chosen ((escapeDiagonal_spec h).2 rfl)
    exact max_abs_le_of_eq hse.1 (hside.imp (fun hu => .inr ⟨by omega, hu⟩)
      fun hv => .inr ⟨by omega, hv⟩)
  · have hall : ∀ d ∈ [Direction.NORTH, .EAST, .NORTHEAST, .WEST, .SOUTH],
        0 ≤ d.offsetX ∨ d.offsetY ≤ 0 := by decide
    have hside := hall chosen ((escapeDiagonal_spec h).2 rfl)
    exact max_abs_le_of_eq hsw.1 (hside.imp (fun hu => .inl ⟨by omega, hu⟩)
      fun hv => .inr ⟨by omega, hv⟩)
  · have hall : ∀ d ∈ [Direction.WEST, .SOUTH, .SOUTHWEST, .EAST, .NORTH],
        d.offsetX ≤ 0 ∨ 0 ≤ d.offsetY := by decide
    have hside := hall chosen ((escapeDiagonal_spec h).2 rfl)
    exact max_abs_le_of_eq hne.1 (hside.imp (fun hu => .inr ⟨by omega, hu⟩)
      fun hv => .inl ⟨by omega, hv⟩)
  · have hall : ∀ d ∈ [Direction.NORTH, .WEST, .EAST, .WEST, .NORTHWEST, .EAST, .NORTHEAST],
        d.offsetY ≤ 0 := by decide
    have hside := hall chosen ((escapeStraight_spec h).2 rfl)
    rw [max_eq_right hvertical.le]
    exact le_max_of_le_right (abs_le_abs_add (.inr ⟨hsouth.le, hside⟩))
  · have hall : ∀ d ∈ [Direction.SOUTH, .WEST, .EAST, .WEST, .SOUTHWEST, .EAST, .SOUTHEAST],
        0 ≤ d.offsetY := by decide
    have hside := hall chosen ((escapeStraight_spec h).2 rfl)
    rw [max_eq_right hvertical.le]
    exact le_max_of_le_right (abs_le_abs_add (.inl ⟨not_lt.mp hsouth, hside⟩))
  · have hall : ∀ d ∈ [Direction.WEST, .NORTH, .SOUTH, .NORTH, .NORTHWEST, .SOUTH, .SOUTHWEST],
        d.offsetX ≤ 0 := by decide
    have hside := hall chosen ((escapeStraight_spec h).2 rfl)
    rw [max_eq_left (not_lt.mp hvertical)]
    exact le_max_of_le_left (abs_le_abs_add (.inr ⟨heast.le, hside⟩))
  · have hall : ∀ d ∈ [Direction.EAST, .NORTH, .SOUTH, .SOUTH, .SOUTHEAST, .NORTH, .NORTHEAST],
        0 ≤ d.offsetX := by decide
    have hside := hall chosen ((escapeStraight_spec h).2 rfl)
    rw [max_eq_left (not_lt.mp hvertical)]
    exact le_max_of_le_left (abs_le_abs_add (.inl ⟨not_lt.mp heast, hside⟩))

end Chosen

/-! ## The steps -/

variable {τ : Type} {w : Roamer τ} {pos targetPos : Position} {c : Choices} {d : Direction}

theorem getRandomStep_legal (h : w.getRandomStep pos c = some d) : w.canWalkTo pos d = true :=
  List.find?_some h

theorem getRandomStep_isSome (h : w.canWalkTo pos d = true) (hd : d ∈ [.NORTH, .WEST, .EAST, .SOUTH]) :
    (w.getRandomStep pos c).isSome := by
  rw [getRandomStep, List.find?_isSome]
  exact ⟨d, c.order_perm.mem_iff.mpr hd, h⟩

theorem danceTo_spec {keepAttack keepDistance away : Bool} {direction : Direction} {tmpDist : ℤ}
    (h : d ∈ w.danceTo pos targetPos keepAttack keepDistance direction away tmpDist) :
    d = direction ∧ tmpDist = chebyshev pos targetPos ∧ w.canWalkTo pos d = true ∧
      (keepAttack = true → w.canUseAttack pos targetPos = true →
        w.canUseAttack (getNextPosition d pos) targetPos = true) := by
  simp only [danceTo] at h
  split_ifs at h with haway hnear hkeep hattack
  · rw [Bool.and_eq_true, decide_eq_true_eq] at hnear
    rw [List.mem_singleton] at h
    subst h
    refine ⟨rfl, hnear.1, hnear.2, ?_⟩
    intro _ hnow
    rw [hnow] at hattack
    exact hattack
  · exact absurd h List.not_mem_nil
  · rw [Bool.and_eq_true, decide_eq_true_eq] at hnear
    rw [List.mem_singleton] at h
    subst h
    exact ⟨rfl, hnear.1, hnear.2, fun h => absurd h hkeep⟩
  all_goals exact absurd h List.not_mem_nil

/-- A direction of the dance leads onto a free square at the same distance. -/
theorem danceDirections_spec {keepAttack keepDistance : Bool}
    (h : d ∈ w.danceDirections pos targetPos keepAttack keepDistance) :
    w.canWalkTo pos d = true ∧
      (¬d.CrossesEdge pos →
        chebyshev (getNextPosition d pos) targetPos = chebyshev pos targetPos) ∧
      (keepAttack = true → w.canUseAttack pos targetPos = true →
        w.canUseAttack (getNextPosition d pos) targetPos = true) := by
  simp only [danceDirections, List.mem_append] at h
  have hbefore : ∀ a u b : ℤ, a + u - b = a - b + u := fun a u b => (sub_add_eq_add_sub a b u).symm
  have hnear : ∀ a u b : ℤ, a - u - b = a - b + -u := fun a u b => by omega
  rcases h with ((h | h) | h) | h
  all_goals
    obtain ⟨rfl, hdistance, hcan, hattack⟩ := danceTo_spec h
    refine ⟨hcan, ?_, hattack⟩
    intro hedge
    rw [chebyshev_next hedge, ← hdistance]
    simp only [Direction.offsetX, Direction.offsetY, Position.getOffsetX, Position.getOffsetY,
      hbefore, hnear, add_zero]

theorem getDanceStep_mem {keepAttack keepDistance : Bool}
    (h : w.getDanceStep pos targetPos keepAttack keepDistance c = some d) :
    d ∈ w.danceDirections pos targetPos keepAttack keepDistance := by
  simp only [getDanceStep] at h
  split_ifs at h
  exact (c.shuffle_perm _).mem_iff.mp (List.mem_of_getElem? h)

/-- A direction that `getDistanceStep` sets is the random or the escaping one. -/
theorem getDistanceStep_direction {flee : Bool} {stepDuration : ℤ}
    (h : (w.getDistanceStep targetPos flee stepDuration c).direction = some d) :
    (w.position.getOffsetX targetPos = 0 ∧ w.position.getOffsetY targetPos = 0 ∧
      w.getRandomStep w.position c = some d) ∨
    escape (w.canWalkTo w.position) flee c.boolean_random (w.position.getOffsetX targetPos)
      (w.position.getOffsetY targetPos) |w.position.getOffsetX targetPos|
      |w.position.getOffsetY targetPos| = some d := by
  simp only [getDistanceStep] at h
  split_ifs at h with hfar hthere hon
  · exact .inl ⟨hon.1, hon.2, h⟩
  · exact .inr h

theorem getDistanceStep_isSome {stepDuration : ℤ} (hd : d ∈ [.NORTH, .WEST, .EAST, .SOUTH])
    (h : w.canWalkTo w.position d = true) :
    (w.getDistanceStep targetPos true stepDuration c).direction.isSome := by
  simp only [getDistanceStep, Bool.not_true, Bool.false_and, Bool.false_eq_true, if_false]
  split_ifs
  · exact getRandomStep_isSome h hd
  · apply escape_isSome
    simp only [List.mem_cons, List.not_mem_nil, or_false] at hd
    rcases hd with rfl | rfl | rfl | rfl <;> simp only [h, true_or, or_true]

/-- Every step is onto a free square.  A step that does not cross the edge of the coordinates
keeps the distance when dancing and does not shorten it otherwise, and a fleeing monster that has
a free side takes a step. -/
theorem steps_correct (w : Roamer τ) (pos targetPos : Position) (c : Choices) :
    (∀ d, w.getRandomStep pos c = some d → w.canWalkTo pos d = true) ∧
    (∀ keepAttack keepDistance d,
      w.getDanceStep pos targetPos keepAttack keepDistance c = some d →
      w.canWalkTo pos d = true ∧
      (¬d.CrossesEdge pos →
        chebyshev (getNextPosition d pos) targetPos = chebyshev pos targetPos) ∧
      (keepAttack = true → w.canUseAttack pos targetPos = true →
        w.canUseAttack (getNextPosition d pos) targetPos = true)) ∧
    ∀ stepDuration,
      (∀ flee d, (w.getDistanceStep targetPos flee stepDuration c).direction = some d →
        w.canWalkTo w.position d = true) ∧
      (∀ d, (w.getDistanceStep targetPos false stepDuration c).direction = some d →
        ¬d.CrossesEdge w.position →
        chebyshev w.position targetPos ≤ chebyshev (getNextPosition d w.position) targetPos) ∧
      ((∃ d ∈ [.NORTH, .WEST, .EAST, .SOUTH], w.canWalkTo w.position d = true) →
        (w.getDistanceStep targetPos true stepDuration c).direction.isSome) := by
  refine ⟨fun d => getRandomStep_legal, ?_, ?_⟩
  · intro keepAttack keepDistance d h
    exact danceDirections_spec (getDanceStep_mem h)
  · intro stepDuration
    refine ⟨?_, ?_, ?_⟩
    · intro flee d h
      rcases getDistanceStep_direction h with ⟨-, -, hrandom⟩ | hescape
      · exact getRandomStep_legal hrandom
      · exact escape_legal hescape
    · intro d h hedge
      rw [chebyshev_next hedge]
      rcases getDistanceStep_direction h with ⟨hx, hy, -⟩ | hescape
      · rw [chebyshev, Position.getDistanceX, Position.getDistanceY, hx, hy, abs_zero, max_self]
        exact le_max_of_le_left (abs_nonneg _)
      · exact escape_keeps_distance hescape
    · rintro ⟨d, hd, h⟩
      exact getDistanceStep_isSome hd h

/-- The monster on a map of free squares. -/
def onPlain (free : Position → Bool) (position : Position) : Roamer Unit where
  getTile := fun pos => if free pos then some () else none
  position := position
  isInSpawnRange := fun _ => true
  getWalkCache := fun _ => 2
  hasTopVisibleCreature := fun _ => false
  queryAdd := fun _ => true
  blocksProjectile := fun _ => false
  isHostile := false
  attackSpells := []
  targetDistance := 4

/-- The choices of a generator that changes no order and takes the first of each. -/
def firstChoices : Choices where
  order := [.NORTH, .WEST, .EAST, .SOUTH]
  order_perm := List.Perm.refl _
  shuffle := id
  shuffle_perm := List.Perm.refl
  uniform_random := fun _ => 0
  uniform_random_le := Nat.zero_le
  boolean_random := true

/-- On an open plain the monster flees from a target beside it. -/
theorem steps_correct_onPlain :
    ((onPlain (fun _ => true) ⟨100, 100, 7⟩).getDistanceStep ⟨101, 100, 7⟩ true 0
      firstChoices).direction.isSome :=
  ((steps_correct (onPlain (fun _ => true) ⟨100, 100, 7⟩) ⟨100, 100, 7⟩ ⟨101, 100, 7⟩
    firstChoices).2.2 0).2.2 ⟨.NORTH, by decide, by decide⟩

/-- A dance step north of the row 0 leads to the row 65535, far from the target. -/
theorem dance_across_edge :
    (onPlain (fun pos => pos.y = 65535) ⟨100, 0, 7⟩).getDanceStep ⟨100, 0, 7⟩ ⟨102, 0, 7⟩ true true
      firstChoices = some .NORTH ∧
    chebyshev (getNextPosition .NORTH ⟨100, 0, 7⟩) ⟨102, 0, 7⟩ ≠
      chebyshev ⟨100, 0, 7⟩ ⟨102, 0, 7⟩ := by
  decide

end Roamer

end TibiaServer.World
