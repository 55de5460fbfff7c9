import Mathlib.Data.Finite.Prod
import TibiaServer.Library.Ancestors
import TibiaServer.World.Position
/-!
# Teleports

A tile with a teleport sends a thing that is added to it on to another tile, and does so inside
its own notification: the notification of the next tile runs before this one returns.  Nothing
counts these moves.  They end, with the thing on one tile, exactly when no teleport on the way of
the thing leads back to where the way has been.
-/

namespace TibiaServer.World.Teleports

open TibiaServer.Library

def MAP_MAX_LAYERS : ℕ := 16

/-- What one thing finds on the map while it is moved.  Other things stay where they are. -/
structure TeleportMap where
  /-- `getTile` is not null -/
  getTile : Position → Bool
  /-- the `destPos` of the tile's teleport -/
  getTeleportItem : Position → Option Position
  /-- the tile that an item falls or slides to, and the tile itself where there is no such -/
  queryDestination : Position → Position

structure MovedItem where
  isMoveable : Bool
  /-- neither the ground nor always on top: the tile puts it before its other down items -/
  isDownItem : Bool
  /-- Whether the second tile answers `RETURNVALUE_NOERROR` to the item when it comes from the
  first, with `FLAG_NOLIMIT` or without.  After an exchange it is the answer to the item alone. -/
  queryAdd : Position → Position → Bool → Bool

inductive Thing
  | creature
  | item (item : MovedItem)

/-- The parent that the thing names and the tiles that hold it. -/
structure ThingState where
  parent : Position
  tiles : Position → Bool

namespace ThingState

def removeThing (s : ThingState) (tile : Position) : ThingState :=
  { s with tiles := Function.update s.tiles tile false }

def addThing (s : ThingState) (tile : Position) : ThingState :=
  { parent := tile, tiles := Function.update s.tiles tile true }

/-- The thing has been added to a tile and is on no other. -/
def addedTo (tile : Position) : ThingState := ⟨tile, fun p => decide (p = tile)⟩

@[simp] theorem addedTo_parent (tile : Position) : (addedTo tile).parent = tile := rfl

@[simp] theorem addedTo_tiles (tile p : Position) : (addedTo tile).tiles p = decide (p = tile) :=
  rfl

@[simp] theorem addThing_removeThing_addedTo (oldTile newTile : Position) :
    ((addedTo oldTile).removeThing oldTile).addThing newTile = addedTo newTile := by
  unfold addThing removeThing addedTo
  congr 1
  ext p
  simp only [Function.update_apply]
  split_ifs <;> simp_all

theorem existsUnique_addedTo (tile : Position) : ∃! p, (addedTo tile).tiles p = true := by
  refine ⟨tile, by simp, ?_⟩
  intro p hp
  simpa using hp

end ThingState

namespace TeleportMap

variable (w : TeleportMap)

/-- `while ((subCylinder = toCylinder->queryDestination(..)) != toCylinder)` with the flag
`FLAG_NOLIMIT`, which goes out with the first floor change. -/
def destinationLoop : ℕ → Position × Bool → Position × Bool
  | 0, d => d
  | n + 1, (toTile, noLimit) =>
    let subTile := w.queryDestination toTile
    if subTile = toTile then (toTile, noLimit)
    else destinationLoop n (subTile, false)

/-- Where `Game::internalMoveItem` puts an item that a teleport sends to `destTile`. -/
def destination (destTile : Position) : Position × Bool :=
  w.destinationLoop MAP_MAX_LAYERS (destTile, true)

section Notified

-- the notification of the next tile
variable (postAddNotification : Position → ThingState → Option ThingState)

/-- `Map::moveCreature` asks no tile. -/
def moveCreature (s : ThingState) (newTile : Position) : Option ThingState :=
  postAddNotification newTile ((s.removeThing s.parent).addThing newTile)

/-- `Game::internalMoveItem` from one tile to another.  A stack that merges with one that lies
there goes on as that one. -/
def internalMoveItem (item : MovedItem) (s : ThingState) (fromTile destTile : Position) :
    Option ThingState :=
  let (toTile, noLimit) := w.destination destTile
  -- `item == toItem`, the first of the down items there
  if s.tiles toTile && item.isDownItem then some s
  else if !item.queryAdd fromTile toTile noLimit then some s
  -- `queryRemove`
  else if !s.tiles fromTile || !item.isMoveable then some s
  else postAddNotification toTile ((s.removeThing fromTile).addThing toTile)

/-- `Teleport::addThing` of a teleport on `tile`. -/
def teleportAddThing (thing : Thing) (tile destPos : Position) (s : ThingState) :
    Option ThingState :=
  if w.getTile destPos then
    match thing with
    | .creature => moveCreature postAddNotification s destPos
    | .item item => w.internalMoveItem postAddNotification item s tile destPos
  else some s

end Notified

/-- `Tile::postAddNotification`, nested at most `fuel` deep; `none` where that is too little. -/
def postAddNotification (thing : Thing) : ℕ → Position → ThingState → Option ThingState
  | 0, _, _ => none
  | fuel + 1, tile, s =>
    match w.getTeleportItem tile with
    | some destPos =>
      w.teleportAddThing (postAddNotification thing fuel) thing tile destPos s
    | none => some s

/-- The call returns and leaves the thing on exactly one tile. -/
def Settles (thing : Thing) (tile : Position) : Prop :=
  ∃ fuel s, w.postAddNotification thing fuel tile (.addedTo tile) = some s ∧
    ∃! p, s.tiles p = true

/-! ## The way of a thing -/

/-- The tile that an item goes on to from a teleport to `destTile`. -/
def itemLeadsTo (item : MovedItem) (tile destTile : Position) : Option Position :=
  let (toTile, noLimit) := w.destination destTile
  if toTile = tile ∧ item.isDownItem then none
  else if item.queryAdd tile toTile noLimit && item.isMoveable then some toTile
  else none

/-- The tile that the teleport of a tile sends the thing on to, if it does. -/
def leadsTo (thing : Thing) (tile : Position) : Option Position :=
  match w.getTeleportItem tile with
  | some destPos =>
    if w.getTile destPos then
      match thing with
      | .creature => some destPos
      | .item item => w.itemLeadsTo item tile destPos
    else none
  | none => none

variable {w} {thing : Thing} {tile : Position}

theorem internalMoveItem_addedTo (item : MovedItem) (tile destTile : Position)
    (notify : Position → ThingState → Option ThingState) :
    w.internalMoveItem notify item (.addedTo tile) tile destTile =
      match w.itemLeadsTo item tile destTile with
      | some next => notify next (.addedTo next)
      | none => some (.addedTo tile) := by
  unfold internalMoveItem itemLeadsTo
  cases w.destination destTile with
  | mk toTile noLimit =>
    by_cases hsame : toTile = tile ∧ item.isDownItem = true
    · simp [hsame.1, hsame.2]
    · cases hadd : item.queryAdd tile toTile noLimit <;>
        cases hmoveable : item.isMoveable <;> simp [hadd, hsame]

/-- One notification: the thing goes on to the next tile of its way, or stays. -/
theorem postAddNotification_succ (fuel : ℕ) :
    w.postAddNotification thing (fuel + 1) tile (.addedTo tile) =
      match w.leadsTo thing tile with
      | some next => w.postAddNotification thing fuel next (.addedTo next)
      | none => some (.addedTo tile) := by
  rw [postAddNotification]
  unfold leadsTo teleportAddThing
  cases w.getTeleportItem tile with
  | none => rfl
  | some destPos =>
    cases hdest : w.getTile destPos with
    | false => simp [hdest]
    | true =>
      cases thing with
      | creature => simp [hdest, moveCreature]
      | item item => simp [hdest, internalMoveItem_addedTo]

/-- A call that returns has followed a way that ends. -/
theorem ends_of_returns {fuel : ℕ} {s : ThingState}
    (h : w.postAddNotification thing fuel tile (.addedTo tile) = some s) :
    Ends (w.leadsTo thing) tile := by
  induction fuel generalizing tile with
  | zero => simp [postAddNotification] at h
  | succ fuel ih =>
    rw [postAddNotification_succ] at h
    cases hnext : w.leadsTo thing tile with
    | none => exact .top hnext
    | some next =>
      rw [hnext] at h
      exact .step hnext (ih h)

/-- At the end of its way the thing stays. -/
theorem settles_of_ends (h : Ends (w.leadsTo thing) tile) : w.Settles thing tile := by
  induction h with
  | @top tile hnone =>
    refine ⟨1, .addedTo tile, ?_, ThingState.existsUnique_addedTo tile⟩
    rw [postAddNotification_succ, hnone]
  | @step tile next hnext _ ih =>
    obtain ⟨fuel, s, hs, hunique⟩ := ih
    refine ⟨fuel + 1, s, ?_, hunique⟩
    rw [postAddNotification_succ, hnext]
    exact hs

theorem settles_iff_ends : w.Settles thing tile ↔ Ends (w.leadsTo thing) tile := by
  constructor
  · rintro ⟨fuel, s, hs, -⟩
    exact ends_of_returns hs
  · exact settles_of_ends

end TeleportMap

instance : Finite Position :=
  Finite.of_injective (fun p : Position => (p.x.toFin, p.y.toFin, p.z.toFin)) (by
    intro p q h
    cases p
    cases q
    simp_all [UInt16.toFin_inj, UInt8.toFin_inj])

def here : Position := ⟨100, 100, 7⟩
def there : Position := ⟨200, 100, 7⟩

def facingTeleports : TeleportMap where
  getTile p := p = here ∨ p = there
  getTeleportItem p := if p = here then some there else if p = there then some here else none
  queryDestination p := p

end TibiaServer.World.Teleports
