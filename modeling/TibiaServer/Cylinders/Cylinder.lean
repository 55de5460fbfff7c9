import TibiaServer.Cylinders.Player
/-!
# The items of a tile

A tile has a ground, items on top and items below them, the last laid item first.
It has room for everything that it lets in; a new ground, splash or field takes
the place of the old one.
-/

namespace TibiaServer.Cylinders

open ReturnValue
open TibiaServer.World (Position)

def TILESTATE_FLOORCHANGE_DOWN : BitVec 32 := 1
def TILESTATE_FLOORCHANGE_NORTH : BitVec 32 := 2
def TILESTATE_FLOORCHANGE_SOUTH : BitVec 32 := 4
def TILESTATE_FLOORCHANGE_EAST : BitVec 32 := 8
def TILESTATE_FLOORCHANGE_WEST : BitVec 32 := 16
def TILESTATE_FLOORCHANGE_SOUTH_ALT : BitVec 32 := 32
def TILESTATE_FLOORCHANGE_EAST_ALT : BitVec 32 := 64
def TILESTATE_SUPPORTS_HANGABLE : BitVec 32 := 8388608
def TILESTATE_FLOORCHANGE : BitVec 32 := 127

namespace State

variable (s : State)

/-- `CONST_PROP_SUPPORTHANGABLE` -/
def supportsHangable (y : ItemRef) : Bool :=
  (s.typeOf y).isHorizontal || (s.typeOf y).isVertical

def hasFlag (t : Position) (flag : BitVec 32) : Bool := (s.tile t).flags &&& flag ≠ 0

/-- The vector of a tile: the down items and then the top items. -/
def tileItems (t : Position) : List ItemRef := (s.tile t).downItems ++ (s.tile t).topItems

def tileThingIndex (t : Position) (y : ItemRef) : ℤ :=
  let tile := s.tile t
  let grounds : ℤ := if tile.ground.isSome then 1 else 0
  if tile.ground = some y then 0
  else if (s.typeOf y).alwaysOnTop then
    if y ∈ tile.topItems then grounds + tile.topItems.idxOf y else -1
  else if y ∈ tile.downItems then
    grounds + tile.topItems.length + tile.creatures.length + tile.downItems.idxOf y
  else -1

/-- A block that neither lets items be put on it nor has height to carry them. -/
def refusesOnTop (blockType : ItemType) (y : ItemRef) : Bool :=
  blockType.blockSolid ∧
    (!blockType.allowPickupable ∨ (s.typeOf y).isMagicField ∨ (s.typeOf y).blockSolid) ∧
    (!(s.typeOf y).pickupable ∨ !blockType.hasHeight ∨ blockType.pickupable ∨ blockType.isBed)

/-- `Tile::queryAdd` of an item. -/
def tileQueryAdd (t : Position) (y : ItemRef) (flags : cylinderflags_t) : ReturnValue :=
  let tile := s.tile t
  let items := s.tileItems t
  let itemIsHangable := (s.typeOf y).isHangable
  if items.length ≥ 1000 then NOTPOSSIBLE
  else if flags.FLAG_NOLIMIT then NOERROR
  else if tile.ground = none ∧ !itemIsHangable then NOTPOSSIBLE
  else if tile.creatures.any (! ·) ∧ (s.typeOf y).blockSolid ∧ !flags.FLAG_IGNOREBLOCKCREATURE then
    NOTENOUGHROOM
  else if itemIsHangable ∧ s.hasFlag t TILESTATE_SUPPORTS_HANGABLE then
    if items.any fun tileItem => (s.typeOf tileItem).isHangable then NEEDEXCHANGE else NOERROR
  else if tile.ground.any fun ground => s.refusesOnTop (s.typeOf ground) y then NOTENOUGHROOM
  else if items.any fun tileItem => s.refusesOnTop (s.typeOf tileItem) y then NOTENOUGHROOM
  else NOERROR

/-- The square that an item falls or slides to. -/
def floorChangeDestination (t : Position) : Option Position :=
  let shifted (dx dy : Int) (z : UInt8) : Option Position :=
    s.getTile ⟨UInt16.ofNat ((t.x.toNat + dx) % 65536).toNat,
      UInt16.ofNat ((t.y.toNat + dy) % 65536).toNat, z⟩
  let hasFlagAt (tile : Option Position) (flag : BitVec 32) : Bool := tile.any fun t => s.hasFlag t flag
  let toward (tile : Option Position) (flag : BitVec 32) (d : Int) : Int :=
    if hasFlagAt tile flag then d else 0
  if s.hasFlag t TILESTATE_FLOORCHANGE_DOWN then
    let dz := t.z + 1
    if hasFlagAt (shifted 0 (-1) dz) TILESTATE_FLOORCHANGE_SOUTH_ALT then shifted 0 (-2) dz
    else if hasFlagAt (shifted (-1) 0 dz) TILESTATE_FLOORCHANGE_EAST_ALT then shifted (-2) 0 dz
    else
      match shifted 0 0 dz with
      | none => none
      | some downTile =>
        let down := some downTile
        let dy := toward down TILESTATE_FLOORCHANGE_NORTH 1 +
          toward down TILESTATE_FLOORCHANGE_SOUTH (-1) +
          toward down TILESTATE_FLOORCHANGE_SOUTH_ALT (-2)
        let dx := toward down TILESTATE_FLOORCHANGE_EAST (-1) +
          toward down TILESTATE_FLOORCHANGE_EAST_ALT (-2) +
          toward down TILESTATE_FLOORCHANGE_WEST 1
        shifted dx dy dz
  else if s.hasFlag t TILESTATE_FLOORCHANGE then
    let here := some t
    let dy := toward here TILESTATE_FLOORCHANGE_NORTH (-1) +
      toward here TILESTATE_FLOORCHANGE_SOUTH 1 + toward here TILESTATE_FLOORCHANGE_SOUTH_ALT 2
    let dx := toward here TILESTATE_FLOORCHANGE_EAST 1 +
      toward here TILESTATE_FLOORCHANGE_WEST (-1) + toward here TILESTATE_FLOORCHANGE_EAST_ALT 2
    shifted dx dy (t.z - 1)
  else none

def tileQueryDestination (t : Position) (index : ℤ) (flags : cylinderflags_t) : Destination :=
  match s.floorChangeDestination t with
  | some destTile =>
    ⟨.tile destTile, index, (s.tile destTile).downItems.head?, { flags with FLAG_NOLIMIT := true }⟩
  | none => ⟨.tile t, index, (s.tile t).downItems.head?, flags⟩

/-! ## Operations -/

def setTileFlags (t : Position) (y : ItemRef) : State :=
  s.modifyTile t fun tile =>
    let flags :=
      if tile.flags &&& TILESTATE_FLOORCHANGE = 0 then tile.flags ||| (s.typeOf y).floorChange
      else tile.flags
    { tile with
      flags := if s.supportsHangable y then flags ||| TILESTATE_SUPPORTS_HANGABLE else flags }

def resetTileFlags (t : Position) (y : ItemRef) : State :=
  s.modifyTile t fun tile =>
    let flags :=
      if (s.typeOf y).floorChange ≠ 0 then tile.flags &&& ~~~TILESTATE_FLOORCHANGE else tile.flags
    { tile with
      flags := if s.supportsHangable y then flags &&& ~~~TILESTATE_SUPPORTS_HANGABLE else flags }

def setGround (t : Position) (y : Option ItemRef) : State :=
  s.modifyTile t fun tile => { tile with ground := y }

def setDownItems (t : Position) (items : List ItemRef) : State :=
  s.modifyTile t fun tile => { tile with downItems := items }

def setTopItems (t : Position) (items : List ItemRef) : State :=
  s.modifyTile t fun tile => { tile with topItems := items }

def tileRemoveThing (t : Position) (y : ItemRef) (count : ℕ) : State :=
  if s.tileThingIndex t y = -1 then s
  else if (s.tile t).ground = some y then
    ((s.setParent y none).setGround t none).resetTileFlags t y
  else if (s.typeOf y).alwaysOnTop then
    if y ∉ (s.tile t).topItems then s
    else ((s.setParent y none).setTopItems t ((s.tile t).topItems.erase y)).resetTileFlags t y
  else if y ∉ (s.tile t).downItems then s
  else if s.isStackable y ∧ count ≠ s.getItemCount y then s.setCount y (s.remainingCount y count)
  else ((s.setParent y none).setDownItems t ((s.tile t).downItems.erase y)).resetTileFlags t y

/-- The place among the top items by `alwaysOnTopOrder`. -/
def insertTopItem (y : ItemRef) : List ItemRef → List ItemRef
  | [] => [y]
  | x :: rest =>
    if (s.typeOf y).alwaysOnTopOrder ≤ (s.typeOf x).alwaysOnTopOrder then y :: x :: rest
    else x :: insertTopItem y rest

/-- The field whose place a new field takes, if the tile has one. -/
def oldField (t : Position) : Option ItemRef :=
  (s.tile t).downItems.find? fun x => (s.typeOf x).isMagicField

def oldSplash (t : Position) : Option ItemRef :=
  (s.tile t).topItems.find? fun x => (s.typeOf x).isSplash

/-- The old splash or field goes. -/
def release (t : Position) (old : ItemRef) : State :=
  (s.tileRemoveThing t old 1).setParent old none

def addGround (t : Position) (y : ItemRef) : State :=
  match (s.tile t).ground with
  | none => (s.setGround t (some y)).setTileFlags t y
  | some oldGround =>
    (((s.setParent oldGround none).setGround t (some y)).resetTileFlags t oldGround).setTileFlags t y

def addTopItem (t : Position) (y : ItemRef) : State :=
  let s := if (s.typeOf y).isSplash then ((s.oldSplash t).map (s.release t)).getD s else s
  (s.setTopItems t (s.insertTopItem y (s.tile t).topItems)).setTileFlags t y

def addDownItem (t : Position) (y : ItemRef) : State :=
  let put (s : State) : State := (s.setDownItems t (y :: (s.tile t).downItems)).setTileFlags t y
  if (s.typeOf y).isMagicField then
    match s.oldField t with
    | some oldField =>
      if (s.typeOf oldField).replaceable then put (s.release t oldField)
      else s.setParent y none
    | none => put s
  else put s

def tileAddThing (t : Position) (y : ItemRef) : State :=
  if (s.tileItems t).length ≥ 65535 then s
  else
    let s := s.setParent y (some (.tile t))
    if (s.typeOf y).isGroundTile then s.addGround t y
    else if (s.typeOf y).alwaysOnTop then s.addTopItem t y
    else s.addDownItem t y

def tileUpdateThing (t : Position) (y : ItemRef) (itemId count : ℕ) : State :=
  if s.tileThingIndex t y = -1 then s
  else ((s.resetTileFlags t y).updateItem y itemId count).setTileFlags t y

end State

/-!
## Cylinders

The virtual functions of `Cylinder`: each asks the player, the container or the
tile that the pointer stands for.
-/

namespace State

variable (s : State)

/-- `cylinder->getItem()` -/
def getItem (c : Cylinder) : Option ItemRef :=
  match c with
  | .container x => some x
  | _ => none

def getThingIndex (c : Cylinder) (y : ItemRef) : ℤ :=
  match c with
  | .player p => s.playerThingIndex p y
  | .container x => s.containerThingIndex x y
  | .tile t => s.tileThingIndex t y

def queryAdd (c : Cylinder) (index : ℤ) (y : ItemRef) (count : ℕ) (flags : cylinderflags_t)
    (actor : Bool) : ReturnValue :=
  match c with
  | .player p => s.playerQueryAdd p index y count flags
  | .container x => s.containerQueryAdd x index y count flags actor
  | .tile t => s.tileQueryAdd t y flags

def queryMaxCount (c : Cylinder) (index : ℤ) (y : ItemRef) (count : ℕ)
    (flags : cylinderflags_t) : ReturnValue × ℕ :=
  match c with
  | .player p => s.playerQueryMaxCount p index y count flags
  | .container x => s.containerQueryMaxCount x index y count flags
  | .tile _ => (NOERROR, max 1 count)

def queryRemove (c : Cylinder) (y : ItemRef) (count : ℕ) (flags : cylinderflags_t) : ReturnValue :=
  s.queryRemoveAt (s.getThingIndex c y) y count flags

def queryDestination (c : Cylinder) (index : ℤ) (y : ItemRef) (destItem : Option ItemRef)
    (flags : cylinderflags_t) : Destination :=
  match c with
  | .player p => s.playerQueryDestination p index y destItem flags
  | .container x => s.containerQueryDestination x index y destItem flags
  | .tile t => s.tileQueryDestination t index flags

def addThing (c : Cylinder) (index : ℤ) (y : ItemRef) : State :=
  match c with
  | .player p => s.playerAddThing p index y
  | .container x => s.containerAddThing x index y
  | .tile t => s.tileAddThing t y

/-- `addThing(thing)` without an index: a player does nothing. -/
def addThingAnywhere (c : Cylinder) (y : ItemRef) : State :=
  match c with
  | .player _ => s
  | .container x => s.containerAddThing x 0 y
  | .tile t => s.tileAddThing t y

def updateThing (c : Cylinder) (y : ItemRef) (itemId count : ℕ) : State :=
  match c with
  | .player p => s.playerUpdateThing p y itemId count
  | .container x => s.containerUpdateThing x y itemId count
  | .tile t => s.tileUpdateThing t y itemId count

def removeThing (c : Cylinder) (y : ItemRef) (count : ℕ) : State :=
  match c with
  | .player p => s.playerRemoveThing p y count
  | .container x => s.containerRemoveThing x y count
  | .tile t => s.tileRemoveThing t y count

end State

end TibiaServer.Cylinders
