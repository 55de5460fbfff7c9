import Mathlib.Data.UInt
import TibiaServer.Cylinders.Item
/-!
# Players, containers and tiles

The state holds the objects that items can stand in and the items themselves.
`contents` is what a cylinder holds; parents, weights and open trades are kept
beside it, and `contents_…` and `item_…` say which of them an operation touches.
-/

namespace TibiaServer.Cylinders

open TibiaServer.World (Position)

inductive tradestate_t
  | TRADE_NONE
  | TRADE_INITIATED
  | TRADE_ACCEPT
  | TRADE_ACKNOWLEDGE
  | TRADE_TRANSFER
  deriving DecidableEq, Repr

structure Player where
  /-- read from `CONST_SLOT_FIRST` to `CONST_SLOT_LAST` -/
  inventory : ℕ → Option ItemRef := fun _ => none
  inventoryWeight : UInt32 := 0
  capacity : UInt32 := 40000
  cannotPickupItem : Bool := false
  hasInfiniteCapacity : Bool := false
  tile : Option Position := none
  tradeItem : Option ItemRef := none
  tradeState : tradestate_t := .TRADE_NONE
  tradePartner : Option PlayerRef := none

/-- Of the flags only those that are read when items move. -/
structure Tile where
  ground : Option ItemRef := none
  downItems : List ItemRef := []
  topItems : List ItemRef := []
  /-- for each creature whether it is in ghost mode -/
  creatures : List Bool := []
  flags : BitVec 32 := 0

/-- `fresh` is the next object that is created. -/
structure State where
  items : ℕ → ItemType
  classicEquipmentSlots : Bool
  cylinders : Finset Cylinder
  item : ItemRef → Item
  player : PlayerRef → Player
  tile : Position → Tile
  fresh : ItemRef

def CONST_SLOT_FIRST : ℕ := 1
def CONST_SLOT_LAST : ℕ := 11

/-- `for (slot = CONST_SLOT_FIRST; slot <= CONST_SLOT_LAST; ++slot)` -/
def slots : List ℕ := List.range' CONST_SLOT_FIRST CONST_SLOT_LAST

def INDEX_WHEREEVER : ℤ := -1

namespace State

/-- The static type of an item. -/
def typeOf (s : State) (x : ItemRef) : ItemType := s.items (s.item x).id

def isContainer (s : State) (x : ItemRef) : Bool := (s.item x).container.isSome

def itemlist (s : State) (x : ItemRef) : List ItemRef :=
  ((s.item x).container.map Container.itemlist).getD []

def getItemCount (s : State) (x : ItemRef) : ℕ := (s.item x).count

def isStackable (s : State) (x : ItemRef) : Bool := (s.typeOf x).stackable

/-- `item->equals(otherItem)`, where `otherItem` may be null. -/
def equals (s : State) (x : ItemRef) (otherItem : Option ItemRef) : Bool :=
  otherItem.any fun y => (s.item x).equals (s.item y)

/-- What a cylinder holds, in the order of its own loops. -/
def contents (s : State) : Cylinder → List ItemRef
  | .player p => slots.filterMap (s.player p).inventory
  | .container x => s.itemlist x
  | .tile t => (s.tile t).ground.toList ++ (s.tile t).downItems ++ (s.tile t).topItems

/-- A tile of the map, or null. -/
def getTile (s : State) (t : Position) : Option Position :=
  if .tile t ∈ s.cylinders then some t else none

/-! ## Parents -/

/-- `item->getParent()`: a reward answers for the reward chest that it is in. -/
def itemParent (s : State) (x : ItemRef) : Option Cylinder :=
  match (s.item x).container with
  | some { kind := .Reward, .. } =>
    match (s.item x).parent with
    | some (.container y) => (s.item y).parent
    | some (.player p) => (s.player p).tile.map .tile
    | _ => none
  | _ => (s.item x).parent

def getParent (s : State) : Cylinder → Option Cylinder
  | .player p => (s.player p).tile.map .tile
  | .container x => s.itemParent x
  | .tile _ => none

/-- More steps than there are parents above any item: the items, a player, a tile. -/
def depth (s : State) : ℕ := s.fresh + 3

def parentsLoop (s : State) : ℕ → Cylinder → List Cylinder
  | 0, _ => []
  | n + 1, c =>
    match s.getParent c with
    | some up => up :: s.parentsLoop n up
    | none => []

/-- The parents of a cylinder, from its own to the last. -/
def parents (s : State) (c : Cylinder) : List Cylinder := s.parentsLoop s.depth c

/-- The loop of `Item::getTopParent`. -/
def topParentLoop (s : State) : ℕ → Option Cylinder → Cylinder → Option Cylinder
  | 0, prevaux, _ => prevaux
  | n + 1, prevaux, aux =>
    match s.getParent aux with
    | some up => s.topParentLoop n (some aux) up
    | none => some (prevaux.getD aux)

def getTopParent (s : State) (x : ItemRef) : Option Cylinder :=
  let prevaux := if s.isContainer x then some (.container x) else none
  match s.itemParent x with
  | none => prevaux
  | some aux => s.topParentLoop s.depth prevaux aux

/-- The tile that an item stands on, carried or not. -/
def getItemTile (s : State) (x : ItemRef) : Option Position :=
  match s.getTopParent x with
  | none => none
  | some top =>
    match (s.getParent top).getD top with
    | .tile t => some t
    | _ => none

/-! ## What a container holds -/

/-- The loop of `ContainerIterator`, with the containers still to visit. -/
def iteratorLoop (s : State) : ℕ → List ItemRef → List ItemRef
  | 0, _ => []
  | _, [] => []
  | n + 1, x :: waiting =>
    s.itemlist x ++ s.iteratorLoop n (waiting ++ (s.itemlist x).filter s.isContainer)

/-- Every item in a container, however deep. -/
def iterator (s : State) (x : ItemRef) : List ItemRef := s.iteratorLoop s.depth [x]

def getItemHoldingCount (s : State) (x : ItemRef) : ℕ := (s.iterator x).length

def isHoldingItem (s : State) (x y : ItemRef) : Bool := y ∈ s.iterator x

/-! ## Single writes -/

def setItem (s : State) (x : ItemRef) (item : Item) : State :=
  { s with item := Function.update s.item x item }

def modifyItem (s : State) (x : ItemRef) (f : Item → Item) : State := s.setItem x (f (s.item x))

def modifyContainer (s : State) (x : ItemRef) (f : Container → Container) : State :=
  s.modifyItem x fun item => { item with container := item.container.map f }

def setParent (s : State) (x : ItemRef) (parent : Option Cylinder) : State :=
  s.modifyItem x fun item => { item with parent := parent }

def modifyPlayer (s : State) (p : PlayerRef) (f : Player → Player) : State :=
  { s with player := Function.update s.player p (f (s.player p)) }

def modifyTile (s : State) (t : Position) (f : Tile → Tile) : State :=
  { s with tile := Function.update s.tile t (f (s.tile t)) }

def setSlot (s : State) (p : PlayerRef) (slot : ℕ) (x : Option ItemRef) : State :=
  s.modifyPlayer p fun player =>
    { player with inventory := Function.update player.inventory slot x }

def setItemlist (s : State) (x : ItemRef) (itemlist : List ItemRef) : State :=
  s.modifyContainer x fun container => { container with itemlist := itemlist }

/-! ## Weights -/

def getBaseWeight (s : State) (x : ItemRef) : UInt32 :=
  if (s.item x).hasAttribute .ITEM_ATTRIBUTE_WEIGHT then
    UInt32.ofNat ((s.item x).getIntAttr .ITEM_ATTRIBUTE_WEIGHT % 4294967296).toNat
  else (s.typeOf x).weight

/-- `Item::getWeight`, and for a container with what it holds. -/
def getWeight (s : State) (x : ItemRef) : UInt32 :=
  let weight :=
    if s.isStackable x then s.getBaseWeight x * UInt32.ofNat (max 1 (s.getItemCount x))
    else s.getBaseWeight x
  match (s.item x).container with
  | some container => weight + container.totalWeight
  | none => weight

def getParentContainer (s : State) (x : ItemRef) : Option ItemRef :=
  match s.itemParent x with
  | some (.container y) => some y
  | _ => none

def updateItemWeightLoop (diff : UInt32) : ℕ → State → ItemRef → State
  | 0, s, _ => s
  | n + 1, s, x =>
    let s := s.modifyContainer x fun container =>
      { container with totalWeight := container.totalWeight + diff }
    match s.getParentContainer x with
    | some y => updateItemWeightLoop diff n s y
    | none => s

def updateItemWeight (s : State) (x : ItemRef) (diff : UInt32) : State :=
  updateItemWeightLoop diff s.depth s x

def updateInventoryWeight (s : State) (p : PlayerRef) : State :=
  if (s.player p).hasInfiniteCapacity then s
  else
    s.modifyPlayer p fun player =>
      { player with
        inventoryWeight := ((slots.filterMap player.inventory).map s.getWeight).sum }

/-! ## Trades

A player whose reserved item is touched loses his trade, and so does his partner.
-/

/-- `Player::checkTradeState` finds the item reserved or inside what is reserved. -/
def checkTradeState (s : State) (x : ItemRef) (p : PlayerRef) : Bool :=
  match (s.player p).tradeItem with
  | none => false
  | some tradeItem =>
    (s.player p).tradeState ≠ .TRADE_TRANSFER ∧
      (tradeItem = x ∨ Cylinder.container tradeItem ∈ (s.itemParent x).toList ++
        ((s.itemParent x).map s.parents).getD [])

/-- `Game::internalCloseTrade` for every player that `hit` holds of. -/
def closeTrades (s : State) (hit : PlayerRef → Bool) : State :=
  { s with
    player := fun q =>
      let player := s.player q
      let partnerState := player.tradePartner.map fun p => (s.player p).tradeState
      if player.tradeState ≠ .TRADE_TRANSFER ∧ partnerState ≠ some .TRADE_TRANSFER ∧
          (hit q ∨ player.tradePartner.any hit) then
        { player with tradeItem := none, tradeState := .TRADE_NONE, tradePartner := none }
      else player }

/-- The players that `getSpectators` finds within two squares. -/
def isSpectator (s : State) (t : Option Position) (p : PlayerRef) : Bool :=
  match t, (s.player p).tile with
  | some t, some pos =>
    .player p ∈ s.cylinders ∧ pos.z = t.z ∧
      -2 ≤ pos.getX - t.getX ∧ pos.getX - t.getX ≤ 2 ∧
      -2 ≤ pos.getY - t.getY ∧ pos.getY - t.getY ≤ 2
  | _, _ => false

def onAddContainerItem (s : State) (x y : ItemRef) : State :=
  s.closeTrades fun p => s.isSpectator (s.getItemTile x) p && s.checkTradeState y p

def onUpdateContainerItem (s : State) (x y : ItemRef) : State :=
  s.closeTrades fun p => s.isSpectator (s.getItemTile x) p && s.checkTradeState y p

def onRemoveContainerItem (s : State) (x y : ItemRef) : State :=
  s.closeTrades fun p =>
    s.isSpectator (s.getItemTile x) p && (s.player p).tradeState ≠ .TRADE_TRANSFER &&
      (s.checkTradeState y p ||
        (s.player p).tradeItem.any fun tradeItem =>
          s.itemParent tradeItem ≠ some (.container x) && s.isHoldingItem x tradeItem)

def onUpdateInventoryItem (s : State) (p : PlayerRef) (y : ItemRef) : State :=
  s.closeTrades fun q => q = p && s.checkTradeState y q

def onRemoveInventoryItem (s : State) (p : PlayerRef) (y : ItemRef) : State :=
  s.closeTrades fun q =>
    q = p && (s.player q).tradeState ≠ .TRADE_TRANSFER &&
      (s.checkTradeState y q ||
        (s.player q).tradeItem.any fun tradeItem =>
          s.isContainer y && s.isHoldingItem y tradeItem)

/-! ## Notifications -/

/-- The player that a container's notification reaches through its top parent. -/
def notifiedLoop (s : State) : ℕ → ItemRef → Option PlayerRef
  | 0, _ => none
  | n + 1, x =>
    match (s.item x).container with
    | none => none
    | some { kind := .Container, .. } =>
      match s.getTopParent x with
      | some (.player p) => some p
      | _ => none
    | some _ =>
      match s.itemParent x with
      | some (.container y) => s.notifiedLoop n y
      | _ => none

/-- `postAddNotification` and `postRemoveNotification`: what a player carries is
weighed again. -/
def postNotification (s : State) : Cylinder → State
  | .player p => s.updateInventoryWeight p
  | .container x => ((s.notifiedLoop s.depth x).map s.updateInventoryWeight).getD s
  | .tile _ => s

end State

end TibiaServer.Cylinders
