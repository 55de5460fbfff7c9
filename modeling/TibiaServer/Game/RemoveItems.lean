import TibiaServer.Cylinders.Cylinder
/-!
# Removing items

`Game::internalRemoveItem` asks the cylinder that the item names as its parent.
-/

namespace TibiaServer.Game

open TibiaServer.Cylinders
open ReturnValue

/-- `item->canRemove()`, where `houseBed` says that the item is a bed of a house. -/
def canRemove (s : State) (item : ItemRef) (houseBed : Bool) : Bool :=
  match (s.item item).container with
  | some container => container.kind = .Container || container.kind = .Reward
  | none => !houseBed

/-- `Game::internalRemoveItem`; a count of -1 stands for the whole item. -/
def internalRemoveItem (s : State) (item : ItemRef) (count : ℤ) (test : Bool)
    (flags : cylinderflags_t) (houseBed : Bool) : ReturnValue × State :=
  match s.itemParent item with
  | none => (NOTPOSSIBLE, s)
  | some cylinder =>
    let count := if count = -1 then s.getItemCount item else (count % 4294967296).toNat
    let ret := s.queryRemove cylinder item count { flags with FLAG_IGNORENOTMOVEABLE := true }
    if ret ≠ NOERROR then (ret, s)
    else if !canRemove s item houseBed then (NOTPOSSIBLE, s)
    else if test then (NOERROR, s)
    else (NOERROR, (s.removeThing cylinder item count).postNotification cylinder)

end TibiaServer.Game

/-!
## Items of a type

`Player::getItemTypeCount` counts through the slots and everything in the containers in them.
`Player::removeItemOfType` collects items on nearly the same way until they are enough, and
`Game::internalRemoveItems` removes what was collected.
-/

namespace TibiaServer.Cylinders

namespace Item

open itemAttrTypes

def getFluidType (item : Item) : ℕ :=
  (item.getIntAttr ITEM_ATTRIBUTE_FLUIDTYPE % 65536).toNat

def getCharges (item : Item) : ℕ :=
  (item.getIntAttr ITEM_ATTRIBUTE_CHARGES % 65536).toNat

variable (items : ℕ → ItemType)

def getSubType (item : Item) : ℕ :=
  let it := items item.id
  if it.isFluidContainer || it.isSplash then item.getFluidType
  else if it.stackable then item.count
  else if it.charges ≠ 0 then item.getCharges
  else item.count

/-- `Item::countByType`; -1 stands for any subtype. -/
def countByType (item : Item) (subType : ℤ) : ℕ :=
  if subType = -1 ∨ subType = item.getSubType items then item.count else 0

end Item

/-- `count += n` for a `uint32_t`. -/
def countUp (count n : ℕ) : ℕ := (count + n) % 4294967296

namespace State

variable (s : State)

def countByType (y : ItemRef) (subType : ℤ) : ℕ := (s.item y).countByType s.items subType

/-! ## Counting -/

/-- The loop over a container. -/
def itemTypeCountIn (itemId : ℕ) (subType : ℤ) (count : ℕ) (l : List ItemRef) : ℕ :=
  l.foldl (fun count y =>
    if (s.item y).id = itemId then countUp count (s.countByType y subType) else count) count

/-- The body of the loop over the slots. -/
def itemTypeCountAt (p : PlayerRef) (itemId : ℕ) (subType : ℤ) (count i : ℕ) : ℕ :=
  match (s.player p).inventory i with
  | none => count
  | some item =>
    let count :=
      if (s.item item).id = itemId then countUp count (s.countByType item subType) else count
    if s.isContainer item then s.itemTypeCountIn itemId subType count (s.iterator item)
    else count

/-- `Player::getItemTypeCount`. -/
def playerItemTypeCount (p : PlayerRef) (itemId : ℕ) (subType : ℤ) : ℕ :=
  slots.foldl (s.itemTypeCountAt p itemId subType) 0

/-! ## Collecting -/

end State

/-- What collecting has come to: the items and their count so far, or enough of them. -/
inductive Collected
  | more (itemList : List ItemRef) (count : ℕ)
  | enough (itemList : List ItemRef)

namespace State

variable (s : State) (itemId amount : ℕ) (subType : ℤ)

/-- What both loops do with an item of the id. -/
def collect (itemList : List ItemRef) (count : ℕ) (item : ItemRef) : Collected :=
  let itemCount := s.countByType item subType
  if itemCount = 0 then .more itemList count
  else
    let itemList := itemList ++ [item]
    let count := countUp count itemCount
    if count ≥ amount then .enough itemList else .more itemList count

/-- The loop over a container. -/
def collectIn : List ItemRef → List ItemRef → ℕ → Collected
  | [], itemList, count => .more itemList count
  | y :: rest, itemList, count =>
    if (s.item y).id = itemId then
      match s.collect amount subType itemList count y with
      | .more itemList count => collectIn rest itemList count
      | .enough itemList => .enough itemList
    else collectIn rest itemList count

/-- The body of the loop over the slots, for the item in one. -/
def collectAt (ignoreEquipped : Bool) (itemList : List ItemRef) (count : ℕ)
    (item : ItemRef) : Collected :=
  if !ignoreEquipped && (s.item item).id = itemId then
    s.collect amount subType itemList count item
  else if s.isContainer item then
    s.collectIn itemId amount subType (s.iterator item) itemList count
  else .more itemList count

/-- The loop over the slots. -/
def collectSlots (p : PlayerRef) (ignoreEquipped : Bool) :
    List ℕ → List ItemRef → ℕ → Collected
  | [], itemList, count => .more itemList count
  | i :: rest, itemList, count =>
    match (s.player p).inventory i with
    | none => collectSlots p ignoreEquipped rest itemList count
    | some item =>
      match s.collectAt itemId amount subType ignoreEquipped itemList count item with
      | .more itemList count => collectSlots p ignoreEquipped rest itemList count
      | .enough itemList => .enough itemList

end State

end TibiaServer.Cylinders

namespace TibiaServer.Game

open TibiaServer.Cylinders

/-- The loop of `internalRemoveItems` over stacks. -/
def removeStacks (houseBed : ItemRef → Bool) : List ItemRef → ℕ → State → State
  | [], _, s => s
  | item :: rest, amount, s =>
    if s.getItemCount item > amount then
      (internalRemoveItem s item amount false {} (houseBed item)).2
    else
      removeStacks houseBed rest (amount - s.getItemCount item)
        (internalRemoveItem s item (-1) false {} (houseBed item)).2

/-- The loop of `internalRemoveItems` over other items. -/
def removeEach (houseBed : ItemRef → Bool) : List ItemRef → State → State
  | [], s => s
  | item :: rest, s =>
    removeEach houseBed rest (internalRemoveItem s item (-1) false {} (houseBed item)).2

def internalRemoveItems (s : State) (itemList : List ItemRef) (amount : ℕ) (stackable : Bool)
    (houseBed : ItemRef → Bool) : State :=
  if stackable then removeStacks houseBed itemList amount s
  else removeEach houseBed itemList s

/-- `Player::removeItemOfType`; `houseBed` says of an item that it is a bed of a house. -/
def playerRemoveItemOfType (s : State) (p : PlayerRef) (itemId amount : ℕ) (subType : ℤ)
    (ignoreEquipped : Bool) (houseBed : ItemRef → Bool) : Bool × State :=
  if amount = 0 then (true, s)
  else
    match s.collectSlots itemId amount subType p ignoreEquipped slots [] 0 with
    | .more _ _ => (false, s)
    | .enough itemList =>
      (true, internalRemoveItems s itemList amount (s.items itemId).stackable houseBed)

end TibiaServer.Game
