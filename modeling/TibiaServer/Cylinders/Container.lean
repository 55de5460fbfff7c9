import TibiaServer.Cylinders.PlayerQueryAdd
/-!
# Containers

The queries of a container ask upwards: `queryAdd` passes the question to the
top parent, so that a bag in a backpack minds the capacity of the carrier.  The
room is counted by `queryMaxCount`; `addThing` itself drops an item whose index
is not below the capacity, and does not look at the size.
-/

namespace TibiaServer.Cylinders

open ReturnValue

/-- What `queryDestination` returns and writes through its arguments. -/
structure Destination where
  cylinder : Cylinder
  index : ℤ
  destItem : Option ItemRef
  flags : cylinderflags_t

namespace State

section Queries

variable (s : State)

/-- `capacity()` -/
def capacity (x : ItemRef) : ℕ := ((s.item x).container.map Container.maxSize).getD 0

/-- `size()` -/
def size (x : ItemRef) : ℕ := (s.itemlist x).length

def isUnlocked (x : ItemRef) : Bool := ((s.item x).container.map Container.unlocked).getD false

def getItemByIndex (x : ItemRef) (index : ℤ) : Option ItemRef :=
  if 0 ≤ index then (s.itemlist x)[index.toNat]? else none

/-- The position of an item in a container, -1 for none. -/
def containerThingIndex (x y : ItemRef) : ℤ :=
  if y ∈ s.itemlist x then (s.itemlist x).idxOf y else -1

/-- `DepotChest::queryAdd`, before it asks `Container::queryAdd`. -/
def depotIsFull (x : ItemRef) (container : Container) (y : ItemRef) (count : ℕ)
    (flags : cylinderflags_t) : Bool :=
  let addCount :=
    if s.getTopParent y ≠ some (.container x) then
      if s.isContainer y then s.getItemHoldingCount y + 1 else 1
    else if s.isStackable y ∧ s.getItemCount y ≠ count then 1 else 0
  !flags.FLAG_NOLIMIT ∧ s.getItemHoldingCount x + addCount > container.maxDepotItems

/-- The `queryAdd` of each kind of container, given what `Container::queryAdd` answers. -/
def queryAddOfKind (x : ItemRef) (container : Container) (y : ItemRef) (count : ℕ)
    (flags : cylinderflags_t) (actor : Bool) (ofContainer : ReturnValue) : ReturnValue :=
  match container.kind with
  | .Container | .DepotLocker => ofContainer
  | .DepotChest => if s.depotIsFull x container y count flags then DEPOTISFULL else ofContainer
  | .Inbox =>
    if !flags.FLAG_NOLIMIT then CONTAINERNOTENOUGHROOM
    else if y = x then THISISIMPOSSIBLE
    else if !(s.typeOf y).pickupable then CANNOTPICKUP
    else NOERROR
  | .RewardChest => if actor then NOTPOSSIBLE else NOERROR
  | .Reward =>
    if actor then NOTPOSSIBLE
    else if y = x then THISISIMPOSSIBLE
    else if !(s.typeOf y).pickupable then CANNOTPICKUP
    else NOERROR

/-- The question of a child: a container that nobody carries does not mind. -/
def queryAddAsOwner (c : Cylinder) (y : ItemRef) (count : ℕ) (flags : cylinderflags_t)
    (actor : Bool) : ReturnValue :=
  match c with
  | .player p => s.playerQueryAdd p INDEX_WHEREEVER y count { flags with FLAG_CHILDISOWNER := true }
  | .container x =>
    match (s.item x).container with
    | some container =>
      s.queryAddOfKind x container y count { flags with FLAG_CHILDISOWNER := true } actor NOERROR
    | none => NOERROR
  | .tile _ => NOERROR

def isInbox (c : Cylinder) : Bool :=
  match c with
  | .container x => (s.item x).container.any fun container => container.kind = .Inbox
  | _ => false

/-- The loop over the parents: no item goes into itself, and none into an inbox. -/
def parentRefuses (y : ItemRef) (flags : cylinderflags_t) : List Cylinder → Option ReturnValue
  | [] => none
  | cylinder :: parents =>
    if cylinder = .container y then some THISISIMPOSSIBLE
    else if !flags.FLAG_NOLIMIT ∧ s.isInbox cylinder then some CONTAINERNOTENOUGHROOM
    else parentRefuses y flags parents

/-- `Container::queryAdd` -/
def queryAddToContainer (x : ItemRef) (container : Container) (index : ℤ) (y : ItemRef)
    (count : ℕ) (flags : cylinderflags_t) (actor : Bool) : ReturnValue :=
  if flags.FLAG_CHILDISOWNER then NOERROR
  else if !container.unlocked then NOTPOSSIBLE
  else if !(s.typeOf y).pickupable then CANNOTPICKUP
  else if y = x then THISISIMPOSSIBLE
  else
    match s.parentRefuses y flags (s.parents (.container x)) with
    | some ret => ret
    | none =>
      if !flags.FLAG_NOLIMIT ∧ index = INDEX_WHEREEVER ∧
          container.itemlist.length ≥ container.maxSize then CONTAINERNOTENOUGHROOM
      else
        match s.getTopParent x with
        | some topParent =>
          if topParent ≠ .container x then s.queryAddAsOwner topParent y count flags actor
          else NOERROR
        | none => NOERROR

def containerQueryAdd (x : ItemRef) (index : ℤ) (y : ItemRef) (count : ℕ)
    (flags : cylinderflags_t) (actor : Bool) : ReturnValue :=
  match (s.item x).container with
  | some container =>
    s.queryAddOfKind x container y count flags actor
      (s.queryAddToContainer x container index y count flags actor)
  | none => NOTPOSSIBLE

def freeSlots (x : ItemRef) : ℕ := s.capacity x - s.size x

/-- The room in the stacks that an item can merge with. -/
def mergeRoomLoop (x y : ItemRef) (flags : cylinderflags_t) : ℕ → List ItemRef → ℕ
  | _, [] => 0
  | slotIndex, containerItem :: rest =>
    if containerItem ≠ y ∧ s.equals containerItem (some y) ∧ s.getItemCount containerItem < 100
    then
      let remainder := 100 - s.getItemCount containerItem
      (if s.containerQueryAdd x slotIndex y remainder flags false = NOERROR then remainder
        else 0) + mergeRoomLoop x y flags (slotIndex + 1) rest
    else mergeRoomLoop x y flags slotIndex rest

def mergeRoom (x y : ItemRef) (index : ℤ) (flags : cylinderflags_t) : ℕ :=
  if index = INDEX_WHEREEVER then s.mergeRoomLoop x y flags 0 (s.itemlist x)
  else
    match s.getItemByIndex x index with
    | some destItem =>
      if s.equals y (some destItem) ∧ s.getItemCount destItem < 100 ∧
          s.containerQueryAdd x index y (100 - s.getItemCount destItem) flags false = NOERROR
      then 100 - s.getItemCount destItem else 0
    | none => 0

/-- `queryMaxCount` with the `maxQueryCount` it leaves. -/
def containerQueryMaxCount (x : ItemRef) (index : ℤ) (y : ItemRef) (count : ℕ)
    (flags : cylinderflags_t) : ReturnValue × ℕ :=
  if flags.FLAG_NOLIMIT then (NOERROR, max 1 count)
  else if s.isStackable y then
    let maxQueryCount := s.freeSlots x * 100 + s.mergeRoom x y index flags
    (if maxQueryCount < count then CONTAINERNOTENOUGHROOM else NOERROR, maxQueryCount)
  else (if s.freeSlots x = 0 then CONTAINERNOTENOUGHROOM else NOERROR, s.freeSlots x)

/-- `queryRemove` of every cylinder, where `index` is the item's index in it. -/
def queryRemoveAt (index : ℤ) (y : ItemRef) (count : ℕ) (flags : cylinderflags_t) : ReturnValue :=
  if index = -1 then NOTPOSSIBLE
  else if count = 0 ∨ (s.isStackable y ∧ count > s.getItemCount y) then NOTPOSSIBLE
  else if !(s.typeOf y).moveable ∧ !flags.FLAG_IGNORENOTMOVEABLE then NOTMOVEABLE
  else NOERROR

/-- The first stack that an item can merge with. -/
def findStack (y : ItemRef) : ℕ → List ItemRef → Option (ℕ × ItemRef)
  | _, [] => none
  | n, listItem :: rest =>
    if listItem ≠ y ∧ s.equals listItem (some y) ∧ s.getItemCount listItem < 100 then
      some (n, listItem)
    else findStack y (n + 1) rest

end Queries

variable (s : State)

/-- The end of `Container::queryDestination`: an index names an item or a container. -/
def destinationAtIndex (x : ItemRef) (index : ℤ) (destItem : Option ItemRef)
    (flags : cylinderflags_t) : Destination :=
  let destItem := if index ≠ INDEX_WHEREEVER then (s.getItemByIndex x index).or destItem else destItem
  match destItem with
  | some d =>
    if index ≠ INDEX_WHEREEVER ∧ s.isContainer d then
      ⟨.container d, INDEX_WHEREEVER, none, flags⟩
    else ⟨.container x, index, destItem, flags⟩
  | none => ⟨.container x, index, none, flags⟩

def containerQueryDestination (x : ItemRef) (index : ℤ) (y : ItemRef) (destItem : Option ItemRef)
    (flags : cylinderflags_t) : Destination :=
  if !s.isUnlocked x then ⟨.container x, index, none, flags⟩
  else if index = 254 then
    match s.getParentContainer x with
    | some up => ⟨.container up, INDEX_WHEREEVER, none, flags⟩
    | none => ⟨.container x, INDEX_WHEREEVER, none, flags⟩
  else
    let wherever := index = 255 ∨ index ≥ s.capacity x
    let destItem := if wherever then none else destItem
    let index := if wherever then INDEX_WHEREEVER else index
    if !flags.FLAG_IGNOREAUTOSTACK ∧ s.isStackable y ∧ s.itemParent y ≠ some (.container x) then
      match s.findStack y 0 (s.itemlist x) with
      | some (n, listItem) => ⟨.container x, n, some listItem, flags⟩
      | none => s.destinationAtIndex x index destItem flags
    else s.destinationAtIndex x index destItem flags

/-! ## Operations -/

def containerAddThing (x : ItemRef) (index : ℤ) (y : ItemRef) : State :=
  if index ≥ s.capacity x then s
  else
    let s := s.setParent y (some (.container x))
    let s := s.setItemlist x (y :: s.itemlist x)
    let s := s.updateItemWeight x (s.getWeight y)
    if (s.getParent (.container x)).isSome then s.onAddContainerItem x y else s

/-- `Container::addItem` -/
def addItem (x y : ItemRef) : State :=
  (s.setItemlist x (s.itemlist x ++ [y])).setParent y (some (.container x))

def addItemBack (x y : ItemRef) : State :=
  let s := s.addItem x y
  let s := s.updateItemWeight x (s.getWeight y)
  if (s.getParent (.container x)).isSome then s.onAddContainerItem x y else s

/-- One item of the loop of `Container::unserializeItemNode`. -/
def loadItem (x y : ItemRef) : State :=
  let s := s.addItem x y
  s.updateItemWeight x (s.getWeight y)

/-- `Container::internalAddThing` -/
def containerInternalAddThing (x y : ItemRef) : State :=
  let s := s.setParent y (some (.container x))
  let s := s.setItemlist x (y :: s.itemlist x)
  s.updateItemWeight x (s.getWeight y)

/-- With another item in its place the old one counts as removed for the players that
look on. -/
def containerReplaceThing (x : ItemRef) (index : ℕ) (y : ItemRef) : State :=
  match s.getItemByIndex x index with
  | none => s
  | some replacedItem =>
    let s := s.setItemlist x ((s.itemlist x).set index y)
    let s := s.setParent y (some (.container x))
    let s := s.updateItemWeight x (-s.getWeight replacedItem + s.getWeight y)
    let s := if (s.getParent (.container x)).isSome then s.onRemoveContainerItem x replacedItem
      else s
    s.setParent replacedItem none

/-- The writes that `updateThing` makes to an item. -/
def updateItem (y : ItemRef) (itemId count : ℕ) : State :=
  s.modifyItem y fun item => (item.setID s.items itemId).setSubType s.items count

def containerUpdateThing (x y : ItemRef) (itemId count : ℕ) : State :=
  if s.containerThingIndex x y = -1 then s
  else
    let oldWeight := s.getWeight y
    let s := s.updateItem y itemId count
    let s := s.updateItemWeight x (s.getWeight y - oldWeight)
    if (s.getParent (.container x)).isSome then s.onUpdateContainerItem x y else s

/-- `std::max<int32_t>(0, item->getItemCount() - count)` -/
def remainingCount (y : ItemRef) (count : ℕ) : ℕ :=
  (max 0 (toInt32 (s.getItemCount y - count))).toNat

def setCount (y : ItemRef) (count : ℕ) : State := s.modifyItem y (Item.setItemCount count)

def containerRemoveThing (x y : ItemRef) (count : ℕ) : State :=
  if s.containerThingIndex x y = -1 then s
  else if s.isStackable y ∧ count ≠ s.getItemCount y then
    let oldWeight := s.getWeight y
    let s := s.setCount y (s.remainingCount y count)
    let s := s.updateItemWeight x (s.getWeight y - oldWeight)
    if (s.getParent (.container x)).isSome then s.onUpdateContainerItem x y else s
  else
    let s := s.updateItemWeight x (-s.getWeight y)
    let s := if (s.getParent (.container x)).isSome then s.onRemoveContainerItem x y else s
    let s := s.setParent y none
    s.setItemlist x ((s.itemlist x).erase y)

end State

end TibiaServer.Cylinders
