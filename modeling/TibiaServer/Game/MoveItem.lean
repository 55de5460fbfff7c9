import TibiaServer.Cylinders.Cylinder
/-!
# Moving an item

`Game::internalMoveItem` finds the destination, asks it, and where it asks for an
exchange first carries the item that is in the way back to the source.  Then it
asks again, counts the room and moves what fits.
-/

namespace TibiaServer.Game

open TibiaServer.Cylinders
open ReturnValue

def MAP_MAX_LAYERS : ℕ := 16

/-- What `Game::internalMoveItem` returns, the state it leaves and what it writes to
`_moveItem`. -/
structure MoveResult where
  ret : ReturnValue
  state : State
  moveItem : Option ItemRef := none

/-- `item->clone()` with another count; the clone stands nowhere yet. -/
def cloneItem (s : State) (item : ItemRef) (count : ℕ) : Option (State × ItemRef) :=
  ((s.item item).clone s.items).map fun newItem =>
    ({ s.setItem s.fresh (newItem.setItemCount count) with fresh := s.fresh + 1 }, s.fresh)

/-- `std::min<uint32_t>(100 - toItem->getItemCount(), m)` -/
def mergedCount (s : State) (toItem : ItemRef) (m : ℕ) : ℕ :=
  min ((100 - (s.getItemCount toItem : ℤ)) % 4294967296).toNat m

section Destination

variable (s : State)

/-- `while ((subCylinder = toCylinder->queryDestination(..)) != toCylinder)`, with at
most `MAP_MAX_LAYERS` turns. -/
def destinationLoop (item : ItemRef) : ℕ → Destination → Destination
  | 0, d => d
  | n + 1, d =>
    let sub := s.queryDestination d.cylinder d.index item d.destItem d.flags
    if sub.cylinder = d.cylinder then sub
    else destinationLoop item n { sub with flags := {} }

def destination (toCylinder : Cylinder) (index : ℤ) (item : ItemRef) (flags : cylinderflags_t) :
    Destination :=
  destinationLoop s item MAP_MAX_LAYERS ⟨toCylinder, index, none, flags⟩

end Destination

section Exchange

variable (s : State) (fromCylinder : Cylinder) (d : Destination) (item : ItemRef)

/-- The item in the way goes to the source. -/
def exchange (toItem : ItemRef) : State :=
  let toCylinder := d.cylinder
  let oldToItemIndex := s.getThingIndex toCylinder toItem
  let s := s.removeThing toCylinder toItem (s.getItemCount toItem)
  let s := s.addThingAnywhere fromCylinder toItem
  let s := if oldToItemIndex ≠ -1 then s.postNotification toCylinder else s
  if s.getThingIndex fromCylinder toItem ≠ -1 then s.postNotification fromCylinder else s

/-- Whether the source takes the item that is in the way. -/
def sourceAnswer (toItem : ItemRef) : ReturnValue :=
  let toItemCount := s.getItemCount toItem
  let ret :=
    s.queryAdd fromCylinder (s.getThingIndex fromCylinder item) toItem toItemCount {} false
  if ret ≠ NOERROR then ret
  else
    let (retExchangeMaxCount, maxExchangeQueryCount) :=
      s.queryMaxCount fromCylinder INDEX_WHEREEVER toItem toItemCount {}
    if retExchangeMaxCount ≠ NOERROR ∧ maxExchangeQueryCount = 0 then retExchangeMaxCount
    else NOERROR

/-- Once both sides are asked: the answer, the state and the item to merge with.
`none` where a null `toItem` is dereferenced. -/
def ask (count : ℕ) (actor : Bool) : Option (ReturnValue × State × Option ItemRef) :=
  let ret := s.queryAdd d.cylinder d.index item count d.flags actor
  if ret ≠ NEEDEXCHANGE then some (ret, s, d.destItem)
  else
    d.destItem.map fun toItem =>
      let ret := sourceAnswer s fromCylinder item toItem
      if ret ≠ NOERROR then (ret, s, d.destItem)
      else if s.queryRemove d.cylinder toItem (s.getItemCount toItem) d.flags = NOERROR then
        let s := exchange s fromCylinder d toItem
        (s.queryAdd d.cylinder d.index item count d.flags false, s, none)
      else (NOERROR, s, d.destItem)

end Exchange

section Transfer

variable (s : State) (fromCylinder : Cylinder) (d : Destination) (item : ItemRef)

/-- What does not fit on the stack that was found. -/
def transferRest (newCount : ℕ) : Option (State × Option ItemRef) :=
  if newCount > 0 then
    (cloneItem s item newCount).map fun (s, moveItem) =>
      (s.addThing d.cylinder d.index moveItem, some moveItem)
  else some (s, none)

/-- Removing, merging and adding. -/
def transfer (toItem : Option ItemRef) (m : ℕ) : Option (State × Option ItemRef) :=
  let s := s.removeThing fromCylinder item m
  if !s.isStackable item then some (s.addThing d.cylinder d.index item, some item)
  else
    match toItem with
    | none => transferRest s d item m
    | some toItem =>
      if s.equals item (some toItem) then
        let n := mergedCount s toItem m
        transferRest
          (s.updateThing d.cylinder toItem (s.item toItem).id (s.getItemCount toItem + n))
          d item (m - n)
      else transferRest s d item m

/-- The notifications after a move. -/
def notifyMove (itemIndex : ℤ) (moveItem updateItem : Option ItemRef) : State :=
  let s := if itemIndex ≠ -1 then s.postNotification fromCylinder else s
  let added (s : State) (x : Option ItemRef) : State :=
    if x.any fun x => s.getThingIndex d.cylinder x ≠ -1 then s.postNotification d.cylinder else s
  added (added s moveItem) updateItem

/-- The item is reserved and the destination is inside it. -/
def insideTradeItem (tradeItem : Option ItemRef) : Bool :=
  tradeItem.any fun tradeItem => .container tradeItem ∈ d.cylinder :: s.parents d.cylinder

/-- The second half, with no item in the way. -/
def moveAccepted (toItem : Option ItemRef) (count : ℕ) (tradeItem : Option ItemRef) :
    Option MoveResult :=
  let (retMaxCount, maxQueryCount) := s.queryMaxCount d.cylinder d.index item count d.flags
  if retMaxCount ≠ NOERROR ∧ maxQueryCount = 0 then some { ret := retMaxCount, state := s }
  else
    let m := if s.isStackable item then min count maxQueryCount else maxQueryCount
    let ret := s.queryRemove fromCylinder item m d.flags
    if ret ≠ NOERROR then some { ret := ret, state := s }
    else if insideTradeItem s d tradeItem then some { ret := NOTENOUGHROOM, state := s }
    else
      (transfer s fromCylinder d item toItem m).map fun (moved, moveItem) =>
        let updateItem := if s.isStackable item ∧ s.equals item toItem then toItem else none
        { ret := if s.isStackable item ∧ maxQueryCount < count then retMaxCount else NOERROR
          state := notifyMove moved fromCylinder d (s.getThingIndex fromCylinder item) moveItem
            updateItem
          moveItem := some (moveItem.getD item) }

end Transfer

/-- `Game::internalMoveItem`; `none` where a null pointer is dereferenced. -/
def internalMoveItem (s : State) (fromCylinder toCylinder : Cylinder) (index : ℤ) (item : ItemRef)
    (count : ℕ) (flags : cylinderflags_t) (actor : Bool) (tradeItem : Option ItemRef) :
    Option MoveResult :=
  let d := destination s toCylinder index item flags
  if d.destItem = some item then some { ret := NOERROR, state := s }
  else
    (ask s fromCylinder d item count actor).bind fun (ret, s, toItem) =>
      if ret ≠ NOERROR then some { ret := ret, state := s }
      else moveAccepted s fromCylinder d item toItem count tradeItem

/-!
## Adding an item

`Game::internalAddItem` asks the destination that `queryDestination` finds, and counts
the room of the cylinder that it was called with.  A stack is merged as far as it
fits, and the rest is added by the same function to that cylinder.
-/

def ITEM_REWARD_CONTAINER : ℕ := 21518

/-- What `Game::internalAddItem` returns, the state it leaves and its `remainderCount`. -/
structure AddResult where
  ret : ReturnValue
  state : State
  remainderCount : ℕ := 0

section Queries

variable (s : State) (destCylinder : Cylinder) (item : ItemRef) (index : ℤ)
  (flags : cylinderflags_t)

/-- The place that is found, after one call of `queryDestination`. -/
def addDestination : Destination := s.queryDestination destCylinder index item none flags

/-- The room for the whole item, asked of the cylinder that the call names. -/
def addRoom (d : Destination) : ReturnValue × ℕ :=
  s.queryMaxCount destCylinder INDEX_WHEREEVER item (s.getItemCount item) d.flags

/-- The answer before anything is added.  Too little room is an error only where the
place found is a container that is no reward container. -/
def addAnswer (d : Destination) : ReturnValue :=
  let ret := s.queryAdd d.cylinder d.index item (s.getItemCount item) d.flags false
  if ret ≠ NOERROR then ret
  else
    let ret := (addRoom s destCylinder item d).1
    if ret ≠ NOERROR ∧ (State.getItem d.cylinder).any fun x =>
        (s.item x).id ≠ ITEM_REWARD_CONTAINER then ret
    else NOERROR

/-- The stack that the item is merged into. -/
def addTarget (d : Destination) : Option ItemRef :=
  d.destItem.filter fun toItem => s.isStackable item && s.equals item (some toItem)

/-- `std::min<uint32_t>(item->getItemCount(), maxQueryCount)` -/
def addCount (d : Destination) : ℕ :=
  min (s.getItemCount item) (addRoom s destCylinder item d).2

end Queries

/-- `toCylinder->addThing(index, item)` and its notification. -/
def addAndNotify (s : State) (d : Destination) (item : ItemRef) : State :=
  let s := s.addThing d.cylinder d.index item
  if s.getThingIndex d.cylinder item ≠ -1 then s.postNotification d.cylinder else s

/-- The stack that was found takes as much of `m` as fits on it. -/
def mergeState (s : State) (d : Destination) (toItem : ItemRef) (m : ℕ) : State :=
  s.updateThing d.cylinder toItem (s.item toItem).id (s.getItemCount toItem + mergedCount s toItem m)

/-- The rest is `again` added, unless nothing did fit. -/
def mergeAndAdd (s : State) (d : Destination) (item toItem : ItemRef) (m : ℕ)
    (again : State → ItemRef → Option AddResult) : Option AddResult :=
  let count := m - mergedCount s toItem m
  let s := mergeState s d toItem m
  if count > 0 then
    if s.getItemCount item ≠ count then
      (cloneItem s item count).bind fun (s, remainderItem) =>
        (again s remainderItem).map fun r =>
          { ret := NOERROR, state := r.state
            remainderCount := if r.ret ≠ NOERROR then count else 0 }
    else some { ret := NOERROR, state := addAndNotify s d item }
  else
    some
      { ret := NOERROR
        state := if s.getThingIndex d.cylinder toItem ≠ -1 then s.postNotification d.cylinder else s }

/-- `Game::internalAddItem`, with a bound on the calls in it. -/
def internalAddItemLoop (destCylinder : Cylinder) :
    ℕ → State → ItemRef → ℤ → cylinderflags_t → Bool → Option AddResult
  | 0, _, _, _, _, _ => none
  | fuel + 1, s, item, index, flags, test =>
    let d := addDestination s destCylinder item index flags
    let ret := addAnswer s destCylinder item d
    if ret ≠ NOERROR then some { ret := ret, state := s }
    else if test then some { ret := NOERROR, state := s }
    else
      match addTarget s item d with
      | some toItem =>
        mergeAndAdd s d item toItem (addCount s destCylinder item d) fun s remainderItem =>
          internalAddItemLoop destCylinder fuel s remainderItem INDEX_WHEREEVER d.flags false
      | none => some { ret := NOERROR, state := addAndNotify s d item }

/-- `Game::internalAddItem`; each call in it adds fewer units, so the bound is enough. -/
def internalAddItem (s : State) (toCylinder : Cylinder) (item : ItemRef) (index : ℤ)
    (flags : cylinderflags_t) (test : Bool) : Option AddResult :=
  internalAddItemLoop toCylinder (s.getItemCount item + 1) s item index flags test

end TibiaServer.Game
