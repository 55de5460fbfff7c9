import TibiaServer.Cylinders.Container
/-!
# The inventory of a player

`queryDestination` looks for a place: first the slots, then breadth first through
the containers in them.  `addThing` writes the slot whatever is in it.
-/

namespace TibiaServer.Cylinders

open ReturnValue

namespace State

variable (s : State)

/-- `getThingIndex`: the slot of an item, -1 for none. -/
def playerThingIndex (p : PlayerRef) (y : ItemRef) : ℤ :=
  match slots.find? fun slot => (s.player p).inventory slot = some y with
  | some slot => slot
  | none => -1

/-! ## Room -/

/-- The containers in a container, however deep, and itself. -/
def containersIn (x : ItemRef) : List ItemRef := x :: (s.iterator x).filter s.isContainer

/-- What one slot adds to `maxQueryCount`. -/
def slotRoom (p : PlayerRef) (y : ItemRef) (flags : cylinderflags_t) (slot : ℕ) : ℕ :=
  match (s.player p).inventory slot with
  | some inventoryItem =>
    if s.isContainer inventoryItem then
      ((s.containersIn inventoryItem).map fun x =>
        (s.containerQueryMaxCount x INDEX_WHEREEVER y (s.getItemCount y) flags).2).sum
    else if s.isStackable inventoryItem ∧ s.equals y (some inventoryItem) ∧
        s.getItemCount inventoryItem < 100 ∧
        s.playerQueryAdd p slot y (100 - s.getItemCount inventoryItem) flags = NOERROR then
      100 - s.getItemCount inventoryItem
    else 0
  | none =>
    if s.playerQueryAdd p slot y (s.getItemCount y) flags = NOERROR then
      if s.isStackable y then 100 else 1
    else 0

def playerQueryMaxCount (p : PlayerRef) (index : ℤ) (y : ItemRef) (count : ℕ)
    (flags : cylinderflags_t) : ReturnValue × ℕ :=
  let answer (maxQueryCount : ℕ) :=
    (if maxQueryCount < count then NOTENOUGHROOM else NOERROR, maxQueryCount)
  if index = INDEX_WHEREEVER then answer ((slots.map (s.slotRoom p y flags)).sum)
  else
    match s.getInventoryItem p index with
    | some destItem =>
      if s.isStackable destItem ∧ s.equals y (some destItem) ∧ s.getItemCount destItem < 100 then
        answer (100 - s.getItemCount destItem)
      else answer 0
    | none =>
      if s.playerQueryAdd p index y count flags = NOERROR then
        (NOERROR, if s.isStackable y then 100 else 1)
      else answer 0

/-! ## Destination -/

/-- What a search through slots or a container comes to: a place, or the containers
that are left to search. -/
inductive Search
  | found (index : ℤ) (destItem : Option ItemRef)
  | goOn (containers : List ItemRef)

/-- The loop over the slots. -/
def searchSlots (p : PlayerRef) (y : ItemRef) (flags : cylinderflags_t) (stack : Bool) :
    List ItemRef → List ℕ → Search
  | containers, [] => .goOn containers
  | containers, slotIndex :: rest =>
    match (s.player p).inventory slotIndex with
    | some inventoryItem =>
      if (s.player p).tradeItem = some inventoryItem ∨ inventoryItem = y then
        searchSlots p y flags stack containers rest
      else if stack ∧ s.playerQueryAdd p slotIndex y (s.getItemCount y) {} = NOERROR ∧
          s.equals inventoryItem (some y) ∧ s.getItemCount inventoryItem < 100 then
        .found slotIndex (some inventoryItem)
      else
        searchSlots p y flags stack
          (if s.isContainer inventoryItem then containers ++ [inventoryItem] else containers)
          rest
    | none =>
      if s.playerQueryAdd p slotIndex y (s.getItemCount y) flags = NOERROR then
        .found slotIndex none
      else searchSlots p y flags stack containers rest

/-- The loop over the free places of a container, `n` of them left. -/
def searchFree (x y : ItemRef) (flags : cylinderflags_t) : ℕ → Option ℤ
  | 0 => none
  | n + 1 =>
    let index := toInt32 (s.capacity x - (n + 1 : ℕ))
    if s.containerQueryAdd x index y (s.getItemCount y) flags false = NOERROR then some index
    else searchFree x y flags n

/-- The loop over the items of a container for a stack to merge with; `n` counts
the items but for the reserved one and the moved one. -/
def searchStack (p : PlayerRef) (y : ItemRef) :
    ℕ → List ItemRef → List ItemRef → (ℕ × Option ItemRef) × List ItemRef
  | n, containers, [] => ((n, none), containers)
  | n, containers, tmpItem :: rest =>
    if (s.player p).tradeItem = some tmpItem ∨ tmpItem = y then
      searchStack p y n containers rest
    else if s.equals tmpItem (some y) ∧ s.getItemCount tmpItem < 100 then
      ((n, some tmpItem), containers)
    else
      searchStack p y (n + 1)
        (if s.isContainer tmpItem then containers ++ [tmpItem] else containers) rest

/-- One container of the breadth first search. -/
def searchContainer (p : PlayerRef) (y : ItemRef) (flags : cylinderflags_t) (stack : Bool)
    (x : ItemRef) : Search :=
  if !stack then
    let n := ((s.capacity x : ℤ) - s.size x) % 4294967296
    match s.searchFree x y flags n.toNat with
    | some index => .found index none
    | none => .goOn ((s.itemlist x).filter s.isContainer)
  else
    match s.searchStack p y 0 [] (s.itemlist x) with
    | ((n, some tmpItem), _) => .found n (some tmpItem)
    | ((n, none), containers) =>
      if n < s.capacity x ∧
          s.containerQueryAdd x n y (s.getItemCount y) flags false = NOERROR then
        .found n none
      else .goOn containers

def searchContainers (p : PlayerRef) (y : ItemRef) (flags : cylinderflags_t) (stack : Bool) :
    ℕ → List ItemRef → Option (ItemRef × ℤ × Option ItemRef)
  | 0, _ => none
  | _, [] => none
  | fuel + 1, x :: containers =>
    match s.searchContainer p y flags stack x with
    | .found index destItem => some (x, index, destItem)
    | .goOn more => searchContainers p y flags stack fuel (containers ++ more)

def playerQueryDestination (p : PlayerRef) (index : ℤ) (y : ItemRef) (destItem : Option ItemRef)
    (flags : cylinderflags_t) : Destination :=
  if index = 0 ∨ index = INDEX_WHEREEVER then
    let stack := !flags.FLAG_IGNOREAUTOSTACK && s.isStackable y
    match s.searchSlots p y flags stack [] slots with
    | .found slot destItem => ⟨.player p, slot, destItem, flags⟩
    | .goOn containers =>
      match s.searchContainers p y flags stack s.depth containers with
      | some (x, place, destItem) => ⟨.container x, place, destItem, flags⟩
      | none => ⟨.player p, index, none, flags⟩
  else
    match s.getInventoryItem p index with
    | some d =>
      if s.isContainer d then ⟨.container d, INDEX_WHEREEVER, none, flags⟩
      else ⟨.player p, index, some d, flags⟩
    | none => ⟨.player p, index, destItem, flags⟩

/-! ## Operations -/

def playerAddThing (p : PlayerRef) (index : ℤ) (y : ItemRef) : State :=
  if index < CONST_SLOT_FIRST ∨ index > CONST_SLOT_LAST then s
  else
    let s := s.setParent y (some (.player p))
    s.setSlot p index.toNat (some y)

def playerUpdateThing (p : PlayerRef) (y : ItemRef) (itemId count : ℕ) : State :=
  if s.playerThingIndex p y = -1 then s
  else
    let s := s.updateItem y itemId count
    s.onUpdateInventoryItem p y

def playerRemoveThing (p : PlayerRef) (y : ItemRef) (count : ℕ) : State :=
  let index := s.playerThingIndex p y
  if index = -1 then s
  else if s.isStackable y ∧ count ≠ s.getItemCount y then
    let s := s.setCount y (s.remainingCount y count)
    s.onUpdateInventoryItem p y
  else
    let s := s.onRemoveInventoryItem p y
    let s := s.setParent y none
    s.setSlot p index.toNat none

end State

end TibiaServer.Cylinders
