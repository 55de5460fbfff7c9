import TibiaServer.IOMapSerialize.PropStream
import TibiaServer.Tiles.Tile
/-!
# Items with their attributes and contents

The items of this part are values: an object with its attributes, and for a container the
trees of what it holds.  An attribute is an `int32_t` or a text, and a text that is empty is
not there, for `setStrAttr` does not set one.
-/

namespace TibiaServer.IOMapSerialize

open Cylinders (itemAttrTypes)
open Cylinders.itemAttrTypes
open Tiles (ItemClass)

/-- A row of the table of item types. -/
structure ItemType extends toTileType : Tiles.ItemType where
  canWriteText : Bool := false
  writeOnceItemId : UInt16 := 0

namespace ItemType

def isDoor (it : ItemType) : Bool := it.type = .ITEM_TYPE_DOOR

def hasSubType (it : ItemType) : Bool :=
  it.isFluidContainer || it.isSplash || it.stackable || it.charges ≠ 0

end ItemType

inductive ItemDecayState_t
  | DECAYING_FALSE
  | DECAYING_TRUE
  | DECAYING_PENDING
  deriving DecidableEq, Repr

namespace ItemDecayState_t

def code : ItemDecayState_t → ℕ
  | DECAYING_FALSE => 0
  | DECAYING_TRUE => 1
  | DECAYING_PENDING => 2

/-- Another byte is neither of the two states that are asked for. -/
def ofCode (n : ℕ) : ItemDecayState_t :=
  if n = 1 then DECAYING_TRUE else if n = 2 then DECAYING_PENDING else DECAYING_FALSE

end ItemDecayState_t

def isStrAttrType : itemAttrTypes → Bool
  | ITEM_ATTRIBUTE_DESCRIPTION | ITEM_ATTRIBUTE_TEXT | ITEM_ATTRIBUTE_WRITER
  | ITEM_ATTRIBUTE_NAME | ITEM_ATTRIBUTE_ARTICLE | ITEM_ATTRIBUTE_PLURALNAME => true
  | _ => false

def isIntAttrType (type : itemAttrTypes) : Bool := !isStrAttrType type

/-- An object without what it contains, and with what the classes add. -/
@[ext]
structure Item where
  itemClass : ItemClass
  id : UInt16
  count : UInt8 := 1
  integer : itemAttrTypes → Option (BitVec 32) := fun _ => none
  string : itemAttrTypes → List UInt8 := fun _ => []
  sleeperGUID : UInt32 := 0
  sleepStart : UInt64 := 0
  destPos : World.Position := {}
  depotId : UInt16 := 0
  serializationCount : ℕ := 0

namespace Item

/-! ## Attributes -/

section Attributes

variable (type : itemAttrTypes) (item : Item)

def hasAttribute : Bool :=
  if isStrAttrType type then item.string type ≠ [] else (item.integer type).isSome

def getStrAttr : List UInt8 := if isStrAttrType type then item.string type else []

def setStrAttr (value : List UInt8) : Item :=
  if !isStrAttrType type then item
  else if value = [] then item
  else { item with string := Function.update item.string type value }

def getIntAttr : BitVec 32 := if isIntAttrType type then (item.integer type).getD 0 else 0

def setIntAttr (value : BitVec 32) : Item :=
  if !isIntAttrType type then item
  else { item with integer := Function.update item.integer type (some value) }

def removeAttribute : Item :=
  { item with
    integer := Function.update item.integer type none
    string := Function.update item.string type [] }

end Attributes

section

variable (item : Item)

def getText : List UInt8 := item.getStrAttr ITEM_ATTRIBUTE_TEXT
def setText (text : List UInt8) : Item := item.setStrAttr ITEM_ATTRIBUTE_TEXT text
def resetText : Item := item.removeAttribute ITEM_ATTRIBUTE_TEXT
def getDate : BitVec 32 := item.getIntAttr ITEM_ATTRIBUTE_DATE
def setDate (n : BitVec 32) : Item := item.setIntAttr ITEM_ATTRIBUTE_DATE n
def resetDate : Item := item.removeAttribute ITEM_ATTRIBUTE_DATE
def getWriter : List UInt8 := item.getStrAttr ITEM_ATTRIBUTE_WRITER
def setWriter (writer : List UInt8) : Item := item.setStrAttr ITEM_ATTRIBUTE_WRITER writer
def resetWriter : Item := item.removeAttribute ITEM_ATTRIBUTE_WRITER
def getSpecialDescription : List UInt8 := item.getStrAttr ITEM_ATTRIBUTE_DESCRIPTION

def setSpecialDescription (desc : List UInt8) : Item :=
  item.setStrAttr ITEM_ATTRIBUTE_DESCRIPTION desc

/-- The `uint16_t` in an attribute. -/
def getUInt16 (type : itemAttrTypes) : ℕ := (item.getIntAttr type).toNat % 65536

def getActionId : ℕ := item.getUInt16 ITEM_ATTRIBUTE_ACTIONID

def setActionId (n : ℕ) : Item :=
  item.setIntAttr ITEM_ATTRIBUTE_ACTIONID (.ofNat 32 (if n < 100 then 100 else n))

def getCharges : ℕ := item.getUInt16 ITEM_ATTRIBUTE_CHARGES
def setCharges (n : ℕ) : Item := item.setIntAttr ITEM_ATTRIBUTE_CHARGES (.ofNat 32 (n % 65536))
def getFluidType : ℕ := item.getUInt16 ITEM_ATTRIBUTE_FLUIDTYPE
def setFluidType (n : ℕ) : Item := item.setIntAttr ITEM_ATTRIBUTE_FLUIDTYPE (.ofNat 32 (n % 65536))
def setItemCount (n : ℕ) : Item := { item with count := UInt8.ofNat n }
def getDuration : BitVec 32 := item.getIntAttr ITEM_ATTRIBUTE_DURATION
def setDuration (time : BitVec 32) : Item := item.setIntAttr ITEM_ATTRIBUTE_DURATION time

def getDecaying : ItemDecayState_t :=
  .ofCode ((item.getIntAttr ITEM_ATTRIBUTE_DECAYSTATE).toNat % 256)

def setDecaying (decayState : ItemDecayState_t) : Item :=
  item.setIntAttr ITEM_ATTRIBUTE_DECAYSTATE (.ofNat 32 decayState.code)

/-- `setCorpseOwner` gives a reward corpse the largest `int32_t`. -/
def isRewardCorpse : Bool := item.getIntAttr ITEM_ATTRIBUTE_CORPSEOWNER = 2147483647

def getDoor : Bool := item.itemClass = .Door

def getBed : Bool :=
  match item.itemClass with
  | .BedItem _ => true
  | _ => false

/-- Whether `getContainer` gives one. -/
def isContainer : Bool :=
  match item.itemClass with
  | .Container | .DepotLocker | .DepotChest | .Inbox | .RewardChest | .Reward => true
  | _ => false

def canTransform : Bool := item.itemClass ≠ .HouseTransferItem

end

/-! ## Subtypes, ids and new items -/

variable (types : ℕ → ItemType) (item : Item)

def type : ItemType := types item.id.toNat

def getSubType : ℕ :=
  let it := item.type types
  if it.isFluidContainer || it.isSplash then item.getFluidType
  else if it.stackable then item.count.toNat
  else if it.charges ≠ 0 then item.getCharges
  else item.count.toNat

def setSubType (n : ℕ) : Item :=
  let it := item.type types
  if it.isFluidContainer || it.isSplash then item.setFluidType n
  else if it.stackable then item.setItemCount n
  else if it.charges ≠ 0 then item.setCharges n
  else item.setItemCount n

def setDefaultSubtype : Item :=
  let it := item.type types
  let item := item.setItemCount 1
  if it.charges ≠ 0 then
    if it.stackable then item.setItemCount it.charges else item.setCharges it.charges
  else item

def getDefaultDuration : BitVec 32 := .ofNat 32 ((item.type types).decayTime * 1000)

def setDefaultDuration : Item :=
  let duration := item.getDefaultDuration types
  if duration ≠ 0 then item.setDuration duration else item

def setID (newid : UInt16) : Item :=
  let prevIt := item.type types
  let item := { item with id := newid }
  let it := item.type types
  let newDuration := item.getDefaultDuration types
  let item :=
    if newDuration = 0 ∧ !it.stopTime ∧ it.decayTo < 0 then
      (item.removeAttribute ITEM_ATTRIBUTE_DECAYSTATE).removeAttribute ITEM_ATTRIBUTE_DURATION
    else item
  let item :=
    if !item.isRewardCorpse then item.removeAttribute ITEM_ATTRIBUTE_CORPSEOWNER else item
  if newDuration ≠ 0 ∧ (!prevIt.stopTime ∨ !item.hasAttribute ITEM_ATTRIBUTE_DURATION) then
    (item.setDecaying .DECAYING_FALSE).setDuration newDuration
  else item

/-- `Item::Item(type, count)`, which the constructor of each class calls. -/
def ofType (itemClass : ItemClass) (id : UInt16) (count : ℕ) : Item :=
  let it := types id.toNat
  let item : Item := { itemClass := itemClass, id := id }
  let item :=
    if it.isFluidContainer || it.isSplash then item.setFluidType count
    else if it.stackable then
      if count ≠ 0 then item.setItemCount count
      else if it.charges ≠ 0 then item.setItemCount it.charges
      else item
    else if it.charges ≠ 0 then
      if count ≠ 0 then item.setCharges count else item.setCharges it.charges
    else item
  item.setDefaultDuration types

/-- The bytes of a text of the source. -/
def textBytes (text : String) : List UInt8 := text.toList.map fun c => UInt8.ofNat c.toNat

/-- `BedItem::internalRemoveSleeper`. -/
def internalRemoveSleeper : Item :=
  { item with sleeperGUID := 0, sleepStart := 0 }.setSpecialDescription
    (textBytes "Nobody is sleeping there.")

def CreateItem (type : UInt16) (count : ℕ) : Option Item :=
  let it := types type.toNat
  if it.group = .ITEM_GROUP_DEPRECATED then none
  else
    let count := if it.stackable && count == 0 then 1 else count
    if it.id = 0 then none
    else
      match Tiles.Item.createdClass it.toTileType with
      | .Item => some (ofType types .Item (UInt16.ofNat (Cylinders.createdId it.id)) count)
      | .BedItem hasHouse => some (ofType types (.BedItem hasHouse) type 0).internalRemoveSleeper
      | itemClass => some (ofType types itemClass type 0)

end Item

/-- An item and, if it is a container, what it holds. -/
inductive ItemTree
  | mk (item : Item) (itemlist : List ItemTree)

namespace ItemTree

def item : ItemTree → Item
  | .mk item _ => item

def itemlist : ItemTree → List ItemTree
  | .mk _ itemlist => itemlist

mutual

def map (f : Item → Item) : ItemTree → ItemTree
  | .mk item itemlist => .mk (f item) (mapAll f itemlist)

def mapAll (f : Item → Item) : List ItemTree → List ItemTree
  | [] => []
  | x :: rest => map f x :: mapAll f rest

end

/-- `p` of every item and what is in it. -/
inductive Forall (p : Item → List ItemTree → Prop) : ItemTree → Prop
  | mk {item : Item} {itemlist : List ItemTree} (here : p item itemlist)
      (inside : ∀ x ∈ itemlist, Forall p x) : Forall p (.mk item itemlist)

theorem mapAll_eq (f : Item → Item) (l : List ItemTree) : mapAll f l = l.map (map f) := by
  induction l with
  | nil => rfl
  | cons x rest ih => rw [mapAll, ih, List.map_cons]

theorem forall_mk {p : Item → List ItemTree → Prop} {item : Item} {itemlist : List ItemTree} :
    Forall p (.mk item itemlist) ↔ p item itemlist ∧ ∀ x ∈ itemlist, Forall p x := by
  constructor
  · rintro ⟨here, inside⟩
    exact ⟨here, inside⟩
  · rintro ⟨here, inside⟩
    exact ⟨here, inside⟩

end ItemTree

end TibiaServer.IOMapSerialize
