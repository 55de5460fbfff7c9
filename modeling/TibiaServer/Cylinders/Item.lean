import Mathlib.Data.Fintype.Pi
import TibiaServer.World.Position
/-!
# Items

An item has an id into the table of item types, a count of one byte and
attributes.  Two stacks merge when `Item.equals` holds of them: same id, same
attributes.  `setID` and `setSubType`, which a merge calls on the stack that
stays, can change the attributes of a type that decays.
-/

namespace TibiaServer.Cylinders

open TibiaServer.World (Position)

/-- Items and containers are pointers, so an `ItemRef` stands for an object. -/
abbrev ItemRef := ℕ

abbrev PlayerRef := ℕ

inductive itemgroup_t
  | ITEM_GROUP_NONE
  | ITEM_GROUP_GROUND
  | ITEM_GROUP_CONTAINER
  | ITEM_GROUP_CHARGES
  | ITEM_GROUP_SPLASH
  | ITEM_GROUP_FLUID
  | ITEM_GROUP_DEPRECATED
  deriving DecidableEq, Repr

inductive ItemTypes_t
  | ITEM_TYPE_NONE
  | ITEM_TYPE_DEPOT
  | ITEM_TYPE_MAILBOX
  | ITEM_TYPE_TRASHHOLDER
  | ITEM_TYPE_CONTAINER
  | ITEM_TYPE_DOOR
  | ITEM_TYPE_MAGICFIELD
  | ITEM_TYPE_TELEPORT
  | ITEM_TYPE_BED
  | ITEM_TYPE_KEY
  | ITEM_TYPE_RUNE
  | ITEM_TYPE_REWARDCHEST
  deriving DecidableEq, Repr

inductive WeaponType_t
  | WEAPON_NONE
  | WEAPON_SWORD
  | WEAPON_CLUB
  | WEAPON_AXE
  | WEAPON_SHIELD
  | WEAPON_DISTANCE
  | WEAPON_WAND
  | WEAPON_AMMO
  deriving DecidableEq, Repr

/-- The bits of `slotPosition`. -/
structure SlotPositionBits where
  SLOTP_HEAD : Bool := false
  SLOTP_NECKLACE : Bool := false
  SLOTP_BACKPACK : Bool := false
  SLOTP_ARMOR : Bool := false
  SLOTP_RIGHT : Bool := false
  SLOTP_LEFT : Bool := false
  SLOTP_LEGS : Bool := false
  SLOTP_FEET : Bool := false
  SLOTP_RING : Bool := false
  SLOTP_AMMO : Bool := false
  SLOTP_TWO_HAND : Bool := false
  deriving DecidableEq, Repr

/-- The types that `Item::CreateItem` turns into another one. -/
def createdId (type : ℕ) : ℕ :=
  if 2210 ≤ type ∧ type ≤ 2212 then type - 3
  else if type = 2215 ∨ type = 2216 then type - 2
  else if 2202 ≤ type ∧ type ≤ 2206 then type - 37
  else if type = 2640 then 6132
  else if type = 6301 then 6300
  else type

/-- A row of the table of item types.  The last field is what data/items/items.otb
and items.xml make of a stackable type: a thing of no group, a rune at most. -/
structure ItemType where
  id : ℕ
  group : itemgroup_t := .ITEM_GROUP_NONE
  type : ItemTypes_t := .ITEM_TYPE_NONE
  stackable : Bool := false
  moveable : Bool := false
  pickupable : Bool := false
  alwaysOnTop : Bool := false
  alwaysOnTopOrder : ℕ := 0
  isHangable : Bool := false
  isVertical : Bool := false
  isHorizontal : Bool := false
  blockSolid : Bool := false
  hasHeight : Bool := false
  allowPickupable : Bool := false
  replaceable : Bool := true
  stopTime : Bool := false
  floorChange : BitVec 32 := 0
  slotPosition : SlotPositionBits := {}
  weaponType : WeaponType_t := .WEAPON_NONE
  weight : UInt32 := 0
  charges : ℕ := 0
  decayTime : ℕ := 0
  decayTo : ℤ := -1
  stackable_plain : stackable = true →
    group = .ITEM_GROUP_NONE ∧ (type = .ITEM_TYPE_NONE ∨ type = .ITEM_TYPE_RUNE) ∧
      alwaysOnTop = false ∧ createdId id = id := by decide

namespace ItemType

def isGroundTile (it : ItemType) : Bool := it.group = .ITEM_GROUP_GROUND
def isSplash (it : ItemType) : Bool := it.group = .ITEM_GROUP_SPLASH
def isFluidContainer (it : ItemType) : Bool := it.group = .ITEM_GROUP_FLUID
def isMagicField (it : ItemType) : Bool := it.type = .ITEM_TYPE_MAGICFIELD
def isBed (it : ItemType) : Bool := it.type = .ITEM_TYPE_BED

end ItemType

inductive itemAttrTypes
  | ITEM_ATTRIBUTE_ACTIONID
  | ITEM_ATTRIBUTE_UNIQUEID
  | ITEM_ATTRIBUTE_DESCRIPTION
  | ITEM_ATTRIBUTE_TEXT
  | ITEM_ATTRIBUTE_DATE
  | ITEM_ATTRIBUTE_WRITER
  | ITEM_ATTRIBUTE_NAME
  | ITEM_ATTRIBUTE_ARTICLE
  | ITEM_ATTRIBUTE_PLURALNAME
  | ITEM_ATTRIBUTE_WEIGHT
  | ITEM_ATTRIBUTE_ATTACK
  | ITEM_ATTRIBUTE_DEFENSE
  | ITEM_ATTRIBUTE_EXTRADEFENSE
  | ITEM_ATTRIBUTE_ARMOR
  | ITEM_ATTRIBUTE_HITCHANCE
  | ITEM_ATTRIBUTE_SHOOTRANGE
  | ITEM_ATTRIBUTE_OWNER
  | ITEM_ATTRIBUTE_DURATION
  | ITEM_ATTRIBUTE_DECAYSTATE
  | ITEM_ATTRIBUTE_CORPSEOWNER
  | ITEM_ATTRIBUTE_CHARGES
  | ITEM_ATTRIBUTE_FLUIDTYPE
  | ITEM_ATTRIBUTE_DOORID
  deriving DecidableEq, Repr

instance : Fintype itemAttrTypes where
  elems := ⟨(List.range 23).map fun n => (itemAttrTypes.ofNat n), by decide⟩
  complete := by
    intro type
    cases type <;> decide

inductive AttributeValue
  | integer (n : ℤ)
  | string (text : String)
  deriving DecidableEq, Repr

/-- At most one value for each type; `attributeBits` says for which. -/
abbrev ItemAttributes := itemAttrTypes → Option AttributeValue

/-- The place that a pointer to a cylinder stands for. -/
inductive Cylinder
  | player (p : PlayerRef)
  | container (x : ItemRef)
  | tile (t : Position)
  deriving DecidableEq, Repr

inductive ContainerKind
  | Container
  | Inbox
  | DepotChest
  | DepotLocker
  | RewardChest
  | Reward
  deriving DecidableEq, Repr

structure Container where
  kind : ContainerKind := .Container
  maxSize : ℕ
  unlocked : Bool := true
  itemlist : List ItemRef := []
  totalWeight : UInt32 := 0
  maxDepotItems : ℕ := 5000

structure Item where
  id : ℕ
  count : ℕ := 1
  attributes : Option ItemAttributes := none
  parent : Option Cylinder := none
  container : Option Container := none

/-- The low 32 bits, read as an `int32_t`. -/
def toInt32 (n : ℤ) : ℤ := n.bmod 4294967296

namespace Item

open itemAttrTypes

variable (items : ℕ → ItemType)

def hasAttribute (type : itemAttrTypes) (item : Item) : Bool :=
  match item.attributes with
  | some attributes => (attributes type).isSome
  | none => false

def getIntAttr (type : itemAttrTypes) (item : Item) : ℤ :=
  match item.attributes with
  | some attributes =>
    match attributes type with
    | some (.integer n) => toInt32 n
    | _ => 0
  | none => 0

def setIntAttr (type : itemAttrTypes) (value : ℤ) (item : Item) : Item :=
  { item with
    attributes := some (Function.update (item.attributes.getD fun _ => none) type
      (some (.integer value))) }

def removeAttribute (type : itemAttrTypes) (item : Item) : Item :=
  { item with attributes := item.attributes.map (Function.update · type none) }

def setItemCount (n : ℕ) (item : Item) : Item := { item with count := n % 256 }

def setFluidType (n : ℕ) (item : Item) : Item :=
  item.setIntAttr ITEM_ATTRIBUTE_FLUIDTYPE (n % 65536 : ℕ)

def setCharges (n : ℕ) (item : Item) : Item :=
  item.setIntAttr ITEM_ATTRIBUTE_CHARGES (n % 65536 : ℕ)

def isRewardCorpse (item : Item) : Bool :=
  item.getIntAttr ITEM_ATTRIBUTE_CORPSEOWNER = 2147483647

def equals (item otherItem : Item) : Bool :=
  item.id = otherItem.id ∧ item.attributes = otherItem.attributes

def setSubType (n : ℕ) (item : Item) : Item :=
  let it := items item.id
  if it.isFluidContainer || it.isSplash then item.setFluidType n
  else if it.stackable then item.setItemCount n
  else if it.charges ≠ 0 then item.setCharges n
  else item.setItemCount n

/-- A type that does not decay has neither duration nor decay state. -/
def dropDecay (it : ItemType) (item : Item) : Item :=
  if it.decayTime * 1000 % 4294967296 = 0 ∧ !it.stopTime ∧ it.decayTo < 0 then
    (item.removeAttribute ITEM_ATTRIBUTE_DECAYSTATE).removeAttribute ITEM_ATTRIBUTE_DURATION
  else item

def dropCorpseOwner (item : Item) : Item :=
  if !item.isRewardCorpse then item.removeAttribute ITEM_ATTRIBUTE_CORPSEOWNER else item

/-- A type that decays starts over, unless it and the former one stop the time. -/
def renewDuration (prevIt it : ItemType) (item : Item) : Item :=
  if it.decayTime * 1000 % 4294967296 > 0 ∧
      (!prevIt.stopTime ∨ !item.hasAttribute ITEM_ATTRIBUTE_DURATION) then
    (item.setIntAttr ITEM_ATTRIBUTE_DECAYSTATE 0).setIntAttr ITEM_ATTRIBUTE_DURATION
      (toInt32 (it.decayTime * 1000))
  else item

def setID (newid : ℕ) (item : Item) : Item :=
  let prevIt := items item.id
  let it := items newid
  renewDuration prevIt it (dropCorpseOwner (dropDecay it { item with id := newid }))

/-- `Item::Item(type, count)` of a stackable type. -/
def ofStack (id count : ℕ) : Item :=
  let it := items id
  let item : Item := { id := id }
  let item :=
    if count ≠ 0 then item.setItemCount count
    else if it.charges ≠ 0 then item.setItemCount it.charges
    else item
  if it.decayTime * 1000 % 4294967296 ≠ 0 then
    item.setIntAttr ITEM_ATTRIBUTE_DURATION (toInt32 (it.decayTime * 1000))
  else item

/-- `Item::clone` of a stack: null for a type that `CreateItem` does not create. -/
def clone (item : Item) : Option Item :=
  let it := items item.id
  if it.group = .ITEM_GROUP_DEPRECATED ∨ it.id = 0 then none
  else
    let count := if it.stackable && item.count == 0 then 1 else item.count
    let newItem := ofStack items (createdId it.id) count
    some { newItem with attributes := item.attributes.or newItem.attributes }

/-- What two items have in common that count as units of one kind. -/
def kind (item : Item) : ℕ × ItemAttributes :=
  (item.id, item.attributes.getD fun _ => none)

/-- A stack counts for its count and any other item for one. -/
def units (item : Item) : ℕ := if (items item.id).stackable then item.count else 1

@[simp] theorem setItemCount_id (n : ℕ) (item : Item) : (item.setItemCount n).id = item.id :=
  rfl

@[simp] theorem setItemCount_kind (n : ℕ) (item : Item) :
    (item.setItemCount n).kind = item.kind := rfl

@[simp] theorem setItemCount_container (n : ℕ) (item : Item) :
    (item.setItemCount n).container = item.container := rfl

theorem setID_id (newid : ℕ) (item : Item) : (item.setID items newid).id = newid := by
  unfold setID renewDuration dropCorpseOwner dropDecay
  simp only
  split_ifs <;> rfl

theorem setID_container (newid : ℕ) (item : Item) :
    (item.setID items newid).container = item.container := by
  unfold setID renewDuration dropCorpseOwner dropDecay
  simp only
  split_ifs <;> rfl

theorem setID_parent (newid : ℕ) (item : Item) :
    (item.setID items newid).parent = item.parent := by
  unfold setID renewDuration dropCorpseOwner dropDecay
  simp only
  split_ifs <;> rfl

theorem setSubType_parent (n : ℕ) (item : Item) :
    (item.setSubType items n).parent = item.parent := by
  unfold setSubType
  simp only
  split_ifs <;> rfl

theorem setSubType_container (n : ℕ) (item : Item) :
    (item.setSubType items n).container = item.container := by
  unfold setSubType
  simp only
  split_ifs <;> rfl

theorem setSubType_id (n : ℕ) (item : Item) : (item.setSubType items n).id = item.id := by
  unfold setSubType
  simp only
  split_ifs <;> rfl

/-- The kind after `setID` depends on the id and the attributes. -/
theorem kind_setID_congr (newid : ℕ) {item item' : Item} (hid : item'.id = item.id)
    (hattributes : item'.attributes = item.attributes) :
    (item'.setID items newid).kind = (item.setID items newid).kind := by
  obtain ⟨id, count, attributes, parent, container⟩ := item
  obtain ⟨id', count', attributes', parent', container'⟩ := item'
  simp only at hid hattributes
  subst hid hattributes
  unfold setID renewDuration dropCorpseOwner dropDecay isRewardCorpse getIntAttr hasAttribute
  simp only [removeAttribute]
  split_ifs <;> rfl

theorem equals_iff {item otherItem : Item} :
    item.equals otherItem = true ↔
      item.id = otherItem.id ∧ item.attributes = otherItem.attributes := by
  simp [equals]

theorem kind_eq_of_equals {item otherItem : Item} (h : item.equals otherItem = true) :
    item.kind = otherItem.kind := by
  have hboth := equals_iff.mp h
  unfold kind
  rw [hboth.1, hboth.2]

theorem setSubType_of_stackable {item : Item} (h : (items item.id).stackable = true) (n : ℕ) :
    item.setSubType items n = item.setItemCount n := by
  have hgroup := ((items item.id).stackable_plain h).1
  simp [setSubType, ItemType.isFluidContainer, ItemType.isSplash, hgroup, h]

end Item

end TibiaServer.Cylinders
