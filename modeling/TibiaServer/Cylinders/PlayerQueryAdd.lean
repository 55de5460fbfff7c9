import TibiaServer.Cylinders.Places
import TibiaServer.Enums
/-!
# What a player accepts

`Player::queryAdd`: capacity when a container that he carries asks, and the rules
of the equipment slots otherwise.  A slot with another item in it asks for an
exchange.
-/

namespace TibiaServer.Cylinders

open ReturnValue

/-- The bits of `cylinderflags_t` that the queries about items read. -/
structure cylinderflags_t where
  FLAG_NOLIMIT : Bool := false
  FLAG_IGNOREBLOCKITEM : Bool := false
  FLAG_IGNOREBLOCKCREATURE : Bool := false
  FLAG_CHILDISOWNER : Bool := false
  FLAG_IGNORENOTMOVEABLE : Bool := false
  FLAG_IGNOREAUTOSTACK : Bool := false
  deriving DecidableEq, Repr

def CONST_SLOT_HEAD : ℤ := 1
def CONST_SLOT_NECKLACE : ℤ := 2
def CONST_SLOT_BACKPACK : ℤ := 3
def CONST_SLOT_ARMOR : ℤ := 4
def CONST_SLOT_RIGHT : ℤ := 5
def CONST_SLOT_LEFT : ℤ := 6
def CONST_SLOT_LEGS : ℤ := 7
def CONST_SLOT_FEET : ℤ := 8
def CONST_SLOT_RING : ℤ := 9
def CONST_SLOT_AMMO : ℤ := 10

namespace State

variable (s : State)

/-- `inventory[index]`, null outside the slots. -/
def getInventoryItem (p : PlayerRef) (index : ℤ) : Option ItemRef :=
  if 1 ≤ index ∧ index ≤ 11 then (s.player p).inventory index.toNat else none

def getFreeCapacity (p : PlayerRef) : UInt32 :=
  let player := s.player p
  if player.cannotPickupItem then 0
  else if player.hasInfiniteCapacity then 4294967295
  else UInt32.ofNat (max 0 (toInt32 (player.capacity - player.inventoryWeight).toNat)).toNat

def hasCapacity (p : PlayerRef) (x : ItemRef) (count : ℕ) : Bool :=
  if (s.player p).cannotPickupItem then false
  else if (s.player p).hasInfiniteCapacity ∨ s.getTopParent x = some (.player p) then true
  else
    let itemWeight := if s.isContainer x then s.getWeight x else s.getBaseWeight x
    let itemWeight := if s.isStackable x then itemWeight * UInt32.ofNat count else itemWeight
    itemWeight ≤ s.getFreeCapacity p

/-- Before the slot is looked at. -/
def dressedAnywhere (x : ItemRef) : ReturnValue :=
  let slotPosition := (s.typeOf x).slotPosition
  if slotPosition.SLOTP_HEAD || slotPosition.SLOTP_NECKLACE || slotPosition.SLOTP_BACKPACK ||
      slotPosition.SLOTP_ARMOR || slotPosition.SLOTP_LEGS || slotPosition.SLOTP_FEET ||
      slotPosition.SLOTP_RING then CANNOTBEDRESSED
  else if slotPosition.SLOTP_TWO_HAND then PUTTHISOBJECTINBOTHHANDS
  else if slotPosition.SLOTP_RIGHT || slotPosition.SLOTP_LEFT then
    if !s.classicEquipmentSlots then CANNOTBEDRESSED else PUTTHISOBJECTINYOURHAND
  else NOERROR

/-- What one hand may hold next to the other, with classic slots. -/
def besideHand (x : ItemRef) (count : ℕ) (otherItem : Option ItemRef) : ReturnValue :=
  if (s.typeOf x).slotPosition.SLOTP_TWO_HAND then
    if otherItem.any (· ≠ x) then BOTHHANDSNEEDTOBEFREE else NOERROR
  else
    match otherItem with
    | none => NOERROR
    | some other =>
      let type := (s.typeOf x).weaponType
      let otherType := (s.typeOf other).weaponType
      if (s.typeOf other).slotPosition.SLOTP_TWO_HAND then DROPTWOHANDEDITEM
      else if x = other ∧ count = s.getItemCount x then NOERROR
      else if otherType = .WEAPON_SHIELD ∧ type = .WEAPON_SHIELD then CANONLYUSEONESHIELD
      else if otherType = .WEAPON_NONE ∨ type = .WEAPON_NONE ∨ otherType = .WEAPON_SHIELD ∨
          otherType = .WEAPON_AMMO ∨ type = .WEAPON_SHIELD ∨ type = .WEAPON_AMMO then NOERROR
      else CANONLYUSEONEWEAPON

def dressedRight (p : PlayerRef) (x : ItemRef) (count : ℕ) : ReturnValue :=
  let leftItem := s.getInventoryItem p CONST_SLOT_LEFT
  let slotPosition := (s.typeOf x).slotPosition
  if !slotPosition.SLOTP_RIGHT then s.dressedAnywhere x
  else if !s.classicEquipmentSlots then
    if (s.typeOf x).weaponType ≠ .WEAPON_SHIELD then CANNOTBEDRESSED
    else if leftItem.any fun left =>
        (s.typeOf left).slotPosition.SLOTP_TWO_HAND || slotPosition.SLOTP_TWO_HAND then
      BOTHHANDSNEEDTOBEFREE
    else NOERROR
  else s.besideHand x count leftItem

def dressedLeft (p : PlayerRef) (x : ItemRef) (count : ℕ) : ReturnValue :=
  let rightItem := s.getInventoryItem p CONST_SLOT_RIGHT
  let slotPosition := (s.typeOf x).slotPosition
  if !slotPosition.SLOTP_LEFT then s.dressedAnywhere x
  else if !s.classicEquipmentSlots then
    let type := (s.typeOf x).weaponType
    if type = .WEAPON_NONE ∨ type = .WEAPON_SHIELD then CANNOTBEDRESSED
    else if rightItem.isSome ∧ slotPosition.SLOTP_TWO_HAND then BOTHHANDSNEEDTOBEFREE
    else NOERROR
  else s.besideHand x count rightItem

/-- The switch over the slots. -/
def dressed (p : PlayerRef) (index : ℤ) (x : ItemRef) (count : ℕ) : ReturnValue :=
  let slotPosition := (s.typeOf x).slotPosition
  let only (bit : Bool) := if bit then NOERROR else s.dressedAnywhere x
  if index = CONST_SLOT_HEAD then only slotPosition.SLOTP_HEAD
  else if index = CONST_SLOT_NECKLACE then only slotPosition.SLOTP_NECKLACE
  else if index = CONST_SLOT_BACKPACK then only slotPosition.SLOTP_BACKPACK
  else if index = CONST_SLOT_ARMOR then only slotPosition.SLOTP_ARMOR
  else if index = CONST_SLOT_RIGHT then s.dressedRight p x count
  else if index = CONST_SLOT_LEFT then s.dressedLeft p x count
  else if index = CONST_SLOT_LEGS then only slotPosition.SLOTP_LEGS
  else if index = CONST_SLOT_FEET then only slotPosition.SLOTP_FEET
  else if index = CONST_SLOT_RING then only slotPosition.SLOTP_RING
  else if index = CONST_SLOT_AMMO then only (slotPosition.SLOTP_AMMO || s.classicEquipmentSlots)
  else if index = 0 ∨ index = INDEX_WHEREEVER then NOTENOUGHROOM
  else NOTPOSSIBLE

/-- `Player::queryAdd`, with scripts that let everything be equipped. -/
def playerQueryAdd (p : PlayerRef) (index : ℤ) (x : ItemRef) (count : ℕ)
    (flags : cylinderflags_t) : ReturnValue :=
  if flags.FLAG_CHILDISOWNER then
    if flags.FLAG_NOLIMIT || s.hasCapacity p x count then NOERROR else NOTENOUGHCAPACITY
  else if !(s.typeOf x).pickupable then CANNOTPICKUP
  else
    let ret := s.dressed p index x count
    if ret = NOERROR ∨ ret = NOTENOUGHROOM then
      if (s.getInventoryItem p index).any fun y =>
          !s.isStackable y || (s.item y).id ≠ (s.item x).id then NEEDEXCHANGE
      else if !s.hasCapacity p x count then NOTENOUGHCAPACITY
      else ret
    else ret

end State

end TibiaServer.Cylinders
