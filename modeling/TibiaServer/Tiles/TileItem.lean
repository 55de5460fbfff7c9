import TibiaServer.Cylinders.Item
/-!
# The items of a tile and the flags they set

Beside what every item has, a tile looks at the class of an item and at the
properties that block the way.  The flags of a tile are bits of one word:
`setTileFlags` sets those of an item that comes, `resetTileFlags` those of an
item that goes, unless something else on the tile still has the property.
-/

namespace TibiaServer.Tiles

open TibiaServer.Cylinders (ItemRef itemgroup_t ItemTypes_t)

theorem no_floorChange_byte : (0 : BitVec 32).toNat < 256 := by decide

/-- A row of the table of item types; `floorChange` is a `uint8_t`. -/
structure ItemType extends Cylinders.ItemType where
  blockPathFind : Bool := false
  floorChange_byte : floorChange.toNat < 256 := by decide

/-- The class of the object, as far as a tile tells them apart. -/
inductive ItemClass
  | Item
  | Container
  | DepotLocker
  | DepotChest
  | Inbox
  | RewardChest
  | Reward
  | Teleport
  | MagicField
  | Mailbox
  | TrashHolder
  | Door
  | BedItem (hasHouse : Bool)
  | HouseTransferItem
  deriving DecidableEq, Repr

structure Item extends Cylinders.Item where
  itemClass : ItemClass := .Item

inductive ITEMPROPERTY
  | CONST_PROP_BLOCKSOLID
  | CONST_PROP_BLOCKPATH
  | CONST_PROP_IMMOVABLEBLOCKSOLID
  | CONST_PROP_IMMOVABLEBLOCKPATH
  | CONST_PROP_IMMOVABLENOFIELDBLOCKPATH
  | CONST_PROP_NOFIELDBLOCKPATH
  | CONST_PROP_SUPPORTHANGABLE
  deriving DecidableEq, Repr

namespace Item

open ITEMPROPERTY

variable (items : ℕ → ItemType) (item : Item)

def type : ItemType := items item.id

def isAlwaysOnTop : Bool := (item.type items).alwaysOnTop
def alwaysOnTopOrder : ℕ := (item.type items).alwaysOnTopOrder
def isGroundTile : Bool := (item.type items).isGroundTile
def isSplash : Bool := (item.type items).isSplash
def isStackable : Bool := (item.type items).stackable

def getMagicField : Bool := item.itemClass = .MagicField

def canRemove : Bool :=
  match item.itemClass with
  | .DepotLocker | .DepotChest | .Inbox | .RewardChest | .Reward => false
  | .BedItem hasHouse => !hasHouse
  | _ => true

def canTransform : Bool := item.itemClass ≠ .HouseTransferItem

def hasAttribute (type : Cylinders.itemAttrTypes) : Bool := item.toItem.hasAttribute type

/-- `!it.moveable || hasAttribute(ITEM_ATTRIBUTE_UNIQUEID)` -/
def immovable : Bool := !(item.type items).moveable || item.hasAttribute .ITEM_ATTRIBUTE_UNIQUEID

def hasProperty : ITEMPROPERTY → Bool
  | CONST_PROP_BLOCKSOLID => (item.type items).blockSolid
  | CONST_PROP_BLOCKPATH => (item.type items).blockPathFind
  | CONST_PROP_IMMOVABLEBLOCKSOLID => (item.type items).blockSolid && item.immovable items
  | CONST_PROP_IMMOVABLEBLOCKPATH => (item.type items).blockPathFind && item.immovable items
  | CONST_PROP_IMMOVABLENOFIELDBLOCKPATH =>
    !(item.type items).isMagicField && (item.type items).blockPathFind && item.immovable items
  | CONST_PROP_NOFIELDBLOCKPATH =>
    !(item.type items).isMagicField && (item.type items).blockPathFind
  | CONST_PROP_SUPPORTHANGABLE => (item.type items).isHorizontal || (item.type items).isVertical

def setID (newid : ℕ) : Item :=
  { item with toItem := item.toItem.setID (fun id => (items id).toItemType) newid }

def setSubType (n : ℕ) : Item :=
  { item with toItem := item.toItem.setSubType (fun id => (items id).toItemType) n }

def setItemCount (n : ℕ) : Item := { item with toItem := item.toItem.setItemCount n }

@[simp] theorem setID_id (newid : ℕ) : (item.setID items newid).id = newid := by
  simp [setID, Cylinders.Item.setID_id]

@[simp] theorem setItemCount_id (n : ℕ) : (item.setItemCount n).id = item.id := rfl

@[simp] theorem setSubType_id (n : ℕ) : (item.setSubType items n).id = item.id := by
  simp only [setSubType, Cylinders.Item.setSubType, Cylinders.Item.setFluidType,
    Cylinders.Item.setCharges, Cylinders.Item.setIntAttr, Cylinders.Item.setItemCount]
  split_ifs <;> rfl

end Item

/-! ## Flags -/

def TILESTATE_TELEPORT : BitVec 32 := .twoPow 32 11
def TILESTATE_MAGICFIELD : BitVec 32 := .twoPow 32 12
def TILESTATE_MAILBOX : BitVec 32 := .twoPow 32 13
def TILESTATE_TRASHHOLDER : BitVec 32 := .twoPow 32 14
def TILESTATE_BED : BitVec 32 := .twoPow 32 15
def TILESTATE_DEPOT : BitVec 32 := .twoPow 32 16
def TILESTATE_BLOCKSOLID : BitVec 32 := .twoPow 32 17
def TILESTATE_BLOCKPATH : BitVec 32 := .twoPow 32 18
def TILESTATE_IMMOVABLEBLOCKSOLID : BitVec 32 := .twoPow 32 19
def TILESTATE_IMMOVABLEBLOCKPATH : BitVec 32 := .twoPow 32 20
def TILESTATE_IMMOVABLENOFIELDBLOCKPATH : BitVec 32 := .twoPow 32 21
def TILESTATE_NOFIELDBLOCKPATH : BitVec 32 := .twoPow 32 22
def TILESTATE_SUPPORTS_HANGABLE : BitVec 32 := .twoPow 32 23
def TILESTATE_FLOORCHANGE : BitVec 32 := 127

def hasFlag (flags flag : BitVec 32) : Bool := flags &&& flag ≠ 0
def setFlag (flags flag : BitVec 32) : BitVec 32 := flags ||| flag
def resetFlag (flags flag : BitVec 32) : BitVec 32 := flags &&& ~~~flag

/-- `if (b) { setFlag(flag); }` -/
def setIf (b : Bool) (flag flags : BitVec 32) : BitVec 32 :=
  if b then setFlag flags flag else flags

/-- `if (b) { resetFlag(flag); }` -/
def resetIf (b : Bool) (flag flags : BitVec 32) : BitVec 32 :=
  if b then resetFlag flags flag else flags

section

open ITEMPROPERTY

variable (items : ℕ → ItemType) (item : Item) (flags : BitVec 32)

/-- `Tile::setTileFlags`, one test after the other. -/
def setTileFlags : BitVec 32 :=
  let floorChange := (item.type items).floorChange
  let flags := setIf (!hasFlag flags TILESTATE_FLOORCHANGE && floorChange ≠ 0) floorChange flags
  let flags := setIf (item.hasProperty items CONST_PROP_IMMOVABLEBLOCKSOLID)
    TILESTATE_IMMOVABLEBLOCKSOLID flags
  let flags := setIf (item.hasProperty items CONST_PROP_BLOCKPATH) TILESTATE_BLOCKPATH flags
  let flags := setIf (item.hasProperty items CONST_PROP_NOFIELDBLOCKPATH)
    TILESTATE_NOFIELDBLOCKPATH flags
  let flags := setIf (item.hasProperty items CONST_PROP_IMMOVABLENOFIELDBLOCKPATH)
    TILESTATE_IMMOVABLENOFIELDBLOCKPATH flags
  let flags := setIf (item.itemClass = .Teleport) TILESTATE_TELEPORT flags
  let flags := setIf item.getMagicField TILESTATE_MAGICFIELD flags
  let flags := setIf (item.itemClass = .Mailbox) TILESTATE_MAILBOX flags
  let flags := setIf (item.itemClass = .TrashHolder) TILESTATE_TRASHHOLDER flags
  let flags := setIf (item.hasProperty items CONST_PROP_BLOCKSOLID) TILESTATE_BLOCKSOLID flags
  let flags := setIf (item.itemClass = .BedItem true || item.itemClass = .BedItem false)
    TILESTATE_BED flags
  let flags := setIf (item.itemClass = .DepotLocker) TILESTATE_DEPOT flags
  setIf (item.hasProperty items CONST_PROP_SUPPORTHANGABLE) TILESTATE_SUPPORTS_HANGABLE flags

/-- `Tile::resetTileFlags`; `others` is `Tile::hasProperty` with the item
excluded. -/
def resetTileFlags (others : ITEMPROPERTY → Bool) : BitVec 32 :=
  let gone (prop : ITEMPROPERTY) : Bool := item.hasProperty items prop && !others prop
  let flags := resetIf ((item.type items).floorChange ≠ 0) TILESTATE_FLOORCHANGE flags
  let flags := resetIf (gone CONST_PROP_BLOCKSOLID) TILESTATE_BLOCKSOLID flags
  let flags := resetIf (gone CONST_PROP_IMMOVABLEBLOCKSOLID) TILESTATE_IMMOVABLEBLOCKSOLID flags
  let flags := resetIf (gone CONST_PROP_BLOCKPATH) TILESTATE_BLOCKPATH flags
  let flags := resetIf (gone CONST_PROP_NOFIELDBLOCKPATH) TILESTATE_NOFIELDBLOCKPATH flags
  let flags := resetIf (gone CONST_PROP_IMMOVABLEBLOCKPATH) TILESTATE_IMMOVABLEBLOCKPATH flags
  let flags := resetIf (gone CONST_PROP_IMMOVABLENOFIELDBLOCKPATH)
    TILESTATE_IMMOVABLENOFIELDBLOCKPATH flags
  let flags := resetIf (item.itemClass = .Teleport) TILESTATE_TELEPORT flags
  let flags := resetIf item.getMagicField TILESTATE_MAGICFIELD flags
  let flags := resetIf (item.itemClass = .Mailbox) TILESTATE_MAILBOX flags
  let flags := resetIf (item.itemClass = .TrashHolder) TILESTATE_TRASHHOLDER flags
  let flags := resetIf (item.itemClass = .BedItem true || item.itemClass = .BedItem false)
    TILESTATE_BED flags
  let flags := resetIf (item.itemClass = .DepotLocker) TILESTATE_DEPOT flags
  resetIf (item.hasProperty items CONST_PROP_SUPPORTHANGABLE) TILESTATE_SUPPORTS_HANGABLE flags

end

theorem hasFlag_twoPow {i : ℕ} (hi : i < 32) (flags : BitVec 32) :
    hasFlag flags (.twoPow 32 i) = flags.getLsbD i := by
  have hnonzero : BitVec.twoPow 32 i ≠ 0#32 := by
    intro hzero
    have hbit : (BitVec.twoPow 32 i).getLsbD i = false := by
      rw [hzero, BitVec.getLsbD_zero]
    simp [hi] at hbit
  unfold hasFlag
  rw [BitVec.and_twoPow]
  cases flags.getLsbD i <;> simp [hnonzero]

theorem getLsbD_setIf (i : ℕ) (b : Bool) (flag flags : BitVec 32) :
    (setIf b flag flags).getLsbD i = (flags.getLsbD i || (b && flag.getLsbD i)) := by
  cases b <;> simp [setIf, setFlag]

theorem getLsbD_resetIf {i : ℕ} (hi : i < 32) (b : Bool) (flag flags : BitVec 32) :
    (resetIf b flag flags).getLsbD i = (flags.getLsbD i && !(b && flag.getLsbD i)) := by
  cases b <;> simp [resetIf, resetFlag, hi]

/-- The flags that say what is in the way. -/
inductive CollisionFlag
  | BLOCKSOLID
  | IMMOVABLEBLOCKSOLID
  | BLOCKPATH
  | NOFIELDBLOCKPATH
  | IMMOVABLENOFIELDBLOCKPATH
  deriving DecidableEq, Repr

namespace CollisionFlag

open ITEMPROPERTY

def bit : CollisionFlag → ℕ
  | BLOCKSOLID => 17
  | IMMOVABLEBLOCKSOLID => 19
  | BLOCKPATH => 18
  | NOFIELDBLOCKPATH => 22
  | IMMOVABLENOFIELDBLOCKPATH => 21

def flag : CollisionFlag → BitVec 32
  | BLOCKSOLID => TILESTATE_BLOCKSOLID
  | IMMOVABLEBLOCKSOLID => TILESTATE_IMMOVABLEBLOCKSOLID
  | BLOCKPATH => TILESTATE_BLOCKPATH
  | NOFIELDBLOCKPATH => TILESTATE_NOFIELDBLOCKPATH
  | IMMOVABLENOFIELDBLOCKPATH => TILESTATE_IMMOVABLENOFIELDBLOCKPATH

def property : CollisionFlag → ITEMPROPERTY
  | BLOCKSOLID => CONST_PROP_BLOCKSOLID
  | IMMOVABLEBLOCKSOLID => CONST_PROP_IMMOVABLEBLOCKSOLID
  | BLOCKPATH => CONST_PROP_BLOCKPATH
  | NOFIELDBLOCKPATH => CONST_PROP_NOFIELDBLOCKPATH
  | IMMOVABLENOFIELDBLOCKPATH => CONST_PROP_IMMOVABLENOFIELDBLOCKPATH

theorem hasFlag_eq_getLsbD (c : CollisionFlag) (flags : BitVec 32) :
    hasFlag flags c.flag = flags.getLsbD c.bit := by
  have hflag : c.flag = .twoPow 32 c.bit := by
    cases c <;> rfl
  rw [hflag]
  exact hasFlag_twoPow (by cases c <;> decide) flags

/-- A byte has no bit of a collision flag. -/
theorem getLsbD_floorChange (c : CollisionFlag) (type : ItemType) :
    type.floorChange.getLsbD c.bit = false := by
  have hbyte := type.floorChange_byte
  have hpow : 256 ≤ 2 ^ c.bit := by
    cases c <;> decide
  exact Nat.testBit_lt_two_pow (hbyte.trans_le hpow)

theorem getLsbD_FLOORCHANGE (c : CollisionFlag) : TILESTATE_FLOORCHANGE.getLsbD c.bit = false := by
  cases c <;> decide

variable (items : ℕ → ItemType) (item : Item) (flags : BitVec 32)

/-- An item that comes sets the flags of its properties and no others. -/
theorem hasFlag_setTileFlags (c : CollisionFlag) :
    hasFlag (setTileFlags items item flags) c.flag =
      (hasFlag flags c.flag || item.hasProperty items c.property) := by
  rw [hasFlag_eq_getLsbD, hasFlag_eq_getLsbD]
  unfold setTileFlags
  simp only [getLsbD_setIf, getLsbD_floorChange, TILESTATE_IMMOVABLEBLOCKSOLID,
    TILESTATE_BLOCKPATH, TILESTATE_NOFIELDBLOCKPATH, TILESTATE_IMMOVABLENOFIELDBLOCKPATH,
    TILESTATE_TELEPORT, TILESTATE_MAGICFIELD, TILESTATE_MAILBOX, TILESTATE_TRASHHOLDER,
    TILESTATE_BLOCKSOLID, TILESTATE_BED, TILESTATE_DEPOT, TILESTATE_SUPPORTS_HANGABLE]
  cases c <;> simp [bit, property]

/-- An item that goes resets the flags of those of its properties that nothing
else has. -/
theorem hasFlag_resetTileFlags (others : ITEMPROPERTY → Bool) (c : CollisionFlag) :
    hasFlag (resetTileFlags items item flags others) c.flag =
      (hasFlag flags c.flag && !(item.hasProperty items c.property && !others c.property)) := by
  rw [hasFlag_eq_getLsbD, hasFlag_eq_getLsbD]
  have hbit : c.bit < 32 := by
    cases c <;> decide
  unfold resetTileFlags
  simp only [getLsbD_resetIf hbit, getLsbD_FLOORCHANGE, TILESTATE_IMMOVABLEBLOCKSOLID,
    TILESTATE_BLOCKPATH, TILESTATE_NOFIELDBLOCKPATH, TILESTATE_IMMOVABLENOFIELDBLOCKPATH,
    TILESTATE_IMMOVABLEBLOCKPATH, TILESTATE_TELEPORT, TILESTATE_MAGICFIELD, TILESTATE_MAILBOX,
    TILESTATE_TRASHHOLDER, TILESTATE_BLOCKSOLID, TILESTATE_BED, TILESTATE_DEPOT,
    TILESTATE_SUPPORTS_HANGABLE]
  cases c <;> simp [bit, property]

end CollisionFlag

end TibiaServer.Tiles
