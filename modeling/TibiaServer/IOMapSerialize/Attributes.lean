import TibiaServer.IOMapSerialize.Item
import TibiaServer.Library.Fields
/-!
# Attributes in a stream

`serializeAttr` writes a tag and a value for the attributes that an item has, and
`unserializeAttr` reads tags until a zero, the end of the stream or the contents of a
container.  The classes with data of their own read further tags; doors and beds write
nothing of what other items write.
-/

namespace TibiaServer.IOMapSerialize

open Cylinders (itemAttrTypes)
open Cylinders.itemAttrTypes
open Library

inductive AttrTypes_t
  | ATTR_TILE_FLAGS
  | ATTR_ACTION_ID
  | ATTR_UNIQUE_ID
  | ATTR_TEXT
  | ATTR_DESC
  | ATTR_TELE_DEST
  | ATTR_ITEM
  | ATTR_DEPOT_ID
  | ATTR_RUNE_CHARGES
  | ATTR_HOUSEDOORID
  | ATTR_COUNT
  | ATTR_DURATION
  | ATTR_DECAYING_STATE
  | ATTR_WRITTENDATE
  | ATTR_WRITTENBY
  | ATTR_SLEEPERGUID
  | ATTR_SLEEPSTART
  | ATTR_CHARGES
  | ATTR_CONTAINER_ITEMS
  | ATTR_NAME
  | ATTR_ARTICLE
  | ATTR_PLURALNAME
  | ATTR_WEIGHT
  | ATTR_ATTACK
  | ATTR_DEFENSE
  | ATTR_EXTRADEFENSE
  | ATTR_ARMOR
  | ATTR_HITCHANCE
  | ATTR_SHOOTRANGE
  deriving DecidableEq, Repr

namespace AttrTypes_t

def code : AttrTypes_t → UInt8
  | ATTR_TILE_FLAGS => 3
  | ATTR_ACTION_ID => 4
  | ATTR_UNIQUE_ID => 5
  | ATTR_TEXT => 6
  | ATTR_DESC => 7
  | ATTR_TELE_DEST => 8
  | ATTR_ITEM => 9
  | ATTR_DEPOT_ID => 10
  | ATTR_RUNE_CHARGES => 12
  | ATTR_HOUSEDOORID => 14
  | ATTR_COUNT => 15
  | ATTR_DURATION => 16
  | ATTR_DECAYING_STATE => 17
  | ATTR_WRITTENDATE => 18
  | ATTR_WRITTENBY => 19
  | ATTR_SLEEPERGUID => 20
  | ATTR_SLEEPSTART => 21
  | ATTR_CHARGES => 22
  | ATTR_CONTAINER_ITEMS => 23
  | ATTR_NAME => 24
  | ATTR_ARTICLE => 25
  | ATTR_PLURALNAME => 26
  | ATTR_WEIGHT => 27
  | ATTR_ATTACK => 28
  | ATTR_DEFENSE => 29
  | ATTR_EXTRADEFENSE => 30
  | ATTR_ARMOR => 31
  | ATTR_HITCHANCE => 32
  | ATTR_SHOOTRANGE => 33

def all : List AttrTypes_t := (List.range 29).map AttrTypes_t.ofNat

/-- `static_cast<AttrTypes_t>(attr_type)`, and nothing for a byte that is no tag. -/
def ofCode (attr_type : UInt8) : Option AttrTypes_t := all.find? fun attr => attr.code = attr_type

theorem ofCode_code (attr : AttrTypes_t) : ofCode attr.code = some attr := by
  cases attr <;> rfl

theorem code_ne_zero (attr : AttrTypes_t) : attr.code ≠ 0 := by
  cases attr <;> decide

end AttrTypes_t

/-- `ATTR_READ_CONTINUE`, `ATTR_READ_ERROR` and `ATTR_READ_END`. -/
abbrev Attr_ReadValue := Fields.Reading

/-- What loading asks of the rest of the server: the table of item types, the name of a
player, whether a unique id is still free, and what becomes of an item whose time is up. -/
structure Server where
  types : ℕ → ItemType
  getNameByGuid : ℕ → List UInt8
  addUniqueItem : ℕ → Bool
  internalDecayItem : ItemTree → List ItemTree

/-! ## Reading -/

/-- `if (!propStream.read<T>(n)) { return ATTR_READ_ERROR; } set(n);` -/
def readInto (w : ℕ) (set : ℕ → Item → Item) (item : Item) (propStream : PropStream) :
    Attr_ReadValue × Item × PropStream :=
  match propStream.read w with
  | (some n, propStream) => (.more, set n item, propStream)
  | (none, propStream) => (.failed, item, propStream)

/-- The same with `readString`. -/
def readStringInto (set : List UInt8 → Item → Item) (item : Item) (propStream : PropStream) :
    Attr_ReadValue × Item × PropStream :=
  match propStream.readString with
  | (some str, propStream) => (.more, set str item, propStream)
  | (none, propStream) => (.failed, item, propStream)

/-- A second value, unless the first one is not there. -/
def readThen (first second : Item → PropStream → Attr_ReadValue × Item × PropStream) (item : Item)
    (propStream : PropStream) : Attr_ReadValue × Item × PropStream :=
  match first item propStream with
  | (.more, item, propStream) => second item propStream
  | failure => failure

def skipOver (n : ℕ) (item : Item) (propStream : PropStream) :
    Attr_ReadValue × Item × PropStream :=
  match propStream.skip n with
  | (true, propStream) => (.more, item, propStream)
  | (false, propStream) => (.failed, item, propStream)

namespace Item

variable (server : Server)

def setUniqueId (n : ℕ) (item : Item) : Item :=
  if item.hasAttribute ITEM_ATTRIBUTE_UNIQUEID then item
  else if server.addUniqueItem n then item.setIntAttr ITEM_ATTRIBUTE_UNIQUEID (.ofNat 32 n)
  else item

/-- The numbers are unsigned here: `DURATION` is an `int32_t`, and `HITCHANCE` an `int8_t`. -/
def readAttr (attr : AttrTypes_t) (item : Item) (propStream : PropStream) :
    Attr_ReadValue × Item × PropStream :=
  match attr with
  | .ATTR_COUNT | .ATTR_RUNE_CHARGES =>
    readInto 1 (fun count item => item.setSubType server.types count) item propStream
  | .ATTR_ACTION_ID => readInto 2 (fun n item => item.setActionId n) item propStream
  | .ATTR_UNIQUE_ID => readInto 2 (fun n item => item.setUniqueId server n) item propStream
  | .ATTR_TEXT => readStringInto (fun text item => item.setText text) item propStream
  | .ATTR_WRITTENDATE => readInto 4 (fun n item => item.setDate (.ofNat 32 n)) item propStream
  | .ATTR_WRITTENBY => readStringInto (fun writer item => item.setWriter writer) item propStream
  | .ATTR_DESC => readStringInto (fun text item => item.setSpecialDescription text) item propStream
  | .ATTR_CHARGES =>
    readInto 2 (fun charges item => item.setSubType server.types charges) item propStream
  | .ATTR_DURATION =>
    readInto 4
      (fun n item =>
        let duration := BitVec.ofNat 32 n
        item.setDuration (if duration.toInt < 0 then 0 else duration))
      item propStream
  | .ATTR_DECAYING_STATE =>
    readInto 1
      (fun state item =>
        if state ≠ ItemDecayState_t.DECAYING_FALSE.code then item.setDecaying .DECAYING_PENDING
        else item)
      item propStream
  | .ATTR_NAME =>
    readStringInto (fun s item => item.setStrAttr ITEM_ATTRIBUTE_NAME s) item propStream
  | .ATTR_ARTICLE =>
    readStringInto (fun s item => item.setStrAttr ITEM_ATTRIBUTE_ARTICLE s) item propStream
  | .ATTR_PLURALNAME =>
    readStringInto (fun s item => item.setStrAttr ITEM_ATTRIBUTE_PLURALNAME s) item propStream
  | .ATTR_WEIGHT =>
    readInto 4 (fun n item => item.setIntAttr ITEM_ATTRIBUTE_WEIGHT (.ofNat 32 n)) item propStream
  | .ATTR_ATTACK =>
    readInto 4 (fun n item => item.setIntAttr ITEM_ATTRIBUTE_ATTACK (.ofNat 32 n)) item propStream
  | .ATTR_DEFENSE =>
    readInto 4 (fun n item => item.setIntAttr ITEM_ATTRIBUTE_DEFENSE (.ofNat 32 n)) item
      propStream
  | .ATTR_EXTRADEFENSE =>
    readInto 4 (fun n item => item.setIntAttr ITEM_ATTRIBUTE_EXTRADEFENSE (.ofNat 32 n)) item
      propStream
  | .ATTR_ARMOR =>
    readInto 4 (fun n item => item.setIntAttr ITEM_ATTRIBUTE_ARMOR (.ofNat 32 n)) item propStream
  | .ATTR_HITCHANCE =>
    readInto 1
      (fun n item =>
        item.setIntAttr ITEM_ATTRIBUTE_HITCHANCE ((BitVec.ofNat 8 n).signExtend 32))
      item propStream
  | .ATTR_SHOOTRANGE =>
    readInto 1 (fun n item => item.setIntAttr ITEM_ATTRIBUTE_SHOOTRANGE (.ofNat 32 n)) item
      propStream
  | .ATTR_DEPOT_ID => skipOver 2 item propStream
  | .ATTR_HOUSEDOORID => skipOver 1 item propStream
  | .ATTR_SLEEPERGUID => skipOver 4 item propStream
  | .ATTR_SLEEPSTART => skipOver 4 item propStream
  | .ATTR_TELE_DEST => skipOver 5 item propStream
  | .ATTR_CONTAINER_ITEMS => (.failed, item, propStream)
  | .ATTR_TILE_FLAGS | .ATTR_ITEM => (.failed, item, propStream)

/-- The sleeper's name becomes the description, unless the player is gone. -/
def setSleeper (guid : ℕ) (item : Item) : Item :=
  if guid = 0 then item
  else
    let name := server.getNameByGuid guid
    if name = [] then item
    else
      { item with sleeperGUID := UInt32.ofNat guid }.setSpecialDescription
        (name ++ textBytes " is sleeping there.")

/-- `Teleport::readAttr` writes the coordinates as it reads them. -/
def readDestination : Item → PropStream → Attr_ReadValue × Item × PropStream :=
  readThen
    (readInto 2 fun n item => { item with destPos := { item.destPos with x := UInt16.ofNat n } })
    (readThen
      (readInto 2 fun n item => { item with destPos := { item.destPos with y := UInt16.ofNat n } })
      (readInto 1 fun n item => { item with destPos := { item.destPos with z := UInt8.ofNat n } }))

/-- `readAttr` of the class of the object. -/
def readClassAttr (attr : AttrTypes_t) (item : Item) (propStream : PropStream) :
    Attr_ReadValue × Item × PropStream :=
  match attr with
  | .ATTR_CONTAINER_ITEMS =>
    -- `DepotLocker::readAttr` goes past the one of its base class.
    if item.isContainer && item.itemClass ≠ .DepotLocker then
      match propStream.read 4 with
      | (some n, propStream) => (.finished, { item with serializationCount := n }, propStream)
      | (none, propStream) => (.failed, item, propStream)
    else item.readAttr server attr propStream
  | .ATTR_DEPOT_ID =>
    if item.itemClass = .DepotLocker then
      readInto 2 (fun n item => { item with depotId := UInt16.ofNat n }) item propStream
    else item.readAttr server attr propStream
  | .ATTR_HOUSEDOORID =>
    if item.getDoor then
      readInto 1 (fun n item => item.setIntAttr ITEM_ATTRIBUTE_DOORID (.ofNat 32 n)) item
        propStream
    else item.readAttr server attr propStream
  | .ATTR_SLEEPERGUID =>
    if item.getBed then readInto 4 (fun guid item => item.setSleeper server guid) item propStream
    else item.readAttr server attr propStream
  | .ATTR_SLEEPSTART =>
    if item.getBed then
      readInto 4 (fun n item => { item with sleepStart := UInt64.ofNat n }) item propStream
    else item.readAttr server attr propStream
  | .ATTR_TELE_DEST =>
    if item.itemClass = .Teleport then item.readDestination propStream
    else item.readAttr server attr propStream
  | _ => item.readAttr server attr propStream

/-- A byte that is no tag falls to the default of the switch. -/
def readField : Fields.Reader Item := fun attr_type item propStream =>
  match AttrTypes_t.ofCode attr_type with
  | some attr => item.readClassAttr server attr propStream
  | none => (.failed, item, propStream)

def unserializeAttr (item : Item) (propStream : PropStream) : Bool × Item × PropStream :=
  Fields.readAll (readField server) item propStream

end Item

/-! ## Writing -/

def writeInt (attr : AttrTypes_t) (w n : ℕ) : List UInt8 := attr.code :: write w n

def writeStr (attr : AttrTypes_t) (str : List UInt8) : List UInt8 := attr.code :: writeString str

namespace Item

variable (types : ℕ → ItemType) (item : Item)

/-- `if (hasAttribute(type)) { ... }` of an integer attribute of `w` bytes. -/
def serializeInt (attr : AttrTypes_t) (w : ℕ) (type : itemAttrTypes) : List UInt8 :=
  if item.hasAttribute type then writeInt attr w (item.getIntAttr type).toNat else []

/-- The same of a text; one that is there is not empty. -/
def serializeStr (attr : AttrTypes_t) (type : itemAttrTypes) : List UInt8 :=
  if item.getStrAttr type ≠ [] then writeStr attr (item.getStrAttr type) else []

def serializeAttr : List UInt8 :=
  let it := item.type types
  (if it.stackable || it.isFluidContainer || it.isSplash then
    writeInt .ATTR_COUNT 1 (item.getSubType types) else []) ++
  (if item.getCharges ≠ 0 then writeInt .ATTR_CHARGES 2 item.getCharges else []) ++
  (if it.moveable ∧ item.getActionId ≠ 0 then writeInt .ATTR_ACTION_ID 2 item.getActionId
    else []) ++
  item.serializeStr .ATTR_TEXT ITEM_ATTRIBUTE_TEXT ++
  (if item.getDate ≠ 0 then writeInt .ATTR_WRITTENDATE 4 item.getDate.toNat else []) ++
  item.serializeStr .ATTR_WRITTENBY ITEM_ATTRIBUTE_WRITER ++
  item.serializeStr .ATTR_DESC ITEM_ATTRIBUTE_DESCRIPTION ++
  item.serializeInt .ATTR_DURATION 4 ITEM_ATTRIBUTE_DURATION ++
  (if item.getDecaying = .DECAYING_TRUE ∨ item.getDecaying = .DECAYING_PENDING then
    writeInt .ATTR_DECAYING_STATE 1 item.getDecaying.code else []) ++
  item.serializeStr .ATTR_NAME ITEM_ATTRIBUTE_NAME ++
  item.serializeStr .ATTR_ARTICLE ITEM_ATTRIBUTE_ARTICLE ++
  item.serializeStr .ATTR_PLURALNAME ITEM_ATTRIBUTE_PLURALNAME ++
  item.serializeInt .ATTR_WEIGHT 4 ITEM_ATTRIBUTE_WEIGHT ++
  item.serializeInt .ATTR_ATTACK 4 ITEM_ATTRIBUTE_ATTACK ++
  item.serializeInt .ATTR_DEFENSE 4 ITEM_ATTRIBUTE_DEFENSE ++
  item.serializeInt .ATTR_EXTRADEFENSE 4 ITEM_ATTRIBUTE_EXTRADEFENSE ++
  item.serializeInt .ATTR_ARMOR 4 ITEM_ATTRIBUTE_ARMOR ++
  item.serializeInt .ATTR_HITCHANCE 1 ITEM_ATTRIBUTE_HITCHANCE ++
  item.serializeInt .ATTR_SHOOTRANGE 1 ITEM_ATTRIBUTE_SHOOTRANGE

/-- `serializeAttr` of the class of the object. -/
def serializeClassAttr : List UInt8 :=
  match item.itemClass with
  | .Door => []
  | .BedItem _ =>
    (if item.sleeperGUID ≠ 0 then writeInt .ATTR_SLEEPERGUID 4 item.sleeperGUID.toNat else []) ++
    (if item.sleepStart ≠ 0 then writeInt .ATTR_SLEEPSTART 4 item.sleepStart.toNat else [])
  | .Teleport =>
    item.serializeAttr types ++ AttrTypes_t.ATTR_TELE_DEST.code ::
      (write 2 item.destPos.x.toNat ++ write 2 item.destPos.y.toNat ++
        write 1 item.destPos.z.toNat)
  | _ => item.serializeAttr types

end Item

/-! ## A body is taken from the front of the stream -/

theorem length_readInto_le (w : ℕ) (set : ℕ → Item → Item) (item : Item)
    (propStream : PropStream) :
    (readInto w set item propStream).2.2.length ≤ propStream.length := by
  have hread := PropStream.length_read_le w propStream
  unfold readInto
  split <;> rename_i heq <;> rw [heq] at hread <;> exact hread

theorem length_readStringInto_le (set : List UInt8 → Item → Item) (item : Item)
    (propStream : PropStream) :
    (readStringInto set item propStream).2.2.length ≤ propStream.length := by
  have hread := PropStream.length_readString_le propStream
  unfold readStringInto
  split <;> rename_i heq <;> rw [heq] at hread <;> exact hread

theorem length_readThen_le {first second : Item → PropStream → Attr_ReadValue × Item × PropStream}
    (h : ∀ item propStream, (first item propStream).2.2.length ≤ propStream.length)
    (h' : ∀ item propStream, (second item propStream).2.2.length ≤ propStream.length)
    (item : Item) (propStream : PropStream) :
    (readThen first second item propStream).2.2.length ≤ propStream.length := by
  have hfirst := h item propStream
  unfold readThen
  split
  · rename_i heq
    rw [heq] at hfirst
    exact (h' _ _).trans hfirst
  · exact hfirst

theorem length_skipOver_le (n : ℕ) (item : Item) (propStream : PropStream) :
    (skipOver n item propStream).2.2.length ≤ propStream.length := by
  have hskip := PropStream.length_skip_le n propStream
  unfold skipOver
  split <;> rename_i heq <;> rw [heq] at hskip <;> exact hskip

namespace Item

variable (server : Server)

theorem length_readAttr_le (attr : AttrTypes_t) (item : Item) (propStream : PropStream) :
    (item.readAttr server attr propStream).2.2.length ≤ propStream.length := by
  cases attr <;> first
    | exact length_readInto_le _ _ _ _
    | exact length_readStringInto_le _ _ _
    | exact length_skipOver_le _ _ _
    | exact Nat.le_refl _

theorem length_readDestination_le (item : Item) (propStream : PropStream) :
    (item.readDestination propStream).2.2.length ≤ propStream.length :=
  length_readThen_le (length_readInto_le _ _)
    (length_readThen_le (length_readInto_le _ _) (length_readInto_le _ _)) item propStream

theorem length_readClassAttr_le (attr : AttrTypes_t) (item : Item) (propStream : PropStream) :
    (item.readClassAttr server attr propStream).2.2.length ≤ propStream.length := by
  have hbase := fun attr => length_readAttr_le server attr item propStream
  unfold readClassAttr
  split
  · split
    · have hread := PropStream.length_read_le 4 propStream
      split <;> rename_i heq <;> rw [heq] at hread <;> exact hread
    · exact hbase _
  · split
    · exact length_readInto_le _ _ item propStream
    · exact hbase _
  · split
    · exact length_readInto_le _ _ item propStream
    · exact hbase _
  · split
    · exact length_readInto_le _ _ item propStream
    · exact hbase _
  · split
    · exact length_readInto_le _ _ item propStream
    · exact hbase _
  · split
    · exact length_readDestination_le item propStream
    · exact hbase _
  · exact hbase _

theorem shrinks_readField : Fields.Shrinks (readField server) := by
  intro attr_type item propStream
  unfold readField
  split
  · exact length_readClassAttr_le server _ item propStream
  · exact Nat.le_refl _

end Item

end TibiaServer.IOMapSerialize
