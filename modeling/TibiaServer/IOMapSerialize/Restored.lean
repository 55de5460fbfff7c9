import TibiaServer.IOMapSerialize.Attributes
/-!
# What comes back of the attributes

`restored` says what an object is after its bytes are read into a new one of its type.  Most
attributes keep their value.  An item that cannot be moved loses its action id, and one below
100 is raised to it; a negative duration becomes zero, and one that is not written is that of
the type; what decays is pending; a count is kept by what is stackable.
-/

namespace TibiaServer.IOMapSerialize

open Cylinders (itemAttrTypes)
open Cylinders.itemAttrTypes
open Library Library.Bytes

namespace ItemType

/-- Whether the subtype of an item of the type is a fluid. -/
def holdsFluid (it : ItemType) : Bool := it.isFluidContainer || it.isSplash

/-- Whether the subtype is the number of charges. -/
def hasCharges (it : ItemType) : Bool := !it.holdsFluid && !it.stackable && it.charges ≠ 0

end ItemType

namespace Item

variable (types : ℕ → ItemType)

/-- What `CreateItem` makes of the id of the object, up to the data that is read. -/
structure Creatable (x : Item) : Prop where
  known : (x.type types).id ≠ 0
  notDeprecated : (x.type types).group ≠ .ITEM_GROUP_DEPRECATED
  itemClass : x.itemClass = Tiles.Item.createdClass (x.type types).toTileType
  ownId : x.itemClass = .Item → UInt16.ofNat (Cylinders.createdId (x.type types).id) = x.id

/-- Values within the width of their fields, and charges where the type has some. -/
structure Fits (x : Item) : Prop where
  fluidType : (x.type types).holdsFluid = true → x.getFluidType < 256
  charges : x.getCharges ≠ 0 ↔ (x.type types).hasCharges = true
  hitChance : ∀ value, x.integer ITEM_ATTRIBUTE_HITCHANCE = some value →
    -128 ≤ value.toInt ∧ value.toInt < 128
  shootRange : ∀ value, x.integer ITEM_ATTRIBUTE_SHOOTRANGE = some value → value.toNat < 256
  string : ∀ type, (x.getStrAttr type).length ≤ 65535

/-- A duration that is not written is the one of the type, if it has one. -/
def restoredDuration (x : Item) : Option (BitVec 32) :=
  match x.integer ITEM_ATTRIBUTE_DURATION with
  | some duration => some (if duration.toInt < 0 then 0 else duration)
  | none => if x.getDefaultDuration types ≠ 0 then some (x.getDefaultDuration types) else none

def restoredInteger (x : Item) : itemAttrTypes → Option (BitVec 32)
  | ITEM_ATTRIBUTE_ACTIONID =>
    if (x.type types).moveable ∧ x.getActionId ≠ 0 then
      some (.ofNat 32 (max 100 x.getActionId))
    else none
  | ITEM_ATTRIBUTE_DATE => if x.getDate ≠ 0 then some x.getDate else none
  | ITEM_ATTRIBUTE_WEIGHT => x.integer ITEM_ATTRIBUTE_WEIGHT
  | ITEM_ATTRIBUTE_ATTACK => x.integer ITEM_ATTRIBUTE_ATTACK
  | ITEM_ATTRIBUTE_DEFENSE => x.integer ITEM_ATTRIBUTE_DEFENSE
  | ITEM_ATTRIBUTE_EXTRADEFENSE => x.integer ITEM_ATTRIBUTE_EXTRADEFENSE
  | ITEM_ATTRIBUTE_ARMOR => x.integer ITEM_ATTRIBUTE_ARMOR
  | ITEM_ATTRIBUTE_HITCHANCE => x.integer ITEM_ATTRIBUTE_HITCHANCE
  | ITEM_ATTRIBUTE_SHOOTRANGE => x.integer ITEM_ATTRIBUTE_SHOOTRANGE
  | ITEM_ATTRIBUTE_DURATION => x.restoredDuration types
  | ITEM_ATTRIBUTE_DECAYSTATE =>
    if x.getDecaying = .DECAYING_TRUE ∨ x.getDecaying = .DECAYING_PENDING then
      some (.ofNat 32 ItemDecayState_t.DECAYING_PENDING.code)
    else none
  | ITEM_ATTRIBUTE_CHARGES =>
    if (x.type types).hasCharges then some (.ofNat 32 x.getCharges) else none
  | ITEM_ATTRIBUTE_FLUIDTYPE =>
    if (x.type types).holdsFluid then some (.ofNat 32 x.getFluidType) else none
  | _ => none

def restored (x : Item) : Item where
  itemClass := x.itemClass
  id := x.id
  count := if (x.type types).stackable then x.count else 1
  integer := x.restoredInteger types
  string := fun type => x.getStrAttr type

/-! ## One field -/

section Fields

variable {types} {server : Server} {attr : AttrTypes_t} {item x : Item} {w n : ℕ}

theorem reads_writeInt (set : ℕ → Item → Item)
    (hread : ∀ propStream, item.readClassAttr server attr propStream =
      readInto w set item propStream) :
    Fields.Reads (readField server) (writeInt attr w n) item (set (n % 256 ^ w) item) := by
  apply Fields.Reads.field (shrinks_readField server) attr.code_ne_zero
  intro rest
  rw [readField, AttrTypes_t.ofCode_code]
  dsimp only
  rw [hread, readInto, PropStream.read_write]

theorem reads_writeStr {set : List UInt8 → Item → Item} {str : List UInt8}
    (hread : ∀ propStream, item.readClassAttr server attr propStream =
      readStringInto set item propStream)
    (hlength : str.length ≤ 65535) :
    Fields.Reads (readField server) (writeStr attr str) item (set str item) := by
  apply Fields.Reads.field (shrinks_readField server) attr.code_ne_zero
  intro rest
  rw [readField, AttrTypes_t.ofCode_code]
  dsimp only
  rw [hread, readStringInto, PropStream.readString_writeString hlength]

/-- The object with the value that `x` has, if it has one. -/
def copyInt (type : itemAttrTypes) (x item : Item) : Item :=
  { item with
    integer := Function.update item.integer type ((x.integer type).or (item.integer type)) }

def copyStr (type : itemAttrTypes) (x item : Item) : Item :=
  { item with
    string := Function.update item.string type
      (if x.string type = [] then item.string type else x.string type) }

theorem reads_serializeInt {type : itemAttrTypes} (decode : ℕ → BitVec 32)
    (htype : isIntAttrType type = true)
    (hread : ∀ propStream, item.readClassAttr server attr propStream =
      readInto w (fun n item => item.setIntAttr type (decode n)) item propStream)
    (hdecode : ∀ value, x.integer type = some value → decode (value.toNat % 256 ^ w) = value) :
    Fields.Reads (readField server) (x.serializeInt attr w type) item (copyInt type x item) := by
  have hstr : isStrAttrType type = false := by simpa [isIntAttrType] using htype
  cases hvalue : x.integer type with
  | none =>
    have hcopy : copyInt type x item = item := by simp [copyInt, hvalue]
    have hnone : x.serializeInt attr w type = [] := by
      simp [serializeInt, hasAttribute, hstr, hvalue]
    rw [hcopy, hnone]
    exact .nil _ item
  | some value =>
    have hget : x.getIntAttr type = value := by simp [getIntAttr, htype, hvalue]
    have hsome : x.serializeInt attr w type = writeInt attr w value.toNat := by
      simp [serializeInt, hasAttribute, hstr, hvalue, hget]
    have hcopy : copyInt type x item =
        item.setIntAttr type (decode (value.toNat % 256 ^ w)) := by
      rw [hdecode value hvalue]
      simp [copyInt, setIntAttr, htype, hvalue]
    rw [hsome, hcopy]
    exact reads_writeInt (fun n item => item.setIntAttr type (decode n)) hread

theorem reads_serializeStr {type : itemAttrTypes} (htype : isStrAttrType type = true)
    (hread : ∀ propStream, item.readClassAttr server attr propStream =
      readStringInto (fun str item => item.setStrAttr type str) item propStream)
    (hlength : (x.getStrAttr type).length ≤ 65535) :
    Fields.Reads (readField server) (x.serializeStr attr type) item (copyStr type x item) := by
  have hget : x.getStrAttr type = x.string type := by simp [getStrAttr, htype]
  by_cases hempty : x.string type = []
  · have hcopy : copyStr type x item = item := by simp [copyStr, hempty]
    have hnone : x.serializeStr attr type = [] := by simp [serializeStr, hget, hempty]
    rw [hcopy, hnone]
    exact .nil _ item
  · have hsome : x.serializeStr attr type = writeStr attr (x.getStrAttr type) := by
      simp [serializeStr, hget, hempty]
    have hcopy : copyStr type x item = item.setStrAttr type (x.getStrAttr type) := by
      simp [copyStr, setStrAttr, htype, hget, hempty]
    rw [hsome, hcopy]
    exact reads_writeStr hread hlength

theorem ofNat_toNat_mod (value : BitVec 32) :
    BitVec.ofNat 32 (value.toNat % 256 ^ 4) = value := by
  have hlt := value.isLt
  apply BitVec.eq_of_toNat_eq
  rw [BitVec.toNat_ofNat]
  omega

/-! ## All fields -/

def copyCount (types : ℕ → ItemType) (x item : Item) : Item :=
  let it := x.type types
  if it.stackable || it.isFluidContainer || it.isSplash then
    item.setSubType types (x.getSubType types % 256)
  else item

def copyCharges (types : ℕ → ItemType) (x item : Item) : Item :=
  if x.getCharges ≠ 0 then item.setSubType types x.getCharges else item

def copyActionId (types : ℕ → ItemType) (x item : Item) : Item :=
  if (x.type types).moveable ∧ x.getActionId ≠ 0 then item.setActionId x.getActionId else item

def copyDate (x item : Item) : Item := if x.getDate ≠ 0 then item.setDate x.getDate else item

def copyDuration (x item : Item) : Item :=
  if x.hasAttribute ITEM_ATTRIBUTE_DURATION then
    item.setDuration (if x.getDuration.toInt < 0 then 0 else x.getDuration)
  else item

def copyDecaying (x item : Item) : Item :=
  if x.getDecaying = .DECAYING_TRUE ∨ x.getDecaying = .DECAYING_PENDING then
    item.setDecaying .DECAYING_PENDING
  else item

/-- The object that is read into, with the bytes of `x` behind it. -/
def copied (types : ℕ → ItemType) (x item : Item) : Item :=
  let item := copyActionId types x (copyCharges types x (copyCount types x item))
  let item := copyStr ITEM_ATTRIBUTE_TEXT x item
  let item := copyStr ITEM_ATTRIBUTE_WRITER x (copyDate x item)
  let item := copyStr ITEM_ATTRIBUTE_DESCRIPTION x item
  let item := copyDecaying x (copyDuration x item)
  let item := copyStr ITEM_ATTRIBUTE_NAME x item
  let item := copyStr ITEM_ATTRIBUTE_ARTICLE x item
  let item := copyStr ITEM_ATTRIBUTE_PLURALNAME x item
  let item := copyInt ITEM_ATTRIBUTE_WEIGHT x item
  let item := copyInt ITEM_ATTRIBUTE_ATTACK x item
  let item := copyInt ITEM_ATTRIBUTE_DEFENSE x item
  let item := copyInt ITEM_ATTRIBUTE_EXTRADEFENSE x item
  let item := copyInt ITEM_ATTRIBUTE_ARMOR x item
  let item := copyInt ITEM_ATTRIBUTE_HITCHANCE x item
  copyInt ITEM_ATTRIBUTE_SHOOTRANGE x item

theorem getUInt16_lt (type : itemAttrTypes) (x : Item) : x.getUInt16 type < 65536 :=
  Nat.mod_lt _ (by omega)

theorem signExtend_low (value : BitVec 32) (hlow : -128 ≤ value.toInt)
    (hhigh : value.toInt < 128) :
    (BitVec.ofNat 8 (value.toNat % 256 ^ 1)).signExtend 32 = value := by
  have hvalue := BitVec.toInt_eq_toNat_bmod value
  have hmin : min 32 8 = 8 := rfl
  apply BitVec.eq_of_toInt_eq
  rw [BitVec.toInt_signExtend, BitVec.toInt_eq_toNat_bmod, BitVec.toNat_ofNat]
  simp only [Int.bmod, hmin] at *
  omega

theorem reads_writeInt_of_lt (set : ℕ → Item → Item)
    (hread : ∀ propStream, item.readClassAttr server attr propStream =
      readInto w set item propStream)
    (hn : n < 256 ^ w) :
    Fields.Reads (readField server) (writeInt attr w n) item (set n item) := by
  have h : Fields.Reads (readField server) (writeInt attr w n) item (set (n % 256 ^ w) item) :=
    reads_writeInt set hread
  rwa [Nat.mod_eq_of_lt hn] at h

theorem reads_count :
    let it := x.type server.types
    Fields.Reads (readField server)
      (if it.stackable || it.isFluidContainer || it.isSplash then
        writeInt .ATTR_COUNT 1 (x.getSubType server.types) else [])
      item (copyCount server.types x item) :=
  .optional fun _ =>
    reads_writeInt (fun n item => item.setSubType server.types n) fun _ => rfl

theorem reads_charges :
    Fields.Reads (readField server)
      (if x.getCharges ≠ 0 then writeInt .ATTR_CHARGES 2 x.getCharges else [])
      item (copyCharges server.types x item) :=
  .optional fun _ =>
    reads_writeInt_of_lt (fun n item => item.setSubType server.types n) (fun _ => rfl)
      (getUInt16_lt _ x)

theorem reads_actionId :
    Fields.Reads (readField server)
      (if (x.type server.types).moveable ∧ x.getActionId ≠ 0 then
        writeInt .ATTR_ACTION_ID 2 x.getActionId else [])
      item (copyActionId server.types x item) :=
  .optional fun _ =>
    reads_writeInt_of_lt (fun n item => item.setActionId n) (fun _ => rfl) (getUInt16_lt _ x)

theorem reads_date :
    Fields.Reads (readField server)
      (if x.getDate ≠ 0 then writeInt .ATTR_WRITTENDATE 4 x.getDate.toNat else [])
      item (copyDate x item) := by
  refine .optional fun _ => ?_
  have h : Fields.Reads (readField server) (writeInt .ATTR_WRITTENDATE 4 x.getDate.toNat) item
      (item.setDate (.ofNat 32 (x.getDate.toNat % 256 ^ 4))) :=
    reads_writeInt (fun n item => item.setDate (.ofNat 32 n)) fun _ => rfl
  rwa [ofNat_toNat_mod] at h

theorem reads_duration :
    Fields.Reads (readField server) (x.serializeInt .ATTR_DURATION 4 ITEM_ATTRIBUTE_DURATION)
      item (copyDuration x item) := by
  unfold serializeInt
  refine .optional fun _ => ?_
  let set (n : ℕ) (item : Item) : Item :=
    item.setDuration (if (BitVec.ofNat 32 n).toInt < 0 then 0 else .ofNat 32 n)
  have h : Fields.Reads (readField server) (writeInt .ATTR_DURATION 4 x.getDuration.toNat) item
      (set (x.getDuration.toNat % 256 ^ 4) item) :=
    reads_writeInt set fun _ => rfl
  simp only [set, ofNat_toNat_mod] at h
  exact h

theorem reads_decaying :
    Fields.Reads (readField server)
      (if x.getDecaying = .DECAYING_TRUE ∨ x.getDecaying = .DECAYING_PENDING then
        writeInt .ATTR_DECAYING_STATE 1 x.getDecaying.code else [])
      item (copyDecaying x item) := by
  refine .optional fun hstate => ?_
  let set (state : ℕ) (item : Item) : Item :=
    if state ≠ ItemDecayState_t.DECAYING_FALSE.code then item.setDecaying .DECAYING_PENDING
    else item
  have h : Fields.Reads (readField server) (writeInt .ATTR_DECAYING_STATE 1 x.getDecaying.code)
      item (set (x.getDecaying.code % 256 ^ 1) item) :=
    reads_writeInt set fun _ => rfl
  rcases hstate with hstate | hstate <;> rw [hstate] at h ⊢ <;> exact h

theorem reads_serializeAttr (hx : x.Fits server.types) :
    Fields.Reads (readField server) (x.serializeAttr server.types) item
      (copied server.types x item) := by
  have hint : ∀ type value, x.integer type = some value →
      BitVec.ofNat 32 (value.toNat % 256 ^ 4) = value := fun _ value _ => ofNat_toNat_mod value
  have hshoot : ∀ value, x.integer ITEM_ATTRIBUTE_SHOOTRANGE = some value →
      BitVec.ofNat 32 (value.toNat % 256 ^ 1) = value := by
    intro value hvalue
    have hlt := hx.shootRange value hvalue
    apply BitVec.eq_of_toNat_eq
    rw [BitVec.toNat_ofNat]
    omega
  have hhit : ∀ value, x.integer ITEM_ATTRIBUTE_HITCHANCE = some value →
      (BitVec.ofNat 8 (value.toNat % 256 ^ 1)).signExtend 32 = value := fun value hvalue =>
    signExtend_low value (hx.hitChance value hvalue).1 (hx.hitChance value hvalue).2
  unfold serializeAttr copied
  dsimp only
  refine .append ?_ (reads_serializeInt (.ofNat 32) rfl (fun _ => rfl) hshoot)
  refine .append ?_ (reads_serializeInt (fun n => (BitVec.ofNat 8 n).signExtend 32) rfl
    (fun _ => rfl) hhit)
  refine .append ?_ (reads_serializeInt (.ofNat 32) rfl (fun _ => rfl) (hint _))
  refine .append ?_ (reads_serializeInt (.ofNat 32) rfl (fun _ => rfl) (hint _))
  refine .append ?_ (reads_serializeInt (.ofNat 32) rfl (fun _ => rfl) (hint _))
  refine .append ?_ (reads_serializeInt (.ofNat 32) rfl (fun _ => rfl) (hint _))
  refine .append ?_ (reads_serializeInt (.ofNat 32) rfl (fun _ => rfl) (hint _))
  refine .append ?_ (reads_serializeStr rfl (fun _ => rfl) (hx.string _))
  refine .append ?_ (reads_serializeStr rfl (fun _ => rfl) (hx.string _))
  refine .append ?_ (reads_serializeStr rfl (fun _ => rfl) (hx.string _))
  refine .append (.append ?_ reads_duration) reads_decaying
  refine .append ?_ (reads_serializeStr rfl (fun _ => rfl) (hx.string _))
  refine .append ?_ (reads_serializeStr rfl (fun _ => rfl) (hx.string _))
  refine .append ?_ reads_date
  refine .append ?_ (reads_serializeStr rfl (fun _ => rfl) (hx.string _))
  exact .append (.append reads_count reads_charges) reads_actionId

end Fields

/-! ## A new object -/

section NewObject

variable {types : ℕ → ItemType} {x item : Item}

/-- What the subtype makes of a new object. -/
def subtyped (types : ℕ → ItemType) (x : Item) : Item where
  itemClass := x.itemClass
  id := x.id
  count := if (x.type types).stackable then x.count else 1
  integer
    | ITEM_ATTRIBUTE_CHARGES =>
      if (x.type types).hasCharges then some (.ofNat 32 x.getCharges) else none
    | ITEM_ATTRIBUTE_FLUIDTYPE =>
      if (x.type types).holdsFluid then some (.ofNat 32 x.getFluidType) else none
    | ITEM_ATTRIBUTE_DURATION =>
      if x.getDefaultDuration types ≠ 0 then some (x.getDefaultDuration types) else none
    | _ => none

theorem setIntAttr_of_int {type : itemAttrTypes} (h : isIntAttrType type = true)
    (value : BitVec 32) : item.setIntAttr type value =
      { item with integer := Function.update item.integer type (some value) } := by
  simp [setIntAttr, h]

theorem setFluidType_eq (n : ℕ) : item.setFluidType n =
    { item with
      integer := Function.update item.integer ITEM_ATTRIBUTE_FLUIDTYPE
        (some (.ofNat 32 (n % 65536))) } :=
  setIntAttr_of_int rfl _

theorem setCharges_eq (n : ℕ) : item.setCharges n =
    { item with
      integer := Function.update item.integer ITEM_ATTRIBUTE_CHARGES
        (some (.ofNat 32 (n % 65536))) } :=
  setIntAttr_of_int rfl _

theorem setDefaultDuration_eq : item.setDefaultDuration types =
    { item with
      integer := Function.update item.integer ITEM_ATTRIBUTE_DURATION
        (if item.getDefaultDuration types ≠ 0 then some (item.getDefaultDuration types)
         else item.integer ITEM_ATTRIBUTE_DURATION) } := by
  unfold setDefaultDuration setDuration
  dsimp only
  split
  · rw [setIntAttr_of_int rfl]
  · simp

theorem holdsFluid_of_stackable (h : (x.type types).stackable = true) :
    (x.type types).holdsFluid = false := by
  have hgroup := ((x.type types).stackable_plain h).1
  simp [ItemType.holdsFluid, Cylinders.ItemType.isFluidContainer, Cylinders.ItemType.isSplash,
    hgroup]

theorem charges_eq_zero (hx : x.Fits types) (h : (x.type types).hasCharges = false) :
    x.getCharges = 0 := by
  by_contra hne
  rw [hx.charges.mp hne] at h
  exact absurd h (by simp)

theorem subtyped_of_fluid (hx : x.Fits types) (hfluid : (x.type types).holdsFluid = true) (c : ℕ) :
    copyCharges types x (copyCount types x (ofType types x.itemClass x.id c)) =
      x.subtyped types := by
  have hnot : (x.type types).hasCharges = false := by simp [ItemType.hasCharges, hfluid]
  have hstack : (x.type types).stackable = false := by
    by_contra h
    rw [holdsFluid_of_stackable (by simpa using h)] at hfluid
    exact absurd hfluid (by simp)
  have hnone := charges_eq_zero hx hnot
  have hlt := hx.fluidType hfluid
  have hmod : x.getFluidType % 256 % 65536 = x.getFluidType := by omega
  have hdef : (x.type types).isFluidContainer = true ∨ (x.type types).isSplash = true := by
    simpa [ItemType.holdsFluid] using hfluid
  simp only [type] at *
  generalize hit : types x.id.toNat = it at *
  simp [copyCharges, copyCount, ofType, hnone, hit, hdef, setSubType, getSubType, type,
    setDefaultDuration_eq, hmod, setFluidType_eq, subtyped, hstack, hfluid, hnot,
    getDefaultDuration]
  funext type
  cases type <;> simp

theorem subtyped_of_stackable (hx : x.Fits types) (hstack : (x.type types).stackable = true)
    (c : ℕ) :
    copyCharges types x (copyCount types x (ofType types x.itemClass x.id c)) =
      x.subtyped types := by
  have hnot : (x.type types).hasCharges = false := by simp [ItemType.hasCharges, hstack]
  have hnone := charges_eq_zero hx hnot
  have hfluid := holdsFluid_of_stackable hstack
  have hdef : (x.type types).isFluidContainer = false ∧ (x.type types).isSplash = false := by
    simpa [ItemType.holdsFluid] using hfluid
  simp only [type] at *
  generalize hit : types x.id.toNat = it at *
  have hof : ∃ n, ofType types x.itemClass x.id c =
      setDefaultDuration types { itemClass := x.itemClass, id := x.id, count := n } := by
    simp only [ofType, hit, hdef, hstack, setItemCount]
    by_cases hc : c = 0
    · by_cases hcharges : it.charges = 0
      · exact ⟨1, by simp [hc, hcharges]⟩
      · exact ⟨UInt8.ofNat it.charges, by simp [hc, hcharges]⟩
    · exact ⟨UInt8.ofNat c, by simp [hc]⟩
  obtain ⟨n, hof⟩ := hof
  simp [copyCharges, copyCount, hof, hnone, hit, hdef, setSubType, getSubType, type,
    setDefaultDuration_eq, setItemCount, subtyped, hstack, hfluid, hnot, getDefaultDuration]
  funext type
  cases type <;> simp

theorem subtyped_of_hasCharges (hx : x.Fits types) (hhas : (x.type types).hasCharges = true)
    (c : ℕ) :
    copyCharges types x (copyCount types x (ofType types x.itemClass x.id c)) =
      x.subtyped types := by
  have hsome := hx.charges.mpr hhas
  have hdef : ((x.type types).isFluidContainer = false ∧ (x.type types).isSplash = false) ∧
      (x.type types).stackable = false ∧ (x.type types).charges ≠ 0 := by
    simpa [ItemType.hasCharges, ItemType.holdsFluid, and_assoc] using hhas
  have hfluid : (x.type types).holdsFluid = false := by simp [ItemType.holdsFluid, hdef]
  have hmod : x.getCharges % 65536 = x.getCharges :=
    Nat.mod_eq_of_lt (getUInt16_lt _ x)
  simp only [type] at *
  generalize hit : types x.id.toNat = it at *
  have hof : ∃ n, ofType types x.itemClass x.id c =
      setDefaultDuration types (setCharges { itemClass := x.itemClass, id := x.id } n) := by
    simp only [ofType, hit, hdef]
    by_cases hc : c = 0
    · exact ⟨it.charges, by simp [hc, hdef]⟩
    · exact ⟨c, by simp [hc, hdef]⟩
  obtain ⟨n, hof⟩ := hof
  simp [copyCharges, copyCount, hof, hsome, hit, hdef, setSubType, type,
    setDefaultDuration_eq, setCharges_eq, subtyped, hfluid, hhas, hmod, getDefaultDuration]
  funext type
  cases type <;> simp

theorem subtyped_of_plain (hx : x.Fits types) (hfluid : (x.type types).holdsFluid = false)
    (hstack : (x.type types).stackable = false) (hnot : (x.type types).hasCharges = false) (c : ℕ) :
    copyCharges types x (copyCount types x (ofType types x.itemClass x.id c)) =
      x.subtyped types := by
  have hnone := charges_eq_zero hx hnot
  have hdef : (x.type types).isFluidContainer = false ∧ (x.type types).isSplash = false := by
    simpa [ItemType.holdsFluid] using hfluid
  have hcharges : (x.type types).charges = 0 := by
    simpa [ItemType.hasCharges, hfluid, hstack] using hnot
  simp only [type] at *
  generalize hit : types x.id.toNat = it at *
  simp [copyCharges, copyCount, ofType, hnone, hit, hdef, hcharges,
    setDefaultDuration_eq, subtyped, hfluid, hnot, getDefaultDuration, type, hstack]
  funext type
  cases type <;> simp

/-- The subtype is a fluid, a count or charges, and `ofType` and `setSubType` set that one. -/
theorem subtyped_eq (hx : x.Fits types) (c : ℕ) :
    copyCharges types x (copyCount types x (ofType types x.itemClass x.id c)) =
      x.subtyped types := by
  by_cases hfluid : (x.type types).holdsFluid = true
  · exact subtyped_of_fluid hx hfluid c
  · by_cases hstack : (x.type types).stackable = true
    · exact subtyped_of_stackable hx hstack c
    · by_cases hhas : (x.type types).hasCharges = true
      · exact subtyped_of_hasCharges hx hhas c
      · exact subtyped_of_plain hx (by simpa using hfluid) (by simpa using hstack)
          (by simpa using hhas) c

theorem copyActionId_eq : copyActionId types x item =
    { item with
      integer := Function.update item.integer ITEM_ATTRIBUTE_ACTIONID
        (if (x.type types).moveable ∧ x.getActionId ≠ 0 then
          some (.ofNat 32 (max 100 x.getActionId))
        else item.integer ITEM_ATTRIBUTE_ACTIONID) } := by
  have hmax : (if x.getActionId < 100 then 100 else x.getActionId) = max 100 x.getActionId := by
    split <;> omega
  unfold copyActionId setActionId
  rw [hmax]
  split
  · exact setIntAttr_of_int rfl _
  · simp

theorem copyDate_eq : copyDate x item =
    { item with
      integer := Function.update item.integer ITEM_ATTRIBUTE_DATE
        (if x.getDate ≠ 0 then some x.getDate else item.integer ITEM_ATTRIBUTE_DATE) } := by
  unfold copyDate setDate
  split
  · exact setIntAttr_of_int rfl _
  · simp

theorem copyDecaying_eq : copyDecaying x item =
    { item with
      integer := Function.update item.integer ITEM_ATTRIBUTE_DECAYSTATE
        (if x.getDecaying = .DECAYING_TRUE ∨ x.getDecaying = .DECAYING_PENDING then
          some (.ofNat 32 ItemDecayState_t.DECAYING_PENDING.code)
        else item.integer ITEM_ATTRIBUTE_DECAYSTATE) } := by
  unfold copyDecaying setDecaying
  split
  · exact setIntAttr_of_int rfl _
  · simp

theorem copyDuration_eq : copyDuration x item =
    { item with
      integer := Function.update item.integer ITEM_ATTRIBUTE_DURATION
        (if x.hasAttribute ITEM_ATTRIBUTE_DURATION then
          some (if x.getDuration.toInt < 0 then 0 else x.getDuration)
        else item.integer ITEM_ATTRIBUTE_DURATION) } := by
  unfold copyDuration setDuration
  split
  · exact setIntAttr_of_int rfl _
  · simp

theorem restoredDuration_eq : x.restoredDuration types =
    if x.hasAttribute ITEM_ATTRIBUTE_DURATION then
      some (if x.getDuration.toInt < 0 then 0 else x.getDuration)
    else if x.getDefaultDuration types ≠ 0 then some (x.getDefaultDuration types) else none := by
  unfold restoredDuration
  cases hvalue : x.integer ITEM_ATTRIBUTE_DURATION with
  | none =>
    have hhas : x.hasAttribute ITEM_ATTRIBUTE_DURATION = false := by
      simp [hasAttribute, isStrAttrType, hvalue]
    rw [hhas]
    rfl
  | some duration =>
    have hhas : x.hasAttribute ITEM_ATTRIBUTE_DURATION = true := by
      simp [hasAttribute, isStrAttrType, hvalue]
    have hget : x.getDuration = duration := by
      simp [getDuration, getIntAttr, isIntAttrType, isStrAttrType, hvalue]
    rw [hhas, hget, if_pos rfl]

theorem copied_ofType (hx : x.Fits types) (c : ℕ) :
    copied types x (ofType types x.itemClass x.id c) = x.restored types := by
  unfold copied
  rw [subtyped_eq hx]
  simp only [copyStr, copyInt, copyActionId_eq, copyDate_eq, copyDecaying_eq, copyDuration_eq]
  apply Item.ext <;> try rfl
  · funext type
    cases type <;> simp [subtyped, restored, restoredInteger, restoredDuration_eq]
  · funext type
    cases type <;> simp [subtyped, restored, getStrAttr, isStrAttrType]

/-- `readAttr` and `serializeAttr` of the class, but for the contents of a container, are
those of `Item`. -/
def isPlain (x : Item) : Bool :=
  x.itemClass ≠ .DepotLocker && x.itemClass ≠ .Teleport && !x.getDoor && !x.getBed

theorem serializeClassAttr_of_plain (h : x.isPlain = true) :
    x.serializeClassAttr types = x.serializeAttr types := by
  unfold isPlain getDoor getBed at h
  unfold serializeClassAttr
  split <;> simp_all

theorem createItem_of_plain (hx : x.Creatable types) (h : x.isPlain = true) :
    ∃ c, CreateItem types x.id 0 = some (ofType types x.itemClass x.id c) := by
  have hknown := hx.known
  have hgroup := hx.notDeprecated
  have hclass := hx.itemClass
  have hown := hx.ownId
  unfold isPlain getDoor getBed at h
  simp only [type] at *
  unfold CreateItem
  simp only [hgroup, hknown, if_false]
  rw [← hclass]
  split
  · rename_i heq
    rw [hown heq, heq]
    exact ⟨_, rfl⟩
  · rename_i heq
    rw [heq] at h
    simp at h
  · exact ⟨0, rfl⟩

end NewObject

end Item

end TibiaServer.IOMapSerialize
