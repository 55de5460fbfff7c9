import TibiaServer.Cylinders.Item
import TibiaServer.Players.ConditionSums
/-!
# Equipping items

`postAddNotification` and `postRemoveNotification` of a player call `EquipItem` and
`DeEquipItem`, which add the abilities of an item to the player and take them away.  An item
may transform in either of them, and `transformItem` notifies the player again.  The
conditions that an item gives are left out, and so are scripts of movements.
-/

namespace TibiaServer.Players

open Cylinders (ItemTypes_t)

inductive slots_t
  | CONST_SLOT_HEAD
  | CONST_SLOT_NECKLACE
  | CONST_SLOT_BACKPACK
  | CONST_SLOT_ARMOR
  | CONST_SLOT_RIGHT
  | CONST_SLOT_LEFT
  | CONST_SLOT_LEGS
  | CONST_SLOT_FEET
  | CONST_SLOT_RING
  | CONST_SLOT_AMMO
  | CONST_SLOT_INBOX
  deriving DecidableEq

/-- `for (slot = CONST_SLOT_FIRST; slot <= CONST_SLOT_LAST; ++slot)` -/
def slots_t.all : List slots_t :=
  [.CONST_SLOT_HEAD, .CONST_SLOT_NECKLACE, .CONST_SLOT_BACKPACK, .CONST_SLOT_ARMOR,
    .CONST_SLOT_RIGHT, .CONST_SLOT_LEFT, .CONST_SLOT_LEGS, .CONST_SLOT_FEET, .CONST_SLOT_RING,
    .CONST_SLOT_AMMO, .CONST_SLOT_INBOX]

instance : Fintype slots_t := Fintype.ofList slots_t.all (by intro slot; cases slot <;> decide)

structure Abilities where
  skills : skills_t → int32_t := fun _ => 0
  stats : stats_t → int32_t := fun _ => 0
  statsPercent : stats_t → int32_t := fun _ => 0
  speed : int32_t := 0
  conditionSuppressions : BitVec 32 := 0

/-- What equipping and transforming an item reads of its type. -/
structure ItemType where
  id : ℕ
  type : ItemTypes_t := .ITEM_TYPE_NONE
  alwaysOnTop : Bool := false
  abilities : Option Abilities := none
  transformEquipTo : ℕ := 0
  transformDeEquipTo : ℕ := 0

/-- `vocEquipMap` has the vocations that may equip the item. -/
structure MoveEvent where
  wieldInfo : ℕ := 0
  reqLevel : ℕ := 0
  reqMagLevel : ℕ := 0
  premium : Bool := false
  vocEquipMap : List ℕ := []

inductive MoveEvent_t
  | MOVE_EVENT_EQUIP
  | MOVE_EVENT_DEEQUIP

/-- The item types, the events of `movements.xml` by the type of the item and the slot, and the
percentage of a stat, an arithmetic in floating point that is left open. -/
structure EquipData where
  items : ℕ → ItemType
  getEvent : MoveEvent_t → ℕ → slots_t → Option MoveEvent
  percent : ℤ → int32_t → int32_t

/-- Items have addresses, and those from `nextItem` on are new. -/
structure EquippedPlayer where
  player : ConditionedPlayer := {}
  level : ℕ := 1
  isPremium : Bool := false
  vocationId : ℕ := 0
  ignoreWeaponCheck : Bool := false
  baseSpeed : int32_t := 220
  varSpeed : int32_t := 0
  conditionSuppressions : BitVec 32 := 0
  inventory : slots_t → Option ℕ := fun _ => none
  inventoryAbilities : slots_t → Bool := fun _ => false
  itemId : ℕ → ℕ := fun _ => 0
  nextItem : ℕ := 0

namespace EquippedPlayer

/-! ## Abilities -/

def changeSpeed (s : EquippedPlayer) (varSpeedDelta : int32_t) : EquippedPlayer :=
  { s with varSpeed := s.baseSpeed + s.varSpeed - s.baseSpeed + varSpeedDelta }

def addConditionSuppressions (s : EquippedPlayer) (conditions : BitVec 32) : EquippedPlayer :=
  { s with conditionSuppressions := s.conditionSuppressions ||| conditions }

def removeConditionSuppressions (s : EquippedPlayer) (conditions : BitVec 32) : EquippedPlayer :=
  { s with conditionSuppressions := s.conditionSuppressions &&& ~~~conditions }

def getDefaultStats (player : ConditionedPlayer) (stat : stats_t) : ℤ :=
  match stat with
  | .STAT_MAXHITPOINTS => player.healthMax.toInt
  | .STAT_MAXMANAPOINTS => player.manaMax.toInt
  | .STAT_MAGICPOINTS => player.magLevel.toInt
  | .STAT_SOULPOINTS => 0

/-- The round of the loop over the stats; `sign` turns the modifier around. -/
def modifyStat (data : EquipData) (abilities : Abilities) (sign : int32_t → int32_t)
    (player : ConditionedPlayer) (stat : stats_t) : ConditionedPlayer :=
  let player :=
    if abilities.stats stat ≠ 0 then player.setVarStats stat (sign (abilities.stats stat))
    else player
  if abilities.statsPercent stat ≠ 0 then
    player.setVarStats stat
      (sign (data.percent (getDefaultStats player stat) (abilities.statsPercent stat)))
  else player

/-- The part of `EquipItem` and `DeEquipItem` that adds or takes away the abilities. -/
def modify (data : EquipData) (abilities : Abilities) (sign : int32_t → int32_t)
    (s : EquippedPlayer) : EquippedPlayer :=
  let s := if abilities.speed ≠ 0 then s.changeSpeed (sign abilities.speed) else s
  let player := skills_t.all.foldl (fun player i =>
    if abilities.skills i ≠ 0 then player.setVarSkill i (sign (abilities.skills i)) else player)
    s.player
  { s with player := stats_t.all.foldl (modifyStat data abilities sign) player }

def addAbilities (data : EquipData) (abilities : Abilities) (s : EquippedPlayer) :
    EquippedPlayer :=
  (if abilities.conditionSuppressions ≠ 0 then
    s.addConditionSuppressions abilities.conditionSuppressions else s).modify data abilities id

def removeAbilities (data : EquipData) (abilities : Abilities) (s : EquippedPlayer) :
    EquippedPlayer :=
  (if abilities.conditionSuppressions ≠ 0 then
    s.removeConditionSuppressions abilities.conditionSuppressions else s).modify data abilities
      (fun modifier => -modifier)

/-! ## Items in slots -/

def getThingIndex (s : EquippedPlayer) (item : ℕ) : Option slots_t :=
  slots_t.all.find? fun slot => s.inventory slot = some item

def setItemAbility (s : EquippedPlayer) (slot : slots_t) (enabled : Bool) : EquippedPlayer :=
  { s with inventoryAbilities := Function.update s.inventoryAbilities slot enabled }

def setInventory (s : EquippedPlayer) (slot : slots_t) (item : Option ℕ) : EquippedPlayer :=
  { s with inventory := Function.update s.inventory slot item }

def setID (s : EquippedPlayer) (item newId : ℕ) : EquippedPlayer :=
  { s with itemId := Function.update s.itemId item newId }

def updateThing (s : EquippedPlayer) (item newId : ℕ) : EquippedPlayer :=
  match s.getThingIndex item with
  | none => s
  | some _ => s.setID item newId

/-- `Item::CreateItem` -/
def createItem (s : EquippedPlayer) (newId : ℕ) : EquippedPlayer :=
  { s with
    itemId := Function.update s.itemId s.nextItem newId
    nextItem := s.nextItem + 1 }

/-! ## The events -/

section Events

variable (data : EquipData)
  (notification : MoveEvent_t → EquippedPlayer → ℕ → slots_t → Option EquippedPlayer)

/-- `Game::transformItem`, where only an item in a slot of the player matters. -/
def transformItem (s : EquippedPlayer) (item newId : ℕ) : Option EquippedPlayer :=
  let curType := data.items (s.itemId item)
  let newType := data.items newId
  if s.itemId item = newId then some s
  else
    match s.getThingIndex item with
    | none => some s
    | some slot =>
      if newType.id = 0 then some s
      else if curType.alwaysOnTop ≠ newType.alwaysOnTop then
        -- `addThing` of a player without a slot does nothing, and the item is released
        notification .MOVE_EVENT_DEEQUIP (s.setInventory slot none) item slot
      else if curType.type = newType.type then
        (notification .MOVE_EVENT_DEEQUIP s item slot).bind fun s =>
          let itemId := if curType.id ≠ newType.id then newId else s.itemId item
          notification .MOVE_EVENT_EQUIP (s.updateThing item itemId) item slot
      else
        let newItem := s.nextItem
        let s := (s.createItem newId).setInventory slot (some newItem)
        (notification .MOVE_EVENT_EQUIP s newItem slot).bind fun s =>
          notification .MOVE_EVENT_DEEQUIP s item slot

def getMagicLevel (s : EquippedPlayer) : ℤ := s.player.getMagicLevel

/-- The requirements of `EquipItem`. -/
def canWield (s : EquippedPlayer) (moveEvent : MoveEvent) : Bool :=
  if !s.ignoreWeaponCheck && moveEvent.wieldInfo ≠ 0 then
    if s.level < moveEvent.reqLevel ∨ s.getMagicLevel < moveEvent.reqMagLevel then false
    else if moveEvent.premium && !s.isPremium then false
    else moveEvent.vocEquipMap.isEmpty || s.vocationId ∈ moveEvent.vocEquipMap
  else true

def EquipItem (moveEvent : MoveEvent) (s : EquippedPlayer) (item : ℕ) (slot : slots_t) :
    Option EquippedPlayer :=
  if s.inventoryAbilities slot then some s
  else if !s.canWield moveEvent then some s
  else
    let it := data.items (s.itemId item)
    (if it.transformEquipTo ≠ 0 then transformItem data notification s item it.transformEquipTo
      else some (s.setItemAbility slot true)).map fun s =>
        match it.abilities with
        | none => s
        | some abilities => s.addAbilities data abilities

def DeEquipItem (s : EquippedPlayer) (item : ℕ) (slot : slots_t) : Option EquippedPlayer :=
  if !s.inventoryAbilities slot then some s
  else
    let s := s.setItemAbility slot false
    let it := data.items (s.itemId item)
    (if it.transformDeEquipTo ≠ 0 then transformItem data notification s item it.transformDeEquipTo
      else some s).map fun s =>
        match it.abilities with
        | none => s
        | some abilities => s.removeAbilities data abilities

def onPlayerEquip (s : EquippedPlayer) (item : ℕ) (slot : slots_t) : Option EquippedPlayer :=
  match data.getEvent .MOVE_EVENT_EQUIP (s.itemId item) slot with
  | none => some s
  | some moveEvent => EquipItem data notification moveEvent s item slot

def onPlayerDeEquip (s : EquippedPlayer) (item : ℕ) (slot : slots_t) : Option EquippedPlayer :=
  match data.getEvent .MOVE_EVENT_DEEQUIP (s.itemId item) slot with
  | none => some s
  | some _ => DeEquipItem data notification s item slot

end Events

/-- What `postAddNotification` and `postRemoveNotification` call, with a stack for `depth`
notifications in one another; a deeper one overflows it. -/
def notification (data : EquipData) (depth : ℕ) (event : MoveEvent_t) (s : EquippedPlayer)
    (item : ℕ) (slot : slots_t) : Option EquippedPlayer :=
  match depth, event with
  | 0, _ => none
  | depth + 1, .MOVE_EVENT_EQUIP => onPlayerEquip data (notification data depth) s item slot
  | depth + 1, .MOVE_EVENT_DEEQUIP => onPlayerDeEquip data (notification data depth) s item slot

/-! ### A deeper stack -/

section Depth

variable {data : EquipData}
  {notify notify' : MoveEvent_t → EquippedPlayer → ℕ → slots_t → Option EquippedPlayer}
  (hmono : ∀ event s item slot t, notify event s item slot = some t →
    notify' event s item slot = some t)

include hmono

end Depth

/-! ## The system -/

inductive Action
  /-- A new item is put into an empty slot. -/
  | addThing (slot : slots_t) (itemId : ℕ)
  /-- An item leaves its slot, perhaps for another one. -/
  | moveThing (slot : slots_t) (toSlot : Option slots_t)
  /-- A stack grows or shrinks in its slot. -/
  | updateThing (event : MoveEvent_t) (slot : slots_t)
  /-- The level changes, and with it or alone the magic level and the skills. -/
  | advance (level : ℕ) (baseSpeed healthMax manaMax magLevel : int32_t)
      (skillLevel : skills_t → ℕ)

def advance (s : EquippedPlayer) (level : ℕ) (baseSpeed healthMax manaMax magLevel : int32_t)
    (skillLevel : skills_t → ℕ) : EquippedPlayer :=
  { s with
    level := level
    baseSpeed := baseSpeed
    player := { s.player with healthMax, manaMax, magLevel, skillLevel } }

def step (data : EquipData) (depth : ℕ) (s : EquippedPlayer) : Action → Option EquippedPlayer
  | .addThing slot itemId =>
    if s.inventory slot = none then
      notification data depth .MOVE_EVENT_EQUIP
        ((s.createItem itemId).setInventory slot (some s.nextItem)) s.nextItem slot
    else none
  | .moveThing slot toSlot =>
    match s.inventory slot, toSlot with
    | none, _ => none
    | some item, none =>
      notification data depth .MOVE_EVENT_DEEQUIP (s.setInventory slot none) item slot
    | some item, some toSlot =>
      if s.inventory toSlot = none then
        (notification data depth .MOVE_EVENT_DEEQUIP
          ((s.setInventory slot none).setInventory toSlot (some item)) item slot).bind fun s =>
            match s.getThingIndex item with
            | none => some s
            | some index => notification data depth .MOVE_EVENT_EQUIP s item index
      else none
  | .updateThing event slot =>
    match s.inventory slot with
    | none => none
    | some item => notification data depth event s item slot
  | .advance level baseSpeed healthMax manaMax magLevel skillLevel =>
    some (s.advance level baseSpeed healthMax manaMax magLevel skillLevel)

/-- The player before anything is equipped. -/
def unequipped (s : EquippedPlayer) : EquippedPlayer :=
  { s with
    player := { s.player with varSkills := 0, varStats := 0 }
    varSpeed := 0
    conditionSuppressions := 0
    inventory := fun _ => none
    inventoryAbilities := fun _ => false }

end EquippedPlayer

end TibiaServer.Players
