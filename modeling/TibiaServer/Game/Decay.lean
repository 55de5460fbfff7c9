import TibiaServer.Tiles.Tile
/-!
# Items that decay

`startDecay` puts an item into `toDecayItems` and takes a reference for it; `cleanup` moves it
to the bucket of its time, and `checkDecay` goes through one bucket after the other.  Where an
item stands is given with the call; what matters is whether it has a parent at all.
-/

namespace TibiaServer.Game

open TibiaServer.Cylinders (ItemRef)
open TibiaServer.Tiles (ItemType Item)

def EVENT_DECAYINTERVAL : ℤ := 250
abbrev EVENT_DECAY_BUCKETS : ℕ := 4

local instance buckets_neZero : NeZero EVENT_DECAY_BUCKETS := ⟨by decide⟩

def DECAYING_FALSE : ℤ := 0
def DECAYING_TRUE : ℤ := 1

structure Decays where
  item : ItemRef → Item
  /-- `getParent() != nullptr` -/
  hasParent : ItemRef → Bool
  referenceCounter : ItemRef → ℕ
  toDecayItems : List ItemRef := []
  decayItems : Fin EVENT_DECAY_BUCKETS → List ItemRef := fun _ => []
  lastBucket : Fin EVENT_DECAY_BUCKETS := 0
  toReleaseItems : List ItemRef := []
  /-- All objects are below it. -/
  fresh : ItemRef

/-- What the cylinders answer. -/
structure Surroundings where
  /-- `parent->isRemoved()` -/
  parentIsRemoved : Decays → ItemRef → Bool := fun _ _ => false
  /-- `getThingIndex` is not -1 -/
  isFound : Decays → ItemRef → Bool := fun _ _ => true
  /-- `queryRemove` of the whole item, which finds it -/
  queryRemove : Decays → ItemRef → Bool := fun _ _ => true
  /-- whether the item has a parent after `addThing` -/
  addThing : Decays → ItemRef → Bool := fun _ _ => true

namespace Decays

variable (types : ℕ → ItemType) (env : Surroundings) (s : Decays) (x : ItemRef)

def setItem (item : Item) : Decays := { s with item := Function.update s.item x item }

def setParent (hasParent : Bool) : Decays :=
  { s with hasParent := Function.update s.hasParent x hasParent }

def incrementReferenceCounter : Decays :=
  { s with referenceCounter := Function.update s.referenceCounter x (s.referenceCounter x + 1) }

def ReleaseItem : Decays := { s with toReleaseItems := s.toReleaseItems ++ [x] }

/-! ## Items -/

def isRemoved : Bool := !s.hasParent x || env.parentIsRemoved s x

def canDecay : Bool :=
  let item := s.item x
  let it := types item.id
  !(s.isRemoved env x) && !(it.decayTo < 0 || it.decayTime = 0) &&
    !item.hasAttribute .ITEM_ATTRIBUTE_UNIQUEID

/-- An `uint8_t`. -/
def getDecaying : ℤ := (s.item x).getIntAttr .ITEM_ATTRIBUTE_DECAYSTATE % 256

def setDecaying (decayState : ℤ) : Decays :=
  s.setItem x { s.item x with
    toItem := (s.item x).toItem.setIntAttr .ITEM_ATTRIBUTE_DECAYSTATE decayState }

/-- As an `int32_t`. -/
def duration : ℤ := (s.item x).getIntAttr .ITEM_ATTRIBUTE_DURATION

def getDuration : ℤ := s.duration x % 4294967296

def decreaseDuration (time : ℤ) : Decays :=
  s.setItem x { s.item x with
    toItem := (s.item x).toItem.setIntAttr .ITEM_ATTRIBUTE_DURATION (s.duration x - time) }

/-! ## Removing and transforming -/

/-- Of the whole item. -/
def internalRemoveItem : Decays :=
  if !s.hasParent x then s
  else if !env.queryRemove s x then s
  else if !(s.item x).canRemove then s
  else (s.setParent x false).ReleaseItem x

/-- `CreateItem`, and the new object takes the place of the old one. -/
def replaceBy (type count : ℕ) : Option ItemRef × Decays :=
  match Item.CreateItem types type count with
  | none => (none, s)
  | some newItem =>
    let created : Decays :=
      { s with
        item := Function.update s.item s.fresh newItem
        hasParent := Function.update s.hasParent s.fresh true
        referenceCounter := Function.update s.referenceCounter s.fresh 1
        fresh := s.fresh + 1 }
    (some s.fresh, (created.setParent x false).ReleaseItem x)

/-! `Game::transformItem`, case by case. -/

/-- A down item becomes a top item or the other way round. -/
def removeAndAdd (newId : ℕ) (newCount : ℤ) : Option ItemRef × Decays :=
  let item := (s.item x).setID types newId
  let item := if newCount ≠ -1 then item.setSubType types (newCount % 65536).toNat else item
  let s := s.setItem x item
  if env.addThing s x then (some x, s) else (none, (s.setParent x false).ReleaseItem x)

/-- `newCount == 0`; `again` is the call in the call. -/
def useUp (again : Option ItemRef × Decays) (newId : ℕ) : Option ItemRef × Decays :=
  let curType := (s.item x).type types
  let newItemId : ℤ := if curType.id = (types newId).id then curType.decayTo else newId
  if (s.item x).isStackable types then (none, s.internalRemoveItem env x)
  else if newItemId ≤ 0 then (none, s.internalRemoveItem env x)
  else if newItemId ≠ newId then s.replaceBy types x (newItemId % 65536).toNat 1
  else again

/-- `updateThing` of the cylinder, and what stands in front of it. -/
def update (newId : ℕ) (newCount : ℤ) : Decays :=
  let item := s.item x
  let newType := types newId
  let curType := item.type types
  let hasSubType := newType.isFluidContainer || newType.isSplash || newType.stackable ||
    newType.charges ≠ 0
  let count := if newCount ≠ -1 ∧ hasSubType then newCount else item.getSubType types
  let itemId := if curType.id ≠ newType.id then newId else item.id
  let item :=
    if curType.id ≠ newType.id ∧ newType.group ≠ curType.group then item.setDefaultSubtype types
    else item
  s.setItem x ((item.setID types itemId).setSubType types (count % 4294967296).toNat)

/-- What is transformed already: `chargeless item placed on map = infinite`. -/
def isTransformed (newId : ℕ) (newCount : ℤ) : Bool :=
  (s.item x).id = newId ∧
    (newCount = -1 ∨ newCount = (s.item x).getSubType types ∧ newCount ≠ 0)

/-- The body of `transformItem`; `again` is the call in the call. -/
def transformWith (again : Option ItemRef × Decays) (newId : ℕ) (newCount : ℤ) :
    Option ItemRef × Decays :=
  if s.isTransformed types x newId newCount then (some x, s)
  else if !s.hasParent x then (none, s)
  else if !env.isFound s x then (some x, s)
  else if !(s.item x).canTransform then (some x, s)
  else if (types newId).id = 0 then (some x, s)
  else if ((s.item x).type types).alwaysOnTop ≠ (types newId).alwaysOnTop then
    s.removeAndAdd types env x newId newCount
  else if ((s.item x).type types).type = (types newId).type then
    if newCount = 0 ∧
        ((s.item x).isStackable types ∨ (s.item x).hasAttribute .ITEM_ATTRIBUTE_CHARGES) then
      s.useUp types env x again newId
    else (some x, s.update types x newId newCount)
  else s.replaceBy types x newId (if newCount = -1 then 0 else (newCount % 65536).toNat)

/-- With the item that it returns. -/
def transformItem (newId : ℕ) (newCount : ℤ) : Option ItemRef × Decays :=
  s.transformWith types env x (s.transformWith types env x (some x, s) newId (-1)) newId newCount

/-! ## Decaying -/

/-- `if (item->getDuration() > 0)`: the lists take a reference. -/
def insert : Decays :=
  { (s.incrementReferenceCounter x).setDecaying x DECAYING_TRUE with
    toDecayItems := x :: s.toDecayItems }

/-- `start` is the call of `startDecay`. -/
def internalDecayItem (start : Decays → ItemRef → Option Decays) : Option Decays :=
  let it := types (s.item x).id
  if it.decayTo ≠ 0 then
    match s.transformItem types env x (it.decayTo % 65536).toNat (-1) with
    | (some newItem, s) => start s newItem
    | (none, s) => some s
  else some (s.internalRemoveItem env x)

/-- `none` when the calls do not come to an end. -/
def startDecay : ℕ → Decays → ItemRef → Option Decays
  | 0, _, _ => none
  | fuel + 1, s, item =>
    if !s.canDecay types env item then some s
    else if s.getDecaying item = DECAYING_TRUE then some s
    else if s.getDuration item > 0 then some (s.insert item)
    else s.internalDecayItem types env item (startDecay fuel)

def setBucket (bucket : Fin EVENT_DECAY_BUCKETS) (list : List ItemRef) : Decays :=
  { s with decayItems := Function.update s.decayItems bucket list }

def pushBucket (bucket : Fin EVENT_DECAY_BUCKETS) : Decays :=
  s.setBucket bucket (s.decayItems bucket ++ [x])

/-- The bucket of an item that has just started to decay. -/
def decayBucket : Fin EVENT_DECAY_BUCKETS :=
  let dur := s.getDuration x
  if dur ≥ EVENT_DECAYINTERVAL * EVENT_DECAY_BUCKETS then s.lastBucket
  else s.lastBucket + 1 + Fin.ofNat _ (dur / 1000).toNat

/-- The loop of `cleanup` over `toDecayItems`. -/
def cleanupLoop : List ItemRef → Decays → Decays
  | [], s => s
  | item :: rest, s => cleanupLoop rest (s.pushBucket item (s.decayBucket item))

/-- The loop over `ToReleaseItems`, and `clear`. -/
def releaseItems : Decays :=
  { s with
    referenceCounter := fun item => s.referenceCounter item - s.toReleaseItems.count item
    toReleaseItems := [] }

def cleanup : Decays :=
  { cleanupLoop s.toDecayItems s.releaseItems with toDecayItems := [] }

/-- The loop of `checkDecay`; the bucket holds `kept` and then what is still to be visited. -/
def checkLoop (fuel : ℕ) (bucket : Fin EVENT_DECAY_BUCKETS) :
    List ItemRef → List ItemRef → Decays → Option Decays
  | _, [], s => some s
  | kept, item :: rest, s =>
    if !s.canDecay types env item then
      checkLoop fuel bucket kept rest
        (((s.setDecaying item DECAYING_FALSE).ReleaseItem item).setBucket bucket (kept ++ rest))
    else
      let duration := s.duration item
      let decreaseTime := min (EVENT_DECAYINTERVAL * EVENT_DECAY_BUCKETS) duration
      let duration := duration - decreaseTime
      let s := s.decreaseDuration item decreaseTime
      let decay (s : Decays) : Option Decays :=
        (s.internalDecayItem types env item (startDecay types env fuel)).bind fun s =>
          checkLoop fuel bucket kept rest (s.ReleaseItem item)
      if duration ≤ 0 then decay (s.setBucket bucket (kept ++ rest))
      else if duration < EVENT_DECAYINTERVAL * EVENT_DECAY_BUCKETS then
        let newBucket := bucket + Fin.ofNat _ ((duration + EVENT_DECAYINTERVAL / 2) / 1000).toNat
        if newBucket = bucket then decay (s.setBucket bucket (kept ++ rest))
        else
          checkLoop fuel bucket kept rest
            ((s.setBucket bucket (kept ++ rest)).pushBucket item newBucket)
      else checkLoop fuel bucket (kept ++ [item]) rest s

def checkDecay (fuel : ℕ) : Option Decays :=
  let bucket := s.lastBucket + 1
  (checkLoop types env fuel bucket [] (s.decayItems bucket) s).map fun s =>
    { s with lastBucket := bucket }.cleanup

end Decays

/-- An operation, with what the cylinders answer to it. -/
inductive DecayAction
  | startDecay (env : Surroundings) (item : ItemRef)
  | checkDecay (env : Surroundings)
  | cleanup
  | transformItem (env : Surroundings) (item : ItemRef) (newId : ℕ) (newCount : ℤ)
  | internalRemoveItem (env : Surroundings) (item : ItemRef)

def Decays.step (types : ℕ → ItemType) (fuel : ℕ) (s : Decays) : DecayAction → Option Decays
  | .startDecay env item => Decays.startDecay types env fuel s item
  | .checkDecay env => s.checkDecay types env fuel
  | .cleanup => some s.cleanup
  | .transformItem env item newId newCount => some (s.transformItem types env item newId newCount).2
  | .internalRemoveItem env item => some (s.internalRemoveItem env item)

end TibiaServer.Game
