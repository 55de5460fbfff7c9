import TibiaServer.IOMapSerialize.Restored
/-!
# The items of a house tile

The vector of a tile holds its down items and behind them its top items; here it is two
lists.  `addThing` puts a top item in front of the first one of its own order or above, and
`internalAddThing` in front of the first one above.  Creatures, flags and notifications are
left out.
-/

namespace TibiaServer.IOMapSerialize

structure Tile where
  ground : Option ItemTree := none
  downItems : List ItemTree := []
  topItems : List ItemTree := []

namespace Tile

variable (types : ℕ → ItemType) (tile : Tile)

def getItemList : List ItemTree := tile.downItems ++ tile.topItems

/-- Another value for the item at a place of the vector. -/
def setItem (place : ℕ) (x : ItemTree) : Tile :=
  if place < tile.downItems.length then { tile with downItems := tile.downItems.set place x }
  else { tile with topItems := tile.topItems.set (place - tile.downItems.length) x }

/-- Whether `getThingIndex` looks for the item where it is. -/
def isFound (place : ℕ) : Bool :=
  match tile.getItemList[place]? with
  | some x => (x.item.type types).alwaysOnTop = decide (tile.downItems.length ≤ place)
  | none => false

/-- `removeThing` of the whole item. -/
def removeItem (place : ℕ) : Tile :=
  if !tile.isFound types place then tile
  else if place < tile.downItems.length then
    { tile with downItems := tile.downItems.eraseIdx place }
  else { tile with topItems := tile.topItems.eraseIdx (place - tile.downItems.length) }

/-- `put` in front of the first item that passes the test, or at the end. -/
def insertBefore (test : ItemTree → Bool) (put : List ItemTree) : List ItemTree → List ItemTree
  | [] => put
  | y :: rest => if test y then put ++ y :: rest else y :: insertBefore test put rest

def removeOldSplash : Tile :=
  match tile.topItems.findIdx? fun y => (y.item.type types).isSplash with
  | some n => tile.removeItem types (tile.downItems.length + n)
  | none => tile

/-- `addThing` of an item. -/
def addThing (x : ItemTree) : Tile :=
  let it := x.item.type types
  if tile.getItemList.length ≥ 0xFFFF then tile
  else if it.isGroundTile then { tile with ground := some x }
  else if it.alwaysOnTop then
    let tile := if it.isSplash then tile.removeOldSplash types else tile
    { tile with
      topItems := insertBefore
        (fun y => it.alwaysOnTopOrder ≤ (y.item.type types).alwaysOnTopOrder) [x] tile.topItems }
  else if it.isMagicField then
    match tile.downItems.findIdx? fun y => y.item.itemClass = .MagicField with
    | some n =>
      match tile.downItems[n]? with
      | some oldField =>
        if (oldField.item.type types).replaceable then
          let tile := tile.removeItem types n
          { tile with downItems := x :: tile.downItems }
        else tile
      | none => tile
    | none => { tile with downItems := x :: tile.downItems }
  else { tile with downItems := x :: tile.downItems }

/-- `internalAddThing` of an item; `put` is what becomes of it when it starts to decay. -/
def internalAddThing (item : Item) (put : List ItemTree) : Tile :=
  let it := item.type types
  if it.isGroundTile then
    if tile.ground.isNone then { tile with ground := put.head? } else tile
  else if tile.getItemList.length ≥ 0xFFFF then tile
  else if it.alwaysOnTop then
    { tile with
      topItems := insertBefore
        (fun y => (y.item.type types).alwaysOnTopOrder > it.alwaysOnTopOrder) put tile.topItems }
  else { tile with downItems := put ++ tile.downItems }

/-- `Game::transformItem` without a count. -/
def transformItem (place : ℕ) (newId : UInt16) : Tile :=
  match tile.getItemList[place]? with
  | none => tile
  | some (.mk item itemlist) =>
    if item.id = newId then tile
    else if !tile.isFound types place then tile
    else if !item.canTransform then tile
    else
      let newType := types newId.toNat
      let curType := item.type types
      if newType.id = 0 then tile
      else if curType.alwaysOnTop ≠ newType.alwaysOnTop then
        (tile.removeItem types place).addThing types (.mk (item.setID types newId) itemlist)
      else if curType.type = newType.type then
        let count := item.getSubType types
        let item :=
          if curType.id ≠ newType.id ∧ newType.group ≠ curType.group then
            item.setDefaultSubtype types
          else item
        let itemId := if curType.id ≠ newType.id then newId else item.id
        tile.setItem place (.mk ((item.setID types itemId).setSubType types count) itemlist)
      else
        match Item.CreateItem types newId 0 with
        | some newItem => tile.setItem place (.mk newItem [])
        | none => tile

end Tile

/-!
## Saving and loading items

`saveItem` writes an item, its attributes and, for a container, the number of its items and
the items from the last one to the first.  `loadItem` makes a new item of what it reads, or
looks for the map's own one if the item cannot be moved; the items of a container go to its
front one after the other.
-/
/-! ## Saving -/

section Saving

variable (types : ℕ → ItemType)

mutual

def saveItem : ItemTree → List UInt8
  | .mk item itemlist =>
    write 2 item.id.toNat ++ item.serializeClassAttr types ++
      (if item.isContainer then
        AttrTypes_t.ATTR_CONTAINER_ITEMS.code ::
          (write 4 itemlist.length ++ saveReversed itemlist)
      else []) ++ [0]

/-- The loop from `getReversedItems` to `getReversedEnd`. -/
def saveReversed : List ItemTree → List UInt8
  | [] => []
  | x :: rest => saveReversed rest ++ saveItem x

end

end Saving

/-! ## Starting to decay -/

section Decaying

variable (server : Server)

/-- `canDecay` of an item that is on the map. -/
def Item.canDecay (types : ℕ → ItemType) (item : Item) : Bool :=
  (item.type types).decayTo ≥ 0 && (item.type types).decayTime ≠ 0 &&
    !item.hasAttribute .ITEM_ATTRIBUTE_UNIQUEID

/-- What `Game::startDecay` leaves in the place of the item. -/
def startDecay (x : ItemTree) : List ItemTree :=
  if !x.item.canDecay server.types then [x]
  else if x.item.getDecaying = .DECAYING_TRUE then [x]
  else if x.item.getDuration ≠ 0 then [.mk (x.item.setDecaying .DECAYING_TRUE) x.itemlist]
  else server.internalDecayItem x

mutual

/-- A container passes the call on to its items and does not decay itself. -/
def startDecaying : ItemTree → List ItemTree
  | .mk item itemlist =>
    if item.isContainer then [.mk item (startDecayingAll itemlist)]
    else startDecay server (.mk item itemlist)

def startDecayingAll : List ItemTree → List ItemTree
  | [] => []
  | x :: rest => startDecaying x ++ startDecayingAll rest

end

end Decaying

/-! ## Loading -/

section Loading

variable (server : Server)

/-- The loop of `loadContainer`; what is left of `serializationCount` comes first. -/
def loadItems (load : List ItemTree → PropStream → Bool × List ItemTree × PropStream) :
    ℕ → List ItemTree → PropStream → ℕ × List ItemTree × PropStream
  | 0, itemlist, propStream => (0, itemlist, propStream)
  | n + 1, itemlist, propStream =>
    match load itemlist propStream with
    | (true, itemlist, propStream) => loadItems load n itemlist propStream
    | (false, itemlist, propStream) => (n + 1, itemlist, propStream)

def loadContainer (load : List ItemTree → PropStream → Bool × List ItemTree × PropStream)
    (container : ItemTree) (propStream : PropStream) : Bool × ItemTree × PropStream :=
  match loadItems load container.item.serializationCount container.itemlist propStream with
  | (serializationCount, itemlist, propStream) =>
    let container := .mk { container.item with serializationCount } itemlist
    if serializationCount ≠ 0 then (false, container, propStream)
    else
      match propStream.read 1 with
      | (some endAttr, propStream) => (endAttr = 0, container, propStream)
      | (none, propStream) => (false, container, propStream)

/-- The new item of `loadItem`; `load` puts an item into its contents. -/
def loadNewItem (load : List ItemTree → PropStream → Bool × List ItemTree × PropStream)
    (id : UInt16) (propStream : PropStream) : Bool × Option ItemTree × PropStream :=
  match Item.CreateItem server.types id 0 with
  | none => (true, none, propStream)
  | some item =>
    match item.unserializeAttr server propStream with
    | (false, _, propStream) => (false, none, propStream)
    | (true, item, propStream) =>
      if item.isContainer then
        match loadContainer load (.mk item []) propStream with
        | (true, container, propStream) => (true, some container, propStream)
        | (false, _, propStream) => (false, none, propStream)
      else (true, some (.mk item []), propStream)

/-- `loadItem` with a container, which is on the map or stands alone as a new one does.
Every item takes bytes, so `fuel` is the length of the stream. -/
def loadIntoContainer : ℕ → Bool → List ItemTree → PropStream → Bool × List ItemTree × PropStream
  | 0, _, itemlist, propStream => (false, itemlist, propStream)
  | fuel + 1, onMap, itemlist, propStream =>
    match propStream.read 2 with
    | (none, propStream) => (false, itemlist, propStream)
    | (some id, propStream) =>
      match loadNewItem server (loadIntoContainer fuel false) (UInt16.ofNat id) propStream with
      | (ok, some x, propStream) =>
        (ok, (if onMap then startDecaying server x else [x]) ++ itemlist, propStream)
      | (ok, none, propStream) => (ok, itemlist, propStream)

namespace Tile

/-- Whether `loadItem` takes an item of the tile for the one of the map. -/
def isMapItem (id : UInt16) (x : ItemTree) : Bool :=
  let iType := server.types id.toNat
  x.item.id = id || iType.isDoor && x.item.getDoor || iType.isBed && x.item.getBed

/-- The attributes and contents of an item of the map, and its id in the end. -/
def loadMapItem (place : ℕ) (x : ItemTree) (id : UInt16) (propStream : PropStream) (tile : Tile) :
    Bool × Tile × PropStream :=
  match x.item.unserializeAttr server propStream with
  | (false, item, propStream) => (true, tile.setItem place (.mk item x.itemlist), propStream)
  | (true, item, propStream) =>
    if item.isContainer then
      match loadContainer (loadIntoContainer server propStream.length true)
          (.mk item x.itemlist) propStream with
      | (false, container, propStream) => (false, tile.setItem place container, propStream)
      | (true, container, propStream) =>
        (true, (tile.setItem place container).transformItem server.types place id, propStream)
    else
      (true, (tile.setItem place (.mk item x.itemlist)).transformItem server.types place id,
        propStream)

/-- The attributes of an item that the map no longer has. -/
def loadDummy (id : UInt16) (propStream : PropStream) : Bool × PropStream :=
  match Item.CreateItem server.types id 0 with
  | none => (true, propStream)
  | some dummy =>
    match dummy.unserializeAttr server propStream with
    | (_, dummy, propStream) =>
      if dummy.isContainer then
        match loadContainer (loadIntoContainer server propStream.length false)
            (.mk dummy []) propStream with
        | (ok, _, propStream) => (ok, propStream)
      else (true, propStream)

/-- `loadItem` with a tile. -/
def loadItem (tile : Tile) (propStream : PropStream) : Bool × Tile × PropStream :=
  match propStream.read 2 with
  | (none, propStream) => (false, tile, propStream)
  | (some id, propStream) =>
    let id := UInt16.ofNat id
    if (server.types id.toNat).moveable then
      match loadNewItem server (loadIntoContainer server propStream.length false) id
          propStream with
      | (ok, some x, propStream) =>
        (ok, tile.internalAddThing server.types x.item (startDecaying server x), propStream)
      | (ok, none, propStream) => (ok, tile, propStream)
    else
      match tile.getItemList.findIdx? (isMapItem server id) with
      | some place =>
        match tile.getItemList[place]? with
        | some x => tile.loadMapItem server place x id propStream
        | none => (true, tile, propStream)
      | none =>
        match loadDummy server id propStream with
        | (ok, propStream) => (ok, tile, propStream)

end Tile

end Loading

end TibiaServer.IOMapSerialize
