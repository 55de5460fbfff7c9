import TibiaServer.IOMapSerialize.LoadItem
/-!
# Items come back from their bytes

Loading undoes saving up to what `Item.restored` says of each object of the tree.  The
proof is by recursion on the tree: the loop of `loadContainer` puts the items, which were
written from the last one to the first, in front of each other.
-/

namespace TibiaServer.IOMapSerialize

open Library

/-- An object and its contents that can be made anew and fit into their fields. -/
structure RestorableItem (types : ℕ → ItemType) (item : Item) (itemlist : List ItemTree) :
    Prop where
  creatable : item.Creatable types
  fits : item.Fits types
  plain : item.isPlain = true
  contents : item.isContainer = false → itemlist = []
  size : itemlist.length < 4294967296

abbrev ItemTree.Restorable (types : ℕ → ItemType) : ItemTree → Prop :=
  ItemTree.Forall (RestorableItem types)

section

variable {server : Server} {item : Item} {itemlist : List ItemTree}

theorem isContainer_restored (types : ℕ → ItemType) (item : Item) :
    (item.restored types).isContainer = item.isContainer := rfl

theorem isContainer_congr {x : Item} (h : item.itemClass = x.itemClass) :
    item.isContainer = x.isContainer := by
  rw [Item.isContainer, h, Item.isContainer]

theorem itemClass_ofType (types : ℕ → ItemType) (itemClass : Tiles.ItemClass) (id : UInt16)
    (c : ℕ) : (Item.ofType types itemClass id c).itemClass = itemClass := by
  unfold Item.ofType
  simp only [Item.setDefaultDuration_eq, Item.setFluidType_eq, Item.setCharges_eq,
    Item.setItemCount]
  split_ifs <;> rfl

theorem itemClass_copied (types : ℕ → ItemType) (x item : Item) :
    (x.copied types item).itemClass = item.itemClass ∧ (x.copied types item).id = item.id := by
  have hset : ∀ (item : Item) (n : ℕ), (item.setSubType types n).itemClass = item.itemClass ∧
      (item.setSubType types n).id = item.id := by
    intro item n
    unfold Item.setSubType
    simp only [Item.setFluidType_eq, Item.setCharges_eq, Item.setItemCount]
    split_ifs <;> exact ⟨rfl, rfl⟩
  simp only [Item.copied, Item.copyStr, Item.copyInt, Item.copyActionId_eq, Item.copyDate_eq,
    Item.copyDecaying_eq, Item.copyDuration_eq]
  unfold Item.copyCharges Item.copyCount
  dsimp only
  split_ifs <;> simp [hset]

/-- Reading the bytes of `item` into `target`. -/
theorem unserializeAttr_end (hitem : item.Fits server.types) (target : Item) (rest : PropStream) :
    target.unserializeAttr server (item.serializeAttr server.types ++ 0 :: rest) =
      (true, item.copied server.types target, rest) := by
  rw [Item.unserializeAttr, (Item.reads_serializeAttr hitem).readAll_append_zero]

theorem unserializeAttr_contents (hitem : item.Fits server.types) {target : Item}
    (hcontainer : target.isContainer = true) (hlocker : target.itemClass ≠ .DepotLocker) {n : ℕ}
    (hn : n < 4294967296) (rest : PropStream) :
    target.unserializeAttr server
      (item.serializeAttr server.types ++
        AttrTypes_t.ATTR_CONTAINER_ITEMS.code :: (write 4 n ++ rest)) =
      (true, { item.copied server.types target with serializationCount := n }, rest) := by
  rw [Item.unserializeAttr, Item.reads_serializeAttr hitem]
  apply Fields.readAll_finished (AttrTypes_t.code_ne_zero _)
  have hsame := (itemClass_copied server.types item target).1
  have hclass : ((item.copied server.types target).isContainer &&
      (item.copied server.types target).itemClass ≠ .DepotLocker) = true := by
    rw [isContainer_congr hsame, hcontainer, hsame, Bool.true_and]
    exact decide_eq_true hlocker
  rw [Item.readField, AttrTypes_t.ofCode_code]
  dsimp only [Item.readClassAttr]
  rw [if_pos hclass, PropStream.read_write_of_lt (show n < 256 ^ 4 by omega)]

theorem loadItems_add {load : List ItemTree → PropStream → Bool × List ItemTree × PropStream}
    {m : ℕ} (n : ℕ) {l l' : List ItemTree} {s s' : PropStream}
    (h : loadItems load m l s = (0, l', s')) :
    loadItems load (m + n) l s = loadItems load n l' s' := by
  induction m generalizing l s with
  | zero =>
    cases h
    rw [Nat.zero_add]
  | succ m ih =>
    rw [Nat.succ_add]
    rw [loadItems] at h ⊢
    split at h
    · exact ih h
    · simp at h

theorem length_saveItem (types : ℕ → ItemType) (x : ItemTree) : 2 ≤ (saveItem types x).length := by
  cases x
  simp only [saveItem, List.length_append, PropStream.length_write]
  omega

/-- The bytes of `saveItem` behind the id. -/
def saveBody (types : ℕ → ItemType) (item : Item) (itemlist : List ItemTree) : List UInt8 :=
  item.serializeClassAttr types ++
    (if item.isContainer then
      AttrTypes_t.ATTR_CONTAINER_ITEMS.code ::
        (write 4 itemlist.length ++ saveReversed types itemlist)
    else []) ++ [0]

theorem saveItem_eq (types : ℕ → ItemType) (item : Item) (itemlist : List ItemTree) :
    saveItem types (.mk item itemlist) = write 2 item.id.toNat ++ saveBody types item itemlist := by
  simp [saveItem, saveBody]

theorem read_saveItem (types : ℕ → ItemType) (item : Item) (itemlist : List ItemTree)
    (rest : PropStream) :
    PropStream.read 2 (saveItem types (.mk item itemlist) ++ rest) =
      (some item.id.toNat, saveBody types item itemlist ++ rest) := by
  have hlt := item.id.toNat_lt
  rw [saveItem_eq, List.append_assoc, PropStream.read_write_of_lt (by omega)]

theorem loadContainer_of_loadItems
    {load : List ItemTree → PropStream → Bool × List ItemTree × PropStream} {n : ℕ}
    {l : List ItemTree} {s rest : PropStream} (h : loadItems load n [] s = (0, l, 0 :: rest)) :
    loadContainer load (.mk { item with serializationCount := n } []) s =
      (true, .mk { item with serializationCount := 0 } l, rest) := by
  let container : ItemTree := .mk { item with serializationCount := n } []
  have hitems : loadItems load container.item.serializationCount container.itemlist s =
      (0, l, 0 :: rest) := h
  rw [loadContainer, hitems]
  rfl

mutual

/-- Behind the id. -/
theorem loadNewItem_saveBody : ∀ (x : ItemTree), x.Restorable server.types →
    ∀ (fuel : ℕ) (rest : PropStream),
      (saveItem server.types x).length ≤ fuel + 2 →
      loadNewItem server (loadIntoContainer server fuel false) x.item.id
          (saveBody server.types x.item x.itemlist ++ rest) =
        (true, some (x.map (Item.restored server.types)), rest)
  | .mk item itemlist, hx, fuel, rest, hfuel => by
      obtain ⟨hitem, hinside⟩ := ItemTree.forall_mk.mp hx
      obtain ⟨c, hcreate⟩ := Item.createItem_of_plain hitem.creatable hitem.plain
      have hserialize : item.serializeClassAttr server.types = item.serializeAttr server.types :=
        Item.serializeClassAttr_of_plain hitem.plain
      have hlocker : item.itemClass ≠ .DepotLocker := by
        have hplain := hitem.plain
        intro heq
        simp [Item.isPlain, heq] at hplain
      dsimp only [ItemTree.item, ItemTree.itemlist]
      rw [loadNewItem, hcreate]
      dsimp only
      by_cases hcontainer : item.isContainer = true
      · have hlength : (saveReversed server.types itemlist).length ≤ fuel := by
          rw [saveItem_eq, saveBody, if_pos hcontainer] at hfuel
          simp only [List.length_append, List.length_cons, PropStream.length_write] at hfuel
          omega
        have hbody : saveBody server.types item itemlist ++ rest =
            item.serializeAttr server.types ++ AttrTypes_t.ATTR_CONTAINER_ITEMS.code ::
              (write 4 itemlist.length ++ (saveReversed server.types itemlist ++ 0 :: rest)) := by
          simp [saveBody, hserialize, hcontainer]
        have hload := loadItems_saveReversed itemlist hinside fuel [] (0 :: rest) hlength
        rw [List.append_nil] at hload
        have hclass := itemClass_ofType server.types item.itemClass item.id c
        rw [hbody, unserializeAttr_contents hitem.fits ((isContainer_congr hclass).trans hcontainer)
          (hclass.trans_ne hlocker) hitem.size, Item.copied_ofType hitem.fits]
        dsimp only
        rw [if_pos (show ({ item.restored server.types with
            serializationCount := itemlist.length } : Item).isContainer = true from hcontainer),
          loadContainer_of_loadItems hload, ItemTree.map, ItemTree.mapAll_eq]
        rfl
      · have hnil := hitem.contents (by simpa using hcontainer)
        subst hnil
        have hbody : saveBody server.types item [] ++ rest =
            item.serializeAttr server.types ++ 0 :: rest := by
          simp [saveBody, hserialize, hcontainer]
        rw [hbody, unserializeAttr_end hitem.fits, Item.copied_ofType hitem.fits]
        dsimp only
        rw [if_neg (show ¬ (item.restored server.types).isContainer = true from hcontainer)]
        rfl

theorem loadItems_saveReversed : ∀ (l : List ItemTree), (∀ x ∈ l, x.Restorable server.types) →
    ∀ (fuel : ℕ) (contents : List ItemTree) (rest : PropStream),
      (saveReversed server.types l).length ≤ fuel →
      loadItems (loadIntoContainer server fuel false) l.length contents
          (saveReversed server.types l ++ rest) =
        (0, l.map (ItemTree.map (Item.restored server.types)) ++ contents, rest)
  | [], _, _, _, _, _ => rfl
  | x :: l, hall, fuel, contents, rest, hfuel => by
      have hx := hall x (List.mem_cons_self ..)
      have hl : ∀ y ∈ l, y.Restorable server.types := fun y hy =>
        hall y (List.mem_cons_of_mem x hy)
      rw [saveReversed, List.length_append] at hfuel
      have hfirst := loadItems_saveReversed l hl fuel contents (saveItem server.types x ++ rest)
        (by omega)
      obtain ⟨item, itemlist⟩ := x
      have hpos := length_saveItem server.types (.mk item itemlist)
      obtain ⟨fuel, rfl⟩ : ∃ n, fuel = n + 1 := ⟨fuel - 1, by omega⟩
      have hnew := loadNewItem_saveBody (.mk item itemlist) hx fuel rest (by omega)
      rw [saveReversed, List.append_assoc, List.length_cons, loadItems_add 1 hfirst, loadItems,
        loadIntoContainer, read_saveItem]
      dsimp only
      rw [UInt16.ofNat_toNat]
      dsimp only [ItemTree.item, ItemTree.itemlist] at hnew
      rw [hnew]
      rfl

end

/-! ## Decay -/

/-- What `startDecaying` makes of an item that has time left. -/
def Item.started (types : ℕ → ItemType) (item : Item) : Item :=
  if !item.isContainer ∧ item.canDecay types = true then item.setDecaying .DECAYING_TRUE else item

/-- The time of the item is not up when it comes back. -/
def Item.Lasts (types : ℕ → ItemType) (item : Item) : Prop :=
  (item.restored types).canDecay types = true → (item.restored types).getDuration ≠ 0

theorem getDecaying_restored (types : ℕ → ItemType) (item : Item) :
    (item.restored types).getDecaying ≠ .DECAYING_TRUE := by
  have hvalue : (item.restored types).getIntAttr .ITEM_ATTRIBUTE_DECAYSTATE =
      ((item.restoredInteger types) .ITEM_ATTRIBUTE_DECAYSTATE).getD 0 := rfl
  rw [Item.getDecaying, hvalue, Item.restoredInteger]
  split <;> decide

theorem startDecay_restored (hlasts : item.Lasts server.types) (l : List ItemTree)
    (hcontainer : item.isContainer = false) :
    startDecay server (.mk (item.restored server.types) l) =
      [.mk ((item.restored server.types).started server.types) l] := by
  have hrestored : (item.restored server.types).isContainer = false := hcontainer
  have hstate := getDecaying_restored server.types item
  unfold startDecay Item.started
  by_cases hdecay : (item.restored server.types).canDecay server.types = true
  · have hleft : ¬ (item.restored server.types).getDuration = 0#32 := hlasts hdecay
    simp [ItemTree.item, ItemTree.itemlist, hdecay, hrestored, hstate, hleft]
  · simp [ItemTree.item, hdecay]

mutual

theorem startDecaying_restored : ∀ (x : ItemTree),
    (x.Forall fun item itemlist =>
      RestorableItem server.types item itemlist ∧ item.Lasts server.types) →
    startDecaying server (x.map (Item.restored server.types)) =
      [x.map fun item => (item.restored server.types).started server.types]
  | .mk item itemlist, hx => by
      obtain ⟨⟨hitem, hlasts⟩, hinside⟩ := ItemTree.forall_mk.mp hx
      have hall := startDecayingAll_restored itemlist hinside
      rw [ItemTree.map, startDecaying, isContainer_restored, ItemTree.map]
      by_cases hcontainer : item.isContainer = true
      · have hstarted : (item.restored server.types).started server.types =
            item.restored server.types := by
          rw [Item.started, isContainer_restored, hcontainer, if_neg (by simp)]
        rw [if_pos hcontainer, hall, hstarted]
      · have hnot : item.isContainer = false := by simpa using hcontainer
        rw [if_neg hcontainer, hitem.contents hnot]
        exact startDecay_restored hlasts [] hnot

theorem startDecayingAll_restored : ∀ (l : List ItemTree),
    (∀ x ∈ l, x.Forall fun item itemlist =>
      RestorableItem server.types item itemlist ∧ item.Lasts server.types) →
    startDecayingAll server (ItemTree.mapAll (Item.restored server.types) l) =
      ItemTree.mapAll (fun item => (item.restored server.types).started server.types) l
  | [], _ => rfl
  | x :: l, hall => by
      have hx := startDecaying_restored x (hall x (List.mem_cons_self ..))
      have hl := startDecayingAll_restored l fun y hy => hall y (List.mem_cons_of_mem x hy)
      rw [ItemTree.mapAll, startDecayingAll, hx, hl]
      rfl

end

/-! ## Loading what was saved -/

/-- An item as it stands on the map after loading. -/
def ItemTree.reloaded (types : ℕ → ItemType) (x : ItemTree) : ItemTree :=
  x.map fun item => (item.restored types).started types

def ItemTree.Lasting (types : ℕ → ItemType) (x : ItemTree) : Prop :=
  x.Forall fun item itemlist => RestorableItem types item itemlist ∧ item.Lasts types

theorem ItemTree.forall_mono {p q : Item → List ItemTree → Prop} (h : ∀ item l, p item l → q item l)
    {x : ItemTree} (hx : x.Forall p) : x.Forall q := by
  induction hx with
  | mk here inside ih => exact .mk (h _ _ here) ih

theorem restorable_of_lasting {x : ItemTree} (hx : x.Lasting server.types) :
    x.Restorable server.types :=
  ItemTree.forall_mono (fun _ _ h => h.1) hx

theorem loadIntoContainer_restorable {x : ItemTree} (hx : x.Restorable server.types) {fuel : ℕ}
    (hfuel : (saveItem server.types x).length ≤ fuel) (onMap : Bool) (contents : List ItemTree)
    (rest : PropStream) :
    loadIntoContainer server fuel onMap contents (saveItem server.types x ++ rest) =
      (true,
        (if onMap then startDecaying server (x.map (Item.restored server.types))
          else [x.map (Item.restored server.types)]) ++ contents,
        rest) := by
  obtain ⟨item, itemlist⟩ := x
  have hpos := length_saveItem server.types (.mk item itemlist)
  obtain ⟨fuel, rfl⟩ : ∃ n, fuel = n + 1 := ⟨fuel - 1, by omega⟩
  have hnew := loadNewItem_saveBody (.mk item itemlist) hx fuel rest (by omega)
  rw [loadIntoContainer, read_saveItem]
  dsimp only
  rw [UInt16.ofNat_toNat]
  dsimp only [ItemTree.item, ItemTree.itemlist] at hnew
  rw [hnew]

theorem loadIntoContainer_lasting {x : ItemTree} (hx : x.Lasting server.types) {fuel : ℕ}
    (hfuel : (saveItem server.types x).length ≤ fuel) (contents : List ItemTree)
    (rest : PropStream) :
    loadIntoContainer server fuel true contents (saveItem server.types x ++ rest) =
      (true, x.reloaded server.types :: contents, rest) := by
  rw [loadIntoContainer_restorable (restorable_of_lasting hx) hfuel, if_pos rfl,
    startDecaying_restored x hx]
  rfl

theorem loadItem_lasting {x : ItemTree} (hx : x.Lasting server.types)
    (hmoveable : (x.item.type server.types).moveable = true) (tile : Tile) (rest : PropStream) :
    tile.loadItem server (saveItem server.types x ++ rest) =
      (true, tile.internalAddThing server.types x.item [x.reloaded server.types], rest) := by
  have hstarted := startDecaying_restored x hx
  obtain ⟨item, itemlist⟩ := x
  have hrestorable := restorable_of_lasting hx
  have hlength : (saveItem server.types (.mk item itemlist)).length ≤
      (saveBody server.types item itemlist ++ rest).length + 2 := by
    rw [saveItem_eq, List.length_append, List.length_append, PropStream.length_write]
    omega
  have hnew := loadNewItem_saveBody (.mk item itemlist) hrestorable
    (saveBody server.types item itemlist ++ rest).length rest hlength
  have hmove : (server.types item.id.toNat).moveable = true := hmoveable
  dsimp only [ItemTree.item, ItemTree.itemlist] at hnew
  rw [Tile.loadItem, read_saveItem]
  dsimp only
  rw [UInt16.ofNat_toNat, if_pos hmove, hnew]
  dsimp only
  rw [hstarted]
  rfl

end

/-! ## A bag with coins and a letter, and a worn ring -/

theorem unknown_plain :
    Cylinders.itemgroup_t.ITEM_GROUP_NONE = .ITEM_GROUP_NONE ∧
      (Cylinders.ItemTypes_t.ITEM_TYPE_NONE = .ITEM_TYPE_NONE ∨
        Cylinders.ItemTypes_t.ITEM_TYPE_NONE = .ITEM_TYPE_RUNE) ∧
      false = false ∧ Cylinders.createdId 0 = 0 := by
  decide

/-- A bag, gold coins, a letter and a ring that is worn. -/
def houseTypes : ℕ → ItemType
  | 1987 => { id := 1987, group := .ITEM_GROUP_CONTAINER, moveable := true }
  | 2148 => { id := 2148, stackable := true, moveable := true }
  | 2597 => { id := 2597, moveable := true, canWriteText := true }
  | 2207 => { id := 2207, moveable := true }
  | 2210 => { id := 2210, moveable := true }
  | _ => { id := 0, stackable_plain := fun _ => unknown_plain }

def houseServer : Server where
  types := houseTypes
  getNameByGuid := fun _ => []
  addUniqueItem := fun _ => true
  internalDecayItem := fun x => [x]

def letter : Item where
  itemClass := .Item
  id := 2597
  string := fun type => if type = .ITEM_ATTRIBUTE_TEXT then [104, 105] else []

def coins : Item := { itemClass := .Item, id := 2148, count := 40 }

def bagOfThings : ItemTree :=
  .mk { itemClass := .Container, id := 1987 }
    [.mk coins [], .mk { itemClass := .Container, id := 1987 } [.mk letter []]]

theorem houseTypes_lasts (item : Item) : item.Lasts houseTypes := by
  intro h
  have htype : (item.type houseTypes).decayTime = 0 := by
    unfold Item.type houseTypes
    split <;> rfl
  have hrestored : ((item.restored houseTypes).type houseTypes).decayTime = 0 := htype
  simp [Item.canDecay, hrestored] at h

/-- An object of these types without numbers among its attributes. -/
theorem houseTypes_restorable {item : Item} {l : List ItemTree}
    (hinteger : item.integer = fun _ => none) (hstring : ∀ type, (item.string type).length ≤ 65535)
    (hfluid : (item.type houseTypes).holdsFluid = false)
    (hcharges : (item.type houseTypes).hasCharges = false) (hcreatable : item.Creatable houseTypes)
    (hplain : item.isPlain = true) (hcontents : item.isContainer = false → l = [])
    (hsize : l.length < 4294967296) :
    RestorableItem houseTypes item l ∧ item.Lasts houseTypes := by
  have hnone : item.getCharges = 0 := by
    simp [Item.getCharges, Item.getUInt16, Item.getIntAttr, hinteger]
  refine ⟨⟨hcreatable, ⟨?_, ?_, ?_, ?_, ?_⟩, hplain, hcontents, hsize⟩, houseTypes_lasts item⟩
  · intro h
    rw [hfluid] at h
    exact absurd h (by simp)
  · simp [hnone, hcharges]
  · intro value h
    simp [hinteger] at h
  · intro value h
    simp [hinteger] at h
  · intro type
    unfold Item.getStrAttr
    split
    · exact hstring type
    · simp

theorem bagOfThings_lasting : bagOfThings.Lasting houseTypes := by
  have hbag : ∀ l : List ItemTree, l.length < 4294967296 →
      RestorableItem houseTypes { itemClass := .Container, id := 1987 } l ∧
        Item.Lasts houseTypes { itemClass := .Container, id := 1987 } := fun l hl =>
    houseTypes_restorable rfl (fun _ => by simp) (by decide) (by decide)
      ⟨by decide, by decide, by decide, by decide⟩ (by decide) (fun h => absurd h (by decide)) hl
  have hcoins : RestorableItem houseTypes coins [] ∧ coins.Lasts houseTypes :=
    houseTypes_restorable rfl (fun _ => by simp [coins]) (by decide) (by decide)
    ⟨by decide, by decide, by decide, by decide⟩ (by decide) (fun _ => rfl) (by decide)
  have hletter : RestorableItem houseTypes letter [] ∧ letter.Lasts houseTypes := by
    apply houseTypes_restorable rfl
    · intro type
      unfold letter
      dsimp only
      split <;> decide
    · decide
    · decide
    · exact ⟨by decide, by decide, by decide, by decide⟩
    · decide
    · exact fun _ => rfl
    · decide
  refine .mk (hbag _ (by decide)) (List.forall_mem_cons.mpr ⟨.mk hcoins (by simp), ?_⟩)
  refine List.forall_mem_cons.mpr ⟨.mk (hbag _ (by decide)) ?_, by simp⟩
  exact List.forall_mem_cons.mpr ⟨.mk hletter (by simp), by simp⟩

end TibiaServer.IOMapSerialize
