import TibiaServer.IOLoginData.LoadItems
/-!
# Inventory and depot

The items in the slots and in the depot chests of a player come back where they were.
-/

namespace TibiaServer.IOLoginData

open TibiaServer.Database TibiaServer.Library

/-- What the query and `loadItems` make of the rows that were saved. -/
def loadedMap (create : ℕ → ℕ → Text → Option Created) (itemList : List (ℤ × Item)) : ItemMap :=
  loadItems create (orderedBySid (savedRows itemList)) []

/-! ## One table -/

section Table

variable {itemList : List (ℤ × Item)} {isTop : ℤ → Bool}

theorem standsFor_rowThing (itemList : List (ℤ × Item)) :
    StandsFor rowThing (numberItems itemList) where
  ref n hn m hm h := eq_of_sid hn hm (Ref.row.inj h)
  isContainer n _ := by
    cases hitem : n.item
    simp [rowThing, hitem, Item.created, Item.isContainer]
  created _ _ _ := rfl

theorem rebuild_itemlist {σ : Type} (itemMap : ItemMap) (isTop : ℤ → Bool)
    (addTop : ℤ → Thing → σ → σ) (start : σ) (ref : Ref) :
    (rebuild itemMap isTop addTop start).itemlist ref =
      (Buckets.bucket (parentRef itemMap isTop) ref itemMap).map fun e => e.2.item :=
  itemlist_foldl_reverse itemMap start ref

theorem rebuild_top {σ : Type} (itemMap : ItemMap) (isTop : ℤ → Bool)
    (addTop : ℤ → Thing → σ → σ) (start : σ) :
    (rebuild itemMap isTop addTop start).top =
      (itemMap.filter fun e => isTop e.2.pid).reverse.foldl
        (fun top e => addTop e.2.pid e.2.item top) start := by
  rw [rebuild, top_foldl, List.filter_reverse]

theorem filled_rebuild (hisTop : ∀ pid, isTop pid = true → pid ≤ 100) {σ : Type}
    (addTop : ℤ → Thing → σ → σ) (start : σ) :
    Filled rowThing itemList
      (rebuild (entries rowThing (numberItems itemList)) isTop addTop start).itemlist := by
  intro m hm
  rw [rebuild_itemlist]
  exact bucket_entries (standsFor_rowThing itemList) hisTop hm

/-- The rows of one place of the player are back in it. -/
theorem representsAll_rowsIn (hisTop : ∀ pid, isTop pid = true → pid ≤ 100)
    (htop : ∀ item ∈ itemList, isTop item.1 = true) {σ : Type}
    (addTop : ℤ → Thing → σ → σ) (start : σ) (pid : ℤ) :
    RepresentsAll (rebuild (entries rowThing (numberItems itemList)) isTop addTop start).itemlist
      ((rowsIn pid (numberItems itemList)).map rowThing)
      ((rowsIn pid (numberItems itemList)).map Numbered.item) := by
  apply representsAll_map
  intro n hn
  exact represents_row (standsFor_rowThing itemList)
    (fun item hitem => hisTop _ (htop item hitem)) (filled_rebuild hisTop addTop start)
    (Buckets.mem_bucket.mp hn).1 rfl

/-- The items that are saved for one place of the player. -/
theorem map_item_rowsIn (itemList : List (ℤ × Item)) {pid : ℤ} (hpid : pid ≤ 100) :
    (rowsIn pid (numberItems itemList)).map Numbered.item =
      (itemList.filter fun item => decide (item.1 = pid)).map Prod.snd := by
  have hblock := map_numberBlock 100 itemList
  conv_rhs => rw [← hblock, List.filter_map, List.map_map]
  rw [rowsIn_top pid hpid]
  simp [rowsIn, Buckets.bucket, Function.comp_def]

theorem map_item_rowsIn_spread {groups : List (ℤ × List Item)}
    (hkeys : (groups.map Prod.fst).Nodup) {group : ℤ × List Item} (hgroup : group ∈ groups)
    (hpid : group.1 ≤ 100) :
    (rowsIn group.1 (numberItems (Buckets.spread groups))).map Numbered.item = group.2 := by
  rw [map_item_rowsIn _ hpid, Buckets.filter_spread hkeys hgroup]

/-- The entries for one place of the player. -/
theorem filter_entries {pid : ℤ} (hpid : isTop pid = true) (rows : List Numbered) :
    ((entries rowThing rows).filter fun e => isTop e.2.pid).filter
        (fun e => decide (e.2.pid = pid)) =
      entries rowThing (rowsIn pid rows) := by
  rw [List.filter_filter, entries, List.filter_map, entries, rowsIn, Buckets.bucket]
  apply congrArg
  apply List.filter_congr
  intro n _
  by_cases hn : n.pid = pid
  · simp [hn, hpid]
  · simp [hn]

/-- The places of the player that are a list of different parents hold the rows of the
top level. -/
theorem perm_tops (hisTop : ∀ pid, isTop pid = true → pid ≤ 100) {pids : List ℤ} (hpids : pids.Nodup)
    (hall : ∀ item ∈ itemList, item.1 ∈ pids) (hmem : ∀ pid ∈ pids, isTop pid = true) :
    ((pids.flatMap fun pid => (rowsIn pid (numberItems itemList)).map rowThing)).Perm
      (((numberItems itemList).filter fun n => isTop n.pid).map rowThing) := by
  rw [← List.map_flatMap]
  apply List.Perm.map
  apply Buckets.perm_flatMap_bucket hpids
  intro n hn
  constructor
  · intro hpid
    rcases exists_container hn with hblock | ⟨m, hm, -, hparent⟩
    · exact ⟨n.pid, hall _ (mem_of_mem_numberBlock hblock), rfl⟩
    · have hle := hisTop n.pid hpid
      have hlt := lt_sid hm
      omega
  · rintro ⟨pid, hpid, heq⟩
    rw [Option.some.inj heq]
    exact hmem pid hpid

end Table

/-! ## The slots -/

theorem isSlot_le (pid : ℤ) (h : isSlot pid = true) : pid ≤ 100 := by
  have hslot := of_decide_eq_true h
  omega

/-- The first entry for a slot keeps it. -/
theorem foldl_playerInternalAddThing (l : List (ℕ × Entry)) (inventory : ℤ → Option Thing)
    {slot : ℤ} (hslot : 0 < slot ∧ slot < 11) :
    l.foldl (fun inventory e => playerInternalAddThing e.2.pid e.2.item inventory) inventory slot =
      (inventory slot).or
        ((l.filter fun e => decide (e.2.pid = slot)).head?.map fun e => e.2.item) := by
  induction l generalizing inventory with
  | nil => simp
  | cons e l ih =>
    rw [List.foldl_cons, ih, List.filter_cons]
    unfold playerInternalAddThing
    by_cases he : e.2.pid = slot
    · cases hold : inventory slot with
      | none => simp [he, hslot, hold]
      | some thing => simp [he, hslot, hold]
    · have hne : slot ≠ e.2.pid := Ne.symm he
      simp only [he, decide_false, Bool.false_eq_true, if_false]
      congr 1
      split
      · split
        · rfl
        · exact Function.update_of_ne hne _ _
      · rfl

def inventoryGroups (player : Player) : List (ℤ × List Item) :=
  (List.range' 1 10).map fun slotId : ℕ => ((slotId : ℤ), (player.inventory slotId).toList)

theorem inventoryList_eq (player : Player) :
    inventoryList player = Buckets.spread (inventoryGroups player) := by
  rw [inventoryList, List.filterMap_eq_flatMap_toList, Buckets.spread, inventoryGroups,
    List.flatMap_map]
  congr 1
  funext slotId
  cases player.inventory slotId <;> rfl

theorem keys_inventoryGroups (player : Player) :
    (inventoryGroups player).map Prod.fst = (List.range' 1 10).map fun slotId : ℕ => (slotId : ℤ) := by
  rw [inventoryGroups, List.map_map]
  rfl

theorem nodup_slots : ((List.range' 1 10).map fun slotId : ℕ => (slotId : ℤ)).Nodup := by decide

theorem isSlot_of_mem (pid : ℤ) (h : pid ∈ (List.range' 1 10).map fun slotId : ℕ => (slotId : ℤ)) :
    isSlot pid = true := by
  obtain ⟨slotId, hslot, rfl⟩ := List.mem_map.mp h
  rw [List.mem_range'_1] at hslot
  exact decide_eq_true (by omega)

section Inventory

variable (player : Player) {slotId : ℕ}

theorem isSlot_of_mem_inventoryList {item : ℤ × Item} (h : item ∈ inventoryList player) :
    isSlot item.1 = true := by
  rw [inventoryList_eq] at h
  exact isSlot_of_mem _ (keys_inventoryGroups player ▸ Buckets.mem_keys_of_mem_spread h)

/-- The rows of a slot are its item. -/
theorem map_item_rowsIn_slot (hslot : slotId ∈ List.range' 1 10) :
    (rowsIn slotId (numberItems (inventoryList player))).map Numbered.item =
      (player.inventory slotId).toList := by
  have hgroup : ((slotId : ℤ), (player.inventory slotId).toList) ∈ inventoryGroups player :=
    List.mem_map.mpr ⟨slotId, hslot, rfl⟩
  have hkeys : ((inventoryGroups player).map Prod.fst).Nodup := by
    rw [keys_inventoryGroups]
    exact nodup_slots
  rw [inventoryList_eq]
  rw [List.mem_range'_1] at hslot
  exact map_item_rowsIn_spread hkeys hgroup (by dsimp only; omega)

/-- The loop puts the row of a slot into it. -/
theorem top_loadInventory (hslot : slotId ∈ List.range' 1 10) :
    ((loadInventory (entries rowThing (numberItems (inventoryList player)))).top slotId).toList =
      (rowsIn slotId (numberItems (inventoryList player))).map rowThing := by
  have hrows := map_item_rowsIn_slot player hslot
  have hpid : isSlot slotId = true := isSlot_of_mem _ (List.mem_map.mpr ⟨slotId, hslot, rfl⟩)
  have hrange := of_decide_eq_true hpid
  rw [loadInventory, rebuild_top, foldl_playerInternalAddThing _ _ (by omega),
    List.filter_reverse, filter_entries hpid]
  cases hrow : rowsIn slotId (numberItems (inventoryList player)) with
  | nil => rfl
  | cons n rest =>
    cases rest with
    | nil => rfl
    | cons m rest =>
      rw [hrow] at hrows
      cases hitem : player.inventory slotId <;> simp [hitem] at hrows

/-- Every slot has the tree that it had. -/
theorem represents_slot (hslot : slotId ∈ List.range' 1 10) :
    Option.Rel
      (Represents
        (loadInventory (entries rowThing (numberItems (inventoryList player)))).itemlist)
      ((loadInventory (entries rowThing (numberItems (inventoryList player)))).top slotId)
      (player.inventory slotId) := by
  have htop := top_loadInventory player hslot
  have hall := representsAll_rowsIn isSlot_le (fun item h => isSlot_of_mem_inventoryList player h)
    playerInternalAddThing (fun _ => none) slotId
  rw [map_item_rowsIn_slot player hslot, ← htop] at hall
  rw [loadInventory] at hall ⊢
  revert hall
  cases (rebuild (entries rowThing (numberItems (inventoryList player))) isSlot
      playerInternalAddThing fun _ => none).top slotId with
  | none =>
    cases player.inventory slotId with
    | none => exact fun _ => .none
    | some item => exact fun hall => (not_representsAll_nil hall).elim
  | some thing =>
    cases player.inventory slotId with
    | none => exact fun hall => (not_representsAll_cons hall).elim
    | some item => exact fun hall => .some (representsAll_cons.mp hall).1

theorem placedOnce_inventory :
    PlacedOnce (entries rowThing (numberItems (inventoryList player)))
      (loadInventory (entries rowThing (numberItems (inventoryList player)))).itemlist
      ((List.range' 1 10).filterMap fun slotId : ℕ =>
        (loadInventory (entries rowThing (numberItems (inventoryList player)))).top slotId) := by
  apply placedOnce (standsFor_rowThing _) isSlot_le fun item h => isSlot_of_mem_inventoryList player h
  · exact rebuild_itemlist _ _ _ _
  have hkeys : ∀ item ∈ inventoryList player,
      item.1 ∈ (List.range' 1 10).map fun slotId : ℕ => (slotId : ℤ) := by
    intro item hitem
    rw [inventoryList_eq] at hitem
    exact keys_inventoryGroups player ▸ Buckets.mem_keys_of_mem_spread hitem
  have htops := perm_tops isSlot_le nodup_slots hkeys isSlot_of_mem
  rw [List.flatMap_map] at htops
  rw [List.filterMap_eq_flatMap_toList]
  have hslots : ((List.range' 1 10).flatMap fun slotId : ℕ =>
      ((loadInventory (entries rowThing (numberItems (inventoryList player)))).top
        slotId).toList) =
      (List.range' 1 10).flatMap fun slotId : ℕ =>
        (rowsIn slotId (numberItems (inventoryList player))).map rowThing :=
    List.flatMap_congr fun slotId hslot => top_loadInventory player hslot
  rwa [hslots]

end Inventory

/-! ## The depot -/

section Depot

theorem isTopPid_le (pid : ℤ) (h : isTopPid pid = true) : pid ≤ 100 := by
  have hid := of_decide_eq_true h
  omega

theorem depotList_eq (player : Player) : depotList player = Buckets.spread player.depotChests :=
  rfl

/-- The loop deals the entries to the chests. -/
theorem top_loadDepot_eq (itemMap : ItemMap) (depotId : ℤ) :
    (loadDepot itemMap).top depotId =
      (Buckets.bucket (fun e : ℕ × Entry => some e.2.pid) depotId
        (itemMap.filter fun e => isTopPid e.2.pid)).map fun e => e.2.item := by
  calc
    _ = (itemMap.filter fun e => isTopPid e.2.pid).reverse.foldl
          (Buckets.push (fun e : ℕ × Entry => some e.2.pid) fun e => e.2.item) (fun _ => [])
          depotId :=
        congrFun (rebuild_top ..) depotId
    _ = _ := by rw [Buckets.foldl_push_reverse, List.append_nil]

/-- A chest gets the items of its rows in order. -/
theorem top_loadDepot {itemList : List (ℤ × Item)} {depotId : ℤ}
    (hid : isTopPid depotId = true) :
    (loadDepot (entries rowThing (numberItems itemList))).top depotId =
      (rowsIn depotId (numberItems itemList)).map rowThing := by
  have hbucket : Buckets.bucket (fun e : ℕ × Entry => some e.2.pid) depotId
      ((entries rowThing (numberItems itemList)).filter fun e => isTopPid e.2.pid) =
        entries rowThing (rowsIn depotId (numberItems itemList)) := by
    rw [← filter_entries hid, Buckets.bucket]
    simp only [Option.some.injEq]
  rw [top_loadDepot_eq, hbucket, entries, List.map_map]
  rfl

/-- A chest in which nothing lay stays empty. -/
theorem top_loadDepot_of_notMem {player : Player} {depotId : ℤ}
    (h : depotId ∉ player.depotChests.map Prod.fst) :
    (loadDepot (entries rowThing (numberItems (depotList player)))).top depotId = [] := by
  cases hid : isTopPid depotId with
  | true =>
    have hnone := map_item_rowsIn (depotList player) (isTopPid_le depotId hid)
    rw [depotList_eq, Buckets.filter_spread_of_notMem h, List.map_nil, List.map_eq_nil_iff]
      at hnone
    rw [top_loadDepot hid, depotList_eq, hnone, List.map_nil]
  | false =>
    rw [top_loadDepot_eq, List.map_eq_nil_iff]
    apply Buckets.bucket_eq_nil
    intro e he heq
    have hyes := (List.mem_filter.mp he).2
    rw [Option.some.inj heq, hid] at hyes
    exact absurd hyes (by decide)

section Chests

variable {player : Player} (hids : ∀ chest ∈ player.depotChests, isTopPid chest.1 = true)
  (hkeys : (player.depotChests.map Prod.fst).Nodup)
include hids

theorem isTopPid_of_mem_keys (depotId : ℤ) (h : depotId ∈ player.depotChests.map Prod.fst) :
    isTopPid depotId = true := by
  obtain ⟨chest, hchest, rfl⟩ := List.mem_map.mp h
  exact hids chest hchest

theorem isTopPid_of_mem_depotList {item : ℤ × Item} (h : item ∈ depotList player) :
    isTopPid item.1 = true :=
  isTopPid_of_mem_keys hids _ (Buckets.mem_keys_of_mem_spread h)

include hkeys

/-- Every chest has the trees that it had. -/
theorem represents_chest {chest : ℤ × List Item} (hchest : chest ∈ player.depotChests) :
    RepresentsAll (loadDepot (entries rowThing (numberItems (depotList player)))).itemlist
      ((loadDepot (entries rowThing (numberItems (depotList player)))).top chest.1) chest.2 := by
  have hall := representsAll_rowsIn isTopPid_le
    (fun item h => isTopPid_of_mem_depotList hids h)
    (fun depotId item chests => Function.update chests depotId (item :: chests depotId))
    (fun _ => []) chest.1
  have hid := hids chest hchest
  rw [depotList_eq, map_item_rowsIn_spread hkeys hchest (isTopPid_le _ hid), ← top_loadDepot hid]
    at hall
  exact hall

theorem placedOnce_depot :
    PlacedOnce (entries rowThing (numberItems (depotList player)))
      (loadDepot (entries rowThing (numberItems (depotList player)))).itemlist
      (player.depotChests.flatMap fun chest =>
        (loadDepot (entries rowThing (numberItems (depotList player)))).top chest.1) := by
  apply placedOnce (standsFor_rowThing _) isTopPid_le
    fun item h => isTopPid_of_mem_depotList hids h
  · exact rebuild_itemlist _ _ _ _
  have hmem : ∀ item ∈ depotList player, item.1 ∈ player.depotChests.map Prod.fst :=
    fun item h => Buckets.mem_keys_of_mem_spread h
  have htops := perm_tops isTopPid_le hkeys hmem (isTopPid_of_mem_keys hids)
  rw [List.flatMap_map] at htops
  have hchests : (player.depotChests.flatMap fun chest =>
      (loadDepot (entries rowThing (numberItems (depotList player)))).top chest.1) =
      player.depotChests.flatMap fun chest =>
        (rowsIn chest.1 (numberItems (depotList player))).map rowThing :=
    List.flatMap_congr fun chest hchest => top_loadDepot (hids chest hchest)
  rw [hchests]
  exact htops

end Chests

end Depot

/-! ## Both -/

/-- The inventory and the depot that are loaded after a save.  Every slot and every chest
has its trees in order, and every item that was saved lies in one place. -/
theorem inventory_and_depot_come_back {create : ℕ → ℕ → Text → Option Created} {player : Player}
    (hinventory : ∀ item, Holds ((inventoryList player).map Prod.snd) item →
      CreatedBack create item)
    (hdepot : ∀ item, Holds ((depotList player).map Prod.snd) item → CreatedBack create item)
    (hids : ∀ chest ∈ player.depotChests, 0 ≤ chest.1 ∧ chest.1 < 100)
    (hkeys : (player.depotChests.map Prod.fst).Nodup) :
    let inventoryMap := loadedMap create (inventoryList player)
    let inventory := loadInventory inventoryMap
    let depotMap := loadedMap create (depotList player)
    let depot := loadDepot depotMap
    (∀ slotId ∈ List.range' 1 10,
        Option.Rel (Represents inventory.itemlist) (inventory.top slotId)
          (player.inventory slotId)) ∧
      PlacedOnce inventoryMap inventory.itemlist
        ((List.range' 1 10).filterMap fun slotId : ℕ => inventory.top slotId) ∧
      (∀ chest ∈ player.depotChests,
        RepresentsAll depot.itemlist (depot.top chest.1) chest.2) ∧
      (∀ depotId ∉ player.depotChests.map Prod.fst, depot.top depotId = []) ∧
      PlacedOnce depotMap depot.itemlist
        (player.depotChests.flatMap fun chest => depot.top chest.1) := by
  intro inventoryMap inventory depotMap depot
  have hids : ∀ chest ∈ player.depotChests, isTopPid chest.1 = true :=
    fun chest hchest => decide_eq_true (hids chest hchest)
  have hinventoryMap : inventoryMap = entries rowThing (numberItems (inventoryList player)) :=
    loadItems_savedRows hinventory
  have hdepotMap : depotMap = entries rowThing (numberItems (depotList player)) :=
    loadItems_savedRows hdepot
  simp only [inventory, depot, hinventoryMap, hdepotMap]
  exact ⟨fun slotId hslot => represents_slot player hslot, placedOnce_inventory player,
    fun chest hchest => represents_chest hids hkeys hchest,
    fun depotId hid => top_loadDepot_of_notMem hid, placedOnce_depot hids hkeys⟩

/-- A backpack with a backpack in it, in a slot and in a depot chest. -/
theorem backpacks_come_back :
    let create : ℕ → ℕ → Text → Option Created := fun id subType attributes =>
      some ⟨id, subType, attributes, decide (id = 1988)⟩
    let coins : Item := .mk 2148 50 [] false []
    let backpack : Item := .mk 1988 1 [] true [coins, .mk 1988 1 [] true [coins], coins]
    let player : Player :=
      { groupId := 1, vocationId := 1, townId := 1, isOffline := false
        inventory := fun slotId => if slotId = 3 then some backpack else none
        depotChests := [(1, [backpack, coins])] }
    let inventory := loadInventory (loadedMap create (inventoryList player))
    let depot := loadDepot (loadedMap create (depotList player))
    Option.Rel (Represents inventory.itemlist) (inventory.top 3) (some backpack) ∧
      RepresentsAll depot.itemlist (depot.top 1) [backpack, coins] := by
  intro create coins backpack player inventory depot
  have hcoins : CreatedBack create coins := rfl
  have hbackpack : ∀ items, CreatedBack create (.mk 1988 1 [] true items) := fun _ => rfl
  have hall : ∀ item, Holds [backpack, coins] item → CreatedBack create item := by
    intro item hitem
    simp only [holds_cons, holds_nil, backpack, coins, Item.isContainer, Item.itemList, true_and,
      Bool.false_eq_true, false_and, false_or, or_false] at hitem
    rcases hitem with rfl | (rfl | rfl | rfl | rfl) | rfl
    · exact hbackpack _
    · exact hcoins
    · exact hbackpack _
    · exact hcoins
    · exact hcoins
    · exact hcoins
  have hinventory : ∀ item, Holds ((inventoryList player).map Prod.snd) item →
      CreatedBack create item := by
    have hlist : (inventoryList player).map Prod.snd = [backpack] := rfl
    intro item hitem
    rw [hlist, holds_cons] at hitem
    exact hall item (holds_cons.mpr (hitem.imp_right (Or.imp_right fun h => absurd h (holds_nil _))))
  have hdepot : ∀ item, Holds ((depotList player).map Prod.snd) item →
      CreatedBack create item := hall
  have hback := inventory_and_depot_come_back hinventory hdepot (by decide) (by decide)
  exact ⟨hback.1 3 (by decide), hback.2.2.1 (1, [backpack, coins]) List.mem_cons_self⟩

end TibiaServer.IOLoginData
