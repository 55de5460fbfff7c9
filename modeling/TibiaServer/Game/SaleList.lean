import TibiaServer.Game.RemoveItems
import TibiaServer.Players.ShopWindows
/-!
# The list of what a shop buys

`ProtocolGame::sendSaleItemList` counts each entry of a small shop by itself, and for a large one
takes the counts of all items at once.  The two agree but for fluids that are asked for with a
subtype: the branch for large shops writes the number of the subtype as the count
(`sale_branches_agree_iff`).
-/

namespace TibiaServer.Cylinders

open TibiaServer.Players.ShopWindows (ShopInfo)

def ItemType.hasSubType (it : ItemType) : Bool :=
  it.isFluidContainer || it.isSplash || it.stackable || it.charges ≠ 0

/-- The types whose subtype is the fluid. -/
def ItemType.isFluid (it : ItemType) : Bool := it.isFluidContainer || it.isSplash

/-- `std::map<uint32_t, uint32_t>`, and with ids of 16 bits `saleMap` -/
abbrev CountMap := Std.TreeMap ℕ ℕ

namespace State

variable (s : State) (p : PlayerRef)

/-! ## All counts at once -/

/-- `countMap[item->getID()] += Item::countByType(item, -1)` -/
def addTypeCount (countMap : CountMap) (y : ItemRef) : CountMap :=
  let id := (s.item y).id
  countMap.insert id (countUp (countMap[id]?.getD 0) (s.countByType y (-1)))

/-- The body of the loop over the slots. -/
def allItemTypeCountAt (countMap : CountMap) (i : ℕ) : CountMap :=
  match (s.player p).inventory i with
  | none => countMap
  | some item =>
    let countMap := s.addTypeCount countMap item
    if s.isContainer item then (s.iterator item).foldl s.addTypeCount countMap else countMap

/-- `Player::getAllItemTypeCount` -/
def getAllItemTypeCount : CountMap := slots.foldl (s.allItemTypeCountAt p) ∅

/-! ## The branches -/

/-- `subtype`, an `int8_t` -/
def saleSubtype (shopInfo : ShopInfo) : ℤ :=
  let itemType := s.items shopInfo.itemId.toNat
  if itemType.hasSubType && !itemType.stackable then
    if shopInfo.subType = 0 then -1 else (BitVec.ofInt 8 shopInfo.subType).toInt
  else -1

/-- The branch for at most five entries. -/
def smallShop (shop : List ShopInfo) : CountMap :=
  shop.foldl (fun saleMap shopInfo =>
    if shopInfo.sellPrice = 0 then saleMap
    else
      let count := s.playerItemTypeCount p shopInfo.itemId.toNat (s.saleSubtype shopInfo)
      if count > 0 then saleMap.insert shopInfo.itemId.toNat count else saleMap) ∅

/-- The branch for more. -/
def largeShop (shop : List ShopInfo) : CountMap :=
  let tempSaleMap := s.getAllItemTypeCount p
  shop.foldl (fun saleMap shopInfo =>
    if shopInfo.sellPrice = 0 then saleMap
    else
      let itemType := s.items shopInfo.itemId.toNat
      let subtype := s.saleSubtype shopInfo
      if subtype ≠ -1 then
        let count :=
          if !itemType.isFluidContainer && !itemType.isSplash then
            s.playerItemTypeCount p shopInfo.itemId.toNat subtype
          else (subtype % 4294967296).toNat
        if count > 0 then saleMap.insert shopInfo.itemId.toNat count else saleMap
      else
        match tempSaleMap[shopInfo.itemId.toNat]? with
        | some count =>
          if count > 0 then saleMap.insert shopInfo.itemId.toNat count else saleMap
        | none => saleMap) ∅

/-- The pairs that are written behind their number. -/
def writeSaleMap (saleMap : CountMap) : List (ℕ × ℕ) :=
  let itemsToSend := min saleMap.size 255
  (saleMap.toList.take itemsToSend).map fun (id, count) => (id, min count 255)

/-- The pairs of `sendSaleItemList`. -/
def sendSaleItemList (shop : List ShopInfo) : List (ℕ × ℕ) :=
  if shop.length ≤ 5 then writeSaleMap (s.smallShop p shop) else writeSaleMap (s.largeShop p shop)

/-! ## Counting agrees -/

variable {s p} {countMap : CountMap} {count id : ℕ}

theorem getD_addTypeCount (h : countMap[id]?.getD 0 = count) (y : ItemRef) :
    (s.addTypeCount countMap y)[id]?.getD 0 =
      if (s.item y).id = id then countUp count (s.countByType y (-1)) else count := by
  unfold addTypeCount
  rw [Std.TreeMap.getElem?_insert]
  by_cases hid : (s.item y).id = id
  · simp [hid, h]
  · simp [hid, h]

theorem getD_foldl_addTypeCount (l : List ItemRef) (h : countMap[id]?.getD 0 = count) :
    (l.foldl s.addTypeCount countMap)[id]?.getD 0 = s.itemTypeCountIn id (-1) count l := by
  unfold itemTypeCountIn
  induction l generalizing countMap count with
  | nil => exact h
  | cons y l ih => exact ih (getD_addTypeCount h y)

/-- The map has the count that is found for an id by itself. -/
theorem getD_getAllItemTypeCount (id : ℕ) :
    (s.getAllItemTypeCount p)[id]?.getD 0 = s.playerItemTypeCount p id (-1) := by
  have hslots : ∀ (l : List ℕ) (countMap : CountMap) (count : ℕ),
      countMap[id]?.getD 0 = count →
        (l.foldl (s.allItemTypeCountAt p) countMap)[id]?.getD 0 =
          l.foldl (s.itemTypeCountAt p id (-1)) count := by
    intro l
    induction l with
    | nil => exact fun _ _ h => h
    | cons i l ih =>
      intro countMap count h
      apply ih
      unfold allItemTypeCountAt itemTypeCountAt
      cases (s.player p).inventory i with
      | none => exact h
      | some item =>
        simp only
        split
        · exact getD_foldl_addTypeCount _ (getD_addTypeCount h item)
        · exact getD_addTypeCount h item
  exact hslots slots ∅ 0 (by simp)

/-! ## The branches as one loop -/

/-- The loop of both branches, with the count that each finds for an entry. -/
def saleLoop (counted : ShopInfo → ℕ) (shop : List ShopInfo) : CountMap :=
  shop.foldl (fun saleMap shopInfo =>
    if shopInfo.sellPrice = 0 then saleMap
    else if counted shopInfo > 0 then saleMap.insert shopInfo.itemId.toNat (counted shopInfo)
    else saleMap) ∅

/-- The entries of an id that have a price. -/
def entriesOf (shop : List ShopInfo) (id : ℕ) : List ShopInfo :=
  shop.filter fun shopInfo => shopInfo.sellPrice ≠ 0 && shopInfo.itemId.toNat = id

/-- The last number that is not 0. -/
def lastPositive (counts : List ℕ) : Option ℕ := (counts.filter (0 < ·)).getLast?

theorem getElem?_saleLoop (counted : ShopInfo → ℕ) (shop : List ShopInfo) (id : ℕ) :
    (saleLoop counted shop)[id]? = lastPositive ((entriesOf shop id).map counted) := by
  unfold saleLoop entriesOf lastPositive
  induction shop using List.reverseRecOn with
  | nil => simp
  | append_singleton shop e ih =>
    rw [List.foldl_concat]
    by_cases hprice : e.sellPrice = 0
    · simpa [hprice] using ih
    by_cases hcount : counted e > 0
    · rw [if_neg hprice, if_pos hcount, Std.TreeMap.getElem?_insert]
      by_cases hid : e.itemId.toNat = id
      · simp [hid, hprice, hcount]
      · simpa [hid, hprice] using ih
    · rw [if_neg hprice, if_neg hcount, ih]
      by_cases hid : e.itemId.toNat = id
      · simp [hid, hprice, hcount]
      · simp [hid]

/-- How many items a player has for an entry. -/
def owned (s : State) (p : PlayerRef) (shopInfo : ShopInfo) : ℕ :=
  s.playerItemTypeCount p shopInfo.itemId.toNat (s.saleSubtype shopInfo)

/-- The number of the subtype of an entry that has one, as a `uint32_t`. -/
def subtypeOrOwned (s : State) (p : PlayerRef) (shopInfo : ShopInfo) : ℕ :=
  if s.saleSubtype shopInfo = -1 then s.owned p shopInfo
  else (s.saleSubtype shopInfo % 4294967296).toNat

/-- What the branch for large shops takes for the count. -/
def largeCount (s : State) (p : PlayerRef) (shopInfo : ShopInfo) : ℕ :=
  if (s.items shopInfo.itemId.toNat).isFluid then s.subtypeOrOwned p shopInfo
  else s.owned p shopInfo

theorem smallShop_eq (shop : List ShopInfo) : s.smallShop p shop = saleLoop (s.owned p) shop := rfl

theorem largeShop_eq (shop : List ShopInfo) :
    s.largeShop p shop = saleLoop (s.largeCount p) shop := by
  unfold largeShop saleLoop
  dsimp only
  congr 1
  funext saleMap e
  split
  next => rfl
  next =>
    have hall := getD_getAllItemTypeCount (s := s) (p := p) e.itemId.toNat
    unfold largeCount subtypeOrOwned owned ItemType.isFluid
    by_cases hsubtype : s.saleSubtype e = -1
    · simp only [hsubtype, ne_eq, not_true, if_false, if_true, ite_self]
      rw [← hall]
      cases (s.getAllItemTypeCount p)[e.itemId.toNat]? <;> simp
    · simp only [hsubtype, ne_eq, not_false_eq_true, if_true, if_false]
      cases (s.items e.itemId.toNat).isFluidContainer <;>
        cases (s.items e.itemId.toNat).isSplash <;> rfl

/-! ## What is written -/

theorem size_saleLoop_le (counted : ShopInfo → ℕ) (shop : List ShopInfo) :
    (saleLoop counted shop).size ≤ shop.length := by
  unfold saleLoop
  induction shop using List.reverseRecOn with
  | nil => simp
  | append_singleton shop e ih =>
    rw [List.foldl_concat, List.length_append, List.length_singleton]
    split
    next => omega
    next =>
      split
      next => exact Std.TreeMap.size_insert_le.trans (Nat.add_le_add_right ih 1)
      next => omega

/-- With few entries all of them are written. -/
theorem mem_writeSaleMap {saleMap : CountMap} (h : saleMap.size ≤ 255) (e : ℕ × ℕ) :
    e ∈ writeSaleMap saleMap ↔ saleMap[e.1]?.map (min · 255) = some e.2 := by
  unfold writeSaleMap
  dsimp only
  have hall : saleMap.toList.length ≤ min saleMap.size 255 := by
    rw [Std.TreeMap.length_toList]
    omega
  rw [List.take_of_length_le hall, List.mem_map, Option.map_eq_some_iff]
  obtain ⟨id, count⟩ := e
  constructor
  · rintro ⟨⟨id', count'⟩, hmem, heq⟩
    obtain ⟨rfl, rfl⟩ := Prod.mk.inj heq
    exact ⟨count', Std.TreeMap.mem_toList_iff_getElem?_eq_some.mp hmem, rfl⟩
  · rintro ⟨count', hget, rfl⟩
    exact ⟨(id, count'), Std.TreeMap.mem_toList_iff_getElem?_eq_some.mpr hget, rfl⟩

theorem mem_entriesOf {shop : List ShopInfo} {e : ShopInfo} :
    e ∈ entriesOf shop id ↔ e ∈ shop ∧ e.sellPrice ≠ 0 ∧ e.itemId.toNat = id := by
  simp [entriesOf]

theorem map_largeCount (shop : List ShopInfo) (hfluid : (s.items id).isFluid = true) :
    (entriesOf shop id).map (s.largeCount p) = (entriesOf shop id).map (s.subtypeOrOwned p) := by
  apply List.map_congr_left
  intro e he
  unfold largeCount
  rw [(mem_entriesOf.mp he).2.2, if_pos hfluid]

/-- For a shop that is counted entry by entry, counting all at once would write the same pairs
exactly when for each fluid with a subtype the last number of items owned that is not 0 is the
last number of a subtype that is not 0, both up to 255. -/
theorem sale_branches_agree_iff (s : State) (p : PlayerRef) (shop : List ShopInfo)
    (h : shop.length ≤ 5) :
    (∀ e, e ∈ s.sendSaleItemList p shop ↔ e ∈ writeSaleMap (s.largeShop p shop)) ↔
      ∀ e ∈ shop, e.sellPrice ≠ 0 → (s.items e.itemId.toNat).isFluid = true →
        s.saleSubtype e ≠ -1 →
          (lastPositive ((entriesOf shop e.itemId.toNat).map (s.owned p))).map (min · 255) =
            (lastPositive ((entriesOf shop e.itemId.toNat).map (s.subtypeOrOwned p))).map
              (min · 255) := by
  have hsmall : ∀ counted : ShopInfo → ℕ, (saleLoop counted shop).size ≤ 255 := fun counted =>
    (size_saleLoop_le counted shop).trans (by omega)
  unfold sendSaleItemList
  rw [if_pos h, smallShop_eq, largeShop_eq]
  simp only [mem_writeSaleMap (hsmall _), getElem?_saleLoop]
  constructor
  · intro hagree e _ _ hfluid _
    rw [← map_largeCount shop hfluid]
    apply Option.ext
    intro n
    exact hagree (e.itemId.toNat, n)
  · rintro hfluids ⟨id, n⟩
    simp only
    by_cases hown : ∃ e ∈ entriesOf shop id,
        (s.items id).isFluid = true ∧ s.saleSubtype e ≠ -1
    · obtain ⟨e, he, hfluid, hsubtype⟩ := hown
      obtain ⟨hmem, hprice, rfl⟩ := mem_entriesOf.mp he
      rw [map_largeCount shop hfluid, hfluids e hmem hprice hfluid hsubtype]
    · have hlarge : (entriesOf shop id).map (s.largeCount p) =
          (entriesOf shop id).map (s.owned p) := by
        apply List.map_congr_left
        intro e he
        unfold largeCount subtypeOrOwned
        rw [(mem_entriesOf.mp he).2.2]
        split
        next hfluid =>
            have hsubtype : s.saleSubtype e = -1 := by
              by_contra hne
              exact hown ⟨e, he, hfluid, hne⟩
            rw [if_pos hsubtype]
        next => rfl
      rw [hlarge]

end State

/-- Nobody has anything, and every item is a vial. -/
def vialShop : State where
  items _ := { id := 2006, group := .ITEM_GROUP_FLUID }
  classicEquipmentSlots := false
  cylinders := ∅
  item _ := { id := 2006, count := 1, attributes := none, container := none, parent := none }
  player _ := {}
  tile _ := {}
  fresh := 0

/-- Vials of any fluid, and vials of water. -/
def anyVial : ShopInfo := ⟨2006, 0, 0, 5, "vial"⟩
def vialOfWater : ShopInfo := ⟨2006, 1, 0, 5, "vial of water"⟩

theorem any_vial_agrees : [anyVial].length ≤ 5 ∧
    ∀ e, e ∈ vialShop.sendSaleItemList 0 [anyVial] ↔
      e ∈ State.writeSaleMap (vialShop.largeShop 0 [anyVial]) :=
  ⟨by decide, (State.sale_branches_agree_iff vialShop 0 [anyVial] (by decide)).mpr (by decide)⟩

/-- The branch for large shops writes one vial of water that the player does not have. -/
theorem vial_of_water_invented :
    ¬∀ e, e ∈ vialShop.sendSaleItemList 0 [vialOfWater] ↔
      e ∈ State.writeSaleMap (vialShop.largeShop 0 [vialOfWater]) := by
  intro h
  have hlarge : (2006, 1) ∈ State.writeSaleMap (vialShop.largeShop 0 [vialOfWater]) := by decide
  have hsmall : (2006, 1) ∉ vialShop.sendSaleItemList 0 [vialOfWater] := by decide
  exact hsmall ((h _).mpr hlarge)

end TibiaServer.Cylinders
