import Mathlib.Data.List.Sort
import TibiaServer.IOLoginData.ItemRows
import TibiaServer.IOLoginData.SavePlayer
import TibiaServer.Library.Bytes
/-!
# Loading items

`loadPlayer` creates an item from each row of a table and keeps it in a map under the id
of the row.  Then it goes through the map from the largest id to the smallest and puts
each item to the front of what it lies in: a place of the player for the parents of the
top level, and the item with that id, if it is a container, for the others.
-/

namespace TibiaServer.IOLoginData

open TibiaServer.Database TibiaServer.Library

/-! ## The item map -/

/-- An item without what lies in it. -/
structure Created where
  id : ℕ
  subType : ℕ
  attributes : Text
  isContainer : Bool
  deriving DecidableEq

def Item.created : Item → Created
  | .mk id subType attributes isContainer _ => ⟨id, subType, attributes, isContainer⟩

/-- An item in memory: created from the row with the id, or the reward of the date. -/
inductive Ref
  | row (sid : ℕ)
  | reward (rewardId : ℕ)
  deriving DecidableEq

/-- A pointer to an item. -/
structure Thing where
  ref : Ref
  created : Created
  deriving DecidableEq

structure Entry where
  item : Thing
  pid : ℤ
  deriving DecidableEq

/-- A `std::map`, in the order of its keys. -/
abbrev ItemMap := List (ℕ × Entry)

namespace ItemMap

/-- `itemMap[sid] = entry` -/
def assign (sid : ℕ) (entry : Entry) : ItemMap → ItemMap
  | [] => [(sid, entry)]
  | (key, value) :: rest =>
    if sid < key then (sid, entry) :: (key, value) :: rest
    else if sid = key then (sid, entry) :: rest
    else (key, value) :: assign sid entry rest

def find (itemMap : ItemMap) (pid : ℤ) : Option Entry :=
  (List.find? (fun e => decide ((e.1 : ℤ) = pid)) itemMap).map Prod.snd

end ItemMap

/-- `ORDER BY sid DESC` -/
def orderedBySid (rows : List ItemRow) : List ItemRow :=
  rows.insertionSort fun a b => b.sid ≤ a.sid

/-- `create` is `CreateItem` and then `unserializeAttr`. -/
def loadItems (create : ℕ → ℕ → Text → Option Created) (result : List ItemRow)
    (itemMap : ItemMap) : ItemMap :=
  result.foldl
    (fun itemMap row =>
      match create row.itemtype row.count row.attributes with
      | some created => itemMap.assign row.sid ⟨⟨.row row.sid, created⟩, row.pid⟩
      | none => itemMap)
    itemMap

/-! ## The loops over the map -/

/-- What a loop has put together: the places of the player and the contents of each
container. -/
structure Rebuilt (σ : Type) where
  top : σ
  itemlist : Ref → List Thing := fun _ => []

namespace Rebuilt

variable {σ : Type}

/-- `Container::internalAddThing` -/
def internalAddThing (s : Rebuilt σ) (container item : Thing) : Rebuilt σ :=
  { s with
    itemlist := Function.update s.itemlist container.ref (item :: s.itemlist container.ref) }

end Rebuilt

section Loops

variable {σ : Type} (itemMap : ItemMap) (isTop : ℤ → Bool) (addTop : ℤ → Thing → σ → σ)

/-- The body of a loop.  `isTop` says which parents are places of the player. -/
def insertItem (s : Rebuilt σ) (entry : Entry) : Rebuilt σ :=
  if isTop entry.pid then { s with top := addTop entry.pid entry.item s.top }
  else
    match itemMap.find entry.pid with
    | none => s
    | some parent =>
      if parent.item.created.isContainer then s.internalAddThing parent.item entry.item else s

def rebuild (start : σ) : Rebuilt σ :=
  itemMap.reverse.foldl (fun s e => insertItem itemMap isTop addTop s e.2) { top := start }

end Loops

def isSlot (pid : ℤ) : Bool := decide (1 ≤ pid ∧ pid ≤ 10)

/-- `Player::internalAddThing`: an item for a slot that is taken goes nowhere. -/
def playerInternalAddThing (index : ℤ) (item : Thing) (inventory : ℤ → Option Thing) :
    ℤ → Option Thing :=
  if 0 < index ∧ index < 11 then
    if (inventory index).isSome then inventory else Function.update inventory index (some item)
  else inventory

def loadInventory (itemMap : ItemMap) : Rebuilt (ℤ → Option Thing) :=
  rebuild itemMap isSlot playerInternalAddThing fun _ => none

/-- The parents of the top level in the other tables. -/
def isTopPid (pid : ℤ) : Bool := decide (0 ≤ pid ∧ pid < 100)

/-- `getDepotChest` makes a chest where there is none, so each id has one. -/
def loadDepot (itemMap : ItemMap) : Rebuilt (ℤ → List Thing) :=
  rebuild itemMap isTopPid
    (fun depotId item chests => Function.update chests depotId (item :: chests depotId))
    fun _ => []

def loadInbox (itemMap : ItemMap) : Rebuilt (List Thing) :=
  rebuild itemMap isTopPid (fun _ item inbox => item :: inbox) []

/-! ## The rewards -/

def ITEM_REWARD_CONTAINER : ℕ := 21518
def ATTR_WRITTENDATE : UInt8 := 18

/-- `new Reward()` with its date. -/
def newReward (rewardId : ℕ) : Thing where
  ref := .reward rewardId
  created :=
    { id := ITEM_REWARD_CONTAINER
      subType := 1
      attributes := if rewardId ≠ 0 then ATTR_WRITTENDATE :: Bytes.toBytes 4 rewardId else []
      isContainer := true }

/-- The first loop, from the smallest id up to the first parent of 100 or more: `getReward`
finds or makes the reward of the date, which takes the place of the item in the map.
`date` is `getIntAttr(ITEM_ATTRIBUTE_DATE)`. -/
def rewardLoop (date : Created → ℕ) : ItemMap → List ℕ → ItemMap × List ℕ
  | [], rewardMap => ([], rewardMap)
  | (sid, entry) :: rest, rewardMap =>
    if isTopPid entry.pid then
      let rewardId := date entry.item.created
      let loop := rewardLoop date rest
        (if rewardId ∈ rewardMap then rewardMap else rewardMap ++ [rewardId])
      ((sid, ⟨newReward rewardId, entry.pid⟩) :: loop.1, loop.2)
    else ((sid, entry) :: rest, rewardMap)

/-- The second loop ends at the first parent below 100. -/
def loadRewards (date : Created → ℕ) (itemMap : ItemMap) : Rebuilt (List ℕ) :=
  let (itemMap, rewardMap) := rewardLoop date itemMap []
  (itemMap.reverse.takeWhile fun e => !isTopPid e.2.pid).foldl
    (fun s e => insertItem itemMap isTopPid (fun _ _ rewardMap => rewardMap) s e.2)
    { top := rewardMap }

/-! ## What the map holds -/

section Rows

variable {create : ℕ → ℕ → Text → Option Created} {rows : List ItemRow}

theorem orderedInsert_eq_append {row : ItemRow} (h : ∀ r ∈ rows, row.sid < r.sid) :
    rows.orderedInsert (fun a b => b.sid ≤ a.sid) row = rows ++ [row] := by
  induction rows with
  | nil => rfl
  | cons r rows ih =>
    have hnot : ¬r.sid ≤ row.sid := Nat.not_le.mpr (h r List.mem_cons_self)
    rw [List.orderedInsert, if_neg hnot, ih fun r' hr' => h r' (List.mem_cons_of_mem _ hr')]
    rfl

theorem orderedBySid_eq_reverse (h : rows.Pairwise fun a b => a.sid < b.sid) :
    orderedBySid rows = rows.reverse := by
  induction h with
  | nil => rfl
  | @cons row rows hrow _ ih =>
    have hinsert : orderedBySid (row :: rows) =
        (orderedBySid rows).orderedInsert (fun a b => b.sid ≤ a.sid) row := rfl
    rw [hinsert, ih, orderedInsert_eq_append fun r hr => hrow r (List.mem_reverse.mp hr),
      List.reverse_cons]

theorem assign_eq_cons {sid : ℕ} (entry : Entry) {itemMap : ItemMap}
    (h : ∀ e ∈ itemMap, sid < e.1) : itemMap.assign sid entry = (sid, entry) :: itemMap := by
  cases itemMap with
  | nil => rfl
  | cons e itemMap => exact if_pos (h e List.mem_cons_self)

end Rows

/-- The entries of the rows, with `thing` for the items. -/
def entries (thing : Numbered → Thing) (rows : List Numbered) : ItemMap :=
  rows.map fun n => (n.sid, ⟨thing n, n.pid⟩)

def rowThing (n : Numbered) : Thing := ⟨.row n.sid, n.item.created⟩

/-- An item is created from its row as it was. -/
def CreatedBack (create : ℕ → ℕ → Text → Option Created) (item : Item) : Prop :=
  create item.id item.subType item.attributes = some item.created

section Map

variable {create : ℕ → ℕ → Text → Option Created} {rows : List Numbered}

theorem loadItems_reverse (hsids : rows.Pairwise fun a b => a.sid < b.sid)
    (hcreate : ∀ n ∈ rows, CreatedBack create n.item) :
    loadItems create (rows.map Numbered.row).reverse [] = entries rowThing rows := by
  induction hsids with
  | nil => rfl
  | @cons n rows hn _ ih =>
    have hrest := ih fun m hm => hcreate m (List.mem_cons_of_mem _ hm)
    have hcreated : create n.row.itemtype n.row.count n.row.attributes =
        some n.item.created := hcreate n List.mem_cons_self
    rw [loadItems] at hrest ⊢
    rw [List.map_cons, List.reverse_cons, List.foldl_append, hrest, List.foldl_cons,
      List.foldl_nil, hcreated]
    apply assign_eq_cons
    intro e he
    obtain ⟨m, hm, rfl⟩ := List.mem_map.mp he
    exact hn m hm

theorem pairwise_numberItems (itemList : List (ℤ × Item)) :
    (numberItems itemList).Pairwise fun a b => a.sid < b.sid := by
  have hsids : ((numberItems itemList).map Numbered.sid).Pairwise (· < ·) := by
    rw [sids_numberItems]
    exact List.pairwise_lt_range' ..
  exact List.pairwise_map.mp hsids

/-- The map that is loaded from the saved rows. -/
theorem loadItems_savedRows {itemList : List (ℤ × Item)}
    (hcreate : ∀ item, Holds (itemList.map Prod.snd) item → CreatedBack create item) :
    loadItems create (orderedBySid (savedRows itemList)) [] =
      entries rowThing (numberItems itemList) := by
  have hsids := pairwise_numberItems itemList
  rw [savedRows, orderedBySid_eq_reverse (List.pairwise_map.mpr hsids)]
  exact loadItems_reverse hsids fun n hn => hcreate n.item (holds_of_mem hn)

end Map

/-!
## The forest comes back

A loop over the map deals the entries into buckets, one for each container
(`itemlist_foldl`), so a container gets the items of its rows in order, and these are the
items that lay in it.  `Represents` says that an item in memory is the root of a tree
like the one that was saved, and `PlacedOnce` that every row of the map has come to lie
in one place.
-/

mutual

/-- The item in memory is like the saved one, and so is what lies in it. -/
def Represents (itemlist : Ref → List Thing) : Thing → Item → Prop
  | thing, .mk id subType attributes isContainer itemList =>
    thing.created = ⟨id, subType, attributes, isContainer⟩ ∧
      if isContainer then RepresentsAll itemlist (itemlist thing.ref) itemList
      else itemlist thing.ref = []

def RepresentsAll (itemlist : Ref → List Thing) : List Thing → List Item → Prop
  | [], [] => True
  | thing :: things, item :: items =>
    Represents itemlist thing item ∧ RepresentsAll itemlist things items
  | _, _ => False

end

theorem represents_iff {itemlist : Ref → List Thing} {thing : Thing} {item : Item} :
    Represents itemlist thing item ↔ thing.created = item.created ∧
      if item.isContainer then RepresentsAll itemlist (itemlist thing.ref) item.itemList
      else itemlist thing.ref = [] := by
  cases item
  rfl

@[simp] theorem representsAll_cons {itemlist : Ref → List Thing} {thing : Thing} {item : Item}
    {things : List Thing} {items : List Item} :
    RepresentsAll itemlist (thing :: things) (item :: items) ↔
      Represents itemlist thing item ∧ RepresentsAll itemlist things items := Iff.rfl

@[simp] theorem not_representsAll_nil {itemlist : Ref → List Thing} {item : Item}
    {items : List Item} : ¬RepresentsAll itemlist [] (item :: items) := id

@[simp] theorem not_representsAll_cons {itemlist : Ref → List Thing} {thing : Thing}
    {things : List Thing} : ¬RepresentsAll itemlist (thing :: things) [] := id

theorem representsAll_map {ι : Type} {itemlist : Ref → List Thing} {thing : ι → Thing}
    {item : ι → Item} {l : List ι} (h : ∀ x ∈ l, Represents itemlist (thing x) (item x)) :
    RepresentsAll itemlist (l.map thing) (l.map item) := by
  induction l with
  | nil => trivial
  | cons x l ih =>
    exact ⟨h x List.mem_cons_self, ih fun y hy => h y (List.mem_cons_of_mem _ hy)⟩

attribute [irreducible] Represents RepresentsAll

theorem treeSize_eq (item : Item) : item.treeSize = 1 + forestSize item.itemList := by
  cases item
  rfl

theorem treeSize_le_forestSize {item : Item} {items : List Item} (h : item ∈ items) :
    item.treeSize ≤ forestSize items := by
  induction items with
  | nil => cases h
  | cons x items ih =>
    rw [forestSize]
    rcases List.mem_cons.mp h with rfl | h
    · exact Nat.le_add_right ..
    · exact Nat.le_add_left_of_le (ih h)

/-- Each entry of the map lies in one place, the tops or the list of a container. -/
def PlacedOnce (itemMap : ItemMap) (itemlist : Ref → List Thing) (tops : List Thing) : Prop :=
  (tops ++ itemMap.flatMap fun e => itemlist e.2.item.ref).Perm
    (itemMap.map fun e => e.2.item)

/-! ## The buckets of a loop -/

section Loops

variable {σ : Type} {itemMap : ItemMap} {isTop : ℤ → Bool} {addTop : ℤ → Thing → σ → σ}

/-- The container that an entry is put into. -/
def parentRef (itemMap : ItemMap) (isTop : ℤ → Bool) (e : ℕ × Entry) : Option Ref :=
  if isTop e.2.pid then none
  else
    (itemMap.find e.2.pid).bind fun parent =>
      if parent.item.created.isContainer then some parent.item.ref else none

theorem itemlist_insertItem (s : Rebuilt σ) (e : ℕ × Entry) :
    (insertItem itemMap isTop addTop s e.2).itemlist =
      Buckets.push (parentRef itemMap isTop) (fun e => e.2.item) s.itemlist e := by
  unfold insertItem Buckets.push parentRef
  cases isTop e.2.pid with
  | true => rfl
  | false =>
    cases itemMap.find e.2.pid with
    | none => rfl
    | some parent =>
      cases hcontainer : parent.item.created.isContainer <;>
        simp [hcontainer, Rebuilt.internalAddThing]

theorem itemlist_foldl (l : List (ℕ × Entry)) (s : Rebuilt σ) :
    (l.foldl (fun s e => insertItem itemMap isTop addTop s e.2) s).itemlist =
      l.foldl (Buckets.push (parentRef itemMap isTop) fun e => e.2.item) s.itemlist := by
  induction l generalizing s with
  | nil => rfl
  | cons e l ih => rw [List.foldl_cons, ih, itemlist_insertItem, List.foldl_cons]

/-- What a container holds after a loop over a part of the map. -/
theorem itemlist_foldl_reverse (l : List (ℕ × Entry)) (start : σ) (ref : Ref) :
    (l.reverse.foldl (fun s e => insertItem itemMap isTop addTop s e.2)
        { top := start }).itemlist ref =
      (Buckets.bucket (parentRef itemMap isTop) ref l).map fun e => e.2.item := by
  rw [itemlist_foldl, Buckets.foldl_push_reverse, List.append_nil]

theorem top_foldl (l : List (ℕ × Entry)) (s : Rebuilt σ) :
    (l.foldl (fun s e => insertItem itemMap isTop addTop s e.2) s).top =
      (l.filter fun e => isTop e.2.pid).foldl (fun top e => addTop e.2.pid e.2.item top)
        s.top := by
  induction l generalizing s with
  | nil => rfl
  | cons e l ih =>
    rw [List.foldl_cons, ih, insertItem, List.filter_cons]
    cases isTop e.2.pid with
    | true => rfl
    | false =>
      cases itemMap.find e.2.pid with
      | none => rfl
      | some parent =>
        cases hcontainer : parent.item.created.isContainer <;>
          simp [hcontainer, Rebuilt.internalAddThing]

end Loops

/-! ## The map of the saved rows -/

/-- How the items of a map stand for the rows: each its own, containers for containers,
and like the row where the row lies in a container. -/
structure StandsFor (thing : Numbered → Thing) (rows : List Numbered) : Prop where
  ref : ∀ n ∈ rows, ∀ m ∈ rows, (thing n).ref = (thing m).ref → n = m
  isContainer : ∀ n ∈ rows, (thing n).created.isContainer = n.item.isContainer
  created : ∀ n ∈ rows, (∃ m ∈ rows, n.pid = m.sid) → (thing n).created = n.item.created

section Saved

variable {thing : Numbered → Thing} {itemList : List (ℤ × Item)} {isTop : ℤ → Bool}
  {n m : Numbered}

theorem eq_of_sid (hn : n ∈ numberItems itemList) (hm : m ∈ numberItems itemList)
    (h : n.sid = m.sid) : n = m :=
  List.inj_on_of_nodup_map (nodup_sids itemList) hn hm h

theorem find_entries (thing : Numbered → Thing) (hm : m ∈ numberItems itemList) :
    (entries thing (numberItems itemList)).find m.sid = some ⟨thing m, m.pid⟩ := by
  unfold ItemMap.find
  cases hfind : List.find? (fun e => decide ((e.1 : ℤ) = m.sid))
      (entries thing (numberItems itemList)) with
  | none =>
    have hne := List.find?_eq_none.mp hfind _ (List.mem_map_of_mem hm)
    simp at hne
  | some e =>
    obtain ⟨n, hn, rfl⟩ := List.mem_map.mp (List.mem_of_find?_eq_some hfind)
    have hfound := List.find?_some hfind
    have hsid : (n.sid : ℤ) = m.sid := of_decide_eq_true hfound
    have heq : n = m := eq_of_sid hn hm (Int.ofNat_inj.mp hsid)
    rw [heq]
    rfl

theorem exists_of_find_entries {pid : ℤ} {parent : Entry}
    (h : (entries thing (numberItems itemList)).find pid = some parent) :
    ∃ m ∈ numberItems itemList, pid = m.sid ∧ parent = ⟨thing m, m.pid⟩ := by
  obtain ⟨e, hfind, rfl⟩ := Option.map_eq_some_iff.mp h
  obtain ⟨m, hm, rfl⟩ := List.mem_map.mp (List.mem_of_find?_eq_some hfind)
  have hfound := List.find?_some hfind
  have hsid : (m.sid : ℤ) = pid := of_decide_eq_true hfound
  exact ⟨m, hm, hsid.symm, rfl⟩

theorem parentRef_eq_some_iff (h : StandsFor thing (numberItems itemList))
    (hisTop : ∀ pid, isTop pid = true → pid ≤ 100) (n : Numbered)
    (hm : m ∈ numberItems itemList) :
    parentRef (entries thing (numberItems itemList)) isTop (n.sid, ⟨thing n, n.pid⟩) =
        some (thing m).ref ↔ n.pid = m.sid ∧ m.item.isContainer = true := by
  unfold parentRef
  constructor
  · intro hparent
    obtain ⟨-, hparent⟩ := Option.ite_none_left_eq_some.mp hparent
    obtain ⟨parent, hfind, hparent⟩ := Option.bind_eq_some_iff.mp hparent
    obtain ⟨hcontainer, href⟩ := Option.ite_none_right_eq_some.mp hparent
    obtain ⟨m', hm', hpid, rfl⟩ := exists_of_find_entries hfind
    have heq : m' = m := h.ref m' hm' m hm (Option.some.inj href)
    rw [h.isContainer m' hm'] at hcontainer
    exact heq ▸ ⟨hpid, hcontainer⟩
  · rintro ⟨hpid, hcontainer⟩
    have htop : ¬isTop n.pid = true := by
      intro htop
      have hle := hisTop n.pid htop
      have hlt := lt_sid hm
      omega
    have hthing := (h.isContainer m hm).trans hcontainer
    rw [if_neg htop, hpid, find_entries thing hm, Option.bind_some, if_pos hthing]

/-- What is put into the item of a row. -/
theorem bucket_entries (h : StandsFor thing (numberItems itemList))
    (hisTop : ∀ pid, isTop pid = true → pid ≤ 100) (hm : m ∈ numberItems itemList) :
    (Buckets.bucket (parentRef (entries thing (numberItems itemList)) isTop) (thing m).ref
        (entries thing (numberItems itemList))).map (fun e => e.2.item) =
      if m.item.isContainer then (rowsIn m.sid (numberItems itemList)).map thing else [] := by
  conv_lhs => rw [entries, Buckets.bucket_map, List.map_map]
  split
  next hcontainer =>
    have hbucket : Buckets.bucket (fun n : Numbered =>
        parentRef (entries thing (numberItems itemList)) isTop (n.sid, ⟨thing n, n.pid⟩))
          (thing m).ref (numberItems itemList) = rowsIn m.sid (numberItems itemList) := by
      apply Buckets.bucket_congr
      intro n _
      rw [parentRef_eq_some_iff h hisTop n hm]
      simp [hcontainer]
    exact congrArg (List.map thing) hbucket
  next hcontainer =>
    rw [List.map_eq_nil_iff]
    apply Buckets.bucket_eq_nil
    intro n _ hparent
    exact hcontainer ((parentRef_eq_some_iff h hisTop n hm).mp hparent).2

/-- Every container holds the items of its rows, in order. -/
def Filled (thing : Numbered → Thing) (itemList : List (ℤ × Item))
    (itemlist : Ref → List Thing) : Prop :=
  ∀ m ∈ numberItems itemList, itemlist (thing m).ref =
    if m.item.isContainer then (rowsIn m.sid (numberItems itemList)).map thing else []

variable {itemlist : Ref → List Thing}

/-- From the leaves up: the items of a container are smaller trees. -/
theorem representsAll_itemList (h : StandsFor thing (numberItems itemList))
    (htop : TopLevel itemList) (hfilled : Filled thing itemList itemlist)
    (hm : m ∈ numberItems itemList) (hcontainer : m.item.isContainer = true) :
    RepresentsAll itemlist (itemlist (thing m).ref) m.item.itemList := by
  induction hsize : m.item.treeSize using Nat.strong_induction_on generalizing m with
  | _ size ih =>
    rw [hfilled m hm, if_pos hcontainer]
    conv => arg 3; rw [← items_inside htop hm hcontainer]
    apply representsAll_map
    intro n hn
    obtain ⟨hn, hpid⟩ := Buckets.mem_bucket.mp hn
    have hpid := Option.some.inj hpid
    have hinside : n.item ∈ m.item.itemList := by
      rw [← items_inside htop hm hcontainer]
      exact List.mem_map_of_mem (Buckets.mem_bucket.mpr ⟨hn, congrArg some hpid⟩)
    rw [represents_iff]
    refine ⟨h.created n hn ⟨m, hm, hpid⟩, ?_⟩
    split
    next hn' =>
      have hle := treeSize_le_forestSize hinside
      have hsize' := treeSize_eq m.item
      exact ih n.item.treeSize (by omega) hn hn' rfl
    next hn' => rw [hfilled n hn, if_neg hn']

theorem represents_row (h : StandsFor thing (numberItems itemList))
    (htop : TopLevel itemList) (hfilled : Filled thing itemList itemlist)
    (hm : m ∈ numberItems itemList) (hcreated : (thing m).created = m.item.created) :
    Represents itemlist (thing m) m.item := by
  rw [represents_iff]
  refine ⟨hcreated, ?_⟩
  split
  next hcontainer => exact representsAll_itemList h htop hfilled hm hcontainer
  next hcontainer => rw [hfilled m hm, if_neg hcontainer]

/-- Every row lies at the top level or in one container. -/
theorem placedOnce (h : StandsFor thing (numberItems itemList))
    (hisTop : ∀ pid, isTop pid = true → pid ≤ 100) (htop : ∀ item ∈ itemList, isTop item.1 = true)
    (hbuckets : ∀ ref, itemlist ref =
      (Buckets.bucket (parentRef (entries thing (numberItems itemList)) isTop) ref
        (entries thing (numberItems itemList))).map fun e => e.2.item)
    {tops : List Thing}
    (htops : tops.Perm (((numberItems itemList).filter fun n => isTop n.pid).map thing)) :
    PlacedOnce (entries thing (numberItems itemList)) itemlist tops := by
  have hkeys : ((entries thing (numberItems itemList)).map fun e => e.2.item.ref).Nodup := by
    have hnodup := (nodup_sids itemList).of_map
    rw [entries, List.map_map]
    exact hnodup.map_on fun n hn m hm href => h.ref n hn m hm href
  have hbelow : ∀ e ∈ entries thing (numberItems itemList), (!isTop e.2.pid) = true ↔
      ∃ ref ∈ (entries thing (numberItems itemList)).map fun e => e.2.item.ref,
        parentRef (entries thing (numberItems itemList)) isTop e = some ref := by
    intro e he
    obtain ⟨n, hn, rfl⟩ := List.mem_map.mp he
    cases hpid : isTop n.pid with
    | true => simp [parentRef, hpid]
    | false =>
      rcases exists_container hn with hblock | ⟨m, hm, hcontainer, hparent⟩
      · have hyes := htop _ (mem_of_mem_numberBlock hblock)
        exact absurd (hpid.symm.trans hyes) (by decide)
      · have hsome := (parentRef_eq_some_iff h hisTop n hm).mpr ⟨hparent, hcontainer⟩
        have hentry : (m.sid, ⟨thing m, m.pid⟩) ∈ entries thing (numberItems itemList) :=
          List.mem_map_of_mem hm
        exact iff_of_true rfl ⟨(thing m).ref, List.mem_map_of_mem hentry, hsome⟩
  have hinside : ((entries thing (numberItems itemList)).flatMap fun e =>
      itemlist e.2.item.ref).Perm
        (((entries thing (numberItems itemList)).filter fun e => !isTop e.2.pid).map
          fun e => e.2.item) := by
    simp only [hbuckets]
    rw [← List.map_flatMap]
    have hperm := (Buckets.perm_flatMap_bucket hkeys hbelow).map fun e => e.2.item
    rwa [List.flatMap_map] at hperm
  have htops' : tops.Perm (((entries thing (numberItems itemList)).filter
      fun e => isTop e.2.pid).map fun e => e.2.item) := by
    rwa [entries, List.filter_map, List.map_map]
  calc
    _ = _ := rfl
    List.Perm _ _ := htops'.append hinside
    _ = _ := (List.map_append ..).symm
    List.Perm _ _ := (List.filter_append_perm _ _).map _

end Saved

end TibiaServer.IOLoginData
