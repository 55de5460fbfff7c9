import TibiaServer.Tiles.TileItem
/-!
# A tile and its vector of items

The items of a tile, the ground apart, stand in one vector: `downItemCount` down
items and behind them the top items.  The operations below insert into it, erase
from it and replace in it at places that they find through `downItemCount` and
the types of the items.  The creatures stand between the two in the numbering of
the things.
-/

namespace TibiaServer.Tiles

open TibiaServer.Cylinders (ItemRef)

structure Tile where
  ground : Option ItemRef := none
  items : List ItemRef := []
  downItemCount : ℕ := 0
  creatures : List ℕ := []
  flags : BitVec 32 := 0

/-- The tile and the objects; the table of item types stays as it is. -/
structure State where
  item : ItemRef → Item
  tile : Tile := {}

namespace State

variable (types : ℕ → ItemType) (s : State)

def isAlwaysOnTop (x : ItemRef) : Bool := (s.item x).isAlwaysOnTop types
def alwaysOnTopOrder (x : ItemRef) : ℕ := (s.item x).alwaysOnTopOrder types

/-- From `getBeginDownItem` to `getEndDownItem`. -/
def downItems : List ItemRef := s.tile.items.take s.tile.downItemCount

/-- From `getBeginTopItem` to `getEndTopItem`. -/
def topItems : List ItemRef := s.tile.items.drop s.tile.downItemCount

/-- The ground and the items. -/
def things : List ItemRef := s.tile.ground.toList ++ s.tile.items

/-- The number of a thing, -1 for what is not found where its type says. -/
def getThingIndex (x : ItemRef) : ℤ :=
  let grounds : ℤ := if s.tile.ground.isSome then 1 else 0
  if s.tile.ground = some x then 0
  else if s.isAlwaysOnTop types x then
    if x ∈ s.topItems then grounds + s.topItems.idxOf x else -1
  else if x ∈ s.downItems then
    grounds + s.topItems.length + s.tile.creatures.length + s.downItems.idxOf x
  else -1

/-- `hasProperty(exclude, prop)`. -/
def hasProperty (exclude : ItemRef) (prop : ITEMPROPERTY) : Bool :=
  s.things.any fun x => x ≠ exclude && (s.item x).hasProperty types prop

def setTileFlags (x : ItemRef) : State :=
  { s with tile := { s.tile with flags := Tiles.setTileFlags types (s.item x) s.tile.flags } }

def resetTileFlags (x : ItemRef) : State :=
  { s with tile := { s.tile with
      flags := Tiles.resetTileFlags types (s.item x) s.tile.flags (s.hasProperty types x) } }

def setGround (x : Option ItemRef) : State := { s with tile := { s.tile with ground := x } }

def setItems (items : List ItemRef) (downItemCount : ℕ) : State :=
  { s with tile := { s.tile with items := items, downItemCount := downItemCount } }

def setItem (x : ItemRef) (item : Item) : State :=
  { s with item := Function.update s.item x item }

/-! ## Operations -/

def removeThing (x : ItemRef) (count : ℕ) : State :=
  if s.getThingIndex types x = -1 then s
  else if s.tile.ground = some x then (s.setGround none).resetTileFlags types x
  else if s.isAlwaysOnTop types x then
    if x ∉ s.topItems then s
    else
      (s.setItems (s.downItems ++ s.topItems.erase x) s.tile.downItemCount).resetTileFlags types x
  else if x ∉ s.downItems then s
  else if (s.item x).isStackable types ∧ count ≠ (s.item x).count then
    s.setItem x ((s.item x).setItemCount
      (max 0 (Cylinders.toInt32 ((s.item x).count - count))).toNat)
  else
    (s.setItems (s.downItems.erase x ++ s.topItems) (s.tile.downItemCount - 1)).resetTileFlags
      types x

/-- `addThing` and `internalAddThing` put a top item in front of the first one
that passes a test, or at the end. -/
def insertBefore (test : ItemRef → Bool) (x : ItemRef) : List ItemRef → List ItemRef
  | [] => [x]
  | y :: rest => if test y then x :: y :: rest else y :: insertBefore test x rest

/-- The loop of `addThing`. -/
def insertTopItem (x : ItemRef) : List ItemRef → List ItemRef :=
  insertBefore (fun y => s.alwaysOnTopOrder types x ≤ s.alwaysOnTopOrder types y) x

/-- The loop of `internalAddThing`. -/
def internalInsertTopItem (x : ItemRef) : List ItemRef → List ItemRef :=
  insertBefore (fun y => s.alwaysOnTopOrder types y > s.alwaysOnTopOrder types x) x

def addGround (x : ItemRef) : State :=
  match s.tile.ground with
  | none => (s.setGround (some x)).setTileFlags types x
  | some oldGround =>
    ((s.setGround (some x)).resetTileFlags types oldGround).setTileFlags types x

def addTopItem (x : ItemRef) : State :=
  let s :=
    if (s.item x).isSplash types then
      match s.topItems.find? fun y => (s.item y).isSplash types with
      | some oldSplash => s.removeThing types oldSplash 1
      | none => s
    else s
  (s.setItems (s.downItems ++ s.insertTopItem types x s.topItems) s.tile.downItemCount).setTileFlags
    types x

def addDownItem (x : ItemRef) : State :=
  let put (s : State) : State :=
    (s.setItems (x :: s.tile.items) (s.tile.downItemCount + 1)).setTileFlags types x
  if ((s.item x).type types).isMagicField then
    match s.downItems.find? fun y => (s.item y).getMagicField with
    | some oldField =>
      if ((s.item oldField).type types).replaceable then put (s.removeThing types oldField 1)
      else s
    | none => put s
  else put s

/-- `addThing` of an item. -/
def addThing (x : ItemRef) : State :=
  if s.tile.items.length ≥ 0xFFFF then s
  else if (s.item x).isGroundTile types then s.addGround types x
  else if s.isAlwaysOnTop types x then s.addTopItem types x
  else s.addDownItem types x

/-- `internalAddThing` of an item. -/
def internalAddThing (x : ItemRef) : State :=
  if (s.item x).isGroundTile types then
    if s.tile.ground = none then (s.setGround (some x)).setTileFlags types x else s
  else if s.tile.items.length ≥ 0xFFFF then s
  else if s.isAlwaysOnTop types x then
    (s.setItems (s.downItems ++ s.internalInsertTopItem types x s.topItems)
      s.tile.downItemCount).setTileFlags types x
  else (s.setItems (x :: s.tile.items) (s.tile.downItemCount + 1)).setTileFlags types x

def updateThing (x : ItemRef) (itemId count : ℕ) : State :=
  if s.getThingIndex types x = -1 then s
  else
    let s := s.resetTileFlags types x
    (s.setItem x (((s.item x).setID types itemId).setSubType types count)).setTileFlags types x

/-- The place in the vector that `replaceThing` finds for an index, and the
ground for `none`. -/
def replacedPlace (index : ℕ) : Option (Option ℕ) :=
  let pos : ℤ := if s.tile.ground.isSome then (index : ℤ) - 1 else index
  if s.tile.ground.isSome ∧ index = 0 then some none
  else if pos < s.topItems.length then some (some (s.tile.downItemCount + pos.toNat))
  else
    let pos := pos - s.topItems.length
    if pos < s.tile.creatures.length then none
    else
      let pos := pos - s.tile.creatures.length
      if pos < s.downItems.length then some (some pos.toNat) else none

def replaceThing (index : ℕ) (x : ItemRef) : State :=
  match s.replacedPlace index with
  | none => s
  | some none =>
    match s.tile.ground with
    | none => s
    | some oldItem => ((s.setGround (some x)).resetTileFlags types oldItem).setTileFlags types x
  | some (some place) =>
    match s.tile.items[place]? with
    | none => s
    | some oldItem =>
      ((s.setItems (s.tile.items.set place x) s.tile.downItemCount).resetTileFlags
        types oldItem).setTileFlags types x

/-- `addThing` and `internalAddThing` of a creature. -/
def addCreature (creature : ℕ) : State :=
  { s with tile := { s.tile with creatures := creature :: s.tile.creatures } }

/-- `removeThing` of a creature. -/
def removeCreature (creature : ℕ) : State :=
  { s with tile := { s.tile with creatures := s.tile.creatures.erase creature } }

/-! ## What stands on the tile afterwards -/

variable {types s} {x : ItemRef}

theorem items_eq (s : State) : s.downItems ++ s.topItems = s.tile.items :=
  List.take_append_drop _ _

theorem mem_things {s : State} {x : ItemRef} :
    x ∈ s.things ↔ s.tile.ground = some x ∨ x ∈ s.tile.items := by
  simp [things]

@[simp] theorem things_setTileFlags : (s.setTileFlags types x).things = s.things := rfl
@[simp] theorem things_resetTileFlags : (s.resetTileFlags types x).things = s.things := rfl
@[simp] theorem things_setItem (item : Item) : (s.setItem x item).things = s.things := rfl
@[simp] theorem item_setTileFlags : (s.setTileFlags types x).item = s.item := rfl
@[simp] theorem item_resetTileFlags : (s.resetTileFlags types x).item = s.item := rfl

theorem perm_append_erase {a b : List ItemRef} (hx : x ∈ b) :
    (a ++ b.erase x).Perm ((a ++ b).erase x) := by
  have hswap : (b ++ a).erase x = b.erase x ++ a := List.erase_append_left a hx
  have hperm : (b.erase x ++ a).Perm ((a ++ b).erase x) := by
    rw [← hswap]
    exact List.perm_append_comm.erase x
  exact List.perm_append_comm.trans hperm

theorem perm_insertBefore (test : ItemRef → Bool) (x : ItemRef) (l : List ItemRef) :
    (insertBefore test x l).Perm (x :: l) := by
  induction l with
  | nil => exact .refl _
  | cons y rest ih =>
    unfold insertBefore
    split_ifs
    · exact .refl _
    · exact (ih.cons y).trans (.swap x y rest)

theorem perm_erase_things {s s' : State} (hground : s'.tile.ground = s.tile.ground)
    (hitems : s'.tile.items.Perm (s.tile.items.erase x)) (hx : x ∈ s.tile.items) :
    s'.things.Perm (s.things.erase x) := by
  unfold things
  rw [hground]
  exact (hitems.append_left _).trans (perm_append_erase hx)

/-- Whether `removeThing` takes the item off the tile. -/
def removes (types : ℕ → ItemType) (s : State) (x : ItemRef) (count : ℕ) : Bool :=
  if s.getThingIndex types x = -1 then false
  else if s.tile.ground = some x then true
  else if s.isAlwaysOnTop types x then x ∈ s.topItems
  else x ∈ s.downItems && !((s.item x).isStackable types && count ≠ (s.item x).count)

/-- A removal does nothing, makes a stack smaller or takes the item out, after
which its flags are reset. -/
theorem removeThing_cases (types : ℕ → ItemType) (s : State) (x : ItemRef) (count : ℕ) :
    (s.removes types x count = false ∧ (s.removeThing types x count = s ∨
      ∃ n, s.removeThing types x count = s.setItem x ((s.item x).setItemCount n))) ∨
    s.removes types x count = true ∧ ∃ s' : State, x ∈ s.things ∧
      s'.things.Perm (s.things.erase x) ∧ s'.item = s.item ∧
      s'.tile.flags = s.tile.flags ∧ s.removeThing types x count = s'.resetTileFlags types x := by
  unfold removeThing removes
  split_ifs with hindex hground htop hmem hmem hpart
  · exact .inl ⟨rfl, .inl rfl⟩
  · refine .inr ⟨rfl, s.setGround none, mem_things.mpr (.inl hground), ?_, rfl, rfl, rfl⟩
    simp [things, setGround, hground]
  · have hitems : x ∈ s.tile.items := List.mem_of_mem_drop hmem
    refine .inr ⟨decide_eq_true hmem,
      s.setItems (s.downItems ++ s.topItems.erase x) s.tile.downItemCount,
      mem_things.mpr (.inr hitems), ?_, rfl, rfl, rfl⟩
    have hperm : (s.downItems ++ s.topItems.erase x).Perm (s.tile.items.erase x) := by
      rw [← items_eq]
      exact perm_append_erase hmem
    exact perm_erase_things rfl hperm hitems
  · exact .inl ⟨decide_eq_false hmem, .inl rfl⟩
  · exact .inl ⟨by simp [hpart], .inr ⟨_, rfl⟩⟩
  · have hitems : x ∈ s.tile.items := List.mem_of_mem_take hmem
    have hwhole : (x ∈ s.downItems &&
        !((s.item x).isStackable types && count ≠ (s.item x).count)) = true := by
      grind
    refine .inr ⟨hwhole, s.setItems (s.downItems.erase x ++ s.topItems) (s.tile.downItemCount - 1),
      mem_things.mpr (.inr hitems), ?_, rfl, rfl, rfl⟩
    have hperm : (s.downItems.erase x ++ s.topItems).Perm (s.tile.items.erase x) := by
      rw [← items_eq, List.erase_append_left _ hmem]
    exact perm_erase_things rfl hperm hitems
  · exact .inl ⟨by simp [hmem], .inl rfl⟩

/-- What `addThing` and `internalAddThing` do: nothing, or they put the item on
the tile, which for `addThing` may have lost an old splash or field before, or
the item takes the place of the ground. -/
inductive Adds (types : ℕ → ItemType) (s : State) (x : ItemRef) (t : State) : Prop
  | nothing (h : t = s)
  | put (s₁ s₂ : State) (hold : s₁ = s ∨ ∃ old, s₁ = s.removeThing types old 1)
      (hthings : s₂.things.Perm (x :: s₁.things)) (hitem : s₂.item = s₁.item)
      (hflags : s₂.tile.flags = s₁.tile.flags) (h : t = s₂.setTileFlags types x)
  | ground (oldGround : ItemRef) (hground : s.tile.ground = some oldGround)
      (h : t = ((s.setGround (some x)).resetTileFlags types oldGround).setTileFlags types x)

theorem perm_cons_things {s s' : State} (hground : s'.tile.ground = s.tile.ground)
    (hitems : s'.tile.items.Perm (x :: s.tile.items)) : s'.things.Perm (x :: s.things) := by
  unfold things
  rw [hground]
  exact (hitems.append_left _).trans List.perm_middle

theorem adds_top {s₁ : State} (hold : s₁ = s ∨ ∃ old, s₁ = s.removeThing types old 1)
    {items : List ItemRef} (hitems : items.Perm (x :: s₁.topItems)) (n : ℕ) :
    Adds types s x ((s₁.setItems (s₁.downItems ++ items) n).setTileFlags types x) := by
  refine .put s₁ (s₁.setItems (s₁.downItems ++ items) n) hold (perm_cons_things rfl ?_) rfl rfl rfl
  rw [← items_eq s₁]
  exact (hitems.append_left _).trans List.perm_middle

theorem adds_down {s₁ : State} (hold : s₁ = s ∨ ∃ old, s₁ = s.removeThing types old 1) (n : ℕ) :
    Adds types s x ((s₁.setItems (x :: s₁.tile.items) n).setTileFlags types x) :=
  .put s₁ (s₁.setItems (x :: s₁.tile.items) n) hold (perm_cons_things rfl (.refl _)) rfl rfl rfl

theorem adds_ground (hnone : s.tile.ground = none) :
    Adds types s x ((s.setGround (some x)).setTileFlags types x) := by
  refine .put s (s.setGround (some x)) (.inl rfl) ?_ rfl rfl rfl
  simp [things, setGround, hnone]

theorem addThing_adds (types : ℕ → ItemType) (s : State) (x : ItemRef) :
    Adds types s x (s.addThing types x) := by
  unfold addThing
  split_ifs with hroom hground htop
  · exact .nothing rfl
  · unfold addGround
    cases hold : s.tile.ground with
    | none => exact adds_ground hold
    | some oldGround => exact .ground oldGround hold rfl
  · unfold addTopItem
    dsimp only
    apply adds_top _ (perm_insertBefore _ _ _)
    split_ifs
    · cases s.topItems.find? fun y => (s.item y).isSplash types with
      | none => exact .inl rfl
      | some oldSplash => exact .inr ⟨oldSplash, rfl⟩
    · exact .inl rfl
  · unfold addDownItem
    dsimp only
    split_ifs
    · cases s.downItems.find? fun y => (s.item y).getMagicField with
      | none => exact adds_down (.inl rfl) _
      | some oldField =>
        dsimp only
        split_ifs
        · exact adds_down (.inr ⟨oldField, rfl⟩) _
        · exact .nothing rfl
    · exact adds_down (.inl rfl) _

theorem internalAddThing_adds (types : ℕ → ItemType) (s : State) (x : ItemRef) :
    Adds types s x (s.internalAddThing types x) := by
  unfold internalAddThing
  split_ifs with hground hnone hroom htop
  · exact adds_ground hnone
  · exact .nothing rfl
  · exact .nothing rfl
  · exact adds_top (.inl rfl) (perm_insertBefore _ _ _) _
  · exact adds_down (.inl rfl) _

/-- What `replaceThing` does: nothing, or the item takes the place of another. -/
theorem replaceThing_cases (types : ℕ → ItemType) (s : State) (index : ℕ) (x : ItemRef) :
    s.replaceThing types index x = s ∨
    ∃ (s' : State) (a b : List ItemRef) (oldItem : ItemRef), s.things = a ++ oldItem :: b ∧
      s'.things = a ++ x :: b ∧ s'.item = s.item ∧ s'.tile.flags = s.tile.flags ∧
      s.replaceThing types index x =
        (s'.resetTileFlags types oldItem).setTileFlags types x := by
  unfold replaceThing
  cases s.replacedPlace index with
  | none => exact .inl rfl
  | some place =>
    cases place with
    | none =>
      cases hground : s.tile.ground with
      | none => exact .inl rfl
      | some oldItem =>
        refine .inr ⟨s.setGround (some x), [], s.tile.items, oldItem, ?_, ?_, rfl, rfl, rfl⟩
        · simp [things, hground]
        · simp [things, setGround]
    | some place =>
      dsimp only
      cases hplace : s.tile.items[place]? with
      | none => exact .inl rfl
      | some oldItem =>
        obtain ⟨hlt, heq⟩ := List.getElem?_eq_some_iff.mp hplace
        refine .inr ⟨s.setItems (s.tile.items.set place x) s.tile.downItemCount,
          s.tile.ground.toList ++ s.tile.items.take place, s.tile.items.drop (place + 1), oldItem, ?_, ?_, rfl, rfl, rfl⟩
        · rw [List.append_assoc, ← heq, ← List.drop_eq_getElem_cons hlt,
            List.take_append_drop]
          rfl
        · rw [List.append_assoc]
          simp [things, setItems, List.set_eq_take_append_cons_drop, hlt]

/-! ## Nothing stands on the tile twice -/

theorem nodup_removeThing (h : s.things.Nodup) (x : ItemRef) (count : ℕ) :
    (s.removeThing types x count).things.Nodup ∧
      ∀ y ∈ (s.removeThing types x count).things, y ∈ s.things := by
  rcases removeThing_cases types s x count with ⟨-, heq | ⟨n, heq⟩⟩ |
    ⟨-, s', hx, hperm, -, -, heq⟩
  · rw [heq]
    exact ⟨h, fun y hy => hy⟩
  · rw [heq]
    exact ⟨h, fun y hy => hy⟩
  · rw [heq]
    exact ⟨hperm.nodup_iff.mpr (h.erase x), fun y hy => List.mem_of_mem_erase (hperm.mem_iff.mp hy)⟩

theorem things_of_ground {oldGround : ItemRef} (h : s.tile.ground = some oldGround) :
    s.things = oldGround :: s.tile.items := by
  simp [things, h]

theorem nodup_adds {t : State} (h : s.things.Nodup) (hx : x ∉ s.things)
    (hadds : Adds types s x t) : t.things.Nodup := by
  cases hadds with
  | nothing heq =>
    rw [heq]
    exact h
  | put s₁ s₂ hold hperm hitem hflags heq =>
    have hnodup : s₁.things.Nodup ∧ ∀ y ∈ s₁.things, y ∈ s.things := by
      rcases hold with rfl | ⟨old, rfl⟩
      · exact ⟨h, fun y hy => hy⟩
      · exact nodup_removeThing h old 1
    rw [heq]
    exact hperm.nodup_iff.mpr (List.nodup_cons.mpr ⟨fun hmem => hx (hnodup.2 x hmem), hnodup.1⟩)
  | ground oldGround hground heq =>
    rw [things_of_ground hground] at h hx
    rw [heq]
    exact List.nodup_cons.mpr
      ⟨fun hmem => hx (List.mem_cons_of_mem _ hmem), (List.nodup_cons.mp h).2⟩

theorem nodup_replaceThing (h : s.things.Nodup) (hx : x ∉ s.things) (index : ℕ) :
    (s.replaceThing types index x).things.Nodup := by
  rcases replaceThing_cases types s index x with heq |
    ⟨s', a, b, oldItem, hthings, hthings', -, -, heq⟩
  · rw [heq]
    exact h
  · have hperm : (a ++ oldItem :: b).Perm (oldItem :: (a ++ b)) := List.perm_middle
    have hperm' : (a ++ x :: b).Perm (x :: (a ++ b)) := List.perm_middle
    rw [hthings] at h hx
    rw [hperm.mem_iff, List.mem_cons, not_or] at hx
    rw [heq]
    change s'.things.Nodup
    rw [hthings']
    have hcons := List.nodup_cons.mp (hperm.nodup_iff.mp h)
    exact hperm'.nodup_iff.mpr (List.nodup_cons.mpr ⟨hx.2, hcons.2⟩)

end State

/-!
## Transforming an item on a tile

`Game::transformItem` first decides what becomes of the item, by its type and the
new one, and then lets the tile carry that out: the item changes where it stands,
another one takes its place, or it is taken out and put on the tile anew.  The
contents of a container, the notifications and the pointer returned are left out.
-/

namespace Item

variable (types : ℕ → ItemType) (item : Item)

def getSubType : ℕ :=
  let it := item.type types
  if it.isFluidContainer || it.isSplash then
    (item.getIntAttr .ITEM_ATTRIBUTE_FLUIDTYPE % 65536).toNat
  else if it.stackable then item.count
  else if it.charges ≠ 0 then (item.getIntAttr .ITEM_ATTRIBUTE_CHARGES % 65536).toNat
  else item.count

def setCharges (n : ℕ) : Item := { item with toItem := item.toItem.setCharges n }

def setFluidType (n : ℕ) : Item := { item with toItem := item.toItem.setFluidType n }

def setDefaultSubtype : Item :=
  let it := item.type types
  let item := item.setItemCount 1
  if it.charges ≠ 0 then
    if it.stackable then item.setItemCount it.charges else item.setCharges it.charges
  else item

/-- `Item::Item(type, count)`, which the constructor of each class calls. -/
def ofType (id count : ℕ) (itemClass : ItemClass) : Item :=
  let it := types id
  let item : Item := { id := id, itemClass := itemClass }
  let item :=
    if it.isFluidContainer || it.isSplash then item.setFluidType count
    else if it.stackable then
      if count ≠ 0 then item.setItemCount count
      else if it.charges ≠ 0 then item.setItemCount it.charges
      else item
    else if it.charges ≠ 0 then
      if count ≠ 0 then item.setCharges count else item.setCharges it.charges
    else item
  if it.decayTime * 1000 % 4294967296 ≠ 0 then
    { item with toItem :=
        item.toItem.setIntAttr .ITEM_ATTRIBUTE_DURATION (Cylinders.toInt32 (it.decayTime * 1000)) }
  else item

/-- The class of the object that `CreateItem` makes. -/
def createdClass (it : ItemType) : ItemClass :=
  if it.type = .ITEM_TYPE_DEPOT then .DepotLocker
  else if it.type = .ITEM_TYPE_REWARDCHEST then .RewardChest
  else if it.group = .ITEM_GROUP_CONTAINER then .Container
  else if it.type = .ITEM_TYPE_TELEPORT then .Teleport
  else if it.type = .ITEM_TYPE_MAGICFIELD then .MagicField
  else if it.type = .ITEM_TYPE_DOOR then .Door
  else if it.type = .ITEM_TYPE_TRASHHOLDER then .TrashHolder
  else if it.type = .ITEM_TYPE_MAILBOX then .Mailbox
  else if it.type = .ITEM_TYPE_BED then .BedItem false
  else .Item

def CreateItem (type count : ℕ) : Option Item :=
  let it := types type
  if it.group = .ITEM_GROUP_DEPRECATED then none
  else
    let count := if it.stackable && count == 0 then 1 else count
    if it.id = 0 then none
    else if createdClass it = .Item then
      some (ofType types (Cylinders.createdId it.id) count .Item)
    else some (ofType types type 0 (createdClass it))

@[simp] theorem setDefaultSubtype_id : (item.setDefaultSubtype types).id = item.id := by
  unfold setDefaultSubtype
  dsimp only
  split_ifs <;> rfl

end Item

/-- What becomes of an item. -/
inductive Plan
  | leave
  | removeAndAdd
  | internalRemove
  | update (defaultSubtype : Bool) (itemId count : ℕ)
  | replace (newItem : Item)

namespace Plan

variable (types : ℕ → ItemType) (item : Item)

def create (type count : ℕ) : Plan :=
  match Item.CreateItem types type count with
  | some newItem => .replace newItem
  | none => .leave

/-- `transformItem` up to the first change; `again` is the call in the call. -/
def planFor (again : Plan) (newId : ℕ) (newCount : ℤ) : Plan :=
  if item.id = newId ∧ (newCount = -1 ∨ newCount = item.getSubType types ∧ newCount ≠ 0) then
    .leave
  else if !item.canTransform then .leave
  else
    let newType := types newId
    let curType := types item.id
    if newType.id = 0 then .leave
    else if curType.alwaysOnTop ≠ newType.alwaysOnTop then .removeAndAdd
    else if curType.type = newType.type then
      if newCount = 0 ∧
          (item.isStackable types ∨ item.hasAttribute .ITEM_ATTRIBUTE_CHARGES) then
        if item.isStackable types then .internalRemove
        else
          let newItemId : ℤ := if curType.id = newType.id then curType.decayTo else newId
          if newItemId ≤ 0 then .internalRemove
          else if newItemId ≠ newId then create types (newItemId % 65536).toNat 1
          else again
      else
        let hasSubType := newType.isFluidContainer || newType.isSplash || newType.stackable ||
          newType.charges ≠ 0
        let count := if newCount ≠ -1 ∧ hasSubType then newCount else item.getSubType types
        .update (curType.id ≠ newType.id ∧ newType.group ≠ curType.group)
          (if curType.id ≠ newType.id then newId else item.id) (count % 4294967296).toNat
    else create types newId (if newCount = -1 then 0 else (newCount % 65536).toNat)

/-- The call in the call has no count. -/
def plan (newId : ℕ) (newCount : ℤ) : Plan :=
  planFor types item (planFor types item .leave newId (-1)) newId newCount

end Plan

namespace State

variable (types : ℕ → ItemType) (s : State)

/-- `Game::internalRemoveItem` of the whole item, with `Tile::queryRemove`. -/
def internalRemoveItem (x : ItemRef) : State :=
  if s.getThingIndex types x = -1 then s
  else if (s.item x).count = 0 then s
  else if !(s.item x).canRemove then s
  else s.removeThing types x (s.item x).count

/-- `newItem` is the object that `CreateItem` makes, if it is called. -/
def transformItem (newItem x : ItemRef) (newId : ℕ) (newCount : ℤ) : State :=
  let itemIndex := s.getThingIndex types x
  if itemIndex = -1 then s
  else
    match Plan.plan types (s.item x) newId newCount with
    | .leave => s
    | .removeAndAdd =>
      let s := s.removeThing types x (s.item x).count
      let item := (s.item x).setID types newId
      let item :=
        if newCount ≠ -1 then item.setSubType types (newCount % 65536).toNat else item
      (s.setItem x item).addThing types x
    | .internalRemove => s.internalRemoveItem types x
    | .update defaultSubtype itemId count =>
      let s :=
        if defaultSubtype then s.setItem x ((s.item x).setDefaultSubtype types) else s
      s.updateThing types x itemId count
    | .replace item => (s.setItem newItem item).replaceThing types itemIndex.toNat newItem

end State

end TibiaServer.Tiles
