import TibiaServer.Game.Clones
import TibiaServer.Game.Mailbox
import TibiaServer.Game.RemoveItems
/-!
# The goods of a house

When a house gets another owner, `House::setOwner` sends what can be picked up in it to the inbox
of the owner it had.  An owner who is not online is loaded for this and saved, and what the save
returns is not looked at.  And an inbox takes more than its capacity, but not what is left of a
stack that it merged behind its last index.  Apart from these two no goods are lost
(`setOwner_keeps_iff`).
-/

namespace TibiaServer.Game.HouseGoods

open ReturnValue
open TibiaServer.Cylinders (Cylinder INDEX_WHEREEVER ItemRef ItemType)
open TibiaServer.Database
open TibiaServer.IOLoginData
open TibiaServer.Library

/-! ## Moving into an inbox -/

structure Thing where
  ref : ItemRef
  item : Cylinders.Item
  /-- what is inside it, which goes with it -/
  inside : List Item := []

/-- What the item lists of the tiles and the containers on them hold, and an inbox. -/
structure Store where
  contents : Cylinder → List Thing
  inbox : List Thing
  fresh : ItemRef

/-- `Inbox::Inbox` -/
def capacity : ℕ := 30

/-- The loop of `Container::queryDestination` over the items of the inbox. -/
def findStack (thing : Thing) : ℕ → List Thing → Option (ℕ × Thing)
  | _, [] => none
  | n, listItem :: itemlist =>
    if listItem.ref ≠ thing.ref ∧ listItem.item.equals thing.item = true ∧
        listItem.item.count < 100 then
      some (n, listItem)
    else findStack thing (n + 1) itemlist

/-- `removeThing` of a tile or of a container, of all of an item -/
def removeThing (s : Store) (parent : Cylinder) (thing : Thing) : Store :=
  { s with
    contents := Function.update s.contents parent
      ((s.contents parent).filter fun y => y.ref ≠ thing.ref) }

def holds (s : Store) (parent : Cylinder) (thing : Thing) : Bool :=
  (s.contents parent).any fun y => y.ref = thing.ref

/-- `Container::addThing` -/
def addThing (s : Store) (index : ℤ) (thing : Thing) : Store :=
  if index ≥ capacity then s else { s with inbox := thing :: s.inbox }

section Moves

variable (items : ℕ → ItemType)

def isStackable (thing : Thing) : Bool := (items thing.item.id).stackable

/-- What `transferToDepot` takes of an item of a tile, with the parent of each. -/
def goodsOf (s : Store) (tile : Cylinder) (thing : Thing) : List (Cylinder × Thing) :=
  if (items thing.item.id).pickupable then [(tile, thing)]
  else (s.contents (.container thing.ref)).map fun y => (.container thing.ref, y)

def moveItemList (s : Store) (houseTiles : List Cylinder) : List (Cylinder × Thing) :=
  houseTiles.flatMap fun tile => (s.contents tile).flatMap (goodsOf items s tile)

/-- The stack that `Container::queryDestination` finds for an item, and its index. -/
def destItem (inbox : List Thing) (thing : Thing) : Option (ℕ × Thing) :=
  if isStackable items thing then findStack thing 0 inbox else none

/-- `Inbox::queryAdd` with `FLAG_NOLIMIT` -/
def queryAdd (thing : Thing) : ReturnValue :=
  if (items thing.item.id).pickupable then NOERROR else CANNOTPICKUP

/-- `queryRemove` of a tile or of a container -/
def queryRemove (s : Store) (parent : Cylinder) (thing : Thing) (count : ℕ) : ReturnValue :=
  if !holds s parent thing then NOTPOSSIBLE
  else if count = 0 ∨ isStackable items thing = true ∧ thing.item.count < count then NOTPOSSIBLE
  else if !(items thing.item.id).moveable then NOTMOVEABLE
  else NOERROR

/-- `Container::updateThing` of the stack at an index -/
def updateThing (s : Store) (index : ℕ) (toItem : Thing) (count : ℕ) : Store :=
  { s with
    inbox := s.inbox.set index
      { toItem with item := (toItem.item.setID items toItem.item.id).setSubType items count } }

/-- A clone of the stack with what is left of it is added. -/
def addRest (s : Store) (index : ℤ) (thing : Thing) (newCount : ℕ) : Option Store :=
  if newCount = 0 then some s
  else (thing.item.clone items).map fun moveItem =>
    { addThing s index { ref := s.fresh, item := moveItem.setItemCount newCount } with
      fresh := s.fresh + 1 }

/-- `Game::internalMoveItem` of all of an item into the inbox at `INDEX_WHEREEVER`, with
`FLAG_NOLIMIT`; `none` where a null pointer is dereferenced. -/
def internalMoveItem (s : Store) (parent : Cylinder) (thing : Thing) : Option Store :=
  let count := thing.item.count
  -- `Container::queryMaxCount` with `FLAG_NOLIMIT`
  let maxQueryCount := max 1 count
  let m := if isStackable items thing = true then min count maxQueryCount else maxQueryCount
  if queryAdd items thing ≠ NOERROR then some s
  else if queryRemove items s parent thing m ≠ NOERROR then some s
  else
    let removed := removeThing s parent thing
    match destItem items s.inbox thing with
    | some (index, toItem) =>
      -- the search passes over the item itself, and what it finds equals the item
      let n := min (100 - toItem.item.count) m
      addRest items (updateThing items removed index toItem (toItem.item.count + n)) index thing
        (m - n)
    | none =>
      if isStackable items thing then addRest items removed INDEX_WHEREEVER thing m
      else some (addThing removed INDEX_WHEREEVER thing)

/-- The loop over `moveItemList`. -/
def moveAll : Store → List (Cylinder × Thing) → Option Store
  | s, [] => some s
  | s, (parent, thing) :: goods => (internalMoveItem items s parent thing).bind (moveAll · goods)

end Moves

/-! ## What the moves do -/

section Spec

variable (items : ℕ → ItemType)

/-- Every type has its row in the table, or none. -/
structure Named : Prop where
  named : ∀ id, items id = { id := 0 } ∨ (items id).id = id ∧ id ≠ 0

/-- The item can be picked up and moved, and is not a stack of none. -/
def Movable (thing : Thing) : Prop :=
  queryAdd items thing = NOERROR ∧ (items thing.item.id).moveable = true ∧
    (isStackable items thing = true → thing.item.count ≠ 0)

instance : DecidablePred (Movable items) :=
  fun thing => inferInstanceAs (Decidable (queryAdd items thing = NOERROR ∧
    (items thing.item.id).moveable = true ∧ (isStackable items thing = true → _ ≠ 0)))

/-- The units of a type that a thing counts for. -/
def units (id : ℕ) (thing : Thing) : ℕ :=
  if thing.item.id = id then thing.item.units items else 0

/-- The units of a type in an inbox. -/
def stock (id : ℕ) (inbox : List Thing) : ℕ := Stock.amount (units items id) inbox

/-- The units of a type among the goods that can be moved. -/
def moved (id : ℕ) (goods : List (Cylinder × Thing)) : ℕ :=
  Stock.amount (fun g => units items id g.2) (goods.filter fun g => Movable items g.2)

/-- The stack that the item is merged with is behind the last index of the inbox, and has no room
for all of it. -/
def Overflows (inbox : List Thing) (thing : Thing) : Prop :=
  Movable items thing ∧ ∃ index toItem, destItem items inbox thing = some (index, toItem) ∧
    capacity ≤ index ∧ 100 < toItem.item.count + thing.item.count

/-- One of the stacks that are merged has no room for all of the stack that is moved. -/
def Overflowing : Store → List (Cylinder × Thing) → Prop
  | _, [] => False
  | s, (parent, thing) :: goods =>
    Overflows items s.inbox thing ∨
      ∃ t, internalMoveItem items s parent thing = some t ∧ Overflowing t goods

/-- What can be moved has gone from the house, and the inbox has got no more than its units. -/
structure Stowed (s t : Store) (goods : List (Cylinder × Thing)) : Prop where
  contents : ∀ c y, y ∈ t.contents c ↔
    y ∈ s.contents c ∧ ∀ g ∈ goods, Movable items g.2 → ¬(g.1 = c ∧ y.ref = g.2.ref)
  plain : ∀ y, isStackable items y = false →
    (y ∈ t.inbox ↔ y ∈ s.inbox ∨ ∃ g ∈ goods, Movable items g.2 ∧ y = g.2)
  le : ∀ id, stock items id t.inbox ≤ stock items id s.inbox + moved items id goods
  all : (∀ id, stock items id t.inbox = stock items id s.inbox + moved items id goods) ↔
    ¬Overflowing items s goods

/-- The item has gone, and the inbox has got so many of its units. -/
structure Gains (s t : Store) (g : Cylinder × Thing) (gain : ℕ) : Prop where
  contents : t.contents = (removeThing s g.1 g.2).contents
  plain : ∀ y, isStackable items y = false → (y ∈ t.inbox ↔ y ∈ s.inbox ∨ y = g.2)
  stock : ∀ id, stock items id t.inbox =
    stock items id s.inbox + if g.2.item.id = id then gain else 0
  le : gain ≤ g.2.item.units items
  all : gain = g.2.item.units items ↔ ¬Overflows items s.inbox g.2

variable {items} {s t u : Store} {parent : Cylinder} {thing : Thing} {g h : Cylinder × Thing}
  {goods : List (Cylinder × Thing)}

theorem findStack_spec {inbox : List Thing} {n index : ℕ} {toItem : Thing}
    (h : findStack thing n inbox = some (index, toItem)) :
    ∃ before after, inbox = before ++ toItem :: after ∧ index = n + before.length ∧
      toItem.item.id = thing.item.id ∧ toItem.item.count < 100 := by
  induction inbox generalizing n with
  | nil => simp [findStack] at h
  | cons y inbox ih =>
    unfold findStack at h
    split at h
    next hy =>
      obtain ⟨rfl, rfl⟩ := Prod.mk.inj (Option.some.inj h)
      exact ⟨[], inbox, rfl, rfl, (Cylinders.Item.equals_iff.mp hy.2.1).1, hy.2.2⟩
    next =>
      obtain ⟨before, after, rfl, hindex, hsame⟩ := ih h
      exact ⟨y :: before, after, rfl, by simp only [List.length_cons]; omega, hsame⟩

theorem units_of_stackable (hstack : isStackable items thing = true) (id : ℕ) :
    units items id thing = if thing.item.id = id then thing.item.count else 0 := by
  have htype : (items thing.item.id).stackable = true := hstack
  simp [units, Cylinders.Item.units, htype]

theorem stock_cons (id : ℕ) (y : Thing) (inbox : List Thing) :
    stock items id (y :: inbox) = stock items id inbox + units items id y := by
  unfold stock
  rw [Stock.amount_cons, Nat.add_comm]

theorem stock_middle (id : ℕ) (before after : List Thing) (y : Thing) :
    stock items id (before ++ y :: after) = stock items id (before ++ after) + units items id y := by
  rw [← stock_cons]
  exact Stock.amount_perm List.perm_middle

/-- The stack at an index gets another count. -/
theorem updateThing_spec {before after : List Thing} {toItem : Thing}
    (hinbox : s.inbox = before ++ toItem :: after) (hstack : isStackable items toItem = true)
    {count : ℕ} (hcount : count < 256) :
    ∃ y, (updateThing items s before.length toItem count).inbox = before ++ y :: after ∧
      isStackable items y = true ∧
      ∀ id, units items id y = if toItem.item.id = id then count else 0 := by
  have hid : (toItem.item.setID items toItem.item.id).id = toItem.item.id :=
    Cylinders.Item.setID_id items _ _
  have htype : (items (toItem.item.setID items toItem.item.id).id).stackable = true := by
    rw [hid]
    exact hstack
  have hset := Cylinders.Item.setSubType_of_stackable items htype count
  generalize hitem : (toItem.item.setID items toItem.item.id).setSubType items count = item at hset
  have hstackY : isStackable items { toItem with item } = true := by
    unfold isStackable
    rw [hset]
    exact htype
  refine ⟨{ toItem with item }, by simp [updateThing, hinbox, hitem], hstackY, fun id => ?_⟩
  rw [units_of_stackable hstackY]
  simp [hset, hid, Cylinders.Item.setItemCount, Nat.mod_eq_of_lt hcount]

/-- What is left of a stack arrives where the index is one of the inbox. -/
theorem addRest_spec (hnamed : Named items) (hstack : isStackable items thing = true) (s : Store)
    (index : ℤ) {n : ℕ} (hn : n < 256) :
    ∃ t, addRest items s index thing n = some t ∧ t.contents = s.contents ∧
      (∀ y, isStackable items y = false → (y ∈ t.inbox ↔ y ∈ s.inbox)) ∧
      ∀ id, stock items id t.inbox = stock items id s.inbox +
        if thing.item.id = id ∧ index < capacity then n else 0 := by
  unfold addRest
  split_ifs with hzero
  · exact ⟨s, rfl, rfl, fun _ _ => Iff.rfl, by simp [hzero]⟩
  obtain ⟨newItem, hclone, hid, -⟩ := Game.clone_of_stackable hnamed.named hstack
  obtain ⟨new, hnew⟩ : ∃ new : Thing,
      new = { ref := s.fresh, item := newItem.setItemCount n } := ⟨_, rfl⟩
  have hstackNew : isStackable items new = true := by
    subst hnew
    simpa [isStackable, hid] using hstack
  refine ⟨{ addThing s index new with fresh := s.fresh + 1 }, by rw [hclone, hnew]; rfl, ?_⟩
  unfold addThing
  split_ifs with hindex
  · refine ⟨rfl, fun _ _ => Iff.rfl, fun id => ?_⟩
    simp [show ¬index < capacity by omega]
  · refine ⟨rfl, fun y hplain => ?_, fun id => ?_⟩
    · have hne : y ≠ new := fun heq => by simp [heq, hstackNew] at hplain
      simp [hne]
    · rw [stock_cons, units_of_stackable hstackNew]
      simp [hnew, hid, not_le.mp hindex, Cylinders.Item.setItemCount, Nat.mod_eq_of_lt hn]

theorem queryRemove_iff : queryRemove items s parent thing
    (if isStackable items thing = true then min thing.item.count (max 1 thing.item.count)
      else max 1 thing.item.count) = NOERROR ↔
    (∃ y ∈ s.contents parent, y.ref = thing.ref) ∧ (items thing.item.id).moveable = true ∧
      (isStackable items thing = true → thing.item.count ≠ 0) := by
  unfold queryRemove
  split_ifs with habsent hstack hcount hcount hmove hmove <;> simp_all [holds]

theorem mem_removeThing (s : Store) (g : Cylinder × Thing) (c : Cylinder) (y : Thing) :
    y ∈ (removeThing s g.1 g.2).contents c ↔
      y ∈ s.contents c ∧ ¬(g.1 = c ∧ y.ref = g.2.ref) := by
  unfold removeThing
  by_cases hc : c = g.1
  · subst hc
    simp
  · simp [hc, Ne.symm hc]

/-- What cannot be moved stays. -/
theorem internalMoveItem_stays (h : ¬Movable items thing) :
    internalMoveItem items s parent thing = some s := by
  unfold internalMoveItem
  simp only
  split
  · rfl
  next hadd =>
    rw [if_pos]
    intro hremove
    exact h ⟨not_not.mp hadd, (queryRemove_iff.mp hremove).2⟩

theorem overflowing_cons (hrun : internalMoveItem items s g.1 g.2 = some t) :
    Overflowing items s (g :: goods) ↔
      Overflows items s.inbox g.2 ∨ Overflowing items t goods := by
  simp [Overflowing, hrun]

theorem stowed_stays (hno : ¬Movable items g.2) : Stowed items s s [g] where
  contents := by simp [hno]
  plain := by simp [hno]
  le _ := Nat.le_add_right _ _
  all := by
    have hhere : ¬Overflows items s.inbox g.2 := fun h => hno h.1
    simp [moved, hno, hhere, Overflowing, Stock.amount, internalMoveItem_stays hno]

theorem stowed_moves (hmove : Movable items g.2)
    (hrun : internalMoveItem items s g.1 g.2 = some t) {gain : ℕ} (h : Gains items s t g gain) :
    Stowed items s t [g] := by
  have hmoved : ∀ id, moved items id [g] =
      if g.2.item.id = id then g.2.item.units items else 0 := by
    intro id
    simp [moved, hmove, Stock.amount, units]
  constructor
  · intro c y
    rw [h.contents, mem_removeThing]
    simp [hmove]
  · intro y hplain
    rw [h.plain y hplain]
    simp [hmove]
  · intro id
    have hle := h.le
    rw [h.stock, hmoved]
    split_ifs <;> omega
  · rw [overflowing_cons hrun, Overflowing, or_false, ← h.all]
    constructor
    · intro hexact
      have hsame := hexact g.2.item.id
      rw [h.stock, hmoved, if_pos rfl, if_pos rfl] at hsame
      omega
    · intro hgain id
      rw [h.stock, hmoved, hgain]

/-- What can be picked up and moved is moved. -/
theorem internalMoveItem_moves (hnamed : Named items) (hmem : g.2 ∈ s.contents g.1)
    (hcount : g.2.item.count < 256) (h : Movable items g.2) :
    ∃ t, internalMoveItem items s g.1 g.2 = some t ∧ Stowed items s t [g] := by
  have hadd := h.1
  have hremove := queryRemove_iff.mpr ⟨⟨g.2, hmem, rfl⟩, h.2⟩
  suffices hgains : ∃ t gain, internalMoveItem items s g.1 g.2 = some t ∧ Gains items s t g gain by
    obtain ⟨t, gain, hrun, hgain⟩ := hgains
    exact ⟨t, hrun, stowed_moves h hrun hgain⟩
  unfold internalMoveItem
  simp only
  rw [if_neg (not_not.mpr hadd), if_neg (not_not.mpr hremove)]
  cases hstack : isStackable items g.2 with
  | false =>
    have hnone : destItem items s.inbox g.2 = none := by simp [destItem, hstack]
    have hadded : addThing (removeThing s g.1 g.2) INDEX_WHEREEVER g.2 =
        { removeThing s g.1 g.2 with inbox := g.2 :: s.inbox } := if_neg (by decide)
    simp only [hnone, hadded]
    refine ⟨_, g.2.item.units items, rfl, rfl, fun y _ => ?_, fun id => stock_cons id g.2 s.inbox,
      le_rfl, by simp [Overflows, hnone]⟩
    rw [List.mem_cons, or_comm]
  | true =>
    have hunits : g.2.item.units items = g.2.item.count := if_pos hstack
    have hm : min g.2.item.count (max 1 g.2.item.count) = g.2.item.count := by omega
    have hother : ∀ {y : Thing}, isStackable items y = false → y ≠ g.2 :=
      fun hy heq => by simp [heq, hstack] at hy
    simp only [if_true, hm]
    cases hfound : destItem items s.inbox g.2 with
    | none =>
      obtain ⟨t, ht, hcontents, hplain, hstock⟩ := addRest_spec hnamed hstack
        (removeThing s g.1 g.2) INDEX_WHEREEVER hcount
      have hindex : INDEX_WHEREEVER < (capacity : ℤ) := by decide
      refine ⟨t, g.2.item.count, ht, hcontents, fun y hy => ?_, fun id => ?_, hunits.ge, ?_⟩
      · rw [hplain y hy, or_iff_left (hother hy)]
        rfl
      · rw [hstock]
        simp only [hindex, and_true]
        rfl
      · simp [hunits, Overflows, hfound]
    | some found =>
      obtain ⟨index, toItem⟩ := found
      have hfind : findStack g.2 0 s.inbox = some (index, toItem) := by
        simpa [destItem, hstack] using hfound
      obtain ⟨before, after, hinbox, rfl, hid, hroom⟩ := findStack_spec hfind
      have hstackTo : isStackable items toItem = true := by
        unfold isStackable at hstack ⊢
        rw [hid]
        exact hstack
      simp only [Nat.zero_add]
      generalize hn : min (100 - toItem.item.count) g.2.item.count = n
      obtain ⟨x, hupdated, hstackX, hunitsX⟩ :=
        updateThing_spec (s := removeThing s g.1 g.2) hinbox hstackTo
          (show toItem.item.count + n < 256 by omega)
      obtain ⟨t, ht, hcontents, hplain, hstock⟩ := addRest_spec hnamed hstack
        (updateThing items (removeThing s g.1 g.2) before.length toItem
          (toItem.item.count + n)) before.length
        (show g.2.item.count - n < 256 by omega)
      rw [hupdated] at hplain hstock
      refine ⟨t, if before.length < capacity then g.2.item.count else n, ht, hcontents,
        fun y hy => ?_, fun id => ?_, ?_, ?_⟩
      · have hX : y ≠ x := fun heq => by simp [heq, hstackX] at hy
        have hTo : y ≠ toItem := fun heq => by simp [heq, hstackTo] at hy
        rw [hplain y hy, or_iff_left (hother hy), hinbox]
        simp [hX, hTo]
      · rw [hstock, hinbox, stock_middle, stock_middle, hunitsX, units_of_stackable hstackTo, hid]
        split_ifs <;> omega
      · split_ifs <;> omega
      · have hover : Overflows items s.inbox g.2 ↔ capacity ≤ before.length ∧
            100 < toItem.item.count + g.2.item.count := by
          unfold Overflows
          rw [hfound]
          simp [h, and_assoc]
        rw [hover, hunits]
        split_ifs <;> omega

end Spec

section Run

variable {items : ℕ → ItemType} {s t u : Store} {g : Cylinder × Thing}
  {goods : List (Cylinder × Thing)}

theorem stowed_nil (s : Store) : Stowed items s s [] where
  contents := by simp
  plain := by simp
  le _ := Nat.le_add_right _ _
  all := by simp [moved, Stock.amount, Overflowing]

/-- With the first of the goods moved, the rest is. -/
theorem Stowed.cons (hrest : Stowed items u t goods) (hfirst : Stowed items s u [g])
    (hrun : internalMoveItem items s g.1 g.2 = some u) : Stowed items s t (g :: goods) := by
  have hmoved : ∀ id, moved items id (g :: goods) = moved items id [g] + moved items id goods := by
    intro id
    unfold moved
    by_cases hmove : Movable items g.2 <;> simp [hmove, Stock.amount]
  have hone : Overflowing items s [g] ↔ Overflows items s.inbox g.2 := by
    rw [overflowing_cons hrun, Overflowing, or_false]
  constructor
  · intro c y
    rw [hrest.contents, hfirst.contents, and_assoc]
    simp
  · intro y hplain
    rw [hrest.plain y hplain, hfirst.plain y hplain, or_assoc]
    simp
  · intro id
    have hhere := hfirst.le id
    have hlater := hrest.le id
    rw [hmoved]
    omega
  · rw [overflowing_cons hrun, not_or, ← hone, ← hfirst.all, ← hrest.all, ← forall_and]
    refine forall_congr' fun id => ?_
    have hhere := hfirst.le id
    have hlater := hrest.le id
    rw [hmoved]
    omega

/-- Every one of the goods that can be moved is moved. -/
theorem moveAll_spec (hnamed : Named items)
    (hstands : ∀ g ∈ goods, g.2 ∈ s.contents g.1 ∧ g.2.item.count < 256)
    (hnodup : (goods.map fun g => g.2.ref).Nodup) :
    ∃ t, moveAll items s goods = some t ∧ Stowed items s t goods := by
  induction goods generalizing s with
  | nil => exact ⟨s, rfl, stowed_nil s⟩
  | cons g goods ih =>
    obtain ⟨hnot, hrest⟩ := List.nodup_cons.mp hnodup
    obtain ⟨hmem, hcount⟩ := hstands g List.mem_cons_self
    obtain ⟨u, hu, hfirst⟩ : ∃ u, internalMoveItem items s g.1 g.2 = some u ∧
        Stowed items s u [g] := by
      by_cases hmove : Movable items g.2
      · exact internalMoveItem_moves hnamed hmem hcount hmove
      · exact ⟨s, internalMoveItem_stays hmove, stowed_stays hmove⟩
    have hlater : ∀ h ∈ goods, h.2 ∈ u.contents h.1 ∧ h.2.item.count < 256 := by
      intro h hh
      obtain ⟨hstood, hless⟩ := hstands h (List.mem_cons_of_mem g hh)
      refine ⟨(hfirst.contents h.1 h.2).mpr ⟨hstood, fun g' hg' _ heq => ?_⟩, hless⟩
      rw [List.mem_singleton.mp hg'] at heq
      exact hnot (List.mem_map.mpr ⟨h, hh, heq.2⟩)
    obtain ⟨t, ht, hstowed⟩ := ih hlater hrest
    exact ⟨t, by simp only [moveAll, hu, Option.bind_some, ht], hstowed.cons hfirst hu⟩

end Run

/-! ## The house -/

structure House where
  owner : ℕ
  townId : ℕ
  isLoaded : Bool
  houseTiles : List Cylinder
  /-- the sleepers of the beds that are woken one after the other -/
  sleepers : List ℕ

/-- What `setOwner` calls.  `loadPlayerById` is none where the load fails, and `outcomes` are
those of the queries of each save. -/
structure Registry where
  items : ℕ → ItemType
  named : Named items
  serializeAttr : Cylinders.Item → Text
  getPlayerByGUID : ℕ → Option (List Thing)
  loadPlayerById : ℕ → PlayerRows → Option (Player × List Thing)
  regeneratePlayer : Player → Player
  hasName : ℕ → Bool
  ctx : SaveContext
  outcomes : ℕ → ℕ → Outcome

/-- What the database holds of each player, and how often one was saved. -/
structure Saves where
  rows : ℕ → PlayerRows
  count : ℕ

structure Scene where
  house : House
  contents : Cylinder → List Thing
  fresh : ItemRef
  saves : Saves

/-- Whose inbox the goods go to: that of a player who is there after the call, or of one who is
only saved. -/
inductive Receiver
  | nobody
  | player (inbox : List Thing)
  | tmpPlayer (player : Player) (inbox : List Thing)

def Receiver.inbox : Receiver → List Thing
  | nobody => []
  | player inbox => inbox
  | tmpPlayer _ inbox => inbox

def store (s : Scene) (inbox : List Thing) : Store := ⟨s.contents, inbox, s.fresh⟩

namespace Registry

variable (w : Registry)

/-- The player as he is saved. -/
def saved (player : Player) (inbox : List Thing) : Player :=
  { player with
    inbox := inbox.map fun thing => .mk thing.item.id (thing.item.getSubType w.items)
      (w.serializeAttr thing.item) thing.item.container.isSome thing.inside }

def savePlayer (s : Saves) (guid : ℕ) (player : Player) : Saves where
  rows := Function.update s.rows guid (IOLoginData.savePlayer w.ctx (w.outcomes s.count) player
    { stored := s.rows guid }).2.stored
  count := s.count + 1

/-- `BedItem::wakeUp` without a player -/
def wakeUp (s : Saves) (sleeper : ℕ) : Saves :=
  match w.loadPlayerById sleeper (s.rows sleeper) with
  | none => s
  | some (player, inbox) => w.savePlayer s sleeper (w.regeneratePlayer (w.saved player inbox))

/-- Whom `setOwner` and `transferToDepot` choose. -/
def receiver (s : Scene) (player : Option (List Thing)) : Receiver :=
  if s.house.townId = 0 ∨ s.house.owner = 0 then .nobody
  else
    match player.or (w.getPlayerByGUID s.house.owner) with
    | some inbox => .player inbox
    | none =>
      match w.loadPlayerById s.house.owner (s.saves.rows s.house.owner) with
      | some (player, inbox) => .tmpPlayer player inbox
      | none => .nobody

def goods (s : Scene) : List (Cylinder × Thing) :=
  moveItemList w.items (store s []) s.house.houseTiles

/-- The goods go to an inbox. -/
def transfer (s : Scene) (inbox : List Thing) : Option Store :=
  moveAll w.items (store s inbox) (w.goods s)

/-- `House::transferToDepot` -/
def transferToDepot (s : Scene) : Receiver → Option (Scene × Receiver)
  | .nobody => some (s, .nobody)
  | .player inbox => (w.transfer s inbox).map fun t =>
    ({ s with contents := t.contents, fresh := t.fresh }, .player t.inbox)
  | .tmpPlayer player inbox => (w.transfer s inbox).map fun t =>
    ({ s with
        contents := t.contents
        fresh := t.fresh
        saves := w.savePlayer s.saves s.house.owner (w.saved player t.inbox) },
      .tmpPlayer player t.inbox)

/-- `House::setOwner` -/
def setOwner (s : Scene) (guid : ℕ) (player : Option (List Thing)) : Option (Scene × Receiver) :=
  if s.house.isLoaded = true ∧ s.house.owner = guid then some (s, .nobody)
  else
    let owner := if guid ≠ 0 ∧ w.hasName guid = true then guid else 0
    let house := { s.house with isLoaded := true, owner }
    if s.house.owner = 0 then some ({ s with house }, .nobody)
    else
      (w.transferToDepot s (w.receiver s player)).map fun (t, r) =>
        ({ t with house, saves := s.house.sleepers.foldl w.wakeUp t.saves }, r)

end Registry

/-! ## What becomes of the goods -/

/-- The goods before they are moved: each in one place, and not in the inbox. -/
structure Collected (s : Store) (goods : List (Cylinder × Thing)) : Prop where
  count : ∀ g ∈ goods, g.2.item.count < 256
  once : (goods.map fun g => g.2.ref).Nodup
  apart : ∀ g ∈ goods, g.2 ∉ s.inbox

/-- The goods are where they were or in an inbox that survives, and not in both. -/
structure Kept (items : ℕ → ItemType) (goods : List (Cylinder × Thing)) (s t : Store)
    (survives : Prop) : Prop where
  plain : ∀ g ∈ goods, isStackable items g.2 = false →
    Xor (g.2 ∈ t.contents g.1) (survives ∧ g.2 ∈ t.inbox)
  merged : ∀ g ∈ goods, isStackable items g.2 = true → g.2 ∈ t.contents g.1 ∨ survives
  /-- the inbox has got the units of what has gone -/
  units : ∀ id, stock items id t.inbox = stock items id s.inbox +
    Stock.amount (fun g => units items id g.2) (goods.filter fun g => !holds t g.1 g.2)

section Goods

variable {items : ℕ → ItemType} {s t : Store} {g : Cylinder × Thing}
  {goods : List (Cylinder × Thing)} {survives : Prop}

theorem Stowed.kept_iff (h : Stowed items s t goods) (hgoods : Collected s goods)
    (hmem : ∀ g ∈ goods, g.2 ∈ s.contents g.1) :
    Kept items goods s t survives ↔
      ¬Overflowing items s goods ∧ ((∃ g ∈ goods, Movable items g.2) → survives) := by
  have hsame : ∀ g ∈ goods, ∀ g' ∈ goods, g.2.ref = g'.2.ref → g = g' :=
    fun g hg g' hg' heq => List.inj_on_of_nodup_map hgoods.once hg hg' heq
  have hstays : ∀ g ∈ goods, (g.2 ∈ t.contents g.1 ↔ ¬Movable items g.2) := by
    intro g hg
    rw [h.contents]
    constructor
    · exact fun hin hmove => hin.2 g hg hmove ⟨rfl, rfl⟩
    · refine fun hno => ⟨hmem g hg, fun g' hg' hmove heq => hno ?_⟩
      rw [hsame g hg g' hg' heq.2]
      exact hmove
  have hfilter : (goods.filter fun g => !holds t g.1 g.2) =
      goods.filter fun g => Movable items g.2 := by
    apply List.filter_congr
    intro g hg
    by_cases hmove : Movable items g.2
    · simp only [holds, hmove, decide_true, Bool.not_eq_true', List.any_eq_false]
      intro y hy heq
      exact ((h.contents g.1 y).mp hy).2 g hg hmove ⟨rfl, by simpa using heq⟩
    · have hhere : holds t g.1 g.2 = true :=
        List.any_eq_true.mpr ⟨g.2, (hstays g hg).mpr hmove, by simp⟩
      simp [hhere, hmove]
  have hunits : (∀ id, stock items id t.inbox = stock items id s.inbox +
      Stock.amount (fun g => units items id g.2) (goods.filter fun g => !holds t g.1 g.2)) ↔
        ¬Overflowing items s goods := by
    rw [hfilter]
    exact h.all
  constructor
  · intro hkept
    refine ⟨hunits.mp hkept.units, fun ⟨g, hg, hmove⟩ => ?_⟩
    have hgone : g.2 ∉ t.contents g.1 := fun hin => (hstays g hg).mp hin hmove
    cases hstack : isStackable items g.2 with
    | true => exact (hkept.merged g hg hstack).resolve_left hgone
    | false =>
      rcases hkept.plain g hg hstack with ⟨hin, -⟩ | ⟨⟨hsurvives, -⟩, -⟩
      · exact absurd hin hgone
      · exact hsurvives
  · rintro ⟨hroom, hsurvives⟩
    refine ⟨fun g hg hplain => ?_, fun g hg _ => ?_, hunits.mpr hroom⟩
    · by_cases hmove : Movable items g.2
      · have hin := (h.plain g.2 hplain).mpr (.inr ⟨g, hg, hmove, rfl⟩)
        exact .inr ⟨⟨hsurvives ⟨g, hg, hmove⟩, hin⟩, fun hin => (hstays g hg).mp hin hmove⟩
      · refine .inl ⟨(hstays g hg).mpr hmove, fun hin => ?_⟩
        rcases (h.plain g.2 hplain).mp hin.2 with hold | ⟨g', -, hmoves, heq⟩
        · exact hgoods.apart g hg hold
        · exact hmove (heq ▸ hmoves)
    · by_cases hmove : Movable items g.2
      · exact .inr (hsurvives ⟨g, hg, hmove⟩)
      · exact .inl ((hstays g hg).mpr hmove)

end Goods

namespace Registry

variable (w : Registry)

/-- The rows that the saves leave of the former owner. -/
def rowsLeft (s : Scene) (player : Player) (inbox : List Thing) : PlayerRows :=
  (s.house.sleepers.foldl w.wakeUp
    (w.savePlayer s.saves s.house.owner (w.saved player inbox))).rows s.house.owner

def Survives (s : Scene) (owner : ℕ) : Receiver → Prop
  | .nobody => False
  | .player _ => True
  | .tmpPlayer player inbox =>
    Mailbox.InboxStored w.ctx (w.saved player inbox) (s.saves.rows owner)

/-- The goods of the house are kept by a change of its owner. -/
def KeepsGoods (s : Scene) (player : Option (List Thing)) (t : Scene) (r : Receiver) : Prop :=
  Kept w.items (w.goods s) (store s (w.receiver s player).inbox) (store t r.inbox)
    (w.Survives t s.house.owner r)

/-- No stack that is moved is too large for a stack behind the last index of the inbox, and the
inbox of a player who is loaded, and gets something, is stored. -/
def Safe (s : Scene) : Receiver → Prop
  | .nobody => True
  | .player inbox => ¬Overflowing w.items (store s inbox) (w.goods s)
  | .tmpPlayer player inbox => ¬Overflowing w.items (store s inbox) (w.goods s) ∧
      ((∃ g ∈ w.goods s, Movable w.items g.2) → ∀ t, w.transfer s inbox = some t →
        Mailbox.InboxStored w.ctx (w.saved player t.inbox) (w.rowsLeft s player t.inbox))

end Registry

section Owner

variable {w : Registry} {s t : Scene} {guid : ℕ} {player : Option (List Thing)}
  {inbox : List Thing}

theorem Registry.mem_goods {g : Cylinder × Thing} (hg : g ∈ w.goods s) : g.2 ∈ s.contents g.1 := by
  obtain ⟨tile, -, hg⟩ := List.mem_flatMap.mp hg
  obtain ⟨thing, hthing, hg⟩ := List.mem_flatMap.mp hg
  unfold goodsOf at hg
  split at hg
  · rw [List.mem_singleton.mp hg]
    exact hthing
  · obtain ⟨y, hy, rfl⟩ := List.mem_map.mp hg
    exact hy

theorem Registry.transfer_spec (hgoods : Collected (store s inbox) (w.goods s)) :
    ∃ t, w.transfer s inbox = some t ∧ ∀ survives,
      Kept w.items (w.goods s) (store s inbox) t survives ↔
        ¬Overflowing w.items (store s inbox) (w.goods s) ∧
          ((∃ g ∈ w.goods s, Movable w.items g.2) → survives) := by
  have hmem : ∀ g ∈ w.goods s, g.2 ∈ (store s inbox).contents g.1 := fun g hg => mem_goods hg
  obtain ⟨t, ht, hstowed⟩ := moveAll_spec w.named
    (fun g hg => ⟨hmem g hg, hgoods.count g hg⟩) hgoods.once
  exact ⟨t, ht, fun survives => hstowed.kept_iff hgoods hmem⟩

/-- Where nobody gets the goods, they stay. -/
theorem Registry.keepsGoods_of_nobody (hnobody : w.receiver s player = .nobody)
    (hcontents : t.contents = s.contents) : w.KeepsGoods s player t .nobody := by
  have hhere : ∀ g ∈ w.goods s, g.2 ∈ t.contents g.1 := by
    rw [hcontents]
    exact fun g hg => mem_goods hg
  have hnone : ((w.goods s).filter fun g => !holds (store t []) g.1 g.2) = [] := by
    apply List.filter_eq_nil_iff.mpr
    intro g hg
    have hholds : holds (store t []) g.1 g.2 = true :=
      List.any_eq_true.mpr ⟨g.2, hhere g hg, by simp⟩
    simp [hholds]
  unfold Registry.KeepsGoods
  rw [hnobody]
  refine ⟨fun g hg _ => .inl ⟨hhere g hg, And.left⟩, fun g hg _ => .inl (hhere g hg), fun id => ?_⟩
  simp only [Receiver.inbox, hnone]
  rfl

theorem exists_result {run : Option (Scene × Receiver)} {r : Receiver}
    (hrun : run = some (t, r)) {P : Scene → Receiver → Prop} :
    (∃ t r, run = some (t, r) ∧ P t r) ↔ P t r := by
  simp [hrun]

/-- The goods that go to a player who is loaded are kept as far as his inbox is stored. -/
theorem Registry.keepsGoods_tmpPlayer_iff {owner : Player}
    (hreceiver : w.receiver s player = .tmpPlayer owner inbox) (hother : guid ≠ s.house.owner)
    (howner : s.house.owner ≠ 0) (hgoods : Collected (store s inbox) (w.goods s)) :
    (∃ t r, w.setOwner s guid player = some (t, r) ∧ w.KeepsGoods s player t r) ↔
      w.Safe s (.tmpPlayer owner inbox) := by
  obtain ⟨t, htransfer, hkept⟩ := transfer_spec hgoods
  unfold Registry.setOwner
  rw [if_neg fun h => hother h.2.symm, hreceiver]
  simp only [if_neg howner, Registry.transferToDepot, htransfer, Option.map_some]
  rw [exists_result rfl]
  unfold Registry.KeepsGoods Registry.Safe
  rw [hreceiver]
  simp only [htransfer, Option.some.injEq, forall_eq']
  exact hkept _

end Owner

/-! ## A bag that is lost -/

def bag : Thing := { ref := 0, item := { id := 1987 } }

theorem nothing_plain (h : false = true) :
    Cylinders.itemgroup_t.ITEM_GROUP_NONE = .ITEM_GROUP_NONE ∧
      (Cylinders.ItemTypes_t.ITEM_TYPE_NONE = .ITEM_TYPE_NONE ∨
        Cylinders.ItemTypes_t.ITEM_TYPE_NONE = .ITEM_TYPE_RUNE) ∧
      false = false ∧ Cylinders.createdId 0 = 0 :=
  Mailbox.letter_plain 0 h

/-- The owner of a house can be loaded, and the first query of his save is refused. -/
def refused : Registry where
  items id := if id = 1987 then { id := 1987, pickupable := true, moveable := true }
    else { id := 0, stackable_plain := nothing_plain }
  named := by
    constructor
    intro id
    by_cases h : id = 1987
    · exact .inr (by simp [h])
    · exact .inl (by simp [h])
  serializeAttr _ := []
  getPlayerByGUID _ := none
  loadPlayerById _ _ := some ({ groupId := 1, vocationId := 1, townId := 1, isOffline := true }, [])
  regeneratePlayer := id
  hasName _ := true
  ctx := ⟨0, false, 1048576, id⟩
  outcomes _ n := if n = 0 then { ok := false } else {}

def houseWithBag : Scene where
  house := ⟨1, 1, true, [.tile {}], []⟩
  contents c := if c = .tile {} then [bag] else []
  fresh := 1
  saves := ⟨fun _ => { players := some fun _ => .int 1, tables := fun _ => [] }, 0⟩

theorem collected_houseWithBag : Collected (store houseWithBag []) (refused.goods houseWithBag) := by
  have hbag : refused.goods houseWithBag = [(.tile {}, bag)] := rfl
  rw [hbag]
  exact ⟨by simp [bag], List.nodup_singleton _, by simp [store]⟩

end TibiaServer.Game.HouseGoods
