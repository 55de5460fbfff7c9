import TibiaServer.Cylinders.ContainerCalls
/-!
# The window of an open container

A client keeps the entries of a container that it has open and changes them as it is told.  A
change of the container is sent with its slot as one byte, a change behind the capacity is not
sent, and nothing is sent for the item that moves up to the last entry.

The window was opened at index 0, where `sendRemoveContainerItem` leaves it, and its player stays
close enough to be told.
-/

namespace TibiaServer.Protocol

open TibiaServer.Library TibiaServer.Cylinders

/-! ## Entries and messages -/

def fluidMap : List ℕ := [0, 1, 5, 3, 6, 8, 9, 2]

/-- What `addItem` writes of an item. -/
structure ShownItem where
  clientId : ℕ
  count : Option ℕ := none
  deriving DecidableEq, Repr

section Messages

variable (clientId : ℕ → ℕ)

def shownItem (s : State) (y : ItemRef) : ShownItem :=
  let it := s.typeOf y
  { clientId := clientId (s.item y).id
    count :=
      if it.stackable then some (min 0xFF (s.getItemCount y))
      else if it.isSplash ∨ it.isFluidContainer then
        fluidMap[((s.item y).getIntAttr .ITEM_ATTRIBUTE_FLUIDTYPE % 8).toNat]?
      else none }

def shownItems (s : State) (x : ItemRef) : List ShownItem :=
  (s.itemlist x).map (shownItem clientId s)

/-- The entries of `sendContainer`. -/
def sendContainer (s : State) (x : ItemRef) (firstIndex : ℕ) : List ShownItem :=
  ((shownItems clientId s x).drop firstIndex).take 0xFF

theorem sendContainer_zero (s : State) (x : ItemRef) :
    sendContainer clientId s x 0 = (shownItems clientId s x).take 0xFF := rfl

inductive WindowMessage
  /-- 0x70, with a null pointer for `none` -/
  | addContainerItem (item : Option ShownItem)
  /-- 0x71 -/
  | updateContainerItem (slot : ℕ) (item : ShownItem)
  /-- 0x72 -/
  | removeContainerItem (slot : ℕ)
  deriving DecidableEq, Repr

/-- What the client does; a null pointer is never sent, the server ends there. -/
def WindowMessage.apply (window : List ShownItem) : WindowMessage → Option (List ShownItem)
  | .addContainerItem (some item) => some ((item :: window).take 0xFF)
  | .addContainerItem none => none
  | .updateContainerItem slot item => some (window.set slot item)
  | .removeContainerItem slot => some (window.eraseIdx slot)

/-- What the client shows after a message, if there was one. -/
def follow (window : Option (List ShownItem)) : Option WindowMessage → Option (List ShownItem)
  | some message => window.bind message.apply
  | none => window

/-- `Container::onAddContainerItem` and the `sendAddContainerItem` of the player. -/
def sendAddContainerItem (s : State) (x y : ItemRef) : Option WindowMessage :=
  if (s.getParent (.container x)).isSome then
    let index : ℕ := 0
    let item := if index ≥ s.capacity x then s.getItemByIndex x (index - 1) else some y
    some (.addContainerItem (item.map (shownItem clientId s)))
  else none

def sendUpdateContainerItem (s : State) (x : ItemRef) (index : ℕ) (newItem : ItemRef) :
    Option WindowMessage :=
  if (s.getParent (.container x)).isSome then
    let slot := index % 65536
    let pageEnd := s.capacity x % 65536
    if slot ≥ pageEnd then none
    else some (.updateContainerItem (slot % 256) (shownItem clientId s newItem))
  else none

def sendRemoveContainerItem (s : State) (x : ItemRef) (index : ℕ) : Option WindowMessage :=
  if (s.getParent (.container x)).isSome then
    let slot := index % 65536
    some (.removeContainerItem (max slot 0 % 256))
  else none

end Messages

/-! ## Calls -/

/-- The operations on an open container. -/
inductive WindowCall
  | addThing (index : ℤ) (y : ItemRef)
  | updateThing (y : ItemRef) (itemId count : ℕ)
  | replaceThing (index : ℕ) (y : ItemRef)
  | removeThing (y : ItemRef) (count : ℕ)

namespace WindowCall

def apply (s : State) (x : ItemRef) : WindowCall → State
  | .addThing index y => s.containerAddThing x index y
  | .updateThing y itemId count => s.containerUpdateThing x y itemId count
  | .replaceThing index y => s.containerReplaceThing x index y
  | .removeThing y count => s.containerRemoveThing x y count

/-- What a call sends.  A removal is sent before the item is gone, and everything else once it is
done. -/
def message (clientId : ℕ → ℕ) (s : State) (x : ItemRef) : WindowCall → Option WindowMessage
  | .addThing index y =>
    if index ≥ s.capacity x then none
    else sendAddContainerItem clientId (s.containerAddThing x index y) x y
  | .updateThing y itemId count =>
    let index := s.containerThingIndex x y
    if index = -1 then none
    else
      sendUpdateContainerItem clientId (s.containerUpdateThing x y itemId count) x index.toNat y
  | .replaceThing index y =>
    match s.getItemByIndex x index with
    | none => none
    | some _ => sendUpdateContainerItem clientId (s.containerReplaceThing x index y) x index y
  | .removeThing y count =>
    let index := s.containerThingIndex x y
    if index = -1 then none
    else if s.isStackable y ∧ count ≠ s.getItemCount y then
      sendUpdateContainerItem clientId (s.containerRemoveThing x y count) x index.toNat y
    else sendRemoveContainerItem s x index.toNat

/-- The item that is put in. -/
def newItem : WindowCall → Option ItemRef
  | .addThing _ y | .replaceThing _ y => some y
  | .updateThing _ _ _ | .removeThing _ _ => none

end WindowCall

/-- The container, and the entries that its client has. -/
structure ContainerView where
  state : State
  window : Option (List ShownItem)

namespace ContainerView

variable (clientId : ℕ → ℕ) (x : ItemRef)

/-- A container that was just opened. -/
def opened (s : State) : ContainerView := ⟨s, some (sendContainer clientId s x 0)⟩

def step (v : ContainerView) (call : WindowCall) : Option ContainerView :=
  some
    { state := call.apply v.state x
      window := follow v.window (call.message clientId v.state x) }

/-- The window shows the first entries. -/
def Mirrors (v : ContainerView) : Prop :=
  v.window = some ((shownItems clientId v.state x).take 0xFF)

end ContainerView

/-! ## What a call leaves as it is -/

/-- Every item but those listed keeps its parent, and the containers stay what they are. -/
structure Touches (s t : State) (ys : List ItemRef) : Prop where
  parent : ∀ z ∉ ys, (t.item z).parent = (s.item z).parent
  isContainer : ∀ z, t.isContainer z = s.isContainer z
  capacity : ∀ z, t.capacity z = s.capacity z
  isOfKind : ∀ z kind, t.isOfKind z kind = s.isOfKind z kind
  tile : ∀ p, (t.player p).tile = (s.player p).tile

theorem player_updateItemWeightLoop (diff : UInt32) (n : ℕ) (s : State) (x : ItemRef) :
    (State.updateItemWeightLoop diff n s x).player = s.player := by
  induction n generalizing s x with
  | zero => rfl
  | succ n ih =>
    unfold State.updateItemWeightLoop
    simp only
    split
    · exact ih _ _
    · rfl

namespace Touches

variable {s t u : State} {x y : ItemRef} {ys : List ItemRef}

theorem trans (hst : Touches s t ys) (htu : Touches t u ys) : Touches s u ys where
  parent z hz := (htu.parent z hz).trans (hst.parent z hz)
  isContainer z := (htu.isContainer z).trans (hst.isContainer z)
  capacity z := (htu.capacity z).trans (hst.capacity z)
  isOfKind z kind := (htu.isOfKind z kind).trans (hst.isOfKind z kind)
  tile p := (htu.tile p).trans (hst.tile p)

theorem of_places (h : SamePlaces s t) (hparent : ∀ z ∉ ys, (t.item z).parent = (s.item z).parent)
    (htile : ∀ p, (t.player p).tile = (s.player p).tile) : Touches s t ys where
  parent := hparent
  isContainer := h.isContainer
  capacity := h.capacity
  isOfKind z kind := by
    have hmap := h.map_container z Container.kind fun _ => rfl
    unfold State.isOfKind
    cases hs : (s.item z).container with
    | none =>
      rw [hs, Option.map_none, Option.map_eq_none_iff] at hmap
      rw [hmap]
    | some container =>
      rw [hs, Option.map_some, Option.map_eq_some_iff] at hmap
      obtain ⟨container', hcontainer', hkind⟩ := hmap
      rw [hcontainer', Option.any_some, Option.any_some, hkind]
  tile := htile

theorem setParent (s : State) (hy : y ∈ ys) (c : Option Cylinder) :
    Touches s (s.setParent y c) ys := by
  apply of_places (s.samePlaces_setParent y c)
  · intro z hz
    have hne : z ≠ y := by
      rintro rfl
      exact hz hy
    exact State.parent_setParent_of_ne hne c
  · exact fun _ => rfl

theorem setItemlist (s : State) (x : ItemRef) (itemlist ys : List ItemRef) :
    Touches s (s.setItemlist x itemlist) ys :=
  have h := s.sameItems_setItemlist x itemlist
  ⟨fun z _ => State.parent_setItemlist x itemlist z, h.isContainer, h.capacity,
    State.isOfKind_setItemlist s x itemlist, fun _ => rfl⟩

theorem updateItemWeight (s : State) (x : ItemRef) (diff : UInt32) (ys : List ItemRef) :
    Touches s (s.updateItemWeight x diff) ys := by
  apply of_places (s.samePlaces_updateItemWeight x diff)
  · exact fun z _ => State.parent_updateItemWeight x diff z
  · intro p
    exact congrArg (fun player => (player p).tile) (player_updateItemWeightLoop diff s.depth s x)

theorem closeTrades (s : State) (hit : PlayerRef → Bool) (ys : List ItemRef) :
    Touches s (s.closeTrades hit) ys := by
  apply of_places (s.samePlaces_closeTrades hit)
  · exact fun _ _ => rfl
  · intro p
    unfold State.closeTrades
    simp only
    split <;> rfl

/-- A write to one item that is not about its place. -/
theorem modifyItem (s : State) (y : ItemRef) {f : Item → Item}
    (hparent : ∀ item, (f item).parent = item.parent)
    (hcontainer : ∀ item, (f item).container = item.container) (ys : List ItemRef) :
    Touches s (s.modifyItem y f) ys := by
  have hall : ∀ z, ((s.modifyItem y f).item z).container = (s.item z).container := by
    intro z
    by_cases hz : z = y
    · subst hz
      simp [State.modifyItem, State.setItem, hcontainer]
    · simp [State.modifyItem, State.setItem, hz]
  exact
    { parent := fun z _ => State.parent_modifyItem y hparent z
      isContainer := fun z => by rw [State.isContainer, hall, State.isContainer]
      capacity := fun z => by rw [State.capacity, hall, State.capacity]
      isOfKind := fun z kind => by rw [State.isOfKind, hall, State.isOfKind]
      tile := fun _ => rfl }

/-- The container keeps its parent, where neither itself nor what it stands in is touched. -/
theorem getParent (h : Touches s t ys)
    (hapart : ∀ y ∈ ys, y ≠ x ∧ (s.item x).parent ≠ some (.container y)) :
    t.getParent (.container x) = s.getParent (.container x) := by
  have hx : (t.item x).parent = (s.item x).parent :=
    h.parent x fun hmem => (hapart x hmem).1 rfl
  show t.itemParent x = s.itemParent x
  rw [State.itemParent_eq, State.itemParent_eq, h.isOfKind, hx]
  cases hparent : (s.item x).parent with
  | none => rfl
  | some c =>
    cases c with
    | player p => simp only [h.tile]
    | tile _ => rfl
    | container z =>
      have hz : (t.item z).parent = (s.item z).parent :=
        h.parent z fun hmem => (hapart z hmem).2 hparent
      simp only [hz]

end Touches

/-! ## What a call does -/

section Calls

variable {s : State} {x y : ItemRef}

theorem touches_containerAddThing {index : ℤ} (hindex : index < s.capacity x) (y : ItemRef) :
    Touches s (s.containerAddThing x index y) [y] := by
  have hlow : ¬index ≥ s.capacity x := by omega
  have hput := (Touches.setParent s List.mem_cons_self (some (.container x))).trans
    (Touches.setItemlist _ x (y :: (s.setParent y (some (.container x))).itemlist x) [y])
  unfold State.containerAddThing
  rw [if_neg hlow]
  simp only
  split
  · exact (hput.trans (Touches.updateItemWeight _ x _ _)).trans (Touches.closeTrades _ _ _)
  · exact hput.trans (Touches.updateItemWeight _ x _ _)

theorem itemlist_containerAddThing (hx : s.isContainer x = true) {index : ℤ}
    (hindex : index < s.capacity x) (y : ItemRef) :
    (s.containerAddThing x index y).itemlist x = y :: s.itemlist x := by
  have hlow : ¬index ≥ s.capacity x := by omega
  have hparent := s.samePlaces_setParent y (some (.container x))
  have hlist : ((s.setParent y (some (.container x))).setItemlist x
      (y :: (s.setParent y (some (.container x))).itemlist x)).itemlist x = y :: s.itemlist x := by
    rw [hparent.itemlist]
    exact State.contents_setItemlist_self _ ((hparent.isContainer x).trans hx) _
  unfold State.containerAddThing
  rw [if_neg hlow]
  simp only
  split
  · exact (((State.samePlaces_updateItemWeight _ _ _).trans
      (State.samePlaces_closeTrades _ _)).itemlist x).trans hlist
  · exact ((State.samePlaces_updateItemWeight _ _ _).itemlist x).trans hlist

theorem touches_containerReplaceThing {index : ℕ} {old : ItemRef}
    (h : s.getItemByIndex x index = some old) (y : ItemRef) :
    Touches s (s.containerReplaceThing x index y) [y, old] := by
  have hput := (Touches.setItemlist s x ((s.itemlist x).set index y) [y, old]).trans
    (Touches.setParent _ List.mem_cons_self (some (.container x)))
  have hlast : old ∈ [y, old] := List.mem_cons_of_mem _ List.mem_cons_self
  unfold State.containerReplaceThing
  rw [h]
  simp only
  split
  · exact ((hput.trans (Touches.updateItemWeight _ x _ _)).trans
      (Touches.closeTrades _ _ _)).trans (Touches.setParent _ hlast none)
  · exact (hput.trans (Touches.updateItemWeight _ x _ _)).trans (Touches.setParent _ hlast none)

theorem places_containerReplaceThing {index : ℕ} {old : ItemRef}
    (h : s.getItemByIndex x index = some old) (y : ItemRef) :
    SamePlaces (s.placeAt x index y) (s.containerReplaceThing x index y) := by
  unfold State.containerReplaceThing
  rw [h]
  simp only
  split
  · exact ((State.samePlaces_updateItemWeight _ _ _).trans (State.samePlaces_closeTrades _ _)).trans
      (State.samePlaces_setParent _ _ _)
  · exact (State.samePlaces_updateItemWeight _ _ _).trans (State.samePlaces_setParent _ _ _)

/-- The two ways to change an item in its place. -/
theorem touches_changed {t : State} {f : Item → Item} {diff : UInt32}
    (hparent : ∀ item, (f item).parent = item.parent)
    (hcontainer : ∀ item, (f item).container = item.container)
    (ht : t = (s.modifyItem y f).updateItemWeight x diff ∨
      t = ((s.modifyItem y f).updateItemWeight x diff).onUpdateContainerItem x y) :
    Touches s t [] ∧ SamePlaces (s.modifyItem y f) t := by
  have hchange := (Touches.modifyItem s y hparent hcontainer []).trans
    (Touches.updateItemWeight _ x diff [])
  have hplaces := State.samePlaces_updateItemWeight (s.modifyItem y f) x diff
  rcases ht with rfl | rfl
  · exact ⟨hchange, hplaces⟩
  · exact ⟨hchange.trans (Touches.closeTrades _ _ _),
      hplaces.trans (State.samePlaces_closeTrades _ _)⟩

theorem containerUpdateThing_spec (hy : y ∈ s.itemlist x) (itemId count : ℕ) :
    Touches s (s.containerUpdateThing x y itemId count) [] ∧
      SamePlaces (s.updateItem y itemId count) (s.containerUpdateThing x y itemId count) := by
  have hparent : ∀ item : Item,
      ((item.setID s.items itemId).setSubType s.items count).parent = item.parent := fun item =>
    (Item.setSubType_parent s.items count _).trans (Item.setID_parent s.items itemId item)
  have hcontainer : ∀ item : Item,
      ((item.setID s.items itemId).setSubType s.items count).container = item.container :=
    fun item =>
      (Item.setSubType_container s.items count _).trans (Item.setID_container s.items itemId item)
  unfold State.containerUpdateThing
  rw [if_neg (s.containerThingIndex_ne hy)]
  simp only
  split
  · exact touches_changed hparent hcontainer (.inr rfl)
  · exact touches_changed hparent hcontainer (.inl rfl)

theorem containerRemoveThing_part_spec {count : ℕ} (hy : y ∈ s.itemlist x)
    (hpart : s.isStackable y = true ∧ count ≠ s.getItemCount y) :
    Touches s (s.containerRemoveThing x y count) [] ∧
      SamePlaces (s.setCount y (s.remainingCount y count)) (s.containerRemoveThing x y count) := by
  unfold State.containerRemoveThing
  rw [if_neg (s.containerThingIndex_ne hy), if_pos hpart]
  simp only
  split
  · exact touches_changed (fun _ => rfl) (fun _ => rfl) (.inr rfl)
  · exact touches_changed (fun _ => rfl) (fun _ => rfl) (.inl rfl)

theorem touches_containerRemoveThing_whole {count : ℕ} (hy : y ∈ s.itemlist x)
    (hwhole : ¬(s.isStackable y = true ∧ count ≠ s.getItemCount y)) :
    Touches s (s.containerRemoveThing x y count) [y] := by
  have hweight := Touches.updateItemWeight s x (-s.getWeight y) [y]
  unfold State.containerRemoveThing
  rw [if_neg (s.containerThingIndex_ne hy), if_neg hwhole]
  simp only
  split
  · exact ((hweight.trans (Touches.closeTrades _ _ _)).trans
      (Touches.setParent _ List.mem_cons_self none)).trans (Touches.setItemlist _ x _ _)
  · exact (hweight.trans (Touches.setParent _ List.mem_cons_self none)).trans
      (Touches.setItemlist _ x _ _)

/-- The item is taken off the list, and the items are what they were. -/
theorem containerRemoveThing_whole_spec {count : ℕ} (hx : s.isContainer x = true)
    (hy : y ∈ s.itemlist x) (hwhole : ¬(s.isStackable y = true ∧ count ≠ s.getItemCount y)) :
    SameItems s (s.containerRemoveThing x y count) ∧
      (s.containerRemoveThing x y count).itemlist x = (s.itemlist x).erase y := by
  have herase : ∀ t, SamePlaces s t → SameItems s (t.setItemlist x ((t.itemlist x).erase y)) ∧
      (t.setItemlist x ((t.itemlist x).erase y)).itemlist x = (s.itemlist x).erase y := by
    intro t ht
    refine ⟨ht.sameItems.trans (t.sameItems_setItemlist x _), ?_⟩
    rw [← ht.itemlist]
    exact t.contents_setItemlist_self ((ht.isContainer x).trans hx) _
  have hweight := s.samePlaces_updateItemWeight x (-s.getWeight y)
  unfold State.containerRemoveThing
  rw [if_neg (s.containerThingIndex_ne hy), if_neg hwhole]
  simp only
  split
  · exact herase _ ((hweight.trans (State.samePlaces_closeTrades _ _)).trans
      (State.samePlaces_setParent _ _ _))
  · exact herase _ (hweight.trans (State.samePlaces_setParent _ _ _))

end Calls

/-! ## The container stays open -/

/-- The item is neither the container nor what it stands in. -/
def Apart (s : State) (x y : ItemRef) : Prop := y ≠ x ∧ (s.item x).parent ≠ some (.container y)

/-- An open container stands somewhere, and holds each of its items once. -/
structure Opened (s : State) (x : ItemRef) : Prop where
  isContainer : s.isContainer x = true
  hasParent : (s.getParent (.container x)).isSome = true
  nodup : (s.itemlist x).Nodup
  apart : ∀ y ∈ s.itemlist x, Apart s x y

/-- What is put in stands elsewhere. -/
def WindowCall.Admits (s : State) (x : ItemRef) (call : WindowCall) : Prop :=
  ∀ y, call.newItem = some y → y ∉ s.itemlist x ∧ Apart s x y

namespace Opened

variable {s t : State} {x y : ItemRef} {ys : List ItemRef}

theorem of_touches (hs : Opened s x) (h : Touches s t ys) (hys : ∀ y ∈ ys, Apart s x y)
    (hnodup : (t.itemlist x).Nodup) (hmem : ∀ y ∈ t.itemlist x, Apart s x y) : Opened t x where
  isContainer := (h.isContainer x).trans hs.isContainer
  hasParent := by
    rw [h.getParent hys]
    exact hs.hasParent
  nodup := hnodup
  apart y hy := by
    have hx : (t.item x).parent = (s.item x).parent := h.parent x fun hxys => (hys x hxys).1 rfl
    exact ⟨(hmem y hy).1, hx ▸ (hmem y hy).2⟩

theorem addThing (hs : Opened s x) {index : ℤ} (hindex : index < s.capacity x)
    (hy : y ∉ s.itemlist x) (hapart : Apart s x y) : Opened (s.containerAddThing x index y) x := by
  have hlist := itemlist_containerAddThing hs.isContainer hindex y
  apply hs.of_touches (touches_containerAddThing hindex y)
  · intro z hz
    rwa [List.mem_singleton.mp hz]
  · rw [hlist]
    exact List.nodup_cons.mpr ⟨hy, hs.nodup⟩
  · intro z hz
    rw [hlist] at hz
    rcases List.mem_cons.mp hz with rfl | hz
    · exact hapart
    · exact hs.apart z hz

theorem of_changed {f : Item → Item} (hs : Opened s x)
    (hcontainer : ∀ item, (f item).container = item.container)
    (h : Touches s t [] ∧ SamePlaces (s.modifyItem y f) t) : Opened t x := by
  have hlist : t.itemlist x = s.itemlist x := by
    rw [h.2.itemlist]
    exact s.contents_setItem (hcontainer _) (.container x)
  apply hs.of_touches h.1
  · intro z hz
    cases hz
  · rw [hlist]
    exact hs.nodup
  · rw [hlist]
    exact hs.apart

theorem replaceThing (hs : Opened s x) {index : ℕ} {old : ItemRef}
    (h : s.getItemByIndex x index = some old) (hy : y ∉ s.itemlist x) (hapart : Apart s x y) :
    Opened (s.containerReplaceThing x index y) x := by
  have hlist : (s.containerReplaceThing x index y).itemlist x = (s.itemlist x).set index y := by
    rw [(places_containerReplaceThing h y).itemlist, State.itemlist_placeAt hs.isContainer,
      if_pos rfl]
  have hold : old ∈ s.itemlist x := State.mem_of_getItemByIndex h
  apply hs.of_touches (touches_containerReplaceThing h y)
  · intro z hz
    rcases List.mem_cons.mp hz with rfl | hz
    · exact hapart
    · rw [List.mem_singleton.mp hz]
      exact hs.apart old hold
  · rw [hlist]
    exact hs.nodup.set hy
  · intro z hz
    rw [hlist] at hz
    rcases List.mem_or_eq_of_mem_set hz with hz | rfl
    · exact hs.apart z hz
    · exact hapart

theorem removeThing_whole (hs : Opened s x) {count : ℕ} (hy : y ∈ s.itemlist x)
    (hwhole : ¬(s.isStackable y = true ∧ count ≠ s.getItemCount y)) :
    Opened (s.containerRemoveThing x y count) x := by
  have hlist := (containerRemoveThing_whole_spec hs.isContainer hy hwhole).2
  apply hs.of_touches (touches_containerRemoveThing_whole hy hwhole)
  · intro z hz
    rw [List.mem_singleton.mp hz]
    exact hs.apart y hy
  · rw [hlist]
    exact hs.nodup.erase y
  · intro z hz
    rw [hlist] at hz
    exact hs.apart z (List.mem_of_mem_erase hz)

end Opened

/-! ## The window follows -/

/-- A slot that one byte names, and that is sent where the window has an entry for it. -/
def SlotFits (capacity index : ℕ) : Prop :=
  if index < 0xFF then index < capacity % 65536
  else index % 65536 < capacity % 65536 → index % 256 = 0xFF

instance (capacity index : ℕ) : Decidable (SlotFits capacity index) :=
  inferInstanceAs (Decidable (if index < 0xFF then index < capacity % 65536
    else index % 65536 < capacity % 65536 → index % 256 = 0xFF))

/-- The calls after which the window still shows the first entries. -/
def WindowCall.Fits (s : State) (x : ItemRef) : WindowCall → Prop
  | .addThing index _ => index < s.capacity x → 0 < s.capacity x
  | .updateThing y _ _ => y ∈ s.itemlist x → SlotFits (s.capacity x) ((s.itemlist x).idxOf y)
  | .replaceThing index _ => index < s.size x → SlotFits (s.capacity x) index
  | .removeThing y count =>
    y ∈ s.itemlist x →
      if s.isStackable y = true ∧ count ≠ s.getItemCount y then
        SlotFits (s.capacity x) ((s.itemlist x).idxOf y)
      else s.size x ≤ 0xFF ∨ (s.itemlist x).idxOf y % 256 = 0xFF

section Window

variable {l : List ShownItem} {a : ShownItem} {capacity index : ℕ}

theorem follow_add (l : List ShownItem) (a : ShownItem) :
    follow (some (l.take 0xFF)) (some (.addContainerItem (some a))) = some ((a :: l).take 0xFF) := by
  simp [follow, WindowMessage.apply, List.take_take]

theorem follow_update (h : SlotFits capacity index) (l : List ShownItem) (a : ShownItem) :
    follow (some (l.take 0xFF))
        (if index % 65536 ≥ capacity % 65536 then none
        else some (.updateContainerItem (index % 65536 % 256) a)) =
      some ((l.set index a).take 0xFF) := by
  unfold SlotFits at h
  by_cases hshown : index < 0xFF
  · rw [if_pos hshown] at h
    have hslot : index % 65536 % 256 = index := by omega
    rw [if_neg (by omega), hslot, List.take_set]
    rfl
  · rw [if_neg hshown] at h
    rw [List.take_set_of_le (by omega)]
    by_cases hsent : index % 65536 < capacity % 65536
    · -- the slot that is named is behind the last entry
      have hslot : index % 65536 % 256 = 0xFF := by
        have hbyte := h hsent
        omega
      rw [if_neg (by omega), hslot]
      exact congrArg some (List.set_eq_of_length_le (by simp))
    · rw [if_pos (by omega)]
      rfl

theorem follow_remove (h : l.length ≤ 0xFF ∨ index % 256 = 0xFF) (hindex : index < l.length) :
    follow (some (l.take 0xFF)) (some (.removeContainerItem (max (index % 65536) 0 % 256))) =
      some ((l.eraseIdx index).take 0xFF) := by
  rcases h with hall | hlast
  · have hslot : max (index % 65536) 0 % 256 = index := by omega
    have hshort : (l.eraseIdx index).length ≤ 0xFF := by
      have hless := List.length_eraseIdx_le l index
      omega
    rw [hslot, List.take_of_length_le hall, List.take_of_length_le hshort]
    rfl
  · have hslot : max (index % 65536) 0 % 256 = 0xFF := by omega
    rw [hslot, List.take_eraseIdx_eq_take_of_le l _ _ (by omega)]
    exact congrArg some (List.eraseIdx_of_length_le (by simp))

end Window

section Steps

variable {clientId : ℕ → ℕ} {s t : State} {x y : ItemRef}

theorem shownItem_of_sameItems (h : SameItems s t) (z : ItemRef) :
    shownItem clientId t z = shownItem clientId s z := by
  unfold shownItem State.getItemCount Item.getIntAttr
  rw [h.typeOf, h.id, h.count, h.attributes]

theorem shownItems_of_sameItems (h : SameItems s t) :
    shownItems clientId t x = (t.itemlist x).map (shownItem clientId s) := by
  unfold shownItems
  congr 1
  funext z
  exact shownItem_of_sameItems h z

/-- One entry is another one. -/
theorem shownItems_of_changed {f : Item → Item} (hs : Opened s x) (hy : y ∈ s.itemlist x)
    (hcontainer : ∀ item, (f item).container = item.container)
    (h : SamePlaces (s.modifyItem y f) t) :
    shownItems clientId t x =
      (shownItems clientId s x).set ((s.itemlist x).idxOf y) (shownItem clientId t y) := by
  have hlist : t.itemlist x = s.itemlist x := by
    rw [h.itemlist]
    exact s.contents_setItem (hcontainer _) (.container x)
  have hother : ∀ z, z ≠ y → shownItem clientId t z = shownItem clientId s z := by
    intro z hz
    have hitem : (s.modifyItem y f).item z = s.item z := by
      simp [State.modifyItem, State.setItem, hz]
    have hitems : t.items = s.items := h.items
    unfold shownItem State.typeOf State.getItemCount Item.getIntAttr
    rw [hitems, h.id, h.count, h.attributes, hitem]
  unfold shownItems
  rw [hlist]
  apply List.ext_getElem
  · simp
  · intro i hi hi'
    rw [List.length_map] at hi
    rw [List.getElem_map, List.getElem_set, List.getElem_map]
    by_cases hidx : (s.itemlist x).idxOf y = i
    · subst hidx
      rw [if_pos rfl, List.getElem_idxOf]
    · rw [if_neg hidx]
      apply hother
      rintro rfl
      exact hidx (hs.nodup.idxOf_getElem i hi)

/-- What is sent of an item that was changed or replaced. -/
theorem sendUpdateContainerItem_eq (ht : Opened t x) (hcapacity : t.capacity x = s.capacity x)
    (index : ℕ) (y : ItemRef) :
    sendUpdateContainerItem clientId t x index y =
      if index % 65536 ≥ s.capacity x % 65536 then none
      else some (.updateContainerItem (index % 65536 % 256) (shownItem clientId t y)) := by
  unfold sendUpdateContainerItem
  rw [if_pos ht.hasParent, hcapacity]

/-- The window follows a call that changes one item in its place. -/
theorem follows_changed {f : Item → Item} (hs : Opened s x) (hy : y ∈ s.itemlist x)
    (hcontainer : ∀ item, (f item).container = item.container)
    (h : Touches s t [] ∧ SamePlaces (s.modifyItem y f) t)
    (hfits : SlotFits (s.capacity x) ((s.itemlist x).idxOf y)) :
    Opened t x ∧
      follow (some (sendContainer clientId s x 0))
          (sendUpdateContainerItem clientId t x ((s.itemlist x).idxOf y) y) =
        some (sendContainer clientId t x 0) := by
  have ht := hs.of_changed hcontainer h
  refine ⟨ht, ?_⟩
  rw [sendUpdateContainerItem_eq ht (h.1.capacity x), sendContainer_zero, sendContainer_zero,
    shownItems_of_changed hs hy hcontainer h.2]
  exact follow_update hfits _ _

theorem follows_addThing (hs : Opened s x) (index : ℤ) (y : ItemRef)
    (hadmits : (WindowCall.addThing index y).Admits s x)
    (hfits : (WindowCall.addThing index y).Fits s x) :
    Opened (s.containerAddThing x index y) x ∧
      follow (some (sendContainer clientId s x 0))
          ((WindowCall.addThing index y).message clientId s x) =
        some (sendContainer clientId (s.containerAddThing x index y) x 0) := by
  by_cases hindex : index < s.capacity x
  · obtain ⟨hy, hapart⟩ := hadmits y rfl
    have ht := hs.addThing hindex hy hapart
    have hcapacity := (touches_containerAddThing (x := x) hindex y).capacity x
    have hpos := hfits hindex
    have hsame := s.sameItems_containerAddThing x index y
    have hmessage : (WindowCall.addThing index y).message clientId s x =
        some (.addContainerItem (some (shownItem clientId s y))) := by
      simp only [WindowCall.message, sendAddContainerItem]
      rw [if_neg (by omega), if_pos ht.hasParent, hcapacity, if_neg (by omega), Option.map_some,
        shownItem_of_sameItems hsame]
    refine ⟨ht, ?_⟩
    rw [hmessage, sendContainer_zero, sendContainer_zero, shownItems_of_sameItems hsame,
      itemlist_containerAddThing hs.isContainer hindex]
    exact follow_add _ _
  · have hkept : s.containerAddThing x index y = s := if_pos (by omega)
    have hmessage : (WindowCall.addThing index y).message clientId s x = none := if_pos (by omega)
    rw [hkept, hmessage]
    exact ⟨hs, rfl⟩

theorem follows_updateThing (hs : Opened s x) (y : ItemRef) (itemId count : ℕ)
    (hfits : (WindowCall.updateThing y itemId count).Fits s x) :
    Opened (s.containerUpdateThing x y itemId count) x ∧
      follow (some (sendContainer clientId s x 0))
          ((WindowCall.updateThing y itemId count).message clientId s x) =
        some (sendContainer clientId (s.containerUpdateThing x y itemId count) x 0) := by
  simp only [WindowCall.message]
  by_cases hy : y ∈ s.itemlist x
  · have hindex : s.containerThingIndex x y = (s.itemlist x).idxOf y := if_pos hy
    have hspec := containerUpdateThing_spec hy itemId count
    simp only [hindex]
    rw [if_neg (by omega), Int.toNat_natCast]
    exact follows_changed hs hy (fun item =>
      (Item.setSubType_container s.items count _).trans (Item.setID_container s.items itemId item))
      hspec (hfits hy)
  · have hindex : s.containerThingIndex x y = -1 := if_neg hy
    have hkept : s.containerUpdateThing x y itemId count = s := if_pos hindex
    rw [hkept]
    simp only [hindex, if_true]
    exact ⟨hs, rfl⟩

theorem follows_replaceThing (hs : Opened s x) (index : ℕ) (y : ItemRef)
    (hadmits : (WindowCall.replaceThing index y).Admits s x)
    (hfits : (WindowCall.replaceThing index y).Fits s x) :
    Opened (s.containerReplaceThing x index y) x ∧
      follow (some (sendContainer clientId s x 0))
          ((WindowCall.replaceThing index y).message clientId s x) =
        some (sendContainer clientId (s.containerReplaceThing x index y) x 0) := by
  simp only [WindowCall.message]
  cases h : s.getItemByIndex x index with
  | none =>
    have hkept : s.containerReplaceThing x index y = s := by
      unfold State.containerReplaceThing
      rw [h]
    rw [hkept]
    exact ⟨hs, rfl⟩
  | some old =>
    obtain ⟨hy, hapart⟩ := hadmits y rfl
    obtain ⟨hindex, -⟩ := State.exists_of_getItemByIndex h
    have hplaces := places_containerReplaceThing h y
    have hsame := (s.sameItems_placeAt x index y).trans hplaces.sameItems
    have hcapacity := (touches_containerReplaceThing h y).capacity x
    have ht := hs.replaceThing h hy hapart
    refine ⟨ht, ?_⟩
    simp only
    rw [sendUpdateContainerItem_eq ht hcapacity, sendContainer_zero, sendContainer_zero,
      shownItems_of_sameItems hsame, hplaces.itemlist, State.itemlist_placeAt
      hs.isContainer, if_pos rfl, List.map_set, shownItem_of_sameItems hsame]
    exact follow_update (hfits hindex) _ _

theorem follows_removeThing (hs : Opened s x) (y : ItemRef) (count : ℕ)
    (hfits : (WindowCall.removeThing y count).Fits s x) :
    Opened (s.containerRemoveThing x y count) x ∧
      follow (some (sendContainer clientId s x 0))
          ((WindowCall.removeThing y count).message clientId s x) =
        some (sendContainer clientId (s.containerRemoveThing x y count) x 0) := by
  simp only [WindowCall.message]
  by_cases hy : y ∈ s.itemlist x
  · have hindex : s.containerThingIndex x y = (s.itemlist x).idxOf y := if_pos hy
    have hsmall := hfits hy
    simp only [hindex]
    rw [if_neg (by omega), Int.toNat_natCast]
    by_cases hpart : s.isStackable y = true ∧ count ≠ s.getItemCount y
    · rw [if_pos hpart] at hsmall ⊢
      have hspec := containerRemoveThing_part_spec hy hpart
      have hcontainer : ∀ item : Item,
          (item.setItemCount (s.remainingCount y count)).container = item.container := fun _ => rfl
      exact follows_changed hs hy hcontainer hspec hsmall
    · rw [if_neg hpart] at hsmall ⊢
      obtain ⟨hsame, hlist⟩ := containerRemoveThing_whole_spec hs.isContainer hy hpart
      refine ⟨hs.removeThing_whole hy hpart, ?_⟩
      unfold sendRemoveContainerItem
      rw [if_pos hs.hasParent, sendContainer_zero, sendContainer_zero,
        shownItems_of_sameItems hsame, hlist, List.erase_eq_eraseIdx_of_idxOf rfl,
        ← List.eraseIdx_map]
      apply follow_remove
      · rwa [shownItems, List.length_map]
      · rw [shownItems, List.length_map]
        exact List.idxOf_lt_length_of_mem hy
  · have hindex : s.containerThingIndex x y = -1 := if_neg hy
    have hkept : s.containerRemoveThing x y count = s := if_pos hindex
    rw [hkept]
    simp only [hindex, if_true]
    exact ⟨hs, rfl⟩

end Steps

/-! ## Runs -/

theorem WindowCall.follows (call : WindowCall) (clientId : ℕ → ℕ) {s : State} {x : ItemRef}
    (hs : Opened s x) (hadmits : call.Admits s x) (hfits : call.Fits s x) :
    Opened (call.apply s x) x ∧
      follow (some (sendContainer clientId s x 0)) (call.message clientId s x) =
        some (sendContainer clientId (call.apply s x) x 0) := by
  cases call with
  | addThing index y => exact follows_addThing hs index y hadmits hfits
  | updateThing y itemId count => exact follows_updateThing hs y itemId count hfits
  | replaceThing index y => exact follows_replaceThing hs index y hadmits hfits
  | removeThing y count => exact follows_removeThing hs y count hfits

/-- The window shows the first entries as long as each slot fits into its byte and is neither
behind the capacity nor taken from more entries than the window has. -/
theorem window_mirrors (clientId : ℕ → ℕ) {s : State} {x : ItemRef} (hs : Opened s x)
    (calls : List WindowCall)
    (h : Run.EachStep (ContainerView.step clientId x)
      (fun v call => call.Admits v.state x ∧ call.Fits v.state x)
      (ContainerView.opened clientId x s) calls) :
    Run.Always (ContainerView.step clientId x) (ContainerView.Mirrors clientId x)
      (ContainerView.opened clientId x s) calls := by
  have hkeeps : Run.Always (ContainerView.step clientId x)
      (fun v => Opened v.state x ∧ ContainerView.Mirrors clientId x v)
      (ContainerView.opened clientId x s) calls := by
    apply Run.always_of_eachStep _ calls _ ⟨hs, rfl⟩ h
    intro v call t hv hguard ht
    obtain ⟨hopened, hmirrors⟩ := hv
    obtain ⟨hnext, hfollow⟩ := call.follows clientId hopened hguard.1 hguard.2
    rw [← Option.some.inj ht]
    refine ⟨hnext, ?_⟩
    have hwindow : v.window = some (sendContainer clientId v.state x 0) := hmirrors
    show follow v.window _ = _
    rw [hwindow]
    exact hfollow
  exact hkeeps.mono fun _ hv => hv.2

/-- An inbox of thirty that holds one item more. -/
def fullInbox : State where
  items _ := { id := 1 }
  classicEquipmentSlots := false
  cylinders := ∅
  item x :=
    if x = 0 then
      { id := 14404
        parent := some (.tile {})
        container := some { kind := .Inbox, maxSize := 30, itemlist := List.range' 1 31 } }
    else { id := 2160, parent := some (.container 0) }
  player _ := {}
  tile _ := {}
  fresh := 33

theorem fullInbox_opened : Opened fullInbox 0 where
  isContainer := by decide
  hasParent := by decide
  nodup := by decide
  apart := by
    unfold Apart
    decide

/-- One item goes, and another one comes in its stead. -/
theorem window_mirrors_fullInbox :
    Run.Always (ContainerView.step id 0) (ContainerView.Mirrors id 0)
      (ContainerView.opened id 0 fullInbox) [.removeThing 31 1, .addThing 0 32] := by
  apply window_mirrors id fullInbox_opened
  intro t ht
  refine ⟨⟨?_, ?_⟩, ?_⟩
  · intro y hy
    cases hy
  · intro _
    decide
  · intro u _
    rw [← Option.some.inj ht]
    refine ⟨⟨?_, ?_⟩, trivial⟩
    · intro y hy
      obtain rfl : 32 = y := Option.some.inj hy
      unfold Apart
      decide
    · intro _
      decide

/-- The last item becomes another one, and the client is not told. -/
theorem fullInbox_drifts :
    ¬∀ (clientId : ℕ → ℕ) (s : State) (x : ItemRef) (calls : List WindowCall), Opened s x →
      Run.EachStep (ContainerView.step clientId x) (fun v call => call.Admits v.state x)
        (ContainerView.opened clientId x s) calls →
      Run.Always (ContainerView.step clientId x) (ContainerView.Mirrors clientId x)
        (ContainerView.opened clientId x s) calls := by
  intro h
  have hadmits : Run.EachStep (ContainerView.step id 0) (fun v call => call.Admits v.state 0)
      (ContainerView.opened id 0 fullInbox) [.updateThing 31 2152 1] := by
    intro t _
    refine ⟨?_, trivial⟩
    intro y hy
    cases hy
  have hrun := h id fullInbox 0 [.updateThing 31 2152 1] fullInbox_opened hadmits
  have hmirrors := (hrun.2 _ rfl).head
  revert hmirrors
  unfold ContainerView.Mirrors
  decide

end TibiaServer.Protocol
