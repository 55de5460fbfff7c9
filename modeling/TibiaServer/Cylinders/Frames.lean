import TibiaServer.Cylinders.Holdings
/-!
# What a container is

No operation of a cylinder changes the kind of a container or its limits: it writes
item lists, weights and parents, and of an item its id, its count and its attributes.
-/

namespace TibiaServer.Cylinders

open TibiaServer.World (Position)

/-- A container but for what it holds. -/
def Container.frame (container : Container) : Container :=
  { container with totalWeight := 0, itemlist := [] }

def SameFrames (s t : State) : Prop :=
  ∀ x, (t.item x).container.map Container.frame = (s.item x).container.map Container.frame

namespace SameFrames

variable {s t u : State}

theorem refl (s : State) : SameFrames s s := fun _ => rfl

theorem trans (hst : SameFrames s t) (htu : SameFrames t u) : SameFrames s u :=
  fun x => (htu x).trans (hst x)

theorem symm (h : SameFrames s t) : SameFrames t s := fun x => (h x).symm

theorem of_item (h : t.item = s.item) : SameFrames s t := fun x => by rw [h]

/-- What does not look at what a container holds is the same of both. -/
theorem map_container {β : Type} (h : SameFrames s t) (x : ItemRef) (f : Container → β)
    (hf : ∀ container : Container, f container.frame = f container) :
    (t.item x).container.map f = (s.item x).container.map f := by
  have hfactor : f = f ∘ Container.frame := by
    funext container
    exact (hf container).symm
  rw [hfactor, ← Option.map_map, h, Option.map_map]

end SameFrames

theorem SamePlaces.sameFrames {s t : State} (h : SamePlaces s t) : SameFrames s t :=
  fun x => h.map_container x Container.frame fun _ => rfl

namespace State

variable {s : State}

theorem sameFrames_setItem {y : ItemRef} {item : Item}
    (h : item.container.map Container.frame = (s.item y).container.map Container.frame) :
    SameFrames s (s.setItem y item) := by
  intro x
  by_cases hx : x = y
  · subst hx
    simpa [setItem] using h
  · simp [setItem, hx]

theorem sameFrames_setItemlist (x : ItemRef) (itemlist : List ItemRef) :
    SameFrames s (s.setItemlist x itemlist) := by
  apply sameFrames_setItem
  simp only [Option.map_map]
  rfl

theorem sameFrames_setParent (y : ItemRef) (c : Option Cylinder) :
    SameFrames s (s.setParent y c) :=
  (s.samePlaces_setParent y c).sameFrames

theorem sameFrames_setCount (y : ItemRef) (n : ℕ) : SameFrames s (s.setCount y n) := by
  apply sameFrames_setItem
  rfl

theorem sameFrames_updateItem (y : ItemRef) (itemId count : ℕ) :
    SameFrames s (s.updateItem y itemId count) := by
  apply sameFrames_setItem
  rw [Item.setSubType_container, Item.setID_container]

/-! ## Containers -/

theorem sameFrames_containerAddThing (x : ItemRef) (index : ℤ) (y : ItemRef) :
    SameFrames s (s.containerAddThing x index y) := by
  unfold containerAddThing
  split
  · exact .refl s
  · have hput : SameFrames s
        ((s.setParent y (some (.container x))).setItemlist x
          (y :: (s.setParent y (some (.container x))).itemlist x)) :=
      (sameFrames_setParent _ _).trans (sameFrames_setItemlist _ _)
    have hweigh := hput.trans (samePlaces_updateItemWeight _ x
      (((s.setParent y (some (.container x))).setItemlist x
        (y :: (s.setParent y (some (.container x))).itemlist x)).getWeight y)).sameFrames
    simp only
    split
    · exact hweigh.trans (samePlaces_closeTrades _ _).sameFrames
    · exact hweigh

theorem sameFrames_containerUpdateThing (x y : ItemRef) (itemId count : ℕ) :
    SameFrames s (s.containerUpdateThing x y itemId count) := by
  unfold containerUpdateThing
  split
  · exact .refl s
  · have hweigh := fun diff => (sameFrames_updateItem (s := s) y itemId count).trans
      (samePlaces_updateItemWeight _ x diff).sameFrames
    simp only
    split
    · exact (hweigh _).trans (samePlaces_closeTrades _ _).sameFrames
    · exact hweigh _

theorem sameFrames_containerRemoveThing (x y : ItemRef) (count : ℕ) :
    SameFrames s (s.containerRemoveThing x y count) := by
  unfold containerRemoveThing
  split
  · exact .refl s
  split
  · have hweigh := fun diff => (sameFrames_setCount (s := s) y (s.remainingCount y count)).trans
      (samePlaces_updateItemWeight _ x diff).sameFrames
    simp only
    split
    · exact (hweigh _).trans (samePlaces_closeTrades _ _).sameFrames
    · exact hweigh _
  · have hweigh := (s.samePlaces_updateItemWeight x (-s.getWeight y)).sameFrames
    simp only
    split
    · exact ((hweigh.trans (samePlaces_closeTrades _ _).sameFrames).trans
        (sameFrames_setParent y none)).trans (sameFrames_setItemlist x _)
    · exact (hweigh.trans (sameFrames_setParent y none)).trans (sameFrames_setItemlist x _)

/-! ## Players and tiles -/

theorem sameFrames_playerAddThing (p : PlayerRef) (index : ℤ) (y : ItemRef) :
    SameFrames s (s.playerAddThing p index y) := by
  unfold playerAddThing
  split
  · exact .refl s
  · exact (sameFrames_setParent y _).trans (.of_item rfl)

theorem sameFrames_playerUpdateThing (p : PlayerRef) (y : ItemRef) (itemId count : ℕ) :
    SameFrames s (s.playerUpdateThing p y itemId count) := by
  unfold playerUpdateThing
  split
  · exact .refl s
  · exact (sameFrames_updateItem y itemId count).trans (.of_item rfl)

theorem sameFrames_playerRemoveThing (p : PlayerRef) (y : ItemRef) (count : ℕ) :
    SameFrames s (s.playerRemoveThing p y count) := by
  unfold playerRemoveThing
  simp only
  split
  · exact .refl s
  split
  · exact (sameFrames_setCount y _).trans (.of_item rfl)
  · exact (SameFrames.of_item (s := s) rfl).trans
      ((sameFrames_setParent y none).trans (.of_item rfl))

theorem sameFrames_tileRemoveThing (t : Position) (y : ItemRef) (count : ℕ) :
    SameFrames s (s.tileRemoveThing t y count) := by
  unfold tileRemoveThing
  split
  · exact .refl s
  split
  · exact (sameFrames_setParent y none).trans (.of_item rfl)
  split
  · split
    · exact .refl s
    · exact (sameFrames_setParent y none).trans (.of_item rfl)
  split
  · exact .refl s
  split
  · exact sameFrames_setCount y _
  · exact (sameFrames_setParent y none).trans (.of_item rfl)

theorem sameFrames_release (t : Position) (old : ItemRef) : SameFrames s (s.release t old) :=
  (sameFrames_tileRemoveThing t old 1).trans (sameFrames_setParent old none)

theorem sameFrames_addGround (t : Position) (y : ItemRef) : SameFrames s (s.addGround t y) := by
  unfold addGround
  split
  · exact .of_item rfl
  next oldGround _ => exact (sameFrames_setParent oldGround none).trans (.of_item rfl)

theorem sameFrames_addTopItem (t : Position) (y : ItemRef) : SameFrames s (s.addTopItem t y) := by
  have hgone : SameFrames s (((s.oldSplash t).map (s.release t)).getD s) := by
    cases s.oldSplash t with
    | none => exact .refl s
    | some old => exact sameFrames_release t old
  unfold addTopItem
  simp only
  split
  · exact hgone.trans (.of_item rfl)
  · exact .of_item rfl

theorem sameFrames_addDownItem (t : Position) (y : ItemRef) : SameFrames s (s.addDownItem t y) := by
  unfold addDownItem
  simp only
  split
  · split
    next old _ =>
      split
      · exact (sameFrames_release t old).trans (.of_item rfl)
      · exact sameFrames_setParent y none
    · exact .of_item rfl
  · exact .of_item rfl

theorem sameFrames_tileAddThing (t : Position) (y : ItemRef) :
    SameFrames s (s.tileAddThing t y) := by
  have hput := sameFrames_setParent (s := s) y (some (.tile t))
  unfold tileAddThing
  split
  · exact .refl s
  simp only
  split
  · exact hput.trans (sameFrames_addGround t y)
  split
  · exact hput.trans (sameFrames_addTopItem t y)
  · exact hput.trans (sameFrames_addDownItem t y)

theorem sameFrames_tileUpdateThing (t : Position) (y : ItemRef) (itemId count : ℕ) :
    SameFrames s (s.tileUpdateThing t y itemId count) := by
  unfold tileUpdateThing
  split
  · exact .refl s
  · exact (SameFrames.of_item (s := s) rfl).trans
      ((sameFrames_updateItem y itemId count).trans (.of_item rfl))

/-! ## Cylinders -/

theorem sameFrames_addThing (c : Cylinder) (index : ℤ) (y : ItemRef) :
    SameFrames s (s.addThing c index y) := by
  cases c with
  | player p => exact sameFrames_playerAddThing p index y
  | container x => exact sameFrames_containerAddThing x index y
  | tile t => exact sameFrames_tileAddThing t y

theorem sameFrames_addThingAnywhere (c : Cylinder) (y : ItemRef) :
    SameFrames s (s.addThingAnywhere c y) := by
  cases c with
  | player p => exact .refl s
  | container x => exact sameFrames_containerAddThing x 0 y
  | tile t => exact sameFrames_tileAddThing t y

theorem sameFrames_updateThing (c : Cylinder) (y : ItemRef) (itemId count : ℕ) :
    SameFrames s (s.updateThing c y itemId count) := by
  cases c with
  | player p => exact sameFrames_playerUpdateThing p y itemId count
  | container x => exact sameFrames_containerUpdateThing x y itemId count
  | tile t => exact sameFrames_tileUpdateThing t y itemId count

theorem sameFrames_removeThing (c : Cylinder) (y : ItemRef) (count : ℕ) :
    SameFrames s (s.removeThing c y count) := by
  cases c with
  | player p => exact sameFrames_playerRemoveThing p y count
  | container x => exact sameFrames_containerRemoveThing x y count
  | tile t => exact sameFrames_tileRemoveThing t y count

end State

end TibiaServer.Cylinders
