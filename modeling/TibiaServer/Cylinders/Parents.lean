import TibiaServer.Cylinders.Cylinder
/-!
# Parents

The parent of an item is a cylinder of the world after every operation: it is written
only by `setParent`, with the cylinder that the item is added to or with null.
-/

namespace TibiaServer.Cylinders

open TibiaServer.World (Position)

/-- A parent that is a container is one. -/
def Parented (s : State) : Prop :=
  ∀ x y, (s.item x).parent = some (.container y) → s.isContainer y = true

namespace Parented

variable {s : State}

/-! ## Single writes -/

theorem of_item {s' : State} (hs : Parented s) (h : s'.item = s.item) : Parented s' := by
  intro x y hparent
  unfold State.isContainer
  rw [h] at hparent ⊢
  exact hs x y hparent

theorem modifyItem (hs : Parented s) (y : ItemRef) {f : Item → Item}
    (hparent : ∀ item, (f item).parent = item.parent)
    (hcontainer : ∀ item, (f item).container.isSome = item.container.isSome) :
    Parented (s.modifyItem y f) := by
  have hisContainer : ∀ z, (s.modifyItem y f).isContainer z = s.isContainer z := by
    intro z
    by_cases hz : z = y
    · subst hz
      simp [State.modifyItem, State.setItem, State.isContainer, hcontainer]
    · simp [State.modifyItem, State.setItem, State.isContainer, hz]
  intro x z hx
  rw [hisContainer]
  apply hs x z
  by_cases hxy : x = y
  · subst hxy
    simpa [State.modifyItem, State.setItem, hparent] using hx
  · simpa [State.modifyItem, State.setItem, hxy] using hx

theorem setParent (hs : Parented s) (y : ItemRef) {c : Option Cylinder}
    (hc : ∀ z, c = some (.container z) → s.isContainer z = true) :
    Parented (s.setParent y c) := by
  have hisContainer : ∀ z, (s.setParent y c).isContainer z = s.isContainer z := by
    intro z
    by_cases hz : z = y
    · subst hz
      simp [State.setParent, State.modifyItem, State.setItem, State.isContainer]
    · simp [State.setParent, State.modifyItem, State.setItem, State.isContainer, hz]
  intro x z hx
  rw [hisContainer]
  by_cases hxy : x = y
  · subst hxy
    exact hc z (by simpa [State.setParent, State.modifyItem, State.setItem] using hx)
  · exact hs x z (by simpa [State.setParent, State.modifyItem, State.setItem, hxy] using hx)

theorem setParent_none (hs : Parented s) (y : ItemRef) : Parented (s.setParent y none) :=
  hs.setParent y fun _ h => by cases h

theorem setItemlist (hs : Parented s) (x : ItemRef) (itemlist : List ItemRef) :
    Parented (s.setItemlist x itemlist) := by
  unfold State.setItemlist State.modifyContainer
  apply hs.modifyItem x
  · exact fun _ => rfl
  · exact fun item => by simp

theorem setCount (hs : Parented s) (y : ItemRef) (n : ℕ) : Parented (s.setCount y n) :=
  hs.modifyItem y (fun _ => rfl) fun _ => rfl

theorem updateItem (hs : Parented s) (y : ItemRef) (itemId count : ℕ) :
    Parented (s.updateItem y itemId count) := by
  refine hs.modifyItem y (fun item => ?_) fun item => ?_
  · exact (Item.setSubType_parent s.items count _).trans (Item.setID_parent s.items itemId item)
  · rw [Item.setSubType_container, Item.setID_container]

/-! ## Quiet steps -/

theorem updateItemWeight (hs : Parented s) (x : ItemRef) (diff : UInt32) :
    Parented (s.updateItemWeight x diff) := by
  have hloop : ∀ n (u : State) x, Parented u →
      Parented (State.updateItemWeightLoop diff n u x) := by
    intro n
    induction n with
    | zero => exact fun u x hu => hu
    | succ n ih =>
      intro u x hu
      have hadd := hu.modifyItem x (f := fun item => { item with
        container := item.container.map fun container =>
          { container with totalWeight := container.totalWeight + diff } })
        (fun _ => rfl) fun item => by simp
      unfold State.updateItemWeightLoop
      simp only
      split
      · exact ih _ _ hadd
      · exact hadd
  exact hloop _ _ _ hs

theorem closeTrades (hs : Parented s) (hit : PlayerRef → Bool) : Parented (s.closeTrades hit) :=
  hs.of_item rfl

theorem postNotification (hs : Parented s) (c : Cylinder) : Parented (s.postNotification c) := by
  have hinventory : ∀ p, Parented (s.updateInventoryWeight p) := by
    intro p
    unfold State.updateInventoryWeight
    split
    · exact hs
    · exact hs.of_item rfl
  cases c with
  | player p => exact hinventory p
  | container x =>
    cases hnotified : s.notifiedLoop s.depth x with
    | none => simpa [State.postNotification, hnotified] using hs
    | some p => simpa [State.postNotification, hnotified] using hinventory p
  | tile t => exact hs

/-! ## Removals -/

theorem tileRemoveThing (hs : Parented s) (t : Position) (y : ItemRef) (count : ℕ) :
    Parented (s.tileRemoveThing t y count) := by
  have hnone := hs.setParent_none y
  unfold State.tileRemoveThing
  split
  · exact hs
  split
  · exact hnone.of_item rfl
  split
  · split
    · exact hs
    · exact hnone.of_item rfl
  split
  · exact hs
  split
  · exact hs.setCount y _
  · exact hnone.of_item rfl

/-! ## Additions -/

theorem release (hs : Parented s) (t : Position) (old : ItemRef) : Parented (s.release t old) :=
  (hs.tileRemoveThing t old 1).setParent_none old

theorem tileAddThing (hs : Parented s) (t : Position) (y : ItemRef) :
    Parented (s.tileAddThing t y) := by
  have hparent := hs.setParent y (c := some (.tile t)) fun _ h => by cases h
  unfold State.tileAddThing
  split
  · exact hs
  simp only
  split
  · unfold State.addGround
    split
    · exact hparent.of_item rfl
    · exact (hparent.setParent_none _).of_item rfl
  split
  · unfold State.addTopItem
    simp only
    split
    · cases (s.setParent y (some (.tile t))).oldSplash t with
      | none => exact hparent.of_item rfl
      | some old => exact (hparent.release t old).of_item rfl
    · exact hparent.of_item rfl
  · unfold State.addDownItem
    simp only
    split
    · split
      · split
        · exact (hparent.release t _).of_item rfl
        · exact hparent.setParent_none y
      · exact hparent.of_item rfl
    · exact hparent.of_item rfl

theorem addThing (hs : Parented s) {c : Cylinder}
    (hc : ∀ x, c = .container x → s.isContainer x = true) (index : ℤ) (y : ItemRef) :
    Parented (s.addThing c index y) := by
  cases c with
  | player p =>
    simp only [State.addThing]
    unfold State.playerAddThing
    split
    · exact hs
    · exact (hs.setParent y fun _ h => by cases h).of_item rfl
  | container x =>
    have hparent := hs.setParent y (c := some (.container x)) fun z hz => by
      have hzx : x = z := Cylinder.container.inj (Option.some.inj hz)
      exact hc z (hzx ▸ rfl)
    simp only [State.addThing]
    unfold State.containerAddThing
    split
    · exact hs
    simp only
    split
    · exact ((hparent.setItemlist x _).updateItemWeight x _).closeTrades _
    · exact (hparent.setItemlist x _).updateItemWeight x _
  | tile t => exact hs.tileAddThing t y

theorem updateThing (hs : Parented s) (c : Cylinder) (y : ItemRef) (itemId count : ℕ) :
    Parented (s.updateThing c y itemId count) := by
  cases c with
  | player p =>
    simp only [State.updateThing]
    unfold State.playerUpdateThing
    split
    · exact hs
    · exact (hs.updateItem y itemId count).closeTrades _
  | container x =>
    simp only [State.updateThing]
    unfold State.containerUpdateThing
    split
    · exact hs
    simp only
    split
    · exact ((hs.updateItem y itemId count).updateItemWeight x _).closeTrades _
    · exact (hs.updateItem y itemId count).updateItemWeight x _
  | tile t =>
    simp only [State.updateThing]
    unfold State.tileUpdateThing
    split
    · exact hs
    · have hflags : Parented (s.resetTileFlags t y) := hs.of_item rfl
      exact (hflags.updateItem y itemId count).of_item rfl

end Parented

end TibiaServer.Cylinders
