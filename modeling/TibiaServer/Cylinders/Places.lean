import TibiaServer.Cylinders.State
/-!
# The same places

`SamePlaces s s'` says that `s'` has the items of `s` in the same places.  Parents,
weights, open trades and tile flags may differ: an operation is one write to a
place or to an item, and steps that keep the places.
-/

namespace TibiaServer.Cylinders

/-- A container but for its weight. -/
def Container.shape (container : Container) : Container := { container with totalWeight := 0 }

structure SamePlaces (s s' : State) : Prop where
  items : s'.items = s.items
  cylinders : s'.cylinders = s.cylinders
  fresh : s'.fresh = s.fresh
  ground : ∀ t, (s'.tile t).ground = (s.tile t).ground
  downItems : ∀ t, (s'.tile t).downItems = (s.tile t).downItems
  topItems : ∀ t, (s'.tile t).topItems = (s.tile t).topItems
  inventory : ∀ p, (s'.player p).inventory = (s.player p).inventory
  id : ∀ x, (s'.item x).id = (s.item x).id
  count : ∀ x, (s'.item x).count = (s.item x).count
  attributes : ∀ x, (s'.item x).attributes = (s.item x).attributes
  shape : ∀ x, (s'.item x).container.map Container.shape =
    (s.item x).container.map Container.shape

namespace SamePlaces

theorem refl (s : State) : SamePlaces s s :=
  ⟨rfl, rfl, rfl, fun _ => rfl, fun _ => rfl, fun _ => rfl, fun _ => rfl, fun _ => rfl,
    fun _ => rfl, fun _ => rfl, fun _ => rfl⟩

theorem trans {s t u : State} (hst : SamePlaces s t) (htu : SamePlaces t u) : SamePlaces s u where
  items := htu.items.trans hst.items
  cylinders := htu.cylinders.trans hst.cylinders
  fresh := htu.fresh.trans hst.fresh
  ground t := (htu.ground t).trans (hst.ground t)
  downItems t := (htu.downItems t).trans (hst.downItems t)
  topItems t := (htu.topItems t).trans (hst.topItems t)
  inventory p := (htu.inventory p).trans (hst.inventory p)
  id x := (htu.id x).trans (hst.id x)
  count x := (htu.count x).trans (hst.count x)
  attributes x := (htu.attributes x).trans (hst.attributes x)
  shape x := (htu.shape x).trans (hst.shape x)

variable {s s' : State}

theorem symm (h : SamePlaces s s') : SamePlaces s' s :=
  ⟨h.items.symm, h.cylinders.symm, h.fresh.symm, fun t => (h.ground t).symm,
    fun t => (h.downItems t).symm, fun t => (h.topItems t).symm, fun p => (h.inventory p).symm,
    fun x => (h.id x).symm, fun x => (h.count x).symm, fun x => (h.attributes x).symm,
    fun x => (h.shape x).symm⟩

theorem typeOf (h : SamePlaces s s') (x : ItemRef) : s'.typeOf x = s.typeOf x := by
  unfold State.typeOf
  rw [h.items, h.id]

theorem isStackable (h : SamePlaces s s') (x : ItemRef) : s'.isStackable x = s.isStackable x := by
  unfold State.isStackable
  rw [h.typeOf]

/-- What does not look at the weight of a container is the same of both. -/
theorem map_container {β : Type} (h : SamePlaces s s') (x : ItemRef) (f : Container → β)
    (hf : ∀ container : Container, f container.shape = f container) :
    (s'.item x).container.map f = (s.item x).container.map f := by
  have hfactor : f = f ∘ Container.shape := by
    funext container
    exact (hf container).symm
  rw [hfactor, ← Option.map_map, h.shape, Option.map_map]

theorem isContainer (h : SamePlaces s s') (x : ItemRef) : s'.isContainer x = s.isContainer x := by
  have hmap := h.map_container x (fun _ => ()) fun _ => rfl
  unfold State.isContainer
  simpa using congrArg Option.isSome hmap

theorem itemlist (h : SamePlaces s s') (x : ItemRef) : s'.itemlist x = s.itemlist x := by
  unfold State.itemlist
  rw [h.map_container x Container.itemlist fun _ => rfl]

theorem contents (h : SamePlaces s s') (c : Cylinder) : s'.contents c = s.contents c := by
  cases c with
  | player p => simp only [State.contents, h.inventory]
  | container x => exact h.itemlist x
  | tile t => simp only [State.contents, h.ground, h.downItems, h.topItems]

end SamePlaces

namespace State

theorem samePlaces_modifyItem (s : State) (x : ItemRef) (f : Item → Item)
    (hid : (f (s.item x)).id = (s.item x).id)
    (hcount : (f (s.item x)).count = (s.item x).count)
    (hattributes : (f (s.item x)).attributes = (s.item x).attributes)
    (hshape : (f (s.item x)).container.map Container.shape =
      (s.item x).container.map Container.shape) : SamePlaces s (s.modifyItem x f) where
  items := rfl
  cylinders := rfl
  fresh := rfl
  ground _ := rfl
  downItems _ := rfl
  topItems _ := rfl
  inventory _ := rfl
  id y := by
    by_cases hy : y = x
    · subst hy
      simpa [modifyItem, setItem] using hid
    · simp [modifyItem, setItem, hy]
  count y := by
    by_cases hy : y = x
    · subst hy
      simpa [modifyItem, setItem] using hcount
    · simp [modifyItem, setItem, hy]
  attributes y := by
    by_cases hy : y = x
    · subst hy
      simpa [modifyItem, setItem] using hattributes
    · simp [modifyItem, setItem, hy]
  shape y := by
    by_cases hy : y = x
    · subst hy
      simpa [modifyItem, setItem] using hshape
    · simp [modifyItem, setItem, hy]

theorem samePlaces_setParent (s : State) (x : ItemRef) (parent : Option Cylinder) :
    SamePlaces s (s.setParent x parent) :=
  s.samePlaces_modifyItem x _ rfl rfl rfl rfl

theorem samePlaces_modifyPlayer (s : State) (p : PlayerRef) (f : Player → Player)
    (hinventory : (f (s.player p)).inventory = (s.player p).inventory) :
    SamePlaces s (s.modifyPlayer p f) where
  items := rfl
  cylinders := rfl
  fresh := rfl
  ground _ := rfl
  downItems _ := rfl
  topItems _ := rfl
  inventory q := by
    by_cases hq : q = p
    · subst hq
      simpa [modifyPlayer] using hinventory
    · simp [modifyPlayer, hq]
  id _ := rfl
  count _ := rfl
  attributes _ := rfl
  shape _ := rfl

theorem samePlaces_addWeight (s : State) (x : ItemRef) (diff : UInt32) :
    SamePlaces s (s.modifyContainer x fun container =>
      { container with totalWeight := container.totalWeight + diff }) := by
  apply samePlaces_modifyItem
  · rfl
  · rfl
  · rfl
  · simp only [Option.map_map]
    rfl

theorem samePlaces_updateItemWeightLoop (diff : UInt32) (n : ℕ) (s : State) (x : ItemRef) :
    SamePlaces s (updateItemWeightLoop diff n s x) := by
  induction n generalizing s x with
  | zero => exact SamePlaces.refl s
  | succ n ih =>
    have hadd := s.samePlaces_addWeight x diff
    unfold updateItemWeightLoop
    simp only
    split
    · exact hadd.trans (ih _ _)
    · exact hadd

theorem samePlaces_updateItemWeight (s : State) (x : ItemRef) (diff : UInt32) :
    SamePlaces s (s.updateItemWeight x diff) :=
  samePlaces_updateItemWeightLoop diff s.depth s x

theorem samePlaces_updateInventoryWeight (s : State) (p : PlayerRef) :
    SamePlaces s (s.updateInventoryWeight p) := by
  unfold updateInventoryWeight
  split
  · exact SamePlaces.refl s
  · exact s.samePlaces_modifyPlayer p _ rfl

theorem samePlaces_closeTrades (s : State) (hit : PlayerRef → Bool) : SamePlaces s (s.closeTrades hit) where
  items := rfl
  cylinders := rfl
  fresh := rfl
  ground _ := rfl
  downItems _ := rfl
  topItems _ := rfl
  inventory p := by
    simp only [closeTrades]
    split <;> rfl
  id _ := rfl
  count _ := rfl
  attributes _ := rfl
  shape _ := rfl

theorem samePlaces_postNotification (s : State) (c : Cylinder) : SamePlaces s (s.postNotification c) := by
  cases c with
  | player p => exact s.samePlaces_updateInventoryWeight p
  | container x =>
    cases hnotified : s.notifiedLoop s.depth x with
    | none => simpa [postNotification, hnotified] using SamePlaces.refl s
    | some p => simpa [postNotification, hnotified] using s.samePlaces_updateInventoryWeight p
  | tile t => exact SamePlaces.refl s

end State

end TibiaServer.Cylinders
