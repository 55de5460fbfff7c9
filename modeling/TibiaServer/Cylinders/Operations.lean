import TibiaServer.Cylinders.Cylinder
import TibiaServer.Library.Stock
/-!
# What the operations do

`Adds s s' c y`: the cylinder `c` holds `y` in `s'` and otherwise what it held in
`s`, and nothing else changed.  Adding a thing adds it and removing one is the same
relation read backwards, or only changes the count of a stack.
-/

namespace TibiaServer.Cylinders

open TibiaServer.Library
open TibiaServer.World (Position)

/-- The same objects, wherever they stand. -/
structure SameItems (s s' : State) : Prop where
  items : s'.items = s.items
  cylinders : s'.cylinders = s.cylinders
  fresh : s'.fresh = s.fresh
  id : ∀ x, (s'.item x).id = (s.item x).id
  count : ∀ x, (s'.item x).count = (s.item x).count
  attributes : ∀ x, (s'.item x).attributes = (s.item x).attributes
  isContainer : ∀ x, s'.isContainer x = s.isContainer x
  capacity : ∀ x, s'.capacity x = s.capacity x

structure Adds (s s' : State) (c : Cylinder) (y : ItemRef) : Prop extends SameItems s s' where
  contents : (s'.contents c).Perm (y :: s.contents c)
  others : ∀ c', c' ≠ c → s'.contents c' = s.contents c'

namespace SamePlaces

variable {s s' : State}

theorem capacity (h : SamePlaces s s') (x : ItemRef) : s'.capacity x = s.capacity x := by
  unfold State.capacity
  rw [h.map_container x Container.maxSize fun _ => rfl]

theorem sameItems (h : SamePlaces s s') : SameItems s s' :=
  ⟨h.items, h.cylinders, h.fresh, h.id, h.count, h.attributes, h.isContainer, h.capacity⟩

end SamePlaces

namespace SameItems

variable {s s' : State}

theorem symm (h : SameItems s s') : SameItems s' s :=
  ⟨h.items.symm, h.cylinders.symm, h.fresh.symm, fun x => (h.id x).symm,
    fun x => (h.count x).symm, fun x => (h.attributes x).symm, fun x => (h.isContainer x).symm,
    fun x => (h.capacity x).symm⟩

theorem trans {t : State} (hst : SameItems s s') (htu : SameItems s' t) : SameItems s t where
  items := htu.items.trans hst.items
  cylinders := htu.cylinders.trans hst.cylinders
  fresh := htu.fresh.trans hst.fresh
  id x := (htu.id x).trans (hst.id x)
  count x := (htu.count x).trans (hst.count x)
  attributes x := (htu.attributes x).trans (hst.attributes x)
  isContainer x := (htu.isContainer x).trans (hst.isContainer x)
  capacity x := (htu.capacity x).trans (hst.capacity x)

theorem typeOf (h : SameItems s s') (x : ItemRef) : s'.typeOf x = s.typeOf x := by
  unfold State.typeOf
  rw [h.items, h.id]

theorem isStackable (h : SameItems s s') (x : ItemRef) : s'.isStackable x = s.isStackable x := by
  unfold State.isStackable
  rw [h.typeOf]

end SameItems

namespace Adds

variable {s t u : State} {c : Cylinder} {y : ItemRef}

theorem of_places (h : SamePlaces s t) (hadd : Adds t u c y) : Adds s u c y where
  toSameItems := h.sameItems.trans hadd.toSameItems
  contents := by
    rw [← h.contents c]
    exact hadd.contents
  others c' hc' := (hadd.others c' hc').trans (h.contents c')

theorem then_places (hadd : Adds s t c y) (h : SamePlaces t u) : Adds s u c y where
  toSameItems := hadd.toSameItems.trans h.sameItems
  contents := by
    rw [h.contents c]
    exact hadd.contents
  others c' hc' := (h.contents c').trans (hadd.others c' hc')

end Adds

namespace State

variable (s : State)

/-! ## Single writes -/

theorem isContainer_setItemlist (x : ItemRef) (itemlist : List ItemRef) (y : ItemRef) :
    (s.setItemlist x itemlist).isContainer y = s.isContainer y := by
  by_cases hy : y = x
  · subst hy
    simp [setItemlist, modifyContainer, modifyItem, setItem, isContainer]
  · simp [setItemlist, modifyContainer, modifyItem, setItem, isContainer, hy]

theorem sameItems_setItemlist (x : ItemRef) (itemlist : List ItemRef) :
    SameItems s (s.setItemlist x itemlist) where
  items := rfl
  cylinders := rfl
  fresh := rfl
  id y := by
    by_cases hy : y = x
    · subst hy
      simp [setItemlist, modifyContainer, modifyItem, setItem]
    · simp [setItemlist, modifyContainer, modifyItem, setItem, hy]
  count y := by
    by_cases hy : y = x
    · subst hy
      simp [setItemlist, modifyContainer, modifyItem, setItem]
    · simp [setItemlist, modifyContainer, modifyItem, setItem, hy]
  attributes y := by
    by_cases hy : y = x
    · subst hy
      simp [setItemlist, modifyContainer, modifyItem, setItem]
    · simp [setItemlist, modifyContainer, modifyItem, setItem, hy]
  isContainer := s.isContainer_setItemlist x itemlist
  capacity y := by
    by_cases hy : y = x
    · subst hy
      simp [setItemlist, modifyContainer, modifyItem, setItem, capacity, Option.map_map,
        Function.comp_def]
    · simp [setItemlist, modifyContainer, modifyItem, setItem, capacity, hy]

theorem contents_setItemlist_self {x : ItemRef} (hx : s.isContainer x = true)
    (itemlist : List ItemRef) :
    (s.setItemlist x itemlist).contents (.container x) = itemlist := by
  obtain ⟨container, hcontainer⟩ := Option.isSome_iff_exists.mp hx
  simp [contents, State.itemlist, setItemlist, modifyContainer, modifyItem, setItem, hcontainer]

theorem contents_setItemlist_of_ne {x : ItemRef} {c : Cylinder} (hc : c ≠ .container x)
    (itemlist : List ItemRef) : (s.setItemlist x itemlist).contents c = s.contents c := by
  cases c with
  | player p => rfl
  | container z =>
    have hz : z ≠ x := fun heq => hc (heq ▸ rfl)
    simp [contents, State.itemlist, setItemlist, modifyContainer, modifyItem, setItem, hz]
  | tile t => rfl

theorem sameItems_modifyPlayer (p : PlayerRef) (f : Player → Player) :
    SameItems s (s.modifyPlayer p f) :=
  ⟨rfl, rfl, rfl, fun _ => rfl, fun _ => rfl, fun _ => rfl, fun _ => rfl, fun _ => rfl⟩

theorem sameItems_modifyTile (t : Position) (f : Tile → Tile) : SameItems s (s.modifyTile t f) :=
  ⟨rfl, rfl, rfl, fun _ => rfl, fun _ => rfl, fun _ => rfl, fun _ => rfl, fun _ => rfl⟩

theorem contents_modifyPlayer_of_ne {p : PlayerRef} {c : Cylinder} (hc : c ≠ .player p)
    (f : Player → Player) : (s.modifyPlayer p f).contents c = s.contents c := by
  cases c with
  | player q =>
    have hq : q ≠ p := fun heq => hc (heq ▸ rfl)
    simp [contents, modifyPlayer, hq]
  | container x => rfl
  | tile t => rfl

theorem contents_modifyTile_of_ne {t : Position} {c : Cylinder} (hc : c ≠ .tile t)
    (f : Tile → Tile) : (s.modifyTile t f).contents c = s.contents c := by
  cases c with
  | player q => rfl
  | container x => rfl
  | tile t' =>
    have ht : t' ≠ t := fun heq => hc (heq ▸ rfl)
    simp [contents, modifyTile, ht]

theorem slots_nodup : slots.Nodup := by decide

theorem mem_slots {slot : ℕ} : slot ∈ slots ↔ 1 ≤ slot ∧ slot ≤ 11 := by
  unfold slots CONST_SLOT_FIRST CONST_SLOT_LAST
  rw [List.mem_range'_1]
  omega

/-- Filling an empty slot. -/
theorem adds_setSlot {p : PlayerRef} {slot : ℕ} (hslot : slot ∈ slots)
    (hempty : (s.player p).inventory slot = none) (y : ItemRef) :
    Adds s (s.setSlot p slot (some y)) (.player p) y where
  toSameItems := s.sameItems_modifyPlayer p _
  contents := by
    have hperm := Stock.perm_filterMap_update slots_nodup hslot hempty y
    simpa [contents, setSlot, modifyPlayer] using hperm
  others _ hc := s.contents_modifyPlayer_of_ne hc _

/-- Clearing a slot. -/
theorem adds_clearSlot {p : PlayerRef} {slot : ℕ} (hslot : slot ∈ slots) {y : ItemRef}
    (hy : (s.player p).inventory slot = some y) :
    Adds (s.setSlot p slot none) s (.player p) y where
  toSameItems := (s.sameItems_modifyPlayer p _).symm
  contents := by
    have hempty : (Function.update (s.player p).inventory slot none) slot = none := by simp
    have hperm := Stock.perm_filterMap_update slots_nodup hslot hempty y
    have hback : Function.update (Function.update (s.player p).inventory slot none) slot (some y) =
        (s.player p).inventory := by
      rw [Function.update_idem, ← hy, Function.update_eq_self]
    rw [hback] at hperm
    simpa [contents, setSlot, modifyPlayer] using hperm
  others _ hc := (s.contents_modifyPlayer_of_ne hc _).symm

/-- An item that holds what it held. -/
theorem contents_setItem {y : ItemRef} {item : Item}
    (hcontainer : item.container = (s.item y).container) (c : Cylinder) :
    (s.setItem y item).contents c = s.contents c := by
  cases c with
  | player p => rfl
  | container x =>
    by_cases hx : x = y
    · subst hx
      simp [contents, itemlist, setItem, hcontainer]
    · simp [contents, itemlist, setItem, hx]
  | tile t => rfl

theorem isContainer_setItem {y : ItemRef} {item : Item}
    (hcontainer : item.container = (s.item y).container) (x : ItemRef) :
    (s.setItem y item).isContainer x = s.isContainer x := by
  by_cases hx : x = y
  · subst hx
    simp [setItem, isContainer, hcontainer]
  · simp [setItem, isContainer, hx]

theorem capacity_setItem {y : ItemRef} {item : Item}
    (hcontainer : item.container = (s.item y).container) (x : ItemRef) :
    (s.setItem y item).capacity x = s.capacity x := by
  by_cases hx : x = y
  · subst hx
    simp [setItem, capacity, hcontainer]
  · simp [setItem, capacity, hx]

theorem typeOf_setItem {y : ItemRef} {item : Item} (hid : item.id = (s.item y).id)
    (x : ItemRef) : (s.setItem y item).typeOf x = s.typeOf x := by
  by_cases hx : x = y
  · subst hx
    simp [setItem, typeOf, hid]
  · simp [setItem, typeOf, hx]

theorem contents_setCount (y : ItemRef) (n : ℕ) (c : Cylinder) :
    (s.setCount y n).contents c = s.contents c := by
  apply contents_setItem
  rfl

theorem typeOf_setCount (y : ItemRef) (n : ℕ) (x : ItemRef) :
    (s.setCount y n).typeOf x = s.typeOf x := by
  apply typeOf_setItem
  rfl

theorem isContainer_setCount (y : ItemRef) (n : ℕ) (x : ItemRef) :
    (s.setCount y n).isContainer x = s.isContainer x := by
  apply isContainer_setItem
  rfl

theorem remainingCount_of_le {y : ItemRef} {count : ℕ} (hcount : count ≤ s.getItemCount y)
    (hbyte : s.getItemCount y < 256) :
    s.remainingCount y count = s.getItemCount y - count := by
  have hsmall : toInt32 (s.getItemCount y - count) = (s.getItemCount y - count : ℤ) := by
    unfold toInt32
    apply Int.bmod_eq_of_le <;> omega
  unfold remainingCount
  rw [hsmall]
  omega

/-! ## Containers -/

theorem adds_setItemlist_cons {x : ItemRef} (hx : s.isContainer x = true) (y : ItemRef) :
    Adds s (s.setItemlist x (y :: s.itemlist x)) (.container x) y where
  toSameItems := s.sameItems_setItemlist x _
  contents := by
    rw [s.contents_setItemlist_self hx]
    exact List.Perm.refl _
  others _ hc := s.contents_setItemlist_of_ne hc _

theorem adds_setItemlist_erase {x y : ItemRef} (hx : s.isContainer x = true)
    (hy : y ∈ s.itemlist x) :
    Adds (s.setItemlist x ((s.itemlist x).erase y)) s (.container x) y where
  toSameItems := (s.sameItems_setItemlist x _).symm
  contents := by
    rw [s.contents_setItemlist_self hx]
    exact List.perm_cons_erase hy
  others _ hc := (s.contents_setItemlist_of_ne hc _).symm

theorem adds_containerAddThing {x : ItemRef} (hx : s.isContainer x = true) {index : ℤ}
    (hindex : index < s.capacity x) (y : ItemRef) :
    Adds s (s.containerAddThing x index y) (.container x) y := by
  have hparent := s.samePlaces_setParent y (some (.container x))
  have hadd := adds_setItemlist_cons (s.setParent y (some (.container x)))
    ((hparent.isContainer x).trans hx) y
  unfold containerAddThing
  rw [if_neg (by omega)]
  simp only
  split
  · exact ((hadd.of_places hparent).then_places (samePlaces_updateItemWeight _ _ _)).then_places
      (samePlaces_closeTrades _ _)
  · exact (hadd.of_places hparent).then_places (samePlaces_updateItemWeight _ _ _)

theorem containerThingIndex_ne {x y : ItemRef} (hy : y ∈ s.itemlist x) :
    s.containerThingIndex x y ≠ -1 := by
  unfold containerThingIndex
  rw [if_pos hy]
  omega

theorem containerRemoveThing_part {x y : ItemRef} {count : ℕ} (hy : y ∈ s.itemlist x)
    (hpart : s.isStackable y = true ∧ count ≠ s.getItemCount y) :
    SamePlaces (s.setCount y (s.remainingCount y count)) (s.containerRemoveThing x y count) := by
  unfold containerRemoveThing
  rw [if_neg (s.containerThingIndex_ne hy), if_pos hpart]
  simp only
  split
  · exact (samePlaces_updateItemWeight _ _ _).trans (samePlaces_closeTrades _ _)
  · exact samePlaces_updateItemWeight _ _ _

/-- The erasure at the end of `removeThing`, after steps that keep the places. -/
theorem adds_erase_of_places {t : State} {x y : ItemRef} (hx : s.isContainer x = true)
    (hy : y ∈ s.itemlist x) (ht : SamePlaces s t) :
    Adds ((t.setParent y none).setItemlist x (((t.setParent y none).itemlist x).erase y)) s
      (.container x) y := by
  have hparent : SamePlaces s (t.setParent y none) := ht.trans (t.samePlaces_setParent y none)
  have hback := adds_setItemlist_erase (t.setParent y none) ((hparent.isContainer x).trans hx)
    ((hparent.itemlist x) ▸ hy)
  exact hback.then_places hparent.symm

theorem adds_containerRemoveThing {x y : ItemRef} {count : ℕ} (hx : s.isContainer x = true)
    (hy : y ∈ s.itemlist x) (hwhole : ¬ (s.isStackable y = true ∧ count ≠ s.getItemCount y)) :
    Adds (s.containerRemoveThing x y count) s (.container x) y := by
  unfold containerRemoveThing
  rw [if_neg (s.containerThingIndex_ne hy), if_neg hwhole]
  simp only
  have hweight := s.samePlaces_updateItemWeight x (-s.getWeight y)
  split
  · exact s.adds_erase_of_places hx hy (hweight.trans (samePlaces_closeTrades _ _))
  · exact s.adds_erase_of_places hx hy hweight

/-! ## Players -/

theorem playerThingIndex_spec {p : PlayerRef} {y : ItemRef} (hy : y ∈ s.contents (.player p)) :
    ∃ slot ∈ slots, s.playerThingIndex p y = (slot : ℤ) ∧
      (s.player p).inventory slot = some y := by
  obtain ⟨slot, hslot, hinventory⟩ := List.mem_filterMap.mp hy
  have hfind : (slots.find? fun slot => (s.player p).inventory slot = some y).isSome := by
    rw [List.find?_isSome]
    exact ⟨slot, hslot, by simpa using hinventory⟩
  obtain ⟨first, hfirst⟩ := Option.isSome_iff_exists.mp hfind
  refine ⟨first, List.mem_of_find?_eq_some hfirst, ?_, ?_⟩
  · simp [playerThingIndex, hfirst]
  · simpa using List.find?_some hfirst

theorem adds_playerAddThing {p : PlayerRef} {slot : ℕ} (hslot : slot ∈ slots)
    (hempty : (s.player p).inventory slot = none) (y : ItemRef) :
    Adds s (s.playerAddThing p slot y) (.player p) y := by
  have hbounds := mem_slots.mp hslot
  have hparent := s.samePlaces_setParent y (some (.player p))
  have hadd := adds_setSlot (s.setParent y (some (.player p))) hslot hempty y
  unfold playerAddThing
  rw [if_neg (by simp only [CONST_SLOT_FIRST, CONST_SLOT_LAST]; omega)]
  exact hadd.of_places hparent

theorem playerRemoveThing_part {p : PlayerRef} {y : ItemRef} {count : ℕ}
    (hy : y ∈ s.contents (.player p))
    (hpart : s.isStackable y = true ∧ count ≠ s.getItemCount y) :
    SamePlaces (s.setCount y (s.remainingCount y count)) (s.playerRemoveThing p y count) := by
  obtain ⟨slot, _, hindex, _⟩ := s.playerThingIndex_spec hy
  unfold playerRemoveThing
  simp only [hindex]
  rw [if_neg (by omega), if_pos hpart]
  exact samePlaces_closeTrades _ _

theorem playerRemoveThing_whole {p : PlayerRef} {y : ItemRef} {count : ℕ}
    (hy : y ∈ s.contents (.player p))
    (hwhole : ¬ (s.isStackable y = true ∧ count ≠ s.getItemCount y)) :
    ∃ slot ∈ slots, (s.player p).inventory slot = some y ∧ ∃ t, SamePlaces s t ∧
      s.playerRemoveThing p y count = t.setSlot p slot none := by
  obtain ⟨slot, hslot, hindex, hinventory⟩ := s.playerThingIndex_spec hy
  have hplaces : SamePlaces s ((s.onRemoveInventoryItem p y).setParent y none) :=
    (samePlaces_closeTrades _ _).trans (samePlaces_setParent _ _ _)
  refine ⟨slot, hslot, hinventory, _, hplaces, ?_⟩
  unfold playerRemoveThing
  simp only [hindex]
  rw [if_neg (by omega), if_neg hwhole]
  rfl

theorem adds_playerRemoveThing {p : PlayerRef} {y : ItemRef} {count : ℕ}
    (hy : y ∈ s.contents (.player p))
    (hwhole : ¬ (s.isStackable y = true ∧ count ≠ s.getItemCount y)) :
    Adds (s.playerRemoveThing p y count) s (.player p) y := by
  obtain ⟨slot, hslot, hinventory, t, hplaces, heq⟩ := s.playerRemoveThing_whole hy hwhole
  have hclear : Adds (t.setSlot p slot none) t (.player p) y :=
    adds_clearSlot t hslot ((congrFun (hplaces.inventory p) slot).trans hinventory)
  rw [heq]
  exact hclear.then_places hplaces.symm

end State

end TibiaServer.Cylinders
