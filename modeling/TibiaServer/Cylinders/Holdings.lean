import TibiaServer.Cylinders.Additions
import TibiaServer.Cylinders.Parents
/-!
# Places and parents

An operation changes who holds an item and what its parent is in separate writes.
After each operation on a cylinder both still agree: everything is held as before, one
item has been taken out, one has been put in, or one has taken the place of another.
-/

namespace TibiaServer.Cylinders

open TibiaServer.World (Position)

namespace State

variable (s : State)

/-- `y` stands in the container `x`. -/
def Inside (y x : ItemRef) : Prop := y ∈ s.itemlist x

/-- `x` is `y` or stands in it, however deep. -/
def Within (x y : ItemRef) : Prop := Relation.ReflTransGen s.Inside x y

end State

/-- Everything is held as before; the parent of what nobody holds may have been cleared. -/
structure SameHoldings (s t : State) : Prop where
  contents : ∀ c, t.contents c = s.contents c
  parent : ∀ c, ∀ y ∈ s.contents c, (t.item y).parent = (s.item y).parent
  loose : ∀ x y, (t.item y).parent = some (.container x) → (s.item y).parent = some (.container x)
  isContainer : ∀ x, t.isContainer x = s.isContainer x
  fresh : t.fresh = s.fresh

/-- The cylinder `c` no longer holds `y`, and `y` is in no container. -/
structure Removes (s t : State) (c : Cylinder) (y : ItemRef) : Prop extends Adds t s c y where
  loose : ∀ x, (t.item y).parent ≠ some (.container x)
  parent : ∀ z, z ≠ y → (t.item z).parent = (s.item z).parent

structure Puts (s t : State) (c : Cylinder) (y : ItemRef) : Prop extends Adds s t c y where
  held : (t.item y).parent = some c
  parent : ∀ z, z ≠ y → (t.item z).parent = (s.item z).parent

/-- The new item takes the place of `old`. -/
structure Swaps (s t : State) (c : Cylinder) (old y : ItemRef) : Prop where
  replaces : Replaces s t c old y
  loose : ∀ x, (t.item old).parent ≠ some (.container x)
  held : (t.item y).parent = some c
  parent : ∀ z, z ≠ y → z ≠ old → (t.item z).parent = (s.item z).parent

theorem SameHoldings.refl (s : State) : SameHoldings s s :=
  ⟨fun _ => rfl, fun _ _ _ => rfl, fun _ _ h => h, fun _ => rfl, rfl⟩

theorem SameHoldings.trans {s t u : State} (h : SameHoldings s t) (h' : SameHoldings t u) :
    SameHoldings s u where
  contents c := (h'.contents c).trans (h.contents c)
  parent c y hy := (h'.parent c y ((h.contents c).symm ▸ hy)).trans (h.parent c y hy)
  loose x y hy := h.loose x y (h'.loose x y hy)
  isContainer x := (h'.isContainer x).trans (h.isContainer x)
  fresh := h'.fresh.trans h.fresh

theorem SamePlaces.sameHoldings {s t : State} (h : SamePlaces s t)
    (hparent : ∀ y, (t.item y).parent = (s.item y).parent) : SameHoldings s t where
  contents := h.contents
  parent _ y _ := hparent y
  loose _ y hy := (hparent y).symm.trans hy
  isContainer := h.isContainer
  fresh := h.fresh

namespace State

variable {s : State}

/-! ## Parents -/

theorem parent_modifyItem (y : ItemRef) {f : Item → Item}
    (hf : ∀ item, (f item).parent = item.parent) (z : ItemRef) :
    ((s.modifyItem y f).item z).parent = (s.item z).parent := by
  by_cases hz : z = y
  · subst hz
    simp [modifyItem, setItem, hf]
  · simp [modifyItem, setItem, hz]

theorem parent_setParent (y : ItemRef) (c : Option Cylinder) (z : ItemRef) :
    ((s.setParent y c).item z).parent = if z = y then c else (s.item z).parent := by
  by_cases hz : z = y
  · subst hz
    simp [setParent, modifyItem, setItem]
  · simp [setParent, modifyItem, setItem, hz]

theorem parent_setParent_self (y : ItemRef) (c : Option Cylinder) :
    ((s.setParent y c).item y).parent = c := by
  rw [parent_setParent, if_pos rfl]

theorem parent_setParent_of_ne {y z : ItemRef} (hz : z ≠ y) (c : Option Cylinder) :
    ((s.setParent y c).item z).parent = (s.item z).parent := by
  rw [parent_setParent, if_neg hz]

@[simp] theorem parent_setItemlist (x : ItemRef) (itemlist : List ItemRef) (z : ItemRef) :
    ((s.setItemlist x itemlist).item z).parent = (s.item z).parent := by
  unfold setItemlist modifyContainer
  apply parent_modifyItem
  exact fun _ => rfl

@[simp] theorem parent_setCount (y : ItemRef) (n : ℕ) (z : ItemRef) :
    ((s.setCount y n).item z).parent = (s.item z).parent := by
  unfold setCount
  apply parent_modifyItem
  exact fun _ => rfl

@[simp] theorem parent_updateItem (y : ItemRef) (itemId count : ℕ) (z : ItemRef) :
    ((s.updateItem y itemId count).item z).parent = (s.item z).parent :=
  parent_modifyItem y (fun item => (Item.setSubType_parent s.items count _).trans
    (Item.setID_parent s.items itemId item)) z

@[simp] theorem parent_updateItemWeight (x : ItemRef) (diff : UInt32) (z : ItemRef) :
    ((s.updateItemWeight x diff).item z).parent = (s.item z).parent := by
  have hloop : ∀ n (u : State) x,
      ((updateItemWeightLoop diff n u x).item z).parent = (u.item z).parent := by
    intro n
    induction n with
    | zero => exact fun u x => rfl
    | succ n ih =>
      intro u x
      have hadd := parent_modifyItem (s := u) x (f := fun item => { item with
        container := item.container.map fun container =>
          { container with totalWeight := container.totalWeight + diff } }) (fun _ => rfl) z
      unfold updateItemWeightLoop
      simp only
      split
      · exact (ih _ _).trans hadd
      · exact hadd
  exact hloop _ _ _

@[simp] theorem parent_closeTrades (hit : PlayerRef → Bool) (z : ItemRef) :
    ((s.closeTrades hit).item z).parent = (s.item z).parent := rfl

theorem item_updateInventoryWeight (p : PlayerRef) :
    (s.updateInventoryWeight p).item = s.item := by
  unfold updateInventoryWeight
  split <;> rfl

theorem item_postNotification (c : Cylinder) : (s.postNotification c).item = s.item := by
  cases c with
  | player p => exact item_updateInventoryWeight p
  | container x =>
    cases hnotified : s.notifiedLoop s.depth x with
    | none => simp [postNotification, hnotified]
    | some p => simpa [postNotification, hnotified] using item_updateInventoryWeight p
  | tile t => rfl

theorem sameHoldings_postNotification (c : Cylinder) : SameHoldings s (s.postNotification c) :=
  (s.samePlaces_postNotification c).sameHoldings fun y => by rw [item_postNotification]

theorem sameHoldings_setCount (y : ItemRef) (n : ℕ) : SameHoldings s (s.setCount y n) where
  contents := s.contents_setCount y n
  parent _ z _ := parent_setCount y n z
  loose _ z hz := (parent_setCount y n z).symm.trans hz
  isContainer := s.isContainer_setCount y n
  fresh := rfl

theorem sameHoldings_updateItem (y : ItemRef) (itemId count : ℕ) :
    SameHoldings s (s.updateItem y itemId count) := by
  have hcontainer : (((s.item y).setID s.items itemId).setSubType s.items count).container =
      (s.item y).container := by
    rw [Item.setSubType_container, Item.setID_container]
  exact
    { contents := s.contents_setItem hcontainer
      parent := fun _ z _ => parent_updateItem y itemId count z
      loose := fun _ z hz => (parent_updateItem y itemId count z).symm.trans hz
      isContainer := s.isContainer_setItem hcontainer
      fresh := rfl }

/-! ## Removals -/

theorem containerThingIndex_of_notMem {x y : ItemRef} (hy : y ∉ s.itemlist x) :
    s.containerThingIndex x y = -1 := if_neg hy

theorem playerThingIndex_of_notMem {p : PlayerRef} {y : ItemRef}
    (hy : y ∉ s.contents (.player p)) : s.playerThingIndex p y = -1 := by
  have hnone : (slots.find? fun slot => (s.player p).inventory slot = some y) = none := by
    rw [List.find?_eq_none]
    intro slot hslot heq
    exact hy (List.mem_filterMap.mpr ⟨slot, hslot, by simpa using heq⟩)
  simp [playerThingIndex, hnone]

theorem tileThingIndex_of_notMem {t : Position} {y : ItemRef} (hy : y ∉ s.contents (.tile t)) :
    s.tileThingIndex t y = -1 := by
  have hparts := (not_congr s.mem_contents_tile).mp hy
  simp only [not_or] at hparts
  unfold tileThingIndex
  dsimp only
  rw [if_neg hparts.1, if_neg hparts.2.1, if_neg hparts.2.2]
  split <;> rfl

theorem removeThing_of_notMem {c : Cylinder} {y : ItemRef} (hy : y ∉ s.contents c) (count : ℕ) :
    s.removeThing c y count = s := by
  cases c with
  | player p =>
    simp only [removeThing]
    unfold playerRemoveThing
    simp only
    rw [if_pos (playerThingIndex_of_notMem hy)]
  | container x =>
    simp only [removeThing]
    unfold containerRemoveThing
    rw [if_pos (containerThingIndex_of_notMem hy)]
  | tile t =>
    simp only [removeThing]
    unfold tileRemoveThing
    rw [if_pos (tileThingIndex_of_notMem hy)]

theorem updateThing_of_notMem {c : Cylinder} {y : ItemRef} (hy : y ∉ s.contents c)
    (itemId count : ℕ) : s.updateThing c y itemId count = s := by
  cases c with
  | player p =>
    simp only [updateThing]
    unfold playerUpdateThing
    rw [if_pos (playerThingIndex_of_notMem hy)]
  | container x =>
    simp only [updateThing]
    unfold containerUpdateThing
    rw [if_pos (containerThingIndex_of_notMem hy)]
  | tile t =>
    simp only [updateThing]
    unfold tileUpdateThing
    rw [if_pos (tileThingIndex_of_notMem hy)]

theorem parent_removeThing_part (hs : Layered s) {c : Cylinder} {y : ItemRef} {count : ℕ}
    (hy : y ∈ s.contents c) (hpart : s.removesPart y count) (z : ItemRef) :
    ((s.removeThing c y count).item z).parent = (s.item z).parent := by
  unfold removesPart at hpart
  cases c with
  | player p =>
    obtain ⟨slot, _, hindex, _⟩ := s.playerThingIndex_spec hy
    simp only [removeThing]
    unfold playerRemoveThing onUpdateInventoryItem
    simp only [hindex]
    rw [if_neg (by omega), if_pos hpart]
    simp
  | container x =>
    simp only [removeThing]
    unfold containerRemoveThing onUpdateContainerItem
    rw [if_neg (s.containerThingIndex_ne hy), if_pos hpart]
    simp only
    split <;> simp
  | tile t =>
    simp only [removeThing, tileRemoveThing_part hs hy hpart]
    simp

theorem parent_removeThing_whole (hs : Layered s) {c : Cylinder} {y : ItemRef} {count : ℕ}
    (hy : y ∈ s.contents c) (hwhole : ¬s.removesPart y count) (z : ItemRef) :
    ((s.removeThing c y count).item z).parent = if z = y then none else (s.item z).parent := by
  unfold removesPart at hwhole
  cases c with
  | player p =>
    obtain ⟨slot, _, hindex, _⟩ := s.playerThingIndex_spec hy
    simp only [removeThing]
    unfold playerRemoveThing onRemoveInventoryItem
    simp only [hindex]
    rw [if_neg (by omega), if_neg hwhole]
    exact parent_setParent y none z
  | container x =>
    simp only [removeThing]
    unfold containerRemoveThing onRemoveContainerItem
    rw [if_neg (s.containerThingIndex_ne hy), if_neg hwhole]
    simp only
    split <;> simp [parent_setParent]
  | tile t =>
    simp only [removeThing]
    unfold tileRemoveThing
    rw [if_neg (tileThingIndex_ne hs hy)]
    split
    · exact parent_setParent y none z
    next hground =>
      rcases s.mem_contents_tile.mp hy with h | h | h
      · exact absurd h hground
      · rw [if_neg (by simp [(hs.down t y h).1]), if_neg (not_not.mpr h)]
        exact parent_setParent y none z
      · rw [if_pos (hs.top t y h).1, if_neg (not_not.mpr h)]
        exact parent_setParent y none z

theorem removes_removeThing (hs : Layered s) {c : Cylinder} {y : ItemRef} {count : ℕ}
    (hy : y ∈ s.contents c) (hwhole : ¬s.removesPart y count) :
    Removes s (s.removeThing c y count) c y where
  toAdds := adds_removeThing hs hy hwhole
  loose x := by
    rw [parent_removeThing_whole hs hy hwhole, if_pos rfl]
    exact nofun
  parent z hz := by
    rw [parent_removeThing_whole hs hy hwhole, if_neg hz]

/-- A removal takes the item out or leaves it held where it is. -/
theorem removeThing_holdings (hs : Layered s) (c : Cylinder) (y : ItemRef) (count : ℕ) :
    SameHoldings s (s.removeThing c y count) ∨ Removes s (s.removeThing c y count) c y := by
  by_cases hy : y ∈ s.contents c
  · by_cases hpart : s.removesPart y count
    · have hplaces := removeThing_part hs hy hpart
      have hcount := sameHoldings_setCount (s := s) y (s.remainingCount y count)
      refine .inl (hcount.trans (hplaces.sameHoldings fun z => ?_))
      rw [parent_removeThing_part hs hy hpart, parent_setCount]
    · exact .inr (removes_removeThing hs hy hpart)
  · rw [removeThing_of_notMem hy]
    exact .inl (.refl s)

/-! ## Additions -/

theorem parent_tileRemoveThing_of_ne (t : Position) {y z : ItemRef} (hz : z ≠ y) (count : ℕ) :
    ((s.tileRemoveThing t y count).item z).parent = (s.item z).parent := by
  unfold tileRemoveThing
  split
  · rfl
  split
  · exact parent_setParent_of_ne hz none
  split
  · split
    · rfl
    · exact parent_setParent_of_ne hz none
  split
  · rfl
  split
  · exact parent_setCount y _ z
  · exact parent_setParent_of_ne hz none

theorem parent_release (t : Position) (old z : ItemRef) :
    ((s.release t old).item z).parent = if z = old then none else (s.item z).parent := by
  unfold release
  rw [parent_setParent]
  by_cases hz : z = old
  · rw [if_pos hz, if_pos hz]
  · rw [if_neg hz, if_neg hz, parent_tileRemoveThing_of_ne t hz]

theorem parent_addGround (t : Position) (y z : ItemRef) :
    ((s.addGround t y).item z).parent =
      if (s.tile t).ground = some z then none else (s.item z).parent := by
  unfold addGround
  cases hold : (s.tile t).ground with
  | none =>
    rw [if_neg nofun]
    rfl
  | some old =>
    have hparent := parent_setParent (s := s) old none z
    simp only [Option.some.injEq, @eq_comm _ old]
    exact hparent

theorem parent_addTopItem (t : Position) (y z : ItemRef) :
    ((s.addTopItem t y).item z).parent =
      if (s.typeOf y).isSplash = true ∧ s.oldSplash t = some z then none
      else (s.item z).parent := by
  unfold addTopItem
  dsimp only
  split
  next hsplash =>
    cases hold : s.oldSplash t with
    | none =>
      rw [if_neg nofun]
      rfl
    | some old =>
      have hrelease := parent_release (s := s) t old z
      simp only [hsplash, true_and, Option.some.injEq, @eq_comm _ old]
      exact hrelease
  next hsplash =>
    rw [if_neg fun h => hsplash h.1]
    rfl

theorem parent_addDownItem (t : Position) (y z : ItemRef) :
    ((s.addDownItem t y).item z).parent =
      if (s.typeOf y).isMagicField = true ∧ (s.oldField t).map
          (fun old => if (s.typeOf old).replaceable then old else y) = some z then none
      else (s.item z).parent := by
  unfold addDownItem
  dsimp only
  split
  next hfield =>
    cases hold : s.oldField t with
    | none =>
      rw [if_neg nofun]
      rfl
    | some old =>
      dsimp only
      split
      next hreplaceable =>
        have hrelease := parent_release (s := s) t old z
        simp only [hfield, hreplaceable, true_and, Option.map_some, if_true,
          Option.some.injEq, @eq_comm _ old]
        exact hrelease
      next hreplaceable =>
        have hparent := parent_setParent (s := s) y none z
        simp only [hfield, hreplaceable, true_and, Option.map_some, Bool.false_eq_true,
          if_false, Option.some.injEq, @eq_comm _ y]
        exact hparent
  next hfield =>
    rw [if_neg fun h => hfield h.1]
    rfl

/-- Who gives way on a tile has no parent any more. -/
theorem parent_tileAddThing {t : Position} {y : ItemRef} (hroom : (s.tileItems t).length < 65535)
    (z : ItemRef) : ((s.tileAddThing t y).item z).parent =
      if s.tileLost t y = some z then none
      else if z = y then some (.tile t) else (s.item z).parent := by
  have hparent := s.samePlaces_setParent y (some (.tile t))
  have hput := parent_setParent (s := s) y (some (.tile t)) z
  have hlength : ¬(s.tileItems t).length ≥ 65535 := by omega
  unfold tileAddThing tileLost
  rw [if_neg hlength, if_neg hlength]
  simp only [hparent.typeOf]
  split
  · rw [parent_addGround, hput, hparent.ground]
  split
  · rw [parent_addTopItem, hput, hparent.oldSplash, hparent.typeOf]
    by_cases hsplash : (s.typeOf y).isSplash = true
    · simp only [hsplash, true_and, if_true]
    · simp only [hsplash, false_and, Bool.false_eq_true, reduceCtorEq, if_false]
  · rw [parent_addDownItem, hput, hparent.oldField, hparent.typeOf]
    simp only [hparent.typeOf]
    by_cases hfield : (s.typeOf y).isMagicField = true
    · simp only [hfield, true_and, if_true]
    · simp only [hfield, false_and, Bool.false_eq_true, reduceCtorEq, if_false]

theorem parent_containerAddThing {x : ItemRef} {index : ℤ} (hindex : index < s.capacity x)
    (y z : ItemRef) : ((s.containerAddThing x index y).item z).parent =
      if z = y then some (.container x) else (s.item z).parent := by
  have hlow : ¬index ≥ s.capacity x := by omega
  unfold containerAddThing onAddContainerItem
  rw [if_neg hlow]
  simp only
  split <;> simp [parent_setParent]

theorem parent_playerAddThing {p : PlayerRef} {index : ℤ} (hindex : 1 ≤ index ∧ index ≤ 11)
    (y z : ItemRef) : ((s.playerAddThing p index y).item z).parent =
      if z = y then some (.player p) else (s.item z).parent := by
  have hbounds : ¬(index < CONST_SLOT_FIRST ∨ index > CONST_SLOT_LAST) := by
    unfold CONST_SLOT_FIRST CONST_SLOT_LAST
    omega
  unfold playerAddThing
  rw [if_neg hbounds]
  exact parent_setParent y _ z

/-! ## Updates -/

theorem sameHoldings_updateThing (c : Cylinder) (y : ItemRef) (itemId count : ℕ) :
    SameHoldings s (s.updateThing c y itemId count) := by
  have hupdate := sameHoldings_updateItem (s := s) y itemId count
  have hclose : ∀ (u : State) hit, SameHoldings u (u.closeTrades hit) :=
    fun u hit => (u.samePlaces_closeTrades hit).sameHoldings fun _ => rfl
  have hweigh : ∀ (u : State) x diff, SameHoldings u (u.updateItemWeight x diff) :=
    fun u x diff => (u.samePlaces_updateItemWeight x diff).sameHoldings
      fun z => parent_updateItemWeight x diff z
  cases c with
  | player p =>
    simp only [updateThing]
    unfold playerUpdateThing
    split
    · exact .refl s
    · exact hupdate.trans (hclose _ _)
  | container x =>
    simp only [updateThing]
    unfold containerUpdateThing
    split
    · exact .refl s
    simp only
    split
    · exact (hupdate.trans (hweigh _ _ _)).trans (hclose _ _)
    · exact hupdate.trans (hweigh _ _ _)
  | tile t =>
    simp only [updateThing]
    unfold tileUpdateThing
    split
    · exact .refl s
    · have hreset := (s.samePlaces_resetTileFlags t y).sameHoldings fun _ => rfl
      have hset := ((((s.resetTileFlags t y).updateItem y itemId count).samePlaces_setTileFlags t
        y)).sameHoldings fun _ => rfl
      exact (hreset.trans (sameHoldings_updateItem y itemId count)).trans hset

end State

end TibiaServer.Cylinders
