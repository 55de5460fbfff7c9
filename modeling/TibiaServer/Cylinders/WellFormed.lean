import Mathlib.Data.List.Find
import TibiaServer.Cylinders.Operations
/-!
# Well-formed states

What the places of a state have in common: no item stands in two, stacks hold 1
to 100, a tile is layered by the types of its items.  Under this a removal takes
the item away or lowers its count, and an addition `Keeps` what was there unless
a field, a splash, a ground or the item of a slot gives way.
-/

namespace TibiaServer.Cylinders

open TibiaServer.Library
open TibiaServer.World (Position)

/-- No item stands in two places. -/
structure Single (s : State) : Prop where
  nodup : ∀ c, (s.contents c).Nodup
  once : ∀ c c' y, y ∈ s.contents c → y ∈ s.contents c' → c = c'

/-- The layers of the tiles. -/
structure Layered (s : State) : Prop where
  ground : ∀ t y, (s.tile t).ground = some y → (s.typeOf y).isGroundTile = true
  down : ∀ t, ∀ y ∈ (s.tile t).downItems,
    (s.typeOf y).alwaysOnTop = false ∧ (s.typeOf y).isGroundTile = false
  top : ∀ t, ∀ y ∈ (s.tile t).topItems,
    (s.typeOf y).alwaysOnTop = true ∧ (s.typeOf y).isGroundTile = false

/-- Nothing stands twice, tiles are layered, stacks hold 1 to 100, and a type without a
row is the empty one. -/
structure Stocked (s : State) : Prop extends Single s, Layered s where
  named : ∀ id, s.items id = { id := 0 } ∨ (s.items id).id = id ∧ id ≠ 0
  old : ∀ c, ∀ y ∈ s.contents c, y < s.fresh
  cylinder : ∀ c, s.contents c ≠ [] → c ∈ s.cylinders
  container : ∀ x, .container x ∈ s.cylinders ↔ s.isContainer x = true
  plain : ∀ x, s.isContainer x = true → x < s.fresh ∧ s.isStackable x = false
  count : ∀ c, ∀ y ∈ s.contents c, s.isStackable y = true →
    1 ≤ s.getItemCount y ∧ s.getItemCount y ≤ 100

structure WellFormed (s : State) : Prop extends Stocked s where
  parent : ∀ x y, (s.item x).parent = some (.container y) → s.isContainer y = true

namespace Single

variable {s s' : State} {c : Cylinder} {y : ItemRef}

/-- What is taken away stands nowhere else. -/
theorem not_mem_of_adds (h : Single s) (hadd : Adds s' s c y) (c' : Cylinder) :
    y ∉ s'.contents c' := by
  have hhere : y ∈ s.contents c := hadd.contents.mem_iff.mpr List.mem_cons_self
  intro hmem
  by_cases hc : c' = c
  · subst hc
    have hnodup := hadd.contents.nodup_iff.mp (h.nodup c')
    exact (List.nodup_cons.mp hnodup).1 hmem
  · rw [← hadd.others c' hc] at hmem
    exact hc (h.once c' c y hmem hhere)

theorem mem_of_adds (hadd : Adds s' s c y) {c' : Cylinder} {x : ItemRef}
    (hx : x ∈ s'.contents c') : x ∈ s.contents c' := by
  by_cases hc : c' = c
  · subst hc
    exact hadd.contents.mem_iff.mpr (List.mem_cons_of_mem y hx)
  · rw [hadd.others c' hc]
    exact hx

theorem of_removal (h : Single s) (hadd : Adds s' s c y) : Single s' where
  nodup c' := by
    by_cases hc : c' = c
    · subst hc
      exact (List.nodup_cons.mp (hadd.contents.nodup_iff.mp (h.nodup c'))).2
    · rw [← hadd.others c' hc]
      exact h.nodup c'
  once c₁ c₂ x h₁ h₂ := h.once c₁ c₂ x (mem_of_adds hadd h₁) (mem_of_adds hadd h₂)

theorem mem_cons_of_adds (hadd : Adds s s' c y) {c' : Cylinder} {x : ItemRef}
    (hx : x ∈ s'.contents c') : (x = y ∧ c' = c) ∨ x ∈ s.contents c' := by
  by_cases hc : c' = c
  · subst hc
    rcases List.mem_cons.mp (hadd.contents.mem_iff.mp hx) with heq | hmem
    · exact Or.inl ⟨heq, rfl⟩
    · exact Or.inr hmem
  · rw [hadd.others c' hc] at hx
    exact Or.inr hx

theorem of_addition (h : Single s) (hadd : Adds s s' c y) (hnew : ∀ c', y ∉ s.contents c') :
    Single s' where
  nodup c' := by
    by_cases hc : c' = c
    · subst hc
      exact hadd.contents.nodup_iff.mpr (List.nodup_cons.mpr ⟨hnew c', h.nodup c'⟩)
    · rw [hadd.others c' hc]
      exact h.nodup c'
  once c₁ c₂ x h₁ h₂ := by
    rcases mem_cons_of_adds hadd h₁ with ⟨hx₁, hc₁⟩ | hold₁
    · rcases mem_cons_of_adds hadd h₂ with ⟨_, hc₂⟩ | hold₂
      · rw [hc₁, hc₂]
      · exact absurd (hx₁ ▸ hold₂) (hnew c₂)
    · rcases mem_cons_of_adds hadd h₂ with ⟨hx₂, _⟩ | hold₂
      · exact absurd (hx₂ ▸ hold₁) (hnew c₁)
      · exact h.once c₁ c₂ x hold₁ hold₂

end Single

namespace SamePlaces

variable {s s' : State}

theorem oldSplash (h : SamePlaces s s') (t : Position) : s'.oldSplash t = s.oldSplash t := by
  unfold State.oldSplash
  simp only [h.topItems, h.typeOf]

theorem oldField (h : SamePlaces s s') (t : Position) : s'.oldField t = s.oldField t := by
  unfold State.oldField
  simp only [h.downItems, h.typeOf]

end SamePlaces

theorem Layered.of_places {s s' : State} (hs : Layered s) (h : SamePlaces s s') : Layered s' where
  ground t y hy := by
    rw [h.typeOf]
    exact hs.ground t y ((h.ground t).symm.trans hy)
  down t y hy := by
    rw [h.typeOf]
    exact hs.down t y ((h.downItems t) ▸ hy)
  top t y hy := by
    rw [h.typeOf]
    exact hs.top t y ((h.topItems t) ▸ hy)

namespace State

variable (s : State)

/-! ## Tiles -/

theorem samePlaces_modifyFlags (t : Position) (f : Tile → Tile)
    (hground : (f (s.tile t)).ground = (s.tile t).ground)
    (hdown : (f (s.tile t)).downItems = (s.tile t).downItems)
    (htop : (f (s.tile t)).topItems = (s.tile t).topItems) : SamePlaces s (s.modifyTile t f) where
  items := rfl
  cylinders := rfl
  fresh := rfl
  ground t' := by
    by_cases ht : t' = t
    · subst ht
      simpa [modifyTile] using hground
    · simp [modifyTile, ht]
  downItems t' := by
    by_cases ht : t' = t
    · subst ht
      simpa [modifyTile] using hdown
    · simp [modifyTile, ht]
  topItems t' := by
    by_cases ht : t' = t
    · subst ht
      simpa [modifyTile] using htop
    · simp [modifyTile, ht]
  inventory _ := rfl
  id _ := rfl
  count _ := rfl
  attributes _ := rfl
  shape _ := rfl

theorem samePlaces_setTileFlags (t : Position) (y : ItemRef) : SamePlaces s (s.setTileFlags t y) :=
  s.samePlaces_modifyFlags t _ rfl rfl rfl

theorem samePlaces_resetTileFlags (t : Position) (y : ItemRef) :
    SamePlaces s (s.resetTileFlags t y) :=
  s.samePlaces_modifyFlags t _ rfl rfl rfl

theorem adds_setGround {t : Position} (hempty : (s.tile t).ground = none) (y : ItemRef) :
    Adds s (s.setGround t (some y)) (.tile t) y where
  toSameItems := s.sameItems_modifyTile t _
  contents := by simp [contents, setGround, modifyTile, hempty]
  others _ hc := s.contents_modifyTile_of_ne hc _

theorem adds_clearGround {t : Position} {y : ItemRef} (hy : (s.tile t).ground = some y) :
    Adds (s.setGround t none) s (.tile t) y where
  toSameItems := (s.sameItems_modifyTile t _).symm
  contents := by simp [contents, setGround, modifyTile, hy]
  others _ hc := (s.contents_modifyTile_of_ne hc _).symm

theorem adds_setDownItems {t : Position} {y : ItemRef} {items : List ItemRef}
    (hperm : items.Perm (y :: (s.tile t).downItems)) :
    Adds s (s.setDownItems t items) (.tile t) y where
  toSameItems := s.sameItems_modifyTile t _
  contents := by
    have hmiddle := (hperm.append_right (s.tile t).topItems).append_left (s.tile t).ground.toList
    simpa [contents, setDownItems, modifyTile] using hmiddle.trans List.perm_middle
  others _ hc := s.contents_modifyTile_of_ne hc _

theorem adds_clearDownItems {t : Position} {y : ItemRef} {items : List ItemRef}
    (hperm : (s.tile t).downItems.Perm (y :: items)) :
    Adds (s.setDownItems t items) s (.tile t) y where
  toSameItems := (s.sameItems_modifyTile t _).symm
  contents := by
    have hmiddle := (hperm.append_right (s.tile t).topItems).append_left (s.tile t).ground.toList
    simpa [contents, setDownItems, modifyTile] using hmiddle.trans List.perm_middle
  others _ hc := (s.contents_modifyTile_of_ne hc _).symm

theorem adds_setTopItems {t : Position} {y : ItemRef} {items : List ItemRef}
    (hperm : items.Perm (y :: (s.tile t).topItems)) :
    Adds s (s.setTopItems t items) (.tile t) y where
  toSameItems := s.sameItems_modifyTile t _
  contents := by
    have hend := hperm.append_left ((s.tile t).ground.toList ++ (s.tile t).downItems)
    simpa [contents, setTopItems, modifyTile] using hend.trans List.perm_middle
  others _ hc := s.contents_modifyTile_of_ne hc _

theorem adds_clearTopItems {t : Position} {y : ItemRef} {items : List ItemRef}
    (hperm : (s.tile t).topItems.Perm (y :: items)) :
    Adds (s.setTopItems t items) s (.tile t) y where
  toSameItems := (s.sameItems_modifyTile t _).symm
  contents := by
    have hend := hperm.append_left ((s.tile t).ground.toList ++ (s.tile t).downItems)
    simpa [contents, setTopItems, modifyTile] using hend.trans List.perm_middle
  others _ hc := (s.contents_modifyTile_of_ne hc _).symm

theorem perm_insertTopItem (y : ItemRef) (items : List ItemRef) :
    (s.insertTopItem y items).Perm (y :: items) := by
  induction items with
  | nil => exact List.Perm.refl _
  | cons x items ih =>
    unfold insertTopItem
    split
    · exact List.Perm.refl _
    · exact (ih.cons x).trans (List.Perm.swap y x items)

theorem stackable_plain {y : ItemRef} (hy : s.isStackable y = true) :
    (s.typeOf y).alwaysOnTop = false ∧ (s.typeOf y).isGroundTile = false ∧
      (s.typeOf y).isSplash = false ∧ (s.typeOf y).isMagicField = false := by
  obtain ⟨hgroup, htype, htop, _⟩ := (s.typeOf y).stackable_plain hy
  refine ⟨htop, ?_, ?_, ?_⟩
  · simp [ItemType.isGroundTile, hgroup]
  · simp [ItemType.isSplash, hgroup]
  · rcases htype with h | h <;> simp [ItemType.isMagicField, h]

theorem mem_contents_tile {t : Position} {y : ItemRef} :
    y ∈ s.contents (.tile t) ↔ (s.tile t).ground = some y ∨ y ∈ (s.tile t).downItems ∨
      y ∈ (s.tile t).topItems := by
  simp [contents]

variable {s} in
theorem tileThingIndex_ne (hs : Layered s) {t : Position} {y : ItemRef}
    (hy : y ∈ s.contents (.tile t)) : s.tileThingIndex t y ≠ -1 := by
  unfold tileThingIndex
  simp only
  split
  · omega
  next hground =>
    rcases s.mem_contents_tile.mp hy with h | h | h
    · exact absurd h hground
    · rw [if_neg (by simp [(hs.down t y h).1]), if_pos h]
      split <;> omega
    · rw [if_pos (hs.top t y h).1, if_pos h]
      split <;> omega

variable {s} in
/-- A stack lies among the down items. -/
theorem stackable_down (hs : Layered s) {t : Position} {y : ItemRef}
    (hy : y ∈ s.contents (.tile t)) (hstack : s.isStackable y = true) :
    (s.tile t).ground ≠ some y ∧ y ∈ (s.tile t).downItems := by
  obtain ⟨htop, hgroundTile, _⟩ := s.stackable_plain hstack
  have hground : (s.tile t).ground ≠ some y := by
    intro h
    rw [hs.ground t y h] at hgroundTile
    exact Bool.noConfusion hgroundTile
  rcases s.mem_contents_tile.mp hy with h | h | h
  · exact absurd h hground
  · exact ⟨hground, h⟩
  · rw [(hs.top t y h).1] at htop
    exact Bool.noConfusion htop

variable {s} in
theorem tileRemoveThing_part (hs : Layered s) {t : Position} {y : ItemRef} {count : ℕ}
    (hy : y ∈ s.contents (.tile t))
    (hpart : s.isStackable y = true ∧ count ≠ s.getItemCount y) :
    s.tileRemoveThing t y count = s.setCount y (s.remainingCount y count) := by
  obtain ⟨hground, hdown⟩ := stackable_down hs hy hpart.1
  have htop := (s.stackable_plain hpart.1).1
  unfold tileRemoveThing
  rw [if_neg (tileThingIndex_ne hs hy), if_neg hground, if_neg (by simp [htop]),
    if_neg (not_not.mpr hdown), if_pos hpart]

variable {s} in
theorem adds_tileRemoveThing (hs : Layered s) {t : Position} {y : ItemRef} {count : ℕ}
    (hy : y ∈ s.contents (.tile t))
    (hwhole : ¬ (s.isStackable y = true ∧ count ≠ s.getItemCount y)) :
    Adds (s.tileRemoveThing t y count) s (.tile t) y := by
  have hparent := s.samePlaces_setParent y none
  have hback : ∀ {u : State}, Adds u (s.setParent y none) (.tile t) y →
      Adds (u.resetTileFlags t y) s (.tile t) y := by
    intro u hu
    exact (hu.of_places (u.samePlaces_resetTileFlags t y).symm).then_places hparent.symm
  unfold tileRemoveThing
  rw [if_neg (tileThingIndex_ne hs hy)]
  split
  next hground => exact hback (adds_clearGround _ hground)
  next hground =>
    rcases s.mem_contents_tile.mp hy with h | h | h
    · exact absurd h hground
    · rw [if_neg (by simp [(hs.down t y h).1]), if_neg (not_not.mpr h)]
      exact hback (adds_clearDownItems _ (List.perm_cons_erase h))
    · rw [if_pos (hs.top t y h).1, if_neg (not_not.mpr h)]
      exact hback (adds_clearTopItems _ (List.perm_cons_erase h))

/-- A tile takes an item and keeps what it has: no ground, splash or field gives way. -/
def tileKeeps (t : Position) (y : ItemRef) : Prop :=
  (s.tileItems t).length < 65535 ∧
    if (s.typeOf y).isGroundTile then (s.tile t).ground = none
    else if (s.typeOf y).alwaysOnTop then (s.typeOf y).isSplash = true → s.oldSplash t = none
    else (s.typeOf y).isMagicField = true → s.oldField t = none

theorem adds_addGround {t : Position} (hempty : (s.tile t).ground = none) (y : ItemRef) :
    Adds s (s.addGround t y) (.tile t) y := by
  unfold addGround
  rw [hempty]
  exact (s.adds_setGround hempty y).then_places (samePlaces_setTileFlags _ t y)

theorem adds_addTopItem {t : Position} {y : ItemRef}
    (hempty : (s.typeOf y).isSplash = true → s.oldSplash t = none) :
    Adds s (s.addTopItem t y) (.tile t) y := by
  have hput : Adds s ((s.setTopItems t (s.insertTopItem y (s.tile t).topItems)).setTileFlags t y)
      (.tile t) y :=
    (s.adds_setTopItems (s.perm_insertTopItem y _)).then_places (samePlaces_setTileFlags _ t y)
  unfold addTopItem
  by_cases hsplash : (s.typeOf y).isSplash = true
  · rw [if_pos hsplash, hempty hsplash]
    exact hput
  · rw [if_neg hsplash]
    exact hput

theorem adds_addDownItem {t : Position} {y : ItemRef}
    (hempty : (s.typeOf y).isMagicField = true → s.oldField t = none) :
    Adds s (s.addDownItem t y) (.tile t) y := by
  have hput : Adds s ((s.setDownItems t (y :: (s.tile t).downItems)).setTileFlags t y) (.tile t) y :=
    (s.adds_setDownItems (List.Perm.refl _)).then_places (samePlaces_setTileFlags _ t y)
  unfold addDownItem
  by_cases hfield : (s.typeOf y).isMagicField = true
  · rw [if_pos hfield, hempty hfield]
    exact hput
  · rw [if_neg hfield]
    exact hput

theorem adds_tileAddThing {t : Position} {y : ItemRef} (hkeeps : s.tileKeeps t y) :
    Adds s (s.tileAddThing t y) (.tile t) y := by
  obtain ⟨hlength, hplace⟩ := hkeeps
  have hparent := s.samePlaces_setParent y (some (.tile t))
  have htype := hparent.typeOf y
  unfold tileAddThing
  rw [if_neg (by omega)]
  simp only [htype]
  split
  next hground =>
    rw [if_pos hground] at hplace
    exact ((s.setParent y (some (.tile t))).adds_addGround hplace y).of_places hparent
  next hground =>
    rw [if_neg hground] at hplace
    split
    next htop =>
      rw [if_pos htop] at hplace
      refine (adds_addTopItem _ fun hsplash => ?_).of_places hparent
      rw [hparent.oldSplash]
      exact hplace (htype ▸ hsplash)
    next htop =>
      rw [if_neg htop] at hplace
      refine (adds_addDownItem _ fun hfield => ?_).of_places hparent
      rw [hparent.oldField]
      exact hplace (htype ▸ hfield)

/-! ## All cylinders -/

/-- What a removal does to the item of a well-formed state. -/
def removesPart (y : ItemRef) (count : ℕ) : Prop :=
  s.isStackable y = true ∧ count ≠ s.getItemCount y

instance (y : ItemRef) (count : ℕ) : Decidable (s.removesPart y count) :=
  inferInstanceAs (Decidable (_ ∧ _))

variable {s} in
theorem isContainer_of_mem {x y : ItemRef} (hy : y ∈ s.contents (.container x)) :
    s.isContainer x = true := by
  unfold isContainer
  cases hcontainer : (s.item x).container with
  | none => simp [contents, itemlist, hcontainer] at hy
  | some container => rfl

variable {s} in
theorem adds_removeThing (hs : Layered s) {c : Cylinder} {y : ItemRef} {count : ℕ}
    (hy : y ∈ s.contents c) (hwhole : ¬ s.removesPart y count) :
    Adds (s.removeThing c y count) s c y := by
  cases c with
  | player p => exact s.adds_playerRemoveThing hy hwhole
  | container x => exact s.adds_containerRemoveThing (isContainer_of_mem hy) hy hwhole
  | tile t => exact adds_tileRemoveThing hs hy hwhole

variable {s} in
/-- A part of a stack is taken: only its count is another one. -/
theorem removeThing_part (hs : Layered s) {c : Cylinder} {y : ItemRef} {count : ℕ}
    (hy : y ∈ s.contents c) (hpart : s.removesPart y count) :
    SamePlaces (s.setCount y (s.remainingCount y count)) (s.removeThing c y count) := by
  cases c with
  | player p => exact s.playerRemoveThing_part hy hpart
  | container x => exact s.containerRemoveThing_part hy hpart
  | tile t =>
    simp only [removeThing, tileRemoveThing_part hs hy hpart]
    exact SamePlaces.refl _

/-- The place takes an item and what it has stays: an empty slot, an index within the
capacity, a tile where nothing gives way. -/
def keeps (c : Cylinder) (index : ℤ) (y : ItemRef) : Prop :=
  match c with
  | .player p => 1 ≤ index ∧ index ≤ 11 ∧ s.getInventoryItem p index = none
  | .container x => s.isContainer x = true ∧ index < s.capacity x
  | .tile t => s.tileKeeps t y

variable {s} in
/-- Whether a place keeps what it has depends on its items and on the type of the new one. -/
theorem keeps_congr {s' : State} {c : Cylinder} {index : ℤ} {y y' : ItemRef}
    (hinventory : ∀ p, (s'.player p).inventory = (s.player p).inventory)
    (hground : ∀ t, (s'.tile t).ground = (s.tile t).ground)
    (hdown : ∀ t, (s'.tile t).downItems = (s.tile t).downItems)
    (htop : ∀ t, (s'.tile t).topItems = (s.tile t).topItems)
    (hcontainer : ∀ x, s'.isContainer x = s.isContainer x)
    (hcapacity : ∀ x, s'.capacity x = s.capacity x)
    (htype : ∀ t, ∀ x ∈ s.contents (.tile t), s'.typeOf x = s.typeOf x)
    (hy : s'.typeOf y' = s.typeOf y) : s'.keeps c index y' ↔ s.keeps c index y := by
  cases c with
  | player p =>
    simp only [keeps, getInventoryItem, hinventory]
  | container x =>
    simp only [keeps, hcontainer, hcapacity]
  | tile t =>
    have hsplash : s'.oldSplash t = s.oldSplash t := by
      unfold oldSplash
      rw [htop]
      exact List.find?_congr fun x hx => by
        rw [htype t x (s.mem_contents_tile.mpr (Or.inr (Or.inr hx)))]
    have hfield : s'.oldField t = s.oldField t := by
      unfold oldField
      rw [hdown]
      exact List.find?_congr fun x hx => by
        rw [htype t x (s.mem_contents_tile.mpr (Or.inr (Or.inl hx)))]
    simp only [keeps, tileKeeps, tileItems, hy, hground, hdown, htop, hsplash, hfield]

variable {s} in
theorem adds_addThing {c : Cylinder} {index : ℤ} {y : ItemRef} (hkeeps : s.keeps c index y) :
    Adds s (s.addThing c index y) c y := by
  cases c with
  | player p =>
    obtain ⟨hlow, hhigh, hempty⟩ := hkeeps
    obtain ⟨slot, rfl⟩ := Int.eq_ofNat_of_zero_le (show 0 ≤ index by omega)
    have hslot : slot ∈ slots := mem_slots.mpr (by omega)
    rw [getInventoryItem, if_pos ⟨hlow, hhigh⟩] at hempty
    exact s.adds_playerAddThing hslot hempty y
  | container x => exact s.adds_containerAddThing hkeeps.1 hkeeps.2 y
  | tile t => exact s.adds_tileAddThing hkeeps

/-! ## What an addition leaves alone -/

theorem contents_containerAddThing_of_ne {x : ItemRef} {c : Cylinder} (hc : c ≠ .container x)
    (index : ℤ) (y : ItemRef) : (s.containerAddThing x index y).contents c = s.contents c := by
  have hparent := (s.samePlaces_setParent y (some (.container x))).contents c
  unfold containerAddThing
  split
  · rfl
  · simp only
    split
    · refine ((samePlaces_closeTrades _ _).contents c).trans ?_
      rw [(samePlaces_updateItemWeight _ _ _).contents, contents_setItemlist_of_ne _ hc, hparent]
    · rw [(samePlaces_updateItemWeight _ _ _).contents, contents_setItemlist_of_ne _ hc, hparent]

theorem contents_playerAddThing_of_ne {p : PlayerRef} {c : Cylinder} (hc : c ≠ .player p)
    (index : ℤ) (y : ItemRef) : (s.playerAddThing p index y).contents c = s.contents c := by
  unfold playerAddThing
  split
  · rfl
  · exact (contents_modifyPlayer_of_ne _ hc _).trans ((s.samePlaces_setParent y _).contents c)

theorem contents_tileRemoveThing_of_ne {t : Position} {c : Cylinder} (hc : c ≠ .tile t)
    (y : ItemRef) (count : ℕ) : (s.tileRemoveThing t y count).contents c = s.contents c := by
  have hparent := (s.samePlaces_setParent y none).contents c
  unfold tileRemoveThing
  split
  · rfl
  split
  · rw [(samePlaces_resetTileFlags _ _ _).contents]
    exact (contents_modifyTile_of_ne _ hc _).trans hparent
  split
  · split
    · rfl
    · rw [(samePlaces_resetTileFlags _ _ _).contents]
      exact (contents_modifyTile_of_ne _ hc _).trans hparent
  split
  · rfl
  split
  · exact s.contents_setCount y _ c
  · rw [(samePlaces_resetTileFlags _ _ _).contents]
    exact (contents_modifyTile_of_ne _ hc _).trans hparent

theorem contents_release_of_ne {t : Position} {c : Cylinder} (hc : c ≠ .tile t) (old : ItemRef) :
    (s.release t old).contents c = s.contents c := by
  unfold release
  rw [(samePlaces_setParent _ _ _).contents]
  exact s.contents_tileRemoveThing_of_ne hc old 1

theorem contents_addGround_of_ne {t : Position} {c : Cylinder} (hc : c ≠ .tile t)
    (y : ItemRef) : (s.addGround t y).contents c = s.contents c := by
  unfold addGround
  split
  · rw [(samePlaces_setTileFlags _ _ _).contents]
    exact contents_modifyTile_of_ne _ hc _
  · rw [(samePlaces_setTileFlags _ _ _).contents, (samePlaces_resetTileFlags _ _ _).contents]
    exact (contents_modifyTile_of_ne _ hc _).trans ((samePlaces_setParent _ _ _).contents c)

theorem contents_addTopItem_of_ne {t : Position} {c : Cylinder} (hc : c ≠ .tile t)
    (y : ItemRef) : (s.addTopItem t y).contents c = s.contents c := by
  unfold addTopItem
  simp only
  rw [(samePlaces_setTileFlags _ _ _).contents]
  refine (contents_modifyTile_of_ne _ hc _).trans ?_
  split
  · cases s.oldSplash t with
    | none => rfl
    | some old => exact s.contents_release_of_ne hc old
  · rfl

theorem contents_addDownItem_of_ne {t : Position} {c : Cylinder} (hc : c ≠ .tile t)
    (y : ItemRef) : (s.addDownItem t y).contents c = s.contents c := by
  have hput : ∀ u : State, ((u.setDownItems t (y :: (u.tile t).downItems)).setTileFlags t y).contents
      c = u.contents c := by
    intro u
    rw [(samePlaces_setTileFlags _ _ _).contents]
    exact contents_modifyTile_of_ne _ hc _
  unfold addDownItem
  simp only
  split
  · split
    · split
      · exact (hput _).trans (s.contents_release_of_ne hc _)
      · exact (s.samePlaces_setParent y none).contents c
    · exact hput s
  · exact hput s

theorem contents_tileAddThing_of_ne {t : Position} {c : Cylinder} (hc : c ≠ .tile t)
    (y : ItemRef) : (s.tileAddThing t y).contents c = s.contents c := by
  have hparent := (s.samePlaces_setParent y (some (.tile t))).contents c
  unfold tileAddThing
  split
  · rfl
  · simp only
    split
    · exact (contents_addGround_of_ne _ hc y).trans hparent
    split
    · exact (contents_addTopItem_of_ne _ hc y).trans hparent
    · exact (contents_addDownItem_of_ne _ hc y).trans hparent

theorem contents_addThing_of_ne {c c' : Cylinder} (hc : c' ≠ c) (index : ℤ) (y : ItemRef) :
    (s.addThing c index y).contents c' = s.contents c' := by
  cases c with
  | player p => exact s.contents_playerAddThing_of_ne hc index y
  | container x => exact s.contents_containerAddThing_of_ne hc index y
  | tile t => exact s.contents_tileAddThing_of_ne hc y

theorem contents_addThingAnywhere_of_ne {c c' : Cylinder} (hc : c' ≠ c) (y : ItemRef) :
    (s.addThingAnywhere c y).contents c' = s.contents c' := by
  cases c with
  | player p => rfl
  | container x => exact s.contents_containerAddThing_of_ne hc 0 y
  | tile t => exact s.contents_tileAddThing_of_ne hc y

/-! ## Types of items -/

theorem typeOf_tileRemoveThing (t : Position) (y : ItemRef) (count : ℕ) (z : ItemRef) :
    (s.tileRemoveThing t y count).typeOf z = s.typeOf z := by
  have hparent := (s.samePlaces_setParent y none).typeOf z
  have hcount := s.typeOf_setCount y (s.remainingCount y count) z
  unfold tileRemoveThing
  split
  · rfl
  split
  · exact ((samePlaces_resetTileFlags _ _ _).typeOf z).trans hparent
  split
  · split
    · rfl
    · exact ((samePlaces_resetTileFlags _ _ _).typeOf z).trans hparent
  split
  · rfl
  split
  · exact hcount
  · exact ((samePlaces_resetTileFlags _ _ _).typeOf z).trans hparent

theorem typeOf_release (t : Position) (old z : ItemRef) :
    (s.release t old).typeOf z = s.typeOf z :=
  ((samePlaces_setParent _ _ _).typeOf z).trans (s.typeOf_tileRemoveThing t old 1 z)

theorem typeOf_tileAddThing (t : Position) (y z : ItemRef) :
    (s.tileAddThing t y).typeOf z = s.typeOf z := by
  have hparent := (s.samePlaces_setParent y (some (.tile t))).typeOf z
  unfold tileAddThing
  split
  · rfl
  simp only
  split
  · unfold addGround
    split
    · exact ((samePlaces_setTileFlags _ _ _).typeOf z).trans hparent
    · exact (((samePlaces_setTileFlags _ _ _).typeOf z).trans
        ((samePlaces_resetTileFlags _ _ _).typeOf z)).trans
          (((samePlaces_setParent _ _ _).typeOf z).trans hparent)
  split
  · unfold addTopItem
    simp only
    refine ((samePlaces_setTileFlags _ _ _).typeOf z).trans ?_
    split
    · cases (s.setParent y (some (.tile t))).oldSplash t with
      | none => exact hparent
      | some old => exact (typeOf_release _ t old z).trans hparent
    · exact hparent
  · unfold addDownItem
    simp only
    split
    · split
      · split
        · exact ((samePlaces_setTileFlags _ _ _).typeOf z).trans
            ((typeOf_release _ t _ z).trans hparent)
        · exact ((samePlaces_setParent _ _ _).typeOf z).trans hparent
      · exact ((samePlaces_setTileFlags _ _ _).typeOf z).trans hparent
    · exact ((samePlaces_setTileFlags _ _ _).typeOf z).trans hparent

theorem sameItems_containerAddThing (x : ItemRef) (index : ℤ) (y : ItemRef) :
    SameItems s (s.containerAddThing x index y) := by
  have hparent := (s.samePlaces_setParent y (some (.container x))).sameItems
  unfold containerAddThing
  split
  · exact (SamePlaces.refl s).sameItems
  · have hset := hparent.trans ((s.setParent y (some (.container x))).sameItems_setItemlist x
      (y :: (s.setParent y (some (.container x))).itemlist x))
    simp only
    split
    · exact (hset.trans (samePlaces_updateItemWeight _ _ _).sameItems).trans
        (samePlaces_closeTrades _ _).sameItems
    · exact hset.trans (samePlaces_updateItemWeight _ _ _).sameItems

theorem typeOf_addThingAnywhere (c : Cylinder) (y z : ItemRef) :
    (s.addThingAnywhere c y).typeOf z = s.typeOf z := by
  cases c with
  | player p => rfl
  | container x => exact (s.sameItems_containerAddThing x 0 y).typeOf z
  | tile t => exact s.typeOf_tileAddThing t y z

end State

end TibiaServer.Cylinders
