import TibiaServer.Cylinders.WellFormed
/-!
# Additions without room

Where the place does not keep what it has, an addition comes to nothing or takes
the place of another item.  Either way, and after a removal, a stocked state is
stocked again.
-/

namespace TibiaServer.Cylinders

open TibiaServer.World (Position)

/-- Another item of the cylinder gives way to the new one. -/
def Replaces (s s' : State) (c : Cylinder) (old y : ItemRef) : Prop :=
  ∃ u, Adds u s c old ∧ Adds u s' c y

namespace Replaces

variable {s t u : State} {c : Cylinder} {old y : ItemRef}

theorem of_places (h : SamePlaces s t) (hrep : Replaces t u c old y) : Replaces s u c old y := by
  obtain ⟨v, hold, hnew⟩ := hrep
  exact ⟨v, hold.then_places h.symm, hnew⟩

theorem then_places (hrep : Replaces s t c old y) (h : SamePlaces t u) : Replaces s u c old y := by
  obtain ⟨v, hold, hnew⟩ := hrep
  exact ⟨v, hold, hnew.then_places h⟩

theorem sameItems (hrep : Replaces s t c old y) : SameItems s t := by
  obtain ⟨v, hold, hnew⟩ := hrep
  exact hold.toSameItems.symm.trans hnew.toSameItems

theorem mem (hrep : Replaces s t c old y) {c' : Cylinder} {x : ItemRef} (hx : x ∈ t.contents c') :
    (x = y ∧ c' = c) ∨ x ∈ s.contents c' := by
  obtain ⟨v, hold, hnew⟩ := hrep
  rcases Single.mem_cons_of_adds hnew hx with hhere | hmem
  · exact Or.inl hhere
  · exact Or.inr (Single.mem_of_adds hold hmem)

end Replaces

/-- What is not in the world after an addition: the item `old` that gives way, or the
new item itself. -/
def Drops (s s' : State) (c : Cylinder) (old y : ItemRef) : Prop :=
  old = y ∧ SamePlaces s s' ∨ Replaces s s' c old y

namespace State

variable (s : State)

/-- The item that an addition to a tile loses, if any. -/
def tileLost (t : Position) (y : ItemRef) : Option ItemRef :=
  if (s.tileItems t).length ≥ 65535 then some y
  else if (s.typeOf y).isGroundTile then (s.tile t).ground
  else if (s.typeOf y).alwaysOnTop then
    if (s.typeOf y).isSplash then s.oldSplash t else none
  else if (s.typeOf y).isMagicField then
    (s.oldField t).map fun oldField => if (s.typeOf oldField).replaceable then oldField else y
  else none

/-- The item that an addition loses, if any: what stands in the slot, what gives way on
the tile, or the new item where there is no room for it. -/
def lost (c : Cylinder) (index : ℤ) (y : ItemRef) : Option ItemRef :=
  match c with
  | .player p => if 1 ≤ index ∧ index ≤ 11 then s.getInventoryItem p index else some y
  | .container x => if index < s.capacity x then none else some y
  | .tile t => s.tileLost t y

/-! ## Who gives way -/

theorem tileLost_of_keeps {t : Position} {y : ItemRef} (h : s.tileKeeps t y) :
    s.tileLost t y = none := by
  obtain ⟨hlength, hplace⟩ := h
  unfold tileLost
  rw [if_neg (by omega)]
  split
  next hground => rwa [if_pos hground] at hplace
  next hground =>
    rw [if_neg hground] at hplace
    split
    next htop =>
      rw [if_pos htop] at hplace
      split
      next hsplash => exact hplace hsplash
      next => rfl
    next htop =>
      rw [if_neg htop] at hplace
      split
      next hfield => rw [hplace hfield, Option.map_none]
      next => rfl

theorem lost_of_keeps {c : Cylinder} {index : ℤ} {y : ItemRef} (h : s.keeps c index y) :
    s.lost c index y = none := by
  cases c with
  | player p =>
    obtain ⟨hlow, hhigh, hempty⟩ := h
    simp only [lost]
    rw [if_pos ⟨hlow, hhigh⟩, hempty]
  | container x =>
    simp only [lost]
    rw [if_pos h.2]
  | tile t => exact s.tileLost_of_keeps h

theorem replaces_setSlot {p : PlayerRef} {slot : ℕ} (hslot : slot ∈ slots) {old : ItemRef}
    (hold : (s.player p).inventory slot = some old) (y : ItemRef) :
    Replaces s (s.setSlot p slot (some y)) (.player p) old y := by
  refine ⟨s.setSlot p slot none, s.adds_clearSlot hslot hold, ?_⟩
  have hempty : ((s.setSlot p slot none).player p).inventory slot = none := by
    simp [setSlot, modifyPlayer]
  have hadd := adds_setSlot (s.setSlot p slot none) hslot hempty y
  have hover : (s.setSlot p slot none).setSlot p slot (some y) = s.setSlot p slot (some y) := by
    simp [setSlot, modifyPlayer]
  rwa [hover] at hadd

theorem replaces_addGround {t : Position} {old : ItemRef} (hold : (s.tile t).ground = some old)
    (y : ItemRef) : Replaces s (s.addGround t y) (.tile t) old y := by
  have hparent := s.samePlaces_setParent old none
  have hclear := adds_clearGround (s.setParent old none) ((hparent.ground t).trans hold)
  have hempty : (((s.setParent old none).setGround t none).tile t).ground = none := by
    simp [setGround, modifyTile]
  have hadd := adds_setGround ((s.setParent old none).setGround t none) hempty y
  have hover : ((s.setParent old none).setGround t none).setGround t (some y) =
      (s.setParent old none).setGround t (some y) := by
    simp [setGround, modifyTile]
  rw [hover] at hadd
  have hrep : Replaces s ((s.setParent old none).setGround t (some y)) (.tile t) old y :=
    ⟨_, hclear.then_places hparent.symm, hadd⟩
  unfold addGround
  rw [hold]
  exact (hrep.then_places (samePlaces_resetTileFlags _ t old)).then_places
    (samePlaces_setTileFlags _ t y)

variable {s}

/-- Neither a splash nor a field is a stack, so it goes whole. -/
theorem adds_release (hs : Layered s) {t : Position} {old : ItemRef}
    (hmem : old ∈ s.contents (.tile t)) (hplain : s.isStackable old = false) :
    Adds (s.release t old) s (.tile t) old := by
  have hremove : Adds (s.tileRemoveThing t old 1) s (.tile t) old :=
    adds_tileRemoveThing hs hmem (by simp [hplain])
  exact hremove.of_places (samePlaces_setParent _ old none).symm

theorem oldSplash_spec {t : Position} {old : ItemRef} (hold : s.oldSplash t = some old) :
    old ∈ s.contents (.tile t) ∧ s.isStackable old = false := by
  have hsplash := List.find?_some hold
  refine ⟨s.mem_contents_tile.mpr (Or.inr (Or.inr (List.mem_of_find?_eq_some hold))), ?_⟩
  by_contra hstack
  have hplain := (s.stackable_plain (by simpa using hstack)).2.2.1
  rw [hplain] at hsplash
  cases hsplash

theorem oldField_spec {t : Position} {old : ItemRef} (hold : s.oldField t = some old) :
    old ∈ s.contents (.tile t) ∧ s.isStackable old = false := by
  have hfield := List.find?_some hold
  refine ⟨s.mem_contents_tile.mpr (Or.inr (Or.inl (List.mem_of_find?_eq_some hold))), ?_⟩
  by_contra hstack
  have hplain := (s.stackable_plain (by simpa using hstack)).2.2.2
  rw [hplain] at hfield
  cases hfield

theorem replaces_addTopItem (hs : Layered s) {t : Position} {y old : ItemRef}
    (hsplash : (s.typeOf y).isSplash = true) (hold : s.oldSplash t = some old) :
    Replaces s (s.addTopItem t y) (.tile t) old y := by
  obtain ⟨hmem, hplain⟩ := oldSplash_spec hold
  refine ⟨s.release t old, adds_release hs hmem hplain, ?_⟩
  unfold addTopItem
  rw [if_pos hsplash, hold]
  exact (adds_setTopItems _ (perm_insertTopItem _ y _)).then_places (samePlaces_setTileFlags _ t y)

theorem drops_addDownItem (hs : Layered s) {t : Position} {y old : ItemRef}
    (hfield : (s.typeOf y).isMagicField = true) (hold : s.oldField t = some old) :
    Drops s (s.addDownItem t y) (.tile t) (if (s.typeOf old).replaceable then old else y) y := by
  obtain ⟨hmem, hplain⟩ := oldField_spec hold
  unfold addDownItem
  rw [if_pos hfield, hold]
  simp only
  split
  · refine Or.inr ⟨s.release t old, adds_release hs hmem hplain, ?_⟩
    exact (adds_setDownItems _ (List.Perm.refl _)).then_places (samePlaces_setTileFlags _ t y)
  · exact Or.inl ⟨rfl, s.samePlaces_setParent y none⟩

theorem tileAddThing_without_room (hs : Layered s) {t : Position} {y : ItemRef}
    (hroom : ¬ s.tileKeeps t y) :
    ∃ old, s.tileLost t y = some old ∧ Drops s (s.tileAddThing t y) (.tile t) old y := by
  have hparent := s.samePlaces_setParent y (some (.tile t))
  have hs' := hs.of_places hparent
  have hfrom : ∀ {v : State} {old : ItemRef},
      Drops (s.setParent y (some (.tile t))) v (.tile t) old y → Drops s v (.tile t) old y := by
    intro v old hv
    exact hv.imp (fun h => ⟨h.1, hparent.trans h.2⟩) (Replaces.of_places hparent)
  unfold tileAddThing tileLost
  split
  next => exact ⟨y, rfl, Or.inl ⟨rfl, SamePlaces.refl s⟩⟩
  next hlength =>
    have htype := hparent.typeOf y
    simp only [htype]
    unfold tileKeeps at hroom
    split
    next hground =>
      rw [if_pos hground] at hroom
      obtain ⟨old, hold⟩ := Option.ne_none_iff_exists'.mp
        fun hempty => hroom ⟨not_le.mp hlength, hempty⟩
      exact ⟨old, hold, hfrom (Or.inr (replaces_addGround _ ((hparent.ground t).trans hold) y))⟩
    next hground =>
      rw [if_neg hground] at hroom
      split
      next htop =>
        rw [if_pos htop] at hroom
        obtain ⟨hsplash, hfull⟩ := Classical.not_imp.mp
          fun hempty => hroom ⟨not_le.mp hlength, hempty⟩
        obtain ⟨old, hold⟩ := Option.ne_none_iff_exists'.mp hfull
        rw [if_pos hsplash]
        exact ⟨old, hold, hfrom (Or.inr (replaces_addTopItem hs' (htype ▸ hsplash)
          ((hparent.oldSplash t).trans hold)))⟩
      next htop =>
        rw [if_neg htop] at hroom
        obtain ⟨hfield, hfull⟩ := Classical.not_imp.mp
          fun hempty => hroom ⟨not_le.mp hlength, hempty⟩
        obtain ⟨old, hold⟩ := Option.ne_none_iff_exists'.mp hfull
        have hdrops := drops_addDownItem hs' (htype ▸ hfield) ((hparent.oldField t).trans hold)
        rw [hparent.typeOf] at hdrops
        rw [if_pos hfield, hold]
        exact ⟨_, rfl, hfrom hdrops⟩

theorem addThing_without_room (hs : Stocked s) {c : Cylinder} (hc : c ∈ s.cylinders) {index : ℤ}
    {y : ItemRef} (hroom : ¬ s.keeps c index y) :
    ∃ old, s.lost c index y = some old ∧ Drops s (s.addThing c index y) c old y := by
  cases c with
  | player p =>
    have hparent := s.samePlaces_setParent y (some (.player p))
    simp only [addThing, lost]
    unfold playerAddThing CONST_SLOT_FIRST CONST_SLOT_LAST
    by_cases hbounds : 1 ≤ index ∧ index ≤ 11
    · have hslot : index.toNat ∈ slots := mem_slots.mpr (by omega)
      have hfull : s.getInventoryItem p index ≠ none :=
        fun hempty => hroom ⟨hbounds.1, hbounds.2, hempty⟩
      obtain ⟨old, hold⟩ := Option.ne_none_iff_exists'.mp hfull
      rw [if_pos hbounds, if_neg (by omega)]
      refine ⟨old, hold, Or.inr (Replaces.of_places hparent ?_)⟩
      rw [getInventoryItem, if_pos hbounds] at hold
      exact (s.setParent y (some (.player p))).replaces_setSlot hslot hold y
    · rw [if_neg hbounds, if_pos (by omega)]
      exact ⟨y, rfl, Or.inl ⟨rfl, SamePlaces.refl s⟩⟩
  | container x =>
    have hx := (hs.container x).mp hc
    have hindex : index ≥ s.capacity x := not_lt.mp fun h => hroom ⟨hx, h⟩
    simp only [addThing, lost]
    unfold containerAddThing
    rw [if_pos hindex, if_neg (not_lt.mpr hindex)]
    exact ⟨y, rfl, Or.inl ⟨rfl, SamePlaces.refl s⟩⟩
  | tile t => exact tileAddThing_without_room hs.toLayered hroom

/-- An addition moves items and changes none. -/
theorem sameItems_addThing (hs : Stocked s) {c : Cylinder} (hc : c ∈ s.cylinders) (index : ℤ)
    (y : ItemRef) : SameItems s (s.addThing c index y) := by
  by_cases hkeeps : s.keeps c index y
  · exact (adds_addThing hkeeps).toSameItems
  · obtain ⟨old, -, ⟨-, hplaces⟩ | hrep⟩ := addThing_without_room hs hc hkeeps
    · exact hplaces.sameItems
    · exact hrep.sameItems

/-- A thing that is added without an index is added at the first one. -/
theorem addThingAnywhere_eq (c : Cylinder) (y : ItemRef) :
    s.addThingAnywhere c y = s.addThing c 0 y := by
  cases c with
  | player p => rfl
  | container x => rfl
  | tile t => rfl

end State

/-! ## Layers -/

namespace Layered

variable {s : State}

theorem of_tiles {s' : State} (hs : Layered s) (htile : s'.tile = s.tile)
    (htype : ∀ y, s'.typeOf y = s.typeOf y) : Layered s' where
  ground t y hy := by
    rw [htype]
    exact hs.ground t y (htile ▸ hy)
  down t y hy := by
    rw [htype]
    exact hs.down t y (htile ▸ hy)
  top t y hy := by
    rw [htype]
    exact hs.top t y (htile ▸ hy)

theorem setCount (hs : Layered s) (y : ItemRef) (n : ℕ) : Layered (s.setCount y n) :=
  @of_tiles s (s.setCount y n) hs rfl (s.typeOf_setCount y n)

/-- Only one tile has to be looked at. -/
theorem modifyTile (hs : Layered s) (t : Position) (f : Tile → Tile)
    (hground : ∀ y, (f (s.tile t)).ground = some y → (s.typeOf y).isGroundTile = true)
    (hdown : ∀ y ∈ (f (s.tile t)).downItems,
      (s.typeOf y).alwaysOnTop = false ∧ (s.typeOf y).isGroundTile = false)
    (htop : ∀ y ∈ (f (s.tile t)).topItems,
      (s.typeOf y).alwaysOnTop = true ∧ (s.typeOf y).isGroundTile = false) :
    Layered (s.modifyTile t f) where
  ground t' y hy := by
    by_cases ht : t' = t
    · subst ht
      exact hground y (by simpa [State.modifyTile] using hy)
    · exact hs.ground t' y (by simpa [State.modifyTile, ht] using hy)
  down t' y hy := by
    by_cases ht : t' = t
    · subst ht
      exact hdown y (by simpa [State.modifyTile] using hy)
    · exact hs.down t' y (by simpa [State.modifyTile, ht] using hy)
  top t' y hy := by
    by_cases ht : t' = t
    · subst ht
      exact htop y (by simpa [State.modifyTile] using hy)
    · exact hs.top t' y (by simpa [State.modifyTile, ht] using hy)

theorem tileRemoveThing (hs : Layered s) (t : Position) (y : ItemRef) (count : ℕ) :
    Layered (s.tileRemoveThing t y count) := by
  have hparent := hs.of_places (s.samePlaces_setParent y none)
  have hflags : ∀ {u : State}, Layered u → Layered (u.resetTileFlags t y) :=
    fun hu => hu.of_places (State.samePlaces_resetTileFlags _ t y)
  unfold State.tileRemoveThing
  split
  · exact hs
  split
  · exact hflags (hparent.modifyTile t _ (fun y hy => by cases hy) (hparent.down t)
      (hparent.top t))
  split
  · split
    · exact hs
    · exact hflags (hparent.modifyTile t _ (hparent.ground t) (hparent.down t)
        fun x hx => hparent.top t x (List.mem_of_mem_erase hx))
  split
  · exact hs
  split
  · exact hs.setCount y _
  · exact hflags (hparent.modifyTile t _ (hparent.ground t)
      (fun x hx => hparent.down t x (List.mem_of_mem_erase hx)) (hparent.top t))

theorem release (hs : Layered s) (t : Position) (old : ItemRef) : Layered (s.release t old) :=
  (hs.tileRemoveThing t old 1).of_places (State.samePlaces_setParent _ old none)

theorem addGround (hs : Layered s) {t : Position} {y : ItemRef}
    (hy : (s.typeOf y).isGroundTile = true) : Layered (s.addGround t y) := by
  have hset : ∀ {u : State}, Layered u → (u.typeOf y).isGroundTile = true →
      Layered (u.setGround t (some y)) := by
    intro u hu huy
    refine hu.modifyTile t _ (fun x hx => ?_) (hu.down t) (hu.top t)
    rw [← Option.some.inj hx]
    exact huy
  unfold State.addGround
  split
  · exact (hset hs hy).of_places (State.samePlaces_setTileFlags _ t y)
  next old _ =>
    have hparent := s.samePlaces_setParent old none
    have hput := hset (hs.of_places hparent) (by rw [hparent.typeOf]; exact hy)
    exact (hput.of_places (State.samePlaces_resetTileFlags _ t old)).of_places
      (State.samePlaces_setTileFlags _ t y)

theorem addTopItem (hs : Layered s) {t : Position} {y : ItemRef}
    (hy : (s.typeOf y).alwaysOnTop = true ∧ (s.typeOf y).isGroundTile = false) :
    Layered (s.addTopItem t y) := by
  have hput : ∀ {u : State}, Layered u → u.typeOf y = s.typeOf y →
      Layered ((u.setTopItems t (u.insertTopItem y (u.tile t).topItems)).setTileFlags t y) := by
    intro u hu huy
    refine (hu.modifyTile t _ (hu.ground t) (hu.down t) fun x hx => ?_).of_places
      (State.samePlaces_setTileFlags _ t y)
    rcases List.mem_cons.mp ((u.perm_insertTopItem y _).mem_iff.mp hx) with heq | hmem
    · rw [heq, huy]
      exact hy
    · exact hu.top t x hmem
  unfold State.addTopItem
  simp only
  split
  · cases s.oldSplash t with
    | none => exact hput hs rfl
    | some old => exact hput (hs.release t old) (s.typeOf_release t old y)
  · exact hput hs rfl

theorem addDownItem (hs : Layered s) {t : Position} {y : ItemRef}
    (hy : (s.typeOf y).alwaysOnTop = false ∧ (s.typeOf y).isGroundTile = false) :
    Layered (s.addDownItem t y) := by
  have hput : ∀ {u : State}, Layered u → u.typeOf y = s.typeOf y →
      Layered ((u.setDownItems t (y :: (u.tile t).downItems)).setTileFlags t y) := by
    intro u hu huy
    refine (hu.modifyTile t _ (hu.ground t) (fun x hx => ?_) (hu.top t)).of_places
      (State.samePlaces_setTileFlags _ t y)
    rcases List.mem_cons.mp hx with heq | hmem
    · rw [heq, huy]
      exact hy
    · exact hu.down t x hmem
  unfold State.addDownItem
  simp only
  split
  · split
    · split
      next old _ _ => exact hput (hs.release t old) (s.typeOf_release t old y)
      · exact hs.of_places (s.samePlaces_setParent y none)
    · exact hput hs rfl
  · exact hput hs rfl

theorem tileAddThing (hs : Layered s) (t : Position) (y : ItemRef) :
    Layered (s.tileAddThing t y) := by
  have hparent := hs.of_places (s.samePlaces_setParent y (some (.tile t)))
  unfold State.tileAddThing
  split
  · exact hs
  simp only
  split
  next hground => exact hparent.addGround hground
  next hground =>
    split
    next htop => exact hparent.addTopItem ⟨htop, by simpa using hground⟩
    next htop => exact hparent.addDownItem ⟨by simpa using htop, by simpa using hground⟩

theorem containerAddThing (hs : Layered s) (x : ItemRef) (index : ℤ) (y : ItemRef) :
    Layered (s.containerAddThing x index y) := by
  have hparent := hs.of_places (s.samePlaces_setParent y (some (.container x)))
  unfold State.containerAddThing
  split
  · exact hs
  simp only
  have hlist : Layered ((s.setParent y (some (.container x))).setItemlist x
      (y :: (s.setParent y (some (.container x))).itemlist x)) :=
    hparent.of_tiles rfl fun z => (State.sameItems_setItemlist _ x _).typeOf z
  have hweight := fun diff => hlist.of_places (State.samePlaces_updateItemWeight _ x diff)
  split
  · exact (hweight _).of_places (State.samePlaces_closeTrades _ _)
  · exact hweight _

theorem addThing (hs : Layered s) (c : Cylinder) (index : ℤ) (y : ItemRef) :
    Layered (s.addThing c index y) := by
  cases c with
  | player p =>
    simp only [State.addThing]
    unfold State.playerAddThing
    split
    · exact hs
    · exact (hs.of_places (s.samePlaces_setParent y (some (.player p)))).of_tiles rfl
        fun _ => rfl
  | container x => exact hs.containerAddThing x index y
  | tile t => exact hs.tileAddThing t y

theorem containerRemoveThing (hs : Layered s) (x y : ItemRef) (count : ℕ) :
    Layered (s.containerRemoveThing x y count) := by
  unfold State.containerRemoveThing
  split
  · exact hs
  split
  · have hcount := hs.setCount y (s.remainingCount y count)
    have hweight := fun diff => hcount.of_places (State.samePlaces_updateItemWeight _ x diff)
    simp only
    split
    · exact (hweight _).of_places (State.samePlaces_closeTrades _ _)
    · exact hweight _
  · have hweight := hs.of_places (s.samePlaces_updateItemWeight x (-s.getWeight y))
    have herase : ∀ {u : State}, Layered u →
        Layered ((u.setParent y none).setItemlist x
          (((u.setParent y none).itemlist x).erase y)) := by
      intro u hu
      exact (hu.of_places (u.samePlaces_setParent y none)).of_tiles rfl
        fun z => (State.sameItems_setItemlist _ x _).typeOf z
    simp only
    split
    · exact herase (hweight.of_places (State.samePlaces_closeTrades _ _))
    · exact herase hweight

theorem removeThing (hs : Layered s) (c : Cylinder) (y : ItemRef) (count : ℕ) :
    Layered (s.removeThing c y count) := by
  cases c with
  | player p =>
    simp only [State.removeThing]
    unfold State.playerRemoveThing
    simp only
    split
    · exact hs
    split
    · exact (hs.setCount y _).of_places
        (State.samePlaces_closeTrades _ _)
    · have htrade : Layered (s.onRemoveInventoryItem p y) :=
        hs.of_places (s.samePlaces_closeTrades _)
      exact (htrade.of_places (State.samePlaces_setParent _ y none)).of_tiles rfl fun _ => rfl
  | container x => exact hs.containerRemoveThing x y count
  | tile t => exact hs.tileRemoveThing t y count

end Layered

/-! ## The stock -/

namespace Single

variable {s s' : State}

theorem of_places (hs : Single s) (h : SamePlaces s s') : Single s' where
  nodup c := by
    rw [h.contents]
    exact hs.nodup c
  once c c' y hy hy' := by
    rw [h.contents] at hy hy'
    exact hs.once c c' y hy hy'

end Single

namespace Stocked

variable {s s' : State} {c : Cylinder} {y : ItemRef}

/-- What stands in the new state stood there before, or is `y`. -/
theorem of_contents (hs : Stocked s) (hsame : SameItems s s') (hsingle : Single s')
    (hlayers : Layered s') (hnew : ∀ c', ∀ x ∈ s'.contents c', (x = y ∧ c' = c) ∨ x ∈ s.contents c')
    (hold : y < s.fresh) (hc : c ∈ s.cylinders)
    (hcount : s.isStackable y = true → 1 ≤ s.getItemCount y ∧ s.getItemCount y ≤ 100) :
    Stocked s' where
  toSingle := hsingle
  toLayered := hlayers
  named id := by
    rw [hsame.items]
    exact hs.named id
  old c' x hx := by
    rw [hsame.fresh]
    rcases hnew c' x hx with ⟨heq, -⟩ | hmem
    · rw [heq]
      exact hold
    · exact hs.old c' x hmem
  cylinder c' hc' := by
    rw [hsame.cylinders]
    obtain ⟨x, hx⟩ := List.exists_mem_of_ne_nil _ hc'
    rcases hnew c' x hx with ⟨-, heq⟩ | hmem
    · rw [heq]
      exact hc
    · exact hs.cylinder c' (List.ne_nil_of_mem hmem)
  container x := by
    rw [hsame.cylinders, hsame.isContainer]
    exact hs.container x
  plain x hx := by
    rw [hsame.isContainer] at hx
    rw [hsame.fresh, hsame.isStackable]
    exact hs.plain x hx
  count c' x hx hstack := by
    rw [hsame.isStackable] at hstack
    have hunits : s'.getItemCount x = s.getItemCount x := hsame.count x
    rw [hunits]
    rcases hnew c' x hx with ⟨heq, -⟩ | hmem
    · rw [heq] at hstack ⊢
      exact hcount hstack
    · exact hs.count c' x hmem hstack

theorem of_places (hs : Stocked s) (h : SamePlaces s s') : Stocked s' where
  toSingle := hs.toSingle.of_places h
  toLayered := hs.toLayered.of_places h
  named id := by
    rw [h.items]
    exact hs.named id
  old c x hx := by
    rw [h.fresh]
    exact hs.old c x ((h.contents c) ▸ hx)
  cylinder c hc := by
    rw [h.cylinders]
    exact hs.cylinder c ((h.contents c) ▸ hc)
  container x := by
    rw [h.cylinders, h.isContainer]
    exact hs.container x
  plain x hx := by
    rw [h.isContainer] at hx
    rw [h.fresh, h.isStackable]
    exact hs.plain x hx
  count c x hx hstack := by
    rw [h.isStackable] at hstack
    have hunits : s'.getItemCount x = s.getItemCount x := h.count x
    rw [hunits]
    exact hs.count c x ((h.contents c) ▸ hx) hstack

theorem of_removal (hs : Stocked s) (hadd : Adds s' s c y) (hlayers : Layered s') : Stocked s' := by
  have hmem : y ∈ s.contents c := hadd.contents.mem_iff.mpr List.mem_cons_self
  exact of_contents hs hadd.toSameItems.symm (hs.toSingle.of_removal hadd) hlayers
    (fun _ _ hx => Or.inr (Single.mem_of_adds hadd hx)) (hs.old c y hmem)
    (hs.cylinder c (List.ne_nil_of_mem hmem)) (hs.count c y hmem)

/-- Whatever becomes of the new item, the state is stocked. -/
theorem addThing (hs : Stocked s) (hc : c ∈ s.cylinders) (hnew : ∀ c', y ∉ s.contents c')
    (hold : y < s.fresh)
    (hcount : s.isStackable y = true → 1 ≤ s.getItemCount y ∧ s.getItemCount y ≤ 100)
    (index : ℤ) : Stocked (s.addThing c index y) := by
  have hlayers := hs.toLayered.addThing c index y
  by_cases hkeeps : s.keeps c index y
  · have hadd := State.adds_addThing hkeeps
    exact of_contents hs hadd.toSameItems (hs.toSingle.of_addition hadd hnew) hlayers
      (fun _ _ hx => Single.mem_cons_of_adds hadd hx) hold hc hcount
  · obtain ⟨old, -, ⟨-, hplaces⟩ | hrep⟩ := State.addThing_without_room hs hc hkeeps
    · exact hs.of_places hplaces
    · obtain ⟨u, hz, hy⟩ := id hrep
      have hnew' : ∀ c', y ∉ u.contents c' :=
        fun c' hmem => hnew c' (Single.mem_of_adds hz hmem)
      exact of_contents hs hrep.sameItems ((hs.toSingle.of_removal hz).of_addition hy hnew') hlayers
        (fun _ _ hx => hrep.mem hx) hold hc hcount

/-- An item becomes another one of its id that holds what it held. -/
theorem setItem (hs : Stocked s) {item : Item} (hid : item.id = (s.item y).id)
    (hcontainer : item.container = (s.item y).container)
    (hcount : s.isStackable y = true → 1 ≤ item.count ∧ item.count ≤ 100) :
    Stocked (s.setItem y item) := by
  have hcontents := s.contents_setItem hcontainer
  have hstackable : ∀ x, (s.setItem y item).isStackable x = s.isStackable x := by
    intro x
    unfold State.isStackable
    rw [s.typeOf_setItem hid]
  have hlayers : Layered (s.setItem y item) :=
    @Layered.of_tiles s (s.setItem y item) hs.toLayered rfl (s.typeOf_setItem hid)
  exact
    { ground := hlayers.ground
      down := hlayers.down
      top := hlayers.top
      named := hs.named
      nodup := fun c => (hcontents c).symm ▸ hs.nodup c
      once := fun c c' x hx hx' => hs.once c c' x ((hcontents c) ▸ hx) ((hcontents c') ▸ hx')
      old := fun c x hx => hs.old c x ((hcontents c) ▸ hx)
      cylinder := fun c hc => hs.cylinder c ((hcontents c) ▸ hc)
      container := fun x => (hs.container x).trans (by rw [s.isContainer_setItem hcontainer])
      plain := by
        intro x hx
        rw [hstackable]
        exact hs.plain x ((s.isContainer_setItem hcontainer x).symm.trans hx)
      count := by
        intro c x hx hstack
        rw [hstackable] at hstack
        by_cases hxy : x = y
        · subst hxy
          simpa [State.getItemCount, State.setItem] using hcount hstack
        · have hcountx : (s.setItem y item).getItemCount x = s.getItemCount x := by
            simp [State.getItemCount, State.setItem, hxy]
          rw [hcountx]
          exact hs.count c x ((hcontents c) ▸ hx) hstack }

/-- The count of a stack changes within 1 to 100. -/
theorem setCount (hs : Stocked s) {n : ℕ} (hn : 1 ≤ n ∧ n ≤ 100) (y : ItemRef) :
    Stocked (s.setCount y n) := by
  refine hs.setItem rfl rfl fun _ => ?_
  simp only [Item.setItemCount]
  omega

end Stocked

end TibiaServer.Cylinders
