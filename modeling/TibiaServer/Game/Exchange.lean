import TibiaServer.Cylinders.Destination
import TibiaServer.Cylinders.Tables
import TibiaServer.Game.MoveItem
/-!
# Refused moves

A refusal before the exchange leaves every item in its place.  Once the item in the
way has gone to the source, the destination is asked again, and the source is asked
for the first time: a refusal then comes too late.
-/

namespace TibiaServer.Game

open TibiaServer.Cylinders
open ReturnValue
open TibiaServer.World (Position)

/-- The exchange is carried out: both sides have agreed to it. -/
def Exchanges (s : State) (fromCylinder : Cylinder) (d : Destination) (item : ItemRef) (count : ℕ)
    (actor : Bool) (toItem : ItemRef) : Prop :=
  d.destItem = some toItem ∧ toItem ≠ item ∧
    s.queryAdd d.cylinder d.index item count d.flags actor = NEEDEXCHANGE ∧
    sourceAnswer s fromCylinder item toItem = NOERROR ∧
    s.queryRemove d.cylinder toItem (s.getItemCount toItem) d.flags = NOERROR

/-- With the item in the way at the source, the destination takes the item and the
source gives it. -/
def AgreesAfter (s : State) (fromCylinder : Cylinder) (d : Destination) (item : ItemRef)
    (count : ℕ) (toItem : ItemRef) : Prop :=
  let t := exchange s fromCylinder d toItem
  t.queryAdd d.cylinder d.index item count d.flags false = NOERROR ∧
    t.queryRemove fromCylinder item 1 d.flags = NOERROR

/-- The item in the way goes back to where it was: it lies on the tile that is both
source and destination, and is not one of two fields there. -/
def ReturnsToPlace (s : State) (fromCylinder : Cylinder) (d : Destination) (toItem : ItemRef) :
    Prop :=
  ∃ t, fromCylinder = .tile t ∧ d.cylinder = .tile t ∧
    ¬ ((s.typeOf toItem).isMagicField = true ∧
      ∃ y ∈ (s.tile t).downItems, y ≠ toItem ∧ (s.typeOf y).isMagicField = true)

/-! ## Who asks for an exchange -/

section Answers

variable (s : State)

theorem queryAddOfKind_ne (x : ItemRef) (container : Container) (y : ItemRef) (count : ℕ)
    (flags : cylinderflags_t) (actor : Bool) {ofContainer : ReturnValue}
    (h : ofContainer ≠ NEEDEXCHANGE) :
    s.queryAddOfKind x container y count flags actor ofContainer ≠ NEEDEXCHANGE := by
  unfold State.queryAddOfKind
  split
  · exact h
  · exact h
  · split
    · decide
    · exact h
  · split_ifs <;> decide
  · split_ifs <;> decide
  · split_ifs <;> decide

theorem queryAddAsOwner_ne (c : Cylinder) (y : ItemRef) (count : ℕ) (flags : cylinderflags_t)
    (actor : Bool) : s.queryAddAsOwner c y count flags actor ≠ NEEDEXCHANGE := by
  unfold State.queryAddAsOwner
  split
  · unfold State.playerQueryAdd
    rw [if_pos rfl]
    split <;> decide
  · split
    · exact queryAddOfKind_ne s _ _ _ _ _ _ (by decide)
    · decide
  · decide

theorem parentRefuses_ne (y : ItemRef) (flags : cylinderflags_t) (parents : List Cylinder) :
    s.parentRefuses y flags parents ≠ some NEEDEXCHANGE := by
  induction parents with
  | nil => simp [State.parentRefuses]
  | cons cylinder parents ih =>
    unfold State.parentRefuses
    split
    · decide
    split
    · decide
    · exact ih

/-- A container never asks for an exchange. -/
theorem containerQueryAdd_ne (x : ItemRef) (index : ℤ) (y : ItemRef) (count : ℕ)
    (flags : cylinderflags_t) (actor : Bool) :
    s.containerQueryAdd x index y count flags actor ≠ NEEDEXCHANGE := by
  unfold State.containerQueryAdd
  split
  next container _ =>
    apply queryAddOfKind_ne
    unfold State.queryAddToContainer
    split
    · decide
    split
    · decide
    split
    · decide
    split
    · decide
    split
    next ret hparents =>
      intro h
      exact parentRefuses_ne s y flags _ (h ▸ hparents)
    next =>
      split
      · decide
      split
      · split
        · exact queryAddAsOwner_ne s _ _ _ _ _
        · decide
      · decide
  next => decide

variable {s}

/-- A player who holds the item himself takes nothing else in its slot. -/
theorem playerQueryAdd_ne_of_held {p : PlayerRef} {item : ItemRef}
    (hitem : item ∈ s.contents (.player p)) (hplain : s.isStackable item = false)
    (toItem : ItemRef) (count : ℕ) :
    s.playerQueryAdd p (s.playerThingIndex p item) toItem count {} ≠ NOERROR := by
  obtain ⟨slot, hslot, hindex, hinventory⟩ := s.playerThingIndex_spec hitem
  have hbounds := State.mem_slots.mp hslot
  have hheld : s.getInventoryItem p slot = some item := by
    rw [State.getInventoryItem, if_pos (by omega)]
    exact hinventory
  unfold State.playerQueryAdd
  rw [hindex, hheld, if_neg (by simp)]
  simp only [Option.any_some, hplain]
  split
  · decide
  split
  next => simp
  next hdressed =>
    intro heq
    exact hdressed (Or.inl heq)

end Answers

/-! ## The two halves -/

section Halves

variable {s : State} {fromCylinder : Cylinder} {d : Destination} {item : ItemRef} {count : ℕ}
  {actor : Bool} {toItem : Option ItemRef}

/-- The first half either leaves the state or carries out the exchange. -/
theorem ask_cases {ret : ReturnValue} {t : State}
    (hne : d.destItem ≠ some item)
    (h : ask s fromCylinder d item count actor = some (ret, t, toItem)) :
    (t = s ∧ toItem = d.destItem) ∨
      ∃ x, Exchanges s fromCylinder d item count actor x ∧ t = exchange s fromCylinder d x ∧
        toItem = none ∧
        ret = t.queryAdd d.cylinder d.index item count d.flags false := by
  unfold ask at h
  simp only at h
  split at h
  next =>
    obtain ⟨-, hrest⟩ := Prod.mk.inj (Option.some.inj h)
    obtain ⟨ht, hitem⟩ := Prod.mk.inj hrest
    exact Or.inl ⟨ht.symm, hitem.symm⟩
  next hneed =>
    obtain ⟨x, hx, hanswer⟩ := Option.map_eq_some_iff.mp h
    split at hanswer
    next =>
      obtain ⟨-, hrest⟩ := Prod.mk.inj hanswer
      obtain ⟨ht, hitem⟩ := Prod.mk.inj hrest
      exact Or.inl ⟨ht.symm, hitem.symm⟩
    next hsource =>
      split at hanswer
      next hremove =>
        obtain ⟨hret, hrest⟩ := Prod.mk.inj hanswer
        obtain ⟨ht, hitem⟩ := Prod.mk.inj hrest
        have hother : x ≠ item := fun heq => hne (heq ▸ hx)
        refine Or.inr ⟨x, ⟨hx, hother, not_not.mp hneed, not_not.mp hsource, hremove⟩,
          ht.symm, hitem.symm, ?_⟩
        rw [← ht, hret]
      next =>
        obtain ⟨-, hrest⟩ := Prod.mk.inj hanswer
        obtain ⟨ht, hitem⟩ := Prod.mk.inj hrest
        exact Or.inl ⟨ht.symm, hitem.symm⟩

theorem ask_of_exchanges {x : ItemRef} (h : Exchanges s fromCylinder d item count actor x) :
    ask s fromCylinder d item count actor =
      some ((exchange s fromCylinder d x).queryAdd d.cylinder d.index item count d.flags false,
        exchange s fromCylinder d x, none) := by
  obtain ⟨hx, -, hneed, hsource, hremove⟩ := h
  unfold ask
  simp only [hneed, hx, Option.map_some, hsource, hremove]
  simp

/-- A second half that is refused has changed nothing, for an item that moves whole. -/
theorem moveAccepted_refused (hplain : s.isStackable item = false) {tradeItem : Option ItemRef}
    {r : MoveResult}
    (h : moveAccepted s fromCylinder d item toItem count tradeItem = some r)
    (hret : r.ret ≠ NOERROR) : r.state = s := by
  unfold moveAccepted at h
  simp only [hplain, Bool.false_eq_true, if_false, false_and] at h
  split at h
  next => rw [← Option.some.inj h]
  next =>
    split at h
    next => rw [← Option.some.inj h]
    next =>
      split at h
      next => rw [← Option.some.inj h]
      next =>
        obtain ⟨moved, _, hmoved⟩ := Option.map_eq_some_iff.mp h
        rw [← hmoved] at hret
        exact absurd rfl hret

end Halves

/-! ## After the exchange -/

section After

variable {s : State} {fromCylinder : Cylinder} {d : Destination} {item : ItemRef} {count : ℕ}
  {actor : Bool} {toItem : ItemRef}

variable (s fromCylinder d toItem) in
/-- The places after the exchange are those after its two operations. -/
theorem exchange_places :
    SamePlaces ((s.removeThing d.cylinder toItem (s.getItemCount toItem)).addThingAnywhere
      fromCylinder toItem) (exchange s fromCylinder d toItem) := by
  have hnotify : ∀ (u : State) (c : Cylinder) (b : Prop) [Decidable b],
      SamePlaces u (if b then u.postNotification c else u) := by
    intro u c b _
    split
    · exact u.samePlaces_postNotification c
    · exact SamePlaces.refl u
  unfold exchange
  exact (hnotify _ _ _).trans (hnotify _ _ _)

/-- The item in the way has left the destination. -/
theorem not_mem_exchange (hs : WellFormed s) (hheld : d.Held s)
    (hdest : d.destItem = some toItem) (hne : fromCylinder ≠ d.cylinder) :
    toItem ∉ (exchange s fromCylinder d toItem).contents d.cylinder := by
  have hmem := hheld.mem hdest
  have hremove := State.adds_removeThing hs.toLayered hmem
    (fun h => h.2 rfl : ¬ s.removesPart toItem (s.getItemCount toItem))
  rw [(exchange_places s fromCylinder d toItem).contents, State.contents_addThingAnywhere_of_ne _ (Ne.symm hne)]
  exact hs.toSingle.not_mem_of_adds hremove d.cylinder

theorem not_samePlaces_exchange (hs : WellFormed s) (hheld : d.Held s)
    (hdest : d.destItem = some toItem) (hne : fromCylinder ≠ d.cylinder) :
    ¬ SamePlaces s (exchange s fromCylinder d toItem) := by
  intro hsame
  have hmem := hheld.mem hdest
  rw [← hsame.contents] at hmem
  exact not_mem_exchange hs hheld hdest hne hmem

/-- An item that moves whole has no part in an exchange out of an inventory. -/
theorem fromCylinder_ne_player (hitem : item ∈ s.contents fromCylinder)
    (hplain : s.isStackable item = false)
    (h : Exchanges s fromCylinder d item count actor toItem) (p : PlayerRef) :
    fromCylinder ≠ .player p := by
  rintro rfl
  have hsource := h.2.2.2.1
  unfold sourceAnswer at hsource
  simp only at hsource
  split at hsource
  next hrefuse => exact hrefuse hsource
  next haccept =>
    exact playerQueryAdd_ne_of_held hitem hplain toItem _ (not_not.mp haccept)

theorem destination_ne_container (h : Exchanges s fromCylinder d item count actor toItem)
    (x : ItemRef) : d.cylinder ≠ .container x := by
  intro hc
  have hneed := h.2.2.1
  rw [hc] at hneed
  exact containerQueryAdd_ne s _ _ _ _ _ _ hneed

end After

/-! ## Back on the same tile -/

section SameTile

variable {s : State}

theorem SamePlaces.setDownItems {s s' : State} (h : SamePlaces s s') (t : Position)
    (items : List ItemRef) : SamePlaces (s.setDownItems t items) (s'.setDownItems t items) where
  items := h.items
  cylinders := h.cylinders
  fresh := h.fresh
  ground t' := by
    by_cases ht : t' = t
    · subst ht
      simpa [State.setDownItems, State.modifyTile] using h.ground t'
    · simpa [State.setDownItems, State.modifyTile, ht] using h.ground t'
  downItems t' := by
    by_cases ht : t' = t
    · subst ht
      simp [State.setDownItems, State.modifyTile]
    · simpa [State.setDownItems, State.modifyTile, ht] using h.downItems t'
  topItems t' := by
    by_cases ht : t' = t
    · subst ht
      simpa [State.setDownItems, State.modifyTile] using h.topItems t'
    · simpa [State.setDownItems, State.modifyTile, ht] using h.topItems t'
  inventory := h.inventory
  id := h.id
  count := h.count
  attributes := h.attributes
  shape := h.shape

theorem downItems_setDownItems (t : Position) (items : List ItemRef) :
    ((s.setDownItems t items).tile t).downItems = items := by
  simp [State.setDownItems, State.modifyTile]

theorem setDownItems_twice (t : Position) (items items' : List ItemRef) :
    (s.setDownItems t items).setDownItems t items' = s.setDownItems t items' := by
  simp [State.setDownItems, State.modifyTile]

theorem setDownItems_self {t : Position} {items : List ItemRef}
    (h : (s.tile t).downItems = items) : s.setDownItems t items = s := by
  subst h
  simp [State.setDownItems, State.modifyTile]

/-- An item is taken out of the down items. -/
theorem tileRemoveThing_down {t : Position} {y : ItemRef} (count : ℕ)
    (hground : (s.tile t).ground ≠ some y) (htop : (s.typeOf y).alwaysOnTop = false)
    (hdown : y ∈ (s.tile t).downItems) (hwhole : ¬ s.removesPart y count) :
    SamePlaces (s.setDownItems t ((s.tile t).downItems.erase y)) (s.tileRemoveThing t y count) := by
  have hindex : s.tileThingIndex t y ≠ -1 := by
    unfold State.tileThingIndex
    simp only
    rw [if_neg hground, if_neg (by simp [htop]), if_pos hdown]
    split <;> omega
  unfold State.tileRemoveThing
  rw [if_neg hindex, if_neg hground, if_neg (by simp [htop]), if_neg (not_not.mpr hdown)]
  unfold State.removesPart at hwhole
  rw [if_neg hwhole]
  exact (SamePlaces.setDownItems (s.samePlaces_setParent y none) t _).trans
    (State.samePlaces_resetTileFlags _ _ _)

/-- A down item of a well-formed state is neither ground nor on top. -/
theorem down_plain (hs : WellFormed s) {t : Position} {y : ItemRef}
    (hdown : y ∈ (s.tile t).downItems) :
    (s.tile t).ground ≠ some y ∧ (s.typeOf y).alwaysOnTop = false ∧
      (s.typeOf y).isGroundTile = false := by
  obtain ⟨htop, hgroundTile⟩ := hs.down t y hdown
  refine ⟨?_, htop, hgroundTile⟩
  intro hground
  rw [hs.ground t y hground] at hgroundTile
  exact Bool.noConfusion hgroundTile

theorem down_nodup (hs : WellFormed s) (t : Position) : (s.tile t).downItems.Nodup := by
  have hnodup := hs.nodup (.tile t)
  unfold State.contents at hnodup
  exact (hnodup.of_append_left).of_append_right

/-- A field among the down items is released. -/
theorem release_down (hs : WellFormed s) {v : State} {t : Position} {rest : List ItemRef}
    (hv : SamePlaces (s.setDownItems t rest) v) {old : ItemRef}
    (hdown : old ∈ (s.tile t).downItems) (hfield : (s.typeOf old).isMagicField = true)
    (hrest : old ∈ rest) :
    ((v.release t old).tile t).downItems = (v.tile t).downItems.erase old := by
  obtain ⟨hground, htop, -⟩ := down_plain hs hdown
  have htype : v.typeOf old = s.typeOf old := hv.typeOf old
  have hvground : (v.tile t).ground ≠ some old := by
    rw [hv.ground]
    simpa [State.setDownItems, State.modifyTile] using hground
  have hvdown : old ∈ (v.tile t).downItems := by
    rw [hv.downItems, downItems_setDownItems]
    exact hrest
  have hwhole : ¬ v.removesPart old 1 := by
    intro hpart
    have hplain := (v.stackable_plain hpart.1).2.2.2
    rw [htype, hfield] at hplain
    exact Bool.noConfusion hplain
  have hremove := tileRemoveThing_down _ hvground (htype ▸ htop) hvdown hwhole
  unfold State.release
  rw [(State.samePlaces_setParent _ _ _).downItems, hremove.downItems, downItems_setDownItems]

/-- Taking up the first of the down items and laying it down again: everything is as
before unless another field gives way to it. -/
theorem relay_iff (hs : WellFormed s) {t : Position} {y : ItemRef} {rest : List ItemRef}
    (hdown : (s.tile t).downItems = y :: rest) (hlength : (s.tileItems t).length < 65535) :
    SamePlaces s ((s.tileRemoveThing t y (s.getItemCount y)).tileAddThing t y) ↔
      ¬ ((s.typeOf y).isMagicField = true ∧
        ∃ z ∈ (s.tile t).downItems, z ≠ y ∧ (s.typeOf z).isMagicField = true) := by
  have hy : y ∈ (s.tile t).downItems := by
    rw [hdown]
    exact List.mem_cons_self
  obtain ⟨hground, htop, hgroundTile⟩ := down_plain hs hy
  have hremove := tileRemoveThing_down (s.getItemCount y) hground htop hy fun h => h.2 rfl
  have herase : (s.tile t).downItems.erase y = rest := by
    rw [hdown]
    exact List.erase_cons_head y rest
  rw [herase] at hremove
  generalize hu : s.tileRemoveThing t y (s.getItemCount y) = u at *
  have hparent : SamePlaces (s.setDownItems t rest) (u.setParent y (some (.tile t))) :=
    hremove.trans (u.samePlaces_setParent y (some (.tile t)))
  generalize hv : u.setParent y (some (.tile t)) = v at *
  have hvdown : (v.tile t).downItems = rest := by
    rw [hparent.downItems, downItems_setDownItems]
  have htype : ∀ z, v.typeOf z = s.typeOf z := fun z => hparent.typeOf z
  have hput : SamePlaces s ((v.setDownItems t (y :: rest)).setTileFlags t y) := by
    have hback := SamePlaces.setDownItems hparent t (y :: rest)
    rw [setDownItems_twice, setDownItems_self hdown] at hback
    exact hback.trans (State.samePlaces_setTileFlags _ _ _)
  have hadd : u.tileAddThing t y = v.addDownItem t y := by
    have hfits : ¬ (u.tileItems t).length ≥ 65535 := by
      have hlist : u.tileItems t = rest ++ (s.tile t).topItems := by
        unfold State.tileItems
        rw [hremove.downItems, hremove.topItems, downItems_setDownItems]
        simp [State.setDownItems, State.modifyTile]
      unfold State.tileItems at hlength
      rw [hdown] at hlength
      rw [hlist]
      simp only [List.length_append, List.length_cons] at hlength ⊢
      omega
    unfold State.tileAddThing
    rw [if_neg hfits, hv]
    simp [htype, hgroundTile, htop]
  rw [hadd]
  unfold State.addDownItem
  simp only [htype]
  by_cases hfield : (s.typeOf y).isMagicField = true
  · rw [if_pos hfield]
    cases hold : v.oldField t with
    | none =>
      refine iff_of_true (hvdown ▸ hput) fun hother => ?_
      obtain ⟨z, hz, hne, hzfield⟩ := hother.2
      rw [hdown] at hz
      have hrest : z ∈ (v.tile t).downItems :=
        hvdown ▸ (List.mem_cons.mp hz).resolve_left hne
      have hno := List.find?_eq_none.mp hold z hrest
      rw [htype] at hno
      exact hno hzfield
    | some old =>
      have hmem : old ∈ rest := hvdown ▸ List.mem_of_find?_eq_some hold
      have hmemDown : old ∈ (s.tile t).downItems := by
        rw [hdown]
        exact List.mem_cons_of_mem y hmem
      have holdField : (s.typeOf old).isMagicField = true := by
        have hfound := List.find?_some hold
        rwa [htype] at hfound
      have hne : old ≠ y := by
        rintro rfl
        exact (List.nodup_cons.mp (hdown ▸ down_nodup hs t)).1 hmem
      refine iff_of_false ?_ fun h => h ⟨hfield, old, hmemDown, hne, holdField⟩
      intro hsame
      have hlist := hsame.downItems t
      rw [hdown] at hlist
      have hlong := congrArg List.length hlist
      simp only at hlong
      split at hlong
      · rw [(State.samePlaces_setTileFlags _ _ _).downItems, downItems_setDownItems,
          release_down hs hparent hmemDown holdField hmem] at hlong
        simp only [List.length_cons, List.length_erase_of_mem (hvdown ▸ hmem)] at hlong
        have hpos := List.length_pos_of_mem hmem
        rw [hvdown] at hlong
        omega
      · rw [(v.samePlaces_setParent y none).downItems, hvdown] at hlong
        simp at hlong
  · rw [if_neg hfield]
    exact iff_of_true (hvdown ▸ hput) fun hother => hfield hother.1

end SameTile

/-! ## The room after the exchange -/

section Room

variable {s : State} {fromCylinder : Cylinder} {d : Destination} {item : ItemRef} {count : ℕ}
  {actor : Bool} {toItem : ItemRef}

theorem queryRemove_plain {c : Cylinder} {flags : cylinderflags_t} {m : ℕ}
    (hplain : s.isStackable item = false) (hm : m ≠ 0) :
    s.queryRemove c item m flags = s.queryRemove c item 1 flags := by
  unfold State.queryRemove State.queryRemoveAt
  simp [hplain, hm]

theorem playerQueryAdd_owner {p : PlayerRef} {index : ℤ} {flags : cylinderflags_t}
    (h : s.playerQueryAdd p index item count flags = NEEDEXCHANGE) :
    flags.FLAG_CHILDISOWNER = false := by
  by_contra howner
  unfold State.playerQueryAdd at h
  rw [if_pos (by simpa using howner)] at h
  split at h <;> cases h

/-- The slot of an item that moves whole is empty when the player takes it. -/
theorem playerQueryAdd_empty {p : PlayerRef} {index : ℤ} {flags : cylinderflags_t}
    (hplain : s.isStackable item = false) (howner : flags.FLAG_CHILDISOWNER = false)
    (h : s.playerQueryAdd p index item count flags = NOERROR) :
    s.getInventoryItem p index = none := by
  cases hslot : s.getInventoryItem p index with
  | none => rfl
  | some z =>
    have hother : (!s.isStackable z || (s.item z).id ≠ (s.item item).id) = true := by
      by_cases hid : (s.item z).id = (s.item item).id
      · have hz : s.isStackable z = false := by
          unfold State.isStackable State.typeOf at hplain ⊢
          rw [hid]
          exact hplain
        simp [hz]
      · simp [hid]
    unfold State.playerQueryAdd at h
    rw [hslot, if_neg (by simp [howner])] at h
    simp only [Option.any_some, hother, if_true] at h
    split at h
    · cases h
    split at h
    · cases h
    next hdressed => exact absurd (Or.inl h) hdressed

variable (fromCylinder) in
theorem isStackable_exchange (hs : WellFormed s) (hheld : d.Held s)
    (hdest : d.destItem = some toItem) (y : ItemRef) :
    (exchange s fromCylinder d toItem).isStackable y = s.isStackable y := by
  have hremove := State.adds_removeThing hs.toLayered (hheld.mem hdest)
    (fun h => h.2 rfl : ¬ s.removesPart toItem (s.getItemCount toItem))
  have htype : (exchange s fromCylinder d toItem).typeOf y = s.typeOf y := by
    rw [(exchange_places s fromCylinder d toItem).typeOf, State.typeOf_addThingAnywhere]
    exact (hremove.toSameItems.symm).typeOf y
  unfold State.isStackable
  rw [htype]

/-- There is room where the destination has agreed after an exchange. -/
theorem room_after (hs : WellFormed s) (hheld : d.Held s) (hplain : s.isStackable item = false)
    (h : Exchanges s fromCylinder d item count actor toItem)
    (hagree : (exchange s fromCylinder d toItem).queryAdd d.cylinder d.index item count d.flags
      false = NOERROR) :
    ∃ m ≠ 0, (exchange s fromCylinder d toItem).queryMaxCount d.cylinder d.index item count
      d.flags = (NOERROR, m) := by
  have hplain' := (isStackable_exchange fromCylinder hs hheld h.1 item).trans
    hplain
  generalize exchange s fromCylinder d toItem = t at hagree hplain' ⊢
  cases hc : d.cylinder with
  | player p =>
    have hneed := h.2.2.1
    have hslot := hheld toItem h.1
    simp only [hc, State.getInventoryItem] at hslot hneed hagree
    have howner := playerQueryAdd_owner hneed
    have hempty := playerQueryAdd_empty hplain' howner hagree
    have hindex : d.index ≠ INDEX_WHEREEVER := by
      intro heq
      rw [heq] at hslot
      simp [INDEX_WHEREEVER] at hslot
    refine ⟨1, by decide, ?_⟩
    have hquery : t.playerQueryAdd p d.index item count d.flags = NOERROR := hagree
    simp [State.queryMaxCount, State.playerQueryMaxCount, hindex, hempty, hquery, hplain']
  | container x => exact absurd hc (destination_ne_container h x)
  | tile t' => exact ⟨max 1 count, by omega, rfl⟩

theorem insideTradeItem_after (t : State)
    (h : Exchanges s fromCylinder d item count actor toItem) (tradeItem : Option ItemRef) :
    insideTradeItem t d tradeItem = false := by
  cases tradeItem with
  | none => rfl
  | some x =>
    cases hc : d.cylinder with
    | player p =>
      cases htile : (t.player p).tile with
      | none =>
        simp [insideTradeItem, hc, State.parents, State.depth, State.parentsLoop,
          State.getParent, htile]
      | some pos =>
        simp [insideTradeItem, hc, State.parents, State.depth, State.parentsLoop,
          State.getParent, htile]
    | container y => exact absurd hc (destination_ne_container h y)
    | tile pos =>
      simp [insideTradeItem, hc, State.parents, State.depth, State.parentsLoop,
        State.getParent]

/-- The second half after an exchange: only the source can still refuse. -/
theorem moveAccepted_after (hs : WellFormed s) (hheld : d.Held s)
    (hplain : s.isStackable item = false)
    (h : Exchanges s fromCylinder d item count actor toItem)
    (hagree : (exchange s fromCylinder d toItem).queryAdd d.cylinder d.index item count d.flags
      false = NOERROR) (tradeItem : Option ItemRef) :
    let t := exchange s fromCylinder d toItem
    (t.queryRemove fromCylinder item 1 d.flags = NOERROR → ∀ r,
      moveAccepted t fromCylinder d item none count tradeItem = some r → r.ret = NOERROR) ∧
    (t.queryRemove fromCylinder item 1 d.flags ≠ NOERROR →
      moveAccepted t fromCylinder d item none count tradeItem =
        some { ret := t.queryRemove fromCylinder item 1 d.flags, state := t }) := by
  intro t
  obtain ⟨m, hm, hroom⟩ := room_after hs hheld hplain h hagree
  have hplain' : t.isStackable item = false :=
    (isStackable_exchange fromCylinder hs hheld h.1 item).trans hplain
  have hroom' : t.queryMaxCount d.cylinder d.index item count d.flags = (NOERROR, m) := hroom
  have htrade := insideTradeItem_after t h tradeItem
  unfold moveAccepted
  simp only [hroom', hplain', htrade, queryRemove_plain hplain' hm, Bool.false_eq_true, if_false,
    false_and, ne_eq, not_true_eq_false]
  constructor
  · intro hremove r hr
    rw [if_neg (not_not.mpr hremove)] at hr
    obtain ⟨moved, -, hmoved⟩ := Option.map_eq_some_iff.mp hr
    rw [← hmoved]
  · intro hremove
    rw [if_pos hremove]

end Room

/-! ## When a refused move has changed nothing -/

section Refused

variable {s : State} {fromCylinder toCylinder : Cylinder} {index : ℤ} {item : ItemRef}
  {count : ℕ} {flags : cylinderflags_t} {actor : Bool} {tradeItem : Option ItemRef}

theorem held_destination (s : State) (toCylinder : Cylinder) (index : ℤ) (item : ItemRef)
    (flags : cylinderflags_t) : (destination s toCylinder index item flags).Held s := by
  have hloop : ∀ n (d : Destination), d.Held s → (destinationLoop s item n d).Held s := by
    intro n
    induction n with
    | zero => exact fun d hd => hd
    | succ n ih =>
      intro d hd
      have hsub := s.held_queryDestination hd item
      unfold destinationLoop
      simp only
      split
      · exact hsub
      · exact ih _ hsub
  exact hloop _ _ (s.held_none toCylinder index flags)

/-- The places after an exchange are those before it exactly when it was on one tile and
moved no second field. -/
theorem samePlaces_exchange_iff (hs : WellFormed s) {d : Destination} {toItem : ItemRef}
    (hheld : d.Held s) (hitem : item ∈ s.contents fromCylinder)
    (hplain : s.isStackable item = false)
    (h : Exchanges s fromCylinder d item count actor toItem) :
    SamePlaces s (exchange s fromCylinder d toItem) ↔ ReturnsToPlace s fromCylinder d toItem := by
  by_cases hne : fromCylinder = d.cylinder
  · cases hc : d.cylinder with
    | player p => exact absurd (hne.trans hc) (fromCylinder_ne_player hitem hplain h p)
    | container x => exact absurd hc (destination_ne_container h x)
    | tile t =>
      have hhead := hheld toItem h.1
      have hneed := h.2.2.1
      simp only [hc] at hhead hneed
      obtain ⟨rest, hdown⟩ := List.head?_eq_some_iff.mp hhead
      have hlength : (s.tileItems t).length < 65535 := by
        by_contra hlong
        simp only [State.queryAdd, State.tileQueryAdd] at hneed
        rw [if_pos (by omega)] at hneed
        cases hneed
      have hrelay := relay_iff hs hdown hlength
      have hplaces := exchange_places s fromCylinder d toItem
      rw [hne, hc] at hplaces
      have hfrom : fromCylinder = .tile t := hne.trans hc
      constructor
      · intro hsame
        rw [hfrom] at hsame
        exact ⟨t, hfrom, hc, hrelay.mp (hsame.trans hplaces.symm)⟩
      · rintro ⟨t', -, hd', hfields⟩
        have ht : t = t' := Cylinder.tile.inj (hc.symm.trans hd')
        subst ht
        rw [hfrom]
        exact (hrelay.mpr hfields).trans hplaces
  · refine iff_of_false (not_samePlaces_exchange hs hheld h.1 hne) ?_
    rintro ⟨t, hfrom, hd, -⟩
    exact hne (hfrom.trans hd.symm)

/-- A refused move of an item that is no stack has changed nothing, exactly when every
exchange that is carried out returns the item in the way to its place or is agreed to
by both sides once it has left. -/
theorem internalMoveItem_refused_iff (hs : WellFormed s) (hitem : item ∈ s.contents fromCylinder)
    (hplain : s.isStackable item = false) :
    (∀ r, internalMoveItem s fromCylinder toCylinder index item count flags actor tradeItem =
        some r → r.ret ≠ NOERROR → SamePlaces s r.state) ↔
      ∀ toItem,
        Exchanges s fromCylinder (destination s toCylinder index item flags) item count actor
            toItem →
          ReturnsToPlace s fromCylinder (destination s toCylinder index item flags) toItem ∨
            AgreesAfter s fromCylinder (destination s toCylinder index item flags) item count
              toItem := by
  have hheld := held_destination s toCylinder index item flags
  unfold internalMoveItem
  generalize destination s toCylinder index item flags = d at hheld ⊢
  simp only
  constructor
  · intro hsame toItem h
    by_contra hno
    obtain ⟨hreturns, hagrees⟩ := not_or.mp hno
    have hne : d.destItem ≠ some item := by
      rw [h.1]
      exact fun heq => h.2.1 (Option.some.inj heq)
    rw [if_neg hne, ask_of_exchanges h, Option.bind_some] at hsame
    have hchanged := fun hplaces =>
      hreturns ((samePlaces_exchange_iff hs hheld hitem hplain h).mp hplaces)
    by_cases hagree : (exchange s fromCylinder d toItem).queryAdd d.cylinder d.index item count
        d.flags false = NOERROR
    · have hremove : (exchange s fromCylinder d toItem).queryRemove fromCylinder item 1 d.flags ≠
          NOERROR := fun hremove => hagrees ⟨hagree, hremove⟩
      have hresult := (moveAccepted_after hs hheld hplain h hagree tradeItem).2 hremove
      simp only [hagree, ne_eq, not_true_eq_false, if_false] at hsame
      exact hchanged (hsame _ hresult hremove)
    · simp only [ne_eq, hagree, not_false_eq_true, if_true] at hsame
      exact hchanged (hsame _ rfl hagree)
  · intro hcond r hr hret
    split at hr
    · rw [← Option.some.inj hr] at hret
      exact absurd rfl hret
    next hne =>
        obtain ⟨⟨ret, t, toItem'⟩, hask, hrest⟩ := Option.bind_eq_some_iff.mp hr
        simp only at hrest
        rcases ask_cases hne hask with ⟨rfl, -⟩ | ⟨toItem, h, ht, hnone, hretq⟩
        · split at hrest
          · rw [← Option.some.inj hrest]
            exact SamePlaces.refl t
          · rw [moveAccepted_refused hplain hrest hret]
            exact SamePlaces.refl t
        · subst ht
          have hplain' := (isStackable_exchange fromCylinder hs hheld h.1
            item).trans hplain
          have hstate : r.state = exchange s fromCylinder d toItem := by
            split at hrest
            · rw [← Option.some.inj hrest]
            · exact moveAccepted_refused hplain' hrest hret
          rcases hcond toItem h with hreturns | hagrees
          · rw [hstate]
            exact (samePlaces_exchange_iff hs hheld hitem hplain h).mpr hreturns
          · rw [hretq, hagrees.1] at hrest
            simp only [ne_eq, not_true_eq_false, if_false, hnone] at hrest
            have hok := (moveAccepted_after hs hheld hplain h hagrees.1 tradeItem).1 hagrees.2 r
              hrest
            exact absurd hok hret

end Refused

/-! ## An armor that is shed

A player who wears a light armor and may carry 100 puts on an armor of weight 200
from the ground.  The light armor goes to the ground before his capacity is looked at.
-/

def armors : Tables where
  types :=
    [{ id := 4526, group := .ITEM_GROUP_GROUND },
      { id := 2467, pickupable := true, moveable := true, weight := 10,
        slotPosition := { SLOTP_ARMOR := true } },
      { id := 2463, pickupable := true, moveable := true, weight := 200,
        slotPosition := { SLOTP_ARMOR := true } }]
  items :=
    [{ id := 4526, parent := some (.tile {}) }, { id := 2467, parent := some (.player 0) },
      { id := 2463, parent := some (.tile {}) }]
  players :=
    [{ inventory := fun slot => if slot = 4 then some 1 else none, inventoryWeight := 10,
       capacity := 100, tile := some {} }]
  tiles := [({}, { ground := some 0, downItems := [2] })]

theorem armors_wellFormed : WellFormed armors.state := Tables.wellFormed (by decide +kernel)

theorem refused_iff_armors :
    (∀ r, internalMoveItem armors.state (.tile {}) (.player 0) 4 2 1 {} false none = some r →
        r.ret ≠ NOERROR → SamePlaces armors.state r.state) ↔
      ∀ toItem,
        Exchanges armors.state (.tile {}) (destination armors.state (.player 0) 4 2 {}) 2 1 false
            toItem →
          ReturnsToPlace armors.state (.tile {}) (destination armors.state (.player 0) 4 2 {})
              toItem ∨
            AgreesAfter armors.state (.tile {}) (destination armors.state (.player 0) 4 2 {}) 2 1
              toItem :=
  internalMoveItem_refused_iff armors_wellFormed (by decide +kernel) (by decide +kernel)

theorem refused_move_sheds_armor :
    WellFormed armors.state ∧ 2 ∈ armors.state.contents (.tile {}) ∧
      armors.state.isStackable 2 = false ∧
      ∃ r, internalMoveItem armors.state (.tile {}) (.player 0) 4 2 1 {} false none = some r ∧
        r.ret = NOTENOUGHCAPACITY ∧ ¬ SamePlaces armors.state r.state := by
  have hret : (internalMoveItem armors.state (.tile {}) (.player 0) 4 2 1 {} false none).map
      (fun r => (r.ret, (r.state.player 0).inventory 4)) = some (NOTENOUGHCAPACITY, none) := by
    decide +kernel
  obtain ⟨r, hr, hvalue⟩ := Option.map_eq_some_iff.mp hret
  obtain ⟨hrefused, hslot⟩ := Prod.mk.inj hvalue
  refine ⟨armors_wellFormed, by decide +kernel, by decide +kernel, r, hr, hrefused, fun hsame => ?_⟩
  have hworn : (armors.state.player 0).inventory 4 = some 1 := by decide +kernel
  rw [← congrFun (hsame.inventory 0) 4, hslot] at hworn
  cases hworn

end TibiaServer.Game
