import TibiaServer.Cylinders.Weights
import TibiaServer.Library.Run
/-!
# Exact weights

Each operation on a container changes what it holds, or what an item of it weighs, and
walks up with the difference: the walk makes good exactly what the change put wrong.
-/

namespace TibiaServer.Cylinders

open TibiaServer.Library
open scoped UInt32.CommRing

namespace State

variable {s t : State} {x y z old : ItemRef}

/-! ## What changes -/

theorem totalWeight_setParent (s : State) (y : ItemRef) (c : Option Cylinder) :
    (s.setParent y c).totalWeight = s.totalWeight := by
  funext z
  unfold totalWeight
  by_cases hz : z = y
  · subst hz
    simp [setParent, modifyItem, setItem]
  · simp [setParent, modifyItem, setItem, hz]

theorem totalWeight_setItemlist (s : State) (x : ItemRef) (itemlist : List ItemRef) :
    (s.setItemlist x itemlist).totalWeight = s.totalWeight := by
  funext z
  unfold totalWeight
  by_cases hz : z = x
  · subst hz
    cases hcontainer : (s.item z).container <;>
      simp [setItemlist, modifyContainer, modifyItem, setItem, hcontainer]
  · simp [setItemlist, modifyContainer, modifyItem, setItem, hz]

theorem isOfKind_setParent (s : State) (y : ItemRef) (c : Option Cylinder) (z : ItemRef)
    (kind : ContainerKind) : (s.setParent y c).isOfKind z kind = s.isOfKind z kind := by
  unfold isOfKind
  by_cases hz : z = y
  · subst hz
    simp [setParent, modifyItem, setItem]
  · simp [setParent, modifyItem, setItem, hz]

theorem isOfKind_setItemlist (s : State) (x : ItemRef) (itemlist : List ItemRef) (z : ItemRef)
    (kind : ContainerKind) : (s.setItemlist x itemlist).isOfKind z kind = s.isOfKind z kind := by
  unfold isOfKind
  by_cases hz : z = x
  · subst hz
    cases hcontainer : (s.item z).container <;>
      simp [setItemlist, modifyContainer, modifyItem, setItem, hcontainer]
  · simp [setItemlist, modifyContainer, modifyItem, setItem, hz]

theorem ownWeight_of_sameItems (h : SameItems s t) : t.ownWeight = s.ownWeight := by
  funext z
  unfold ownWeight getBaseWeight getItemCount Item.hasAttribute Item.getIntAttr
  rw [h.isStackable, h.count, h.attributes, h.typeOf]

/-- A step that changes neither items nor weights. -/
theorem lag_closeTrades (s : State) (hit : PlayerRef → Bool) : (s.closeTrades hit).lag = s.lag :=
  lag_of_places (s.samePlaces_closeTrades hit) rfl

theorem lag_setParent (s : State) (y : ItemRef) (c : Option Cylinder) :
    (s.setParent y c).lag = s.lag :=
  lag_of_places (s.samePlaces_setParent y c) (totalWeight_setParent s y c)

/-- What a container holds is `d` more. -/
theorem lag_of_sum {d : UInt32} (htotal : t.totalWeight = s.totalWeight)
    (hsum : ∀ z, ((t.itemlist z).map (CachedSum.weight t.ownWeight t.totalWeight)).sum =
      ((s.itemlist z).map (CachedSum.weight s.ownWeight s.totalWeight)).sum +
        if z = x then d else 0) (z : ItemRef) :
    t.lag z = s.lag z - if z = x then d else 0 := by
  unfold lag CachedSum.lag
  rw [hsum, htotal]
  abel

theorem lag_of_adds (h : Adds s t (.container x) y) (htotal : t.totalWeight = s.totalWeight)
    (z : ItemRef) : t.lag z = s.lag z - if z = x then s.getWeight y else 0 := by
  apply lag_of_sum htotal
  intro z
  rw [ownWeight_of_sameItems h.toSameItems, htotal, getWeight_eq]
  by_cases hz : z = x
  · subst hz
    have hperm : (t.itemlist z).Perm (y :: s.itemlist z) := h.contents
    rw [if_pos rfl, (hperm.map _).sum_eq, List.map_cons, List.sum_cons]
    abel
  · have hother : t.itemlist z = s.itemlist z :=
      h.others (.container z) fun heq => hz (Cylinder.container.inj heq)
    rw [if_neg hz, hother, add_zero]

/-- An item of the container `x` becomes another one that holds what it held. -/
theorem lag_setItem (hs : Forest s) (hy : y ∈ s.itemlist x) {item : Item}
    (hcontainer : item.container = (s.item y).container) (z : ItemRef) :
    (s.setItem y item).lag z =
      s.lag z - if z = x then (s.setItem y item).getWeight y - s.getWeight y else 0 := by
  have hitem : ∀ w, w ≠ y → (s.setItem y item).item w = s.item w :=
    fun w hw => by simp only [setItem, Function.update_of_ne hw]
  have htotal : (s.setItem y item).totalWeight = s.totalWeight := by
    funext w
    unfold totalWeight
    by_cases hw : w = y
    · subst hw
      simp [setItem, hcontainer]
    · rw [hitem w hw]
  have hlist : ∀ w, (s.setItem y item).itemlist w = s.itemlist w :=
    fun w => s.contents_setItem hcontainer (.container w)
  have hothers : ∀ w, w ≠ y → (s.setItem y item).getWeight w = s.getWeight w := by
    intro w hw
    unfold getWeight isStackable typeOf getBaseWeight getItemCount typeOf
    rw [hitem w hw]
    rfl
  apply lag_of_sum htotal
  intro z
  rw [hlist, ← getWeight_eq, ← getWeight_eq]
  by_cases hz : z = x
  · subst hz
    rw [if_pos rfl]
    apply CachedSum.sum_map_change (hs.nodup (.container z)) hy
    · abel
    · exact fun w _ hw => hothers w hw
  · rw [if_neg hz, add_zero]
    apply CachedSum.sum_map_eq
    intro w hw
    apply hothers
    rintro rfl
    have hwz : w ∈ s.contents (.container z) := hw
    have hwx : w ∈ s.contents (.container x) := hy
    exact hz (Cylinder.container.inj (hs.once _ _ w hwz hwx))

/-! ## A new item in a container -/

/-- The new item stands in `x`, and no weight that is kept has changed yet. -/
structure Grows (s t : State) (x y : ItemRef) : Prop extends Puts s t (.container x) y where
  tile : t.tile = s.tile
  totalWeight : t.totalWeight = s.totalWeight
  kind : ∀ z kind, t.isOfKind z kind = s.isOfKind z kind

theorem grows_addItem (hx : s.isContainer x = true) (y : ItemRef) :
    Grows s (s.addItem x y) x y := by
  have hadds : Adds s (s.setItemlist x (s.itemlist x ++ [y])) (.container x) y :=
    { toSameItems := s.sameItems_setItemlist x _
      contents := by
        rw [s.contents_setItemlist_self hx]
        exact List.perm_append_singleton y _
      others := fun _ hc => s.contents_setItemlist_of_ne hc _ }
  exact
    { toAdds := hadds.then_places (samePlaces_setParent _ _ _)
      held := parent_setParent_self y _
      parent := fun z hz => (parent_setParent_of_ne hz _).trans (parent_setItemlist x _ z)
      tile := rfl
      totalWeight := (totalWeight_setParent _ _ _).trans (totalWeight_setItemlist s x _)
      kind := fun z kind =>
        (isOfKind_setParent _ _ _ z kind).trans (isOfKind_setItemlist s x _ z kind) }

theorem grows_push_front (hx : s.isContainer x = true) (y : ItemRef) :
    Grows s ((s.setParent y (some (.container x))).setItemlist x
      (y :: (s.setParent y (some (.container x))).itemlist x)) x y := by
  have hparent := s.samePlaces_setParent y (some (.container x))
  have hadds := adds_setItemlist_cons (s.setParent y (some (.container x)))
    ((hparent.isContainer x).trans hx) y
  exact
    { toAdds := hadds.of_places hparent
      held := by rw [parent_setItemlist, parent_setParent_self]
      parent := fun z hz => by rw [parent_setItemlist, parent_setParent_of_ne hz]
      tile := rfl
      totalWeight := by rw [totalWeight_setItemlist, totalWeight_setParent]
      kind := fun z kind => by rw [isOfKind_setItemlist, isOfKind_setParent] }

namespace Grows

variable (h : Grows s t x y)

include h

theorem layered (hs : Forest s) : Layered t :=
  hs.toLayered.of_tiles h.tile fun z => h.toSameItems.typeOf z

theorem inside : t.Inside y x := by
  have hmem : y ∈ t.contents (.container x) := h.contents.mem_iff.mpr List.mem_cons_self
  exact hmem

theorem inside_of_ne {a b : ItemRef} (ha : a ≠ y) (hab : t.Inside a b) : s.Inside a b := by
  have hmem : a ∈ t.contents (.container b) := hab
  exact ((Single.mem_cons_of_adds h.toAdds hmem).resolve_left fun heq => ha heq.1 :)

theorem within (ht : Forest t) (hz : t.Within x z) : s.Within x z ∧ z ≠ y := by
  have hnot : ¬t.Within x y := fun hwithin => ht.acyclic y (.head' h.inside hwithin)
  induction hz with
  | refl => exact ⟨.refl, fun heq => hnot (heq ▸ .refl)⟩
  | @tail b c hb hbc ih =>
    have hne : c ≠ y := fun heq => hnot (heq ▸ hb.tail hbc)
    exact ⟨ih.1.tail (h.inside_of_ne ih.2 hbc), hne⟩

/-- The way up from the container is as before. -/
theorem answers (ht : Forest t) (hanswers : s.Answers x) : t.Answers x := by
  intro z w hz hreward hzw
  obtain ⟨hold, hne⟩ := h.within ht hz
  rw [h.kind] at hreward
  exact hanswers z w hold hreward (h.inside_of_ne hne hzw)

/-- The walk up makes the new item good. -/
theorem lag_updateItemWeight (ht : Forest t) (hx : s.isContainer x = true)
    (hanswers : s.Within x z → s.Answers x) :
    (t.updateItemWeight x (t.getWeight y)).lag z = s.lag z := by
  have hweight : t.getWeight y = s.getWeight y := by
    rw [getWeight_eq, getWeight_eq, ownWeight_of_sameItems h.toSameItems, h.totalWeight]
  rw [lag_updateItemWeight_of_answers ht ((h.isContainer x).trans hx)
    (fun hz => h.answers ht (hanswers (h.within ht hz).1)), lag_of_adds h.toAdds h.totalWeight,
    hweight]
  abel

theorem exact_updateItemWeight (hexact : s.Exact) (ht : Forest t)
    (hx : s.isContainer x = true) (hanswers : s.Answers x) :
    (t.updateItemWeight x (t.getWeight y)).Exact := by
  rw [exact_iff] at hexact ⊢
  exact fun z => (h.lag_updateItemWeight ht hx fun _ => hanswers).trans (hexact z)

end Grows

end State

/-- The forest, with exact weights. -/
structure Weighed (s : State) : Prop extends Forest s where
  exact : s.Exact

namespace Weighed

open State

variable {s t : State} {x y z : ItemRef}

theorem closeTrades (hs : Weighed s) (hit : PlayerRef → Bool) : Weighed (s.closeTrades hit) where
  toForest := hs.toForest.same ((s.samePlaces_closeTrades hit).sameHoldings fun _ => rfl)
    (hs.toLayered.of_places (s.samePlaces_closeTrades hit))
  exact := by
    rw [exact_iff, lag_closeTrades, ← exact_iff]
    exact hs.exact

theorem forest_updateItemWeight (hs : Forest s) (x : ItemRef) (diff : UInt32) :
    Forest (s.updateItemWeight x diff) :=
  hs.same ((s.samePlaces_updateItemWeight x diff).sameHoldings fun z => parent_updateItemWeight x
    diff z) (hs.toLayered.of_places (s.samePlaces_updateItemWeight x diff))

/-- What may be put into the container `x`: it stands nowhere, and `x` does not stand in it. -/
structure Fits (s : State) (x y : ItemRef) : Prop where
  nowhere : ∀ c, y ∉ s.contents c
  old : y < s.fresh
  notAbove : ¬s.Within x y

/-! ## The operations -/

theorem grow (hs : Weighed s) (h : Grows s t x y) (hx : s.isContainer x = true)
    (hanswers : s.Answers x) (hfits : Fits s x y) :
    Weighed (t.updateItemWeight x (t.getWeight y)) := by
  have ht : Forest t := by
    apply hs.toForest.puts h.toPuts (h.layered hs.toForest) hfits.nowhere hfits.old
    intro z hz
    rw [← Cylinder.container.inj hz]
    exact hfits.notAbove
  exact ⟨forest_updateItemWeight ht x _, h.exact_updateItemWeight hs.exact ht hx hanswers⟩

theorem containerAddThing (hs : Weighed s) (hx : s.isContainer x = true) (hanswers : s.Answers x)
    (hfits : Fits s x y) (index : ℤ) : Weighed (s.containerAddThing x index y) := by
  unfold State.containerAddThing
  split
  · exact hs
  have hgrown := hs.grow (grows_push_front hx y) hx hanswers hfits
  dsimp only
  split
  · exact hgrown.closeTrades _
  · exact hgrown

theorem addItemBack (hs : Weighed s) (hx : s.isContainer x = true) (hanswers : s.Answers x)
    (hfits : Fits s x y) : Weighed (s.addItemBack x y) := by
  have hgrown := hs.grow (grows_addItem hx y) hx hanswers hfits
  unfold State.addItemBack
  dsimp only
  split
  · exact hgrown.closeTrades _
  · exact hgrown

theorem loadItem (hs : Weighed s) (hx : s.isContainer x = true) (hanswers : s.Answers x)
    (hfits : Fits s x y) : Weighed (s.loadItem x y) :=
  hs.grow (grows_addItem hx y) hx hanswers hfits

theorem containerInternalAddThing (hs : Weighed s) (hx : s.isContainer x = true)
    (hanswers : s.Answers x) (hfits : Fits s x y) : Weighed (s.containerInternalAddThing x y) :=
  hs.grow (grows_push_front hx y) hx hanswers hfits

theorem forest_setItem (hs : Forest s) (hy : y ∈ s.itemlist x) {item : Item}
    (hcontainer : item.container = (s.item y).container)
    (hparent : item.parent = (s.item y).parent) : Forest (s.setItem y item) := by
  have hitem : ∀ z, z ≠ y → (s.setItem y item).item z = s.item z :=
    fun z hz => by simp only [setItem, Function.update_of_ne hz]
  have hparents : ∀ z, ((s.setItem y item).item z).parent = (s.item z).parent := by
    intro z
    by_cases hz : z = y
    · subst hz
      simpa [setItem] using hparent
    · rw [hitem z hz]
  have hsame : SameHoldings s (s.setItem y item) :=
    { contents := s.contents_setItem hcontainer
      parent := fun _ z _ => hparents z
      loose := fun _ z hz => (hparents z).symm.trans hz
      isContainer := s.isContainer_setItem hcontainer
      fresh := rfl }
  -- the item does not stand on a tile
  have htype : ∀ pos, ∀ z ∈ s.contents (.tile pos), (s.setItem y item).typeOf z = s.typeOf z := by
    intro pos z hz
    have hyx : y ∈ s.contents (.container x) := hy
    have hne : z ≠ y := by
      rintro rfl
      cases hs.once _ _ z hz hyx
    unfold typeOf
    rw [hitem z hne]
    rfl
  apply hs.same hsame
  exact
    { ground := fun pos z hz => by
        rw [htype pos z (s.mem_contents_tile.mpr (.inl hz))]
        exact hs.ground pos z hz
      down := fun pos z hz => by
        rw [htype pos z (s.mem_contents_tile.mpr (.inr (.inl hz)))]
        exact hs.down pos z hz
      top := fun pos z hz => by
        rw [htype pos z (s.mem_contents_tile.mpr (.inr (.inr hz)))]
        exact hs.top pos z hz }

theorem answers_setItem {item : Item} (hcontainer : item.container = (s.item y).container)
    (hanswers : s.Answers x) : (s.setItem y item).Answers x := by
  have hinside : (s.setItem y item).Inside = s.Inside := by
    funext a b
    exact congrArg (a ∈ ·) (s.contents_setItem hcontainer (.container b))
  have hkind : ∀ z kind, (s.setItem y item).isOfKind z kind = s.isOfKind z kind := by
    intro z kind
    unfold isOfKind
    by_cases hz : z = y
    · subst hz
      simp [setItem, hcontainer]
    · simp [setItem, hz]
  intro z w hz hreward hzw
  unfold State.Within at hz
  rw [hinside] at hz hzw
  rw [hkind] at hreward
  exact hanswers z w hz hreward hzw

/-- An item of the container `x` weighs something else, and the walk brings it up. -/
theorem lag_change (hs : Forest s) (hy : y ∈ s.itemlist x) (item : Item)
    (hcontainer : item.container = (s.item y).container)
    (hparent : item.parent = (s.item y).parent) (hanswers : s.Within x z → s.Answers x) :
    ((s.setItem y item).updateItemWeight x
      ((s.setItem y item).getWeight y - s.getWeight y)).lag z = s.lag z := by
  have hforest := forest_setItem hs hy hcontainer hparent
  have hmem : y ∈ (s.setItem y item).contents (.container x) := by
    rw [s.contents_setItem hcontainer]
    exact hy
  have hwithin : (s.setItem y item).Within x z ↔ s.Within x z := by
    have hinside : (s.setItem y item).Inside = s.Inside := by
      funext a b
      exact congrArg (a ∈ ·) (s.contents_setItem hcontainer (.container b))
    unfold State.Within
    rw [hinside]
  rw [lag_updateItemWeight_of_answers hforest (isContainer_of_mem hmem)
    (fun hz => answers_setItem hcontainer (hanswers (hwithin.mp hz))), lag_setItem hs hy hcontainer]
  abel

theorem change (hs : Weighed s) (hy : y ∈ s.itemlist x) (hanswers : s.Answers x) (item : Item)
    (hcontainer : item.container = (s.item y).container)
    (hparent : item.parent = (s.item y).parent) :
    Weighed ((s.setItem y item).updateItemWeight x
      ((s.setItem y item).getWeight y - s.getWeight y)) := by
  have hexact := (exact_iff s).mp hs.exact
  refine ⟨forest_updateItemWeight (forest_setItem hs.toForest hy hcontainer hparent) x _, ?_⟩
  rw [exact_iff]
  exact fun z => (lag_change hs.toForest hy item hcontainer hparent fun _ => hanswers).trans
    (hexact z)

theorem containerUpdateThing (hs : Weighed s) (hanswers : s.Answers x) (y : ItemRef)
    (itemId count : ℕ) : Weighed (s.containerUpdateThing x y itemId count) := by
  unfold State.containerUpdateThing
  split
  · exact hs
  next hindex =>
    have hy : y ∈ s.itemlist x := by
      by_contra hy
      exact hindex (containerThingIndex_of_notMem hy)
    have hchanged := hs.change hy hanswers
      (((s.item y).setID s.items itemId).setSubType s.items count)
      (by rw [Item.setSubType_container, Item.setID_container])
      (by rw [Item.setSubType_parent, Item.setID_parent])
    dsimp only
    split
    · exact hchanged.closeTrades _
    · exact hchanged

/-- The item that is taken out is not above its container, so it weighs what it did. -/
theorem getWeight_of_inside (hs : Forest s) (hy : y ∈ s.itemlist x) (diff : UInt32) :
    (s.updateItemWeight x diff).getWeight y = s.getWeight y := by
  have hinside : s.Inside y x := hy
  have hmem : y ∈ s.contents (.container x) := hy
  rw [getWeight_eq, getWeight_eq, ownWeight_of_places (s.samePlaces_updateItemWeight x diff)]
  unfold CachedSum.weight
  rw [totalWeight_updateItemWeight_of_off hs (isContainer_of_mem hmem)]
  exact fun hwithin => hs.acyclic y (.head' hinside hwithin)

theorem lag_erase (hs : Forest s) (hy : y ∈ s.itemlist x)
    (hanswers : s.Within x z → s.Answers x) {t : State}
    (ht : SamePlaces (s.updateItemWeight x (-s.getWeight y)) t)
    (htotal : t.totalWeight = (s.updateItemWeight x (-s.getWeight y)).totalWeight) :
    (t.setItemlist x ((t.itemlist x).erase y)).lag z = s.lag z := by
  have hmem : y ∈ s.contents (.container x) := hy
  have hx := isContainer_of_mem hmem
  have hplaces := (s.samePlaces_updateItemWeight x (-s.getWeight y)).trans ht
  have hadds := t.adds_setItemlist_erase ((hplaces.isContainer x).trans hx)
    (hplaces.itemlist x ▸ hy)
  have hweight : (t.setItemlist x ((t.itemlist x).erase y)).getWeight y = s.getWeight y := by
    rw [← getWeight_of_inside hs hy (-s.getWeight y), getWeight_eq, getWeight_eq,
      ← ownWeight_of_sameItems hadds.toSameItems, totalWeight_setItemlist, htotal,
      ownWeight_of_places ht]
  have hback := lag_of_adds hadds (totalWeight_setItemlist t x _).symm z
  rw [lag_of_places ht htotal, lag_updateItemWeight_of_answers hs hx hanswers, hweight] at hback
  rw [sub_eq_iff_eq_add.mp hback.symm]
  split
  · abel
  · abel

/-! ### What the operations change -/

theorem lag_containerRemoveThing (hs : Forest s) (hanswers : s.Within x z → s.Answers x)
    (y : ItemRef) (count : ℕ) : (s.containerRemoveThing x y count).lag z = s.lag z := by
  unfold State.containerRemoveThing
  split
  · rfl
  next hindex =>
    have hy : y ∈ s.itemlist x := by
      by_contra hy
      exact hindex (containerThingIndex_of_notMem hy)
    split
    · have hchanged := lag_change hs hy ((s.item y).setItemCount (s.remainingCount y count)) rfl
        rfl hanswers
      dsimp only
      split
      · exact (congrFun (lag_closeTrades _ _) z).trans hchanged
      · exact hchanged
    · dsimp only
      split
      · apply lag_erase hs hy hanswers
        · exact (samePlaces_closeTrades _ _).trans (samePlaces_setParent _ _ _)
        · exact totalWeight_setParent _ _ _
      · exact lag_erase hs hy hanswers (samePlaces_setParent _ _ _) (totalWeight_setParent _ _ _)

theorem containerRemoveThing (hs : Weighed s) (hanswers : s.Answers x) (y : ItemRef) (count : ℕ) :
    Weighed (s.containerRemoveThing x y count) where
  toForest := hs.toForest.removeThing (.container x) y count
  exact := by
    have hexact := (exact_iff s).mp hs.exact
    rw [exact_iff]
    exact fun z => (lag_containerRemoveThing hs.toForest (fun _ => hanswers) y count).trans (hexact z)

end Weighed

end TibiaServer.Cylinders
