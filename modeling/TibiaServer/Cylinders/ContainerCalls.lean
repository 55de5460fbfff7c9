import TibiaServer.Cylinders.ExactWeights
/-!
# Runs of container operations

With the replacement of an item all operations on a container keep the weights exact,
and so does every run of them.
-/

namespace TibiaServer.Cylinders

open TibiaServer.Library
open scoped UInt32.CommRing

namespace State

variable {s t : State} {x y z old : ItemRef} {index : ℕ}

/-! ## The write of a replacement -/

/-- `replaceThing` up to the walk: the old item still names its parent. -/
def placeAt (s : State) (x : ItemRef) (index : ℕ) (y : ItemRef) : State :=
  (s.setItemlist x ((s.itemlist x).set index y)).setParent y (some (.container x))

theorem parent_placeAt (s : State) (x : ItemRef) (index : ℕ) (y z : ItemRef) :
    ((s.placeAt x index y).item z).parent =
      if z = y then some (.container x) else (s.item z).parent := by
  unfold placeAt
  by_cases hz : z = y
  · rw [hz, parent_setParent_self, if_pos rfl]
  · rw [parent_setParent_of_ne hz, parent_setItemlist, if_neg hz]

theorem totalWeight_placeAt (s : State) (x : ItemRef) (index : ℕ) (y : ItemRef) :
    (s.placeAt x index y).totalWeight = s.totalWeight :=
  (totalWeight_setParent _ y _).trans (totalWeight_setItemlist s x _)

theorem sameItems_placeAt (s : State) (x : ItemRef) (index : ℕ) (y : ItemRef) :
    SameItems s (s.placeAt x index y) :=
  (s.sameItems_setItemlist x _).trans (samePlaces_setParent _ y _).sameItems

theorem isOfKind_placeAt (s : State) (x : ItemRef) (index : ℕ) (y z : ItemRef)
    (kind : ContainerKind) : (s.placeAt x index y).isOfKind z kind = s.isOfKind z kind :=
  (isOfKind_setParent _ y _ z kind).trans (isOfKind_setItemlist s x _ z kind)

theorem itemlist_placeAt (hx : s.isContainer x = true) (index : ℕ) (y z : ItemRef) :
    (s.placeAt x index y).itemlist z =
      if z = x then (s.itemlist x).set index y else s.itemlist z := by
  have hparent := samePlaces_setParent (s.setItemlist x ((s.itemlist x).set index y)) y
    (some (.container x))
  rw [placeAt, hparent.itemlist]
  by_cases hz : z = x
  · subst hz
    rw [if_pos rfl]
    exact s.contents_setItemlist_self hx _
  · rw [if_neg hz]
    exact s.contents_setItemlist_of_ne (fun heq => hz (Cylinder.container.inj heq)) _

/-- The old item is the one at the index. -/
theorem exists_of_getItemByIndex (h : s.getItemByIndex x index = some old) :
    ∃ hindex : index < (s.itemlist x).length, (s.itemlist x)[index] = old := by
  simp only [getItemByIndex, Int.natCast_nonneg, if_true, Int.toNat_natCast] at h
  exact List.getElem?_eq_some_iff.mp h

theorem mem_of_getItemByIndex (h : s.getItemByIndex x index = some old) :
    old ∈ s.itemlist x := by
  obtain ⟨hindex, rfl⟩ := exists_of_getItemByIndex h
  exact List.getElem_mem hindex

/-- Without the item at the index, and then with the other one there. -/
theorem replaces_placeAt (h : s.getItemByIndex x index = some old) (y : ItemRef) :
    Replaces s (s.placeAt x index y) (.container x) old y := by
  obtain ⟨hindex, hold⟩ := exists_of_getItemByIndex h
  have hmem : old ∈ s.contents (.container x) := mem_of_getItemByIndex h
  have hx := isContainer_of_mem hmem
  have hsame := s.sameItems_setItemlist x ((s.itemlist x).eraseIdx index)
  have hthen : (s.setItemlist x ((s.itemlist x).eraseIdx index)).itemlist x =
      (s.itemlist x).eraseIdx index := s.contents_setItemlist_self hx _
  refine ⟨s.setItemlist x ((s.itemlist x).eraseIdx index), ?_, ?_⟩
  · exact
      { toSameItems := hsame.symm
        contents := by
          rw [s.contents_setItemlist_self hx]
          exact (hold ▸ (List.getElem_cons_eraseIdx_perm hindex).symm :)
        others := fun c hc => (s.contents_setItemlist_of_ne hc _).symm }
  · refine Adds.then_places ?_ (samePlaces_setParent _ y _)
    exact
      { toSameItems := hsame.symm.trans (s.sameItems_setItemlist x _)
        contents := by
          rw [s.contents_setItemlist_self hx, s.contents_setItemlist_self hx]
          have hset : index < ((s.itemlist x).set index y).length := by
            rwa [List.length_set]
          have hperm := (List.getElem_cons_eraseIdx_perm hset).symm
          rwa [List.getElem_set_self, List.eraseIdx_set_eq] at hperm
        others := fun c hc => by
          rw [s.contents_setItemlist_of_ne hc, s.contents_setItemlist_of_ne hc] }

/-- The place holds the new item in the stead of the old one. -/
theorem lag_placeAt (h : s.getItemByIndex x index = some old) (y z : ItemRef) :
    (s.placeAt x index y).lag z =
      s.lag z - if z = x then -s.getWeight old + s.getWeight y else 0 := by
  obtain ⟨hindex, hold⟩ := exists_of_getItemByIndex h
  have hmem : old ∈ s.contents (.container x) := mem_of_getItemByIndex h
  apply lag_of_sum (totalWeight_placeAt s x index y)
  intro z
  rw [ownWeight_of_sameItems (sameItems_placeAt s x index y), totalWeight_placeAt, ← getWeight_eq,
    itemlist_placeAt (isContainer_of_mem hmem)]
  by_cases hz : z = x
  · have hlength : index < ((s.itemlist x).map s.getWeight).length := by
      rwa [List.length_map]
    rw [if_pos hz, if_pos hz, hz, List.map_set, List.sum_set', dif_pos hlength, List.getElem_map,
      hold]
  · rw [if_neg hz, if_neg hz, add_zero]

/-- The walk from `x` comes neither to the old item nor to the new one. -/
theorem climb_placeAt (hs : Forest s) (hanswers : s.Answers x) (hfits : Weighed.Fits s x y)
    (h : s.getItemByIndex x index = some old) : Climb (s.placeAt x index y) x := by
  have hmem : old ∈ s.contents (.container x) := mem_of_getItemByIndex h
  have hx := isContainer_of_mem hmem
  have hold : s.Inside old x := mem_of_getItemByIndex h
  have hcontainers : ∀ z, (s.placeAt x index y).isContainer z = s.isContainer z :=
    (sameItems_placeAt s x index y).isContainer
  have hup : ∀ z, z ≠ y → (s.placeAt x index y).containerOf z = s.containerOf z := by
    intro z hz
    unfold containerOf
    rw [parent_placeAt, if_neg hz]
  have hnew : (s.placeAt x index y).containerOf y = some x := by
    unfold containerOf
    rw [parent_placeAt, if_pos rfl]
  have hwithin : ∀ {z}, AtOrAbove (s.placeAt x index y).containerOf x z → s.Within x z := by
    intro z hz
    induction hz with
    | refl => exact .refl
    | @tail a b ha hab ih =>
      have hne : a ≠ y := fun heq => hfits.notAbove (heq ▸ ih)
      rw [hup a hne] at hab
      exact ih.tail (hs.inside_iff.mpr hab)
  exact
    { nodup := by
        intro z
        rw [itemlist_placeAt hx]
        split
        · exact (hs.nodup (.container x)).set (hfits.nowhere (.container x))
        · exact hs.nodup (.container z)
      parent := by
        intro z w hw
        by_cases hwy : w = y
        · subst hwy
          rw [itemlist_placeAt hx] at hw
          split at hw
          next hz => rw [hnew, hz]
          next => exact absurd hw (hfits.nowhere (.container z))
        · rw [hup w hwy, ← hs.inside_iff]
          rw [itemlist_placeAt hx] at hw
          split at hw
          next hz =>
            subst hz
            exact (List.mem_or_eq_of_mem_set hw).resolve_right hwy
          next => exact hw
      acyclic := by
        have hacyclic : ∀ a, ¬Relation.TransGen (fun p q => s.containerOf p = some q) a a :=
          fun a ha => hs.acyclic a (hs.above_iff.mp ha)
        apply not_transGen_of_edge (x := x) (y := y) hacyclic
        · exact fun hxy => hfits.notAbove ((atOrAbove_iff hs).mp hxy)
        · intro a b hab
          by_cases ha : a = y
          · subst ha
            rw [hnew] at hab
            exact .inr ⟨rfl, (Option.some.inj hab).symm⟩
          · rw [hup a ha] at hab
            exact .inl hab
      child := by
        intro w z hw hz
        have hon := hwithin hw
        have hne : w ≠ y := fun heq => hfits.notAbove (heq ▸ hon)
        rw [hup w hne] at hz
        have hinside : w ∈ s.itemlist z := hs.inside_iff.mpr hz
        rw [itemlist_placeAt hx]
        split
        next heq =>
          have hwx : s.Inside w x := heq ▸ hinside
          exact absurd (.head' hwx hon) (hs.acyclic w)
        next => exact hinside
      container := by
        intro z hz
        rw [hcontainers]
        rcases Relation.ReflTransGen.cases_tail (hwithin hz) with rfl | ⟨w, -, hw⟩
        · exact hx
        · have hwz : w ∈ s.contents (.container z) := hw
          exact isContainer_of_mem hwz
      answers := by
        intro z hz
        have hon := hwithin hz
        have hne : z ≠ y := fun heq => hfits.notAbove (heq ▸ hon)
        apply getParentContainer_of_answers
        intro hreward
        rw [isOfKind_placeAt] at hreward
        rw [hup z hne]
        by_contra hsome
        obtain ⟨w, hw⟩ := Option.ne_none_iff_exists'.mp hsome
        exact hanswers z w hon hreward (hs.inside_iff.mpr hw)
      bound := by
        intro a b hab
        have hfresh : (s.placeAt x index y).fresh = s.fresh :=
          (sameItems_placeAt s x index y).fresh
        rw [hfresh]
        by_cases ha : a = y
        · subst ha
          rw [hnew] at hab
          exact Option.some.inj hab ▸ hs.object x hx
        · rw [hup a ha, ← hs.inside_iff] at hab
          have hmem' : a ∈ s.contents (.container b) := hab
          exact hs.object b (isContainer_of_mem hmem') }

end State

namespace Weighed

open State

variable {s : State} {x y : ItemRef}

/-- After the walk the old item is let go. -/
theorem swapped (hs : Weighed s) (hfits : Fits s x y) {old : ItemRef} {index : ℕ}
    (hold : s.getItemByIndex x index = some old) {t : State}
    (hplaces : SamePlaces (s.placeAt x index y) t)
    (hparent : ∀ z, (t.item z).parent = ((s.placeAt x index y).item z).parent)
    (hlag : ∀ z, t.lag z = 0) : Weighed (t.setParent old none) := by
  have hlast := t.samePlaces_setParent old none
  have hall := hplaces.trans hlast
  have hmem : old ∈ s.contents (.container x) := mem_of_getItemByIndex hold
  have hne : y ≠ old := fun heq => hfits.nowhere _ (heq ▸ hmem)
  have hswaps : Swaps s (t.setParent old none) (.container x) old y :=
    { replaces := (replaces_placeAt hold y).then_places hall
      loose := fun z => by
        rw [parent_setParent_self]
        exact nofun
      held := by rw [parent_setParent_of_ne hne, hparent, parent_placeAt, if_pos rfl]
      parent := fun z hz hz' => by
        rw [parent_setParent_of_ne hz', hparent, parent_placeAt, if_neg hz] }
  have hlayers : Layered (s.placeAt x index y) :=
    hs.toLayered.of_tiles rfl (sameItems_placeAt s x index y).typeOf
  constructor
  · apply hs.toForest.swaps hswaps (hlayers.of_places hall) hfits.nowhere hfits.old
    intro z hz
    rw [← Cylinder.container.inj hz]
    exact hfits.notAbove
  · rw [exact_iff, lag_setParent]
    exact hlag

theorem containerReplaceThing (hs : Weighed s) (hanswers : s.Answers x) (hfits : Fits s x y)
    (index : ℕ) : Weighed (s.containerReplaceThing x index y) := by
  unfold State.containerReplaceThing
  split
  next => exact hs
  next old hold =>
    have hclimb := climb_placeAt hs.toForest hanswers hfits hold
    have hweight : ∀ z, (s.placeAt x index y).getWeight z = s.getWeight z := by
      intro z
      rw [getWeight_eq, getWeight_eq, ownWeight_of_sameItems (sameItems_placeAt s x index y),
        totalWeight_placeAt]
    have hlag : ∀ z, ((s.placeAt x index y).updateItemWeight x
        (-(s.placeAt x index y).getWeight old + (s.placeAt x index y).getWeight y)).lag z =
          0 := by
      intro z
      rw [lag_updateItemWeight hclimb, lag_placeAt hold, hweight, hweight,
        (exact_iff s).mp hs.exact z]
      abel
    have hwalk := (s.placeAt x index y).samePlaces_updateItemWeight x
      (-(s.placeAt x index y).getWeight old + (s.placeAt x index y).getWeight y)
    dsimp only
    split
    · apply hs.swapped hfits hold (hwalk.trans (samePlaces_closeTrades _ _))
      · exact fun z => parent_updateItemWeight x _ z
      · intro z
        exact (congrFun (lag_closeTrades _ _) z).trans (hlag z)
    · exact hs.swapped hfits hold hwalk (fun z => parent_updateItemWeight x _ z) hlag

end Weighed

/-! ## Runs -/

inductive ContainerCall
  | addThing (x : ItemRef) (index : ℤ) (y : ItemRef)
  | addItemBack (x y : ItemRef)
  | internalAddThing (x y : ItemRef)
  | loadItem (x y : ItemRef)
  | updateThing (x y : ItemRef) (itemId count : ℕ)
  | replaceThing (x : ItemRef) (index : ℕ) (y : ItemRef)
  | removeThing (x y : ItemRef) (count : ℕ)

namespace ContainerCall

open State

def apply (s : State) : ContainerCall → State
  | .addThing x index y => s.containerAddThing x index y
  | .addItemBack x y => s.addItemBack x y
  | .internalAddThing x y => s.containerInternalAddThing x y
  | .loadItem x y => s.loadItem x y
  | .updateThing x y itemId count => s.containerUpdateThing x y itemId count
  | .replaceThing x index y => s.containerReplaceThing x index y
  | .removeThing x y count => s.containerRemoveThing x y count

def step (s : State) (call : ContainerCall) : Option State := some (call.apply s)

/-- The container that is called. -/
def container : ContainerCall → ItemRef
  | .addThing x _ _ | .addItemBack x _ | .internalAddThing x _ | .loadItem x _
  | .updateThing x _ _ _ | .replaceThing x _ _ | .removeThing x _ _ => x

/-- The item that is put in. -/
def newItem : ContainerCall → Option ItemRef
  | .addThing _ _ y | .addItemBack _ y | .internalAddThing _ y | .loadItem _ y
  | .replaceThing _ _ y => some y
  | .updateThing _ _ _ _ | .removeThing _ _ _ => none

/-- The calls under which a tree stays a tree, away from the rewards in a chest. -/
structure Admits (s : State) (call : ContainerCall) : Prop where
  isContainer : s.isContainer call.container = true
  answers : s.Answers call.container
  fits : ∀ y, call.newItem = some y → Weighed.Fits s call.container y

theorem weighed_apply {s : State} (hs : Weighed s) {call : ContainerCall} (h : Admits s call) :
    Weighed (call.apply s) := by
  cases call with
  | addThing x index y => exact hs.containerAddThing h.isContainer h.answers (h.fits y rfl) index
  | addItemBack x y => exact hs.addItemBack h.isContainer h.answers (h.fits y rfl)
  | internalAddThing x y =>
    exact hs.containerInternalAddThing h.isContainer h.answers (h.fits y rfl)
  | loadItem x y => exact hs.loadItem h.isContainer h.answers (h.fits y rfl)
  | updateThing x y itemId count => exact hs.containerUpdateThing h.answers y itemId count
  | replaceThing x index y => exact hs.containerReplaceThing h.answers (h.fits y rfl) index
  | removeThing x y count => exact hs.containerRemoveThing h.answers y count

/-- In every state that a run reaches all containers keep what their items weigh. -/
theorem always_weighed {s : State} (hs : Weighed s) (calls : List ContainerCall)
    (h : Run.EachStep step Admits s calls) : Run.Always step Weighed s calls := by
  apply Run.always_of_eachStep _ calls s hs h
  intro s call t hs hadmits ht
  rw [← Option.some.inj ht]
  exact weighed_apply hs hadmits

/-! ## A bag in a backpack, and a reward in its chest -/

theorem exact_of_objects {s : State} (hs : Forest s)
    (h : ∀ x < s.fresh, ∀ container ∈ (s.item x).container,
      container.totalWeight = (container.itemlist.map s.getWeight).sum) : s.Exact := by
  intro x container hcontainer
  apply h x _ container hcontainer
  apply hs.object
  exact Option.isSome_iff_exists.mpr ⟨container, hcontainer⟩

theorem answers_of_no_reward {s : State} (hs : Forest s) (x : ItemRef)
    (h : ∀ z < s.fresh, s.isOfKind z .Reward = false) : s.Answers x := by
  intro z y _ hreward
  have hz : s.isContainer z = true := by
    unfold State.isOfKind at hreward
    cases hcontainer : (s.item z).container with
    | none => simp [hcontainer] at hreward
    | some container => simp [State.isContainer, hcontainer]
  rw [h z (hs.object z hz)] at hreward
  cases hreward

def coinType : ItemType :=
  { id := 2152, stackable := true, moveable := true, pickupable := true, weight := 10 }

/-- The coins stand nowhere. -/
def backpack : Tables where
  types :=
    [{ id := 1, group := .ITEM_GROUP_GROUND },
      { id := 2, group := .ITEM_GROUP_CONTAINER, type := .ITEM_TYPE_CONTAINER, moveable := true,
        pickupable := true, weight := 800 },
      coinType]
  items :=
    [{ id := 1, parent := some (.tile {}) },
      { id := 2, parent := some (.tile {}),
        container := some { maxSize := 20, itemlist := [2], totalWeight := 800 } },
      { id := 2, parent := some (.container 1), container := some { maxSize := 8 } },
      { id := 2152, count := 100 }]
  tiles := [({}, { ground := some 0, downItems := [1] })]

theorem backpack_weighed : Weighed backpack.state := by
  have hforest : Forest backpack.state :=
    Tables.forest (by decide +kernel) (by decide +kernel) (by decide +kernel) (by decide +kernel)
  exact ⟨hforest, exact_of_objects hforest (by decide +kernel)⟩

/-- Coins go into the bag and some are taken out again. -/
theorem always_weighed_backpack :
    Run.Always step Weighed backpack.state [.addThing 2 0 3, .removeThing 2 3 40] := by
  have hadmits : Admits backpack.state (.addThing 2 0 3) :=
    { isContainer := by decide +kernel
      answers := answers_of_no_reward backpack_weighed.toForest 2 (by decide +kernel)
      fits := by
        intro y hy
        obtain rfl : 3 = y := Option.some.inj hy
        exact
          { nowhere := fun c hc => by
              have hplace : ∀ c ∈ backpack.places, 3 ∉ backpack.state.contents c := by
                decide +kernel
              exact hplace c (Tables.mem_places_of_mem hc) hc
            old := by decide +kernel
            notAbove := Forest.not_within_of_plain (by decide +kernel) (by decide +kernel) } }
  apply always_weighed backpack_weighed
  intro t ht
  refine ⟨hadmits, fun u hu => ⟨?_, trivial⟩⟩
  have hweighed : Weighed t := Option.some.inj ht ▸ weighed_apply backpack_weighed hadmits
  obtain rfl := Option.some.inj ht
  exact
    { isContainer := by decide +kernel
      answers := answers_of_no_reward hweighed.toForest 2 (by decide +kernel)
      fits := nofun }

/-- A reward chest on a tile, a reward in it and coins in the reward. -/
def rewardChest : Tables where
  types :=
    [{ id := 1, group := .ITEM_GROUP_GROUND },
      { id := 2, group := .ITEM_GROUP_CONTAINER, type := .ITEM_TYPE_REWARDCHEST },
      coinType,
      { id := 4, group := .ITEM_GROUP_CONTAINER, type := .ITEM_TYPE_CONTAINER }]
  items :=
    [{ id := 1, parent := some (.tile {}) },
      { id := 2, parent := some (.tile {}),
        container := some
          { kind := .RewardChest, maxSize := 32, itemlist := [2], totalWeight := 1000 } },
      { id := 4, parent := some (.container 1),
        container := some
          { kind := .Reward, maxSize := 32, itemlist := [3], totalWeight := 1000 } },
      { id := 2152, count := 100, parent := some (.container 2) }]
  tiles := [({}, { ground := some 0, downItems := [1] })]

/-- The reward answers for the chest, which keeps the weight of coins that are gone. -/
theorem reward_chest_keeps_weight :
    Weighed rewardChest.state ∧ ¬(rewardChest.state.containerRemoveThing 2 3 100).Exact := by
  have hforest : Forest rewardChest.state :=
    Tables.forest (by decide +kernel) (by decide +kernel) (by decide +kernel) (by decide +kernel)
  have hweights : ((rewardChest.state.containerRemoveThing 2 3 100).item 1).container.map
      (fun container => (container.totalWeight, container.itemlist.map
        (rewardChest.state.containerRemoveThing 2 3 100).getWeight)) = some (1000, [0]) := by
    decide +kernel
  refine ⟨⟨hforest, exact_of_objects hforest (by decide +kernel)⟩, fun hexact => ?_⟩
  obtain ⟨container, hcontainer, heq⟩ := Option.map_eq_some_iff.mp hweights
  have hsum := hexact 1 container hcontainer
  obtain ⟨htotal, hlist⟩ := Prod.mk.inj heq
  rw [htotal, hlist] at hsum
  exact absurd hsum (by decide)

end ContainerCall

end TibiaServer.Cylinders
