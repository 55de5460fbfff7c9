import TibiaServer.Cylinders.ParentWalk
import TibiaServer.Library.CachedSum
/-!
# The weights that containers keep

`updateItemWeight` adds a difference to a container and to all containers that it
stands in.  Where every parent on the way answers for itself this is the walk up of a
tree with cached sums.
-/

namespace TibiaServer.Cylinders

open TibiaServer.Library
open scoped UInt32.CommRing

namespace State

section Weights

variable (s : State)

/-- What an item weighs without what it holds. -/
def ownWeight (x : ItemRef) : UInt32 :=
  if s.isStackable x then s.getBaseWeight x * UInt32.ofNat (max 1 (s.getItemCount x))
  else s.getBaseWeight x

def totalWeight (x : ItemRef) : UInt32 := ((s.item x).container.map Container.totalWeight).getD 0

/-- Every container keeps the sum of what its items weigh. -/
def Exact : Prop :=
  ∀ x container, (s.item x).container = some container →
    container.totalWeight = (container.itemlist.map s.getWeight).sum

noncomputable def lag (x : ItemRef) : UInt32 := CachedSum.lag s.itemlist s.ownWeight s.totalWeight x

/-- No reward that stands in a container is the container `x` or above it. -/
def Answers (x : ItemRef) : Prop :=
  ∀ z y, s.Within x z → s.isOfKind z .Reward = true → ¬s.Inside z y

theorem getWeight_eq : s.getWeight = CachedSum.weight s.ownWeight s.totalWeight := by
  funext x
  unfold getWeight CachedSum.weight ownWeight totalWeight
  cases (s.item x).container with
  | none => simp
  | some container => rfl

theorem exact_iff : s.Exact ↔ ∀ x, s.lag x = 0 := by
  have hlag : ∀ x, s.lag x = 0 ↔ s.totalWeight x = ((s.itemlist x).map s.getWeight).sum := by
    intro x
    unfold lag CachedSum.lag
    rw [sub_eq_zero, getWeight_eq]
  constructor
  · intro hexact x
    rw [hlag]
    cases hx : (s.item x).container with
    | none => simp [totalWeight, itemlist, hx]
    | some container => simpa [totalWeight, itemlist, hx] using hexact x container hx
  · intro hall x container hx
    have hsum := (hlag x).mp (hall x)
    simpa [totalWeight, itemlist, hx] using hsum

end Weights

/-! ## The walk up -/

section Climb

variable {s t : State} {x y z : ItemRef}

/-- The walk of `updateItemWeight` from `x` comes to all containers above. -/
structure Climb (s : State) (x : ItemRef) : Prop
    extends CachedSum.Climbs s.itemlist s.containerOf x where
  container : ∀ z, AtOrAbove s.containerOf x z → s.isContainer z = true
  answers : ∀ z, AtOrAbove s.containerOf x z → s.getParentContainer z = s.containerOf z
  bound : ∀ a b, s.containerOf a = some b → b < s.fresh

/-- A write of a weight. -/
def addWeight (s : State) (x : ItemRef) (diff : UInt32) : State :=
  s.modifyContainer x fun container => { container with totalWeight := container.totalWeight + diff }

theorem totalWeight_addWeight (hx : s.isContainer x = true) (diff : UInt32) (z : ItemRef) :
    (s.addWeight x diff).totalWeight z = s.totalWeight z + if z = x then diff else 0 := by
  obtain ⟨container, hcontainer⟩ := Option.isSome_iff_exists.mp hx
  by_cases hz : z = x
  · subst hz
    simp [totalWeight, addWeight, modifyContainer, modifyItem, setItem, hcontainer]
  · simp [totalWeight, addWeight, modifyContainer, modifyItem, setItem, hz]

theorem parent_addWeight (s : State) (x : ItemRef) (diff : UInt32) (z : ItemRef) :
    ((s.addWeight x diff).item z).parent = (s.item z).parent := by
  unfold addWeight modifyContainer
  apply parent_modifyItem
  exact fun _ => rfl

theorem isOfKind_addWeight (s : State) (x : ItemRef) (diff : UInt32) (z : ItemRef)
    (kind : ContainerKind) : (s.addWeight x diff).isOfKind z kind = s.isOfKind z kind := by
  unfold isOfKind
  by_cases hz : z = x
  · subst hz
    cases hcontainer : (s.item z).container <;>
      simp [addWeight, modifyContainer, modifyItem, setItem, hcontainer]
  · simp [addWeight, modifyContainer, modifyItem, setItem, hz]

/-- The parent that an item names, by whether it is a reward. -/
theorem itemParent_eq (s : State) (x : ItemRef) : s.itemParent x =
    if s.isOfKind x .Reward = true then
      match (s.item x).parent with
      | some (.container y) => (s.item y).parent
      | some (.player p) => (s.player p).tile.map .tile
      | _ => none
    else (s.item x).parent := by
  by_cases hreward : s.isOfKind x .Reward = true
  · rw [if_pos hreward]
    unfold isOfKind at hreward
    unfold itemParent
    split
    · rfl
    next hno =>
      cases hcontainer : (s.item x).container with
      | none => simp [hcontainer] at hreward
      | some container =>
        have hkind : container.kind = .Reward := by simpa [hcontainer] using hreward
        obtain ⟨kind, maxSize, unlocked, itemlist, totalWeight, maxDepotItems⟩ := container
        simp only at hkind
        subst hkind
        exact absurd hcontainer (hno _ _ _ _ _)
  · rw [if_neg hreward]
    exact itemParent_of_ne (by simpa using hreward)

theorem getParentContainer_addWeight (s : State) (x : ItemRef) (diff : UInt32) (z : ItemRef) :
    (s.addWeight x diff).getParentContainer z = s.getParentContainer z := by
  unfold getParentContainer
  rw [itemParent_eq, itemParent_eq, isOfKind_addWeight]
  simp only [parent_addWeight]
  rfl

theorem containerOf_addWeight (s : State) (x : ItemRef) (diff : UInt32) :
    (s.addWeight x diff).containerOf = s.containerOf := by
  funext z
  unfold containerOf
  rw [parent_addWeight]

theorem isContainer_addWeight (s : State) (x : ItemRef) (diff : UInt32) (z : ItemRef) :
    (s.addWeight x diff).isContainer z = s.isContainer z :=
  (s.samePlaces_addWeight x diff).isContainer z

theorem updateItemWeightLoop_of_none {diff : UInt32} (n : ℕ)
    (h : (s.addWeight x diff).getParentContainer x = none) :
    updateItemWeightLoop diff (n + 1) s x = s.addWeight x diff := by
  unfold addWeight at h ⊢
  rw [updateItemWeightLoop, h]

theorem updateItemWeightLoop_of_some {diff : UInt32} (n : ℕ)
    (h : (s.addWeight x diff).getParentContainer x = some y) :
    updateItemWeightLoop diff (n + 1) s x = updateItemWeightLoop diff n (s.addWeight x diff) y := by
  unfold addWeight at h ⊢
  rw [updateItemWeightLoop, h]

/-- With `n` more steps the loop adds to the container and to `n` above it. -/
theorem totalWeight_updateItemWeightLoop (diff : UInt32) (n : ℕ)
    (hacyclic : ∀ z, ¬Above s.containerOf z z)
    (hcontainer : ∀ z, AtOrAbove s.containerOf x z → s.isContainer z = true)
    (hanswers : ∀ z, AtOrAbove s.containerOf x z → s.getParentContainer z = s.containerOf z)
    (z : ItemRef) : (updateItemWeightLoop diff (n + 1) s x).totalWeight z =
      s.totalWeight z + if z ∈ x :: ancestors s.containerOf n x then diff else 0 := by
  induction n generalizing s x with
  | zero =>
    have hadd := totalWeight_addWeight (hcontainer x .refl) diff z
    simp only [ancestors, List.mem_singleton]
    rw [← hadd]
    cases hup : (s.addWeight x diff).getParentContainer x with
    | none => rw [updateItemWeightLoop_of_none 0 hup]
    | some y => rw [updateItemWeightLoop_of_some 0 hup, updateItemWeightLoop]
  | succ n ih =>
    have hadd := totalWeight_addWeight (hcontainer x .refl) diff z
    have hparent : (s.addWeight x diff).getParentContainer x = s.containerOf x :=
      (getParentContainer_addWeight s x diff x).trans (hanswers x .refl)
    cases hup : s.containerOf x with
    | none =>
      rw [updateItemWeightLoop_of_none _ (hparent.trans hup), ancestors_of_none hup, hadd]
      simp only [List.mem_singleton]
    | some y =>
      have hnot : x ∉ y :: ancestors s.containerOf n y := by
        rw [← ancestors_of_some hup]
        exact fun hx => hacyclic x (above_of_mem hx)
      rw [updateItemWeightLoop_of_some _ (hparent.trans hup), ih, containerOf_addWeight, hadd,
        ancestors_of_some hup, add_assoc]
      · congr 1
        by_cases hz : z = x
        · subst hz
          rw [if_pos rfl, if_neg hnot, if_pos List.mem_cons_self, add_zero]
        · rw [if_neg hz, zero_add]
          apply if_congr _ rfl rfl
          rw [List.mem_cons (a := z) (b := x)]
          exact (or_iff_right hz).symm
      · rw [containerOf_addWeight]
        exact hacyclic
      · intro w hw
        rw [containerOf_addWeight] at hw
        rw [isContainer_addWeight]
        exact hcontainer w (.head hup hw)
      · intro w hw
        rw [containerOf_addWeight] at hw ⊢
        rw [getParentContainer_addWeight]
        exact hanswers w (.head hup hw)

theorem mem_ancestors_iff (h : Climb s x) :
    z ∈ x :: ancestors s.containerOf (s.fresh + 2) x ↔ AtOrAbove s.containerOf x z := by
  rw [List.mem_cons]
  constructor
  · rintro (rfl | hz)
    · exact .refl
    · exact (above_of_mem hz).to_reflTransGen
  · intro hz
    rcases Relation.ReflTransGen.cases_head hz with heq | ⟨y, hy, hyz⟩
    · exact .inl heq.symm
    · right
      have hnodes : ∀ a b, s.containerOf a = some b → b ∈ Finset.range s.fresh :=
        fun a b hab => Finset.mem_range.mpr (h.bound a b hab)
      apply mem_ancestors_of_above h.acyclic hnodes
      · rw [Finset.card_range]
        exact Nat.le_add_right _ _
      · exact .head' hy hyz

theorem totalWeight_updateItemWeight (h : Climb s x) (diff : UInt32) :
    (s.updateItemWeight x diff).totalWeight =
      CachedSum.addUp s.containerOf x diff s.totalWeight := by
  classical
  funext z
  have hloop := totalWeight_updateItemWeightLoop diff (s.fresh + 2) h.acyclic h.container h.answers z
  unfold CachedSum.addUp
  exact hloop.trans (congrArg _ (if_congr (mem_ancestors_iff h) rfl rfl))

/-! ## What a write to a weight leaves alone -/

theorem ownWeight_of_places (h : SamePlaces s t) : t.ownWeight = s.ownWeight := by
  funext z
  unfold ownWeight getBaseWeight getItemCount Item.hasAttribute Item.getIntAttr
  rw [h.isStackable, h.count, h.attributes, h.typeOf]

theorem itemlist_of_places (h : SamePlaces s t) : t.itemlist = s.itemlist :=
  funext h.itemlist

theorem lag_of_places (h : SamePlaces s t) (htotal : t.totalWeight = s.totalWeight) :
    t.lag = s.lag := by
  funext z
  unfold lag
  rw [ownWeight_of_places h, itemlist_of_places h, htotal]

theorem lag_updateItemWeight (h : Climb s x) (diff : UInt32) (z : ItemRef) :
    (s.updateItemWeight x diff).lag z = s.lag z + if z = x then diff else 0 := by
  have hplaces := s.samePlaces_updateItemWeight x diff
  unfold lag
  rw [ownWeight_of_places hplaces, itemlist_of_places hplaces, totalWeight_updateItemWeight h]
  exact CachedSum.lag_addUp h.toClimbs diff z

end Climb

/-! ## The forest and the walk -/

section Forest

variable {s t : State} {x y z : ItemRef}

theorem atOrAbove_iff (hs : Forest s) : AtOrAbove s.containerOf x z ↔ s.Within x z := by
  have hrel : (fun a b => s.containerOf a = some b) = s.Inside := by
    funext a b
    exact propext hs.inside_iff.symm
  unfold AtOrAbove Within
  rw [hrel]

theorem getParentContainer_of_answers (h : s.isOfKind x .Reward = true → s.containerOf x = none) :
    s.getParentContainer x = s.containerOf x := by
  unfold getParentContainer
  rw [itemParent_eq]
  by_cases hreward : s.isOfKind x .Reward = true
  · rw [if_pos hreward]
    have hnone := h hreward
    unfold containerOf at *
    cases hparent : (s.item x).parent with
    | none => rfl
    | some c =>
      cases c with
      | container y => simp [hparent] at hnone
      | player p => cases htile : (s.player p).tile <;> simp [htile]
      | tile pos => rfl
  · rw [if_neg hreward]
    rfl

theorem climb_of_answers (hs : Forest s) (hx : s.isContainer x = true) (h : s.Answers x) :
    Climb s x where
  nodup z := hs.nodup (.container z)
  parent z y hy := hs.inside_iff.mp hy
  acyclic z hz := hs.acyclic z (hs.above_iff.mp hz)
  child y z _ hyz := hs.inside_iff.mpr hyz
  container z hz := by
    rcases Relation.ReflTransGen.cases_tail hz with rfl | ⟨y, -, hy⟩
    · exact hx
    · have hmem : y ∈ s.contents (.container z) := hs.inside_iff.mpr hy
      exact isContainer_of_mem hmem
  answers z hz := by
    apply getParentContainer_of_answers
    intro hreward
    by_contra hsome
    obtain ⟨y, hy⟩ := Option.ne_none_iff_exists'.mp hsome
    exact h z y ((atOrAbove_iff hs).mp hz) hreward (hs.inside_iff.mpr hy)
  bound a b hab := by
    have hmem : a ∈ s.contents (.container b) := hs.inside_iff.mpr hab
    exact hs.object b (isContainer_of_mem hmem)

/-- The walk goes upwards, if not to the next container. -/
theorem within_of_getParentContainer (hs : Forest s) (h : s.getParentContainer x = some y) :
    s.Within x y := by
  have hinside : ∀ a b, (s.item a).parent = some (.container b) → s.Inside a b :=
    fun a b hab => hs.stands b a hab
  unfold getParentContainer at h
  split at h
  next w hw =>
    obtain rfl := Option.some.inj h
    rw [itemParent_eq] at hw
    split at hw
    · split at hw
      next v hv => exact .head (hinside x v hv) (.single (hinside v w hw))
      next => simp at hw
      next => cases hw
    · exact .single (hinside x w hw)
  next => cases h

theorem forest_addWeight (hs : Forest s) (x : ItemRef) (diff : UInt32) :
    Forest (s.addWeight x diff) :=
  hs.same ((s.samePlaces_addWeight x diff).sameHoldings (parent_addWeight s x diff))
    (hs.toLayered.of_places (s.samePlaces_addWeight x diff))

theorem within_addWeight (x : ItemRef) (diff : UInt32) :
    (s.addWeight x diff).Within = s.Within := by
  have hinside : (s.addWeight x diff).Inside = s.Inside := by
    funext a b
    exact congrArg (a ∈ ·) ((s.samePlaces_addWeight x diff).itemlist b)
  unfold Within
  rw [hinside]

/-- What is not above keeps its weight, whichever way the walk goes. -/
theorem totalWeight_updateItemWeight_of_off (hs : Forest s) (hx : s.isContainer x = true)
    (diff : UInt32) (h : ¬s.Within x z) :
    (s.updateItemWeight x diff).totalWeight z = s.totalWeight z := by
  have hloop : ∀ n (s : State) x, Forest s → s.isContainer x = true → ¬s.Within x z →
      (updateItemWeightLoop diff n s x).totalWeight z = s.totalWeight z := by
    intro n
    induction n with
    | zero => exact fun _ _ _ _ _ => rfl
    | succ n ih =>
      intro s x hs hx h
      have hne : z ≠ x := fun heq => h (heq ▸ .refl)
      have hadd : (s.addWeight x diff).totalWeight z = s.totalWeight z := by
        rw [totalWeight_addWeight hx, if_neg hne, add_zero]
      cases hup : (s.addWeight x diff).getParentContainer x with
      | none => rw [updateItemWeightLoop_of_none n hup, hadd]
      | some y =>
        have hxy : s.Within x y := by
          rw [getParentContainer_addWeight] at hup
          exact within_of_getParentContainer hs hup
        have hy : s.isContainer y = true := by
          rcases Relation.ReflTransGen.cases_tail hxy with heq | ⟨w, -, hw⟩
          · exact heq ▸ hx
          · have hmem : w ∈ s.contents (.container y) := hw
            exact isContainer_of_mem hmem
        rw [updateItemWeightLoop_of_some n hup, ih _ _ (forest_addWeight hs x diff), hadd]
        · rw [isContainer_addWeight]
          exact hy
        · rw [within_addWeight]
          exact fun hyz => h (hxy.trans hyz)
  exact hloop _ s x hs hx h

/-- The walk changes the lag of where it begins; what is above has to answer. -/
theorem lag_updateItemWeight_of_answers (hs : Forest s) (hx : s.isContainer x = true)
    (hanswers : s.Within x z → s.Answers x) (diff : UInt32) :
    (s.updateItemWeight x diff).lag z = s.lag z + if z = x then diff else 0 := by
  by_cases h : s.Within x z
  · exact lag_updateItemWeight (climb_of_answers hs hx (hanswers h)) diff z
  · have hplaces := s.samePlaces_updateItemWeight x diff
    have hoff : ∀ w ∈ s.itemlist z, ¬s.Within x w := fun w hw hxw => h (hxw.tail hw)
    have hne : z ≠ x := fun heq => h (heq ▸ .refl)
    rw [if_neg hne, add_zero]
    unfold lag CachedSum.lag
    rw [ownWeight_of_places hplaces, itemlist_of_places hplaces,
      totalWeight_updateItemWeight_of_off hs hx diff h]
    congr 1
    apply CachedSum.sum_map_eq
    intro w hw
    unfold CachedSum.weight
    rw [totalWeight_updateItemWeight_of_off hs hx diff (hoff w hw)]

end Forest

end State

end TibiaServer.Cylinders
