import TibiaServer.Cylinders.Forest
/-!
# The walk up the parents

`Container::queryAdd` refuses an item that it finds above the container.  It finds
all that is above where every parent on the way answers for itself; the inbox, the
reward chest and the reward do not walk at all, and a reward in a reward chest does
not name the chest as its parent.
-/

namespace TibiaServer.Cylinders

open TibiaServer.Library
open ReturnValue

namespace State

variable (s : State)

/-- The container that an item stands in. -/
def containerOf (x : ItemRef) : Option ItemRef :=
  match (s.item x).parent with
  | some (.container y) => some y
  | _ => none

def isOfKind (x : ItemRef) (kind : ContainerKind) : Bool :=
  (s.item x).container.any fun container => container.kind = kind

/-- What is asked whether the container takes an item does not look at all that is
above the container. -/
def Blind (x : ItemRef) (flags : cylinderflags_t) : Prop :=
  flags.FLAG_CHILDISOWNER = true ∨ s.isOfKind x .Inbox = true ∨ s.isOfKind x .RewardChest = true ∨
    s.isOfKind x .Reward = true ∨
    ∃ z y, s.Within x z ∧ s.isOfKind z .Reward = true ∧ s.Inside z y

/-- A container that does not look is not asked to take what it stands in. -/
def Sees (c : Cylinder) (flags : cylinderflags_t) (y : ItemRef) : Prop :=
  ∀ x, c = .container x → s.Blind x flags → ¬s.Within x y

variable {s}

theorem containerOf_eq_some {x y : ItemRef} :
    s.containerOf x = some y ↔ (s.item x).parent = some (.container y) := by
  unfold containerOf
  cases (s.item x).parent with
  | none => simp
  | some c => cases c <;> simp

theorem itemParent_of_ne {x : ItemRef} (hx : s.isOfKind x .Reward = false) :
    s.itemParent x = (s.item x).parent := by
  unfold itemParent
  unfold isOfKind at hx
  split
  next hreward => simp [hreward] at hx
  next => rfl

theorem isContainer_of_answer {x y : ItemRef} {index : ℤ} {count : ℕ} {flags : cylinderflags_t}
    {actor : Bool} (h : s.containerQueryAdd x index y count flags actor = NOERROR) :
    s.isContainer x = true := by
  unfold containerQueryAdd at h
  cases hx : (s.item x).container with
  | none => simp [hx] at h
  | some container => simp [isContainer, hx]

variable (s) in
theorem parentRefuses_ne_noerror (y : ItemRef) (flags : cylinderflags_t)
    (parents : List Cylinder) : s.parentRefuses y flags parents ≠ some NOERROR := by
  induction parents with
  | nil => exact nofun
  | cons cylinder parents ih =>
    unfold parentRefuses
    split
    · decide
    split
    · decide
    · exact ih

theorem notMem_of_parentRefuses {y : ItemRef} {flags : cylinderflags_t} {parents : List Cylinder}
    (h : s.parentRefuses y flags parents = none) : .container y ∉ parents := by
  induction parents with
  | nil => exact List.not_mem_nil
  | cons cylinder parents ih =>
    unfold parentRefuses at h
    split at h
    next => cases h
    next hne =>
      split at h
      next => cases h
      next =>
        rw [List.mem_cons, not_or]
        exact ⟨fun heq => hne heq.symm, ih h⟩

end State

namespace Forest

variable {s : State} {x y : ItemRef}

theorem inside_iff (hs : Forest s) : s.Inside x y ↔ s.containerOf x = some y := by
  rw [State.containerOf_eq_some]
  exact ⟨fun h => hs.parent (.container y) x h, fun h => hs.stands y x h⟩

theorem above_iff (hs : Forest s) :
    Above s.containerOf x y ↔ Relation.TransGen s.Inside x y := by
  have hrel : (fun a b => s.containerOf a = some b) = s.Inside := by
    funext a b
    exact propext hs.inside_iff.symm
  unfold Above
  rw [hrel]

/-- With as many steps as there are objects the walk comes to everything above. -/
theorem mem_ancestors (hs : Forest s) (h : Relation.TransGen s.Inside x y) :
    y ∈ ancestors s.containerOf s.depth x := by
  have hacyclic : ∀ z, ¬Above s.containerOf z z := fun z hz => hs.acyclic z (hs.above_iff.mp hz)
  have hnodes : ∀ a b, s.containerOf a = some b → b ∈ Finset.range s.fresh := by
    intro a b hab
    have hmem : a ∈ s.contents (.container b) := hs.inside_iff.mpr hab
    exact Finset.mem_range.mpr (hs.object b (State.isContainer_of_mem hmem))
  apply mem_ancestors_of_above hacyclic hnodes
  · rw [Finset.card_range]
    exact Nat.le_add_right _ _
  · exact hs.above_iff.mpr h

/-- Where no reward in a container is on the way, each step of the walk goes to what
holds the container. -/
theorem mem_parentsLoop (hs : Forest s)
    (hsees : ∀ z y, s.Within x z → s.isOfKind z .Reward = true → ¬s.Inside z y) {n : ℕ}
    (h : y ∈ ancestors s.containerOf n x) : .container y ∈ s.parentsLoop n (.container x) := by
  induction n generalizing x with
  | zero => simp [ancestors] at h
  | succ n ih =>
    cases hup : s.containerOf x with
    | none => simp [ancestors_of_none hup] at h
    | some z =>
      have hinside : s.Inside x z := hs.inside_iff.mpr hup
      have hreward : s.isOfKind x .Reward = false := by
        by_contra hreward
        exact hsees x z .refl (by simpa using hreward) hinside
      have hparent : s.getParent (.container x) = some (.container z) := by
        simp only [State.getParent, State.itemParent_of_ne hreward]
        exact State.containerOf_eq_some.mp hup
      rw [ancestors_of_some hup, List.mem_cons] at h
      simp only [State.parentsLoop, hparent, List.mem_cons]
      rcases h with rfl | h
      · exact .inl rfl
      · refine .inr (ih (fun a b ha => hsees a b (.head hinside ha)) h)

theorem not_within_of_plain (hx : s.isContainer x = true) (hy : s.isContainer y = false) :
    ¬s.Within x y := by
  intro h
  rcases Relation.ReflTransGen.cases_tail h with heq | ⟨z, -, hz⟩
  · rw [heq, hx] at hy
    cases hy
  · have hmem : z ∈ s.contents (.container y) := hz
    rw [State.isContainer_of_mem hmem] at hy
    cases hy

/-- A container that looks takes no item that it stands in. -/
theorem not_within_of_answer (hs : Forest s) {index : ℤ} {count : ℕ} {flags : cylinderflags_t}
    {actor : Bool} (hsees : ¬s.Blind x flags)
    (h : s.containerQueryAdd x index y count flags actor = NOERROR) : ¬s.Within x y := by
  simp only [State.Blind, not_or, not_exists, not_and] at hsees
  obtain ⟨howner, hinbox, hchest, hreward, habove⟩ := hsees
  unfold State.containerQueryAdd at h
  cases hx : (s.item x).container with
  | none => simp [hx] at h
  | some container =>
    simp only [State.isOfKind, hx, Option.any_some, decide_eq_true_eq] at hinbox hchest hreward
    have hasked : s.queryAddToContainer x container index y count flags actor = NOERROR := by
      simp only [hx] at h
      unfold State.queryAddOfKind at h
      split at h
      · exact h
      · exact h
      · split at h
        · cases h
        · exact h
      next hkind => exact absurd hkind hinbox
      next hkind => exact absurd hkind hchest
      next hkind => exact absurd hkind hreward
    unfold State.queryAddToContainer at hasked
    rw [if_neg howner] at hasked
    split at hasked
    · cases hasked
    split at hasked
    · cases hasked
    split at hasked
    · cases hasked
    next hne =>
      split at hasked
      next ret hrefused =>
        rw [hasked] at hrefused
        exact absurd hrefused (s.parentRefuses_ne_noerror y flags _)
      next hfree =>
        intro hwithin
        rcases Relation.ReflTransGen.cases_head hwithin with heq | ⟨z, hz, hrest⟩
        · exact hne heq.symm
        · have hmem := hs.mem_parentsLoop habove (hs.mem_ancestors (.head' hz hrest))
          exact State.notMem_of_parentRefuses hfree hmem

/-- What is asked and takes the item is no container, or one that is not in the item. -/
theorem takes_of_answer (hs : Forest s) {c : Cylinder} {index : ℤ} {count : ℕ}
    {flags : cylinderflags_t} {actor : Bool} (hsees : s.Sees c flags y)
    (h : s.queryAdd c index y count flags actor = NOERROR) :
    ∀ x, c = .container x → s.isContainer x = true ∧ ¬s.Within x y := by
  rintro x rfl
  refine ⟨State.isContainer_of_answer h, ?_⟩
  by_cases hblind : s.Blind x flags
  · exact hsees x rfl hblind
  · exact hs.not_within_of_answer hblind h

end Forest

end TibiaServer.Cylinders
