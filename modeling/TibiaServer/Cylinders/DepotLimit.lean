import TibiaServer.Cylinders.Frames
import TibiaServer.Cylinders.HoldingCount
/-!
# The limit of a depot chest

`DepotChest::queryAdd` compares what the chest holds with its limit.  A container in
the chest asks its top parent only, so the chest is asked where it is the place itself
or nothing is above it.  What an operation lays into the chest and what it takes out
is counted apart from the question.
-/

namespace TibiaServer.Cylinders

open ReturnValue

def Container.depotLimit (container : Container) : Option ℕ :=
  if container.kind = .DepotChest then some container.maxDepotItems else none

namespace State

variable (s : State)

/-- `maxDepotItems` of a depot chest. -/
def depotLimit (x : ItemRef) : Option ℕ := ((s.item x).container.map Container.depotLimit).getD none

/-- No depot chest holds more than its limit. -/
def WithinDepotLimit : Prop :=
  ∀ x limit, s.depotLimit x = some limit → s.getItemHoldingCount x ≤ limit

/-- What stands in the cylinder counts for the container. -/
def reaches (c : Cylinder) (x : ItemRef) : Bool :=
  match c with
  | .container z => z = x || s.isHoldingItem x z
  | _ => false

/-- How much of `n` things that are added at the index counts for the container. -/
def counted (c : Cylinder) (index : ℤ) (n : ℕ) (x : ItemRef) : ℕ :=
  match c with
  | .container z => if s.reaches c x = true ∧ index < s.capacity z then n else 0
  | _ => 0

/-- What no longer counts for the container when so much of the item is removed. -/
def uncounted (c : Cylinder) (y : ItemRef) (count : ℕ) (x : ItemRef) : ℕ :=
  if s.reaches c x = true ∧ ¬s.removesPart y count then s.unitsIn y else 0

/-- The containers whose `queryAdd` asks the top parent. -/
def asksTopParent (x : ItemRef) : Bool :=
  s.isOfKind x .Container || s.isOfKind x .DepotLocker || s.isOfKind x .DepotChest

/-- The chest is asked whether the item may be added, and counts it. -/
def asksDepot (c : Cylinder) (flags : cylinderflags_t) (y : ItemRef) (count : ℕ) (x : ItemRef) :
    Prop :=
  (c = .container x ∨ ∃ z, c = .container z ∧ flags.FLAG_CHILDISOWNER = false ∧
      s.asksTopParent z = true ∧ s.getTopParent z = some (.container x)) ∧
    (s.getTopParent y ≠ some (.container x) ∨ s.isStackable y = true ∧ s.getItemCount y ≠ count)

variable {s} {t : State} {c : Cylinder} {x y : ItemRef}

theorem depotLimit_of_frames (h : SameFrames s t) (x : ItemRef) :
    t.depotLimit x = s.depotLimit x := by
  unfold depotLimit
  rw [h.map_container x Container.depotLimit fun _ => rfl]

theorem capacity_of_frames (h : SameFrames s t) (x : ItemRef) : t.capacity x = s.capacity x := by
  unfold capacity
  rw [h.map_container x Container.maxSize fun _ => rfl]

theorem unitsIn_of_plain (h : s.isContainer y = false) : s.unitsIn y = 1 := by
  have hnothing : s.itemlist y = [] := by
    by_contra hne
    obtain ⟨z, hz⟩ := List.exists_mem_of_ne_nil _ hne
    have hmem : z ∈ s.contents (.container y) := hz
    rw [isContainer_of_mem hmem] at h
    cases h
  have hloop : ∀ n, s.iteratorLoop n [y] = [] := by
    intro n
    cases n with
    | zero => rfl
    | succ n => cases n <;> simp [iteratorLoop, hnothing]
  unfold unitsIn getItemHoldingCount iterator
  rw [hloop]
  rfl

theorem counted_le (c : Cylinder) (index : ℤ) (n : ℕ) (x : ItemRef) :
    s.counted c index n x ≤ n := by
  unfold counted
  cases c with
  | container z =>
    dsimp only
    split
    · exact le_refl n
    · exact Nat.zero_le n
  | player p | tile pos => exact Nat.zero_le n

theorem counted_of_ne (h : ∀ z, c ≠ .container z) (index : ℤ) (n : ℕ) (x : ItemRef) :
    s.counted c index n x = 0 := by
  cases c with
  | container z => exact absurd rfl (h z)
  | player p | tile pos => rfl

/-! ## What the chest is asked -/

/-- What the chest counts when it is asked for the item. -/
def depotCount (y : ItemRef) (x : ItemRef) : ℕ :=
  if s.getTopParent y ≠ some (.container x) then s.unitsIn y else 1

theorem room_of_depotIsFull {container : Container} {count : ℕ} {flags : cylinderflags_t}
    (hflags : flags.FLAG_NOLIMIT = false)
    (hcounts : s.getTopParent y ≠ some (.container x) ∨
      s.isStackable y = true ∧ s.getItemCount y ≠ count)
    (h : s.depotIsFull x container y count flags = false) :
    s.getItemHoldingCount x + s.depotCount y x ≤ container.maxDepotItems := by
  unfold depotIsFull at h
  simp only [hflags, Bool.not_false, true_and, decide_eq_false_iff_not, gt_iff_lt, not_lt] at h
  unfold depotCount
  by_cases htop : s.getTopParent y ≠ some (.container x)
  · rw [if_pos htop] at h ⊢
    by_cases hcontainer : s.isContainer y = true
    · rw [if_pos hcontainer] at h
      exact h
    · rw [if_neg hcontainer] at h
      rw [unitsIn_of_plain (Bool.not_eq_true _ ▸ hcontainer)]
      exact h
  · rw [if_neg htop] at h ⊢
    rwa [if_pos (hcounts.resolve_left htop)] at h

/-- A container that asks its top parent goes by what `Container::queryAdd` answers. -/
theorem queryAddToContainer_of_answer {z : ItemRef} {index : ℤ} {count : ℕ}
    {flags : cylinderflags_t} {actor : Bool} (hasks : s.asksTopParent z = true)
    (h : s.queryAdd (.container z) index y count flags actor = NOERROR) :
    ∃ container, (s.item z).container = some container ∧
      s.queryAddToContainer z container index y count flags actor = NOERROR := by
  simp only [queryAdd, containerQueryAdd] at h
  unfold asksTopParent isOfKind at hasks
  cases hz : (s.item z).container with
  | none => simp [hz] at hasks
  | some container =>
    refine ⟨container, rfl, ?_⟩
    simp only [hz] at h
    simp only [hz, Option.any_some, Bool.or_eq_true, decide_eq_true_eq] at hasks
    unfold queryAddOfKind at h
    split at h
    · exact h
    · exact h
    · split at h
      · cases h
      · exact h
    all_goals simp_all

/-- A container that asks its top parent does not take what that refuses. -/
theorem queryAddAsOwner_of_answer {z : ItemRef} {index : ℤ} {count : ℕ}
    {flags : cylinderflags_t} {actor : Bool} {top : Cylinder}
    (hanswer : s.queryAdd (.container z) index y count flags actor = NOERROR)
    (howner : flags.FLAG_CHILDISOWNER = false) (hasks : s.asksTopParent z = true)
    (htop : s.getTopParent z = some top) (hne : top ≠ .container z) :
    s.queryAddAsOwner top y count flags actor = NOERROR := by
  obtain ⟨container, -, hasked⟩ := queryAddToContainer_of_answer hasks hanswer
  unfold queryAddToContainer at hasked
  rw [if_neg (by simp [howner])] at hasked
  split at hasked
  · cases hasked
  split at hasked
  · cases hasked
  split at hasked
  · cases hasked
  split at hasked
  next ret hrefused =>
    rw [hasked] at hrefused
    exact absurd hrefused (s.parentRefuses_ne_noerror y flags _)
  split at hasked
  · cases hasked
  simp only [htop] at hasked
  rwa [if_pos hne] at hasked

/-- A chest that is asked and does not refuse has room for the item. -/
theorem room_of_asksDepot {index : ℤ} {count limit : ℕ} {flags : cylinderflags_t} {actor : Bool}
    (hanswer : s.queryAdd c index y count flags actor = NOERROR)
    (hflags : flags.FLAG_NOLIMIT = false) (hasks : s.asksDepot c flags y count x)
    (hlimit : s.depotLimit x = some limit) :
    s.getItemHoldingCount x + s.depotCount y x ≤ limit := by
  obtain ⟨hplace, hcounts⟩ := hasks
  unfold depotLimit at hlimit
  obtain ⟨container, hcontainer⟩ : ∃ container, (s.item x).container = some container := by
    cases hx : (s.item x).container with
    | none => simp [hx] at hlimit
    | some container => exact ⟨container, rfl⟩
  have hkind : container.kind = .DepotChest := by
    by_contra hother
    simp [hcontainer, Container.depotLimit, hother] at hlimit
  have hmax : container.maxDepotItems = limit := by
    simpa [hcontainer, Container.depotLimit, hkind] using hlimit
  rw [← hmax]
  have hself : ∀ {flags' : cylinderflags_t} {ofContainer : ReturnValue},
      flags'.FLAG_NOLIMIT = false →
      s.queryAddOfKind x container y count flags' actor ofContainer = NOERROR →
      s.getItemHoldingCount x + s.depotCount y x ≤ container.maxDepotItems := by
    intro flags' ofContainer hflags' hasked
    unfold queryAddOfKind at hasked
    rw [hkind] at hasked
    apply room_of_depotIsFull hflags' hcounts
    by_contra hfull
    rw [Bool.not_eq_false] at hfull
    simp only at hasked
    rw [if_pos hfull] at hasked
    cases hasked
  rcases hplace with rfl | ⟨z, rfl, howner, hasksTop, htop⟩
  · simp only [queryAdd, containerQueryAdd, hcontainer] at hanswer
    exact hself hflags hanswer
  by_cases hzx : z = x
  · subst hzx
    simp only [queryAdd, containerQueryAdd, hcontainer] at hanswer
    exact hself hflags hanswer
  -- the container in the chest asks it as its top parent
  · have hne : Cylinder.container x ≠ .container z := fun heq => hzx (Cylinder.container.inj heq).symm
    have hasked := queryAddAsOwner_of_answer hanswer howner hasksTop htop hne
    simp only [queryAddAsOwner, hcontainer] at hasked
    exact hself hflags hasked

end State

namespace Forest

variable {s t : State} {c : Cylinder} {x y : ItemRef}

theorem reaches_iff (hs : Forest s) : s.reaches c x = true ↔ s.Leads c x := by
  cases c with
  | container z =>
    rw [State.leads_container, State.Within, Relation.reflTransGen_iff_eq_or_transGen,
      @eq_comm _ x]
    simp only [State.reaches, Bool.or_eq_true, decide_eq_true_eq, hs.isHoldingItem_iff]
  | player p => simp [State.reaches, State.not_leads_player]
  | tile pos => simp [State.reaches, State.not_leads_tile]

/-! ## What the operations count -/

theorem counted_eq_of_leads (hs : Forest s) (ht : Forest t) (h : t.Leads c x ↔ s.Leads c x)
    (hcapacity : ∀ z, t.capacity z = s.capacity z) (index : ℤ) (n : ℕ) :
    t.counted c index n x = s.counted c index n x := by
  have hreaches : t.reaches c x = s.reaches c x := by
    rw [Bool.eq_iff_iff, ht.reaches_iff, hs.reaches_iff, h]
  unfold State.counted
  cases c with
  | container z =>
    simp only [hcapacity]
    rw [hreaches]
  | player p | tile pos => rfl

/-- A removal takes out of the container what no longer counts. -/
theorem getItemHoldingCount_removeThing (hs : Forest s) (hy : y ∈ s.contents c) (count : ℕ)
    (x : ItemRef) : (s.removeThing c y count).getItemHoldingCount x + s.uncounted c y count x =
      s.getItemHoldingCount x := by
  classical
  have ht := hs.removeThing c y count
  unfold State.uncounted
  by_cases hpart : s.removesPart y count
  · rw [if_neg fun h => h.2 hpart, Nat.add_zero]
    apply hs.getItemHoldingCount_of_contents ht
    intro z
    rw [(State.removeThing_part hs.toLayered hy hpart).contents]
    exact s.contents_setCount y _ _
  · have hadds := State.adds_removeThing hs.toLayered hy hpart
    have hcount := hs.getItemHoldingCount_of_removal ht hadds x
    have hleads : (s.reaches c x = true ∧ ¬s.removesPart y count) ↔ s.Leads c x := by
      rw [hs.reaches_iff, and_iff_left hpart]
    rw [hcount, if_congr hleads rfl rfl]

/-- An addition puts into the container what counts there. -/
theorem getItemHoldingCount_addThing (hs : Forest s)
    (hc : ∀ z, c = .container z → s.isContainer z = true ∧ ¬s.Within z y) (index : ℤ)
    (hnew : ∀ c', y ∉ s.contents c') (hold : y < s.fresh) (x : ItemRef) :
    (s.addThing c index y).getItemHoldingCount x =
      s.getItemHoldingCount x + s.counted c index (s.unitsIn y) x := by
  classical
  have ht := hs.addThing (fun z hz => (hc z hz).1) index hnew hold fun z hz => (hc z hz).2
  have hother : (∀ z, (s.addThing c index y).contents (.container z) =
      s.contents (.container z)) → s.counted c index (s.unitsIn y) x = 0 →
      (s.addThing c index y).getItemHoldingCount x =
        s.getItemHoldingCount x + s.counted c index (s.unitsIn y) x := by
    intro hcontents hzero
    rw [hzero, Nat.add_zero]
    exact hs.getItemHoldingCount_of_contents ht hcontents x
  cases c with
  | player p =>
    exact hother (fun z => s.contents_addThing_of_ne (by simp) index y) rfl
  | tile pos =>
    exact hother (fun z => s.contents_addThing_of_ne (by simp) index y) rfl
  | container z =>
    by_cases hindex : index < s.capacity z
    · have hadds := s.adds_containerAddThing (hc z rfl).1 hindex y
      have hcount := getItemHoldingCount_of_adds hadds ht hs hnew x
      have hleads : (s.reaches (.container z) x = true ∧ index < s.capacity z) ↔
          s.Leads (.container z) x := by
        rw [hs.reaches_iff, and_iff_left hindex]
      rw [State.counted, if_congr hleads rfl rfl]
      exact hcount
    · have hsame : s.containerAddThing z index y = s := by
        unfold State.containerAddThing
        rw [if_pos (by omega)]
      apply hother
      · intro w
        simp only [State.addThing, hsame]
      · simp [State.counted, hindex]

theorem getItemHoldingCount_updateThing (hs : Forest s) (c : Cylinder) (y : ItemRef) (count : ℕ)
    (x : ItemRef) : (s.updateThing c y (s.item y).id count).getItemHoldingCount x =
      s.getItemHoldingCount x :=
  hs.getItemHoldingCount_of_contents (hs.updateThing c y count)
    (fun _ => (State.sameHoldings_updateThing c y _ count).contents _) x

end Forest

end TibiaServer.Cylinders
