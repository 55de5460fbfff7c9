import TibiaServer.Cylinders.DepotLimit
/-!
# Room in a container

`Container::addThing` does not look at the size: that there is room is left to the
queries.  `queryMaxCount` answers for what does not stack and for a stack at an index,
`queryAdd` for a stack that may go anywhere.
-/

namespace TibiaServer.Cylinders

open ReturnValue

namespace State

variable (s : State)

/-- No container holds more items than it has places. -/
def NoOverflow : Prop := ∀ x, s.size x ≤ s.capacity x

/-- By how much an addition makes the container larger. -/
def placedSize (c : Cylinder) (index : ℤ) (x : ItemRef) : ℕ :=
  if c = .container x ∧ index < s.capacity x then 1 else 0

/-- By how much a removal makes the container smaller. -/
def takenSize (c : Cylinder) (y : ItemRef) (count : ℕ) (x : ItemRef) : ℕ :=
  if c = .container x ∧ ¬s.removesPart y count then 1 else 0

variable {s} {t : State} {c : Cylinder} {x y : ItemRef} {index : ℤ} {count : ℕ}
  {flags : cylinderflags_t} {actor : Bool}

theorem placedSize_le (c : Cylinder) (index : ℤ) (x : ItemRef) : s.placedSize c index x ≤ 1 := by
  unfold placedSize
  split <;> omega

theorem placedSize_of_ne (h : c ≠ .container x) (index : ℤ) : s.placedSize c index x = 0 :=
  if_neg fun hplaced => h hplaced.1

theorem placedSize_of_capacity (h : t.capacity x = s.capacity x) (c : Cylinder) (index : ℤ) :
    t.placedSize c index x = s.placedSize c index x := by
  unfold placedSize
  rw [h]

/-! ## What the operations do to the size -/

theorem size_of_contents (h : t.contents (.container x) = s.contents (.container x)) :
    t.size x = s.size x :=
  congrArg List.length h

theorem size_of_places (h : SamePlaces s t) (x : ItemRef) : t.size x = s.size x :=
  size_of_contents (h.contents _)

theorem size_of_adds (h : Adds s t c y) (x : ItemRef) :
    t.size x = s.size x + if c = .container x then 1 else 0 := by
  by_cases hc : c = .container x
  · subst hc
    rw [if_pos rfl]
    exact h.contents.length_eq
  · rw [if_neg hc]
    exact size_of_contents (h.others _ fun heq => hc heq.symm)

theorem size_removeThing (hs : Layered s) (hy : y ∈ s.contents c) (count : ℕ) (x : ItemRef) :
    (s.removeThing c y count).size x + s.takenSize c y count x = s.size x := by
  unfold takenSize
  by_cases hpart : s.removesPart y count
  · rw [if_neg fun h => h.2 hpart, Nat.add_zero]
    apply size_of_contents
    rw [(removeThing_part hs hy hpart).contents]
    exact s.contents_setCount y _ _
  · rw [size_of_adds (adds_removeThing hs hy hpart) x]
    simp only [hpart, not_false_eq_true, and_true]

theorem size_addThing (hc : c = .container x → s.isContainer x = true) (index : ℤ) (y : ItemRef) :
    (s.addThing c index y).size x = s.size x + s.placedSize c index x := by
  by_cases hcx : c = .container x
  · subst hcx
    unfold placedSize
    by_cases hindex : index < s.capacity x
    · have hadds : Adds s (s.addThing (.container x) index y) (.container x) y :=
        s.adds_containerAddThing (hc rfl) hindex y
      have hsize := size_of_adds hadds x
      rw [if_pos rfl] at hsize
      rw [hsize, if_pos ⟨rfl, hindex⟩]
    · rw [if_neg fun h => hindex h.2, Nat.add_zero]
      apply size_of_contents
      simp only [addThing]
      unfold containerAddThing
      rw [if_pos (by omega)]
  · rw [placedSize_of_ne hcx, Nat.add_zero]
    exact size_of_contents (s.contents_addThing_of_ne (fun heq => hcx heq.symm) index y)

theorem size_updateThing (c : Cylinder) (y : ItemRef) (itemId count : ℕ) (x : ItemRef) :
    (s.updateThing c y itemId count).size x = s.size x :=
  size_of_contents ((sameHoldings_updateThing c y itemId count).contents _)

/-! ## What the answers say -/

theorem isContainer_of_queryAdd
    (h : s.queryAdd (.container x) index y count flags actor = NOERROR) :
    s.isContainer x = true := by
  simp only [queryAdd, containerQueryAdd] at h
  unfold isContainer
  split at h
  next container hcontainer => rw [hcontainer]; rfl
  next => cases h

/-- A container that is asked for a place anywhere has one. -/
theorem room_of_queryAdd (hnolimit : flags.FLAG_NOLIMIT = false)
    (howner : flags.FLAG_CHILDISOWNER = false) (hasks : s.asksTopParent x = true)
    (h : s.queryAdd (.container x) INDEX_WHEREEVER y count flags actor = NOERROR) :
    s.size x < s.capacity x := by
  obtain ⟨container, hcontainer, hasked⟩ := queryAddToContainer_of_answer hasks h
  have hsize : s.size x = container.itemlist.length := by
    simp [size, itemlist, hcontainer]
  have hcapacity : s.capacity x = container.maxSize := by
    simp [capacity, hcontainer]
  unfold queryAddToContainer at hasked
  rw [if_neg (by simp [howner])] at hasked
  split at hasked
  · cases hasked
  split at hasked
  · cases hasked
  split at hasked
  · cases hasked
  split at hasked
  next ret hrefused =>
    rw [hasked] at hrefused
    exact absurd hrefused (s.parentRefuses_ne_noerror y flags _)
  split at hasked
  · cases hasked
  next hroom =>
    simp only [hnolimit, Bool.not_false, true_and, ge_iff_le, not_le] at hroom
    rw [hsize, hcapacity]
    exact hroom

/-- What does not stack is let in where there is a place. -/
theorem room_of_queryMaxCount (hplain : s.isStackable y = false)
    (hnolimit : flags.FLAG_NOLIMIT = false)
    (h : ¬((s.queryMaxCount (.container x) index y count flags).1 ≠ NOERROR ∧
      (s.queryMaxCount (.container x) index y count flags).2 = 0)) :
    s.size x < s.capacity x := by
  simp only [queryMaxCount] at h
  unfold containerQueryMaxCount at h
  simp only [hnolimit, hplain, Bool.false_eq_true, if_false] at h
  by_contra hfull
  have hfree : s.freeSlots x = 0 := by
    unfold freeSlots
    omega
  simp [hfree] at h

/-- In a full container a stack finds room on the stack at the index only. -/
theorem mergeRoom_of_full (hstack : s.isStackable y = true) (hnolimit : flags.FLAG_NOLIMIT = false)
    (hindex : index ≠ INDEX_WHEREEVER) (hfull : s.capacity x ≤ s.size x)
    (h : (s.queryMaxCount (.container x) index y count flags).2 ≠ 0) :
    ∃ z, s.getItemByIndex x index = some z ∧ s.equals y (some z) = true ∧
      s.getItemCount z < 100 ∧
      (s.queryMaxCount (.container x) index y count flags).2 = 100 - s.getItemCount z := by
  simp only [queryMaxCount] at h ⊢
  unfold containerQueryMaxCount at h ⊢
  have hfree : s.freeSlots x = 0 := by
    unfold freeSlots
    omega
  simp only [hnolimit, hstack, Bool.false_eq_true, if_false, if_true, hfree, Nat.zero_mul,
    Nat.zero_add] at h ⊢
  unfold mergeRoom at h ⊢
  rw [if_neg hindex] at h ⊢
  split at h
  next z hz =>
    refine ⟨z, hz, ?_⟩
    split at h
    next hfits =>
      exact ⟨hfits.1, hfits.2.1, if_pos hfits⟩
    next => exact absurd rfl h
  next => exact absurd rfl h

end State

end TibiaServer.Cylinders
