import TibiaServer.Cylinders.WellFormed
/-!
# Where a search for a place ends

`queryDestination` answers with a cylinder of the world, and with an item only if
that cylinder holds it: a player in the slot that the index names, a tile on top of
the down items.
-/

namespace TibiaServer.Cylinders

open TibiaServer.World (Position)

/-- The item to merge with is held where the destination says. -/
def Destination.Held (s : State) (d : Destination) : Prop :=
  ∀ y, d.destItem = some y →
    match d.cylinder with
    | .player p => s.getInventoryItem p d.index = some y
    | .container x => y ∈ s.itemlist x
    | .tile t => (s.tile t).downItems.head? = some y

theorem Destination.Held.mem {s : State} {d : Destination} (hheld : d.Held s) {toItem : ItemRef}
    (hdest : d.destItem = some toItem) : toItem ∈ s.contents d.cylinder := by
  have h := hheld toItem hdest
  cases hc : d.cylinder with
  | player p =>
    simp only [hc, State.getInventoryItem] at h
    split at h
    next hindex =>
      exact List.mem_filterMap.mpr ⟨d.index.toNat, State.mem_slots.mpr (by omega), h⟩
    next => cases h
  | container x =>
    have hlist : toItem ∈ s.itemlist x := by simpa [hc] using h
    exact hlist
  | tile t =>
    simp only [hc] at h
    exact s.mem_contents_tile.mpr (Or.inr (Or.inl (List.mem_of_head? h)))

namespace State

variable (s : State)

theorem held_none (c : Cylinder) (index : ℤ) (flags : cylinderflags_t) :
    Destination.Held s ⟨c, index, none, flags⟩ := by
  intro y hy
  cases hy

theorem findStack_mem (y : ItemRef) (n : ℕ) (items : List ItemRef) {m : ℕ} {x : ItemRef}
    (h : s.findStack y n items = some (m, x)) : x ∈ items := by
  induction items generalizing n with
  | nil => simp [findStack] at h
  | cons z items ih =>
    unfold findStack at h
    split at h
    · have hx : z = x := congrArg Prod.snd (Option.some.inj h)
      rw [hx]
      exact List.mem_cons_self
    · exact List.mem_cons_of_mem z (ih (n + 1) h)

theorem getItemByIndex_mem {x y : ItemRef} {index : ℤ} (h : s.getItemByIndex x index = some y) :
    y ∈ s.itemlist x := by
  unfold getItemByIndex at h
  split at h
  · exact List.mem_of_getElem? h
  · cases h

theorem held_destinationAtIndex {x : ItemRef} {index : ℤ} {destItem : Option ItemRef}
    (hdest : ∀ y, destItem = some y → y ∈ s.itemlist x) (flags : cylinderflags_t) :
    (s.destinationAtIndex x index destItem flags).Held s := by
  have hitem : ∀ y, (if index ≠ INDEX_WHEREEVER then (s.getItemByIndex x index).or destItem
      else destItem) = some y → y ∈ s.itemlist x := by
    intro y hy
    split at hy
    · rcases Option.or_eq_some_iff.mp hy with h | ⟨_, h⟩
      · exact s.getItemByIndex_mem h
      · exact hdest y h
    · exact hdest y hy
  unfold destinationAtIndex
  simp only
  split
  next d hd =>
    split
    · exact s.held_none _ _ _
    · intro y hy
      exact hitem y hy
  next => exact s.held_none _ _ _

theorem held_containerQueryDestination {x : ItemRef} {index : ℤ} {y : ItemRef}
    {destItem : Option ItemRef} (hdest : ∀ z, destItem = some z → z ∈ s.itemlist x)
    (flags : cylinderflags_t) :
    (s.containerQueryDestination x index y destItem flags).Held s := by
  unfold containerQueryDestination
  split
  · exact s.held_none _ _ _
  split
  · split <;> exact s.held_none _ _ _
  have hclear : ∀ z, (if index = 255 ∨ index ≥ s.capacity x then none else destItem) = some z →
      z ∈ s.itemlist x := by
    intro z hz
    split at hz
    · cases hz
    · exact hdest z hz
  simp only
  split
  · split
    next n listItem hfind =>
      intro z hz
      have heq : listItem = z := Option.some.inj hz
      exact heq ▸ s.findStack_mem y 0 _ hfind
    next => exact s.held_destinationAtIndex hclear flags
  · exact s.held_destinationAtIndex hclear flags

theorem searchSlots_held (p : PlayerRef) (y : ItemRef) (flags : cylinderflags_t) (stack : Bool)
    (containers : List ItemRef) (rest : List ℕ) {index : ℤ} {z : ItemRef}
    (hslots : ∀ slot ∈ rest, slot ∈ slots)
    (h : s.searchSlots p y flags stack containers rest = .found index (some z)) :
    s.getInventoryItem p index = some z := by
  induction rest generalizing containers with
  | nil => simp [searchSlots] at h
  | cons slot rest ih =>
    have hrest : ∀ slot ∈ rest, slot ∈ slots := fun k hk =>
      hslots k (List.mem_cons_of_mem slot hk)
    unfold searchSlots at h
    split at h
    next inventoryItem hinventory =>
      split at h
      · exact ih _ hrest h
      split at h
      · obtain ⟨hindex, hitem⟩ := Search.found.inj h
        have hbounds := mem_slots.mp (hslots slot List.mem_cons_self)
        subst hindex
        rw [getInventoryItem, if_pos (by omega), ← hitem]
        exact hinventory
      · exact ih _ hrest h
    next =>
      split at h
      · exact absurd (Search.found.inj h).2 (by simp)
      · exact ih _ hrest h

theorem searchStack_mem (p : PlayerRef) (y : ItemRef) (n : ℕ) (containers items : List ItemRef)
    {m : ℕ} {z : ItemRef} {more : List ItemRef}
    (h : s.searchStack p y n containers items = ((m, some z), more)) : z ∈ items := by
  induction items generalizing n containers with
  | nil => simp [searchStack] at h
  | cons x items ih =>
    unfold searchStack at h
    split at h
    · exact List.mem_cons_of_mem x (ih _ _ h)
    split at h
    · have hz : x = z := by simpa using congrArg (fun r => r.1.2) h
      rw [hz]
      exact List.mem_cons_self
    · exact List.mem_cons_of_mem x (ih _ _ h)

theorem searchContainer_held (p : PlayerRef) (y : ItemRef) (flags : cylinderflags_t)
    (stack : Bool) (x : ItemRef) {index : ℤ} {z : ItemRef}
    (h : s.searchContainer p y flags stack x = .found index (some z)) : z ∈ s.itemlist x := by
  unfold searchContainer at h
  split at h
  · simp only at h
    split at h
    · exact absurd (Search.found.inj h).2 (by simp)
    · cases h
  · split at h
    next m w more hsearch =>
      have hz := (Search.found.inj h).2
      rw [← Option.some.inj hz]
      exact s.searchStack_mem p y 0 [] _ hsearch
    next =>
      split at h
      · exact absurd (Search.found.inj h).2 (by simp)
      · cases h

theorem searchContainers_held (p : PlayerRef) (y : ItemRef) (flags : cylinderflags_t)
    (stack : Bool) (fuel : ℕ) (containers : List ItemRef) {x : ItemRef} {index : ℤ} {z : ItemRef}
    (h : s.searchContainers p y flags stack fuel containers = some (x, index, some z)) :
    z ∈ s.itemlist x := by
  induction fuel generalizing containers with
  | zero => simp [searchContainers] at h
  | succ fuel ih =>
    cases containers with
    | nil => simp [searchContainers] at h
    | cons w containers =>
      unfold searchContainers at h
      split at h
      next index' destItem hsearch =>
        obtain ⟨hx, hrest⟩ := Prod.mk.inj (Option.some.inj h)
        obtain ⟨-, hz⟩ := Prod.mk.inj hrest
        subst hx hz
        exact s.searchContainer_held p y flags stack w hsearch
      next => exact ih _ h

theorem held_playerQueryDestination {p : PlayerRef} {index : ℤ} {y : ItemRef}
    {destItem : Option ItemRef} (hdest : ∀ z, destItem = some z → s.getInventoryItem p index = some z)
    (flags : cylinderflags_t) :
    (s.playerQueryDestination p index y destItem flags).Held s := by
  unfold playerQueryDestination
  split
  · simp only
    split
    next slot found hsearch =>
      intro z hz
      have hz' : found = some z := hz
      subst hz'
      exact s.searchSlots_held p y flags _ [] slots (fun _ h => h) hsearch
    next containers _ =>
      split
      next x place found hsearch =>
        intro z hz
        have hz' : found = some z := hz
        subst hz'
        exact s.searchContainers_held p y flags _ _ _ hsearch
      next => exact s.held_none _ _ _
  · split
    next d hd =>
      split
      · exact s.held_none _ _ _
      · intro z hz
        have hz' : some d = some z := hz
        rw [← hz']
        exact hd
    next hempty =>
      intro z hz
      exact absurd (hdest z hz) (by simp [hempty])

theorem held_queryDestination {d : Destination} (h : d.Held s) (y : ItemRef) :
    (s.queryDestination d.cylinder d.index y d.destItem d.flags).Held s := by
  obtain ⟨c, index, destItem, flags⟩ := d
  cases c with
  | player p => exact s.held_playerQueryDestination (fun z hz => h z hz) flags
  | container x => exact s.held_containerQueryDestination (fun z hz => h z hz) flags
  | tile t =>
    unfold queryDestination tileQueryDestination
    simp only
    split <;> intro z hz <;> exact hz

/-! ## The cylinders of the world -/

theorem searchSlots_containers (p : PlayerRef) (y : ItemRef) (flags : cylinderflags_t)
    (stack : Bool) (rest : List ℕ) {containers more : List ItemRef}
    (hcontainers : ∀ x ∈ containers, s.isContainer x = true)
    (h : s.searchSlots p y flags stack containers rest = .goOn more) :
    ∀ x ∈ more, s.isContainer x = true := by
  induction rest generalizing containers with
  | nil =>
    have hmore := Search.goOn.inj h
    rwa [← hmore]
  | cons slot rest ih =>
    unfold searchSlots at h
    split at h
    next inventoryItem _ =>
      split at h
      · exact ih hcontainers h
      split at h
      · cases h
      · refine ih (fun x hx => ?_) h
        split at hx
        next hcontainer =>
          rcases List.mem_append.mp hx with hold | hnew
          · exact hcontainers x hold
          · rw [List.mem_singleton.mp hnew]
            exact hcontainer
        next => exact hcontainers x hx
    next =>
      split at h
      · cases h
      · exact ih hcontainers h

theorem searchStack_containers (p : PlayerRef) (y : ItemRef) (items : List ItemRef)
    {n : ℕ} {containers : List ItemRef}
    (hcontainers : ∀ x ∈ containers, s.isContainer x = true) :
    ∀ x ∈ (s.searchStack p y n containers items).2, s.isContainer x = true := by
  induction items generalizing n containers with
  | nil => exact hcontainers
  | cons tmpItem items ih =>
    unfold searchStack
    split
    · exact ih hcontainers
    split
    · exact hcontainers
    · apply ih
      intro x hx
      split at hx
      next hcontainer =>
        rcases List.mem_append.mp hx with hold | hnew
        · exact hcontainers x hold
        · rw [List.mem_singleton.mp hnew]
          exact hcontainer
      next => exact hcontainers x hx

theorem searchContainer_containers (p : PlayerRef) (y : ItemRef) (flags : cylinderflags_t)
    (stack : Bool) (x : ItemRef) {more : List ItemRef}
    (h : s.searchContainer p y flags stack x = .goOn more) :
    ∀ z ∈ more, s.isContainer z = true := by
  unfold searchContainer at h
  split at h
  · simp only at h
    split at h
    · cases h
    · have hmore := Search.goOn.inj h
      intro z hz
      rw [← hmore] at hz
      exact (List.mem_filter.mp hz).2
  · split at h
    · cases h
    next n containers hsearch =>
      split at h
      · cases h
      · have hmore := Search.goOn.inj h
        have hnil : ∀ z ∈ ([] : List ItemRef), s.isContainer z = true := by simp
        have hall := s.searchStack_containers p y (s.itemlist x) (n := 0) hnil
        rw [hsearch] at hall
        rwa [← hmore]

theorem searchContainers_container (p : PlayerRef) (y : ItemRef) (flags : cylinderflags_t)
    (stack : Bool) (fuel : ℕ) {containers : List ItemRef} {x : ItemRef} {index : ℤ}
    {destItem : Option ItemRef} (hcontainers : ∀ x ∈ containers, s.isContainer x = true)
    (h : s.searchContainers p y flags stack fuel containers = some (x, index, destItem)) :
    s.isContainer x = true := by
  induction fuel generalizing containers with
  | zero => simp [searchContainers] at h
  | succ fuel ih =>
    cases containers with
    | nil => simp [searchContainers] at h
    | cons w containers =>
      unfold searchContainers at h
      split at h
      · have hx := congrArg Prod.fst (Option.some.inj h)
        rw [← show w = x from hx]
        exact hcontainers w List.mem_cons_self
      next more hsearch =>
        refine ih (fun z hz => ?_) h
        rcases List.mem_append.mp hz with hold | hnew
        · exact hcontainers z (List.mem_cons_of_mem w hold)
        · exact s.searchContainer_containers p y flags stack w hsearch z hnew

variable {s} in
theorem getParentContainer_container (hs : WellFormed s) {x up : ItemRef}
    (h : s.getParentContainer x = some up) : s.isContainer up = true := by
  have hparent : s.itemParent x = some (.container up) := by
    unfold getParentContainer at h
    split at h
    next y hy =>
      rw [hy, Option.some.inj h]
    next => cases h
  unfold itemParent at hparent
  split at hparent
  · split at hparent
    next y hy => exact hs.parent y up hparent
    next p _ =>
      cases htile : (s.player p).tile with
      | none => simp [htile] at hparent
      | some t => simp [htile] at hparent
    next => cases hparent
  · exact hs.parent x up hparent

theorem getTile_mem {t pos : Position} (h : s.getTile t = some pos) : .tile pos ∈ s.cylinders := by
  unfold getTile at h
  split at h
  next ht => rwa [← Option.some.inj h]
  next => cases h

variable {s} in
theorem floorChangeDestination_mem {t destTile : Position}
    (h : s.floorChangeDestination t = some destTile) : .tile destTile ∈ s.cylinders := by
  unfold floorChangeDestination at h
  simp only at h
  split at h
  · split at h
    · exact s.getTile_mem h
    split at h
    · exact s.getTile_mem h
    split at h
    · cases h
    · exact s.getTile_mem h
  split at h
  · exact s.getTile_mem h
  · cases h

variable {s} in
/-- `queryDestination` leads from a cylinder of the world to one of the world. -/
theorem queryDestination_mem (hs : WellFormed s) {c : Cylinder} (hc : c ∈ s.cylinders) (index : ℤ)
    (y : ItemRef) (destItem : Option ItemRef) (flags : cylinderflags_t) :
    (s.queryDestination c index y destItem flags).cylinder ∈ s.cylinders := by
  have hcontainer : ∀ {x : ItemRef}, s.isContainer x = true → .container x ∈ s.cylinders :=
    fun hx => (hs.container _).mpr hx
  cases c with
  | player p =>
    simp only [queryDestination]
    unfold playerQueryDestination
    split
    · simp only
      split
      · exact hc
      next containers hslots =>
        have hall := s.searchSlots_containers p y flags _ slots (by simp) hslots
        split
        next hfound => exact hcontainer (s.searchContainers_container p y flags _ _ hall hfound)
        next => exact hc
    · split
      next d _ =>
        split
        next hd => exact hcontainer hd
        next => exact hc
      next => exact hc
  | container x =>
    have hindex : ∀ destItem index,
        (s.destinationAtIndex x index destItem flags).cylinder ∈ s.cylinders := by
      intro destItem index
      unfold destinationAtIndex
      simp only
      split
      next d _ =>
        split
        next hd => exact hcontainer hd.2
        next => exact hc
      next => exact hc
    simp only [queryDestination]
    unfold containerQueryDestination
    split
    · exact hc
    split
    · split
      next up hup => exact hcontainer (getParentContainer_container hs hup)
      next => exact hc
    simp only
    split
    · split
      · exact hc
      · exact hindex _ _
    · exact hindex _ _
  | tile t =>
    simp only [queryDestination]
    unfold tileQueryDestination
    split
    next destTile hfloor => exact floorChangeDestination_mem hfloor
    next => exact hc

end State

end TibiaServer.Cylinders
