import TibiaServer.Game.DepotLimit
/-!
# The stack that is found

A move asks one cylinder after the other where the item goes.  Where that ends at a
container, the item to merge with is the one at the index, however the search through an
inventory counted.
-/

namespace TibiaServer.Game

open TibiaServer.Cylinders
open ReturnValue

section Destination

variable (s : State)

/-- The item to merge with is the one at the index; a locked container names none. -/
def Found (d : Destination) : Prop :=
  ∀ x, d.cylinder = .container x → s.isUnlocked x = true → d.destItem = s.getItemByIndex x d.index

/-- The search through an inventory may miscount, but the index names some item. -/
def Names (d : Destination) : Prop :=
  ∀ x, d.cylinder = .container x → s.isUnlocked x = true → d.destItem ≠ none →
    s.getItemByIndex x d.index ≠ none

variable {s}

theorem getItemByIndex_wherever (x : ItemRef) : s.getItemByIndex x INDEX_WHEREEVER = none :=
  if_neg (by decide)

theorem getItemByIndex_of_lt {x : ItemRef} {n : ℕ} (h : n < s.size x) :
    s.getItemByIndex x n ≠ none := by
  unfold State.getItemByIndex
  rw [if_pos (Int.natCast_nonneg n), Int.toNat_natCast]
  exact fun hnone => absurd (List.getElem?_eq_none_iff.mp hnone) (not_le.mpr h)

theorem found_wherever (c : Cylinder) (flags : cylinderflags_t) :
    Found s ⟨c, INDEX_WHEREEVER, none, flags⟩ :=
  fun x _ _ => (getItemByIndex_wherever x).symm

theorem findStack_getElem (y : ItemRef) (n : ℕ) (items : List ItemRef) {m : ℕ} {z : ItemRef}
    (h : s.findStack y n items = some (m, z)) : n ≤ m ∧ items[m - n]? = some z := by
  induction items generalizing n with
  | nil => simp [State.findStack] at h
  | cons w items ih =>
    unfold State.findStack at h
    split at h
    · obtain ⟨rfl, rfl⟩ := Prod.mk.inj (Option.some.inj h)
      simp
    · obtain ⟨hle, hget⟩ := ih (n + 1) h
      have hnext : m - n = m - (n + 1) + 1 := by omega
      exact ⟨by omega, by rw [hnext, List.getElem?_cons_succ, hget]⟩

theorem found_destinationAtIndex {x : ItemRef} {index : ℤ} {destItem : Option ItemRef}
    (h : destItem ≠ none → s.getItemByIndex x index ≠ none) (flags : cylinderflags_t) :
    Found s (s.destinationAtIndex x index destItem flags) := by
  have hdest : (if index ≠ INDEX_WHEREEVER then (s.getItemByIndex x index).or destItem
      else destItem) = s.getItemByIndex x index := by
    split
    · cases hget : s.getItemByIndex x index with
      | some z => rfl
      | none =>
        rw [Option.none_or]
        by_contra hsome
        exact h hsome hget
    next hindex =>
      obtain rfl : index = INDEX_WHEREEVER := not_not.mp hindex
      rw [getItemByIndex_wherever] at h ⊢
      by_contra hsome
      exact h hsome rfl
  unfold State.destinationAtIndex
  simp only [hdest]
  split
  next z hz =>
    split
    · exact found_wherever _ flags
    · intro w hw _
      rw [← Cylinder.container.inj hw]
  next hnone =>
    intro w hw _
    rw [← Cylinder.container.inj hw]
    exact hnone.symm

theorem found_containerQueryDestination {x y : ItemRef} {index : ℤ} {destItem : Option ItemRef}
    (h : s.isUnlocked x = true → destItem ≠ none → s.getItemByIndex x index ≠ none)
    (flags : cylinderflags_t) :
    Found s (s.containerQueryDestination x index y destItem flags) := by
  unfold State.containerQueryDestination
  split
  next hlocked =>
    intro w hw hunlocked
    rw [← Cylinder.container.inj hw] at hunlocked
    simp [hunlocked] at hlocked
  next hunlocked =>
  have hget := h (by simpa using hunlocked)
  split
  · split <;> exact found_wherever _ flags
  have hclear : (if index = 255 ∨ index ≥ s.capacity x then none else destItem) ≠ none →
      s.getItemByIndex x
        (if index = 255 ∨ index ≥ s.capacity x then INDEX_WHEREEVER else index) ≠ none := by
    split
    · exact fun hne => absurd rfl hne
    · exact hget
  simp only
  split
  · split
    next n listItem hfind =>
      intro w hw _
      rw [← Cylinder.container.inj hw]
      obtain ⟨-, hget⟩ := findStack_getElem y 0 _ hfind
      simpa [State.getItemByIndex] using hget.symm
    next => exact found_destinationAtIndex hclear flags
  · exact found_destinationAtIndex hclear flags

theorem searchStack_lt (p : PlayerRef) (y : ItemRef) (n : ℕ) (containers items : List ItemRef)
    {m : ℕ} {z : ItemRef} {more : List ItemRef}
    (h : s.searchStack p y n containers items = ((m, some z), more)) : m < n + items.length := by
  induction items generalizing n containers with
  | nil => simp [State.searchStack] at h
  | cons w items ih =>
    rw [List.length_cons]
    unfold State.searchStack at h
    split at h
    · have hlt := ih _ _ h
      omega
    split at h
    · have hm : n = m := congrArg (fun r => r.1.1) h
      omega
    · have hlt := ih _ _ h
      omega

theorem names_searchContainers (p : PlayerRef) (y : ItemRef) (flags : cylinderflags_t) (stack : Bool)
    (fuel : ℕ) (containers : List ItemRef) {x z : ItemRef} {index : ℤ}
    (h : s.searchContainers p y flags stack fuel containers = some (x, index, some z)) :
    s.getItemByIndex x index ≠ none := by
  induction fuel generalizing containers with
  | zero => simp [State.searchContainers] at h
  | succ fuel ih =>
    cases containers with
    | nil => simp [State.searchContainers] at h
    | cons w containers =>
      unfold State.searchContainers at h
      split at h
      next place destItem hsearch =>
        obtain ⟨rfl, hrest⟩ := Prod.mk.inj (Option.some.inj h)
        obtain ⟨rfl, rfl⟩ := Prod.mk.inj hrest
        unfold State.searchContainer at hsearch
        split at hsearch
        · simp only at hsearch
          split at hsearch
          · exact absurd (State.Search.found.inj hsearch).2 (by simp)
          · cases hsearch
        · split at hsearch
          next n w' more hstack =>
            obtain ⟨rfl, -⟩ := State.Search.found.inj hsearch
            exact getItemByIndex_of_lt (Nat.zero_add (s.size w) ▸
              searchStack_lt p y 0 [] _ hstack)
          next =>
            split at hsearch
            · exact absurd (State.Search.found.inj hsearch).2 (by simp)
            · cases hsearch
      next => exact ih _ h

theorem names_playerQueryDestination {p : PlayerRef} {index : ℤ} {y : ItemRef}
    {destItem : Option ItemRef} (flags : cylinderflags_t) :
    Names s (s.playerQueryDestination p index y destItem flags) := by
  unfold State.playerQueryDestination
  split
  · simp only
    split
    · exact nofun
    split
    next z place found hsearch =>
      intro x hx _ hdest
      obtain ⟨w, rfl⟩ := Option.ne_none_iff_exists'.mp hdest
      rw [← Cylinder.container.inj hx]
      exact names_searchContainers p y flags _ _ _ hsearch
    next => exact nofun
  · split
    · split
      · exact fun x _ _ hdest => absurd rfl hdest
      · exact nofun
    · exact nofun

theorem container_of_containerQueryDestination (x y : ItemRef) (index : ℤ)
    (destItem : Option ItemRef) (flags : cylinderflags_t) :
    ∃ z, (s.containerQueryDestination x index y destItem flags).cylinder = .container z := by
  have hindex : ∀ index destItem, ∃ z,
      (s.destinationAtIndex x index destItem flags).cylinder = .container z := by
    intro index destItem
    unfold State.destinationAtIndex
    dsimp only
    split
    · split <;> exact ⟨_, rfl⟩
    · exact ⟨x, rfl⟩
  unfold State.containerQueryDestination
  dsimp only
  split
  · exact ⟨x, rfl⟩
  split
  · split <;> exact ⟨_, rfl⟩
  split
  · split
    · exact ⟨x, rfl⟩
    · exact hindex _ _
  · exact hindex _ _

theorem Found.names {d : Destination} (h : Found s d) : Names s d := by
  intro x hx hunlocked hdest
  rw [← h x hx hunlocked]
  exact hdest

/-- Once the search is at a container, it goes on to containers. -/
theorem found_destinationLoop (item : ItemRef) (n : ℕ) {d : Destination} {x : ItemRef}
    (hx : d.cylinder = .container x) (h : n = 0 → Found s d) (hnames : Names s d) :
    Found s (destinationLoop s item n d) := by
  induction n generalizing d x with
  | zero => exact h rfl
  | succ n ih =>
    have hfound : Found s
        (s.queryDestination d.cylinder d.index item d.destItem d.flags) := by
      rw [hx]
      exact found_containerQueryDestination (hnames x hx) d.flags
    obtain ⟨z, hz⟩ : ∃ z, (s.queryDestination d.cylinder d.index item d.destItem
        d.flags).cylinder = .container z := by
      rw [hx]
      exact container_of_containerQueryDestination x item _ _ _
    unfold destinationLoop
    dsimp only
    split
    · exact hfound
    · exact ih hz (fun _ => hfound) hfound.names

theorem cylinder_of_playerQueryDestination (p : PlayerRef) (y : ItemRef) (index : ℤ)
    (destItem : Option ItemRef) (flags : cylinderflags_t) :
    (s.playerQueryDestination p index y destItem flags).cylinder = .player p ∨
      ∃ z, (s.playerQueryDestination p index y destItem flags).cylinder = .container z := by
  unfold State.playerQueryDestination
  dsimp only
  split
  · split
    · exact .inl rfl
    · split
      · exact .inr ⟨_, rfl⟩
      · exact .inl rfl
  · split
    · split
      · exact .inr ⟨_, rfl⟩
      · exact .inl rfl
    · exact .inl rfl

theorem tile_of_destinationLoop (item : ItemRef) (n : ℕ) {d : Destination}
    {pos : TibiaServer.World.Position} (hd : d.cylinder = .tile pos) :
    ∃ pos', (destinationLoop s item n d).cylinder = .tile pos' := by
  induction n generalizing d pos with
  | zero => exact ⟨pos, hd⟩
  | succ n ih =>
    obtain ⟨pos', hpos'⟩ : ∃ pos', (s.queryDestination d.cylinder d.index item d.destItem
        d.flags).cylinder = .tile pos' := by
      rw [hd]
      unfold State.queryDestination State.tileQueryDestination
      dsimp only
      split <;> exact ⟨_, rfl⟩
    unfold destinationLoop
    dsimp only
    split
    · exact ⟨pos', hpos'⟩
    · exact ih hpos'

/-- What a move finds in a container is what stands at the index. -/
theorem found_destination (toCylinder : Cylinder) (index : ℤ) (item : ItemRef)
    (flags : cylinderflags_t) : Found s (destination s toCylinder index item flags) := by
  cases toCylinder with
  | container x =>
    exact found_destinationLoop item _ rfl (fun hzero => absurd hzero (by decide))
      fun _ _ _ hdest => absurd rfl hdest
  | tile pos =>
    intro x hx
    obtain ⟨pos', htile⟩ := tile_of_destinationLoop (s := s) item MAP_MAX_LAYERS
      (d := ⟨.tile pos, index, none, flags⟩) rfl
    cases htile.symm.trans hx
  | player p =>
    have hnames : Names s (s.playerQueryDestination p index item none flags) :=
      names_playerQueryDestination flags
    have hcylinder := cylinder_of_playerQueryDestination (s := s) p item index none flags
    have hlayers : MAP_MAX_LAYERS = 15 + 1 := rfl
    unfold destination
    rw [hlayers]
    unfold destinationLoop
    dsimp only [State.queryDestination]
    split
    next hstays =>
      intro x hx
      cases hstays.symm.trans hx
    next hgoes =>
      obtain ⟨z, hz⟩ := hcylinder.resolve_left hgoes
      exact found_destinationLoop item 15 hz (fun hzero => absurd hzero (by decide)) hnames

end Destination

end TibiaServer.Game
