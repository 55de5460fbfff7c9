import Mathlib.Data.List.GetD
import TibiaServer.Cylinders.WellFormed
/-!
# States given by tables

A state with finitely many objects is written down as lists.  Whether it is well
formed is then decidable: only the places of the tables have to be looked at.
-/

namespace TibiaServer.Cylinders

open TibiaServer.World (Position)

/-- The type of a ground with nothing else to it. -/
def plainGround : ItemType := { id := 4528, group := .ITEM_GROUP_GROUND }

/-- Objects are numbered by their place in a list. -/
structure Tables where
  types : List ItemType
  items : List Item
  players : List Player := []
  tiles : List (Position × Tile) := []
  classicEquipmentSlots : Bool := true

namespace Tables

variable (w : Tables)

def containers : List ItemRef :=
  (List.range w.items.length).filter fun x => (w.items.getD x { id := 0 }).container.isSome

/-- The places of the tables. -/
def places : List Cylinder :=
  (List.range w.players.length).map .player ++ w.containers.map .container ++
    w.tiles.map fun entry => .tile entry.1

def tileAt (t : Position) : Tile := ((w.tiles.find? fun entry => entry.1 = t).map Prod.snd).getD {}

def state : State where
  items id := (w.types.find? fun it => it.id = id).getD { id := 0 }
  classicEquipmentSlots := w.classicEquipmentSlots
  cylinders := w.places.toFinset
  item x := w.items.getD x { id := 0 }
  player p := w.players.getD p {}
  tile := w.tileAt
  fresh := w.items.length

def parentContainer (item : Item) : List ItemRef :=
  match item.parent with
  | some (.container y) => [y]
  | _ => []

/-- `WellFormed` of the places of the tables. -/
structure Check : Prop where
  named : ∀ it ∈ w.types, it.id ≠ 0
  nodup : ∀ c ∈ w.places, (w.state.contents c).Nodup
  once : ∀ c ∈ w.places, ∀ c' ∈ w.places, ∀ y ∈ w.state.contents c,
    y ∈ w.state.contents c' → c = c'
  old : ∀ c ∈ w.places, ∀ y ∈ w.state.contents c, y < w.items.length
  plain : ∀ x ∈ w.containers, w.state.isStackable x = false
  parent : ∀ item ∈ w.items, ∀ y ∈ parentContainer item, y ∈ w.containers
  count : ∀ c ∈ w.places, ∀ y ∈ w.state.contents c, w.state.isStackable y = true →
    1 ≤ w.state.getItemCount y ∧ w.state.getItemCount y ≤ 100
  ground : ∀ entry ∈ w.tiles, ∀ y ∈ (w.tileAt entry.1).ground.toList,
    (w.state.typeOf y).isGroundTile = true
  down : ∀ entry ∈ w.tiles, ∀ y ∈ (w.tileAt entry.1).downItems,
    (w.state.typeOf y).alwaysOnTop = false ∧ (w.state.typeOf y).isGroundTile = false
  top : ∀ entry ∈ w.tiles, ∀ y ∈ (w.tileAt entry.1).topItems,
    (w.state.typeOf y).alwaysOnTop = true ∧ (w.state.typeOf y).isGroundTile = false

instance : Decidable w.Check :=
  decidable_of_iff
    ((∀ it ∈ w.types, it.id ≠ 0) ∧ (∀ c ∈ w.places, (w.state.contents c).Nodup) ∧
      (∀ c ∈ w.places, ∀ c' ∈ w.places, ∀ y ∈ w.state.contents c,
        y ∈ w.state.contents c' → c = c') ∧
      (∀ c ∈ w.places, ∀ y ∈ w.state.contents c, y < w.items.length) ∧
      (∀ x ∈ w.containers, w.state.isStackable x = false) ∧
      (∀ item ∈ w.items, ∀ y ∈ parentContainer item, y ∈ w.containers) ∧
      (∀ c ∈ w.places, ∀ y ∈ w.state.contents c, w.state.isStackable y = true →
        1 ≤ w.state.getItemCount y ∧ w.state.getItemCount y ≤ 100) ∧
      (∀ entry ∈ w.tiles, ∀ y ∈ (w.tileAt entry.1).ground.toList,
        (w.state.typeOf y).isGroundTile = true) ∧
      (∀ entry ∈ w.tiles, ∀ y ∈ (w.tileAt entry.1).downItems,
        (w.state.typeOf y).alwaysOnTop = false ∧ (w.state.typeOf y).isGroundTile = false) ∧
      (∀ entry ∈ w.tiles, ∀ y ∈ (w.tileAt entry.1).topItems,
        (w.state.typeOf y).alwaysOnTop = true ∧ (w.state.typeOf y).isGroundTile = false))
    ⟨fun ⟨h₀, h₁, h₂, h₃, h₄, h₅, h₆, h₇, h₈, h₉⟩ => ⟨h₀, h₁, h₂, h₃, h₄, h₅, h₆, h₇, h₈, h₉⟩,
      fun ⟨h₀, h₁, h₂, h₃, h₄, h₅, h₆, h₇, h₈, h₉⟩ => ⟨h₀, h₁, h₂, h₃, h₄, h₅, h₆, h₇, h₈, h₉⟩⟩

variable {w}

theorem tileAt_of_not_mem {t : Position} (ht : ∀ entry ∈ w.tiles, entry.1 ≠ t) :
    w.tileAt t = {} := by
  have hnone : w.tiles.find? (fun entry => entry.1 = t) = none := by
    rw [List.find?_eq_none]
    intro entry hentry
    simpa using ht entry hentry
  unfold tileAt
  rw [hnone]
  rfl

theorem mem_containers {x : ItemRef} : x ∈ w.containers ↔ w.state.isContainer x = true := by
  have hiff : x ∈ w.containers ↔
      x < w.items.length ∧ (w.items.getD x { id := 0 }).container.isSome = true := by
    simp [containers]
  rw [hiff]
  constructor
  · exact fun h => h.2
  · intro h
    refine ⟨?_, h⟩
    by_contra hlong
    have hdefault : w.items.getD x { id := 0 } = { id := 0 } := by
      rw [List.getD_eq_default]
      exact not_lt.mp hlong
    have hcontainer : (w.items.getD x { id := 0 }).container.isSome = true := h
    rw [hdefault] at hcontainer
    exact Bool.noConfusion hcontainer

/-- Only the places of the tables hold something. -/
theorem mem_places_of_contents {c : Cylinder} (h : w.state.contents c ≠ []) : c ∈ w.places := by
  by_contra hc
  apply h
  cases c with
  | player p =>
    have hlong : w.players.length ≤ p := by
      by_contra hshort
      exact hc (by simp [places, not_le.mp hshort])
    have hdefault : w.state.player p = {} := by
      show w.players.getD p {} = {}
      rw [List.getD_eq_default]
      exact hlong
    simp [State.contents, hdefault]
  | container x =>
    have hnot : w.state.isContainer x = false := by
      by_contra hcontainer
      have hmem := mem_containers.mpr (by simpa using hcontainer)
      exact hc (by simp [places, hmem])
    have hnone : (w.state.item x).container = none := by
      unfold State.isContainer at hnot
      simpa using hnot
    simp [State.contents, State.itemlist, hnone]
  | tile t =>
    have hempty : w.tileAt t = {} := by
      apply tileAt_of_not_mem
      intro entry hentry heq
      exact hc (by simp only [places, List.mem_append, List.mem_map]; exact Or.inr ⟨entry, hentry,
        by rw [heq]⟩)
    have htile : w.state.tile t = {} := hempty
    simp [State.contents, htile]

theorem mem_places_of_mem {c : Cylinder} {y : ItemRef} (h : y ∈ w.state.contents c) :
    c ∈ w.places :=
  mem_places_of_contents (List.ne_nil_of_mem h)

theorem tile_of_places {t : Position} {y : ItemRef} (h : y ∈ w.state.contents (.tile t)) :
    ∃ entry ∈ w.tiles, entry.1 = t := by
  have hplaces := mem_places_of_mem h
  simp only [places, List.mem_append, List.mem_map, reduceCtorEq, and_false, exists_false,
    or_self, false_or, Cylinder.tile.injEq] at hplaces
  exact hplaces

theorem named (h : w.Check) (id : ℕ) :
    w.state.items id = { id := 0 } ∨ (w.state.items id).id = id ∧ id ≠ 0 := by
  simp only [state]
  cases hfind : w.types.find? fun it => it.id = id with
  | none => exact Or.inl rfl
  | some it =>
    have hid : it.id = id := by simpa using List.find?_some hfind
    exact Or.inr ⟨hid, hid ▸ h.named it (List.mem_of_find?_eq_some hfind)⟩

theorem wellFormed (h : w.Check) : WellFormed w.state where
  named := named h
  nodup c := by
    by_cases hempty : w.state.contents c = []
    · rw [hempty]
      exact List.nodup_nil
    · exact h.nodup c (mem_places_of_contents hempty)
  once c c' y hy hy' := h.once c (mem_places_of_mem hy) c' (mem_places_of_mem hy') y hy hy'
  old c y hy := h.old c (mem_places_of_mem hy) y hy
  cylinder c hc := List.mem_toFinset.mpr (mem_places_of_contents hc)
  container x := by
    have hplaces : .container x ∈ w.places ↔ x ∈ w.containers := by
      simp [places]
    rw [← mem_containers, ← hplaces]
    exact List.mem_toFinset
  plain x hx := by
    have hmem := mem_containers.mpr hx
    refine ⟨?_, h.plain x hmem⟩
    simp only [containers, List.mem_filter, List.mem_range] at hmem
    exact hmem.1
  parent x y hparent := by
    have hshort : x < w.items.length := by
      by_contra hlong
      have hdefault : w.state.item x = { id := 0 } := by
        show w.items.getD x { id := 0 } = { id := 0 }
        rw [List.getD_eq_default]
        exact not_lt.mp hlong
      rw [hdefault] at hparent
      cases hparent
    have hitem : w.state.item x ∈ w.items := by
      show w.items.getD x { id := 0 } ∈ w.items
      rw [List.getD_eq_getElem _ _ hshort]
      exact List.getElem_mem hshort
    have hy : y ∈ parentContainer (w.state.item x) := by
      simp [parentContainer, hparent]
    exact mem_containers.mp (h.parent _ hitem y hy)
  count c y hy hstack := h.count c (mem_places_of_mem hy) y hy hstack
  ground t y hy := by
    obtain ⟨entry, hentry, rfl⟩ := tile_of_places ((w.state.mem_contents_tile).mpr (Or.inl hy))
    exact h.ground entry hentry y (Option.mem_toList.mpr hy)
  down t y hy := by
    obtain ⟨entry, hentry, rfl⟩ :=
      tile_of_places ((w.state.mem_contents_tile).mpr (Or.inr (Or.inl hy)))
    exact h.down entry hentry y hy
  top t y hy := by
    obtain ⟨entry, hentry, rfl⟩ :=
      tile_of_places ((w.state.mem_contents_tile).mpr (Or.inr (Or.inr hy)))
    exact h.top entry hentry y hy

end Tables

end TibiaServer.Cylinders
