import TibiaServer.Tiles.Order
/-!
# The numbers of the things

`getThing` and `getThingIndex` count through the ground, the top items, the creatures and the
down items.  One goes by the places in the vectors and the other by the type of the item, so
they agree on the tiles whose top items are always on top and whose down items are not.
-/

namespace TibiaServer.Tiles

open TibiaServer.Cylinders (ItemRef)

/-- What stands on a tile. -/
inductive TileThing
  | item (x : ItemRef)
  | creature (creature : ℕ)
  deriving DecidableEq

namespace State

variable (types : ℕ → ItemType) (s : State)

def getThingCount : ℕ :=
  let thingCount := s.tile.creatures.length + s.tile.items.length
  if s.tile.ground.isSome then thingCount + 1 else thingCount

/-- `getThingIndex` of an item or a creature. -/
def getTileThingIndex : TileThing → ℤ
  | .item x => s.getThingIndex types x
  | .creature creature =>
    let grounds : ℤ := if s.tile.ground.isSome then 1 else 0
    if creature ∈ s.tile.creatures then
      grounds + s.topItems.length + s.tile.creatures.idxOf creature
    else -1

/-- `getThing` from the top items on. -/
def getThingAboveGround (index : ℕ) : Option TileThing :=
  if index < s.topItems.length then (s.tile.items[s.tile.downItemCount + index]?).map .item
  else
    let index := index - s.topItems.length
    if index < s.tile.creatures.length then (s.tile.creatures[index]?).map .creature
    else
      let index := index - s.tile.creatures.length
      if index < s.tile.downItemCount then (s.tile.items[index]?).map .item else none

def getThing (index : ℕ) : Option TileThing :=
  match s.tile.ground with
  | some ground => if index = 0 then some (.item ground) else s.getThingAboveGround (index - 1)
  | none => s.getThingAboveGround index

/-- The things in the order of their numbers. -/
def tileThings : List TileThing :=
  s.tile.ground.toList.map .item ++ (s.topItems.map .item ++
    (s.tile.creatures.map .creature ++ s.downItems.map .item))

/-- Nothing stands on the tile twice, and the counter counts items. -/
structure Distinct : Prop where
  items : s.things.Nodup
  creatures : s.tile.creatures.Nodup
  count : s.tile.downItemCount ≤ s.tile.items.length

/-- Top items are always on top, down items are not. -/
structure InLayers : Prop where
  down : ∀ x ∈ s.downItems, s.isAlwaysOnTop types x = false
  top : ∀ x ∈ s.topItems, s.isAlwaysOnTop types x = true

/-- The two functions are inverse to each other. -/
structure ConsistentIndices : Prop where
  found : ∀ i < s.getThingCount, ∃ thing, s.getThing i = some thing ∧
    s.getTileThingIndex types thing = i
  numbered : ∀ thing ∈ s.tileThings, ∃ i : ℕ, s.getTileThingIndex types thing = i ∧
    s.getThing i = some thing
  beyond : ∀ i, s.getThingCount ≤ i → s.getThing i = none

variable {types s}

theorem length_downItems_of_distinct (h : s.Distinct) :
    s.downItems.length = s.tile.downItemCount := by
  unfold downItems
  rw [List.length_take]
  exact Nat.min_eq_left h.count

theorem length_tileThings : s.tileThings.length = s.getThingCount := by
  have hitems := congrArg List.length s.items_eq
  rw [List.length_append] at hitems
  unfold tileThings getThingCount
  simp only [List.length_append, List.length_map]
  cases s.tile.ground with
  | none =>
    simp only [Option.toList_none, List.length_nil, Option.isSome_none, Bool.false_eq_true,
      if_false]
    omega
  | some ground =>
    simp only [Option.toList_some, List.length_singleton, Option.isSome_some, if_true]
    omega

/-! ## From numbers to things -/

theorem getThingAboveGround_eq (h : s.Distinct) (index : ℕ) : s.getThingAboveGround index =
    (s.topItems.map .item ++ (s.tile.creatures.map .creature ++ s.downItems.map .item))[index]? := by
  have hdown := length_downItems_of_distinct h
  unfold getThingAboveGround
  dsimp only
  split_ifs with htop hcreature hlast
  · rw [List.getElem?_append_left (by simpa using htop), List.getElem?_map]
    unfold topItems
    rw [List.getElem?_drop]
  · rw [List.getElem?_append_right (by simpa using htop), List.length_map,
      List.getElem?_append_left (by simpa using hcreature), List.getElem?_map]
  · rw [List.getElem?_append_right (by simpa using htop), List.length_map,
      List.getElem?_append_right (by simpa using hcreature), List.length_map, List.getElem?_map]
    unfold downItems
    rw [List.getElem?_take_of_lt hlast]
  · rw [List.getElem?_append_right (by simpa using htop), List.length_map,
      List.getElem?_append_right (by simpa using hcreature), List.length_map, List.getElem?_map,
      List.getElem?_eq_none (by omega)]
    rfl

theorem getThing_eq (h : s.Distinct) (index : ℕ) : s.getThing index = s.tileThings[index]? := by
  unfold getThing tileThings
  cases hground : s.tile.ground with
  | none => exact getThingAboveGround_eq h index
  | some ground =>
    cases index with
    | zero => rfl
    | succ index => exact getThingAboveGround_eq h index

/-! ## From things to numbers -/

theorem idxOf_map {α β : Type*} [DecidableEq α] [DecidableEq β] {f : α → β}
    (hf : Function.Injective f) (x : α) (l : List α) : (l.map f).idxOf (f x) = l.idxOf x := by
  induction l with
  | nil => rfl
  | cons y l ih =>
    rw [List.map_cons, List.idxOf_cons, List.idxOf_cons, ih]
    have hsame : (f y == f x) = (y == x) := by
      rw [Bool.eq_iff_iff, beq_iff_eq, beq_iff_eq, hf.eq_iff]
    rw [hsame]

/-- A part of the numbers begins behind the parts in front of it. -/
theorem idxOf_part {α : Type*} [DecidableEq α] {f : α → TileThing} (hf : Function.Injective f)
    {x : α} {l : List α} (hx : x ∈ l) {before : List TileThing} (hbefore : f x ∉ before)
    (after : List TileThing) :
    (before ++ (l.map f ++ after)).idxOf (f x) = before.length + l.idxOf x := by
  rw [List.idxOf_append_of_notMem hbefore,
    List.idxOf_append_of_mem (List.mem_map_of_mem hx), idxOf_map hf]

theorem item_injective : Function.Injective TileThing.item := fun _ _ => TileThing.item.inj

theorem creature_injective : Function.Injective TileThing.creature :=
  fun _ _ => TileThing.creature.inj

theorem length_ground (s : State) :
    (s.tile.ground.toList.length : ℤ) = if s.tile.ground.isSome then 1 else 0 := by
  cases s.tile.ground with
  | none => rfl
  | some ground => rfl

/-- The ground, the top items and the down items are apart. -/
theorem apart (h : s.Distinct) {x : ItemRef} :
    (x ∈ s.topItems → s.tile.ground ≠ some x) ∧ (x ∈ s.downItems → s.tile.ground ≠ some x) ∧
      (x ∈ s.downItems → x ∉ s.topItems) := by
  have hnodup := h.items
  unfold things at hnodup
  rw [← s.items_eq] at hnodup
  obtain ⟨-, hitems, hground⟩ := List.nodup_append'.mp hnodup
  have hparts := (List.nodup_append'.mp hitems).2.2
  refine ⟨fun hx heq => ?_, fun hx heq => ?_, fun hx htop => hparts hx htop⟩
  · exact hground (by simp [heq]) (List.mem_append_right _ hx)
  · exact hground (by simp [heq]) (List.mem_append_left _ hx)

theorem getThingIndex_top (h : s.Distinct) (hlayers : s.InLayers types) {x : ItemRef}
    (hx : x ∈ s.topItems) : s.getThingIndex types x =
      (if s.tile.ground.isSome then 1 else 0) + s.topItems.idxOf x := by
  unfold getThingIndex
  rw [if_neg ((apart h).1 hx), if_pos (hlayers.top x hx), if_pos hx]

theorem getThingIndex_down (h : s.Distinct) (hlayers : s.InLayers types) {x : ItemRef}
    (hx : x ∈ s.downItems) : s.getThingIndex types x =
      (if s.tile.ground.isSome then 1 else 0) + s.topItems.length + s.tile.creatures.length +
        s.downItems.idxOf x := by
  unfold getThingIndex
  rw [if_neg ((apart h).2.1 hx), if_neg (by simp [hlayers.down x hx]), if_pos hx]

theorem getTileThingIndex_eq (h : s.Distinct) (hlayers : s.InLayers types) {thing : TileThing}
    (hthing : thing ∈ s.tileThings) :
    s.getTileThingIndex types thing = s.tileThings.idxOf thing := by
  have hlength := length_ground s
  unfold tileThings at hthing ⊢
  rcases List.mem_append.mp hthing with hground | hthing
  · obtain ⟨ground, hmem, rfl⟩ := List.mem_map.mp hground
    have hsome : s.tile.ground = some ground := by simpa using hmem
    unfold getTileThingIndex getThingIndex
    simp [hsome]
  rcases List.mem_append.mp hthing with htop | hthing
  · obtain ⟨x, hx, rfl⟩ := List.mem_map.mp htop
    rw [idxOf_part item_injective hx (by simpa using (apart h).1 hx), List.length_map,
      Nat.cast_add, hlength]
    exact getThingIndex_top h hlayers hx
  rcases List.mem_append.mp hthing with hcreature | hdown
  · obtain ⟨creature, hmem, rfl⟩ := List.mem_map.mp hcreature
    rw [← List.append_assoc, idxOf_part creature_injective hmem (by simp)]
    simp only [List.length_append, List.length_map, Nat.cast_add, hlength]
    exact if_pos hmem
  · obtain ⟨x, hx, rfl⟩ := List.mem_map.mp hdown
    have hbefore : TileThing.item x ∉ s.tile.ground.toList.map TileThing.item ++
        (s.topItems.map .item ++ s.tile.creatures.map .creature) := by
      simpa using ⟨(apart h).2.1 hx, (apart h).2.2 hx⟩
    have hlast := idxOf_part item_injective hx hbefore []
    rw [List.append_nil, List.append_assoc, List.append_assoc] at hlast
    rw [hlast]
    simp only [List.length_append, List.length_map, Nat.cast_add, hlength, ← add_assoc]
    exact getThingIndex_down h hlayers hx

theorem nodup_tileThings (h : s.Distinct) : s.tileThings.Nodup := by
  have hitems : (s.tile.ground.toList ++ (s.downItems ++ s.topItems)).Nodup := by
    rw [s.items_eq]
    exact h.items
  obtain ⟨hground, hboth, -⟩ := List.nodup_append'.mp hitems
  obtain ⟨hdown, htop, -⟩ := List.nodup_append'.mp hboth
  unfold tileThings
  refine List.nodup_append'.mpr ⟨hground.map item_injective, List.nodup_append'.mpr
    ⟨htop.map item_injective, List.nodup_append'.mpr ⟨h.creatures.map creature_injective,
      hdown.map item_injective, ?_⟩, ?_⟩, ?_⟩
  · intro thing hcreature hitem
    obtain ⟨creature, -, rfl⟩ := List.mem_map.mp hcreature
    simp at hitem
  · intro thing hitem hbehind
    obtain ⟨x, hx, rfl⟩ := List.mem_map.mp hitem
    have hdown : x ∈ s.downItems := by simpa using hbehind
    exact (apart h).2.2 hdown hx
  · intro thing hitem hbehind
    obtain ⟨x, hx, rfl⟩ := List.mem_map.mp hitem
    have hground : s.tile.ground = some x := by simpa using hx
    have hx : x ∈ s.topItems ∨ x ∈ s.downItems := by simpa using hbehind
    exact hx.elim (fun hx => (apart h).1 hx hground) fun hx => (apart h).2.1 hx hground

/-! ## Both ways -/

theorem consistent_of_layers (h : s.Distinct) (hlayers : s.InLayers types) :
    s.ConsistentIndices types where
  found i hi := by
    rw [← length_tileThings] at hi
    refine ⟨s.tileThings[i], ?_, ?_⟩
    · rw [getThing_eq h, List.getElem?_eq_getElem hi]
    · rw [getTileThingIndex_eq h hlayers (List.getElem_mem hi), (nodup_tileThings h).idxOf_getElem]
  numbered thing hthing := by
    refine ⟨s.tileThings.idxOf thing, getTileThingIndex_eq h hlayers hthing, ?_⟩
    rw [getThing_eq h]
    exact List.getElem?_idxOf hthing
  beyond i hi := by
    rw [getThing_eq h]
    exact List.getElem?_eq_none (length_tileThings.trans_le hi)

/-- Indices and things match exactly where the items stand in the layer of their type. -/
theorem consistentIndices_iff (h : s.Distinct) :
    s.ConsistentIndices types ↔ s.InLayers types := by
  refine ⟨fun hconsistent => ⟨fun x hx => ?_, fun x hx => ?_⟩, consistent_of_layers h⟩
  · by_contra htop
    have hthing : TileThing.item x ∈ s.tileThings :=
      List.mem_append_right _ (List.mem_append_right _ (List.mem_append_right _
        (List.mem_map_of_mem hx)))
    obtain ⟨i, hindex, -⟩ := hconsistent.numbered _ hthing
    have hnone : s.getThingIndex types x = -1 := by
      unfold getThingIndex
      rw [if_neg ((apart h).2.1 hx), if_pos (by simpa using htop), if_neg ((apart h).2.2 hx)]
    have hsame := hnone.symm.trans hindex
    omega
  · by_contra htop
    have hthing : TileThing.item x ∈ s.tileThings :=
      List.mem_append_right _ (List.mem_append_left _ (List.mem_map_of_mem hx))
    obtain ⟨i, hindex, -⟩ := hconsistent.numbered _ hthing
    have hnone : s.getThingIndex types x = -1 := by
      unfold getThingIndex
      rw [if_neg ((apart h).1 hx), if_neg htop, if_neg fun hdown => (apart h).2.2 hdown hx]
    have hsame := hnone.symm.trans hindex
    omega

/-- A creature between a border and an item on the ground. -/
theorem border_creature_item_numbered :
    let types : ℕ → ItemType := fun id =>
      { id := id, alwaysOnTop := decide (id = 2), stackable_plain := by simp }
    ConsistentIndices types
      { item := fun x => { id := x },
        tile := { ground := some 0, items := [1, 2], downItemCount := 1, creatures := [7] } } := by
  intro types
  refine (consistentIndices_iff ⟨by decide, by decide, by decide⟩).mpr ⟨?_, ?_⟩
  · decide
  · decide

end State

end TibiaServer.Tiles
