import TibiaServer.Tiles.MergeTile
import TibiaServer.World.Map
/-!
# The map as a store of tiles

The quad tree with the tiles and the items on them.  `setTile` stores a tile where there is none
and merges it into the one that is there; it never reaches another square.  After any calls the
squares with a tile are those that a call was for (`setTiles_isMap`).
-/

namespace TibiaServer.World

open TibiaServer.Cylinders (ItemRef)
open TibiaServer.Tiles (ItemType)
open TibiaServer.Library (Run.run Run.run_append)
open TibiaServer.Tiles.State (mergeTile mergeTile_inOrder mergeTile_reaches MergesInOrder Filled
  thingsOf mem_thingsOf)

/-- The map and the items. -/
structure TileStore where
  item : ItemRef → Tiles.Item
  map : Map Tiles.Tile := {}

namespace TileStore

variable (types : ℕ → ItemType)

/-- The items that stand on a square. -/
def getTile (s : TileStore) (p : Position) : Option Tiles.Tile := (s.map.getTile p).map Tile.items

/-- `setTile` and what it does to the items. -/
def setTile (s : TileStore) (p : Position) (newTile : Tiles.Tile) : Option TileStore :=
  let merge (tile newTile : Tiles.Tile) := mergeTile types ⟨s.item, tile⟩ newTile
  (s.map.setTile (fun tile newTile => (merge tile newTile).tile) p newTile).map fun map =>
    { item :=
        if p.z.toNat ≥ MAP_MAX_LAYERS then s.item
        else (s.getTile p).elim s.item fun tile => (merge tile newTile).item
      map := map }

abbrev Call := Position × Tiles.Tile

def setTiles (s : TileStore) (calls : List Call) : Option TileStore :=
  Run.run (fun s call => s.setTile types call.1 call.2) s calls

variable {types} {s s' : TileStore} {p : Position} {newTile : Tiles.Tile}
  {item : ItemRef → Tiles.Item} {calls : List Call}

/-- What one call does. -/
structure Sets (types : ℕ → ItemType) (s : TileStore) (p : Position) (newTile : Tiles.Tile)
    (s' : TileStore) : Prop where
  others : ∀ q ≠ p, s'.map.getTile q = s.map.getTile q
  first : s.getTile p = none → s'.getTile p = some newTile ∧ s'.item = s.item
  again : ∀ tile, s.getTile p = some tile →
    s'.getTile p = some (mergeTile types ⟨s.item, tile⟩ newTile).tile ∧
      s'.item = (mergeTile types ⟨s.item, tile⟩ newTile).item

theorem setTile_sets (types : ℕ → ItemType) (h : s.map.Linked) (hz : p.z.toNat < MAP_MAX_LAYERS)
    (newTile : Tiles.Tile) :
    ∃ s', s.setTile types p newTile = some s' ∧ s'.map.Linked ∧ Sets types s p newTile s' := by
  obtain ⟨map, hset, hlinked, htile, -⟩ := Map.setTile_spec h
    (fun tile newTile => (mergeTile types ⟨s.item, tile⟩ newTile).tile) p newTile
  unfold setTile
  dsimp only
  rw [hset, Option.map_some]
  refine ⟨_, rfl, hlinked, ?_, ?_, ?_⟩
  · intro q hq
    exact (htile q).trans (if_neg fun hqp => hq hqp.1)
  · intro hnone
    have hnone' : s.map.getTile p = none := by simpa [getTile] using hnone
    refine ⟨?_, ?_⟩
    · simp only [getTile, htile, and_self, hz, if_true, hnone', Map.mergedTile, Option.map_some]
    · simp only [hnone, Option.elim_none, ite_self]
  · intro tile hsome
    obtain ⟨old, hold, rfl⟩ := Option.map_eq_some_iff.mp hsome
    refine ⟨?_, ?_⟩
    · simp only [getTile, htile, and_self, hz, if_true, hold, Map.mergedTile, Option.map_some]
    · simp only [hsome, Option.elim_some, if_neg (not_le.mpr hz)]

/-- Above the layers of the map a call does nothing. -/
theorem setTile_above (hz : ¬p.z.toNat < MAP_MAX_LAYERS) (newTile : Tiles.Tile) :
    s.setTile types p newTile = some s := by
  have hz' : p.z.toNat ≥ MAP_MAX_LAYERS := not_lt.mp hz
  simp only [setTile, Map.setTile, if_pos hz', Option.map_some]

/-- The tiles of the calls are filled and share no thing. -/
structure Loaded (types : ℕ → ItemType) (item : ItemRef → Tiles.Item) (calls : List Call) :
    Prop where
  filled : ∀ call ∈ calls, Filled types item call.2
  nodup : (calls.flatMap fun call => thingsOf call.2).Nodup

theorem Loaded.of_append {more : List Call} (h : Loaded types item (calls ++ more)) :
    Loaded types item calls where
  filled call hcall := h.filled call (List.mem_append_left more hcall)
  nodup := by
    have hnodup := h.nodup
    rw [List.flatMap_append] at hnodup
    exact hnodup.of_append_left

theorem Loaded.notMem (h : Loaded types item (calls ++ [(p, newTile)])) {call : Call}
    (hcall : call ∈ calls) {x : ItemRef} (hx : x ∈ thingsOf call.2) : x ∉ thingsOf newTile := by
  have hnodup := h.nodup
  rw [List.flatMap_append, List.nodup_append] at hnodup
  intro hnew
  refine hnodup.2.2 x (List.mem_flatMap.mpr ⟨call, hcall, hx⟩) x ?_ rfl
  simpa using hnew

theorem Loaded.apart (h : Loaded types item calls) {call other : Call} (hcall : call ∈ calls)
    (hother : other ∈ calls) (hne : call ≠ other) {x : ItemRef} (hx : x ∈ thingsOf call.2) :
    x ∉ thingsOf other.2 := by
  have hpairs := (List.nodup_flatMap.mp h.nodup).2
  have hsymm : Std.Symm (Function.onFun List.Disjoint fun call : Call => thingsOf call.2) :=
    ⟨fun _ _ hab => List.Disjoint.symm hab⟩
  have hdisjoint : List.Disjoint (thingsOf call.2) (thingsOf other.2) :=
    hpairs.forall hcall hother hne
  exact fun hmem => hdisjoint hx hmem

/-- What the calls from a map without tiles have left. -/
structure Stored (types : ℕ → ItemType) (item : ItemRef → Tiles.Item) (calls : List Call)
    (s : TileStore) : Prop where
  linked : s.map.Linked
  id : ∀ x, (s.item x).id = (item x).id
  none_iff : ∀ p : Position, p.z.toNat < MAP_MAX_LAYERS →
    (s.getTile p = none ↔ ∀ call ∈ calls, call.1 ≠ p)
  things : ∀ p tile, s.getTile p = some tile → ∀ x ∈ thingsOf tile,
    ∃ call ∈ calls, call.1 = p ∧ x ∈ thingsOf call.2
  ordered : Loaded types item calls → ∀ p tile, s.getTile p = some tile →
    Tiles.State.Ordered types ⟨s.item, tile⟩

theorem Stored.empty (types : ℕ → ItemType) (item : ItemRef → Tiles.Item) :
    Stored types item [] { item := item } := by
  have hnone : ∀ p, ({ item := item } : TileStore).getTile p = none := by
    intro p
    simp [getTile, Map.getTile, Map.getQTNode, QTreeNode.getLeaf]
  refine ⟨Map.linked_empty, fun x => rfl, fun p _ => ?_, fun p tile h => ?_, fun _ p tile h => ?_⟩
  · simp [hnone]
  · simp [hnone] at h
  · simp [hnone] at h

/-- On loaded tiles a merge keeps the order of both tiles. -/
theorem Stored.merges (h : Stored types item calls s)
    (hloaded : Loaded types item (calls ++ [(p, newTile)])) {tile : Tiles.Tile}
    (htile : s.getTile p = some tile) :
    MergesInOrder types ⟨s.item, tile⟩ newTile (mergeTile types ⟨s.item, tile⟩ newTile) := by
  have hfilled : Filled types s.item newTile :=
    (hloaded.filled (p, newTile) (by simp)).congr h.id
  apply mergeTile_inOrder (h.ordered hloaded.of_append p tile htile) hfilled
  intro x hx hold
  have hmem : x ∈ thingsOf tile := mem_thingsOf.mpr (.inr (List.mem_of_mem_drop hold))
  obtain ⟨call, hcall, -, hthing⟩ := h.things p tile htile x hmem
  exact hloaded.notMem hcall hthing (mem_thingsOf.mpr (.inr hx))

/-- On loaded tiles a call reaches no item of another square. -/
theorem Stored.item_elsewhere (h : Stored types item calls s)
    (hsets : Sets types s p newTile s') (hloaded : Loaded types item (calls ++ [(p, newTile)]))
    {q : Position} (hq : q ≠ p) {tile : Tiles.Tile} (htile : s.getTile q = some tile) {x : ItemRef}
    (hx : x ∈ thingsOf tile) : s'.item x = s.item x := by
  obtain ⟨call, hcall, hplace, hthing⟩ := h.things q tile htile x hx
  cases hold : s.getTile p with
  | none => rw [(hsets.first hold).2]
  | some old =>
    have hreach := (mergeTile_reaches types ⟨s.item, old⟩ newTile).2.1 x
      (hloaded.notMem hcall hthing)
    rw [(hsets.again old hold).2]
    apply hreach
    intro hmem
    obtain ⟨other, hother, hplace', hthing'⟩ := h.things p old hold x hmem
    refine hloaded.of_append.apart hcall hother ?_ hthing hthing'
    rintro rfl
    exact hq (hplace.symm.trans hplace')

theorem Sets.id (hsets : Sets types s p newTile s') (x : ItemRef) :
    (s'.item x).id = (s.item x).id := by
  cases hold : s.getTile p with
  | none => rw [(hsets.first hold).2]
  | some old =>
    rw [(hsets.again old hold).2]
    exact (mergeTile_reaches types ⟨s.item, old⟩ newTile).2.2 x

theorem Sets.getTile_others (hsets : Sets types s p newTile s') {q : Position} (hq : q ≠ p) :
    s'.getTile q = s.getTile q := by
  unfold getTile
  rw [hsets.others q hq]

theorem forall_append_ne {q : Position} (hpq : p ≠ q) :
    (∀ call ∈ calls ++ [(p, newTile)], call.1 ≠ q) ↔ ∀ call ∈ calls, call.1 ≠ q :=
  List.forall_mem_append.trans (and_iff_left (List.forall_mem_singleton.mpr hpq))

/-- One more call. -/
theorem Stored.step (h : Stored types item calls s) (p : Position) (newTile : Tiles.Tile) :
    ∃ s', s.setTile types p newTile = some s' ∧
      Stored types item (calls ++ [(p, newTile)]) s' := by
  by_cases hz : p.z.toNat < MAP_MAX_LAYERS
  · obtain ⟨s', hset, hlinked, hsets⟩ := setTile_sets types h.linked hz newTile
    refine ⟨s', hset, hlinked, fun x => (hsets.id x).trans (h.id x), ?_, ?_, ?_⟩
    · intro q hq
      by_cases hqp : q = p
      · subst hqp
        refine iff_of_false ?_ fun hall => hall (q, newTile) (by simp) rfl
        cases hold : s.getTile q with
        | none => simp [(hsets.first hold).1]
        | some old => simp [(hsets.again old hold).1]
      · rw [hsets.getTile_others hqp, h.none_iff q hq, forall_append_ne (Ne.symm hqp)]
    · intro q tile htile x hx
      by_cases hqp : q = p
      · subst hqp
        cases hold : s.getTile q with
        | none =>
          rw [(hsets.first hold).1] at htile
          cases htile
          exact ⟨(q, newTile), by simp, rfl, hx⟩
        | some old =>
          rw [(hsets.again old hold).1] at htile
          cases htile
          rcases (mergeTile_reaches types ⟨s.item, old⟩ newTile).1 x hx with hnew | hmem
          · exact ⟨(q, newTile), by simp, rfl, hnew⟩
          · obtain ⟨call, hcall, hplace⟩ := h.things q old hold x hmem
            exact ⟨call, List.mem_append_left _ hcall, hplace⟩
      · rw [hsets.getTile_others hqp] at htile
        obtain ⟨call, hcall, hplace⟩ := h.things q tile htile x hx
        exact ⟨call, List.mem_append_left _ hcall, hplace⟩
    · intro hloaded q tile htile
      by_cases hqp : q = p
      · subst hqp
        cases hold : s.getTile q with
        | none =>
          have hfilled := hloaded.filled (q, newTile) (by simp)
          obtain ⟨hnew, hitem⟩ := hsets.first hold
          rw [hnew] at htile
          cases htile
          rw [hitem]
          exact (hfilled.congr h.id).ordered
        | some old =>
          obtain ⟨hmerged, hitem⟩ := hsets.again old hold
          rw [hmerged] at htile
          cases htile
          rw [hitem]
          exact (h.merges hloaded hold).ordered
      · rw [hsets.getTile_others hqp] at htile
        exact (h.ordered hloaded.of_append q tile htile).congr hsets.id rfl rfl
  · refine ⟨s, setTile_above hz newTile, h.linked, h.id, ?_, ?_, ?_⟩
    · intro q hq
      have hqp : p ≠ q := fun heq => hz (heq ▸ hq)
      rw [h.none_iff q hq, forall_append_ne hqp]
    · intro q tile htile x hx
      obtain ⟨call, hcall, hplace⟩ := h.things q tile htile x hx
      exact ⟨call, List.mem_append_left _ hcall, hplace⟩
    · exact fun hloaded => h.ordered hloaded.of_append

/-- After any calls from a map without tiles. -/
theorem setTiles_stored (types : ℕ → ItemType) (item : ItemRef → Tiles.Item) (calls : List Call) :
    ∃ s, setTiles types { item := item } calls = some s ∧ Stored types item calls s := by
  induction calls using List.reverseRecOn with
  | nil => exact ⟨{ item := item }, rfl, .empty types item⟩
  | append_singleton calls call ih =>
    obtain ⟨s, hrun, hstored⟩ := ih
    obtain ⟨s', hset, hnext⟩ := hstored.step call.1 call.2
    refine ⟨s', ?_, hnext⟩
    unfold setTiles at hrun ⊢
    rw [Run.run_append, hrun]
    simpa using hset

/-- The map after any calls.  It has a tile exactly on the squares that a call was for, and the
next call stores its tile or merges it in order into the one that is there, without reaching
another square. -/
theorem setTiles_isMap (types : ℕ → ItemType) (item : ItemRef → Tiles.Item) (calls : List Call) :
    ∃ s, setTiles types { item := item } calls = some s ∧
      (∀ p : Position, p.z.toNat < MAP_MAX_LAYERS →
        (s.getTile p = none ↔ ∀ call ∈ calls, call.1 ≠ p)) ∧
      ∀ (p : Position) (newTile : Tiles.Tile), p.z.toNat < MAP_MAX_LAYERS →
        ∃ s', setTiles types { item := item } (calls ++ [(p, newTile)]) = some s' ∧
          Sets types s p newTile s' ∧
          (Loaded types item (calls ++ [(p, newTile)]) →
            (∀ tile, s.getTile p = some tile → MergesInOrder types ⟨s.item, tile⟩ newTile
              (mergeTile types ⟨s.item, tile⟩ newTile)) ∧
            ∀ q ≠ p, ∀ tile, s.getTile q = some tile →
              ∀ x ∈ thingsOf tile, s'.item x = s.item x) := by
  obtain ⟨s, hrun, hstored⟩ := setTiles_stored types item calls
  refine ⟨s, hrun, hstored.none_iff, fun p newTile hz => ?_⟩
  obtain ⟨s', hset, -, hsets⟩ := setTile_sets types hstored.linked hz newTile
  refine ⟨s', ?_, hsets, fun hloaded => ⟨fun tile htile => hstored.merges hloaded htile, ?_⟩⟩
  · unfold setTiles at hrun ⊢
    rw [Run.run_append, hrun]
    simpa using hset
  · exact fun q hq tile htile x hx => hstored.item_elsewhere hsets hloaded hq htile hx

end TileStore

end TibiaServer.World
