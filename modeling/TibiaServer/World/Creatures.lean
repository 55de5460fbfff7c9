import TibiaServer.Enums
import TibiaServer.Library.Run
import TibiaServer.Library.SwapRemove
import TibiaServer.World.SpectatorCache
/-!
# Creatures on the map

Creatures are placed, moved and removed.  Each of the three changes the lists of
the leaves, the tiles and the parent of the creature together, and each clears
the spectator caches after its own searches.  `WellPlaced` is what all three
keep, in any order and between any calls of `setTile` and `getSpectators`.
-/

namespace TibiaServer.World

open TibiaServer.Library
open TibiaServer.Library.Run (EachStep Always always_of_invariant always_iff_eachStep
  always_of_eachStep)
open QTreeNode (block)

namespace QTreeLeafNode

variable {ι : Type} (isPlayer : CreatureId → Bool)

def addCreature (c : CreatureId) (leaf : QTreeLeafNode ι) : QTreeLeafNode ι :=
  { leaf with
    creature_list := leaf.creature_list ++ [c]
    player_list := if isPlayer c then leaf.player_list ++ [c] else leaf.player_list }

/-- `none` where an `assert` fails. -/
def removeCreature (c : CreatureId) (leaf : QTreeLeafNode ι) : Option (QTreeLeafNode ι) :=
  (swapRemove c leaf.creature_list).bind fun creature_list =>
    (if isPlayer c then swapRemove c leaf.player_list else some leaf.player_list).map
      fun player_list => { leaf with creature_list := creature_list, player_list := player_list }

end QTreeLeafNode

/-- What the tiles answer to `Map::placeCreature` during one call. -/
structure TileAnswers where
  /-- the flag says whether `FLAG_IGNOREBLOCKITEM` is passed -/
  queryAdd : Position → Bool → ReturnValue
  protectionZone : Position → Bool
  /-- the position of the tile that `queryDestination` returns -/
  queryDestination : Position → Position
  isSightClear : Position → Position → Bool

def extendedRelList : List (ℤ × ℤ) :=
  [(0, -2), (-1, -1), (0, -1), (1, -1), (-2, 0), (-1, 0), (1, 0), (2, 0), (-1, 1), (0, 1),
    (1, 1), (0, 2)]

def normalRelList : List (ℤ × ℤ) :=
  [(-1, -1), (0, -1), (1, -1), (-1, 0), (1, 0), (-1, 1), (0, 1), (1, 1)]

/-- The orders that `std::shuffle` can leave the list in. -/
def Shuffled (extendedPos : Bool) (relList : List (ℤ × ℤ)) : Prop :=
  if extendedPos then
    (relList.take 4).Perm (extendedRelList.take 4) ∧
      (relList.drop 4).Perm (extendedRelList.drop 4)
  else relList.Perm normalRelList

instance (extendedPos : Bool) (relList : List (ℤ × ℤ)) :
    Decidable (Shuffled extendedPos relList) := by
  unfold Shuffled
  exact inferInstance

namespace Map

variable {ι : Type} (isPlayer : CreatureId → Bool) (m : Map ι)

/-- The creature branch of `Tile::addThing` and of `Tile::internalAddThing` on
the tile at `p`. -/
def addThing (p : Position) (c : CreatureId) : Option (Map ι) := do
  let leaf ← m.getQTNode p
  let tile ← m.getTile p
  some ({ m.clearSpectatorCache with
    creatures := Function.update m.creatures c { m.creatures c with tile := some p } }.setTileAt
      leaf p { tile with creatures := c :: tile.creatures })

/-- The creature branch of `Tile::removeThing`. -/
def removeThing (p : Position) (c : CreatureId) : Option (Map ι) := do
  let leaf ← m.getQTNode p
  let tile ← m.getTile p
  if c ∈ tile.creatures then
    some (m.clearSpectatorCache.setTileAt leaf p
      { tile with creatures := tile.creatures.erase c })
  else some m

def leafAddCreature (leaf : LeafId) (c : CreatureId) : Map ι :=
  m.modifyLeaf leaf (QTreeLeafNode.addCreature isPlayer c)

def leafRemoveCreature (leaf : LeafId) (c : CreatureId) : Option (Map ι) :=
  (QTreeLeafNode.removeCreature isPlayer c (m.leaves leaf)).map fun l =>
    m.modifyLeaf leaf fun _ => l

/-- The tile that `placeCreature` settles on before `queryDestination`. -/
def findPlace (tiles : TileAnswers) (relList : List (ℤ × ℤ)) (centerPos : Position)
    (extendedPos forceLogin : Bool) : Option Position :=
  let onMap := (m.getTile centerPos).isSome
  let placeInPZ := onMap && tiles.protectionZone centerPos
  let ret := tiles.queryAdd centerPos true
  if onMap ∧ (forceLogin ∨ ret = .NOERROR ∨ ret = .PLAYERISNOTINVITED) then some centerPos
  else
    (relList.map fun (dx, dy) =>
      ({ x := UInt16.ofInt (centerPos.getX + dx), y := UInt16.ofInt (centerPos.getY + dy),
         z := centerPos.z } : Position)).find? fun tryPos =>
      (m.getTile tryPos).isSome && (!placeInPZ || tiles.protectionZone tryPos) &&
        tiles.queryAdd tryPos false == .NOERROR &&
        (!extendedPos || tiles.isSightClear centerPos tryPos)

/-- `Game::internalPlaceCreature` up to the bookkeeping of ids. -/
def placeCreature (tiles : TileAnswers) (relList : List (ℤ × ℤ)) (centerPos : Position)
    (c : CreatureId) (extendedPos forceLogin : Bool) : Option (Map ι × Bool) :=
  if (m.creatures c).tile.isSome then some (m, false)
  else
    match m.findPlace tiles relList centerPos extendedPos forceLogin with
    | none => some (m, false)
    | some p => do
        let dest := tiles.queryDestination p
        let m ← m.addThing dest c
        let leaf ← m.getQTNode dest
        some (m.leafAddCreature isPlayer leaf c, true)

/-- The part of `moveCreature` under "Switch the node ownership". -/
def switchLeaf (oldPos newPos : Position) (c : CreatureId) : Option (Map ι) := do
  let leaf ← m.getQTNode oldPos
  let new_leaf ← m.getQTNode newPos
  if leaf ≠ new_leaf then
    (m.leafRemoveCreature isPlayer leaf c).map fun m => m.leafAddCreature isPlayer new_leaf c
  else some m

/-- `Map::moveCreature` onto the tile at `newPos`; the set is that of its own
spectators.  A creature that was removed is never moved: it has left every list
of creatures that act. -/
def moveCreature (c : CreatureId) (newPos : Position) :
    Option (Map ι × Finset CreatureId) := do
  let oldPos ← (m.creatures c).tile
  let _newTile ← m.getTile newPos
  if (m.creatures c).isRemoved then none
  else
    let (spectators, m) := m.getSpectators isPlayer ∅ { centerPos := oldPos, multifloor := true }
    let (spectators, m) :=
      m.getSpectators isPlayer spectators { centerPos := newPos, multifloor := true }
    let m ← m.removeThing oldPos c
    let m ← m.switchLeaf isPlayer oldPos newPos c
    let m ← m.addThing newPos c
    some (m, spectators)

/-- `Game::removeCreature`, without what the spectators do about it. -/
def removeCreature (c : CreatureId) : Option (Map ι × Bool) :=
  if (m.creatures c).isRemoved then some (m, false)
  else do
    let p ← (m.creatures c).tile
    let (_, m) := m.getSpectators isPlayer ∅ { centerPos := p, multifloor := true }
    let leaf ← m.getQTNode p
    let m ← m.leafRemoveCreature isPlayer leaf c
    let m ← m.removeThing p c
    some ({ m with
      creatures := Function.update m.creatures c { m.creatures c with isRemoved := true } }, true)

/-! ## What each operation changes -/

/-- Both caches are empty. -/
def Cleared (m : Map ι) : Prop :=
  (∀ p, m.spectatorCache p = none) ∧ ∀ p, m.playersSpectatorCache p = none

/-- `m'` differs from `m` in the creatures of the tile at `p`, and possibly in
the creature table and the caches. -/
structure OnTile (m m' : Map ι) (p : Position) (f : List CreatureId → List CreatureId) :
    Prop where
  linked : m'.Linked
  root_eq : m'.root = m.root
  getTile_eq : ∀ q, m'.getTile q = (m.getTile q).map fun tile =>
    if q = p then { tile with creatures := f tile.creatures } else tile
  leafList_eq : ∀ onlyPlayers x y, m'.leafList onlyPlayers x y = m.leafList onlyPlayers x y

/-- `m'` differs from `m` in the lists of leaves. -/
structure OnLists (m m' : Map ι) : Prop where
  linked : m'.Linked
  root_eq : m'.root = m.root
  getTile_eq : ∀ q, m'.getTile q = m.getTile q
  creatures_eq : m'.creatures = m.creatures
  cleared : m.Cleared → m'.Cleared

theorem isSome_getQTNode {m : Map ι} {p : Position} {tile : Tile ι}
    (htile : m.getTile p = some tile) :
    p.z.toNat < MAP_MAX_LAYERS ∧ ∃ leaf, m.getQTNode p = some leaf := by
  unfold getTile at htile
  split at htile
  next => simp at htile
  next hz =>
    obtain ⟨leaf, hleaf, -⟩ := Option.bind_eq_some_iff.mp htile
    exact ⟨by omega, leaf, hleaf⟩

theorem getTile_setTileAt_creatures {m : Map ι} (h : m.Linked) {leaf : LeafId}
    {p : Position} {tile : Tile ι} (hleaf : m.getQTNode p = some leaf)
    (htile : m.getTile p = some tile) (f : List CreatureId → List CreatureId) (q : Position) :
    (m.setTileAt leaf p { tile with creatures := f tile.creatures }).getTile q =
      (m.getTile q).map fun tile =>
        if q = p then { tile with creatures := f tile.creatures } else tile := by
  obtain ⟨hz, -⟩ := isSome_getQTNode htile
  rw [getTile_setTileAt h _ hleaf]
  by_cases hq : q = p
  · subst hq
    simp [hz, htile]
  · simp [hq]

theorem addThing_spec {m : Map ι} (h : m.Linked) {p : Position} {tile : Tile ι}
    (htile : m.getTile p = some tile) (c : CreatureId) :
    ∃ m', m.addThing p c = some m' ∧ OnTile m m' p (fun l => c :: l) ∧
      m'.creatures = Function.update m.creatures c { m.creatures c with tile := some p } ∧
      m'.Cleared := by
  obtain ⟨-, leaf, hleaf⟩ := isSome_getQTNode htile
  refine ⟨_, by simp only [addThing, hleaf, htile]; rfl, ?_, rfl, fun _ => rfl, fun _ => rfl⟩
  set m₁ : Map ι := { m.clearSpectatorCache with
    creatures := Function.update m.creatures c { m.creatures c with tile := some p } }
  have h₁ : m₁.Linked := ⟨h.shape, h.root_ne, h.fresh, h.inj, h.south, h.east⟩
  exact ⟨linked_setTileAt h₁ _ _ _, rfl,
    fun q => getTile_setTileAt_creatures h₁ hleaf htile (fun l => c :: l) q,
    fun onlyPlayers x y => leafList_setTileAt m₁ leaf p _ onlyPlayers x y⟩

theorem removeThing_spec {m : Map ι} (h : m.Linked) {p : Position} {tile : Tile ι}
    (htile : m.getTile p = some tile) {c : CreatureId} (hc : c ∈ tile.creatures) :
    ∃ m', m.removeThing p c = some m' ∧ OnTile m m' p (fun l => l.erase c) ∧
      m'.creatures = m.creatures ∧ m'.Cleared := by
  obtain ⟨-, leaf, hleaf⟩ := isSome_getQTNode htile
  refine ⟨m.clearSpectatorCache.setTileAt leaf p
    { tile with creatures := tile.creatures.erase c }, ?_, ?_, rfl, fun _ => rfl, fun _ => rfl⟩
  · rw [removeThing, hleaf, htile]
    exact if_pos hc
  have h₁ : m.clearSpectatorCache.Linked :=
    ⟨h.shape, h.root_ne, h.fresh, h.inj, h.south, h.east⟩
  exact ⟨linked_setTileAt h₁ _ _ _, rfl,
    fun q => getTile_setTileAt_creatures h₁ hleaf htile (fun l => l.erase c) q,
    fun onlyPlayers x y => leafList_setTileAt m.clearSpectatorCache leaf p _ onlyPlayers x y⟩

theorem onLists_modifyLeaf {m : Map ι} (h : m.Linked) (leaf : LeafId)
    {f : QTreeLeafNode ι → QTreeLeafNode ι}
    (hf : ∀ l, (f l).leafS = l.leafS ∧ (f l).leafE = l.leafE ∧ (f l).array = l.array) :
    OnLists m (m.modifyLeaf leaf f) :=
  ⟨linked_modifyLeaf h leaf fun l => ⟨(hf l).1, (hf l).2.1⟩, rfl,
    getTile_modifyLeaf m leaf fun l => (hf l).2.2, rfl, id⟩

variable {isPlayer}

variable (isPlayer) in
theorem leafAddCreature_spec {m : Map ι} (h : m.Linked) (leaf : LeafId) (c : CreatureId) :
    OnLists m (m.leafAddCreature isPlayer leaf c) ∧
      ∀ onlyPlayers x y, (m.leafAddCreature isPlayer leaf c).leafList onlyPlayers x y =
        if m.root.getLeaf x y = some leaf ∧ (onlyPlayers = true → isPlayer c = true) then
          m.leafList onlyPlayers x y ++ [c]
        else m.leafList onlyPlayers x y := by
  refine ⟨onLists_modifyLeaf h leaf fun l => ⟨rfl, rfl, rfl⟩, fun onlyPlayers x y => ?_⟩
  rw [leafAddCreature, leafList_modifyLeaf]
  by_cases hleaf : m.root.getLeaf x y = some leaf
  · have hlist : m.leafList onlyPlayers x y = nodeList onlyPlayers (m.leaves leaf) := by
      rw [leafList, hleaf]
      rfl
    rw [if_pos hleaf, hlist]
    cases onlyPlayers <;> cases hp : isPlayer c <;>
      simp [nodeList, QTreeLeafNode.addCreature, hleaf, hp]
  · rw [if_neg hleaf, if_neg fun hc => hleaf hc.1]

/-- With the creature in the lists neither `assert` fails. -/
theorem leafRemoveCreature_spec {m : Map ι} (h : m.Linked) {leaf : LeafId} {c : CreatureId}
    (hc : ∀ onlyPlayers, (onlyPlayers = true → isPlayer c = true) →
      c ∈ nodeList onlyPlayers (m.leaves leaf)) :
    ∃ m', m.leafRemoveCreature isPlayer leaf c = some m' ∧ OnLists m m' ∧
      ∀ onlyPlayers x y, (m'.leafList onlyPlayers x y).Perm
        (if m.root.getLeaf x y = some leaf ∧ (onlyPlayers = true → isPlayer c = true) then
          (m.leafList onlyPlayers x y).erase c
        else m.leafList onlyPlayers x y) := by
  obtain ⟨creature_list, hswap, hperm⟩ :=
    swapRemove_perm (show c ∈ (m.leaves leaf).creature_list from hc false (by simp))
  obtain ⟨player_list, hswap', hperm'⟩ : ∃ player_list,
      (if isPlayer c then swapRemove c (m.leaves leaf).player_list
        else some (m.leaves leaf).player_list) = some player_list ∧
      player_list.Perm (if isPlayer c = true then (m.leaves leaf).player_list.erase c
        else (m.leaves leaf).player_list) := by
    by_cases hp : isPlayer c = true
    · rw [if_pos hp, if_pos hp]
      exact swapRemove_perm (hc true fun _ => hp)
    · rw [if_neg hp, if_neg hp]
      exact ⟨_, rfl, .refl _⟩
  set f : QTreeLeafNode ι → QTreeLeafNode ι := fun l =>
    { l with creature_list := creature_list, player_list := player_list } with hf
  have hresult : m.leafRemoveCreature isPlayer leaf c = some (m.modifyLeaf leaf f) := by
    unfold leafRemoveCreature QTreeLeafNode.removeCreature
    rw [hswap, hswap']
    rfl
  refine ⟨_, hresult, onLists_modifyLeaf h leaf fun l => ⟨rfl, rfl, rfl⟩,
    fun onlyPlayers x y => ?_⟩
  rw [leafList_modifyLeaf]
  by_cases hleaf : m.root.getLeaf x y = some leaf
  · have hlist : m.leafList onlyPlayers x y = nodeList onlyPlayers (m.leaves leaf) := by
      rw [leafList, hleaf]
      rfl
    rw [if_pos hleaf, hlist]
    cases onlyPlayers with
    | false => simpa [nodeList, hf, hleaf] using hperm
    | true => by_cases hp : isPlayer c = true <;> simpa [nodeList, hf, hleaf, hp] using hperm'
  · rw [if_neg hleaf, if_neg fun hc => hleaf hc.1]

/-- The creature is in the lists of the block of `p`, as far as they take it, and
in no other list. -/
def ListedAt (isPlayer : CreatureId → Bool) (m : Map ι) (c : CreatureId) (p : Position) : Prop :=
  ∀ onlyPlayers x y, c ∈ m.leafList onlyPlayers x y ↔
    (onlyPlayers = true → isPlayer c = true) ∧ block p.x.toNat p.y.toNat = block x y

/-- No list holds a creature twice, and those of `m'` hold the same creatures as
those of `m` but for `c`. -/
structure SameOthers (m m' : Map ι) (c : CreatureId) : Prop where
  nodup : ∀ onlyPlayers x y, (m'.leafList onlyPlayers x y).Nodup
  mem_iff : ∀ onlyPlayers x y d, d ≠ c →
    (d ∈ m'.leafList onlyPlayers x y ↔ d ∈ m.leafList onlyPlayers x y)

theorem getLeaf_eq_some_iff {m : Map ι} (h : m.Linked) {p : Position} {leaf : LeafId}
    (hleaf : m.getQTNode p = some leaf) (x y : ℕ) :
    m.root.getLeaf x y = some leaf ↔ block p.x.toNat p.y.toNat = block x y := by
  constructor
  · intro hxy
    exact h.inj _ _ _ _ leaf hleaf hxy
  · intro hb
    rw [← QTreeNode.getLeaf_congr h.shape hb]
    exact hleaf

variable (isPlayer) in
theorem leafAddCreature_listed {m : Map ι} (h : m.Linked) {p : Position} {leaf : LeafId}
    (hleaf : m.getQTNode p = some leaf) {c : CreatureId}
    (habsent : ∀ onlyPlayers x y, c ∉ m.leafList onlyPlayers x y)
    (hnodup : ∀ onlyPlayers x y, (m.leafList onlyPlayers x y).Nodup) :
    SameOthers m (m.leafAddCreature isPlayer leaf c) c ∧
      ListedAt isPlayer (m.leafAddCreature isPlayer leaf c) c p := by
  obtain ⟨-, hlists⟩ := leafAddCreature_spec isPlayer h leaf c
  have hmatch := getLeaf_eq_some_iff h hleaf
  refine ⟨⟨fun onlyPlayers x y => ?_, fun onlyPlayers x y d hd => ?_⟩, fun onlyPlayers x y => ?_⟩
  · rw [hlists]
    split
    · refine List.Nodup.append (hnodup onlyPlayers x y) (List.nodup_singleton c) ?_
      simpa using habsent onlyPlayers x y
    · exact hnodup onlyPlayers x y
  · rw [hlists]
    split <;> simp [hd]
  · rw [hlists, ← hmatch]
    by_cases hc : m.root.getLeaf x y = some leaf ∧ (onlyPlayers = true → isPlayer c = true)
    · rw [if_pos hc]
      exact iff_of_true (by simp) hc.symm
    · rw [if_neg hc]
      exact iff_of_false (habsent onlyPlayers x y) fun hc' => hc hc'.symm

theorem leafRemoveCreature_listed {m : Map ι} (h : m.Linked) {p : Position} {leaf : LeafId}
    (hleaf : m.getQTNode p = some leaf) {c : CreatureId} (hlisted : ListedAt isPlayer m c p)
    (hnodup : ∀ onlyPlayers x y, (m.leafList onlyPlayers x y).Nodup) :
    ∃ m', m.leafRemoveCreature isPlayer leaf c = some m' ∧ OnLists m m' ∧ SameOthers m m' c ∧
      ∀ onlyPlayers x y, c ∉ m'.leafList onlyPlayers x y := by
  have hmatch := getLeaf_eq_some_iff h hleaf
  have hmem : ∀ onlyPlayers, (onlyPlayers = true → isPlayer c = true) →
      c ∈ nodeList onlyPlayers (m.leaves leaf) := by
    intro onlyPlayers hp
    have hc := (hlisted onlyPlayers p.x.toNat p.y.toNat).mpr ⟨hp, rfl⟩
    rw [leafList, show m.root.getLeaf p.x.toNat p.y.toNat = some leaf from hleaf] at hc
    exact hc
  obtain ⟨m', hremove, hon, hlists⟩ := leafRemoveCreature_spec h hmem
  refine ⟨m', hremove, hon, ⟨fun onlyPlayers x y => ?_, fun onlyPlayers x y d hd => ?_⟩,
    fun onlyPlayers x y => ?_⟩
  · rw [(hlists onlyPlayers x y).nodup_iff]
    split
    · exact (hnodup onlyPlayers x y).erase c
    · exact hnodup onlyPlayers x y
  · rw [(hlists onlyPlayers x y).mem_iff]
    split
    · exact List.mem_erase_of_ne hd
    · rfl
  · rw [(hlists onlyPlayers x y).mem_iff]
    split
    next => exact fun hc => ((hnodup onlyPlayers x y).mem_erase_iff.mp hc).1 rfl
    next hnot =>
      intro hc
      have hlist := (hlisted onlyPlayers x y).mp hc
      exact hnot ⟨(hmatch x y).mpr hlist.2, hlist.1⟩

/-- Between two blocks the creature changes lists; inside one block its lists
stay as they are. -/
theorem switchLeaf_listed {m : Map ι} (h : m.Linked) {oldPos newPos : Position}
    {leaf new_leaf : LeafId} (hleaf : m.getQTNode oldPos = some leaf)
    (hnew : m.getQTNode newPos = some new_leaf) {c : CreatureId}
    (hlisted : ListedAt isPlayer m c oldPos)
    (hnodup : ∀ onlyPlayers x y, (m.leafList onlyPlayers x y).Nodup) :
    ∃ m', m.switchLeaf isPlayer oldPos newPos c = some m' ∧ OnLists m m' ∧
      SameOthers m m' c ∧ ListedAt isPlayer m' c newPos := by
  have hswitch : m.switchLeaf isPlayer oldPos newPos c =
      if leaf ≠ new_leaf then
        (m.leafRemoveCreature isPlayer leaf c).map fun m =>
          m.leafAddCreature isPlayer new_leaf c
      else some m := by
    rw [switchLeaf, hleaf, hnew]
    rfl
  by_cases hne : leaf ≠ new_leaf
  · obtain ⟨m₁, hremove, hon₁, hsame₁, habsent⟩ :=
      leafRemoveCreature_listed h hleaf hlisted hnodup
    have hnew₁ : m₁.getQTNode newPos = some new_leaf := by
      rw [getQTNode, hon₁.root_eq]
      exact hnew
    obtain ⟨hon₂, -⟩ := leafAddCreature_spec isPlayer hon₁.linked new_leaf c
    obtain ⟨hsame₂, hlisted₂⟩ := leafAddCreature_listed isPlayer
      hon₁.linked hnew₁ habsent hsame₁.nodup
    refine ⟨m₁.leafAddCreature isPlayer new_leaf c, ?_, ?_, ?_, hlisted₂⟩
    · rw [hswitch, if_pos hne, hremove]
      rfl
    · exact ⟨hon₂.linked, hon₂.root_eq.trans hon₁.root_eq,
        fun q => (hon₂.getTile_eq q).trans (hon₁.getTile_eq q),
        hon₂.creatures_eq.trans hon₁.creatures_eq, fun hc => hon₂.cleared (hon₁.cleared hc)⟩
    · exact ⟨hsame₂.nodup, fun onlyPlayers x y d hd =>
        (hsame₂.mem_iff onlyPlayers x y d hd).trans (hsame₁.mem_iff onlyPlayers x y d hd)⟩
  · have hblock : block oldPos.x.toNat oldPos.y.toNat =
        block newPos.x.toNat newPos.y.toNat := by
      have heq : leaf = new_leaf := not_not.mp hne
      exact (getLeaf_eq_some_iff h hleaf _ _).mp (heq ▸ hnew)
    refine ⟨m, by rw [hswitch, if_neg hne], ⟨h, rfl, fun _ => rfl, rfl, id⟩,
      ⟨hnodup, fun _ _ _ _ _ => Iff.rfl⟩, fun onlyPlayers x y => ?_⟩
    rw [hlisted onlyPlayers x y, hblock]

/-! ## The invariant -/

/-- Every creature on the map is in the lists of its block, once, and on its
tile; nobody else is in a list. -/
structure WellPlaced (isPlayer : CreatureId → Bool) (m : Map ι) : Prop where
  linked : m.Linked
  listed : m.Listed isPlayer
  nodup : ∀ onlyPlayers x y, (m.leafList onlyPlayers x y).Nodup
  standing : ∀ c p, (m.creatures c).tile = some p → (m.creatures c).isRemoved = false →
    ∃ tile, m.getTile p = some tile ∧ c ∈ tile.creatures
  unplaced : ∀ c, (m.creatures c).tile = none → (m.creatures c).isRemoved = false

theorem WellPlaced.listedAt {m : Map ι} (h : m.WellPlaced isPlayer) {c : CreatureId}
    {p : Position} (hp : (m.creatures c).tile = some p)
    (hc : (m.creatures c).isRemoved = false) : ListedAt isPlayer m c p := by
  intro onlyPlayers x y
  have hpos : m.getPosition c = p := by simp [getPosition, hp]
  have hplaced : m.Placed c := ⟨by simp [hp], hc⟩
  rw [h.listed onlyPlayers x y c, hpos]
  simp [hplaced]

/-- When only `c` changes, the invariant is a matter of `c`. -/
theorem WellPlaced.update {m m' : Map ι} (h : m.WellPlaced isPlayer) (c : CreatureId)
    (hlinked : m'.Linked) (hsame : SameOthers m m' c)
    (hothers : ∀ d, d ≠ c → m'.creatures d = m.creatures d)
    (htiles : ∀ d, d ≠ c → ∀ p tile, m.getTile p = some tile → d ∈ tile.creatures →
      ∃ tile', m'.getTile p = some tile' ∧ d ∈ tile'.creatures)
    (hlisted : ∀ onlyPlayers x y, c ∈ m'.leafList onlyPlayers x y ↔
      (m'.Placed c ∧ (onlyPlayers = true → isPlayer c = true)) ∧
        block (m'.getPosition c).x.toNat (m'.getPosition c).y.toNat = block x y)
    (hstanding : ∀ p, (m'.creatures c).tile = some p → (m'.creatures c).isRemoved = false →
      ∃ tile, m'.getTile p = some tile ∧ c ∈ tile.creatures)
    (hunplaced : (m'.creatures c).tile ≠ none) : m'.WellPlaced isPlayer := by
  refine ⟨hlinked, fun onlyPlayers x y d => ?_, hsame.nodup, fun d p => ?_, fun d => ?_⟩
  · by_cases hd : d = c
    · subst hd
      exact hlisted onlyPlayers x y
    · rw [hsame.mem_iff onlyPlayers x y d hd, h.listed onlyPlayers x y d]
      simp only [Placed, getPosition, hothers d hd]
  · by_cases hd : d = c
    · subst hd
      exact hstanding p
    · rw [hothers d hd]
      intro hp hremoved
      obtain ⟨tile, htile, hmem⟩ := h.standing d p hp hremoved
      exact htiles d hd p tile htile hmem
  · by_cases hd : d = c
    · subst hd
      exact fun hnone => absurd hnone hunplaced
    · rw [hothers d hd]
      exact h.unplaced d

/-- The caches are no part of the invariant. -/
theorem WellPlaced.withCaches {m : Map ι} (h : m.WellPlaced isPlayer)
    (spectatorCache playersSpectatorCache : SpectatorCache) :
    WellPlaced isPlayer { m with
      spectatorCache := spectatorCache, playersSpectatorCache := playersSpectatorCache } :=
  ⟨⟨h.linked.shape, h.linked.root_ne, h.linked.fresh, h.linked.inj, h.linked.south,
    h.linked.east⟩, h.listed, h.nodup, h.standing, h.unplaced⟩

variable (isPlayer) in
theorem getSpectators_eq_withCaches (m : Map ι) (spectators : Finset CreatureId)
    (q : SpectatorQuery) :
    ∃ spectatorCache playersSpectatorCache, (m.getSpectators isPlayer spectators q).2 =
      { m with
        spectatorCache := spectatorCache, playersSpectatorCache := playersSpectatorCache } := by
  by_cases hstores : m.Stores q
  · rw [getSpectators_of_stores isPlayer m hstores]
    unfold storeCached
    split
    · exact ⟨_, _, rfl⟩
    · exact ⟨_, _, rfl⟩
  · rw [getSpectators_of_not_stores isPlayer m hstores]
    exact ⟨_, _, rfl⟩

theorem WellPlaced.getSpectators {m : Map ι} (h : m.WellPlaced isPlayer)
    (spectators : Finset CreatureId) (q : SpectatorQuery) :
    (m.getSpectators isPlayer spectators q).2.WellPlaced isPlayer := by
  obtain ⟨cache, players, hcaches⟩ :=
    getSpectators_eq_withCaches isPlayer m spectators q
  rw [hcaches]
  exact h.withCaches cache players

theorem WellPlaced.setTile {m m' : Map ι} (h : m.WellPlaced isPlayer) {merge : ι → ι → ι}
    {p : Position} {newTile : ι} (hset : m.setTile merge p newTile = some m') :
    m'.WellPlaced isPlayer := by
  obtain ⟨m₁, hset₁, hlinked, htile, hlists, hcreatures, -, -⟩ :=
    setTile_spec h.linked merge p newTile
  obtain rfl : m₁ = m' := Option.some.inj (hset₁.symm.trans hset)
  refine ⟨hlinked, fun onlyPlayers x y c => ?_, fun onlyPlayers x y => ?_, fun c q => ?_, ?_⟩
  · rw [hlists, h.listed onlyPlayers x y c]
    simp only [Placed, getPosition, hcreatures]
  · rw [hlists]
    exact h.nodup onlyPlayers x y
  · rw [hcreatures]
    intro hq hremoved
    obtain ⟨tile, hold, hmem⟩ := h.standing c q hq hremoved
    rw [htile]
    split
    next hqp =>
      refine ⟨_, rfl, ?_⟩
      rw [← hqp.1, hold]
      exact hmem
    next => exact ⟨tile, hold, hmem⟩
  · rw [hcreatures]
    exact h.unplaced

theorem sameOthers_of_leafList_eq {m m' : Map ι} (c : CreatureId)
    (hnodup : ∀ onlyPlayers x y, (m.leafList onlyPlayers x y).Nodup)
    (hlists : ∀ onlyPlayers x y, m'.leafList onlyPlayers x y = m.leafList onlyPlayers x y) :
    SameOthers m m' c :=
  ⟨fun onlyPlayers x y => hlists onlyPlayers x y ▸ hnodup onlyPlayers x y,
    fun onlyPlayers x y d _ => by rw [hlists]⟩

/-- A creature of a tile stays on it when only others are taken off or put on. -/
theorem OnTile.mem {m m' : Map ι} {p : Position} {f : List CreatureId → List CreatureId}
    (hon : OnTile m m' p f) {d : CreatureId} (hf : ∀ l, d ∈ l → d ∈ f l) {q : Position}
    {tile : Tile ι} (htile : m.getTile q = some tile) (hd : d ∈ tile.creatures) :
    ∃ tile', m'.getTile q = some tile' ∧ d ∈ tile'.creatures := by
  rw [hon.getTile_eq, htile]
  refine ⟨_, rfl, ?_⟩
  dsimp only
  split
  · exact hf _ hd
  · exact hd

theorem OnTile.isSome {m m' : Map ι} {p : Position} {f : List CreatureId → List CreatureId}
    (hon : OnTile m m' p f) {q : Position} {tile : Tile ι} (htile : m.getTile q = some tile) :
    ∃ tile', m'.getTile q = some tile' := by
  rw [hon.getTile_eq, htile]
  exact ⟨_, rfl⟩

/-- The tail of `placeCreature`: the creature enters the tile, then the lists. -/
theorem wellPlaced_enter {m : Map ι} (h : m.WellPlaced isPlayer) {c : CreatureId}
    (hnew : (m.creatures c).tile = none) {p : Position} {tile : Tile ι}
    (htile : m.getTile p = some tile) :
    ∃ m₁ leaf, m.addThing p c = some m₁ ∧ m₁.getQTNode p = some leaf ∧
      (m₁.leafAddCreature isPlayer leaf c).WellPlaced isPlayer ∧
      (m₁.leafAddCreature isPlayer leaf c).Cleared := by
  obtain ⟨m₁, hadd, hon, hcreatures, hcleared⟩ := addThing_spec h.linked htile c
  obtain ⟨-, leaf, hleaf⟩ := isSome_getQTNode htile
  have hleaf₁ : m₁.getQTNode p = some leaf := by
    rw [getQTNode, hon.root_eq]
    exact hleaf
  have hunplaced : ¬ m.Placed c := by
    rintro ⟨hsome, -⟩
    simp [hnew] at hsome
  have habsent : ∀ onlyPlayers x y, c ∉ m₁.leafList onlyPlayers x y := by
    intro onlyPlayers x y hc
    rw [hon.leafList_eq, h.listed onlyPlayers x y c] at hc
    exact hunplaced hc.1.1
  have hsame₁ := sameOthers_of_leafList_eq c h.nodup hon.leafList_eq
  obtain ⟨honl, -⟩ := leafAddCreature_spec isPlayer hon.linked leaf c
  obtain ⟨hsame₂, hlisted⟩ := leafAddCreature_listed isPlayer
    hon.linked hleaf₁ habsent hsame₁.nodup
  have hself : (m₁.leafAddCreature isPlayer leaf c).creatures c =
      { m.creatures c with tile := some p } := by
    rw [honl.creatures_eq, hcreatures, Function.update_self]
  have hremoved : (m.creatures c).isRemoved = false := h.unplaced c hnew
  refine ⟨m₁, leaf, hadd, hleaf₁, ?_, honl.cleared hcleared⟩
  refine h.update c honl.linked ⟨hsame₂.nodup, fun onlyPlayers x y d hd => ?_⟩ ?_ ?_ ?_ ?_ ?_
  · exact (hsame₂.mem_iff onlyPlayers x y d hd).trans (hsame₁.mem_iff onlyPlayers x y d hd)
  · intro d hd
    rw [honl.creatures_eq, hcreatures, Function.update_of_ne hd]
  · intro d _ q t ht hmem
    rw [honl.getTile_eq]
    exact hon.mem (fun l hl => List.mem_cons_of_mem c hl) ht hmem
  · intro onlyPlayers x y
    rw [hlisted onlyPlayers x y]
    simp [Placed, getPosition, hself, hremoved]
  · intro q hq _
    obtain rfl : p = q := by simpa [hself] using hq
    refine ⟨{ tile with creatures := c :: tile.creatures }, ?_, by simp⟩
    rw [honl.getTile_eq, hon.getTile_eq, htile]
    simp
  · simp [hself]

/-- `moveCreature` of a creature on the map to a tile of the map runs to its end
and keeps the invariant. -/
theorem moveCreature_spec {m : Map ι} (h : m.WellPlaced isPlayer) {c : CreatureId}
    {oldPos newPos : Position} (hold : (m.creatures c).tile = some oldPos)
    (hremoved : (m.creatures c).isRemoved = false) {newTile : Tile ι}
    (hnewTile : m.getTile newPos = some newTile) :
    ∃ m', m.moveCreature isPlayer c newPos = some (m', (Map.getSpectators isPlayer
        (m.getSpectators isPlayer ∅ { centerPos := oldPos, multifloor := true }).2
        (m.getSpectators isPlayer ∅ { centerPos := oldPos, multifloor := true }).1
        { centerPos := newPos, multifloor := true }).1) ∧
      m'.WellPlaced isPlayer ∧ m'.Cleared := by
  obtain ⟨oldTile, holdTile, hmem⟩ := h.standing c oldPos hold hremoved
  obtain ⟨-, leaf, hleaf⟩ := isSome_getQTNode holdTile
  obtain ⟨-, new_leaf, hnew⟩ := isSome_getQTNode hnewTile
  -- the two searches touch the caches only
  obtain ⟨cache₁, players₁, hcaches₁⟩ := getSpectators_eq_withCaches isPlayer m ∅
    { centerPos := oldPos, multifloor := true }
  obtain ⟨cache, players, hcaches⟩ := getSpectators_eq_withCaches isPlayer
    (m.getSpectators isPlayer ∅ { centerPos := oldPos, multifloor := true }).2
    (m.getSpectators isPlayer ∅ { centerPos := oldPos, multifloor := true }).1
    { centerPos := newPos, multifloor := true }
  have hboth : (Map.getSpectators isPlayer
      (m.getSpectators isPlayer ∅ { centerPos := oldPos, multifloor := true }).2
      (m.getSpectators isPlayer ∅ { centerPos := oldPos, multifloor := true }).1
      { centerPos := newPos, multifloor := true }).2 =
        { m with spectatorCache := cache, playersSpectatorCache := players } := by
    rw [hcaches, hcaches₁]
  set m₀ : Map ι := { m with spectatorCache := cache, playersSpectatorCache := players }
  have h₀ : m₀.WellPlaced isPlayer := h.withCaches cache players
  obtain ⟨m₁, hremove, hon₁, hcreatures₁, hcleared₁⟩ :=
    removeThing_spec h₀.linked (p := oldPos) holdTile hmem
  have hlisted₁ : ListedAt isPlayer m₁ c oldPos := by
    intro onlyPlayers x y
    rw [hon₁.leafList_eq]
    exact h₀.listedAt hold hremoved onlyPlayers x y
  have hsame₁ := sameOthers_of_leafList_eq c h₀.nodup hon₁.leafList_eq
  have hqt : ∀ q, m₁.getQTNode q = m.getQTNode q := fun q => by
    rw [getQTNode, hon₁.root_eq]
    rfl
  obtain ⟨m₂, hswitch, honl, hsame₂, hlisted₂⟩ := switchLeaf_listed hon₁.linked
    ((hqt oldPos).trans hleaf) ((hqt newPos).trans hnew) hlisted₁ hsame₁.nodup
  obtain ⟨tile₁, htile₁⟩ := hon₁.isSome (q := newPos) hnewTile
  have htile₂ : m₂.getTile newPos = some tile₁ := (honl.getTile_eq newPos).trans htile₁
  obtain ⟨m₃, hadd, hon₃, hcreatures₃, hcleared₃⟩ := addThing_spec honl.linked htile₂ c
  have hcreatures : m₃.creatures =
      Function.update m.creatures c { m.creatures c with tile := some newPos } := by
    rw [hcreatures₃, honl.creatures_eq, hcreatures₁]
  have hself : m₃.creatures c = { m.creatures c with tile := some newPos } := by
    rw [hcreatures, Function.update_self]
  refine ⟨m₃, ?_, ?_, hcleared₃⟩
  · simp only [moveCreature, hold, hnewTile, hremoved, Option.bind_eq_bind, Option.bind_some,
      hboth, hremove, hswitch, hadd]
    rfl
  · refine h₀.update c hon₃.linked ⟨fun onlyPlayers x y => ?_, fun onlyPlayers x y d hd => ?_⟩
      ?_ ?_ ?_ ?_ ?_
    · rw [hon₃.leafList_eq]
      exact hsame₂.nodup onlyPlayers x y
    · rw [hon₃.leafList_eq]
      exact (hsame₂.mem_iff onlyPlayers x y d hd).trans (hsame₁.mem_iff onlyPlayers x y d hd)
    · intro d hd
      rw [hcreatures, Function.update_of_ne hd]
    · intro d hd q t ht hd'
      obtain ⟨t₁, ht₁, hd₁⟩ :=
        hon₁.mem (fun l hl => (List.mem_erase_of_ne hd).mpr hl) ht hd'
      exact hon₃.mem (fun l hl => List.mem_cons_of_mem c hl)
        ((honl.getTile_eq q).trans ht₁) hd₁
    · intro onlyPlayers x y
      rw [hon₃.leafList_eq, hlisted₂ onlyPlayers x y]
      simp [Placed, getPosition, hself, hremoved]
    · intro q hq _
      obtain rfl : newPos = q := by simpa [hself] using hq
      refine ⟨{ tile₁ with creatures := c :: tile₁.creatures }, ?_, by simp⟩
      rw [hon₃.getTile_eq, htile₂]
      simp
    · simp [hself]

/-- `removeCreature` of a creature on the map runs to its end and keeps the
invariant. -/
theorem removeCreature_spec {m : Map ι} (h : m.WellPlaced isPlayer) {c : CreatureId}
    {p : Position} (hp : (m.creatures c).tile = some p)
    (hremoved : (m.creatures c).isRemoved = false) :
    ∃ m', m.removeCreature isPlayer c = some (m', true) ∧
      m'.WellPlaced isPlayer ∧ m'.Cleared := by
  obtain ⟨tile, htile, hmem⟩ := h.standing c p hp hremoved
  obtain ⟨-, leaf, hleaf⟩ := isSome_getQTNode htile
  obtain ⟨cache, players, hcaches⟩ := getSpectators_eq_withCaches isPlayer m ∅
    { centerPos := p, multifloor := true }
  set m₀ : Map ι := { m with spectatorCache := cache, playersSpectatorCache := players }
  have h₀ : m₀.WellPlaced isPlayer := h.withCaches cache players
  obtain ⟨m₁, hleave, honl, hsame₁, habsent⟩ := leafRemoveCreature_listed h₀.linked
    (p := p) hleaf (h₀.listedAt hp hremoved) h₀.nodup
  have htile₁ : m₁.getTile p = some tile := (honl.getTile_eq p).trans htile
  obtain ⟨m₂, hremove, hon₂, hcreatures₂, hcleared⟩ := removeThing_spec honl.linked htile₁ hmem
  have hleaf₀ : m₀.getQTNode p = some leaf := hleaf
  have hcreatures : m₂.creatures = m.creatures := hcreatures₂.trans honl.creatures_eq
  refine ⟨{ m₂ with
      creatures := Function.update m₂.creatures c { m₂.creatures c with isRemoved := true } },
    ?_, ?_, hcleared⟩
  · simp only [removeCreature, hp, hremoved, Option.bind_eq_bind, Option.bind_some, hcaches,
      hleaf₀, hleave, hremove]
    rfl
  · refine h₀.update c ⟨hon₂.linked.shape, hon₂.linked.root_ne, hon₂.linked.fresh,
      hon₂.linked.inj, hon₂.linked.south, hon₂.linked.east⟩
      ⟨fun onlyPlayers x y => ?_, fun onlyPlayers x y d hd => ?_⟩ ?_ ?_ ?_ ?_ ?_
    · change (m₂.leafList onlyPlayers x y).Nodup
      rw [hon₂.leafList_eq]
      exact hsame₁.nodup onlyPlayers x y
    · change d ∈ m₂.leafList onlyPlayers x y ↔ _
      rw [hon₂.leafList_eq]
      exact hsame₁.mem_iff onlyPlayers x y d hd
    · intro d hd
      change Function.update m₂.creatures c _ d = m.creatures d
      rw [Function.update_of_ne hd, hcreatures]
    · intro d hd q t ht hd'
      exact hon₂.mem (fun l hl => (List.mem_erase_of_ne hd).mpr hl)
        ((honl.getTile_eq q).trans ht) hd'
    · intro onlyPlayers x y
      change c ∈ m₂.leafList onlyPlayers x y ↔ _
      rw [hon₂.leafList_eq]
      exact iff_of_false (habsent onlyPlayers x y) fun hc => by simp [Placed] at hc
    · intro q _ hc
      simp at hc
    · simp [hcreatures, hp]

/-! ## Runs -/

inductive Action (ι : Type)
  | setTile (p : Position) (newTile : ι)
  | placeCreature (tiles : TileAnswers) (relList : List (ℤ × ℤ)) (centerPos : Position)
      (c : CreatureId) (extendedPos forceLogin : Bool)
  | moveCreature (c : CreatureId) (newPos : Position)
  | removeCreature (c : CreatureId)
  | getSpectators (spectators : Finset CreatureId) (q : SpectatorQuery)
  | clearSpectatorCache

variable (isPlayer) in
/-- The dispatcher clears the caches after each task. -/
def step (merge : ι → ι → ι) (m : Map ι) : Action ι → Option (Map ι)
  | .setTile p newTile => m.setTile merge p newTile
  | .placeCreature tiles relList centerPos c extendedPos forceLogin =>
    if Shuffled extendedPos relList then
      (m.placeCreature isPlayer tiles relList centerPos c extendedPos forceLogin).map Prod.fst
    else none
  | .moveCreature c newPos => (m.moveCreature isPlayer c newPos).map Prod.fst
  | .removeCreature c => (m.removeCreature isPlayer c).map Prod.fst
  | .getSpectators spectators q => some (m.getSpectators isPlayer spectators q).2
  | .clearSpectatorCache => some m.clearSpectatorCache

/-- The action makes sense: a shuffle is a shuffle, destinations are tiles, and
only creatures on the map are moved or removed. -/
def Enabled (m : Map ι) : Action ι → Prop
  | .placeCreature tiles relList centerPos _ extendedPos forceLogin =>
    Shuffled extendedPos relList ∧
      ∀ p, m.findPlace tiles relList centerPos extendedPos forceLogin = some p →
        ∃ tile, m.getTile (tiles.queryDestination p) = some tile
  | .moveCreature c newPos => m.Placed c ∧ ∃ tile, m.getTile newPos = some tile
  | .removeCreature c => m.Placed c ∨ (m.creatures c).isRemoved = true
  | _ => True

/-- What `placeCreature` comes to: nothing, or the creature enters some tile. -/
theorem placeCreature_cases {m m' : Map ι} (h : m.WellPlaced isPlayer) {tiles : TileAnswers}
    {relList : List (ℤ × ℤ)} {centerPos : Position} {c : CreatureId}
    {extendedPos forceLogin placed : Bool}
    (hplace : m.placeCreature isPlayer tiles relList centerPos c extendedPos forceLogin =
      some (m', placed)) :
    m' = m ∨ (m'.WellPlaced isPlayer ∧ m'.Cleared) := by
  unfold placeCreature at hplace
  split at hplace
  next => exact .inl (by cases hplace; rfl)
  next hnew =>
    split at hplace
    next => exact .inl (by cases hplace; rfl)
    next p _ =>
      have hnone : (m.creatures c).tile = none := by simpa using hnew
      cases htile : m.getTile (tiles.queryDestination p) with
      | none =>
        simp [addThing, htile] at hplace
      | some tile =>
        obtain ⟨m₁, leaf, hadd, hleaf, hwell, hcleared⟩ := wellPlaced_enter h hnone htile
        simp only [hadd, hleaf, Option.bind_eq_bind, Option.bind_some, Option.some.injEq,
          Prod.mk.injEq] at hplace
        exact .inr (hplace.1 ▸ ⟨hwell, hcleared⟩)

/-- What a step comes to for the invariant and the caches. -/
theorem step_cases {m m' : Map ι} {merge : ι → ι → ι} {a : Action ι}
    (h : m.WellPlaced isPlayer) (hstep : step isPlayer merge m a = some m') :
    m'.WellPlaced isPlayer ∧
      (m'.Cleared ∨ m' = m ∨ (∃ p newTile, a = .setTile p newTile) ∨
        ∃ spectators q, a = .getSpectators spectators q ∧
          m' = (m.getSpectators isPlayer spectators q).2) := by
  cases a with
  | setTile p newTile => exact ⟨h.setTile hstep, .inr (.inr (.inl ⟨p, newTile, rfl⟩))⟩
  | placeCreature tiles relList centerPos c extendedPos forceLogin =>
    simp only [step] at hstep
    split at hstep
    next =>
      obtain ⟨⟨m₁, placed⟩, hplace, rfl⟩ := Option.map_eq_some_iff.mp hstep
      rcases placeCreature_cases h hplace with rfl | ⟨hwell, hcleared⟩
      · exact ⟨h, .inr (.inl rfl)⟩
      · exact ⟨hwell, .inl hcleared⟩
    next => simp at hstep
  | moveCreature c newPos =>
    obtain ⟨⟨m₁, spectators⟩, hmove, rfl⟩ := Option.map_eq_some_iff.mp hstep
    cases hold : (m.creatures c).tile with
    | none => simp [moveCreature, hold] at hmove
    | some oldPos =>
      cases hremoved : (m.creatures c).isRemoved with
      | true =>
        cases hnew : m.getTile newPos <;>
          simp [moveCreature, hold, hremoved, hnew] at hmove
      | false =>
        cases hnew : m.getTile newPos with
        | some newTile =>
          obtain ⟨m₂, hmove₂, hwell, hcleared⟩ := moveCreature_spec h hold hremoved hnew
          rw [hmove₂] at hmove
          cases hmove
          exact ⟨hwell, .inl hcleared⟩
        | none => simp [moveCreature, hold, hnew] at hmove
  | removeCreature c =>
    obtain ⟨⟨m₁, removed⟩, hremove, rfl⟩ := Option.map_eq_some_iff.mp hstep
    cases hremoved : (m.creatures c).isRemoved with
    | true =>
      simp only [removeCreature, hremoved, if_true, Option.some.injEq, Prod.mk.injEq]
        at hremove
      exact hremove.1 ▸ ⟨h, .inr (.inl rfl)⟩
    | false =>
      cases hp : (m.creatures c).tile with
      | none => simp [removeCreature, hremoved, hp] at hremove
      | some p =>
        obtain ⟨m₂, hremove₂, hwell, hcleared⟩ := removeCreature_spec h hp hremoved
        rw [hremove₂] at hremove
        cases hremove
        exact ⟨hwell, .inl hcleared⟩
  | getSpectators spectators q =>
    cases hstep
    exact ⟨h.getSpectators spectators q, .inr (.inr (.inr ⟨spectators, q, rfl, rfl⟩))⟩
  | clearSpectatorCache =>
    cases hstep
    exact ⟨h.withCaches _ _, .inl ⟨fun _ => rfl, fun _ => rfl⟩⟩

theorem wellPlaced_empty : WellPlaced isPlayer ({} : Map ι) := by
  have hlist : ∀ onlyPlayers x y, ({} : Map ι).leafList onlyPlayers x y = [] :=
    fun _ _ _ => rfl
  refine ⟨linked_empty, fun onlyPlayers x y c => ?_, fun onlyPlayers x y => ?_, ?_, ?_⟩
  · rw [hlist]
    simp [Placed]
  · rw [hlist]
    exact List.nodup_nil
  · intro c p hp
    simp at hp
  · intro c _
    rfl

/-- An action that makes sense is never stuck on a null pointer or an `assert`. -/
theorem isSome_step {m : Map ι} (h : m.WellPlaced isPlayer) (merge : ι → ι → ι)
    {a : Action ι} (ha : m.Enabled a) : (step isPlayer merge m a).isSome = true := by
  cases a with
  | setTile p newTile =>
    obtain ⟨m', hset, -⟩ := setTile_spec h.linked merge p newTile
    simp [step, hset]
  | placeCreature tiles relList centerPos c extendedPos forceLogin =>
    obtain ⟨hshuffled, hdest⟩ := ha
    simp only [step, if_pos hshuffled, Option.isSome_map, placeCreature]
    split
    next => rfl
    next hnew =>
      split
      next => rfl
      next p hp =>
        obtain ⟨tile, htile⟩ := hdest p hp
        obtain ⟨m₁, leaf, hadd, hleaf, -⟩ := wellPlaced_enter h (by simpa using hnew) htile
        simp [hadd, hleaf]
  | moveCreature c newPos =>
    obtain ⟨⟨hsome, hremoved⟩, newTile, hnew⟩ := ha
    obtain ⟨oldPos, hold⟩ := Option.isSome_iff_exists.mp hsome
    obtain ⟨m', hmove, -⟩ := moveCreature_spec h hold hremoved hnew
    simp [step, hmove]
  | removeCreature c =>
    rcases ha with ⟨hsome, hremoved⟩ | hremoved
    · obtain ⟨p, hp⟩ := Option.isSome_iff_exists.mp hsome
      obtain ⟨m', hremove, -⟩ := removeCreature_spec h hp hremoved
      simp [step, hremove]
    · simp [step, removeCreature, hremoved]
  | getSpectators spectators q => rfl
  | clearSpectatorCache => rfl

variable (isPlayer) in
/-- The search answers as a scan over all creatures would, for every centre and
range and whatever the caller brings. -/
def SearchComplete (m : Map ι) : Prop :=
  ∀ (spectators : Finset CreatureId) (centerPos : Position) (r : SearchRange)
    (onlyPlayers : Bool) (c : CreatureId),
    c ∈ m.getSpectatorsInternal spectators centerPos r onlyPlayers ↔
      c ∈ spectators ∨ ((m.Placed c ∧ (onlyPlayers = true → isPlayer c = true)) ∧
        r.Covers centerPos (m.getPosition c))

/-- In every state of every run from the empty map, the search over the leaves is
complete and finds nobody else. -/
theorem always_searchComplete (isPlayer : CreatureId → Bool) (merge : ι → ι → ι)
    (as : List (Action ι)) : Always (step isPlayer merge) (SearchComplete isPlayer) {} as := by
  exact always_of_invariant (I := WellPlaced isPlayer)
    (fun _ _ _ h hstep => (step_cases h hstep).1)
    (fun _ h => mem_getSpectatorsInternal h.linked h.listed) as {} wellPlaced_empty

/-- In no state of a run does an action that makes sense end on a null pointer or an `assert`. -/
theorem always_returns (isPlayer : CreatureId → Bool) (merge : ι → ι → ι)
    (as : List (Action ι)) :
    Always (step isPlayer merge) (fun m => ∀ a, m.Enabled a → (step isPlayer merge m a).isSome)
      {} as :=
  always_of_invariant (I := WellPlaced isPlayer) (fun _ _ _ h hstep => (step_cases h hstep).1)
    (fun _ h _ ha => isSome_step h merge ha) as {} wellPlaced_empty

/-! ## The caches over a run -/

theorem Cleared.exact {m : Map ι} (h : m.Cleared) : m.CacheExact := by
  refine ⟨fun p spectators _ hp => ?_, fun p spectators _ hp => ?_⟩
  · rw [h.1 p] at hp
    simp at hp
  · rw [h.2 p] at hp
    simp at hp

theorem exact_setTile {m m' : Map ι} (h : m.WellPlaced isPlayer) (hexact : m.CacheExact)
    {merge : ι → ι → ι} {p : Position} {newTile : ι}
    (hset : m.setTile merge p newTile = some m') : m'.CacheExact := by
  have h' := h.setTile hset
  obtain ⟨m₁, hset₁, -, -, -, hcreatures, hall, hplayers⟩ :=
    setTile_spec h.linked merge p newTile
  obtain rfl : m₁ = m' := Option.some.inj (hset₁.symm.trans hset)
  have huncached := uncached_congr h.linked h.listed h'.linked h'.listed hcreatures
  refine ⟨fun q spectators hz hq => ?_, fun q spectators hz hq => ?_⟩
  · rw [huncached]
    exact hexact.all q spectators hz (hall ▸ hq)
  · rw [huncached]
    exact hexact.players q spectators hz (hplayers ▸ hq)

/-- No set is stored that holds more than the search finds. -/
def StoresOnlyFound (m : Map ι) : Action ι → Prop
  | .getSpectators spectators q => m.Stores q → spectators ⊆ m.uncached q
  | _ => True

/-- Of all steps only a call of `getSpectators` can make the caches wrong. -/
theorem exact_step_iff {m m' : Map ι} {merge : ι → ι → ι} {a : Action ι}
    (h : m.WellPlaced isPlayer) (hexact : m.CacheExact)
    (hstep : step isPlayer merge m a = some m') : m'.CacheExact ↔ m.StoresOnlyFound a := by
  cases a with
  | getSpectators spectators q =>
    cases hstep
    exact exact_getSpectators_iff h.linked h.listed hexact spectators q
  | setTile p newTile => exact iff_of_true (exact_setTile h hexact hstep) trivial
  | placeCreature | moveCreature | removeCreature | clearSpectatorCache =>
    refine iff_of_true ?_ trivial
    rcases (step_cases h hstep).2 with hcleared | rfl | ⟨p, newTile, ha⟩ | ⟨_, _, ha, -⟩
    · exact hcleared.exact
    · exact hexact
    · simp at ha
    · simp at ha

theorem transparent_iff_exact {m : Map ι} (h : m.WellPlaced isPlayer) :
    m.Transparent isPlayer ↔ m.CacheExact :=
  ⟨exact_of_transparent, transparent_of_exact h.linked h.listed⟩

/-- The two calls of a move answer like all others. -/
theorem moveCreature_spectators {m m' : Map ι} (h : m.WellPlaced isPlayer)
    (htrans : m.Transparent isPlayer) {c : CreatureId} {oldPos newPos : Position}
    (hold : (m.creatures c).tile = some oldPos) {spectators : Finset CreatureId}
    (hmove : m.moveCreature isPlayer c newPos = some (m', spectators)) :
    spectators = m.uncached { centerPos := oldPos, multifloor := true } ∪
      m.uncached { centerPos := newPos, multifloor := true } := by
  have hremoved : (m.creatures c).isRemoved = false := by
    cases hremoved : (m.creatures c).isRemoved with
    | false => rfl
    | true =>
      cases hnew : m.getTile newPos <;> simp [moveCreature, hold, hremoved, hnew] at hmove
  obtain ⟨newTile, hnew⟩ : ∃ newTile, m.getTile newPos = some newTile := by
    cases hnew : m.getTile newPos with
    | some newTile => exact ⟨newTile, rfl⟩
    | none => simp [moveCreature, hold, hnew] at hmove
  obtain ⟨m₂, hmove₂, -⟩ := moveCreature_spec h hold hremoved hnew
  rw [hmove₂] at hmove
  obtain ⟨-, hset⟩ := Prod.mk.inj (Option.some.inj hmove)
  -- the first call stores what it finds, so the second one finds exact caches
  set q : SpectatorQuery := { centerPos := oldPos, multifloor := true }
  have hfirst : (m.getSpectators isPlayer ∅ q).1 = m.uncached q := by
    rw [htrans, Finset.empty_union]
  have h₁ : (m.getSpectators isPlayer ∅ q).2.WellPlaced isPlayer := h.getSpectators ∅ q
  have hexact₁ : (m.getSpectators isPlayer ∅ q).2.CacheExact :=
    (exact_getSpectators_iff h.linked h.listed ((transparent_iff_exact h).mp htrans) ∅ q).mpr
      fun _ => Finset.empty_subset _
  have hsame : ∀ q', (m.getSpectators isPlayer ∅ q).2.uncached q' = m.uncached q' := by
    intro q'
    obtain ⟨cache, players, hcaches⟩ := getSpectators_eq_withCaches isPlayer m ∅ q
    rw [hcaches]
    rfl
  rw [← hset, (transparent_iff_exact h₁).mpr hexact₁, hfirst, hsame]

/-- Every call at every state of a run returns the caller's set and what the
search finds at that moment, exactly when no call stores a set that holds more
than the search found. -/
theorem always_transparent_iff (isPlayer : CreatureId → Bool) (merge : ι → ι → ι)
    (as : List (Action ι)) :
    Always (step isPlayer merge) (Transparent isPlayer) {} as ↔
      EachStep (step isPlayer merge) StoresOnlyFound {} as := by
  refine always_iff_eachStep (I := WellPlaced isPlayer)
    (fun m a m' h hstep => (step_cases h hstep).1) (fun m a m' h htrans hstep => ?_)
    as {} wellPlaced_empty ?_
  · rw [transparent_iff_exact (step_cases h hstep).1]
    exact exact_step_iff h ((transparent_iff_exact h).mp htrans) hstep
  · rw [transparent_iff_exact wellPlaced_empty]
    exact Cleared.exact ⟨fun _ => rfl, fun _ => rfl⟩

variable (isPlayer) in
/-- A move is shown to whoever has the old or the new position in view, and to nobody else. -/
def MovesSeen (m : Map ι) : Prop :=
  ∀ c oldPos newPos m' spectators, (m.creatures c).tile = some oldPos →
    m.moveCreature isPlayer c newPos = some (m', spectators) →
      ∀ d, d ∈ spectators ↔ m.Placed d ∧ ∃ p, (p = oldPos ∨ p = newPos) ∧
        p.z.toNat < MAP_MAX_LAYERS ∧
        (SpectatorQuery.range { centerPos := p, multifloor := true }).Covers p (m.getPosition d)

/-- Over every run whose calls store only what the search found, each move is shown to the
creatures that see it, whatever the caches hold. -/
theorem always_movesSeen (isPlayer : CreatureId → Bool) (merge : ι → ι → ι)
    (as : List (Action ι)) (hstores : EachStep (step isPlayer merge) StoresOnlyFound {} as) :
    Always (step isPlayer merge) (MovesSeen isPlayer) {} as := by
  have hkept := always_of_eachStep (P := fun m => m.WellPlaced isPlayer ∧ m.CacheExact)
    (fun m a m' h hstored hstep => ⟨(step_cases h.1 hstep).1, (exact_step_iff h.1 h.2 hstep).mpr
      hstored⟩) as {} ⟨wellPlaced_empty, Cleared.exact ⟨fun _ => rfl, fun _ => rfl⟩⟩ hstores
  apply hkept.mono
  rintro m ⟨h, hexact⟩ c oldPos newPos m' spectators hold hmove d
  rw [moveCreature_spectators h ((transparent_iff_exact h).mpr hexact) hold hmove,
    Finset.mem_union, mem_uncached h.linked h.listed, mem_uncached h.linked h.listed]
  simp only [Bool.false_eq_true, false_implies, and_true]
  constructor
  · rintro (⟨hz, hd, hview⟩ | ⟨hz, hd, hview⟩)
    · exact ⟨hd, oldPos, .inl rfl, hz, hview⟩
    · exact ⟨hd, newPos, .inr rfl, hz, hview⟩
  · rintro ⟨hd, p, rfl | rfl, hz, hview⟩
    · exact .inl ⟨hz, hd, hview⟩
    · exact .inr ⟨hz, hd, hview⟩

theorem always_movesSeen_onTile :
    Always (step (fun _ => false) fun a _ => a) (MovesSeen fun _ => false) ({} : Map Unit)
      [.setTile ⟨100, 100, 7⟩ (), .getSpectators ∅ { centerPos := ⟨100, 100, 7⟩ }] :=
  always_movesSeen _ _ _ fun _ _ =>
    ⟨trivial, fun _ _ => ⟨fun _ => Finset.empty_subset _, trivial⟩⟩

/-- A call that brings creature 0 to the empty surroundings of creature 1 leaves it
in the cache, and the next call there returns both. -/
theorem stored_set_is_served :
    ∃ m : Map Unit,
      TibiaServer.Library.Run.run (step (fun _ => false) fun a _ => a) {}
        [.setTile ⟨100, 100, 7⟩ (), .setTile ⟨300, 300, 7⟩ (),
          .placeCreature ⟨fun _ _ => .NOERROR, fun _ => false, id, fun _ _ => true⟩
            normalRelList ⟨100, 100, 7⟩ 0 false false,
          .placeCreature ⟨fun _ _ => .NOERROR, fun _ => false, id, fun _ _ => true⟩
            normalRelList ⟨300, 300, 7⟩ 1 false false,
          .getSpectators {0} { centerPos := ⟨300, 300, 7⟩, multifloor := true }] = some m ∧
      (m.getSpectators (fun _ => false) ∅
        { centerPos := ⟨300, 300, 7⟩, multifloor := true }).1 = {0, 1} ∧
      m.uncached { centerPos := ⟨300, 300, 7⟩, multifloor := true } = {1} := by
  refine ⟨_, rfl, ?_, ?_⟩
  · decide
  · decide

end Map

end TibiaServer.World
