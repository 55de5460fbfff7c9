import TibiaServer.World.Map
/-!
# Spectator search

`getSpectatorsInternal` walks the leaves that a range can touch, row by row,
along the `leafE` and `leafS` links.  The walk reads the same lists as a lookup
from the root at every leaf corner (`getSpectatorsInternal_eq_scan`), and no
square of the range lies outside the corners that it visits (`exists_corner`).

The `int32_t` sums are taken over the integers: the ranges meant here keep the
centre and its range near the map, far from overflow.
-/

namespace TibiaServer.World

def maxViewportX : ℤ := 11
def maxViewportY : ℤ := 11

/-- The last six arguments of `getSpectatorsInternal` but one. -/
structure SearchRange where
  minRangeX : ℤ
  maxRangeX : ℤ
  minRangeY : ℤ
  maxRangeY : ℤ
  minRangeZ : ℤ
  maxRangeZ : ℤ

/-- The position satisfies the range predicate, shifted by one square for each
floor between it and the centre. -/
def SearchRange.Covers (r : SearchRange) (centerPos cpos : Position) : Prop :=
  (r.minRangeZ ≤ cpos.getZ ∧ cpos.getZ ≤ r.maxRangeZ) ∧
    (centerPos.getY + r.minRangeY + Position.getOffsetZ centerPos cpos ≤ cpos.getY ∧
      cpos.getY ≤ centerPos.getY + r.maxRangeY + Position.getOffsetZ centerPos cpos) ∧
    (centerPos.getX + r.minRangeX + Position.getOffsetZ centerPos cpos ≤ cpos.getX ∧
      cpos.getX ≤ centerPos.getX + r.maxRangeX + Position.getOffsetZ centerPos cpos)

/-- `std::min<uint32_t>(0xFFFF, std::max<int32_t>(0, v))` -/
def clip (v : ℤ) : ℕ := (min 0xFFFF (max 0 v)).toNat

theorem clip_le {v : ℤ} {n : ℕ} (h : v ≤ n) : clip v ≤ n := by
  unfold clip
  omega

theorem le_clip {v : ℤ} {n : ℕ} (h : (n : ℤ) ≤ v) (hn : n < 65536) : n ≤ clip v := by
  unfold clip
  omega

/-- The values of `n` in `for (n = first; n <= last; n += FLOOR_SIZE)`. -/
def leafSteps (first last : ℕ) : List ℕ :=
  List.range' first ((last + FLOOR_SIZE - first) / FLOOR_SIZE) FLOOR_SIZE

/-- The corner of every square between the clipped ends is visited. -/
theorem exists_leafStep {x1 x2 v : ℕ} (h1 : x1 ≤ v) (h2 : v ≤ x2) :
    ∃ n ∈ leafSteps (x1 - x1 % FLOOR_SIZE) (x2 - x2 % FLOOR_SIZE), n / 8 = v / 8 := by
  refine ⟨v - v % 8, ?_, by omega⟩
  unfold leafSteps FLOOR_SIZE
  rw [List.mem_range']
  refine ⟨v / 8 - x1 / 8, ?_, ?_⟩ <;> omega

namespace Map

open QTreeNode (block)

variable {ι : Type} (m : Map ι)

/-- The default of the position member is kept until the first `setParent`. -/
def getPosition (c : CreatureId) : Position := (m.creatures c).tile.getD {}

/-- The body of the loop over `node_list`. -/
def scanCreature (centerPos : Position) (r : SearchRange) (spectators : Finset CreatureId)
    (creature : CreatureId) : Finset CreatureId :=
  let cpos := m.getPosition creature
  if r.minRangeZ > cpos.getZ ∨ r.maxRangeZ < cpos.getZ then spectators
  else
    let offsetZ := Position.getOffsetZ centerPos cpos
    if centerPos.getY + r.minRangeY + offsetZ > cpos.getY ∨
        centerPos.getY + r.maxRangeY + offsetZ < cpos.getY ∨
        centerPos.getX + r.minRangeX + offsetZ > cpos.getX ∨
        centerPos.getX + r.maxRangeX + offsetZ < cpos.getX then spectators
    else insert creature spectators

def scanLeaf (centerPos : Position) (r : SearchRange) (node_list : List CreatureId)
    (spectators : Finset CreatureId) : Finset CreatureId :=
  node_list.foldl (m.scanCreature centerPos r) spectators

/-- One turn of the inner loop: read the leaf and go east. -/
def walkEast (centerPos : Position) (r : SearchRange) (onlyPlayers : Bool) (ny : ℕ) :
    Option LeafId × Finset CreatureId → ℕ → Option LeafId × Finset CreatureId
  | (some leafE, spectators), _ =>
    ((m.leaves leafE).leafE,
      m.scanLeaf centerPos r (nodeList onlyPlayers (m.leaves leafE)) spectators)
  | (none, spectators), nx => (m.root.getLeaf (nx + FLOOR_SIZE) ny, spectators)

/-- One turn of the outer loop: read the row and go south. -/
def walkSouth (centerPos : Position) (r : SearchRange) (onlyPlayers : Bool)
    (startx1 endx2 : ℕ) :
    Option LeafId × Finset CreatureId → ℕ → Option LeafId × Finset CreatureId
  | (leafS, spectators), ny =>
    let row := (leafSteps startx1 endx2).foldl
      (m.walkEast centerPos r onlyPlayers ny) (leafS, spectators)
    match leafS with
    | some leaf => ((m.leaves leaf).leafS, row.2)
    | none => (m.root.getLeaf startx1 (ny + FLOOR_SIZE), row.2)

def getSpectatorsInternal (spectators : Finset CreatureId) (centerPos : Position)
    (r : SearchRange) (onlyPlayers : Bool) : Finset CreatureId :=
  let minoffset := centerPos.getZ - r.maxRangeZ
  let x1 := clip (centerPos.getX + r.minRangeX + minoffset)
  let y1 := clip (centerPos.getY + r.minRangeY + minoffset)
  let maxoffset := centerPos.getZ - r.minRangeZ
  let x2 := clip (centerPos.getX + r.maxRangeX + maxoffset)
  let y2 := clip (centerPos.getY + r.maxRangeY + maxoffset)
  let startx1 := x1 - x1 % FLOOR_SIZE
  let starty1 := y1 - y1 % FLOOR_SIZE
  let endx2 := x2 - x2 % FLOOR_SIZE
  let endy2 := y2 - y2 % FLOOR_SIZE
  ((leafSteps starty1 endy2).foldl (m.walkSouth centerPos r onlyPlayers startx1 endx2)
    (m.root.getLeaf startx1 starty1, spectators)).2

theorem mem_scanCreature (centerPos : Position) (r : SearchRange)
    (spectators : Finset CreatureId) (c d : CreatureId) :
    c ∈ m.scanCreature centerPos r spectators d ↔
      c ∈ spectators ∨ (c = d ∧ r.Covers centerPos (m.getPosition c)) := by
  unfold scanCreature SearchRange.Covers
  dsimp only
  split
  next hz =>
    refine (or_iff_left ?_).symm
    rintro ⟨rfl, hc⟩
    omega
  next hz =>
    split
    next hxy =>
      refine (or_iff_left ?_).symm
      rintro ⟨rfl, hc⟩
      omega
    next hxy =>
      rw [Finset.mem_insert, or_comm]
      refine or_congr_right ⟨?_, And.left⟩
      rintro rfl
      refine ⟨rfl, ?_⟩
      omega

/-- A loop whose body adds the members described by `Q` adds those of all turns. -/
theorem mem_foldl {α : Type*} {f : Finset CreatureId → α → Finset CreatureId}
    {Q : α → CreatureId → Prop} (hf : ∀ s a c, c ∈ f s a ↔ c ∈ s ∨ Q a c) :
    ∀ (l : List α) (s : Finset CreatureId) (c : CreatureId),
      c ∈ l.foldl f s ↔ c ∈ s ∨ ∃ a ∈ l, Q a c := by
  intro l
  induction l with
  | nil => simp
  | cons a l ih =>
    intro s c
    rw [List.foldl_cons, ih, hf, or_assoc, List.exists_mem_cons_iff]

theorem mem_scanLeaf (centerPos : Position) (r : SearchRange) (node_list : List CreatureId)
    (spectators : Finset CreatureId) (c : CreatureId) :
    c ∈ m.scanLeaf centerPos r node_list spectators ↔
      c ∈ spectators ∨ (c ∈ node_list ∧ r.Covers centerPos (m.getPosition c)) := by
  unfold scanLeaf
  rw [mem_foldl (fun s d c => m.mem_scanCreature centerPos r s c d)]
  refine or_congr_right ⟨?_, fun h => ⟨c, h.1, rfl, h.2⟩⟩
  rintro ⟨d, hd, rfl, hc⟩
  exact ⟨hd, hc⟩

section Walk

variable {m} (h : m.Linked) (centerPos : Position) (r : SearchRange) (onlyPlayers : Bool)

/-- The list read at a leaf corner, looked up from the root. -/
def scanBlock (m : Map ι) (centerPos : Position) (r : SearchRange) (onlyPlayers : Bool)
    (ny : ℕ) (spectators : Finset CreatureId) (nx : ℕ) : Finset CreatureId :=
  m.scanLeaf centerPos r (m.leafList onlyPlayers nx ny) spectators

include h

/-- Along a row the walk stands at the leaf of the corner: the step to the next
corner follows the link of a leaf or searches past a gap. -/
theorem walkEast_eq (nx ny : ℕ) (spectators : Finset CreatureId) :
    m.walkEast centerPos r onlyPlayers ny (m.root.getLeaf nx ny, spectators) nx =
      (m.root.getLeaf (nx + FLOOR_SIZE) ny,
        scanBlock m centerPos r onlyPlayers ny spectators nx) := by
  unfold scanBlock leafList
  cases hleaf : m.root.getLeaf nx ny with
  | none => rfl
  | some leaf =>
    simp only [walkEast, Option.map_some, Option.getD_some]
    rw [h.east nx ny leaf hleaf]

theorem foldl_walkEast (n ny : ℕ) :
    ∀ (nx : ℕ) (spectators : Finset CreatureId),
      ((List.range' nx n FLOOR_SIZE).foldl (m.walkEast centerPos r onlyPlayers ny)
          (m.root.getLeaf nx ny, spectators)).2 =
        (List.range' nx n FLOOR_SIZE).foldl (scanBlock m centerPos r onlyPlayers ny)
          spectators := by
  induction n with
  | zero => exact fun _ _ => rfl
  | succ n ih =>
    intro nx spectators
    rw [List.range'_succ, List.foldl_cons, List.foldl_cons, walkEast_eq h]
    exact ih (nx + FLOOR_SIZE) _

/-- The same one level up: the walk stands at the first leaf of each row. -/
theorem walkSouth_eq (startx1 endx2 ny : ℕ) (spectators : Finset CreatureId) :
    m.walkSouth centerPos r onlyPlayers startx1 endx2
        (m.root.getLeaf startx1 ny, spectators) ny =
      (m.root.getLeaf startx1 (ny + FLOOR_SIZE),
        (leafSteps startx1 endx2).foldl (scanBlock m centerPos r onlyPlayers ny)
          spectators) := by
  have hrow := foldl_walkEast h centerPos r onlyPlayers
    ((endx2 + FLOOR_SIZE - startx1) / FLOOR_SIZE) ny startx1 spectators
  unfold walkSouth leafSteps
  dsimp only
  rw [hrow]
  cases hleaf : m.root.getLeaf startx1 ny with
  | none => rfl
  | some leaf =>
    dsimp only
    rw [h.south startx1 ny leaf hleaf]

theorem foldl_walkSouth (startx1 endx2 n : ℕ) :
    ∀ (ny : ℕ) (spectators : Finset CreatureId),
      ((List.range' ny n FLOOR_SIZE).foldl
          (m.walkSouth centerPos r onlyPlayers startx1 endx2)
          (m.root.getLeaf startx1 ny, spectators)).2 =
        (List.range' ny n FLOOR_SIZE).foldl (fun spectators ny =>
          (leafSteps startx1 endx2).foldl (scanBlock m centerPos r onlyPlayers ny)
            spectators) spectators := by
  induction n with
  | zero => exact fun _ _ => rfl
  | succ n ih =>
    intro ny spectators
    rw [List.range'_succ, List.foldl_cons, List.foldl_cons, walkSouth_eq h]
    exact ih (ny + FLOOR_SIZE) _

end Walk

/-- Some visited corner lies in the block of a square that the range covers. -/
theorem exists_corner {centerPos p : Position} {r : SearchRange} (hc : r.Covers centerPos p) :
    let minoffset := centerPos.getZ - r.maxRangeZ
    let x1 := clip (centerPos.getX + r.minRangeX + minoffset)
    let y1 := clip (centerPos.getY + r.minRangeY + minoffset)
    let maxoffset := centerPos.getZ - r.minRangeZ
    let x2 := clip (centerPos.getX + r.maxRangeX + maxoffset)
    let y2 := clip (centerPos.getY + r.maxRangeY + maxoffset)
    ∃ ny ∈ leafSteps (y1 - y1 % FLOOR_SIZE) (y2 - y2 % FLOOR_SIZE),
      ∃ nx ∈ leafSteps (x1 - x1 % FLOOR_SIZE) (x2 - x2 % FLOOR_SIZE),
        block nx ny = block p.x.toNat p.y.toNat := by
  obtain ⟨⟨hz1, hz2⟩, ⟨hy1, hy2⟩, hx1, hx2⟩ := hc
  have hpx := p.x.toNat_lt
  have hpy := p.y.toNat_lt
  have hx : p.getX = p.x.toNat := rfl
  have hy : p.getY = p.y.toNat := rfl
  simp only [Position.getOffsetZ, hx, hy] at hx1 hx2 hy1 hy2
  dsimp only
  obtain ⟨nx, hnx, hbx⟩ := exists_leafStep (v := p.x.toNat)
    (clip_le (v := centerPos.getX + r.minRangeX + (centerPos.getZ - r.maxRangeZ)) (by omega))
    (le_clip (v := centerPos.getX + r.maxRangeX + (centerPos.getZ - r.minRangeZ))
      (by omega) hpx)
  obtain ⟨ny, hny, hby⟩ := exists_leafStep (v := p.y.toNat)
    (clip_le (v := centerPos.getY + r.minRangeY + (centerPos.getZ - r.maxRangeZ)) (by omega))
    (le_clip (v := centerPos.getY + r.maxRangeY + (centerPos.getZ - r.minRangeZ))
      (by omega) hpy)
  exact ⟨ny, hny, nx, hnx, by rw [block, block, hbx, hby]⟩

/-- The creature stands on the map: it has a tile and was not removed. -/
def Placed (m : Map ι) (c : CreatureId) : Prop :=
  (m.creatures c).tile.isSome = true ∧ (m.creatures c).isRemoved = false

/-- The lists of a block hold the creatures, or the players, that stand on it. -/
def Listed (isPlayer : CreatureId → Bool) (m : Map ι) : Prop :=
  ∀ onlyPlayers x y c, c ∈ m.leafList onlyPlayers x y ↔
    (m.Placed c ∧ (onlyPlayers = true → isPlayer c = true)) ∧
      block (m.getPosition c).x.toNat (m.getPosition c).y.toNat = block x y

/-- The walk over the leaves finds what a scan over all creatures would find. -/
theorem mem_getSpectatorsInternal {isPlayer : CreatureId → Bool} {m : Map ι} (h : m.Linked)
    (hlist : m.Listed isPlayer) (spectators : Finset CreatureId) (centerPos : Position)
    (r : SearchRange) (onlyPlayers : Bool) (c : CreatureId) :
    c ∈ m.getSpectatorsInternal spectators centerPos r onlyPlayers ↔
      c ∈ spectators ∨ ((m.Placed c ∧ (onlyPlayers = true → isPlayer c = true)) ∧
        r.Covers centerPos (m.getPosition c)) := by
  have hblock : ∀ (ny : ℕ) (s : Finset CreatureId) (nx : ℕ) (c : CreatureId),
      c ∈ scanBlock m centerPos r onlyPlayers ny s nx ↔
        c ∈ s ∨ (c ∈ m.leafList onlyPlayers nx ny ∧
          r.Covers centerPos (m.getPosition c)) :=
    fun ny s nx c => m.mem_scanLeaf centerPos r _ s c
  unfold getSpectatorsInternal
  dsimp only
  rw [leafSteps, foldl_walkSouth h, ← leafSteps,
    mem_foldl fun s ny c => mem_foldl (hblock ny) _ s c]
  refine or_congr_right ⟨?_, ?_⟩
  · rintro ⟨ny, -, nx, -, hmem, hc⟩
    exact ⟨((hlist onlyPlayers nx ny c).mp hmem).1, hc⟩
  · rintro ⟨hfound, hc⟩
    obtain ⟨ny, hny, nx, hnx, hb⟩ := exists_corner hc
    exact ⟨ny, hny, nx, hnx, (hlist onlyPlayers nx ny c).mpr ⟨hfound, hb.symm⟩, hc⟩

end Map

end TibiaServer.World
