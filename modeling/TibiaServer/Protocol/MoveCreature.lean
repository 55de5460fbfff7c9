import Mathlib.Algebra.Order.Group.Abs
import TibiaServer.Protocol.KnownCreatures
import TibiaServer.Protocol.MapDescription
/-!
# What a step of the player describes to the client

`sendMoveCreature` tells the client of the player's own step and then describes what has come
into view: whole floors after a change of floor, and rows and columns.  Each of them belongs to a
position over which the view of the client passes while it reads the message (`Step.views`),
which need not be the old or the new one: a row north or south is still that of the old column.
-/

namespace TibiaServer.Protocol

open World

/-- A position with a floor that the map has. -/
structure MapPosition extends Position where
  layer : z.toNat < MAP_MAX_LAYERS

def MapPosition.floor (p : MapPosition) : Fin MAP_MAX_LAYERS := ⟨p.z.toNat, p.layer⟩

/-- A square, in the `int32_t` numbers of the calls. -/
structure Cell where
  x : ℤ
  y : ℤ
  z : ℕ

/-- `canSee` of a player who stands there. -/
def canSee (myX myY : ℤ) (myZ : ℕ) (c : Cell) : Bool :=
  if myZ ≤ 7 ∧ 7 < c.z then false
  else if 8 ≤ myZ ∧ 2 < |(myZ : ℤ) - c.z| then false
  else
    let offsetz := (myZ : ℤ) - c.z
    myX - 8 + offsetz ≤ c.x && c.x ≤ myX + 9 + offsetz &&
      myY - 6 + offsetz ≤ c.y && c.y ≤ myY + 7 + offsetz

def MapPosition.canSee (p : MapPosition) (c : Cell) : Bool :=
  Protocol.canSee p.getX p.getY p.z.toNat c

/-! ## The message -/

/-- A call of `GetFloorDescription`. -/
structure FloorDescription where
  x : ℤ
  y : ℤ
  z : ℕ
  width : ℕ
  height : ℕ
  offset : ℤ

/-- What is added to the message: a value, or floors whose count of squares without a tile
runs on from one to the next. -/
inductive Part
  | value (bytes : List UInt8)
  | floors (calls : List FloorDescription)

def addByte (n : ℤ) : Part := .value [UInt8.ofNat (n % 256).toNat]

def addPosition (pos : Position) : List Part :=
  [.value [UInt8.ofNat (pos.x.toNat % 256), UInt8.ofNat (pos.x.toNat / 256)],
    .value [UInt8.ofNat (pos.y.toNat % 256), UInt8.ofNat (pos.y.toNat / 256)], .value [pos.z]]

/-- The calls of `GetMapDescription`. -/
def mapDescription (x y : ℤ) (z : Fin MAP_MAX_LAYERS) (width height : ℕ) : Part :=
  .floors ((floors z).map fun (nz : ℕ) => ⟨x, y, nz, width, height, (z : ℤ) - (nz : ℤ)⟩)

/-- `stackpos` is a `uint32_t`. -/
def RemoveTileThing (pos : Position) (stackpos : ℤ) : List Part :=
  if 10 ≤ stackpos % 2 ^ 32 then [] else addByte 0x6C :: addPosition pos ++ [addByte stackpos]

/-- A step of the player's own creature. -/
structure Step where
  oldPos : MapPosition
  newPos : MapPosition
  oldStackPos : ℤ
  teleport : Bool

namespace Step

variable (s : Step)

def MoveUpCreature : List Part :=
  let x := s.oldPos.getX
  let y := s.oldPos.getY
  let z := s.newPos.z.toNat
  addByte 0xBE ::
    (if z = 7 then
      -- floors 7 and 6 are known
      [.floors [⟨x - 8, y - 6, 5, 18, 14, 3⟩, ⟨x - 8, y - 6, 4, 18, 14, 4⟩,
        ⟨x - 8, y - 6, 3, 18, 14, 5⟩, ⟨x - 8, y - 6, 2, 18, 14, 6⟩, ⟨x - 8, y - 6, 1, 18, 14, 7⟩,
        ⟨x - 8, y - 6, 0, 18, 14, 8⟩]]
    else if z > 7 then
      [.floors [⟨x - 8, y - 6, s.oldPos.z.toNat - 3, 18, 14, 3⟩]]
    else []) ++
    [addByte 0x68, mapDescription (x - 8) (y - 5) s.newPos.floor 1 14,
      addByte 0x65, mapDescription (x - 8) (y - 6) s.newPos.floor 18 1]

def MoveDownCreature : List Part :=
  let x := s.oldPos.getX
  let y := s.oldPos.getY
  let z := s.newPos.z.toNat
  addByte 0xBF ::
    (if z = 8 then
      [.floors [⟨x - 8, y - 6, z, 18, 14, -1⟩, ⟨x - 8, y - 6, z + 1, 18, 14, -2⟩,
        ⟨x - 8, y - 6, z + 2, 18, 14, -3⟩]]
    else if z > s.oldPos.z.toNat ∧ z > 8 ∧ z < 14 then
      [.floors [⟨x - 8, y - 6, z + 2, 18, 14, -3⟩]]
    else []) ++
    [addByte 0x66, mapDescription (x + 9) (y - 7) s.newPos.floor 1 14,
      addByte 0x67, mapDescription (x - 8) (y + 7) s.newPos.floor 18 1]

def sendMapDescription : List Part :=
  addByte 0x64 :: addPosition s.newPos.toPosition ++
    [mapDescription (s.newPos.getX - 8) (s.newPos.getY - 6) s.newPos.floor 18 14]

/-- North for old x and south for old x. -/
def rows : List Part :=
  if s.oldPos.getY > s.newPos.getY then
    [addByte 0x65, mapDescription (s.oldPos.getX - 8) (s.newPos.getY - 6) s.newPos.floor 18 1]
  else if s.oldPos.getY < s.newPos.getY then
    [addByte 0x67, mapDescription (s.oldPos.getX - 8) (s.newPos.getY + 7) s.newPos.floor 18 1]
  else []

/-- East and west, with new y. -/
def columns : List Part :=
  if s.oldPos.getX < s.newPos.getX then
    [addByte 0x66, mapDescription (s.newPos.getX + 9) (s.newPos.getY - 6) s.newPos.floor 1 14]
  else if s.oldPos.getX > s.newPos.getX then
    [addByte 0x68, mapDescription (s.newPos.getX - 8) (s.newPos.getY - 6) s.newPos.floor 1 14]
  else []

/-- Where the player's creature has this step; the player stands on the new position. -/
def sendMoveCreature : List Part :=
  if s.oldStackPos ≥ 10 then s.sendMapDescription
  else if s.teleport then
    RemoveTileThing s.oldPos.toPosition s.oldStackPos ++ s.sendMapDescription
  else
    (if s.oldPos.z.toNat = 7 ∧ s.newPos.z.toNat ≥ 8 then
      RemoveTileThing s.oldPos.toPosition s.oldStackPos
    else
      addByte 0x6D :: addPosition s.oldPos.toPosition ++ addByte s.oldStackPos ::
        addPosition s.newPos.toPosition) ++
    (if s.newPos.z.toNat > s.oldPos.z.toNat then s.MoveDownCreature
    else if s.newPos.z.toNat < s.oldPos.z.toNat then s.MoveUpCreature
    else []) ++ s.rows ++ s.columns

end Step

/-! ## The squares that are described -/

namespace FloorDescription

variable (d : FloorDescription)

/-- In the order of the loops. -/
def cells : List Cell :=
  (List.range d.width).flatMap fun (nx : ℕ) =>
    (List.range d.height).map fun (ny : ℕ) =>
      ⟨d.x + nx + d.offset, d.y + ny + d.offset, d.z⟩

theorem mem_cells {d : FloorDescription} {c : Cell} : c ∈ d.cells ↔
    c.z = d.z ∧ (d.x + d.offset ≤ c.x ∧ c.x < d.x + d.offset + d.width) ∧
      d.y + d.offset ≤ c.y ∧ c.y < d.y + d.offset + d.height := by
  unfold cells
  simp only [List.mem_flatMap, List.mem_map, List.mem_range]
  constructor
  · rintro ⟨nx, hnx, ny, hny, rfl⟩
    dsimp only
    omega
  · obtain ⟨x, y, z⟩ := c
    rintro ⟨hz, hx, hy⟩
    dsimp only at hz hx hy
    refine ⟨(x - d.x - d.offset).toNat, by omega, (y - d.y - d.offset).toNat, by omega, ?_⟩
    rw [Cell.mk.injEq]
    omega

end FloorDescription

namespace Part

def cells : Part → List Cell
  | .value _ => []
  | .floors calls => calls.flatMap FloorDescription.cells

end Part

def described (message : List Part) : List Cell := message.flatMap Part.cells

section Written

variable {Description : Type} (reader : Reader Description) {Tile Known : Type}
  (GetTileDescription : Known → Tile → Description × Known)
  (getTile : UInt16 → UInt16 → UInt8 → Option Tile)

/-- What a part adds to the message, to a client that knows these creatures. -/
def Part.values (known : Known) : Part → List (List UInt8)
  | .value bytes => [bytes]
  | .floors calls =>
    (calls.foldl (fun w d =>
      GetFloorDescription reader GetTileDescription getTile d.x d.y d.z d.width d.height d.offset
        w) { written := [], skip := -1, known := known }).finish

def Cell.tile (c : Cell) : Option Tile :=
  getTile (toUInt16 c.x) (toUInt16 c.y) (UInt8.ofNat c.z)

end Written

theorem mem_floors {z : Fin MAP_MAX_LAYERS} {nz : ℕ} : nz ∈ floors z ↔
    7 < z.val ∧ z.val ≤ nz + 2 ∧ nz ≤ z.val + 2 ∧ nz < 16 ∨ z.val ≤ 7 ∧ nz ≤ 7 := by
  have hz : z.val < 16 := z.isLt
  unfold floors MAP_MAX_LAYERS
  split
  · rw [List.mem_range']
    constructor
    · rintro ⟨i, hi, rfl⟩
      omega
    · intro h
      exact ⟨nz - (z.val - 2), by omega, by omega⟩
  · rw [List.mem_reverse, List.mem_range]
    omega

/-- Floors that are shifted by their distance from the floor `z`. -/
theorem mem_shifted {x y z : ℤ} {width height : ℕ} {layers : List ℕ} {c : Cell} :
    c ∈ (Part.floors (layers.map fun (nz : ℕ) => ⟨x, y, nz, width, height, z - nz⟩)).cells ↔
      c.z ∈ layers ∧ (x + (z - c.z) ≤ c.x ∧ c.x < x + (z - c.z) + width) ∧
        y + (z - c.z) ≤ c.y ∧ c.y < y + (z - c.z) + height := by
  unfold Part.cells
  simp only [List.mem_flatMap, List.mem_map, exists_exists_and_eq_and, FloorDescription.mem_cells]
  constructor
  · rintro ⟨nz, hnz, hz, h⟩
    rw [hz]
    exact ⟨hnz, h⟩
  · rintro ⟨hnz, h⟩
    exact ⟨c.z, hnz, rfl, h⟩

theorem mem_mapDescription {x y : ℤ} {z : Fin MAP_MAX_LAYERS} {width height : ℕ} {c : Cell} :
    c ∈ (mapDescription x y z width height).cells ↔
      c.z ∈ floors z ∧
        (x + (z - c.z) ≤ c.x ∧ c.x < x + (z - c.z) + width) ∧
          y + (z - c.z) ≤ c.y ∧ c.y < y + (z - c.z) + height :=
  mem_shifted

theorem canSee_iff {x y : ℤ} {z : Fin MAP_MAX_LAYERS} {c : Cell} (hc : c.z < MAP_MAX_LAYERS) :
    canSee x y z c = true ↔ c.z ∈ floors z ∧
      (x - 8 + (z - c.z) ≤ c.x ∧ c.x ≤ x + 9 + (z - c.z)) ∧
        y - 6 + (z - c.z) ≤ c.y ∧ c.y ≤ y + 7 + (z - c.z) := by
  have hz : z.val < 16 := z.isLt
  rw [mem_floors]
  unfold canSee MAP_MAX_LAYERS at *
  split
  · refine iff_of_false (by simp) ?_
    omega
  · split
    next hfar =>
      rw [lt_abs] at hfar
      refine iff_of_false (by simp) ?_
      omega
    next hnear =>
      rw [lt_abs] at hnear
      simp only [Bool.and_eq_true, decide_eq_true_eq]
      omega

@[simp] theorem described_append (a b : List Part) :
    described (a ++ b) = described a ++ described b :=
  List.flatMap_append

@[simp] theorem described_cons (part : Part) (a : List Part) :
    described (part :: a) = part.cells ++ described a := rfl

@[simp] theorem described_nil : described [] = [] := rfl

@[simp] theorem cells_addByte (n : ℤ) : (addByte n).cells = [] := rfl

@[simp] theorem described_addPosition (pos : Position) : described (addPosition pos) = [] := rfl

@[simp] theorem described_RemoveTileThing (pos : Position) (stackpos : ℤ) :
    described (RemoveTileThing pos stackpos) = [] := by
  unfold RemoveTileThing
  split <;> simp

namespace Step

variable {s : Step} {c : Cell}

theorem mem_rows : c ∈ described s.rows ↔
    c.z ∈ floors s.newPos.floor ∧
      (s.oldPos.getX - 8 + (s.newPos.z.toNat - c.z) ≤ c.x ∧
        c.x ≤ s.oldPos.getX + 9 + (s.newPos.z.toNat - c.z)) ∧
      (s.newPos.getY < s.oldPos.getY ∧ c.y = s.newPos.getY - 6 + (s.newPos.z.toNat - c.z) ∨
        s.oldPos.getY < s.newPos.getY ∧ c.y = s.newPos.getY + 7 + (s.newPos.z.toNat - c.z)) := by
  unfold rows
  split
  · simp only [described_cons, cells_addByte, described_nil, List.nil_append, List.append_nil,
      mem_mapDescription, MapPosition.floor]
    refine and_congr_right fun _ => ?_
    omega
  · split
    · simp only [described_cons, cells_addByte, described_nil, List.nil_append, List.append_nil,
        mem_mapDescription, MapPosition.floor]
      refine and_congr_right fun _ => ?_
      omega
    · refine iff_of_false List.not_mem_nil ?_
      rintro ⟨-, -, h⟩
      omega

theorem mem_columns : c ∈ described s.columns ↔
    c.z ∈ floors s.newPos.floor ∧
      (s.newPos.getY - 6 + (s.newPos.z.toNat - c.z) ≤ c.y ∧
        c.y ≤ s.newPos.getY + 7 + (s.newPos.z.toNat - c.z)) ∧
      (s.oldPos.getX < s.newPos.getX ∧ c.x = s.newPos.getX + 9 + (s.newPos.z.toNat - c.z) ∨
        s.newPos.getX < s.oldPos.getX ∧ c.x = s.newPos.getX - 8 + (s.newPos.z.toNat - c.z)) := by
  unfold columns
  split
  · simp only [described_cons, cells_addByte, described_nil, List.nil_append, List.append_nil,
      mem_mapDescription, MapPosition.floor]
    refine and_congr_right fun _ => ?_
    omega
  · split
    · simp only [described_cons, cells_addByte, described_nil, List.nil_append, List.append_nil,
        mem_mapDescription, MapPosition.floor]
      refine and_congr_right fun _ => ?_
      omega
    · refine iff_of_false List.not_mem_nil ?_
      rintro ⟨-, -, h⟩
      omega

theorem mem_sendMapDescription : c ∈ described s.sendMapDescription ↔
    c.z ∈ floors s.newPos.floor ∧
      (s.newPos.getX - 8 + (s.newPos.z.toNat - c.z) ≤ c.x ∧
        c.x ≤ s.newPos.getX + 9 + (s.newPos.z.toNat - c.z)) ∧
      s.newPos.getY - 6 + (s.newPos.z.toNat - c.z) ≤ c.y ∧
        c.y ≤ s.newPos.getY + 7 + (s.newPos.z.toNat - c.z) := by
  unfold sendMapDescription
  simp only [described_cons, described_append, cells_addByte, described_addPosition, described_nil,
    List.nil_append, List.append_nil, mem_mapDescription, MapPosition.floor]
  refine and_congr_right fun _ => ?_
  omega

/-- The column and the row by which the view is shifted. -/
theorem mem_shift {ex ey fx fy : ℤ} {a b : ℤ} :
    c ∈ described [addByte a, mapDescription ex ey s.newPos.floor 1 14,
      addByte b, mapDescription fx fy s.newPos.floor 18 1] ↔
    c.z ∈ floors s.newPos.floor ∧
      (c.x = ex + (s.newPos.z.toNat - c.z) ∧
          (ey + (s.newPos.z.toNat - c.z) ≤ c.y ∧ c.y ≤ ey + 13 + (s.newPos.z.toNat - c.z)) ∨
        c.y = fy + (s.newPos.z.toNat - c.z) ∧
          (fx + (s.newPos.z.toNat - c.z) ≤ c.x ∧ c.x ≤ fx + 17 + (s.newPos.z.toNat - c.z))) := by
  simp only [described_cons, cells_addByte, described_nil, List.mem_append, List.nil_append,
    List.append_nil, mem_mapDescription, MapPosition.floor, ← and_or_left]
  refine and_congr_right fun _ => ?_
  omega

/-- The floors that come into view, as they would be seen from the old floor. -/
theorem mem_MoveUpCreature (hz : s.newPos.z.toNat + 1 = s.oldPos.z.toNat) :
    c ∈ described s.MoveUpCreature ↔
      (s.newPos.z.toNat = 7 ∧ c.z ≤ 5 ∨ 7 < s.newPos.z.toNat ∧ c.z + 3 = s.oldPos.z.toNat) ∧
        (s.oldPos.getX - 8 + (s.oldPos.z.toNat - c.z) ≤ c.x ∧
          c.x ≤ s.oldPos.getX + 9 + (s.oldPos.z.toNat - c.z)) ∧
        (s.oldPos.getY - 6 + (s.oldPos.z.toNat - c.z) ≤ c.y ∧
          c.y ≤ s.oldPos.getY + 7 + (s.oldPos.z.toNat - c.z)) ∨
      c.z ∈ floors s.newPos.floor ∧
        (c.x = s.oldPos.getX - 8 + (s.newPos.z.toNat - c.z) ∧
          (s.oldPos.getY - 5 + (s.newPos.z.toNat - c.z) ≤ c.y ∧
            c.y ≤ s.oldPos.getY + 8 + (s.newPos.z.toNat - c.z)) ∨
        c.y = s.oldPos.getY - 6 + (s.newPos.z.toNat - c.z) ∧
          (s.oldPos.getX - 8 + (s.newPos.z.toNat - c.z) ≤ c.x ∧
            c.x ≤ s.oldPos.getX + 9 + (s.newPos.z.toNat - c.z))) := by
  have hold : s.oldPos.z.toNat < 16 := s.oldPos.layer
  unfold MoveUpCreature
  dsimp only
  rw [described_append, described_cons, cells_addByte, List.nil_append, List.mem_append, mem_shift]
  refine or_congr ?_ (and_congr_right fun _ => by omega)
  split
  next h7 =>
    have hcalls := @mem_shifted (s.oldPos.getX - 8) (s.oldPos.getY - 6) 8 18 14
      [5, 4, 3, 2, 1, 0] c
    rw [described_cons, described_nil, List.append_nil]
    refine Iff.trans hcalls ?_
    simp only [List.mem_cons, List.not_mem_nil, or_false]
    omega
  next h7 =>
    split
    next hunder =>
      have hcalls := @mem_shifted (s.oldPos.getX - 8) (s.oldPos.getY - 6)
        ((s.oldPos.z.toNat - 3 : ℕ) + 3) 18 14 [s.oldPos.z.toNat - 3] c
      rw [described_cons, described_nil, List.append_nil]
      rw [List.map_singleton, add_sub_cancel_left, List.mem_singleton] at hcalls
      refine hcalls.trans ?_
      omega
    next hover =>
      refine iff_of_false List.not_mem_nil ?_
      rintro ⟨h, -⟩
      omega

/-- The floors that come into view, as they would be seen from the old floor. -/
theorem mem_MoveDownCreature (hz : s.newPos.z.toNat = s.oldPos.z.toNat + 1) :
    c ∈ described s.MoveDownCreature ↔
      (s.newPos.z.toNat = 8 ∧ 8 ≤ c.z ∧ c.z ≤ 10 ∨
          8 < s.newPos.z.toNat ∧ s.newPos.z.toNat < 14 ∧ c.z = s.newPos.z.toNat + 2) ∧
        (s.oldPos.getX - 8 + (s.oldPos.z.toNat - c.z) ≤ c.x ∧
          c.x ≤ s.oldPos.getX + 9 + (s.oldPos.z.toNat - c.z)) ∧
        (s.oldPos.getY - 6 + (s.oldPos.z.toNat - c.z) ≤ c.y ∧
          c.y ≤ s.oldPos.getY + 7 + (s.oldPos.z.toNat - c.z)) ∨
      c.z ∈ floors s.newPos.floor ∧
        (c.x = s.oldPos.getX + 9 + (s.newPos.z.toNat - c.z) ∧
          (s.oldPos.getY - 7 + (s.newPos.z.toNat - c.z) ≤ c.y ∧
            c.y ≤ s.oldPos.getY + 6 + (s.newPos.z.toNat - c.z)) ∨
        c.y = s.oldPos.getY + 7 + (s.newPos.z.toNat - c.z) ∧
          (s.oldPos.getX - 8 + (s.newPos.z.toNat - c.z) ≤ c.x ∧
            c.x ≤ s.oldPos.getX + 9 + (s.newPos.z.toNat - c.z))) := by
  unfold MoveDownCreature
  dsimp only
  rw [described_append, described_cons, cells_addByte, List.nil_append, List.mem_append, mem_shift]
  refine or_congr ?_ (and_congr_right fun _ => by omega)
  split
  next h8 =>
    have hcalls := @mem_shifted (s.oldPos.getX - 8) (s.oldPos.getY - 6) 7 18 14 [8, 9, 10] c
    have hold : s.oldPos.z.toNat = 7 := by omega
    rw [described_cons, described_nil, List.append_nil, h8, hold]
    refine Iff.trans hcalls ?_
    simp only [List.mem_cons, List.not_mem_nil, or_false, Nat.cast_ofNat, true_and]
    omega
  next h8 =>
    split
    next hunder =>
      have hcalls := @mem_shifted (s.oldPos.getX - 8) (s.oldPos.getY - 6)
        ((s.newPos.z.toNat + 2 : ℕ) + -3) 18 14 [s.newPos.z.toNat + 2] c
      rw [described_cons, described_nil, List.append_nil]
      rw [List.map_singleton, add_sub_cancel_left, List.mem_singleton] at hcalls
      refine hcalls.trans ?_
      omega
    next hdeep =>
      refine iff_of_false List.not_mem_nil ?_
      rintro ⟨h, -⟩
      omega

/-! ## What comes into view -/

/-- The positions on the new floor over which the view of the client passes: it is shifted by the
change of floor, and moved back by a column and a row, and goes on by the rows and columns. -/
def views (s : Step) : List (ℤ × ℤ) :=
  let x := s.oldPos.getX
  let y := s.oldPos.getY
  (if s.newPos.z.toNat < s.oldPos.z.toNat then [(x + 1, y + 1), (x, y + 1)]
  else if s.newPos.z.toNat > s.oldPos.z.toNat then [(x - 1, y - 1), (x, y - 1)]
  else []) ++ [(x, y), (x, s.newPos.getY), (s.newPos.getX, s.newPos.getY)]

/-- A step by at most one square in each direction. -/
structure Single (s : Step) : Prop where
  x : |s.newPos.getX - s.oldPos.getX| ≤ 1
  y : |s.newPos.getY - s.oldPos.getY| ≤ 1
  z : |s.newPos.getZ - s.oldPos.getZ| ≤ 1
  reported : s.teleport = false

theorem mem_sendMoveCreature (hstack : s.oldStackPos < 10) (hreported : s.teleport = false) :
    c ∈ described s.sendMoveCreature ↔
      (s.newPos.z.toNat > s.oldPos.z.toNat ∧ c ∈ described s.MoveDownCreature ∨
        s.newPos.z.toNat < s.oldPos.z.toNat ∧ c ∈ described s.MoveUpCreature) ∨
      c ∈ described s.rows ∨ c ∈ described s.columns := by
  have hnotice : described (if s.oldPos.z.toNat = 7 ∧ s.newPos.z.toNat ≥ 8 then
      RemoveTileThing s.oldPos.toPosition s.oldStackPos
    else
      addByte 0x6D :: addPosition s.oldPos.toPosition ++ addByte s.oldStackPos ::
        addPosition s.newPos.toPosition) = [] := by
    split <;> simp
  unfold sendMoveCreature
  rw [if_neg (by omega), hreported, if_neg (by simp)]
  simp only [described_append, hnotice, List.nil_append, List.mem_append]
  rw [or_assoc]
  refine or_congr ?_ Iff.rfl
  split
  next hdown => simp [hdown, Nat.le_of_lt hdown]
  next hdown =>
    split
    next hup => simp [hup, Nat.le_of_lt hup]
    next hup => simp [hdown, hup]

/-- What is seen from the new position and is not in the last row and column is seen from above or
below the old position, on the new floor. -/
theorem mem_rows_or_columns (h : s.Single) (hfloor : c.z ∈ floors s.newPos.floor)
    (hx : s.newPos.getX - 8 + (s.newPos.z.toNat - c.z) ≤ c.x ∧
      c.x ≤ s.newPos.getX + 9 + (s.newPos.z.toNat - c.z))
    (hy : s.newPos.getY - 6 + (s.newPos.z.toNat - c.z) ≤ c.y ∧
      c.y ≤ s.newPos.getY + 7 + (s.newPos.z.toNat - c.z)) :
    (c ∈ described s.rows ∨ c ∈ described s.columns) ∨
      (s.oldPos.getX - 8 + (s.newPos.z.toNat - c.z) ≤ c.x ∧
        c.x ≤ s.oldPos.getX + 9 + (s.newPos.z.toNat - c.z)) ∧
      s.oldPos.getY - 6 + (s.newPos.z.toNat - c.z) ≤ c.y ∧
        c.y ≤ s.oldPos.getY + 7 + (s.newPos.z.toNat - c.z) := by
  have hstepx := abs_le.mp h.x
  have hstepy := abs_le.mp h.y
  by_cases hcolumn : s.oldPos.getX - 8 + (s.newPos.z.toNat - c.z) ≤ c.x ∧
      c.x ≤ s.oldPos.getX + 9 + (s.newPos.z.toNat - c.z)
  · by_cases hrow : s.oldPos.getY - 6 + (s.newPos.z.toNat - c.z) ≤ c.y ∧
        c.y ≤ s.oldPos.getY + 7 + (s.newPos.z.toNat - c.z)
    · exact .inr ⟨hcolumn, hrow⟩
    · refine .inl (.inl (mem_rows.mpr ⟨hfloor, hcolumn, ?_⟩))
      omega
  · refine .inl (.inr (mem_columns.mpr ⟨hfloor, hy, ?_⟩))
    omega

/-- Every square of the map that comes into view with the step is described. -/
theorem described_of_canSee (h : s.Single) (hc : c.z < MAP_MAX_LAYERS)
    (hnew : s.newPos.canSee c = true) (hold : ¬s.oldPos.canSee c = true) :
    c ∈ described s.sendMoveCreature := by
  obtain ⟨hfloor, hx, hy⟩ := (@canSee_iff s.newPos.getX s.newPos.getY s.newPos.floor c hc).mp hnew
  have hunseen := mt (@canSee_iff s.oldPos.getX s.oldPos.getY s.oldPos.floor c hc).mpr hold
  by_cases hstack : 10 ≤ s.oldStackPos
  · rw [sendMoveCreature, if_pos hstack, mem_sendMapDescription]
    exact ⟨hfloor, hx, hy⟩
  · rw [mem_sendMoveCreature (by omega) h.reported]
    rcases mem_rows_or_columns h hfloor hx hy with hlast | ⟨hx, hy⟩
    · exact .inr hlast
    · have hz := abs_le.mp h.z
      have hlayer : c.z < 16 := hc
      have hfloors := mem_floors.mp hfloor
      unfold Position.getZ at hz
      rw [mem_floors] at hunseen
      simp only [MapPosition.floor] at hfloors hunseen
      left
      rcases lt_trichotomy s.newPos.z.toNat s.oldPos.z.toNat with hup | hlevel | hdown
      · refine .inr ⟨hup, (mem_MoveUpCreature (by omega)).mpr ?_⟩
        by_cases hshift : c.x = s.oldPos.getX - 8 + (s.newPos.z.toNat - c.z) ∨
            c.y = s.oldPos.getY - 6 + (s.newPos.z.toNat - c.z)
        · refine .inr ⟨hfloor, ?_⟩
          omega
        · left
          omega
      · rw [hlevel] at hfloors hx hy
        exact absurd ⟨hfloors, hx, hy⟩ hunseen
      · refine .inl ⟨hdown, (mem_MoveDownCreature (by omega)).mpr ?_⟩
        by_cases hshift : c.x = s.oldPos.getX + 9 + (s.newPos.z.toNat - c.z) ∨
            c.y = s.oldPos.getY + 7 + (s.newPos.z.toNat - c.z)
        · refine .inr ⟨hfloor, ?_⟩
          omega
        · left
          omega

theorem mem_views_new : (s.newPos.getX, s.newPos.getY) ∈ s.views := by simp [views]

theorem mem_views_row : (s.oldPos.getX, s.newPos.getY) ∈ s.views := by simp [views]

theorem mem_views_old : (s.oldPos.getX, s.oldPos.getY) ∈ s.views := by simp [views]

theorem mem_views_up (h : s.newPos.z.toNat < s.oldPos.z.toNat) :
    (s.oldPos.getX + 1, s.oldPos.getY + 1) ∈ s.views ∧
      (s.oldPos.getX, s.oldPos.getY + 1) ∈ s.views := by
  simp [views, h]

theorem mem_views_down (h : s.newPos.z.toNat > s.oldPos.z.toNat) :
    (s.oldPos.getX - 1, s.oldPos.getY - 1) ∈ s.views ∧
      (s.oldPos.getX, s.oldPos.getY - 1) ∈ s.views := by
  simp [views, h, Nat.not_lt_of_gt h]

/-- What is described is in the view from one of the positions over which it passes. -/
theorem canSee_of_described (h : s.Single) (hdesc : c ∈ described s.sendMoveCreature) :
    ∃ view ∈ s.views, canSee view.1 view.2 s.newPos.z.toNat c = true := by
  have hlayer : s.newPos.z.toNat < 16 := s.newPos.layer
  have hz := abs_le.mp h.z
  unfold Position.getZ at hz
  -- the floors first, for `canSee` asks for them wherever the view is
  have hsees : ∀ x y, (x, y) ∈ s.views → c.z ∈ floors s.newPos.floor →
      (x - 8 + (s.newPos.z.toNat - c.z) ≤ c.x ∧ c.x ≤ x + 9 + (s.newPos.z.toNat - c.z)) →
      (y - 6 + (s.newPos.z.toNat - c.z) ≤ c.y ∧ c.y ≤ y + 7 + (s.newPos.z.toNat - c.z)) →
      ∃ view ∈ s.views, canSee view.1 view.2 s.newPos.z.toNat c = true := by
    intro x y hview hfloor hx hy
    have hc : c.z < MAP_MAX_LAYERS := by
      rw [mem_floors] at hfloor
      unfold MAP_MAX_LAYERS
      omega
    exact ⟨(x, y), hview, (@canSee_iff x y s.newPos.floor c hc).mpr ⟨hfloor, hx, hy⟩⟩
  by_cases hstack : 10 ≤ s.oldStackPos
  · rw [sendMoveCreature, if_pos hstack, mem_sendMapDescription] at hdesc
    exact hsees _ _ mem_views_new hdesc.1 hdesc.2.1 hdesc.2.2
  · rw [mem_sendMoveCreature (by omega) h.reported] at hdesc
    rcases hdesc with (⟨hdown, hdesc⟩ | ⟨hup, hdesc⟩) | hdesc | hdesc
    · rw [mem_MoveDownCreature (by omega)] at hdesc
      rcases hdesc with ⟨hfloor, hx, hy⟩ | ⟨hfloor, hcolumn | hrow⟩
      · refine hsees _ _ (mem_views_down hdown).1 ?_ (by omega) (by omega)
        rw [mem_floors]
        simp only [MapPosition.floor]
        omega
      · exact hsees _ _ (mem_views_down hdown).2 hfloor (by omega) (by omega)
      · exact hsees _ _ mem_views_old hfloor (by omega) (by omega)
    · rw [mem_MoveUpCreature (by omega)] at hdesc
      rcases hdesc with ⟨hfloor, hx, hy⟩ | ⟨hfloor, hcolumn | hrow⟩
      · refine hsees _ _ (mem_views_up hup).1 ?_ (by omega) (by omega)
        rw [mem_floors]
        simp only [MapPosition.floor]
        omega
      · exact hsees _ _ (mem_views_up hup).2 hfloor (by omega) (by omega)
      · exact hsees _ _ mem_views_old hfloor (by omega) (by omega)
    · rw [mem_rows] at hdesc
      obtain ⟨hfloor, hx, hy⟩ := hdesc
      exact hsees _ _ mem_views_row hfloor (by omega) (by omega)
    · rw [mem_columns] at hdesc
      obtain ⟨hfloor, hy, hx⟩ := hdesc
      exact hsees _ _ mem_views_new hfloor (by omega) (by omega)

/-- Every square of the map that comes into view with a step is described, and nothing else than
squares in the view from the positions over which it passes. -/
theorem sendMoveCreature_complete (s : Step) (h : s.Single) :
    (∀ c : Cell, c.z < MAP_MAX_LAYERS → s.newPos.canSee c = true → ¬s.oldPos.canSee c = true →
      c ∈ described s.sendMoveCreature) ∧
    ∀ c ∈ described s.sendMoveCreature,
      ∃ view ∈ s.views, canSee view.1 view.2 s.newPos.z.toNat c = true :=
  ⟨fun _ hc hnew hold => described_of_canSee h hc hnew hold, fun _ hdesc =>
    canSee_of_described h hdesc⟩

/-- A step to the north-east. -/
def northEast : Step where
  oldPos := { x := 100, y := 100, z := 7, layer := by decide }
  newPos := { x := 101, y := 99, z := 7, layer := by decide }
  oldStackPos := 1
  teleport := false

theorem northEast_complete :
    (∀ c : Cell, c.z < MAP_MAX_LAYERS → northEast.newPos.canSee c = true →
      ¬northEast.oldPos.canSee c = true → c ∈ described northEast.sendMoveCreature) ∧
    ∀ c ∈ described northEast.sendMoveCreature,
      ∃ view ∈ northEast.views, canSee view.1 view.2 northEast.newPos.z.toNat c = true :=
  sendMoveCreature_complete northEast ⟨by decide, by decide, by decide, rfl⟩

/-- The row begins with the old column: its first square is in neither window. -/
theorem northEast_describes_corner :
    northEast.Single ∧ (⟨92, 93, 7⟩ : Cell) ∈ described northEast.sendMoveCreature ∧
      ¬northEast.newPos.canSee ⟨92, 93, 7⟩ = true ∧
        ¬northEast.oldPos.canSee ⟨92, 93, 7⟩ = true := by
  refine ⟨⟨by decide, by decide, by decide, rfl⟩, ?_, by decide, by decide⟩
  rw [mem_sendMoveCreature (by decide) rfl, mem_rows]
  exact .inr (.inl ⟨mem_floors.mpr (by decide), by decide, by decide⟩)

/-- Described in whole. -/
theorem described_of_whole (h : s.teleport = true ∨ 10 ≤ s.oldStackPos)
    (hc : c ∈ described s.sendMapDescription) : c ∈ described s.sendMoveCreature := by
  unfold sendMoveCreature
  split
  · exact hc
  next hstack =>
    rw [if_pos (h.resolve_right hstack), described_append]
    exact List.mem_append_right _ hc

end Step

/-! ## Walks -/

/-- What a client keeps: the squares that were described and have been in view since. -/
structure View where
  pos : MapPosition
  known : Set Cell

open Classical in
/-- A move from where the player stands, single or described in whole. -/
noncomputable def View.step (v : View) (s : Step) : Option View :=
  if s.oldPos = v.pos ∧ (s.Single ∨ s.teleport = true ∨ 10 ≤ s.oldStackPos) then
    some ⟨s.newPos, {c | (c ∈ v.known ∨ c ∈ described s.sendMoveCreature) ∧ s.newPos.canSee c}⟩
  else none

def View.Complete (v : View) : Prop :=
  ∀ c : Cell, c.z < MAP_MAX_LAYERS → v.pos.canSee c = true → c ∈ v.known

theorem mem_sendMapDescription_of_canSee {s : Step} {c : Cell} (hc : c.z < MAP_MAX_LAYERS)
    (hsee : s.newPos.canSee c = true) : c ∈ described s.sendMapDescription :=
  Step.mem_sendMapDescription.mpr
    ((@canSee_iff s.newPos.getX s.newPos.getY s.newPos.floor c hc).mp hsee)

/-- After the first description no walk leaves the client without a square that it sees. -/
theorem always_complete (start : Step) (steps : List Step) :
    Library.Run.Always View.step View.Complete
      ⟨start.newPos, {c | c ∈ described start.sendMapDescription}⟩ steps := by
  refine Library.Run.always_of_invariant (I := View.Complete) (fun v s w hv hstep => ?_)
    (fun _ hv => hv) steps _ fun _ hc hsee => mem_sendMapDescription_of_canSee hc hsee
  unfold View.step at hstep
  split at hstep
  next hs =>
    cases hstep
    intro c hc hsee
    refine ⟨?_, hsee⟩
    by_cases hold : v.pos.canSee c = true
    · exact .inl (hv c hc hold)
    · right
      rcases hs.2 with hsingle | hwhole
      · exact Step.described_of_canSee hsingle hc hsee (hs.1 ▸ hold)
      · exact Step.described_of_whole hwhole (mem_sendMapDescription_of_canSee hc hsee)
  next => cases hstep

end TibiaServer.Protocol
