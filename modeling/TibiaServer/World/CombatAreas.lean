import Mathlib.Data.Set.Image
import TibiaServer.World.Position
/-!
# Combat areas

`AreaCombat` keeps a matrix of cells for each direction.  The one for the north, or for the
north-west, is given as a list; the others are copied from it, turned or mirrored.  A write
outside of the allocated rows and columns has no result here.
-/

namespace TibiaServer.World

/-- The center is an `int` here: the subtractions that yield it may wrap around, and so does
every difference that it is used in. -/
structure MatrixArea where
  rows : ℕ
  cols : ℕ
  data : ℤ → ℤ → Bool := fun _ _ => false
  centerX : ℤ := 0
  centerY : ℤ := 0

namespace MatrixArea

/-- The cell in this row and column is allocated. -/
def Allocated (a : MatrixArea) (row col : ℤ) : Prop :=
  0 ≤ row ∧ row < a.rows ∧ 0 ≤ col ∧ col < a.cols

instance (a : MatrixArea) (row col : ℤ) : Decidable (a.Allocated row col) :=
  inferInstanceAs (Decidable (_ ∧ _))

def put (a : MatrixArea) (row col : ℤ) (value : Bool) : MatrixArea :=
  { a with data := fun y x => if y = row ∧ x = col then value else a.data y x }

def setValue (a : MatrixArea) (row col : ℤ) (value : Bool) : Option MatrixArea :=
  if a.Allocated row col then some (a.put row col value) else none

def getValue (a : MatrixArea) (row col : ℤ) : Bool := a.data row col

def setCenter (a : MatrixArea) (y x : ℤ) : MatrixArea := { a with centerX := x, centerY := y }

theorem getValue_put (a : MatrixArea) (cell other : ℤ × ℤ) (value : Bool) :
    (a.put cell.1 cell.2 value).getValue other.1 other.2 =
      if cell = other then value else a.getValue other.1 other.2 :=
  if_congr ⟨fun h => Prod.ext h.1.symm h.2.symm, fun h => h ▸ ⟨rfl, rfl⟩⟩ rfl rfl

/-- The cells that are set, seen from the center. -/
def offsets (a : MatrixArea) : Set (ℤ × ℤ) :=
  {d | ∃ y x : ℕ, y < a.rows ∧ x < a.cols ∧ a.getValue y x = true ∧
    d = (x - a.centerX, y - a.centerY)}

end MatrixArea

inductive MatrixOperation_t
  | COPY
  | MIRROR
  | FLIP
  | ROTATE90
  | ROTATE180
  | ROTATE270
  deriving DecidableEq, Repr

structure AreaCombat where
  areas : Direction → Option MatrixArea := fun _ => none
  hasExtArea : Bool := false

namespace AreaCombat

/-- `cos` and `sin` of the angle. -/
def rotation : MatrixOperation_t → ℤ × ℤ
  | .ROTATE90 => (0, 1)
  | .ROTATE180 => (-1, 0)
  | .ROTATE270 => (0, -1)
  | _ => (1, 0)

/-- A cell as its row and its column. -/
abbrev Cell := ℤ × ℤ

/-- Where a rotation writes what stands in column `x` and row `y`. -/
def rotatedCell (input output : MatrixArea) (op : MatrixOperation_t) (x y : ℕ) : Cell :=
  let rotateCenterX : ℤ := output.cols / 2 - 1
  let rotateCenterY : ℤ := output.rows / 2 - 1
  let (cos, sin) := rotation op
  let newX := x - input.centerX
  let newY := y - input.centerY
  let rotatedX := newX * cos + newY * -sin
  let rotatedY := newX * sin + newY * cos
  (rotatedY + rotateCenterY, rotatedX + rotateCenterX)

/-- The writes of the loops in their order: the cell written and the cell it is read from. -/
def copies (input output : MatrixArea) : MatrixOperation_t → List (Cell × Cell)
  | .COPY =>
    (List.range input.rows).flatMap fun y : ℕ => (List.range input.cols).map fun x : ℕ =>
      ((y, x), (y, x))
  | .MIRROR =>
    (List.range input.rows).flatMap fun y =>
      (List.range input.cols).reverse.zipIdx.map fun (x, rx) => ((y, rx), (y, x))
  | .FLIP =>
    (List.range input.cols).flatMap fun x =>
      (List.range input.rows).reverse.zipIdx.map fun (y, ry) => ((ry, x), (y, x))
  | op =>
    (List.range input.cols).flatMap fun x => (List.range input.rows).map fun y =>
      (rotatedCell input output op x y, (y, x))

/-- The row and the column of the center of the output. -/
def copyCenter (input output : MatrixArea) : MatrixOperation_t → Cell
  | .COPY => (input.centerY, input.centerX)
  | .MIRROR => (input.centerY, (input.rows - 1) - input.centerX)
  | .FLIP => ((input.cols - 1) - input.centerY, input.centerX)
  | _ => (output.rows / 2 - 1, output.cols / 2 - 1)

def write (input : MatrixArea) (output : MatrixArea) (copy : Cell × Cell) : Option MatrixArea :=
  output.setValue copy.1.1 copy.1.2 (input.getValue copy.2.1 copy.2.2)

def copyArea (input output : MatrixArea) (op : MatrixOperation_t) : Option MatrixArea := do
  let center := copyCenter input output op
  let written ← (copies input output op).foldlM (write input) output
  return written.setCenter center.1 center.2

/-- The loop of `createArea` at column `x` and row `y`. -/
def createLoop (cols : ℕ) : List ℕ → ℕ → ℕ → MatrixArea → Option MatrixArea
  | [], _, _, area => some area
  | value :: list, x, y, area => do
      let area ← (if value = 1 ∨ value = 3 then area.setValue y x true else some area)
      let area := if value = 2 ∨ value = 3 then area.setCenter y x else area
      if cols = x + 1 then createLoop cols list 0 (y + 1) area
      else createLoop cols list (x + 1) y area

def createArea (list : List ℕ) (rows : ℕ) : Option MatrixArea :=
  let cols := if rows = 0 then 0 else list.length / rows
  createLoop cols list 0 0 { rows := rows, cols := cols }

def setArea (c : AreaCombat) (dir : Direction) (area : MatrixArea) : AreaCombat :=
  { c with areas := fun d => if d = dir then some area else c.areas d }

/-- `new MatrixArea(maxOutput, maxOutput)`. -/
def outputFor (area : MatrixArea) : MatrixArea :=
  let maxOutput := max area.cols area.rows * 2
  { rows := maxOutput, cols := maxOutput }

def setupArea (c : AreaCombat) (list : List ℕ) (rows : ℕ) : Option AreaCombat := do
  let area ← createArea list rows
  let southArea ← copyArea area (outputFor area) .ROTATE180
  let eastArea ← copyArea area (outputFor area) .ROTATE90
  let westArea ← copyArea area (outputFor area) .ROTATE270
  return (((c.setArea .NORTH area).setArea .SOUTH southArea).setArea .EAST eastArea).setArea
    .WEST westArea

def setupExtArea (c : AreaCombat) (list : List ℕ) (rows : ℕ) : Option AreaCombat := do
  if list = [] then return c
  let area ← createArea list rows
  let neArea ← copyArea area (outputFor area) .MIRROR
  let swArea ← copyArea area (outputFor area) .FLIP
  let seArea ← copyArea swArea (outputFor area) .MIRROR
  return { (((c.setArea .NORTHWEST area).setArea .NORTHEAST neArea).setArea .SOUTHWEST
    swArea).setArea .SOUTHEAST seArea with hasExtArea := true }

/-! ## The cells of a copy -/

/-- A sequence of allocated writes goes through, and a cell holds what is written to it. -/
theorem foldlM_write (input : MatrixArea) (l : List (Cell × Cell)) (out : MatrixArea)
    (hin : ∀ v ∈ l, out.Allocated v.1.1 v.1.2)
    (honce : ∀ v ∈ l, ∀ w ∈ l, v.1 = w.1 → v.2 = w.2) :
    ∃ out', l.foldlM (write input) out = some out' ∧ out'.rows = out.rows ∧
      out'.cols = out.cols ∧ ∀ cell : Cell, out'.getValue cell.1 cell.2 = true ↔
        (∃ v ∈ l, v.1 = cell ∧ input.getValue v.2.1 v.2.2 = true) ∨
          (∀ v ∈ l, v.1 ≠ cell) ∧ out.getValue cell.1 cell.2 = true := by
  induction l generalizing out with
  | nil => exact ⟨out, rfl, rfl, rfl, fun cell => by simp⟩
  | cons v l ih =>
    have hset : write input out v = some (out.put v.1.1 v.1.2 (input.getValue v.2.1 v.2.2)) :=
      if_pos (hin v List.mem_cons_self)
    obtain ⟨out', hout', hrows, hcols, hcells⟩ :=
      ih (out.put v.1.1 v.1.2 (input.getValue v.2.1 v.2.2))
        (fun w hw => hin w (List.mem_cons_of_mem _ hw))
        (fun w hw u hu => honce w (List.mem_cons_of_mem _ hw) u (List.mem_cons_of_mem _ hu))
    refine ⟨out', ?_, hrows, hcols, fun cell => ?_⟩
    · rw [List.foldlM_cons, hset]
      exact hout'
    · rw [hcells]
      rw [MatrixArea.getValue_put]
      simp only [List.mem_cons, exists_eq_or_imp, forall_eq_or_imp]
      by_cases hcell : v.1 = cell
      · -- a later write to the same cell reads the same cell
        simp only [hcell, if_true, true_and, ne_eq, not_true_eq_false, false_and, or_false]
        constructor
        · rintro (⟨w, hw, hwcell, hvalue⟩ | ⟨-, hvalue⟩)
          · exact .inr ⟨w, hw, hwcell, hvalue⟩
          · exact .inl hvalue
        · rintro (hvalue | hlater)
          · by_cases hex : ∃ w ∈ l, w.1 = cell
            · obtain ⟨w, hw, hwcell⟩ := hex
              have hsame := honce v List.mem_cons_self w (List.mem_cons_of_mem _ hw)
                (hcell.trans hwcell.symm)
              exact .inl ⟨w, hw, hwcell, hsame ▸ hvalue⟩
            · exact .inr ⟨fun w hw hwcell => hex ⟨w, hw, hwcell⟩, hvalue⟩
          · exact .inl hlater
      · simp [hcell]

/-- A copy takes the cell in column `x` and row `y` to `target x y`, each to one of its own. -/
structure CopiesTo (input output : MatrixArea) (op : MatrixOperation_t)
    (target : ℕ → ℕ → Cell) : Prop where
  mem : ∀ v, v ∈ copies input output op ↔
    ∃ x y : ℕ, x < input.cols ∧ y < input.rows ∧ v = (target x y, ((y : ℤ), (x : ℤ)))
  allocated : ∀ x y, x < input.cols → y < input.rows →
    output.Allocated (target x y).1 (target x y).2
  once : ∀ x y x' y', x < input.cols → y < input.rows → x' < input.cols → y' < input.rows →
    target x y = target x' y' → x = x' ∧ y = y'

/-- The offsets of a copy are the images of the offsets. -/
theorem copyArea_offsets {input output : MatrixArea} {op : MatrixOperation_t}
    {target : ℕ → ℕ → Cell} (h : CopiesTo input output op target)
    (hblank : ∀ row col, output.getValue row col = false) {f : ℤ × ℤ → ℤ × ℤ}
    (hf : ∀ x y : ℕ, x < input.cols → y < input.rows →
      ((target x y).2 - (copyCenter input output op).2,
        (target x y).1 - (copyCenter input output op).1) =
          f (x - input.centerX, y - input.centerY)) :
    ∃ out, copyArea input output op = some out ∧ out.rows = output.rows ∧
      out.cols = output.cols ∧ out.offsets = f '' input.offsets := by
  obtain ⟨out, hout, hrows, hcols, hcells⟩ := foldlM_write input (copies input output op) output
    (fun v hv => by
      obtain ⟨x, y, hx, hy, rfl⟩ := (h.mem v).mp hv
      exact h.allocated x y hx hy)
    (fun v hv w hw heq => by
      obtain ⟨x, y, hx, hy, rfl⟩ := (h.mem v).mp hv
      obtain ⟨x', y', hx', hy', rfl⟩ := (h.mem w).mp hw
      obtain ⟨rfl, rfl⟩ := h.once x y x' y' hx hy hx' hy' heq
      rfl)
  refine ⟨out.setCenter (copyCenter input output op).1 (copyCenter input output op).2,
    by simp [copyArea, hout], hrows, hcols, Set.ext fun d => ?_⟩
  constructor
  · rintro ⟨row, col, -, -, hset, rfl⟩
    obtain ⟨v, hv, hcell, hvalue⟩ :=
      ((hcells ((row : ℤ), (col : ℤ))).mp hset).resolve_right fun hold => by
        rw [hblank] at hold
        exact absurd hold.2 Bool.false_ne_true
    obtain ⟨x, y, hx, hy, rfl⟩ := (h.mem v).mp hv
    refine ⟨_, ⟨y, x, hy, hx, hvalue, rfl⟩, ?_⟩
    rw [← hf x y hx hy, show target x y = _ from hcell]
    rfl
  · rintro ⟨_, ⟨y, x, hy, hx, hvalue, rfl⟩, rfl⟩
    obtain ⟨hrow, hrow', hcol, hcol'⟩ := h.allocated x y hx hy
    refine ⟨(target x y).1.toNat, (target x y).2.toNat, ?_, ?_, ?_, ?_⟩
    · simp only [MatrixArea.setCenter, hrows]
      omega
    · simp only [MatrixArea.setCenter, hcols]
      omega
    · have hwritten := (hcells (target x y)).mpr
        (.inl ⟨(target x y, ((y : ℤ), (x : ℤ))), (h.mem _).mpr ⟨x, y, hx, hy, rfl⟩, rfl, hvalue⟩)
      rw [Int.toNat_of_nonneg hrow, Int.toNat_of_nonneg hcol]
      exact hwritten
    · rw [← hf x y hx hy, Int.toNat_of_nonneg hrow, Int.toNat_of_nonneg hcol]
      rfl

theorem mem_zipIdx_reverse_range (n i j : ℕ) :
    (i, j) ∈ (List.range n).reverse.zipIdx ↔ i < n ∧ j + i + 1 = n := by
  rw [List.mk_mem_zipIdx_iff_getElem?]
  constructor
  · intro h
    have hj : j < n := by simpa using (List.getElem?_eq_some_iff.mp h).1
    rw [List.getElem?_reverse (by simpa using hj), List.length_range,
      List.getElem?_range (by omega)] at h
    have hi := Option.some.inj h
    omega
  · rintro ⟨hi, hn⟩
    rw [List.getElem?_reverse (by rw [List.length_range]; omega), List.length_range,
      List.getElem?_range (by omega)]
    exact congrArg some (by omega)

section Copies

variable {input output : MatrixArea}

theorem copiesTo_mirror (hrows : input.rows ≤ output.rows) (hcols : input.cols ≤ output.cols) :
    CopiesTo input output .MIRROR fun x y => ((y : ℤ), (input.cols - 1 - x : ℤ)) where
  mem v := by
    simp only [copies, List.mem_flatMap, List.mem_range, List.mem_map, Prod.exists,
      mem_zipIdx_reverse_range]
    constructor
    · rintro ⟨y, hy, x, rx, ⟨hx, hrx⟩, rfl⟩
      exact ⟨x, y, hx, hy, by simp; omega⟩
    · rintro ⟨x, y, hx, hy, rfl⟩
      exact ⟨y, hy, x, input.cols - 1 - x, ⟨hx, by omega⟩, by simp; omega⟩
  allocated x y hx hy := by
    simp only [MatrixArea.Allocated]
    omega
  once x y x' y' hx hy hx' hy' heq := by
    simp only [Prod.mk.injEq] at heq
    omega

theorem copiesTo_flip (hrows : input.rows ≤ output.rows) (hcols : input.cols ≤ output.cols) :
    CopiesTo input output .FLIP fun x y => ((input.rows - 1 - y : ℤ), (x : ℤ)) where
  mem v := by
    simp only [copies, List.mem_flatMap, List.mem_range, List.mem_map, Prod.exists,
      mem_zipIdx_reverse_range]
    constructor
    · rintro ⟨x, hx, y, ry, ⟨hy, hry⟩, rfl⟩
      exact ⟨x, y, hx, hy, by simp; omega⟩
    · rintro ⟨x, y, hx, hy, rfl⟩
      exact ⟨x, hx, y, input.rows - 1 - y, ⟨hy, by omega⟩, by simp; omega⟩
  allocated x y hx hy := by
    simp only [MatrixArea.Allocated]
    omega
  once x y x' y' hx hy hx' hy' heq := by
    simp only [Prod.mk.injEq] at heq
    omega

/-- The quarter turn to the right; rows are counted downwards. -/
def rotate90 (d : ℤ × ℤ) : ℤ × ℤ := (-d.2, d.1)

/-- The quarter turns of an operation. -/
def quarterTurns : MatrixOperation_t → ℕ
  | .ROTATE90 => 1
  | .ROTATE180 => 2
  | .ROTATE270 => 3
  | _ => 0

theorem copies_rotate {op : MatrixOperation_t} (hop : 0 < quarterTurns op) :
    copies input output op = (List.range input.cols).flatMap fun x =>
      (List.range input.rows).map fun y =>
        (rotatedCell input output op x y, ((y : ℤ), (x : ℤ))) := by
  cases op with
  | COPY | MIRROR | FLIP => exact absurd hop (by decide)
  | ROTATE90 | ROTATE180 | ROTATE270 => rfl

theorem copyCenter_rotate {op : MatrixOperation_t} (hop : 0 < quarterTurns op) :
    copyCenter input output op = ((output.rows / 2 - 1 : ℤ), (output.cols / 2 - 1 : ℤ)) := by
  cases op with
  | COPY | MIRROR | FLIP => exact absurd hop (by decide)
  | ROTATE90 | ROTATE180 | ROTATE270 => rfl

theorem rotatedCell_eq (input output : MatrixArea) {op : MatrixOperation_t}
    (hop : 0 < quarterTurns op) (x y : ℕ) :
    ((rotatedCell input output op x y).2 - (output.cols / 2 - 1),
      (rotatedCell input output op x y).1 - (output.rows / 2 - 1)) =
        rotate90^[quarterTurns op] (x - input.centerX, y - input.centerY) := by
  cases op with
  | COPY | MIRROR | FLIP => exact absurd hop (by decide)
  | ROTATE90 | ROTATE180 | ROTATE270 =>
    simp [rotatedCell, rotation, quarterTurns, rotate90, Function.iterate_succ_apply]

theorem rotate90_injective : Function.Injective rotate90 := by
  intro d e h
  simp only [rotate90, Prod.mk.injEq, neg_inj] at h
  exact Prod.ext h.2 h.1

/-- A turn leaves the larger of the two distances as it is. -/
theorem rotate90_bound {d : ℤ × ℤ} {m : ℤ} (k : ℕ) (hx : -m ≤ d.1 ∧ d.1 ≤ m)
    (hy : -m ≤ d.2 ∧ d.2 ≤ m) :
    (-m ≤ (rotate90^[k] d).1 ∧ (rotate90^[k] d).1 ≤ m) ∧
      -m ≤ (rotate90^[k] d).2 ∧ (rotate90^[k] d).2 ≤ m := by
  induction k generalizing d with
  | zero => exact ⟨hx, hy⟩
  | succ k ih =>
    rw [Function.iterate_succ_apply]
    refine ih ?_ hx
    simp only [rotate90]
    omega

/-- The output is twice as long and as wide as the longer side of the input. -/
theorem copiesTo_rotate {op : MatrixOperation_t} (hop : 0 < quarterTurns op)
    (hrows : output.rows = max input.cols input.rows * 2)
    (hcols : output.cols = max input.cols input.rows * 2)
    (hcenterX : 0 ≤ input.centerX ∧ input.centerX < input.cols)
    (hcenterY : 0 ≤ input.centerY ∧ input.centerY < input.rows) :
    CopiesTo input output op (rotatedCell input output op) where
  mem v := by
    rw [copies_rotate hop]
    simp only [List.mem_flatMap, List.mem_range, List.mem_map]
    constructor
    · rintro ⟨x, hx, y, hy, rfl⟩
      exact ⟨x, y, hx, hy, rfl⟩
    · rintro ⟨x, y, hx, hy, rfl⟩
      exact ⟨x, hx, y, hy, rfl⟩
  allocated x y hx hy := by
    have hturned := rotatedCell_eq input output hop x y
    have hbound := rotate90_bound (d := (x - input.centerX, y - input.centerY))
      (m := max input.cols input.rows - 1) (quarterTurns op) (by dsimp only; omega)
      (by dsimp only; omega)
    rw [← hturned] at hbound
    simp only [MatrixArea.Allocated]
    omega
  once x y x' y' hx hy hx' hy' heq := by
    have hturned := rotatedCell_eq input output hop x y
    rw [heq, rotatedCell_eq input output hop] at hturned
    have hsame := rotate90_injective.iterate _ hturned
    simp only [Prod.mk.injEq] at hsame
    omega

end Copies

/-! ## The area that is given -/

/-- A value of the list that sets its cell, and one that marks the center. -/
abbrev IsSet (value : ℕ) : Prop := value = 1 ∨ value = 3
abbrev IsCenter (value : ℕ) : Prop := value = 2 ∨ value = 3

/-- The cells that a list sets, seen from those it marks as the center. -/
def listOffsets (list : List ℕ) (cols : ℕ) : Set (ℤ × ℤ) :=
  {d | ∃ i v j m, list[i]? = some v ∧ IsSet v ∧ list[j]? = some m ∧ IsCenter m ∧
    d = (((i % cols : ℕ) : ℤ) - (j % cols : ℕ), ((i / cols : ℕ) : ℤ) - (j / cols : ℕ))}

/-- From one entry to the next. -/
theorem next_cell {cols : ℕ} (hcols : 0 < cols) (i : ℕ) :
    (i + 1) / cols = (if cols = i % cols + 1 then i / cols + 1 else i / cols) ∧
      (i + 1) % cols = (if cols = i % cols + 1 then 0 else i % cols + 1) := by
  have hlt := Nat.mod_lt i hcols
  have hsum := Nat.mod_add_div i cols
  split_ifs with hend
  · exact (Nat.div_mod_unique hcols).mpr ⟨by rw [Nat.mul_add]; omega, hcols⟩
  · exact (Nat.div_mod_unique hcols).mpr ⟨by omega, by omega⟩

/-- The cell of the entry with this index. -/
def cellOf (cols i : ℕ) : Cell := (((i / cols : ℕ) : ℤ), ((i % cols : ℕ) : ℤ))

/-- An area after the loop has seen one more value, at an allocated cell. -/
def visit (area : MatrixArea) (cell : Cell) (value : ℕ) : MatrixArea where
  rows := area.rows
  cols := area.cols
  data := if IsSet value then (area.put cell.1 cell.2 true).data else area.data
  centerX := if IsCenter value then cell.2 else area.centerX
  centerY := if IsCenter value then cell.1 else area.centerY

theorem getValue_visit (area : MatrixArea) (cell other : Cell) (value : ℕ) :
    (visit area cell value).getValue other.1 other.2 = true ↔
      area.getValue other.1 other.2 = true ∨ IsSet value ∧ other = cell := by
  by_cases hset : IsSet value
  · have hput : (visit area cell value).getValue other.1 other.2 =
        (area.put cell.1 cell.2 true).getValue other.1 other.2 := by
      simp [visit, MatrixArea.getValue, hset]
    rw [hput, MatrixArea.getValue_put]
    by_cases hcell : cell = other
    · simp [hcell, hset]
    · simp [hcell, Ne.symm hcell]
  · simp [visit, MatrixArea.getValue, hset]

theorem createLoop_cons {cols : ℕ} (hcols : 0 < cols) (value : ℕ) (list : List ℕ) (i : ℕ)
    {area : MatrixArea} (h : area.Allocated (cellOf cols i).1 (cellOf cols i).2) :
    createLoop cols (value :: list) (i % cols) (i / cols) area =
      createLoop cols list ((i + 1) % cols) ((i + 1) / cols)
        (visit area (cellOf cols i) value) := by
  have hset : (if value = 1 ∨ value = 3 then area.setValue (i / cols : ℕ) (i % cols : ℕ) true
      else some area) = some (if IsSet value then area.put (i / cols : ℕ) (i % cols : ℕ) true
        else area) := by
    have hput : area.setValue (i / cols : ℕ) (i % cols : ℕ) true =
        some (area.put (i / cols : ℕ) (i % cols : ℕ) true) := if_pos h
    rw [hput, apply_ite some]
  have hvisit : visit area (cellOf cols i) value = if IsCenter value then
      (if IsSet value then area.put (i / cols : ℕ) (i % cols : ℕ) true else area).setCenter
        (i / cols : ℕ) (i % cols : ℕ)
      else if IsSet value then area.put (i / cols : ℕ) (i % cols : ℕ) true else area := by
    unfold visit
    split_ifs <;> rfl
  obtain ⟨hdiv, hmod⟩ := next_cell hcols i
  rw [createLoop, hset, hvisit, hdiv, hmod]
  simp only [Option.bind_eq_bind, Option.bind_some]
  split_ifs <;> rfl

/-- What the loop has made of an area after the list from the index `i` on: the cells of the
list are set, and the last mark is the center. -/
structure Filled (width : ℕ) (list : List ℕ) (i : ℕ) (area out : MatrixArea) : Prop where
  rows : out.rows = area.rows
  cols : out.cols = area.cols
  cells : ∀ cell : Cell, out.getValue cell.1 cell.2 = true ↔
    area.getValue cell.1 cell.2 = true ∨
      ∃ k v, list[k]? = some v ∧ IsSet v ∧ cell = cellOf width (i + k)
  center : ∀ k m, list[k]? = some m → IsCenter m →
    (∀ k' m', list[k']? = some m' → IsCenter m' → k' ≤ k) →
      (out.centerY, out.centerX) = cellOf width (i + k)
  unmarked : (∀ m ∈ list, ¬IsCenter m) →
    (out.centerY, out.centerX) = (area.centerY, area.centerX)

theorem Filled.cons {width value i : ℕ} {list : List ℕ} {area out : MatrixArea}
    (h : Filled width list (i + 1) (visit area (cellOf width i) value) out) :
    Filled width (value :: list) i area out where
  rows := h.rows
  cols := h.cols
  cells cell := by
    rw [h.cells, getValue_visit, or_assoc]
    refine or_congr Iff.rfl ⟨?_, ?_⟩
    · rintro (⟨hset, hcell⟩ | ⟨k, v, hv, hset, hcell⟩)
      · exact ⟨0, value, rfl, hset, hcell⟩
      · exact ⟨k + 1, v, hv, hset, by rw [hcell, Nat.add_assoc, Nat.add_comm 1]⟩
    · rintro ⟨k, v, hv, hset, hcell⟩
      cases k with
      | zero =>
        obtain rfl : value = v := Option.some.inj hv
        exact .inl ⟨hset, hcell⟩
      | succ k => exact .inr ⟨k, v, hv, hset, by rw [hcell, Nat.add_assoc, Nat.add_comm 1]⟩
  center k m hm hcenter hlast := by
    cases k with
    | zero =>
      obtain rfl : value = m := Option.some.inj hm
      rw [h.unmarked fun m' hm' hcenter' => ?_]
      · simp only [visit, if_pos hcenter, Nat.add_zero]
      · obtain ⟨k', hk'⟩ := List.mem_iff_getElem?.mp hm'
        exact absurd (hlast (k' + 1) m' hk' hcenter') (by omega)
    | succ k =>
      rw [h.center k m hm hcenter fun k' m' hm' hcenter' =>
        Nat.le_of_succ_le_succ (hlast (k' + 1) m' hm' hcenter'), Nat.add_assoc, Nat.add_comm 1]
  unmarked hnone := by
    rw [h.unmarked fun m hm => hnone m (List.mem_cons_of_mem _ hm)]
    simp only [visit, if_neg (hnone value List.mem_cons_self)]

/-- The loop sets the cells of the list from one index on, and the last mark is the center. -/
theorem createLoop_filled {cols : ℕ} (hcols : 0 < cols) (list : List ℕ) (i : ℕ)
    (area : MatrixArea) (hcols' : area.cols = cols)
    (hlength : i + list.length ≤ area.rows * cols) :
    ∃ out, createLoop cols list (i % cols) (i / cols) area = some out ∧
      Filled cols list i area out := by
  induction list generalizing i area with
  | nil => exact ⟨area, rfl, rfl, rfl, fun cell => by simp, fun k m h => by simp at h,
      fun _ => rfl⟩
  | cons value list ih =>
    rw [List.length_cons] at hlength
    have hallocated : area.Allocated (cellOf cols i).1 (cellOf cols i).2 := by
      have hrow : i / cols < area.rows := Nat.div_lt_of_lt_mul (by rw [Nat.mul_comm]; omega)
      have hcol := Nat.mod_lt i hcols
      simp only [MatrixArea.Allocated, cellOf, hcols']
      exact ⟨Int.natCast_nonneg _, by exact_mod_cast hrow, Int.natCast_nonneg _,
        by exact_mod_cast hcol⟩
    rw [createLoop_cons hcols value list i hallocated]
    obtain ⟨out, hout, hfilled⟩ := ih (i + 1) (visit area (cellOf cols i) value) hcols'
      (show i + 1 + list.length ≤ area.rows * cols by omega)
    exact ⟨out, hout, hfilled.cons⟩

/-- A list with one mark has it at one index only. -/
theorem mark_of_countP {list : List ℕ} (h : list.countP (fun v => IsCenter v) = 1) :
    ∃ (k m : ℕ), list[k]? = some m ∧ IsCenter m ∧
      ∀ (k' m' : ℕ), list[k']? = some m' → IsCenter m' → k' = k := by
  induction list with
  | nil => simp at h
  | cons value list ih =>
    rw [List.countP_cons] at h
    by_cases hcenter : IsCenter value
    · have hnone : list.countP (fun v => IsCenter v) = 0 := by
        simpa [hcenter] using h
      refine ⟨0, value, rfl, hcenter, fun k' m' hm' hcenter' => ?_⟩
      cases k' with
      | zero => rfl
      | succ k' =>
        have hmem : m' ∈ list := List.mem_of_getElem? (i := k') hm'
        have hno := List.countP_eq_zero.mp hnone m' hmem
        simp [hcenter'] at hno
    · obtain ⟨k, m, hm, hm', honly⟩ := ih (by simpa [hcenter] using h)
      refine ⟨k + 1, m, hm, hm', fun k' m' hk' hcenter' => ?_⟩
      cases k' with
      | zero =>
        obtain rfl : value = m' := Option.some.inj hk'
        exact absurd hcenter' hcenter
      | succ k' => rw [honly k' m' hk' hcenter']

/-- A list of rows and columns with one mark makes an area with the offsets of the list. -/
theorem createArea_offsets {list : List ℕ} {rows cols : ℕ} (hlength : list.length = rows * cols)
    (hmark : list.countP (fun v => IsCenter v) = 1) :
    ∃ area, createArea list rows = some area ∧ area.rows = rows ∧ area.cols = cols ∧
      (0 ≤ area.centerX ∧ area.centerX < cols) ∧ (0 ≤ area.centerY ∧ area.centerY < rows) ∧
      area.offsets = listOffsets list cols := by
  obtain ⟨j, m, hm, hcenter, honly⟩ := mark_of_countP hmark
  have hj : j < rows * cols := hlength ▸ (List.getElem?_eq_some_iff.mp hm).1
  have hrows : 0 < rows := Nat.pos_of_mul_pos_right (Nat.zero_lt_of_lt hj)
  have hcols : 0 < cols := Nat.pos_of_mul_pos_left (Nat.zero_lt_of_lt hj)
  have hwidth : list.length / rows = cols := by rw [hlength, Nat.mul_div_cancel_left _ hrows]
  obtain ⟨area, harea, hfilled⟩ := createLoop_filled hcols list 0 { rows := rows, cols := cols }
    rfl (by dsimp only; omega)
  rw [Nat.zero_mod, Nat.zero_div] at harea
  have hat := hfilled.center j m hm hcenter fun k' m' hm' hcenter' =>
    (honly k' m' hm' hcenter').le
  rw [Nat.zero_add, cellOf, Prod.mk.injEq] at hat
  have hrow : j / cols < rows := Nat.div_lt_of_lt_mul (by rw [Nat.mul_comm]; exact hj)
  have hcol := Nat.mod_lt j hcols
  refine ⟨area, ?_, hfilled.rows, hfilled.cols, ?_, ?_, Set.ext fun d => ⟨?_, ?_⟩⟩
  · simp only [createArea, if_neg hrows.ne', hwidth]
    exact harea
  · rw [hat.2]
    exact ⟨Int.natCast_nonneg _, by exact_mod_cast hcol⟩
  · rw [hat.1]
    exact ⟨Int.natCast_nonneg _, by exact_mod_cast hrow⟩
  · rintro ⟨y, x, -, -, hvalue, rfl⟩
    obtain ⟨k, v, hv, hset, hcell⟩ := ((hfilled.cells ((y : ℤ), (x : ℤ))).mp hvalue).resolve_left
      Bool.false_ne_true
    rw [Nat.zero_add, cellOf, Prod.mk.injEq] at hcell
    exact ⟨k, v, j, m, hv, hset, hm, hcenter, by rw [hat.1, hat.2, hcell.1, hcell.2]⟩
  · rintro ⟨k, v, j', m', hv, hset, hm', hcenter', rfl⟩
    obtain rfl := honly j' m' hm' hcenter'
    have hk : k < rows * cols := hlength ▸ (List.getElem?_eq_some_iff.mp hv).1
    refine ⟨k / cols, k % cols, ?_, ?_, ?_, by rw [hat.1, hat.2]⟩
    · rw [hfilled.rows]
      exact Nat.div_lt_of_lt_mul (by rw [Nat.mul_comm]; exact hk)
    · rw [hfilled.cols]
      exact Nat.mod_lt k hcols
    · exact (hfilled.cells (cellOf cols k)).mpr
        (.inr ⟨k, v, hv, hset, by rw [Nat.zero_add]⟩)

/-- The area in one direction has these offsets. -/
def Has (c : AreaCombat) (dir : Direction) (offsets : Set (ℤ × ℤ)) : Prop :=
  ∃ area, c.areas dir = some area ∧ area.offsets = offsets

/-! ## The four directions -/

/-- Each of the four areas is the given one, turned to its direction, and no write leaves the
matrix that it goes to. -/
theorem setupArea_turned (c : AreaCombat) (list : List ℕ) (rows cols : ℕ)
    (hlength : list.length = rows * cols) (hmark : list.countP (fun v => IsCenter v) = 1) :
    ∃ c', c.setupArea list rows = some c' ∧
      c'.Has .NORTH (listOffsets list cols) ∧
      c'.Has .EAST (rotate90 '' listOffsets list cols) ∧
      c'.Has .SOUTH (rotate90^[2] '' listOffsets list cols) ∧
      c'.Has .WEST (rotate90^[3] '' listOffsets list cols) := by
  obtain ⟨area, harea, hrows, hcols, hcenterX, hcenterY, hoffsets⟩ :=
    createArea_offsets hlength hmark
  rw [← hcols] at hcenterX
  rw [← hrows] at hcenterY
  have hturned : ∀ op, 0 < quarterTurns op → ∃ out,
      copyArea area (outputFor area) op = some out ∧
        out.offsets = rotate90^[quarterTurns op] '' listOffsets list cols := by
    intro op hop
    have hcopies : CopiesTo area (outputFor area) op (rotatedCell area (outputFor area) op) :=
      copiesTo_rotate hop rfl rfl hcenterX hcenterY
    obtain ⟨out, hout, -, -, himage⟩ := copyArea_offsets hcopies (fun _ _ => rfl)
      (f := rotate90^[quarterTurns op]) fun x y _ _ => by
        rw [copyCenter_rotate hop]
        exact rotatedCell_eq area (outputFor area) hop x y
    exact ⟨out, hout, hoffsets ▸ himage⟩
  obtain ⟨south, hsouth, hsouth'⟩ := hturned .ROTATE180 (by decide)
  obtain ⟨east, heast, heast'⟩ := hturned .ROTATE90 (by decide)
  obtain ⟨west, hwest, hwest'⟩ := hturned .ROTATE270 (by decide)
  refine ⟨(((c.setArea .NORTH area).setArea .SOUTH south).setArea .EAST east).setArea .WEST west,
    ?_, ⟨area, ?_, hoffsets⟩, ⟨east, ?_, heast'⟩, ⟨south, ?_, hsouth'⟩, ⟨west, ?_, hwest'⟩⟩
  · simp only [setupArea, harea, Option.bind_eq_bind, Option.bind_some, hsouth, heast, hwest]
    rfl
  all_goals simp [setArea]

/-- A cell above the center and one to its right turn to the right with the area. -/
theorem setupArea_turned_hook :
    ∃ c', setupArea {} [1, 0, 2, 1] 2 = some c' ∧
      c'.Has .NORTH (listOffsets [1, 0, 2, 1] 2) ∧
      c'.Has .EAST (rotate90 '' listOffsets [1, 0, 2, 1] 2) ∧
      c'.Has .SOUTH (rotate90^[2] '' listOffsets [1, 0, 2, 1] 2) ∧
      c'.Has .WEST (rotate90^[3] '' listOffsets [1, 0, 2, 1] 2) :=
  setupArea_turned {} [1, 0, 2, 1] 2 2 (by decide) (by decide)

/-! ## The diagonal directions -/

theorem mirror_offsets {input output : MatrixArea} (hrows : input.rows ≤ output.rows)
    (hcols : input.cols ≤ output.cols) (hblank : ∀ row col, output.getValue row col = false) :
    ∃ out, copyArea input output .MIRROR = some out ∧ out.rows = output.rows ∧
      out.cols = output.cols ∧ out.offsets =
        (fun d : ℤ × ℤ => (-d.1 + (input.cols - input.rows), d.2)) '' input.offsets := by
  refine copyArea_offsets (copiesTo_mirror hrows hcols) hblank fun x y _ _ => ?_
  simp only [copyCenter, Prod.mk.injEq, and_true]
  omega

theorem flip_offsets {input output : MatrixArea} (hrows : input.rows ≤ output.rows)
    (hcols : input.cols ≤ output.cols) (hblank : ∀ row col, output.getValue row col = false) :
    ∃ out, copyArea input output .FLIP = some out ∧ out.rows = output.rows ∧
      out.cols = output.cols ∧ out.offsets =
        (fun d : ℤ × ℤ => (d.1, -d.2 + (input.rows - input.cols))) '' input.offsets := by
  refine copyArea_offsets (copiesTo_flip hrows hcols) hblank fun x y _ _ => ?_
  simp only [copyCenter, Prod.mk.injEq, true_and]
  omega

/-- The offsets of the three copies, in terms of those given. -/
structure Mirrored (c : AreaCombat) (given : Set (ℤ × ℤ)) : Prop where
  northWest : c.Has .NORTHWEST given
  northEast : c.Has .NORTHEAST ((fun d : ℤ × ℤ => (-d.1, d.2)) '' given)
  southWest : c.Has .SOUTHWEST ((fun d : ℤ × ℤ => (d.1, -d.2)) '' given)
  southEast : c.Has .SOUTHEAST ((fun d : ℤ × ℤ => (-d.1, -d.2)) '' given)

/-- What `setupExtArea` builds: each copy is off by the difference of columns and rows. -/
theorem setupExtArea_offsets (c : AreaCombat) (list : List ℕ) (rows cols : ℕ)
    (hlength : list.length = rows * cols) (hmark : list.countP (fun v => IsCenter v) = 1) :
    ∃ c', c.setupExtArea list rows = some c' ∧
      c'.Has .NORTHWEST (listOffsets list cols) ∧
      c'.Has .NORTHEAST ((fun d : ℤ × ℤ => (-d.1 + (cols - rows), d.2)) '' listOffsets list cols) ∧
      c'.Has .SOUTHWEST ((fun d : ℤ × ℤ => (d.1, -d.2 + (rows - cols))) '' listOffsets list cols) ∧
      c'.Has .SOUTHEAST
        ((fun d : ℤ × ℤ => (-d.1, -d.2 + (rows - cols))) '' listOffsets list cols) := by
  have hne : list ≠ [] := by
    rintro rfl
    simp at hmark
  obtain ⟨area, harea, hrows, hcols, -, -, hoffsets⟩ := createArea_offsets hlength hmark
  have hfits : area.rows ≤ (outputFor area).rows ∧ area.cols ≤ (outputFor area).cols := by
    simp only [outputFor]
    omega
  have hblank : ∀ row col, (outputFor area).getValue row col = false := fun _ _ => rfl
  obtain ⟨ne, hne', -, -, hneOffsets⟩ :=
    mirror_offsets hfits.1 hfits.2 hblank
  obtain ⟨sw, hsw, hswRows, hswCols, hswOffsets⟩ :=
    flip_offsets hfits.1 hfits.2 hblank
  obtain ⟨se, hse, -, -, hseOffsets⟩ := mirror_offsets hswRows.le hswCols.le hblank
  rw [hoffsets, hrows, hcols] at hneOffsets hswOffsets
  have hsquare : (sw.cols : ℤ) - sw.rows = 0 := by
    rw [hswRows, hswCols]
    exact Int.sub_self _
  rw [hswOffsets, hsquare, ← Set.image_comp] at hseOffsets
  refine ⟨{ (((c.setArea .NORTHWEST area).setArea .NORTHEAST ne).setArea .SOUTHWEST sw).setArea
      .SOUTHEAST se with hasExtArea := true },
    ?_, ⟨area, ?_, hoffsets⟩, ⟨ne, ?_, hneOffsets⟩, ⟨sw, ?_, hswOffsets⟩,
    ⟨se, ?_, hseOffsets.trans (Set.image_congr fun d _ => ?_)⟩⟩
  · simp only [setupExtArea, if_neg hne, harea, Option.bind_eq_bind, Option.bind_some, hne', hsw,
      hse]
    rfl
  · simp [setArea]
  · simp [setArea]
  · simp [setArea]
  · simp [setArea]
  · simp

theorem listOffsets_bound {list : List ℕ} {cols : ℕ} (hcols : 0 < cols) {d : ℤ × ℤ}
    (hd : d ∈ listOffsets list cols) : -cols < d.1 ∧ d.1 < cols := by
  obtain ⟨i, v, j, m, -, -, -, -, rfl⟩ := hd
  have hi := Nat.mod_lt i hcols
  have hj := Nat.mod_lt j hcols
  dsimp only
  omega

/-- A bounded set that is its own translate is not moved. -/
theorem shift_eq_zero {given : Set (ℤ × ℤ)} {d : ℤ × ℤ} {bound t : ℤ} (hd : d ∈ given)
    (hbound : ∀ e ∈ given, -bound < e.1 ∧ e.1 < bound)
    (hsame : (fun d : ℤ × ℤ => (-d.1 + t, d.2)) '' given = (fun d : ℤ × ℤ => (-d.1, d.2)) '' given) :
    t = 0 := by
  have hall : ∀ n : ℕ, ∃ e ∈ given, e.1 = d.1 - n * t := by
    intro n
    induction n with
    | zero => exact ⟨d, hd, by simp⟩
    | succ n ih =>
      obtain ⟨e, he, hx⟩ := ih
      have hmem : ((-e.1 + t, e.2) : ℤ × ℤ) ∈ (fun d : ℤ × ℤ => (-d.1, d.2)) '' given :=
        hsame ▸ ⟨e, he, rfl⟩
      obtain ⟨e', he', heq⟩ := hmem
      simp only [Prod.mk.injEq] at heq
      refine ⟨e', he', ?_⟩
      push_cast
      rw [Int.add_mul]
      omega
  obtain ⟨e, he, hx⟩ := hall (2 * bound).toNat
  have hde := hbound d hd
  have hee := hbound e he
  rw [Int.toNat_of_nonneg (by omega)] at hx
  by_contra hne
  rcases Int.lt_or_gt_of_ne hne with hneg | hpos
  · have := Int.mul_le_mul_of_nonneg_left (show t ≤ -1 by omega) (show 0 ≤ 2 * bound by omega)
    omega
  · have := Int.mul_le_mul_of_nonneg_left (show 1 ≤ t by omega) (show 0 ≤ 2 * bound by omega)
    omega

/-- The copies are the mirror images where the area is square, or where nothing is affected. -/
theorem setupExtArea_mirrored_iff (c : AreaCombat) (list : List ℕ) (rows cols : ℕ)
    (hlength : list.length = rows * cols) (hmark : list.countP (fun v => IsCenter v) = 1) :
    ∃ c', c.setupExtArea list rows = some c' ∧
      (c'.Mirrored (listOffsets list cols) ↔ rows = cols ∨ ∀ v ∈ list, ¬IsSet v) := by
  obtain ⟨c', hc', hnw, hne, hsw, hse⟩ := setupExtArea_offsets c list rows cols hlength hmark
  refine ⟨c', hc', fun h => ?_, ?_⟩
  · by_contra hno
    obtain ⟨hrows, hsome⟩ := not_or.mp hno
    obtain ⟨v, hv, hset⟩ : ∃ v ∈ list, IsSet v := by
      by_contra hnone
      exact hsome fun v hv hset => hnone ⟨v, hv, hset⟩
    obtain ⟨i, hi⟩ := List.mem_iff_getElem?.mp hv
    obtain ⟨j, m, hm, hcenter, -⟩ := mark_of_countP hmark
    have hj : j < rows * cols := hlength ▸ (List.getElem?_eq_some_iff.mp hm).1
    have hcols : 0 < cols := Nat.pos_of_mul_pos_left (Nat.zero_lt_of_lt hj)
    obtain ⟨area, harea, hoffsets⟩ := hne
    obtain ⟨area', harea', hoffsets'⟩ := h.northEast
    obtain rfl : area = area' := Option.some.inj (harea.symm.trans harea')
    have hzero : (cols : ℤ) - rows = 0 :=
      shift_eq_zero (show _ ∈ listOffsets list cols from
        ⟨i, v, j, m, hi, hset, hm, hcenter, rfl⟩) (fun e he => listOffsets_bound hcols he) (hoffsets.symm.trans hoffsets')
    omega
  · rintro (rfl | hnone)
    · simp only [Int.sub_self, Int.add_zero] at hne hsw hse
      exact ⟨hnw, hne, hsw, hse⟩
    · have hempty : listOffsets list cols = ∅ := by
        refine Set.eq_empty_of_forall_notMem fun d hd => ?_
        obtain ⟨i, v, -, -, hv, hset, -⟩ := hd
        exact hnone v (List.mem_of_getElem? hv) hset
      rw [hempty] at hnw hne hsw hse ⊢
      simp only [Set.image_empty] at hne hsw hse
      exact ⟨hnw, by simpa using hne, by simpa using hsw, by simpa using hse⟩

theorem setupExtArea_mirrored_square :
    ∃ c', setupExtArea {} [1, 0, 2, 1] 2 = some c' ∧ c'.Mirrored (listOffsets [1, 0, 2, 1] 2) := by
  obtain ⟨c', hc', hiff⟩ := setupExtArea_mirrored_iff {} [1, 0, 2, 1] 2 2 (by decide)
    (by decide)
  exact ⟨c', hc', hiff.mpr (.inl rfl)⟩

/-- Two cells side by side, with the center on the left one: the mirrored area still has its
second cell to the right of the center. -/
theorem two_cells_not_mirrored :
    ∃ c', setupExtArea {} [3, 1] 1 = some c' ∧ (∃ area, c'.areas .NORTHEAST = some area ∧
      ((1, 0) : ℤ × ℤ) ∈ area.offsets) ∧ ¬c'.Mirrored (listOffsets [3, 1] 2) := by
  obtain ⟨c', hc', -, hne, -⟩ := setupExtArea_offsets {} [3, 1] 1 2 (by decide)
    (by decide)
  obtain ⟨area, harea, hoffsets⟩ := hne
  have hright : ((1, 0) : ℤ × ℤ) ∈ area.offsets :=
    hoffsets ▸ ⟨(0, 0), ⟨0, 3, 0, 3, rfl, .inr rfl, rfl, .inr rfl, rfl⟩, rfl⟩
  refine ⟨c', hc', ⟨area, harea, hright⟩, fun h => ?_⟩
  obtain ⟨area', harea', hoffsets'⟩ := h.northEast
  obtain rfl : area = area' := Option.some.inj (harea.symm.trans harea')
  rw [hoffsets'] at hright
  obtain ⟨_, ⟨i, v, j, m, -, -, hm, hcenter, rfl⟩, heq⟩ := hright
  have hj : j = 0 := by
    match j with
    | 0 => rfl
    | 1 =>
        obtain rfl : 1 = m := Option.some.inj hm
        exact absurd hcenter (by decide)
    | j + 2 => exact absurd hm (by simp)
  subst hj
  simp only [Prod.mk.injEq] at heq
  omega

end AreaCombat

end TibiaServer.World
