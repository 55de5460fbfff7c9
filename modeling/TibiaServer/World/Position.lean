import Mathlib.Algebra.Order.Ring.Int
/-!
# Positions

A square of the world: `uint16_t` coordinates and a `uint8_t` floor; the eight
directions of a step.
-/

namespace TibiaServer.World

structure Position where
  x : UInt16 := 0
  y : UInt16 := 0
  z : UInt8 := 0
  deriving DecidableEq, Repr

namespace Position

def getX (p : Position) : ℤ := p.x.toNat
def getY (p : Position) : ℤ := p.y.toNat
def getZ (p : Position) : ℤ := p.z.toNat

def getOffsetX (p1 p2 : Position) : ℤ := p1.getX - p2.getX
def getOffsetY (p1 p2 : Position) : ℤ := p1.getY - p2.getY
def getOffsetZ (p1 p2 : Position) : ℤ := p1.getZ - p2.getZ

def getDistanceX (p1 p2 : Position) : ℤ := |getOffsetX p1 p2|
def getDistanceY (p1 p2 : Position) : ℤ := |getOffsetY p1 p2|
def getDistanceZ (p1 p2 : Position) : ℤ := |getOffsetZ p1 p2|

def areInRange (deltax deltay deltaz : ℤ) (p1 p2 : Position) : Bool :=
  getDistanceX p1 p2 ≤ deltax && getDistanceY p1 p2 ≤ deltay && getDistanceZ p1 p2 ≤ deltaz

/-- The coordinates are converted to `uint16_t`. -/
def ofInt (x y : ℤ) (z : UInt8) : Position := ⟨UInt16.ofInt x, UInt16.ofInt y, z⟩

theorem getX_bounds (p : Position) : 0 ≤ p.getX ∧ p.getX < 65536 := by
  have h := p.x.toNat_lt
  unfold getX
  omega

theorem getY_bounds (p : Position) : 0 ≤ p.getY ∧ p.getY < 65536 := by
  have h := p.y.toNat_lt
  unfold getY
  omega

theorem ext_get {p q : Position} (hx : p.getX = q.getX) (hy : p.getY = q.getY)
    (hz : p.z = q.z) : p = q := by
  have hx' : p.x = q.x := UInt16.toNat_inj.mp (Int.ofNat_inj.mp hx)
  have hy' : p.y = q.y := UInt16.toNat_inj.mp (Int.ofNat_inj.mp hy)
  cases p
  cases q
  simp_all

@[simp] theorem getX_ofInt (x y : ℤ) (z : UInt8) : (ofInt x y z).getX = x % 65536 := by
  have h : 0 ≤ x % 65536 := Int.emod_nonneg x (by decide)
  have h' : x % 65536 < 65536 := Int.emod_lt_of_pos x (by decide)
  simp only [getX, ofInt, UInt16.ofInt, UInt16.toNat_ofNat']
  omega

@[simp] theorem getY_ofInt (x y : ℤ) (z : UInt8) : (ofInt x y z).getY = y % 65536 := by
  have h : 0 ≤ y % 65536 := Int.emod_nonneg y (by decide)
  have h' : y % 65536 < 65536 := Int.emod_lt_of_pos y (by decide)
  simp only [getY, ofInt, UInt16.ofInt, UInt16.toNat_ofNat']
  omega

/-- Coordinates that are those of a square convert to that square. -/
theorem ofInt_eq {x y : ℤ} {q : Position} (hx : q.getX = x) (hy : q.getY = y) :
    ofInt x y q.z = q := by
  have hqx := getX_bounds q
  have hqy := getY_bounds q
  apply ext_get
  · rw [getX_ofInt]
    omega
  · rw [getY_ofInt]
    omega
  · rfl

end Position

/-- `Direction` of `position.h`, in the order of its values. -/
inductive Direction
  | NORTH
  | EAST
  | SOUTH
  | WEST
  | SOUTHWEST
  | SOUTHEAST
  | NORTHWEST
  | NORTHEAST
  deriving DecidableEq, Repr

/-- The coordinates wrap around as `uint16_t` does. -/
def getNextPosition (direction : Direction) (pos : Position) : Position :=
  match direction with
  | .NORTH => { pos with y := pos.y - 1 }
  | .SOUTH => { pos with y := pos.y + 1 }
  | .WEST => { pos with x := pos.x - 1 }
  | .EAST => { pos with x := pos.x + 1 }
  | .SOUTHWEST => { pos with x := pos.x - 1, y := pos.y + 1 }
  | .NORTHWEST => { pos with x := pos.x - 1, y := pos.y - 1 }
  | .NORTHEAST => { pos with x := pos.x + 1, y := pos.y - 1 }
  | .SOUTHEAST => { pos with x := pos.x + 1, y := pos.y + 1 }

end TibiaServer.World
