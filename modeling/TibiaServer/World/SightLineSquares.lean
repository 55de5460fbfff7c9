import Mathlib.Tactic.Linarith
import Mathlib.Tactic.LinearCombination
import Mathlib.Tactic.Ring
import TibiaServer.World.Position
/-!
# Lines of sight on one floor

`checkSightLine` steps from one square to another along the line between them
until it stands on the other one or meets a tile that blocks projectiles.
`start.x` and `start.y` move towards the destination only, and in every round at
least one of them does (`next_closer`), so that the loop ends
(`checkSightLine_isSome`).  The products of `int32_t` are taken as exact.

Below it is the loop as it is compiled, with sums of `int32_t` and coordinates of `uint16_t`.  The
side of the square on which the line lies never differs from it by more than half of the longer
distance, so that no sum overflows and that the longer distance gets shorter in every round.
-/

namespace TibiaServer.World

/-- The values that `checkSightLine` computes before its loop: the signs `mx` and
`my` and the coefficients of the line through the two squares. -/
structure SightLine where
  destX : ℤ
  destY : ℤ
  mx : ℤ
  my : ℤ
  A : ℤ
  B : ℤ
  C : ℤ

namespace SightLine

def ofPositions (start destination : Position) : SightLine :=
  let A := destination.getOffsetY start
  let B := start.getOffsetX destination
  { destX := destination.getX
    destY := destination.getY
    mx := if start.getX < destination.getX then 1
      else if start.getX = destination.getX then 0 else -1
    my := if start.getY < destination.getY then 1
      else if start.getY = destination.getY then 0 else -1
    A := A
    B := B
    C := -(A * destination.getX + B * destination.getY) }

variable (l : SightLine)

def moveHor (x y : ℤ) : ℤ := |l.A * (x + l.mx) + l.B * y + l.C|
def moveVer (x y : ℤ) : ℤ := |l.A * x + l.B * (y + l.my) + l.C|
def moveCross (x y : ℤ) : ℤ := |l.A * (x + l.mx) + l.B * (y + l.my) + l.C|

/-- One round of the loop: the new `start.x` and `start.y`.  The second test
reads the `start.y` that the first one has moved. -/
def next (x y : ℤ) : ℤ × ℤ :=
  let hor := l.moveHor x y
  let ver := l.moveVer x y
  let cross := l.moveCross x y
  let y' := if y ≠ l.destY ∧ (x = l.destX ∨ hor > ver ∨ hor > cross) then y + l.my else y
  let x' := if x ≠ l.destX ∧ (y' = l.destY ∨ ver > hor ∨ ver > cross) then x + l.mx else x
  (x', y')

/-- The loop, for at most `fuel` rounds; `blocked` says of a square that its
tile blocks projectiles. -/
def check (blocked : ℤ → ℤ → Bool) : ℕ → ℤ → ℤ → Option Bool
  | fuel, x, y =>
    if x = l.destX ∧ y = l.destY then some true
    else
      match fuel with
      | 0 => none
      | fuel + 1 =>
        let (x', y') := l.next x y
        if blocked x' y' then some false else check blocked fuel x' y'

/-- The signs and coefficients lead from the square towards the destination. -/
structure Towards (x y : ℤ) : Prop where
  east : x < l.destX → l.mx = 1 ∧ l.B < 0
  west : l.destX < x → l.mx = -1 ∧ 0 < l.B
  south : y < l.destY → l.my = 1 ∧ 0 < l.A
  north : l.destY < y → l.my = -1 ∧ l.A < 0

theorem towards_ofPositions (start destination : Position) :
    (ofPositions start destination).Towards start.getX start.getY := by
  unfold ofPositions Position.getOffsetX Position.getOffsetY
  constructor
  · intro h
    exact ⟨if_pos h, sub_neg.mpr h⟩
  · intro h
    exact ⟨(if_neg h.not_gt).trans (if_neg h.ne'), sub_pos.mpr h⟩
  · intro h
    exact ⟨if_pos h, sub_pos.mpr h⟩
  · intro h
    exact ⟨(if_neg h.not_gt).trans (if_neg h.ne'), sub_neg.mpr h⟩

/-- Steps to two sides of the line cannot both be no worse than the other and
than the diagonal one. -/
theorem sides_differ {v a b : ℤ} (ha : 0 < a) (hb : 0 < b) :
    |v - b| < |v + a| ∨ |v + a| < |v - b| ∨ |v + a - b| < |v + a| := by
  rcases abs_cases (v + a) with h | h <;> rcases abs_cases (v - b) with h' | h' <;>
    rcases abs_cases (v + a - b) with h'' | h'' <;> omega

variable {l} {x y : ℤ}

theorem moves_diverge (h : l.Towards x y) (hx : x ≠ l.destX) (hy : y ≠ l.destY) :
    l.moveVer x y < l.moveHor x y ∨ l.moveHor x y < l.moveVer x y ∨
      l.moveCross x y < l.moveHor x y ∨ l.moveCross x y < l.moveVer x y := by
  have hhor : l.moveHor x y = |(l.A * x + l.B * y + l.C) + l.A * l.mx| := by
    unfold moveHor
    ring_nf
  have hver : l.moveVer x y = |(l.A * x + l.B * y + l.C) + l.B * l.my| := by
    unfold moveVer
    ring_nf
  have hcross : l.moveCross x y = |(l.A * x + l.B * y + l.C) + l.A * l.mx + l.B * l.my| := by
    unfold moveCross
    ring_nf
  rw [hhor, hver, hcross]
  generalize l.A * x + l.B * y + l.C = v
  rcases lt_or_gt_of_ne hx with heast | hwest <;> rcases lt_or_gt_of_ne hy with hsouth | hnorth
  · obtain ⟨hmx, hB⟩ := h.east heast
    obtain ⟨hmy, hA⟩ := h.south hsouth
    rw [hmx, hmy, mul_one, mul_one]
    have hsides := sides_differ (v := v) hA (neg_pos.mpr hB)
    rw [sub_neg_eq_add, sub_neg_eq_add] at hsides
    exact hsides.imp_right fun hrest => hrest.imp_right .inl
  · obtain ⟨hmx, hB⟩ := h.east heast
    obtain ⟨hmy, hA⟩ := h.north hnorth
    rw [hmx, hmy, mul_one, mul_neg_one]
    have hsides := sides_differ (v := v) (neg_pos.mpr hB) (neg_pos.mpr hA)
    rw [sub_neg_eq_add, sub_neg_eq_add, add_right_comm] at hsides
    rcases hsides with hlt | hlt | hlt
    · exact .inr (.inl hlt)
    · exact .inl hlt
    · exact .inr (.inr (.inr hlt))
  · obtain ⟨hmx, hB⟩ := h.west hwest
    obtain ⟨hmy, hA⟩ := h.south hsouth
    rw [hmx, hmy, mul_one, mul_neg_one]
    have hsides := sides_differ (v := v) hB hA
    rw [sub_eq_add_neg, sub_eq_add_neg, add_right_comm] at hsides
    rcases hsides with hlt | hlt | hlt
    · exact .inr (.inl hlt)
    · exact .inl hlt
    · exact .inr (.inr (.inr hlt))
  · obtain ⟨hmx, hB⟩ := h.west hwest
    obtain ⟨hmy, hA⟩ := h.north hnorth
    rw [hmx, hmy, mul_neg_one, mul_neg_one]
    have hsides := sides_differ (v := v) (neg_pos.mpr hA) hB
    rw [sub_eq_add_neg, sub_eq_add_neg] at hsides
    exact hsides.imp_right fun hrest => hrest.imp_right .inl

theorem Towards.moveX (h : l.Towards x y) (hx : x ≠ l.destX) :
    l.Towards (x + l.mx) y ∧ |l.destX - (x + l.mx)| < |l.destX - x| := by
  rcases lt_or_gt_of_ne hx with heast | hwest
  · have hmx := (h.east heast).1
    refine ⟨⟨fun _ => h.east heast, by omega, h.south, h.north⟩, ?_⟩
    rw [abs_of_nonneg (by omega), abs_of_nonneg (by omega)]
    omega
  · have hmx := (h.west hwest).1
    refine ⟨⟨by omega, fun _ => h.west hwest, h.south, h.north⟩, ?_⟩
    rw [abs_of_nonpos (by omega), abs_of_nonpos (by omega)]
    omega

theorem Towards.moveY (h : l.Towards x y) (hy : y ≠ l.destY) :
    l.Towards x (y + l.my) ∧ |l.destY - (y + l.my)| < |l.destY - y| := by
  rcases lt_or_gt_of_ne hy with hsouth | hnorth
  · have hmy := (h.south hsouth).1
    refine ⟨⟨h.east, h.west, fun _ => h.south hsouth, by omega⟩, ?_⟩
    rw [abs_of_nonneg (by omega), abs_of_nonneg (by omega)]
    omega
  · have hmy := (h.north hnorth).1
    refine ⟨⟨h.east, h.west, by omega, fun _ => h.north hnorth⟩, ?_⟩
    rw [abs_of_nonpos (by omega), abs_of_nonpos (by omega)]
    omega

theorem next_closer (h : l.Towards x y) (hne : ¬ (x = l.destX ∧ y = l.destY)) :
    l.Towards (l.next x y).1 (l.next x y).2 ∧
      |l.destX - (l.next x y).1| + |l.destY - (l.next x y).2| <
        |l.destX - x| + |l.destY - y| := by
  unfold next
  dsimp only
  split_ifs with hmoveY hmoveX hmoveX
  · obtain ⟨hy, hcloserY⟩ := h.moveY hmoveY.1
    obtain ⟨hxy, hcloserX⟩ := hy.moveX hmoveX.1
    exact ⟨hxy, add_lt_add hcloserX hcloserY⟩
  · obtain ⟨hy, hcloserY⟩ := h.moveY hmoveY.1
    exact ⟨hy, add_lt_add_of_le_of_lt le_rfl hcloserY⟩
  · obtain ⟨hx, hcloserX⟩ := h.moveX hmoveX.1
    exact ⟨hx, add_lt_add_of_lt_of_le hcloserX le_rfl⟩
  · -- neither coordinate would move
    exfalso
    have hx : x ≠ l.destX := fun hx => hmoveY ⟨fun hy => hne ⟨hx, hy⟩, .inl hx⟩
    have hy : y ≠ l.destY := fun hy => hmoveX ⟨hx, .inl hy⟩
    rcases moves_diverge h hx hy with hlt | hlt | hlt | hlt
    · exact hmoveY ⟨hy, .inr (.inl hlt)⟩
    · exact hmoveX ⟨hx, .inr (.inl hlt)⟩
    · exact hmoveY ⟨hy, .inr (.inr hlt)⟩
    · exact hmoveX ⟨hx, .inr (.inr hlt)⟩

/-- As many rounds as the distance has squares are enough. -/
theorem check_isSome (blocked : ℤ → ℤ → Bool) (fuel : ℕ) (h : l.Towards x y)
    (hfuel : |l.destX - x| + |l.destY - y| ≤ fuel) : (l.check blocked fuel x y).isSome := by
  induction fuel generalizing x y with
  | zero =>
    have hx := abs_nonneg (l.destX - x)
    have hy := abs_nonneg (l.destY - y)
    have hdest : x = l.destX ∧ y = l.destY := by
      constructor
      · linarith [abs_nonpos_iff.mp (show |l.destX - x| ≤ 0 by omega)]
      · linarith [abs_nonpos_iff.mp (show |l.destY - y| ≤ 0 by omega)]
    rw [check, if_pos hdest]
    rfl
  | succ fuel ih =>
    rw [check]
    by_cases hdest : x = l.destX ∧ y = l.destY
    · rw [if_pos hdest]
      rfl
    · obtain ⟨htowards, hcloser⟩ := next_closer h hdest
      rw [if_neg hdest]
      dsimp only
      split_ifs
      · rfl
      · exact ih htowards (by omega)

end SightLine

/-- `checkSightLine` for two squares on one floor, where its second loop, over
the floors between them, does not run. -/
def checkSightLine (blocked : ℤ → ℤ → Bool) (fromPos toPos : Position) : Option Bool :=
  if fromPos = toPos then some true
  else
    (SightLine.ofPositions fromPos toPos).check blocked
      (fromPos.getDistanceX toPos + fromPos.getDistanceY toPos).toNat fromPos.getX fromPos.getY

theorem checkSightLine_isSome (blocked : ℤ → ℤ → Bool) (fromPos toPos : Position) :
    (checkSightLine blocked fromPos toPos).isSome := by
  unfold checkSightLine
  split_ifs
  · rfl
  · apply SightLine.check_isSome _ _ (SightLine.towards_ofPositions fromPos toPos)
    have hx : |toPos.getX - fromPos.getX| = fromPos.getDistanceX toPos := abs_sub_comm _ _
    have hy : |toPos.getY - fromPos.getY| = fromPos.getDistanceY toPos := abs_sub_comm _ _
    change |toPos.getX - fromPos.getX| + |toPos.getY - fromPos.getY| ≤ _
    rw [hx, hy, Int.toNat_of_nonneg]
    exact add_nonneg (abs_nonneg _) (abs_nonneg _)

/-- `isSightClear(fromPos, toPos, true)`; the loops end, so that the `get` of
their answers is defined. -/
def isSightClear (blocked : ℤ → ℤ → Bool) (fromPos toPos : Position) : Bool :=
  if fromPos.z ≠ toPos.z then false
  else
    (checkSightLine blocked fromPos toPos).get (checkSightLine_isSome ..) ||
      (checkSightLine blocked toPos fromPos).get (checkSightLine_isSome ..)

/-! ## The loop as it is compiled -/

namespace SightLine

/-- The value of an `int32_t` sum of products.  The sums and products in it overflow in the same
way, which the last one does not show. -/
def int32 (n : ℤ) : ℤ := n.bmod 4294967296

/-- `start.x += mx`. -/
def uint16 (n : ℤ) : ℤ := n % 65536

/-- One round of the loop. -/
def step (l : SightLine) (x y : ℤ) : ℤ × ℤ :=
  let move_hor := |int32 (l.A * (x + l.mx) + l.B * y + l.C)|
  let move_ver := |int32 (l.A * x + l.B * (y + l.my) + l.C)|
  let move_cross := |int32 (l.A * (x + l.mx) + l.B * (y + l.my) + l.C)|
  let y' :=
    if y ≠ l.destY ∧ (x = l.destX ∨ move_hor > move_ver ∨ move_hor > move_cross) then
      uint16 (y + l.my)
    else y
  let x' :=
    if x ≠ l.destX ∧ (y' = l.destY ∨ move_ver > move_hor ∨ move_ver > move_cross) then
      uint16 (x + l.mx)
    else x
  (x', y')

/-- The loop, for at most `fuel` rounds. -/
def loop (l : SightLine) (blocked : ℤ → ℤ → Bool) : ℕ → ℤ × ℤ → Option Bool
  | fuel, start =>
    if start.1 = l.destX ∧ start.2 = l.destY then some true
    else
      match fuel with
      | 0 => none
      | fuel + 1 =>
        let start := l.step start.1 start.2
        if blocked start.1 start.2 then some false else loop l blocked fuel start

/-- The squares on which the loop stands after `k` rounds. -/
def square (l : SightLine) (start : ℤ × ℤ) (k : ℕ) : ℤ × ℤ :=
  (fun start => l.step start.1 start.2)^[k] start

/-! ## What is left of the way -/

/-- One round in distances: `a` and `b` to cover, `i` and `j` of them left. -/
def advance (a b i j : ℤ) : ℤ × ℤ :=
  let hor := |b * j - a * i + a|
  let ver := |b * j - a * i - b|
  let cross := |b * j - a * i + a - b|
  let j' := if j ≠ 0 ∧ (i = 0 ∨ hor > ver ∨ hor > cross) then j - 1 else j
  let i' := if i ≠ 0 ∧ (j' = 0 ∨ ver > hor ∨ ver > cross) then i - 1 else i
  (i', j')

theorem abs_add_lt_abs_iff {u d : ℤ} (hd : 0 < d) : |u + d| < |u| ↔ 2 * u < -d := by
  rw [abs_eq_max_neg, abs_eq_max_neg]
  omega

theorem abs_lt_abs_add_iff {u d : ℤ} (hd : 0 < d) : |u| < |u + d| ↔ -d < 2 * u := by
  rw [abs_eq_max_neg, abs_eq_max_neg]
  omega

/-- With both distances left, the comparisons are about the side `b * j - a * i`. -/
theorem advance_eq {a b i j u : ℤ} (ha : 0 < a) (hb : 0 < b) (hi : i ≠ 0) (hj : j ≠ 0)
    (hu : b * j - a * i = u) :
    advance a b i j =
      ((if (if b - a < 2 * u ∨ b < 2 * (u + a) then j - 1 else j) = 0 ∨ 2 * u < b - a ∨
          2 * u < 2 * b - a then i - 1 else i),
        if b - a < 2 * u ∨ b < 2 * (u + a) then j - 1 else j) := by
  have hhor : u + a = u - b + (a + b) := by ring
  have hcross : u + a = u + a - b + b := by ring
  have hver : u + a - b = u - b + a := by ring
  have hhorVer : |u + a| > |u - b| ↔ b - a < 2 * u := by
    rw [gt_iff_lt, hhor, abs_lt_abs_add_iff (by omega)]
    omega
  have hhorCross : |u + a| > |u + a - b| ↔ b < 2 * (u + a) := by
    have hlt := abs_lt_abs_add_iff (u := u + a - b) hb
    rw [← hcross] at hlt
    exact hlt.trans (by omega)
  have hverHor : |u - b| > |u + a| ↔ 2 * u < b - a := by
    rw [gt_iff_lt, hhor, abs_add_lt_abs_iff (by omega)]
    omega
  have hverCross : |u - b| > |u + a - b| ↔ 2 * u < 2 * b - a := by
    rw [gt_iff_lt, hver, abs_add_lt_abs_iff ha]
    omega
  unfold advance
  simp only [hu, hhorVer, hhorCross, hverHor, hverCross, hi, hj, ne_eq, not_false_eq_true,
    true_and, false_or]

theorem advance_of_last_row {a b i : ℤ} (hi : i ≠ 0) : advance a b i 0 = (i - 1, 0) := by
  simp [advance, hi]

theorem advance_of_last_column {a b j : ℤ} (hj : j ≠ 0) : advance a b 0 j = (0, j - 1) := by
  simp [advance, hj]

/-- The square is near the line, and there is no way left but that to the destination. -/
structure Near (a b i j : ℤ) : Prop where
  nonneg_x : 0 ≤ i
  nonneg_y : 0 ≤ j
  le_x : i ≤ b
  le_y : j ≤ a
  above : -max a b ≤ 2 * (b * j - a * i)
  below : 2 * (b * j - a * i) ≤ max a b

/-- On the diagonal the squares near the line are those on it. -/
theorem Near.side_eq_zero {a i j : ℤ} (h : Near a a i j) : a * j - a * i = 0 := by
  obtain ⟨hi, hj, hib, hja, habove, hbelow⟩ := h
  rw [max_self, ← mul_sub] at *
  by_contra hne
  have hdiff : j - i ≠ 0 := fun h0 => hne (by rw [h0, mul_zero])
  have ha : 0 < a := by omega
  rcases lt_or_gt_of_ne hdiff with hlt | hgt
  · have hle : a * (j - i) ≤ a * (-1) := mul_le_mul_of_nonneg_left (by omega) ha.le
    omega
  · have hle : a * 1 ≤ a * (j - i) := mul_le_mul_of_nonneg_left (by omega) ha.le
    omega

/-- What a round does to the distances that are left. -/
structure Advances (a b i j i' j' : ℤ) : Prop where
  near : Near a b i' j'
  x : i' = i ∨ i' = i - 1
  y : j' = j ∨ j' = j - 1
  wide : a ≤ b → i' = i - 1
  tall : b < a → j' = j - 1

theorem near_advance {a b i j : ℤ} (h : Near a b i j) (hmore : i ≠ 0 ∨ j ≠ 0) :
    Advances a b i j (advance a b i j).1 (advance a b i j).2 := by
  have hdiagonal : a = b → b * j - a * i = 0 := by
    rintro rfl
    exact h.side_eq_zero
  obtain ⟨hi, hj, hib, hja, habove, hbelow⟩ := h
  have hleftX : a * (i - 1) = a * i - a := by ring
  have hleftY : b * (j - 1) = b * j - b := by ring
  by_cases hj0 : j = 0
  · subst hj0
    have hi0 : i ≠ 0 := hmore.resolve_right fun hne => hne rfl
    have hia : a ≤ a * i := le_mul_of_one_le_right (by omega) (by omega)
    rw [mul_zero] at *
    rw [advance_of_last_row hi0]
    refine ⟨⟨by omega, le_rfl, by omega, hja, ?_, ?_⟩, .inr rfl, .inl rfl, fun _ => rfl, by omega⟩
    · rw [mul_zero, hleftX]
      omega
    · rw [mul_zero, hleftX]
      omega
  by_cases hi0 : i = 0
  · subst hi0
    have hjb : b ≤ b * j := le_mul_of_one_le_right (by omega) (by omega)
    rw [mul_zero] at *
    rw [advance_of_last_column hj0]
    refine ⟨⟨le_rfl, by omega, hib, by omega, ?_, ?_⟩, .inl rfl, .inr rfl, by omega, fun _ => rfl⟩
    · rw [mul_zero, hleftY]
      omega
    · rw [mul_zero, hleftY]
      omega
  have hia : a ≤ a * i := le_mul_of_one_le_right (by omega) (by omega)
  have hjb : b ≤ b * j := le_mul_of_one_le_right (by omega) (by omega)
  have hi2 : 2 ≤ i → a * 2 ≤ a * i := fun h2 => mul_le_mul_of_nonneg_left h2 (by omega)
  have hi1 : i = 1 → a * i = a := fun h1 => by rw [h1, mul_one]
  have hj1 : j = 1 → b * j = b := fun h1 => by rw [h1, mul_one]
  rw [advance_eq (by omega) (by omega) hi0 hj0 rfl]
  by_cases hmoveY : b - a < 2 * (b * j - a * i) ∨ b < 2 * (b * j - a * i + a)
  · rw [if_pos hmoveY]
    split
    next hmoveX =>
      refine ⟨⟨by omega, by omega, by omega, by omega, ?_, ?_⟩, .inr rfl, .inr rfl,
        fun _ => rfl, fun _ => rfl⟩
      · rw [hleftX, hleftY]
        omega
      · rw [hleftX, hleftY]
        omega
    next hmoveX =>
      refine ⟨⟨hi, by omega, hib, by omega, ?_, ?_⟩, .inl rfl, .inr rfl, by omega,
        fun _ => rfl⟩
      · dsimp only
        rw [hleftY]
        omega
      · dsimp only
        rw [hleftY]
        omega
  · rw [if_neg hmoveY, if_pos (by omega)]
    refine ⟨⟨by omega, hj, by omega, hja, ?_, ?_⟩, .inr rfl, .inl rfl, fun _ => rfl, by omega⟩
    · dsimp only
      rw [hleftX]
      omega
    · dsimp only
      rw [hleftX]
      omega

/-! ## The squares -/

/-- The line with `a` and `b` to cover, on the square from which `i` and `j` are left. -/
structure Leaves (l : SightLine) (a b x y i j : ℤ) : Prop extends Near a b i j where
  mx : b ≠ 0 → l.mx = 1 ∨ l.mx = -1
  my : a ≠ 0 → l.my = 1 ∨ l.my = -1
  A : l.A = l.my * a
  B : l.B = -(l.mx * b)
  C : l.C = -(l.A * l.destX + l.B * l.destY)
  destX : l.destX - x = l.mx * i
  destY : l.destY - y = l.my * j
  uint16X : 0 ≤ l.destX ∧ l.destX < 65536 ∧ 0 ≤ l.destX - l.mx * b ∧ l.destX - l.mx * b < 65536
  uint16Y : 0 ≤ l.destY ∧ l.destY < 65536 ∧ 0 ≤ l.destY - l.my * a ∧ l.destY - l.my * a < 65536

variable {l : SightLine} {a b x y i j : ℤ}

theorem abs_int32 {s v : ℤ} (hs : s = 1 ∨ s = -1) (hv : -131072 ≤ v ∧ v ≤ 131072) :
    |int32 (s * v)| = |v| := by
  unfold int32
  rcases hs with rfl | rfl
  · rw [one_mul, Int.bmod_eq_of_le (by omega) (by omega)]
  · rw [neg_one_mul, Int.bmod_eq_of_le (by omega) (by omega), abs_neg]

/-- The three sums of a round. -/
theorem Leaves.sums (h : Leaves l a b x y i j) :
    l.A * (x + l.mx) + l.B * y + l.C = l.mx * l.my * (b * j - a * i + a) ∧
      l.A * x + l.B * (y + l.my) + l.C = l.mx * l.my * (b * j - a * i - b) ∧
      l.A * (x + l.mx) + l.B * (y + l.my) + l.C = l.mx * l.my * (b * j - a * i + a - b) := by
  refine ⟨?_, ?_, ?_⟩
  · linear_combination h.C - l.A * h.destX - l.B * h.destY + (l.mx - l.mx * i) * h.A -
      l.my * j * h.B
  · linear_combination h.C - l.A * h.destX - l.B * h.destY - l.mx * i * h.A +
      (l.my - l.my * j) * h.B
  · linear_combination h.C - l.A * h.destX - l.B * h.destY + (l.mx - l.mx * i) * h.A +
      (l.my - l.my * j) * h.B

theorem Leaves.x_eq_iff (h : Leaves l a b x y i j) : x = l.destX ↔ i = 0 := by
  have hi := h.nonneg_x
  have hib := h.le_x
  have hx := h.destX
  constructor
  · rintro rfl
    by_contra hne
    rcases h.mx (by omega) with hmx | hmx <;> rw [hmx] at hx <;> omega
  · rintro rfl
    omega

theorem Leaves.y_eq_iff (h : Leaves l a b x y i j) : y = l.destY ↔ j = 0 := by
  have hj := h.nonneg_y
  have hja := h.le_y
  have hy := h.destY
  constructor
  · rintro rfl
    by_contra hne
    rcases h.my (by omega) with hmy | hmy <;> rw [hmy] at hy <;> omega
  · rintro rfl
    omega

theorem Leaves.uint16_x (h : Leaves l a b x y i j) (hi : i ≠ 0) :
    uint16 (x + l.mx) = l.destX - l.mx * (i - 1) := by
  obtain ⟨⟨hi0, -, hib, -, -, -⟩, hmx, -, -, -, -, hx, -, hbounds, -⟩ := h
  unfold uint16
  rcases hmx (by omega) with hmx | hmx <;> rw [hmx] at hx hbounds ⊢ <;> omega

theorem Leaves.uint16_y (h : Leaves l a b x y i j) (hj : j ≠ 0) :
    uint16 (y + l.my) = l.destY - l.my * (j - 1) := by
  obtain ⟨⟨-, hj0, -, hja, -, -⟩, -, hmy, -, -, -, -, hy, -, hbounds⟩ := h
  unfold uint16
  rcases hmy (by omega) with hmy | hmy <;> rw [hmy] at hy hbounds ⊢ <;> omega

/-- With both distances left no sum overflows. -/
theorem Leaves.sides (h : Leaves l a b x y i j) (hi : i ≠ 0) (hj : j ≠ 0) :
    |int32 (l.A * (x + l.mx) + l.B * y + l.C)| = |b * j - a * i + a| ∧
      |int32 (l.A * x + l.B * (y + l.my) + l.C)| = |b * j - a * i - b| ∧
      |int32 (l.A * (x + l.mx) + l.B * (y + l.my) + l.C)| = |b * j - a * i + a - b| := by
  obtain ⟨hhor, hver, hcross⟩ := h.sums
  obtain ⟨⟨hi0, hj0, hib, hja, habove, hbelow⟩, hmx, hmy, -, -, -, -, -, hboundX, hboundY⟩ := h
  have hsign : l.mx * l.my = 1 ∨ l.mx * l.my = -1 := by
    rcases hmx (by omega) with hmx | hmx <;> rcases hmy (by omega) with hmy | hmy <;>
      rw [hmx, hmy] <;> decide
  have hb : b < 65536 := by
    rcases hmx (by omega) with hmx | hmx <;> rw [hmx] at hboundX <;> omega
  have ha : a < 65536 := by
    rcases hmy (by omega) with hmy | hmy <;> rw [hmy] at hboundY <;> omega
  rw [hhor, hver, hcross]
  exact ⟨abs_int32 hsign (by omega), abs_int32 hsign (by omega), abs_int32 hsign (by omega)⟩

/-- A round advances on the square. -/
theorem Leaves.step_eq (h : Leaves l a b x y i j) (hmore : i ≠ 0 ∨ j ≠ 0) :
    l.step x y =
      (l.destX - l.mx * (advance a b i j).1, l.destY - l.my * (advance a b i j).2) := by
  have hx : x = l.destX - l.mx * i := by linarith [h.destX]
  have hy : y = l.destY - l.my * j := by linarith [h.destY]
  by_cases hj : j = 0
  · have hi : i ≠ 0 := hmore.resolve_right fun hne => hne hj
    have hlast : y = l.destY := h.y_eq_iff.mpr hj
    have hmoves : x ≠ l.destX := fun heq => hi (h.x_eq_iff.mp heq)
    subst hj
    rw [advance_of_last_row hi, mul_zero, sub_zero, ← h.uint16_x hi]
    simp only [step, hlast, hmoves, ne_eq, not_true_eq_false, not_false_eq_true, false_and,
      true_and, true_or, if_false, if_true]
  by_cases hi : i = 0
  · have hlast : x = l.destX := h.x_eq_iff.mpr hi
    have hmoves : y ≠ l.destY := fun heq => hj (h.y_eq_iff.mp heq)
    subst hi
    rw [advance_of_last_column hj, mul_zero, sub_zero, ← h.uint16_y hj]
    simp only [step, hlast, hmoves, ne_eq, not_true_eq_false, not_false_eq_true, false_and,
      true_and, true_or, if_false, if_true]
  obtain ⟨hhor, hver, hcross⟩ := h.sides hi hj
  have hdest : l.destY - l.my * (j - 1) = l.destY ↔ j - 1 = 0 := by
    rcases h.my (by have := h.le_y; have := h.nonneg_y; omega) with hmy | hmy <;> rw [hmy] <;>
      omega
  have hx0 : x ≠ l.destX := fun heq => hi (h.x_eq_iff.mp heq)
  have hy0 : y ≠ l.destY := fun heq => hj (h.y_eq_iff.mp heq)
  unfold step advance
  simp only [hhor, hver, hcross, h.uint16_x hi, h.uint16_y hj, hx0, hy0, hi, hj, ne_eq,
    not_false_eq_true, true_and, false_or]
  split
  · simp only [hdest]
    split
    · rfl
    · rw [hx]
  · simp only [hy0, hj, false_or]
    split
    · rw [hy]
    · rw [hx, hy]

theorem Leaves.step (h : Leaves l a b x y i j) (hmore : i ≠ 0 ∨ j ≠ 0) :
    ∃ i' j', Advances a b i j i' j' ∧ Leaves l a b (l.step x y).1 (l.step x y).2 i' j' := by
  have hadvances := near_advance h.toNear hmore
  refine ⟨_, _, hadvances, ?_⟩
  rw [h.step_eq hmore]
  exact { h with toNear := hadvances.near, destX := by ring, destY := by ring }

/-- The distance that is not the longer one is covered by then. -/
theorem Near.arrives (h : Near a b i j) (hwide : a ≤ b → i = 0) (htall : b < a → j = 0) :
    i = 0 ∧ j = 0 := by
  obtain ⟨hi, hj, hib, hja, habove, hbelow⟩ := h
  rcases le_or_gt a b with hle | hlt
  · refine ⟨hwide hle, ?_⟩
    rw [hwide hle, mul_zero] at *
    by_contra hne
    have hjb : b ≤ b * j := le_mul_of_one_le_right (by omega) (by omega)
    omega
  · refine ⟨?_, htall hlt⟩
    rw [htall hlt, mul_zero] at *
    by_contra hne
    have hia : a ≤ a * i := le_mul_of_one_le_right (by omega) (by omega)
    omega

theorem square_succ (l : SightLine) (start : ℤ × ℤ) (k : ℕ) :
    l.square start (k + 1) = l.step (l.square start k).1 (l.square start k).2 :=
  Function.iterate_succ_apply' _ k start

theorem square_step (l : SightLine) (start : ℤ × ℤ) (k : ℕ) :
    l.square (l.step start.1 start.2) k = l.square start (k + 1) :=
  (Function.iterate_succ_apply _ k start).symm

/-- After each round one less of the longer distance is left. -/
theorem Leaves.square (start : ℤ × ℤ) (h : Leaves l a b start.1 start.2 b a) (k : ℕ)
    (hk : k ≤ max a b) :
    ∃ i j, Leaves l a b (l.square start k).1 (l.square start k).2 i j ∧
      (a ≤ b → i = b - k) ∧ (b < a → j = a - k) := by
  induction k with
  | zero => exact ⟨b, a, h, by simp, by simp⟩
  | succ k ih =>
    obtain ⟨i, j, hleaves, hwide, htall⟩ := ih (by omega)
    obtain ⟨i', j', hadvances, hleaves'⟩ := hleaves.step (by omega)
    rw [square_succ]
    refine ⟨i', j', hleaves', fun hle => ?_, fun hlt => ?_⟩
    · rw [hadvances.wide hle, hwide hle]
      omega
    · rw [hadvances.tall hlt, htall hlt]
      omega

/-- The sign that the source takes of a difference. -/
theorem sign_spec (x x' : ℤ) :
    x' - x = (if x < x' then 1 else if x = x' then 0 else -1) * |x - x'| ∧
      (|x - x'| ≠ 0 → (if x < x' then (1 : ℤ) else if x = x' then 0 else -1) = 1 ∨
        (if x < x' then (1 : ℤ) else if x = x' then 0 else -1) = -1) := by
  rcases lt_trichotomy x x' with hlt | heq | hgt
  · simp only [if_pos hlt, abs_of_neg (sub_neg.mpr hlt)]
    exact ⟨by ring, fun _ => .inl trivial⟩
  · subst heq
    simp
  · simp only [if_neg hgt.not_gt, if_neg hgt.ne', abs_of_pos (sub_pos.mpr hgt)]
    exact ⟨by ring, fun _ => .inr trivial⟩

theorem leaves_ofPositions (fromPos toPos : Position) :
    Leaves (ofPositions fromPos toPos) (fromPos.getDistanceY toPos) (fromPos.getDistanceX toPos)
      fromPos.getX fromPos.getY (fromPos.getDistanceX toPos) (fromPos.getDistanceY toPos) := by
  have hfromX := fromPos.getX_bounds
  have hfromY := fromPos.getY_bounds
  have htoX := toPos.getX_bounds
  have htoY := toPos.getY_bounds
  obtain ⟨hx, hmx⟩ := sign_spec fromPos.getX toPos.getX
  obtain ⟨hy, hmy⟩ := sign_spec fromPos.getY toPos.getY
  unfold ofPositions Position.getDistanceX Position.getDistanceY Position.getOffsetX
    Position.getOffsetY
  have hside : |fromPos.getX - toPos.getX| * |fromPos.getY - toPos.getY| -
      |fromPos.getY - toPos.getY| * |fromPos.getX - toPos.getX| = 0 := by ring
  have hlong : 0 ≤ max |fromPos.getY - toPos.getY| |fromPos.getX - toPos.getX| :=
    le_max_of_le_left (abs_nonneg _)
  refine
    { nonneg_x := abs_nonneg _
      nonneg_y := abs_nonneg _
      le_x := le_rfl
      le_y := le_rfl
      above := ?_
      below := ?_
      mx := hmx
      my := hmy
      A := hy
      B := ?_
      C := rfl
      destX := hx
      destY := hy
      uint16X := ?_
      uint16Y := ?_ }
  · rw [hside]
    omega
  · rw [hside]
    omega
  · linarith
  · dsimp only
    rw [← hx]
    omega
  · dsimp only
    rw [← hy]
    omega

/-! ## The loop -/

/-- Neighbouring squares. -/
def Adjacent (p q : ℤ × ℤ) : Prop := |p.1 - q.1| ≤ 1 ∧ |p.2 - q.2| ≤ 1 ∧ p ≠ q

/-- The rectangle between two squares. -/
def InRectangle (fromPos toPos : Position) (square : ℤ × ℤ) : Prop :=
  (min fromPos.getX toPos.getX ≤ square.1 ∧ square.1 ≤ max fromPos.getX toPos.getX) ∧
    min fromPos.getY toPos.getY ≤ square.2 ∧ square.2 ≤ max fromPos.getY toPos.getY

theorem moved_spec {m e i i' u u' d : ℤ} (hm : e ≠ 0 → m = 1 ∨ m = -1) (hi : 0 ≤ i')
    (hie : i ≤ e) (h : i' = i ∨ i' = i - 1) (hu : d - u = m * i) (hu' : d - u' = m * i') :
    |u - u'| ≤ 1 ∧ (u = u' → i' = i) := by
  rcases h with rfl | rfl
  · obtain rfl : u = u' := by omega
    simp
  · rw [abs_le]
    rcases hm (by omega) with rfl | rfl <;> omega

/-- A round comes to a neighbouring square. -/
theorem Leaves.adjacent (h : Leaves l a b x y i j) (hmore : i ≠ 0 ∨ j ≠ 0) :
    Adjacent (x, y) (l.step x y) := by
  obtain ⟨i', j', hadvances, hleaves⟩ := h.step hmore
  obtain ⟨hnearX, hsameX⟩ := moved_spec h.mx hleaves.nonneg_x h.le_x hadvances.x h.destX
    hleaves.destX
  obtain ⟨hnearY, hsameY⟩ := moved_spec h.my hleaves.nonneg_y h.le_y hadvances.y h.destY
    hleaves.destY
  refine ⟨hnearX, hnearY, fun heq => ?_⟩
  have hi : i' = i := hsameX (congrArg Prod.fst heq)
  have hj : j' = j := hsameY (congrArg Prod.snd heq)
  rcases le_or_gt a b with hle | hlt
  · have := hadvances.wide hle
    omega
  · have := hadvances.tall hlt
    omega

theorem Leaves.inRectangle {fromPos toPos : Position}
    (h : Leaves (ofPositions fromPos toPos) (fromPos.getDistanceY toPos)
      (fromPos.getDistanceX toPos) x y i j) : InRectangle fromPos toPos (x, y) := by
  have hstart := leaves_ofPositions fromPos toPos
  have hbetween : ∀ {m e i u d : ℤ}, (e ≠ 0 → m = 1 ∨ m = -1) → 0 ≤ i → i ≤ e →
      ∀ start, d - start = m * e → d - u = m * i → min start d ≤ u ∧ u ≤ max start d := by
    intro m e i u d hm hi hie start hd hu
    by_cases he : e = 0
    · obtain rfl : i = e := by omega
      omega
    · rcases hm he with rfl | rfl <;> omega
  exact ⟨hbetween h.mx h.nonneg_x h.le_x _ hstart.destX h.destX,
    hbetween h.my h.nonneg_y h.le_y _ hstart.destY h.destY⟩

/-- As long as the destination is not reached the loop goes on, past squares that do not block. -/
theorem loop_eq (blocked : ℤ → ℤ → Bool) (n : ℕ) (start : ℤ × ℤ)
    (hbefore : ∀ k < n, l.square start k ≠ (l.destX, l.destY))
    (hend : l.square start n = (l.destX, l.destY)) :
    (∀ fuel ≥ n, l.loop blocked fuel start = some (decide (∀ k < n,
      blocked (l.square start (k + 1)).1 (l.square start (k + 1)).2 = false))) ∧
    ∀ fuel < n, l.loop (fun _ _ => false) fuel start = none := by
  induction n generalizing start with
  | zero =>
    have hthere : start.1 = l.destX ∧ start.2 = l.destY := Prod.ext_iff.mp hend
    refine ⟨fun fuel _ => ?_, fun fuel hfuel => absurd hfuel (Nat.not_lt_zero fuel)⟩
    unfold loop
    rw [if_pos hthere]
    simp
  | succ n ih =>
    have hnot : ¬(start.1 = l.destX ∧ start.2 = l.destY) :=
      fun hthere => hbefore 0 n.succ_pos (Prod.ext hthere.1 hthere.2)
    obtain ⟨hloop, hshort⟩ := ih (l.step start.1 start.2)
      (fun k hk => by rw [square_step]; exact hbefore (k + 1) (by omega))
      (by rw [square_step]; exact hend)
    refine ⟨fun fuel hfuel => ?_, fun fuel hfuel => ?_⟩
    · obtain ⟨fuel, rfl⟩ : ∃ m, fuel = m + 1 := ⟨fuel - 1, by omega⟩
      rw [loop, if_neg hnot]
      dsimp only
      rw [hloop fuel (by omega)]
      simp only [square_step]
      split
      next hblocked =>
        have hno : ¬∀ k < n + 1,
            blocked (l.square start (k + 1)).1 (l.square start (k + 1)).2 = false := by
          intro hall
          have hfirst := hall 0 n.succ_pos
          rw [square_succ] at hfirst
          exact absurd (hblocked.symm.trans hfirst) (by decide)
        rw [decide_eq_false hno]
      next hfree =>
        congr 2
        rw [eq_iff_iff, Nat.forall_lt_succ_left, square_succ l start 0]
        exact (and_iff_right (Bool.not_eq_true _ ▸ hfree)).symm
    · cases fuel with
      | zero =>
        rw [loop, if_neg hnot]
      | succ fuel =>
        rw [loop, if_neg hnot]
        exact hshort fuel (by omega)

theorem loop_congr {blocked blocked' : ℤ → ℤ → Bool} (fuel : ℕ) (start : ℤ × ℤ)
    (h : ∀ k, k < fuel → (∀ k' ≤ k, l.square start k' ≠ (l.destX, l.destY)) →
      blocked (l.square start (k + 1)).1 (l.square start (k + 1)).2 =
        blocked' (l.square start (k + 1)).1 (l.square start (k + 1)).2) :
    l.loop blocked fuel start = l.loop blocked' fuel start := by
  induction fuel generalizing start with
  | zero => rfl
  | succ fuel ih =>
    unfold loop
    split
    · rfl
    next hnot =>
      have hstart : start ≠ (l.destX, l.destY) := fun heq => hnot (Prod.ext_iff.mp heq)
      have hfirst := h 0 fuel.succ_pos fun k hk => by
        obtain rfl : k = 0 := by omega
        exact hstart
      rw [square_succ] at hfirst
      dsimp only
      rw [show blocked (l.step start.1 start.2).1 (l.step start.1 start.2).2 =
        blocked' (l.step start.1 start.2).1 (l.step start.1 start.2).2 from hfirst]
      split
      · rfl
      · apply ih
        intro k hk hbefore
        rw [square_step]
        apply h (k + 1) (by omega)
        intro k' hk'
        cases k' with
        | zero => exact hstart
        | succ k' =>
          rw [← square_step]
          exact hbefore k' (by omega)

end SightLine

open SightLine

/-- `checkSightLine` for two squares on one floor, as it is compiled. -/
def checkSightLineInt32 (blocked : ℤ → ℤ → Bool) (fuel : ℕ) (fromPos toPos : Position) :
    Option Bool :=
  if fromPos = toPos then some true
  else (ofPositions fromPos toPos).loop blocked fuel (fromPos.getX, fromPos.getY)

/-- On one floor the loop stands on the destination after as many rounds as the longer of the two
distances, and on no square outside the rectangle between the two before. -/
theorem checkSightLine_squares (x y x' y' : UInt16) (z : UInt8) :
    let fromPos : Position := ⟨x, y, z⟩
    let toPos : Position := ⟨x', y', z⟩
    let rounds := (max (fromPos.getDistanceX toPos) (fromPos.getDistanceY toPos)).toNat
    let square := (ofPositions fromPos toPos).square (fromPos.getX, fromPos.getY)
    square rounds = (toPos.getX, toPos.getY) ∧
      (∀ k < rounds, square k ≠ (toPos.getX, toPos.getY) ∧
        Adjacent (square k) (square (k + 1))) ∧
      (∀ k ≤ rounds, InRectangle fromPos toPos (square k)) ∧
      (∀ blocked, ∀ fuel ≥ rounds, checkSightLineInt32 blocked fuel fromPos toPos =
        some (decide (∀ k < rounds, blocked (square (k + 1)).1 (square (k + 1)).2 = false))) ∧
      (∀ fuel < rounds, checkSightLineInt32 (fun _ _ => false) fuel fromPos toPos = none) ∧
      ∀ blocked blocked' fuel,
        (∀ p, InRectangle fromPos toPos p → blocked p.1 p.2 = blocked' p.1 p.2) →
          checkSightLineInt32 blocked fuel fromPos toPos =
            checkSightLineInt32 blocked' fuel fromPos toPos := by
  intro fromPos toPos rounds square
  have hstart := leaves_ofPositions fromPos toPos
  have hrounds : (rounds : ℤ) = max (fromPos.getDistanceY toPos) (fromPos.getDistanceX toPos) := by
    rw [max_comm]
    exact Int.toNat_of_nonneg (le_max_of_le_left (abs_nonneg _))
  have hleaves := fun k (hk : k ≤ rounds) =>
    Leaves.square (fromPos.getX, fromPos.getY) hstart k (by omega)
  have hend : square rounds = (toPos.getX, toPos.getY) := by
    obtain ⟨i, j, h, hwide, htall⟩ := hleaves rounds le_rfl
    obtain ⟨hi, hj⟩ := h.toNear.arrives (by omega) (by omega)
    exact Prod.ext (h.x_eq_iff.mpr hi) (h.y_eq_iff.mpr hj)
  have hbefore : ∀ k < rounds, square k ≠ (toPos.getX, toPos.getY) ∧
      Adjacent (square k) (square (k + 1)) := by
    intro k hk
    obtain ⟨i, j, h, hwide, htall⟩ := hleaves k hk.le
    have hmore : i ≠ 0 ∨ j ≠ 0 := by omega
    refine ⟨fun heq => ?_, ?_⟩
    · rcases hmore with hi | hj
      · exact hi (h.x_eq_iff.mp (congrArg Prod.fst heq))
      · exact hj (h.y_eq_iff.mp (congrArg Prod.snd heq))
    · have hadjacent := h.adjacent hmore
      rw [← square_succ] at hadjacent
      exact hadjacent
  have hinside : ∀ k ≤ rounds, InRectangle fromPos toPos (square k) := by
    intro k hk
    obtain ⟨i, j, h, -⟩ := hleaves k hk
    exact h.inRectangle
  have hloop := fun blocked => loop_eq blocked rounds (fromPos.getX, fromPos.getY)
    (fun k hk => (hbefore k hk).1) hend
  refine ⟨hend, hbefore, hinside, fun blocked fuel hfuel => ?_, fun fuel hfuel => ?_,
    fun blocked blocked' fuel hsame => ?_⟩
  · unfold checkSightLineInt32
    split
    next heq =>
        have hnone : rounds = 0 := by
          rw [show toPos = fromPos from heq.symm] at hrounds
          simpa [Position.getDistanceX, Position.getDistanceY, Position.getOffsetX,
            Position.getOffsetY] using hrounds
        rw [hnone]
        simp
    next => exact (hloop blocked).1 fuel hfuel
  · unfold checkSightLineInt32
    rw [if_neg, (hloop fun _ _ => false).2 fuel hfuel]
    intro heq
    exact (hbefore 0 (by omega)).1 (by rw [← heq]; rfl)
  · unfold checkSightLineInt32
    split
    · rfl
    · apply loop_congr
      intro k _ hnot
      apply hsame
      rcases lt_or_ge k rounds with hlt | hge
      · exact hinside (k + 1) hlt
      · exact absurd hend (hnot rounds hge)

end TibiaServer.World
