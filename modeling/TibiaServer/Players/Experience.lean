import Mathlib.Tactic.Linarith
import TibiaServer.Players.Skills
/-!
# Experience and levels

`addExperience` walks the level up while the experience reaches the next one,
`removeExperience` and `death` walk it down while the experience is below the present one,
and each level is worth the same health, mana and capacity on both ways.  The walks are
right for any experience; what is written to the experience itself may wrap around
(`always_agrees_iff`).
-/

namespace TibiaServer.Players

open Library.Run

/-- The gains of a vocation for each level. -/
structure LevelGains where
  vocationId : ℕ
  gainHP : BitVec 32
  gainMana : BitVec 32
  gainCap : BitVec 32

def VOCATION_NONE : ℕ := 0

/-- Three times the experience of a level in unbounded numbers, with `n` one less than the
level. -/
def expPoly (n : ℤ) : ℤ := 50 * n ^ 3 - 150 * n ^ 2 + 400 * n

/-- In `uint64_t`; `lv` is decremented as an `int32_t` first. -/
def getExpForLevel (lv : ℕ) : ℕ := (expPoly (lv - 1) % 2 ^ 64 / 3).toNat

/-- `getExpForLevel` does not wrap around. -/
def NoWrap (lv : ℕ) : Prop := expPoly (lv - 1) < 2 ^ 64

instance (lv : ℕ) : Decidable (NoWrap lv) := inferInstanceAs (Decidable (_ < _))

/-- `clamped` is set when a loss has stopped at zero.  The present health and mana are set
from their maxima when the level changes and are left out. -/
structure Character where
  level : ℕ := 1
  experience : ℕ := 0
  levelPercent : ℕ := 0
  healthMax : BitVec 32
  manaMax : BitVec 32
  capacity : BitVec 32
  clamped : Bool := false

namespace Character

variable (v : LevelGains)

/-! ## The walks -/

/-- One level up. -/
def advance (c : Character) : Character :=
  { c with
    level := c.level + 1
    healthMax := c.healthMax + v.gainHP
    manaMax := c.manaMax + v.gainMana
    capacity := c.capacity + v.gainCap }

/-- `std::max<int32_t>(0, value)` -/
def maxZero (value : BitVec 32) : BitVec 32 := if value.toInt < 0 then 0 else value

/-- One level down. -/
def retreat (c : Character) : Character :=
  { c with
    level := c.level - 1
    healthMax := maxZero (c.healthMax - v.gainHP)
    manaMax := maxZero (c.manaMax - v.gainMana)
    capacity := maxZero (c.capacity - v.gainCap)
    clamped := c.clamped || (c.healthMax - v.gainHP).toInt < 0 ||
      (c.manaMax - v.gainMana).toInt < 0 || (c.capacity - v.gainCap).toInt < 0 }

/-- `while (experience >= nextLevelExp)`, up to the level whose next one costs no more. -/
def climb (c : Character) : Character :=
  let nextLevelExp := getExpForLevel (c.level + 1)
  if nextLevelExp ≤ c.experience then
    if getExpForLevel (c.level + 1 + 1) ≤ nextLevelExp then c.advance v
    else climb (c.advance v)
  else c
termination_by c.experience + 1 - getExpForLevel (c.level + 1)
decreasing_by
  rename_i hnext hmax
  dsimp only [nextLevelExp, advance] at hnext hmax ⊢
  omega

/-- `while (level > 1 && experience < getExpForLevel(level))` -/
def descend (c : Character) : Character :=
  if 1 < c.level ∧ c.experience < getExpForLevel c.level then descend (c.retreat v) else c
termination_by c.level
decreasing_by
  simp only [retreat]
  omega

/-- The percentage at the end of each walk. -/
def withPercent (c : Character) : Character :=
  let currLevelExp := getExpForLevel c.level
  let nextLevelExp := getExpForLevel (c.level + 1)
  { c with
    levelPercent :=
      if currLevelExp < nextLevelExp then
        getPercentLevel (sub64 c.experience currLevelExp) (sub64 nextLevelExp currLevelExp)
      else 0 }

/-! ## The three calls

`exp` and `expLoss` are what the event has made of them. -/

/-- `experience += exp` -/
def gained (c : Character) (exp : ℕ) : ℕ := (c.experience + exp) % 2 ^ 64

/-- `std::max<int64_t>(0, experience - exp)` -/
def removed (c : Character) (exp : ℕ) : ℕ :=
  if sub64 c.experience exp < 2 ^ 63 then sub64 c.experience exp else 0

/-- `experience -= expLoss` -/
def lost (c : Character) (expLoss : ℕ) : ℕ := sub64 c.experience expLoss

def addExperience (c : Character) (exp : ℕ) : Character :=
  if getExpForLevel (c.level + 1) ≤ getExpForLevel c.level then { c with levelPercent := 0 }
  else if exp = 0 then c
  else withPercent (climb v { c with experience := c.gained exp })

/-- `asked` is what the call was given. -/
def removeExperience (c : Character) (asked exp : ℕ) : Character :=
  if c.experience = 0 ∨ asked = 0 then c
  else if exp = 0 then c
  else withPercent (descend v { c with experience := c.removed exp })

/-- The part of `death` about the level. -/
def death (c : Character) (expLoss : ℕ) : Character :=
  if expLoss = 0 then c
  else
    let c := if v.vocationId = VOCATION_NONE ∨ 7 < c.level then
      { c with experience := c.lost expLoss } else c
    withPercent (descend v c)

inductive Action
  | addExperience (exp : ℕ)
  | removeExperience (asked exp : ℕ)
  | death (expLoss : ℕ)

def step (c : Character) : Action → Option Character
  | .addExperience exp => some (c.addExperience v exp)
  | .removeExperience asked exp => some (c.removeExperience v asked exp)
  | .death expLoss => some (c.death v expLoss)

/-- The experience is that of the level. -/
structure Agrees (c : Character) : Prop where
  lower : getExpForLevel c.level ≤ c.experience
  upper : NoWrap (c.level + 1) → c.experience < getExpForLevel (c.level + 1)

/-- Since `start`, each maximum has changed by as many gains as the level, in the numbers of
its type. -/
def Balanced (start c : Character) : Prop :=
  c.clamped = false →
    c.healthMax = start.healthMax + BitVec.ofInt 32 (c.level - start.level) * v.gainHP ∧
    c.manaMax = start.manaMax + BitVec.ofInt 32 (c.level - start.level) * v.gainMana ∧
    c.capacity = start.capacity + BitVec.ofInt 32 (c.level - start.level) * v.gainCap

/-- The level is one that has an experience of its own. -/
structure WellFormed (c : Character) : Prop where
  pos : 1 ≤ c.level
  noWrap : NoWrap c.level
  agrees : c.Agrees

/-! ## The experience of a level -/

theorem expPoly_succ (n : ℤ) : expPoly (n + 1) = expPoly n + (150 * (n * (n - 1)) + 300) := by
  unfold expPoly
  ring

theorem expPoly_lt {n : ℤ} (hn : 0 ≤ n) : expPoly n + 300 ≤ expPoly (n + 1) := by
  have hpair : 0 ≤ n * (n - 1) := by
    rcases eq_or_lt_of_le hn with rfl | hpos
    · decide
    · exact mul_nonneg hn (by omega)
  rw [expPoly_succ]
  omega

theorem expPoly_nonneg {n : ℤ} (hn : 0 ≤ n) : 0 ≤ expPoly n := by
  unfold expPoly
  nlinarith [mul_nonneg hn (sq_nonneg (n - 1)), mul_nonneg hn (sq_nonneg (n - 2))]

/-- The step to the next level is far smaller than the range. -/
theorem expPoly_step {n : ℤ} (hn : 0 ≤ n) (h : expPoly n < 2 ^ 64) :
    expPoly (n + 1) < expPoly n + 2 ^ 64 := by
  have hsmall : n < 2 ^ 20 := by
    by_contra hge
    have hge : 2 ^ 20 ≤ n := by omega
    have hsq : 2 ^ 40 ≤ n ^ 2 := by nlinarith
    have hpoly : n ^ 2 * 50000000 ≤ expPoly n := by
      unfold expPoly
      nlinarith
    nlinarith
  rw [expPoly_succ]
  nlinarith

section Levels

variable {lv : ℕ}

theorem getExpForLevel_eq (hpos : 1 ≤ lv) (h : NoWrap lv) :
    (getExpForLevel lv : ℤ) = expPoly (lv - 1) / 3 := by
  have hnonneg : 0 ≤ expPoly (lv - 1) := expPoly_nonneg (by omega)
  unfold NoWrap at h
  rw [getExpForLevel, Int.emod_eq_of_lt hnonneg h]
  exact Int.toNat_of_nonneg (Int.ediv_nonneg hnonneg (by decide))

theorem noWrap_of_succ (hpos : 1 ≤ lv) (h : NoWrap (lv + 1)) : NoWrap lv := by
  have hstep := expPoly_lt (n := lv - 1) (by omega)
  unfold NoWrap at h ⊢
  rw [show ((lv + 1 : ℕ) : ℤ) - 1 = lv - 1 + 1 by omega] at h
  omega

theorem getExpForLevel_lt (hpos : 1 ≤ lv) (h : NoWrap (lv + 1)) :
    getExpForLevel lv < getExpForLevel (lv + 1) := by
  have hlv := getExpForLevel_eq hpos (noWrap_of_succ hpos h)
  have hnext : (getExpForLevel (lv + 1) : ℤ) = expPoly ((lv + 1 : ℕ) - 1) / 3 :=
    getExpForLevel_eq (by omega) h
  have hstep := expPoly_lt (n := lv - 1) (by omega)
  rw [show ((lv + 1 : ℕ) : ℤ) - 1 = lv - 1 + 1 by omega] at hnext
  omega

/-- The last level that does not wrap around has a next one that costs no more. -/
theorem getExpForLevel_last (hpos : 1 ≤ lv) (h : NoWrap lv) (hlast : ¬NoWrap (lv + 1)) :
    getExpForLevel (lv + 1) ≤ getExpForLevel lv := by
  have hlv := getExpForLevel_eq hpos h
  have hstep := expPoly_step (n := lv - 1) (by omega) h
  unfold NoWrap at h hlast
  unfold getExpForLevel at hlv ⊢
  rw [show ((lv + 1 : ℕ) : ℤ) - 1 = lv - 1 + 1 by omega] at hlast ⊢
  omega

theorem getExpForLevel_lt_iff (hpos : 1 ≤ lv) (h : NoWrap lv) :
    getExpForLevel lv < getExpForLevel (lv + 1) ↔ NoWrap (lv + 1) := by
  constructor
  · intro hlt
    by_contra hlast
    exact absurd (getExpForLevel_last hpos h hlast) (Nat.not_le.mpr hlt)
  · exact getExpForLevel_lt hpos

end Levels

/-! ## What the walks do -/

section Walks

variable {v} {start c : Character}

theorem ofInt_add_one_mul (n : ℤ) (gain : BitVec 32) :
    BitVec.ofInt 32 (n + 1) * gain = BitVec.ofInt 32 n * gain + gain := by
  rw [BitVec.ofInt_add, BitVec.add_mul]
  congr 1
  exact BitVec.one_mul gain

theorem balanced_advance (h : Balanced v start c) : Balanced v start (c.advance v) := by
  intro hclamped
  obtain ⟨hhealth, hmana, hcap⟩ := h hclamped
  have hlevel : (((c.advance v).level : ℕ) : ℤ) - start.level = (c.level - start.level) + 1 := by
    simp only [advance]
    omega
  rw [hlevel, ofInt_add_one_mul, ofInt_add_one_mul, ofInt_add_one_mul]
  simp only [advance, hhealth, hmana, hcap, BitVec.add_assoc, and_self]

theorem balanced_retreat (hpos : 1 ≤ c.level) (h : Balanced v start c) :
    Balanced v start (c.retreat v) := by
  intro hclamped
  simp only [retreat, Bool.or_eq_false_iff, decide_eq_false_iff_not] at hclamped
  obtain ⟨⟨⟨hclamped, hhp⟩, hmp⟩, hcp⟩ := hclamped
  have hlevel : (c.level : ℤ) - start.level = ((c.retreat v).level - start.level) + 1 := by
    simp only [retreat]
    omega
  have hbalance := h hclamped
  rw [hlevel, ofInt_add_one_mul, ofInt_add_one_mul, ofInt_add_one_mul] at hbalance
  obtain ⟨hhealth, hmana, hcap⟩ := hbalance
  have hcancel : ∀ a b gain : BitVec 32, a + (b + gain) - gain = a + b := by
    intro a b gain
    rw [← BitVec.add_assoc, BitVec.add_sub_cancel]
  refine ⟨?_, ?_, ?_⟩
  · calc (c.retreat v).healthMax
      _ = c.healthMax - v.gainHP := by simp only [retreat, maxZero, hhp, if_false]
      _ = _ := by rw [hhealth, hcancel]
  · calc (c.retreat v).manaMax
      _ = c.manaMax - v.gainMana := by simp only [retreat, maxZero, hmp, if_false]
      _ = _ := by rw [hmana, hcancel]
  · calc (c.retreat v).capacity
      _ = c.capacity - v.gainCap := by simp only [retreat, maxZero, hcp, if_false]
      _ = _ := by rw [hcap, hcancel]

/-- From a level that the experience has reached, up to the one that it is of. -/
theorem climb_spec (hpos : 1 ≤ c.level) (hwrap : NoWrap c.level)
    (hgrow : getExpForLevel c.level < getExpForLevel (c.level + 1))
    (hlower : getExpForLevel c.level ≤ c.experience) (hbalanced : Balanced v start c) :
    (climb v c).WellFormed ∧ Balanced v start (climb v c) := by
  have hnext := (getExpForLevel_lt_iff hpos hwrap).mp hgrow
  fun_induction climb v c with
  | case1 c nextLevelExp hreached hmax =>
    refine ⟨⟨by simp [advance], hnext, hreached, fun hwrap' => ?_⟩, balanced_advance hbalanced⟩
    have hlt : getExpForLevel (c.level + 1) < getExpForLevel (c.level + 1 + 1) :=
      getExpForLevel_lt (by omega) hwrap'
    exact absurd hlt (Nat.not_lt.mpr hmax)
  | case2 c nextLevelExp hreached hmax ih =>
    have hgrow' := Nat.lt_of_not_le hmax
    exact ih (Nat.le_add_left _ _) hnext hgrow' hreached (balanced_advance hbalanced)
      ((getExpForLevel_lt_iff (Nat.le_add_left _ _) hnext).mp hgrow')
  | case3 c nextLevelExp hreached =>
    exact ⟨⟨hpos, hwrap, hlower, fun _ => Nat.lt_of_not_le hreached⟩, hbalanced⟩

theorem climb_below (h : c.experience < getExpForLevel (c.level + 1)) : climb v c = c := by
  rw [climb]
  exact if_neg (Nat.not_le.mpr h)

/-- From a level whose next one the experience has not reached, down to the one that it is
of. -/
theorem descend_spec (hpos : 1 ≤ c.level) (hwrap : NoWrap c.level)
    (hupper : NoWrap (c.level + 1) → c.experience < getExpForLevel (c.level + 1))
    (hbalanced : Balanced v start c) :
    (descend v c).WellFormed ∧ Balanced v start (descend v c) := by
  fun_induction descend v c with
  | case1 c hdown ih =>
    have hlevel : (c.retreat v).level + 1 = c.level := by
      simp only [retreat]
      omega
    have hpos' : 1 ≤ (c.retreat v).level := by omega
    refine ih hpos' (noWrap_of_succ hpos' (hlevel ▸ hwrap)) (fun _ => ?_)
      (balanced_retreat hpos hbalanced)
    rw [hlevel]
    exact hdown.2
  | case2 c hdown =>
    refine ⟨⟨hpos, hwrap, ?_, hupper⟩, hbalanced⟩
    rcases Nat.lt_or_ge 1 c.level with hlevel | hlevel
    · omega
    · have hone : getExpForLevel c.level = 0 := by
        rw [show c.level = 1 by omega]
        rfl
      omega

theorem descend_above (h : getExpForLevel c.level ≤ c.experience) : descend v c = c := by
  rw [descend]
  exact if_neg fun hdown => absurd hdown.2 (Nat.not_lt.mpr h)

end Walks

/-! ## Every run -/

section Steps

variable {v} {start c : Character}

/-- The level is not the last one, and what is added does not wrap around to less than the
level's own experience; what is taken away does not wrap around to the next one's. -/
def Guarded (v : LevelGains) (c : Character) : Action → Prop
  | .addExperience exp =>
    NoWrap (c.level + 1) → exp ≠ 0 → getExpForLevel c.level ≤ c.gained exp
  | .removeExperience asked exp =>
    NoWrap (c.level + 1) → c.experience ≠ 0 → asked ≠ 0 → exp ≠ 0 →
      c.removed exp < getExpForLevel (c.level + 1)
  | .death expLoss =>
    NoWrap (c.level + 1) → expLoss ≠ 0 → v.vocationId = VOCATION_NONE ∨ 7 < c.level →
      c.lost expLoss < getExpForLevel (c.level + 1)

/-- The level walks down from any experience that has not reached the next level. -/
theorem wellFormed_loss (h : c.WellFormed) (hbalanced : Balanced v start c) {experience : ℕ}
    (hupper : NoWrap (c.level + 1) → experience < getExpForLevel (c.level + 1)) :
    (withPercent (descend v { c with experience })).WellFormed ∧
      Balanced v start (withPercent (descend v { c with experience })) := by
  obtain ⟨hwell, hbalanced'⟩ := descend_spec (v := v) (c := { c with experience }) h.pos h.noWrap
    hupper hbalanced
  exact ⟨⟨hwell.pos, hwell.noWrap, hwell.agrees.lower, hwell.agrees.upper⟩, hbalanced'⟩

theorem not_agrees_loss (h : c.WellFormed) {experience : ℕ} (hnext : NoWrap (c.level + 1))
    (hover : ¬experience < getExpForLevel (c.level + 1)) :
    ¬(withPercent (descend v { c with experience })).Agrees := by
  have hlt := getExpForLevel_lt h.pos hnext
  have hlower : getExpForLevel c.level ≤ experience := by omega
  rw [descend_above (c := { c with experience }) hlower]
  exact fun hagrees => hover (hagrees.upper hnext)

theorem wellFormed_step (c : Character) (a : Action) (c' : Character)
    (h : c.WellFormed ∧ Balanced v start c) (hguard : c.Guarded v a)
    (hstep : step v c a = some c') : c'.WellFormed ∧ Balanced v start c' := by
  obtain ⟨hwell, hbalanced⟩ := h
  cases a with
  | addExperience exp =>
    obtain rfl := Option.some.inj hstep
    unfold addExperience
    split
    · exact ⟨⟨hwell.pos, hwell.noWrap, hwell.agrees.lower, hwell.agrees.upper⟩, hbalanced⟩
    next hmax =>
      have hgrow := Nat.lt_of_not_le hmax
      split
      · exact ⟨hwell, hbalanced⟩
      next hexp =>
        have hnext := (getExpForLevel_lt_iff hwell.pos hwell.noWrap).mp hgrow
        obtain ⟨hwell', hbalanced'⟩ := climb_spec (v := v)
          (c := { c with experience := c.gained exp }) hwell.pos hwell.noWrap hgrow
          (hguard hnext hexp) hbalanced
        exact ⟨⟨hwell'.pos, hwell'.noWrap, hwell'.agrees.lower, hwell'.agrees.upper⟩,
          hbalanced'⟩
  | removeExperience asked exp =>
    obtain rfl := Option.some.inj hstep
    unfold removeExperience
    split
    · exact ⟨hwell, hbalanced⟩
    next hasked =>
      obtain ⟨hexperience, hasked⟩ := not_or.mp hasked
      split
      · exact ⟨hwell, hbalanced⟩
      next hexp =>
        exact wellFormed_loss hwell hbalanced fun hnext => hguard hnext hexperience hasked hexp
  | death expLoss =>
    obtain rfl := Option.some.inj hstep
    unfold death
    split
    · exact ⟨hwell, hbalanced⟩
    next hloss =>
      dsimp only
      split
      next hreduced =>
        exact wellFormed_loss hwell hbalanced fun hnext => hguard hnext hloss hreduced
      next =>
        exact wellFormed_loss hwell hbalanced hwell.agrees.upper

theorem not_agrees_step (c : Character) (a : Action) (c' : Character) (h : c.WellFormed)
    (hguard : ¬c.Guarded v a) (hstep : step v c a = some c') : ¬c'.Agrees := by
  cases a with
  | addExperience exp =>
    obtain rfl := Option.some.inj hstep
    simp only [Guarded, Classical.not_imp] at hguard
    obtain ⟨hnext, hexp, hbelow⟩ := hguard
    have hgrow := getExpForLevel_lt h.pos hnext
    have hlow : c.gained exp < getExpForLevel (c.level + 1) := by omega
    rw [addExperience, if_neg (Nat.not_le.mpr hgrow), if_neg hexp,
      climb_below (c := { c with experience := c.gained exp }) hlow]
    exact fun hagrees => hbelow hagrees.lower
  | removeExperience asked exp =>
    obtain rfl := Option.some.inj hstep
    simp only [Guarded, Classical.not_imp] at hguard
    obtain ⟨hnext, hexperience, hasked, hexp, hover⟩ := hguard
    rw [removeExperience, if_neg (not_or.mpr ⟨hexperience, hasked⟩), if_neg hexp]
    exact not_agrees_loss h hnext hover
  | death expLoss =>
    obtain rfl := Option.some.inj hstep
    simp only [Guarded, Classical.not_imp] at hguard
    obtain ⟨hnext, hloss, hreduced, hover⟩ := hguard
    rw [death, if_neg hloss]
    dsimp only
    rw [if_pos hreduced]
    exact not_agrees_loss h hnext hover

end Steps

/-- In every state that a run of the three calls reaches from a level and its experience, these
agree and the maxima have changed by as many gains as the level, exactly when no call makes
the experience wrap around. -/
theorem always_agrees_iff (v : LevelGains) (start : Character) (hstart : start.WellFormed)
    (as : List Action) :
    Always (step v) (fun c => c.Agrees ∧ Balanced v start c) start as ↔
      EachStep (step v) (Guarded v) start as := by
  refine always_iff_of_breaks (I := fun c => c.WellFormed ∧ Balanced v start c)
    (fun _ h => ⟨h.1.agrees, h.2⟩) (fun c a c' h hguard hstep => ?_)
    (fun c a c' h hguard hstep hagrees => ?_) as start ⟨hstart, fun _ => ?_⟩
  · exact wellFormed_step c a c' h hguard hstep
  · exact not_agrees_step c a c' h.1 hguard hstep hagrees.1
  · simp

/-- A new player who kills something and dies. -/
theorem always_agrees_iff_new :
    Always (step ⟨0, 5, 5, 1000⟩)
      (fun c => c.Agrees ∧ Balanced ⟨0, 5, 5, 1000⟩ ⟨1, 0, 0, 150, 0, 40000, false⟩ c)
      ⟨1, 0, 0, 150, 0, 40000, false⟩ [.addExperience 250, .death 20] ↔
    EachStep (step ⟨0, 5, 5, 1000⟩) (Guarded ⟨0, 5, 5, 1000⟩) ⟨1, 0, 0, 150, 0, 40000, false⟩
      [.addExperience 250, .death 20] :=
  always_agrees_iff _ _ ⟨by decide, by decide, ⟨by decide, fun _ => by decide⟩⟩ _

/-- With a loss of 200 percent, 50 less 100 points are far more than level 2 costs. -/
theorem loss_beyond_zero : ¬∀ (v : LevelGains) (start : Character), start.WellFormed →
    ∀ as : List Action, Always (step v) (fun c => c.Agrees ∧ Balanced v start c) start as := by
  intro h
  have hlast := (h ⟨0, 5, 5, 1000⟩ ⟨1, 50, 50, 150, 0, 40000, false⟩
    ⟨by decide, by decide, ⟨by decide, fun _ => by decide⟩⟩ [.death 100]).last rfl
  have hdeath : death ⟨0, 5, 5, 1000⟩ ⟨1, 50, 50, 150, 0, 40000, false⟩ 100 =
      withPercent ⟨1, 2 ^ 64 - 50, 50, 150, 0, 40000, false⟩ := by
    rw [death, if_neg (by decide)]
    dsimp only
    rw [if_pos (.inl rfl), descend_above (by decide)]
    rfl
  have hupper := hlast.1.upper
  rw [hdeath] at hupper
  exact absurd (hupper (by decide)) (by decide)

end Character

end TibiaServer.Players
