import TibiaServer.Library.SharedTicks
import TibiaServer.World.Position
/-!
# The rates of monster spells

The defense spells of a monster share the counter `defenseTicks`, its attack spells the
counter `attackTicks`.  A counter is set to zero by a call in which no spell is ahead of it.
What a spell does when it is cast is left out; it leaves the counters alone.
-/

namespace TibiaServer.World.MonsterSpells

open Library

/-- `spellBlock_t`. -/
structure SpellBlock where
  chance : ℕ := 100
  speed : ℕ := 2000
  range : ℕ := 0
  isMelee : Bool := false

/-- `summonBlock_t`. -/
structure SummonBlock where
  name : String
  chance : ℕ
  speed : ℕ
  max : ℕ

/-! ## Defense -/

/-- The part of `MonsterType` that `onThinkDefense` reads. -/
structure DefenseInfo where
  defenseSpells : List SpellBlock
  summons : List SummonBlock := []
  maxSummons : ℕ := 0

/-- What one call finds: the numbers of `uniform_random(1, 100)` for the blocks by their
index, and whether a summon can be created and placed. -/
structure Thought where
  spellRoll : ℕ → ℕ
  summonRoll : ℕ → ℕ
  places : ℕ → Bool
  isSummon : Bool
  hasFollowPath : Bool

/-- `summons` are the names of the summons. -/
structure Defender where
  defenseTicks : ℕ := 0
  summons : List String := []

/-- What becomes of a spell in one call. -/
inductive Try
  | skipped
  | missed
  | cast
  deriving DecidableEq

/-- The spell reaches the chance roll. -/
def Try.isTried : Try → Bool
  | .skipped => false
  | .missed | .cast => true

/-- The chance roll. -/
def rollChance (chance roll : ℕ) : Try := if chance ≥ roll then .cast else .missed

/-- The loop over the defense spells from an index on: what becomes of them, and `resetTicks`. -/
def defenseLoop (interval defenseTicks : ℕ) (roll : ℕ → ℕ) :
    List SpellBlock → ℕ → Bool → List Try × Bool
  | [], _, resetTicks => ([], resetTicks)
  | spellBlock :: rest, i, resetTicks =>
    if spellBlock.speed > defenseTicks then
      let (tries, resetTicks) := defenseLoop interval defenseTicks roll rest (i + 1) false
      (.skipped :: tries, resetTicks)
    else
      let (tries, resetTicks) := defenseLoop interval defenseTicks roll rest (i + 1) resetTicks
      -- already used this spell for this round
      if defenseTicks % spellBlock.speed ≥ interval then (.skipped :: tries, resetTicks)
      else (rollChance spellBlock.chance (roll i) :: tries, resetTicks)

/-- The loop over the summon blocks from an index on. -/
def summonLoop (interval maxSummons defenseTicks : ℕ) (thought : Thought) :
    List SummonBlock → ℕ → List String → Bool → List String × Bool
  | [], _, summons, resetTicks => (summons, resetTicks)
  | summonBlock :: rest, i, summons, resetTicks =>
    let loop := summonLoop interval maxSummons defenseTicks thought rest (i + 1)
    if summonBlock.speed > defenseTicks then loop summons false
    else if summons.length ≥ maxSummons then loop summons resetTicks
    else if defenseTicks % summonBlock.speed ≥ interval then loop summons resetTicks
    else if summons.count summonBlock.name ≥ summonBlock.max then loop summons resetTicks
    else if summonBlock.chance < thought.summonRoll i then loop summons resetTicks
    else if thought.places i then loop (summons ++ [summonBlock.name]) resetTicks
    else loop summons resetTicks

def onThinkDefense (info : DefenseInfo) (interval : ℕ) (thought : Thought) (s : Defender) :
    List Try × Defender :=
  let defenseTicks := s.defenseTicks + interval
  let (tries, resetTicks) :=
    defenseLoop interval defenseTicks thought.spellRoll info.defenseSpells 0 true
  let (summons, resetTicks) :=
    if !thought.isSummon && decide (s.summons.length < info.maxSummons) && thought.hasFollowPath then
      summonLoop interval info.maxSummons defenseTicks thought info.summons 0 s.summons resetTicks
    else (s.summons, resetTicks)
  (tries, { defenseTicks := if resetTicks then 0 else defenseTicks, summons := summons })

/-! ## Attack -/

/-- What `canUseSpell` and the chance roll find for one spell of one call. -/
structure Moment where
  time : ℤ
  isFleeing : Bool
  myPos : Position
  targetPos : Position
  roll : ℕ

/-- The spell's range takes in the target. -/
def SpellBlock.inRange (sb : SpellBlock) (m : Moment) : Bool :=
  !(sb.range ≠ 0 && decide (max (m.myPos.getDistanceX m.targetPos)
    (m.myPos.getDistanceY m.targetPos) > sb.range))

/-- `resetTicks` is a variable of `doAttacking`. -/
structure Attacker where
  attackTicks : ℕ := 0
  lastMeleeAttack : ℤ := 0
  extraMeleeAttack : Bool := false
  resetTicks : Bool := false

/-- The answer of `canUseSpell`, and `inRange`. -/
structure Use where
  result : Bool
  inRange : Bool
  attacker : Attacker

def canUseSpell (sb : SpellBlock) (interval : ℕ) (m : Moment) (s : Attacker) : Use :=
  if sb.isMelee && m.isFleeing then ⟨false, true, s⟩
  else if !s.extraMeleeAttack && sb.isMelee && decide (m.time - s.lastMeleeAttack < 1500) then
    ⟨false, true, s⟩
  else
    let s := if s.extraMeleeAttack then { s with lastMeleeAttack := m.time } else s
    if (!sb.isMelee || !s.extraMeleeAttack) && decide (sb.speed > s.attackTicks) then
      ⟨false, true, { s with resetTicks := false }⟩
    else if (!sb.isMelee || !s.extraMeleeAttack) && decide (s.attackTicks % sb.speed ≥ interval) then
      -- already used this spell for this round
      ⟨false, true, s⟩
    else if !sb.inRange m then ⟨false, false, s⟩
    else ⟨true, true, s⟩

/-- The body of the loop over the attack spells. -/
def attackWith (sb : SpellBlock) (interval : ℕ) (m : Moment) (s : Attacker) : Try × Attacker :=
  let use := canUseSpell sb interval m s
  let s := use.attacker
  let outcome := if use.result then rollChance sb.chance m.roll else .skipped
  let s := if outcome = .cast ∧ sb.isMelee then { s with extraMeleeAttack := false } else s
  let s := if !use.inRange && sb.isMelee then { s with extraMeleeAttack := true } else s
  (outcome, s)

def attackLoop (interval : ℕ) (round : ℕ → Moment) :
    List SpellBlock → ℕ → Attacker → List Try × Attacker
  | [], _, s => ([], s)
  | sb :: rest, i, s =>
    let (outcome, s) := attackWith sb interval (round i) s
    let (tries, s) := attackLoop interval round rest (i + 1) s
    (outcome :: tries, s)

/-- A call that finds a creature to attack. -/
def doAttacking (attackSpells : List SpellBlock) (interval : ℕ) (round : ℕ → Moment)
    (s : Attacker) : List Try × Attacker :=
  let s := { s with resetTicks := interval ≠ 0, attackTicks := s.attackTicks + interval }
  let (tries, s) := attackLoop interval round attackSpells 0 s
  (tries, if s.resetTicks then { s with attackTicks := 0 } else s)

/-! ## What one call does -/

/-- The spell is tried at this count of the ticks. -/
def SpellBlock.isDue (sb : SpellBlock) (interval ticks : ℕ) : Bool :=
  decide (sb.speed ≤ ticks) && decide (ticks % sb.speed < interval)

/-- `Try.isTried` of the spell with an index, `false` where there is none. -/
def triedAt (tries : List Try) (i : ℕ) : Bool := (tries[i]?).any Try.isTried

theorem isTried_rollChance (chance roll : ℕ) : (rollChance chance roll).isTried = true := by
  rw [rollChance]
  split_ifs <;> rfl

theorem defenseLoop_resetTicks (interval t : ℕ) (roll : ℕ → ℕ) (spells : List SpellBlock) (i : ℕ)
    (resetTicks : Bool) : (defenseLoop interval t roll spells i resetTicks).2 =
      (resetTicks && spells.all fun sb => decide (sb.speed ≤ t)) := by
  induction spells generalizing i resetTicks with
  | nil => simp [defenseLoop]
  | cons sb rest ih =>
    rw [defenseLoop]
    by_cases hahead : sb.speed > t
    · rw [if_pos hahead]
      simp only [ih, List.all_cons, decide_eq_false (not_le.mpr hahead), Bool.false_and,
        Bool.and_false]
    · rw [if_neg hahead]
      have hreached : decide (sb.speed ≤ t) = true := decide_eq_true (not_lt.mp hahead)
      split_ifs <;> simp only [ih, List.all_cons, hreached, Bool.true_and]

theorem defenseLoop_tried (interval t : ℕ) (roll : ℕ → ℕ) (spells : List SpellBlock) (i : ℕ)
    (resetTicks : Bool) (k : ℕ) :
    triedAt (defenseLoop interval t roll spells i resetTicks).1 k =
      (spells[k]?).any fun sb => sb.isDue interval t := by
  induction spells generalizing i resetTicks k with
  | nil => simp [defenseLoop, triedAt]
  | cons sb rest ih =>
    rw [defenseLoop]
    cases k with
    | zero =>
      split_ifs with hahead hused
      · simp [triedAt, Try.isTried, SpellBlock.isDue, hahead]
      · simp [triedAt, Try.isTried, SpellBlock.isDue, hused]
      · have hdue : sb.isDue interval t = true := by
          rw [SpellBlock.isDue, Bool.and_eq_true]
          exact ⟨decide_eq_true (not_lt.mp hahead), decide_eq_true (not_le.mp hused)⟩
        simp [triedAt, isTried_rollChance, hdue]
    | succ k =>
      have hrest : ∀ r, triedAt (defenseLoop interval t roll rest (i + 1) r).1 k =
          (rest[k]?).any fun sb => sb.isDue interval t := fun r => ih (i + 1) r k
      simp only [triedAt] at hrest
      split_ifs <;> simp [triedAt, hrest]

/-- The speed check of `canUseSpell` is reached and fails. -/
def SpellBlock.isAhead (sb : SpellBlock) (m : Moment) (s : Attacker) : Bool :=
  !(sb.isMelee && m.isFleeing) &&
    !(!s.extraMeleeAttack && sb.isMelee && decide (m.time - s.lastMeleeAttack < 1500)) &&
    (!sb.isMelee || !s.extraMeleeAttack) && decide (sb.speed > s.attackTicks)

theorem attackWith_attackTicks (sb : SpellBlock) (interval : ℕ) (m : Moment) (s : Attacker) :
    (attackWith sb interval m s).2.attackTicks = s.attackTicks := by
  have huse : (canUseSpell sb interval m s).attacker.attackTicks = s.attackTicks := by
    simp only [canUseSpell]
    split_ifs <;> rfl
  simp only [attackWith]
  split_ifs <;> exact huse

theorem attackWith_resetTicks (sb : SpellBlock) (interval : ℕ) (m : Moment) (s : Attacker) :
    (attackWith sb interval m s).2.resetTicks = (s.resetTicks && !sb.isAhead m s) := by
  have huse : (canUseSpell sb interval m s).attacker.resetTicks =
      (s.resetTicks && !sb.isAhead m s) := by
    simp only [canUseSpell, SpellBlock.isAhead]
    cases hmelee : sb.isMelee <;> split_ifs <;> simp_all
  simp only [attackWith]
  split_ifs <;> exact huse

/-- Out of melee a spell in range is tried exactly when it is due. -/
theorem attackWith_tried {sb : SpellBlock} {m : Moment} (hmelee : sb.isMelee = false)
    (hrange : sb.inRange m = true) (interval : ℕ) (s : Attacker) :
    (attackWith sb interval m s).1.isTried = sb.isDue interval s.attackTicks := by
  have huse : (canUseSpell sb interval m s).result = sb.isDue interval s.attackTicks := by
    simp only [canUseSpell, SpellBlock.isDue]
    split_ifs <;> simp_all
  simp only [attackWith, huse]
  split_ifs with hdue
  · rw [hdue, isTried_rollChance]
  · rw [Bool.eq_false_iff.mpr hdue, Try.isTried]

/-- No spell of the loop is ahead in the state in which the loop reaches it. -/
def noneAhead (interval : ℕ) (round : ℕ → Moment) : List SpellBlock → ℕ → Attacker → Bool
  | [], _, _ => true
  | sb :: rest, i, s =>
    !sb.isAhead (round i) s &&
      noneAhead interval round rest (i + 1) (attackWith sb interval (round i) s).2

theorem attackLoop_attackTicks (interval : ℕ) (round : ℕ → Moment) (spells : List SpellBlock)
    (i : ℕ) (s : Attacker) :
    (attackLoop interval round spells i s).2.attackTicks = s.attackTicks := by
  induction spells generalizing i s with
  | nil => rfl
  | cons sb rest ih => rw [attackLoop, ih, attackWith_attackTicks]

theorem attackLoop_resetTicks (interval : ℕ) (round : ℕ → Moment) (spells : List SpellBlock)
    (i : ℕ) (s : Attacker) : (attackLoop interval round spells i s).2.resetTicks =
      (s.resetTicks && noneAhead interval round spells i s) := by
  induction spells generalizing i s with
  | nil => simp [attackLoop, noneAhead]
  | cons sb rest ih => rw [attackLoop, ih, attackWith_resetTicks, noneAhead, Bool.and_assoc]

theorem attackLoop_tried (interval : ℕ) (round : ℕ → Moment) (spells : List SpellBlock)
    (i : ℕ) (s : Attacker) (k : ℕ) (hk : k < spells.length)
    (hmelee : spells[k].isMelee = false) (hrange : spells[k].inRange (round (i + k)) = true) :
    triedAt (attackLoop interval round spells i s).1 k =
      spells[k].isDue interval s.attackTicks := by
  induction spells generalizing i s k with
  | nil => exact absurd hk (Nat.not_lt_zero k)
  | cons sb rest ih =>
    rw [attackLoop]
    cases k with
    | zero => simpa [triedAt] using attackWith_tried hmelee hrange interval s
    | succ k =>
      have hk' : k < rest.length := Nat.lt_of_succ_lt_succ hk
      have hnext : rest[k].inRange (round (i + 1 + k)) = true := by
        rw [Nat.add_right_comm i 1 k]
        exact hrange
      have hrest := ih (i + 1) (attackWith sb interval (round i) s).2 k hk' hmelee hnext
      rw [attackWith_attackTicks] at hrest
      simpa [triedAt] using hrest

/-- A spell out of melee that the ticks have not reached is ahead of the loop. -/
theorem reached_of_noneAhead {interval : ℕ} {round : ℕ → Moment} {spells : List SpellBlock} {i : ℕ}
    {s : Attacker} (h : noneAhead interval round spells i s = true) {sb : SpellBlock}
    (hsb : sb ∈ spells) (hmelee : sb.isMelee = false) : sb.speed ≤ s.attackTicks := by
  induction spells generalizing i s with
  | nil => exact absurd hsb List.not_mem_nil
  | cons first rest ih =>
    rw [noneAhead, Bool.and_eq_true] at h
    rcases List.mem_cons.mp hsb with rfl | hrest
    · have hfirst := h.1
      simp only [SpellBlock.isAhead, hmelee] at hfirst
      simpa using hfirst
    · have hreached := ih h.2 hrest
      rwa [attackWith_attackTicks] at hreached

theorem noneAhead_of_reached {interval : ℕ} {round : ℕ → Moment} {spells : List SpellBlock} {i : ℕ}
    {s : Attacker} (h : ∀ sb ∈ spells, sb.speed ≤ s.attackTicks) :
    noneAhead interval round spells i s = true := by
  induction spells generalizing i s with
  | nil => rfl
  | cons first rest ih =>
    rw [noneAhead, Bool.and_eq_true]
    constructor
    · have hfirst := h first List.mem_cons_self
      simp [SpellBlock.isAhead, hfirst]
    · apply ih
      intro sb hsb
      rw [attackWith_attackTicks]
      exact h sb (List.mem_cons_of_mem first hsb)

/-! ## The largest speed -/

def largestSpeed (spells : List SpellBlock) : ℕ := (spells.map SpellBlock.speed).foldr max 0

theorem largestSpeed_le_iff (spells : List SpellBlock) (t : ℕ) :
    largestSpeed spells ≤ t ↔ ∀ sb ∈ spells, sb.speed ≤ t := by
  induction spells with
  | nil => simp [largestSpeed]
  | cons sb rest ih =>
    rw [List.forall_mem_cons, ← ih]
    exact max_le_iff

theorem dvd_largestSpeed {d : ℕ} {spells : List SpellBlock} (h : ∀ sb ∈ spells, d ∣ sb.speed) :
    d ∣ largestSpeed spells := by
  induction spells with
  | nil => exact dvd_zero d
  | cons sb rest ih =>
    rw [List.forall_mem_cons] at h
    change d ∣ max sb.speed (largestSpeed rest)
    rcases max_choice sb.speed (largestSpeed rest) with hmax | hmax
    · rw [hmax]
      exact h.1
    · rw [hmax]
      exact ih h.2

theorem speed_le_largestSpeed {spells : List SpellBlock} {sb : SpellBlock} (h : sb ∈ spells) :
    sb.speed ≤ largestSpeed spells :=
  (largestSpeed_le_iff spells _).mp le_rfl sb h

/-! ## Runs -/

section Defense

variable (info : DefenseInfo) (thoughts : ℕ → Thought) (names : List String)

/-- The monster, with the summons it has at first, after `n` calls. -/
def defenseRun : ℕ → Defender
  | 0 => ⟨0, names⟩
  | n + 1 => (onThinkDefense info 1000 (thoughts n) (defenseRun n)).2

/-- How often the spell with an index is tried in the first `n` calls. -/
def defenseTried (i n : ℕ) : ℕ :=
  (List.range n).countP fun k =>
    triedAt (onThinkDefense info 1000 (thoughts k) (defenseRun info thoughts names k)).1 i

/-- All spells are reached in call `n`. -/
def DefenseResets (n : ℕ) : Prop :=
  largestSpeed info.defenseSpells ≤ (defenseRun info thoughts names n).defenseTicks + 1000

instance : DecidablePred (DefenseResets info thoughts names) := fun n =>
  inferInstanceAs (Decidable (_ ≤ (defenseRun info thoughts names n).defenseTicks + 1000))

variable {info}

/-- Without summon blocks the ticks are set to zero when all spells are reached. -/
theorem onThinkDefense_defenseTicks (hnone : info.summons = []) (interval : ℕ) (thought : Thought)
    (s : Defender) : (onThinkDefense info interval thought s).2.defenseTicks =
      if largestSpeed info.defenseSpells ≤ s.defenseTicks + interval then 0
      else s.defenseTicks + interval := by
  have hall : (info.defenseSpells.all fun sb => decide (sb.speed ≤ s.defenseTicks + interval)) =
      decide (largestSpeed info.defenseSpells ≤ s.defenseTicks + interval) := by
    rw [Bool.eq_iff_iff, List.all_eq_true, decide_eq_true_eq, largestSpeed_le_iff]
    simp only [decide_eq_true_eq]
  simp only [onThinkDefense, hnone, summonLoop, ite_self, defenseLoop_resetTicks, Bool.true_and,
    hall, decide_eq_true_eq]

theorem before_defenseResets (hnone : info.summons = []) (n : ℕ) :
    SharedTicks.before 1000 (DefenseResets info thoughts names) n =
      (defenseRun info thoughts names n).defenseTicks := by
  induction n with
  | zero => rfl
  | succ n ih =>
    rw [SharedTicks.before, ih, defenseRun, onThinkDefense_defenseTicks hnone]
    rfl

theorem defenseTried_eq_times (hnone : info.summons = []) (i : ℕ)
    (hi : i < info.defenseSpells.length) (n : ℕ) : defenseTried info thoughts names i n =
      SharedTicks.times 1000 (DefenseResets info thoughts names) info.defenseSpells[i].speed n := by
  apply List.countP_congr
  intro k _
  simp only [onThinkDefense, defenseLoop_tried, List.getElem?_eq_getElem hi, Option.any_some,
    SpellBlock.isDue, SharedTicks.Due, SharedTicks.ticks, before_defenseResets thoughts names hnone,
    Bool.and_eq_true, decide_eq_true_eq]

theorem defenseResets_iff (hnone : info.summons = []) (n : ℕ) :
    DefenseResets info thoughts names n ↔ largestSpeed info.defenseSpells ≤
      SharedTicks.ticks 1000 (DefenseResets info thoughts names) n := by
  rw [SharedTicks.ticks, before_defenseResets thoughts names hnone]
  rfl

end Defense

section Attack

variable (spells : List SpellBlock) (rounds : ℕ → ℕ → Moment) (start : Attacker)

/-- The monster after `n` calls.  `rounds n` is what call `n` finds for the spells by index. -/
def attackRun : ℕ → Attacker
  | 0 => { start with attackTicks := 0 }
  | n + 1 => (doAttacking spells 1000 (rounds n) (attackRun n)).2

/-- How often the spell with an index is tried in the first `n` calls. -/
def attackTried (i n : ℕ) : ℕ :=
  (List.range n).countP fun k =>
    triedAt (doAttacking spells 1000 (rounds k) (attackRun spells rounds start k)).1 i

/-- The state in which call `n` begins its loop. -/
def called (n : ℕ) : Attacker :=
  { attackRun spells rounds start n with
    resetTicks := true, attackTicks := (attackRun spells rounds start n).attackTicks + 1000 }

/-- No spell is ahead of call `n`. -/
def AttackResets (n : ℕ) : Prop :=
  noneAhead 1000 (rounds n) spells 0 (called spells rounds start n) = true

instance : DecidablePred (AttackResets spells rounds start) := fun n =>
  inferInstanceAs (Decidable (noneAhead 1000 (rounds n) spells 0 _ = true))

theorem before_attackResets (n : ℕ) :
    SharedTicks.before 1000 (AttackResets spells rounds start) n =
      (attackRun spells rounds start n).attackTicks := by
  induction n with
  | zero => rfl
  | succ n ih =>
    have hreset := attackLoop_resetTicks 1000 (rounds n) spells 0 (called spells rounds start n)
    have hticks := attackLoop_attackTicks 1000 (rounds n) spells 0 (called spells rounds start n)
    rw [show (called spells rounds start n).resetTicks = true from rfl, Bool.true_and] at hreset
    rw [SharedTicks.before, ih, attackRun, doAttacking]
    change _ = (ite ((attackLoop 1000 (rounds n) spells 0
      (called spells rounds start n)).2.resetTicks = true) _ _ : Attacker).attackTicks
    rw [hreset]
    by_cases h : AttackResets spells rounds start n
    · rw [if_pos h, if_pos (show noneAhead _ _ _ _ _ = true from h)]
    · rw [if_neg h, if_neg (show ¬noneAhead _ _ _ _ _ = true from h)]
      exact hticks.symm

variable {spells rounds}

theorem attackTried_eq_times {i : ℕ} (hi : i < spells.length) (hmelee : spells[i].isMelee = false)
    (hrange : ∀ n, spells[i].inRange (rounds n i) = true) (n : ℕ) :
    attackTried spells rounds start i n =
      SharedTicks.times 1000 (AttackResets spells rounds start) spells[i].speed n := by
  apply List.countP_congr
  intro k _
  have hloop := attackLoop_tried 1000 (rounds k) spells 0 (called spells rounds start k) i hi hmelee
    (by rw [Nat.zero_add]; exact hrange k)
  have hcall : triedAt (doAttacking spells 1000 (rounds k) (attackRun spells rounds start k)).1 i =
      spells[i].isDue 1000 (called spells rounds start k).attackTicks := hloop
  rw [hcall, decide_eq_true_eq, SpellBlock.isDue, Bool.and_eq_true, decide_eq_true_eq,
    decide_eq_true_eq, SharedTicks.Due, SharedTicks.ticks, before_attackResets]
  rfl

/-- Where a spell out of melee has the largest speed, it alone decides. -/
theorem attackResets_iff
    (h : ∃ sb ∈ spells, sb.isMelee = false ∧ sb.speed = largestSpeed spells) (n : ℕ) :
    AttackResets spells rounds start n ↔
      largestSpeed spells ≤ SharedTicks.ticks 1000 (AttackResets spells rounds start) n := by
  rw [SharedTicks.ticks, before_attackResets]
  constructor
  · intro hreset
    obtain ⟨sb, hsb, hmelee, hspeed⟩ := h
    rw [← hspeed]
    exact reached_of_noneAhead hreset hsb hmelee
  · intro hreached
    apply noneAhead_of_reached
    exact (largestSpeed_le_iff spells _).mp hreached

end Attack

/-! ## The rates -/

section Rates

variable {spells : List SpellBlock} (hspeeds : ∀ sb ∈ spells, ∃ k, 0 < k ∧ sb.speed = 1000 * k)
include hspeeds

theorem largestSpeed_pos {sb : SpellBlock} (h : sb ∈ spells) : 0 < largestSpeed spells := by
  obtain ⟨k, hk, hspeed⟩ := hspeeds sb h
  have hle := speed_le_largestSpeed h
  omega

theorem thousand_dvd_largestSpeed : 1000 ∣ largestSpeed spells := by
  apply dvd_largestSpeed
  intro sb hsb
  obtain ⟨k, -, hspeed⟩ := hspeeds sb hsb
  exact ⟨k, hspeed⟩

/-- A defense spell keeps its rate exactly if its speed divides the largest one.  An attack
spell does exactly if no call without a spell ahead comes between multiples of its speed. -/
theorem spell_rate_iff {i : ℕ} (hi : i < spells.length) :
    (∀ (maxSummons : ℕ) (thoughts : ℕ → Thought) (names : List String),
      (∀ n, defenseTried ⟨spells, [], maxSummons⟩ thoughts names i n =
        n * 1000 / spells[i].speed) ↔ spells[i].speed ∣ largestSpeed spells) ∧
    ∀ (rounds : ℕ → ℕ → Moment) (start : Attacker), spells[i].isMelee = false →
      (∀ n, spells[i].inRange (rounds n i) = true) →
      ((∀ n, attackTried spells rounds start i n = n * 1000 / spells[i].speed) ↔
        ∀ n, AttackResets spells rounds start n →
          spells[i].speed ∣ (attackRun spells rounds start n).attackTicks + 1000) ∧
      ((∃ sb ∈ spells, sb.isMelee = false ∧ sb.speed = largestSpeed spells) →
        ((∀ n, attackTried spells rounds start i n = n * 1000 / spells[i].speed) ↔
          spells[i].speed ∣ largestSpeed spells)) := by
  have hmem : spells[i] ∈ spells := List.getElem_mem hi
  have hpos := largestSpeed_pos hspeeds hmem
  have hlimit := thousand_dvd_largestSpeed hspeeds
  obtain ⟨k, hk, hspeed⟩ := hspeeds spells[i] hmem
  have hd : 0 < 1000 := by decide
  constructor
  · intro maxSummons thoughts names
    let info : DefenseInfo := ⟨spells, [], maxSummons⟩
    have hcount := defenseTried_eq_times thoughts names (rfl : info.summons = []) i hi
    have hlaw := SharedTicks.times_eq_iff (DefenseResets info thoughts names) hd hk
    have hreset := SharedTicks.multiples_iff_dvd (DefenseResets info thoughts names) hd hpos hlimit
      (defenseResets_iff thoughts names rfl) spells[i].speed
    rw [← hspeed] at hlaw
    rw [← hreset, ← hlaw]
    exact forall_congr' fun n => by rw [← hcount]
  · intro rounds start hmelee hrange
    have hcount := attackTried_eq_times start hi hmelee hrange
    have hlaw := SharedTicks.times_eq_iff (AttackResets spells rounds start) hd hk
    rw [← hspeed] at hlaw
    constructor
    · simp only [hcount, hlaw, SharedTicks.ticks, before_attackResets]
    · intro hlargest
      have hreset := SharedTicks.multiples_iff_dvd (AttackResets spells rounds start) hd hpos hlimit
        (attackResets_iff start hlargest) spells[i].speed
      rw [← hreset]
      simp only [hcount, hlaw]

end Rates

/-- A call in which nothing hinders the spells and every roll is the lowest. -/
def calm : Thought := ⟨fun _ => 1, fun _ => 1, fun _ => false, false, false⟩

/-- A target on the next square. -/
def nextTo : Moment := ⟨0, false, ⟨100, 100, 7⟩, ⟨101, 100, 7⟩, 1⟩

theorem spell_rate_of_two_and_four :
    (∀ n, defenseTried ⟨[{ speed := 2000 }, { speed := 4000 }], [], 0⟩ (fun _ => calm) [] 0 n =
      n * 1000 / 2000) ∧
    ∀ n, attackTried [{ speed := 2000 }, { speed := 4000 }] (fun _ _ => nextTo) {} 0 n =
      n * 1000 / 2000 := by
  have hspeeds : ∀ sb ∈ ([{ speed := 2000 }, { speed := 4000 }] : List SpellBlock),
      ∃ k, 0 < k ∧ sb.speed = 1000 * k := by
    rw [List.forall_mem_cons, List.forall_mem_singleton]
    exact ⟨⟨2, by decide⟩, ⟨4, by decide⟩⟩
  have hrate := spell_rate_iff hspeeds (i := 0) (by decide)
  have hlargest : ∃ sb ∈ ([{ speed := 2000 }, { speed := 4000 }] : List SpellBlock),
      sb.isMelee = false ∧ sb.speed = largestSpeed [{ speed := 2000 }, { speed := 4000 }] :=
    ⟨{ speed := 4000 }, by simp, rfl, by decide⟩
  constructor
  · exact (hrate.1 0 (fun _ => calm) []).mpr (by decide)
  · exact ((hrate.2 (fun _ _ => nextTo) {} rfl fun _ => by decide).2 hlargest).mpr (by decide)

/-- With speeds of two and three seconds the first is tried once in four calls, not twice. -/
theorem two_of_three_off_rate :
    defenseTried ⟨[{ speed := 2000 }, { speed := 3000 }], [], 0⟩ (fun _ => calm) [] 0 4 ≠
      4 * 1000 / 2000 ∧
    attackTried [{ speed := 2000 }, { speed := 3000 }] (fun _ _ => nextTo) {} 0 4 ≠
      4 * 1000 / 2000 := by
  decide

end TibiaServer.World.MonsterSpells
