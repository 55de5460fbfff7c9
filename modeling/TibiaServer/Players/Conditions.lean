import Mathlib.Algebra.BigOperators.Group.List.Basic
import Mathlib.Data.BitVec
/-!
# Conditions that change skills and stats

A `ConditionAttributes` adds its skills and stats to those of a player when it starts and
takes them away when it ends.  A percentage is turned into a skill or stat at the start,
with an arithmetic in floating point that is left open here (`percent`).
-/

namespace TibiaServer.Players

abbrev int32_t := BitVec 32

inductive skills_t
  | SKILL_FIST
  | SKILL_CLUB
  | SKILL_SWORD
  | SKILL_AXE
  | SKILL_DISTANCE
  | SKILL_SHIELD
  | SKILL_FISHING
  deriving DecidableEq

/-- `for (i = SKILL_FIRST; i <= SKILL_LAST; ++i)` -/
def skills_t.all : List skills_t :=
  [.SKILL_FIST, .SKILL_CLUB, .SKILL_SWORD, .SKILL_AXE, .SKILL_DISTANCE, .SKILL_SHIELD,
    .SKILL_FISHING]

inductive stats_t
  | STAT_MAXHITPOINTS
  | STAT_MAXMANAPOINTS
  | STAT_SOULPOINTS
  | STAT_MAGICPOINTS
  deriving DecidableEq

/-- `for (i = STAT_FIRST; i <= STAT_LAST; ++i)` -/
def stats_t.all : List stats_t :=
  [.STAT_MAXHITPOINTS, .STAT_MAXMANAPOINTS, .STAT_SOULPOINTS, .STAT_MAGICPOINTS]

inductive ConditionType_t
  | CONDITION_NONE
  | CONDITION_POISON
  | CONDITION_FIRE
  | CONDITION_ENERGY
  | CONDITION_BLEEDING
  | CONDITION_HASTE
  | CONDITION_PARALYZE
  | CONDITION_OUTFIT
  | CONDITION_INVISIBLE
  | CONDITION_LIGHT
  | CONDITION_MANASHIELD
  | CONDITION_INFIGHT
  | CONDITION_DRUNK
  | CONDITION_EXHAUST_WEAPON
  | CONDITION_REGENERATION
  | CONDITION_SOUL
  | CONDITION_DROWN
  | CONDITION_MUTED
  | CONDITION_CHANNELMUTEDTICKS
  | CONDITION_YELLTICKS
  | CONDITION_ATTRIBUTES
  | CONDITION_FREEZING
  | CONDITION_DAZZLED
  | CONDITION_CURSED
  | CONDITION_EXHAUST_COMBAT
  | CONDITION_EXHAUST_HEAL
  | CONDITION_PACIFIED
  deriving DecidableEq

/-! ## Players -/

/-- What conditions read of a player and change of him. -/
structure ConditionedPlayer where
  skillLevel : skills_t → ℕ := fun _ => 10
  healthMax : int32_t := 150
  manaMax : int32_t := 0
  magLevel : int32_t := 0
  health : ℤ := 150
  mana : ℤ := 0
  varSkills : skills_t → int32_t := fun _ => 0
  varStats : stats_t → int32_t := fun _ => 0

namespace ConditionedPlayer

variable (player : ConditionedPlayer)

def getMaxHealth : ℤ := max 1 (player.healthMax + player.varStats .STAT_MAXHITPOINTS).toInt

def getMaxMana : ℤ := max 0 (player.manaMax + player.varStats .STAT_MAXMANAPOINTS).toInt

def getMagicLevel : ℤ := max 0 (player.magLevel + player.varStats .STAT_MAGICPOINTS).toInt

def getBaseSkill (skill : skills_t) : ℤ := player.skillLevel skill

/-- `Creature::changeHealth` -/
def changeHealth (healthChange : ℤ) : ConditionedPlayer :=
  { player with
    health :=
      if healthChange > 0 then player.health + min healthChange (player.getMaxHealth - player.health)
      else max 0 (player.health + healthChange) }

/-- `Creature::changeMana` -/
def changeMana (manaChange : ℤ) : ConditionedPlayer :=
  { player with
    mana :=
      if manaChange > 0 then player.mana + min manaChange (player.getMaxMana - player.mana)
      else max 0 (player.mana + manaChange) }

def setVarSkill (skill : skills_t) (modifier : int32_t) : ConditionedPlayer :=
  { player with
    varSkills := Function.update player.varSkills skill (player.varSkills skill + modifier) }

def setVarStats (stat : stats_t) (modifier : int32_t) : ConditionedPlayer :=
  let player :=
    { player with
      varStats := Function.update player.varStats stat (player.varStats stat + modifier) }
  match stat with
  | .STAT_MAXHITPOINTS =>
    if player.health > player.getMaxHealth then
      player.changeHealth (player.getMaxHealth - player.health)
    else player
  | .STAT_MAXMANAPOINTS =>
    if player.mana > player.getMaxMana then
      player.changeMana (player.getMaxMana - player.mana)
    else player
  | _ => player

end ConditionedPlayer

/-! ## `ConditionAttributes` -/

structure ConditionAttributes where
  id : ℤ := -1
  conditionType : ConditionType_t := .CONDITION_ATTRIBUTES
  subId : ℕ := 0
  ticks : ℤ
  endTime : ℤ := if ticks = -1 then 9223372036854775807 else 0
  skills : skills_t → int32_t := fun _ => 0
  skillsPercent : skills_t → int32_t := fun _ => 0
  stats : stats_t → int32_t := fun _ => 0
  statsPercent : stats_t → int32_t := fun _ => 0

namespace ConditionAttributes

variable (percent : ℤ → int32_t → int32_t) (condition : ConditionAttributes)
  (player : ConditionedPlayer) (now : ℤ)

def setTicks (newTicks : ℤ) : ConditionAttributes :=
  { condition with ticks := newTicks, endTime := newTicks + now }

/-- `Condition::updateCondition` -/
def updateCondition (addCondition : ConditionAttributes) : Bool :=
  if condition.conditionType ≠ addCondition.conditionType then false
  else if condition.ticks = -1 ∧ addCondition.ticks > 0 then false
  else if addCondition.ticks ≥ 0 ∧ condition.endTime > now + addCondition.ticks then false
  else true

def updatePercentStats : ConditionAttributes :=
  { condition with
    stats := fun i =>
      if condition.statsPercent i = 0 then condition.stats i
      else
        match i with
        | .STAT_MAXHITPOINTS => percent player.getMaxHealth (condition.statsPercent i)
        | .STAT_MAXMANAPOINTS => percent player.getMaxMana (condition.statsPercent i)
        | .STAT_SOULPOINTS => condition.stats i
        | .STAT_MAGICPOINTS => percent player.getMagicLevel (condition.statsPercent i) }

def updateStats : ConditionedPlayer :=
  stats_t.all.foldl (fun player i =>
    if condition.stats i ≠ 0 then player.setVarStats i (condition.stats i) else player) player

def updatePercentSkills : ConditionAttributes :=
  { condition with
    skills := fun i =>
      if condition.skillsPercent i = 0 then condition.skills i
      else percent (player.getBaseSkill i) (condition.skillsPercent i) }

def updateSkills : ConditionedPlayer :=
  skills_t.all.foldl (fun player i =>
    if condition.skills i ≠ 0 then player.setVarSkill i (condition.skills i) else player) player

/-- The skills, then the stats: percentages first, then what they come to. -/
def apply : ConditionAttributes × ConditionedPlayer :=
  let condition := condition.updatePercentSkills percent player
  let player := condition.updateSkills player
  let condition := condition.updatePercentStats percent player
  (condition, condition.updateStats player)

def startCondition : ConditionAttributes × ConditionedPlayer :=
  let condition :=
    if condition.ticks > 0 then { condition with endTime := condition.ticks + now } else condition
  condition.apply percent player

def endCondition : ConditionedPlayer :=
  let player := skills_t.all.foldl (fun player i =>
    if condition.skills i ≠ 0 ∨ condition.skillsPercent i ≠ 0 then
      player.setVarSkill i (-condition.skills i)
    else player) player
  stats_t.all.foldl (fun player i =>
    if condition.stats i ≠ 0 then player.setVarStats i (-condition.stats i) else player) player

/-- The condition is added again, as `addCondition`. -/
def addCondition (addCondition : ConditionAttributes) : ConditionAttributes × ConditionedPlayer :=
  if condition.updateCondition now addCondition then
    let condition := condition.setTicks now addCondition.ticks
    let player := condition.endCondition player
    let condition :=
      { condition with
        skills := addCondition.skills, skillsPercent := addCondition.skillsPercent
        stats := addCondition.stats, statsPercent := addCondition.statsPercent }
    condition.apply percent player
  else (condition, player)

/-- Whether the condition goes on. -/
def executeCondition (interval : ℤ) : Bool × ConditionAttributes :=
  if condition.ticks = -1 then (true, condition)
  else (condition.endTime ≥ now, { condition with ticks := max 0 (condition.ticks - interval) })

end ConditionAttributes

/-! ## `Creature` -/

structure Conditioned where
  player : ConditionedPlayer := {}
  conditions : List ConditionAttributes := []

namespace Conditioned

variable (percent : ℤ → int32_t → int32_t) (creature : Conditioned) (now : ℤ)

def hasCondition (isSuppress : Bool) (type : ConditionType_t) (subId : ℕ) : Bool :=
  !isSuppress && creature.conditions.any fun condition =>
    condition.conditionType = type && condition.subId = subId && condition.endTime ≥ now

/-- The condition that `getCondition` finds takes the other in; none where there is none. -/
def addToPrev (player : ConditionedPlayer) (condition : ConditionAttributes) :
    List ConditionAttributes → Option (List ConditionAttributes × ConditionedPlayer)
  | [] => none
  | prevCond :: rest =>
    if prevCond.conditionType = condition.conditionType ∧ prevCond.id = condition.id ∧
        prevCond.subId = condition.subId then
      let (prevCond, player) := prevCond.addCondition percent player now condition
      some (prevCond :: rest, player)
    else (addToPrev player condition rest).map fun (rest, player) => (prevCond :: rest, player)

/-- `Creature::addCondition` -/
def addCondition (condition : ConditionAttributes) (force isSuppress : Bool) (walkDelay : ℤ) :
    Conditioned :=
  -- the scheduler adds the condition later, with force
  if !force ∧ condition.conditionType = .CONDITION_HASTE ∧
      creature.hasCondition now isSuppress .CONDITION_PARALYZE 0 ∧ walkDelay > 0 then creature
  else
    match addToPrev percent now creature.player condition creature.conditions with
    | some (conditions, player) => { player := player, conditions := conditions }
    | none =>
      let (condition, player) := condition.startCondition percent creature.player now
      { player := player, conditions := creature.conditions ++ [condition] }

/-- The loops of `Creature::removeCondition`; a paralysis may stop them. -/
def removeLoop (removes : ConditionAttributes → Bool) (stops : Bool) (player : ConditionedPlayer) :
    List ConditionAttributes → List ConditionAttributes × ConditionedPlayer
  | [] => ([], player)
  | condition :: rest =>
    if !removes condition then
      let (rest, player) := removeLoop removes stops player rest
      (condition :: rest, player)
    else if stops ∧ condition.conditionType = .CONDITION_PARALYZE then (condition :: rest, player)
    else removeLoop removes stops (condition.endCondition player) rest

/-- `Creature::removeCondition` of a type, with an id or without one -/
def removeCondition (type : ConditionType_t) (id : Option ℤ) (force : Bool) (walkDelay : ℤ) :
    Conditioned :=
  let (conditions, player) := removeLoop
    (fun condition => condition.conditionType = type && id.all fun id => condition.id = id)
    (!force && walkDelay > 0) creature.player creature.conditions
  { player := player, conditions := conditions }

/-- `Creature::removeCondition` of one condition, here the one at `index` -/
def removeConditionAt (index : ℕ) (force : Bool) (walkDelay : ℤ) : Conditioned :=
  match creature.conditions[index]? with
  | none => creature
  | some condition =>
    if !force ∧ condition.conditionType = .CONDITION_PARALYZE ∧ walkDelay > 0 then creature
    else
      { player := condition.endCondition creature.player
        conditions := creature.conditions.eraseIdx index }

def executeLoop (interval : ℤ) (player : ConditionedPlayer) :
    List ConditionAttributes → List ConditionAttributes × ConditionedPlayer
  | [] => ([], player)
  | condition :: rest =>
    let (goesOn, condition) := condition.executeCondition now interval
    if goesOn then
      let (rest, player) := executeLoop interval player rest
      (condition :: rest, player)
    else executeLoop interval (condition.endCondition player) rest

def executeConditions (interval : ℤ) : Conditioned :=
  let (conditions, player) := executeLoop now interval creature.player creature.conditions
  { player := player, conditions := conditions }

end Conditioned

/-- Calls with what they find: the time, whether the scheduler has to wait for a step. -/
inductive ConditionCall
  | addCondition (condition : ConditionAttributes) (force isSuppress : Bool) (walkDelay now : ℤ)
  | removeCondition (type : ConditionType_t) (id : Option ℤ) (force : Bool) (walkDelay : ℤ)
  | removeConditionAt (index : ℕ) (force : Bool) (walkDelay : ℤ)
  | executeConditions (interval now : ℤ)
  /-- The player's own skills, stats, health and mana change for other reasons. -/
  | advance (skillLevel : skills_t → ℕ) (healthMax manaMax magLevel : int32_t) (health mana : ℤ)

def ConditionCall.step (percent : ℤ → int32_t → int32_t) (creature : Conditioned) :
    ConditionCall → Option Conditioned
  | .addCondition condition force isSuppress walkDelay now =>
    some (creature.addCondition percent now condition force isSuppress walkDelay)
  | .removeCondition type id force walkDelay =>
    some (creature.removeCondition type id force walkDelay)
  | .removeConditionAt index force walkDelay =>
    some (creature.removeConditionAt index force walkDelay)
  | .executeConditions interval now => some (creature.executeConditions now interval)
  | .advance skillLevel healthMax manaMax magLevel health mana =>
    some
      { creature with
        player := { creature.player with
          skillLevel := skillLevel, healthMax := healthMax, manaMax := manaMax
          magLevel := magLevel, health := health, mana := mana } }

end TibiaServer.Players
