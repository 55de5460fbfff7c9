import TibiaServer.Conditions.Condition
/-!
# Conditions of a creature over time

How a condition starts, takes another one in and is executed, and the list of conditions of a
creature.  What a condition does to its creature is left out, but for the damage that a
damage condition deals, which is written down.
-/

namespace TibiaServer.Conditions

open Players

/-- What a condition asks of the clock, of chance, of floating point arithmetic and of its
creature. -/
structure Env where
  now : ℤ
  /-- a draw from the numbers between two -/
  uniformRand : int32_t → int32_t → int32_t
  /-- `ConditionDamage::generateDamageList` -/
  generateDamageList : int32_t → int32_t → List int32_t
  /-- `ConditionSpeed::getFormulaValues` of the creature's base speed -/
  getFormulaValues : Speed → int32_t × int32_t
  /-- `updatePercentSkills` and `updatePercentStats`, when the creature is a player -/
  updatePercent : Attributes → Attributes
  /-- whether `ConditionDamage::doDamage` succeeds -/
  doDamage : int32_t → Bool
  inProtectionZone : Bool
  isSuppress : ConditionType_t → Bool
  walkDelay : ℤ

def Env.uniform_random (env : Env) (minNumber maxNumber : int32_t) : int32_t :=
  if minNumber = maxNumber then minNumber
  else if maxNumber.slt minNumber then env.uniformRand maxNumber minNumber
  else env.uniformRand minNumber maxNumber

namespace Condition

variable (env : Env) (condition : Condition)

/-! ## `ConditionDamage` -/

/-- The damages that are done, beside the result and the condition. -/
abbrev Result := Bool × Condition × List int32_t

/-- `ConditionDamage::init` -/
def init (d : Damage) : Bool × Condition :=
  if d.periodDamage ≠ 0 then (true, condition)
  else if d.damageList = [] then
    let condition := condition.setTicks env.now 0
    let amount := env.uniform_random d.minDamage d.maxDamage
    let condition :=
      if amount = 0 then condition
      else
        let startDamage :=
          if d.maxDamage.slt d.startDamage then d.maxDamage
          else if d.startDamage = 0 then
            -- `std::max<int32_t>(1, std::ceil(amount / 20.0))`
            .ofInt 32 (max 1 (-(-amount.toInt / 20)))
          else d.startDamage
        let condition := { condition with data := .damage { d with startDamage := startDamage } }
        (env.generateDamageList amount startDamage).foldl
          (fun condition value => condition.addDamage env.now 1 d.tickInterval (-value)) condition
    match condition.data with
    | .damage d => (d.damageList ≠ [], condition)
    | _ => (false, condition)
  else (true, condition)

/-- `ConditionDamage::getNextDamage` -/
def getNextDamage (d : Damage) : Option int32_t × Condition :=
  if d.periodDamage ≠ 0 then (some d.periodDamage, condition)
  else
    match d.damageList with
    | damageInfo :: rest =>
      (some damageInfo.value,
        if condition.ticks ≠ -1 then
          { condition with data := .damage { d with damageList := rest } }
        else condition)
    | [] => (none, condition)

/-- `if (!delayed)`: the first damage is done at once. -/
def firstDamage : Result :=
  match condition.data with
  | .damage d =>
    if d.delayed then (true, condition, [])
    else
      match condition.getNextDamage d with
      | (some damage, condition) => (env.doDamage damage, condition, [damage])
      | (none, condition) => (true, condition, [])
  | _ => (true, condition, [])

/-! ## `startCondition` -/

/-- `Condition::startCondition` -/
def startBase : Condition :=
  if (0 : int32_t).slt condition.ticks then
    { condition with endTime := condition.ticks.toInt + env.now }
  else condition

/-- The method of the condition's class. -/
def startCondition : Result :=
  let condition := condition.startBase env
  match condition.data with
  | .generic | .invisible | .regeneration _ | .soul _ | .outfit _ => (true, condition, [])
  | .attributes a => (true, { condition with data := .attributes (env.updatePercent a) }, [])
  | .damage d =>
    match condition.init env d with
    | (true, condition) => condition.firstDamage env
    | (false, condition) => (false, condition, [])
  | .speed s =>
    if s.speedDelta = 0 then
      let (min, max) := env.getFormulaValues s
      (true,
        { condition with data := .speed { s with speedDelta := env.uniform_random min max } }, [])
    else (true, condition, [])
  | .light l =>
    (true,
      { condition with
        data := .light
          { l with
            internalLightTicks := 0
            lightChangeInterval := .ofInt 32 (condition.ticks.toInt.tdiv l.level.toNat) } }, [])

/-! ## `addCondition` -/

/-- `Condition::updateCondition` -/
def updateCondition (addCondition : Condition) : Bool :=
  if condition.conditionType ≠ addCondition.conditionType then false
  else if condition.ticks = -1 ∧ (0 : int32_t).slt addCondition.ticks then false
  else if ¬addCondition.ticks.slt 0 ∧ env.now + addCondition.ticks.toInt < condition.endTime then
    false
  else true

/-- `ConditionDamage::getTotalDamage` -/
def getTotalDamage (d : Damage) : int32_t :=
  let result :=
    if d.damageList ≠ [] then
      d.damageList.foldl (fun result intervalInfo => result + intervalInfo.value) 0
    else d.minDamage + (d.maxDamage - d.minDamage).sdiv 2
  result.abs

/-- `ConditionDamage::updateCondition` -/
def updateDamage (d addDamage : Damage) (addTicks : int32_t) : Bool :=
  if addDamage.forceUpdate then true
  else if condition.ticks = -1 ∧ (0 : int32_t).slt addTicks then false
  else (getTotalDamage d).slt (getTotalDamage addDamage)

/-- The method of the condition's class; `addCondition` is of the same type. -/
def addCondition (addCondition : Condition) : Condition × List int32_t :=
  let updated := condition.setTicks env.now addCondition.ticks
  match condition.data, addCondition.data with
  | .generic, _ | .invisible, _ =>
    (if condition.updateCondition env addCondition then updated else condition, [])
  | .attributes a, .attributes b =>
    (if condition.updateCondition env addCondition then
      { updated with
        data := .attributes (env.updatePercent
          { a with
            skills := b.skills, skillsPercent := b.skillsPercent
            stats := b.stats, statsPercent := b.statsPercent }) }
    else condition, [])
  | .regeneration r, .regeneration b =>
    (if condition.updateCondition env addCondition then
      { updated with
        data := .regeneration
          { r with
            healthTicks := b.healthTicks, manaTicks := b.manaTicks
            healthGain := b.healthGain, manaGain := b.manaGain } }
    else condition, [])
  | .soul s, .soul b =>
    (if condition.updateCondition env addCondition then
      { updated with data := .soul { s with soulTicks := b.soulTicks, soulGain := b.soulGain } }
    else condition, [])
  | .damage d, .damage b =>
    if addCondition.conditionType ≠ condition.conditionType then (condition, [])
    else if !condition.updateDamage d b addCondition.ticks then (condition, [])
    else
      let nextTimeLeft :=
        match d.damageList with
        | damageInfo :: _ => damageInfo.timeLeft
        | [] => b.tickInterval
      let d :=
        { d with
          owner := b.owner, maxDamage := b.maxDamage, minDamage := b.minDamage
          startDamage := b.startDamage, tickInterval := b.tickInterval
          periodDamage := b.periodDamage, damageList := b.damageList }
      match { updated with data := .damage d : Condition }.init env d with
      | (false, condition) => (condition, [])
      | (true, condition) =>
        let condition :=
          match condition.data with
          | .damage d =>
            match d.damageList with
            | damageInfo :: rest =>
              let first := { damageInfo with timeLeft := nextTimeLeft }
              { condition with data := .damage { d with damageList := first :: rest } }
            | [] => condition
          | _ => condition
        (condition.firstDamage env).2
  | .speed _, .speed b =>
    if condition.conditionType ≠ addCondition.conditionType then (condition, [])
    else if condition.ticks = -1 ∧ (0 : int32_t).slt addCondition.ticks then (condition, [])
    else
      let speedDelta :=
        if b.speedDelta = 0 then
          let (min, max) := env.getFormulaValues b
          env.uniform_random min max
        else b.speedDelta
      ({ updated with data := .speed { b with speedDelta := speedDelta } }, [])
  | .outfit _, .outfit b =>
    (if condition.updateCondition env addCondition then { updated with data := .outfit b }
    else condition, [])
  | .light _, .light b =>
    (if condition.updateCondition env addCondition then
      { updated with
        data := .light
          { level := b.level, color := b.color
            lightChangeInterval := .ofInt 32 (addCondition.ticks.toInt.tdiv b.level.toNat) } }
    else condition, [])
  | _, _ => (condition, [])

/-! ## `executeCondition` -/

/-- `Condition::executeCondition` -/
def executeBase (interval : int32_t) : Bool × Condition :=
  if condition.ticks = -1 then (true, condition)
  else
    (env.now ≤ condition.endTime,
      { condition with ticks := atLeastZero (condition.ticks - interval) })

/-- `ConditionDamage::executeCondition` -/
def executeDamage (d : Damage) (interval : int32_t) : Result :=
  let finish (condition : Condition) (interval : int32_t) (damages : List int32_t) : Result :=
    let (goesOn, condition) := condition.executeBase env interval
    (goesOn, condition, damages)
  if d.periodDamage ≠ 0 then
    let periodDamageTick := d.periodDamageTick + interval
    if d.tickInterval.sle periodDamageTick then
      finish { condition with data := .damage { d with periodDamageTick := 0 } } interval
        [d.periodDamage]
    else
      finish { condition with data := .damage { d with periodDamageTick := periodDamageTick } }
        interval []
  else
    match d.damageList with
    | damageInfo :: rest =>
      let bRemove := condition.ticks ≠ -1
      let timeLeft := damageInfo.timeLeft - interval
      let (damageList, damages) :=
        if timeLeft.sle 0 then
          (if bRemove then rest else { damageInfo with timeLeft := damageInfo.interval } :: rest,
            [damageInfo.value])
        else ({ damageInfo with timeLeft := timeLeft } :: rest, [])
      let condition := { condition with data := .damage { d with damageList := damageList } }
      if bRemove then finish condition interval damages
      else
        let condition :=
          if (0 : int32_t).slt condition.ticks then
            { condition with endTime := condition.endTime + interval.toInt }
          else condition
        finish condition 0 damages
    | [] => finish condition interval []

/-- The method of the condition's class. -/
def executeCondition (interval : int32_t) : Result :=
  let finish (data : ConditionClass) : Result :=
    let (goesOn, condition) := { condition with data := data : Condition }.executeBase env interval
    (goesOn, condition, [])
  match condition.data with
  | .damage d => condition.executeDamage env d interval
  | .regeneration r =>
    let health := r.internalHealthTicks + interval
    let mana := r.internalManaTicks + interval
    finish (.regeneration
      { r with
        internalHealthTicks := if !env.inProtectionZone ∧ r.healthTicks ≤ health then 0 else health
        internalManaTicks := if !env.inProtectionZone ∧ r.manaTicks ≤ mana then 0 else mana })
  | .soul s =>
    let soul := s.internalSoulTicks + interval
    finish (.soul
      { s with
        internalSoulTicks := if !env.inProtectionZone ∧ s.soulTicks ≤ soul then 0 else soul })
  | .light l =>
    let light := l.internalLightTicks + interval
    finish (.light
      { l with internalLightTicks := if l.lightChangeInterval ≤ light then 0 else light })
  | data => finish data

/-! ## What executing a condition keeps -/

/-- What identifies a condition in the list of a creature. -/
abbrev Key := ConditionType_t × ConditionId_t × uint32_t

def key : Key := (condition.conditionType, condition.id, condition.subId)

/-- `c` has been executed: it stays as long as it has no end or the end is not over. -/
structure Executed (c : Condition) (goesOn : Bool) (c' : Condition) : Prop where
  goesOn : goesOn = true ↔ c.ticks = -1 ∨ env.now ≤ c.endTime
  key : c'.key = c.key
  endTime : c'.endTime = c.endTime
  endless : c'.ticks = -1 ↔ c.ticks = -1

theorem atLeastZero_ne (value : int32_t) : atLeastZero value ≠ -1 := by
  unfold atLeastZero
  split
  next => decide
  next h =>
    rintro rfl
    exact h (by decide)

theorem executed_executeBase (interval : int32_t) :
    Executed env condition (condition.executeBase env interval).1
      (condition.executeBase env interval).2 := by
  unfold executeBase
  split
  next hticks => exact ⟨iff_of_true rfl (.inl hticks), rfl, rfl, Iff.rfl⟩
  next hticks =>
    refine ⟨?_, rfl, rfl, iff_of_false (atLeastZero_ne _) hticks⟩
    rw [decide_eq_true_iff, or_iff_right hticks]

/-- The data of the class do not count. -/
theorem executed_of_data (data : ConditionClass) (interval : int32_t) :
    Executed env condition ({ condition with data := data : Condition }.executeBase env interval).1
      ({ condition with data := data : Condition }.executeBase env interval).2 :=
  have h := executed_executeBase env { condition with data := data } interval
  ⟨h.goesOn, h.key, h.endTime, h.endless⟩

theorem executed_executeDamage (d : Damage) (interval : int32_t) :
    Executed env condition (condition.executeDamage env d interval).1
      (condition.executeDamage env d interval).2.1 := by
  unfold executeDamage
  dsimp only
  split
  next =>
    split
    next => exact executed_of_data env condition _ interval
    next => exact executed_of_data env condition _ interval
  next =>
    split
    next damageInfo rest _ =>
      split
      next => exact executed_of_data env condition _ interval
      next hticks =>
        -- there is no end to put off
        rw [not_not] at hticks
        have hnot : ¬(0 : int32_t).slt condition.ticks = true := by
          rw [hticks]
          decide
        rw [if_neg hnot]
        exact executed_of_data env condition _ 0
    next => exact executed_executeBase env condition interval

theorem executed_executeCondition (interval : int32_t) :
    Executed env condition (condition.executeCondition env interval).1
      (condition.executeCondition env interval).2.1 := by
  unfold executeCondition
  dsimp only
  split
  next d _ => exact executed_executeDamage env condition d interval
  next => exact executed_of_data env condition _ interval
  next => exact executed_of_data env condition _ interval
  next => exact executed_of_data env condition _ interval
  next => exact executed_of_data env condition _ interval

end Condition

/-! ## `Creature` -/

open Condition (Key)

/-- A call of `doDamage`, by the condition with this key. -/
abbrev Done := Key × int32_t

/-- The conditions of a creature, and the damage that they have done. -/
structure Creature where
  conditions : List Condition := []
  done : List Done := []

namespace Creature

variable (env : Env) (creature : Creature)

def hasCondition (type : ConditionType_t) (subId : uint32_t) : Bool :=
  !env.isSuppress type && creature.conditions.any fun condition =>
    condition.conditionType = type && condition.subId = subId && env.now ≤ condition.endTime

/-- The condition that `getCondition` finds takes the other one in; none where there is none. -/
def addToPrev (addCondition : Condition) : List Condition → Option (List Condition × List Done)
  | [] => none
  | prevCond :: rest =>
    if prevCond.key = addCondition.key then
      let (condition, damages) := prevCond.addCondition env addCondition
      some (condition :: rest, damages.map fun damage => (prevCond.key, damage))
    else (addToPrev addCondition rest).map fun (rest, done) => (prevCond :: rest, done)

/-- `Creature::addCondition` -/
def addCondition (condition : Condition) (force : Bool) : Creature :=
  -- the scheduler adds the condition later, with force
  if !force ∧ condition.conditionType = .CONDITION_HASTE ∧
      creature.hasCondition env .CONDITION_PARALYZE 0 ∧ env.walkDelay > 0 then creature
  else
    match addToPrev env condition creature.conditions with
    | some (conditions, done) =>
      { conditions := conditions, done := creature.done ++ done }
    | none =>
      let (added, started, damages) := condition.startCondition env
      { conditions := if added then creature.conditions ++ [started] else creature.conditions
        done := creature.done ++ damages.map fun damage => (started.key, damage) }

/-- The loop of `Creature::executeConditions` -/
def executeLoop (interval : int32_t) : List Condition → List Condition × List Done
  | [] => ([], [])
  | condition :: rest =>
    let (goesOn, condition, damages) := condition.executeCondition env interval
    let (rest, done) := executeLoop interval rest
    (if goesOn then condition :: rest else rest,
      (damages.map fun damage => (condition.key, damage)) ++ done)

def executeConditions (interval : int32_t) : Creature :=
  let (conditions, done) := executeLoop env interval creature.conditions
  { conditions := conditions, done := creature.done ++ done }

/-- The conditions that `Creature::removeCondition` is asked to remove go; a paralysis may
stop the loop. -/
def removeLoop (removes : Condition → Bool) (stops : Bool) : List Condition → List Condition
  | [] => []
  | condition :: rest =>
    if !removes condition then condition :: removeLoop removes stops rest
    else if stops ∧ condition.conditionType = .CONDITION_PARALYZE then condition :: rest
    else removeLoop removes stops rest

def removeCondition (removes : Condition → Bool) (force : Bool) : Creature :=
  { creature with
    conditions := removeLoop removes (!force && env.walkDelay > 0) creature.conditions }

end Creature

end TibiaServer.Conditions
