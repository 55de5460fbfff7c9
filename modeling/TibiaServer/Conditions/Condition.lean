import TibiaServer.Players.Conditions
/-!
# Conditions of every class

The fields that all conditions share, those of each class, and how a condition is created
and configured.  The clock is read by the caller (`now`, in milliseconds).
-/

namespace TibiaServer.Conditions

open Players

abbrev uint32_t := BitVec 32
abbrev uint16_t := BitVec 16
abbrev uint8_t := BitVec 8

/-- An `int8_t`. -/
abbrev ConditionId_t := BitVec 8

def CONDITIONID_DEFAULT : ConditionId_t := -1
def CONDITIONID_COMBAT : ConditionId_t := 0

def EVENT_CREATURE_THINK_INTERVAL : int32_t := 1000

inductive ConditionParam_t
  | CONDITION_PARAM_OWNER
  | CONDITION_PARAM_TICKS
  | CONDITION_PARAM_HEALTHGAIN
  | CONDITION_PARAM_HEALTHTICKS
  | CONDITION_PARAM_MANAGAIN
  | CONDITION_PARAM_MANATICKS
  | CONDITION_PARAM_DELAYED
  | CONDITION_PARAM_SPEED
  | CONDITION_PARAM_LIGHT_LEVEL
  | CONDITION_PARAM_LIGHT_COLOR
  | CONDITION_PARAM_SOULGAIN
  | CONDITION_PARAM_SOULTICKS
  | CONDITION_PARAM_MINVALUE
  | CONDITION_PARAM_MAXVALUE
  | CONDITION_PARAM_STARTVALUE
  | CONDITION_PARAM_TICKINTERVAL
  | CONDITION_PARAM_FORCEUPDATE
  | CONDITION_PARAM_SKILL_MELEE
  | CONDITION_PARAM_SKILL_FIST
  | CONDITION_PARAM_SKILL_CLUB
  | CONDITION_PARAM_SKILL_SWORD
  | CONDITION_PARAM_SKILL_AXE
  | CONDITION_PARAM_SKILL_DISTANCE
  | CONDITION_PARAM_SKILL_SHIELD
  | CONDITION_PARAM_SKILL_FISHING
  | CONDITION_PARAM_STAT_MAXHITPOINTS
  | CONDITION_PARAM_STAT_MAXMANAPOINTS
  | CONDITION_PARAM_STAT_MAGICPOINTS
  | CONDITION_PARAM_STAT_MAXHITPOINTSPERCENT
  | CONDITION_PARAM_STAT_MAXMANAPOINTSPERCENT
  | CONDITION_PARAM_STAT_MAGICPOINTSPERCENT
  | CONDITION_PARAM_PERIODICDAMAGE
  | CONDITION_PARAM_SKILL_MELEEPERCENT
  | CONDITION_PARAM_SKILL_FISTPERCENT
  | CONDITION_PARAM_SKILL_CLUBPERCENT
  | CONDITION_PARAM_SKILL_SWORDPERCENT
  | CONDITION_PARAM_SKILL_AXEPERCENT
  | CONDITION_PARAM_SKILL_DISTANCEPERCENT
  | CONDITION_PARAM_SKILL_SHIELDPERCENT
  | CONDITION_PARAM_SKILL_FISHINGPERCENT
  | CONDITION_PARAM_BUFF_SPELL
  | CONDITION_PARAM_SUBID
  | CONDITION_PARAM_FIELD
  deriving DecidableEq

/-! ## The fields of the classes -/

structure Attributes where
  skills : skills_t → int32_t := fun _ => 0
  skillsPercent : skills_t → int32_t := fun _ => 0
  stats : stats_t → int32_t := fun _ => 0
  statsPercent : stats_t → int32_t := fun _ => 0
  currentSkill : ℕ := 0
  currentStat : ℕ := 0

structure Regeneration where
  internalHealthTicks : uint32_t := 0
  internalManaTicks : uint32_t := 0
  healthTicks : uint32_t := 1000
  manaTicks : uint32_t := 1000
  healthGain : uint32_t := 0
  manaGain : uint32_t := 0

structure Soul where
  internalSoulTicks : uint32_t := 0
  soulTicks : uint32_t := 0
  soulGain : uint32_t := 0

structure IntervalInfo where
  timeLeft : int32_t
  value : int32_t
  interval : int32_t
  deriving DecidableEq

structure Damage where
  maxDamage : int32_t := 0
  minDamage : int32_t := 0
  startDamage : int32_t := 0
  periodDamage : int32_t := 0
  periodDamageTick : int32_t := 0
  tickInterval : int32_t := 2000
  forceUpdate : Bool := false
  delayed : Bool := false
  field : Bool := false
  owner : uint32_t := 0
  damageList : List IntervalInfo := []

/-- A `float` is the four bytes that hold it. -/
structure Speed where
  speedDelta : int32_t
  mina : BitVec 32 := 0
  minb : BitVec 32 := 0
  maxa : BitVec 32 := 0
  maxb : BitVec 32 := 0

/-- The fields, and the byte that fills the struct up to twelve. -/
structure Outfit_t where
  lookType : uint16_t := 0
  lookTypeEx : uint16_t := 0
  lookMount : uint16_t := 0
  lookHead : uint8_t := 0
  lookBody : uint8_t := 0
  lookLegs : uint8_t := 0
  lookFeet : uint8_t := 0
  lookAddons : uint8_t := 0
  padding : uint8_t := 0

structure Light where
  level : uint8_t
  color : uint8_t
  internalLightTicks : uint32_t := 0
  lightChangeInterval : uint32_t := 0

/-- The class of a condition, with the fields that it adds. -/
inductive ConditionClass
  | generic
  | attributes (a : Attributes)
  | regeneration (r : Regeneration)
  | soul (s : Soul)
  | invisible
  | damage (d : Damage)
  | speed (s : Speed)
  | outfit (o : Outfit_t)
  | light (l : Light)

structure Condition where
  endTime : ℤ
  subId : uint32_t
  ticks : int32_t
  conditionType : ConditionType_t
  id : ConditionId_t
  isBuff : Bool
  data : ConditionClass

namespace Condition

def INT64_MAX : ℤ := 9223372036854775807

/-! ## `Condition::createCondition` -/

/-- The constructor of `Condition`, for the class `data`. -/
def new (id : ConditionId_t) (type : ConditionType_t) (ticks : int32_t) (buff : Bool)
    (subId : uint32_t) (data : ConditionClass) : Condition where
  endTime := if ticks = -1 then INT64_MAX else 0
  subId := subId
  ticks := ticks
  conditionType := type
  id := id
  isBuff := buff
  data := data

def createCondition (id : ConditionId_t) (type : ConditionType_t) (ticks param : int32_t)
    (buff : Bool) (subId : uint32_t) : Option Condition :=
  match type with
  | .CONDITION_POISON | .CONDITION_FIRE | .CONDITION_ENERGY | .CONDITION_DROWN
  | .CONDITION_FREEZING | .CONDITION_DAZZLED | .CONDITION_CURSED | .CONDITION_BLEEDING =>
    -- the constructor of this class takes no ticks
    some (new id type 0 buff subId (.damage {}))
  | .CONDITION_HASTE | .CONDITION_PARALYZE =>
    some (new id type ticks buff subId (.speed { speedDelta := param }))
  | .CONDITION_INVISIBLE => some (new id type ticks buff subId .invisible)
  | .CONDITION_OUTFIT => some (new id type ticks buff subId (.outfit {}))
  | .CONDITION_LIGHT =>
    some (new id type ticks buff subId (.light
      { level := param.setWidth 8, color := (param >>> 8).setWidth 8 }))
  | .CONDITION_REGENERATION => some (new id type ticks buff subId (.regeneration {}))
  | .CONDITION_SOUL => some (new id type ticks buff subId (.soul {}))
  | .CONDITION_ATTRIBUTES => some (new id type ticks buff subId (.attributes {}))
  | .CONDITION_INFIGHT | .CONDITION_DRUNK | .CONDITION_EXHAUST_WEAPON
  | .CONDITION_EXHAUST_COMBAT | .CONDITION_EXHAUST_HEAL | .CONDITION_MUTED
  | .CONDITION_CHANNELMUTEDTICKS | .CONDITION_YELLTICKS | .CONDITION_PACIFIED
  | .CONDITION_MANASHIELD => some (new id type ticks buff subId .generic)
  | .CONDITION_NONE => none

/-! ## `setTicks` and `setParam` -/

variable (condition : Condition) (now : ℤ)

def setTicks (newTicks : int32_t) : Condition :=
  { condition with ticks := newTicks, endTime := newTicks.toInt + now }

/-- `Condition::setParam` -/
def setBaseParam (param : ConditionParam_t) (value : int32_t) : Bool × Condition :=
  match param with
  | .CONDITION_PARAM_TICKS => (true, { condition with ticks := value })
  | .CONDITION_PARAM_BUFF_SPELL => (true, { condition with isBuff := value != 0 })
  | .CONDITION_PARAM_SUBID => (true, { condition with subId := value })
  | _ => (false, condition)

end Condition

/-- `std::max<int32_t>(0, value)` -/
def atLeastZero (value : int32_t) : int32_t := if value.slt 0 then 0 else value

/-! What the classes add to `setParam`: the new fields, where the parameter is theirs. -/

def Attributes.setParam (a : Attributes) (param : ConditionParam_t) (value : int32_t) :
    Option Attributes :=
  let setSkills (skills : List skills_t) : Attributes :=
    { a with skills := fun i => if i ∈ skills then value else a.skills i }
  let setSkillsPercent (skills : List skills_t) : Attributes :=
    { a with skillsPercent := fun i => if i ∈ skills then value else a.skillsPercent i }
  let setStat (stat : stats_t) : Attributes :=
    { a with stats := Function.update a.stats stat value }
  let setStatPercent (stat : stats_t) : Attributes :=
    { a with statsPercent := Function.update a.statsPercent stat (atLeastZero value) }
  match param with
  | .CONDITION_PARAM_SKILL_MELEE => some (setSkills [.SKILL_CLUB, .SKILL_AXE, .SKILL_SWORD])
  | .CONDITION_PARAM_SKILL_MELEEPERCENT =>
    some (setSkillsPercent [.SKILL_CLUB, .SKILL_AXE, .SKILL_SWORD])
  | .CONDITION_PARAM_SKILL_FIST => some (setSkills [.SKILL_FIST])
  | .CONDITION_PARAM_SKILL_FISTPERCENT => some (setSkillsPercent [.SKILL_FIST])
  | .CONDITION_PARAM_SKILL_CLUB => some (setSkills [.SKILL_CLUB])
  | .CONDITION_PARAM_SKILL_CLUBPERCENT => some (setSkillsPercent [.SKILL_CLUB])
  | .CONDITION_PARAM_SKILL_SWORD => some (setSkills [.SKILL_SWORD])
  | .CONDITION_PARAM_SKILL_SWORDPERCENT => some (setSkillsPercent [.SKILL_SWORD])
  | .CONDITION_PARAM_SKILL_AXE => some (setSkills [.SKILL_AXE])
  | .CONDITION_PARAM_SKILL_AXEPERCENT => some (setSkillsPercent [.SKILL_AXE])
  | .CONDITION_PARAM_SKILL_DISTANCE => some (setSkills [.SKILL_DISTANCE])
  | .CONDITION_PARAM_SKILL_DISTANCEPERCENT => some (setSkillsPercent [.SKILL_DISTANCE])
  | .CONDITION_PARAM_SKILL_SHIELD => some (setSkills [.SKILL_SHIELD])
  | .CONDITION_PARAM_SKILL_SHIELDPERCENT => some (setSkillsPercent [.SKILL_SHIELD])
  | .CONDITION_PARAM_SKILL_FISHING => some (setSkills [.SKILL_FISHING])
  | .CONDITION_PARAM_SKILL_FISHINGPERCENT => some (setSkillsPercent [.SKILL_FISHING])
  | .CONDITION_PARAM_STAT_MAXHITPOINTS => some (setStat .STAT_MAXHITPOINTS)
  | .CONDITION_PARAM_STAT_MAXMANAPOINTS => some (setStat .STAT_MAXMANAPOINTS)
  | .CONDITION_PARAM_STAT_MAGICPOINTS => some (setStat .STAT_MAGICPOINTS)
  | .CONDITION_PARAM_STAT_MAXHITPOINTSPERCENT => some (setStatPercent .STAT_MAXHITPOINTS)
  | .CONDITION_PARAM_STAT_MAXMANAPOINTSPERCENT => some (setStatPercent .STAT_MAXMANAPOINTS)
  | .CONDITION_PARAM_STAT_MAGICPOINTSPERCENT => some (setStatPercent .STAT_MAGICPOINTS)
  | _ => none

def Regeneration.setParam (r : Regeneration) (param : ConditionParam_t) (value : int32_t) :
    Option Regeneration :=
  match param with
  | .CONDITION_PARAM_HEALTHGAIN => some { r with healthGain := value }
  | .CONDITION_PARAM_HEALTHTICKS => some { r with healthTicks := value }
  | .CONDITION_PARAM_MANAGAIN => some { r with manaGain := value }
  | .CONDITION_PARAM_MANATICKS => some { r with manaTicks := value }
  | _ => none

def Soul.setParam (s : Soul) (param : ConditionParam_t) (value : int32_t) : Option Soul :=
  match param with
  | .CONDITION_PARAM_SOULGAIN => some { s with soulGain := value }
  | .CONDITION_PARAM_SOULTICKS => some { s with soulTicks := value }
  | _ => none

/-- With what the switch returns: `none` where it breaks and `ret` is returned. -/
def Damage.setParam (d : Damage) (param : ConditionParam_t) (value : int32_t) :
    Option Bool × Damage :=
  match param with
  | .CONDITION_PARAM_OWNER => (some true, { d with owner := value })
  | .CONDITION_PARAM_FORCEUPDATE => (some true, { d with forceUpdate := value != 0 })
  | .CONDITION_PARAM_DELAYED => (some true, { d with delayed := value != 0 })
  | .CONDITION_PARAM_MAXVALUE => (none, { d with maxDamage := value.abs })
  | .CONDITION_PARAM_MINVALUE => (none, { d with minDamage := value.abs })
  | .CONDITION_PARAM_STARTVALUE => (none, { d with startDamage := value.abs })
  | .CONDITION_PARAM_TICKINTERVAL => (none, { d with tickInterval := value.abs })
  | .CONDITION_PARAM_PERIODICDAMAGE => (none, { d with periodDamage := value })
  | .CONDITION_PARAM_FIELD => (none, { d with field := value != 0 })
  | _ => (some false, d)

def Light.setParam (l : Light) (param : ConditionParam_t) (value : int32_t) : Option Light :=
  match param with
  | .CONDITION_PARAM_LIGHT_LEVEL => some { l with level := value.setWidth 8 }
  | .CONDITION_PARAM_LIGHT_COLOR => some { l with color := value.setWidth 8 }
  | _ => none

namespace Condition

/-- The method of the condition's class. -/
def setParam (condition : Condition) (param : ConditionParam_t) (value : int32_t) :
    Bool × Condition :=
  let (ret, base) := condition.setBaseParam param value
  match condition.data with
  | .generic | .invisible | .outfit _ => (ret, base)
  | .attributes a =>
    match a.setParam param value with
    | some a => (true, { base with data := .attributes a })
    | none => (ret, base)
  | .regeneration r =>
    match r.setParam param value with
    | some r => (true, { base with data := .regeneration r })
    | none => (ret, base)
  | .soul s =>
    match s.setParam param value with
    | some s => (true, { base with data := .soul s })
    | none => (ret, base)
  | .damage d =>
    let (result, d) := d.setParam param value
    (result.getD ret, { base with data := .damage d })
  | .speed s =>
    if param ≠ .CONDITION_PARAM_SPEED then (false, base)
    else
      (true,
        { base with
          data := .speed { s with speedDelta := value }
          conditionType := if (0 : int32_t).slt value then .CONDITION_HASTE
            else .CONDITION_PARALYZE })
  | .light l =>
    if ret then (false, base)
    else
      match l.setParam param value with
      | some l => (true, { base with data := .light l })
      | none => (false, base)

/-- `ConditionDamage::addDamage`, one round of the loop -/
def addRound (condition : Condition) (now : ℤ) (d : Damage) (time value : int32_t) :
    Condition :=
  let damageInfo : IntervalInfo := { timeLeft := time, value := value, interval := time }
  let condition :=
    { condition with data := .damage { d with damageList := d.damageList ++ [damageInfo] } }
  if condition.ticks ≠ -1 then condition.setTicks now (condition.ticks + damageInfo.interval)
  else condition

def addRounds (condition : Condition) (now : ℤ) (time value : int32_t) : ℕ → Condition
  | 0 => condition
  | rounds + 1 =>
    match condition.data with
    | .damage d => (condition.addRound now d time value).addRounds now time value rounds
    | _ => condition

/-- `ConditionDamage::addDamage` -/
def addDamage (condition : Condition) (now : ℤ) (rounds time value : int32_t) : Condition :=
  match condition.data with
  | .damage d =>
    let time := if time.slt EVENT_CREATURE_THINK_INTERVAL then EVENT_CREATURE_THINK_INTERVAL
      else time
    if rounds = -1 then
      let condition := { condition with data := .damage { d with periodDamage := value } }
      let condition := (condition.setParam .CONDITION_PARAM_TICKINTERVAL time).2
      (condition.setParam .CONDITION_PARAM_TICKS (-1)).2
    else if (0 : int32_t).slt d.periodDamage then condition
    else condition.addRounds now time value rounds.toInt.toNat
  | _ => condition

end Condition

end TibiaServer.Conditions
