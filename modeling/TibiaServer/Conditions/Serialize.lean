import TibiaServer.Conditions.Condition
import TibiaServer.IOMapSerialize.PropStream
/-!
# Conditions in the players table

`savePlayer` writes the persistent conditions one behind the other: a header that all classes
share, the fields of the class, and `CONDITIONATTR_END`.  `loadPlayer` creates a condition
from each header and lets it read its fields.
-/

namespace TibiaServer.Conditions

open Players IOMapSerialize Library.Bytes

inductive ConditionAttr_t
  | CONDITIONATTR_TYPE
  | CONDITIONATTR_ID
  | CONDITIONATTR_TICKS
  | CONDITIONATTR_HEALTHTICKS
  | CONDITIONATTR_HEALTHGAIN
  | CONDITIONATTR_MANATICKS
  | CONDITIONATTR_MANAGAIN
  | CONDITIONATTR_DELAYED
  | CONDITIONATTR_OWNER
  | CONDITIONATTR_INTERVALDATA
  | CONDITIONATTR_SPEEDDELTA
  | CONDITIONATTR_FORMULA_MINA
  | CONDITIONATTR_FORMULA_MINB
  | CONDITIONATTR_FORMULA_MAXA
  | CONDITIONATTR_FORMULA_MAXB
  | CONDITIONATTR_LIGHTCOLOR
  | CONDITIONATTR_LIGHTLEVEL
  | CONDITIONATTR_LIGHTTICKS
  | CONDITIONATTR_LIGHTINTERVAL
  | CONDITIONATTR_SOULTICKS
  | CONDITIONATTR_SOULGAIN
  | CONDITIONATTR_SKILLS
  | CONDITIONATTR_STATS
  | CONDITIONATTR_OUTFIT
  | CONDITIONATTR_PERIODDAMAGE
  | CONDITIONATTR_ISBUFF
  | CONDITIONATTR_SUBID
  | CONDITIONATTR_END
  deriving DecidableEq

namespace ConditionAttr_t

def code : ConditionAttr_t → UInt8
  | CONDITIONATTR_TYPE => 1
  | CONDITIONATTR_ID => 2
  | CONDITIONATTR_TICKS => 3
  | CONDITIONATTR_HEALTHTICKS => 4
  | CONDITIONATTR_HEALTHGAIN => 5
  | CONDITIONATTR_MANATICKS => 6
  | CONDITIONATTR_MANAGAIN => 7
  | CONDITIONATTR_DELAYED => 8
  | CONDITIONATTR_OWNER => 9
  | CONDITIONATTR_INTERVALDATA => 10
  | CONDITIONATTR_SPEEDDELTA => 11
  | CONDITIONATTR_FORMULA_MINA => 12
  | CONDITIONATTR_FORMULA_MINB => 13
  | CONDITIONATTR_FORMULA_MAXA => 14
  | CONDITIONATTR_FORMULA_MAXB => 15
  | CONDITIONATTR_LIGHTCOLOR => 16
  | CONDITIONATTR_LIGHTLEVEL => 17
  | CONDITIONATTR_LIGHTTICKS => 18
  | CONDITIONATTR_LIGHTINTERVAL => 19
  | CONDITIONATTR_SOULTICKS => 20
  | CONDITIONATTR_SOULGAIN => 21
  | CONDITIONATTR_SKILLS => 22
  | CONDITIONATTR_STATS => 23
  | CONDITIONATTR_OUTFIT => 24
  | CONDITIONATTR_PERIODDAMAGE => 25
  | CONDITIONATTR_ISBUFF => 26
  | CONDITIONATTR_SUBID => 27
  | CONDITIONATTR_END => 254

def all : List ConditionAttr_t := (List.range 28).map ConditionAttr_t.ofNat

/-- `static_cast<ConditionAttr_t>(attr_type)`, and nothing for a byte that is no tag. -/
def ofCode (attr_type : UInt8) : Option ConditionAttr_t :=
  all.find? fun attr => attr.code = attr_type

theorem ofCode_code (attr : ConditionAttr_t) : ofCode attr.code = some attr := by
  cases attr <;> rfl

end ConditionAttr_t

open ConditionAttr_t

/-- The values of the enumeration. -/
def conditionTypeCode : ConditionType_t → ℕ
  | .CONDITION_NONE => 0
  | .CONDITION_POISON => 1 <<< 0
  | .CONDITION_FIRE => 1 <<< 1
  | .CONDITION_ENERGY => 1 <<< 2
  | .CONDITION_BLEEDING => 1 <<< 3
  | .CONDITION_HASTE => 1 <<< 4
  | .CONDITION_PARALYZE => 1 <<< 5
  | .CONDITION_OUTFIT => 1 <<< 6
  | .CONDITION_INVISIBLE => 1 <<< 7
  | .CONDITION_LIGHT => 1 <<< 8
  | .CONDITION_MANASHIELD => 1 <<< 9
  | .CONDITION_INFIGHT => 1 <<< 10
  | .CONDITION_DRUNK => 1 <<< 11
  | .CONDITION_EXHAUST_WEAPON => 1 <<< 12
  | .CONDITION_REGENERATION => 1 <<< 13
  | .CONDITION_SOUL => 1 <<< 14
  | .CONDITION_DROWN => 1 <<< 15
  | .CONDITION_MUTED => 1 <<< 16
  | .CONDITION_CHANNELMUTEDTICKS => 1 <<< 17
  | .CONDITION_YELLTICKS => 1 <<< 18
  | .CONDITION_ATTRIBUTES => 1 <<< 19
  | .CONDITION_FREEZING => 1 <<< 20
  | .CONDITION_DAZZLED => 1 <<< 21
  | .CONDITION_CURSED => 1 <<< 22
  | .CONDITION_EXHAUST_COMBAT => 1 <<< 23
  | .CONDITION_EXHAUST_HEAL => 1 <<< 24
  | .CONDITION_PACIFIED => 1 <<< 25

def conditionTypes : List ConditionType_t := (List.range 27).map ConditionType_t.ofNat

/-- `static_cast<ConditionType_t>(value)`; what is no value of the enumeration is taken for
`CONDITION_NONE`, for which no class exists either. -/
def conditionTypeOf (value : ℕ) : ConditionType_t :=
  (conditionTypes.find? fun type => conditionTypeCode type = value).getD .CONDITION_NONE

theorem conditionTypeOf_code (type : ConditionType_t) :
    conditionTypeOf (conditionTypeCode type) = type := by
  cases type <;> rfl

theorem conditionTypeCode_lt (type : ConditionType_t) : conditionTypeCode type < 256 ^ 4 := by
  cases type <;> decide

/-! ## Writing -/

/-- `write<uint8_t>(attr)` and the value behind it. -/
def writeAttr (attr : ConditionAttr_t) (body : List UInt8) : List UInt8 := attr.code :: body

def writeBits {n : ℕ} (w : ℕ) (value : BitVec n) : List UInt8 := write w value.toNat

def writeBool (value : Bool) : List UInt8 := write 1 value.toNat

/-- `write<IntervalInfo>` -/
def writeIntervalInfo (info : IntervalInfo) : List UInt8 :=
  writeBits 4 info.timeLeft ++ (writeBits 4 info.value ++ writeBits 4 info.interval)

/-- `write<Outfit_t>` -/
def writeOutfit (outfit : Outfit_t) : List UInt8 :=
  writeBits 2 outfit.lookType ++ (writeBits 2 outfit.lookTypeEx ++
    (writeBits 2 outfit.lookMount ++ (writeBits 1 outfit.lookHead ++
      (writeBits 1 outfit.lookBody ++ (writeBits 1 outfit.lookLegs ++
        (writeBits 1 outfit.lookFeet ++ (writeBits 1 outfit.lookAddons ++
          writeBits 1 outfit.padding)))))))

namespace Condition

/-- `Condition::serialize` -/
def serializeBase (condition : Condition) : List UInt8 :=
  writeAttr CONDITIONATTR_TYPE (write 4 (conditionTypeCode condition.conditionType)) ++
    (writeAttr CONDITIONATTR_ID (writeBits 4 (condition.id.signExtend 32)) ++
      (writeAttr CONDITIONATTR_TICKS (writeBits 4 condition.ticks) ++
        (writeAttr CONDITIONATTR_ISBUFF (writeBool condition.isBuff) ++
          writeAttr CONDITIONATTR_SUBID (writeBits 4 condition.subId))))

end Condition

/-- What the class of a condition writes behind that. -/
def ConditionClass.serialize : ConditionClass → List UInt8
  | .generic | .invisible => []
  | .attributes a =>
    skills_t.all.flatMap (fun i => writeAttr CONDITIONATTR_SKILLS (writeBits 4 (a.skills i))) ++
      stats_t.all.flatMap fun i => writeAttr CONDITIONATTR_STATS (writeBits 4 (a.stats i))
  | .regeneration r =>
    writeAttr CONDITIONATTR_HEALTHTICKS (writeBits 4 r.healthTicks) ++
      (writeAttr CONDITIONATTR_HEALTHGAIN (writeBits 4 r.healthGain) ++
        (writeAttr CONDITIONATTR_MANATICKS (writeBits 4 r.manaTicks) ++
          writeAttr CONDITIONATTR_MANAGAIN (writeBits 4 r.manaGain)))
  | .soul s =>
    writeAttr CONDITIONATTR_SOULGAIN (writeBits 4 s.soulGain) ++
      writeAttr CONDITIONATTR_SOULTICKS (writeBits 4 s.soulTicks)
  | .damage d =>
    writeAttr CONDITIONATTR_DELAYED (writeBool d.delayed) ++
      (writeAttr CONDITIONATTR_PERIODDAMAGE (writeBits 4 d.periodDamage) ++
        d.damageList.flatMap fun info =>
          writeAttr CONDITIONATTR_INTERVALDATA (writeIntervalInfo info))
  | .speed s =>
    writeAttr CONDITIONATTR_SPEEDDELTA (writeBits 4 s.speedDelta) ++
      (writeAttr CONDITIONATTR_FORMULA_MINA (writeBits 4 s.mina) ++
        (writeAttr CONDITIONATTR_FORMULA_MINB (writeBits 4 s.minb) ++
          (writeAttr CONDITIONATTR_FORMULA_MAXA (writeBits 4 s.maxa) ++
            writeAttr CONDITIONATTR_FORMULA_MAXB (writeBits 4 s.maxb))))
  | .outfit o => writeAttr CONDITIONATTR_OUTFIT (writeOutfit o)
  | .light l =>
    writeAttr CONDITIONATTR_LIGHTCOLOR (writeBits 4 l.color) ++
      (writeAttr CONDITIONATTR_LIGHTLEVEL (writeBits 4 l.level) ++
        (writeAttr CONDITIONATTR_LIGHTTICKS (writeBits 4 l.internalLightTicks) ++
          writeAttr CONDITIONATTR_LIGHTINTERVAL (writeBits 4 l.lightChangeInterval)))

namespace Condition

def serialize (condition : Condition) : List UInt8 :=
  condition.serializeBase ++ condition.data.serialize

def isPersistent (condition : Condition) : Bool :=
  if condition.ticks = -1 then false
  else condition.id = CONDITIONID_DEFAULT || condition.id = CONDITIONID_COMBAT

end Condition

/-- The loop of `savePlayer` over the conditions. -/
def saveConditions (conditions : List Condition) : List UInt8 :=
  (conditions.filter fun condition => condition.isPersistent).flatMap fun condition =>
    condition.serialize ++ [CONDITIONATTR_END.code]

/-! ## Reading -/

/-- A member of a struct that is read as a whole. -/
def takeBits (w : ℕ) (n : ℕ) (stream : PropStream) : BitVec n × PropStream :=
  (BitVec.ofNat n (ofBytes (stream.take w)), stream.drop w)

/-- `read<IntervalInfo>` -/
def readIntervalInfo (stream : PropStream) : Option IntervalInfo × PropStream :=
  if stream.length < 12 then (none, stream)
  else
    let (timeLeft, stream) := takeBits 4 32 stream
    let (value, stream) := takeBits 4 32 stream
    let (interval, stream) := takeBits 4 32 stream
    (some { timeLeft := timeLeft, value := value, interval := interval }, stream)

/-- `read<Outfit_t>` -/
def readOutfit (stream : PropStream) : Option Outfit_t × PropStream :=
  if stream.length < 12 then (none, stream)
  else
    let (lookType, stream) := takeBits 2 16 stream
    let (lookTypeEx, stream) := takeBits 2 16 stream
    let (lookMount, stream) := takeBits 2 16 stream
    let (lookHead, stream) := takeBits 1 8 stream
    let (lookBody, stream) := takeBits 1 8 stream
    let (lookLegs, stream) := takeBits 1 8 stream
    let (lookFeet, stream) := takeBits 1 8 stream
    let (lookAddons, stream) := takeBits 1 8 stream
    let (padding, stream) := takeBits 1 8 stream
    (some
      { lookType := lookType, lookTypeEx := lookTypeEx, lookMount := lookMount
        lookHead := lookHead, lookBody := lookBody, lookLegs := lookLegs, lookFeet := lookFeet
        lookAddons := lookAddons, padding := padding }, stream)

/-- `if (!read<T>(value)) { return false; } set(value); return true;` -/
def readInto (w : ℕ) (set : ℕ → Condition) (condition : Condition) (stream : PropStream) :
    Bool × Condition × PropStream :=
  match stream.read w with
  | (some n, stream) => (true, set n, stream)
  | (none, stream) => (false, condition, stream)

namespace Condition

variable (now : ℤ) (condition : Condition)

/-- `Condition::unserializeProp` -/
def unserializeBaseProp (attr : ConditionAttr_t) (propStream : PropStream) :
    Bool × Condition × PropStream :=
  match attr with
  | CONDITIONATTR_TYPE =>
    readInto 4 (fun n => { condition with conditionType := conditionTypeOf n }) condition
      propStream
  | CONDITIONATTR_ID =>
    readInto 4 (fun n => { condition with id := .ofNat 8 n }) condition propStream
  | CONDITIONATTR_TICKS =>
    readInto 4 (fun n => { condition with ticks := .ofNat 32 n }) condition propStream
  | CONDITIONATTR_ISBUFF =>
    readInto 1 (fun n => { condition with isBuff := n != 0 }) condition propStream
  | CONDITIONATTR_SUBID =>
    readInto 4 (fun n => { condition with subId := .ofNat 32 n }) condition propStream
  | CONDITIONATTR_END => (true, condition, propStream)
  | _ => (false, condition, propStream)

/-- `damageList.push_back(damageInfo)`, and the time of the new round. -/
def pushInterval (d : Damage) (damageInfo : IntervalInfo) : Condition :=
  let condition :=
    { condition with data := .damage { d with damageList := d.damageList ++ [damageInfo] } }
  if condition.ticks ≠ -1 then condition.setTicks now (condition.ticks + damageInfo.interval)
  else condition

/-- The method of the condition's class. -/
def unserializeProp (attr : ConditionAttr_t) (propStream : PropStream) :
    Bool × Condition × PropStream :=
  let setData (data : ConditionClass) : Condition := { condition with data := data }
  match condition.data, attr with
  | .attributes a, CONDITIONATTR_SKILLS =>
    readInto 4 (fun n => setData (.attributes
      { a with
        skills := match skills_t.all[a.currentSkill]? with
          | some i => Function.update a.skills i (.ofNat 32 n)
          | none => a.skills
        currentSkill := a.currentSkill + 1 })) condition propStream
  | .attributes a, CONDITIONATTR_STATS =>
    readInto 4 (fun n => setData (.attributes
      { a with
        stats := match stats_t.all[a.currentStat]? with
          | some i => Function.update a.stats i (.ofNat 32 n)
          | none => a.stats
        currentStat := a.currentStat + 1 })) condition propStream
  | .regeneration r, CONDITIONATTR_HEALTHTICKS =>
    readInto 4 (fun n => setData (.regeneration { r with healthTicks := .ofNat 32 n }))
      condition propStream
  | .regeneration r, CONDITIONATTR_HEALTHGAIN =>
    readInto 4 (fun n => setData (.regeneration { r with healthGain := .ofNat 32 n }))
      condition propStream
  | .regeneration r, CONDITIONATTR_MANATICKS =>
    readInto 4 (fun n => setData (.regeneration { r with manaTicks := .ofNat 32 n }))
      condition propStream
  | .regeneration r, CONDITIONATTR_MANAGAIN =>
    readInto 4 (fun n => setData (.regeneration { r with manaGain := .ofNat 32 n }))
      condition propStream
  | .soul s, CONDITIONATTR_SOULGAIN =>
    readInto 4 (fun n => setData (.soul { s with soulGain := .ofNat 32 n })) condition
      propStream
  | .soul s, CONDITIONATTR_SOULTICKS =>
    readInto 4 (fun n => setData (.soul { s with soulTicks := .ofNat 32 n })) condition
      propStream
  | .damage d, CONDITIONATTR_DELAYED =>
    readInto 1 (fun n => setData (.damage { d with delayed := n != 0 })) condition propStream
  | .damage d, CONDITIONATTR_PERIODDAMAGE =>
    readInto 4 (fun n => setData (.damage { d with periodDamage := .ofNat 32 n })) condition
      propStream
  | .damage _, CONDITIONATTR_OWNER =>
    match propStream.skip 4 with
    | (ret, propStream) => (ret, condition, propStream)
  | .damage d, CONDITIONATTR_INTERVALDATA =>
    match readIntervalInfo propStream with
    | (some damageInfo, propStream) =>
      (true, condition.pushInterval now d damageInfo, propStream)
    | (none, propStream) => (false, condition, propStream)
  | .speed s, CONDITIONATTR_SPEEDDELTA =>
    readInto 4 (fun n => setData (.speed { s with speedDelta := .ofNat 32 n })) condition
      propStream
  | .speed s, CONDITIONATTR_FORMULA_MINA =>
    readInto 4 (fun n => setData (.speed { s with mina := .ofNat 32 n })) condition propStream
  | .speed s, CONDITIONATTR_FORMULA_MINB =>
    readInto 4 (fun n => setData (.speed { s with minb := .ofNat 32 n })) condition propStream
  | .speed s, CONDITIONATTR_FORMULA_MAXA =>
    readInto 4 (fun n => setData (.speed { s with maxa := .ofNat 32 n })) condition propStream
  | .speed s, CONDITIONATTR_FORMULA_MAXB =>
    readInto 4 (fun n => setData (.speed { s with maxb := .ofNat 32 n })) condition propStream
  | .outfit _, CONDITIONATTR_OUTFIT =>
    match readOutfit propStream with
    | (some outfit, propStream) => (true, setData (.outfit outfit), propStream)
    | (none, propStream) => (false, condition, propStream)
  | .light l, CONDITIONATTR_LIGHTCOLOR =>
    readInto 4 (fun n => setData (.light { l with color := .ofNat 8 n })) condition propStream
  | .light l, CONDITIONATTR_LIGHTLEVEL =>
    readInto 4 (fun n => setData (.light { l with level := .ofNat 8 n })) condition propStream
  | .light l, CONDITIONATTR_LIGHTTICKS =>
    readInto 4 (fun n => setData (.light { l with internalLightTicks := .ofNat 32 n }))
      condition propStream
  | .light l, CONDITIONATTR_LIGHTINTERVAL =>
    readInto 4 (fun n => setData (.light { l with lightChangeInterval := .ofNat 32 n }))
      condition propStream
  | _, attr => condition.unserializeBaseProp attr propStream

/-- At most `n` attributes. -/
def unserializeLoop : ℕ → Condition → PropStream → Bool × Condition × PropStream
  | 0, condition, propStream => (true, condition, propStream)
  | _ + 1, condition, [] => (true, condition, [])
  | n + 1, condition, attr_type :: propStream =>
    if attr_type = CONDITIONATTR_END.code then (true, condition, propStream)
    else
      match ofCode attr_type with
      | none => (false, condition, propStream)
      | some attr =>
        match condition.unserializeProp now attr propStream with
        | (true, condition, propStream) => unserializeLoop n condition propStream
        | (false, condition, propStream) => (false, condition, propStream)

/-- Every attribute takes a byte at least. -/
def unserialize (propStream : PropStream) : Bool × Condition × PropStream :=
  unserializeLoop now propStream.length condition propStream

/-- `if (!read<uint8_t>(attr) || attr != ...)` and `if (!read<T>(value))` -/
def readHeader (attr : ConditionAttr_t) (w : ℕ) : PropStream → Option ℕ × PropStream
  | [] => (none, [])
  | attr_type :: propStream =>
    if attr_type ≠ attr.code then (none, propStream) else PropStream.read w propStream

/-- `Condition::createCondition(PropStream&)` -/
def createFromStream (propStream : PropStream) : Option Condition × PropStream :=
  match readHeader CONDITIONATTR_TYPE 4 propStream with
  | (none, propStream) => (none, propStream)
  | (some type, propStream) =>
  match readHeader CONDITIONATTR_ID 4 propStream with
  | (none, propStream) => (none, propStream)
  | (some id, propStream) =>
  match readHeader CONDITIONATTR_TICKS 4 propStream with
  | (none, propStream) => (none, propStream)
  | (some ticks, propStream) =>
  match readHeader CONDITIONATTR_ISBUFF 1 propStream with
  | (none, propStream) => (none, propStream)
  | (some buff, propStream) =>
  match readHeader CONDITIONATTR_SUBID 4 propStream with
  | (none, propStream) => (none, propStream)
  | (some subId, propStream) =>
    (createCondition (.ofNat 8 id) (conditionTypeOf type) (.ofNat 32 ticks) 0 (buff != 0)
      (.ofNat 32 subId), propStream)

end Condition

/-- The loop of `loadPlayer`, with what is in `storedConditionList` already. -/
def loadLoop (now : ℤ) : ℕ → PropStream → List Condition → List Condition × PropStream
  | 0, propStream, stored => (stored, propStream)
  | n + 1, propStream, stored =>
    match Condition.createFromStream propStream with
    | (none, propStream) => (stored, propStream)
    | (some condition, propStream) =>
      match condition.unserialize now propStream with
      | (true, condition, propStream) => loadLoop now n propStream (condition :: stored)
      | (false, _, propStream) => loadLoop now n propStream stored

/-- `storedConditionList`, and what is left of the stream. -/
def loadConditions (now : ℤ) (propStream : PropStream) : List Condition × PropStream :=
  loadLoop now (propStream.length + 1) propStream []

end TibiaServer.Conditions
