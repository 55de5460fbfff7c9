import TibiaServer.Conditions.Serialize
/-!
# Conditions come back after a logout

What a class writes, it reads again field by field.  The header is read by a function of its
own, which creates the condition; a damage condition gets its time from its rounds then, not
from the header.
-/

namespace TibiaServer.Conditions

open Players IOMapSerialize Library.Bytes
open ConditionAttr_t Condition

section Reads

variable {now : ℤ} {c c' c'' : Condition} {bytes bytes' body : List UInt8}

/-- The condition passes `bytes`, and is `c'` then. -/
def Reads (now : ℤ) (bytes : List UInt8) (c c' : Condition) : Prop :=
  ∃ k, k ≤ bytes.length ∧ ∀ n rest,
    unserializeLoop now (n + k) c (bytes ++ rest) = unserializeLoop now n c' rest

theorem Reads.nil (now : ℤ) (c : Condition) : Reads now [] c c :=
  ⟨0, Nat.le_refl 0, fun _ _ => rfl⟩

theorem Reads.append (h : Reads now bytes c c') (h' : Reads now bytes' c' c'') :
    Reads now (bytes ++ bytes') c c'' := by
  obtain ⟨k, hk, hreads⟩ := h
  obtain ⟨k', hk', hreads'⟩ := h'
  refine ⟨k' + k, by rw [List.length_append]; omega, fun n rest => ?_⟩
  calc
    _ = unserializeLoop now (n + k' + k) c (bytes ++ (bytes' ++ rest)) := by
        rw [List.append_assoc, Nat.add_assoc]
    _ = unserializeLoop now (n + k') c' (bytes' ++ rest) := hreads _ _
    _ = unserializeLoop now n c'' rest := hreads' n rest

theorem Reads.attr {attr : ConditionAttr_t} (hattr : attr ≠ CONDITIONATTR_END)
    (h : ∀ rest, c.unserializeProp now attr (body ++ rest) = (true, c', rest)) :
    Reads now (writeAttr attr body) c c' := by
  refine ⟨1, by simp [writeAttr], fun n rest => ?_⟩
  have hcode : attr.code ≠ CONDITIONATTR_END.code := by
    intro heq
    have hof := congrArg ofCode heq
    rw [ofCode_code, ofCode_code] at hof
    exact hattr (Option.some.inj hof)
  rw [writeAttr, List.cons_append, unserializeLoop, if_neg hcode, ofCode_code]
  dsimp only
  rw [h rest]

/-- A list of values that are read one after the other; `state` says what the condition is
when those in front have been read. -/
theorem Reads.flatMap {ι : Type*} {f : ι → List UInt8} (now : ℤ) (state : List ι → Condition)
    {l : List ι}
    (h : ∀ done i rest, done ++ i :: rest = l → Reads now (f i) (state done) (state (done ++ [i]))) :
    Reads now (l.flatMap f) (state []) (state l) := by
  have hsuffix (done rest : List ι) (hl : done ++ rest = l) :
      Reads now (rest.flatMap f) (state done) (state l) := by
    induction rest generalizing done with
    | nil =>
      rw [← hl, List.append_nil]
      exact Reads.nil now _
    | cons i rest ih =>
      have hrest := ih (done ++ [i]) (by rw [List.append_assoc]; exact hl)
      exact (h done i rest hl).append hrest
  exact hsuffix [] l rfl

theorem Reads.unserialize (h : Reads now bytes c c') (rest : List UInt8) :
    c.unserialize now (bytes ++ CONDITIONATTR_END.code :: rest) = (true, c', rest) := by
  obtain ⟨k, hk, hreads⟩ := h
  have hlength : (bytes ++ CONDITIONATTR_END.code :: rest).length =
      bytes.length - k + rest.length + 1 + k := by
    rw [List.length_append, List.length_cons]
    omega
  rw [Condition.unserialize, hlength, hreads, unserializeLoop, if_pos rfl]

end Reads

/-! ## Single values -/

section Values

variable {w n : ℕ}

theorem toNat_lt_pow (x : BitVec n) (h : n ≤ 8 * w) : x.toNat < 256 ^ w :=
  calc
    x.toNat < 2 ^ n := x.isLt
    _ ≤ 2 ^ (8 * w) := Nat.pow_le_pow_right (by decide) h
    _ = 256 ^ w := by rw [Nat.pow_mul]

theorem read_writeBits (x : BitVec n) (h : n ≤ 8 * w) (rest : PropStream) :
    PropStream.read w (writeBits w x ++ rest) = (some x.toNat, rest) :=
  PropStream.read_write_of_lt (toNat_lt_pow x h) rest

theorem takeBits_writeBits (x : BitVec n) (h : n ≤ 8 * w) (rest : PropStream) :
    takeBits w n (writeBits w x ++ rest) = (x, rest) := by
  have htake : (write w x.toNat ++ rest).take w = write w x.toNat :=
    List.take_left' (PropStream.length_write w _)
  have hdrop : (write w x.toNat ++ rest).drop w = rest :=
    List.drop_left' (PropStream.length_write w _)
  rw [takeBits, writeBits, htake, hdrop, write, ofBytes_toBytes_of_lt (toNat_lt_pow x h),
    BitVec.ofNat_toNat, BitVec.setWidth_eq]

theorem readInto_writeBits (x : BitVec n) (h : n ≤ 8 * w) (set : ℕ → Condition)
    (c : Condition) (rest : PropStream) :
    readInto w set c (writeBits w x ++ rest) = (true, set x.toNat, rest) := by
  rw [readInto, read_writeBits x h]

theorem read_writeBool (x : Bool) (rest : PropStream) :
    PropStream.read 1 (writeBool x ++ rest) = (some x.toNat, rest) :=
  PropStream.read_write_of_lt (by cases x <;> decide) rest

theorem readInto_writeBool (x : Bool) (set : ℕ → Condition) (c : Condition)
    (rest : PropStream) : readInto 1 set c (writeBool x ++ rest) = (true, set x.toNat, rest) := by
  rw [readInto, read_writeBool]

theorem toNat_bne_zero (x : Bool) : (x.toNat != 0) = x := by
  cases x <;> rfl

theorem length_writeBits (x : BitVec n) : (writeBits w x).length = w :=
  PropStream.length_write w _

theorem readIntervalInfo_write (info : IntervalInfo) (rest : PropStream) :
    readIntervalInfo (writeIntervalInfo info ++ rest) = (some info, rest) := by
  have hlength : ¬(writeIntervalInfo info ++ rest).length < 12 := by
    simp only [writeIntervalInfo, List.length_append, length_writeBits]
    omega
  rw [readIntervalInfo, if_neg hlength]
  simp (disch := decide) only [writeIntervalInfo, List.append_assoc, takeBits_writeBits]

theorem readOutfit_write (outfit : Outfit_t) (rest : PropStream) :
    readOutfit (writeOutfit outfit ++ rest) = (some outfit, rest) := by
  have hlength : ¬(writeOutfit outfit ++ rest).length < 12 := by
    simp only [writeOutfit, List.length_append, length_writeBits]
    omega
  rw [readOutfit, if_neg hlength]
  simp (disch := decide) only [writeOutfit, List.append_assoc, takeBits_writeBits]

end Values

/-! ## The fields of a class -/

section Classes

variable {now : ℤ} {c c' : Condition} {attr : ConditionAttr_t} {set : ℕ → Condition} {w n : ℕ}

theorem Reads.bits (hattr : attr ≠ CONDITIONATTR_END) (x : BitVec n) (h : n ≤ 8 * w)
    (hprop : ∀ stream, c.unserializeProp now attr stream = readInto w set c stream)
    (hset : set x.toNat = c') : Reads now (writeAttr attr (writeBits w x)) c c' :=
  Reads.attr hattr fun rest =>
    hset ▸ (hprop _).trans (readInto_writeBits x h set c rest)

theorem Reads.bool (hattr : attr ≠ CONDITIONATTR_END) (x : Bool)
    (hprop : ∀ stream, c.unserializeProp now attr stream = readInto 1 set c stream)
    (hset : set x.toNat = c') : Reads now (writeAttr attr (writeBool x)) c c' :=
  Reads.attr hattr fun rest => hset ▸ (hprop _).trans (readInto_writeBool x set c rest)

/-- The class fields of a condition that has just been created. -/
def ConditionClass.created (ticksParam : int32_t) : ConditionClass → ConditionClass
  | .generic => .generic
  | .attributes _ => .attributes {}
  | .regeneration _ => .regeneration {}
  | .soul _ => .soul {}
  | .invisible => .invisible
  | .damage _ => .damage {}
  | .speed _ => .speed { speedDelta := ticksParam }
  | .outfit _ => .outfit {}
  | .light _ => .light
      { level := ticksParam.setWidth 8, color := (ticksParam >>> 8).setWidth 8 }

/-- The class fields that are stored; the others are as in a new condition. -/
def ConditionClass.restored : ConditionClass → ConditionClass
  | .attributes a => .attributes
      { skills := a.skills, stats := a.stats
        currentSkill := skills_t.all.length, currentStat := stats_t.all.length }
  | .regeneration r => .regeneration { r with internalHealthTicks := 0, internalManaTicks := 0 }
  | .soul s => .soul { s with internalSoulTicks := 0 }
  | .damage d => .damage
      { delayed := d.delayed, periodDamage := d.periodDamage, damageList := d.damageList }
  | data => data

theorem reads_regeneration (now : ℤ) (c : Condition) (r : Regeneration) :
    Reads now (ConditionClass.regeneration r).serialize { c with data := .regeneration {} }
      { c with data := (ConditionClass.regeneration r).restored } := by
  unfold ConditionClass.serialize
  refine Reads.append (Reads.bits (by decide) _ (by decide) (fun _ => rfl) rfl) ?_
  refine Reads.append (Reads.bits (by decide) _ (by decide) (fun _ => rfl) rfl) ?_
  refine Reads.append (Reads.bits (by decide) _ (by decide) (fun _ => rfl) rfl) ?_
  refine Reads.bits (by decide) _ (by decide) (fun _ => rfl) ?_
  simp [ConditionClass.restored]

theorem reads_soul (now : ℤ) (c : Condition) (s : Soul) :
    Reads now (ConditionClass.soul s).serialize { c with data := .soul {} }
      { c with data := (ConditionClass.soul s).restored } := by
  unfold ConditionClass.serialize
  refine Reads.append (Reads.bits (by decide) _ (by decide) (fun _ => rfl) rfl) ?_
  refine Reads.bits (by decide) _ (by decide) (fun _ => rfl) ?_
  simp [ConditionClass.restored]

theorem reads_speed (now : ℤ) (c : Condition) (s : Speed) (param : int32_t) :
    Reads now (ConditionClass.speed s).serialize { c with data := .speed { speedDelta := param } }
      { c with data := (ConditionClass.speed s).restored } := by
  unfold ConditionClass.serialize
  refine Reads.append (Reads.bits (by decide) _ (by decide) (fun _ => rfl) rfl) ?_
  refine Reads.append (Reads.bits (by decide) _ (by decide) (fun _ => rfl) rfl) ?_
  refine Reads.append (Reads.bits (by decide) _ (by decide) (fun _ => rfl) rfl) ?_
  refine Reads.append (Reads.bits (by decide) _ (by decide) (fun _ => rfl) rfl) ?_
  refine Reads.bits (by decide) _ (by decide) (fun _ => rfl) ?_
  simp [ConditionClass.restored]

theorem reads_outfit (now : ℤ) (c : Condition) (o o' : Outfit_t) :
    Reads now (ConditionClass.outfit o).serialize { c with data := .outfit o' }
      { c with data := (ConditionClass.outfit o).restored } := by
  refine Reads.attr (by decide) fun rest => ?_
  simp only [unserializeProp, readOutfit_write]
  rfl

/-- A color and a level are written with four bytes. -/
theorem reads_light (now : ℤ) (c : Condition) (l l' : Light) :
    Reads now (ConditionClass.light l).serialize { c with data := .light l' }
      { c with data := (ConditionClass.light l).restored } := by
  unfold ConditionClass.serialize
  refine Reads.append (Reads.bits (by decide) _ (by decide) (fun _ => rfl) rfl) ?_
  refine Reads.append (Reads.bits (by decide) _ (by decide) (fun _ => rfl) rfl) ?_
  refine Reads.append (Reads.bits (by decide) _ (by decide) (fun _ => rfl) rfl) ?_
  refine Reads.bits (by decide) _ (by decide) (fun _ => rfl) ?_
  simp [ConditionClass.restored]

/-- The condition when it has read the skills `done`. -/
def skillsRead (c : Condition) (a : Attributes) (done : List skills_t) : Condition :=
  { c with
    data := .attributes
      { skills := fun i => if i ∈ done then a.skills i else 0, currentSkill := done.length } }

/-- The condition when it has read all skills, and the stats `done`. -/
def statsRead (c : Condition) (a : Attributes) (done : List stats_t) : Condition :=
  { c with
    data := .attributes
      { skills := a.skills, currentSkill := skills_t.all.length
        stats := fun i => if i ∈ done then a.stats i else 0, currentStat := done.length } }

theorem update_prefix {ι : Type*} [DecidableEq ι] (f : ι → int32_t) (done : List ι) (i : ι) :
    Function.update (fun j => if j ∈ done then f j else 0) i (f i) =
      fun j => if j ∈ done ++ [i] then f j else 0 := by
  ext1 j
  by_cases hj : j = i
  · subst hj
    simp
  · simp [hj]

theorem reads_skill (now : ℤ) (c : Condition) (a : Attributes) (done : List skills_t)
    (i : skills_t) (rest : List skills_t) (hl : done ++ i :: rest = skills_t.all) :
    Reads now (writeAttr CONDITIONATTR_SKILLS (writeBits 4 (a.skills i))) (skillsRead c a done)
      (skillsRead c a (done ++ [i])) := by
  have hindex : skills_t.all[done.length]? = some i := by
    rw [← hl]
    simp
  refine Reads.bits (by decide) _ (by decide) (fun _ => rfl) ?_
  simp only [skillsRead, hindex, BitVec.ofNat_toNat, BitVec.setWidth_eq, update_prefix,
    List.length_append, List.length_singleton]

theorem reads_stat (now : ℤ) (c : Condition) (a : Attributes) (done : List stats_t)
    (i : stats_t) (rest : List stats_t) (hl : done ++ i :: rest = stats_t.all) :
    Reads now (writeAttr CONDITIONATTR_STATS (writeBits 4 (a.stats i))) (statsRead c a done)
      (statsRead c a (done ++ [i])) := by
  have hindex : stats_t.all[done.length]? = some i := by
    rw [← hl]
    simp
  refine Reads.bits (by decide) _ (by decide) (fun _ => rfl) ?_
  simp only [statsRead, hindex, BitVec.ofNat_toNat, BitVec.setWidth_eq, update_prefix,
    List.length_append, List.length_singleton]

theorem skillsRead_all (c : Condition) (a : Attributes) :
    skillsRead c a skills_t.all = statsRead c a [] := by
  have hskills : (fun i => if i ∈ skills_t.all then a.skills i else 0) = a.skills := by
    ext1 i
    cases i <;> rfl
  simp only [skillsRead, statsRead, hskills]
  rfl

theorem statsRead_all (c : Condition) (a : Attributes) :
    statsRead c a stats_t.all = { c with data := (ConditionClass.attributes a).restored } := by
  have hstats : (fun i => if i ∈ stats_t.all then a.stats i else 0) = a.stats := by
    ext1 i
    cases i <;> rfl
  simp only [statsRead, hstats, ConditionClass.restored]

theorem reads_attributes (now : ℤ) (c : Condition) (a : Attributes) :
    Reads now (ConditionClass.attributes a).serialize { c with data := .attributes {} }
      { c with data := (ConditionClass.attributes a).restored } := by
  have hskills := Reads.flatMap now (skillsRead c a) (reads_skill now c a)
  have hstats := Reads.flatMap now (statsRead c a) (reads_stat now c a)
  rw [skillsRead_all] at hskills
  rw [statsRead_all] at hstats
  exact hskills.append hstats

/-! ## Damage -/

/-- The ticks and the end time after the rounds `list` have been read. -/
def damageTime (now : ℤ) (list : List IntervalInfo) : int32_t × ℤ :=
  list.foldl (fun (ticks, endTime) info =>
    if ticks ≠ -1 then (ticks + info.interval, (ticks + info.interval).toInt + now)
    else (ticks, endTime)) (0, 0)

/-- The condition when it has read the rounds `done`. -/
def roundsRead (now : ℤ) (c : Condition) (d : Damage) (done : List IntervalInfo) : Condition :=
  { c with
    ticks := (damageTime now done).1
    endTime := (damageTime now done).2
    data := .damage
      { delayed := d.delayed, periodDamage := d.periodDamage, damageList := done } }

theorem reads_round (now : ℤ) (c : Condition) (d : Damage) (done : List IntervalInfo)
    (info : IntervalInfo) : Reads now
      (writeAttr CONDITIONATTR_INTERVALDATA (writeIntervalInfo info)) (roundsRead now c d done)
      (roundsRead now c d (done ++ [info])) := by
  refine Reads.attr (by decide) fun rest => ?_
  have hprop : (roundsRead now c d done).unserializeProp now CONDITIONATTR_INTERVALDATA
      (writeIntervalInfo info ++ rest) =
        (true, (roundsRead now c d done).pushInterval now
          { delayed := d.delayed, periodDamage := d.periodDamage, damageList := done } info,
          rest) := by
    simp only [unserializeProp, roundsRead, readIntervalInfo_write]
  have htime : damageTime now (done ++ [info]) =
      if (damageTime now done).1 ≠ -1 then
        ((damageTime now done).1 + info.interval,
          ((damageTime now done).1 + info.interval).toInt + now)
      else damageTime now done := by
    rw [damageTime, List.foldl_append]
    rfl
  rw [hprop, pushInterval, roundsRead, roundsRead, htime]
  split
  · rfl
  · rfl

theorem reads_damage (now : ℤ) (c : Condition) (d : Damage) (hticks : c.ticks = 0)
    (hend : c.endTime = 0) :
    Reads now (ConditionClass.damage d).serialize { c with data := .damage {} }
      { c with
        ticks := (damageTime now d.damageList).1
        endTime := (damageTime now d.damageList).2
        data := (ConditionClass.damage d).restored } := by
  have hrounds := Reads.flatMap now (l := d.damageList) (roundsRead now c d)
    fun done info _ _ => reads_round now c d done info
  unfold ConditionClass.serialize
  refine Reads.append (Reads.bool (by decide) _ (fun _ => rfl) rfl) ?_
  refine Reads.append (Reads.bits (by decide) _ (by decide) (fun _ => rfl) ?_) hrounds
  simp [roundsRead, damageTime, hticks, hend]

/-! ## Whole conditions -/

/-- The class is the one that the type of a condition has. -/
def ConditionClass.fits : ConditionClass → ConditionType_t → Bool
  | .damage _, .CONDITION_POISON | .damage _, .CONDITION_FIRE | .damage _, .CONDITION_ENERGY
  | .damage _, .CONDITION_DROWN | .damage _, .CONDITION_FREEZING | .damage _, .CONDITION_DAZZLED
  | .damage _, .CONDITION_CURSED | .damage _, .CONDITION_BLEEDING => true
  | .speed _, .CONDITION_HASTE | .speed _, .CONDITION_PARALYZE => true
  | .invisible, .CONDITION_INVISIBLE => true
  | .outfit _, .CONDITION_OUTFIT => true
  | .light _, .CONDITION_LIGHT => true
  | .regeneration _, .CONDITION_REGENERATION => true
  | .soul _, .CONDITION_SOUL => true
  | .attributes _, .CONDITION_ATTRIBUTES => true
  | .generic, .CONDITION_INFIGHT | .generic, .CONDITION_DRUNK
  | .generic, .CONDITION_EXHAUST_WEAPON | .generic, .CONDITION_EXHAUST_COMBAT
  | .generic, .CONDITION_EXHAUST_HEAL | .generic, .CONDITION_MUTED
  | .generic, .CONDITION_CHANNELMUTEDTICKS | .generic, .CONDITION_YELLTICKS
  | .generic, .CONDITION_PACIFIED | .generic, .CONDITION_MANASHIELD => true
  | _, _ => false

def ConditionClass.isDamage : ConditionClass → Bool
  | .damage _ => true
  | _ => false

theorem createCondition_of_fits {data : ConditionClass} {type : ConditionType_t}
    (h : data.fits type) (id : ConditionId_t) (ticks param : int32_t) (buff : Bool)
    (subId : uint32_t) : createCondition id type ticks param buff subId =
      some (new id type (if data.isDamage then 0 else ticks) buff subId (data.created param)) := by
  cases type <;> cases data <;> first | rfl | cases h

/-- A condition as it comes back. -/
def Condition.restored (now : ℤ) (c : Condition) : Condition :=
  match c.data with
  | .damage d =>
    { c with
      ticks := (damageTime now d.damageList).1
      endTime := (damageTime now d.damageList).2
      data := c.data.restored }
  | _ => { c with endTime := 0, data := c.data.restored }

theorem reads_class (now : ℤ) (hticks : c.ticks ≠ -1) :
    Reads now c.data.serialize
      (new c.id c.conditionType (if c.data.isDamage then 0 else c.ticks) c.isBuff c.subId
        (c.data.created 0)) (c.restored now) := by
  obtain ⟨endTime, subId, ticks, type, id, isBuff, data⟩ := c
  dsimp only at hticks ⊢
  -- a condition with the header of this one
  have hnew (ticks : int32_t) (hticks : ticks ≠ -1) (data : ConditionClass) :
      new id type ticks isBuff subId data = ⟨0, subId, ticks, type, id, isBuff, data⟩ := by
    rw [new, if_neg hticks]
  have hstart : (if data.isDamage then 0 else ticks) ≠ -1 := by
    split
    · decide
    · exact hticks
  rw [hnew _ hstart]
  let header (ticks : int32_t) : Condition := ⟨0, subId, ticks, type, id, isBuff, .generic⟩
  cases data with
  | generic => exact Reads.nil now _
  | attributes a => exact reads_attributes now (header ticks) a
  | regeneration r => exact reads_regeneration now (header ticks) r
  | soul s => exact reads_soul now (header ticks) s
  | invisible => exact Reads.nil now _
  | damage d => exact reads_damage now (header 0) d rfl rfl
  | speed s => exact reads_speed now (header ticks) s 0
  | outfit o => exact reads_outfit now (header ticks) o {}
  | light l => exact reads_light now (header ticks) l _

end Classes

/-! ## The header -/

theorem readHeader_writeAttr (attr : ConditionAttr_t) (w : ℕ) (body rest : List UInt8) :
    readHeader attr w (writeAttr attr body ++ rest) = PropStream.read w (body ++ rest) := by
  rw [writeAttr, List.cons_append, readHeader, if_neg (by simp)]

theorem setWidth_signExtend (id : ConditionId_t) : (id.signExtend 32).setWidth 8 = id := by
  revert id
  decide

theorem createFromStream_serializeBase (c : Condition) (rest : List UInt8) :
    createFromStream (c.serializeBase ++ rest) =
      (createCondition c.id c.conditionType c.ticks 0 c.isBuff c.subId, rest) := by
  simp (disch := decide) only [serializeBase, List.append_assoc, createFromStream,
    readHeader_writeAttr, PropStream.read_write_of_lt (conditionTypeCode_lt _),
    conditionTypeOf_code, read_writeBits, read_writeBool, setWidth_signExtend,
    toNat_bne_zero, BitVec.ofNat_toNat, BitVec.setWidth_eq]

theorem restored_of_fits (now : ℤ) {c : Condition} (hfits : c.data.fits c.conditionType)
    (hpersistent : c.isPersistent) (rest : List UInt8) : ∃ new,
      createFromStream (c.serializeBase ++ rest) = (some new, rest) ∧
        Reads now c.data.serialize new (c.restored now) := by
  have hticks : c.ticks ≠ -1 := by
    intro h
    simp [isPersistent, h] at hpersistent
  refine ⟨_, ?_, reads_class now hticks⟩
  rw [createFromStream_serializeBase, createCondition_of_fits hfits]

/-! ## The loops -/

/-- What is loaded when the conditions are in front of `rest`. -/
theorem loadLoop_saveConditions (now : ℤ) (conditions : List Condition)
    (hfits : ∀ c ∈ conditions, c.data.fits c.conditionType)
    (hpersistent : ∀ c ∈ conditions, c.isPersistent) (n : ℕ) (stored : List Condition) :
    loadLoop now (conditions.length + n + 1) (conditions.flatMap fun c =>
        c.serialize ++ [CONDITIONATTR_END.code]) stored =
      ((conditions.map fun c => c.restored now).reverse ++ stored, []) := by
  induction conditions generalizing stored with
  | nil => rfl
  | cons c conditions ih =>
    obtain ⟨new, hcreate, hreads⟩ := restored_of_fits now (hfits c List.mem_cons_self)
      (hpersistent c List.mem_cons_self) (c.data.serialize ++ (CONDITIONATTR_END.code ::
        conditions.flatMap fun c => c.serialize ++ [CONDITIONATTR_END.code]))
    have hrest := ih (fun c' hc' => hfits c' (List.mem_cons_of_mem _ hc'))
      (fun c' hc' => hpersistent c' (List.mem_cons_of_mem _ hc')) (c.restored now :: stored)
    have hstream : (c :: conditions).flatMap (fun c =>
        c.serialize ++ [CONDITIONATTR_END.code]) =
          c.serializeBase ++ (c.data.serialize ++ (CONDITIONATTR_END.code ::
            conditions.flatMap fun c => c.serialize ++ [CONDITIONATTR_END.code])) := by
      simp [serialize]
    have hlength : (c :: conditions).length + n + 1 = conditions.length + n + 1 + 1 := by
      rw [List.length_cons]
      omega
    rw [hlength, hstream, loadLoop, hcreate]
    dsimp only
    rw [hreads.unserialize]
    dsimp only
    rw [hrest]
    simp

/-! ## What comes back -/

/-- The ticks that the rounds of a damage condition add up to. -/
def roundTicks (list : List IntervalInfo) : int32_t :=
  list.foldl (fun ticks info => if ticks ≠ -1 then ticks + info.interval else ticks) 0

theorem damageTime_ticks (now : ℤ) (list : List IntervalInfo) :
    (damageTime now list).1 = roundTicks list := by
  induction list using List.reverseRecOn with
  | nil => rfl
  | append_singleton list info ih =>
    rw [damageTime, roundTicks, List.foldl_append, List.foldl_append] at *
    dsimp only [List.foldl_cons, List.foldl_nil]
    rw [← ih]
    split <;> rfl

/-- The parameters of the class are the same; counters, percentages and what a damage
condition was made from are not stored. -/
def SameParameters : ConditionClass → ConditionClass → Prop
  | .generic, .generic => True
  | .attributes a, .attributes b => b.skills = a.skills ∧ b.stats = a.stats
  | .regeneration a, .regeneration b =>
    b.healthTicks = a.healthTicks ∧ b.healthGain = a.healthGain ∧ b.manaTicks = a.manaTicks ∧
      b.manaGain = a.manaGain
  | .soul a, .soul b => b.soulTicks = a.soulTicks ∧ b.soulGain = a.soulGain
  | .invisible, .invisible => True
  | .damage a, .damage b =>
    b.delayed = a.delayed ∧ b.periodDamage = a.periodDamage ∧ b.damageList = a.damageList
  | .speed a, .speed b => b = a
  | .outfit a, .outfit b => b = a
  | .light a, .light b => b = a
  | _, _ => False

structure ComesBack (c r : Condition) : Prop where
  conditionType : r.conditionType = c.conditionType
  id : r.id = c.id
  subId : r.subId = c.subId
  isBuff : r.isBuff = c.isBuff
  ticks : r.ticks = match c.data with
    | .damage d => roundTicks d.damageList
    | _ => c.ticks
  parameters : SameParameters c.data r.data

theorem comesBack_restored (now : ℤ) (c : Condition) : ComesBack c (c.restored now) := by
  obtain ⟨endTime, subId, ticks, type, id, isBuff, data⟩ := c
  cases data with
  | generic => exact ⟨rfl, rfl, rfl, rfl, rfl, trivial⟩
  | attributes a => exact ⟨rfl, rfl, rfl, rfl, rfl, rfl, rfl⟩
  | regeneration r => exact ⟨rfl, rfl, rfl, rfl, rfl, rfl, rfl, rfl, rfl⟩
  | soul s => exact ⟨rfl, rfl, rfl, rfl, rfl, rfl, rfl⟩
  | invisible => exact ⟨rfl, rfl, rfl, rfl, rfl, trivial⟩
  | damage d => exact ⟨rfl, rfl, rfl, rfl, damageTime_ticks now d.damageList, rfl, rfl, rfl⟩
  | speed s => exact ⟨rfl, rfl, rfl, rfl, rfl, rfl⟩
  | outfit o => exact ⟨rfl, rfl, rfl, rfl, rfl, rfl⟩
  | light l => exact ⟨rfl, rfl, rfl, rfl, rfl, rfl⟩

theorem length_le_saveConditions (conditions : List Condition) : conditions.length ≤
    (conditions.flatMap fun c => c.serialize ++ [CONDITIONATTR_END.code]).length := by
  induction conditions with
  | nil => exact Nat.le_refl 0
  | cons c conditions ih =>
    rw [List.flatMap_cons, List.length_append, List.length_append, List.length_cons,
      List.length_singleton]
    omega

/-- A fire that has one second of its two left, and a drunkenness. -/
def burningAndDrunk : List Condition :=
  [⟨0, 0, 1000, .CONDITION_FIRE, CONDITIONID_COMBAT, false,
      .damage { damageList := [⟨1000, -10, 2000⟩] }⟩,
    ⟨0, 0, 5000, .CONDITION_DRUNK, CONDITIONID_DEFAULT, false, .generic⟩]

end TibiaServer.Conditions
