import TibiaServer.Conditions.DamageRounds
import TibiaServer.Library.Run
/-!
# Presence and expiry

A condition has its duration twice: `ticks`, where -1 means that it never expires, and
`endTime`, which decides whether it is reported.  They agree where the constructor is what
makes a condition endless.
-/

namespace TibiaServer.Conditions

open Players Condition Library.Run

/-! ## Histories of a creature -/

inductive ConfigCall
  | setParam (param : ConditionParam_t) (value : int32_t)
  | setTicks (now : ℤ) (newTicks : int32_t)

def Condition.configure (condition : Condition) : ConfigCall → Condition
  | .setParam param value => (condition.setParam param value).2
  | .setTicks now newTicks => condition.setTicks now newTicks

/-- How a condition is created and configured. -/
structure Recipe where
  id : ConditionId_t
  type : ConditionType_t
  ticks : int32_t
  param : int32_t
  buff : Bool
  subId : uint32_t
  calls : List ConfigCall

def Recipe.made (recipe : Recipe) : Option Condition :=
  (createCondition recipe.id recipe.type recipe.ticks recipe.param recipe.buff recipe.subId).map
    fun created => recipe.calls.foldl configure created

inductive Event
  | add (env : Env) (recipe : Recipe) (force : Bool)
  | execute (env : Env) (interval : int32_t)
  | remove (env : Env) (removes : Condition → Bool) (force : Bool)

def Creature.step (creature : Creature) : Event → Option Creature
  | .add env recipe force =>
    recipe.made.map fun condition => creature.addCondition env condition force
  | .execute env interval => some (creature.executeConditions env interval)
  | .remove env removes force => some (creature.removeCondition env removes force)

/-! ## Ticks and end -/

section Timed

variable {env : Env} {c a : Condition} {d : Damage}

/-- A condition that never expires has no end. -/
def Timed (c : Condition) : Prop := c.ticks = -1 → c.endTime = INT64_MAX

/-- The rounds that `init` schedules for the values. -/
def generated (env : Env) (d : Damage) (values : List int32_t) : List DamageCall :=
  values.map fun value => ⟨env.now, 1, d.tickInterval, -value⟩

/-- Whatever is generated, the sum of the intervals is no overflow. -/
def GeneratedFits (env : Env) (d : Damage) : Prop :=
  ∀ amount startDamage,
    totalOf (scheduled (generated env d (env.generateDamageList amount startDamage))) < 2 ^ 31

/-- No `setParam` or `setTicks` makes the condition endless. -/
def ConfigCall.LeavesEnd : ConfigCall → Prop
  | .setParam param value => param = .CONDITION_PARAM_TICKS → value ≠ -1
  | .setTicks _ newTicks => newTicks ≠ -1

instance (call : ConfigCall) : Decidable call.LeavesEnd :=
  match call with
  | .setParam param value =>
    inferInstanceAs (Decidable (param = .CONDITION_PARAM_TICKS → value ≠ -1))
  | .setTicks _ newTicks => inferInstanceAs (Decidable (newTicks ≠ -1))

theorem timed_createCondition {id : ConditionId_t} {type : ConditionType_t}
    {ticks param : int32_t} {buff : Bool} {subId : uint32_t}
    (h : createCondition id type ticks param buff subId = some c) : Timed c := by
  have hnew (ticks : int32_t) (data : ConditionClass) :
      Timed (new id type ticks buff subId data) := fun hticks => if_pos hticks
  unfold createCondition at h
  split at h
  all_goals first | exact Option.some.inj h ▸ hnew _ _ | exact nomatch h

theorem setParam_ticks (c : Condition) (param : ConditionParam_t) (value : int32_t) :
    (c.setParam param value).2.ticks = (c.setBaseParam param value).2.ticks ∧
      (c.setParam param value).2.endTime = (c.setBaseParam param value).2.endTime := by
  unfold Condition.setParam
  dsimp only
  split
  · exact ⟨rfl, rfl⟩
  · exact ⟨rfl, rfl⟩
  · exact ⟨rfl, rfl⟩
  · split <;> exact ⟨rfl, rfl⟩
  · split <;> exact ⟨rfl, rfl⟩
  · split <;> exact ⟨rfl, rfl⟩
  · exact ⟨rfl, rfl⟩
  · split <;> exact ⟨rfl, rfl⟩
  · split
    · exact ⟨rfl, rfl⟩
    · split <;> exact ⟨rfl, rfl⟩

theorem Timed.configure (h : Timed c) {call : ConfigCall} (hcall : call.LeavesEnd) :
    Timed (c.configure call) := by
  cases call with
  | setParam param value =>
    obtain ⟨hticks, hend⟩ := setParam_ticks c param value
    rw [Timed, Condition.configure, hticks, hend]
    unfold setBaseParam
    split
    · exact fun hvalue => absurd hvalue (hcall rfl)
    · exact h
    · exact h
    · exact h
  | setTicks now newTicks => exact fun hticks => absurd hticks hcall

theorem timed_made {recipe : Recipe} (h : recipe.made = some c)
    (hcalls : ∀ call ∈ recipe.calls, call.LeavesEnd) : Timed c := by
  obtain ⟨created, hcreate, rfl⟩ := Option.map_eq_some_iff.mp h
  have hcreated := timed_createCondition hcreate
  generalize recipe.calls = calls at hcalls
  clear hcreate h
  induction calls generalizing created with
  | nil => exact hcreated
  | cons call calls ih =>
    obtain ⟨hcall, hcalls⟩ := List.forall_mem_cons.mp hcalls
    exact ih _ (hcreated.configure hcall) hcalls

/-! ### Starting -/

/-- The duration is the one before, or it has an end. -/
def Keeps (c c' : Condition) : Prop :=
  c'.ticks = c.ticks ∧ c'.endTime = c.endTime ∨ c'.ticks ≠ -1

theorem Keeps.rfl : Keeps c c := .inl ⟨Eq.refl _, Eq.refl _⟩

theorem Keeps.trans {c' c'' : Condition} (h : Keeps c c') (h' : Keeps c' c'') : Keeps c c'' := by
  obtain ⟨hticks', hend'⟩ | hlasts' := h'
  · obtain ⟨hticks, hend⟩ | hlasts := h
    · exact .inl ⟨hticks'.trans hticks, hend'.trans hend⟩
    · exact .inr fun hticks => hlasts (hticks'.symm.trans hticks)
  · exact .inr hlasts'

theorem Keeps.timed {c' : Condition} (h : Keeps c c') (hc : Timed c) : Timed c' := by
  obtain ⟨hticks, hend⟩ | hlasts := h
  · exact fun heq => hend.trans (hc (hticks.symm.trans heq))
  · exact fun heq => absurd heq hlasts

theorem keeps_startBase : Keeps c (c.startBase env) := by
  unfold startBase
  split
  next hpos =>
    refine .inr fun hticks => ?_
    change c.ticks = -1 at hticks
    rw [hticks] at hpos
    exact absurd hpos (by decide)
  next => exact Keeps.rfl

theorem keeps_firstDamage : Keeps c (c.firstDamage env).2.1 := by
  have hnext (d : Damage) : Keeps c (c.getNextDamage d).2 := by
    unfold getNextDamage
    split
    · exact Keeps.rfl
    · split
      · split <;> exact .inl ⟨rfl, rfl⟩
      · exact Keeps.rfl
  unfold firstDamage
  split
  next d _ =>
    split
    · exact Keeps.rfl
    · have h := hnext d
      split
      next heq => rwa [heq] at h
      next heq => rwa [heq] at h
  next => exact Keeps.rfl

/-- Rounds that are generated end. -/
theorem foldl_addDamage_ticks (hperiod : d.periodDamage = 0) (hlist : d.damageList = [])
    {startDamage : int32_t} (hdata : c.data = .damage { d with startDamage := startDamage })
    (hticks : c.ticks = 0) (values : List int32_t)
    (hfits : totalOf (scheduled (generated env d values)) < 2 ^ 31) :
    (values.foldl (fun c value => c.addDamage env.now 1 d.tickInterval (-value)) c).ticks ≠ -1 := by
  have hstart : Built env.now c.key { d with startDamage := startDamage } [] c := by
    refine ⟨?_, hticks, rfl, fun h => absurd rfl h⟩
    rw [hdata, ← hlist]
  have hone : 0 ≤ (1 : int32_t).toInt := by decide
  have hcalls : ∀ call ∈ generated env d values, call.now ≤ env.now ∧ 0 ≤ call.rounds.toInt := by
    intro call hmem
    obtain ⟨value, -, rfl⟩ := List.mem_map.mp hmem
    exact ⟨le_refl _, hone⟩
  have hbuilt := hstart.foldl_addDamage hperiod (fun call hmem => (hcalls call hmem).1)
    fun call hmem => (hcalls call hmem).2
  have hfold : values.foldl (fun c value => c.addDamage env.now 1 d.tickInterval (-value)) c =
      (generated env d values).foldl
        (fun c call => c.addDamage call.now call.rounds call.time call.value) c := by
    rw [generated, List.foldl_map]
  have hfresh := fresh_scheduled (generated env d values)
  have htotal := toInt_roundTicks hfresh hfits
  have hnonneg := totalOf_nonneg hfresh
  rw [hfold, hbuilt.ticks]
  intro hend
  rw [hend] at htotal
  change -1 = _ at htotal
  omega

theorem keeps_init (hfits : GeneratedFits env d) : Keeps c (c.init env d).2 := by
  unfold Condition.init
  dsimp only
  split
  next => exact Keeps.rfl
  next hperiod =>
    rw [not_not] at hperiod
    have hzero : (0 : int32_t) ≠ -1 := by decide
    split
    next hlist =>
      split
      next =>
        right
        split
        · exact hzero
        · exact foldl_addDamage_ticks hperiod hlist rfl rfl _ (hfits _ _)
      next =>
        right
        split
        · exact hzero
        · exact foldl_addDamage_ticks hperiod hlist rfl rfl _ (hfits _ _)
    next => exact Keeps.rfl

theorem keeps_of_init {goesOn : Bool} {c' : Condition} (h : c.init env d = (goesOn, c'))
    (hfits : GeneratedFits env d) : Keeps c c' := by
  have hkeeps : Keeps c (c.init env d).2 := keeps_init hfits
  rwa [h] at hkeeps

theorem keeps_startCondition (hfits : ∀ d, c.data = .damage d → GeneratedFits env d) :
    Keeps c (c.startCondition env).2.1 := by
  have hdata : (c.startBase env).data = c.data := by
    unfold startBase
    split <;> rfl
  have hbase : Keeps c (c.startBase env) := keeps_startBase
  have hwith (data : ConditionClass) :
      Keeps c { c.startBase env with data := data } := by
    obtain h | h := hbase
    · exact .inl h
    · exact .inr h
  unfold Condition.startCondition
  dsimp only
  split
  next => exact hbase
  next => exact hbase
  next => exact hbase
  next => exact hbase
  next => exact hbase
  next => exact hwith _
  next d hd =>
    have hfits' := hfits d (hdata.symm.trans hd)
    split
    next heq => exact (hbase.trans (keeps_of_init heq hfits')).trans keeps_firstDamage
    next heq => exact hbase.trans (keeps_of_init heq hfits')
  next =>
    split
    · exact hwith _
    · exact hbase
  next => exact hwith _

/-! ### Being taken in, and executed -/

/-- The condition takes the new duration, unless it stays as it is. -/
theorem Timed.addCondition (h : Timed c) (ha : a.ticks ≠ -1)
    (hfits : ∀ d, a.data = .damage d → GeneratedFits env d) :
    Timed (c.addCondition env a).1 := by
  have hnew (data : ConditionClass) :
      Timed { c.setTicks env.now a.ticks with data := data } := fun hticks => absurd hticks ha
  have hupdated : Timed (c.setTicks env.now a.ticks) := fun hticks => absurd hticks ha
  unfold Condition.addCondition
  dsimp only
  split
  next =>
    split
    · exact hupdated
    · exact h
  next =>
    split
    · exact hupdated
    · exact h
  next =>
    split
    · exact hnew _
    · exact h
  next =>
    split
    · exact hnew _
    · exact h
  next =>
    split
    · exact hnew _
    · exact h
  next d b _ hb =>
    split
    · exact h
    · split
      · exact h
      · split
        next condition heq => exact (keeps_of_init heq (hfits b hb)).timed (hnew _)
        next condition heq =>
          refine ((keeps_of_init heq (hfits b hb)).trans ?_).timed (hnew _)
          refine Keeps.trans ?_ keeps_firstDamage
          split
          · split
            · exact .inl ⟨rfl, rfl⟩
            · exact Keeps.rfl
          · exact Keeps.rfl
  next =>
    split
    · exact h
    · split
      · exact h
      · exact hnew _
  next =>
    split
    · exact hnew _
    · exact h
  next =>
    split
    · exact hnew _
    · exact h
  next => exact h

theorem Timed.executeCondition (h : Timed c) (interval : int32_t) :
    Timed (c.executeCondition env interval).2.1 := by
  have hexecuted := executed_executeCondition env c interval
  intro hticks
  exact hexecuted.endTime.trans (h (hexecuted.endless.mp hticks))

end Timed

/-! ## The conditions of a creature -/

namespace Creature

variable {creature t : Creature} {env : Env}

def AllTimed (creature : Creature) : Prop := ∀ c ∈ creature.conditions, Timed c

/-- The condition on an event: nothing but its constructor makes a condition endless, and one
that is endless is new. -/
def OnlyNewEndless (creature : Creature) : Event → Prop
  | .add env recipe _ =>
    (∀ call ∈ recipe.calls, call.LeavesEnd) ∧
      ∀ condition, recipe.made = some condition →
        (condition.ticks = -1 → KeyFree condition.key creature.conditions) ∧
          ∀ d, condition.data = .damage d → GeneratedFits env d
  | _ => True

theorem timed_addToPrev {a : Condition} {conditions conditions' : List Condition}
    {done : List Done} (ha : a.ticks ≠ -1)
    (hfits : ∀ d, a.data = .damage d → GeneratedFits env d) (h : ∀ c ∈ conditions, Timed c)
    (hadd : addToPrev env a conditions = some (conditions', done)) :
    ∀ c ∈ conditions', Timed c := by
  induction conditions generalizing conditions' done with
  | nil => exact nomatch hadd
  | cons prevCond rest ih =>
    obtain ⟨hprev, hrest⟩ := List.forall_mem_cons.mp h
    rw [addToPrev] at hadd
    split at hadd
    · cases hadd
      exact List.forall_mem_cons.mpr ⟨hprev.addCondition ha hfits, hrest⟩
    · obtain ⟨⟨rest', done'⟩, hrest', heq⟩ := Option.map_eq_some_iff.mp hadd
      cases heq
      exact List.forall_mem_cons.mpr ⟨hprev, ih hrest hrest'⟩

theorem AllTimed.addCondition (h : creature.AllTimed) {a : Condition} (ha : Timed a)
    (hnew : a.ticks = -1 → KeyFree a.key creature.conditions)
    (hfits : ∀ d, a.data = .damage d → GeneratedFits env d) (force : Bool) :
    (creature.addCondition env a force).AllTimed := by
  unfold Creature.addCondition
  split
  next => exact h
  next =>
    split
    next conditions done heq =>
      refine timed_addToPrev (fun hticks => ?_) hfits h heq
      rw [addToPrev_keyFree env a (hnew hticks)] at heq
      exact nomatch heq
    next =>
      have hstarted : Timed (a.startCondition env).2.1 := (keeps_startCondition hfits).timed ha
      split
      next added started damages heq =>
        rw [heq] at hstarted
        intro c hmem
        dsimp only at hmem
        split at hmem
        · obtain hmem | hmem := List.mem_append.mp hmem
          · exact h c hmem
          · exact List.mem_singleton.mp hmem ▸ hstarted
        · exact h c hmem

theorem AllTimed.executeConditions (h : creature.AllTimed) (interval : int32_t) :
    (creature.executeConditions env interval).AllTimed := by
  obtain ⟨conditions, done⟩ := creature
  change ∀ c ∈ (executeLoop env interval conditions).1, Timed c
  induction conditions with
  | nil => exact h
  | cons c rest ih =>
    obtain ⟨hc, hrest⟩ := List.forall_mem_cons.mp h
    rw [executeLoop]
    dsimp only
    split
    · exact List.forall_mem_cons.mpr ⟨hc.executeCondition interval, ih hrest⟩
    · exact ih hrest

theorem removeLoop_sublist (removes : Condition → Bool) (stops : Bool)
    (conditions : List Condition) :
    (removeLoop removes stops conditions).Sublist conditions := by
  induction conditions with
  | nil => exact List.Sublist.refl []
  | cons c rest ih =>
    rw [removeLoop]
    split
    · exact ih.cons_cons c
    · split
      · exact List.Sublist.refl _
      · exact ih.cons c

theorem AllTimed.step (h : creature.AllTimed) {event : Event} (hmeets : creature.OnlyNewEndless event)
    (hstep : creature.step event = some t) : t.AllTimed := by
  cases event with
  | add env recipe force =>
    obtain ⟨condition, hmade, rfl⟩ := Option.map_eq_some_iff.mp hstep
    obtain ⟨hnew, hfits⟩ := hmeets.2 condition hmade
    exact h.addCondition (timed_made hmade hmeets.1) hnew hfits force
  | execute env interval =>
    obtain rfl := Option.some.inj hstep
    exact h.executeConditions interval
  | remove env removes force =>
    obtain rfl := Option.some.inj hstep
    exact fun c hmem => h c ((removeLoop_sublist _ _ _).subset hmem)

/-! ### What is reported -/

/-- Whatever the time is, a condition that is not suppressed is reported exactly when there is
one that `executeConditions` would keep then. -/
def PresentIffKept (creature : Creature) : Prop :=
  ∀ (env : Env) (interval : int32_t) (type : ConditionType_t) (subId : uint32_t),
    env.now ≤ INT64_MAX → env.isSuppress type = false →
      (creature.hasCondition env type subId = true ↔ ∃ c ∈ creature.conditions,
        c.conditionType = type ∧ c.subId = subId ∧ (c.executeCondition env interval).1 = true)

theorem AllTimed.presentIffKept (h : creature.AllTimed) : creature.PresentIffKept := by
  intro env interval type subId hnow hsuppress
  have hends (c : Condition) (hmem : c ∈ creature.conditions) :
      (c.executeCondition env interval).1 = true ↔ env.now ≤ c.endTime := by
    rw [(executed_executeCondition env c interval).goesOn]
    refine or_iff_right_of_imp fun hticks => ?_
    rw [h c hmem hticks]
    exact hnow
  unfold hasCondition
  rw [hsuppress, Bool.not_false, Bool.true_and, List.any_eq_true]
  constructor
  · rintro ⟨c, hmem, hc⟩
    simp only [Bool.and_eq_true, decide_eq_true_eq] at hc
    exact ⟨c, hmem, hc.1.1, hc.1.2, (hends c hmem).mpr hc.2⟩
  · rintro ⟨c, hmem, htype, hsubId, hkept⟩
    refine ⟨c, hmem, ?_⟩
    simp only [Bool.and_eq_true, decide_eq_true_eq]
    exact ⟨⟨htype, hsubId⟩, (hends c hmem).mp hkept⟩

end Creature

end TibiaServer.Conditions
