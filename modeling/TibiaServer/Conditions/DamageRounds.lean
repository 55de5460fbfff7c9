import Mathlib.Algebra.Order.Ring.Int
import TibiaServer.Conditions.Creature
import TibiaServer.Conditions.StoredConditions
/-!
# Rounds of damage

The rounds of a damage condition are counted down in steps of a second, and its end is the
sum of their intervals.  A round whose interval is no whole number of seconds takes longer
than that, and the end may come before the last rounds.
-/

namespace TibiaServer.Conditions

open Players Condition

/-! ## Rounds that are counted down -/

/-- How often the creature thinks until the round is over. -/
def IntervalInfo.thinks (info : IntervalInfo) : ℕ := (info.timeLeft.toInt.toNat + 999) / 1000

def thinksOf (list : List IntervalInfo) : ℕ := (list.map IntervalInfo.thinks).sum

def valuesOf (list : List IntervalInfo) : List int32_t := list.map (·.value)

/-- Every round still has time left. -/
def Waiting (list : List IntervalInfo) : Prop := ∀ info ∈ list, 0 < info.timeLeft.toInt

theorem thinks_pos {info : IntervalInfo} (h : 0 < info.timeLeft.toInt) : 0 < info.thinks := by
  unfold IntervalInfo.thinks
  omega

theorem eq_nil_of_thinksOf_eq_zero {list : List IntervalInfo} (hwaiting : Waiting list)
    (h : thinksOf list = 0) : list = [] := by
  cases list with
  | nil => rfl
  | cons info list =>
    have hpos := thinks_pos (hwaiting info List.mem_cons_self)
    simp only [thinksOf, List.map_cons, List.sum_cons] at h
    omega

theorem toInt_sub_second {t : int32_t} (h : 0 < t.toInt) : (t - 1000).toInt = t.toInt - 1000 := by
  have hlt := BitVec.toInt_lt (x := t)
  rw [BitVec.toInt_sub]
  change (t.toInt - 1000).bmod (2 ^ 32) = _
  rw [Int.bmod_def]
  omega

/-- The condition waits for the rounds `list`, and ends at `E`. -/
structure Burning (E : ℤ) (list : List IntervalInfo) (c : Condition) : Prop where
  data : ∃ d : Damage, c.data = .damage d ∧ d.periodDamage = 0 ∧ d.damageList = list
  ticks : c.ticks ≠ -1
  endTime : c.endTime = E
  waiting : Waiting list

section Execute

variable {env : Env} {c : Condition} {d : Damage} {info : IntervalInfo} {rest : List IntervalInfo}

theorem executeBase_of_ne (hticks : c.ticks ≠ -1) (interval : int32_t) :
    c.executeBase env interval =
      (decide (env.now ≤ c.endTime), { c with ticks := atLeastZero (c.ticks - interval) }) :=
  if_neg hticks

theorem executeDamage_nil (hperiod : d.periodDamage = 0) (hlist : d.damageList = [])
    (hticks : c.ticks ≠ -1) : c.executeDamage env d 1000 =
      (decide (env.now ≤ c.endTime), { c with ticks := atLeastZero (c.ticks - 1000) }, []) := by
  unfold Condition.executeDamage
  dsimp only
  rw [if_neg (not_not.mpr hperiod), hlist]
  dsimp only
  rw [executeBase_of_ne hticks]

theorem executeDamage_over (hperiod : d.periodDamage = 0) (hlist : d.damageList = info :: rest)
    (hticks : c.ticks ≠ -1) (hover : (info.timeLeft - 1000).sle 0) :
    c.executeDamage env d 1000 =
      (decide (env.now ≤ c.endTime),
        { c with
          ticks := atLeastZero (c.ticks - 1000)
          data := .damage { d with damageList := rest } }, [info.value]) := by
  unfold Condition.executeDamage
  dsimp only
  rw [if_neg (not_not.mpr hperiod), hlist]
  dsimp only
  rw [if_pos hover, if_pos hticks]
  dsimp only
  rw [if_pos hticks]
  unfold Condition.executeBase
  dsimp only
  rw [if_neg hticks]

theorem executeDamage_left (hperiod : d.periodDamage = 0) (hlist : d.damageList = info :: rest)
    (hticks : c.ticks ≠ -1) (hover : ¬(info.timeLeft - 1000).sle 0) :
    c.executeDamage env d 1000 =
      (decide (env.now ≤ c.endTime),
        { c with
          ticks := atLeastZero (c.ticks - 1000)
          data := .damage
            { d with
              damageList := { info with timeLeft := info.timeLeft - 1000 } :: rest } }, []) := by
  unfold Condition.executeDamage
  dsimp only
  rw [if_neg (not_not.mpr hperiod), hlist]
  dsimp only
  rw [if_neg hover]
  dsimp only
  rw [if_pos hticks]
  unfold Condition.executeBase
  dsimp only
  rw [if_neg hticks]

theorem executeCondition_damage (hdata : c.data = .damage d) (interval : int32_t) :
    c.executeCondition env interval = c.executeDamage env d interval := by
  unfold Condition.executeCondition
  rw [hdata]

theorem sle_zero_iff (hinfo : 0 < info.timeLeft.toInt) :
    (info.timeLeft - 1000).sle 0 = true ↔ info.timeLeft.toInt ≤ 1000 := by
  rw [BitVec.sle_iff_toInt_le, toInt_sub_second hinfo]
  change info.timeLeft.toInt - 1000 ≤ 0 ↔ _
  omega

/-- A think takes one off the thinks that are left. -/
theorem Burning.executeCondition {E : ℤ} {list : List IntervalInfo} (h : Burning E list c)
    (env : Env) : ∃ list' c' damages,
      c.executeCondition env 1000 = (decide (env.now ≤ E), c', damages) ∧ Burning E list' c' ∧
        c'.key = c.key ∧ damages ++ valuesOf list' = valuesOf list ∧
        thinksOf list' = thinksOf list - 1 := by
  obtain ⟨⟨d, hdata, hperiod, hlist⟩, hticks, rfl, hwaiting⟩ := h
  rw [executeCondition_damage hdata]
  have hnext := atLeastZero_ne (c.ticks - 1000)
  cases list with
  | nil =>
    exact ⟨[], _, [], executeDamage_nil hperiod hlist hticks,
      ⟨⟨d, hdata, hperiod, hlist⟩, hnext, rfl, hwaiting⟩, rfl, rfl, rfl⟩
  | cons info rest =>
    have hinfo : 0 < info.timeLeft.toInt := hwaiting info List.mem_cons_self
    have hrest : Waiting rest := fun info' hmem => hwaiting info' (List.mem_cons_of_mem _ hmem)
    by_cases hover : (info.timeLeft - 1000).sle 0 = true
    · refine ⟨rest, _, [info.value], executeDamage_over hperiod hlist hticks hover,
        ⟨⟨_, rfl, hperiod, rfl⟩, hnext, rfl, hrest⟩, rfl, rfl, ?_⟩
      have hone : info.thinks = 1 := by
        have hle := (sle_zero_iff hinfo).mp hover
        unfold IntervalInfo.thinks
        omega
      simp only [thinksOf, List.map_cons, List.sum_cons, hone]
      omega
    · have hlong : 1000 < info.timeLeft.toInt := by
        rw [sle_zero_iff hinfo] at hover
        omega
      have hleft := toInt_sub_second hinfo
      refine ⟨_, _, [], executeDamage_left hperiod hlist hticks hover,
        ⟨⟨_, rfl, hperiod, rfl⟩, hnext, rfl, ?_⟩, rfl, rfl, ?_⟩
      · refine List.forall_mem_cons.mpr ⟨?_, hrest⟩
        dsimp only
        omega
      · simp only [thinksOf, List.map_cons, List.sum_cons, IntervalInfo.thinks, hleft]
        omega

end Execute

/-! ## The condition among the others of its creature -/

/-- The damage that the conditions with this key have done. -/
def damagesOf (key : Key) (done : List Done) : List int32_t :=
  (done.filter fun entry => entry.1 = key).map (·.2)

theorem damagesOf_append (key : Key) (done done' : List Done) :
    damagesOf key (done ++ done') = damagesOf key done ++ damagesOf key done' := by
  rw [damagesOf, List.filter_append, List.map_append]
  rfl

theorem damagesOf_own (key : Key) (damages : List int32_t) :
    damagesOf key (damages.map fun damage => (key, damage)) = damages := by
  induction damages with
  | nil => rfl
  | cons damage damages ih =>
    have hcons : damagesOf key ((damage :: damages).map fun damage => (key, damage)) =
        damage :: damagesOf key (damages.map fun damage => (key, damage)) := by
      simp only [damagesOf, List.map_cons, List.filter_cons, decide_true, if_true]
    rw [hcons, ih]

theorem damagesOf_other {key other : Key} (h : other ≠ key) (damages : List int32_t) :
    damagesOf key (damages.map fun damage => (other, damage)) = [] := by
  induction damages with
  | nil => rfl
  | cons damage damages ih =>
    rw [List.map_cons, damagesOf, List.filter_cons_of_neg (by simpa using h)]
    exact ih

def KeyFree (key : Key) (conditions : List Condition) : Prop := ∀ c ∈ conditions, c.key ≠ key

instance (key : Key) (conditions : List Condition) : Decidable (KeyFree key conditions) :=
  inferInstanceAs (Decidable (∀ c ∈ conditions, c.key ≠ key))

theorem executeLoop_append (env : Env) (interval : int32_t) (xs ys : List Condition) :
    Creature.executeLoop env interval (xs ++ ys) =
      ((Creature.executeLoop env interval xs).1 ++ (Creature.executeLoop env interval ys).1,
        (Creature.executeLoop env interval xs).2 ++ (Creature.executeLoop env interval ys).2) := by
  induction xs with
  | nil => rfl
  | cons x xs ih =>
    rw [List.cons_append, Creature.executeLoop, Creature.executeLoop, ih]
    dsimp only
    rw [List.append_assoc]
    split <;> rfl

/-- The conditions of other keys keep to themselves. -/
theorem executeLoop_keyFree (env : Env) (interval : int32_t) {key : Key} {list : List Condition}
    (h : KeyFree key list) :
    KeyFree key (Creature.executeLoop env interval list).1 ∧
      damagesOf key (Creature.executeLoop env interval list).2 = [] := by
  induction list with
  | nil => exact ⟨h, rfl⟩
  | cons c list ih =>
    obtain ⟨hc, hlist⟩ := List.forall_mem_cons.mp h
    obtain ⟨hfree, hdamages⟩ := ih hlist
    have hkey : (c.executeCondition env interval).2.1.key ≠ key := by
      rw [(executed_executeCondition env c interval).key]
      exact hc
    rw [Creature.executeLoop]
    dsimp only
    constructor
    · split
      · exact List.forall_mem_cons.mpr ⟨hkey, hfree⟩
      · exact hfree
    · rw [damagesOf_append, damagesOf_other hkey, hdamages]
      rfl

section Thinking

variable (start : Creature) (now phase : ℤ) (thinking : ℕ → Env)

/-- The creature after it has thought so often, first `phase` milliseconds after `now`. -/
def think : ℕ → Creature
  | 0 => start
  | n + 1 =>
    (think n).executeConditions { thinking n with now := now + phase + 1000 * n }
      EVENT_CREATURE_THINK_INTERVAL

/-- The condition with this key is there, and waits for `list`. -/
structure Present (key : Key) (E : ℤ) (list : List IntervalInfo) (creature : Creature) : Prop where
  own : ∃ others c, creature.conditions = others ++ [c] ∧ KeyFree key others ∧ c.key = key ∧
    Burning E list c

variable {start now phase} {key : Key} {E : ℤ} {list : List IntervalInfo}
  {creature : Creature}

theorem Present.executeConditions (h : Present key E list creature) (env : Env) :
    ∃ list', thinksOf list' = thinksOf list - 1 ∧
      damagesOf key (creature.executeConditions env 1000).done ++ valuesOf list' =
        damagesOf key creature.done ++ valuesOf list ∧ Waiting list' ∧
      if env.now ≤ E then Present key E list' (creature.executeConditions env 1000)
      else KeyFree key (creature.executeConditions env 1000).conditions := by
  obtain ⟨others, c, hconditions, hothers, hkey, hburning⟩ := h.own
  obtain ⟨list', c', damages, hexecute, hburning', hkey', hvalues, hthinks⟩ :=
    hburning.executeCondition env
  obtain ⟨hfree, hnone⟩ := executeLoop_keyFree env 1000 hothers
  have hloop : Creature.executeLoop env 1000 creature.conditions =
      ((Creature.executeLoop env 1000 others).1 ++ if env.now ≤ E then [c'] else [],
        (Creature.executeLoop env 1000 others).2 ++ damages.map fun damage => (key, damage)) := by
    rw [hconditions, executeLoop_append, Creature.executeLoop, hexecute]
    dsimp only [Creature.executeLoop]
    simp only [decide_eq_true_eq, List.append_nil, hkey', hkey]
  have hafter : creature.executeConditions env 1000 =
      { conditions := (Creature.executeLoop env 1000 others).1 ++ if env.now ≤ E then [c'] else []
        done := creature.done ++ ((Creature.executeLoop env 1000 others).2 ++
          damages.map fun damage => (key, damage)) } := by
    rw [Creature.executeConditions, hloop]
  refine ⟨list', hthinks, ?_, hburning'.waiting, ?_⟩
  · rw [hafter]
    dsimp only
    rw [damagesOf_append, damagesOf_append, hnone, damagesOf_own, List.nil_append,
      List.append_assoc, hvalues]
  · rw [hafter]
    split
    · exact ⟨_, c', rfl, hfree, hkey'.trans hkey, hburning'⟩
    · dsimp only
      rw [List.append_nil]
      exact hfree

theorem executeConditions_keyFree (h : KeyFree key creature.conditions) (env : Env)
    (interval : int32_t) :
    KeyFree key (creature.executeConditions env interval).conditions ∧
      damagesOf key (creature.executeConditions env interval).done =
        damagesOf key creature.done := by
  obtain ⟨hfree, hnone⟩ := executeLoop_keyFree env interval h
  refine ⟨hfree, ?_⟩
  rw [Creature.executeConditions]
  dsimp only
  rw [damagesOf_append, hnone, List.append_nil]

/-- A condition that is gone stays gone. -/
theorem think_keyFree {n : ℕ} (h : KeyFree key (think start now phase thinking n).conditions)
    (k : ℕ) : KeyFree key (think start now phase thinking (n + k)).conditions ∧
      damagesOf key (think start now phase thinking (n + k)).done =
        damagesOf key (think start now phase thinking n).done := by
  induction k with
  | zero => exact ⟨h, rfl⟩
  | succ k ih =>
    rw [← Nat.add_assoc, think]
    obtain ⟨hfree, hdone⟩ := executeConditions_keyFree ih.1
      { thinking (n + k) with now := now + phase + 1000 * ((n + k : ℕ) : ℤ) }
      EVENT_CREATURE_THINK_INTERVAL
    exact ⟨hfree, hdone.trans ih.2⟩

/-- As long as the end is not over, each think takes one off. -/
theorem think_present (hstart : Present key E list start) (n : ℕ)
    (h : ∀ k < n, now + phase + 1000 * (k : ℤ) ≤ E) :
    ∃ list', thinksOf list' = thinksOf list - n ∧
      damagesOf key (think start now phase thinking n).done ++ valuesOf list' =
        damagesOf key start.done ++ valuesOf list ∧
      Present key E list' (think start now phase thinking n) := by
  induction n with
  | zero => exact ⟨list, rfl, rfl, hstart⟩
  | succ n ih =>
    obtain ⟨list', hthinks, hvalues, hpresent⟩ :=
      ih fun k hk => h k (Nat.lt_succ_of_lt hk)
    obtain ⟨list'', hthinks', hvalues', -, hnext⟩ := hpresent.executeConditions
      { thinking n with now := now + phase + 1000 * (n : ℤ) }
    rw [if_pos (h n (Nat.lt_succ_self n))] at hnext
    refine ⟨list'', ?_, hvalues'.trans hvalues, hnext⟩
    rw [hthinks', hthinks, Nat.sub_sub]

/-- From some think on the condition is gone, and has done exactly these damages. -/
def Delivers (start : Creature) (now phase : ℤ) (thinking : ℕ → Env) (key : Key)
    (before values : List int32_t) : Prop :=
  ∃ n, ∀ m ≥ n, KeyFree key (think start now phase thinking m).conditions ∧
    damagesOf key (think start now phase thinking m).done = before ++ values

/-- The last think of the condition is the first one after its end. -/
theorem delivers_iff_of_last (hstart : Present key E list start) (n : ℕ)
    (hbefore : ∀ k < n, now + phase + 1000 * (k : ℤ) ≤ E) (hlast : E < now + phase + 1000 * (n : ℤ)) :
    Delivers start now phase thinking key (damagesOf key start.done) (valuesOf list) ↔
      thinksOf list ≤ n + 1 := by
  obtain ⟨list', hthinks, hvalues, hpresent⟩ := think_present thinking hstart n hbefore
  obtain ⟨list'', hthinks', hvalues', hwaiting, hgone⟩ := hpresent.executeConditions
    { thinking n with now := now + phase + 1000 * (n : ℤ) }
  rw [if_neg (not_le.mpr hlast)] at hgone
  have hover : KeyFree key (think start now phase thinking (n + 1)).conditions := hgone
  have hall : damagesOf key (think start now phase thinking (n + 1)).done ++ valuesOf list'' =
      damagesOf key start.done ++ valuesOf list := hvalues'.trans hvalues
  have hleft : thinksOf list'' = thinksOf list - (n + 1) := by
    rw [hthinks', hthinks, Nat.sub_sub]
  have hnone : valuesOf list'' = [] ↔ thinksOf list'' = 0 := by
    constructor
    · intro h
      rw [List.map_eq_nil_iff.mp h]
      rfl
    · intro h
      rw [eq_nil_of_thinksOf_eq_zero hwaiting h]
      rfl
  constructor
  · rintro ⟨m, hm⟩
    have hdone := (hm (n + 1 + m) (Nat.le_add_left m (n + 1))).2
    rw [(think_keyFree thinking hover m).2, ← hall] at hdone
    have hempty := hnone.mp (List.append_cancel_left (hdone.symm.trans (List.append_nil _).symm))
    omega
  · intro hle
    refine ⟨n + 1, fun m hm => ?_⟩
    obtain ⟨k, rfl⟩ := Nat.exists_eq_add_of_le hm
    obtain ⟨hfree, hdone⟩ := think_keyFree thinking hover k
    have hempty := hnone.mpr (by omega)
    rw [hempty, List.append_nil] at hall
    exact ⟨hfree, hdone.trans hall⟩

theorem delivers_iff_of_present (hstart : Present key E list start) :
    Delivers start now phase thinking key (damagesOf key start.done) (valuesOf list) ↔
      thinksOf list ≤ 1 ∨ now + phase + 1000 * (thinksOf list : ℤ) ≤ E + 2000 := by
  have hends : ∃ n : ℕ, E < now + phase + 1000 * (n : ℤ) := by
    refine ⟨(E - now - phase + 1).toNat, ?_⟩
    omega
  have hbefore : ∀ k < Nat.find hends, now + phase + 1000 * (k : ℤ) ≤ E :=
    fun k hk => not_lt.mp (Nat.find_min hends hk)
  have hlast := Nat.find_spec hends
  generalize Nat.find hends = n at hbefore hlast
  rw [delivers_iff_of_last thinking hstart n hbefore hlast]
  constructor
  · intro hle
    by_cases hone : thinksOf list ≤ 1
    · exact .inl hone
    · have hk := hbefore (thinksOf list - 2) (by omega)
      omega
  · rintro (hone | hk)
    · omega
    · omega

/-- A condition without an end stays. -/
theorem think_endless (h : ∃ c ∈ start.conditions, c.key = key ∧ c.ticks = -1) (n : ℕ) :
    ∃ c ∈ (think start now phase thinking n).conditions, c.key = key ∧ c.ticks = -1 := by
  induction n with
  | zero => exact h
  | succ n ih =>
    obtain ⟨c, hmem, hkey, hticks⟩ := ih
    obtain ⟨front, back, hconditions⟩ := List.append_of_mem hmem
    rw [think]
    generalize (⟨now + phase + 1000 * (n : ℤ), _, _, _, _, _, _, _, _⟩ : Env) = env
    have hexecuted := executed_executeCondition env c EVENT_CREATURE_THINK_INTERVAL
    refine ⟨(c.executeCondition env EVENT_CREATURE_THINK_INTERVAL).2.1, ?_,
      hexecuted.key.trans hkey, hexecuted.endless.mpr hticks⟩
    rw [Creature.executeConditions, hconditions, executeLoop_append, Creature.executeLoop]
    dsimp only
    rw [if_pos (hexecuted.goesOn.mpr (.inl hticks))]
    exact List.mem_append_right _ List.mem_cons_self

end Thinking

/-! ## How the condition is built and added -/

/-- A call of `addDamage`, at some time. -/
structure DamageCall where
  now : ℤ
  rounds : int32_t
  time : int32_t
  value : int32_t

/-- What the call schedules. -/
def DamageCall.scheduled (call : DamageCall) : List IntervalInfo :=
  let time := if call.time.slt EVENT_CREATURE_THINK_INTERVAL then EVENT_CREATURE_THINK_INTERVAL
    else call.time
  List.replicate call.rounds.toInt.toNat { timeLeft := time, value := call.value, interval := time }

def scheduled (calls : List DamageCall) : List IntervalInfo := calls.flatMap DamageCall.scheduled

/-- The condition, after it has been created, set to be delayed and given its damage. -/
def built (id : ConditionId_t) (type : ConditionType_t) (buff : Bool) (subId : uint32_t)
    (calls : List DamageCall) : Condition :=
  calls.foldl
    (fun condition call => condition.addDamage call.now call.rounds call.time call.value)
    ((new id type 0 buff subId (.damage {})).setParam .CONDITION_PARAM_DELAYED 1).2

/-- The sum of the intervals. -/
def totalOf (list : List IntervalInfo) : ℤ := (list.map fun info => info.interval.toInt).sum

/-- The rounds have all their time left, a second at least. -/
def Fresh (list : List IntervalInfo) : Prop :=
  ∀ info ∈ list, info.timeLeft = info.interval ∧ 1000 ≤ info.interval.toInt

theorem fresh_scheduled (calls : List DamageCall) : Fresh (scheduled calls) := by
  intro info hmem
  obtain ⟨call, -, hinfo⟩ := List.mem_flatMap.mp hmem
  rw [List.eq_of_mem_replicate hinfo]
  refine ⟨rfl, ?_⟩
  dsimp only
  split
  next => decide
  next h => exact BitVec.sle_iff_toInt_le.mp (by rw [BitVec.sle_eq_not_slt]; simpa using h)

theorem Fresh.waiting {list : List IntervalInfo} (h : Fresh list) : Waiting list := by
  intro info hmem
  obtain ⟨hleft, hinterval⟩ := h info hmem
  rw [hleft]
  omega

section Totals

variable {list : List IntervalInfo}

theorem totalOf_cons (info : IntervalInfo) (list : List IntervalInfo) :
    totalOf (info :: list) = info.interval.toInt + totalOf list :=
  List.sum_cons

theorem thinksOf_cons (info : IntervalInfo) (list : List IntervalInfo) :
    thinksOf (info :: list) = info.thinks + thinksOf list :=
  List.sum_cons

theorem totalOf_nonneg (h : Fresh list) : 0 ≤ totalOf list := by
  induction list with
  | nil => rfl
  | cons info list ih =>
    obtain ⟨⟨-, hinfo⟩, hlist⟩ := List.forall_mem_cons.mp h
    have hrest := ih hlist
    rw [totalOf_cons]
    omega

theorem totalOf_ge (h : Fresh list) (hne : list ≠ []) : 1000 ≤ totalOf list := by
  cases list with
  | nil => exact absurd rfl hne
  | cons info list =>
    obtain ⟨⟨-, hinfo⟩, hlist⟩ := List.forall_mem_cons.mp h
    have hrest := totalOf_nonneg hlist
    rw [totalOf_cons]
    omega

/-- The thinks take as long as the rounds at least. -/
theorem totalOf_le (h : Fresh list) : totalOf list ≤ 1000 * (thinksOf list : ℤ) := by
  induction list with
  | nil => exact le_refl 0
  | cons info list ih =>
    obtain ⟨⟨hleft, hinfo⟩, hlist⟩ := List.forall_mem_cons.mp h
    have hrest := ih hlist
    have hthinks : info.interval.toInt ≤ 1000 * (info.thinks : ℤ) := by
      rw [IntervalInfo.thinks, hleft]
      omega
    rw [totalOf_cons, thinksOf_cons, Nat.cast_add, Int.mul_add]
    omega

theorem roundTicks_concat (list : List IntervalInfo) (info : IntervalInfo) :
    roundTicks (list ++ [info]) =
      if roundTicks list ≠ -1 then roundTicks list + info.interval else roundTicks list := by
  rw [roundTicks, List.foldl_append]
  rfl

/-- The sum is right as long as it has not met the value that means no end. -/
theorem roundTicks_eq (h : Fresh list) :
    roundTicks list = -1 ∧ 2 ^ 31 ≤ totalOf list ∨ roundTicks list = .ofInt 32 (totalOf list) := by
  induction list using List.reverseRecOn with
  | nil => exact .inr rfl
  | append_singleton list info ih =>
    have hlist : Fresh list := fun info' hmem => h info' (List.mem_append_left _ hmem)
    obtain ⟨-, hinfo⟩ := h info (List.mem_append_right _ List.mem_cons_self)
    have hnonneg := totalOf_nonneg hlist
    have htotal : totalOf (list ++ [info]) = totalOf list + info.interval.toInt := by
      rw [totalOf, List.map_append, List.sum_append]
      exact congrArg _ List.sum_singleton
    rw [roundTicks_concat, htotal]
    by_cases hend : roundTicks list = -1
    · refine .inl ⟨by rw [if_neg (not_not.mpr hend), hend], ?_⟩
      obtain ⟨-, hlarge⟩ | hright := ih hlist
      · omega
      · have hbmod : (totalOf list).bmod (2 ^ 32) = -1 := by
          rw [← BitVec.toInt_ofInt, ← hright, hend]
          decide
        rw [Int.bmod_def] at hbmod
        omega
    · rw [if_pos hend]
      obtain ⟨hleft, -⟩ | hright := ih hlist
      · exact absurd hleft hend
      · right
        rw [hright, BitVec.ofInt_add, BitVec.ofInt_toInt]

theorem toInt_roundTicks (h : Fresh list) (hsmall : totalOf list < 2 ^ 31) :
    (roundTicks list).toInt = totalOf list := by
  have hnonneg := totalOf_nonneg h
  obtain ⟨-, hlarge⟩ | hright := roundTicks_eq h
  · omega
  · rw [hright, BitVec.toInt_ofInt, Int.bmod_def]
    omega

theorem toInt_roundTicks_le (h : Fresh list) (hlarge : 2 ^ 31 ≤ totalOf list) :
    roundTicks list = -1 ∨ (roundTicks list).toInt ≤ totalOf list - 2 ^ 32 := by
  obtain ⟨hleft, -⟩ | hright := roundTicks_eq h
  · exact .inl hleft
  · right
    rw [hright, BitVec.toInt_ofInt, Int.bmod_def]
    omega

end Totals

/-! ### The calls -/

section Build

variable {now : ℤ} {key : Key} {d : Damage} {list : List IntervalInfo} {c : Condition}

/-- The calls so far have scheduled `list`, none of them after `now`. -/
structure Built (now : ℤ) (key : Key) (d : Damage) (list : List IntervalInfo) (c : Condition) :
    Prop where
  data : c.data = .damage { d with damageList := list }
  ticks : c.ticks = roundTicks list
  key : c.key = key
  endTime : list ≠ [] → c.endTime ≤ c.ticks.toInt + now

theorem Built.addRound (h : Built now key d list c) {now' : ℤ} (hnow : now' ≤ now)
    (time value : int32_t) : Built now key d (list ++ [⟨time, value, time⟩])
      (c.addRound now' { d with damageList := list } time value) := by
  unfold Condition.addRound
  dsimp only
  split
  next hticks =>
    refine ⟨rfl, ?_, h.key, fun _ => ?_⟩
    · rw [roundTicks_concat, ← h.ticks, if_pos hticks]
      rfl
    · change (c.ticks + time).toInt + now' ≤ (c.ticks + time).toInt + now
      omega
  next hticks =>
    have hne : list ≠ [] := by
      rintro rfl
      exact hticks (by rw [h.ticks]; decide)
    refine ⟨rfl, ?_, h.key, fun _ => h.endTime hne⟩
    rw [roundTicks_concat, ← h.ticks, if_neg hticks]

theorem Built.addRounds (h : Built now key d list c) {now' : ℤ} (hnow : now' ≤ now)
    (time value : int32_t) (rounds : ℕ) :
    Built now key d (list ++ List.replicate rounds ⟨time, value, time⟩)
      (c.addRounds now' time value rounds) := by
  induction rounds generalizing list c with
  | zero =>
    rw [List.replicate_zero, List.append_nil]
    exact h
  | succ rounds ih =>
    rw [List.replicate_succ, List.append_cons, Condition.addRounds, h.data]
    exact ih (h.addRound hnow time value)

theorem Built.addDamage (h : Built now key d list c) (hd : d.periodDamage = 0) {call : DamageCall}
    (hnow : call.now ≤ now) (hrounds : 0 ≤ call.rounds.toInt) :
    Built now key d (list ++ call.scheduled)
      (c.addDamage call.now call.rounds call.time call.value) := by
  have hperiodic : call.rounds ≠ -1 := by
    intro heq
    rw [heq] at hrounds
    exact absurd hrounds (by decide)
  unfold Condition.addDamage
  rw [h.data]
  dsimp only
  rw [if_neg hperiodic, hd, if_neg (by decide)]
  exact h.addRounds hnow _ _ _

theorem Built.foldl_addDamage (h : Built now key d [] c) (hd : d.periodDamage = 0)
    {calls : List DamageCall} (hnow : ∀ call ∈ calls, call.now ≤ now)
    (hrounds : ∀ call ∈ calls, 0 ≤ call.rounds.toInt) :
    Built now key d (scheduled calls) (calls.foldl
      (fun c call => c.addDamage call.now call.rounds call.time call.value) c) := by
  induction calls using List.reverseRecOn with
  | nil => exact h
  | append_singleton calls call ih =>
    have hlast : call ∈ calls ++ [call] := List.mem_append_right _ List.mem_cons_self
    have hcalls := ih (fun call hmem => hnow call (List.mem_append_left _ hmem))
      fun call hmem => hrounds call (List.mem_append_left _ hmem)
    have hscheduled : scheduled (calls ++ [call]) = scheduled calls ++ call.scheduled := by
      rw [scheduled, List.flatMap_append, List.flatMap_singleton]
      rfl
    rw [hscheduled, List.foldl_append]
    exact hcalls.addDamage hd (hnow call hlast) (hrounds call hlast)

theorem built_built (id : ConditionId_t) (type : ConditionType_t) (buff : Bool) (subId : uint32_t)
    {calls : List DamageCall} (hnow : ∀ call ∈ calls, call.now ≤ now)
    (hrounds : ∀ call ∈ calls, 0 ≤ call.rounds.toInt) :
    Built now (type, id, subId) { delayed := true } (scheduled calls)
      (built id type buff subId calls) := by
  have hstart : Built now (type, id, subId) { delayed := true } []
      ((new id type 0 buff subId (.damage {})).setParam .CONDITION_PARAM_DELAYED 1).2 :=
    ⟨rfl, rfl, rfl, fun h => absurd rfl h⟩
  exact hstart.foldl_addDamage rfl hnow hrounds

theorem addToPrev_keyFree (env : Env) (c : Condition) {conditions : List Condition}
    (h : KeyFree c.key conditions) : Creature.addToPrev env c conditions = none := by
  induction conditions with
  | nil => rfl
  | cons prevCond rest ih =>
    obtain ⟨hprev, hrest⟩ := List.forall_mem_cons.mp h
    rw [Creature.addToPrev, if_neg hprev, ih hrest]
    rfl

/-- A condition without rounds is not added. -/
theorem startCondition_nil {env : Env} (h : Built env.now key { delayed := true } [] c) :
    ∃ c', c.startCondition env = (false, c', []) := by
  have hticks : c.ticks = 0 := h.ticks
  have hstart : c.startBase env = c := if_neg (by rw [hticks]; decide)
  have hamount : env.uniform_random 0 0 = 0 := if_pos rfl
  refine ⟨c.setTicks env.now 0, ?_⟩
  unfold Condition.startCondition
  rw [hstart]
  dsimp only
  rw [h.data]
  dsimp only
  unfold Condition.init
  dsimp only
  rw [if_neg (by decide), if_pos rfl, hamount, if_pos rfl, Condition.setTicks, h.data]
  rfl

theorem startCondition_of_ne_nil {env : Env} (h : Built env.now key { delayed := true } list c) (hne : list ≠ []) :
    c.startCondition env = (true, c.startBase env, []) := by
  have hdata : (c.startBase env).data = c.data := by
    unfold Condition.startBase
    split <;> rfl
  unfold Condition.startCondition
  dsimp only
  rw [hdata, h.data]
  dsimp only
  unfold Condition.init
  dsimp only
  rw [if_neg (by decide), if_neg hne]
  dsimp only
  rw [Condition.firstDamage, hdata, h.data]
  rfl

theorem addCondition_nil {env : Env} {creature : Creature} {force : Bool}
    (hbuilt : Built env.now key { delayed := true } [] c) (htype : c.conditionType ≠ .CONDITION_HASTE)
    (hnew : KeyFree key creature.conditions) : creature.addCondition env c force = creature := by
  obtain ⟨c', hstart⟩ := startCondition_nil hbuilt
  have hfree : KeyFree c.key creature.conditions := hbuilt.key ▸ hnew
  rw [Creature.addCondition, if_neg fun h => htype h.2.1, addToPrev_keyFree env c hfree]
  dsimp only
  rw [hstart]
  dsimp only
  rw [if_neg Bool.false_ne_true, List.map_nil, List.append_nil]

theorem addCondition_of_ne_nil {env : Env} {creature : Creature} {force : Bool}
    (hbuilt : Built env.now key { delayed := true } list c) (hne : list ≠ [])
    (htype : c.conditionType ≠ .CONDITION_HASTE) (hnew : KeyFree key creature.conditions) :
    creature.addCondition env c force =
      { creature with conditions := creature.conditions ++ [c.startBase env] } := by
  have hfree : KeyFree c.key creature.conditions := hbuilt.key ▸ hnew
  rw [Creature.addCondition, if_neg fun h => htype h.2.1, addToPrev_keyFree env c hfree]
  dsimp only
  rw [startCondition_of_ne_nil hbuilt hne]
  dsimp only
  rw [if_pos rfl, List.map_nil, List.append_nil]

theorem Built.burning {env : Env} (h : Built env.now key { delayed := true } list c) (hfresh : Fresh list)
    (hticks : c.ticks ≠ -1) :
    Burning (c.startBase env).endTime list (c.startBase env) := by
  unfold Condition.startBase
  split
  · exact ⟨⟨_, h.data, rfl, rfl⟩, hticks, rfl, hfresh.waiting⟩
  · exact ⟨⟨_, h.data, rfl, rfl⟩, hticks, rfl, hfresh.waiting⟩

/-- When the condition ends. -/
theorem Built.endTime_startBase (env : Env) (h : Built env.now key { delayed := true } list c) (hne : list ≠ []) :
    (c.startBase env).endTime ≤ c.ticks.toInt + env.now ∧
      (0 < c.ticks.toInt → (c.startBase env).endTime = c.ticks.toInt + env.now) := by
  unfold Condition.startBase
  split
  next => exact ⟨le_refl _, fun _ => rfl⟩
  next hslt =>
    refine ⟨h.endTime hne, fun hpos => absurd ?_ hslt⟩
    exact BitVec.slt_iff_toInt_lt.mpr hpos

end Build

/-! ## Every round is delivered -/

/-- A clock that stands at `now`, and no chance. -/
def quiet (now : ℤ) : Env where
  now := now
  uniformRand minNumber _ := minNumber
  generateDamageList _ _ := []
  getFormulaValues _ := (0, 0)
  updatePercent a := a
  doDamage _ := true
  inProtectionZone := false
  isSuppress _ := false
  walkDelay := 0

end TibiaServer.Conditions
