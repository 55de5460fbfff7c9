import Mathlib.Algebra.Group.Pi.Lemmas
import Mathlib.Tactic.Abel
import TibiaServer.Library.Loops
import TibiaServer.Library.Run
import TibiaServer.Players.Conditions
/-!
# The skills and stats that conditions add

What a condition has added is what it takes away again, whether it is removed, runs out or
is added anew.  So the modifiers of a player are the sums over his conditions.
-/

namespace TibiaServer.Players

open TibiaServer.Library

section Modifiers

variable {percent : ℤ → int32_t → int32_t} {player player' player'' : ConditionedPlayer}
  {condition : ConditionAttributes} {now : ℤ} {skills skills' : skills_t → int32_t}
  {stats stats' : stats_t → int32_t}

/-- One player has the modifiers of another, and `skills` and `stats` more. -/
structure Gains (player player' : ConditionedPlayer) (skills : skills_t → int32_t)
    (stats : stats_t → int32_t) : Prop where
  varSkills : player'.varSkills = player.varSkills + skills
  varStats : player'.varStats = player.varStats + stats

theorem Gains.refl (player : ConditionedPlayer) : Gains player player 0 0 :=
  ⟨(add_zero _).symm, (add_zero _).symm⟩

theorem Gains.trans (h : Gains player player' skills stats)
    (h' : Gains player' player'' skills' stats') :
    Gains player player'' (skills + skills') (stats + stats') where
  varSkills := by rw [h'.varSkills, h.varSkills, add_assoc]
  varStats := by rw [h'.varStats, h.varStats, add_assoc]

/-! ## Single modifiers -/

theorem setVarStats_spec (player : ConditionedPlayer) (stat : stats_t) (modifier : int32_t) :
    (player.setVarStats stat modifier).varSkills = player.varSkills ∧
      (player.setVarStats stat modifier).varStats =
        Function.update player.varStats stat (player.varStats stat + modifier) := by
  cases stat with
  | STAT_MAXHITPOINTS =>
    unfold ConditionedPlayer.setVarStats
    simp only
    split
    · exact ⟨rfl, rfl⟩
    · exact ⟨rfl, rfl⟩
  | STAT_MAXMANAPOINTS =>
    unfold ConditionedPlayer.setVarStats
    simp only
    split
    · exact ⟨rfl, rfl⟩
    · exact ⟨rfl, rfl⟩
  | STAT_SOULPOINTS => exact ⟨rfl, rfl⟩
  | STAT_MAGICPOINTS => exact ⟨rfl, rfl⟩

/-- The loop over the skills, which passes over modifiers of zero. -/
theorem gains_skills {c : skills_t → Prop} [DecidablePred c] (hc : ∀ i, ¬c i → skills i = 0)
    (player : ConditionedPlayer) :
    Gains player (skills_t.all.foldl
      (fun player i => if c i then player.setVarSkill i (skills i) else player) player)
      skills 0 where
  varSkills := by
    have hstep : ∀ (player : ConditionedPlayer) j,
        (if c j then player.setVarSkill j (skills j) else player).varSkills =
          Function.update player.varSkills j (player.varSkills j + skills j) := by
      intro player j
      by_cases hcj : c j
      · rw [if_pos hcj]
        rfl
      · rw [if_neg hcj, hc j hcj, add_zero, Function.update_eq_self]
    funext i
    have hi : i ∈ skills_t.all := by cases i <;> decide
    exact Loops.foldl_own ConditionedPlayer.varSkills (fun j v => v + skills j) hstep (by decide)
      player hi
  varStats := by
    rw [add_zero]
    apply Loops.foldl_miss ConditionedPlayer.varStats (fun _ : skills_t => False)
    · intro player j _
      split
      · rfl
      · rfl
    · exact fun _ _ => id

theorem gains_stats {c : stats_t → Prop} [DecidablePred c] (hc : ∀ i, ¬c i → stats i = 0)
    (player : ConditionedPlayer) :
    Gains player (stats_t.all.foldl
      (fun player i => if c i then player.setVarStats i (stats i) else player) player)
      0 stats where
  varSkills := by
    rw [add_zero]
    apply Loops.foldl_miss ConditionedPlayer.varSkills (fun _ : stats_t => False)
    · intro player j _
      split
      · exact (setVarStats_spec player j _).1
      · rfl
    · exact fun _ _ => id
  varStats := by
    have hstep : ∀ (player : ConditionedPlayer) j,
        (if c j then player.setVarStats j (stats j) else player).varStats =
          Function.update player.varStats j (player.varStats j + stats j) := by
      intro player j
      by_cases hcj : c j
      · rw [if_pos hcj]
        exact (setVarStats_spec player j _).2
      · rw [if_neg hcj, hc j hcj, add_zero, Function.update_eq_self]
    funext i
    have hi : i ∈ stats_t.all := by cases i <;> decide
    exact Loops.foldl_own ConditionedPlayer.varStats (fun j v => v + stats j) hstep (by decide)
      player hi

/-! ## One condition -/

namespace ConditionAttributes

theorem gains_endCondition (condition : ConditionAttributes) (player : ConditionedPlayer) :
    Gains player (condition.endCondition player) (-condition.skills) (-condition.stats) := by
  let player₁ := skills_t.all.foldl (fun player i =>
    if condition.skills i ≠ 0 ∨ condition.skillsPercent i ≠ 0 then
      player.setVarSkill i (-condition.skills i)
    else player) player
  let player₂ := stats_t.all.foldl (fun player i =>
    if condition.stats i ≠ 0 then player.setVarStats i (-condition.stats i) else player) player₁
  have hskills : Gains player player₁ (fun i => -condition.skills i) 0 :=
    gains_skills (fun i hi => by rw [not_not.mp (not_or.mp hi).1, neg_zero]) player
  have hstats : Gains player₁ player₂ 0 (fun i => -condition.stats i) :=
    gains_stats (fun i hi => by rw [not_not.mp hi, neg_zero]) player₁
  have hboth := hskills.trans hstats
  rwa [add_zero, zero_add] at hboth

/-- What `apply` leaves in the condition is what it has added. -/
theorem gains_apply (percent : ℤ → int32_t → int32_t) (condition : ConditionAttributes)
    (player : ConditionedPlayer) :
    Gains player (condition.apply percent player).2 (condition.apply percent player).1.skills
      (condition.apply percent player).1.stats := by
  let condition₁ := condition.updatePercentSkills percent player
  let player₁ := condition₁.updateSkills player
  let condition₂ := condition₁.updatePercentStats percent player₁
  have hskills : Gains player player₁ condition₁.skills 0 :=
    gains_skills (c := fun i => condition₁.skills i ≠ 0) (fun i hi => not_not.mp hi) player
  have hstats : Gains player₁ (condition₂.updateStats player₁) 0 condition₂.stats :=
    gains_stats (c := fun i => condition₂.stats i ≠ 0) (fun i hi => not_not.mp hi) player₁
  have hboth := hskills.trans hstats
  rwa [add_zero, zero_add] at hboth

theorem gains_startCondition (percent : ℤ → int32_t → int32_t) (condition : ConditionAttributes)
    (player : ConditionedPlayer) (now : ℤ) :
    Gains player (condition.startCondition percent player now).2
      (condition.startCondition percent player now).1.skills
      (condition.startCondition percent player now).1.stats :=
  gains_apply percent _ player

/-- The old contribution goes and the new one comes. -/
theorem gains_addCondition (percent : ℤ → int32_t → int32_t) (condition : ConditionAttributes)
    (player : ConditionedPlayer) (now : ℤ) (added : ConditionAttributes) :
    Gains player (condition.addCondition percent player now added).2
      ((condition.addCondition percent player now added).1.skills - condition.skills)
      ((condition.addCondition percent player now added).1.stats - condition.stats) := by
  unfold addCondition
  split
  · have hend := (condition.setTicks now added.ticks).gains_endCondition player
    have happly := hend.trans (gains_apply percent
      { condition.setTicks now added.ticks with
        skills := added.skills, skillsPercent := added.skillsPercent
        stats := added.stats, statsPercent := added.statsPercent } _)
    rw [neg_add_eq_sub, neg_add_eq_sub] at happly
    exact happly
  · rw [sub_self, sub_self]
    exact Gains.refl player

end ConditionAttributes

/-! ## All conditions -/

/-- The skills that conditions contribute. -/
def skillSum (conditions : List ConditionAttributes) : skills_t → int32_t :=
  (conditions.map ConditionAttributes.skills).sum

def statSum (conditions : List ConditionAttributes) : stats_t → int32_t :=
  (conditions.map ConditionAttributes.stats).sum

@[simp] theorem skillSum_cons (condition : ConditionAttributes)
    (conditions : List ConditionAttributes) :
    skillSum (condition :: conditions) = condition.skills + skillSum conditions :=
  List.sum_cons

@[simp] theorem statSum_cons (condition : ConditionAttributes)
    (conditions : List ConditionAttributes) :
    statSum (condition :: conditions) = condition.stats + statSum conditions :=
  List.sum_cons

theorem skillSum_concat (conditions : List ConditionAttributes)
    (condition : ConditionAttributes) :
    skillSum (conditions ++ [condition]) = skillSum conditions + condition.skills := by
  unfold skillSum
  rw [List.map_append, List.sum_append, List.map_singleton, List.sum_singleton]

theorem statSum_concat (conditions : List ConditionAttributes)
    (condition : ConditionAttributes) :
    statSum (conditions ++ [condition]) = statSum conditions + condition.stats := by
  unfold statSum
  rw [List.map_append, List.sum_append, List.map_singleton, List.sum_singleton]

theorem skillSum_eraseIdx {conditions : List ConditionAttributes} {index : ℕ}
    {condition : ConditionAttributes} (h : conditions[index]? = some condition) :
    condition.skills + skillSum (conditions.eraseIdx index) = skillSum conditions := by
  induction conditions generalizing index with
  | nil => exact nomatch h
  | cons head conditions ih =>
    cases index with
    | zero =>
      obtain rfl := Option.some.inj h
      exact (skillSum_cons _ _).symm
    | succ index =>
      rw [List.eraseIdx_cons_succ, skillSum_cons, skillSum_cons, add_left_comm, ih h]

theorem statSum_eraseIdx {conditions : List ConditionAttributes} {index : ℕ}
    {condition : ConditionAttributes} (h : conditions[index]? = some condition) :
    condition.stats + statSum (conditions.eraseIdx index) = statSum conditions := by
  induction conditions generalizing index with
  | nil => exact nomatch h
  | cons head conditions ih =>
    cases index with
    | zero =>
      obtain rfl := Option.some.inj h
      exact (statSum_cons _ _).symm
    | succ index =>
      rw [List.eraseIdx_cons_succ, statSum_cons, statSum_cons, add_left_comm, ih h]

/-- Conditions have changed, and the modifiers with them. -/
def Follows (player : ConditionedPlayer) (conditions : List ConditionAttributes)
    (result : List ConditionAttributes × ConditionedPlayer) : Prop :=
  Gains player result.2 (skillSum result.1 - skillSum conditions)
    (statSum result.1 - statSum conditions)

theorem Follows.refl (player : ConditionedPlayer) (conditions : List ConditionAttributes) :
    Follows player conditions (conditions, player) := by
  unfold Follows
  rw [sub_self, sub_self]
  exact Gains.refl player

/-- A condition that stays, with the same contribution. -/
theorem Follows.cons {conditions : List ConditionAttributes}
    {result : List ConditionAttributes × ConditionedPlayer} (h : Follows player conditions result)
    {condition condition' : ConditionAttributes} (hskills : condition'.skills = condition.skills)
    (hstats : condition'.stats = condition.stats) :
    Follows player (condition :: conditions) (condition' :: result.1, result.2) := by
  unfold Follows at h ⊢
  rwa [skillSum_cons, skillSum_cons, statSum_cons, statSum_cons, hskills, hstats,
    add_sub_add_left_eq_sub, add_sub_add_left_eq_sub]

/-- A condition that ends. -/
theorem Follows.end {conditions : List ConditionAttributes}
    {result : List ConditionAttributes × ConditionedPlayer} {condition : ConditionAttributes}
    (h : Follows (condition.endCondition player) conditions result) :
    Follows player (condition :: conditions) result := by
  unfold Follows at h ⊢
  have hboth := (condition.gains_endCondition player).trans h
  rw [skillSum_cons, statSum_cons]
  have hskills : -condition.skills + (skillSum result.1 - skillSum conditions) =
      skillSum result.1 - (condition.skills + skillSum conditions) := by abel
  have hstats : -condition.stats + (statSum result.1 - statSum conditions) =
      statSum result.1 - (condition.stats + statSum conditions) := by abel
  rwa [hskills, hstats] at hboth

/-! ## Calls -/

namespace Conditioned

theorem follows_addToPrev {condition : ConditionAttributes}
    {conditions : List ConditionAttributes}
    {result : List ConditionAttributes × ConditionedPlayer}
    (h : addToPrev percent now player condition conditions = some result) :
    Follows player conditions result := by
  induction conditions generalizing result with
  | nil => exact nomatch h
  | cons prevCond rest ih =>
    unfold addToPrev at h
    split at h
    · obtain rfl := Option.some.inj h
      have hadd := prevCond.gains_addCondition percent player now condition
      unfold Follows
      rwa [skillSum_cons, skillSum_cons, statSum_cons, statSum_cons,
        add_sub_add_right_eq_sub, add_sub_add_right_eq_sub]
    · obtain ⟨inner, hinner, rfl⟩ := Option.map_eq_some_iff.mp h
      exact (ih hinner).cons rfl rfl

theorem follows_removeLoop (removes : ConditionAttributes → Bool) (stops : Bool)
    (conditions : List ConditionAttributes) (player : ConditionedPlayer) :
    Follows player conditions (removeLoop removes stops player conditions) := by
  induction conditions generalizing player with
  | nil => exact Follows.refl player []
  | cons condition rest ih =>
    unfold removeLoop
    split
    · exact (ih player).cons rfl rfl
    · split
      · exact Follows.refl player _
      · exact (ih _).end

theorem follows_executeLoop (now interval : ℤ) (conditions : List ConditionAttributes)
    (player : ConditionedPlayer) :
    Follows player conditions (executeLoop now interval player conditions) := by
  induction conditions generalizing player with
  | nil => exact Follows.refl player []
  | cons condition rest ih =>
    have hskills : (condition.executeCondition now interval).2.skills = condition.skills := by
      unfold ConditionAttributes.executeCondition
      split
      · rfl
      · rfl
    have hstats : (condition.executeCondition now interval).2.stats = condition.stats := by
      unfold ConditionAttributes.executeCondition
      split
      · rfl
      · rfl
    unfold executeLoop
    simp only
    split
    · exact (ih player).cons hskills hstats
    · have hend := (ih ((condition.executeCondition now interval).2.endCondition player)).end
      unfold Follows at hend ⊢
      rwa [skillSum_cons, statSum_cons, hskills, hstats] at hend

/-- The modifiers of the player are the sums over his conditions. -/
structure Balanced (creature : Conditioned) : Prop where
  skills : creature.player.varSkills = skillSum creature.conditions
  stats : creature.player.varStats = statSum creature.conditions

variable {creature creature' : Conditioned}

theorem Balanced.follows (hc : Balanced creature)
    {result : List ConditionAttributes × ConditionedPlayer}
    (h : Follows creature.player creature.conditions result) :
    Balanced { player := result.2, conditions := result.1 } where
  skills := by
    calc result.2.varSkills
        = creature.player.varSkills + (skillSum result.1 - skillSum creature.conditions) :=
          h.varSkills
      _ = skillSum creature.conditions + (skillSum result.1 - skillSum creature.conditions) := by
          rw [hc.skills]
      _ = skillSum result.1 := add_sub_cancel _ _
  stats := by
    calc result.2.varStats
        = creature.player.varStats + (statSum result.1 - statSum creature.conditions) :=
          h.varStats
      _ = statSum creature.conditions + (statSum result.1 - statSum creature.conditions) := by
          rw [hc.stats]
      _ = statSum result.1 := add_sub_cancel _ _

theorem Balanced.addCondition (hc : Balanced creature) (condition : ConditionAttributes)
    (force isSuppress : Bool) (walkDelay : ℤ) :
    Balanced (creature.addCondition percent now condition force isSuppress walkDelay) := by
  unfold Conditioned.addCondition
  split
  · exact hc
  split
  next hprev => exact hc.follows (follows_addToPrev hprev)
  next =>
    let started := condition.startCondition percent creature.player now
    have hstart : Gains creature.player started.2 started.1.skills started.1.stats :=
      condition.gains_startCondition percent creature.player now
    refine ⟨?_, ?_⟩
    · calc started.2.varSkills
          = creature.player.varSkills + started.1.skills := hstart.varSkills
        _ = skillSum creature.conditions + started.1.skills := by rw [hc.skills]
        _ = skillSum (creature.conditions ++ [started.1]) := (skillSum_concat _ _).symm
    · calc started.2.varStats
          = creature.player.varStats + started.1.stats := hstart.varStats
        _ = statSum creature.conditions + started.1.stats := by rw [hc.stats]
        _ = statSum (creature.conditions ++ [started.1]) := (statSum_concat _ _).symm

theorem Balanced.removeConditionAt (hc : Balanced creature) (index : ℕ) (force : Bool)
    (walkDelay : ℤ) : Balanced (creature.removeConditionAt index force walkDelay) := by
  unfold Conditioned.removeConditionAt
  split
  · exact hc
  next condition hcondition =>
    split
    · exact hc
    · have hend := condition.gains_endCondition creature.player
      refine ⟨?_, ?_⟩
      · calc (condition.endCondition creature.player).varSkills
            = creature.player.varSkills + -condition.skills := hend.varSkills
          _ = condition.skills + skillSum (creature.conditions.eraseIdx index) +
                -condition.skills := by rw [hc.skills, skillSum_eraseIdx hcondition]
          _ = skillSum (creature.conditions.eraseIdx index) := add_neg_cancel_comm _ _
      · calc (condition.endCondition creature.player).varStats
            = creature.player.varStats + -condition.stats := hend.varStats
          _ = condition.stats + statSum (creature.conditions.eraseIdx index) +
                -condition.stats := by rw [hc.stats, statSum_eraseIdx hcondition]
          _ = statSum (creature.conditions.eraseIdx index) := add_neg_cancel_comm _ _

theorem Balanced.step (hc : Balanced creature) {call : ConditionCall}
    (h : call.step percent creature = some creature') : Balanced creature' := by
  cases call with
  | addCondition condition force isSuppress walkDelay now =>
    exact Option.some.inj h ▸ hc.addCondition condition force isSuppress walkDelay
  | removeCondition type id force walkDelay =>
    exact Option.some.inj h ▸ hc.follows (follows_removeLoop _ _ creature.conditions _)
  | removeConditionAt index force walkDelay =>
    exact Option.some.inj h ▸ hc.removeConditionAt index force walkDelay
  | executeConditions interval now =>
    exact Option.some.inj h ▸ hc.follows (follows_executeLoop now interval creature.conditions _)
  | advance skillLevel healthMax manaMax magLevel health mana =>
    exact Option.some.inj h ▸ ⟨hc.skills, hc.stats⟩

end Conditioned

end Modifiers

/-- Over every sequence of calls, from a player without conditions, his modifiers are the sums
of what his conditions contribute. -/
theorem Conditioned.always_balanced (percent : ℤ → int32_t → int32_t)
    (player : ConditionedPlayer) (calls : List ConditionCall) :
    Run.Always (fun creature call => ConditionCall.step percent creature call) Balanced
      { player := { player with varSkills := 0, varStats := 0 } } calls :=
  Run.always_of_invariant (I := Balanced) (fun _ _ _ hc h => hc.step h) (fun _ hc => hc) calls _
    ⟨rfl, rfl⟩

end TibiaServer.Players
