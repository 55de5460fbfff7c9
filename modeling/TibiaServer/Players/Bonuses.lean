import Mathlib.Algebra.BigOperators.Pi
import Mathlib.Data.Fintype.BigOperators
import TibiaServer.Players.Equipment
/-!
# The bonuses of equipped items

The modifiers of a player should be the sums over the items in his enabled slots.
`EquipItem` adds and `DeEquipItem` takes away, but a suppression that two items share goes
with the first of them, a percentage is taken of what it is a percentage of at that moment,
and an item that transforms when it is equipped passes its own abilities on
(`always_sums_bonuses`).
-/

namespace TibiaServer.Players.EquippedPlayer

open Library Library.Run

/-! ## Bonuses -/

structure Bonus where
  skills : skills_t → int32_t := 0
  stats : stats_t → int32_t := 0
  speed : int32_t := 0
  suppressions : BitVec 32 := 0

section Bonus

variable (data : EquipData) (base : stats_t → ℤ)

/-- `stats` and `statsPercent` together. -/
def statsOf (abilities : Abilities) : stats_t → int32_t := fun stat =>
  abilities.stats stat +
    if abilities.statsPercent stat ≠ 0 then data.percent (base stat) (abilities.statsPercent stat)
    else 0

def bonusOf : Option Abilities → Bonus
  | none => {}
  | some abilities =>
    { skills := abilities.skills
      stats := statsOf data base abilities
      speed := abilities.speed
      suppressions := abilities.conditionSuppressions }

/-- The bonus of an item type. -/
def typeBonus (id : ℕ) : Bonus := bonusOf data base (data.items id).abilities

/-- The bonus of the item in a slot, if the slot is enabled. -/
def bonusAt (s : EquippedPlayer) (slot : slots_t) : Bonus :=
  if s.inventoryAbilities slot then
    match s.inventory slot with
    | none => {}
    | some item => typeBonus data (getDefaultStats s.player) (s.itemId item)
  else {}

end Bonus

/-- The modifiers are the sums over the enabled slots, and zero with nothing equipped. -/
structure Balanced (data : EquipData) (s : EquippedPlayer) : Prop where
  skills : s.player.varSkills = ∑ slot, (s.bonusAt data slot).skills
  stats : s.player.varStats = ∑ slot, (s.bonusAt data slot).stats
  speed : s.varSpeed = ∑ slot, (s.bonusAt data slot).speed
  suppressions : ∀ bit, s.conditionSuppressions.getLsbD bit = true ↔
    ∃ slot, (s.bonusAt data slot).suppressions.getLsbD bit = true
  unequipped : (∀ slot, s.inventory slot = none) → s.player.varSkills = 0 ∧
    s.player.varStats = 0 ∧ s.varSpeed = 0 ∧ s.conditionSuppressions = 0

/-- The modifiers also have a bonus that is still to be taken away. -/
structure Owes (data : EquipData) (s : EquippedPlayer) (extra : Bonus) : Prop where
  skills : s.player.varSkills = ∑ slot, (s.bonusAt data slot).skills + extra.skills
  stats : s.player.varStats = ∑ slot, (s.bonusAt data slot).stats + extra.stats
  speed : s.varSpeed = ∑ slot, (s.bonusAt data slot).speed + extra.speed
  suppressions : ∀ bit, s.conditionSuppressions.getLsbD bit = true ↔
    (∃ slot, (s.bonusAt data slot).suppressions.getLsbD bit = true) ∨
      extra.suppressions.getLsbD bit = true

theorem bonusAt_of_none {data : EquipData} {s : EquippedPlayer} {slot : slots_t}
    (h : s.inventory slot = none) : s.bonusAt data slot = {} := by
  unfold bonusAt
  rw [h]
  split <;> rfl

theorem bonusAt_of_disabled {data : EquipData} {s : EquippedPlayer} {slot : slots_t}
    (h : s.inventoryAbilities slot = false) : s.bonusAt data slot = {} := by
  unfold bonusAt
  rw [h]
  rfl

theorem bonusAt_congr {data : EquipData} {s t : EquippedPlayer} {slot : slots_t}
    (henabled : t.inventoryAbilities slot = s.inventoryAbilities slot)
    (hinventory : t.inventory slot = s.inventory slot)
    (hids : ∀ item, s.inventory slot = some item → t.itemId item = s.itemId item)
    (hbase : getDefaultStats t.player = getDefaultStats s.player) :
    t.bonusAt data slot = s.bonusAt data slot := by
  unfold bonusAt
  rw [henabled, hinventory, hbase]
  cases hitem : s.inventory slot with
  | none => rfl
  | some item =>
    dsimp only
    rw [hids item hitem]

theorem balanced_iff {data : EquipData} {s : EquippedPlayer} :
    s.Balanced data ↔ s.Owes data {} := by
  constructor
  · intro h
    refine ⟨h.skills.trans (add_zero _).symm, h.stats.trans (add_zero _).symm,
      h.speed.trans (add_zero _).symm, fun bit => ?_⟩
    rw [h.suppressions bit]
    simp
  · intro h
    have hsuppressions : ∀ bit, s.conditionSuppressions.getLsbD bit = true ↔
        ∃ slot, (s.bonusAt data slot).suppressions.getLsbD bit = true := by
      intro bit
      rw [h.suppressions bit]
      simp
    refine ⟨h.skills.trans (add_zero _), h.stats.trans (add_zero _), h.speed.trans (add_zero _),
      hsuppressions, fun hnone => ?_⟩
    have hzero : ∀ slot, s.bonusAt data slot = {} := fun slot => bonusAt_of_none (hnone slot)
    refine ⟨?_, ?_, ?_, BitVec.eq_of_getLsbD_eq fun bit _ => ?_⟩
    · rw [h.skills]
      simp [hzero]
    · rw [h.stats]
      simp [hzero]
    · rw [h.speed]
      simp [hzero]
    · rw [Bool.eq_iff_iff, hsuppressions bit]
      simp [hzero]

/-! ## Adding and taking away -/

/-- Only the modifiers differ. -/
structure SameItems (s t : EquippedPlayer) : Prop where
  inventory : t.inventory = s.inventory
  inventoryAbilities : t.inventoryAbilities = s.inventoryAbilities
  itemId : t.itemId = s.itemId
  nextItem : t.nextItem = s.nextItem
  base : getDefaultStats t.player = getDefaultStats s.player

section Modify

variable {data : EquipData} {abilities : Abilities} {sign : int32_t → int32_t}

theorem SameItems.bonusAt {s t : EquippedPlayer} (h : SameItems s t) (slot : slots_t) :
    t.bonusAt data slot = s.bonusAt data slot :=
  bonusAt_congr (by rw [h.inventoryAbilities]) (by rw [h.inventory])
    (fun item _ => by rw [h.itemId]) h.base

theorem getDefaultStats_setVarSkill (player : ConditionedPlayer) (skill : skills_t)
    (modifier : int32_t) :
    getDefaultStats (player.setVarSkill skill modifier) = getDefaultStats player := rfl

theorem getDefaultStats_setVarStats (player : ConditionedPlayer) (stat : stats_t)
    (modifier : int32_t) :
    getDefaultStats (player.setVarStats stat modifier) = getDefaultStats player := by
  funext other
  cases stat with
  | STAT_MAXHITPOINTS =>
    unfold ConditionedPlayer.setVarStats
    simp only
    split
    · cases other <;> rfl
    · cases other <;> rfl
  | STAT_MAXMANAPOINTS =>
    unfold ConditionedPlayer.setVarStats
    simp only
    split
    · cases other <;> rfl
    · cases other <;> rfl
  | STAT_SOULPOINTS => cases other <;> rfl
  | STAT_MAGICPOINTS => cases other <;> rfl

theorem modifyStat_spec (hsign : ∀ a b, sign (a + b) = sign a + sign b) (hzero : sign 0 = 0)
    (player : ConditionedPlayer) (stat : stats_t) :
    (modifyStat data abilities sign player stat).varSkills = player.varSkills ∧
      (modifyStat data abilities sign player stat).varStats = Function.update player.varStats stat
        (player.varStats stat + sign (statsOf data (getDefaultStats player) abilities stat)) ∧
      getDefaultStats (modifyStat data abilities sign player stat) = getDefaultStats player := by
  obtain ⟨player', hplayer', hskills, hstats, hbase⟩ : ∃ player', player' =
      (if abilities.stats stat ≠ 0 then player.setVarStats stat (sign (abilities.stats stat))
        else player) ∧ player'.varSkills = player.varSkills ∧
      player'.varStats = Function.update player.varStats stat
        (player.varStats stat + sign (abilities.stats stat)) ∧
      getDefaultStats player' = getDefaultStats player := by
    refine ⟨_, rfl, ?_⟩
    by_cases hstat : abilities.stats stat = 0
    · rw [if_neg (not_not.mpr hstat), hstat, hzero, add_zero, Function.update_eq_self]
      exact ⟨rfl, rfl, rfl⟩
    · rw [if_pos hstat]
      obtain ⟨hskills, hstats⟩ := setVarStats_spec player stat (sign (abilities.stats stat))
      exact ⟨hskills, hstats, getDefaultStats_setVarStats player stat _⟩
  unfold modifyStat statsOf
  rw [← hplayer']
  by_cases hpercent : abilities.statsPercent stat = 0
  · simp only [hpercent, ne_eq, not_true_eq_false, if_false, add_zero]
    exact ⟨hskills, hstats, hbase⟩
  · simp only [hpercent, ne_eq, not_false_eq_true, if_true]
    obtain ⟨hskills', hstats'⟩ := setVarStats_spec player' stat
      (sign (data.percent (getDefaultStats player' stat) (abilities.statsPercent stat)))
    refine ⟨hskills'.trans hskills, ?_, (getDefaultStats_setVarStats player' stat _).trans hbase⟩
    rw [hstats', hstats, Function.update_self, Function.update_idem, hsign, hbase, add_assoc]

theorem modifyStats_spec (hsign : ∀ a b, sign (a + b) = sign a + sign b) (hzero : sign 0 = 0)
    (stats : List stats_t) (hnodup : stats.Nodup) : ∀ player : ConditionedPlayer,
    (stats.foldl (modifyStat data abilities sign) player).varSkills = player.varSkills ∧
      (stats.foldl (modifyStat data abilities sign) player).varStats =
        player.varStats + (fun stat => if stat ∈ stats then
          sign (statsOf data (getDefaultStats player) abilities stat) else 0) ∧
      getDefaultStats (stats.foldl (modifyStat data abilities sign) player) =
        getDefaultStats player := by
  induction stats with
  | nil =>
    intro player
    refine ⟨rfl, ?_, rfl⟩
    funext stat
    exact (add_zero _).symm
  | cons first rest ih =>
    intro player
    obtain ⟨hfirst, hnodup⟩ := List.nodup_cons.mp hnodup
    obtain ⟨hskills, hstats, hbase⟩ :=
      @modifyStat_spec data abilities sign hsign hzero player first
    obtain ⟨hskills', hstats', hbase'⟩ := ih hnodup (modifyStat data abilities sign player first)
    rw [List.foldl_cons]
    refine ⟨hskills'.trans hskills, ?_, hbase'.trans hbase⟩
    rw [hstats', hstats, hbase]
    funext stat
    by_cases heq : stat = first
    · subst heq
      simp [hfirst]
    · simp [heq]

/-- `sign` of the abilities comes to the modifiers. -/
theorem modify_spec (hsign : ∀ a b, sign (a + b) = sign a + sign b) (hzero : sign 0 = 0)
    (s : EquippedPlayer) :
    (s.modify data abilities sign).player.varSkills =
        s.player.varSkills + (fun i => sign (abilities.skills i)) ∧
      (s.modify data abilities sign).player.varStats = s.player.varStats +
        (fun stat => sign (statsOf data (getDefaultStats s.player) abilities stat)) ∧
      (s.modify data abilities sign).varSpeed = s.varSpeed + sign abilities.speed ∧
      (s.modify data abilities sign).conditionSuppressions = s.conditionSuppressions ∧
      SameItems s (s.modify data abilities sign) := by
  obtain ⟨player, hplayer⟩ : ∃ player, player = skills_t.all.foldl (fun player i =>
      if abilities.skills i ≠ 0 then player.setVarSkill i (sign (abilities.skills i)) else player)
      s.player := ⟨_, rfl⟩
  have hgains : Gains s.player player (fun i => sign (abilities.skills i)) 0 := by
    rw [hplayer]
    exact gains_skills (c := fun i => abilities.skills i ≠ 0)
      (fun i hi => by rw [not_not.mp hi, hzero]) s.player
  have hbase : getDefaultStats player = getDefaultStats s.player := by
    rw [hplayer]
    apply Loops.foldl_miss getDefaultStats (fun _ : skills_t => False)
    · intro player i _
      split
      · exact getDefaultStats_setVarSkill player i _
      · rfl
    · exact fun _ _ => id
  obtain ⟨hskills, hstats, hbase'⟩ := @modifyStats_spec data abilities sign hsign hzero
    stats_t.all (by decide) player
  have hall : ∀ stat : stats_t, stat ∈ stats_t.all := by
    intro stat
    cases stat <;> decide
  have hfields : ∃ varSpeed, varSpeed = s.varSpeed + sign abilities.speed ∧
      s.modify data abilities sign = { s with
        varSpeed := varSpeed
        player := stats_t.all.foldl (modifyStat data abilities sign) player } := by
    unfold modify
    by_cases hspeed : abilities.speed = 0
    · refine ⟨s.varSpeed, by rw [hspeed, hzero, add_zero], ?_⟩
      rw [if_neg (not_not.mpr hspeed)]
      dsimp only
      rw [← hplayer]
    · refine ⟨s.baseSpeed + s.varSpeed - s.baseSpeed + sign abilities.speed, ?_, ?_⟩
      · rw [add_sub_cancel_left]
      · rw [if_pos hspeed]
        unfold changeSpeed
        dsimp only
        rw [← hplayer]
  obtain ⟨varSpeed, hspeed, hmodify⟩ := hfields
  rw [hmodify]
  refine ⟨hskills.trans hgains.varSkills, ?_, hspeed, rfl, ⟨rfl, rfl, rfl, rfl,
    hbase'.trans hbase⟩⟩
  have hvarStats : player.varStats = s.player.varStats := by
    rw [hgains.varStats, add_zero]
  simp only [hstats, hvarStats, hbase, hall, if_true]

theorem suppressions_or (abilities : Abilities) (s : EquippedPlayer) :
    ∃ conditionSuppressions, conditionSuppressions =
        s.conditionSuppressions ||| abilities.conditionSuppressions ∧
      (if abilities.conditionSuppressions ≠ 0 then
        s.addConditionSuppressions abilities.conditionSuppressions else s) =
        { s with conditionSuppressions := conditionSuppressions } := by
  by_cases hzero : abilities.conditionSuppressions = 0
  · refine ⟨s.conditionSuppressions, ?_, if_neg (not_not.mpr hzero)⟩
    rw [hzero, BitVec.ofNat_eq_ofNat, BitVec.or_zero]
  · exact ⟨_, rfl, if_pos hzero⟩

theorem suppressions_and (abilities : Abilities) (s : EquippedPlayer) :
    ∃ conditionSuppressions, conditionSuppressions =
        s.conditionSuppressions &&& ~~~abilities.conditionSuppressions ∧
      (if abilities.conditionSuppressions ≠ 0 then
        s.removeConditionSuppressions abilities.conditionSuppressions else s) =
        { s with conditionSuppressions := conditionSuppressions } := by
  by_cases hzero : abilities.conditionSuppressions = 0
  · refine ⟨s.conditionSuppressions, ?_, if_neg (not_not.mpr hzero)⟩
    rw [hzero, BitVec.ofNat_eq_ofNat, BitVec.not_zero, BitVec.and_allOnes]
  · exact ⟨_, rfl, if_pos hzero⟩

end Modify

/-- What `EquipItem` does with the abilities of a type. -/
structure Adds (s t : EquippedPlayer) (bonus : Bonus) : Prop where
  skills : t.player.varSkills = s.player.varSkills + bonus.skills
  stats : t.player.varStats = s.player.varStats + bonus.stats
  speed : t.varSpeed = s.varSpeed + bonus.speed
  suppressions : t.conditionSuppressions = s.conditionSuppressions ||| bonus.suppressions
  same : SameItems s t

/-- What `DeEquipItem` does with them. -/
structure Removes (s t : EquippedPlayer) (bonus : Bonus) : Prop where
  skills : t.player.varSkills = s.player.varSkills - bonus.skills
  stats : t.player.varStats = s.player.varStats - bonus.stats
  speed : t.varSpeed = s.varSpeed - bonus.speed
  suppressions : t.conditionSuppressions = s.conditionSuppressions &&& ~~~bonus.suppressions
  same : SameItems s t

theorem adds_abilities (data : EquipData) (s : EquippedPlayer) (abilities : Option Abilities) :
    Adds s (match abilities with
      | none => s
      | some abilities => s.addAbilities data abilities)
      (bonusOf data (getDefaultStats s.player) abilities) := by
  cases abilities with
  | none =>
    exact ⟨(add_zero _).symm, (add_zero _).symm, (add_zero _).symm, BitVec.or_zero.symm,
      ⟨rfl, rfl, rfl, rfl, rfl⟩⟩
  | some abilities =>
    obtain ⟨suppressions, hsuppressions, heq⟩ := suppressions_or abilities s
    change Adds s (s.addAbilities data abilities) _
    unfold addAbilities
    rw [heq]
    obtain ⟨hskills, hstats, hspeed, hsame, hitems⟩ := @modify_spec data abilities id
      (fun _ _ => rfl) rfl { s with conditionSuppressions := suppressions }
    exact ⟨hskills, hstats, hspeed, hsame.trans hsuppressions,
      ⟨hitems.inventory, hitems.inventoryAbilities, hitems.itemId, hitems.nextItem, hitems.base⟩⟩

theorem removes_abilities (data : EquipData) (s : EquippedPlayer) (abilities : Option Abilities) :
    Removes s (match abilities with
      | none => s
      | some abilities => s.removeAbilities data abilities)
      (bonusOf data (getDefaultStats s.player) abilities) := by
  cases abilities with
  | none =>
    refine ⟨(sub_zero _).symm, (sub_zero _).symm, (sub_zero _).symm, ?_,
      ⟨rfl, rfl, rfl, rfl, rfl⟩⟩
    exact BitVec.and_allOnes.symm.trans (congrArg _ BitVec.not_zero.symm)
  | some abilities =>
    obtain ⟨suppressions, hsuppressions, heq⟩ := suppressions_and abilities s
    change Removes s (s.removeAbilities data abilities) _
    unfold removeAbilities
    rw [heq]
    obtain ⟨hskills, hstats, hspeed, hsame, hitems⟩ := @modify_spec data abilities
      (fun modifier => -modifier) neg_add neg_zero
      { s with conditionSuppressions := suppressions }
    refine ⟨?_, ?_, ?_, hsame.trans hsuppressions,
      ⟨hitems.inventory, hitems.inventoryAbilities, hitems.itemId, hitems.nextItem, hitems.base⟩⟩
    · exact hskills.trans (sub_eq_add_neg _ _).symm
    · exact hstats.trans (sub_eq_add_neg _ _).symm
    · exact hspeed.trans (sub_eq_add_neg _ _).symm

/-! ## The sums -/

section Sums

/-- Two families that differ in one place, where the other one has nothing. -/
theorem sum_take {M : Type*} [AddCommMonoid M] (get : Bonus → M) (hget : get {} = 0)
    {f g : slots_t → Bonus} (slot : slots_t) (hother : ∀ other, other ≠ slot → f other = g other)
    (hzero : g slot = {}) : ∑ other, get (f other) = ∑ other, get (g other) + get (f slot) := by
  have hrest : ∑ other ∈ Finset.univ.erase slot, get (f other) =
      ∑ other ∈ Finset.univ.erase slot, get (g other) :=
    Finset.sum_congr rfl fun other hmem => by rw [hother other (Finset.ne_of_mem_erase hmem)]
  rw [← Finset.add_sum_erase _ (fun other => get (f other)) (Finset.mem_univ slot),
    ← Finset.add_sum_erase _ (fun other => get (g other)) (Finset.mem_univ slot), hrest, hzero,
    hget, zero_add, add_comm]

theorem exists_take {f g : slots_t → Bonus} (slot : slots_t)
    (hother : ∀ other, other ≠ slot → f other = g other) (hzero : g slot = {}) (bit : ℕ) :
    (∃ other, (f other).suppressions.getLsbD bit = true) ↔
      (∃ other, (g other).suppressions.getLsbD bit = true) ∨
        (f slot).suppressions.getLsbD bit = true := by
  constructor
  · rintro ⟨other, hbit⟩
    by_cases heq : other = slot
    · exact .inr (heq ▸ hbit)
    · exact .inl ⟨other, hother other heq ▸ hbit⟩
  · rintro (⟨other, hbit⟩ | hbit)
    · have hne : other ≠ slot := by
        rintro rfl
        rw [hzero] at hbit
        simp at hbit
      exact ⟨other, (hother other hne).symm ▸ hbit⟩
    · exact ⟨slot, hbit⟩

variable {data : EquipData} {s t : EquippedPlayer} {extra bonus : Bonus}

/-- The modifiers stay, and so do the bonuses of the slots. -/
theorem Owes.congr (h : s.Owes data extra) (hskills : t.player.varSkills = s.player.varSkills)
    (hstats : t.player.varStats = s.player.varStats) (hspeed : t.varSpeed = s.varSpeed)
    (hsuppressions : t.conditionSuppressions = s.conditionSuppressions)
    (hbonus : ∀ slot, t.bonusAt data slot = s.bonusAt data slot) : t.Owes data extra where
  skills := by simp only [hskills, hbonus, h.skills]
  stats := by simp only [hstats, hbonus, h.stats]
  speed := by simp only [hspeed, hbonus, h.speed]
  suppressions := by simp only [hsuppressions, hbonus, h.suppressions, implies_true]

/-- The bonus of one slot no longer belongs to it. -/
theorem Owes.take (h : s.Owes data {}) (hskills : t.player.varSkills = s.player.varSkills)
    (hstats : t.player.varStats = s.player.varStats) (hspeed : t.varSpeed = s.varSpeed)
    (hsuppressions : t.conditionSuppressions = s.conditionSuppressions) (slot : slots_t)
    (hother : ∀ other, other ≠ slot → s.bonusAt data other = t.bonusAt data other)
    (hzero : t.bonusAt data slot = {}) : t.Owes data (s.bonusAt data slot) where
  skills := by
    rw [hskills, h.skills, sum_take Bonus.skills rfl slot hother hzero]
    exact add_zero _
  stats := by
    rw [hstats, h.stats, sum_take Bonus.stats rfl slot hother hzero]
    exact add_zero _
  speed := by
    rw [hspeed, h.speed, sum_take Bonus.speed rfl slot hother hzero]
    exact add_zero _
  suppressions bit := by
    rw [hsuppressions, h.suppressions bit, exists_take slot hother hzero bit]
    simp

theorem bonusAt_setItemAbility {slot other : slots_t} (hne : other ≠ slot) (enabled : Bool) :
    (s.setItemAbility slot enabled).bonusAt data other = s.bonusAt data other :=
  bonusAt_congr (Function.update_of_ne hne _ _) rfl (fun _ _ => rfl) rfl

/-- A slot is enabled, and the bonus of its item comes to the modifiers. -/
theorem Owes.enable (h : s.Owes data extra) {slot : slots_t}
    (hdisabled : s.inventoryAbilities slot = false)
    (hadds : Adds (s.setItemAbility slot true) t ((s.setItemAbility slot true).bonusAt data slot)) :
    t.Owes data extra := by
  have hother : ∀ other, other ≠ slot →
      (s.setItemAbility slot true).bonusAt data other = s.bonusAt data other :=
    fun other hne => bonusAt_setItemAbility hne true
  have hzero : s.bonusAt data slot = {} := bonusAt_of_disabled hdisabled
  refine ⟨?_, ?_, ?_, fun bit => ?_⟩
  · simp only [hadds.same.bonusAt]
    rw [hadds.skills, sum_take Bonus.skills rfl slot hother hzero, add_right_comm, ← h.skills]
    rfl
  · simp only [hadds.same.bonusAt]
    rw [hadds.stats, sum_take Bonus.stats rfl slot hother hzero, add_right_comm, ← h.stats]
    rfl
  · simp only [hadds.same.bonusAt]
    rw [hadds.speed, sum_take Bonus.speed rfl slot hother hzero, add_right_comm, ← h.speed]
    rfl
  · simp only [hadds.same.bonusAt]
    rw [hadds.suppressions, BitVec.getLsbD_or, Bool.or_eq_true,
      exists_take slot hother hzero bit, or_right_comm, ← h.suppressions bit]
    rfl

/-- A type without a bonus of its own adds nothing. -/
theorem Owes.pass (h : s.Owes data extra) (hadds : Adds s t {}) : t.Owes data extra := by
  refine h.congr ?_ ?_ ?_ ?_ hadds.same.bonusAt
  · exact hadds.skills.trans (add_zero _)
  · exact hadds.stats.trans (add_zero _)
  · exact hadds.speed.trans (add_zero _)
  · exact hadds.suppressions.trans BitVec.or_zero

/-- What is owed is taken away; no slot has a suppression of it. -/
theorem Owes.settle (h : s.Owes data bonus) (hremoves : Removes s t bonus)
    (hdisjoint : ∀ slot, bonus.suppressions &&& (s.bonusAt data slot).suppressions = 0) :
    t.Owes data {} := by
  refine ⟨?_, ?_, ?_, fun bit => ?_⟩
  · simp only [hremoves.same.bonusAt]
    rw [hremoves.skills, h.skills, add_sub_cancel_right]
    exact (add_zero _).symm
  · simp only [hremoves.same.bonusAt]
    rw [hremoves.stats, h.stats, add_sub_cancel_right]
    exact (add_zero _).symm
  · simp only [hremoves.same.bonusAt]
    rw [hremoves.speed, h.speed, add_sub_cancel_right]
    exact (add_zero _).symm
  · have hnot : ∀ slot, (s.bonusAt data slot).suppressions.getLsbD bit = true →
        bonus.suppressions.getLsbD bit = false := by
      intro slot hbit
      have hzero := congrArg (fun bits => BitVec.getLsbD bits bit) (hdisjoint slot)
      rw [BitVec.getLsbD_and, hbit, Bool.and_true] at hzero
      exact hzero.trans (BitVec.getLsbD_zero)
    simp only [hremoves.same.bonusAt]
    rw [hremoves.suppressions, BitVec.getLsbD_and, BitVec.getLsbD_not, Bool.and_eq_true,
      h.suppressions bit]
    constructor
    · rintro ⟨hbit | hbit, hclear⟩
      · exact .inl hbit
      · simp [hbit] at hclear
    · rintro (⟨slot, hbit⟩ | hbit)
      · refine ⟨.inl ⟨slot, hbit⟩, ?_⟩
        rw [hnot slot hbit, Bool.not_false, Bool.and_true]
        exact decide_eq_true (BitVec.lt_of_getLsbD hbit)
      · simp at hbit

end Sums

end TibiaServer.Players.EquippedPlayer
