import TibiaServer.Players.SkullTicks
import TibiaServer.World.WalkCache
/-!
# Damage

`combatChangeHealth` lets a mana shield absorb the damage, hands what is left to the events for a
change of health and, when there are any, starts over with what they answer.  Events that answer
what they are given change nothing (`combatChangeHealth_takes`).
-/

namespace TibiaServer.Game.CombatHealth

open Cylinders (toInt32)
open Players.SkullTicks (Skulls_t)
open World.WalkCache (CombatType)

inductive CombatOrigin
  | ORIGIN_NONE
  | ORIGIN_CONDITION
  | ORIGIN_SPELL
  | ORIGIN_MELEE
  | ORIGIN_RANGED
  deriving DecidableEq

/-- `primary` or `secondary`. -/
@[ext]
structure Component where
  type : CombatType := .NONE
  value : ℤ := 0
  deriving DecidableEq

@[ext]
structure CombatDamage where
  primary : Component := {}
  secondary : Component := {}
  origin : CombatOrigin := .ORIGIN_NONE
  deriving DecidableEq

/-- An attacker that is a player; `skullClient` is `getSkullClient` of the target. -/
structure AttackerPlayer where
  skull : Skulls_t
  skullClient : Skulls_t

@[ext]
structure Target where
  isPlayer : Bool := false
  isAttackable : Bool := true
  health : ℤ
  healthMax : ℤ
  mana : ℤ
  manaMax : ℤ
  /-- `hasCondition(CONDITION_MANASHIELD)` -/
  manaShield : Bool := false
  /-- `PlayerFlag_HasInfiniteMana` -/
  infiniteMana : Bool := false
  deriving DecidableEq

/-- The events of the target; a script that fails answers `none`. -/
structure Events where
  healthChange : List (CombatDamage → Option (Component × Component)) := []
  manaChange : List (ℤ → CombatOrigin → Option ℤ) := []
  prepareDeath : List (Target → Bool) := []

namespace Target

variable (target : Target)

def changeHealth (healthChange : ℤ) : Target :=
  if 0 < healthChange then
    { target with health := target.health + min healthChange (target.healthMax - target.health) }
  else { target with health := max 0 (target.health + healthChange) }

/-- For players as `Player::changeMana`. -/
def changeMana (manaChange : ℤ) : Target :=
  if target.infiniteMana then target
  else if 0 < manaChange then
    { target with mana := target.mana + min manaChange (target.manaMax - target.mana) }
  else { target with mana := max 0 (target.mana + manaChange) }

def gainHealth (healthGain : ℤ) : Target := target.changeHealth healthGain

def drainHealth (damage : ℤ) : Target := target.changeHealth (-damage)

def drainMana (manaLoss : ℤ) : Target := target.changeMana (-manaLoss)

end Target

def executeHealthChange (damage : CombatDamage)
    (script : CombatDamage → Option (Component × Component)) : CombatDamage :=
  match script damage with
  | none => damage
  | some (primary, secondary) =>
    if primary.type ≠ .HEALING then
      { damage with
        primary := ⟨primary.type, -|primary.value|⟩
        secondary := ⟨secondary.type, -|secondary.value|⟩ }
    else
      { damage with
        primary := ⟨primary.type, |primary.value|⟩
        secondary := ⟨secondary.type, |secondary.value|⟩ }

def executeManaChange (origin : CombatOrigin) (manaChange : ℤ)
    (script : ℤ → CombatOrigin → Option ℤ) : ℤ :=
  (script manaChange origin).getD manaChange

namespace CombatDamage

variable (damage : CombatDamage)

/-- Both values without their signs. -/
def abs : CombatDamage :=
  { damage with
    primary := { damage.primary with value := |damage.primary.value| }
    secondary := { damage.secondary with value := |damage.secondary.value| } }

def sum : ℤ := toInt32 (damage.primary.value + damage.secondary.value)

/-- What the mana has absorbed is taken off, from the secondary value when the primary one is
used up. -/
def absorbed (manaDamage : ℤ) : CombatDamage :=
  let primary := damage.primary.value - manaDamage
  if primary < 0 then
    { damage with
      primary := { damage.primary with value := 0 }
      secondary := { damage.secondary with value := max 0 (damage.secondary.value + primary) } }
  else { damage with primary := { damage.primary with value := primary } }

/-- No more than the target's health. -/
def clamped (targetHealth : ℤ) : CombatDamage :=
  if targetHealth ≤ damage.primary.value then
    { damage with
      primary := { damage.primary with value := targetHealth }
      secondary := { damage.secondary with value := 0 } }
  else if damage.secondary.value ≠ 0 then
    { damage with
      secondary := { damage.secondary with
        value := min damage.secondary.value (targetHealth - damage.primary.value) } }
  else damage

end CombatDamage

variable (events : Events)

/-- The part about the mana shield; `none` where the events have taken all the damage away. -/
def absorbMana (target : Target) (damage : CombatDamage) (healthChange : ℤ) :
    Option (Target × CombatDamage) :=
  if target.manaShield ∧ damage.primary.type ≠ .UNDEFINEDDAMAGE then
    if min target.mana healthChange ≠ 0 then
      let healthChange :=
        if damage.origin ≠ .ORIGIN_NONE then
          events.manaChange.foldl (executeManaChange damage.origin) healthChange
        else healthChange
      if healthChange = 0 then none
      else
        let manaDamage := min target.mana healthChange
        some (target.drainMana manaDamage, damage.absorbed manaDamage)
    else some (target, damage)
  else some (target, damage)

/-- The part after the events. -/
def strike (target : Target) (damage : CombatDamage) : Bool × Target × CombatDamage :=
  let damage := damage.clamped target.health
  let realDamage := damage.sum
  if realDamage = 0 then (true, target, damage)
  else if target.health ≤ realDamage ∧ ¬ events.prepareDeath.all (· target) then
    (false, target, damage)
  else (true, target.drainHealth realDamage, damage)

/-- An attacker with a black skull does nothing to a player without one. -/
def spares (attackerPlayer : Option AttackerPlayer) (target : Target) : Bool :=
  match attackerPlayer with
  | some player =>
    target.isPlayer && player.skull == .SKULL_BLACK && player.skullClient == .SKULL_NONE
  | none => false

/-- Without the effects and texts.  What is returned, the target and `damage`. -/
def combatChangeHealth (attackerPlayer : Option AttackerPlayer) (target : Target)
    (damage : CombatDamage) : Bool × Target × CombatDamage :=
  if 0 < damage.primary.value then
    if target.health ≤ 0 then (false, target, damage)
    else if spares attackerPlayer target then (false, target, damage)
    else if damage.origin ≠ .ORIGIN_NONE ∧ events.healthChange ≠ [] then
      combatChangeHealth attackerPlayer target
        { events.healthChange.foldl executeHealthChange damage with origin := .ORIGIN_NONE }
    else (true, target.gainHealth damage.primary.value, damage)
  else if ¬ target.isAttackable then (true, target, damage)
  else if spares attackerPlayer target then (false, target, damage)
  else
    let damage' := damage.abs
    if damage'.sum = 0 then (true, target, damage')
    else
      match absorbMana events target damage' damage'.sum with
      | none => (true, target, damage')
      | some (target', damage') =>
        if damage'.sum = 0 then (true, target', damage')
        else if damage.origin ≠ .ORIGIN_NONE ∧ events.healthChange ≠ [] then
          combatChangeHealth attackerPlayer target'
            { events.healthChange.foldl executeHealthChange damage' with origin := .ORIGIN_NONE }
        else strike events target' damage'
termination_by if damage.origin = .ORIGIN_NONE then 0 else 1
decreasing_by
  all_goals
    rename_i hevents
    rw [if_pos trivial, if_neg hevents.1]
    exact Nat.zero_lt_one

/-! ## Events that change nothing -/

/-- The events succeed, answer what they are given and accept the death. -/
structure Transparent : Prop where
  healthChange : ∀ script ∈ events.healthChange, ∀ damage,
    script damage = some (damage.primary, damage.secondary)
  manaChange : ∀ script ∈ events.manaChange, ∀ manaChange origin,
    script manaChange origin = some manaChange
  prepareDeath : ∀ script ∈ events.prepareDeath, ∀ target, script target = true

namespace CombatDamage

variable {damage : CombatDamage}

/-- The values are those of damage that has lost its signs. -/
structure Unsigned (damage : CombatDamage) : Prop where
  primary : 0 ≤ damage.primary.value
  secondary : 0 ≤ damage.secondary.value
  fits : damage.primary.value + damage.secondary.value < 2147483648

/-- The values with the sign of damage. -/
def negated (damage : CombatDamage) : CombatDamage :=
  { damage with
    primary := { damage.primary with value := -damage.primary.value }
    secondary := { damage.secondary with value := -damage.secondary.value } }

theorem Unsigned.sum_eq (h : damage.Unsigned) :
    damage.sum = damage.primary.value + damage.secondary.value := by
  have hprimary := h.primary
  have hsecondary := h.secondary
  have hfits := h.fits
  exact Int.bmod_eq_of_le (by omega) (by omega)

theorem Unsigned.abs (hfits : |damage.primary.value| + |damage.secondary.value| < 2147483648) :
    damage.abs.Unsigned :=
  ⟨abs_nonneg _, abs_nonneg _, hfits⟩

theorem abs_negated (h : damage.Unsigned) : damage.negated.abs = damage := by
  unfold CombatDamage.abs negated
  ext
  · rfl
  · exact (abs_neg _).trans (abs_of_nonneg h.primary)
  · rfl
  · exact (abs_neg _).trans (abs_of_nonneg h.secondary)
  · rfl

/-- The mana absorbs its part. -/
theorem Unsigned.absorbed (h : damage.Unsigned) {manaDamage : ℤ} (hpos : 0 ≤ manaDamage)
    (hle : manaDamage ≤ damage.primary.value + damage.secondary.value) :
    (damage.absorbed manaDamage).Unsigned ∧
      (damage.absorbed manaDamage).primary.value + (damage.absorbed manaDamage).secondary.value =
        damage.primary.value + damage.secondary.value - manaDamage := by
  have hprimary := h.primary
  have hsecondary := h.secondary
  have hfits := h.fits
  unfold CombatDamage.absorbed
  dsimp only
  split_ifs with hused
  · refine ⟨⟨Int.le_refl 0, le_max_left _ _, ?_⟩, ?_⟩ <;> dsimp only <;> omega
  · refine ⟨⟨?_, hsecondary, ?_⟩, ?_⟩ <;> dsimp only <;> omega

theorem absorbed_type (manaDamage : ℤ) :
    (damage.absorbed manaDamage).primary.type = damage.primary.type ∧
      (damage.absorbed manaDamage).origin = damage.origin := by
  unfold CombatDamage.absorbed
  dsimp only
  split_ifs <;> exact ⟨rfl, rfl⟩

theorem Unsigned.clamped (h : damage.Unsigned) {targetHealth : ℤ} (hhealth : 0 < targetHealth) :
    (damage.clamped targetHealth).Unsigned ∧
      (damage.clamped targetHealth).primary.value + (damage.clamped targetHealth).secondary.value =
        min targetHealth (damage.primary.value + damage.secondary.value) := by
  have hprimary := h.primary
  have hsecondary := h.secondary
  have hfits := h.fits
  unfold CombatDamage.clamped
  split_ifs
  · refine ⟨⟨hhealth.le, Int.le_refl 0, ?_⟩, ?_⟩ <;> dsimp only <;> omega
  · refine ⟨⟨hprimary, ?_, ?_⟩, ?_⟩ <;> dsimp only <;> omega
  · refine ⟨⟨hprimary, hsecondary, ?_⟩, ?_⟩ <;> omega

end CombatDamage

variable {events} {target : Target} {damage : CombatDamage}

theorem manaChange_transparent (h : Transparent events) (origin : CombatOrigin) (manaChange : ℤ) :
    events.manaChange.foldl (executeManaChange origin) manaChange = manaChange := by
  have hall := h.manaChange
  generalize events.manaChange = scripts at hall
  induction scripts with
  | nil => rfl
  | cons script scripts ih =>
    have hfirst : executeManaChange origin manaChange script = manaChange := by
      unfold executeManaChange
      rw [hall script List.mem_cons_self]
      rfl
    rw [List.foldl_cons, hfirst]
    exact ih fun script' hmem => hall script' (List.mem_cons_of_mem _ hmem)

theorem executeHealthChange_transparent
    {script : CombatDamage → Option (Component × Component)}
    (h : script damage = some (damage.primary, damage.secondary))
    (htype : damage.primary.type ≠ .HEALING) :
    executeHealthChange damage script = damage.abs.negated := by
  unfold executeHealthChange
  rw [h]
  exact if_pos htype

/-- Every event gives the damage its signs again. -/
theorem healthChange_transparent (h : Transparent events) (hsome : events.healthChange ≠ [])
    (hunsigned : damage.Unsigned) (htype : damage.primary.type ≠ .HEALING) :
    events.healthChange.foldl executeHealthChange damage = damage.negated := by
  have habs : damage.abs = damage := by
    ext
    · rfl
    · exact abs_of_nonneg hunsigned.primary
    · rfl
    · exact abs_of_nonneg hunsigned.secondary
    · rfl
  have hrest : ∀ scripts : List (CombatDamage → Option (Component × Component)),
      (∀ script ∈ scripts, ∀ damage, script damage = some (damage.primary, damage.secondary)) →
      scripts.foldl executeHealthChange damage.negated = damage.negated := by
    intro scripts hall
    induction scripts with
    | nil => rfl
    | cons script scripts ih =>
      have hone : executeHealthChange damage.negated script = damage.negated := by
        rw [executeHealthChange_transparent (hall script List.mem_cons_self _)
          (show damage.negated.primary.type ≠ .HEALING from htype),
          CombatDamage.abs_negated hunsigned]
      rw [List.foldl_cons, hone]
      exact ih fun script' hmem => hall script' (List.mem_cons_of_mem _ hmem)
  have hall := h.healthChange
  cases hscripts : events.healthChange with
  | nil => exact absurd hscripts hsome
  | cons script scripts =>
    rw [hscripts] at hall
    rw [List.foldl_cons, executeHealthChange_transparent (hall script List.mem_cons_self _) htype,
      habs]
    exact hrest scripts fun script' hmem => hall script' (List.mem_cons_of_mem _ hmem)

/-! ## What is taken -/

/-- The mana that a shield gives for the damage. -/
def Target.absorbs (target : Target) (total : ℤ) : ℤ :=
  if target.manaShield then min target.mana total else 0

/-- The target without `mana` and `health`. -/
def Target.less (target : Target) (mana health : ℤ) : Target :=
  { target with mana := target.mana - mana, health := target.health - health }

theorem Target.less_nothing (target : Target) : target.less 0 0 = target := by
  unfold Target.less
  ext <;> first | rfl | (dsimp only; omega)

theorem Target.less_less (target : Target) (mana mana' health health' : ℤ) :
    (target.less mana health).less mana' health' = target.less (mana + mana') (health + health') := by
  unfold Target.less
  ext <;> first | rfl | (dsimp only; omega)

theorem drainMana_eq (hlimited : target.infiniteMana = false) {manaLoss : ℤ} (hpos : 0 ≤ manaLoss)
    (hle : manaLoss ≤ target.mana) : target.drainMana manaLoss = target.less manaLoss 0 := by
  unfold Target.drainMana Target.changeMana Target.less
  rw [hlimited, if_neg Bool.false_ne_true, if_neg (by omega), max_eq_right (by omega)]
  ext <;> first | rfl | (dsimp only; omega)

theorem absorbMana_eq (h : Transparent events) (hunsigned : damage.Unsigned)
    (hsome : damage.primary.value + damage.secondary.value ≠ 0)
    (htype : damage.primary.type ≠ .UNDEFINEDDAMAGE) (hlimited : target.infiniteMana = false)
    (hmana : 0 ≤ target.mana) :
    ∃ damage', absorbMana events target damage (damage.primary.value + damage.secondary.value) =
        some (target.less
          (target.absorbs (damage.primary.value + damage.secondary.value)) 0, damage') ∧
      damage'.Unsigned ∧ damage'.primary.type = damage.primary.type ∧
      damage'.origin = damage.origin ∧
      damage'.primary.value + damage'.secondary.value =
        damage.primary.value + damage.secondary.value -
          target.absorbs (damage.primary.value + damage.secondary.value) := by
  have hprimary := hunsigned.primary
  have hsecondary := hunsigned.secondary
  have hnothing := target.less_nothing
  generalize htotal : damage.primary.value + damage.secondary.value = total at *
  unfold absorbMana Target.absorbs
  cases hshield : target.manaShield with
  | false =>
    rw [if_neg (by simp), if_neg Bool.false_ne_true, hnothing]
    exact ⟨damage, rfl, hunsigned, rfl, rfl, by omega⟩
  | true =>
    rw [if_pos ⟨rfl, htype⟩, if_pos rfl]
    by_cases hnone : min target.mana total = 0
    · rw [if_neg (not_not.mpr hnone), hnone, hnothing]
      exact ⟨damage, rfl, hunsigned, rfl, rfl, by omega⟩
    · have hpart : 0 ≤ min target.mana total := by omega
      rw [if_pos hnone, manaChange_transparent h, ite_self]
      dsimp only
      rw [if_neg hsome, drainMana_eq hlimited hpart (min_le_left _ _)]
      obtain ⟨hunsigned', hsum⟩ := hunsigned.absorbed hpart (htotal ▸ min_le_right _ _)
      rw [htotal] at hsum
      obtain ⟨htype', horigin⟩ := @CombatDamage.absorbed_type damage (min target.mana total)
      exact ⟨_, rfl, hunsigned', htype', horigin, hsum⟩

theorem strike_eq (h : Transparent events) (hunsigned : damage.Unsigned)
    (hsome : damage.primary.value + damage.secondary.value ≠ 0) (hhealth : 0 < target.health) :
    (strike events target damage).1 = true ∧ (strike events target damage).2.1 =
      target.less 0 (min target.health (damage.primary.value + damage.secondary.value)) := by
  have hprimary := hunsigned.primary
  have hsecondary := hunsigned.secondary
  obtain ⟨hclamped, hsum⟩ := hunsigned.clamped hhealth
  have haccept : events.prepareDeath.all (· target) = true :=
    List.all_eq_true.mpr fun script hmem => h.prepareDeath script hmem target
  unfold strike
  dsimp only
  rw [hclamped.sum_eq, hsum, haccept, if_neg (by omega), if_neg (by simp)]
  refine ⟨rfl, ?_⟩
  unfold Target.drainHealth Target.changeHealth Target.less
  dsimp only
  rw [if_neg (by omega), max_eq_right (by omega)]
  ext <;> first | rfl | (dsimp only; omega)

/-- Damage that meets a target with nothing against it. -/
structure Hits (target : Target) (damage : CombatDamage) : Prop where
  isAttackable : target.isAttackable = true
  infiniteMana : target.infiniteMana = false
  health : 0 < target.health
  mana : 0 ≤ target.mana
  primary : damage.primary.value ≤ 0
  fits : |damage.primary.value| + |damage.secondary.value| < 2147483648
  type : damage.primary.type ≠ .UNDEFINEDDAMAGE

def CombatDamage.total (damage : CombatDamage) : ℤ :=
  |damage.primary.value| + |damage.secondary.value|

variable {attackerPlayer : Option AttackerPlayer}

/-- What goes before the events for a change of health. -/
theorem combatChangeHealth_absorbs (h : Transparent events) (hits : Hits target damage)
    (hspares : spares attackerPlayer target = false) :
    ∃ damage', damage'.Unsigned ∧ damage'.primary.type = damage.primary.type ∧
      damage'.primary.value + damage'.secondary.value =
        damage.total - target.absorbs damage.total ∧
      combatChangeHealth events attackerPlayer target damage =
        if damage'.primary.value + damage'.secondary.value = 0 then
          (true, target.less (target.absorbs damage.total) 0, damage')
        else if damage.origin ≠ .ORIGIN_NONE ∧ events.healthChange ≠ [] then
          combatChangeHealth events attackerPlayer (target.less (target.absorbs damage.total) 0)
            { events.healthChange.foldl executeHealthChange damage' with origin := .ORIGIN_NONE }
        else strike events (target.less (target.absorbs damage.total) 0) damage' := by
  have hunsigned := CombatDamage.Unsigned.abs hits.fits
  have hmana := hits.mana
  have hsum : damage.abs.primary.value + damage.abs.secondary.value = damage.total := rfl
  rw [combatChangeHealth, if_neg (not_lt.mpr hits.primary), if_neg (not_not.mpr hits.isAttackable),
    hspares, if_neg Bool.false_ne_true]
  dsimp only
  rw [hunsigned.sum_eq, hsum]
  by_cases hnone : damage.total = 0
  · have hzero : target.absorbs 0 = 0 := by
      unfold Target.absorbs
      rw [min_eq_right hmana, ite_self]
    refine ⟨damage.abs, hunsigned, rfl, ?_, ?_⟩
    · rw [hsum, hnone, hzero]
      rfl
    · rw [hsum, hnone, if_pos rfl, if_pos rfl, hzero, target.less_nothing]
  · obtain ⟨damage', habsorb, hunsigned', htype, -, hleft⟩ :=
      absorbMana_eq h hunsigned hnone hits.type hits.infiniteMana hmana
    rw [hsum] at habsorb hleft
    refine ⟨damage', hunsigned', htype, hleft, ?_⟩
    rw [if_neg hnone, habsorb]
    dsimp only
    rw [hunsigned'.sum_eq]

/-- Without events for a change of health. -/
theorem combatChangeHealth_direct (h : Transparent events) (hits : Hits target damage)
    (hspares : spares attackerPlayer target = false)
    (hdirect : ¬ (damage.origin ≠ .ORIGIN_NONE ∧ events.healthChange ≠ [])) :
    (combatChangeHealth events attackerPlayer target damage).1 = true ∧
      (combatChangeHealth events attackerPlayer target damage).2.1 =
        target.less (target.absorbs damage.total)
          (min target.health (damage.total - target.absorbs damage.total)) := by
  obtain ⟨damage', hunsigned, htype, hleft, heq⟩ := combatChangeHealth_absorbs h hits hspares
  have hhealth := hits.health
  rw [heq, if_neg hdirect, ← hleft]
  split_ifs with hnone
  · rw [hnone, min_eq_right hhealth.le]
    exact ⟨rfl, rfl⟩
  · have hhealth' : 0 < (target.less (target.absorbs damage.total) 0).health := by
      change 0 < target.health - 0
      omega
    obtain ⟨hreturned, htarget⟩ := strike_eq h hunsigned hnone hhealth'
    refine ⟨hreturned, htarget.trans ?_⟩
    rw [Target.less_less]
    change target.less _ (0 + min (target.health - 0) _) = _
    rw [add_zero, zero_add, sub_zero]

theorem absorbs_le (hmana : 0 ≤ target.mana) (total : ℤ) : target.absorbs total ≤ target.mana := by
  unfold Target.absorbs
  split_ifs
  · exact min_le_left _ _
  · exact hmana

/-- What the shield has left over meets no mana any more. -/
theorem absorbs_rest {total : ℤ} (hrest : 0 < total - target.absorbs total) :
    (target.less (target.absorbs total) 0).absorbs (total - target.absorbs total) = 0 := by
  change (if target.manaShield then min (target.mana - target.absorbs total) _ else 0) = 0
  unfold Target.absorbs at hrest ⊢
  split_ifs at hrest ⊢ with hshield
  · omega
  · rfl

/-- The events hand over what the shield has left, and the second call takes it. -/
theorem combatChangeHealth_events (h : Transparent events) (hits : Hits target damage)
    (hspares : spares attackerPlayer target = false)
    (hevents : damage.origin ≠ .ORIGIN_NONE ∧ events.healthChange ≠ [])
    (htype : damage.primary.type ≠ .HEALING) :
    (combatChangeHealth events attackerPlayer target damage).1 = true ∧
      (combatChangeHealth events attackerPlayer target damage).2.1 =
        target.less (target.absorbs damage.total)
          (min target.health (damage.total - target.absorbs damage.total)) := by
  obtain ⟨damage', hunsigned, htype', hleft, heq⟩ := combatChangeHealth_absorbs h hits hspares
  have hhealth := hits.health
  rw [heq, if_pos hevents, ← hleft]
  split_ifs with hnone
  · rw [hnone, min_eq_right hhealth.le]
    exact ⟨rfl, rfl⟩
  · rw [healthChange_transparent h hevents.2 hunsigned (htype' ▸ htype)]
    have htotal : ({ damage'.negated with origin := .ORIGIN_NONE } : CombatDamage).total =
        damage'.primary.value + damage'.secondary.value := by
      change |(-damage'.primary.value)| + |(-damage'.secondary.value)| = _
      rw [abs_neg, abs_neg, abs_of_nonneg hunsigned.primary, abs_of_nonneg hunsigned.secondary]
    have hmana : 0 ≤ (target.less (target.absorbs damage.total) 0).mana :=
      sub_nonneg.mpr (absorbs_le hits.mana _)
    have hits' : Hits (target.less (target.absorbs damage.total) 0)
        { damage'.negated with origin := .ORIGIN_NONE } :=
      ⟨hits.isAttackable, hits.infiniteMana, by
        change 0 < target.health - 0
        omega, hmana, neg_nonpos_of_nonneg hunsigned.primary, by
        change CombatDamage.total _ < _
        rw [htotal]
        exact hunsigned.fits, htype' ▸ hits.type⟩
    have hrest : (target.less (target.absorbs damage.total) 0).absorbs
        (damage'.primary.value + damage'.secondary.value) = 0 := by
      have hprimary := hunsigned.primary
      have hsecondary := hunsigned.secondary
      rw [hleft] at hnone ⊢
      exact absorbs_rest (by omega)
    obtain ⟨hreturned, htarget⟩ := combatChangeHealth_direct h hits' hspares (fun hno => hno.1 rfl)
    refine ⟨hreturned, htarget.trans ?_⟩
    rw [htotal, hrest, Target.less_less, add_zero, zero_add, sub_zero]
    change target.less _ (min (target.health - 0) _) = _
    rw [sub_zero]

/-- The mana and the health that damage takes, whatever events that change nothing are asked. -/
theorem combatChangeHealth_takes (h : Transparent events) (hits : Hits target damage)
    (hheals : damage.primary.type = .HEALING →
      damage.origin = .ORIGIN_NONE ∨ events.healthChange = [])
    (attackerPlayer : Option AttackerPlayer) :
    if spares attackerPlayer target then
      combatChangeHealth events attackerPlayer target damage = (false, target, damage)
    else
      (combatChangeHealth events attackerPlayer target damage).1 = true ∧
        (combatChangeHealth events attackerPlayer target damage).2.1 =
          target.less (target.absorbs damage.total)
            (min target.health (damage.total - target.absorbs damage.total)) := by
  split_ifs with hspares
  · rw [combatChangeHealth, if_neg (not_lt.mpr hits.primary), if_neg (not_not.mpr hits.isAttackable),
      if_pos hspares]
  · rw [Bool.not_eq_true] at hspares
    by_cases hevents : damage.origin ≠ .ORIGIN_NONE ∧ events.healthChange ≠ []
    · have htype : damage.primary.type ≠ .HEALING := fun htype =>
        (hheals htype).elim hevents.1 hevents.2
      exact combatChangeHealth_events h hits hspares hevents htype
    · exact combatChangeHealth_direct h hits hspares hevents

/-- One event of each kind. -/
def oneEach : Events where
  healthChange := [fun damage => some (damage.primary, damage.secondary)]
  manaChange := [fun manaChange _ => some manaChange]
  prepareDeath := [fun _ => true]

theorem oneEach_transparent : Transparent oneEach where
  healthChange script hmem damage := by
    obtain rfl := List.mem_singleton.mp hmem
    rfl
  manaChange script hmem manaChange origin := by
    obtain rfl := List.mem_singleton.mp hmem
    rfl
  prepareDeath script hmem target := by
    obtain rfl := List.mem_singleton.mp hmem
    rfl

def shielded : Target :=
  { health := 100, healthMax := 150, mana := 50, manaMax := 50, manaShield := true }

def fireAndEnergy : CombatDamage where
  primary := ⟨.FIREDAMAGE, -40⟩
  secondary := ⟨.ENERGYDAMAGE, -30⟩
  origin := .ORIGIN_SPELL

/-- Of 70 points 50 are absorbed, whatever the events. -/
theorem shield_absorbs_fifty :
    (combatChangeHealth oneEach none shielded fireAndEnergy).2.1 = shielded.less 50 20 := by
  have hits : Hits shielded fireAndEnergy :=
    ⟨rfl, rfl, by decide, by decide, by decide, by decide, by decide⟩
  have htakes := combatChangeHealth_takes oneEach_transparent hits
    (fun htype => absurd htype (by decide)) none
  rw [if_neg (by decide)] at htakes
  exact htakes.2.trans (by decide)

def bare : Target := { shielded with manaShield := false }

def healing : CombatDamage where
  primary := ⟨.HEALING, -10⟩
  origin := .ORIGIN_SPELL

/-- A player without a skull loses nothing to a black one; and damage of the healing type heals
once an event has been asked. -/
theorem spared_and_healed :
    (¬ ∀ (events : Events) (attackerPlayer : Option AttackerPlayer) (target : Target)
      (damage : CombatDamage), Transparent events → Hits target damage →
        (combatChangeHealth events attackerPlayer target damage).2.1 =
          target.less (target.absorbs damage.total)
            (min target.health (damage.total - target.absorbs damage.total))) ∧
    (combatChangeHealth oneEach none bare healing).2.1.health = 110 := by
  constructor
  · intro h
    have htakes := h {} (some ⟨.SKULL_BLACK, .SKULL_NONE⟩)
      { shielded with isPlayer := true } fireAndEnergy
      ⟨fun _ hmem => absurd hmem List.not_mem_nil, fun _ hmem => absurd hmem List.not_mem_nil,
        fun _ hmem => absurd hmem List.not_mem_nil⟩
      ⟨rfl, rfl, by decide, by decide, by decide, by decide, by decide⟩
    rw [combatChangeHealth, if_neg (by decide), if_neg (by decide), if_pos (by decide)] at htakes
    revert htakes
    decide
  · have habsorb : absorbMana oneEach bare healing.abs healing.abs.sum = some (bare, healing.abs) := by
      decide
    rw [combatChangeHealth, if_neg (by decide), if_neg (by decide), if_neg (by decide)]
    dsimp only
    rw [if_neg (by decide), habsorb]
    dsimp only
    rw [if_neg (by decide), if_pos (by decide), combatChangeHealth, if_pos (by decide),
      if_neg (by decide), if_neg (by decide), if_neg (by decide)]
    decide

end TibiaServer.Game.CombatHealth
