import TibiaServer.Cylinders.Item
import TibiaServer.Library.Run
/-!
# Skull time

Every unjustified kill adds the time of a frag to a player's skull time, which `checkSkullTicks`
takes off again.  The time is 64 bits wide, but what is left of it goes through 32 bits: from
2147483648 milliseconds on it is lost.
-/

namespace TibiaServer.Players

open Cylinders (toInt32)
open Library.Run

namespace SkullTicks

inductive Skulls_t
  | SKULL_NONE
  | SKULL_YELLOW
  | SKULL_GREEN
  | SKULL_WHITE
  | SKULL_RED
  | SKULL_BLACK
  deriving DecidableEq

open Skulls_t

/-- What `g_config.getNumber` answers, `int32_t`s. -/
structure Config where
  FRAG_TIME : ℤ := 86400000
  KILLS_TO_RED : ℤ := 3
  KILLS_TO_BLACK : ℤ := 6

structure Player where
  /-- an `int64_t` -/
  skullTicks : ℤ := 0
  skull : Skulls_t := .SKULL_NONE
  deriving DecidableEq

def toInt64 (n : ℤ) : ℤ := n.bmod 18446744073709551616

variable (config : Config) (player : Player)

/-- The skull for more than `kills` frags is due. -/
def exceeds (kills skullTicks : ℤ) : Bool :=
  kills ≠ 0 && (kills - 1) * config.FRAG_TIME < skullTicks

/-- `exempt`: the player has `PlayerFlag_NotGainInFight`, has killed himself, or the world is
`WORLD_TYPE_PVP_ENFORCED`. -/
def addUnjustifiedDead (exempt : Bool) : Player :=
  if exempt then player
  else
    let skullTicks := toInt64 (player.skullTicks + config.FRAG_TIME)
    let skull :=
      if player.skull ≠ SKULL_BLACK then
        if exceeds config config.KILLS_TO_BLACK skullTicks then SKULL_BLACK
        else if player.skull ≠ SKULL_RED && exceeds config config.KILLS_TO_RED skullTicks then
          SKULL_RED
        else player.skull
      else player.skull
    { skullTicks, skull }

/-- `inFight`: the player has `CONDITION_INFIGHT`. -/
def checkSkullTicks (ticks : ℤ) (inFight : Bool) : Player :=
  -- an `int32_t`
  let newTicks := toInt32 (player.skullTicks - ticks)
  let skullTicks := if newTicks < 0 then 0 else newTicks
  let skull :=
    if (player.skull = SKULL_RED ∨ player.skull = SKULL_BLACK) ∧ skullTicks < 1000 ∧
        inFight = false then SKULL_NONE
    else player.skull
  { skullTicks, skull }

/-! ## Runs -/

inductive Action
  | addUnjustifiedDead (exempt : Bool)
  | checkSkullTicks (ticks : ℤ) (inFight : Bool)

def step (config : Config) (player : Player) : Action → Option Player
  | .addUnjustifiedDead exempt => some (addUnjustifiedDead config player exempt)
  | .checkSkullTicks ticks inFight => some (checkSkullTicks player ticks inFight)

/-- A check takes just the elapsed time, and a red or black skull goes only with the last second
of the time. -/
def Kept (player : Player) : Action → Prop
  | .addUnjustifiedDead _ => True
  | .checkSkullTicks ticks inFight =>
    (checkSkullTicks player ticks inFight).skullTicks = max 0 (player.skullTicks - ticks) ∧
      (player.skull = SKULL_RED ∨ player.skull = SKULL_BLACK →
        (checkSkullTicks player ticks inFight).skull ≠ player.skull →
          max 0 (player.skullTicks - ticks) < 1000)

/-- What is left of the time is less than 2^31, and not, below zero, taken for more than zero. -/
def Fits (player : Player) : Action → Prop
  | .addUnjustifiedDead _ => True
  | .checkSkullTicks ticks _ => player.skullTicks - ticks < 2147483648 ∧
      (player.skullTicks < ticks → toInt32 (player.skullTicks - ticks) ≤ 0)

variable {config player}

theorem clamp_toInt32_iff (n : ℤ) : (if toInt32 n < 0 then 0 else toInt32 n) = max 0 n ↔
    n < 2147483648 ∧ (n < 0 → toInt32 n ≤ 0) := by
  have hlow : -2147483648 ≤ toInt32 n ∧ toInt32 n < 2147483648 :=
    ⟨Int.le_bmod (by decide), Int.bmod_lt (by decide)⟩
  have hexact : -2147483648 ≤ n → n < 2147483648 → toInt32 n = n := fun hle hlt =>
    Int.bmod_eq_of_le hle hlt
  rcases max_cases 0 n with ⟨hmax, hsign⟩ | ⟨hmax, hsign⟩ <;> rw [hmax] <;> split_ifs <;> omega

theorem kept_iff (a : Action) : Kept player a ↔ Fits player a := by
  cases a with
  | addUnjustifiedDead exempt => exact Iff.rfl
  | checkSkullTicks ticks inFight =>
    have hticks := clamp_toInt32_iff (player.skullTicks - ticks)
    rw [sub_neg] at hticks
    constructor
    · exact fun h => hticks.mp h.1
    · intro hfits
      have hexact := hticks.mpr hfits
      refine ⟨hexact, fun _ hgone => ?_⟩
      rw [← hexact]
      by_contra hmany
      refine hgone (if_neg ?_)
      exact fun h => hmany h.2.1

/-- In every run the checks keep the time exactly as long as what is left of it fits. -/
theorem skull_time_kept_iff (config : Config) (player : Player) (actions : List Action) :
    EachStep (step config) Kept player actions ↔ EachStep (step config) Fits player actions :=
  eachStep_congr (I := fun _ => True) (fun _ _ _ _ _ _ => trivial)
    (fun _ a _ _ _ => kept_iff a) actions player trivial

/-- The 25 kills of a player leave 2160000000 milliseconds, and the next check takes them all. -/
theorem skull_vanishes : ¬ ∀ (config : Config) (player : Player) (actions : List Action),
    EachStep (step config) Kept player actions := by
  intro h
  have hrun := h {} {} (List.replicate 25 (.addUnjustifiedDead false) ++ [.checkSkullTicks 1000 false])
  have hkills : run (step {}) {} (List.replicate 25 (.addUnjustifiedDead false)) =
      some { skullTicks := 2160000000, skull := .SKULL_BLACK } := by decide +kernel
  have hchecked := (hrun.drop hkills _ rfl).1.1
  revert hchecked
  decide

end SkullTicks

end TibiaServer.Players
