import Mathlib.Data.List.Basic
import Mathlib.Tactic.Ring
/-!
# Premium time

`Game::updatePremium` takes the days that have gone by off the premium days of an account.  The
day that has begun stays with the account: `lastDay` goes on by whole days.
-/

namespace TibiaServer.Game

/-- The premium days are a `uint16_t`, `lastDay` is a `time_t`. -/
@[ext]
structure Account where
  premiumDays : ℕ
  lastDay : ℤ
  uint16 : premiumDays < 65536

namespace Account

def expired : Account := ⟨0, 0, by decide⟩

def withLastDay (account : Account) (lastDay : ℤ) : Account := { account with lastDay := lastDay }

/-- `days` are fewer than the premium days. -/
def withoutDays (account : Account) (days : ℕ) (lastDay : ℤ) : Account where
  premiumDays := account.premiumDays - days
  lastDay := lastDay
  uint16 := (Nat.sub_le _ _).trans_lt account.uint16

/-- The account has premium days that run. -/
structure Running (account : Account) : Prop where
  some_left : account.premiumDays ≠ 0
  limited : account.premiumDays ≠ 65535
  since : account.lastDay ≠ 0

end Account

/-- Whether the account is saved, and what has become of it. -/
def updatePremium (account : Account) (timeNow : ℤ) : Bool × Account :=
  if account.premiumDays ≠ 0 ∧ account.premiumDays ≠ 65535 then
    if account.lastDay = 0 then (true, account.withLastDay timeNow)
    else
      -- a `uint32_t`
      let days := ((timeNow - account.lastDay).tdiv 86400 % 4294967296).toNat
      if 0 < days then
        if account.premiumDays ≤ days then (true, Account.expired)
        else
          let remainder := (timeNow - account.lastDay).tmod 86400
          (true, account.withoutDays days (timeNow - remainder))
      else (false, account)
  else if account.lastDay ≠ 0 then (true, account.withLastDay 0)
  else (false, account)

/-- The logins of an account, one after the other. -/
def updatePremiums (account : Account) (times : List ℤ) : Account :=
  times.foldl (fun account timeNow => (updatePremium account timeNow).2) account

namespace Account

variable {account : Account}

def daysUntil (account : Account) (timeNow : ℤ) : ℕ := ((timeNow - account.lastDay) / 86400).toNat

/-- The account when `days` have gone by. -/
def after (account : Account) (days : ℕ) : Account :=
  if account.premiumDays ≤ days then expired
  else account.withoutDays days (account.lastDay + 86400 * days)

theorem after_spent {days : ℕ} (hspent : account.premiumDays ≤ days) :
    account.after days = expired := if_pos hspent

theorem after_left {days : ℕ} (hleft : days < account.premiumDays) :
    account.after days = account.withoutDays days (account.lastDay + 86400 * days) :=
  if_neg (by omega)

/-- Days that go by one after the other. -/
theorem after_after {d e : ℕ} (hleft : d < account.premiumDays) :
    (account.after d).after e = account.after (d + e) := by
  rw [after_left hleft]
  unfold after withoutDays
  dsimp only
  split_ifs with hspent hspent' hspent'
  · rfl
  · omega
  · omega
  · ext
    · dsimp only
      omega
    · push_cast
      ring

theorem Running.after (h : account.Running) (hclock : 0 ≤ account.lastDay) {days : ℕ}
    (hleft : days < account.premiumDays) : (account.after days).Running := by
  have hlimited := h.limited
  have hwidth := account.uint16
  have hsince := h.since
  rw [after_left hleft]
  constructor
  · change account.premiumDays - days ≠ 0
    omega
  · change account.premiumDays - days ≠ 65535
    omega
  · change account.lastDay + 86400 * (days : ℤ) ≠ 0
    omega

/-- What is left of the time is counted from the new `lastDay`. -/
theorem daysUntil_after {timeNow later : ℤ} (hle : account.lastDay ≤ timeNow)
    (hle' : timeNow ≤ later) (hleft : account.daysUntil timeNow < account.premiumDays) :
    (account.after (account.daysUntil timeNow)).lastDay ≤ timeNow ∧
      account.lastDay ≤ (account.after (account.daysUntil timeNow)).lastDay ∧
      account.daysUntil timeNow + (account.after (account.daysUntil timeNow)).daysUntil later =
        account.daysUntil later := by
  rw [after_left hleft]
  change account.lastDay + 86400 * (account.daysUntil timeNow : ℤ) ≤ timeNow ∧
    account.lastDay ≤ account.lastDay + 86400 * (account.daysUntil timeNow : ℤ) ∧
    account.daysUntil timeNow + ((later - (account.lastDay + 86400 *
      (account.daysUntil timeNow : ℤ))) / 86400).toNat = account.daysUntil later
  unfold daysUntil
  omega

end Account

open Account

theorem updatePremium_running {account : Account} (h : account.Running) {timeNow : ℤ}
    (hle : account.lastDay ≤ timeNow) (hwithin : timeNow - account.lastDay < 86400 * 4294967296) :
    (updatePremium account timeNow).2 = account.after (account.daysUntil timeNow) := by
  have hdays : ((timeNow - account.lastDay).tdiv 86400 % 4294967296).toNat =
      account.daysUntil timeNow := by
    unfold daysUntil
    rw [Int.tdiv_eq_ediv_of_nonneg (by omega), Int.emod_eq_of_lt (by omega) (by omega)]
  have hleft := h.some_left
  unfold updatePremium Account.after
  rw [if_pos ⟨hleft, h.limited⟩, if_neg h.since]
  dsimp only
  rw [hdays, Int.tmod_eq_emod_of_nonneg (by omega)]
  unfold daysUntil
  split_ifs with hdays hspent
  · rfl
  · refine congrArg (account.withoutDays _) ?_
    omega
  · omega
  · unfold withoutDays
    ext
    · dsimp only
      omega
    · dsimp only
      omega

/-- An account whose premium time is over stays as it is. -/
theorem updatePremiums_expired (times : List ℤ) : updatePremiums expired times = expired := by
  induction times with
  | nil => rfl
  | cons timeNow times ih => exact ih

/-- What is left of the days, and the whole days that `lastDay` has gone on by. -/
theorem after_whole {account : Account} {days : ℕ} (hleft : (account.after days).premiumDays ≠ 0) :
    (account.after days).lastDay = account.lastDay + 86400 * days ∧
      (account.after days).premiumDays + days = account.premiumDays := by
  have hless : days < account.premiumDays := by
    by_contra hspent
    rw [after_spent (not_lt.mp hspent)] at hleft
    exact hleft rfl
  rw [after_left hless]
  exact ⟨rfl, Nat.sub_add_cancel hless.le⟩

theorem updatePremiums_running {account : Account} (h : account.Running)
    (hclock : 0 ≤ account.lastDay) {times : List ℤ} {timeNow : ℤ}
    (hsorted : (account.lastDay :: (times ++ [timeNow])).Pairwise (· ≤ ·))
    (hwithin : timeNow - account.lastDay < 86400 * 4294967296) :
    updatePremiums account (times ++ [timeNow]) = account.after (account.daysUntil timeNow) := by
  induction times generalizing account with
  | nil =>
    have hle : account.lastDay ≤ timeNow := List.rel_of_pairwise_cons hsorted (by simp)
    exact updatePremium_running h hle hwithin
  | cons first times ih =>
    obtain ⟨hafter, hrest⟩ := List.pairwise_cons.mp hsorted
    have hle : account.lastDay ≤ first := hafter first (by simp)
    have hlast : first ≤ timeNow := List.rel_of_pairwise_cons hrest (by simp)
    have hfirst := updatePremium_running h hle (by omega)
    change updatePremiums (updatePremium account first).2 (times ++ [timeNow]) = _
    rw [hfirst]
    rcases Nat.lt_or_ge (account.daysUntil first) account.premiumDays with hleft | hspent
    · obtain ⟨hbefore, hgrows, hdays⟩ := daysUntil_after hle hlast hleft
      have hsorted' : ((account.after (account.daysUntil first)).lastDay ::
          (times ++ [timeNow])).Pairwise (· ≤ ·) := by
        refine List.pairwise_cons.mpr ⟨fun time htime => ?_, (List.pairwise_cons.mp hrest).2⟩
        exact hbefore.trans (List.rel_of_pairwise_cons hrest htime)
      rw [ih (h.after hclock hleft) (hclock.trans hgrows) hsorted' (by omega),
        after_after hleft, hdays]
    · have hmore : account.daysUntil first ≤ account.daysUntil timeNow := by
        unfold daysUntil
        omega
      rw [after_spent hspent, after_spent (hspent.trans hmore)]
      exact updatePremiums_expired _

/-- Logins at any times up to a last one come to the same as the last one alone, which takes the
whole days that have gone by. -/
theorem updatePremiums_append (account : Account) (hleft : account.premiumDays ≠ 0)
    (hlimited : account.premiumDays ≠ 65535) (hlast : account.lastDay ≠ 0)
    (hclock : 0 ≤ account.lastDay) (times : List ℤ) (timeNow : ℤ)
    (hsorted : (account.lastDay :: (times ++ [timeNow])).Pairwise (· ≤ ·))
    (hwithin : timeNow - account.lastDay < 86400 * 4294967296) :
    updatePremiums account (times ++ [timeNow]) = (updatePremium account timeNow).2 ∧
      ((updatePremium account timeNow).2.premiumDays ≠ 0 → ∃ days : ℕ,
        (updatePremium account timeNow).2.lastDay = account.lastDay + 86400 * days ∧
          (updatePremium account timeNow).2.premiumDays + days = account.premiumDays) := by
  have hrunning : account.Running := ⟨hleft, hlimited, hlast⟩
  have hle : account.lastDay ≤ timeNow := List.rel_of_pairwise_cons hsorted (by simp)
  rw [updatePremium_running hrunning hle hwithin]
  exact ⟨updatePremiums_running hrunning hclock hsorted hwithin,
    fun hstill => ⟨account.daysUntil timeNow, after_whole hstill⟩⟩

/-- Ten days, and logins on the first, the second and the fourth day. -/
theorem ten_days_left : updatePremiums ⟨10, 1500000000, by decide⟩
    [1500050000, 1500100000, 1500300000] =
      (updatePremium ⟨10, 1500000000, by decide⟩ 1500300000).2 :=
  (updatePremiums_append ⟨10, 1500000000, by decide⟩ (by decide) (by decide) (by decide)
    (by decide) [1500050000, 1500100000] 1500300000 (by decide) (by decide)).1

end TibiaServer.Game
