import TibiaServer.Players.Skills
/-!
# Advances

`addSkillAdvance`, `addManaSpent` and `addOfflineTrainingTries` walk a level up, and look up on the
way what each level requires.  A vocation keeps what it has computed: the mana as it is, the tries
of a skill in a `uint32_t`.
-/

namespace TibiaServer.Players

open Library.Levels

/-- What the formula gives for a level, before a cache keeps it. -/
structure Formula where
  value : ℕ → ℕ
  uint64 : ∀ level, value level < 18446744073709551616

/-- What the levels require: `kept` is what the cache makes of a number. -/
structure Requirements where
  formula : Formula
  kept : ℕ → ℕ

/-- `cacheSkill` maps to `uint32_t`. -/
def Formula.skillTries (formula : Formula) : Requirements := ⟨formula, (· % 4294967296)⟩

/-- `cacheMana` maps to `uint64_t`. -/
def Formula.mana (formula : Formula) : Requirements := ⟨formula, id⟩

namespace Requirements

/-- `getReqSkillTries` or `getReqMana` when the cache holds `cache`. -/
def get (r : Requirements) (cache : Finset ℕ) (level : ℕ) : ℕ :=
  if level ∈ cache then r.kept (r.formula.value level) else r.formula.value level

/-- The loop's variables, and the levels that the cache holds. -/
structure Walk where
  cache : Finset ℕ
  level : ℕ
  tries : ℕ
  count : ℕ
  currReq : ℕ
  nextReq : ℕ

namespace Walk

/-- The next level is no harder than this one. -/
def AtMax (w : Walk) : Prop := w.nextReq ≤ w.currReq

instance (w : Walk) : Decidable w.AtMax := inferInstanceAs (Decidable (_ ≤ _))

/-- The next level is reached. -/
def next (r : Requirements) (w : Walk) : Walk where
  cache := insert (w.level + 2) w.cache
  level := w.level + 1
  tries := 0
  count := Players.sub64 w.count (Players.sub64 w.nextReq w.tries)
  currReq := w.nextReq
  nextReq := r.get w.cache (w.level + 2)

/-- The loop of the three functions. -/
def advance (r : Requirements) (w : Walk) : Walk :=
  if w.nextReq ≤ (w.tries + w.count) % 18446744073709551616 then
    if (w.next r).AtMax then { w.next r with count := 0 } else advance r (w.next r)
  else w
termination_by (if w.tries = 0 ∧ 0 < w.nextReq then 0 else 1, w.count)
decreasing_by
  rename_i hnext hmax
  have hpos : 0 < (w.next r).nextReq := Nat.zero_lt_of_lt (Nat.not_le.mp hmax)
  rw [if_pos ⟨rfl, hpos⟩]
  by_cases h : w.tries = 0 ∧ 0 < w.nextReq
  · obtain ⟨hzero, hpos⟩ := h
    rw [if_pos ⟨hzero, hpos⟩]
    refine Prod.Lex.right _ ?_
    rw [hzero] at hnext
    unfold next Players.sub64
    dsimp only
    omega
  · rw [if_neg h]
    exact Prod.Lex.left _ _ Nat.zero_lt_one

/-- The level and the tries when the loop is over, with their percentage. -/
def settled (w : Walk) : Skill :=
  let tries := (w.tries + w.count) % 18446744073709551616
  { level := w.level, tries,
    percent := if w.currReq < w.nextReq then getPercentLevel tries w.nextReq else 0 }

end Walk

/-- What the level and the next one require is looked up. -/
def enter (r : Requirements) (p : Finset ℕ × Skill) (count : ℕ) : Walk where
  cache := insert (p.2.level + 1) (insert p.2.level p.1)
  level := p.2.level
  tries := p.2.tries
  count := count
  currReq := r.get p.1 p.2.level
  nextReq := r.get (insert p.2.level p.1) (p.2.level + 1)

/-- The event leaves `count` as it is. -/
def addSkillAdvance (r : Requirements) (p : Finset ℕ × Skill) (count : ℕ) : Finset ℕ × Skill :=
  let w := r.enter p count
  if w.AtMax then (w.cache, p.2)
  else if count = 0 then (w.cache, p.2)
  else ((w.advance r).cache, (w.advance r).settled)

/-- The level is the magic level and the tries are the mana spent; `notGainMana` is
`PlayerFlag_NotGainMana`. -/
def addManaSpent (r : Requirements) (notGainMana : Bool) (p : Finset ℕ × Skill) (amount : ℕ) :
    Finset ℕ × Skill :=
  if notGainMana then p
  else
    let w := r.enter p amount
    if w.AtMax then (w.cache, p.2)
    else if amount = 0 then (w.cache, p.2)
    else
      let w := w.advance r
      -- the loop returns at the last level, before the percentage is computed
      if w.AtMax then (w.cache, { level := w.level, tries := w.tries, percent := p.2.percent })
      else (w.cache, w.settled)

/-- For a skill and for the magic level. -/
def addOfflineTrainingTries (r : Requirements) (p : Finset ℕ × Skill) (tries : ℕ) :
    Finset ℕ × Skill :=
  if tries = 0 then p
  else
    let w := r.enter p tries
    if w.AtMax then (w.cache, p.2) else ((w.advance r).cache, (w.advance r).settled)

/-! ## Where a walk ends -/

variable {r : Requirements} {cache : Finset ℕ} {low : ℕ}

/-- The walk started at `low`: what it looks up are the levels from there on, each once. -/
structure Walk.From (r : Requirements) (cache : Finset ℕ) (low : ℕ) (w : Walk) : Prop where
  reached : low ≤ w.level
  seen : ∀ c, c ∈ w.cache ↔ c ∈ cache ∨ low ≤ c ∧ c ≤ w.level + 1
  currReq : w.currReq = r.get cache w.level
  nextReq : w.nextReq = r.get cache (w.level + 1)

namespace Walk

variable {w : Walk}

theorem From.atMax_iff (h : w.From r cache low) :
    w.AtMax ↔ r.get cache (w.level + 1) ≤ r.get cache w.level := by
  unfold AtMax
  rw [h.currReq, h.nextReq]

theorem From.next (h : w.From r cache low) : (w.next r).From r cache low where
  reached := h.reached.trans (Nat.le_succ _)
  seen := by
    intro c
    have hreached := h.reached
    unfold Walk.next
    rw [Finset.mem_insert, h.seen]
    grind
  currReq := h.nextReq
  nextReq := by
    have hlevel : w.level + 2 ∈ w.cache ↔ w.level + 2 ∈ cache := by
      rw [h.seen]
      grind
    unfold Walk.next get
    dsimp only
    simp only [hlevel]

theorem From.advance (h : w.From r cache low) : (w.advance r).From r cache low := by
  fun_induction Walk.advance r w with
  | case1 w hnext hmax => exact ⟨h.next.reached, h.next.seen, h.next.currReq, h.next.nextReq⟩
  | case2 w hnext hmax ih => exact ih h.next
  | case3 w hnext => exact h

/-- What is left of the points when the next level is paid. -/
theorem next_points (hfits : w.tries + w.count < 18446744073709551616)
    (hpaid : w.nextReq ≤ w.tries + w.count) :
    (w.next r).tries + (w.next r).count = w.tries + w.count - w.nextReq := by
  unfold Walk.next Players.sub64
  dsimp only
  omega

theorem stopsAt_advance (h : w.From r cache low) (hgrows : ¬ w.AtMax)
    (hfits : w.tries + w.count < 18446744073709551616) :
    StopsAt (r.get cache) w.level (w.tries + w.count) (w.advance r).level ∧
      (w.advance r).tries + (w.advance r).count =
        remainder (r.get cache) w.level (w.tries + w.count) (w.advance r).level := by
  fun_induction Walk.advance r w with
  | case1 w hnext hmax =>
    rw [Nat.mod_eq_of_lt hfits, h.nextReq] at hnext
    rw [h.next.atMax_iff] at hmax
    rw [h.atMax_iff, Nat.not_le] at hgrows
    obtain ⟨hstops, hleft⟩ := StopsAt.step hgrows hnext (StopsAt.here (.inl hmax))
    refine ⟨hstops, ?_⟩
    rw [remainder, if_pos hmax]
    rfl
  | case2 w hnext hmax ih =>
    rw [Nat.mod_eq_of_lt hfits] at hnext
    have hpoints := next_points (r := r) hfits hnext
    obtain ⟨hstops, hleft⟩ := ih h.next hmax (by omega)
    rw [hpoints, h.nextReq] at hstops hleft
    rw [h.nextReq] at hnext
    rw [h.atMax_iff, Nat.not_le] at hgrows
    obtain ⟨hstops', hleft'⟩ := StopsAt.step hgrows hnext hstops
    exact ⟨hstops', hleft.trans hleft'.symm⟩
  | case3 w hnext =>
    rw [Nat.mod_eq_of_lt hfits, h.nextReq] at hnext
    rw [h.atMax_iff] at hgrows
    refine ⟨StopsAt.here (.inr (by omega)), ?_⟩
    rw [remainder, if_neg hgrows, worth_low]
    rfl

theorem tries_of_atMax (hgrows : ¬ w.AtMax) (hmax : (w.advance r).AtMax) :
    (w.advance r).tries = 0 := by
  fun_induction Walk.advance r w with
  | case1 w hnext hend => rfl
  | case2 w hnext hend ih => exact ih hend hmax
  | case3 w hnext => exact absurd hmax hgrows

end Walk

/-- What is shown of who has spent `points` from `low` on and has come to `level`. -/
def outcome (cost : ℕ → ℕ) (low points level : ℕ) : Skill :=
  let tries := remainder cost low points level
  { level, tries,
    percent := if cost level < cost (level + 1) then getPercentLevel tries (cost (level + 1)) else 0 }

theorem outcome_congr {cost cost' : ℕ → ℕ} {points level : ℕ} (hlow : low ≤ level)
    (habove : ∀ c, low < c → cost' c = cost c)
    (hend : cost' (level + 1) ≤ cost' level ↔ cost (level + 1) ≤ cost level) :
    outcome cost' low points level = outcome cost low points level := by
  have hnext : cost' (level + 1) = cost (level + 1) := habove _ (by omega)
  have hgrows : cost' level < cost' (level + 1) ↔ cost level < cost (level + 1) := by
    rw [← Nat.not_le, ← Nat.not_le, hend]
  have hworth : worth cost' low level 0 = worth cost low level 0 :=
    worth_congr fun c hc _ => habove c hc
  unfold outcome remainder
  simp only [hend, hgrows, hworth]
  rw [hnext]

theorem enter_from (p : Finset ℕ × Skill) (count : ℕ) :
    (r.enter p count).From r p.1 p.2.level where
  reached := Nat.le_refl _
  seen := by
    intro c
    unfold enter
    rw [Finset.mem_insert, Finset.mem_insert]
    grind
  currReq := rfl
  nextReq := by
    have hlevel : p.2.level + 1 ∈ insert p.2.level p.1 ↔ p.2.level + 1 ∈ p.1 := by
      rw [Finset.mem_insert]
      grind
    unfold enter get
    dsimp only
    simp only [hlevel]

/-- The levels that a walk from `low` to `level` adds to the cache. -/
def Seen (cache : Finset ℕ) (low level : ℕ) (cache' : Finset ℕ) : Prop :=
  ∀ c, c ∈ cache' ↔ c ∈ cache ∨ low ≤ c ∧ c ≤ level + 1

variable {s : Skill} {count : ℕ}

theorem advance_spec (hgrows : r.get cache s.level < r.get cache (s.level + 1))
    (hfits : s.tries + count < 18446744073709551616) :
    ∃ level, StopsAt (r.get cache) s.level (s.tries + count) level ∧
      ((r.enter (cache, s) count).advance r).settled =
        outcome (r.get cache) s.level (s.tries + count) level ∧
      (((r.enter (cache, s) count).advance r).AtMax ↔
        r.get cache (level + 1) ≤ r.get cache level) ∧
      ((r.enter (cache, s) count).advance r).level = level ∧
      Seen cache s.level level ((r.enter (cache, s) count).advance r).cache := by
  have hfrom := enter_from (r := r) (cache, s) count
  have hmax : ¬ (r.enter (cache, s) count).AtMax := by
    rw [hfrom.atMax_iff]
    exact Nat.not_le.mpr hgrows
  obtain ⟨hstops, hleft⟩ := Walk.stopsAt_advance hfrom hmax hfits
  change _ = remainder (r.get cache) s.level (s.tries + count) _ at hleft
  have hend := hfrom.advance
  refine ⟨_, hstops, ?_, hend.atMax_iff, rfl, hend.seen⟩
  have hsmall : remainder (r.get cache) s.level (s.tries + count)
      ((r.enter (cache, s) count).advance r).level < 18446744073709551616 :=
    lt_of_le_of_lt (remainder_le _ _ _ _) hfits
  unfold Walk.settled
  rw [hleft, hend.currReq, hend.nextReq]
  dsimp only
  rw [Nat.mod_eq_of_lt hsmall]
  rfl

/-! ## Skills -/

theorem addSkillAdvance_stays (s : Skill) (count : ℕ)
    (h : r.get cache (s.level + 1) ≤ r.get cache s.level ∨ count = 0) :
    (r.addSkillAdvance (cache, s) count).2 = s ∧
      Seen cache s.level s.level (r.addSkillAdvance (cache, s) count).1 := by
  have hfrom := enter_from (r := r) (cache, s) count
  have hmax := hfrom.atMax_iff
  unfold addSkillAdvance
  dsimp only
  split_ifs with hstays hzero
  · exact ⟨rfl, hfrom.seen⟩
  · exact ⟨rfl, hfrom.seen⟩
  · exact absurd (h.resolve_right hzero) (hmax.not.mp hstays)

theorem addSkillAdvance_moves (s : Skill) (count : ℕ)
    (hgrows : r.get cache s.level < r.get cache (s.level + 1))
    (hcount : count ≠ 0) (hfits : s.tries + count < 18446744073709551616) :
    ∃ level, StopsAt (r.get cache) s.level (s.tries + count) level ∧
      (r.addSkillAdvance (cache, s) count).2 =
        outcome (r.get cache) s.level (s.tries + count) level ∧
      Seen cache s.level level (r.addSkillAdvance (cache, s) count).1 := by
  have hfrom := enter_from (r := r) (cache, s) count
  obtain ⟨level, hstops, hsettled, _, _, hseen⟩ := advance_spec hgrows hfits
  refine ⟨level, hstops, ?_⟩
  unfold addSkillAdvance
  dsimp only
  rw [if_neg (hfrom.atMax_iff.not.mpr (Nat.not_le.mpr hgrows)), if_neg hcount]
  exact ⟨hsettled, hseen⟩

/-- The level at which the first `count` tries end. -/
def Ends (r : Requirements) (cache : Finset ℕ) (s : Skill) (count level : ℕ) : Prop :=
  if count = 0 then level = s.level else StopsAt (r.get cache) s.level (s.tries + count) level

/-- What the cache keeps of a level's number. -/
def again (r : Requirements) (level : ℕ) : ℕ := r.kept (r.formula.value level)

/-- The cache's numbers tell the same of `level` and the next one as those that were looked up
when `cache` was all that it held. -/
structure Steady (r : Requirements) (cache : Finset ℕ) (level : ℕ) : Prop where
  ends : r.again (level + 1) ≤ r.again level ↔ r.get cache (level + 1) ≤ r.get cache level
  next : r.get cache level < r.get cache (level + 1) → r.get cache (level + 1) = r.again (level + 1)

theorem get_seen {cache' : Finset ℕ} {low level c : ℕ} (h : Seen cache low level cache')
    (hlow : low ≤ c) (hlevel : c ≤ level + 1) : r.get cache' c = r.again c :=
  if_pos ((h c).mpr (.inr ⟨hlow, hlevel⟩))

theorem get_unseen {cache' : Finset ℕ} {low level c : ℕ} (h : Seen cache low level cache')
    (hlevel : level + 1 < c) : r.get cache' c = r.get cache c := by
  have hiff : c ∈ cache' ↔ c ∈ cache := by
    rw [h c]
    grind
  unfold get
  simp only [hiff]

/-- Where the numbers are steady, a second call finds what the first one would have found. -/
theorem Steady.agrees {cache' : Finset ℕ} {low level : ℕ} (h : r.Steady cache level)
    (hseen : Seen cache low level cache') (hlow : low ≤ level) :
    (r.get cache' (level + 1) ≤ r.get cache' level ↔
      r.get cache (level + 1) ≤ r.get cache level) ∧
    (r.get cache level < r.get cache (level + 1) →
      ∀ c, level < c → r.get cache' c = r.get cache c) := by
  have hnext : r.get cache' (level + 1) = r.again (level + 1) :=
    get_seen hseen (by omega) (Nat.le_refl _)
  constructor
  · rw [hnext, get_seen hseen hlow (Nat.le_succ level)]
    exact h.ends
  · intro hgrows c hc
    rcases Nat.lt_or_eq_of_le (Nat.succ_le_of_lt hc) with hlt | rfl
    · exact get_unseen hseen hlt
    · exact hnext.trans (h.next hgrows).symm

/-- The skill that a call leaves depends on the cache only by the numbers above its level, and by
whether a level follows. -/
theorem addSkillAdvance_congr {cache' : Finset ℕ}
    (hend : r.get cache' (s.level + 1) ≤ r.get cache' s.level ↔
      r.get cache (s.level + 1) ≤ r.get cache s.level)
    (habove : r.get cache s.level < r.get cache (s.level + 1) →
      ∀ c, s.level < c → r.get cache' c = r.get cache c)
    (hfits : s.tries + count < 18446744073709551616) :
    (r.addSkillAdvance (cache', s) count).2 = (r.addSkillAdvance (cache, s) count).2 := by
  by_cases hstays : r.get cache (s.level + 1) ≤ r.get cache s.level ∨ count = 0
  · rw [(addSkillAdvance_stays _ _ hstays).1, (addSkillAdvance_stays _ _ (hstays.imp_left hend.mpr)).1]
  · obtain ⟨hgrows, hcount⟩ := not_or.mp hstays
    have hgrows' := Nat.not_le.mp (hend.not.mpr hgrows)
    rw [Nat.not_le] at hgrows
    obtain ⟨level, hstops, hmoves, -⟩ := addSkillAdvance_moves s count hgrows hcount hfits
    obtain ⟨level', hstops', hmoves', -⟩ := addSkillAdvance_moves s count hgrows' hcount hfits
    obtain ⟨hsame, hlast⟩ := hstops.congr (habove hgrows) hend
    obtain rfl := hsame.unique hstops'
    rw [hmoves, hmoves', outcome_congr hstops.reached (habove hgrows) hlast]

/-- Further tries go on from where the first ones ended. -/
theorem addSkillAdvance_add {a b level : ℕ} (hfits : s.tries + a + b < 18446744073709551616)
    (hgrows : r.get cache s.level < r.get cache (s.level + 1)) (ha : a ≠ 0)
    (hstops : StopsAt (r.get cache) s.level (s.tries + a) level) :
    (r.addSkillAdvance (cache, outcome (r.get cache) s.level (s.tries + a) level) b).2 =
      (r.addSkillAdvance (cache, s) (a + b)).2 := by
  obtain ⟨level', hstops', hmoves, -⟩ :=
    addSkillAdvance_moves s (a + b) hgrows (by omega) (by omega)
  rw [hmoves, ← Nat.add_assoc]
  rw [← Nat.add_assoc] at hstops'
  by_cases hend : r.get cache (level + 1) ≤ r.get cache level
  · -- no level follows
    obtain rfl := (hstops.more_at_end hend b).unique hstops'
    rw [(addSkillAdvance_stays _ _ (.inl hend)).1]
    unfold outcome remainder
    rw [if_pos hend, if_pos hend]
  · by_cases hb : b = 0
    · subst hb
      obtain rfl := hstops.unique hstops'
      exact (addSkillAdvance_stays _ _ (.inr rfl)).1
    · rw [Nat.not_le] at hend
      have hleft : remainder (r.get cache) s.level (s.tries + a) level ≤ s.tries + a :=
        remainder_le _ _ _ _
      obtain ⟨last, hlast, hmoves', -⟩ := addSkillAdvance_moves
        (outcome (r.get cache) s.level (s.tries + a) level) b hend hb
        (lt_of_le_of_lt (Nat.add_le_add_right hleft b) hfits)
      obtain ⟨hsum, hremainder⟩ := hstops.append hend hlast
      obtain rfl := hsum.unique hstops'
      rw [hmoves']
      change outcome (r.get cache) level (remainder (r.get cache) s.level (s.tries + a) level + b)
        last = _
      unfold outcome
      rw [hremainder]

/-- Where the numbers are steady, a second call goes on where the first one ended. -/
theorem additive_of_steady {a b level : ℕ} (hfits : s.tries + a + b < 18446744073709551616)
    (hends : Ends r cache s a level) (hsteady : r.Steady cache level) :
    (r.addSkillAdvance (r.addSkillAdvance (cache, s) a) b).2 =
      (r.addSkillAdvance (cache, s) (a + b)).2 := by
  by_cases hfirst : r.get cache (s.level + 1) ≤ r.get cache s.level ∨ a = 0
  · -- the first call leaves the skill as it is
    obtain ⟨hstays, hseen⟩ := addSkillAdvance_stays s a hfirst
    have hlevel : level = s.level := by
      unfold Ends at hends
      split_ifs at hends with hzero
      · exact hends
      · exact hends.unique (StopsAt.here (.inl (hfirst.resolve_right hzero)))
    subst hlevel
    obtain ⟨hend, habove⟩ := hsteady.agrees hseen (Nat.le_refl _)
    rw [← Prod.eta (r.addSkillAdvance (cache, s) a), hstays,
      addSkillAdvance_congr hend habove (by omega)]
    rcases hfirst with hmax | rfl
    · rw [(addSkillAdvance_stays _ _ (.inl hmax)).1, (addSkillAdvance_stays _ _ (.inl hmax)).1]
    · rw [Nat.zero_add]
  · obtain ⟨hgrows, ha⟩ := not_or.mp hfirst
    rw [Nat.not_le] at hgrows
    obtain ⟨level', hstops, hmoves, hseen⟩ := addSkillAdvance_moves s a hgrows ha (by omega)
    have hlevel : level = level' := by
      unfold Ends at hends
      rw [if_neg ha] at hends
      exact hends.unique hstops
    subst hlevel
    obtain ⟨hend, habove⟩ := hsteady.agrees hseen hstops.reached
    have hleft : remainder (r.get cache) s.level (s.tries + a) level ≤ s.tries + a :=
      remainder_le _ _ _ _
    rw [← Prod.eta (r.addSkillAdvance (cache, s) a), hmoves,
      addSkillAdvance_congr hend habove (lt_of_le_of_lt (Nat.add_le_add_right hleft b) hfits)]
    exact addSkillAdvance_add hfits hgrows ha hstops

/-- With one try and more a skill that has a next level does not stay as it was. -/
theorem addSkillAdvance_ne (s : Skill) (count : ℕ)
    (hgrows : r.get cache s.level < r.get cache (s.level + 1))
    (hcount : count ≠ 0) (hfits : s.tries + count < 18446744073709551616) :
    ¬ ((r.addSkillAdvance (cache, s) count).2.level = s.level ∧
      (r.addSkillAdvance (cache, s) count).2.tries = s.tries) := by
  obtain ⟨level, hstops, hmoves, -⟩ := addSkillAdvance_moves s count hgrows hcount hfits
  rw [hmoves]
  rintro ⟨hlevel, htries⟩
  obtain rfl : level = s.level := hlevel
  have hleft : remainder (r.get cache) s.level (s.tries + count) s.level = s.tries := htries
  rw [remainder, if_neg (Nat.not_le.mpr hgrows), worth_low] at hleft
  omega

section SameNumbers

variable {cache' : Finset ℕ} {level : ℕ}

/-- Calls that leave the same tell whether a level follows. -/
theorem atMax_of_same (hsame : (r.addSkillAdvance (cache', { level }) 1).2 =
      (r.addSkillAdvance (cache, { level }) 1).2)
    (hmax : r.get cache (level + 1) ≤ r.get cache level) :
    r.get cache' (level + 1) ≤ r.get cache' level := by
  by_contra hgrows
  have hfits : ({ level } : Skill).tries + 1 < 18446744073709551616 := by
    change 0 + 1 < 18446744073709551616
    decide
  have hmoves := addSkillAdvance_ne { level } 1 (Nat.not_le.mp hgrows) Nat.one_ne_zero hfits
  rw [hsame, (addSkillAdvance_stays { level } 1 (.inl hmax)).1] at hmoves
  exact hmoves ⟨rfl, rfl⟩

/-- They tell what the next level requires: just as many tries reach it. -/
theorem not_less_of_same (hgrows : r.get cache level < r.get cache (level + 1))
    (hgrows' : r.get cache' level < r.get cache' (level + 1))
    (hwidth : r.get cache' (level + 1) < 18446744073709551616)
    (hsame : ∀ b < 18446744073709551616, (r.addSkillAdvance (cache', { level }) b).2 =
      (r.addSkillAdvance (cache, { level }) b).2) :
    ¬ r.get cache' (level + 1) < r.get cache (level + 1) := by
  intro hless
  have hb : r.get cache' (level + 1) ≠ 0 := Nat.ne_of_gt (Nat.zero_lt_of_lt hgrows')
  have hfits : ({ level } : Skill).tries + r.get cache' (level + 1) < 18446744073709551616 :=
    lt_of_eq_of_lt (Nat.zero_add _) hwidth
  obtain ⟨up, hup, hmoves', -⟩ := addSkillAdvance_moves { level } _ hgrows' hb hfits
  obtain ⟨here, hhere, hmoves, -⟩ := addSkillAdvance_moves { level } _ hgrows hb hfits
  have hlevels := congrArg Skill.level (hsame _ hwidth)
  rw [hmoves, hmoves'] at hlevels
  obtain rfl : up = here := hlevels
  have hstays : up = level := hhere.unique (StopsAt.here (.inr (by rwa [Nat.zero_add])))
  subst hstays
  have hshort := hup.stops.resolve_left (Nat.not_le.mpr hgrows')
  rw [worth_succ (Nat.le_refl _), worth_low] at hshort
  dsimp only at hshort
  omega

/-- A first call without tries changes what the second one looks up. -/
theorem steady_of_additive (hkept : r.again (level + 1) < 18446744073709551616)
    (h : ∀ b < 18446744073709551616,
      (r.addSkillAdvance (r.addSkillAdvance (cache, { level }) 0) b).2 =
        (r.addSkillAdvance (cache, { level }) b).2) : r.Steady cache level := by
  have hfirst : r.get cache (level + 1) ≤ r.get cache level ∨ 0 = 0 := .inr rfl
  obtain ⟨hstays, hseen⟩ := addSkillAdvance_stays { level } 0 hfirst
  generalize r.addSkillAdvance (cache, { level }) 0 = p at *
  obtain ⟨cache', s⟩ := p
  obtain rfl : s = { level } := hstays
  have hlow : r.get cache' level = r.again level :=
    get_seen hseen (Nat.le_refl _) (Nat.le_succ _)
  have hhigh : r.get cache' (level + 1) = r.again (level + 1) :=
    get_seen hseen (Nat.le_succ _) (Nat.le_refl _)
  have hends : r.get cache' (level + 1) ≤ r.get cache' level ↔
      r.get cache (level + 1) ≤ r.get cache level :=
    ⟨atMax_of_same (h 1 (by decide)).symm, atMax_of_same (h 1 (by decide))⟩
  have hwidth : r.get cache (level + 1) < 18446744073709551616 := by
    unfold get
    split_ifs
    · exact hkept
    · exact r.formula.uint64 _
  have hwidth' : r.get cache' (level + 1) < 18446744073709551616 := by rwa [hhigh]
  constructor
  · rwa [← hlow, ← hhigh]
  · intro hgrows
    have hgrows' := Nat.not_le.mp (hends.not.mpr (Nat.not_le.mpr hgrows))
    rw [← hhigh]
    exact Nat.le_antisymm
      (Nat.not_lt.mp (not_less_of_same hgrows hgrows' hwidth' h))
      (Nat.not_lt.mp (not_less_of_same hgrows' hgrows hwidth fun b hb => (h b hb).symm))

end SameNumbers

/-! ## Mana -/

theorem get_mana (formula : Formula) (cache : Finset ℕ) : formula.mana.get cache = formula.value := by
  funext level
  exact ite_self _

section Mana

variable (formula : Formula) (p : Finset ℕ × Skill)

theorem addManaSpent_stays (amount : ℕ)
    (h : formula.value (p.2.level + 1) ≤ formula.value p.2.level ∨ amount = 0) :
    (formula.mana.addManaSpent false p amount).2 = p.2 := by
  have hmax := (enter_from (r := formula.mana) p amount).atMax_iff
  rw [get_mana] at hmax
  unfold addManaSpent
  rw [if_neg Bool.false_ne_true]
  dsimp only
  split_ifs with hstays hzero
  · rfl
  · rfl
  · exact absurd (h.resolve_right hzero) (hmax.not.mp hstays)
  · exact absurd (h.resolve_right hzero) (hmax.not.mp hstays)

theorem addManaSpent_moves (amount : ℕ)
    (hgrows : formula.value p.2.level < formula.value (p.2.level + 1)) (hamount : amount ≠ 0)
    (hfits : p.2.tries + amount < 18446744073709551616) :
    ∃ level, StopsAt formula.value p.2.level (p.2.tries + amount) level ∧
      (formula.mana.addManaSpent false p amount).2 =
        if formula.value (level + 1) ≤ formula.value level then { level, percent := p.2.percent }
        else outcome formula.value p.2.level (p.2.tries + amount) level := by
  have hfrom := enter_from (r := formula.mana) p amount
  have hgrows' := hgrows
  rw [← get_mana formula p.1] at hgrows ⊢
  have hstart := hfrom.atMax_iff.not.mpr (Nat.not_le.mpr hgrows)
  obtain ⟨level, hstops, hsettled, hmax, hlevel, -⟩ := advance_spec hgrows hfits
  refine ⟨level, hstops, ?_⟩
  unfold addManaSpent
  dsimp only
  rw [if_neg Bool.false_ne_true, if_neg hstart, if_neg hamount]
  by_cases hend : formula.mana.get p.1 (level + 1) ≤ formula.mana.get p.1 level
  · rw [if_pos hend, if_pos (hmax.mpr hend), hlevel, Walk.tries_of_atMax hstart (hmax.mpr hend)]
  · rw [if_neg hend, if_neg (hmax.not.mpr hend)]
    exact hsettled

theorem addManaSpent_at {amount level : ℕ}
    (hgrows : formula.value p.2.level < formula.value (p.2.level + 1)) (hamount : amount ≠ 0)
    (hfits : p.2.tries + amount < 18446744073709551616)
    (hstops : StopsAt formula.value p.2.level (p.2.tries + amount) level) :
    (formula.mana.addManaSpent false p amount).2 =
      if formula.value (level + 1) ≤ formula.value level then { level, percent := p.2.percent }
      else outcome formula.value p.2.level (p.2.tries + amount) level := by
  obtain ⟨level', hstops', hmoves⟩ := addManaSpent_moves formula p amount hgrows hamount hfits
  obtain rfl := hstops.unique hstops'
  exact hmoves

/-- What is left does not depend on the cache. -/
theorem addManaSpent_congr {p' : Finset ℕ × Skill} (hp : p'.2 = p.2) (amount : ℕ)
    (hfits : p.2.tries + amount < 18446744073709551616) :
    (formula.mana.addManaSpent false p' amount).2 = (formula.mana.addManaSpent false p amount).2 := by
  by_cases h : formula.value (p.2.level + 1) ≤ formula.value p.2.level ∨ amount = 0
  · rw [addManaSpent_stays formula p amount h, addManaSpent_stays formula p' amount (by rwa [hp]), hp]
  · obtain ⟨hgrows, hamount⟩ := not_or.mp h
    rw [Nat.not_le] at hgrows
    obtain ⟨level, hstops, hmoves⟩ := addManaSpent_moves formula p amount hgrows hamount hfits
    rw [← hp] at hgrows hfits hstops hmoves
    rw [hmoves, addManaSpent_at formula p' hgrows hamount hfits hstops]

end Mana

/-- So many points take who is at `low` to the last level. -/
def ReachesEnd (cost : ℕ → ℕ) (low points : ℕ) : Prop :=
  ∃ level, low < level ∧ StopsAt cost low points level ∧ cost (level + 1) ≤ cost level

theorem reachesEnd_iff {cost : ℕ → ℕ} {low points level : ℕ} (h : StopsAt cost low points level)
    (hgrows : cost low < cost (low + 1)) :
    ReachesEnd cost low points ↔ cost (level + 1) ≤ cost level := by
  constructor
  · rintro ⟨last, -, hlast, hend⟩
    rwa [h.unique hlast]
  · intro hend
    refine ⟨level, Nat.lt_of_le_of_ne h.reached ?_, h, hend⟩
    rintro rfl
    omega

/-- A second call that goes on from below the last level. -/
theorem addManaSpent_second (formula : Formula) (p : Finset ℕ × Skill) {level points middle : ℕ}
    (hstops : StopsAt formula.value level points middle)
    (hgrows : formula.value middle < formula.value (middle + 1))
    (hp : p.2 = outcome formula.value level points middle) (b : ℕ)
    (hfits : points + b < 18446744073709551616) :
    ∃ last, StopsAt formula.value level (points + b) last ∧
      (formula.mana.addManaSpent false p b).2 =
        if formula.value (last + 1) ≤ formula.value last then { level := last, percent := p.2.percent }
        else outcome formula.value level (points + b) last := by
  have hlevel : p.2.level = middle := congrArg Skill.level hp
  have htries : p.2.tries = remainder formula.value level points middle := congrArg Skill.tries hp
  have hleft : remainder formula.value level points middle ≤ points :=
    remainder_le _ _ _ _
  by_cases hb : b = 0
  · subst hb
    refine ⟨middle, hstops, ?_⟩
    rw [addManaSpent_stays formula p 0 (.inr rfl), if_neg (Nat.not_le.mpr hgrows)]
    exact hp
  · rw [← hlevel] at hgrows
    obtain ⟨last, hlast, hmoves⟩ := addManaSpent_moves formula p b hgrows hb (by omega)
    rw [hlevel] at hgrows
    rw [hlevel, htries] at hlast hmoves
    obtain ⟨hsum, hremainder⟩ := hstops.append hgrows hlast
    refine ⟨last, hsum, hmoves.trans ?_⟩
    split_ifs
    · rfl
    · unfold outcome
      rw [hremainder]

/-- The two calls end as one where not just the second one comes to the last level. -/
theorem addManaSpent_add_iff (formula : Formula) (cache : Finset ℕ) (level manaSpent a b : ℕ)
    (hfits : manaSpent + a + b < 18446744073709551616) :
    (∀ percent, (formula.mana.addManaSpent false (formula.mana.addManaSpent false
        (cache, ⟨level, manaSpent, percent⟩) a) b).2 =
      (formula.mana.addManaSpent false (cache, ⟨level, manaSpent, percent⟩) (a + b)).2) ↔
    (a ≠ 0 → ReachesEnd formula.value level (manaSpent + a + b) →
      ReachesEnd formula.value level (manaSpent + a)) := by
  by_cases hmax : formula.value (level + 1) ≤ formula.value level
  · refine iff_of_true (fun percent => ?_) fun ha hreaches => ?_
    · have hfirst := addManaSpent_stays formula (cache, ⟨level, manaSpent, percent⟩) a (.inl hmax)
      have hsecond := addManaSpent_stays formula (formula.mana.addManaSpent false
        (cache, ⟨level, manaSpent, percent⟩) a) b (.inl (by rwa [hfirst]))
      rw [hsecond, hfirst, addManaSpent_stays formula _ (a + b) (.inl hmax)]
    · obtain ⟨last, hlast, hstops, -⟩ := hreaches
      exact absurd hmax (Nat.not_le.mpr (hstops.grows level (Nat.le_refl _) hlast))
  · rw [Nat.not_le] at hmax
    have hone : ∀ {amount last : ℕ} (percent : ℕ), amount ≠ 0 → manaSpent + amount ≤ manaSpent + a + b →
        StopsAt formula.value level (manaSpent + amount) last →
        (formula.mana.addManaSpent false (cache, ⟨level, manaSpent, percent⟩) amount).2 =
          if formula.value (last + 1) ≤ formula.value last then { level := last, percent }
          else outcome formula.value level (manaSpent + amount) last :=
      fun percent hamount hle hstops =>
        addManaSpent_at formula (cache, ⟨level, manaSpent, percent⟩) hmax hamount
          (lt_of_le_of_lt hle hfits) hstops
    by_cases ha : a = 0
    · subst ha
      refine iff_of_true (fun percent => ?_) fun ha => absurd rfl ha
      have hfirst := addManaSpent_stays formula (cache, ⟨level, manaSpent, percent⟩) 0 (.inr rfl)
      rw [addManaSpent_congr formula _ hfirst b hfits, Nat.zero_add]
    · have hsum : manaSpent + (a + b) = manaSpent + a + b := (Nat.add_assoc _ _ _).symm
      obtain ⟨middle, hstops, -⟩ : ∃ middle, StopsAt formula.value level (manaSpent + a) middle ∧ _ :=
        addManaSpent_moves formula (cache, ⟨level, manaSpent, 0⟩) a hmax ha (by dsimp only; omega)
      have hfirst := fun percent => hone percent ha (by omega) hstops
      by_cases hend : formula.value (middle + 1) ≤ formula.value middle
      · -- the first call comes to the last level
        refine iff_of_true (fun percent => ?_) fun _ _ => (reachesEnd_iff hstops hmax).mpr hend
        have hlast := hstops.more_at_end hend b
        rw [← hsum] at hlast
        have hp := hfirst percent
        rw [if_pos hend] at hp
        rw [hone percent (by omega) (by omega) hlast, if_pos hend, addManaSpent_stays, hp]
        left
        rw [hp]
        exact hend
      · have hbelow := (reachesEnd_iff hstops hmax).not.mpr hend
        have hp : ∀ percent, (formula.mana.addManaSpent false
            (cache, ⟨level, manaSpent, percent⟩) a).2 =
              outcome formula.value level (manaSpent + a) middle :=
          fun percent => (hfirst percent).trans (if_neg hend)
        have hsecond := fun percent => addManaSpent_second formula _ hstops (Nat.not_le.mp hend)
          (hp percent) b hfits
        obtain ⟨last, hlast, -⟩ := hsecond 0
        have htwo : ∀ percent, (formula.mana.addManaSpent false (formula.mana.addManaSpent false
            (cache, ⟨level, manaSpent, percent⟩) a) b).2 =
              if formula.value (last + 1) ≤ formula.value last then
                { level := last,
                  percent := (outcome formula.value level (manaSpent + a) middle).percent }
              else outcome formula.value level (manaSpent + a + b) last := by
          intro percent
          obtain ⟨last', hlast', heq⟩ := hsecond percent
          obtain rfl := hlast.unique hlast'
          rw [heq, hp]
        rw [← hsum] at hlast
        have hone' := fun percent => hone percent (by omega) hsum.le hlast
        rw [hsum] at hlast
        by_cases htop : formula.value (last + 1) ≤ formula.value last
        · -- just the second call comes to the last level, with the percentage of the first
          refine iff_of_false (fun h => ?_) fun h =>
            hbelow (h ha ((reachesEnd_iff hlast hmax).mpr htop))
          have hpercent := h ((outcome formula.value level (manaSpent + a) middle).percent + 1)
          rw [htwo, hone', if_pos htop, if_pos htop] at hpercent
          exact absurd (congrArg Skill.percent hpercent) (Nat.succ_ne_self _).symm
        · refine iff_of_true (fun percent => ?_) fun _ hreaches =>
            absurd ((reachesEnd_iff hlast hmax).mp hreaches) htop
          rw [htwo, hone', if_neg htop, if_neg htop, hsum]

/-! ## Offline training -/

theorem addOfflineTrainingTries_skill (r : Requirements) (p : Finset ℕ × Skill) (tries : ℕ) :
    (r.addOfflineTrainingTries p tries).2 = (r.addSkillAdvance p tries).2 := by
  unfold addOfflineTrainingTries addSkillAdvance
  dsimp only
  split_ifs <;> rfl

/-- The offline function does not ask for the player's flag. -/
theorem addOfflineTrainingTries_mana_iff (formula : Formula) (notGainMana : Bool)
    (p : Finset ℕ × Skill) (tries : ℕ) (hfits : p.2.tries + tries < 18446744073709551616) :
    ((formula.mana.addOfflineTrainingTries p tries).2.level =
        (formula.mana.addManaSpent notGainMana p tries).2.level ∧
      (formula.mana.addOfflineTrainingTries p tries).2.tries =
        (formula.mana.addManaSpent notGainMana p tries).2.tries) ↔
    (notGainMana = true →
      tries = 0 ∨ formula.value (p.2.level + 1) ≤ formula.value p.2.level) := by
  have hget := get_mana formula p.1
  rw [addOfflineTrainingTries_skill]
  by_cases hstays : formula.value (p.2.level + 1) ≤ formula.value p.2.level ∨ tries = 0
  · have hskill : (formula.mana.addSkillAdvance p tries).2 = p.2 :=
      (addSkillAdvance_stays p.2 tries (by rwa [hget])).1
    refine iff_of_true ?_ fun _ => hstays.symm
    rw [hskill]
    cases notGainMana with
    | true => exact ⟨rfl, rfl⟩
    | false =>
      rw [addManaSpent_stays formula p tries hstays]
      exact ⟨rfl, rfl⟩
  · obtain ⟨hgrows, htries⟩ := not_or.mp hstays
    have hgrows' : formula.mana.get p.1 p.2.level < formula.mana.get p.1 (p.2.level + 1) := by
      rwa [hget, ← Nat.not_le]
    cases notGainMana with
    | true =>
      have hmoves := addSkillAdvance_ne p.2 tries hgrows' htries hfits
      exact iff_of_false hmoves fun h => hstays (h rfl).symm
    | false =>
      refine iff_of_true ?_ fun h => absurd h Bool.false_ne_true
      obtain ⟨level, hstops, hmoves, -⟩ := addSkillAdvance_moves p.2 tries hgrows' htries hfits
      rw [hget] at hgrows' hstops hmoves
      rw [Prod.eta] at hmoves
      rw [addManaSpent_at formula p hgrows' htries hfits hstops, hmoves]
      split_ifs with hend
      · exact ⟨rfl, if_pos hend⟩
      · exact ⟨rfl, rfl⟩

/-- Two calls for a skill end as one does. -/
def SkillAdds (r : Requirements) (cache : Finset ℕ) (s : Skill) (a b : ℕ) : Prop :=
  (r.addSkillAdvance (r.addSkillAdvance (cache, s) a) b).2 = (r.addSkillAdvance (cache, s) (a + b)).2

/-- Two calls for the magic level end as one does. -/
def ManaAdds (r : Requirements) (notGainMana : Bool) (cache : Finset ℕ) (s : Skill) (a b : ℕ) :
    Prop :=
  (r.addManaSpent notGainMana (r.addManaSpent notGainMana (cache, s) a) b).2 =
    (r.addManaSpent notGainMana (cache, s) (a + b)).2

/-- Who has the level and the tries of another. -/
def SameTries (s t : Skill) : Prop := s.level = t.level ∧ s.tries = t.tries

/-- Two calls for a skill, the first of which ends at `level`, end as one does exactly where the
cache's numbers are steady there; two calls for the magic level exactly where not just the second
one comes to the last level.  Training offline comes to the same, but for who gains no mana. -/
theorem advances_add_iff (skillTries reqMana : Formula) :
    (∀ cache level, (∀ s a b, s.tries + a + b < 18446744073709551616 →
        skillTries.skillTries.Ends cache s a level → SkillAdds skillTries.skillTries cache s a b) ↔
      skillTries.skillTries.Steady cache level) ∧
    (∀ notGainMana cache level manaSpent a b, manaSpent + a + b < 18446744073709551616 →
      ((∀ percent, ManaAdds reqMana.mana notGainMana cache ⟨level, manaSpent, percent⟩ a b) ↔
        (notGainMana = false → a ≠ 0 → ReachesEnd reqMana.value level (manaSpent + a + b) →
          ReachesEnd reqMana.value level (manaSpent + a)))) ∧
    (∀ p tries, SameTries (skillTries.skillTries.addOfflineTrainingTries p tries).2
      (skillTries.skillTries.addSkillAdvance p tries).2) ∧
    ∀ notGainMana p tries, p.2.tries + tries < 18446744073709551616 →
      (SameTries (reqMana.mana.addOfflineTrainingTries p tries).2
        (reqMana.mana.addManaSpent notGainMana p tries).2 ↔
        (notGainMana = true →
          tries = 0 ∨ reqMana.value (p.2.level + 1) ≤ reqMana.value p.2.level)) := by
  refine ⟨fun cache level => ⟨fun h => ?_, fun hsteady s a b hfits hends => ?_⟩,
    fun notGainMana cache level manaSpent a b hfits => ?_, fun p tries => ?_,
    fun notGainMana p tries hfits => addOfflineTrainingTries_mana_iff reqMana notGainMana p tries hfits⟩
  · apply steady_of_additive
    · exact (Nat.mod_lt _ (by decide)).trans (by decide)
    · intro b hb
      have hadds := h { level } 0 b (by dsimp only; omega) rfl
      unfold SkillAdds at hadds
      rwa [Nat.zero_add] at hadds
  · exact additive_of_steady hfits hends hsteady
  · cases notGainMana with
    | true => exact iff_of_true (fun percent => rfl) fun h => absurd h.symm Bool.false_ne_true
    | false =>
        unfold ManaAdds
        rw [addManaSpent_add_iff reqMana cache level manaSpent a b hfits]
        exact ⟨fun h _ => h, fun h => h rfl⟩
  · rw [addOfflineTrainingTries_skill]
    exact ⟨rfl, rfl⟩

/-- The multiplier 2, as it is for clubs, swords, axes and distance fighting. -/
def twofold : Formula where
  value level := 50 * 2 ^ level / 2048 % 18446744073709551616
  uint64 _ := Nat.mod_lt _ (by decide)

/-- Level 38 requires 6710886400 tries, of which the cache keeps 2415919104: after one try at level
37 the second one is refused, as if 37 were the last level. -/
theorem second_try_refused : ¬ ∀ (skillTries : Formula) (cache : Finset ℕ) (s : Skill) (a b : ℕ),
    s.tries + a + b < 18446744073709551616 → SkillAdds skillTries.skillTries cache s a b := by
  intro h
  have hadds := h twofold ∅ { level := 37 } 1 1 (by decide)
  have hfirst : twofold.skillTries.addSkillAdvance (∅, { level := 37 }) 1 =
      ({38, 37}, { level := 37, tries := 1 }) := by
    unfold addSkillAdvance
    dsimp only
    rw [if_neg (by decide), if_neg (by decide), Walk.advance, if_neg (by decide)]
    rfl
  have hsecond : twofold.skillTries.addSkillAdvance ({38, 37}, { level := 37, tries := 1 }) 1 =
      ({38, 37}, { level := 37, tries := 1 }) := by
    unfold addSkillAdvance
    dsimp only
    rw [if_pos (by decide)]
    rfl
  have hone : (twofold.skillTries.addSkillAdvance (∅, { level := 37 }) 2).2.tries = 2 := by
    unfold addSkillAdvance
    dsimp only
    rw [if_neg (by decide), if_neg (by decide), Walk.advance, if_neg (by decide)]
    rfl
  unfold SkillAdds at hadds
  rw [hfirst, hsecond] at hadds
  rw [← hadds] at hone
  revert hone
  decide

end Requirements

end TibiaServer.Players
