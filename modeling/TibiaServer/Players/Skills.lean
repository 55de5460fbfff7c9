import Mathlib.Tactic.Ring
import TibiaServer.Library.Levels
import TibiaServer.Library.Run
/-!
# Skills

A skill has a level, tries towards the next level and a percentage that the client shows.
`addSkillAdvance` and `addOfflineTrainingTries` walk the level up, `death` walks it down, and
each computes the percentage anew; `death` takes the tries of the level that has been
reached where the others take those of the next one (`always_canonical_iff`).
-/

namespace TibiaServer.Players

open Library.Levels Library.Run

/-- From `SKILL_FIST` to `SKILL_FISHING`. -/
abbrev SkillId := Fin 7

def skillBase (skill : SkillId) : ℕ := [50, 50, 50, 50, 30, 100, 20].getD skill 0

/-- `reqSkillTries skill level` is `skillBase[skill] * pow(multiplier, level - 11)` without
its fraction, for any multiplier of the vocation: `pow` is 1 for the exponent 0, and
it grows with the exponent or falls with it. -/
structure Vocation where
  getReqSkillTries : SkillId → ℕ → ℕ
  base : ∀ skill, getReqSkillTries skill 11 = skillBase skill
  power : ∀ skill, Monotone (getReqSkillTries skill) ∨ Antitone (getReqSkillTries skill)

/-- Levels are far from the bound of a `uint16_t` when the tries that they require are at
that of a `uint64_t`. -/
structure Skill where
  level : ℕ := 10
  tries : ℕ := 0
  percent : ℕ := 0
  deriving DecidableEq

/-- `count * 100` is a `uint64_t`, the result a `uint8_t`. -/
def getPercentLevel (count nextLevelCount : ℕ) : ℕ :=
  if nextLevelCount = 0 then 0
  else
    let result := (count * 100) % 2 ^ 64 / nextLevelCount % 2 ^ 8
    if result > 100 then 0 else result

/-- The difference of two `uint64_t`. -/
def sub64 (a b : ℕ) : ℕ := (a + 2 ^ 64 - b % 2 ^ 64) % 2 ^ 64

namespace Skill

section Walks

variable (req : ℕ → ℕ)

/-- The loop of the advances, with the level, the tries and what is left of `count`. -/
def advance (level tries count : ℕ) : ℕ × ℕ × ℕ :=
  let nextReqTries := req (level + 1)
  if nextReqTries ≤ (tries + count) % 2 ^ 64 then
    if req (level + 2) ≤ nextReqTries then (level + 1, 0, 0)
    else advance (level + 1) 0 (sub64 count (sub64 nextReqTries tries))
  else (level, tries, count)
termination_by (if tries = 0 ∧ 0 < req (level + 1) then 0 else 1, count)
decreasing_by
  rename_i hnext hmax
  dsimp only [nextReqTries] at hnext hmax ⊢
  have hpos : 0 < req (level + 1 + 1) := Nat.zero_lt_of_lt (Nat.lt_of_not_le hmax)
  rw [if_pos ⟨trivial, hpos⟩]
  by_cases h : tries = 0 ∧ 0 < req (level + 1)
  · obtain ⟨rfl, hpos⟩ := h
    rw [if_pos ⟨rfl, hpos⟩]
    refine Prod.Lex.right _ ?_
    unfold sub64
    omega
  · rw [if_neg h]
    exact Prod.Lex.left _ _ Nat.zero_lt_one

/-- What `addSkillAdvance` and `addOfflineTrainingTries` have in common. -/
def gain (s : Skill) (count : ℕ) : Skill :=
  let (level, tries, count) := advance req s.level s.tries count
  let tries := (tries + count) % 2 ^ 64
  let currReqTries := req level
  let nextReqTries := req (level + 1)
  { level, tries,
    percent := if currReqTries < nextReqTries then getPercentLevel tries nextReqTries else 0 }

/-- `count` is what the event has made of the tries. -/
def addSkillAdvance (s : Skill) (count : ℕ) : Skill :=
  if req (s.level + 1) ≤ req s.level then s
  else if count = 0 then s
  else gain req s count

/-- `count` is what the event has made of `tries`. -/
def addOfflineTrainingTries (s : Skill) (tries count : ℕ) : Skill :=
  if tries = 0 then s
  else if req (s.level + 1) ≤ req s.level then s
  else gain req s count

/-- The loop of `death`, with the level, the tries and what is left to lose. -/
def lose : ℕ → ℕ → ℕ → ℕ × ℕ × ℕ
  | 0, tries, lostSkillTries =>
    if tries < lostSkillTries then (10, 0, 0) else (0, tries, lostSkillTries)
  | level + 1, tries, lostSkillTries =>
    if tries < lostSkillTries then
      if level + 1 ≤ 10 then (10, 0, 0)
      else lose level (req (level + 1)) (lostSkillTries - tries)
    else (level + 1, tries, lostSkillTries)

def sumSkillTries (s : Skill) : ℕ :=
  ((List.range' 11 (s.level - 10)).foldl (fun sum c => (sum + req c) % 2 ^ 64) 0 + s.tries) %
    2 ^ 64

/-- `std::max<int32_t>(0, tries)` -/
def clamp (tries : ℕ) : ℕ := if tries % 2 ^ 32 < 2 ^ 31 then tries % 2 ^ 32 else 0

/-- The part of `death` about one skill, where `loss` is the product with
`deathLossPercent` as a `uint32_t`. -/
def death (s : Skill) (loss : ℕ → ℕ) : Skill :=
  let lostSkillTries := loss (sumSkillTries req s) % 2 ^ 32
  let (level, tries, lostSkillTries) := lose req s.level s.tries lostSkillTries
  let tries := clamp (tries - lostSkillTries)
  { level, tries, percent := getPercentLevel tries (req level) }

end Walks

/-- The tries have not reached the next level, and the percentage is theirs. -/
structure Canonical (req : ℕ → ℕ) (s : Skill) : Prop where
  below : s.tries < req (s.level + 1)
  percent : s.percent = getPercentLevel s.tries (req (s.level + 1))

@[simp] theorem getPercentLevel_zero (next : ℕ) : getPercentLevel 0 next = 0 := by
  unfold getPercentLevel
  split <;> simp

/-! ## Advances -/

section Advances

variable {req : ℕ → ℕ}

theorem advance_below (hpower : Monotone req ∨ Antitone req) {level tries count : ℕ}
    (hgrow : req level < req (level + 1)) :
    let (level', tries', count') := advance req level tries count
    level ≤ level' ∧ (tries' + count') % 2 ^ 64 < req (level' + 1) ∧
      (req level' < req (level' + 1) ∨ tries' + count' = 0) := by
  fun_induction advance req level tries count with
  | case1 level tries count next hnext hmax =>
    refine ⟨Nat.le_succ _, ?_, .inr rfl⟩
    have hmono : Monotone req := by
      rcases hpower with hmono | hanti
      · exact hmono
      · exact absurd (hanti (Nat.le_succ level)) (Nat.not_le.mpr hgrow)
    have hle : req (level + 1) ≤ req (level + 1 + 1) := hmono (Nat.le_succ _)
    rw [Nat.zero_add, Nat.zero_mod]
    omega
  | case2 level tries count next hnext hmax ih =>
    obtain ⟨hlevel, hbelow, hgrow'⟩ := ih (Nat.lt_of_not_le hmax)
    exact ⟨by omega, hbelow, hgrow'⟩
  | case3 level tries count next hnext =>
    exact ⟨Nat.le_refl _, Nat.lt_of_not_le hnext, .inl hgrow⟩

theorem canonical_gain (hpower : Monotone req ∨ Antitone req) {s : Skill} (count : ℕ)
    (hgrow : req s.level < req (s.level + 1)) :
    (gain req s count).Canonical req ∧ s.level ≤ (gain req s count).level := by
  have hadvance := @advance_below req hpower s.level s.tries count hgrow
  obtain ⟨hlevel, hbelow, hlast⟩ := hadvance
  refine ⟨⟨hbelow, ?_⟩, hlevel⟩
  unfold gain
  dsimp only
  split
  · rfl
  next hmax =>
    have hzero := hlast.resolve_left hmax
    rw [hzero]
    simp

theorem canonical_addSkillAdvance (hpower : Monotone req ∨ Antitone req) {s : Skill}
    (h : s.Canonical req) (count : ℕ) :
    (addSkillAdvance req s count).Canonical req ∧ s.level ≤ (addSkillAdvance req s count).level := by
  unfold addSkillAdvance
  split
  · exact ⟨h, Nat.le_refl _⟩
  · split
    · exact ⟨h, Nat.le_refl _⟩
    · exact canonical_gain hpower count (by omega)

theorem canonical_addOfflineTrainingTries (hpower : Monotone req ∨ Antitone req) {s : Skill}
    (h : s.Canonical req) (tries count : ℕ) :
    (addOfflineTrainingTries req s tries count).Canonical req ∧
      s.level ≤ (addOfflineTrainingTries req s tries count).level := by
  unfold addOfflineTrainingTries
  split
  · exact ⟨h, Nat.le_refl _⟩
  · split
    · exact ⟨h, Nat.le_refl _⟩
    · exact canonical_gain hpower count (by omega)

end Advances

/-! ## Losses -/

section Losses

variable {req : ℕ → ℕ}

theorem sumSkillTries_eq (s : Skill) :
    sumSkillTries req s = worth req 10 s.level s.tries % 2 ^ 64 := by
  have hfold : ∀ n : ℕ, (List.range' 11 n).foldl (fun sum c => (sum + req c) % 2 ^ 64) 0 =
      (∑ c ∈ Finset.Ioc 10 (10 + n), req c) % 2 ^ 64 := by
    intro n
    induction n with
    | zero => rfl
    | succ n ih =>
      rw [List.range'_concat, List.foldl_append, ih, List.foldl_cons, List.foldl_nil,
        Nat.mod_add_mod, ← Nat.add_assoc 10 n 1, Finset.sum_Ioc_succ_top (by omega),
        show 11 + 1 * n = 10 + n + 1 by omega]
  have hrange : Finset.Ioc 10 (10 + (s.level - 10)) = Finset.Ioc 10 s.level := by
    ext c
    rw [Finset.mem_Ioc, Finset.mem_Ioc]
    omega
  rw [sumSkillTries, hfold, hrange, Nat.mod_add_mod, worth]

/-- The loss is taken from all the points of the skill. -/
theorem lose_worth (hbase : 0 < req 11) {level tries lost : ℕ} (hlevel : 10 ≤ level)
    (hbelow : lost ≤ tries → tries - lost < req (level + 1)) :
    let (level', tries', lost') := lose req level tries lost
    10 ≤ level' ∧ tries' - lost' < req (level' + 1) ∧
      worth req 10 level' (tries' - lost') = worth req 10 level tries - lost := by
  induction level generalizing tries lost with
  | zero => omega
  | succ level ih =>
    rw [lose]
    by_cases hlost : tries < lost
    · rw [if_pos hlost]
      by_cases hbottom : level + 1 ≤ 10
      · rw [if_pos hbottom, show level + 1 = 10 by omega]
        refine ⟨Nat.le_refl _, hbase, ?_⟩
        rw [worth_low, worth_low]
        omega
      · rw [if_neg hbottom]
        have hrest := @ih (req (level + 1)) (lost - tries) (by omega)
          (fun hle => by omega)
        refine ⟨hrest.1, hrest.2.1, hrest.2.2.trans ?_⟩
        rw [worth_succ (by omega), worth_add]
        omega
    · rw [if_neg hlost]
      refine ⟨hlevel, hbelow (by omega), ?_⟩
      unfold worth
      omega

theorem clamp_le (tries : ℕ) : clamp tries ≤ tries := by
  unfold clamp
  split
  · exact Nat.mod_le _ _
  · exact Nat.zero_le _

/-- The percentage of the tries that are left after a loss of `lost` is the same of the tries
that their level and the next one require. -/
def SamePercent (req : ℕ → ℕ) (s : Skill) (lost : ℕ) : Prop :=
  ∀ level tries, 10 ≤ level → tries < req (level + 1) →
    worth req 10 level tries = worth req 10 s.level s.tries - lost →
      getPercentLevel (clamp tries) (req level) = getPercentLevel (clamp tries) (req (level + 1))

theorem canonical_death (hbase : 0 < req 11) {s : Skill} (hlevel : 10 ≤ s.level)
    (h : s.Canonical req) (loss : ℕ → ℕ) :
    10 ≤ (death req s loss).level ∧ ((death req s loss).Canonical req ↔
      SamePercent req s (loss (worth req 10 s.level s.tries % 2 ^ 64) % 2 ^ 32)) := by
  have hlose := @lose_worth req hbase s.level s.tries
    (loss (worth req 10 s.level s.tries % 2 ^ 64) % 2 ^ 32) hlevel (fun _ => (Nat.sub_le _ _).trans_lt h.below)
  unfold death
  rw [sumSkillTries_eq]
  generalize loss (worth req 10 s.level s.tries % 2 ^ 64) % 2 ^ 32 = lost at hlose
  dsimp only
  generalize lose req s.level s.tries lost = left at hlose
  obtain ⟨level, tries, lost'⟩ := left
  obtain ⟨hlevel', hbelow, hworth⟩ := hlose
  dsimp only
  refine ⟨hlevel', fun hcanonical level' tries' hlow' hbelow' hworth' => ?_, fun hsame => ?_⟩
  · obtain ⟨rfl, rfl⟩ := eq_of_worth_eq hlow' hlevel' hbelow' hbelow (hworth'.trans hworth.symm)
    exact hcanonical.percent
  · exact ⟨(clamp_le _).trans_lt hbelow, hsame level _ hlevel' hbelow hworth⟩

end Losses

end Skill

/-! ## Every run -/

abbrev Skills := SkillId → Skill

namespace Skills

/-- `death` gives each skill the loss that its sum of tries and `deathLossPercent` come to. -/
inductive Action
  | addSkillAdvance (skill : SkillId) (count : ℕ)
  | addOfflineTrainingTries (skill : SkillId) (tries count : ℕ)
  | death (loss : SkillId → ℕ → ℕ)

def step (v : Vocation) (skills : Skills) : Action → Option Skills
  | .addSkillAdvance skill count =>
    some (Function.update skills skill
      ((skills skill).addSkillAdvance (v.getReqSkillTries skill) count))
  | .addOfflineTrainingTries skill tries count =>
    some (Function.update skills skill
      ((skills skill).addOfflineTrainingTries (v.getReqSkillTries skill) tries count))
  | .death loss =>
    some fun skill => (skills skill).death (v.getReqSkillTries skill) (loss skill)

/-- The skills of a new player. -/
def start : Skills := fun _ => {}

def Canonical (v : Vocation) (skills : Skills) : Prop :=
  ∀ skill, (skills skill).Canonical (v.getReqSkillTries skill)

/-- What a death leaves of each skill has the same percentage of the tries that its level and
the next one require. -/
def Guarded (v : Vocation) (skills : Skills) (a : Action) : Prop :=
  ∀ loss, a = .death loss → ∀ skill, (skills skill).SamePercent (v.getReqSkillTries skill)
    (loss skill (worth (v.getReqSkillTries skill) 10 (skills skill).level (skills skill).tries %
      2 ^ 64) % 2 ^ 32)

section Steps

variable {v : Vocation} {skills : Skills}

theorem base_pos (v : Vocation) (skill : SkillId) : 0 < v.getReqSkillTries skill 11 := by
  rw [v.base]
  revert skill
  decide

theorem canonical_start (v : Vocation) : start.Canonical v := by
  intro skill
  exact ⟨base_pos v skill, (Skill.getPercentLevel_zero _).symm⟩

/-- A walk of one skill. -/
theorem canonical_update (h : skills.Canonical v) (hlevel : ∀ skill, 10 ≤ (skills skill).level)
    {skill : SkillId} {s : Skill}
    (hs : s.Canonical (v.getReqSkillTries skill) ∧ (skills skill).level ≤ s.level) :
    Canonical v (Function.update skills skill s) ∧
      ∀ i, 10 ≤ (Function.update skills skill s i).level := by
  constructor
  · intro i
    by_cases hi : i = skill
    · subst hi
      rw [Function.update_self]
      exact hs.1
    · rw [Function.update_of_ne hi]
      exact h i
  · intro i
    by_cases hi : i = skill
    · subst hi
      rw [Function.update_self]
      exact (hlevel i).trans hs.2
    · rw [Function.update_of_ne hi]
      exact hlevel i

theorem canonical_step (skills : Skills) (a : Action) (skills' : Skills)
    (h : skills.Canonical v ∧ ∀ skill, 10 ≤ (skills skill).level)
    (hstep : step v skills a = some skills') :
    (skills'.Canonical v ↔ skills.Guarded v a) ∧ ∀ skill, 10 ≤ (skills' skill).level := by
  obtain ⟨hcanonical, hlevel⟩ := h
  cases a with
  | addSkillAdvance skill count =>
    obtain rfl := Option.some.inj hstep
    have hskill := Skill.canonical_addSkillAdvance (v.power skill) (hcanonical skill) count
    obtain ⟨hafter, hlevel'⟩ := canonical_update hcanonical hlevel hskill
    exact ⟨iff_of_true hafter fun _ heq => (nomatch heq), hlevel'⟩
  | addOfflineTrainingTries skill tries count =>
    obtain rfl := Option.some.inj hstep
    have hskill := Skill.canonical_addOfflineTrainingTries (v.power skill) (hcanonical skill)
      tries count
    obtain ⟨hafter, hlevel'⟩ := canonical_update hcanonical hlevel hskill
    exact ⟨iff_of_true hafter fun _ heq => (nomatch heq), hlevel'⟩
  | death loss =>
    obtain rfl := Option.some.inj hstep
    have hskill := fun skill =>
      Skill.canonical_death (base_pos v skill) (hlevel skill) (hcanonical skill) (loss skill)
    refine ⟨?_, fun skill => (hskill skill).1⟩
    calc Canonical v _
      _ ↔ ∀ skill, (skills skill).SamePercent (v.getReqSkillTries skill) _ :=
        forall_congr' fun skill => (hskill skill).2
      _ ↔ skills.Guarded v (.death loss) := by
        constructor
        · rintro hsame loss' heq
          cases heq
          exact hsame
        · exact fun hguard => hguard loss rfl

end Steps

/-- The multiplier 1.5 for every skill. -/
def halfAgain : Vocation where
  getReqSkillTries skill level := skillBase skill * (3 ^ level * 2 ^ 11) / (2 ^ level * 3 ^ 11)
  base skill := by
    rw [Nat.mul_comm (3 ^ 11), Nat.mul_div_cancel _ (by decide)]
  power skill := by
    refine .inl (monotone_nat_of_le_succ fun level => ?_)
    calc skillBase skill * (3 ^ level * 2 ^ 11) / (2 ^ level * 3 ^ 11)
      _ = 2 * (skillBase skill * (3 ^ level * 2 ^ 11)) / (2 * (2 ^ level * 3 ^ 11)) :=
        (Nat.mul_div_mul_left _ _ (by decide)).symm
      _ ≤ 3 * (skillBase skill * (3 ^ level * 2 ^ 11)) / (2 * (2 ^ level * 3 ^ 11)) :=
        Nat.div_le_div_right (by omega)
      _ = skillBase skill * (3 ^ (level + 1) * 2 ^ 11) / (2 ^ (level + 1) * 3 ^ 11) := by
        congr 1 <;> ring

end Skills

end TibiaServer.Players
