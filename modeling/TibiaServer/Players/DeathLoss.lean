import Mathlib.Data.Rat.Floor
import TibiaServer.Players.Advances
/-!
# What a death takes

`death` sums up all the mana and all the tries of each skill, and walks the levels down until the
lost share of the sum is taken.  The mana is counted in a `uint64_t`; of a skill's tries the share
is a `uint32_t`, the walk reads what the cache has kept, and what is left goes through an
`int32_t`.
-/

namespace TibiaServer.Players

open Library.Levels

namespace Requirements

variable (r : Requirements)

/-- The loop over levels that sums up what they require, and the cache after it. -/
def sumUp (p : ℕ × Finset ℕ) (levels : List ℕ) : ℕ × Finset ℕ :=
  levels.foldl (fun p c => ((p.1 + r.get p.2 c) % 18446744073709551616, insert c p.2)) p

/-- The loop about the magic level, with the mana spent and what is left to lose. -/
def loseMana (req : ℕ → ℕ) : ℕ → ℕ → ℕ → ℕ × ℕ × ℕ
  | 0, manaSpent, lostMana => (0, manaSpent, lostMana)
  | magLevel + 1, manaSpent, lostMana =>
    if manaSpent < lostMana then loseMana req magLevel (req (magLevel + 1)) (lostMana - manaSpent)
    else (magLevel + 1, manaSpent, lostMana)

/-- The part of `death` about the magic level. -/
def deathMana (cache : Finset ℕ) (s : Skill) (deathLossPercent : ℚ) : Finset ℕ × Skill :=
  let (sum, cache) := r.sumUp (0, cache) (List.range' 1 s.level)
  let sumMana := (sum + s.tries) % 18446744073709551616
  let (magLevel, manaSpent, lostMana) :=
    loseMana (r.get cache) s.level s.tries ⌊sumMana * deathLossPercent⌋₊
  let manaSpent := Players.sub64 manaSpent lostMana
  let nextReqMana := r.get cache (magLevel + 1)
  let cache := insert (magLevel + 1) cache
  let percent :=
    if r.get cache magLevel < nextReqMana then getPercentLevel manaSpent nextReqMana else 0
  (insert magLevel cache, { level := magLevel, tries := manaSpent, percent })

/-- The part of `death` about one skill. -/
def deathSkill (cache : Finset ℕ) (s : Skill) (deathLossPercent : ℚ) : Finset ℕ × Skill :=
  let (sum, cache) := r.sumUp (0, cache) (List.range' 11 (s.level - 10))
  let sumSkillTries := (sum + s.tries) % 18446744073709551616
  -- a `uint32_t`
  let lostSkillTries := ⌊sumSkillTries * deathLossPercent⌋₊ % 4294967296
  let (level, tries, lostSkillTries) := Skill.lose (r.get cache) s.level s.tries lostSkillTries
  let tries := Skill.clamp (tries - lostSkillTries)
  (insert level cache, { level, tries, percent := getPercentLevel tries (r.get cache level) })

variable {r : Requirements} {cache : Finset ℕ}

theorem sumUp_range (low n : ℕ) :
    (r.sumUp (0, cache) (List.range' (low + 1) n)).1 =
        worth (r.get cache) low (low + n) 0 % 18446744073709551616 ∧
      ∀ c, c ∈ (r.sumUp (0, cache) (List.range' (low + 1) n)).2 ↔
        c ∈ cache ∨ low < c ∧ c ≤ low + n := by
  induction n with
  | zero =>
    refine ⟨?_, fun c => ?_⟩
    · rw [show low + 0 = low from rfl, worth_low]
      rfl
    · change c ∈ cache ↔ _
      grind
  | succ n ih =>
    obtain ⟨hsum, hseen⟩ := ih
    have hstep : r.sumUp (0, cache) (List.range' (low + 1) (n + 1)) =
        (((r.sumUp (0, cache) (List.range' (low + 1) n)).1 +
            r.get (r.sumUp (0, cache) (List.range' (low + 1) n)).2 (low + (n + 1))) %
              18446744073709551616,
          insert (low + (n + 1)) (r.sumUp (0, cache) (List.range' (low + 1) n)).2) := by
      unfold sumUp
      rw [List.range'_concat, List.foldl_append, List.foldl_cons, List.foldl_nil,
        show low + 1 + 1 * n = low + (n + 1) by omega]
    -- the level is looked up for the first time
    have hfirst : r.get (r.sumUp (0, cache) (List.range' (low + 1) n)).2 (low + (n + 1)) =
        r.get cache (low + (n + 1)) := by
      have hiff : low + (n + 1) ∈ (r.sumUp (0, cache) (List.range' (low + 1) n)).2 ↔
          low + (n + 1) ∈ cache := by
        rw [hseen]
        grind
      unfold get
      simp only [hiff]
    rw [hstep, hfirst, hsum]
    refine ⟨?_, fun c => ?_⟩
    · rw [Nat.mod_add_mod, ← Nat.add_assoc low n 1, worth_succ (Nat.le_add_right low n),
        worth_zero (r.get cache) low (low + n) (_ + 0)]
      rfl
    · rw [Finset.mem_insert, hseen]
      grind

end Requirements

/-! ## The walks -/

section Walks

variable {req : ℕ → ℕ}

/-- The mana that is lost is taken from all the mana. -/
theorem loseMana_spec {magLevel manaSpent lostMana : ℕ}
    (h : lostMana ≤ worth req 0 magLevel manaSpent) :
    (Requirements.loseMana req magLevel manaSpent lostMana).2.2 ≤
        (Requirements.loseMana req magLevel manaSpent lostMana).2.1 ∧
      worth req 0 (Requirements.loseMana req magLevel manaSpent lostMana).1
          ((Requirements.loseMana req magLevel manaSpent lostMana).2.1 -
            (Requirements.loseMana req magLevel manaSpent lostMana).2.2) =
        worth req 0 magLevel manaSpent - lostMana := by
  induction magLevel generalizing manaSpent lostMana with
  | zero =>
    rw [worth_low] at h ⊢
    exact ⟨h, worth_low⟩
  | succ magLevel ih =>
    rw [Requirements.loseMana]
    have hpaid : worth req 0 magLevel (req (magLevel + 1)) + manaSpent =
        worth req 0 (magLevel + 1) manaSpent := by
      rw [worth_succ (Nat.zero_le _), worth_add]
    split_ifs with hlost
    · obtain ⟨hle, hworth⟩ := @ih (req (magLevel + 1)) (lostMana - manaSpent) (by omega)
      exact ⟨hle, by omega⟩
    · refine ⟨Nat.not_lt.mp hlost, ?_⟩
      have hsplit := worth_zero req 0 (magLevel + 1) manaSpent
      have hsplit' := worth_zero req 0 (magLevel + 1) (manaSpent - lostMana)
      dsimp only
      omega

theorem loseMana_lt (hreq : ∀ c, req c < 18446744073709551616) (magLevel : ℕ) {manaSpent : ℕ}
    (lostMana : ℕ) (hmana : manaSpent < 18446744073709551616) :
    (Requirements.loseMana req magLevel manaSpent lostMana).2.1 < 18446744073709551616 := by
  induction magLevel generalizing manaSpent lostMana with
  | zero => exact hmana
  | succ magLevel ih =>
    rw [Requirements.loseMana]
    split_ifs
    · exact ih _ (hreq _)
    · exact hmana

theorem sub64_eq {a b : ℕ} (hle : b ≤ a) (ha : a < 18446744073709551616) : sub64 a b = a - b := by
  unfold sub64
  omega

/-- Where a skill's walk from `s` ends: `t` tries at `level`, of which `lost` are to be taken. -/
structure Skill.Lost (req : ℕ → ℕ) (s : Skill) (lostSkillTries level t lost : ℕ) : Prop where
  le : lost ≤ t
  worth : worth req 10 level (t - lost) = worth req 10 s.level s.tries - lostSkillTries
  down : level ≤ s.level
  top : (level = s.level ∧ t = s.tries ∧ lost = lostSkillTries) ∨
    10 ≤ level ∧ t = req (level + 1) ∧ 0 < lost ∧ level < s.level

theorem lost_spec {s : Skill} {lostSkillTries : ℕ}
    (h : lostSkillTries ≤ worth req 10 s.level s.tries) :
    ∃ level t lost, Skill.lose req s.level s.tries lostSkillTries = (level, t, lost) ∧
      s.Lost req lostSkillTries level t lost := by
  obtain ⟨level, tries, percent⟩ := s
  dsimp only at h ⊢
  induction level generalizing tries lostSkillTries with
  | zero =>
    have hall : worth req 10 0 tries = tries := by
      unfold worth
      rw [Finset.Ioc_eq_empty (by decide), Finset.sum_empty, Nat.zero_add]
    rw [hall] at h
    rw [Skill.lose, if_neg (Nat.not_lt.mpr h)]
    refine ⟨0, tries, lostSkillTries, rfl, h, ?_, Nat.le_refl _, .inl ⟨rfl, rfl, rfl⟩⟩
    dsimp only
    rw [hall]
    unfold worth
    rw [Finset.Ioc_eq_empty (by decide), Finset.sum_empty, Nat.zero_add]
  | succ level ih =>
    rw [Skill.lose]
    by_cases hlost : tries < lostSkillTries
    · have hlevel : 10 ≤ level := by
        by_contra hlow
        unfold worth at h
        rw [Finset.Ioc_eq_empty (by omega), Finset.sum_empty, Nat.zero_add] at h
        omega
      have hpaid : worth req 10 level (req (level + 1)) + tries =
          worth req 10 (level + 1) tries := by
        rw [worth_succ hlevel, worth_add]
      rw [if_pos hlost, if_neg (by omega)]
      obtain ⟨level', t, lost, hlose, hend⟩ :=
        @ih (lostSkillTries - tries) (req (level + 1)) (by omega)
      refine ⟨level', t, lost, hlose, hend.le, ?_, Nat.le_succ_of_le hend.down, .inr ?_⟩
      · have hworth := hend.worth
        dsimp only at hworth ⊢
        omega
      · have hdown := hend.down
        dsimp only at hdown ⊢
        rcases hend.top with ⟨hsame, htries, hleft⟩ | ⟨hten, htries, hpos, hless⟩
        · dsimp only at hsame htries
          subst hsame
          exact ⟨hlevel, htries, by omega, Nat.lt_succ_self _⟩
        · exact ⟨hten, htries, hpos, hless.trans (Nat.lt_succ_self _)⟩
    · rw [if_neg hlost]
      refine ⟨level + 1, tries, lostSkillTries, rfl, Nat.not_lt.mp hlost, ?_, Nat.le_refl _,
        .inl ⟨rfl, rfl, rfl⟩⟩
      have hsplit := worth_zero req 10 (level + 1) tries
      have hsplit' := worth_zero req 10 (level + 1) (tries - lostSkillTries)
      dsimp only
      omega

theorem lose_congr {req' : ℕ → ℕ} {level : ℕ}
    (h : ∀ c, 10 < c → c ≤ level → req c = req' c) (tries lostSkillTries : ℕ) :
    Skill.lose req level tries lostSkillTries = Skill.lose req' level tries lostSkillTries := by
  induction level generalizing tries lostSkillTries with
  | zero => rfl
  | succ level ih =>
    rw [Skill.lose, Skill.lose]
    split_ifs with hlost hbottom
    · rfl
    · rw [h (level + 1) (by omega) (Nat.le_refl _)]
      exact ih (fun c hc hc' => h c hc (Nat.le_succ_of_le hc')) _ _
    · rfl

theorem clamp_eq {tries : ℕ} (h : tries < 2147483648) : Skill.clamp tries = tries := by
  unfold Skill.clamp
  split_ifs
  · exact Nat.mod_eq_of_lt (h.trans (by decide))
  · omega

theorem clamp_lt (tries : ℕ) : Skill.clamp tries < 2147483648 := by
  unfold Skill.clamp
  split_ifs with h
  · exact h
  · decide

theorem clamp_wide {tries : ℕ} (h : 2147483648 ≤ tries) (h' : tries < 4294967296) :
    Skill.clamp tries = 0 := by
  unfold Skill.clamp
  split_ifs
  · omega
  · rfl

end Walks

/-! ## The share of the mana -/

theorem floor_share_le (total : ℕ) {p : ℚ} (hone : p ≤ 1) : ⌊total * p⌋₊ ≤ total := by
  apply Nat.floor_le_of_le
  exact mul_le_of_le_one_right (Nat.cast_nonneg total) hone

/-- A part of the total as a share. -/
theorem floor_part {part total : ℕ} (htotal : total ≠ 0) : ⌊(total : ℚ) * (part / total)⌋₊ = part := by
  rw [mul_div_cancel₀ _ (Nat.cast_ne_zero.mpr htotal), Nat.floor_natCast]

theorem part_mem {part total : ℕ} (hpart : part ≤ total) :
    (0 : ℚ) ≤ part / total ∧ (part / total : ℚ) ≤ 1 :=
  ⟨by positivity, div_le_one_of_le₀ (Nat.cast_le.mpr hpart) (Nat.cast_nonneg _)⟩

namespace Requirements

theorem deathMana_eq (formula : Formula) (cache : Finset ℕ) {s : Skill}
    (hwidth : s.tries < 18446744073709551616) {p : ℚ} (hone : p ≤ 1) :
    worth formula.value 0 (formula.mana.deathMana cache s p).2.level
        (formula.mana.deathMana cache s p).2.tries =
      worth formula.value 0 s.level s.tries -
        ⌊(worth formula.value 0 s.level s.tries % 18446744073709551616 : ℕ) * p⌋₊ := by
  obtain ⟨hsum, -⟩ := @sumUp_range formula.mana cache 0 s.level
  rw [get_mana] at hsum
  simp only [Nat.zero_add] at hsum
  have htotal : (worth formula.value 0 s.level 0 % 18446744073709551616 + s.tries) %
      18446744073709551616 = worth formula.value 0 s.level s.tries % 18446744073709551616 := by
    rw [Nat.mod_add_mod, ← worth_zero]
  unfold deathMana
  generalize formula.mana.sumUp (0, cache) (List.range' 1 s.level) = summed at *
  obtain ⟨sum, cache'⟩ := summed
  dsimp only at hsum ⊢
  rw [get_mana, hsum, htotal]
  have hlost : ⌊((worth formula.value 0 s.level s.tries % 18446744073709551616 : ℕ) : ℚ) * p⌋₊ ≤
      worth formula.value 0 s.level s.tries := (floor_share_le _ hone).trans (Nat.mod_le _ _)
  generalize ⌊((worth formula.value 0 s.level s.tries % 18446744073709551616 : ℕ) : ℚ) * p⌋₊ =
    lostMana at *
  obtain ⟨hle, hworth⟩ := loseMana_spec hlost
  have hsmall := loseMana_lt formula.uint64 s.level lostMana hwidth
  rw [sub64_eq hle hsmall]
  exact hworth

/-- The mana that is lost is the share for every percentage exactly where the sum of all the mana
does not wrap. -/
theorem deathMana_exact_iff (formula : Formula) (cache : Finset ℕ) {s : Skill}
    (hwidth : s.tries < 18446744073709551616) :
    (∀ p : ℚ, 0 ≤ p → p ≤ 1 →
      worth formula.value 0 (formula.mana.deathMana cache s p).2.level
          (formula.mana.deathMana cache s p).2.tries + ⌊worth formula.value 0 s.level s.tries * p⌋₊ =
        worth formula.value 0 s.level s.tries) ↔
    worth formula.value 0 s.level s.tries < 18446744073709551616 := by
  constructor
  · intro h
    have hall := h 1 zero_le_one le_rfl
    rw [deathMana_eq formula cache hwidth le_rfl, mul_one, mul_one, Nat.floor_natCast,
      Nat.floor_natCast] at hall
    omega
  · intro hfits p _ hone
    rw [deathMana_eq formula cache hwidth hone, Nat.mod_eq_of_lt hfits]
    exact Nat.sub_add_cancel (floor_share_le _ hone)

/-! ## The share of the tries -/

theorem worth_ten (cost : ℕ → ℕ) (level rest : ℕ) :
    worth cost 10 (10 + (level - 10)) rest = worth cost 10 level rest := by
  have hrange : Finset.Ioc 10 (10 + (level - 10)) = Finset.Ioc 10 level := by
    ext c
    rw [Finset.mem_Ioc, Finset.mem_Ioc]
    omega
  unfold worth
  rw [hrange]

/-- What the share of a skill's tries is taken from: its levels are walked down by what the cache
has kept. -/
theorem deathSkill_eq (r : Requirements) (cache : Finset ℕ) (s : Skill) (p : ℚ) {level t lost : ℕ}
    (hlose : Skill.lose r.again s.level s.tries
      (⌊(worth (r.get cache) 10 s.level s.tries % 18446744073709551616 : ℕ) * p⌋₊ % 4294967296) =
        (level, t, lost)) :
    (r.deathSkill cache s p).2.level = level ∧
      (r.deathSkill cache s p).2.tries = Skill.clamp (t - lost) := by
  obtain ⟨hsum, hseen⟩ := @sumUp_range r cache 10 (s.level - 10)
  rw [worth_ten] at hsum
  have htotal : (worth (r.get cache) 10 s.level 0 % 18446744073709551616 + s.tries) %
      18446744073709551616 = worth (r.get cache) 10 s.level s.tries % 18446744073709551616 := by
    rw [Nat.mod_add_mod, ← worth_zero]
  unfold deathSkill
  generalize r.sumUp (0, cache) (List.range' 11 (s.level - 10)) = summed at *
  obtain ⟨sum, cache'⟩ := summed
  dsimp only at hsum hseen ⊢
  have hkept : ∀ c, 10 < c → c ≤ s.level → r.get cache' c = r.again c := by
    intro c hc hc'
    exact if_pos ((hseen c).mpr (.inr ⟨hc, by omega⟩))
  rw [hsum, htotal, lose_congr hkept, hlose]
  exact ⟨rfl, rfl⟩

/-- The tries of a skill fit into the narrow types that they go through. -/
structure Narrow (formula : Formula) (s : Skill) : Prop where
  total : worth formula.value 10 s.level s.tries < 4294967296
  tries : s.tries < 2147483648
  req : ∀ c, 10 < c → c ≤ s.level → formula.value c ≤ 2147483648

/-- The share of a skill's tries is lost. -/
def TakesTries (formula : Formula) (cache : Finset ℕ) (s : Skill) (p : ℚ) : Prop :=
  worth formula.value 10 (formula.skillTries.deathSkill cache s p).2.level
      (formula.skillTries.deathSkill cache s p).2.tries + ⌊worth formula.value 10 s.level s.tries * p⌋₊ =
    worth formula.value 10 s.level s.tries

section Tries

variable {formula : Formula} {s : Skill}

/-- Where all the tries fit into 32 bits, the cache keeps the numbers. -/
theorem kept_of_total (htotal : worth formula.value 10 s.level s.tries < 4294967296) {c : ℕ}
    (hc : 10 < c) (hc' : c ≤ s.level) (cache : Finset ℕ) :
    formula.skillTries.again c = formula.value c ∧
      formula.skillTries.get cache c = formula.value c := by
  have hkept : formula.skillTries.again c = formula.value c :=
    Nat.mod_eq_of_lt ((cost_le_worth hc hc').trans_lt htotal)
  refine ⟨hkept, ?_⟩
  unfold get
  split_ifs
  · exact hkept
  · rfl

/-- Where all the tries fit into 32 bits, the walk is that of the formula's numbers. -/
theorem deathSkill_narrow (htotal : worth formula.value 10 s.level s.tries < 4294967296)
    (cache : Finset ℕ) {p : ℚ} (hone : p ≤ 1) :
    ∃ level t lost, s.Lost formula.value ⌊worth formula.value 10 s.level s.tries * p⌋₊ level t lost ∧
      (formula.skillTries.deathSkill cache s p).2.level = level ∧
      (formula.skillTries.deathSkill cache s p).2.tries = Skill.clamp (t - lost) := by
  have hshare := floor_share_le (worth formula.value 10 s.level s.tries) hone
  obtain ⟨level, t, lost, hlose, hend⟩ := lost_spec hshare
  refine ⟨level, t, lost, hend, deathSkill_eq _ cache s p ?_⟩
  have hsum : worth (formula.skillTries.get cache) 10 s.level s.tries =
      worth formula.value 10 s.level s.tries :=
    worth_congr fun c hc hc' => (kept_of_total htotal hc hc' cache).2
  rw [hsum, Nat.mod_eq_of_lt (htotal.trans (by decide)), Nat.mod_eq_of_lt (hshare.trans_lt htotal),
    lose_congr fun c hc hc' => (kept_of_total htotal hc hc' cache).1, hlose]

theorem takesTries_of_narrow (h : Narrow formula s) (cache : Finset ℕ) {p : ℚ} (hone : p ≤ 1) :
    TakesTries formula cache s p := by
  obtain ⟨level, t, lost, hend, hlevel, htries⟩ := deathSkill_narrow h.total cache hone
  have hshare := floor_share_le (worth formula.value 10 s.level s.tries) hone
  have hsmall : t - lost < 2147483648 := by
    rcases hend.top with ⟨-, ht, -⟩ | ⟨hten, ht, hpos, hless⟩
    · have htries := h.tries
      omega
    · have hreq := h.req (level + 1) (by omega) hless
      omega
  unfold TakesTries
  rw [hlevel, htries, clamp_eq hsmall, hend.worth]
  exact Nat.sub_add_cancel hshare

/-- Where nothing is lost the tries go through an `int32_t` all the same. -/
theorem deathSkill_nothing (formula : Formula) (cache : Finset ℕ) (s : Skill) {p : ℚ}
    (hp : ⌊(worth (formula.skillTries.get cache) 10 s.level s.tries % 18446744073709551616 : ℕ) *
      p⌋₊ % 4294967296 = 0) :
    (formula.skillTries.deathSkill cache s p).2.level = s.level ∧
      (formula.skillTries.deathSkill cache s p).2.tries = Skill.clamp s.tries := by
  have hlose : Skill.lose formula.skillTries.again s.level s.tries 0 = (s.level, s.tries, 0) := by
    cases s.level with
    | zero => rw [Skill.lose, if_neg (Nat.not_lt_zero _)]
    | succ level => rw [Skill.lose, if_neg (Nat.not_lt_zero _)]
  rw [← hp] at hlose
  have hleft := deathSkill_eq _ cache s p hlose
  rwa [hp] at hleft

/-- Where the share for every percentage is lost the tries are below 2^31. -/
theorem tries_of_takes {cache : Finset ℕ} (h : TakesTries formula cache s 0) :
    s.tries < 2147483648 := by
  obtain ⟨hlevel, htries⟩ := deathSkill_nothing formula cache s (p := 0)
    (by rw [mul_zero, Nat.floor_zero])
  unfold TakesTries at h
  rw [hlevel, htries, mul_zero, Nat.floor_zero, worth_zero _ _ _ s.tries, worth_zero] at h
  have hclamp := clamp_lt s.tries
  omega

/-- The share that is taken is not 0 where the whole share is not. -/
theorem share_of_takes {cache : Finset ℕ} {p : ℚ} (h : TakesTries formula cache s p)
    (htries : s.tries < 2147483648)
    (hp : ⌊(worth (formula.skillTries.get cache) 10 s.level s.tries % 18446744073709551616 : ℕ) *
      p⌋₊ % 4294967296 = 0) : ⌊worth formula.value 10 s.level s.tries * p⌋₊ = 0 := by
  obtain ⟨hlevel, hclamp⟩ := deathSkill_nothing formula cache s hp
  unfold TakesTries at h
  rw [hlevel, hclamp, clamp_eq htries] at h
  omega

theorem get_le (formula : Formula) (cache : Finset ℕ) (c : ℕ) :
    formula.skillTries.get cache c ≤ formula.value c := by
  unfold get
  split_ifs
  · exact Nat.mod_le _ _
  · exact Nat.le_refl _

theorem total_of_takes {cache : Finset ℕ}
    (h : ∀ p : ℚ, 0 ≤ p → p ≤ 1 → TakesTries formula cache s p) :
    worth formula.value 10 s.level s.tries < 4294967296 := by
  have htries := tries_of_takes (h 0 le_rfl zero_le_one)
  have hsum : worth (formula.skillTries.get cache) 10 s.level s.tries % 18446744073709551616 ≤
      worth formula.value 10 s.level s.tries :=
    (Nat.mod_le _ _).trans (worth_mono (get_le formula cache))
  by_contra hwide
  rw [Nat.not_lt] at hwide
  have hpos : worth formula.value 10 s.level s.tries ≠ 0 := by omega
  rcases Nat.lt_or_eq_of_le hsum with hcut | hsame
  · -- the sum is too low for a share that is one try of all the tries
    obtain ⟨hlow, hhigh⟩ := part_mem (Nat.one_le_iff_ne_zero.mpr hpos)
    have hnone := share_of_takes (h _ hlow hhigh) htries (by
      rw [Nat.cast_one, mul_one_div, Nat.floor_eq_zero.mpr]
      exact (div_lt_one (by exact_mod_cast Nat.pos_of_ne_zero hpos)).mpr (by exact_mod_cast hcut))
    rw [floor_part hpos] at hnone
    exact absurd hnone Nat.one_ne_zero
  · -- a share of 2^32 tries is none for a `uint32_t`
    obtain ⟨hlow, hhigh⟩ := part_mem hwide
    have hnone := share_of_takes (h _ hlow hhigh) htries (by
      rw [hsame, floor_part hpos])
    rw [floor_part hpos] at hnone
    exact absurd hnone (by decide)

/-- A walk that ends one try into a level leaves all the others of it. -/
theorem req_of_takes {cache : Finset ℕ} (htotal : worth formula.value 10 s.level s.tries < 4294967296)
    (h : ∀ p : ℚ, 0 ≤ p → p ≤ 1 → TakesTries formula cache s p) {c : ℕ} (hc : 10 < c)
    (hc' : c ≤ s.level) : formula.value c ≤ 2147483648 := by
  by_contra hwide
  have hfits : formula.value c < 4294967296 := (cost_le_worth hc hc').trans_lt htotal
  obtain ⟨b, rfl⟩ : ∃ b, c = b + 1 := ⟨c - 1, by omega⟩
  -- the tries above level b
  have hsplit : worth formula.value 10 s.level s.tries =
      worth formula.value 10 b (formula.value (b + 1)) + worth formula.value (b + 1) s.level 0 +
        s.tries := by
    rw [worth_zero, ← worth_trans _ hc.le hc', worth_succ (Nat.lt_succ_iff.mp hc), Nat.add_zero]
  have hbelow := worth_zero formula.value 10 b (formula.value (b + 1))
  have hbelow' := worth_zero formula.value 10 b (formula.value (b + 1) - 1)
  have hpart : worth formula.value (b + 1) s.level 0 + s.tries + 1 ≤
      worth formula.value 10 s.level s.tries := by omega
  have hpos : worth formula.value 10 s.level s.tries ≠ 0 := by omega
  obtain ⟨hlow, hhigh⟩ := part_mem hpart
  obtain ⟨level, t, lost, hend, hlevel, htries⟩ := deathSkill_narrow htotal cache hhigh
  have htakes := h _ hlow hhigh
  unfold TakesTries at htakes
  rw [hlevel, htries, floor_part hpos] at htakes
  rw [floor_part hpos] at hend
  have hle := hend.le
  rcases hend.top with ⟨-, ht, hlost⟩ | ⟨hten, ht, hlost, -⟩
  · omega
  · have hworth : worth formula.value 10 level (t - lost) =
        worth formula.value 10 b (formula.value (b + 1) - 1) := by
      rw [hend.worth]
      omega
    obtain ⟨rfl, hleft⟩ := eq_of_worth_eq hten (Nat.lt_succ_iff.mp hc) (by omega) (by omega) hworth
    rw [hleft, clamp_wide (by omega) (by omega)] at htakes
    omega

theorem takesTries_iff (formula : Formula) (cache : Finset ℕ) (s : Skill) :
    (∀ p : ℚ, 0 ≤ p → p ≤ 1 → TakesTries formula cache s p) ↔ Narrow formula s := by
  constructor
  · intro h
    have htotal := total_of_takes h
    exact ⟨htotal, tries_of_takes (h 0 le_rfl zero_le_one),
      fun c hc hc' => req_of_takes htotal h hc hc'⟩
  · exact fun h p _ hone => takesTries_of_narrow h cache hone

end Tries

end Requirements

namespace DeathLoss

/-- What a vocation's formulas give. -/
structure Formulas where
  reqMana : Formula
  skillTries : SkillId → Formula

structure Caches where
  cacheMana : Finset ℕ
  cacheSkill : SkillId → Finset ℕ

/-- The magic level with the mana spent, and the skills. -/
structure Progress where
  magic : Skill
  skills : SkillId → Skill
  uint64 : magic.tries < 18446744073709551616

/-- The parts of `death` about mana and skills.  They do not return where the counter of a sum,
a `uint32_t` for the mana and a `uint16_t` for the tries, cannot pass the level. -/
def death (formulas : Formulas) (caches : Caches) (player : Progress) (deathLossPercent : ℚ) :
    Option (Caches × Progress) :=
  if player.magic.level < 4294967295 ∧ ∀ skill, (player.skills skill).level < 65535 then
    let mana := formulas.reqMana.mana.deathMana caches.cacheMana player.magic deathLossPercent
    let tries := fun skill => (formulas.skillTries skill).skillTries.deathSkill
      (caches.cacheSkill skill) (player.skills skill) deathLossPercent
    some (⟨mana.1, fun skill => (tries skill).1⟩,
      ⟨mana.2, fun skill => (tries skill).2, Nat.mod_lt _ (by decide)⟩)
  else none

/-- All the mana and the tries of every skill are lost by their share. -/
def TakesShare (formulas : Formulas) (caches : Caches) (player : Progress) (p : ℚ) : Prop :=
  ∃ caches' player', death formulas caches player p = some (caches', player') ∧
    worth formulas.reqMana.value 0 player'.magic.level player'.magic.tries +
        ⌊worth formulas.reqMana.value 0 player.magic.level player.magic.tries * p⌋₊ =
      worth formulas.reqMana.value 0 player.magic.level player.magic.tries ∧
    ∀ skill, worth (formulas.skillTries skill).value 10 (player'.skills skill).level
          (player'.skills skill).tries +
        ⌊worth (formulas.skillTries skill).value 10 (player.skills skill).level
          (player.skills skill).tries * p⌋₊ =
      worth (formulas.skillTries skill).value 10 (player.skills skill).level
        (player.skills skill).tries

theorem takesShare_parts {formulas : Formulas} {caches : Caches} {player : Progress} {p : ℚ}
    (hends : player.magic.level < 4294967295 ∧ ∀ skill, (player.skills skill).level < 65535) :
    TakesShare formulas caches player p ↔
      worth formulas.reqMana.value 0
            (formulas.reqMana.mana.deathMana caches.cacheMana player.magic p).2.level
            (formulas.reqMana.mana.deathMana caches.cacheMana player.magic p).2.tries +
          ⌊worth formulas.reqMana.value 0 player.magic.level player.magic.tries * p⌋₊ =
        worth formulas.reqMana.value 0 player.magic.level player.magic.tries ∧
      ∀ skill, Requirements.TakesTries (formulas.skillTries skill) (caches.cacheSkill skill)
        (player.skills skill) p := by
  unfold TakesShare death
  rw [if_pos hends]
  constructor
  · rintro ⟨caches', player', hdeath, hmana, htries⟩
    cases hdeath
    exact ⟨hmana, htries⟩
  · rintro ⟨hmana, htries⟩
    exact ⟨_, _, rfl, hmana, htries⟩

/-- The player's levels, mana and tries fit into the types of `death`. -/
structure Fits (formulas : Formulas) (player : Progress) : Prop where
  magic : player.magic.level < 4294967295
  mana : worth formulas.reqMana.value 0 player.magic.level player.magic.tries < 18446744073709551616
  level : ∀ skill, (player.skills skill).level < 65535
  tries : ∀ skill, Requirements.Narrow (formulas.skillTries skill) (player.skills skill)

/-- Every share of the mana and of the tries is taken exactly where they fit. -/
theorem takesShare_iff (formulas : Formulas) (caches : Caches) (player : Progress) :
    (∀ p : ℚ, 0 ≤ p → p ≤ 1 → TakesShare formulas caches player p) ↔ Fits formulas player := by
  have hmana := Requirements.deathMana_exact_iff formulas.reqMana caches.cacheMana player.uint64
  have htries := fun skill => Requirements.takesTries_iff (formulas.skillTries skill)
    (caches.cacheSkill skill) (player.skills skill)
  by_cases hends : player.magic.level < 4294967295 ∧ ∀ skill, (player.skills skill).level < 65535
  · have hparts : ∀ p, TakesShare formulas caches player p ↔ _ ∧ ∀ skill, _ :=
      fun p => takesShare_parts hends
    constructor
    · intro h
      exact ⟨hends.1, hmana.mp fun p hlow hhigh => ((hparts p).mp (h p hlow hhigh)).1, hends.2,
        fun skill => (htries skill).mp fun p hlow hhigh =>
          ((hparts p).mp (h p hlow hhigh)).2 skill⟩
    · intro hfits p hlow hhigh
      exact (hparts p).mpr ⟨hmana.mpr hfits.mana p hlow hhigh,
        fun skill => (htries skill).mpr (hfits.tries skill) p hlow hhigh⟩
  · refine iff_of_false (fun h => ?_) fun hfits => hends ⟨hfits.magic, hfits.level⟩
    obtain ⟨caches', player', hdeath, -⟩ := h 0 le_rfl zero_le_one
    unfold death at hdeath
    rw [if_neg hends] at hdeath
    cases hdeath

/-- The multiplier 2 for every skill. -/
def twofold : Formulas where
  reqMana := ⟨fun _ => 1600, fun _ => by decide⟩
  skillTries _ := Requirements.twofold

/-- Who has reached level 37 loses half of it with a tenth of all the tries. -/
theorem tenth_takes_half : ¬ ∀ (formulas : Formulas) (caches : Caches) (player : Progress) (p : ℚ),
    0 ≤ p → p ≤ 1 → TakesShare formulas caches player p := by
  intro h
  have htakes := h twofold ⟨∅, fun _ => ∅⟩ ⟨{ level := 0 }, fun _ => { level := 37 }, by decide⟩
    (1 / 10) (by norm_num) (by norm_num)
  have htries := ((takesShare_parts (by decide)).mp htakes).2 0
  revert htries
  unfold Requirements.TakesTries
  decide +kernel

end DeathLoss

end TibiaServer.Players
