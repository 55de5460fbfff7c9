import Mathlib.Algebra.BigOperators.Intervals
import Mathlib.Algebra.Order.BigOperators.Group.Finset
/-!
# Levels that cost points

Who has reached `level` and holds `rest` points towards the next level has spent what the
levels above `low` cost up to `level`.  The total determines both, as long as `rest` does
not reach the cost of the next level.
-/

namespace TibiaServer.Library.Levels

variable {cost : ℕ → ℕ} {low level rest level' rest' : ℕ}

/-- All the points of who is `rest` points beyond `level`. -/
def worth (cost : ℕ → ℕ) (low level rest : ℕ) : ℕ :=
  (∑ c ∈ Finset.Ioc low level, cost c) + rest

@[simp] theorem worth_low : worth cost low low rest = rest := by
  rw [worth, Finset.Ioc_self, Finset.sum_empty, Nat.zero_add]

theorem worth_succ (h : low ≤ level) :
    worth cost low (level + 1) rest = worth cost low level (cost (level + 1) + rest) := by
  rw [worth, worth, Finset.sum_Ioc_succ_top h, Nat.add_assoc]

theorem worth_add (cost : ℕ → ℕ) (low level rest more : ℕ) :
    worth cost low level (rest + more) = worth cost low level rest + more := by
  rw [worth, worth, Nat.add_assoc]

/-- Who is further on by a level has more points than one who has not paid for it. -/
theorem worth_lt_of_lt (hlow : low ≤ level) (hrest : rest < cost (level + 1))
    (hlt : level < level') : worth cost low level rest < worth cost low level' rest' := by
  induction level' with
  | zero => omega
  | succ level' ih =>
    rcases Nat.lt_succ_iff_lt_or_eq.mp hlt with hlt | rfl
    · calc worth cost low level rest
        _ < worth cost low level' rest' := ih hlt
        _ ≤ worth cost low level' (cost (level' + 1) + rest') := by
          unfold worth
          omega
        _ = worth cost low (level' + 1) rest' := (worth_succ (by omega)).symm
    · calc worth cost low level rest
        _ < worth cost low level (cost (level + 1) + rest') := by
          unfold worth
          omega
        _ = worth cost low (level + 1) rest' := (worth_succ hlow).symm

theorem eq_of_worth_eq (hlow : low ≤ level) (hlow' : low ≤ level')
    (hrest : rest < cost (level + 1)) (hrest' : rest' < cost (level' + 1))
    (h : worth cost low level rest = worth cost low level' rest') :
    level = level' ∧ rest = rest' := by
  rcases Nat.lt_trichotomy level level' with hlt | rfl | hlt
  · exact absurd h (worth_lt_of_lt hlow hrest hlt).ne
  · refine ⟨rfl, ?_⟩
    unfold worth at h
    omega
  · exact absurd h.symm (worth_lt_of_lt hlow' hrest' hlt).ne

theorem worth_zero (cost : ℕ → ℕ) (low level rest : ℕ) :
    worth cost low level rest = worth cost low level 0 + rest := by
  rw [← worth_add, Nat.zero_add]

theorem worth_trans (cost : ℕ → ℕ) {middle : ℕ} (h : low ≤ middle) (h' : middle ≤ level) :
    worth cost low middle 0 + worth cost middle level 0 = worth cost low level 0 := by
  unfold worth
  rw [Nat.add_zero, Nat.add_zero, Nat.add_zero, Finset.sum_Ioc_consecutive cost h h']

theorem worth_congr {cost' : ℕ → ℕ} (h : ∀ c, low < c → c ≤ level → cost' c = cost c) :
    worth cost' low level rest = worth cost low level rest := by
  unfold worth
  rw [Finset.sum_congr rfl fun c hc => h c (Finset.mem_Ioc.mp hc).1 (Finset.mem_Ioc.mp hc).2]

theorem worth_mono {cost' : ℕ → ℕ} (h : ∀ c, cost' c ≤ cost c) :
    worth cost' low level rest ≤ worth cost low level rest :=
  Nat.add_le_add_right (Finset.sum_le_sum fun c _ => h c) rest

theorem cost_le_worth {c : ℕ} (hc : low < c) (hc' : c ≤ level) :
    cost c ≤ worth cost low level rest := by
  obtain ⟨b, rfl⟩ : ∃ b, c = b + 1 := ⟨c - 1, by omega⟩
  calc cost (b + 1)
    _ ≤ worth cost low (b + 1) 0 := by
      rw [worth_succ (Nat.lt_succ_iff.mp hc)]
      unfold worth
      omega
    _ ≤ worth cost low (b + 1) 0 + worth cost (b + 1) level 0 := Nat.le_add_right _ _
    _ = worth cost low level 0 := worth_trans cost hc.le hc'
    _ ≤ worth cost low level rest := by
      rw [worth_zero cost low level rest]
      exact Nat.le_add_right _ _

/-! ## Spending points on levels -/

variable {points more : ℕ}

/-- Who is at `low` and spends `points` on the levels above comes to `level`: each level on the
way costs more than the one before, and the next one does not, or cannot be paid. -/
structure StopsAt (cost : ℕ → ℕ) (low points level : ℕ) : Prop where
  reached : low ≤ level
  grows : ∀ c, low ≤ c → c < level → cost c < cost (c + 1)
  paid : worth cost low level 0 ≤ points
  stops : cost (level + 1) ≤ cost level ∨ points < worth cost low (level + 1) 0

/-- No points are kept where no level follows. -/
def remainder (cost : ℕ → ℕ) (low points level : ℕ) : ℕ :=
  if cost (level + 1) ≤ cost level then 0 else points - worth cost low level 0

theorem remainder_le (cost : ℕ → ℕ) (low points level : ℕ) :
    remainder cost low points level ≤ points := by
  unfold remainder
  split_ifs
  · exact Nat.zero_le points
  · exact Nat.sub_le points _

namespace StopsAt

theorem not_lt (h : StopsAt cost low points level) (h' : StopsAt cost low points level') :
    ¬ level < level' := by
  intro hlt
  have hgrows := h'.grows level h.reached hlt
  have hshort := h.stops.resolve_left (Nat.not_le.mpr hgrows)
  have hpaid := h'.paid
  have htrans := worth_trans cost (h.reached.trans (Nat.le_add_right level 1)) hlt
  omega

theorem unique (h : StopsAt cost low points level) (h' : StopsAt cost low points level') :
    level = level' :=
  Nat.le_antisymm (Nat.not_lt.mp (h'.not_lt h)) (Nat.not_lt.mp (h.not_lt h'))

theorem here (h : cost (low + 1) ≤ cost low ∨ points < cost (low + 1)) :
    StopsAt cost low points low where
  reached := Nat.le_refl low
  grows c hc hc' := by omega
  paid := by
    rw [worth_low]
    exact Nat.zero_le points
  stops := by
    rwa [worth_succ (Nat.le_refl low), worth_low, Nat.add_zero]

/-- The next level is paid first. -/
theorem step (hgrows : cost low < cost (low + 1)) (hpaid : cost (low + 1) ≤ points)
    (h : StopsAt cost (low + 1) (points - cost (low + 1)) level) :
    StopsAt cost low points level ∧
      remainder cost low points level =
        remainder cost (low + 1) (points - cost (low + 1)) level := by
  have hreached := h.reached
  have hafter := h.paid
  have hfirst : ∀ level, low < level → cost (low + 1) + worth cost (low + 1) level 0 =
      worth cost low level 0 := by
    intro level hlevel
    rw [← worth_trans cost (Nat.le_add_right low 1) hlevel, worth_succ (Nat.le_refl low), worth_low]
    rfl
  have hsum := hfirst level hreached
  have hsum' := hfirst (level + 1) (by omega)
  refine ⟨⟨by omega, fun c hc hc' => ?_, by omega, ?_⟩, ?_⟩
  · rcases Nat.lt_or_eq_of_le hc with hlt | rfl
    · exact h.grows c hlt hc'
    · exact hgrows
  · exact h.stops.imp_right fun hshort => by omega
  · unfold remainder
    split_ifs
    · rfl
    · omega

/-- The points that are left are spent on. -/
theorem append (h : StopsAt cost low points level) (hgrows : cost level < cost (level + 1))
    (h' : StopsAt cost level (remainder cost low points level + more) level') :
    StopsAt cost low (points + more) level' ∧
      remainder cost low (points + more) level' =
        remainder cost level (remainder cost low points level + more) level' := by
  have hrest : remainder cost low points level = points - worth cost low level 0 :=
    if_neg (Nat.not_le.mpr hgrows)
  rw [hrest] at h' ⊢
  have hpaid := h.paid
  have hpaid' := h'.paid
  have htrans := worth_trans cost h.reached h'.reached
  have htrans' := worth_trans cost h.reached
    (h'.reached.trans (Nat.le_add_right level' 1))
  refine ⟨⟨h.reached.trans h'.reached, fun c hc hc' => ?_, by omega, ?_⟩, ?_⟩
  · rcases Nat.lt_or_ge c level with hlt | hge
    · exact h.grows c hc hlt
    · exact h'.grows c hge hc'
  · exact h'.stops.imp_right fun hshort => by omega
  · unfold remainder
    split_ifs
    · rfl
    · omega

/-- Where no level follows, further points change nothing. -/
theorem more_at_end (h : StopsAt cost low points level) (hend : cost (level + 1) ≤ cost level)
    (more : ℕ) : StopsAt cost low (points + more) level where
  reached := h.reached
  grows := h.grows
  paid := h.paid.trans (Nat.le_add_right points more)
  stops := .inl hend

/-- Only what is above `low` is paid; of `low` itself it matters whether a level follows. -/
theorem congr {cost' : ℕ → ℕ} (h : StopsAt cost low points level)
    (habove : ∀ c, low < c → cost' c = cost c)
    (hend : cost' (low + 1) ≤ cost' low ↔ cost (low + 1) ≤ cost low) :
    StopsAt cost' low points level ∧
      (cost' (level + 1) ≤ cost' level ↔ cost (level + 1) ≤ cost level) := by
  have hends : ∀ c, low ≤ c → (cost' (c + 1) ≤ cost' c ↔ cost (c + 1) ≤ cost c) := by
    intro c hc
    rcases Nat.lt_or_eq_of_le hc with hlt | rfl
    · rw [habove c hlt, habove (c + 1) (hlt.trans (Nat.lt_succ_self c))]
    · exact hend
  refine ⟨⟨h.reached, fun c hc hc' => ?_, ?_, ?_⟩, hends level h.reached⟩
  · exact Nat.not_le.mp ((hends c hc).not.mpr (Nat.not_le.mpr (h.grows c hc hc')))
  · rw [worth_congr fun c hc _ => habove c hc]
    exact h.paid
  · rw [worth_congr fun c hc _ => habove c hc, hends level h.reached]
    exact h.stops

end StopsAt

end TibiaServer.Library.Levels
