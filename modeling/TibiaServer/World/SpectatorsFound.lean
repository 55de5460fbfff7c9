import Mathlib.Algebra.Order.Group.Abs
import TibiaServer.World.Creatures
/-!
# Who is found by a search

A stored set may hold more than the search would find now, but never less: the
answer of `getSpectators` contains the caller's set and everybody in range, over
every run (`CacheCovers`).  A creature that `canSee` a square is in range of a
search around that square and the square is in range of a search around the
creature, although the two look at the floors from different ends.
-/

namespace TibiaServer.World

/-- `Creature::canSee` with its four arguments. -/
def canSee (myPos pos : Position) (viewRangeX viewRangeY : ℤ) : Bool :=
  if myPos.z ≤ 7 ∧ pos.z > 7 then false
  else if myPos.z ≥ 8 ∧ Position.getDistanceZ myPos pos > 2 then false
  else
    let offsetz := myPos.getZ - pos.getZ
    pos.getX ≥ myPos.getX - viewRangeX + offsetz && pos.getX ≤ myPos.getX + viewRangeX + offsetz &&
      pos.getY ≥ myPos.getY - viewRangeY + offsetz && pos.getY ≤ myPos.getY + viewRangeY + offsetz

theorem Position.z_le_seven (p : Position) : p.z ≤ 7 ↔ p.getZ ≤ 7 := by
  have h7 : (7 : UInt8).toNat = 7 := rfl
  rw [UInt8.le_iff_toNat_le, h7]
  unfold Position.getZ
  omega

/-- The floors and the two shifted ranges, over the integers. -/
theorem canSee_iff (myPos pos : Position) (viewRangeX viewRangeY : ℤ) :
    canSee myPos pos viewRangeX viewRangeY = true ↔
      (myPos.getZ ≤ 7 → pos.getZ ≤ 7) ∧ (8 ≤ myPos.getZ → |myPos.getZ - pos.getZ| ≤ 2) ∧
        (myPos.getX - viewRangeX + (myPos.getZ - pos.getZ) ≤ pos.getX ∧
          pos.getX ≤ myPos.getX + viewRangeX + (myPos.getZ - pos.getZ)) ∧
        (myPos.getY - viewRangeY + (myPos.getZ - pos.getZ) ≤ pos.getY ∧
          pos.getY ≤ myPos.getY + viewRangeY + (myPos.getZ - pos.getZ)) := by
  have hunder : myPos.z ≥ 8 ↔ 8 ≤ myPos.getZ := by
    have h8 : (8 : UInt8).toNat = 8 := rfl
    rw [ge_iff_le, UInt8.le_iff_toNat_le, h8]
    unfold Position.getZ
    omega
  have hdist : Position.getDistanceZ myPos pos = |myPos.getZ - pos.getZ| := rfl
  unfold canSee
  simp only [gt_iff_lt, ← UInt8.not_le, myPos.z_le_seven, pos.z_le_seven, hunder, hdist]
  split
  next h => exact iff_of_false (by simp) fun hsee => h.2 (hsee.1 h.1)
  next h =>
    split
    next h' => exact iff_of_false (by simp) fun hsee => by have := hsee.2.1 h'.1; omega
    next h' =>
      simp only [ge_iff_le, Bool.and_eq_true, decide_eq_true_eq]
      constructor
      · rintro ⟨⟨⟨h1, h2⟩, h3⟩, h4⟩
        refine ⟨fun hz => ?_, fun hz => ?_, ⟨h1, h2⟩, h3, h4⟩
        · by_contra hp
          exact h ⟨hz, hp⟩
        · by_contra hp
          exact h' ⟨hz, by omega⟩
      · rintro ⟨-, -, ⟨h1, h2⟩, h3, h4⟩
        exact ⟨⟨⟨h1, h2⟩, h3⟩, h4⟩

namespace SpectatorQuery

/-- The search over all floors around a square. -/
def around (p : Position) : SpectatorQuery := { centerPos := p, multifloor := true }

theorem range_around (p : Position) :
    (around p).range =
      ⟨-maxViewportX, maxViewportX, -maxViewportY, maxViewportY,
        (around p).floors.1, (around p).floors.2⟩ := rfl

/-- The floors of a search, over the integers. -/
theorem floors_around (p : Position) :
    (around p).floors =
      if 7 < p.getZ then (max (p.getZ - 2) 0, min (p.getZ + 2) 15)
      else if p.getZ = 6 then (0, 8)
      else if p.getZ = 7 then (0, 9)
      else (0, 7) := by
  have heq : ∀ z : UInt8, p.z = z ↔ p.getZ = z.toNat := by
    intro z
    rw [← UInt8.toNat_inj]
    exact Int.ofNat_inj.symm
  have h6 : p.z = 6 ↔ p.getZ = 6 := heq 6
  have h7 : p.z = 7 ↔ p.getZ = 7 := heq 7
  have hgt : p.z > 7 ↔ 7 < p.getZ := by
    rw [gt_iff_lt, ← UInt8.not_le, p.z_le_seven, not_le]
  unfold floors
  simp only [around, if_true, hgt, h6, h7, MAP_MAX_LAYERS]
  rfl

end SpectatorQuery

open SpectatorQuery (around)

/-- Who sees a square is found by a search around it: the viewport of ten squares lies within
the eleven of the search, and each floor that is seen from is searched. -/
theorem covers_seer {myPos pos : Position} (hsee : canSee myPos pos 10 10 = true)
    (hmy : myPos.getZ < 16) : (around pos).range.Covers pos myPos := by
  obtain ⟨hup, hdown, ⟨hx1, hx2⟩, hy1, hy2⟩ := (canSee_iff _ _ _ _).mp hsee
  have hz0 : 0 ≤ myPos.getZ := Int.natCast_nonneg _
  have hp0 : 0 ≤ pos.getZ := Int.natCast_nonneg _
  rw [SpectatorQuery.range_around, SpectatorQuery.floors_around]
  unfold SearchRange.Covers Position.getOffsetZ maxViewportX maxViewportY
  dsimp only
  refine ⟨?_, by omega, by omega⟩
  have habs : 8 ≤ myPos.getZ → pos.getZ - 2 ≤ myPos.getZ ∧ myPos.getZ ≤ pos.getZ + 2 := by
    intro h8
    have := abs_le.mp (hdown h8)
    omega
  split_ifs <;> dsimp only <;> omega

/-- Where a creature can see, its own search looks. -/
theorem covers_seen {myPos pos : Position} (hsee : canSee myPos pos 10 10 = true)
    (hpos : pos.getZ < 16) : (around myPos).range.Covers myPos pos := by
  obtain ⟨hup, hdown, ⟨hx1, hx2⟩, hy1, hy2⟩ := (canSee_iff _ _ _ _).mp hsee
  have hz0 : 0 ≤ myPos.getZ := Int.natCast_nonneg _
  have hp0 : 0 ≤ pos.getZ := Int.natCast_nonneg _
  rw [SpectatorQuery.range_around, SpectatorQuery.floors_around]
  unfold SearchRange.Covers Position.getOffsetZ maxViewportX maxViewportY
  dsimp only
  refine ⟨?_, by omega, by omega⟩
  have habs : 8 ≤ myPos.getZ → myPos.getZ - 2 ≤ pos.getZ ∧ pos.getZ ≤ myPos.getZ + 2 := by
    intro h8
    have := abs_le.mp (hdown h8)
    omega
  split_ifs <;> dsimp only <;> omega

/-- A creature is in range of a search around its own square. -/
theorem covers_self {p : Position} (hp : p.getZ < 16) : (around p).range.Covers p p := by
  apply covers_seen _ hp
  rw [canSee_iff]
  simp

namespace Map

variable {ι : Type} {isPlayer : CreatureId → Bool} {m m' : Map ι}

/-- No cached set lacks a creature that the search finds now. -/
structure CacheCovers (m : Map ι) : Prop where
  all : ∀ p spectators, m.spectatorCache p = some spectators →
    m.uncached (.viewport p false) ⊆ spectators
  players : ∀ p spectators, m.playersSpectatorCache p = some spectators →
    m.uncached (.viewport p true) ⊆ spectators

theorem Cleared.covers (h : m.Cleared) : m.CacheCovers := by
  constructor
  · intro p spectators hp
    simp [h.1 p] at hp
  · intro p spectators hp
    simp [h.2 p] at hp

theorem uncached_players_subset (h : m.Linked) (hlist : m.Listed isPlayer) (p : Position)
    {c : CreatureId} (hc : c ∈ m.uncached (.viewport p true)) :
    c ∈ m.uncached (.viewport p false) ∧ isPlayer c = true := by
  rw [← filter_uncached h hlist, Finset.mem_filter] at hc
  exact hc

section Search

variable (h : m.Linked) (hlist : m.Listed isPlayer) (hcovers : m.CacheCovers)

include h hlist hcovers

/-- Of everybody who is found without the caches nobody is missed with them. -/
theorem subset_findCached {spectators found : Finset CreatureId} {q : SpectatorQuery}
    (hq : q.usesCache) (hfound : m.findCached isPlayer spectators q = some found) :
    spectators ∪ m.uncached q ⊆ found := by
  rw [uncached_viewport m hq]
  unfold findCached at hfound
  split at hfound
  next cached hcached =>
    obtain rfl := Option.some.inj hfound
    cases honly : q.onlyPlayers with
    | false => simp [honly] at hcached
    | true =>
      rw [honly, if_pos rfl] at hcached
      exact Finset.union_subset_union_right (hcovers.players _ _ hcached)
  next =>
    obtain ⟨cached, hcached, rfl⟩ := Option.map_eq_some_iff.mp hfound
    have hall := hcovers.all _ _ hcached
    cases honly : q.onlyPlayers with
    | false => exact Finset.union_subset_union_right hall
    | true =>
      rw [if_pos rfl]
      refine Finset.union_subset_union_right fun c hc => ?_
      obtain ⟨hc, hplayer⟩ := uncached_players_subset h hlist q.centerPos hc
      exact Finset.mem_filter.mpr ⟨hall hc, hplayer⟩

theorem subset_getSpectators (spectators : Finset CreatureId) (q : SpectatorQuery) :
    spectators ∪ m.uncached q ⊆ (m.getSpectators isPlayer spectators q).1 := by
  unfold getSpectators
  split
  next hz => rw [uncached, if_pos hz, Finset.union_empty]
  next hz =>
    have hunion := getSpectatorsInternal_eq_union h hlist spectators q (by omega)
    by_cases hq : q.usesCache
    · rw [if_pos hq]
      cases hfound : m.findCached isPlayer spectators q with
      | some found => exact subset_findCached h hlist hcovers hq hfound
      | none =>
        dsimp only
        rw [hunion]
    · rw [if_neg hq]
      dsimp only
      rw [hunion]

theorem CacheCovers.getSpectators (spectators : Finset CreatureId) (q : SpectatorQuery) :
    (m.getSpectators isPlayer spectators q).2.CacheCovers := by
  by_cases hstores : m.Stores q
  · have hstored : m.uncached q ⊆
        m.getSpectatorsInternal spectators q.centerPos q.range q.onlyPlayers := by
      rw [getSpectatorsInternal_eq_union h hlist spectators q hstores.1]
      exact Finset.subset_union_right
    rw [getSpectators_of_stores isPlayer m hstores]
    rw [uncached_viewport m hstores.2.1] at hstored
    unfold storeCached
    cases honly : q.onlyPlayers with
    | true =>
      rw [honly] at hstored
      refine ⟨hcovers.all, fun p found hp => ?_⟩
      rw [if_pos rfl] at hp
      dsimp only at hp
      by_cases hpq : p = q.centerPos
      · subst hpq
        rw [Function.update_self] at hp
        exact Option.some.inj hp ▸ hstored
      · rw [Function.update_of_ne hpq] at hp
        exact hcovers.players p found hp
    | false =>
      rw [honly] at hstored
      refine ⟨fun p found hp => ?_, hcovers.players⟩
      rw [if_neg Bool.false_ne_true] at hp
      dsimp only at hp
      by_cases hpq : p = q.centerPos
      · subst hpq
        rw [Function.update_self] at hp
        exact Option.some.inj hp ▸ hstored
      · rw [Function.update_of_ne hpq] at hp
        exact hcovers.all p found hp
  · rw [getSpectators_of_not_stores isPlayer m hstores]
    exact hcovers

end Search

/-- Somebody who stands in range is among the spectators. -/
theorem mem_getSpectators (h : m.WellPlaced isPlayer) (hcovers : m.CacheCovers) {c : CreatureId}
    (hc : m.Placed c) {p : Position} (hp : p.getZ < 16)
    (hrange : (around p).range.Covers p (m.getPosition c)) (spectators : Finset CreatureId) :
    c ∈ (m.getSpectators isPlayer spectators (around p)).1 := by
  apply subset_getSpectators h.linked h.listed hcovers
  apply Finset.mem_union_right
  rw [mem_uncached h.linked h.listed]
  refine ⟨?_, ⟨hc, ?_⟩, hrange⟩
  · have hp : (p.z.toNat : ℤ) < 16 := hp
    change p.z.toNat < 16
    omega
  · intro honly
    cases honly

theorem CacheCovers.step {merge : ι → ι → ι} {a : Action ι} (h : m.WellPlaced isPlayer)
    (hcovers : m.CacheCovers) (hstep : Map.step isPlayer merge m a = some m') :
    m'.CacheCovers := by
  obtain ⟨h', hcases⟩ := step_cases h hstep
  rcases hcases with hcleared | rfl | ⟨p, newTile, rfl⟩ | ⟨spectators, q, rfl, rfl⟩
  · exact hcleared.covers
  · exact hcovers
  · obtain ⟨m₁, hset₁, -, -, -, hcreatures, hall, hplayers⟩ :=
      setTile_spec h.linked merge p newTile
    obtain rfl : m₁ = m' := Option.some.inj (hset₁.symm.trans hstep)
    have huncached := uncached_congr h.linked h.listed h'.linked h'.listed hcreatures
    constructor
    · intro q spectators hq
      rw [huncached]
      exact hcovers.all q spectators (hall ▸ hq)
    · intro q spectators hq
      rw [huncached]
      exact hcovers.players q spectators (hplayers ▸ hq)
  · exact hcovers.getSpectators h.linked h.listed spectators q

/-- What every run of the map keeps. -/
structure Sound (isPlayer : CreatureId → Bool) (m : Map ι) : Prop where
  placed : m.WellPlaced isPlayer
  covers : m.CacheCovers

theorem Sound.step {merge : ι → ι → ι} {a : Action ι} (h : m.Sound isPlayer)
    (hstep : Map.step isPlayer merge m a = some m') : m'.Sound isPlayer :=
  ⟨(step_cases h.placed hstep).1, h.covers.step h.placed hstep⟩

theorem sound_run {merge : ι → ι → ι} {as : List (Action ι)}
    (hrun : TibiaServer.Library.Run.run (step isPlayer merge) {} as = some m) :
    m.Sound isPlayer := by
  refine TibiaServer.Library.Run.invariant_run (fun _ _ _ h hstep => h.step hstep) as _ _ ?_ hrun
  exact ⟨wellPlaced_empty, Cleared.covers ⟨fun _ => rfl, fun _ => rfl⟩⟩

end Map

end TibiaServer.World
