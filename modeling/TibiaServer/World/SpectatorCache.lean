import Mathlib.Data.Finset.Union
import TibiaServer.World.Spectators
/-!
# The spectator cache

`getSpectators` answers a search over the viewport on all floors from one of two
caches, keyed by the centre.  What it stores is the caller's set after the
search, so a cache stays exact as long as every set that is stored held nothing
but what the search finds (`exact_getSpectators_iff`).
-/

namespace TibiaServer.World

open QTreeNode (block)

/-- The arguments of `getSpectators` after the caller's set. -/
structure SpectatorQuery where
  centerPos : Position
  multifloor : Bool := false
  onlyPlayers : Bool := false
  minRangeX : ℤ := 0
  maxRangeX : ℤ := 0
  minRangeY : ℤ := 0
  maxRangeY : ℤ := 0

namespace SpectatorQuery

/-- `minRangeZ` and `maxRangeZ`. -/
def floors (q : SpectatorQuery) : ℤ × ℤ :=
  if q.multifloor then
    if q.centerPos.z > 7 then
      (max (q.centerPos.getZ - 2) 0, min (q.centerPos.getZ + 2) (MAP_MAX_LAYERS - 1))
    else if q.centerPos.z = 6 then (0, 8)
    else if q.centerPos.z = 7 then (0, 9)
    else (0, 7)
  else (q.centerPos.getZ, q.centerPos.getZ)

/-- The arguments with which `getSpectatorsInternal` is called. -/
def range (q : SpectatorQuery) : SearchRange where
  minRangeX := if q.minRangeX = 0 then -maxViewportX else -q.minRangeX
  maxRangeX := if q.maxRangeX = 0 then maxViewportX else q.maxRangeX
  minRangeY := if q.minRangeY = 0 then -maxViewportY else -q.minRangeY
  maxRangeY := if q.maxRangeY = 0 then maxViewportY else q.maxRangeY
  minRangeZ := q.floors.1
  maxRangeZ := q.floors.2

def usesCache (q : SpectatorQuery) : Prop :=
  q.range.minRangeX = -maxViewportX ∧ q.range.maxRangeX = maxViewportX ∧
    q.range.minRangeY = -maxViewportY ∧ q.range.maxRangeY = maxViewportY ∧
    q.multifloor = true

instance (q : SpectatorQuery) : Decidable q.usesCache :=
  inferInstanceAs (Decidable (_ ∧ _ ∧ _ ∧ _ ∧ _))

/-- The search that the caches stand for. -/
def viewport (centerPos : Position) (onlyPlayers : Bool) : SpectatorQuery where
  centerPos := centerPos
  multifloor := true
  onlyPlayers := onlyPlayers

theorem range_of_usesCache {q : SpectatorQuery} (h : q.usesCache) :
    q.range = (viewport q.centerPos q.onlyPlayers).range := by
  obtain ⟨hx1, hx2, hy1, hy2, hfloor⟩ := h
  have hfloors : q.floors = (viewport q.centerPos q.onlyPlayers).floors := by
    unfold floors
    rw [if_pos hfloor]
    rfl
  have hview : (viewport q.centerPos q.onlyPlayers).range =
      ⟨-maxViewportX, maxViewportX, -maxViewportY, maxViewportY,
        q.floors.1, q.floors.2⟩ := by
    rw [hfloors]
    rfl
  rw [hview, ← hx1, ← hx2, ← hy1, ← hy2]
  rfl

end SpectatorQuery

namespace Map

variable {ι : Type} (isPlayer : CreatureId → Bool) (m : Map ι)

def clearSpectatorCache : Map ι :=
  { m with spectatorCache := fun _ => none, playersSpectatorCache := fun _ => none }

/-- The lookups in the two caches.  With an empty set of the caller the source
assigns the cached set instead of inserting it, which is the same union. -/
def findCached (spectators : Finset CreatureId) (q : SpectatorQuery) :
    Option (Finset CreatureId) :=
  match if q.onlyPlayers then m.playersSpectatorCache q.centerPos else none with
  | some cachedSpectators => some (spectators ∪ cachedSpectators)
  | none =>
    (m.spectatorCache q.centerPos).map fun cachedSpectators =>
      if q.onlyPlayers then spectators ∪ cachedSpectators.filter fun c => isPlayer c
      else spectators ∪ cachedSpectators

def storeCached (spectators : Finset CreatureId) (q : SpectatorQuery) : Map ι :=
  if q.onlyPlayers then
    { m with playersSpectatorCache :=
        Function.update m.playersSpectatorCache q.centerPos (some spectators) }
  else
    { m with spectatorCache := Function.update m.spectatorCache q.centerPos (some spectators) }

def getSpectators (spectators : Finset CreatureId) (q : SpectatorQuery) :
    Finset CreatureId × Map ι :=
  if q.centerPos.z.toNat ≥ MAP_MAX_LAYERS then (spectators, m)
  else
    match if q.usesCache then m.findCached isPlayer spectators q else none with
    | some spectators => (spectators, m)
    | none =>
      let spectators := m.getSpectatorsInternal spectators q.centerPos q.range q.onlyPlayers
      (spectators, if q.usesCache then m.storeCached spectators q else m)

/-- What the search finds now, without the caches. -/
def uncached (q : SpectatorQuery) : Finset CreatureId :=
  if q.centerPos.z.toNat ≥ MAP_MAX_LAYERS then ∅
  else m.getSpectatorsInternal ∅ q.centerPos q.range q.onlyPlayers

/-- Every call would return the caller's set and what the search finds now. -/
def Transparent : Prop :=
  ∀ spectators q, (m.getSpectators isPlayer spectators q).1 = spectators ∪ m.uncached q

/-- Every cached set is what the search finds now. -/
structure CacheExact : Prop where
  all : ∀ p spectators, p.z.toNat < MAP_MAX_LAYERS → m.spectatorCache p = some spectators →
    spectators = m.uncached (.viewport p false)
  players : ∀ p spectators, p.z.toNat < MAP_MAX_LAYERS →
    m.playersSpectatorCache p = some spectators → spectators = m.uncached (.viewport p true)

/-- The call will keep the set that it returns: a viewport search that is in
neither of the caches it reads. -/
def Stores (q : SpectatorQuery) : Prop :=
  q.centerPos.z.toNat < MAP_MAX_LAYERS ∧ q.usesCache ∧
    m.spectatorCache q.centerPos = none ∧
    (q.onlyPlayers = true → m.playersSpectatorCache q.centerPos = none)

theorem uncached_viewport {q : SpectatorQuery} (hq : q.usesCache) :
    m.uncached q = m.uncached (.viewport q.centerPos q.onlyPlayers) := by
  unfold uncached
  rw [SpectatorQuery.range_of_usesCache hq]
  rfl

theorem findCached_eq_none_iff (spectators : Finset CreatureId) (q : SpectatorQuery) :
    m.findCached isPlayer spectators q = none ↔
      m.spectatorCache q.centerPos = none ∧
        (q.onlyPlayers = true → m.playersSpectatorCache q.centerPos = none) := by
  unfold findCached
  cases honly : q.onlyPlayers with
  | false => simp
  | true => cases hplayers : m.playersSpectatorCache q.centerPos <;> simp

theorem getSpectators_of_stores {q : SpectatorQuery} (hstores : m.Stores q)
    (spectators : Finset CreatureId) :
    (m.getSpectators isPlayer spectators q).2 = m.storeCached
      (m.getSpectatorsInternal spectators q.centerPos q.range q.onlyPlayers) q := by
  obtain ⟨hz, hq, hcaches⟩ := hstores
  have hnone := (m.findCached_eq_none_iff isPlayer spectators q).mpr hcaches
  rw [getSpectators, if_neg (by omega), if_pos hq, hnone]
  exact if_pos hq

theorem getSpectators_of_not_stores {q : SpectatorQuery} (hstores : ¬ m.Stores q)
    (spectators : Finset CreatureId) :
    (m.getSpectators isPlayer spectators q).2 = m := by
  unfold getSpectators
  split
  next => rfl
  next hz =>
    by_cases hq : q.usesCache
    · rw [if_pos hq]
      cases hfound : m.findCached isPlayer spectators q with
      | some cached => rfl
      | none =>
        have hcaches := (m.findCached_eq_none_iff isPlayer spectators q).mp hfound
        exact absurd ⟨by omega, hq, hcaches⟩ hstores
    · rw [if_neg hq]
      exact if_neg hq

theorem uncached_storeCached (spectators : Finset CreatureId) (q q' : SpectatorQuery) :
    (m.storeCached spectators q).uncached q' = m.uncached q' := by
  unfold storeCached
  split <;> rfl

section Exact

variable {isPlayer m}

theorem mem_uncached (h : m.Linked) (hlist : m.Listed isPlayer) (q : SpectatorQuery)
    (c : CreatureId) :
    c ∈ m.uncached q ↔ q.centerPos.z.toNat < MAP_MAX_LAYERS ∧
      (m.Placed c ∧ (q.onlyPlayers = true → isPlayer c = true)) ∧
        q.range.Covers q.centerPos (m.getPosition c) := by
  unfold uncached
  split
  next hz =>
    have hz' : ¬ q.centerPos.z.toNat < MAP_MAX_LAYERS := by omega
    simp [hz']
  next hz =>
    have hz' : q.centerPos.z.toNat < MAP_MAX_LAYERS := by omega
    rw [mem_getSpectatorsInternal h hlist]
    simp [hz']

/-- The search depends on the creatures only, not on how the tree is laid out. -/
theorem uncached_congr {m' : Map ι} (h : m.Linked) (hlist : m.Listed isPlayer)
    (h' : m'.Linked) (hlist' : m'.Listed isPlayer)
    (hcreatures : m'.creatures = m.creatures) (q : SpectatorQuery) :
    m'.uncached q = m.uncached q := by
  ext c
  rw [mem_uncached h hlist, mem_uncached h' hlist']
  simp only [Placed, getPosition, hcreatures]

variable (h : m.Linked) (hlist : m.Listed isPlayer)

include h hlist

theorem getSpectatorsInternal_eq_union (spectators : Finset CreatureId) (q : SpectatorQuery)
    (hz : q.centerPos.z.toNat < MAP_MAX_LAYERS) :
    m.getSpectatorsInternal spectators q.centerPos q.range q.onlyPlayers =
      spectators ∪ m.uncached q := by
  ext c
  rw [Finset.mem_union, mem_getSpectatorsInternal h hlist, mem_uncached h hlist]
  tauto

theorem filter_uncached (p : Position) :
    (m.uncached (.viewport p false)).filter (fun c => isPlayer c = true) =
      m.uncached (.viewport p true) := by
  have hrange : (SpectatorQuery.viewport p false).range =
      (SpectatorQuery.viewport p true).range := rfl
  ext c
  rw [Finset.mem_filter, mem_uncached h hlist, mem_uncached h hlist, hrange]
  simp only [SpectatorQuery.viewport]
  tauto

/-- With exact caches a lookup gives the union, or it finds nothing in the
caches that it reads. -/
theorem findCached_of_exact (hexact : m.CacheExact) {q : SpectatorQuery}
    (hz : q.centerPos.z.toNat < MAP_MAX_LAYERS) (hq : q.usesCache)
    (spectators : Finset CreatureId) :
    m.findCached isPlayer spectators q = some (spectators ∪ m.uncached q) ∨
      (m.findCached isPlayer spectators q = none ∧ m.Stores q) := by
  have hview := uncached_viewport m hq
  unfold findCached
  cases honly : q.onlyPlayers with
  | false =>
    rw [honly] at hview
    cases hall : m.spectatorCache q.centerPos with
    | none =>
      refine .inr ⟨by simp, hz, hq, hall, ?_⟩
      simp [honly]
    | some cached =>
      refine .inl ?_
      simp [hview, hexact.all _ _ hz hall]
  | true =>
    rw [honly] at hview
    cases hplayers : m.playersSpectatorCache q.centerPos with
    | some cached =>
      refine .inl ?_
      simp [hview, hexact.players _ _ hz hplayers]
    | none =>
      cases hall : m.spectatorCache q.centerPos with
      | none => exact .inr ⟨by simp, hz, hq, hall, fun _ => hplayers⟩
      | some cached =>
        refine .inl ?_
        simp [hview, ← filter_uncached h hlist, ← hexact.all _ _ hz hall]

theorem transparent_of_exact (hexact : m.CacheExact) : m.Transparent isPlayer := by
  intro spectators q
  unfold getSpectators
  split
  next hz => rw [uncached, if_pos hz, Finset.union_empty]
  next hz =>
    have hz : q.centerPos.z.toNat < MAP_MAX_LAYERS := by omega
    by_cases hq : q.usesCache
    · rw [if_pos hq]
      rcases findCached_of_exact h hlist hexact hz hq spectators with hsome | ⟨hnone, -⟩
      · rw [hsome]
      · rw [hnone]
        exact getSpectatorsInternal_eq_union h hlist spectators q hz
    · rw [if_neg hq]
      exact getSpectatorsInternal_eq_union h hlist spectators q hz

omit h hlist in
theorem exact_of_transparent (htrans : m.Transparent isPlayer) : m.CacheExact := by
  have hcall : ∀ p onlyPlayers spectators, p.z.toNat < MAP_MAX_LAYERS →
      m.findCached isPlayer ∅ (.viewport p onlyPlayers) = some spectators →
      spectators = m.uncached (.viewport p onlyPlayers) := by
    intro p onlyPlayers spectators hz hfound
    have h := htrans ∅ (.viewport p onlyPlayers)
    have hq : (SpectatorQuery.viewport p onlyPlayers).usesCache := ⟨rfl, rfl, rfl, rfl, rfl⟩
    have hz' : ¬ (SpectatorQuery.viewport p onlyPlayers).centerPos.z.toNat ≥ MAP_MAX_LAYERS := by
      exact Nat.not_le.mpr hz
    rw [getSpectators, if_neg hz', if_pos hq, hfound, Finset.empty_union] at h
    exact h
  constructor
  · intro p spectators hz hcache
    refine hcall p false spectators hz ?_
    simp [findCached, SpectatorQuery.viewport, hcache]
  · intro p spectators hz hcache
    refine hcall p true spectators hz ?_
    simp [findCached, SpectatorQuery.viewport, hcache]

omit h hlist in
/-- A stored set keeps the caches exact when it is what the search finds. -/
theorem exact_storeCached_iff (hexact : m.CacheExact) {q : SpectatorQuery}
    (hz : q.centerPos.z.toNat < MAP_MAX_LAYERS) (hq : q.usesCache)
    (stored : Finset CreatureId) :
    (m.storeCached stored q).CacheExact ↔ stored = m.uncached q := by
  rw [uncached_viewport m hq]
  cases honly : q.onlyPlayers with
  | true =>
    have hplayers : (m.storeCached stored q).playersSpectatorCache =
        Function.update m.playersSpectatorCache q.centerPos (some stored) := by
      simp [storeCached, honly]
    have hall : (m.storeCached stored q).spectatorCache = m.spectatorCache := by
      simp [storeCached, honly]
    constructor
    · intro h
      have hstored := h.players q.centerPos stored hz (by simp [hplayers])
      rwa [uncached_storeCached] at hstored
    · intro hstored
      refine ⟨fun p s hp hs => ?_, fun p s hp hs => ?_⟩
      · rw [uncached_storeCached]
        exact hexact.all p s hp (hall ▸ hs)
      · rw [uncached_storeCached]
        by_cases hpq : p = q.centerPos
        · subst hpq
          rw [hplayers, Function.update_self] at hs
          rw [← Option.some.inj hs]
          exact hstored
        · rw [hplayers, Function.update_of_ne hpq] at hs
          exact hexact.players p s hp hs
  | false =>
    have hplayers : (m.storeCached stored q).playersSpectatorCache =
        m.playersSpectatorCache := by
      simp [storeCached, honly]
    have hall : (m.storeCached stored q).spectatorCache =
        Function.update m.spectatorCache q.centerPos (some stored) := by
      simp [storeCached, honly]
    constructor
    · intro h
      have hstored := h.all q.centerPos stored hz (by simp [hall])
      rwa [uncached_storeCached] at hstored
    · intro hstored
      refine ⟨fun p s hp hs => ?_, fun p s hp hs => ?_⟩
      · rw [uncached_storeCached]
        by_cases hpq : p = q.centerPos
        · subst hpq
          rw [hall, Function.update_self] at hs
          rw [← Option.some.inj hs]
          exact hstored
        · rw [hall, Function.update_of_ne hpq] at hs
          exact hexact.all p s hp hs
      · rw [uncached_storeCached]
        exact hexact.players p s hp (hplayers ▸ hs)

/-- A call keeps the caches exact unless it stores a set with members that the
caller brought and the search does not find. -/
theorem exact_getSpectators_iff (hexact : m.CacheExact) (spectators : Finset CreatureId)
    (q : SpectatorQuery) :
    (m.getSpectators isPlayer spectators q).2.CacheExact ↔
      (m.Stores q → spectators ⊆ m.uncached q) := by
  by_cases hstores : m.Stores q
  · rw [getSpectators_of_stores isPlayer m hstores,
      exact_storeCached_iff hexact hstores.1 hstores.2.1,
      getSpectatorsInternal_eq_union h hlist spectators q hstores.1, Finset.union_eq_right]
    exact ⟨fun h _ => h, fun h => h hstores⟩
  · rw [getSpectators_of_not_stores isPlayer m hstores]
    exact iff_of_true hexact fun h => absurd h hstores

end Exact

end Map

end TibiaServer.World
