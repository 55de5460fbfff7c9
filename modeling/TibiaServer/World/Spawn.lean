import Mathlib.Data.List.Induction
import Mathlib.Data.List.Nodup
import Mathlib.Data.List.Perm.Basic
import Mathlib.Order.Nat
import TibiaServer.Library.Run
/-!
# Spawns

A spawn has places, each with the id of its monster.  `checkSpawn` cleans up behind monsters
that are dead or have left the zone and fills the places that are free and due, at once or,
for a monster that is not blockable, after three more steps of `scheduleSpawn`.  A monster
that has left the zone keeps its entry with the id 0.  A check is brought to one equation
(`checkSpawn_spec`), and what holds between the steps is `WellFormed`.
-/

namespace TibiaServer.World

open Library.Run

structure SpawnBlock where
  spawnId : ℕ
  isBlockable : Bool
  interval : ℕ
  deriving DecidableEq

/-- `inZone` is `isInSpawnZone` of its position, `hasSpawn` that its pointer to the spawn is
set. -/
structure SpawnedMonster where
  isRemoved : Bool := false
  inZone : Bool := true
  hasSpawn : Bool := true
  deriving DecidableEq

/-- `monsters` is indexed by addresses, and those from `nextMonster` on are new.  `lastSpawn`
is the field of the places.  `checkSpawnEvent` says that an event of `checkSpawn` is pending,
`scheduled` has the arguments of the pending calls of `scheduleSpawn`, and `created` logs the
monsters with the ids that they were created for. -/
structure Spawn where
  spawnMap : List SpawnBlock := []
  lastSpawn : ℕ → ℕ := fun _ => 0
  spawnedMap : List (ℕ × ℕ) := []
  monsters : ℕ → SpawnedMonster := fun _ => {}
  nextMonster : ℕ := 0
  checkSpawnEvent : Bool := false
  scheduled : List (ℕ × ℕ) := []
  started : Bool := false
  created : List (ℕ × ℕ) := []

namespace Spawn

/-! ## The calls -/

def addMonster (s : Spawn) (isBlockable : Bool) (interval : ℕ) : Spawn :=
  { s with spawnMap := s.spawnMap ++ [⟨s.spawnMap.length + 1, isBlockable, interval⟩] }

/-- The spawn of any definition. -/
def load (definition : List (Bool × ℕ)) : Spawn :=
  definition.foldl (fun s (isBlockable, interval) => s.addMonster isBlockable interval) {}

/-- `placed` is the result of `placeCreature`. -/
def spawnMonster (s : Spawn) (spawnId : ℕ) (placed : Bool) (now : ℕ) : Spawn :=
  if placed then
    { s with
      spawnedMap := s.spawnedMap ++ [(spawnId, s.nextMonster)]
      nextMonster := s.nextMonster + 1
      lastSpawn := Function.update s.lastSpawn spawnId now
      created := s.created ++ [(spawnId, s.nextMonster)] }
  else s

def startup (s : Spawn) (placed : ℕ → Bool) (now : ℕ) : Spawn :=
  s.spawnMap.foldl (fun s block => s.spawnMonster block.spawnId (placed block.spawnId) now) s

def startSpawnCheck (s : Spawn) : Spawn := { s with checkSpawnEvent := true }

def NONBLOCKABLE_SPAWN_INTERVAL : ℕ := 1400

def scheduleSpawn (s : Spawn) (spawnId interval : ℕ) (placed : Bool) (now : ℕ) : Spawn :=
  if interval = 0 then s.spawnMonster spawnId placed now
  else { s with
    scheduled := s.scheduled ++ [(spawnId, interval - NONBLOCKABLE_SPAWN_INTERVAL)] }

/-- What `cleanup` makes of an entry of `spawnedMap`. -/
def cleanEntry (s : Spawn) (entry : ℕ × ℕ) : Option (ℕ × ℕ) :=
  let monster := s.monsters entry.2
  if monster.isRemoved then none
  else if !monster.inZone && entry.1 ≠ 0 then some (0, entry.2)
  else some entry

def cleanup (s : Spawn) (now : ℕ) : Spawn :=
  { s with
    spawnedMap := s.spawnedMap.filterMap s.cleanEntry
    lastSpawn := fun spawnId =>
      if spawnId ≠ 0 ∧ s.spawnedMap.any fun entry =>
          entry.1 = spawnId && (s.monsters entry.2).isRemoved then now
      else s.lastSpawn spawnId }

/-- What a check reads of the world: the time, the players near the places, where
`placeCreature` succeeds and `RATE_SPAWN`. -/
structure CheckInput where
  now : ℕ
  findPlayer : ℕ → Bool
  placed : ℕ → Bool
  rate : ℕ

/-- The place is filled, or its filling begins. -/
def attempt (input : CheckInput) (s : Spawn) (block : SpawnBlock) : Spawn :=
  if block.isBlockable then
    s.spawnMonster block.spawnId (input.placed block.spawnId) input.now
  else
    s.scheduleSpawn block.spawnId (3 * NONBLOCKABLE_SPAWN_INTERVAL)
      (input.placed block.spawnId) input.now

/-- The loop of `checkSpawn`. -/
def checkLoop (input : CheckInput) : List SpawnBlock → ℕ → Spawn → Spawn
  | [], _, s => s
  | block :: rest, spawnCount, s =>
    if block.spawnId ∈ s.spawnedMap.map Prod.fst then checkLoop input rest spawnCount s
    else if s.lastSpawn block.spawnId + block.interval ≤ input.now then
      if block.isBlockable && input.findPlayer block.spawnId then
        checkLoop input rest spawnCount
          { s with lastSpawn := Function.update s.lastSpawn block.spawnId input.now }
      else if input.rate ≤ spawnCount + 1 then s.attempt input block
      else checkLoop input rest (spawnCount + 1) (s.attempt input block)
    else checkLoop input rest spawnCount s

def checkSpawn (s : Spawn) (input : CheckInput) : Spawn :=
  let s := { s with checkSpawnEvent := false }.cleanup input.now
  let s := checkLoop input s.spawnMap 0 s
  if s.spawnedMap.length < s.spawnMap.length then s.startSpawnCheck else s

def setMonster (s : Spawn) (address : ℕ) (monster : SpawnedMonster) : Spawn :=
  { s with monsters := Function.update s.monsters address monster }

def removeMonster (s : Spawn) (monster : ℕ) : Spawn :=
  { s with spawnedMap := s.spawnedMap.eraseP fun entry => entry.2 = monster }

/-! ## The system -/

inductive Action
  | startup (placed : ℕ → Bool) (now : ℕ)
  | checkSpawn (input : CheckInput)
  | scheduleSpawn (spawnId interval : ℕ) (placed : Bool) (now : ℕ)
  /-- `handled` says that a script of the monster's type returned true. -/
  | onRemoveCreature (monster : ℕ) (handled : Bool)
  | move (monster : ℕ) (inZone : Bool)
  | convinceCreature (monster : ℕ)

/-- The monster is on the map. -/
def isAlive (s : Spawn) (monster : ℕ) : Bool :=
  monster < s.nextMonster && !(s.monsters monster).isRemoved

def step (s : Spawn) : Action → Option Spawn
  | .startup placed now =>
    if s.started then none else some { s.startup placed now with started := true }
  | .checkSpawn input => if s.checkSpawnEvent then some (s.checkSpawn input) else none
  | .scheduleSpawn spawnId interval placed now =>
    if (spawnId, interval) ∈ s.scheduled then
      some ({ s with scheduled := s.scheduled.erase (spawnId, interval) }.scheduleSpawn spawnId
        interval placed now)
    else none
  | .onRemoveCreature monster handled =>
    if s.isAlive monster then
      let s' := s.setMonster monster { s.monsters monster with isRemoved := true }
      if handled then some s'
      else if (s.monsters monster).hasSpawn then some s'.startSpawnCheck
      else some s'
    else none
  | .move monster inZone =>
    if s.isAlive monster then
      some (s.setMonster monster { s.monsters monster with inZone := inZone })
    else none
  | .convinceCreature monster =>
    if s.isAlive monster && (s.monsters monster).hasSpawn then
      some ((s.removeMonster monster).setMonster monster
        { s.monsters monster with hasSpawn := false })
    else none

/-! ## What a check fills

In terms of the state before it. -/

/-- A monster of the place is alive and in the zone. -/
def occupied (s : Spawn) (spawnId : ℕ) : Bool :=
  s.spawnedMap.any fun entry => entry.1 = spawnId && !(s.monsters entry.2).isRemoved &&
    (s.monsters entry.2).inZone

/-- The place counts as free from the time of the check on when its monster is found dead. -/
def freeSince (s : Spawn) (now spawnId : ℕ) : ℕ :=
  if s.spawnedMap.any fun entry => entry.1 = spawnId && (s.monsters entry.2).isRemoved then now
  else s.lastSpawn spawnId

/-- The place is free and due, and no player keeps its monster away. -/
def wanted (s : Spawn) (input : CheckInput) (block : SpawnBlock) : Bool :=
  !s.occupied block.spawnId && s.freeSince input.now block.spawnId + block.interval ≤ input.now &&
    !(block.isBlockable && input.findPlayer block.spawnId)

/-- The places that the check fills or begins to fill, as many as the rate allows. -/
def attempts (s : Spawn) (input : CheckInput) : List SpawnBlock :=
  (s.spawnMap.filter (s.wanted input)).take (max 1 input.rate)

/-- The places of the list that get a monster at once. -/
def refilled (input : CheckInput) (blocks : List SpawnBlock) : List ℕ :=
  (blocks.filter fun block => block.isBlockable && input.placed block.spawnId).map
    SpawnBlock.spawnId

/-- The countdowns that begin for the places of the list. -/
def countdowns (blocks : List SpawnBlock) : List (ℕ × ℕ) :=
  (blocks.filter fun block => !block.isBlockable).map fun block =>
    (block.spawnId, 2 * NONBLOCKABLE_SPAWN_INTERVAL)

theorem refilled_append (input : CheckInput) (blocks blocks' : List SpawnBlock) :
    refilled input (blocks ++ blocks') = refilled input blocks ++ refilled input blocks' := by
  unfold refilled
  rw [List.filter_append, List.map_append]

theorem countdowns_append (blocks blocks' : List SpawnBlock) :
    countdowns (blocks ++ blocks') = countdowns blocks ++ countdowns blocks' := by
  unfold countdowns
  rw [List.filter_append, List.map_append]

/-! ## New monsters -/

/-- The entries of new monsters for the ids, the first of them at `nextMonster`. -/
def newEntries (nextMonster : ℕ) (ids : List ℕ) : List (ℕ × ℕ) :=
  ids.zip (List.range' nextMonster ids.length)

theorem newEntries_append (nextMonster : ℕ) (ids ids' : List ℕ) :
    newEntries nextMonster (ids ++ ids') =
      newEntries nextMonster ids ++ newEntries (nextMonster + ids.length) ids' := by
  unfold newEntries
  rw [List.length_append, ← List.range'_append_1, List.zip_append (by simp)]

@[simp] theorem map_fst_newEntries (nextMonster : ℕ) (ids : List ℕ) :
    (newEntries nextMonster ids).map Prod.fst = ids :=
  List.map_fst_zip (by simp)

@[simp] theorem map_snd_newEntries (nextMonster : ℕ) (ids : List ℕ) :
    (newEntries nextMonster ids).map Prod.snd = List.range' nextMonster ids.length :=
  List.map_snd_zip (by simp)

@[simp] theorem length_newEntries (nextMonster : ℕ) (ids : List ℕ) :
    (newEntries nextMonster ids).length = ids.length := by
  rw [← List.length_map Prod.fst, map_fst_newEntries]

theorem of_mem_newEntries {nextMonster : ℕ} {ids : List ℕ} {entry : ℕ × ℕ}
    (h : entry ∈ newEntries nextMonster ids) :
    entry.1 ∈ ids ∧ nextMonster ≤ entry.2 ∧ entry.2 < nextMonster + ids.length := by
  have hfst : entry.1 ∈ (newEntries nextMonster ids).map Prod.fst := List.mem_map_of_mem h
  have hsnd : entry.2 ∈ (newEntries nextMonster ids).map Prod.snd := List.mem_map_of_mem h
  rw [map_fst_newEntries] at hfst
  rw [map_snd_newEntries] at hsnd
  exact ⟨hfst, List.mem_range'_1.mp hsnd⟩

/-- `t` is `s` with new monsters for `ids` and with `countdowns` begun; the times of the
places are left open. -/
structure Filled (s t : Spawn) (ids : List ℕ) (countdowns : List (ℕ × ℕ)) : Prop where
  spawnMap : t.spawnMap = s.spawnMap
  spawnedMap : t.spawnedMap = s.spawnedMap ++ newEntries s.nextMonster ids
  monsters : t.monsters = s.monsters
  nextMonster : t.nextMonster = s.nextMonster + ids.length
  checkSpawnEvent : t.checkSpawnEvent = s.checkSpawnEvent
  scheduled : t.scheduled = s.scheduled ++ countdowns
  started : t.started = s.started
  created : t.created = s.created ++ newEntries s.nextMonster ids

section Filled

variable {s t u : Spawn} {ids ids' : List ℕ} {new new' : List (ℕ × ℕ)}

theorem Filled.refl (lastSpawn : ℕ → ℕ) : Filled s { s with lastSpawn } [] [] where
  spawnMap := rfl
  spawnedMap := (List.append_nil _).symm
  monsters := rfl
  nextMonster := rfl
  checkSpawnEvent := rfl
  scheduled := (List.append_nil _).symm
  started := rfl
  created := (List.append_nil _).symm

theorem Filled.trans (h : Filled s t ids new) (h' : Filled t u ids' new') :
    Filled s u (ids ++ ids') (new ++ new') where
  spawnMap := h'.spawnMap.trans h.spawnMap
  spawnedMap := by
    rw [h'.spawnedMap, h.spawnedMap, h.nextMonster, newEntries_append, List.append_assoc]
  monsters := h'.monsters.trans h.monsters
  nextMonster := by rw [h'.nextMonster, h.nextMonster, List.length_append, Nat.add_assoc]
  checkSpawnEvent := h'.checkSpawnEvent.trans h.checkSpawnEvent
  scheduled := by rw [h'.scheduled, h.scheduled, List.append_assoc]
  started := h'.started.trans h.started
  created := by rw [h'.created, h.created, h.nextMonster, newEntries_append, List.append_assoc]

theorem filled_spawnMonster (spawnId : ℕ) (placed : Bool) (now : ℕ) :
    Filled s (s.spawnMonster spawnId placed now) (if placed then [spawnId] else []) [] := by
  unfold spawnMonster
  cases placed with
  | false => exact Filled.refl s.lastSpawn
  | true => exact ⟨rfl, rfl, rfl, rfl, rfl, (List.append_nil _).symm, rfl, rfl⟩

theorem filled_scheduleSpawn (spawnId interval : ℕ) (placed : Bool) (now : ℕ) :
    Filled s (s.scheduleSpawn spawnId interval placed now)
      (if interval = 0 ∧ placed = true then [spawnId] else [])
      (if interval = 0 then [] else [(spawnId, interval - NONBLOCKABLE_SPAWN_INTERVAL)]) := by
  unfold scheduleSpawn
  by_cases hzero : interval = 0
  · simpa [hzero] using filled_spawnMonster spawnId placed now
  · simp only [hzero, false_and, if_false]
    exact ⟨rfl, (List.append_nil _).symm, rfl, rfl, rfl, rfl, rfl, (List.append_nil _).symm⟩

theorem filled_attempt (input : CheckInput) (block : SpawnBlock) :
    Filled s (s.attempt input block) (refilled input [block]) (countdowns [block]) := by
  unfold attempt refilled countdowns
  cases hblock : block.isBlockable with
  | true =>
    have h := filled_spawnMonster (s := s) block.spawnId (input.placed block.spawnId) input.now
    cases hplaced : input.placed block.spawnId <;> simpa [hblock, hplaced] using h
  | false =>
    have h := filled_scheduleSpawn (s := s) block.spawnId (3 * NONBLOCKABLE_SPAWN_INTERVAL)
      (input.placed block.spawnId) input.now
    simpa [hblock, NONBLOCKABLE_SPAWN_INTERVAL] using h

theorem filled_startup (placed : ℕ → Bool) (now : ℕ) (blocks : List SpawnBlock) :
    ∀ s : Spawn, Filled s
      (blocks.foldl (fun s block => s.spawnMonster block.spawnId (placed block.spawnId) now) s)
      ((blocks.map SpawnBlock.spawnId).filter placed) [] := by
  induction blocks with
  | nil => exact fun s => Filled.refl s.lastSpawn
  | cons block blocks ih =>
    intro s
    rw [List.foldl_cons, List.map_cons, List.filter_cons]
    have h := (filled_spawnMonster block.spawnId (placed block.spawnId) now).trans
      (ih (s.spawnMonster block.spawnId (placed block.spawnId) now))
    cases hplaced : placed block.spawnId <;> simpa [hplaced] using h

end Filled

/-! ## The loop of a check -/

section Loop

variable (input : CheckInput)

/-- The loop does not pass over the place. -/
def attempted (s : Spawn) (block : SpawnBlock) : Bool :=
  block.spawnId ∉ s.spawnedMap.map Prod.fst &&
    s.lastSpawn block.spawnId + block.interval ≤ input.now &&
    !(block.isBlockable && input.findPlayer block.spawnId)

/-- An attempt changes nothing for the other places. -/
theorem attempted_attempt (s : Spawn) {block other : SpawnBlock}
    (hne : other.spawnId ≠ block.spawnId) :
    attempted input (s.attempt input block) other = attempted input s other := by
  have hmem : ∀ monster,
      other.spawnId ∈ (s.spawnedMap ++ [(block.spawnId, monster)]).map Prod.fst ↔
        other.spawnId ∈ s.spawnedMap.map Prod.fst := by
    intro monster
    rw [List.map_append, List.mem_append, or_iff_left]
    simpa using hne
  unfold attempt spawnMonster scheduleSpawn
  split
  · split
    · simp only [attempted, hmem, Function.update_of_ne hne]
    · rfl
  · rfl

theorem filled_checkLoop (blocks : List SpawnBlock) : ∀ (spawnCount : ℕ) (s : Spawn),
    (blocks.map SpawnBlock.spawnId).Nodup →
      Filled s (checkLoop input blocks spawnCount s)
        (refilled input ((blocks.filter (attempted input s)).take
          (max 1 (input.rate - spawnCount))))
        (countdowns ((blocks.filter (attempted input s)).take
          (max 1 (input.rate - spawnCount)))) := by
  induction blocks with
  | nil =>
    intro spawnCount s _
    simpa [checkLoop, refilled, countdowns] using Filled.refl s.lastSpawn
  | cons block rest ih =>
    intro spawnCount s hnodup
    rw [List.map_cons] at hnodup
    obtain ⟨hnew, hnodup⟩ := List.nodup_cons.mp hnodup
    have hne : ∀ other ∈ rest, other.spawnId ≠ block.spawnId := fun other hother heq =>
      hnew (heq ▸ List.mem_map_of_mem hother)
    rw [checkLoop]
    by_cases hoccupied : block.spawnId ∈ s.spawnedMap.map Prod.fst
    · have hno : ¬attempted input s block = true := by simp [attempted, hoccupied]
      rw [if_pos hoccupied, List.filter_cons_of_neg hno]
      exact ih spawnCount s hnodup
    rw [if_neg hoccupied]
    by_cases hdue : s.lastSpawn block.spawnId + block.interval ≤ input.now
    · rw [if_pos hdue]
      by_cases hnear : (block.isBlockable && input.findPlayer block.spawnId) = true
      · -- only the time of the place changes
        have hno : ¬attempted input s block = true := by simp [attempted, hnear]
        rw [if_pos hnear, List.filter_cons_of_neg hno]
        have hsame : rest.filter (attempted input
            { s with lastSpawn := Function.update s.lastSpawn block.spawnId input.now }) =
            rest.filter (attempted input s) := by
          refine List.filter_congr fun other hother => ?_
          simp only [attempted, Function.update_of_ne (hne other hother)]
        have h := ih spawnCount
          { s with lastSpawn := Function.update s.lastSpawn block.spawnId input.now } hnodup
        rw [hsame] at h
        exact (Filled.refl _).trans h
      · have hyes : attempted input s block = true := by
          simp only [attempted, hoccupied, hdue, hnear, not_false_eq_true, decide_true,
            Bool.not_false, Bool.and_self]
        rw [if_neg hnear, List.filter_cons_of_pos hyes]
        by_cases hlast : input.rate ≤ spawnCount + 1
        · rw [if_pos hlast, show max 1 (input.rate - spawnCount) = 1 by omega]
          exact filled_attempt input block
        · rw [if_neg hlast, show max 1 (input.rate - spawnCount) =
            max 1 (input.rate - (spawnCount + 1)) + 1 by omega, List.take_succ_cons]
          have hsame : rest.filter (attempted input (s.attempt input block)) =
              rest.filter (attempted input s) :=
            List.filter_congr fun other hother => attempted_attempt input s (hne other hother)
          have h := ih (spawnCount + 1) (s.attempt input block) hnodup
          rw [hsame] at h
          have happend := (filled_attempt input block (s := s)).trans h
          rwa [← refilled_append, ← countdowns_append] at happend
    · have hno : ¬attempted input s block = true := by simp [attempted, hdue]
      rw [if_neg hdue, List.filter_cons_of_neg hno]
      exact ih spawnCount s hnodup

end Loop

/-! ## What a check does -/

section Check

variable {s : Spawn} {now : ℕ}

theorem mem_cleanup {entry : ℕ × ℕ} : entry ∈ (s.cleanup now).spawnedMap ↔
    (s.monsters entry.2).isRemoved = false ∧
      ((entry ∈ s.spawnedMap ∧ ((s.monsters entry.2).inZone = true ∨ entry.1 = 0)) ∨
        (entry.1 = 0 ∧ (s.monsters entry.2).inZone = false ∧
          ∃ spawnId, spawnId ≠ 0 ∧ (spawnId, entry.2) ∈ s.spawnedMap)) := by
  obtain ⟨spawnId, monster⟩ := entry
  change (spawnId, monster) ∈ s.spawnedMap.filterMap s.cleanEntry ↔ _
  rw [List.mem_filterMap]
  constructor
  · rintro ⟨⟨spawnId', monster'⟩, hmem, heq⟩
    unfold cleanEntry at heq
    dsimp only at heq
    split at heq
    next => exact absurd heq (by simp)
    next hremoved =>
      split at heq
      next hzone =>
        obtain ⟨rfl, rfl⟩ := Prod.mk.inj (Option.some.inj heq)
        simp only [Bool.and_eq_true, Bool.not_eq_true', decide_eq_true_eq] at hzone
        exact ⟨by simpa using hremoved, .inr ⟨rfl, hzone.1, spawnId', hzone.2, hmem⟩⟩
      next hzone =>
        obtain ⟨rfl, rfl⟩ := Prod.mk.inj (Option.some.inj heq)
        refine ⟨by simpa using hremoved, .inl ⟨hmem, ?_⟩⟩
        cases hin : (s.monsters monster').inZone with
        | true => exact .inl rfl
        | false =>
          rw [hin] at hzone
          exact .inr (by simpa using hzone)
  · rintro ⟨hremoved, ⟨hmem, hzone⟩ | ⟨hzero, hzone, spawnId', hne, hmem⟩⟩
    · refine ⟨_, hmem, ?_⟩
      rcases hzone with hzone | hzone
      · simp [cleanEntry, hremoved, hzone]
      · dsimp only at hzone
        simp [cleanEntry, hremoved, hzone]
    · refine ⟨_, hmem, ?_⟩
      dsimp only at hremoved hzero hzone hne
      simp [cleanEntry, hremoved, hzone, hne, hzero]

/-- The cleanup keeps the monsters that are alive. -/
theorem map_snd_cleanup : (s.cleanup now).spawnedMap.map Prod.snd =
    (s.spawnedMap.map Prod.snd).filter fun monster => !(s.monsters monster).isRemoved := by
  change (s.spawnedMap.filterMap s.cleanEntry).map Prod.snd = _
  induction s.spawnedMap with
  | nil => rfl
  | cons entry rest ih =>
    rw [List.map_cons, List.filter_cons, List.filterMap_cons]
    cases hremoved : (s.monsters entry.2).isRemoved with
    | true =>
      have hnone : s.cleanEntry entry = none := by simp [cleanEntry, hremoved]
      simpa [hnone] using ih
    | false =>
      have hsome : ∃ spawnId, s.cleanEntry entry = some (spawnId, entry.2) := by
        unfold cleanEntry
        dsimp only
        rw [hremoved, if_neg Bool.false_ne_true]
        split
        · exact ⟨0, rfl⟩
        · exact ⟨entry.1, rfl⟩
      obtain ⟨spawnId, heq⟩ := hsome
      simpa [heq] using ih

/-- After the cleanup a place has an entry exactly when a monster of it is alive and in the
zone. -/
theorem mem_map_fst_cleanup {spawnId : ℕ} (hne : spawnId ≠ 0) :
    spawnId ∈ (s.cleanup now).spawnedMap.map Prod.fst ↔ s.occupied spawnId = true := by
  unfold occupied
  rw [List.mem_map, List.any_eq_true]
  constructor
  · rintro ⟨entry, hmem, rfl⟩
    obtain ⟨hremoved, ⟨hmem, hzone⟩ | ⟨hzero, -⟩⟩ := mem_cleanup.mp hmem
    · refine ⟨entry, hmem, ?_⟩
      simp [hremoved, hzone.resolve_right hne]
    · exact absurd hzero hne
  · rintro ⟨entry, hmem, hentry⟩
    simp only [Bool.and_eq_true, decide_eq_true_eq, Bool.not_eq_true'] at hentry
    obtain ⟨⟨rfl, hremoved⟩, hzone⟩ := hentry
    exact ⟨entry, mem_cleanup.mpr ⟨hremoved, .inl ⟨hmem, .inl hzone⟩⟩, rfl⟩

theorem attempted_cleanup (input : CheckInput) {block : SpawnBlock} (hne : block.spawnId ≠ 0) :
    attempted input ({ s with checkSpawnEvent := false }.cleanup input.now) block =
      s.wanted input block := by
  have hfree : ({ s with checkSpawnEvent := false }.cleanup input.now).lastSpawn block.spawnId =
      s.freeSince input.now block.spawnId := by
    unfold cleanup freeSince
    simp only [hne, ne_eq, not_false_eq_true, true_and]
  have hmem : block.spawnId ∈
      ({ s with checkSpawnEvent := false }.cleanup input.now).spawnedMap.map Prod.fst ↔
        s.occupied block.spawnId = true := mem_map_fst_cleanup hne
  unfold attempted wanted
  simp only [hfree, hmem, Bool.not_eq_true, Bool.decide_eq_false]

/-- A check cleans up, fills places and compares the sizes of the two maps. -/
theorem checkSpawn_spec (input : CheckInput) (hnodup : (s.spawnMap.map SpawnBlock.spawnId).Nodup)
    (hnonzero : ∀ block ∈ s.spawnMap, block.spawnId ≠ 0) :
    ∃ t, Filled ({ s with checkSpawnEvent := false }.cleanup input.now) t
        (refilled input (s.attempts input)) (countdowns (s.attempts input)) ∧
      s.checkSpawn input =
        { t with checkSpawnEvent := decide (t.spawnedMap.length < t.spawnMap.length) } := by
  have hsame : s.spawnMap.filter
      (attempted input ({ s with checkSpawnEvent := false }.cleanup input.now)) =
      s.spawnMap.filter (s.wanted input) :=
    List.filter_congr fun block hblock => attempted_cleanup input (hnonzero block hblock)
  have h := filled_checkLoop input s.spawnMap 0
    ({ s with checkSpawnEvent := false }.cleanup input.now) hnodup
  rw [hsame, Nat.sub_zero] at h
  obtain ⟨t, ht⟩ : ∃ t, checkLoop input s.spawnMap 0
      ({ s with checkSpawnEvent := false }.cleanup input.now) = t := ⟨_, rfl⟩
  rw [ht] at h
  refine ⟨t, h, ?_⟩
  have hcheck : s.checkSpawn input =
      if t.spawnedMap.length < t.spawnMap.length then t.startSpawnCheck else t := by
    rw [← ht]
    rfl
  rw [hcheck]
  by_cases hlt : t.spawnedMap.length < t.spawnMap.length
  · rw [if_pos hlt, decide_eq_true hlt]
    rfl
  · rw [if_neg hlt, decide_eq_false hlt]
    have hevent : t.checkSpawnEvent = false := h.checkSpawnEvent
    rw [← hevent]

end Check

/-! ## The steps -/

section Steps

variable {s t : Spawn}

theorem step_startup {placed : ℕ → Bool} {now : ℕ} (h : step s (.startup placed now) = some t) :
    s.started = false ∧ Filled { s with started := true } t
      ((s.spawnMap.map SpawnBlock.spawnId).filter placed) [] := by
  unfold step at h
  dsimp only at h
  split at h
  next => cases h
  next hstarted =>
    obtain rfl := Option.some.inj h
    have hf := filled_startup placed now s.spawnMap s
    exact ⟨by simpa using hstarted, hf.spawnMap, hf.spawnedMap, hf.monsters, hf.nextMonster,
      hf.checkSpawnEvent, hf.scheduled, rfl, hf.created⟩

theorem step_checkSpawn {input : CheckInput} (h : step s (.checkSpawn input) = some t) :
    s.checkSpawnEvent = true ∧ t = s.checkSpawn input := by
  unfold step at h
  dsimp only at h
  split at h
  next hevent => exact ⟨hevent, (Option.some.inj h).symm⟩
  next => cases h

theorem step_scheduleSpawn {spawnId interval now : ℕ} {placed : Bool}
    (h : step s (.scheduleSpawn spawnId interval placed now) = some t) :
    (spawnId, interval) ∈ s.scheduled ∧
      Filled { s with scheduled := s.scheduled.erase (spawnId, interval) } t
        (if interval = 0 ∧ placed = true then [spawnId] else [])
        (if interval = 0 then [] else [(spawnId, interval - NONBLOCKABLE_SPAWN_INTERVAL)]) := by
  unfold step at h
  dsimp only at h
  split at h
  next hmem =>
    obtain rfl := Option.some.inj h
    exact ⟨hmem, filled_scheduleSpawn spawnId interval placed now⟩
  next => cases h

theorem step_onRemoveCreature {monster : ℕ} {handled : Bool}
    (h : step s (.onRemoveCreature monster handled) = some t) :
    s.isAlive monster = true ∧
      t = { s.setMonster monster { s.monsters monster with isRemoved := true } with
        checkSpawnEvent := s.checkSpawnEvent || (!handled && (s.monsters monster).hasSpawn) } := by
  unfold step at h
  dsimp only at h
  split at h
  next halive =>
    refine ⟨halive, ?_⟩
    cases handled with
    | true => simpa [setMonster] using h.symm
    | false =>
      cases hspawn : (s.monsters monster).hasSpawn <;>
        simpa [setMonster, startSpawnCheck, hspawn] using h.symm
  next => cases h

theorem step_move {monster : ℕ} {inZone : Bool} (h : step s (.move monster inZone) = some t) :
    s.isAlive monster = true ∧
      t = s.setMonster monster { s.monsters monster with inZone := inZone } := by
  unfold step at h
  dsimp only at h
  split at h
  next halive => exact ⟨halive, (Option.some.inj h).symm⟩
  next => cases h

theorem step_convinceCreature {monster : ℕ} (h : step s (.convinceCreature monster) = some t) :
    s.isAlive monster = true ∧ (s.monsters monster).hasSpawn = true ∧
      t = (s.removeMonster monster).setMonster monster
        { s.monsters monster with hasSpawn := false } := by
  unfold step at h
  dsimp only at h
  split at h
  next halive =>
    obtain ⟨halive, hspawn⟩ := Bool.and_eq_true_iff.mp halive
    exact ⟨halive, hspawn, (Option.some.inj h).symm⟩
  next => cases h

end Steps

/-! ## What holds between the steps -/

/-- The places have ids of their own, every monster of `spawnedMap` is there once and belongs
to the spawn, and nothing happens before the startup. -/
structure WellFormed (s : Spawn) : Prop where
  ids : (s.spawnMap.map SpawnBlock.spawnId).Nodup
  nonzero : ∀ block ∈ s.spawnMap, block.spawnId ≠ 0
  distinct : (s.spawnedMap.map Prod.snd).Nodup
  old : ∀ entry ∈ s.spawnedMap, entry.2 < s.nextMonster
  owned : ∀ entry ∈ s.spawnedMap, (s.monsters entry.2).hasSpawn = true
  fresh : ∀ monster, s.nextMonster ≤ monster → s.monsters monster = {}
  counted : ∀ countdown ∈ s.scheduled,
    ∃ block ∈ s.spawnMap, block.isBlockable = false ∧ block.spawnId = countdown.1
  unstarted : s.started = false → s.nextMonster = 0 ∧ s.scheduled = [] ∧
    s.checkSpawnEvent = false

theorem load_eq (definition : List (Bool × ℕ)) : ∃ spawnMap : List SpawnBlock,
    load definition = { spawnMap } ∧
      spawnMap.map SpawnBlock.spawnId = List.range' 1 definition.length := by
  induction definition using List.reverseRecOn with
  | nil => exact ⟨[], rfl, rfl⟩
  | append_singleton definition last ih =>
    obtain ⟨spawnMap, heq, hids⟩ := ih
    have hlength : spawnMap.length = definition.length := by
      rw [← List.length_map SpawnBlock.spawnId, hids, List.length_range']
    have hload : load (definition ++ [last]) = (load definition).addMonster last.1 last.2 := by
      unfold load
      rw [List.foldl_append]
      rfl
    refine ⟨_, by rw [hload, heq]; rfl, ?_⟩
    simp only [List.map_append, hids, hlength, List.map_cons, List.map_nil, List.length_append,
      List.length_singleton, List.range'_1_concat, Nat.add_comm 1]

theorem wellFormed_load (definition : List (Bool × ℕ)) : (load definition).WellFormed := by
  obtain ⟨spawnMap, heq, hids⟩ := load_eq definition
  rw [heq]
  refine ⟨?_, ?_, ?_, ?_, ?_, ?_, ?_, ?_⟩
  · exact hids ▸ List.nodup_range'
  · intro block hblock hzero
    have hmem : block.spawnId ∈ spawnMap.map SpawnBlock.spawnId := List.mem_map_of_mem hblock
    rw [hids, List.mem_range'_1] at hmem
    omega
  · exact List.nodup_nil
  · exact fun _ h => nomatch h
  · exact fun _ h => nomatch h
  · exact fun _ _ => rfl
  · exact fun _ h => nomatch h
  · exact fun _ => ⟨rfl, rfl, rfl⟩

theorem mem_eraseP_snd {monster : ℕ} (entry : ℕ × ℕ) (entries : List (ℕ × ℕ))
    (hdistinct : (entries.map Prod.snd).Nodup) :
    entry ∈ entries.eraseP (fun entry => entry.2 = monster) ↔
      entry ∈ entries ∧ entry.2 ≠ monster := by
  induction entries with
  | nil => simp
  | cons first rest ih =>
    rw [List.map_cons] at hdistinct
    obtain ⟨hnot, hdistinct⟩ := List.nodup_cons.mp hdistinct
    by_cases heq : first.2 = monster
    · rw [List.eraseP_cons_of_pos (by simpa using heq)]
      constructor
      · intro hmem
        refine ⟨List.mem_cons_of_mem _ hmem, fun heq' => hnot ?_⟩
        rw [heq, ← heq']
        exact List.mem_map_of_mem hmem
      · rintro ⟨hmem, hne⟩
        exact (List.mem_cons.mp hmem).resolve_left fun heq' => hne (heq' ▸ heq)
    · rw [List.eraseP_cons_of_neg (by simpa using heq), List.mem_cons, List.mem_cons,
        ih hdistinct]
      constructor
      · rintro (rfl | ⟨hmem, hne⟩)
        · exact ⟨.inl rfl, heq⟩
        · exact ⟨.inr hmem, hne⟩
      · rintro ⟨rfl | hmem, hne⟩
        · exact .inl rfl
        · exact .inr ⟨hmem, hne⟩

section WellFormed

variable {s t : Spawn}

theorem WellFormed.started_of_isAlive (h : s.WellFormed) {monster : ℕ}
    (halive : s.isAlive monster = true) : s.started = true := by
  cases hstarted : s.started with
  | true => rfl
  | false =>
    have hzero := (h.unstarted hstarted).1
    simp [isAlive, hzero] at halive

theorem WellFormed.filled (h : s.WellFormed) {ids : List ℕ} {new : List (ℕ × ℕ)}
    (hf : Filled s t ids new) (hstarted : s.started = true)
    (hnew : ∀ countdown ∈ new,
      ∃ block ∈ s.spawnMap, block.isBlockable = false ∧ block.spawnId = countdown.1) :
    t.WellFormed where
  ids := hf.spawnMap ▸ h.ids
  nonzero := hf.spawnMap ▸ h.nonzero
  distinct := by
    rw [hf.spawnedMap, List.map_append, map_snd_newEntries]
    refine List.nodup_append'.mpr ⟨h.distinct, List.nodup_range', ?_⟩
    intro monster hmem hmem'
    obtain ⟨entry, hentry, rfl⟩ := List.mem_map.mp hmem
    have hlt := h.old entry hentry
    have hle := (List.mem_range'_1.mp hmem').1
    omega
  old entry hmem := by
    rw [hf.spawnedMap, List.mem_append] at hmem
    rw [hf.nextMonster]
    rcases hmem with hmem | hmem
    · exact (h.old entry hmem).trans_le (Nat.le_add_right _ _)
    · exact (of_mem_newEntries hmem).2.2
  owned entry hmem := by
    rw [hf.spawnedMap, List.mem_append] at hmem
    rw [hf.monsters]
    rcases hmem with hmem | hmem
    · exact h.owned entry hmem
    · rw [h.fresh entry.2 (of_mem_newEntries hmem).2.1]
  fresh monster hle := by
    rw [hf.nextMonster] at hle
    rw [hf.monsters]
    exact h.fresh monster ((Nat.le_add_right _ _).trans hle)
  counted countdown hmem := by
    rw [hf.scheduled, List.mem_append] at hmem
    rw [hf.spawnMap]
    rcases hmem with hmem | hmem
    · exact h.counted countdown hmem
    · exact hnew countdown hmem
  unstarted hno := by
    rw [hf.started, hstarted] at hno
    cases hno

/-- A monster that is alive changes; it belongs to the spawn unless it has no entry. -/
theorem WellFormed.setMonster (h : s.WellFormed) {address : ℕ} (hlt : address < s.nextMonster)
    {monster : SpawnedMonster}
    (howned : ∀ entry ∈ s.spawnedMap, entry.2 = address → monster.hasSpawn = true) :
    (s.setMonster address monster).WellFormed where
  ids := h.ids
  nonzero := h.nonzero
  distinct := h.distinct
  old := h.old
  owned entry hmem := by
    unfold Spawn.setMonster
    dsimp only
    by_cases heq : entry.2 = address
    · rw [heq, Function.update_self]
      exact howned entry hmem heq
    · rw [Function.update_of_ne heq]
      exact h.owned entry hmem
  fresh other hle := by
    have hne : other ≠ address := fun heq => absurd hlt (by rw [← heq]; exact Nat.not_lt.mpr hle)
    unfold Spawn.setMonster
    dsimp only
    rw [Function.update_of_ne hne]
    exact h.fresh other hle
  counted := h.counted
  unstarted := h.unstarted

theorem WellFormed.removeMonster (h : s.WellFormed) (monster : ℕ) :
    (s.removeMonster monster).WellFormed where
  ids := h.ids
  nonzero := h.nonzero
  distinct := h.distinct.sublist ((List.eraseP_sublist).map Prod.snd)
  old entry hmem := h.old entry (List.mem_of_mem_eraseP hmem)
  owned entry hmem := h.owned entry (List.mem_of_mem_eraseP hmem)
  fresh := h.fresh
  counted := h.counted
  unstarted := h.unstarted

/-- The monster that is taken out has no entry any more. -/
theorem WellFormed.mem_removeMonster (h : s.WellFormed) {monster : ℕ} {entry : ℕ × ℕ} :
    entry ∈ (s.removeMonster monster).spawnedMap ↔
      entry ∈ s.spawnedMap ∧ entry.2 ≠ monster :=
  mem_eraseP_snd entry s.spawnedMap h.distinct

theorem WellFormed.cleanup (h : s.WellFormed) (hstarted : s.started = true) (now : ℕ) :
    ({ s with checkSpawnEvent := false }.cleanup now).WellFormed where
  ids := h.ids
  nonzero := h.nonzero
  distinct := by
    rw [map_snd_cleanup]
    exact h.distinct.filter _
  old entry hmem := by
    have hmem' : entry.2 ∈ _ := List.mem_map_of_mem (f := Prod.snd) hmem
    rw [map_snd_cleanup] at hmem'
    obtain ⟨old, hold, heq⟩ := List.mem_map.mp (List.mem_of_mem_filter hmem')
    exact heq ▸ h.old old hold
  owned entry hmem := by
    have hmem' : entry.2 ∈ _ := List.mem_map_of_mem (f := Prod.snd) hmem
    rw [map_snd_cleanup] at hmem'
    obtain ⟨old, hold, heq⟩ := List.mem_map.mp (List.mem_of_mem_filter hmem')
    exact heq ▸ h.owned old hold
  fresh := h.fresh
  counted := h.counted
  unstarted hno := by
    have hno : s.started = false := hno
    rw [hstarted] at hno
    cases hno

theorem attempts_sublist (s : Spawn) (input : CheckInput) :
    (s.attempts input).Sublist s.spawnMap :=
  (List.take_sublist _ _).trans List.filter_sublist

theorem wellFormed_step (h : s.WellFormed) {a : Action} (hstep : step s a = some t) :
    t.WellFormed := by
  cases a with
  | startup placed now =>
    obtain ⟨-, hf⟩ := step_startup hstep
    have hstart : ({ s with started := true } : Spawn).WellFormed :=
      ⟨h.ids, h.nonzero, h.distinct, h.old, h.owned, h.fresh, h.counted, fun hno => nomatch hno⟩
    exact hstart.filled hf rfl fun _ hmem => nomatch hmem
  | checkSpawn input =>
    obtain ⟨hevent, rfl⟩ := step_checkSpawn hstep
    have hstarted : s.started = true := by
      by_contra hno
      rw [(h.unstarted (by simpa using hno)).2.2] at hevent
      cases hevent
    obtain ⟨u, hf, heq⟩ := checkSpawn_spec input h.ids h.nonzero
    have hu : u.WellFormed := by
      refine (h.cleanup hstarted input.now).filled hf hstarted fun countdown hmem => ?_
      obtain ⟨block, hblock, rfl⟩ := List.mem_map.mp hmem
      obtain ⟨hblock, hkind⟩ := List.mem_filter.mp hblock
      exact ⟨block, (attempts_sublist s input).mem hblock, by simpa using hkind, rfl⟩
    rw [heq]
    refine ⟨hu.ids, hu.nonzero, hu.distinct, hu.old, hu.owned, hu.fresh, hu.counted, ?_⟩
    intro hno
    have hno' : u.started = false := hno
    rw [hf.started] at hno'
    exact absurd hno' (by simp [Spawn.cleanup, hstarted])
  | scheduleSpawn spawnId interval placed now =>
    obtain ⟨hmem, hf⟩ := step_scheduleSpawn hstep
    have hstarted : s.started = true := by
      by_contra hno
      rw [(h.unstarted (by simpa using hno)).2.1] at hmem
      cases hmem
    have hbase : ({ s with scheduled := s.scheduled.erase (spawnId, interval) } :
        Spawn).WellFormed :=
      ⟨h.ids, h.nonzero, h.distinct, h.old, h.owned, h.fresh,
        fun countdown hcountdown => h.counted countdown (List.mem_of_mem_erase hcountdown),
        fun hno => absurd hno (by simp [hstarted])⟩
    refine hbase.filled hf hstarted fun countdown hcountdown => ?_
    split at hcountdown
    next => cases hcountdown
    next =>
      obtain rfl := List.mem_singleton.mp hcountdown
      exact h.counted (spawnId, interval) hmem
  | onRemoveCreature monster handled =>
    obtain ⟨halive, rfl⟩ := step_onRemoveCreature hstep
    have hlt : monster < s.nextMonster := by
      simp only [isAlive, Bool.and_eq_true, decide_eq_true_eq] at halive
      exact halive.1
    have hset : (s.setMonster monster
        { s.monsters monster with isRemoved := true }).WellFormed :=
      h.setMonster hlt fun entry hmem heq => heq ▸ h.owned entry hmem
    refine ⟨hset.ids, hset.nonzero, hset.distinct, hset.old, hset.owned, hset.fresh,
      hset.counted, fun hno => ?_⟩
    change s.started = false at hno
    rw [h.started_of_isAlive halive] at hno
    cases hno
  | move monster inZone =>
    obtain ⟨halive, rfl⟩ := step_move hstep
    have hlt : monster < s.nextMonster := by
      simp only [isAlive, Bool.and_eq_true, decide_eq_true_eq] at halive
      exact halive.1
    exact h.setMonster hlt fun entry hmem heq => heq ▸ h.owned entry hmem
  | convinceCreature monster =>
    obtain ⟨halive, -, rfl⟩ := step_convinceCreature hstep
    have hlt : monster < s.nextMonster := by
      simp only [isAlive, Bool.and_eq_true, decide_eq_true_eq] at halive
      exact halive.1
    refine (h.removeMonster monster).setMonster hlt fun entry hmem heq => ?_
    exact absurd heq (h.mem_removeMonster.mp hmem).2

end WellFormed

end Spawn

end TibiaServer.World
