import TibiaServer.World.SpectatorsFound
/-!
# Monsters and the creatures they see

The lists of a monster, its idle flag, and the calls that reach it when creatures
appear, move and leave.  Scripts are left out, and so is everything a monster
does about its targets: `selectTarget` reads the list and never changes it.
-/

namespace TibiaServer.World

open SpectatorQuery (around)

/-- The monster `self` among the creatures, with what no event changes: who they are,
whose summon they are, and the place in the world that it belongs to. -/
structure Monster where
  self : CreatureId
  isPlayer : CreatureId → Bool
  isMonster : CreatureId → Bool
  /-- `hasFlag(PlayerFlag_IgnoredByMonsters)` -/
  ignoredByMonsters : CreatureId → Bool
  getMaster : CreatureId → Option CreatureId
  isPartner : CreatureId → CreatureId → Bool
  spawn : Bool
  masterPos : Position
  despawnRadius : ℤ
  despawnRange : ℤ
  self_not_player : isPlayer self = false

/-- `conditionsEmpty` is `conditions.empty()` of the monster. -/
structure MonsterState (ι : Type) where
  map : Map ι
  health : CreatureId → ℤ
  conditionsEmpty : Bool
  targetList : List CreatureId := []
  friendList : Finset CreatureId := ∅
  isIdle : Bool := true

/-- `Spawns::isInZone` -/
def isInZone (centerPos : Position) (radius : ℤ) (pos : Position) : Bool :=
  if radius = -1 then true
  else
    pos.getX ≥ centerPos.getX - radius && pos.getX ≤ centerPos.getX + radius &&
      pos.getY ≥ centerPos.getY - radius && pos.getY ≤ centerPos.getY + radius

namespace MonsterState

variable {ι : Type} (s : MonsterState ι)

def addFriend (c : CreatureId) : MonsterState ι :=
  { s with friendList := insert c s.friendList }

def removeFriend (c : CreatureId) : MonsterState ι :=
  { s with friendList := s.friendList.erase c }

def addTarget (c : CreatureId) (pushFront : Bool) : MonsterState ι :=
  if c ∈ s.targetList then s
  else if pushFront then { s with targetList := c :: s.targetList }
  else { s with targetList := s.targetList ++ [c] }

def removeTarget (c : CreatureId) : MonsterState ι :=
  { s with targetList := s.targetList.erase c }

end MonsterState

namespace Monster

variable {ι : Type} (m : Monster) (s : MonsterState ι)

def isSummon (c : CreatureId) : Bool := (m.getMaster c).isSome

/-- `getMaster()->getPlayer()` of a summon. -/
def masterPlayer : Option CreatureId := (m.getMaster m.self).filter m.isPlayer

/-- `tmpPlayer` of `isFriend`. -/
def tmpPlayer (c : CreatureId) : Option CreatureId :=
  if m.isPlayer c then some c else (m.getMaster c).filter m.isPlayer

def isFriend (c : CreatureId) : Bool :=
  match m.masterPlayer with
  | some masterPlayer =>
    (m.tmpPlayer c).any fun tmpPlayer =>
      tmpPlayer == masterPlayer || m.isPartner masterPlayer tmpPlayer
  | none => m.isMonster c && !m.isSummon c

def isOpponent (c : CreatureId) : Bool :=
  match m.masterPlayer with
  | some masterPlayer => c != masterPlayer
  | none =>
    m.isPlayer c && !m.ignoredByMonsters c || ((m.getMaster c).filter m.isPlayer).isSome

def getPosition : Position := s.map.getPosition m.self

def canSee (pos : Position) : Bool := World.canSee (m.getPosition s) pos 10 10

def isInSpawnRange (pos : Position) : Bool :=
  if !m.spawn then true
  else if m.despawnRadius = 0 then true
  else if !isInZone m.masterPos m.despawnRadius pos then false
  else if m.despawnRange = 0 then true
  else if Position.getDistanceZ pos m.masterPos > m.despawnRange then false
  else true

/-- `onIdleStatus` clears the damage map, which is not part of the state here. -/
def setIdle (idle : Bool) : MonsterState ι :=
  if (s.map.creatures m.self).isRemoved ∨ s.health m.self ≤ 0 then s
  else if idle then { s with isIdle := true, targetList := [], friendList := ∅ }
  else { s with isIdle := false }

def updateIdleStatus : MonsterState ι :=
  m.setIdle s (s.conditionsEmpty && (!m.isSummon m.self && s.targetList.isEmpty))

def onCreatureFound (c : CreatureId) (pushFront : Bool) : MonsterState ι :=
  let s := if m.isFriend c then s.addFriend c else s
  let s := if m.isOpponent c then s.addTarget c pushFront else s
  m.updateIdleStatus s

def onCreatureEnter (c : CreatureId) : MonsterState ι := m.onCreatureFound s c true

def onCreatureLeave (c : CreatureId) : MonsterState ι :=
  let s := if m.isFriend c then s.removeFriend c else s
  if m.isOpponent c then
    let s := s.removeTarget c
    if s.targetList.isEmpty then m.updateIdleStatus s else s
  else s

/-- The test of the two loops of `updateTargetList` that erase. -/
def keeps (c : CreatureId) : Bool :=
  !(s.health c ≤ 0 || !m.canSee s (s.map.getPosition c))

/-- The body of its last loop. -/
def findSpectator (s : MonsterState ι) (spectator : CreatureId) : MonsterState ι :=
  if m.canSee s (s.map.getPosition spectator) then m.onCreatureFound s spectator false else s

/-- `order` is the order in which the set of the spectators is walked. -/
def updateTargetList (order : List CreatureId) : Option (MonsterState ι) :=
  let friendList := s.friendList.filter fun c => m.keeps s c
  let targetList := s.targetList.filter (m.keeps s)
  let (spectators, map) := s.map.getSpectators m.isPlayer ∅ (around (m.getPosition s))
  if order.Nodup ∧ order.toFinset = spectators.erase m.self then
    some (order.foldl m.findSpectator
      { s with map := map, friendList := friendList, targetList := targetList })
  else none

def onCreatureAppear (c : CreatureId) (order : List CreatureId) : Option (MonsterState ι) :=
  if c = m.self then (m.updateTargetList s order).map m.updateIdleStatus
  else some (m.onCreatureEnter s c)

def onRemoveCreature (c : CreatureId) : MonsterState ι :=
  if c = m.self then m.setIdle s true else m.onCreatureLeave s c

def onCreatureMove (c : CreatureId) (newPos oldPos : Position) (order : List CreatureId) :
    Option (MonsterState ι) :=
  if c = m.self then (m.updateTargetList s order).map m.updateIdleStatus
  else
    let canSeeNewPos := m.canSee s newPos
    let canSeeOldPos := m.canSee s oldPos
    let s :=
      if canSeeNewPos && !canSeeOldPos then m.onCreatureEnter s c
      else if !canSeeNewPos && canSeeOldPos then m.onCreatureLeave s c
      else s
    some (m.updateIdleStatus s)

def onFollowCreatureComplete (c : CreatureId) (hasFollowPath : Bool) : MonsterState ι :=
  if c ∈ s.targetList then
    let targetList := s.targetList.erase c
    if hasFollowPath then { s with targetList := c :: targetList }
    else if !m.isSummon m.self then { s with targetList := targetList ++ [c] }
    else { s with targetList := targetList }
  else s

/-- `Game::placeCreature`, as far as the monster hears of it. -/
def placeCreature (tiles : TileAnswers) (relList : List (ℤ × ℤ)) (pos : Position)
    (c : CreatureId) (extendedPos forced : Bool) (order : List CreatureId) :
    Option (MonsterState ι) := do
  let (map, placed) ← s.map.placeCreature m.isPlayer tiles relList pos c extendedPos forced
  if placed then
    let (spectators, map) := map.getSpectators m.isPlayer ∅ (around (map.getPosition c))
    let s := { s with map := map }
    if m.self ∈ spectators then m.onCreatureAppear s c order else some s
  else some { s with map := map }

/-- `Map::moveCreature`, as far as the monster hears of it. -/
def moveCreature (c : CreatureId) (newPos : Position) (order : List CreatureId) :
    Option (MonsterState ι) := do
  let oldPos ← (s.map.creatures c).tile
  let (map, spectators) ← s.map.moveCreature m.isPlayer c newPos
  let s := { s with map := map }
  if m.self ∈ spectators then m.onCreatureMove s c newPos oldPos order else some s

/-- `Game::removeCreature`, as far as the monster hears of it. -/
def removeCreature (c : CreatureId) : Option (MonsterState ι) := do
  let spectators := (s.map.getSpectators m.isPlayer ∅ (around (s.map.getPosition c))).1
  let (map, removed) ← s.map.removeCreature m.isPlayer c
  let s := { s with map := map }
  if removed ∧ m.self ∈ spectators then some (m.onRemoveCreature s c) else some s

/-- `Game::internalTeleport` of the monster; `ret` is what the tile there answers to
`queryAdd`. -/
def internalTeleport (newPos : Position) (ret : ReturnValue) (order : List CreatureId) :
    Option (MonsterState ι) :=
  if newPos = m.getPosition s then some s
  else if (s.map.creatures m.self).isRemoved then some s
  else if (s.map.getTile newPos).isSome ∧ ret = .NOERROR then m.moveCreature s m.self newPos order
  else some s

/-- What follows the idle status is made of the other calls. -/
def onThink (ret : ReturnValue) (order : List CreatureId) : Option (MonsterState ι) :=
  if !m.isInSpawnRange (m.getPosition s) then
    (m.internalTeleport s m.masterPos ret order).map fun s => m.setIdle s true
  else some (m.updateIdleStatus s)

/-- `onAddCondition` and `onEndCondition`. -/
def onCondition (conditionsEmpty : Bool) : MonsterState ι :=
  m.updateIdleStatus { s with conditionsEmpty := conditionsEmpty }

/-- `changeHealth` of any creature.  Only the living are hurt or healed, and the
monster itself lives through the run. -/
def changeHealth (c : CreatureId) (health : ℤ) : Option (MonsterState ι) :=
  if c = m.self then
    if 0 < health then
      let s := m.setIdle s false
      some { s with health := Function.update s.health c health }
    else none
  else if 0 < s.health c then
    some { s with health := Function.update s.health c health }
  else none

/-! ## The lists -/

section Lists

variable {m s}

@[simp] theorem setIdle_map (idle : Bool) : (m.setIdle s idle).map = s.map := by
  unfold setIdle
  split_ifs <;> rfl

@[simp] theorem setIdle_health (idle : Bool) : (m.setIdle s idle).health = s.health := by
  unfold setIdle
  split_ifs <;> rfl

@[simp] theorem updateIdleStatus_map : (m.updateIdleStatus s).map = s.map := setIdle_map _

@[simp] theorem updateIdleStatus_health : (m.updateIdleStatus s).health = s.health :=
  setIdle_health _

/-- The monster turns idle only when it has no target to lose. -/
@[simp] theorem updateIdleStatus_targetList :
    (m.updateIdleStatus s).targetList = s.targetList := by
  unfold updateIdleStatus setIdle
  split_ifs with hdead hidle
  · rfl
  · simp only [Bool.and_eq_true, List.isEmpty_iff] at hidle
    exact hidle.2.2.symm
  · rfl

/-- A living monster with a target is awake. -/
theorem isIdle_updateIdleStatus (hself : (s.map.creatures m.self).isRemoved = false)
    (halive : 0 < s.health m.self) (htarget : s.targetList ≠ []) :
    (m.updateIdleStatus s).isIdle = false := by
  have hdead : ¬((s.map.creatures m.self).isRemoved = true ∨ s.health m.self ≤ 0) := by
    rw [hself]
    simpa using halive
  have hidle : ¬(s.conditionsEmpty && (!m.isSummon m.self && s.targetList.isEmpty)) = true := by
    simp [htarget]
  unfold updateIdleStatus setIdle
  rw [if_neg hdead, if_neg hidle]

theorem setIdle_true_of_alive (hself : (s.map.creatures m.self).isRemoved = false)
    (halive : 0 < s.health m.self) :
    m.setIdle s true = { s with isIdle := true, targetList := [], friendList := ∅ } := by
  have hdead : ¬((s.map.creatures m.self).isRemoved = true ∨ s.health m.self ≤ 0) := by
    rw [hself]
    simpa using halive
  unfold setIdle
  rw [if_neg hdead, if_pos rfl]

theorem mem_addTarget (c d : CreatureId) (pushFront : Bool) :
    d ∈ (s.addTarget c pushFront).targetList ↔ d ∈ s.targetList ∨ d = c := by
  unfold MonsterState.addTarget
  split_ifs with hc hfront
  · exact ⟨.inl, fun h => h.elim id fun h => h ▸ hc⟩
  · rw [List.mem_cons, or_comm]
  · rw [List.mem_append, List.mem_singleton]

theorem nodup_addTarget (h : s.targetList.Nodup) (c : CreatureId) (pushFront : Bool) :
    (s.addTarget c pushFront).targetList.Nodup := by
  unfold MonsterState.addTarget
  split_ifs with hc hfront
  · exact h
  · exact h.cons hc
  · exact List.concat_eq_append ▸ h.concat hc

/-- A call that touches the lists and the idle flag of the monster, and nothing else. -/
structure OnLists (s s' : MonsterState ι) : Prop where
  map_eq : s'.map = s.map
  health_eq : s'.health = s.health

theorem OnLists.refl (s : MonsterState ι) : OnLists s s := ⟨rfl, rfl⟩

theorem OnLists.trans {s s' s'' : MonsterState ι} (h : OnLists s s') (h' : OnLists s' s'') :
    OnLists s s'' :=
  ⟨h'.map_eq.trans h.map_eq, h'.health_eq.trans h.health_eq⟩

theorem onLists_updateIdleStatus : OnLists s (m.updateIdleStatus s) :=
  ⟨updateIdleStatus_map, updateIdleStatus_health⟩

theorem onLists_addTarget (c : CreatureId) (pushFront : Bool) :
    OnLists s (s.addTarget c pushFront) := by
  unfold MonsterState.addTarget
  split_ifs <;> exact ⟨rfl, rfl⟩

/-- A creature that is found becomes a target if it is an opponent. -/
theorem onCreatureFound_spec (s : MonsterState ι) (c : CreatureId) (pushFront : Bool) :
    OnLists s (m.onCreatureFound s c pushFront) ∧
      (s.targetList.Nodup → (m.onCreatureFound s c pushFront).targetList.Nodup) ∧
      ∀ d, d ∈ (m.onCreatureFound s c pushFront).targetList ↔
        d ∈ s.targetList ∨ (d = c ∧ m.isOpponent c = true) := by
  set s₁ : MonsterState ι := if m.isFriend c then s.addFriend c else s with hs₁
  have hon : OnLists s s₁ := by
    rw [hs₁]
    split_ifs
    · exact ⟨rfl, rfl⟩
    · exact .refl s
  have hlist : s₁.targetList = s.targetList := by
    rw [hs₁]
    split_ifs <;> rfl
  have heq : m.onCreatureFound s c pushFront =
      m.updateIdleStatus (if m.isOpponent c then s₁.addTarget c pushFront else s₁) := rfl
  rw [heq, updateIdleStatus_targetList]
  by_cases hopp : m.isOpponent c = true
  · rw [if_pos hopp]
    refine ⟨hon.trans ((onLists_addTarget c pushFront).trans onLists_updateIdleStatus), ?_, ?_⟩
    · intro h
      exact nodup_addTarget (hlist ▸ h) c pushFront
    · intro d
      rw [mem_addTarget, hlist]
      simp [hopp]
  · rw [if_neg hopp, hlist]
    refine ⟨hon.trans onLists_updateIdleStatus, id, fun d => ?_⟩
    simp [hopp]

/-- Nobody else leaves the list with the creature that leaves. -/
theorem onCreatureLeave_spec (s : MonsterState ι) (c : CreatureId) :
    OnLists s (m.onCreatureLeave s c) ∧
      (s.targetList.Nodup → (m.onCreatureLeave s c).targetList.Nodup) ∧
      ∀ d, d ≠ c → (d ∈ (m.onCreatureLeave s c).targetList ↔ d ∈ s.targetList) := by
  set s₁ : MonsterState ι := if m.isFriend c then s.removeFriend c else s with hs₁
  have hon : OnLists s s₁ := by
    rw [hs₁]
    split_ifs
    · exact ⟨rfl, rfl⟩
    · exact .refl s
  have hlist : s₁.targetList = s.targetList := by
    rw [hs₁]
    split_ifs <;> rfl
  have heq : m.onCreatureLeave s c =
      if m.isOpponent c then
        if (s₁.removeTarget c).targetList.isEmpty then m.updateIdleStatus (s₁.removeTarget c)
        else s₁.removeTarget c
      else s₁ := rfl
  have herase : (s₁.removeTarget c).targetList = s.targetList.erase c := by
    rw [MonsterState.removeTarget, hlist]
  rw [heq]
  by_cases hopp : m.isOpponent c = true
  · have hon₁ : OnLists s (s₁.removeTarget c) := hon.trans ⟨rfl, rfl⟩
    have hresult : ∀ s₂ : MonsterState ι, OnLists s s₂ → s₂.targetList = s.targetList.erase c →
        OnLists s s₂ ∧ (s.targetList.Nodup → s₂.targetList.Nodup) ∧
          ∀ d, d ≠ c → (d ∈ s₂.targetList ↔ d ∈ s.targetList) := by
      intro s₂ hon₂ hlist₂
      rw [hlist₂]
      exact ⟨hon₂, fun h => h.erase c, fun d hd => List.mem_erase_of_ne hd⟩
    rw [if_pos hopp]
    split_ifs
    · exact hresult _ (hon₁.trans onLists_updateIdleStatus)
        (updateIdleStatus_targetList.trans herase)
    · exact hresult _ hon₁ herase
  · rw [if_neg hopp, hlist]
    exact ⟨hon, id, fun d _ => Iff.rfl⟩

theorem findSpectator_spec (s : MonsterState ι) (c : CreatureId) :
    OnLists s (m.findSpectator s c) ∧
      (s.targetList.Nodup → (m.findSpectator s c).targetList.Nodup) ∧
      ∀ d, d ∈ (m.findSpectator s c).targetList ↔ d ∈ s.targetList ∨
        (d = c ∧ m.isOpponent c = true ∧ m.canSee s (s.map.getPosition c) = true) := by
  obtain ⟨hon, hnodup, hmem⟩ := onCreatureFound_spec (m := m) s c false
  unfold findSpectator
  split_ifs with hsee
  · refine ⟨hon, hnodup, fun d => ?_⟩
    rw [hmem]
    simp [hsee]
  · refine ⟨.refl s, id, fun d => ?_⟩
    simp [hsee]

theorem OnLists.canSee_eq {s s' : MonsterState ι} (h : OnLists s s') (p : Position) :
    m.canSee s' p = m.canSee s p := by
  unfold canSee getPosition
  rw [h.map_eq]

/-- The loop over the spectators adds the opponents in view. -/
theorem foldl_findSpectator (order : List CreatureId) :
    ∀ s : MonsterState ι, OnLists s (order.foldl m.findSpectator s) ∧
      (s.targetList.Nodup → (order.foldl m.findSpectator s).targetList.Nodup) ∧
      ∀ d, d ∈ (order.foldl m.findSpectator s).targetList ↔ d ∈ s.targetList ∨
        (d ∈ order ∧ m.isOpponent d = true ∧ m.canSee s (s.map.getPosition d) = true) := by
  induction order with
  | nil => exact fun s => ⟨.refl s, id, fun d => by simp⟩
  | cons c order ih =>
    intro s
    obtain ⟨hon, hnodup, hmem⟩ := findSpectator_spec (m := m) s c
    obtain ⟨hon', hnodup', hmem'⟩ := ih (m.findSpectator s c)
    rw [List.foldl_cons]
    refine ⟨hon.trans hon', fun h => hnodup' (hnodup h), fun d => ?_⟩
    rw [hmem', hmem, hon.canSee_eq, hon.map_eq, List.mem_cons]
    constructor
    · rintro ((h | ⟨rfl, h⟩) | ⟨h, h'⟩)
      · exact .inl h
      · exact .inr ⟨.inl rfl, h⟩
      · exact .inr ⟨.inr h, h'⟩
    · rintro (h | ⟨rfl | h, h'⟩)
      · exact .inl (.inl h)
      · exact .inl (.inr ⟨rfl, h'⟩)
      · exact .inr ⟨h, h'⟩

/-- The targets may change their order. -/
theorem onFollowCreatureComplete_perm (hwild : m.getMaster m.self = none) (c : CreatureId)
    (hasFollowPath : Bool) :
    (m.onFollowCreatureComplete s c hasFollowPath).targetList.Perm s.targetList := by
  have hsummon : m.isSummon m.self = false := by simp [isSummon, hwild]
  unfold onFollowCreatureComplete
  split_ifs with hc hpath hlone
  · exact (List.perm_cons_erase hc).symm
  · exact (List.perm_append_singleton c _).trans (List.perm_cons_erase hc).symm
  · simp [hsummon] at hlone
  · exact .refl _

end Lists

end Monster

end TibiaServer.World
