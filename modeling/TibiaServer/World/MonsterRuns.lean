import TibiaServer.World.MonsterTargets
/-!
# A monster over a run

The monster is placed, and then anything may happen around it, in any order.  It
overlooks a visible opponent exactly after an `onThink` that carried it home to
where one is in view (`always_neverOverlooks_iff`).
-/

namespace TibiaServer.World.Monster

open SpectatorQuery (around)
open TibiaServer.Library.Run (run Always EachStep always_iff_of_breaks)

variable {ι : Type} (m : Monster)

inductive Action (ι : Type)
  | setTile (p : Position) (newTile : ι)
  | getSpectators (spectators : Finset CreatureId) (q : SpectatorQuery)
  | clearSpectatorCache
  | placeCreature (tiles : TileAnswers) (relList : List (ℤ × ℤ)) (pos : Position)
      (c : CreatureId) (extendedPos forced : Bool) (order : List CreatureId)
  | moveCreature (c : CreatureId) (newPos : Position) (order : List CreatureId)
  | removeCreature (c : CreatureId)
  | onThink (ret : ReturnValue) (order : List CreatureId)
  | onFollowCreatureComplete (c : CreatureId) (hasFollowPath : Bool)
  | onCondition (conditionsEmpty : Bool)
  | changeHealth (c : CreatureId) (health : ℤ)

/-- The run ends where the monster itself is removed. -/
def step (merge : ι → ι → ι) (s : MonsterState ι) : Action ι → Option (MonsterState ι)
  | .setTile p newTile => (s.map.setTile merge p newTile).map fun map => { s with map := map }
  | .getSpectators spectators q =>
    some { s with map := (s.map.getSpectators m.isPlayer spectators q).2 }
  | .clearSpectatorCache => some { s with map := s.map.clearSpectatorCache }
  | .placeCreature tiles relList pos c extendedPos forced order =>
    m.placeCreature s tiles relList pos c extendedPos forced order
  | .moveCreature c newPos order => m.moveCreature s c newPos order
  | .removeCreature c => if c = m.self then none else m.removeCreature s c
  | .onThink ret order => m.onThink s ret order
  | .onFollowCreatureComplete c hasFollowPath =>
    some (m.onFollowCreatureComplete s c hasFollowPath)
  | .onCondition conditionsEmpty => some (m.onCondition s conditionsEmpty)
  | .changeHealth c health => m.changeHealth s c health

/-- The square on which `onThink` leaves a monster that has strayed. -/
def teleportPlace (s : MonsterState ι) (ret : ReturnValue) : Position :=
  if (s.map.getTile m.masterPos).isSome ∧ ret = .NOERROR then m.masterPos else m.getPosition s

/-- A monster that thinks is near its spawn, or no living opponent is in view from the
square to which it is carried. -/
def ReturnsUnseen (s : MonsterState ι) : Action ι → Prop
  | .onThink ret _ =>
    m.isInSpawnRange (m.getPosition s) = false →
      ∀ c, c ≠ m.self → s.map.Placed c → 0 < s.health c → m.isOpponent c = true →
        World.canSee (m.teleportPlace s ret) (s.map.getPosition c) 10 10 = false
  | _ => True

/-- The first states: `Game::placeCreature` has placed the monster, or the spawn did at
startup, when nobody is there who could be told or seen. -/
inductive Begins (map : Map ι) : MonsterState ι → Prop
  | placed {health : CreatureId → ℤ} {conditionsEmpty : Bool} {tiles : TileAnswers}
      {relList : List (ℤ × ℤ)} {pos : Position} {extendedPos forced : Bool}
      {order : List CreatureId} {s : MonsterState ι}
      (hplace : m.placeCreature
        { map := map, health := health, conditionsEmpty := conditionsEmpty } tiles relList pos
        m.self extendedPos forced order = some s)
      (hplaced : s.map.Placed m.self) (halive : 0 < health m.self) : Begins map s
  | startup {health : CreatureId → ℤ} {conditionsEmpty : Bool} {tiles : TileAnswers}
      {relList : List (ℤ × ℤ)} {pos : Position} {extendedPos forced : Bool} {map' : Map ι}
      (hplace : map.placeCreature m.isPlayer tiles relList pos m.self extendedPos forced =
        some (map', true))
      (hnobody : ∀ c, map.Placed c → m.isOpponent c = false) (halive : 0 < health m.self) :
      Begins map { map := map', health := health, conditionsEmpty := conditionsEmpty }

variable {m} {s s' : MonsterState ι}

/-- A newly placed creature stands on the map. -/
theorem placed_of_update {map map' : Map ι} {c : CreatureId} {p : Position}
    (h : map.Sound m.isPlayer) (hnew : (map.creatures c).tile = none)
    (hcreatures : map'.creatures =
      Function.update map.creatures c { map.creatures c with tile := some p }) :
    map'.Placed c := by
  rw [Map.Placed, hcreatures, Function.update_self]
  exact ⟨rfl, h.placed.unplaced c hnew⟩

theorem Begins.watches (hwild : m.getMaster m.self = none) {map : Map ι}
    (hsound : map.Sound m.isPlayer) (hnew : (map.creatures m.self).tile = none)
    (h : m.Begins map s) : m.Watches s := by
  cases h with
  | @placed health conditionsEmpty tiles relList pos extendedPos forced order _ hplace hplaced
      halive =>
      simp only [Monster.placeCreature, Option.bind_eq_bind, Option.bind_eq_some_iff] at hplace
      obtain ⟨⟨map', placed⟩, hmap, hplace⟩ := hplace
      cases placed with
      | false =>
        rw [if_neg (by simp)] at hplace
        obtain rfl := Option.some.inj hplace
        obtain rfl := Map.placeCreature_false hmap
        have hsome := hplaced.1
        rw [hnew] at hsome
        cases hsome
      | true =>
        obtain ⟨hsound', -, p, hcreatures⟩ := Map.placeCreature_spec hsound hmap
        have hplaced' : map'.Placed m.self := placed_of_update hsound hnew hcreatures
        have htold : m.self ∈ (map'.getSpectators m.isPlayer ∅
            (around (map'.getPosition m.self))).1 :=
          Map.mem_getSpectators hsound'.placed hsound'.covers hplaced'
            (hsound'.floor_lt hplaced') (covers_self (hsound'.floor_lt hplaced')) ∅
        rw [if_pos rfl, if_pos htold] at hplace
        refine watches_onCreatureAppear hwild ⟨hsound'.getSpectators _ _, ?_, halive⟩
          List.nodup_nil hplace
        rw [Map.Placed, Map.getSpectators_creatures]
        exact hplaced'
  | @startup health conditionsEmpty tiles relList pos extendedPos forced map' hplace hnobody
      halive =>
      obtain ⟨hsound', -, p, hcreatures⟩ := Map.placeCreature_spec hsound hplace
      have hplaced' : map'.Placed m.self := placed_of_update hsound hnew hcreatures
      refine ⟨⟨⟨hsound', hplaced', halive⟩, List.nodup_nil, fun c hc => ?_⟩, fun h => absurd rfl h⟩
      -- nobody but the monster came to the map, and it is no opponent
      obtain ⟨hplaced, -, hopponent, -⟩ := hc
      by_cases hself : c = m.self
      · rw [hself, isOpponent_self hwild] at hopponent
        cases hopponent
      · have hbefore : map.Placed c := by
          rw [Map.Placed, hcreatures, Function.update_of_ne hself] at hplaced
          exact hplaced
        rw [hnobody c hbefore] at hopponent
        cases hopponent

/-- Where the creatures are the same, so are the duties of the monster. -/
theorem Watches.of_creatures_eq (h : m.Watches s) {map : Map ι}
    (hsound : map.Sound m.isPlayer) (hcreatures : map.creatures = s.map.creatures) :
    m.Watches { s with map := map } := by
  refine ⟨⟨⟨hsound, ?_, h.alive⟩, h.nodup, fun c hc => ?_⟩, h.awake⟩
  · rw [Map.Placed, hcreatures]
    exact h.placed
  · have hsame : m.Visible { s with map := map } c ↔ m.Visible s c := by
      apply visible_congr
      · exact hcreatures
      · rfl
    exact h.listed c (hsame.mp hc)

theorem Watches.onFollowCreatureComplete (hwild : m.getMaster m.self = none) (h : m.Watches s)
    (c : CreatureId) (hasFollowPath : Bool) :
    m.Watches (m.onFollowCreatureComplete s c hasFollowPath) := by
  have hperm := onFollowCreatureComplete_perm (s := s) hwild c hasFollowPath
  have hrest : (m.onFollowCreatureComplete s c hasFollowPath).map = s.map ∧
      (m.onFollowCreatureComplete s c hasFollowPath).health = s.health ∧
      (m.onFollowCreatureComplete s c hasFollowPath).isIdle = s.isIdle := by
    unfold Monster.onFollowCreatureComplete
    split_ifs <;> exact ⟨rfl, rfl, rfl⟩
  obtain ⟨hmap, hhealth, hidle⟩ := hrest
  have hon : OnLists s (m.onFollowCreatureComplete s c hasFollowPath) := ⟨hmap, hhealth⟩
  refine ⟨⟨hon.present h.toPresent, hperm.nodup_iff.mpr h.nodup, fun d hd => ?_⟩, fun hne => ?_⟩
  · exact hperm.mem_iff.mpr (h.listed d ((hon.visible_iff d).mp hd))
  · rw [hidle]
    refine h.awake fun hnil => hne ?_
    rw [hnil] at hperm
    exact hperm.eq_nil

theorem Watches.onCondition (h : m.Watches s) (conditionsEmpty : Bool) :
    m.Watches (m.onCondition s conditionsEmpty) := by
  apply Tracks.updateIdleStatus
  exact ⟨⟨h.sound, h.placed, h.alive⟩, h.nodup, h.listed⟩

/-- Nobody becomes visible by what happens to his health. -/
theorem Watches.changeHealth (hwild : m.getMaster m.self = none) (h : m.Watches s)
    {c : CreatureId} {health : ℤ} (hchange : m.changeHealth s c health = some s') :
    m.Watches s' := by
  have hdead : ¬((s.map.creatures m.self).isRemoved = true ∨ s.health m.self ≤ 0) := by
    have halive := h.alive
    rw [h.placed.2]
    rintro (hremoved | hle)
    · cases hremoved
    · omega
  unfold Monster.changeHealth at hchange
  split_ifs at hchange with hself hpos halive
  · obtain rfl := Option.some.inj hchange
    subst hself
    have hidle : m.setIdle s false = { s with isIdle := false } := by
      unfold setIdle
      rw [if_neg hdead, if_neg Bool.false_ne_true]
    rw [hidle]
    refine ⟨⟨⟨h.sound, h.placed, ?_⟩, h.nodup, fun d hd => ?_⟩, fun _ => rfl⟩
    · change 0 < Function.update s.health m.self health m.self
      rw [Function.update_self]
      exact hpos
    · obtain ⟨hplaced, hlives, hopponent, hsee⟩ := hd
      have hne : d ≠ m.self := by
        rintro rfl
        rw [isOpponent_self hwild] at hopponent
        cases hopponent
      change 0 < Function.update s.health m.self health d at hlives
      rw [Function.update_of_ne hne] at hlives
      exact h.listed d ⟨hplaced, hlives, hopponent, hsee⟩
  · obtain rfl := Option.some.inj hchange
    refine ⟨⟨⟨h.sound, h.placed, ?_⟩, h.nodup, fun d hd => ?_⟩, h.awake⟩
    · change 0 < Function.update s.health c health m.self
      rw [Function.update_of_ne (Ne.symm hself)]
      exact h.alive
    · obtain ⟨hplaced, hlives, hopponent, hsee⟩ := hd
      change 0 < Function.update s.health c health d at hlives
      refine h.listed d ⟨hplaced, ?_, hopponent, hsee⟩
      by_cases hd : d = c
      · exact hd ▸ halive
      · rwa [Function.update_of_ne hd] at hlives

/-! ## The way home -/

/-- The monster is carried home or stays; nobody else moves. -/
theorem internalTeleport_spec (hwild : m.getMaster m.self = none) (h : m.Watches s)
    {ret : ReturnValue} {order : List CreatureId}
    (hteleport : m.internalTeleport s m.masterPos ret order = some s') :
    m.Watches s' ∧ s'.health = s.health ∧ m.getPosition s' = m.teleportPlace s ret ∧
      ∀ c, c ≠ m.self → s'.map.creatures c = s.map.creatures c := by
  unfold internalTeleport at hteleport
  split_ifs at hteleport with hhere hremoved hmoves
  · obtain rfl := Option.some.inj hteleport
    refine ⟨h, rfl, ?_, fun _ _ => rfl⟩
    rw [teleportPlace, hhere, ite_self]
  · rw [h.placed.2] at hremoved
    cases hremoved
  · obtain ⟨hwatches, hhealth, hcreatures⟩ := h.moveSelf hwild hteleport
    refine ⟨hwatches, hhealth, ?_, fun c hc => ?_⟩
    · rw [teleportPlace, if_pos hmoves, getPosition, Map.getPosition, hcreatures,
        Function.update_self]
      rfl
    · rw [hcreatures, Function.update_of_ne hc]
  · obtain rfl := Option.some.inj hteleport
    refine ⟨h, rfl, ?_, fun _ _ => rfl⟩
    rw [teleportPlace, if_neg hmoves]

/-- At home the monster is put to sleep with empty lists. -/
theorem onThink_cases (hwild : m.getMaster m.self = none) (h : m.Watches s)
    {ret : ReturnValue} {order : List CreatureId} (hthink : m.onThink s ret order = some s') :
    (m.isInSpawnRange (m.getPosition s) = true ∧ s' = m.updateIdleStatus s) ∨
      (m.isInSpawnRange (m.getPosition s) = false ∧ m.Present s' ∧ s'.targetList = [] ∧
        s'.isIdle = true ∧
        ∀ c, c ≠ m.self → (m.Visible s' c ↔ s.map.Placed c ∧ 0 < s.health c ∧
          m.isOpponent c = true ∧
          World.canSee (m.teleportPlace s ret) (s.map.getPosition c) 10 10 = true)) := by
  unfold onThink at hthink
  cases hrange : m.isInSpawnRange (m.getPosition s) with
  | true =>
    rw [hrange, if_neg (by simp)] at hthink
    exact .inl ⟨rfl, (Option.some.inj hthink).symm⟩
  | false =>
    rw [hrange, if_pos (by simp)] at hthink
    obtain ⟨s₁, hteleport, rfl⟩ := Option.map_eq_some_iff.mp hthink
    obtain ⟨hwatches, hhealth, hposition, hothers⟩ := internalTeleport_spec hwild h hteleport
    rw [setIdle_true_of_alive hwatches.placed.2 hwatches.alive]
    refine .inr ⟨rfl, ⟨hwatches.sound, hwatches.placed, hwatches.alive⟩, rfl, rfl, ?_⟩
    intro c hc
    unfold Visible canSee
    change s₁.map.Placed c ∧ 0 < s₁.health c ∧ m.isOpponent c = true ∧
      World.canSee (m.getPosition s₁) (s₁.map.getPosition c) 10 10 = true ↔ _
    rw [hposition, hhealth, Map.Placed, Map.Placed, Map.getPosition, Map.getPosition,
      hothers c hc]

theorem Watches.onThink (hwild : m.getMaster m.self = none) (h : m.Watches s)
    {ret : ReturnValue} {order : List CreatureId}
    (hunseen : m.ReturnsUnseen s (.onThink ret order))
    (hthink : m.onThink s ret order = some s') : m.Watches s' := by
  rcases onThink_cases hwild h hthink with ⟨-, rfl⟩ | ⟨hrange, hpresent, hnil, -, hvisible⟩
  · exact h.toTracks.updateIdleStatus
  · refine ⟨⟨hpresent, hnil ▸ List.nodup_nil, fun c hc => ?_⟩, fun hne => absurd hnil hne⟩
    have hne : c ≠ m.self := by
      rintro rfl
      have hopponent := hc.2.2.1
      rw [isOpponent_self hwild] at hopponent
      cases hopponent
    obtain ⟨hplaced, hlives, hopponent, hsee⟩ := (hvisible c hne).mp hc
    rw [hunseen hrange c hne hplaced hlives hopponent] at hsee
    cases hsee

/-- Every other step keeps the watch. -/
theorem Watches.step (hwild : m.getMaster m.self = none) {merge : ι → ι → ι} {a : Action ι}
    (h : m.Watches s) (hunseen : m.ReturnsUnseen s a) (hstep : m.step merge s a = some s') :
    m.Watches s' := by
  cases a with
  | setTile p newTile =>
    obtain ⟨map, hset, rfl⟩ := Option.map_eq_some_iff.mp hstep
    have hmap : Map.step m.isPlayer merge s.map (.setTile p newTile) = some map := hset
    obtain ⟨map₁, hset₁, -, -, -, hcreatures, -, -⟩ :=
      Map.setTile_spec h.sound.placed.linked merge p newTile
    obtain rfl : map₁ = map := Option.some.inj (hset₁.symm.trans hset)
    exact h.of_creatures_eq (h.sound.step hmap) hcreatures
  | getSpectators spectators q =>
    obtain rfl := Option.some.inj hstep
    exact h.of_creatures_eq (h.sound.getSpectators spectators q)
      (Map.getSpectators_creatures spectators q)
  | clearSpectatorCache =>
    obtain rfl := Option.some.inj hstep
    have hmap : Map.step m.isPlayer merge s.map .clearSpectatorCache =
        some s.map.clearSpectatorCache := rfl
    exact h.of_creatures_eq (h.sound.step hmap) rfl
  | placeCreature tiles relList pos c extendedPos forced order => exact h.placeCreature hstep
  | moveCreature c newPos order =>
    by_cases hself : m.self = c
    · subst hself
      exact (h.moveSelf hwild hstep).1
    · exact h.moveOther hself hstep
  | removeCreature c =>
    have hremove : (if c = m.self then none else m.removeCreature s c) = some s' := hstep
    split_ifs at hremove with hself
    exact h.removeCreature (Ne.symm hself) hremove
  | onThink ret order => exact h.onThink hwild hunseen hstep
  | onFollowCreatureComplete c hasFollowPath =>
    obtain rfl := Option.some.inj hstep
    exact h.onFollowCreatureComplete hwild c hasFollowPath
  | onCondition conditionsEmpty =>
    obtain rfl := Option.some.inj hstep
    exact h.onCondition conditionsEmpty
  | changeHealth c health => exact h.changeHealth hwild hstep

/-- Who is in view of the monster that was carried home is overlooked. -/
theorem not_neverOverlooks_of_seen (hwild : m.getMaster m.self = none) {merge : ι → ι → ι}
    {a : Action ι} (h : m.Watches s) (hseen : ¬m.ReturnsUnseen s a)
    (hstep : m.step merge s a = some s') : ¬m.NeverOverlooks s' := by
  cases a with
  | onThink ret order =>
    rcases onThink_cases hwild h hstep with ⟨hin, -⟩ | ⟨-, -, -, hidle, hvisible⟩
    · refine absurd (fun hout => ?_) hseen
      rw [hin] at hout
      cases hout
    · intro hnever
      refine hseen fun _ c hne hplaced hlives hopponent => ?_
      by_contra hsee
      rw [Bool.not_eq_false] at hsee
      have hawake := (hnever c ((hvisible c hne).mpr ⟨hplaced, hlives, hopponent, hsee⟩)).2
      rw [hidle] at hawake
      cases hawake
  | setTile | getSpectators | clearSpectatorCache | placeCreature | moveCreature |
    removeCreature | onFollowCreatureComplete | onCondition | changeHealth =>
      exact absurd trivial hseen

/-- From its placing on, a monster that is no summon has every living opponent in view
exactly once among its targets, and is awake while there is one, exactly when it is never
carried home into the view of an opponent. -/
theorem always_neverOverlooks_iff (m : Monster) (hwild : m.getMaster m.self = none)
    (merge : ι → ι → ι) {before : List (Map.Action ι)} {map : Map ι}
    (hmap : run (Map.step m.isPlayer merge) {} before = some map)
    (hnew : (map.creatures m.self).tile = none) {s : MonsterState ι} (hbegins : m.Begins map s)
    (as : List (Action ι)) :
    Always (m.step merge) m.NeverOverlooks s as ↔
      EachStep (m.step merge) m.ReturnsUnseen s as := by
  refine always_iff_of_breaks (I := m.Watches) (fun s h => h.neverOverlooks)
    (fun s a t h hunseen hstep => h.step hwild hunseen hstep)
    (fun s a t h hseen hstep => not_neverOverlooks_of_seen hwild h hseen hstep) as s ?_
  exact hbegins.watches hwild (Map.sound_run hmap) hnew

/-- Creature 0, spawned at (100, 100, 7), among players. -/
def strayer : Monster where
  self := 0
  isPlayer := fun c => c != 0
  isMonster := fun c => c == 0
  ignoredByMonsters := fun _ => false
  getMaster := fun _ => none
  isPartner := fun _ _ => false
  spawn := true
  masterPos := ⟨100, 100, 7⟩
  despawnRadius := 50
  despawnRange := 2
  self_not_player := rfl

def openTiles : TileAnswers := ⟨fun _ _ => .NOERROR, fun _ => false, id, fun _ _ => true⟩

/-- The spawn and a square near it, and two squares sixty away. -/
def fourTiles : Option (Map Unit) :=
  run (Map.step strayer.isPlayer fun tile _ => tile) {}
    [.setTile ⟨100, 100, 7⟩ (), .setTile ⟨103, 100, 7⟩ (), .setTile ⟨160, 100, 7⟩ (),
      .setTile ⟨162, 100, 7⟩ ()]

/-- The monster at its spawn, alone. -/
def strayerAtHome : Option (MonsterState Unit) :=
  fourTiles.bind fun map =>
    strayer.placeCreature { map := map, health := fun _ => 100, conditionsEmpty := true }
      openTiles normalRelList ⟨100, 100, 7⟩ 0 false false []

/-- A player comes near the spawn, another stands far away, and the monster gets there. -/
def strayerLeaves : List (Action Unit) :=
  [.placeCreature openTiles normalRelList ⟨103, 100, 7⟩ 1 false false [],
    .placeCreature openTiles normalRelList ⟨162, 100, 7⟩ 2 false false [],
    .moveCreature 0 ⟨160, 100, 7⟩ [2]]

theorem begins_strayer {map : Map Unit} {s : MonsterState Unit} (hmap : fourTiles = some map)
    (hs : strayerAtHome = some s) (hplaced : s.map.Placed strayer.self) :
    strayer.Begins map s := by
  unfold strayerAtHome at hs
  rw [hmap] at hs
  exact .placed hs hplaced (by decide)

theorem always_neverOverlooks_whileAway :
    ∃ map s, fourTiles = some map ∧ strayerAtHome = some s ∧
      (Always (strayer.step fun tile _ => tile) strayer.NeverOverlooks s strayerLeaves ↔
        EachStep (strayer.step fun tile _ => tile) strayer.ReturnsUnseen s strayerLeaves) := by
  obtain ⟨map, s, hmap, hs, hnew, hplaced⟩ : ∃ map s, fourTiles = some map ∧
      strayerAtHome = some s ∧ (map.creatures strayer.self).tile = none ∧
      s.map.Placed strayer.self := ⟨_, _, rfl, rfl, rfl, rfl, rfl⟩
  exact ⟨map, s, hmap, hs, always_neverOverlooks_iff strayer rfl (fun tile _ => tile) hmap hnew
    (begins_strayer hmap hs hplaced) strayerLeaves⟩

/-- Carried home, the monster sleeps with player 1 in view. -/
theorem strayer_overlooks :
    ∃ map s t, fourTiles = some map ∧ strayer.Begins map s ∧
      run (strayer.step fun tile _ => tile) s (strayerLeaves ++ [.onThink .NOERROR [1]]) =
        some t ∧ strayer.Visible t 1 ∧ t.targetList = [] ∧ t.isIdle = true := by
  obtain ⟨map, s, t, hmap, hs, hplaced, ht, hvisible⟩ : ∃ map s t, fourTiles = some map ∧
      strayerAtHome = some s ∧ s.map.Placed strayer.self ∧
      run (strayer.step fun tile _ => tile) s (strayerLeaves ++ [.onThink .NOERROR [1]]) =
        some t ∧ strayer.Visible t 1 ∧ t.targetList = [] ∧ t.isIdle = true :=
    ⟨_, _, _, rfl, rfl, ⟨rfl, rfl⟩, rfl, ⟨⟨rfl, rfl⟩, by decide, rfl, rfl⟩, rfl, rfl⟩
  exact ⟨map, s, t, hmap, begins_strayer hmap hs hplaced, ht, hvisible⟩

end TibiaServer.World.Monster
