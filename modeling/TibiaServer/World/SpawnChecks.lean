import TibiaServer.World.Spawn
/-!
# Pending checks

While a place has no monster a check should be pending.  A check compares the sizes of the two
maps to see whether there is more to do, and `spawnedMap` also has the monsters that have left
the zone; a startup does not look at what it could not place, and a convinced monster leaves
without a check (`always_checking_iff`).
-/

namespace TibiaServer.World.Spawn

open Library.Run

/-- A monster of the place is alive. -/
def HasMonster (s : Spawn) (spawnId : ℕ) : Prop :=
  ∃ monster, (spawnId, monster) ∈ s.spawnedMap ∧ (s.monsters monster).isRemoved = false

/-- Once the spawn is started, every place has a monster or a check is pending. -/
def Checking (s : Spawn) : Prop :=
  s.started = true →
    (∀ block ∈ s.spawnMap, s.HasMonster block.spawnId) ∨ s.checkSpawnEvent = true

/-- Every place has a monster other than this one. -/
def Spares (s : Spawn) (monster : ℕ) : Prop :=
  ∀ block ∈ s.spawnMap, ∃ other, other ≠ monster ∧ (block.spawnId, other) ∈ s.spawnedMap ∧
    (s.monsters other).isRemoved = false

/-- The entries whose monster is alive, those of monsters outside of the zone included. -/
def living (s : Spawn) : ℕ :=
  (s.spawnedMap.filter fun entry => !(s.monsters entry.2).isRemoved).length

/-- A startup places every monster; a check fills every free place, or the living monsters and
the new ones are fewer than the places; a monster leaves without a check only if there is one
already or the places can spare it. -/
def Rearms (s : Spawn) : Action → Prop
  | .startup placed _ => ∀ block ∈ s.spawnMap, placed block.spawnId = true
  | .checkSpawn input =>
    (∀ block ∈ s.spawnMap, s.occupied block.spawnId = true ∨
      block.spawnId ∈ refilled input (s.attempts input)) ∨
    s.living + (refilled input (s.attempts input)).length < s.spawnMap.length
  | .onRemoveCreature monster handled =>
    handled = true → s.checkSpawnEvent = true ∨ s.Spares monster
  | .convinceCreature monster => s.checkSpawnEvent = true ∨ s.Spares monster
  | _ => True

section Steps

variable {s t : Spawn}

theorem living_eq (s : Spawn) (now : ℕ) : (s.cleanup now).spawnedMap.length = s.living := by
  rw [← List.length_map Prod.snd, map_snd_cleanup, List.filter_map, List.length_map]
  rfl

theorem HasMonster.append {spawnId : ℕ} (h : s.HasMonster spawnId)
    {entries : List (ℕ × ℕ)} (hentries : t.spawnedMap = s.spawnedMap ++ entries)
    (hmonsters : t.monsters = s.monsters) : t.HasMonster spawnId := by
  obtain ⟨monster, hmem, hremoved⟩ := h
  refine ⟨monster, ?_, by rw [hmonsters]; exact hremoved⟩
  rw [hentries]
  exact List.mem_append_left _ hmem

theorem hasMonster_of_all (h : ∀ entry ∈ s.spawnedMap, (s.monsters entry.2).isRemoved = false)
    {spawnId : ℕ} : s.HasMonster spawnId ↔ spawnId ∈ s.spawnedMap.map Prod.fst := by
  rw [List.mem_map]
  constructor
  · rintro ⟨monster, hmem, -⟩
    exact ⟨(spawnId, monster), hmem, rfl⟩
  · rintro ⟨⟨_, monster⟩, hmem, rfl⟩
    exact ⟨monster, hmem, h _ hmem⟩

/-- After a check a place has a monster if it was occupied or has been filled. -/
theorem hasMonster_checkSpawn (h : s.WellFormed) {input : CheckInput} {u : Spawn}
    (hf : Filled ({ s with checkSpawnEvent := false }.cleanup input.now) u
      (refilled input (s.attempts input)) (countdowns (s.attempts input)))
    {spawnId : ℕ} (hne : spawnId ≠ 0) : u.HasMonster spawnId ↔
      s.occupied spawnId = true ∨ spawnId ∈ refilled input (s.attempts input) := by
  have hall : ∀ entry ∈ u.spawnedMap, (u.monsters entry.2).isRemoved = false := by
    intro entry hmem
    rw [hf.spawnedMap, List.mem_append] at hmem
    rw [hf.monsters]
    rcases hmem with hmem | hmem
    · exact (mem_cleanup.mp hmem).1
    · have hfresh : s.monsters entry.2 = {} := h.fresh entry.2 (of_mem_newEntries hmem).2.1
      exact congrArg SpawnedMonster.isRemoved hfresh
  rw [hasMonster_of_all hall, hf.spawnedMap, List.map_append, List.mem_append,
    map_fst_newEntries]
  exact or_congr_left (@mem_map_fst_cleanup _ input.now spawnId hne)

/-- A step that leaves every monster of the places alive keeps the check. -/
theorem checking_of_mono (hs : s.Checking) (hstarted : s.started = true)
    (hmap : t.spawnMap = s.spawnMap)
    (hmono : ∀ spawnId, s.HasMonster spawnId → t.HasMonster spawnId)
    (hevent : s.checkSpawnEvent = true → t.checkSpawnEvent = true) : t.Checking := by
  intro _
  rcases hs hstarted with hall | hcheck
  · refine .inl fun block hblock => hmono _ (hall block ?_)
    rwa [hmap] at hblock
  · exact .inr (hevent hcheck)

/-- A monster leaves, dead or convinced. -/
theorem checking_leaves_iff {monster : ℕ} (hstarted : t.started = true)
    (hmap : t.spawnMap = s.spawnMap)
    (hleaves : ∀ spawnId, t.HasMonster spawnId ↔ ∃ other, other ≠ monster ∧
      (spawnId, other) ∈ s.spawnedMap ∧ (s.monsters other).isRemoved = false) :
    t.Checking ↔ t.checkSpawnEvent = true ∨ s.Spares monster := by
  unfold Checking Spares
  simp only [hstarted, hmap, hleaves, forall_const, or_comm]

/-- Of the monsters that are alive only the dead one is lost. -/
theorem hasMonster_onRemoveCreature {monster spawnId : ℕ} (hmap : t.spawnedMap = s.spawnedMap)
    (hmonsters : t.monsters = Function.update s.monsters monster
      { s.monsters monster with isRemoved := true }) :
    t.HasMonster spawnId ↔ ∃ other, other ≠ monster ∧ (spawnId, other) ∈ s.spawnedMap ∧
      (s.monsters other).isRemoved = false := by
  unfold HasMonster
  rw [hmap, hmonsters]
  constructor
  · rintro ⟨other, hmem, hremoved⟩
    have hne : other ≠ monster := by
      rintro rfl
      rw [Function.update_self] at hremoved
      cases hremoved
    rw [Function.update_of_ne hne] at hremoved
    exact ⟨other, hne, hmem, hremoved⟩
  · rintro ⟨other, hne, hmem, hremoved⟩
    refine ⟨other, hmem, ?_⟩
    rwa [Function.update_of_ne hne]

theorem hasMonster_convinceCreature (h : s.WellFormed) {monster spawnId : ℕ} :
    ((s.removeMonster monster).setMonster monster
        { s.monsters monster with hasSpawn := false }).HasMonster spawnId ↔
      ∃ other, other ≠ monster ∧ (spawnId, other) ∈ s.spawnedMap ∧
        (s.monsters other).isRemoved = false := by
  have hmem : ∀ other, (spawnId, other) ∈ (s.removeMonster monster).spawnedMap ↔
      (spawnId, other) ∈ s.spawnedMap ∧ other ≠ monster := fun other => h.mem_removeMonster
  unfold HasMonster setMonster
  simp only [hmem]
  constructor
  · rintro ⟨other, ⟨hin, hne⟩, hremoved⟩
    rw [Function.update_of_ne hne] at hremoved
    exact ⟨other, hne, hin, hremoved⟩
  · rintro ⟨other, hne, hin, hremoved⟩
    refine ⟨other, ⟨hin, hne⟩, ?_⟩
    rwa [Function.update_of_ne hne]

/-- A startup has only the monsters that it could place. -/
theorem hasMonster_startup (h : s.WellFormed) {placed : ℕ → Bool}
    (hunstarted : s.started = false)
    (hf : Filled { s with started := true } t
      ((s.spawnMap.map SpawnBlock.spawnId).filter placed) []) {block : SpawnBlock}
    (hblock : block ∈ s.spawnMap) :
    t.HasMonster block.spawnId ↔ placed block.spawnId = true := by
  have hnext := (h.unstarted hunstarted).1
  have hentries : s.spawnedMap = [] := by
    refine List.eq_nil_iff_forall_not_mem.mpr fun entry hmem => ?_
    have hlt := h.old entry hmem
    omega
  have hmap : t.spawnedMap = newEntries s.nextMonster
      ((s.spawnMap.map SpawnBlock.spawnId).filter placed) := by
    rw [hf.spawnedMap]
    exact congrArg (· ++ _) hentries
  have hall : ∀ entry ∈ t.spawnedMap, (t.monsters entry.2).isRemoved = false := by
    intro entry hmem
    rw [hmap] at hmem
    rw [hf.monsters]
    exact congrArg SpawnedMonster.isRemoved (h.fresh entry.2 (of_mem_newEntries hmem).2.1)
  rw [hasMonster_of_all hall, hmap, map_fst_newEntries, List.mem_filter,
    and_iff_right (List.mem_map_of_mem hblock)]

theorem checking_step_iff (h : s.WellFormed) (hs : s.Checking) {a : Action}
    (hstep : step s a = some t) : t.Checking ↔ s.Rearms a := by
  cases a with
  | startup placed now =>
    obtain ⟨hunstarted, hf⟩ := step_startup hstep
    have hevent : t.checkSpawnEvent = false :=
      hf.checkSpawnEvent.trans (h.unstarted hunstarted).2.2
    unfold Checking Rearms
    simp only [hf.started, hf.spawnMap, hevent, forall_const, Bool.false_eq_true, or_false]
    exact forall₂_congr fun block hblock => hasMonster_startup h hunstarted hf hblock
  | checkSpawn input =>
    obtain ⟨hevent, rfl⟩ := step_checkSpawn hstep
    have hstarted : s.started = true := by
      by_contra hno
      rw [(h.unstarted (by simpa using hno)).2.2] at hevent
      cases hevent
    obtain ⟨u, hf, heq⟩ := checkSpawn_spec input h.ids h.nonzero
    have hlength : u.spawnedMap.length =
        s.living + (refilled input (s.attempts input)).length := by
      rw [hf.spawnedMap, List.length_append, length_newEntries]
      exact congrArg (· + _) (living_eq s input.now)
    have hmap : u.spawnMap = s.spawnMap := hf.spawnMap
    have hu : u.started = true := hf.started.trans hstarted
    rw [heq]
    unfold Checking Rearms
    simp only [hu, hmap, hlength, forall_const, decide_eq_true_eq]
    refine or_congr_left (forall₂_congr fun block hblock => ?_)
    exact hasMonster_checkSpawn h hf (h.nonzero block hblock)
  | scheduleSpawn spawnId interval placed now =>
    obtain ⟨hmem, hf⟩ := step_scheduleSpawn hstep
    have hstarted : s.started = true := by
      by_contra hno
      rw [(h.unstarted (by simpa using hno)).2.1] at hmem
      cases hmem
    refine iff_of_true (checking_of_mono hs hstarted hf.spawnMap ?_ ?_) trivial
    · exact fun _ hmonster => hmonster.append hf.spawnedMap hf.monsters
    · exact fun hevent => hf.checkSpawnEvent.trans hevent
  | onRemoveCreature monster handled =>
    obtain ⟨halive, rfl⟩ := step_onRemoveCreature hstep
    have hstarted := h.started_of_isAlive halive
    refine Iff.trans (checking_leaves_iff (s := s) hstarted rfl fun spawnId =>
      hasMonster_onRemoveCreature (s := s) rfl rfl) ?_
    unfold Rearms
    cases handled with
    | true => simp
    | false =>
      refine iff_of_true ?_ fun hno => nomatch hno
      cases hspawn : (s.monsters monster).hasSpawn with
      | true => exact .inl (by simp)
      | false =>
        -- it has no entry, so that no place loses it
        have hnone : ∀ entry ∈ s.spawnedMap, entry.2 ≠ monster := by
          intro entry hmem heq
          rw [← heq, h.owned entry hmem] at hspawn
          cases hspawn
        rcases hs hstarted with hall | hevent
        · refine .inr fun block hblock => ?_
          obtain ⟨other, hmem, hremoved⟩ := hall block hblock
          exact ⟨other, hnone _ hmem, hmem, hremoved⟩
        · exact .inl (by simp [hevent])
  | move monster inZone =>
    obtain ⟨halive, rfl⟩ := step_move hstep
    refine iff_of_true (checking_of_mono hs (h.started_of_isAlive halive) rfl ?_ id) trivial
    rintro spawnId ⟨other, hmem, hremoved⟩
    refine ⟨other, hmem, ?_⟩
    unfold setMonster
    dsimp only
    by_cases heq : other = monster
    · rw [heq, Function.update_self]
      rwa [heq] at hremoved
    · rwa [Function.update_of_ne heq]
  | convinceCreature monster =>
    obtain ⟨halive, -, rfl⟩ := step_convinceCreature hstep
    have hstarted := h.started_of_isAlive halive
    exact checking_leaves_iff hstarted rfl fun spawnId => hasMonster_convinceCreature h

end Steps

theorem checking_load (definition : List (Bool × ℕ)) : (load definition).Checking := by
  obtain ⟨spawnMap, heq, -⟩ := load_eq definition
  rw [heq]
  exact fun hno => nomatch hno

/-- In every run a check is pending while a place has no monster exactly as long as the steps
rearm it. -/
theorem always_checking_iff (definition : List (Bool × ℕ)) (actions : List Action) :
    Always step Checking (load definition) actions ↔
      EachStep step Rearms (load definition) actions :=
  always_iff_eachStep (I := WellFormed) (fun _ _ _ h hstep => wellFormed_step h hstep)
    (fun _ _ _ h hs hstep => checking_step_iff h hs hstep) actions _ (wellFormed_load definition)
    (checking_load definition)

/-- Of two monsters the second one dies and the first one leaves the zone.  The check fills
the first place, and with the monster outside `spawnedMap` is as large as `spawnMap`. -/
theorem second_place_forgotten : ¬ ∀ (definition : List (Bool × ℕ)) (actions : List Action),
    Always step Checking (load definition) actions := by
  intro h
  have hlast := (h [(true, 2), (true, 2)]
    [.startup (fun _ => true) 0, .onRemoveCreature 1 false, .move 0 false,
      .checkSpawn ⟨10, fun _ => false, fun _ => true, 1⟩]).last rfl
  rcases hlast rfl with hall | hevent
  · obtain ⟨monster, hmem, hremoved⟩ := hall ⟨2, true, 2⟩ (by decide)
    have hentries : ∀ entry ∈ [(0, 0), (1, 2)], entry.1 ≠ 2 := by decide
    exact hentries _ hmem rfl
  · exact absurd hevent (by decide)

end TibiaServer.World.Spawn
