import TibiaServer.World.Spawn
/-!
# One monster for a place

A monster that has left the zone, or that is convinced, no longer counts for its place, and
the place is filled again.  Of the others there is one at most for a place, as long as no
check begins a countdown for a place that already has one.
-/

namespace TibiaServer.World.Spawn

open Library.Run

/-- The monster is alive and the spawn counts it for the place that it was created for: it has
not been convinced, and no cleanup has found it outside of the zone. -/
def Counts (s : Spawn) (monster : ℕ) : Prop :=
  s.isAlive monster = true ∧ (s.monsters monster).hasSpawn = true ∧
    (0, monster) ∉ s.spawnedMap

/-- Of the monsters created for a place at most one counts. -/
def OneMonster (s : Spawn) : Prop :=
  ∀ spawnId monster monster', (spawnId, monster) ∈ s.created → (spawnId, monster') ∈ s.created →
    s.Counts monster → s.Counts monster' → monster = monster'

/-- No check begins a countdown for a place that has one. -/
def SingleCountdown (s : Spawn) : Action → Prop
  | .checkSpawn input => ∀ block ∈ s.attempts input,
      block.spawnId ∉ s.scheduled.map Prod.fst
  | _ => True

/-- How often a place is taken: by its entries and by its countdowns. -/
def claims (s : Spawn) (spawnId : ℕ) : ℕ :=
  (s.spawnedMap.map Prod.fst).count spawnId + (s.scheduled.map Prod.fst).count spawnId

/-- A place is taken once at most, and a monster that counts for its place has its entry. -/
structure Assigned (s : Spawn) : Prop where
  once : ∀ spawnId, spawnId ≠ 0 → s.claims spawnId ≤ 1
  created : ∀ entry ∈ s.created, entry.1 ≠ 0 ∧ entry.2 < s.nextMonster
  counted : ∀ entry ∈ s.created, s.Counts entry.2 → entry ∈ s.spawnedMap

theorem Assigned.oneMonster {s : Spawn} (h : s.Assigned) : s.OneMonster := by
  intro spawnId monster monster' hmem hmem' hcounts hcounts'
  have hne := (h.created _ hmem).1
  have hentry := h.counted _ hmem hcounts
  have hentry' := h.counted _ hmem' hcounts'
  by_contra hother
  have hsub : [(spawnId, monster), (spawnId, monster')].Subperm s.spawnedMap := by
    refine List.subperm_of_subset ?_ ?_
    · simpa using hother
    · intro entry hin
      rcases List.mem_cons.mp hin with rfl | hin
      · exact hentry
      · rw [List.mem_singleton.mp hin]
        exact hentry'
  obtain ⟨entries, hperm, hsub⟩ := hsub
  have hle := (hsub.map Prod.fst).count_le spawnId
  rw [(hperm.map Prod.fst).count_eq] at hle
  have honce := h.once spawnId hne
  unfold claims at honce
  simp only [List.map_cons, List.map_nil, List.count_cons_self, List.count_nil] at hle
  omega

theorem assigned_load (definition : List (Bool × ℕ)) : (load definition).Assigned := by
  obtain ⟨spawnMap, heq, -⟩ := load_eq definition
  refine ⟨?_, ?_, ?_⟩
  · intro spawnId _
    rw [heq]
    exact Nat.zero_le 1
  · rw [heq]
    exact fun _ h => nomatch h
  · rw [heq]
    exact fun _ h => nomatch h

section Steps

variable {s t : Spawn}

theorem isAlive_iff {monster : ℕ} : s.isAlive monster = true ↔
    monster < s.nextMonster ∧ (s.monsters monster).isRemoved = false := by
  simp [isAlive]

/-- New monsters and countdowns for places that are not taken. -/
theorem Assigned.filled (h : s.Assigned) {ids : List ℕ} {new : List (ℕ × ℕ)}
    (hf : Filled s t ids new) (hnonzero : ∀ spawnId ∈ ids, spawnId ≠ 0)
    (hfree : ∀ spawnId, spawnId ≠ 0 →
      s.claims spawnId + ids.count spawnId + (new.map Prod.fst).count spawnId ≤ 1) :
    t.Assigned where
  once spawnId hne := by
    have hle := hfree spawnId hne
    unfold claims at hle ⊢
    rw [hf.spawnedMap, hf.scheduled]
    simp only [List.map_append, map_fst_newEntries, List.count_append]
    omega
  created entry hmem := by
    rw [hf.created, List.mem_append] at hmem
    rw [hf.nextMonster]
    rcases hmem with hmem | hmem
    · obtain ⟨hne, hlt⟩ := h.created entry hmem
      exact ⟨hne, by omega⟩
    · obtain ⟨hid, -, hlt⟩ := of_mem_newEntries hmem
      exact ⟨hnonzero _ hid, hlt⟩
  counted entry hmem hcounts := by
    rw [hf.created, List.mem_append] at hmem
    rw [hf.spawnedMap, List.mem_append]
    rcases hmem with hmem | hmem
    · obtain ⟨halive, hspawn, hzero⟩ := hcounts
      rw [isAlive_iff, hf.monsters] at halive
      rw [hf.monsters] at hspawn
      refine .inl (h.counted entry hmem ⟨?_, hspawn, fun hin => hzero ?_⟩)
      · exact isAlive_iff.mpr ⟨(h.created entry hmem).2, halive.2⟩
      · rw [hf.spawnedMap]
        exact List.mem_append_left _ hin
    · exact .inr hmem

theorem count_cleanup {now spawnId : ℕ} (hne : spawnId ≠ 0) :
    ((s.cleanup now).spawnedMap.map Prod.fst).count spawnId ≤
      (s.spawnedMap.map Prod.fst).count spawnId := by
  change ((s.spawnedMap.filterMap s.cleanEntry).map Prod.fst).count spawnId ≤ _
  induction s.spawnedMap with
  | nil => exact le_rfl
  | cons entry rest ih =>
    rw [List.filterMap_cons, List.map_cons, List.count_cons]
    cases heq : s.cleanEntry entry with
    | none => exact ih.trans (Nat.le_add_right _ _)
    | some entry' =>
      have hentry' : entry'.1 = 0 ∨ entry'.1 = entry.1 := by
        unfold cleanEntry at heq
        dsimp only at heq
        split at heq
        next => cases heq
        next =>
          split at heq
          next => exact .inl (Option.some.inj heq ▸ rfl)
          next => exact .inr (Option.some.inj heq ▸ rfl)
      rw [List.map_cons, List.count_cons]
      rcases hentry' with hzero | hsame
      · rw [hzero, if_neg (by simpa using hne.symm)]
        exact Nat.le_trans ih (Nat.le_add_right _ _)
      · rw [hsame]
        exact Nat.add_le_add_right ih _

theorem claims_cleanup {now spawnId : ℕ} (hne : spawnId ≠ 0) :
    ({ s with checkSpawnEvent := false }.cleanup now).claims spawnId ≤ s.claims spawnId :=
  Nat.add_le_add_right (@count_cleanup s now spawnId hne) _

/-- A cleanup takes no place, and what it finds outside of the zone does not count any more. -/
theorem Assigned.cleanup (h : s.Assigned) (now : ℕ) :
    ({ s with checkSpawnEvent := false }.cleanup now).Assigned where
  once spawnId hne := (claims_cleanup hne).trans (h.once spawnId hne)
  created := h.created
  counted entry hmem hcounts := by
    obtain ⟨halive, hspawn, hzero⟩ := hcounts
    have hremoved : (s.monsters entry.2).isRemoved = false := (isAlive_iff.mp halive).2
    have hne := (h.created entry hmem).1
    have hold : entry ∈ s.spawnedMap := by
      refine h.counted entry hmem ⟨halive, hspawn, fun hin => hzero ?_⟩
      exact mem_cleanup.mpr ⟨hremoved, .inl ⟨hin, .inr rfl⟩⟩
    refine mem_cleanup.mpr ⟨hremoved, .inl ⟨hold, .inl ?_⟩⟩
    by_contra hzone
    refine hzero (mem_cleanup.mpr ⟨hremoved, .inr ⟨rfl, ?_, entry.1, hne, hold⟩⟩)
    simpa using hzone

/-- One monster changes; if it counts afterwards, it did so before. -/
theorem Assigned.setMonster (h : s.Assigned) {address : ℕ} {monster : SpawnedMonster}
    (hkeep : (s.setMonster address monster).Counts address → s.Counts address) :
    (s.setMonster address monster).Assigned where
  once := h.once
  created := h.created
  counted entry hmem hcounts := by
    refine h.counted entry hmem ?_
    by_cases heq : entry.2 = address
    · rw [heq] at hcounts ⊢
      exact hkeep hcounts
    · obtain ⟨halive, hspawn, hzero⟩ := hcounts
      rw [isAlive_iff] at halive
      unfold Spawn.setMonster at halive hspawn
      dsimp only at halive hspawn
      rw [Function.update_of_ne heq] at halive hspawn
      exact ⟨isAlive_iff.mpr halive, hspawn, hzero⟩

/-- Among the places of a check each is once. -/
theorem count_attempts (s : Spawn) (input : CheckInput) (spawnId : ℕ) :
    (refilled input (s.attempts input)).count spawnId +
      ((countdowns (s.attempts input)).map Prod.fst).count spawnId ≤
        ((s.attempts input).map SpawnBlock.spawnId).count spawnId := by
  unfold refilled countdowns
  rw [List.map_map]
  induction s.attempts input with
  | nil => exact le_rfl
  | cons block blocks ih =>
    rw [List.map_cons, List.count_cons, List.filter_cons, List.filter_cons]
    cases hblock : block.isBlockable with
    | true =>
      cases hplaced : input.placed block.spawnId
      · simp only [Bool.and_false, Bool.not_true, Bool.false_eq_true, if_false]
        omega
      · simp only [Bool.and_self, Bool.not_true, Bool.false_eq_true, if_false, if_true,
          List.map_cons, List.count_cons]
        omega
    | false =>
      simp only [Bool.false_and, Bool.not_false, Bool.false_eq_true, if_false, if_true,
        List.map_cons, List.count_cons, Function.comp_apply]
      omega

/-- A check without a second countdown for a place takes free places only. -/
theorem claims_attempts (hwf : s.WellFormed) (h : s.Assigned) (input : CheckInput)
    (hsingle : s.SingleCountdown (.checkSpawn input)) {spawnId : ℕ} (hne : spawnId ≠ 0) :
    ({ s with checkSpawnEvent := false }.cleanup input.now).claims spawnId +
      (refilled input (s.attempts input)).count spawnId +
        ((countdowns (s.attempts input)).map Prod.fst).count spawnId ≤ 1 := by
  have hcount := count_attempts s input spawnId
  by_cases hmem : spawnId ∈ (s.attempts input).map SpawnBlock.spawnId
  · have hnodup : ((s.attempts input).map SpawnBlock.spawnId).Nodup :=
      hwf.ids.sublist ((attempts_sublist s input).map _)
    have honce := List.nodup_iff_count_le_one.mp hnodup spawnId
    obtain ⟨block, hblock, rfl⟩ := List.mem_map.mp hmem
    have hfree : ((s.cleanup input.now).spawnedMap.map Prod.fst).count block.spawnId = 0 := by
      refine List.count_eq_zero.mpr fun hin => ?_
      have hwanted := (List.mem_filter.mp (List.mem_of_mem_take hblock)).2
      simp [wanted, (mem_map_fst_cleanup hne).mp hin] at hwanted
    have hcountdown : (s.scheduled.map Prod.fst).count block.spawnId = 0 :=
      List.count_eq_zero.mpr (hsingle block hblock)
    have hclaims : ({ s with checkSpawnEvent := false }.cleanup input.now).claims
        block.spawnId = 0 := Nat.add_eq_zero_iff.mpr ⟨hfree, hcountdown⟩
    omega
  · rw [List.count_eq_zero.mpr hmem] at hcount
    have hle := (h.cleanup input.now).once spawnId hne
    omega

theorem assigned_step (hwf : s.WellFormed) (h : s.Assigned) {a : Action}
    (hsingle : s.SingleCountdown a) (hstep : step s a = some t) : t.Assigned := by
  cases a with
  | startup placed now =>
    obtain ⟨hstarted, hf⟩ := step_startup hstep
    obtain ⟨hnext, hscheduled, -⟩ := hwf.unstarted hstarted
    have hentries : s.spawnedMap = [] := by
      refine List.eq_nil_iff_forall_not_mem.mpr fun entry hmem => ?_
      have hlt := hwf.old entry hmem
      omega
    have hstart : ({ s with started := true } : Spawn).Assigned :=
      ⟨h.once, h.created, h.counted⟩
    refine hstart.filled hf ?_ ?_
    · intro spawnId hmem
      obtain ⟨block, hblock, rfl⟩ := List.mem_map.mp (List.mem_of_mem_filter hmem)
      exact hwf.nonzero block hblock
    · intro spawnId _
      have hclaims : ({ s with started := true } : Spawn).claims spawnId = 0 := by
        simp [claims, hentries, hscheduled]
      have hcount := List.nodup_iff_count_le_one.mp (hwf.ids.filter placed) spawnId
      rw [List.map_nil, List.count_nil, hclaims]
      omega
  | checkSpawn input =>
    obtain ⟨-, rfl⟩ := step_checkSpawn hstep
    obtain ⟨u, hf, heq⟩ := checkSpawn_spec input hwf.ids hwf.nonzero
    have hu : u.Assigned := by
      refine (h.cleanup input.now).filled hf ?_ ?_
      · intro spawnId hmem
        obtain ⟨block, hblock, rfl⟩ := List.mem_map.mp hmem
        exact hwf.nonzero block
          ((attempts_sublist s input).mem (List.mem_of_mem_filter hblock))
      · exact fun spawnId hne => claims_attempts hwf h input hsingle hne
    rw [heq]
    exact ⟨hu.once, hu.created, hu.counted⟩
  | scheduleSpawn spawnId interval placed now =>
    obtain ⟨hmem, hf⟩ := step_scheduleSpawn hstep
    -- the countdown gives its claim to the next one, or to the monster
    have hcount : ∀ other, (s.scheduled.map Prod.fst).count other =
        ((s.scheduled.erase (spawnId, interval)).map Prod.fst).count other +
          [spawnId].count other := by
      intro other
      rw [((List.perm_cons_erase hmem).map Prod.fst).count_eq, List.map_cons,
        List.count_cons, List.count_singleton]
    have hbase : ({ s with scheduled := s.scheduled.erase (spawnId, interval) } :
        Spawn).Assigned := by
      refine ⟨fun other hne => ?_, h.created, h.counted⟩
      have honce := h.once other hne
      unfold claims at honce ⊢
      rw [hcount] at honce
      dsimp only
      omega
    refine hbase.filled hf ?_ ?_
    · intro other hother
      split at hother
      next =>
        obtain ⟨block, hblock, -, hid⟩ := hwf.counted _ hmem
        rw [List.mem_singleton.mp hother]
        exact fun hzero => hwf.nonzero block hblock (hid.trans hzero)
      next => cases hother
    · intro other hne
      have honce := h.once other hne
      unfold claims at honce ⊢
      rw [hcount] at honce
      dsimp only
      by_cases hzero : interval = 0
      · cases placed <;> simp [hzero] at honce ⊢ <;> omega
      · simp [hzero] at honce ⊢
        omega
  | onRemoveCreature monster handled =>
    obtain ⟨-, rfl⟩ := step_onRemoveCreature hstep
    have hset : (s.setMonster monster
        { s.monsters monster with isRemoved := true }).Assigned := by
      refine h.setMonster fun hcounts => ?_
      have hremoved := (isAlive_iff.mp hcounts.1).2
      simp [Spawn.setMonster] at hremoved
    exact ⟨hset.once, hset.created, hset.counted⟩
  | move monster inZone =>
    obtain ⟨halive, rfl⟩ := step_move hstep
    refine h.setMonster fun hcounts => ?_
    obtain ⟨-, hspawn, hzero⟩ := hcounts
    unfold Spawn.setMonster at hspawn
    dsimp only at hspawn
    rw [Function.update_self] at hspawn
    exact ⟨halive, hspawn, hzero⟩
  | convinceCreature monster =>
    obtain ⟨-, -, rfl⟩ := step_convinceCreature hstep
    refine ⟨fun spawnId hne => ?_, h.created, fun entry hmem hcounts => ?_⟩
    · have hsub : (s.removeMonster monster).spawnedMap.Sublist s.spawnedMap :=
        List.eraseP_sublist
      exact (Nat.add_le_add_right ((hsub.map Prod.fst).count_le spawnId) _).trans
        (h.once spawnId hne)
    · obtain ⟨halive, hspawn, hzero⟩ := hcounts
      rw [isAlive_iff] at halive
      unfold Spawn.setMonster at halive hspawn
      dsimp only at halive hspawn
      have hne : entry.2 ≠ monster := by
        intro heq
        rw [heq, Function.update_self] at hspawn
        cases hspawn
      rw [Function.update_of_ne hne] at halive hspawn
      refine hwf.mem_removeMonster.mpr ⟨h.counted entry hmem ⟨?_, hspawn, fun hin => ?_⟩, hne⟩
      · exact isAlive_iff.mpr halive
      · exact hzero (hwf.mem_removeMonster.mpr ⟨hin, hne⟩)

end Steps

/-- In every run, as long as no check begins a second countdown for a place, at most one of
the monsters created for a place counts for it. -/
theorem always_one_monster (definition : List (Bool × ℕ)) (actions : List Action)
    (hsingle : EachStep step SingleCountdown (load definition) actions) :
    Always step OneMonster (load definition) actions := by
  have hinit : (load definition).WellFormed ∧ (load definition).Assigned :=
    ⟨wellFormed_load definition, assigned_load definition⟩
  refine (always_of_eachStep (P := fun s => s.WellFormed ∧ s.Assigned) ?_ actions _ hinit
    hsingle).mono fun s hs => hs.2.oneMonster
  intro s a t hs hguard hstep
  exact ⟨wellFormed_step hs.1 hstep, assigned_step hs.1 hs.2 hguard hstep⟩

/-- The monster dies, a check begins a countdown, and the next monster comes with its end. -/
theorem always_one_monster_countdown : Always step OneMonster (load [(false, 2)])
    [.startup (fun _ => true) 0, .onRemoveCreature 0 false,
      .checkSpawn ⟨10, fun _ => false, fun _ => true, 1⟩, .scheduleSpawn 1 2800 true 11,
      .scheduleSpawn 1 1400 true 12, .scheduleSpawn 1 0 true 13] := by
  refine always_one_monster _ _ fun _ ht => ⟨trivial, ?_⟩
  obtain rfl := Option.some.inj ht
  refine fun _ ht => ⟨trivial, ?_⟩
  obtain rfl := Option.some.inj ht
  refine fun _ ht => ⟨fun _ _ => List.not_mem_nil, ?_⟩
  obtain rfl := Option.some.inj ht
  exact fun _ _ => ⟨trivial, fun _ _ => ⟨trivial, fun _ _ => ⟨trivial, trivial⟩⟩⟩

/-- The first monster leaves the zone, and the check behind the death of the second one
fills its place. -/
theorem left_zone_refilled : ¬ ∀ (definition : List (Bool × ℕ)) (actions : List Action),
    Always step (fun s => ∀ spawnId monster monster', (spawnId, monster) ∈ s.created →
      (spawnId, monster') ∈ s.created → s.isAlive monster = true → s.isAlive monster' = true →
        monster = monster') (load definition) actions := by
  intro h
  have hlast := (h [(true, 2), (true, 2)]
    [.startup (fun _ => true) 0, .onRemoveCreature 1 false, .move 0 false,
      .checkSpawn ⟨10, fun _ => false, fun _ => true, 1⟩]).last rfl
  exact absurd (hlast 1 0 2 (by decide) (by decide) (by decide) (by decide)) (by decide)

end TibiaServer.World.Spawn
