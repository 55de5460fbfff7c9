import TibiaServer.World.Monster
/-!
# Opponents in view

Whoever enters the view of a monster is reported to it, and whoever it walks up
to is found by its own search, so its target list holds every living opponent in
view.  The one exception is `onThink` of a monster that has strayed from its
spawn: it is carried home, where it looks around and then drops all it has found
(`always_neverOverlooks_iff`).
-/

namespace TibiaServer.World

open SpectatorQuery (around)
open TibiaServer.Library.Run (run Always EachStep always_iff_of_breaks)

namespace Map

variable {ι : Type} {isPlayer : CreatureId → Bool} {m m' : Map ι}

/-! ## What the calls do to the creatures -/

theorem addThing_creatures {p : Position} {c : CreatureId} (h : m.addThing p c = some m') :
    m'.creatures = Function.update m.creatures c { m.creatures c with tile := some p } := by
  simp only [addThing, Option.bind_eq_bind, Option.bind_eq_some_iff] at h
  obtain ⟨leaf, -, tile, -, h⟩ := h
  cases h
  rfl

theorem removeThing_creatures {p : Position} {c : CreatureId}
    (h : m.removeThing p c = some m') : m'.creatures = m.creatures := by
  simp only [removeThing, Option.bind_eq_bind, Option.bind_eq_some_iff] at h
  obtain ⟨leaf, -, tile, -, h⟩ := h
  split at h <;> (cases h; rfl)

theorem leafRemoveCreature_creatures {leaf : LeafId} {c : CreatureId}
    (h : m.leafRemoveCreature isPlayer leaf c = some m') : m'.creatures = m.creatures := by
  obtain ⟨l, -, rfl⟩ := Option.map_eq_some_iff.mp h
  rfl

theorem switchLeaf_creatures {oldPos newPos : Position} {c : CreatureId}
    (h : m.switchLeaf isPlayer oldPos newPos c = some m') : m'.creatures = m.creatures := by
  simp only [switchLeaf, Option.bind_eq_bind, Option.bind_eq_some_iff] at h
  obtain ⟨leaf, -, new_leaf, -, h⟩ := h
  split at h
  · obtain ⟨m₁, hremove, rfl⟩ := Option.map_eq_some_iff.mp h
    have hleave : m₁.creatures = m.creatures := leafRemoveCreature_creatures hremove
    exact hleave
  · cases h
    rfl

@[simp] theorem getSpectators_creatures (spectators : Finset CreatureId) (q : SpectatorQuery) :
    (m.getSpectators isPlayer spectators q).2.creatures = m.creatures := by
  obtain ⟨cache, players, h⟩ := getSpectators_eq_withCaches isPlayer m spectators q
  rw [h]

theorem Sound.getSpectators (h : m.Sound isPlayer) (spectators : Finset CreatureId)
    (q : SpectatorQuery) : (m.getSpectators isPlayer spectators q).2.Sound isPlayer :=
  ⟨h.placed.getSpectators spectators q,
    h.covers.getSpectators h.placed.linked h.placed.listed spectators q⟩

/-- A creature on the map stands on one of its floors. -/
theorem Sound.floor_lt (h : m.Sound isPlayer) {c : CreatureId} (hc : m.Placed c) :
    (m.getPosition c).getZ < 16 := by
  obtain ⟨p, hp⟩ := Option.isSome_iff_exists.mp hc.1
  obtain ⟨tile, htile, -⟩ := h.placed.standing c p hp hc.2
  have hpos : m.getPosition c = p := by simp [getPosition, hp]
  have hz : p.z.toNat < 16 := (isSome_getQTNode htile).1
  rw [hpos]
  unfold Position.getZ
  omega

theorem placeCreature_spec (h : m.Sound isPlayer) {tiles : TileAnswers}
    {relList : List (ℤ × ℤ)} {centerPos : Position} {c : CreatureId}
    {extendedPos forceLogin : Bool}
    (hplace : m.placeCreature isPlayer tiles relList centerPos c extendedPos forceLogin =
      some (m', true)) :
    m'.Sound isPlayer ∧ (m.creatures c).tile = none ∧ ∃ p,
      m'.creatures = Function.update m.creatures c { m.creatures c with tile := some p } := by
  have hcases := placeCreature_cases h.placed hplace
  unfold placeCreature at hplace
  split at hplace
  next => simp at hplace
  next hnew =>
    have hnone : (m.creatures c).tile = none := by simpa using hnew
    split at hplace
    next => simp at hplace
    next p _ =>
      simp only [Option.bind_eq_bind, Option.bind_eq_some_iff] at hplace
      obtain ⟨m₁, hadd, leaf, -, hplace⟩ := hplace
      obtain ⟨rfl, -⟩ := Prod.mk.inj (Option.some.inj hplace)
      have henter := addThing_creatures hadd
      refine ⟨?_, hnone, tiles.queryDestination p, henter⟩
      rcases hcases with hsame | ⟨hwell, hcleared⟩
      · exact hsame ▸ h
      · exact ⟨hwell, hcleared.covers⟩

theorem placeCreature_false {tiles : TileAnswers} {relList : List (ℤ × ℤ)}
    {centerPos : Position} {c : CreatureId} {extendedPos forceLogin : Bool}
    (hplace : m.placeCreature isPlayer tiles relList centerPos c extendedPos forceLogin =
      some (m', false)) : m' = m := by
  unfold placeCreature at hplace
  split at hplace
  next => exact (Prod.mk.inj (Option.some.inj hplace)).1.symm
  next =>
    split at hplace
    next => exact (Prod.mk.inj (Option.some.inj hplace)).1.symm
    next p _ =>
      simp only [Option.bind_eq_bind, Option.bind_eq_some_iff] at hplace
      obtain ⟨m₁, -, leaf, -, hplace⟩ := hplace
      simp at hplace

/-- Everybody in range of the square that is left or of the one that is entered is told. -/
theorem moveCreature_told (h : m.Sound isPlayer) {c : CreatureId} {newPos : Position}
    {spectators : Finset CreatureId}
    (hmove : m.moveCreature isPlayer c newPos = some (m', spectators)) :
    ∃ oldPos, (m.creatures c).tile = some oldPos ∧ m.Placed c ∧ newPos.getZ < 16 ∧
      m'.Sound isPlayer ∧
      m'.creatures = Function.update m.creatures c { m.creatures c with tile := some newPos } ∧
      ∀ d, m.Placed d → ∀ p, p = oldPos ∨ p = newPos →
        (around p).range.Covers p (m.getPosition d) → d ∈ spectators := by
  have hstep : step isPlayer (fun tile _ => tile) m (.moveCreature c newPos) = some m' := by
    simp [step, hmove]
  have hsound := h.step hstep
  simp only [moveCreature, Option.bind_eq_bind, Option.bind_eq_some_iff] at hmove
  obtain ⟨oldPos, hold, newTile, hnew, hmove⟩ := hmove
  split at hmove
  next => simp at hmove
  next hremoved =>
    have hplaced : m.Placed c := ⟨by simp [hold], by simpa using hremoved⟩
    simp only [Option.bind_eq_some_iff] at hmove
    obtain ⟨m₁, hleave, m₂, hswitch, m₃, henter, hmove⟩ := hmove
    obtain ⟨rfl, rfl⟩ := Prod.mk.inj (Option.some.inj hmove)
    have hz : newPos.z.toNat < 16 := (isSome_getQTNode hnew).1
    have hnewz : newPos.getZ < 16 := by
      unfold Position.getZ
      omega
    have holdz : oldPos.getZ < 16 := by
      have hpos : m.getPosition c = oldPos := by simp [getPosition, hold]
      exact hpos ▸ h.floor_lt hplaced
    refine ⟨oldPos, hold, hplaced, hnewz, hsound, ?_, fun d hd p hp hrange => ?_⟩
    · rw [addThing_creatures henter, switchLeaf_creatures hswitch, removeThing_creatures hleave,
        getSpectators_creatures, getSpectators_creatures]
    · have h₁ := h.getSpectators ∅ (around oldPos)
      rcases hp with rfl | rfl
      · have hfirst := mem_getSpectators h.placed h.covers hd holdz hrange ∅
        exact subset_getSpectators h₁.placed.linked h₁.placed.listed h₁.covers _ _
          (Finset.mem_union_left _ hfirst)
      · refine mem_getSpectators h₁.placed h₁.covers ?_ hnewz ?_ _
        · rw [Placed, getSpectators_creatures]
          exact hd
        · rw [getPosition, getSpectators_creatures]
          exact hrange

theorem removeCreature_told (h : m.Sound isPlayer) {c : CreatureId}
    (hremove : m.removeCreature isPlayer c = some (m', true)) :
    m'.Sound isPlayer ∧
      m'.creatures = Function.update m.creatures c { m.creatures c with isRemoved := true } := by
  have hstep : step isPlayer (fun tile _ => tile) m (.removeCreature c) = some m' := by
    simp [step, hremove]
  refine ⟨h.step hstep, ?_⟩
  unfold removeCreature at hremove
  split at hremove
  next => simp at hremove
  next =>
    simp only [Option.bind_eq_bind, Option.bind_eq_some_iff] at hremove
    obtain ⟨p, -, leaf, -, m₁, hleave, m₂, hremove', hlast⟩ := hremove
    obtain ⟨rfl, -⟩ := Prod.mk.inj (Option.some.inj hlast)
    have hcreatures : m₂.creatures = m.creatures := by
      rw [removeThing_creatures hremove', leafRemoveCreature_creatures hleave,
        getSpectators_creatures]
    rw [hcreatures]

theorem removeCreature_false {c : CreatureId}
    (hremove : m.removeCreature isPlayer c = some (m', false)) : m' = m := by
  unfold removeCreature at hremove
  split at hremove
  next => exact (Prod.mk.inj (Option.some.inj hremove)).1.symm
  next =>
    simp only [Option.bind_eq_bind, Option.bind_eq_some_iff] at hremove
    obtain ⟨p, -, leaf, -, m₁, -, m₂, -, hlast⟩ := hremove
    simp at hlast

end Map

namespace Monster

variable {ι : Type} (m : Monster)

/-! ## The invariant -/

/-- A living opponent on the map, where the monster can see it. -/
def Visible (s : MonsterState ι) (c : CreatureId) : Prop :=
  s.map.Placed c ∧ 0 < s.health c ∧ m.isOpponent c = true ∧
    m.canSee s (s.map.getPosition c) = true

/-- Whoever is visible is a target, exactly once, and keeps the monster awake. -/
def NeverOverlooks (s : MonsterState ι) : Prop :=
  ∀ c, m.Visible s c → s.targetList.count c = 1 ∧ s.isIdle = false

/-- The monster lives and stands on the map. -/
structure Present (s : MonsterState ι) : Prop where
  sound : s.map.Sound m.isPlayer
  placed : s.map.Placed m.self
  alive : 0 < s.health m.self

structure Tracks (s : MonsterState ι) : Prop extends m.Present s where
  nodup : s.targetList.Nodup
  listed : ∀ c, m.Visible s c → c ∈ s.targetList

/-- `awake` follows from `updateIdleStatus`, so it may fail inside a call. -/
structure Watches (s : MonsterState ι) : Prop extends m.Tracks s where
  awake : s.targetList ≠ [] → s.isIdle = false

variable {m} {s s' : MonsterState ι}

theorem Watches.neverOverlooks (h : m.Watches s) : m.NeverOverlooks s := by
  intro c hc
  have hmem := h.listed c hc
  exact ⟨List.count_eq_one_of_mem h.nodup hmem, h.awake (List.ne_nil_of_mem hmem)⟩

theorem Tracks.updateIdleStatus (h : m.Tracks s) : m.Watches (m.updateIdleStatus s) where
  sound := updateIdleStatus_map (s := s) ▸ h.sound
  placed := updateIdleStatus_map (s := s) ▸ h.placed
  alive := updateIdleStatus_health (s := s) ▸ h.alive
  nodup := updateIdleStatus_targetList (s := s) ▸ h.nodup
  listed := by
    intro c hc
    rw [updateIdleStatus_targetList]
    refine h.listed c ?_
    simpa [Visible, canSee, getPosition] using hc
  awake := by
    rw [updateIdleStatus_targetList]
    exact isIdle_updateIdleStatus h.placed.2 h.alive

theorem OnLists.present (hon : OnLists s s') (h : m.Present s) : m.Present s' :=
  ⟨hon.map_eq ▸ h.sound, hon.map_eq ▸ h.placed, hon.health_eq ▸ h.alive⟩

theorem OnLists.visible_iff (hon : OnLists s s') (c : CreatureId) :
    m.Visible s' c ↔ m.Visible s c := by
  unfold Visible
  rw [hon.canSee_eq, hon.map_eq, hon.health_eq]

/-- A monster that is no summon is no opponent of itself. -/
theorem isOpponent_self (hwild : m.getMaster m.self = none) : m.isOpponent m.self = false := by
  simp [isOpponent, masterPlayer, hwild, m.self_not_player]

/-- Where the creatures and their health are the same, the same creatures are visible. -/
theorem visible_congr (hcreatures : s'.map.creatures = s.map.creatures)
    (hhealth : s'.health = s.health) (c : CreatureId) : m.Visible s' c ↔ m.Visible s c := by
  unfold Visible canSee getPosition Map.Placed Map.getPosition
  rw [hcreatures, hhealth]

/-! ## The monster looks around -/

theorem updateTargetList_spec {order : List CreatureId}
    (hupdate : m.updateTargetList s order = some s') :
    s'.map.creatures = s.map.creatures ∧ s'.health = s.health := by
  unfold updateTargetList at hupdate
  dsimp only at hupdate
  split at hupdate
  next =>
    obtain rfl := Option.some.inj hupdate
    obtain ⟨hon, -, -⟩ := foldl_findSpectator (m := m) order _
    rw [hon.map_eq, hon.health_eq]
    exact ⟨Map.getSpectators_creatures _ _, rfl⟩
  next => simp at hupdate

/-- After `updateTargetList` every visible opponent is a target, whatever the list was before. -/
theorem tracks_updateTargetList (hwild : m.getMaster m.self = none) (h : m.Present s)
    (hnodup : s.targetList.Nodup) {order : List CreatureId}
    (hupdate : m.updateTargetList s order = some s') : m.Tracks s' := by
  obtain ⟨hcreatures, hhealth⟩ := updateTargetList_spec hupdate
  have hvisible : ∀ c, m.Visible s' c ↔ m.Visible s c := visible_congr hcreatures hhealth
  unfold updateTargetList at hupdate
  dsimp only at hupdate
  split at hupdate
  next horder =>
    set q := around (m.getPosition s)
    set s₁ : MonsterState ι :=
      { s with
        map := (s.map.getSpectators m.isPlayer ∅ q).2
        friendList := s.friendList.filter fun c => m.keeps s c
        targetList := s.targetList.filter (m.keeps s) } with hs₁
    obtain rfl := Option.some.inj hupdate
    obtain ⟨hon, hkeep, hmem⟩ := foldl_findSpectator (m := m) order s₁
    have h₁ : m.Present s₁ := by
      refine ⟨h.sound.getSpectators ∅ q, ?_, h.alive⟩
      rw [Map.Placed, hs₁, Map.getSpectators_creatures]
      exact h.placed
    have hsame : ∀ c, m.Visible s₁ c ↔ m.Visible s c :=
      visible_congr (Map.getSpectators_creatures _ _) rfl
    refine ⟨hon.present h₁, hkeep (hnodup.filter _), fun c hc => ?_⟩
    have hcs : m.Visible s c := (hvisible c).mp hc
    have hc₁ : m.Visible s₁ c := (hsame c).mpr hcs
    have hfound : c ∈ (s.map.getSpectators m.isPlayer ∅ q).1 :=
      Map.mem_getSpectators h.sound.placed h.sound.covers hcs.1 (h.sound.floor_lt h.placed)
        (covers_seen hcs.2.2.2 (h.sound.floor_lt hcs.1)) ∅
    have hne : c ≠ m.self := by
      rintro rfl
      have hopp := hcs.2.2.1
      rw [isOpponent_self hwild] at hopp
      cases hopp
    have hwalked : c ∈ order := by
      rw [← List.mem_toFinset, horder.2]
      exact Finset.mem_erase.mpr ⟨hne, hfound⟩
    exact (hmem c).mpr (.inr ⟨hwalked, hc₁.2.2.1, hc₁.2.2.2⟩)
  next => simp at hupdate

/-! ## Other creatures come and go -/

/-- `s'` differs from `s` in where `c` is. -/
structure OnlyCreature (s s' : MonsterState ι) (c : CreatureId) : Prop where
  creatures_eq : ∀ d, d ≠ c → s'.map.creatures d = s.map.creatures d
  health_eq : s'.health = s.health
  targetList_eq : s'.targetList = s.targetList

variable {c : CreatureId}

theorem OnlyCreature.present (hc : OnlyCreature s s' c) (hself : m.self ≠ c)
    (hsound : s'.map.Sound m.isPlayer) (h : m.Present s) : m.Present s' := by
  refine ⟨hsound, ?_, hc.health_eq ▸ h.alive⟩
  rw [Map.Placed, hc.creatures_eq m.self hself]
  exact h.placed

theorem OnlyCreature.canSee_eq (hc : OnlyCreature s s' c) (hself : m.self ≠ c) (p : Position) :
    m.canSee s' p = m.canSee s p := by
  unfold canSee getPosition Map.getPosition
  rw [hc.creatures_eq m.self hself]

theorem OnlyCreature.visible_iff (hc : OnlyCreature s s' c) (hself : m.self ≠ c)
    {d : CreatureId} (hd : d ≠ c) : m.Visible s' d ↔ m.Visible s d := by
  unfold Visible
  rw [hc.canSee_eq hself, hc.health_eq]
  unfold Map.Placed Map.getPosition
  rw [hc.creatures_eq d hd]

/-- After a change of `c` alone only `c` is in question. -/
theorem Tracks.of_others {s₁ s₂ : MonsterState ι} (h : m.Tracks s) (hc : OnlyCreature s s₁ c)
    (hself : m.self ≠ c) (hsound : s₁.map.Sound m.isPlayer) (hon : OnLists s₁ s₂)
    (hnodup : s₁.targetList.Nodup → s₂.targetList.Nodup)
    (hothers : ∀ d, d ≠ c → d ∈ s₁.targetList → d ∈ s₂.targetList)
    (hlisted : m.Visible s₁ c → c ∈ s₂.targetList) : m.Tracks s₂ where
  toPresent := hon.present (hc.present hself hsound h.toPresent)
  nodup := hnodup (hc.targetList_eq ▸ h.nodup)
  listed := by
    intro d hd
    have hd₁ : m.Visible s₁ d := (hon.visible_iff d).mp hd
    by_cases hdc : d = c
    · subst hdc
      exact hlisted hd₁
    · apply hothers d hdc
      rw [hc.targetList_eq]
      exact h.listed d ((hc.visible_iff hself hdc).mp hd₁)

theorem tracks_onCreatureEnter {s₁ : MonsterState ι} (h : m.Tracks s)
    (hc : OnlyCreature s s₁ c) (hself : m.self ≠ c) (hsound : s₁.map.Sound m.isPlayer) :
    m.Tracks (m.onCreatureEnter s₁ c) := by
  obtain ⟨hon, hnodup, hmem⟩ := onCreatureFound_spec (m := m) s₁ c true
  apply h.of_others hc hself hsound hon hnodup
  · intro d _ hd
    exact (hmem d).mpr (.inl hd)
  · intro hvisible
    exact (hmem c).mpr (.inr ⟨rfl, hvisible.2.2.1⟩)

theorem tracks_onCreatureLeave {s₁ : MonsterState ι} (h : m.Tracks s)
    (hc : OnlyCreature s s₁ c) (hself : m.self ≠ c) (hsound : s₁.map.Sound m.isPlayer)
    (hgone : ¬m.Visible s₁ c) : m.Tracks (m.onCreatureLeave s₁ c) := by
  obtain ⟨hon, hnodup, hmem⟩ := onCreatureLeave_spec (m := m) s₁ c
  apply h.of_others hc hself hsound hon hnodup
  · intro d hd
    exact (hmem d hd).mpr
  · intro hvisible
    exact absurd hvisible hgone

theorem tracks_unnoticed {s₁ : MonsterState ι} (h : m.Tracks s) (hc : OnlyCreature s s₁ c)
    (hself : m.self ≠ c) (hsound : s₁.map.Sound m.isPlayer)
    (hlisted : m.Visible s₁ c → c ∈ s₁.targetList) : m.Tracks s₁ :=
  h.of_others hc hself hsound (.refl s₁) (fun hnodup => hnodup) (fun _ _ hd => hd) hlisted

theorem awake_onCreatureFound (h : m.Present s) (c : CreatureId) (pushFront : Bool)
    (htarget : (m.onCreatureFound s c pushFront).targetList ≠ []) :
    (m.onCreatureFound s c pushFront).isIdle = false := by
  obtain ⟨hon, -, -⟩ := onCreatureFound_spec (m := m) s c pushFront
  have h' := hon.present h
  unfold onCreatureFound at htarget h' ⊢
  dsimp only at htarget h' ⊢
  rw [updateIdleStatus_targetList] at htarget
  apply isIdle_updateIdleStatus _ _ htarget
  · simpa using h'.placed.2
  · simpa using h'.alive

theorem awake_onCreatureLeave (hawake : s.targetList ≠ [] → s.isIdle = false) (c : CreatureId)
    (htarget : (m.onCreatureLeave s c).targetList ≠ []) :
    (m.onCreatureLeave s c).isIdle = false := by
  set s₁ : MonsterState ι := if m.isFriend c then s.removeFriend c else s with hs₁
  have hlist : s₁.targetList = s.targetList ∧ s₁.isIdle = s.isIdle := by
    rw [hs₁]
    split_ifs <;> exact ⟨rfl, rfl⟩
  have heq : m.onCreatureLeave s c =
      if m.isOpponent c then
        if (s₁.removeTarget c).targetList.isEmpty then m.updateIdleStatus (s₁.removeTarget c)
        else s₁.removeTarget c
      else s₁ := rfl
  rw [heq] at htarget ⊢
  split_ifs at htarget ⊢ with hopp hempty
  · -- the list is empty, so nothing is claimed
    rw [updateIdleStatus_targetList] at htarget
    exact absurd (List.isEmpty_iff.mp hempty) htarget
  · refine hlist.2.trans (hawake fun hnil => htarget ?_)
    rw [MonsterState.removeTarget, hlist.1, hnil]
    rfl
  · exact hlist.2.trans (hawake (hlist.1 ▸ htarget))

/-! ## Events -/

/-- A square that the monster can see is in range of a search for spectators. -/
theorem told_of_seen (h : m.Present s) {p : Position} (hsee : m.canSee s p = true) :
    (around p).range.Covers p (s.map.getPosition m.self) :=
  covers_seer hsee (h.sound.floor_lt h.placed)

theorem watches_onCreatureAppear (hwild : m.getMaster m.self = none) (h : m.Present s)
    (hnodup : s.targetList.Nodup) {order : List CreatureId}
    (happear : m.onCreatureAppear s m.self order = some s') : m.Watches s' := by
  rw [onCreatureAppear, if_pos rfl] at happear
  obtain ⟨s₁, hupdate, rfl⟩ := Option.map_eq_some_iff.mp happear
  exact (tracks_updateTargetList hwild h hnodup hupdate).updateIdleStatus

theorem Watches.placeCreature (h : m.Watches s) {tiles : TileAnswers}
    {relList : List (ℤ × ℤ)} {pos : Position} {extendedPos forced : Bool}
    {order : List CreatureId}
    (hplace : m.placeCreature s tiles relList pos c extendedPos forced order = some s') :
    m.Watches s' := by
  simp only [Monster.placeCreature, Option.bind_eq_bind, Option.bind_eq_some_iff] at hplace
  obtain ⟨⟨map, placed⟩, hmap, hplace⟩ := hplace
  cases placed with
  | false =>
    rw [if_neg (by simp)] at hplace
    obtain rfl := Option.some.inj hplace
    obtain rfl := Map.placeCreature_false hmap
    exact h
  | true =>
    obtain ⟨hsound, hnew, p, hcreatures⟩ := Map.placeCreature_spec h.sound hmap
    have hself : m.self ≠ c := by
      rintro hself
      have hplaced := h.placed.1
      rw [hself, hnew] at hplaced
      cases hplaced
    set s₁ : MonsterState ι :=
      { s with map := (map.getSpectators m.isPlayer ∅ (around (map.getPosition c))).2 }
      with hs₁
    have hsound₁ : s₁.map.Sound m.isPlayer := hsound.getSpectators _ _
    have honly : OnlyCreature s s₁ c := by
      refine ⟨fun d hd => ?_, rfl, rfl⟩
      rw [hs₁, Map.getSpectators_creatures, hcreatures, Function.update_of_ne hd]
    have hpresent₁ := honly.present hself hsound₁ h.toPresent
    have hplace' : (if m.self ∈
        (map.getSpectators m.isPlayer ∅ (around (map.getPosition c))).1
        then m.onCreatureAppear s₁ c order else some s₁) = some s' := hplace
    split at hplace'
    next htold =>
      rw [onCreatureAppear, if_neg (Ne.symm hself)] at hplace'
      obtain rfl := Option.some.inj hplace'
      have htracks := tracks_onCreatureEnter h.toTracks honly hself hsound₁
      exact ⟨htracks, awake_onCreatureFound hpresent₁ c true⟩
    next htold =>
      obtain rfl := Option.some.inj hplace'
      refine ⟨tracks_unnoticed h.toTracks honly hself hsound₁ fun hvisible => ?_, h.awake⟩
      -- a visible square is in range, so the monster would have been told
      have hplaced : map.Placed m.self := by
        rw [Map.Placed, hcreatures, Function.update_of_ne hself]
        exact h.placed
      have hpos : s₁.map.getPosition = map.getPosition := by
        unfold Map.getPosition
        rw [hs₁, Map.getSpectators_creatures]
      have hrange := told_of_seen hpresent₁ hvisible.2.2.2
      rw [hpos] at hrange
      have hfloor : (map.getPosition c).getZ < 16 := by
        rw [← hpos]
        exact hsound₁.floor_lt hvisible.1
      exact absurd (Map.mem_getSpectators hsound.placed hsound.covers hplaced hfloor hrange ∅)
        htold

theorem Watches.removeCreature (h : m.Watches s) (hself : m.self ≠ c)
    (hremove : m.removeCreature s c = some s') : m.Watches s' := by
  simp only [Monster.removeCreature, Option.bind_eq_bind, Option.bind_eq_some_iff] at hremove
  obtain ⟨⟨map, removed⟩, hmap, hremove⟩ := hremove
  cases removed with
  | false =>
    rw [if_neg (by simp)] at hremove
    obtain rfl := Option.some.inj hremove
    obtain rfl := Map.removeCreature_false hmap
    exact h
  | true =>
    obtain ⟨hsound, hcreatures⟩ := Map.removeCreature_told h.sound hmap
    have honly : OnlyCreature s { s with map := map } c := by
      refine ⟨fun d hd => ?_, rfl, rfl⟩
      rw [hcreatures, Function.update_of_ne hd]
    have hgone : ¬m.Visible { s with map := map } c := by
      rintro ⟨⟨-, hremoved⟩, -⟩
      rw [hcreatures, Function.update_self] at hremoved
      cases hremoved
    split at hremove
    next htold =>
      obtain rfl := Option.some.inj hremove
      rw [onRemoveCreature, if_neg (Ne.symm hself)]
      have htracks := tracks_onCreatureLeave h.toTracks honly hself hsound hgone
      have hawake : ({ s with map := map } : MonsterState ι).targetList ≠ [] →
          ({ s with map := map } : MonsterState ι).isIdle = false := h.awake
      exact ⟨htracks, awake_onCreatureLeave hawake c⟩
    next htold =>
      obtain rfl := Option.some.inj hremove
      exact ⟨tracks_unnoticed h.toTracks honly hself hsound fun hvisible =>
        absurd hvisible hgone, h.awake⟩

/-- What a move of the monster itself leaves. -/
theorem Watches.moveSelf (hwild : m.getMaster m.self = none) (h : m.Watches s)
    {newPos : Position} {order : List CreatureId}
    (hmove : m.moveCreature s m.self newPos order = some s') :
    m.Watches s' ∧ s'.health = s.health ∧
      s'.map.creatures = Function.update s.map.creatures m.self
        { s.map.creatures m.self with tile := some newPos } := by
  simp only [Monster.moveCreature, Option.bind_eq_bind, Option.bind_eq_some_iff] at hmove
  obtain ⟨oldPos, hold, ⟨map, spectators⟩, hmap, hmove⟩ := hmove
  obtain ⟨oldPos', hold', -, -, hsound, hcreatures, htold⟩ := Map.moveCreature_told h.sound hmap
  obtain rfl : oldPos = oldPos' := Option.some.inj (hold.symm.trans hold')
  have hpos : s.map.getPosition m.self = oldPos := by simp [Map.getPosition, hold]
  have hmem : m.self ∈ spectators := by
    apply htold m.self h.placed oldPos (.inl rfl)
    rw [hpos]
    exact covers_self (hpos ▸ h.sound.floor_lt h.placed)
  rw [if_pos hmem, onCreatureMove, if_pos rfl] at hmove
  obtain ⟨s₁, hupdate, rfl⟩ := Option.map_eq_some_iff.mp hmove
  have hpresent : m.Present { s with map := map } := by
    refine ⟨hsound, ?_, h.alive⟩
    rw [Map.Placed, hcreatures, Function.update_self]
    exact ⟨rfl, h.placed.2⟩
  obtain ⟨hcreatures₁, hhealth₁⟩ := updateTargetList_spec hupdate
  refine ⟨(tracks_updateTargetList hwild hpresent h.nodup hupdate).updateIdleStatus, ?_, ?_⟩
  · rw [updateIdleStatus_health, hhealth₁]
  · rw [updateIdleStatus_map, hcreatures₁, hcreatures]

/-- A creature that moves is reported when it comes into view or leaves it. -/
theorem Watches.moveOther (h : m.Watches s) (hself : m.self ≠ c) {newPos : Position}
    {order : List CreatureId} (hmove : m.moveCreature s c newPos order = some s') :
    m.Watches s' := by
  simp only [Monster.moveCreature, Option.bind_eq_bind, Option.bind_eq_some_iff] at hmove
  obtain ⟨oldPos, hold, ⟨map, spectators⟩, hmap, hmove⟩ := hmove
  obtain ⟨oldPos', hold', hplaced, -, hsound, hcreatures, htold⟩ :=
    Map.moveCreature_told h.sound hmap
  obtain rfl : oldPos = oldPos' := Option.some.inj (hold.symm.trans hold')
  set s₁ : MonsterState ι := { s with map := map } with hs₁
  have honly : OnlyCreature s s₁ c := by
    refine ⟨fun d hd => ?_, rfl, rfl⟩
    rw [hs₁, hcreatures, Function.update_of_ne hd]
  have holdpos : s.map.getPosition c = oldPos := by simp [Map.getPosition, hold]
  have hnewpos : s₁.map.getPosition c = newPos := by
    rw [Map.getPosition, hs₁, hcreatures, Function.update_self]
    rfl
  have hsees := honly.canSee_eq (m := m) hself
  have hnew : m.Visible s₁ c → m.canSee s₁ newPos = true := fun hvisible =>
    hnewpos ▸ hvisible.2.2.2
  -- who was seen before the move is a target already
  have hbefore : m.canSee s₁ oldPos = true → m.Visible s₁ c → c ∈ s₁.targetList := by
    intro hsee hvisible
    refine h.listed c ⟨hplaced, honly.health_eq ▸ hvisible.2.1, hvisible.2.2.1, ?_⟩
    rw [holdpos, ← hsees]
    exact hsee
  split at hmove
  next =>
    rw [onCreatureMove, if_neg (Ne.symm hself)] at hmove
    obtain rfl := Option.some.inj hmove
    apply Tracks.updateIdleStatus
    split_ifs with henter hleave
    · exact tracks_onCreatureEnter h.toTracks honly hself hsound
    · refine tracks_onCreatureLeave h.toTracks honly hself hsound fun hvisible => ?_
      have hsee := hnew hvisible
      simp [hsee] at hleave
    · refine tracks_unnoticed h.toTracks honly hself hsound fun hvisible => ?_
      have hsee := hnew hvisible
      exact hbefore (by simpa [hsee] using henter) hvisible
  next hmiss =>
    obtain rfl := Option.some.inj hmove
    refine ⟨tracks_unnoticed h.toTracks honly hself hsound fun hvisible => ?_, h.awake⟩
    have hsee := hnew hvisible
    rw [hsees] at hsee
    exact absurd (htold m.self h.placed newPos (.inr rfl) (told_of_seen h.toPresent hsee)) hmiss

end Monster

end TibiaServer.World
