import Mathlib.Data.List.FinRange
import Mathlib.Data.List.Infix
import TibiaServer.Library.Run
/-!
# Creatures to check

Each placed creature that has something to do is in one of ten lists, chosen at random.  A pass
goes through one list: it thinks for the creatures whose `creatureCheck` is set, or has them die,
and drops the others.  What a creature does at its turn (scripts, damage, monsters that fall
asleep, removals) are the actions between this visit and the next; a list only grows at its end
meanwhile, and the pass meets what was added to it.

A reference is held for being on the map, one for being in a list, and one for each entry of
`ToReleaseCreatures`; those of the rest of the server are counted in `otherReferences`, which the
code does not have.
-/

namespace TibiaServer.World.CreatureChecks

abbrev CreatureId := ℕ

abbrev EVENT_CREATURECOUNT : ℕ := 10

abbrev ListIndex := Fin EVENT_CREATURECOUNT

inductive CreatureKind where
  | player
  | monster
  | npc
  deriving DecidableEq

structure Creature where
  kind : CreatureKind := .npc
  health : ℤ := 0
  healthMax : ℤ := 0
  isIdle : Bool := true
  creatureCheck : Bool := false
  inCheckCreaturesVector : Bool := false
  isInternalRemoved : Bool := false
  referenceCounter : ℤ := 0
  otherReferences : ℕ := 0
  isDeleted : Bool := false

/-- The creatures made so far are those below `size`; `pass` is the list that is being gone
through and the place of its next entry. -/
structure State where
  size : ℕ := 0
  creature : CreatureId → Creature := fun _ => {}
  checkCreatureLists : ListIndex → List CreatureId := fun _ => []
  ToReleaseCreatures : List CreatureId := []
  nextIndex : ListIndex := 0
  pass : Option (ListIndex × ℕ) := none

namespace State

def modify (s : State) (c : CreatureId) (f : Creature → Creature) : State :=
  { s with creature := Function.update s.creature c (f (s.creature c)) }

def setList (s : State) (list : ListIndex) (entries : List CreatureId) : State :=
  { s with checkCreatureLists := Function.update s.checkCreatureLists list entries }

/-- The creature is on the map. -/
def Placed (s : State) (c : CreatureId) : Prop :=
  c < s.size ∧ (s.creature c).isInternalRemoved = false

/-- A pointer to the creature may still be used. -/
def Exists (s : State) (c : CreatureId) : Prop :=
  c < s.size ∧ (s.creature c).isDeleted = false

instance (s : State) (c : CreatureId) : Decidable (s.Placed c) :=
  inferInstanceAs (Decidable (_ ∧ _))

instance (s : State) (c : CreatureId) : Decidable (s.Exists c) :=
  inferInstanceAs (Decidable (_ ∧ _))

/-- The entries of all the lists. -/
def checked (s : State) : List CreatureId :=
  (List.finRange EVENT_CREATURECOUNT).flatMap s.checkCreatureLists

end State

/-! ## The lists -/

/-- `list` is the number that `uniform_random` gives. -/
def addCreatureCheck (s : State) (c : CreatureId) (list : ListIndex) : State :=
  let t := s.modify c fun x => { x with creatureCheck := true }
  if (s.creature c).inCheckCreaturesVector then
    t
  else
    let u := t.modify c fun x =>
      { x with inCheckCreaturesVector := true, referenceCounter := x.referenceCounter + 1 }
    u.setList list (u.checkCreatureLists list ++ [c])

def removeCreatureCheck (s : State) (c : CreatureId) : State :=
  if (s.creature c).inCheckCreaturesVector then
    s.modify c fun x => { x with creatureCheck := false }
  else
    s

def ReleaseCreature (s : State) (c : CreatureId) : State :=
  { s with ToReleaseCreatures := s.ToReleaseCreatures ++ [c] }

/-- `--referenceCounter`, with `delete this` at zero. -/
def decrementReferenceCounter (s : State) (c : CreatureId) : State :=
  s.modify c fun x =>
    { x with
      referenceCounter := x.referenceCounter - 1
      isDeleted := x.isDeleted || decide (x.referenceCounter - 1 = 0) }

/-- The part of `cleanup` for creatures. -/
def cleanup (s : State) : State :=
  { s.ToReleaseCreatures.foldl decrementReferenceCounter s with ToReleaseCreatures := [] }

/-! ## Monsters -/

/-- `Monster::setIdle`. -/
def setIdle (s : State) (c : CreatureId) (idle : Bool) (list : ListIndex) : State :=
  if (s.creature c).isInternalRemoved ∨ (s.creature c).health ≤ 0 then
    s
  else
    let t := s.modify c fun x => { x with isIdle := idle }
    if idle then removeCreatureCheck t c else addCreatureCheck t c list

/-- `Creature::changeHealth`, and before it what a monster adds. -/
def changeHealth (s : State) (c : CreatureId) (healthChange : ℤ) (list : ListIndex) : State :=
  let t := if (s.creature c).kind = .monster then setIdle s c false list else s
  t.modify c fun x =>
    if 0 < healthChange then
      { x with health := x.health + min healthChange (x.healthMax - x.health) }
    else
      { x with health := max 0 (x.health + healthChange) }

/-! ## Coming and going -/

/-- The map's reference, and `addCreatureCheck`. -/
def placeCreature (s : State) (kind : CreatureKind) (health healthMax : ℤ) (list : ListIndex) :
    State :=
  let x : Creature := { kind := kind, health := health, healthMax := healthMax
                        referenceCounter := 1 }
  addCreatureCheck { s with size := s.size + 1, creature := Function.update s.creature s.size x }
    s.size list

/-- `Game::removeCreature` of a creature on the map; a monster that is told of its own removal
falls asleep first. -/
def removeCreature (s : State) (c : CreatureId) : State :=
  if (s.creature c).isInternalRemoved then
    s
  else
    let t := if (s.creature c).kind = .monster then setIdle s c true 0 else s
    let u := t.modify c fun x => { x with isInternalRemoved := true }
    removeCreatureCheck (ReleaseCreature u c) c

/-! ## A pass -/

inductive Call where
  | onThink
  | onDeath
  deriving DecidableEq

/-- The creature whose entry is next. -/
def current (s : State) : Option CreatureId :=
  s.pass.bind fun p => (s.checkCreatureLists p.1)[p.2]?

def checkCreatures (s : State) : State :=
  { s with pass := some (s.nextIndex, 0), nextIndex := s.nextIndex + 1 }

/-- The entry is erased, and the reference for it is given back later. -/
def dropEntry (s : State) (list : ListIndex) (place : ℕ) (c : CreatureId) : State :=
  let t := s.modify c fun x => { x with inCheckCreaturesVector := false }
  ReleaseCreature (t.setList list ((s.checkCreatureLists list).eraseIdx place)) c

/-- The body of the loop, but for the calls. -/
def visit (s : State) (list : ListIndex) (place : ℕ) (c : CreatureId) : State :=
  if (s.creature c).creatureCheck then
    { s with pass := some (list, place + 1) }
  else
    dropEntry s list place c

/-! ## Runs -/

inductive Action where
  | placeCreature (kind : CreatureKind) (health healthMax : ℤ) (list : ListIndex)
  | changeHealth (c : CreatureId) (healthChange : ℤ) (list : ListIndex)
  | setIdle (c : CreatureId) (idle : Bool) (list : ListIndex)
  | removeCreature (c : CreatureId)
  /-- `Player::death` sets the health of a player that stays in the game. -/
  | restoreHealth (c : CreatureId) (health : ℤ)
  | takeReference (c : CreatureId)
  | giveReferenceBack (c : CreatureId)
  | checkCreatures
  | visit
  /-- The end of the list was reached. -/
  | cleanup
  deriving DecidableEq

/-- The end of the list that is being gone through. -/
def AtEnd (s : State) : Prop := s.pass ≠ none ∧ current s = none

instance (s : State) : Decidable (AtEnd s) := inferInstanceAs (Decidable (_ ∧ _))

def Enabled (s : State) : Action → Prop
  | .placeCreature .. => True
  | .changeHealth c .. => s.Exists c
  | .setIdle c .. => s.Exists c ∧ (s.creature c).kind = .monster
  | .removeCreature c => s.Exists c
  | .restoreHealth c _ => s.Exists c ∧ (s.creature c).kind = .player
  | .takeReference c => s.Exists c
  | .giveReferenceBack c => s.Exists c ∧ 0 < (s.creature c).otherReferences
  | .checkCreatures => s.pass = none
  | .visit => current s ≠ none
  | .cleanup => AtEnd s

instance (s : State) : (a : Action) → Decidable (Enabled s a)
  | .placeCreature .. => inferInstanceAs (Decidable True)
  | .changeHealth c .. => inferInstanceAs (Decidable (s.Exists c))
  | .setIdle c .. => inferInstanceAs (Decidable (s.Exists c ∧ (s.creature c).kind = .monster))
  | .removeCreature c => inferInstanceAs (Decidable (s.Exists c))
  | .restoreHealth c _ => inferInstanceAs (Decidable (s.Exists c ∧ (s.creature c).kind = .player))
  | .takeReference c => inferInstanceAs (Decidable (s.Exists c))
  | .giveReferenceBack c =>
    inferInstanceAs (Decidable (s.Exists c ∧ 0 < (s.creature c).otherReferences))
  | .checkCreatures => inferInstanceAs (Decidable (s.pass = none))
  | .visit => inferInstanceAs (Decidable (current s ≠ none))
  | .cleanup => inferInstanceAs (Decidable (AtEnd s))

def act (s : State) : Action → State
  | .placeCreature kind health healthMax list => placeCreature s kind health healthMax list
  | .changeHealth c healthChange list => changeHealth s c healthChange list
  | .setIdle c idle list => setIdle s c idle list
  | .removeCreature c => removeCreature s c
  | .restoreHealth c health => s.modify c fun x => { x with health := health }
  | .takeReference c => s.modify c fun x =>
    { x with
      referenceCounter := x.referenceCounter + 1
      otherReferences := x.otherReferences + 1 }
  | .giveReferenceBack c => decrementReferenceCounter
      (s.modify c fun x => { x with otherReferences := x.otherReferences - 1 }) c
  | .checkCreatures => checkCreatures s
  | .visit =>
    match s.pass, current s with
    | some (list, place), some c => visit s list place c
    | _, _ => s
  | .cleanup => { cleanup s with pass := none }

def step (s : State) (a : Action) : Option State :=
  if Enabled s a then some (act s a) else none

/-- The calls that an action makes on the creature whose turn it is. -/
def calls (s : State) : Action → List (CreatureId × Call)
  | .visit =>
    match current s with
    | some c =>
      if (s.creature c).creatureCheck then
        [(c, if 0 < (s.creature c).health then .onThink else .onDeath)]
      else []
    | none => []
  | _ => []

/-! ## What holds of the lists -/

/-- No creature is in the lists twice, the flag says who is in one, and each reference counted
has a holder. -/
structure Listed (s : State) : Prop where
  nodup : ∀ i, (s.checkCreatureLists i).Nodup
  unique : ∀ c i j, c ∈ s.checkCreatureLists i → c ∈ s.checkCreatureLists j → i = j
  flag : ∀ c, (s.creature c).inCheckCreaturesVector = true ↔ ∃ i, c ∈ s.checkCreatureLists i
  counted : ∀ c, (s.creature c).referenceCounter = (s.creature c).otherReferences +
    s.ToReleaseCreatures.count c + (if s.Placed c then 1 else 0) +
    (if (s.creature c).inCheckCreaturesVector = true then 1 else 0)
  deleted : ∀ c, (s.creature c).isDeleted = true → (s.creature c).referenceCounter = 0
  fresh : ∀ c, s.size ≤ c → s.creature c = {}

/-- A creature on the map that has something to do: all but the sleeping monsters that are
alive. -/
def Creature.Awake (x : Creature) : Prop :=
  x.isInternalRemoved = false ∧ (x.kind ≠ .monster ∨ x.isIdle = false ∨ x.health ≤ 0)

def Creature.Checked (x : Creature) : Prop :=
  x.inCheckCreaturesVector = true ∧ x.creatureCheck = true

/-- The creature is on the map and has something to do. -/
def Due (s : State) (c : CreatureId) : Prop := c < s.size ∧ (s.creature c).Awake

/-- Those who have something to do are in a list with `creatureCheck` set. -/
def DueListed (s : State) : Prop := ∀ c, Due s c → (s.creature c).Checked

variable {s t : State} {c x : CreatureId} {i j : ListIndex} {k : ℕ}

namespace State

@[simp] theorem creature_modify_self (s : State) (c : CreatureId) (f : Creature → Creature) :
    (s.modify c f).creature c = f (s.creature c) := Function.update_self ..

theorem creature_modify_of_ne {f : Creature → Creature} (h : x ≠ c) :
    (s.modify c f).creature x = s.creature x := Function.update_of_ne h ..

@[simp] theorem checkCreatureLists_setList_self (s : State) (i : ListIndex)
    (entries : List CreatureId) : (s.setList i entries).checkCreatureLists i = entries :=
  Function.update_self ..

@[simp] theorem creature_setList (s : State) (i : ListIndex) (entries : List CreatureId) :
    (s.setList i entries).creature = s.creature := rfl

theorem checkCreatureLists_setList_of_ne {entries : List CreatureId} (h : j ≠ i) :
    (s.setList i entries).checkCreatureLists j = s.checkCreatureLists j :=
  Function.update_of_ne h ..

end State

/-- Only the creature `c` has changed. -/
structure OnlyAt (c : CreatureId) (s t : State) : Prop where
  size : t.size = s.size
  creature : ∀ x, x ≠ c → t.creature x = s.creature x

theorem onlyAt_modify (s : State) (c : CreatureId) (f : Creature → Creature) :
    OnlyAt c s (s.modify c f) := ⟨rfl, fun _ hx => State.creature_modify_of_ne hx⟩

theorem DueListed.onlyAt (h : DueListed s) (hat : OnlyAt c s t)
    (hc : (t.creature c).Awake → (t.creature c).Checked) : DueListed t := by
  intro x hx
  by_cases hxc : x = c
  · subst hxc
    exact hc hx.2
  · rw [hat.creature x hxc]
    apply h
    rw [Due, ← hat.size, ← hat.creature x hxc]
    exact hx

/-- A change of one creature's record; the lists stay. -/
theorem Listed.modify {f : Creature → Creature} (h : Listed s) (hc : c < s.size)
    (hflag : ∀ x, (f x).inCheckCreaturesVector = x.inCheckCreaturesVector)
    (hremoved : ∀ x, (f x).isInternalRemoved = x.isInternalRemoved)
    (hcount : (f (s.creature c)).referenceCounter - (f (s.creature c)).otherReferences =
      (s.creature c).referenceCounter - (s.creature c).otherReferences)
    (hdeleted : (f (s.creature c)).isDeleted = true → (f (s.creature c)).referenceCounter = 0) :
    Listed (s.modify c f) := by
  have hF : ∀ x, ((s.modify c f).creature x).inCheckCreaturesVector =
      (s.creature x).inCheckCreaturesVector := by
    intro x
    by_cases hx : x = c
    · subst hx
      rw [State.creature_modify_self, hflag]
    · rw [State.creature_modify_of_ne hx]
  have hP : ∀ x, (s.modify c f).Placed x ↔ s.Placed x := by
    intro x
    unfold State.Placed
    by_cases hx : x = c
    · subst hx
      rw [State.creature_modify_self, hremoved]
      rfl
    · rw [State.creature_modify_of_ne hx]
      rfl
  refine ⟨h.nodup, h.unique, fun x => ?_, fun x => ?_, fun x hx => ?_, fun x hx => ?_⟩
  · rw [hF]
    exact h.flag x
  · have hx := h.counted x
    simp only [hP, hF]
    by_cases hxc : x = c
    · subst hxc
      rw [State.creature_modify_self]
      have hrel : (s.modify x f).ToReleaseCreatures = s.ToReleaseCreatures := rfl
      rw [hrel]
      omega
    · rw [State.creature_modify_of_ne hxc]
      exact hx
  · by_cases hxc : x = c
    · subst hxc
      rw [State.creature_modify_self] at hx ⊢
      exact hdeleted hx
    · rw [State.creature_modify_of_ne hxc] at hx ⊢
      exact h.deleted x hx
  · have hxc : x ≠ c := by
      rintro rfl
      exact absurd hc (Nat.not_lt.mpr hx)
    rw [State.creature_modify_of_ne hxc]
    exact h.fresh x hx

/-! ## One creature at a time -/

/-- What the actions on one creature leave alone: the other creatures, the pass, and the entries
that the lists had. -/
structure Touches (c : CreatureId) (s t : State) : Prop where
  only : OnlyAt c s t
  pass : t.pass = s.pass
  nextIndex : t.nextIndex = s.nextIndex
  lists : ∀ i, s.checkCreatureLists i <+: t.checkCreatureLists i

theorem Touches.refl (c : CreatureId) (s : State) : Touches c s s :=
  ⟨⟨rfl, fun _ _ => rfl⟩, rfl, rfl, fun _ => List.prefix_refl _⟩

theorem Touches.trans {u : State} (h : Touches c s t) (h' : Touches c t u) : Touches c s u where
  only := ⟨h'.only.size.trans h.only.size,
    fun x hx => (h'.only.creature x hx).trans (h.only.creature x hx)⟩
  pass := h'.pass.trans h.pass
  nextIndex := h'.nextIndex.trans h.nextIndex
  lists i := (h.lists i).trans (h'.lists i)

theorem touches_modify (s : State) (c : CreatureId) (f : Creature → Creature) :
    Touches c s (s.modify c f) :=
  ⟨onlyAt_modify s c f, rfl, rfl, fun _ => List.prefix_refl _⟩

theorem touches_append (s : State) (c : CreatureId) (list : ListIndex) (entries : List CreatureId) :
    Touches c s (s.setList list (s.checkCreatureLists list ++ entries)) := by
  refine ⟨⟨rfl, fun _ _ => rfl⟩, rfl, rfl, fun i => ?_⟩
  by_cases hi : i = list
  · subst hi
    rw [State.checkCreatureLists_setList_self]
    exact List.prefix_append _ _
  · rw [State.checkCreatureLists_setList_of_ne hi]

theorem addCreatureCheck_creature (s : State) (c : CreatureId) (list : ListIndex) :
    (addCreatureCheck s c list).creature c = { s.creature c with
      creatureCheck := true
      inCheckCreaturesVector := true
      referenceCounter := (s.creature c).referenceCounter +
        if (s.creature c).inCheckCreaturesVector = true then 0 else 1 } := by
  unfold addCreatureCheck
  cases hflag : (s.creature c).inCheckCreaturesVector <;> simp [hflag, State.setList]

theorem addCreatureCheck_touches (s : State) (c : CreatureId) (list : ListIndex) :
    Touches c s (addCreatureCheck s c list) := by
  unfold addCreatureCheck
  dsimp only
  split
  · exact touches_modify s c _
  · exact ((touches_modify s c _).trans (touches_modify _ c _)).trans (touches_append _ c list [c])

/-- A creature that is in no list is appended to one. -/
theorem Listed.enter (h : Listed s) (hc : s.Exists c)
    (hflag : (s.creature c).inCheckCreaturesVector = false) (list : ListIndex) :
    Listed ((s.modify c fun x => { x with
      inCheckCreaturesVector := true
      referenceCounter := x.referenceCounter + 1 }).setList list
        (s.checkCreatureLists list ++ [c])) := by
  generalize ht : State.setList _ _ _ = t
  have hout : ∀ i, c ∉ s.checkCreatureLists i := by
    intro i hi
    rw [(h.flag c).mpr ⟨i, hi⟩] at hflag
    exact Bool.noConfusion hflag
  have hself : t.creature c = { s.creature c with
      inCheckCreaturesVector := true
      referenceCounter := (s.creature c).referenceCounter + 1 } := by
    rw [← ht, State.creature_setList, State.creature_modify_self]
  have hother : ∀ x, x ≠ c → t.creature x = s.creature x := by
    intro x hx
    rw [← ht, State.creature_setList, State.creature_modify_of_ne hx]
  have hsize : t.size = s.size := by rw [← ht]; rfl
  have hrelease : t.ToReleaseCreatures = s.ToReleaseCreatures := by rw [← ht]; rfl
  have hlist : t.checkCreatureLists list = s.checkCreatureLists list ++ [c] := by
    rw [← ht]
    exact State.checkCreatureLists_setList_self ..
  have hlists : ∀ i, i ≠ list → t.checkCreatureLists i = s.checkCreatureLists i := by
    intro i hi
    rw [← ht]
    exact State.checkCreatureLists_setList_of_ne hi
  have hmem : ∀ x i, x ∈ t.checkCreatureLists i ↔
      x ∈ s.checkCreatureLists i ∨ (i = list ∧ x = c) := by
    intro x i
    by_cases hi : i = list
    · subst hi
      rw [hlist]
      simp
    · rw [hlists i hi]
      simp [hi]
  have hplaced : ∀ x, t.Placed x ↔ s.Placed x := by
    intro x
    unfold State.Placed
    rw [hsize]
    by_cases hx : x = c
    · subst hx
      rw [hself]
    · rw [hother x hx]
  refine ⟨fun i => ?_, fun x i j hi hj => ?_, fun x => ?_, fun x => ?_, fun x hx => ?_,
    fun x hx => ?_⟩
  · by_cases hi : i = list
    · subst hi
      rw [hlist]
      exact (h.nodup i).append (List.nodup_singleton c) (by simpa using hout i)
    · rw [hlists i hi]
      exact h.nodup i
  · rw [hmem] at hi hj
    rcases hi with hi | ⟨rfl, rfl⟩ <;> rcases hj with hj | ⟨rfl, hx⟩
    · exact h.unique x i j hi hj
    · exact absurd (hx ▸ hi) (hout i)
    · exact absurd hj (hout j)
    · rfl
  · simp only [hmem]
    by_cases hx : x = c
    · subst hx
      rw [hself]
      exact iff_of_true rfl ⟨list, Or.inr ⟨rfl, rfl⟩⟩
    · rw [hother x hx, h.flag]
      simp [hx]
  · have hcount := h.counted x
    simp only [hplaced, hrelease]
    by_cases hx : x = c
    · subst hx
      rw [hflag] at hcount
      rw [hself]
      simp only [hcount]
      simp
    · rw [hother x hx]
      exact hcount
  · by_cases hxc : x = c
    · subst hxc
      rw [hself] at hx
      rw [show (s.creature x).isDeleted = false from hc.2] at hx
      exact Bool.noConfusion hx
    · rw [hother x hxc] at hx ⊢
      exact h.deleted x hx
  · rw [hsize] at hx
    have hxc : x ≠ c := by
      rintro rfl
      exact absurd hc.1 (Nat.not_lt.mpr hx)
    rw [hother x hxc]
    exact h.fresh x hx

theorem addCreatureCheck_listed (h : Listed s) (hc : s.Exists c) (list : ListIndex) :
    Listed (addCreatureCheck s c list) := by
  have hmod : Listed (s.modify c fun x => { x with creatureCheck := true }) :=
    h.modify hc.1 (fun _ => rfl) (fun _ => rfl) rfl (fun hdel => h.deleted c hdel)
  unfold addCreatureCheck
  dsimp only
  split
  · exact hmod
  · rename_i hflag
    refine hmod.enter ⟨hc.1, ?_⟩ ?_ list
    · rw [State.creature_modify_self]
      exact hc.2
    · rw [State.creature_modify_self]
      simpa using hflag

theorem removeCreatureCheck_creature (s : State) (c : CreatureId) :
    (removeCreatureCheck s c).creature c = { s.creature c with
      creatureCheck := (s.creature c).creatureCheck &&
        !(s.creature c).inCheckCreaturesVector } := by
  unfold removeCreatureCheck
  split
  · rename_i hflag
    have hcleared : ((s.creature c).creatureCheck && !(s.creature c).inCheckCreaturesVector) =
        false := by
      simp [hflag]
    rw [State.creature_modify_self, hcleared]
  · rename_i hflag
    have hkept : ((s.creature c).creatureCheck && !(s.creature c).inCheckCreaturesVector) =
        (s.creature c).creatureCheck := by
      simp [hflag]
    rw [hkept]

theorem removeCreatureCheck_touches (s : State) (c : CreatureId) :
    Touches c s (removeCreatureCheck s c) := by
  unfold removeCreatureCheck
  split
  · exact touches_modify s c _
  · exact Touches.refl c s

theorem removeCreatureCheck_listed (h : Listed s) (hc : c < s.size) :
    Listed (removeCreatureCheck s c) := by
  unfold removeCreatureCheck
  split
  · exact h.modify hc (fun _ => rfl) (fun _ => rfl) rfl (fun hdel => h.deleted c hdel)
  · exact h

theorem setIdle_touches (s : State) (c : CreatureId) (idle : Bool) (list : ListIndex) :
    Touches c s (setIdle s c idle list) := by
  unfold setIdle
  dsimp only
  split
  · exact Touches.refl c s
  · split
    · exact (touches_modify s c _).trans (removeCreatureCheck_touches _ c)
    · exact (touches_modify s c _).trans (addCreatureCheck_touches _ c list)

theorem setIdle_listed (h : Listed s) (hc : s.Exists c) (idle : Bool) (list : ListIndex) :
    Listed (setIdle s c idle list) := by
  have hmod : Listed (s.modify c fun x => { x with isIdle := idle }) :=
    h.modify hc.1 (fun _ => rfl) (fun _ => rfl) rfl (fun hdel => h.deleted c hdel)
  unfold setIdle
  dsimp only
  split
  · exact h
  · split
    · exact removeCreatureCheck_listed hmod hc.1
    · refine addCreatureCheck_listed hmod ⟨hc.1, ?_⟩ list
      rw [State.creature_modify_self]
      exact hc.2

/-- The kind, the health and the place in the world are not touched by `setIdle`. -/
theorem setIdle_same (s : State) (c : CreatureId) (idle : Bool) (list : ListIndex) :
    ((setIdle s c idle list).creature c).kind = (s.creature c).kind ∧
      ((setIdle s c idle list).creature c).health = (s.creature c).health ∧
      ((setIdle s c idle list).creature c).isInternalRemoved =
        (s.creature c).isInternalRemoved ∧
      ((setIdle s c idle list).creature c).isDeleted = (s.creature c).isDeleted := by
  unfold setIdle
  dsimp only
  split
  · exact ⟨rfl, rfl, rfl, rfl⟩
  · split
    · rw [removeCreatureCheck_creature, State.creature_modify_self]
      exact ⟨rfl, rfl, rfl, rfl⟩
    · rw [addCreatureCheck_creature, State.creature_modify_self]
      exact ⟨rfl, rfl, rfl, rfl⟩

/-- A monster that is woken while it is alive and on the map is in a list. -/
theorem setIdle_wakes (hremoved : (s.creature c).isInternalRemoved = false)
    (hhealth : 0 < (s.creature c).health) (list : ListIndex) :
    ((setIdle s c false list).creature c).Checked := by
  unfold setIdle
  rw [if_neg (by simp [hremoved, hhealth])]
  simp only [Bool.false_eq_true, if_false, addCreatureCheck_creature]
  exact ⟨rfl, rfl⟩

theorem setIdle_sleeps (hremoved : (s.creature c).isInternalRemoved = false)
    (hhealth : 0 < (s.creature c).health) (list : ListIndex) :
    ((setIdle s c true list).creature c).isIdle = true := by
  unfold setIdle
  rw [if_neg (by simp [hremoved, hhealth])]
  simp only [if_true, removeCreatureCheck_creature, State.creature_modify_self]

theorem setIdle_of_dead (h : (s.creature c).isInternalRemoved = true ∨
    (s.creature c).health ≤ 0) (idle : Bool) (list : ListIndex) : setIdle s c idle list = s := by
  unfold setIdle
  rw [if_pos h]

theorem setIdle_due (h : DueListed s) (hc : c < s.size)
    (hmonster : (s.creature c).kind = .monster) (idle : Bool) (list : ListIndex) :
    DueListed (setIdle s c idle list) := by
  refine h.onlyAt (setIdle_touches s c idle list).only fun hawake => ?_
  obtain ⟨hkind, hhealth, hremoved, -⟩ := setIdle_same s c idle list
  by_cases hdead : (s.creature c).isInternalRemoved = true ∨ (s.creature c).health ≤ 0
  · rw [setIdle_of_dead hdead] at hawake ⊢
    exact h c ⟨hc, hawake⟩
  · obtain ⟨hplaced, halive⟩ := not_or.mp hdead
    rw [Bool.not_eq_true] at hplaced
    rw [not_le] at halive
    cases idle with
    | false => exact setIdle_wakes hplaced halive list
    | true =>
      have hidle := setIdle_sleeps hplaced halive list
      rcases hawake.2 with hne | hwake | hdied
      · exact absurd (hkind.trans hmonster) hne
      · rw [hidle] at hwake
        exact Bool.noConfusion hwake
      · rw [hhealth] at hdied
        omega

theorem changeHealth_touches (s : State) (c : CreatureId) (healthChange : ℤ) (list : ListIndex) :
    Touches c s (changeHealth s c healthChange list) := by
  unfold changeHealth
  dsimp only
  split
  · exact (setIdle_touches s c false list).trans (touches_modify _ c _)
  · exact touches_modify s c _

theorem changeHealth_listed (h : Listed s) (hc : s.Exists c) (healthChange : ℤ)
    (list : ListIndex) : Listed (changeHealth s c healthChange list) := by
  have hmod : ∀ t : State, Listed t → c < t.size → Listed (t.modify c fun x =>
      if 0 < healthChange then
        { x with health := x.health + min healthChange (x.healthMax - x.health) }
      else { x with health := max 0 (x.health + healthChange) }) := by
    intro t ht hct
    split
    · exact ht.modify hct (fun _ => rfl) (fun _ => rfl) rfl (fun hdel => ht.deleted c hdel)
    · exact ht.modify hct (fun _ => rfl) (fun _ => rfl) rfl (fun hdel => ht.deleted c hdel)
  unfold changeHealth
  dsimp only
  split
  · refine hmod _ (setIdle_listed h hc false list) ?_
    rw [(setIdle_touches s c false list).only.size]
    exact hc.1
  · exact hmod s h hc.1

/-- A monster is awake and in a list before its health can reach zero. -/
theorem changeHealth_due (h : DueListed s) (hc : c < s.size) (healthChange : ℤ)
    (list : ListIndex) : DueListed (changeHealth s c healthChange list) := by
  refine h.onlyAt (changeHealth_touches s c healthChange list).only fun hawake => ?_
  have hread : ∀ t : State, (((t.modify c fun x =>
      if 0 < healthChange then
        { x with health := x.health + min healthChange (x.healthMax - x.health) }
      else { x with health := max 0 (x.health + healthChange) }).creature c).Checked ↔
        (t.creature c).Checked) ∧
      ((t.modify c fun x => if 0 < healthChange then
        { x with health := x.health + min healthChange (x.healthMax - x.health) }
      else { x with health := max 0 (x.health + healthChange) }).creature c).isInternalRemoved =
        (t.creature c).isInternalRemoved := by
    intro t
    rw [State.creature_modify_self]
    split <;> exact ⟨Iff.rfl, rfl⟩
  have hplaced := hawake.1
  unfold changeHealth at hplaced ⊢
  dsimp only at hplaced ⊢
  split at hplaced
  · rename_i hmonster
    rw [if_pos hmonster]
    rw [(hread _).2, (setIdle_same s c false list).2.2.1] at hplaced
    rw [(hread _).1]
    by_cases halive : 0 < (s.creature c).health
    · exact setIdle_wakes hplaced halive list
    · rw [setIdle_of_dead (Or.inr (not_lt.mp halive))]
      exact h c ⟨hc, hplaced, Or.inr (Or.inr (not_lt.mp halive))⟩
  · rename_i hmonster
    rw [if_neg hmonster]
    rw [(hread _).2] at hplaced
    rw [(hread _).1]
    exact h c ⟨hc, hplaced, Or.inl hmonster⟩

/-! ## Coming and going -/

@[simp] theorem creature_ReleaseCreature (s : State) (c : CreatureId) :
    (ReleaseCreature s c).creature = s.creature := rfl

/-- A creature leaves the map: its reference goes to `ToReleaseCreatures`. -/
theorem Listed.leaveMap (h : Listed s) (hc : s.Placed c) :
    Listed (ReleaseCreature (s.modify c fun x => { x with isInternalRemoved := true }) c) := by
  generalize ht : ReleaseCreature _ _ = t
  have hself : t.creature c = { s.creature c with isInternalRemoved := true } := by
    rw [← ht]
    exact Function.update_self ..
  have hother : ∀ x, x ≠ c → t.creature x = s.creature x := by
    intro x hx
    rw [← ht]
    exact Function.update_of_ne hx ..
  have hsize : t.size = s.size := by rw [← ht]; rfl
  have hrelease : t.ToReleaseCreatures = s.ToReleaseCreatures ++ [c] := by rw [← ht]; rfl
  have hlists : t.checkCreatureLists = s.checkCreatureLists := by rw [← ht]; rfl
  have hflag : ∀ x, (t.creature x).inCheckCreaturesVector =
      (s.creature x).inCheckCreaturesVector := by
    intro x
    by_cases hx : x = c
    · subst hx
      rw [hself]
    · rw [hother x hx]
  refine ⟨by rw [hlists]; exact h.nodup, by rw [hlists]; exact h.unique, fun x => ?_, fun x => ?_,
    fun x hx => ?_, fun x hx => ?_⟩
  · rw [hflag, hlists]
    exact h.flag x
  · have hcount := h.counted x
    rw [hrelease, hflag, List.count_append]
    by_cases hx : x = c
    · subst hx
      have hnot : ¬ t.Placed x := by simp [State.Placed, hself]
      rw [if_pos hc] at hcount
      rw [if_neg hnot, hself]
      simp only [hcount, List.count_singleton_self]
      omega
    · have hplaced : t.Placed x ↔ s.Placed x := by
        unfold State.Placed
        rw [hsize, hother x hx]
      simp only [hplaced, hother x hx, List.count_singleton, Ne.symm hx, beq_iff_eq, if_false]
      simpa using hcount
  · by_cases hxc : x = c
    · subst hxc
      rw [hself] at hx ⊢
      exact h.deleted x hx
    · rw [hother x hxc] at hx ⊢
      exact h.deleted x hx
  · rw [hsize] at hx
    have hxc : x ≠ c := by
      rintro rfl
      exact absurd hc.1 (Nat.not_lt.mpr hx)
    rw [hother x hxc]
    exact h.fresh x hx

theorem removeCreature_touches (s : State) (c : CreatureId) :
    Touches c s (removeCreature s c) := by
  have hrelease : ∀ t : State, Touches c t (ReleaseCreature t c) := fun t =>
    ⟨⟨rfl, fun _ _ => rfl⟩, rfl, rfl, fun _ => List.prefix_refl _⟩
  have hidle : Touches c s (if (s.creature c).kind = .monster then setIdle s c true 0 else s) := by
    split
    · exact setIdle_touches s c true 0
    · exact Touches.refl c s
  unfold removeCreature
  dsimp only
  split
  · exact Touches.refl c s
  · exact ((hidle.trans (touches_modify _ c _)).trans (hrelease _)).trans
      (removeCreatureCheck_touches _ c)

theorem removeCreature_listed (h : Listed s) (hc : s.Exists c) :
    Listed (removeCreature s c) := by
  unfold removeCreature
  dsimp only
  split
  · exact h
  · rename_i hplaced
    have hidle : Listed (if (s.creature c).kind = .monster then setIdle s c true 0 else s) ∧
        (if (s.creature c).kind = .monster then setIdle s c true 0 else s).Placed c := by
      split
      · refine ⟨setIdle_listed h hc true 0, ?_, ?_⟩
        · rw [(setIdle_touches s c true 0).only.size]
          exact hc.1
        · rw [(setIdle_same s c true 0).2.2.1]
          simpa using hplaced
      · exact ⟨h, hc.1, by simpa using hplaced⟩
    exact removeCreatureCheck_listed (hidle.1.leaveMap hidle.2) hidle.2.1

/-- Whoever was removed has nothing to do any more. -/
theorem removeCreature_due (h : DueListed s) (c : CreatureId) :
    DueListed (removeCreature s c) := by
  refine h.onlyAt (removeCreature_touches s c).only fun hawake => ?_
  have hplaced := hawake.1
  unfold removeCreature at hplaced hawake ⊢
  dsimp only at hplaced hawake ⊢
  split at hplaced
  · rename_i hremoved
    rw [hplaced] at hremoved
    exact Bool.noConfusion hremoved
  · rw [removeCreatureCheck_creature] at hplaced
    simp at hplaced

theorem placeCreature_listed (h : Listed s) (kind : CreatureKind) (health healthMax : ℤ)
    (list : ListIndex) : Listed (placeCreature s kind health healthMax list) := by
  unfold placeCreature
  dsimp only
  set x : Creature := { kind := kind, health := health, healthMax := healthMax
                        referenceCounter := 1 } with hx
  set made : State := { s with size := s.size + 1, creature := Function.update s.creature s.size x }
    with hmade
  have hnew := h.fresh s.size le_rfl
  have hself : made.creature s.size = x := Function.update_self ..
  have hother : ∀ y, y ≠ s.size → made.creature y = s.creature y := fun y hy =>
    Function.update_of_ne hy ..
  have hflag : ∀ y, (made.creature y).inCheckCreaturesVector =
      (s.creature y).inCheckCreaturesVector := by
    intro y
    by_cases hy : y = s.size
    · subst hy
      rw [hself, hnew]
    · rw [hother y hy]
  have hexists : made.Exists s.size := ⟨Nat.lt_succ_self _, by rw [hself]⟩
  suffices hlisted : Listed made from addCreatureCheck_listed hlisted hexists list
  refine ⟨h.nodup, h.unique, fun y => ?_, fun y => ?_, fun y hy => ?_, fun y hy => ?_⟩
  · rw [hflag]
    exact h.flag y
  · have hcount := h.counted y
    rw [hflag]
    by_cases hy : y = s.size
    · subst hy
      have hnot : ¬ s.Placed s.size := fun hp => Nat.lt_irrefl _ hp.1
      have hplaced : made.Placed s.size := ⟨Nat.lt_succ_self _, by rw [hself]⟩
      rw [if_neg hnot, hnew] at hcount
      rw [if_pos hplaced, hself, hnew]
      have hrelease : made.ToReleaseCreatures = s.ToReleaseCreatures := rfl
      have hzero : s.ToReleaseCreatures.count s.size = 0 := by simpa using hcount.symm
      simp [hx, hrelease, hzero]
    · have hplaced : made.Placed y ↔ s.Placed y := by
        unfold State.Placed
        rw [hother y hy]
        have hlt : y < s.size + 1 ↔ y < s.size := by
          rw [Nat.lt_succ_iff]
          exact ⟨fun hle => lt_of_le_of_ne hle hy, le_of_lt⟩
        exact and_congr_left fun _ => hlt
      simp only [hplaced, hother y hy]
      exact hcount
  · by_cases hys : y = s.size
    · subst hys
      rw [hself] at hy
      exact Bool.noConfusion hy
    · rw [hother y hys] at hy ⊢
      exact h.deleted y hy
  · have hle : s.size + 1 ≤ y := hy
    rw [hother y (Nat.ne_of_gt hle)]
    exact h.fresh y (Nat.le_of_succ_le hle)

theorem placeCreature_due (h : DueListed s) (kind : CreatureKind) (health healthMax : ℤ)
    (list : ListIndex) : DueListed (placeCreature s kind health healthMax list) := by
  unfold placeCreature
  dsimp only
  set x : Creature := { kind := kind, health := health, healthMax := healthMax
                        referenceCounter := 1 }
  set made : State := { s with size := s.size + 1, creature := Function.update s.creature s.size x }
    with hmade
  have htouch := addCreatureCheck_touches made s.size list
  intro y hy
  by_cases hys : y = s.size
  · subst hys
    rw [addCreatureCheck_creature]
    exact ⟨rfl, rfl⟩
  · have hsame : (addCreatureCheck made s.size list).creature y = s.creature y :=
      (htouch.only.creature y hys).trans (Function.update_of_ne hys ..)
    have hlt : y < s.size + 1 := by
      have := hy.1
      rwa [htouch.only.size] at this
    rw [hsame]
    refine h y ⟨lt_of_le_of_ne (Nat.lt_succ_iff.mp hlt) hys, ?_⟩
    rw [← hsame]
    exact hy.2

/-! ## References -/

/-- The reference that is given back is one of those that `released` has. -/
theorem Listed.giveBack (h : Listed s) {t : State} (hsize : t.size = s.size)
    (hlists : t.checkCreatureLists = s.checkCreatureLists)
    (hother : ∀ x, x ≠ c → t.creature x = s.creature x)
    (hself : t.creature c = { s.creature c with
      referenceCounter := (s.creature c).referenceCounter - 1
      otherReferences := (t.creature c).otherReferences
      isDeleted := (s.creature c).isDeleted ||
        decide ((s.creature c).referenceCounter - 1 = 0) })
    (hcount : ∀ x, (((t.creature x).otherReferences : ℤ) + t.ToReleaseCreatures.count x =
      (s.creature x).otherReferences + s.ToReleaseCreatures.count x - if x = c then 1 else 0))
    (hc : c < s.size) : Listed t := by
  have hflag : ∀ x, (t.creature x).inCheckCreaturesVector =
      (s.creature x).inCheckCreaturesVector := by
    intro x
    by_cases hx : x = c
    · subst hx
      rw [hself]
    · rw [hother x hx]
  have hplaced : ∀ x, t.Placed x ↔ s.Placed x := by
    intro x
    unfold State.Placed
    rw [hsize]
    by_cases hx : x = c
    · subst hx
      rw [hself]
    · rw [hother x hx]
  have hcounted : ∀ x, (t.creature x).referenceCounter = (t.creature x).otherReferences +
      t.ToReleaseCreatures.count x + (if t.Placed x then 1 else 0) +
      (if (t.creature x).inCheckCreaturesVector = true then 1 else 0) := by
    intro x
    have h1 := h.counted x
    have h2 := hcount x
    rw [hflag]
    simp only [hplaced]
    by_cases hx : x = c
    · subst hx
      have hreference : (t.creature x).referenceCounter = (s.creature x).referenceCounter - 1 := by
        rw [hself]
      rw [if_pos rfl] at h2
      rw [hreference]
      omega
    · rw [if_neg hx] at h2
      have hreference : (t.creature x).referenceCounter = (s.creature x).referenceCounter := by
        rw [hother x hx]
      rw [hreference]
      omega
  refine ⟨by rw [hlists]; exact h.nodup, by rw [hlists]; exact h.unique, fun x => ?_, hcounted,
    fun x hx => ?_, fun x hx => ?_⟩
  · rw [hflag, hlists]
    exact h.flag x
  · by_cases hxc : x = c
    · subst hxc
      have hpos : 0 ≤ (t.creature x).referenceCounter := by
        rw [hcounted]
        split <;> split <;> omega
      rw [hself] at hx hpos ⊢
      rcases Bool.or_eq_true_iff.mp hx with hdel | hzero
      · have := h.deleted x hdel
        simp only at hpos
        omega
      · simpa using hzero
    · rw [hother x hxc] at hx ⊢
      exact h.deleted x hx
  · rw [hsize] at hx
    have hxc : x ≠ c := by
      rintro rfl
      exact absurd hc (Nat.not_lt.mpr hx)
    rw [hother x hxc]
    exact h.fresh x hx

/-- Who has something to do and who is in a list to be thought for is the same in both. -/
structure SameDuties (s t : State) : Prop where
  size : t.size = s.size
  awake : ∀ x, (t.creature x).Awake ↔ (s.creature x).Awake
  checked : ∀ x, (t.creature x).Checked ↔ (s.creature x).Checked

theorem SameDuties.due (h : SameDuties s t) (x : CreatureId) : Due t x ↔ Due s x := by
  unfold Due
  rw [h.size, h.awake]

theorem SameDuties.dueListed (h : SameDuties s t) (hs : DueListed s) : DueListed t := by
  intro x hx
  rw [h.checked]
  exact hs x ((h.due x).mp hx)

theorem sameDuties_modify {f : Creature → Creature} (hawake : ∀ x, (f x).Awake ↔ x.Awake)
    (hchecked : ∀ x, (f x).Checked ↔ x.Checked) (s : State) (c : CreatureId) :
    SameDuties s (s.modify c f) := by
  refine ⟨rfl, fun x => ?_, fun x => ?_⟩
  · by_cases hx : x = c
    · subst hx
      rw [State.creature_modify_self, hawake]
    · rw [State.creature_modify_of_ne hx]
  · by_cases hx : x = c
    · subst hx
      rw [State.creature_modify_self, hchecked]
    · rw [State.creature_modify_of_ne hx]

theorem decrementReferenceCounter_self (s : State) (c : CreatureId) :
    (decrementReferenceCounter s c).creature c = { s.creature c with
      referenceCounter := (s.creature c).referenceCounter - 1
      isDeleted := (s.creature c).isDeleted ||
        decide ((s.creature c).referenceCounter - 1 = 0) } := by
  unfold decrementReferenceCounter
  rw [State.creature_modify_self]

theorem decrementReferenceCounter_of_ne (hx : x ≠ c) :
    (decrementReferenceCounter s c).creature x = s.creature x := by
  unfold decrementReferenceCounter
  rw [State.creature_modify_of_ne hx]

theorem decrementReferenceCounter_sameDuties (s : State) (c : CreatureId) :
    SameDuties s (decrementReferenceCounter s c) := by
  unfold decrementReferenceCounter
  apply sameDuties_modify <;> exact fun _ => Iff.rfl

theorem giveReferenceBack_listed (h : Listed s)
    (hc : s.Exists c ∧ 0 < (s.creature c).otherReferences) :
    Listed (act s (.giveReferenceBack c)) := by
  unfold act decrementReferenceCounter
  have hself : ∀ f g : Creature → Creature, ((s.modify c f).modify c g).creature c =
      g (f (s.creature c)) := by
    intro f g
    rw [State.creature_modify_self, State.creature_modify_self]
  refine h.giveBack (c := c) rfl rfl (fun x hx => ?_) ?_ (fun x => ?_) hc.1.1
  · rw [State.creature_modify_of_ne hx, State.creature_modify_of_ne hx]
  · rw [hself]
  · by_cases hx : x = c
    · subst hx
      rw [hself, if_pos rfl]
      have hrelease : ∀ f g : Creature → Creature,
          ((s.modify x f).modify x g).ToReleaseCreatures = s.ToReleaseCreatures := fun _ _ => rfl
      rw [hrelease]
      have hpos := hc.2
      dsimp only
      omega
    · rw [State.creature_modify_of_ne hx, State.creature_modify_of_ne hx, if_neg hx, Int.sub_zero]
      rfl

/-- The references of the creatures in `L` are given back one after the other. -/
theorem foldl_decrement_listed : ∀ {L : List CreatureId} {s : State},
    Listed { s with ToReleaseCreatures := L } →
    Listed { L.foldl decrementReferenceCounter s with ToReleaseCreatures := [] } := by
  intro L
  induction L with
  | nil => exact fun h => h
  | cons c rest ih =>
    intro s h
    have hc : c < s.size := by
      by_contra hsize
      have hcount := h.counted c
      rw [h.fresh c (Nat.not_lt.mp hsize)] at hcount
      have hplaced : ¬ State.Placed { s with ToReleaseCreatures := c :: rest } c :=
        fun hp => hsize hp.1
      rw [if_neg hplaced] at hcount
      simp at hcount
      omega
    refine ih (h.giveBack (c := c) rfl rfl (fun x hx => ?_) ?_ (fun x => ?_) hc)
    · exact decrementReferenceCounter_of_ne hx
    · dsimp only
      rw [decrementReferenceCounter_self]
    · have hothers : ((decrementReferenceCounter s c).creature x).otherReferences =
          (s.creature x).otherReferences := by
        by_cases hx : x = c
        · subst hx
          rw [decrementReferenceCounter_self]
        · rw [decrementReferenceCounter_of_ne hx]
      simp only [hothers, List.count_cons, beq_iff_eq, @eq_comm _ c x]
      split <;> omega

theorem cleanup_listed (h : Listed s) : Listed (cleanup s) := foldl_decrement_listed h

theorem foldl_decrement_sameDuties (L : List CreatureId) : ∀ s : State,
    SameDuties s (L.foldl decrementReferenceCounter s) := by
  induction L with
  | nil => exact fun s => ⟨rfl, fun _ => Iff.rfl, fun _ => Iff.rfl⟩
  | cons c rest ih =>
    intro s
    have hfirst := decrementReferenceCounter_sameDuties s c
    have hrest := ih (decrementReferenceCounter s c)
    exact ⟨hrest.size.trans hfirst.size, fun x => (hrest.awake x).trans (hfirst.awake x),
      fun x => (hrest.checked x).trans (hfirst.checked x)⟩

theorem foldl_decrement_lists (L : List CreatureId) : ∀ s : State,
    (L.foldl decrementReferenceCounter s).checkCreatureLists = s.checkCreatureLists ∧
      (L.foldl decrementReferenceCounter s).nextIndex = s.nextIndex := by
  induction L with
  | nil => exact fun s => ⟨rfl, rfl⟩
  | cons c rest ih => exact fun s => ih (decrementReferenceCounter s c)

/-! ## A visit -/

theorem dropEntry_creature (s : State) (i : ListIndex) (k : ℕ) (c : CreatureId) :
    (dropEntry s i k c).creature =
      (s.modify c fun x => { x with inCheckCreaturesVector := false }).creature := rfl

/-- An entry is dropped; its reference goes to `ToReleaseCreatures`. -/
theorem Listed.leave (h : Listed s) (hc : (s.checkCreatureLists i)[k]? = some c) :
    Listed (dropEntry s i k c) := by
  generalize ht : dropEntry s i k c = t
  obtain ⟨hk, hget⟩ := List.getElem?_eq_some_iff.mp hc
  have hin : c ∈ s.checkCreatureLists i := List.mem_of_getElem? hc
  have hflag : (s.creature c).inCheckCreaturesVector = true := (h.flag c).mpr ⟨i, hin⟩
  have hself : t.creature c = { s.creature c with inCheckCreaturesVector := false } := by
    rw [← ht, dropEntry_creature, State.creature_modify_self]
  have hother : ∀ x, x ≠ c → t.creature x = s.creature x := by
    intro x hx
    rw [← ht, dropEntry_creature, State.creature_modify_of_ne hx]
  have hsize : t.size = s.size := by rw [← ht]; rfl
  have hrelease : t.ToReleaseCreatures = s.ToReleaseCreatures ++ [c] := by rw [← ht]; rfl
  have hlist : t.checkCreatureLists i = (s.checkCreatureLists i).erase c := by
    have hidx : (s.checkCreatureLists i).erase c = (s.checkCreatureLists i).eraseIdx k := by
      rw [← hget]
      exact List.Nodup.erase_getElem (h.nodup i) k hk
    rw [hidx, ← ht]
    exact State.checkCreatureLists_setList_self ..
  have hlists : ∀ j, j ≠ i → t.checkCreatureLists j = s.checkCreatureLists j := by
    intro j hj
    rw [← ht]
    exact State.checkCreatureLists_setList_of_ne hj
  have hmem : ∀ x j, x ∈ t.checkCreatureLists j ↔ x ∈ s.checkCreatureLists j ∧ x ≠ c := by
    intro x j
    by_cases hj : j = i
    · subst hj
      rw [hlist, (h.nodup j).mem_erase_iff]
      exact and_comm
    · rw [hlists j hj]
      refine (and_iff_left_of_imp ?_).symm
      rintro hx rfl
      exact hj (h.unique x j i hx hin)
  have hplaced : ∀ x, t.Placed x ↔ s.Placed x := by
    intro x
    unfold State.Placed
    rw [hsize]
    by_cases hx : x = c
    · subst hx
      rw [hself]
    · rw [hother x hx]
  refine ⟨fun j => ?_, fun x j l hj hl => ?_, fun x => ?_, fun x => ?_, fun x hx => ?_,
    fun x hx => ?_⟩
  · by_cases hj : j = i
    · subst hj
      rw [hlist]
      exact (h.nodup j).erase c
    · rw [hlists j hj]
      exact h.nodup j
  · exact h.unique x j l ((hmem x j).mp hj).1 ((hmem x l).mp hl).1
  · simp only [hmem]
    by_cases hx : x = c
    · subst hx
      rw [hself]
      simp
    · rw [hother x hx, h.flag]
      simp [hx]
  · have hcount := h.counted x
    simp only [hplaced, hrelease, List.count_append]
    by_cases hx : x = c
    · subst hx
      rw [if_pos hflag] at hcount
      rw [hself]
      simp only [hcount, List.count_singleton_self]
      simp
      omega
    · rw [hother x hx, hcount]
      simp [Ne.symm hx]
  · by_cases hxc : x = c
    · subst hxc
      rw [hself] at hx ⊢
      exact h.deleted x hx
    · rw [hother x hxc] at hx ⊢
      exact h.deleted x hx
  · rw [hsize] at hx
    have hxc : x ≠ c := by
      rintro rfl
      rw [h.fresh x hx] at hflag
      exact Bool.noConfusion hflag
    rw [hother x hxc]
    exact h.fresh x hx

/-- How often list `j` is gone through in `n` passes, the first of them over list `i`. -/
def hits (j : ListIndex) : ListIndex → ℕ → ℕ
  | _, 0 => 0
  | i, n + 1 => (if i = j then 1 else 0) + hits j (i + 1) n

/-- Ten passes go through each list once. -/
theorem hits_cycle : ∀ i j : ListIndex, hits j i EVENT_CREATURECOUNT = 1 := by decide

end TibiaServer.World.CreatureChecks
