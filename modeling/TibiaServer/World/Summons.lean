import Mathlib.Algebra.BigOperators.Group.Finset.Basic
import TibiaServer.World.Position
/-!
# Summons and their masters

A creature points to its master and a master lists its summons; the master's entry holds one
of the references that keep a summon allocated.  A creature is deleted when its last reference
is given back, and its destructor then lets its own summons go, which may delete some of them.

The references that the rest of the server takes on a creature (for being on the map, in a
list of creatures to check, in a target list, in a script) are counted in `otherReferences`,
which the code does not have; it has only their sum with the master's.
-/

namespace TibiaServer.World.Summons

abbrev CreatureId := ℕ

inductive CreatureKind where
  | player (canConvinceAll : Bool)
  | monster (isConvinceable : Bool)
  | npc
  deriving DecidableEq

@[ext] structure Creature where
  kind : CreatureKind := .npc
  health : ℤ := 0
  healthMax : ℤ := 0
  master : Option CreatureId := none
  summons : List CreatureId := []
  inCheckCreaturesVector : Bool := false
  isInternalRemoved : Bool := false
  referenceCounter : ℤ := 0
  otherReferences : ℕ := 0
  isDeleted : Bool := false

def Creature.isMonster (x : Creature) : Bool :=
  match x.kind with
  | .monster _ => true
  | _ => false

def Creature.isPlayer (x : Creature) : Bool :=
  match x.kind with
  | .player _ => true
  | _ => false

/-- The creatures made so far are those below `size`. -/
@[ext] structure State where
  size : ℕ
  creature : CreatureId → Creature

namespace State

def start : State := { size := 0, creature := fun _ => {} }

def modify (s : State) (c : CreatureId) (f : Creature → Creature) : State :=
  { s with creature := Function.update s.creature c (f (s.creature c)) }

@[simp] theorem size_modify (s : State) (c : CreatureId) (f : Creature → Creature) :
    (s.modify c f).size = s.size := rfl

@[simp] theorem creature_modify_self (s : State) (c : CreatureId) (f : Creature → Creature) :
    (s.modify c f).creature c = f (s.creature c) := Function.update_self ..

theorem creature_modify_of_ne {s : State} {c x : CreatureId} {f : Creature → Creature}
    (h : x ≠ c) : (s.modify c f).creature x = s.creature x := Function.update_of_ne h ..

/-- A field that `f` leaves alone. -/
theorem read_modify {β : Type*} (read : Creature → β) {f : Creature → Creature}
    (h : ∀ x, read (f x) = read x) (s : State) (c x : CreatureId) :
    read ((s.modify c f).creature x) = read (s.creature x) := by
  by_cases hx : x = c
  · subst hx
    rw [creature_modify_self, h]
  · rw [creature_modify_of_ne hx]

/-- The entries of all the lists of summons. -/
def entries (s : State) : ℕ := ∑ c ∈ Finset.range s.size, (s.creature c).summons.length

/-- The creature is on the map. -/
def Placed (s : State) (c : CreatureId) : Prop :=
  c < s.size ∧ (s.creature c).isInternalRemoved = false

/-- A pointer to the creature may still be used. -/
def Exists (s : State) (c : CreatureId) : Prop :=
  c < s.size ∧ (s.creature c).isDeleted = false

instance (s : State) (c : CreatureId) : Decidable (s.Placed c) :=
  inferInstanceAs (Decidable (_ ∧ _))

instance (s : State) (c : CreatureId) : Decidable (s.Exists c) :=
  inferInstanceAs (Decidable (_ ∧ _))

end State

/-! ## References -/

def incrementReferenceCounter (s : State) (c : CreatureId) : State :=
  s.modify c fun x => { x with referenceCounter := x.referenceCounter + 1 }

/-- One of the other parts of the server takes a reference. -/
def takeReference (s : State) (c : CreatureId) : State :=
  s.modify c fun x =>
    { x with referenceCounter := x.referenceCounter + 1, otherReferences := x.otherReferences + 1 }

/-- `--referenceCounter`; at zero the creature is deleted, and its destructor has the summons
that are returned still to let go. -/
def decrement (s : State) (c : CreatureId) : State × List CreatureId :=
  if (s.creature c).referenceCounter - 1 = 0 then
    (s.modify c fun x => { x with referenceCounter := 0, summons := [], isDeleted := true },
      (s.creature c).summons)
  else
    (s.modify c fun x => { x with referenceCounter := x.referenceCounter - 1 }, [])

/-- `removeMaster` of one creature after the other.  The summons of a creature that is deleted
on the way come before the rest of the list: its destructor runs first. -/
def removeMasters : ℕ → State → List CreatureId → Option State
  | _, s, [] => some s
  | 0, _, _ :: _ => none
  | fuel + 1, s, c :: rest =>
    if (s.creature c).master = none then
      removeMasters fuel s rest
    else
      let (t, own) := decrement (s.modify c fun x => { x with master := none }) c
      removeMasters fuel t (own ++ rest)

def removeMaster (s : State) (c : CreatureId) : Option State :=
  removeMasters (s.entries + 1) s [c]

def decrementReferenceCounter (s : State) (c : CreatureId) : Option State :=
  let (t, own) := decrement s c
  removeMasters (t.entries + own.length) t own

/-! ## Masters and summons -/

/-- The new master's entry and its reference, and the pointer. -/
def directTo (s : State) (c : CreatureId) (newMaster : Option CreatureId) : State :=
  let joined := match newMaster with
    | some m => (incrementReferenceCounter s c).modify m fun x =>
      { x with summons := x.summons ++ [c] }
    | none => s
  joined.modify c fun x => { x with master := newMaster }

def setMaster (s : State) (c : CreatureId) (newMaster : Option CreatureId) : Option State :=
  let oldMaster := (s.creature c).master
  if newMaster = none ∧ oldMaster = none then
    some s
  else
    let directed := directTo s c newMaster
    match oldMaster with
    | none => some directed
    | some m =>
      if c ∈ (directed.creature m).summons then
        decrementReferenceCounter
          (directed.modify m fun x => { x with summons := x.summons.erase c }) c
      else
        some directed

def addCreatureCheck (s : State) (c : CreatureId) : State :=
  if (s.creature c).inCheckCreaturesVector then s
  else (takeReference s c).modify c fun x => { x with inCheckCreaturesVector := true }

/-- `changeHealth`; a monster that is on the map and alive is first made to think again. -/
def changeHealth (s : State) (c : CreatureId) (healthChange : ℤ) : State :=
  let x := s.creature c
  let awake := if x.isMonster && !x.isInternalRemoved && decide (0 < x.health) then
    addCreatureCheck s c else s
  awake.modify c fun x =>
    if 0 < healthChange then
      { x with health := x.health + min healthChange (x.healthMax - x.health) }
    else
      { x with health := max 0 (x.health + healthChange) }

/-- The loop over the summons of a monster that dies or is convinced. -/
def killEach : State → List CreatureId → Option State
  | s, [] => some s
  | s, c :: rest =>
    (removeMaster (changeHealth s c (-(s.creature c).health)) c).bind fun t => killEach t rest

/-- The loop, and `summons.clear()`. -/
def killSummons (s : State) (c : CreatureId) : Option State :=
  (killEach s (s.creature c).summons).map fun t => t.modify c fun x => { x with summons := [] }

/-- Only monsters can be convinced. -/
def convinceCreature (s : State) (c convincer : CreatureId) : Option State :=
  let x := s.creature c
  let refused := match (s.creature convincer).kind, x.kind with
    | .player false, .monster isConvinceable => !isConvinceable
    | _, _ => false
  let held := match x.master with
    | none => false
    | some m => (s.creature m).isPlayer || m == convincer
  if !x.isMonster || refused || held then some s
  else (setMaster s c (some convincer)).bind fun t => killSummons t c

/-! ## Death and removal -/

/-- What `onRemoveCreature` does for the creature that is removed itself. -/
def onRemoveCreature (s : State) (c : CreatureId) : Option State :=
  match (s.creature c).master with
  | some m => if (s.creature m).isInternalRemoved then some s else setMaster s c none
  | none => some s

/-- `Game::removeCreature` of one creature after the other; the summons of a creature that was
removed are removed before the rest.  The reference of the map is given back later. -/
def removeCreatures : ℕ → State → List CreatureId → Option State
  | _, s, [] => some s
  | 0, _, _ :: _ => none
  | fuel + 1, s, c :: rest =>
    if (s.creature c).isInternalRemoved then
      removeCreatures fuel s rest
    else
      (onRemoveCreature s c).bind fun t =>
        let u := t.modify c fun x => { x with isInternalRemoved := true }
        removeCreatures fuel u ((u.creature c).summons ++ rest)

def removeCreature (s : State) (c : CreatureId) : Option State :=
  removeCreatures (s.entries + 1) s [c]

/-- `Creature::onDeath`: `death` (only monsters have one that matters here), the creature's own
master, and the removal once a corpse was dropped. -/
def onDeath (s : State) (c : CreatureId) (droppedCorpse : Bool) : Option State :=
  (if (s.creature c).isMonster then killSummons s c else some s).bind fun t =>
    (if (t.creature c).master = none then some t else setMaster t c none).bind fun u =>
      if droppedCorpse then removeCreature u c else some u

/-- More than two floors or thirty squares away. -/
def tooFar (newPos pos : Position) : Bool :=
  decide (2 < Position.getDistanceZ newPos pos) ||
    decide (30 < max (Position.getDistanceX newPos pos) (Position.getDistanceY newPos pos))

/-- A creature has moved to `newPos`; `positions` is where the creatures stand.  The list of
those to despawn is built at its front. -/
def onCreatureMove (s : State) (c : CreatureId) (newPos : Position)
    (positions : CreatureId → Position) : Option State :=
  let despawnList := ((s.creature c).summons.filter fun x => tooFar newPos (positions x)).reverse
  removeCreatures (s.entries + despawnList.length) s despawnList

/-! ## Runs -/

inductive Action where
  | internalPlaceCreature (kind : CreatureKind) (health healthMax : ℤ)
  | addCreatureCheck (c : CreatureId)
  /-- `checkCreatures` takes the creature out of its list. -/
  | leaveCheckList (c : CreatureId)
  | takeReference (c : CreatureId)
  | giveReferenceBack (c : CreatureId)
  | changeHealth (c : CreatureId) (healthChange : ℤ)
  | setMaster (c : CreatureId) (newMaster : Option CreatureId)
  | convinceCreature (c convincer : CreatureId)
  | onDeath (c : CreatureId) (droppedCorpse : Bool)
  | removeCreature (c : CreatureId)
  | onCreatureMove (c : CreatureId) (newPos : Position) (positions : CreatureId → Position)

/-- Pointers are used while the creature exists, the map keeps its reference while the creature
is on it, and a creature is no master of its own. -/
def Enabled (s : State) : Action → Prop
  | .internalPlaceCreature .. => True
  | .addCreatureCheck c => s.Placed c
  | .leaveCheckList c => s.Exists c
  | .takeReference c => s.Exists c
  | .giveReferenceBack c =>
    s.Exists c ∧ (if s.Placed c then 2 else 1) ≤ (s.creature c).otherReferences
  | .changeHealth c _ => s.Exists c
  | .setMaster c newMaster => s.Exists c ∧ ∀ m ∈ newMaster, s.Exists m ∧ m ≠ c
  | .convinceCreature c convincer => s.Placed c ∧ s.Exists convincer ∧ convincer ≠ c
  | .onDeath c _ => s.Placed c
  | .removeCreature c => s.Exists c
  | .onCreatureMove c _ _ => s.Placed c

instance (s : State) : (a : Action) → Decidable (Enabled s a)
  | .internalPlaceCreature .. => inferInstanceAs (Decidable True)
  | .addCreatureCheck c => inferInstanceAs (Decidable (s.Placed c))
  | .leaveCheckList c => inferInstanceAs (Decidable (s.Exists c))
  | .takeReference c => inferInstanceAs (Decidable (s.Exists c))
  | .giveReferenceBack c => inferInstanceAs (Decidable (s.Exists c ∧ _ ≤ _))
  | .changeHealth c _ => inferInstanceAs (Decidable (s.Exists c))
  | .setMaster c newMaster =>
    inferInstanceAs (Decidable (s.Exists c ∧ ∀ m ∈ newMaster, s.Exists m ∧ m ≠ c))
  | .convinceCreature c convincer =>
    inferInstanceAs (Decidable (s.Placed c ∧ s.Exists convincer ∧ convincer ≠ c))
  | .onDeath c _ => inferInstanceAs (Decidable (s.Placed c))
  | .removeCreature c => inferInstanceAs (Decidable (s.Exists c))
  | .onCreatureMove c _ _ => inferInstanceAs (Decidable (s.Placed c))

def act (s : State) : Action → Option State
  | .internalPlaceCreature kind health healthMax =>
    some (takeReference { size := s.size + 1
                          creature := Function.update s.creature s.size
                            { kind := kind, health := health, healthMax := healthMax } } s.size)
  | .addCreatureCheck c => some (addCreatureCheck s c)
  | .leaveCheckList c => some (s.modify c fun x => { x with inCheckCreaturesVector := false })
  | .takeReference c => some (takeReference s c)
  | .giveReferenceBack c =>
    decrementReferenceCounter
      (s.modify c fun x => { x with otherReferences := x.otherReferences - 1 }) c
  | .changeHealth c healthChange => some (changeHealth s c healthChange)
  | .setMaster c newMaster => setMaster s c newMaster
  | .convinceCreature c convincer => convinceCreature s c convincer
  | .onDeath c droppedCorpse => onDeath s c droppedCorpse
  | .removeCreature c => removeCreature s c
  | .onCreatureMove c newPos positions => onCreatureMove s c newPos positions

def step (s : State) (a : Action) : Option State :=
  if Enabled s a then act s a else none

end TibiaServer.World.Summons
