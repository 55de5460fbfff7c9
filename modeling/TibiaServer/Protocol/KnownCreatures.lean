import Mathlib.Data.Finset.Card
import Mathlib.Data.List.Range
import TibiaServer.Library.Run
import TibiaServer.World.Position
/-!
# The creatures that a client knows

The server keeps the ids that it has introduced to a client, and the client keeps them as
well: an introduction says whether the id is known and, when the set is full, which id the
client is to forget.  `checkCreatureAsKnown` looks for a creature that the player does not
see, in the order of the hash table, and the newcomer can be the first of these
(`always_mirrors_iff`).
-/

namespace TibiaServer.Protocol

open Library.Run World

/-- What `canSee` reads of a creature. -/
structure CreatureView where
  position : Position
  isRemoved : Bool := false
  isInGhostMode : Bool := false
  isInvisible : Bool := false
  isPlayer : Bool := false

/-- What `canSee` reads of the game: the player and `getCreatureByID`. -/
structure GameView where
  playerId : ℕ
  myPos : Position
  access : Bool := false
  canSeeInvisibility : Bool := false
  getCreatureByID : ℕ → Option CreatureView

namespace GameView

variable (g : GameView)

def canSeeCreature (id : ℕ) (creature : CreatureView) : Bool :=
  if id = g.playerId then true
  else if creature.isInGhostMode && !g.access then false
  else if !creature.isPlayer && !g.canSeeInvisibility && creature.isInvisible then false
  else true

def canSeePosition (pos : Position) : Bool :=
  if g.myPos.getZ ≤ 7 ∧ 7 < pos.getZ then false
  else if 8 ≤ g.myPos.getZ ∧ 2 < |g.myPos.getZ - pos.getZ| then false
  else
    let offsetz := g.myPos.getZ - pos.getZ
    g.myPos.getX - 8 + offsetz ≤ pos.getX && pos.getX ≤ g.myPos.getX + 9 + offsetz &&
      g.myPos.getY - 6 + offsetz ≤ pos.getY && pos.getY ≤ g.myPos.getY + 7 + offsetz

/-- Of the creature that `getCreatureByID` gives for an id. -/
def canSee (id : ℕ) : Bool :=
  match g.getCreatureByID id with
  | none => false
  | some creature =>
    if creature.isRemoved then false
    else if !g.canSeeCreature id creature then false
    else g.canSeePosition creature.position

end GameView

/-- The limit of `knownCreatureSet`. -/
def maxKnown : ℕ := 250

/-- The result is the set, `known` and `removedKnown`; a creature that is known leaves
`removedKnown` as it is and the message does not have it.  `order` is the order of the set
with `id` in the hash table. -/
def checkCreatureAsKnown (g : GameView) (knownCreatureSet : Finset ℕ) (order : List ℕ) (id : ℕ) :
    Finset ℕ × Bool × ℕ :=
  if id ∈ knownCreatureSet then (knownCreatureSet, true, 0)
  else
    let knownCreatureSet := insert id knownCreatureSet
    if maxKnown < knownCreatureSet.card then
      match order.find? fun other => !g.canSee other with
      | some removedKnown => (knownCreatureSet.erase removedKnown, false, removedKnown)
      | none =>
        match order with
        | first :: second :: _ =>
          let removedKnown := if first = id then second else first
          (knownCreatureSet.erase removedKnown, false, removedKnown)
        | _ => (knownCreatureSet, false, 0)
    else (knownCreatureSet, false, 0)

/-- What a client does with the message of `AddCreature`. -/
def receive (client : Finset ℕ) (known : Bool) (removedKnown id : ℕ) : Finset ℕ :=
  if known then client else insert id (client.erase removedKnown)

/-- `introduced` is the creature of the last introduction. -/
structure KnownCreatures where
  game : GameView
  knownCreatureSet : Finset ℕ := ∅
  client : Finset ℕ := ∅
  introduced : Option ℕ := none

namespace KnownCreatures

/-- Between the introductions creatures come, go and move, and so does the player. -/
inductive Action
  | change (game : GameView)
  | introduce (id : ℕ) (order : List ℕ)

/-- The id of a creature is not 0. -/
def step (s : KnownCreatures) : Action → Option KnownCreatures
  | .change game => some { s with game }
  | .introduce id order =>
    if id ≠ 0 ∧ order.Nodup ∧ order.toFinset = insert id s.knownCreatureSet then
      let (knownCreatureSet, known, removedKnown) :=
        checkCreatureAsKnown s.game s.knownCreatureSet order id
      some { s with
        knownCreatureSet
        client := receive s.client known removedKnown id
        introduced := some id }
    else none

/-- The creature introduced last is in the set, the set has not outgrown its limit and the
client has the same one. -/
structure Mirrors (s : KnownCreatures) : Prop where
  introduced : ∀ id, s.introduced = some id → id ∈ s.knownCreatureSet
  limit : s.knownCreatureSet.card ≤ maxKnown
  client : s.client = s.knownCreatureSet

/-- A newcomer to a full set is not the first in the order of the table that the player does
not see. -/
def Guarded (s : KnownCreatures) : Action → Prop
  | .change _ => True
  | .introduce id order => id ∉ s.knownCreatureSet → maxKnown ≤ s.knownCreatureSet.card →
      (order.find? fun other => !s.game.canSee other) ≠ some id

section Check

variable {g : GameView} {known : Finset ℕ} {order : List ℕ} {id : ℕ}

theorem check_known (h : id ∈ known) : checkCreatureAsKnown g known order id = (known, true, 0) :=
  if_pos h

theorem check_room (h : id ∉ known) (hroom : known.card < maxKnown) :
    checkCreatureAsKnown g known order id = (insert id known, false, 0) := by
  rw [checkCreatureAsKnown, if_neg h]
  dsimp only
  rw [if_neg]
  rw [Finset.card_insert_of_notMem h]
  omega

/-- A full set loses one creature of the order; when it is not the newcomer, it is one that
the set had before. -/
theorem check_full (h : id ∉ known) (hfull : known.card = maxKnown) (hnodup : order.Nodup)
    (horder : order.toFinset = insert id known) :
    ∃ removed ∈ insert id known,
      checkCreatureAsKnown g known order id = ((insert id known).erase removed, false, removed) ∧
      (removed = id ↔ (order.find? fun other => !g.canSee other) = some id) := by
  have hcard : (insert id known).card = maxKnown + 1 := by
    rw [Finset.card_insert_of_notMem h, hfull]
  rw [checkCreatureAsKnown, if_neg h]
  dsimp only
  rw [if_pos (by omega)]
  cases hfind : order.find? fun other => !g.canSee other with
  | some removed =>
    have hmem : removed ∈ insert id known :=
      horder ▸ List.mem_toFinset.mpr (List.mem_of_find?_eq_some hfind)
    exact ⟨removed, hmem, rfl, by simp⟩
  | none =>
    have hlength : order.length = maxKnown + 1 := by
      rw [← List.toFinset_card_of_nodup hnodup, horder, hcard]
    match order, hlength with
    | first :: second :: rest, _ =>
      have hne : first ≠ second := by
        intro heq
        simp [heq] at hnodup
      have hremoved : (if first = id then second else first) ≠ id := by
        split
        next heq => exact fun h => hne (heq.trans h.symm)
        next hne => exact hne
      refine ⟨_, ?_, rfl, iff_of_false hremoved (by simp)⟩
      rw [← horder, List.mem_toFinset]
      split <;> simp
    | [], hlength => exact absurd hlength (by simp [maxKnown])
    | [_], hlength => exact absurd hlength (by simp [maxKnown])

end Check

/-- With the ids of creatures only. -/
structure Good (s : KnownCreatures) : Prop where
  mirrors : s.Mirrors
  nonzero : 0 ∉ s.knownCreatureSet

theorem good_step (s : KnownCreatures) (a : Action) (t : KnownCreatures) (h : s.Good)
    (hguard : s.Guarded a) (hstep : s.step a = some t) : t.Good := by
  obtain ⟨hmirrors, hzero⟩ := h
  cases a with
  | change game =>
    obtain rfl := Option.some.inj hstep
    exact ⟨⟨hmirrors.introduced, hmirrors.limit, hmirrors.client⟩, hzero⟩
  | introduce id order =>
    simp only [step] at hstep
    split at hstep
    next horder =>
      obtain ⟨hid, hnodup, horder⟩ := horder
      obtain rfl := Option.some.inj hstep
      have hnew : 0 ∉ insert id s.knownCreatureSet := by
        rw [Finset.mem_insert, not_or]
        exact ⟨hid.symm, hzero⟩
      by_cases hknown : id ∈ s.knownCreatureSet
      · simp only [check_known hknown, receive, if_true]
        refine ⟨⟨fun other heq => ?_, hmirrors.limit, hmirrors.client⟩, hzero⟩
        exact Option.some.inj heq ▸ hknown
      · by_cases hroom : s.knownCreatureSet.card < maxKnown
        · simp only [check_room hknown hroom, receive]
          refine ⟨⟨fun other heq => ?_, ?_, ?_⟩, hnew⟩
          · exact Option.some.inj heq ▸ Finset.mem_insert_self _ _
          · rw [Finset.card_insert_of_notMem hknown]
            omega
          · rw [hmirrors.client, Finset.erase_eq_of_notMem hzero]
            rfl
        · have hfull : s.knownCreatureSet.card = maxKnown :=
            Nat.le_antisymm hmirrors.limit (Nat.le_of_not_lt hroom)
          obtain ⟨removed, hmem, hcheck, hiff⟩ :=
            check_full (g := s.game) hknown hfull hnodup horder
          have hne : removed ≠ id := fun heq => hguard hknown hfull.ge (hiff.mp heq)
          simp only [hcheck, receive]
          refine ⟨⟨fun other heq => ?_, ?_, ?_⟩, fun h => hnew (Finset.mem_of_mem_erase h)⟩
          · rw [← Option.some.inj heq]
            exact Finset.mem_erase_of_ne_of_mem hne.symm (Finset.mem_insert_self _ _)
          · rw [Finset.card_erase_of_mem hmem, Finset.card_insert_of_notMem hknown]
            omega
          · rw [hmirrors.client, Finset.erase_insert_of_ne hne.symm]
            rfl
    next => cases hstep

theorem not_mirrors_step (s : KnownCreatures) (a : Action) (t : KnownCreatures) (h : s.Good)
    (hguard : ¬s.Guarded a) (hstep : s.step a = some t) : ¬t.Mirrors := by
  cases a with
  | change game => exact absurd trivial hguard
  | introduce id order =>
    simp only [Guarded, Classical.not_imp, not_not] at hguard
    obtain ⟨hknown, hfull, hfirst⟩ := hguard
    simp only [step] at hstep
    split at hstep
    next horder =>
      obtain ⟨-, hnodup, horder⟩ := horder
      obtain rfl := Option.some.inj hstep
      obtain ⟨removed, -, hcheck, hiff⟩ := check_full (g := s.game) hknown
        (Nat.le_antisymm h.mirrors.limit hfull) hnodup horder
      obtain rfl := hiff.mpr hfirst
      intro hmirrors
      have hmem := hmirrors.introduced removed rfl
      simp only [hcheck] at hmem
      exact Finset.notMem_erase _ _ hmem
    next => cases hstep

/-- The set of a new client. -/
def start (game : GameView) : KnownCreatures where
  game := game

theorem good_start (game : GameView) : (start game).Good :=
  ⟨⟨fun _ h => (nomatch h), Nat.zero_le _, rfl⟩, Finset.notMem_empty 0⟩

/-- In every run the set mirrors the client's exactly when no newcomer to a full set is the
first creature in the order of the table that the player does not see. -/
theorem always_mirrors_iff (game : GameView) (as : List Action) :
    Always step Mirrors (start game) as ↔ EachStep step Guarded (start game) as :=
  always_iff_of_breaks (fun _ h => h.mirrors) good_step not_mirrors_step as (start game)
    (good_start game)

/-! ## A full set -/

/-- The ids of monsters begin here. -/
def monsterAutoID : ℕ := 0x40000000

/-- The first `n` monsters are introduced. -/
def fill (n : ℕ) : List Action :=
  (List.range n).map fun i => .introduce (monsterAutoID + i) (List.range' monsterAutoID (i + 1))

theorem run_fill (game : GameView) (n : ℕ) (hn : n ≤ maxKnown) :
    ∃ s, run step (start game) (fill n) = some s ∧ s.game = game ∧ s.Good ∧
      s.knownCreatureSet = (List.range' monsterAutoID n).toFinset := by
  induction n with
  | zero => exact ⟨start game, rfl, rfl, good_start game, rfl⟩
  | succ n ih =>
    obtain ⟨s, hrun, hgame, hgood, hset⟩ := ih (by omega)
    have hnew : monsterAutoID + n ∉ s.knownCreatureSet := by
      rw [hset, List.mem_toFinset, List.mem_range'_1]
      omega
    have hroom : s.knownCreatureSet.card < maxKnown := by
      rw [hset, List.toFinset_card_of_nodup List.nodup_range', List.length_range']
      omega
    have horder : (List.range' monsterAutoID (n + 1)).toFinset =
        insert (monsterAutoID + n) s.knownCreatureSet := by
      ext id
      rw [hset, Finset.mem_insert, List.mem_toFinset, List.mem_toFinset, List.mem_range'_1,
        List.mem_range'_1]
      omega
    have hstep : s.step (.introduce (monsterAutoID + n) (List.range' monsterAutoID (n + 1))) =
        some { s with
          knownCreatureSet := insert (monsterAutoID + n) s.knownCreatureSet
          client := receive s.client false 0 (monsterAutoID + n)
          introduced := some (monsterAutoID + n) } := by
      have hid : monsterAutoID + n ≠ 0 := by
        unfold monsterAutoID
        omega
      rw [step, if_pos ⟨hid, List.nodup_range', horder⟩, check_room hnew hroom]
    refine ⟨_, ?_, ?_, good_step s _ _ hgood ?_ hstep, ?_⟩
    · rw [fill, List.range_succ, List.map_append, run_append, ← fill, hrun]
      simp only [Option.bind_some, List.map_cons, List.map_nil, run_cons, hstep, run_nil]
    · exact hgame
    · exact fun _ hfull => absurd hfull (Nat.not_le.mpr hroom)
    · exact horder.symm

/-- The player has gone north-east; the newcomer stands at the north-west corner of the row that
the client is sent, one square out of the player's sight, and the others are near. -/
def corner : GameView where
  playerId := 0x10000000
  myPos := ⟨100, 100, 7⟩
  getCreatureByID id :=
    if id = monsterAutoID + maxKnown then some { position := ⟨91, 94, 7⟩ }
    else some { position := ⟨100, 99, 7⟩ }

/-- The newcomer is the first in the table. -/
theorem newcomer_forgotten :
    ¬∀ (game : GameView) (as : List Action), Always step Mirrors (start game) as := by
  intro h
  obtain ⟨s, hrun, hgame, hgood, hset⟩ := run_fill corner maxKnown (Nat.le_refl _)
  let newcomer := monsterAutoID + maxKnown
  let order := newcomer :: List.range' monsterAutoID maxKnown
  have hnew : newcomer ∉ List.range' monsterAutoID maxKnown := by
    rw [List.mem_range'_1]
    omega
  have horder : newcomer ≠ 0 ∧ order.Nodup ∧ order.toFinset = insert newcomer s.knownCreatureSet :=
    ⟨by decide, List.nodup_cons.mpr ⟨hnew, List.nodup_range'⟩, by rw [hset]; exact List.toFinset_cons⟩
  obtain ⟨t, hstep⟩ : ∃ t, s.step (.introduce newcomer order) = some t := by
    rw [step, if_pos horder]
    exact ⟨_, rfl⟩
  refine not_mirrors_step s _ t hgood (fun hguard => ?_) hstep ?_
  · refine hguard ?_ ?_ ?_
    · rw [hset, List.mem_toFinset]
      exact hnew
    · rw [hset, List.toFinset_card_of_nodup List.nodup_range', List.length_range']
    · rw [hgame]
      exact List.find?_cons_of_pos (by decide)
  · refine (h corner (fill maxKnown ++ [.introduce newcomer order])).last (u := t) ?_
    rw [run_append, hrun]
    simp only [Option.bind_some, run_cons, hstep, run_nil]

end KnownCreatures

end TibiaServer.Protocol
