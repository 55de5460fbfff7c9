import Mathlib.Data.List.Basic
import Mathlib.Data.List.TakeWhile
/-!
# Tile descriptions and stack positions

`GetTileDescription` writes at most ten things of a tile, and `getStackposOfItem` and
`getStackposOfCreature` count on their own where it has written one of them.  Both are
about the same list of things: the description is its first ten, and a stack position
is an index into it.
-/

namespace TibiaServer.Protocol

/-- The lists of a tile; without a `TileItemVector` or a `CreatureVector` they are empty. -/
structure Tile (Item Creature : Type) (isAlwaysOnTop : Item → Bool) where
  ground : Option Item
  topItems : List Item
  creatures : List Creature
  downItems : List Item
  top : ∀ x ∈ topItems, isAlwaysOnTop x = true
  down : ∀ x ∈ downItems, isAlwaysOnTop x = false

inductive Thing (Item Creature : Type)
  | item (x : Item)
  | creature (c : Creature)
  deriving DecidableEq

section Writing

variable {α : Type}

/-- A loop that writes things until ten are written: what it writes, and the count with
which the code goes on behind it. -/
def writeThings (count : ℕ) : List α → List α × Option ℕ
  | [] => ([], some count)
  | x :: rest =>
    if count + 1 = 10 then ([x], none)
    else (x :: (writeThings (count + 1) rest).1, (writeThings (count + 1) rest).2)

/-- The code behind a loop that did not return. -/
def andThen (written : List α × Option ℕ) (next : ℕ → List α × Option ℕ) : List α × Option ℕ :=
  match written.2 with
  | none => written
  | some count => (written.1 ++ (next count).1, (next count).2)

theorem andThen_writeThings (count : ℕ) (xs ys : List α) :
    andThen (writeThings count xs) (fun count => writeThings count ys) =
      writeThings count (xs ++ ys) := by
  induction xs generalizing count with
  | nil => rfl
  | cons x xs ih =>
    rw [List.cons_append, writeThings, writeThings]
    split
    next => rfl
    next =>
      rw [← ih]
      obtain ⟨written, last⟩ := writeThings (count + 1) xs
      cases last with
      | none => rfl
      | some count => rfl

theorem writeThings_eq_take {count : ℕ} (h : count < 10) (xs : List α) :
    (writeThings count xs).1 = xs.take (10 - count) := by
  induction xs generalizing count with
  | nil => simp [writeThings]
  | cons x xs ih =>
    rw [writeThings]
    split
    next hlast =>
      have hone : 10 - count = 1 := by omega
      rw [hone]
      rfl
    next hmore =>
      have hnext : 10 - count = (10 - (count + 1)) + 1 := by omega
      rw [ih (by omega), hnext, List.take_succ_cons]

theorem take_append_of_le {n : ℕ} {xs : List α} (h : xs.length ≤ n) (ys : List α) :
    (xs ++ ys).take n = xs ++ ys.take (n - xs.length) := by
  rw [List.take_append, List.take_of_length_le h]

end Writing

namespace Tile

variable {Item Creature : Type} [DecidableEq Item] [DecidableEq Creature]
  {isAlwaysOnTop : Item → Bool} (tile : Tile Item Creature isAlwaysOnTop)
  (canSeeCreature : Creature → Bool)

/-! ## What is written -/

/-- The loop over the creatures of the tile of a player who is not logged in yet: where
there is room for only two more, he is one of them. -/
def writeSpawning (player : Creature) (count : ℕ) (playerSpawned : Bool) :
    List Creature → List (Thing Item Creature) × Option ℕ
  | [] => ([], some count)
  | creature :: rest =>
    if !canSeeCreature creature then writeSpawning player count playerSpawned rest
    else
      let playerSpawned := playerSpawned || creature = player
      let sent : List (Thing Item Creature) :=
        if count = 8 ∧ playerSpawned = false then [.creature creature, .creature player]
        else [.creature creature]
      let count := count + sent.length
      if count = 10 then (sent, none)
      else
        (sent ++ (writeSpawning player count playerSpawned rest).1,
          (writeSpawning player count playerSpawned rest).2)

/-- `ProtocolGame::GetTileDescription`; `spawning` is the player if this is his tile and
he is not logged in. -/
def GetTileDescription (spawning : Option Creature) : List (Thing Item Creature) :=
  let ground := tile.ground.toList.map .item
  let top := writeThings ground.length (tile.topItems.map .item)
  let creatures (count : ℕ) : List (Thing Item Creature) × Option ℕ :=
    match spawning with
    | some player => writeSpawning canSeeCreature player count false tile.creatures.reverse
    | none => writeThings count ((tile.creatures.reverse.filter canSeeCreature).map .creature)
  ground ++ (andThen (andThen top creatures) fun count =>
    writeThings count (tile.downItems.map .item)).1

/-! ## What is counted -/

/-- The loop over the creatures in `getStackposOfCreature`. -/
def stackposInCreatures (creature : Creature) (n : ℕ) : List Creature → ℤ
  | [] => -1
  | c :: rest =>
    if c = creature then n
    else if canSeeCreature c then
      if n + 1 ≥ 10 then -1 else stackposInCreatures creature (n + 1) rest
    else stackposInCreatures creature n rest

def getStackposOfCreature (creature : Creature) : ℤ :=
  let n := (if tile.ground.isSome then 1 else 0) + tile.topItems.length
  if n ≥ 10 then -1 else stackposInCreatures canSeeCreature creature n tile.creatures.reverse

/-- The loop over the top items in `getStackposOfItem`, and the code behind it. -/
def stackposInTop (item : Item) (n : ℕ) (next : ℕ → ℤ) : List Item → ℤ
  | [] => next n
  | x :: rest =>
    if x = item then n else if n + 1 = 10 then -1 else stackposInTop item (n + 1) next rest

/-- The loop that counts the creatures, and the code behind it. -/
def countCreatures (n : ℕ) (next : ℕ → ℤ) : List Creature → ℤ
  | [] => next n
  | c :: rest =>
    if canSeeCreature c then if n + 1 ≥ 10 then -1 else countCreatures (n + 1) next rest
    else countCreatures n next rest

/-- The loop over the down items. -/
def stackposInDown (item : Item) (n : ℕ) : List Item → ℤ
  | [] => -1
  | x :: rest =>
    if x = item then n else if n + 1 ≥ 10 then -1 else stackposInDown item (n + 1) rest

def getStackposOfItem (item : Item) : ℤ :=
  if tile.ground = some item then 0
  else
    let n := if tile.ground.isSome then 1 else 0
    let behindTop (n : ℕ) : ℤ :=
      countCreatures canSeeCreature n
        (fun n => if !isAlwaysOnTop item then stackposInDown item n tile.downItems else -1)
        tile.creatures
    if isAlwaysOnTop item then stackposInTop item n behindTop tile.topItems
    else
      let n := n + tile.topItems.length
      if n ≥ 10 then -1 else behindTop n

/-! ## The things of a tile in the order of the client -/

/-- Everything that the player could see on the tile. -/
def things : List (Thing Item Creature) :=
  tile.ground.toList.map .item ++ (tile.topItems.map .item ++
    ((tile.creatures.reverse.filter canSeeCreature).map .creature ++ tile.downItems.map .item))

omit [DecidableEq Item] in
theorem GetTileDescription_loggedIn :
    tile.GetTileDescription canSeeCreature none = (tile.things canSeeCreature).take 10 := by
  have hground : (tile.ground.toList.map (Thing.item : Item → Thing Item Creature)).length ≤ 1 := by
    cases tile.ground <;> simp
  unfold GetTileDescription things
  simp only
  generalize tile.ground.toList.map Thing.item = ground at *
  rw [andThen_writeThings, andThen_writeThings, writeThings_eq_take (by omega), List.append_assoc]
  exact (take_append_of_le (by omega) _).symm

/-! ## Counting agrees -/

/-- The index of a thing in a list that goes on behind the tenth place. -/
def indexOrLimit (n : ℕ) : ℤ := if n < 10 then n else -1

variable {canSeeCreature}

theorem stackposInTop_of_mem {item : Item} {n : ℕ} (hn : n < 10) (next : ℕ → ℤ) {xs : List Item}
    (h : item ∈ xs) : stackposInTop item n next xs = indexOrLimit (n + xs.idxOf item) := by
  induction xs generalizing n with
  | nil => cases h
  | cons x xs ih =>
    rw [stackposInTop]
    by_cases hx : x = item
    · subst hx
      rw [if_pos rfl, List.idxOf_cons_self, Nat.add_zero, indexOrLimit, if_pos hn]
    · have hrest : item ∈ xs := (List.mem_cons.mp h).resolve_left (Ne.symm hx)
      rw [if_neg hx, List.idxOf_cons_ne _ hx]
      split
      next hlast =>
        rw [indexOrLimit, if_neg (by omega)]
      next hmore =>
        rw [ih (by omega) hrest]
        congr 1
        omega

/-- The second loop is the first one with nothing behind it. -/
theorem stackposInDown_eq (item : Item) {n : ℕ} (hn : n < 10) (xs : List Item) :
    stackposInDown item n xs = stackposInTop item n (fun _ => -1) xs := by
  induction xs generalizing n with
  | nil => rfl
  | cons x xs ih =>
    rw [stackposInDown, stackposInTop]
    by_cases hlast : n + 1 = 10
    · simp [hlast]
    · have hmore : n + 1 < 10 := by omega
      simp only [if_neg hlast, if_neg (not_le.mpr hmore), ih hmore]

theorem stackposInDown_of_mem {item : Item} {n : ℕ} (hn : n < 10) {xs : List Item}
    (h : item ∈ xs) : stackposInDown item n xs = indexOrLimit (n + xs.idxOf item) :=
  (stackposInDown_eq item hn xs).trans (stackposInTop_of_mem hn _ h)

omit [DecidableEq Creature] in
/-- The creatures are counted in their own order, which makes no difference. -/
theorem countCreatures_eq {n : ℕ} (hn : n < 10) (next : ℕ → ℤ) (creatures : List Creature) :
    countCreatures canSeeCreature n next creatures =
      if n + (creatures.filter canSeeCreature).length < 10 then
        next (n + (creatures.filter canSeeCreature).length)
      else -1 := by
  induction creatures generalizing n with
  | nil =>
    rw [countCreatures, List.filter_nil, List.length_nil, Nat.add_zero, if_pos hn]
  | cons c creatures ih =>
    rw [countCreatures]
    by_cases hsee : canSeeCreature c = true
    · rw [if_pos hsee, List.filter_cons_of_pos hsee, List.length_cons]
      have hshift : n + ((creatures.filter canSeeCreature).length + 1) =
          n + 1 + (creatures.filter canSeeCreature).length := by
        omega
      split
      next hlast => rw [if_neg (by omega)]
      next hmore => rw [ih (by omega), hshift]
    · rw [if_neg hsee, List.filter_cons_of_neg hsee, ih hn]

theorem stackposInCreatures_of_mem {creature : Creature} {n : ℕ} (hn : n < 10)
    (hsee : canSeeCreature creature = true) {creatures : List Creature}
    (h : creature ∈ creatures) :
    stackposInCreatures canSeeCreature creature n creatures =
      indexOrLimit (n + (creatures.filter canSeeCreature).idxOf creature) := by
  induction creatures generalizing n with
  | nil => cases h
  | cons c creatures ih =>
    rw [stackposInCreatures]
    by_cases hc : c = creature
    · subst hc
      rw [if_pos rfl, List.filter_cons_of_pos hsee, List.idxOf_cons_self, Nat.add_zero,
        indexOrLimit, if_pos hn]
    · have hrest : creature ∈ creatures := (List.mem_cons.mp h).resolve_left (Ne.symm hc)
      rw [if_neg hc]
      by_cases hvisible : canSeeCreature c = true
      · rw [if_pos hvisible, List.filter_cons_of_pos hvisible, List.idxOf_cons_ne _ hc]
        split
        next hlast => rw [indexOrLimit, if_neg (by omega)]
        next hmore =>
          rw [ih (by omega) hrest]
          congr 1
          omega
      · rw [if_neg hvisible, List.filter_cons_of_neg hvisible, ih hn hrest]

/-! ## The index that was written -/

section Index

variable {α : Type} [DecidableEq α]

/-- The first index of a thing in what was written, or `-1` where ten others were. -/
def WrittenAt (written : List α) (thing : α) (n : ℤ) : Prop :=
  thing ∈ written ∧ n = written.idxOf thing ∨ thing ∉ written ∧ n = -1 ∧ written.length = 10

theorem writtenAt_take {xs : List α} {x : α} (h : x ∈ xs) :
    WrittenAt (xs.take 10) x (indexOrLimit (xs.idxOf x)) := by
  have hlength : xs.idxOf x < xs.length := List.idxOf_lt_length_iff.mpr h
  have hsplit : xs.take 10 ++ xs.drop 10 = xs := List.take_append_drop 10 xs
  by_cases hmem : x ∈ xs.take 10
  · have hindex : xs.idxOf x = (xs.take 10).idxOf x := by
      conv_lhs => rw [← hsplit]
      exact List.idxOf_append_of_mem hmem
    have hten : (xs.take 10).idxOf x < 10 :=
      lt_of_lt_of_le (List.idxOf_lt_length_iff.mpr hmem) (List.length_take_le 10 xs)
    left
    refine ⟨hmem, ?_⟩
    rw [indexOrLimit, if_pos (by omega), hindex]
  · have hindex : xs.idxOf x = (xs.take 10).length + (xs.drop 10).idxOf x := by
      conv_lhs => rw [← hsplit]
      exact List.idxOf_append_of_notMem hmem
    have hlong : 10 ≤ xs.length := by
      by_contra hshort
      rw [List.take_of_length_le (by omega)] at hmem
      exact hmem h
    have hten : (xs.take 10).length = 10 := by
      rw [List.length_take]
      omega
    right
    refine ⟨hmem, ?_, hten⟩
    rw [indexOrLimit, if_neg (by omega)]

theorem idxOf_map {β : Type} [DecidableEq β] {f : α → β} (hf : Function.Injective f) (x : α)
    (xs : List α) : (xs.map f).idxOf (f x) = xs.idxOf x := by
  induction xs with
  | nil => rfl
  | cons y ys ih =>
    rw [List.map_cons]
    by_cases hy : y = x
    · rw [hy, List.idxOf_cons_self, List.idxOf_cons_self]
    · rw [List.idxOf_cons_ne _ hy, List.idxOf_cons_ne _ (hf.ne hy), ih]

end Index

variable (canSeeCreature)

omit [DecidableEq Item] [DecidableEq Creature] in
theorem length_ground : (tile.ground.toList.map (Thing.item : Item → Thing Item Creature)).length =
    if tile.ground.isSome then 1 else 0 := by
  cases tile.ground <;> rfl

theorem getStackposOfCreature_eq {creature : Creature} (h : creature ∈ tile.creatures)
    (hsee : canSeeCreature creature = true) :
    tile.getStackposOfCreature canSeeCreature creature =
      indexOrLimit ((tile.things canSeeCreature).idxOf (.creature creature)) := by
  have hindex : (tile.things canSeeCreature).idxOf (.creature creature) =
      (if tile.ground.isSome then 1 else 0) + (tile.topItems.length +
        (tile.creatures.reverse.filter canSeeCreature).idxOf creature) := by
    have hmem : creature ∈ tile.creatures.reverse.filter canSeeCreature :=
      List.mem_filter.mpr ⟨List.mem_reverse.mpr h, hsee⟩
    unfold things
    rw [List.idxOf_append_of_notMem (by simp), List.idxOf_append_of_notMem (by simp),
      List.idxOf_append_of_mem (List.mem_map_of_mem hmem),
      idxOf_map (fun _ _ heq => Thing.creature.inj heq), length_ground, List.length_map]
  unfold getStackposOfCreature
  rw [hindex]
  generalize (if tile.ground.isSome then 1 else 0) = g
  simp only
  split
  next hfull => rw [indexOrLimit, if_neg (by omega)]
  next hroom =>
    rw [stackposInCreatures_of_mem (by omega) hsee (List.mem_reverse.mpr h), Nat.add_assoc]

theorem getStackposOfItem_eq {item : Item}
    (h : tile.ground = some item ∨ item ∈ tile.topItems ∨ item ∈ tile.downItems) :
    tile.getStackposOfItem canSeeCreature item =
      indexOrLimit ((tile.things canSeeCreature).idxOf (.item item)) := by
  unfold getStackposOfItem things
  by_cases hground : tile.ground = some item
  · rw [if_pos hground, hground, Option.toList_some, List.map_singleton, List.singleton_append,
      List.idxOf_cons_self]
    rfl
  rw [if_neg hground]
  have habsent : Thing.item item ∉ tile.ground.toList.map (Thing.item : Item → Thing Item Creature) := by
    intro hmem
    obtain ⟨x, hx, heq⟩ := List.mem_map.mp hmem
    rw [Thing.item.inj heq] at hx
    exact hground (Option.mem_toList.mp hx)
  have hinjective : Function.Injective (Thing.item : Item → Thing Item Creature) :=
    fun _ _ heq => Thing.item.inj heq
  have hone : (if tile.ground.isSome then 1 else 0) ≤ 1 := by split <;> omega
  rw [List.idxOf_append_of_notMem habsent, length_ground]
  generalize (if tile.ground.isSome then 1 else 0) = g at hone ⊢
  simp only
  rcases h.resolve_left hground with htop | hdown
  · have htype := tile.top item htop
    rw [if_pos htype, stackposInTop_of_mem (by omega) _ htop,
      List.idxOf_append_of_mem (List.mem_map_of_mem htop), idxOf_map hinjective]
  · have htype := tile.down item hdown
    have hnot : Thing.item item ∉ tile.topItems.map (Thing.item : Item → Thing Item Creature) := by
      intro hmem
      obtain ⟨x, hx, heq⟩ := List.mem_map.mp hmem
      have hboth := tile.top x hx
      rw [Thing.item.inj heq, htype] at hboth
      cases hboth
    have hlength : (tile.creatures.reverse.filter canSeeCreature).length =
        (tile.creatures.filter canSeeCreature).length := by
      rw [List.filter_reverse, List.length_reverse]
    rw [List.idxOf_append_of_notMem hnot, List.idxOf_append_of_notMem (by simp),
      idxOf_map hinjective, List.length_map, List.length_map, hlength]
    simp only [htype, Bool.not_false, if_true, Bool.false_eq_true, if_false]
    split
    next hfull => rw [indexOrLimit, if_neg (by omega)]
    next hroom =>
      rw [countCreatures_eq (by omega)]
      split
      next hmore =>
        rw [stackposInDown_of_mem hmore hdown]
        congr 1
        omega
      next hfull => rw [indexOrLimit, if_neg (by omega)]

/-- A stack position is the index at which the description wrote the thing, and `-1`
only where ten others were written. -/
theorem stackpos_agrees :
    (∀ item, tile.ground = some item ∨ item ∈ tile.topItems ∨ item ∈ tile.downItems →
      WrittenAt (tile.GetTileDescription canSeeCreature none) (.item item)
        (tile.getStackposOfItem canSeeCreature item)) ∧
      ∀ creature ∈ tile.creatures, canSeeCreature creature = true →
        WrittenAt (tile.GetTileDescription canSeeCreature none) (.creature creature)
          (tile.getStackposOfCreature canSeeCreature creature) := by
  rw [GetTileDescription_loggedIn]
  constructor
  · intro item h
    rw [getStackposOfItem_eq tile canSeeCreature h]
    apply writtenAt_take
    unfold things
    simp only [List.mem_append, List.mem_map, Option.mem_toList, Thing.item.injEq, exists_eq_right]
    tauto
  · intro creature h hsee
    rw [getStackposOfCreature_eq tile canSeeCreature h hsee]
    apply writtenAt_take
    unfold things
    simp only [List.mem_append, List.mem_map, List.mem_filter, List.mem_reverse,
      Thing.creature.injEq, exists_eq_right]
    tauto

end Tile

end TibiaServer.Protocol
