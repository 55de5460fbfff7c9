import TibiaServer.Protocol.KnownCreatures
import TibiaServer.Protocol.TileDescription
/-!
# The tile of a player who logs in

A player who is not logged in yet is described on his own tile even where creatures in front of
him would fill it: with eight things written he is sent along with the next creature.  The top
items are not counted for this, so that he is left out when they take up nine places and another
creature is in front of him, or all ten (`describes_player_iff`).
-/

namespace TibiaServer.Protocol

namespace Tile

section Bounds

variable {α : Type} {count : ℕ} {written : List α × Option ℕ} {next : ℕ → List α × Option ℕ}

/-- What is written counts up to ten, and the code goes on below ten. -/
structure UpTo (count : ℕ) (written : List α × Option ℕ) : Prop where
  length : count + written.1.length ≤ 10
  last : ∀ n, written.2 = some n → n = count + written.1.length ∧ n < 10

theorem upTo_writeThings (h : count < 10) (xs : List α) : UpTo count (writeThings count xs) := by
  induction xs generalizing count with
  | nil =>
    constructor
    · exact h.le
    · intro n hn
      obtain rfl := Option.some.inj hn
      exact ⟨rfl, h⟩
  | cons x xs ih =>
    rw [writeThings]
    split
    next hlast =>
      constructor
      · simp [hlast]
      · intro n hn
        cases hn
    next hmore =>
      have hrest := ih (show count + 1 < 10 by omega)
      constructor
      · have hlength := hrest.length
        simp only [List.length_cons]
        omega
      · intro n hn
        have hlast := hrest.last n hn
        simp only [List.length_cons]
        omega

theorem UpTo.andThen (h : UpTo count written) (hnext : ∀ n < 10, UpTo n (next n)) :
    UpTo count (andThen written next) := by
  unfold Protocol.andThen
  split
  next => exact h
  next n hn =>
    obtain ⟨rfl, hlt⟩ := h.last n hn
    have hrest := hnext _ hlt
    constructor
    · have hlength := hrest.length
      simp only [List.length_append]
      omega
    · intro m hm
      have hlast := hrest.last m hm
      simp only [List.length_append]
      omega

theorem count_andThen [DecidableEq α] {x : α} (h : ∀ n, x ∉ (next n).1) :
    (andThen written next).1.count x = written.1.count x := by
  unfold Protocol.andThen
  split
  next => rfl
  next n _ => rw [List.count_append, List.count_eq_zero_of_not_mem (h n), Nat.add_zero]

theorem writeThings_subset (xs : List α) : (writeThings count xs).1 ⊆ xs := by
  induction xs generalizing count with
  | nil => exact fun _ h => h
  | cons x xs ih =>
    rw [writeThings]
    split
    next => exact List.cons_subset_cons x (List.nil_subset xs)
    next => exact List.cons_subset_cons x ih

/-- A loop that comes to its end has written everything. -/
theorem writeThings_eq {xs : List α} (h : count + xs.length < 10) :
    writeThings count xs = (xs, some (count + xs.length)) := by
  induction xs generalizing count with
  | nil => rfl
  | cons x xs ih =>
    rw [List.length_cons] at h ⊢
    rw [writeThings, if_neg (by omega), ih (by omega)]
    simp only [Prod.mk.injEq, Option.some.injEq, true_and]
    omega

theorem writeThings_full {xs : List α} (hcount : count < 10) (h : 10 ≤ count + xs.length) :
    (writeThings count xs).2 = none := by
  induction xs generalizing count with
  | nil =>
    rw [List.length_nil] at h
    omega
  | cons x xs ih =>
    rw [List.length_cons] at h
    rw [writeThings]
    split
    next => rfl
    next => exact ih (by omega) (by omega)

end Bounds

section Spawning

variable {Item Creature : Type} [DecidableEq Creature] {canSeeCreature : Creature → Bool}
  {player : Creature} {count : ℕ}

theorem upTo_writeSpawning (h : count < 10) (playerSpawned : Bool) (creatures : List Creature) :
    UpTo count (writeSpawning canSeeCreature player count playerSpawned creatures :
      List (Thing Item Creature) × Option ℕ) := by
  induction creatures generalizing count playerSpawned with
  | nil =>
    constructor
    · exact h.le
    · intro n hn
      obtain rfl := Option.some.inj hn
      exact ⟨rfl, h⟩
  | cons c rest ih =>
    rw [writeSpawning]
    split
    next => exact ih h playerSpawned
    next =>
      simp only
      generalize hspawned : (playerSpawned || decide (c = player)) = spawned
      generalize hsent : (if count = 8 ∧ spawned = false then
        [Thing.creature c, Thing.creature player] else [Thing.creature c]) = sent
      have hlength : count + sent.length ≤ 10 := by
        rw [← hsent]
        split <;> simp only [List.length_cons, List.length_nil] <;> omega
      split
      next =>
        constructor
        · exact hlength
        · intro n hn
          cases hn
      next hmore =>
        have hrest := ih (show count + sent.length < 10 by omega) spawned
        constructor
        · have hbound := hrest.length
          simp only [List.length_append]
          omega
        · intro n hn
          have hlast := hrest.last n hn
          simp only [List.length_append]
          omega

/-- Behind the player nothing is sent for him. -/
theorem notMem_writeSpawning {creatures : List Creature} (h : player ∉ creatures) :
    Thing.creature player ∉
      (writeSpawning canSeeCreature player count true creatures :
        List (Thing Item Creature) × Option ℕ).1 := by
  induction creatures generalizing count with
  | nil => exact List.not_mem_nil
  | cons c rest ih =>
    obtain ⟨hc, hrest⟩ := not_or.mp (List.mem_cons.not.mp h)
    have hsent : Thing.creature player ∉ [(Thing.creature c : Thing Item Creature)] := by
      simp [hc]
    rw [writeSpawning]
    simp only [Bool.true_or, Bool.true_eq_false, and_false, if_false]
    split
    next => exact ih hrest
    next =>
      split
      next => exact hsent
      next => exact List.mem_append.not.mpr (not_or.mpr ⟨hsent, ih hrest⟩)

variable [DecidableEq Item] {ahead behind : List Creature}

/-- With room for two things the player is sent once, whoever is ahead of him. -/
theorem count_writeSpawning (hcount : count ≤ 8) (hsee : canSeeCreature player = true)
    (hahead : player ∉ ahead) (hbehind : player ∉ behind) :
    (writeSpawning canSeeCreature player count false (ahead ++ player :: behind) :
      List (Thing Item Creature) × Option ℕ).1.count (.creature player) = 1 := by
  induction ahead generalizing count with
  | nil =>
    have hrest : (writeSpawning canSeeCreature player (count + 1) true behind :
        List (Thing Item Creature) × Option ℕ).1.count (.creature player) = 0 :=
      List.count_eq_zero_of_not_mem (notMem_writeSpawning hbehind)
    rw [List.nil_append, writeSpawning]
    simp only [hsee, Bool.not_true, Bool.false_eq_true, if_false, decide_true, Bool.or_true,
      Bool.true_eq_false, and_false, List.length_singleton]
    rw [if_neg (by omega)]
    simp [hrest]
  | cons c ahead ih =>
    obtain ⟨hc, hrest⟩ := not_or.mp (List.mem_cons.not.mp hahead)
    have hne : ¬c = player := fun heq => hc heq.symm
    rw [List.cons_append, writeSpawning]
    split
    next => exact ih hcount hrest
    next =>
      simp only [hne, decide_false, Bool.or_false, and_true]
      by_cases hlast : count = 8
      · -- the creature and the player fill the two places
        simp [hlast, hne]
      · have hmore := ih (show count + 1 ≤ 8 by omega) hrest
        simp only [hlast, if_false, List.length_singleton]
        rw [if_neg (by omega)]
        simp [hmore, hne]

/-- In the last place the first creature is sent that the player sees. -/
theorem count_writeSpawning_nine (hsee : canSeeCreature player = true)
    (hahead : player ∉ ahead) :
    (writeSpawning canSeeCreature player 9 false (ahead ++ player :: behind) :
      List (Thing Item Creature) × Option ℕ).1.count (.creature player) = 1 ↔
      ∀ c ∈ ahead, canSeeCreature c = false := by
  induction ahead with
  | nil => simp [writeSpawning, hsee]
  | cons c ahead ih =>
    obtain ⟨hc, hrest⟩ := not_or.mp (List.mem_cons.not.mp hahead)
    have hne : ¬c = player := fun heq => hc heq.symm
    rw [List.cons_append, writeSpawning]
    cases hvisible : canSeeCreature c with
    | false => simpa [hvisible] using ih hrest
    | true => simp [hne, hvisible]

end Spawning

section Login

variable {Item : Type} {isAlwaysOnTop : Item → Bool}
  (g : GameView) (view : ℕ → CreatureView) (tile : Tile Item ℕ isAlwaysOnTop)

/-- `player->canSeeCreature` for a creature of the tile. -/
def sees (id : ℕ) : Bool := g.canSeeCreature id (view id)

theorem sees_player : sees g view g.playerId = true := by
  unfold sees GameView.canSeeCreature
  exact if_pos rfl

/-- The description of the player's own tile before he is logged in. -/
def loginDescription : List (Thing Item ℕ) :=
  tile.GetTileDescription (sees g view) (some g.playerId)

/-- The things that are counted before the creatures. -/
def itemsInFront : ℕ := (if tile.ground.isSome then 1 else 0) + tile.topItems.length

variable {tile}

theorem notMem_items (x : ℕ) (xs : List Item) :
    (Thing.creature x : Thing Item ℕ) ∉ xs.map Thing.item := by
  simp

theorem length_loginDescription : (loginDescription g view tile).length ≤ 10 := by
  have hground : (tile.ground.toList.map (Thing.item : Item → Thing Item ℕ)).length =
      if tile.ground.isSome then 1 else 0 := length_ground tile
  have hone : (if tile.ground.isSome then 1 else 0) ≤ 1 := by split <;> omega
  have hupTo : UpTo (tile.ground.toList.map (Thing.item : Item → Thing Item ℕ)).length
      (andThen (andThen (writeThings (tile.ground.toList.map (Thing.item : Item → Thing Item ℕ)).length
        (tile.topItems.map .item))
        (fun count => writeSpawning (sees g view) g.playerId count false tile.creatures.reverse))
        fun count => writeThings count (tile.downItems.map .item)) := by
    apply UpTo.andThen
    · apply UpTo.andThen
      · exact upTo_writeThings (by omega) _
      · exact fun n hn => upTo_writeSpawning hn false _
    · exact fun n hn => upTo_writeThings hn _
  have hlength := hupTo.length
  unfold loginDescription GetTileDescription
  rw [List.length_append]
  exact hlength

variable [DecidableEq Item]

/-- The player is described as often as the loop over the creatures sends him. -/
theorem count_loginDescription :
    (loginDescription g view tile).count (.creature g.playerId) =
      if tile.itemsInFront < 10 then
        (writeSpawning (sees g view) g.playerId tile.itemsInFront false tile.creatures.reverse :
          List (Thing Item ℕ) × Option ℕ).1.count (.creature g.playerId)
      else 0 := by
  have hground : (tile.ground.toList.map (Thing.item : Item → Thing Item ℕ)).length =
      if tile.ground.isSome then 1 else 0 := length_ground tile
  have hnot (count : ℕ) (xs : List Item) :
      Thing.creature g.playerId ∉ (writeThings count (xs.map Thing.item)).1 := fun hmem =>
    notMem_items g.playerId xs (writeThings_subset _ hmem)
  unfold loginDescription GetTileDescription itemsInFront
  simp only
  rw [List.count_append, List.count_eq_zero_of_not_mem (notMem_items g.playerId _), Nat.zero_add,
    count_andThen fun n => hnot n tile.downItems, hground]
  have hone : (if tile.ground.isSome then 1 else 0) ≤ 1 := by split <;> omega
  generalize (if tile.ground.isSome then 1 else 0) = n at hone ⊢
  by_cases hroom : n + tile.topItems.length < 10
  · rw [if_pos hroom, writeThings_eq (by rwa [List.length_map])]
    simp only [andThen, List.length_map]
    rw [List.count_append, List.count_eq_zero_of_not_mem (notMem_items g.playerId _),
      Nat.zero_add]
  · have hfull : (writeThings n (tile.topItems.map (Thing.item : Item → Thing Item ℕ))).2 =
        none := by
      apply writeThings_full
      · omega
      · rw [List.length_map]
        omega
    rw [if_neg hroom]
    unfold andThen
    rw [hfull]
    exact List.count_eq_zero_of_not_mem (hnot n tile.topItems)

/-- The player is described once, among ten things at most, exactly when the ground and the top
items leave two places, or one and he sees no creature that is sent before him. -/
theorem describes_player_iff (before after : List ℕ) (hbefore : g.playerId ∉ before)
    (hafter : g.playerId ∉ after) (hcreatures : tile.creatures = before ++ g.playerId :: after) :
    ((loginDescription g view tile).count (.creature g.playerId) = 1 ∧
      (loginDescription g view tile).length ≤ 10) ↔
      tile.itemsInFront ≤ 8 ∨
        tile.itemsInFront = 9 ∧ ∀ c ∈ after, g.canSeeCreature c (view c) = false := by
  have hreverse : tile.creatures.reverse = after.reverse ++ g.playerId :: before.reverse := by
    rw [hcreatures, List.reverse_append, List.reverse_cons, List.append_assoc,
      List.singleton_append]
  have hahead : g.playerId ∉ after.reverse := List.mem_reverse.not.mpr hafter
  have hbehind : g.playerId ∉ before.reverse := List.mem_reverse.not.mpr hbefore
  rw [and_iff_left (length_loginDescription g view), count_loginDescription, hreverse]
  rcases Nat.lt_trichotomy tile.itemsInFront 9 with hless | hnine | hmore
  · rw [if_pos (by omega), count_writeSpawning (by omega) (sees_player g view) hahead hbehind]
    exact iff_of_true rfl (.inl (by omega))
  · rw [hnine, if_pos (by decide),
      count_writeSpawning_nine (sees_player g view) hahead]
    simp only [List.mem_reverse, sees, Nat.reduceLeDiff, false_or, true_and]
  · rw [if_neg (by omega)]
    apply iff_of_false
    · exact Nat.zero_ne_one
    · omega

end Login

/-- A player and someone else behind him in the list, on a tile with some top items. -/
def doorway (topItems : List ℕ) : Tile ℕ ℕ fun _ => true where
  ground := some 0
  topItems := topItems
  creatures := [1, 2]
  downItems := []
  top _ _ := rfl
  down _ h := absurd h List.not_mem_nil

/-- Everyone stands in one place and can be seen. -/
def inDoorway : GameView := { playerId := 1, myPos := ⟨0, 0, 0⟩, getCreatureByID := fun _ => none }

theorem described_in_doorway :
    (loginDescription inDoorway (fun _ => ⟨⟨0, 0, 0⟩, false, false, false, true⟩)
        (doorway [1, 2])).count (.creature 1) = 1 ∧
      (loginDescription inDoorway (fun _ => ⟨⟨0, 0, 0⟩, false, false, false, true⟩)
        (doorway [1, 2])).length ≤ 10 :=
  (describes_player_iff inDoorway _ [] [2] (by decide) (by decide) rfl).mpr (.inl (by decide))

/-- Ground and eight top items leave one place, which the other one takes. -/
theorem left_out_in_doorway :
    ¬((loginDescription inDoorway (fun _ => ⟨⟨0, 0, 0⟩, false, false, false, true⟩)
        (doorway [1, 2, 3, 4, 5, 6, 7, 8])).count (.creature 1) = 1 ∧
      (loginDescription inDoorway (fun _ => ⟨⟨0, 0, 0⟩, false, false, false, true⟩)
        (doorway [1, 2, 3, 4, 5, 6, 7, 8])).length ≤ 10) := by
  decide

end Tile

end TibiaServer.Protocol
