import TibiaServer.IOLoginData.SaveItems
/-!
# Saving a player

`savePlayer` rewrites the row of the player and deletes and inserts the rows of
six tables inside one transaction.  Executed together its statements turn the
stored rows into `describedRows` (`applyAll_statements`).  They are executed
together unless one of them loses its connection: the retry of `executeQuery`
then goes on outside the transaction (`savePlayer_allOrNothing_iff`).
-/

namespace TibiaServer.IOLoginData

open TibiaServer.Database

/-! ## The stored rows -/

inductive Value
  | int (n : ℤ)
  | blob (bytes : Text)
  deriving DecidableEq

/-- `getNumber`: what is no number reads as zero. -/
def Value.getNumber : Value → ℤ
  | .int n => n
  | .blob _ => 0

inductive Table
  | player_spells
  | player_items
  | player_depotitems
  | player_rewards
  | player_inboxitems
  | player_storage
  deriving DecidableEq

/-- What the database holds of one player: the columns of the row in `players`, if
there is one, and the texts of the rows in the other tables. -/
structure PlayerRows where
  players : Option (String → Value)
  tables : Table → List Text

/-- The right-hand side of one `SET` item; `add` is `x = x + n`. -/
inductive Assignment
  | set (value : Value)
  | add (n : ℤ)

def assign (row : String → Value) (item : String × Assignment) : String → Value :=
  Function.update row item.1
    (match item.2 with
      | .set value => value
      | .add n => .int ((row item.1).getNumber + n))

def updatePlayers (items : List (String × Assignment)) (rows : PlayerRows) : PlayerRows :=
  { rows with players := rows.players.map fun row => items.foldl assign row }

def deleteFrom (table : Table) (rows : PlayerRows) : PlayerRows :=
  { rows with tables := Function.update rows.tables table [] }

def insertInto (table : Table) (values : List Text) (rows : PlayerRows) : PlayerRows :=
  { rows with tables := Function.update rows.tables table (rows.tables table ++ values) }

/-! ## The player -/

structure Skill where
  level : ℤ := 10
  tries : ℤ := 0

structure OutfitEntry where
  lookType : ℕ
  addons : ℕ

def SKULL_NONE : ℤ := 0
def SKULL_RED : ℤ := 4
def SKULL_BLACK : ℤ := 5

/-- What `savePlayer` reads of a player. -/
structure Player where
  guid : ℕ := 0
  level : ℤ := 1
  groupId : ℤ
  vocationId : ℤ
  health : ℤ := 1000
  healthMax : ℤ := 1000
  varMaxHitPoints : ℤ := 0
  experience : ℤ := 0
  lookBody : ℤ := 0
  lookFeet : ℤ := 0
  lookHead : ℤ := 0
  lookLegs : ℤ := 0
  lookType : ℤ := 0
  lookAddons : ℤ := 0
  magLevel : ℤ := 0
  mana : ℤ := 0
  manaMax : ℤ := 0
  manaSpent : ℤ := 0
  soul : ℤ := 0
  townId : ℤ
  loginPosition : ℤ × ℤ × ℤ := (0, 0, 0)
  capacity : ℕ := 40000
  sex : ℤ := 0
  lastLoginSaved : ℤ := 0
  lastIP : ℤ := 0
  /-- the stream that the persistent conditions are serialized to -/
  conditions : Text := []
  skullTicks : ℤ := 0
  skull : ℤ := SKULL_NONE
  lastLogout : ℤ := 0
  bankBalance : ℤ := 0
  offlineTrainingTime : ℤ := 0
  offlineTrainingSkill : ℤ := -1
  staminaMinutes : ℤ := 2520
  fist : Skill := {}
  club : Skill := {}
  sword : Skill := {}
  axe : Skill := {}
  distance : Skill := {}
  shield : Skill := {}
  fishing : Skill := {}
  isOffline : Bool
  blessings : ℤ := 0
  learnedInstantSpellList : List Text := []
  /-- the slots 1 to 10 -/
  inventory : ℕ → Option Item := fun _ => none
  lastDepotId : ℤ := -1
  depotChests : List (ℤ × List Item) := []
  /-- `rewardMap` in the order of its keys -/
  rewardMap : List (ℕ × Item) := []
  inbox : List Item := []
  /-- a `std::map`, in the order of its keys -/
  storageMap : List (ℕ × ℤ) := []
  outfits : List OutfitEntry := []

namespace Player

def getMaxHealth (p : Player) : ℤ := max 1 (p.healthMax + p.varMaxHitPoints)

def changeHealth (p : Player) (healthChange : ℤ) : Player :=
  if healthChange > 0 then
    { p with health := p.health + min healthChange (p.getMaxHealth - p.health) }
  else { p with health := max 0 (p.health + healthChange) }

/-- `storageMap[key] = value` -/
def storageAssign (key : ℕ) (value : ℤ) : List (ℕ × ℤ) → List (ℕ × ℤ)
  | [] => [(key, value)]
  | (k, v) :: rest =>
    if key < k then (key, value) :: (k, v) :: rest
    else if key = k then (key, value) :: rest
    else (k, v) :: storageAssign key value rest

def PSTRG_OUTFITS_RANGE_START : ℕ := 10000000 + 1000

/-- The value is an `int32_t`. -/
def OutfitEntry.storageValue (entry : OutfitEntry) : ℤ :=
  (BitVec.ofNat 32 ((entry.lookType <<< 16) ||| entry.addons)).toInt

def genReservedStorageRange (p : Player) : Player :=
  { p with
    storageMap := (p.outfits.foldl (fun (map, base_key) entry =>
      (storageAssign (base_key + 1) (OutfitEntry.storageValue entry) map, base_key + 1))
      (p.storageMap, PSTRG_OUTFITS_RANGE_START)).1 }

end Player

/-- What a save reads besides the player: `time(nullptr)`, taken to stand still
during the save, the world type, the packet size and
`mysql_real_escape_string`. -/
structure SaveContext where
  time : ℤ
  pvpEnforced : Bool
  maxPacketSize : ℕ
  escape : Text → Text

section

variable (ctx : SaveContext) (player : Player)

/-- The `SET` list of the first query. -/
def playerColumns : List (String × Assignment) :=
  let int (column : String) (n : ℤ) : String × Assignment := (column, .set (.int n))
  [int "level" player.level, int "group_id" player.groupId,
    int "vocation" player.vocationId, int "health" player.health,
    int "healthmax" player.healthMax, int "experience" player.experience,
    int "lookbody" player.lookBody, int "lookfeet" player.lookFeet,
    int "lookhead" player.lookHead, int "looklegs" player.lookLegs,
    int "looktype" player.lookType, int "lookaddons" player.lookAddons,
    int "maglevel" player.magLevel, int "mana" player.mana, int "manamax" player.manaMax,
    int "manaspent" player.manaSpent, int "soul" player.soul, int "town_id" player.townId,
    int "posx" player.loginPosition.1, int "posy" player.loginPosition.2.1,
    int "posz" player.loginPosition.2.2, int "cap" (player.capacity / 100 : ℕ),
    int "sex" player.sex] ++
  (if player.lastLoginSaved ≠ 0 then [int "lastlogin" player.lastLoginSaved] else []) ++
  (if player.lastIP ≠ 0 then [int "lastip" player.lastIP] else []) ++
  [("conditions", .set (.blob player.conditions))] ++
  (if ctx.pvpEnforced then []
    else
      [int "skulltime"
          (if player.skullTicks > 0 then ctx.time + player.skullTicks.tdiv 1000 else 0),
        int "skull"
          (if player.skull = SKULL_RED then SKULL_RED
            else if player.skull = SKULL_BLACK then SKULL_BLACK else SKULL_NONE)]) ++
  [int "lastlogout" player.lastLogout, int "balance" player.bankBalance,
    int "offlinetraining_time" (player.offlineTrainingTime.tdiv 1000),
    int "offlinetraining_skill" player.offlineTrainingSkill,
    int "stamina" player.staminaMinutes,
    int "skill_fist" player.fist.level, int "skill_fist_tries" player.fist.tries,
    int "skill_club" player.club.level, int "skill_club_tries" player.club.tries,
    int "skill_sword" player.sword.level, int "skill_sword_tries" player.sword.tries,
    int "skill_axe" player.axe.level, int "skill_axe_tries" player.axe.tries,
    int "skill_dist" player.distance.level, int "skill_dist_tries" player.distance.tries,
    int "skill_shielding" player.shield.level,
    int "skill_shielding_tries" player.shield.tries,
    int "skill_fishing" player.fishing.level,
    int "skill_fishing_tries" player.fishing.tries] ++
  (if player.isOffline then []
    else [("onlinetime", .add (ctx.time - player.lastLoginSaved))]) ++
  [int "blessings" player.blessings]

/-- The `SET` list for a player whose column `save` is zero. -/
def loginColumns : List (String × Assignment) :=
  [("lastlogin", .set (.int player.lastLoginSaved)), ("lastip", .set (.int player.lastIP))]

def spellRows : List Text :=
  player.learnedInstantSpellList.map fun spellName =>
    commaSeparated [decimal player.guid, escapeBlob ctx.escape spellName]

def inventoryList : List (ℤ × Item) :=
  (List.range' 1 10).filterMap fun slotId =>
    (player.inventory slotId).map fun item => ((slotId : ℤ), item)

def depotList : List (ℤ × Item) :=
  player.depotChests.flatMap fun (depotId, itemList) => itemList.map fun item => (depotId, item)

/-- Rewards that are empty or older than seven days are left out. -/
def rewardList : List (ℤ × Item) :=
  ((player.rewardMap.filter fun (rewardId, reward) =>
    !reward.itemList.isEmpty && decide (ctx.time - rewardId ≤ 60 * 60 * 24 * 7)).zipIdx 1).map
      fun ((_, reward), running) => ((running : ℤ), reward)

def inboxList : List (ℤ × Item) := player.inbox.map fun item => (0, item)

def storageRows : List Text :=
  player.genReservedStorageRange.storageMap.map fun (key, value) =>
    commaSeparated [decimal player.guid, decimal key, decimal value]

def itemsRows (itemList : List (ℤ × Item)) : List Text :=
  saveItemsRows ctx.escape player.guid itemList

end

/-! ## The save -/

def insertQuery : Table → Text
  | .player_spells => text "INSERT INTO `player_spells` (`player_id`, `name` ) VALUES "
  | .player_items => text "INSERT INTO `player_items` (`player_id`, `pid`, `sid`, `itemtype`, `count`, `attributes`) VALUES "
  | .player_depotitems => text "INSERT INTO `player_depotitems` (`player_id`, `pid`, `sid`, `itemtype`, `count`, `attributes`) VALUES "
  | .player_rewards => text "INSERT INTO `player_rewards` (`player_id`, `pid`, `sid`, `itemtype`, `count`, `attributes`) VALUES "
  | .player_inboxitems => text "INSERT INTO `player_inboxitems` (`player_id`, `pid`, `sid`, `itemtype`, `count`, `attributes`) VALUES "
  | .player_storage => text "INSERT INTO `player_storage` (`player_id`, `key`, `value`) VALUES "

abbrev Query := Connection PlayerRows → Bool × Connection PlayerRows

/-- Queries in a row, each with its `return false`. -/
def sequence : List Query → Query
  | [], c => (true, c)
  | query :: rest, c => andThen query (sequence rest) c

section

variable (ctx : SaveContext) (outcomes : ℕ → Outcome) (player : Player)

/-- Delete the rows of the player from the table. -/
def deleteRows (table : Table) : Query := executeQuery outcomes (deleteFrom table)

/-- A `DBInsert` for the table. -/
def insertTable (table : Table) (rows : List Text) : Query :=
  DBInsert.insertRows outcomes ctx.maxPacketSize (insertInto table) (insertQuery table) rows

/-- The queries between the begin of the transaction and its commit. -/
def saveQueries : List Query :=
  [executeQuery outcomes (updatePlayers (playerColumns ctx player)),
    deleteRows outcomes .player_spells,
    insertTable ctx outcomes .player_spells (spellRows ctx player),
    deleteRows outcomes .player_items,
    insertTable ctx outcomes .player_items (itemsRows ctx player (inventoryList player))] ++
  (if player.lastDepotId ≠ -1 then
    [deleteRows outcomes .player_depotitems,
      insertTable ctx outcomes .player_depotitems (itemsRows ctx player (depotList player))]
  else []) ++
  [deleteRows outcomes .player_rewards] ++
  (if player.rewardMap ≠ [] then
    [insertTable ctx outcomes .player_rewards (itemsRows ctx player (rewardList ctx player))]
  else []) ++
  [deleteRows outcomes .player_inboxitems,
    insertTable ctx outcomes .player_inboxitems (itemsRows ctx player (inboxList player)),
    deleteRows outcomes .player_storage,
    insertTable ctx outcomes .player_storage (storageRows player)]

/-- The player whose rows are written: a dead one is saved with some health. -/
def living : Player := if player.health ≤ 0 then player.changeHealth 1 else player

/-- The `SELECT` of the column `save`. -/
def selectSave (rows : PlayerRows) : Option ℤ :=
  rows.players.map fun row => (row "save").getNumber

def savePlayer (c : Connection PlayerRows) : Bool × Connection PlayerRows :=
  let player := living player
  let (result, c) := storeQuery outcomes selectSave c
  match result with
  | none => (false, c)
  | some save =>
    if save = 0 then executeQuery outcomes (updatePlayers (loginColumns player)) c
    else DBTransaction.scope outcomes (sequence (saveQueries ctx outcomes player)) c

/-! ## The statements of a save -/

/-- The statements with which a `DBInsert` inserts the rows. -/
def inserts (table : Table) (rows : List Text) : List (PlayerRows → PlayerRows) :=
  (DBInsert.batches ctx.maxPacketSize { query := insertQuery table } rows).map
    (insertInto table)

/-- The statements of each query of `saveQueries`. -/
def statementParts : List (List (PlayerRows → PlayerRows)) :=
  [[updatePlayers (playerColumns ctx player)],
    [deleteFrom .player_spells],
    inserts ctx .player_spells (spellRows ctx player),
    [deleteFrom .player_items],
    inserts ctx .player_items (itemsRows ctx player (inventoryList player))] ++
  (if player.lastDepotId ≠ -1 then
    [[deleteFrom .player_depotitems],
      inserts ctx .player_depotitems (itemsRows ctx player (depotList player))]
  else []) ++
  [[deleteFrom .player_rewards]] ++
  (if player.rewardMap ≠ [] then
    [inserts ctx .player_rewards (itemsRows ctx player (rewardList ctx player))]
  else []) ++
  [[deleteFrom .player_inboxitems],
    inserts ctx .player_inboxitems (itemsRows ctx player (inboxList player)),
    [deleteFrom .player_storage],
    inserts ctx .player_storage (storageRows player)]

def statements : List (PlayerRows → PlayerRows) := (statementParts ctx player).flatten

/-- Queries that execute lists of statements, one after the other. -/
theorem sequence_eq {queries : List Query} {parts : List (List (PlayerRows → PlayerRows))}
    (h : List.Forall₂ (fun query part => ∀ c, query c = executeAll outcomes part c)
      queries parts) (c : Connection PlayerRows) :
    sequence queries c = executeAll outcomes parts.flatten c := by
  induction h generalizing c with
  | nil => rfl
  | @cons query part queries parts hquery _ ih =>
    rw [List.flatten_cons, executeAll_append, sequence]
    simp only [andThen, hquery, ih]

theorem deleteRows_eq (table : Table) (c : Connection PlayerRows) :
    deleteRows outcomes table c = executeAll outcomes [deleteFrom table] c :=
  (executeAll_singleton outcomes (deleteFrom table) c).symm

theorem insertTable_eq (table : Table) (rows : List Text) (c : Connection PlayerRows) :
    insertTable ctx outcomes table rows c = executeAll outcomes (inserts ctx table rows) c :=
  DBInsert.insertRows_eq ctx.maxPacketSize outcomes (insertInto table) (insertQuery table) rows c

theorem sequence_saveQueries (c : Connection PlayerRows) :
    sequence (saveQueries ctx outcomes player) c =
      executeAll outcomes (statements ctx player) c := by
  have hupdate : ∀ c : Connection PlayerRows,
      executeQuery outcomes (updatePlayers (playerColumns ctx player)) c =
        executeAll outcomes [updatePlayers (playerColumns ctx player)] c :=
    fun c => (executeAll_singleton outcomes _ c).symm
  apply sequence_eq
  unfold saveQueries statementParts
  by_cases hdepot : player.lastDepotId ≠ -1 <;> by_cases hreward : player.rewardMap ≠ [] <;>
    simp [hdepot, hreward, hupdate, deleteRows_eq, insertTable_eq]

/-- The rows of the tables that describe the player. -/
def describedTables (old : Table → List Text) : Table → List Text
  | .player_spells => spellRows ctx player
  | .player_items => itemsRows ctx player (inventoryList player)
  | .player_depotitems =>
    if player.lastDepotId ≠ -1 then itemsRows ctx player (depotList player)
    else old .player_depotitems
  | .player_rewards => itemsRows ctx player (rewardList ctx player)
  | .player_inboxitems => itemsRows ctx player (inboxList player)
  | .player_storage => storageRows player

/-- The rows that describe the player.  A player whose column `save` is zero has
only his last login updated, the depot is left as stored while he has opened none,
and columns that a save does not write keep their values. -/
def describedRows (old : PlayerRows) : PlayerRows :=
  match selectSave old with
  | none => old
  | some save =>
    if save = 0 then updatePlayers (loginColumns player) old
    else
      { players := old.players.map fun row => (playerColumns ctx player).foldl assign row
        tables := describedTables ctx player old.tables }

/-- Deleting the rows of a table and inserting others replaces them. -/
theorem applyAll_replace (table : Table) (values : List Text) (rows : PlayerRows) :
    applyAll ([deleteFrom table] ++ inserts ctx table values) rows =
      { rows with tables := Function.update rows.tables table values } := by
  have hnil : ∀ r : PlayerRows, insertInto table [] r = r := by
    intro r
    simp [insertInto]
  have happend : ∀ (xs ys : List Text) (r : PlayerRows),
      insertInto table ys (insertInto table xs r) = insertInto table (xs ++ ys) r := by
    intro xs ys r
    simp [insertInto]
  rw [applyAll_append, inserts, DBInsert.applyAll_inserts ctx.maxPacketSize hnil happend]
  simp [deleteFrom, insertInto]

theorem itemsRows_nil : itemsRows ctx player [] = [] := by
  simp [itemsRows, saveItemsRows, blockRows, blockContainers, queueRows]

/-- The statements of a save turn the old rows into those that describe the
player. -/
theorem applyAll_statements (old : PlayerRows) :
    applyAll (statements ctx player) old =
      { players := old.players.map fun row => (playerColumns ctx player).foldl assign row
        tables := describedTables ctx player old.tables } := by
  have hreward : ∀ rows : PlayerRows,
      applyAll ([deleteFrom .player_rewards] ++
        (if player.rewardMap ≠ [] then
          inserts ctx .player_rewards (itemsRows ctx player (rewardList ctx player))
        else [])) rows =
      { rows with
        tables := Function.update rows.tables .player_rewards
          (itemsRows ctx player (rewardList ctx player)) } := by
    intro rows
    split
    next => exact applyAll_replace ctx .player_rewards _ rows
    next hempty =>
      have hnil : rewardList ctx player = [] := by
        simp [rewardList, not_not.mp hempty]
      rw [hnil, itemsRows_nil]
      rfl
  have hdepot : ∀ rows : PlayerRows,
      applyAll (if player.lastDepotId ≠ -1 then
        [deleteFrom .player_depotitems] ++
          inserts ctx .player_depotitems (itemsRows ctx player (depotList player))
        else []) rows =
      { rows with
        tables := Function.update rows.tables .player_depotitems
          (if player.lastDepotId ≠ -1 then itemsRows ctx player (depotList player)
          else rows.tables .player_depotitems) } := by
    intro rows
    split
    next => exact applyAll_replace ctx .player_depotitems _ rows
    next => simp
  have hstatements : statements ctx player =
      [updatePlayers (playerColumns ctx player)] ++
      (([deleteFrom .player_spells] ++ inserts ctx .player_spells (spellRows ctx player)) ++
      (([deleteFrom .player_items] ++
        inserts ctx .player_items (itemsRows ctx player (inventoryList player))) ++
      ((if player.lastDepotId ≠ -1 then
        [deleteFrom .player_depotitems] ++
          inserts ctx .player_depotitems (itemsRows ctx player (depotList player))
        else []) ++
      (([deleteFrom .player_rewards] ++
        (if player.rewardMap ≠ [] then
          inserts ctx .player_rewards (itemsRows ctx player (rewardList ctx player))
        else [])) ++
      (([deleteFrom .player_inboxitems] ++
        inserts ctx .player_inboxitems (itemsRows ctx player (inboxList player))) ++
      ([deleteFrom .player_storage] ++
        inserts ctx .player_storage (storageRows player))))))) := by
    unfold statements statementParts
    by_cases hdepot : player.lastDepotId ≠ -1 <;> by_cases hreward : player.rewardMap ≠ [] <;>
      simp [hdepot, hreward]
  rw [hstatements, applyAll_append, applyAll_append, applyAll_append, applyAll_append,
    applyAll_append, applyAll_append, applyAll_replace, applyAll_replace, hdepot, hreward,
    applyAll_replace, applyAll_replace]
  refine congrArg (PlayerRows.mk _) (funext fun table => ?_)
  cases table <;> simp [updatePlayers, describedTables]

/-- With no transaction open a lost connection does not keep a read from its row. -/
theorem storeQuery_eq {β : Type} (read : PlayerRows → Option β) (old : PlayerRows) (n : ℕ) :
    storeQuery outcomes read { stored := old, sent := n } =
      (if (outcomes n).ok then read old else none, { stored := old, sent := n + 1 }) := by
  unfold storeQuery
  rw [query_of_none outcomes rfl]
  cases (outcomes n).ok <;> simp [Connection.rows]

/-- One statement outside a transaction is executed or not. -/
theorem executeQuery_allOrNothing (statement : PlayerRows → PlayerRows) (old : PlayerRows)
    (n : ℕ) :
    AllOrNothing old (statement old)
      (executeQuery outcomes statement { stored := old, sent := n }) := by
  unfold executeQuery
  rw [query_of_none outcomes rfl]
  cases (outcomes n).ok <;> simp [AllOrNothing, Connection.apply]

/-- A save leaves the old rows or those that describe the player, and the latter when
it returns true, exactly when its statements are executed together. -/
theorem savePlayer_allOrNothing_iff (old : PlayerRows) :
    AllOrNothing old (describedRows ctx (living player) old)
        (savePlayer ctx outcomes player { stored := old }) ↔
      ((outcomes 0).ok = true → (∃ save ≠ 0, selectSave old = some save) →
        (outcomes 1).ok = true →
        KeepsTogether outcomes 2 (statements ctx (living player)) old) := by
  unfold savePlayer
  rw [storeQuery_eq]
  cases hselect : (outcomes 0).ok with
  | false => simp [AllOrNothing]
  | true =>
      cases hsave : selectSave old with
      | none => simp [AllOrNothing]
      | some save =>
          by_cases hzero : save = 0
          · have hrows : describedRows ctx (living player) old =
                updatePlayers (loginColumns (living player)) old := by
              rw [describedRows, hsave]
              exact if_pos hzero
            have hupdate := executeQuery_allOrNothing outcomes
              (updatePlayers (loginColumns (living player))) old 1
            simp [hzero, hrows, hupdate]
          · have hrows : describedRows ctx (living player) old =
                applyAll (statements ctx (living player)) old := by
              rw [describedRows, hsave, applyAll_statements]
              exact if_neg hzero
            have hbody : sequence (saveQueries ctx outcomes (living player)) =
                executeAll outcomes (statements ctx (living player)) :=
              funext (sequence_saveQueries ctx outcomes (living player))
            have hscope := scope_allOrNothing_iff outcomes
              (c := { stored := old, sent := 1 }) rfl (statements ctx (living player))
            simp only [if_true, hzero, if_false, hrows, hbody]
            simpa [hzero] using hscope

end

/-- A player who has forgotten his one spell loses the connection while his items are
deleted.  The spell was deleted before, within the transaction that is gone, so the
save returns true with the spell still stored. -/
theorem lost_connection_splits_save :
    let ctx : SaveContext := ⟨0, false, 1048576, id⟩
    let player : Player := { groupId := 1, vocationId := 1, townId := 1, isOffline := true }
    let old : PlayerRows :=
      { players := some fun _ => .int 1
        tables := fun table => if table = .player_spells then [[1]] else [] }
    let outcomes : ℕ → Outcome := fun n => if n = 4 then { losses := 1 } else {}
    (savePlayer ctx outcomes player { stored := old }).1 = true ∧
      (savePlayer ctx outcomes player { stored := old }).2.stored.tables .player_spells =
        [[1]] ∧
      ¬ AllOrNothing old (describedRows ctx (living player) old)
        (savePlayer ctx outcomes player { stored := old }) := by
  intro ctx player old outcomes
  have hresult : (savePlayer ctx outcomes player { stored := old }).1 = true := by decide +kernel
  have hspells : (savePlayer ctx outcomes player { stored := old }).2.stored.tables
      .player_spells = [[1]] := by decide +kernel
  refine ⟨hresult, hspells, fun hall => ?_⟩
  have hnew : (describedRows ctx (living player) old).tables .player_spells = [] := by decide +kernel
  rw [← hall.2 hresult, hspells] at hnew
  exact absurd hnew (by decide)

end TibiaServer.IOLoginData
