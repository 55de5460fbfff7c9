import TibiaServer.Players.Party
/-!
# Guilds

A guild is in memory while one of its members is online: `loadPlayer` creates the object and
`removeMember` deletes it when its list becomes empty.  A call through a pointer to a guild
that has been deleted has no result.
-/

namespace TibiaServer.Players

abbrev GuildRef := ℕ
abbrev GuildId := BitVec 32

structure GuildRank where
  id : BitVec 32
  name : String
  level : BitVec 8
  deriving DecidableEq

structure Guild where
  id : GuildId
  ranks : List GuildRank := []
  membersOnline : List PlayerRef := []
  deriving DecidableEq

def Guild.getRankById (guild : Guild) (rankId : BitVec 32) : Option GuildRank :=
  guild.ranks.find? (·.id = rankId)

def Guild.getRankByLevel (guild : Guild) (level : BitVec 8) : Option GuildRank :=
  guild.ranks.find? (·.level = level)

structure GuildMember where
  guild : Option GuildRef := none
  guildRank : Option GuildRank := none
  guildNick : String := ""
  online : Bool := false
  deriving DecidableEq

/-- What the database says of the guild of a player: the row of `guild_membership`, the rank
table of the guild if it has a row in `guilds`, and the row of `guild_ranks` of his rank. -/
structure GuildRows where
  guildId : GuildId
  rankId : BitVec 32
  nick : String
  ranks : Option (List GuildRank)
  rank : Option GuildRank

/-- `objects` are the guilds that have not been deleted, `guilds` is the map of `Game`. -/
structure Guilds where
  members : PlayerRef → GuildMember := fun _ => {}
  objects : GuildRef → Option Guild := fun _ => none
  guilds : GuildId → Option GuildRef := fun _ => none
  fresh : GuildRef := 0

namespace Guilds

variable (s : Guilds) (this : GuildRef) (player : PlayerRef)

/-! ## Writes -/

def setMember (member : GuildMember) : Guilds :=
  { s with members := Function.update s.members player member }

def setObject (object : Option Guild) : Guilds :=
  { s with objects := Function.update s.objects this object }

/-- `Game::removeGuild` -/
def removeGuild (id : GuildId) : Guilds :=
  { s with guilds := Function.update s.guilds id none }

/-! ## `Guild` -/

def addMember : Option Guilds :=
  (s.objects this).map fun guild =>
    s.setObject this (some { guild with membersOnline := guild.membersOnline ++ [player] })

def removeMember : Option Guilds :=
  (s.objects this).map fun guild =>
    let membersOnline := guild.membersOnline.filter (· ≠ player)
    if membersOnline = [] then (s.removeGuild guild.id).setObject this none
    else s.setObject this (some { guild with membersOnline := membersOnline })

def addRank (rank : GuildRank) : Option Guilds :=
  (s.objects this).map fun guild =>
    s.setObject this (some { guild with ranks := guild.ranks ++ [rank] })

/-! ## `Player` -/

/-- `if (guild) guild->addMember(this)` -/
def addTo : Option GuildRef → Option Guilds
  | some guild => s.addMember guild player
  | none => some s

/-- `if (guild) guild->removeMember(this)` -/
def removeFrom : Option GuildRef → Option Guilds
  | some guild => s.removeMember guild player
  | none => some s

/-- `Player::setGuild` -/
def setGuild (guild : Option GuildRef) : Option Guilds :=
  let member := s.members player
  if guild = member.guild then some s
  else
    let oldGuild := member.guild
    let cleared := { member with guildNick := "", guild := none, guildRank := none }
    match guild with
    | some guild => (s.objects guild).bind fun object =>
      match object.getRankByLevel 1 with
      | none => some (s.setMember player cleared)
      | some rank =>
        let member := { cleared with guild := some guild, guildRank := some rank }
        ((s.setMember player member).addMember guild player).bind fun s =>
          s.removeFrom player oldGuild
    | none => (s.setMember player cleared).removeFrom player oldGuild

/-- `new Guild`, `Game::addGuild` and the loop of `addRank`. -/
def newGuild (id : GuildId) (ranks : List GuildRank) : Guilds :=
  { s.setObject s.fresh (some { id := id, ranks := ranks }) with
    guilds := Function.update s.guilds id (some s.fresh), fresh := s.fresh + 1 }

/-- The guild of the rows, created if it is not in memory. -/
def findGuild (rows : GuildRows) : Option GuildRef × Guilds :=
  match s.guilds rows.guildId with
  | some guild => (some guild, s)
  | none =>
    match rows.ranks with
    | some ranks => (some s.fresh, s.newGuild rows.guildId ranks)
    | none => (none, s)

/-- The rank of a loaded player, with the ranks of the guild brought up to date. -/
def findRank (rows : GuildRows) : Option (Option GuildRank × Guilds) :=
  (s.objects this).bind fun guild =>
    match guild.getRankById rows.rankId with
    | some rank => some (some rank, s)
    | none =>
      match rows.rank with
      | none => some (none, s)
      | some row => (s.addRank this row).map fun s =>
        ((s.objects this).bind fun guild => guild.getRankById rows.rankId, s)

/-- The part of `IOLoginData::loadPlayer` that is about guilds, for a new `Player`. -/
def loadPlayer : Option GuildRows → Option Guilds
  | none => some (s.setMember player {})
  | some rows =>
    let member : GuildMember := { guildNick := rows.nick }
    match s.findGuild rows with
    | (none, s) => some (s.setMember player member)
    | (some guild, s) => (s.findRank guild rows).map fun (rank, s) =>
      s.setMember player
        { member with guild := if rank.isSome then some guild else none, guildRank := rank }

/-- The hook of `Player::onCreatureAppear`. -/
def onLogin : Option Guilds :=
  (s.setMember player { s.members player with online := true }).addTo player
    (s.members player).guild

/-- The hook of `Player::onRemoveCreature`. -/
def onLogout : Option Guilds :=
  (s.setMember player { s.members player with online := false }).removeFrom player
    (s.members player).guild

end Guilds

/-- What happens to players and guilds: a player is loaded and placed in one go, a mailbox
loads an addressee who stays offline, and scripts call `setGuild`. -/
inductive GuildAction
  | login (player : PlayerRef) (rows : Option GuildRows)
  | loadOffline (player : PlayerRef) (rows : Option GuildRows)
  | logout (player : PlayerRef)
  | setGuild (player : PlayerRef) (guild : Option GuildRef)

def Guilds.step (s : Guilds) : GuildAction → Option Guilds
  | .login player rows =>
    if (s.members player).online then none
    else (s.loadPlayer player rows).bind fun s => s.onLogin player
  | .loadOffline player rows =>
    if (s.members player).online then none else s.loadPlayer player rows
  | .logout player => if (s.members player).online then s.onLogout player else none
  | .setGuild player guild => s.setGuild player guild

end TibiaServer.Players
