import TibiaServer.Players.Guilds
/-!
# Chat channels

The channel of a party is found by the pointer to the party, that of a guild by the id of the
guild; both go by what the player belongs to at the time of the call.  A player is taken for
his guid, and scripts only answer whether a player may join.
-/

namespace TibiaServer.Players

def CHANNEL_GUILD : ℕ := 0
def CHANNEL_PARTY : ℕ := 1
def CHANNEL_PRIVATE : ℕ := 65535

/-- The users of a channel. -/
abbrev UsersMap := List PlayerRef

structure PrivateChatChannel where
  owner : PlayerRef
  users : UsersMap := []
  invites : List PlayerRef := []
  deriving DecidableEq

def PrivateChatChannel.isInvited (channel : PrivateChatChannel) (player : PlayerRef) : Bool :=
  player = channel.owner || player ∈ channel.invites

/-- Which channel a pointer to a channel stands for. -/
inductive ChannelKey
  | normalChannel (id : ℕ)
  | guildChannel (guildId : GuildId)
  | partyChannel (party : PartyRef)
  | privateChannel (id : ℕ)
  deriving DecidableEq

/-- The answers of the scripts of normal channels. -/
structure Scripts where
  canJoin : ℕ → PlayerRef → Bool := fun _ _ => true
  onJoin : ℕ → PlayerRef → Bool := fun _ _ => true

structure Chat where
  parties : Parties := {}
  guilds : Guilds := {}
  normalChannels : ℕ → Option UsersMap := fun _ => none
  guildChannels : GuildId → Option UsersMap := fun _ => none
  partyChannels : PartyRef → Option UsersMap := fun _ => none
  privateChannels : ℕ → Option PrivateChatChannel := fun _ => none

/-- `getGuild()->getId()` -/
def Guilds.getGuildId (s : Guilds) (player : PlayerRef) : Option GuildId :=
  (s.members player).guild.bind fun guild => (s.objects guild).map Guild.id

namespace Chat

variable (s : Chat) (scripts : Scripts) (player : PlayerRef)

/-! ## `ChatChannel` -/

def users : ChannelKey → Option UsersMap
  | .normalChannel id => s.normalChannels id
  | .guildChannel guildId => s.guildChannels guildId
  | .partyChannel party => s.partyChannels party
  | .privateChannel id => (s.privateChannels id).map PrivateChatChannel.users

def setUsers (key : ChannelKey) (users : UsersMap) : Chat :=
  match key with
  | .normalChannel id =>
    { s with normalChannels := Function.update s.normalChannels id (some users) }
  | .guildChannel guildId =>
    { s with guildChannels := Function.update s.guildChannels guildId (some users) }
  | .partyChannel party =>
    { s with partyChannels := Function.update s.partyChannels party (some users) }
  | .privateChannel id =>
    { s with
      privateChannels := Function.update s.privateChannels id
        ((s.privateChannels id).map fun channel => { channel with users := users }) }

/-- Only normal channels have scripts. -/
def executeOnJoinEvent : ChannelKey → Bool
  | .normalChannel id => scripts.onJoin id player
  | _ => true

def addUser (key : ChannelKey) : Bool × Chat :=
  match s.users key with
  | none => (false, s)
  | some users =>
    if player ∈ users then (false, s)
    else if !executeOnJoinEvent scripts player key then (false, s)
    else (true, s.setUsers key (users ++ [player]))

def removeUser (key : ChannelKey) : Bool × Chat :=
  match s.users key with
  | none => (false, s)
  | some users =>
    if player ∈ users then (true, s.setUsers key (users.filter (· ≠ player))) else (false, s)

/-! ## `Chat` -/

def getChannel (channelId : ℕ) : Option ChannelKey :=
  if channelId = CHANNEL_GUILD then
    (s.guilds.getGuildId player).bind fun guildId =>
      if (s.guildChannels guildId).isSome then some (.guildChannel guildId) else none
  else if channelId = CHANNEL_PARTY then
    (s.parties.party player).bind fun party =>
      if (s.partyChannels party).isSome then some (.partyChannel party) else none
  else
    match s.normalChannels channelId, s.privateChannels channelId with
    | some _, _ =>
      if scripts.canJoin channelId player then some (.normalChannel channelId) else none
    | none, some channel =>
      if channel.isInvited player then some (.privateChannel channelId) else none
    | none, none => none

/-- The ids of private channels. -/
def privateIds : List ℕ := List.range' 100 9900

def getPrivateChannel : Option ℕ :=
  privateIds.find? fun id => (s.privateChannels id).any fun channel => channel.owner = player

def createChannel (isPremium : Bool) (channelId : ℕ) : Option ChannelKey × Chat :=
  if (s.getChannel scripts player channelId).isSome then (none, s)
  else if channelId = CHANNEL_GUILD then
    match s.guilds.getGuildId player with
    | some guildId => (some (.guildChannel guildId), s.setUsers (.guildChannel guildId) [])
    | none => (none, s)
  else if channelId = CHANNEL_PARTY then
    match s.parties.party player with
    | some party => (some (.partyChannel party), s.setUsers (.partyChannel party) [])
    | none => (none, s)
  else if channelId = CHANNEL_PRIVATE then
    if !isPremium || (s.getPrivateChannel player).isSome then (none, s)
    else
      -- a free private channel slot
      match privateIds.find? fun id => (s.privateChannels id).isNone with
      | some id =>
        (some (.privateChannel id),
          { s with
            privateChannels := Function.update s.privateChannels id (some { owner := player }) })
      | none => (none, s)
  else (none, s)

def addUserToChannel (channelId : ℕ) : Option ChannelKey × Chat :=
  match s.getChannel scripts player channelId with
  | none => (none, s)
  | some key =>
    match s.addUser scripts player key with
    | (true, s) => (some key, s)
    | (false, s) => (none, s)

/-- `deleteChannel`, of a private channel -/
def deleteChannel (id : ℕ) : Chat :=
  { s with privateChannels := Function.update s.privateChannels id none }

/-- `getOwner()`; that of the other channels is 0, which is no guid. -/
def getOwner : ChannelKey → Option PlayerRef
  | .privateChannel id => (s.privateChannels id).map PrivateChatChannel.owner
  | _ => none

def removeUserFromChannel (channelId : ℕ) : Bool × Chat :=
  match s.getChannel scripts player channelId with
  | none => (false, s)
  | some key =>
    match s.removeUser player key with
    | (false, s) => (false, s)
    | (true, s) => (true, if s.getOwner key = some player then s.deleteChannel channelId else s)

def removeUserFromAllChannels : Chat :=
  let leave (users : UsersMap) : UsersMap := users.filter (· ≠ player)
  { s with
    normalChannels := fun id => (s.normalChannels id).map leave
    guildChannels := fun guildId => (s.guildChannels guildId).map leave
    partyChannels := fun party => (s.partyChannels party).map leave
    privateChannels := fun id => (s.privateChannels id).bind fun channel =>
      if channel.owner = player then none
      else some { channel with users := leave channel.users, invites := leave channel.invites } }

/-! ## Requests -/

/-- `Game::playerCreatePrivateChannel` -/
def playerCreatePrivateChannel (isPremium : Bool) : Chat :=
  match s.createChannel scripts player isPremium CHANNEL_PRIVATE with
  | (some key, s) => (s.addUser scripts player key).2
  | (none, s) => s

def modifyPrivateChannel (f : PrivateChatChannel → PrivateChatChannel) : Chat :=
  match s.getPrivateChannel player with
  | some id =>
    { s with
      privateChannels := Function.update s.privateChannels id ((s.privateChannels id).map f) }
  | none => s

/-- `Game::playerChannelInvite` -/
def playerChannelInvite (invitePlayer : PlayerRef) : Chat :=
  if player = invitePlayer then s
  else s.modifyPrivateChannel player fun channel =>
    if invitePlayer ∈ channel.invites then channel
    else { channel with invites := channel.invites ++ [invitePlayer] }

/-- `Game::playerChannelExclude` -/
def playerChannelExclude (excludePlayer : PlayerRef) : Chat :=
  if player = excludePlayer then s
  else s.modifyPrivateChannel player fun channel =>
    if excludePlayer ∈ channel.invites then
      { channel with
        invites := channel.invites.filter (· ≠ excludePlayer)
        users := channel.users.filter (· ≠ excludePlayer) }
    else channel

/-! ## Parties -/

def setParties (parties : Parties) : Chat := { s with parties := parties }

/-- `Player::sendClosePrivate` -/
def sendClosePrivate (channelId : ℕ) : Chat :=
  if channelId = CHANNEL_GUILD ∨ channelId = CHANNEL_PARTY then
    (s.removeUserFromChannel scripts player channelId).2
  else s

/-- `player->setParty(nullptr)` and `player->sendClosePrivate(CHANNEL_PARTY)` -/
def dropParty : Chat :=
  (s.setParties (s.parties.setParty player none)).sendClosePrivate scripts player CHANNEL_PARTY

variable (this : PartyRef)

/-- `Party::disband` -/
def disband : Chat :=
  match s.parties.parties this with
  | none => s
  | some party =>
    let s := s.dropParty scripts party.leader
    let s := party.inviteList.foldl
      (fun s invitee => s.setParties (s.parties.removePartyInvitation this invitee)) s
    let s := party.memberList.foldl (fun s member => s.dropParty scripts member) s
    s.setParties (s.parties.delete this)

/-- `Party::leaveParty` -/
def leaveParty : Bool × Chat :=
  match s.parties.parties this with
  | none => (false, s)
  | some party =>
    if s.parties.party player ≠ some this ∧ party.leader ≠ player then (false, s)
    else
      let missingLeader := party.leader = player ∧
        (party.memberList = [] ∨ party.memberList.length = 1 ∧ party.inviteList = [])
      let s :=
        match party.memberList with
        | front :: _ =>
          if party.leader = player ∧ ¬missingLeader then
            s.setParties (s.parties.passPartyLeadership this front).2
          else s
        | [] => s
      let s := s.setParties (s.parties.modifyParty this fun party =>
        { party with memberList := party.memberList.erase player })
      let s := s.dropParty scripts player
      (true, if missingLeader ∨ s.parties.isEmpty this then s.disband scripts this else s)

/-- `Party::removeInvite` -/
def removeInvite (removeFromPlayer : Bool) : Bool × Chat :=
  match s.parties.parties this with
  | none => (false, s)
  | some party =>
    if player ∉ party.inviteList then (false, s)
    else
      let s := s.setParties (s.parties.modifyParty this fun party =>
        { party with inviteList := party.inviteList.erase player })
      let s :=
        if removeFromPlayer then s.setParties (s.parties.removePartyInvitation this player) else s
      (true, if s.parties.isEmpty this then s.disband scripts this else s)

/-- `Player::clearPartyInvitations` -/
def clearPartyInvitations : Chat :=
  let s := (s.parties.invitePartyList player).foldl
    (fun s invitingParty => (s.removeInvite scripts player invitingParty false).2) s
  s.setParties (s.parties.setInvitePartyList player [])

/-- What `Player::onRemoveCreature` does about parties. -/
def leaveParties : Chat :=
  let s := s.clearPartyInvitations scripts player
  match s.parties.party player with
  | none => s
  | some party => (s.leaveParty scripts player party).2

def playerRevokePartyInvitation (invitedPlayer : PlayerRef) : Chat :=
  match s.parties.party player with
  | none => s
  | some party =>
    if s.parties.getLeader party ≠ some player then s
    else if !s.parties.isInviting player invitedPlayer then s
    else (s.removeInvite scripts invitedPlayer party true).2

def playerLeaveParty (inFight : Bool) : Chat :=
  match s.parties.party player with
  | none => s
  | some party => if inFight then s else (s.leaveParty scripts player party).2

/-- The calls that take somebody out of a party, and those that do not. -/
def partyCall : PartyCall → Option Chat
  | .request (.revoke player invitedPlayer) =>
    some (s.playerRevokePartyInvitation scripts player invitedPlayer)
  | .request (.leave player inFight) => some (s.playerLeaveParty scripts player inFight)
  | .logout player => some (s.leaveParties scripts player)
  | .disband party => some (s.disband scripts party)
  | .removeInvite party player => some (s.removeInvite scripts player party true).2
  | .leaveParty party player => some (s.leaveParty scripts player party).2
  | call => (call.step s.parties).map s.setParties

/-- What `Player::onRemoveCreature` does about parties, channels and guilds. -/
def onLogout : Option Chat :=
  let s := (s.leaveParties scripts player).removeUserFromAllChannels player
  (s.guilds.step (.logout player)).map fun guilds => { s with guilds := guilds }

end Chat

/-- Requests of players, calls of scripts, and what happens to parties and guilds. -/
inductive ChatAction
  | createChannel (player : PlayerRef) (isPremium : Bool) (channelId : ℕ)
  | createPrivateChannel (player : PlayerRef) (isPremium : Bool)
  | addUserToChannel (player : PlayerRef) (channelId : ℕ)
  | removeUserFromChannel (player : PlayerRef) (channelId : ℕ)
  | removeUserFromAllChannels (player : PlayerRef)
  | invite (player invitePlayer : PlayerRef)
  | exclude (player excludePlayer : PlayerRef)
  | party (call : PartyCall)
  | guild (action : GuildAction)
  | logout (player : PlayerRef)

/-- With the answers of the scripts to the action. -/
def Chat.step (s : Chat) : Scripts × ChatAction → Option Chat
  | (scripts, .createChannel player isPremium channelId) =>
    some (s.createChannel scripts player isPremium channelId).2
  | (scripts, .createPrivateChannel player isPremium) =>
    some (s.playerCreatePrivateChannel scripts player isPremium)
  | (scripts, .addUserToChannel player channelId) =>
    some (s.addUserToChannel scripts player channelId).2
  | (scripts, .removeUserFromChannel player channelId) =>
    some (s.removeUserFromChannel scripts player channelId).2
  | (_, .removeUserFromAllChannels player) => some (s.removeUserFromAllChannels player)
  | (_, .invite player invitePlayer) => some (s.playerChannelInvite player invitePlayer)
  | (_, .exclude player excludePlayer) => some (s.playerChannelExclude player excludePlayer)
  | (scripts, .party call) => s.partyCall scripts call
  | (_, .guild action) => (s.guilds.step action).map fun guilds => { s with guilds := guilds }
  | (scripts, .logout player) => s.onLogout scripts player

end TibiaServer.Players
