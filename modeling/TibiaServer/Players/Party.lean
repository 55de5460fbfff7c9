import Mathlib.Data.List.Basic
/-!
# Parties

A party names its leader, its other members and those that it has invited; a player
names the party that he belongs to and the parties that have invited him.  A party that
is left with nobody but its leader disbands.
-/

namespace TibiaServer.Players

abbrev PlayerRef := ℕ
abbrev PartyRef := ℕ

structure Party where
  leader : PlayerRef
  memberList : List PlayerRef := []
  inviteList : List PlayerRef := []
  deriving DecidableEq

/-- `Party::empty`: the leader does not count. -/
def Party.empty (party : Party) : Bool := party.memberList.isEmpty && party.inviteList.isEmpty

/-- What players and parties know of one another; `parties` are those that have not been
deleted. -/
structure Parties where
  party : PlayerRef → Option PartyRef := fun _ => none
  invitePartyList : PlayerRef → List PartyRef := fun _ => []
  parties : PartyRef → Option Party := fun _ => none
  fresh : PartyRef := 0

namespace Parties

variable (s : Parties) (this : PartyRef) (player : PlayerRef)

/-! ## Writes -/

def setParty (party : Option PartyRef) : Parties :=
  { s with party := Function.update s.party player party }

def setInvitePartyList (list : List PartyRef) : Parties :=
  { s with invitePartyList := Function.update s.invitePartyList player list }

def modifyParty (f : Party → Party) : Parties :=
  { s with parties := Function.update s.parties this ((s.parties this).map f) }

/-- `delete this` -/
def delete : Parties := { s with parties := Function.update s.parties this none }

/-- `Player::addPartyInvitation` -/
def addPartyInvitation : Parties :=
  if this ∈ s.invitePartyList player then s
  else s.setInvitePartyList player (this :: s.invitePartyList player)

/-- `Player::removePartyInvitation` -/
def removePartyInvitation : Parties :=
  s.setInvitePartyList player ((s.invitePartyList player).filter (· ≠ this))

/-! ## `Party` -/

/-- `Party::Party` -/
def newParty (leader : PlayerRef) : Parties :=
  { s.setParty leader (some s.fresh) with
    parties := Function.update s.parties s.fresh (some { leader := leader }), fresh := s.fresh + 1 }

def isEmpty : Bool := (s.parties this).any Party.empty

def disband : Parties :=
  match s.parties this with
  | none => s
  | some party =>
    let s := s.setParty party.leader none
    let s := party.inviteList.foldl (fun s invitee => s.removePartyInvitation this invitee) s
    let s := party.memberList.foldl (fun s member => s.setParty member none) s
    s.delete this

def passPartyLeadership : Bool × Parties :=
  match s.parties this with
  | none => (false, s)
  | some party =>
    if party.leader = player ∨ s.party player ≠ some this then (false, s)
    else
      (true, s.modifyParty this fun party =>
        { party with
          leader := player, memberList := party.leader :: party.memberList.erase player })

def leaveParty : Bool × Parties :=
  match s.parties this with
  | none => (false, s)
  | some party =>
    if s.party player ≠ some this ∧ party.leader ≠ player then (false, s)
    else
      -- a leader who leaves one member and no invitation behind has no successor
      let missingLeader := party.leader = player ∧
        (party.memberList = [] ∨ party.memberList.length = 1 ∧ party.inviteList = [])
      let s :=
        match party.memberList with
        | front :: _ =>
          if party.leader = player ∧ ¬missingLeader then (s.passPartyLeadership this front).2
          else s
        | [] => s
      let s := s.modifyParty this fun party =>
        { party with memberList := party.memberList.erase player }
      let s := s.setParty player none
      (true, if missingLeader ∨ s.isEmpty this then s.disband this else s)

def joinParty : Bool × Parties :=
  match s.parties this with
  | none => (false, s)
  | some party =>
    if player ∉ party.inviteList then (false, s)
    else
      let s := s.modifyParty this fun party =>
        { party with
          inviteList := party.inviteList.erase player, memberList := party.memberList ++ [player] }
      let s := s.setParty player (some this)
      (true, s.removePartyInvitation this player)

def removeInvite (removeFromPlayer : Bool) : Bool × Parties :=
  match s.parties this with
  | none => (false, s)
  | some party =>
    if player ∉ party.inviteList then (false, s)
    else
      let s := s.modifyParty this fun party =>
        { party with inviteList := party.inviteList.erase player }
      let s := if removeFromPlayer then s.removePartyInvitation this player else s
      (true, if s.isEmpty this then s.disband this else s)

def isPlayerInvited : Bool := (s.parties this).any fun party => player ∈ party.inviteList

def invitePlayer : Bool × Parties :=
  match s.parties this with
  | none => (false, s)
  | some party =>
    if player ∈ party.inviteList then (false, s)
    else
      let s := s.modifyParty this fun party =>
        { party with inviteList := party.inviteList ++ [player] }
      (true, s.addPartyInvitation this player)

/-! ## `Player` -/

def getLeader : Option PlayerRef := (s.parties this).map Party.leader

/-- `isInviting`: the leader of a party, to one whom it has invited. -/
def isInviting (invited : PlayerRef) : Bool :=
  match s.party player with
  | none => false
  | some party => s.getLeader party = some player && s.isPlayerInvited party invited

def isPartner (other : PlayerRef) : Bool :=
  (s.party player).isSome && s.party player = s.party other

/-- `clearPartyInvitations` -/
def clearPartyInvitations : Parties :=
  let s := (s.invitePartyList player).foldl
    (fun s invitingParty => (s.removeInvite invitingParty player false).2) s
  s.setInvitePartyList player []

/-! ## `Game` -/

def playerInviteToParty (invitedPlayer : PlayerRef) : Parties :=
  if s.isInviting invitedPlayer player then s
  else if (s.party invitedPlayer).isSome then s
  else
    match s.party player with
    | none => ((s.newParty player).invitePlayer s.fresh invitedPlayer).2
    | some party =>
      if s.getLeader party ≠ some player then s else (s.invitePlayer party invitedPlayer).2

def playerJoinParty (leader : PlayerRef) : Parties :=
  if !s.isInviting leader player then s
  else
    match s.party leader with
    | none => s
    | some party =>
      if s.getLeader party ≠ some leader then s
      else if (s.party player).isSome then s
      else (s.joinParty party player).2

def playerRevokePartyInvitation (invitedPlayer : PlayerRef) : Parties :=
  match s.party player with
  | none => s
  | some party =>
    if s.getLeader party ≠ some player then s
    else if !s.isInviting player invitedPlayer then s
    else (s.removeInvite party invitedPlayer true).2

def playerPassPartyLeadership (newLeader : PlayerRef) : Parties :=
  match s.party player with
  | none => s
  | some party =>
    if s.getLeader party ≠ some player then s
    else if !s.isPartner player newLeader then s
    else (s.passPartyLeadership party newLeader).2

/-- `inFight` says that the player has the condition. -/
def playerLeaveParty (inFight : Bool) : Parties :=
  match s.party player with
  | none => s
  | some party => if inFight then s else (s.leaveParty party player).2

/-- What `Player::onRemoveCreature` does about parties. -/
def logout : Parties :=
  let s := s.clearPartyInvitations player
  match s.party player with
  | none => s
  | some party => (s.leaveParty party player).2

end Parties

/-! ## Calls -/

/-- The requests of a player. -/
inductive PartyRequest
  | invite (player invitedPlayer : PlayerRef)
  | join (player leader : PlayerRef)
  | revoke (player invitedPlayer : PlayerRef)
  | passLeadership (player newLeader : PlayerRef)
  | leave (player : PlayerRef) (inFight : Bool)

def PartyRequest.step (s : Parties) : PartyRequest → Option Parties
  | .invite player invitedPlayer => some (s.playerInviteToParty player invitedPlayer)
  | .join player leader => some (s.playerJoinParty player leader)
  | .revoke player invitedPlayer => some (s.playerRevokePartyInvitation player invitedPlayer)
  | .passLeadership player newLeader => some (s.playerPassPartyLeadership player newLeader)
  | .leave player inFight => some (s.playerLeaveParty player inFight)

/-- Requests, logouts and what a script may do with a party. -/
inductive PartyCall
  | request (request : PartyRequest)
  | logout (player : PlayerRef)
  | disband (party : PartyRef)
  | invitePlayer (party : PartyRef) (player : PlayerRef)
  | removeInvite (party : PartyRef) (player : PlayerRef)
  | joinParty (party : PartyRef) (player : PlayerRef)
  | leaveParty (party : PartyRef) (player : PlayerRef)
  | passPartyLeadership (party : PartyRef) (player : PlayerRef)

def PartyCall.step (s : Parties) : PartyCall → Option Parties
  | .request r => r.step s
  | .logout player => some (s.logout player)
  | .disband party => some (s.disband party)
  | .invitePlayer party player => some (s.invitePlayer party player).2
  | .removeInvite party player => some (s.removeInvite party player true).2
  | .joinParty party player => some (s.joinParty party player).2
  | .leaveParty party player => some (s.leaveParty party player).2
  | .passPartyLeadership party player => some (s.passPartyLeadership party player).2

end TibiaServer.Players
