import Mathlib.Data.Set.Basic
import TibiaServer.Library.Run
import TibiaServer.Players.Chat
/-!
# Users of a channel

A user belongs to the channel when he comes.  A party operation finds no channel to remove him
from, because his pointer has been cleared by then, and a change of guild does not look for one.
-/

namespace TibiaServer.Players

open TibiaServer.Library.Run

namespace Chat

variable {s t : Chat} {scripts : Scripts} {player x : PlayerRef} {key key' : ChannelKey}

/-! ## Party operations leave channels alone -/

@[simp] theorem parties_setParties (s : Chat) (parties : Parties) :
    (s.setParties parties).parties = parties := rfl

@[simp] theorem setParties_setParties (s : Chat) (parties parties' : Parties) :
    (s.setParties parties).setParties parties' = s.setParties parties' := rfl

theorem foldl_setParties {α : Type*} (f : Parties → α → Parties) (list : List α) (s : Chat) :
    list.foldl (fun s a => s.setParties (f s.parties a)) s =
      s.setParties (list.foldl f s.parties) := by
  induction list generalizing s with
  | nil => rfl
  | cons a list ih => exact ih _

/-- The channel is looked for by the pointer that has just been cleared. -/
theorem dropParty_eq (s : Chat) (scripts : Scripts) (player : PlayerRef) :
    s.dropParty scripts player = s.setParties (s.parties.setParty player none) := by
  have hnone : (s.setParties (s.parties.setParty player none)).getChannel scripts player
      CHANNEL_PARTY = none := by
    have hparty : (s.parties.setParty player none).party player = none :=
      Function.update_self _ _ _
    rw [getChannel, if_neg (by decide), if_pos rfl, parties_setParties, hparty]
    rfl
  rw [dropParty, sendClosePrivate, if_pos (.inr rfl), removeUserFromChannel, hnone]

theorem disband_eq (s : Chat) (scripts : Scripts) (this : PartyRef) :
    s.disband scripts this = s.setParties (s.parties.disband this) := by
  rw [disband, Parties.disband]
  cases hparty : s.parties.parties this with
  | none => rfl
  | some party =>
    simp only [dropParty_eq]
    rw [foldl_setParties fun s invitee => s.removePartyInvitation this invitee,
      foldl_setParties fun s member => s.setParty member none]
    rfl

theorem setParties_ite {p : Prop} [Decidable p] (s : Chat) (parties parties' : Parties) :
    (if p then s.setParties parties else s.setParties parties') =
      s.setParties (if p then parties else parties') := by
  split <;> rfl

theorem ite_setParties {p : Prop} [Decidable p] (s : Chat) (parties parties' : Parties) :
    (if p then s.setParties parties else s).setParties parties' = s.setParties parties' := by
  split <;> rfl

theorem leaveParty_eq (s : Chat) (scripts : Scripts) (player : PlayerRef) (this : PartyRef) :
    (s.leaveParty scripts player this).2 =
      s.setParties (s.parties.leaveParty this player).2 := by
  rw [leaveParty, Parties.leaveParty]
  cases hparty : s.parties.parties this with
  | none => rfl
  | some party =>
    dsimp only
    split
    · rfl
    · cases party.memberList with
      | nil =>
        simp only [dropParty_eq, disband_eq, parties_setParties, setParties_setParties,
          setParties_ite]
      | cons front rest =>
        dsimp only
        rw [apply_ite Chat.parties]
        simp only [dropParty_eq, disband_eq, parties_setParties, setParties_setParties,
          setParties_ite, ite_setParties]

theorem removeInvite_eq (s : Chat) (scripts : Scripts) (player : PlayerRef) (this : PartyRef)
    (removeFromPlayer : Bool) : (s.removeInvite scripts player this removeFromPlayer).2 =
      s.setParties (s.parties.removeInvite this player removeFromPlayer).2 := by
  rw [removeInvite, Parties.removeInvite]
  cases hparty : s.parties.parties this with
  | none => rfl
  | some party =>
    dsimp only
    split
    · rfl
    · cases removeFromPlayer with
      | true =>
        simp only [if_true, disband_eq, parties_setParties, setParties_setParties,
          setParties_ite]
      | false =>
        simp only [Bool.false_eq_true, if_false, disband_eq, parties_setParties,
          setParties_setParties, setParties_ite]

theorem clearPartyInvitations_eq (s : Chat) (scripts : Scripts) (player : PlayerRef) :
    s.clearPartyInvitations scripts player =
      s.setParties (s.parties.clearPartyInvitations player) := by
  rw [clearPartyInvitations, Parties.clearPartyInvitations]
  simp only [removeInvite_eq]
  rw [foldl_setParties fun s invitingParty => (s.removeInvite invitingParty player false).2]
  rfl

theorem leaveParties_eq (s : Chat) (scripts : Scripts) (player : PlayerRef) :
    s.leaveParties scripts player = s.setParties (s.parties.logout player) := by
  rw [leaveParties, Parties.logout, clearPartyInvitations_eq]
  dsimp only [parties_setParties]
  cases (s.parties.clearPartyInvitations player).party player with
  | none => rfl
  | some party => exact leaveParty_eq _ scripts player party

theorem playerRevokePartyInvitation_eq (s : Chat) (scripts : Scripts)
    (player invitedPlayer : PlayerRef) :
    s.playerRevokePartyInvitation scripts player invitedPlayer =
      s.setParties (s.parties.playerRevokePartyInvitation player invitedPlayer) := by
  rw [playerRevokePartyInvitation, Parties.playerRevokePartyInvitation]
  cases s.parties.party player with
  | none => rfl
  | some party =>
    dsimp only
    split
    · rfl
    · split
      · rfl
      · exact removeInvite_eq s scripts invitedPlayer party true

theorem playerLeaveParty_eq (s : Chat) (scripts : Scripts) (player : PlayerRef) (inFight : Bool) :
    s.playerLeaveParty scripts player inFight =
      s.setParties (s.parties.playerLeaveParty player inFight) := by
  rw [playerLeaveParty, Parties.playerLeaveParty]
  cases s.parties.party player with
  | none => rfl
  | some party =>
    dsimp only
    split
    · rfl
    · exact leaveParty_eq s scripts player party

/-- A call on parties changes parties only: nobody leaves a channel. -/
theorem partyCall_eq (s : Chat) (scripts : Scripts) (call : PartyCall) :
    s.partyCall scripts call = (call.step s.parties).map s.setParties := by
  cases call with
  | request r =>
    cases r with
    | invite player invitedPlayer => rfl
    | join player leader => rfl
    | revoke player invitedPlayer =>
      exact congrArg some (playerRevokePartyInvitation_eq s scripts player invitedPlayer)
    | passLeadership player newLeader => rfl
    | leave player inFight => exact congrArg some (playerLeaveParty_eq s scripts player inFight)
  | logout player => exact congrArg some (leaveParties_eq s scripts player)
  | disband party => exact congrArg some (disband_eq s scripts party)
  | invitePlayer party player => rfl
  | removeInvite party player => exact congrArg some (removeInvite_eq s scripts player party true)
  | joinParty party player => rfl
  | leaveParty party player => exact congrArg some (leaveParty_eq s scripts player party)
  | passPartyLeadership party player => rfl

/-! ## Who may be a user -/

/-- The channel is one of the player's party or guild, or he owns it or is invited. -/
def Belongs (s : Chat) (x : PlayerRef) : ChannelKey → Prop
  | .normalChannel _ => True
  | .guildChannel guildId => s.guilds.getGuildId x = some guildId
  | .partyChannel party => s.parties.party x = some party
  | .privateChannel id => ∃ channel, s.privateChannels id = some channel ∧ channel.isInvited x = true

/-- Every user of a channel belongs there. -/
def Current (s : Chat) : Prop :=
  ∀ key users x, s.users key = some users → x ∈ users → s.Belongs x key

theorem belongs_getChannel {channelId : ℕ} (h : s.getChannel scripts player channelId = some key) :
    s.Belongs player key := by
  unfold getChannel at h
  split at h
  · obtain ⟨guildId, hguildId, h⟩ := Option.bind_eq_some_iff.mp h
    obtain ⟨-, h⟩ := Option.ite_none_right_eq_some.mp h
    exact Option.some.inj h ▸ hguildId
  · split at h
    · obtain ⟨party, hparty, h⟩ := Option.bind_eq_some_iff.mp h
      obtain ⟨-, h⟩ := Option.ite_none_right_eq_some.mp h
      exact Option.some.inj h ▸ hparty
    · split at h
      next =>
        obtain ⟨-, h⟩ := Option.ite_none_right_eq_some.mp h
        exact Option.some.inj h ▸ trivial
      next channel _ hchannel =>
        obtain ⟨hinvited, h⟩ := Option.ite_none_right_eq_some.mp h
        exact Option.some.inj h ▸ ⟨channel, hchannel, hinvited⟩
      next => exact nomatch h

theorem users_setUsers_self {users users' : UsersMap}
    (h : (s.setUsers key users).users key = some users') : users' = users := by
  cases key with
  | normalChannel id => exact Option.some.inj (h.symm.trans (Function.update_self _ _ _))
  | guildChannel guildId => exact Option.some.inj (h.symm.trans (Function.update_self _ _ _))
  | partyChannel party => exact Option.some.inj (h.symm.trans (Function.update_self _ _ _))
  | privateChannel id =>
    change (Function.update s.privateChannels id _ id).map PrivateChatChannel.users = _ at h
    rw [Function.update_self, Option.map_map] at h
    obtain ⟨channel, -, heq⟩ := Option.map_eq_some_iff.mp h
    exact heq.symm

theorem users_setUsers_of_ne (hne : key' ≠ key) (users : UsersMap) :
    (s.setUsers key users).users key' = s.users key' := by
  cases key <;> cases key' <;>
    first
    | rfl
    | exact Function.update_of_ne (fun heq => hne (congrArg _ heq)) _ _
    | exact congrArg (Option.map PrivateChatChannel.users)
        (Function.update_of_ne (fun heq => hne (congrArg _ heq)) _ _)

/-- Invitations do not depend on the users. -/
theorem belongs_setUsers {users : UsersMap} (h : s.Belongs x key') :
    (s.setUsers key users).Belongs x key' := by
  cases key' with
  | normalChannel id => trivial
  | guildChannel guildId => cases key <;> exact h
  | partyChannel party => cases key <;> exact h
  | privateChannel id' =>
    cases key with
    | normalChannel id => exact h
    | guildChannel guildId => exact h
    | partyChannel party => exact h
    | privateChannel id =>
      obtain ⟨channel, hchannel, hinvited⟩ := h
      by_cases heq : id' = id
      · subst heq
        refine ⟨{ channel with users := users }, ?_, hinvited⟩
        exact (Function.update_self _ _ _).trans (congrArg _ hchannel)
      · exact ⟨channel, (Function.update_of_ne heq _ _).trans hchannel, hinvited⟩

theorem Current.setUsers (h : s.Current) {users : UsersMap} (husers : ∀ x ∈ users, s.Belongs x key) :
    (s.setUsers key users).Current := by
  intro key' users' x hkey' hx
  refine belongs_setUsers ?_
  by_cases heq : key' = key
  · subst heq
    exact husers x (users_setUsers_self hkey' ▸ hx)
  · rw [users_setUsers_of_ne heq] at hkey'
    exact h key' users' x hkey' hx

theorem Current.addUser (h : s.Current) (hplayer : s.Belongs player key) :
    (s.addUser scripts player key).2.Current := by
  unfold Chat.addUser
  split
  · exact h
  next users husers =>
    split
    · exact h
    · split
      · exact h
      · refine h.setUsers fun x hx => ?_
        obtain hx | hx := List.mem_append.mp hx
        · exact h key users x husers hx
        · exact List.mem_singleton.mp hx ▸ hplayer

theorem Current.removeUser (h : s.Current) : (s.removeUser player key).2.Current := by
  unfold Chat.removeUser
  split
  · exact h
  next users husers =>
    split
    · exact h.setUsers fun x hx => h key users x husers (List.mem_filter.mp hx).1
    · exact h

/-- A private channel becomes another one, or none: who is a user then was one before, and is
still invited. -/
theorem Current.setPrivateChannel (h : s.Current) {id : ℕ} {new : Option PrivateChatChannel}
    (hnew : ∀ channel, new = some channel → ∀ x ∈ channel.users, channel.isInvited x = true) :
    Current { s with privateChannels := Function.update s.privateChannels id new } := by
  intro key users x husers hx
  cases key with
  | normalChannel id' => trivial
  | guildChannel guildId => exact h (.guildChannel guildId) users x husers hx
  | partyChannel party => exact h (.partyChannel party) users x husers hx
  | privateChannel id' =>
    change (Function.update s.privateChannels id new id').map PrivateChatChannel.users =
      some users at husers
    obtain ⟨channel, hchannel, rfl⟩ := Option.map_eq_some_iff.mp husers
    refine ⟨channel, hchannel, ?_⟩
    by_cases heq : id' = id
    · subst heq
      rw [Function.update_self] at hchannel
      exact hnew channel hchannel x hx
    · rw [Function.update_of_ne heq] at hchannel
      have husers' : s.users (.privateChannel id') = some channel.users := by
        rw [users, hchannel]
        rfl
      obtain ⟨channel', hchannel', hinvited⟩ := h (.privateChannel id') _ x husers' hx
      rw [hchannel] at hchannel'
      exact Option.some.inj hchannel' ▸ hinvited

theorem Current.isInvited (h : s.Current) {id : ℕ} {channel : PrivateChatChannel}
    (hchannel : s.privateChannels id = some channel) (hx : x ∈ channel.users) :
    channel.isInvited x = true := by
  have husers : s.users (.privateChannel id) = some channel.users := by
    rw [users, hchannel]
    rfl
  obtain ⟨channel', hchannel', hinvited⟩ := h (.privateChannel id) _ x husers hx
  rw [hchannel] at hchannel'
  exact Option.some.inj hchannel' ▸ hinvited

theorem Current.createChannel (h : s.Current) (isPremium : Bool) (channelId : ℕ) :
    (s.createChannel scripts player isPremium channelId).2.Current := by
  have hempty (key : ChannelKey) : (s.setUsers key []).Current :=
    h.setUsers fun _ hx => (nomatch hx)
  unfold Chat.createChannel
  split
  · exact h
  · split
    · split
      next guildId _ => exact hempty (.guildChannel guildId)
      next => exact h
    · split
      · split
        next party _ => exact hempty (.partyChannel party)
        next => exact h
      · split
        · split
          · exact h
          · split
            · refine h.setPrivateChannel fun channel hnew x hx => ?_
              rw [← Option.some.inj hnew] at hx
              exact nomatch hx
            · exact h
        · exact h

theorem belongs_createChannel {isPremium : Bool} (h : s.createChannel scripts player isPremium
    CHANNEL_PRIVATE = (some key, t)) : t.Belongs player key := by
  unfold Chat.createChannel at h
  split at h
  · exact nomatch h
  · rw [if_neg (by decide), if_neg (by decide), if_pos rfl] at h
    split at h
    · exact nomatch h
    · split at h
      next id _ =>
        cases h
        exact ⟨{ owner := player }, Function.update_self _ _ _, by simp [PrivateChatChannel.isInvited]⟩
      next => exact nomatch h

theorem Current.playerCreatePrivateChannel (h : s.Current) (isPremium : Bool) :
    (s.playerCreatePrivateChannel scripts player isPremium).Current := by
  have hcreated : (s.createChannel scripts player isPremium CHANNEL_PRIVATE).2.Current :=
    h.createChannel isPremium CHANNEL_PRIVATE
  unfold Chat.playerCreatePrivateChannel
  split
  next key t heq =>
    rw [heq] at hcreated
    exact hcreated.addUser (belongs_createChannel heq)
  next t heq =>
    rw [heq] at hcreated
    exact hcreated

theorem Current.addUserToChannel (h : s.Current) (channelId : ℕ) :
    (s.addUserToChannel scripts player channelId).2.Current := by
  unfold Chat.addUserToChannel
  split
  next => exact h
  next key hkey =>
    have hadded : (s.addUser scripts player key).2.Current :=
      h.addUser (belongs_getChannel hkey)
    split
    next t heq =>
      rw [heq] at hadded
      exact hadded
    next t heq =>
      rw [heq] at hadded
      exact hadded

theorem Current.deleteChannel (h : s.Current) (id : ℕ) : (s.deleteChannel id).Current :=
  h.setPrivateChannel fun _ hnew => (nomatch hnew)

theorem Current.removeUserFromChannel (h : s.Current) (channelId : ℕ) :
    (s.removeUserFromChannel scripts player channelId).2.Current := by
  unfold Chat.removeUserFromChannel
  split
  next => exact h
  next key _ =>
    have hremoved : (s.removeUser player key).2.Current := h.removeUser
    split
    next t heq =>
      rw [heq] at hremoved
      exact hremoved
    next t heq =>
      rw [heq] at hremoved
      dsimp only
      split
      · exact hremoved.deleteChannel channelId
      · exact hremoved

theorem Current.modifyPrivateChannel (h : s.Current) {f : PrivateChatChannel → PrivateChatChannel}
    (hf : ∀ channel, (∀ x ∈ channel.users, channel.isInvited x = true) →
      ∀ x ∈ (f channel).users, (f channel).isInvited x = true) :
    (s.modifyPrivateChannel player f).Current := by
  unfold Chat.modifyPrivateChannel
  split
  · refine h.setPrivateChannel fun channel' hnew => ?_
    obtain ⟨channel, hchannel, rfl⟩ := Option.map_eq_some_iff.mp hnew
    exact hf channel fun x hx => h.isInvited hchannel hx
  · exact h

theorem Current.playerChannelInvite (h : s.Current) (invitePlayer : PlayerRef) :
    (s.playerChannelInvite player invitePlayer).Current := by
  unfold Chat.playerChannelInvite
  split
  · exact h
  · refine h.modifyPrivateChannel fun channel hinvited x hx => ?_
    split at hx
    next hmem => simpa only [if_pos hmem] using hinvited x hx
    next hmem =>
      have hx' := hinvited x hx
      rw [if_neg hmem]
      unfold PrivateChatChannel.isInvited at hx' ⊢
      simp only [Bool.or_eq_true, decide_eq_true_eq, List.mem_append] at hx' ⊢
      exact hx'.imp_right Or.inl

theorem Current.playerChannelExclude (h : s.Current) (excludePlayer : PlayerRef) :
    (s.playerChannelExclude player excludePlayer).Current := by
  unfold Chat.playerChannelExclude
  split
  · exact h
  · refine h.modifyPrivateChannel fun channel hinvited x hx => ?_
    split at hx
    next hmem =>
      obtain ⟨hx, hne⟩ := List.mem_filter.mp hx
      have hx' := hinvited x hx
      rw [if_pos hmem]
      unfold PrivateChatChannel.isInvited at hx' ⊢
      simp only [Bool.or_eq_true, decide_eq_true_eq, List.mem_filter] at hx' ⊢
      exact hx'.imp_right fun hx => ⟨hx, of_decide_eq_true hne⟩
    next hmem => simpa only [if_neg hmem] using hinvited x hx

/-! ## Leaving all channels -/

/-- Who is a user still was one before, and is not the player. -/
theorem users_removeUserFromAllChannels {users : UsersMap}
    (h : (s.removeUserFromAllChannels player).users key = some users) :
    ∃ users', s.users key = some users' ∧ ∀ x ∈ users, x ∈ users' ∧ x ≠ player := by
  have hfilter (users' : UsersMap) :
      ∀ x ∈ users'.filter (· ≠ player), x ∈ users' ∧ x ≠ player := fun x hx =>
    ⟨(List.mem_filter.mp hx).1, of_decide_eq_true (List.mem_filter.mp hx).2⟩
  cases key with
  | normalChannel id =>
    obtain ⟨users', husers', rfl⟩ := Option.map_eq_some_iff.mp h
    exact ⟨users', husers', hfilter users'⟩
  | guildChannel guildId =>
    obtain ⟨users', husers', rfl⟩ := Option.map_eq_some_iff.mp h
    exact ⟨users', husers', hfilter users'⟩
  | partyChannel party =>
    obtain ⟨users', husers', rfl⟩ := Option.map_eq_some_iff.mp h
    exact ⟨users', husers', hfilter users'⟩
  | privateChannel id =>
    obtain ⟨channel, hchannel, rfl⟩ := Option.map_eq_some_iff.mp h
    obtain ⟨channel', hchannel', heq⟩ := Option.bind_eq_some_iff.mp hchannel
    obtain ⟨-, heq⟩ := Option.ite_none_left_eq_some.mp heq
    obtain rfl := Option.some.inj heq
    refine ⟨channel'.users, ?_, hfilter channel'.users⟩
    rw [users, hchannel']
    rfl

theorem belongs_removeUserFromAllChannels (hne : x ≠ player) (h : s.Belongs x key) {users : UsersMap}
    (husers : (s.removeUserFromAllChannels player).users key = some users) :
    (s.removeUserFromAllChannels player).Belongs x key := by
  cases key with
  | normalChannel id => trivial
  | guildChannel guildId => exact h
  | partyChannel party => exact h
  | privateChannel id =>
    obtain ⟨channel, hchannel, -⟩ := Option.map_eq_some_iff.mp husers
    refine ⟨channel, hchannel, ?_⟩
    obtain ⟨channel', hchannel', heq⟩ := Option.bind_eq_some_iff.mp hchannel
    obtain ⟨-, heq⟩ := Option.ite_none_left_eq_some.mp heq
    obtain rfl := Option.some.inj heq
    obtain ⟨channel'', hchannel'', hinvited⟩ := h
    obtain rfl := Option.some.inj (hchannel'.symm.trans hchannel'')
    unfold PrivateChatChannel.isInvited at hinvited ⊢
    simp only [Bool.or_eq_true, decide_eq_true_eq, List.mem_filter] at hinvited ⊢
    exact hinvited.imp_right fun hx => ⟨hx, hne⟩

theorem Current.removeUserFromAllChannels (h : s.Current) (player : PlayerRef) :
    (s.removeUserFromAllChannels player).Current := by
  intro key users x husers hx
  obtain ⟨users', husers', hleft⟩ := users_removeUserFromAllChannels husers
  obtain ⟨hx', hne⟩ := hleft x hx
  exact belongs_removeUserFromAllChannels hne (h key users' x husers' hx') husers

/-! ## Losing a party or a guild -/

/-- Nobody but `E` has another party while he is a user of a party channel. -/
def PartiesStay (s : Chat) (E : Set PlayerRef) (parties : Parties) : Prop :=
  ∀ party users x, s.partyChannels party = some users → x ∈ users → x ∉ E →
    parties.party x = s.parties.party x

/-- Nobody but `E` has another guild while he is a user of a guild channel. -/
def GuildsStay (s : Chat) (E : Set PlayerRef) (guilds : Guilds) : Prop :=
  ∀ guildId users x, s.guildChannels guildId = some users → x ∈ users → x ∉ E →
    guilds.getGuildId x = s.guilds.getGuildId x

/-- Other parties and guilds, with the same channels. -/
theorem current_withMembers (h : s.Current) (parties : Parties) (guilds : Guilds) :
    Current { s with parties := parties, guilds := guilds } ↔
      s.PartiesStay ∅ parties ∧ s.GuildsStay ∅ guilds := by
  constructor
  · intro ht
    constructor
    · intro party users x husers hx _
      exact (ht (.partyChannel party) users x husers hx).trans
        (h (.partyChannel party) users x husers hx).symm
    · intro guildId users x husers hx _
      exact (ht (.guildChannel guildId) users x husers hx).trans
        (h (.guildChannel guildId) users x husers hx).symm
  · rintro ⟨hparties, hguilds⟩ key users x husers hx
    cases key with
    | normalChannel id => trivial
    | guildChannel guildId =>
      exact (hguilds guildId users x husers hx (Set.notMem_empty x)).trans
        (h (.guildChannel guildId) users x husers hx)
    | partyChannel party =>
      exact (hparties party users x husers hx (Set.notMem_empty x)).trans
        (h (.partyChannel party) users x husers hx)
    | privateChannel id => exact h (.privateChannel id) users x husers hx

/-- The condition on an action. -/
def KeepsMembers (s : Chat) : Scripts × ChatAction → Prop
  | (_, .party call) => ∀ parties, call.step s.parties = some parties → s.PartiesStay ∅ parties
  | (_, .guild action) => ∀ guilds, s.guilds.step action = some guilds → s.GuildsStay ∅ guilds
  | (_, .logout player) =>
    s.PartiesStay {player} (s.parties.logout player) ∧
      ∀ guilds, s.guilds.step (.logout player) = some guilds → s.GuildsStay {player} guilds
  | _ => True

theorem partiesStay_self (s : Chat) (E : Set PlayerRef) : s.PartiesStay E s.parties :=
  fun _ _ _ _ _ _ => rfl

theorem guildsStay_self (s : Chat) (E : Set PlayerRef) : s.GuildsStay E s.guilds :=
  fun _ _ _ _ _ _ => rfl

theorem mem_leave_iff {users users' : UsersMap} (h : users'.filter (· ≠ player) = users) :
    x ∈ users ↔ x ∈ users' ∧ x ≠ player := by
  rw [← h, List.mem_filter, decide_eq_true_eq]

/-- He who has been removed from all channels does not count. -/
theorem partiesStay_removeUserFromAllChannels (s : Chat) (player : PlayerRef) (parties : Parties) :
    (s.removeUserFromAllChannels player).PartiesStay ∅ parties ↔ s.PartiesStay {player} parties := by
  constructor
  · intro h party users x husers hx hne
    refine h party (users.filter (· ≠ player)) x ?_ ?_ (Set.notMem_empty x)
    · exact congrArg (Option.map _) husers
    · exact (mem_leave_iff rfl).mpr ⟨hx, hne⟩
  · intro h party users x husers hx _
    obtain ⟨users', husers', heq⟩ := Option.map_eq_some_iff.mp husers
    obtain ⟨hx', hne⟩ := (mem_leave_iff heq).mp hx
    exact h party users' x husers' hx' hne

theorem guildsStay_removeUserFromAllChannels (s : Chat) (player : PlayerRef) (guilds : Guilds) :
    (s.removeUserFromAllChannels player).GuildsStay ∅ guilds ↔ s.GuildsStay {player} guilds := by
  constructor
  · intro h guildId users x husers hx hne
    refine h guildId (users.filter (· ≠ player)) x ?_ ?_ (Set.notMem_empty x)
    · exact congrArg (Option.map _) husers
    · exact (mem_leave_iff rfl).mpr ⟨hx, hne⟩
  · intro h guildId users x husers hx _
    obtain ⟨users', husers', heq⟩ := Option.map_eq_some_iff.mp husers
    obtain ⟨hx', hne⟩ := (mem_leave_iff heq).mp hx
    exact h guildId users' x husers' hx' hne

theorem current_step (h : s.Current) {action : Scripts × ChatAction}
    (ht : s.step action = some t) : t.Current ↔ s.KeepsMembers action := by
  obtain ⟨scripts, action⟩ := action
  cases action with
  | createChannel player isPremium channelId =>
    exact iff_of_true (Option.some.inj ht ▸ h.createChannel isPremium channelId) trivial
  | createPrivateChannel player isPremium =>
    exact iff_of_true (Option.some.inj ht ▸ h.playerCreatePrivateChannel isPremium) trivial
  | addUserToChannel player channelId =>
    exact iff_of_true (Option.some.inj ht ▸ h.addUserToChannel channelId) trivial
  | removeUserFromChannel player channelId =>
    exact iff_of_true (Option.some.inj ht ▸ h.removeUserFromChannel channelId) trivial
  | removeUserFromAllChannels player =>
    exact iff_of_true (Option.some.inj ht ▸ h.removeUserFromAllChannels player) trivial
  | invite player invitePlayer =>
    exact iff_of_true (Option.some.inj ht ▸ h.playerChannelInvite invitePlayer) trivial
  | exclude player excludePlayer =>
    exact iff_of_true (Option.some.inj ht ▸ h.playerChannelExclude excludePlayer) trivial
  | party call =>
    obtain ⟨parties, hparties, rfl⟩ := Option.map_eq_some_iff.mp ((partyCall_eq s scripts call).symm.trans ht)
    refine (current_withMembers h parties s.guilds).trans ?_
    constructor
    · rintro ⟨hstay, -⟩ parties' hparties'
      exact Option.some.inj (hparties.symm.trans hparties') ▸ hstay
    · intro hkeeps
      exact ⟨hkeeps parties hparties, guildsStay_self s ∅⟩
  | guild action =>
    obtain ⟨guilds, hguilds, rfl⟩ := Option.map_eq_some_iff.mp ht
    refine (current_withMembers h s.parties guilds).trans ?_
    constructor
    · rintro ⟨-, hstay⟩ guilds' hguilds'
      exact Option.some.inj (hguilds.symm.trans hguilds') ▸ hstay
    · intro hkeeps
      exact ⟨partiesStay_self s ∅, hkeeps guilds hguilds⟩
  | logout player =>
    change s.onLogout scripts player = some t at ht
    rw [onLogout, leaveParties_eq] at ht
    obtain ⟨guilds, hguilds, rfl⟩ := Option.map_eq_some_iff.mp ht
    refine (current_withMembers (h.removeUserFromAllChannels player)
      (s.parties.logout player) guilds).trans ?_
    rw [partiesStay_removeUserFromAllChannels, guildsStay_removeUserFromAllChannels]
    refine and_congr_right fun _ => ⟨fun hstay guilds' hguilds' => ?_, fun hkeeps => ?_⟩
    · exact Option.some.inj (hguilds.symm.trans hguilds') ▸ hstay
    · exact hkeeps guilds hguilds

end Chat

/-- Every user of a channel belongs there in every state of a history exactly when nobody loses
his party or guild while he is a user of its channel. -/
theorem channel_users_current_iff (actions : List (Scripts × ChatAction)) :
    Always Chat.step Chat.Current {} actions ↔
      EachStep Chat.step Chat.KeepsMembers {} actions := by
  have hempty : Chat.Current {} := by
    intro key users x husers hx
    cases key <;> exact nomatch husers
  exact always_iff_eachStep (I := fun _ => True) (fun _ _ _ _ _ => trivial)
    (fun _ _ _ _ hs ht => Chat.current_step hs ht) actions _ trivial hempty

/-- Player 3 leaves the party of 1 and 2, and goes on listening. -/
theorem former_member_listens :
    ¬Always Chat.step Chat.Current {}
      [({}, .party (.request (.invite 1 2))), ({}, .party (.request (.join 2 1))),
        ({}, .party (.request (.invite 1 3))), ({}, .party (.request (.join 3 1))),
        ({}, .createChannel 1 false CHANNEL_PARTY), ({}, .addUserToChannel 1 CHANNEL_PARTY),
        ({}, .addUserToChannel 3 CHANNEL_PARTY), ({}, .party (.request (.leave 3 false)))] := by
  intro h
  have hbelongs := h.last rfl (.partyChannel 0) [1, 3] 3 rfl (by decide)
  change none = some 0 at hbelongs
  exact nomatch hbelongs

end TibiaServer.Players
