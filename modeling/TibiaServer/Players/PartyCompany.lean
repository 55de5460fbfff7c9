import TibiaServer.Library.Run
import TibiaServer.Players.PartyMembers
/-!
# Sequences of party operations

What players request keeps parties and players agreeing.  A script may add one who is in a
party to another, which the request to join refuses.  A party that is left with nobody but its
leader disbands, so a live party has a member or an invitation.  That an invitation is company
rests on its being somebody else's, which nothing checks when the party is made for it.
-/

namespace TibiaServer.Players

open TibiaServer.Library

namespace Parties

/-! ## Requests -/

section Requests

variable {s t : Parties}

theorem Consistent.playerInviteToParty (hs : s.Consistent ∅) (player invitedPlayer : PlayerRef) :
    (s.playerInviteToParty player invitedPlayer).Consistent ∅ := by
  unfold Parties.playerInviteToParty
  split
  · exact hs
  · split
    · exact hs
    · split
      next hno => exact (hs.newParty hno).invitePlayer _ _
      next party hparty =>
        split
        · exact hs
        · exact hs.invitePlayer _ _

theorem Consistent.playerJoinParty (hs : s.Consistent ∅) (player leader : PlayerRef) :
    (s.playerJoinParty player leader).Consistent ∅ := by
  unfold Parties.playerJoinParty
  split
  · exact hs
  · split
    · exact hs
    · split
      · exact hs
      · split
        · exact hs
        next hfree => exact hs.joinParty _ (by simpa using hfree)

theorem Consistent.playerRevokePartyInvitation (hs : s.Consistent ∅)
    (player invitedPlayer : PlayerRef) :
    (s.playerRevokePartyInvitation player invitedPlayer).Consistent ∅ := by
  unfold Parties.playerRevokePartyInvitation
  split
  · exact hs
  · split
    · exact hs
    · split
      · exact hs
      · exact hs.removeInvite _ (.inl rfl)

theorem Consistent.playerPassPartyLeadership (hs : s.Consistent ∅)
    (player newLeader : PlayerRef) :
    (s.playerPassPartyLeadership player newLeader).Consistent ∅ := by
  unfold Parties.playerPassPartyLeadership
  split
  · exact hs
  · split
    · exact hs
    · split
      · exact hs
      · exact hs.passPartyLeadership _ _

theorem Consistent.playerLeaveParty (hs : s.Consistent ∅) (player : PlayerRef) (inFight : Bool) :
    (s.playerLeaveParty player inFight).Consistent ∅ := by
  unfold Parties.playerLeaveParty
  split
  · exact hs
  · split
    · exact hs
    · exact hs.leaveParty _ player

theorem Consistent.request (hs : s.Consistent ∅) {r : PartyRequest} (h : r.step s = some t) :
    t.Consistent ∅ := by
  cases r with
  | invite player invitedPlayer =>
    exact Option.some.inj h ▸ hs.playerInviteToParty player invitedPlayer
  | join player leader => exact Option.some.inj h ▸ hs.playerJoinParty player leader
  | revoke player invitedPlayer =>
    exact Option.some.inj h ▸ hs.playerRevokePartyInvitation player invitedPlayer
  | passLeadership player newLeader =>
    exact Option.some.inj h ▸ hs.playerPassPartyLeadership player newLeader
  | leave player inFight => exact Option.some.inj h ▸ hs.playerLeaveParty player inFight

end Requests

theorem consistent_empty : Consistent ∅ {} := fun _ =>
  agrees_of_none rfl (fun _ h => nomatch h) (fun _ _ h => nomatch h)

/-! ## Calls -/

/-- The party pointer of a player, the lists of his party and the invitations tell the same. -/
structure Membership (s : Parties) : Prop where
  party : ∀ x P, s.party x = some P ↔
    ∃ party, s.parties P = some party ∧ (party.leader = x ∨ party.memberList.count x = 1)
  leader : ∀ P party, s.parties P = some party → party.leader ∉ party.memberList
  invited : ∀ x P, (∃ party, s.parties P = some party ∧ x ∈ party.inviteList) ↔
    P ∈ s.invitePartyList x

/-- Whom a script adds to a party that has invited him is not in a party. -/
def AddsUnattached (s : Parties) : PartyCall → Prop
  | .joinParty party player => s.isPlayerInvited party player → s.party player = none
  | _ => True

section Calls

variable {s t : Parties} {this : PartyRef} {player : PlayerRef}

theorem Consistent.membership (hs : s.Consistent ∅) : s.Membership where
  party x P := by
    rw [(hs P).party x]
    constructor
    · rintro ⟨party, hparty, hhas⟩
      have hnodup := ((hs P).sound party hparty).members
      exact ⟨party, hparty, hhas.imp_right (List.count_eq_one_of_mem hnodup)⟩
    · rintro ⟨party, hparty, hhas⟩
      refine ⟨party, hparty, hhas.imp_right fun hcount => ?_⟩
      apply List.count_pos_iff.mp
      omega
  leader P party hparty := ((hs P).sound party hparty).leader
  invited x P := ((hs P).invited x (Set.notMem_empty x)).symm

theorem joinParty_eq_of_not_invited (hin : ¬s.isPlayerInvited this player) :
    (s.joinParty this player).2 = s := by
  unfold Parties.isPlayerInvited at hin
  unfold Parties.joinParty
  split
  · rfl
  next party hp => simp [show player ∉ party.inviteList by simpa [hp] using hin]

/-- One who has a party and is added to a party belongs to two, or twice to one. -/
theorem not_membership_joinParty (hs : s.Consistent ∅) (hin : s.isPlayerInvited this player)
    (hattached : s.party player ≠ none) : ¬(s.joinParty this player).2.Membership := by
  intro ht
  obtain ⟨party, hp, hinvited⟩ : ∃ party, s.parties this = some party ∧
      player ∈ party.inviteList := by
    simpa [Parties.isPlayerInvited, Option.any_eq_true] using hin
  obtain ⟨Q, hQ⟩ := Option.ne_none_iff_exists'.mp hattached
  let join : Party → Party := fun party =>
    { party with
      inviteList := party.inviteList.erase player, memberList := party.memberList ++ [player] }
  have hjoin : (s.joinParty this player).2 =
      ((s.modifyParty this join).setParty player (some this)).removePartyInvitation this
        player := by
    unfold Parties.joinParty
    simp [hp, hinvited, join]
  rw [hjoin] at ht
  have hptr : (((s.modifyParty this join).setParty player (some this)).removePartyInvitation this
      player).party player = some this := Function.update_self _ _ _
  by_cases hthis : Q = this
  · have hlive : (s.modifyParty this join).parties this = some (join party) := by
      rw [parties_modifyParty, if_pos rfl, hp, Option.map_some]
    obtain ⟨party', hparty', hhas'⟩ := (ht.party player this).mp hptr
    obtain rfl : join party = party' := Option.some.inj (hlive.symm.trans hparty')
    have hleader : party.leader ∉ party.memberList ++ [player] := ht.leader this _ hlive
    rw [hthis, (hs this).has hp] at hQ
    have hcount : (party.memberList ++ [player]).count player = 1 :=
      hhas'.resolve_left fun heq => hleader (by simp [show party.leader = player from heq])
    rcases hQ with heq | hmem
    · exact hleader (by simp [heq])
    · have hpos := List.count_pos_iff.mpr hmem
      rw [List.count_append, List.count_singleton_self] at hcount
      omega
  · obtain ⟨party', hparty', hhas⟩ := (hs.membership.party player Q).mp hQ
    have hlive : (s.modifyParty this join).parties Q = some party' := by
      rw [parties_modifyParty, if_neg hthis, hparty']
    have hstill := (ht.party player Q).mpr ⟨party', hlive, hhas⟩
    exact hthis (Option.some.inj (hstill.symm.trans hptr))

theorem Consistent.call (hs : s.Consistent ∅) {c : PartyCall} (hc : s.AddsUnattached c)
    (h : c.step s = some t) : t.Consistent ∅ := by
  cases c with
  | request r => exact hs.request h
  | logout player => exact Option.some.inj h ▸ hs.logout player
  | disband party => exact Option.some.inj h ▸ hs.disband party
  | invitePlayer party player => exact Option.some.inj h ▸ hs.invitePlayer party player
  | removeInvite party player => exact Option.some.inj h ▸ hs.removeInvite party (.inl rfl)
  | joinParty party player =>
    obtain rfl := Option.some.inj h
    by_cases hin : s.isPlayerInvited party player
    · exact hs.joinParty party (hc hin)
    · rwa [joinParty_eq_of_not_invited hin]
  | leaveParty party player => exact Option.some.inj h ▸ hs.leaveParty party player
  | passPartyLeadership party player =>
    exact Option.some.inj h ▸ hs.passPartyLeadership party player

/-- A call that is not so guarded breaks what the guarded ones keep. -/
theorem not_membership_call (hs : s.Consistent ∅) {c : PartyCall} (hc : ¬s.AddsUnattached c)
    (h : c.step s = some t) : ¬t.Membership := by
  cases c with
  | joinParty party player =>
    obtain ⟨hin, hattached⟩ := Classical.not_imp.mp hc
    exact Option.some.inj h ▸ not_membership_joinParty hs hin hattached
  | _ => exact absurd trivial hc

end Calls

/-- In every sequence of party operations, players and parties agree on who belongs where
exactly as long as scripts add only those that have no party. -/
theorem always_membership_iff (calls : List PartyCall) :
    Run.Always PartyCall.step Membership {} calls ↔
      Run.EachStep PartyCall.step AddsUnattached {} calls :=
  Run.always_iff_of_breaks (fun _ hs => hs.membership) (fun _ _ _ hs hc => hs.call hc)
    (fun _ _ _ hs hc => not_membership_call hs hc) calls {} consistent_empty

/-- A script adds one who leads a party to the party that has invited him. -/
theorem addMember_two_parties :
    ¬Run.Always PartyCall.step Membership {}
      [.request (.invite 1 2), .request (.invite 2 3), .joinParty 0 2] := by
  intro h
  have hlast : Membership
      (((playerInviteToParty {} 1 2).playerInviteToParty 2 3).joinParty 0 2).2 :=
    (((h.2 _ rfl).2 _ rfl).2 _ rfl).head
  have hleads := (hlast.party 2 1).mpr ⟨{ leader := 2, inviteList := [3] }, rfl, .inl rfl⟩
  exact absurd hleads (by decide)

/-! ## Company -/

structure Company (s : Parties) : Prop where
  company : ∀ P party, s.parties P = some party →
    ∃ x, x ≠ party.leader ∧ (x ∈ party.memberList ∨ x ∈ party.inviteList)
  invited : ∀ P party x, s.parties P = some party → x ∈ party.inviteList → s.party x ≠ some P

/-- A party is made for an invitation of somebody else. -/
def InvitesAnother (s : Parties) : PartyRequest → Prop
  | .invite player invitedPlayer => player = invitedPlayer → s.party player ≠ none
  | _ => True

def Filled (s : Parties) : Prop := ∀ P party, s.parties P = some party → party.empty = false

def NoOwnInvite (s : Parties) : Prop :=
  ∀ P party x, s.parties P = some party → x ∈ party.inviteList → s.party x ≠ some P

/-- Only the party `this` changes, and pointers and its invitations can only be lost. -/
structure Trims (this : PartyRef) (s t : Parties) : Prop where
  parties : ∀ P, P ≠ this → t.parties P = s.parties P
  party : ∀ x P, t.party x = some P → s.party x = some P
  invited : ∀ party', t.parties this = some party' →
    ∃ party, s.parties this = some party ∧ party'.inviteList ⊆ party.inviteList

section Trims

variable {s t u : Parties} {this : PartyRef} {player : PlayerRef} {party : Party}

theorem Company.of_filled (hs : s.Consistent ∅) (hfilled : s.Filled) (hown : s.NoOwnInvite) :
    s.Company where
  invited := hown
  company P party hP := by
    have hsome := hfilled P party hP
    have hagrees := hs P
    cases hmember : party.memberList with
    | cons x members =>
      have hx : x ∈ party.memberList := hmember ▸ List.mem_cons_self
      refine ⟨x, ?_, .inl List.mem_cons_self⟩
      exact ne_of_mem_of_not_mem hx (hagrees.sound party hP).leader
    | nil =>
      cases hinvite : party.inviteList with
      | nil => simp [Party.empty, hmember, hinvite] at hsome
      | cons x invitees =>
        refine ⟨x, ?_, .inr List.mem_cons_self⟩
        rintro rfl
        apply hown P party party.leader hP
        · exact hinvite ▸ List.mem_cons_self
        · exact (hagrees.has hP party.leader).mpr (.inl rfl)

theorem Company.filled (h : s.Company) : s.Filled := by
  intro P party hP
  obtain ⟨x, -, hx⟩ := h.company P party hP
  unfold Party.empty
  rcases hx with hx | hx
  · simp [List.ne_nil_of_mem hx]
  · simp [List.ne_nil_of_mem hx]

theorem Trims.refl (this : PartyRef) (s : Parties) : Trims this s s :=
  ⟨fun _ _ => rfl, fun _ _ h => h, fun party h => ⟨party, h, List.Subset.refl _⟩⟩

theorem Trims.trans (h : Trims this s t) (h' : Trims this t u) : Trims this s u where
  parties P hP := (h'.parties P hP).trans (h.parties P hP)
  party x P hx := h.party x P (h'.party x P hx)
  invited party'' hp'' := by
    obtain ⟨party', hp', hsub'⟩ := h'.invited party'' hp''
    obtain ⟨party, hp, hsub⟩ := h.invited party' hp'
    exact ⟨party, hp, List.Subset.trans hsub' hsub⟩

theorem trims_modifyParty (s : Parties) (this : PartyRef) {f : Party → Party}
    (hf : ∀ party, (f party).inviteList ⊆ party.inviteList) :
    Trims this s (s.modifyParty this f) where
  parties P hP := by rw [parties_modifyParty, if_neg hP]
  party _ _ hx := hx
  invited party' hp' := by
    rw [parties_modifyParty, if_pos rfl] at hp'
    obtain ⟨party, hp, rfl⟩ := Option.map_eq_some_iff.mp hp'
    exact ⟨party, hp, hf party⟩

theorem trims_setParty (s : Parties) (this : PartyRef) (player : PlayerRef) :
    Trims this s (s.setParty player none) where
  parties _ _ := rfl
  party x P hx := by
    rw [party_setParty] at hx
    split at hx
    · exact nomatch hx
    · exact hx
  invited party hp := ⟨party, hp, List.Subset.refl _⟩

theorem trims_removePartyInvitation (s : Parties) (this : PartyRef) (player : PlayerRef) :
    Trims this s (s.removePartyInvitation this player) :=
  ⟨fun _ _ => rfl, fun _ _ h => h, fun party h => ⟨party, h, List.Subset.refl _⟩⟩

theorem parties_disband_self (s : Parties) (this : PartyRef) :
    (s.disband this).parties this = none := by
  cases hp : s.parties this with
  | none =>
    unfold disband
    rw [hp]
    exact hp
  | some party => exact (disband_spec hp).gone

theorem trims_disband (s : Parties) (this : PartyRef) : Trims this s (s.disband this) := by
  cases hp : s.parties this with
  | none =>
    have hsame : s.disband this = s := by
      unfold disband
      rw [hp]
    rw [hsame]
    exact Trims.refl this s
  | some party =>
    have hspec := disband_spec hp
    exact
      { parties := hspec.parties
        party := fun x P hx => by
          by_cases hhas : party.Has x
          · rw [hspec.left x hhas] at hx
            exact nomatch hx
          · rwa [hspec.others x hhas] at hx
        invited := fun party' hp' => nomatch hspec.gone.symm.trans hp' }

theorem Trims.noOwnInvite (h : Trims this s t) (hs : s.NoOwnInvite) : t.NoOwnInvite := by
  intro P party' x hP hx hptr
  by_cases hthis : P = this
  · subst hthis
    obtain ⟨party, hp, hsub⟩ := h.invited party' hP
    exact hs P party x hp (hsub hx) (h.party x P hptr)
  · rw [h.parties P hthis] at hP
    exact hs P party' x hP hx (h.party x P hptr)

theorem Trims.filled (h : Trims this s t) (hs : s.Filled)
    (hthis : ∀ party, t.parties this = some party → party.empty = false) : t.Filled := by
  intro P party hP
  by_cases hne : P = this
  · exact hthis party (hne ▸ hP)
  · rw [h.parties P hne] at hP
    exact hs P party hP

/-- The party that has lost a member or an invitation disbands if that was the last one. -/
theorem Trims.filled_disband {p : Prop} [Decidable p] (h : Trims this s t) (hs : s.Filled) :
    (if p ∨ t.isEmpty this then t.disband this else t).Filled := by
  split
  · apply (h.trans (trims_disband t this)).filled hs
    intro party hp
    exact nomatch (parties_disband_self t this).symm.trans hp
  next hnot =>
    apply h.filled hs
    intro party hp
    simpa [isEmpty, hp] using (not_or.mp hnot).2

theorem trims_passPartyLeadership (s : Parties) (this : PartyRef) (player : PlayerRef) :
    Trims this s (s.passPartyLeadership this player).2 := by
  unfold passPartyLeadership
  split
  · exact Trims.refl this s
  · split
    · exact Trims.refl this s
    · exact trims_modifyParty s this fun party => List.Subset.refl _

theorem Filled.passPartyLeadership (hs : s.Filled) (this : PartyRef) (player : PlayerRef) :
    (s.passPartyLeadership this player).2.Filled := by
  unfold Parties.passPartyLeadership
  split
  · exact hs
  next party hp =>
    split
    · exact hs
    next hcan =>
      have htrims := trims_modifyParty s this (f := fun party =>
        { party with
          leader := player, memberList := party.leader :: party.memberList.erase player })
        fun party => List.Subset.refl _
      apply htrims.filled hs
      intro party' hp'
      rw [parties_modifyParty, if_pos rfl, hp] at hp'
      obtain rfl := Option.some.inj hp'
      rfl

/-- Whoever leaves, the party loses him before it is looked at. -/
theorem leaveParty_kept (hs : s.Filled) (hown : s.NoOwnInvite) (this : PartyRef)
    (player : PlayerRef) : let t := (s.leaveParty this player).2
    t.Filled ∧ t.NoOwnInvite := by
  have hleave : ∀ (p : Prop) [Decidable p] (t : Parties), Trims this s t →
      let u := (t.modifyParty this fun party =>
        { party with memberList := party.memberList.erase player }).setParty player none
      let v := if p ∨ u.isEmpty this then u.disband this else u
      v.Filled ∧ v.NoOwnInvite := by
    intro p _ t ht u v
    have hmodify := trims_modifyParty t this (f := fun party =>
      { party with memberList := party.memberList.erase player }) fun party => List.Subset.refl _
    have hu : Trims this s u := (ht.trans hmodify).trans (trims_setParty _ this player)
    refine ⟨hu.filled_disband hs, ?_⟩
    show (if p ∨ u.isEmpty this then u.disband this else u).NoOwnInvite
    split
    · exact (hu.trans (trims_disband u this)).noOwnInvite hown
    · exact hu.noOwnInvite hown
  unfold leaveParty
  split
  · exact ⟨hs, hown⟩
  next party hp =>
    split
    · exact ⟨hs, hown⟩
    · apply hleave
      split
      · split
        · exact trims_passPartyLeadership s this _
        · exact Trims.refl this s
      · exact Trims.refl this s

theorem removeInvite_kept (hs : s.Filled) (hown : s.NoOwnInvite) (this : PartyRef)
    (player : PlayerRef) : let t := (s.removeInvite this player true).2
    t.Filled ∧ t.NoOwnInvite := by
  unfold removeInvite
  split
  · exact ⟨hs, hown⟩
  · split
    · exact ⟨hs, hown⟩
    · let t := (s.modifyParty this fun party =>
        { party with inviteList := party.inviteList.erase player }).removePartyInvitation this player
      have ht : Trims this s t :=
        (trims_modifyParty s this fun party => List.erase_subset).trans
          (trims_removePartyInvitation _ this player)
      have hfilled := ht.filled_disband (p := False) hs
      show (if t.isEmpty this then t.disband this else t).Filled ∧
        (if t.isEmpty this then t.disband this else t).NoOwnInvite
      refine ⟨by simpa using hfilled, ?_⟩
      split
      · exact (ht.trans (trims_disband t this)).noOwnInvite hown
      · exact ht.noOwnInvite hown

/-- One who joins is no longer invited, so long as he was only once. -/
theorem joinParty_kept (hcons : s.Consistent ∅) (hs : s.Filled) (hown : s.NoOwnInvite)
    (this : PartyRef) (player : PlayerRef) : let t := (s.joinParty this player).2
    t.Filled ∧ t.NoOwnInvite := by
  unfold joinParty
  split
  · exact ⟨hs, hown⟩
  next party hp =>
    split
    · exact ⟨hs, hown⟩
    next hin =>
      let join : Party → Party := fun party =>
        { party with
          inviteList := party.inviteList.erase player,
          memberList := party.memberList ++ [player] }
      have hnodup := ((hcons this).sound party hp).invitees
      have hlive : ∀ P party', ((s.modifyParty this join).setParty player
          (some this)).parties P = some party' →
          P = this ∧ party' = join party ∨ P ≠ this ∧ s.parties P = some party' := by
        intro P party' hP
        replace hP : (s.modifyParty this join).parties P = some party' := hP
        rw [parties_modifyParty] at hP
        by_cases hthis : P = this
        · rw [if_pos hthis, hp] at hP
          exact .inl ⟨hthis, (Option.some.inj hP).symm⟩
        · rw [if_neg hthis] at hP
          exact .inr ⟨hthis, hP⟩
      constructor
      · intro P party' hP
        rcases hlive P party' hP with ⟨-, rfl⟩ | ⟨-, hP⟩
        · simp [Party.empty, join]
        · exact hs P party' hP
      · intro P party' x hP hx hptr
        replace hptr : ((s.modifyParty this join).setParty player (some this)).party x =
          some P := hptr
        rw [party_setParty] at hptr
        rcases hlive P party' hP with ⟨rfl, rfl⟩ | ⟨hthis, hP⟩
        · obtain ⟨hne, hmem⟩ := hnodup.mem_erase_iff.mp hx
          rw [if_neg hne] at hptr
          exact hown P party x hp hmem hptr
        · split at hptr
          · exact hthis (Option.some.inj hptr).symm
          · exact hown P party' x hP hx hptr

/-- One who is invited and is not in the party is company. -/
theorem invitePlayer_kept (hs : ∀ P party, P ≠ this → s.parties P = some party →
      party.empty = false) (hown : s.NoOwnInvite) (hfree : s.party player ≠ some this) :
    let t := (s.invitePlayer this player).2
    t.Filled ∧ t.NoOwnInvite := by
  unfold invitePlayer
  split
  next hnone =>
    refine ⟨fun P party hP => hs P party ?_ hP, hown⟩
    rintro rfl
    exact nomatch hnone.symm.trans hP
  next party hp =>
    split
    next hin =>
      refine ⟨fun P party' hP => ?_, hown⟩
      by_cases hthis : P = this
      · obtain rfl : party = party' := Option.some.inj (hp.symm.trans (hthis ▸ hP))
        simp [Party.empty, List.ne_nil_of_mem hin]
      · exact hs P party' hthis hP
    next hnot =>
      let invite : Party → Party := fun party =>
        { party with inviteList := party.inviteList ++ [player] }
      have hrest := addPartyInvitation_rest (s.modifyParty this invite) this player
      simp only
      constructor
      · intro P party' hP
        rw [hrest.1, parties_modifyParty] at hP
        split at hP
        · rw [hp] at hP
          obtain rfl := Option.some.inj hP
          simp [Party.empty, invite]
        next hthis => exact hs P party' hthis hP
      · intro P party' x hP hx
        rw [hrest.1, parties_modifyParty] at hP
        rw [hrest.2.1]
        show s.party x ≠ some P
        split at hP
        next hthis =>
          subst hthis
          rw [hp] at hP
          obtain rfl := Option.some.inj hP
          rcases List.mem_append.mp hx with hx | hx
          · exact hown P party x hp hx
          · obtain rfl := List.mem_singleton.mp hx
            exact hfree
        · exact hown P party' x hP hx

/-- A party that is made for somebody else has him for company. -/
theorem newParty_kept (hs : s.Filled) (hown : s.NoOwnInvite) {invitedPlayer : PlayerRef}
    (hne : player ≠ invitedPlayer)
    (hfree : s.party invitedPlayer = none) :
    let t := ((s.newParty player).invitePlayer s.fresh invitedPlayer).2
    t.Filled ∧ t.NoOwnInvite := by
  have hother : ∀ P, P ≠ s.fresh → (s.newParty player).parties P = s.parties P :=
    fun P hP => Function.update_of_ne hP _ _
  apply invitePlayer_kept
  · intro P party hP hparty
    exact hs P party (hother P hP ▸ hparty)
  · intro P party x hP hx
    rw [show (s.newParty player).party x = _ from party_setParty s player (some s.fresh) x]
    by_cases hfresh : P = s.fresh
    · have hnew : (s.newParty player).parties P = some { leader := player } :=
        hfresh ▸ Function.update_self _ _ _
      obtain rfl := Option.some.inj (hnew.symm.trans hP)
      exact absurd hx List.not_mem_nil
    · split
      · exact fun heq => hfresh (Option.some.inj heq).symm
      · exact hown P party x (hother P hfresh ▸ hP) hx
  · rw [show (s.newParty player).party invitedPlayer = _ from
      party_setParty s player (some s.fresh) invitedPlayer, if_neg hne.symm, hfree]
    exact nofun

/-- A party that is made for its own leader has nobody else. -/
theorem not_company_newParty (s : Parties) (player : PlayerRef) :
    ¬((s.newParty player).invitePlayer s.fresh player).2.Company := by
  intro h
  let invite : Party → Party := fun party =>
    { party with inviteList := party.inviteList ++ [player] }
  have hnew : (s.newParty player).parties s.fresh = some { leader := player } :=
    Function.update_self _ _ _
  have hptr : (s.newParty player).party player = some s.fresh := Function.update_self _ _ _
  have hinvite : ((s.newParty player).invitePlayer s.fresh player).2 =
      ((s.newParty player).modifyParty s.fresh invite).addPartyInvitation s.fresh player := by
    unfold invitePlayer
    simp [hnew, invite]
  rw [hinvite] at h
  have hrest := addPartyInvitation_rest ((s.newParty player).modifyParty s.fresh invite) s.fresh
    player
  have hlive : (((s.newParty player).modifyParty s.fresh invite).addPartyInvitation s.fresh
      player).parties s.fresh = some { leader := player, inviteList := [player] } := by
    rw [hrest.1, parties_modifyParty, if_pos rfl, hnew]
    rfl
  apply h.invited s.fresh _ player hlive List.mem_cons_self
  rw [hrest.2.1]
  exact hptr

end Trims

/-! ## Requests -/

section Requests

variable {s t : Parties}

theorem Company.request (hcons : s.Consistent ∅) (hs : s.Company) {r : PartyRequest}
    (hr : s.InvitesAnother r) (h : r.step s = some t) : t.Filled ∧ t.NoOwnInvite := by
  have hfilled := hs.filled
  have hown : s.NoOwnInvite := hs.invited
  have hsame := And.intro hfilled hown
  cases r with
  | invite player invitedPlayer =>
    obtain rfl := Option.some.inj h
    unfold playerInviteToParty
    split
    · exact hsame
    · split
      · exact hsame
      next hfree =>
        replace hfree : s.party invitedPlayer = none := by simpa using hfree
        split
        next hno =>
          exact newParty_kept hfilled hown (fun heq => hr heq hno) hfree
        next party hparty =>
          split
          · exact hsame
          · apply invitePlayer_kept (fun P party _ hP => hfilled P party hP) hown
            rw [hfree]
            exact nofun
  | join player leader =>
    obtain rfl := Option.some.inj h
    unfold playerJoinParty
    repeat' split
    all_goals first | exact hsame | exact joinParty_kept hcons hfilled hown _ _
  | revoke player invitedPlayer =>
    obtain rfl := Option.some.inj h
    unfold playerRevokePartyInvitation
    repeat' split
    all_goals first | exact hsame | exact removeInvite_kept hfilled hown _ _
  | passLeadership player newLeader =>
    obtain rfl := Option.some.inj h
    unfold playerPassPartyLeadership
    repeat' split
    all_goals first
      | exact hsame
      | exact ⟨hfilled.passPartyLeadership _ _,
          (trims_passPartyLeadership s _ _).noOwnInvite hown⟩
  | leave player inFight =>
    obtain rfl := Option.some.inj h
    unfold playerLeaveParty
    repeat' split
    all_goals first | exact hsame | exact leaveParty_kept hfilled hown _ _

theorem not_company_request {r : PartyRequest} (hr : ¬s.InvitesAnother r)
    (h : r.step s = some t) : ¬t.Company := by
  cases r with
  | invite player invitedPlayer =>
    obtain ⟨rfl, hno⟩ := Classical.not_imp.mp hr
    replace hno : s.party player = none := not_not.mp hno
    have hstep : s.playerInviteToParty player player =
        ((s.newParty player).invitePlayer s.fresh player).2 := by
      unfold playerInviteToParty isInviting
      simp [hno]
    obtain rfl := Option.some.inj h
    rw [hstep]
    exact not_company_newParty s player
  | _ => exact absurd trivial hr

end Requests

/-- Over every sequence of requests a live party has company exactly as long as nobody who has
no party invites himself. -/
theorem always_company_iff (requests : List PartyRequest) :
    Run.Always PartyRequest.step Company {} requests ↔
      Run.EachStep PartyRequest.step InvitesAnother {} requests := by
  have hstart : Consistent ∅ {} ∧ Company {} :=
    ⟨consistent_empty, ⟨fun _ _ h => (nomatch h), fun _ _ _ h => (nomatch h)⟩⟩
  have hkeeps : ∀ s r t, s.Consistent ∅ ∧ s.Company → s.InvitesAnother r →
      PartyRequest.step s r = some t → t.Consistent ∅ ∧ t.Company := by
    rintro s r t ⟨hcons, hs⟩ hr h
    obtain ⟨hfilled, hown⟩ := hs.request hcons hr h
    exact ⟨hcons.request h, Company.of_filled (hcons.request h) hfilled hown⟩
  exact Run.always_iff_of_breaks (fun _ hs => hs.2) hkeeps
    (fun _ _ _ _ hr => not_company_request hr) requests {} hstart

/-- Whoever has no party and invites himself leads a party with nobody in it. -/
theorem invite_oneself :
    ¬Run.Always PartyRequest.step Company {} [.invite 1 1] := by
  intro h
  have hlast : Company (playerInviteToParty {} 1 1) := (h.2 _ rfl).head
  exact hlast.invited 0 { leader := 1, inviteList := [1] } 1 rfl (by decide) rfl

end Parties

end TibiaServer.Players
