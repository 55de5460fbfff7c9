import Mathlib.Data.List.Count
import Mathlib.Data.List.Nodup
import Mathlib.Data.Set.Basic
import TibiaServer.Players.Party
/-!
# Who belongs to a party

What a party says of its members and of those that it has invited agrees with what
these say of it.  An operation on a party leaves all other parties alone, so only the
one that it is called on has to be looked at.
-/

namespace TibiaServer.Players

/-- The leader and the members. -/
def Party.Has (party : Party) (x : PlayerRef) : Prop := party.leader = x ∨ x ∈ party.memberList

structure Party.Sound (party : Party) : Prop where
  leader : party.leader ∉ party.memberList
  members : party.memberList.Nodup
  invitees : party.inviteList.Nodup

namespace Parties

/-- One party and all players but those in `E` agree. -/
structure Agrees (E : Set PlayerRef) (s : Parties) (P : PartyRef) : Prop where
  party : ∀ x, s.party x = some P ↔ ∃ party, s.parties P = some party ∧ party.Has x
  invited : ∀ x ∉ E, P ∈ s.invitePartyList x ↔
    ∃ party, s.parties P = some party ∧ x ∈ party.inviteList
  sound : ∀ party, s.parties P = some party → party.Sound
  old : ∀ party, s.parties P = some party → P < s.fresh

def Consistent (E : Set PlayerRef) (s : Parties) : Prop := ∀ P, s.Agrees E P

/-- Nothing changes but what concerns the party `this`. -/
structure Elsewhere (this : PartyRef) (s t : Parties) : Prop where
  parties : ∀ P, P ≠ this → t.parties P = s.parties P
  party : ∀ x P, P ≠ this → (t.party x = some P ↔ s.party x = some P)
  invited : ∀ x P, P ≠ this → (P ∈ t.invitePartyList x ↔ P ∈ s.invitePartyList x)
  fresh : s.fresh ≤ t.fresh

section Frame

variable {E : Set PlayerRef} {s t u : Parties} {this P : PartyRef} {player x : PlayerRef}
  {party : Party}

theorem Elsewhere.refl (this : PartyRef) (s : Parties) : Elsewhere this s s :=
  ⟨fun _ _ => rfl, fun _ _ _ => Iff.rfl, fun _ _ _ => Iff.rfl, le_rfl⟩

theorem Elsewhere.trans (h : Elsewhere this s t) (h' : Elsewhere this t u) :
    Elsewhere this s u where
  parties P hP := (h'.parties P hP).trans (h.parties P hP)
  party x P hP := (h'.party x P hP).trans (h.party x P hP)
  invited x P hP := (h'.invited x P hP).trans (h.invited x P hP)
  fresh := h.fresh.trans h'.fresh

/-- Only the party that is changed has to agree anew. -/
theorem Consistent.of_elsewhere (hs : s.Consistent E) (h : Elsewhere this s t)
    (hthis : t.Agrees E this) : t.Consistent E := by
  intro P
  by_cases hP : P = this
  · exact hP ▸ hthis
  · have hagrees := hs P
    exact
      { party := fun x => by
          rw [h.party x P hP, h.parties P hP]
          exact hagrees.party x
        invited := fun x hx => by
          rw [h.invited x P hP, h.parties P hP]
          exact hagrees.invited x hx
        sound := fun party hparty => hagrees.sound party ((h.parties P hP).symm.trans hparty)
        old := fun party hparty =>
          (hagrees.old party ((h.parties P hP).symm.trans hparty)).trans_le h.fresh }

/-- A live party agrees when its lists do. -/
theorem agrees_of_some (hp : s.parties P = some party)
    (hparty : ∀ x, s.party x = some P ↔ party.Has x)
    (hinvited : ∀ x ∉ E, P ∈ s.invitePartyList x ↔ x ∈ party.inviteList) (hsound : party.Sound)
    (hold : P < s.fresh) : s.Agrees E P where
  party x := by simpa [hp] using hparty x
  invited x hx := by simpa [hp] using hinvited x hx
  sound party' h := Option.some.inj (hp.symm.trans h) ▸ hsound
  old _ _ := hold

theorem agrees_of_none (hp : s.parties P = none) (hparty : ∀ x, s.party x ≠ some P)
    (hinvited : ∀ x ∉ E, P ∉ s.invitePartyList x) : s.Agrees E P where
  party x := by simpa [hp] using hparty x
  invited x hx := by simpa [hp] using hinvited x hx
  sound party h := nomatch hp.symm.trans h
  old party h := nomatch hp.symm.trans h

namespace Agrees

variable (h : s.Agrees E P) (hp : s.parties P = some party)

include h hp

theorem has (x : PlayerRef) : s.party x = some P ↔ party.Has x := by
  simpa [hp] using h.party x

theorem mem_invitePartyList (hx : x ∉ E) : P ∈ s.invitePartyList x ↔ x ∈ party.inviteList := by
  simpa [hp] using h.invited x hx

end Agrees

/-! ## Writes -/

@[simp] theorem party_setParty (s : Parties) (player : PlayerRef) (v : Option PartyRef)
    (x : PlayerRef) : (s.setParty player v).party x = if x = player then v else s.party x :=
  Function.update_apply _ _ _ _

@[simp] theorem parties_modifyParty (s : Parties) (this : PartyRef) (f : Party → Party)
    (P : PartyRef) : (s.modifyParty this f).parties P =
      if P = this then (s.parties this).map f else s.parties P :=
  Function.update_apply _ _ _ _

@[simp] theorem invitePartyList_setInvitePartyList (s : Parties) (player : PlayerRef)
    (list : List PartyRef) (x : PlayerRef) : (s.setInvitePartyList player list).invitePartyList x =
      if x = player then list else s.invitePartyList x :=
  Function.update_apply _ _ _ _

theorem mem_removePartyInvitation (s : Parties) (this : PartyRef) (player x : PlayerRef)
    (P : PartyRef) : P ∈ (s.removePartyInvitation this player).invitePartyList x ↔
      P ∈ s.invitePartyList x ∧ ¬(x = player ∧ P = this) := by
  unfold removePartyInvitation
  rw [invitePartyList_setInvitePartyList]
  by_cases hx : x = player
  · simp [hx]
  · simp [hx]

theorem mem_addPartyInvitation (s : Parties) (this : PartyRef) (player x : PlayerRef)
    (P : PartyRef) : P ∈ (s.addPartyInvitation this player).invitePartyList x ↔
      P ∈ s.invitePartyList x ∨ x = player ∧ P = this := by
  unfold addPartyInvitation
  by_cases hx : x = player
  · split
    next hmem => grind
    next hmem => simp [hx, or_comm]
  · split
    next hmem => simp [hx]
    next hmem => simp [hx]

theorem elsewhere_setParty {v : Option PartyRef} (hv : v = none ∨ v = some this)
    (hplayer : s.party player = none ∨ s.party player = some this) :
    Elsewhere this s (s.setParty player v) where
  parties _ _ := rfl
  party x P hP := by
    rw [party_setParty]
    by_cases hx : x = player
    · subst hx
      rcases hv with rfl | rfl <;> rcases hplayer with h | h <;> simp [h, hP.symm]
    · rw [if_neg hx]
  invited _ _ _ := Iff.rfl
  fresh := le_rfl

theorem elsewhere_modifyParty (s : Parties) (this : PartyRef) (f : Party → Party) :
    Elsewhere this s (s.modifyParty this f) where
  parties P hP := by rw [parties_modifyParty, if_neg hP]
  party _ _ _ := Iff.rfl
  invited _ _ _ := Iff.rfl
  fresh := le_rfl

theorem elsewhere_removePartyInvitation (s : Parties) (this : PartyRef) (player : PlayerRef) :
    Elsewhere this s (s.removePartyInvitation this player) where
  parties _ _ := rfl
  party _ _ _ := Iff.rfl
  invited x P hP := by
    rw [mem_removePartyInvitation]
    simp [hP]
  fresh := le_rfl

theorem addPartyInvitation_rest (s : Parties) (this : PartyRef) (player : PlayerRef) :
    (s.addPartyInvitation this player).parties = s.parties ∧
      (s.addPartyInvitation this player).party = s.party ∧
      (s.addPartyInvitation this player).fresh = s.fresh := by
  unfold addPartyInvitation
  split
  · exact ⟨rfl, rfl, rfl⟩
  · exact ⟨rfl, rfl, rfl⟩

theorem elsewhere_addPartyInvitation (s : Parties) (this : PartyRef) (player : PlayerRef) :
    Elsewhere this s (s.addPartyInvitation this player) := by
  have hrest := addPartyInvitation_rest s this player
  exact
    { parties := fun P _ => congrFun hrest.1 P
      party := fun x P _ => by rw [hrest.2.1]
      invited := fun x P hP => by
        rw [mem_addPartyInvitation]
        simp [hP]
      fresh := hrest.2.2.ge }

end Frame

/-! ## The end of a party -/

section Disband

variable {E : Set PlayerRef} {s t : Parties} {this : PartyRef} {player x : PlayerRef}
  {party : Party}

theorem foldl_removePartyInvitation (this : PartyRef) (list : List PlayerRef) (s : Parties) :
    let t := list.foldl (fun s invitee => s.removePartyInvitation this invitee) s
    t.parties = s.parties ∧ t.party = s.party ∧ t.fresh = s.fresh ∧
      ∀ x P, P ∈ t.invitePartyList x ↔ P ∈ s.invitePartyList x ∧ ¬(x ∈ list ∧ P = this) := by
  induction list generalizing s with
  | nil => simp
  | cons y list ih =>
    obtain ⟨hparties, hparty, hfresh, hinvited⟩ := ih (s.removePartyInvitation this y)
    refine ⟨hparties, hparty, hfresh, fun x P => ?_⟩
    rw [List.foldl_cons, hinvited, mem_removePartyInvitation, List.mem_cons]
    tauto

theorem foldl_setParty (list : List PlayerRef) (s : Parties) :
    let t := list.foldl (fun s member => s.setParty member none) s
    t.parties = s.parties ∧ t.invitePartyList = s.invitePartyList ∧ t.fresh = s.fresh ∧
      ∀ x, t.party x = if x ∈ list then none else s.party x := by
  induction list generalizing s with
  | nil => simp
  | cons y list ih =>
    obtain ⟨hparties, hinvited, hfresh, hparty⟩ := ih (s.setParty y none)
    refine ⟨hparties, hinvited, hfresh, fun x => ?_⟩
    rw [List.foldl_cons, hparty, party_setParty]
    by_cases hx : x = y
    · simp [hx]
    · simp [hx]

/-- What is left of a party. -/
structure Disbanded (s t : Parties) (this : PartyRef) (party : Party) : Prop where
  gone : t.parties this = none
  parties : ∀ P, P ≠ this → t.parties P = s.parties P
  left : ∀ x, party.Has x → t.party x = none
  others : ∀ x, ¬party.Has x → t.party x = s.party x
  invited : ∀ x P, P ∈ t.invitePartyList x ↔
    P ∈ s.invitePartyList x ∧ ¬(x ∈ party.inviteList ∧ P = this)
  fresh : t.fresh = s.fresh

theorem disband_spec (hp : s.parties this = some party) :
    Disbanded s (s.disband this) this party := by
  unfold disband
  simp only [hp]
  have hinvite := foldl_removePartyInvitation this party.inviteList (s.setParty party.leader none)
  revert hinvite
  generalize party.inviteList.foldl (fun s invitee => s.removePartyInvitation this invitee)
    (s.setParty party.leader none) = t
  rintro ⟨hparties, hparty, hfresh, hinvited⟩
  have hmember := foldl_setParty party.memberList t
  revert hmember
  generalize party.memberList.foldl (fun s member => s.setParty member none) t = u
  rintro ⟨hparties', hinvited', hfresh', hparty'⟩
  have hptr : ∀ x, u.party x =
      if x ∈ party.memberList then none else if x = party.leader then none else s.party x := by
    intro x
    rw [hparty', hparty, party_setParty]
  exact
    { gone := Function.update_self _ _ _
      parties := fun P hP => by
        show Function.update u.parties this none P = s.parties P
        rw [Function.update_of_ne hP, hparties', hparties]
        rfl
      left := fun x hx => by
        apply (hptr x).trans
        rcases hx with rfl | hx
        · simp
        · rw [if_pos hx]
      others := fun x hx => by
        have hleader : x ≠ party.leader := fun heq => hx (.inl heq.symm)
        have hmember : x ∉ party.memberList := fun hmem => hx (.inr hmem)
        apply (hptr x).trans
        rw [if_neg hmember, if_neg hleader]
      invited := fun x P => by
        show P ∈ u.invitePartyList x ↔ _
        rw [hinvited', hinvited]
        rfl
      fresh := hfresh'.trans hfresh }

/-- A party that knows all that name it can disband. -/
theorem consistent_disband (hs : s.Consistent E) (h : Elsewhere this s t)
    (hp : t.parties this = some party) (hparty : ∀ x, t.party x = some this → party.Has x)
    (hother : ∀ x, party.Has x → t.party x = none ∨ t.party x = some this)
    (hinvited : ∀ x ∉ E, this ∈ t.invitePartyList x → x ∈ party.inviteList) :
    (t.disband this).Consistent E := by
  have hspec := disband_spec hp
  have helse : Elsewhere this t (t.disband this) :=
    { parties := hspec.parties
      party := fun x P hP => by
        by_cases hx : party.Has x
        · rw [hspec.left x hx]
          rcases hother x hx with hnone | hthis
          · simp [hnone]
          · simp [hthis, hP.symm]
        · rw [hspec.others x hx]
      invited := fun x P hP => by
        rw [hspec.invited]
        simp [hP]
      fresh := hspec.fresh.ge }
  apply hs.of_elsewhere (h.trans helse)
  apply agrees_of_none hspec.gone
  · intro x hx
    by_cases hhas : party.Has x
    · rw [hspec.left x hhas] at hx
      exact nomatch hx
    · rw [hspec.others x hhas] at hx
      exact hhas (hparty x hx)
  · intro x hxE hx
    obtain ⟨hmem, hnot⟩ := (hspec.invited x this).mp hx
    exact hnot ⟨hinvited x hxE hmem, rfl⟩

theorem Consistent.disband (hs : s.Consistent E) (this : PartyRef) :
    (s.disband this).Consistent E := by
  cases hp : s.parties this with
  | none =>
    unfold Parties.disband
    rw [hp]
    exact hs
  | some party =>
    have hagrees := hs this
    apply consistent_disband hs (.refl this s) hp
    · exact fun x hx => (hagrees.has hp x).mp hx
    · exact fun x hx => .inr ((hagrees.has hp x).mpr hx)
    · exact fun x hxE hx => (hagrees.mem_invitePartyList hp hxE).mp hx

end Disband

/-! ## The operations of a party -/

section Operations

variable {E : Set PlayerRef} {s t : Parties} {this : PartyRef} {player x : PlayerRef}
  {party : Party}

theorem Consistent.newParty (hs : s.Consistent E) (hno : s.party player = none) :
    (s.newParty player).Consistent E := by
  have hnone : s.parties s.fresh = none := by
    by_contra hsome
    obtain ⟨party, hparty⟩ := Option.ne_none_iff_exists'.mp hsome
    exact lt_irrefl _ ((hs s.fresh).old party hparty)
  have hptr : ∀ x, (s.newParty player).party x = if x = player then some s.fresh else s.party x :=
    fun x => party_setParty s player (some s.fresh) x
  have helse : Elsewhere s.fresh s (s.newParty player) :=
    { parties := fun P hP => Function.update_of_ne hP _ _
      party := fun x P hP => by
        rw [hptr]
        by_cases hx : x = player
        · simp [hx, hno, hP.symm]
        · rw [if_neg hx]
      invited := fun _ _ _ => Iff.rfl
      fresh := Nat.le_succ _ }
  apply hs.of_elsewhere helse
  have hstranger : ∀ x, s.party x ≠ some s.fresh := by
    intro x hx
    obtain ⟨party, hparty, -⟩ := ((hs s.fresh).party x).mp hx
    exact nomatch hnone.symm.trans hparty
  apply agrees_of_some (Function.update_self _ _ _)
  · intro x
    rw [hptr]
    unfold Party.Has
    by_cases hx : x = player
    · simp [hx]
    · simp [hx, hstranger x, Ne.symm hx]
  · intro x hxE
    have hinvited : s.fresh ∉ s.invitePartyList x := by
      intro hmem
      obtain ⟨party, hparty, -⟩ := ((hs s.fresh).invited x hxE).mp hmem
      exact nomatch hnone.symm.trans hparty
    exact iff_of_false hinvited List.not_mem_nil
  · exact ⟨List.not_mem_nil, List.nodup_nil, List.nodup_nil⟩
  · exact Nat.lt_succ_self _

theorem Consistent.invitePlayer (hs : s.Consistent E) (this : PartyRef) (player : PlayerRef) :
    (s.invitePlayer this player).2.Consistent E := by
  unfold Parties.invitePlayer
  split
  · exact hs
  next party hp =>
    split
    · exact hs
    next hnot =>
      let invite : Party → Party := fun party =>
        { party with inviteList := party.inviteList ++ [player] }
      have hagrees := hs this
      have hsound := hagrees.sound party hp
      have helse := (elsewhere_modifyParty s this invite).trans
        (elsewhere_addPartyInvitation (s.modifyParty this invite) this player)
      apply hs.of_elsewhere helse
      have hrest := addPartyInvitation_rest (s.modifyParty this invite) this player
      have hlive : ((s.modifyParty this invite).addPartyInvitation this player).parties this =
          some (invite party) := by
        rw [hrest.1, parties_modifyParty, if_pos rfl, hp]
        rfl
      apply agrees_of_some hlive
      · intro x
        rw [hrest.2.1]
        exact hagrees.has hp x
      · intro x hx
        have hinvited := hagrees.mem_invitePartyList hp hx
        rw [mem_addPartyInvitation]
        show (this ∈ s.invitePartyList x ∨ x = player ∧ this = this) ↔ x ∈ party.inviteList ++ [player]
        simp [hinvited]
      · refine ⟨hsound.leader, hsound.members, ?_⟩
        simpa [invite, List.nodup_append] using
          ⟨hsound.invitees, fun a ha heq => hnot (heq ▸ ha)⟩
      · rw [hrest.2.2]
        exact hagrees.old party hp

/-- A player without a party may join one. -/
theorem Consistent.joinParty (hs : s.Consistent E) (this : PartyRef)
    (hfree : s.party player = none) : (s.joinParty this player).2.Consistent E := by
  unfold Parties.joinParty
  split
  · exact hs
  next party hp =>
    split
    · exact hs
    next hin =>
      let join : Party → Party := fun party =>
        { party with
          inviteList := party.inviteList.erase player,
          memberList := party.memberList ++ [player] }
      have hagrees := hs this
      have hsound := hagrees.sound party hp
      have hstranger : ¬party.Has player := by
        intro hhas
        exact nomatch hfree.symm.trans ((hagrees.has hp player).mpr hhas)
      have hleader : party.leader ≠ player := fun heq => hstranger (.inl heq)
      have hmember : player ∉ party.memberList := fun hmem => hstranger (.inr hmem)
      have helse := ((elsewhere_modifyParty s this join).trans
        (elsewhere_setParty (.inr rfl) (.inl hfree))).trans
        (elsewhere_removePartyInvitation _ this player)
      apply hs.of_elsewhere helse
      have hjoin : (((s.modifyParty this join).setParty player (some this)).removePartyInvitation
          this player).parties this = some (join party) := by
        show (s.modifyParty this join).parties this = _
        rw [parties_modifyParty, if_pos rfl, hp]
        rfl
      apply agrees_of_some hjoin
      · intro x
        have hhas := hagrees.has hp x
        show ((s.modifyParty this join).setParty player (some this)).party x = some this ↔ _
        rw [party_setParty]
        unfold Party.Has at hhas ⊢
        by_cases hx : x = player
        · simp [hx, join]
        · rw [if_neg hx]
          show s.party x = some this ↔ _
          simpa [hx, join] using hhas
      · intro x hx
        rw [mem_removePartyInvitation]
        show this ∈ s.invitePartyList x ∧ _ ↔ x ∈ party.inviteList.erase player
        rw [hsound.invitees.mem_erase_iff, hagrees.mem_invitePartyList hp hx]
        tauto
      · refine ⟨?_, ?_, hsound.invitees.erase player⟩
        · simp [join, hsound.leader, hleader]
        · simpa [join, List.nodup_append] using
            ⟨hsound.members, fun a ha heq => hmember (heq ▸ ha)⟩
      · exact hagrees.old party hp

theorem Consistent.uninvite (hs : s.Consistent E) (hp : s.parties this = some party)
    (helse : Elsewhere this s t) (hparty : t.party = s.party)
    (hlive : t.parties this =
      some { party with inviteList := party.inviteList.erase player })
    (hinvited : ∀ x ∉ E, this ∈ t.invitePartyList x ↔ this ∈ s.invitePartyList x ∧ x ≠ player) :
    t.Consistent E := by
  have hagrees := hs this
  have hsound := hagrees.sound party hp
  apply hs.of_elsewhere helse
  apply agrees_of_some hlive
  · intro x
    rw [hparty]
    exact hagrees.has hp x
  · intro x hx
    rw [hinvited x hx, hagrees.mem_invitePartyList hp hx, hsound.invitees.mem_erase_iff]
    exact and_comm
  · exact ⟨hsound.leader, hsound.members, hsound.invitees.erase player⟩
  · exact (hagrees.old party hp).trans_le helse.fresh

/-- `removeInvite` may leave the player's own list to its caller. -/
theorem Consistent.removeInvite (hs : s.Consistent E) (this : PartyRef)
    {removeFromPlayer : Bool} (hE : removeFromPlayer = true ∨ player ∈ E) :
    (s.removeInvite this player removeFromPlayer).2.Consistent E := by
  unfold Parties.removeInvite
  split
  · exact hs
  next party hp =>
    split
    · exact hs
    next hin =>
      let remove : Party → Party := fun party =>
        { party with inviteList := party.inviteList.erase player }
      have hmodify := elsewhere_modifyParty s this remove
      have hlive : (s.modifyParty this remove).parties this = some (remove party) := by
        rw [parties_modifyParty, if_pos rfl, hp]
        rfl
      have hclose : ∀ t : Parties, t.Consistent E →
          (if t.isEmpty this then t.disband this else t).Consistent E := by
        intro t ht
        split
        · exact ht.disband this
        · exact ht
      apply hclose
      cases removeFromPlayer with
      | true =>
        apply hs.uninvite hp (hmodify.trans (elsewhere_removePartyInvitation _ this player))
          rfl hlive
        intro x _
        rw [mem_removePartyInvitation]
        show this ∈ s.invitePartyList x ∧ _ ↔ _
        tauto
      | false =>
        have hplayer : player ∈ E := by simpa using hE
        apply hs.uninvite hp hmodify rfl hlive
        intro x hx
        have hne : x ≠ player := ne_of_mem_of_not_mem hplayer hx |>.symm
        exact (and_iff_left hne).symm

theorem Consistent.passPartyLeadership (hs : s.Consistent E) (this : PartyRef)
    (player : PlayerRef) : (s.passPartyLeadership this player).2.Consistent E := by
  unfold Parties.passPartyLeadership
  split
  · exact hs
  next party hp =>
    split
    · exact hs
    next hcan =>
      obtain ⟨hleader, hptr⟩ := not_or.mp hcan
      let pass : Party → Party := fun party =>
        { party with
          leader := player, memberList := party.leader :: party.memberList.erase player }
      have hagrees := hs this
      have hsound := hagrees.sound party hp
      have hmember : player ∈ party.memberList :=
        ((hagrees.has hp player).mp (not_not.mp hptr)).resolve_left hleader
      apply hs.of_elsewhere (elsewhere_modifyParty s this pass)
      have hpass : (s.modifyParty this pass).parties this = some (pass party) := by
        rw [parties_modifyParty, if_pos rfl, hp]
        rfl
      apply agrees_of_some hpass
      · intro x
        apply (hagrees.has hp x).trans
        show party.leader = x ∨ x ∈ party.memberList ↔
          player = x ∨ x ∈ party.leader :: party.memberList.erase player
        rw [List.mem_cons, hsound.members.mem_erase_iff]
        by_cases hx : x = player
        · simp [hx, hmember]
        · simp [hx, Ne.symm hx, eq_comm]
      · intro x hx
        have hinvited := hagrees.mem_invitePartyList hp hx
        exact hinvited
      · refine ⟨?_, ?_, hsound.invitees⟩
        · show player ∉ party.leader :: party.memberList.erase player
          rw [List.mem_cons, hsound.members.mem_erase_iff]
          simp [Ne.symm hleader]
        · apply List.nodup_cons.mpr
          exact ⟨fun hmem => hsound.leader (List.mem_of_mem_erase hmem),
            hsound.members.erase player⟩
      · exact hagrees.old party hp

/-- What `leaveParty` does once somebody else leads the party. -/
theorem Consistent.dropMember (hs : s.Consistent E) (hp : s.parties this = some party)
    (hleader : party.leader ≠ player) (hptr : s.party player = some this) :
    ((s.modifyParty this fun party =>
      { party with memberList := party.memberList.erase player }).setParty player
        none).Consistent E := by
  let drop : Party → Party := fun party =>
    { party with memberList := party.memberList.erase player }
  have hagrees := hs this
  have hsound := hagrees.sound party hp
  apply hs.of_elsewhere
    ((elsewhere_modifyParty s this drop).trans (elsewhere_setParty (.inl rfl) (.inr hptr)))
  have hdrop : ((s.modifyParty this drop).setParty player none).parties this =
      some (drop party) := by
    show (s.modifyParty this drop).parties this = _
    rw [parties_modifyParty, if_pos rfl, hp]
    rfl
  apply agrees_of_some hdrop
  · intro x
    have hhas := hagrees.has hp x
    rw [party_setParty]
    show _ ↔ party.leader = x ∨ x ∈ party.memberList.erase player
    rw [hsound.members.mem_erase_iff]
    by_cases hx : x = player
    · simp [hx, hleader]
    · rw [if_neg hx]
      show s.party x = some this ↔ _
      unfold Party.Has at hhas
      simpa [hx] using hhas
  · intro x hx
    have hinvited := hagrees.mem_invitePartyList hp hx
    exact hinvited
  · exact ⟨fun hmem => hsound.leader (List.mem_of_mem_erase hmem),
      hsound.members.erase player, hsound.invitees⟩
  · exact hagrees.old party hp

/-- A leader who has no successor takes the party with him. -/
theorem Consistent.disband_leader (hs : s.Consistent E) (hp : s.parties this = some party)
    (hleader : party.leader = player) (hptr : s.party player = some this) :
    (((s.modifyParty this fun party =>
      { party with memberList := party.memberList.erase player }).setParty player none).disband
        this).Consistent E := by
  let drop : Party → Party := fun party =>
    { party with memberList := party.memberList.erase player }
  have hagrees := hs this
  have hdrop : drop party = party := by
    have hmem : player ∉ party.memberList := hleader ▸ (hagrees.sound party hp).leader
    show { party with memberList := party.memberList.erase player } = party
    rw [List.erase_of_not_mem hmem]
  have hsame : ((s.modifyParty this drop).setParty player none).parties this = some party := by
    show (s.modifyParty this drop).parties this = some party
    rw [parties_modifyParty, if_pos rfl, hp, Option.map_some, hdrop]
  have helse := (elsewhere_modifyParty s this drop).trans
    (elsewhere_setParty (.inl rfl) (.inr hptr))
  apply consistent_disband hs helse hsame
  · intro x hx
    rw [party_setParty] at hx
    split at hx
    · exact nomatch hx
    · exact (hagrees.has hp x).mp hx
  · intro x hx
    rw [party_setParty]
    split
    · exact .inl rfl
    · exact .inr ((hagrees.has hp x).mpr hx)
  · intro x hxE hx
    exact (hagrees.mem_invitePartyList hp hxE).mp hx

theorem Consistent.disband_or {p : Prop} [Decidable p] (hs : s.Consistent E) (this : PartyRef) :
    (if p then s.disband this else s).Consistent E := by
  split
  · exact hs.disband this
  · exact hs

theorem Consistent.leaveParty (hs : s.Consistent E) (this : PartyRef) (player : PlayerRef) :
    (s.leaveParty this player).2.Consistent E := by
  unfold Parties.leaveParty
  split
  · exact hs
  next party hp =>
    split
    · exact hs
    next hcan =>
      have hagrees := hs this
      have hsound := hagrees.sound party hp
      have hptr : s.party player = some this := by
        have hhas := hagrees.has hp player
        unfold Party.Has at hhas
        tauto
      by_cases hleader : party.leader = player
      · cases hlist : party.memberList with
        | nil =>
          have hleave := hs.disband_leader hp hleader hptr
          simpa [hleader] using hleave
        | cons front rest =>
          by_cases hmissing : rest = [] ∧ party.inviteList = []
          · have hleave := hs.disband_leader hp hleader hptr
            simpa [hleader, hmissing] using hleave
          · have hfront : s.party front = some this := by
              apply (hagrees.has hp front).mpr
              exact .inr (hlist ▸ List.mem_cons_self)
            have hne : party.leader ≠ front := by
              intro heq
              exact hsound.leader (heq ▸ hlist ▸ List.mem_cons_self)
            have hpass := hs.passPartyLeadership this front
            have hstep : s.passPartyLeadership this front =
                (true, s.modifyParty this fun party =>
                  { party with
                    leader := front,
                    memberList := party.leader :: party.memberList.erase front }) := by
              unfold Parties.passPartyLeadership
              simp [hp, hne, hfront]
            have hlive : (s.passPartyLeadership this front).2.parties this =
                some { party with leader := front, memberList := party.leader :: rest } := by
              rw [hstep, parties_modifyParty, if_pos rfl, hp, Option.map_some, hlist,
                List.erase_cons_head]
            have hstill : (s.passPartyLeadership this front).2.party player = some this := by
              rw [hstep]
              exact hptr
            have hdrop := hpass.dropMember hlive (hleader ▸ hne.symm) hstill
            simpa [hleader, hmissing] using hdrop.disband_or this
      · have hdrop := hs.dropMember hp hleader hptr
        cases hlist : party.memberList with
        | nil => simpa [hleader] using hdrop.disband_or this
        | cons front rest => simpa [hleader] using hdrop.disband_or this

theorem disband_parties {P : PartyRef} {party' : Party}
    (hP : (s.disband this).parties P = some party') : s.parties P = some party' := by
  cases hp : s.parties this with
  | none =>
    unfold Parties.disband at hP
    rwa [hp] at hP
  | some party =>
    have hspec := disband_spec hp
    by_cases hthis : P = this
    · rw [hthis, hspec.gone] at hP
      exact nomatch hP
    · rwa [hspec.parties P hthis] at hP

theorem removeInvite_parties {P : PartyRef} {party' : Party} {removeFromPlayer : Bool}
    (hP : (s.removeInvite this player removeFromPlayer).2.parties P = some party') :
    ∃ party, s.parties P = some party ∧ party'.inviteList =
      if P = this then party.inviteList.erase player else party.inviteList := by
  have hsame : (∀ party, s.parties this = some party → player ∉ party.inviteList) →
      s.parties P = some party' → ∃ party, s.parties P = some party ∧ party'.inviteList =
        if P = this then party.inviteList.erase player else party.inviteList := by
    intro hnot hP
    refine ⟨party', hP, ?_⟩
    split
    next hthis => rw [List.erase_of_not_mem (hnot party' (hthis ▸ hP))]
    next => rfl
  unfold Parties.removeInvite at hP
  split at hP
  next hp => exact hsame (fun party h => nomatch hp.symm.trans h) hP
  next party hp =>
    split at hP
    next hnot => exact hsame (fun party' h => Option.some.inj (hp.symm.trans h) ▸ hnot) hP
    next hin =>
      have hmodify : (s.modifyParty this fun party =>
          { party with inviteList := party.inviteList.erase player }).parties P =
            some party' := by
        have hclose : ∀ t : Parties,
            (if t.isEmpty this then t.disband this else t).parties P = some party' →
              t.parties P = some party' := by
          intro t ht
          split at ht
          · exact disband_parties ht
          · exact ht
        cases removeFromPlayer with
        | true => exact hclose ((s.modifyParty this _).removePartyInvitation this player) hP
        | false => exact hclose _ hP
      rw [parties_modifyParty] at hmodify
      by_cases hthis : P = this
      · rw [if_pos hthis, hp] at hmodify
        refine ⟨party, hthis ▸ hp, ?_⟩
        rw [if_pos hthis, ← Option.some.inj hmodify]
      · rw [if_neg hthis] at hmodify
        exact ⟨party', hmodify, (if_neg hthis).symm⟩

end Operations

/-! ## Logout -/

section Logout

variable {s : Parties} {player : PlayerRef}

/-- While a player declines his invitations, those that are left are the ones that he has
not got to. -/
theorem consistent_decline (player : PlayerRef) (list : List PartyRef) {s : Parties}
    (hs : s.Consistent {player})
    (hleft : ∀ P party, s.parties P = some party → player ∈ party.inviteList → P ∈ list) :
    let t := list.foldl (fun s invitingParty => (s.removeInvite invitingParty player false).2) s
    t.Consistent {player} ∧
      ∀ P party, t.parties P = some party → player ∉ party.inviteList := by
  induction list generalizing s with
  | nil => exact ⟨hs, fun P party hP hmem => List.not_mem_nil (hleft P party hP hmem)⟩
  | cons this list ih =>
    apply ih (hs.removeInvite this (.inr (rfl)))
    intro P party' hP hmem
    obtain ⟨party, hparty, hlist⟩ := removeInvite_parties hP
    rw [hlist] at hmem
    by_cases hthis : P = this
    · rw [if_pos hthis] at hmem
      have hnodup := ((hs P).sound party hparty).invitees
      exact absurd hmem hnodup.not_mem_erase
    · rw [if_neg hthis] at hmem
      exact (List.mem_cons.mp (hleft P party hparty hmem)).resolve_left hthis

theorem Consistent.clearPartyInvitations (hs : s.Consistent ∅) (player : PlayerRef) :
    (s.clearPartyInvitations player).Consistent ∅ := by
  have hweak : s.Consistent {player} := fun P =>
    { (hs P) with invited := fun x _ => (hs P).invited x (Set.notMem_empty x) }
  obtain ⟨ht, hnone⟩ := consistent_decline player (s.invitePartyList player) hweak (by
    intro P party hP hmem
    exact ((hs P).mem_invitePartyList hP (Set.notMem_empty player)).mpr hmem)
  intro P
  have hagrees := ht P
  exact
    { party := hagrees.party
      invited := fun x _ => by
        show P ∈ (Parties.setInvitePartyList _ player []).invitePartyList x ↔ _
        rw [invitePartyList_setInvitePartyList]
        by_cases hx : x = player
        · rw [if_pos hx, hx]
          constructor
          · exact fun hmem => absurd hmem List.not_mem_nil
          · rintro ⟨party, hparty, hmem⟩
            exact absurd hmem (hnone P party hparty)
        · rw [if_neg hx]
          exact hagrees.invited x hx
      sound := hagrees.sound
      old := hagrees.old }

theorem Consistent.logout (hs : s.Consistent ∅) (player : PlayerRef) :
    (s.logout player).Consistent ∅ := by
  have hclear := hs.clearPartyInvitations player
  unfold Parties.logout
  simp only
  split
  · exact hclear
  · exact hclear.leaveParty _ player

end Logout

end Parties

end TibiaServer.Players
