import Mathlib.Data.List.Count
import TibiaServer.Library.Run
import TibiaServer.Players.Guilds
/-!
# Who is on the list of a guild

Every operation concerns one player, so a list of online members is judged by how often that
player is on it.  The lists stay exact as long as `setGuild` does not return early for one
who is in a guild.
-/

namespace TibiaServer.Players

open TibiaServer.Library.Run

namespace Guilds

/-- The list of a guild that has been deleted is empty. -/
def membersOnline (s : Guilds) (G : GuildRef) : List PlayerRef :=
  (s.objects G).elim [] (·.membersOnline)

/-- A player is on the list of the guild he points to while he is online, once, and on no
other. -/
def Exact (s : Guilds) : Prop := ∀ G x, (s.membersOnline G).count x =
  if (s.members x).online ∧ (s.members x).guild = some G then 1 else 0

/-- What the map of `Game` finds is there. -/
structure Sound (s : Guilds) : Prop where
  found : ∀ id G, s.guilds id = some G → ∃ guild, s.objects G = some guild ∧ guild.id = id
  fresh : ∀ G, s.fresh ≤ G → s.objects G = none

/-- Nothing changes for other players. -/
structure Concerns (player : PlayerRef) (s t : Guilds) : Prop where
  members : ∀ x, x ≠ player → t.members x = s.members x
  count : ∀ G x, x ≠ player → (t.membersOnline G).count x = (s.membersOnline G).count x

section Frame

variable {s t u : Guilds} {this G : GuildRef} {player x : PlayerRef}

theorem Concerns.trans (h : Concerns player s t) (h' : Concerns player t u) :
    Concerns player s u where
  members x hx := (h'.members x hx).trans (h.members x hx)
  count G x hx := (h'.count G x hx).trans (h.count G x hx)

/-- The lists are exact again when they are for the player in question. -/
theorem Exact.of_concerns (hs : s.Exact) (h : Concerns player s t) :
    t.Exact ↔ ∀ G, (t.membersOnline G).count player =
      if (t.members player).online ∧ (t.members player).guild = some G then 1 else 0 := by
  constructor
  · intro ht G
    exact ht G player
  · intro hplayer G x
    by_cases hx : x = player
    · exact hx ▸ hplayer G
    · rw [h.count G x hx, h.members x hx]
      exact hs G x

/-! ## Writes -/

@[simp] theorem members_setMember (s : Guilds) (player : PlayerRef) (member : GuildMember)
    (x : PlayerRef) : (s.setMember player member).members x =
      if x = player then member else s.members x :=
  Function.update_apply _ _ _ _

@[simp] theorem membersOnline_setMember (s : Guilds) (player : PlayerRef) (member : GuildMember)
    (G : GuildRef) : (s.setMember player member).membersOnline G = s.membersOnline G := rfl

theorem concerns_setMember (s : Guilds) (player : PlayerRef) (member : GuildMember) :
    Concerns player s (s.setMember player member) where
  members x hx := by rw [members_setMember, if_neg hx]
  count _ _ _ := rfl

theorem sound_setMember (hs : s.Sound) (player : PlayerRef) (member : GuildMember) :
    (s.setMember player member).Sound := ⟨hs.found, hs.fresh⟩

theorem membersOnline_setObject (s : Guilds) (this : GuildRef) (object : Option Guild)
    (G : GuildRef) : (s.setObject this object).membersOnline G =
      if G = this then object.elim [] (·.membersOnline) else s.membersOnline G := by
  unfold membersOnline setObject
  dsimp only
  rw [Function.update_apply]
  split <;> rfl

/-- An object keeps its id. -/
theorem sound_setObject (hs : s.Sound) {old new : Guild} (hold : s.objects this = some old)
    (hid : new.id = old.id) : (s.setObject this (some new)).Sound where
  found id G hG := by
    obtain ⟨guild, hguild, hguildId⟩ := hs.found id G hG
    by_cases heq : G = this
    · subst heq
      have hsame : old = guild := Option.some.inj (hold.symm.trans hguild)
      refine ⟨new, Function.update_self .., ?_⟩
      rw [hid, hsame, hguildId]
    · exact ⟨guild, (Function.update_of_ne heq _ _).trans hguild, hguildId⟩
  fresh G hG := by
    have hne : G ≠ this := by
      rintro rfl
      exact nomatch hold.symm.trans (hs.fresh G hG)
    exact (Function.update_of_ne hne _ _).trans (hs.fresh G hG)

/-! ## `Guild` -/

/-- What `addMember` does. -/
structure Added (this : GuildRef) (player : PlayerRef) (s t : Guilds) : Prop where
  members : t.members = s.members
  sound : s.Sound → t.Sound
  count : ∀ G x, (t.membersOnline G).count x =
    (s.membersOnline G).count x + if G = this ∧ x = player then 1 else 0

theorem added_addMember (h : s.addMember this player = some t) : Added this player s t := by
  obtain ⟨guild, hguild, rfl⟩ := Option.map_eq_some_iff.mp h
  refine ⟨rfl, fun hs => sound_setObject hs hguild rfl, fun G x => ?_⟩
  rw [membersOnline_setObject]
  by_cases hG : G = this
  · subst hG
    have hold : s.membersOnline G = guild.membersOnline := by simp [membersOnline, hguild]
    rw [if_pos rfl, hold]
    dsimp only [Option.elim]
    rw [List.count_append]
    by_cases hx : x = player
    · simp [hx]
    · simp [hx, Ne.symm hx]
  · simp [hG]

theorem Added.concerns (h : Added this player s t) : Concerns player s t where
  members x _ := congrFun h.members x
  count G x hx := by
    rw [h.count, if_neg fun hboth => hx hboth.2]
    rfl

/-- What `removeMember` does. -/
structure Removed (this : GuildRef) (player : PlayerRef) (s t : Guilds) : Prop where
  members : t.members = s.members
  sound : s.Sound → t.Sound
  count : ∀ G x, (t.membersOnline G).count x =
    if G = this ∧ x = player then 0 else (s.membersOnline G).count x

theorem count_filter_ne (l : List PlayerRef) (player x : PlayerRef) :
    (l.filter (· ≠ player)).count x = if x = player then 0 else l.count x := by
  by_cases hx : x = player
  · rw [if_pos hx, List.count_eq_zero, List.mem_filter]
    simp [hx]
  · rw [if_neg hx, List.count_filter (by simpa using hx)]

theorem removed_removeMember (h : s.removeMember this player = some t) :
    Removed this player s t := by
  obtain ⟨guild, hguild, rfl⟩ := Option.map_eq_some_iff.mp h
  have hold : s.membersOnline this = guild.membersOnline := by simp [membersOnline, hguild]
  dsimp only
  split
  next hempty =>
    refine ⟨rfl, fun hs => ⟨fun id G hG => ?_, fun G hG => ?_⟩, fun G x => ?_⟩
    · -- the map finds neither the object nor its id
      have hid : id ≠ guild.id := by
        rintro rfl
        simp [setObject, removeGuild] at hG
      have hfound : s.guilds id = some G := (Function.update_of_ne hid _ _).symm.trans hG
      obtain ⟨object, hobject, hobjectId⟩ := hs.found id G hfound
      have hne : G ≠ this := by
        rintro rfl
        have hsame : guild = object := Option.some.inj (hguild.symm.trans hobject)
        exact hid (hsame ▸ hobjectId.symm)
      exact ⟨object, (Function.update_of_ne hne _ _).trans hobject, hobjectId⟩
    · by_cases hne : G = this
      · subst hne
        exact Function.update_self ..
      · exact (Function.update_of_ne hne _ _).trans (hs.fresh G hG)
    · rw [membersOnline_setObject]
      by_cases hG : G = this
      · have hcount := count_filter_ne guild.membersOnline player x
        rw [hempty] at hcount
        subst hG
        rw [if_pos rfl, hold]
        simpa using hcount
      · rw [if_neg hG, if_neg fun hboth => hG hboth.1]
        rfl
  next hleft =>
    refine ⟨rfl, fun hs => sound_setObject hs hguild rfl, fun G x => ?_⟩
    rw [membersOnline_setObject]
    by_cases hG : G = this
    · subst hG
      rw [if_pos rfl, hold]
      simpa using count_filter_ne guild.membersOnline player x
    · rw [if_neg hG, if_neg fun hboth => hG hboth.1]

theorem Removed.concerns (h : Removed this player s t) : Concerns player s t where
  members x _ := congrFun h.members x
  count G x hx := by rw [h.count, if_neg fun hboth => hx hboth.2]

end Frame

/-! ## `Player` -/

section Player

variable {s t : Guilds} {player : PlayerRef}

/-- What reading a player from the database leaves alone. -/
structure Loaded (player : PlayerRef) (s t : Guilds) : Prop where
  members : ∀ x, x ≠ player → t.members x = s.members x
  online : (t.members player).online = false
  sound : t.Sound
  count : ∀ G x, (t.membersOnline G).count x = (s.membersOnline G).count x

theorem findGuild_spec (hs : s.Sound) (rows : GuildRows) :
    (s.findGuild rows).2.members = s.members ∧ (s.findGuild rows).2.Sound ∧
      ∀ G, (s.findGuild rows).2.membersOnline G = s.membersOnline G := by
  unfold findGuild
  split
  · exact ⟨rfl, hs, fun _ => rfl⟩
  split
  next ranks _ =>
    refine ⟨rfl, ⟨fun id G hG => ?_, fun G hG => ?_⟩, fun G => ?_⟩
    · by_cases hid : id = rows.guildId
      · subst hid
        obtain rfl : s.fresh = G := by simpa [newGuild] using hG
        exact ⟨_, Function.update_self .., rfl⟩
      · have hfound : s.guilds id = some G := (Function.update_of_ne hid _ _).symm.trans hG
        obtain ⟨guild, hguild, hguildId⟩ := hs.found id G hfound
        have hne : G ≠ s.fresh := by
          rintro rfl
          exact nomatch hguild.symm.trans (hs.fresh _ (Nat.le_refl _))
        exact ⟨guild, (Function.update_of_ne hne _ _).trans hguild, hguildId⟩
    · have hlt : s.fresh < G := hG
      have hne : G ≠ s.fresh := Nat.ne_of_gt hlt
      exact (Function.update_of_ne hne _ _).trans (hs.fresh G (Nat.le_of_lt hlt))
    · have hobject := membersOnline_setObject s s.fresh
        (some { id := rows.guildId, ranks := ranks }) G
      refine hobject.trans ?_
      split
      next hG => simp [membersOnline, hG, hs.fresh]
      next => rfl
  · exact ⟨rfl, hs, fun _ => rfl⟩

theorem findRank_spec (hs : s.Sound) {this : GuildRef} {rows : GuildRows}
    {rank : Option GuildRank} (h : s.findRank this rows = some (rank, t)) :
    t.members = s.members ∧ t.Sound ∧ ∀ G, t.membersOnline G = s.membersOnline G := by
  obtain ⟨guild, hguild, h⟩ := Option.bind_eq_some_iff.mp h
  split at h
  · obtain ⟨-, rfl⟩ : _ ∧ s = t := by simpa using h
    exact ⟨rfl, hs, fun _ => rfl⟩
  split at h
  · obtain ⟨-, rfl⟩ : _ ∧ s = t := by simpa using h
    exact ⟨rfl, hs, fun _ => rfl⟩
  next row _ =>
    obtain ⟨u, hu, h⟩ := Option.map_eq_some_iff.mp h
    obtain ⟨-, rfl⟩ := Prod.mk.inj h
    obtain ⟨guild', hguild', rfl⟩ := Option.map_eq_some_iff.mp hu
    refine ⟨rfl, sound_setObject hs hguild' rfl, fun G => ?_⟩
    rw [membersOnline_setObject]
    split
    next hG => simp [membersOnline, hG, hguild']
    next => rfl

theorem loaded_setMember {u : Guilds} {member : GuildMember} (hu : u.members = s.members)
    (hsound : u.Sound) (hlists : ∀ G, u.membersOnline G = s.membersOnline G)
    (hmember : member.online = false) : Loaded player s (u.setMember player member) where
  members x hx := by rw [members_setMember, if_neg hx, hu]
  online := by rw [members_setMember, if_pos rfl, hmember]
  sound := sound_setMember hsound player member
  count G x := by rw [membersOnline_setMember, hlists]

theorem loaded_loadPlayer (hs : s.Sound) {rows : Option GuildRows}
    (h : s.loadPlayer player rows = some t) : Loaded player s t := by
  cases rows with
  | none =>
    obtain rfl := Option.some.inj h
    exact loaded_setMember rfl hs (fun _ => rfl) rfl
  | some rows =>
    obtain ⟨hmembers, hsound, hlists⟩ := findGuild_spec hs rows
    dsimp only [loadPlayer] at h
    split at h
    next u hfind =>
      rw [hfind] at hmembers hsound hlists
      obtain rfl := Option.some.inj h
      exact loaded_setMember hmembers hsound hlists rfl
    next this u hfind =>
      rw [hfind] at hmembers hsound hlists
      obtain ⟨⟨rank, v⟩, hrank, rfl⟩ := Option.map_eq_some_iff.mp h
      obtain ⟨hmembers', hsound', hlists'⟩ := findRank_spec hsound hrank
      exact loaded_setMember (hmembers'.trans hmembers) hsound'
        (fun G => (hlists' G).trans (hlists G)) rfl

/-- Nobody is put on a list or taken off one by the loading of a player who is not online. -/
theorem Exact.loaded (hs : s.Exact) (h : Loaded player s t)
    (hoffline : (s.members player).online = false) : t.Exact := by
  have hconcerns : Concerns player s t := ⟨h.members, fun G x _ => h.count G x⟩
  refine (hs.of_concerns hconcerns).mpr fun G => ?_
  rw [h.count, hs G player, h.online, hoffline]
  simp

/-- What `addTo` and `removeFrom` do, when there is a guild and when there is none. -/
structure Listed (delta : GuildRef → ℕ → ℕ) (player : PlayerRef) (s t : Guilds) : Prop where
  members : t.members = s.members
  sound : s.Sound → t.Sound
  other : ∀ G x, x ≠ player → (t.membersOnline G).count x = (s.membersOnline G).count x
  count : ∀ G, (t.membersOnline G).count player = delta G ((s.membersOnline G).count player)

theorem Listed.concerns {delta : GuildRef → ℕ → ℕ} (h : Listed delta player s t) :
    Concerns player s t := ⟨fun x _ => congrFun h.members x, h.other⟩

theorem listed_addTo {guild : Option GuildRef} (h : s.addTo player guild = some t) :
    Listed (fun G n => n + if guild = some G then 1 else 0) player s t := by
  cases guild with
  | none =>
    obtain rfl := Option.some.inj h
    exact ⟨rfl, id, fun _ _ _ => rfl, fun _ => rfl⟩
  | some this =>
    have hadded := added_addMember h
    refine ⟨hadded.members, hadded.sound, hadded.concerns.count, fun G => ?_⟩
    rw [hadded.count]
    simp [eq_comm]

theorem listed_removeFrom {guild : Option GuildRef} (h : s.removeFrom player guild = some t) :
    Listed (fun G n => if guild = some G then 0 else n) player s t := by
  cases guild with
  | none =>
    obtain rfl := Option.some.inj h
    exact ⟨rfl, id, fun _ _ _ => rfl, fun _ => rfl⟩
  | some this =>
    have hremoved := removed_removeMember h
    refine ⟨hremoved.members, hremoved.sound, hremoved.concerns.count, fun G => ?_⟩
    rw [hremoved.count]
    simp [eq_comm]

/-- How often a player is on a list, when the lists are exact. -/
theorem Exact.count (hs : s.Exact) (G : GuildRef) : (s.membersOnline G).count player =
    if (s.members player).online ∧ (s.members player).guild = some G then 1 else 0 := hs G player

/-! ## `setGuild` -/

def hasLowestRank (s : Guilds) (G : GuildRef) : Bool :=
  ((s.objects G).bind fun object => object.getRankByLevel 1).isSome

/-- `setGuild` makes the player change lists as he changes guilds: he is online when he gets a
guild, and he has none when the guild turns out to have no lowest rank. -/
def ChangesLists (s : Guilds) (player : PlayerRef) : Option GuildRef → Prop
  | none => True
  | some guild => (s.members player).guild = some guild ∨
      if s.hasLowestRank guild then (s.members player).online = true
      else (s.members player).online = true → (s.members player).guild = none

theorem exact_setGuild (hs : s.Exact) {guild : Option GuildRef}
    (h : s.setGuild player guild = some t) : t.Exact ↔ s.ChangesLists player guild := by
  dsimp only [setGuild] at h
  split at h
  next hsame =>
    obtain rfl := Option.some.inj h
    refine iff_of_true hs ?_
    cases guild with
    | none => trivial
    | some guild => exact Or.inl hsame.symm
  next hother =>
    cases guild with
    | none =>
      have hremoved := listed_removeFrom h
      refine iff_of_true ?_ trivial
      refine (hs.of_concerns ((concerns_setMember s player _).trans hremoved.concerns)).mpr ?_
      intro G
      rw [hremoved.count, hremoved.members, members_setMember, if_pos rfl,
        membersOnline_setMember, hs.count]
      by_cases hG : (s.members player).guild = some G
      · simp [hG]
      · simp [hG]
    | some guild =>
      obtain ⟨object, hobject, h⟩ := Option.bind_eq_some_iff.mp h
      have hrank : s.hasLowestRank guild = (object.getRankByLevel 1).isSome := by
        simp [hasLowestRank, hobject]
      split at h
      next hnone =>
        -- the early return: the old guild keeps him on its list
        obtain rfl := Option.some.inj h
        have hlists : s.ChangesLists player (some guild) ↔
            ((s.members player).online = true → (s.members player).guild = none) := by
          dsimp only [ChangesLists]
          rw [hrank, hnone, or_iff_right fun hsame => hother hsame.symm]
          exact Iff.rfl
        rw [hs.of_concerns (concerns_setMember s player _), hlists]
        constructor
        · intro hexact honline
          cases hold : (s.members player).guild with
          | none => rfl
          | some G =>
            have hcount := hexact G
            rw [membersOnline_setMember, hs.count, if_pos ⟨honline, hold⟩] at hcount
            simp at hcount
        · intro hfree G
          rw [membersOnline_setMember, hs.count, if_neg]
          · simp
          · rintro ⟨honline, hold⟩
            exact nomatch hold.symm.trans (hfree honline)
      next rank hsome =>
        obtain ⟨u, hu, h⟩ := Option.bind_eq_some_iff.mp h
        have hadded := added_addMember hu
        have hremoved := listed_removeFrom h
        have hlists : s.ChangesLists player (some guild) ↔
            (s.members player).online = true := by
          dsimp only [ChangesLists]
          rw [hrank, hsome, or_iff_right fun hsame => hother hsame.symm]
          exact Iff.rfl
        -- he is taken off the old list and is on the new one once
        have hcount (G : GuildRef) :
            (t.membersOnline G).count player = if G = guild then 1 else 0 := by
          rw [hremoved.count, hadded.count, membersOnline_setMember, hs.count]
          by_cases hold : (s.members player).guild = some G
          · have hG : G ≠ guild := by
              rintro rfl
              exact hother hold.symm
            simp [hold, hG]
          · simp [hold]
        have hmember : t.members player =
            { guild := some guild, guildRank := some rank,
              online := (s.members player).online } := by
          rw [hremoved.members, hadded.members, members_setMember, if_pos rfl]
        rw [hs.of_concerns (((concerns_setMember s player _).trans hadded.concerns).trans
          hremoved.concerns), hlists]
        constructor
        · intro hexact
          have honline := hexact guild
          rw [hcount, hmember, if_pos rfl] at honline
          by_contra hoffline
          simp [hoffline] at honline
        · intro honline G
          rw [hcount, hmember]
          simp [honline, eq_comm]

theorem sound_setGuild (hs : s.Sound) {guild : Option GuildRef}
    (h : s.setGuild player guild = some t) : t.Sound := by
  dsimp only [setGuild] at h
  split at h
  · exact Option.some.inj h ▸ hs
  cases guild with
  | none => exact (listed_removeFrom h).sound (sound_setMember hs player _)
  | some guild =>
    obtain ⟨object, _, h⟩ := Option.bind_eq_some_iff.mp h
    split at h
    · exact Option.some.inj h ▸ sound_setMember hs player _
    · obtain ⟨u, hu, h⟩ := Option.bind_eq_some_iff.mp h
      have hadded := added_addMember hu
      exact (listed_removeFrom h).sound (hadded.sound (sound_setMember hs player _))

/-! ## Logins and logouts -/

theorem exact_onLogin (hs : s.Exact) (hoffline : (s.members player).online = false)
    (h : s.onLogin player = some t) : t.Exact := by
  have hadded := listed_addTo h
  refine (hs.of_concerns ((concerns_setMember s player _).trans hadded.concerns)).mpr fun G => ?_
  rw [hadded.count, hadded.members, members_setMember, if_pos rfl, membersOnline_setMember,
    hs.count, hoffline]
  simp

theorem exact_onLogout (hs : s.Exact) (h : s.onLogout player = some t) : t.Exact := by
  have hremoved := listed_removeFrom h
  refine (hs.of_concerns ((concerns_setMember s player _).trans hremoved.concerns)).mpr
    fun G => ?_
  rw [hremoved.count, hremoved.members, members_setMember, if_pos rfl, membersOnline_setMember,
    hs.count]
  by_cases hG : (s.members player).guild = some G
  · simp [hG]
  · simp [hG]

/-- The condition on a step. -/
def Keeps (s : Guilds) : GuildAction → Prop
  | .setGuild player guild => s.ChangesLists player guild
  | _ => True

theorem exact_step (hsound : s.Sound) (hs : s.Exact) {action : GuildAction}
    (h : s.step action = some t) : t.Sound ∧ (t.Exact ↔ s.Keeps action) := by
  cases action with
  | login player rows =>
    obtain ⟨hoffline, h⟩ := Option.ite_none_left_eq_some.mp h
    obtain ⟨u, hload, hlogin⟩ := Option.bind_eq_some_iff.mp h
    have hloaded := loaded_loadPlayer hsound hload
    have hu := hs.loaded hloaded (Bool.eq_false_iff.mpr hoffline)
    refine ⟨?_, iff_of_true (exact_onLogin hu hloaded.online hlogin) trivial⟩
    exact (listed_addTo hlogin).sound (sound_setMember hloaded.sound player _)
  | loadOffline player rows =>
    obtain ⟨hoffline, hload⟩ := Option.ite_none_left_eq_some.mp h
    have hloaded := loaded_loadPlayer hsound hload
    exact ⟨hloaded.sound,
      iff_of_true (hs.loaded hloaded (Bool.eq_false_iff.mpr hoffline)) trivial⟩
  | logout player =>
    obtain ⟨_, h⟩ := Option.ite_none_right_eq_some.mp h
    refine ⟨?_, iff_of_true (exact_onLogout hs h) trivial⟩
    exact (listed_removeFrom h).sound (sound_setMember hsound player _)
  | setGuild player guild => exact ⟨sound_setGuild hsound h, exact_setGuild hs h⟩

end Player

/-- The lists of online members are exact in every state of a history exactly when each
`setGuild` makes its player change lists. -/
theorem membersOnline_exact_iff (actions : List GuildAction) :
    Always step Exact {} actions ↔ EachStep step Keeps {} actions := by
  refine always_iff_of_breaks (I := fun s : Guilds => s.Sound ∧ s.Exact) (fun _ h => h.2)
    ?_ ?_ actions {} ⟨⟨fun _ _ h => (nomatch h), fun _ _ => rfl⟩, fun _ _ => rfl⟩
  · intro s action t hs hkeeps h
    obtain ⟨hsound, hexact⟩ := exact_step hs.1 hs.2 h
    exact ⟨hsound, hexact.mpr hkeeps⟩
  · intro s action t hs hbreaks h hexact
    exact hbreaks ((exact_step hs.1 hs.2 h).2.mp hexact)

/-- A member of one guild is put into another that has no rank of level 1: he is in no guild,
and still on the list of the first. -/
theorem rankless_guild_leaves_him_listed :
    let member : GuildRank := ⟨1, "Member", 1⟩
    let leader : GuildRank := ⟨2, "Leader", 3⟩
    ¬Always step Exact {}
      [.login 1 (some ⟨5, 1, "", some [member], none⟩),
        .login 2 (some ⟨6, 2, "", some [leader], none⟩), .setGuild 1 (some 1)] := by
  intro member leader h
  have hexact := ((h.2 _ rfl).2 _ rfl).2 _ rfl
  exact absurd (hexact 0 1) (by decide)

end Guilds

end TibiaServer.Players
