import Mathlib.Data.Option.Basic
import TibiaServer.Library.Run
/-!
# The sessions of one character

Any number of connections log in under one name.  The first one creates the player; a later one
disconnects the client that the player has and connects a second later, if the player has no
client by then.  The release of a connection takes the client away again, and may log the player
out.
-/

namespace TibiaServer.Login

open TibiaServer.Library

/-- What of `ProtocolGame` and its connection the tasks look at. -/
structure GameProtocol where
  /-- The first message came. -/
  receivedFirst : Bool := false
  connected : Bool := true
  releaseQueued : Bool := false
  acceptPackets : Bool := false
  player : Option ℕ := none
  /-- The player that a scheduled `connect` is for. -/
  eventConnect : Option ℕ := none

/-- The players of the name that are in the game, and the client of each player. -/
structure Sessions where
  players : List ℕ := []
  client : ℕ → Option ℕ := fun _ => none
  protocol : ℕ → GameProtocol := fun _ => {}
  nextPlayer : ℕ := 0

/-- How the login of a new player ends: he is refused, the login script has him kicked, or he is
in the game. -/
inductive LoginResult
  | refused
  | kicked
  | placed

namespace Sessions

variable (s : Sessions)

def setProtocol (p : ℕ) (protocol : GameProtocol) : Sessions :=
  { s with protocol := Function.update s.protocol p protocol }

/-- `Connection::close` -/
def disconnect (p : ℕ) : Sessions :=
  if (s.protocol p).connected then
    s.setProtocol p { s.protocol p with connected := false, releaseQueued := true }
  else s

def removeCreature (x : ℕ) : Sessions := { s with players := s.players.erase x }

/-- `allowed`: no tile flag, no fight and no script is against it. -/
def logout (p : ℕ) (forced allowed : Bool) : Sessions :=
  match (s.protocol p).player with
  | none => s
  | some x =>
    if x ∈ s.players ∧ !forced ∧ !allowed then s
    else (s.disconnect p).removeCreature x

/-- `player = new Player(getThis())` -/
def newPlayer (p : ℕ) : Sessions :=
  { s.setProtocol p { s.protocol p with player := some s.nextPlayer } with
    client := Function.update s.client s.nextPlayer (some p)
    nextPlayer := s.nextPlayer + 1 }

/-- The player of a protocol enters the game. -/
def placeCreature (x : ℕ) : Sessions := { s with players := x :: s.players }

def setAcceptPackets (p : ℕ) : Sessions :=
  s.setProtocol p { s.protocol p with acceptPackets := true }

/-- `expired`: the connection object is gone. -/
def connect (p x : ℕ) (expired : Bool) : Sessions :=
  let s := s.setProtocol p { s.protocol p with eventConnect := none }
  if x ∉ s.players ∨ (s.client x).isSome then s.disconnect p
  else if expired then s
  else
    let s := s.setProtocol p { s.protocol p with player := some x }
    { s with client := Function.update s.client x (some p) }.setAcceptPackets p

/-- `getPlayerByName` finds the first of `players`; `replaceKick` is the configured
`REPLACE_KICK_ON_LOGIN`. -/
def login (replaceKick : Bool) (p : ℕ) (result : LoginResult) (expired : Bool) : Sessions :=
  match s.players.head? with
  | none =>
    let x := s.nextPlayer
    let s := s.newPlayer p
    match result with
    | .refused => s.disconnect p
    | .kicked => ((s.placeCreature x).logout p true true).setAcceptPackets p
    | .placed => (s.placeCreature x).setAcceptPackets p
  | some foundPlayer =>
    if (s.protocol p).eventConnect.isSome || !replaceKick then s.disconnect p
    else
      match s.client foundPlayer with
      | some client =>
        let s := s.disconnect client
        s.setProtocol p { s.protocol p with eventConnect := some foundPlayer }
      | none => s.connect p foundPlayer expired

/-- `safe`: the player stands on a protected tile or is in no fight. -/
def release (p : ℕ) (safe : Bool) : Sessions :=
  match (s.protocol p).player with
  | none => s
  | some x =>
    if s.client x = some p then
      let s := if safe then s.logout p true true else s
      { s with client := Function.update s.client x none }.setProtocol p
        { s.protocol p with player := none }
    else s

end Sessions

/-- The tasks of the dispatcher, and the loss of a connection, which queues one. -/
inductive SessionTask
  | login (p : ℕ) (result : LoginResult) (expired : Bool)
  | connect (p : ℕ) (expired : Bool)
  | logout (p : ℕ) (allowed : Bool)
  | release (p : ℕ) (safe : Bool)
  | lost (p : ℕ)

namespace Sessions

/-- A task that was not queued is not enabled. -/
def step (replaceKick : Bool) (s : Sessions) : SessionTask → Option Sessions
  | .login p result expired =>
    if (s.protocol p).receivedFirst then none
    else
      let s := s.setProtocol p { s.protocol p with receivedFirst := true }
      some (s.login replaceKick p result expired)
  | .connect p expired => (s.protocol p).eventConnect.map fun x => s.connect p x expired
  | .logout p allowed =>
    if (s.protocol p).acceptPackets then some (s.logout p false allowed) else none
  | .release p safe =>
    if (s.protocol p).releaseQueued then
      let s := s.setProtocol p { s.protocol p with releaseQueued := false }
      some (s.release p safe)
    else none
  | .lost p => if (s.protocol p).connected then some (s.disconnect p) else none

/-- One player of the name at most, whose client is the only protocol that has him. -/
structure OneSession (s : Sessions) : Prop where
  single : s.players.length ≤ 1
  client : ∀ p, ∀ x ∈ s.players, (s.protocol p).player = some x → s.client x = some p
  controls : ∀ p q, ∀ x ∈ s.players, (s.protocol p).player = some x →
    (s.protocol q).player = some x → p = q

/-- The invariant: every player that a protocol has is a known one, and names it as his client. -/
structure Good (s : Sessions) : Prop where
  single : s.players.length ≤ 1
  client : ∀ p x, (s.protocol p).player = some x → s.client x = some p
  known : ∀ p x, (s.protocol p).player = some x → x < s.nextPlayer
  online : ∀ x ∈ s.players, x < s.nextPlayer

variable {s t : Sessions} {p q x : ℕ}

theorem Good.oneClient (h : s.Good) (hp : (s.protocol p).player = some x)
    (hq : (s.protocol q).player = some x) : p = q :=
  Option.some.inj ((h.client p x hp).symm.trans (h.client q x hq))

theorem Good.oneSession (h : s.Good) : s.OneSession where
  single := h.single
  client p x _ hx := h.client p x hx
  controls _ _ _ _ hp hq := h.oneClient hp hq

/-! ## Single writes -/

/-- A write to a protocol that keeps its player. -/
theorem player_setProtocol {protocol : GameProtocol}
    (h : protocol.player = (s.protocol p).player) (q : ℕ) :
    ((s.setProtocol p protocol).protocol q).player = (s.protocol q).player := by
  by_cases hq : q = p
  · subst hq
    simpa [setProtocol] using h
  · simp [setProtocol, hq]

theorem player_disconnect (p q : ℕ) :
    ((s.disconnect p).protocol q).player = (s.protocol q).player := by
  unfold disconnect
  split
  · apply player_setProtocol
    rfl
  · rfl

theorem player_logout (p q : ℕ) (forced allowed : Bool) :
    ((s.logout p forced allowed).protocol q).player = (s.protocol q).player := by
  unfold logout
  split
  · rfl
  · split
    · rfl
    · exact player_disconnect p q

namespace Good

theorem setProtocol (hs : s.Good) {protocol : GameProtocol}
    (h : protocol.player = (s.protocol p).player) : (s.setProtocol p protocol).Good where
  single := hs.single
  client q x hx := hs.client q x (by rwa [player_setProtocol h] at hx)
  known q x hx := hs.known q x (by rwa [player_setProtocol h] at hx)
  online := hs.online

theorem disconnect (hs : s.Good) (p : ℕ) : (s.disconnect p).Good := by
  unfold Sessions.disconnect
  split
  · exact hs.setProtocol rfl
  · exact hs

theorem removeCreature (hs : s.Good) (x : ℕ) : (s.removeCreature x).Good where
  single := Nat.le_trans List.length_erase_le hs.single
  client := hs.client
  known := hs.known
  online y hy := hs.online y (List.mem_of_mem_erase hy)

theorem logout (hs : s.Good) (p : ℕ) (forced allowed : Bool) : (s.logout p forced allowed).Good := by
  unfold Sessions.logout
  split
  · exact hs
  · split
    · exact hs
    · exact (hs.disconnect p).removeCreature _

theorem newPlayer (hs : s.Good) (p : ℕ) : (s.newPlayer p).Good where
  single := hs.single
  client q x hx := by
    by_cases hq : q = p
    · subst hq
      have hnew : s.nextPlayer = x := by simpa [Sessions.newPlayer, Sessions.setProtocol] using hx
      simp [Sessions.newPlayer, hnew]
    · have hold : (s.protocol q).player = some x := by
        simpa [Sessions.newPlayer, Sessions.setProtocol, hq] using hx
      have hne : x ≠ s.nextPlayer := Nat.ne_of_lt (hs.known q x hold)
      simpa [Sessions.newPlayer, Sessions.setProtocol, hne] using hs.client q x hold
  known q x hx := by
    by_cases hq : q = p
    · subst hq
      have hnew : s.nextPlayer = x := by simpa [Sessions.newPlayer, Sessions.setProtocol] using hx
      simp [Sessions.newPlayer, hnew]
    · have hold : (s.protocol q).player = some x := by
        simpa [Sessions.newPlayer, Sessions.setProtocol, hq] using hx
      exact Nat.lt_succ_of_lt (hs.known q x hold)
  online x hx := Nat.lt_succ_of_lt (hs.online x hx)

theorem placeCreature (hs : s.Good) (hnone : s.players.head? = none) (hx : x < s.nextPlayer) :
    (s.placeCreature x).Good where
  single := by
    rw [List.head?_eq_none_iff] at hnone
    simp [Sessions.placeCreature, hnone]
  client := hs.client
  known := hs.known
  online y hy := by
    rcases List.mem_cons.mp hy with rfl | hy
    · exact hx
    · exact hs.online y hy

theorem setAcceptPackets (hs : s.Good) (p : ℕ) : (s.setAcceptPackets p).Good := hs.setProtocol rfl

/-- A player without a client gets one. -/
theorem takeOver (hs : s.Good) (hclient : s.client x = none) (hx : x < s.nextPlayer) :
    Good { s.setProtocol p { s.protocol p with player := some x } with
      client := Function.update s.client x (some p) } where
  single := hs.single
  client q y hy := by
    by_cases hq : q = p
    · subst hq
      have hsame : x = y := by simpa [Sessions.setProtocol] using hy
      simp [hsame]
    · have hold : (s.protocol q).player = some y := by
        simpa [Sessions.setProtocol, hq] using hy
      have hne : y ≠ x := by
        rintro rfl
        rw [hs.client q y hold] at hclient
        cases hclient
      simpa [hne] using hs.client q y hold
  known q y hy := by
    by_cases hq : q = p
    · subst hq
      have hsame : x = y := by simpa [Sessions.setProtocol] using hy
      exact hsame ▸ hx
    · exact hs.known q y (by simpa [Sessions.setProtocol, hq] using hy)
  online := hs.online

theorem connect (hs : s.Good) (p x : ℕ) (expired : Bool) : (s.connect p x expired).Good := by
  have hstart : (s.setProtocol p { s.protocol p with eventConnect := none }).Good :=
    hs.setProtocol rfl
  unfold Sessions.connect
  simp only
  split
  · exact hstart.disconnect p
  next hfound =>
    split
    · exact hstart
    · rw [not_or, not_not, Option.not_isSome_iff_eq_none] at hfound
      exact (hstart.takeOver hfound.2 (hstart.online x hfound.1)).setAcceptPackets p

theorem login (hs : s.Good) (replaceKick : Bool) (p : ℕ) (result : LoginResult) (expired : Bool) :
    (s.login replaceKick p result expired).Good := by
  unfold Sessions.login
  split
  next hnone =>
    have hnew := hs.newPlayer p
    have hplaced : ((s.newPlayer p).placeCreature s.nextPlayer).Good :=
      hnew.placeCreature hnone (Nat.lt_succ_self _)
    cases result with
    | refused => exact hnew.disconnect p
    | kicked => exact (hplaced.logout p true true).setAcceptPackets p
    | placed => exact hplaced.setAcceptPackets p
  · split
    · exact hs.disconnect p
    · split
      · exact (hs.disconnect _).setProtocol rfl
      · exact hs.connect p _ expired

/-- A protocol gives up its player, who has no client then. -/
theorem giveUp (hs : s.Good) (hplayer : (s.protocol p).player = some x) :
    Good ({ s with client := Function.update s.client x none }.setProtocol p
      { s.protocol p with player := none }) where
  single := hs.single
  client q y hy := by
    by_cases hq : q = p
    · subst hq
      simp [Sessions.setProtocol] at hy
    · have hold : (s.protocol q).player = some y := by
        simpa [Sessions.setProtocol, hq] using hy
      have hne : y ≠ x := by
        rintro rfl
        exact hq (hs.oneClient hold hplayer)
      simpa [Sessions.setProtocol, hne] using hs.client q y hold
  known q y hy := by
    by_cases hq : q = p
    · subst hq
      simp [Sessions.setProtocol] at hy
    · exact hs.known q y (by simpa [Sessions.setProtocol, hq] using hy)
  online := hs.online

theorem release (hs : s.Good) (p : ℕ) (safe : Bool) : (s.release p safe).Good := by
  unfold Sessions.release
  split
  · exact hs
  next x hplayer =>
    split
    · have hleft : (if safe then s.logout p true true else s).Good := by
        split
        · exact hs.logout p true true
        · exact hs
      apply hleft.giveUp
      split
      · rw [player_logout]
        exact hplayer
      · exact hplayer
    · exact hs

theorem step (hs : s.Good) {replaceKick : Bool} {task : SessionTask}
    (h : s.step replaceKick task = some t) : t.Good := by
  cases task with
  | login p result expired =>
    simp only [Sessions.step] at h
    split at h
    · cases h
    · cases h
      apply Good.login
      exact hs.setProtocol rfl
  | connect p expired =>
    obtain ⟨x, -, rfl⟩ := Option.map_eq_some_iff.mp h
    exact hs.connect p x expired
  | logout p allowed =>
    simp only [Sessions.step] at h
    split at h
    · cases h
      exact hs.logout p false allowed
    · cases h
  | release p safe =>
    simp only [Sessions.step] at h
    split at h
    · cases h
      apply Good.release
      exact hs.setProtocol rfl
    · cases h
  | lost p =>
    simp only [Sessions.step] at h
    split at h
    · cases h
      exact hs.disconnect p
    · cases h

end Good

/-- However the tasks of the connections are mixed, the character has one session at most. -/
theorem always_oneSession (replaceKick : Bool) (tasks : List SessionTask) :
    Run.Always (step replaceKick) OneSession {} tasks := by
  apply Run.always_of_invariant (I := Good)
  · exact fun _ _ _ hs h => hs.step h
  · exact fun _ hs => hs.oneSession
  · exact
      { single := Nat.zero_le 1
        client := fun p x h => by cases h
        known := fun p x h => by cases h
        online := fun x h => by cases h }

end Sessions

end TibiaServer.Login
