import Mathlib.Data.Finset.Card
import TibiaServer.Library.Run
/-!
# The spectators of a live cast

A connection that spectates holds a reference to the player of the caster and stands in the list
of the caster's protocol.  Logging out takes it off both, and the end of the cast gives back the
references of all that are in the list, but leaves them their pointers; a spectator whose
connection is lost goes through `release`, which looks for a client of its own only.
-/

namespace TibiaServer.Protocol

open TibiaServer.Library

/-- A connection that may spectate.  `spect` and `player` say whether these point to the caster's
protocol and to its player. -/
structure Viewer where
  asked : Bool := false
  connected : Bool := true
  spect : Bool := false
  player : Bool := false
  deriving DecidableEq

/-- One caster and the connections around it.  The references are those that spectators took,
without the ones that they gave back. -/
structure LiveCast where
  player : Bool := true
  connected : Bool := true
  removed : Bool := false
  isCaster : Bool := false
  /-- `liveCasts` maps the player to the caster's protocol. -/
  liveCasts : Bool := false
  spectators : List ℕ := []
  references : ℤ := 0
  viewer : ℕ → Viewer := fun _ => {}

namespace LiveCast

variable (s : LiveCast)

def setViewer (p : ℕ) (viewer : Viewer) : LiveCast :=
  { s with viewer := Function.update s.viewer p viewer }

/-- `disconnect`: the connection is closed, and its release is queued. -/
def disconnect (p : ℕ) : LiveCast := s.setViewer p { s.viewer p with connected := false }

/-- `allowed`: casting is enabled, and there are not too many casts. -/
def startLiveCast (allowed : Bool) : LiveCast :=
  if !allowed || s.isCaster || !s.player || s.removed || !s.connected then s
  else { s with isCaster := true, liveCasts := true }

/-- The reference is given back; the pointer that is cleared is the argument. -/
def onLiveCastStop (p : ℕ) : LiveCast :=
  let s := if s.player then { s with references := s.references - 1 } else s
  s.disconnect p

def stopLiveCast : LiveCast :=
  if !s.isCaster then s
  else
    let spectators := s.spectators
    let s := { s with spectators := [], isCaster := false, liveCasts := false }
    spectators.foldl onLiveCastStop s

/-- `right`: the cast has no password, or it is this one. -/
def spectate (p : ℕ) (right : Bool) : LiveCast :=
  let s := s.setViewer p { s.viewer p with asked := true }
  if s.removed || !s.liveCasts || !s.isCaster || !right then s.disconnect p
  else
    let s := s.setViewer p { s.viewer p with spect := true, player := true }
    { s with references := s.references + 1, spectators := s.spectators ++ [p] }

/-- The loss of a spectator's connection: its player has another client. -/
def releaseSpectator (p : ℕ) : LiveCast := s.disconnect p

def spectatelogout (p : ℕ) : LiveCast :=
  let s :=
    if (s.viewer p).spect && (s.viewer p).player then
      let s := { s with spectators := s.spectators.erase p, references := s.references - 1 }
      s.setViewer p { s.viewer p with player := false }
    else s
  (s.disconnect p).releaseSpectator p

/-- The loss of the caster's connection; the player leaves the game unless he is in a fight. -/
def releaseCaster (logsOut : Bool) : LiveCast :=
  let s := { s.stopLiveCast with connected := false }
  if s.player then { s with removed := s.removed || logsOut, player := false } else s

end LiveCast

inductive CastTask
  | startLiveCast (allowed : Bool)
  | spectate (p : ℕ) (right : Bool)
  | spectatelogout (p : ℕ)
  | stopLiveCast
  | releaseCaster (logsOut : Bool)
  | releaseSpectator (p : ℕ)

namespace LiveCast

/-- A connection has one first message, and so asks once. -/
def step (s : LiveCast) : CastTask → Option LiveCast
  | .startLiveCast allowed => some (s.startLiveCast allowed)
  | .spectate p right => if (s.viewer p).asked then none else some (s.spectate p right)
  | .spectatelogout p => some (s.spectatelogout p)
  | .stopLiveCast => some s.stopLiveCast
  | .releaseCaster logsOut => some (s.releaseCaster logsOut)
  | .releaseSpectator p => some (s.releaseSpectator p)

/-- A connection that is open and shows the cast. -/
def Spectating (s : LiveCast) (p : ℕ) : Prop :=
  (s.viewer p).connected = true ∧ (s.viewer p).spect = true ∧ (s.viewer p).player = true

/-- One reference and one entry for each connection that spectates. -/
structure Balanced (s : LiveCast) : Prop where
  references : ∃ watching : Finset ℕ, (∀ p, p ∈ watching ↔ s.Spectating p) ∧
    s.references = watching.card
  spectating : ∀ p, s.Spectating p → s.spectators.count p = 1
  others : ∀ p, ¬s.Spectating p → p ∉ s.spectators
  liveCasts : s.liveCasts = s.isCaster

/-- What keeps the balance: who leaves still spectates where it holds a reference, and nobody who
spectates is released. -/
def Keeps (s : LiveCast) : CastTask → Prop
  | .spectate p right =>
    (s.removed || !s.liveCasts || !s.isCaster || !right) = false → (s.viewer p).connected = true
  | .spectatelogout p =>
    (s.viewer p).spect = true → (s.viewer p).player = true → (s.viewer p).connected = true
  | .releaseSpectator p => ¬s.Spectating p
  | .startLiveCast _ | .stopLiveCast | .releaseCaster _ => True

/-- The invariant: the list says who spectates. -/
structure Good (s : LiveCast) : Prop where
  references : s.references = s.spectators.length
  nodup : s.spectators.Nodup
  mem_iff : ∀ p, p ∈ s.spectators ↔ s.Spectating p
  liveCasts : s.liveCasts = s.isCaster
  casting : s.isCaster = false → s.spectators = []
  player : s.isCaster = true → s.player = true
  asked : ∀ p, (s.viewer p).player = true → (s.viewer p).asked = true

variable {s t : LiveCast} {p q : ℕ}

theorem Good.balanced (h : s.Good) : s.Balanced where
  references := by
    refine ⟨s.spectators.toFinset, fun p => ?_, ?_⟩
    · rw [List.mem_toFinset, h.mem_iff]
    · rw [h.references, List.toFinset_card_of_nodup h.nodup]
  spectating p hp := List.count_eq_one_of_mem h.nodup ((h.mem_iff p).mpr hp)
  others p hp hmem := hp ((h.mem_iff p).mp hmem)
  liveCasts := h.liveCasts

/-! ## Single writes -/

@[simp] theorem viewer_setViewer_self (viewer : Viewer) : (s.setViewer p viewer).viewer p = viewer :=
  Function.update_self ..

@[simp] theorem viewer_setViewer_of_ne (hq : q ≠ p) (viewer : Viewer) :
    (s.setViewer p viewer).viewer q = s.viewer q := Function.update_of_ne hq ..

theorem viewer_disconnect_of_ne (hq : q ≠ p) : (s.disconnect p).viewer q = s.viewer q :=
  viewer_setViewer_of_ne hq _

theorem spectating_disconnect : (s.disconnect p).Spectating q ↔ q ≠ p ∧ s.Spectating q := by
  by_cases hq : q = p
  · subst hq
    simp [Spectating, disconnect]
  · simp [Spectating, disconnect, hq]

/-! ## The end of the cast -/

/-- All that are in the list are disconnected, and give back a reference each. -/
theorem foldl_onLiveCastStop (hplayer : s.player = true) (l : List ℕ) :
    l.foldl onLiveCastStop s =
      { s with
        references := s.references - l.length
        viewer := fun q =>
          if q ∈ l then { s.viewer q with connected := false } else s.viewer q } := by
  induction l generalizing s with
  | nil => simp
  | cons p l ih =>
    have hstop : s.onLiveCastStop p =
        { s with
          references := s.references - 1
          viewer := Function.update s.viewer p { s.viewer p with connected := false } } := by
      unfold onLiveCastStop
      rw [if_pos hplayer]
      rfl
    have hreferences : s.references - 1 - (l.length : ℤ) = s.references - (p :: l).length := by
      rw [List.length_cons]
      omega
    have hviewer : (fun q => if q ∈ l then
          { Function.update s.viewer p { s.viewer p with connected := false } q with
            connected := false }
        else Function.update s.viewer p { s.viewer p with connected := false } q) =
        fun q => if q ∈ p :: l then { s.viewer q with connected := false } else s.viewer q := by
      funext q
      by_cases hq : q = p
      · subst hq
        simp
      · simp [hq]
    rw [List.foldl_cons, hstop, ih (by exact hplayer)]
    simp only [hreferences, hviewer]

theorem stopLiveCast_eq (hs : s.Good) (hcaster : s.isCaster = true) :
    s.stopLiveCast =
      { s with
        spectators := []
        isCaster := false
        liveCasts := false
        references := 0
        viewer := fun q =>
          if q ∈ s.spectators then { s.viewer q with connected := false } else s.viewer q } := by
  have hall : s.references - s.spectators.length = 0 := by
    rw [hs.references]
    omega
  unfold stopLiveCast
  simp only [hcaster, Bool.not_true, Bool.false_eq_true, if_false]
  rw [foldl_onLiveCastStop (by exact hs.player hcaster)]
  simp only [hall]

namespace Good

theorem stopLiveCast (hs : s.Good) : s.stopLiveCast.Good ∧ s.stopLiveCast.isCaster = false := by
  cases hcaster : s.isCaster with
  | false =>
    have hkept : s.stopLiveCast = s := by
      unfold LiveCast.stopLiveCast
      rw [hcaster]
      rfl
    rw [hkept]
    exact ⟨hs, hcaster⟩
  | true =>
    have hstop := stopLiveCast_eq hs hcaster
    refine ⟨?_, by rw [hstop]⟩
    rw [hstop]
    exact
      { references := rfl
        nodup := List.nodup_nil
        mem_iff := fun p => by
          have hmem := hs.mem_iff p
          by_cases hp : p ∈ s.spectators
          · simp [Spectating, hp]
          · have hnot : ¬s.Spectating p := fun h => hp (hmem.mpr h)
            simpa [Spectating, hp] using hnot
        liveCasts := rfl
        casting := fun _ => rfl
        player := fun h => by cases h
        asked := fun p hp => by
          by_cases hmem : p ∈ s.spectators
          · simp only [hmem, if_true] at hp ⊢
            exact hs.asked p hp
          · simp only [hmem, if_false] at hp ⊢
            exact hs.asked p hp }

theorem startLiveCast (hs : s.Good) (allowed : Bool) : (s.startLiveCast allowed).Good := by
  unfold LiveCast.startLiveCast
  split
  · exact hs
  next hstart =>
    simp only [Bool.or_eq_true, Bool.not_eq_true', not_or, Bool.not_eq_true, Bool.not_eq_false]
      at hstart
    exact
      { hs with
        liveCasts := rfl
        casting := fun h => by cases h
        player := fun _ => hstart.1.1.2 }

theorem disconnect (hs : s.Good) (hp : ¬s.Spectating p) : (s.disconnect p).Good where
  references := hs.references
  nodup := hs.nodup
  mem_iff q := by
    rw [spectating_disconnect]
    refine (hs.mem_iff q).trans (iff_and_self.mpr fun hq => ?_)
    rintro rfl
    exact hp hq
  liveCasts := hs.liveCasts
  casting := hs.casting
  player := hs.player
  asked q hq := by
    by_cases hqp : q = p
    · subst hqp
      simp only [LiveCast.disconnect, viewer_setViewer_self] at hq ⊢
      exact hs.asked q hq
    · rw [viewer_disconnect_of_ne hqp] at hq ⊢
      exact hs.asked q hq

/-- Asking alone changes nothing. -/
theorem ask (hs : s.Good) (p : ℕ) : (s.setViewer p { s.viewer p with asked := true }).Good where
  references := hs.references
  nodup := hs.nodup
  mem_iff q := by
    refine (hs.mem_iff q).trans (Eq.to_iff ?_)
    by_cases hq : q = p
    · subst hq
      simp [Spectating]
    · simp [Spectating, hq]
  liveCasts := hs.liveCasts
  casting := hs.casting
  player := hs.player
  asked q hq := by
    by_cases hqp : q = p
    · subst hqp
      simp
    · rw [viewer_setViewer_of_ne hqp] at hq ⊢
      exact hs.asked q hq

theorem not_spectating_of_not_asked (hs : s.Good) (h : (s.viewer p).asked = false) :
    ¬s.Spectating p := by
  intro hp
  rw [hs.asked p hp.2.2] at h
  cases h

theorem spectate (hs : s.Good) (hasked : (s.viewer p).asked = false) (right : Bool)
    (hconnected : (s.removed || !s.liveCasts || !s.isCaster || !right) = false →
      (s.viewer p).connected = true) : (s.spectate p right).Good := by
  have hnot : ¬s.Spectating p := hs.not_spectating_of_not_asked hasked
  have hask := hs.ask p
  unfold LiveCast.spectate
  by_cases hrefused : (s.removed || !s.liveCasts || !s.isCaster || !right) = true
  · rw [if_pos (by exact hrefused)]
    apply hask.disconnect
    rw [← hask.mem_iff]
    exact fun hmem => hnot ((hs.mem_iff p).mp hmem)
  · rw [if_neg (by exact hrefused)]
    have hopen := hconnected (by simpa using hrefused)
    have hcaster : s.isCaster = true := by
      simp only [Bool.or_eq_true, Bool.not_eq_true', not_or, Bool.not_eq_false] at hrefused
      exact hrefused.1.2
    have hnew : p ∉ s.spectators := fun hmem => hnot ((hs.mem_iff p).mp hmem)
    exact
      { references := by
          have hreferences := hs.references
          simp only [setViewer, List.length_append, List.length_singleton]
          omega
        nodup := List.nodup_append.mpr ⟨hs.nodup, List.nodup_singleton p, by
          intro q hq q' hq'
          rw [List.mem_singleton.mp hq']
          rintro rfl
          exact hnew hq⟩
        mem_iff := fun q => by
          by_cases hqp : q = p
          · subst hqp
            simp [Spectating, setViewer, hopen]
          · have hmem := hs.mem_iff q
            simpa [Spectating, setViewer, hqp] using hmem
        liveCasts := hs.liveCasts
        casting := fun h => by
          rw [show s.isCaster = false from h] at hcaster
          cases hcaster
        player := hs.player
        asked := fun q hq => by
          by_cases hqp : q = p
          · subst hqp
            simp [setViewer]
          · have hkept := hs.asked q
            simp only [setViewer, Function.update_of_ne hqp] at hq ⊢
            exact hkept hq }

theorem spectatelogout (hs : s.Good)
    (hconnected : (s.viewer p).spect = true → (s.viewer p).player = true →
      (s.viewer p).connected = true) : (s.spectatelogout p).Good := by
  unfold LiveCast.spectatelogout releaseSpectator
  by_cases hholds : ((s.viewer p).spect && (s.viewer p).player) = true
  · rw [if_pos hholds]
    simp only [Bool.and_eq_true] at hholds
    have hwatches : s.Spectating p := ⟨hconnected hholds.1 hholds.2, hholds⟩
    have hmem : p ∈ s.spectators := (hs.mem_iff p).mpr hwatches
    have hlength := List.length_erase_of_mem hmem
    have hpos := List.length_pos_of_mem hmem
    have hleft : LiveCast.Good (({ s with
        spectators := s.spectators.erase p
        references := s.references - 1 } : LiveCast).setViewer p
          { s.viewer p with player := false }) :=
      { references := by
          have hreferences := hs.references
          simp only [setViewer]
          omega
        nodup := hs.nodup.erase p
        mem_iff := fun q => by
          by_cases hqp : q = p
          · subst hqp
            simp [Spectating, setViewer, hs.nodup.mem_erase_iff]
          · have hq := hs.mem_iff q
            simpa [Spectating, setViewer, hs.nodup.mem_erase_iff, hqp] using hq
        liveCasts := hs.liveCasts
        casting := fun h => by
          have hnone := hs.casting h
          rw [hnone] at hmem
          cases hmem
        player := hs.player
        asked := fun q hq => by
          by_cases hqp : q = p
          · subst hqp
            simp [setViewer] at hq
          · have hkept := hs.asked q
            simp only [setViewer, Function.update_of_ne hqp] at hq ⊢
            exact hkept hq }
    have hout := hleft.disconnect (p := p) (by simp [Spectating])
    apply hout.disconnect
    rw [spectating_disconnect]
    exact fun h => h.1 rfl
  · rw [if_neg hholds]
    have hnot : ¬s.Spectating p := by
      intro h
      apply hholds
      rw [h.2.1, h.2.2]
      rfl
    apply (hs.disconnect hnot).disconnect
    rw [spectating_disconnect]
    exact fun h => h.1 rfl

theorem releaseCaster (hs : s.Good) (logsOut : Bool) : (s.releaseCaster logsOut).Good := by
  obtain ⟨hstop, hcaster⟩ := hs.stopLiveCast
  have hlost : LiveCast.Good { s.stopLiveCast with connected := false } := { hstop with }
  unfold LiveCast.releaseCaster
  simp only
  split
  · exact
      { hlost with
        player := fun h => by
          rw [show s.stopLiveCast.isCaster = true from h] at hcaster
          cases hcaster }
  · exact hlost

theorem step (hs : s.Good) {task : CastTask} (hkeeps : s.Keeps task) (h : s.step task = some t) :
    t.Good := by
  cases task with
  | startLiveCast allowed =>
    cases h
    exact hs.startLiveCast allowed
  | spectate p right =>
    simp only [LiveCast.step] at h
    split at h
    · cases h
    next hasked =>
      cases h
      exact hs.spectate (by simpa using hasked) right hkeeps
  | spectatelogout p =>
    cases h
    exact hs.spectatelogout hkeeps
  | stopLiveCast =>
    cases h
    exact hs.stopLiveCast.1
  | releaseCaster logsOut =>
    cases h
    exact hs.releaseCaster logsOut
  | releaseSpectator p =>
    cases h
    exact hs.disconnect hkeeps

end Good

/-! ## What loses the balance -/

/-- A reference is given back twice where the cast ended before its spectator logged out. -/
theorem not_balanced_spectatelogout (hs : s.Good) (hspect : (s.viewer p).spect = true)
    (hplayer : (s.viewer p).player = true) (hclosed : (s.viewer p).connected = false) :
    ¬(s.spectatelogout p).Balanced := by
  intro hbalanced
  have hnot : ¬s.Spectating p := fun h => by
    rw [h.1] at hclosed
    cases hclosed
  obtain ⟨watching, hwatching, hreferences⟩ := hbalanced.references
  have hsame : watching = s.spectators.toFinset := by
    ext q
    rw [hwatching, List.mem_toFinset, hs.mem_iff]
    by_cases hq : q = p
    · subst hq
      simp [spectatelogout, releaseSpectator, spectating_disconnect, hnot]
    · unfold spectatelogout releaseSpectator
      rw [spectating_disconnect, spectating_disconnect]
      simp [hspect, hplayer, Spectating, setViewer, hq]
  have hcount : (s.spectatelogout p).references = s.references - 1 := by
    unfold spectatelogout releaseSpectator
    rw [hspect, hplayer]
    rfl
  rw [hcount, hs.references, hsame, List.toFinset_card_of_nodup hs.nodup] at hreferences
  omega

theorem not_balanced_of_not_keeps (hs : s.Good) {task : CastTask} (hkeeps : ¬s.Keeps task)
    (h : s.step task = some t) : ¬t.Balanced := by
  cases task with
  | startLiveCast _ | stopLiveCast | releaseCaster _ => exact absurd trivial hkeeps
  | spectate p right =>
    simp only [Keeps, Classical.not_imp, Bool.not_eq_true] at hkeeps
    obtain ⟨haccepted, hclosed⟩ := hkeeps
    simp only [step] at h
    split at h
    · cases h
    · cases h
      intro hbalanced
      unfold spectate at hbalanced
      rw [if_neg (by
        show ¬(s.removed || !s.liveCasts || !s.isCaster || !right) = true
        rw [haccepted]
        exact Bool.false_ne_true)] at hbalanced
      apply hbalanced.others p
      · simp [Spectating, setViewer, hclosed]
      · exact List.mem_append_right _ (List.mem_singleton_self p)
  | spectatelogout p =>
    simp only [Keeps, Classical.not_imp, Bool.not_eq_true] at hkeeps
    cases h
    exact not_balanced_spectatelogout hs hkeeps.1 hkeeps.2.1 hkeeps.2.2
  | releaseSpectator p =>
    simp only [Keeps, not_not] at hkeeps
    cases h
    intro hbalanced
    apply hbalanced.others p
    · rw [releaseSpectator, spectating_disconnect]
      exact fun h => h.1 rfl
    · exact (hs.mem_iff p).mpr hkeeps

/-- A run keeps the balance exactly as long as nobody who still spectates is released, nobody
whose cast ended logs out, and nobody spectates whose connection is gone. -/
theorem always_balanced_iff (tasks : List CastTask) :
    Run.Always step Balanced {} tasks ↔ Run.EachStep step Keeps {} tasks := by
  have hstart : Good {} :=
    { references := rfl
      nodup := List.nodup_nil
      mem_iff := fun p => by simp [Spectating]
      liveCasts := rfl
      casting := fun _ => rfl
      player := fun _ => rfl
      asked := fun _ h => by cases h }
  exact Run.always_iff_of_breaks (I := Good) (fun _ hs => hs.balanced)
    (fun _ _ _ hs hkeeps ht => hs.step hkeeps ht)
    (fun _ _ _ hs hkeeps ht => not_balanced_of_not_keeps hs hkeeps ht) tasks {} hstart

/-- A spectator's connection is lost. -/
theorem lost_spectator_stays :
    ¬∀ tasks : List CastTask, Run.Always step Balanced {} tasks := by
  intro h
  have hrun := h [.startLiveCast true, .spectate 0 true, .releaseSpectator 0]
  have hlost := ((hrun.2 _ rfl).2 _ rfl).2 _ rfl
  apply hlost.head.others 0
  · unfold Spectating
    decide
  · decide

end LiveCast

end TibiaServer.Protocol
