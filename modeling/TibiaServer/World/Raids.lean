import Mathlib.Data.List.Nodup
import Mathlib.Order.Nat
import TibiaServer.Library.Run
/-!
# Raids

`checkRaids` and scripts start a raid when none is running, and the raid runs from one event
in the scheduler to the next.  A raid that may not be repeated leaves `raidList` as it
starts, so `clear` does not find its event, and a raid without events runs for ever
(`always_exclusive_iff`).
-/

namespace TibiaServer.World

open Library.Run

/-- What `loadFromXml` reads of a raid; of the events only their number matters. -/
structure RaidDefinition where
  raidEvents : ℕ
  interval : ℕ
  margin : ℕ
  canBeRepeated : Bool

structure Raid extends RaidDefinition where
  nextEvent : ℕ := 0
  executing : Bool := false
  nextEventEvent : ℕ := 0

/-- A call of `executeRaidEvent` that is still to come.  `handed` says that the scheduler has
given it to the dispatcher, where `stopEvent` does not reach it. -/
structure PendingRaidEvent where
  eventId : ℕ
  raid : ℕ
  raidEvent : ℕ
  handed : Bool := false
  deriving DecidableEq

/-- A call of `checkRaids` that is still to come. -/
structure PendingCheck where
  eventId : ℕ
  handed : Bool := false
  deriving DecidableEq

/-- `raids` are the objects by their addresses, which are not used again; every raid with an
address below `clearedBelow` had been loaded when `clear` was called.  The delays of the
events are left out: a pending event may come due at any time. -/
structure Raids where
  raids : ℕ → Option Raid := fun _ => none
  nextAddress : ℕ := 0
  raidList : List ℕ := []
  running : Option ℕ := none
  lastRaidEnd : ℕ := 0
  checkRaidsEvent : ℕ := 0
  loaded : Bool := false
  started : Bool := false
  lastEventId : ℕ := 0
  pendingRaidEvents : List PendingRaidEvent := []
  pendingChecks : List PendingCheck := []
  clearedBelow : ℕ := 0

namespace Raids

/-! ## The calls -/

def loadFromXml (s : Raids) (definitions : List RaidDefinition) : Raids :=
  if s.loaded then s
  else { s with
    raids := fun address =>
      if s.nextAddress ≤ address then
        (definitions[address - s.nextAddress]?).map fun definition => { definition with }
      else s.raids address
    nextAddress := s.nextAddress + definitions.length
    raidList := s.raidList ++ List.range' s.nextAddress definitions.length
    loaded := true }

def addCheck (s : Raids) : Raids :=
  { s with
    lastEventId := s.lastEventId + 1
    checkRaidsEvent := s.lastEventId + 1
    pendingChecks := s.pendingChecks ++ [{ eventId := s.lastEventId + 1 }] }

def startup (s : Raids) (now : ℕ) : Raids :=
  if !s.loaded || s.started then s
  else { addCheck { s with lastRaidEnd := now } with started := true }

/-- `raidEvent` is scheduled for the raid. -/
def addRaidEvent (s : Raids) (address : ℕ) (raid : Raid) (raidEvent : ℕ) : Raids :=
  { s with
    lastEventId := s.lastEventId + 1
    raids := Function.update s.raids address
      (some { raid with nextEventEvent := s.lastEventId + 1 })
    pendingRaidEvents := s.pendingRaidEvents ++
      [{ eventId := s.lastEventId + 1, raid := address, raidEvent }] }

def startRaid (s : Raids) (address : ℕ) : Raids :=
  match s.raids address with
  | none => s
  | some raid =>
    if raid.nextEvent < raid.raidEvents then
      s.addRaidEvent address { raid with executing := true } raid.nextEvent
    else s

def resetRaid (s : Raids) (address : ℕ) (raid : Raid) (now : ℕ) : Raids :=
  { s with
    raids := Function.update s.raids address
      (some { raid with nextEvent := 0, executing := false })
    running := none
    lastRaidEnd := now }

/-- `ok` is the result of `executeEvent`. -/
def executeRaidEvent (s : Raids) (address : ℕ) (raid : Raid) (ok : Bool) (now : ℕ) : Raids :=
  if ok then
    let raid := { raid with nextEvent := raid.nextEvent + 1 }
    if raid.nextEvent < raid.raidEvents then s.addRaidEvent address raid raid.nextEvent
    else s.resetRaid address raid now
  else s.resetRaid address raid now

/-- `MAX_RAND_RANGE * CHECK_RAIDS_INTERVAL` -/
def maxChance : ℕ := 10000000 * 60

/-- The raid passes the two tests of the loop; `random` are the numbers that it draws. -/
def isDue (s : Raids) (now : ℕ) (random : ℕ → ℕ) (address : ℕ) : Bool :=
  match s.raids address with
  | none => false
  | some raid => s.lastRaidEnd + raid.margin ≤ now && random address ≤ maxChance / raid.interval

/-- The raid that `checkRaids` starts. -/
def nextRaid (s : Raids) (now : ℕ) (random : ℕ → ℕ) : Option ℕ :=
  if s.running.isSome then none else s.raidList.find? (s.isDue now random)

def canBeRepeated (s : Raids) (address : ℕ) : Bool :=
  match s.raids address with
  | none => false
  | some raid => raid.canBeRepeated

def checkRaids (s : Raids) (now : ℕ) (random : ℕ → ℕ) : Raids :=
  addCheck (match s.nextRaid now random with
    | none => s
    | some address =>
      let s' := { s with running := some address }.startRaid address
      if s.canBeRepeated address then s'
      else { s' with raidList := s'.raidList.erase address })

/-- `Game.startRaid` of scripts, with a raid that `getRaidByName` has found. -/
def luaGameStartRaid (s : Raids) (address : ℕ) : Raids :=
  if s.running.isSome then s else { s with running := some address }.startRaid address

/-- `stopEvents` and the deletion of the raid. -/
def deleteRaid (s : Raids) (address : ℕ) : Raids :=
  match s.raids address with
  | none => s
  | some raid =>
    { s with
      raids := Function.update s.raids address none
      pendingRaidEvents := s.pendingRaidEvents.filter fun event =>
        event.eventId ≠ raid.nextEventEvent ∨ event.handed }

def clear (s : Raids) : Raids :=
  let s := { s with pendingChecks := s.pendingChecks.filter fun event =>
    event.eventId ≠ s.checkRaidsEvent ∨ event.handed }
  let s := s.raidList.foldl deleteRaid s
  { s with
    checkRaidsEvent := 0
    raidList := []
    loaded := false
    started := false
    running := none
    lastRaidEnd := 0
    clearedBelow := s.nextAddress }

/-! ## The system -/

inductive Action
  | loadFromXml (definitions : List RaidDefinition)
  | startup (now : ℕ)
  | luaGameStartRaid (address : ℕ)
  | handOver (eventId : ℕ)
  | checkRaids (event : PendingCheck) (now : ℕ) (random : ℕ → ℕ)
  | executeRaidEvent (event : PendingRaidEvent) (ok : Bool) (now : ℕ)
  | clear

/-- A raid event of a deleted raid has no result. -/
def step (s : Raids) : Action → Option Raids
  | .loadFromXml definitions => some (s.loadFromXml definitions)
  | .startup now => some (s.startup now)
  | .luaGameStartRaid address =>
    if address ∈ s.raidList then some (s.luaGameStartRaid address) else none
  | .handOver eventId =>
    some { s with
      pendingRaidEvents := s.pendingRaidEvents.map fun event =>
        if event.eventId = eventId then { event with handed := true } else event
      pendingChecks := s.pendingChecks.map fun event =>
        if event.eventId = eventId then { event with handed := true } else event }
  | .checkRaids event now random =>
    if event ∈ s.pendingChecks ∧ event.handed then
      some ({ s with pendingChecks := s.pendingChecks.erase event }.checkRaids now random)
    else none
  | .executeRaidEvent event ok now =>
    if event ∈ s.pendingRaidEvents ∧ event.handed then
      match s.raids event.raid with
      | none => none
      | some raid =>
        some ({ s with pendingRaidEvents := s.pendingRaidEvents.erase event }.executeRaidEvent
          event.raid raid ok now)
    else none
  | .clear => some s.clear

/-- A raid is running exactly when there is exactly one pending raid event, and none is of a
raid that was there when `clear` was called. -/
structure Exclusive (s : Raids) : Prop where
  running : s.running.isSome = true ↔ ∃ event, s.pendingRaidEvents = [event]
  cleared : ∀ event ∈ s.pendingRaidEvents, s.clearedBelow ≤ event.raid

/-- A raid that is started has events, and `clear` finds the raid of a pending event in its
list and the event still in the scheduler. -/
def Guarded (s : Raids) : Action → Prop
  | .luaGameStartRaid address => s.running = none →
      ∀ raid, s.raids address = some raid → 0 < raid.raidEvents
  | .checkRaids _ now random => ∀ address, s.nextRaid now random = some address →
      ∀ raid, s.raids address = some raid → 0 < raid.raidEvents
  | .clear => ∀ event ∈ s.pendingRaidEvents, event.raid ∈ s.raidList ∧ event.handed = false
  | _ => True

/-! ## What holds between the steps -/

/-- The raids that are in memory. -/
structure Stored (s : Raids) : Prop where
  ids : ∀ address raid, s.raids address = some raid → raid.nextEventEvent ≤ s.lastEventId
  distinct : ∀ address raid address' raid', s.raids address = some raid →
    s.raids address' = some raid' → raid.nextEventEvent = raid'.nextEventEvent →
      raid.nextEventEvent = 0 ∨ address = address'
  addresses : ∀ address raid, s.raids address = some raid → address < s.nextAddress
  listed : ∀ address ∈ s.raidList, s.clearedBelow ≤ address ∧ (s.raids address).isSome = true
  cleared : s.clearedBelow ≤ s.nextAddress

/-- The running raid has the only pending event, which its `nextEventEvent` names, and every
other raid is at its beginning. -/
structure WellFormed (s : Raids) : Prop where
  stored : s.Stored
  idle : s.running = none → s.pendingRaidEvents = []
  busy : ∀ address, s.running = some address → ∃ event raid,
    s.pendingRaidEvents = [event] ∧ event.raid = address ∧
      s.raids address = some raid ∧ raid.nextEventEvent = event.eventId
  issued : ∀ event ∈ s.pendingRaidEvents, 0 < event.eventId
  reset : ∀ address raid, s.raids address = some raid → s.running ≠ some address →
    raid.nextEvent = 0
  current : ∀ address, s.running = some address → s.clearedBelow ≤ address

theorem wellFormed_init : WellFormed {} := by
  refine ⟨⟨?_, ?_, ?_, ?_, ?_⟩, ?_, ?_, ?_, ?_, ?_⟩ <;> simp

theorem WellFormed.exclusive {s : Raids} (h : s.WellFormed) : s.Exclusive where
  running := by
    cases hrunning : s.running with
    | none => simp [h.idle hrunning]
    | some address =>
      obtain ⟨event, -, heq, -⟩ := h.busy address hrunning
      simp [heq]
  cleared event hmem := by
    cases hrunning : s.running with
    | none =>
      rw [h.idle hrunning] at hmem
      cases hmem
    | some address =>
      obtain ⟨event', -, heq, haddress, -⟩ := h.busy address hrunning
      rw [heq, List.mem_singleton] at hmem
      rw [hmem, haddress]
      exact h.current address hrunning

section Calls

variable {s : Raids}

/-- Of a pending event the raid is running and in memory. -/
theorem WellFormed.of_mem (h : s.WellFormed) {event : PendingRaidEvent}
    (hmem : event ∈ s.pendingRaidEvents) : s.running = some event.raid ∧
      s.pendingRaidEvents = [event] ∧ ∃ raid, s.raids event.raid = some raid ∧
        raid.nextEventEvent = event.eventId := by
  cases hrunning : s.running with
  | none =>
    rw [h.idle hrunning] at hmem
    cases hmem
  | some address =>
    obtain ⟨event', raid, heq, haddress, hraid, hid⟩ := h.busy address hrunning
    have hmem' := hmem
    rw [heq, List.mem_singleton] at hmem'
    subst hmem'
    subst haddress
    exact ⟨rfl, heq, raid, hraid, hid⟩

theorem wellFormed_addCheck (h : s.WellFormed) : s.addCheck.WellFormed :=
  ⟨⟨fun address raid hraid => (h.stored.ids address raid hraid).trans (Nat.le_succ _),
    h.stored.distinct, h.stored.addresses, h.stored.listed, h.stored.cleared⟩,
    h.idle, h.busy, h.issued, h.reset, h.current⟩

theorem wellFormed_loadFromXml (h : s.WellFormed) (definitions : List RaidDefinition) :
    (s.loadFromXml definitions).WellFormed := by
  unfold loadFromXml
  split
  · exact h
  · -- a raid is a new one at its beginning or an old one
    have hraids : ∀ address raid,
        (if s.nextAddress ≤ address then
          (definitions[address - s.nextAddress]?).map fun definition => ({ definition with } : Raid)
        else s.raids address) = some raid →
        (raid.nextEvent = 0 ∧ raid.nextEventEvent = 0 ∧
          address < s.nextAddress + definitions.length) ∨ s.raids address = some raid := by
      intro address raid hraid
      split at hraid
      next hnew =>
        obtain ⟨definition, hdefinition, rfl⟩ := Option.map_eq_some_iff.mp hraid
        obtain ⟨hlt, -⟩ := List.getElem?_eq_some_iff.mp hdefinition
        exact .inl ⟨rfl, rfl, by omega⟩
      next => exact .inr hraid
    have hold : ∀ address raid, s.raids address = some raid →
        (if s.nextAddress ≤ address then
          (definitions[address - s.nextAddress]?).map fun definition => ({ definition with } : Raid)
        else s.raids address) = some raid := by
      intro address raid hraid
      rw [if_neg (Nat.not_le.mpr (h.stored.addresses address raid hraid))]
      exact hraid
    refine ⟨⟨?_, ?_, ?_, ?_, ?_⟩, h.idle, ?_, h.issued, ?_, h.current⟩
    · intro address raid hraid
      rcases hraids address raid hraid with ⟨-, hzero, -⟩ | hraid
      · omega
      · exact h.stored.ids address raid hraid
    · intro address raid address' raid' hraid hraid' heq
      rcases hraids address raid hraid with ⟨-, hzero, -⟩ | hraid
      · exact .inl hzero
      · rcases hraids address' raid' hraid' with ⟨-, hzero, -⟩ | hraid'
        · exact .inl (heq.trans hzero)
        · exact h.stored.distinct address raid address' raid' hraid hraid' heq
    · intro address raid hraid
      rcases hraids address raid hraid with ⟨-, -, hlt⟩ | hraid
      · exact hlt
      · exact (h.stored.addresses address raid hraid).trans_le (Nat.le_add_right _ _)
    · intro address hmem
      rcases List.mem_append.mp hmem with hmem | hmem
      · obtain ⟨hbelow, hsome⟩ := h.stored.listed address hmem
        obtain ⟨raid, hraid⟩ := Option.isSome_iff_exists.mp hsome
        exact ⟨hbelow, Option.isSome_iff_exists.mpr ⟨raid, hold address raid hraid⟩⟩
      · obtain ⟨hge, hlt⟩ := List.mem_range'_1.mp hmem
        refine ⟨h.stored.cleared.trans hge, ?_⟩
        dsimp only
        rw [if_pos hge, List.getElem?_eq_getElem (by omega)]
        rfl
    · exact h.stored.cleared.trans (Nat.le_add_right _ _)
    · intro address hrunning
      obtain ⟨event, raid, heq, haddress, hraid, hid⟩ := h.busy address hrunning
      exact ⟨event, raid, heq, haddress, hold address raid hraid, hid⟩
    · intro address raid hraid hne
      rcases hraids address raid hraid with ⟨hzero, -, -⟩ | hraid
      · exact hzero
      · exact h.reset address raid hraid hne

/-- A raid in memory changes. -/
theorem stored_update (h : s.Stored) {address : ℕ} {raid : Raid} {lastEventId : ℕ}
    (hsome : (s.raids address).isSome = true) (hle : s.lastEventId ≤ lastEventId)
    (hid : raid.nextEventEvent ≤ lastEventId)
    (hnew : ∀ address' raid', address' ≠ address → s.raids address' = some raid' →
      raid'.nextEventEvent = raid.nextEventEvent → raid'.nextEventEvent = 0) {t : Raids}
    (ht : t.raids = Function.update s.raids address (some raid) ∧ t.lastEventId = lastEventId ∧
      t.nextAddress = s.nextAddress ∧ t.raidList = s.raidList ∧
      t.clearedBelow = s.clearedBelow) : t.Stored := by
  obtain ⟨hraids, hlast, hnext, hlist, hcleared⟩ := ht
  obtain ⟨old, hold⟩ := Option.isSome_iff_exists.mp hsome
  have hcases : ∀ address' raid', t.raids address' = some raid' →
      (address' = address ∧ raid' = raid) ∨
        (address' ≠ address ∧ s.raids address' = some raid') := by
    intro address' raid' hraid'
    rw [hraids] at hraid'
    by_cases heq : address' = address
    · subst heq
      rw [Function.update_self] at hraid'
      exact .inl ⟨rfl, (Option.some.inj hraid').symm⟩
    · rw [Function.update_of_ne heq] at hraid'
      exact .inr ⟨heq, hraid'⟩
  refine ⟨?_, ?_, ?_, ?_, ?_⟩
  · intro address' raid' hraid'
    rw [hlast]
    rcases hcases address' raid' hraid' with ⟨-, rfl⟩ | ⟨-, hraid'⟩
    · exact hid
    · exact (h.ids address' raid' hraid').trans hle
  · intro a₁ raid₁ a₂ raid₂ h₁ h₂ heq
    rcases hcases a₁ raid₁ h₁ with ⟨rfl, rfl⟩ | ⟨hne₁, h₁⟩
    · rcases hcases a₂ raid₂ h₂ with ⟨rfl, rfl⟩ | ⟨hne₂, h₂⟩
      · exact .inr rfl
      · exact .inl (heq.trans (hnew a₂ raid₂ hne₂ h₂ heq.symm))
    · rcases hcases a₂ raid₂ h₂ with ⟨rfl, rfl⟩ | ⟨hne₂, h₂⟩
      · exact .inl (hnew a₁ raid₁ hne₁ h₁ heq)
      · exact h.distinct a₁ raid₁ a₂ raid₂ h₁ h₂ heq
  · intro address' raid' hraid'
    rw [hnext]
    rcases hcases address' raid' hraid' with ⟨rfl, -⟩ | ⟨-, hraid'⟩
    · exact h.addresses _ old hold
    · exact h.addresses address' raid' hraid'
  · intro address' hmem
    rw [hlist] at hmem
    obtain ⟨hbelow, hsome'⟩ := h.listed address' hmem
    rw [hcleared, hraids]
    refine ⟨hbelow, ?_⟩
    by_cases heq : address' = address
    · subst heq
      rw [Function.update_self]
      rfl
    · rw [Function.update_of_ne heq]
      exact hsome'
  · rw [hcleared, hnext]
    exact h.cleared

/-- The running raid, which has no pending event, gets one. -/
theorem wellFormed_addRaidEvent (h : s.Stored) {address : ℕ} (raid : Raid) (raidEvent : ℕ)
    (hrunning : s.running = some address) (hempty : s.pendingRaidEvents = [])
    (hsome : (s.raids address).isSome = true) (hcurrent : s.clearedBelow ≤ address)
    (hreset : ∀ address' raid', s.raids address' = some raid' → address' ≠ address →
      raid'.nextEvent = 0) :
    (s.addRaidEvent address raid raidEvent).WellFormed := by
  have hstored : (s.addRaidEvent address raid raidEvent).Stored := by
    refine @stored_update s h address { raid with nextEventEvent := s.lastEventId + 1 } _ hsome
      (Nat.le_succ _) (Nat.le_refl _) (fun address' raid' _ hraid' heq => ?_) _
      ⟨rfl, rfl, rfl, rfl, rfl⟩
    have hle := h.ids address' raid' hraid'
    rw [heq] at hle
    exact absurd hle (Nat.not_succ_le_self _)
  refine ⟨hstored, ?_, ?_, ?_, ?_, ?_⟩
  · intro hnone
    rw [show (s.addRaidEvent address raid raidEvent).running = s.running from rfl, hrunning] at hnone
    cases hnone
  · intro address' hrunning'
    obtain rfl : address = address' := Option.some.inj (hrunning.symm.trans hrunning')
    refine ⟨⟨s.lastEventId + 1, address, raidEvent, false⟩,
      { raid with nextEventEvent := s.lastEventId + 1 }, ?_, rfl, ?_, rfl⟩
    · simp only [addRaidEvent, hempty, List.nil_append]
    · exact Function.update_self _ _ _
  · intro event hmem
    simp only [addRaidEvent, hempty, List.nil_append, List.mem_singleton] at hmem
    rw [hmem]
    exact Nat.succ_pos _
  · intro address' raid' hraid' hne
    have hne' : address' ≠ address := by
      intro heq
      refine hne ?_
      rw [heq]
      exact hrunning
    simp only [addRaidEvent, Function.update_of_ne hne'] at hraid'
    exact hreset address' raid' hraid' hne'
  · intro address' hrunning'
    obtain rfl : address = address' := Option.some.inj (hrunning.symm.trans hrunning')
    exact hcurrent

/-- A raid with events starts. -/
theorem wellFormed_startRaid (h : s.WellFormed) (hidle : s.running = none) {address : ℕ}
    (hcurrent : s.clearedBelow ≤ address) {raid : Raid} (hraid : s.raids address = some raid)
    (hevents : 0 < raid.raidEvents) :
    ({ s with running := some address }.startRaid address).WellFormed := by
  have hbegin : raid.nextEvent = 0 := h.reset address raid hraid (by rw [hidle]; simp)
  unfold startRaid
  dsimp only
  rw [hraid]
  dsimp only
  rw [if_pos (by omega)]
  refine wellFormed_addRaidEvent (s := { s with running := some address })
    ⟨h.stored.ids, h.stored.distinct, h.stored.addresses, h.stored.listed, h.stored.cleared⟩ _ _
    rfl (h.idle hidle) (Option.isSome_iff_exists.mpr ⟨raid, hraid⟩) hcurrent ?_
  intro address' raid' hraid' _
  exact h.reset address' raid' hraid' (by rw [hidle]; simp)

/-- A raid without events starts and waits for none. -/
theorem startRaid_empty {address : ℕ} {raid : Raid} (hraid : s.raids address = some raid)
    (hevents : raid.raidEvents = 0) :
    { s with running := some address }.startRaid address = { s with running := some address } := by
  unfold startRaid
  dsimp only
  rw [hraid]
  dsimp only
  rw [if_neg (by omega)]

/-- The only event is executed. -/
theorem wellFormed_executeRaidEvent (h : s.WellFormed) {event : PendingRaidEvent}
    (hmem : event ∈ s.pendingRaidEvents) {raid : Raid} (hraid : s.raids event.raid = some raid)
    (ok : Bool) (now : ℕ) :
    ({ s with pendingRaidEvents := s.pendingRaidEvents.erase event }.executeRaidEvent event.raid
      raid ok now).WellFormed := by
  obtain ⟨hrunning, heq, -⟩ := h.of_mem hmem
  have hempty : s.pendingRaidEvents.erase event = [] := by
    rw [heq]
    simp
  have hcurrent := h.current event.raid hrunning
  have hsome : (s.raids event.raid).isSome = true := Option.isSome_iff_exists.mpr ⟨raid, hraid⟩
  have hreset : ∀ address' raid', s.raids address' = some raid' → address' ≠ event.raid →
      raid'.nextEvent = 0 := by
    intro address' raid' hraid' hne
    refine h.reset address' raid' hraid' fun heq => hne ?_
    exact (Option.some.inj (hrunning.symm.trans heq)).symm
  have hend : ∀ raid' : Raid, raid'.nextEventEvent = raid.nextEventEvent →
      ({ s with pendingRaidEvents := s.pendingRaidEvents.erase event }.resetRaid event.raid raid'
        now).WellFormed := by
    intro raid' hid
    refine ⟨?_, fun _ => hempty, fun _ hnone => (nomatch hnone), ?_, ?_, fun _ hnone => (nomatch hnone)⟩
    · refine @stored_update s h.stored _ { raid' with nextEvent := 0, executing := false } _ hsome
        (Nat.le_refl _) ?_ ?_ _ ⟨rfl, rfl, rfl, rfl, rfl⟩
      · exact hid.le.trans (h.stored.ids _ raid hraid)
      · intro address' raid'' hne hraid'' heq'
        exact (h.stored.distinct address' raid'' _ raid hraid'' hraid
          (heq'.trans hid)).resolve_right hne
    · intro event' hmem'
      rw [show _ = _ from hempty] at hmem'
      cases hmem'
    · intro address' raid'' hraid'' _
      by_cases hne : address' = event.raid
      · subst hne
        simp only [resetRaid, Function.update_self, Option.some.injEq] at hraid''
        rw [← hraid'']
      · simp only [resetRaid, Function.update_of_ne hne] at hraid''
        exact hreset address' raid'' hraid'' hne
  unfold executeRaidEvent
  cases ok with
  | false => exact hend raid rfl
  | true =>
    simp only [if_true]
    split
    · refine wellFormed_addRaidEvent (s := { s with
        pendingRaidEvents := s.pendingRaidEvents.erase event })
        ⟨h.stored.ids, h.stored.distinct, h.stored.addresses, h.stored.listed,
          h.stored.cleared⟩ _ _ hrunning hempty hsome hcurrent hreset
    · exact hend { raid with nextEvent := raid.nextEvent + 1 } rfl

/-! ## The end of all raids -/

@[simp] theorem deleteRaid_fields (s : Raids) (address : ℕ) :
    (s.deleteRaid address).nextAddress = s.nextAddress ∧
      (s.deleteRaid address).lastEventId = s.lastEventId ∧
      (s.deleteRaid address).clearedBelow = s.clearedBelow := by
  unfold deleteRaid
  split <;> exact ⟨rfl, rfl, rfl⟩

theorem raids_deleteRaid (s : Raids) (address : ℕ) :
    (s.deleteRaid address).raids = Function.update s.raids address none := by
  unfold deleteRaid
  split
  next hnone =>
    funext a
    by_cases heq : a = address
    · rw [heq, Function.update_self, hnone]
    · rw [Function.update_of_ne heq]
  next => rfl

/-- The event is one that `deleteRaid` stops. -/
def Stops (s : Raids) (address : ℕ) (event : PendingRaidEvent) : Prop :=
  event.handed = false ∧ ∃ raid, s.raids address = some raid ∧ event.eventId = raid.nextEventEvent

theorem pending_deleteRaid (s : Raids) (address : ℕ) :
    (s.deleteRaid address).pendingRaidEvents.Sublist s.pendingRaidEvents ∧
      ∀ event, event ∈ (s.deleteRaid address).pendingRaidEvents ↔
        event ∈ s.pendingRaidEvents ∧ ¬s.Stops address event := by
  unfold deleteRaid Stops
  split
  next hnone => simp [hnone]
  next raid hraid =>
    refine ⟨List.filter_sublist, fun event => ?_⟩
    dsimp only
    rw [List.mem_filter]
    refine and_congr_right fun _ => ?_
    rw [hraid]
    cases event.handed <;> simp

/-- The loop of `clear`. -/
theorem foldl_deleteRaid (addresses : List ℕ) : ∀ s : Raids,
    (addresses.foldl deleteRaid s).nextAddress = s.nextAddress ∧
    (addresses.foldl deleteRaid s).lastEventId = s.lastEventId ∧
    (∀ address, (addresses.foldl deleteRaid s).raids address =
      if address ∈ addresses then none else s.raids address) ∧
    (addresses.foldl deleteRaid s).pendingRaidEvents.Sublist s.pendingRaidEvents ∧
    ∀ event, event ∈ (addresses.foldl deleteRaid s).pendingRaidEvents ↔
      event ∈ s.pendingRaidEvents ∧ ∀ address ∈ addresses, ¬s.Stops address event := by
  induction addresses with
  | nil => exact fun s => ⟨rfl, rfl, by simp, List.Sublist.refl _, by simp⟩
  | cons head rest ih =>
    intro s
    obtain ⟨hnext, hlast, hraids, hsub, hmem⟩ := ih (s.deleteRaid head)
    obtain ⟨hnext', hlast', -⟩ := deleteRaid_fields s head
    obtain ⟨hsub', hmem'⟩ := pending_deleteRaid s head
    rw [List.foldl_cons]
    refine ⟨hnext.trans hnext', hlast.trans hlast', fun address => ?_, hsub.trans hsub',
      fun event => ?_⟩
    · rw [hraids, raids_deleteRaid]
      by_cases heq : address = head
      · simp [heq]
      · simp [heq]
    · rw [hmem, hmem', List.forall_mem_cons, and_assoc]
      refine and_congr_right fun _ => and_congr_right fun hhead => ?_
      refine forall₂_congr fun address _ => not_congr ?_
      -- the head is not stopped, and what is deleted stops nothing
      unfold Stops
      rw [raids_deleteRaid]
      by_cases heq : address = head
      · subst heq
        refine iff_of_false ?_ hhead
        rintro ⟨-, raid, hraid, -⟩
        rw [Function.update_self] at hraid
        cases hraid
      · rw [Function.update_of_ne heq]

theorem wellFormed_clear (h : s.WellFormed)
    (hguard : ∀ event ∈ s.pendingRaidEvents, event.raid ∈ s.raidList ∧ event.handed = false) :
    s.clear.WellFormed := by
  obtain ⟨hnext, hlast, hraids, -, hmem⟩ := foldl_deleteRaid s.raidList
    { s with pendingChecks := s.pendingChecks.filter fun event =>
      event.eventId ≠ s.checkRaidsEvent ∨ event.handed }
  have hleft : ∀ address raid, s.clear.raids address = some raid →
      address ∉ s.raidList ∧ s.raids address = some raid := by
    intro address raid hraid
    have heq : s.clear.raids address = if address ∈ s.raidList then none else s.raids address :=
      hraids address
    rw [hraid] at heq
    split at heq
    · cases heq
    next hnot => exact ⟨hnot, heq.symm⟩
  have hempty : s.clear.pendingRaidEvents = [] := by
    refine List.eq_nil_iff_forall_not_mem.mpr fun event hevent => ?_
    obtain ⟨hpending, hnot⟩ := (hmem event).mp hevent
    obtain ⟨hlisted, hhanded⟩ := hguard event hpending
    obtain ⟨-, -, raid, hraid, hid⟩ := h.of_mem hpending
    exact hnot event.raid hlisted ⟨hhanded, raid, hraid, hid.symm⟩
  have hnext' : s.clear.nextAddress = s.nextAddress := hnext
  have hlast' : s.clear.lastEventId = s.lastEventId := hlast
  refine ⟨⟨?_, ?_, ?_, ?_, ?_⟩, fun _ => hempty, fun _ hrunning => (nomatch hrunning), ?_, ?_,
    fun _ hrunning => (nomatch hrunning)⟩
  · intro address raid hraid
    rw [hlast']
    exact h.stored.ids address raid (hleft address raid hraid).2
  · intro address raid address' raid' hraid hraid'
    exact h.stored.distinct address raid address' raid' (hleft address raid hraid).2
      (hleft address' raid' hraid').2
  · intro address raid hraid
    rw [hnext']
    exact h.stored.addresses address raid (hleft address raid hraid).2
  · exact fun address hmem => (nomatch hmem)
  · exact Nat.le_refl _
  · intro event hevent
    rw [hempty] at hevent
    cases hevent
  · intro address raid hraid _
    obtain ⟨hnot, hraid⟩ := hleft address raid hraid
    refine h.reset address raid hraid fun hrunning => hnot ?_
    obtain ⟨event, -, heq, haddress, -⟩ := h.busy address hrunning
    have hlisted := (hguard event (by rw [heq]; exact List.mem_cons_self)).1
    exact haddress ▸ hlisted

/-- The event that `clear` does not stop is there without a running raid. -/
theorem not_exclusive_clear (h : s.WellFormed)
    (hguard : ¬∀ event ∈ s.pendingRaidEvents, event.raid ∈ s.raidList ∧ event.handed = false) :
    ¬s.clear.Exclusive := by
  simp only [not_forall] at hguard
  obtain ⟨event, hpending, hevent⟩ := hguard
  obtain ⟨hrunning, hall, raid, hraid, hid⟩ := h.of_mem hpending
  obtain ⟨-, -, -, hsub, hmem⟩ := foldl_deleteRaid s.raidList
    { s with pendingChecks := s.pendingChecks.filter fun event =>
      event.eventId ≠ s.checkRaidsEvent ∨ event.handed }
  have hstays : event ∈ s.clear.pendingRaidEvents := by
    refine (hmem event).mpr ⟨hpending, fun address haddress hstops => hevent ?_⟩
    obtain ⟨hhanded, raid', hraid', hid'⟩ := hstops
    rcases h.stored.distinct address raid' event.raid raid hraid' hraid
      (hid'.symm.trans hid.symm) with hzero | heq
    · have hpos := h.issued event hpending
      omega
    · exact ⟨heq ▸ haddress, hhanded⟩
  have hone : s.clear.pendingRaidEvents = [event] := by
    have hsub' : s.clear.pendingRaidEvents.Sublist [event] := hall ▸ hsub
    rcases List.sublist_singleton.mp hsub' with hnil | hone
    · rw [hnil] at hstays
      cases hstays
    · exact hone
  intro hexclusive
  exact absurd (hexclusive.running.mpr ⟨event, hone⟩) (by simp [clear])

end Calls

/-! ## Every run -/

theorem nextRaid_spec {s : Raids} {now : ℕ} {random : ℕ → ℕ} {address : ℕ}
    (h : s.nextRaid now random = some address) : s.running = none ∧ address ∈ s.raidList := by
  unfold nextRaid at h
  split at h
  · cases h
  next hrunning =>
    exact ⟨Option.not_isSome_iff_eq_none.mp hrunning, List.mem_of_find?_eq_some h⟩

theorem wellFormed_step (s : Raids) (a : Action) (t : Raids) (h : s.WellFormed)
    (hguard : s.Guarded a) (hstep : s.step a = some t) : t.WellFormed := by
  cases a with
  | loadFromXml definitions =>
    obtain rfl := Option.some.inj hstep
    exact wellFormed_loadFromXml h definitions
  | startup now =>
    obtain rfl := Option.some.inj hstep
    unfold startup
    split
    · exact h
    · have hcheck := wellFormed_addCheck (s := { s with lastRaidEnd := now })
        ⟨⟨h.stored.ids, h.stored.distinct, h.stored.addresses, h.stored.listed,
          h.stored.cleared⟩, h.idle, h.busy, h.issued, h.reset, h.current⟩
      exact ⟨⟨hcheck.stored.ids, hcheck.stored.distinct, hcheck.stored.addresses,
        hcheck.stored.listed, hcheck.stored.cleared⟩, hcheck.idle, hcheck.busy, hcheck.issued,
        hcheck.reset, hcheck.current⟩
  | luaGameStartRaid address =>
    simp only [step] at hstep
    split at hstep
    next hlisted =>
      obtain rfl := Option.some.inj hstep
      obtain ⟨hbelow, hsome⟩ := h.stored.listed address hlisted
      obtain ⟨raid, hraid⟩ := Option.isSome_iff_exists.mp hsome
      unfold luaGameStartRaid
      split
      · exact h
      next hrunning =>
        have hidle := Option.not_isSome_iff_eq_none.mp hrunning
        exact wellFormed_startRaid h hidle hbelow hraid (hguard hidle raid hraid)
    next => cases hstep
  | handOver eventId =>
    obtain rfl := Option.some.inj hstep
    refine ⟨⟨h.stored.ids, h.stored.distinct, h.stored.addresses, h.stored.listed,
      h.stored.cleared⟩, fun hidle => ?_, fun address hrunning => ?_, fun event hmem => ?_,
      h.reset, h.current⟩
    · dsimp only
      rw [h.idle hidle]
      rfl
    · obtain ⟨event, raid, heq, haddress, hraid, hid⟩ := h.busy address hrunning
      refine ⟨if event.eventId = eventId then { event with handed := true } else event, raid,
        ?_, ?_, hraid, ?_⟩
      · dsimp only
        rw [heq]
        rfl
      · split <;> exact haddress
      · split <;> exact hid
    · obtain ⟨event', hmem', rfl⟩ := List.mem_map.mp hmem
      split <;> exact h.issued event' hmem'
  | checkRaids event now random =>
    simp only [step] at hstep
    split at hstep
    next =>
      obtain rfl := Option.some.inj hstep
      have h' : ({ s with pendingChecks := s.pendingChecks.erase event } : Raids).WellFormed :=
        ⟨⟨h.stored.ids, h.stored.distinct, h.stored.addresses, h.stored.listed,
          h.stored.cleared⟩, h.idle, h.busy, h.issued, h.reset, h.current⟩
      unfold checkRaids
      refine wellFormed_addCheck ?_
      split
      · exact h'
      next address hnext =>
        obtain ⟨hidle, hlisted⟩ := nextRaid_spec hnext
        obtain ⟨hbelow, hsome⟩ := h'.stored.listed address hlisted
        obtain ⟨raid, hraid⟩ := Option.isSome_iff_exists.mp hsome
        have hstarted := wellFormed_startRaid h' hidle hbelow hraid
          (hguard address hnext raid hraid)
        dsimp only
        split
        · exact hstarted
        · exact ⟨⟨hstarted.stored.ids, hstarted.stored.distinct, hstarted.stored.addresses,
            fun address' hmem => hstarted.stored.listed address' (List.mem_of_mem_erase hmem),
            hstarted.stored.cleared⟩, hstarted.idle, hstarted.busy, hstarted.issued,
            hstarted.reset, hstarted.current⟩
    next => cases hstep
  | executeRaidEvent event ok now =>
    simp only [step] at hstep
    split at hstep
    next hevent =>
      split at hstep
      next => cases hstep
      next raid hraid =>
        obtain rfl := Option.some.inj hstep
        exact wellFormed_executeRaidEvent h hevent.1 hraid ok now
    next => cases hstep
  | clear =>
    obtain rfl := Option.some.inj hstep
    exact wellFormed_clear h hguard

/-- A raid without events runs without a pending one. -/
theorem not_exclusive_empty {s : Raids} (h : s.WellFormed) (hidle : s.running = none)
    (address : ℕ) {t : Raids} (ht : t.running = some address ∧
      t.pendingRaidEvents = s.pendingRaidEvents) : ¬t.Exclusive := by
  intro hexclusive
  obtain ⟨event, heq⟩ := hexclusive.running.mp (by rw [ht.1]; rfl)
  rw [ht.2, h.idle hidle] at heq
  cases heq

theorem not_exclusive_step (s : Raids) (a : Action) (t : Raids) (h : s.WellFormed)
    (hguard : ¬s.Guarded a) (hstep : s.step a = some t) : ¬t.Exclusive := by
  cases a with
  | luaGameStartRaid address =>
    simp only [Guarded, Classical.not_imp, not_forall, Nat.not_lt, Nat.le_zero] at hguard
    obtain ⟨hidle, raid, hraid, hevents⟩ := hguard
    simp only [step] at hstep
    split at hstep
    next =>
      obtain rfl := Option.some.inj hstep
      refine not_exclusive_empty h hidle address ?_
      unfold luaGameStartRaid
      rw [if_neg (by simp [hidle]), startRaid_empty hraid hevents]
      exact ⟨rfl, rfl⟩
    next => cases hstep
  | checkRaids event now random =>
    simp only [Guarded, Classical.not_imp, not_forall, Nat.not_lt, Nat.le_zero] at hguard
    obtain ⟨address, hnext, raid, hraid, hevents⟩ := hguard
    obtain ⟨hidle, -⟩ := nextRaid_spec hnext
    simp only [step] at hstep
    split at hstep
    next =>
      obtain rfl := Option.some.inj hstep
      refine not_exclusive_empty h hidle address ?_
      have hnext' : ({ s with pendingChecks := s.pendingChecks.erase event } : Raids).nextRaid now
          random = some address := hnext
      have hempty := startRaid_empty
        (s := { s with pendingChecks := s.pendingChecks.erase event }) hraid hevents
      unfold checkRaids
      rw [hnext']
      dsimp only
      rw [hempty]
      split <;> exact ⟨rfl, rfl⟩
    next => cases hstep
  | clear =>
    obtain rfl := Option.some.inj hstep
    exact not_exclusive_clear h hguard
  | _ => exact absurd trivial hguard

/-- In every run at most one raid is under way, with one pending event, exactly when every raid
that starts has events and `clear` finds the raid of the pending event in its list and the
event in the scheduler. -/
theorem always_exclusive_iff (as : List Action) :
    Always step Exclusive {} as ↔ EachStep step Guarded {} as :=
  always_iff_of_breaks (fun _ => WellFormed.exclusive) wellFormed_step not_exclusive_step as {}
    wellFormed_init

/-- A raid that may not be repeated is running when `clear` is called. -/
theorem cleared_raid_goes_on : ¬∀ as : List Action, Always step Exclusive {} as := by
  intro h
  have hend := (h [.loadFromXml [⟨2, 60, 0, false⟩], .startup 0, .handOver 1,
    .checkRaids ⟨1, true⟩ 60000 fun _ => 0, .clear]).last (u := _) rfl
  have hrunning := hend.running.mpr ⟨⟨2, 0, 0, false⟩, by decide⟩
  exact absurd hrunning (by decide)

end Raids

end TibiaServer.World
