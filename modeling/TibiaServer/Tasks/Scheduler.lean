import Mathlib.Data.Finset.Erase
import Mathlib.Data.Finset.Insert
import TibiaServer.Database.DatabaseTasks
/-!
# The scheduler

Tasks wait in `eventList`, a heap whose top is a task with the earliest cycle, and the ids
of those that have not been stopped are in `eventIds`.  The scheduler thread waits until the
cycle of the top, or for a notification when the heap is empty, and pops the top when a wait
has timed out.  A region under `eventLock` is one step, and so is each statement outside; a
wait gives the lock back, may end with a notification at any time and with a timeout when
its time has come, and any amount of time may pass at any moment.

Once `shutdown` has emptied the heap a timed wait that still reports a timeout makes the
thread read the top of the empty heap, and nothing else goes wrong (`always_sound_iff`).
-/

namespace TibiaServer.Tasks

open Database (ThreadState)
open Library.Run

/-- `ptr` is the address of the task. -/
structure SchedulerTask where
  ptr : ℕ
  cycle : ℕ
  eventId : BitVec 32
  deriving DecidableEq

/-- Where the thread stands in `threadMain`. -/
inductive ThreadPc
  | checking
  | locking
  | waiting
  | waitingUntil (cycle : ℕ)
  | deleting (task : SchedulerTask)
  /-- `accepted` is the number of tasks that had been added when the task was popped. -/
  | handing (task : SchedulerTask) (accepted : ℕ)
  | stopped
  /-- The thread has read the top of an empty heap. -/
  | undefined
  deriving DecidableEq

/-- A task given to the dispatcher. -/
structure Handover where
  task : SchedulerTask
  accepted : ℕ
  time : ℕ
  deriving DecidableEq

/-- The order of `eventList` is of no account.  `created` is the number of tasks that
`addEvent` has been called with, `accepted` logs those that were put into the heap,
`stoppedIds` the ids for which `stopEvent` returned true, `dispatched` the tasks given to
the dispatcher and `deleted` the addresses that were deleted. -/
structure Scheduler where
  threadState : ThreadState := .running
  lastEventId : BitVec 32 := 0
  eventList : List SchedulerTask := []
  eventIds : Finset (BitVec 32) := ∅
  thread : ThreadPc := .checking
  now : ℕ := 0
  /-- `shutdown` has set the state and not yet taken the lock. -/
  shuttingDown : Bool := false
  /-- `shutdown` has emptied the heap. -/
  cleared : Bool := false
  created : ℕ := 0
  accepted : List SchedulerTask := []
  stoppedIds : List (BitVec 32) := []
  dispatched : List Handover := []
  deleted : List ℕ := []

namespace Scheduler

inductive Action
  | addEvent (cycle : ℕ)
  | stopEvent (eventid : BitVec 32)
  | stop
  | shutdownState
  | shutdownClear
  | pass (time : ℕ)
  | check
  | lock
  | notified
  | timeout (top : SchedulerTask)
  | deleteTask
  | addTask

/-! ## The callers -/

def nextEventId (lastEventId : BitVec 32) : BitVec 32 :=
  if lastEventId + 1 = 0 then 1 else lastEventId + 1

/-- The task comes from `createSchedulerTask`, so it has no id yet.  A signal to the thread
is one of the notifications that it may get at any time. -/
def addEvent (s : Scheduler) (cycle : ℕ) : BitVec 32 × Scheduler :=
  if s.threadState = .running then
    let eventId := nextEventId s.lastEventId
    let task : SchedulerTask := ⟨s.created, cycle, eventId⟩
    (eventId,
      { s with
        lastEventId := eventId
        eventIds := insert eventId s.eventIds
        eventList := task :: s.eventList
        created := s.created + 1
        accepted := s.accepted ++ [task] })
  else (0, { s with created := s.created + 1, deleted := s.created :: s.deleted })

def stopEvent (s : Scheduler) (eventid : BitVec 32) : Bool × Scheduler :=
  if eventid = 0 then (false, s)
  else if eventid ∈ s.eventIds then
    (true,
      { s with
        eventIds := s.eventIds.erase eventid
        stoppedIds := eventid :: s.stoppedIds })
  else (false, s)

/-- The locked region of `shutdown`. -/
def clear (s : Scheduler) : Scheduler :=
  { s with
    deleted := s.eventList.map SchedulerTask.ptr ++ s.deleted
    eventList := []
    eventIds := ∅
    shuttingDown := false
    cleared := true }

/-! ## The thread -/

/-- From the lock to the wait, which gives the lock back. -/
def arm (s : Scheduler) (top : Option SchedulerTask) : Scheduler :=
  match top with
  | none => { s with thread := .waiting }
  | some task => { s with thread := .waitingUntil task.cycle }

/-- The earliest cycle in the heap, as its top has it. -/
def earliest : List SchedulerTask → Option SchedulerTask
  | [] => none
  | task :: rest =>
    match earliest rest with
    | none => some task
    | some other => if task.cycle ≤ other.cycle then some task else some other

def isTop (s : Scheduler) (top : SchedulerTask) : Prop :=
  top ∈ s.eventList ∧ ∀ task ∈ s.eventList, top.cycle ≤ task.cycle

instance (s : Scheduler) (top : SchedulerTask) : Decidable (s.isTop top) :=
  inferInstanceAs (Decidable (_ ∧ _))

/-- The region after a timeout: pop the top and look for its id. -/
def popTop (s : Scheduler) (top : SchedulerTask) : Scheduler :=
  let s := { s with eventList := s.eventList.erase top }
  if top.eventId ∈ s.eventIds then
    { s with
      eventIds := s.eventIds.erase top.eventId
      thread := .handing top s.accepted.length }
  else { s with thread := .deleting top }

/-- Of several tasks with the earliest cycle any can be the top. -/
def afterTimeout (s : Scheduler) (top : SchedulerTask) : Option Scheduler :=
  if s.eventList = [] then some { s with thread := .undefined }
  else if s.isTop top then some (s.popTop top)
  else none

def step (s : Scheduler) : Action → Option Scheduler
  | .addEvent cycle => some (s.addEvent cycle).2
  | .stopEvent eventid => some (s.stopEvent eventid).2
  | .stop => some { s with threadState := .closing }
  | .shutdownState => some { s with threadState := .terminated, shuttingDown := true }
  | .shutdownClear => if s.shuttingDown then some s.clear else none
  | .pass time => some { s with now := s.now + time }
  | .check =>
    if s.thread = .checking then
      some { s with thread := if s.threadState = .terminated then .stopped else .locking }
    else none
  | .lock => if s.thread = .locking then some (s.arm (earliest s.eventList)) else none
  | .notified =>
    match s.thread with
    | .waiting => some { s with thread := .checking }
    | .waitingUntil _ => some { s with thread := .checking }
    | _ => none
  | .timeout top =>
    match s.thread with
    | .waitingUntil cycle => if cycle ≤ s.now then s.afterTimeout top else none
    | _ => none
  | .deleteTask =>
    match s.thread with
    | .deleting task => some { s with deleted := task.ptr :: s.deleted, thread := .checking }
    | _ => none
  | .addTask =>
    match s.thread with
    | .handing task accepted =>
      some { s with
        dispatched := s.dispatched ++ [⟨task, accepted, s.now⟩]
        thread := .checking }
    | _ => none

/-! ## What a step does -/

theorem earliest_spec (tasks : List SchedulerTask) :
    match earliest tasks with
    | none => tasks = []
    | some top => top ∈ tasks ∧ ∀ task ∈ tasks, top.cycle ≤ task.cycle := by
  induction tasks with
  | nil => rfl
  | cons task rest ih =>
    rw [earliest]
    cases hrest : earliest rest with
    | none =>
      rw [hrest] at ih
      simp [ih]
    | some other =>
      rw [hrest] at ih
      obtain ⟨hmem, hle⟩ := ih
      by_cases h : task.cycle ≤ other.cycle
      · simp only [h, if_true]
        refine ⟨List.mem_cons_self, fun t ht => ?_⟩
        rcases List.mem_cons.mp ht with rfl | ht
        · exact Nat.le_refl _
        · exact h.trans (hle t ht)
      · simp only [h, if_false]
        refine ⟨List.mem_cons_of_mem _ hmem, fun t ht => ?_⟩
        rcases List.mem_cons.mp ht with rfl | ht
        · omega
        · exact hle t ht

/-- The tasks that the thread has in its hands. -/
def held (s : Scheduler) : List SchedulerTask :=
  match s.thread with
  | .deleting task => [task]
  | .handing task _ => [task]
  | _ => []

/-- Every address of a task, with the place where it is. -/
def addresses (s : Scheduler) : List ℕ :=
  s.eventList.map SchedulerTask.ptr ++ (s.held.map SchedulerTask.ptr ++
    (s.dispatched.map (fun handover => handover.task.ptr) ++ s.deleted))

/-- The thread has not read the top of an empty heap, and no task has been deleted twice or
both deleted and given away. -/
structure Sound (s : Scheduler) : Prop where
  thread : s.thread ≠ .undefined
  deletedOnce : s.deleted.Nodup
  dispatched : ∀ handover ∈ s.dispatched, handover.task.ptr ∉ s.deleted

/-- Each task is in one place, and a thread that waits for a time has a task to wait for
unless `shutdown` has taken them all. -/
structure WellFormed (s : Scheduler) : Prop where
  distinct : s.addresses.Nodup
  bound : ∀ ptr ∈ s.addresses, ptr < s.created
  armed : ∀ cycle, s.thread = .waitingUntil cycle → s.eventList ≠ [] ∨ s.cleared = true
  cleared : s.cleared = true → s.eventList = []
  down : s.shuttingDown = true ∨ s.cleared = true → s.threadState ≠ .running
  thread : s.thread ≠ .undefined

theorem wellFormed_init : WellFormed {} := by
  constructor <;> simp [addresses, held]

theorem WellFormed.sound {s : Scheduler} (h : s.WellFormed) : s.Sound where
  thread := h.thread
  deletedOnce := (List.nodup_append.mp (List.nodup_append.mp (List.nodup_append.mp
    h.distinct).2.1).2.1).2.1
  dispatched _ hmem hdeleted :=
    (List.nodup_append.mp (List.nodup_append.mp (List.nodup_append.mp
      h.distinct).2.1).2.1).2.2 _ (List.mem_map_of_mem hmem) _ hdeleted rfl

section Places

variable {s t : Scheduler}

/-- The tasks change their places. -/
theorem distinct_of_perm (h : s.WellFormed) (hperm : t.addresses.Perm s.addresses)
    (hcreated : t.created = s.created) :
    t.addresses.Nodup ∧ ∀ ptr ∈ t.addresses, ptr < t.created :=
  ⟨hperm.nodup_iff.mpr h.distinct, fun ptr hptr => hcreated ▸ h.bound ptr (hperm.mem_iff.mp hptr)⟩

/-- There is one more task. -/
theorem distinct_of_new (h : s.WellFormed) (hperm : t.addresses.Perm (s.created :: s.addresses))
    (hcreated : t.created = s.created + 1) :
    t.addresses.Nodup ∧ ∀ ptr ∈ t.addresses, ptr < t.created := by
  have hnew : s.created ∉ s.addresses := fun hmem => absurd (h.bound _ hmem) (Nat.lt_irrefl _)
  refine ⟨hperm.nodup_iff.mpr (List.nodup_cons.mpr ⟨hnew, h.distinct⟩), fun ptr hptr => ?_⟩
  rw [hcreated]
  rcases List.mem_cons.mp (hperm.mem_iff.mp hptr) with rfl | hmem
  · exact Nat.lt_succ_self _
  · exact Nat.lt_succ_of_lt (h.bound ptr hmem)

theorem wellFormed_addEvent (h : s.WellFormed) (cycle : ℕ) : (s.addEvent cycle).2.WellFormed := by
  unfold addEvent
  split
  next hrun =>
    have hup : ¬s.cleared = true := fun hcleared => h.down (.inr hcleared) hrun
    obtain ⟨hdistinct, hbound⟩ := distinct_of_new h (t := (s.addEvent cycle).2) (by
      rw [addEvent, if_pos hrun]
      exact .refl _) (by rw [addEvent, if_pos hrun])
    rw [addEvent, if_pos hrun] at hdistinct hbound
    exact ⟨hdistinct, hbound, fun _ _ => .inl (List.cons_ne_nil _ _), fun hc => absurd hc hup,
      h.down, h.thread⟩
  next hrun =>
    obtain ⟨hdistinct, hbound⟩ := distinct_of_new h (t := (s.addEvent cycle).2) (by
      rw [addEvent, if_neg hrun, List.perm_iff_count]
      intro ptr
      simp only [addresses, held, List.count_append, List.count_cons]
      omega) (by rw [addEvent, if_neg hrun])
    rw [addEvent, if_neg hrun] at hdistinct hbound
    exact ⟨hdistinct, hbound, h.armed, h.cleared, h.down, h.thread⟩

theorem wellFormed_stopEvent (h : s.WellFormed) (eventid : BitVec 32) :
    (s.stopEvent eventid).2.WellFormed := by
  unfold stopEvent
  split
  · exact h
  · split
    · exact ⟨h.distinct, h.bound, h.armed, h.cleared, h.down, h.thread⟩
    · exact h

theorem wellFormed_clear (h : s.WellFormed) (hdown : s.shuttingDown = true) :
    s.clear.WellFormed := by
  have hperm : s.clear.addresses.Perm s.addresses := by
    rw [List.perm_iff_count]
    intro ptr
    simp only [clear, addresses, held, List.count_append, List.map_nil, List.count_nil]
    omega
  obtain ⟨hdistinct, hbound⟩ := distinct_of_perm h hperm rfl
  exact ⟨hdistinct, hbound, fun _ _ => .inr rfl, fun _ => rfl, fun _ => h.down (.inl hdown),
    h.thread⟩

/-- The thread goes to another place with no task in its hands before or after. -/
theorem wellFormed_thread (h : s.WellFormed) {pc : ThreadPc} (hheld : s.held = [])
    (hpc : ({ s with thread := pc } : Scheduler).held = [])
    (harmed : ∀ cycle, pc = .waitingUntil cycle → s.eventList ≠ []) (hne : pc ≠ .undefined) :
    ({ s with thread := pc } : Scheduler).WellFormed := by
  have hsame : ({ s with thread := pc } : Scheduler).addresses = s.addresses := by
    unfold addresses
    rw [hpc, hheld]
  exact ⟨hsame ▸ h.distinct, hsame ▸ h.bound, fun cycle hcycle => .inl (harmed cycle hcycle),
    h.cleared, h.down, hne⟩

theorem addresses_popTop (hheld : s.held = []) {top : SchedulerTask} (htop : top ∈ s.eventList) :
    (s.popTop top).addresses.Perm s.addresses := by
  have htaken : (s.popTop top).addresses = (s.eventList.erase top).map SchedulerTask.ptr ++
      ([top.ptr] ++ (s.dispatched.map (fun handover => handover.task.ptr) ++ s.deleted)) := by
    unfold popTop
    dsimp only
    split <;> rfl
  have hsame : s.addresses = s.eventList.map SchedulerTask.ptr ++
      (s.dispatched.map (fun handover => handover.task.ptr) ++ s.deleted) := by
    rw [addresses, hheld]
    rfl
  have hperm := (List.perm_cons_erase htop).map SchedulerTask.ptr
  rw [htaken, hsame, List.perm_iff_count]
  intro ptr
  have hptr := hperm.count_eq ptr
  rw [List.map_cons] at hptr
  simp only [List.count_append, List.count_cons, List.count_nil] at hptr ⊢
  omega

theorem wellFormed_popTop (h : s.WellFormed) (hheld : s.held = []) {top : SchedulerTask}
    (htop : top ∈ s.eventList) : (s.popTop top).WellFormed := by
  have hcleared : ¬s.cleared = true := by
    intro hcleared
    rw [h.cleared hcleared] at htop
    cases htop
  have hcreated : (s.popTop top).created = s.created := by
    unfold popTop
    dsimp only
    split <;> rfl
  obtain ⟨hdistinct, hbound⟩ := distinct_of_perm h (addresses_popTop hheld htop) hcreated
  refine ⟨hdistinct, hbound, ?_, ?_, ?_, ?_⟩ <;> unfold popTop <;> dsimp only <;> split
  · exact fun _ hpc => nomatch hpc
  · exact fun _ hpc => nomatch hpc
  · exact fun hc => absurd hc hcleared
  · exact fun hc => absurd hc hcleared
  · exact h.down
  · exact h.down
  · exact fun hpc => nomatch hpc
  · exact fun hpc => nomatch hpc

end Places

/-! ## Every run -/

/-- The thread does not find a timeout in a heap that `shutdown` has emptied. -/
def Guarded (s : Scheduler) (a : Action) : Prop :=
  (∃ top, a = .timeout top) → s.cleared = false

theorem wellFormed_step (s : Scheduler) (a : Action) (t : Scheduler) (h : s.WellFormed)
    (hguard : s.Guarded a) (hstep : s.step a = some t) : t.WellFormed := by
  cases a with
  | addEvent cycle =>
    obtain rfl := Option.some.inj hstep
    exact wellFormed_addEvent h cycle
  | stopEvent eventid =>
    obtain rfl := Option.some.inj hstep
    exact wellFormed_stopEvent h eventid
  | stop =>
    obtain rfl := Option.some.inj hstep
    exact ⟨h.distinct, h.bound, h.armed, h.cleared, fun _ hrun => (nomatch hrun), h.thread⟩
  | shutdownState =>
    obtain rfl := Option.some.inj hstep
    exact ⟨h.distinct, h.bound, h.armed, h.cleared, fun _ hrun => (nomatch hrun), h.thread⟩
  | shutdownClear =>
    simp only [step] at hstep
    split at hstep
    next hdown =>
      obtain rfl := Option.some.inj hstep
      exact wellFormed_clear h hdown
    next => cases hstep
  | pass time =>
    obtain rfl := Option.some.inj hstep
    exact ⟨h.distinct, h.bound, h.armed, h.cleared, h.down, h.thread⟩
  | check =>
    simp only [step] at hstep
    split at hstep
    next hpc =>
      obtain rfl := Option.some.inj hstep
      refine wellFormed_thread h (by rw [held, hpc]) ?_ ?_ ?_ <;> split
      · rfl
      · rfl
      · exact fun _ hpc => nomatch hpc
      · exact fun _ hpc => nomatch hpc
      · exact fun hpc => nomatch hpc
      · exact fun hpc => nomatch hpc
    next => cases hstep
  | lock =>
    simp only [step] at hstep
    split at hstep
    next hpc =>
      obtain rfl := Option.some.inj hstep
      have hspec := earliest_spec s.eventList
      cases htop : earliest s.eventList with
      | none =>
        exact wellFormed_thread h (by rw [held, hpc]) rfl (fun _ hpc => nomatch hpc)
          (fun hpc => nomatch hpc)
      | some top =>
        rw [htop] at hspec
        exact wellFormed_thread h (by rw [held, hpc]) rfl
          (fun _ _ => List.ne_nil_of_mem hspec.1) (fun hpc => nomatch hpc)
    next => cases hstep
  | notified =>
    simp only [step] at hstep
    split at hstep
    next hpc =>
      obtain rfl := Option.some.inj hstep
      exact wellFormed_thread h (by rw [held, hpc]) rfl (fun _ hpc => nomatch hpc)
        (fun hpc => nomatch hpc)
    next hpc =>
      obtain rfl := Option.some.inj hstep
      exact wellFormed_thread h (by rw [held, hpc]) rfl (fun _ hpc => nomatch hpc)
        (fun hpc => nomatch hpc)
    next => cases hstep
  | timeout top =>
    have hcleared := hguard ⟨top, rfl⟩
    simp only [step] at hstep
    split at hstep
    next cycle hpc =>
      have hne : s.eventList ≠ [] := (h.armed cycle hpc).resolve_right (by simp [hcleared])
      split at hstep
      · rw [afterTimeout, if_neg hne] at hstep
        split at hstep
        next htop =>
          obtain rfl := Option.some.inj hstep
          exact wellFormed_popTop h (by rw [held, hpc]) htop.1
        next => cases hstep
      · cases hstep
    next => cases hstep
  | deleteTask =>
    simp only [step] at hstep
    split at hstep
    next task hpc =>
      obtain rfl := Option.some.inj hstep
      obtain ⟨hdistinct, hbound⟩ := distinct_of_perm h
        (t := { s with deleted := task.ptr :: s.deleted, thread := .checking }) (by
          rw [List.perm_iff_count]
          intro ptr
          simp only [addresses, held, hpc, List.count_append, List.map_cons, List.map_nil,
            List.count_cons, List.count_nil]
          omega) rfl
      exact ⟨hdistinct, hbound, fun _ hpc => (nomatch hpc), h.cleared, h.down,
        fun hpc => nomatch hpc⟩
    next => cases hstep
  | addTask =>
    simp only [step] at hstep
    split at hstep
    next task accepted hpc =>
      obtain rfl := Option.some.inj hstep
      obtain ⟨hdistinct, hbound⟩ := distinct_of_perm h
        (t := { s with
          dispatched := s.dispatched ++ [⟨task, accepted, s.now⟩]
          thread := .checking }) (by
          rw [List.perm_iff_count]
          intro ptr
          simp only [addresses, held, hpc, List.count_append, List.map_append, List.map_cons,
            List.map_nil, List.count_cons, List.count_nil]
          omega) rfl
      exact ⟨hdistinct, hbound, fun _ hpc => (nomatch hpc), h.cleared, h.down,
        fun hpc => nomatch hpc⟩
    next => cases hstep

/-- A timeout that finds the heap emptied reads its top all the same. -/
theorem undefined_of_not_guarded (s : Scheduler) (a : Action) (t : Scheduler) (h : s.WellFormed)
    (hguard : ¬s.Guarded a) (hstep : s.step a = some t) : ¬t.Sound := by
  simp only [Guarded, Classical.not_imp, Bool.not_eq_false] at hguard
  obtain ⟨⟨top, rfl⟩, hcleared⟩ := hguard
  simp only [step] at hstep
  split at hstep
  next =>
    split at hstep
    · rw [afterTimeout, if_pos (h.cleared hcleared)] at hstep
      obtain rfl := Option.some.inj hstep
      exact fun hsound => hsound.thread rfl
    · cases hstep
  next => cases hstep

/-- In a run of any callers the thread never reads the top of an empty heap, and no task is
deleted twice or given away after it was deleted, exactly when no wait reports a timeout
after `shutdown` has emptied the heap. -/
theorem always_sound_iff (as : List Action) :
    Always step Sound {} as ↔ EachStep step Guarded {} as :=
  always_iff_of_breaks (fun _ => WellFormed.sound) wellFormed_step undefined_of_not_guarded as {}
    wellFormed_init

/-- `shutdown` runs while the thread waits for the cycle of the only task. -/
theorem timeout_after_shutdown : ¬∀ as : List Action, Always step Sound {} as := by
  intro h
  have hend := (h [.addEvent 5, .check, .lock, .shutdownState, .shutdownClear, .pass 5,
    .timeout ⟨0, 5, 1⟩]).last (u := _) rfl
  exact hend.thread rfl

end Scheduler

end TibiaServer.Tasks
