import Mathlib.Data.List.Infix
import Mathlib.Data.List.Perm.Basic
import TibiaServer.Library.Run
/-!
# The database task thread

`DatabaseTasks` is a queue behind `taskLock`.  Callers of `addTask` append to it,
the worker in `threadMain` takes the front task under the lock and runs its query
after releasing it, and `shutdown` runs the rest of the queue on the caller's
thread while it holds the lock.  A region under the lock is one step, each query
is one step, and a wait on `taskSignal` gives the lock back and may end at any
time, with or without a notification.

No interleaving runs a task twice or forgets one (`always_accounted`).  The order of
the queue can break at one place only: `shutdown` may run a queued query while
the worker still holds one that it has taken and not run (`always_ordered_iff`).
-/

namespace TibiaServer.Database

open TibiaServer.Library.Run

inductive ThreadState
  | running
  | closing
  | terminated
  deriving DecidableEq

/-- A query to execute, or one whose result is stored for a callback. -/
structure DatabaseTask where
  query : String
  store : Bool
  deriving DecidableEq

/-- Where the worker stands in `threadMain`. -/
inductive WorkerPc
  | checking
  | locking
  | waiting
  | holding (task : DatabaseTask)
  | stopped
  deriving DecidableEq

/-- `accepted` logs the tasks that `addTask` put into the queue and `executed`
the tasks whose query was run, both in order of time. -/
structure DatabaseTasks where
  threadState : ThreadState := .running
  tasks : List DatabaseTask := []
  worker : WorkerPc := .checking
  /-- `shutdown` has taken the lock and not yet released it. -/
  flushing : Bool := false
  shutdownReturned : Bool := false
  accepted : List DatabaseTask := []
  executed : List DatabaseTask := []

namespace DatabaseTasks

inductive Action
  | addTask (task : DatabaseTask)
  | stop
  | workerCheck
  | workerLock
  | workerWake
  | workerRun
  | shutdownLock
  | shutdownFlush
  | shutdownUnlock

/-- The second half of the worker's locked region: take the front task, or give
the lock back and go round the loop. -/
def takeTask (s : DatabaseTasks) : DatabaseTasks :=
  match s.tasks with
  | task :: rest => { s with tasks := rest, worker := .holding task }
  | [] => { s with worker := .checking }

def runTask (s : DatabaseTasks) (task : DatabaseTask) : DatabaseTasks :=
  { s with executed := s.executed ++ [task] }

/-- One atomic step.  While `shutdown` holds the lock nobody else enters a
locked region. -/
def step (s : DatabaseTasks) : Action → Option DatabaseTasks
  | .addTask task =>
    if s.flushing then none
    else if s.threadState = .running then
      some { s with tasks := s.tasks ++ [task], accepted := s.accepted ++ [task] }
    else some s
  | .stop => some { s with threadState := .closing }
  | .workerCheck =>
    if s.worker = .checking then
      some { s with
        worker := if s.threadState = .terminated then .stopped else .locking }
    else none
  | .workerLock =>
    if s.worker = .locking ∧ s.flushing = false then
      some (if s.tasks = [] then { s with worker := .waiting } else s.takeTask)
    else none
  | .workerWake =>
    if s.worker = .waiting ∧ s.flushing = false then some s.takeTask else none
  | .workerRun =>
    match s.worker with
    | .holding task => some { s.runTask task with worker := .checking }
    | _ => none
  | .shutdownLock =>
    if s.flushing then none
    else some { s with threadState := .terminated, flushing := true }
  | .shutdownFlush =>
    if s.flushing then
      match s.tasks with
      | task :: rest => some { s.runTask task with tasks := rest }
      | [] => none
    else none
  | .shutdownUnlock =>
    if s.flushing ∧ s.tasks = [] then
      some { s with flushing := false, shutdownReturned := true }
    else none

/-- The task that the worker has taken out of the queue and not yet run. -/
def held (s : DatabaseTasks) : List DatabaseTask :=
  match s.worker with
  | .holding task => [task]
  | _ => []

/-- Each accepted task is executed, held or queued, exactly once, and the queue
is the end of the accepted tasks. -/
structure Linked (s : DatabaseTasks) : Prop where
  split : ∃ taken, s.accepted = taken ++ s.tasks ∧ taken.Perm (s.executed ++ s.held)
  flushing_state : s.flushing = true → s.threadState ≠ .running
  returned_state : s.shutdownReturned = true → s.threadState ≠ .running ∧ s.tasks = []

/-- The queries were executed at most once each and in the order in which they
were accepted, and all of them once `shutdown` has returned and the worker has
stopped. -/
def Ordered (s : DatabaseTasks) : Prop :=
  s.executed <+: s.accepted ∧
    (s.shutdownReturned = true → s.worker = .stopped → s.executed = s.accepted)

/-- `shutdown` does not run a queued query while the worker holds another one. -/
def FlushKeepsOrder (s : DatabaseTasks) : Action → Prop
  | .shutdownFlush => ∀ task ∈ s.held, s.tasks.head? = some task
  | _ => True

theorem linked_init : Linked {} :=
  ⟨⟨[], rfl, List.Perm.refl []⟩, by simp, by simp⟩

/-- In an ordered state nothing is out of place: the accepted tasks are the
executed ones, the held one and the queue, in this order. -/
theorem Linked.accepted_eq {s : DatabaseTasks} (h : s.Linked)
    (horder : s.executed <+: s.accepted) :
    s.accepted = s.executed ++ (s.held ++ s.tasks) := by
  obtain ⟨taken, hacc, hperm⟩ := h.split
  have hlen : taken.length = s.executed.length + s.held.length := by
    simpa using hperm.length_eq
  have hpre : s.executed <+: taken := by
    apply List.prefix_of_prefix_length_le horder
    · rw [hacc]
      exact List.prefix_append _ _
    · omega
  obtain ⟨rest, rfl⟩ := hpre
  have hrest : rest.Perm s.held := (List.perm_append_left_iff _).mp hperm
  have hheld : rest = s.held := by
    cases hw : s.worker <;> simp_all [held]
  rw [hacc, hheld, List.append_assoc]

/-- Taking the front task moves it from the queue to the worker. -/
theorem linked_takeTask {s : DatabaseTasks} (h : s.Linked) (hheld : s.held = []) :
    s.takeTask.Linked := by
  obtain ⟨taken, hacc, hperm⟩ := h.split
  unfold takeTask
  split
  next task rest htasks =>
    refine ⟨⟨taken ++ [task], by simp [hacc, htasks], ?_⟩, h.flushing_state, ?_⟩
    · rw [hheld, List.append_nil] at hperm
      exact hperm.append_right [task]
    · intro hret
      have hempty := (h.returned_state hret).2
      simp [htasks] at hempty
  next htasks =>
    refine ⟨⟨taken, by simp [hacc, htasks], ?_⟩, h.flushing_state, ?_⟩
    · rw [hheld] at hperm
      simpa [held] using hperm
    · intro hret
      exact ⟨(h.returned_state hret).1, htasks⟩

theorem linked_step {s t : DatabaseTasks} {a : Action} (h : s.Linked)
    (hstep : step s a = some t) : t.Linked := by
  obtain ⟨taken, hacc, hperm⟩ := h.split
  cases a with
  | addTask task =>
    simp only [step] at hstep
    split at hstep
    next => simp at hstep
    next hfl =>
      split at hstep <;> cases hstep
      next hrun =>
        refine ⟨⟨taken, by simp [hacc], hperm⟩, by simp [hfl], ?_⟩
        intro hret
        exact absurd hrun (h.returned_state hret).1
      next => exact h
  | stop =>
    cases hstep
    exact ⟨⟨taken, hacc, hperm⟩, by simp,
      fun hret => ⟨by simp, (h.returned_state hret).2⟩⟩
  | workerCheck =>
    simp only [step] at hstep
    split at hstep
    next hpc =>
      cases hstep
      have hheld : s.held = [] := by simp [held, hpc]
      refine ⟨⟨taken, hacc, ?_⟩, h.flushing_state, h.returned_state⟩
      rw [hheld] at hperm
      by_cases hterm : s.threadState = .terminated <;> simpa [held, hterm] using hperm
    next => simp at hstep
  | workerLock =>
    simp only [step] at hstep
    split at hstep
    next hpc =>
      cases hstep
      have hheld : s.held = [] := by simp [held, hpc.1]
      split
      next =>
        rw [hheld] at hperm
        exact ⟨⟨taken, hacc, by simpa [held] using hperm⟩,
          h.flushing_state, h.returned_state⟩
      next => exact linked_takeTask h hheld
    next => simp at hstep
  | workerWake =>
    simp only [step] at hstep
    split at hstep
    next hpc =>
      cases hstep
      exact linked_takeTask h (by simp [held, hpc.1])
    next => simp at hstep
  | workerRun =>
    simp only [step] at hstep
    split at hstep
    next task hpc =>
      cases hstep
      refine ⟨⟨taken, hacc, ?_⟩, h.flushing_state, h.returned_state⟩
      simpa [runTask, held, hpc] using hperm
    next => simp at hstep
  | shutdownLock =>
    simp only [step] at hstep
    split at hstep
    next => simp at hstep
    next =>
      cases hstep
      exact ⟨⟨taken, hacc, hperm⟩, by simp,
        fun hret => ⟨by simp, (h.returned_state hret).2⟩⟩
  | shutdownFlush =>
    simp only [step] at hstep
    split at hstep
    next =>
      split at hstep
      next task rest htasks =>
        cases hstep
        refine ⟨⟨taken ++ [task], by simp [runTask, hacc, htasks], ?_⟩,
          h.flushing_state, ?_⟩
        -- the task goes to the end of `executed`, in front of the held one
        · calc (taken ++ [task]).Perm (s.executed ++ s.held ++ [task]) :=
                hperm.append_right [task]
            _ = s.executed ++ (s.held ++ [task]) := List.append_assoc ..
            (s.executed ++ (s.held ++ [task])).Perm
                (s.executed ++ ([task] ++ s.held)) :=
                  List.perm_append_comm.append_left s.executed
            _ = s.executed ++ [task] ++ s.held := (List.append_assoc ..).symm
        · intro hret
          have hempty := (h.returned_state hret).2
          simp [htasks] at hempty
      next => simp at hstep
    next => simp at hstep
  | shutdownUnlock =>
    simp only [step] at hstep
    split at hstep
    next hdone =>
      cases hstep
      exact ⟨⟨taken, hacc, hperm⟩, by simp,
        fun _ => ⟨h.flushing_state hdone.1, hdone.2⟩⟩
    next => simp at hstep

/-- Whatever the interleaving, the tasks executed, held and queued are the
accepted ones, each once, and at the end the accepted ones are executed. -/
theorem always_accounted (as : List Action) :
    Always step (fun s => s.accepted.Perm (s.executed ++ s.held ++ s.tasks) ∧
      (s.shutdownReturned = true → s.worker = .stopped → s.accepted.Perm s.executed))
      {} as := by
  refine always_of_invariant (I := Linked) (fun _ _ _ hs hstep => linked_step hs hstep)
    (fun s h => ?_) as {} linked_init
  obtain ⟨taken, hacc, hperm⟩ := h.split
  have hall : s.accepted.Perm (s.executed ++ s.held ++ s.tasks) := by
    rw [hacc]
    exact hperm.append_right s.tasks
  refine ⟨hall, fun hret hstop => ?_⟩
  have htasks : s.tasks = [] := (h.returned_state hret).2
  simpa [held, hstop, htasks] using hall

/-- Completeness at the end follows from the order so far: a stopped worker
holds nothing and a returned `shutdown` left nothing in the queue. -/
theorem Linked.ordered_iff {s : DatabaseTasks} (h : s.Linked) :
    s.Ordered ↔ s.executed <+: s.accepted := by
  constructor
  · exact fun hordered => hordered.1
  · intro hpre
    refine ⟨hpre, fun hret hstop => ?_⟩
    have htasks : s.tasks = [] := (h.returned_state hret).2
    have hheld : s.held = [] := by simp [held, hstop]
    have hacc := h.accepted_eq hpre
    simpa [htasks, hheld] using hacc.symm

/-- Only `runTask` touches `executed`, and `accepted` only grows. -/
theorem executed_of_not_run {s t : DatabaseTasks} {a : Action}
    (hstep : step s a = some t) (hrun : a ≠ .workerRun) (hflush : a ≠ .shutdownFlush) :
    t.executed = s.executed ∧ s.accepted <+: t.accepted := by
  have htake : s.takeTask.executed = s.executed ∧ s.takeTask.accepted = s.accepted := by
    unfold takeTask
    split <;> exact ⟨rfl, rfl⟩
  cases a with
  | workerRun => exact absurd rfl hrun
  | shutdownFlush => exact absurd rfl hflush
  | addTask task =>
    simp only [step] at hstep
    split at hstep
    next => simp at hstep
    next => split at hstep <;> cases hstep <;> simp
  | workerLock =>
    simp only [step] at hstep
    split at hstep
    next =>
      cases hstep
      split <;> simp [htake]
    next => simp at hstep
  | workerWake =>
    simp only [step] at hstep
    split at hstep
    next =>
      cases hstep
      simp [htake]
    next => simp at hstep
  | stop | workerCheck | shutdownLock | shutdownUnlock =>
    simp only [step] at hstep
    first
      | cases hstep; simp
      | split at hstep
        · cases hstep
          simp
        · simp at hstep
      | split at hstep
        · simp at hstep
        · cases hstep
          simp

theorem ordered_step_iff {s t : DatabaseTasks} {a : Action} (h : s.Linked)
    (hordered : s.Ordered) (hstep : step s a = some t) :
    t.Ordered ↔ FlushKeepsOrder s a := by
  rw [(linked_step h hstep).ordered_iff]
  have hpre : s.executed <+: s.accepted := hordered.1
  have hacc := h.accepted_eq hpre
  by_cases hrun : a = .workerRun
  · subst hrun
    simp only [step] at hstep
    split at hstep
    next task hpc =>
      cases hstep
      have hheld : s.held = [task] := by simp [held, hpc]
      refine iff_of_true ⟨s.tasks, ?_⟩ trivial
      simp [runTask, hacc, hheld]
    next => simp at hstep
  by_cases hflush : a = .shutdownFlush
  · subst hflush
    simp only [step] at hstep
    split at hstep
    next =>
      split at hstep
      next task rest htasks =>
        cases hstep
        -- what is next in line is the held task, if there is one
        change s.executed ++ [task] <+: s.accepted ↔ ∀ x ∈ s.held, s.tasks.head? = some x
        rw [hacc, List.prefix_append_right_inj, htasks]
        cases hpc : s.worker <;> simp [held, hpc, eq_comm]
      next => simp at hstep
    next => simp at hstep
  · obtain ⟨hexec, hgrow⟩ := executed_of_not_run hstep hrun hflush
    refine iff_of_true ?_ ?_
    · rw [hexec]
      exact hpre.trans hgrow
    · cases a <;> trivial

/-- The queries run in order, and all of them by the end, in every state of a
run exactly when no step of `shutdown` overtakes the worker. -/
theorem always_ordered_iff (as : List Action) :
    Always step Ordered {} as ↔ EachStep step FlushKeepsOrder {} as :=
  always_iff_eachStep (I := Linked) (fun _ _ _ hs hstep => linked_step hs hstep)
    (fun _ _ _ hs hordered hstep => ordered_step_iff hs hordered hstep)
    as {} linked_init (linked_init.ordered_iff.mpr (List.prefix_refl []))

/-- The worker takes the first task, `shutdown` runs the second one, and the
worker runs the first one after it. -/
theorem shutdown_overtakes_worker :
    ∃ s, run step {}
      [.addTask ⟨"UPDATE a", false⟩, .addTask ⟨"UPDATE b", false⟩, .workerCheck,
        .workerLock, .shutdownLock, .shutdownFlush, .shutdownUnlock, .workerRun,
        .workerCheck] = some s ∧
      s.shutdownReturned = true ∧ s.worker = .stopped ∧
      s.accepted = [⟨"UPDATE a", false⟩, ⟨"UPDATE b", false⟩] ∧
      s.executed = [⟨"UPDATE b", false⟩, ⟨"UPDATE a", false⟩] ∧
      ¬ s.Ordered := by
  refine ⟨_, rfl, rfl, rfl, rfl, rfl, ?_⟩
  intro hordered
  have hpre := hordered.1
  revert hpre
  decide

end DatabaseTasks

end TibiaServer.Database
