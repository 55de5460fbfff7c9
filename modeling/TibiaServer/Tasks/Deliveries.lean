import Mathlib.Algebra.Group.Nat.Defs
import TibiaServer.Tasks.Scheduler
/-!
# What the scheduler hands over

Without a `shutdown` and with fewer events than there are ids, every event is handed over at
most once, not before its cycle and not after `stopEvent` has returned true for it
(`delivered`).  The thread gives the lock back between the pop of a task and its hand-over,
so `stopEvent` already returns false there, and a task of an earlier cycle that is added
there comes after the popped one.
-/

namespace TibiaServer.Tasks.Scheduler

open Library.Run

def Action.adds : Action → Bool
  | .addEvent _ => true
  | _ => false

def Action.shutsDown : Action → Bool
  | .shutdownState => true
  | .shutdownClear => true
  | _ => false

/-- The tasks that were taken from the heap to be handed over, each with the number of tasks
added by then; the last of them may still be on its way. -/
def takings (s : Scheduler) : List (SchedulerTask × ℕ) :=
  s.dispatched.map (fun handover => (handover.task, handover.accepted)) ++
    match s.thread with
    | .handing task accepted => [(task, accepted)]
    | _ => []

def taken (s : Scheduler) : List SchedulerTask :=
  s.takings.map Prod.fst

/-- `b` comes after `a`: it is not the earlier one, or it was added after `a` was taken. -/
def Follows (s : Scheduler) (a b : SchedulerTask × ℕ) : Prop :=
  a.1.cycle ≤ b.1.cycle ∨ b.1 ∉ s.accepted.take a.2

/-- What the callers can rely on. -/
structure Delivered (s : Scheduler) : Prop where
  once : (s.dispatched.map Handover.task).Nodup
  notEarly : ∀ handover ∈ s.dispatched, handover.task.cycle ≤ handover.time
  stopped : ∀ handover ∈ s.dispatched, handover.task.eventId ∉ s.stoppedIds
  stopEvent : ∀ eventid, (s.stopEvent eventid).1 = true ↔
    ∃ task ∈ s.accepted, task.eventId = eventid ∧ task ∉ s.taken ∧ eventid ∉ s.stoppedIds
  drained : s.eventList = [] →
    ∀ task ∈ s.accepted, task.eventId ∈ s.stoppedIds ∨ task ∈ s.taken
  ordered : s.takings.Pairwise s.Follows

/-- What holds while no id has been given twice. -/
structure Identified (s : Scheduler) : Prop where
  distinct : (s.accepted.map SchedulerTask.eventId).Nodup
  bounded : ∀ task ∈ s.accepted, task.eventId ≠ 0 ∧ task.eventId.toNat ≤ s.accepted.length
  last : s.lastEventId.toNat = s.accepted.length
  placed : (s.eventList ++ s.taken).Nodup
  known : ∀ task ∈ s.eventList ++ s.taken, task ∈ s.accepted
  covered : ∀ task ∈ s.accepted, task ∈ s.eventList ++ s.taken ∨ task.eventId ∈ s.stoppedIds
  stoppedKnown : ∀ eventid ∈ s.stoppedIds, ∃ task ∈ s.accepted, task.eventId = eventid
  untaken : ∀ task ∈ s.taken, task.eventId ∉ s.stoppedIds
  live : ∀ eventid, eventid ∈ s.eventIds ↔
    eventid ∉ s.stoppedIds ∧ ∃ task ∈ s.eventList, task.eventId = eventid

/-- What the due times say about the order of the tasks. -/
structure Timely (s : Scheduler) : Prop where
  armed : ∀ cycle, s.thread = .waitingUntil cycle → ∃ task ∈ s.eventList, task.cycle ≤ cycle
  due : ∀ task ∈ s.taken, task.cycle ≤ s.now
  notEarly : ∀ handover ∈ s.dispatched, handover.task.cycle ≤ handover.time
  counted : ∀ a ∈ s.takings, a.2 ≤ s.accepted.length
  ordered : s.takings.Pairwise s.Follows
  pending : ∀ a ∈ s.takings, ∀ task ∈ s.eventList, s.Follows a (task, 0)

theorem Identified.same {s : Scheduler} (h : s.Identified) {a b : SchedulerTask}
    (ha : a ∈ s.accepted) (hb : b ∈ s.accepted) (hid : a.eventId = b.eventId) : a = b :=
  List.inj_on_of_nodup_map h.distinct ha hb hid

theorem identified_init : Identified {} := by
  constructor <;> simp [taken, takings]

theorem timely_init : Timely {} := by
  constructor <;> simp [taken, takings]

theorem mem_taken_of_mem_dispatched {s : Scheduler} {handover : Handover}
    (h : handover ∈ s.dispatched) : handover.task ∈ s.taken := by
  simp only [taken, takings, List.map_append, List.map_map]
  exact List.mem_append_left _ (List.mem_map_of_mem h)

theorem Identified.of_timely {s : Scheduler} (h : s.Identified) (ht : s.Timely) :
    s.Delivered where
  once := by
    have hsub : (s.dispatched.map Handover.task).Sublist s.taken := by
      simp only [taken, takings, List.map_append, List.map_map]
      exact List.sublist_append_left _ _
    exact hsub.nodup (List.nodup_append.mp h.placed).2.1
  notEarly := ht.notEarly
  stopped _ hmem := h.untaken _ (mem_taken_of_mem_dispatched hmem)
  stopEvent eventid := by
    have hlive : (s.stopEvent eventid).1 = true ↔ eventid ≠ 0 ∧ eventid ∈ s.eventIds := by
      unfold Scheduler.stopEvent
      split
      next h0 => simp [h0]
      next h0 => split <;> simp_all
    rw [hlive, h.live]
    constructor
    · rintro ⟨-, hstopped, task, hmem, rfl⟩
      refine ⟨task, h.known task (List.mem_append_left _ hmem), rfl, fun htaken => ?_, hstopped⟩
      exact (List.nodup_append.mp h.placed).2.2 _ hmem _ htaken rfl
    · rintro ⟨task, hmem, rfl, htaken, hstopped⟩
      refine ⟨(h.bounded task hmem).1, hstopped, task, ?_, rfl⟩
      have hplace := (h.covered task hmem).resolve_right hstopped
      exact (List.mem_append.mp hplace).resolve_right htaken
  drained hempty task hmem := by
    rcases h.covered task hmem with hplace | hstopped
    · rw [hempty] at hplace
      exact .inr hplace
    · exact .inl hstopped
  ordered := ht.ordered

/-! ## The callers -/

theorem toNat_nextEventId {id : BitVec 32} (h : id.toNat + 1 < 2 ^ 32) :
    (nextEventId id).toNat = id.toNat + 1 := by
  have hsucc : (id + 1).toNat = id.toNat + 1 := by
    rw [BitVec.toNat_add, show BitVec.toNat (1 : BitVec 32) = 1 from rfl, Nat.mod_eq_of_lt h]
  have hne : id + 1 ≠ 0 := by
    intro h0
    rw [h0] at hsucc
    simp at hsucc
  rw [nextEventId, if_neg hne, hsucc]

section Callers

variable {s : Scheduler}

/-- The id of the next task is new. -/
theorem Identified.fresh (h : s.Identified) (hroom : s.accepted.length + 1 < 2 ^ 32)
    {task : SchedulerTask} (hmem : task ∈ s.accepted) :
    task.eventId ≠ nextEventId s.lastEventId := by
  intro heq
  have hle := (h.bounded task hmem).2
  have hnext : (nextEventId s.lastEventId).toNat = s.accepted.length + 1 := by
    rw [toNat_nextEventId (by rw [h.last]; exact hroom), h.last]
  rw [heq, hnext] at hle
  omega

theorem identified_addEvent (h : s.Identified) (hroom : s.accepted.length + 1 < 2 ^ 32)
    (cycle : ℕ) : (s.addEvent cycle).2.Identified := by
  unfold addEvent
  split
  next =>
    have hnext : (nextEventId s.lastEventId).toNat = s.accepted.length + 1 := by
      rw [toNat_nextEventId (by rw [h.last]; exact hroom), h.last]
    generalize hid : nextEventId s.lastEventId = eventId at hnext
    have hfresh : ∀ task ∈ s.accepted, task.eventId ≠ eventId := by
      intro task hmem
      rw [← hid]
      exact h.fresh hroom hmem
    have hnew : (⟨s.created, cycle, eventId⟩ : SchedulerTask) ∉ s.accepted :=
      fun hmem => hfresh _ hmem rfl
    constructor
    · dsimp only
      rw [List.map_append, List.nodup_append]
      refine ⟨h.distinct, List.nodup_singleton _, ?_⟩
      intro id hid other hother
      obtain ⟨task, hmem, rfl⟩ := List.mem_map.mp hid
      rw [List.map_singleton, List.mem_singleton] at hother
      rw [hother]
      exact hfresh task hmem
    · intro task hmem
      rw [List.length_append, List.length_singleton]
      rcases List.mem_append.mp hmem with hmem | hmem
      · exact ⟨(h.bounded task hmem).1, (h.bounded task hmem).2.trans (Nat.le_succ _)⟩
      · rw [List.mem_singleton.mp hmem]
        refine ⟨fun h0 => ?_, hnext.le⟩
        rw [show eventId = 0 from h0] at hnext
        simp at hnext
    · simpa using hnext
    · exact List.nodup_cons.mpr ⟨fun hmem => hnew (h.known _ hmem), h.placed⟩
    · intro task hmem
      rcases List.mem_cons.mp hmem with rfl | hmem
      · exact List.mem_append_right _ List.mem_cons_self
      · exact List.mem_append_left _ (h.known task hmem)
    · intro task hmem
      rcases List.mem_append.mp hmem with hmem | hmem
      · exact (h.covered task hmem).imp_left (List.mem_cons_of_mem _)
      · rw [List.mem_singleton.mp hmem]
        exact .inl List.mem_cons_self
    · intro eventid hmem
      obtain ⟨task, hmem, heq⟩ := h.stoppedKnown eventid hmem
      exact ⟨task, List.mem_append_left _ hmem, heq⟩
    · exact h.untaken
    · intro eventid
      rw [Finset.mem_insert, h.live]
      constructor
      · rintro (rfl | ⟨hstopped, task, hmem, heq⟩)
        · refine ⟨fun hstopped => ?_, _, List.mem_cons_self, rfl⟩
          obtain ⟨task, hmem, heq⟩ := h.stoppedKnown _ hstopped
          exact hfresh task hmem heq
        · exact ⟨hstopped, task, List.mem_cons_of_mem _ hmem, heq⟩
      · rintro ⟨hstopped, task, hmem, heq⟩
        rcases List.mem_cons.mp hmem with rfl | hmem
        · exact .inl heq.symm
        · exact .inr ⟨hstopped, task, hmem, heq⟩
  next => exact { h with }

/-- A task that was added later makes no difference to the order. -/
theorem follows_append {s t : Scheduler} {tasks : List SchedulerTask}
    (haccepted : t.accepted = s.accepted ++ tasks) {a b : SchedulerTask × ℕ}
    (hcount : a.2 ≤ s.accepted.length) (h : s.Follows a b) : t.Follows a b := by
  rw [Follows, haccepted, List.take_append_of_le_length hcount]
  exact h

theorem timely_addEvent (h : s.Timely) (hid : s.Identified)
    (hroom : s.accepted.length + 1 < 2 ^ 32) (cycle : ℕ) : (s.addEvent cycle).2.Timely := by
  unfold addEvent
  split
  next =>
    have hnew : (⟨s.created, cycle, nextEventId s.lastEventId⟩ : SchedulerTask) ∉ s.accepted :=
      fun hmem => hid.fresh hroom hmem rfl
    constructor
    · intro cycle hpc
      obtain ⟨task, hmem, hle⟩ := h.armed cycle hpc
      exact ⟨task, List.mem_cons_of_mem _ hmem, hle⟩
    · exact h.due
    · exact h.notEarly
    · intro a ha
      rw [List.length_append]
      exact (h.counted a ha).trans (Nat.le_add_right _ _)
    · refine h.ordered.imp_of_mem fun {a b} ha _ hab => ?_
      exact follows_append rfl (h.counted a ha) hab
    · intro a ha task hmem
      refine follows_append rfl (h.counted a ha) ?_
      rcases List.mem_cons.mp hmem with rfl | hmem
      · exact .inr fun hmem => hnew (List.mem_of_mem_take hmem)
      · exact h.pending a ha task hmem
  next => exact { h with }

theorem identified_stopEvent (h : s.Identified) (eventid : BitVec 32) :
    (s.stopEvent eventid).2.Identified := by
  unfold Scheduler.stopEvent
  split
  · exact h
  · split
    next hmem =>
      obtain ⟨hstopped, task, htask, heq⟩ := (h.live eventid).mp hmem
      refine { h with covered := ?_, stoppedKnown := ?_, untaken := ?_, live := ?_ }
      · exact fun t ht => (h.covered t ht).imp_right (List.mem_cons_of_mem _)
      · intro id hid
        rcases List.mem_cons.mp hid with rfl | hid
        · exact ⟨task, h.known task (List.mem_append_left _ htask), heq⟩
        · exact h.stoppedKnown id hid
      · intro t ht hid
        rcases List.mem_cons.mp hid with hid | hid
        · have hsame : t = task := h.same (h.known t (List.mem_append_right _ ht))
            (h.known task (List.mem_append_left _ htask)) (hid.trans heq.symm)
          exact (List.nodup_append.mp h.placed).2.2 _ htask _ ht hsame.symm
        · exact h.untaken t ht hid
      · intro id
        rw [Finset.mem_erase, h.live, List.mem_cons, not_or, and_assoc]
    next => exact h

theorem timely_stopEvent (h : s.Timely) (eventid : BitVec 32) :
    (s.stopEvent eventid).2.Timely := by
  unfold Scheduler.stopEvent
  split
  · exact h
  · split
    · exact { h with }
    · exact h

end Callers

/-! ## The thread -/

section Thread

variable {s : Scheduler}

/-- The thread goes to another place and has taken the same tasks. -/
theorem identified_thread (h : s.Identified) {t : Scheduler} (htakings : t.takings = s.takings)
    (hsame : t.accepted = s.accepted ∧ t.lastEventId = s.lastEventId ∧
      t.eventList = s.eventList ∧ t.eventIds = s.eventIds ∧ t.stoppedIds = s.stoppedIds) :
    t.Identified := by
  obtain ⟨haccepted, hlast, hlist, hids, hstopped⟩ := hsame
  have htaken : t.taken = s.taken := by
    unfold taken
    rw [htakings]
  constructor <;>
    simp only [haccepted, hlast, hlist, hids, hstopped, htaken]
  · exact h.distinct
  · exact h.bounded
  · exact h.last
  · exact h.placed
  · exact h.known
  · exact h.covered
  · exact h.stoppedKnown
  · exact h.untaken
  · exact h.live

theorem timely_thread (h : s.Timely) {pc : ThreadPc}
    (htakings : ({ s with thread := pc } : Scheduler).takings = s.takings)
    (harmed : ∀ cycle, pc = .waitingUntil cycle → ∃ task ∈ s.eventList, task.cycle ≤ cycle) :
    ({ s with thread := pc } : Scheduler).Timely where
  armed := harmed
  due := by
    unfold taken
    rw [htakings]
    exact h.due
  notEarly := h.notEarly
  counted := by
    rw [htakings]
    exact h.counted
  ordered := by
    rw [htakings]
    exact h.ordered
  pending := by
    rw [htakings]
    exact h.pending

/-- The task that is popped goes to the tasks taken, or it had been stopped. -/
theorem popTop_cases (s : Scheduler) (top : SchedulerTask) :
    (top.eventId ∈ s.eventIds ∧ s.popTop top =
      { s with
        eventList := s.eventList.erase top
        eventIds := s.eventIds.erase top.eventId
        thread := .handing top s.accepted.length }) ∨
    (top.eventId ∉ s.eventIds ∧ s.popTop top =
      { s with eventList := s.eventList.erase top, thread := .deleting top }) := by
  unfold popTop
  dsimp only
  split
  next h => exact .inl ⟨h, rfl⟩
  next h => exact .inr ⟨h, rfl⟩

theorem takings_idle {t : Scheduler} (hidle : ∀ task accepted, t.thread ≠ .handing task accepted) :
    t.takings = t.dispatched.map (fun handover => (handover.task, handover.accepted)) := by
  unfold takings
  split
  next task accepted hpc => exact absurd hpc (hidle task accepted)
  next => rw [List.append_nil]

theorem takings_handing {t : Scheduler} {task : SchedulerTask} {accepted : ℕ}
    (hpc : t.thread = .handing task accepted) :
    t.takings = t.dispatched.map (fun handover => (handover.task, handover.accepted)) ++
      [(task, accepted)] := by
  unfold takings
  rw [hpc]

theorem identified_popTop (h : s.Identified)
    (hidle : ∀ task accepted, s.thread ≠ .handing task accepted) {top : SchedulerTask}
    (htop : top ∈ s.eventList) : (s.popTop top).Identified := by
  have hnodup : s.eventList.Nodup := (List.nodup_append.mp h.placed).1
  have hknown : top ∈ s.accepted := h.known top (List.mem_append_left _ htop)
  have hidle' := takings_idle hidle
  -- the ids of the tasks that are left
  have hleft : ∀ eventid, (∃ task ∈ s.eventList.erase top, task.eventId = eventid) ↔
      eventid ≠ top.eventId ∧ ∃ task ∈ s.eventList, task.eventId = eventid := by
    intro eventid
    constructor
    · rintro ⟨task, hmem, rfl⟩
      obtain ⟨hne, hmem⟩ := (hnodup.mem_erase_iff).mp hmem
      refine ⟨fun heq => hne ?_, task, hmem, rfl⟩
      exact h.same (h.known task (List.mem_append_left _ hmem)) hknown heq
    · rintro ⟨hne, task, hmem, rfl⟩
      refine ⟨task, hnodup.mem_erase_iff.mpr ⟨fun heq => hne ?_, hmem⟩, rfl⟩
      rw [heq]
  have hperm := List.perm_cons_erase htop
  rcases popTop_cases s top with ⟨hlive, heq⟩ | ⟨hstopped, heq⟩
  · rw [heq]
    have hplaces : (s.eventList.erase top ++ ({ s with
        eventList := s.eventList.erase top
        eventIds := s.eventIds.erase top.eventId
        thread := .handing top s.accepted.length } : Scheduler).taken).Perm
          (s.eventList ++ s.taken) := by
      rw [taken, taken, takings_handing rfl, hidle', List.map_append, List.map_singleton,
        List.perm_iff_count]
      intro task
      have htask := hperm.count_eq task
      simp only [List.count_append, List.count_cons, List.count_nil] at htask ⊢
      omega
    refine ⟨h.distinct, h.bounded, h.last, hplaces.nodup_iff.mpr h.placed, ?_, ?_,
      h.stoppedKnown, ?_, ?_⟩
    · exact fun task hmem => h.known task (hplaces.mem_iff.mp hmem)
    · exact fun task hmem => (h.covered task hmem).imp_left hplaces.mem_iff.mpr
    · intro task hmem
      rw [taken, takings_handing rfl, List.map_append, List.map_singleton] at hmem
      rcases List.mem_append.mp hmem with hmem | hmem
      · refine h.untaken task ?_
        rw [taken, hidle']
        exact hmem
      · rw [List.mem_singleton.mp hmem]
        exact ((h.live _).mp hlive).1
    · intro eventid
      rw [Finset.mem_erase, h.live, hleft]
      tauto
  · rw [heq]
    have htakings : ({ s with eventList := s.eventList.erase top, thread := .deleting top } :
        Scheduler).takings = s.takings := by
      rw [hidle', takings_idle (by simp)]
    have htaken : ({ s with eventList := s.eventList.erase top, thread := .deleting top } :
        Scheduler).taken = s.taken := by
      rw [taken, htakings]
      rfl
    have hid : top.eventId ∈ s.stoppedIds := by
      by_contra hid
      exact hstopped ((h.live _).mpr ⟨hid, top, htop, rfl⟩)
    refine ⟨h.distinct, h.bounded, h.last, ?_, ?_, ?_, h.stoppedKnown, ?_, ?_⟩
    · rw [htaken]
      exact h.placed.sublist ((List.erase_sublist).append_right _)
    · rw [htaken]
      exact fun task hmem => h.known task
        (((List.erase_sublist).append_right s.taken).subset hmem)
    · intro task hmem
      rw [htaken]
      by_cases heq : task = top
      · rw [heq]
        exact .inr hid
      · refine (h.covered task hmem).imp_left fun hplace => ?_
        rcases List.mem_append.mp hplace with hplace | hplace
        · exact List.mem_append_left _ (hnodup.mem_erase_iff.mpr ⟨heq, hplace⟩)
        · exact List.mem_append_right _ hplace
    · rw [htaken]
      exact h.untaken
    · intro eventid
      rw [h.live, hleft]
      constructor
      · rintro ⟨hnot, hmem⟩
        exact ⟨hnot, fun heq => hnot (heq ▸ hid), hmem⟩
      · rintro ⟨hnot, -, hmem⟩
        exact ⟨hnot, hmem⟩

theorem timely_popTop (h : s.Timely)
    (hidle : ∀ task accepted, s.thread ≠ .handing task accepted) {top : SchedulerTask}
    (htop : s.isTop top) {cycle : ℕ} (hpc : s.thread = .waitingUntil cycle)
    (hnow : cycle ≤ s.now) : (s.popTop top).Timely := by
  have hidle' := takings_idle hidle
  have hdue : top.cycle ≤ s.now := by
    obtain ⟨task, hmem, hle⟩ := h.armed cycle hpc
    have := htop.2 task hmem
    omega
  rcases popTop_cases s top with ⟨-, heq⟩ | ⟨-, heq⟩
  · have htakings : (s.popTop top).takings = s.takings ++ [(top, s.accepted.length)] := by
      rw [heq, hidle', takings_handing rfl]
    have haccepted : (s.popTop top).accepted = s.accepted := by rw [heq]
    have hlist : (s.popTop top).eventList = s.eventList.erase top := by rw [heq]
    have hfollows : (s.popTop top).Follows = s.Follows := by
      funext a b
      rw [Follows, Follows, haccepted]
    constructor
    · rw [heq]
      exact fun _ hpc => nomatch hpc
    · intro task hmem
      rw [taken, htakings, List.map_append] at hmem
      rw [show (s.popTop top).now = s.now by rw [heq]]
      rcases List.mem_append.mp hmem with hmem | hmem
      · exact h.due task hmem
      · rw [List.mem_singleton.mp hmem]
        exact hdue
    · rw [heq]
      exact h.notEarly
    · intro a ha
      rw [htakings] at ha
      rw [haccepted]
      rcases List.mem_append.mp ha with ha | ha
      · exact h.counted a ha
      · rw [List.mem_singleton.mp ha]
    · rw [htakings, hfollows, List.pairwise_append]
      refine ⟨h.ordered, List.pairwise_singleton _ _, fun a ha b hb => ?_⟩
      rw [List.mem_singleton.mp hb]
      exact h.pending a ha top htop.1
    · intro a ha task hmem
      rw [htakings] at ha
      rw [hlist] at hmem
      rw [hfollows]
      rcases List.mem_append.mp ha with ha | ha
      · exact h.pending a ha task (List.mem_of_mem_erase hmem)
      · rw [List.mem_singleton.mp ha]
        exact .inl (htop.2 task (List.mem_of_mem_erase hmem))
  · have htakings : (s.popTop top).takings = s.takings := by
      rw [heq, hidle', takings_idle (by simp)]
    constructor
    · rw [heq]
      exact fun _ hpc => nomatch hpc
    · unfold taken
      rw [htakings, heq]
      exact h.due
    · rw [heq]
      exact h.notEarly
    · rw [htakings, heq]
      exact h.counted
    · rw [htakings, heq]
      exact h.ordered
    · rw [htakings, heq]
      exact fun a ha task hmem => h.pending a ha task (List.mem_of_mem_erase hmem)

end Thread

/-! ## Every run -/

theorem length_accepted_step {s t : Scheduler} {a : Action} (hup : a.shutsDown = false)
    (hstep : s.step a = some t) :
    t.accepted.length ≤ s.accepted.length + if a.adds then 1 else 0 := by
  cases a with
  | addEvent cycle =>
    obtain rfl := Option.some.inj hstep
    unfold addEvent
    split <;> simp [Action.adds]
  | stopEvent eventid =>
    obtain rfl := Option.some.inj hstep
    unfold Scheduler.stopEvent
    split
    · simp
    · split <;> simp
  | shutdownState => cases hup
  | shutdownClear => cases hup
  | lock =>
    simp only [step, arm] at hstep
    split at hstep
    · obtain rfl := Option.some.inj hstep
      split <;> simp
    · cases hstep
  | timeout top =>
    simp only [step, afterTimeout, popTop] at hstep
    repeat' split at hstep
    all_goals cases hstep
    all_goals exact Nat.le_add_right _ _
  | _ =>
    simp only [step] at hstep
    repeat' split at hstep
    all_goals cases hstep
    all_goals exact Nat.le_add_right _ _

theorem inv_step {s t : Scheduler} {a : Action} (h : s.Identified ∧ s.Timely)
    (hup : a.shutsDown = false) (hroom : s.accepted.length + (if a.adds then 1 else 0) < 2 ^ 32)
    (hstep : s.step a = some t) : t.Identified ∧ t.Timely := by
  obtain ⟨hid, htime⟩ := h
  -- a change of the place that takes no task and waits for none
  have hmove : ∀ pc : ThreadPc, (∀ task accepted, s.thread ≠ .handing task accepted) →
      (∀ task accepted, pc ≠ .handing task accepted) →
      (∀ cycle, pc = .waitingUntil cycle → ∃ task ∈ s.eventList, task.cycle ≤ cycle) →
      ({ s with thread := pc } : Scheduler).Identified ∧
        ({ s with thread := pc } : Scheduler).Timely := by
    intro pc hs ht harmed
    have hsame : ({ s with thread := pc } : Scheduler).takings = s.takings := by
      rw [takings_idle hs, takings_idle ht]
    exact ⟨identified_thread hid hsame ⟨rfl, rfl, rfl, rfl, rfl⟩,
      timely_thread htime hsame harmed⟩
  cases a with
  | addEvent cycle =>
    obtain rfl := Option.some.inj hstep
    exact ⟨identified_addEvent hid hroom cycle, timely_addEvent htime hid hroom cycle⟩
  | stopEvent eventid =>
    obtain rfl := Option.some.inj hstep
    exact ⟨identified_stopEvent hid eventid, timely_stopEvent htime eventid⟩
  | stop =>
    obtain rfl := Option.some.inj hstep
    exact ⟨{ hid with }, { htime with }⟩
  | shutdownState => cases hup
  | shutdownClear => cases hup
  | pass time =>
    obtain rfl := Option.some.inj hstep
    exact ⟨{ hid with }, { htime with
      due := fun task hmem => (htime.due task hmem).trans (Nat.le_add_right _ _) }⟩
  | check =>
    simp only [step] at hstep
    split at hstep
    next hpc =>
      obtain rfl := Option.some.inj hstep
      refine hmove _ (by simp [hpc]) (fun _ _ => ?_) (fun _ => ?_) <;> split <;> simp
    next => cases hstep
  | lock =>
    simp only [step] at hstep
    split at hstep
    next hpc =>
      obtain rfl := Option.some.inj hstep
      have hspec := earliest_spec s.eventList
      cases htop : earliest s.eventList with
      | none => exact hmove _ (by simp [hpc]) (by simp) (by simp)
      | some top =>
        rw [htop] at hspec
        refine hmove _ (by simp [hpc]) (by simp) (fun cycle hcycle => ?_)
        exact ⟨top, hspec.1, (ThreadPc.waitingUntil.inj hcycle).le⟩
    next => cases hstep
  | notified =>
    simp only [step] at hstep
    split at hstep
    next hpc =>
      obtain rfl := Option.some.inj hstep
      exact hmove _ (by simp [hpc]) (by simp) (by simp)
    next hpc =>
      obtain rfl := Option.some.inj hstep
      exact hmove _ (by simp [hpc]) (by simp) (by simp)
    next => cases hstep
  | timeout top =>
    simp only [step] at hstep
    split at hstep
    next cycle hpc =>
      have hne : s.eventList ≠ [] := by
        obtain ⟨task, hmem, -⟩ := htime.armed cycle hpc
        exact List.ne_nil_of_mem hmem
      split at hstep
      next hnow =>
        rw [afterTimeout, if_neg hne] at hstep
        split at hstep
        next htop =>
          obtain rfl := Option.some.inj hstep
          have hidle : ∀ task accepted, s.thread ≠ .handing task accepted := by simp [hpc]
          exact ⟨identified_popTop hid hidle htop.1,
            timely_popTop htime hidle htop hpc hnow⟩
        next => cases hstep
      next => cases hstep
    next => cases hstep
  | deleteTask =>
    simp only [step] at hstep
    split at hstep
    next task hpc =>
      obtain rfl := Option.some.inj hstep
      obtain ⟨hid', htime'⟩ := hmove .checking (by simp [hpc]) (by simp) (by simp)
      exact ⟨{ hid' with }, { htime' with }⟩
    next => cases hstep
  | addTask =>
    simp only [step] at hstep
    split at hstep
    next task accepted hpc =>
      obtain rfl := Option.some.inj hstep
      have hsame : ({ s with
          dispatched := s.dispatched ++ [⟨task, accepted, s.now⟩]
          thread := .checking } : Scheduler).takings = s.takings := by
        rw [takings_idle (by simp), takings_handing hpc, List.map_append]
        rfl
      have htaken : ({ s with
          dispatched := s.dispatched ++ [⟨task, accepted, s.now⟩]
          thread := .checking } : Scheduler).taken = s.taken := by
        rw [taken, hsame]
        rfl
      refine ⟨identified_thread hid hsame ⟨rfl, rfl, rfl, rfl, rfl⟩, ?_⟩
      refine ⟨by simp, ?_, ?_, ?_, ?_, ?_⟩
      · rw [htaken]
        exact htime.due
      · intro handover hmem
        rcases List.mem_append.mp hmem with hmem | hmem
        · exact htime.notEarly handover hmem
        · rw [List.mem_singleton.mp hmem]
          refine htime.due task ?_
          rw [taken, takings_handing hpc, List.map_append]
          exact List.mem_append_right _ List.mem_cons_self
      · rw [hsame]
        exact htime.counted
      · rw [hsame]
        exact htime.ordered
      · rw [hsame]
        exact htime.pending
    next => cases hstep

theorem inv_run (as : List Action) : ∀ {s t : Scheduler}, s.Identified ∧ s.Timely →
    (∀ a ∈ as, a.shutsDown = false) → s.accepted.length + as.countP Action.adds < 2 ^ 32 →
    run step s as = some t → t.Identified ∧ t.Timely := by
  induction as with
  | nil =>
    intro s t h _ _ hrun
    obtain rfl : s = t := by simpa using hrun
    exact h
  | cons a as ih =>
    intro s t h hup hroom hrun
    obtain ⟨u, hu, hrun⟩ := run_cons_eq_some.mp hrun
    rw [List.countP_cons] at hroom
    have hlen := length_accepted_step (hup a List.mem_cons_self) hu
    refine ih (inv_step h (hup a List.mem_cons_self) (by omega) hu)
      (fun b hb => hup b (List.mem_cons_of_mem _ hb)) (by omega) hrun

/-- Without a `shutdown` and with fewer events than there are ids, the callers get what
`Delivered` says. -/
theorem delivered (as : List Action) (s : Scheduler) (hup : ∀ a ∈ as, a.shutsDown = false)
    (hroom : as.countP Action.adds < 2 ^ 32) (hrun : run step {} as = some s) : s.Delivered := by
  obtain ⟨hid, htime⟩ := inv_run as ⟨identified_init, timely_init⟩ hup
    (by simpa using hroom) hrun
  exact hid.of_timely htime

/-- One event is stopped, and the other one is handed over when its time has come. -/
theorem delivered_one_of_two : ∃ s : Scheduler,
    run step {} [.addEvent 5, .addEvent 7, .stopEvent 1, .check, .lock, .pass 5,
      .timeout ⟨0, 5, 1⟩, .deleteTask, .check, .lock, .pass 2, .timeout ⟨1, 7, 2⟩,
      .addTask] = some s ∧ s.Delivered :=
  ⟨_, rfl, delivered [.addEvent 5, .addEvent 7, .stopEvent 1, .check, .lock, .pass 5,
      .timeout ⟨0, 5, 1⟩, .deleteTask, .check, .lock, .pass 2, .timeout ⟨1, 7, 2⟩,
      .addTask] _ (by decide) (by decide) rfl⟩

/-- `stopEvent` returns false for a task that was popped and is not handed over yet, and a
task that is added there with an earlier cycle is handed over later. -/
theorem popped_before_handed_over :
    (¬∀ (as : List Action) (s : Scheduler), (∀ a ∈ as, a.shutsDown = false) →
      as.countP Action.adds < 2 ^ 32 → run step {} as = some s →
        ∀ eventid, (s.stopEvent eventid).1 = true ↔ ∃ task ∈ s.accepted,
          task.eventId = eventid ∧ task ∉ s.dispatched.map Handover.task ∧
            eventid ∉ s.stoppedIds) ∧
    ¬∀ (as : List Action) (s : Scheduler), (∀ a ∈ as, a.shutsDown = false) →
      as.countP Action.adds < 2 ^ 32 → run step {} as = some s → s.eventList = [] →
        s.dispatched.Pairwise fun a b => a.task.cycle ≤ b.task.cycle := by
  constructor
  · intro h
    have hpopped := h [.addEvent 5, .check, .lock, .pass 5, .timeout ⟨0, 5, 1⟩] _ (by decide)
      (by decide) rfl 1
    revert hpopped
    decide
  · intro h
    have horder := h [.addEvent 5, .check, .lock, .pass 5, .timeout ⟨0, 5, 1⟩, .addEvent 4,
      .addTask, .check, .lock, .timeout ⟨1, 4, 2⟩, .addTask] _ (by decide) (by decide) rfl rfl
    revert horder
    decide

end TibiaServer.Tasks.Scheduler
