import Mathlib.Data.Nat.Nth
import Mathlib.Tactic.Linarith
import Mathlib.Tactic.Ring
/-!
# Think events

The global events with an interval share one task of the scheduler, which calls `think`.  A
call executes the events whose time has come and arms the next call.  An event is never
executed early, and it is on time as long as the task is armed for no later than the next
execution of every event.
-/

namespace TibiaServer.Tasks

def SCHEDULER_MINTICKS : ℤ := 50

/-- The part of `GlobalEvent` that `think` reads. -/
structure GlobalEvent where
  name : String
  interval : ℤ
  nextExecution : ℤ
  deriving DecidableEq

namespace GlobalEvent

/-- `configureEvent` for a node with an `interval`. -/
def configureEvent (name : String) (attr now : ℤ) : GlobalEvent where
  name := name
  interval := max SCHEDULER_MINTICKS attr
  nextExecution := now + max SCHEDULER_MINTICKS attr

/-- When the interval of an event that has not been executed yet began. -/
def start (e : GlobalEvent) : ℤ := e.nextExecution - e.interval

def isDue (e : GlobalEvent) (now : ℤ) : Bool := decide (e.nextExecution - now ≤ 0)

/-- The event after a call of `think`. -/
def afterThink (now : ℤ) (e : GlobalEvent) : GlobalEvent :=
  if e.isDue now then { e with nextExecution := e.nextExecution + e.interval } else e

/-- What the event adds to `nextScheduledTime`. -/
def wait (now : ℤ) (e : GlobalEvent) : ℤ :=
  if e.isDue now then e.interval else e.nextExecution - now

end GlobalEvent

/-- `thinkMap` is in the order in which the events are registered, which does not matter to the
times.  `thinkEvent` is the cycle of the task in the scheduler, `none` while `thinkEventId`
is 0. -/
structure GlobalEvents where
  thinkMap : List GlobalEvent := []
  thinkEvent : Option ℤ := none
  deriving DecidableEq

namespace GlobalEvents

/-- `registerEvent` for a think event, and its answer. -/
def registerEvent (globalEvent : GlobalEvent) (now : ℤ) (s : GlobalEvents) : GlobalEvents × Bool :=
  if s.thinkMap.any fun e => e.name = globalEvent.name then (s, false)
  else
    let thinkEvent := match s.thinkEvent with
      | none => now + SCHEDULER_MINTICKS
      | some cycle => cycle
    (⟨s.thinkMap ++ [globalEvent], some thinkEvent⟩, true)

/-- A node of the file with an `interval`, when it is configured and when it is registered. -/
structure Node where
  name : String
  attr : ℤ
  configured : ℤ
  registered : ℤ

/-- `loadFromXml`. -/
def load (nodes : List Node) : GlobalEvents :=
  nodes.foldl (fun s node => (registerEvent (.configureEvent node.name node.attr node.configured)
    node.registered s).1) {}

/-- The smaller of a time and `nextScheduledTime`, which is `none` at its largest value. -/
def earlier (nextExecutionTime : ℤ) : Option ℤ → ℤ
  | none => nextExecutionTime
  | some nextScheduledTime =>
    if nextExecutionTime < nextScheduledTime then nextExecutionTime else nextScheduledTime

/-- The loop of `think` over the events: the events after it, and `nextScheduledTime`. -/
def thinkLoop (now : ℤ) : List GlobalEvent → Option ℤ → List GlobalEvent × Option ℤ
  | [], nextScheduledTime => ([], nextScheduledTime)
  | globalEvent :: rest, nextScheduledTime =>
    let nextExecutionTime := globalEvent.nextExecution - now
    if nextExecutionTime > 0 then
      let (events, next) := thinkLoop now rest (earlier nextExecutionTime nextScheduledTime)
      (globalEvent :: events, next)
    else
      let nextExecutionTime := globalEvent.interval
      let (events, next) := thinkLoop now rest (earlier nextExecutionTime nextScheduledTime)
      ({ globalEvent with nextExecution := globalEvent.nextExecution + nextExecutionTime } ::
        events, next)

/-- A call of `think` that reads the clock at `now` and arms the next one at `done`, after the
scripts of the events. -/
def think (now done : ℤ) (s : GlobalEvents) : GlobalEvents :=
  let (thinkMap, nextScheduledTime) := thinkLoop now s.thinkMap none
  match nextScheduledTime with
  | none => { s with thinkMap := thinkMap }
  | some delay => ⟨thinkMap, some (done + delay)⟩

/-! ## One call -/

theorem thinkLoop_events (now : ℤ) (events : List GlobalEvent) (next : Option ℤ) :
    (thinkLoop now events next).1 = events.map (·.afterThink now) := by
  induction events generalizing next with
  | nil => rfl
  | cons e rest ih =>
    rw [thinkLoop, List.map_cons]
    by_cases hdue : e.nextExecution - now > 0
    · have hnot : e.isDue now = false := decide_eq_false (not_le.mpr hdue)
      simp only [if_pos hdue, ih, GlobalEvent.afterThink, hnot, Bool.false_eq_true, if_false]
    · have his : e.isDue now = true := decide_eq_true (not_lt.mp hdue)
      simp only [if_neg hdue, ih, GlobalEvent.afterThink, his, if_true]

theorem thinkLoop_cons_next (now : ℤ) (e : GlobalEvent) (rest : List GlobalEvent)
    (next : Option ℤ) : (thinkLoop now (e :: rest) next).2 =
      (thinkLoop now rest (earlier (e.wait now) next)).2 := by
  rw [thinkLoop]
  by_cases hdue : e.nextExecution - now > 0
  · have hnot : e.isDue now = false := decide_eq_false (not_le.mpr hdue)
    simp only [if_pos hdue, GlobalEvent.wait, hnot, Bool.false_eq_true, if_false]
  · have his : e.isDue now = true := decide_eq_true (not_lt.mp hdue)
    simp only [if_neg hdue, GlobalEvent.wait, his, if_true]

theorem earlier_le (t u : ℤ) : earlier t (some u) ≤ t ∧ earlier t (some u) ≤ u ∧
    (earlier t (some u) = t ∨ earlier t (some u) = u) := by
  rw [earlier]
  split_ifs with h
  · exact ⟨le_rfl, h.le, .inl rfl⟩
  · exact ⟨not_lt.mp h, le_rfl, .inr rfl⟩

/-- Started from a delay, the loop ends with the least of it and the waits. -/
theorem thinkLoop_next (now : ℤ) (events : List GlobalEvent) (t : ℤ) :
    ∃ delay, (thinkLoop now events (some t)).2 = some delay ∧ delay ≤ t ∧
      (∀ e ∈ events, delay ≤ e.wait now) ∧ (delay = t ∨ ∃ e ∈ events, delay = e.wait now) := by
  induction events generalizing t with
  | nil => exact ⟨t, rfl, le_rfl, by simp, .inl rfl⟩
  | cons e rest ih =>
    obtain ⟨delay, hnext, hle, hall, hsome⟩ := ih (earlier (e.wait now) (some t))
    obtain ⟨hwait, ht, hone⟩ := earlier_le (e.wait now) t
    refine ⟨delay, ?_, hle.trans ht, ?_, ?_⟩
    · rw [thinkLoop_cons_next, hnext]
    · rw [List.forall_mem_cons]
      exact ⟨hle.trans hwait, hall⟩
    · rcases hsome with hsame | ⟨e', he', hsame⟩
      · rcases hone with hone | hone
        · exact .inr ⟨e, List.mem_cons_self, hsame.trans hone⟩
        · exact .inl (hsame.trans hone)
      · exact .inr ⟨e', List.mem_cons_of_mem e he', hsame⟩

theorem think_thinkMap (now done : ℤ) (s : GlobalEvents) :
    (think now done s).thinkMap = s.thinkMap.map (·.afterThink now) := by
  rw [← thinkLoop_events now s.thinkMap none, think]
  rcases thinkLoop now s.thinkMap none with ⟨events, _ | delay⟩ <;> rfl

/-- A call arms the next one after the shortest wait. -/
theorem think_thinkEvent (now done : ℤ) {s : GlobalEvents} (h : s.thinkMap ≠ []) :
    ∃ delay, (think now done s).thinkEvent = some (done + delay) ∧
      (∀ e ∈ s.thinkMap, delay ≤ e.wait now) ∧ ∃ e ∈ s.thinkMap, delay = e.wait now := by
  obtain ⟨first, rest, hmap⟩ := List.exists_cons_of_ne_nil h
  obtain ⟨delay, hnext, hle, hall, hsome⟩ := thinkLoop_next now rest (first.wait now)
  rw [hmap]
  refine ⟨delay, ?_, ?_, ?_⟩
  · have hloop : (thinkLoop now s.thinkMap none).2 = some delay := by
      rw [hmap, thinkLoop_cons_next]
      exact hnext
    simp only [think, hloop]
  · rw [List.forall_mem_cons]
    exact ⟨hle, hall⟩
  · rcases hsome with hsame | ⟨e, he, hsame⟩
    · exact ⟨first, List.mem_cons_self, hsame⟩
    · exact ⟨e, List.mem_cons_of_mem first he, hsame⟩

/-- The task is armed for no later than the next execution of any event. -/
def Timely (s : GlobalEvents) : Prop :=
  ∀ cycle, s.thinkEvent = some cycle → ∀ e ∈ s.thinkMap, cycle ≤ e.nextExecution

/-! ## Runs -/

section Runs

variable (s : GlobalEvents) (now done : ℕ → ℤ)

/-- The events before call `n`, which reads the clock at `now n` and ends at `done n`. -/
def run : ℕ → GlobalEvents
  | 0 => s
  | n + 1 => think (now n) (done n) (run n)

/-- Each call comes when its task is due, at most `d` late. -/
def IsRun (d : ℤ) : Prop :=
  ∀ n, now n ≤ done n ∧ ∃ cycle, (run s now done n).thinkEvent = some cycle ∧
    cycle ≤ now n ∧ now n ≤ cycle + d

/-- Call `n` executes the event with an index. -/
def Executes (j n : ℕ) : Prop :=
  ((run s now done n).thinkMap[j]?).any (·.isDue (now n)) = true

instance (j : ℕ) : DecidablePred (Executes s now done j) := fun n =>
  inferInstanceAs (Decidable (((run s now done n).thinkMap[j]?).any _ = true))

/-- How often the event is executed in the first `n` calls. -/
def executions (j n : ℕ) : ℕ := Nat.count (Executes s now done j) n

theorem executions_succ (j n : ℕ) : executions s now done j (n + 1) =
    executions s now done j n + if Executes s now done j n then 1 else 0 :=
  Nat.count_succ _ n

variable {s now done} {j : ℕ} {e : GlobalEvent}

/-- An event of a run has moved on by its interval for each of its executions. -/
theorem run_event (now done : ℕ → ℤ) (he : s.thinkMap[j]? = some e) (n : ℕ) :
    (run s now done n).thinkMap[j]? =
      some { e with nextExecution := e.nextExecution + executions s now done j n * e.interval } := by
  induction n with
  | zero => simpa [run, executions] using he
  | succ n ih =>
    have hexecutes : Executes s now done j n ↔ GlobalEvent.isDue { e with
        nextExecution := e.nextExecution + executions s now done j n * e.interval } (now n) := by
      rw [Executes, ih, Option.any_some]
    rw [run, think_thinkMap, List.getElem?_map, ih, Option.map_some, GlobalEvent.afterThink,
      executions_succ]
    by_cases h : Executes s now done j n
    · rw [if_pos h, if_pos (hexecutes.mp h), Nat.cast_add, Nat.cast_one]
      congr 2
      ring
    · rw [if_neg h, if_neg fun hdue => h (hexecutes.mpr hdue), Nat.add_zero]

theorem executes_iff (he : s.thinkMap[j]? = some e) (n : ℕ) : Executes s now done j n ↔
    e.nextExecution + executions s now done j n * e.interval ≤ now n := by
  rw [Executes, run_event now done he, Option.any_some, GlobalEvent.isDue, decide_eq_true_eq,
    sub_nonpos]

theorem run_interval (h : ∀ e ∈ s.thinkMap, 0 < e.interval) (n : ℕ) :
    ∀ e ∈ (run s now done n).thinkMap, 0 < e.interval := by
  intro e he
  obtain ⟨j, hj, rfl⟩ := List.mem_iff_getElem.mp he
  have hlength : (run s now done n).thinkMap.length = s.thinkMap.length := by
    clear hj he
    induction n with
    | zero => rfl
    | succ n ih => rw [run, think_thinkMap, List.length_map, ih]
  have hevent := run_event now done
    (List.getElem?_eq_getElem (hlength ▸ hj : j < s.thinkMap.length)) n
  rw [List.getElem?_eq_getElem hj, Option.some_inj] at hevent
  rw [hevent]
  exact h s.thinkMap[j] (List.getElem_mem _)

/-- A run with an event moves on by at least one tick of the clock in each call. -/
theorem now_add_one_le {d : ℤ} (hrun : IsRun s now done d) (h : ∀ e ∈ s.thinkMap, 0 < e.interval)
    (he : s.thinkMap[j]? = some e) (n : ℕ) : now n + 1 ≤ now (n + 1) := by
  have hmem : (run s now done n).thinkMap ≠ [] := by
    intro hnil
    have hevent := run_event now done he n
    rw [hnil] at hevent
    exact nomatch hevent
  obtain ⟨delay, hnext, -, e', he', hdelay⟩ := think_thinkEvent (now n) (done n) hmem
  have hpos : 0 < e'.wait (now n) := by
    rw [GlobalEvent.wait]
    split_ifs with hdue
    · exact run_interval h n e' he'
    · rw [GlobalEvent.isDue, decide_eq_true_eq] at hdue
      omega
  obtain ⟨hdone, -⟩ := hrun n
  obtain ⟨-, cycle, hcycle, hle, -⟩ := hrun (n + 1)
  rw [run, hnext, Option.some_inj] at hcycle
  omega

/-- Every event is executed again and again. -/
theorem infinite_executes {d : ℤ} (hrun : IsRun s now done d)
    (h : ∀ e ∈ s.thinkMap, 0 < e.interval) (he : s.thinkMap[j]? = some e) :
    (Set.ofPred (Executes s now done j)).Infinite := by
  apply Set.infinite_of_forall_exists_gt
  intro m
  by_contra hnone
  have hnever : ∀ n, m < n → ¬Executes s now done j n := fun n hn hexec => hnone ⟨n, hexec, hn⟩
  have hcount : ∀ i, executions s now done j (m + 1 + i) = executions s now done j (m + 1) := by
    intro i
    induction i with
    | zero => rfl
    | succ i ih =>
      rw [← Nat.add_assoc, executions_succ, if_neg (hnever _ (by omega)), ih, Nat.add_zero]
  have hclock : ∀ i : ℕ, now (m + 1) + i ≤ now (m + 1 + i) := by
    intro i
    induction i with
    | zero => simp
    | succ i ih =>
      have hstep := now_add_one_le hrun h he (m + 1 + i)
      rw [← Nat.add_assoc]
      push_cast
      omega
  -- the clock passes the next execution
  let next := e.nextExecution + executions s now done j (m + 1) * e.interval
  have hpassed := hclock (next - now (m + 1)).toNat
  apply hnever (m + 1 + (next - now (m + 1)).toNat) (by omega)
  rw [executes_iff he, hcount]
  have htoNat := Int.self_le_toNat (next - now (m + 1))
  change next ≤ _
  omega

end Runs

/-! ## The events of the file -/

theorem load_induction {P : GlobalEvents → Prop} (hempty : P {})
    (hregister : ∀ s (node : Node), P s →
      P (registerEvent (.configureEvent node.name node.attr node.configured) node.registered s).1)
    (nodes : List Node) : P (load nodes) := by
  rw [load]
  generalize ({} : GlobalEvents) = s at hempty
  induction nodes generalizing s with
  | nil => exact hempty
  | cons node rest ih => exact ih _ (hregister s node hempty)

theorem load_interval (nodes : List Node) : ∀ e ∈ (load nodes).thinkMap, 0 < e.interval := by
  refine load_induction (P := fun s => ∀ e ∈ s.thinkMap, 0 < e.interval) (by simp) ?_ nodes
  intro s node hs e he
  rw [registerEvent] at he
  split_ifs at he
  · exact hs e he
  · rcases List.mem_append.mp he with hold | hnew
    · exact hs e hold
    · rw [List.mem_singleton.mp hnew]
      exact lt_of_lt_of_le (by decide) (le_max_left _ _)

/-- No event is executed early.  Where the task of every call is armed in time, the `k`-th
execution of each event is at most as late as the call that makes it. -/
theorem think_keeps_rate (nodes : List Node) {d : ℤ} {now done : ℕ → ℤ}
    (hrun : IsRun (load nodes) now done d) {j : ℕ} {e : GlobalEvent}
    (he : (load nodes).thinkMap[j]? = some e) :
    (∀ n, Executes (load nodes) now done j n →
      e.start + (executions (load nodes) now done j n + 1) * e.interval ≤ now n) ∧
    ((∀ n, Timely (run (load nodes) now done n)) → ∀ k, 0 < k →
      ∃ n, Executes (load nodes) now done j n ∧ executions (load nodes) now done j n + 1 = k ∧
        e.start + k * e.interval ≤ now n ∧ now n ≤ e.start + k * e.interval + d) := by
  have hnext : ∀ m : ℤ, e.start + (m + 1) * e.interval = e.nextExecution + m * e.interval := by
    intro m
    rw [GlobalEvent.start]
    ring
  have hearly : ∀ n, Executes (load nodes) now done j n →
      e.start + (executions (load nodes) now done j n + 1) * e.interval ≤ now n := by
    intro n hexec
    rw [hnext]
    exact (executes_iff he n).mp hexec
  refine ⟨hearly, ?_⟩
  intro htimely k hk
  have hinfinite := infinite_executes hrun (load_interval nodes) he
  let n := Nat.nth (Executes (load nodes) now done j) (k - 1)
  have hexec : Executes (load nodes) now done j n := Nat.nth_mem_of_infinite hinfinite (k - 1)
  have hcount : executions (load nodes) now done j n + 1 = k := by
    rw [executions, Nat.count_nth_of_infinite hinfinite]
    omega
  have hk' : (k : ℤ) = executions (load nodes) now done j n + 1 := by exact_mod_cast hcount.symm
  refine ⟨n, hexec, hcount, hk' ▸ hearly n hexec, ?_⟩
  obtain ⟨-, cycle, hcycle, -, hlate⟩ := hrun n
  have hmem := List.mem_of_getElem? (run_event now done he n)
  have harmed := htimely n cycle hcycle _ hmem
  rw [hk', hnext]
  exact hlate.trans (Int.add_le_add_right harmed d)

/-! ## Calls that are late -/

/-- One event with an interval of a second. -/
def effect : List Node := [⟨"Effect", 1000, 0, 0⟩]

/-- After the first call, in which nothing is due, each call is late by `l`. -/
def lateNow (l : ℤ) : ℕ → ℤ
  | 0 => 51
  | n + 1 => 1000 + l + (1000 + l) * n

theorem run_effect {l : ℤ} (hl : 0 ≤ l) (n : ℕ) :
    run (load effect) (lateNow l) (lateNow l) (n + 1) =
      ⟨[⟨"Effect", 1000, 1000 + 1000 * n⟩], some (1000 + (1000 + l) * n)⟩ := by
  induction n with
  | zero =>
    rw [Nat.cast_zero, mul_zero, mul_zero]
    rfl
  | succ n ih =>
    have hdue : ¬(1000 + 1000 * (n : ℤ) - (1000 + l + (1000 + l) * n) > 0) := by
      have hlate : 0 ≤ l * n := Int.mul_nonneg hl (Int.natCast_nonneg n)
      rw [Int.add_mul]
      omega
    have hnext : 1000 + 1000 * (n : ℤ) + 1000 = 1000 + 1000 * (n + 1 : ℕ) := by
      push_cast
      ring
    have harmed : 1000 + l + (1000 + l) * (n : ℤ) + 1000 =
        1000 + (1000 + l) * (n + 1 : ℕ) := by
      push_cast
      ring
    rw [run, ih, lateNow, think]
    simp only [thinkLoop, if_neg hdue, earlier, hnext, harmed]

theorem isRun_effect {l : ℤ} (hl : 0 ≤ l) {d : ℤ} (hd : 1 ≤ d) (hld : l ≤ d) :
    IsRun (load effect) (lateNow l) (lateNow l) d := by
  intro n
  refine ⟨le_rfl, ?_⟩
  cases n with
  | zero =>
    refine ⟨50, rfl, ?_, ?_⟩
    · rw [lateNow]
      decide
    · rw [lateNow]
      omega
  | succ n =>
    rw [run_effect hl]
    refine ⟨1000 + (1000 + l) * n, rfl, ?_, ?_⟩ <;> simp only [lateNow] <;> omega

theorem timely_effect (n : ℕ) : Timely (run (load effect) (lateNow 0) (lateNow 0) n) := by
  intro cycle hcycle e he
  cases n with
  | zero =>
    rw [← Option.some_inj.mp (hcycle : some 50 = some cycle), List.mem_singleton.mp he]
    decide
  | succ n =>
    rw [run_effect le_rfl] at hcycle he
    rw [← Option.some_inj.mp hcycle, List.mem_singleton.mp he, Int.add_zero]

/-- With calls on time the event is executed each second. -/
theorem effect_keeps_rate :
    ∃ n, Executes (load effect) (lateNow 0) (lateNow 0) 0 n ∧
      executions (load effect) (lateNow 0) (lateNow 0) 0 n + 1 = 3 ∧
      0 + 3 * 1000 ≤ lateNow 0 n ∧ lateNow 0 n ≤ 0 + 3 * 1000 + 1 := by
  have hstart : GlobalEvent.start ⟨"Effect", 1000, 1000⟩ = 0 := by decide
  have hrate := (think_keeps_rate effect (isRun_effect le_rfl le_rfl Int.one_nonneg)
    (j := 0) (e := ⟨"Effect", 1000, 1000⟩) (by decide)).2 timely_effect 3 (by decide)
  rw [hstart] at hrate
  exact hrate

/-- With each call a tick late the second execution is two ticks late. -/
theorem effect_falls_behind :
    IsRun (load effect) (lateNow 1) (lateNow 1) 1 ∧
      (∀ e ∈ (load effect).thinkMap, 1 < e.interval) ∧
      ¬∃ n, Executes (load effect) (lateNow 1) (lateNow 1) 0 n ∧
        executions (load effect) (lateNow 1) (lateNow 1) 0 n + 1 = 2 ∧
        lateNow 1 n ≤ 0 + 2 * 1000 + 1 := by
  refine ⟨isRun_effect Int.one_nonneg le_rfl le_rfl, by decide, ?_⟩
  rintro ⟨n, -, hsecond, htime⟩
  have hlater : n ≠ 0 ∧ n ≠ 1 := by
    constructor
    · rintro rfl
      exact absurd hsecond (by decide)
    · rintro rfl
      exact absurd hsecond (by decide)
  obtain ⟨m, rfl⟩ : ∃ m, n = m + 2 := ⟨n - 2, by omega⟩
  rw [lateNow] at htime
  push_cast at htime
  omega

end GlobalEvents

end TibiaServer.Tasks
