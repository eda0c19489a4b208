import SpdkKv.Types
import SpdkKv.Lib.Machine
import SpdkKv.Lib.SimpleRing

/-!
# The Queue of Deferred Tasks

`CallbackTaskQueue` holds what completions put off to the polling loop. `process_tasks` runs
the task at the tail of a ring and moves the tail on only when the task has returned, so what
a task calls finds the task itself still in the queue: `count` counts it, and another
`process_tasks` runs it again, after which the tail is moved past a task that was never run.

## Main results

* `TaskSystem.Good.step`: what a step keeps when no task calls back into the queue.
* `TaskSystem.orderly_iff`: **tasks are run once and in order exactly when** no call of
  `process_tasks` that a task makes takes a task, and no task asks for the count.
* `TaskSystem.nested_call_runs_twice`: a task that processes tasks is run twice.
-/

namespace SpdkKv

/-! ### The queue -/

/-- `kCapacity` of the queue. -/
def kTaskQueueCapacity : ℕ := 4096

instance : NeZero kTaskQueueCapacity := ⟨by decide⟩

/-- What a task is for. -/
inductive TaskType
  | rdmaSend
  | indexUpdate
  | userCallback
  deriving DecidableEq, Repr

/-- A deferred task; `execute` may be null. -/
structure Task where
  type : TaskType
  context : UInt64
  execute : Option UInt64
  deriving DecidableEq, Repr

/-- A task in the ring; tasks are numbered by the calls of `enqueue` that returned true. -/
structure QueuedTask where
  number : ℕ
  task : Task
  deriving DecidableEq, Repr

/-- What the ring holds where nothing was ever put. -/
instance : Inhabited QueuedTask := ⟨⟨0, ⟨.rdmaSend, 0, none⟩⟩⟩

/-- A call of `process_tasks` that has not returned. -/
structure ProcessCall where
  maxTasks : ℕ
  processed : ℕ
  /-- It waits for `execute` to return. -/
  executing : Bool
  deriving DecidableEq, Repr

/-- The queue with the calls on the stack and ledgers of what happened. -/
structure TaskSystem where
  queue : SimpleRing QueuedTask kTaskQueueCapacity
  /-- The calls of `process_tasks`, the innermost first. -/
  calls : List ProcessCall
  /-- The number of tasks that `enqueue` accepted. -/
  accepted : ℕ
  /-- The tasks that were taken for execution, ... -/
  taken : List ℕ
  /-- ... and those of them whose `execute` was called. -/
  started : List ℕ
  /-- The results of `count`, each with the number of tasks accepted and not taken. -/
  counted : List (ℕ × ℕ)

/-- What can happen. The first three are calls, by a task if one is being executed. -/
inductive TaskEvent
  | enqueue (task : Task)
  | processTasks (maxTasks : ℕ)
  | count
  /-- The loop of the innermost `process_tasks` goes on: it takes a task or returns. -/
  | turn
  /-- The `execute` that the innermost `process_tasks` waits for returns. -/
  | finish

namespace TaskSystem

/-- Whether code outside of `process_tasks` runs: a task, or the caller. -/
def idle (s : TaskSystem) : Bool :=
  match s.calls with
  | [] => true
  | call :: _ => call.executing

/-- The number of tasks that are being executed. -/
def running (s : TaskSystem) : ℕ := s.calls.countP ProcessCall.executing

/-- The tail moves on. -/
def retire (s : TaskSystem) : TaskSystem :=
  { s with queue := { s.queue with tail := SimpleRing.next s.queue.tail } }

/-- The state after an event, if it can happen. -/
def step (s : TaskSystem) : TaskEvent → Option TaskSystem
  | .enqueue task =>
      if s.idle then
        let r := s.queue.enqueue ⟨s.accepted, task⟩
        some { s with queue := r.1, accepted := s.accepted + r.2.toNat }
      else none
  | .processTasks maxTasks =>
      if s.idle then some { s with calls := ⟨maxTasks, 0, false⟩ :: s.calls } else none
  | .count =>
      if s.idle then
        some { s with
          counted := s.counted ++ [(s.queue.count, s.accepted - s.taken.length)] }
      else none
  | .turn =>
      match s.calls with
      | [] => none
      | call :: calls =>
          if call.executing then none
          else if call.processed < call.maxTasks ∧ s.queue.tail ≠ s.queue.head then
            let task := s.queue.cells s.queue.tail
            let s := { s with taken := s.taken ++ [task.number] }
            if task.task.execute.isSome then
              some { s with
                started := s.started ++ [task.number]
                calls := { call with executing := true } :: calls }
            else
              some { s.retire with
                calls := { call with processed := call.processed + 1 } :: calls }
          else some { s with calls := calls }
  | .finish =>
      match s.calls with
      | [] => none
      | call :: calls =>
          if call.executing then
            some { s.retire with
              calls := ⟨call.maxTasks, call.processed + 1, false⟩ :: calls }
          else none

/-- The empty queue. -/
def start : TaskSystem := ⟨SimpleRing.empty, [], 0, [], [], []⟩

/-- The numbers of the tasks in the ring. -/
def waiting (s : TaskSystem) : List ℕ := s.queue.toList.map QueuedTask.number

/-- **What the queue is for**: no task is started twice or before an earlier one, a task that
was not taken is still in the ring, and `count` tells how many these are. -/
structure Orderly (s : TaskSystem) : Prop where
  started : s.started.Pairwise (· < ·)
  kept : ∀ i < s.accepted, i ∉ s.taken → i ∈ s.waiting
  counted : ∀ c ∈ s.counted, c.1 = c.2

/-- The condition: a call of `process_tasks` that a task makes takes no task, and no task calls
`count`. -/
def Calm (s : TaskSystem) : TaskEvent → Prop
  | .turn => ∀ call calls, s.calls = call :: calls → call.executing = false → calls ≠ [] →
      call.maxTasks ≤ call.processed
  | .count => s.idle = true → s.calls = []
  | .enqueue _ | .processTasks _ | .finish => True

end TaskSystem

/-- The queue as a machine. -/
def taskMachine : Machine TaskSystem TaskEvent where
  step := TaskSystem.step

namespace TaskSystem

variable {s s' : TaskSystem}

/-! ### The invariant -/

/-- What holds while no task calls back into the queue: `retired` tasks have been left behind
by the tail, at most one more has been taken. -/
structure Good (s : TaskSystem) (retired : ℕ) : Prop where
  calls : s.calls = [] ∨ (∃ call, s.calls = [call]) ∨
    ∃ inner outer, s.calls = [inner, outer] ∧ inner.executing = false ∧ outer.executing = true
  taken : s.taken = List.range (retired + s.running)
  waiting : s.waiting = List.range' retired (s.accepted - retired)
  le : retired + s.running ≤ s.accepted
  started : s.started.Pairwise (· < ·)
  lt : ∀ i ∈ s.started, i < retired + s.running
  current : s.running = 1 →
    retired ∈ s.started ∧ (s.queue.cells s.queue.tail).task.execute.isSome
  counted : ∀ c ∈ s.counted, c.1 = c.2

theorem Good.orderly {retired : ℕ} (h : s.Good retired) : s.Orderly := by
  refine ⟨h.started, fun i hi hnot => ?_, h.counted⟩
  rw [h.taken, List.mem_range, not_lt] at hnot
  rw [h.waiting, List.mem_range'_1]
  have hle := h.le
  omega

/-- The task at the tail is the next one. -/
theorem Good.tail {retired : ℕ} (h : s.Good retired) (hne : s.queue.tail ≠ s.queue.head) :
    retired < s.accepted ∧ (s.queue.cells s.queue.tail).number = retired ∧
      s.retire.waiting = List.range' (retired + 1) (s.accepted - (retired + 1)) := by
  have hdeq : s.queue.dequeue = some (s.queue.cells s.queue.tail, s.retire.queue) := by
    rw [SimpleRing.dequeue, if_neg hne]
    rfl
  have hlist := s.queue.toList_of_dequeue hdeq
  have hwaiting := h.waiting
  rw [TaskSystem.waiting, hlist, List.map_cons] at hwaiting
  have hlt : retired < s.accepted := by
    by_contra hge
    rw [Nat.sub_eq_zero_of_le (not_lt.mp hge)] at hwaiting
    cases hwaiting
  rw [show s.accepted - retired = s.accepted - (retired + 1) + 1 by omega,
    List.range'_succ] at hwaiting
  obtain ⟨hnumber, hrest⟩ := List.cons.inj hwaiting
  exact ⟨hlt, hnumber, hrest⟩

/-- A task that is being executed is still in the ring. -/
theorem Good.tail_ne {retired : ℕ} (h : s.Good retired) (hrunning : s.running = 1) :
    s.queue.tail ≠ s.queue.head := by
  intro heq
  have hnil := s.queue.toList_eq_nil_iff.mpr heq
  have hwaiting := h.waiting
  have hle := h.le
  rw [TaskSystem.waiting, hnil, List.map_nil] at hwaiting
  have hlen := congrArg List.length hwaiting
  rw [List.length_nil, List.length_range'] at hlen
  omega

/-! ### Steps -/

/-- A task that is accepted is the last one in the ring. -/
theorem Good.enqueue {retired : ℕ} (h : s.Good retired) (task : Task) :
    Good { s with
      queue := (s.queue.enqueue ⟨s.accepted, task⟩).1
      accepted := s.accepted + (s.queue.enqueue ⟨s.accepted, task⟩).2.toNat } retired := by
  have hle := h.le
  refine ⟨h.calls, h.taken, ?_, Nat.le_add_right_of_le hle, h.started, h.lt, fun hrunning => ?_,
    h.counted⟩
  swap
  · dsimp only
    rw [SimpleRing.cells_tail_enqueue _ _ (h.tail_ne hrunning)]
    exact h.current hrunning
  have hwaiting := h.waiting
  rw [TaskSystem.waiting] at hwaiting ⊢
  dsimp only
  rw [SimpleRing.toList_enqueue, SimpleRing.enqueue_snd]
  split_ifs with hroom
  · rw [decide_eq_true hroom, List.map_append, hwaiting, Bool.toNat_true,
      show s.accepted + 1 - retired = s.accepted - retired + 1 by omega, List.range'_1_concat,
      show retired + (s.accepted - retired) = s.accepted by omega]
    rfl
  · rw [decide_eq_false hroom]
    exact hwaiting

/-- A call of `process_tasks`, by the caller or by a task. -/
theorem Good.processTasks {retired : ℕ} (h : s.Good retired) (hidle : s.idle = true)
    (maxTasks : ℕ) : Good { s with calls := ⟨maxTasks, 0, false⟩ :: s.calls } retired := by
  have hrunning : TaskSystem.running { s with calls := ⟨maxTasks, 0, false⟩ :: s.calls } =
      s.running := List.countP_cons_of_neg (by simp)
  refine ⟨?_, hrunning ▸ h.taken, h.waiting, hrunning ▸ h.le, h.started, hrunning ▸ h.lt,
    hrunning ▸ h.current, h.counted⟩
  rcases h.calls with hnil | ⟨call, hone⟩ | ⟨inner, outer, htwo, hinner, -⟩
  · exact .inr (.inl ⟨_, by rw [hnil]⟩)
  · rw [idle, hone] at hidle
    exact .inr (.inr ⟨_, call, by rw [hone], rfl, hidle⟩)
  · simp [idle, htwo, hinner] at hidle

/-- The only call takes a task: it is the next one. -/
theorem Good.take {retired : ℕ} (h : s.Good retired) {call : ProcessCall}
    (hcalls : s.calls = [call]) (hwait : call.executing = false)
    (hne : s.queue.tail ≠ s.queue.head) :
    ((s.queue.cells s.queue.tail).task.execute.isSome → Good { s with
      taken := s.taken ++ [(s.queue.cells s.queue.tail).number]
      started := s.started ++ [(s.queue.cells s.queue.tail).number]
      calls := [{ call with executing := true }] } retired) ∧
    Good { s.retire with
      taken := s.taken ++ [(s.queue.cells s.queue.tail).number]
      calls := [{ call with processed := call.processed + 1 }] } (retired + 1) := by
  have hzero : s.running = 0 := by
    rw [running, hcalls, List.countP_singleton, hwait, if_neg Bool.false_ne_true]
  obtain ⟨hlt, hnumber, hretire⟩ := h.tail hne
  have htaken := h.taken
  have hbelow := h.lt
  rw [hzero, Nat.add_zero] at htaken hbelow
  rw [hnumber, htaken, ← List.range_succ]
  refine ⟨fun hexec => ⟨.inr (.inl ⟨_, rfl⟩), rfl, h.waiting, hlt, ?_, ?_,
    fun _ => ⟨?_, hexec⟩, h.counted⟩, ⟨.inr (.inl ⟨_, rfl⟩), ?_, hretire, ?_, h.started, ?_, ?_, h.counted⟩⟩
  · refine List.pairwise_append.mpr ⟨h.started, List.pairwise_singleton _ _, fun i hi j hj => ?_⟩
    rw [List.mem_singleton.mp hj]
    exact hbelow i hi
  · intro i hi
    rcases List.mem_append.mp hi with hi | hi
    · exact (hbelow i hi).trans (Nat.lt_succ_self retired)
    · rw [List.mem_singleton.mp hi]
      exact Nat.lt_succ_self retired
  · exact List.mem_append_right _ (List.mem_singleton_self retired)
  all_goals
    have hone : TaskSystem.running { s.retire with
        taken := List.range (retired + 1)
        calls := [{ call with processed := call.processed + 1 }] } = 0 := by
      rw [running, List.countP_singleton]
      exact if_neg (by rw [hwait]; exact Bool.false_ne_true)
    rw [hone]
  · exact hlt
  · exact fun i hi => (hbelow i hi).trans (Nat.lt_succ_self retired)
  · nofun

/-- A task returns: it is left behind. -/
theorem Good.finish {retired : ℕ} (h : s.Good retired) {call : ProcessCall}
    (hcalls : s.calls = [call]) (hexec : call.executing = true) :
    Good { s.retire with calls := [⟨call.maxTasks, call.processed + 1, false⟩] }
      (retired + 1) := by
  have hone : s.running = 1 := by
    rw [running, hcalls, List.countP_singleton, if_pos hexec]
  have hzero : TaskSystem.running { s.retire with
      calls := [⟨call.maxTasks, call.processed + 1, false⟩] } = 0 := rfl
  obtain ⟨-, -, hretire⟩ := h.tail (h.tail_ne hone)
  have htaken := h.taken
  have hle := h.le
  have hlt := h.lt
  rw [hone] at htaken hle hlt
  refine ⟨.inr (.inl ⟨_, rfl⟩), ?_, hretire, ?_, h.started, ?_, ?_, h.counted⟩ <;> rw [hzero]
  · exact htaken
  · exact hle
  · exact hlt
  · nofun

/-- A call of `process_tasks` returns. -/
theorem Good.return {retired : ℕ} (h : s.Good retired) {call : ProcessCall}
    {calls : List ProcessCall} (hcalls : s.calls = call :: calls)
    (hwait : call.executing = false) : Good { s with calls := calls } retired := by
  have hrunning : TaskSystem.running { s with calls := calls } = s.running := by
    rw [running, running, hcalls]
    exact (List.countP_cons_of_neg (by rw [hwait]; exact Bool.false_ne_true)).symm
  refine ⟨?_, hrunning ▸ h.taken, h.waiting, hrunning ▸ h.le, h.started, hrunning ▸ h.lt,
    hrunning ▸ h.current, h.counted⟩
  rcases h.calls with hnil | ⟨only, hone⟩ | ⟨inner, outer, htwo, -, -⟩
  · rw [hcalls] at hnil
    cases hnil
  · rw [hcalls] at hone
    exact .inl (List.cons.inj hone).2
  · rw [hcalls] at htwo
    exact .inr (.inl ⟨outer, (List.cons.inj htwo).2⟩)

/-- What a count tells when no task is being executed. -/
theorem Good.count {retired : ℕ} (h : s.Good retired) (hcalls : s.calls = []) :
    s.queue.count = s.accepted - s.taken.length := by
  have hzero : s.running = 0 := by rw [running, hcalls, List.countP_nil]
  have hlen := congrArg List.length h.waiting
  rw [TaskSystem.waiting, List.length_map, SimpleRing.length_toList, List.length_range'] at hlen
  rw [hlen, h.taken, hzero, List.length_range, Nat.add_zero]

/-- **Every step keeps what holds while no task calls back into the queue**, if it meets the
condition. -/
theorem Good.step {retired : ℕ} (h : s.Good retired) {ev : TaskEvent} (hc : s.Calm ev)
    (hs : s.step ev = some s') : ∃ retired', s'.Good retired' := by
  cases ev with
  | enqueue task =>
      obtain ⟨-, hs⟩ := Option.ite_none_right_eq_some.mp hs
      obtain rfl := Option.some.inj hs
      exact ⟨retired, h.enqueue task⟩
  | processTasks maxTasks =>
      obtain ⟨hidle, hs⟩ := Option.ite_none_right_eq_some.mp hs
      obtain rfl := Option.some.inj hs
      exact ⟨retired, h.processTasks hidle maxTasks⟩
  | count =>
      obtain ⟨hidle, hs⟩ := Option.ite_none_right_eq_some.mp hs
      obtain rfl := Option.some.inj hs
      refine ⟨retired, h.calls, h.taken, h.waiting, h.le, h.started, h.lt, h.current, ?_⟩
      intro c hmem
      rcases List.mem_append.mp hmem with hmem | hmem
      · exact h.counted c hmem
      · rw [List.mem_singleton.mp hmem]
        exact h.count (hc hidle)
  | turn =>
      rw [TaskSystem.step] at hs
      split at hs
      · cases hs
      · next call calls hcalls =>
          obtain ⟨hwait, hs⟩ := Option.ite_none_left_eq_some.mp hs
          rw [Bool.not_eq_true] at hwait
          split_ifs at hs with htakes
          · -- only a call that is not nested takes a task
            have hnil : calls = [] := by
              by_contra hnested
              exact absurd htakes.1 (not_lt.mpr (hc call calls hcalls hwait hnested))
            subst hnil
            obtain ⟨hexec, hnull⟩ := h.take hcalls hwait htakes.2
            dsimp only at hs
            split_ifs at hs with hsome
            · obtain rfl := Option.some.inj hs
              exact ⟨retired, hexec hsome⟩
            · obtain rfl := Option.some.inj hs
              exact ⟨retired + 1, hnull⟩
          · obtain rfl := Option.some.inj hs
            exact ⟨retired, h.return hcalls hwait⟩
  | finish =>
      rw [TaskSystem.step] at hs
      split at hs
      · cases hs
      · next call calls hcalls =>
          obtain ⟨hexec, hs⟩ := Option.ite_none_right_eq_some.mp hs
          obtain rfl := Option.some.inj hs
          rcases h.calls with hnil | ⟨only, hone⟩ | ⟨inner, outer, htwo, hinner, -⟩
          · rw [hcalls] at hnil
            cases hnil
          · obtain ⟨-, rfl⟩ := List.cons.inj (hcalls.symm.trans hone)
            exact ⟨retired + 1, h.finish hcalls hexec⟩
          · obtain ⟨rfl, -⟩ := List.cons.inj (hcalls.symm.trans htwo)
            rw [hinner] at hexec
            cases hexec

/-- **A step that does not meet the condition breaks what the queue is for.** -/
theorem Good.breaks {retired : ℕ} (h : s.Good retired) {ev : TaskEvent} (hc : ¬ s.Calm ev)
    (hs : s.step ev = some s') : ¬ s'.Orderly := by
  cases ev with
  | enqueue | processTasks | finish => exact absurd trivial hc
  | count =>
      obtain ⟨hidle, hs⟩ := Option.ite_none_right_eq_some.mp hs
      obtain rfl := Option.some.inj hs
      intro hord
      have hcount := hord.counted _ (List.mem_append_right _ (List.mem_singleton_self _))
      -- the task that asks is counted, although it was taken
      have hrunning : s.running = 1 := by
        rcases h.calls with hnil | ⟨call, hone⟩ | ⟨inner, outer, htwo, hinner, -⟩
        · exact absurd (fun _ => hnil) hc
        · rw [idle, hone] at hidle
          rw [running, hone, List.countP_singleton, if_pos hidle]
        · simp [idle, htwo, hinner] at hidle
      have hlen := congrArg List.length h.waiting
      have hle := h.le
      rw [TaskSystem.waiting, List.length_map, SimpleRing.length_toList,
        List.length_range'] at hlen
      dsimp only at hcount
      rw [hlen, h.taken, List.length_range] at hcount
      omega
  | turn =>
      rw [TaskSystem.step] at hs
      split at hs
      · cases hs
      · next call calls hcalls =>
          simp only [Calm, not_forall, not_le] at hc
          obtain ⟨call', calls', hcalls', -, hnested, hlt⟩ := hc
          obtain ⟨rfl, rfl⟩ := List.cons.inj (hcalls.symm.trans hcalls')
          obtain ⟨-, hs⟩ := Option.ite_none_left_eq_some.mp hs
          -- the task at the tail is the one that is being executed
          have hrunning : s.running = 1 := by
            rcases h.calls with hnil | ⟨only, hone⟩ | ⟨inner, outer, htwo, hinner, houter⟩
            · rw [hcalls] at hnil
              cases hnil
            · exact absurd (List.cons.inj (hcalls.symm.trans hone)).2 hnested
            · rw [running, htwo, List.countP_cons_of_neg (by rw [hinner]; exact
                Bool.false_ne_true), List.countP_singleton, if_pos houter]
          obtain ⟨-, hnumber, -⟩ := h.tail (h.tail_ne hrunning)
          obtain ⟨hmem, hsome⟩ := h.current hrunning
          rw [if_pos ⟨hlt, h.tail_ne hrunning⟩] at hs
          dsimp only at hs
          rw [if_pos hsome, hnumber] at hs
          obtain rfl := Option.some.inj hs
          intro hord
          have hpair := (List.pairwise_append.mp hord.started).2.2
          exact absurd (hpair retired hmem retired (List.mem_singleton_self _)) (lt_irrefl _)

theorem Good.start : start.Good 0 := by
  refine ⟨.inl rfl, rfl, ?_, le_rfl, List.Pairwise.nil, nofun, nofun, nofun⟩
  rw [TaskSystem.waiting, TaskSystem.start, SimpleRing.toList_empty]
  rfl

/-- An event that cannot happen meets the condition. -/
theorem calm_of_disabled {ev : TaskEvent} (hs : s.step ev = none) : s.Calm ev := by
  cases ev with
  | enqueue | processTasks | finish => trivial
  | count =>
      intro hidle
      rw [TaskSystem.step, if_pos hidle] at hs
      cases hs
  | turn =>
      intro call calls hcalls hwait
      rw [TaskSystem.step, hcalls] at hs
      dsimp only at hs
      rw [hwait, if_neg Bool.false_ne_true] at hs
      split_ifs at hs

/-! ### Runs -/

/-- **Tasks are run once and in order exactly when** no call of `process_tasks` that a task
makes takes a task, and no task asks for the count: whatever else tasks put into the queue,
also when it is full or wraps around. -/
theorem orderly_iff (evs : List TaskEvent) :
    taskMachine.Always Orderly start evs ↔ taskMachine.Meets Calm start evs := by
  refine taskMachine.always_iff_meets_of_breaks (fun s => ∃ retired, s.Good retired) ?_ ?_ ?_
    (fun _ _ hs => calm_of_disabled hs) ⟨0, Good.start⟩
  · rintro s ⟨retired, h⟩
    exact h.orderly
  · rintro s ev s' ⟨retired, h⟩ hc hs
    exact h.step hc hs
  · rintro s ev s' ⟨retired, h⟩ hc hs
    exact h.breaks hc hs

/-- A task with a function. -/
def sampleTask : Task := ⟨.userCallback, 0, some 1⟩

/-- Two tasks wait, and the first of them calls `process_tasks`. -/
def taskProcessesTasks : List TaskEvent :=
  [.enqueue sampleTask, .enqueue sampleTask, .processTasks 64, .turn, .processTasks 64, .turn,
    .finish, .turn, .finish, .turn, .finish]

/-- **A task that processes tasks is run twice**; afterwards the tail has passed the head, and
the empty queue counts 4095 tasks. -/
theorem nested_call_runs_twice :
    ∃ s, taskMachine.run start taskProcessesTasks = some s ∧ s.started = [0, 0, 1] ∧
      s.queue.count = 4095 ∧ ¬ s.Orderly := by
  have hrun : (taskMachine.run start taskProcessesTasks).map (fun s =>
      (s.started, s.queue.count)) = some ([0, 0, 1], 4095) := by
    decide +kernel
  obtain ⟨s, hs, heq⟩ := Option.map_eq_some_iff.mp hrun
  obtain ⟨hstarted, hcount⟩ := Prod.mk.inj heq
  refine ⟨s, hs, hstarted, hcount, fun hord => ?_⟩
  have hpair := hord.started
  rw [hstarted] at hpair
  exact absurd hpair (by decide)

end TaskSystem

end SpdkKv
