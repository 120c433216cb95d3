/-!
# Tasks over time

Tasks are polled one at a time, in the order in which they were woken. Time passes only when no task can go on:
then it moves to the earliest alarm, and the tasks whose alarm it is are woken in the order in which they set it.
-/

namespace PageAudit

/-- Tasks that share a state. -/
structure TaskSystem (State Task : Type) where
  /-- A task does all that it can do at present. -/
  poll : Task → State → State
  /-- The tasks that can go on because of a poll, given the states before and after it. -/
  woken : Task → State → State → List Task
  /-- When a task that waits can go on at the latest. -/
  due? : Task → State → Option Nat
  /-- Lets time pass. -/
  elapse : Nat → State → State

/-- A state with the tasks to be polled and the alarms of those that wait. -/
structure Execution (State Task : Type) where
  state : State
  queue : List Task := []
  alarms : List (Nat × Task) := []

/-- Adds tasks at the end, each once. -/
def enqueue {Task : Type} [DecidableEq Task] (queue : List Task) (tasks : List Task) : List Task :=
  tasks.foldl (fun queue t => if queue.contains t then queue else queue ++ [t]) queue

namespace Execution

variable {State Task : Type} [DecidableEq Task]

/-- The alarms after a task was polled. One that stays the same keeps its place. -/
def setAlarm (alarms : List (Nat × Task)) (t : Task) : Option Nat → List (Nat × Task)
  | none => alarms.filter (·.2 != t)
  | some due => if alarms.contains (due, t) then alarms else alarms.filter (·.2 != t) ++ [(due, t)]

/-- Polls a task; `rest` is the queue without it. -/
def pollTask (sys : TaskSystem State Task) (x : Execution State Task) (t : Task) (rest : List Task) :
    Execution State Task :=
  let after := sys.poll t x.state
  { state := after
    queue := enqueue rest (sys.woken t x.state after)
    alarms := setAlarm x.alarms t (sys.due? t after) }

/-- The earliest alarm. -/
def nextAlarm? (x : Execution State Task) : Option Nat :=
  (x.alarms.map (·.1)).min?

/-- Moves to a time and wakes the tasks whose alarm it is. -/
def advance (sys : TaskSystem State Task) (x : Execution State Task) (now : Nat) : Execution State Task :=
  { state := sys.elapse now x.state
    queue := enqueue x.queue ((x.alarms.filter (·.1 ≤ now)).map (·.2))
    alarms := x.alarms.filter (now < ·.1) }

/-- One step up to a time limit: a poll, or else the next alarm. None if nothing goes on before the limit. -/
def step? (sys : TaskSystem State Task) (limit : Option Nat) (x : Execution State Task) :
    Option (Execution State Task) :=
  match x.queue with
  | t :: rest => some (x.pollTask sys t rest)
  | [] =>
    match x.nextAlarm? with
    | none => none
    | some now => if limit.any (· < now) then none else some (x.advance sys now)

/-- Goes on up to a time limit, until `stop` holds, and for at most `fuel` steps. -/
def run (sys : TaskSystem State Task) (stop : State → Bool) (limit : Option Nat) :
    Nat → Execution State Task → Execution State Task
  | 0, x => x
  | fuel + 1, x =>
    if stop x.state then x
    else
      match x.step? sys limit with
      | some x => run sys stop limit fuel x
      | none => x

/-- Goes on to each of some times and looks at the state, and then on until `stop` holds. -/
def observe (sys : TaskSystem State Task) (stop : State → Bool)
    (fuel : Nat) : List Nat → Execution State Task → List (Nat × State) × State
  | [], x => ([], (x.run sys stop none fuel).state)
  | t :: rest, x =>
    let x := x.run sys (fun _ => false) (some t) fuel
    let (seen, last) := x.observe sys stop fuel rest
    ((t, x.state) :: seen, last)

end Execution

end PageAudit
