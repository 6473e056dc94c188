/-!
# Scheduling validations

Validating the media of a script can take long, so requests run as tasks side by side, at most one
per key. A new request for a key supersedes the one before it, and cancelling a key supersedes its
request without a new one. A task makes progress when it is resumed; between two resumptions
anything may happen. A superseded task is asked to stop and ends as soon as it is resumed, unless its
validation passes over the request; its result is not delivered then either, since the task belongs to a
generation of its key that is over.

* `Scheduler.Event` and `Scheduler.step` — everything that can happen, in any order;
* `Scheduler.settle` — let every task run to its end.
-/

namespace StoryScript

/-- How far a task has come. -/
inductive TaskStatus where
  | pending
  | done
  | cancelled
  | failed
  deriving DecidableEq, Repr

def TaskStatus.name : TaskStatus → String
  | pending => "pending"
  | done => "done"
  | cancelled => "cancelled"
  | failed => "failed"

/-- A request for a key that has been submitted. -/
structure SchedulerTask (K Q : Type) where
  key : K
  request : Q
  /-- The generation of the key that the request makes. -/
  generation : Nat
  /-- How many times the task will wait before it has its result. -/
  waits : Nat
  stopRequested : Bool := false
  status : TaskStatus := .pending

/-- A result that was handed over, and the number of its task. -/
structure Delivery (K R : Type) where
  task : Nat
  key : K
  result : R

/-- Requests of type `Q` for keys of type `K`, with results of type `R`. Tasks are numbered in the
order in which they were submitted. -/
structure Scheduler (K Q R : Type) where
  tasks : List (SchedulerTask K Q) := []
  /-- How many requests and cancellations a key has had. -/
  generation : K → Nat := fun _ => 0
  /-- The number of the task that runs for a key. -/
  current : K → Option Nat := fun _ => none
  /-- The result delivered last for a key. -/
  latest : K → Option R := fun _ => none
  /-- Everything that was delivered, the first first. -/
  delivered : List (Delivery K R) := []

namespace Scheduler

variable {K Q R : Type} [DecidableEq K]

/-- A function with another value at one key. -/
def setAt (f : K → α) (key : K) (a : α) : K → α := fun k => if k = key then a else f k

/-- Ask a task to stop, unless it has ended. -/
def requestStop (number : Nat) (tasks : List (SchedulerTask K Q)) : List (SchedulerTask K Q) :=
  tasks.modify number fun t => if t.status = .pending then { t with stopRequested := true } else t

/-- Supersede the request for a key. -/
def cancel (key : K) (s : Scheduler K Q R) : Scheduler K Q R :=
  { s with
    generation := setAt s.generation key (s.generation key + 1)
    current := setAt s.current key none
    tasks := match s.current key with
      | some number => requestStop number s.tasks
      | none => s.tasks }

/-- Supersede every request that runs. -/
def cancelAll (s : Scheduler K Q R) : Scheduler K Q R :=
  { s with
    generation := fun k => if (s.current k).isSome then s.generation k + 1 else s.generation k
    current := fun _ => none
    tasks := s.tasks.zipIdx.map fun (t, number) =>
      if s.current t.key = some number && t.status = .pending then
        { t with stopRequested := true }
      else t }

/-- Submit a request for a key, in place of the one before it. -/
def submit (key : K) (request : Q) (waits : Nat) (s : Scheduler K Q R) : Scheduler K Q R :=
  let s := s.cancel key
  { s with
    tasks := s.tasks ++ [{ key, request, generation := s.generation key, waits }]
    current := setAt s.current key (some s.tasks.length) }

/-- Give a task another state. -/
def setTask (number : Nat) (t : SchedulerTask K Q) (s : Scheduler K Q R) : Scheduler K Q R :=
  { s with tasks := s.tasks.set number t }

/-- End a task that has its result; the result is delivered if its generation is not over. -/
def finish (validate : Q → R) (number : Nat) (t : SchedulerTask K Q) (s : Scheduler K Q R) :
    Scheduler K Q R :=
  let s := s.setTask number { t with status := .done }
  if s.generation t.key = t.generation then
    let result := validate t.request
    { s with
      latest := setAt s.latest t.key (some result)
      current := setAt s.current t.key none
      delivered := s.delivered ++ [⟨number, t.key, result⟩] }
  else s

/-- Let a task run to its next wait or to its end. -/
def resume (validate : Q → R) (number : Nat) (s : Scheduler K Q R) : Scheduler K Q R :=
  match s.tasks[number]? with
  | none => s
  | some t =>
    if t.status ≠ .pending then s
    else if t.stopRequested then s.setTask number { t with status := .cancelled }
    else
      match t.waits with
      | waits + 1 => s.setTask number { t with waits }
      | 0 => s.finish validate number t

/-- Let a task end with an error of its own. -/
def fail (number : Nat) (s : Scheduler K Q R) : Scheduler K Q R :=
  match s.tasks[number]? with
  | none => s
  | some t =>
    if t.status ≠ .pending then s
    else s.setTask number { t with status := if t.stopRequested then .cancelled else .failed }

/-- Let the validation of a task pass over the request to stop. -/
def ignoreStop (number : Nat) (s : Scheduler K Q R) : Scheduler K Q R :=
  { s with
    tasks := s.tasks.modify number fun t =>
      if t.status = .pending then { t with stopRequested := false } else t }

/-- What can happen. -/
inductive Event (K Q : Type) where
  | submit (key : K) (request : Q) (waits : Nat)
  | cancel (key : K)
  | cancelAll
  | resume (task : Nat)
  | fail (task : Nat)
  | ignoreStop (task : Nat)
  deriving DecidableEq

def step (validate : Q → R) (s : Scheduler K Q R) : Event K Q → Scheduler K Q R
  | .submit key request waits => s.submit key request waits
  | .cancel key => s.cancel key
  | .cancelAll => s.cancelAll
  | .resume task => s.resume validate task
  | .fail task => s.fail task
  | .ignoreStop task => s.ignoreStop task

/-- The state after a sequence of events. -/
def run (validate : Q → R) (events : List (Event K Q)) : Scheduler K Q R :=
  events.foldl (step validate) {}

/-- Resume a task until it has ended. -/
def runToEnd (validate : Q → R) : Nat → Nat → Scheduler K Q R → Scheduler K Q R
  | 0, number, s => s.resume validate number
  | waits + 1, number, s => runToEnd validate waits number (s.resume validate number)

/-- Let every task run to its end, one after the other in the order of submission. -/
def settle (validate : Q → R) (s : Scheduler K Q R) : Scheduler K Q R :=
  s.tasks.zipIdx.foldl (fun s (t, number) => runToEnd validate t.waits number s) s

end Scheduler

end StoryScript
