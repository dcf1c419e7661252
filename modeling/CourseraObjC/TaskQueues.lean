import CourseraObjC.Runs
import CourseraObjC.BoltsTasks

/-! The task queues of Parse objects: each operation waits for the tail of the queue of each
object it is about, and the new tails wait for it. -/
namespace CourseraObjC

open Bolts

inductive Work
  | save
  -- the saves of several objects in one command
  | batch
  | fetch
  | delete
  deriving DecidableEq

structure Operation (κ : Type) where
  objects : List κ
  task : ℕ
  work : Work
  deriving DecidableEq

/-- The queues of all objects; the operations are those enqueued so far, oldest first. -/
structure TaskQueues (κ ε : Type) where
  heap : Heap ε
  tails : κ → Option ℕ
  operations : List (Operation κ)

inductive QueueEvent (κ ε : Type)
  -- an operation on one object in the background
  | enqueue (object : κ) (work : Work)
  -- one on several: a batch of saves, `fetchAll` or `deleteAll`
  | enqueueForObjects (objects : List κ) (work : Work)
  | waitUntilFinished (object : κ)
  -- an executor runs a block
  | execute (k : ℕ)
  -- the work of an operation ends
  | workEnded (task : ℕ) (outcome : Outcome ε)

namespace TaskQueues

variable {κ ε : Type} [DecidableEq κ]

def initial : TaskQueues κ ε := ⟨.empty,fun _ => none,[]⟩

def oldTail (s : TaskQueues κ ε) (object : κ) : Heap ε × ℕ :=
  match s.tails object with
  | some tail => (s.heap,tail)
  | none => (s.heap.taskWithResult,s.heap.next)

/-- `enqueue:`; `taskStart` gives the new task, and may make it. -/
def enqueue (s : TaskQueues κ ε) (object : κ) (taskStart : Heap ε → ℕ → Heap ε × ℕ) :
    TaskQueues κ ε × ℕ :=
  let (h,toAwait) := s.oldTail object
  let (h,task) := taskStart h toAwait
  ({s with
    heap := h.taskForCompletionOfAllTasks [toAwait,task]
    tails := Function.update s.tails object (some h.next)},task)

/-- The loop of `_enqueue:forObjects:`; the child tasks are the old tails. -/
def enqueueFullTask (fullTask : ℕ) : TaskQueues κ ε → List κ → TaskQueues κ ε × List ℕ
  | s,[] => (s,[])
  | s,object::objects =>
    let toAwait := (s.oldTail object).2
    let rest := enqueueFullTask fullTask (s.enqueue object fun h _ => (h,fullTask)).1 objects
    (rest.1,toAwait::rest.2)

def enqueueForObjects (s : TaskQueues κ ε) (objects : List κ) (work : Work) : TaskQueues κ ε :=
  let readyToStart := s.heap.next
  let fullTask := s.heap.newTask.next
  let (s,childTasks) :=
    enqueueFullTask fullTask {s with heap := s.heap.newTask.continueWithWork readyToStart} objects
  let allReady := s.heap.next
  {s with
    heap := (s.heap.taskForCompletionOfAllTasks childTasks).await readyToStart [allReady]
      fun _ => .setResult readyToStart
    operations := s.operations++[⟨objects,fullTask,work⟩]}

/-- An operation on one object awaits the tail itself. -/
def enqueueOne (s : TaskQueues κ ε) (object : κ) (work : Work) : TaskQueues κ ε :=
  let (s,task) := s.enqueue object fun h toAwait => (h.continueWithWork toAwait,h.next)
  {s with operations := s.operations++[⟨[object],task,work⟩]}

/-- The new task is the one that is awaited. -/
def waitUntilFinished (s : TaskQueues κ ε) (object : κ) : TaskQueues κ ε :=
  (s.enqueue object fun h toAwait => (h,toAwait)).1

def withHeap (s : TaskQueues κ ε) (x : Except Bolts.Halt (Heap ε)) :
    Except Bolts.Halt (TaskQueues κ ε) :=
  match x with
  | .error halt => .error halt
  | .ok h => .ok {s with heap := h}

def step (s : TaskQueues κ ε) : QueueEvent κ ε → Except Bolts.Halt (TaskQueues κ ε)
  | .enqueue object work => .ok (s.enqueueOne object work)
  | .enqueueForObjects objects work => .ok (s.enqueueForObjects objects work)
  | .waitUntilFinished object => .ok (s.waitUntilFinished object)
  | .execute k => s.withHeap (s.heap.execute k)
  | .workEnded task outcome => s.withHeap (s.heap.workEnded task outcome)

def completed (s : TaskQueues κ ε) (task : ℕ) : Bool := (s.heap.tasks task).completed

def begun (s : TaskQueues κ ε) (task : ℕ) : Bool := (s.heap.tasks task).begun

/-- Executors have nothing left to run, and all work that has begun has ended. -/
def AtRest (s : TaskQueues κ ε) : Prop :=
  s.heap.executions = [] ∧ ∀ n < s.heap.next,s.begun n = true → s.completed n = true

end TaskQueues
end CourseraObjC
