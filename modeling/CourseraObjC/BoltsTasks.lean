import Mathlib.Data.List.Count
import Mathlib.Logic.Function.Basic
import CourseraObjC.FieldOperations

/-! Tasks of Bolts as they lie on the heap: a task that has not ended keeps the blocks that
are to run after it, and hands them to executors as it ends. An executor runs a block at any
time later, so the blocks that have been handed out run in any order. -/
namespace CourseraObjC
namespace Bolts

/-- The error of a task; the errors of several tasks are put into one. -/
inductive TaskError (ε : Type)
  | one (error : ε)
  | multiple (errors : List (TaskError ε))

inductive Outcome (ε : Type)
  | result
  | error (error : TaskError ε)
  | cancelled

def Outcome.isFaulted {ε : Type} : Outcome ε → Bool
  | .error _ => true
  | _ => false

def Outcome.isCancelled {ε : Type} : Outcome ε → Bool
  | .cancelled => true
  | _ => false

/-- A block given to `continueWithBlock:`, as what it does to another task. -/
inductive Block
  -- the block of `taskForCompletionOfAllTasks:` given to one of the tasks
  | countDown (part all : ℕ)
  | setResult (task : ℕ)
  -- the block whose own work the task stands for begins this work
  | begin (task : ℕ)
  deriving DecidableEq

def Block.target : Block → ℕ
  | .countDown _ all => all
  | .setResult task => task
  | .begin task => task

/-- `total` counts the blocks that have still to run before the task goes on; a task for all
of some tasks keeps with it what it has seen of them. -/
structure BFTask (ε : Type) where
  outcome : Option (Outcome ε)
  callbacks : List Block
  total : ℕ
  errors : List (TaskError ε)
  cancelled : ℕ
  begun : Bool

namespace BFTask

variable {ε : Type}

def new : BFTask ε := ⟨none,[],0,[],0,false⟩

def completed (t : BFTask ε) : Bool := t.outcome.isSome

def faulted (t : BFTask ε) : Bool := t.outcome.any Outcome.isFaulted

def isCancelled (t : BFTask ε) : Bool := t.outcome.any Outcome.isCancelled

def goneOn (t : BFTask ε) : Bool := t.begun || t.completed

def note (t part : BFTask ε) : BFTask ε :=
  match part.outcome with
  | some (.error e) => {t with errors := t.errors++[e]}
  | some .cancelled => {t with cancelled := t.cancelled+1}
  | _ => t

@[simp] theorem note_outcome (t part : BFTask ε) : (t.note part).outcome = t.outcome := by
  rw [note]
  split <;> rfl

@[simp] theorem note_callbacks (t part : BFTask ε) : (t.note part).callbacks = t.callbacks := by
  rw [note]
  split <;> rfl

@[simp] theorem note_total (t part : BFTask ε) : (t.note part).total = t.total := by
  rw [note]
  split <;> rfl

@[simp] theorem note_begun (t part : BFTask ε) : (t.note part).begun = t.begun := by
  rw [note]
  split <;> rfl

def outcomeOfAll (t : BFTask ε) : Outcome ε :=
  match t.errors with
  | [] => if t.cancelled > 0 then .cancelled else .result
  | [e] => .error e
  | e::e'::es => .error (.multiple (e::e'::es))

theorem isFaulted_outcomeOfAll (t : BFTask ε) :
    t.outcomeOfAll.isFaulted = true ↔ t.errors ≠ [] := by
  rw [outcomeOfAll]
  cases t.errors with
  | nil =>
    by_cases hpos : t.cancelled > 0
    · simp [hpos,Outcome.isFaulted]
    · simp [hpos,Outcome.isFaulted]
  | cons e es =>
    cases es with
    | nil => simp [Outcome.isFaulted]
    | cons e' es => simp [Outcome.isFaulted]

theorem isCancelled_outcomeOfAll (t : BFTask ε) :
    t.outcomeOfAll.isCancelled = true ↔ t.errors = [] ∧ 0 < t.cancelled := by
  rw [outcomeOfAll]
  cases t.errors with
  | nil =>
    by_cases hpos : t.cancelled > 0
    · simp [hpos,Outcome.isCancelled]
    · simp [hpos,Outcome.isCancelled]
  | cons e es =>
    cases es with
    | nil => simp [Outcome.isCancelled]
    | cons e' es => simp [Outcome.isCancelled]

end BFTask

structure Heap (ε : Type) where
  tasks : ℕ → BFTask ε
  next : ℕ
  -- the blocks that executors have been given and have not run yet
  executions : List Block

namespace Heap

variable {ε : Type}

def empty : Heap ε := ⟨fun _ => .new,0,[]⟩

def change (h : Heap ε) (n : ℕ) (f : BFTask ε → BFTask ε) : Heap ε :=
  {h with tasks := Function.update h.tasks n (f (h.tasks n))}

/-- `taskCompletionSource`, with its task. -/
def newTask (h : Heap ε) : Heap ε := {h with next := h.next+1}

def alreadyCompleted : NSException :=
  FieldOperation.internalInconsistency "Cannot set the result on a completed task."

def cannotSet : Outcome ε → NSException
  | .result => alreadyCompleted
  | .error _ => FieldOperation.internalInconsistency "Cannot set the error on a completed task."
  | .cancelled => FieldOperation.internalInconsistency "Cannot cancel a completed task."

/-- `trySetResult:`, `trySetError:` and `trySetCancelled` with `runContinuations`. -/
def finish (h : Heap ε) (n : ℕ) (outcome : Outcome ε) : Heap ε :=
  {h.change n fun t => {t with outcome := some outcome,callbacks := []} with
    executions := h.executions++(h.tasks n).callbacks}

def complete (h : Heap ε) (n : ℕ) (outcome : Outcome ε) : Except NSException (Heap ε) :=
  if (h.tasks n).completed then .error (cannotSet outcome) else .ok (h.finish n outcome)

def continueWithBlock (h : Heap ε) (n : ℕ) (b : Block) : Heap ε :=
  if (h.tasks n).completed then {h with executions := h.executions++[b]}
  else h.change n fun t => {t with callbacks := t.callbacks++[b]}

def handOut (block : ℕ → Block) (h : Heap ε) (parts : List ℕ) : Heap ε :=
  parts.foldl (fun h part => h.continueWithBlock part (block part)) h

/-- The task `n` waits for blocks given to the tasks `parts`. -/
def await (h : Heap ε) (n : ℕ) (parts : List ℕ) (block : ℕ → Block) : Heap ε :=
  handOut block (h.change n fun t => {t with total := parts.length}) parts

/-- `taskWithResult:`; the new task is the one at `h.next`. -/
def taskWithResult (h : Heap ε) : Heap ε := h.newTask.finish h.next .result

def taskForCompletionOfAllTasks (h : Heap ε) (parts : List ℕ) : Heap ε :=
  if parts = [] then h.taskWithResult
  else h.newTask.await h.next parts fun part => .countDown part h.next

/-- `continueWithBlock:` for a block whose work lasts until something outside ends it. -/
def continueWithWork (h : Heap ε) (toAwait : ℕ) : Heap ε :=
  h.newTask.await h.next [toAwait] fun _ => .begin h.next

/-- The block has come to its task, and one block fewer has to run before the task goes on. -/
def arrive (h : Heap ε) : Block → Heap ε
  | .countDown part all => h.change all fun t => {t.note (h.tasks part) with total := t.total-1}
  | .setResult task => h.change task fun t => {t with total := t.total-1}
  | .begin task => h.change task fun t => {t with total := t.total-1}

def start (h : Heap ε) (n : ℕ) : Heap ε := h.change n fun t => {t with begun := true}

def runBlock (h : Heap ε) (b : Block) : Except NSException (Heap ε) :=
  let h := h.arrive b
  match b with
  | .countDown _ all =>
    if (h.tasks all).total = 0 then h.complete all (h.tasks all).outcomeOfAll else .ok h
  | .setResult task => h.complete task .result
  | .begin task => .ok (h.start task)

def taken (h : Heap ε) (k : ℕ) : Heap ε := {h with executions := h.executions.eraseIdx k}

end Heap

/-- Why a step does not come to its end: an exception, or nothing in the step's place. -/
inductive Halt
  | raised (exception : NSException)
  | impossible
  deriving DecidableEq

namespace Heap

variable {ε : Type}

def execute (h : Heap ε) (k : ℕ) : Except Halt (Heap ε) :=
  match h.executions[k]? with
  | none => .error .impossible
  | some b =>
    match (h.taken k).runBlock b with
    | .error exception => .error (.raised exception)
    | .ok h => .ok h

def workEnded (h : Heap ε) (n : ℕ) (outcome : Outcome ε) : Except Halt (Heap ε) :=
  if (h.tasks n).begun && !(h.tasks n).completed then .ok (h.finish n outcome)
  else .error .impossible

end Heap
end Bolts
end CourseraObjC
