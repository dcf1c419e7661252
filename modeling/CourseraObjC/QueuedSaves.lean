import CourseraObjC.SaveSession
import CourseraObjC.TurnTaking

/-! Objects whose saves run when their task queues let them, one by one or in batches. The queues
hold a save back until the one before it has been answered, so that each object goes through a
run of its own session, in which no save meets the command of another. -/
namespace CourseraObjC

open Bolts

/-- What the program does to an object apart from saving it. -/
def ObjectEvent.isLocal {ν α : Type} : ObjectEvent ν α → Bool
  | .saveAsync _ => false
  | .saveInBatch => false
  | .handleSaveResult _ => false
  | _ => true

/-- What the work of an operation begins with for an object that it saves. -/
def Work.beginning {ν α : Type} (childrenDirty : Bool) : Work → Option (ObjectEvent ν α)
  | .save => some (.saveAsync childrenDirty)
  | .batch => some .saveInBatch
  | .fetch => none
  | .delete => none

inductive ClientEvent (κ ε ν α : Type)
  -- an edit, a revert, or the result of a fetch
  | object (o : κ) (e : ObjectEvent ν α)
  | enqueue (o : κ) (work : Work)
  | enqueueForObjects (objects : List κ) (work : Work)
  | waitUntilFinished (o : κ)
  -- an executor runs a block; a save whose turn comes finds that other objects are dirty or not
  | execute (k : ℕ) (childrenDirty : Bool)
  -- a command is answered, with a result or none for each object, or fails as in the outcome
  | answered (task : ℕ) (results : List (Option (FieldData ν α))) (outcome : Outcome ε)
  -- any other work ends, that of a save without a command too
  | workEnded (task : ℕ) (outcome : Outcome ε)

inductive ClientHalt
  | queue (halt : Bolts.Halt)
  | session (halt : Halt)
  | impossible
  deriving DecidableEq

/-- The saves and batches whose command has not been answered are kept by their tasks. -/
structure Client (κ ε ν α : Type) where
  queues : TaskQueues κ ε
  sessions : κ → SaveSession ν α
  sent : List ℕ

namespace TaskQueues

variable {κ ε : Type}

def operationOf (s : TaskQueues κ ε) (task : ℕ) : Option (Operation κ) :=
  s.operations.find? fun op => op.task==task

/-- The operation whose work begins as the block at `k` runs. -/
def startedOperation (s : TaskQueues κ ε) (k : ℕ) : Option (Operation κ) :=
  match s.heap.executions[k]? with
  | some (.begin task) => s.operationOf task
  | _ => none

theorem operationOf_eq_some {s : TaskQueues κ ε} {task : ℕ} {op : Operation κ}
    (h : s.operationOf task = some op) : op∈s.operations ∧ op.task = task :=
  ⟨List.mem_of_find?_eq_some h,by simpa using List.find?_some h⟩

theorem startedOperation_eq_some {s : TaskQueues κ ε} {k : ℕ} {op : Operation κ}
    (h : s.startedOperation k = some op) :
    s.heap.executions[k]? = some (.begin op.task) ∧ s.operationOf op.task = some op := by
  rw [startedOperation] at h
  split at h
  · next task hk =>
    obtain rfl := (operationOf_eq_some h).2
    exact ⟨hk,h⟩
  · cases h

section Steps

variable [DecidableEq κ] {g : ℕ → Wait} {s t : TaskQueues κ ε} {e : QueueEvent κ ε} {task : ℕ}

theorem operations_enqueueFullTask {objects : List κ} :
    (enqueueFullTask task s objects).1.operations = s.operations := by
  induction objects generalizing s with
  | nil => rfl
  | cons o objects ih =>
    rw [enqueueFullTask]
    exact ih

/-- A step adds at most one operation, on one object or on those of its event. -/
theorem operations_step (h : s.step e = .ok t) : ∃ new,t.operations = s.operations++new ∧
    ∀ op∈new,(∃ o,op.objects = [o]) ∨ e = .enqueueForObjects op.objects op.work := by
  have hnone : ∃ new,s.operations = s.operations++new ∧
      ∀ op∈new,(∃ o,op.objects = [o]) ∨ e = .enqueueForObjects op.objects op.work :=
    ⟨[],(List.append_nil _).symm,fun op hop => absurd hop List.not_mem_nil⟩
  cases e with
  | enqueue o work =>
    obtain rfl := Except.ok.inj h
    refine ⟨_,rfl,fun op hop => Or.inl ⟨o,?_⟩⟩
    rw [List.mem_singleton.mp hop]
  | enqueueForObjects objects work =>
    obtain rfl := Except.ok.inj h
    refine ⟨[⟨objects,s.heap.newTask.next,work⟩],?_,fun op hop => Or.inr ?_⟩
    · rw [enqueueForObjects]
      simp only [operations_enqueueFullTask]
    · rw [List.mem_singleton.mp hop]
  | waitUntilFinished o =>
    obtain rfl := Except.ok.inj h
    exact hnone
  | execute k =>
    obtain ⟨h',_,rfl⟩ := withHeap_eq_ok.mp h
    exact hnone
  | workEnded task outcome =>
    obtain ⟨h',_,rfl⟩ := withHeap_eq_ok.mp h
    exact hnone

theorem operationOf_step {op : Operation κ} (h : s.step e = .ok t)
    (hop : s.operationOf task = some op) : t.operationOf task = some op := by
  obtain ⟨new,hnew,_⟩ := operations_step h
  rw [operationOf] at hop ⊢
  rw [hnew,List.find?_append,hop]
  rfl

/-- Work that is going on goes on until it is itself that ends. -/
theorem going_on_step (hs : Orderly g s) (h : s.step e = .ok t) (hbegun : s.begun task = true)
    (hopen : s.completed task = false) (hother : ∀ outcome,e ≠ .workEnded task outcome) :
    t.begun task = true ∧ t.completed task = false := by
  have hlt : task < s.heap.next := by
    by_contra hle
    rw [begun,(hs.sound.wired.fresh task (Nat.le_of_not_lt hle)).1] at hbegun
    cases hbegun
  have hgrown : ∀ {g'},Grown g g' s.heap t.heap → t.begun task = true ∧ t.completed task = false := by
    intro g' hgrown
    rw [begun,completed,BFTask.completed,hgrown.begun task hlt,hgrown.outcome task hlt]
    exact ⟨hbegun,hopen⟩
  cases e with
  | enqueue o work =>
    obtain rfl := Except.ok.inj h
    obtain ⟨g',_,hg⟩ := orderly_enqueueOne o work hs
    exact hgrown hg
  | enqueueForObjects objects work =>
    obtain rfl := Except.ok.inj h
    obtain ⟨g',cs,hsig⟩ := signalled objects work hs
    exact hgrown hsig.grown
  | waitUntilFinished o =>
    obtain rfl := Except.ok.inj h
    obtain ⟨g',_,hg⟩ := orderly_waitUntilFinished o hs
    exact hgrown hg
  | execute k =>
    obtain ⟨h',hexecute,rfl⟩ := withHeap_eq_ok.mp h
    rw [Heap.execute] at hexecute
    cases hk : s.heap.executions[k]? with
    | none =>
      rw [hk] at hexecute
      cases hexecute
    | some b =>
      rw [hk] at hexecute
      have hne : task ≠ b.target := by
        rintro rfl
        have hwaits := (hs.sound.wired.open_of_mem (Wired.mem_executions hk)).2
        rw [BFTask.goneOn,show (s.heap.tasks b.target).begun = true from hbegun] at hwaits
        cases hwaits
      cases hrun : (s.heap.taken k).runBlock b with
      | error exception =>
        simp only [hrun] at hexecute
        cases hexecute
      | ok h'' =>
        simp only [hrun] at hexecute
        obtain rfl := Except.ok.inj hexecute
        rw [begun,completed,tasks_runBlock hrun hne]
        exact ⟨hbegun,hopen⟩
  | workEnded task' outcome =>
    obtain ⟨h',hend,rfl⟩ := withHeap_eq_ok.mp h
    have hne : task ≠ task' := by
      rintro rfl
      exact hother outcome rfl
    rw [Heap.workEnded] at hend
    split_ifs at hend
    obtain rfl := Except.ok.inj hend
    rw [begun,completed,Wired.tasks_finish_of_ne hne]
    exact ⟨hbegun,hopen⟩

theorem started_step {k : ℕ} (hs : Orderly g s) (h : s.step (.execute k) = .ok t)
    (hk : s.heap.executions[k]? = some (.begin task)) :
    s.begun task = false ∧ t.begun task = true ∧ t.completed task = false := by
  have hwaits := (hs.sound.wired.open_of_mem (Wired.mem_executions hk)).2
  obtain ⟨hbegun,hopen⟩ := Bool.or_eq_false_iff.mp hwaits
  obtain ⟨h',hexecute,rfl⟩ := withHeap_eq_ok.mp h
  rw [Heap.execute,hk] at hexecute
  cases hrun : (s.heap.taken k).runBlock (.begin task) with
  | error exception =>
    simp only [hrun] at hexecute
    cases hexecute
  | ok h'' =>
    simp only [hrun] at hexecute
    obtain rfl := Except.ok.inj hexecute
    obtain ⟨hstarted,houtcome⟩ := started_runBlock hrun
    refine ⟨hbegun,hstarted,?_⟩
    rw [completed,BFTask.completed,houtcome]
    exact hopen

omit [DecidableEq κ] in
theorem operation_unique {a b : Operation κ} {o : κ} (hs : Orderly g s) (ha : a∈s.operations)
    (hb : b∈s.operations) (hao : o∈a.objects) (hbo : o∈b.objects) (hbegun : s.begun a.task = true)
    (hopen : s.completed a.task = false) (hbegun' : s.begun b.task = true)
    (hopen' : s.completed b.task = false) : a = b := by
  by_contra hne
  rcases hs.exclusive ha hb hne ⟨o,hao,hbo⟩ hbegun hopen with hnot | hdone
  · rw [hbegun'] at hnot
    cases hnot
  · rw [hopen'] at hdone
    cases hdone

end Steps

end TaskQueues

namespace Client

variable {κ ε ν α : Type} [DecidableEq κ]

def initial (complete : κ → Bool) : Client κ ε ν α := ⟨.initial,fun o => .initial (complete o),[]⟩

def withQueues (c : Client κ ε ν α) (x : Except Bolts.Halt (TaskQueues κ ε)) :
    Except ClientHalt (Client κ ε ν α) :=
  match x with
  | .error halt => .error (.queue halt)
  | .ok queues => .ok {c with queues := queues}

variable [DecidableEq α] [Add ν] (E : Elements α)

def objectStep (sessions : κ → SaveSession ν α) (event : κ × ObjectEvent ν α) :
    Except Halt (κ → SaveSession ν α) :=
  match (sessions event.1).step E event.2 with
  | .error halt => .error halt
  | .ok session => .ok (Function.update sessions event.1 session)

def beginWork (c : Client κ ε ν α) (op : Operation κ) (childrenDirty : Bool) :
    Except ClientHalt (Client κ ε ν α) :=
  match op.work.beginning childrenDirty with
  | none => .ok c
  | some e =>
    match Runs.run (objectStep E) c.sessions (op.objects.map fun o => (o,e)) with
    | .error halt => .error (.session halt)
    | .ok sessions =>
      .ok {c with
        sessions := sessions
        sent := if op.objects.any fun o => (sessions o).command.isSome then op.task::c.sent
          else c.sent}

def execute (c : Client κ ε ν α) (k : ℕ) (childrenDirty : Bool) :
    Except ClientHalt (Client κ ε ν α) :=
  match c.queues.step (.execute k) with
  | .error halt => .error (.queue halt)
  | .ok queues =>
    match c.queues.startedOperation k with
    | none => .ok {c with queues := queues}
    | some op => {c with queues := queues}.beginWork E op childrenDirty

def answered (c : Client κ ε ν α) (task : ℕ) (results : List (Option (FieldData ν α)))
    (outcome : Outcome ε) : Except ClientHalt (Client κ ε ν α) :=
  match c.queues.operationOf task with
  | none => .error .impossible
  | some op =>
    if results.length = op.objects.length then
      match Runs.run (objectStep E) c.sessions
          (op.objects.zip (results.map .handleSaveResult)) with
      | .error halt => .error (.session halt)
      | .ok sessions =>
        {c with
          sessions := sessions
          sent := c.sent.filter fun t => t != task}.withQueues
            (c.queues.step (.workEnded task (if results.all Option.isSome then .result else outcome)))
    else .error .impossible

def step (c : Client κ ε ν α) : ClientEvent κ ε ν α → Except ClientHalt (Client κ ε ν α)
  | .object o e =>
    if e.isLocal then
      match objectStep E c.sessions (o,e) with
      | .error halt => .error (.session halt)
      | .ok sessions => .ok {c with sessions := sessions}
    else .error .impossible
  | .enqueue o work =>
    if work = .batch then .error .impossible else c.withQueues (c.queues.step (.enqueue o work))
  | .enqueueForObjects objects work =>
    if work = .save then .error .impossible
    else c.withQueues (c.queues.step (.enqueueForObjects objects work))
  | .waitUntilFinished o => c.withQueues (c.queues.step (.waitUntilFinished o))
  | .execute k childrenDirty => c.execute E k childrenDirty
  | .answered task results outcome =>
    if task∈c.sent then c.answered E task results outcome else .error .impossible
  | .workEnded task outcome =>
    if task∈c.sent then .error .impossible else c.withQueues (c.queues.step (.workEnded task outcome))

section Objects

variable {E} {sessions sessions' : κ → SaveSession ν α} {events : List (κ × ObjectEvent ν α)}

theorem objectStep_eq_ok {event : κ × ObjectEvent ν α} :
    objectStep E sessions event = .ok sessions' ↔ ∃ session,
      (sessions event.1).step E event.2 = .ok session ∧
        sessions' = Function.update sessions event.1 session := by
  rw [objectStep]
  cases (sessions event.1).step E event.2 with
  | error halt => simp
  | ok session => simp [eq_comm]

theorem objectSteps_eq_ok (hnodup : (events.map Prod.fst).Nodup)
    (h : Runs.run (objectStep E) sessions events = .ok sessions') :
    (∀ o,o∉events.map Prod.fst → sessions' o = sessions o) ∧
      ∀ event∈events,(sessions event.1).step E event.2 = .ok (sessions' event.1) := by
  induction events generalizing sessions with
  | nil =>
    obtain rfl := Except.ok.inj h
    exact ⟨fun o _ => rfl,fun event hevent => absurd hevent List.not_mem_nil⟩
  | cons event events ih =>
    obtain ⟨between,hfirst,hrest⟩ := Runs.run_cons_eq_ok.mp h
    obtain ⟨session,hsession,rfl⟩ := objectStep_eq_ok.mp hfirst
    rw [List.map_cons,List.nodup_cons] at hnodup
    obtain ⟨hkept,hsteps⟩ := ih hnodup.2 hrest
    constructor
    · intro o ho
      rw [List.map_cons,List.mem_cons,not_or] at ho
      rw [hkept o ho.2,Function.update_of_ne ho.1]
    · intro other hother
      rcases List.mem_cons.mp hother with rfl | hin
      · rw [hkept other.1 hnodup.1,Function.update_self]
        exact hsession
      · have hne : other.1 ≠ event.1 := by
          intro heq
          exact hnodup.1 (heq ▸ List.mem_map_of_mem hin)
        have hstep := hsteps other hin
        rw [Function.update_of_ne hne] at hstep
        exact hstep

theorem objectSteps_error {halt : Halt} (hnodup : (events.map Prod.fst).Nodup)
    (h : Runs.run (objectStep E) sessions events = .error halt) :
    ∃ event∈events,(sessions event.1).step E event.2 = .error halt := by
  induction events generalizing sessions with
  | nil => cases h
  | cons event events ih =>
    rw [List.map_cons,List.nodup_cons] at hnodup
    rw [Runs.run_cons,objectStep] at h
    cases hsession : (sessions event.1).step E event.2 with
    | error halt' =>
      rw [hsession] at h
      obtain rfl := Except.error.inj h
      exact ⟨event,List.mem_cons_self,hsession⟩
    | ok session =>
      rw [hsession] at h
      obtain ⟨other,hin,hother⟩ := ih hnodup.2 h
      have hne : other.1 ≠ event.1 := by
        intro heq
        exact hnodup.1 (heq ▸ List.mem_map_of_mem hin)
      rw [Function.update_of_ne hne] at hother
      exact ⟨other,List.mem_cons_of_mem _ hin,hother⟩

end Objects

/-- The queues of a client in order, each object in a state of its own session, and a command
there exactly while the operation that sent it is going on. -/
structure Driven (complete : κ → Bool) (c : Client κ ε ν α) : Prop where
  orderly : ∃ g,TaskQueues.Orderly g c.queues
  single : ∀ op∈c.queues.operations,op.work = .save → ∃ o,op.objects = [o]
  sent : ∀ task∈c.sent,c.queues.begun task = true ∧ c.queues.completed task = false ∧
    ∃ op,c.queues.operationOf task = some op ∧
      ∀ o∈op.objects,(c.sessions o).command.isSome = true
  commands : ∀ o,(c.sessions o).command.isSome = true →
    ∃ task∈c.sent,∃ op,c.queues.operationOf task = some op ∧ o∈op.objects
  reached : ∀ o,∃ es,Runs.run (SaveSession.step E) (.initial (complete o)) es = .ok (c.sessions o)

variable {E} {complete : κ → Bool} {c d : Client κ ε ν α}

omit [DecidableEq κ] in
theorem driven_initial : Driven E complete (initial complete : Client κ ε ν α) where
  orderly := ⟨_,TaskQueues.orderly_initial⟩
  single op hop := absurd hop List.not_mem_nil
  sent task htask := absurd htask List.not_mem_nil
  commands o ho := by cases ho
  reached o := ⟨[],rfl⟩

omit [DecidableEq κ] [DecidableEq α] [Add ν] in
theorem withQueues_eq_ok {x : Except Bolts.Halt (TaskQueues κ ε)} :
    c.withQueues x = .ok d ↔ ∃ queues,x = .ok queues ∧ d = {c with queues := queues} := by
  cases x with
  | error halt => simp [withQueues]
  | ok queues => simp [withQueues,eq_comm]

theorem Driven.reached_steps {sessions : κ → SaveSession ν α}
    {events : List (κ × ObjectEvent ν α)} (hc : Driven E complete c)
    (hnodup : (events.map Prod.fst).Nodup)
    (h : Runs.run (objectStep E) c.sessions events = .ok sessions) (o : κ) :
    ∃ es,Runs.run (SaveSession.step E) (.initial (complete o)) es = .ok (sessions o) := by
  obtain ⟨hkept,hsteps⟩ := objectSteps_eq_ok hnodup h
  obtain ⟨es,hes⟩ := hc.reached o
  by_cases ho : o∈events.map Prod.fst
  · obtain ⟨event,hin,rfl⟩ := List.mem_map.mp ho
    exact ⟨es++[event.2],Runs.run_concat_eq_ok.mpr ⟨_,hes,hsteps event hin⟩⟩
  · rw [hkept o ho]
    exact ⟨es,hes⟩

theorem Driven.single_step {e : QueueEvent κ ε} {queues : TaskQueues κ ε}
    (hc : Driven E complete c) (h : c.queues.step e = .ok queues)
    (hsingle : ∀ objects,e ≠ .enqueueForObjects objects .save) :
    ∀ op∈queues.operations,op.work = .save → ∃ o,op.objects = [o] := by
  intro op hop hwork
  obtain ⟨new,hnew,hobjects⟩ := TaskQueues.operations_step h
  rw [hnew] at hop
  rcases List.mem_append.mp hop with hop | hop
  · exact hc.single op hop hwork
  · rcases hobjects op hop with hone | hevent
    · exact hone
    · rw [hwork] at hevent
      exact absurd hevent (hsingle op.objects)

/-- A step of the queues alone, that ends the work of no operation with a command. -/
theorem Driven.queues_step {e : QueueEvent κ ε} {queues : TaskQueues κ ε}
    (hc : Driven E complete c) (h : c.queues.step e = .ok queues)
    (hsingle : ∀ objects,e ≠ .enqueueForObjects objects .save)
    (hother : ∀ task∈c.sent,∀ outcome,e ≠ .workEnded task outcome) :
    Driven E complete {c with queues := queues} where
  orderly := TaskQueues.orderly_step hc.orderly h
  single := hc.single_step h hsingle
  sent task htask := by
    obtain ⟨g,hg⟩ := hc.orderly
    obtain ⟨hbegun,hopen,op,hop,hcommands⟩ := hc.sent task htask
    obtain ⟨hbegun',hopen'⟩ := TaskQueues.going_on_step hg h hbegun hopen (hother task htask)
    exact ⟨hbegun',hopen',op,TaskQueues.operationOf_step h hop,hcommands⟩
  commands o ho := by
    obtain ⟨task,htask,op,hop,hin⟩ := hc.commands o ho
    exact ⟨task,htask,op,TaskQueues.operationOf_step h hop,hin⟩
  reached := hc.reached

theorem command_of_isLocal {s t : SaveSession ν α} {e : ObjectEvent ν α} (he : e.isLocal = true)
    (h : s.step E e = .ok t) : t.command = s.command := by
  have hobject : ∀ {x},s.withObject x = .ok t → t.command = s.command := by
    intro x hx
    obtain ⟨object,_,rfl⟩ := SaveSession.withObject_eq_ok.mp hx
    rfl
  cases e with
  | performOperation operation key => exact hobject h
  | removeObjectForKey key => exact hobject h
  | saveAsync childrenDirty => cases he
  | saveInBatch => cases he
  | handleSaveResult result => cases he
  | mergeAfterFetch result completeData => exact hobject h
  | revert childrenDirty => exact hobject h
  | revertObjectForKey key => exact hobject h

theorem Driven.object_step {o : κ} {e : ObjectEvent ν α} {sessions : κ → SaveSession ν α}
    (hc : Driven E complete c) (he : e.isLocal = true)
    (h : objectStep E c.sessions (o,e) = .ok sessions) :
    Driven E complete {c with sessions := sessions} := by
  have hrun : Runs.run (objectStep E) c.sessions [(o,e)] = .ok sessions := by
    rw [Runs.run_singleton]
    exact h
  have hone : ([(o,e)].map Prod.fst).Nodup := List.nodup_singleton o
  have hreached := hc.reached_steps hone hrun
  obtain ⟨session,hsession,rfl⟩ := objectStep_eq_ok.mp h
  have hcommand : ∀ o',(Function.update c.sessions o session o').command =
      (c.sessions o').command := by
    intro o'
    by_cases ho : o' = o
    · subst ho
      rw [Function.update_self]
      exact command_of_isLocal he hsession
    · rw [Function.update_of_ne ho]
  refine ⟨hc.orderly,hc.single,?_,?_,hreached⟩
  · intro task htask
    obtain ⟨hbegun,hopen,op,hop,hcommands⟩ := hc.sent task htask
    refine ⟨hbegun,hopen,op,hop,fun o' ho' => ?_⟩
    show (Function.update c.sessions o session o').command.isSome = true
    rw [hcommand]
    exact hcommands o' ho'
  · intro o' ho'
    change (Function.update c.sessions o session o').command.isSome = true at ho'
    rw [hcommand] at ho'
    exact hc.commands o' ho'

omit [DecidableEq κ] in
theorem Driven.no_command {op : Operation κ} {o : κ} (hc : Driven E complete c)
    (hop : op∈c.queues.operations) (ho : o∈op.objects) (hbegun : c.queues.begun op.task = true)
    (hopen : c.queues.completed op.task = false) (hnot : op.task∉c.sent) :
    (c.sessions o).command = none := by
  obtain ⟨g,hg⟩ := hc.orderly
  by_contra hsome
  obtain ⟨task,htask,op',hop',ho'⟩ := hc.commands o (Option.isSome_iff_ne_none.mpr hsome)
  obtain ⟨hmem,rfl⟩ := TaskQueues.operationOf_eq_some hop'
  obtain ⟨hbegun',hopen',_⟩ := hc.sent op'.task htask
  obtain rfl := TaskQueues.operation_unique hg hop hmem ho ho' hbegun hopen hbegun' hopen'
  exact hnot htask

omit [DecidableEq κ] in
theorem Driven.nodup {op : Operation κ} (hc : Driven E complete c)
    (hop : op∈c.queues.operations) (hbegun : c.queues.begun op.task = true) :
    op.objects.Nodup := by
  obtain ⟨g,hg⟩ := hc.orderly
  by_contra hdup
  rw [(hg.never hop hdup).1] at hbegun
  cases hbegun

omit [DecidableEq κ] [DecidableEq α] [Add ν] in
theorem fst_events (objects : List κ) (e : ObjectEvent ν α) :
    (objects.map fun o => (o,e)).map Prod.fst = objects := by
  simp [Function.comp_def]

theorem begins {s : SaveSession ν α} {work : Work} {childrenDirty : Bool} {e : ObjectEvent ν α}
    (he : work.beginning childrenDirty = some e) (hnone : s.command = none) :
    ∃ t,s.step E e = .ok t := by
  cases work with
  | save =>
    obtain rfl := Option.some.inj he
    rw [SaveSession.step,SaveSession.saveAsync,hnone]
    simp only [Option.isSome_none,Bool.false_eq_true,if_false]
    split_ifs
    · exact ⟨_,rfl⟩
    · exact ⟨_,rfl⟩
    · exact ⟨_,rfl⟩
  | batch =>
    obtain rfl := Option.some.inj he
    exact ⟨_,SaveSession.saveInBatch_eq_ok.mpr ⟨hnone,rfl⟩⟩
  | fetch => cases he
  | delete => cases he

omit [DecidableEq κ] in
/-- One object, or a batch in which each has a command. -/
theorem Driven.all_have_commands {op : Operation κ} {childrenDirty : Bool} {e : ObjectEvent ν α}
    {sessions : κ → SaveSession ν α} (hc : Driven E complete c) (hmem : op∈c.queues.operations)
    (he : op.work.beginning childrenDirty = some e)
    (hstep : ∀ o∈op.objects,(c.sessions o).step E e = .ok (sessions o))
    (hany : (op.objects.any fun o => (sessions o).command.isSome) = true) :
    ∀ o∈op.objects,(sessions o).command.isSome = true := by
  intro o ho
  cases hwork : op.work with
  | save =>
    obtain ⟨o',ho'⟩ := hc.single op hmem hwork
    rw [ho'] at hany ho
    obtain rfl := List.mem_singleton.mp ho
    simpa using hany
  | batch =>
    rw [hwork] at he
    obtain rfl := Option.some.inj he
    rw [(SaveSession.saveInBatch_eq_ok.mp (hstep o ho)).2]
    rfl
  | fetch =>
    rw [hwork] at he
    cases he
  | delete =>
    rw [hwork] at he
    cases he

theorem Driven.beginWork {op : Operation κ} (childrenDirty : Bool) (hc : Driven E complete c)
    (hop : c.queues.operationOf op.task = some op) (hbegun : c.queues.begun op.task = true)
    (hopen : c.queues.completed op.task = false) (hnot : op.task∉c.sent) :
    ∃ d,c.beginWork E op childrenDirty = .ok d ∧ Driven E complete d := by
  have hmem := (TaskQueues.operationOf_eq_some hop).1
  have hnone : ∀ o∈op.objects,(c.sessions o).command = none :=
    fun o ho => hc.no_command hmem ho hbegun hopen hnot
  rw [Client.beginWork]
  cases he : op.work.beginning (ν:=ν) (α:=α) childrenDirty with
  | none => exact ⟨c,rfl,hc⟩
  | some e =>
    have hnodup : ((op.objects.map fun o => (o,e)).map Prod.fst).Nodup := by
      rw [fst_events]
      exact hc.nodup hmem hbegun
    dsimp only
    cases hrun : Runs.run (objectStep E) c.sessions (op.objects.map fun o => (o,e)) with
    | error halt =>
      obtain ⟨event,hevent,hfails⟩ := objectSteps_error hnodup hrun
      obtain ⟨o,ho,rfl⟩ := List.mem_map.mp hevent
      obtain ⟨session,hsession⟩ := begins (E:=E) he (hnone o ho)
      rw [hsession] at hfails
      cases hfails
    | ok sessions =>
      obtain ⟨hkept,hsteps⟩ := objectSteps_eq_ok hnodup hrun
      rw [fst_events] at hkept
      have hall := hc.all_have_commands hmem he fun o ho => hsteps (o,e) (List.mem_map_of_mem ho)
      refine ⟨_,rfl,hc.orderly,hc.single,fun task htask => ?_,fun o ho => ?_,
        hc.reached_steps hnodup hrun⟩
      · have hold : task∈c.sent → c.queues.begun task = true ∧
            c.queues.completed task = false ∧ ∃ op',c.queues.operationOf task = some op' ∧
              ∀ o∈op'.objects,(sessions o).command.isSome = true := by
          intro hin
          obtain ⟨hbegun',hopen',op',hop',hcommands⟩ := hc.sent task hin
          refine ⟨hbegun',hopen',op',hop',fun o ho => ?_⟩
          have hout : o∉op.objects := by
            intro hino
            have hsome := hcommands o ho
            rw [hnone o hino] at hsome
            cases hsome
          rw [hkept o hout]
          exact hcommands o ho
        dsimp only at htask
        split_ifs at htask with hany
        · rcases List.mem_cons.mp htask with rfl | hin
          · exact ⟨hbegun,hopen,op,hop,hall hany⟩
          · exact hold hin
        · exact hold htask
      · by_cases hino : o∈op.objects
        · have hany : (op.objects.any fun o => (sessions o).command.isSome) = true :=
            List.any_eq_true.mpr ⟨o,hino,ho⟩
          refine ⟨op.task,?_,op,hop,hino⟩
          simp only [hany,if_true]
          exact List.mem_cons_self
        · dsimp only at ho
          rw [hkept o hino] at ho
          obtain ⟨task,htask,op',hop',ho'⟩ := hc.commands o ho
          refine ⟨task,?_,op',hop',ho'⟩
          dsimp only
          split_ifs
          · exact List.mem_cons_of_mem _ htask
          · exact htask

omit [DecidableEq κ] [DecidableEq α] [Add ν] in
theorem fst_answers {objects : List κ} {results : List (Option (FieldData ν α))}
    (h : results.length = objects.length) :
    (objects.zip (results.map ObjectEvent.handleSaveResult)).map Prod.fst = objects :=
  List.map_fst_zip (by rw [List.length_map,h])

omit [DecidableEq κ] [DecidableEq α] [Add ν] in
theorem answer_of_mem {objects : List κ} {results : List (Option (FieldData ν α))}
    {event : κ × ObjectEvent ν α}
    (h : event∈objects.zip (results.map ObjectEvent.handleSaveResult)) :
    event.1∈objects ∧ ∃ result,event.2 = .handleSaveResult result := by
  obtain ⟨hobject,hresult⟩ := List.of_mem_zip h
  obtain ⟨result,_,heq⟩ := List.mem_map.mp hresult
  exact ⟨hobject,result,heq.symm⟩

omit [DecidableEq κ] in
theorem command_of_answers {objects : List κ} {results : List (Option (FieldData ν α))}
    {before after : κ → SaveSession ν α} (hlength : results.length = objects.length)
    (hsteps : ∀ event∈objects.zip (results.map ObjectEvent.handleSaveResult),
      (before event.1).step E event.2 = .ok (after event.1)) :
    ∀ o∈objects,(after o).command = none := by
  intro o ho
  rw [← fst_answers hlength] at ho
  obtain ⟨event,hevent,rfl⟩ := List.mem_map.mp ho
  obtain ⟨_,result,hresult⟩ := answer_of_mem hevent
  have hstep := hsteps event hevent
  rw [hresult] at hstep
  obtain ⟨_,_,_,_,heq⟩ := SaveSession.handleSaveResult_cases hstep
  rw [heq]

theorem Driven.answered {task : ℕ} {results : List (Option (FieldData ν α))}
    {outcome : Outcome ε} (hc : Driven E complete c) (htask : task∈c.sent)
    (h : c.answered E task results outcome = .ok d) : Driven E complete d := by
  obtain ⟨g,hg⟩ := hc.orderly
  obtain ⟨hbegun,hopen,op,hop,_⟩ := hc.sent task htask
  obtain ⟨hmem,rfl⟩ := TaskQueues.operationOf_eq_some hop
  rw [Client.answered,hop] at h
  dsimp only at h
  have hlength : results.length = op.objects.length := by
    by_contra hne
    rw [if_neg hne] at h
    cases h
  rw [if_pos hlength] at h
  have hfst := fst_answers hlength
  have hnodup := hfst.symm ▸ hc.nodup hmem hbegun
  cases hrun : Runs.run (objectStep E) c.sessions
      (op.objects.zip (results.map .handleSaveResult)) with
  | error halt =>
    rw [hrun] at h
    cases h
  | ok sessions =>
    simp only [hrun] at h
    obtain ⟨queues,hqueues,rfl⟩ := withQueues_eq_ok.mp h
    obtain ⟨hkept,hsteps⟩ := objectSteps_eq_ok hnodup hrun
    rw [hfst] at hkept
    have hnone := command_of_answers hlength hsteps
    refine ⟨TaskQueues.orderly_step hc.orderly hqueues,hc.single_step hqueues (fun _ he => by cases he),
      fun task' htask' => ?_,fun o ho => ?_,hc.reached_steps hnodup hrun⟩
    · obtain ⟨hin,hne⟩ := List.mem_filter.mp htask'
      have hne' : task' ≠ op.task := by simpa using hne
      obtain ⟨hbegun',hopen',op',hop',hcommands⟩ := hc.sent task' hin
      obtain ⟨hgoing,hstill⟩ := TaskQueues.going_on_step hg hqueues hbegun' hopen' fun outcome' he =>
        hne' (QueueEvent.workEnded.inj he).1.symm
      obtain ⟨hmem',rfl⟩ := TaskQueues.operationOf_eq_some hop'
      refine ⟨hgoing,hstill,op',TaskQueues.operationOf_step hqueues hop',fun o ho => ?_⟩
      have hout : o∉op.objects := by
        intro hino
        obtain rfl := TaskQueues.operation_unique hg hmem hmem' hino ho hbegun hopen hbegun' hopen'
        exact hne' rfl
      dsimp only
      rw [hkept o hout]
      exact hcommands o ho
    · dsimp only at ho
      by_cases hino : o∈op.objects
      · rw [hnone o hino] at ho
        cases ho
      · rw [hkept o hino] at ho
        obtain ⟨task',htask',op',hop',ho'⟩ := hc.commands o ho
        refine ⟨task',List.mem_filter.mpr ⟨htask',?_⟩,op',
          TaskQueues.operationOf_step hqueues hop',ho'⟩
        have hne : task' ≠ op.task := by
          rintro rfl
          rw [hop] at hop'
          exact hino (Option.some.inj hop' ▸ ho')
        simpa using hne

theorem Driven.execute {k : ℕ} {queues : TaskQueues κ ε} (childrenDirty : Bool)
    (hc : Driven E complete c) (h : c.queues.step (.execute k) = .ok queues) :
    ∃ d,c.execute E k childrenDirty = .ok d ∧ Driven E complete d := by
  have hstep := hc.queues_step h (fun objects he => by cases he)
    fun task _ outcome he => by cases he
  cases hstarted : c.queues.startedOperation k with
  | none => exact ⟨_,by rw [Client.execute,h,hstarted],hstep⟩
  | some op =>
    obtain ⟨g,hg⟩ := hc.orderly
    obtain ⟨hk,hop⟩ := TaskQueues.startedOperation_eq_some hstarted
    obtain ⟨hbefore,hbegun,hopen⟩ := TaskQueues.started_step hg h hk
    have hnot : op.task∉c.sent := by
      intro hin
      rw [(hc.sent op.task hin).1] at hbefore
      cases hbefore
    obtain ⟨d,hd,hdriven⟩ := hstep.beginWork childrenDirty (TaskQueues.operationOf_step h hop)
      hbegun hopen hnot
    refine ⟨d,?_,hdriven⟩
    rw [Client.execute,h,hstarted]
    exact hd

theorem driven_step {e : ClientEvent κ ε ν α} (hc : Driven E complete c)
    (h : c.step E e = .ok d) : Driven E complete d := by
  have hqueues : ∀ {e},c.withQueues (c.queues.step e) = .ok d →
      (∀ objects,e ≠ .enqueueForObjects objects .save) →
      (∀ task∈c.sent,∀ outcome,e ≠ .workEnded task outcome) → Driven E complete d := by
    intro e he hsingle hother
    obtain ⟨queues,hstep,rfl⟩ := withQueues_eq_ok.mp he
    exact hc.queues_step hstep hsingle hother
  cases e with
  | object o e =>
    rw [step] at h
    split_ifs at h with he
    cases hsessions : objectStep E c.sessions (o,e) with
    | error halt =>
      simp only [hsessions] at h
      cases h
    | ok sessions =>
      simp only [hsessions] at h
      obtain rfl := Except.ok.inj h
      exact hc.object_step he hsessions
  | enqueue o work =>
    rw [step] at h
    split_ifs at h
    exact hqueues h (fun _ he => by cases he) fun _ _ _ he => by cases he
  | enqueueForObjects objects work =>
    rw [step] at h
    split_ifs at h with hwork
    exact hqueues h (fun _ he => hwork (QueueEvent.enqueueForObjects.inj he).2)
      fun _ _ _ he => by cases he
  | waitUntilFinished o =>
    rw [step] at h
    exact hqueues h (fun _ he => by cases he) fun _ _ _ he => by cases he
  | execute k childrenDirty =>
    cases hstep : c.queues.step (.execute k) with
    | error halt =>
      rw [step,Client.execute,hstep] at h
      cases h
    | ok queues =>
      obtain ⟨d',hd,hdriven⟩ := hc.execute childrenDirty hstep
      obtain rfl : d' = d := Except.ok.inj (hd.symm.trans h)
      exact hdriven
  | answered task results outcome =>
    rw [step] at h
    split_ifs at h with hin
    exact hc.answered hin h
  | workEnded task outcome =>
    rw [step] at h
    split_ifs at h with hin
    refine hqueues h (fun _ he => by cases he) fun task' htask' outcome' he => hin ?_
    rw [(QueueEvent.workEnded.inj he).1]
    exact htask'

omit [DecidableEq κ] [DecidableEq α] [Add ν] in
theorem withQueues_ne_session {x : Except Bolts.Halt (TaskQueues κ ε)} {halt : Halt} :
    c.withQueues x ≠ .error (.session halt) := by
  intro hx
  cases x with
  | error halt' => cases hx
  | ok queues => cases hx

/-- Nothing that is done to an object apart from saving it is held back or lacks a command. -/
theorem step_of_isLocal {s : SaveSession ν α} {e : ObjectEvent ν α} {halt : Halt}
    (he : e.isLocal = true) (h : s.step E e = .error halt) : ∃ exception,halt = .raised exception := by
  have hobject : ∀ {x},s.withObject x = .error halt → ∃ exception,halt = .raised exception := by
    intro x hx
    cases x with
    | error exception => exact ⟨exception,(Except.error.inj hx).symm⟩
    | ok object => cases hx
  cases e with
  | performOperation operation key => exact hobject h
  | removeObjectForKey key => exact hobject h
  | saveAsync childrenDirty => cases he
  | saveInBatch => cases he
  | handleSaveResult result => cases he
  | mergeAfterFetch result completeData => exact hobject h
  | revert childrenDirty => exact hobject h
  | revertObjectForKey key => exact hobject h

/-- An answer that finds a command raises an exception, if it does not go through. -/
theorem raised_of_command {s : SaveSession ν α} {result : Option (FieldData ν α)} {halt : Halt}
    (hsome : s.command.isSome = true) (h : s.step E (.handleSaveResult result) = .error halt) :
    ∃ exception,halt = .raised exception := by
  obtain ⟨changes,hchanges⟩ := Option.isSome_iff_exists.mp hsome
  rw [SaveSession.step,SaveSession.handleSaveResult,hchanges] at h
  cases hmerge : s.object.mergeAfterSaveWithResult E result with
  | error exception =>
    simp only [hmerge] at h
    exact ⟨exception,(Except.error.inj h).symm⟩
  | ok object =>
    simp only [hmerge] at h
    cases h

theorem Driven.answered_raised {task : ℕ} {results : List (Option (FieldData ν α))}
    {outcome : Outcome ε} {halt : Halt} (hc : Driven E complete c) (htask : task∈c.sent)
    (h : c.answered E task results outcome = .error (.session halt)) :
    ∃ exception,halt = .raised exception := by
  obtain ⟨hbegun,_,op,hop,hcommands⟩ := hc.sent task htask
  obtain ⟨hmem,rfl⟩ := TaskQueues.operationOf_eq_some hop
  rw [Client.answered,hop] at h
  dsimp only at h
  by_cases hlength : results.length = op.objects.length
  · rw [if_pos hlength] at h
    have hnodup := (fst_answers hlength).symm ▸ hc.nodup hmem hbegun
    cases hrun : Runs.run (objectStep E) c.sessions
        (op.objects.zip (results.map .handleSaveResult)) with
    | ok sessions =>
      simp only [hrun] at h
      exact absurd h withQueues_ne_session
    | error halt' =>
      simp only [hrun] at h
      obtain rfl := ClientHalt.session.inj (Except.error.inj h)
      obtain ⟨event,hevent,hfails⟩ := objectSteps_error hnodup hrun
      obtain ⟨ho,result,hresult⟩ := answer_of_mem hevent
      rw [hresult] at hfails
      exact raised_of_command (hcommands event.1 ho) hfails
  · rw [if_neg hlength] at h
    cases h

theorem session_halt_raised {e : ClientEvent κ ε ν α} {halt : Halt} (hc : Driven E complete c)
    (h : c.step E e = .error (.session halt)) : ∃ exception,halt = .raised exception := by
  cases e with
  | object o e =>
    rw [step] at h
    split_ifs at h with he
    · rw [objectStep] at h
      cases hsession : (c.sessions o).step E e with
      | error halt' =>
        simp only [hsession] at h
        obtain rfl := ClientHalt.session.inj (Except.error.inj h)
        exact step_of_isLocal he hsession
      | ok session =>
        simp only [hsession] at h
        cases h
    · cases h
  | enqueue o work =>
    rw [step] at h
    split_ifs at h
    · cases h
    · exact absurd h withQueues_ne_session
  | enqueueForObjects objects work =>
    rw [step] at h
    split_ifs at h
    · cases h
    · exact absurd h withQueues_ne_session
  | waitUntilFinished o =>
    rw [step] at h
    exact absurd h withQueues_ne_session
  | execute k childrenDirty =>
    cases hstep : c.queues.step (.execute k) with
    | error halt' =>
      rw [step,Client.execute,hstep] at h
      cases h
    | ok queues =>
      obtain ⟨d',hd,_⟩ := hc.execute childrenDirty hstep
      rw [step,hd] at h
      cases h
  | answered task results outcome =>
    rw [step] at h
    split_ifs at h with hin
    · exact hc.answered_raised hin h
    · cases h
  | workEnded task outcome =>
    rw [step] at h
    split_ifs at h with hin
    · cases h
    · exact absurd h withQueues_ne_session

/-- Whatever executors and the server do, each object goes through a run of its own session,
no save is started while a command of its object is out, be it alone or in a batch, and each
answer finds its commands. -/
theorem queues_drive_saves {es : List (ClientEvent κ ε ν α)}
    (h : Runs.run (step E) (initial complete) es = .ok c) :
    (∀ o,∃ fs,Runs.run (SaveSession.step E) (.initial (complete o)) fs = .ok (c.sessions o)) ∧
      ∀ e,c.step E e ≠ .error (.session .heldBack) ∧ c.step E e ≠ .error (.session .noCommand) := by
  have hdriven : Driven E complete c :=
    Runs.run_invariant (I:=Driven E complete) (fun _ _ _ hs ht => driven_step hs ht)
      driven_initial h
  refine ⟨hdriven.reached,fun e => ⟨fun hheld => ?_,fun hnone => ?_⟩⟩
  · obtain ⟨exception,hraised⟩ := session_halt_raised hdriven hheld
    cases hraised
  · obtain ⟨exception,hraised⟩ := session_halt_raised hdriven hnone
    cases hraised

/-- An edited object is saved, and then again in a batch with another one: the command of the
save is out, and the block that is left does not begin the batch. -/
theorem queues_drive_saves_twice :
    ∃ c,Runs.run (step (.unsaved ℕ)) (initial fun _ => true : Client ℕ ℕ ℕ ℕ)
        [.object 0 (.performOperation (.increment 1) "score"),.enqueue 0 .save,
          .enqueueForObjects [0,1] .batch,.execute 0 false] = .ok c ∧ c.sent = [1] ∧
      c.step (.unsaved ℕ) (.execute 0 false) ≠ .error (.session .heldBack) := by
  have hrun : ∃ c,Runs.run (step (.unsaved ℕ)) (initial fun _ => true : Client ℕ ℕ ℕ ℕ)
      [.object 0 (.performOperation (.increment 1) "score"),.enqueue 0 .save,
        .enqueueForObjects [0,1] .batch,.execute 0 false] = .ok c ∧ c.sent = [1] := ⟨_,rfl,rfl⟩
  obtain ⟨c,hc,hsent⟩ := hrun
  exact ⟨c,hc,hsent,((queues_drive_saves hc).2 _).1⟩

end Client
end CourseraObjC
