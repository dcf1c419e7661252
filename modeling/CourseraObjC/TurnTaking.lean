import CourseraObjC.QueueOrder

/-! Runs of the task queues. Whatever the executors do first and however the work ends, the
operations on one object take turns, no task is set twice, the tail of a queue tells of the
failures in it, and what was enqueued comes to its end unless an operation was put twice into
one queue: then it waits for itself. -/
namespace CourseraObjC

open Bolts

namespace TaskQueues

variable {κ ε : Type} {g : ℕ → Wait} {s t : TaskQueues κ ε}

theorem Orderly.later {h' : Heap ε} (hs : Orderly g s) (hsound : Sound g h')
    (hwaiting : Waiting h') (hlater : Later s.heap h') : Orderly g {s with heap := h'} where
  sound := hsound
  waiting := hwaiting
  covered o := by
    obtain ⟨l,hl,hmem⟩ := hs.covered o
    refine ⟨l,?_,hmem⟩
    show TailCovers g h' (s.tails o) l
    cases htail : s.tails o with
    | none =>
      rw [htail] at hl
      exact hl
    | some t =>
      rw [htail] at hl
      exact Covers.later hlater hl
  inTurn := hs.inTurn
  grounded hnodup n _ := by
    rcases Nat.lt_or_ge n s.heap.next with hlt | hge
    · exact hs.grounded hnodup n hlt
    · refine Acc.intro n fun d hd => ?_
      rw [WaitGraph.Waits,waits,(hs.sound.wired.fresh n hge).2] at hd
      exact absurd hd List.not_mem_nil
  knotted := hs.knotted
  there op hop := (hs.there op hop).trans_le hlater.next

theorem withHeap_eq_ok {x : Except Bolts.Halt (Heap ε)} :
    s.withHeap x = .ok t ↔ ∃ h,x = .ok h ∧ t = {s with heap := h} := by
  cases x with
  | error halt => simp [withHeap]
  | ok h => simp [withHeap,eq_comm]

theorem Orderly.turns (hs : Orderly g s) :
    s.operations.Pairwise fun earlier later => Share earlier later →
      s.begun later.task = true → s.completed earlier.task = true := by
  refine hs.inTurn.imp fun {earlier later} hturn hshare hbegun => ?_
  obtain ⟨d,hd,hrest⟩ := Relation.TransGen.head'_iff.mp (hturn hshare)
  have hgone : (s.heap.tasks later.task).goneOn = true := by
    rw [BFTask.goneOn,show (s.heap.tasks later.task).begun = true from hbegun,Bool.true_or]
  have hdone := hs.sound.wired.completed_of_goneOn hgone d hd
  exact hs.sound.respects.of_reaches hrest hdone

theorem Orderly.exclusive {a b : Operation κ} (hs : Orderly g s) (ha : a∈s.operations)
    (hb : b∈s.operations) (hab : a ≠ b) (hshare : Share a b) (hbegun : s.begun a.task = true)
    (hopen : s.completed a.task = false) :
    s.begun b.task = false ∨ s.completed b.task = true := by
  by_contra hnot
  push Not at hnot
  obtain ⟨hbbegun,hbopen⟩ : s.begun b.task = true ∧ s.completed b.task = false := by
    simpa using hnot
  obtain ⟨i,hi,rfl⟩ := List.getElem_of_mem ha
  obtain ⟨j,hj,rfl⟩ := List.getElem_of_mem hb
  rcases Nat.lt_trichotomy i j with hij | rfl | hji
  · have hturn := List.pairwise_iff_getElem.mp hs.turns i j hi hj hij hshare hbbegun
    rw [hopen] at hturn
    cases hturn
  · exact hab rfl
  · obtain ⟨o,hoa,hob⟩ := hshare
    have hturn := List.pairwise_iff_getElem.mp hs.turns j i hj hi hji ⟨o,hob,hoa⟩ hbegun
    rw [hbopen] at hturn
    cases hturn

theorem Orderly.never {op : Operation κ} (hs : Orderly g s) (hop : op∈s.operations)
    (hdup : ¬op.objects.Nodup) : s.begun op.task = false ∧ s.completed op.task = false :=
  Bool.or_eq_false_iff.mp (hs.sound.circles op.task (hs.knotted op hop hdup))

theorem Orderly.all_end (hs : Orderly g s) (hrest : s.AtRest)
    (hnodup : ∀ op∈s.operations,op.objects.Nodup) :
    ∀ op∈s.operations,s.completed op.task = true := by
  have hat : WaitGraph.AtRest (waits g)
      fun n => n < s.heap.next → (s.heap.tasks n).completed = true := by
    intro n hn
    push Not at hn
    obtain ⟨hlt,hopen⟩ := hn
    obtain ⟨d,hd,hdlt,hdopen⟩ := atRest hs.sound hs.waiting hrest.1 hrest.2 hlt
      (by simpa using hopen)
    refine ⟨d,hd,fun hdone => ?_⟩
    rw [hdone hdlt] at hdopen
    exact absurd hdopen (by decide)
  intro op hop
  have hlt := hs.there op hop
  exact hat.done_of_grounded (hs.grounded hnodup op.task hlt) hlt

section Runs

variable [DecidableEq κ] {es : List (QueueEvent κ ε)}

theorem orderly_step {e : QueueEvent κ ε} (hs : ∃ g,Orderly g s) (h : s.step e = .ok t) :
    ∃ g,Orderly g t := by
  obtain ⟨g,hs⟩ := hs
  cases e with
  | enqueue object work =>
    obtain rfl := Except.ok.inj h
    obtain ⟨g',hs',_⟩ := orderly_enqueueOne object work hs
    exact ⟨g',hs'⟩
  | enqueueForObjects objects work =>
    obtain rfl := Except.ok.inj h
    obtain ⟨g',cs,hsignalled⟩ := signalled objects work hs
    exact ⟨g',hsignalled.orderly hs⟩
  | waitUntilFinished object =>
    obtain rfl := Except.ok.inj h
    obtain ⟨g',hs',_⟩ := orderly_waitUntilFinished object hs
    exact ⟨g',hs'⟩
  | execute k =>
    obtain ⟨h',hexecute,rfl⟩ := withHeap_eq_ok.mp h
    cases hk : s.heap.executions[k]? with
    | none =>
      rw [Heap.execute,hk] at hexecute
      cases hexecute
    | some b =>
      obtain ⟨h'',hok,hsound,hwaiting,hlater⟩ := execute_spec hs.sound hs.waiting hk
      obtain rfl : h'' = h' := Except.ok.inj (hok.symm.trans hexecute)
      exact ⟨g,hs.later hsound hwaiting hlater⟩
  | workEnded task outcome =>
    obtain ⟨h',hend,rfl⟩ := withHeap_eq_ok.mp h
    obtain ⟨hsound,hwaiting,hlater⟩ := workEnded_spec hs.sound hs.waiting hend
    exact ⟨g,hs.later hsound hwaiting hlater⟩

theorem orderly_run (h : Runs.run step (initial : TaskQueues κ ε) es = .ok s) :
    ∃ g,Orderly g s :=
  Runs.run_invariant (I:=fun s => ∃ g,Orderly g s) (fun _ _ _ hs h => orderly_step hs h)
    ⟨_,orderly_initial⟩ h

/-- The operations on one object take turns in the order in which they were enqueued,
whichever way the work of each ends. -/
theorem operations_take_turns (h : Runs.run step (initial : TaskQueues κ ε) es = .ok s) :
    s.operations.Pairwise fun earlier later => Share earlier later →
      s.begun later.task = true → s.completed earlier.task = true := by
  obtain ⟨g,hs⟩ := orderly_run h
  exact hs.turns

theorem operations_take_turns_cancelled :
    ∃ s,Runs.run step (initial : TaskQueues ℕ ℕ) [.enqueue 0 .save,.enqueue 0 .save,.execute 0,
        .execute 0,.workEnded 1 .cancelled,.execute 0,.execute 0] = .ok s ∧
      s.begun 3 = true ∧ s.completed 1 = true := by
  have hrun : ∃ s,Runs.run step (initial : TaskQueues ℕ ℕ) [.enqueue 0 .save,.enqueue 0 .save,
      .execute 0,.execute 0,.workEnded 1 .cancelled,.execute 0,.execute 0] = .ok s ∧
      s.begun 3 = true ∧ s.operations = [⟨[0],1,.save⟩,⟨[0],3,.save⟩] := ⟨_,rfl,rfl,rfl⟩
  obtain ⟨s,hs,hbegun,hoperations⟩ := hrun
  have hturns := operations_take_turns hs
  rw [hoperations] at hturns
  exact ⟨s,hs,hbegun,(List.pairwise_cons.mp hturns).1 ⟨[0],3,.save⟩ List.mem_cons_self
    ⟨0,List.mem_cons_self,List.mem_cons_self⟩ hbegun⟩

/-- No step of a run raises. -/
theorem no_task_set_twice (h : Runs.run step (initial : TaskQueues κ ε) es = .ok s)
    (e : QueueEvent κ ε) (exception : NSException) : s.step e ≠ .error (.raised exception) := by
  obtain ⟨g,hs⟩ := orderly_run h
  intro hraised
  cases e with
  | enqueue object work => cases hraised
  | enqueueForObjects objects work => cases hraised
  | waitUntilFinished object => cases hraised
  | execute k =>
    cases hk : s.heap.executions[k]? with
    | none =>
      rw [step,Heap.execute,hk] at hraised
      cases hraised
    | some b =>
      obtain ⟨h',hok,_⟩ := execute_spec hs.sound hs.waiting hk
      rw [step,hok] at hraised
      cases hraised
  | workEnded task outcome =>
    rw [step,Heap.workEnded] at hraised
    split_ifs at hraised with hguard
    · cases hraised
    · cases hraised

theorem no_task_set_twice_ended :
    ∃ s,Runs.run step (initial : TaskQueues ℕ ℕ) [.enqueue 0 .save,.execute 0,.workEnded 1 .result] =
        .ok s ∧ s.step (.workEnded 1 .result) ≠ .error (.raised Heap.alreadyCompleted) := by
  have hrun : ∃ s,Runs.run step (initial : TaskQueues ℕ ℕ)
      [.enqueue 0 .save,.execute 0,.workEnded 1 .result] = .ok s := ⟨_,rfl⟩
  obtain ⟨s,hs⟩ := hrun
  exact ⟨s,hs,no_task_set_twice hs _ _⟩

/-- In every state of a run, an operation that names an object twice has neither begun its work
nor ended; and at rest everything has ended if and only if there is none. -/
theorem all_end_iff (h : Runs.run step (initial : TaskQueues κ ε) es = .ok s) :
    (∀ op∈s.operations,¬op.objects.Nodup → s.begun op.task = false ∧ s.completed op.task = false) ∧
    (s.AtRest → ((∀ op∈s.operations,s.completed op.task = true) ↔
      ∀ op∈s.operations,op.objects.Nodup)) := by
  obtain ⟨g,hs⟩ := orderly_run h
  refine ⟨fun op => hs.never,fun hrest => ⟨fun hall op hop => ?_,hs.all_end hrest⟩⟩
  by_contra hdup
  have hopen := (hs.never hop hdup).2
  rw [hall op hop] at hopen
  exact absurd hopen (by decide)

theorem all_end_iff_twice :
    ∃ s,Runs.run step (initial : TaskQueues ℕ ℕ)
        [.enqueueForObjects [0,0] .fetch,.execute 0,.execute 0] = .ok s ∧ s.AtRest ∧
      s.completed 1 = false ∧ ¬∀ op∈s.operations,s.completed op.task = true := by
  have hrun : ∃ s,Runs.run step (initial : TaskQueues ℕ ℕ)
      [.enqueueForObjects [0,0] .fetch,.execute 0,.execute 0] = .ok s ∧ s.AtRest ∧
      s.operations = [⟨[0,0],1,.fetch⟩] := ⟨_,rfl,⟨rfl,by decide⟩,rfl⟩
  obtain ⟨s,hs,hrest,hoperations⟩ := hrun
  obtain ⟨hnever,hall⟩ := all_end_iff hs
  rw [hoperations] at hnever hall
  refine ⟨s,hs,hrest,(hnever _ List.mem_cons_self (by decide)).2,?_⟩
  rw [hoperations,hall hrest]
  decide

/-- A tail that has ended has failed if and only if an operation of its queue has, and is
cancelled if and only if none has failed and one was cancelled. -/
theorem tail_tells_failures {o : κ} {tail : ℕ}
    (h : Runs.run step (initial : TaskQueues κ ε) es = .ok s) (htail : s.tails o = some tail)
    (hdone : s.completed tail = true) :
    ((s.heap.tasks tail).faulted = true ↔
      ∃ op∈s.operations,o∈op.objects ∧ (s.heap.tasks op.task).faulted = true) ∧
    ((s.heap.tasks tail).isCancelled = true ↔
      (∀ op∈s.operations,o∈op.objects → (s.heap.tasks op.task).faulted = false) ∧
        ∃ op∈s.operations,o∈op.objects ∧ (s.heap.tasks op.task).isCancelled = true) := by
  obtain ⟨g,hs⟩ := orderly_run h
  obtain ⟨l,hl,hmem⟩ := hs.covered o
  rw [htail] at hl
  have hex : ∀ p : ℕ → Prop,(∃ task∈l,p task) ↔ ∃ op∈s.operations,o∈op.objects ∧ p op.task := by
    intro p
    simp only [hmem]
    constructor
    · rintro ⟨_,⟨op,hop,ho,rfl⟩,hp⟩
      exact ⟨op,hop,ho,hp⟩
    · rintro ⟨op,hop,ho,hp⟩
      exact ⟨op.task,⟨op,hop,ho,rfl⟩,hp⟩
  have hall : ∀ p : ℕ → Prop,(∀ task∈l,p task) ↔ ∀ op∈s.operations,o∈op.objects → p op.task := by
    intro p
    simp only [hmem]
    constructor
    · exact fun hp op hop ho => hp op.task ⟨op,hop,ho,rfl⟩
    · rintro hp _ ⟨op,hop,ho,rfl⟩
      exact hp op hop ho
  rw [Covers.faulted_iff hs.sound hl hdone,Covers.cancelled_iff hs.sound hl hdone,hex,hex,hall]
  exact ⟨Iff.rfl,Iff.rfl⟩

theorem tail_tells_failures_save :
    ∃ s,Runs.run step (initial : TaskQueues ℕ ℕ) [.enqueue 0 .save,.execute 0,.execute 0,
        .workEnded 1 (.error (.one 404)),.execute 0] = .ok s ∧
      s.tails 0 = some 2 ∧ (s.heap.tasks 2).faulted = true := by
  have hrun : ∃ s,Runs.run step (initial : TaskQueues ℕ ℕ) [.enqueue 0 .save,.execute 0,.execute 0,
      .workEnded 1 (.error (.one 404)),.execute 0] = .ok s ∧ s.tails 0 = some 2 ∧
      s.completed 2 = true ∧ s.operations = [⟨[0],1,.save⟩] ∧ (s.heap.tasks 1).faulted = true :=
    ⟨_,rfl,rfl,rfl,rfl,rfl⟩
  obtain ⟨s,hs,htail,hdone,hoperations,hfaulted⟩ := hrun
  refine ⟨s,hs,htail,(tail_tells_failures hs htail hdone).1.mpr ?_⟩
  rw [hoperations]
  exact ⟨⟨[0],1,.save⟩,List.mem_cons_self,List.mem_cons_self,hfaulted⟩

end Runs

end TaskQueues
end CourseraObjC
