import CourseraObjC.ChildrenDirty
import CourseraObjC.QueuedSaves
import CourseraObjC.SaveWaves

/-! Deep saves and the task queues: the batches of a deep save never name an object twice, so
that all of them end; but a save that finds its own object among its children waits for a batch
that waits for the save. -/
namespace CourseraObjC

section Batches

variable {α : Type} {array : List α} {components n index : ℕ}

theorem flatten_subarrays (hpos : 0 < components) (hn : array.length-index ≤ n) :
    (subarrays array components n index).flatten = array.drop index := by
  induction n generalizing index with
  | zero =>
    rw [subarrays,List.drop_eq_nil_of_le (by omega)]
    rfl
  | succ n ih =>
    rw [subarrays]
    by_cases hlt : index < array.length
    · rw [if_pos hlt,List.flatten_cons,ih (by omega),← List.drop_drop]
      exact List.take_append_drop _ _
    · rw [if_neg hlt,List.drop_eq_nil_of_le (Nat.le_of_not_lt hlt)]
      rfl

theorem length_of_mem_subarrays (hpos : 0 < components) {part : List α}
    (hpart : part∈subarrays array components n index) :
    part ≠ [] ∧ part.length ≤ components := by
  induction n generalizing index with
  | zero => cases hpart
  | succ n ih =>
    rw [subarrays] at hpart
    split_ifs at hpart with hlt
    · rcases List.mem_cons.mp hpart with rfl | hpart
      · have hlength : ((array.drop index).take (min (array.length-index) components)).length =
            min (array.length-index) components := by
          rw [List.length_take,List.length_drop]
          omega
        refine ⟨List.ne_nil_of_length_pos ?_,?_⟩
        · omega
        · omega
      · exact ih hpart
    · cases hpart

theorem flatten_arrayBySplittingArray (hpos : 0 < components) :
    (arrayBySplittingArray array components).flatten = array := by
  rw [arrayBySplittingArray]
  split_ifs
  · simp
  · exact flatten_subarrays hpos (Nat.le_refl _)

theorem length_of_mem_arrayBySplittingArray (hpos : 0 < components) (hne : array ≠ [])
    {part : List α} (hpart : part∈arrayBySplittingArray array components) :
    part ≠ [] ∧ part.length ≤ components := by
  rw [arrayBySplittingArray] at hpart
  split_ifs at hpart with hle
  · rw [List.mem_singleton.mp hpart]
    exact ⟨hne,hle⟩
  · exact length_of_mem_subarrays hpos hpart

end Batches

namespace ObjectGraph

open PathSearch

variable {O F : Type} [DecidableEq O] [DecidableEq F] [Fintype O] {g : ObjectGraph O F}
  {objects : Enumeration O} {files : Enumeration F} {node : Value O F}
  {steps : List (SaveStep O F)}

omit [DecidableEq O] [DecidableEq F] [Fintype O] in
theorem saved_eq_flatten_batches {step : SaveStep O F} (huser : ∀ user,step ≠ .lazyUser user) :
    step.batches.flatten = step.saved := by
  cases step with
  | file f => rfl
  | lazyUser user => exact absurd rfl (huser user)
  | objects current => exact flatten_arrayBySplittingArray (by decide)

omit [DecidableEq O] [DecidableEq F] [Fintype O] in
theorem sublist_saved {step : SaveStep O F} {batch : List O} (hbatch : batch∈step.batches) :
    batch.Sublist step.saved := by
  have huser : ∀ user,step ≠ .lazyUser user := by
    rintro user rfl
    exact absurd hbatch List.not_mem_nil
  rw [← saved_eq_flatten_batches huser]
  exact List.sublist_flatten_of_mem hbatch

theorem deepSave_batch (h : g.deepSave objects files node = .ok steps) {batch : List O}
    (hbatch : batch∈steps.flatMap SaveStep.batches) :
    batch ≠ [] ∧ batch.Nodup ∧ batchCommand batch = .ok batch := by
  have hnodup := (deepSave_saved h).1
  obtain ⟨step,hstep,hin⟩ := List.mem_flatMap.mp hbatch
  have hsub : batch.Sublist (steps.flatMap SaveStep.saved) := by
    have hsaved : step.saved.Sublist (steps.flatMap SaveStep.saved) := by
      rw [List.flatMap_def]
      exact List.sublist_flatten_of_mem (List.mem_map_of_mem hstep)
    exact (sublist_saved hin).trans hsaved
  cases step with
  | file f => cases hin
  | lazyUser user => cases hin
  | objects current =>
    have hne : current ≠ [] := objects_ne_nil h hstep
    obtain ⟨hbatchNe,hlength⟩ := length_of_mem_arrayBySplittingArray (by decide) hne hin
    exact ⟨hbatchNe,hsub.nodup hnodup,if_pos hlength⟩

omit [DecidableEq O] [DecidableEq F] [Fintype O] in
theorem mem_saved_iff {o : O} : o∈steps.flatMap SaveStep.saved ↔
    .lazyUser o∈steps ∨ ∃ batch∈steps.flatMap SaveStep.batches,o∈batch := by
  constructor
  · intro ho
    obtain ⟨step,hstep,hin⟩ := List.mem_flatMap.mp ho
    by_cases huser : ∃ user,step = .lazyUser user
    · obtain ⟨user,rfl⟩ := huser
      rw [List.mem_singleton.mp hin]
      exact Or.inl hstep
    · rw [← saved_eq_flatten_batches fun user hu => huser ⟨user,hu⟩] at hin
      obtain ⟨batch,hbatch,hmem⟩ := List.mem_flatten.mp hin
      exact Or.inr ⟨batch,List.mem_flatMap.mpr ⟨step,hstep,hbatch⟩,hmem⟩
  · rintro (hin | ⟨batch,hbatch,ho⟩)
    · exact List.mem_flatMap.mpr ⟨_,hin,List.mem_cons_self⟩
    · obtain ⟨step,hstep,hin⟩ := List.mem_flatMap.mp hbatch
      exact List.mem_flatMap.mpr ⟨step,hstep,(sublist_saved hin).subset ho⟩

omit [DecidableEq F] [Fintype O] in
/-- A save looks for changes and begins, and the data stay as they are. -/
theorem next_startSave (g : ObjectGraph O F) (o : O) :
    ((g.checkForChanges o).startSave o).next = g.next := by
  have hdata : ∀ x,(((g.checkForChanges o).startSave o).object x).estimatedData =
      (g.object x).estimatedData := by
    intro x
    rw [← estimatedData_checkForChanges g o x,startSave]
    dsimp only
    by_cases hx : x = o
    · rw [hx,Function.update_self]
      rfl
    · rw [Function.update_of_ne hx]
  funext x
  rw [next,next,ObjectData.dictionaryRepresentation,ObjectData.dictionaryRepresentation,hdata]
  rfl

omit [DecidableEq F] [Fintype O] in
/-- What a save puts into its command does not count any more, but that the object is deleted or
marked as dirty does. -/
theorem isDirty_startSave (g : ObjectGraph O F) (o : O) :
    (((g.checkForChanges o).startSave o).object o).isDirty =
      ((g.object o).deleted || (g.object o).dirty) := by
  have hself : ((g.checkForChanges o).startSave o).object o =
      (g.object o).checkForChangesToMutableContainers.startSave := by
    rw [startSave,checkForChanges]
    dsimp only
    rw [Function.update_self,Function.update_self]
  rw [hself,ObjectData.isDirty,ObjectData.startSave]
  by_cases hchanged : (g.object o).changedInPlace = true
  · simp [ObjectData.checkForChangesToMutableContainers,ObjectData.isMarked,hchanged]
  · simp [ObjectData.checkForChangesToMutableContainers,ObjectData.isMarked,hchanged]

omit [DecidableEq F] in
theorem isDirty_of_marked {g : ObjectGraph O F} {o : O}
    (h : (g.object o).deleted = true ∨ (g.object o).dirty = true) :
    g.isDirty o = some (true,g.checkForChanges o) := by
  have hmarked : (g.object o).isMarked = true := by
    rcases h with h | h
    · simp [ObjectData.isMarked,h]
    · simp [ObjectData.isMarked,h]
  rw [isDirty]
  rw [isMarked_checkForChanges,if_pos rfl,isDirty_of_isMarked hmarked,if_pos rfl]

/-- The objects of a batch of some deep save. -/
def IsBatch (F : Type) [DecidableEq F] (batch : List O) : Prop :=
  ∃ (g : ObjectGraph O F) (objects : Enumeration O) (files : Enumeration F) (node : Value O F)
    (steps : List (SaveStep O F)),
    g.deepSave objects files node = .ok steps ∧ batch∈steps.flatMap SaveStep.batches

theorem IsBatch.nodup {batch : List O} (h : IsBatch F batch) : batch.Nodup := by
  obtain ⟨g,objects,files,node,steps,hsteps,hbatch⟩ := h
  exact (deepSave_batch hsteps hbatch).2.1

end ObjectGraph

namespace TaskQueues

open ObjectGraph

variable {O F ε : Type} [DecidableEq O] [DecidableEq F] [Fintype O] {s t : TaskQueues O ε}
  {es : List (QueueEvent O ε)}

omit [Fintype O] in
theorem nodup_operations (h : Runs.run step (initial : TaskQueues O ε) es = .ok s)
    (hbatches : ∀ batch work,.enqueueForObjects batch work∈es → batch.Nodup) :
    ∀ op∈s.operations,op.objects.Nodup := by
  refine Runs.run_invariant_of_mem (I:=fun s => ∀ op∈s.operations,op.objects.Nodup) ?_ ?_ h
  · intro e he u v hu hstep op hop
    obtain ⟨new,hnew,hobjects⟩ := operations_step hstep
    rw [hnew] at hop
    rcases List.mem_append.mp hop with hop | hop
    · exact hu op hop
    · rcases hobjects op hop with ⟨o,ho⟩ | hevent
      · rw [ho]
        exact List.nodup_singleton o
      · rw [hevent] at he
        exact hbatches _ _ he
  · exact fun op hop => absurd hop List.not_mem_nil

/-- Where several objects are put into the queues by deep saves alone, nothing is left open at
rest. -/
theorem deep_saves_end (h : Runs.run step (initial : TaskQueues O ε) es = .ok s)
    (hbatches : ∀ batch work,.enqueueForObjects batch work∈es → IsBatch F batch)
    (hrest : s.AtRest) : ∀ op∈s.operations,s.completed op.task = true := by
  obtain ⟨g,hs⟩ := orderly_run h
  refine hs.all_end hrest (nodup_operations h fun batch work hin => ?_)
  exact (hbatches batch work hin).nodup

theorem deep_saves_end_comment :
    ∃ s : TaskQueues (Fin 3) ℕ,Runs.run step initial [.enqueueForObjects [2] .batch,.execute 0,
        .execute 0,.execute 0,.execute 0,.workEnded 1 .result,.execute 0] = .ok s ∧
      ∀ op∈s.operations,s.completed op.task = true := by
  have hrun : ∃ s : TaskQueues (Fin 3) ℕ,Runs.run step initial [.enqueueForObjects [2] .batch,
      .execute 0,.execute 0,.execute 0,.execute 0,.workEnded 1 .result,.execute 0] = .ok s ∧
      s.AtRest :=
    ⟨_,rfl,⟨rfl,by decide⟩⟩
  obtain ⟨s,hs,hrest⟩ := hrun
  refine ⟨s,hs,deep_saves_end (F:=Fin 1) hs (fun batch work hin => ?_) hrest⟩
  obtain ⟨rfl,_⟩ : batch = [2] ∧ work = .batch := by simpa using hin
  exact ⟨commentGraph,.ascending 3,.ascending 1,.object 0,[.objects [2],.objects [0]],by decide,
    by decide⟩

/-- The save at `n` ends only once the operation at `m` has begun. -/
def Awaits (n m : ℕ) (s : TaskQueues O ε) (e : QueueEvent O ε) : Prop :=
  ∀ outcome,e = .workEnded n outcome → s.begun m = true

omit [DecidableEq F] [Fintype O] in
/-- A save that is going on and awaits what was put behind it in its queue. -/
theorem never_ends {o : O} {n : ℕ} {batch : List O} (hs : ∃ g,Orderly g s)
    (hsave : ⟨[o],n,.save⟩∈s.operations) (hbegun : s.begun n = true)
    (hopen : s.completed n = false) (ho : o∈batch)
    (hawaits : Runs.Along step (Awaits n (s.heap.next+1)) (s.enqueueForObjects batch .batch) es)
    (h : Runs.run step (s.enqueueForObjects batch .batch) es = .ok t) :
    t.completed n = false ∧ t.begun (s.heap.next+1) = false := by
  have hstart : s.step (.enqueueForObjects batch .batch) = .ok (s.enqueueForObjects batch .batch) :=
    rfl
  have hfirst : (s.enqueueForObjects batch .batch).operations =
      s.operations++[⟨batch,s.heap.next+1,.batch⟩] := by
    rw [enqueueForObjects]
    simp only [operations_enqueueFullTask]
    rfl
  have hturn : ∀ {u : TaskQueues O ε},(∃ g,Orderly g u) →
      (∃ later,u.operations = s.operations++⟨batch,s.heap.next+1,.batch⟩::later) →
      u.begun (s.heap.next+1) = true → u.completed n = true := by
    rintro u ⟨g,hg⟩ ⟨later,hlater⟩ hbatch
    have hturns := hg.turns
    rw [hlater,List.pairwise_append] at hturns
    exact hturns.2.2 _ hsave _ List.mem_cons_self ⟨o,List.mem_cons_self,ho⟩ hbatch
  have hinvariant := Runs.run_invariant_along
    (I:=fun u => (∃ g,Orderly g u) ∧
      (∃ later,u.operations = s.operations++⟨batch,s.heap.next+1,.batch⟩::later) ∧
      u.begun n = true ∧ u.completed n = false) ?_ hawaits ?_ h
  · obtain ⟨hordered,hlater,_,hstill⟩ := hinvariant
    refine ⟨hstill,?_⟩
    by_contra hbatch
    rw [hturn hordered hlater (by simpa using hbatch)] at hstill
    cases hstill
  · rintro e u v hP ⟨⟨g,hg⟩,⟨later,hlater⟩,hgoing,hstill⟩ hstep
    obtain ⟨new,hnew,_⟩ := operations_step hstep
    have hother : ∀ outcome,e ≠ .workEnded n outcome := by
      intro outcome he
      rw [hturn ⟨g,hg⟩ ⟨later,hlater⟩ (hP outcome he)] at hstill
      cases hstill
    refine ⟨orderly_step ⟨g,hg⟩ hstep,⟨later++new,?_⟩,going_on_step hg hstep hgoing hstill hother⟩
    rw [hnew,hlater,List.append_assoc,List.cons_append]
  · obtain ⟨g,hg⟩ := hs
    refine ⟨orderly_step ⟨g,hg⟩ hstart,⟨[],hfirst⟩,?_⟩
    refine going_on_step hg hstart hbegun hopen fun outcome he => ?_
    cases he

/-- An object that is deleted or marked as dirty and can be reached from its own data is in a
batch of its own children, though its save has taken its changes before it collects them; and
where a save of it, while it is going on, awaits a batch with the object, neither comes to its
end, whatever else happens. -/
theorem own_batch_never_ends {g g' : ObjectGraph O F} {objects : Enumeration O}
    {files : Enumeration F} {o : O} {steps : List (SaveStep O F)}
    (hdirty : g.isDirty o = some (true,g'))
    (hsteps : (g'.startSave o).deepSave objects files
      ((g'.startSave o).object o).dictionaryRepresentation = .ok steps)
    (hmarked : (g.object o).deleted = true ∨ (g.object o).dirty = true)
    (hloop : ∃ p∈g.next o,PathSearch.Reaches g.next p o) (hlazy : .lazyUser o∉steps) :
    (∃ batch∈steps.flatMap SaveStep.batches,o∈batch) ∧
    ∀ (es fs : List (QueueEvent O ε)) (s t : TaskQueues O ε) (n : ℕ) (batch : List O),
      Runs.run step initial es = .ok s → ⟨[o],n,.save⟩∈s.operations → s.begun n = true →
      s.completed n = false → o∈batch →
      Runs.Along step (Awaits n (s.heap.next+1)) (s.enqueueForObjects batch .batch) fs →
      Runs.run step (s.enqueueForObjects batch .batch) fs = .ok t →
      t.completed n = false ∧ t.begun (s.heap.next+1) = false := by
  constructor
  · obtain rfl : g.checkForChanges o = g' := by
      rw [isDirty_of_marked hmarked] at hdirty
      cases hdirty
      rfl
    have hstill : (((g.checkForChanges o).startSave o).object o).isDirty = true := by
      rw [isDirty_startSave,Bool.or_eq_true]
      exact hmarked
    have hreached : ∃ r∈((g.checkForChanges o).startSave o).targets
          (((g.checkForChanges o).startSave o).object o).dictionaryRepresentation,
        PathSearch.Reaches ((g.checkForChanges o).startSave o).next r o := by
      have hnext := next_startSave g o
      have htargets : ((g.checkForChanges o).startSave o).targets
          (((g.checkForChanges o).startSave o).object o).dictionaryRepresentation = g.next o :=
        congrFun hnext o
      rw [htargets,hnext]
      exact hloop
    have hin : o∈steps.flatMap SaveStep.saved :=
      ((deepSave_saved hsteps).2 o).mpr ⟨hstill,hreached⟩
    exact (mem_saved_iff.mp hin).resolve_left hlazy
  · intro es fs s t n batch hrun hsave hbegun hopen ho hawaits hrest
    exact never_ends (orderly_run hrun) hsave hbegun hopen ho hawaits hrest

/-- The comment is saved; its post points back to it, and the batch with it does not begin. -/
theorem own_batch_never_ends_comment :
    ∃ s t : TaskQueues (Fin 3) ℕ,Runs.run step initial [.enqueue 0 .save,.execute 0] = .ok s ∧
      Runs.run step (s.enqueueForObjects [0] .batch) [.execute 0] = .ok t ∧
      t.completed 1 = false ∧ t.begun (s.heap.next+1) = false := by
  have hrun : ∃ s t : TaskQueues (Fin 3) ℕ,
      Runs.run step initial [.enqueue 0 .save,.execute 0] = .ok s ∧
      Runs.run step (s.enqueueForObjects [0] .batch) [.execute 0] = .ok t ∧
      s.operations = [⟨[0],1,.save⟩] ∧ s.begun 1 = true ∧ s.completed 1 = false :=
    ⟨_,_,rfl,rfl,rfl,rfl,rfl⟩
  obtain ⟨s,t,hs,ht,hoperations,hbegun,hopen⟩ := hrun
  have hsteps : ((commentGraph.checkForChanges 0).startSave 0).deepSave (.ascending 3)
      (.ascending 1)
      (((commentGraph.checkForChanges 0).startSave 0).object 0).dictionaryRepresentation =
        .ok [.objects [2],.objects [0]] := by
    decide
  have hpost : (1 : Fin 3)∈commentGraph.next 0 := by decide
  have hback : (0 : Fin 3)∈commentGraph.next 1 := by decide
  refine ⟨s,t,hs,ht,(own_batch_never_ends rfl hsteps (Or.inr rfl) ⟨1,hpost,?_⟩ (by decide)).2 _ _ s t 1
    [0] hs ?_ hbegun hopen List.mem_cons_self ?_ ht⟩
  · exact PathSearch.reaches_head hback Relation.ReflTransGen.refl
  · rw [hoperations]
    exact List.mem_cons_self
  · refine ⟨fun outcome he => ?_,fun _ _ => trivial⟩
    cases he

end TaskQueues
end CourseraObjC
