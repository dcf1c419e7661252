import CourseraObjC.TaskRuns

/-! What new tasks do to a wired heap: the tasks that were there keep what they wait for and
how far they are, and each new one has ended or waits. -/
namespace CourseraObjC
namespace Bolts

variable {ε : Type} {g g' : ℕ → Wait} {h h' : Heap ε} {n : ℕ}

namespace Sound

theorem newTask (hs : Sound g h) : Sound g h.newTask :=
  {hs with wired := hs.wired.newTask}

/-- A task that has not gone on may be told what to wait for: a circle that it closes has
nothing in it that has gone on. -/
theorem await {w : Wait} (hs : Sound g h) (hn : n < h.next) (hg : g n = .nothing)
    (hopen : (h.tasks n).goneOn = false)
    (hseen : ∀ parts,w = .forAll parts → (h.tasks n).errors = [] ∧ (h.tasks n).cancelled = 0)
    (hparts : ∀ d∈w.parts,d < h.next) :
    Sound (Function.update g n w) (h.await n w.parts (w.block n)) where
  wired := hs.wired.await hn hg hopen hseen hparts
  circles m hm := by
    have hw := hs.wired.await hn hg hopen hseen hparts
    by_contra hgone
    rw [Bool.not_eq_false] at hgone
    have hpath : ∀ d,Relation.TransGen (WaitGraph.Waits (waits (Function.update g n w))) m d →
        ((h.await n w.parts (w.block n)).tasks d).goneOn = true ∧
          Relation.TransGen (WaitGraph.Waits (waits g)) m d := by
      have hedge : ∀ c d,((h.await n w.parts (w.block n)).tasks c).goneOn = true →
          WaitGraph.Waits (waits (Function.update g n w)) c d →
          ((h.await n w.parts (w.block n)).tasks d).goneOn = true ∧
            WaitGraph.Waits (waits g) c d := by
        intro c d hc hcd
        have hcn : c ≠ n := by
          rintro rfl
          rw [Wired.goneOn_await,hopen] at hc
          exact absurd hc (by decide)
        refine ⟨BFTask.goneOn_of_completed (hw.completed_of_goneOn hc d hcd),?_⟩
        rw [WaitGraph.Waits,waits,Function.update_of_ne hcn] at hcd
        exact hcd
      intro d hd
      induction hd with
      | single hlast =>
        have hstep := hedge _ _ hgone hlast
        exact ⟨hstep.1,Relation.TransGen.single hstep.2⟩
      | tail _ hlast ih =>
        have hstep := hedge _ _ ih.1 hlast
        exact ⟨hstep.1,ih.2.tail hstep.2⟩
    have hold := hs.circles m (hpath m hm).2
    rw [Wired.goneOn_await,hold] at hgone
    exact absurd hgone (by decide)
  work m hm := by
    rw [Wired.tasks_await] at hm
    have hmn : m ≠ n := by
      rintro rfl
      rw [BFTask.goneOn,hm,Bool.true_or] at hopen
      exact absurd hopen (by decide)
    rw [Function.update_of_ne hmn]
    exact hs.work m hm
  told m parts o hm ho := by
    rw [Wired.outcome_await] at ho
    have hmn : m ≠ n := by
      rintro rfl
      rw [BFTask.goneOn_of_completed (by rw [BFTask.completed,ho]; rfl)] at hopen
      exact absurd hopen (by decide)
    rw [Function.update_of_ne hmn] at hm
    rw [Wired.tasks_await]
    exact hs.told m parts o hm ho

theorem taskWithResult (hs : Sound g h) : Sound g h.taskWithResult := by
  have hnew := (hs.wired.fresh h.next (Nat.le_refl _))
  refine hs.newTask.finish (Nat.lt_succ_self _) ?_ ?_ ?_
  · rw [show h.newTask.tasks h.next = .new from hnew.1]
    rfl
  · rw [show h.newTask.tasks h.next = .new from hnew.1]
    rfl
  · intro parts hparts
    rw [hnew.2] at hparts
    cases hparts

theorem newTask_await {w : Wait} (hs : Sound g h) (hparts : ∀ d∈w.parts,d < h.next) :
    Sound (Function.update g h.next w) (h.newTask.await h.next w.parts (w.block h.next)) := by
  obtain ⟨hnew,hnothing⟩ := hs.wired.fresh h.next (Nat.le_refl _)
  refine hs.newTask.await (Nat.lt_succ_self _) hnothing ?_ ?_ ?_
  · rw [show h.newTask.tasks h.next = .new from hnew]
    rfl
  · rw [show h.newTask.tasks h.next = .new from hnew]
    exact fun _ _ => ⟨rfl,rfl⟩
  · exact fun d hd => Nat.lt_succ_of_lt (hparts d hd)

end Sound

/-- The heap has grown: the old tasks are as they were but for their callbacks, and each new
one has ended at once or waits. -/
structure Grown (g g' : ℕ → Wait) (h h' : Heap ε) : Prop where
  next : h.next ≤ h'.next
  kept : ∀ n < h.next,g' n = g n
  outcome : ∀ n < h.next,(h'.tasks n).outcome = (h.tasks n).outcome
  begun : ∀ n < h.next,(h'.tasks n).begun = (h.tasks n).begun
  total : ∀ n < h.next,(h'.tasks n).total = (h.tasks n).total
  new : ∀ n,h.next ≤ n → n < h'.next →
    (h'.tasks n).completed = true ∨ 0 < (h'.tasks n).total

namespace Grown

theorem refl (g : ℕ → Wait) (h : Heap ε) : Grown g g h h :=
  ⟨Nat.le_refl _,fun _ _ => rfl,fun _ _ => rfl,fun _ _ => rfl,fun _ _ => rfl,
    fun _ hle hlt => absurd hlt (Nat.not_lt_of_le hle)⟩

theorem trans {g₁ g₂ g₃ : ℕ → Wait} {h₁ h₂ h₃ : Heap ε} (ha : Grown g₁ g₂ h₁ h₂)
    (hb : Grown g₂ g₃ h₂ h₃) : Grown g₁ g₃ h₁ h₃ where
  next := ha.next.trans hb.next
  kept n hn := (hb.kept n (hn.trans_le ha.next)).trans (ha.kept n hn)
  outcome n hn := (hb.outcome n (hn.trans_le ha.next)).trans (ha.outcome n hn)
  begun n hn := (hb.begun n (hn.trans_le ha.next)).trans (ha.begun n hn)
  total n hn := (hb.total n (hn.trans_le ha.next)).trans (ha.total n hn)
  new n hle hlt := by
    rcases Nat.lt_or_ge n h₂.next with hmid | hmid
    · have hold := ha.new n hle hmid
      rw [BFTask.completed,← hb.outcome n hmid,← hb.total n hmid] at hold
      exact hold
    · exact hb.new n hmid hlt

theorem grows (hgrown : Grown g g' h h') (hw : Wired g h) :
    WaitGraph.Grows (fun n => n < h.next) (waits g) (waits g') where
  kept n hn := by rw [waits,waits,hgrown.kept n hn]
  closed n _ d hd := hw.bounded n d hd

theorem waiting (hgrown : Grown g g' h h') (hwait : Waiting h) : Waiting h' := by
  intro n hn hopen
  rcases Nat.lt_or_ge n h.next with hold | hnew
  · rw [BFTask.goneOn,BFTask.completed,hgrown.begun n hold,hgrown.outcome n hold] at hopen
    rw [hgrown.total n hold]
    exact hwait n hold hopen
  · rcases hgrown.new n hnew hn with hdone | hpos
    · rw [BFTask.goneOn_of_completed hdone] at hopen
      exact absurd hopen (by decide)
    · exact hpos

theorem later (hgrown : Grown g g' h h') (hw : Wired g h) : Later h h' where
  next := hgrown.next
  outcome n o ho := by
    have hn : n < h.next := by
      by_contra hle
      rw [(hw.fresh n (Nat.le_of_not_lt hle)).1] at ho
      cases ho
    rw [hgrown.outcome n hn]
    exact ho
  begun n hn := by
    have hlt : n < h.next := by
      by_contra hle
      rw [(hw.fresh n (Nat.le_of_not_lt hle)).1] at hn
      cases hn
    rw [hgrown.begun n hlt]
    exact hn

theorem newTask_await {w : Wait} (hsome : w.parts ≠ []) :
    Grown g (Function.update g h.next w) h (h.newTask.await h.next w.parts (w.block h.next)) where
  next := by
    rw [Wired.next_await]
    exact Nat.le_succ _
  kept n hn := Function.update_of_ne (Nat.ne_of_lt hn) _ _
  outcome n _ := Wired.outcome_await
  begun n _ := by rw [Wired.tasks_await]; rfl
  total n hn := by
    rw [Wired.tasks_await]
    exact if_neg (Nat.ne_of_lt hn)
  new n hle hlt := by
    have hn : n = h.next := by
      rw [Wired.next_await] at hlt
      exact Nat.le_antisymm (Nat.le_of_lt_succ hlt) hle
    right
    rw [Wired.tasks_await]
    simpa [hn] using List.length_pos_iff.mpr hsome

theorem taskWithResult (g : ℕ → Wait) (h : Heap ε) : Grown g g h h.taskWithResult where
  next := Nat.le_succ _
  kept n _ := rfl
  outcome n hn := by rw [Heap.taskWithResult,Wired.tasks_finish_of_ne (Nat.ne_of_lt hn)]; rfl
  begun n hn := by rw [Heap.taskWithResult,Wired.tasks_finish_of_ne (Nat.ne_of_lt hn)]; rfl
  total n hn := by rw [Heap.taskWithResult,Wired.tasks_finish_of_ne (Nat.ne_of_lt hn)]; rfl
  new n hle hlt := by
    have hn : n = h.next := Nat.le_antisymm (Nat.le_of_lt_succ hlt) hle
    left
    rw [hn,Heap.taskWithResult,Wired.tasks_finish_self]
    rfl

/-- A task that was made before others, and is told after them what to wait for. -/
theorem link {w : Wait} (hgrown : Grown g g' h.newTask h') (hsome : w.parts ≠ []) :
    Grown g (Function.update g' h.next w) h (h'.await h.next w.parts (w.block h.next)) where
  next := by
    rw [Wired.next_await]
    exact (Nat.le_succ _).trans hgrown.next
  kept n hn := by
    rw [Function.update_of_ne (Nat.ne_of_lt hn)]
    exact hgrown.kept n (Nat.lt_succ_of_lt hn)
  outcome n hn := by
    rw [Wired.outcome_await]
    exact hgrown.outcome n (Nat.lt_succ_of_lt hn)
  begun n hn := by
    rw [Wired.tasks_await]
    exact hgrown.begun n (Nat.lt_succ_of_lt hn)
  total n hn := by
    rw [Wired.tasks_await]
    exact (if_neg (Nat.ne_of_lt hn)).trans (hgrown.total n (Nat.lt_succ_of_lt hn))
  new n hle hlt := by
    rw [Wired.next_await] at hlt
    rw [Wired.completed_await,Wired.tasks_await]
    by_cases hn : n = h.next
    · right
      simpa [hn] using List.length_pos_iff.mpr hsome
    · have hnew := hgrown.new n (Nat.lt_of_le_of_ne hle (Ne.symm hn)) hlt
      simpa [hn] using hnew

/-- The task for all of some tasks, which has ended at once where there are none. -/
theorem taskForCompletionOfAllTasks {parts : List ℕ} (hs : Sound g h)
    (hparts : ∀ d∈parts,d < h.next) :
    ∃ g',Sound g' (h.taskForCompletionOfAllTasks parts) ∧
      Grown g g' h (h.taskForCompletionOfAllTasks parts) ∧ waits g' h.next = parts ∧
      (h.taskForCompletionOfAllTasks parts).next = h.next+1 ∧ ∀ n,n ≠ h.next → g' n = g n := by
  rw [Heap.taskForCompletionOfAllTasks]
  split_ifs with hnil
  · refine ⟨g,hs.taskWithResult,taskWithResult g h,?_,rfl,fun _ _ => rfl⟩
    rw [hnil,waits,(hs.wired.fresh h.next (Nat.le_refl _)).2]
    rfl
  · refine ⟨Function.update g h.next (.forAll parts),hs.newTask_await (w:=.forAll parts) hparts,
      newTask_await (w:=.forAll parts) hnil,?_,Wired.next_await,fun n hn => ?_⟩
    · rw [waits,Function.update_self]
      rfl
    · exact Function.update_of_ne hn _ _

end Grown

/-- `t` is a tail, and the tasks in its queue are those of the list. -/
inductive Covers (g : ℕ → Wait) (h : Heap ε) : ℕ → List ℕ → Prop
  | ended {t : ℕ} (hwait : g t = .nothing) (houtcome : (h.tasks t).outcome = some .result) :
    Covers g h t []
  | again {t c : ℕ} {l : List ℕ} (hwait : g t = .forAll [c,c]) (hrest : Covers g h c l) :
    Covers g h t l
  | next {t c task : ℕ} {l : List ℕ} (hwait : g t = .forAll [c,task])
    (hrest : Covers g h c l) : Covers g h t (l++[task])

namespace Covers

variable {t : ℕ} {l : List ℕ}

theorem lt_next (hw : Wired g h) (hc : Covers g h t l) : t < h.next := by
  by_contra hle
  obtain ⟨hnew,hnothing⟩ := hw.fresh t (Nat.le_of_not_lt hle)
  cases hc with
  | ended hwait houtcome =>
    rw [hnew] at houtcome
    cases houtcome
  | again hwait hrest =>
    rw [hnothing] at hwait
    cases hwait
  | next hwait hrest =>
    rw [hnothing] at hwait
    cases hwait

theorem grown (hgrown : Grown g g' h h') (hw : Wired g h) (hc : Covers g h t l) :
    Covers g' h' t l := by
  have hlt := hc.lt_next hw
  induction hc with
  | ended hwait houtcome =>
    refine ended ?_ ?_
    · rw [hgrown.kept _ hlt]
      exact hwait
    · rw [hgrown.outcome _ hlt]
      exact houtcome
  | again hwait hrest ih =>
    exact again ((hgrown.kept _ hlt).trans hwait) (ih (hrest.lt_next hw))
  | next hwait hrest ih =>
    exact next ((hgrown.kept _ hlt).trans hwait) (ih (hrest.lt_next hw))

theorem later (hlater : Later h h') (hc : Covers g h t l) : Covers g h' t l := by
  induction hc with
  | ended hwait houtcome => exact ended hwait (hlater.outcome _ _ houtcome)
  | again hwait _ ih => exact again hwait ih
  | next hwait _ ih => exact next hwait ih

theorem link {r : ℕ} {w : Wait} (hnothing : g r = .nothing)
    (hopen : (h.tasks r).completed = false) (hc : Covers g h t l) :
    Covers (Function.update g r w) h t l := by
  have hne : ∀ {t},g t ≠ .nothing → t ≠ r := by
    rintro t ht rfl
    exact ht hnothing
  induction hc with
  | ended hwait houtcome =>
    refine ended ?_ houtcome
    rw [Function.update_of_ne ?_]
    · exact hwait
    · rintro rfl
      rw [BFTask.completed,houtcome] at hopen
      cases hopen
  | again hwait _ ih =>
    refine again ?_ ih
    rw [Function.update_of_ne (hne (by simp [hwait]))]
    exact hwait
  | next hwait _ ih =>
    refine next ?_ ih
    rw [Function.update_of_ne (hne (by simp [hwait]))]
    exact hwait

theorem reaches {task : ℕ} (hc : Covers g h t l) (htask : task∈l) :
    Relation.TransGen (WaitGraph.Waits (waits g)) t task := by
  induction hc with
  | ended => exact absurd htask List.not_mem_nil
  | again hwait _ ih =>
    refine Relation.TransGen.head ?_ (ih htask)
    rw [WaitGraph.Waits,waits,hwait]
    exact List.mem_cons_self
  | next hwait _ ih =>
    rcases List.mem_append.mp htask with hl | hlast
    · refine Relation.TransGen.head ?_ (ih hl)
      rw [WaitGraph.Waits,waits,hwait]
      exact List.mem_cons_self
    · refine Relation.TransGen.single ?_
      rw [List.mem_singleton.mp hlast,WaitGraph.Waits,waits,hwait]
      exact List.mem_cons_of_mem _ List.mem_cons_self

section Outcomes

variable {p : ℕ → Prop} {a b : ℕ}

theorem forall_pair : (∀ d∈[a,b],p d) ↔ p a ∧ p b := by simp

theorem exists_pair : (∃ d∈[a,b],p d) ↔ p a ∨ p b := by simp

theorem forall_concat : (∀ d∈l++[a],p d) ↔ (∀ d∈l,p d) ∧ p a := by
  simp [or_imp,forall_and]

theorem exists_concat : (∃ d∈l++[a],p d) ↔ (∃ d∈l,p d) ∨ p a := by
  simp [or_and_right,exists_or]

theorem rest_completed {c : ℕ} {parts : List ℕ} (hs : Sound g h)
    (hwait : g t = .forAll (c::parts)) (hdone : (h.tasks t).completed = true) :
    (h.tasks c).completed = true := by
  have hparts := hs.wired.completed_of_goneOn (BFTask.goneOn_of_completed hdone)
  rw [hwait] at hparts
  exact hparts c List.mem_cons_self

theorem faulted_iff (hs : Sound g h) (hc : Covers g h t l)
    (hdone : (h.tasks t).completed = true) :
    (h.tasks t).faulted = true ↔ ∃ task∈l,(h.tasks task).faulted = true := by
  induction hc with
  | ended _ houtcome => simp [BFTask.faulted,houtcome,Outcome.isFaulted]
  | again hwait _ ih =>
    rw [hs.faulted_iff hwait hdone,exists_pair,or_self]
    exact ih (rest_completed hs hwait hdone)
  | next hwait _ ih =>
    rw [hs.faulted_iff hwait hdone,exists_pair,exists_concat]
    rw [ih (rest_completed hs hwait hdone)]

theorem not_faulted_iff (hs : Sound g h) (hc : Covers g h t l)
    (hdone : (h.tasks t).completed = true) :
    (h.tasks t).faulted = false ↔ ∀ task∈l,(h.tasks task).faulted = false := by
  rw [← Bool.not_eq_true,hc.faulted_iff hs hdone]
  push Not
  simp only [Bool.not_eq_true]

theorem cancelled_iff (hs : Sound g h) (hc : Covers g h t l)
    (hdone : (h.tasks t).completed = true) :
    (h.tasks t).isCancelled = true ↔ (∀ task∈l,(h.tasks task).faulted = false) ∧
      ∃ task∈l,(h.tasks task).isCancelled = true := by
  induction hc with
  | ended _ houtcome => simp [BFTask.isCancelled,houtcome,Outcome.isCancelled]
  | again hwait hrest ih =>
    have hc := rest_completed hs hwait hdone
    have hih := ih hc
    rw [hs.cancelled_iff hwait hdone,forall_pair,exists_pair,and_self,or_self]
    rw [← hrest.not_faulted_iff hs hc] at hih ⊢
    rw [hih]
    tauto
  | next hwait hrest ih =>
    have hc := rest_completed hs hwait hdone
    have hih := ih hc
    rw [hs.cancelled_iff hwait hdone,forall_pair,exists_pair,forall_concat,exists_concat]
    rw [← hrest.not_faulted_iff hs hc] at hih ⊢
    rw [hih]
    exact and_congr_right fun hnone => or_congr_left (and_iff_right hnone.1)

end Outcomes

end Covers

end Bolts
end CourseraObjC
