import CourseraObjC.TaskGrowth
import CourseraObjC.TaskQueues

/-! The order in which the queues let operations run, over any interleaving of executors and
of the ends of the work: on one object the operations take turns in the order in which they
were enqueued, and they all come to their end unless one was enqueued twice on an object. -/
namespace CourseraObjC

open Bolts

namespace TaskQueues

variable {κ ε : Type} {g g' : ℕ → Wait} {s s' : TaskQueues κ ε}

/-- The tail of a queue, if there is one, covers the tasks of the list. -/
def TailCovers (g : ℕ → Wait) (h : Heap ε) : Option ℕ → List ℕ → Prop
  | none,l => l = []
  | some t,l => Covers g h t l

theorem TailCovers.grown {h h' : Heap ε} {tail : Option ℕ} {l : List ℕ}
    (hgrown : Grown g g' h h') (hw : Wired g h) (hc : TailCovers g h tail l) :
    TailCovers g' h' tail l := by
  cases tail with
  | none => exact hc
  | some t => exact Covers.grown hgrown hw hc

theorem TailCovers.later {h h' : Heap ε} {tail : Option ℕ} {l : List ℕ} (hlater : Later h h')
    (hc : TailCovers g h tail l) : TailCovers g h' tail l := by
  cases tail with
  | none => exact hc
  | some t => exact Covers.later hlater hc

/-- A task that has still to be told what to wait for. -/
theorem TailCovers.await {h : Heap ε} {tail : Option ℕ} {l parts : List ℕ} {n : ℕ} {w : Wait}
    {block : ℕ → Block} (hnone : g n = .nothing) (hopen : (h.tasks n).completed = false)
    (hc : TailCovers g h tail l) :
    TailCovers (Function.update g n w) (h.await n parts block) tail l := by
  cases tail with
  | none => exact hc
  | some t =>
    refine Covers.later ?_ (Covers.link hnone hopen hc)
    refine ⟨Nat.le_of_eq Wired.next_await.symm,fun m o ho => ?_,fun m hm => ?_⟩
    · rw [Wired.outcome_await]
      exact ho
    · rw [Wired.tasks_await]
      exact hm

section OldTail

variable {o : κ}

theorem grown_oldTail (g : ℕ → Wait) : Grown g g s.heap (s.oldTail o).1 := by
  rw [oldTail]
  cases s.tails o with
  | none => exact Grown.taskWithResult g s.heap
  | some t => exact Grown.refl g s.heap

theorem sound_oldTail (hs : Sound g s.heap) : Sound g (s.oldTail o).1 := by
  rw [oldTail]
  cases s.tails o with
  | none => exact hs.taskWithResult
  | some t => exact hs

theorem covers_oldTail {l : List ℕ} (hs : Sound g s.heap)
    (hc : TailCovers g s.heap (s.tails o) l) :
    Covers g (s.oldTail o).1 (s.oldTail o).2 l := by
  rw [oldTail]
  cases htail : s.tails o with
  | none =>
    rw [htail] at hc
    obtain rfl : l = [] := hc
    refine Covers.ended (hs.wired.fresh _ (Nat.le_refl _)).2 ?_
    rw [Heap.taskWithResult,Wired.tasks_finish_self]
  | some t =>
    rw [htail] at hc
    exact hc

theorem oldTail_eq :
    s.tails o = some (s.oldTail o).2 ∨ s.tails o = none ∧ (s.oldTail o).2 = s.heap.next := by
  rw [oldTail]
  cases s.tails o with
  | none => exact Or.inr ⟨rfl,rfl⟩
  | some t => exact Or.inl rfl

end OldTail

section Enqueue

variable [DecidableEq κ] {o : κ} {h₀ h₁ : Heap ε} {c task : ℕ}

theorem enqueue_eq (taskStart : Heap ε → ℕ → Heap ε × ℕ) (hold : s.oldTail o = (h₀,c))
    (htask : taskStart h₀ c = (h₁,task)) :
    s.enqueue o taskStart = ({s with
      heap := h₁.taskForCompletionOfAllTasks [c,task]
      tails := Function.update s.tails o (some h₁.next)},task) := by
  rw [enqueue,hold]
  simp only [htask]

theorem sound_newTail (hs : Sound g' h₁) (hgrown : Grown g g' h₀ h₁) (hc : c < h₀.next)
    (hlt : task < h₁.next) :
    Sound (Function.update g' h₁.next (.forAll [c,task]))
      (h₁.taskForCompletionOfAllTasks [c,task]) := by
  refine hs.newTask_await (w:=.forAll [c,task]) fun d hd => ?_
  rcases List.mem_cons.mp hd with rfl | hd
  · exact hc.trans_le hgrown.next
  · rw [List.mem_singleton.mp hd]
    exact hlt

theorem grown_newTail (g : ℕ → Wait) (h : Heap ε) (c task : ℕ) :
    Grown g (Function.update g h.next (.forAll [c,task])) h
      (h.taskForCompletionOfAllTasks [c,task]) :=
  Grown.newTask_await (w:=.forAll [c,task]) (List.cons_ne_nil _ _)

omit [DecidableEq κ] in
theorem oldTail_lt {l : List ℕ} (hs : Sound g s.heap) (hc : TailCovers g s.heap (s.tails o) l)
    (hold : s.oldTail o = (h₀,c)) : c < h₀.next := by
  have hcovers := covers_oldTail hs hc
  have hsound := sound_oldTail (o:=o) hs
  rw [hold] at hcovers hsound
  exact hcovers.lt_next hsound.wired

end Enqueue

section FullTask

variable [DecidableEq κ] {f : ℕ} {objects : List κ} {cs : List ℕ}

/-- What the queues of the objects are like once a task is in all of them. -/
structure InQueues (f : ℕ) (objects : List κ) (g g' : ℕ → Wait) (s s' : TaskQueues κ ε)
    (cs : List ℕ) : Prop where
  sound : Sound g' s'.heap
  grown : Grown g g' s.heap s'.heap
  operations : s'.operations = s.operations
  others : ∀ o,o∉objects → s'.tails o = s.tails o
  bounded : ∀ c∈cs,c < s'.heap.next
  shape : ∀ n,s.heap.next ≤ n → g' n = .nothing ∨ ∃ c∈cs,g' n = .forAll [c,f]
  covers : ∀ o∈objects,∀ l,TailCovers g s.heap (s.tails o) l →
    ∃ l',TailCovers g' s'.heap (s'.tails o) l' ∧ ∀ x,x∈l' ↔ x∈l ∨ x = f
  reaches : ∀ o∈objects,∀ t,s.tails o = some t →
    ∃ c∈cs,Relation.ReflTransGen (WaitGraph.Waits (waits g')) c t
  children : objects.Nodup → ∀ c∈cs,
    (∃ o∈objects,s.tails o = some c) ∨ s.heap.next ≤ c ∧ g' c = .nothing
  circle : ¬objects.Nodup → ∃ c∈cs,Relation.TransGen (WaitGraph.Waits (waits g')) c f

theorem InQueues.cons {g₁ : ℕ → Wait} {s₁ : TaskQueues κ ε} {o : κ} {t c : ℕ}
    (hw : Wired g₁ s₁.heap) (hgrown : Grown g g₁ s.heap s₁.heap)
    (hops : s₁.operations = s.operations)
    (htails : s₁.tails = Function.update s.tails o (some t))
    (htail : g₁ t = .forAll [c,f]) (hc : c < s₁.heap.next)
    (hwhich : s.tails o = some c ∨ s.tails o = none ∧ s.heap.next ≤ c ∧ g₁ c = .nothing)
    (hshape : ∀ n,s.heap.next ≤ n → n ≠ t → g₁ n = .nothing)
    (hcovered : ∀ o' l,TailCovers g s.heap (s.tails o') l →
      TailCovers g₁ s₁.heap (s₁.tails o') (if o' = o then l++[f] else l))
    (hrest : InQueues f objects g₁ g' s₁ s' cs) :
    InQueues f (o::objects) g g' s s' (c::cs) where
  sound := hrest.sound
  grown := hgrown.trans hrest.grown
  operations := hrest.operations.trans hops
  others o' ho' := by
    rw [List.mem_cons,not_or] at ho'
    rw [hrest.others o' ho'.2,htails,Function.update_of_ne ho'.1]
  bounded c' hc' := by
    rcases List.mem_cons.mp hc' with rfl | hc'
    · exact hc.trans_le hrest.grown.next
    · exact hrest.bounded c' hc'
  shape n hn := by
    rcases Nat.lt_or_ge n s₁.heap.next with hlt | hge
    · rw [hrest.grown.kept n hlt]
      by_cases hnt : n = t
      · rw [hnt]
        exact Or.inr ⟨c,List.mem_cons_self,htail⟩
      · exact Or.inl (hshape n hn hnt)
    · rcases hrest.shape n hge with hnone | ⟨c',hc',hw'⟩
      · exact Or.inl hnone
      · exact Or.inr ⟨c',List.mem_cons_of_mem _ hc',hw'⟩
  covers o' ho' l hl := by
    have hl₁ := hcovered o' l hl
    by_cases hin : o'∈objects
    · obtain ⟨l',hl',hmem⟩ := hrest.covers o' hin _ hl₁
      refine ⟨l',hl',fun x => ?_⟩
      rw [hmem x]
      split_ifs with ho
      · rw [List.mem_append,List.mem_singleton,or_assoc,or_self]
      · rfl
    · have ho : o' = o := (List.mem_cons.mp ho').resolve_right hin
      rw [if_pos ho] at hl₁
      refine ⟨l++[f],?_,fun x => by rw [List.mem_append,List.mem_singleton]⟩
      rw [hrest.others o' hin]
      exact hl₁.grown hrest.grown hw
  reaches o' ho' t' ht' := by
    by_cases ho : o' = o
    · subst ho
      rcases hwhich with hsome | ⟨hnone,_⟩
      · rw [ht'] at hsome
        refine ⟨c,List.mem_cons_self,?_⟩
        rw [Option.some.inj hsome]
      · rw [hnone] at ht'
        cases ht'
    · have hin := (List.mem_cons.mp ho').resolve_left ho
      obtain ⟨c',hc',hreach⟩ := hrest.reaches o' hin t' (by
        rw [htails,Function.update_of_ne ho]
        exact ht')
      exact ⟨c',List.mem_cons_of_mem _ hc',hreach⟩
  children hnodup c' hc' := by
    obtain ⟨ho,hnodup'⟩ := List.nodup_cons.mp hnodup
    rcases List.mem_cons.mp hc' with rfl | hc'
    · rcases hwhich with hsome | ⟨_,hnew,hnothing⟩
      · exact Or.inl ⟨o,List.mem_cons_self,hsome⟩
      · rw [← hrest.grown.kept c' hc] at hnothing
        exact Or.inr ⟨hnew,hnothing⟩
    · rcases hrest.children hnodup' c' hc' with ⟨o',ho',hsome⟩ | ⟨hnew,hnothing⟩
      · have hne : o' ≠ o := by
          rintro rfl
          exact ho ho'
        rw [htails,Function.update_of_ne hne] at hsome
        exact Or.inl ⟨o',List.mem_cons_of_mem _ ho',hsome⟩
      · exact Or.inr ⟨hgrown.next.trans hnew,hnothing⟩
  circle hdup := by
    have hlast : Relation.TransGen (WaitGraph.Waits (waits g')) t f := by
      have ht : t < s₁.heap.next := by
        by_contra hle
        rw [(hw.fresh t (Nat.le_of_not_lt hle)).2] at htail
        cases htail
      refine Relation.TransGen.single ?_
      rw [WaitGraph.Waits,waits,hrest.grown.kept t ht,htail]
      exact List.mem_cons_of_mem _ List.mem_cons_self
    by_cases hin : o∈objects
    · obtain ⟨c',hc',hreach⟩ := hrest.reaches o hin t (by rw [htails,Function.update_self])
      exact ⟨c',List.mem_cons_of_mem _ hc',hlast.trans_right hreach⟩
    · have hdup' : ¬objects.Nodup := fun hnodup => hdup (List.nodup_cons.mpr ⟨hin,hnodup⟩)
      obtain ⟨c',hc',hreach⟩ := hrest.circle hdup'
      exact ⟨c',List.mem_cons_of_mem _ hc',hreach⟩

theorem inQueues (objects : List κ) (hs : Sound g s.heap) (hf : f < s.heap.next)
    (hcovered : ∀ o,∃ l,TailCovers g s.heap (s.tails o) l) :
    ∃ g',InQueues f objects g g' s (enqueueFullTask f s objects).1
      (enqueueFullTask f s objects).2 := by
  induction objects generalizing s g with
  | nil =>
    refine ⟨g,hs,Grown.refl g s.heap,rfl,fun _ _ => rfl,?_,?_,?_,?_,?_,?_⟩
    · exact fun c hc => absurd hc List.not_mem_nil
    · exact fun n hn => Or.inl (hs.wired.fresh n hn).2
    · exact fun o ho => absurd ho List.not_mem_nil
    · exact fun o ho => absurd ho List.not_mem_nil
    · exact fun _ c hc => absurd hc List.not_mem_nil
    · exact fun hdup => absurd List.nodup_nil hdup
  | cons o objects ih =>
    obtain ⟨h₀,c,hold⟩ : ∃ h₀ c,s.oldTail o = (h₀,c) := ⟨_,_,rfl⟩
    obtain ⟨l₀,hl₀⟩ := hcovered o
    have hsound₀ := sound_oldTail (o:=o) hs
    have hgrown₀ := grown_oldTail (s:=s) (o:=o) g
    have hcovers₀ := covers_oldTail hs hl₀
    have hwhich := oldTail_eq (s:=s) (o:=o)
    have hc := oldTail_lt hs hl₀ hold
    simp only [hold] at hsound₀ hgrown₀ hcovers₀ hwhich
    have hf₀ : f < h₀.next := hf.trans_le hgrown₀.next
    have hsound₁ := sound_newTail hsound₀ (Grown.refl g h₀) hc hf₀
    have hgrown₁ := hgrown₀.trans (grown_newTail g h₀ c f)
    have heq := enqueue_eq (fun h _ => (h,f)) hold rfl
    have hnext₁ : (h₀.taskForCompletionOfAllTasks [c,f]).next = h₀.next+1 := Wired.next_await
    generalize hg₁ : Function.update g h₀.next (.forAll [c,f]) = g₁ at hsound₁ hgrown₁
    have htail : g₁ h₀.next = .forAll [c,f] := by
      rw [← hg₁]
      exact Function.update_self _ _ _
    have hcovered₁ : ∀ o' l,TailCovers g s.heap (s.tails o') l →
        TailCovers g₁ (h₀.taskForCompletionOfAllTasks [c,f])
          (Function.update s.tails o (some h₀.next) o') (if o' = o then l++[f] else l) := by
      intro o' l hl
      by_cases ho : o' = o
      · subst ho
        rw [Function.update_self,if_pos rfl]
        have hcl := covers_oldTail hs hl
        rw [hold] at hcl
        refine Covers.next htail (hcl.grown ?_ hsound₀.wired)
        rw [← hg₁]
        exact grown_newTail g h₀ c f
      · rw [Function.update_of_ne ho,if_neg ho]
        exact hl.grown hgrown₁ hs.wired
    obtain ⟨g',hrest⟩ := ih (s:={s with
        heap := h₀.taskForCompletionOfAllTasks [c,f]
        tails := Function.update s.tails o (some h₀.next)}) hsound₁
      (by rw [hnext₁]; omega)
      (fun o' => ⟨_,hcovered₁ o' _ (hcovered o').choose_spec⟩)
    have hall : (enqueueFullTask f s (o::objects)).1 = (enqueueFullTask f {s with
        heap := h₀.taskForCompletionOfAllTasks [c,f]
        tails := Function.update s.tails o (some h₀.next)} objects).1 ∧
        (enqueueFullTask f s (o::objects)).2 = c::(enqueueFullTask f {s with
        heap := h₀.taskForCompletionOfAllTasks [c,f]
        tails := Function.update s.tails o (some h₀.next)} objects).2 := by
      rw [enqueueFullTask]
      simp only [heq,hold,and_self]
    rw [hall.1,hall.2]
    refine ⟨g',hrest.cons ?_ ?_ ?_ ?_ htail ?_ ?_ ?_ ?_⟩
    · exact hsound₁.wired
    · exact hgrown₁
    · rfl
    · rfl
    · exact hc.trans (by rw [hnext₁]; exact Nat.lt_succ_self _)
    · rcases hwhich with hsome | ⟨hnone,hnew⟩
      · exact Or.inl hsome
      · refine Or.inr ⟨hnone,Nat.le_of_eq hnew.symm,?_⟩
        rw [← hg₁,Function.update_of_ne (Nat.ne_of_lt hc),hnew]
        exact (hs.wired.fresh _ (Nat.le_refl _)).2
    · intro n hn hnt
      rw [← hg₁,Function.update_of_ne hnt]
      exact (hs.wired.fresh n hn).2
    · exact hcovered₁

end FullTask

def Share (a b : Operation κ) : Prop := ∃ o,o∈a.objects ∧ o∈b.objects

def InTurn (g : ℕ → Wait) (earlier later : Operation κ) : Prop :=
  Share earlier later → Relation.TransGen (WaitGraph.Waits (waits g)) later.task earlier.task

/-- The queues as they are at any time. -/
structure Orderly (g : ℕ → Wait) (s : TaskQueues κ ε) : Prop where
  sound : Sound g s.heap
  waiting : Waiting s.heap
  covered : ∀ o,∃ l,TailCovers g s.heap (s.tails o) l ∧
    ∀ x,x∈l ↔ ∃ op∈s.operations,o∈op.objects ∧ op.task = x
  inTurn : s.operations.Pairwise (InTurn g)
  grounded : (∀ op∈s.operations,op.objects.Nodup) →
    ∀ n < s.heap.next,WaitGraph.Grounded (waits g) n
  knotted : ∀ op∈s.operations,¬op.objects.Nodup → WaitGraph.InCircle (waits g) op.task
  there : ∀ op∈s.operations,op.task < s.heap.next

theorem orderly_initial : Orderly (fun _ => .nothing) (initial : TaskQueues κ ε) where
  sound := by
    refine ⟨wired_empty,fun n _ => rfl,fun n hn => ?_,fun n parts outcome hn => ?_⟩
    · cases hn
    · cases hn
  waiting n hn := absurd hn (Nat.not_lt_zero n)
  covered o := ⟨[],rfl,fun x => by simp [initial]⟩
  inTurn := List.Pairwise.nil
  grounded _ n hn := absurd hn (Nat.not_lt_zero n)
  knotted op hop := absurd hop List.not_mem_nil
  there op hop := absurd hop List.not_mem_nil

/-- What has to be shown of the tasks that an enqueued operation adds. -/
theorem Orderly.extend {new : List (Operation κ)} (hs : Orderly g s)
    (hpair : new.Pairwise (InTurn g')) (hsound : Sound g' s'.heap)
    (hgrown : Grown g g' s.heap s'.heap) (hops : s'.operations = s.operations++new)
    (hcovered : ∀ o l,TailCovers g s.heap (s.tails o) l →
      ∃ l',TailCovers g' s'.heap (s'.tails o) l' ∧
        ∀ x,x∈l' ↔ x∈l ∨ ∃ op∈new,o∈op.objects ∧ op.task = x)
    (hbehind : ∀ op∈new,∀ o∈op.objects,∀ l,TailCovers g s.heap (s.tails o) l →
      ∀ x∈l,Relation.TransGen (WaitGraph.Waits (waits g')) op.task x)
    (hgrounded : (∀ op∈new,op.objects.Nodup) →
      (∀ n < s.heap.next,WaitGraph.Grounded (waits g') n) →
      ∀ n,s.heap.next ≤ n → WaitGraph.Grounded (waits g') n)
    (hknotted : ∀ op∈new,¬op.objects.Nodup → WaitGraph.InCircle (waits g') op.task)
    (hthere : ∀ op∈new,op.task < s'.heap.next) : Orderly g' s' where
  sound := hsound
  waiting := hgrown.waiting hs.waiting
  covered o := by
    obtain ⟨l,hl,hmem⟩ := hs.covered o
    obtain ⟨l',hl',hmem'⟩ := hcovered o l hl
    refine ⟨l',hl',fun x => ?_⟩
    rw [hmem',hmem,hops]
    simp only [List.mem_append,or_and_right,exists_or]
  inTurn := by
    have hgrows := hgrown.grows hs.sound.wired
    rw [hops,List.pairwise_append]
    refine ⟨?_,hpair,?_⟩
    · refine List.Pairwise.imp_of_mem ?_ hs.inTurn
      intro a b _ hb hturn hshare
      exact hgrows.behind (hs.there b hb) (hturn hshare)
    · rintro a ha b hb ⟨o,hoa,hob⟩
      obtain ⟨l,hl,hmem⟩ := hs.covered o
      exact hbehind b hb o hob l hl a.task ((hmem _).mpr ⟨a,ha,hoa,rfl⟩)
  grounded hnodup n hn := by
    rw [hops] at hnodup
    have hold : ∀ n < s.heap.next,WaitGraph.Grounded (waits g') n := by
      intro n hn
      refine (hgrown.grows hs.sound.wired).grounded hn (hs.grounded ?_ n hn)
      exact fun op hop => hnodup op (List.mem_append_left _ hop)
    rcases Nat.lt_or_ge n s.heap.next with hlt | hge
    · exact hold n hlt
    · exact hgrounded (fun op hop => hnodup op (List.mem_append_right _ hop)) hold n hge
  knotted op hop hdup := by
    rw [hops] at hop
    rcases List.mem_append.mp hop with hop | hop
    · exact (hgrown.grows hs.sound.wired).behind (hs.there op hop) (hs.knotted op hop hdup)
    · exact hknotted op hop hdup
  there op hop := by
    rw [hops] at hop
    rcases List.mem_append.mp hop with hop | hop
    · exact (hs.there op hop).trans_le hgrown.next
    · exact hthere op hop

theorem grounded_of_older
    (hkept : ∀ n < s.heap.next,WaitGraph.Grounded (waits g') n)
    (holder : ∀ n,s.heap.next ≤ n → ∀ d∈waits g' n,d < n) (n : ℕ) :
    WaitGraph.Grounded (waits g') n := by
  induction n using Nat.strong_induction_on with
  | _ n ih =>
    rcases Nat.lt_or_ge n s.heap.next with hlt | hge
    · exact hkept n hlt
    · exact Acc.intro n fun d hd => ih d (holder n hge d hd)

section Events

variable [DecidableEq κ] {o : κ}

theorem orderly_waitUntilFinished (o : κ) (hs : Orderly g s) :
    ∃ g',Orderly g' (s.waitUntilFinished o) ∧ Grown g g' s.heap (s.waitUntilFinished o).heap := by
  obtain ⟨h₀,c,hold⟩ : ∃ h₀ c,s.oldTail o = (h₀,c) := ⟨_,_,rfl⟩
  obtain ⟨l₀,hl₀,_⟩ := hs.covered o
  have hc := oldTail_lt hs.sound hl₀ hold
  have hsound₀ := sound_oldTail (o:=o) hs.sound
  have hgrown₀ := grown_oldTail (s:=s) (o:=o) g
  simp only [hold] at hsound₀ hgrown₀
  have hsound := sound_newTail hsound₀ (Grown.refl g h₀) hc hc
  have hgrown := grown_newTail g h₀ c c
  have heq : s.waitUntilFinished o = {s with
      heap := h₀.taskForCompletionOfAllTasks [c,c]
      tails := Function.update s.tails o (some h₀.next)} := by
    rw [waitUntilFinished,enqueue_eq (fun h toAwait => (h,toAwait)) hold rfl]
  refine ⟨Function.update g h₀.next (.forAll [c,c]),?_,by rw [heq]; exact hgrown₀.trans hgrown⟩
  refine Orderly.extend hs (List.Pairwise.nil : List.Pairwise _ []) ?_ ?_ ?_ ?_ ?_ ?_ ?_ ?_
  · rw [heq]
    exact hsound
  · rw [heq]
    exact hgrown₀.trans hgrown
  · rw [heq]
    exact (List.append_nil _).symm
  · intro o' l hl
    refine ⟨l,?_,fun x => by simp⟩
    rw [heq]
    by_cases ho : o' = o
    · subst ho
      simp only [Function.update_self]
      have hcl := covers_oldTail hs.sound hl
      rw [hold] at hcl
      exact Covers.again (Function.update_self _ _ _) (hcl.grown hgrown hsound₀.wired)
    · simp only [Function.update_of_ne ho]
      exact hl.grown (hgrown₀.trans hgrown) hs.sound.wired
  · exact fun op hop => absurd hop List.not_mem_nil
  · intro _ hkept n _
    refine grounded_of_older hkept (fun n hn d hd => ?_) n
    by_cases hnt : n = h₀.next
    · subst hnt
      rw [waits,Function.update_self] at hd
      simp only [Wait.parts,List.mem_cons,List.not_mem_nil,or_false,or_self] at hd
      rw [hd]
      exact hc
    · rw [waits,Function.update_of_ne hnt,(hs.sound.wired.fresh n hn).2] at hd
      exact absurd hd List.not_mem_nil
  · exact fun op hop => absurd hop List.not_mem_nil
  · exact fun op hop => absurd hop List.not_mem_nil

theorem orderly_enqueueOne (o : κ) (work : Work) (hs : Orderly g s) :
    ∃ g',Orderly g' (s.enqueueOne o work) ∧ Grown g g' s.heap (s.enqueueOne o work).heap := by
  obtain ⟨h₀,c,hold⟩ : ∃ h₀ c,s.oldTail o = (h₀,c) := ⟨_,_,rfl⟩
  obtain ⟨l₀,hl₀,_⟩ := hs.covered o
  have hc := oldTail_lt hs.sound hl₀ hold
  have hsound₀ := sound_oldTail (o:=o) hs.sound
  have hgrown₀ := grown_oldTail (s:=s) (o:=o) g
  simp only [hold] at hsound₀ hgrown₀
  -- the task of the operation, and then the new tail
  have hsound₁ : Sound (Function.update g h₀.next (.toBegin c)) (h₀.continueWithWork c) :=
    hsound₀.newTask_await (w:=.toBegin c) fun d hd => by rw [List.mem_singleton.mp hd]; exact hc
  have hgrown₁ : Grown g (Function.update g h₀.next (.toBegin c)) h₀ (h₀.continueWithWork c) :=
    Grown.newTask_await (w:=.toBegin c) (List.cons_ne_nil _ _)
  have hnext₁ : (h₀.continueWithWork c).next = h₀.next+1 := Wired.next_await
  have hlt : h₀.next < (h₀.continueWithWork c).next := by omega
  have hsound := sound_newTail hsound₁ hgrown₁ hc hlt
  have hgrown := grown_newTail (Function.update g h₀.next (.toBegin c)) (h₀.continueWithWork c) c
    h₀.next
  have heq : s.enqueueOne o work = {s with
      heap := (h₀.continueWithWork c).taskForCompletionOfAllTasks [c,h₀.next]
      tails := Function.update s.tails o (some (h₀.continueWithWork c).next)
      operations := s.operations++[⟨[o],h₀.next,work⟩]} := by
    rw [enqueueOne,enqueue_eq (fun h toAwait => (h.continueWithWork toAwait,h.next))
      hold rfl]
  generalize hg' : Function.update (Function.update g h₀.next (.toBegin c))
    (h₀.continueWithWork c).next (.forAll [c,h₀.next]) = g' at hsound hgrown
  have htask : g' h₀.next = .toBegin c := by
    rw [← hg',Function.update_of_ne (by rw [hnext₁]; omega),Function.update_self]
  have htail : g' (h₀.continueWithWork c).next = .forAll [c,h₀.next] := by
    rw [← hg',Function.update_self]
  have hcovers : ∀ l,TailCovers g s.heap (s.tails o) l →
      Covers g' ((h₀.continueWithWork c).taskForCompletionOfAllTasks [c,h₀.next]) c l := by
    intro l hl
    have hcl := covers_oldTail hs.sound hl
    rw [hold] at hcl
    exact hcl.grown (hgrown₁.trans hgrown) hsound₀.wired
  refine ⟨g',Orderly.extend hs (List.pairwise_singleton _ ⟨[o],h₀.next,work⟩)
    ?_ ?_ ?_ ?_ ?_ ?_ ?_ ?_,by rw [heq]; exact hgrown₀.trans (hgrown₁.trans hgrown)⟩
  · rw [heq]
    exact hsound
  · rw [heq]
    exact hgrown₀.trans (hgrown₁.trans hgrown)
  · rw [heq]
  · intro o' l hl
    rw [heq]
    by_cases ho : o' = o
    · subst ho
      refine ⟨l++[h₀.next],?_,fun x => by simp [eq_comm]⟩
      simp only [Function.update_self]
      exact Covers.next htail (hcovers l hl)
    · refine ⟨l,?_,fun x => by simp [ho]⟩
      simp only [Function.update_of_ne ho]
      exact hl.grown (hgrown₀.trans (hgrown₁.trans hgrown)) hs.sound.wired
  · intro op hop o' ho' l hl x hx
    rw [List.mem_singleton.mp hop] at ho' ⊢
    rw [List.mem_singleton.mp ho'] at hl
    refine Relation.TransGen.head (b:=c) ?_ ((hcovers l hl).reaches hx)
    rw [WaitGraph.Waits,waits,htask]
    exact List.mem_cons_self
  · intro _ hkept n _
    refine grounded_of_older hkept (fun n hn d hd => ?_) n
    by_cases hnt : n = (h₀.continueWithWork c).next
    · subst hnt
      rw [waits,htail] at hd
      rcases List.mem_cons.mp hd with rfl | hd
      · omega
      · rw [List.mem_singleton.mp hd]
        omega
    · by_cases hnf : n = h₀.next
      · subst hnf
        rw [waits,htask] at hd
        rw [List.mem_singleton.mp hd]
        exact hc
      · rw [waits,← hg',Function.update_of_ne hnt,Function.update_of_ne hnf,
          (hs.sound.wired.fresh n hn).2] at hd
        exact absurd hd List.not_mem_nil
  · intro op hop hdup
    rw [List.mem_singleton.mp hop] at hdup
    exact absurd (List.nodup_singleton o) hdup
  · intro op hop
    rw [List.mem_singleton.mp hop,heq]
    exact hlt.trans_le hgrown.next

/-- The graph once a task has been put into the queues of some objects: the full task waits
for its signal, the signal for all the queues, and these for what the queues were. -/
structure Signalled (g g' : ℕ → Wait) (s s' : TaskQueues κ ε) (objects : List κ) (work : Work)
    (cs : List ℕ) : Prop where
  sound : Sound g' s'.heap
  grown : Grown g g' s.heap s'.heap
  operations : s'.operations = s.operations++[⟨objects,s.heap.next+1,work⟩]
  task : s.heap.next+1 < s'.heap.next
  signal : waits g' (s.heap.next+1) = [s.heap.next]
  ready : ∃ a,waits g' s.heap.next = [a] ∧ waits g' a = cs ∧ s.heap.next+1 < a
  covers : ∀ o l,TailCovers g s.heap (s.tails o) l → ∃ l',TailCovers g' s'.heap (s'.tails o) l' ∧
    ∀ x,x∈l' ↔ x∈l ∨ o∈objects ∧ x = s.heap.next+1
  reaches : ∀ o∈objects,∀ t,s.tails o = some t →
    ∃ c∈cs,Relation.ReflTransGen (WaitGraph.Waits (waits g')) c t
  shape : ∀ n,s.heap.next+1 < n → waits g' n = [] ∨ waits g' n = cs ∨
    ∃ c∈cs,waits g' n = [c,s.heap.next+1]
  children : objects.Nodup → ∀ c∈cs,c < s.heap.next ∨ waits g' c = []
  circle : ¬objects.Nodup → ∃ c∈cs,Relation.TransGen (WaitGraph.Waits (waits g')) c
    (s.heap.next+1)

omit [DecidableEq κ] in
/-- The signal and the full task, before they are in any queue. -/
theorem announced (hs : Sound g s.heap) :
    ∃ g',Sound g' (s.heap.newTask.continueWithWork s.heap.next) ∧
      Grown g g' s.heap.newTask (s.heap.newTask.continueWithWork s.heap.next) ∧
      g' (s.heap.next+1) = .toBegin s.heap.next ∧ g' s.heap.next = .nothing ∧
      ∀ tail l,TailCovers g s.heap tail l →
        TailCovers g' (s.heap.newTask.continueWithWork s.heap.next) tail l := by
  have hgrown : Grown g (Function.update g (s.heap.next+1) (.toBegin s.heap.next)) s.heap.newTask
      (s.heap.newTask.continueWithWork s.heap.next) :=
    Grown.newTask_await (h:=s.heap.newTask) (w:=.toBegin s.heap.next) (List.cons_ne_nil _ _)
  refine ⟨Function.update g (s.heap.next+1) (.toBegin s.heap.next),?_,hgrown,?_,?_,?_⟩
  · refine hs.newTask.newTask_await (w:=.toBegin s.heap.next) fun d hd => ?_
    rw [List.mem_singleton.mp hd]
    exact Nat.lt_succ_self _
  · rw [Function.update_self]
  · rw [Function.update_of_ne (Nat.ne_of_lt (Nat.lt_succ_self _))]
    exact (hs.wired.fresh s.heap.next (Nat.le_refl _)).2
  · intro tail l hl
    have hlater : Later s.heap s.heap.newTask :=
      ⟨Nat.le_succ _,fun _ _ ho => ho,fun _ hb => hb⟩
    exact (hl.later hlater).grown hgrown hs.newTask.wired

theorem signalled (objects : List κ) (work : Work) (hs : Orderly g s) :
    ∃ g' cs,Signalled g g' s (s.enqueueForObjects objects work) objects work cs := by
  have hfresh := hs.sound.wired.fresh s.heap.next (Nat.le_refl _)
  have hnext₁ : (s.heap.newTask.continueWithWork s.heap.next).next = s.heap.next+2 :=
    Wired.next_await
  obtain ⟨g₁,hsound₁,hgrown₁,htask₁,hready₁,hcovers₁⟩ := announced hs.sound
  generalize hh₁ : s.heap.newTask.continueWithWork s.heap.next = h₁ at *
  -- the queues of the objects
  obtain ⟨g₂,hin⟩ := inQueues (s:={s with heap := h₁}) (f:=s.heap.next+1) objects
    hsound₁ (by rw [hnext₁]; omega) fun o => ⟨_,hcovers₁ _ _ (hs.covered o).choose_spec.1⟩
  generalize hloop : enqueueFullTask (s.heap.next+1) {s with heap := h₁} objects = loop at hin
  obtain ⟨s₂,cs⟩ := loop
  simp only at hin
  -- the task for all of them
  obtain ⟨g₃,hsound₃,hgrown₃,hall₃,hnext₃,hkept₃⟩ :=
    Grown.taskForCompletionOfAllTasks hin.sound hin.bounded
  have hgrown : Grown g g₃ s.heap.newTask (s₂.heap.taskForCompletionOfAllTasks cs) :=
    hgrown₁.trans (hin.grown.trans hgrown₃)
  have hle₂ : s.heap.next+2 ≤ s₂.heap.next := hnext₁ ▸ hin.grown.next
  have hready₂ : g₂ s.heap.next = .nothing :=
    (hin.grown.kept _ (by rw [hnext₁]; omega)).trans hready₁
  have hready₃ : g₃ s.heap.next = .nothing :=
    (hgrown₃.kept _ (by omega)).trans hready₂
  have hlt₃ : s.heap.next < (s₂.heap.taskForCompletionOfAllTasks cs).next := by
    rw [hnext₃]
    omega
  have hopen₃ : ((s₂.heap.taskForCompletionOfAllTasks cs).tasks s.heap.next).goneOn = false := by
    rw [BFTask.goneOn,BFTask.completed,hgrown.outcome _ (Nat.lt_succ_self _),
      hgrown.begun _ (Nat.lt_succ_self _)]
    rw [show s.heap.newTask.tasks s.heap.next = .new from hfresh.1]
    rfl
  -- the signal is told what to wait for
  have heq : s.enqueueForObjects objects work = {s₂ with
      heap := (s₂.heap.taskForCompletionOfAllTasks cs).await s.heap.next [s₂.heap.next]
        (Wait.block s.heap.next (.toSetResult s₂.heap.next))
      operations := s₂.operations++[⟨objects,s.heap.next+1,work⟩]} := by
    rw [enqueueForObjects]
    simp only [hh₁]
    rw [show s.heap.newTask.next = s.heap.next+1 from rfl,hloop]
    rfl
  have hsound := hsound₃.await (w:=.toSetResult s₂.heap.next) hlt₃ hready₃ hopen₃
    (fun parts hparts => by cases hparts) fun d hd => by
      rw [List.mem_singleton.mp hd,hnext₃]
      exact Nat.lt_succ_self _
  have hfinal := hgrown.link (w:=.toSetResult s₂.heap.next) (List.cons_ne_nil _ _)
  generalize hg : Function.update g₃ s.heap.next (.toSetResult s₂.heap.next) = g' at hsound hfinal
  have hother : ∀ n,n ≠ s.heap.next → g' n = g₃ n := by
    intro n hn
    rw [← hg]
    exact Function.update_of_ne hn _ _
  have hedge : ∀ n d,WaitGraph.Waits (waits g₂) n d → WaitGraph.Waits (waits g') n d := by
    intro n d hd
    have hn : n ≠ s.heap.next := by
      rintro rfl
      rw [WaitGraph.Waits,waits,hready₂] at hd
      exact absurd hd List.not_mem_nil
    have hna : n ≠ s₂.heap.next := by
      rintro rfl
      rw [WaitGraph.Waits,waits,(hin.sound.wired.fresh _ (Nat.le_refl _)).2] at hd
      exact absurd hd List.not_mem_nil
    rw [WaitGraph.Waits,waits,hother n hn,hkept₃ n hna]
    exact hd
  have hshape : ∀ n,s.heap.next+1 < n → waits g' n = [] ∨ waits g' n = cs ∨
      ∃ c∈cs,waits g' n = [c,s.heap.next+1] := by
    intro n hn
    rw [waits,hother n (by omega)]
    by_cases hna : n = s₂.heap.next
    · rw [hna]
      exact Or.inr (Or.inl hall₃)
    · rw [hkept₃ n hna]
      rcases hin.shape n (by simp only [hnext₁]; omega) with hnone | ⟨c,hc,hpair⟩
      · rw [hnone]
        exact Or.inl rfl
      · rw [hpair]
        exact Or.inr (Or.inr ⟨c,hc,rfl⟩)
  refine ⟨g',cs,?_⟩
  rw [heq]
  refine ⟨hsound,hfinal,?_,?_,?_,?_,?_,?_,hshape,?_,?_⟩
  · simp only [hin.operations]
  · simp only [Wired.next_await,hnext₃]
    omega
  · rw [waits,hother _ (by omega),hkept₃ _ (by omega),
      hin.grown.kept _ (by simp only [hnext₁]; omega),htask₁]
    rfl
  · refine ⟨s₂.heap.next,?_,?_,by omega⟩
    · rw [waits,← hg,Function.update_self]
      rfl
    · rw [waits,hother _ (by omega)]
      exact hall₃
  · intro o l hl
    have hl₁ := hcovers₁ (s.tails o) l hl
    have hlink : ∀ l',TailCovers g₂ s₂.heap (s₂.tails o) l' → TailCovers g'
        ((s₂.heap.taskForCompletionOfAllTasks cs).await s.heap.next [s₂.heap.next]
          (Wait.block s.heap.next (.toSetResult s₂.heap.next))) (s₂.tails o) l' := by
      intro l' hl'
      rw [← hg]
      exact (hl'.grown hgrown₃ hin.sound.wired).await hready₃ (completed_of_open hopen₃)
    by_cases ho : o∈objects
    · obtain ⟨l',hl',hmem⟩ := hin.covers o ho l hl₁
      refine ⟨l',hlink l' hl',fun x => ?_⟩
      rw [hmem]
      simp only [ho,true_and]
    · refine ⟨l,hlink l ?_,fun x => ?_⟩
      · rw [hin.others o ho]
        exact hl₁.grown hin.grown hsound₁.wired
      · simp only [ho,false_and,or_false]
  · intro o ho t ht
    obtain ⟨c,hc,hreach⟩ := hin.reaches o ho t ht
    exact ⟨c,hc,Relation.ReflTransGen.mono hedge _ _ hreach⟩
  · intro hnodup c hc
    rcases hin.children hnodup c hc with ⟨o,_,htail⟩ | ⟨hle,hnone⟩
    · left
      obtain ⟨l,hl,_⟩ := hs.covered o
      rw [show s.tails o = some c from htail] at hl
      exact Covers.lt_next hs.sound.wired hl
    · right
      have hlt := hin.bounded c hc
      simp only [hnext₁] at hle
      rw [waits,hother c (by omega),hkept₃ c (by omega),hnone]
      rfl
  · intro hdup
    obtain ⟨c,hc,hreach⟩ := hin.circle hdup
    exact ⟨c,hc,Relation.TransGen.mono hedge _ _ hreach⟩

omit [DecidableEq κ] in
theorem Signalled.orderly {objects : List κ} {work : Work} {cs : List ℕ} (hs : Orderly g s)
    (hsig : Signalled g g' s s' objects work cs) : Orderly g' s' := by
  obtain ⟨a,hready,hall,ha⟩ := hsig.ready
  have hsignal : WaitGraph.Waits (waits g') (s.heap.next+1) s.heap.next := by
    rw [WaitGraph.Waits,hsig.signal]
    exact List.mem_cons_self
  have hready' : WaitGraph.Waits (waits g') s.heap.next a := by
    rw [WaitGraph.Waits,hready]
    exact List.mem_cons_self
  have hchild : ∀ c∈cs,Relation.TransGen (WaitGraph.Waits (waits g')) (s.heap.next+1) c := by
    intro c hc
    have hac : WaitGraph.Waits (waits g') a c := by
      rw [WaitGraph.Waits,hall]
      exact hc
    exact ((Relation.TransGen.single hsignal).tail hready').tail hac
  refine Orderly.extend hs (List.pairwise_singleton _ ⟨objects,s.heap.next+1,work⟩) hsig.sound
    hsig.grown hsig.operations ?_ ?_ ?_ ?_ ?_
  · intro o l hl
    obtain ⟨l',hl',hmem⟩ := hsig.covers o l hl
    refine ⟨l',hl',fun x => ?_⟩
    rw [hmem]
    simp [eq_comm]
  · intro op hop o ho l hl x hx
    rw [List.mem_singleton.mp hop] at ho ⊢
    cases htail : s.tails o with
    | none =>
      rw [htail] at hl
      rw [show l = [] from hl] at hx
      exact absurd hx List.not_mem_nil
    | some t =>
      obtain ⟨c,hc,hreach⟩ := hsig.reaches o ho t htail
      rw [htail] at hl
      have hcovers : Covers g' s'.heap t l := Covers.grown hsig.grown hs.sound.wired hl
      exact ((hchild c hc).trans_left hreach).trans (hcovers.reaches hx)
  · intro hnodup hkept
    have hcs : ∀ c∈cs,WaitGraph.Grounded (waits g') c := by
      intro c hc
      rcases hsig.children (hnodup _ (List.mem_singleton_self _)) c hc with hlt | hnone
      · exact hkept c hlt
      · refine Acc.intro c fun d hd => ?_
        rw [WaitGraph.Waits,hnone] at hd
        exact absurd hd List.not_mem_nil
    have hgalled : ∀ n,waits g' n = cs → WaitGraph.Grounded (waits g') n := by
      intro n hn
      refine Acc.intro n fun d hd => hcs d ?_
      rw [WaitGraph.Waits,hn] at hd
      exact hd
    have hgready : WaitGraph.Grounded (waits g') s.heap.next := by
      refine Acc.intro _ fun d hd => ?_
      rw [WaitGraph.Waits,hready] at hd
      rw [List.mem_singleton.mp hd]
      exact hgalled a hall
    have hgtask : WaitGraph.Grounded (waits g') (s.heap.next+1) := by
      refine Acc.intro _ fun d hd => ?_
      rw [WaitGraph.Waits,hsig.signal] at hd
      rw [List.mem_singleton.mp hd]
      exact hgready
    intro n hn
    rcases Nat.lt_or_ge (s.heap.next+1) n with hlt | hge
    · rcases hsig.shape n hlt with hnone | hsame | ⟨c,hc,htail⟩
      · refine Acc.intro n fun d hd => ?_
        rw [WaitGraph.Waits,hnone] at hd
        exact absurd hd List.not_mem_nil
      · exact hgalled n hsame
      · refine Acc.intro n fun d hd => ?_
        rw [WaitGraph.Waits,htail] at hd
        rcases List.mem_cons.mp hd with rfl | hd
        · exact hcs d hc
        · rw [List.mem_singleton.mp hd]
          exact hgtask
    · have hwhich : n = s.heap.next ∨ n = s.heap.next+1 := by omega
      rcases hwhich with rfl | rfl
      · exact hgready
      · exact hgtask
  · intro op hop hdup
    rw [List.mem_singleton.mp hop] at hdup ⊢
    obtain ⟨c,hc,hreach⟩ := hsig.circle hdup
    exact (hchild c hc).trans hreach
  · intro op hop
    rw [List.mem_singleton.mp hop]
    exact hsig.task

end Events

end TaskQueues
end CourseraObjC
