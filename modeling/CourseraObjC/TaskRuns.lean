import CourseraObjC.TaskWiring
import CourseraObjC.WaitGraph

/-! What a block that runs and work that ends do to a wired heap: nothing goes on before what
it waits for has ended, no task is set twice, and at rest only a task that waits for another
open one is still open. -/
namespace CourseraObjC
namespace Bolts

variable {ε : Type} {g : ℕ → Wait} {h : Heap ε} {n : ℕ}

def waits (g : ℕ → Wait) (n : ℕ) : List ℕ := (g n).parts

/-- A wired heap in which no task of a circle has gone on, only tasks that stand for work
have begun, and the tasks for all of some tasks have ended as those did. -/
structure Sound (g : ℕ → Wait) (h : Heap ε) : Prop where
  wired : Wired g h
  circles : ∀ n,WaitGraph.InCircle (waits g) n → (h.tasks n).goneOn = false
  work : ∀ n,(h.tasks n).begun = true → ∃ d,g n = .toBegin d
  told : ∀ n parts outcome,g n = .forAll parts → (h.tasks n).outcome = some outcome →
    outcome = (h.tasks n).outcomeOfAll

def Waiting (h : Heap ε) : Prop :=
  ∀ n < h.next,(h.tasks n).goneOn = false → 0 < (h.tasks n).total

/-- What has ended stays ended as it did, and what has begun has begun. -/
structure Later (h h' : Heap ε) : Prop where
  next : h.next ≤ h'.next
  outcome : ∀ n outcome,(h.tasks n).outcome = some outcome → (h'.tasks n).outcome = some outcome
  begun : ∀ n,(h.tasks n).begun = true → (h'.tasks n).begun = true

theorem BFTask.goneOn_of_completed {t : BFTask ε} (ht : t.completed = true) : t.goneOn = true := by
  rw [BFTask.goneOn,ht,Bool.or_true]

namespace Sound

theorem not_inCircle (hs : Sound g h) (hn : (h.tasks n).total = 0) :
    ¬WaitGraph.InCircle (waits g) n := by
  have hready := (hs.wired.of_total_eq_zero hn).1
  refine WaitGraph.not_inCircle_of_ready (fun d => (h.tasks d).goneOn = true) ?_ ?_
  · intro d hd
    rw [hs.circles d hd]
    decide
  · intro d hd
    exact BFTask.goneOn_of_completed (hready d hd)

theorem respects (hs : Sound g h) :
    WaitGraph.Respects (waits g) fun n => (h.tasks n).completed = true :=
  fun _ hn => hs.wired.completed_of_goneOn (BFTask.goneOn_of_completed hn)

section All

variable {parts : List ℕ}

theorem seen_all {q : Outcome ε → Bool} {seen : List (TaskError ε) → ℕ → ℕ} (hs : Sound g h)
    (hnotes : Notes q seen g h) (hall : g n = .forAll parts)
    (hdone : (h.tasks n).completed = true) :
    seen (h.tasks n).errors (h.tasks n).cancelled =
      parts.countP fun d => (h.tasks d).outcome.any q := by
  have hzero := hs.wired.goneOn n (BFTask.goneOn_of_completed hdone)
  have hunder : h.executions.countP (tells q h n) = 0 := by
    rw [List.countP_eq_zero]
    intro b hb
    rw [tells_of_ne ((hs.wired.of_total_eq_zero hzero).2 b hb)]
    decide
  have hcount := hnotes n parts hall
  omega

theorem faulted_iff (hs : Sound g h) (hall : g n = .forAll parts)
    (hdone : (h.tasks n).completed = true) :
    (h.tasks n).faulted = true ↔ ∃ d∈parts,(h.tasks d).faulted = true := by
  obtain ⟨outcome,houtcome⟩ := Option.isSome_iff_exists.mp hdone
  have hseen := hs.seen_all hs.wired.faults hall hdone
  have herrors : (h.tasks n).errors ≠ [] ↔ ∃ d∈parts,(h.tasks d).faulted = true := by
    rw [← List.length_pos_iff,hseen,List.countP_pos_iff]
    rfl
  rw [BFTask.faulted,houtcome,hs.told n parts outcome hall houtcome,← herrors]
  exact (h.tasks n).isFaulted_outcomeOfAll

theorem cancelled_iff (hs : Sound g h) (hall : g n = .forAll parts)
    (hdone : (h.tasks n).completed = true) :
    (h.tasks n).isCancelled = true ↔ (∀ d∈parts,(h.tasks d).faulted = false) ∧
      ∃ d∈parts,(h.tasks d).isCancelled = true := by
  obtain ⟨outcome,houtcome⟩ := Option.isSome_iff_exists.mp hdone
  have hfaults := hs.seen_all hs.wired.faults hall hdone
  have hcancels := hs.seen_all hs.wired.cancels hall hdone
  have herrors : (h.tasks n).errors = [] ↔ ∀ d∈parts,(h.tasks d).faulted = false := by
    rw [← List.length_eq_zero_iff,hfaults,List.countP_eq_zero]
    simp [BFTask.faulted]
  have hcount : 0 < (h.tasks n).cancelled ↔ ∃ d∈parts,(h.tasks d).isCancelled = true := by
    rw [hcancels,List.countP_pos_iff]
    rfl
  rw [BFTask.isCancelled,houtcome,hs.told n parts outcome hall houtcome,← herrors,← hcount]
  exact (h.tasks n).isCancelled_outcomeOfAll

end All

theorem finish {outcome : Outcome ε} (hs : Sound g h) (hn : n < h.next)
    (hopen : (h.tasks n).completed = false) (htotal : (h.tasks n).total = 0)
    (htold : ∀ parts,g n = .forAll parts → outcome = (h.tasks n).outcomeOfAll) :
    Sound g (h.finish n outcome) where
  wired := hs.wired.finish hn hopen htotal
  circles m hm := by
    have hmn : m ≠ n := by
      rintro rfl
      exact hs.not_inCircle htotal hm
    rw [Wired.tasks_finish_of_ne hmn]
    exact hs.circles m hm
  work m hm := by
    by_cases hmn : m = n
    · rw [hmn,Wired.tasks_finish_self] at hm
      rw [hmn]
      exact hs.work n hm
    · rw [Wired.tasks_finish_of_ne hmn] at hm
      exact hs.work m hm
  told m parts o hm ho := by
    by_cases hmn : m = n
    · subst hmn
      rw [Wired.tasks_finish_self] at ho ⊢
      rw [← Option.some.inj ho]
      exact htold parts hm
    · rw [Wired.tasks_finish_of_ne hmn] at ho ⊢
      exact hs.told m parts o hm ho

theorem start (hs : Sound g h) (hn : n < h.next) (htotal : (h.tasks n).total = 0)
    (hwork : ∃ d,g n = .toBegin d) : Sound g (h.start n) where
  wired := hs.wired.start hn htotal
  circles m hm := by
    have hmn : m ≠ n := by
      rintro rfl
      exact hs.not_inCircle htotal hm
    rw [Wired.tasks_start_of_ne hmn]
    exact hs.circles m hm
  work m hm := by
    by_cases hmn : m = n
    · rw [hmn]
      exact hwork
    · rw [Wired.tasks_start_of_ne hmn] at hm
      exact hs.work m hm
  told m parts o hm ho := by
    by_cases hmn : m = n
    · subst hmn
      rw [Wired.tasks_start_self] at ho ⊢
      exact hs.told m parts o hm ho
    · rw [Wired.tasks_start_of_ne hmn] at ho ⊢
      exact hs.told m parts o hm ho

theorem arrive {k : ℕ} {b : Block} (hs : Sound g h) (hk : h.executions[k]? = some b) :
    Sound g ((h.taken k).arrive b) where
  wired := hs.wired.arrive hk
  circles m hm := by
    rw [Wired.goneOn_arrive]
    exact hs.circles m hm
  work m hm := by
    rw [Wired.begun_arrive] at hm
    exact hs.work m hm
  told m parts o hm ho := by
    have hmb : m ≠ b.target := by
      rintro rfl
      have hopen := (hs.wired.open_of_mem (Wired.mem_executions hk)).2
      rw [Wired.outcome_arrive] at ho
      rw [BFTask.goneOn_of_completed (by rw [BFTask.completed,ho]; rfl)] at hopen
      exact absurd hopen (by decide)
    rw [Wired.tasks_arrive_of_ne hmb] at ho ⊢
    exact hs.told m parts o hm ho

end Sound

theorem Later.refl (h : Heap ε) : Later h h := ⟨Nat.le_refl _,fun _ _ ho => ho,fun _ hb => hb⟩

theorem Later.trans {h₁ h₂ h₃ : Heap ε} (ha : Later h₁ h₂) (hb : Later h₂ h₃) : Later h₁ h₃ :=
  ⟨ha.next.trans hb.next,fun n o ho => hb.outcome n o (ha.outcome n o ho),
    fun n hn => hb.begun n (ha.begun n hn)⟩

theorem later_finish {outcome : Outcome ε} (hopen : (h.tasks n).completed = false) :
    Later h (h.finish n outcome) where
  next := Nat.le_refl _
  outcome m o ho := by
    have hmn : m ≠ n := by
      rintro rfl
      rw [BFTask.completed,ho] at hopen
      exact absurd hopen Bool.true_eq_false.mp
    rw [Wired.tasks_finish_of_ne hmn]
    exact ho
  begun m hm := by
    by_cases hmn : m = n
    · subst hmn
      rw [Wired.tasks_finish_self]
      exact hm
    · rw [Wired.tasks_finish_of_ne hmn]
      exact hm

theorem later_start : Later h (h.start n) where
  next := Nat.le_refl _
  outcome m o ho := by
    rw [Wired.outcome_start]
    exact ho
  begun m hm := by
    by_cases hmn : m = n
    · subst hmn
      rw [Wired.tasks_start_self]
    · rw [Wired.tasks_start_of_ne hmn]
      exact hm

theorem later_arrive {k : ℕ} {b : Block} : Later h ((h.taken k).arrive b) where
  next := Nat.le_of_eq Wired.next_arrive.symm
  outcome m o ho := by
    rw [Wired.outcome_arrive]
    exact ho
  begun m hm := by
    rw [Wired.begun_arrive]
    exact hm

/-- All waits but perhaps `n`, which goes on in `h'`. -/
theorem waiting_of_goneOn {h' : Heap ε} (hnext : h'.next = h.next)
    (hkept : ∀ m,m ≠ n → h'.tasks m = h.tasks m) (hgone : (h'.tasks n).goneOn = true)
    (hwaiting : ∀ m < h.next,m ≠ n → (h.tasks m).goneOn = false → 0 < (h.tasks m).total) :
    Waiting h' := by
  intro m hm hopen
  rw [hnext] at hm
  have hmn : m ≠ n := by
    rintro rfl
    rw [hgone] at hopen
    exact absurd hopen (by decide)
  rw [hkept m hmn] at hopen ⊢
  exact hwaiting m hm hmn hopen

theorem goneOn_finish {outcome : Outcome ε} : ((h.finish n outcome).tasks n).goneOn = true := by
  rw [Wired.tasks_finish_self]
  exact BFTask.goneOn_of_completed rfl

theorem complete_of_open {outcome : Outcome ε} (hopen : (h.tasks n).goneOn = false) :
    h.complete n outcome = .ok (h.finish n outcome) := by
  have hcompleted : (h.tasks n).completed = false := by
    by_contra hdone
    rw [BFTask.goneOn_of_completed (by simpa using hdone)] at hopen
    exact absurd hopen (by decide)
  rw [Heap.complete,if_neg (by rw [hcompleted]; decide)]

theorem completed_of_open (hopen : (h.tasks n).goneOn = false) :
    (h.tasks n).completed = false := by
  simpa using (Bool.or_eq_false_iff.mp hopen).2

/-- A block that was handed out can run: no task is set twice. -/
theorem runBlock_spec {k : ℕ} {b : Block} (hs : Sound g h) (hwait : Waiting h)
    (hk : h.executions[k]? = some b) :
    ∃ h',(h.taken k).runBlock b = .ok h' ∧ Sound g h' ∧ Waiting h' ∧ Later h h' := by
  have hb := Wired.mem_executions hk
  obtain ⟨hpos,hopen⟩ := hs.wired.open_of_mem hb
  have hs' := hs.arrive hk
  obtain ⟨d,hd,hpart,hblock⟩ := hs.wired.executionBlocks b hb
  have hopen' : (((h.taken k).arrive b).tasks b.target).goneOn = false := by
    rw [Wired.goneOn_arrive]
    exact hopen
  have hnext : ((h.taken k).arrive b).next = h.next := Wired.next_arrive
  have hlt : b.target < ((h.taken k).arrive b).next := by
    rw [hnext]
    by_contra hle
    rw [(hs.wired.fresh b.target (by omega)).1] at hpos
    exact absurd hpos (Nat.lt_irrefl 0)
  have hothers : ∀ m < ((h.taken k).arrive b).next,m ≠ b.target →
      (((h.taken k).arrive b).tasks m).goneOn = false →
      0 < (((h.taken k).arrive b).tasks m).total := by
    intro m hm hmb hmopen
    rw [Wired.tasks_arrive_of_ne hmb] at hmopen ⊢
    exact hwait m (hnext ▸ hm) hmopen
  -- a task that waits for one other goes on with the first block
  have hsingle : (g b.target).parts.length ≤ 1 →
      (((h.taken k).arrive b).tasks b.target).total = 0 := by
    intro hlength
    have hbound := hs.wired.bound b.target
    rw [Wired.total_arrive_self]
    omega
  have hfinish : ∀ outcome,(((h.taken k).arrive b).tasks b.target).total = 0 →
      (∀ parts,g b.target = .forAll parts →
        outcome = (((h.taken k).arrive b).tasks b.target).outcomeOfAll) →
      ∃ h',((h.taken k).arrive b).complete b.target outcome = .ok h' ∧ Sound g h' ∧
        Waiting h' ∧ Later h h' := by
    intro outcome htotal htold
    refine ⟨_,complete_of_open hopen',?_,?_,later_arrive.trans (later_finish ?_)⟩
    · exact hs'.finish hlt (completed_of_open hopen') htotal htold
    · exact waiting_of_goneOn (h:=(h.taken k).arrive b) rfl
        (fun m hm => Wired.tasks_finish_of_ne hm) goneOn_finish hothers
    · exact completed_of_open hopen'
  cases hw : g b.target with
  | nothing =>
    rw [hw] at hpart
    exact absurd hpart List.not_mem_nil
  | forAll parts =>
    rw [hw,Wait.block] at hblock
    rw [hblock]
    rw [hblock] at hfinish hothers hs' hnext
    simp only [Block.target] at hfinish hothers
    rw [Heap.runBlock]
    by_cases htotal : (((h.taken k).arrive (.countDown d b.target)).tasks b.target).total = 0
    · simp only [htotal,if_true]
      exact hfinish _ htotal fun _ _ => rfl
    · simp only [htotal,if_false]
      refine ⟨_,rfl,hs',?_,later_arrive⟩
      intro m hm hmopen
      by_cases hmb : m = b.target
      · rw [hmb]
        exact Nat.pos_of_ne_zero htotal
      · exact hothers m hm hmb hmopen
  | toSetResult task =>
    have htotal := hsingle (by rw [hw]; exact Nat.le_refl 1)
    have htold : ∀ parts,g b.target = .forAll parts →
        Outcome.result = (((h.taken k).arrive b).tasks b.target).outcomeOfAll := by
      intro parts hparts
      rw [hw] at hparts
      cases hparts
    have hresult := hfinish .result htotal htold
    rw [hw,Wait.block] at hblock
    rw [hblock] at hresult ⊢
    exact hresult
  | toBegin task =>
    have htotal := hsingle (by rw [hw]; exact Nat.le_refl 1)
    have hstart : ∃ h',(Except.ok (((h.taken k).arrive b).start b.target) :
        Except NSException (Heap ε)) = .ok h' ∧ Sound g h' ∧ Waiting h' ∧ Later h h' := by
      refine ⟨_,rfl,hs'.start hlt htotal ⟨task,hw⟩,?_,later_arrive.trans later_start⟩
      refine waiting_of_goneOn (h:=(h.taken k).arrive b) rfl
        (fun m hm => Wired.tasks_start_of_ne hm) ?_ hothers
      rw [Wired.tasks_start_self]
      rfl
    rw [hw,Wait.block] at hblock
    rw [hblock] at hstart ⊢
    exact hstart

theorem tasks_complete {outcome : Outcome ε} {h' : Heap ε} {m : ℕ}
    (hok : h.complete n outcome = .ok h') (hm : m ≠ n) : h'.tasks m = h.tasks m := by
  rw [Heap.complete] at hok
  split_ifs at hok
  obtain rfl := Except.ok.inj hok
  exact Wired.tasks_finish_of_ne hm

theorem tasks_runBlock {k : ℕ} {b : Block} {h' : Heap ε} {m : ℕ}
    (hrun : (h.taken k).runBlock b = .ok h') (hm : m ≠ b.target) : h'.tasks m = h.tasks m := by
  refine Eq.trans ?_ (Wired.tasks_arrive_of_ne (h:=h) (k:=k) hm)
  cases b with
  | countDown part all =>
    rw [Heap.runBlock] at hrun
    split_ifs at hrun
    · exact tasks_complete hrun hm
    · rw [← Except.ok.inj hrun]
  | setResult task => exact tasks_complete hrun hm
  | begin task =>
    rw [← Except.ok.inj hrun]
    exact Wired.tasks_start_of_ne hm

theorem started_runBlock {k task : ℕ} {h' : Heap ε}
    (hrun : (h.taken k).runBlock (.begin task) = .ok h') :
    (h'.tasks task).begun = true ∧ (h'.tasks task).outcome = (h.tasks task).outcome := by
  obtain rfl := Except.ok.inj hrun
  rw [Wired.outcome_start,Wired.outcome_arrive,Wired.tasks_start_self]
  exact ⟨rfl,rfl⟩

theorem execute_spec {k : ℕ} {b : Block} (hs : Sound g h) (hwait : Waiting h)
    (hk : h.executions[k]? = some b) :
    ∃ h',h.execute k = .ok h' ∧ Sound g h' ∧ Waiting h' ∧ Later h h' := by
  obtain ⟨h',hrun,hspec⟩ := runBlock_spec hs hwait hk
  refine ⟨h',?_,hspec⟩
  rw [Heap.execute,hk]
  simp only [hrun]

theorem workEnded_spec {outcome : Outcome ε} {h' : Heap ε} (hs : Sound g h) (hwait : Waiting h)
    (hend : h.workEnded n outcome = .ok h') : Sound g h' ∧ Waiting h' ∧ Later h h' := by
  rw [Heap.workEnded] at hend
  split_ifs at hend with hguard
  obtain rfl := Except.ok.inj hend
  obtain ⟨hbegun,hopen⟩ : (h.tasks n).begun = true ∧ (h.tasks n).completed = false := by
    simpa using hguard
  have hgone : (h.tasks n).goneOn = true := by
    rw [BFTask.goneOn,hbegun,Bool.true_or]
  obtain ⟨d,hwork⟩ := hs.work n hbegun
  have hn : n < h.next := by
    by_contra hle
    rw [(hs.wired.fresh n (by omega)).2] at hwork
    cases hwork
  refine ⟨hs.finish hn hopen (hs.wired.goneOn n hgone) ?_,?_,later_finish hopen⟩
  · intro parts hparts
    rw [hwork] at hparts
    cases hparts
  · refine waiting_of_goneOn (h:=h) rfl (fun m hm => Wired.tasks_finish_of_ne hm) goneOn_finish ?_
    exact fun m hm _ hmopen => hwait m hm hmopen

/-- Where no block is left to run and no work is going on, what has not ended waits for
something that has not. -/
theorem atRest {h : Heap ε} (hs : Sound g h) (hwait : Waiting h) (hblocks : h.executions = [])
    (hwork : ∀ n < h.next,(h.tasks n).begun = true → (h.tasks n).completed = true)
    (hn : n < h.next) (hopen : (h.tasks n).completed = false) :
    ∃ d∈waits g n,d < h.next ∧ (h.tasks d).completed = false := by
  have hgone : (h.tasks n).goneOn = false := by
    rw [BFTask.goneOn,hopen,Bool.or_false]
    by_contra hbegun
    rw [hwork n hn (by simpa using hbegun)] at hopen
    exact absurd hopen (by decide)
  have hpos := hwait n hn hgone
  have hcount := hs.wired.counts n
  rw [hblocks,toward_nil] at hcount
  have hsome : ¬∀ d∈(g n).parts,(h.tasks d).completed = true := by
    rw [← unfinished_eq_zero]
    omega
  push Not at hsome
  obtain ⟨d,hd,hdopen⟩ := hsome
  exact ⟨d,hd,hs.wired.bounded n d hd,by simpa using hdopen⟩

end Bolts
end CourseraObjC
