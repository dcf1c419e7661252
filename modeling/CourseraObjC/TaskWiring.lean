import Mathlib.Data.List.Perm.Basic
import CourseraObjC.BoltsTasks

/-! The wiring of tasks: what each task of the heap waits for, and that its counter, the
callbacks of the other tasks and the blocks that were handed out add up to it. -/
namespace CourseraObjC
namespace Bolts

/-- What a task waits for. -/
inductive Wait
  | nothing
  | forAll (parts : List ℕ)
  | toSetResult (task : ℕ)
  | toBegin (task : ℕ)

def Wait.parts : Wait → List ℕ
  | .nothing => []
  | .forAll parts => parts
  | .toSetResult task => [task]
  | .toBegin task => [task]

/-- The block by which the task `n` is told of `part`. -/
def Wait.block (n : ℕ) : Wait → ℕ → Block
  | .nothing,_ => .begin n
  | .forAll _,part => .countDown part n
  | .toSetResult _,_ => .setResult n
  | .toBegin _,_ => .begin n

@[simp] theorem Wait.target_block (n part : ℕ) (w : Wait) : (w.block n part).target = n := by
  cases w <;> rfl

def toward (n : ℕ) (bs : List Block) : ℕ := bs.countP fun b => b.target==n

@[simp] theorem toward_nil (n : ℕ) : toward n [] = 0 := rfl

@[simp] theorem toward_append (n : ℕ) (bs cs : List Block) :
    toward n (bs++cs) = toward n bs+toward n cs := List.countP_append

theorem toward_eq_zero {n : ℕ} {bs : List Block} : toward n bs = 0 ↔ ∀ b∈bs,b.target ≠ n := by
  simp [toward,List.countP_eq_zero]

theorem countP_add_count {p q : ℕ → Bool} {n : ℕ} (hp : p n = true) (hq : q n = false)
    (hother : ∀ d,d ≠ n → q d = p d) (l : List ℕ) : l.countP q+l.count n = l.countP p := by
  induction l with
  | nil => rfl
  | cons d l ih =>
    by_cases hd : d = n
    · subst hd
      simp only [List.countP_cons,hq,hp,List.count_cons_self]
      simp only [Bool.false_eq_true,if_false,if_true]
      omega
    · rw [List.countP_cons,List.countP_cons,List.count_cons_of_ne hd,hother d hd]
      omega

variable {ε : Type} {g : ℕ → Wait} {h : Heap ε} {n : ℕ}

def unfinished (h : Heap ε) (parts : List ℕ) : ℕ := parts.countP fun d => !(h.tasks d).completed

theorem unfinished_eq_zero {parts : List ℕ} :
    unfinished h parts = 0 ↔ ∀ d∈parts,(h.tasks d).completed = true := by
  simp [unfinished,List.countP_eq_zero]

def tells (q : Outcome ε → Bool) (h : Heap ε) (n : ℕ) : Block → Bool
  | .countDown part all => all==n && (h.tasks part).outcome.any q
  | .setResult _ => false
  | .begin _ => false

theorem tells_of_ne {q : Outcome ε → Bool} {b : Block} (hb : b.target ≠ n) :
    tells q h n b = false := by
  cases b with
  | countDown part all =>
    have hall : (all==n) = false := beq_false_of_ne hb
    rw [tells,hall,Bool.false_and]
  | setResult task => rfl
  | begin task => rfl

/-- What a task for all of some tasks has seen of those that ended in a way `q` asks for, and
what is still under way to it, are all there is. -/
def Notes (q : Outcome ε → Bool) (seen : List (TaskError ε) → ℕ → ℕ) (g : ℕ → Wait)
    (h : Heap ε) : Prop :=
  ∀ n parts,g n = .forAll parts →
    seen (h.tasks n).errors (h.tasks n).cancelled+h.executions.countP (tells q h n) =
      parts.countP fun d => (h.tasks d).outcome.any q

/-- `seen` counts the tasks that end in a way `q` asks for. -/
structure Counting (q : Outcome ε → Bool) (seen : List (TaskError ε) → ℕ → ℕ) : Prop where
  zero : seen [] 0 = 0
  note : ∀ t part : BFTask ε,seen (t.note part).errors (t.note part).cancelled =
    seen t.errors t.cancelled+if part.outcome.any q then 1 else 0

theorem counting_faulted :
    Counting (Outcome.isFaulted : Outcome ε → Bool) fun errors _ => errors.length := by
  refine ⟨rfl,fun t part => ?_⟩
  rw [BFTask.note]
  cases part.outcome with
  | none => rfl
  | some outcome => cases outcome <;> simp [Outcome.isFaulted]

theorem counting_cancelled :
    Counting (Outcome.isCancelled : Outcome ε → Bool) fun _ cancelled => cancelled := by
  refine ⟨rfl,fun t part => ?_⟩
  rw [BFTask.note]
  cases part.outcome with
  | none => rfl
  | some outcome => cases outcome <;> simp [Outcome.isCancelled]

structure Wired (g : ℕ → Wait) (h : Heap ε) : Prop where
  counts : ∀ n,(h.tasks n).total = unfinished h (g n).parts+toward n h.executions
  bound : ∀ n,(h.tasks n).total ≤ (g n).parts.length
  callbacks : ∀ d n,toward n (h.tasks d).callbacks =
    if (h.tasks d).completed then 0 else (g n).parts.count d
  callbackBlocks : ∀ d,∀ b∈(h.tasks d).callbacks,b = (g b.target).block b.target d
  executionBlocks : ∀ b∈h.executions,∃ d,(h.tasks d).completed = true ∧
    d∈(g b.target).parts ∧ b = (g b.target).block b.target d
  goneOn : ∀ n,(h.tasks n).goneOn = true → (h.tasks n).total = 0
  fresh : ∀ n,h.next ≤ n → h.tasks n = .new ∧ g n = .nothing
  bounded : ∀ n,∀ d∈(g n).parts,d < h.next
  faults : Notes Outcome.isFaulted (fun errors _ => errors.length) g h
  cancels : Notes Outcome.isCancelled (fun _ cancelled => cancelled) g h

theorem wired_empty : Wired (fun _ => .nothing) (.empty : Heap ε) where
  counts n := rfl
  bound n := Nat.le_refl 0
  callbacks d n := rfl
  callbackBlocks d b hb := absurd hb List.not_mem_nil
  executionBlocks b hb := absurd hb List.not_mem_nil
  goneOn n hn := rfl
  fresh n hn := ⟨rfl,rfl⟩
  bounded n d hd := absurd hd List.not_mem_nil
  faults n parts hn := by cases hn
  cancels n parts hn := by cases hn

namespace Wired

/-- Where the counter is down, all that the task waits for has ended, and no block is under
way to it. -/
theorem of_total_eq_zero (hw : Wired g h) (hn : (h.tasks n).total = 0) :
    (∀ d∈(g n).parts,(h.tasks d).completed = true) ∧ ∀ b∈h.executions,b.target ≠ n := by
  have hcount := hw.counts n
  rw [hn] at hcount
  exact ⟨unfinished_eq_zero.mp (by omega),toward_eq_zero.mp (by omega)⟩

theorem completed_of_goneOn (hw : Wired g h) (hn : (h.tasks n).goneOn = true) :
    ∀ d∈(g n).parts,(h.tasks d).completed = true := (hw.of_total_eq_zero (hw.goneOn n hn)).1

theorem newTask (hw : Wired g h) : Wired g h.newTask :=
  {hw with
    fresh := fun n hn => hw.fresh n (Nat.le_of_succ_le hn)
    bounded := fun n d hd => Nat.lt_succ_of_lt (hw.bounded n d hd)}

section Finish

variable {outcome : Outcome ε}

theorem tasks_finish_self : (h.finish n outcome).tasks n =
    {h.tasks n with outcome := some outcome,callbacks := []} := by
  simp [Heap.finish,Heap.change]

theorem tasks_finish_of_ne {d : ℕ} (hd : d ≠ n) : (h.finish n outcome).tasks d = h.tasks d := by
  simp [Heap.finish,Heap.change,hd]

theorem unfinished_finish (outcome : Outcome ε) (hopen : (h.tasks n).completed = false)
    (parts : List ℕ) :
    unfinished (h.finish n outcome) parts+parts.count n = unfinished h parts := by
  apply countP_add_count
  · rw [hopen]
    rfl
  · rw [tasks_finish_self]
    rfl
  · intro d hd
    rw [tasks_finish_of_ne hd]

theorem notes_finish {q : Outcome ε → Bool} {seen : List (TaskError ε) → ℕ → ℕ}
    (hw : Wired g h) (hopen : (h.tasks n).completed = false) (hnotes : Notes q seen g h) :
    Notes q seen g (h.finish n outcome) := by
  intro m parts hm
  have hold := hnotes m parts hm
  have hnone : (h.tasks n).outcome = none := by simpa [BFTask.completed] using hopen
  have hseen : seen ((h.finish n outcome).tasks m).errors ((h.finish n outcome).tasks m).cancelled
      = seen (h.tasks m).errors (h.tasks m).cancelled := by
    by_cases hmn : m = n
    · rw [hmn,tasks_finish_self]
    · rw [tasks_finish_of_ne hmn]
  -- the blocks under way tell of tasks that have ended before
  have hunder : h.executions.countP (tells q (h.finish n outcome) m) =
      h.executions.countP (tells q h m) := by
    refine List.countP_congr fun b hb => ?_
    obtain ⟨d,hd,_,hblock⟩ := hw.executionBlocks b hb
    have hdn : d ≠ n := by
      rintro rfl
      rw [hd] at hopen
      exact absurd hopen (by decide)
    rw [hblock]
    cases g b.target with
    | nothing => simp [Wait.block,tells]
    | forAll parts => simp [Wait.block,tells,tasks_finish_of_ne hdn]
    | toSetResult task => simp [Wait.block,tells]
    | toBegin task => simp [Wait.block,tells]
  have hhanded : (h.tasks n).callbacks.countP (tells q (h.finish n outcome) m) =
      if q outcome then parts.count n else 0 := by
    have hcount := hw.callbacks n m
    rw [hopen,if_neg Bool.false_ne_true,hm] at hcount
    have htells : ∀ b∈(h.tasks n).callbacks,tells q (h.finish n outcome) m b =
        (b.target==m && q outcome) := by
      intro b hb
      have hblock := hw.callbackBlocks n b hb
      by_cases hbm : b.target = m
      · rw [hbm,hm] at hblock
        rw [hblock]
        simp [Wait.block,tells,tasks_finish_self,Block.target]
      · have hfalse : (b.target==m) = false := beq_false_of_ne hbm
        rw [hfalse,Bool.false_and]
        exact tells_of_ne hbm
    rw [List.countP_congr fun b hb => by rw [htells b hb]]
    cases q outcome with
    | false => simp
    | true => simpa [toward,Wait.parts] using hcount
  have hparts : (parts.countP fun d => ((h.finish n outcome).tasks d).outcome.any q) =
      (parts.countP fun d => (h.tasks d).outcome.any q)+if q outcome then parts.count n else 0 := by
    cases hq : q outcome with
    | false =>
      refine List.countP_congr fun d _ => ?_
      by_cases hd : d = n
      · rw [hd,tasks_finish_self,hnone]
        simp [hq]
      · rw [tasks_finish_of_ne hd]
    | true =>
      refine (countP_add_count (n:=n) ?_ ?_ ?_ parts).symm
      · rw [tasks_finish_self]
        simpa using hq
      · rw [hnone]
        rfl
      · intro d hd
        rw [tasks_finish_of_ne hd]
  rw [hseen,hparts,← hold]
  rw [show (h.finish n outcome).executions = h.executions++(h.tasks n).callbacks from rfl]
  rw [List.countP_append,hunder,hhanded]
  omega

theorem finish (hw : Wired g h) (hn : n < h.next) (hopen : (h.tasks n).completed = false)
    (htotal : (h.tasks n).total = 0) : Wired g (h.finish n outcome) where
  counts m := by
    have hold := hw.counts m
    have hcallbacks := hw.callbacks n m
    rw [hopen,if_neg Bool.false_ne_true] at hcallbacks
    have hunfinished := unfinished_finish outcome hopen (g m).parts
    have htotals : ((h.finish n outcome).tasks m).total = (h.tasks m).total := by
      by_cases hmn : m = n
      · rw [hmn,tasks_finish_self]
      · rw [tasks_finish_of_ne hmn]
    rw [htotals,hold]
    rw [show (h.finish n outcome).executions = h.executions++(h.tasks n).callbacks from rfl]
    rw [toward_append,hcallbacks]
    omega
  bound m := by
    by_cases hmn : m = n
    · rw [hmn,tasks_finish_self]
      exact hw.bound n
    · rw [tasks_finish_of_ne hmn]
      exact hw.bound m
  callbacks d m := by
    by_cases hd : d = n
    · rw [hd,tasks_finish_self]
      rfl
    · rw [tasks_finish_of_ne hd]
      exact hw.callbacks d m
  callbackBlocks d b hb := by
    by_cases hd : d = n
    · rw [hd,tasks_finish_self] at hb
      exact absurd hb List.not_mem_nil
    · rw [tasks_finish_of_ne hd] at hb
      exact hw.callbackBlocks d b hb
  executionBlocks b hb := by
    rcases List.mem_append.mp hb with hb | hb
    · obtain ⟨d,hd,hpart,hblock⟩ := hw.executionBlocks b hb
      refine ⟨d,?_,hpart,hblock⟩
      by_cases hdn : d = n
      · rw [hdn,tasks_finish_self]
        rfl
      · rw [tasks_finish_of_ne hdn]
        exact hd
    · refine ⟨n,?_,?_,hw.callbackBlocks n b hb⟩
      · rw [tasks_finish_self]
        rfl
      · have hcount := hw.callbacks n b.target
        rw [hopen,if_neg Bool.false_ne_true] at hcount
        have hpos : toward b.target (h.tasks n).callbacks ≠ 0 := by
          rw [Ne,toward_eq_zero]
          exact fun hnone => hnone b hb rfl
        rw [hcount] at hpos
        exact List.count_pos_iff.mp (Nat.pos_of_ne_zero hpos)
  goneOn m hm := by
    by_cases hmn : m = n
    · rw [hmn,tasks_finish_self]
      exact htotal
    · rw [tasks_finish_of_ne hmn] at hm ⊢
      exact hw.goneOn m hm
  fresh m hm := by
    have hmn : m ≠ n := by
      have hle : h.next ≤ m := hm
      omega
    rw [tasks_finish_of_ne hmn]
    exact hw.fresh m hm
  bounded := hw.bounded
  faults := notes_finish hw hopen hw.faults
  cancels := notes_finish hw hopen hw.cancels

end Finish

section Arrive

variable {k : ℕ} {b : Block}

theorem tasks_arrive_of_ne {m : ℕ} (hm : m ≠ b.target) :
    ((h.taken k).arrive b).tasks m = h.tasks m := by
  cases b <;> exact Function.update_of_ne hm _ _

theorem outcome_arrive (m : ℕ) :
    (((h.taken k).arrive b).tasks m).outcome = (h.tasks m).outcome := by
  by_cases hm : m = b.target
  · subst hm
    cases b <;> simp [Heap.arrive,Heap.change,Heap.taken,Block.target]
  · rw [tasks_arrive_of_ne hm]

theorem callbacks_arrive (m : ℕ) :
    (((h.taken k).arrive b).tasks m).callbacks = (h.tasks m).callbacks := by
  by_cases hm : m = b.target
  · subst hm
    cases b <;> simp [Heap.arrive,Heap.change,Heap.taken,Block.target]
  · rw [tasks_arrive_of_ne hm]

theorem begun_arrive (m : ℕ) :
    (((h.taken k).arrive b).tasks m).begun = (h.tasks m).begun := by
  by_cases hm : m = b.target
  · subst hm
    cases b <;> simp [Heap.arrive,Heap.change,Heap.taken,Block.target]
  · rw [tasks_arrive_of_ne hm]

theorem total_arrive_self :
    (((h.taken k).arrive b).tasks b.target).total = (h.tasks b.target).total-1 := by
  cases b <;> simp [Heap.arrive,Heap.change,Heap.taken,Block.target]

theorem executions_arrive :
    ((h.taken k).arrive b).executions = h.executions.eraseIdx k := by
  cases b <;> rfl

theorem next_arrive : ((h.taken k).arrive b).next = h.next := by
  cases b <;> rfl

theorem completed_arrive (m : ℕ) :
    (((h.taken k).arrive b).tasks m).completed = (h.tasks m).completed := by
  rw [BFTask.completed,BFTask.completed,outcome_arrive]

theorem goneOn_arrive (m : ℕ) :
    (((h.taken k).arrive b).tasks m).goneOn = (h.tasks m).goneOn := by
  rw [BFTask.goneOn,BFTask.goneOn,completed_arrive,begun_arrive]

theorem mem_executions (hk : h.executions[k]? = some b) : b∈h.executions :=
  List.mem_of_getElem? hk

theorem countP_taken (hk : h.executions[k]? = some b) (p : Block → Bool) :
    (h.executions.eraseIdx k).countP p+(if p b then 1 else 0) = h.executions.countP p := by
  obtain ⟨hlt,rfl⟩ := List.getElem?_eq_some_iff.mp hk
  rw [← (List.getElem_cons_eraseIdx_perm hlt).countP_eq p,List.countP_cons]

/-- A task to which a block is under way has not gone on. -/
theorem open_of_mem (hw : Wired g h) (hb : b∈h.executions) :
    0 < (h.tasks b.target).total ∧ (h.tasks b.target).goneOn = false := by
  have htoward : toward b.target h.executions ≠ 0 := by
    rw [Ne,toward_eq_zero]
    exact fun hnone => hnone b hb rfl
  have hcount := hw.counts b.target
  have hpos : 0 < (h.tasks b.target).total := by omega
  refine ⟨hpos,?_⟩
  by_contra hgone
  have hzero := hw.goneOn b.target (by simpa using hgone)
  omega

theorem notes_arrive {q : Outcome ε → Bool} {seen : List (TaskError ε) → ℕ → ℕ}
    (hq : Counting q seen) (hw : Wired g h) (hk : h.executions[k]? = some b)
    (hnotes : Notes q seen g h) : Notes q seen g ((h.taken k).arrive b) := by
  intro m parts hm
  have hold := hnotes m parts hm
  have htells : tells q ((h.taken k).arrive b) m = tells q h m := by
    funext c
    cases c with
    | countDown part all => rw [tells,tells,outcome_arrive]
    | setResult task => rfl
    | begin task => rfl
  have hcount := countP_taken hk (tells q h m)
  rw [executions_arrive,htells]
  simp only [outcome_arrive]
  rw [← hold,← hcount]
  by_cases hmb : m = b.target
  · obtain ⟨d,_,_,hblock⟩ := hw.executionBlocks b (mem_executions hk)
    rw [← hmb,hm,Wait.block] at hblock
    have hseen : seen (((h.taken k).arrive b).tasks m).errors
        (((h.taken k).arrive b).tasks m).cancelled =
        seen (h.tasks m).errors (h.tasks m).cancelled+if tells q h m b then 1 else 0 := by
      rw [hblock]
      have hnote := hq.note (h.tasks m) (h.tasks d)
      simpa [Heap.arrive,Heap.change,Heap.taken,tells] using hnote
    omega
  · rw [tasks_arrive_of_ne hmb,tells_of_ne (Ne.symm hmb)]
    simp

theorem arrive (hw : Wired g h) (hk : h.executions[k]? = some b) :
    Wired g ((h.taken k).arrive b) where
  counts m := by
    have hold := hw.counts m
    have hpos := (hw.open_of_mem (mem_executions hk)).1
    have hcount : toward m (h.executions.eraseIdx k)+(if b.target==m then 1 else 0) =
        toward m h.executions := countP_taken hk _
    have hunfinished : unfinished ((h.taken k).arrive b) (g m).parts = unfinished h (g m).parts := by
      simp only [unfinished,completed_arrive]
    rw [hunfinished,executions_arrive]
    by_cases hmb : m = b.target
    · subst hmb
      rw [total_arrive_self]
      simp only [beq_self_eq_true,if_true] at hcount
      omega
    · rw [tasks_arrive_of_ne hmb]
      simp only [beq_false_of_ne (Ne.symm hmb),Bool.false_eq_true,if_false] at hcount
      omega
  bound m := by
    have hold := hw.bound m
    by_cases hmb : m = b.target
    · subst hmb
      rw [total_arrive_self]
      omega
    · rw [tasks_arrive_of_ne hmb]
      exact hold
  callbacks d m := by
    rw [callbacks_arrive,completed_arrive]
    exact hw.callbacks d m
  callbackBlocks d c hc := by
    rw [callbacks_arrive] at hc
    exact hw.callbackBlocks d c hc
  executionBlocks c hc := by
    rw [executions_arrive] at hc
    obtain ⟨d,hd,hpart,hblock⟩ := hw.executionBlocks c (List.mem_of_mem_eraseIdx hc)
    exact ⟨d,by rw [completed_arrive]; exact hd,hpart,hblock⟩
  goneOn m hm := by
    rw [goneOn_arrive] at hm
    by_cases hmb : m = b.target
    · subst hmb
      rw [(hw.open_of_mem (mem_executions hk)).2] at hm
      exact absurd hm (by decide)
    · rw [tasks_arrive_of_ne hmb]
      exact hw.goneOn m hm
  fresh m hm := by
    rw [next_arrive] at hm
    have hmb : m ≠ b.target := by
      rintro rfl
      have hpos := (hw.open_of_mem (mem_executions hk)).1
      rw [(hw.fresh b.target hm).1] at hpos
      exact absurd hpos (Nat.lt_irrefl 0)
    rw [tasks_arrive_of_ne hmb]
    exact hw.fresh m hm
  bounded := by
    rw [next_arrive]
    exact hw.bounded
  faults := notes_arrive counting_faulted hw hk hw.faults
  cancels := notes_arrive counting_cancelled hw hk hw.cancels

end Arrive

section Start

theorem outcome_start (m : ℕ) : ((h.start n).tasks m).outcome = (h.tasks m).outcome := by
  by_cases hm : m = n
  · rw [hm]
    simp [Heap.start,Heap.change]
  · simp [Heap.start,Heap.change,hm]

theorem completed_start (m : ℕ) : ((h.start n).tasks m).completed = (h.tasks m).completed := by
  rw [BFTask.completed,BFTask.completed,outcome_start]

theorem tasks_start_self : (h.start n).tasks n = {h.tasks n with begun := true} := by
  simp [Heap.start,Heap.change]

theorem tasks_start_of_ne {m : ℕ} (hm : m ≠ n) : (h.start n).tasks m = h.tasks m := by
  simp [Heap.start,Heap.change,hm]

theorem notes_start {q : Outcome ε → Bool} {seen : List (TaskError ε) → ℕ → ℕ}
    (hnotes : Notes q seen g h) : Notes q seen g (h.start n) := by
  intro m parts hm
  have hold := hnotes m parts hm
  have htells : tells q (h.start n) m = tells q h m := by
    funext c
    cases c with
    | countDown part all => rw [tells,tells,outcome_start]
    | setResult task => rfl
    | begin task => rfl
  simp only [htells,outcome_start]
  by_cases hmn : m = n
  · rw [hmn,tasks_start_self]
    rw [hmn] at hold
    exact hold
  · rw [tasks_start_of_ne hmn]
    exact hold

theorem start (hw : Wired g h) (hn : n < h.next) (htotal : (h.tasks n).total = 0) :
    Wired g (h.start n) where
  counts m := by
    have hunfinished : unfinished (h.start n) (g m).parts = unfinished h (g m).parts := by
      simp only [unfinished,completed_start]
    rw [hunfinished]
    by_cases hmn : m = n
    · rw [hmn,tasks_start_self]
      exact hw.counts n
    · rw [tasks_start_of_ne hmn]
      exact hw.counts m
  bound m := by
    by_cases hmn : m = n
    · rw [hmn,tasks_start_self]
      exact hw.bound n
    · rw [tasks_start_of_ne hmn]
      exact hw.bound m
  callbacks d m := by
    rw [completed_start]
    by_cases hd : d = n
    · rw [hd,tasks_start_self]
      exact hw.callbacks n m
    · rw [tasks_start_of_ne hd]
      exact hw.callbacks d m
  callbackBlocks d c hc := by
    by_cases hd : d = n
    · rw [hd,tasks_start_self] at hc
      rw [hd]
      exact hw.callbackBlocks n c hc
    · rw [tasks_start_of_ne hd] at hc
      exact hw.callbackBlocks d c hc
  executionBlocks c hc := by
    obtain ⟨d,hd,hpart,hblock⟩ := hw.executionBlocks c hc
    exact ⟨d,by rw [completed_start]; exact hd,hpart,hblock⟩
  goneOn m hm := by
    by_cases hmn : m = n
    · rw [hmn,tasks_start_self]
      exact htotal
    · rw [tasks_start_of_ne hmn] at hm ⊢
      exact hw.goneOn m hm
  fresh m hm := by
    have hmn : m ≠ n := by
      have hle : h.next ≤ m := hm
      omega
    rw [tasks_start_of_ne hmn]
    exact hw.fresh m hm
  bounded := hw.bounded
  faults := notes_start hw.faults
  cancels := notes_start hw.cancels

end Start

section Await

variable {block : ℕ → Block} {parts : List ℕ} {d : ℕ}

theorem tasks_continueWithBlock {b : Block} {part : ℕ} :
    (h.continueWithBlock part b).tasks d = {h.tasks d with
      callbacks := (h.tasks d).callbacks++
        if part = d ∧ (h.tasks d).completed = false then [b] else []} := by
  rw [Heap.continueWithBlock]
  by_cases hpart : part = d
  · subst hpart
    cases hopen : (h.tasks part).completed with
    | true => simp
    | false => simp [Heap.change]
  · cases hopen : (h.tasks part).completed with
    | true => simp [hpart]
    | false => simp [hpart,Heap.change,Function.update_of_ne (Ne.symm hpart)]

theorem executions_continueWithBlock {b : Block} {part : ℕ} :
    (h.continueWithBlock part b).executions =
      h.executions++if (h.tasks part).completed then [b] else [] := by
  rw [Heap.continueWithBlock]
  split_ifs with hdone
  · rfl
  · exact (List.append_nil _).symm

theorem next_continueWithBlock {b : Block} {part : ℕ} :
    (h.continueWithBlock part b).next = h.next := by
  rw [Heap.continueWithBlock]
  split_ifs <;> rfl

theorem completed_continueWithBlock {b : Block} {part : ℕ} :
    ((h.continueWithBlock part b).tasks d).completed = (h.tasks d).completed := by
  rw [tasks_continueWithBlock]
  rfl

theorem next_handOut : (Heap.handOut block h parts).next = h.next := by
  induction parts generalizing h with
  | nil => rfl
  | cons part parts ih =>
    have hrest := ih (h:=h.continueWithBlock part (block part))
    rw [next_continueWithBlock] at hrest
    exact hrest

theorem tasks_handOut :
    (Heap.handOut block h parts).tasks d = {h.tasks d with
      callbacks := (h.tasks d).callbacks++
        if (h.tasks d).completed then [] else (parts.filter (·==d)).map block} := by
  induction parts generalizing h with
  | nil =>
    simp [Heap.handOut]
  | cons part parts ih =>
    have hrest := ih (h:=h.continueWithBlock part (block part))
    rw [completed_continueWithBlock,tasks_continueWithBlock] at hrest
    refine hrest.trans ?_
    cases hopen : (h.tasks d).completed with
    | true => simp
    | false =>
      by_cases hpart : part = d
      · simp [hpart]
      · simp [hpart]

theorem executions_handOut :
    (Heap.handOut block h parts).executions =
      h.executions++(parts.filter fun d => (h.tasks d).completed).map block := by
  induction parts generalizing h with
  | nil => simp [Heap.handOut]
  | cons part parts ih =>
    have hrest := ih (h:=h.continueWithBlock part (block part))
    simp only [completed_continueWithBlock,executions_continueWithBlock] at hrest
    refine hrest.trans ?_
    cases hopen : (h.tasks part).completed with
    | true => simp [hopen]
    | false => simp [hopen]

theorem tasks_await :
    (h.await n parts block).tasks d = {h.tasks d with
      total := if d = n then parts.length else (h.tasks d).total
      callbacks := (h.tasks d).callbacks++
        if (h.tasks d).completed then [] else (parts.filter (·==d)).map block} := by
  rw [Heap.await,tasks_handOut]
  by_cases hd : d = n
  · subst hd
    simp only [Heap.change,Function.update_self,if_true]
    rfl
  · simp [Heap.change,hd]

theorem completed_await :
    ((h.await n parts block).tasks d).completed = (h.tasks d).completed := by
  rw [tasks_await]
  rfl

theorem outcome_await : ((h.await n parts block).tasks d).outcome = (h.tasks d).outcome := by
  rw [tasks_await]

theorem goneOn_await : ((h.await n parts block).tasks d).goneOn = (h.tasks d).goneOn := by
  rw [tasks_await]
  rfl

theorem next_await : (h.await n parts block).next = h.next := by
  rw [Heap.await,next_handOut]
  rfl

theorem executions_await :
    (h.await n parts block).executions =
      h.executions++(parts.filter fun d => (h.tasks d).completed).map block := by
  rw [Heap.await,executions_handOut]
  have hsame : ∀ d,((h.change n fun t => {t with total := parts.length}).tasks d).completed =
      (h.tasks d).completed := by
    intro d
    by_cases hd : d = n
    · subst hd
      simp [Heap.change,BFTask.completed]
    · simp [Heap.change,hd]
  simp only [hsame]
  rfl

theorem toward_map_block (w : Wait) (l : List ℕ) (m : ℕ) :
    toward m (l.map (w.block n)) = if m = n then l.length else 0 := by
  by_cases hm : m = n
  · subst hm
    rw [if_pos rfl,toward,List.countP_eq_length.mpr ?_,List.length_map]
    intro b hb
    obtain ⟨d,_,rfl⟩ := List.mem_map.mp hb
    simp
  · rw [if_neg hm,toward_eq_zero]
    intro b hb
    obtain ⟨d,_,rfl⟩ := List.mem_map.mp hb
    rw [Wait.target_block]
    exact Ne.symm hm

theorem countP_tells_map (q : Outcome ε → Bool) (l parts : List ℕ) :
    (l.map (Wait.block n (.forAll parts))).countP (tells q h n) =
      l.countP fun d => (h.tasks d).outcome.any q := by
  rw [List.countP_map]
  refine List.countP_congr fun d _ => ?_
  simp [Wait.block,tells]

theorem not_under_way (hw : Wired g h) (hg : g n = .nothing) :
    ∀ b∈h.executions,b.target ≠ n := by
  intro b hb hbn
  obtain ⟨d,_,hd,_⟩ := hw.executionBlocks b hb
  rw [hbn,hg] at hd
  exact absurd hd List.not_mem_nil

theorem notes_await {q : Outcome ε → Bool} {seen : List (TaskError ε) → ℕ → ℕ} {w : Wait}
    (hq : Counting q seen) (hw : Wired g h) (hg : g n = .nothing)
    (hseen : ∀ parts,w = .forAll parts → (h.tasks n).errors = [] ∧ (h.tasks n).cancelled = 0)
    (hnotes : Notes q seen g h) :
    Notes q seen (Function.update g n w) (h.await n w.parts (w.block n)) := by
  intro m parts hm
  have htells : tells q (h.await n w.parts (w.block n)) m = tells q h m := by
    funext c
    cases c with
    | countDown part all => rw [tells,tells,outcome_await]
    | setResult task => rfl
    | begin task => rfl
  rw [htells,executions_await,List.countP_append]
  simp only [outcome_await]
  have hkept : ((h.await n w.parts (w.block n)).tasks m).errors = (h.tasks m).errors ∧
      ((h.await n w.parts (w.block n)).tasks m).cancelled = (h.tasks m).cancelled := by
    rw [tasks_await]
    exact ⟨rfl,rfl⟩
  rw [hkept.1,hkept.2]
  by_cases hmn : m = n
  · subst hmn
    rw [Function.update_self] at hm
    subst hm
    have hnone : h.executions.countP (tells q h m) = 0 := by
      rw [List.countP_eq_zero]
      intro b hb
      rw [tells_of_ne (hw.not_under_way hg b hb)]
      decide
    have hended : ((parts.filter fun d => (h.tasks d).completed).countP fun d =>
        (h.tasks d).outcome.any q) = parts.countP fun d => (h.tasks d).outcome.any q := by
      rw [List.countP_filter]
      refine List.countP_congr fun d _ => ?_
      rw [BFTask.completed]
      cases (h.tasks d).outcome with
      | none => simp
      | some outcome => simp
    obtain ⟨herrors,hcancelled⟩ := hseen parts rfl
    rw [herrors,hcancelled,hq.zero,hnone]
    rw [show (Wait.forAll parts).parts = parts from rfl,countP_tells_map,hended]
    omega
  · rw [Function.update_of_ne hmn] at hm
    have hold := hnotes m parts hm
    have hnone : ((w.parts.filter fun d => (h.tasks d).completed).map (w.block n)).countP
        (tells q h m) = 0 := by
      rw [List.countP_eq_zero]
      intro b hb
      obtain ⟨d,_,rfl⟩ := List.mem_map.mp hb
      rw [tells_of_ne (by rw [Wait.target_block]; exact Ne.symm hmn)]
      decide
    rw [hnone]
    exact hold

theorem await {w : Wait} (hw : Wired g h) (hn : n < h.next) (hg : g n = .nothing)
    (hopen : (h.tasks n).goneOn = false)
    (hseen : ∀ parts,w = .forAll parts → (h.tasks n).errors = [] ∧ (h.tasks n).cancelled = 0)
    (hparts : ∀ d∈w.parts,d < h.next) :
    Wired (Function.update g n w) (h.await n w.parts (w.block n)) where
  counts m := by
    have hunfinished : ∀ l,unfinished (h.await n w.parts (w.block n)) l = unfinished h l := by
      intro l
      simp only [unfinished,completed_await]
    rw [hunfinished,executions_await,toward_append,toward_map_block,tasks_await]
    have hold := hw.counts m
    by_cases hmn : m = n
    · subst hmn
      rw [if_pos rfl,if_pos rfl,Function.update_self]
      have hnone := toward_eq_zero.mpr (hw.not_under_way hg)
      have hsplit := List.length_eq_countP_add_countP (fun d => (h.tasks d).completed)
        (l:=w.parts)
      have hrest : (w.parts.countP fun d => ¬(h.tasks d).completed = true) =
          unfinished h w.parts := List.countP_congr fun d _ => by simp
      rw [← List.countP_eq_length_filter]
      simp only [hrest] at hsplit
      show w.parts.length = _
      omega
    · rw [if_neg hmn,if_neg hmn,Function.update_of_ne hmn]
      exact hold
  bound m := by
    rw [tasks_await]
    by_cases hmn : m = n
    · subst hmn
      rw [Function.update_self]
      simp
    · rw [Function.update_of_ne hmn]
      simpa [hmn] using hw.bound m
  callbacks d m := by
    rw [completed_await,tasks_await]
    have hold := hw.callbacks d m
    cases hdone : (h.tasks d).completed with
    | true =>
      rw [hdone] at hold
      simpa using hold
    | false =>
      rw [hdone,if_neg Bool.false_ne_true] at hold
      simp only [Bool.false_eq_true,if_false,toward_append,toward_map_block,hold]
      by_cases hmn : m = n
      · subst hmn
        rw [if_pos rfl,Function.update_self,hg,← List.countP_eq_length_filter]
        simp [Wait.parts,List.count]
      · rw [if_neg hmn,Function.update_of_ne hmn]
        rfl
  callbackBlocks d b hb := by
    rw [tasks_await] at hb
    rcases List.mem_append.mp hb with hb | hb
    · have hblock := hw.callbackBlocks d b hb
      have hbn : b.target ≠ n := by
        intro hbn
        have hcount := hw.callbacks d b.target
        have hpos : toward b.target (h.tasks d).callbacks ≠ 0 := by
          rw [Ne,toward_eq_zero]
          exact fun hnone => hnone b hb rfl
        rw [hcount,hbn,hg] at hpos
        exact hpos (by split_ifs <;> rfl)
      rw [Function.update_of_ne hbn]
      exact hblock
    · split_ifs at hb with hdone
      · exact absurd hb List.not_mem_nil
      · obtain ⟨c,hc,rfl⟩ := List.mem_map.mp hb
        have hcd : c = d := by simpa using (List.mem_filter.mp hc).2
        rw [Wait.target_block,Function.update_self,hcd]
  executionBlocks b hb := by
    rw [executions_await] at hb
    rcases List.mem_append.mp hb with hb | hb
    · have hbn := hw.not_under_way hg b hb
      obtain ⟨d,hd,hpart,hblock⟩ := hw.executionBlocks b hb
      rw [Function.update_of_ne hbn]
      exact ⟨d,by rw [completed_await]; exact hd,hpart,hblock⟩
    · obtain ⟨d,hd,rfl⟩ := List.mem_map.mp hb
      obtain ⟨hpart,hdone⟩ := List.mem_filter.mp hd
      rw [Wait.target_block,Function.update_self]
      exact ⟨d,by rw [completed_await]; exact hdone,hpart,rfl⟩
  goneOn m hm := by
    rw [goneOn_await] at hm
    have hmn : m ≠ n := by
      rintro rfl
      rw [hopen] at hm
      exact absurd hm (by decide)
    rw [tasks_await]
    simpa [hmn] using hw.goneOn m hm
  fresh m hm := by
    rw [next_await] at hm
    have hmn : m ≠ n := by omega
    have hmparts : w.parts.filter (·==m) = [] := by
      rw [List.filter_eq_nil_iff]
      intro d hd
      have hlt := hparts d hd
      have hdm : d ≠ m := by omega
      simp [hdm]
    obtain ⟨hnew,hnothing⟩ := hw.fresh m hm
    rw [tasks_await,Function.update_of_ne hmn,hmparts,hnew]
    exact ⟨by simp [hmn,BFTask.new],hnothing⟩
  bounded m d hd := by
    rw [next_await]
    by_cases hmn : m = n
    · subst hmn
      rw [Function.update_self] at hd
      exact hparts d hd
    · rw [Function.update_of_ne hmn] at hd
      exact hw.bounded m d hd
  faults := notes_await counting_faulted hw hg hseen hw.faults
  cancels := notes_await counting_cancelled hw hg hseen hw.cancels

end Await

end Wired

end Bolts
end CourseraObjC
