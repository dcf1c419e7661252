import Mathlib.Data.Set.Finite.Basic
import Mathlib.Order.WellFounded
import CourseraObjC.WaitGraph

/-! Work done in rounds: in each round everything is done that waits only for what is finished.
The rounds come to an end unless something waits for what is not there, or stands in a circle. -/
namespace CourseraObjC
namespace Rounds

variable {N : Type} [DecidableEq N] {waits : N → List N}

def ready (waits : N → List N) (finished : List N) (n : N) : Bool :=
  (waits n).all fun d => finished.contains d

theorem ready_iff {finished : List N} {n : N} :
    ready waits finished n = true ↔ ∀ d∈waits n,d∈finished := by
  simp [ready]

/-- The rounds, unless one of them would be empty. -/
def rounds (waits : N → List N) : ℕ → List N → List N → Option (List (List N))
  | _,[],_ => some []
  | 0,_::_,_ => none
  | k+1,n::remaining,finished =>
    let current := (n::remaining).filter (ready waits finished)
    let nextRound := (n::remaining).filter fun n => !ready waits finished n
    if current = [] then none
    else (rounds waits k nextRound (finished++current)).map fun rest => current::rest

variable {k : ℕ} {remaining finished : List N} {rs : List (List N)}

theorem rounds_cons_eq_some {n : N} (h : rounds waits (k+1) (n::remaining) finished = some rs) :
    (n::remaining).filter (ready waits finished) ≠ [] ∧
    ∃ rest,rounds waits k ((n::remaining).filter fun n => !ready waits finished n)
        (finished++(n::remaining).filter (ready waits finished)) = some rest ∧
      rs = (n::remaining).filter (ready waits finished)::rest := by
  rw [rounds] at h
  split_ifs at h with hempty
  obtain ⟨rest,hrest,hrs⟩ := Option.map_eq_some_iff.mp h
  exact ⟨hempty,rest,hrest,hrs.symm⟩

theorem rounds_perm (h : rounds waits k remaining finished = some rs) :
    rs.flatten.Perm remaining := by
  induction k generalizing remaining finished rs with
  | zero =>
    cases remaining with
    | nil =>
      obtain rfl := Option.some.inj h
      exact List.Perm.nil
    | cons n remaining => cases h
  | succ k ih =>
    cases remaining with
    | nil =>
      obtain rfl := Option.some.inj h
      exact List.Perm.nil
    | cons n remaining =>
      obtain ⟨_,rest,hrest,rfl⟩ := rounds_cons_eq_some h
      have hperm := ih hrest
      rw [List.flatten_cons]
      exact (hperm.append_left _).trans (List.filter_append_perm _ _)

/-- No round is empty, and what is done in one waits only for what was finished or was done in
earlier ones. -/
theorem rounds_inOrder (h : rounds waits k remaining finished = some rs)
    {before after : List (List N)} {current : List N} (hsplit : rs = before++current::after) :
    current ≠ [] ∧ ∀ n∈current,∀ d∈waits n,d∈finished ∨ d∈before.flatten := by
  induction k generalizing remaining finished rs before with
  | zero =>
    cases remaining with
    | nil =>
      obtain rfl := Option.some.inj h
      simp at hsplit
    | cons n remaining => cases h
  | succ k ih =>
    cases remaining with
    | nil =>
      obtain rfl := Option.some.inj h
      simp at hsplit
    | cons n remaining =>
      obtain ⟨hne,rest,hrest,rfl⟩ := rounds_cons_eq_some h
      cases before with
      | nil =>
        obtain ⟨rfl,rfl⟩ := List.cons.inj hsplit
        refine ⟨hne,fun m hm d hd => Or.inl ?_⟩
        exact ready_iff.mp (List.mem_filter.mp hm).2 d hd
      | cons first before =>
        obtain ⟨rfl,htail⟩ := List.cons.inj hsplit
        obtain ⟨hcurrent,hwaits⟩ := ih hrest htail
        refine ⟨hcurrent,fun m hm d hd => ?_⟩
        rw [List.flatten_cons,List.mem_append]
        rcases hwaits m hm d hd with hin | hin
        · rcases List.mem_append.mp hin with hin | hin
          · exact Or.inl hin
          · exact Or.inr (Or.inl hin)
        · exact Or.inr (Or.inr hin)

theorem rounds_grounded (h : rounds waits k remaining finished = some rs)
    (hfinished : ∀ n∈finished,WaitGraph.Grounded waits n) :
    ∀ n∈remaining,WaitGraph.Grounded waits n := by
  induction k generalizing remaining finished rs with
  | zero =>
    cases remaining with
    | nil => exact fun n hn => absurd hn List.not_mem_nil
    | cons n remaining => cases h
  | succ k ih =>
    cases remaining with
    | nil => exact fun n hn => absurd hn List.not_mem_nil
    | cons n remaining =>
      obtain ⟨_,rest,hrest,_⟩ := rounds_cons_eq_some h
      have hcurrent : ∀ m∈(n::remaining).filter (ready waits finished),
          WaitGraph.Grounded waits m := by
        intro m hm
        refine Acc.intro m fun d hd => ?_
        exact hfinished d (ready_iff.mp (List.mem_filter.mp hm).2 d hd)
      have hnext := ih hrest fun m hm => (List.mem_append.mp hm).elim (hfinished m) (hcurrent m)
      intro m hm
      cases hready : ready waits finished m with
      | true => exact hcurrent m (List.mem_filter.mpr ⟨hm,hready⟩)
      | false => exact hnext m (List.mem_filter.mpr ⟨hm,by simp [hready]⟩)

/-- Where the rounds get stuck, each thing that is left waits for another one that is left, or
for what was never there. -/
theorem rounds_stuck (hk : remaining.length ≤ k) (h : rounds waits k remaining finished = none) :
    ∃ stuck : List N,stuck ≠ [] ∧ (∀ n∈stuck,n∈remaining) ∧
      ∀ n∈stuck,∃ d∈waits n,d∉finished ∧ (d∈stuck ∨ d∉remaining) := by
  induction k generalizing remaining finished with
  | zero =>
    cases remaining with
    | nil => cases h
    | cons n remaining => simp at hk
  | succ k ih =>
    cases remaining with
    | nil => cases h
    | cons n remaining =>
      rw [rounds] at h
      split_ifs at h with hempty
      · refine ⟨n::remaining,List.cons_ne_nil _ _,fun m hm => hm,fun m hm => ?_⟩
        have hnot := List.filter_eq_nil_iff.mp hempty m hm
        rw [ready_iff] at hnot
        push Not at hnot
        obtain ⟨d,hd,hopen⟩ := hnot
        exact ⟨d,hd,hopen,Decidable.em _⟩
      · rw [Option.map_eq_none_iff] at h
        have hlength : ((n::remaining).filter fun m => !ready waits finished m).length ≤ k := by
          have hsum := List.length_eq_length_filter_add (l:=n::remaining) (ready waits finished)
          have hpos := List.length_pos_iff.mpr hempty
          omega
        obtain ⟨stuck,hne,hsub,hwaits⟩ := ih hlength h
        refine ⟨stuck,hne,fun m hm => (List.mem_filter.mp (hsub m hm)).1,fun m hm => ?_⟩
        obtain ⟨d,hd,hopen,hwhere⟩ := hwaits m hm
        rw [List.mem_append,not_or] at hopen
        refine ⟨d,hd,hopen.1,hwhere.imp_right fun hnot hin => ?_⟩
        rw [List.mem_filter] at hnot
        rw [List.mem_filter] at hopen
        cases hready : ready waits finished d with
        | true => exact hopen.2 ⟨hin,hready⟩
        | false => exact hnot ⟨hin,by simp [hready]⟩

omit [DecidableEq N] in
/-- Where each of some things waits for another one of them, there is a circle. -/
theorem exists_inCircle {stuck : List N} (hne : stuck ≠ [])
    (hwaits : ∀ n∈stuck,∃ d∈waits n,d∈stuck) : ∃ n∈stuck,WaitGraph.InCircle waits n := by
  by_contra hnone
  push Not at hnone
  let behind : {n // n∈stuck} → {n // n∈stuck} → Prop :=
    fun d n => Relation.TransGen (WaitGraph.Waits waits) n.1 d.1
  have hfinite : Finite {n // n∈stuck} := List.finite_toSet stuck
  have htrans : IsTrans _ behind := ⟨fun _ _ _ hab hbc => hbc.trans hab⟩
  have hirrefl : Std.Irrefl behind := ⟨fun n hn => hnone n.1 n.2 hn⟩
  have hwf : WellFounded behind := Finite.wellFounded_of_trans_of_irrefl behind
  obtain ⟨n,hn⟩ := List.exists_mem_of_ne_nil stuck hne
  induction (⟨n,hn⟩ : {n // n∈stuck}) using hwf.induction with
  | h n ih =>
    obtain ⟨d,hd,hin⟩ := hwaits n.1 n.2
    exact ih ⟨d,hin⟩ (Relation.TransGen.single hd)

/-- The rounds get stuck if and only if something waits for what is not there, or stands in a
circle. -/
theorem rounds_eq_none_iff (waits : N → List N) (hk : remaining.length ≤ k) :
    rounds waits k remaining [] = none ↔
      ∃ n∈remaining,(∃ d∈waits n,d∉remaining) ∨ WaitGraph.InCircle waits n := by
  constructor
  · intro h
    obtain ⟨stuck,hne,hsub,hwaits⟩ := rounds_stuck hk h
    by_cases hout : ∃ n∈stuck,∃ d∈waits n,d∉remaining
    · obtain ⟨n,hn,hd⟩ := hout
      exact ⟨n,hsub n hn,Or.inl hd⟩
    · push Not at hout
      have hin : ∀ n∈stuck,∃ d∈waits n,d∈stuck := by
        intro n hn
        obtain ⟨d,hd,_,hwhere⟩ := hwaits n hn
        exact ⟨d,hd,hwhere.resolve_right fun hnot => hnot (hout n hn d hd)⟩
      obtain ⟨n,hn,hcircle⟩ := exists_inCircle hne hin
      exact ⟨n,hsub n hn,Or.inr hcircle⟩
  · rintro ⟨n,hn,hblocked⟩
    cases h : rounds waits k remaining [] with
    | none => rfl
    | some rs =>
      exfalso
      rcases hblocked with ⟨d,hd,hnot⟩ | hcircle
      · have hperm := rounds_perm h
        obtain ⟨current,hcurrent,hmem⟩ := List.mem_flatten.mp (hperm.mem_iff.mpr hn)
        obtain ⟨before,after,hsplit⟩ := List.append_of_mem hcurrent
        have horder := (rounds_inOrder h hsplit).2 n hmem d hd
        rcases horder with hin | hin
        · exact absurd hin List.not_mem_nil
        · refine hnot (hperm.mem_iff.mp ?_)
          rw [hsplit,List.flatten_append]
          exact List.mem_append_left _ hin
      · have hgrounded := rounds_grounded h (fun m hm => absurd hm List.not_mem_nil) n hn
        exact hgrounded.not_inCircle hcircle

end Rounds
end CourseraObjC
