import Mathlib.Data.List.Basic

/-! Runs of a program that reacts to one event at a time and may fail.
A failing step ends its run: nothing is promised, and nothing happens, after it. -/
namespace CourseraObjC
namespace Runs

universe u

variable {σ ε χ : Type*} {step : σ → ε → Except χ σ} {P Q : σ → ε → Prop}

/-- The state a list of events leads to, or the failure that ended it. -/
def run (step : σ → ε → Except χ σ) (s : σ) (es : List ε) : Except χ σ := es.foldlM step s

@[simp] theorem run_nil (s : σ) : run step s [] = .ok s := rfl

theorem run_cons (s : σ) (e : ε) (es : List ε) :
    run step s (e::es) = step s e >>= fun t => run step t es := List.foldlM_cons

theorem bind_eq_ok {α β : Type u} {x : Except χ α} {f : α → Except χ β} {b : β} :
    x >>= f = .ok b ↔ ∃ a, x = .ok a ∧ f a = .ok b := by
  cases x with
  | error e => simp [bind,Except.bind]
  | ok a => simp [bind,Except.bind]

theorem forall_ok_iff {R : σ → Prop} {x : Except χ σ} {s : σ} (h : x = .ok s) :
    (∀ t, x = .ok t → R t) ↔ R s := by
  refine ⟨fun hall => hall s h,fun hs t ht => ?_⟩
  obtain rfl : s = t := Except.ok.inj (h.symm.trans ht)
  exact hs

theorem guard_eq_ok {p : Prop} [Decidable p] {failure : χ} {s t : σ} :
    (if p then .ok s else .error failure : Except χ σ) = .ok t ↔ p ∧ t = s := by
  split_ifs with hp
  · simp [hp,eq_comm]
  · simp [hp]

theorem run_cons_eq_ok {s u : σ} {e : ε} {es : List ε} :
    run step s (e::es) = .ok u ↔ ∃ t, step s e = .ok t ∧ run step t es = .ok u := by
  rw [run_cons,bind_eq_ok]

theorem run_append_eq_ok {s u : σ} {es fs : List ε} :
    run step s (es++fs) = .ok u ↔ ∃ t, run step s es = .ok t ∧ run step t fs = .ok u := by
  induction es generalizing s with
  | nil => simp
  | cons e es ih =>
    simp only [List.cons_append,run_cons_eq_ok,ih]
    constructor
    · rintro ⟨a,ha,t,ht,hu⟩
      exact ⟨t,⟨a,ha,ht⟩,hu⟩
    · rintro ⟨t,⟨a,ha,ht⟩,hu⟩
      exact ⟨a,ha,t,ht,hu⟩

theorem run_singleton (s : σ) (e : ε) : run step s [e] = step s e := by
  rw [run_cons]
  cases step s e with
  | error x => rfl
  | ok t => rfl

theorem run_concat_eq_ok {s u : σ} {es : List ε} {e : ε} :
    run step s (es++[e]) = .ok u ↔ ∃ t, run step s es = .ok t ∧ step t e = .ok u := by
  simp only [run_append_eq_ok,run_singleton]

/-- `P` holds of every state of the run and the event met there. -/
def Along (step : σ → ε → Except χ σ) (P : σ → ε → Prop) : σ → List ε → Prop
  | _, [] => True
  | s, e::es => P s e ∧ ∀ t, step s e = .ok t → Along step P t es

@[simp] theorem along_nil (s : σ) : Along step P s [] := trivial

theorem along_cons (s : σ) (e : ε) (es : List ε) :
    Along step P s (e::es) ↔ P s e ∧ ∀ t, step s e = .ok t → Along step P t es := Iff.rfl

instance decidableAlong [∀ s e, Decidable (P s e)] :
    (s : σ) → (es : List ε) → Decidable (Along step P s es)
  | _, [] => isTrue trivial
  | s, e::es =>
    match h : step s e with
    | .error _ => decidable_of_iff (P s e) (by simp [along_cons,h])
    | .ok t =>
      have := decidableAlong t es
      decidable_of_iff (P s e ∧ Along step P t es) (by simp [along_cons,h])

theorem along_append (s : σ) (es fs : List ε) :
    Along step P s (es++fs) ↔
      Along step P s es ∧ ∀ t, run step s es = .ok t → Along step P t fs := by
  induction es generalizing s with
  | nil => simp
  | cons e es ih =>
    simp only [List.cons_append,along_cons,ih,run_cons_eq_ok]
    constructor
    · rintro ⟨hp,h⟩
      exact ⟨⟨hp,fun t ht => (h t ht).1⟩,fun u ⟨t,ht,hu⟩ => (h t ht).2 u hu⟩
    · rintro ⟨⟨hp,h⟩,hrest⟩
      exact ⟨hp,fun t ht => ⟨h t ht,fun u hu => hrest u ⟨t,ht,hu⟩⟩⟩

theorem along_concat {s : σ} {es : List ε} {e : ε} :
    Along step P s (es++[e]) ↔ Along step P s es ∧ ∀ t, run step s es = .ok t → P t e := by
  simp [along_append,along_cons]

theorem run_invariant_of_mem {I : σ → Prop} {es : List ε}
    (hstep : ∀ e ∈ es, ∀ s t, I s → step s e = .ok t → I t)
    {s t : σ} (hs : I s) (hrun : run step s es = .ok t) : I t := by
  induction es generalizing s with
  | nil =>
    obtain rfl : s = t := by simpa using hrun
    exact hs
  | cons e es ih =>
    obtain ⟨a,ha,hrest⟩ := run_cons_eq_ok.mp hrun
    have hI := hstep e (by simp) s a hs ha
    exact ih (fun e' he' => hstep e' (by simp [he'])) hI hrest

theorem run_invariant {I : σ → Prop} (hstep : ∀ e s t, I s → step s e = .ok t → I t)
    {s t : σ} {es : List ε} (hs : I s) (hrun : run step s es = .ok t) : I t :=
  run_invariant_of_mem (fun e _ => hstep e) hs hrun

theorem along_congr {I : σ → Prop} {es : List ε}
    (hstep : ∀ e ∈ es, ∀ s t, I s → step s e = .ok t → I t)
    (hPQ : ∀ e ∈ es, ∀ s, I s → (P s e ↔ Q s e)) {s : σ} (hs : I s) :
    Along step P s es ↔ Along step Q s es := by
  induction es generalizing s with
  | nil => simp
  | cons e es ih =>
    rw [along_cons,along_cons,hPQ e (by simp) s hs]
    apply and_congr_right
    intro _
    apply forall₂_congr
    intro t ht
    exact ih (fun e' he' => hstep e' (by simp [he'])) (fun e' he' => hPQ e' (by simp [he']))
      (hstep e (by simp) s t hs ht)

theorem run_completes_iff (s : σ) (es : List ε) :
    (∃ t, run step s es = .ok t) ↔ Along step (fun s e => ∃ t, step s e = .ok t) s es := by
  induction es generalizing s with
  | nil => simp
  | cons e es ih =>
    simp only [run_cons_eq_ok,along_cons,← ih]
    constructor
    · rintro ⟨u,t,ht,hu⟩
      exact ⟨⟨t,ht⟩,(forall_ok_iff ht).mpr ⟨u,hu⟩⟩
    · rintro ⟨⟨t,ht⟩,hrest⟩
      obtain ⟨u,hu⟩ := hrest t ht
      exact ⟨u,t,ht,hu⟩

/-- An invariant under which a step succeeds exactly if its guard holds turns the
guards met along a run into its completion. -/
theorem run_completes_iff_guarded {I : σ → Prop} (hstep : ∀ e s t, I s → step s e = .ok t → I t)
    (hguard : ∀ e s, I s → ((∃ t, step s e = .ok t) ↔ P s e)) {s : σ} (es : List ε) (hs : I s) :
    (∃ t, run step s es = .ok t) ↔ Along step P s es := by
  rw [run_completes_iff]
  exact along_congr (fun e _ => hstep e) (fun e _ => hguard e) hs

/-- Where the state has no say in whether a step fails, neither has it along the run. -/
theorem run_completes_iff_forall {Q : ε → Prop}
    (hguard : ∀ s e, (∃ t, step s e = .ok t) ↔ Q e) (s : σ) (es : List ε) :
    (∃ t, run step s es = .ok t) ↔ ∀ e ∈ es, Q e := by
  induction es generalizing s with
  | nil => simp
  | cons e es ih =>
    simp only [run_cons_eq_ok,List.forall_mem_cons,← hguard s e]
    constructor
    · rintro ⟨u,t,ht,hu⟩
      exact ⟨⟨t,ht⟩,(ih t).mp ⟨u,hu⟩⟩
    · rintro ⟨⟨t,ht⟩,hrest⟩
      obtain ⟨u,hu⟩ := (ih t).mpr hrest
      exact ⟨u,t,ht,hu⟩

/-- `R` holds of every state a run goes through, its first and its last with them. -/
def Always (step : σ → ε → Except χ σ) (R : σ → Prop) : σ → List ε → Prop
  | s, [] => R s
  | s, e::es => R s ∧ ∀ t, step s e = .ok t → Always step R t es

theorem Always.head {R : σ → Prop} {s : σ} {es : List ε} (h : Always step R s es) : R s := by
  cases es with
  | nil => exact h
  | cons e es => exact h.1

/-- What the steps from states with `R` keep holds where a run through such states ends. -/
theorem run_invariant_of_always {I R : σ → Prop}
    (hstep : ∀ e s t, R s → I s → step s e = .ok t → I t) {s t : σ} {es : List ε}
    (hR : Always step R s es) (hs : I s) (hrun : run step s es = .ok t) : I t := by
  induction es generalizing s with
  | nil =>
    obtain rfl : s = t := by simpa using hrun
    exact hs
  | cons e es ih =>
    obtain ⟨a,ha,hrest⟩ := run_cons_eq_ok.mp hrun
    exact ih (hR.2 a ha) (hstep e s a hR.1 hs ha) hrest

/-- How many events of a run `p` is true of, each with the state that meets it. -/
def countAlong (step : σ → ε → Except χ σ) (p : σ → ε → Bool) : σ → List ε → ℕ
  | _, [] => 0
  | s, e::es =>
    (p s e).toNat+match step s e with
      | .error _ => 0
      | .ok t => countAlong step p t es

/-- What the successful steps keep while the count goes up with each event `p` is true of
holds where the run ends, with the count of its events. -/
theorem run_counts {p : σ → ε → Bool} {I : ℕ → σ → Prop}
    (hstep : ∀ e n s t, I n s → step s e = .ok t → I (n+(p s e).toNat) t)
    {n : ℕ} {s t : σ} {es : List ε} (hs : I n s) (hrun : run step s es = .ok t) :
    I (n+countAlong step p s es) t := by
  induction es generalizing n s with
  | nil =>
    obtain rfl : s = t := by simpa using hrun
    exact hs
  | cons e es ih =>
    obtain ⟨a,ha,hrest⟩ := run_cons_eq_ok.mp hrun
    have hcount : countAlong step p s (e::es) = (p s e).toNat+countAlong step p a es := by
      simp only [countAlong,ha]
    rw [hcount,← Nat.add_assoc]
    exact ih (hstep e n s a hs ha) hrest

theorem Along.and_forall {Q : ε → Prop} {s : σ} {es : List ε} (h : Along step P s es)
    (hQ : ∀ e ∈ es, Q e) : Along step (fun s e => P s e ∧ Q e) s es := by
  induction es generalizing s with
  | nil => trivial
  | cons e es ih =>
    rw [List.forall_mem_cons] at hQ
    exact ⟨⟨h.1,hQ.1⟩,fun t ht => ih (h.2 t ht) hQ.2⟩

theorem run_invariant_along {I : σ → Prop}
    (hstep : ∀ e s t, P s e → I s → step s e = .ok t → I t) {s t : σ} {es : List ε}
    (hP : Along step P s es) (hs : I s) (hrun : run step s es = .ok t) : I t := by
  induction es generalizing s with
  | nil =>
    obtain rfl : s = t := by simpa using hrun
    exact hs
  | cons e es ih =>
    obtain ⟨a,ha,hrest⟩ := run_cons_eq_ok.mp hrun
    exact ih (hP.2 a ha) (hstep e s a hP.1 hs ha) hrest

/-- `Q` holds of each event and what has been noted of the events before it. -/
def Noted {τ : Type*} (note : τ → ε → τ) (Q : τ → ε → Prop) : τ → List ε → Prop
  | _, [] => True
  | x, e::es => Q x e ∧ Noted note Q (note x e) es

instance decidableNoted {τ : Type*} {note : τ → ε → τ} {Q : τ → ε → Prop}
    [∀ x e, Decidable (Q x e)] : (x : τ) → (es : List ε) → Decidable (Noted note Q x es)
  | _, [] => isTrue trivial
  | x, e::es =>
    have : Decidable (Noted note Q (note x e) es) := decidableNoted _ es
    inferInstanceAs (Decidable (Q x e ∧ Noted note Q (note x e) es))

/-- Where what the events so far say decides whether `R` holds after the next one, they do so
for the states of a completed run. -/
theorem always_iff_noted {τ : Type*} {note : τ → ε → τ} {Q : τ → ε → Prop} {I : τ → σ → Prop}
    {R : σ → Prop} (hstep : ∀ e x s t, I x s → step s e = .ok t → I (note x e) t)
    (hQ : ∀ e x s t, I x s → step s e = .ok t → (R t ↔ Q x e)) {x : τ} {s t : σ} {es : List ε}
    (hs : I x s) (hrun : run step s es = .ok t) :
    Always step R s es ↔ R s ∧ Noted note Q x es := by
  induction es generalizing x s with
  | nil => simp [Always,Noted]
  | cons e es ih =>
    obtain ⟨a,ha,hrest⟩ := run_cons_eq_ok.mp hrun
    rw [Always,Noted,forall_ok_iff ha,ih (hstep e x s a hs ha) hrest,hQ e x s a hs ha]

/-- As long as `R` holds, the state and the event before a step may decide with its help
whether it goes on to hold. -/
theorem always_iff_along_of_always {I R : σ → Prop}
    (hstep : ∀ e s t, I s → step s e = .ok t → I t)
    (hQ : ∀ e s t, I s → R s → step s e = .ok t → (R t ↔ Q s e)) {s t : σ} {es : List ε}
    (hs : I s) (hR : R s) (hrun : run step s es = .ok t) :
    Always step R s es ↔ Along step Q s es := by
  induction es generalizing s with
  | nil => exact iff_of_true hR trivial
  | cons e es ih =>
    obtain ⟨a,ha,hrest⟩ := run_cons_eq_ok.mp hrun
    have hhead := hQ e s a hs hR ha
    rw [Always,along_cons,forall_ok_iff ha,forall_ok_iff ha]
    constructor
    · rintro ⟨_,hall⟩
      have hRa : R a := hall.head
      exact ⟨hhead.mp hRa,(ih (hstep e s a hs ha) hRa hrest).mp hall⟩
    · rintro ⟨hq,hall⟩
      have hRa : R a := hhead.mpr hq
      exact ⟨hR,(ih (hstep e s a hs ha) hRa hrest).mpr hall⟩

/-- What an observer makes of a run that sees each state and the event met there. -/
def observe {τ : Type*} (step : σ → ε → Except χ σ) (note : τ → σ → ε → τ) :
    τ → σ → List ε → τ
  | x, _, [] => x
  | x, s, e::es =>
    match step s e with
    | .error _ => x
    | .ok t => observe step note (note x s e) t es

theorem observe_cons {τ : Type*} {note : τ → σ → ε → τ} {x : τ} {s t : σ} {e : ε} {es : List ε}
    (h : step s e = .ok t) : observe step note x s (e::es) = observe step note (note x s e) t es := by
  simp only [observe,h]

/-- What ties the observer to the state, step by step, ties them where the run ends. -/
theorem run_observed {τ : Type*} {note : τ → σ → ε → τ} {I : τ → σ → Prop}
    (hstep : ∀ e x s t, P s e → I x s → step s e = .ok t → I (note x s e) t)
    {x : τ} {s t : σ} {es : List ε} (hP : Along step P s es) (hs : I x s)
    (hrun : run step s es = .ok t) : I (observe step note x s es) t := by
  induction es generalizing x s with
  | nil =>
    obtain rfl : s = t := by simpa using hrun
    exact hs
  | cons e es ih =>
    obtain ⟨a,ha,hrest⟩ := run_cons_eq_ok.mp hrun
    rw [observe_cons ha]
    exact ih (hP.2 a ha) (hstep e x s a hP.1 hs ha) hrest

/-- Two observers of one run that stay tied to each other and to the state. -/
theorem run_observed_two {τ τ' : Type*} {note : τ → σ → ε → τ} {note' : τ' → σ → ε → τ'}
    {I : τ → τ' → σ → Prop}
    (hstep : ∀ e x y s t, P s e → I x y s → step s e = .ok t → I (note x s e) (note' y s e) t)
    {x : τ} {y : τ'} {s t : σ} {es : List ε} (hP : Along step P s es) (hs : I x y s)
    (hrun : run step s es = .ok t) :
    I (observe step note x s es) (observe step note' y s es) t := by
  induction es generalizing x y s with
  | nil =>
    obtain rfl : s = t := by simpa using hrun
    exact hs
  | cons e es ih =>
    obtain ⟨a,ha,hrest⟩ := run_cons_eq_ok.mp hrun
    rw [observe_cons ha,observe_cons ha]
    exact ih (hP.2 a ha) (hstep e x y s a hP.1 hs ha) hrest

end Runs
end CourseraObjC
