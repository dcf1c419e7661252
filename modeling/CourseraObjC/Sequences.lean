import Mathlib.Data.List.Infix
import Mathlib.Data.Set.Basic

/-! Sequences of actions that run side by side. Each belongs to an owner and keeps the
actions it has not run yet; any of them may run its next action at any time, and a
sequence that has run out stays in its place. -/
namespace CourseraObjC
namespace Sequences

variable {ι α : Type*} {pool pool' : List (ι × List α)} {i : ι} {a : α} {rest : List α} {j k : ℕ}

/-- The owner and the next action of the `k`-th sequence, and the sequences after it. -/
def next (k : ℕ) (pool : List (ι × List α)) : Option (ι × α × List (ι × List α)) :=
  match pool[k]? with
  | some (i,a::rest) => some (i,a,pool.set k (i,rest))
  | _ => none

theorem next_eq_some :
    next k pool = some (i,a,pool') ↔
      ∃ rest, pool[k]? = some (i,a::rest) ∧ pool' = pool.set k (i,rest) := by
  unfold next
  split
  · rename_i i' a' rest' h
    simp only [h,Option.some.injEq,Prod.mk.injEq,List.cons.injEq]
    constructor
    · rintro ⟨rfl,rfl,rfl⟩
      exact ⟨rest',⟨rfl,rfl,rfl⟩,rfl⟩
    · rintro ⟨rest,⟨rfl,rfl,rfl⟩,rfl⟩
      exact ⟨rfl,rfl,rfl⟩
  · rename_i h
    simp only [reduceCtorEq,false_iff]
    rintro ⟨rest,hk,_⟩
    exact h i a rest hk

theorem getElem?_next_of_ne (h : next k pool = some (i,a,pool')) (hj : j ≠ k) :
    pool'[j]? = pool[j]? := by
  obtain ⟨rest,_,rfl⟩ := next_eq_some.mp h
  exact List.getElem?_set_ne hj.symm

theorem getElem?_next_self (h : next k pool = some (i,a,pool')) (hk : pool[k]? = some (i,a::rest)) :
    pool'[k]? = some (i,rest) := by
  obtain ⟨rest',hk',rfl⟩ := next_eq_some.mp h
  obtain ⟨_,rfl⟩ : i = i ∧ rest = rest' := by simpa [hk] using hk'
  exact List.getElem?_set_self (List.getElem?_eq_some_iff.mp hk).1

theorem map_fst_next (h : next k pool = some (i,a,pool')) :
    pool'.map Prod.fst = pool.map Prod.fst := by
  obtain ⟨rest,hk,rfl⟩ := next_eq_some.mp h
  obtain ⟨hlt,hget⟩ := List.getElem?_eq_some_iff.mp hk
  rw [List.map_set]
  apply List.ext_getElem?
  intro n
  by_cases hn : k = n
  · subst hn
    rw [List.getElem?_set_self (by simpa using hlt),List.getElem?_map,hk]
    rfl
  · rw [List.getElem?_set_ne hn]

/-- Every sequence is what is left of a program of its owner. -/
def Begun (programs : ι → Set (List α)) (pool : List (ι × List α)) : Prop :=
  ∀ x ∈ pool, ∃ program ∈ programs x.1, x.2 <:+ program

variable {programs : ι → Set (List α)}

theorem begun_nil : Begun programs ([] : List (ι × List α)) := by
  intro x hx
  cases hx

theorem Begun.append (h : Begun programs pool) {program : List α} (hprogram : program ∈ programs i) :
    Begun programs (pool++[(i,program)]) := by
  intro x hx
  rcases List.mem_append.mp hx with hx | hx
  · exact h x hx
  · rw [List.mem_singleton.mp hx]
    exact ⟨program,hprogram,List.suffix_refl program⟩

theorem Begun.next (h : Begun programs pool) (hnext : next k pool = some (i,a,pool')) :
    Begun programs pool' := by
  obtain ⟨rest,hk,rfl⟩ := next_eq_some.mp hnext
  intro x hx
  rcases List.mem_or_eq_of_mem_set hx with hx | rfl
  · exact h x hx
  · obtain ⟨program,hprogram,hsuffix⟩ := h (i,a::rest) (List.mem_of_getElem? hk)
    exact ⟨program,hprogram,(List.suffix_cons a rest).trans hsuffix⟩

/-- The next action, with what follows it, is the end of a program of its owner. -/
theorem Begun.suffix (h : Begun programs pool) (hk : pool[k]? = some (i,a::rest)) :
    ∃ program ∈ programs i, a::rest <:+ program := h _ (List.mem_of_getElem? hk)

end Sequences
end CourseraObjC
