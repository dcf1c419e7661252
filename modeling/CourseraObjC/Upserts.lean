import Mathlib.Data.List.Dedup
import Mathlib.Data.List.Induction

/-! Lists of things that have an identity, which several elements may share. Each operation
on such a list does its work for every identity on its own, so that two lists in which no two
elements with one identity change places are as good as equal. -/
namespace CourseraObjC
namespace Upserts

variable {α ι : Type*} [DecidableEq ι] (ident : α → ι)

/-- Puts `x` in the place of the first element with its identity, or at the end. -/
def upsert : List α → α → List α
  | [], x => [x]
  | y::l, x => if ident y = ident x then x::l else y::upsert l x

def upsertAll (l xs : List α) : List α := xs.foldl (upsert ident) l

def removeAll (l xs : List α) : List α := l.filter fun y => ident y ∉ xs.map ident

/-- The elements with identity `i`, in their order. -/
def strand (i : ι) (l : List α) : List α := l.filter (ident · = i)

/-- Two lists that differ at most in the order between different things. -/
def Similar (l m : List α) : Prop := ∀ i, strand ident i l = strand ident i m

variable {ident}

namespace Similar

variable {l m n : List α}

@[refl] theorem refl (l : List α) : Similar ident l l := fun _ => rfl

theorem symm (h : Similar ident l m) : Similar ident m l := fun i => (h i).symm

theorem trans (h : Similar ident l m) (h' : Similar ident m n) : Similar ident l n :=
  fun i => (h i).trans (h' i)

end Similar

@[simp] theorem strand_nil (i : ι) : strand ident i [] = [] := rfl

@[simp] theorem strand_append (i : ι) (l m : List α) :
    strand ident i (l++m) = strand ident i l++strand ident i m := List.filter_append _ _

theorem strand_cons (i : ι) (x : α) (l : List α) :
    strand ident i (x::l) = if ident x = i then x::strand ident i l else strand ident i l := by
  simp [strand,List.filter_cons]

theorem strand_singleton (i : ι) (x : α) :
    strand ident i [x] = if ident x = i then [x] else [] := by
  rw [strand_cons,strand_nil]

theorem mem_strand {i : ι} {l : List α} {x : α} : x ∈ strand ident i l ↔ x ∈ l ∧ ident x = i := by
  simp [strand]

/-- What an upsert does to the elements with the new one's identity. -/
def replaceHead (x : α) (l : List α) : List α := x::l.tail

theorem strand_upsert (i : ι) (l : List α) (x : α) :
    strand ident i (upsert ident l x) =
      if ident x = i then replaceHead x (strand ident i l) else strand ident i l := by
  induction l with
  | nil => simp [upsert,strand_singleton,replaceHead]
  | cons y l ih =>
    rw [upsert]
    by_cases hyx : ident y = ident x
    · rw [if_pos hyx]
      by_cases hi : ident x = i
      · simp [strand_cons,hi,hyx,replaceHead]
      · simp [strand_cons,hi,hyx]
    · rw [if_neg hyx,strand_cons,strand_cons,ih]
      by_cases hi : ident x = i
      · have hy : ident y ≠ i := fun h => hyx (h.trans hi.symm)
        simp [hi,hy]
      · simp [hi]

def overwrite (l xs : List α) : List α :=
  match xs.getLast? with
  | none => l
  | some x => replaceHead x l

@[simp] theorem overwrite_nil (l : List α) : overwrite l [] = l := rfl

theorem overwrite_concat (l xs : List α) (x : α) : overwrite l (xs++[x]) = replaceHead x l := by
  simp [overwrite]

theorem strand_upsertAll (i : ι) (l xs : List α) :
    strand ident i (upsertAll ident l xs) =
      overwrite (strand ident i l) (strand ident i xs) := by
  induction xs using List.reverseRecOn with
  | nil => rfl
  | append_singleton xs x ih =>
    have hlast : upsertAll ident l (xs++[x]) = upsert ident (upsertAll ident l xs) x := by
      simp [upsertAll]
    rw [hlast,strand_upsert,ih,strand_append,strand_singleton]
    by_cases hi : ident x = i
    · rw [if_pos hi,if_pos hi,overwrite_concat]
      rcases List.eq_nil_or_concat (strand ident i xs) with hnil | ⟨ys,y,hys⟩
      · rw [hnil,overwrite_nil]
      · rw [hys,List.concat_eq_append,overwrite_concat]
        rfl
    · rw [if_neg hi,if_neg hi,List.append_nil]

theorem strand_removeAll (i : ι) (l xs : List α) :
    strand ident i (removeAll ident l xs) =
      if i ∈ xs.map ident then [] else strand ident i l := by
  have hboth : strand ident i (removeAll ident l xs) =
      (strand ident i l).filter fun y => ident y ∉ xs.map ident := by
    rw [strand,strand,removeAll,List.filter_comm]
  rw [hboth]
  split_ifs with hi
  · apply List.filter_eq_nil_iff.mpr
    intro y hy
    rw [(mem_strand.mp hy).2]
    simpa using hi
  · apply List.filter_eq_self.mpr
    intro y hy
    rw [(mem_strand.mp hy).2]
    simpa using hi

theorem mem_map_ident {i : ι} {l : List α} : i ∈ l.map ident ↔ strand ident i l ≠ [] := by
  constructor
  · intro h
    obtain ⟨x,hx,hi⟩ := List.mem_map.mp h
    exact List.ne_nil_of_mem (mem_strand.mpr ⟨hx,hi⟩)
  · intro h
    obtain ⟨x,hx⟩ := List.exists_mem_of_ne_nil _ h
    rw [mem_strand] at hx
    exact List.mem_map.mpr ⟨x,hx⟩

theorem strand_of_nodup {l : List α} (h : (l.map ident).Nodup) (i : ι) :
    strand ident i l = [] ∨ ∃ x, strand ident i l = [x] := by
  induction l with
  | nil => exact Or.inl rfl
  | cons y l ih =>
    rw [List.map_cons,List.nodup_cons] at h
    rw [strand_cons]
    by_cases hy : ident y = i
    · have hnone : strand ident i l = [] := by
        by_contra hne
        exact h.1 (hy ▸ mem_map_ident.mpr hne)
      rw [if_pos hy,hnone]
      exact Or.inr ⟨y,rfl⟩
    · rw [if_neg hy]
      exact ih h.2

section Congruence

variable {l m xs ys : List α}

theorem Similar.append (h : Similar ident l m) (h' : Similar ident xs ys) :
    Similar ident (l++xs) (m++ys) := by
  intro i
  rw [strand_append,strand_append,h i,h' i]

theorem Similar.upsertAll (h : Similar ident l m) (h' : Similar ident xs ys) :
    Similar ident (upsertAll ident l xs) (upsertAll ident m ys) := by
  intro i
  rw [strand_upsertAll,strand_upsertAll,h i,h' i]

theorem Similar.removeAll (h : Similar ident l m) (xs : List α) :
    Similar ident (removeAll ident l xs) (removeAll ident m xs) := by
  intro i
  rw [strand_removeAll,strand_removeAll,h i]

end Congruence

theorem similar_of_perm {l m : List α} (hnd : (l.map ident).Nodup) (h : l.Perm m) :
    Similar ident l m := by
  intro i
  have hperm : (strand ident i l).Perm (strand ident i m) := h.filter _
  rcases strand_of_nodup hnd i with hnil | ⟨x,hx⟩
  · rw [hnil] at hperm ⊢
    exact (List.nil_perm.mp hperm).symm
  · rw [hx] at hperm ⊢
    exact List.singleton_perm.mp hperm

/-- Two rounds of upserts in one: first the second round is upserted into the first. -/
theorem upsertAll_upsertAll (l : List α) {xs : List α} (ys : List α)
    (hnd : (xs.map ident).Nodup) :
    Similar ident (upsertAll ident l (upsertAll ident xs ys))
      (upsertAll ident (upsertAll ident l xs) ys) := by
  intro i
  simp only [strand_upsertAll]
  rcases List.eq_nil_or_concat (strand ident i ys) with hnil | ⟨zs,z,hz⟩
  · rw [hnil,overwrite_nil,overwrite_nil]
  · rw [hz,List.concat_eq_append,overwrite_concat,overwrite_concat]
    rcases strand_of_nodup hnd i with hnone | ⟨x,hx⟩
    · rw [hnone]
      rfl
    · rw [hx]
      rfl

theorem removeAll_removeAll (l xs ys : List α) :
    removeAll ident (removeAll ident l xs) ys = removeAll ident l (xs++ys) := by
  rw [removeAll,removeAll,removeAll,List.filter_filter]
  apply List.filter_congr
  intro y _
  simp only [List.map_append,List.mem_append]
  by_cases hx : ident y ∈ xs.map ident
  · simp [hx]
  · simp [hx]

/-- What was removed is gone: no list to remove from can hold as much as the removed things. -/
theorem not_similar_removeAll {l xs : List α} (hne : xs ≠ []) :
    ¬Similar ident (l++xs) (removeAll ident l xs) := by
  intro h
  obtain ⟨x,hx⟩ := List.exists_mem_of_ne_nil xs hne
  have hstrand := h (ident x)
  have hmem : x ∈ strand ident (ident x) (l++xs) := mem_strand.mpr ⟨by simp [hx],rfl⟩
  rw [hstrand,strand_removeAll,if_pos (List.mem_map_of_mem hx)] at hmem
  simp at hmem

theorem upsert_of_not_mem {l : List α} {x : α} (h : ident x ∉ l.map ident) :
    upsert ident l x = l++[x] := by
  induction l with
  | nil => rfl
  | cons y l ih =>
    rw [List.map_cons,List.mem_cons,not_or] at h
    rw [upsert,if_neg (Ne.symm h.1),ih h.2,List.cons_append]

theorem map_upsert (l : List α) (x : α) :
    (upsert ident l x).map ident =
      if ident x ∈ l.map ident then l.map ident else l.map ident++[ident x] := by
  induction l with
  | nil => simp [upsert]
  | cons y l ih =>
    rw [upsert]
    by_cases hyx : ident y = ident x
    · simp [hyx]
    · have hxy : ident x ≠ ident y := fun h => hyx h.symm
      rw [if_neg hyx,List.map_cons,ih,List.map_cons]
      simp only [List.mem_cons,hxy,false_or]
      split_ifs
      · rfl
      · rfl

theorem nodup_upsertAll {l : List α} (xs : List α) (hnd : (l.map ident).Nodup) :
    ((upsertAll ident l xs).map ident).Nodup := by
  induction xs generalizing l with
  | nil => exact hnd
  | cons x xs ih =>
    apply ih
    rw [map_upsert]
    split_ifs with hx
    · exact hnd
    · exact List.nodup_append.mpr ⟨hnd,List.nodup_singleton _,by
        intro a ha b hb
        rw [List.mem_singleton] at hb
        rintro rfl
        exact hx (hb ▸ ha)⟩

end Upserts
end CourseraObjC
