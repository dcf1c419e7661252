import CourseraObjC.ObjectGraph
import CourseraObjC.PathSearch

/-! What `isDirty:` sees of the children of an object: those that are values themselves of its
data, of theirs and so on, but none that lies in an array or a dictionary, and nothing of what
has been changed in place. -/
namespace CourseraObjC
namespace ObjectGraph

open PathSearch

variable {O F : Type} [DecidableEq O] {g : ObjectGraph O F} {seen seen' : Finset O} {n : ℕ}

def valueChild : String × Value O F → Option O
  | (_,.object o) => some o
  | _ => none

def children (g : ObjectGraph O F) (o : O) : List O :=
  (g.object o).estimatedData.filterMap valueChild

/-- What has been seen since is clean, and so is what it leads to or it has been seen too. -/
structure AllClean (g : ObjectGraph O F) (seen seen' : Finset O) : Prop where
  sub : seen ⊆ seen'
  clean : ∀ x∈seen',x∉seen → (g.object x).isMarked = false
  closed : ∀ x∈seen',x∉seen → ∀ p∈g.children x,p∈seen'

omit [DecidableEq O] in
theorem AllClean.refl (g : ObjectGraph O F) (seen : Finset O) : AllClean g seen seen where
  sub := Finset.Subset.refl seen
  clean _ hx hnot := absurd hx hnot
  closed _ hx hnot := absurd hx hnot

omit [DecidableEq O] in
theorem AllClean.trans {seen'' : Finset O} (h : AllClean g seen seen')
    (h' : AllClean g seen' seen'') : AllClean g seen seen'' where
  sub := h.sub.trans h'.sub
  clean x hx hnot := by
    by_cases hin : x∈seen'
    · exact h.clean x hin hnot
    · exact h'.clean x hx hin
  closed x hx hnot p hp := by
    by_cases hin : x∈seen'
    · exact h'.sub (h.closed x hin hnot p hp)
    · exact h'.closed x hx hin p hp

omit [DecidableEq O] in
theorem AllClean.reached {o x : O} (h : AllClean g ∅ seen) (ho : o∈seen)
    (hx : Reaches g.children o x) : x∈seen ∧ (g.object x).isMarked = false := by
  have hin : x∈seen := by
    induction hx with
    | refl => exact ho
    | tail _ hstep ih => exact h.closed _ ih (Finset.notMem_empty _) _ hstep.1
  exact ⟨hin,h.clean x hin (Finset.notMem_empty x)⟩

inductive Answers (g : ObjectGraph O F) (from' : O → Prop) (seen : Finset O) :
    Option (Bool × Finset O) → Prop
  | dirty {o x : O} {seen' : Finset O} (ho : from' o) (hreach : Reaches g.children o x)
      (hdirty : (g.object x).isMarked = true) : Answers g from' seen (some (true,seen'))
  | clean {seen' : Finset O} (hall : AllClean g seen seen') (hseen : ∀ o,from' o → o∈seen') :
      Answers g from' seen (some (false,seen'))

omit [DecidableEq O] in
/-- One value after the other, each searched in what the ones before have left to see. -/
theorem anyChildDirty_answers (visit : Finset O → O → Option (Bool × Finset O))
    (data : List (String × Value O F))
    (hvisit : ∀ o∈data.filterMap valueChild,∀ seen',seen ⊆ seen' →
      Answers g (fun x => x = o) seen' (visit seen' o))
    (hsub : seen ⊆ seen') :
    Answers g (fun x => x∈data.filterMap valueChild) seen' (anyChildDirty visit data seen') := by
  induction data generalizing seen' with
  | nil => exact .clean (AllClean.refl g seen') fun o ho => absurd ho List.not_mem_nil
  | cons entry data ih =>
    obtain ⟨key,value⟩ := entry
    cases value with
    | object o =>
      have ho : Answers g (fun x => x = o) seen' (visit seen' o) :=
        hvisit o List.mem_cons_self seen' hsub
      rw [anyChildDirty]
      cases hresult : visit seen' o with
      | none =>
        rw [hresult] at ho
        cases ho
      | some result =>
        rw [hresult] at ho
        cases ho with
        | dirty hfrom hreach hdirty =>
          obtain rfl := hfrom
          exact .dirty List.mem_cons_self hreach hdirty
        | @clean seen₁ hall hseen =>
          have hrest := ih (fun x hx => hvisit x (List.mem_cons_of_mem _ hx)) (hsub.trans hall.sub)
          show Answers g _ seen' (anyChildDirty visit data seen₁)
          cases hresult' : anyChildDirty visit data seen₁ with
          | none =>
            rw [hresult'] at hrest
            cases hrest
          | some result' =>
            rw [hresult'] at hrest
            cases hrest with
            | dirty hfrom hreach hdirty =>
              exact .dirty (List.mem_cons_of_mem _ hfrom) hreach hdirty
            | clean hall' hseen' =>
              refine .clean (hall.trans hall') fun x hx => ?_
              rcases List.mem_cons.mp hx with rfl | hx
              · exact hall'.sub (hseen x rfl)
              · exact hseen' x hx
    | file f => exact ih hvisit hsub
    | acl hasUnresolvedUser => exact ih hvisit hsub
    | array values => exact ih hvisit hsub
    | dictionary values => exact ih hvisit hsub
    | other => exact ih hvisit hsub

variable [Fintype O]

theorem areChildrenDirty_answers {o : O} (hn : left seen ≤ n) :
    Answers g (fun x => x = o) seen (g.areChildrenDirty n seen o) := by
  induction n generalizing seen o with
  | zero =>
    rw [areChildrenDirty]
    split_ifs with hseen hdirty
    · exact .clean (AllClean.refl g seen) fun x hx => hx ▸ hseen
    · exact .dirty rfl Relation.ReflTransGen.refl hdirty
    · have hleft := left_insert hseen
      omega
  | succ n ih =>
    rw [areChildrenDirty]
    split_ifs with hseen hdirty
    · exact .clean (AllClean.refl g seen) fun x hx => hx ▸ hseen
    · exact .dirty rfl Relation.ReflTransGen.refl hdirty
    · have hleft : left (insert o seen) ≤ n := by
        have hone := left_insert hseen
        omega
      have hchildren := anyChildDirty_answers (g.areChildrenDirty n) (g.object o).estimatedData
        (fun p _ seen' hsub => ih ((left_anti hsub).trans hleft)) (Finset.Subset.refl _)
      cases hresult : anyChildDirty (g.areChildrenDirty n) (g.object o).estimatedData
          (insert o seen) with
      | none =>
        rw [hresult] at hchildren
        cases hchildren
      | some result =>
        rw [hresult] at hchildren
        cases hchildren with
        | dirty hfrom hreach hx => exact .dirty rfl (reaches_head hfrom hreach) hx
        | @clean seen' hall hseen' =>
          have ho : o∈seen' := hall.sub (Finset.mem_insert_self o seen)
          refine .clean ⟨(Finset.subset_insert o seen).trans hall.sub,?_,?_⟩ fun x hx => hx ▸ ho
          · intro x hx hnot
            by_cases hxo : x = o
            · rw [hxo]
              exact Bool.eq_false_iff.mpr hdirty
            · exact hall.clean x hx (by simp [hxo,hnot])
          · intro x hx hnot p hp
            by_cases hxo : x = o
            · rw [hxo] at hp
              exact hseen' p hp
            · exact hall.closed x hx (by simp [hxo,hnot]) p hp

section Check

variable (g : ObjectGraph O F) (o x : O)

omit [Fintype O]

theorem estimatedData_checkForChanges :
    ((g.checkForChanges o).object x).estimatedData = (g.object x).estimatedData := by
  rw [checkForChanges]
  dsimp only
  by_cases hx : x = o
  · rw [hx,Function.update_self,ObjectData.checkForChangesToMutableContainers]
    split_ifs
    · rfl
    · rfl
  · rw [Function.update_of_ne hx]

theorem children_checkForChanges : (g.checkForChanges o).children = g.children := by
  funext x
  rw [children,children,estimatedData_checkForChanges]

theorem isMarked_checkForChanges : ((g.checkForChanges o).object x).isMarked =
    if x = o then (g.object x).isDirty else (g.object x).isMarked := by
  rw [checkForChanges]
  dsimp only
  split_ifs with hx
  · rw [hx,Function.update_self]
    rfl
  · rw [Function.update_of_ne hx]

omit [DecidableEq O] in
theorem isDirty_of_isMarked {d : ObjectData O F} (h : d.isMarked = true) : d.isDirty = true := by
  rw [ObjectData.isDirty,ObjectData.checkForChangesToMutableContainers]
  split_ifs
  · simp [ObjectData.isMarked]
  · exact h

theorem isDirty_checkpoint {seen : Finset O} (hx : x∈seen) :
    ((g.checkpoint seen).object x).isDirty = (g.object x).isMarked := by
  rw [checkpoint]
  dsimp only
  rw [if_pos hx]
  rfl

end Check

/-- A post with a new comment in an array is not dirty, and is not saved. -/
example : (isDirty (O:=Fin 2) (F:=Fin 1) ⟨fun o => if o = 0 then
    .fetched "post" [("comments",.array [.object 1])] false else .new [],fun _ => none,none,false⟩
    0).map Prod.fst = some false := by decide

end ObjectGraph
end CourseraObjC
