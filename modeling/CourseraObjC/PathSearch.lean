import Mathlib.Data.Fintype.Card
import Mathlib.Logic.Relation

/-! Searching a graph with no memory but the nodes on the path so far: such a search gets to
every node that can be reached. -/
namespace CourseraObjC
namespace PathSearch

variable {N : Type} {next : N → List N} {seen : Finset N} {n d : N}

/-- A path to `d` on which nothing after `n` has been seen. -/
def Unseen (next : N → List N) (seen : Finset N) : N → N → Prop :=
  Relation.ReflTransGen fun n d => d∈next n ∧ d∉seen

def Reaches (next : N → List N) : N → N → Prop := Unseen next ∅

theorem reaches_head {e : N} (he : e∈next n) (h : Reaches next e d) : Reaches next n d :=
  h.head ⟨he,Finset.notMem_empty e⟩

theorem Unseen.mono {seen' : Finset N} (hsub : seen ⊆ seen') (h : Unseen next seen' n d) :
    Unseen next seen n d :=
  Relation.ReflTransGen.mono (fun _ _ hstep => ⟨hstep.1,fun hin => hstep.2 (hsub hin)⟩) _ _ h

variable [DecidableEq N]

/-- A path need not come back to where it starts. -/
theorem unseen_cases (h : Unseen next seen n d) :
    d = n ∨ ∃ e∈next n,e∉insert n seen ∧ Unseen next (insert n seen) e d := by
  induction h with
  | refl => exact Or.inl rfl
  | @tail b c _ hstep ih =>
    obtain ⟨hc,hnot⟩ := hstep
    by_cases hcn : c = n
    · exact Or.inl hcn
    · have hfree : c∉insert n seen := by
        rw [Finset.mem_insert,not_or]
        exact ⟨hcn,hnot⟩
      rcases ih with rfl | ⟨e,he,hefree,hpath⟩
      · exact Or.inr ⟨c,hc,hfree,Relation.ReflTransGen.refl⟩
      · exact Or.inr ⟨e,he,hefree,hpath.tail ⟨hc,hfree⟩⟩

theorem unseen_iff : Unseen next seen n d ↔
    d = n ∨ ∃ e∈next n,e∉insert n seen ∧ Unseen next (insert n seen) e d := by
  constructor
  · exact unseen_cases
  · rintro (rfl | ⟨e,he,hfree,hpath⟩)
    · exact Relation.ReflTransGen.refl
    · have hsub : seen ⊆ insert n seen := Finset.subset_insert n seen
      exact (hpath.mono hsub).head ⟨he,fun hin => hfree (hsub hin)⟩

variable [Fintype N]

/-- How many nodes the search can still go into. -/
def left (seen : Finset N) : ℕ := (Finset.univ \ seen).card

theorem left_insert (hn : n∉seen) : left (insert n seen)+1 = left seen := by
  rw [left,left,Finset.sdiff_insert]
  exact Finset.card_erase_add_one (Finset.mem_sdiff.mpr ⟨Finset.mem_univ n,hn⟩)

theorem left_anti {seen' : Finset N} (hsub : seen ⊆ seen') : left seen' ≤ left seen :=
  Finset.card_le_card (Finset.sdiff_subset_sdiff (Finset.Subset.refl _) hsub)

@[simp] theorem left_empty : left (∅ : Finset N) = Fintype.card N := by
  rw [left,Finset.sdiff_empty,Finset.card_univ]

end PathSearch
end CourseraObjC
