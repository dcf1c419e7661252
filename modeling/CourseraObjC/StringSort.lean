import CourseraObjC.StringTable
import Mathlib.Data.List.Sort

/-! What TableViewDemo's sort button does to the array. The inner loop carries a string
down into the sorted rows below it, so the two loops together are an insertion sort. -/
namespace CourseraObjC
namespace TableViewDemo

open Runs ViewController

variable (compare : String → String → Ordering) {s : ViewController} {above below : List String}
  {a b : String}

def InOrder (a b : String) : Prop := compare a b ≠ .gt

instance : DecidableRel (InOrder compare) := fun _ _ => inferInstanceAs (Decidable (_ ≠ _))

instance [Std.TransCmp compare] : Std.Total (InOrder compare) where
  total a b := by
    by_cases h : compare a b = .gt
    · refine Or.inr fun h' => ?_
      cases (Std.OrientedCmp.lt_of_gt h).symm.trans h'
    · exact Or.inl h

instance [Std.TransCmp compare] : IsTrans String (InOrder compare) where
  trans a b c hab hbc := by
    simp only [InOrder,ne_eq,← Ordering.isLE_iff_ne_gt] at hab hbc ⊢
    exact Std.TransCmp.isLE_trans hab hbc

/-- The rows after a string was carried down: each neighbour that comes before it goes up. -/
def carry (a : String) : List String → List String
  | [] => [a]
  | b::below => if compare a b = .gt then b::carry a below else a::carry b below

/-- In sorted rows the string stops at its place and the later comparisons change nothing. -/
theorem carry_eq_orderedInsert (h : below.Pairwise (InOrder compare)) :
    carry compare a below = below.orderedInsert (InOrder compare) a := by
  induction below generalizing a with
  | nil => rfl
  | cons b below ih =>
    obtain ⟨hb,hbelow⟩ := List.pairwise_cons.mp h
    rw [carry,ih hbelow,ih hbelow]
    by_cases hab : compare a b = .gt
    · rw [if_pos hab,List.orderedInsert_of_not_le _ below (not_not_intro hab)]
    · rw [if_neg hab,List.orderedInsert_cons_of_le _ below hab]
      cases below with
      | nil => rfl
      | cons c below => rw [List.orderedInsert_cons,if_pos (hb c List.mem_cons_self)]

/-! ### The loops -/

theorem innerLoop_strings (fuel : ℕ) (hs : s.InSync) (hstrings : s.ourStrings = above++a::below)
    (hfuel : below.length ≤ fuel) :
    ∃ t, innerLoop compare fuel above.length s = .ok t ∧ t.InSync ∧
      t.ourStrings = above++carry compare a below := by
  have hcount {s : ViewController} {above below : List String} {a : String}
      (h : s.ourStrings = above++a::below) :
      toNSUInteger (s.ourStrings.length-1) = above.length+below.length := by
    rw [toNSUInteger_length_sub_one (by simp [h]),h]
    simp
  induction below generalizing fuel above a s with
  | nil =>
    have hdone : innerLoop compare fuel above.length s = .ok s := by
      unfold innerLoop
      rw [toNSUInteger_natCast,hcount hstrings,if_neg (by simp)]
    exact ⟨s,hdone,hs,hstrings⟩
  | cons b below ih =>
    obtain ⟨fuel,rfl⟩ : ∃ n, fuel = n+1 := ⟨fuel-1,by simp at hfuel; omega⟩
    obtain ⟨u,hu,husync,hustrings⟩ := inSync_compareAt compare hs hstrings
    have hnext : innerLoop compare (fuel+1) above.length s =
        innerLoop compare fuel (above.length+1) u := by
      rw [innerLoop,toNSUInteger_natCast,hcount hstrings,if_pos (by simp),hu]
      rfl
    -- the two outcomes of a comparison differ in which string is carried on
    have hgo (c d : String) (hcd : u.ourStrings = above++c::d::below) :
        ∃ t, innerLoop compare fuel (above.length+1) u = .ok t ∧ t.InSync ∧
          t.ourStrings = above++c::carry compare d below := by
      have hcd' : u.ourStrings = (above++[c])++d::below := by simp [hcd]
      obtain ⟨t,ht,htsync,htstrings⟩ := ih fuel husync hcd'
        (by simp at hfuel; omega)
      refine ⟨t,?_,htsync,by simp [htstrings]⟩
      simpa using ht
    rw [hnext,carry]
    split_ifs at hustrings ⊢ with hab
    · exact hgo b a hustrings
    · exact hgo a b hustrings

/-- The outer loop inserts the upper strings, from the lowest up, into the sorted rows below. -/
theorem outerLoop_strings [Std.TransCmp compare] {sorted : List String} (hs : s.InSync)
    (hstrings : s.ourStrings = above++sorted) (hsorted : sorted.Pairwise (InOrder compare)) :
    ∃ t, outerLoop compare above.length s = .ok t ∧ t.InSync ∧
      t.ourStrings = above.foldr (List.orderedInsert (InOrder compare)) sorted := by
  induction above using List.reverseRecOn generalizing s sorted with
  | nil => exact ⟨s,rfl,hs,hstrings⟩
  | append_singleton above a ih =>
    have hstrings' : s.ourStrings = above++a::sorted := by simp [hstrings]
    obtain ⟨u,hu,husync,hustrings⟩ := innerLoop_strings compare s.ourStrings.length hs hstrings'
      (by simp [hstrings']; omega)
    rw [carry_eq_orderedInsert compare hsorted] at hustrings
    obtain ⟨t,ht,htsync,htstrings⟩ := ih husync hustrings (hsorted.orderedInsert a sorted)
    refine ⟨t,?_,htsync,?_⟩
    · rw [List.length_append]
      exact bind_eq_ok.mpr ⟨u,hu,ht⟩
    · rw [htstrings,List.foldr_append]
      rfl

/-- `i` starts at the last index but one, also where the count minus 2 wraps. -/
theorem start_eq {n : ℕ} (h : n < UInt64.size/2) :
    (toLong (toNSUInteger ((n : ℤ)-2))+1).toNat = n-1 := by
  have hsize : UInt64.size = 18446744073709551616 := rfl
  simp only [toLong,toNSUInteger,hsize] at h ⊢
  split_ifs <;> omega

theorem sortButtonTapped_eq_insertionSort [Std.TransCmp compare] (hs : s.InSync)
    (hlength : s.ourStrings.length < UInt64.size/2) :
    ∃ t, s.sortButtonTapped compare = .ok t ∧ t.InSync ∧
      t.ourStrings = s.ourStrings.insertionSort (InOrder compare) := by
  rw [ViewController.sortButtonTapped,start_eq hlength]
  cases hstrings : s.ourStrings using List.reverseRecOn with
  | nil => exact ⟨s,rfl,hs,hstrings⟩
  | append_singleton above last _ =>
    obtain ⟨t,ht,htsync,htstrings⟩ := outerLoop_strings compare hs hstrings
      (List.pairwise_singleton _ last)
    refine ⟨t,?_,htsync,?_⟩
    · simpa using ht
    · rw [htstrings,List.insertionSort,List.foldr_append]
      rfl

/-! ### The order -/

theorem filter_insertionSort [Std.TransCmp compare] (strings : List String) (a : String) :
    ((strings.insertionSort (InOrder compare)).filter fun b => compare a b = .eq) =
      strings.filter fun b => compare a b = .eq := by
  have hequal : (strings.filter fun b => compare a b = .eq).Pairwise (InOrder compare) := by
    apply List.pairwise_of_forall_mem_list
    intro b hb c hc
    have hab : compare a b = .eq := by simpa using (List.mem_filter.mp hb).2
    have hac : compare a c = .eq := by simpa using (List.mem_filter.mp hc).2
    have hbc := Std.TransCmp.eq_trans (Std.OrientedCmp.eq_symm hab) hac
    intro hgt
    cases hbc.symm.trans hgt
  have hsublist := (List.sublist_insertionSort hequal List.filter_sublist).filter
    fun b => compare a b = .eq
  rw [List.filter_filter] at hsublist
  simp only [Bool.and_self] at hsublist
  have hperm := (List.perm_insertionSort (InOrder compare) strings).filter fun b => compare a b = .eq
  exact (hsublist.eq_of_length hperm.length_eq.symm).symm

/-- For every total preorder the button returns, and leaves a permutation of the array in
order, with strings that compare as equal as they were. No array reaches half of 2^64. -/
theorem sortButtonTapped_sorts [Std.TransCmp compare] (hs : s.InSync)
    (hlength : s.ourStrings.length < UInt64.size/2) :
    ∃ t, s.sortButtonTapped compare = .ok t ∧ t.ourStrings.Perm s.ourStrings ∧
      (t.ourStrings.Pairwise fun a b => compare a b ≠ .gt) ∧
      ∀ a, (t.ourStrings.filter fun b => compare a b = .eq) =
        s.ourStrings.filter fun b => compare a b = .eq := by
  obtain ⟨t,ht,_,hsorted⟩ := sortButtonTapped_eq_insertionSort compare hs hlength
  refine ⟨t,ht,?_,?_,fun a => ?_⟩
  · rw [hsorted]
    exact List.perm_insertionSort _ _
  · rw [hsorted]
    exact List.pairwise_insertionSort (InOrder compare) s.ourStrings
  · rw [hsorted]
    exact filter_insertionSort compare s.ourStrings a

def fruits : ViewController :=
  ⟨["pear","fig","kiwi"],⟨["pear","fig","kiwi"],⟨⟨[],[]⟩,[]⟩⟩,[]⟩

theorem fruits_sorted_by_length : ∃ t,
    fruits.sortButtonTapped (compareOn String.length) = .ok t ∧ t.ourStrings.Perm fruits.ourStrings ∧
      (t.ourStrings.Pairwise fun a b => compareOn String.length a b ≠ .gt) ∧
      ∀ a, (t.ourStrings.filter fun b => compareOn String.length a b = .eq) =
        fruits.ourStrings.filter fun b => compareOn String.length a b = .eq :=
  sortButtonTapped_sorts (compareOn String.length) ⟨rfl,by simp [fruits]⟩ (by decide)

end TableViewDemo
end CourseraObjC
