import Mathlib.Logic.Relation
import Mathlib.Order.WellFounded

/-! Nodes that wait for one another, and the set of those that have gone on: none goes on
before all that it waits for is done. What stands in a circle never goes on; everything else
does, once nothing is left to do. -/
namespace CourseraObjC
namespace WaitGraph

variable {N : Type} {waits : N → List N} {done done' : N → Prop} {n d : N}

def Waits (waits : N → List N) (n d : N) : Prop := d∈waits n

/-- Nothing is done before what it waits for. -/
def Respects (waits : N → List N) (done : N → Prop) : Prop := ∀ n,done n → ∀ d∈waits n,done d

def InCircle (waits : N → List N) (n : N) : Prop := Relation.TransGen (Waits waits) n n

/-- All that `n` waits for, through others too, can be done one after another. -/
def Grounded (waits : N → List N) (n : N) : Prop := Acc (fun d n => Waits waits n d) n

theorem Respects.of_reaches (h : Respects waits done)
    (hreach : Relation.ReflTransGen (Waits waits) n d) (hn : done n) : done d := by
  induction hreach with
  | refl => exact hn
  | tail _ hlast ih => exact h _ ih _ hlast

/-- Where only nodes in no circle are done, what waits for nodes that are done is in none. -/
theorem not_inCircle_of_ready (done : N → Prop) (hcircles : ∀ n,InCircle waits n → ¬done n)
    (hready : ∀ d∈waits n,done d) : ¬InCircle waits n := by
  intro hn
  obtain ⟨d,hd,hrest⟩ := Relation.TransGen.head'_iff.mp hn
  have hback : InCircle waits d := Relation.TransGen.tail' hrest hd
  exact hcircles d hback (hready d hd)

theorem Grounded.not_inCircle (h : Grounded waits n) : ¬InCircle waits n := by
  induction h with
  | intro n _ ih =>
    intro hn
    obtain ⟨d,hd,hrest⟩ := Relation.TransGen.head'_iff.mp hn
    exact ih d hd (Relation.TransGen.tail' hrest hd)

theorem InCircle.next {z : N} (hz : InCircle waits z) {x : N}
    (hx : Relation.TransGen (Waits waits) z x ∧ Relation.TransGen (Waits waits) x z) :
    ∃ y∈waits x,Relation.TransGen (Waits waits) z y ∧ Relation.TransGen (Waits waits) y z := by
  obtain ⟨hto,hback⟩ := hx
  obtain ⟨y,hy,hrest⟩ := Relation.TransGen.head'_iff.mp hback
  refine ⟨y,hy,hto.tail hy,?_⟩
  exact Relation.TransGen.trans_right hrest hz

/-- At rest each node that is not done waits for another that is not. -/
def AtRest (waits : N → List N) (done : N → Prop) : Prop :=
  ∀ n,¬done n → ∃ d∈waits n,¬done d

theorem AtRest.done_of_grounded (h : AtRest waits done) (hn : Grounded waits n) : done n := by
  induction hn with
  | intro n _ ih =>
    by_contra hnot
    obtain ⟨d,hd,hopen⟩ := h n hnot
    exact hopen (ih d hd)

section Extension

variable {waits' : N → List N} {old : N → Prop}

/-- A graph that has grown on the top of some nodes, which still wait for what they did. -/
structure Grows (old : N → Prop) (waits waits' : N → List N) : Prop where
  kept : ∀ n,old n → waits' n = waits n
  closed : ∀ n,old n → ∀ d∈waits n,old d

theorem Grows.reaches (h : Grows old waits waits') (hn : old n)
    (hreach : Relation.ReflTransGen (Waits waits) n d) :
    old d ∧ Relation.ReflTransGen (Waits waits') n d := by
  induction hreach with
  | refl => exact ⟨hn,Relation.ReflTransGen.refl⟩
  | tail _ hlast ih =>
    refine ⟨h.closed _ ih.1 _ hlast,ih.2.tail ?_⟩
    rw [Waits,h.kept _ ih.1]
    exact hlast

theorem Grows.behind (h : Grows old waits waits') (hn : old n)
    (hreach : Relation.TransGen (Waits waits) n d) : Relation.TransGen (Waits waits') n d := by
  obtain ⟨c,hc,hrest⟩ := Relation.TransGen.head'_iff.mp hreach
  have hc' : Waits waits' n c := by
    rw [Waits,h.kept n hn]
    exact hc
  exact Relation.TransGen.head' hc' (h.reaches (h.closed n hn c hc) hrest).2

theorem Grows.grounded (h : Grows old waits waits') (hn : old n) (hg : Grounded waits n) :
    Grounded waits' n := by
  induction hg with
  | intro n _ ih =>
    refine Acc.intro n fun d hd => ?_
    rw [Waits,h.kept n hn] at hd
    exact ih d hd (h.closed n hn d hd)

end Extension

end WaitGraph
end CourseraObjC
