import Mathlib.Algebra.Order.Ring.Int
import Mathlib.Data.List.Forall2
import Mathlib.Tactic.Linarith
import Mathlib.Tactic.Ring

/-! Numbers with a radix of its own for each digit. The first digit has no bound, and the last
one counts ones. -/
namespace CourseraObjC
namespace MixedRadix

/-- The number of a first digit and some more, each with its radix. -/
def value : List ℤ → ℤ → List ℤ → ℤ
  | b::bs, x, d::ds => value bs (x*b+d) ds
  | _, x, _ => x

def IsDigit (b d : ℤ) : Prop := 0 ≤ d ∧ d < b

variable {b c d x y : ℤ} {bs cs ds : List ℤ}

/-- One more of a digit outweighs what stands behind it. -/
theorem mul_add_lt_of_lt (hc : IsDigit b c) (hd : IsDigit b d) (h : x < y) : x*b+c < y*b+d := by
  have hb : 0 ≤ b := hc.1.trans hc.2.le
  calc x*b+c < x*b+b := Int.add_lt_add_left hc.2 (x*b)
    _ = (x+1)*b := by ring
    _ ≤ y*b := Int.mul_le_mul_of_nonneg_right h hb
    _ ≤ y*b+d := Int.le_add_of_nonneg_right hd.1

theorem mul_add_lt_iff (hc : IsDigit b c) (hd : IsDigit b d) :
    x*b+c < y*b+d ↔ x < y ∨ x = y ∧ c < d := by
  rcases lt_trichotomy x y with hlt | rfl | hgt
  · exact iff_of_true (mul_add_lt_of_lt hc hd hlt) (.inl hlt)
  · simp
  · have hvalue : y*b+d < x*b+c := mul_add_lt_of_lt hd hc hgt
    refine iff_of_false hvalue.not_gt ?_
    rintro (hlt | ⟨rfl,_⟩)
    · exact hgt.not_gt hlt
    · exact lt_irrefl _ hgt

theorem mul_add_eq_iff (hc : IsDigit b c) (hd : IsDigit b d) :
    x*b+c = y*b+d ↔ x = y ∧ c = d := by
  constructor
  · intro h
    have hle : ¬ x < y := fun hlt => (mul_add_lt_of_lt hc hd hlt).ne h
    have hge : ¬ y < x := fun hlt => (mul_add_lt_of_lt hd hc hlt).ne h.symm
    obtain rfl : x = y := le_antisymm (not_lt.mp hge) (not_lt.mp hle)
    exact ⟨rfl,add_left_cancel h⟩
  · rintro ⟨rfl,rfl⟩
    rfl

/-- Numbers with the same radices compare as their digits do, from the first one on. -/
theorem value_lt_iff (hcs : List.Forall₂ IsDigit bs cs) (hds : List.Forall₂ IsDigit bs ds) :
    value bs x cs < value bs y ds ↔ x < y ∨ x = y ∧ cs < ds := by
  induction hcs generalizing x y ds with
  | nil =>
    cases hds with
    | nil => simp [value]
  | @cons b c bs cs hc _ ih =>
    cases hds with
    | @cons _ d _ ds hd hds =>
      rw [value,value,ih hds,mul_add_lt_iff hc hd,mul_add_eq_iff hc hd,List.cons_lt_cons_iff,
        and_assoc,and_or_left,or_assoc]

end MixedRadix
end CourseraObjC
