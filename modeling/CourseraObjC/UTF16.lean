import Mathlib.Data.List.Basic
import Mathlib.Data.Nat.Notation

/-! Texts as lists of UTF-16 code units. In a well-formed text surrogates occur as pairs of a
high and a low one only. -/
namespace CourseraObjC
namespace UTF16

def IsHigh (u : UInt16) : Prop := 0xD800 ≤ u ∧ u < 0xDC00
def IsLow (u : UInt16) : Prop := 0xDC00 ≤ u ∧ u < 0xE000

instance (u : UInt16) : Decidable (IsHigh u) := inferInstanceAs (Decidable (_ ∧ _))
instance (u : UInt16) : Decidable (IsLow u) := inferInstanceAs (Decidable (_ ∧ _))

/-- A unit that is no surrogate stands for a character, a high and a low one together do. -/
inductive WellFormed : List UInt16 → Prop
  | nil : WellFormed []
  | unit {u : UInt16} {us : List UInt16} (high : ¬ IsHigh u) (low : ¬ IsLow u)
      (rest : WellFormed us) : WellFormed (u::us)
  | pair {u v : UInt16} {us : List UInt16} (high : IsHigh u) (low : IsLow v)
      (rest : WellFormed us) : WellFormed (u::v::us)

variable {u v : UInt16} {us vs : List UInt16}

theorem not_isHigh_of_isLow (h : IsLow u) : ¬ IsHigh u := fun hhigh =>
  absurd hhigh.2 (UInt16.not_lt.mpr h.1)

theorem wellFormed_cons_iff (high : ¬ IsHigh u) (low : ¬ IsLow u) :
    WellFormed (u::us) ↔ WellFormed us := by
  constructor
  · intro h
    cases h with
    | unit _ _ rest => exact rest
    | pair hhigh _ _ => exact absurd hhigh high
  · exact .unit high low

theorem wellFormed_pair_iff (high : IsHigh u) (low : IsLow v) :
    WellFormed (u::v::us) ↔ WellFormed us := by
  constructor
  · intro h
    cases h with
    | unit hhigh _ _ => exact absurd high hhigh
    | pair _ _ rest => exact rest
  · exact .pair high low

theorem not_wellFormed_high (high : IsHigh u) : ¬ WellFormed [u] := by
  intro h
  cases h with
  | unit hhigh _ _ => exact hhigh high

theorem WellFormed.append (hu : WellFormed us) (hv : WellFormed vs) : WellFormed (us++vs) := by
  induction hu with
  | nil => exact hv
  | unit high low _ ih => exact .unit high low ih
  | pair high low _ ih => exact .pair high low ih

theorem wellFormed_replicate (high : ¬ IsHigh u) (low : ¬ IsLow u) (n : ℕ) :
    WellFormed (List.replicate n u) := by
  induction n with
  | zero => exact .nil
  | succ n ih => exact .unit high low ih

/-- The beginning of a well-formed text is well-formed exactly if it does not end with a high
surrogate: the cut is then between two characters. -/
theorem WellFormed.take_iff (h : WellFormed us) (n : ℕ) :
    WellFormed (us.take n) ↔ ∀ u, (us.take n).getLast? = some u → ¬ IsHigh u := by
  induction h generalizing n with
  | nil => simpa using WellFormed.nil
  | @unit u us high low _ ih =>
    cases n with
    | zero => simpa using WellFormed.nil
    | succ n =>
      rw [List.take_succ_cons,wellFormed_cons_iff high low,ih,List.getLast?_cons]
      cases hlast : (us.take n).getLast? with
      | none => simpa using high
      | some v => simp
  | @pair u v us high low _ ih =>
    match n with
    | 0 => simpa using WellFormed.nil
    | 1 => simpa [high] using not_wellFormed_high high
    | n+2 =>
      rw [List.take_succ_cons,List.take_succ_cons,wellFormed_pair_iff high low,ih,
        List.getLast?_cons,List.getLast?_cons]
      cases hlast : (us.take n).getLast? with
      | none => simpa using not_isHigh_of_isLow low
      | some w => simp

end UTF16
end CourseraObjC
