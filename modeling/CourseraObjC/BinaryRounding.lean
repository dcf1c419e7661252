import Mathlib.Data.Int.Log
import Mathlib.Data.Rat.Floor
import Mathlib.Order.Hom.Basic
import Mathlib.Tactic.FieldSimp
import Mathlib.Tactic.Linarith
import Mathlib.Tactic.NormNum
import Mathlib.Tactic.Positivity
import Mathlib.Tactic.Ring

/-! Rounding to binary numbers with a fixed number of digits. A number goes to the nearest
multiple of the spacing at its size, and of two that are as near to the even one. -/
namespace CourseraObjC
namespace BinaryRounding

/-- The nearest integer, and the even one of two that are as near. -/
def roundHalfEven (x : ℚ) : ℤ :=
  let rest := x-x.floor
  if rest < 1/2 then x.floor
  else if 1/2 < rest then x.floor+1
  else if x.floor%2 = 0 then x.floor
  else x.floor+1

/-- The exponent of the last of `digits` digits at the size of `x`, at least `lowest`. -/
def exponent (digits : ℕ) (lowest : ℤ) (x : ℚ) : ℤ := max (Int.log 2 x+1-digits) lowest

/-- The distance between neighbours at the size of `x`. -/
def spacing (digits : ℕ) (lowest : ℤ) (x : ℚ) : ℚ := 2^exponent digits lowest x

def nearestOfNonneg (digits : ℕ) (lowest : ℤ) (x : ℚ) : ℚ :=
  roundHalfEven (x/spacing digits lowest x)*spacing digits lowest x

def nearest (digits : ℕ) (lowest : ℤ) (x : ℚ) : ℚ :=
  if x < 0 then -nearestOfNonneg digits lowest (-x) else nearestOfNonneg digits lowest x

theorem floor_le_roundHalfEven (x : ℚ) : x.floor ≤ roundHalfEven x := by
  simp only [roundHalfEven]
  split_ifs <;> omega

theorem roundHalfEven_le_floor (x : ℚ) : roundHalfEven x ≤ x.floor+1 := by
  simp only [roundHalfEven]
  split_ifs <;> omega

theorem roundHalfEven_mono {x y : ℚ} (hxy : x ≤ y) : roundHalfEven x ≤ roundHalfEven y := by
  have hfloor : x.floor ≤ y.floor := Rat.le_floor_iff.mpr (le_trans (Rat.floor_le x) hxy)
  rcases hfloor.lt_or_eq with hlt | heq
  · exact ((roundHalfEven_le_floor x).trans hlt).trans (floor_le_roundHalfEven y)
  · have hrest : x-x.floor ≤ y-y.floor := by
      rw [heq]
      linarith
    simp only [roundHalfEven,heq] at hrest ⊢
    split_ifs <;> first | omega | (exfalso; linarith)

theorem roundHalfEven_intCast (n : ℤ) : roundHalfEven n = n := by
  simp [roundHalfEven]

section

variable {digits : ℕ} {lowest : ℤ} {r x y : ℚ}

theorem spacing_pos : 0 < spacing digits lowest x := zpow_pos (by norm_num) _

/-- A power of two that is no finer than the spacing is a multiple of it. -/
theorem exists_multiple {e : ℤ} (h : exponent digits lowest x ≤ e) :
    ∃ k : ℤ, (2 : ℚ)^e = k*spacing digits lowest x := by
  refine ⟨2^(e-exponent digits lowest x).toNat,?_⟩
  have hsplit : (((e-exponent digits lowest x).toNat : ℕ) : ℤ) = e-exponent digits lowest x :=
    Int.toNat_of_nonneg (by omega)
  rw [spacing,Int.cast_pow,← zpow_natCast,hsplit,Int.cast_ofNat,← zpow_add₀ (by norm_num)]
  congr 1
  omega

theorem le_nearest (hr : ∃ k : ℤ, r = k*spacing digits lowest x) (h : r ≤ x) :
    r ≤ nearestOfNonneg digits lowest x := by
  obtain ⟨k,rfl⟩ := hr
  have hk : (k : ℚ) ≤ x/spacing digits lowest x := (le_div_iff₀ spacing_pos).mpr h
  have hround := roundHalfEven_mono hk
  rw [roundHalfEven_intCast] at hround
  exact mul_le_mul_of_nonneg_right (by exact_mod_cast hround) spacing_pos.le

theorem nearest_le (hr : ∃ k : ℤ, r = k*spacing digits lowest x) (h : x ≤ r) :
    nearestOfNonneg digits lowest x ≤ r := by
  obtain ⟨k,rfl⟩ := hr
  have hk : x/spacing digits lowest x ≤ k := (div_le_iff₀ spacing_pos).mpr h
  have hround := roundHalfEven_mono hk
  rw [roundHalfEven_intCast] at hround
  exact mul_le_mul_of_nonneg_right (by exact_mod_cast hround) spacing_pos.le

theorem nearestOfNonneg_nonneg (hx : 0 ≤ x) : 0 ≤ nearestOfNonneg digits lowest x :=
  le_nearest ⟨0,by simp⟩ hx

theorem nearestOfNonneg_zero : nearestOfNonneg digits lowest 0 = 0 := by
  have h : roundHalfEven 0 = 0 := roundHalfEven_intCast 0
  rw [nearestOfNonneg,zero_div,h,Int.cast_zero,zero_mul]

/-- Numbers of one spacing are rounded in order; between numbers of two spacings lies a power of
two that both can be rounded to. -/
theorem nearestOfNonneg_mono (hdigits : 0 < digits) (hx : 0 ≤ x) (hxy : x ≤ y) :
    nearestOfNonneg digits lowest x ≤ nearestOfNonneg digits lowest y := by
  rcases hx.eq_or_lt with rfl | hpos
  · rw [nearestOfNonneg_zero]
    exact nearestOfNonneg_nonneg hxy
  have hlog : Int.log 2 x ≤ Int.log 2 y := Int.log_mono_right hpos hxy
  have hexponent : exponent digits lowest x ≤ exponent digits lowest y := by
    simp only [exponent]
    omega
  rcases hexponent.eq_or_lt with heq | hlt
  · have hspacing : spacing digits lowest x = spacing digits lowest y := by rw [spacing,spacing,heq]
    simp only [nearestOfNonneg,hspacing]
    refine mul_le_mul_of_nonneg_right ?_ spacing_pos.le
    have hquotient : x/spacing digits lowest y ≤ y/spacing digits lowest y :=
      div_le_div_of_nonneg_right hxy spacing_pos.le
    exact_mod_cast roundHalfEven_mono hquotient
  · have hmid : Int.log 2 x+1 ≤ Int.log 2 y ∧ exponent digits lowest y ≤ Int.log 2 y := by
      simp only [exponent] at hlt ⊢
      omega
    have hbelow : x ≤ (2 : ℚ)^Int.log 2 y :=
      (Int.lt_zpow_succ_log_self (b:=2) (by norm_num) x).le.trans
        (zpow_le_zpow_right₀ (by norm_num) hmid.1)
    have habove : (2 : ℚ)^Int.log 2 y ≤ y :=
      Int.zpow_log_le_self (b:=2) (by norm_num) (hpos.trans_le hxy)
    exact (nearest_le (exists_multiple (hlt.le.trans hmid.2)) hbelow).trans
      (le_nearest (exists_multiple hmid.2) habove)

theorem nearest_mono (hdigits : 0 < digits) : Monotone (nearest digits lowest) := by
  intro x y hxy
  by_cases hx : x < 0
  · by_cases hy : y < 0
    · simp only [nearest,hx,hy,if_true]
      exact neg_le_neg (nearestOfNonneg_mono hdigits (by linarith) (by linarith))
    · simp only [nearest,hx,hy,if_true,if_false]
      have hneg : 0 ≤ nearestOfNonneg digits lowest (-x) := nearestOfNonneg_nonneg (by linarith)
      have hpos : 0 ≤ nearestOfNonneg digits lowest y := nearestOfNonneg_nonneg (by linarith)
      linarith
  · have hy : ¬y < 0 := by linarith
    simp only [nearest,hx,hy,if_false]
    exact nearestOfNonneg_mono hdigits (by linarith) hxy

theorem nearest_of_digits {m : ℕ} {e : ℤ} (hm : m < 2^digits) (he : lowest ≤ e) :
    nearest digits lowest (m*2^e) = m*2^e := by
  have hpow : (0 : ℚ) < 2^e := zpow_pos (by norm_num) _
  have hnonneg : (0 : ℚ) ≤ m*2^e := by positivity
  rw [nearest,if_neg (not_lt.mpr hnonneg)]
  rcases hnonneg.eq_or_lt with hzero | hpos
  · rw [← hzero,nearestOfNonneg_zero]
  have hlog : Int.log 2 ((m : ℚ)*2^e) < digits+e := by
    rw [← Int.lt_zpow_iff_log_lt (by norm_num) hpos,Nat.cast_ofNat,zpow_add₀ (by norm_num)]
    refine mul_lt_mul_of_pos_right ?_ hpow
    rw [zpow_natCast]
    exact_mod_cast hm
  have hexponent : exponent digits lowest ((m : ℚ)*2^e) ≤ e := by
    simp only [exponent]
    omega
  obtain ⟨k,hk⟩ := exists_multiple hexponent
  have hmultiple : ∃ k : ℤ, (m : ℚ)*2^e = k*spacing digits lowest (m*2^e) := by
    refine ⟨m*k,?_⟩
    conv_lhs => rw [hk]
    push_cast
    ring
  exact le_antisymm (nearest_le hmultiple le_rfl) (le_nearest hmultiple le_rfl)

end

/-- Double precision; overflow aside. -/
def double : ℚ →o ℚ := ⟨nearest 53 (-1074),nearest_mono (by norm_num)⟩

theorem double_of_digits {m : ℕ} {e : ℤ} (hm : m < 2^53) (he : -1074 ≤ e) :
    double (m*2^e) = m*2^e := nearest_of_digits hm he

end BinaryRounding
end CourseraObjC
