import Mathlib.Data.Int.Notation
import Mathlib.Tactic.Linarith
import Mathlib.Tactic.Ring

/-! Counting the seconds of a date, every month taken as thirty days. An `int` has 32 bits and
a `long` 64; a computation that overflows has no result. -/
namespace CourseraObjC
namespace MyTimeClassDefinition

def int (x : ℤ) : Option ℤ := if -2147483648 ≤ x ∧ x ≤ 2147483647 then some x else none

def long (x : ℤ) : Option ℤ :=
  if -9223372036854775808 ≤ x ∧ x ≤ 9223372036854775807 then some x else none

def product (fits : ℤ → Option ℤ) : List ℤ → Option ℤ
  | [] => fits 1
  | x::xs => do
    let first ← fits x
    xs.foldlM (fun y z => fits (y*z)) first

structure MyTime where
  year : ℤ
  month : ℤ
  day : ℤ
  hour : ℤ
  minutes : ℤ
  seconds : ℤ
  deriving DecidableEq

namespace MyTime

def approxSecondsSinceWhichYear (t : MyTime) (whichYear : ℤ) : Option ℤ := do
  let allSec ← int t.seconds
  let allSec ← long (allSec+(← product int [t.minutes,60]))
  let allSec ← long (allSec+(← product int [t.hour,3600]))
  let allSec ← long (allSec+(← product int [t.day,24,3600]))
  let allSec ← long (allSec+(← product int [t.month,30,24,3600]))
  let years := (← int t.year)-(← long whichYear)
  long (allSec+(← product long [years,365,30,24,3600]))

def secondsSinceMidnight (t : MyTime) : Option ℤ := do
  let x ← int t.seconds
  let x ← long (x+(← product int [t.minutes,60]))
  long (x+(← product int [t.hour,3600]))

def approxSecondsSince1970 (t : MyTime) : Option ℤ := t.approxSecondsSinceWhichYear 1970

end MyTime

variable {x y : ℤ} {t u : MyTime} {whichYear : ℤ}

theorem eq_of_int (h : int x = some y) : y = x := by
  unfold int at h
  split_ifs at h
  exact (Option.some.inj h).symm

theorem eq_of_long (h : long x = some y) : y = x := by
  unfold long at h
  split_ifs at h
  exact (Option.some.inj h).symm

theorem eq_of_product {fits : ℤ → Option ℤ} (hfits : ∀ {x y}, fits x = some y → y = x) {xs : List ℤ}
    (h : product fits xs = some y) : y = xs.prod := by
  have hfold : ∀ (xs : List ℤ) (x : ℤ), xs.foldlM (fun y z => fits (y*z)) x = some y →
      y = x*xs.prod := by
    intro xs
    induction xs with
    | nil =>
      intro x hx
      simpa using (Option.some.inj hx).symm
    | cons z xs ih =>
      intro x hx
      obtain ⟨w,hw,hrest⟩ := Option.bind_eq_some_iff.mp hx
      rw [ih w hrest,hfits hw,List.prod_cons,mul_assoc]
  cases xs with
  | nil => exact hfits h
  | cons x xs =>
    obtain ⟨first,hfirst,hrest⟩ := Option.bind_eq_some_iff.mp h
    rw [hfold xs first hrest,hfits hfirst,List.prod_cons]

/-- A year counts thirty times its 365 days. -/
theorem approx_eq (h : t.approxSecondsSinceWhichYear whichYear = some x) :
    x = t.seconds+t.minutes*60+t.hour*3600+t.day*86400+t.month*(30*86400)+
      (t.year-whichYear)*(365*30*86400) := by
  simp only [MyTime.approxSecondsSinceWhichYear,Option.bind_eq_bind,Option.bind_eq_some_iff] at h
  obtain ⟨seconds,hseconds,minutes,hminutes,sum₁,hsum₁,hour,hhour,sum₂,hsum₂,day,hday,sum₃,hsum₃,
    month,hmonth,sum₄,hsum₄,year,hyear,base,hbase,years,hyears,hx⟩ := h
  rw [eq_of_long hx,eq_of_long hsum₄,eq_of_long hsum₃,eq_of_long hsum₂,eq_of_long hsum₁,
    eq_of_int hseconds,eq_of_product eq_of_int hminutes,eq_of_product eq_of_int hhour,
    eq_of_product eq_of_int hday,eq_of_product eq_of_int hmonth,eq_of_product eq_of_long hyears,
    eq_of_int hyear,eq_of_long hbase]
  simp only [List.prod_cons,List.prod_nil]
  ring

theorem midnight_eq (h : t.secondsSinceMidnight = some x) :
    x = t.seconds+t.minutes*60+t.hour*3600 := by
  simp only [MyTime.secondsSinceMidnight,Option.bind_eq_bind,Option.bind_eq_some_iff] at h
  obtain ⟨seconds,hseconds,minutes,hminutes,sum,hsum,hour,hhour,hx⟩ := h
  rw [eq_of_long hx,eq_of_long hsum,eq_of_int hseconds,eq_of_product eq_of_int hminutes,
    eq_of_product eq_of_int hhour]
  simp only [List.prod_cons,List.prod_nil,mul_one]

/-! ### Units -/

/-- Two changes of a date change its count by the same amount. -/
def SameChange (t t₁ t₂ : MyTime) (whichYear : ℤ) : Prop :=
  ∀ r r₁ r₂, t.approxSecondsSinceWhichYear whichYear = some r →
    t₁.approxSecondsSinceWhichYear whichYear = some r₁ →
      t₂.approxSecondsSinceWhichYear whichYear = some r₂ → r₁-r = r₂-r

/-- As many of a unit as the next one has count like one of that. -/
structure Carries (t : MyTime) (whichYear : ℤ) : Prop where
  seconds : SameChange t { t with seconds := t.seconds+60 } { t with minutes := t.minutes+1 } whichYear
  minutes : SameChange t { t with minutes := t.minutes+60 } { t with hour := t.hour+1 } whichYear
  hour : SameChange t { t with hour := t.hour+24 } { t with day := t.day+1 } whichYear
  day : SameChange t { t with day := t.day+30 } { t with month := t.month+1 } whichYear

def YearIs365Days (t : MyTime) (whichYear : ℤ) : Prop :=
  SameChange t { t with year := t.year+1 } { t with day := t.day+365 } whichYear

def CountsBaseYears (t : MyTime) (a b : ℤ) : Prop :=
  ∀ r s, t.approxSecondsSinceWhichYear a = some r → t.approxSecondsSinceWhichYear b = some s →
    r-s = (b-a)*365*86400

/-- On one day the count goes with the seconds since midnight. -/
def CountsFromMidnight (t u : MyTime) (whichYear : ℤ) : Prop :=
  t.year = u.year → t.month = u.month → t.day = u.day →
    ∀ r s x y, t.approxSecondsSinceWhichYear whichYear = some r →
      u.approxSecondsSinceWhichYear whichYear = some s →
        t.secondsSinceMidnight = some x → u.secondsSinceMidnight = some y → r-s = x-y

structure NoOverflow (t : MyTime) (whichYear a b : ℤ) : Prop where
  date : (t.approxSecondsSinceWhichYear whichYear).isSome
  year : (MyTime.approxSecondsSinceWhichYear { t with year := t.year+1 } whichYear).isSome
  day : (MyTime.approxSecondsSinceWhichYear { t with day := t.day+365 } whichYear).isSome
  since_a : (t.approxSecondsSinceWhichYear a).isSome
  since_b : (t.approxSecondsSinceWhichYear b).isSome

theorem carries (t : MyTime) (whichYear : ℤ) : Carries t whichYear := by
  constructor
  all_goals
    intro r r₁ r₂ _ h₁ h₂
    rw [approx_eq h₁,approx_eq h₂]
    ring

theorem countsFromMidnight (t u : MyTime) (whichYear : ℤ) : CountsFromMidnight t u whichYear := by
  intro hyear hmonth hday r s x y hr hs hx hy
  rw [approx_eq hr,approx_eq hs,midnight_eq hx,midnight_eq hy,hyear,hmonth,hday]
  ring

theorem not_yearIs365Days {a b : ℤ} (h : NoOverflow t whichYear a b) :
    ¬ YearIs365Days t whichYear := by
  intro hyear
  obtain ⟨r,hr⟩ := Option.isSome_iff_exists.mp h.date
  obtain ⟨r₁,h₁⟩ := Option.isSome_iff_exists.mp h.year
  obtain ⟨r₂,h₂⟩ := Option.isSome_iff_exists.mp h.day
  have hsame := hyear r r₁ r₂ hr h₁ h₂
  rw [approx_eq h₁,approx_eq h₂] at hsame
  simp only at hsame
  linarith

theorem countsBaseYears_iff {a b : ℤ} (h : NoOverflow t whichYear a b) :
    CountsBaseYears t a b ↔ a = b := by
  obtain ⟨r,hr⟩ := Option.isSome_iff_exists.mp h.since_a
  obtain ⟨s,hs⟩ := Option.isSome_iff_exists.mp h.since_b
  have hdiff : r-s = (b-a)*(365*30*86400) := by
    rw [approx_eq hr,approx_eq hs]
    ring
  constructor
  · intro hcounts
    have hdays := hcounts r s hr hs
    linarith
  · rintro rfl r' s' hr' hs'
    obtain rfl : r' = s' := Option.some.inj (hr'.symm.trans hs')
    ring

/-- The units are not consistent for any date: a year never counts like 365 days, and the years
between two base years never do. Below a year they are. -/
theorem units_not_consistent {a b : ℤ} (h : NoOverflow t whichYear a b) (u : MyTime) :
    ¬ (Carries t whichYear ∧ YearIs365Days t whichYear ∧ CountsBaseYears t a b ∧
        CountsFromMidnight t u whichYear) ∧
      Carries t whichYear ∧ CountsFromMidnight t u whichYear ∧ ¬ YearIs365Days t whichYear ∧
        (CountsBaseYears t a b ↔ a = b) :=
  ⟨fun hall => not_yearIs365Days h hall.2.1,carries t whichYear,countsFromMidnight t u whichYear,
    not_yearIs365Days h,countsBaseYears_iff h⟩

def newYear2000 : MyTime := ⟨2000,1,1,0,0,0⟩

theorem noOverflow_newYear2000 : NoOverflow newYear2000 1970 1970 1971 := by
  constructor <;> decide

theorem units_not_consistent_newYear2000 :
    ¬ (Carries newYear2000 1970 ∧ YearIs365Days newYear2000 1970 ∧
        CountsBaseYears newYear2000 1970 1971 ∧ CountsFromMidnight newYear2000 ⟨2000,1,1,6,0,0⟩ 1970) ∧
      Carries newYear2000 1970 ∧ CountsFromMidnight newYear2000 ⟨2000,1,1,6,0,0⟩ 1970 ∧
        ¬ YearIs365Days newYear2000 1970 ∧ (CountsBaseYears newYear2000 1970 1971 ↔ (1970 : ℤ) = 1971) :=
  units_not_consistent noOverflow_newYear2000 ⟨2000,1,1,6,0,0⟩

/-- One year more counts 946080000 seconds, 365 days more count 31536000. -/
theorem year_counts_thirty_years : ¬ YearIs365Days newYear2000 1970 := by
  intro h
  have hsame := h 28385078400 29331158400 28416614400 (by decide) (by decide) (by decide)
  exact absurd hsame (by decide)

end MyTimeClassDefinition
end CourseraObjC
