import CourseraObjC.MixedRadix
import CourseraObjC.MyTime

/-! Counts of seconds and the calendar. Behind its days a count is a number with the radices of
the clock, so it keeps the order of dates as far as the days of thirty-day months do. -/
namespace CourseraObjC
namespace MyTimeClassDefinition

open MixedRadix

def IsLeapYear (year : ℤ) : Prop := year%4 = 0 ∧ (year%100 ≠ 0 ∨ year%400 = 0)

instance (year : ℤ) : Decidable (IsLeapYear year) := inferInstanceAs (Decidable (_ ∧ _))

def monthLength (year month : ℤ) : ℤ :=
  if month = 2 then if IsLeapYear year then 29 else 28
  else if month = 4 ∨ month = 6 ∨ month = 9 ∨ month = 11 then 30
  else 31

namespace MyTime

def date (t : MyTime) : List ℤ := [t.year,t.month,t.day]
def clock (t : MyTime) : List ℤ := [t.hour,t.minutes,t.seconds]

/-- Dates and times compare by their fields, the year first and the seconds last. -/
def Earlier (t u : MyTime) : Prop := t.date++t.clock < u.date++u.clock

/-- A day that the calendar has, and a time that the clock shows. -/
structure CalendarValid (t : MyTime) : Prop where
  month : 1 ≤ t.month ∧ t.month ≤ 12
  day : 1 ≤ t.day ∧ t.day ≤ monthLength t.year t.month
  hour : 0 ≤ t.hour ∧ t.hour ≤ 23
  minutes : 0 ≤ t.minutes ∧ t.minutes ≤ 59
  seconds : 0 ≤ t.seconds ∧ t.seconds ≤ 59

def approxDays (t : MyTime) (whichYear : ℤ) : ℤ := t.day+t.month*30+(t.year-whichYear)*(365*30)

/-- The first is on the 31st of a month, the second on the day after it, in the same year. -/
structure OverMonthEnd (t u : MyTime) : Prop where
  year : u.year = t.year
  month : u.month = t.month+1
  lastDay : t.day = 31
  firstDay : u.day = 1

end MyTime

variable {t u : MyTime} {whichYear x y : ℤ}

theorem earlier_iff : t.Earlier u ↔ t.date < u.date ∨ t.date = u.date ∧ t.clock < u.clock := by
  simp only [MyTime.Earlier,MyTime.date,List.cons_append,List.nil_append,List.cons_lt_cons_iff,
    List.cons.injEq,and_true,List.not_lt_nil,and_false,or_false,and_assoc,and_or_left,or_assoc]

theorem monthLength_le (year month : ℤ) : monthLength year month ≤ 31 := by
  unfold monthLength
  split_ifs <;> omega

theorem digits_clock (ht : t.CalendarValid) : List.Forall₂ IsDigit [24,60,60] t.clock :=
  .cons ⟨ht.hour.1,Int.lt_add_one_of_le ht.hour.2⟩
    (.cons ⟨ht.minutes.1,Int.lt_add_one_of_le ht.minutes.2⟩
      (.cons ⟨ht.seconds.1,Int.lt_add_one_of_le ht.seconds.2⟩ .nil))

theorem approx_eq_value (h : t.approxSecondsSinceWhichYear whichYear = some x) :
    x = value [24,60,60] (t.approxDays whichYear) t.clock := by
  rw [approx_eq h]
  simp only [value,MyTime.clock,MyTime.approxDays]
  ring

theorem approx_lt_iff (ht : t.CalendarValid) (hu : u.CalendarValid)
    (hx : t.approxSecondsSinceWhichYear whichYear = some x)
    (hy : u.approxSecondsSinceWhichYear whichYear = some y) :
    x < y ↔ t.approxDays whichYear < u.approxDays whichYear ∨
      t.approxDays whichYear = u.approxDays whichYear ∧ t.clock < u.clock := by
  rw [approx_eq_value hx,approx_eq_value hy]
  exact value_lt_iff (digits_clock ht) (digits_clock hu)

theorem date_lt_iff : t.date < u.date ↔
    t.year < u.year ∨ t.year = u.year ∧ (t.month < u.month ∨ t.month = u.month ∧ t.day < u.day) := by
  simp only [MyTime.date,List.cons_lt_cons_iff,List.not_lt_nil,and_false,or_false]

theorem approxDays_of_date_eq (h : t.date = u.date) (whichYear : ℤ) :
    t.approxDays whichYear = u.approxDays whichYear := by
  simp only [MyTime.date,List.cons.injEq,and_true] at h
  simp only [MyTime.approxDays,h]

/-- Thirty days are no more than a month, so the 31st has the number of the day after it. -/
theorem approxDays_of_overMonthEnd (h : t.OverMonthEnd u) (whichYear : ℤ) :
    t.approxDays whichYear = u.approxDays whichYear := by
  simp only [MyTime.approxDays,h.year,h.month,h.lastDay,h.firstDay]
  ring

/-- Everywhere else a later day counts more days. -/
theorem approxDays_lt (ht : t.CalendarValid) (hu : u.CalendarValid) (h : t.date < u.date)
    (hover : ¬ t.OverMonthEnd u) (whichYear : ℤ) :
    t.approxDays whichYear < u.approxDays whichYear := by
  have hday : t.day ≤ 31 := ht.day.2.trans (monthLength_le t.year t.month)
  have hfirst : 1 ≤ u.day := hu.day.1
  have hmonth := ht.month
  have hmonth' := hu.month
  unfold MyTime.approxDays
  rcases date_lt_iff.mp h with hyear | ⟨hyear,hmonths | ⟨hmonths,hdays⟩⟩
  · -- a year outweighs twelve months and the days of one
    omega
  · have hnot : ¬ (u.month = t.month+1 ∧ t.day = 31 ∧ u.day = 1) := fun hall =>
      hover ⟨hyear.symm,hall.1,hall.2.1,hall.2.2⟩
    rw [hyear]
    omega
  · rw [hyear,hmonths]
    omega

/-- Of two dates in order the second has the smaller count exactly if the first is on the 31st
of a month, the second on the day after it in the same year, and its clock shows an earlier
time; all others keep their order. -/
theorem approx_le_iff (ht : t.CalendarValid) (hu : u.CalendarValid) (hearlier : t.Earlier u)
    (hx : t.approxSecondsSinceWhichYear whichYear = some x)
    (hy : u.approxSecondsSinceWhichYear whichYear = some y) :
    x ≤ y ↔ ¬ (t.OverMonthEnd u ∧ u.clock < t.clock) := by
  rw [← not_lt,approx_lt_iff hu ht hy hx]
  apply not_congr
  rcases earlier_iff.mp hearlier with hdate | ⟨hdate,hclock⟩
  · by_cases hover : t.OverMonthEnd u
    · have hdays := approxDays_of_overMonthEnd hover whichYear
      simp [hdays,hover]
    · have hdays := approxDays_lt ht hu hdate hover whichYear
      simp [hdays.not_gt,hdays.ne',hover]
  · have hnot : ¬ u.clock < t.clock := List.lt_asymm hclock
    have hdays := approxDays_of_date_eq hdate whichYear
    simp [hdays,hnot]

def yearEnd2019 : MyTime := ⟨2019,12,31,23,59,59⟩
def newYear2020 : MyTime := ⟨2020,1,1,0,0,0⟩

theorem approx_le_newYear2020 :
    (46391788799 : ℤ) ≤ 47306678400 ↔
      ¬ (yearEnd2019.OverMonthEnd newYear2020 ∧ newYear2020.clock < yearEnd2019.clock) := by
  have ht : yearEnd2019.CalendarValid := by constructor <;> decide
  have hu : newYear2020.CalendarValid := by constructor <;> decide
  have hearlier : yearEnd2019.Earlier newYear2020 := by
    unfold MyTime.Earlier
    decide
  have hx : yearEnd2019.approxSecondsSinceWhichYear 1970 = some 46391788799 := by decide
  have hy : newYear2020.approxSecondsSinceWhichYear 1970 = some 47306678400 := by decide
  exact approx_le_iff ht hu hearlier hx hy

def january31 : MyTime := ⟨2019,1,31,12,0,0⟩
def february1 : MyTime := ⟨2019,2,1,6,0,0⟩

/-- Since 1970 there are fewer seconds up to the next morning than up to noon. -/
theorem approx_not_monotone : january31.CalendarValid ∧ february1.CalendarValid ∧
    january31.Earlier february1 ∧ january31.approxSecondsSince1970 = some 46363233600 ∧
      february1.approxSecondsSince1970 = some 46363212000 ∧ ¬ (46363233600 : ℤ) ≤ 46363212000 := by
  refine ⟨by constructor <;> decide,by constructor <;> decide,?_,by decide,by decide,by decide⟩
  unfold MyTime.Earlier
  decide

end MyTimeClassDefinition
end CourseraObjC
