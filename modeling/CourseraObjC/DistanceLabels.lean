import CourseraObjC.BinaryRounding
import CourseraObjC.DistanceRequest
import Mathlib.Data.Int.Notation

/-! The labels with the distances. When the answer to a request is there, each label is set to a
distance in the selected unit, or to "Error" where the answer holds `NSNull`. -/
namespace CourseraObjC
namespace DistanceMeasure

open Runs BinaryRounding

/-- What an array of responses may hold. -/
inductive Response
  | number (value : ℚ)
  | null
  deriving DecidableEq

structure ViewController where
  distance1 : String
  distance2 : String
  distance3 : String
  calculateButtonEnabled : Bool

inductive RangeException
  | rangeException
  deriving DecidableEq

/-! ### Numbers as texts -/

def fixed2 (x : ℚ) : String :=
  let hundredths := (roundHalfEven ((if x < 0 then -x else x)*100)).toNat
  (if x < 0 then "-" else "")++toString (hundredths/100)++"."++
    (if hundredths%100 < 10 then "0" else "")++toString (hundredths%100)

def stringWithFormat (num : ℚ) (label : Option String) : String :=
  fixed2 num++" "++label.getD "(null)"

/-! ### The callback -/

/-- The divider and the label of a segment's index. -/
def unit (index : ℤ) : ℤ × Option String :=
  if index = 0 then (1,some "m")
  else if index = 1 then (1000,some "km")
  else if index = 2 then (1609,some "miles")
  else (0,none)

/-- What a label is set to; `float` is the nearest number of single precision. -/
def labelText (float : ℚ → ℚ) (index : ℤ) : Response → String
  | .number value =>
    let num := float (float value/(unit index).1)
    stringWithFormat num (unit index).2
  | .null => "Error"

def objectAtIndex (responses : List Response) (index : ℕ) : Except RangeException Response :=
  match responses[index]? with
  | some response => .ok response
  | none => .error .rangeException

namespace ViewController

/-- The request for the three destinations is started as well. -/
def calculateButtonTapped (s : ViewController) : ViewController :=
  { s with calculateButtonEnabled := false }

def callback (float : ℚ → ℚ) (index : ℤ) (s : ViewController) (responses : List Response) :
    Except RangeException ViewController := do
  let response0 ← objectAtIndex responses 0
  let s := { s with distance1 := labelText float index response0 }
  let response1 ← objectAtIndex responses 1
  let s := { s with distance2 := labelText float index response1 }
  let response2 ← objectAtIndex responses 2
  let s := { s with distance3 := labelText float index response2 }
  pure { s with calculateButtonEnabled := true }

def label (s : ViewController) : Fin 3 → String
  | 0 => s.distance1
  | 1 => s.distance2
  | 2 => s.distance3

end ViewController

/-! ### What is to be shown -/

inductive Segment
  | meters | kilometers | miles

namespace Segment

def index : Segment → ℤ
  | meters => 0
  | kilometers => 1
  | miles => 2

def divider : Segment → ℚ
  | meters => 1
  | kilometers => 1000
  | miles => 1609

def suffix : Segment → String
  | meters => "m"
  | kilometers => "km"
  | miles => "miles"

def shown (float : ℚ → ℚ) (segment : Segment) (distance : ℚ) : String :=
  fixed2 (float (float distance/segment.divider))++" "++segment.suffix

end Segment

/-- A label says "Error" exactly where there is no distance, and the distance otherwise; and the
next request can be started. -/
structure ViewController.Reports (float : ℚ → ℚ) (segment : Segment) (lookUps : LookUps)
    (s : ViewController) : Prop where
  error : ∀ i : Fin 3, s.label i = "Error" ↔ lookUps.distance i = none
  distance : ∀ (i : Fin 3) (d : ℚ), lookUps.distance i = some d →
    s.label i = segment.shown float d
  enabled : s.calculateButtonEnabled = true

variable {float : ℚ → ℚ} {segment : Segment} {lookUps : LookUps}

theorem labelText_number (float : ℚ → ℚ) (segment : Segment) (value : ℚ) :
    labelText float segment.index (.number value) = segment.shown float value := by
  cases segment <;> rfl

theorem shown_ne_error (float : ℚ → ℚ) (segment : Segment) (value : ℚ) :
    segment.shown float value ≠ "Error" := by
  intro h
  have hlast := congrArg (fun text : String => text.toList.getLast?) h
  cases segment <;> simp [Segment.shown,Segment.suffix] at hlast

theorem callback_answer (float : ℚ → ℚ) (segment : Segment) (lookUps : LookUps) (s : ViewController) :
    ∃ s', s.callback float segment.index ((answer lookUps 3).map .number) = .ok s' ∧
      (∀ i : Fin 3, s'.label i = segment.shown float ((lookUps.distance i).getD (-1))) ∧
      s'.calculateButtonEnabled = true := by
  refine ⟨_,rfl,?_,rfl⟩
  intro i
  match i with
  | 0 => exact labelText_number float segment _
  | 1 => exact labelText_number float segment _
  | 2 => exact labelText_number float segment _

/-- However the searches of a request complete, and whatever unit is selected then, the labels
report the failures exactly if there are none: the source and all three destinations are found. -/
theorem labels_report_iff {end1 end2 end3 : String} {completions : List Completion}
    {req : DGDistanceRequest} (float : ℚ → ℚ) (segment : Segment) (s : ViewController)
    (hrun : run (DGDistanceRequest.step lookUps) (.start [end1,end2,end3]) completions = .ok req)
    (hover : req.sourceSearch = false ∧ req.searches = []) :
    (∃ s', (req.called.foldlM (fun s responses => s.callback float segment.index
        (responses.map .number)) s.calculateButtonTapped) = .ok s' ∧
      s'.Reports float segment lookUps) ↔
      lookUps.source = true ∧ ∀ i : Fin 3, lookUps.destination i ≠ none := by
  have hcalled : req.called = [answer lookUps 3] := (called_run hrun).trans (if_pos hover)
  obtain ⟨s',hs',hlabels,henabled⟩ :=
    callback_answer float segment lookUps s.calculateButtonTapped
  have hdistance : (lookUps.source = true ∧ ∀ i : Fin 3, lookUps.destination i ≠ none) ↔
      ∀ i : Fin 3, lookUps.distance i ≠ none := by
    cases hsource : lookUps.source
    · simp [LookUps.distance,hsource]
    · simp [LookUps.distance,hsource]
  rw [hcalled,hdistance]
  simp only [List.foldlM_cons,List.foldlM_nil,hs']
  constructor
  · rintro ⟨t,ht,hreports⟩ i hnone
    obtain rfl := Except.ok.inj ht
    have herror := (hreports.error i).mpr hnone
    rw [hlabels i] at herror
    exact shown_ne_error float segment _ herror
  · intro hfound
    refine ⟨s',rfl,?_,?_,henabled⟩
    · intro i
      rw [hlabels i]
      exact iff_of_false (shown_ne_error float segment _) (hfound i)
    · intro i d hd
      rw [hlabels i,hd]
      rfl

def allFound : LookUps := ⟨true,fun idx => some (1609*(idx+1))⟩

def anyOrder : List Completion := [.source,.destination 2,.destination 0,.destination 1]

def blank : ViewController := ⟨"","","",true⟩

theorem labels_report_allFound : ∃ req,
    run (DGDistanceRequest.step allFound) (.start ["Oslo","Rome","Lima"]) anyOrder = .ok req ∧
      ∃ s', (req.called.foldlM (fun s responses => s.callback id Segment.miles.index
          (responses.map .number)) blank.calculateButtonTapped) = .ok s' ∧
        s'.Reports id .miles allFound := by
  refine ⟨_,rfl,?_⟩
  exact (labels_report_iff id .miles blank (show run (DGDistanceRequest.step allFound)
    (.start ["Oslo","Rome","Lima"]) anyOrder = .ok _ from rfl) ⟨rfl,rfl⟩).mpr
      ⟨rfl,fun _ => Option.some_ne_none _⟩

def secondMissing : LookUps := ⟨true,fun idx => if idx = 1 then none else some 500⟩

/-- The label of the missing destination shows the -1 of the answer as a distance. -/
theorem missing_shown_as_distance : ∃ req,
    run (DGDistanceRequest.step secondMissing) (.start ["Oslo","Rome","Lima"]) anyOrder = .ok req ∧
      ∃ s', (req.called.foldlM (fun s responses => s.callback id Segment.meters.index
          (responses.map .number)) blank.calculateButtonTapped) = .ok s' ∧
        s'.distance2 = "-1.00 m" ∧ ¬ s'.Reports id .meters secondMissing := by
  refine ⟨_,rfl,_,rfl,by decide +kernel,fun h => ?_⟩
  exact absurd ((h.error 1).mpr rfl) (by decide +kernel)

end DistanceMeasure
end CourseraObjC
