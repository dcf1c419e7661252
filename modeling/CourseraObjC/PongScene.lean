import CourseraObjC.BinaryRounding
import CourseraObjC.Touches
import Mathlib.Algebra.Field.Rat
import Mathlib.Algebra.Order.Group.Unbundled.Abs
import Mathlib.Algebra.Order.Ring.Unbundled.Rat

/-! Pong's two paddles. A touch that begins near the left edge is kept for the left paddle,
one near the right edge for the right paddle, and one between them speeds up the ball; both
paddles then move to where their touches are. -/
namespace CourseraObjC
namespace PongDemo

open Runs Touches BinaryRounding

inductive Paddle
  | leftPaddle | rightPaddle
  deriving DecidableEq

structure MoveToY (K : Type*) where
  y : K
  duration : K

/-- One call of `trackPaddlesNoMotivatingTouches`: the touches of the paddles, and the
actions it ran on them. -/
structure Tracking (τ K : Type*) where
  leftPaddleMotivatingTouch : Option τ
  rightPaddleMotivatingTouch : Option τ
  actions : List (Paddle × MoveToY K)

/-- `ball` is the ball's velocity, `trackings` are all calls so far. -/
structure GameScene (τ K : Type*) where
  frameHeight : K
  leftPaddleMotivatingTouch : Option τ
  rightPaddleMotivatingTouch : Option τ
  ball : CGVector K
  trackings : List (Tracking τ K)

structure Event (τ K : Type*) where
  touch : TouchEvent τ (CGPoint K)
  paddleY : Paddle → K
  ball : CGVector K

def Tracking.touch {τ K : Type*} (tracking : Tracking τ K) : Paddle → Option τ
  | .leftPaddle => tracking.leftPaddleMotivatingTouch
  | .rightPaddle => tracking.rightPaddleMotivatingTouch

section
variable {τ K : Type*} [Field K] [LinearOrder K]

def kTrackPixelsPerSecond : K := (1000 : ℕ)

/- How the machine rounds a number. -/
variable (rounded : K →o K)

/-- A product with a literal: both the literal and the product are rounded. -/
def scaled (height literal : K) : K := rounded (height*rounded literal)

/-- `self.frame.size.height * 0.3` -/
def leftBorder (height : K) : K := scaled rounded height ((3 : ℕ)/(10 : ℕ))

/-- `self.frame.size.height * 0.7` -/
def rightBorder (height : K) : K := scaled rounded height ((7 : ℕ)/(10 : ℕ))

namespace GameScene

def touch (s : GameScene τ K) : Paddle → Option τ
  | .leftPaddle => s.leftPaddleMotivatingTouch
  | .rightPaddle => s.rightPaddleMotivatingTouch

def trackPaddle (location : τ → CGPoint K) (paddleY : Paddle → K) :
    Paddle × Option τ → Option (Paddle × MoveToY K)
  | (_,none) => none
  | (node,some touch) =>
    let yPos := (location touch).y
    let duration := |yPos-paddleY node|/kTrackPixelsPerSecond
    some (node,⟨yPos,duration⟩)

def trackPaddlesNoMotivatingTouches (location : τ → CGPoint K) (paddleY : Paddle → K)
    (s : GameScene τ K) : GameScene τ K :=
  let a := [(Paddle.leftPaddle,s.leftPaddleMotivatingTouch),
    (Paddle.rightPaddle,s.rightPaddleMotivatingTouch)]
  let actions := a.filterMap (trackPaddle location paddleY)
  let tracking := ⟨s.leftPaddleMotivatingTouch,s.rightPaddleMotivatingTouch,actions⟩
  { s with trackings := s.trackings++[tracking] }

/-- The body of the loop over the touches. -/
def touchBegan (location : τ → CGPoint K) (paddleY : Paddle → K) (s : GameScene τ K) (touch : τ) :
    GameScene τ K :=
  let p := location touch
  let s :=
    if p.x < leftBorder rounded s.frameHeight then
      { s with leftPaddleMotivatingTouch := some touch }
    else if rightBorder rounded s.frameHeight < p.x then
      { s with rightPaddleMotivatingTouch := some touch }
    else { s with ball := ⟨s.ball.dx*(2 : ℕ),s.ball.dy⟩ }
  s.trackPaddlesNoMotivatingTouches location paddleY

def touchesBegan (touches : List τ) (location : τ → CGPoint K) (paddleY : Paddle → K)
    (s : GameScene τ K) : GameScene τ K :=
  touches.foldl (touchBegan rounded location paddleY) s

def touchesMoved (location : τ → CGPoint K) (paddleY : Paddle → K) (s : GameScene τ K) :
    GameScene τ K :=
  s.trackPaddlesNoMotivatingTouches location paddleY

def clearTouches [DecidableEq τ] (touches : List τ) (s : GameScene τ K) : GameScene τ K :=
  let s :=
    if containsObject touches s.leftPaddleMotivatingTouch then
      { s with leftPaddleMotivatingTouch := none }
    else s
  if containsObject touches s.rightPaddleMotivatingTouch then
    { s with rightPaddleMotivatingTouch := none }
  else s

def handle [DecidableEq τ] (screen : Screen τ (CGPoint K)) (e : Event τ K) (s : GameScene τ K) :
    GameScene τ K :=
  let s := { s with ball := e.ball }
  match e.touch with
  | .began touches => s.touchesBegan rounded (touches.map Prod.fst) screen.location e.paddleY
  | .moved _ => s.touchesMoved screen.location e.paddleY
  | .ended touches => s.clearTouches (touches.map Prod.fst)
  | .cancelled touches => s.clearTouches (touches.map Prod.fst)

end GameScene

def newScene (frameHeight : K) (ball : CGVector K) : GameScene τ K := ⟨frameHeight,none,none,ball,[]⟩

def Paddle.Zone (frameHeight : K) : Paddle → CGPoint K → Prop
  | .leftPaddle, p => p.x < leftBorder rounded frameHeight
  | .rightPaddle, p =>
    ¬ p.x < leftBorder rounded frameHeight ∧ rightBorder rounded frameHeight < p.x

/-- A paddle with a touch is moved once, to where its touch is now, a paddle without one is
not moved; and the touch is down and began in the paddle's zone. -/
def Tracking.Good (frameHeight : K) (screen : Screen τ (CGPoint K)) (tracking : Tracking τ K) :
    Prop :=
  ∀ paddle : Paddle, Holds (paddle.Zone rounded frameHeight) screen (tracking.touch paddle) ∧
    ((tracking.actions.filter fun action => action.1 = paddle).map fun action => action.2.y) =
      (tracking.touch paddle).toList.map fun touch => (screen.location touch).y

def GameScene.OwnTouches (frameHeight : K) (screen : Screen τ (CGPoint K)) (s : GameScene τ K) :
    Prop :=
  s.frameHeight = frameHeight ∧ ∀ paddle, Holds (paddle.Zone rounded frameHeight) screen (s.touch paddle)

variable {frameHeight : K} {screen screen' : Screen τ (CGPoint K)} {s t : GameScene τ K}
  {paddleY : Paddle → K} {ball : CGVector K}

/-! ### Handlers -/

/-- What a handler does: it leaves every paddle with a touch of its own, and tracks
paddles with touches of their own only. -/
structure Keeps (frameHeight : K) (screen : Screen τ (CGPoint K)) (s t : GameScene τ K) : Prop where
  own : t.OwnTouches rounded frameHeight screen
  tracks : ∃ new, t.trackings = s.trackings++new ∧
    ∀ tracking ∈ new, tracking.Good rounded frameHeight screen

variable {rounded}

/-- The zones do not meet, so no touch is kept for both paddles. -/
theorem touches_distinct (h : s.OwnTouches rounded frameHeight screen) (touch : τ)
    (hleft : s.leftPaddleMotivatingTouch = some touch) :
    s.rightPaddleMotivatingTouch ≠ some touch := by
  intro hright
  obtain ⟨_,p,hp,hzone⟩ := h.2 .leftPaddle touch hleft
  obtain ⟨_,q,hq,hzone'⟩ := h.2 .rightPaddle touch hright
  obtain rfl := Screen.begun_unique hp hq
  exact hzone'.1 hzone

theorem Keeps.trans {u : GameScene τ K} (h : Keeps rounded frameHeight screen s t)
    (h' : Keeps rounded frameHeight screen t u) : Keeps rounded frameHeight screen s u := by
  obtain ⟨new,hnew,hgood⟩ := h.tracks
  obtain ⟨new',hnew',hgood'⟩ := h'.tracks
  refine ⟨h'.own,new++new',by rw [hnew',hnew,List.append_assoc],?_⟩
  intro tracking htracking
  rcases List.mem_append.mp htracking with hmem | hmem
  · exact hgood tracking hmem
  · exact hgood' tracking hmem

theorem keeps_of_trackings_eq (h : t.OwnTouches rounded frameHeight screen)
    (htrackings : t.trackings = s.trackings) : Keeps rounded frameHeight screen s t :=
  ⟨h,[],by rw [htrackings,List.append_nil],by simp⟩

theorem keeps_track (h : s.OwnTouches rounded frameHeight screen) :
    Keeps rounded frameHeight screen s (s.trackPaddlesNoMotivatingTouches screen.location paddleY) := by
  refine ⟨h,_,rfl,?_⟩
  intro tracking htracking
  obtain rfl := List.mem_singleton.mp htracking
  intro paddle
  refine ⟨h.2 paddle,?_⟩
  cases hleft : s.leftPaddleMotivatingTouch <;> cases hright : s.rightPaddleMotivatingTouch <;>
    cases paddle <;> simp only [Tracking.touch] <;> rfl

theorem keeps_touchBegan {e : TouchEvent τ (CGPoint K)} [DecidableEq τ] {touch : τ}
    {p : CGPoint K} (hreport : screen.report e = .ok screen') (htouch : (touch,p) ∈ e.begins)
    (h : s.OwnTouches rounded frameHeight screen') :
    Keeps rounded frameHeight screen' s (s.touchBegan rounded screen'.location paddleY touch) := by
  have hlocation := Screen.location_of_begins hreport htouch
  have hkeeps (u : GameScene τ K) (htrackings : u.trackings = s.trackings)
      (hu : u.OwnTouches rounded frameHeight screen') :
      Keeps rounded frameHeight screen' s (u.trackPaddlesNoMotivatingTouches screen'.location paddleY) :=
    (keeps_of_trackings_eq hu htrackings).trans (keeps_track hu)
  obtain ⟨rfl,hown⟩ := h
  rw [GameScene.touchBegan,hlocation]
  apply hkeeps
  · split_ifs <;> rfl
  · split_ifs with hleft hright
    · refine ⟨rfl,fun paddle => ?_⟩
      cases paddle with
      | leftPaddle => exact holds_of_begins hreport htouch hleft
      | rightPaddle => exact hown .rightPaddle
    · refine ⟨rfl,fun paddle => ?_⟩
      cases paddle with
      | leftPaddle => exact hown .leftPaddle
      | rightPaddle => exact holds_of_begins hreport htouch ⟨hleft,hright⟩
    · exact ⟨rfl,hown⟩

theorem keeps_touchesBegan {e : TouchEvent τ (CGPoint K)} [DecidableEq τ]
    {touches : List (τ × CGPoint K)} (hreport : screen.report e = .ok screen')
    (htouches : touches ⊆ e.begins) (h : s.OwnTouches rounded frameHeight screen') :
    Keeps rounded frameHeight screen' s
      (s.touchesBegan rounded (touches.map Prod.fst) screen'.location paddleY) := by
  induction touches generalizing s with
  | nil => exact keeps_of_trackings_eq h rfl
  | cons x touches ih =>
    obtain ⟨hx,htouches⟩ := List.cons_subset.mp htouches
    have hfirst : Keeps rounded frameHeight screen' s (s.touchBegan rounded screen'.location paddleY x.1) :=
      keeps_touchBegan hreport hx h
    exact hfirst.trans (ih htouches hfirst.own)

variable [DecidableEq τ]

omit [Field K] [LinearOrder K] in
theorem clearTouches_eq (touches : List τ) (s : GameScene τ K) :
    s.clearTouches touches =
      { s with
        leftPaddleMotivatingTouch :=
          if containsObject touches s.leftPaddleMotivatingTouch then none
          else s.leftPaddleMotivatingTouch
        rightPaddleMotivatingTouch :=
          if containsObject touches s.rightPaddleMotivatingTouch then none
          else s.rightPaddleMotivatingTouch } := by
  unfold GameScene.clearTouches
  by_cases hleft : containsObject touches s.leftPaddleMotivatingTouch = true
  · by_cases hright : containsObject touches s.rightPaddleMotivatingTouch = true
    · simp only [if_pos hleft,if_pos hright]
    · simp only [if_pos hleft,if_neg hright]
  · by_cases hright : containsObject touches s.rightPaddleMotivatingTouch = true
    · simp only [if_neg hleft,if_pos hright]
    · simp only [if_neg hleft,if_neg hright]

theorem keeps_clearTouches {touch : TouchEvent τ (CGPoint K)}
    (hreport : screen.report touch = .ok screen') (h : s.OwnTouches rounded frameHeight screen) :
    Keeps rounded frameHeight screen' s (s.clearTouches touch.lifts) := by
  rw [clearTouches_eq]
  refine keeps_of_trackings_eq ⟨h.1,fun paddle => ?_⟩ rfl
  cases paddle with
  | leftPaddle => exact (h.2 .leftPaddle).clear hreport
  | rightPaddle => exact (h.2 .rightPaddle).clear hreport

theorem ownTouches_report {touch : TouchEvent τ (CGPoint K)}
    (hreport : screen.report touch = .ok screen') (hlifts : touch.lifts = [])
    (h : s.OwnTouches rounded frameHeight screen) : s.OwnTouches rounded frameHeight screen' := by
  refine ⟨h.1,fun paddle => (h.2 paddle).report hreport fun t _ => ?_⟩
  rw [hlifts]
  exact List.not_mem_nil

theorem keeps_handle {e : Event τ K} (hreport : screen.report e.touch = .ok screen')
    (h : s.OwnTouches rounded frameHeight screen) :
    Keeps rounded frameHeight screen' s (s.handle rounded screen' e) := by
  obtain ⟨touch,paddleY,ball⟩ := e
  have hs : ({ s with ball := ball } : GameScene τ K).OwnTouches rounded frameHeight screen := h
  suffices hkeeps : Keeps rounded frameHeight screen' ({ s with ball := ball } : GameScene τ K)
      (s.handle rounded screen' ⟨touch,paddleY,ball⟩) from ⟨hkeeps.own,hkeeps.tracks⟩
  cases touch with
  | began touches =>
    exact keeps_touchesBegan hreport (List.Subset.refl _) (ownTouches_report hreport rfl hs)
  | moved touches => exact keeps_track (ownTouches_report hreport rfl hs)
  | ended touches => exact keeps_clearTouches hreport hs
  | cancelled touches => exact keeps_clearTouches hreport hs

/-! ### Runs -/

/-- In every state reached each paddle's touch is nil or down and one that began in the
paddle's zone, the two are not the same, and the next event moves paddles to where touches
of their own are then, and no paddle without a touch. -/
theorem paddles_follow_own_touches {location : τ → CGPoint K} {es : List (Event τ K)}
    {x : Screen τ (CGPoint K) × GameScene τ K}
    (hrun : run (step Event.touch (GameScene.handle rounded)) (.empty location,newScene frameHeight ball) es =
      .ok x) :
    (∀ paddle, Holds (paddle.Zone rounded frameHeight) x.1 (x.2.touch paddle)) ∧
      (∀ touch, x.2.leftPaddleMotivatingTouch = some touch →
        x.2.rightPaddleMotivatingTouch ≠ some touch) ∧
      ∀ e y, step Event.touch (GameScene.handle rounded) x e = .ok y →
        ∃ new, y.2.trackings = x.2.trackings++new ∧
          ∀ tracking ∈ new, tracking.Good rounded frameHeight y.1 := by
  have hstart : (newScene frameHeight ball : GameScene τ K).OwnTouches rounded frameHeight
      (.empty location) := by
    refine ⟨rfl,fun paddle => ?_⟩
    cases paddle <;> exact holds_none
  have hstep : ∀ (e : Event τ K) (x y : Screen τ (CGPoint K) × GameScene τ K),
      x.2.OwnTouches rounded frameHeight x.1 → step Event.touch (GameScene.handle rounded) x e = .ok y →
        Keeps rounded frameHeight y.1 x.2 y.2 := by
    intro e x y hx h
    obtain ⟨hreport,hscene⟩ := step_eq_ok.mp h
    rw [hscene]
    exact keeps_handle hreport hx
  have hx : x.2.OwnTouches rounded frameHeight x.1 :=
    run_invariant (I := fun x : Screen τ (CGPoint K) × GameScene τ K =>
      x.2.OwnTouches rounded frameHeight x.1) (fun e x y hx h => (hstep e x y hx h).own) hstart hrun
  exact ⟨hx.2,touches_distinct hx,fun e y h => (hstep e x y hx h).tracks⟩

end

/-- A finger on each side, both moved, the left one lifted while the right one stays. -/
def bothSides : List (Event ℕ ℚ) :=
  [⟨.began [(0,⟨10,50⟩),(1,⟨90,20⟩)],fun _ => 50,⟨20,1⟩⟩,⟨.moved [(1,⟨60,80⟩)],fun _ => 50,⟨20,1⟩⟩,
    ⟨.ended [(0,⟨10,50⟩)],fun _ => 60,⟨-20,1⟩⟩]

def nowhere : ℕ → CGPoint ℚ := fun _ => ⟨0,0⟩

theorem paddles_follow_bothSides : ∃ x : Screen ℕ (CGPoint ℚ) × GameScene ℕ ℚ,
    run (step Event.touch (GameScene.handle double)) (.empty nowhere,newScene 100 ⟨20,1⟩) bothSides = .ok x ∧
      (∀ paddle, Holds (paddle.Zone double 100) x.1 (x.2.touch paddle)) ∧
      (∀ touch, x.2.leftPaddleMotivatingTouch = some touch →
        x.2.rightPaddleMotivatingTouch ≠ some touch) ∧
      ∀ e y, step Event.touch (GameScene.handle double) x e = .ok y →
        ∃ new, y.2.trackings = x.2.trackings++new ∧ ∀ tracking ∈ new, tracking.Good double 100 y.1 := by
  refine ⟨_,rfl,?_⟩
  exact paddles_follow_own_touches (show run (step Event.touch (GameScene.handle double))
    (.empty nowhere,newScene 100 ⟨20,1⟩) bothSides = .ok _ from rfl)

end PongDemo
end CourseraObjC
