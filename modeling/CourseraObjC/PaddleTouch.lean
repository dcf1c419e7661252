import CourseraObjC.Touches
import Mathlib.Algebra.Field.Rat
import Mathlib.Algebra.Order.Group.Unbundled.Abs
import Mathlib.Algebra.Order.Ring.Unbundled.Rat

/-! Breakout's paddle. The scene remembers one touch, the last that began inside it, and
moves the paddle to where that touch is; when that touch is lifted it remembers none. -/
namespace CourseraObjC
namespace BreakoutDemo
namespace PaddleTouch

open Runs Touches

structure MoveToX (K : Type*) where
  x : K
  duration : K

/-- `moves` are the actions run on the paddle. -/
structure GameScene (τ K : Type*) where
  width : K
  height : K
  motivatingTouch : Option τ
  moves : List (MoveToX K)

structure Event (τ K : Type*) where
  touch : TouchEvent τ (CGPoint K)
  paddleX : K

section
variable {τ K : Type*} [Field K] [LinearOrder K]

def kTrackPointsPerSecond : K := 1000

namespace GameScene

def trackPaddlesToMotivatingTouches (screen : Screen τ (CGPoint K)) (paddleX : K)
    (s : GameScene τ K) : GameScene τ K :=
  match s.motivatingTouch with
  | none => s
  | some touch =>
    let xPos := (screen.location touch).x
    let duration := |xPos-paddleX|/kTrackPointsPerSecond
    { s with moves := s.moves++[⟨xPos,duration⟩] }

def region (s : GameScene τ K) : CGRect K := ⟨0,0,s.width,s.height⟩

def touchesBegan (touches : List τ) (screen : Screen τ (CGPoint K)) (paddleX : K)
    (s : GameScene τ K) : GameScene τ K :=
  let region := s.region
  let s := touches.foldl
    (fun s touch =>
      let p := screen.location touch
      if CGRectContainsPoint region p then { s with motivatingTouch := some touch } else s) s
  s.trackPaddlesToMotivatingTouches screen paddleX

def touchesMoved (screen : Screen τ (CGPoint K)) (paddleX : K) (s : GameScene τ K) :
    GameScene τ K :=
  s.trackPaddlesToMotivatingTouches screen paddleX

def touchesEnded [DecidableEq τ] (touches : List τ) (s : GameScene τ K) : GameScene τ K :=
  if containsObject touches s.motivatingTouch then { s with motivatingTouch := none } else s

def touchesCancelled [DecidableEq τ] (touches : List τ) (s : GameScene τ K) : GameScene τ K :=
  if containsObject touches s.motivatingTouch then { s with motivatingTouch := none } else s

def handle [DecidableEq τ] (screen : Screen τ (CGPoint K)) (e : Event τ K) (s : GameScene τ K) :
    GameScene τ K :=
  match e.touch with
  | .began touches => s.touchesBegan (touches.map Prod.fst) screen e.paddleX
  | .moved _ => s.touchesMoved screen e.paddleX
  | .ended touches => s.touchesEnded (touches.map Prod.fst)
  | .cancelled touches => s.touchesCancelled (touches.map Prod.fst)

end GameScene

def newScene (width height : K) : GameScene τ K := ⟨width,height,none,[]⟩

def Inside (width height : K) (p : CGPoint K) : Prop :=
  CGRectContainsPoint ⟨0,0,width,height⟩ p = true

instance (width height : K) : DecidablePred (Inside width height) :=
  fun _ => inferInstanceAs (Decidable (_ = true))

variable {width height : K} {screen screen' : Screen τ (CGPoint K)} {s t : GameScene τ K}

/-! ### Handlers -/

theorem track_eq (screen : Screen τ (CGPoint K)) (paddleX : K) (s : GameScene τ K) :
    ∃ moves, s.trackPaddlesToMotivatingTouches screen paddleX = { s with moves := moves } := by
  unfold GameScene.trackPaddlesToMotivatingTouches
  split
  · exact ⟨s.moves,rfl⟩
  · exact ⟨_,rfl⟩

theorem foldl_keep_eq (touches : List (τ × CGPoint K))
    (hlocation : ∀ x ∈ touches, screen.location x.1 = x.2) (region : CGRect K) (s : GameScene τ K) :
    (touches.map Prod.fst).foldl
        (fun s touch =>
          let p := screen.location touch
          if CGRectContainsPoint region p then { s with motivatingTouch := some touch } else s) s =
      { s with
        motivatingTouch := touches.foldl
          (fun slot x => if CGRectContainsPoint region x.2 then some x.1 else slot)
          s.motivatingTouch } := by
  refine (foldl_fill (fun (s : GameScene τ K) slot => { s with motivatingTouch := slot })
    GameScene.motivatingTouch (fun _ _ _ => rfl) (fun _ _ => rfl) (fun _ => rfl)
    (fun touch => CGRectContainsPoint region (screen.location touch) = true)
    (touches.map Prod.fst) s).trans ?_
  rw [List.foldl_map]
  congr 1
  apply List.foldl_ext
  intro slot x hx
  rw [hlocation x hx]

variable [DecidableEq τ]

omit [Field K] [LinearOrder K] in
theorem touchesEnded_eq (touches : List τ) (s : GameScene τ K) :
    s.touchesEnded touches =
      { s with
        motivatingTouch :=
          if containsObject touches s.motivatingTouch then none else s.motivatingTouch } := by
  unfold GameScene.touchesEnded
  by_cases hlifted : containsObject touches s.motivatingTouch = true
  · simp only [if_pos hlifted]
  · simp only [if_neg hlifted]

/-- What an event does to the remembered touch: a lifted one is forgotten, one that begins
inside replaces it. -/
theorem handle_spec {e : Event τ K} (h : screen.report e.touch = .ok screen') :
    ∃ moves, s.handle screen' e =
      { s with
        motivatingTouch :=
          if containsObject e.touch.lifts s.motivatingTouch then none
          else (latest (Inside s.width s.height) e.touch.begins).or s.motivatingTouch
        moves := moves } := by
  obtain ⟨touch,paddleX⟩ := e
  cases touch with
  | began touches =>
    have hlocation : ∀ x ∈ touches, screen'.location x.1 = x.2 :=
      fun x hx => Screen.location_of_begins h hx
    obtain ⟨moves,hmoves⟩ := track_eq screen' paddleX
      { s with
        motivatingTouch := touches.foldl
          (fun slot x => if Inside s.width s.height x.2 then some x.1 else slot)
          s.motivatingTouch }
    refine ⟨moves,?_⟩
    have hkeep := foldl_keep_eq touches hlocation s.region s
    simp only [GameScene.handle,GameScene.touchesBegan,hkeep]
    refine hmoves.trans ?_
    rw [foldl_keep]
    simp [TouchEvent.lifts,TouchEvent.begins]
  | moved touches =>
    obtain ⟨moves,hmoves⟩ := track_eq screen' paddleX s
    exact ⟨moves,hmoves.trans (by simp [TouchEvent.lifts,TouchEvent.begins,latest])⟩
  | ended touches => exact ⟨s.moves,touchesEnded_eq _ s⟩
  | cancelled touches => exact ⟨s.moves,touchesEnded_eq _ s⟩

/-! ### Runs -/

/-- The scene remembers the last touch that began inside it, while that touch is down. -/
structure Remembers (width height : K) (x : Screen τ (CGPoint K) × GameScene τ K) : Prop where
  size : x.2.width = width ∧ x.2.height = height
  touch : x.2.motivatingTouch =
    (latest (Inside width height) x.1.begun).filter fun t => x.1.IsDown t

theorem remembers_step {x y : Screen τ (CGPoint K) × GameScene τ K} (e : Event τ K)
    (hx : Remembers width height x) (h : step Event.touch GameScene.handle x e = .ok y) :
    Remembers width height y := by
  obtain ⟨hscreen,hscene⟩ := step_eq_ok.mp h
  obtain ⟨moves,hmoves⟩ := handle_spec (s := x.2) hscreen
  rw [hmoves] at hscene
  obtain ⟨⟨hwidth,hheight⟩,htouch⟩ := hx
  refine ⟨by rw [hscene]; exact ⟨hwidth,hheight⟩,?_⟩
  rw [hscene,latest_isDown_report hscreen,← htouch]
  simp only [hwidth,hheight]

/-- After every run the remembered touch is the last that began inside the scene if that
touch is still down, and there is none otherwise. -/
theorem remembers_run {location : τ → CGPoint K} {es : List (Event τ K)}
    {x : Screen τ (CGPoint K) × GameScene τ K}
    (hrun : run (step Event.touch GameScene.handle) (.empty location,newScene width height) es = .ok x) :
    x.2.motivatingTouch =
      (latest (Inside width height) x.1.begun).filter fun t => x.1.IsDown t := by
  have hstart : Remembers width height (Screen.empty location,newScene width height) :=
    ⟨⟨rfl,rfl⟩,rfl⟩
  exact (run_invariant (fun e _ _ => remembers_step e) hstart hrun).touch

end

def twoFingers : List (Event ℕ ℚ) :=
  [⟨.began [(0,⟨10,10⟩)],50⟩,⟨.began [(1,⟨80,10⟩)],10⟩,⟨.ended [(1,⟨80,10⟩)],80⟩]

def nowhere : ℕ → CGPoint ℚ := fun _ => ⟨0,0⟩

theorem remembers_twoFingers : ∃ x,
    run (step Event.touch GameScene.handle) (.empty nowhere,newScene 100 100) twoFingers = .ok x ∧
      x.2.motivatingTouch =
        (latest (Inside 100 100) x.1.begun).filter fun t => x.1.IsDown t := by
  refine ⟨_,rfl,?_⟩
  exact remembers_run (show run (step Event.touch GameScene.handle)
    (.empty nowhere,newScene 100 100) twoFingers = .ok _ from rfl)

/-- The first finger is still down, and the latest of those that are, but forgotten. -/
theorem first_finger_forgotten : ∃ x,
    run (step Event.touch GameScene.handle) (.empty nowhere,newScene 100 100) twoFingers = .ok x ∧
      latest (Inside 100 100) (x.1.begun.filter fun y => x.1.IsDown y.1) = some 0 ∧
      x.2.motivatingTouch = none := by
  refine ⟨_,rfl,?_,?_⟩
  · decide +kernel
  · decide +kernel

end PaddleTouch
end BreakoutDemo
end CourseraObjC
