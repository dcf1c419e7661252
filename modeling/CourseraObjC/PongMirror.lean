import CourseraObjC.PongScene
import Mathlib.Algebra.Order.Field.Basic
import Mathlib.Algebra.Order.Ring.Rat
import Mathlib.Tactic.Linarith
import Mathlib.Tactic.NormNum

/-! Pong in a mirror. The scene is turned left to right: columns count from the other edge,
the paddles and their touches are exchanged, and the ball flies the other way. Where the
mirrored scene reacts to a mirrored touch as the mirror image of the scene does, both
players are treated alike. -/
namespace CourseraObjC
namespace PongDemo

open Touches BinaryRounding

def Paddle.other : Paddle → Paddle
  | .leftPaddle => .rightPaddle
  | .rightPaddle => .leftPaddle

def Tracking.mirror {τ K : Type*} (tracking : Tracking τ K) : Tracking τ K where
  leftPaddleMotivatingTouch := tracking.rightPaddleMotivatingTouch
  rightPaddleMotivatingTouch := tracking.leftPaddleMotivatingTouch
  actions := (tracking.actions.map fun action => (action.1.other,action.2)).reverse

section
variable {τ K : Type*} [Field K] [LinearOrder K]

def mirrorVector (v : CGVector K) : CGVector K := ⟨-v.dx,v.dy⟩

def mirrorLocation (width : K) (location : τ → CGPoint K) : τ → CGPoint K :=
  fun touch => ⟨width-(location touch).x,(location touch).y⟩

def GameScene.mirror (s : GameScene τ K) : GameScene τ K where
  frameHeight := s.frameHeight
  leftPaddleMotivatingTouch := s.rightPaddleMotivatingTouch
  rightPaddleMotivatingTouch := s.leftPaddleMotivatingTouch
  ball := mirrorVector s.ball
  trackings := s.trackings.map Tracking.mirror

variable (rounded : K →o K) (width : K) (location : τ → CGPoint K) (paddleY : Paddle → K)
  (s : GameScene τ K) (touch : τ)

theorem track_mirror :
    s.mirror.trackPaddlesNoMotivatingTouches (mirrorLocation width location) (paddleY ∘ Paddle.other) =
      (s.trackPaddlesNoMotivatingTouches location paddleY).mirror := by
  obtain ⟨frameHeight,left,right,ball,trackings⟩ := s
  simp only [GameScene.trackPaddlesNoMotivatingTouches,GameScene.mirror,List.map_append]
  cases left <;> cases right <;> rfl

/-- The left paddle takes a touch in the one scene as the right one does in the mirror, and
the other way round, and a touch that speeds up the ball does so in both. -/
structure MirrorsAt : Prop where
  left : (s.touchesBegan rounded [touch] location paddleY).leftPaddleMotivatingTouch = some touch ↔
    (s.mirror.touchesBegan rounded [touch] (mirrorLocation width location)
      (paddleY ∘ Paddle.other)).rightPaddleMotivatingTouch = some touch
  right : (s.touchesBegan rounded [touch] location paddleY).rightPaddleMotivatingTouch = some touch ↔
    (s.mirror.touchesBegan rounded [touch] (mirrorLocation width location)
      (paddleY ∘ Paddle.other)).leftPaddleMotivatingTouch = some touch
  ball : (s.touchesBegan rounded [touch] location paddleY).ball ≠ s.ball ↔
    (s.mirror.touchesBegan rounded [touch] (mirrorLocation width location)
      (paddleY ∘ Paddle.other)).ball ≠ s.mirror.ball

/-- A column is outside the strips between the borders of the zones and their mirror images. -/
def OutsideStrips (frameHeight x : K) : Prop :=
  (x < leftBorder rounded frameHeight ↔ x < width-rightBorder rounded frameHeight) ∧
    (rightBorder rounded frameHeight < x ↔ width-leftBorder rounded frameHeight < x)

variable [IsStrictOrderedRing K] {rounded width location paddleY s touch}

/-- Rounding may let the borders meet but not pass each other. -/
theorem leftBorder_le_rightBorder {height : K} (h : 0 < height) :
    leftBorder rounded height ≤ rightBorder rounded height := by
  have hliterals : rounded ((3 : ℕ)/(10 : ℕ)) ≤ rounded ((7 : ℕ)/(10 : ℕ)) :=
    rounded.monotone (by norm_num)
  exact rounded.monotone (mul_le_mul_of_nonneg_left hliterals h.le)

theorem scaled_le {height literal r p : K} (hheight : 0 ≤ height) (hr : rounded r = r)
    (hliteral : literal ≤ r) (hp : rounded p = p) (hproduct : height*r ≤ p) :
    scaled rounded height literal ≤ p := by
  have hrounded : rounded literal ≤ r := (rounded.monotone hliteral).trans_eq hr
  rw [scaled,← hp]
  exact rounded.monotone ((mul_le_mul_of_nonneg_left hrounded hheight).trans hproduct)

theorem le_scaled {height literal r p : K} (hheight : 0 ≤ height) (hr : rounded r = r)
    (hliteral : r ≤ literal) (hp : rounded p = p) (hproduct : p ≤ height*r) :
    p ≤ scaled rounded height literal := by
  have hrounded : r ≤ rounded literal := hr.symm.trans_le (rounded.monotone hliteral)
  rw [scaled,← hp]
  exact rounded.monotone (hproduct.trans (mul_le_mul_of_nonneg_left hrounded hheight))

/-- Outside the strips a touch does in the mirror what the mirror image of the scene shows. -/
theorem touchesBegan_mirror (hheight : 0 < s.frameHeight)
    (hx : OutsideStrips rounded width s.frameHeight (location touch).x) :
    s.mirror.touchesBegan rounded [touch] (mirrorLocation width location) (paddleY ∘ Paddle.other) =
      (s.touchesBegan rounded [touch] location paddleY).mirror := by
  obtain ⟨hleft,hright⟩ := hx
  show GameScene.touchBegan _ _ _ s.mirror touch = (GameScene.touchBegan _ _ _ s touch).mirror
  rw [GameScene.touchBegan,GameScene.touchBegan,← track_mirror]
  congr 1
  have hmirrorLeft :
      (mirrorLocation width location touch).x < leftBorder rounded s.mirror.frameHeight ↔
        rightBorder rounded s.frameHeight < (location touch).x := by
    rw [hright]
    exact sub_lt_comm
  have hmirrorRight :
      rightBorder rounded s.mirror.frameHeight < (mirrorLocation width location touch).x ↔
        (location touch).x < leftBorder rounded s.frameHeight := by
    rw [hleft]
    exact lt_sub_comm
  have hapart : leftBorder rounded s.frameHeight ≤ rightBorder rounded s.frameHeight :=
    leftBorder_le_rightBorder hheight
  simp only [hmirrorLeft,hmirrorRight]
  by_cases h₁ : (location touch).x < leftBorder rounded s.frameHeight
  · have h₂ : ¬ rightBorder rounded s.frameHeight < (location touch).x :=
      not_lt.mpr (h₁.le.trans hapart)
    simp only [if_pos h₁,if_neg h₂]
    rfl
  · by_cases h₂ : rightBorder rounded s.frameHeight < (location touch).x
    · simp only [if_neg h₁,if_pos h₂]
      rfl
    · simp only [if_neg h₁,if_neg h₂]
      simp [GameScene.mirror,mirrorVector]

omit [IsStrictOrderedRing K] in
theorem left_touchesBegan_iff (hleft : s.leftPaddleMotivatingTouch ≠ some touch) :
    (s.touchesBegan rounded [touch] location paddleY).leftPaddleMotivatingTouch = some touch ↔
      (location touch).x < leftBorder rounded s.frameHeight := by
  show (if _ then _ else _ : GameScene τ K).leftPaddleMotivatingTouch = _ ↔ _
  by_cases h₁ : (location touch).x < leftBorder rounded s.frameHeight
  · simp only [h₁,if_true]
  · simp only [h₁,if_false,iff_false]
    split_ifs <;> exact hleft

theorem right_touchesBegan_iff (hheight : 0 < s.frameHeight)
    (hright : s.rightPaddleMotivatingTouch ≠ some touch) :
    (s.touchesBegan rounded [touch] location paddleY).rightPaddleMotivatingTouch = some touch ↔
      rightBorder rounded s.frameHeight < (location touch).x := by
  show (if _ then _ else _ : GameScene τ K).rightPaddleMotivatingTouch = _ ↔ _
  by_cases h₁ : (location touch).x < leftBorder rounded s.frameHeight
  · have h₂ : ¬ rightBorder rounded s.frameHeight < (location touch).x :=
      not_lt.mpr (h₁.le.trans (leftBorder_le_rightBorder hheight))
    simp only [h₁,h₂,if_true,iff_false]
    exact hright
  · by_cases h₂ : rightBorder rounded s.frameHeight < (location touch).x
    · simp only [h₁,h₂,if_true,if_false]
    · simp only [h₁,h₂,if_false,iff_false]
      exact hright

omit [LinearOrder K] [IsStrictOrderedRing K] in
theorem mirror_inj {v v' : CGVector K} : mirrorVector v = mirrorVector v' ↔ v = v' := by
  obtain ⟨dx,dy⟩ := v
  obtain ⟨dx',dy'⟩ := v'
  simp [mirrorVector]

/-- A touch that neither paddle has is treated alike in the scene and in its mirror image
exactly if it begins outside the strips. -/
theorem mirrorsAt_iff (hheight : 0 < s.frameHeight)
    (hleft : s.leftPaddleMotivatingTouch ≠ some touch)
    (hright : s.rightPaddleMotivatingTouch ≠ some touch) :
    MirrorsAt rounded width location paddleY s touch ↔
      OutsideStrips rounded width s.frameHeight (location touch).x := by
  constructor
  · rintro ⟨hleftMirrors,hrightMirrors,_⟩
    rw [left_touchesBegan_iff hleft,right_touchesBegan_iff (s := s.mirror) hheight hleft]
      at hleftMirrors
    rw [right_touchesBegan_iff hheight hright,left_touchesBegan_iff (s := s.mirror) hright]
      at hrightMirrors
    exact ⟨hleftMirrors.trans lt_sub_comm,hrightMirrors.trans sub_lt_comm⟩
  · intro hx
    have hmirror : s.mirror.touchesBegan rounded [touch] (mirrorLocation width location)
        (paddleY ∘ Paddle.other) = (s.touchesBegan rounded [touch] location paddleY).mirror :=
      touchesBegan_mirror hheight hx
    constructor
    · rw [hmirror]
      rfl
    · rw [hmirror]
      rfl
    · rw [hmirror]
      exact (mirror_inj.not).symm

end

def landscape : GameScene ℕ ℚ := newScene 768 ⟨200,-10⟩

def atColumn (x : ℚ) : ℕ → CGPoint ℚ := fun _ => ⟨x,100⟩

theorem landscape_height_pos : 0 < landscape.frameHeight := by
  norm_num [landscape,newScene]

theorem double_eighths {n : ℕ} (hn : n < 2^53) : double (n/8) = n/8 := by
  have h := double_of_digits (e:=-3) hn (by norm_num)
  norm_num [div_eq_mul_inv] at h ⊢
  exact h

theorem landscape_leftBorder :
    192 ≤ leftBorder double landscape.frameHeight ∧ leftBorder double landscape.frameHeight ≤ 288 := by
  have h₂ : double (2/8) = 2/8 := double_eighths (n:=2) (by norm_num)
  have h₃ : double (3/8) = 3/8 := double_eighths (n:=3) (by norm_num)
  have h₁₉₂ := double_eighths (n:=1536) (by norm_num)
  have h₂₈₈ := double_eighths (n:=2304) (by norm_num)
  norm_num at h₁₉₂ h₂₈₈
  exact ⟨le_scaled landscape_height_pos.le h₂ (by norm_num) h₁₉₂ (by norm_num [landscape,newScene]),
    scaled_le landscape_height_pos.le h₃ (by norm_num) h₂₈₈ (by norm_num [landscape,newScene])⟩

theorem landscape_rightBorder : rightBorder double landscape.frameHeight ≤ 576 := by
  have h₆ : double (6/8) = 6/8 := double_eighths (n:=6) (by norm_num)
  have h₅₇₆ := double_eighths (n:=4608) (by norm_num)
  norm_num at h₅₇₆
  exact scaled_le landscape_height_pos.le h₆ (by norm_num) h₅₇₆ (by norm_num [landscape,newScene])

theorem mirrorsAt_edge : MirrorsAt double 1024 (atColumn 100) (fun _ => 0) landscape 7 := by
  refine (mirrorsAt_iff landscape_height_pos (by decide) (by decide)).mpr ?_
  have hleft := landscape_leftBorder
  have hright := landscape_rightBorder
  have hapart : leftBorder double landscape.frameHeight ≤ rightBorder double landscape.frameHeight :=
    leftBorder_le_rightBorder landscape_height_pos
  show ((100 : ℚ) < _ ↔ (100 : ℚ) < _) ∧ (_ < (100 : ℚ) ↔ _ < (100 : ℚ))
  exact ⟨iff_of_true (by linarith) (by linarith),iff_of_false (by linarith) (by linarith)⟩

/-- Left of the middle it speeds up the ball, and its mirror image takes the right paddle. -/
theorem not_mirrorsAt_inside : ¬ MirrorsAt double 1024 (atColumn 300) (fun _ => 0) landscape 7 := by
  rintro ⟨hleft,_,_⟩
  rw [left_touchesBegan_iff (by decide),
    right_touchesBegan_iff (s := landscape.mirror) landscape_height_pos (by decide)] at hleft
  have hmirror : rightBorder double landscape.mirror.frameHeight < (1024 : ℚ)-300 :=
    landscape_rightBorder.trans_lt (by norm_num)
  have hinside : (300 : ℚ) < leftBorder double landscape.frameHeight := hleft.mpr hmirror
  linarith [landscape_leftBorder.2]

end PongDemo
end CourseraObjC
