import CourseraObjC.Touches
import Mathlib.Algebra.Field.Rat
import Mathlib.Algebra.Order.Ring.Unbundled.Rat

/-! A scene of balls. Two balls are there from the start, and each tap adds a football
where the finger was lifted. The footballs are counted, but their number does not get into
their names. -/
namespace CourseraObjC
namespace SpriteContainerAssignment

open Runs Touches

def category_fence : UInt32 := (0x1 : UInt32) <<< 3
def category_football : UInt32 := (0x1 : UInt32) <<< 2
def category_ball : UInt32 := (0x1 : UInt32) <<< 1

inductive BallType
  | ball | football

structure SKSpriteNode (K : Type*) where
  imageNamed : String
  name : String
  position : CGPoint K
  velocity : CGVector K
  categoryBitMask : UInt32
  contactTestBitMask : UInt32
  collisionBitMask : UInt32

structure GameScene (τ K : Type*) where
  width : K
  height : K
  motivatingTouch : Option τ
  ballsNumber : Int64
  children : List (SKSpriteNode K)

/-- The string with a number at its end; the string itself does not change. -/
def stringByAppendingFormat (string : String) (number : Int64) : String :=
  string++toString number.toInt

def createBall {K : Type*} (x y : K) (velocity : CGVector K) (balltype : BallType)
    (ballName : String) : SKSpriteNode K :=
  let (ballFilename,contactCategory,contactTestCategory) :=
    match balltype with
    | .ball => ("ball.png",category_ball,category_football)
    | .football => ("football.png",category_football,category_ball)
  { imageNamed := ballFilename
    name := ballName
    position := ⟨x,y⟩
    velocity := velocity
    categoryBitMask := contactCategory
    contactTestBitMask := contactTestCategory ||| category_fence
    collisionBitMask := category_ball ||| category_football ||| category_fence }

section
variable {τ K : Type*} [Field K] [LinearOrder K]

namespace GameScene

def didMoveToView (s : GameScene τ K) : GameScene τ K :=
  let ball1 := createBall ((100 : ℕ) : K) (s.height/(2 : ℕ)) ⟨(200 : ℕ),(200 : ℕ)⟩ .ball "Ball1"
  let ball2 := createBall ((300 : ℕ) : K) (s.height/(2 : ℕ)) ⟨0,0⟩ .ball "Ball2"
  { s with children := s.children++[ball1]++[ball2] }

/-- Everything of the scene, its origin in the middle. -/
def region (s : GameScene τ K) : CGRect K :=
  ⟨-s.width/(2 : ℕ),-s.height/(2 : ℕ),s.width,s.height⟩

def touchesBegan (touches : List τ) (location : τ → CGPoint K) (s : GameScene τ K) :
    GameScene τ K :=
  let region := s.region
  touches.foldl
    (fun s touch =>
      let p := location touch
      if CGRectContainsPoint region p then { s with motivatingTouch := some touch } else s) s

/-- The number at the end of the name is computed and thrown away. -/
def processTouch (location : τ → CGPoint K) (s : GameScene τ K) : GameScene τ K :=
  let location := (s.motivatingTouch.map location).getD ⟨0,0⟩
  let ballName := "Football"
  let _ := stringByAppendingFormat ballName s.ballsNumber
  let s := { s with ballsNumber := s.ballsNumber+1 }
  let ball := createBall location.x location.y ⟨(200 : ℕ),(200 : ℕ)⟩ .football ballName
  { s with children := s.children++[ball] }

def touchesEnded [DecidableEq τ] (touches : List τ) (location : τ → CGPoint K)
    (s : GameScene τ K) : GameScene τ K :=
  if containsObject touches s.motivatingTouch then
    let s := s.processTouch location
    { s with motivatingTouch := none }
  else s

def handle [DecidableEq τ] (screen : Screen τ (CGPoint K)) (e : TouchEvent τ (CGPoint K))
    (s : GameScene τ K) : GameScene τ K :=
  match e with
  | .began touches => s.touchesBegan (touches.map Prod.fst) screen.location
  | .moved _ => s
  | .ended touches => s.touchesEnded (touches.map Prod.fst) screen.location
  | .cancelled _ => s

def childNodeWithName (s : GameScene τ K) (name : String) : Option ℕ :=
  s.children.findIdx? fun node => node.name == name

def endsTap [DecidableEq τ] (s : GameScene τ K) : TouchEvent τ (CGPoint K) → Bool
  | .ended touches => containsObject (touches.map Prod.fst) s.motivatingTouch
  | _ => false

end GameScene

def newScene (width height : K) : GameScene τ K := GameScene.didMoveToView ⟨width,height,none,0,[]⟩

def taps [DecidableEq τ] (x : Screen τ (CGPoint K) × GameScene τ K)
    (es : List (TouchEvent τ (CGPoint K))) : ℕ :=
  countAlong (step id GameScene.handle) (fun x e => x.2.endsTap e) x es

/-- After `k` taps there are `k` footballs beside the two balls, the scene has counted them,
and each ball is found by its name. -/
structure GameScene.NamesBalls (k : ℕ) (start s : GameScene τ K) : Prop where
  footballs : ∃ footballs, s.children = start.children++footballs ∧ footballs.length = k ∧
    ∀ node ∈ footballs, node.categoryBitMask = category_football
  ballsNumber : s.ballsNumber.toInt = k
  names : (s.children.map SKSpriteNode.name).Nodup
  found : ∀ i node, s.children[i]? = some node → s.childNodeWithName node.name = some i

structure GameScene.Counts (start : GameScene τ K) (k : ℕ) (s : GameScene τ K) : Prop where
  footballs : ∃ footballs, s.children = start.children++footballs ∧ footballs.length = k ∧
    ∀ node ∈ footballs, node.categoryBitMask = category_football ∧ node.name = "Football"
  ballsNumber : s.ballsNumber = Int64.ofNat k

variable {width height : K} {screen : Screen τ (CGPoint K)} {s t start : GameScene τ K} {k : ℕ}

/-! ### Names -/

omit [Field K] [LinearOrder K] in
theorem childNodeWithName_of_nodup (hnames : (s.children.map SKSpriteNode.name).Nodup) (i : ℕ)
    (node : SKSpriteNode K) (hnode : s.children[i]? = some node) :
    s.childNodeWithName node.name = some i := by
  obtain ⟨hi,rfl⟩ := List.getElem?_eq_some_iff.mp hnode
  refine List.findIdx?_eq_some_iff_getElem.mpr ⟨hi,by simp,fun j hji heq => ?_⟩
  have hne := List.pairwise_iff_getElem.mp hnames j i (by simp; omega) (by simpa using hi) hji
  simp only [List.getElem_map] at hne
  exact hne (by simpa using heq)

omit [LinearOrder K] in
/-- After the first tap and before the second all is as it should be; from the second on two
footballs have one name. -/
theorem names_nodup_iff (h : (newScene width height : GameScene τ K).Counts k s) :
    (s.children.map SKSpriteNode.name).Nodup ↔ k ≤ 1 := by
  obtain ⟨footballs,hchildren,rfl,hnamed⟩ := h.footballs
  have hnames : s.children.map SKSpriteNode.name =
      ["Ball1","Ball2"]++List.replicate footballs.length "Football" := by
    rw [hchildren,List.map_append,List.eq_replicate_of_mem (l := footballs.map _) (a := "Football")]
    · simp
      rfl
    · simpa using fun node hnode => (hnamed node hnode).2
  rw [hnames]
  constructor
  · intro hnodup
    exact List.nodup_replicate.mp (List.nodup_append.mp hnodup).2.1
  · intro hk
    rcases Nat.le_one_iff_eq_zero_or_eq_one.mp hk with hzero | hone
    · rw [hzero]
      decide
    · rw [hone]
      decide

/-! ### Handlers -/

theorem touchesBegan_eq (touches : List τ) (location : τ → CGPoint K) (s : GameScene τ K) :
    ∃ slot, s.touchesBegan touches location = { s with motivatingTouch := slot } :=
  ⟨_,foldl_fill (fun (s : GameScene τ K) slot => { s with motivatingTouch := slot })
    GameScene.motivatingTouch (fun _ _ _ => rfl) (fun _ _ => rfl) (fun _ => rfl)
    (fun touch => CGRectContainsPoint s.region (location touch) = true) touches s⟩

omit [LinearOrder K] in
theorem counts_processTouch {location : τ → CGPoint K} (h : start.Counts k s) :
    start.Counts (k+1) (s.processTouch location) := by
  obtain ⟨footballs,hchildren,hlength,hnamed⟩ := h.footballs
  obtain ⟨ball,hball,hcategory,hname⟩ : ∃ ball,
      (s.processTouch location).children = s.children++[ball] ∧
        ball.categoryBitMask = category_football ∧ ball.name = "Football" := ⟨_,rfl,rfl,rfl⟩
  constructor
  · refine ⟨footballs++[ball],?_,?_,?_⟩
    · rw [hball,hchildren,List.append_assoc]
    · rw [List.length_append,hlength,List.length_singleton]
    · intro node hnode
      rcases List.mem_append.mp hnode with hold | hnew
      · exact hnamed node hold
      · obtain rfl := List.mem_singleton.mp hnew
        exact ⟨hcategory,hname⟩
  · show s.ballsNumber+1 = _
    rw [h.ballsNumber]
    exact (Int64.ofNat_add k 1).symm

variable [DecidableEq τ]

theorem counts_handle {e : TouchEvent τ (CGPoint K)} (h : start.Counts k s) :
    start.Counts (k+(s.endsTap e).toNat) (s.handle screen e) := by
  cases e with
  | began touches =>
    obtain ⟨slot,hslot⟩ := touchesBegan_eq (touches.map Prod.fst) screen.location s
    show start.Counts k (s.touchesBegan _ _)
    rw [hslot]
    exact ⟨h.footballs,h.ballsNumber⟩
  | moved touches => exact h
  | ended touches =>
    show start.Counts (k+(containsObject (touches.map Prod.fst) s.motivatingTouch).toNat)
      (s.touchesEnded (touches.map Prod.fst) screen.location)
    rw [GameScene.touchesEnded]
    split_ifs with hlifted
    · have hprocessed : start.Counts (k+1) (s.processTouch screen.location) :=
        counts_processTouch h
      rw [hlifted]
      exact ⟨hprocessed.footballs,hprocessed.ballsNumber⟩
    · rw [Bool.not_eq_true] at hlifted
      rw [hlifted]
      exact h
  | cancelled touches => exact h

/-! ### Runs -/

theorem counts_run {location : τ → CGPoint K} {es : List (TouchEvent τ (CGPoint K))}
    {x : Screen τ (CGPoint K) × GameScene τ K}
    (hrun : run (step id GameScene.handle) (.empty location,start) es = .ok x)
    (hstart : start.ballsNumber = 0) :
    start.Counts (taps (.empty location,start) es) x.2 := by
  have hzero : start.Counts 0 start := ⟨⟨[],by simp,rfl,by simp⟩,hstart⟩
  have hstep : ∀ (e : TouchEvent τ (CGPoint K)) (k : ℕ) (x y : Screen τ (CGPoint K) × GameScene τ K),
      start.Counts k x.2 → step id GameScene.handle x e = .ok y →
        start.Counts (k+(x.2.endsTap e).toNat) y.2 := by
    intro e k x y hx h
    rw [(step_eq_ok.mp h).2]
    exact counts_handle hx
  have hcount := run_counts (I := fun k (x : Screen τ (CGPoint K) × GameScene τ K) =>
    start.Counts k x.2) hstep hzero hrun
  rwa [Nat.zero_add] at hcount

/-- After a run every ball is found by its own name exactly if there was at most one tap. -/
theorem namesBalls_iff {location : τ → CGPoint K} {es : List (TouchEvent τ (CGPoint K))}
    {x : Screen τ (CGPoint K) × GameScene τ K}
    (hrun : run (step id GameScene.handle) (.empty location,newScene width height) es = .ok x) :
    (newScene width height).NamesBalls (taps (.empty location,newScene width height) es) x.2 ↔
      taps (Screen.empty location,(newScene width height : GameScene τ K)) es ≤ 1 := by
  have hcounts := counts_run hrun rfl
  generalize taps _ es = k at hcounts ⊢
  constructor
  · intro h
    exact (names_nodup_iff hcounts).mp h.names
  · intro hk
    have hnames := (names_nodup_iff hcounts).mpr hk
    obtain ⟨footballs,hchildren,hlength,hnamed⟩ := hcounts.footballs
    constructor
    · exact ⟨footballs,hchildren,hlength,fun node hnode => (hnamed node hnode).1⟩
    · rw [hcounts.ballsNumber]
      rcases Nat.le_one_iff_eq_zero_or_eq_one.mp hk with rfl | rfl <;> rfl
    · exact hnames
    · exact childNodeWithName_of_nodup hnames

end

def nowhere : ℕ → CGPoint ℚ := fun _ => ⟨0,0⟩

def tap (finger : ℕ) : List (TouchEvent ℕ (CGPoint ℚ)) :=
  [.began [(finger,⟨10,20⟩)],.ended [(finger,⟨10,30⟩)]]

theorem namesBalls_tap : ∃ x,
    run (step id GameScene.handle) (.empty nowhere,newScene 750 1334) (tap 0) = .ok x ∧
      ((newScene 750 1334).NamesBalls (taps (.empty nowhere,newScene 750 1334) (tap 0)) x.2 ↔
        taps (Screen.empty nowhere,(newScene 750 1334 : GameScene ℕ ℚ)) (tap 0) ≤ 1) := by
  refine ⟨_,rfl,?_⟩
  exact namesBalls_iff (show run (step id GameScene.handle)
    (.empty nowhere,newScene 750 1334) (tap 0) = .ok _ from rfl)

theorem not_namesBalls_twoTaps : ∃ x,
    run (step id GameScene.handle) (.empty nowhere,newScene 750 1334) (tap 0++tap 1) = .ok x ∧
      ¬ (newScene 750 1334).NamesBalls
        (taps (.empty nowhere,newScene 750 1334) (tap 0++tap 1)) x.2 := by
  refine ⟨_,rfl,fun h => ?_⟩
  exact absurd h.names (by decide +kernel)

end SpriteContainerAssignment
end CourseraObjC
