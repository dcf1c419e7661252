import CourseraObjC.Runs
import CourseraObjC.Sequences
import Mathlib.Data.Rat.Defs

/-! Breakout's game scene. A ball that hits a block or the floor starts a sequence of
actions on what it hit; these sequences run side by side, and the last action of each may
present an end scene, which takes the game scene from its view. -/
namespace CourseraObjC
namespace BreakoutDemo

open Runs

def category_fence : ℕ := 0x1 <<< 4
def category_paddle : ℕ := 0x1 <<< 3
def category_block : ℕ := 0x1 <<< 2
def category_ball : ℕ := 0x1 <<< 1

inductive Node
  | scene | background | ball1 | ball2 | paddle | block (i : ℕ)
  deriving DecidableEq

structure SKPhysicsBody where
  categoryBitMask : ℕ
  contactTestBitMask : ℕ

namespace Node

def name : Node → String
  | .scene => "Fence"
  | .background => "Background"
  | .ball1 => "Ball1"
  | .ball2 => "Ball2"
  | .paddle => "Paddle"
  | .block _ => "Block"

/-- The masks are set with the body and never change. -/
def physicsBody : Node → Option SKPhysicsBody
  | .scene => some ⟨category_fence,0x0⟩
  | .background => none
  | .ball1 => some ⟨category_ball,category_fence ||| category_block⟩
  | .ball2 => some ⟨category_ball,category_fence ||| category_block⟩
  | .paddle => some ⟨category_paddle,category_ball⟩
  | .block _ => some ⟨category_block,category_ball⟩

end Node

/-- A contact is reported if the category of one body is in the test mask of the other. -/
def SKPhysicsBody.reports (a b : SKPhysicsBody) : Bool :=
  a.categoryBitMask &&& b.contactTestBitMask ≠ 0 ∨ b.categoryBitMask &&& a.contactTestBitMask ≠ 0

def containsString (s part : String) : Bool := decide (part.toList <:+: s.toList)

/-- The steps of the sequences. Sounds, particles, animations and fades are seen and heard only. -/
inductive Action
  | playSoundFileNamed (soundFile : String)
  | actionRampGroup
  | actionParticleExplosion
  | fadeInWithDuration (sec : ℚ)
  | removeFromParent
  | checkGameOver
  | switchScene
  deriving DecidableEq

inductive EndScene
  | GameOver | GameWon
  deriving DecidableEq

def blockSequence : List Action :=
  let actionExplodeSequence :=
    [.playSoundFileNamed "sound_explode.m4a",.actionParticleExplosion,.fadeInWithDuration 1]
  [.actionRampGroup]++actionExplodeSequence++[.removeFromParent,.checkGameOver]

def ballSequence : List Action :=
  [.playSoundFileNamed "sound_explode.m4a",.actionParticleExplosion,.fadeInWithDuration (1/5),
    .removeFromParent,.switchScene]

/-- `view` tells whether the scene is in a view, and `presented` what its view was told to
present. -/
structure GameScene where
  children : List Node
  sequences : List (Node × List Action)
  view : Bool
  presented : List EndScene

/-- What SpriteKit does: report a contact, run the next step of a sequence, or ask for an
update before a frame. -/
inductive Event
  | didBeginContact (bodyA bodyB : Node) (contactPointY : ℚ)
  | progress (sequence : ℕ)
  | update
  deriving DecidableEq

/-- A contact of bodies that are not in the scene or are not tested, or a step of a
sequence that has none left. -/
inductive Impossible
  | noContact | noStep
  deriving DecidableEq

namespace GameScene

def didMoveToView (blocks : ℕ) : GameScene where
  children := [.background,.ball1,.ball2,.paddle]++(List.range blocks).map .block
  sequences := []
  view := true
  presented := []

def childNodeWithName (name : String) (s : GameScene) : Option Node :=
  s.children.find? fun node => node.name = name

def runAction (node : Node) (actions : List Action) (s : GameScene) : GameScene :=
  { s with sequences := s.sequences++[(node,actions)] }

/-- A message to the view; without a view it does nothing. -/
def presentScene (scene : EndScene) (s : GameScene) : GameScene :=
  if s.view then { s with view := false, presented := s.presented++[scene] } else s

def anyBlocksRemaining (s : GameScene) : Bool := (s.childNodeWithName "Block").isSome

def checkGameOver (s : GameScene) : GameScene :=
  if !s.anyBlocksRemaining then s.presentScene .GameWon else s

def switchScene (s : GameScene) : GameScene := s.presentScene .GameOver

def perform (node : Node) (s : GameScene) : Action → GameScene
  | .removeFromParent => { s with children := s.children.filter (· ≠ node) }
  | .checkGameOver => s.checkGameOver
  | .switchScene => s.switchScene
  | _ => s

def didBeginContact (bodyA bodyB : Node) (contactPointY : ℚ) (s : GameScene) : GameScene :=
  let nameA := bodyA.name
  let nameB := bodyB.name
  if (containsString nameA "Block" && containsString nameB "Ball") ||
      (containsString nameA "Ball" && containsString nameB "Block") then
    let block := if containsString nameA "Block" then bodyA else bodyB
    s.runAction block blockSequence
  else if (containsString nameA "Paddle" && containsString nameB "Ball") ||
      (containsString nameA "Ball" && containsString nameB "Paddle") then
    s.runAction .scene [.playSoundFileNamed "sound_paddle.m4a"]
  else if (containsString nameA "Fence" && containsString nameB "Ball") ||
      (containsString nameA "Ball" && containsString nameB "Fence") then
    let ball := if containsString nameA "Ball" then bodyA else bodyB
    if contactPointY < 10 then s.runAction ball ballSequence
    else s.runAction .scene [.playSoundFileNamed "sound_wall.m4a"]
  else s

def canTouch (bodyA bodyB : Node) (s : GameScene) : Bool :=
  (bodyA = .scene ∨ bodyA ∈ s.children) && (bodyB = .scene ∨ bodyB ∈ s.children) &&
    match bodyA.physicsBody, bodyB.physicsBody with
    | some a, some b => a.reports b
    | _, _ => false

/-- An update changes the damping of the balls only. -/
def step (s : GameScene) : Event → Except Impossible GameScene
  | .didBeginContact bodyA bodyB contactPointY =>
    if s.canTouch bodyA bodyB then .ok (s.didBeginContact bodyA bodyB contactPointY)
    else .error .noContact
  | .progress k =>
    match Sequences.next k s.sequences with
    | some (node,action,sequences) => .ok ({ s with sequences := sequences }.perform node action)
    | none => .error .noStep
  | .update => .ok s

end GameScene

open GameScene

variable {s t : GameScene} {a b : Node} {y : ℚ} {n k : ℕ}

/-! ### Contacts -/

namespace Node

def isBall : Node → Bool
  | .ball1 => true
  | .ball2 => true
  | _ => false

def isBlock : Node → Bool
  | .block _ => true
  | _ => false

theorem containsString_ball (node : Node) : containsString node.name "Ball" = node.isBall := by
  cases node with
  | block i => exact (by decide : containsString "Block" "Ball" = false)
  | _ => decide

theorem containsString_block (node : Node) : containsString node.name "Block" = node.isBlock := by
  cases node with
  | block i => exact (by decide : containsString "Block" "Block" = true)
  | _ => decide

theorem containsString_paddle (node : Node) :
    containsString node.name "Paddle" = decide (node = .paddle) := by
  cases node with
  | block i => exact (by decide : containsString "Block" "Paddle" = false)
  | _ => decide

theorem containsString_fence (node : Node) :
    containsString node.name "Fence" = decide (node = .scene) := by
  cases node with
  | block i => exact (by decide : containsString "Block" "Fence" = false)
  | _ => decide

end Node

def Event.hits (n : ℕ) : Event → Bool
  | .didBeginContact bodyA bodyB _ =>
    (bodyA = .block n && bodyB.isBall) || (bodyA.isBall && bodyB = .block n)
  | _ => false

def Event.touchesFloor : Event → Bool
  | .didBeginContact bodyA bodyB contactPointY =>
    ((bodyA = .scene && bodyB.isBall) || (bodyA.isBall && bodyB = .scene)) && contactPointY < 10
  | _ => false

def startedAtFence (ball : Node) : Bool → Node × List Action
  | true => (ball,ballSequence)
  | false => (.scene,[.playSoundFileNamed "sound_wall.m4a"])

/-- The sequence a contact starts, read off the bodies instead of their names. -/
def startedBy (low : Bool) : Node → Node → Option (Node × List Action)
  | .block n, .ball1 => some (.block n,blockSequence)
  | .block n, .ball2 => some (.block n,blockSequence)
  | .ball1, .block n => some (.block n,blockSequence)
  | .ball2, .block n => some (.block n,blockSequence)
  | .paddle, .ball1 => some (.scene,[.playSoundFileNamed "sound_paddle.m4a"])
  | .paddle, .ball2 => some (.scene,[.playSoundFileNamed "sound_paddle.m4a"])
  | .ball1, .paddle => some (.scene,[.playSoundFileNamed "sound_paddle.m4a"])
  | .ball2, .paddle => some (.scene,[.playSoundFileNamed "sound_paddle.m4a"])
  | .scene, .ball1 => some (startedAtFence .ball1 low)
  | .scene, .ball2 => some (startedAtFence .ball2 low)
  | .ball1, .scene => some (startedAtFence .ball1 low)
  | .ball2, .scene => some (startedAtFence .ball2 low)
  | _, _ => none

theorem didBeginContact_eq (a b : Node) (y : ℚ) (s : GameScene) :
    s.didBeginContact a b y =
      match startedBy (decide (y < 10)) a b with
      | some (node,actions) => s.runAction node actions
      | none => s := by
  simp only [GameScene.didBeginContact,Node.containsString_ball,Node.containsString_block,
    Node.containsString_paddle,Node.containsString_fence]
  by_cases hy : y < 10
  · rw [decide_eq_true hy]
    simp only [if_pos hy]
    cases a <;> cases b <;> rfl
  · rw [decide_eq_false hy]
    simp only [if_neg hy]
    cases a <;> cases b <;> rfl

def programs : Node → Set (List Action)
  | .scene => { program | ∃ soundFile, program = [.playSoundFileNamed soundFile] }
  | .ball1 => {ballSequence}
  | .ball2 => {ballSequence}
  | .block _ => {blockSequence}
  | _ => ∅

variable {low : Bool} {i : Node} {actions : List Action}

theorem startedBy_mem_programs (h : startedBy low a b = some (i,actions)) :
    actions ∈ programs i := by
  cases low <;> cases a <;> cases b <;> cases h <;> first | rfl | exact ⟨_,rfl⟩

theorem startedBy_block_iff (low : Bool) (y : ℚ) :
    (∃ actions, startedBy low a b = some (.block n,actions)) ↔
      (Event.didBeginContact a b y).hits n = true := by
  cases low <;> cases a <;> cases b <;>
    simp [startedBy,startedAtFence,Event.hits,Node.isBall]

theorem touchesFloor_of_startedBy (h : startedBy (decide (y < 10)) a b = some (i,actions))
    (hball : i.isBall = true) : (Event.didBeginContact a b y).touchesFloor = true := by
  by_cases hy : y < 10
  · rw [decide_eq_true hy] at h
    revert hball
    cases a <;> cases b <;> cases h <;> simp [Event.touchesFloor,Node.isBall,hy]
  · rw [decide_eq_false hy] at h
    cases a <;> cases b <;> cases h <;> cases hball

/-! ### Steps -/

/-- What a step does: start a sequence on what was hit, nothing, or one action. -/
theorem step_cases {e : Event} (h : s.step e = .ok t) :
    (∃ i actions, t = s.runAction i actions ∧ actions ∈ programs i ∧
        (∀ n, i = .block n ↔ e.hits n = true) ∧ (i.isBall = true → e.touchesFloor = true)) ∨
      (t = s ∧ ∀ n, e.hits n = false) ∨
      ∃ k i action sequences, e = .progress k ∧
        Sequences.next k s.sequences = some (i,action,sequences) ∧
        t = { s with sequences := sequences }.perform i action := by
  cases e with
  | didBeginContact a b y =>
    simp only [GameScene.step] at h
    split_ifs at h with htouch
    obtain rfl := Except.ok.inj h
    rw [didBeginContact_eq]
    cases hstarted : startedBy (decide (y < 10)) a b with
    | none =>
      refine Or.inr (Or.inl ⟨rfl,fun n => ?_⟩)
      rw [← Bool.not_eq_true,← startedBy_block_iff (decide (y < 10)) y,hstarted]
      simp
    | some x =>
      obtain ⟨i,actions⟩ := x
      refine Or.inl ⟨i,actions,rfl,startedBy_mem_programs hstarted,fun n => ?_,
        touchesFloor_of_startedBy hstarted⟩
      rw [← startedBy_block_iff (decide (y < 10)) y,hstarted]
      simp
  | progress k =>
    simp only [GameScene.step] at h
    split at h
    · rename_i i action sequences hnext
      exact Or.inr (Or.inr ⟨k,i,action,sequences,rfl,hnext,(Except.ok.inj h).symm⟩)
    · cases h
  | update =>
    obtain rfl := Except.ok.inj h
    exact Or.inr (Or.inl ⟨rfl,fun _ => rfl⟩)

@[simp] theorem sequences_presentScene (scene : EndScene) (s : GameScene) :
    (s.presentScene scene).sequences = s.sequences := by
  unfold GameScene.presentScene
  split_ifs <;> rfl

@[simp] theorem children_presentScene (scene : EndScene) (s : GameScene) :
    (s.presentScene scene).children = s.children := by
  unfold GameScene.presentScene
  split_ifs <;> rfl

@[simp] theorem sequences_perform (i : Node) (action : Action) (s : GameScene) :
    (s.perform i action).sequences = s.sequences := by
  cases action with
  | checkGameOver =>
    show (if _ then _ else _ : GameScene).sequences = _
    split_ifs
    · exact sequences_presentScene _ s
    · rfl
  | switchScene => exact sequences_presentScene _ s
  | _ => rfl

theorem children_perform (i : Node) (action : Action) (s : GameScene) :
    (s.perform i action).children =
      if action = .removeFromParent then s.children.filter (· ≠ i) else s.children := by
  cases action with
  | checkGameOver =>
    rw [if_neg (by decide)]
    show (if _ then _ else _ : GameScene).children = _
    split_ifs
    · exact children_presentScene _ s
    · rfl
  | switchScene => exact children_presentScene _ s
  | _ => rfl

end BreakoutDemo
end CourseraObjC
