import CourseraObjC.Runs
import Mathlib.Analysis.Real.Sqrt
import Mathlib.Data.List.Chain
import Mathlib.Tactic.NormNum

/-! Breakout's speed governor. Before every frame the damping of both balls goes up by a
tenth if they are too fast, down by a tenth if they are too slow, and to zero otherwise;
what it went up or down before is still in it. -/
namespace CourseraObjC
namespace BreakoutDemo
namespace SpeedGovernor

open Runs

structure CGVector (K : Type*) where
  dx : K
  dy : K

/-- The `linearDamping` of the two balls, counted in tenths. -/
structure LinearDamping where
  ball1 : ℤ
  ball2 : ℤ
  deriving DecidableEq

structure Frame (K : Type*) where
  ball1 : CGVector K
  ball2 : CGVector K

section
variable {K : Type*} [Field K] [LinearOrder K]

def kMaxSpeed : K := 1500
def kMinSpeed : K := 400

namespace CGVector

/-- The speed is compared by its square, `fasterThan_iff` and `slowerThan_iff` compare it itself. -/
def fasterThan (speed : K) (v : CGVector K) : Prop := speed^2 < v.dx*v.dx+v.dy*v.dy
def slowerThan (speed : K) (v : CGVector K) : Prop := v.dx*v.dx+v.dy*v.dy < speed^2

instance (speed : K) (v : CGVector K) : Decidable (v.fasterThan speed) :=
  inferInstanceAs (Decidable (speed^2 < v.dx*v.dx+v.dy*v.dy))
instance (speed : K) (v : CGVector K) : Decidable (v.slowerThan speed) :=
  inferInstanceAs (Decidable (v.dx*v.dx+v.dy*v.dy < speed^2))

end CGVector

theorem fasterThan_iff {speed : ℝ} (h : 0 ≤ speed) (v : CGVector ℝ) :
    v.fasterThan speed ↔ speed < √(v.dx*v.dx+v.dy*v.dy) := (Real.lt_sqrt h).symm

theorem slowerThan_iff {speed : ℝ} (h : 0 < speed) (v : CGVector ℝ) :
    v.slowerThan speed ↔ √(v.dx*v.dx+v.dy*v.dy) < speed := (Real.sqrt_lt' h).symm

namespace Frame

def mean (f : Frame K) : CGVector K :=
  ⟨(f.ball1.dx+f.ball2.dx)/(2 : ℕ),(f.ball1.dy+f.ball2.dy)/(2 : ℕ)⟩

def tooFast (f : Frame K) : Prop := f.ball1.fasterThan kMaxSpeed ∨ f.mean.fasterThan kMaxSpeed
def tooSlow (f : Frame K) : Prop := f.ball1.slowerThan kMinSpeed ∨ f.mean.slowerThan kMinSpeed

instance (f : Frame K) : Decidable f.tooFast := inferInstanceAs (Decidable (_ ∨ _))
instance (f : Frame K) : Decidable f.tooSlow := inferInstanceAs (Decidable (_ ∨ _))

end Frame

def update (d : LinearDamping) (f : Frame K) : LinearDamping :=
  if f.tooFast then ⟨d.ball1+1,d.ball2+1⟩
  else if f.tooSlow then ⟨d.ball1-1,d.ball2-1⟩
  else ⟨0,0⟩

/-- An update before each frame; it never fails. -/
def step (d : LinearDamping) (f : Frame K) : Except Empty LinearDamping := .ok (update d f)

/-- The dampings agree, and they slow the balls down if these are too fast, speed them up
if these are too slow, and leave them alone otherwise. -/
def Governs (f : Frame K) (d : LinearDamping) : Prop :=
  d.ball1 = d.ball2 ∧
    if f.tooFast then 0 < d.ball1 else if f.tooSlow then d.ball1 < 0 else d.ball1 = 0

/-- One frame is too fast and the other too slow. -/
def Opposed (f g : Frame K) : Prop :=
  (f.tooFast ∧ ¬ g.tooFast ∧ g.tooSlow) ∨ (¬ f.tooFast ∧ f.tooSlow ∧ g.tooFast)

/-! ### Bands of speed -/

inductive Band
  | tooFast | tooSlow | between
  deriving DecidableEq

namespace Band

def next : Band → ℤ → ℤ
  | .tooFast, d => d+1
  | .tooSlow, d => d-1
  | .between, _ => 0

def Governs : Band → ℤ → Prop
  | .tooFast, d => 0 < d
  | .tooSlow, d => d < 0
  | .between, d => d = 0

def Opposed : Band → Band → Prop
  | .tooFast, .tooSlow => True
  | .tooSlow, .tooFast => True
  | _, _ => False

/-- A damping that has followed one band follows the next unless the two are opposed: one
step of a tenth takes it to zero at most. -/
theorem governs_next_iff {b c : Band} {d : ℤ} (h : b.Governs d) :
    c.Governs (c.next d) ↔ ¬ b.Opposed c := by
  cases b <;> cases c <;> simp only [Governs,next,Opposed,not_true,not_false_iff,iff_true,iff_false] at h ⊢ <;>
    omega

end Band

def Frame.band (f : Frame K) : Band :=
  if f.tooFast then .tooFast else if f.tooSlow then .tooSlow else .between

theorem update_eq (d : LinearDamping) (f : Frame K) :
    update d f = ⟨f.band.next d.ball1,f.band.next d.ball2⟩ := by
  unfold update Frame.band
  split_ifs <;> rfl

theorem governs_iff (f : Frame K) (d : LinearDamping) :
    Governs f d ↔ d.ball1 = d.ball2 ∧ f.band.Governs d.ball1 := by
  unfold Governs Frame.band
  split_ifs <;> rfl

theorem opposed_iff (f g : Frame K) : Opposed f g ↔ f.band.Opposed g.band := by
  unfold Opposed Frame.band
  split_ifs <;> simp_all [Band.Opposed]

/-! ### Runs -/

theorem governs_run_iff {b : Band} {d : LinearDamping} (hequal : d.ball1 = d.ball2)
    (hd : b.Governs d.ball1) (frames : List (Frame K)) :
    Along step (fun d f => Governs f (update d f)) d frames ↔
      (b::frames.map Frame.band).IsChain fun b c => ¬ b.Opposed c := by
  induction frames generalizing b d with
  | nil => simp
  | cons f frames ih =>
    have hnext : (update d f).ball1 = (update d f).ball2 := by
      rw [update_eq]
      simp only [hequal]
    have hgoverns : Governs f (update d f) ↔ ¬ b.Opposed f.band := by
      rw [governs_iff,and_iff_right hnext,update_eq]
      exact Band.governs_next_iff hd
    rw [along_cons,List.map_cons,List.isChain_cons_cons,hgoverns]
    apply and_congr_right
    intro hopposed
    have hf := ((governs_iff _ _).mp (hgoverns.mpr hopposed)).2
    rw [← ih hnext hf]
    constructor
    · intro h
      exact h _ rfl
    · intro h d' hd'
      obtain rfl := Except.ok.inj hd'
      exact h

/-- From zero, the damping pushes the right way after every frame exactly if no frame
follows an opposed one. -/
theorem governor_pushes_iff (frames : List (Frame K)) :
    Along step (fun d f => Governs f (update d f)) ⟨0,0⟩ frames ↔
      frames.IsChain fun f g => ¬ Opposed f g := by
  have hzero : Band.between.Governs (LinearDamping.mk 0 0).ball1 := rfl
  have hbetween (c : Band) : ¬ Band.between.Opposed c := by
    cases c <;> exact not_false
  rw [governs_run_iff rfl hzero,List.isChain_cons,and_iff_right fun c _ => hbetween c,
    List.isChain_map]
  simp only [opposed_iff]

end

def bothAt (speed : ℚ) : Frame ℚ := ⟨⟨speed,0⟩,⟨speed,0⟩⟩

theorem tooFast_bothAt : (bothAt 2000).tooFast :=
  Or.inl (by norm_num [CGVector.fasterThan,kMaxSpeed,bothAt])

theorem band_bothAt_slow : ¬ (bothAt 100).tooFast ∧ (bothAt 100).tooSlow := by
  norm_num [Frame.tooFast,Frame.tooSlow,Frame.mean,CGVector.fasterThan,CGVector.slowerThan,
    kMaxSpeed,kMinSpeed,bothAt]

/-- Balls that jump from too slow to too fast are not braked. -/
theorem jump_not_governed : ¬ Along step (fun d f => Governs f (update d f)) ⟨0,0⟩
    [bothAt 100,bothAt 2000] := by
  rintro ⟨_,hnext⟩
  obtain ⟨⟨_,hfast⟩,_⟩ := hnext _ rfl
  rw [if_pos tooFast_bothAt] at hfast
  simp [update,tooFast_bothAt,band_bothAt_slow] at hfast

end SpeedGovernor
end BreakoutDemo
end CourseraObjC
