import Mathlib.Algebra.Order.Floor.Ring
import Mathlib.Data.List.Nodup
import Mathlib.Data.Rat.Floor
import Mathlib.Tactic.FieldSimp
import Mathlib.Tactic.Linarith
import Mathlib.Tactic.NormNum

/-! Breakout's rows of blocks. Three loops place them by the width of the scene, as many
as a quotient truncated to an `int` says; the coordinates are exact numbers. -/
namespace CourseraObjC
namespace BreakoutDemo
namespace BlockLayout

structure CGPoint (K : Type*) where
  x : K
  y : K

structure CGSize (K : Type*) where
  width : K
  height : K

/-- A sprite has its position in its middle. -/
structure SKSpriteNode (K : Type*) where
  position : CGPoint K
  size : CGSize K

section
variable {K : Type*} [Field K]

def kBlockWidth : K := 80
def kBlockHeight : K := 30
def kBlockHorizSpace : K := 30

def row (kBlocksPerRow : ℤ) (x y : K) : List (SKSpriteNode K) :=
  (List.range kBlocksPerRow.toNat).map fun i : ℕ =>
    { position := ⟨x+i*kBlockWidth+i*kBlockHorizSpace,y⟩, size := ⟨kBlockWidth,kBlockHeight⟩ }

variable {x y w : K} {n : ℤ}

theorem pitch_eq : (kBlockWidth+kBlockHorizSpace : K) = 110 := by
  norm_num [kBlockWidth,kBlockHorizSpace]

@[simp] theorem length_row (n : ℤ) (x y : K) : (row n x y).length = n.toNat := by
  simp [row]

theorem row_congr {m : ℤ} (h : n.toNat = m.toNat) (x y : K) : row n x y = row m x y := by
  rw [row,row,h]

theorem mem_row {node : SKSpriteNode K} :
    node ∈ row n x y ↔ ∃ i : ℕ, (i : ℤ) < n ∧ node = ⟨⟨x+i*80+i*30,y⟩,⟨80,30⟩⟩ := by
  simp only [row,List.mem_map,List.mem_range,kBlockWidth,kBlockHeight,kBlockHorizSpace]
  constructor
  · rintro ⟨i,hi,rfl⟩
    exact ⟨i,by omega,rfl⟩
  · rintro ⟨i,hi,rfl⟩
    exact ⟨i,by omega,rfl⟩

variable [LinearOrder K] [FloorRing K]

/-- The conversion of a floating-point number to an `int` drops its fraction. -/
def toInt (x : K) : ℤ := if 0 ≤ x then ⌊x⌋ else ⌈x⌉

def topRow (size : CGSize K) : List (SKSpriteNode K) :=
  row (toInt (size.width/(kBlockWidth+kBlockHorizSpace)))
    (kBlockHorizSpace/2+kBlockWidth/2) (size.height-100)

def middleRow (size : CGSize K) : List (SKSpriteNode K) :=
  row (toInt (size.width/(kBlockWidth+kBlockHorizSpace)-1))
    (kBlockHorizSpace+kBlockWidth) (size.height-100-3/2*kBlockHeight)

def thirdRow (size : CGSize K) : List (SKSpriteNode K) :=
  row (toInt (size.width/(kBlockWidth+kBlockHorizSpace)-1))
    (kBlockHorizSpace/2+kBlockWidth/2) (size.height-100-3*kBlockHeight)

def blocks (size : CGSize K) : List (SKSpriteNode K) := topRow size++middleRow size++thirdRow size

/-! ### Counts -/

theorem toInt_of_nonneg (h : 0 ≤ x) : toInt x = ⌊x⌋ := if_pos h

variable [IsStrictOrderedRing K]

/-- Truncation takes a quotient below one, less one, to nothing. -/
theorem toNat_toInt_sub_one (x : K) : (toInt (x-1)).toNat = (⌊x⌋-1).toNat := by
  unfold toInt
  split_ifs with hone
  · rw [Int.floor_sub_one]
  · have hceil : ⌈x-1⌉ ≤ 0 := Int.ceil_le.mpr (by push_cast; linarith)
    have hfloor : ⌊x⌋ < 1 := Int.floor_lt.mpr (by push_cast; linarith)
    omega

theorem blocks_eq {size : CGSize K} (h : 0 ≤ size.width) :
    blocks size = row ⌊size.width/110⌋ 55 (size.height-100)++
      row (⌊size.width/110⌋-1) 110 (size.height-145)++
      row (⌊size.width/110⌋-1) 55 (size.height-190) := by
  have hquotient : 0 ≤ size.width/110 := div_nonneg h (by norm_num)
  have h₁ : (kBlockHorizSpace/2+kBlockWidth/2 : K) = 55 := by
    norm_num [kBlockWidth,kBlockHorizSpace]
  have h₂ : (kBlockHorizSpace+kBlockWidth : K) = 110 := by
    norm_num [kBlockWidth,kBlockHorizSpace]
  have h₃ : size.height-100-3/2*kBlockHeight = size.height-145 := by
    rw [kBlockHeight]
    ring
  have h₄ : size.height-100-3*kBlockHeight = size.height-190 := by
    rw [kBlockHeight]
    ring
  rw [blocks,topRow,middleRow,thirdRow,pitch_eq,toInt_of_nonneg hquotient,h₁,h₂,h₃,h₄,
    row_congr (toNat_toInt_sub_one _) 110,row_congr (toNat_toInt_sub_one _) 55]

theorem length_blocks {size : CGSize K} (h : 0 ≤ size.width) :
    ((blocks size).length : ℤ) = ⌊size.width/110⌋+2*max (⌊size.width/110⌋-1) 0 := by
  have hfloor : 0 ≤ ⌊size.width/110⌋ := Int.floor_nonneg.mpr (div_nonneg h (by norm_num))
  rw [blocks_eq h]
  simp only [List.length_append,length_row]
  omega

/-! ### Rectangles -/

namespace SKSpriteNode

/-- The rectangle of a sprite, with its edges. -/
structure Covers (node : SKSpriteNode K) (p : CGPoint K) : Prop where
  left : node.position.x-node.size.width/2 ≤ p.x
  right : p.x ≤ node.position.x+node.size.width/2
  bottom : node.position.y-node.size.height/2 ≤ p.y
  top : p.y ≤ node.position.y+node.size.height/2

def Within (w : K) (node : SKSpriteNode K) : Prop :=
  0 ≤ node.position.x-node.size.width/2 ∧ node.position.x+node.size.width/2 ≤ w

def Apart (a b : SKSpriteNode K) : Prop := ∀ p, ¬ (a.Covers p ∧ b.Covers p)

end SKSpriteNode

theorem within_row (hx : 40 ≤ x) (hlast : ∀ i : ℕ, (i : ℤ) < n → x+i*110+40 ≤ w)
    {node : SKSpriteNode K} (hnode : node ∈ row n x y) : node.Within w := by
  obtain ⟨i,hi,rfl⟩ := mem_row.mp hnode
  have hfit := hlast i hi
  have hpos : (0 : K) ≤ i := Nat.cast_nonneg i
  constructor
  · show 0 ≤ x+i*80+i*30-80/2
    linarith
  · show x+i*80+i*30+80/2 ≤ w
    linarith

theorem pairwise_row (n : ℤ) (x y : K) : (row n x y).Pairwise SKSpriteNode.Apart := by
  rw [row,List.pairwise_map]
  apply List.pairwise_lt_range.imp
  intro i j hij p ⟨hi,hj⟩
  have hstep : (i : K)+1 ≤ j := by exact_mod_cast hij
  have hright := hi.right
  have hleft := hj.left
  simp only [kBlockWidth,kBlockHorizSpace] at hright hleft
  linarith

theorem apart_rows {m : ℤ} {x' y' : K} (hy : y'+30 < y) {a b : SKSpriteNode K}
    (ha : a ∈ row n x y) (hb : b ∈ row m x' y') : a.Apart b := by
  obtain ⟨i,_,rfl⟩ := mem_row.mp ha
  obtain ⟨j,_,rfl⟩ := mem_row.mp hb
  intro p ⟨hi,hj⟩
  have hbottom := hi.bottom
  have htop := hj.top
  simp only at hbottom htop
  linarith

/-- The place of a block's right-hand neighbour is within the width where its count says so. -/
theorem fits_of_lt_floor {i : ℤ} (h : i < ⌊w/110⌋) : (i+1)*110 ≤ w := by
  have hle : ((i+1 : ℤ) : K) ≤ w/110 := Int.le_floor.mp (by omega)
  rw [le_div_iff₀ (by norm_num)] at hle
  exact_mod_cast hle

/-- With a block less a row may start up to a block further right. -/
theorem within_shortRow (hleft : 40 ≤ x) (hright : x ≤ 110) {node : SKSpriteNode K}
    (hnode : node ∈ row (⌊w/110⌋-1) x y) : node.Within w := by
  apply within_row hleft _ hnode
  intro i hi
  have hfit := fits_of_lt_floor (show (i : ℤ)+1 < ⌊w/110⌋ by omega)
  push_cast at hfit
  linarith

theorem within_blocks {size : CGSize K} (h : 0 ≤ size.width) {node : SKSpriteNode K}
    (hnode : node ∈ blocks size) : node.Within size.width := by
  rw [blocks_eq h] at hnode
  rcases List.mem_append.mp hnode with hnode | hnode
  rcases List.mem_append.mp hnode with hnode | hnode
  · apply within_row (by norm_num) _ hnode
    intro i hi
    have hfit := fits_of_lt_floor hi
    push_cast at hfit
    linarith
  · exact within_shortRow (by norm_num) (by norm_num) hnode
  · exact within_shortRow (by norm_num) (by norm_num) hnode

theorem pairwise_blocks {size : CGSize K} (h : 0 ≤ size.width) :
    (blocks size).Pairwise SKSpriteNode.Apart := by
  rw [blocks_eq h]
  simp only [List.pairwise_append,List.mem_append]
  refine ⟨⟨pairwise_row _ _ _,pairwise_row _ _ _,?_⟩,pairwise_row _ _ _,?_⟩
  · intro a ha b hb
    exact apart_rows (by linarith) ha hb
  · rintro a (ha | ha) b hb
    · exact apart_rows (by linarith) ha hb
    · exact apart_rows (by linarith) ha hb

/-- For every size of the scene: so many blocks, each between the sides, and no two that touch. -/
theorem layout_sound {size : CGSize K} (h : 0 ≤ size.width) :
    ((blocks size).length : ℤ) = ⌊size.width/110⌋+2*max (⌊size.width/110⌋-1) 0 ∧
      (∀ node ∈ blocks size, node.Within size.width) ∧
      (blocks size).Pairwise SKSpriteNode.Apart :=
  ⟨length_blocks h,fun _ hnode => within_blocks h hnode,pairwise_blocks h⟩

end

theorem layout_sound_990 :
    ((blocks (⟨990,768⟩ : CGSize ℚ)).length : ℤ) = ⌊(990/110 : ℚ)⌋+2*max (⌊(990/110 : ℚ)⌋-1) 0 ∧
      (∀ node ∈ blocks (⟨990,768⟩ : CGSize ℚ), node.Within 990) ∧
      (blocks (⟨990,768⟩ : CGSize ℚ)).Pairwise SKSpriteNode.Apart :=
  layout_sound (by norm_num)

end BlockLayout
end BreakoutDemo
end CourseraObjC
