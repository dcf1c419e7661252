import CourseraObjC.BinaryRounding
import Mathlib.Algebra.Group.Subsemigroup.Defs

/-! The sum of two `NSNumber` objects. The type of the first number decides how both are read
and what the sum is, so that a sum of three may depend on the order of the additions. -/
namespace CourseraObjC

open BinaryRounding

/-- The C type that a number was made from. -/
inductive ObjCType
  | bool
  | char
  | double
  | float
  | int
  | long
  | longLong
  | short
  | unsignedChar
  | unsignedInt
  | unsignedLong
  | unsignedLongLong
  | unsignedShort
  deriving DecidableEq

structure NSNumber where
  objCType : ObjCType
  value : ℚ
  deriving DecidableEq

/-- An integer of so many bits; what does not fit wraps around. -/
def signedBits (bits : ℕ) (z : ℤ) : ℤ := z.bmod (2^bits)

def unsignedBits (bits : ℕ) (z : ℤ) : ℤ := z%2^bits

def truncated (x : ℚ) : ℤ := if x < 0 then x.ceil else x.floor

/-- A value as one of the type; `long` has 64 bits. -/
def ObjCType.convert (x : ℚ) : ObjCType → ℚ
  | .bool => if x = 0 then 0 else 1
  | .char => signedBits 8 (truncated x)
  | .double => BinaryRounding.double x
  | .float => nearest 24 (-149) x
  | .int => signedBits 32 (truncated x)
  | .long => signedBits 64 (truncated x)
  | .longLong => signedBits 64 (truncated x)
  | .short => signedBits 16 (truncated x)
  | .unsignedChar => unsignedBits 8 (truncated x)
  | .unsignedInt => unsignedBits 32 (truncated x)
  | .unsignedLong => unsignedBits 64 (truncated x)
  | .unsignedLongLong => unsignedBits 64 (truncated x)
  | .unsignedShort => unsignedBits 16 (truncated x)

/-- The type of a C sum: what is smaller than an `int` becomes one. -/
def ObjCType.promoted : ObjCType → ObjCType
  | .bool => .int
  | .char => .int
  | .short => .int
  | .unsignedChar => .int
  | .unsignedShort => .int
  | type => type

namespace PFInternalUtils

def addNumber (first second : NSNumber) : NSNumber :=
  let type := first.objCType
  let sum := type.convert first.value+type.convert second.value
  ⟨type.promoted,type.promoted.convert sum⟩

end PFInternalUtils

instance : Add NSNumber := ⟨PFInternalUtils.addNumber⟩

theorem truncated_intCast (z : ℤ) : truncated z = z := by
  rw [truncated]
  split_ifs
  · exact Rat.ceil_intCast z
  · exact Rat.floor_intCast z

theorem addNumber_longLong {a b : NSNumber} (ha : a.objCType = .longLong) :
    a+b = ⟨.longLong,signedBits 64 (truncated a.value+truncated b.value)⟩ := by
  show PFInternalUtils.addNumber a b = _
  simp only [PFInternalUtils.addNumber,ha,ObjCType.promoted,ObjCType.convert,NSNumber.mk.injEq,
    true_and]
  have hcast : (signedBits 64 (truncated a.value) : ℚ)+signedBits 64 (truncated b.value) =
      ((signedBits 64 (truncated a.value)+signedBits 64 (truncated b.value) : ℤ) : ℚ) :=
    (Int.cast_add _ _).symm
  rw [hcast,truncated_intCast,signedBits,signedBits,signedBits,Int.bmod_add_bmod,Int.add_bmod_bmod]
  rfl

/-- Numbers of one integer type add up in any order of the additions. -/
theorem addNumber_assoc {a b c : NSNumber} (ha : a.objCType = .longLong)
    (hb : b.objCType = .longLong) : a+b+c = a+(b+c) := by
  have hab : (a+b).objCType = .longLong := by rw [addNumber_longLong ha]
  rw [addNumber_longLong hab,addNumber_longLong ha,addNumber_longLong ha,addNumber_longLong hb]
  simp only [truncated_intCast,signedBits,Int.bmod_add_bmod,Int.add_bmod_bmod,Int.add_assoc]

/-- Numbers whose sums are again among them, in any order of the additions. -/
structure OrderlySums (ν : Type) [Add ν] extends AddSubsemigroup ν where
  add_assoc : ∀ {a b c}, a ∈ carrier → b ∈ carrier → c ∈ carrier → a+b+c = a+(b+c)

def NSNumber.longLongs : OrderlySums NSNumber where
  carrier := {n | n.objCType = .longLong}
  add_mem' := fun ha _ => by rw [Set.mem_ofPred_eq,addNumber_longLong ha]
  add_assoc := fun ha hb _ => addNumber_assoc ha hb

end CourseraObjC
