import CourseraObjC.Upserts
import Mathlib.Data.Finset.Basic
import Mathlib.Data.Option.Basic
import Mathlib.Algebra.Group.Defs

/-! The operations on one field of a stored object, as `PFFieldOperation` has them: what they
make of the value of the field, and how an operation and the one before it become one.
Numbers are any that can be added, such as `NSNumber`; the instances that mutable arrays and
relations share are taken for their contents. -/
namespace CourseraObjC

structure NSException where
  name : String
  reason : String
  deriving DecidableEq

/-- What the code asks of the elements of an array: the id of one that is a stored object
and has been saved, and the order in which a set of them is enumerated. -/
structure Elements (α : Type) [DecidableEq α] where
  objectId : α → Option String
  allObjects : List α → List α
  allObjects_perm : ∀ l, (allObjects l).Perm l.dedup

def Elements.unsaved (α : Type) [DecidableEq α] : Elements α where
  objectId := fun _ => none
  allObjects := List.dedup
  allObjects_perm := fun l => List.Perm.refl l.dedup

inductive FieldValue (ν α : Type)
  | number (n : ν)
  | array (objects : List α)
  | relation (targetClass : Option String) (knownObjects : Finset α)
  | other (object : α)
  deriving DecidableEq

inductive FieldOperation (ν α : Type)
  | set (value : FieldValue ν α)
  | delete
  | increment (amount : ν)
  | add (objects : List α)
  | addUnique (objects : List α)
  | remove (objects : List α)
  | relation (targetClass : Option String) (relationsToAdd relationsToRemove : Finset α)
  deriving DecidableEq

namespace FieldOperation

def internalInconsistency (reason : String) : NSException :=
  ⟨"NSInternalInconsistencyException",reason⟩

def invalidArgument (reason : String) : NSException := ⟨"NSInvalidArgumentException",reason⟩

def invalidAfterPrevious : NSException :=
  internalInconsistency "Operation is invalid after previous operation."

def nonNumber : NSException := invalidArgument "You cannot increment a non-number."

def nonArray : NSException := internalInconsistency "You can't add an item to a non-array."

def describedClass (targetClass : Option String) : String := targetClass.getD "(null)"

def wrongClass (expected passed : Option String) : NSException :=
  invalidArgument ("Related object object must be of class "++describedClass expected++", but "
    ++describedClass passed++" was passed in")

section Arrays

variable {α : Type} [DecidableEq α] (E : Elements α)

def addUniqueObject (newValue : List α) (objectToAdd : α) : List α :=
  match E.objectId objectToAdd with
  | some i =>
    match newValue.findIdx? fun obj => E.objectId obj = some i with
    | none => newValue++[objectToAdd]
    | some index => newValue.set index objectToAdd
  | none => if objectToAdd ∈ newValue then newValue else newValue++[objectToAdd]

def addUniqueObjects (objects oldValue : List α) : List α :=
  objects.foldl (addUniqueObject E) oldValue

def removeObjectsInArray (array objects : List α) : List α := array.filter (· ∉ objects)

def removeSameId (newValue : List α) (objectToRemove : α) : List α :=
  match E.objectId objectToRemove with
  | some i => newValue.filter fun obj => E.objectId obj ≠ some i
  | none => newValue

def removeObjects (objects oldValue : List α) : List α :=
  let newValue := removeObjectsInArray oldValue objects
  -- those of the objects that are still there; none is, after the pass before
  let objectsToBeRemoved := removeObjectsInArray objects newValue
  objectsToBeRemoved.foldl (removeSameId E) newValue

/-- An element is itself, unless it has been saved: then it is whatever has its id. -/
def identity (x : α) : String ⊕ α :=
  match E.objectId x with
  | some i => .inl i
  | none => .inr x

variable {E}

theorem identity_of_objectId {x : α} {i : String} (h : E.objectId x = some i) :
    identity E x = .inl i := by
  simp [identity,h]

theorem identity_of_none {x : α} (h : E.objectId x = none) : identity E x = .inr x := by
  simp [identity,h]

theorem identity_eq_inl {x : α} {i : String} : identity E x = .inl i ↔ E.objectId x = some i := by
  cases h : E.objectId x with
  | none => simp [identity_of_none h]
  | some j => simp [identity_of_objectId h]

theorem identity_eq_inr {x y : α} : identity E x = .inr y ↔ x = y ∧ E.objectId y = none := by
  cases h : E.objectId x with
  | none =>
    rw [identity_of_none h]
    constructor
    · intro hxy
      obtain rfl : x = y := Sum.inr.inj hxy
      exact ⟨rfl,h⟩
    · rintro ⟨rfl,_⟩
      rfl
  | some j =>
    rw [identity_of_objectId h]
    constructor
    · intro hxy
      exact absurd hxy Sum.inl_ne_inr
    · rintro ⟨rfl,hnone⟩
      rw [h] at hnone
      exact absurd hnone (Option.some_ne_none j)

theorem upsert_of_mem {l : List α} {x : α} (hx : E.objectId x = none) (hmem : x ∈ l) :
    Upserts.upsert (identity E) l x = l := by
  induction l with
  | nil => simp at hmem
  | cons y l ih =>
    rw [Upserts.upsert,identity_of_none hx]
    by_cases hy : y = x
    · subst hy
      rw [if_pos (identity_of_none hx)]
    · have hne : identity E y ≠ .inr x := fun h => hy (identity_eq_inr.mp h).1
      rw [if_neg hne,ih ((List.mem_cons.mp hmem).resolve_left (Ne.symm hy))]

/-- The search by id and the replacement after it are an upsert. -/
theorem upsert_of_objectId {l : List α} {x : α} {i : String} (hx : E.objectId x = some i) :
    Upserts.upsert (identity E) l x =
      match l.findIdx? fun obj => E.objectId obj = some i with
      | none => l++[x]
      | some index => l.set index x := by
  induction l with
  | nil => rfl
  | cons y l ih =>
    rw [Upserts.upsert,identity_of_objectId hx,List.findIdx?_cons]
    by_cases hy : E.objectId y = some i
    · simp [hy,identity_of_objectId hy]
    · have hne : identity E y ≠ .inl i := fun h => hy (identity_eq_inl.mp h)
      rw [if_neg hne,ih]
      cases hfind : l.findIdx? fun obj => E.objectId obj = some i with
      | none => simp [hy]
      | some n => simp [hy]

theorem addUniqueObject_eq_upsert (l : List α) (x : α) :
    addUniqueObject E l x = Upserts.upsert (identity E) l x := by
  cases hx : E.objectId x with
  | some i => simp only [addUniqueObject,hx,upsert_of_objectId hx]
  | none =>
    simp only [addUniqueObject,hx]
    split_ifs with hmem
    · exact (upsert_of_mem hx hmem).symm
    · refine (Upserts.upsert_of_not_mem ?_).symm
      intro h
      obtain ⟨y,hy,hyx⟩ := List.mem_map.mp h
      rw [identity_of_none hx] at hyx
      exact hmem ((identity_eq_inr.mp hyx).1 ▸ hy)

theorem addUniqueObjects_eq_upsertAll (objects oldValue : List α) :
    addUniqueObjects E objects oldValue = Upserts.upsertAll (identity E) oldValue objects := by
  have hfun : addUniqueObject E = Upserts.upsert (identity E) := by
    funext l x
    exact addUniqueObject_eq_upsert l x
  rw [addUniqueObjects,hfun,Upserts.upsertAll]

theorem foldl_removeSameId (l objects : List α) :
    objects.foldl (removeSameId E) l =
      l.filter fun y => ∀ x ∈ objects, E.objectId x ≠ none → E.objectId y ≠ E.objectId x := by
  induction objects generalizing l with
  | nil => simp
  | cons x objects ih =>
    rw [List.foldl_cons,ih,removeSameId]
    cases hx : E.objectId x with
    | none => simp [hx]
    | some i =>
      rw [List.filter_filter]
      apply List.filter_congr
      intro y _
      simp [hx,Bool.and_comm]

theorem removeObjects_eq_removeAll (objects oldValue : List α) :
    removeObjects E objects oldValue = Upserts.removeAll (identity E) oldValue objects := by
  have hnone : removeObjectsInArray objects (removeObjectsInArray oldValue objects) = objects := by
    apply List.filter_eq_self.mpr
    intro x hx
    simp [removeObjectsInArray,hx]
  rw [removeObjects,hnone,foldl_removeSameId,removeObjectsInArray,List.filter_filter,
    Upserts.removeAll]
  apply List.filter_congr
  intro y _
  rw [← Bool.decide_and,decide_eq_decide]
  constructor
  · rintro ⟨hids,hmem⟩ h
    obtain ⟨x,hx,hxy⟩ := List.mem_map.mp h
    cases hid : E.objectId x with
    | none =>
      rw [identity_of_none hid] at hxy
      exact hmem ((identity_eq_inr.mp hxy.symm).1 ▸ hx)
    | some i =>
      rw [identity_of_objectId hid] at hxy
      exact hids x hx (by simp [hid]) (by rw [identity_eq_inl.mp hxy.symm,hid])
  · intro h
    refine ⟨fun x hx hid hxy => h (List.mem_map.mpr ⟨x,hx,?_⟩),
      fun hmem => h (List.mem_map_of_mem hmem)⟩
    obtain ⟨i,hi⟩ := Option.ne_none_iff_exists'.mp hid
    rw [identity_of_objectId hi,identity_of_objectId (hxy.trans hi)]

end Arrays

section Operations

variable {ν α : Type} [DecidableEq α] (E : Elements α)

def addUniqueWithObjects (objects : List α) : FieldOperation ν α :=
  .addUnique (E.allObjects objects)

def applyToValue [Add ν] : FieldOperation ν α → Option (FieldValue ν α) →
    Except NSException (Option (FieldValue ν α))
  | .set value, _ => .ok (some value)
  | .delete, _ => .ok none
  | .increment amount, none => .ok (some (.number amount))
  | .increment amount, some (.number n) => .ok (some (.number (amount+n)))
  | .increment _, some _ => .error nonNumber
  | .add objects, none => .ok (some (.array objects))
  | .add objects, some (.array oldValue) => .ok (some (.array (oldValue++objects)))
  | .add _, some _ => .error invalidAfterPrevious
  | .addUnique objects, none => .ok (some (.array objects))
  | .addUnique objects, some (.array oldValue) =>
    .ok (some (.array (addUniqueObjects E objects oldValue)))
  | .addUnique _, some _ => .error invalidAfterPrevious
  -- without a value, the array is that of the objects to remove
  | .remove objects, none => .ok (some (.array objects))
  | .remove objects, some (.array oldValue) =>
    .ok (some (.array (removeObjects E objects oldValue)))
  | .remove _, some _ => .error invalidAfterPrevious
  | .relation targetClass relationsToAdd relationsToRemove, none =>
    .ok (some (.relation targetClass ((∅∪relationsToAdd) \ relationsToRemove)))
  | .relation targetClass relationsToAdd relationsToRemove, some (.relation oldClass known) =>
    if targetClass ≠ none ∧ oldClass ≠ none ∧ oldClass ≠ targetClass then
      .error (wrongClass oldClass targetClass)
    else
      .ok (some (.relation (oldClass.or targetClass) ((known∪relationsToAdd) \ relationsToRemove)))
  | .relation .., some _ => .error invalidAfterPrevious

def mergeWithPrevious [Add ν] : FieldOperation ν α → Option (FieldOperation ν α) →
    Except NSException (FieldOperation ν α)
  | self, none => .ok self
  | .set value, some _ => .ok (.set value)
  | .delete, some _ => .ok .delete
  | .increment amount, some .delete => .ok (.set (.number amount))
  | .increment amount, some (.set (.number oldValue)) => .ok (.set (.number (amount+oldValue)))
  | .increment _, some (.set _) => .error nonNumber
  | .increment amount, some (.increment previous) => .ok (.increment (amount+previous))
  | .increment _, some _ => .error invalidAfterPrevious
  | .add objects, some .delete => .ok (.set (.array objects))
  | .add objects, some (.set (.array oldArray)) => .ok (.set (.array (oldArray++objects)))
  | .add _, some (.set _) => .error nonArray
  | .add objects, some (.add previous) => .ok (.add (previous++objects))
  | .add _, some _ => .error invalidAfterPrevious
  | .addUnique objects, some .delete => .ok (.set (.array objects))
  | .addUnique objects, some (.set (.array oldArray)) =>
    .ok (.set (.array (addUniqueObjects E objects oldArray)))
  | .addUnique _, some (.set _) => .error nonArray
  | .addUnique objects, some (.addUnique previous) =>
    .ok (addUniqueWithObjects E (addUniqueObjects E objects previous))
  | .addUnique _, some _ => .error invalidAfterPrevious
  | .remove _, some .delete =>
    .error (internalInconsistency "You can't remove items from a deleted array.")
  | .remove objects, some (.set (.array oldArray)) =>
    .ok (.set (.array (removeObjects E objects oldArray)))
  | .remove _, some (.set _) => .error nonArray
  | .remove objects, some (.remove previous) => .ok (.remove (previous++objects))
  | .remove _, some _ => .error invalidAfterPrevious
  | .relation .., some .delete =>
    .error (internalInconsistency "You can't modify a relation after deleting it")
  | .relation targetClass relationsToAdd relationsToRemove,
      some (.relation previousClass previousToAdd previousToRemove) =>
    if previousClass ≠ none ∧ previousClass ≠ targetClass then
      .error (wrongClass previousClass targetClass)
    else
      -- what is added is no longer to be removed, what is removed stays among the added
      .ok (.relation targetClass (previousToAdd∪relationsToAdd)
        ((previousToRemove \ relationsToAdd)∪relationsToRemove))
  | .relation .., some _ =>
    .error (internalInconsistency "Operation is invalid after previous operation")

def DistinctObjects : FieldOperation ν α → Prop
  | .addUnique objects => (objects.map (identity E)).Nodup
  | _ => True

instance decidableDistinctObjects (o : FieldOperation ν α) : Decidable (DistinctObjects E o) :=
  match o with
  | .addUnique objects => inferInstanceAs (Decidable (objects.map (identity E)).Nodup)
  | .set _ => isTrue trivial
  | .delete => isTrue trivial
  | .increment _ => isTrue trivial
  | .add _ => isTrue trivial
  | .remove _ => isTrue trivial
  | .relation _ _ _ => isTrue trivial

/-- The values of a field that differ at most in the order between different elements. -/
def AlikeValues : FieldValue ν α → FieldValue ν α → Prop
  | .array objects, .array objects' => Upserts.Similar (identity E) objects objects'
  | value, value' => value = value'

def Alike : Option (FieldValue ν α) → Option (FieldValue ν α) → Prop
  | some value, some value' => AlikeValues E value value'
  | none, none => True
  | _, _ => False

variable {E}

@[refl] theorem Alike.refl (v : Option (FieldValue ν α)) : Alike E v v := by
  cases v with
  | none => trivial
  | some value =>
    cases value with
    | array objects => exact Upserts.Similar.refl objects
    | number n => rfl
    | relation c known => rfl
    | other x => rfl

theorem alike_array {objects : List α} {v : Option (FieldValue ν α)} :
    Alike E (some (.array objects)) v ↔
      ∃ objects', v = some (.array objects') ∧ Upserts.Similar (identity E) objects objects' := by
  cases v with
  | none => simp [Alike]
  | some value =>
    cases value with
    | array objects' => simp [Alike,AlikeValues]
    | number n => simp [Alike,AlikeValues]
    | relation c known => simp [Alike,AlikeValues]
    | other x => simp [Alike,AlikeValues]

theorem alike_eq {v w : Option (FieldValue ν α)} (hv : ∀ objects, v ≠ some (.array objects)) :
    Alike E v w ↔ v = w := by
  cases v with
  | none =>
    cases w with
    | none => simp [Alike]
    | some value => simp [Alike]
  | some value =>
    cases w with
    | none => simp [Alike]
    | some value' =>
      cases value with
      | array objects => exact absurd rfl (hv objects)
      | number n => simp [Alike,AlikeValues]
      | relation c known => simp [Alike,AlikeValues]
      | other x => simp [Alike,AlikeValues]

theorem Alike.symm {v w : Option (FieldValue ν α)} (h : Alike E v w) : Alike E w v := by
  by_cases hv : ∃ objects, v = some (.array objects)
  · obtain ⟨objects,rfl⟩ := hv
    obtain ⟨objects',rfl,hsim⟩ := alike_array.mp h
    exact hsim.symm
  · obtain rfl := (alike_eq (fun objects hv' => hv ⟨objects,hv'⟩)).mp h
    exact h

theorem Alike.trans {u v w : Option (FieldValue ν α)} (h : Alike E u v) (h' : Alike E v w) :
    Alike E u w := by
  by_cases hu : ∃ objects, u = some (.array objects)
  · obtain ⟨objects,rfl⟩ := hu
    obtain ⟨objects',rfl,hsim⟩ := alike_array.mp h
    obtain ⟨objects'',rfl,hsim'⟩ := alike_array.mp h'
    exact hsim.trans hsim'
  · obtain rfl := (alike_eq (fun objects hu' => hu ⟨objects,hu'⟩)).mp h
    exact h'

/-- Where one operation for two does something else: a `Remove` is merged into the one before it
on a field without a value, or the sum of three numbers depends on the order of the additions. -/
def mergeDiffers [Add ν] [DecidableEq ν] :
    FieldOperation ν α → FieldOperation ν α → Option (FieldValue ν α) → Bool
  | .remove _, .remove objects, none => !objects.isEmpty
  | .increment previous, .increment amount, some (.number n) =>
    amount+previous+n ≠ amount+(previous+n)
  | _, _, _ => false

end Operations

end FieldOperation
end CourseraObjC
