import Mathlib.Data.Fintype.Card
import Mathlib.Data.List.FinRange
import CourseraObjC.FieldOperations

/-! Parse objects as a graph: what lies in the data of an object may be another object, may hold
others in arrays and dictionaries, and may ask for the current user. Saving some objects
collects the dirty ones among those that they reach, and saves these in waves. -/
namespace CourseraObjC

/-- A dictionary is given by its values, as nothing here looks at the keys within one. -/
inductive Value (O F : Type)
  | object (o : O)
  | file (f : F)
  | acl (hasUnresolvedUser : Bool)
  | array (values : List (Value O F))
  | dictionary (values : List (Value O F))
  | other

/-- What saving asks of a `PFObject`. -/
structure ObjectData (O F : Type) where
  objectId : Option String
  estimatedData : List (String × Value O F)
  complete : Bool
  availableKeys : Finset String
  deleted : Bool
  dirty : Bool
  hasChanges : Bool
  -- a mutable container of the data is no longer as it was last looked at
  changedInPlace : Bool

namespace ObjectData

variable {O F : Type}

def new (estimatedData : List (String × Value O F)) : ObjectData O F :=
  ⟨none,estimatedData,true,∅,false,true,false,false⟩

def fetched (objectId : String) (estimatedData : List (String × Value O F)) (hasChanges : Bool) :
    ObjectData O F :=
  ⟨some objectId,estimatedData,true,∅,false,false,hasChanges,false⟩

def withoutData (objectId : Option String) : ObjectData O F :=
  ⟨objectId,[],false,∅,false,false,false,false⟩

def dictionaryRepresentation (d : ObjectData O F) : Value O F :=
  .dictionary (d.estimatedData.map Prod.snd)

/-- A container that has been changed in place is set anew. -/
def checkForChangesToMutableContainers (d : ObjectData O F) : ObjectData O F :=
  if d.changedInPlace then {d with hasChanges := true,changedInPlace := false} else d

/-- The containers are taken as they are now. -/
def checkpointAllMutableContainers (d : ObjectData O F) : ObjectData O F :=
  {d with changedInPlace := false}

/-- What the object knows itself of being dirty. -/
def isMarked (d : ObjectData O F) : Bool := d.deleted || d.dirty || d.hasChanges

/-- `isDirty:` without the children. -/
def isDirty (d : ObjectData O F) : Bool := d.checkForChangesToMutableContainers.isMarked

/-- What is unsaved goes into a command, and a new set of changes begins. -/
def startSave (d : ObjectData O F) : ObjectData O F := {d with hasChanges := false}

def isDataAvailableForKey (d : ObjectData O F) (key : String) : Bool :=
  d.complete || key∈d.availableKeys

def hasUnresolvedUser (d : ObjectData O F) : Bool :=
  match d.estimatedData.lookup "ACL" with
  | some (.acl hasUnresolvedUser) => hasUnresolvedUser
  | _ => false

end ObjectData

structure ObjectGraph (O F : Type) where
  object : O → ObjectData O F
  url : F → Option String
  currentUser : Option O
  isLazy : Bool

/-- Why a search or a loop gives nothing: an exception, or no end. -/
inductive SearchHalt
  | raised (exception : NSException)
  | endless
  deriving DecidableEq

structure Collected (O F : Type) where
  children : Finset O
  files : Finset F

namespace ObjectGraph

variable {O F : Type} [DecidableEq O] (g : ObjectGraph O F)

def circularDependency : NSException :=
  FieldOperation.internalInconsistency "Found a circular dependency when saving."

def relationToCycle : NSException :=
  FieldOperation.internalInconsistency "Unable to save a PFObject with a relation to a cycle."

/-- The enumeration in `_areChildrenDirty:`, which stops at the first dirty child. -/
def anyChildDirty (visit : Finset O → O → Option (Bool × Finset O)) :
    List (String × Value O F) → Finset O → Option (Bool × Finset O)
  | [],seen => some (false,seen)
  | (_,.object child)::rest,seen =>
    match visit seen child with
    | none => none
    | some (true,seen) => some (true,seen)
    | some (false,seen) => anyChildDirty visit rest seen
  | _::rest,seen => anyChildDirty visit rest seen

/-- `_areChildrenDirty:` with the objects seen in the end; it goes at most `n` objects deep. Each
object that it sees takes its containers as they are before it tells whether it is dirty. -/
def areChildrenDirty (n : ℕ) (seen : Finset O) (o : O) : Option (Bool × Finset O) :=
  if o∈seen then some (false,seen)
  else if (g.object o).checkpointAllMutableContainers.isMarked then some (true,insert o seen)
  else
    match n with
    | 0 => none
    | n+1 => anyChildDirty (areChildrenDirty n) (g.object o).estimatedData (insert o seen)

def checkForChanges (o : O) : ObjectGraph O F :=
  {g with object := Function.update g.object o (g.object o).checkForChangesToMutableContainers}

def checkpoint (seen : Finset O) : ObjectGraph O F :=
  {g with object := fun o =>
    if o∈seen then (g.object o).checkpointAllMutableContainers else g.object o}

/-- `isDirty:` with the children, and what it leaves of what has been changed in place. -/
def isDirty [Fintype O] (o : O) : Option (Bool × ObjectGraph O F) :=
  let g := g.checkForChanges o
  if (g.object o).isMarked then some (true,g)
  else
    (g.areChildrenDirty (Fintype.card O) ∅ o).map fun answer => (answer.1,g.checkpoint answer.2)

def startSave (o : O) : ObjectGraph O F :=
  {g with object := Function.update g.object o (g.object o).startSave}

variable [DecidableEq F]

mutual

/-- `collectDirtyChildren:` with its branch for objects as `visit`. -/
def collectValue (visit : O → Collected O F → Except SearchHalt (Collected O F)) :
    Value O F → Collected O F → Except SearchHalt (Collected O F)
  | .object o,c => visit o c
  | .file f,c => .ok (if g.url f = none then {c with files := insert f c.files} else c)
  | .acl hasUnresolvedUser,c =>
    if hasUnresolvedUser then
      match g.currentUser with
      | none => .ok c
      | some user => visit user c
    else .ok c
  | .array values,c => collectValues visit values c
  | .dictionary values,c => collectValues visit values c
  | .other,c => .ok c

def collectValues (visit : O → Collected O F → Except SearchHalt (Collected O F)) :
    List (Value O F) → Collected O F → Except SearchHalt (Collected O F)
  | [],c => .ok c
  | value::values,c =>
    match collectValue visit value c with
    | .error halt => .error halt
    | .ok c => collectValues visit values c

end

/-- The branch of `collectDirtyChildren:` for objects; it goes at most `n` objects deep. -/
def visit (n : ℕ) (seen seenNew : Finset O) (o : O) (c : Collected O F) :
    Except SearchHalt (Collected O F) :=
  if (g.object o).objectId = none ∧ o∈seenNew then .error (.raised circularDependency)
  else if o∈seen then .ok c
  else
    match n with
    | 0 => .error .endless
    | n+1 =>
      let seenNew := if (g.object o).objectId = none then insert o seenNew else ∅
      match g.collectValue (visit n (insert o seen) seenNew)
          (g.object o).dictionaryRepresentation c with
      | .error halt => .error halt
      | .ok c => .ok (if (g.object o).isDirty then {c with children := insert o c.children} else c)

def collectDirtyChildren [Fintype O] (node : Value O F) : Except SearchHalt (Collected O F) :=
  g.collectValue (g.visit (Fintype.card O) ∅ ∅) node ⟨∅,∅⟩

mutual

def canBeSerializedAsValue (saved : List O) : Value O F → Bool
  | .object o => (g.object o).objectId.isSome || saved.contains o
  | .dictionary values => allCanBeSerialized saved values
  | .array values => allCanBeSerialized saved values
  | .file _ => true
  | .acl _ => true
  | .other => true

def allCanBeSerialized (saved : List O) : List (Value O F) → Bool
  | [] => true
  | value::values => canBeSerializedAsValue saved value && allCanBeSerialized saved values

end

def canBeSerializedAfterSaving (saved : List O) (o : O) : Bool :=
  g.canBeSerializedAsValue saved (g.object o).dictionaryRepresentation &&
    !((g.object o).isDataAvailableForKey "ACL" && (g.object o).hasUnresolvedUser &&
      !(g.currentUser.any fun user => saved.contains user))

/-- What `_deepSaveAsync:` sets going, one thing after the success of the other. -/
inductive SaveStep (O F : Type)
  | file (f : F)
  | lazyUser (user : O)
  | objects (current : List O)
  deriving DecidableEq

def SaveStep.saved : SaveStep O F → List O
  | .file _ => []
  | .lazyUser user => [user]
  | .objects current => current

def wave (current : List O) : List (SaveStep O F) :=
  match g.currentUser with
  | some user =>
    if g.isLazy ∧ user∈current then
      let current := current.filter fun o => o ≠ user
      if current = [] then [.lazyUser user] else [.lazyUser user,.objects current]
    else [.objects current]
  | none => [.objects current]

/-- The loop of `_deepSaveAsync:` and of `_enqueueSaveEventuallyChildrenOfObject:`. -/
def waves : ℕ → List O → List O → Except SearchHalt (List (SaveStep O F))
  | _,[],_ => .ok []
  | 0,_::_,_ => .error .endless
  | n+1,o::remaining,finished =>
    let current := (o::remaining).filter (g.canBeSerializedAfterSaving finished)
    let nextBatch := (o::remaining).filter fun o => !g.canBeSerializedAfterSaving finished o
    if current = [] then .error (.raised relationToCycle)
    else
      match waves n nextBatch (finished++(g.wave current).flatMap SaveStep.saved) with
      | .error halt => .error halt
      | .ok steps => .ok (g.wave current++steps)

end ObjectGraph

/-- The order in which `allObjects` and enumeration give the members of a set. -/
structure Enumeration (O : Type) where
  allObjects : Finset O → List O
  nodup : ∀ s,(allObjects s).Nodup
  mem : ∀ s o,o∈allObjects s ↔ o∈s

def Enumeration.ascending (n : ℕ) : Enumeration (Fin n) where
  allObjects s := (List.finRange n).filter fun o => o∈s
  nodup s := (List.nodup_finRange n).filter _
  mem s o := by simp

namespace ObjectGraph

variable {O F : Type} [DecidableEq O] [DecidableEq F] [Fintype O] (g : ObjectGraph O F)

def deepSave (objects : Enumeration O) (files : Enumeration F) (node : Value O F) :
    Except SearchHalt (List (SaveStep O F)) :=
  match g.collectDirtyChildren node with
  | .error halt => .error halt
  | .ok c =>
    let remaining := objects.allObjects c.children
    match g.waves remaining.length remaining [] with
    | .error halt => .error halt
    | .ok steps => .ok ((files.allObjects c.files).map .file++steps)

def unsavedFile : NSException :=
  FieldOperation.internalInconsistency
    "Unable to saveEventually a PFObject with a relation to a new, unsaved PFFile."

/-- `_enqueueSaveEventuallyChildrenOfObject:currentUser:`; each object of a step is then put into
the eventually queue. -/
def enqueueSaveEventuallyChildren (objects : Enumeration O) (files : Enumeration F) (o : O) :
    Except SearchHalt (List (SaveStep O F)) :=
  match g.collectDirtyChildren (.object o) with
  | .error halt => .error halt
  | .ok c =>
    if (files.allObjects c.files).any fun f => g.url f = none then .error (.raised unsavedFile)
    else
      let remaining := objects.allObjects (c.children.erase o)
      g.waves remaining.length remaining []

/-- `_enqueueSaveEventuallyWithChildren:`, which does nothing to an object that is not dirty. -/
def enqueueSaveEventuallyWithChildren (objects : Enumeration O) (files : Enumeration F) (o : O) :
    Except SearchHalt (List (SaveStep O F)) :=
  if (g.object o).isDirty then g.enqueueSaveEventuallyChildren objects files o else .ok []

end ObjectGraph

section Batches

variable {α : Type}

def subarrays (array : List α) (components : ℕ) : ℕ → ℕ → List (List α)
  | 0,_ => []
  | n+1,index =>
    if index < array.length then
      let length := min (array.length-index) components
      (array.drop index).take length::subarrays array components n (index+length)
    else []

def arrayBySplittingArray (array : List α) (components : ℕ) : List (List α) :=
  if array.length ≤ components then [array] else subarrays array components array.length 0

def subcommandsLimit : ℕ := 50

/-- `batchCommandWithCommands:sessionToken:`, as far as the assertion. -/
def batchCommand (commands : List α) : Except NSException (List α) :=
  if commands.length ≤ subcommandsLimit then .ok commands
  else
    .error (FieldOperation.invalidArgument
      "Max of 50 commands are allowed in a single batch command")

end Batches

/-- The batches of objects that a step puts into the queues. -/
def ObjectGraph.SaveStep.batches {O F : Type} : SaveStep O F → List (List O)
  | .file _ => []
  | .lazyUser _ => []
  | .objects current => arrayBySplittingArray current subcommandsLimit

end CourseraObjC
