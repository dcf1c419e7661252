import CourseraObjC.ParseObject

/-! Runs of a `PFObject`: edits, saves that the task queue lets run one at a time, its own ones and
those of batches, the answers of the server, fetches and reverts, in any order. -/
namespace CourseraObjC

inductive ObjectEvent (ν α : Type)
  | performOperation (operation : FieldOperation ν α) (key : String)
  | removeObjectForKey (key : String)
  -- the turn of a save has come; some object reached from this one may be dirty
  | saveAsync (childrenDirty : Bool)
  -- the turn of a batch of saves has come, the object's with it
  | saveInBatch
  -- the command of the save has been answered, or has failed
  | handleSaveResult (result : Option (FieldData ν α))
  | mergeAfterFetch (result : FieldData ν α) (completeData : Bool)
  | revert (childrenDirty : Bool)
  | revertObjectForKey (key : String)

/-- Why a step does not come to its end: an exception, a block that the task queue still
holds back, or an answer to no command. -/
inductive Halt
  | raised (exception : NSException)
  | heldBack
  | noCommand
  deriving DecidableEq

/-- An object with the changes in the command that has not been answered, and those of the
commands that the server has answered with a result, oldest first. -/
structure SaveSession (ν α : Type) where
  object : ParseObject ν α
  command : Option (OperationSet ν α)
  accepted : List (OperationSet ν α)

namespace SaveSession

section Blocks

variable {ν α : Type} {s t : SaveSession ν α}

def initial (complete : Bool) : SaveSession ν α := ⟨.initial complete,none,[]⟩

/-- Where neither the object nor its changes ask for a command, only the children are saved. -/
def savesChildrenOnly (o : ParseObject ν α) (childrenDirty : Bool) : Bool :=
  o.isDirty childrenDirty && !o.dirty && !o.hasChanges

def saveAsync (s : SaveSession ν α) (childrenDirty : Bool) : Except Halt (SaveSession ν α) :=
  if s.command.isSome then .error .heldBack
  else if !s.object.isDirty childrenDirty then .ok s
  else
    let changes := s.object.unsavedChanges
    if savesChildrenOnly s.object childrenDirty then .ok {s with object := s.object.startSave}
    else .ok {s with object := s.object.startSave,command := some changes}

/-- A batch saves each of its objects, whether it is dirty or not. -/
def saveInBatch (s : SaveSession ν α) : Except Halt (SaveSession ν α) :=
  if s.command.isSome then .error .heldBack
  else .ok {s with object := s.object.startSave,command := some s.object.unsavedChanges}

def withObject (s : SaveSession ν α) (x : Except NSException (ParseObject ν α)) :
    Except Halt (SaveSession ν α) :=
  match x with
  | .error exception => .error (.raised exception)
  | .ok object => .ok {s with object := object}

theorem withObject_eq_ok {x : Except NSException (ParseObject ν α)} :
    s.withObject x = .ok t ↔ ∃ object, x = .ok object ∧ t = {s with object := object} := by
  cases x with
  | error exception => simp [withObject]
  | ok object => simp [withObject,eq_comm]

/-- A save does nothing, or begins; its command is sent unless only children are saved. -/
theorem saveAsync_cases {childrenDirty : Bool} (h : s.saveAsync childrenDirty = .ok t) :
    s.command = none ∧ ((s.object.isDirty childrenDirty = false ∧ t = s) ∨
      (savesChildrenOnly s.object childrenDirty = true ∧
        t = {s with object := s.object.startSave}) ∨
      (savesChildrenOnly s.object childrenDirty = false ∧ s.object.isDirty childrenDirty = true ∧
        t = {s with object := s.object.startSave,command := some s.object.unsavedChanges})) := by
  rw [saveAsync] at h
  split_ifs at h with hcommand hdirty honly
  · exact ⟨by simpa using hcommand,Or.inl ⟨by simpa using hdirty,(Except.ok.inj h).symm⟩⟩
  · exact ⟨by simpa using hcommand,Or.inr (Or.inl ⟨honly,(Except.ok.inj h).symm⟩)⟩
  · exact ⟨by simpa using hcommand,Or.inr (Or.inr ⟨by simpa using honly,by simpa using hdirty,
      (Except.ok.inj h).symm⟩)⟩

theorem saveInBatch_eq_ok : s.saveInBatch = .ok t ↔ s.command = none ∧
    t = {s with object := s.object.startSave,command := some s.object.unsavedChanges} := by
  rw [saveInBatch]
  cases s.command with
  | none => simp [eq_comm]
  | some changes => simp

end Blocks

variable {ν α : Type} [DecidableEq α] [Add ν] (E : Elements α)

def handleSaveResult (s : SaveSession ν α) (result : Option (FieldData ν α)) :
    Except Halt (SaveSession ν α) :=
  match s.command with
  | none => .error .noCommand
  | some changes =>
    match s.object.mergeAfterSaveWithResult E result with
    | .error exception => .error (.raised exception)
    | .ok object =>
      .ok ⟨object,none,if result.isSome then s.accepted++[changes] else s.accepted⟩

def step (s : SaveSession ν α) : ObjectEvent ν α → Except Halt (SaveSession ν α)
  | .performOperation operation key => s.withObject (s.object.performOperation E operation key)
  | .removeObjectForKey key => s.withObject (s.object.removeObjectForKey E key)
  | .saveAsync childrenDirty => s.saveAsync childrenDirty
  | .saveInBatch => s.saveInBatch
  | .handleSaveResult result => s.handleSaveResult E result
  | .mergeAfterFetch result completeData =>
    s.withObject (s.object.mergeAfterFetchWithResult E result completeData)
  | .revert childrenDirty => s.withObject (s.object.revert E childrenDirty)
  | .revertObjectForKey key => s.withObject (s.object.revertObjectForKey E key)

variable {E}

/-- The edits hold no `AddUnique` of two instances of one saved object. -/
def DistinctEdit (E : Elements α) : ObjectEvent ν α → Prop
  | .performOperation operation _ => FieldOperation.DistinctObjects E operation
  | _ => True

instance decidableDistinctEdit (e : ObjectEvent ν α) : Decidable (DistinctEdit E e) :=
  match e with
  | .performOperation operation _ => FieldOperation.decidableDistinctObjects E operation
  | .removeObjectForKey _ => isTrue trivial
  | .saveAsync _ => isTrue trivial
  | .saveInBatch => isTrue trivial
  | .handleSaveResult _ => isTrue trivial
  | .mergeAfterFetch _ _ => isTrue trivial
  | .revert _ => isTrue trivial
  | .revertObjectForKey _ => isTrue trivial

theorem handleSaveResult_cases {s t : SaveSession ν α} {result : Option (FieldData ν α)}
    (h : s.handleSaveResult E result = .ok t) :
    ∃ changes object, s.command = some changes ∧
      s.object.mergeAfterSaveWithResult E result = .ok object ∧
      t = ⟨object,none,if result.isSome then s.accepted++[changes] else s.accepted⟩ := by
  rw [handleSaveResult] at h
  cases hcommand : s.command with
  | none => simp [hcommand] at h
  | some changes =>
    cases hmerge : s.object.mergeAfterSaveWithResult E result with
    | error exception => simp [hcommand,hmerge] at h
    | ok object =>
      simp only [hcommand,hmerge] at h
      exact ⟨changes,object,rfl,rfl,(Except.ok.inj h).symm⟩

end SaveSession
end CourseraObjC
