import CourseraObjC.KeyedUpdates
import CourseraObjC.FieldOperations
import Mathlib.Data.Finset.Lattice.Basic

/-! A `PFObject` between the server and its user: the data the server is known to have, the
operations that were made on it since, in the sets that are saved with one command each, and
the data with the operations applied, which is what the user reads. -/
namespace CourseraObjC

abbrev FieldData (ν α : Type) := Dictionary String (FieldValue ν α)

abbrev OperationSet (ν α : Type) := Dictionary String (FieldOperation ν α)

section OperationSets

variable {ν α : Type} [DecidableEq α] [Add ν] (E : Elements α)

/-- What becomes of an operation of this set where the other set has one on the same key. -/
def mergeRemoteOperation (remoteOperation : FieldOperation ν α) :
    Option (FieldOperation ν α) → Except NSException (Option (FieldOperation ν α))
  | some localOperation => do
    return some (← localOperation.mergeWithPrevious E (some remoteOperation))
  | none => .ok (some remoteOperation)

def OperationSet.mergeOperationSet (self other : OperationSet ν α) :
    Except NSException (OperationSet ν α) :=
  Dictionary.rewrite (mergeRemoteOperation E) other self

def applyOperationSet (operationSet : OperationSet ν α) (dictionary : FieldData ν α) :
    Except NSException (FieldData ν α) :=
  Dictionary.rewrite (FieldOperation.applyToValue E) operationSet dictionary

def estimatedDataFromServerData (serverData : FieldData ν α)
    (operationSetQueue : List (OperationSet ν α)) : Except NSException (FieldData ν α) :=
  operationSetQueue.foldlM (fun dataDictionary operationSet =>
    applyOperationSet E operationSet dataDictionary) serverData

end OperationSets

section AgreeingData

variable {ν α : Type} [DecidableEq α] {E : Elements α} {d d' r : FieldData ν α}

/-- Dictionaries whose fields differ at most in the order between different elements. -/
def AgreeingData (E : Elements α) (d d' : FieldData ν α) : Prop :=
  ∀ key, FieldOperation.Alike E (d.lookup key) (d'.lookup key)

@[refl] theorem AgreeingData.refl (d : FieldData ν α) : AgreeingData E d d :=
  fun key => FieldOperation.Alike.refl (d.lookup key)

theorem AgreeingData.symm (h : AgreeingData E d d') : AgreeingData E d' d :=
  fun key => (h key).symm

theorem AgreeingData.trans (h : AgreeingData E d d') (h' : AgreeingData E d' r) :
    AgreeingData E d r := fun key => (h key).trans (h' key)

end AgreeingData

/-- The operation set queue is never empty: its last set takes the unsaved changes, those
before it belong to saves that have begun. -/
structure ParseObject (ν α : Type) where
  serverData : FieldData ν α
  earlierSets : List (OperationSet ν α)
  unsavedChanges : OperationSet ν α
  estimatedData : FieldData ν α
  dirty : Bool
  deleted : Bool
  complete : Bool
  availableKeys : Finset String

namespace ParseObject

variable {ν α : Type} [DecidableEq α] [Add ν] (E : Elements α)

def operationSetQueue (o : ParseObject ν α) : List (OperationSet ν α) :=
  o.earlierSets++[o.unsavedChanges]

/-- A new object is complete and dirty, one that is only known by its id is neither. -/
def initial (complete : Bool) : ParseObject ν α :=
  ⟨∅,[],∅,∅,complete,false,complete,∅⟩

def isDataAvailableForKey (o : ParseObject ν α) (key : String) : Bool :=
  o.complete || key ∈ o.availableKeys

def hasChanges (o : ParseObject ν α) : Bool := !o.unsavedChanges.entries.isEmpty

/-- `childrenDirty` is what the objects that are reached from this one answer. -/
def isDirty (o : ParseObject ν α) (childrenDirty : Bool) : Bool :=
  o.deleted || o.dirty || o.hasChanges || childrenDirty

omit [DecidableEq α] [Add ν] in
theorem unsavedChanges_of_clean {o : ParseObject ν α} {childrenDirty : Bool}
    (h : o.isDirty childrenDirty = false) : o.unsavedChanges = ∅ := by
  simp only [isDirty,hasChanges,Bool.or_eq_false_iff,Bool.not_eq_false',List.isEmpty_iff] at h
  exact AList.ext h.1.2

def performOperation (o : ParseObject ν α) (operation : FieldOperation ν α) (key : String) :
    Except NSException (ParseObject ν α) := do
  let newValue ← operation.applyToValue E (o.estimatedData.lookup key)
  let newOperation ← operation.mergeWithPrevious E (o.unsavedChanges.lookup key)
  return {o with
    estimatedData := o.estimatedData.put key newValue
    unsavedChanges := o.unsavedChanges.insert key newOperation
    availableKeys := insert key o.availableKeys}

def noData (key : String) : NSException :=
  FieldOperation.internalInconsistency
    ("Key \""++key++"\" has no data.  Call fetchIfNeeded before getting its value.")

def objectForKey (o : ParseObject ν α) (key : String) :
    Except NSException (Option (FieldValue ν α)) :=
  if o.isDataAvailableForKey key then .ok (o.estimatedData.lookup key) else .error (noData key)

def removeObjectForKey (o : ParseObject ν α) (key : String) :
    Except NSException (ParseObject ν α) := do
  if (← o.objectForKey key).isSome then o.performOperation E .delete key else .ok o

def rebuildEstimatedData (o : ParseObject ν α) : Except NSException (ParseObject ν α) := do
  return {o with
    estimatedData := ← estimatedDataFromServerData E o.serverData o.operationSetQueue}

def mergeFromServerWithResult (o : ParseObject ν α) (result : FieldData ν α)
    (completeData : Bool) : ParseObject ν α :=
  {o with
    serverData := result∪o.serverData
    complete := o.complete || completeData
    availableKeys := o.availableKeys∪result.keys.toFinset
    dirty := false}

def removeOldKeysAfterFetch (o : ParseObject ν α) (result : FieldData ν α) :
    ParseObject ν α :=
  let removedKeys := o.serverData.keys.filter (· ∉ result)
  {o with
    serverData := removedKeys.foldl (fun data key => data.erase key) o.serverData
    availableKeys := o.availableKeys \ removedKeys.toFinset}

def mergeAfterFetchWithResult (o : ParseObject ν α) (result : FieldData ν α)
    (completeData : Bool) : Except NSException (ParseObject ν α) :=
  let merged := o.mergeFromServerWithResult result completeData
  rebuildEstimatedData E (if completeData then merged.removeOldKeysAfterFetch result else merged)

def emptyQueue : NSException :=
  ⟨"NSRangeException","*** -[__NSArrayM objectAtIndex:]: index 0 beyond bounds for empty array"⟩

/-- Takes the first set off the queue. After a failed save, the set that is first then gets
its operations; else the server data does, and the server's answer. -/
def mergeAfterSaveWithResult (o : ParseObject ν α) (result : Option (FieldData ν α)) :
    Except NSException (ParseObject ν α) :=
  match o.earlierSets with
  | [] => .error emptyQueue
  | operationsBeforeSave::rest =>
    match result with
    | some result => do
      let serverData ← applyOperationSet E operationsBeforeSave o.serverData
      rebuildEstimatedData E
        (({o with earlierSets := rest,serverData := serverData} : ParseObject ν α)
          |>.mergeFromServerWithResult result false)
    | none =>
      match rest with
      | [] => do
        let operationsForNextSave ← o.unsavedChanges.mergeOperationSet E operationsBeforeSave
        return {o with earlierSets := [],unsavedChanges := operationsForNextSave}
      | next::rest => do
        let operationsForNextSave ← OperationSet.mergeOperationSet E next operationsBeforeSave
        return {o with earlierSets := operationsForNextSave::rest}

def revert (o : ParseObject ν α) (childrenDirty : Bool) :
    Except NSException (ParseObject ν α) :=
  if o.isDirty childrenDirty then
    let persistentKeys :=
      o.earlierSets.foldl (fun keys operationSet => keys∪operationSet.keys.toFinset)
        o.serverData.keys.toFinset
    rebuildEstimatedData E {o with
      unsavedChanges := ∅
      availableKeys := o.availableKeys∩persistentKeys}
  else
    .ok o

def revertObjectForKey (o : ParseObject ν α) (key : String) :
    Except NSException (ParseObject ν α) :=
  if (o.unsavedChanges.lookup key).isSome then do
    let rebuilt ← rebuildEstimatedData E {o with unsavedChanges := o.unsavedChanges.erase key}
    return {rebuilt with availableKeys := rebuilt.availableKeys.erase key}
  else
    .ok o

def startSave (o : ParseObject ν α) : ParseObject ν α :=
  {o with earlierSets := o.earlierSets++[o.unsavedChanges],unsavedChanges := ∅}

section Specifications

variable {E : Elements α} {o o' : ParseObject ν α}

theorem performOperation_eq_ok {operation : FieldOperation ν α}
    {key : String} :
    o.performOperation E operation key = .ok o' ↔
      ∃ v m, operation.applyToValue E (o.estimatedData.lookup key) = .ok v ∧
        operation.mergeWithPrevious E (o.unsavedChanges.lookup key) = .ok m ∧
        o' = {o with
          estimatedData := o.estimatedData.put key v
          unsavedChanges := o.unsavedChanges.insert key m
          availableKeys := insert key o.availableKeys} := by
  simp only [performOperation,Runs.bind_eq_ok]
  constructor
  · rintro ⟨v,hv,m,hm,hok⟩
    exact ⟨v,m,hv,hm,(Except.ok.inj hok).symm⟩
  · rintro ⟨v,m,hv,hm,rfl⟩
    exact ⟨v,hv,m,hm,rfl⟩

theorem rebuildEstimatedData_eq_ok :
    o.rebuildEstimatedData E = .ok o' ↔
      ∃ d, estimatedDataFromServerData E o.serverData o.operationSetQueue = .ok d ∧
        o' = {o with estimatedData := d} := by
  rw [rebuildEstimatedData,Runs.bind_eq_ok]
  constructor
  · rintro ⟨d,hd,hok⟩
    exact ⟨d,hd,(Except.ok.inj hok).symm⟩
  · rintro ⟨d,hd,rfl⟩
    exact ⟨d,hd,rfl⟩

theorem rebuilt_queue (h : o.rebuildEstimatedData E = .ok o') :
    o'.operationSetQueue = o.operationSetQueue := by
  obtain ⟨d,_,rfl⟩ := rebuildEstimatedData_eq_ok.mp h
  rfl

theorem removeObjectForKey_cases {key : String} (h : o.removeObjectForKey E key = .ok o') :
    (o.estimatedData.lookup key = none ∧ o' = o) ∨
      ((o.estimatedData.lookup key).isSome ∧ o.performOperation E .delete key = .ok o') := by
  obtain ⟨v,hv,hrest⟩ := Runs.bind_eq_ok.mp h
  rw [objectForKey] at hv
  split_ifs at hv with havailable
  obtain rfl := Except.ok.inj hv
  split_ifs at hrest with hsome
  · exact Or.inr ⟨hsome,hrest⟩
  · exact Or.inl ⟨by simpa using hsome,(Except.ok.inj hrest).symm⟩

theorem mergeAfterSave_cases {result : Option (FieldData ν α)}
    (h : o.mergeAfterSaveWithResult E result = .ok o') :
    ∃ before rest, o.earlierSets = before::rest ∧
      ((∃ answer data, result = some answer ∧
          applyOperationSet E before o.serverData = .ok data ∧
          rebuildEstimatedData E (mergeFromServerWithResult
            {o with earlierSets := rest,serverData := data} answer false) = .ok o') ∨
        (result = none ∧ rest = [] ∧
          ∃ merged, o.unsavedChanges.mergeOperationSet E before = .ok merged ∧
            o' = {o with earlierSets := [],unsavedChanges := merged}) ∨
        ∃ next tail merged, result = none ∧ rest = next::tail ∧
          next.mergeOperationSet E before = .ok merged ∧
          o' = {o with earlierSets := merged::tail}) := by
  rw [mergeAfterSaveWithResult] at h
  cases hsets : o.earlierSets with
  | nil => simp [hsets] at h
  | cons before rest =>
    rw [hsets] at h
    refine ⟨before,rest,rfl,?_⟩
    cases result with
    | some answer =>
      obtain ⟨data,hdata,hrebuilt⟩ := Runs.bind_eq_ok.mp h
      exact Or.inl ⟨answer,data,rfl,hdata,hrebuilt⟩
    | none =>
      cases rest with
      | nil =>
        obtain ⟨merged,hm,hok⟩ := Runs.bind_eq_ok.mp h
        exact Or.inr (Or.inl ⟨rfl,rfl,merged,hm,(Except.ok.inj hok).symm⟩)
      | cons next tail =>
        obtain ⟨merged,hm,hok⟩ := Runs.bind_eq_ok.mp h
        exact Or.inr (Or.inr ⟨next,tail,merged,rfl,rfl,hm,(Except.ok.inj hok).symm⟩)

theorem mergeAfterFetch_cases {result : FieldData ν α} {complete : Bool}
    (h : o.mergeAfterFetchWithResult E result complete = .ok o') :
    ∃ merged : ParseObject ν α, merged.earlierSets = o.earlierSets ∧
      merged.unsavedChanges = o.unsavedChanges ∧ merged.rebuildEstimatedData E = .ok o' := by
  cases complete with
  | false => exact ⟨o.mergeFromServerWithResult result false,rfl,rfl,h⟩
  | true =>
    exact ⟨(o.mergeFromServerWithResult result true).removeOldKeysAfterFetch result,rfl,rfl,h⟩

theorem revert_cases {childrenDirty : Bool} (h : o.revert E childrenDirty = .ok o') :
    (o.isDirty childrenDirty = false ∧ o' = o) ∨
      ∃ d, o' = {o with
        unsavedChanges := ∅
        estimatedData := d
        availableKeys := o.availableKeys∩
          o.earlierSets.foldl (fun keys operationSet => keys∪operationSet.keys.toFinset)
            o.serverData.keys.toFinset} ∧
        estimatedDataFromServerData E o.serverData (o.earlierSets++[∅]) = .ok d := by
  rw [revert] at h
  split_ifs at h with hdirty
  · obtain ⟨d,hd,rfl⟩ := rebuildEstimatedData_eq_ok.mp h
    exact Or.inr ⟨d,rfl,hd⟩
  · exact Or.inl ⟨by simpa using hdirty,(Except.ok.inj h).symm⟩

theorem revertObjectForKey_cases {key : String}
    (h : o.revertObjectForKey E key = .ok o') :
    (o.unsavedChanges.lookup key = none ∧ o' = o) ∨
      (o.unsavedChanges.lookup key ≠ none ∧
        ∃ d, o' = {o with
          unsavedChanges := o.unsavedChanges.erase key
          estimatedData := d
          availableKeys := o.availableKeys.erase key} ∧
          estimatedDataFromServerData E o.serverData
            (o.earlierSets++[o.unsavedChanges.erase key]) = .ok d) := by
  rw [revertObjectForKey] at h
  split_ifs at h with hdirty
  · obtain ⟨rebuilt,hrebuilt,hok⟩ := Runs.bind_eq_ok.mp h
    obtain ⟨d,hd,rfl⟩ := rebuildEstimatedData_eq_ok.mp hrebuilt
    exact Or.inr ⟨Option.isSome_iff_ne_none.mp hdirty,d,(Except.ok.inj hok).symm,hd⟩
  · exact Or.inl ⟨by simpa using hdirty,(Except.ok.inj h).symm⟩

end Specifications

end ParseObject
end CourseraObjC
