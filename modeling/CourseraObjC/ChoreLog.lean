import CourseraObjC.ManagedContext

/-! CoreDataCoursera's managed objects: chores, persons and the log of who did which chore,
as the app delegate creates and saves them, and the pickers that hold some of them. A
managed object responds to the setters of its own entity only, and deleting it takes it
out of the log entries that refer to it. -/
namespace CourseraObjC
namespace CoreDataCoursera

abbrev NSDate := ℤ

inductive Entity
  | Chore | ChoreLog | Person
  deriving DecidableEq

structure ChoreMO where
  chore_name : Option String
  deriving DecidableEq

structure PersonMO where
  person_name : Option String
  deriving DecidableEq

structure ChoreLogMO where
  when : Option NSDate
  chore_done : Option ObjectID
  person_who_did_it : Option ObjectID
  deriving DecidableEq

inductive ManagedObject
  | chore (object : ChoreMO)
  | choreLog (object : ChoreLogMO)
  | person (object : PersonMO)
  deriving DecidableEq

namespace ManagedObject

def entity : ManagedObject → Entity
  | .chore _ => .Chore
  | .choreLog _ => .ChoreLog
  | .person _ => .Person

/-- A new object of an entity: every attribute is nil, as the data model has no defaults. -/
def new : Entity → ManagedObject
  | .Chore => .chore ⟨none⟩
  | .ChoreLog => .choreLog ⟨none,none,none⟩
  | .Person => .person ⟨none⟩

end ManagedObject

inductive Failure
  | abort | rangeException | unrecognizedSelector | unacceptableValue
  deriving DecidableEq

inductive Setter
  | setChore_name (chore_name : Option String)
  | setPerson_name (person_name : Option String)
  | setWhen (when : Option NSDate)
  | setChore_done (chore_done : Option ObjectID)
  | setPerson_who_did_it (person_who_did_it : Option ObjectID)

/-- A relationship takes objects of its destination entity. -/
def Setter.acceptable (c : Context ManagedObject) : Setter → Bool
  | .setChore_done chore => chore.all fun i => (c.object? i).map ManagedObject.entity = some .Chore
  | .setPerson_who_did_it person =>
    person.all fun i => (c.object? i).map ManagedObject.entity = some .Person
  | _ => true

def ManagedObject.performSelector : Setter → ManagedObject → Option ManagedObject
  | .setChore_name name, .chore _ => some (.chore ⟨name⟩)
  | .setPerson_name name, .person _ => some (.person ⟨name⟩)
  | .setWhen date, .choreLog log => some (.choreLog { log with when := date })
  | .setChore_done i, .choreLog log => some (.choreLog { log with chore_done := i })
  | .setPerson_who_did_it i, .choreLog log => some (.choreLog { log with person_who_did_it := i })
  | _, _ => none

def send (i : ObjectID) (setter : Setter) (c : Context ManagedObject) :
    Except Failure (Context ManagedObject) :=
  match c.object? i with
  | none => .ok c
  | some object =>
    match object.performSelector setter with
    | none => .error .unrecognizedSelector
    | some object' =>
      if setter.acceptable c then .ok (c.modify i fun _ => object') else .error .unacceptableValue

theorem ManagedObject.entity_performSelector {setter : Setter} {object object' : ManagedObject}
    (h : object.performSelector setter = some object') : object'.entity = object.entity := by
  cases setter <;> cases object <;> simp [performSelector] at h <;> rw [← h] <;> rfl

/-- A message to no object does nothing; a setter puts the changed object in place. -/
theorem send_cases {i : ObjectID} {setter : Setter} {c d : Context ManagedObject}
    (h : send i setter c = .ok d) : d = c ∨ ∃ object object', c.object? i = some object ∧
      object.performSelector setter = some object' ∧ d = c.modify i fun _ => object' := by
  unfold send at h
  cases hobject : c.object? i with
  | none =>
    simp only [hobject,Except.ok.injEq] at h
    exact .inl h.symm
  | some object =>
    cases hperform : object.performSelector setter with
    | none => simp [hobject,hperform] at h
    | some object' =>
      simp only [hobject,hperform] at h
      split_ifs at h with hacceptable
      exact .inr ⟨object,object',rfl,hperform,(Except.ok.inj h).symm⟩

theorem send_entity {i : ObjectID} {setter : Setter} {c d : Context ManagedObject}
    (h : send i setter c = .ok d) (j : ObjectID) :
    (d.object? j).map ManagedObject.entity = (c.object? j).map ManagedObject.entity := by
  rcases send_cases h with rfl | ⟨object,object',hobject,hperform,rfl⟩
  · rfl
  · rw [Context.object?_modify]
    by_cases hj : j = i
    · simp [hj,hobject,ManagedObject.entity_performSelector hperform]
    · rw [if_neg hj]

theorem send_object?_of_ne {i j : ObjectID} {setter : Setter} {c d : Context ManagedObject}
    (h : send i setter c = .ok d) (hj : j ≠ i) : d.object? j = c.object? j := by
  rcases send_cases h with rfl | ⟨_,object',_,_,rfl⟩
  · rfl
  · rw [Context.object?_modify,if_neg hj]

/-! ### The app delegate -/

def insertNewObjectForEntity (entity : Entity) (c : Context ManagedObject) :
    ObjectID × Context ManagedObject := (c.next,c.insertNewObject (.new entity))

def createChoreMO := insertNewObjectForEntity .Chore
def createChoreLogMO := insertNewObjectForEntity .ChoreLog
def createPersonMO := insertNewObjectForEntity .Person

/-- What Core Data answers during one action: the order of fetched objects, and whether
fetches and saves succeed. -/
structure CoreData where
  order : FetchOrder (ObjectID × ManagedObject)
  fetches : Bool
  saves : Bool

/-- Every attribute is optional, so a save fails only below the context. -/
def saveContext (env : CoreData) (c : Context ManagedObject) :
    Except Failure (Context ManagedObject) :=
  if c.hasChanges then
    match c.save (fun _ => true) env.saves with
    | some d => .ok d
    | none => .error .abort
  else .ok c

def executeFetchRequest (env : CoreData) (entity : Entity) (c : Context ManagedObject) :
    Except Failure (List (ObjectID × ManagedObject)) :=
  if env.fetches then .ok (c.executeFetchRequest env.order fun object => object.entity = entity)
  else .error .abort

theorem saveContext_object? {env : CoreData} {c d : Context ManagedObject}
    (h : saveContext env c = .ok d) (i : ObjectID) : d.object? i = c.object? i := by
  unfold saveContext at h
  split_ifs at h with hchanges
  · cases hsave : c.save (fun _ => true) env.saves with
    | none => simp [hsave] at h
    | some e =>
      simp only [hsave,Except.ok.injEq] at h
      obtain ⟨_,_,hcommitted⟩ := Context.save_eq_some.mp hsave
      rw [← h,hcommitted,Context.object?_committed]
  · rw [Except.ok.inj h]

theorem mem_executeFetchRequest {env : CoreData} {entity : Entity} {c : Context ManagedObject}
    {results : List (ObjectID × ManagedObject)} (h : executeFetchRequest env entity c = .ok results)
    {i : ObjectID} {object : ManagedObject} :
    (i,object) ∈ results ↔ c.object? i = some object ∧ object.entity = entity := by
  unfold executeFetchRequest at h
  split_ifs at h
  rw [← Except.ok.inj h,Context.mem_executeFetchRequest,decide_eq_true_eq]

theorem fetched_nodup {env : CoreData} {entity : Entity} {c : Context ManagedObject}
    {results : List (ObjectID × ManagedObject)} (h : executeFetchRequest env entity c = .ok results) :
    (results.map Prod.fst).Nodup := by
  unfold executeFetchRequest at h
  split_ifs at h
  rw [← Except.ok.inj h]
  exact c.nodup_executeFetchRequest _ _

theorem mem_fetched {env : CoreData} {entity : Entity} {c : Context ManagedObject}
    {results : List (ObjectID × ManagedObject)} (h : executeFetchRequest env entity c = .ok results)
    {i : ObjectID} :
    i ∈ results.map Prod.fst ↔ (c.object? i).map ManagedObject.entity = some entity := by
  simp only [List.mem_map,Prod.exists,exists_and_right,exists_eq_right,
    mem_executeFetchRequest h,Option.map_eq_some_iff]

/-! ### Deleting -/

def ChoreLogMO.nullify (i : ObjectID) (log : ChoreLogMO) : ChoreLogMO :=
  { log with
    chore_done := log.chore_done.filter (· ≠ i)
    person_who_did_it := log.person_who_did_it.filter (· ≠ i) }

def ManagedObject.nullify (i : ObjectID) : ManagedObject → ManagedObject
  | .choreLog log => .choreLog (log.nullify i)
  | object => object

def ManagedObject.refersTo (i : ObjectID) : ManagedObject → Bool
  | .choreLog log => log.chore_done = some i ∨ log.person_who_did_it = some i
  | _ => false

/-- The deletion rule of every relationship is to nullify its inverse. -/
def deleteObject (i : ObjectID) (c : Context ManagedObject) : Context ManagedObject :=
  (((c.objects.filter fun x => x.2.refersTo i).map Prod.fst).foldl
    (fun c j => c.modify j (ManagedObject.nullify i)) c).deleteObject i

@[simp] theorem ManagedObject.entity_nullify (i : ObjectID) (object : ManagedObject) :
    (object.nullify i).entity = object.entity := by
  cases object <;> rfl

theorem ManagedObject.nullify_of_not_refersTo {i : ObjectID} {object : ManagedObject}
    (h : object.refersTo i = false) : object.nullify i = object := by
  cases object with
  | chore object => rfl
  | person object => rfl
  | choreLog log =>
    obtain ⟨hchore,hperson⟩ : log.chore_done ≠ some i ∧ log.person_who_did_it ≠ some i := by
      simpa [refersTo] using h
    have hkeep {r : Option ObjectID} (hr : r ≠ some i) : r.filter (· ≠ i) = r := by
      cases r with
      | none => rfl
      | some j => simpa [Option.filter] using fun hj => hr (by rw [hj])
    simp only [ManagedObject.nullify,ChoreLogMO.nullify,hkeep hchore,hkeep hperson]

theorem object?_nullifyAll (i : ObjectID) (referring : List ObjectID) (hnodup : referring.Nodup)
    (c : Context ManagedObject) (j : ObjectID) :
    (referring.foldl (fun c k => c.modify k (ManagedObject.nullify i)) c).object? j =
      if j ∈ referring then (c.object? j).map (ManagedObject.nullify i) else c.object? j := by
  induction referring generalizing c with
  | nil => rfl
  | cons k referring ih =>
    obtain ⟨hk,hnodup⟩ := List.nodup_cons.mp hnodup
    rw [List.foldl_cons,ih hnodup,Context.object?_modify]
    by_cases hj : j = k
    · rw [hj,if_neg hk,if_pos rfl,if_pos (by simp)]
    · simp only [List.mem_cons,hj,false_or,if_false]

theorem object?_deleteObject (i : ObjectID) (c : Context ManagedObject) (j : ObjectID) :
    (deleteObject i c).object? j =
      if j = i then none else (c.object? j).map (ManagedObject.nullify i) := by
  have hnodup : ((c.objects.filter fun x => x.2.refersTo i).map Prod.fst).Nodup :=
    c.nodup_executeFetchRequest ⟨id,List.Perm.refl⟩ (ManagedObject.refersTo i)
  rw [deleteObject,Context.object?_deleteObject,object?_nullifyAll i _ hnodup]
  by_cases hj : j = i
  · rw [if_pos hj,if_pos hj]
  rw [if_neg hj,if_neg hj]
  cases hobject : c.object? j with
  | none => simp
  | some object =>
    by_cases hrefers : object.refersTo i = true
    · rw [if_pos]
      exact List.mem_map.mpr ⟨(j,object),List.mem_filter.mpr
        ⟨Context.mem_objects.mpr hobject,hrefers⟩,rfl⟩
    · rw [Option.map_some,ManagedObject.nullify_of_not_refersTo (by simpa using hrefers),ite_self]

def deleteAll (results : List (ObjectID × ManagedObject)) (c : Context ManagedObject) :
    Context ManagedObject := results.foldl (fun c x => deleteObject x.1 c) c

theorem entity_deleteAll (results : List (ObjectID × ManagedObject)) (c : Context ManagedObject)
    (j : ObjectID) : ((deleteAll results c).object? j).map ManagedObject.entity =
      if j ∈ results.map Prod.fst then none else (c.object? j).map ManagedObject.entity := by
  induction results generalizing c with
  | nil => rfl
  | cons x results ih =>
    rw [deleteAll,List.foldl_cons,← deleteAll,ih,object?_deleteObject]
    have hentity : ManagedObject.entity ∘ ManagedObject.nullify x.1 = ManagedObject.entity := by
      funext object
      exact ManagedObject.entity_nullify x.1 object
    by_cases hj : j = x.1
    · simp [hj]
    · simp only [List.map_cons,List.mem_cons,hj,false_or,if_false,Option.map_map,hentity]

/-! ### Pickers -/

structure PickerViewHelper where
  pickerData : List ObjectID
  deriving DecidableEq

namespace PickerViewHelper

def setArray (incoming : List ObjectID) (_ : PickerViewHelper) : PickerViewHelper := ⟨incoming⟩

def numberOfRowsInComponent (h : PickerViewHelper) : ℕ := h.pickerData.length

/-- The row is an `NSInteger` where it comes from and an `NSUInteger` where it is used. -/
def getItemFromArray (row : ℤ) (h : PickerViewHelper) : Except Failure ObjectID :=
  match h.pickerData[(row % UInt64.size).toNat]? with
  | none => .error .rangeException
  | some i => .ok i

def Holds (entity : Entity) (c : Context ManagedObject) (h : PickerViewHelper) : Prop :=
  h.pickerData.Nodup ∧
    ∀ i, i ∈ h.pickerData ↔ (c.object? i).map ManagedObject.entity = some entity

theorem holds_fetched {env : CoreData} {entity : Entity} {c : Context ManagedObject}
    {results : List (ObjectID × ManagedObject)} (h : executeFetchRequest env entity c = .ok results)
    (helper : PickerViewHelper) : Holds entity c (helper.setArray (results.map Prod.fst)) :=
  ⟨fetched_nodup h,fun _ => mem_fetched h⟩

end PickerViewHelper

end CoreDataCoursera
end CourseraObjC
