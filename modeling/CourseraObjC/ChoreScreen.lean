import CourseraObjC.ChoreLog
import CourseraObjC.Runs

/-! CoreDataCoursera's only screen. Its two pickers and its label are copies of what the
context held when they were last filled; every action of the screen changes the context
and fills some of them again. -/
namespace CourseraObjC
namespace CoreDataCoursera

open Runs

/-- `context` is that of the app delegate. -/
structure ViewController where
  context : Context ManagedObject
  choreRollerHelper : PickerViewHelper
  personRollerHelper : PickerViewHelper
  persistedData : String

/-- The `description` of a date and of a managed object, or of nil. -/
structure Describe where
  date : Option NSDate → String
  object : Option (ObjectID × Option ManagedObject) → String

/-- `appendFormat:@"%@:%@-%@\n"` for one log entry. -/
def logLine (describe : Describe) (c : Context ManagedObject) (log : ChoreLogMO) : String :=
  describe.date log.when ++ ":" ++
    describe.object (log.person_who_did_it.map fun i => (i,c.object? i)) ++ "-" ++
    describe.object (log.chore_done.map fun i => (i,c.object? i)) ++ "\n"

def ManagedObject.asChoreLog : ManagedObject → Option ChoreLogMO
  | .choreLog log => some log
  | _ => none

/-- What the user does; the texts, rows and date are those of the fields at that moment. -/
inductive Event
  | choreTapped (choreField : String)
  | personTapped (personField : String)
  | choreLogTapped (choreRow personRow : ℤ) (date : NSDate)
  | deleteTapped

namespace ViewController

variable (describe : Describe) (env : CoreData)

def updateLogList (s : ViewController) : Except Failure ViewController := do
  let results ← executeFetchRequest env .ChoreLog s.context
  let logs := results.filterMap fun x => x.2.asChoreLog
  return { s with persistedData := String.join (logs.map (logLine describe s.context)) }

def updateChoreRoller (s : ViewController) : Except Failure ViewController := do
  let results ← executeFetchRequest env .Chore s.context
  return { s with choreRollerHelper := s.choreRollerHelper.setArray (results.map Prod.fst) }

def updatePersonRoller (s : ViewController) : Except Failure ViewController := do
  let results ← executeFetchRequest env .Person s.context
  return { s with personRollerHelper := s.personRollerHelper.setArray (results.map Prod.fst) }

def viewDidLoad (c : Context ManagedObject) (text : String) : Except Failure ViewController := do
  let s ← updateChoreRoller env ⟨c,⟨[]⟩,⟨[]⟩,text⟩
  let s ← updatePersonRoller env s
  updateLogList describe env s

def choreTapped (choreField : String) (s : ViewController) : Except Failure ViewController := do
  let (choreMO,c) := createChoreMO s.context
  let c ← send choreMO (.setChore_name (some choreField)) c
  let c ← saveContext env c
  let s ← updateLogList describe env { s with context := c }
  updateChoreRoller env s

def personTapped (personField : String) (s : ViewController) : Except Failure ViewController := do
  let (personMO,c) := createPersonMO s.context
  let c ← send personMO (.setPerson_name (some personField)) c
  let c ← saveContext env c
  updatePersonRoller env { s with context := c }

def choreLogTapped (choreRow personRow : ℤ) (date : NSDate) (s : ViewController) :
    Except Failure ViewController := do
  let choreMO ← s.choreRollerHelper.getItemFromArray choreRow
  let personMO ← s.choreRollerHelper.getItemFromArray personRow
  let (choreLogMO,c) := createChoreMO s.context
  let c ← send choreLogMO (.setChore_done (some choreMO)) c
  let c ← send choreLogMO (.setPerson_who_did_it (some personMO)) c
  let c ← send choreLogMO (.setWhen (some date)) c
  let c ← saveContext env c
  return { s with context := c }

def deleteChores (s : ViewController) : Except Failure ViewController := do
  let results ← executeFetchRequest env .Chore s.context
  let c ← saveContext env (deleteAll results s.context)
  updateLogList describe env { s with context := c }

def deletePersons (s : ViewController) : Except Failure ViewController := do
  let results ← executeFetchRequest env .Person s.context
  let c ← saveContext env (deleteAll results s.context)
  updateLogList describe env { s with context := c }

def deleteTapped (s : ViewController) : Except Failure ViewController := do
  let s ← deleteChores describe env s
  let s ← deletePersons describe env s
  let s ← updatePersonRoller env s
  updateChoreRoller env s

end ViewController

open ViewController

def ViewController.step (describe : Describe) (s : ViewController) :
    CoreData × Event → Except Failure ViewController
  | (env,.choreTapped choreField) => s.choreTapped describe env choreField
  | (env,.personTapped personField) => s.personTapped env personField
  | (env,.choreLogTapped choreRow personRow date) => s.choreLogTapped env choreRow personRow date
  | (env,.deleteTapped) => s.deleteTapped describe env

/-! ### Pickers in sync -/

def ViewController.InSync (s : ViewController) : Prop :=
  s.choreRollerHelper.Holds .Chore s.context ∧ s.personRollerHelper.Holds .Person s.context

variable {describe : Describe} {env : CoreData} {s t : ViewController}

theorem updateLogList_eq_ok (h : s.updateLogList describe env = .ok t) :
    t.context = s.context ∧ t.choreRollerHelper = s.choreRollerHelper ∧
      t.personRollerHelper = s.personRollerHelper := by
  obtain ⟨results,_,h⟩ := bind_eq_ok.mp h
  obtain rfl := Except.ok.inj h
  exact ⟨rfl,rfl,rfl⟩

theorem updateChoreRoller_eq_ok (h : s.updateChoreRoller env = .ok t) :
    t.context = s.context ∧ t.choreRollerHelper.Holds .Chore s.context ∧
      t.personRollerHelper = s.personRollerHelper ∧ t.persistedData = s.persistedData := by
  obtain ⟨results,hfetch,h⟩ := bind_eq_ok.mp h
  obtain rfl := Except.ok.inj h
  exact ⟨rfl,PickerViewHelper.holds_fetched hfetch s.choreRollerHelper,rfl,rfl⟩

theorem updatePersonRoller_eq_ok (h : s.updatePersonRoller env = .ok t) :
    t.context = s.context ∧ t.choreRollerHelper = s.choreRollerHelper ∧
      t.personRollerHelper.Holds .Person s.context ∧ t.persistedData = s.persistedData := by
  obtain ⟨results,hfetch,h⟩ := bind_eq_ok.mp h
  obtain rfl := Except.ok.inj h
  exact ⟨rfl,rfl,PickerViewHelper.holds_fetched hfetch s.personRollerHelper,rfl⟩

structure Created (entity : Entity) (c d : Context ManagedObject) : Prop where
  new : (d.object? c.next).map ManagedObject.entity = some entity
  old : ∀ i, i ≠ c.next → d.object? i = c.object? i

theorem created_of_save {entity : Entity} {setter : Setter} {c d e : Context ManagedObject}
    (hsend : send c.next setter (c.insertNewObject (.new entity)) = .ok d)
    (hsave : saveContext env d = .ok e) : Created entity c e := by
  constructor
  · have hnew : (ManagedObject.new entity).entity = entity := by cases entity <;> rfl
    rw [saveContext_object? hsave,send_entity hsend,Context.object?_insertNewObject,if_pos rfl,
      Option.map_some,hnew]
  · intro i hi
    rw [saveContext_object? hsave,send_object?_of_ne hsend hi,Context.object?_insertNewObject,
      if_neg hi]

theorem PickerViewHelper.Holds.of_created {entity other : Entity} {c d : Context ManagedObject}
    {h : PickerViewHelper} (hc : h.Holds other c) (hcreated : Created entity c d)
    (hne : entity ≠ other) : h.Holds other d := by
  refine ⟨hc.1,fun i => (hc.2 i).trans ?_⟩
  by_cases hi : i = c.next
  · rw [hi,hcreated.new,Context.object?_next]
    simp [hne]
  · rw [hcreated.old i hi]

theorem choreTapped_eq_ok {choreField : String} (h : s.choreTapped describe env choreField = .ok t) :
    ∃ d u, Created .Chore s.context d ∧
      updateLogList describe env { s with context := d } = .ok u ∧ u.updateChoreRoller env = .ok t := by
  obtain ⟨c,hsend,h⟩ := bind_eq_ok.mp h
  obtain ⟨d,hsave,h⟩ := bind_eq_ok.mp h
  obtain ⟨u,hlog,h⟩ := bind_eq_ok.mp h
  exact ⟨d,u,created_of_save hsend hsave,hlog,h⟩

theorem personTapped_eq_ok {personField : String} (h : s.personTapped env personField = .ok t) :
    ∃ d, Created .Person s.context d ∧ updatePersonRoller env { s with context := d } = .ok t := by
  obtain ⟨c,hsend,h⟩ := bind_eq_ok.mp h
  obtain ⟨d,hsave,h⟩ := bind_eq_ok.mp h
  exact ⟨d,created_of_save hsend hsave,h⟩

theorem inSync_choreTapped {choreField : String} (hs : s.InSync)
    (h : s.choreTapped describe env choreField = .ok t) : t.InSync := by
  obtain ⟨d,u,hcreated,hlog,h⟩ := choreTapped_eq_ok h
  obtain ⟨hu,_,huperson⟩ := updateLogList_eq_ok hlog
  obtain ⟨ht,htchore,htperson,_⟩ := updateChoreRoller_eq_ok h
  refine ⟨ht ▸ htchore,?_⟩
  rw [htperson,huperson,ht,hu]
  exact hs.2.of_created hcreated (by decide)

theorem inSync_personTapped {personField : String} (hs : s.InSync)
    (h : s.personTapped env personField = .ok t) : t.InSync := by
  obtain ⟨d,hcreated,h⟩ := personTapped_eq_ok h
  obtain ⟨ht,htchore,htperson,_⟩ := updatePersonRoller_eq_ok h
  refine ⟨?_,ht ▸ htperson⟩
  rw [htchore,ht]
  exact hs.1.of_created hcreated (by decide)

theorem inSync_of_rollers {u : ViewController} (hperson : s.updatePersonRoller env = .ok u)
    (hchore : u.updateChoreRoller env = .ok t) : t.InSync := by
  obtain ⟨hu,_,huperson,_⟩ := updatePersonRoller_eq_ok hperson
  obtain ⟨ht,htchore,htperson,_⟩ := updateChoreRoller_eq_ok hchore
  refine ⟨ht ▸ htchore,?_⟩
  rw [htperson,ht,hu]
  exact huperson

def Deleted (env : CoreData) (entity : Entity) (c d : Context ManagedObject) : Prop :=
  ∃ results, executeFetchRequest env entity c = .ok results ∧
    saveContext env (deleteAll results c) = .ok d

theorem Deleted.entity {entity : Entity} {c d : Context ManagedObject} (h : Deleted env entity c d)
    (i : ObjectID) : (d.object? i).map ManagedObject.entity =
      if (c.object? i).map ManagedObject.entity = some entity then none
      else (c.object? i).map ManagedObject.entity := by
  obtain ⟨results,hfetch,hsave⟩ := h
  rw [saveContext_object? hsave,entity_deleteAll]
  exact if_congr (mem_fetched hfetch) rfl rfl

theorem deleteTapped_eq_ok (h : s.deleteTapped describe env = .ok t) :
    ∃ (c : Context ManagedObject) (u v w : ViewController),
      Deleted env .Chore s.context c ∧ Deleted env .Person c u.context ∧
        u.updateLogList describe env = .ok v ∧ v.updatePersonRoller env = .ok w ∧
          w.updateChoreRoller env = .ok t := by
  obtain ⟨u,hchores,h⟩ := bind_eq_ok.mp h
  obtain ⟨v,hpersons,h⟩ := bind_eq_ok.mp h
  obtain ⟨w,hperson,hchore⟩ := bind_eq_ok.mp h
  obtain ⟨chores,hfetchC,hchores⟩ := bind_eq_ok.mp hchores
  obtain ⟨c,hsaveC,hlogC⟩ := bind_eq_ok.mp hchores
  obtain ⟨persons,hfetchP,hpersons⟩ := bind_eq_ok.mp hpersons
  obtain ⟨d,hsaveP,hlogP⟩ := bind_eq_ok.mp hpersons
  obtain rfl : u.context = c := (updateLogList_eq_ok hlogC).1
  exact ⟨u.context,{ u with context := d },v,w,⟨chores,hfetchC,hsaveC⟩,⟨persons,hfetchP,hsaveP⟩,
    hlogP,hperson,hchore⟩

theorem inSync_deleteTapped (h : s.deleteTapped describe env = .ok t) : t.InSync := by
  obtain ⟨c,u,v,w,_,_,_,hperson,hchore⟩ := deleteTapped_eq_ok h
  exact inSync_of_rollers hperson hchore

theorem deleteTapped_empties (h : s.deleteTapped describe env = .ok t) :
    (∀ i, (t.context.object? i).map ManagedObject.entity ≠ some .Chore ∧
        (t.context.object? i).map ManagedObject.entity ≠ some .Person) ∧
      t.choreRollerHelper.pickerData = [] ∧ t.personRollerHelper.pickerData = [] := by
  have hsync := inSync_deleteTapped h
  obtain ⟨c,u,v,w,hchores,hpersons,hlog,hperson,hchore⟩ := deleteTapped_eq_ok h
  have hv : v.context = u.context := (updateLogList_eq_ok hlog).1
  have hw : w.context = v.context := (updatePersonRoller_eq_ok hperson).1
  have ht : t.context = w.context := (updateChoreRoller_eq_ok hchore).1
  have hgone : ∀ i, (t.context.object? i).map ManagedObject.entity ≠ some .Chore ∧
      (t.context.object? i).map ManagedObject.entity ≠ some .Person := by
    intro i
    rw [ht,hw,hv,hpersons.entity,hchores.entity]
    by_cases hchore : (s.context.object? i).map ManagedObject.entity = some .Chore
    · simp [hchore]
    · by_cases hperson : (s.context.object? i).map ManagedObject.entity = some .Person
      · simp [hperson]
      · simp [hchore,hperson]
  refine ⟨hgone,?_,?_⟩
  · exact List.eq_nil_iff_forall_not_mem.mpr fun i hi => (hgone i).1 ((hsync.1.2 i).mp hi)
  · exact List.eq_nil_iff_forall_not_mem.mpr fun i hi => (hgone i).2 ((hsync.2.2 i).mp hi)

theorem inSync_viewDidLoad {c : Context ManagedObject} {text : String}
    (h : viewDidLoad describe env c text = .ok t) : t.InSync := by
  obtain ⟨u,hchore,h⟩ := bind_eq_ok.mp h
  obtain ⟨v,hperson,hlog⟩ := bind_eq_ok.mp h
  obtain ⟨hu,huchore,_⟩ := updateChoreRoller_eq_ok hchore
  obtain ⟨hv,hvchore,hvperson,_⟩ := updatePersonRoller_eq_ok hperson
  obtain ⟨ht,htchore,htperson⟩ := updateLogList_eq_ok hlog
  constructor
  · rw [htchore,hvchore,ht,hv,hu]
    exact huchore
  · rw [htperson,ht,hv]
    exact hvperson

/-! ### Logging a chore -/

theorem getItemFromArray_cases (row : ℤ) (h : PickerViewHelper) :
    h.getItemFromArray row = .error .rangeException ∨ ∃ i, h.getItemFromArray row = .ok i := by
  simp only [PickerViewHelper.getItemFromArray]
  cases h.pickerData[(row % UInt64.size).toNat]? with
  | none => exact Or.inl rfl
  | some i => exact Or.inr ⟨i,rfl⟩

/-- A chore does not respond to a setter of the log's. -/
theorem send_setChore_done_createChoreMO (c : Context ManagedObject) (chore : Option ObjectID) :
    send (createChoreMO c).1 (.setChore_done chore) (createChoreMO c).2 =
      .error .unrecognizedSelector := by
  simp [send,createChoreMO,insertNewObjectForEntity,ManagedObject.new,ManagedObject.performSelector]

/-- The action never returns: a row is out of the bounds of the chores, or else the object
it created is a chore. -/
theorem choreLogTapped_fails (env : CoreData) (choreRow personRow : ℤ) (date : NSDate)
    (s : ViewController) :
    s.choreLogTapped env choreRow personRow date = .error .rangeException ∨
      s.choreLogTapped env choreRow personRow date = .error .unrecognizedSelector := by
  rcases getItemFromArray_cases choreRow s.choreRollerHelper with hchore | ⟨i,hchore⟩
  · exact Or.inl (by simp [ViewController.choreLogTapped,hchore,bind,Except.bind])
  rcases getItemFromArray_cases personRow s.choreRollerHelper with hperson | ⟨j,hperson⟩
  · exact Or.inl (by simp [ViewController.choreLogTapped,hchore,hperson,bind,Except.bind])
  · refine Or.inr ?_
    simp [ViewController.choreLogTapped,hchore,hperson,bind,Except.bind,
      send_setChore_done_createChoreMO]

theorem choreLogTapped_ne_ok (env : CoreData) (choreRow personRow : ℤ) (date : NSDate)
    (s t : ViewController) : s.choreLogTapped env choreRow personRow date ≠ .ok t := by
  rcases choreLogTapped_fails env choreRow personRow date s with hfail | hfail
  · simp [hfail]
  · simp [hfail]

theorem inSync_step {e : CoreData × Event} (hs : s.InSync) (h : s.step describe e = .ok t) :
    t.InSync := by
  obtain ⟨env,e⟩ := e
  cases e with
  | choreTapped choreField => exact inSync_choreTapped hs h
  | personTapped personField => exact inSync_personTapped hs h
  | choreLogTapped choreRow personRow date =>
    exact absurd h (choreLogTapped_ne_ok env choreRow personRow date s t)
  | deleteTapped => exact inSync_deleteTapped h

theorem inSync_run {c : Context ManagedObject} {text : String}
    (hload : viewDidLoad describe env c text = .ok s) {es : List (CoreData × Event)}
    (hrun : run (ViewController.step describe) s es = .ok t) : t.InSync :=
  run_invariant (fun _ _ _ => inSync_step) (inSync_viewDidLoad hload) hrun

/-- The action returns, having added one log entry for the chore and the person that are
shown in the selected rows, changed no other object, and listed the entry. -/
def ViewController.LogsSelection (describe : Describe) (env : CoreData) (choreRow personRow : ℕ)
    (date : NSDate) (s : ViewController) : Prop :=
  ∃ t, s.choreLogTapped env choreRow personRow date = .ok t ∧
    ∃ log, s.context.object? log = none ∧
      t.context.object? log = some (.choreLog ⟨some date,s.choreRollerHelper.pickerData[choreRow]?,
        s.personRollerHelper.pickerData[personRow]?⟩) ∧
      (∀ i, i ≠ log → t.context.object? i = s.context.object? i) ∧
      ∃ before after, t.persistedData = before ++ logLine describe t.context
        ⟨some date,s.choreRollerHelper.pickerData[choreRow]?,
          s.personRollerHelper.pickerData[personRow]?⟩ ++ after

/-- No selection is ever logged. -/
theorem selection_never_logged (describe : Describe) (env : CoreData) (choreRow personRow : ℕ)
    (date : NSDate) (s : ViewController) :
    ¬ s.LogsSelection describe env choreRow personRow date := by
  rintro ⟨t,ht,_⟩
  exact choreLogTapped_ne_ok env choreRow personRow date s t ht

def dishes : ViewController where
  context := ((Context.empty.insertNewObject (.chore ⟨some "Dishes"⟩)).insertNewObject
    (.person ⟨some "Ann"⟩)).committed
  choreRollerHelper := ⟨[0]⟩
  personRollerHelper := ⟨[1]⟩
  persistedData := ""

theorem dishes_object? (i : ObjectID) : dishes.context.object? i =
    if i = 1 then some (.person ⟨some "Ann"⟩)
    else if i = 0 then some (.chore ⟨some "Dishes"⟩) else none := by
  have hempty : (Context.empty : Context ManagedObject).object? i = none := rfl
  simp only [dishes,Context.object?_committed,Context.object?_insertNewObject,hempty]
  rfl

theorem dishes_entity (i : ObjectID) : (dishes.context.object? i).map ManagedObject.entity =
    if i = 1 then some .Person else if i = 0 then some .Chore else none := by
  rw [dishes_object?]
  split_ifs <;> rfl

theorem dishes_inSync : dishes.InSync := by
  refine ⟨⟨by decide,fun i => ?_⟩,by decide,fun i => ?_⟩
  all_goals
    rw [dishes_entity]
    simp only [dishes,List.mem_singleton]
    split_ifs <;> simp_all

/-- Ann's dishes are not logged although both rows are in sync and in range. -/
theorem dishes_not_logged :
    dishes.InSync ∧ 0 < dishes.choreRollerHelper.numberOfRowsInComponent ∧
      0 < dishes.personRollerHelper.numberOfRowsInComponent ∧
      ¬ dishes.LogsSelection ⟨fun date => toString date,fun object => toString (object.map Prod.fst)⟩
        ⟨⟨id,List.Perm.refl⟩,true,true⟩ 0 0 7 := by
  refine ⟨dishes_inSync,by decide,by decide,?_⟩
  rintro ⟨t,ht,_⟩
  cases ht

end CoreDataCoursera
end CourseraObjC
